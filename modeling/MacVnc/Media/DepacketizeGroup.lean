import MacVnc.Media.Depacketize
/-!
# Resolving a group

What happens to a group that is due: reassembly yields NAL units with their two
header bytes, whose parameter sets are stored and whose slices make the picture,
so no index of the source is out of range and the outcome is one of five.
-/

namespace MacVnc.Media.DepacketizeGroup

open MacVnc.Media.Srtp (RtpPacket slice slice_eq_some sub64)
open MacVnc.Media.Depacketize

/-! ## Reassembly yields NAL units of two bytes or more -/

/-- Every NAL unit has its two header bytes. -/
def Headed (nals : List Nal) : Prop := ∀ nal ∈ nals, 2 ≤ nal.length

theorem headed_nil : Headed [] := by
  intro nal hnal
  cases hnal

theorem Headed.append {first second : List Nal} (h : Headed first) (h' : Headed second) :
    Headed (first ++ second) := by
  intro nal hnal
  rcases List.mem_append.1 hnal with hfirst | hsecond
  · exact h nal hfirst
  · exact h' nal hsecond

theorem headed_singleton {nal : Nal} (h : 2 ≤ nal.length) : Headed [nal] := by
  intro other hother
  rwa [List.mem_singleton.1 hother]

theorem headed_parseParameterAp {rest : List UInt8} {params nals : List Nal}
    (hparams : Headed params) (h : parseParameterAp rest params = some nals) : Headed nals := by
  fun_induction parseParameterAp rest params with
  | case1 => cases h
  | case2 =>
      cases h
      exact hparams
  | case3 => cases h
  | case4 => cases h
  | case5 => cases h
  | case6 => cases h
  | case7 hi lo tail params size hsize nal hheader kind hkind hroom ih =>
      apply ih (hparams.append (headed_singleton _)) h
      rw [List.length_take]
      omega
  | case8 hi lo tail params size hsize nal hheader kind hkind ih => exact ih hparams h

theorem headed_splitAggregate {rest : List UInt8} {nals : List Nal}
    (h : splitAggregate rest = .ok nals) : Headed nals := by
  fun_induction splitAggregate rest generalizing nals with
  | case1 =>
      cases h
      exact headed_nil
  | case2 => cases h
  | case3 => cases h
  | case4 hi lo tail n hn =>
      rename_i ih
      cases hrest : splitAggregate (tail.drop n) with
      | error e =>
          rw [hrest] at h
          cases h
      | ok later =>
          rw [hrest] at h
          cases h
          apply Headed.append (headed_singleton _) (ih hrest)
          rw [List.length_take]
          omega

/-- The NAL units and the open fragment have their header bytes. -/
structure Assembly.Headed (a : Assembly) : Prop where
  nals : DepacketizeGroup.Headed a.nals
  fragment : ∀ nal, a.fragment = some nal → 2 ≤ nal.length

theorem be16_isSome {b : List UInt8} {o : Nat} (h : o + 2 ≤ b.length) :
    ∃ n, be16 b o = some n := by
  rw [be16, slice_eq_some (by omega) h]
  exact ⟨_, rfl⟩

theorem addFragment_headed {a a' : Assembly} (ha : Assembly.Headed a) {h0 h1 h2 : UInt8}
    {donl : UInt16} {piece : List UInt8} (h : a.addFragment h0 h1 h2 donl piece = .ok a') :
    Assembly.Headed a' := by
  unfold Assembly.addFragment at h
  dsimp only at h
  by_cases hrestart : decide (h2 &&& 128 ≠ 0) = true ∧ a.fragment.isSome = true
  · rw [if_pos hrestart] at h
    cases h
  rw [if_neg hrestart] at h
  generalize (if decide (h2 &&& 128 ≠ 0) = true then donl else a.fragmentDonl) = carried at h
  by_cases hdonl : carried ≠ donl
  · rw [if_pos hdonl] at h
    cases h
  rw [if_neg hdonl] at h
  cases hfragment : (if decide (h2 &&& 128 ≠ 0) = true
      then some [(h0 &&& 129) ||| ((h2 &&& 63) <<< (1 : UInt8)), h1] else a.fragment) with
  | none =>
      rw [hfragment] at h
      cases h
  | some nal =>
      have hlen : 2 ≤ (nal ++ piece).length := by
        have : 2 ≤ nal.length := by
          by_cases hstart : decide (h2 &&& 128 ≠ 0) = true
          · rw [if_pos hstart] at hfragment
            cases hfragment
            exact le_refl _
          · rw [if_neg hstart] at hfragment
            exact ha.fragment nal hfragment
        rw [List.length_append]
        omega
      rw [hfragment] at h
      dsimp only at h
      by_cases hend : h2 &&& 64 ≠ 0
      · rw [if_pos hend] at h
        cases h
        exact ⟨ha.nals.append (headed_singleton hlen), fun _ hnone => by cases hnone⟩
      · rw [if_neg hend] at h
        cases h
        refine ⟨ha.nals, fun other hother => ?_⟩
        cases hother
        exact hlen

/-- The loop body never indexes out of range. -/
theorem add_isSome (apple : Bool) {a : Assembly} (ha : Assembly.Headed a) (b : List UInt8) :
    ∃ r, a.add apple b = some r ∧ ∀ a', r = .ok a' → Assembly.Headed a' := by
  unfold Assembly.add
  by_cases hshort : b.length < 2
  · exact ⟨_, if_pos hshort, fun _ h => by cases h⟩
  rw [if_neg hshort, List.getElem?_eq_getElem (by omega : 0 < b.length),
    List.getElem?_eq_getElem (by omega : 1 < b.length), Option.bind_some, Option.bind_some]
  generalize b[0] = h0
  generalize b[1] = h1
  simp only []
  generalize hkind : h0 >>> 1 &&& 63 = kind
  by_cases hdonl : apple = true ∧ b.length < (if kind = 49 then 3 else 2) + 2
  · exact ⟨_, if_pos hdonl, fun _ h => by cases h⟩
  rw [if_neg hdonl]
  obtain ⟨donl, hdonlValue⟩ :
      ∃ donl, (if apple = true then be16 b (if kind = 49 then 3 else 2) else some 0) =
        some donl := by
    by_cases happle : apple = true
    · rw [if_pos happle]
      exact be16_isSome (by
        have : ¬b.length < (if kind = 49 then 3 else 2) + 2 := fun h => hdonl ⟨happle, h⟩
        omega)
    · rw [if_neg happle]
      exact ⟨0, rfl⟩
  rw [hdonlValue, Option.bind_some]
  by_cases haggregate : kind = 48
  · rw [if_pos haggregate]
    by_cases hopen : a.fragment.isSome = true
    · exact ⟨_, if_pos hopen, fun _ h => by cases h⟩
    · rw [if_neg hopen]
      refine ⟨_, rfl, ?_⟩
      intro a' ha'
      cases hsplit : splitAggregate (b.drop (if apple = true then 4 else 2)) with
      | error e =>
          rw [hsplit] at ha'
          cases ha'
      | ok nals =>
          rw [hsplit] at ha'
          cases ha'
          exact ⟨ha.nals.append (headed_splitAggregate hsplit), ha.fragment⟩
  rw [if_neg haggregate]
  by_cases hfu : kind = 49
  · rw [if_pos hfu]
    by_cases hbody : b.length ≤ if apple = true then 5 else 3
    · exact ⟨_, if_pos hbody, fun _ h => by cases h⟩
    · have hthree : 2 < b.length := by
        split at hbody <;> omega
      rw [if_neg hbody, List.getElem?_eq_getElem hthree, Option.bind_some,
        slice_eq_some (by omega) (le_refl _), Option.bind_some]
      have ha' : Assembly.Headed { a with first := some (a.first.getD donl) } :=
        ⟨ha.nals, ha.fragment⟩
      exact ⟨_, rfl, fun _ h => addFragment_headed ha' h⟩
  rw [if_neg hfu]
  by_cases hopen : a.fragment.isSome = true
  · exact ⟨_, if_pos hopen, fun _ h => by cases h⟩
  · have hbody : (if apple = true then 4 else 2) ≤ b.length := by
      rw [if_neg hfu] at hdonl
      split
      · rename_i happle
        have : ¬b.length < 2 + 2 := fun h => hdonl ⟨happle, h⟩
        omega
      · omega
    rw [if_neg hopen, slice_eq_some hbody (le_refl _), Option.bind_some]
    refine ⟨_, rfl, ?_⟩
    intro a' h
    cases h
    exact ⟨ha.nals.append (headed_singleton (by simp)), ha.fragment⟩

theorem addAll_isSome (apple : Bool) {a : Assembly} (ha : Assembly.Headed a)
    (payloads : List (List UInt8)) :
    ∃ r, a.addAll apple payloads = some r ∧ ∀ a', r = .ok a' → Assembly.Headed a' := by
  induction payloads generalizing a with
  | nil =>
      refine ⟨_, rfl, fun a' h => ?_⟩
      cases h
      exact ha
  | cons b rest ih =>
      obtain ⟨r, hr, hheaded⟩ := add_isSome apple ha b
      unfold Assembly.addAll
      rw [hr]
      cases r with
      | error e => exact ⟨_, rfl, fun _ h => by cases h⟩
      | ok a' => exact ih (hheaded a' rfl)

theorem reassemble_isSome (payloads : List (List UInt8)) (apple : Bool) :
    ∃ r, reassemble payloads apple = some r ∧
      ∀ nals donl, r = .ok (nals, donl) → Headed nals := by
  have hempty : Assembly.Headed Assembly.empty := ⟨headed_nil, fun _ h => by cases h⟩
  obtain ⟨r, hr, hheaded⟩ := addAll_isSome apple hempty payloads
  unfold reassemble
  rw [hr]
  cases r with
  | error e => exact ⟨_, rfl, fun _ _ h => by cases h⟩
  | ok a =>
      dsimp only
      by_cases hopen : a.fragment.isSome = true
      · exact ⟨_, if_pos hopen, fun _ _ h => by cases h⟩
      · rw [if_neg hopen]
        cases a.first with
        | none => exact ⟨_, rfl, fun _ _ h => by cases h⟩
        | some donl =>
            refine ⟨_, rfl, fun nals donl h => ?_⟩
            cases h
            exact (hheaded a rfl).nals

/-! ## Building a picture -/

def isParam (nal : Nal) : Bool := (nalKind nal).any fun kind => 32 ≤ kind && kind ≤ 34

/-- A NAL unit with slice data. -/
def isSlice (nal : Nal) : Bool := 3 ≤ nal.length && (nalKind nal).any fun kind => kind ≤ 31

def isIrap (nal : Nal) : Bool := (nalKind nal).any fun kind => 16 ≤ kind && kind ≤ 21

def startsPicture (nal : Nal) : Bool := nal[2]?.any fun (b : UInt8) => b &&& 128 ≠ 0

def addSlice (pic : Picture) (nal : Nal) : Picture :=
  { data := pic.data ++ startCode ++ nal
    keyframe := pic.keyframe || isIrap nal
    vcl := true
    firstSlice := pic.firstSlice || startsPicture nal }

/-- The parameter sets of a group that may be stored. -/
def storable (nals : List Nal) : List Nal :=
  nals.filter fun nal => isParam nal && nal.length ≤ 65536

theorem headed_insertParam {params : List Nal} (h : Headed params) {nal : Nal}
    (hnal : 2 ≤ nal.length) : Headed (insertParam params nal) := by
  unfold insertParam
  split
  · exact h
  · intro other hother
    rcases List.mem_orderedInsert _ |>.1 hother with rfl | hold
    · exact hnal
    · exact h other hold

theorem headed_storeParam {params : List Nal} (h : Headed params) {nal : Nal}
    (hnal : 2 ≤ nal.length) : Headed (storeParam params nal) := by
  unfold storeParam
  split
  · exact headed_insertParam h hnal
  · exact h

theorem headed_foldl_storeParam {params nals : List Nal} (h : Headed params)
    (hnals : Headed nals) : Headed (nals.foldl storeParam params) := by
  induction nals generalizing params with
  | nil => exact h
  | cons nal rest ih =>
      apply ih (headed_storeParam h (hnals nal (by simp)))
      exact fun other hother => hnals other (List.mem_cons_of_mem _ hother)

theorem nalKind_eq (nal : Nal) (h : 0 < nal.length) :
    nalKind nal = some (nal[0] >>> 1 &&& 63) := by
  rw [nalKind, List.getElem?_eq_getElem h, Option.map_some]

/-- One NAL unit of a picture: a parameter set is stored, a slice appended and
anything else skipped. -/
theorem addNal_eq (d : Depacketizer) (pic : Picture) {nal : Nal} (h : 2 ≤ nal.length) :
    ∃ counters, d.addNal pic nal = some
      ({ d with params := (storable [nal]).foldl storeParam d.params, counters },
        ([nal].filter isSlice).foldl addSlice pic) := by
  have hkind := nalKind_eq nal (by omega)
  unfold Depacketizer.addNal
  rw [hkind, Option.bind_some]
  generalize hvalue : nal[0] >>> 1 &&& 63 = kind at hkind
  by_cases hparam : 32 ≤ kind ∧ kind ≤ 34
  · have hisParam : isParam nal = true := by simp [isParam, hkind, hparam]
    have hnotSlice : isSlice nal = false := by
      have : ¬kind ≤ 31 := by
        intro hle
        have hlow := UInt8.le_iff_toNat_le.1 hparam.1
        have hhigh := UInt8.le_iff_toNat_le.1 hle
        exact absurd (hlow.trans hhigh) (by decide)
      simp [isSlice, hkind, this]
    refine ⟨d.counters, ?_⟩
    rw [if_pos hparam]
    by_cases hsize : nal.length ≤ 65536
    · simp [storable, hisParam, hnotSlice, hsize]
    · simp [storable, hisParam, hnotSlice, hsize]
  · rw [if_neg hparam]
    have hisParam : isParam nal = false := by
      simpa [isParam, hkind] using hparam
    by_cases hother : 31 < kind ∨ nal.length < 3
    · have hnotSlice : isSlice nal = false := by
        rcases hother with hkinds | hshort
        · simp [isSlice, hkind, UInt8.not_le.2 hkinds]
        · simp [isSlice, Nat.not_le.2 hshort]
      refine ⟨d.counters, ?_⟩
      rw [if_pos hother]
      simp [storable, hisParam, hnotSlice]
    · have hlen : 2 < nal.length := by
        by_contra hle
        exact hother (Or.inr (by omega))
      have hisSlice : isSlice nal = true := by
        have : kind ≤ 31 := by
          by_contra hgt
          exact hother (Or.inl (UInt8.not_le.1 hgt))
        simp [isSlice, hkind, this]
        omega
      rw [if_neg hother, List.getElem?_eq_getElem hlen, Option.bind_some]
      by_cases hleading : nal[2] &&& 128 ≠ 0
      · refine ⟨d.counters, ?_⟩
        simp [storable, hisParam, hisSlice, addSlice, isIrap, startsPicture, hkind, hleading,
          Depacketizer.countIf, hlen]
      · refine ⟨(d.count .continuationSlices).counters, ?_⟩
        simp at hleading
        simp [storable, hisParam, hisSlice, addSlice, isIrap, startsPicture, hkind, hleading,
          Depacketizer.countIf, Depacketizer.count, hlen]

theorem addNals_eq (d : Depacketizer) (pic : Picture) {nals : List Nal} (h : Headed nals) :
    ∃ counters, d.addNals pic nals = some
      ({ d with params := (storable nals).foldl storeParam d.params, counters },
        (nals.filter isSlice).foldl addSlice pic) := by
  induction nals generalizing d pic with
  | nil => exact ⟨d.counters, rfl⟩
  | cons nal rest ih =>
      obtain ⟨first, hfirst⟩ := addNal_eq d pic (h nal (by simp))
      have hrest : Headed rest := fun other hother => h other (List.mem_cons_of_mem _ hother)
      rcases ih { d with params := (storable [nal]).foldl storeParam d.params, counters := first }
        (([nal].filter isSlice).foldl addSlice pic) hrest with ⟨counters, hcounters⟩
      have hstorable : storable (nal :: rest) = storable [nal] ++ storable rest :=
        List.filter_append [nal] rest
      have hslices : (nal :: rest).filter isSlice = [nal].filter isSlice ++ rest.filter isSlice :=
        List.filter_append [nal] rest
      refine ⟨counters, ?_⟩
      rw [hstorable, hslices, List.foldl_append, List.foldl_append]
      unfold Depacketizer.addNals
      rw [hfirst]
      exact hcounters

def pictureOf (slices : List Nal) : Picture :=
  { data := slices.flatMap fun nal => startCode ++ nal
    keyframe := slices.any isIrap
    vcl := !slices.isEmpty
    firstSlice := slices.any startsPicture }

theorem foldl_addSlice (slices : List Nal) :
    slices.foldl addSlice Picture.empty = pictureOf slices := by
  induction slices using List.reverseRecOn with
  | nil => rfl
  | append_singleton slices nal ih =>
      rw [List.foldl_append, ih]
      simp [pictureOf, addSlice]

/-! ## Resolving a group -/

def paramsAfter (d : Depacketizer) (nals : List Nal) : List Nal :=
  (storable nals).foldl storeParam d.params

/-- The group is complete up to its marker and reassembles to these NAL units. -/
structure Contents (d : Depacketizer) (key : Key) (g : Group) (nals : List Nal)
    (donl : UInt16) : Prop where
  complete : ∃ last, g.marker = some last ∧ consecutive (sortByDistance last g.packets) = true ∧
    reassemble ((sortByDistance last g.packets).map RtpPacket.payload) (d.appleDonl key.1) =
      some (.ok (nals, donl))
  headed : Headed nals

def unitOf (d : Depacketizer) (key : Key) (nals : List Nal) (donl : UInt16) (pref : List UInt8)
    (tile : Nat) : AccessUnit :=
  { generation := d.generation
    lossEpoch := d.lossEpoch
    data :=
      (if (nals.filter isSlice).any isIrap then pref else []) ++
        (pictureOf (nals.filter isSlice)).data
    tile
    pts := d.nextPts
    rtpTimestamp := key.2
    donl
    key := (nals.filter isSlice).any isIrap }

/-- What resolving a group can do. -/
inductive Settles (d : Depacketizer) (key : Key) (g : Group) : Outcome → Depacketizer → Prop
  | incomplete (reason : Counter) : Settles d key g (.discarded reason) (d.recordLoss reason)
  | headless {nals donl} (counters) : Contents d key g nals donl →
      (nals.filter isSlice).any startsPicture = false →
      Settles d key g (.discarded .missingFirstSlice)
        ({ d with params := paramsAfter d nals, counters }.recordLoss .missingFirstSlice)
  | noSlices {nals donl} (counters) : Contents d key g nals donl → nals.filter isSlice = [] →
      Settles d key g (.discarded .noVcl) { d with params := paramsAfter d nals, counters }
  | preKey {nals donl} (counters) : Contents d key g nals donl → d.haveKey = false →
      (nals.filter isSlice).any isIrap = false →
      Settles d key g (.discarded .preKey) { d with params := paramsAfter d nals, counters }
  | emitted {nals donl pref tile} (counters) : Contents d key g nals donl →
      (nals.filter isSlice).any startsPicture = true →
      (d.haveKey = true ∨ (nals.filter isSlice).any isIrap = true) →
      parameterPrefix (paramsAfter d nals) = some pref → d.sources.idxOf? key.1 = some tile →
      Settles d key g (.emitted (unitOf d key nals donl pref tile))
        { d with
          params := paramsAfter d nals
          counters
          haveKey := true
          nextPts := d.nextPts + 1
          lastTs := d.lastTs.insert key.1 key.2 }

theorem Settles.sources {d d' : Depacketizer} {key : Key} {g : Group}
    {outcome : Outcome} (h : Settles d key g outcome d') : d'.sources = d.sources := by
  cases h <;> rfl

theorem Settles.groups {d d' : Depacketizer} {key : Key} {g : Group}
    {outcome : Outcome} (h : Settles d key g outcome d') : d'.groups = d.groups := by
  cases h <;> rfl

theorem parameterPrefix_isSome {params : List Nal} (h : Headed params) :
    ∃ pref, parameterPrefix params = some pref := by
  have hempty : ([] : Nal) ∉ params := by
    intro hmem
    have := h [] hmem
    simp at this
  exact ⟨_, if_neg hempty⟩

theorem headed_paramsAfter {d : Depacketizer} (h : Headed d.params) {nals : List Nal}
    (hnals : Headed nals) : Headed (paramsAfter d nals) :=
  headed_foldl_storeParam h fun nal hnal => hnals nal (List.mem_of_mem_filter hnal)

theorem resolve_contents {d : Depacketizer} {key : Key} {g : Group} {nals : List Nal}
    {donl : UInt16} (h : Contents d key g nals donl) :
    ∃ counters, d.resolve key g =
      { d with params := paramsAfter d nals, counters }.finish key donl
        (pictureOf (nals.filter isSlice)) := by
  obtain ⟨last, hmarker, hconsecutive, hreassemble⟩ := h.complete
  obtain ⟨counters, hcounters⟩ := addNals_eq d Picture.empty h.headed
  rw [foldl_addSlice] at hcounters
  refine ⟨counters, ?_⟩
  unfold Depacketizer.resolve
  rw [hmarker]
  dsimp only
  rw [if_neg (by rw [hconsecutive]; decide), hreassemble]
  dsimp only
  rw [hcounters]
  rfl

theorem finish_emits {d : Depacketizer} {key : Key} {donl : UInt16} {slices : List Nal}
    (hfirst : slices.any startsPicture = true)
    (hkey : d.haveKey = true ∨ slices.any isIrap = true) {pref : List UInt8}
    (hpref : parameterPrefix d.params = some pref) {tile : Nat}
    (htile : d.sources.idxOf? key.1 = some tile) :
    d.finish key donl (pictureOf slices) = some
      (.emitted
        { generation := d.generation
          lossEpoch := d.lossEpoch
          data := (if slices.any isIrap then pref else []) ++ (pictureOf slices).data
          tile
          pts := d.nextPts
          rtpTimestamp := key.2
          donl
          key := slices.any isIrap },
        { d.countIf (slices.any isIrap) .keyframes with
          haveKey := true
          nextPts := d.nextPts + 1
          lastTs := d.lastTs.insert key.1 key.2 }) := by
  have hvcl : (pictureOf slices).vcl = true := by
    cases slices with
    | nil => cases hfirst
    | cons => rfl
  have hhave : (d.haveKey || (pictureOf slices).keyframe) = true := Bool.or_eq_true_iff.2 hkey
  have hgate : ¬(d.haveKey = false ∧ (pictureOf slices).keyframe = false) := by
    rintro ⟨hnone, hframe⟩
    rw [hnone, hframe] at hhave
    cases hhave
  have hdata : (if (pictureOf slices).keyframe then
      (parameterPrefix d.params).map fun pref => pref ++ (pictureOf slices).data
      else some (pictureOf slices).data) =
      some ((if slices.any isIrap then pref else []) ++ (pictureOf slices).data) := by
    rw [hpref]
    show (if slices.any isIrap = true then _ else _) =
      some ((if slices.any isIrap then _ else _) ++ _)
    by_cases hframe : slices.any isIrap = true
    · rw [if_pos hframe, if_pos hframe, Option.map_some]
    · rw [if_neg hframe, if_neg hframe, List.nil_append]
  unfold Depacketizer.finish
  rw [if_neg (by rw [hvcl]; decide), if_neg (by rw [Bool.not_eq_false]; exact hfirst),
    if_neg hgate, hdata, Option.bind_some, htile, Option.bind_some, hhave]
  rfl

theorem resolve_incomplete {d : Depacketizer} {key : Key} {g : Group}
    (h : ∀ nals donl, ¬Contents d key g nals donl) :
    ∃ reason, d.resolve key g = some (d.lose reason) := by
  unfold Depacketizer.resolve
  cases hmarker : g.marker with
  | none => exact ⟨_, rfl⟩
  | some last =>
      dsimp only
      by_cases hgap : consecutive (sortByDistance last g.packets) = false
      · rw [if_pos hgap]
        exact ⟨_, rfl⟩
      rw [if_neg hgap]
      rw [Bool.not_eq_false] at hgap
      rcases reassemble_isSome ((sortByDistance last g.packets).map RtpPacket.payload)
        (d.appleDonl key.1) with ⟨r, hr, hheaded⟩
      rw [hr]
      cases r with
      | error reason => exact ⟨reason, rfl⟩
      | ok result =>
          have hnals : Headed result.1 := hheaded result.1 result.2 rfl
          exact absurd ⟨⟨last, hmarker, hgap, hr⟩, hnals⟩ (h result.1 result.2)

/-- Resolving a group of a selected source never panics. -/
theorem resolve_settles {d : Depacketizer} {key : Key} (g : Group) (hparams : Headed d.params)
    (hsource : key.1 ∈ d.sources) :
    ∃ outcome d', d.resolve key g = some (outcome, d') ∧ Settles d key g outcome d' := by
  by_cases hcontents : ∃ nals donl, Contents d key g nals donl
  · obtain ⟨nals, donl, hcontents⟩ := hcontents
    obtain ⟨counters, hresolve⟩ := resolve_contents hcontents
    rw [hresolve]
    by_cases hvcl : (pictureOf (nals.filter isSlice)).vcl = false
    · have hnone : nals.filter isSlice = [] := by
        simpa [pictureOf] using hvcl
      unfold Depacketizer.finish
      rw [if_pos hvcl]
      exact ⟨_, _, rfl, .noSlices _ hcontents hnone⟩
    by_cases hfirst : (pictureOf (nals.filter isSlice)).firstSlice = false
    · unfold Depacketizer.finish
      rw [if_neg hvcl, if_pos hfirst]
      exact ⟨_, _, rfl, .headless _ hcontents hfirst⟩
    rw [Bool.not_eq_false] at hfirst
    by_cases hgate : d.haveKey = false ∧ (pictureOf (nals.filter isSlice)).keyframe = false
    · unfold Depacketizer.finish
      rw [if_neg hvcl, if_neg (by rw [Bool.not_eq_false]; exact hfirst), if_pos hgate]
      exact ⟨_, _, rfl, .preKey _ hcontents hgate.1 hgate.2⟩
    have hkey : d.haveKey = true ∨ (nals.filter isSlice).any isIrap = true := by
      by_contra hnone
      rw [not_or, Bool.not_eq_true, Bool.not_eq_true] at hnone
      exact hgate hnone
    obtain ⟨pref, hpref⟩ := parameterPrefix_isSome (headed_paramsAfter hparams hcontents.headed)
    obtain ⟨tile, htile⟩ := Option.isSome_iff_exists.1 (List.isSome_idxOf?.2 hsource)
    exact ⟨_, _,
      finish_emits (d := { d with params := paramsAfter d nals, counters }) hfirst hkey hpref htile,
      .emitted _ hcontents hfirst hkey hpref htile⟩
  · have hincomplete : ∀ nals donl, ¬Contents d key g nals donl :=
      fun nals donl hnals => hcontents ⟨nals, donl, hnals⟩
    obtain ⟨reason, hresolve⟩ := resolve_incomplete hincomplete
    exact ⟨_, _, hresolve, .incomplete reason⟩

end MacVnc.Media.DepacketizeGroup

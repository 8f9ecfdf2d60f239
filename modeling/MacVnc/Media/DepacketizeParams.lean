import MacVnc.Lib.LastWrite
import MacVnc.Media.DepacketizeFrame
import MacVnc.Media.DepacketizeLoss
import MacVnc.Media.DepacketizeOrder
/-!
# The parameter sets in force

A key picture is preceded by every parameter set that is stored, in the order of their
bytes.  A decoder that replaces sets of one kind and id in the order of the data ends
with the greatest of them, which need not be the newest: the one whose last packet came
in last.
-/

namespace MacVnc.Media.DepacketizeParams

open MacVnc.Lib.LastWrite
open MacVnc.Media.Srtp (RtpPacket)
open MacVnc.Media.Depacketize
open MacVnc.Media.DepacketizeGroup
open MacVnc.Media.DepacketizeTrace
open MacVnc.Media.DepacketizeFrame
open MacVnc.Media.DepacketizeOrder

/-! ## What is received -/

/-- Parameter sets, each with its source. -/
abbrev Log := List (UInt32 × Nal)

def nalsOf (framing : UInt32 → Bool) (key : Key) (g : Group) : List Nal :=
  match g.marker with
  | none => []
  | some last =>
      if consecutive (sortByDistance last g.packets) = false then []
      else
        match reassemble ((sortByDistance last g.packets).map RtpPacket.payload)
            (framing key.1) with
        | some (.ok (nals, _)) => nals
        | _ => []

def Outcome.reassembled : Outcome → Bool
  | .emitted _ => true
  | .discarded reason => reason = .noVcl || reason = .missingFirstSlice || reason = .preKey

/-- The parameter sets that are taken from the group of an event. -/
def Event.sets (framing : UInt32 → Bool) : Event → Log
  | .resolved key g outcome =>
      if Outcome.reassembled outcome then
        ((nalsOf framing key g).filter isParam).map fun nal => (key.1, nal)
      else []
  | _ => []

def setsOf (framing : UInt32 → Bool) (events : List Event) : Log :=
  events.flatMap (Event.sets framing)

def observedSets (d : Depacketizer) (ssrc : UInt32) : List Nal :=
  ((d.observed.lookup ssrc).map SourceObservation.params).getD []

/-- The parameter sets of a packet that is an aggregate of certain framing. -/
def announced (d : Depacketizer) (p : RtpPacket) : List Nal :=
  if ((d.observed.lookup p.ssrc).isSome = true ∨ d.observed.keys.length < 32) ∧
      nalKind p.payload = some 48 then
    (Depacketizer.inferFraming Depacketizer.unobserved p.payload).params
  else []

def heldPackets (d : Depacketizer) (ssrc : UInt32) : List RtpPacket :=
  ((d.observed.lookup ssrc).map SourceObservation.prefixPackets).getD []

/-- The state in which a call looks for the source of its packet. -/
def observing (d : Depacketizer) : Op → Depacketizer
  | .poll _ => d
  | .push p now =>
      if p.payload.length < 2 then d else ((d.countHeader p).observe p now).getD d

/-- The sets taken in the generation as a call goes on to its groups: an aggregate is taken as
it arrives, and a source that becomes selected brings what was observed of it. -/
def opening (d : Depacketizer) (log : Log) (op : Op) : Log :=
  match op with
  | .poll _ => log
  | .push p now =>
      if p.payload.length < 2 then log
      else if p.ssrc ∈ d.sources then log ++ (announced d p).map fun nal => (p.ssrc, nal)
      else if d.sources.length < d.tiles then
        log ++ (observedSets (observing d op) p.ssrc).map fun nal => (p.ssrc, nal)
      else if (observing d op).handoffDue p now = some true then
        (observedSets (observing d op) p.ssrc).map fun nal => (p.ssrc, nal)
      else log

/-- What came in from the selected sources of the generation: the sets that a source brought
when it was selected, and the packets in the order of their arrival. -/
structure Reception where
  brought : Log
  packets : List RtpPacket
deriving DecidableEq

namespace Reception

/-- A packet that came before is not received again. -/
def add (r : Reception) (p : RtpPacket) : Reception :=
  if r.packets.any fun q => q.ssrc = p.ssrc && q.timestamp = p.timestamp && q.seq = p.seq then r
  else { r with packets := r.packets ++ [p] }

/-- The reception behind a call.  A source that becomes selected counts with the packets that
were held for it, and with the sets observed of it unless one of these packets has them. -/
def arrive (d : Depacketizer) (r : Reception) (op : Op) : Reception :=
  match op with
  | .poll _ => r
  | .push p now =>
      if p.payload.length < 2 then r
      else if p.ssrc ∈ d.sources then r.add p
      else
        let queue := heldPackets (observing d op) p.ssrc ++ [p]
        let brought :=
          if queue.any fun q => nalKind q.payload = some 48 &&
            (Depacketizer.inferFraming Depacketizer.unobserved q.payload).params ≠ [] then []
          else (observedSets (observing d op) p.ssrc).map fun nal => (p.ssrc, nal)
        if d.sources.length < d.tiles then
          queue.foldl add { r with brought := r.brought ++ brought }
        else if (observing d op).handoffDue p now = some true then
          queue.foldl add { brought, packets := [] }
        else r

/-- The fragments of a unit of this picture from its first one up to this number. -/
def upTo (packets : List RtpPacket) (timestamp : UInt32) :
    Nat → UInt16 → Option (List (List UInt8))
  | 0, _ => none
  | n + 1, seq =>
      (packets.find? fun q => q.timestamp = timestamp && q.seq = seq).bind fun q =>
        if nalKind q.payload ≠ some 49 then none
        else if q.payload[2]?.any (· &&& 128 ≠ 0) then some [q.payload]
        else (upTo packets timestamp n (seq - 1)).map (· ++ [q.payload])

/-- The fragments from this number on to the last one. -/
def onFrom (packets : List RtpPacket) (timestamp : UInt32) :
    Nat → UInt16 → Option (List (List UInt8))
  | 0, _ => none
  | n + 1, seq =>
      (packets.find? fun q => q.timestamp = timestamp && q.seq = seq).bind fun q =>
        if nalKind q.payload ≠ some 49 then none
        else if q.payload[2]?.any (· &&& 64 ≠ 0) then some [q.payload]
        else (onFrom packets timestamp n (seq + 1)).map (q.payload :: ·)

/-- All fragments of the unit that a fragment belongs to, once they are there. -/
def fragments (packets : List RtpPacket) (p : RtpPacket) : Option (List (List UInt8)) :=
  (upTo packets p.timestamp packets.length p.seq).bind fun first =>
    if p.payload[2]?.any (· &&& 64 ≠ 0) then some first
    else (onFrom packets p.timestamp packets.length (p.seq + 1)).map (first ++ ·)

/-- The parameter sets that are complete with a packet of a source, behind these. -/
def completed (appleDonl : Bool) (earlier : List RtpPacket) (p : RtpPacket) : List Nal :=
  let payloads :=
    if nalKind p.payload = some 49 then (fragments (earlier ++ [p]) p).getD [] else [p.payload]
  match reassemble payloads appleDonl with
  | some (.ok (nals, _)) => nals.filter isParam
  | _ => []

/-- The parameter sets in the packets of a source, each where its last packet came. -/
def inPackets (appleDonl : Bool) (earlier : List RtpPacket) : List RtpPacket → List Nal
  | [] => []
  | p :: rest => completed appleDonl earlier p ++ inPackets appleDonl (earlier ++ [p]) rest

/-- The sets received from a source of this framing, in the order in which they came. -/
def sets (r : Reception) (appleDonl : Bool) (ssrc : UInt32) : List Nal :=
  ((r.brought.filter fun entry => entry.1 = ssrc).map Prod.snd) ++
    inPackets appleDonl [] (r.packets.filter fun p => p.ssrc = ssrc)

end Reception

/-- The events of a call, each with the sets taken up to it. -/
def annotate (framing : UInt32 → Bool) (log : Log) : List Event → List (Event × Log)
  | [] => []
  | e :: rest =>
      (e, log ++ Event.sets framing e) :: annotate framing (log ++ Event.sets framing e) rest

/-- The events of a run, each with the sets taken up to it and with what was received, both in
its generation. -/
def history (tieBreak : Nat → Key) (d : Depacketizer) (log : Log) (r : Reception) :
    List Op → List (Event × Log × Reception)
  | [] => []
  | op :: ops =>
      match d.step tieBreak op with
      | none => []
      | some (events, d') =>
          (annotate (observing d op).appleDonl (opening d log op) events).map
              (fun entry => (entry.1, entry.2, r.arrive d op)) ++
            history tieBreak d' (opening d log op ++ setsOf (observing d op).appleDonl events)
              (r.arrive d op) ops

/-! ## What is stored and emitted -/

def storables (log : Log) : List Nal :=
  (log.map Prod.snd).filter fun nal => nal.length ≤ 65536

def store (params : List Nal) (log : Log) : List Nal := (storables log).foldl storeParam params

def stored (log : Log) : List Nal := store [] log

/-- The set is small enough, and fewer than 64 others came before it. -/
def Kept (log : Log) (nal : Nal) : Prop :=
  ∃ before after, storables log = before ++ nal :: after ∧ before.dedup.length < 64

/-- The parameter sets before a key picture, in the order of the data. -/
def keySets (params : List Nal) : List Nal :=
  (params.filter fun nal => nalKind nal = some 32) ++
    (params.filter fun nal => nalKind nal = some 33) ++
    params.filter fun nal => nalKind nal = some 34

def annexB (nals : List Nal) : List UInt8 := nals.flatMap fun nal => startCode ++ nal

/-- Kind and id of a parameter set. -/
def slotOf (id : Nal → Nat) (nal : Nal) : Option UInt8 × Nat := (nalKind nal, id nal)

/-- Every newest set was kept, and none that was kept for its kind and id has greater bytes. -/
structure Wins (id : Nal → Nat) (taken : Log) (received : List Nal) : Prop where
  kept : ∀ slot newest, replay (slotOf id) received slot = some newest → Kept taken newest
  greatest : ∀ nal, Kept taken nal →
    ∃ newest, replay (slotOf id) received (slotOf id nal) = some newest ∧ nal ≤ newest

/-! ## Storing -/

theorem storables_append (log later : Log) :
    storables (log ++ later) = storables log ++ storables later := by
  rw [storables, List.map_append, List.filter_append]
  rfl

theorem store_append (params : List Nal) (log later : Log) :
    store params (log ++ later) = store (store params log) later := by
  rw [store, storables_append, List.foldl_append]
  rfl

theorem stored_append (log later : Log) : stored (log ++ later) = store (stored log) later :=
  store_append [] log later

/-- A set is stored only while there is room, and is not lost again. -/
theorem mem_foldl_room {nals params : List Nal} {nal : Nal}
    (h : nal ∈ nals.foldl storeParam params) (hnew : nal ∉ params) :
    ∃ before after, nals = before ++ nal :: after ∧
      (before.foldl storeParam params).length < 64 := by
  induction nals generalizing params with
  | nil => exact absurd h hnew
  | cons first rest ih =>
      by_cases hin : nal ∈ storeParam params first
      · rcases storeParam_cases params first with ⟨hsame, _⟩ | ⟨hfirst, hinsert⟩
        · exact absurd (hsame ▸ hin) hnew
        · rw [hinsert] at hin
          obtain rfl := ((List.mem_orderedInsert _).1 hin).resolve_right hnew
          refine ⟨[], rest, rfl, ?_⟩
          show params.length < 64
          by_contra hfull
          have hkept : storeParam params nal = params := if_neg hfull
          rw [hinsert] at hkept
          have hlength := congrArg List.length hkept
          rw [List.orderedInsert_length] at hlength
          omega
      · obtain ⟨before, after, hsplit, hroom⟩ := ih h hin
        exact ⟨first :: before, after, by rw [hsplit]; rfl, hroom⟩

theorem length_le_foldl_storeParam (params nals : List Nal) :
    params.length ≤ (nals.foldl storeParam params).length := by
  induction nals generalizing params with
  | nil => exact Nat.le_refl _
  | cons nal rest ih =>
      refine Nat.le_trans ?_ (ih (storeParam params nal))
      rcases storeParam_cases params nal with ⟨hsame, _⟩ | ⟨_, hinsert⟩
      · rw [hsame]
      · rw [hinsert, List.orderedInsert_length]
        exact Nat.le_succ _

/-- While there is room every set has been stored. -/
theorem mem_foldl_of_room {nals params : List Nal}
    (h : (nals.foldl storeParam params).length < 64) :
    ∀ nal ∈ nals, nal ∈ nals.foldl storeParam params := by
  induction nals generalizing params with
  | nil => exact nofun
  | cons first rest ih =>
      intro nal hnal
      rcases List.mem_cons.1 hnal with rfl | hin
      · have hgrows := length_le_foldl_storeParam params (nal :: rest)
        show nal ∈ rest.foldl storeParam (storeParam params nal)
        apply mem_foldl_storeParam
        rcases storeParam_cases params nal with ⟨hsame, hknown | hfull⟩ | ⟨_, hinsert⟩
        · rwa [hsame]
        · omega
        · rw [hinsert]
          exact (List.mem_orderedInsert _).2 (Or.inl rfl)
      · exact ih h nal hin

theorem mem_stored_iff {log : Log} {nal : Nal} : nal ∈ stored log ↔ Kept log nal := by
  constructor
  · intro h
    obtain ⟨before, after, hsplit, hroom⟩ := mem_foldl_room h List.not_mem_nil
    refine ⟨before, after, hsplit, ?_⟩
    have hsubset : before.dedup ⊆ before.foldl storeParam [] :=
      fun other hother => mem_foldl_of_room hroom other (List.mem_dedup.1 hother)
    exact (List.subperm_of_subset before.nodup_dedup hsubset).length_le.trans_lt hroom
  · rintro ⟨before, after, hsplit, hroom⟩
    have hlength : (before ++ [nal]).dedup.length ≤ 64 := by
      have hsubset : (before ++ [nal]).dedup ⊆ nal :: before.dedup := by
        intro other hother
        rcases List.mem_append.1 (List.mem_dedup.1 hother) with hbefore | hlast
        · exact List.mem_cons_of_mem _ (List.mem_dedup.2 hbefore)
        · rw [List.mem_singleton.1 hlast]
          exact List.mem_cons_self
      exact ((List.subperm_of_subset (List.nodup_dedup _) hsubset).length_le).trans hroom
    have hcomplete := (stored_nil (before ++ [nal])).complete (fun other hother => hother) hlength
      (List.mem_append_right _ (List.mem_singleton_self nal))
    rw [stored, store, hsplit, List.append_cons, List.foldl_append]
    exact mem_foldl_storeParam hcomplete

/-- All of these sets are stored, or there is no room for more. -/
def Closed (params nals : List Nal) : Prop :=
  ∀ nal ∈ nals, nal ∈ params ∨ 64 ≤ params.length

theorem Closed.foldl {params nals : List Nal} (h : Closed params nals) :
    nals.foldl storeParam params = params := by
  induction nals with
  | nil => rfl
  | cons nal rest ih =>
      have hsame : storeParam params nal = params := by
        unfold storeParam insertParam
        split
        · rename_i hroom
          exact if_pos ((h nal List.mem_cons_self).resolve_right (Nat.not_le.2 hroom))
        · rfl
      rw [List.foldl_cons, hsame]
      exact ih fun other hother => h other (List.mem_cons_of_mem _ hother)

theorem Closed.mono {params nals : List Nal} (h : Closed params nals) (later : List Nal) :
    Closed (later.foldl storeParam params) nals := by
  intro nal hnal
  rcases h nal hnal with hin | hfull
  · exact Or.inl (mem_foldl_storeParam hin)
  · exact Or.inr (hfull.trans (length_le_foldl_storeParam params later))

theorem closed_foldl (params nals : List Nal) : Closed (nals.foldl storeParam params) nals := by
  intro nal hnal
  by_cases hroom : (nals.foldl storeParam params).length < 64
  · exact Or.inl (mem_foldl_of_room hroom nal hnal)
  · exact Or.inr (Nat.not_lt.1 hroom)

/-! ## Resolving a group -/

theorem nalsOf_contents {d : Depacketizer} {key : Key} {g : Group} {nals : List Nal}
    {donl : UInt16} (h : Contents d key g nals donl) : nalsOf d.appleDonl key g = nals := by
  obtain ⟨last, hmarker, hconsecutive, hreassemble⟩ := h.complete
  unfold nalsOf
  rw [hmarker]
  dsimp only
  rw [if_neg (by rw [hconsecutive]; exact Bool.true_eq_false.mp), hreassemble]

theorem nalsOf_incomplete {d : Depacketizer} {key : Key} {g : Group}
    (h : ∀ nals donl, ¬Contents d key g nals donl) : nalsOf d.appleDonl key g = [] := by
  unfold nalsOf
  split
  · rfl
  rename_i last hmarker
  split
  · rfl
  rename_i hgap
  rw [Bool.not_eq_false] at hgap
  split
  · rename_i nals donl hr
    rcases reassemble_isSome ((sortByDistance last g.packets).map RtpPacket.payload)
      (d.appleDonl key.1) with ⟨r, hr', hheaded⟩
    rw [hr] at hr'
    cases hr'
    exact absurd ⟨⟨last, hmarker, hgap, hr⟩, hheaded nals donl rfl⟩ (h nals donl)
  · rfl

theorem setsOf_append (framing : UInt32 → Bool) (events later : List Event) :
    setsOf framing (events ++ later) = setsOf framing events ++ setsOf framing later :=
  List.flatMap_append

/-- The data of a key unit, when these sets are stored. -/
def Prefixed (params : List Nal) (u : AccessUnit) : Prop :=
  ∃ slices : List Nal, (∀ nal ∈ slices, isSlice nal = true) ∧
    u.data = annexB (keySets params ++ slices)

/-- The events store the sets that they bring, and key units carry those stored so far. -/
structure Fills (d : Depacketizer) (events : List Event) (d' : Depacketizer) : Prop where
  observed : d'.observed = d.observed
  params : d'.params = store d.params (setsOf d.appleDonl events)
  units : ∀ before key g u after, events = before ++ .resolved key g (.emitted u) :: after →
    u.key = true →
    Prefixed (store d.params
      (setsOf d.appleDonl (before ++ [.resolved key g (.emitted u)]))) u

theorem appleDonl_of_observed {d d' : Depacketizer} (h : d'.observed = d.observed) :
    d'.appleDonl = d.appleDonl := by
  funext ssrc
  unfold Depacketizer.appleDonl
  rw [h]

theorem Fills.refl (d : Depacketizer) : Fills d [] d :=
  ⟨rfl, rfl, fun before _ _ _ _ hsplit => by cases before <;> cases hsplit⟩

theorem Fills.trans {d m d' : Depacketizer} {first second : List Event} (h : Fills d first m)
    (h' : Fills m second d') : Fills d (first ++ second) d' where
  observed := h'.observed.trans h.observed
  params := by
    rw [setsOf_append, store_append, ← h.params, h'.params, appleDonl_of_observed h.observed]
  units before key g u after hsplit hkey := by
    have hsecond : ∀ middle, second = middle ++ .resolved key g (.emitted u) :: after →
        before = first ++ middle → Prefixed (store d.params
          (setsOf d.appleDonl (before ++ [.resolved key g (.emitted u)]))) u := by
      intro middle hmiddle hbefore
      have hunit := h'.units middle key g u after hmiddle hkey
      rwa [appleDonl_of_observed h.observed, h.params, ← store_append, ← setsOf_append,
        ← List.append_assoc, ← hbefore] at hunit
    rcases List.append_eq_append_iff.1 hsplit with
      ⟨middle, hbefore, hmiddle⟩ | ⟨rest, hfirst, hrest⟩
    · exact hsecond middle hmiddle hbefore
    · cases rest with
      | nil =>
          rw [List.append_nil] at hfirst
          exact hsecond [] hrest.symm (by rw [List.append_nil, hfirst])
      | cons e rest =>
          obtain ⟨rfl, _⟩ := List.cons.inj hrest
          exact h.units before key g u rest hfirst hkey

/-- A step that puts no group together. -/
theorem Fills.of_silent {d d' : Depacketizer} {events : List Event}
    (hobserved : d'.observed = d.observed) (hparams : d'.params = d.params)
    (hevents : ∀ e ∈ events, e.unit? = none ∧ Event.sets d.appleDonl e = []) :
    Fills d events d' where
  observed := hobserved
  params := by
    have hnone : setsOf d.appleDonl events = [] :=
      List.flatMap_eq_nil_iff.2 fun e he => (hevents e he).2
    rw [hparams, hnone]
    rfl
  units before key g u after hsplit := by
    have hunit := (hevents (.resolved key g (.emitted u)) (by simp [hsplit])).1
    cases hunit

theorem discarded_silent {key : Key} {g : Group} {reason : Counter} (framing : UInt32 → Bool)
    (h : Outcome.reassembled (.discarded reason) = false ∨ nalsOf framing key g = []) :
    ∀ e ∈ [Event.resolved key g (.discarded reason)],
      e.unit? = none ∧ Event.sets framing e = [] := by
  intro e he
  rw [List.mem_singleton.1 he]
  refine ⟨rfl, ?_⟩
  show (if Outcome.reassembled (.discarded reason) = true then _ else _) = []
  rcases h with hearly | hnone
  · rw [hearly]
    rfl
  · rw [hnone]
    exact ite_self _

/-- The tests on the picture change neither what is stored nor what was observed, and a
key unit carries the stored sets. -/
theorem finish_prefixed {d d' : Depacketizer} {key : Key} {donl : UInt16} {slices : List Nal}
    {outcome : Outcome} (h : d.finish key donl (pictureOf slices) = some (outcome, d')) :
    d'.observed = d.observed ∧ d'.params = d.params ∧ Outcome.reassembled outcome = true ∧
      ∀ u, outcome = .emitted u → u.key = true →
        u.data = annexB (keySets d.params ++ slices) := by
  unfold Depacketizer.finish at h
  split at h
  · cases h
    exact ⟨rfl, rfl, rfl, nofun⟩
  split at h
  · cases h
    exact ⟨rfl, rfl, rfl, nofun⟩
  split at h
  · cases h
    exact ⟨rfl, rfl, rfl, nofun⟩
  obtain ⟨data, hdata, htiled⟩ := Option.bind_eq_some_iff.1 h
  obtain ⟨tile, _, heq⟩ := Option.bind_eq_some_iff.1 htiled
  cases heq
  refine ⟨rfl, rfl, rfl, fun u hu hkey => ?_⟩
  cases hu
  rw [if_pos hkey] at hdata
  obtain ⟨pref, hpref, hdata⟩ := Option.map_eq_some_iff.1 hdata
  unfold parameterPrefix at hpref
  split at hpref
  · cases hpref
  · cases hpref
    rw [← hdata]
    show _ ++ slices.flatMap _ = _
    unfold annexB keySets paramsOfKind
    rw [List.flatMap_append, List.flatMap_append, List.flatMap_append]

theorem resolve_fills {d d' : Depacketizer} {key : Key} {g : Group} {outcome : Outcome}
    (h : d.resolve key g = some (outcome, d')) : Fills d [.resolved key g outcome] d' := by
  by_cases hcontents : ∃ nals donl, Contents d key g nals donl
  · obtain ⟨nals, donl, hcontents⟩ := hcontents
    obtain ⟨counters, hresolve⟩ := resolve_contents hcontents
    rw [hresolve] at h
    obtain ⟨hobserved, hparams, hreassembled, hunit⟩ := finish_prefixed h
    have hsets : storables (setsOf d.appleDonl [.resolved key g outcome]) = storable nals := by
      have hevent : setsOf d.appleDonl [.resolved key g outcome] =
          (nals.filter isParam).map fun nal => (key.1, nal) := by
        show (if Outcome.reassembled outcome = true then _ else _) ++ [] = _
        rw [hreassembled, if_pos rfl, nalsOf_contents hcontents, List.append_nil]
      rw [hevent, storables, List.map_map]
      show ((nals.filter isParam).map id).filter _ = _
      rw [List.map_id, List.filter_filter]
      exact List.filter_congr fun nal _ => Bool.and_comm _ _
    have hstored : store d.params (setsOf d.appleDonl [.resolved key g outcome]) =
        paramsAfter d nals := by
      rw [store, hsets]
      rfl
    refine ⟨hobserved, hparams.trans hstored.symm, fun before key' g' u after hsplit hkey => ?_⟩
    obtain ⟨rfl, hsame⟩ : before = [] ∧ Event.resolved key g outcome =
        .resolved key' g' (.emitted u) := by
      cases before with
      | nil => exact ⟨rfl, (List.cons.inj hsplit).1⟩
      | cons e rest => simp at hsplit
    cases hsame
    refine ⟨nals.filter isSlice, fun nal hnal => (List.mem_filter.1 hnal).2, ?_⟩
    rw [List.nil_append, hstored]
    exact hunit u rfl hkey
  · have hincomplete : ∀ nals donl, ¬Contents d key g nals donl :=
      fun nals donl hnals => hcontents ⟨nals, donl, hnals⟩
    obtain ⟨reason, hresolve⟩ := resolve_incomplete hincomplete
    rw [hresolve] at h
    cases h
    have hnone := nalsOf_incomplete hincomplete
    exact .of_silent rfl rfl (discarded_silent d.appleDonl (Or.inr hnone))

theorem pollLoop_fills {now : Nat} {d d' : Depacketizer} {keys : List Key}
    {events : List Event} (hloop : d.pollLoop now keys = some (events, d')) :
    Fills d events d' := by
  induction keys generalizing d events with
  | nil =>
      cases hloop
      exact .refl _
  | cons key keys ih =>
      unfold Depacketizer.pollLoop at hloop
      split at hloop
      · cases hloop
      · rename_i g hg
        split at hloop
        · obtain ⟨⟨later, last⟩, hlater, heq⟩ := Option.map_eq_some_iff.1 hloop
          cases heq
          have hlate : Fills d [.resolved key g (.discarded .lateTimestamp)]
              ({ d.removeGroup key with dropped := d.dropped + 1 }.count .lateTimestamp) :=
            .of_silent rfl rfl (discarded_silent d.appleDonl (Or.inl rfl))
          exact hlate.trans (ih hlater)
        split at hloop
        · cases hloop
          exact .refl _
        · split at hloop
          · cases hloop
          · rename_i outcome d₁ hresolve
            obtain ⟨⟨later, last⟩, hlater, heq⟩ := Option.map_eq_some_iff.1 hloop
            cases heq
            have hremoved := resolve_fills hresolve
            have hfirst : Fills d [.resolved key g outcome] d₁ :=
              ⟨hremoved.observed, hremoved.params, hremoved.units⟩
            exact hfirst.trans (ih hlater)

theorem poll_fills {now : Nat} {d d' : Depacketizer} {events : List Event}
    (hpoll : d.poll now = some (events, d')) : Fills d events d' := by
  unfold Depacketizer.poll at hpoll
  split at hpoll
  · cases hpoll
    exact .refl _
  · exact pollLoop_fills hpoll

theorem evictGroup_fills (d : Depacketizer) (hint : Key) :
    Fills d (d.evictGroup hint).1 (d.evictGroup hint).2 := by
  unfold Depacketizer.evictGroup
  split
  · exact .refl _
  · exact .of_silent rfl rfl (discarded_silent d.appleDonl (Or.inl rfl))

theorem insertPacket_fills (d : Depacketizer) (p : RtpPacket) (now : Nat) :
    Fills d (d.insertPacket p now).1 (d.insertPacket p now).2 := by
  unfold Depacketizer.insertPacket
  dsimp only
  split
  · exact .of_silent rfl rfl (discarded_silent d.appleDonl (Or.inl rfl))
  · exact .of_silent rfl rfl nofun

theorem place_fills (tieBreak : Nat → Key) (d : Depacketizer) (p : RtpPacket) (now : Nat) :
    Fills d (d.place tieBreak p now).1 (d.place tieBreak p now).2 := by
  unfold Depacketizer.place
  dsimp only
  split
  · refine .of_silent rfl rfl fun e he => ?_
    rw [List.mem_singleton.1 he]
    exact ⟨rfl, rfl⟩
  · split
    · exact (evictGroup_fills d _).trans (insertPacket_fills _ p now)
    · exact (Fills.refl d).trans (insertPacket_fills d p now)

/-! ## Pushing -/

/-- The sets observed of a source are stored, or there is no room for more. -/
def Primed (d : Depacketizer) (ssrc : UInt32) : Prop := Closed d.params (observedSets d ssrc)

theorem Fills.primed {d d' : Depacketizer} {events : List Event} (h : Fills d events d')
    {ssrc : UInt32} (hprimed : Primed d ssrc) : Primed d' ssrc := by
  have hsame : observedSets d' ssrc = observedSets d ssrc := by
    unfold observedSets
    rw [h.observed]
  rw [Primed, hsame, h.params]
  exact hprimed.mono _

theorem pushSelected_fills {now : Nat} {tieBreak : Nat → Key} {d d' : Depacketizer}
    {p : RtpPacket} {events : List Event} (hprimed : Primed d p.ssrc)
    (hpush : d.pushSelected tieBreak p now = some (events, d')) : Fills d events d' := by
  obtain ⟨⟨later, last⟩, hpoll, heq⟩ := Option.map_eq_some_iff.1 hpush
  cases heq
  have hprepare : Fills d [] (d.prepare p.ssrc now) := .of_silent rfl hprimed.foldl nofun
  exact hprepare.trans ((place_fills tieBreak _ p now).trans (poll_fills hpoll))

theorem pushAll_fills {now : Nat} {tieBreak : Nat → Key} {d d' : Depacketizer} {ssrc : UInt32}
    {queue : List RtpPacket} {events : List Event} (hprimed : Primed d ssrc)
    (hqueue : ∀ p ∈ queue, p.ssrc = ssrc)
    (hpush : d.pushAll tieBreak now queue = some (events, d')) : Fills d events d' := by
  induction queue generalizing d events with
  | nil =>
      cases hpush
      exact .refl _
  | cons p rest ih =>
      obtain ⟨hp, hrest⟩ := List.forall_mem_cons.1 hqueue
      unfold Depacketizer.pushAll at hpush
      split at hpush
      · cases hpush
      · rename_i first d₁ hfirst
        obtain ⟨⟨later, last⟩, hlater, heq⟩ := Option.map_eq_some_iff.1 hpush
        cases heq
        subst hp
        have hfills := pushSelected_fills hprimed hfirst
        exact hfills.trans (ih (hfills.primed hprimed) hrest hlater)

def prime (d : Depacketizer) (ssrc : UInt32) : Depacketizer :=
  { d with params := (observedSets d ssrc).foldl storeParam d.params }

theorem primed_prime (d : Depacketizer) (ssrc : UInt32) : Primed (prime d ssrc) ssrc :=
  closed_foldl d.params (observedSets d ssrc)

theorem pushAll_prime {tieBreak : Nat → Key} {d : Depacketizer} {now : Nat} {ssrc : UInt32}
    {queue : List RtpPacket} (hqueue : ∀ p ∈ queue, p.ssrc = ssrc) (hsome : queue ≠ []) :
    d.pushAll tieBreak now queue = (prime d ssrc).pushAll tieBreak now queue := by
  cases queue with
  | nil => exact absurd rfl hsome
  | cons p rest =>
      obtain rfl := hqueue p List.mem_cons_self
      have hprepare : (prime d p.ssrc).prepare p.ssrc now = d.prepare p.ssrc now := by
        have hsame : (observedSets (prime d p.ssrc) p.ssrc).foldl storeParam
            (prime d p.ssrc).params = (prime d p.ssrc).params := (primed_prime d p.ssrc).foldl
        show { d with params := _, first := _ } = { d with params := _, first := _ }
        congr 1
      unfold Depacketizer.pushAll Depacketizer.pushSelected
      rw [hprepare]

/-! ## Observing -/

def Storable (nals : List Nal) : Prop := ∀ nal ∈ nals, isParam nal = true ∧ nal.length ≤ 65536

theorem storable_nil : Storable [] := by
  intro nal hnal
  cases hnal

theorem parseParameterAp_ne_nil {rest : List UInt8} {params nals : List Nal}
    (h : parseParameterAp rest params = some nals) : nals ≠ [] := by
  fun_induction parseParameterAp rest params with
  | case1 => cases h
  | case2 params hparams =>
      cases h
      exact hparams
  | case3 => cases h
  | case4 => cases h
  | case5 => cases h
  | case6 => cases h
  | case7 hi lo tail params size hsize nal hheader kind hkind hroom ih => exact ih h
  | case8 hi lo tail params size hsize nal hheader kind hkind ih => exact ih h

theorem storable_parseParameterAp {rest : List UInt8} {params nals : List Nal}
    (hparams : Storable params) (h : parseParameterAp rest params = some nals) :
    Storable nals := by
  fun_induction parseParameterAp rest params with
  | case1 => cases h
  | case2 =>
      cases h
      exact hparams
  | case3 => cases h
  | case4 => cases h
  | case5 => cases h
  | case6 => cases h
  | case7 hi lo tail params size hsize nal hheader kind hkind hroom ih =>
      refine ih (fun other hother => ?_) h
      rcases List.mem_append.1 hother with hold | hlast
      · exact hparams other hold
      · rw [List.mem_singleton.1 hlast]
        have hlength : nal.length = size := by
          rw [List.length_take]
          omega
        refine ⟨?_, by omega⟩
        have hfirst : nalKind nal = some kind := by
          have hpositive : 0 < nal.length := by omega
          rw [nalKind_eq nal hpositive, List.getElem_eq_getD 0]
        unfold isParam
        rw [hfirst]
        simpa using hkind
  | case8 hi lo tail params size hsize nal hheader kind hkind ih => exact ih hparams h

/-- Inferring the framing replaces the observed sets by those of the packet, if any. -/
theorem inferFraming_params (s : SourceObservation) (payload : List UInt8) :
    (Depacketizer.inferFraming s payload).params =
      if (Depacketizer.inferFraming Depacketizer.unobserved payload).params = [] then s.params
      else (Depacketizer.inferFraming Depacketizer.unobserved payload).params := by
  unfold Depacketizer.inferFraming
  cases happle : parseParameterAp (payload.drop 4) [] with
  | none =>
      cases hstandard : parseParameterAp (payload.drop 2) [] with
      | none => rfl
      | some params => exact (if_neg (parseParameterAp_ne_nil hstandard)).symm
  | some params =>
      cases hstandard : parseParameterAp (payload.drop 2) [] with
      | none => exact (if_neg (parseParameterAp_ne_nil happle)).symm
      | some other => rfl

theorem storable_inferFraming (payload : List UInt8) :
    Storable (Depacketizer.inferFraming Depacketizer.unobserved payload).params := by
  unfold Depacketizer.inferFraming
  split
  · rename_i params happle _
    exact storable_parseParameterAp storable_nil happle
  · rename_i params _ hstandard
    exact storable_parseParameterAp storable_nil hstandard
  · exact storable_nil

theorem storable_announced (d : Depacketizer) (p : RtpPacket) : Storable (announced d p) := by
  unfold announced
  split
  · exact storable_inferFraming p.payload
  · exact storable_nil

theorem observedSets_insert (d : Depacketizer) (ssrc other : UInt32) (s : SourceObservation) :
    observedSets { d with observed := d.observed.insert ssrc s } other =
      if other = ssrc then s.params else observedSets d other := by
  unfold observedSets
  by_cases hsame : other = ssrc
  · rw [if_pos hsame, hsame]
    dsimp only
    rw [AList.lookup_insert]
    rfl
  · rw [if_neg hsame]
    dsimp only
    rw [AList.lookup_insert_ne hsame]

theorem observe_sets {d d₁ : Depacketizer} {p : RtpPacket} {now : Nat}
    (h : d.observe p now = some d₁) (ssrc : UInt32) :
    observedSets d₁ ssrc =
      if ssrc = p.ssrc ∧ announced d p ≠ [] then announced d p else observedSets d ssrc := by
  unfold Depacketizer.observe at h
  split at h
  · rename_i hroom
    obtain ⟨kind, hkind, heq⟩ := Option.bind_eq_some_iff.1 h
    cases heq
    rw [observedSets_insert]
    by_cases hsame : ssrc = p.ssrc
    · have hold : ((d.observed.lookup p.ssrc).getD Depacketizer.unobserved).params =
          observedSets d p.ssrc := by
        unfold observedSets
        cases d.observed.lookup p.ssrc <;> rfl
      rw [if_pos hsame]
      by_cases haggregate : kind = 48
      · have hannounced : announced d p =
            (Depacketizer.inferFraming Depacketizer.unobserved p.payload).params :=
          if_pos ⟨hroom, by rw [hkind, haggregate]⟩
        rw [if_pos haggregate, inferFraming_params, ← hannounced, hsame]
        by_cases hnone : announced d p = []
        · rw [if_pos hnone, if_neg fun h => h.2 hnone]
          exact hold
        · rw [if_neg hnone, if_pos ⟨rfl, hnone⟩]
      · have hannounced : announced d p = [] := by
          refine if_neg fun h => haggregate ?_
          rw [hkind] at h
          exact Option.some.inj h.2
        rw [if_neg haggregate, if_neg fun h => h.2 hannounced, hsame]
        exact hold
    · rw [if_neg hsame, if_neg fun h => hsame h.1]
  · rename_i hfull
    cases h
    rw [if_neg]
    exact fun h => h.2 (if_neg fun h => hfull h.1)

theorem insert_observed {d : Depacketizer} {ssrc : UInt32} {s s' : SourceObservation}
    (hs : d.observed.lookup ssrc = some s) (hparams : s'.params = s.params)
    (hdonl : s'.donl = s.donl) :
    observedSets { d with observed := d.observed.insert ssrc s' } = observedSets d ∧
      ({ d with observed := d.observed.insert ssrc s' } : Depacketizer).appleDonl =
        d.appleDonl := by
  constructor
  · funext other
    rw [observedSets_insert]
    split
    · rename_i hsame
      rw [hsame, observedSets, hs, hparams]
      rfl
    · rfl
  · funext other
    unfold Depacketizer.appleDonl
    by_cases hsame : other = ssrc
    · dsimp only
      rw [hsame, AList.lookup_insert, hs, Option.bind_some, Option.bind_some, hdonl]
    · dsimp only
      rw [AList.lookup_insert_ne hsame]

/-- Holding a packet changes neither what was observed nor the framing. -/
theorem hold_observed {d d' : Depacketizer} {p : RtpPacket} (h : d.hold p = some d') :
    observedSets d' = observedSets d ∧ d'.appleDonl = d.appleDonl := by
  unfold Depacketizer.hold at h
  dsimp only at h
  split at h
  · split at h
    · cases h
      exact ⟨rfl, rfl⟩
    · rename_i s hs
      obtain ⟨⟨held, bytes⟩, _, heq⟩ := Option.map_eq_some_iff.1 h
      cases heq
      exact insert_observed (d := d.count .unknownSource) hs rfl rfl
  · cases h
    exact ⟨rfl, rfl⟩

theorem takePrefix_observed (d : Depacketizer) (ssrc : UInt32) :
    observedSets (d.takePrefix ssrc).2 = observedSets d ∧
      (d.takePrefix ssrc).2.appleDonl = d.appleDonl := by
  unfold Depacketizer.takePrefix
  split
  · exact ⟨rfl, rfl⟩
  · rename_i s hs
    exact insert_observed hs rfl rfl

/-! ## Calls -/

/-- What is stored is what the log of the generation brought. -/
structure Tracked (d : Depacketizer) (log : Log) : Prop where
  params : d.params = stored log
  sets : ∀ entry ∈ log, isParam entry.2 = true
  primed : ∀ ssrc ∈ d.sources, Primed d ssrc
  observed : ∀ ssrc, Storable (observedSets d ssrc)

theorem tracked_new (tileCount : Nat) : Tracked (Depacketizer.new tileCount) [] :=
  ⟨rfl, nofun, nofun, fun _ => storable_nil⟩

theorem isParam_sets (framing : UInt32 → Bool) (e : Event) :
    ∀ entry ∈ Event.sets framing e, isParam entry.2 = true := by
  intro entry hentry
  unfold Event.sets at hentry
  split at hentry
  · split at hentry
    · obtain ⟨nal, hnal, rfl⟩ := List.mem_map.1 hentry
      exact (List.mem_filter.1 hnal).2
    · cases hentry
  · cases hentry

theorem Tracked.fills {d d' : Depacketizer} {log : Log} {events : List Event}
    (h : Tracked d log) (hfills : Fills d events d') (hsources : d'.sources = d.sources) :
    Tracked d' (log ++ setsOf d.appleDonl events) where
  params := by rw [hfills.params, h.params, stored_append]
  sets entry hentry := by
    rcases List.mem_append.1 hentry with hold | hnew
    · exact h.sets entry hold
    · obtain ⟨e, _, he⟩ := List.mem_flatMap.1 hnew
      exact isParam_sets d.appleDonl e entry he
  primed ssrc hssrc := hfills.primed (h.primed ssrc (hsources ▸ hssrc))
  observed ssrc := by
    unfold observedSets
    rw [hfills.observed]
    exact h.observed ssrc

theorem Tracked.same {d d' : Depacketizer} {log : Log} (h : Tracked d log)
    (hparams : d'.params = d.params) (hsources : d'.sources = d.sources)
    (hobserved : ∀ ssrc, observedSets d' ssrc = observedSets d ssrc) : Tracked d' log where
  params := hparams.trans h.params
  sets := h.sets
  primed ssrc hssrc := by
    rw [Primed, hparams, hobserved]
    exact h.primed ssrc (hsources ▸ hssrc)
  observed ssrc := hobserved ssrc ▸ h.observed ssrc

theorem store_map {nals : List Nal} (h : Storable nals) (params : List Nal) (ssrc : UInt32) :
    store params (nals.map fun nal => (ssrc, nal)) = nals.foldl storeParam params := by
  have hall : storables (nals.map fun nal => (ssrc, nal)) = nals := by
    rw [storables, List.map_map]
    show ((nals.map id).filter _) = nals
    rw [List.map_id]
    exact List.filter_eq_self.2 fun nal hnal => by simpa using (h nal hnal).2
  rw [store, hall]

theorem prime_eq {d : Depacketizer} {ssrc : UInt32} (h : Primed d ssrc) : prime d ssrc = d := by
  unfold prime
  rw [h.foldl]

/-- Storing what was observed of a source is receiving it. -/
theorem tracked_prime {d : Depacketizer} {log : Log} {ssrc : UInt32}
    (hparams : d.params = stored log) (hlog : ∀ entry ∈ log, isParam entry.2 = true)
    (hprimed : ∀ other ∈ d.sources, other ≠ ssrc → Primed d other)
    (hobserved : ∀ other, Storable (observedSets d other)) :
    Tracked (prime d ssrc) (log ++ (observedSets d ssrc).map fun nal => (ssrc, nal)) where
  params := by
    rw [stored_append, store_map (hobserved ssrc), ← hparams]
    rfl
  sets entry hentry := by
    rcases List.mem_append.1 hentry with hold | hnew
    · exact hlog entry hold
    · obtain ⟨nal, hnal, rfl⟩ := List.mem_map.1 hnew
      exact (hobserved ssrc nal hnal).1
  primed other hother := by
    by_cases hsame : other = ssrc
    · rw [hsame]
      exact primed_prime d ssrc
    · exact (hprimed other hother hsame).mono _
  observed := hobserved

theorem observing_push {d d₁ : Depacketizer} {p : RtpPacket} {now : Nat}
    (hlong : 2 ≤ p.payload.length) (hobserve : (d.countHeader p).observe p now = some d₁) :
    observing d (.push p now) = d₁ := by
  show (if p.payload.length < 2 then d else ((d.countHeader p).observe p now).getD d) = d₁
  rw [if_neg (Nat.not_lt.2 hlong), hobserve]
  rfl

/-- What is known of the sets once a packet has been observed. -/
structure Observed (d : Depacketizer) (p : RtpPacket) (d₁ : Depacketizer) : Prop where
  params : d₁.params = d.params
  sources : d₁.sources = d.sources
  tiles : d₁.tiles = d.tiles
  sets : ∀ ssrc, observedSets d₁ ssrc =
    if ssrc = p.ssrc ∧ announced d p ≠ [] then announced d p else observedSets d ssrc
  storable : ∀ ssrc, Storable (observedSets d₁ ssrc)
  primed : ∀ ssrc ∈ d.sources, ssrc ≠ p.ssrc → Primed d₁ ssrc

theorem Tracked.observe {d d₁ : Depacketizer} {log : Log} {p : RtpPacket} {now : Nat}
    (h : Tracked d log) (hobserve : (d.countHeader p).observe p now = some d₁) :
    Observed d p d₁ := by
  obtain ⟨counters, hheader⟩ := countHeader_same d p
  obtain ⟨observed, hd₁⟩ := observe_frame hobserve
  have hparams : d₁.params = d.params := by rw [hd₁, hheader]
  have hsets : ∀ ssrc, observedSets d₁ ssrc =
      if ssrc = p.ssrc ∧ announced d p ≠ [] then announced d p else observedSets d ssrc := by
    intro ssrc
    rw [observe_sets hobserve ssrc, hheader]
    rfl
  refine ⟨hparams, by rw [hd₁, hheader], by rw [hd₁, hheader], hsets, fun ssrc => ?_, ?_⟩
  · rw [hsets]
    split
    · exact storable_announced d p
    · exact h.observed ssrc
  · intro ssrc hssrc hne
    rw [Primed, hparams, hsets, if_neg fun hsame => hne hsame.1]
    exact h.primed ssrc hssrc

/-- The log up to the groups is that of the state in which the packet's source is selected
and the sets observed of it are stored. -/
theorem Tracked.chosen {d d₁ d₂ : Depacketizer} {log : Log} {p : RtpPacket} {now : Nat}
    {prior : List Event} (h : Tracked d log) (hlong : 2 ≤ p.payload.length)
    (hobserve : (d.countHeader p).observe p now = some d₁) (hchosen : Chosen d₁ p now prior d₂) :
    Tracked (prime d₂ p.ssrc) (opening d log (.push p now)) := by
  have hseen := h.observe hobserve
  unfold opening
  dsimp only
  rw [if_neg (Nat.not_lt.2 hlong), observing_push hlong hobserve]
  cases hchosen with
  | known hknown =>
      rw [hseen.sources] at hknown
      rw [if_pos hknown]
      by_cases hnone : announced d p = []
      · have hsame : ∀ ssrc, observedSets d₁ ssrc = observedSets d ssrc := fun ssrc => by
          rw [hseen.sets, if_neg fun hboth => hboth.2 hnone]
        have htracked := h.same hseen.params hseen.sources hsame
        rw [prime_eq (htracked.primed p.ssrc (hseen.sources.symm ▸ hknown)), hnone, List.map_nil,
          List.append_nil]
        exact htracked
      · have hnew : observedSets d₁ p.ssrc = announced d p := by
          rw [hseen.sets, if_pos ⟨rfl, hnone⟩]
        rw [← hnew]
        apply tracked_prime (hseen.params.trans h.params) h.sets _ hseen.storable
        exact fun ssrc hssrc => hseen.primed ssrc (hseen.sources ▸ hssrc)
  | added hnew hroom =>
      rw [hseen.sources] at hnew
      rw [hseen.tiles, hseen.sources] at hroom
      rw [if_neg hnew, if_pos hroom]
      apply tracked_prime
        (d := { d₁ with sources := (d₁.sources ++ [p.ssrc]).insertionSort (· ≤ ·) })
        (hseen.params.trans h.params) h.sets _ hseen.storable
      intro ssrc hssrc hne
      rcases List.mem_append.1 ((List.mem_insertionSort _).1 hssrc) with hold | hlast
      · exact hseen.primed ssrc (hseen.sources ▸ hold) hne
      · exact absurd (List.mem_singleton.1 hlast) hne
  | handoff hnew hfull hdue =>
      rw [hseen.sources] at hnew
      rw [hseen.tiles, hseen.sources] at hfull
      rw [if_neg hnew, if_neg (Nat.not_lt.2 hfull), if_pos hdue]
      have hempty : (d₁.handoff p.ssrc).params = stored [] := rfl
      refine tracked_prime hempty (fun entry hentry => (by cases hentry)) ?_ hseen.storable
      intro ssrc hssrc hne
      exact absurd (List.mem_singleton.1 hssrc) hne

/-- A held packet belongs to a source that is not selected, so the log is as it was. -/
theorem opening_held {d : Depacketizer} {log : Log} {p : RtpPacket} {now : Nat}
    (hlong : 2 ≤ p.payload.length) (hnew : p.ssrc ∉ d.sources)
    (hfull : d.tiles ≤ d.sources.length)
    (hdue : (observing d (.push p now)).handoffDue p now = some false) :
    opening d log (.push p now) = log := by
  unfold opening
  dsimp only
  rw [if_neg (Nat.not_lt.2 hlong), if_neg hnew, if_neg (Nat.not_lt.2 hfull), hdue]
  rfl

theorem Tracked.hold {d d₁ d₂ : Depacketizer} {log : Log} {p : RtpPacket} {now : Nat}
    (h : Tracked d log) (hobserve : (d.countHeader p).observe p now = some d₁)
    (hnew : p.ssrc ∉ d₁.sources) (hhold : d₁.hold p = some d₂) : Tracked d₂ log := by
  have hseen := h.observe hobserve
  obtain ⟨observed, counters, hheld⟩ := hold_frame hhold
  have hparams : d₂.params = d₁.params := by rw [hheld]
  have hsources : d₂.sources = d₁.sources := by rw [hheld]
  refine ⟨hparams.trans (hseen.params.trans h.params), h.sets, ?_, ?_⟩
  · intro ssrc hssrc
    rw [hsources] at hssrc
    rw [Primed, hparams, (hold_observed hhold).1]
    refine hseen.primed ssrc (hseen.sources ▸ hssrc) fun hsame => hnew ?_
    rw [← hsame]
    exact hssrc
  · rw [(hold_observed hhold).1]
    exact hseen.storable

/-- A call goes on to its groups from a state that the log is true of. -/
theorem step_fills {tieBreak : Nat → Key} {d d' : Depacketizer} {log : Log} {op : Op}
    {events : List Event} (h : Tracked d log) (hsafe : Safe d)
    (hstep : d.step tieBreak op = some (events, d')) :
    ∃ m, Tracked m (opening d log op) ∧ m.appleDonl = (observing d op).appleDonl ∧
      Fills m events d' ∧ d'.sources = m.sources := by
  cases op with
  | poll now =>
      obtain ⟨_, _, hpoll, _, _, hsources, _⟩ := poll_run now hsafe
      rw [show d.poll now = some (events, d') from hstep] at hpoll
      cases hpoll
      exact ⟨d, h, rfl, poll_fills hstep, hsources⟩
  | push p now =>
      obtain ⟨counters, hheader⟩ := countHeader_same d p
      cases push_inversion hsafe hstep with
      | short hshort hsafe' hpoll =>
          refine ⟨_, ?_, ?_, poll_fills hpoll, (poll_steady hsafe' hpoll).sources⟩
          · rw [hheader]
            unfold opening
            dsimp only
            rw [if_pos hshort]
            exact h.same rfl rfl fun _ => rfl
          · rw [hheader]
            show d.appleDonl = (if p.payload.length < 2 then d else _).appleDonl
            rw [if_pos hshort]
      | @held d₁ d₂ _ _ hlong hobserve hnew hfull hdue hhold hsafe' hpoll =>
          have hseen := h.observe hobserve
          refine ⟨d₂, ?_, ?_, poll_fills hpoll, (poll_steady hsafe' hpoll).sources⟩
          · rw [opening_held hlong (hseen.sources ▸ hnew)
              (by rw [← hseen.tiles, ← hseen.sources]; exact hfull)
              (by rw [observing_push hlong hobserve]; exact hdue)]
            exact h.hold hobserve hnew hhold
          · rw [(hold_observed hhold).2, observing_push hlong hobserve]
      | @selected d₁ prior d₂ later _ hlong hobserve hchosen hsafe' hmember hqueue hall =>
          have hchosen' := h.chosen hlong hobserve hchosen
          obtain ⟨observed, htaken⟩ := takePrefix_frame d₂ p.ssrc
          obtain ⟨hsets, hdonl⟩ := takePrefix_observed d₂ p.ssrc
          generalize (d₂.takePrefix p.ssrc).2 = d₃ at *
          have hparams : (prime d₃ p.ssrc).params = (prime d₂ p.ssrc).params := by
            show (observedSets d₃ p.ssrc).foldl storeParam d₃.params = _
            rw [hsets, htaken]
            rfl
          have hsame : d₂.appleDonl = d₁.appleDonl ∧
              ∀ e ∈ prior, e.unit? = none ∧ Event.sets (prime d₃ p.ssrc).appleDonl e = [] := by
            cases hchosen with
            | known => exact ⟨rfl, nofun⟩
            | added => exact ⟨rfl, nofun⟩
            | handoff => exact ⟨rfl, List.forall_mem_singleton.2 ⟨rfl, rfl⟩⟩
          have hprior : Fills (prime d₃ p.ssrc) prior (prime d₃ p.ssrc) :=
            .of_silent rfl rfl hsame.2
          have hmembers : ∀ q ∈ (d₂.takePrefix p.ssrc).1 ++ [p], q.ssrc ∈ d₃.sources := by
            intro q hq
            rw [hqueue q hq]
            exact hmember
          have hsources := (pushAll_steady tieBreak hsafe' hmembers hall).sources
          rw [pushAll_prime hqueue (by simp)] at hall
          refine ⟨prime d₃ p.ssrc, ?_, ?_, ?_, hsources⟩
          · apply hchosen'.same hparams
            · show d₃.sources = d₂.sources
              rw [htaken]
            · exact fun ssrc => congrFun hsets ssrc
          · rw [observing_push hlong hobserve, ← hsame.1, ← hdonl]
            rfl
          · exact hprior.trans (pushAll_fills (primed_prime d₃ p.ssrc) hqueue hall)

/-! ## Runs -/

theorem map_fst_annotate (framing : UInt32 → Bool) (log : Log) (events : List Event) :
    (annotate framing log events).map Prod.fst = events := by
  induction events generalizing log with
  | nil => rfl
  | cons e rest ih =>
      unfold annotate
      rw [List.map_cons, ih]

theorem mem_annotate {framing : UInt32 → Bool} {log l : Log} {events : List Event} {e : Event}
    (h : (e, l) ∈ annotate framing log events) :
    ∃ before after, events = before ++ e :: after ∧ l = log ++ setsOf framing (before ++ [e]) := by
  induction events generalizing log with
  | nil => cases h
  | cons first rest ih =>
      unfold annotate at h
      rcases List.mem_cons.1 h with heq | hin
      · cases heq
        refine ⟨[], rest, rfl, ?_⟩
        rw [List.nil_append, setsOf, List.flatMap_singleton]
      · obtain ⟨before, after, hsplit, hlog⟩ := ih hin
        refine ⟨first :: before, after, by rw [hsplit, List.cons_append], ?_⟩
        rw [hlog, List.append_assoc]
        rfl

/-- The key units of a run carry the sets stored from the log of their generation. -/
theorem history_spec {tieBreak : Nat → Key} {d : Depacketizer} {log : Log} (h : Tracked d log)
    (hsafe : Safe d) (r : Reception) (ops : List Op) :
    ∃ events d', d.run tieBreak ops = some (events, d') ∧
      (history tieBreak d log r ops).map Prod.fst = events ∧
      ∀ key g u l r', (.resolved key g (.emitted u), l, r') ∈ history tieBreak d log r ops →
        u.key = true → Prefixed (stored l) u ∧ ∀ entry ∈ l, isParam entry.2 = true := by
  induction ops generalizing d log r with
  | nil => exact ⟨[], d, rfl, rfl, nofun⟩
  | cons op ops ih =>
      obtain ⟨events, d₁, hstep, _, hsafe₁⟩ := step_run tieBreak hsafe op
      obtain ⟨m, hm, hframing, hfills, hsources⟩ := step_fills h hsafe hstep
      have htracked := hm.fills hfills hsources
      rw [hframing] at htracked
      obtain ⟨later, d', hrest, hhistory, hunits⟩ := ih htracked hsafe₁ (r.arrive d op)
      unfold history
      rw [hstep]
      dsimp only
      refine ⟨events ++ later, d', run_cons hstep hrest, ?_, fun key g u l r' hmem hkey => ?_⟩
      · rw [List.map_append, List.map_map, hhistory]
        exact congrArg (· ++ later) (map_fst_annotate ..)
      · rcases List.mem_append.1 hmem with hthis | hlater
        · obtain ⟨⟨e, l'⟩, hentry, heq⟩ := List.mem_map.1 hthis
          cases heq
          obtain ⟨before, after, hsplit, hl⟩ := mem_annotate hentry
          have hunit := hfills.units before key g u after hsplit hkey
          rw [hm.params, ← stored_append, hframing, ← hl] at hunit
          refine ⟨hunit, fun entry hentry => ?_⟩
          rw [hl] at hentry
          rcases List.mem_append.1 hentry with hold | hnew
          · exact hm.sets entry hold
          · obtain ⟨e, _, he⟩ := List.mem_flatMap.1 hnew
            exact isParam_sets _ e entry he
        · exact hunits key g u l r' hlater hkey

/-! ## Which set wins -/

theorem isParam_iff {nal : Nal} :
    isParam nal = true ↔ nalKind nal = some 32 ∨ nalKind nal = some 33 ∨ nalKind nal = some 34 := by
  unfold isParam
  cases nalKind nal with
  | none => simp
  | some kind =>
      rw [Option.any_some, Bool.and_eq_true, decide_eq_true_eq, decide_eq_true_eq,
        UInt8.le_iff_toNat_le, UInt8.le_iff_toNat_le]
      simp only [Option.some.injEq, ← UInt8.toNat_inj]
      show 32 ≤ kind.toNat ∧ kind.toNat ≤ 34 ↔ kind.toNat = 32 ∨ kind.toNat = 33 ∨ kind.toNat = 34
      omega

theorem not_isParam_of_isSlice {nal : Nal} (h : isSlice nal = true) : ¬isParam nal = true := by
  rw [isParam_iff]
  unfold isSlice at h
  rintro (hkind | hkind | hkind)
  · rw [hkind] at h
    simp at h
  · rw [hkind] at h
    simp at h
  · rw [hkind] at h
    simp at h

theorem mem_keySets {params : List Nal} {nal : Nal} :
    nal ∈ keySets params ↔ nal ∈ params ∧ isParam nal = true := by
  rw [isParam_iff]
  unfold keySets
  simp only [List.mem_append, List.mem_filter, decide_eq_true_eq]
  rw [or_assoc, and_or_left, and_or_left]

/-- The sets before a key picture are sorted within each kind. -/
theorem sorted_keySets {params : List Nal} (h : params.Pairwise (· ≤ ·)) (id : Nal → Nat)
    (slot : Option UInt8 × Nat) :
    ((keySets params).filter fun nal => slotOf id nal = slot).Pairwise (· ≤ ·) := by
  have hkind : ∀ {kind : UInt8} {nal : Nal},
      nal ∈ (params.filter fun nal => nalKind nal = some kind).filter
        (fun nal => slotOf id nal = slot) → slot.1 = some kind := by
    intro kind nal hnal
    simp only [List.mem_filter, decide_eq_true_eq] at hnal
    rw [← hnal.2, ← hnal.1.2]
    rfl
  have hpart : ∀ kind : UInt8, ((params.filter fun nal => nalKind nal = some kind).filter
      fun nal => slotOf id nal = slot).Pairwise (· ≤ ·) :=
    fun kind => (h.filter _).filter _
  unfold keySets
  rw [List.filter_append, List.filter_append]
  refine List.pairwise_append.2 ⟨List.pairwise_append.2 ⟨hpart 32, hpart 33, ?_⟩, hpart 34, ?_⟩
  · intro a ha b hb
    have hsame := (hkind ha).symm.trans (hkind hb)
    cases hsame
  · intro a ha b hb
    rcases List.mem_append.1 ha with ha | ha
    · have hsame := (hkind ha).symm.trans (hkind hb)
      cases hsame
    · have hsame := (hkind ha).symm.trans (hkind hb)
      cases hsame

theorem stored_sorted (log : Log) : (stored log).Pairwise (· ≤ ·) :=
  ((stored_nil (storables log)).foldl fun _ hnal => hnal).sorted

theorem isParam_stored {log : Log} (h : ∀ entry ∈ log, isParam entry.2 = true) {nal : Nal}
    (hnal : nal ∈ stored log) : isParam nal = true := by
  have hin := ((stored_nil (storables log)).foldl fun _ hnal => hnal).sets nal hnal
  obtain ⟨entry, hentry, rfl⟩ := List.mem_map.1 (List.mem_filter.1 hin).1
  exact h entry hentry

theorem in_force_iff {log : Log} (h : ∀ entry ∈ log, isParam entry.2 = true) (id : Nal → Nat)
    (received : List Nal) :
    replay (slotOf id) (keySets (stored log)) = replay (slotOf id) received ↔
      Wins id log received := by
  have hmem : ∀ nal, nal ∈ keySets (stored log) ↔ Kept log nal := by
    intro nal
    rw [mem_keySets, mem_stored_iff]
    exact and_iff_left_of_imp fun hkept => isParam_stored h (mem_stored_iff.2 hkept)
  rw [replay_eq_replay_iff (slotOf id) (fun a => Std.le_refl a) (fun _ _ => Std.le_antisymm)
    (sorted_keySets (stored_sorted log) id)]
  simp only [hmem]
  exact ⟨fun ⟨hkept, hgreatest⟩ => ⟨hkept, hgreatest⟩, fun hwins => ⟨hwins.kept, hwins.greatest⟩⟩

def setPacket (seq : UInt16) (timestamp : UInt32) (byte : UInt8) : RtpPacket :=
  { ssrc := 1
    seq
    timestamp
    marker := false
    pt := 96
    payload := [66, 1, 0, 0, byte] }

/-- Two key pictures, the second with a new SPS. -/
def replacedSet (first second : UInt8) : List Op :=
  [.push (setPacket 1 1 first) 0, .push (DepacketizeLoss.slicePacket 2 1 19) 0, .poll 25,
    .push (setPacket 3 2 second) 40, .push (DepacketizeLoss.slicePacket 4 2 19) 40, .poll 65]

/-- The data of a key unit and the sets received by then from its source. -/
def carried : Event × Log × Reception → Option (List UInt8 × List Nal)
  | (.resolved key _ (.emitted u), _, r) =>
      if u.key then some (u.data, r.sets true key.1) else none
  | _ => none

def aggregatePacket (seq : UInt16) (timestamp : UInt32) (byte : UInt8) : RtpPacket :=
  { setPacket seq timestamp byte with payload := [96, 1, 0, 0, 0, 3, 66, 1, byte] }

-- The aggregate of the next picture comes before this one is put together, and the set of
-- this one does not count again then.
example :
    (history (fun _ => (0, 0)) (Depacketizer.new 1) [] ⟨[], []⟩
      [.push (aggregatePacket 1 1 9) 0, .push (DepacketizeLoss.slicePacket 2 1 19) 0,
        .push (aggregatePacket 3 2 1) 10, .poll 25]).map carried =
      [some (annexB [[66, 1, 1], [66, 1, 9], [38, 1, 128]], [[66, 1, 9], [66, 1, 1]])] := by
  decide +kernel

end MacVnc.Media.DepacketizeParams

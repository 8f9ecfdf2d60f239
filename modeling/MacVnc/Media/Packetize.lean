import MacVnc.Media.DepacketizeGroup
/-!
# Packetizing a picture

What the depacketizer is for: the Apple framing of a picture as a sender applies
it.  A piece of the picture is a NAL unit in a packet of its own, a NAL unit cut
into fragments, or an aggregate of NAL units with parameter sets, each with its
decoding order number.  Reassembling the payloads of a valid picture gives back
its NAL units in order.
-/

namespace MacVnc.Media.Packetize

open MacVnc.Lib.Bytes
open MacVnc.Media.Srtp (RtpPacket slice slice_eq_some)
open MacVnc.Media.Depacketize
open MacVnc.Media.DepacketizeGroup

structure ValidNal (nal : Nal) : Prop where
  length : 3 ≤ nal.length
  forbidden : nal.getD 0 0 &&& 128 = 0
  temporal : nal.getD 1 0 &&& 7 ≠ 0
  kind : nal.getD 0 0 >>> 1 &&& 63 ≤ 47

inductive Piece where
  | single (donl : UInt16) (nal : Nal)
  | fragments (donl : UInt16) (h0 h1 : UInt8) (bodies : List (List UInt8))
  | aggregate (h0 h1 : UInt8) (donl : UInt16) (nals : List Nal)
deriving DecidableEq

namespace Piece

def nals : Piece → List Nal
  | .single _ nal => [nal]
  | .fragments _ h0 h1 bodies => [h0 :: h1 :: bodies.flatten]
  | .aggregate _ _ _ nals => nals

def donl : Piece → UInt16
  | .single donl _ => donl
  | .fragments donl _ _ _ => donl
  | .aggregate _ _ donl _ => donl

structure ValidFragments (h0 h1 : UInt8) (bodies : List (List UInt8)) : Prop where
  nal : ValidNal (h0 :: h1 :: bodies.flatten)
  some : bodies ≠ []
  nonempty : ∀ body ∈ bodies, body ≠ []

structure ValidAggregate (h0 : UInt8) (nals : List Nal) : Prop where
  header : h0 >>> 1 &&& 63 = 48
  valid : ∀ nal ∈ nals, ValidNal nal ∧ nal.length < 2 ^ 16
  some : 1 ≤ (nals.filter isParam).length
  room : (nals.filter isParam).length ≤ 64

def Valid : Piece → Prop
  | .single _ nal => ValidNal nal
  | .fragments _ h0 h1 bodies => ValidFragments h0 h1 bodies
  | .aggregate h0 _ _ nals => ValidAggregate h0 nals

def donlBytes (donl : UInt16) : List UInt8 := toBigEndian 2 donl.toNat

def flag (bit : UInt8) (set : Bool) : UInt8 := if set then bit else 0

/-- The fragmentation header: the ends of the NAL unit and its type. -/
def fragmentByte (h0 : UInt8) (start last : Bool) : UInt8 :=
  flag 128 start ||| flag 64 last ||| (h0 >>> 1 &&& 63)

/-- A fragmentation unit; `start` and `last` mark the ends of the NAL unit. -/
def fragment (donl : UInt16) (h0 h1 : UInt8) (start last : Bool) (body : List UInt8) :
    List UInt8 :=
  (h0 &&& 129 ||| 98) :: h1 :: fragmentByte h0 start last ::
    (donlBytes donl ++ body)

def fragmentAll (donl : UInt16) (h0 h1 : UInt8) (start : Bool) :
    List (List UInt8) → List (List UInt8)
  | [] => []
  | [body] => [fragment donl h0 h1 start true body]
  | body :: next :: rest =>
      fragment donl h0 h1 start false body :: fragmentAll donl h0 h1 false (next :: rest)

def sized (nal : Nal) : List UInt8 := toBigEndian 2 nal.length ++ nal

def payloads : Piece → List (List UInt8)
  | .single donl nal => [nal.take 2 ++ (donlBytes donl ++ nal.drop 2)]
  | .fragments donl h0 h1 bodies => fragmentAll donl h0 h1 true bodies
  | .aggregate h0 h1 donl nals => [h0 :: h1 :: (donlBytes donl ++ nals.flatMap sized)]

end Piece

open Piece

/-! ## Reading a payload back -/

@[simp] theorem length_donlBytes (donl : UInt16) : (donlBytes donl).length = 2 := by
  simp [donlBytes]

theorem ofBigEndian_donlBytes (donl : UInt16) :
    UInt16.ofNat (ofBigEndian (donlBytes donl)) = donl := by
  rw [donlBytes, ofBigEndian_toBigEndian donl.toNat_lt]
  exact UInt16.ofNat_toNat

theorem be16_donlBytes (header : List UInt8) (donl : UInt16) (body : List UInt8) :
    be16 (header ++ (donlBytes donl ++ body)) header.length = some donl := by
  have hslice : slice (header ++ (donlBytes donl ++ body)) header.length (header.length + 2) =
      some (donlBytes donl) := by
    rw [slice_eq_some (by omega) (by simp), List.drop_left, Nat.add_sub_cancel_left,
      ← length_donlBytes donl, List.take_left]
  rw [be16, hslice, Option.map_some, ofBigEndian_donlBytes]

theorem toBigEndian_two (n : Nat) : ∃ hi lo, toBigEndian 2 n = [hi, lo] := by
  have hlen := length_toBigEndian 2 n
  match toBigEndian 2 n, hlen with
  | [hi, lo], _ => exact ⟨hi, lo, rfl⟩

theorem sized_cons {nal : Nal} (hhigh : nal.length < 2 ^ 16) (rest : List Nal) :
    ∃ hi lo, ofBigEndian [hi, lo] = nal.length ∧
      (nal :: rest).flatMap sized = hi :: lo :: (nal ++ rest.flatMap sized) := by
  obtain ⟨hi, lo, hbytes⟩ := toBigEndian_two nal.length
  refine ⟨hi, lo, ?_, ?_⟩
  · rw [← hbytes, ofBigEndian_toBigEndian (by omega)]
  · rw [List.flatMap_cons, sized, hbytes]
    rfl

/-- The sized NAL units of an aggregate are split where they were joined. -/
theorem splitAggregate_sized {nals : List Nal}
    (h : ∀ nal ∈ nals, 2 ≤ nal.length ∧ nal.length < 2 ^ 16) :
    splitAggregate (nals.flatMap sized) = .ok nals := by
  induction nals with
  | nil => simp [splitAggregate]
  | cons nal rest ih =>
      obtain ⟨hlow, hhigh⟩ := h nal (by simp)
      obtain ⟨hi, lo, hsize, hsplit⟩ := sized_cons hhigh rest
      rw [hsplit, splitAggregate]
      simp only [hsize]
      rw [if_neg (by simp; omega), List.drop_left, List.take_left,
        ih fun other hother => h other (List.mem_cons_of_mem _ hother)]
      rfl

structure ValidUnit (nal : Nal) : Prop where
  low : 2 ≤ nal.length
  high : nal.length < 2 ^ 16
  forbidden : nal.getD 0 0 &&& 128 = 0
  temporal : nal.getD 1 0 &&& 7 ≠ 0

theorem ValidNal.validUnit {nal : Nal} (h : ValidNal nal) (hhigh : nal.length < 2 ^ 16) :
    ValidUnit nal :=
  ⟨by have := h.length; omega, hhigh, h.forbidden, h.temporal⟩

theorem isParam_iff_kind {nal : Nal} (h : 2 ≤ nal.length) {kind : UInt8}
    (hkind : nal.getD 0 0 >>> 1 &&& 63 = kind) :
    isParam nal = true ↔ 32 ≤ kind ∧ kind ≤ 34 := by
  have hsome : nalKind nal = some kind := by
    rw [← hkind, nalKind_eq nal (by omega), List.getD_eq_getElem?_getD,
      List.getElem?_eq_getElem (by omega : 0 < nal.length), Option.getD_some]
  rw [isParam, hsome, Option.any_some, Bool.and_eq_true, decide_eq_true_eq, decide_eq_true_eq]

/-- An aggregate of valid units is read up to its end: its parameter sets are found if
there are some and not too many. -/
theorem parseParameterAp_units {nals : List Nal} (h : ∀ nal ∈ nals, ValidUnit nal)
    {params : List Nal} (hparams : params.length ≤ 64) :
    parseParameterAp (nals.flatMap sized) params =
      if params ++ nals.filter isParam = [] ∨ 64 < params.length + (nals.filter isParam).length
      then none else some (params ++ nals.filter isParam) := by
  induction nals generalizing params with
  | nil =>
      rw [List.flatMap_nil, parseParameterAp, List.filter_nil, List.append_nil, List.length_nil]
      by_cases hnone : params = []
      · rw [if_pos hnone, if_pos (Or.inl hnone)]
      · rw [if_neg hnone, if_neg (by simp [hnone]; omega)]
  | cons nal rest ih =>
      have hunit := h nal (by simp)
      have hrest : ∀ other ∈ rest, ValidUnit other :=
        fun other hother => h other (List.mem_cons_of_mem _ hother)
      obtain ⟨hi, lo, hsize, hsplit⟩ := sized_cons hunit.high rest
      have hlow := hunit.low
      have hhigh := hunit.high
      rw [hsplit, parseParameterAp]
      simp only [hsize, List.drop_left, List.take_left]
      rw [if_neg (by simp; omega), if_neg (by
        rw [not_or]
        exact ⟨not_not.2 hunit.forbidden, hunit.temporal⟩)]
      have hkind := isParam_iff_kind hlow rfl
      by_cases hset : isParam nal = true
      · rw [if_pos (hkind.1 hset), List.filter_cons_of_pos hset, List.length_cons]
        by_cases hfull : 64 ≤ params.length
        · rw [if_pos (Or.inr hfull), if_pos (Or.inr (by omega))]
        · rw [if_neg (by omega), ih hrest (by simp; omega), List.append_assoc,
            List.singleton_append, List.length_append, List.length_singleton]
          simp only [Nat.add_assoc, Nat.add_comm 1]
      · rw [if_neg (fun hbounds => hset (hkind.2 hbounds)), List.filter_cons_of_neg hset,
          ih hrest hparams]

theorem parseParameterAp_sized {nals : List Nal}
    (h : ∀ nal ∈ nals, ValidNal nal ∧ nal.length < 2 ^ 16) (params : List Nal)
    (hroom : params.length + (nals.filter isParam).length ≤ 64)
    (hsome : params ++ nals.filter isParam ≠ []) :
    parseParameterAp (nals.flatMap sized) params = some (params ++ nals.filter isParam) := by
  have hunits : ∀ nal ∈ nals, ValidUnit nal :=
    fun nal hnal => (h nal hnal).1.validUnit (h nal hnal).2
  rw [parseParameterAp_units hunits (by omega), if_neg]
  rw [not_or]
  exact ⟨hsome, by omega⟩

/-! ## Header bytes of fragments

Each fact is a check of the 256 values of the NAL unit's first byte. -/

theorem fragment_kind (h0 : UInt8) : (h0 &&& 129 ||| 98) >>> 1 &&& 63 = 49 := by
  obtain ⟨b⟩ := h0
  revert b
  decide +kernel

theorem fragment_start (h0 : UInt8) (start last : Bool) :
    decide (fragmentByte h0 start last &&& 128 ≠ 0) = start := by
  obtain ⟨b⟩ := h0
  revert b
  cases start <;> cases last <;> decide +kernel

theorem fragment_last (h0 : UInt8) (start last : Bool) :
    fragmentByte h0 start last &&& 64 ≠ 0 ↔ last = true := by
  obtain ⟨b⟩ := h0
  revert b
  cases start <;> cases last <;> decide +kernel

/-- The receiver rebuilds the NAL unit's first byte. -/
theorem fragment_header (h0 : UInt8) (start last : Bool) :
    ((h0 &&& 129 ||| 98) &&& 129) ||| ((fragmentByte h0 start last &&& 63) <<< (1 : UInt8)) =
      h0 := by
  obtain ⟨b⟩ := h0
  revert b
  cases start <;> cases last <;> decide +kernel

/-! ## Reassembly -/

theorem addAll_append (apple : Bool) (a : Assembly) (first second : List (List UInt8))
    {a' : Assembly} (h : a.addAll apple first = some (.ok a')) :
    a.addAll apple (first ++ second) = a'.addAll apple second := by
  induction first generalizing a with
  | nil =>
      cases h
      rfl
  | cons b rest ih =>
      unfold Assembly.addAll at h
      rw [List.cons_append, Assembly.addAll]
      cases hadd : a.add apple b with
      | none =>
          rw [hadd] at h
          cases h
      | some r =>
          rw [hadd] at h
          cases r with
          | error e => cases h
          | ok next => exact ih next h

def afterPiece (a : Assembly) (piece : Piece) (fragmentDonl : UInt16) : Assembly :=
  { nals := a.nals ++ piece.nals
    fragment := none
    fragmentDonl
    first := some (a.first.getD piece.donl) }

theorem add_eq (a : Assembly) (h0 h1 : UInt8) (donl : UInt16) (body : List UInt8)
    (hkind : h0 >>> 1 &&& 63 ≠ 49) (hclosed : a.fragment = none) :
    a.add true (h0 :: h1 :: (donlBytes donl ++ body)) =
      if h0 >>> 1 &&& 63 = 48 then
        some ((splitAggregate body).map fun nals =>
          { a with first := some (a.first.getD donl), nals := a.nals ++ nals })
      else some (.ok
        { a with first := some (a.first.getD donl), nals := a.nals ++ [h0 :: h1 :: body] }) := by
  have hdonl : be16 (h0 :: h1 :: (donlBytes donl ++ body)) 2 = some donl :=
    be16_donlBytes [h0, h1] donl body
  have hbody : (h0 :: h1 :: (donlBytes donl ++ body)).drop 4 = body := by
    show (donlBytes donl ++ body).drop 2 = body
    rw [← length_donlBytes donl, List.drop_left]
  unfold Assembly.add
  rw [if_neg (by simp), List.getElem?_cons_zero, List.getElem?_cons_succ, List.getElem?_cons_zero,
    Option.bind_some, Option.bind_some]
  dsimp only
  rw [if_neg hkind, if_neg (by simp), if_pos rfl, hdonl, Option.bind_some, if_pos rfl, hbody]
  by_cases haggregate : h0 >>> 1 &&& 63 = 48
  · rw [if_pos haggregate, if_pos haggregate, if_neg (by simp [hclosed])]
  · rw [if_neg haggregate, if_neg haggregate, if_neg hkind, if_neg (by simp [hclosed]),
      slice_eq_some (by simp) (le_refl _), hbody, Option.bind_some,
      List.take_of_length_le (by simp)]

/-- What is open before a fragment: nothing at the start, else the NAL unit so far. -/
structure Carries (a : Assembly) (h0 h1 : UInt8) (donl : UInt16) (start : Bool)
    (carried : Nal) : Prop where
  begins : start = true → a.fragment = none ∧ carried = [h0, h1]
  goesOn : start = false → a.fragment = some carried ∧ a.fragmentDonl = donl

theorem addFragment_eq {a : Assembly} {h0 h1 : UInt8} {donl : UInt16} {start : Bool}
    {carried : Nal} (h : Carries a h0 h1 donl start carried) (last : Bool) (body : List UInt8) :
    a.addFragment (h0 &&& 129 ||| 98) h1 (fragmentByte h0 start last) donl body =
      .ok (if last then
          { a with nals := a.nals ++ [carried ++ body], fragment := none, fragmentDonl := donl }
        else { a with fragment := some (carried ++ body), fragmentDonl := donl }) := by
  unfold Assembly.addFragment
  dsimp only
  rw [fragment_start, fragment_header]
  have hopen : ¬(start = true ∧ a.fragment.isSome = true) := by
    rintro ⟨hstart, hsome⟩
    rw [(h.begins hstart).1] at hsome
    cases hsome
  have hfragment : (if start = true then some [h0, h1] else a.fragment) = some carried := by
    cases hstart : start with
    | true => rw [if_pos rfl, (h.begins hstart).2]
    | false => rw [if_neg (by decide), (h.goesOn hstart).1]
  have hdonl : (if start = true then donl else a.fragmentDonl) = donl := by
    cases hstart : start with
    | true => rw [if_pos rfl]
    | false => rw [if_neg (by decide), (h.goesOn hstart).2]
  rw [if_neg hopen, hfragment, hdonl, if_neg (not_not.2 rfl)]
  dsimp only
  by_cases hlast : last = true
  · rw [if_pos ((fragment_last h0 start last).2 hlast), if_pos hlast]
  · rw [if_neg (fun hset => hlast ((fragment_last h0 start last).1 hset)), if_neg hlast]

theorem add_fragment (a : Assembly) (h0 h1 : UInt8) (donl : UInt16) (start last : Bool)
    {body : List UInt8} (hbody : body ≠ []) :
    a.add true (fragment donl h0 h1 start last body) =
      some (({ a with first := some (a.first.getD donl) } : Assembly).addFragment
        (h0 &&& 129 ||| 98) h1 (fragmentByte h0 start last) donl body) := by
  have hdonl : be16 (fragment donl h0 h1 start last body) 3 = some donl :=
    be16_donlBytes [h0 &&& 129 ||| 98, h1, fragmentByte h0 start last] donl body
  have hpiece : (fragment donl h0 h1 start last body).drop 5 = body := by
    show (donlBytes donl ++ body).drop 2 = body
    rw [← length_donlBytes donl, List.drop_left]
  have hlen : (fragment donl h0 h1 start last body).length = 5 + body.length := by
    simp [fragment]
    omega
  have hpos : 0 < body.length := List.length_pos_iff.2 hbody
  have hzero : (fragment donl h0 h1 start last body)[0]? = some (h0 &&& 129 ||| 98) := rfl
  have hone : (fragment donl h0 h1 start last body)[1]? = some h1 := rfl
  have htwo : (fragment donl h0 h1 start last body)[2]? = some (fragmentByte h0 start last) := rfl
  unfold Assembly.add
  rw [if_neg (by omega), hzero, hone, Option.bind_some, Option.bind_some]
  dsimp only
  rw [fragment_kind, if_pos rfl, if_neg (by omega), if_pos rfl, hdonl, Option.bind_some,
    if_neg (by decide), if_pos rfl, if_pos rfl, if_neg (by omega), htwo, Option.bind_some,
    slice_eq_some (by omega) (le_refl _), hpiece, List.take_of_length_le (by omega),
    Option.bind_some]

theorem Carries.withFirst {a : Assembly} {h0 h1 : UInt8} {donl : UInt16} {start : Bool}
    {carried : Nal} (h : Carries a h0 h1 donl start carried) (first : Option UInt16) :
    Carries { a with first } h0 h1 donl start carried :=
  ⟨h.begins, h.goesOn⟩

/-- The fragments of a NAL unit add that NAL unit. -/
theorem addAll_fragmentAll {a : Assembly} {h0 h1 : UInt8} {donl : UInt16} {start : Bool}
    {carried : Nal} (h : Carries a h0 h1 donl start carried) {bodies : List (List UInt8)}
    (hsome : bodies ≠ []) (hnonempty : ∀ body ∈ bodies, body ≠ []) :
    a.addAll true (fragmentAll donl h0 h1 start bodies) =
      some (.ok
        { nals := a.nals ++ [carried ++ bodies.flatten]
          fragment := none
          fragmentDonl := donl
          first := some (a.first.getD donl) }) := by
  induction bodies generalizing a start carried with
  | nil => exact absurd rfl hsome
  | cons body rest ih =>
      have hbody := hnonempty body (by simp)
      cases rest with
      | nil =>
          rw [fragmentAll, Assembly.addAll, add_fragment a h0 h1 donl start true hbody,
            addFragment_eq (h.withFirst _)]
          simp [Assembly.addAll]
      | cons next rest =>
          rw [fragmentAll, Assembly.addAll, add_fragment a h0 h1 donl start false hbody,
            addFragment_eq (h.withFirst _)]
          have hcarries : Carries
              { a with
                fragment := some (carried ++ body)
                fragmentDonl := donl
                first := some (a.first.getD donl) }
              h0 h1 donl false (carried ++ body) :=
            ⟨fun hfalse => (by cases hfalse), fun _ => ⟨rfl, rfl⟩⟩
          have hrest := ih hcarries (by simp) (fun b hb => hnonempty b (List.mem_cons_of_mem _ hb))
          rw [if_neg (by decide)]
          dsimp only
          rw [hrest]
          simp

theorem validNal_split {nal : Nal} (h : ValidNal nal) :
    ∃ h0 h1 body, nal = h0 :: h1 :: body ∧ body ≠ [] ∧ h0 >>> 1 &&& 63 ≤ 47 := by
  match nal, h with
  | [], h => exact absurd h.length (by decide)
  | [_], h => exact absurd h.length (by simp)
  | [_, _], h => exact absurd h.length (by simp)
  | h0 :: h1 :: b :: body, h => exact ⟨h0, h1, b :: body, rfl, by simp, h.kind⟩

/-- The payloads of a valid piece add its NAL units. -/
theorem addAll_piece {a : Assembly} (hclosed : a.fragment = none) {piece : Piece}
    (h : piece.Valid) :
    ∃ fragmentDonl, a.addAll true piece.payloads =
      some (.ok (afterPiece a piece fragmentDonl)) := by
  cases piece with
  | single donl nal =>
      obtain ⟨h0, h1, body, rfl, _, hkind⟩ := validNal_split h
      have hsmall : h0 >>> 1 &&& 63 ≠ 49 ∧ h0 >>> 1 &&& 63 ≠ 48 := by
        constructor
        · intro heq
          rw [heq] at hkind
          exact absurd hkind (by decide)
        · intro heq
          rw [heq] at hkind
          exact absurd hkind (by decide)
      refine ⟨a.fragmentDonl, ?_⟩
      show a.addAll true [h0 :: h1 :: (donlBytes donl ++ body)] = _
      rw [Assembly.addAll, add_eq a h0 h1 donl body hsmall.1 hclosed, if_neg hsmall.2]
      simp [Assembly.addAll, afterPiece, Piece.nals, Piece.donl, hclosed]
  | fragments donl h0 h1 bodies =>
      refine ⟨donl, ?_⟩
      have hcarries : Carries a h0 h1 donl true [h0, h1] :=
        ⟨fun _ => ⟨hclosed, rfl⟩, fun hfalse => by cases hfalse⟩
      show a.addAll true (fragmentAll donl h0 h1 true bodies) = _
      rw [addAll_fragmentAll hcarries h.some h.nonempty]
      rfl
  | aggregate h0 h1 donl nals =>
      refine ⟨a.fragmentDonl, ?_⟩
      have hsplit : splitAggregate (nals.flatMap sized) = .ok nals :=
        splitAggregate_sized fun nal hnal => by
          have hvalid := h.valid nal hnal
          exact ⟨by have := hvalid.1.length; omega, hvalid.2⟩
      have hkind : h0 >>> 1 &&& 63 ≠ 49 := by
        rw [h.header]
        decide
      show a.addAll true [h0 :: h1 :: (donlBytes donl ++ nals.flatMap sized)] = _
      rw [Assembly.addAll, add_eq a h0 h1 donl _ hkind hclosed, if_pos h.header, hsplit]
      simp [Except.map, Assembly.addAll, afterPiece, Piece.nals, Piece.donl, hclosed]

theorem addAll_pieces {a : Assembly} (hclosed : a.fragment = none) {pieces : List Piece}
    (h : ∀ piece ∈ pieces, piece.Valid) :
    ∃ a', a.addAll true (pieces.flatMap Piece.payloads) = some (.ok a') ∧ a'.fragment = none ∧
      a'.nals = a.nals ++ pieces.flatMap Piece.nals ∧
      a'.first = a.first.or (pieces.head?.map Piece.donl) := by
  induction pieces generalizing a with
  | nil => exact ⟨a, rfl, hclosed, by simp, by simp⟩
  | cons piece rest ih =>
      obtain ⟨fragmentDonl, hpiece⟩ := addAll_piece hclosed (h piece (by simp))
      rcases ih (a := afterPiece a piece fragmentDonl) rfl
        (fun other hother => h other (List.mem_cons_of_mem _ hother)) with
        ⟨a', hall, hclosed', hnals, hfirst⟩
      refine ⟨a', ?_, hclosed', ?_, ?_⟩
      · rw [List.flatMap_cons, addAll_append true a _ _ hpiece, hall]
      · rw [hnals]
        simp [afterPiece]
      · rw [hfirst]
        cases hfirst : a.first <;> simp [afterPiece, hfirst]

/-- Reassembly inverts the packetization of a valid picture. -/
theorem reassemble_payloads {pieces : List Piece} (h : ∀ piece ∈ pieces, piece.Valid)
    {donl : UInt16} (hdonl : pieces.head?.map Piece.donl = some donl) :
    reassemble (pieces.flatMap Piece.payloads) true =
      some (.ok (pieces.flatMap Piece.nals, donl)) := by
  obtain ⟨a', hall, hclosed, hnals, hfirst⟩ := addAll_pieces (a := Assembly.empty) rfl h
  have hfirst' : a'.first = some donl := by
    rw [hfirst, hdonl]
    rfl
  unfold reassemble
  rw [hall]
  dsimp only
  rw [if_neg (by rw [hclosed]; decide), hfirst', hnals]
  rfl

/-! ## Pictures -/

/-- The packets of a picture: consecutive sequence numbers, the marker on the last. -/
def number (key : Key) (pt : UInt8) (seq : UInt16) : List (List UInt8) → List RtpPacket
  | [] => []
  | [payload] =>
      [{ ssrc := key.1, seq, timestamp := key.2, marker := true, pt, payload }]
  | payload :: next :: rest =>
      { ssrc := key.1, seq, timestamp := key.2, marker := false, pt, payload } ::
        number key pt (seq + 1) (next :: rest)

def packetize (key : Key) (pt : UInt8) (start : UInt16) (pieces : List Piece) : List RtpPacket :=
  number key pt start (pieces.flatMap Piece.payloads)

structure ValidPicture (pieces : List Piece) : Prop where
  valid : ∀ piece ∈ pieces, piece.Valid
  key : ∃ nal ∈ pieces.flatMap Piece.nals, isIrap nal = true
  first : ∃ nal ∈ pieces.flatMap Piece.nals, isSlice nal = true ∧ startsPicture nal = true
  packets : (pieces.flatMap Piece.payloads).length ≤ 8192
  bytes : ((pieces.flatMap Piece.payloads).map List.length).sum ≤ maxGroupBytes

theorem map_payload_number (key : Key) (pt : UInt8) (seq : UInt16)
    (payloads : List (List UInt8)) :
    (number key pt seq payloads).map RtpPacket.payload = payloads := by
  fun_induction number key pt seq payloads with
  | case1 => rfl
  | case2 => rfl
  | case3 seq payload next rest ih =>
      rw [List.map_cons, ih]

theorem length_number (key : Key) (pt : UInt8) (seq : UInt16) (payloads : List (List UInt8)) :
    (number key pt seq payloads).length = payloads.length := by
  have := congrArg List.length (map_payload_number key pt seq payloads)
  rwa [List.length_map] at this

variable {key : Key} {pt : UInt8} {seq : UInt16}

theorem key_of_mem_number {payloads : List (List UInt8)} {p : RtpPacket}
    (h : p ∈ number key pt seq payloads) : (p.ssrc, p.timestamp) = key := by
  fun_induction number key pt seq payloads with
  | case1 => cases h
  | case2 =>
      rw [List.mem_singleton.1 h]
  | case3 seq payload next rest ih =>
      rcases List.mem_cons.1 h with rfl | hrest
      · rfl
      · exact ih hrest

theorem consecutive_number (payloads : List (List UInt8)) :
    consecutive (number key pt seq payloads) = true := by
  fun_induction number key pt seq payloads with
  | case1 => rfl
  | case2 => rfl
  | case3 seq payload next rest ih =>
      cases rest with
      | nil =>
          rw [number, consecutive]
          simp [consecutive]
      | cons later rest =>
          rw [number] at ih ⊢
          rw [consecutive, ih]
          simp

theorem getElem_number {payloads : List (List UInt8)} {i : Nat}
    (h : i < (number key pt seq payloads).length) :
    (number key pt seq payloads)[i].seq = seq + UInt16.ofNat i ∧
      (number key pt seq payloads)[i].marker = decide (i + 1 = payloads.length) := by
  induction payloads generalizing seq i with
  | nil => exact absurd h (Nat.not_lt_zero i)
  | cons payload rest ih =>
      cases rest with
      | nil =>
          have hzero : i = 0 := by
            rw [length_number] at h
            simpa using h
          subst hzero
          simp [number]
      | cons next rest =>
          cases i with
          | zero => simp [number]
          | succ i =>
              have hi : i < (number key pt (seq + 1) (next :: rest)).length := by
                rw [length_number] at h ⊢
                simpa using h
              obtain ⟨hseq, hmarker⟩ := ih hi
              simp only [number, List.getElem_cons_succ, hseq, hmarker]
              constructor
              · rw [UInt16.ofNat_add, UInt16.add_assoc, UInt16.add_comm (UInt16.ofNat i)]
                rfl
              · simp

end MacVnc.Media.Packetize

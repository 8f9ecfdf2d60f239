import MacVnc.Media.DepacketizeFrame
import MacVnc.Media.Packetize
/-!
# Inferred framing

An aggregation packet is read twice, with a decoding order number behind its
header and without one, and the framing of its source is inferred when one
reading finds parameter sets and the other fails.  The inference is right for an
aggregate that has parameter sets of its own.  One that has none, or too many,
is taken for the other framing when its bytes happen to read that way.
-/

namespace MacVnc.Media.DepacketizeFraming

open MacVnc.Lib.Bytes
open MacVnc.Media.Srtp (RtpPacket)
open MacVnc.Media.Depacketize
open MacVnc.Media.DepacketizeGroup
open MacVnc.Media.DepacketizeTrace
open MacVnc.Media.DepacketizeFrame
open MacVnc.Media.Packetize
open MacVnc.Media.Packetize.Piece (sized donlBytes)

/-- The payload that aggregates NAL units, with Apple's decoding order number or in the
standard framing. -/
def aggregate (apple : Bool) (h0 h1 : UInt8) (donl : UInt16) (nals : List Nal) : List UInt8 :=
  h0 :: h1 :: ((if apple then donlBytes donl else []) ++ nals.flatMap sized)

def bodyStart (apple : Bool) : Nat := if apple then 4 else 2

@[simp] theorem bodyStart_true : bodyStart true = 4 := rfl

@[simp] theorem bodyStart_false : bodyStart false = 2 := rfl

/-- The number of parameter sets from which a framing is inferred. -/
def Telling (nals : List Nal) : Prop :=
  1 ≤ (nals.filter isParam).length ∧ (nals.filter isParam).length ≤ 64

/-- The payload reads as valid units with parameter sets in this framing. -/
def ReadsAs (apple : Bool) (payload : List UInt8) : Prop :=
  ∃ nals : List Nal, (∀ nal ∈ nals, ValidUnit nal) ∧
    payload.drop (bodyStart apple) = nals.flatMap sized ∧
    Telling nals

def framing (d : Depacketizer) (ssrc : UInt32) : Option Bool :=
  (d.observed.lookup ssrc).bind SourceObservation.donl

/-! ## What the parser accepts -/

theorem validUnit_take {hi lo : UInt8} {tail : List UInt8}
    (hsize : ¬(ofBigEndian [hi, lo] < 2 ∨ tail.length < ofBigEndian [hi, lo]))
    (hheader : ¬((tail.take (ofBigEndian [hi, lo])).getD 0 0 &&& 128 ≠ 0 ∨
      (tail.take (ofBigEndian [hi, lo])).getD 1 0 &&& 7 = 0)) :
    ValidUnit (tail.take (ofBigEndian [hi, lo])) ∧
      hi :: lo :: tail =
        sized (tail.take (ofBigEndian [hi, lo])) ++ tail.drop (ofBigEndian [hi, lo]) := by
  rw [not_or] at hsize hheader
  have hlength : (tail.take (ofBigEndian [hi, lo])).length = ofBigEndian [hi, lo] := by
    rw [List.length_take]
    omega
  have hhigh : ofBigEndian [hi, lo] < 2 ^ 16 := lt_of_lt_of_eq (ofBigEndian_lt [hi, lo]) (by simp)
  refine ⟨⟨by omega, by omega, not_not.1 hheader.1, hheader.2⟩, ?_⟩
  have hword : toBigEndian 2 (ofBigEndian [hi, lo]) = [hi, lo] := toBigEndian_ofBigEndian [hi, lo]
  rw [sized, hlength, hword]
  simp

theorem units_of_parse {bytes : List UInt8} {params result : List Nal}
    (h : parseParameterAp bytes params = some result) :
    ∃ nals : List Nal, (∀ nal ∈ nals, ValidUnit nal) ∧ bytes = nals.flatMap sized ∧
      result = params ++ nals.filter isParam := by
  fun_induction parseParameterAp bytes params with
  | case1 => cases h
  | case2 params =>
      cases h
      exact ⟨[], by simp, by simp, by simp⟩
  | case3 => cases h
  | case4 => cases h
  | case5 => cases h
  | case6 => cases h
  | case7 hi lo tail params size hsize nal hheader kind hkind hroom ih =>
      obtain ⟨nals, hvalid, hbytes, hresult⟩ := ih h
      obtain ⟨hunit, hsplit⟩ := validUnit_take hsize hheader
      refine ⟨nal :: nals, List.forall_mem_cons.2 ⟨hunit, hvalid⟩, ?_, ?_⟩
      · rw [hsplit, hbytes, List.flatMap_cons]
      · rw [List.filter_cons_of_pos ((isParam_iff_kind hunit.low rfl).2 hkind), hresult,
          List.append_assoc]
        rfl
  | case8 hi lo tail params size hsize nal hheader kind hkind ih =>
      obtain ⟨nals, hvalid, hbytes, hresult⟩ := ih h
      obtain ⟨hunit, hsplit⟩ := validUnit_take hsize hheader
      refine ⟨nal :: nals, List.forall_mem_cons.2 ⟨hunit, hvalid⟩, ?_, ?_⟩
      · rw [hsplit, hbytes, List.flatMap_cons]
      · rw [List.filter_cons_of_neg fun hset => hkind ((isParam_iff_kind hunit.low rfl).1 hset),
          hresult]

theorem isSome_parse_units {nals : List Nal} (h : ∀ nal ∈ nals, ValidUnit nal) :
    (parseParameterAp (nals.flatMap sized) []).isSome = true ↔ Telling nals := by
  rw [parseParameterAp_units h (Nat.zero_le _), List.nil_append, Telling]
  have hnone := List.length_eq_zero_iff (l := nals.filter isParam)
  split
  · rename_i hrefused
    simp only [Option.isSome_none, Bool.false_eq_true, false_iff]
    rw [← hnone, List.length_nil] at hrefused
    omega
  · rename_i hread
    simp only [Option.isSome_some, true_iff]
    rw [← hnone, List.length_nil] at hread
    omega

/-- Parameter sets are found exactly in what reads as valid units with some. -/
theorem isSome_parse_iff (apple : Bool) (payload : List UInt8) :
    (parseParameterAp (payload.drop (bodyStart apple)) []).isSome = true ↔
      ReadsAs apple payload := by
  constructor
  · intro hsome
    obtain ⟨result, hparse⟩ := Option.isSome_iff_exists.1 hsome
    obtain ⟨nals, hvalid, hbytes, _⟩ := units_of_parse hparse
    refine ⟨nals, hvalid, hbytes, ?_⟩
    rwa [hbytes, isSome_parse_units hvalid] at hsome
  · rintro ⟨nals, hvalid, hbytes, htelling⟩
    rw [hbytes]
    exact (isSome_parse_units hvalid).2 htelling

/-- In its own framing an aggregate reads as its units. -/
theorem readsAs_aggregate {apple : Bool} {h0 h1 : UInt8} {donl : UInt16} {nals : List Nal}
    (h : ∀ nal ∈ nals, ValidUnit nal) :
    ReadsAs apple (aggregate apple h0 h1 donl nals) ↔ Telling nals := by
  have hbody : (aggregate apple h0 h1 donl nals).drop (bodyStart apple) = nals.flatMap sized := by
    cases apple with
    | true => simp [aggregate]
    | false => simp [aggregate]
  rw [← isSome_parse_iff, hbody]
  exact isSome_parse_units h

/-! ## What is inferred -/

theorem inferFraming_donl (s : SourceObservation) (payload : List UInt8) (apple : Bool) :
    (Depacketizer.inferFraming s payload).donl =
      if (parseParameterAp (payload.drop (bodyStart apple)) []).isSome =
          (parseParameterAp (payload.drop (bodyStart !apple)) []).isSome then s.donl
      else if (parseParameterAp (payload.drop (bodyStart apple)) []).isSome = true then some apple
      else some !apple := by
  unfold Depacketizer.inferFraming
  cases apple with
  | true =>
      simp only [Bool.not_true, bodyStart_true, bodyStart_false]
      cases parseParameterAp (payload.drop 4) [] <;>
        cases parseParameterAp (payload.drop 2) [] <;> simp
  | false =>
      simp only [Bool.not_false, bodyStart_true, bodyStart_false]
      cases parseParameterAp (payload.drop 4) [] <;>
        cases parseParameterAp (payload.drop 2) [] <;> simp

theorem framing_of_notes {d d' : Depacketizer} (h : SameNotes d d') (ssrc : UInt32) :
    framing d' ssrc = framing d ssrc := by
  have hnoted := congrFun h.noted ssrc
  unfold noted at hnoted
  unfold framing
  cases hs : d.observed.lookup ssrc <;> cases hs' : d'.observed.lookup ssrc <;> simp_all

/-- The framing of a source changes only by what its aggregate reads as. -/
theorem framing_push {tieBreak : Nat → Key} {d d' : Depacketizer} {p : RtpPacket} {now : Nat}
    {events : List Event} (hsafe : Safe d) (hlong : 2 ≤ p.payload.length)
    (hkind : nalKind p.payload = some 48)
    (hpush : d.push tieBreak p now = some (events, d')) (apple : Bool) :
    framing d' p.ssrc =
      if ¬Observable d p.ssrc ∨
          (parseParameterAp (p.payload.drop (bodyStart apple)) []).isSome =
            (parseParameterAp (p.payload.drop (bodyStart !apple)) []).isSome then
        framing d p.ssrc
      else if (parseParameterAp (p.payload.drop (bodyStart apple)) []).isSome = true then some apple
      else some !apple := by
  rcases (push_inversion hsafe hpush).notes with ⟨hshort, _⟩ | ⟨_, d₁, hobserve, hnotes⟩
  · omega
  obtain ⟨counters, hheader⟩ := countHeader_same d p
  rw [hheader] at hobserve
  rw [framing_of_notes hnotes]
  rcases observe_inversion hobserve with ⟨hfull, rfl⟩ | ⟨hroom, kind, hkind', rfl⟩
  · change ¬Observable d p.ssrc at hfull
    rw [if_pos (Or.inl hfull)]
    rfl
  · change Observable d p.ssrc at hroom
    rw [hkind] at hkind'
    cases hkind'
    have hold : ((d.observed.lookup p.ssrc).getD Depacketizer.unobserved).donl =
        framing d p.ssrc := by
      unfold framing
      cases d.observed.lookup p.ssrc <;> rfl
    have hinserted : framing { d with
        counters
        observed := d.observed.insert p.ssrc (observation { d with counters } p now 48) } p.ssrc =
        (observation { d with counters } p now 48).donl := by
      unfold framing
      rw [AList.lookup_insert]
      rfl
    rw [hinserted]
    show (Depacketizer.inferFraming _ p.payload).donl = _
    rw [inferFraming_donl _ _ apple]
    dsimp only
    rw [hold]
    by_cases hsame : (parseParameterAp (p.payload.drop (bodyStart apple)) []).isSome =
        (parseParameterAp (p.payload.drop (bodyStart !apple)) []).isSome
    · rw [if_pos hsame, if_pos (Or.inr hsame)]
    · rw [if_neg hsame, if_neg (not_or.2 ⟨not_not.2 hroom, hsame⟩)]

/-! ## The inference on an aggregate -/

/-- The framing of the source is not set to the other one. -/
def NotMisled (apple : Bool) (before after : Option Bool) : Prop :=
  after = some (!apple) → before = some (!apple)

/-- In every reachable state, pushing an aggregate never sets the framing of its source
to the other one exactly when it has parameter sets of its own, at most 64 of them, or its
bytes do not read as units with parameter sets in the other framing, or the other
framing was inferred before, or the source is beyond the 32 that are observed.
Without parameter sets the same decides whether it changes the framing at all. -/
theorem framing_inferred_iff (tieBreak : Nat → Key) {tileCount : Nat} {ops : List Op}
    {events : List Event} {d : Depacketizer}
    (hrun : (Depacketizer.new tileCount).run tieBreak ops = some (events, d)) (apple : Bool)
    {h0 : UInt8} (h1 : UInt8) (donl : UInt16) {nals : List Nal} (hheader : h0 >>> 1 &&& 63 = 48)
    (hvalid : ∀ nal ∈ nals, ValidUnit nal) {p : RtpPacket}
    (hpayload : p.payload = aggregate apple h0 h1 donl nals) (now : Nat) :
    ∃ events' d', d.push tieBreak p now = some (events', d') ∧
      (NotMisled apple (framing d p.ssrc) (framing d' p.ssrc) ↔
        Telling nals ∨ ¬ReadsAs (!apple) p.payload ∨ framing d p.ssrc = some (!apple) ∨
          ¬Observable d p.ssrc) ∧
      (nals.filter isParam = [] → (framing d' p.ssrc = framing d p.ssrc ↔
        ¬ReadsAs (!apple) p.payload ∨ framing d p.ssrc = some (!apple) ∨
          ¬Observable d p.ssrc)) := by
  have hsafe : Safe d := by
    obtain ⟨events', d₁, hrun', _, hsafe⟩ := run_trace tieBreak (safe_new tileCount) ops
    rw [hrun] at hrun'
    cases hrun'
    exact hsafe
  obtain ⟨events', d', hpush, _, _, _⟩ := push_run tieBreak hsafe p now
  refine ⟨events', d', hpush, ?_⟩
  have hlong : 2 ≤ p.payload.length := by
    rw [hpayload]
    simp [aggregate]
  have hkind : nalKind p.payload = some 48 := by
    rw [hpayload, ← hheader]
    rfl
  have hafter := framing_push hsafe hlong hkind hpush apple
  have hown : (parseParameterAp (p.payload.drop (bodyStart apple)) []).isSome = true ↔
      Telling nals := by
    rw [isSome_parse_iff, hpayload]
    exact readsAs_aggregate hvalid
  have hother := isSome_parse_iff (!apple) p.payload
  have hnone : nals.filter isParam = [] → ¬Telling nals := by
    intro hempty htelling
    rw [Telling, hempty] at htelling
    exact absurd htelling.1 (by simp)
  generalize (parseParameterAp (p.payload.drop (bodyStart apple)) []).isSome = own at hafter hown
  generalize (parseParameterAp (p.payload.drop (bodyStart !apple)) []).isSome = other
    at hafter hother
  rw [hafter, ← hother, ← hown]
  rw [← hown] at hnone
  clear hafter hown hother
  unfold NotMisled
  by_cases hroom : Observable d p.ssrc
  · cases own with
    | true =>
        -- The aggregate's own reading stands, or nothing is inferred.
        refine ⟨by cases other <;> simp [hroom], fun hempty => absurd rfl (hnone hempty)⟩
    | false =>
        cases other with
        | true =>
            simp only [hroom, not_true, Bool.false_eq_true, or_false, false_or, if_false,
              true_implies]
            exact ⟨trivial, fun _ => eq_comm⟩
        | false => simp [hroom]
  · simp [hroom]

/-! ## Example -/

/-- A slice without a parameter set, whose first two bytes are the size of the rest of it
and whose third is the header byte of a VPS. -/
def likeParameters : Nal := [0, 3, 64, 1, 128]

def aggregatePacket (apple : Bool) (nals : List Nal) : RtpPacket :=
  { ssrc := 1
    seq := 1
    timestamp := 2
    marker := true
    pt := 96
    payload := aggregate apple 96 1 0 nals }

theorem validUnit_likeParameters : ∀ nal ∈ [likeParameters], ValidUnit nal := by
  intro nal hnal
  rw [List.mem_singleton.1 hnal]
  exact ⟨by decide, by decide, by decide, by decide⟩

/-- A standard aggregate of one slice sets the framing of its source to Apple's. -/
theorem slice_read_as_apple :
    (∀ nal ∈ [likeParameters], ValidUnit nal) ∧ [likeParameters].filter isParam = [] ∧
      ((Depacketizer.new 1).push (fun _ => (0, 0)) (aggregatePacket false [likeParameters]) 0).map
        (fun result => framing result.2 1) = some (some true) :=
  ⟨validUnit_likeParameters, by decide, by decide +kernel⟩

/-- The equivalence at that aggregate in the Apple framing. -/
theorem framing_inferred_iff_slice :
    ∃ events' d', (Depacketizer.new 1).push (fun _ => (0, 0))
        (aggregatePacket true [likeParameters]) 0 = some (events', d') ∧
      (NotMisled true (framing (Depacketizer.new 1) 1) (framing d' 1) ↔
        Telling [likeParameters] ∨
          ¬ReadsAs (!true) (aggregatePacket true [likeParameters]).payload ∨
          framing (Depacketizer.new 1) 1 = some (!true) ∨ ¬Observable (Depacketizer.new 1) 1) ∧
      ([likeParameters].filter isParam = [] →
        (framing d' 1 = framing (Depacketizer.new 1) 1 ↔
          ¬ReadsAs (!true) (aggregatePacket true [likeParameters]).payload ∨
            framing (Depacketizer.new 1) 1 = some (!true) ∨
            ¬Observable (Depacketizer.new 1) 1)) :=
  framing_inferred_iff (fun _ => (0, 0))
    (show (Depacketizer.new 1).run (fun _ => (0, 0)) [] = some ([], Depacketizer.new 1) from rfl)
    true 1 0 (show (96 : UInt8) >>> 1 &&& 63 = 48 by decide) validUnit_likeParameters
    (p := aggregatePacket true [likeParameters]) rfl 0

end MacVnc.Media.DepacketizeFraming

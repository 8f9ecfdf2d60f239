import Mathlib.Data.List.TakeWhile
import MacVnc.Media.DepacketizeBounds
/-!
# Source handoffs

With one tile the stream has one source, and it is handed to another when the
source has been quiet and the other has shown eight packets.  The packets are
counted over the whole life of a source: one that was the source of the stream
before has its eight packets already, so the evidence for it is not fresh.
-/

namespace MacVnc.Media.DepacketizeHandoff

open MacVnc.Media.Srtp (RtpPacket)
open MacVnc.Media.Depacketize
open MacVnc.Media.DepacketizeTrace
open MacVnc.Media.DepacketizeFrame
open MacVnc.Media.DepacketizeBounds

def isFrom (ssrc : UInt32) : Op → Bool
  | .push p _ => p.ssrc = ssrc && 2 ≤ p.payload.length
  | .poll _ => false

def time : Op → Nat
  | .push _ now => now
  | .poll now => now

def arrivals (ssrc : UInt32) (ops : List Op) : List Nat := (ops.filter (isFrom ssrc)).map time

/-- One call of a run: the calls before it, each with the sources selected after it, and
the states around it. -/
structure Moment where
  past : List (Op × List UInt32)
  before : Depacketizer
  op : Op
  after : Depacketizer

def moments (tieBreak : Nat → Key) (past : List (Op × List UInt32)) (d : Depacketizer) :
    List Op → List Moment
  | [] => []
  | op :: ops =>
      match d.step tieBreak op with
      | none => []
      | some (_, d') =>
          { past, before := d, op, after := d' } ::
            moments tieBreak (past ++ [(op, d'.sources)]) d' ops

namespace Moment

def calls (m : Moment) : List Op := m.past.map Prod.fst

/-- The calls since a source was last selected, or since the start. -/
def since (m : Moment) (ssrc : UInt32) : List Op :=
  (m.past.reverse.takeWhile fun e => ssrc ∉ e.2).map Prod.fst

def Retired (m : Moment) (ssrc : UInt32) : Prop := ∃ e ∈ m.past, ssrc ∈ e.2

instance (m : Moment) (ssrc : UInt32) : Decidable (m.Retired ssrc) :=
  inferInstanceAs (Decidable (∃ e ∈ m.past, _))

/-- A source has sent no packet with a header for 100 ms. -/
def Quiet (m : Moment) (ssrc : UInt32) : Prop :=
  ∀ arrived ∈ arrivals ssrc m.calls, arrived + 100 ≤ time m.op

instance (m : Moment) (ssrc : UInt32) : Decidable (m.Quiet ssrc) :=
  inferInstanceAs (Decidable (∀ arrived ∈ arrivals ssrc m.calls, _))

/-- The call hands the stream from one source to another. -/
structure HandsOver (m : Moment) (old new : UInt32) : Prop where
  before : m.before.sources = [old]
  after : m.after.sources = [new]
  changed : old ≠ new

instance (m : Moment) (old new : UInt32) : Decidable (m.HandsOver old new) :=
  decidable_of_iff (m.before.sources = [old] ∧ m.after.sources = [new] ∧ old ≠ new)
    ⟨fun ⟨before, after, changed⟩ => ⟨before, after, changed⟩,
      fun ⟨before, after, changed⟩ => ⟨before, after, changed⟩⟩

/-- What a handoff should rest on: the old source is quiet, eight packets of the new one
have come since it was last selected, the pushed one among them, and a generation of
its own begins. -/
structure Evidenced (m : Moment) (old new : UInt32) : Prop where
  pushed : isFrom new m.op = true
  quiet : m.Quiet old
  fresh : 8 ≤ (arrivals new (m.since new)).length + 1
  generation : m.after.generation = m.before.generation + 1

/-- The circumstances in which the code hands the stream over. -/
structure Due (m : Moment) (old new : UInt32) : Prop where
  pushed : isFrom new m.op = true
  active : m.before.sources = [old]
  changed : old ≠ new
  quiet : m.Quiet old
  packets : 8 ≤ (arrivals new m.calls).length + 1
  observable : Observable m.before new

/-- A source that was selected before, and has sent eight packets in all, sends one of the
first seven since. -/
structure Stray (m : Moment) (old new : UInt32) : Prop where
  pushed : isFrom new m.op = true
  active : m.before.sources = [old]
  changed : old ≠ new
  retired : m.Retired new
  many : 8 ≤ (arrivals new m.calls).length + 1
  few : (arrivals new (m.since new)).length < 7

/-- Such a packet comes less than 100 ms after one of the source that is selected now. -/
def Covered (m : Moment) : Prop :=
  ∀ old new, m.Stray old new → ∃ arrived ∈ arrivals old m.calls, time m.op < arrived + 100

/-- The generations are not used up when the stream is handed over. -/
def HasGenerations (m : Moment) : Prop :=
  ∀ old new, m.Due old new → m.before.generation < 2 ^ 64 - 1

end Moment

/-! ## The observations of a run -/

theorem arrivals_append (ssrc : UInt32) (ops : List Op) (op : Op) :
    arrivals ssrc (ops ++ [op]) =
      arrivals ssrc ops ++ if isFrom ssrc op = true then [time op] else [] := by
  unfold arrivals
  by_cases hfrom : isFrom ssrc op = true
  · simp [List.filter_append, hfrom]
  · simp [List.filter_append, hfrom]

/-- What is noted of the sources counts the calls so far. -/
structure Counted (ops : List Op) (d : Depacketizer) : Prop where
  packets : ∀ ssrc n last donl, noted d ssrc = some (n, last, donl) →
    n = (arrivals ssrc ops).length
  last : ∀ ssrc n last donl, noted d ssrc = some (n, last, donl) →
    (arrivals ssrc ops).getLast? = some last
  unnoted : ∀ ssrc, noted d ssrc = none → d.observed.keys.length < 32 → arrivals ssrc ops = []

theorem Counted.same {ops ops' : List Op} {d d' : Depacketizer} (h : Counted ops d)
    (hnotes : SameNotes d d') (harrivals : ∀ ssrc, arrivals ssrc ops' = arrivals ssrc ops) :
    Counted ops' d' := by
  constructor
  · rw [hnotes.noted]
    simpa only [harrivals] using h.packets
  · rw [hnotes.noted]
    simpa only [harrivals] using h.last
  · rw [hnotes.noted, hnotes.keys]
    simpa only [harrivals] using h.unnoted

theorem observe_noted {d d₁ : Depacketizer} {p : RtpPacket} {now : Nat}
    (h : d.observe p now = some d₁) (ssrc : UInt32) :
    if ssrc = p.ssrc ∧ Observable d p.ssrc then
      ∃ donl, noted d₁ ssrc = some (((noted d ssrc).map Prod.fst).getD 0 + 1, now, donl)
    else noted d₁ ssrc = noted d ssrc := by
  rcases observe_inversion h with ⟨hfull, rfl⟩ | ⟨hroom, kind, _, rfl⟩
  · rw [if_neg fun hboth => hfull hboth.2]
  · rw [noted_insert]
    by_cases hsame : ssrc = p.ssrc
    · rw [if_pos ⟨hsame, hroom⟩, if_pos hsame, hsame]
      have hobserved : (observation d p now kind).packets =
            ((d.observed.lookup p.ssrc).getD Depacketizer.unobserved).packets + 1 ∧
          (observation d p now kind).last = now := by
        unfold observation Depacketizer.inferFraming
        dsimp only
        split
        · split <;> simp
        · simp
      refine ⟨(observation d p now kind).donl, ?_⟩
      rw [hobserved.1, hobserved.2, noted]
      cases d.observed.lookup p.ssrc <;> rfl
    · rw [if_neg fun hboth => hsame hboth.1, if_neg hsame]

theorem observe_keys {d d₁ : Depacketizer} {p : RtpPacket} {now : Nat}
    (h : d.observe p now = some d₁) : d.observed.keys.length ≤ d₁.observed.keys.length := by
  rcases observe_inversion h with ⟨_, rfl⟩ | ⟨_, kind, _, rfl⟩
  · exact Nat.le_refl _
  · rw [length_keys_insert]
    split <;> omega

theorem isFrom_push {p : RtpPacket} (hlong : 2 ≤ p.payload.length) (now : Nat) (ssrc : UInt32) :
    isFrom ssrc (.push p now) = true ↔ ssrc = p.ssrc := by
  simp [isFrom, hlong, eq_comm]

theorem Counted.count {ops : List Op} {d : Depacketizer} (h : Counted ops d) {ssrc : UInt32}
    (hroom : Observable d ssrc) :
    ((noted d ssrc).map Prod.fst).getD 0 = (arrivals ssrc ops).length := by
  cases hbefore : noted d ssrc with
  | some entry => exact h.packets ssrc entry.1 entry.2.1 entry.2.2 hbefore
  | none =>
      rcases hroom with hknown | hroom
      · unfold noted at hbefore
        rw [Option.map_eq_none_iff] at hbefore
        rw [hbefore] at hknown
        cases hknown
      · rw [h.unnoted ssrc hbefore hroom]
        rfl

/-- What is noted behind an observed packet. -/
theorem Counted.noted_observe {ops : List Op} {d d₁ : Depacketizer} {p : RtpPacket} {now : Nat}
    (h : Counted ops d) (hlong : 2 ≤ p.payload.length) (hobserve : d.observe p now = some d₁)
    {ssrc : UInt32} {n last : Nat} {donl : Option Bool}
    (hn : noted d₁ ssrc = some (n, last, donl)) :
    n = (arrivals ssrc (ops ++ [.push p now])).length ∧
      (arrivals ssrc (ops ++ [.push p now])).getLast? = some last := by
  have hnoted := observe_noted hobserve ssrc
  rw [arrivals_append]
  by_cases hthis : ssrc = p.ssrc ∧ Observable d p.ssrc
  · rw [if_pos hthis] at hnoted
    obtain ⟨donl', hnoted⟩ := hnoted
    rw [hn] at hnoted
    rw [if_pos ((isFrom_push hlong now ssrc).2 hthis.1)]
    simp only [Option.some.injEq, Prod.mk.injEq] at hnoted
    obtain ⟨hcount, hlast, _⟩ := hnoted
    refine ⟨?_, by simp [time, hlast]⟩
    rw [hcount, List.length_append, List.length_singleton]
    exact congrArg (· + 1) (h.count (hthis.1 ▸ hthis.2))
  · rw [if_neg hthis, hn] at hnoted
    have hother : ¬isFrom ssrc (.push p now) = true := by
      intro hfrom
      have hsame := (isFrom_push hlong now ssrc).1 hfrom
      apply hthis
      refine ⟨hsame, Or.inl ?_⟩
      rw [← hsame]
      unfold noted at hnoted
      rw [eq_comm, Option.map_eq_some_iff] at hnoted
      obtain ⟨s, hs, _⟩ := hnoted
      rw [hs]
      rfl
    rw [if_neg hother, List.append_nil]
    exact ⟨h.packets ssrc n last donl hnoted.symm, h.last ssrc n last donl hnoted.symm⟩

theorem Counted.observe {ops : List Op} {d d₁ : Depacketizer} {p : RtpPacket} {now : Nat}
    (h : Counted ops d) (hlong : 2 ≤ p.payload.length) (hobserve : d.observe p now = some d₁) :
    Counted (ops ++ [.push p now]) d₁ := by
  refine ⟨fun ssrc n last donl hn => (h.noted_observe hlong hobserve hn).1,
    fun ssrc n last donl hn => (h.noted_observe hlong hobserve hn).2, ?_⟩
  intro ssrc hnone hroom
  have hnoted := observe_noted hobserve ssrc
  have hkeys := observe_keys hobserve
  by_cases hthis : ssrc = p.ssrc ∧ Observable d p.ssrc
  · rw [if_pos hthis, hnone] at hnoted
    obtain ⟨_, hnoted⟩ := hnoted
    cases hnoted
  · rw [if_neg hthis, hnone] at hnoted
    have hother : ¬isFrom ssrc (.push p now) = true := fun hfrom =>
      hthis ⟨(isFrom_push hlong now ssrc).1 hfrom, Or.inr (by omega)⟩
    rw [arrivals_append, if_neg hother, List.append_nil]
    exact h.unnoted ssrc hnoted.symm (by omega)

/-! ## One call -/

/-- What a state of a run for one tile knows about the calls so far. -/
structure Follows (ops : List Op) (d : Depacketizer) : Prop where
  safe : Safe d
  bounded : Bounded 1 d
  active : ∀ ssrc ∈ d.sources, (noted d ssrc).isSome = true
  idle : d.sources = [] → d.observed = ∅
  counted : Counted ops d

theorem follows_new : Follows [] (Depacketizer.new 1) where
  safe := safe_new 1
  bounded := bounded_new 1
  active := by simp [Depacketizer.new]
  idle := fun _ => rfl
  counted :=
    ⟨by simp [noted, Depacketizer.new], by simp [noted, Depacketizer.new], by simp [arrivals]⟩

/-- The handoff test of the code, in terms of the calls so far. -/
theorem handoffDue_iff {ops : List Op} {d d₁ : Depacketizer} {p : RtpPacket} {now : Nat}
    {old : UInt32} (h : Follows ops d) (hsorted : (arrivals old ops).Pairwise (· ≤ ·))
    (hobserve : d.observe p now = some d₁) (hold : d.sources = [old]) (hnew : old ≠ p.ssrc) :
    d₁.handoffDue p now = some true ↔
      (∀ arrived ∈ arrivals old ops, arrived + 100 ≤ now) ∧
        8 ≤ (arrivals p.ssrc ops).length + 1 ∧ Observable d p.ssrc := by
  obtain ⟨observed, hframe⟩ := observe_frame hobserve
  have htiles : d₁.tiles = 1 := by rw [hframe, ← h.bounded.tileCount]
  have hsources : d₁.sources = [old] := by rw [hframe, ← hold]
  -- The old source has been observed, and its last packet is the latest of its packets.
  obtain ⟨⟨n, last, donl⟩, hnoted⟩ :=
    Option.isSome_iff_exists.1 (h.active old (by rw [hold]; exact List.mem_singleton_self old))
  have hlast := h.counted.last old n last donl hnoted
  have hquiet : (d₁.observed.lookup old).any (fun s => 100 ≤ now - s.last) = true ↔
      ∀ arrived ∈ arrivals old ops, arrived + 100 ≤ now := by
    have hsame := observe_noted hobserve old
    rw [if_neg fun hboth => hnew hboth.1, hnoted] at hsame
    obtain ⟨s, hs, hentry⟩ := Option.map_eq_some_iff.1 hsame
    simp only [Prod.mk.injEq] at hentry
    rw [hs, Option.any_some, decide_eq_true_eq, hentry.2.1]
    have hmem := List.mem_of_getLast? hlast
    have hmax : ∀ arrived ∈ arrivals old ops, arrived ≤ last := by
      intro arrived harrived
      have hle := hsorted.rel_getLast harrived
      rwa [(List.getLast_eq_iff_getLast?_eq_some _).2 hlast] at hle
    constructor
    · intro hgap arrived harrived
      have := hmax arrived harrived
      omega
    · intro hall
      have := hall last hmem
      omega
  have hevidence : (d₁.observed.lookup p.ssrc).any (fun s => 8 ≤ s.packets) = true ↔
      8 ≤ (arrivals p.ssrc ops).length + 1 ∧ Observable d p.ssrc := by
    have hnext := observe_noted hobserve p.ssrc
    by_cases hroom : Observable d p.ssrc
    · rw [if_pos ⟨rfl, hroom⟩] at hnext
      obtain ⟨donl', hnext⟩ := hnext
      obtain ⟨s, hs, hentry⟩ := Option.map_eq_some_iff.1 hnext
      simp only [Prod.mk.injEq] at hentry
      rw [hs, Option.any_some, decide_eq_true_eq, hentry.1, h.counted.count hroom]
      exact ⟨fun hpackets => ⟨hpackets, hroom⟩, fun hboth => hboth.1⟩
    · rw [if_neg fun hboth => hroom hboth.2] at hnext
      have hunknown : d.observed.lookup p.ssrc = none := by
        rw [← Option.not_isSome_iff_eq_none]
        exact fun hknown => hroom (Or.inl hknown)
      rw [noted, noted, hunknown, Option.map_none, Option.map_eq_none_iff] at hnext
      simp [hnext, hroom]
  unfold Depacketizer.handoffDue
  rw [if_pos htiles, hsources]
  simp only [List.getElem?_cons_zero, Option.map_some, Option.some.injEq, Bool.and_eq_true]
  rw [hquiet, hevidence]

theorem Follows.countHeader {ops : List Op} {d : Depacketizer} (h : Follows ops d)
    (p : RtpPacket) : Follows ops (d.countHeader p) := by
  have hsame := countHeader_same d p
  have hsafe := hsame.safe h.safe
  obtain ⟨counters, hheader⟩ := hsame
  rw [hheader] at hsafe ⊢
  have hnotes : SameNotes d { d with counters } := .of_observed rfl
  refine ⟨hsafe, h.bounded.same rfl rfl rfl rfl rfl, ?_, h.idle,
    h.counted.same hnotes fun _ => rfl⟩
  rw [hnotes.noted]
  exact h.active

theorem Follows.handoffDue {ops : List Op} {d d₁ : Depacketizer} {p : RtpPacket} {now : Nat}
    {old : UInt32} (h : Follows ops d) (hsorted : (arrivals old ops).Pairwise (· ≤ ·))
    (hobserve : (d.countHeader p).observe p now = some d₁) (hold : d.sources = [old])
    (hnew : old ≠ p.ssrc) :
    d₁.handoffDue p now = some true ↔
      (∀ arrived ∈ arrivals old ops, arrived + 100 ≤ now) ∧
        8 ≤ (arrivals p.ssrc ops).length + 1 ∧ Observable d p.ssrc := by
  have hcounted := h.countHeader p
  obtain ⟨counters, hheader⟩ := countHeader_same d p
  rw [hheader] at hcounted hobserve
  have htest := handoffDue_iff hcounted hsorted hobserve hold hnew
  exact htest

/-- How a push of a packet with a header leaves the sources. -/
inductive Selects (d : Depacketizer) (p : RtpPacket) (now : Nat) (d' : Depacketizer) : Prop
  | kept : d'.sources = d.sources → p.ssrc ∈ d.sources → Selects d p now d'
  | added : d.sources = [] → d'.sources = [p.ssrc] → Selects d p now d'
  | held {d₁} : d'.sources = d.sources → d.sources ≠ [] → p.ssrc ∉ d.sources →
      (d.countHeader p).observe p now = some d₁ →
      d₁.handoffDue p now = some false → Selects d p now d'
  | handoff {d₁ old} : d.sources = [old] → old ≠ p.ssrc → d'.sources = [p.ssrc] →
      (d.countHeader p).observe p now = some d₁ → d₁.handoffDue p now = some true →
      d'.generation = saturatingSucc d.generation → Selects d p now d'

/-- Observing changes neither the sources nor the generation. -/
theorem observe_kept {d d₁ : Depacketizer} {p : RtpPacket} {now : Nat}
    (h : (d.countHeader p).observe p now = some d₁) :
    d₁.tiles = d.tiles ∧ d₁.sources = d.sources ∧ d₁.generation = d.generation := by
  obtain ⟨counters, hheader⟩ := countHeader_same d p
  obtain ⟨observed, hframe⟩ := observe_frame h
  rw [hframe, hheader]
  exact ⟨rfl, rfl, rfl⟩

theorem Follows.selects {tieBreak : Nat → Key} {ops : List Op} {d d' : Depacketizer}
    {p : RtpPacket} {now : Nat} {events : List Event} (h : Follows ops d)
    (hlong : 2 ≤ p.payload.length) (hpush : d.push tieBreak p now = some (events, d')) :
    Selects d p now d' := by
  have htiles := h.bounded.tileCount
  have hfew := h.bounded.sources
  cases push_inversion h.safe hpush with
  | short hshort => omega
  | held _ hobserve hnew hfull hdue hhold hsafe hpoll =>
      obtain ⟨hkept₁, hkept₂, _⟩ := observe_kept hobserve
      obtain ⟨observed, counters, hframe⟩ := hold_frame hhold
      have hsources := (poll_steady hsafe hpoll).sources
      rw [hframe] at hsources
      dsimp only at hsources
      rw [hkept₂] at hsources hnew hfull
      refine .held hsources ?_ hnew hobserve hdue
      intro hnone
      rw [hnone, List.length_nil] at hfull
      omega
  | @selected d₁ prior d₂ later _ _ hobserve hchosen hsafe hmember hqueue hall =>
      obtain ⟨hkept₁, hkept₂, hkept₃⟩ := observe_kept hobserve
      have hsteady := pushAll_steady tieBreak hsafe (by
        intro q hq
        rw [hqueue q hq]
        exact hmember) hall
      obtain ⟨observed, htaken⟩ := takePrefix_frame d₂ p.ssrc
      have hsources : d'.sources = d₂.sources := by rw [hsteady.sources, htaken]
      have hgeneration : d'.generation = d₂.generation := by rw [hsteady.generation, htaken]
      cases hchosen with
      | known hknown =>
          rw [hkept₂] at hknown hsources
          exact .kept hsources hknown
      | added hnew hroom =>
          have hnone : d.sources = [] := by
            rw [← List.length_eq_zero_iff, ← hkept₂]
            omega
          refine .added hnone ?_
          rw [hsources]
          dsimp only
          rw [hkept₂, hnone]
          rfl
      | handoff hnew hfull hdue =>
          rw [hkept₂] at hnew hfull
          obtain ⟨old, hold⟩ : ∃ old, d.sources = [old] := by
            rw [← List.length_eq_one_iff]
            omega
          refine .handoff hold ?_ hsources hobserve hdue ?_
          · intro hsame
            rw [hold, hsame] at hnew
            exact hnew (List.mem_singleton_self _)
          · rw [hgeneration, ← hkept₃]
            rfl

/-- Only a handoff replaces the source. -/
theorem Selects.handsOver {d d' : Depacketizer} {p : RtpPacket} {now : Nat} {old new : UInt32}
    (h : Selects d p now d') (hbefore : d.sources = [old]) (hafter : d'.sources = [new])
    (hchanged : old ≠ new) :
    new = p.ssrc ∧ d'.generation = saturatingSucc d.generation ∧
      ∃ d₁, (d.countHeader p).observe p now = some d₁ ∧ d₁.handoffDue p now = some true := by
  have hstays : d'.sources ≠ d.sources := by
    rw [hbefore, hafter]
    exact fun hsame => hchanged (List.singleton_inj.1 hsame).symm
  cases h with
  | kept hsources _ => exact absurd hsources hstays
  | held hsources _ _ _ _ => exact absurd hsources hstays
  | added hnone _ =>
      rw [hbefore] at hnone
      cases hnone
  | @handoff d₁ _ _ _ hsources hobserve hdue hgeneration =>
      rw [hafter] at hsources
      exact ⟨List.singleton_inj.1 hsources, hgeneration, d₁, hobserve, hdue⟩

theorem Follows.silent {ops : List Op} {d d' : Depacketizer} {op : Op} (h : Follows ops d)
    (hsafe : Safe d') (hbounded : Bounded 1 d') (hsources : d'.sources = d.sources)
    (hobserved : d'.observed = d.observed) (hop : ∀ ssrc, ¬isFrom ssrc op = true) :
    Follows (ops ++ [op]) d' := by
  have hnotes : SameNotes d d' := .of_observed hobserved
  refine ⟨hsafe, hbounded, ?_, ?_, h.counted.same hnotes ?_⟩
  · rw [hsources, hnotes.noted]
    exact h.active
  · rw [hsources, hobserved]
    exact h.idle
  · intro ssrc
    rw [arrivals_append, if_neg (hop ssrc), List.append_nil]

theorem noted_isSome {d : Depacketizer} {ssrc : UInt32} :
    (noted d ssrc).isSome = (d.observed.lookup ssrc).isSome := by
  rw [noted, Option.isSome_map]

theorem isSome_observe {d d₁ : Depacketizer} {p : RtpPacket} {now : Nat}
    (h : d.observe p now = some d₁) {ssrc : UInt32}
    (hssrc : (noted d ssrc).isSome = true ∨ ssrc = p.ssrc ∧ Observable d p.ssrc) :
    (noted d₁ ssrc).isSome = true := by
  have hnoted := observe_noted h ssrc
  by_cases hthis : ssrc = p.ssrc ∧ Observable d p.ssrc
  · rw [if_pos hthis] at hnoted
    obtain ⟨donl, hnoted⟩ := hnoted
    rw [hnoted]
    rfl
  · rw [if_neg hthis] at hnoted
    rw [hnoted]
    exact hssrc.resolve_right hthis

theorem Follows.push {tieBreak : Nat → Key} {ops : List Op} {d d' : Depacketizer}
    {p : RtpPacket} {now : Nat} {events : List Event} (h : Follows ops d)
    (hpush : d.push tieBreak p now = some (events, d')) :
    Follows (ops ++ [.push p now]) d' := by
  have hpushes := push_inversion h.safe hpush
  have hsafe : Safe d' := by
    obtain ⟨_, _, hpush', _, hsafe, _⟩ := push_run tieBreak h.safe p now
    rw [hpush] at hpush'
    cases hpush'
    exact hsafe
  have hbounded := push_bounded tieBreak h.safe h.bounded hpush
  by_cases hlong : 2 ≤ p.payload.length
  · rcases hpushes.notes with ⟨hshort, _⟩ | ⟨_, d₁, hobserve, hnotes⟩
    · omega
    have hcounted : Counted (ops ++ [.push p now]) d' :=
      ((h.countHeader p).counted.observe hlong hobserve).same hnotes fun _ => rfl
    have hstill : ∀ ssrc ∈ d.sources, (noted d' ssrc).isSome = true := by
      intro ssrc hssrc
      rw [hnotes.noted]
      apply isSome_observe hobserve
      refine Or.inl ((h.countHeader p).active ssrc ?_)
      obtain ⟨counters, hheader⟩ := countHeader_same d p
      rwa [hheader]
    cases h.selects hlong hpush with
    | kept hsources hknown =>
        refine ⟨hsafe, hbounded, by rwa [hsources], ?_, hcounted⟩
        intro hnone
        rw [← hsources, hnone] at hknown
        cases hknown
    | held hsources hsome _ _ _ =>
        refine ⟨hsafe, hbounded, by rwa [hsources], ?_, hcounted⟩
        rw [hsources]
        exact fun hnone => absurd hnone hsome
    | added hnone hsources =>
        refine ⟨hsafe, hbounded, ?_, by simp [hsources], hcounted⟩
        rw [hsources, hnotes.noted]
        intro ssrc hssrc
        rw [List.mem_singleton] at hssrc
        refine isSome_observe hobserve (Or.inr ⟨hssrc, Or.inr ?_⟩)
        obtain ⟨counters, hheader⟩ := countHeader_same d p
        rw [hheader]
        dsimp only
        rw [h.idle hnone]
        simp
    | @handoff d₂ old hold hne hsources hobserve' hdue _ =>
        refine ⟨hsafe, hbounded, ?_, by simp [hsources], hcounted⟩
        rw [hobserve] at hobserve'
        cases hobserve'
        rw [hsources, hnotes.noted]
        intro ssrc hssrc
        rw [List.mem_singleton.1 hssrc, noted_isSome]
        unfold Depacketizer.handoffDue at hdue
        split at hdue
        · obtain ⟨active, _, hboth⟩ := Option.map_eq_some_iff.1 hdue
          rw [Bool.and_eq_true] at hboth
          have hevidence := hboth.2
          cases hlookup : d₁.observed.lookup p.ssrc with
          | none =>
              rw [hlookup] at hevidence
              cases hevidence
          | some s => rfl
        · cases hdue
  · have hnone : ∀ ssrc, ¬isFrom ssrc (.push p now) = true := by
      simp [isFrom, hlong]
    cases hpushes with
    | short hshort hsafe₁ hpoll =>
        obtain ⟨counters, hheader⟩ := (countHeader_same d p).count .short
        have hsteady := poll_steady hsafe₁ hpoll
        rw [hheader] at hsteady
        exact h.silent hsafe hbounded hsteady.sources hsteady.observed hnone
    | held hlong' => exact absurd hlong' hlong
    | selected hlong' => exact absurd hlong' hlong

theorem Follows.step {tieBreak : Nat → Key} {ops : List Op} {d d' : Depacketizer} {op : Op}
    {events : List Event} (h : Follows ops d) (hstep : d.step tieBreak op = some (events, d')) :
    Follows (ops ++ [op]) d' := by
  cases op with
  | push p now => exact h.push hstep
  | poll now =>
      have hsteady := poll_steady h.safe hstep
      have hsafe : Safe d' := by
        obtain ⟨_, _, hpoll, _, hsafe, _⟩ := poll_run now h.safe
        rw [show d.poll now = some (events, d') from hstep] at hpoll
        cases hpoll
        exact hsafe
      exact h.silent hsafe (poll_bounded h.safe h.bounded hstep) hsteady.sources hsteady.observed
        (by simp [isFrom])

/-- A source that is noted stays so. -/
theorem isSome_step {tieBreak : Nat → Key} {d d' : Depacketizer} {op : Op} {events : List Event}
    (hsafe : Safe d) (hstep : d.step tieBreak op = some (events, d')) {ssrc : UInt32}
    (hnoted : (noted d ssrc).isSome = true) : (noted d' ssrc).isSome = true := by
  cases op with
  | poll now =>
      have hnotes : SameNotes d d' := .of_observed (poll_steady hsafe hstep).observed
      rwa [hnotes.noted]
  | push p now =>
      rcases (push_inversion hsafe hstep).notes with ⟨-, hnotes⟩ | ⟨-, d₁, hobserve, hnotes⟩
      · rwa [hnotes.noted]
      · rw [hnotes.noted]
        apply isSome_observe hobserve
        obtain ⟨counters, hheader⟩ := countHeader_same d p
        rw [hheader]
        exact Or.inl hnoted

/-! ## Runs -/

/-- What is known at a moment of a run. -/
structure Recorded (tieBreak : Nat → Key) (m : Moment) : Prop where
  follows : Follows m.calls m.before
  known : ∀ ssrc, m.Retired ssrc → (noted m.before ssrc).isSome = true
  step : ∃ events, m.before.step tieBreak m.op = some (events, m.after)
  sorted : (m.calls.map time).Pairwise (· ≤ ·)

theorem moments_recorded {tieBreak : Nat → Key} {past : List (Op × List UInt32)}
    {d : Depacketizer} {ops : List Op} (h : Follows (past.map Prod.fst) d)
    (hknown : ∀ e ∈ past, ∀ ssrc ∈ e.2, (noted d ssrc).isSome = true)
    (hsorted : ((past.map Prod.fst ++ ops).map time).Pairwise (· ≤ ·)) :
    ∀ m ∈ moments tieBreak past d ops, Recorded tieBreak m := by
  induction ops generalizing past d with
  | nil => simp [moments]
  | cons op ops ih =>
      unfold moments
      split
      · simp
      · rename_i events d' hstep
        rw [List.forall_mem_cons]
        have hnext : Follows (past.map Prod.fst ++ [op]) d' := h.step hstep
        constructor
        · refine ⟨h, fun ssrc ⟨e, he, hin⟩ => hknown e he ssrc hin, ⟨events, hstep⟩, ?_⟩
          rw [List.map_append, List.pairwise_append] at hsorted
          exact hsorted.1
        · apply ih
          · simpa using hnext
          · intro e he ssrc hin
            rcases List.mem_append.1 he with hold | hnew
            · exact isSome_step h.safe hstep (hknown e hold ssrc hin)
            · rw [List.mem_singleton.1 hnew] at hin
              exact hnext.active ssrc hin
          · simpa using hsorted

theorem moments_op {tieBreak : Nat → Key} {past : List (Op × List UInt32)} {d : Depacketizer}
    (hsafe : Safe d) (ops : List Op) :
    (moments tieBreak past d ops).map Moment.op = ops := by
  induction ops generalizing past d with
  | nil => rfl
  | cons op ops ih =>
      obtain ⟨events, d', hstep, _, hnext⟩ := step_run tieBreak hsafe op
      unfold moments
      rw [hstep]
      dsimp only
      rw [List.map_cons, ih hnext]

theorem arrivals_reverse (ssrc : UInt32) (ops : List Op) :
    (arrivals ssrc ops.reverse).length = (arrivals ssrc ops).length := by
  simp [arrivals, List.filter_reverse]

/-- A source that was never selected is counted from the start. -/
theorem Moment.since_unretired {m : Moment} {ssrc : UInt32} (hnever : ¬m.Retired ssrc) :
    (arrivals ssrc (m.since ssrc)).length = (arrivals ssrc m.calls).length := by
  have hall : m.past.reverse.takeWhile (fun e => ssrc ∉ e.2) = m.past.reverse := by
    rw [List.takeWhile_eq_self_iff]
    intro e he
    rw [List.mem_reverse] at he
    simpa using fun hin => hnever ⟨e, he, hin⟩
  rw [Moment.since, hall, List.map_reverse, arrivals_reverse, Moment.calls]

namespace Recorded

variable {tieBreak : Nat → Key} {m : Moment}

theorem arrivals_sorted (h : Recorded tieBreak m) (ssrc : UInt32) :
    (arrivals ssrc m.calls).Pairwise (· ≤ ·) :=
  h.sorted.sublist (List.filter_sublist.map _)

/-- A call hands the stream over exactly in the circumstances of a handoff, and begins the
next generation when it does. -/
theorem handsOver (h : Recorded tieBreak m) (old new : UInt32) :
    (m.HandsOver old new ↔ m.Due old new) ∧
      (m.HandsOver old new → m.after.generation = saturatingSucc m.before.generation) := by
  obtain ⟨events, hstep⟩ := h.step
  obtain ⟨past, before, op, after⟩ := m
  have hsafe := h.follows.safe
  -- A call without a packet of any source leaves the sources alone.
  have hsilent : after.sources = before.sources → isFrom new op = false →
      (Moment.HandsOver ⟨past, before, op, after⟩ old new ↔
        Moment.Due ⟨past, before, op, after⟩ old new) ∧
      (Moment.HandsOver ⟨past, before, op, after⟩ old new →
        after.generation = saturatingSucc before.generation) := by
    intro hsame hnone
    have hstays : ¬Moment.HandsOver ⟨past, before, op, after⟩ old new := by
      rintro ⟨hbefore, hafter, hchanged⟩
      dsimp only at hbefore hafter
      rw [hsame, hbefore] at hafter
      exact hchanged (List.singleton_inj.1 hafter)
    refine ⟨⟨fun hhands => absurd hhands hstays, fun hdue => ?_⟩,
      fun hhands => absurd hhands hstays⟩
    have hpushed := hdue.pushed
    dsimp only at hpushed
    rw [hnone] at hpushed
    cases hpushed
  cases op with
  | poll now => exact hsilent (poll_steady hsafe hstep).sources rfl
  | push p now =>
      by_cases hlong : 2 ≤ p.payload.length
      · have hselects := h.follows.selects hlong hstep
        refine ⟨⟨?_, ?_⟩, ?_⟩
        · rintro ⟨hbefore, hafter, hchanged⟩
          obtain ⟨hsame, _, d₁, hobserve, hdue⟩ := hselects.handsOver hbefore hafter hchanged
          have hne : old ≠ p.ssrc := hsame ▸ hchanged
          have htest := h.follows.handoffDue (h.arrivals_sorted old) hobserve hbefore hne
          obtain ⟨hquiet, hpackets, hroom⟩ := htest.1 hdue
          rw [← hsame] at hpackets hroom
          exact ⟨(isFrom_push hlong now new).2 hsame, hbefore, hchanged, hquiet, hpackets, hroom⟩
        · rintro ⟨hpushed, hbefore, hchanged, hquiet, hpackets, hroom⟩
          refine ⟨hbefore, ?_, hchanged⟩
          dsimp only at hpushed hbefore hpackets hroom ⊢
          obtain rfl := (isFrom_push hlong now new).1 hpushed
          cases hselects with
          | kept _ hknown =>
              rw [hbefore, List.mem_singleton] at hknown
              exact absurd hknown.symm hchanged
          | added hnone _ =>
              rw [hbefore] at hnone
              cases hnone
          | held _ _ _ hobserve hnot =>
              have htest :=
                h.follows.handoffDue (h.arrivals_sorted old) hobserve hbefore hchanged
              rw [htest.2 ⟨hquiet, hpackets, hroom⟩] at hnot
              cases hnot
          | handoff _ _ hsources _ _ _ => exact hsources
        · rintro ⟨hbefore, hafter, hchanged⟩
          exact (hselects.handsOver hbefore hafter hchanged).2.1
      · refine hsilent ?_ (by simp [isFrom, hlong])
        cases push_inversion hsafe hstep with
        | short _ hsafe₁ hpoll =>
            obtain ⟨counters, hheader⟩ := (countHeader_same before p).count .short
            have hsources := (poll_steady hsafe₁ hpoll).sources
            rw [hheader] at hsources
            exact hsources
        | held hlong' => exact absurd hlong' hlong
        | selected hlong' => exact absurd hlong' hlong

/-- The packet of a former source that comes while the selected one is quiet takes the stream
over. -/
theorem due_of_stray (h : Recorded tieBreak m) {old new : UInt32} (hstray : m.Stray old new)
    (hquiet : m.Quiet old) : m.Due old new where
  pushed := hstray.pushed
  active := hstray.active
  changed := hstray.changed
  quiet := hquiet
  packets := hstray.many
  observable := by
    have hknown := h.known new hstray.retired
    rw [noted_isSome] at hknown
    exact Or.inl hknown

/-- The evidence of a handoff that is due: it lacks only in a stray packet, and in the number
of generations. -/
theorem evidenced_iff (h : Recorded tieBreak m) {old new : UInt32} (hdue : m.Due old new) :
    m.Evidenced old new ↔ ¬m.Stray old new ∧ m.before.generation < 2 ^ 64 - 1 := by
  obtain ⟨hiff, hnext⟩ := h.handsOver old new
  have hgeneration := hnext (hiff.2 hdue)
  have hsucc : saturatingSucc m.before.generation = m.before.generation + 1 ↔
      m.before.generation < 2 ^ 64 - 1 := by
    unfold saturatingSucc
    split <;> omega
  constructor
  · intro hevidence
    have hbegun := hevidence.generation
    rw [hgeneration] at hbegun
    refine ⟨fun hstray => ?_, hsucc.1 hbegun⟩
    have hfresh := hevidence.fresh
    have hfew := hstray.few
    omega
  · rintro ⟨hfirm, hbelow⟩
    refine ⟨hdue.pushed, hdue.quiet, ?_, ?_⟩
    · by_cases hretired : m.Retired new
      · by_contra hfew
        exact hfirm
          ⟨hdue.pushed, hdue.active, hdue.changed, hretired, hdue.packets, by omega⟩
      · rw [Moment.since_unretired hretired]
        exact hdue.packets
    · rw [hgeneration]
      exact hsucc.2 hbelow

theorem handoffs_iff (h : Recorded tieBreak m) :
    (∀ old new, m.HandsOver old new → m.Evidenced old new) ↔ m.Covered ∧ m.HasGenerations := by
  constructor
  · intro hall
    have hevidenced : ∀ old new, m.Due old new →
        ¬m.Stray old new ∧ m.before.generation < 2 ^ 64 - 1 := fun old new hdue =>
      (h.evidenced_iff hdue).1 (hall old new ((h.handsOver old new).1.2 hdue))
    refine ⟨fun old new hstray => ?_, fun old new hdue => (hevidenced old new hdue).2⟩
    by_contra hnone
    have hquiet : m.Quiet old := by
      intro arrived harrived
      by_contra hrecent
      exact hnone ⟨arrived, harrived, by omega⟩
    exact (hevidenced old new (h.due_of_stray hstray hquiet)).1 hstray
  · rintro ⟨hcovered, hgenerations⟩ old new hhands
    have hdue := (h.handsOver old new).1.1 hhands
    refine (h.evidenced_iff hdue).2 ⟨fun hstray => ?_, hgenerations old new hdue⟩
    obtain ⟨arrived, harrived, hrecent⟩ := hcovered old new hstray
    have hquiet := hdue.quiet arrived harrived
    omega

end Recorded

/-- Every handoff of a run has its evidence exactly when each of the first seven packets that
a source sends after the stream was taken from it comes while the source selected then is
heard, and the generations are not used up. -/
theorem handoffs_evidenced_iff (tieBreak : Nat → Key) (ops : List Op)
    (hsorted : (ops.map time).Pairwise (· ≤ ·)) :
    (moments tieBreak [] (Depacketizer.new 1) ops).map Moment.op = ops ∧
      ((∀ m ∈ moments tieBreak [] (Depacketizer.new 1) ops, ∀ old new,
          m.HandsOver old new → m.Evidenced old new) ↔
        ∀ m ∈ moments tieBreak [] (Depacketizer.new 1) ops, m.Covered ∧ m.HasGenerations) := by
  have hrecorded : ∀ m ∈ moments tieBreak [] (Depacketizer.new 1) ops, Recorded tieBreak m :=
    moments_recorded follows_new nofun hsorted
  exact ⟨moments_op (safe_new 1) ops, forall₂_congr fun m hm => (hrecorded m hm).handoffs_iff⟩

/-! ## Example -/

def packetFrom (ssrc : UInt32) (seq : UInt16) : RtpPacket :=
  { ssrc
    seq
    timestamp := 2
    marker := true
    pt := 96
    payload := [2, 1, 128] }

/-- Eight packets of a first source, eight of a second one later, and one more of the
first. -/
def strayRun : List Op :=
  (List.range 8).map (fun i => .push (packetFrom 1 i.toUInt16) i) ++
    (List.range 8).map (fun i => .push (packetFrom 2 i.toUInt16) (200 + i)) ++
    [.push (packetFrom 1 8) 400]

theorem strayRun_sorted : (strayRun.map time).Pairwise (· ≤ ·) := by decide

/-- The one packet takes the stream back. -/
theorem stray_packet_takes_over :
    (strayRun.map time).Pairwise (· ≤ ·) ∧
      ∃ m ∈ moments (fun _ => (0, 0)) [] (Depacketizer.new 1) strayRun,
        m.HandsOver 2 1 ∧ ¬8 ≤ (arrivals 1 (m.since 1)).length + 1 :=
  ⟨strayRun_sorted, by decide +kernel⟩

/-- The equivalence at that run. -/
theorem handoffs_evidenced_iff_strayRun :
    (moments (fun _ => (0, 0)) [] (Depacketizer.new 1) strayRun).map Moment.op = strayRun ∧
      ((∀ m ∈ moments (fun _ => (0, 0)) [] (Depacketizer.new 1) strayRun, ∀ old new,
          m.HandsOver old new → m.Evidenced old new) ↔
        ∀ m ∈ moments (fun _ => (0, 0)) [] (Depacketizer.new 1) strayRun,
          m.Covered ∧ m.HasGenerations) :=
  handoffs_evidenced_iff (fun _ => (0, 0)) strayRun strayRun_sorted

end MacVnc.Media.DepacketizeHandoff

import MacVnc.Lib.WeightedMap
import MacVnc.Media.DepacketizeFrame
/-!
# How far the numbers of the groups get

Every packet that reaches its group takes a number from `next_group`.  A packet is
placed when it is pushed, or held for its source and placed later, once: what was
numbered and what is held never exceed the pushes, so that the field of the source,
a `u64`, wraps in no run of fewer than `2 ^ 64` of them.
-/

namespace MacVnc.Media.DepacketizeNumbers

open MacVnc.Lib.WeightedMap
open MacVnc.Media.Srtp (RtpPacket)
open MacVnc.Media.Depacketize
open MacVnc.Media.DepacketizeGroup
open MacVnc.Media.DepacketizeTrace
open MacVnc.Media.DepacketizeFrame

variable {d d' : Depacketizer}

def held (d : Depacketizer) : Nat := total (fun s => s.prefixPackets.length) d.observed

def pushes : List Op → Nat
  | [] => 0
  | .push _ _ :: ops => pushes ops + 1
  | .poll _ :: ops => pushes ops

/-- What a step numbers and holds is at most this much more than before. -/
structure Spends (n : Nat) (d d' : Depacketizer) : Prop where
  spent : d'.nextGroup + held d' ≤ d.nextGroup + held d + n

theorem Spends.of_same (hnext : d'.nextGroup = d.nextGroup) (hobserved : d'.observed = d.observed) :
    Spends 0 d d' := by
  constructor
  rw [held, held, hnext, hobserved]
  omega

theorem Spends.trans {m : Depacketizer} {k n : Nat} (h : Spends k d m) (h' : Spends n m d') :
    Spends (k + n) d d' := by
  have hfirst := h.spent
  have hsecond := h'.spent
  constructor
  omega

theorem Spends.weaken {k n : Nat} (h : Spends k d d') (hkn : k ≤ n) : Spends n d d' := by
  have hspent := h.spent
  constructor
  omega

theorem settles_nextGroup {d d' : Depacketizer} {key : Key} {g : Group} {outcome : Outcome}
    (h : Settles d key g outcome d') : d'.nextGroup = d.nextGroup := by
  cases h <;> rfl

theorem pollLoop_nextGroup {now : Nat} (hsafe : Safe d) {keys : List Key} {later : List Event}
    (hloop : d.pollLoop now keys = some (later, d')) : d'.nextGroup = d.nextGroup := by
  induction keys generalizing d later with
  | nil =>
      cases hloop
      rfl
  | cons key keys ih =>
      cases pollLoop_inversion hsafe hloop with
      | late _ hsafe' hrest =>
          have hlater := ih hsafe' hrest
          exact hlater
      | waits => rfl
      | resolved _ _ hsettles hsafe' hrest =>
          have hlater := ih hsafe' hrest
          have hsettled := settles_nextGroup hsettles
          exact hlater.trans hsettled

theorem poll_spends {now : Nat} (hsafe : Safe d) {later : List Event}
    (hpoll : d.poll now = some (later, d')) : Spends 0 d d' := by
  apply Spends.of_same _ (poll_steady hsafe hpoll).observed
  unfold Depacketizer.poll at hpoll
  split at hpoll
  · cases hpoll
    rfl
  · exact pollLoop_nextGroup hsafe hpoll

theorem evictGroup_nextGroup (d : Depacketizer) (hint : Key) :
    (d.evictGroup hint).2.nextGroup = d.nextGroup := by
  unfold Depacketizer.evictGroup
  split
  · rfl
  · rfl

theorem insertPacket_nextGroup (d : Depacketizer) (p : RtpPacket) (now : Nat) :
    (d.insertPacket p now).2.nextGroup = d.nextGroup + 1 := by
  unfold Depacketizer.insertPacket
  dsimp only
  split
  · rfl
  · rfl

theorem place_nextGroup (tieBreak : Nat → Key) (d : Depacketizer) (p : RtpPacket) (now : Nat) :
    (d.place tieBreak p now).2.nextGroup ≤ d.nextGroup + 1 := by
  unfold Depacketizer.place
  dsimp only
  split
  · exact Nat.le_succ d.nextGroup
  split
  · rw [insertPacket_nextGroup, evictGroup_nextGroup]
  · rw [insertPacket_nextGroup]

theorem pushSelected_spends {tieBreak : Nat → Key} {now : Nat} (hsafe : Safe d) {p : RtpPacket}
    (hsource : p.ssrc ∈ d.sources) {later : List Event}
    (hpush : d.pushSelected tieBreak p now = some (later, d')) : Spends 1 d d' := by
  obtain ⟨_, hsafe₁⟩ := prepare_quiet hsafe p.ssrc now
  obtain ⟨_, hsafe₂, _, _, _⟩ := place_run tieBreak hsafe₁ p now hsource
  obtain ⟨⟨polled, last⟩, hpoll, heq⟩ := Option.map_eq_some_iff.1 hpush
  cases heq
  have hplaced : Spends 1 d ((d.prepare p.ssrc now).place tieBreak p now).2 := by
    constructor
    have hnext := place_nextGroup tieBreak (d.prepare p.ssrc now) p now
    rw [held, (place_steady tieBreak (d.prepare p.ssrc now) p now).observed]
    change _ ≤ d.nextGroup + 1 at hnext
    change _ + held d ≤ _
    omega
  exact hplaced.trans (poll_spends hsafe₂ hpoll)

theorem pushAll_spends {tieBreak : Nat → Key} {now : Nat} (hsafe : Safe d)
    {queue : List RtpPacket} (hsource : ∀ p ∈ queue, p.ssrc ∈ d.sources) {later : List Event}
    (hpush : d.pushAll tieBreak now queue = some (later, d')) : Spends queue.length d d' := by
  induction queue generalizing d later with
  | nil =>
      cases hpush
      exact .of_same rfl rfl
  | cons p rest ih =>
      rcases pushSelected_run tieBreak hsafe p now (hsource p List.mem_cons_self) with
        ⟨first, d₁, hfirst, _, hsafe₁, hsources, _, _⟩
      unfold Depacketizer.pushAll at hpush
      rw [hfirst] at hpush
      obtain ⟨⟨rest', last⟩, hrest, heq⟩ := Option.map_eq_some_iff.1 hpush
      cases heq
      have hlater : ∀ q ∈ rest, q.ssrc ∈ d₁.sources := by
        rw [hsources]
        exact fun q hq => hsource q (List.mem_cons_of_mem _ hq)
      have hstep := pushSelected_spends hsafe (hsource p List.mem_cons_self) hfirst
      rw [List.length_cons, Nat.add_comm]
      exact hstep.trans (ih hsafe₁ hlater hrest)

theorem count_spends (d : Depacketizer) (name : Counter) : Spends 0 d (d.count name) :=
  .of_same rfl rfl

theorem countHeader_spends (d : Depacketizer) (p : RtpPacket) : Spends 0 d (d.countHeader p) := by
  obtain ⟨counters, hheader⟩ := countHeader_same d p
  rw [hheader]
  exact .of_same rfl rfl

theorem held_insert (d : Depacketizer) (ssrc : UInt32) (s : SourceObservation) :
    held { d with observed := d.observed.insert ssrc s } +
        ((d.observed.lookup ssrc).map fun old => old.prefixPackets.length).getD 0 =
      held d + s.prefixPackets.length := by
  have hnew := total_insert (fun s : SourceObservation => s.prefixPackets.length) ssrc s d.observed
  have hold := total_eq (fun s : SourceObservation => s.prefixPackets.length) ssrc d.observed
  dsimp only [held]
  omega

theorem inferFraming_prefixPackets (s : SourceObservation) (payload : List UInt8) :
    (Depacketizer.inferFraming s payload).prefixPackets = s.prefixPackets := by
  unfold Depacketizer.inferFraming
  split
  · rfl
  · rfl
  · rfl

theorem observe_spends {p : RtpPacket} {now : Nat} (h : d.observe p now = some d') :
    Spends 0 d d' := by
  rcases observe_inversion h with ⟨_, rfl⟩ | ⟨_, kind, _, rfl⟩
  · exact .of_same rfl rfl
  · constructor
    have hheld := held_insert d p.ssrc (observation d p now kind)
    have hsame : (observation d p now kind).prefixPackets =
        ((d.observed.lookup p.ssrc).getD Depacketizer.unobserved).prefixPackets := by
      unfold observation
      dsimp only
      split
      · rw [inferFraming_prefixPackets]
      · rfl
    rw [hsame] at hheld
    dsimp only
    cases hlookup : d.observed.lookup p.ssrc with
    | none =>
        rw [hlookup] at hheld
        simp only [Option.map_none, Option.getD_none, Depacketizer.unobserved, List.length_nil]
          at hheld
        omega
    | some s =>
        rw [hlookup] at hheld
        simp only [Option.map_some, Option.getD_some] at hheld
        omega

theorem evictPrefix_length {size bytes left : Nat} {queue rest : List RtpPacket}
    (h : Depacketizer.evictPrefix size queue bytes = some (rest, left)) :
    rest.length ≤ queue.length := by
  induction queue generalizing bytes with
  | nil =>
      unfold Depacketizer.evictPrefix at h
      split at h
      · cases h
      · cases h
        exact Nat.le_refl 0
  | cons old queue ih =>
      unfold Depacketizer.evictPrefix at h
      split at h
      · obtain ⟨fewer, _, hrest⟩ := Option.bind_eq_some_iff.1 h
        exact Nat.le_succ_of_le (ih hrest)
      · cases h
        exact Nat.le_refl _

theorem hold_spends {p : RtpPacket} (h : d.hold p = some d') : Spends 1 d d' := by
  unfold Depacketizer.hold at h
  dsimp only at h
  split at h
  · split at h
    · cases h
      exact (count_spends d .unknownSource).weaken (Nat.zero_le 1)
    · rename_i s hs
      obtain ⟨⟨queue, bytes⟩, hevict, heq⟩ := Option.map_eq_some_iff.1 h
      cases heq
      have hlength := evictPrefix_length hevict
      have hcount : held (d.count .unknownSource) = held d := rfl
      have hheld := held_insert (d.count .unknownSource) p.ssrc
        { s with prefixPackets := queue ++ [p], prefixBytes := bytes + p.payload.length }
      rw [hs, Option.map_some, Option.getD_some, List.length_append, List.length_singleton,
        hcount] at hheld
      have hnext : (d.count .unknownSource).nextGroup = d.nextGroup := rfl
      constructor
      dsimp only
      omega
  · cases h
    exact (count_spends d .unknownSource).weaken (Nat.zero_le 1)

/-- The packets that are taken back are no longer held. -/
theorem takePrefix_spends (d : Depacketizer) (ssrc : UInt32) {n : Nat}
    (h : Spends ((d.takePrefix ssrc).1.length + n) (d.takePrefix ssrc).2 d') : Spends n d d' := by
  have hspent := h.spent
  constructor
  unfold Depacketizer.takePrefix at hspent
  split at hspent
  · simpa using hspent
  · rename_i s hs
    have hheld := held_insert d ssrc { s with prefixPackets := [], prefixBytes := 0 }
    rw [hs, Option.map_some, Option.getD_some, List.length_nil] at hheld
    dsimp only at hspent
    omega

theorem chosen_spends {p : RtpPacket} {now : Nat} {later : List Event}
    (hchosen : Chosen d p now later d') : Spends 0 d d' := by
  cases hchosen with
  | known => exact .of_same rfl rfl
  | added => exact .of_same rfl rfl
  | handoff => exact .of_same rfl rfl

theorem push_spends {tieBreak : Nat → Key} {now : Nat} (hsafe : Safe d) {p : RtpPacket}
    {later : List Event} (hpush : d.push tieBreak p now = some (later, d')) : Spends 1 d d' := by
  have hheader := countHeader_spends d p
  cases push_inversion hsafe hpush with
  | short _ hsafe' hpoll =>
      have hcount := (count_spends (d.countHeader p) .short).weaken (Nat.zero_le 1)
      exact (hheader.trans hcount).trans (poll_spends hsafe' hpoll)
  | held _ hobserve _ _ _ hhold hsafe' hpoll =>
      exact ((hheader.trans (observe_spends hobserve)).trans (hold_spends hhold)).trans
        (poll_spends hsafe' hpoll)
  | selected _ hobserve hchosen hsafe' hmember hqueue hall =>
      have hselected := (hheader.trans (observe_spends hobserve)).trans (chosen_spends hchosen)
      have hpushed := pushAll_spends hsafe' (fun q hq => hqueue q hq ▸ hmember) hall
      rw [List.length_append, List.length_singleton] at hpushed
      exact hselected.trans (takePrefix_spends _ p.ssrc hpushed)

theorem run_spends {tieBreak : Nat → Key} (hsafe : Safe d) {ops : List Op} {later : List Event}
    (hrun : d.run tieBreak ops = some (later, d')) : Spends (pushes ops) d d' := by
  induction ops generalizing d later with
  | nil =>
      cases hrun
      exact .of_same rfl rfl
  | cons op ops ih =>
      obtain ⟨first, m, rest, hstep, hrest, rfl⟩ := run_cons_inv hrun
      obtain ⟨_, _, hstep', _, hsafe'⟩ := step_run tieBreak hsafe op
      rw [hstep] at hstep'
      cases hstep'
      have hlast := ih hsafe' hrest
      cases op with
      | push p now =>
          have hfirst := push_spends hsafe hstep
          rw [pushes, Nat.add_comm]
          exact hfirst.trans hlast
      | poll now =>
          have hfirst := poll_spends hsafe hstep
          rw [pushes, ← Nat.zero_add (pushes ops)]
          exact hfirst.trans hlast

theorem nextGroup_le_pushes {tileCount : Nat} {tieBreak : Nat → Key} {ops : List Op}
    {events : List Event}
    (hrun : (Depacketizer.new tileCount).run tieBreak ops = some (events, d)) :
    d.nextGroup ≤ pushes ops := by
  have hspent := (run_spends (safe_new tileCount) hrun).spent
  have hnone : held (Depacketizer.new tileCount) = 0 := rfl
  have hstart : (Depacketizer.new tileCount).nextGroup = 0 := rfl
  omega

end MacVnc.Media.DepacketizeNumbers

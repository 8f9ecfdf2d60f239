import MacVnc.Lib.Transition
import MacVnc.Lib.WeightedMap
import MacVnc.Media.DepacketizeGroup
/-!
# What the depacketizer can do

No call of `push` or `poll` panics or hangs, from any reachable state and on any
packet: the parameter sets have their header bytes, every pending group belongs
to a selected source and the candidate queues account for their bytes.  Each
call is a trace of a few kinds of step, which is all that later results need to
know about the code.
-/

namespace MacVnc.Media.DepacketizeTrace

open MacVnc.Lib.Transition
open MacVnc.Lib.WeightedMap (of_lookup_insert)
open MacVnc.Media.Srtp (RtpPacket sub64)
open MacVnc.Media.Depacketize
open MacVnc.Media.DepacketizeGroup

/-! ## Steps -/

/-- What an eventless step leaves alone: nothing that numbers the units changes,
and every pending group keeps its packets. -/
structure Quiet (d d' : Depacketizer) : Prop where
  generation : d'.generation = d.generation
  lossEpoch : d'.lossEpoch = d.lossEpoch
  haveKey : d'.haveKey = d.haveKey
  nextPts : d'.nextPts = d.nextPts
  lastTs : d'.lastTs = d.lastTs
  grows : ∀ key g, d.groups.lookup key = some g →
    ∃ g', d'.groups.lookup key = some g' ∧ g.packets <+: g'.packets

inductive Emits (d : Depacketizer) : Event → Depacketizer → Prop
  | late {key g} : d.groups.lookup key = some g → d.late key = true →
      Emits d (.resolved key g (.discarded .lateTimestamp))
        ({ d.removeGroup key with dropped := d.dropped + 1 }.count .lateTimestamp)
  | due {key g outcome d'} : d.groups.lookup key = some g → d.late key = false →
      Settles (d.removeGroup key) key g outcome d' → Emits d (.resolved key g outcome) d'
  | evicted {key g} : d.groups.lookup key = some g →
      Emits d (.resolved key g (.discarded .groupLimit))
        ((d.removeGroup key).recordLoss .groupLimit)
  | overflow {key g} :
      (∀ old, d.groups.lookup key = some old → old.packets <+: g.packets) →
      Emits d (.resolved key g (.discarded .byteLimit))
        ((d.removeGroup key).recordLoss .byteLimit)
  | refused (p) : Emits d (.refused p) (d.recordLoss .pendingByteLimit)
  | handoff (ssrc) :
      Emits d (.cleared (d.groups.entries.map fun e => (e.1, e.2))) (d.handoff ssrc)

/-- A run of the depacketizer as a trace of its steps. -/
abbrev Run := Trace Quiet Emits

theorem Quiet.ofGroups {d d' : Depacketizer} (hgroups : d'.groups = d.groups)
    (hgeneration : d'.generation = d.generation) (hepoch : d'.lossEpoch = d.lossEpoch)
    (hkey : d'.haveKey = d.haveKey) (hpts : d'.nextPts = d.nextPts)
    (hlast : d'.lastTs = d.lastTs) : Quiet d d' where
  generation := hgeneration
  lossEpoch := hepoch
  haveKey := hkey
  nextPts := hpts
  lastTs := hlast
  grows key g hg := ⟨g, by rw [hgroups]; exact hg, List.prefix_refl _⟩

structure SafeObservation (ssrc : UInt32) (s : SourceObservation) : Prop where
  params : Headed s.params
  prefixBytes : s.prefixBytes = (s.prefixPackets.map fun p => p.payload.length).sum
  prefixPackets : ∀ p ∈ s.prefixPackets, p.ssrc = ssrc

/-- The states in which no call can go wrong. -/
structure Safe (d : Depacketizer) : Prop where
  tiles : 0 < d.tiles
  params : Headed d.params
  groups : ∀ key g, d.groups.lookup key = some g → key.1 ∈ d.sources
  observed : ∀ ssrc s, d.observed.lookup ssrc = some s → SafeObservation ssrc s

/-- The event is about a group or a packet of one of these sources. -/
def FromSources (sources : List UInt32) : Event → Prop
  | .resolved key _ _ => key.1 ∈ sources
  | .refused p => p.ssrc ∈ sources
  | .cleared _ => False

theorem lookup_removeGroup {d : Depacketizer} {key other : Key} {g : Group}
    (h : (d.removeGroup key).groups.lookup other = some g) :
    d.groups.lookup other = some g ∧ other ≠ key := by
  unfold Depacketizer.removeGroup at h
  by_cases hsame : other = key
  · subst hsame
    rw [show AList.lookup other (d.groups.erase other) = none from AList.lookup_erase _ _] at h
    cases h
  · rw [show AList.lookup other (d.groups.erase key) = _ from AList.lookup_erase_ne hsame] at h
    exact ⟨h, hsame⟩

theorem Safe.removeGroup {d : Depacketizer} (h : Safe d) (key : Key) :
    Safe (d.removeGroup key) where
  tiles := h.tiles
  params := h.params
  groups other g hg := h.groups other g (lookup_removeGroup hg).1
  observed := h.observed

theorem Safe.late {d : Depacketizer} (h : Safe d) (key : Key) :
    Safe ({ d.removeGroup key with dropped := d.dropped + 1 }.count .lateTimestamp) :=
  have hremoved := h.removeGroup key
  ⟨hremoved.tiles, hremoved.params, hremoved.groups, hremoved.observed⟩

theorem Safe.settles {d d' : Depacketizer} {key : Key} {g : Group} {outcome : Outcome}
    (h : Safe d) (hsettles : Settles d key g outcome d') : Safe d' := by
  cases hsettles with
  | incomplete reason => exact ⟨h.tiles, h.params, h.groups, h.observed⟩
  | headless _ hc => exact ⟨h.tiles, headed_paramsAfter h.params hc.headed, h.groups, h.observed⟩
  | noSlices _ hc => exact ⟨h.tiles, headed_paramsAfter h.params hc.headed, h.groups, h.observed⟩
  | preKey _ hc => exact ⟨h.tiles, headed_paramsAfter h.params hc.headed, h.groups, h.observed⟩
  | emitted _ hc => exact ⟨h.tiles, headed_paramsAfter h.params hc.headed, h.groups, h.observed⟩

/-- The loop of `poll` over distinct pending keys is a trace. -/
theorem pollLoop_run (now : Nat) {d : Depacketizer} (h : Safe d) {keys : List Key}
    (hnodup : keys.Nodup) (hpending : ∀ key ∈ keys, ∃ g, d.groups.lookup key = some g) :
    ∃ events d', d.pollLoop now keys = some (events, d') ∧ Run d events d' ∧ Safe d' ∧
      d'.sources = d.sources ∧ ∀ e ∈ events, FromSources d.sources e := by
  induction keys generalizing d with
  | nil => exact ⟨[], d, rfl, .done d, h, rfl, fun e he => by cases he⟩
  | cons key keys ih =>
      obtain ⟨g, hg⟩ := hpending key (by simp)
      obtain ⟨hnew, hnodup⟩ := List.nodup_cons.1 hnodup
      have hlater : ∀ other ∈ keys, ∃ g', (d.removeGroup key).groups.lookup other = some g' := by
        intro other hother
        have hne : other ≠ key := fun hsame => hnew (hsame ▸ hother)
        obtain ⟨g', hg'⟩ := hpending other (List.mem_cons_of_mem _ hother)
        exact ⟨g', (AList.lookup_erase_ne hne).trans hg'⟩
      unfold Depacketizer.pollLoop
      rw [hg]
      dsimp only
      by_cases hlate : d.late key = true
      · rw [if_pos hlate]
        rcases ih (h.late key) hnodup hlater with
          ⟨events, d', hloop, hrun, hsafe', hsources, hfrom⟩
        rw [hloop]
        exact ⟨_, d', rfl, .event (.late hg hlate) hrun, hsafe', hsources,
          List.forall_mem_cons.2 ⟨h.groups key g hg, hfrom⟩⟩
      rw [if_neg hlate]
      by_cases hwaits : g.waits now = true
      · rw [if_pos hwaits]
        exact ⟨[], d, rfl, .done d, h, rfl, fun e he => by cases he⟩
      rw [if_neg hwaits]
      rcases resolve_settles g (h.removeGroup key).params (h.groups key g hg) with
        ⟨outcome, d₁, hresolve, hsettles⟩
      rw [hresolve]
      have hpending₁ : ∀ other ∈ keys, ∃ g', d₁.groups.lookup other = some g' := by
        rw [hsettles.groups]
        exact hlater
      rcases ih ((h.removeGroup key).settles hsettles) hnodup hpending₁ with
        ⟨events, d', hloop, hrun, hsafe', hsources, hfrom⟩
      rw [hsettles.sources] at hsources hfrom
      dsimp only
      rw [hloop]
      exact ⟨_, d', rfl, .event (.due hg (by simpa using hlate) hsettles) hrun, hsafe', hsources,
        List.forall_mem_cons.2 ⟨h.groups key g hg, hfrom⟩⟩

theorem keysByOrder_perm (d : Depacketizer) : d.keysByOrder.Perm d.groups.keys :=
  (List.perm_insertionSort _ _).map Sigma.fst

theorem poll_run (now : Nat) {d : Depacketizer} (h : Safe d) :
    ∃ events d', d.poll now = some (events, d') ∧ Run d events d' ∧ Safe d' ∧
      d'.sources = d.sources ∧ ∀ e ∈ events, FromSources d.sources e := by
  unfold Depacketizer.poll
  split
  · exact ⟨[], d, rfl, .done d, h, rfl, fun e he => by cases he⟩
  · apply pollLoop_run now h
    · exact (keysByOrder_perm d).nodup_iff.2 d.groups.keys_nodup
    · intro key hkey
      have hmem : key ∈ d.groups := (keysByOrder_perm d).mem_iff.1 hkey
      exact Option.isSome_iff_exists.1 (AList.lookup_isSome.2 hmem)

/-! ## A single pending group -/

theorem late_of_empty {d : Depacketizer} (h : d.lastTs = ∅) (key : Key) : d.late key = false := by
  rw [Depacketizer.late, h]
  rfl

theorem keysByOrder_single {d : Depacketizer} {key : Key} {g : Group}
    (h : d.groups = AList.singleton key g) : d.keysByOrder = [key] := by
  rw [Depacketizer.keysByOrder, h]
  rfl

theorem poll_single {d : Depacketizer} (key : Key) {g : Group} (htiles : d.tiles = 1)
    (hsources : d.sources = [key.1]) (hgroups : d.groups = AList.singleton key g)
    (hlast : d.lastTs = ∅) (now : Nat) :
    d.poll now =
      if g.waits now then some ([], d)
      else ((d.removeGroup key).resolve key g).map fun (outcome, d') =>
        ([.resolved key g outcome], d') := by
  have hlookup : d.groups.lookup key = some g := by
    rw [hgroups]
    exact AList.lookup_insert ∅
  unfold Depacketizer.poll
  rw [if_neg (by rw [hsources, htiles]; exact fun hfew => absurd hfew.1 (Nat.lt_irrefl 1)),
    keysByOrder_single hgroups]
  unfold Depacketizer.pollLoop
  rw [hlookup]
  dsimp only
  rw [if_neg (by rw [late_of_empty hlast]; exact Bool.false_ne_true)]
  split
  · rfl
  · cases (d.removeGroup key).resolve key g with
    | none => rfl
    | some result => rfl

/-! ## Where a received packet is -/

/-- The packet, or one with its place, is in a pending group. -/
def Holds (d : Depacketizer) (p : RtpPacket) : Prop :=
  ∃ g, d.groups.lookup (p.ssrc, p.timestamp) = some g ∧ g.contains p.seq = true

/-- The event is about the packet or a group that has its place. -/
def Covers (e : Event) (p : RtpPacket) : Prop :=
  match e with
  | .resolved key g _ => key = (p.ssrc, p.timestamp) ∧ g.contains p.seq = true
  | .refused q => q = p
  | .cleared groups => ∃ g, ((p.ssrc, p.timestamp), g) ∈ groups ∧ g.contains p.seq = true

theorem contains_of_prefix {g g' : Group} {seq : UInt16}
    (h : g.packets <+: g'.packets) (hc : g.contains seq = true) : g'.contains seq = true := by
  unfold Group.contains at hc ⊢
  obtain ⟨p, hp, hseq⟩ := List.any_eq_true.1 hc
  exact List.any_eq_true.2 ⟨p, h.subset hp, hseq⟩

/-- Removing a group leaves the packets of the others where they are. -/
theorem Holds.removeGroup {d : Depacketizer} {p : RtpPacket} (h : Holds d p) (key : Key)
    (d' : Depacketizer) (hgroups : d'.groups = (d.removeGroup key).groups) :
    Holds d' p ∨ key = (p.ssrc, p.timestamp) := by
  obtain ⟨g, hg, hc⟩ := h
  by_cases hsame : (p.ssrc, p.timestamp) = key
  · exact Or.inr hsame.symm
  · refine Or.inl ⟨g, ?_, hc⟩
    rw [hgroups]
    exact (AList.lookup_erase_ne hsame).trans hg

/-- A step keeps a packet in its pending group or has an event that covers it. -/
theorem Holds.emits {d d' : Depacketizer} {e : Event} {p : RtpPacket} (h : Holds d p)
    (hstep : Emits d e d') : Holds d' p ∨ Covers e p := by
  have hlookup : ∀ key g, d.groups.lookup key = some g → key = (p.ssrc, p.timestamp) →
      g.contains p.seq = true := by
    intro key g hg hkey
    obtain ⟨g', hg', hc⟩ := h
    rw [hkey, hg'] at hg
    cases hg
    exact hc
  cases hstep with
  | @late key g hg _ =>
      rcases h.removeGroup key ({ d.removeGroup key with dropped := d.dropped + 1 }.count
        .lateTimestamp) rfl with hheld | hkey
      · exact Or.inl hheld
      · exact Or.inr ⟨hkey, hlookup key g hg hkey⟩
  | @due key g _ _ hg _ hsettles =>
      rcases h.removeGroup key _ hsettles.groups with hheld | hkey
      · exact Or.inl hheld
      · exact Or.inr ⟨hkey, hlookup key g hg hkey⟩
  | @evicted key g hg =>
      rcases h.removeGroup key ((d.removeGroup key).recordLoss .groupLimit) rfl with
        hheld | hkey
      · exact Or.inl hheld
      · exact Or.inr ⟨hkey, hlookup key g hg hkey⟩
  | @overflow key g hold =>
      rcases h.removeGroup key ((d.removeGroup key).recordLoss .byteLimit) rfl with
        hheld | hkey
      · exact Or.inl hheld
      · obtain ⟨g', hg', hc⟩ := h
        rw [← hkey] at hg'
        exact Or.inr ⟨hkey, contains_of_prefix (hold g' hg') hc⟩
  | refused q => exact Or.inl h
  | handoff ssrc =>
      obtain ⟨g, hg, hc⟩ := h
      refine Or.inr ⟨g, ?_, hc⟩
      exact List.mem_map.2 ⟨⟨_, g⟩, AList.mem_lookup_iff.1 hg, rfl⟩

theorem Holds.run {d d' : Depacketizer} {events : List Event} {p : RtpPacket} (h : Holds d p)
    (hrun : Run d events d') : Holds d' p ∨ ∃ e ∈ events, Covers e p := by
  induction hrun with
  | done d => exact Or.inl h
  | quiet hstep _ ih =>
      obtain ⟨g, hg, hc⟩ := h
      obtain ⟨g', hg', hpre⟩ := hstep.grows _ g hg
      exact ih ⟨g', hg', contains_of_prefix hpre hc⟩
  | event hstep _ ih =>
      rcases h.emits hstep with hheld | hcovers
      · rcases ih hheld with hheld | ⟨e, he, hcovers⟩
        · exact Or.inl hheld
        · exact Or.inr ⟨e, List.mem_cons_of_mem _ he, hcovers⟩
      · exact Or.inr ⟨_, List.mem_cons_self, hcovers⟩

/-! ## Pushing -/

def SameButCounters (d d' : Depacketizer) : Prop := ∃ counters, d' = { d with counters }

theorem SameButCounters.quiet {d d' : Depacketizer} (h : SameButCounters d d') : Quiet d d' := by
  obtain ⟨counters, rfl⟩ := h
  exact .ofGroups rfl rfl rfl rfl rfl rfl

theorem SameButCounters.safe {d d' : Depacketizer} (h : SameButCounters d d') (hd : Safe d) :
    Safe d' := by
  obtain ⟨counters, rfl⟩ := h
  exact ⟨hd.tiles, hd.params, hd.groups, hd.observed⟩

theorem SameButCounters.count {d d' : Depacketizer} (h : SameButCounters d d') (name : Counter) :
    SameButCounters d (d'.count name) := by
  obtain ⟨counters, rfl⟩ := h
  exact ⟨_, rfl⟩

theorem SameButCounters.countIf {d d' : Depacketizer} (h : SameButCounters d d') (c : Bool)
    (name : Counter) : SameButCounters d (d'.countIf c name) := by
  obtain ⟨counters, rfl⟩ := h
  exact ⟨_, rfl⟩

theorem countHeader_same (d : Depacketizer) (p : RtpPacket) :
    SameButCounters d (d.countHeader p) := by
  have hstart : SameButCounters d d := ⟨d.counters, rfl⟩
  have hheader := (((hstart.count .packets).countIf p.marker .markers).countIf
    (p.payload.head? == some 0x92) .avcConfigMarker).countIf
    (p.payload.head?.any fun b => b &&& 31 == 28) .avcFuAHeader
  unfold Depacketizer.countHeader
  split
  · exact (hheader.countIf _ _).countIf _ _
  · exact hheader

theorem inferFraming_safe {ssrc : UInt32} {s : SourceObservation} (h : SafeObservation ssrc s)
    (payload : List UInt8) : SafeObservation ssrc (Depacketizer.inferFraming s payload) := by
  unfold Depacketizer.inferFraming
  split
  · rename_i params happle _
    exact ⟨headed_parseParameterAp headed_nil happle, h.prefixBytes, h.prefixPackets⟩
  · rename_i params _ hstandard
    exact ⟨headed_parseParameterAp headed_nil hstandard, h.prefixBytes, h.prefixPackets⟩
  · exact h

theorem Safe.insertObserved {d : Depacketizer} (h : Safe d) {ssrc : UInt32}
    {s : SourceObservation} (hs : SafeObservation ssrc s) :
    Safe { d with observed := d.observed.insert ssrc s } where
  tiles := h.tiles
  params := h.params
  groups := h.groups
  observed other s' hs' := by
    rcases of_lookup_insert hs' with ⟨rfl, rfl⟩ | ⟨-, hold⟩
    · exact hs
    · exact h.observed other s' hold

theorem observation_safe {d : Depacketizer} (h : Safe d) (ssrc : UInt32) :
    SafeObservation ssrc ((d.observed.lookup ssrc).getD Depacketizer.unobserved) := by
  cases hs : d.observed.lookup ssrc with
  | some s => exact h.observed ssrc s hs
  | none => exact ⟨headed_nil, rfl, fun p hp => by cases hp⟩

theorem observe_quiet {d : Depacketizer} (h : Safe d) {p : RtpPacket}
    (hp : 2 ≤ p.payload.length) (now : Nat) :
    ∃ d', d.observe p now = some d' ∧ Quiet d d' ∧ Safe d' ∧ d'.sources = d.sources := by
  unfold Depacketizer.observe
  split
  · rw [nalKind_eq _ (by omega), Option.bind_some]
    refine ⟨_, rfl, .ofGroups rfl rfl rfl rfl rfl rfl, h.insertObserved ?_, rfl⟩
    have hs := observation_safe h p.ssrc
    generalize (d.observed.lookup p.ssrc).getD Depacketizer.unobserved = s at hs ⊢
    have hseen : SafeObservation p.ssrc { s with packets := s.packets + 1, last := now } :=
      ⟨hs.params, hs.prefixBytes, hs.prefixPackets⟩
    split
    · exact inferFraming_safe hseen p.payload
    · exact hseen
  · exact ⟨d, rfl, .ofGroups rfl rfl rfl rfl rfl rfl, h, rfl⟩

theorem evictPrefix_isSome {size : Nat} (hsize : size ≤ maxCandidateBytes)
    (queue : List RtpPacket) :
    ∃ held, held <:+ queue ∧
      Depacketizer.evictPrefix size queue (queue.map fun p => p.payload.length).sum =
        some (held, (held.map fun p => p.payload.length).sum) := by
  induction queue with
  | nil =>
      refine ⟨[], List.suffix_refl _, ?_⟩
      unfold Depacketizer.evictPrefix
      exact if_neg (by simpa using hsize)
  | cons old rest ih =>
      unfold Depacketizer.evictPrefix
      split
      · obtain ⟨held, hheld, hevict⟩ := ih
        have hsub : sub64 ((old :: rest).map fun p => p.payload.length).sum old.payload.length =
            some (rest.map fun p => p.payload.length).sum := by
          rw [List.map_cons, List.sum_cons, sub64, if_pos (Nat.le_add_right _ _),
            Nat.add_sub_cancel_left]
        rw [hsub, Option.bind_some, hevict]
        exact ⟨held, hheld.trans (List.suffix_cons _ _), rfl⟩
      · exact ⟨old :: rest, List.suffix_refl _, rfl⟩

theorem hold_quiet {d : Depacketizer} (h : Safe d) (p : RtpPacket) :
    ∃ d', d.hold p = some d' ∧ Quiet d d' ∧ Safe d' := by
  have hcount : Safe (d.count .unknownSource) := ⟨h.tiles, h.params, h.groups, h.observed⟩
  unfold Depacketizer.hold
  dsimp only
  by_cases hfits : (d.count .unknownSource).tiles = 1 ∧ p.payload.length ≤ maxCandidateBytes
  · rw [if_pos hfits]
    cases hs : (d.count .unknownSource).observed.lookup p.ssrc with
    | none => exact ⟨_, rfl, .ofGroups rfl rfl rfl rfl rfl rfl, hcount⟩
    | some s =>
        have hsafe := h.observed p.ssrc s hs
        obtain ⟨held, hheld, hevict⟩ := evictPrefix_isSome hfits.2 s.prefixPackets
        dsimp only
        rw [hsafe.prefixBytes, hevict, Option.map_some]
        refine ⟨_, rfl, .ofGroups rfl rfl rfl rfl rfl rfl, hcount.insertObserved ?_⟩
        refine ⟨hsafe.params, by simp, ?_⟩
        intro q hq
        rcases List.mem_append.1 hq with hold | hnew
        · exact hsafe.prefixPackets q (hheld.subset hold)
        · rw [List.mem_singleton.1 hnew]
  · rw [if_neg hfits]
    exact ⟨_, rfl, .ofGroups rfl rfl rfl rfl rfl rfl, hcount⟩

theorem select_run {d : Depacketizer} (h : Safe d) (p : RtpPacket) (now : Nat) :
    ∃ s, d.select p now = some s ∧ Run d s.events s.state ∧ Safe s.state ∧
      (s.selected = true → p.ssrc ∈ s.state.sources) := by
  unfold Depacketizer.select
  by_cases hknown : p.ssrc ∈ d.sources
  · rw [if_pos hknown]
    exact ⟨_, rfl, .done d, h, fun _ => hknown⟩
  rw [if_neg hknown]
  by_cases hfull : d.tiles ≤ d.sources.length
  · rw [if_pos hfull]
    have hactive : 0 < d.sources.length := h.tiles.trans_le hfull
    obtain ⟨replace, hreplace⟩ : ∃ replace, d.handoffDue p now = some replace := by
      unfold Depacketizer.handoffDue
      split
      · rw [List.getElem?_eq_getElem hactive]
        exact ⟨_, rfl⟩
      · exact ⟨_, rfl⟩
    rw [hreplace, Option.bind_some]
    cases replace with
    | true =>
        refine ⟨_, rfl, .ofEvent (.handoff p.ssrc), ?_, fun _ => List.mem_singleton_self _⟩
        refine ⟨h.tiles, headed_nil, ?_, h.observed⟩
        intro key g hg
        cases hg
    | false =>
        obtain ⟨d', hhold, hquiet, hsafe⟩ := hold_quiet h p
        rw [hhold]
        exact ⟨_, rfl, .ofQuiet hquiet, hsafe, fun hfalse => by cases hfalse⟩
  · rw [if_neg hfull]
    refine ⟨_, rfl, .ofQuiet (.ofGroups rfl rfl rfl rfl rfl rfl), ?_, fun _ => ?_⟩
    · refine ⟨h.tiles, h.params, fun key g hg => ?_, h.observed⟩
      apply (List.mem_insertionSort _).2
      exact List.mem_append_left _ (h.groups key g hg)
    · apply (List.mem_insertionSort _).2
      exact List.mem_append_right _ (List.mem_singleton_self _)

theorem takePrefix_quiet {d : Depacketizer} (h : Safe d) (ssrc : UInt32) :
    Quiet d (d.takePrefix ssrc).2 ∧ Safe (d.takePrefix ssrc).2 ∧
      (d.takePrefix ssrc).2.sources = d.sources ∧
      ∀ p ∈ (d.takePrefix ssrc).1, p.ssrc = ssrc := by
  unfold Depacketizer.takePrefix
  cases hs : d.observed.lookup ssrc with
  | none => exact ⟨.ofGroups rfl rfl rfl rfl rfl rfl, h, rfl, fun p hp => by cases hp⟩
  | some s =>
      have hsafe := h.observed ssrc s hs
      refine ⟨.ofGroups rfl rfl rfl rfl rfl rfl, h.insertObserved ?_, rfl, hsafe.prefixPackets⟩
      exact ⟨hsafe.params, rfl, fun p hp => by cases hp⟩

theorem prepare_quiet {d : Depacketizer} (h : Safe d) (ssrc : UInt32) (now : Nat) :
    Quiet d (d.prepare ssrc now) ∧ Safe (d.prepare ssrc now) := by
  refine ⟨.ofGroups rfl rfl rfl rfl rfl rfl, h.tiles, ?_, h.groups, h.observed⟩
  apply headed_foldl_storeParam h.params
  cases hs : d.observed.lookup ssrc with
  | none => exact headed_nil
  | some s => exact (h.observed ssrc s hs).params

theorem add_packets_prefix (g : Group) (p : RtpPacket) (now : Nat) :
    g.packets <+: (g.add p now).packets := by
  unfold Group.add
  split
  · exact List.prefix_refl _
  · exact List.prefix_append _ _

theorem add_contains (g : Group) (p : RtpPacket) (now : Nat) :
    (g.add p now).contains p.seq = true := by
  unfold Group.add
  split
  · assumption
  · simp [Group.contains]

theorem lookup_evicted {d : Depacketizer} {hint : Key} {e : Sigma fun _ : Key => Group}
    (h : (d.oldest.find? fun e => e.1 = hint).or d.oldest.head? = some e) :
    d.groups.lookup e.1 = some e.2 := by
  have hmem : e ∈ d.oldest := by
    rcases Option.or_eq_some_iff.1 h with hfind | ⟨_, hhead⟩
    · exact List.mem_of_find?_eq_some hfind
    · exact List.mem_of_head? hhead
  exact AList.mem_lookup_iff.2 (List.mem_of_mem_filter hmem)

theorem evictGroup_run {d : Depacketizer} (h : Safe d) (hint : Key) :
    Run d (d.evictGroup hint).1 (d.evictGroup hint).2 ∧ Safe (d.evictGroup hint).2 ∧
      (d.evictGroup hint).2.sources = d.sources ∧
      ∀ e ∈ (d.evictGroup hint).1, FromSources d.sources e := by
  unfold Depacketizer.evictGroup
  cases hold : (d.oldest.find? fun e => e.1 = hint).or d.oldest.head? with
  | none => exact ⟨.done d, h, rfl, fun e he => by cases he⟩
  | some e =>
      have hlookup := lookup_evicted hold
      have hsafe := h.removeGroup e.1
      refine ⟨.ofEvent (.evicted hlookup),
        ⟨hsafe.tiles, hsafe.params, hsafe.groups, hsafe.observed⟩, rfl, ?_⟩
      exact List.forall_mem_singleton.2 (h.groups e.1 e.2 hlookup)

/-- The packet is pending or settled by one of the events. -/
def Accounted (events : List Event) (d : Depacketizer) (p : RtpPacket) : Prop :=
  Holds d p ∨ ∃ e ∈ events, Covers e p

theorem Accounted.append {events later : List Event} {d d' : Depacketizer} {p : RtpPacket}
    (h : Accounted events d p) (hrun : Run d later d') : Accounted (events ++ later) d' p := by
  rcases h with hheld | ⟨e, he, hcovers⟩
  · rcases hheld.run hrun with hheld | ⟨e, he, hcovers⟩
    · exact Or.inl hheld
    · exact Or.inr ⟨e, List.mem_append_right _ he, hcovers⟩
  · exact Or.inr ⟨e, List.mem_append_left _ he, hcovers⟩

theorem Accounted.prepend {events : List Event} {d : Depacketizer} {p : RtpPacket}
    (h : Accounted events d p) (earlier : List Event) : Accounted (earlier ++ events) d p := by
  rcases h with hheld | ⟨e, he, hcovers⟩
  · exact Or.inl hheld
  · exact Or.inr ⟨e, List.mem_append_right _ he, hcovers⟩

/-- A packet of a selected source goes into its group, or takes it over the limit. -/
theorem insertPacket_run {d : Depacketizer} (h : Safe d) (p : RtpPacket) (now : Nat)
    (hsource : p.ssrc ∈ d.sources) :
    Run d (d.insertPacket p now).1 (d.insertPacket p now).2 ∧ Safe (d.insertPacket p now).2 ∧
      (d.insertPacket p now).2.sources = d.sources ∧
      (∀ e ∈ (d.insertPacket p now).1, FromSources d.sources e) ∧
      Accounted (d.insertPacket p now).1 (d.insertPacket p now).2 p := by
  unfold Depacketizer.insertPacket
  dsimp only
  generalize hg : ((d.groups.lookup (p.ssrc, p.timestamp)).getD
    (Group.new now d.nextGroup)).add p now = g
  have hcontains : g.contains p.seq = true := hg ▸ add_contains _ p now
  have hold : ∀ old, d.groups.lookup (p.ssrc, p.timestamp) = some old →
      old.packets <+: g.packets := by
    intro old hlookup
    rw [← hg, hlookup, Option.getD_some]
    exact add_packets_prefix old p now
  have hstamp : Quiet d { d with nextGroup := d.nextGroup + 1 } :=
    .ofGroups rfl rfl rfl rfl rfl rfl
  split
  · have hsafe := h.removeGroup (p.ssrc, p.timestamp)
    refine ⟨.quiet hstamp (.ofEvent (.overflow hold)), ?_, rfl,
      List.forall_mem_singleton.2 hsource, ?_⟩
    · exact ⟨hsafe.tiles, hsafe.params, hsafe.groups, hsafe.observed⟩
    · exact Or.inr ⟨_, List.mem_singleton_self _, rfl, hcontains⟩
  · refine ⟨.ofQuiet ⟨rfl, rfl, rfl, rfl, rfl, ?_⟩, ⟨h.tiles, h.params, ?_, h.observed⟩, rfl,
      (fun e he => by cases he), ?_⟩
    · intro key old hlookup
      by_cases hsame : key = (p.ssrc, p.timestamp)
      · subst hsame
        exact ⟨g, AList.lookup_insert _, hold old hlookup⟩
      · exact ⟨old, (AList.lookup_insert_ne hsame).trans hlookup, List.prefix_refl _⟩
    · intro key g' hlookup
      rcases of_lookup_insert hlookup with ⟨rfl, -⟩ | ⟨-, hold⟩
      · exact hsource
      · exact h.groups key g' hold
    · exact Or.inl ⟨g, AList.lookup_insert _, hcontains⟩

theorem place_run (tieBreak : Nat → Key) {d : Depacketizer} (h : Safe d) (p : RtpPacket)
    (now : Nat) (hsource : p.ssrc ∈ d.sources) :
    Run d (d.place tieBreak p now).1 (d.place tieBreak p now).2 ∧
      Safe (d.place tieBreak p now).2 ∧ (d.place tieBreak p now).2.sources = d.sources ∧
      (∀ e ∈ (d.place tieBreak p now).1, FromSources d.sources e) ∧
      Accounted (d.place tieBreak p now).1 (d.place tieBreak p now).2 p := by
  unfold Depacketizer.place
  dsimp only
  split
  · refine ⟨.ofEvent (.refused p), ⟨h.tiles, h.params, h.groups, h.observed⟩, rfl,
      List.forall_mem_singleton.2 hsource, ?_⟩
    exact Or.inr ⟨_, List.mem_singleton_self _, rfl⟩
  · generalize hevicted : (if AList.lookup (p.ssrc, p.timestamp) d.groups = none ∧
        maxGroups ≤ d.groups.keys.length then d.evictGroup (tieBreak d.nextGroup)
        else ([], d)) = evicted
    have hevict : Run d evicted.1 evicted.2 ∧ Safe evicted.2 ∧
        evicted.2.sources = d.sources ∧ ∀ e ∈ evicted.1, FromSources d.sources e := by
      rw [← hevicted]
      split
      · exact evictGroup_run h _
      · exact ⟨.done d, h, rfl, fun e he => by cases he⟩
    obtain ⟨hrun, hsafe, hsources, hfrom⟩ := hevict
    rcases insertPacket_run hsafe p now (hsources ▸ hsource) with
      ⟨hrun', hsafe', hsources', hfrom', haccounted⟩
    rw [hsources] at hsources' hfrom'
    exact ⟨hrun.append hrun', hsafe', hsources', List.forall_mem_append.2 ⟨hfrom, hfrom'⟩,
      haccounted.prepend _⟩

theorem pushSelected_run (tieBreak : Nat → Key) {d : Depacketizer} (h : Safe d) (p : RtpPacket)
    (now : Nat) (hsource : p.ssrc ∈ d.sources) :
    ∃ events d', d.pushSelected tieBreak p now = some (events, d') ∧ Run d events d' ∧ Safe d' ∧
      d'.sources = d.sources ∧ (∀ e ∈ events, FromSources d.sources e) ∧
      Accounted events d' p := by
  obtain ⟨hquiet, hsafe⟩ := prepare_quiet h p.ssrc now
  obtain ⟨hrun, hsafe', hsources, hfrom, haccounted⟩ := place_run tieBreak hsafe p now hsource
  obtain ⟨events, d', hpoll, hrun', hsafe'', hsources', hfrom'⟩ := poll_run now hsafe'
  rw [hsources] at hsources' hfrom'
  unfold Depacketizer.pushSelected
  dsimp only
  rw [hpoll]
  exact ⟨_, d', rfl, .quiet hquiet (hrun.append hrun'), hsafe'', hsources',
    List.forall_mem_append.2 ⟨hfrom, hfrom'⟩, haccounted.append hrun'⟩

theorem pushAll_run (tieBreak : Nat → Key) {d : Depacketizer} (h : Safe d) (now : Nat)
    {queue : List RtpPacket} (hsource : ∀ p ∈ queue, p.ssrc ∈ d.sources) :
    ∃ events d', d.pushAll tieBreak now queue = some (events, d') ∧ Run d events d' ∧ Safe d' ∧
      d'.sources = d.sources ∧ (∀ e ∈ events, FromSources d.sources e) ∧
      ∀ p ∈ queue, Accounted events d' p := by
  induction queue generalizing d with
  | nil =>
      exact ⟨[], d, rfl, .done d, h, rfl, (fun e he => by cases he), fun p hp => by cases hp⟩
  | cons p rest ih =>
      rcases pushSelected_run tieBreak h p now (hsource p (by simp)) with
        ⟨events, d₁, hpush, hrun, hsafe, hsources, hfrom, haccounted⟩
      have hrest : ∀ q ∈ rest, q.ssrc ∈ d₁.sources := by
        rw [hsources]
        exact fun q hq => hsource q (List.mem_cons_of_mem _ hq)
      obtain ⟨later, d', hall, hrun', hsafe', hsources', hfrom', haccounted'⟩ := ih hsafe hrest
      rw [hsources] at hsources' hfrom'
      unfold Depacketizer.pushAll
      rw [hpush]
      dsimp only
      rw [hall]
      refine ⟨_, d', rfl, hrun.append hrun', hsafe', hsources',
        List.forall_mem_append.2 ⟨hfrom, hfrom'⟩, ?_⟩
      intro q hq
      rcases List.mem_cons.1 hq with rfl | hq
      · exact haccounted.append hrun'
      · exact (haccounted' q hq).prepend events

def OnlySource (ssrc : UInt32) (d : Depacketizer) : Prop := ∀ other ∈ d.sources, other = ssrc

theorem FromSources.only {ssrc : UInt32} {d : Depacketizer} (honly : OnlySource ssrc d)
    {e : Event} (h : FromSources d.sources e) : FromSources [ssrc] e := by
  cases e with
  | resolved key g outcome => exact List.mem_singleton.2 (honly key.1 h)
  | refused p => exact List.mem_singleton.2 (honly p.ssrc h)
  | cleared groups => exact h

theorem select_only {d : Depacketizer} (h : Safe d) {p : RtpPacket} (honly : OnlySource p.ssrc d)
    (now : Nat) {s : Selection} (hs : d.select p now = some s) :
    s.selected = true ∧ s.events = [] ∧ OnlySource p.ssrc s.state := by
  unfold Depacketizer.select at hs
  by_cases hknown : p.ssrc ∈ d.sources
  · rw [if_pos hknown] at hs
    cases hs
    exact ⟨rfl, rfl, honly⟩
  · have hnone : d.sources = [] := by
      apply List.eq_nil_iff_forall_not_mem.2
      intro other hother
      exact hknown (honly other hother ▸ hother)
    have hroom : ¬d.tiles ≤ d.sources.length := by
      rw [hnone]
      exact Nat.not_le.2 h.tiles
    rw [if_neg hknown, if_neg hroom] at hs
    cases hs
    refine ⟨rfl, rfl, fun other hother => ?_⟩
    rw [hnone] at hother
    exact List.mem_singleton.1 hother

/-- A call of `push` is a trace; while its source is the only one selected, all
events are about that source and the packet is accounted for. -/
theorem push_run (tieBreak : Nat → Key) {d : Depacketizer} (h : Safe d) (p : RtpPacket)
    (now : Nat) :
    ∃ events d', d.push tieBreak p now = some (events, d') ∧ Run d events d' ∧ Safe d' ∧
      (OnlySource p.ssrc d → OnlySource p.ssrc d' ∧ (∀ e ∈ events, FromSources [p.ssrc] e) ∧
        (2 ≤ p.payload.length → Accounted events d' p)) := by
  have hheader := countHeader_same d p
  have hsources₀ : (d.countHeader p).sources = d.sources := by
    obtain ⟨counters, hsame⟩ := hheader
    rw [hsame]
  unfold Depacketizer.push
  dsimp only
  by_cases hshort : p.payload.length < 2
  · rw [if_pos hshort]
    have hcount := hheader.count .short
    obtain ⟨events, d', hpoll, hrun, hsafe, hsources, hfrom⟩ := poll_run now (hcount.safe h)
    rw [show ((d.countHeader p).count .short).sources = d.sources from hsources₀] at hsources hfrom
    rw [hpoll]
    refine ⟨events, d', rfl, .quiet hcount.quiet hrun, hsafe, fun honly => ⟨?_, ?_, ?_⟩⟩
    · intro other hother
      exact honly other (hsources ▸ hother)
    · exact fun e he => (hfrom e he).only honly
    · intro hlong
      omega
  rw [if_neg hshort]
  rcases observe_quiet (hheader.safe h) (Nat.not_lt.1 hshort) now with
    ⟨d₁, hobserve, hquiet, hsafe₁, hsources₁⟩
  rw [hsources₀] at hsources₁
  rw [hobserve, Option.bind_some]
  obtain ⟨s, hselect, hrun₁, hsafe₂, hselected⟩ := select_run hsafe₁ p now
  have hprepare : Run d s.events s.state := .quiet hheader.quiet (.quiet hquiet hrun₁)
  have hchoice : OnlySource p.ssrc d →
      s.selected = true ∧ s.events = [] ∧ OnlySource p.ssrc s.state := by
    intro honly
    apply select_only hsafe₁ _ now hselect
    intro other hother
    exact honly other (hsources₁ ▸ hother)
  rw [hselect, Option.bind_some]
  by_cases hchosen : s.selected = true
  · rw [if_pos hchosen]
    obtain ⟨hquiet₃, hsafe₃, hsources₃, hprior⟩ := takePrefix_quiet hsafe₂ p.ssrc
    have hmember : ∀ q ∈ (s.state.takePrefix p.ssrc).1 ++ [p],
        q.ssrc ∈ (s.state.takePrefix p.ssrc).2.sources := by
      intro q hq
      rw [hsources₃]
      rcases List.mem_append.1 hq with hold | hnew
      · rw [hprior q hold]
        exact hselected hchosen
      · rw [List.mem_singleton.1 hnew]
        exact hselected hchosen
    rcases pushAll_run tieBreak hsafe₃ now hmember with
      ⟨events, d', hall, hrun, hsafe', hsources', hfrom, haccounted⟩
    rw [hsources₃] at hsources' hfrom
    rw [hall]
    refine ⟨_, d', rfl, hprepare.append (.quiet hquiet₃ hrun), hsafe', fun honly => ⟨?_, ?_, ?_⟩⟩
    · intro other hother
      exact (hchoice honly).2.2 other (hsources' ▸ hother)
    · rw [(hchoice honly).2.1]
      exact fun e he => (hfrom e he).only (hchoice honly).2.2
    · intro _
      exact (haccounted p (by simp)).prepend s.events
  · rw [if_neg hchosen]
    obtain ⟨events, d', hpoll, hrun, hsafe', _⟩ := poll_run now hsafe₂
    rw [hpoll]
    refine ⟨_, d', rfl, hprepare.append hrun, hsafe', fun honly => ?_⟩
    exact absurd (hchoice honly).1 hchosen

/-! ## Whole runs -/

theorem safe_new (tileCount : Nat) : Safe (Depacketizer.new tileCount) where
  tiles := by
    show 0 < max 1 (min tileCount 16)
    omega
  params := headed_nil
  groups key g hg := by cases hg
  observed ssrc s hs := by cases hs

theorem step_run (tieBreak : Nat → Key) {d : Depacketizer} (h : Safe d) (op : Op) :
    ∃ events d', d.step tieBreak op = some (events, d') ∧ Run d events d' ∧ Safe d' := by
  cases op with
  | push p now =>
      obtain ⟨events, d', hpush, hrun, hsafe, _⟩ := push_run tieBreak h p now
      exact ⟨events, d', hpush, hrun, hsafe⟩
  | poll now =>
      obtain ⟨events, d', hpoll, hrun, hsafe, _⟩ := poll_run now h
      exact ⟨events, d', hpoll, hrun, hsafe⟩

theorem run_cons {tieBreak : Nat → Key} {d m d' : Depacketizer} {op : Op} {ops : List Op}
    {events later : List Event} (hstep : d.step tieBreak op = some (events, m))
    (hrest : m.run tieBreak ops = some (later, d')) :
    d.run tieBreak (op :: ops) = some (events ++ later, d') := by
  unfold Depacketizer.run
  rw [hstep]
  dsimp only
  rw [hrest]
  rfl

theorem run_cons_inv {tieBreak : Nat → Key} {d d' : Depacketizer} {op : Op} {ops : List Op}
    {events : List Event} (h : d.run tieBreak (op :: ops) = some (events, d')) :
    ∃ first m later, d.step tieBreak op = some (first, m) ∧
      m.run tieBreak ops = some (later, d') ∧ events = first ++ later := by
  unfold Depacketizer.run at h
  cases hstep : d.step tieBreak op with
  | none =>
      rw [hstep] at h
      cases h
  | some result =>
      rw [hstep] at h
      obtain ⟨⟨later, last⟩, hlater, heq⟩ := Option.map_eq_some_iff.1 h
      cases heq
      exact ⟨result.1, result.2, later, rfl, hlater, rfl⟩

theorem run_append (tieBreak : Nat → Key) {d m d' : Depacketizer} {ops ops' : List Op}
    {events later : List Event} (h : d.run tieBreak ops = some (events, m))
    (h' : m.run tieBreak ops' = some (later, d')) :
    d.run tieBreak (ops ++ ops') = some (events ++ later, d') := by
  induction ops generalizing d events with
  | nil =>
      cases h
      exact h'
  | cons op ops ih =>
      obtain ⟨first, middle, rest, hstep, hrest, rfl⟩ := run_cons_inv h
      rw [List.append_assoc]
      exact run_cons hstep (ih hrest)

/-- No run panics or hangs, whatever packets arrive and whenever, and every run
is a trace. -/
theorem run_trace (tieBreak : Nat → Key) {d : Depacketizer} (h : Safe d) (ops : List Op) :
    ∃ events d', d.run tieBreak ops = some (events, d') ∧ Run d events d' ∧ Safe d' := by
  induction ops generalizing d with
  | nil => exact ⟨[], d, rfl, .done d, h⟩
  | cons op ops ih =>
      obtain ⟨events, d₁, hstep, hrun, hsafe⟩ := step_run tieBreak h op
      obtain ⟨later, d', hrest, hrun', hsafe'⟩ := ih hsafe
      exact ⟨_, d', run_cons hstep hrest, hrun.append hrun', hsafe'⟩

/-- While one source sends, all events are about it and every packet with a header
is accounted for. -/
theorem run_single (tieBreak : Nat → Key) {ssrc : UInt32} {d : Depacketizer} (h : Safe d)
    (honly : OnlySource ssrc d) {ops : List Op}
    (hops : ∀ p now, Op.push p now ∈ ops → p.ssrc = ssrc) {events : List Event}
    {d' : Depacketizer} (hrun : d.run tieBreak ops = some (events, d')) :
    (∀ e ∈ events, FromSources [ssrc] e) ∧
      ∀ p now, Op.push p now ∈ ops → 2 ≤ p.payload.length → Accounted events d' p := by
  induction ops generalizing d events with
  | nil =>
      cases hrun
      exact ⟨fun e he => (by cases he), fun p now hmem => by cases hmem⟩
  | cons op ops ih =>
      obtain ⟨first, d₁, hstep, hsafe, honly₁, hfrom, hfirst⟩ :
          ∃ first d₁, d.step tieBreak op = some (first, d₁) ∧ Safe d₁ ∧ OnlySource ssrc d₁ ∧
            (∀ e ∈ first, FromSources [ssrc] e) ∧
            ∀ p now, op = .push p now → 2 ≤ p.payload.length → Accounted first d₁ p := by
        cases op with
        | push p now =>
            have hp := hops p now (by simp)
            subst hp
            obtain ⟨first, d₁, hpush, _, hsafe, hsingle⟩ := push_run tieBreak h p now
            obtain ⟨honly₁, hfrom, haccounted⟩ := hsingle honly
            refine ⟨first, d₁, hpush, hsafe, honly₁, hfrom, fun q _ hq => ?_⟩
            cases hq
            exact haccounted
        | poll now =>
            obtain ⟨first, d₁, hpoll, _, hsafe, hsources, hfrom⟩ := poll_run now h
            refine ⟨first, d₁, hpoll, hsafe, ?_, ?_, fun q _ hq => by cases hq⟩
            · intro other hother
              exact honly other (hsources ▸ hother)
            · exact fun e he => (hfrom e he).only honly
      obtain ⟨later, d₂, hrest, htrace, _⟩ := run_trace tieBreak hsafe ops
      rw [run_cons hstep hrest] at hrun
      cases hrun
      have hops' : ∀ p now, Op.push p now ∈ ops → p.ssrc = ssrc :=
        fun p now hmem => hops p now (List.mem_cons_of_mem _ hmem)
      obtain ⟨hfrom', haccounted'⟩ := ih hsafe honly₁ hops' hrest
      refine ⟨List.forall_mem_append.2 ⟨hfrom, hfrom'⟩, fun p now hmem hlong => ?_⟩
      rcases List.mem_cons.1 hmem with heq | hmem
      · exact (hfirst p now heq.symm hlong).append htrace
      · exact (haccounted' p now hmem hlong).prepend first

end MacVnc.Media.DepacketizeTrace

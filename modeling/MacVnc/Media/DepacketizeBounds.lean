import MacVnc.Lib.WeightedMap
import MacVnc.Media.DepacketizeFrame
import Mathlib.Data.List.MinMax
/-!
# What the depacketizer holds

The limits on everything that grows with the packets: sources, pending groups and
their bytes, parameter sets, observed sources and candidate queues.  Every operation
keeps them, so they hold after every call, whatever was pushed and whenever.
-/

namespace MacVnc.Media.DepacketizeBounds

open MacVnc.Lib.WeightedMap
open MacVnc.Media.Srtp (RtpPacket sub64)
open MacVnc.Media.Depacketize
open MacVnc.Media.DepacketizeGroup
open MacVnc.Media.DepacketizeTrace
open MacVnc.Media.DepacketizeFrame

def payloadBytes (packets : List RtpPacket) : Nat := (packets.map fun p => p.payload.length).sum

structure BoundedGroup (g : Group) : Prop where
  bytes : g.bytes = payloadBytes g.packets
  byteLimit : g.bytes ≤ maxGroupBytes
  packetLimit : g.packets.length ≤ 8192

structure BoundedObservation (s : SourceObservation) : Prop where
  prefixBytes : s.prefixBytes = payloadBytes s.prefixPackets
  byteLimit : s.prefixBytes ≤ maxCandidateBytes
  packetLimit : s.prefixPackets.length ≤ maxCandidatePackets

/-- The limits of a depacketizer for this many tiles. -/
structure Bounded (tiles : Nat) (d : Depacketizer) : Prop where
  tileCount : d.tiles = tiles
  sorted : d.sources.Pairwise (· < ·)
  sources : d.sources.length ≤ tiles
  selected : ∀ key g, d.groups.lookup key = some g → key.1 ∈ d.sources
  group : ∀ key g, d.groups.lookup key = some g → BoundedGroup g
  groups : d.groups.keys.length ≤ maxGroups
  pending : d.pendingBytes ≤ maxPendingBytes
  params : d.params.length ≤ 64
  observed : d.observed.keys.length ≤ 32
  observation : ∀ ssrc s, d.observed.lookup ssrc = some s → BoundedObservation s

theorem Bounded.same {tiles : Nat} {d d' : Depacketizer} (h : Bounded tiles d)
    (htiles : d'.tiles = d.tiles) (hsources : d'.sources = d.sources)
    (hgroups : d'.groups = d.groups) (hparams : d'.params = d.params)
    (hobserved : d'.observed = d.observed) : Bounded tiles d' where
  tileCount := htiles.trans h.tileCount
  sorted := by
    rw [hsources]
    exact h.sorted
  sources := by
    rw [hsources]
    exact h.sources
  selected := by
    rw [hsources, hgroups]
    exact h.selected
  group := by
    rw [hgroups]
    exact h.group
  groups := by
    rw [hgroups]
    exact h.groups
  pending := by
    rw [Depacketizer.pendingBytes, hgroups]
    exact h.pending
  params := by
    rw [hparams]
    exact h.params
  observed := by
    rw [hobserved]
    exact h.observed
  observation := by
    rw [hobserved]
    exact h.observation

theorem pendingBytes_eq (d : Depacketizer) : d.pendingBytes = total Group.bytes d.groups := rfl

theorem bounded_new (tileCount : Nat) :
    Bounded (Depacketizer.new tileCount).tiles (Depacketizer.new tileCount) where
  tileCount := rfl
  sorted := List.Pairwise.nil
  sources := Nat.zero_le _
  selected := nofun
  group := nofun
  groups := Nat.zero_le _
  pending := Nat.zero_le _
  params := Nat.zero_le _
  observed := Nat.zero_le _
  observation := nofun

/-! ## Polling -/

theorem Bounded.removeGroup {tiles : Nat} {d : Depacketizer} (h : Bounded tiles d) (key : Key) :
    Bounded tiles (d.removeGroup key) where
  tileCount := h.tileCount
  sorted := h.sorted
  sources := h.sources
  selected other g hg := h.selected other g (lookup_removeGroup hg).1
  group other g hg := h.group other g (lookup_removeGroup hg).1
  groups := (length_keys_erase_le key d.groups).trans h.groups
  pending := (total_erase_le Group.bytes key d.groups).trans h.pending
  params := h.params
  observed := h.observed
  observation := h.observation

theorem length_storeParam {params : List Nal} (h : params.length ≤ 64) (nal : Nal) :
    (storeParam params nal).length ≤ 64 := by
  unfold storeParam
  split
  · unfold insertParam
    split
    · exact h
    · rw [List.orderedInsert_length]
      omega
  · exact h

theorem length_foldl_storeParam {params : List Nal} (h : params.length ≤ 64) (nals : List Nal) :
    (nals.foldl storeParam params).length ≤ 64 := by
  induction nals generalizing params with
  | nil => exact h
  | cons nal rest ih => exact ih (length_storeParam h nal)

theorem Bounded.withParams {tiles : Nat} {d : Depacketizer} (h : Bounded tiles d)
    (nals : List Nal) : Bounded tiles { d with params := nals.foldl storeParam d.params } where
  tileCount := h.tileCount
  sorted := h.sorted
  sources := h.sources
  selected := h.selected
  group := h.group
  groups := h.groups
  pending := h.pending
  params := length_foldl_storeParam h.params nals
  observed := h.observed
  observation := h.observation

theorem Bounded.settles {tiles : Nat} {d d' : Depacketizer} {key : Key} {g : Group}
    {outcome : Outcome} (h : Bounded tiles d) (hsettles : Settles d key g outcome d') :
    Bounded tiles d' := by
  cases hsettles with
  | incomplete reason => exact h.same rfl rfl rfl rfl rfl
  | headless => exact (h.withParams _).same rfl rfl rfl rfl rfl
  | noSlices => exact (h.withParams _).same rfl rfl rfl rfl rfl
  | preKey => exact (h.withParams _).same rfl rfl rfl rfl rfl
  | emitted => exact (h.withParams _).same rfl rfl rfl rfl rfl

theorem pollLoop_bounded {tiles now : Nat} {d d' : Depacketizer} {keys : List Key}
    {events : List Event} (hsafe : Safe d) (h : Bounded tiles d)
    (hloop : d.pollLoop now keys = some (events, d')) : Bounded tiles d' := by
  induction keys generalizing d events with
  | nil =>
      cases hloop
      exact h
  | cons key keys ih =>
      cases pollLoop_inversion hsafe hloop with
      | late _ hsafe' hlater =>
          exact ih hsafe' ((h.removeGroup key).same rfl rfl rfl rfl rfl) hlater
      | waits => exact h
      | resolved _ _ hsettles hsafe' hlater =>
          exact ih hsafe' ((h.removeGroup key).settles hsettles) hlater

theorem poll_bounded {tiles now : Nat} {d d' : Depacketizer} {events : List Event}
    (hsafe : Safe d) (h : Bounded tiles d) (hpoll : d.poll now = some (events, d')) :
    Bounded tiles d' := by
  unfold Depacketizer.poll at hpoll
  split at hpoll
  · cases hpoll
    exact h
  · exact pollLoop_bounded hsafe h hpoll

/-! ## Observations -/

theorem Bounded.insertObserved {tiles : Nat} {d : Depacketizer} (h : Bounded tiles d)
    {ssrc : UInt32} {s : SourceObservation} (hs : BoundedObservation s)
    (hroom : (d.observed.lookup ssrc).isSome = true ∨ d.observed.keys.length < 32) :
    Bounded tiles { d with observed := d.observed.insert ssrc s } where
  tileCount := h.tileCount
  sorted := h.sorted
  sources := h.sources
  selected := h.selected
  group := h.group
  groups := h.groups
  pending := h.pending
  params := h.params
  observed := by
    rcases hroom with hknown | hfew
    · obtain ⟨old, hold⟩ := Option.isSome_iff_exists.1 hknown
      exact (length_keys_insert hold).trans_le h.observed
    · exact (length_keys_insert_le ssrc s d.observed).trans hfew
  observation := by
    intro other s' hs'
    rcases of_lookup_insert hs' with ⟨rfl, rfl⟩ | ⟨-, hold⟩
    · exact hs
    · exact h.observation other s' hold

theorem inferFraming_bounded {s : SourceObservation} (h : BoundedObservation s)
    (payload : List UInt8) : BoundedObservation (Depacketizer.inferFraming s payload) := by
  unfold Depacketizer.inferFraming
  split
  · exact ⟨h.prefixBytes, h.byteLimit, h.packetLimit⟩
  · exact ⟨h.prefixBytes, h.byteLimit, h.packetLimit⟩
  · exact h

theorem observe_bounded {tiles now : Nat} {d d' : Depacketizer} {p : RtpPacket}
    (h : Bounded tiles d) (hobserve : d.observe p now = some d') : Bounded tiles d' := by
  unfold Depacketizer.observe at hobserve
  split at hobserve
  · rename_i hroom
    obtain ⟨kind, _, heq⟩ := Option.bind_eq_some_iff.1 hobserve
    cases heq
    apply h.insertObserved _ hroom
    have hs : BoundedObservation ((d.observed.lookup p.ssrc).getD Depacketizer.unobserved) := by
      cases hlookup : d.observed.lookup p.ssrc with
      | some s => exact h.observation p.ssrc s hlookup
      | none => exact ⟨rfl, Nat.zero_le _, Nat.zero_le _⟩
    generalize (d.observed.lookup p.ssrc).getD Depacketizer.unobserved = s at hs ⊢
    have hseen : BoundedObservation { s with packets := s.packets + 1, last := now } :=
      ⟨hs.prefixBytes, hs.byteLimit, hs.packetLimit⟩
    split
    · exact inferFraming_bounded hseen p.payload
    · exact hseen
  · cases hobserve
    exact h

theorem evictPrefix_room {size : Nat} {queue held : List RtpPacket} {bytes left : Nat}
    (hbytes : bytes = payloadBytes queue)
    (hevict : Depacketizer.evictPrefix size queue bytes = some (held, left)) :
    left = payloadBytes held ∧ left + size ≤ maxCandidateBytes ∧
      held.length < maxCandidatePackets := by
  induction queue generalizing bytes with
  | nil =>
      unfold Depacketizer.evictPrefix at hevict
      split at hevict
      · cases hevict
      · cases hevict
        exact ⟨hbytes, by omega, by decide⟩
  | cons old rest ih =>
      unfold Depacketizer.evictPrefix at hevict
      split at hevict
      · obtain ⟨fewer, hsub, hrest⟩ := Option.bind_eq_some_iff.1 hevict
        apply ih _ hrest
        unfold sub64 at hsub
        split at hsub
        · cases hsub
          rw [hbytes]
          exact Nat.add_sub_cancel_left _ _
        · cases hsub
      · rename_i hfits
        cases hevict
        exact ⟨hbytes, by omega, by omega⟩

theorem hold_bounded {tiles : Nat} {d d' : Depacketizer} {p : RtpPacket} (h : Bounded tiles d)
    (hhold : d.hold p = some d') : Bounded tiles d' := by
  have hcount : Bounded tiles (d.count .unknownSource) := h.same rfl rfl rfl rfl rfl
  unfold Depacketizer.hold at hhold
  dsimp only at hhold
  split at hhold
  · split at hhold
    · cases hhold
      exact hcount
    · rename_i s hs
      obtain ⟨⟨held, left⟩, hevict, heq⟩ := Option.map_eq_some_iff.1 hhold
      cases heq
      have hold := h.observation p.ssrc s hs
      obtain ⟨hleft, hbytes, hfew⟩ := evictPrefix_room hold.prefixBytes hevict
      apply hcount.insertObserved _ (Or.inl (Option.isSome_iff_exists.2 ⟨s, hs⟩))
      refine ⟨?_, hbytes, ?_⟩
      · dsimp only
        rw [hleft, payloadBytes, payloadBytes, List.map_append, List.sum_append]
        rfl
      · dsimp only
        rw [List.length_append, List.length_singleton]
        omega
  · cases hhold
    exact hcount

theorem takePrefix_bounded {tiles : Nat} {d : Depacketizer} (h : Bounded tiles d)
    (ssrc : UInt32) : Bounded tiles (d.takePrefix ssrc).2 := by
  unfold Depacketizer.takePrefix
  split
  · exact h
  · rename_i s hs
    apply h.insertObserved _ (Or.inl (Option.isSome_iff_exists.2 ⟨s, hs⟩))
    exact ⟨rfl, Nat.zero_le _, Nat.zero_le _⟩

/-! ## Selecting a source -/

theorem sorted_insertSource {sources : List UInt32} {ssrc : UInt32}
    (h : sources.Pairwise (· < ·)) (hnew : ssrc ∉ sources) :
    ((sources ++ [ssrc]).insertionSort (· ≤ ·)).Pairwise (· < ·) := by
  have hnodup : ((sources ++ [ssrc]).insertionSort (· ≤ ·)).Nodup := by
    rw [(List.perm_insertionSort (· ≤ ·) _).nodup_iff]
    apply List.nodup_append.2
    refine ⟨h.imp fun hlt => UInt32.ne_of_lt hlt, List.nodup_singleton _, ?_⟩
    intro a ha b hb
    rw [List.mem_singleton.1 hb]
    exact fun hsame => hnew (hsame ▸ ha)
  have hsorted := List.pairwise_insertionSort (· ≤ ·) (sources ++ [ssrc])
  exact (hsorted.and hnodup).imp fun hboth => UInt32.lt_of_le_of_ne hboth.1 hboth.2

theorem chosen_bounded {tiles now : Nat} {d d' : Depacketizer} {p : RtpPacket}
    {events : List Event} (htiles : 0 < tiles) (h : Bounded tiles d)
    (hchosen : Chosen d p now events d') : Bounded tiles d' := by
  cases hchosen with
  | known => exact h
  | added hnew hroom =>
      exact
        { tileCount := h.tileCount
          sorted := sorted_insertSource h.sorted hnew
          sources := by
            have hcount := h.tileCount
            dsimp only
            rw [List.length_insertionSort, List.length_append, List.length_singleton]
            omega
          selected := by
            intro key g hg
            apply (List.mem_insertionSort _).2
            exact List.mem_append_left _ (h.selected key g hg)
          group := h.group
          groups := h.groups
          pending := h.pending
          params := h.params
          observed := h.observed
          observation := h.observation }
  | handoff =>
      exact
        { tileCount := h.tileCount
          sorted := List.pairwise_singleton _ _
          sources := htiles
          selected := nofun
          group := nofun
          groups := Nat.zero_le _
          pending := Nat.zero_le _
          params := Nat.zero_le _
          observed := h.observed
          observation := h.observation }

/-! ## Placing a packet -/

theorem oldest_ne_nil {d : Depacketizer} (h : d.groups.entries ≠ []) : d.oldest ≠ [] := by
  cases hmin : d.groups.entries.argmin fun e => e.2.first with
  | none => exact absurd (List.argmin_eq_none.1 hmin) h
  | some e =>
      apply List.ne_nil_of_mem
      refine List.mem_filter.2 ⟨List.argmin_mem hmin, List.all_eq_true.2 fun other hother => ?_⟩
      have hle := @List.le_of_mem_argmin _ _ _ (fun e => e.2.first) d.groups.entries other e
      exact decide_eq_true (hle hother hmin)

theorem evictGroup_eq {d : Depacketizer} (hint : Key) (h : d.groups.entries ≠ []) :
    ∃ key g, d.groups.lookup key = some g ∧
      (d.evictGroup hint).2 = (d.removeGroup key).recordLoss .groupLimit := by
  unfold Depacketizer.evictGroup
  cases hold : (d.oldest.find? fun e => e.1 = hint).or d.oldest.head? with
  | none =>
      rw [Option.or_eq_none_iff, List.head?_eq_none_iff] at hold
      exact absurd hold.2 (oldest_ne_nil h)
  | some e => exact ⟨e.1, e.2, lookup_evicted hold, rfl⟩

theorem add_counted {g : Group} (h : g.bytes = payloadBytes g.packets) (p : RtpPacket)
    (now : Nat) :
    (g.add p now).bytes = payloadBytes (g.add p now).packets ∧
      (g.add p now).bytes = g.bytes + if g.contains p.seq then 0 else p.payload.length := by
  unfold Group.add
  split
  · exact ⟨h, rfl⟩
  · refine ⟨?_, rfl⟩
    show g.bytes + p.payload.length = _
    rw [h, payloadBytes, payloadBytes, List.map_append, List.sum_append]
    rfl

/-- A packet for which there is room goes into its group, or takes the group away. -/
theorem Bounded.pending_insert {tiles now : Nat} {d : Depacketizer} (h : Bounded tiles d)
    {p : RtpPacket} {key : Key} {g added : Group}
    (hbytes : (d.groups.lookup key).any (fun g => g.contains p.seq) = true ∨
      d.pendingBytes + p.payload.length ≤ maxPendingBytes)
    (hstart : (d.groups.lookup key).getD (Group.new now d.nextGroup) = g)
    (hadded : added.bytes = g.bytes + if g.contains p.seq then 0 else p.payload.length) :
    total Group.bytes (d.groups.insert key added) ≤ maxPendingBytes := by
  have hparts := total_eq Group.bytes key d.groups
  have hpending : total Group.bytes d.groups ≤ maxPendingBytes := h.pending
  rw [pendingBytes_eq] at hbytes
  rw [total_insert, hadded]
  cases hlookup : d.groups.lookup key with
  | none =>
      rw [hlookup] at hbytes hparts hstart
      rw [← hstart, Option.getD_none,
        show (Group.new now d.nextGroup).contains p.seq = false from rfl,
        show (Group.new now d.nextGroup).bytes = 0 from rfl]
      rcases hbytes with himpossible | hroom
      · cases himpossible
      · simp only [Option.map_none, Option.getD_none] at hparts
        rw [if_neg Bool.false_ne_true]
        omega
  | some old =>
      rw [hlookup] at hbytes hparts hstart
      rw [← hstart, Option.getD_some]
      simp only [Option.map_some, Option.getD_some] at hparts
      rcases hbytes with hduplicate | hroom
      · rw [Option.any_some] at hduplicate
        rw [if_pos hduplicate]
        omega
      · split <;> omega

theorem insertPacket_bounded {tiles : Nat} {d : Depacketizer} (h : Bounded tiles d)
    (p : RtpPacket) (now : Nat) (hsource : p.ssrc ∈ d.sources)
    (hgroup : (d.groups.lookup (p.ssrc, p.timestamp)).isSome = true ∨
      d.groups.keys.length < maxGroups)
    (hbytes : (d.groups.lookup (p.ssrc, p.timestamp)).any (fun g => g.contains p.seq) = true ∨
      d.pendingBytes + p.payload.length ≤ maxPendingBytes) :
    Bounded tiles (d.insertPacket p now).2 := by
  unfold Depacketizer.insertPacket
  dsimp only
  generalize hkey : ((p.ssrc, p.timestamp) : Key) = key at hgroup hbytes ⊢
  generalize hstart : (d.groups.lookup key).getD (Group.new now d.nextGroup) = g
  have hcounted : g.bytes = payloadBytes g.packets := by
    rw [← hstart]
    cases hlookup : d.groups.lookup key with
    | none => rfl
    | some old => exact (h.group key old hlookup).bytes
  obtain ⟨hsum, hadded⟩ := add_counted hcounted p now
  split
  · exact (h.removeGroup key).same rfl rfl rfl rfl rfl
  rename_i hlimits
  rw [not_or, Nat.not_lt, Nat.not_lt] at hlimits
  have htotal := h.pending_insert hbytes hstart hadded
  exact
    { tileCount := h.tileCount
      sorted := h.sorted
      sources := h.sources
      selected := by
        intro other g' hlookup
        rcases of_lookup_insert hlookup with ⟨rfl, -⟩ | ⟨-, hold⟩
        · rw [← hkey]
          exact hsource
        · exact h.selected other g' hold
      group := by
        intro other g' hlookup
        rcases of_lookup_insert hlookup with ⟨rfl, rfl⟩ | ⟨-, hold⟩
        · exact ⟨hsum, hlimits.1, hlimits.2⟩
        · exact h.group other g' hold
      groups := by
        rcases hgroup with hknown | hroom
        · obtain ⟨old, hold⟩ := Option.isSome_iff_exists.1 hknown
          exact (length_keys_insert hold).trans_le h.groups
        · exact (length_keys_insert_le key (g.add p now) d.groups).trans hroom
      pending := htotal
      params := h.params
      observed := h.observed
      observation := h.observation }

theorem place_bounded {tiles : Nat} (tieBreak : Nat → Key) {d : Depacketizer}
    (h : Bounded tiles d) (p : RtpPacket) (now : Nat) (hsource : p.ssrc ∈ d.sources) :
    Bounded tiles (d.place tieBreak p now).2 := by
  unfold Depacketizer.place
  dsimp only
  split
  · exact h.same rfl rfl rfl rfl rfl
  rename_i hadmitted
  have hbytes : (d.groups.lookup (p.ssrc, p.timestamp)).any (fun g => g.contains p.seq) = true ∨
      d.pendingBytes + p.payload.length ≤ maxPendingBytes := by
    by_contra hnone
    rw [not_or] at hnone
    exact hadmitted ⟨hnone.1, Or.inr (Nat.lt_of_not_le hnone.2)⟩
  split
  · rename_i hfull
    have hentries : d.groups.entries ≠ [] := by
      intro hnil
      have hcount := hfull.2
      rw [show d.groups.keys = [] by rw [AList.keys, hnil]; rfl] at hcount
      exact absurd hcount (by decide)
    obtain ⟨key, g, hg, hevicted⟩ := evictGroup_eq (tieBreak d.nextGroup) hentries
    rw [hevicted]
    have hremoved : Bounded tiles ((d.removeGroup key).recordLoss .groupLimit) :=
      (h.removeGroup key).same rfl rfl rfl rfl rfl
    apply insertPacket_bounded hremoved p now hsource
    · right
      have hcount := length_keys_erase hg
      have hlimit := h.groups
      show (d.groups.erase key).keys.length < maxGroups
      omega
    · right
      rcases hbytes with himpossible | hroom
      · rw [hfull.1] at himpossible
        cases himpossible
      · have hless := total_erase_le Group.bytes key d.groups
        show total Group.bytes (d.groups.erase key) + _ ≤ _
        rw [pendingBytes_eq] at hroom
        omega
  · rename_i hroom
    apply insertPacket_bounded h p now hsource _ hbytes
    cases hlookup : d.groups.lookup (p.ssrc, p.timestamp) with
    | some g => exact Or.inl rfl
    | none => exact Or.inr (Nat.lt_of_not_le fun hfull => hroom ⟨hlookup, hfull⟩)

/-! ## Pushing -/

theorem pushSelected_bounded {tiles now : Nat} (tieBreak : Nat → Key) {d d' : Depacketizer}
    {p : RtpPacket} {events : List Event} (hsafe : Safe d) (h : Bounded tiles d)
    (hsource : p.ssrc ∈ d.sources)
    (hpush : d.pushSelected tieBreak p now = some (events, d')) : Bounded tiles d' := by
  obtain ⟨_, hsafe₁⟩ := prepare_quiet hsafe p.ssrc now
  have hprepared : Bounded tiles (d.prepare p.ssrc now) :=
    (h.withParams _).same rfl rfl rfl rfl rfl
  obtain ⟨_, hsafe₂, _, _, _⟩ := place_run tieBreak hsafe₁ p now hsource
  obtain ⟨⟨later, last⟩, hpoll, heq⟩ := Option.map_eq_some_iff.1 hpush
  cases heq
  exact poll_bounded hsafe₂ (place_bounded tieBreak hprepared p now hsource) hpoll

theorem pushAll_bounded {tiles now : Nat} (tieBreak : Nat → Key) {d d' : Depacketizer}
    {queue : List RtpPacket} {events : List Event} (hsafe : Safe d) (h : Bounded tiles d)
    (hsource : ∀ p ∈ queue, p.ssrc ∈ d.sources)
    (hpush : d.pushAll tieBreak now queue = some (events, d')) : Bounded tiles d' := by
  induction queue generalizing d events with
  | nil =>
      cases hpush
      exact h
  | cons p rest ih =>
      rcases pushSelected_run tieBreak hsafe p now (hsource p List.mem_cons_self) with
        ⟨first, d₁, hfirst, _, hsafe₁, hsources, _, _⟩
      unfold Depacketizer.pushAll at hpush
      rw [hfirst] at hpush
      obtain ⟨⟨later, last⟩, hlater, heq⟩ := Option.map_eq_some_iff.1 hpush
      cases heq
      refine ih hsafe₁ ?_ ?_ hlater
      · exact pushSelected_bounded tieBreak hsafe h (hsource p List.mem_cons_self) hfirst
      · rw [hsources]
        exact fun q hq => hsource q (List.mem_cons_of_mem _ hq)

theorem push_bounded {tiles now : Nat} (tieBreak : Nat → Key) {d d' : Depacketizer}
    {p : RtpPacket} {events : List Event} (hsafe : Safe d) (h : Bounded tiles d)
    (hpush : d.push tieBreak p now = some (events, d')) : Bounded tiles d' := by
  have hheader := countHeader_same d p
  have hbounded : ∀ {d'}, SameButCounters d d' → Bounded tiles d' := by
    rintro d' ⟨counters, rfl⟩
    exact h.same rfl rfl rfl rfl rfl
  cases push_inversion hsafe hpush with
  | short _ hsafe' hpoll => exact poll_bounded hsafe' (hbounded (hheader.count .short)) hpoll
  | held _ hobserve _ _ _ hhold hsafe' hpoll =>
      have hobserved := observe_bounded (hbounded hheader) hobserve
      exact poll_bounded hsafe' (hold_bounded hobserved hhold) hpoll
  | selected _ hobserve hchosen hsafe' hmember hqueue hall =>
      have hpositive : 0 < tiles := h.tileCount ▸ hsafe.tiles
      have hobserved := observe_bounded (hbounded hheader) hobserve
      have hselected := chosen_bounded hpositive hobserved hchosen
      refine pushAll_bounded tieBreak hsafe' (takePrefix_bounded hselected p.ssrc) ?_ hall
      intro q hq
      rw [hqueue q hq]
      exact hmember

/-! ## Runs -/

theorem step_bounded {tiles : Nat} (tieBreak : Nat → Key) {d d' : Depacketizer} {op : Op}
    {events : List Event} (hsafe : Safe d) (h : Bounded tiles d)
    (hstep : d.step tieBreak op = some (events, d')) : Bounded tiles d' := by
  cases op with
  | push p now => exact push_bounded tieBreak hsafe h hstep
  | poll now => exact poll_bounded hsafe h hstep

theorem run_bounded {tiles : Nat} (tieBreak : Nat → Key) {d : Depacketizer} (hsafe : Safe d)
    (h : Bounded tiles d) (ops : List Op) :
    ∃ events d', d.run tieBreak ops = some (events, d') ∧ Bounded tiles d' := by
  induction ops generalizing d with
  | nil => exact ⟨[], d, rfl, h⟩
  | cons op ops ih =>
      obtain ⟨events, d₁, hstep, _, hsafe₁⟩ := step_run tieBreak hsafe op
      obtain ⟨later, d', hrest, h'⟩ := ih hsafe₁ (step_bounded tieBreak hsafe h hstep)
      exact ⟨_, d', run_cons hstep hrest, h'⟩

/-- After any calls with any packets at any times every limit holds, and no call panicked
or went on for ever. -/
theorem depacketizer_bounded (tileCount : Nat) (tieBreak : Nat → Key) (ops : List Op) :
    ∃ events d, (Depacketizer.new tileCount).run tieBreak ops = some (events, d) ∧
      Bounded (max 1 (min tileCount 16)) d :=
  run_bounded tieBreak (safe_new tileCount) (bounded_new tileCount) ops

end MacVnc.Media.DepacketizeBounds

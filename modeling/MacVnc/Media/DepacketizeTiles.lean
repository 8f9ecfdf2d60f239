import MacVnc.Media.DepacketizeBounds
import MacVnc.Media.DepacketizeFrame
import MacVnc.Media.DepacketizeLoss
/-!
# Tile indices

The index of a tile is the position of its source among the sorted sources, looked
up again for every unit.  It stays as long as a source that arrives late sorts
behind every source with a unit.
-/

namespace MacVnc.Media.DepacketizeTiles

open MacVnc.Media.Srtp (RtpPacket)
open MacVnc.Media.Depacketize
open MacVnc.Media.DepacketizeTrace
open MacVnc.Media.DepacketizeBounds
open MacVnc.Media.DepacketizeFrame
open MacVnc.Media.DepacketizeLoss

def Immutable (events : List Event) : Prop :=
  ∀ key g u key' g' u', .resolved key g (.emitted u) ∈ events →
    .resolved key' g' (.emitted u') ∈ events → u.generation = u'.generation →
    (key.1 = key'.1 ↔ u.tile = u'.tile)

/-- A packet of a new source leaves the indices in use alone: the source sorts behind
every source with a unit, or it would be handed a generation of its own. -/
def Undisturbed (d : Depacketizer) (p : RtpPacket) : Prop :=
  if p.payload.length < 2 ∨ p.ssrc ∈ d.sources then True
  else if d.sources.length < d.tiles then ∀ ssrc ∈ d.sources, Emitted d ssrc → ssrc < p.ssrc
  else d.generation < 2 ^ 64 - 1

instance (d : Depacketizer) (p : RtpPacket) : Decidable (Undisturbed d p) :=
  -- By the list, not by all values of a `UInt32`.
  have : Decidable (∀ ssrc ∈ d.sources, Emitted d ssrc → ssrc < p.ssrc) :=
    List.decidableBAll _ d.sources
  inferInstanceAs (Decidable (ite _ _ _))

/-- The packet of a step leaves the indices in use alone. -/
def Keeps (d : Depacketizer) : Op → Prop
  | .push p _ => Undisturbed d p
  | .poll _ => True

instance (d : Depacketizer) : (op : Op) → Decidable (Keeps d op)
  | .push p _ => inferInstanceAs (Decidable (Undisturbed d p))
  | .poll _ => isTrue trivial

/-- Every step of a run leaves the indices in use alone. -/
def Orderly (tieBreak : Nat → Key) (d : Depacketizer) : List Op → Prop
  | [] => True
  | op :: ops => Keeps d op ∧ ∀ result ∈ d.step tieBreak op, Orderly tieBreak result.2 ops

instance decidableOrderly (tieBreak : Nat → Key) (d : Depacketizer) :
    (ops : List Op) → Decidable (Orderly tieBreak d ops)
  | [] => isTrue trivial
  | op :: ops =>
      have := fun result : List Event × Depacketizer => decidableOrderly tieBreak result.2 ops
      inferInstanceAs (Decidable (Keeps d op ∧ ∀ result ∈ d.step tieBreak op, _))

/-! ## The units so far -/

/-- The units so far, of which those of this generation have the index that their
source has now. -/
structure Indexed (d : Depacketizer) (events : List Event) : Prop where
  immutable : Immutable events
  past : ∀ key g u, .resolved key g (.emitted u) ∈ events → u.generation ≤ d.generation
  current : ∀ key g u, .resolved key g (.emitted u) ∈ events → u.generation = d.generation →
    Emitted d key.1 ∧ d.sources.idxOf? key.1 = some u.tile

theorem indexed_new (tileCount : Nat) : Indexed (Depacketizer.new tileCount) [] :=
  ⟨nofun, nofun, nofun⟩

theorem idxOf?_inj {sources : List UInt32} {a b : UInt32} {i : Nat}
    (ha : sources.idxOf? a = some i) (hb : sources.idxOf? b = some i) : a = b := by
  obtain ⟨_, hget, _⟩ := List.idxOf?_eq_some_iff.1 ha
  obtain ⟨_, hget', _⟩ := List.idxOf?_eq_some_iff.1 hb
  exact hget.symm.trans hget'

theorem Indexed.steady {d d' : Depacketizer} {events later : List Event} (h : Indexed d events)
    (hsteady : Steady d later d') : Indexed d' (events ++ later) := by
  have hcurrent : ∀ key g u, .resolved key g (.emitted u) ∈ events ++ later →
      u.generation = d'.generation →
      Emitted d' key.1 ∧ d'.sources.idxOf? key.1 = some u.tile := by
    intro key g u hmem hsame
    rw [hsteady.generation] at hsame
    rw [hsteady.sources]
    rcases List.mem_append.1 hmem with hold | hnew
    · obtain ⟨hemitted, htile⟩ := h.current key g u hold hsame
      exact ⟨hsteady.emitted key.1 hemitted, htile⟩
    · obtain ⟨_, htile, hemitted⟩ := hsteady.units key g u hnew
      exact ⟨hemitted, htile⟩
  have hpast : ∀ key g u, .resolved key g (.emitted u) ∈ events ++ later →
      u.generation ≤ d'.generation := by
    intro key g u hmem
    rw [hsteady.generation]
    rcases List.mem_append.1 hmem with hold | hnew
    · exact h.past key g u hold
    · exact Nat.le_of_eq (hsteady.units key g u hnew).1
  have hnow : ∀ key g u, .resolved key g (.emitted u) ∈ later →
      u.generation = d'.generation :=
    fun key g u hmem => (hsteady.units key g u hmem).1.trans hsteady.generation.symm
  refine ⟨?_, hpast, hcurrent⟩
  intro key g u key' g' u' hu hu' hsame
  by_cases hthis : u.generation = d'.generation
  · obtain ⟨_, htile⟩ := hcurrent key g u hu hthis
    obtain ⟨_, htile'⟩ := hcurrent key' g' u' hu' (hsame ▸ hthis)
    constructor
    · intro hsource
      rw [hsource, htile'] at htile
      exact (Option.some.inj htile).symm
    · intro hindex
      rw [hindex] at htile
      exact idxOf?_inj htile htile'
  · -- Both units are older than the call.
    rcases List.mem_append.1 hu with hold | hnew
    · rcases List.mem_append.1 hu' with hold' | hnew'
      · exact h.immutable key g u key' g' u' hold hold' hsame
      · exact absurd (hsame.trans (hnow key' g' u' hnew')) hthis
    · exact absurd (hnow key g u hnew) hthis

theorem Indexed.same {d d' : Depacketizer} {events : List Event} (h : Indexed d events)
    (hsources : d'.sources = d.sources) (hgeneration : d'.generation = d.generation)
    (hlast : d'.lastTs = d.lastTs) : Indexed d' events where
  immutable := h.immutable
  past key g u hmem := hgeneration ▸ h.past key g u hmem
  current key g u hmem hsame := by
    rw [hsources, Emitted, hlast]
    exact h.current key g u hmem (hsame.trans hgeneration)

theorem idxOf?_sorted {sources : List UInt32} {ssrc : UInt32}
    (hsorted : sources.Pairwise (· < ·)) (hmem : ssrc ∈ sources) :
    sources.idxOf? ssrc = some (sources.countP fun other => other < ssrc) := by
  induction sources with
  | nil => cases hmem
  | cons first rest ih =>
      obtain ⟨hleast, hrest⟩ := List.pairwise_cons.1 hsorted
      rw [List.idxOf?_cons, List.countP_cons]
      by_cases hsame : first = ssrc
      · have hnone : rest.countP (fun other => other < ssrc) = 0 := by
          apply List.countP_eq_zero.2
          intro other hother
          rw [decide_eq_true_eq, ← hsame]
          exact UInt32.lt_asymm (hleast other hother)
        rw [if_pos (beq_iff_eq.2 hsame), hnone, if_neg (by simp [hsame])]
      · have hin : ssrc ∈ rest := by
          rcases List.mem_cons.1 hmem with heq | hin
          · exact absurd heq.symm hsame
          · exact hin
        rw [if_neg (by simp [hsame]), ih hrest hin, if_pos (by simpa using hleast ssrc hin)]
        rfl

/-- A source that sorts behind another leaves its index alone. -/
theorem idxOf?_insertSource {sources : List UInt32} {ssrc new : UInt32} {i : Nat}
    (hsorted : sources.Pairwise (· < ·)) (hnew : new ∉ sources) (hbehind : ssrc < new)
    (hi : sources.idxOf? ssrc = some i) :
    ((sources ++ [new]).insertionSort (· ≤ ·)).idxOf? ssrc = some i := by
  have hmem : ssrc ∈ sources := List.isSome_idxOf?.1 (by rw [hi]; rfl)
  have hmem' : ssrc ∈ (sources ++ [new]).insertionSort (· ≤ ·) :=
    (List.mem_insertionSort _).2 (List.mem_append_left _ hmem)
  rw [idxOf?_sorted hsorted hmem] at hi
  rw [idxOf?_sorted (sorted_insertSource hsorted hnew) hmem',
    (List.perm_insertionSort (· ≤ ·) _).countP_eq, List.countP_append, List.countP_singleton,
    if_neg (by simpa using UInt32.lt_asymm hbehind), Nat.add_zero, hi]

theorem Undisturbed.of_unknown {d : Depacketizer} {p : RtpPacket} (h : Undisturbed d p)
    (hlong : 2 ≤ p.payload.length) (hnew : p.ssrc ∉ d.sources) :
    if d.sources.length < d.tiles then ∀ ssrc ∈ d.sources, Emitted d ssrc → ssrc < p.ssrc
    else d.generation < 2 ^ 64 - 1 := by
  unfold Undisturbed at h
  rwa [if_neg] at h
  rintro (hshort | hknown)
  · exact absurd hlong (Nat.not_le.2 hshort)
  · exact hnew hknown

/-- Selecting the source of an undisturbed packet keeps the indices in use. -/
theorem Indexed.chosen {d d' : Depacketizer} {p : RtpPacket} {now : Nat}
    {events prior : List Event} (h : Indexed d events) (hsorted : d.sources.Pairwise (· < ·))
    (hlong : 2 ≤ p.payload.length) (hundisturbed : Undisturbed d p)
    (hchosen : Chosen d p now prior d') : Indexed d' (events ++ prior) := by
  cases hchosen with
  | known =>
      rw [List.append_nil]
      exact h
  | added hnew hroom =>
      have hbehind := hundisturbed.of_unknown hlong hnew
      rw [if_pos hroom] at hbehind
      rw [List.append_nil]
      refine ⟨h.immutable, h.past, fun key g u hmem hsame => ?_⟩
      obtain ⟨hemitted, htile⟩ := h.current key g u hmem hsame
      have hin : key.1 ∈ d.sources := List.isSome_idxOf?.1 (by rw [htile]; rfl)
      exact ⟨hemitted, idxOf?_insertSource hsorted hnew (hbehind key.1 hin hemitted) htile⟩
  | handoff hnew hfull =>
      have hlimit := hundisturbed.of_unknown hlong hnew
      rw [if_neg (Nat.not_lt.2 hfull)] at hlimit
      have hraised : (d.handoff p.ssrc).generation = d.generation + 1 := if_pos hlimit
      have hold : ∀ key g u, .resolved key g (.emitted u) ∈
          events ++ [.cleared (d.groups.entries.map fun e => (e.1, e.2))] →
          .resolved key g (.emitted u) ∈ events := by
        intro key g u hmem
        rcases List.mem_append.1 hmem with hold | hnew
        · exact hold
        · cases List.mem_singleton.1 hnew
      refine ⟨?_, fun key g u hmem => ?_, fun key g u hmem hsame => ?_⟩
      · intro key g u key' g' u' hu hu'
        exact h.immutable key g u key' g' u' (hold key g u hu) (hold key' g' u' hu')
      · have hpast := h.past key g u (hold key g u hmem)
        omega
      · have hpast := h.past key g u (hold key g u hmem)
        omega

/-! ## Runs -/

theorem Indexed.push {tieBreak : Nat → Key} {d d' : Depacketizer} {p : RtpPacket} {now : Nat}
    {events later : List Event} (h : Indexed d events) (hsafe : Safe d)
    (hsorted : d.sources.Pairwise (· < ·)) (hundisturbed : Undisturbed d p)
    (hpush : d.push tieBreak p now = some (later, d')) : Indexed d' (events ++ later) := by
  obtain ⟨counters, hheader⟩ := countHeader_same d p
  cases push_inversion hsafe hpush with
  | short _ hsafe' hpoll =>
      have hcounted : Indexed ((d.countHeader p).count .short) events := by
        rw [hheader]
        exact h.same rfl rfl rfl
      exact hcounted.steady (poll_steady hsafe' hpoll)
  | @held _ d₂ _ _ _ hobserve _ _ _ hhold hsafe' hpoll =>
      obtain ⟨observed, hobserved⟩ := observe_frame hobserve
      obtain ⟨observed', counters', hheld⟩ := hold_frame hhold
      have hkept : Indexed d₂ events := by
        rw [hheld, hobserved, hheader]
        exact h.same rfl rfl rfl
      exact hkept.steady (poll_steady hsafe' hpoll)
  | @selected d₁ prior d₂ _ _ hlong hobserve hchosen hsafe' hmember hqueue hall =>
      obtain ⟨observed, hobserved⟩ := observe_frame hobserve
      rw [hheader] at hobserved
      subst hobserved
      have hseen : Indexed { d with counters, observed } events := h.same rfl rfl rfl
      have hselected := hseen.chosen hsorted hlong hundisturbed hchosen
      have hmembers : ∀ q ∈ (d₂.takePrefix p.ssrc).1 ++ [p],
          q.ssrc ∈ (d₂.takePrefix p.ssrc).2.sources := by
        intro q hq
        rw [hqueue q hq]
        exact hmember
      obtain ⟨observed', htaken⟩ := takePrefix_frame d₂ p.ssrc
      have hready : Indexed (d₂.takePrefix p.ssrc).2 (events ++ prior) := by
        rw [htaken]
        exact hselected.same rfl rfl rfl
      rw [← List.append_assoc]
      exact hready.steady (pushAll_steady tieBreak hsafe' hmembers hall)

theorem Indexed.step {tieBreak : Nat → Key} {d d' : Depacketizer} {op : Op}
    {events later : List Event} (h : Indexed d events) (hsafe : Safe d)
    (hsorted : d.sources.Pairwise (· < ·)) (hkeeps : Keeps d op)
    (hstep : d.step tieBreak op = some (later, d')) : Indexed d' (events ++ later) := by
  cases op with
  | push p now => exact h.push hsafe hsorted hkeeps hstep
  | poll now => exact h.steady (poll_steady hsafe hstep)

theorem Indexed.run {tieBreak : Nat → Key} {tiles : Nat} {d : Depacketizer}
    {events : List Event} (h : Indexed d events) (hsafe : Safe d) (hbounded : Bounded tiles d)
    {ops : List Op} (horderly : Orderly tieBreak d ops) :
    ∃ later d', d.run tieBreak ops = some (later, d') ∧ Indexed d' (events ++ later) := by
  induction ops generalizing d events with
  | nil => exact ⟨[], d, rfl, by rwa [List.append_nil]⟩
  | cons op ops ih =>
      obtain ⟨first, d₁, hstep, _, hsafe₁⟩ := step_run tieBreak hsafe op
      have hindexed := h.step hsafe hbounded.sorted horderly.1 hstep
      have hbounded₁ := step_bounded tieBreak hsafe hbounded hstep
      obtain ⟨later, d', hrest, h'⟩ := ih hindexed hsafe₁ hbounded₁ (horderly.2 _ hstep)
      refine ⟨first ++ later, d', run_cons hstep hrest, ?_⟩
      rw [← List.append_assoc]
      exact h'

/-- Tile indices are immutable in every run in which each source that arrives late sorts
behind the sources with a unit. -/
theorem tiles_immutable (tileCount : Nat) (tieBreak : Nat → Key) (ops : List Op)
    (horderly : Orderly tieBreak (Depacketizer.new tileCount) ops) :
    ∃ events d, (Depacketizer.new tileCount).run tieBreak ops = some (events, d) ∧
      Immutable events := by
  rcases (indexed_new tileCount).run (safe_new tileCount) (bounded_new tileCount) horderly with
    ⟨events, d, hrun, hindexed⟩
  exact ⟨events, d, hrun, hindexed.immutable⟩

/-- Source 2 shows a picture once the window for discovery is over; then source 1 does. -/
def lateSource (first second : UInt32) : List Op :=
  [.push { slicePacket 1 1 19 with ssrc := first } 0, .poll 800,
    .push { slicePacket 1 7 19 with ssrc := second } 810, .poll 840,
    .push { slicePacket 2 2 1 with ssrc := first } 850, .poll 880]

def placed : Event → Option (UInt32 × Nat × Nat)
  | .resolved key _ (.emitted unit) => some (key.1, unit.generation, unit.tile)
  | _ => none

theorem placed_some {e : Event} {ssrc : UInt32} {generation tile : Nat}
    (h : placed e = some (ssrc, generation, tile)) :
    ∃ key g u, e = .resolved key g (.emitted u) ∧ key.1 = ssrc ∧ u.generation = generation ∧
      u.tile = tile := by
  unfold placed at h
  split at h
  · cases h
    exact ⟨_, _, _, rfl, rfl, rfl, rfl⟩
  · cases h

/-- The tile of source 2 moves from 0 to 1 and source 1 takes 0 over. -/
theorem tiles_moved :
    ((Depacketizer.new 2).run (fun _ => (0, 0)) (lateSource 2 1)).map
        (fun result => result.1.map placed) =
      some [some (2, 0, 0), some (1, 0, 0), some (2, 0, 1)] ∧
    ∃ events d, (Depacketizer.new 2).run (fun _ => (0, 0)) (lateSource 2 1) = some (events, d) ∧
      ¬Immutable events := by
  have hplaced : ((Depacketizer.new 2).run (fun _ => (0, 0)) (lateSource 2 1)).map
      (fun result => result.1.map placed) =
        some [some (2, 0, 0), some (1, 0, 0), some (2, 0, 1)] := by decide +kernel
  refine ⟨hplaced, ?_⟩
  obtain ⟨⟨events, d⟩, hrun, hevents⟩ := Option.map_eq_some_iff.1 hplaced
  refine ⟨events, d, hrun, fun himmutable => ?_⟩
  dsimp only at hevents
  obtain ⟨e, he, hfirst⟩ : ∃ e ∈ events, placed e = some (2, 0, 0) :=
    List.mem_map.1 (by rw [hevents]; decide)
  obtain ⟨e', he', hlast⟩ : ∃ e ∈ events, placed e = some (2, 0, 1) :=
    List.mem_map.1 (by rw [hevents]; decide)
  obtain ⟨key, g, u, rfl, hsource, hgeneration, htile⟩ := placed_some hfirst
  obtain ⟨key', g', u', rfl, hsource', hgeneration', htile'⟩ := placed_some hlast
  have hsame := (himmutable key g u key' g' u' he he' (hgeneration.trans hgeneration'.symm)).1
    (hsource.trans hsource'.symm)
  rw [htile, htile'] at hsame
  cases hsame

/-- The same calls with the sources in order. -/
theorem tiles_immutable_lateSource :
    Orderly (fun _ => (0, 0)) (Depacketizer.new 2) (lateSource 1 2) ∧
    ∃ events d, (Depacketizer.new 2).run (fun _ => (0, 0)) (lateSource 1 2) = some (events, d) ∧
      Immutable events := by
  have horderly : Orderly (fun _ => (0, 0)) (Depacketizer.new 2) (lateSource 1 2) := by
    decide +kernel
  exact ⟨horderly, tiles_immutable 2 (fun _ => (0, 0)) (lateSource 1 2) horderly⟩

end MacVnc.Media.DepacketizeTiles

import MacVnc.Media.DepacketizeFrame
import MacVnc.Media.DepacketizeLoss
/-!
# The order of the access units

What the numbers on the units of a run say: the presentation numbers count them,
generation and loss epoch never go back, a generation starts with a key picture,
and two pictures of one source are never out of order unless the source was handed
over between them with the generation number at its limit.
-/

namespace MacVnc.Media.DepacketizeSequence

open MacVnc.Lib.Transition
open MacVnc.Media.Srtp (RtpPacket)
open MacVnc.Media.Depacketize
open MacVnc.Media.DepacketizeGroup
open MacVnc.Media.DepacketizeTrace
open MacVnc.Media.DepacketizeFrame
open MacVnc.Media.DepacketizeLoss

/-! ## One step -/

/-- A step without a unit leaves the numbering alone. -/
structure Silent (d d' : Depacketizer) : Prop where
  nextPts : d'.nextPts = d.nextPts
  lastTs : d'.lastTs = d.lastTs
  generation : d'.generation = d.generation
  haveKey : d'.haveKey = d.haveKey
  lossEpoch : d.lossEpoch ≤ d'.lossEpoch

/-- A step that emits a unit for the picture `key`. -/
structure Presents (d : Depacketizer) (key : Key) (u : AccessUnit) (d' : Depacketizer) :
    Prop where
  pts : u.pts = d.nextPts
  generation : u.generation = d.generation
  lossEpoch : u.lossEpoch = d.lossEpoch
  timestamp : u.rtpTimestamp = key.2
  timely : d.late key = false
  keyed : d.haveKey = true ∨ u.key = true
  nextPts : d'.nextPts = d.nextPts + 1
  lastTs : d'.lastTs = d.lastTs.insert key.1 key.2
  sameGeneration : d'.generation = d.generation
  haveKey : d'.haveKey = true
  sameEpoch : d'.lossEpoch = d.lossEpoch

/-- A source handoff. -/
structure HandsOff (d d' : Depacketizer) : Prop where
  nextPts : d'.nextPts = d.nextPts
  generation : d'.generation = saturatingSucc d.generation
  haveKey : d'.haveKey = false
  lossEpoch : d'.lossEpoch = d.lossEpoch

/-- What a step with an event does to the numbering. -/
inductive Numbers (d : Depacketizer) : Event → Depacketizer → Prop
  | silent {e d'} : e.unit? = none → (∀ groups, e ≠ .cleared groups) → Silent d d' →
      Numbers d e d'
  | unit {key g u d'} : Presents d key u d' → Numbers d (.resolved key g (.emitted u)) d'
  | handoff {groups d'} : HandsOff d d' → Numbers d (.cleared groups) d'

theorem numbers_settles {d d' : Depacketizer} {key : Key} {g : Group} {outcome : Outcome}
    (htimely : d.late key = false) (h : Settles (d.removeGroup key) key g outcome d') :
    Numbers d (.resolved key g outcome) d' := by
  cases h with
  | incomplete reason =>
      exact .silent rfl nofun ⟨rfl, rfl, rfl, rfl, le_saturatingSucc d.lossEpoch⟩
  | headless =>
      exact .silent rfl nofun ⟨rfl, rfl, rfl, rfl, le_saturatingSucc d.lossEpoch⟩
  | noSlices => exact .silent rfl nofun ⟨rfl, rfl, rfl, rfl, Nat.le_refl _⟩
  | preKey => exact .silent rfl nofun ⟨rfl, rfl, rfl, rfl, Nat.le_refl _⟩
  | emitted counters _ _ hkey =>
      exact .unit ⟨rfl, rfl, rfl, rfl, htimely, hkey, rfl, rfl, rfl, rfl, rfl⟩

theorem numbers_of_emits {d d' : Depacketizer} {e : Event} (h : Emits d e d') :
    Numbers d e d' := by
  cases h with
  | late => exact .silent rfl nofun ⟨rfl, rfl, rfl, rfl, Nat.le_refl _⟩
  | due _ htimely hsettles => exact numbers_settles htimely hsettles
  | evicted => exact .silent rfl nofun ⟨rfl, rfl, rfl, rfl, le_saturatingSucc d.lossEpoch⟩
  | overflow => exact .silent rfl nofun ⟨rfl, rfl, rfl, rfl, le_saturatingSucc d.lossEpoch⟩
  | refused p => exact .silent rfl nofun ⟨rfl, rfl, rfl, rfl, le_saturatingSucc d.lossEpoch⟩
  | handoff ssrc => exact .handoff ⟨rfl, rfl, rfl, rfl⟩

theorem silent_of_quiet {d d' : Depacketizer} (h : Quiet d d') : Silent d d' :=
  ⟨h.nextPts, h.lastTs, h.generation, h.haveKey, Nat.le_of_eq h.lossEpoch.symm⟩

/-- The numbers of the units that the state has not gone past. -/
theorem Numbers.le {d d' : Depacketizer} {e : Event} (h : Numbers d e d') :
    d.generation ≤ d'.generation ∧ d.lossEpoch ≤ d'.lossEpoch := by
  cases h with
  | silent _ _ hsilent => exact ⟨Nat.le_of_eq hsilent.generation.symm, hsilent.lossEpoch⟩
  | unit hunit =>
      exact ⟨Nat.le_of_eq hunit.sameGeneration.symm, Nat.le_of_eq hunit.sameEpoch.symm⟩
  | handoff hhandoff =>
      rw [hhandoff.generation, hhandoff.lossEpoch]
      exact ⟨le_saturatingSucc d.generation, Nat.le_refl _⟩

/-! ## Runs -/

theorem units_cons (e : Event) (events : List Event) :
    units (e :: events) = e.unit?.toList ++ units events := by
  unfold units
  cases h : e.unit? with
  | none => rw [List.filterMap_cons_none h]; rfl
  | some u => rw [List.filterMap_cons_some h]; rfl

theorem units_append (events later : List Event) :
    units (events ++ later) = units events ++ units later := List.filterMap_append

/-- The presentation numbers count the units. -/
theorem run_pts {d d' : Depacketizer} {events : List Event} (h : Run d events d') :
    (units events).map AccessUnit.pts = List.range' d.nextPts (units events).length := by
  induction h with
  | done => rfl
  | quiet hstep _ ih =>
      rw [← (silent_of_quiet hstep).nextPts]
      exact ih
  | event hstep _ ih =>
      rw [units_cons]
      cases numbers_of_emits hstep with
      | silent hnone _ hsilent =>
          rw [hnone, ← hsilent.nextPts]
          exact ih
      | unit hunit =>
          rw [hunit.nextPts] at ih
          show _ :: (units _).map AccessUnit.pts = List.range' _ ((units _).length + 1)
          rw [List.range'_succ, ih, hunit.pts]
      | handoff hhandoff =>
          rw [← hhandoff.nextPts]
          exact ih

theorem run_generation_le {d d' : Depacketizer} {events : List Event} (h : Run d events d') :
    d.generation ≤ d'.generation :=
  h.monotone (f := Depacketizer.generation)
    (fun _ _ hquiet => Nat.le_of_eq hquiet.generation.symm)
    fun _ _ _ hstep => (numbers_of_emits hstep).le.1

/-- No unit of a run is numbered below the state that the run starts from. -/
theorem run_units_le {d d' : Depacketizer} {events : List Event} (h : Run d events d') :
    ∀ u ∈ units events, d.generation ≤ u.generation ∧ d.lossEpoch ≤ u.lossEpoch := by
  induction h with
  | done => exact nofun
  | quiet hstep _ ih =>
      intro u hu
      rw [← hstep.generation, ← hstep.lossEpoch]
      exact ih u hu
  | event hstep _ ih =>
      intro u hu
      have hnumbers := numbers_of_emits hstep
      rw [units_cons] at hu
      rcases List.mem_append.1 hu with hfirst | hlater
      · cases hnumbers with
        | silent hnone =>
            rw [hnone] at hfirst
            cases hfirst
        | unit hunit =>
            rw [List.mem_singleton.1 hfirst, hunit.generation, hunit.lossEpoch]
            exact ⟨Nat.le_refl _, Nat.le_refl _⟩
        | handoff => cases hfirst
      · exact ⟨hnumbers.le.1.trans (ih u hlater).1, hnumbers.le.2.trans (ih u hlater).2⟩

/-- Generation and loss epoch never go back. -/
theorem run_monotone {d d' : Depacketizer} {events : List Event} (h : Run d events d') :
    (units events).Pairwise fun u v => u.generation ≤ v.generation ∧ u.lossEpoch ≤ v.lossEpoch := by
  induction h with
  | done => exact .nil
  | quiet _ _ ih => exact ih
  | event hstep hrest ih =>
      rw [units_cons]
      cases numbers_of_emits hstep with
      | silent hnone =>
          rw [hnone]
          exact ih
      | unit hunit =>
          refine List.pairwise_cons.2 ⟨fun u hu => ?_, ih⟩
          have hle := run_units_le hrest u hu
          rw [hunit.sameGeneration, hunit.sameEpoch] at hle
          rwa [hunit.generation, hunit.lossEpoch]
      | handoff => exact ih

/-- The first unit of a generation that starts without a key picture is one. -/
theorem run_key {d d' : Depacketizer} {events : List Event} (h : Run d events d')
    {before after : List AccessUnit} {u : AccessUnit} (hunits : units events = before ++ u :: after)
    (hfirst : ∀ v ∈ before, v.generation ≠ u.generation)
    (hopen : u.generation = d.generation → d.haveKey = false) : u.key = true := by
  induction h generalizing before with
  | done => exact absurd hunits (by simp [units])
  | quiet hstep _ ih =>
      apply ih hunits hfirst
      rw [hstep.generation, hstep.haveKey]
      exact hopen
  | event hstep hrest ih =>
      rw [units_cons] at hunits
      cases numbers_of_emits hstep with
      | silent hnone _ hsilent =>
          rw [hnone] at hunits
          apply ih hunits hfirst
          rw [hsilent.generation, hsilent.haveKey]
          exact hopen
      | @unit key g v _ hunit =>
          have hsplit : v :: units _ = before ++ u :: after := hunits
          cases before with
          | nil =>
              obtain ⟨rfl, _⟩ := List.cons.inj hsplit
              rcases hunit.keyed with hkey | hkey
              · rw [hopen hunit.generation] at hkey
                cases hkey
              · exact hkey
          | cons first rest =>
              obtain ⟨rfl, hrest'⟩ := List.cons.inj hsplit
              apply ih hrest' fun w hw => hfirst w (List.mem_cons_of_mem _ hw)
              intro hsame
              rw [hunit.sameGeneration, ← hunit.generation] at hsame
              exact absurd hsame.symm (hfirst v List.mem_cons_self)
      | handoff hhandoff =>
          apply ih hunits hfirst
          exact fun _ => hhandoff.haveKey

/-- The event is no unit of this source and no handoff. -/
def Skips (ssrc : UInt32) (e : Event) : Prop :=
  (∀ key g u, e = .resolved key g (.emitted u) → key.1 ≠ ssrc) ∧ ∀ groups, e ≠ .cleared groups

theorem run_lastTs {d d' : Depacketizer} {events : List Event} {ssrc : UInt32}
    {timestamp : UInt32} (h : Run d events d') (hskips : ∀ e ∈ events, Skips ssrc e)
    (hstart : d.lastTs.lookup ssrc = some timestamp) :
    d'.lastTs.lookup ssrc = some timestamp := by
  refine h.invariant (I := fun d => d.lastTs.lookup ssrc = some timestamp) (P := Skips ssrc)
    ?_ ?_ hskips hstart
  · intro s t hquiet hs
    rw [hquiet.lastTs]
    exact hs
  · intro s e t hskip hstep hs
    cases numbers_of_emits hstep with
    | silent _ _ hsilent =>
        rw [hsilent.lastTs]
        exact hs
    | @unit key g u _ hunit =>
        rw [hunit.lastTs]
        exact (AList.lookup_insert_ne (hskip.1 key g u rfl).symm).trans hs
    | handoff => exact absurd rfl (hskip.2 _)

/-- A handoff below the limit of the generation number moves it on. -/
theorem run_cleared {d d' : Depacketizer} {events : List Event} {groups : List (Key × Group)}
    (h : Run d events d') (hmem : .cleared groups ∈ events) (hlimit : d.generation < 2 ^ 64 - 1) :
    d.generation < d'.generation := by
  obtain ⟨first, last, rfl⟩ := List.append_of_mem hmem
  obtain ⟨m, n, hbefore, hstep, hafter⟩ := h.around
  have hstart := run_generation_le hbefore
  have hend := run_generation_le hafter
  cases numbers_of_emits hstep with
  | silent _ hnone => exact absurd rfl (hnone groups)
  | handoff hhandoff =>
      rw [hhandoff.generation] at hend
      unfold saturatingSucc at hend
      split at hend <;> omega

/-- Two units in a row of one source and one generation are in the order of their
timestamps, unless the generation number is at its limit and there was a handoff. -/
theorem run_timestamps {d d' : Depacketizer} {first middle last : List Event} {key key' : Key}
    {g g' : Group} {u u' : AccessUnit}
    (h : Run d (first ++ .resolved key g (.emitted u) ::
      (middle ++ .resolved key' g' (.emitted u') :: last)) d')
    (hsource : key'.1 = key.1)
    (hnext : ∀ k g u, .resolved k g (.emitted u) ∈ middle → k.1 ≠ key.1)
    (hgeneration : u.generation = u'.generation)
    (hlimit : u.generation < 2 ^ 64 - 1 ∨ ∀ groups, .cleared groups ∉ middle) :
    0 < (u'.rtpTimestamp - u.rtpTimestamp).toBitVec.toInt := by
  obtain ⟨m, n, _, hfirst, hrest⟩ := h.around
  obtain ⟨m', n', hmiddle, hsecond, _⟩ := hrest.around
  cases numbers_of_emits hfirst with
  | silent hnone => cases hnone
  | unit hunit =>
      cases numbers_of_emits hsecond with
      | silent hnone => cases hnone
      | unit hunit' =>
          have hskips : ∀ e ∈ middle, Skips key.1 e := by
            intro e he
            refine ⟨fun k g u heq => hnext k g u (heq ▸ he), fun groups heq => ?_⟩
            subst heq
            rcases hlimit with hlow | hnone
            · have hraised : n.generation < m'.generation := by
                apply run_cleared hmiddle he
                rwa [hunit.sameGeneration, ← hunit.generation]
              rw [hunit.sameGeneration, ← hunit.generation, hgeneration, hunit'.generation]
                at hraised
              exact Nat.lt_irrefl _ hraised
            · exact hnone groups he
          have hlookup : n.lastTs.lookup key.1 = some key.2 := by
            rw [hunit.lastTs]
            exact AList.lookup_insert _
          have hkept := run_lastTs hmiddle hskips hlookup
          have htimely := hunit'.timely
          rw [Depacketizer.late, hsource, hkept, Option.any_some, decide_eq_false_iff_not,
            Int.not_le] at htimely
          rwa [hunit.timestamp, hunit'.timestamp]

/-- The access units of a run are numbered in order, generation and loss epoch never
decrease along them, every generation starts with a key picture, and two units in a row
of one source and generation are strictly newer one than the other, save for a handoff
between them at the limit of the generation number. -/
theorem units_in_order (tileCount : Nat) (tieBreak : Nat → Key) (ops : List Op) :
    ∃ events d, (Depacketizer.new tileCount).run tieBreak ops = some (events, d) ∧
      (units events).map AccessUnit.pts = List.range (units events).length ∧
      ((units events).Pairwise fun u v =>
        u.generation ≤ v.generation ∧ u.lossEpoch ≤ v.lossEpoch) ∧
      (∀ before u after, units events = before ++ u :: after →
        (∀ v ∈ before, v.generation ≠ u.generation) → u.key = true) ∧
      ∀ first key g u middle key' g' u' last,
        events = first ++ .resolved key g (.emitted u) ::
          (middle ++ .resolved key' g' (.emitted u') :: last) →
        key'.1 = key.1 → (∀ k g u, .resolved k g (.emitted u) ∈ middle → k.1 ≠ key.1) →
        u.generation = u'.generation →
        (u.generation < 2 ^ 64 - 1 ∨ ∀ groups, .cleared groups ∉ middle) →
        0 < (u'.rtpTimestamp - u.rtpTimestamp).toBitVec.toInt := by
  obtain ⟨events, d, hrun, htrace, _⟩ := run_trace tieBreak (safe_new tileCount) ops
  refine ⟨events, d, hrun, ?_, run_monotone htrace, ?_, ?_⟩
  · rw [run_pts htrace, List.range_eq_range']
    rfl
  · intro before u after hunits hfirst
    exact run_key htrace hunits hfirst fun _ => rfl
  · intro first key g u middle key' g' u' last hevents hsource hnext hgeneration hlimit
    subst hevents
    exact run_timestamps htrace hsource hnext hgeneration hlimit

/-! ## A generation number at its limit -/

def picture (ssrc : UInt32) (timestamp : UInt32) : RtpPacket :=
  { slicePacket 0 timestamp 19 with ssrc }

/-- A source that may take over: enough of its packets were seen, and nothing else. -/
structure Plain (s : SourceObservation) : Prop where
  packets : 8 ≤ s.packets
  donl : s.donl = none
  params : s.params = []
  prefixPackets : s.prefixPackets = []

/-- One of two sources is selected, and the other could be. -/
structure Alternates (active other : UInt32) (since : Nat) (d : Depacketizer) : Prop where
  safe : Safe d
  tiles : d.tiles = 1
  sources : d.sources = [active]
  active : ∃ s, d.observed.lookup active = some s ∧ Plain s ∧ s.last = since
  other : ∃ s, d.observed.lookup other = some s ∧ Plain s

def recorded (d : Depacketizer) (ssrc : UInt32) (s : SourceObservation) : Depacketizer :=
  { d with observed := d.observed.insert ssrc s }

def SourceObservation.seen (s : SourceObservation) (now : Nat) : SourceObservation :=
  { s with packets := s.packets + 1, last := now }

def SourceObservation.taken (s : SourceObservation) : SourceObservation :=
  { s with prefixPackets := [], prefixBytes := 0 }

section Alternating

variable {active other : UInt32} {since : Nat} {d : Depacketizer}

theorem observe_picture {ssrc : UInt32} {s : SourceObservation}
    (h : d.observed.lookup ssrc = some s) (timestamp : UInt32) (now : Nat) :
    d.observe (picture ssrc timestamp) now = some
      (recorded d ssrc (SourceObservation.seen s now)) := by
  unfold Depacketizer.observe
  rw [if_pos (Or.inl (by rw [show (picture ssrc timestamp).ssrc = ssrc from rfl, h]; rfl)),
    show (picture ssrc timestamp).ssrc = ssrc from rfl, h,
    show nalKind (picture ssrc timestamp).payload = some 19 from rfl]
  rfl

theorem Plain.seen {s : SourceObservation} (h : Plain s) (now : Nat) :
    Plain (SourceObservation.seen s now) :=
  ⟨Nat.le_succ_of_le h.packets, h.donl, h.params, h.prefixPackets⟩

theorem Plain.taken {s : SourceObservation} (h : Plain s) : Plain (SourceObservation.taken s) :=
  ⟨h.packets, h.donl, h.params, rfl⟩

theorem takePrefix_plain {ssrc : UInt32} {s : SourceObservation}
    (h : d.observed.lookup ssrc = some s) (hs : Plain s) :
    d.takePrefix ssrc =
      ([], recorded d ssrc (SourceObservation.taken s)) := by
  unfold Depacketizer.takePrefix
  rw [h]
  dsimp only
  rw [hs.prefixPackets]
  rfl

theorem push_picture (tieBreak : Nat → Key) {ssrc : UInt32} {s : SourceObservation}
    (hsafe : Safe d) (hs : d.observed.lookup ssrc = some s) (hplain : Plain s)
    (timestamp : UInt32) (now : Nat) :
    ∃ counters, Safe (recorded { d with counters } ssrc (SourceObservation.seen s now)) ∧
      ∀ prior d₁, (recorded { d with counters } ssrc (SourceObservation.seen s now)).select
          (picture ssrc timestamp) now = some { selected := true, events := prior, state := d₁ } →
        d₁.observed.lookup ssrc = some (SourceObservation.seen s now) →
        d.push tieBreak (picture ssrc timestamp) now =
          ((recorded d₁ ssrc (SourceObservation.taken (SourceObservation.seen s now))).pushAll
            tieBreak now [picture ssrc timestamp]).map
              fun (events, d') => (prior ++ events, d') := by
  obtain ⟨counters, hheader⟩ := countHeader_same d (picture ssrc timestamp)
  have hcounted : Safe { d with counters } :=
    ⟨hsafe.tiles, hsafe.params, hsafe.groups, hsafe.observed⟩
  have hlong : 2 ≤ (picture ssrc timestamp).payload.length := (by decide : 2 ≤ 5)
  have hobserve := observe_picture (d := { d with counters }) hs timestamp now
  obtain ⟨d₀, hobserved, _, hsafe₀, _⟩ := observe_quiet hcounted hlong now
  rw [hobserve] at hobserved
  cases hobserved
  refine ⟨counters, hsafe₀, fun prior d₁ hselect hlookup => ?_⟩
  unfold Depacketizer.push
  dsimp only
  rw [if_neg (Nat.not_lt.2 hlong), hheader, hobserve, Option.bind_some, hselect, Option.bind_some]
  dsimp only
  rw [if_pos rfl, show (picture ssrc timestamp).ssrc = ssrc from rfl,
    takePrefix_plain hlookup (hplain.seen now)]
  rfl

theorem alternates_of_steady {ssrc : UInt32} {s : SourceObservation} {now : Nat}
    {d' : Depacketizer} {events : List Event} (hsafe : Safe d')
    (hsteady : Steady (recorded d ssrc s) events d') (htiles : d.tiles = 1)
    (hsources : d.sources = [ssrc]) (hs : Plain s ∧ s.last = now) (hne : other ≠ ssrc)
    (hother : ∃ s, d.observed.lookup other = some s ∧ Plain s) : Alternates ssrc other now d' where
  safe := hsafe
  tiles := hsteady.tiles.trans htiles
  sources := hsteady.sources.trans hsources
  active := ⟨s, by rw [hsteady.observed]; exact AList.lookup_insert _, hs⟩
  other := by
    obtain ⟨s', hs', hplain⟩ := hother
    refine ⟨s', ?_, hplain⟩
    rw [hsteady.observed]
    exact (AList.lookup_insert_ne hne).trans hs'

structure Pending (ssrc timestamp : UInt32) (now : Nat) (d : Depacketizer) : Prop where
  groups : ∃ order, d.groups = AList.singleton (ssrc, timestamp)
    ((Group.new now order).add (picture ssrc timestamp) now)
  lastTs : d.lastTs = ∅
  params : d.params = []

def begun (d : Depacketizer) (ssrc timestamp : UInt32) (now : Nat) : Depacketizer :=
  { d with
    first := some (d.first.getD now)
    nextGroup := d.nextGroup + 1
    groups := AList.singleton (ssrc, timestamp)
      ((Group.new now d.nextGroup).add (picture ssrc timestamp) now) }

theorem prepare_plain {ssrc : UInt32} {s : SourceObservation}
    (hs : d.observed.lookup ssrc = some s) (hplain : Plain s) (now : Nat) :
    d.prepare ssrc now = { d with first := some (d.first.getD now) } := by
  unfold Depacketizer.prepare
  rw [hs, Option.map_some, Option.getD_some, hplain.params]
  rfl

/-- The first packet of a generation waits for its repair window. -/
theorem pushAll_pending (tieBreak : Nat → Key) {ssrc : UInt32} {s : SourceObservation}
    (htiles : d.tiles = 1) (hsources : d.sources = [ssrc]) (hgroups : d.groups = ∅)
    (hlast : d.lastTs = ∅) (hs : d.observed.lookup ssrc = some s) (hplain : Plain s)
    (timestamp : UInt32) (now : Nat) :
    d.pushAll tieBreak now [picture ssrc timestamp] = some ([], begun d ssrc timestamp now) := by
  have hplaced : ({ d with first := some (d.first.getD now) } : Depacketizer).place tieBreak
      (picture ssrc timestamp) now = ([], begun d ssrc timestamp now) := by
    unfold Depacketizer.place Depacketizer.pendingBytes Depacketizer.insertPacket
    simp only [hgroups]
    rfl
  have hwaits :
      ((Group.new now d.nextGroup).add (picture ssrc timestamp) now).waits now = true := by
    show decide (now - now < holdMs) = true
    rw [Nat.sub_self]
    rfl
  have hpoll := poll_single (d := begun d ssrc timestamp now) (ssrc, timestamp)
    htiles hsources rfl hlast now
  rw [if_pos hwaits] at hpoll
  unfold Depacketizer.pushAll Depacketizer.pushSelected
  rw [show (picture ssrc timestamp).ssrc = ssrc from rfl, prepare_plain hs hplain, hplaced]
  dsimp only
  rw [hpoll]
  rfl

theorem pushAll_picture {tieBreak : Nat → Key} {ssrc timestamp : UInt32} {now : Nat}
    {events : List Event} {d' : Depacketizer} (hsafe : Safe d) (hsources : d.sources = [ssrc])
    (hall : d.pushAll tieBreak now [picture ssrc timestamp] = some (events, d')) :
    Safe d' ∧ Steady d events d' := by
  have hqueue : ∀ p ∈ [picture ssrc timestamp], p.ssrc ∈ d.sources := by
    intro p hp
    rw [List.mem_singleton.1 hp, hsources]
    exact List.mem_singleton_self _
  obtain ⟨_, _, hrun, _, hsafe', _⟩ := pushAll_run tieBreak hsafe now hqueue
  rw [hall] at hrun
  cases hrun
  exact ⟨hsafe', pushAll_steady tieBreak hsafe hqueue hall⟩

/-- A picture that is pending already stays as it is. -/
theorem pushAll_again (tieBreak : Nat → Key) {ssrc timestamp : UInt32} {s : SourceObservation}
    (htiles : d.tiles = 1) (hsources : d.sources = [ssrc]) {shown : Nat}
    (hpending : Pending ssrc timestamp shown d) (hs : d.observed.lookup ssrc = some s)
    (hplain : Plain s) {now : Nat} (hearly : now ≤ shown) :
    d.pushAll tieBreak now [picture ssrc timestamp] = some
      ([], { d with first := some (d.first.getD now), nextGroup := d.nextGroup + 1 }) := by
  obtain ⟨order, hgroups⟩ := hpending.groups
  have hlookup : d.groups.lookup (ssrc, timestamp) =
      some ((Group.new shown order).add (picture ssrc timestamp) shown) := by
    rw [hgroups]
    exact AList.lookup_insert ∅
  have hinsert : d.groups.insert (ssrc, timestamp)
      ((Group.new shown order).add (picture ssrc timestamp) shown) = d.groups := by
    rw [hgroups]
    exact AList.insert_singleton_eq
  have hplaced : ({ d with first := some (d.first.getD now) } : Depacketizer).place tieBreak
      (picture ssrc timestamp) now =
        ([], { d with first := some (d.first.getD now), nextGroup := d.nextGroup + 1 }) := by
    unfold Depacketizer.place Depacketizer.insertPacket
    dsimp only
    rw [show (picture ssrc timestamp).ssrc = ssrc from rfl,
      show (picture ssrc timestamp).timestamp = timestamp from rfl, hlookup,
      if_neg (fun hfull => hfull.1 rfl), if_neg (fun hfull => nomatch hfull.1)]
    dsimp only
    rw [hlookup, Option.getD_some,
      show ((Group.new shown order).add (picture ssrc timestamp) shown).add
        (picture ssrc timestamp) now = (Group.new shown order).add (picture ssrc timestamp) shown
        from rfl, hinsert]
    rfl
  have hwaits : ((Group.new shown order).add (picture ssrc timestamp) shown).waits now = true := by
    show decide (now - shown < holdMs) = true
    rw [Nat.sub_eq_zero_of_le hearly]
    rfl
  have hpoll := poll_single (ssrc, timestamp)
    (d := { d with first := some (d.first.getD now), nextGroup := d.nextGroup + 1 })
    htiles hsources hgroups hpending.lastTs now
  rw [if_pos hwaits] at hpoll
  unfold Depacketizer.pushAll Depacketizer.pushSelected
  rw [show (picture ssrc timestamp).ssrc = ssrc from rfl, prepare_plain hs hplain, hplaced]
  dsimp only
  rw [hpoll]
  rfl

/-- The other source takes over and shows a picture. -/
theorem Alternates.handoff (tieBreak : Nat → Key) (h : Alternates active other since d)
    (hne : other ≠ active) {now : Nat} (hquiet : since + 100 ≤ now) (timestamp : UInt32) :
    ∃ groups d', d.push tieBreak (picture other timestamp) now = some ([.cleared groups], d') ∧
      Alternates other active now d' ∧ Pending other timestamp now d' ∧
      d'.generation = saturatingSucc d.generation := by
  obtain ⟨s, hs, hplain, hlast⟩ := h.active
  obtain ⟨s', hs', hplain'⟩ := h.other
  rcases push_picture tieBreak h.safe hs' hplain' timestamp now with ⟨counters, hsafe, hpush⟩
  generalize hobserved : recorded { d with counters } other (SourceObservation.seen s' now) = d₀
    at hsafe hpush
  have hsources : d₀.sources = [active] := by
    rw [← hobserved]
    exact h.sources
  have htiles : d₀.tiles = 1 := by
    rw [← hobserved]
    exact h.tiles
  have hlookup : d₀.observed.lookup other = some (SourceObservation.seen s' now) := by
    rw [← hobserved]
    exact AList.lookup_insert _
  have hactive : d₀.observed.lookup active = some s := by
    rw [← hobserved]
    exact (AList.lookup_insert_ne hne.symm).trans hs
  have hdue : d₀.handoffDue (picture other timestamp) now = some true := by
    unfold Depacketizer.handoffDue
    rw [if_pos htiles, hsources, show (picture other timestamp).ssrc = other from rfl, hlookup]
    show (some active).map _ = _
    rw [Option.map_some, hactive, Option.any_some, Option.any_some, hlast,
      decide_eq_true (by omega : 100 ≤ now - since),
      decide_eq_true (hplain'.seen now).packets]
    rfl
  have hselect : d₀.select (picture other timestamp) now = some
      { selected := true
        events := [.cleared (d₀.groups.entries.map fun e => (e.1, e.2))]
        state := d₀.handoff other } := by
    unfold Depacketizer.select
    rw [if_neg (by rw [hsources]; exact fun hmem => hne (List.mem_singleton.1 hmem)),
      if_pos (by rw [htiles, hsources]; exact Nat.le_refl 1), hdue, Option.bind_some]
    rfl
  obtain ⟨_, hselected, _, hsafe₁, _⟩ := select_run hsafe (picture other timestamp) now
  rw [hselect] at hselected
  cases hselected
  have hlookup₁ : (d₀.handoff other).observed.lookup other =
      some (SourceObservation.seen s' now) := hlookup
  rw [hpush _ _ hselect hlookup₁]
  have hsafe₂ := (takePrefix_quiet hsafe₁ other).2.1
  rw [takePrefix_plain hlookup₁ (hplain'.seen now)] at hsafe₂
  have htaken := (hplain'.seen now).taken
  have hall := pushAll_pending tieBreak
    (d := recorded (d₀.handoff other) other
      (SourceObservation.taken (SourceObservation.seen s' now)))
    htiles rfl rfl rfl (AList.lookup_insert _) htaken timestamp now
  obtain ⟨hsafe₃, hsteady⟩ := pushAll_picture hsafe₂ rfl hall
  rw [hall]
  refine ⟨_, _, rfl, ?_, ?_, ?_⟩
  · exact alternates_of_steady hsafe₃ hsteady htiles rfl ⟨htaken, rfl⟩ hne.symm
      ⟨s, hactive, hplain⟩
  · exact ⟨⟨_, rfl⟩, rfl, rfl⟩
  · rw [← hobserved]
    rfl

theorem Alternates.stay (tieBreak : Nat → Key) (h : Alternates active other since d)
    (hne : other ≠ active) {timestamp : UInt32} {shown : Nat}
    (hpending : Pending active timestamp shown d) {now : Nat} (hearly : now ≤ shown) :
    ∃ d', d.push tieBreak (picture active timestamp) now = some ([], d') ∧
      Alternates active other now d' ∧ d'.generation = d.generation := by
  obtain ⟨s, hs, hplain, _⟩ := h.active
  rcases push_picture tieBreak h.safe hs hplain timestamp now with ⟨counters, hsafe, hpush⟩
  generalize hobserved : recorded { d with counters } active (SourceObservation.seen s now) = d₀
    at hsafe hpush
  have hsources : d₀.sources = [active] := by
    rw [← hobserved]
    exact h.sources
  have hmember : (picture active timestamp).ssrc ∈ d₀.sources := by
    rw [hsources]
    exact List.mem_singleton_self _
  have hlookup : d₀.observed.lookup active = some (SourceObservation.seen s now) := by
    rw [← hobserved]
    exact AList.lookup_insert _
  rw [hpush [] d₀ (if_pos hmember) hlookup]
  have hsafe₁ := (takePrefix_quiet hsafe active).2.1
  rw [takePrefix_plain hlookup (hplain.seen now)] at hsafe₁
  have htaken := (hplain.seen now).taken
  have hall := pushAll_again tieBreak
    (d := recorded d₀ active (SourceObservation.taken (SourceObservation.seen s now)))
    (by rw [← hobserved]; exact h.tiles) hsources
    (by rw [← hobserved]; exact ⟨hpending.groups, hpending.lastTs, hpending.params⟩)
    (AList.lookup_insert _) htaken hearly
  obtain ⟨hsafe₃, hsteady⟩ := pushAll_picture hsafe₁ hsources hall
  rw [hall]
  refine ⟨_, rfl, ?_, ?_⟩
  · obtain ⟨s', hs', hplain'⟩ := h.other
    apply alternates_of_steady hsafe₃ hsteady (by rw [← hobserved]; exact h.tiles) hsources
      ⟨htaken, rfl⟩ hne
    refine ⟨s', ?_, hplain'⟩
    rw [← hobserved]
    exact (AList.lookup_insert_ne hne).trans hs'
  · rw [← hobserved]
    rfl

/-- A pending picture is emitted once its repair window is over. -/
theorem Alternates.emits (h : Alternates active other since d) {timestamp : UInt32} {shown : Nat}
    (hpending : Pending active timestamp shown d) {now : Nat} (hdue : shown + 25 ≤ now) :
    ∃ g u d', d.poll now = some ([.resolved (active, timestamp) g (.emitted u)], d') ∧
      u.generation = d.generation ∧ u.rtpTimestamp = timestamp ∧
      Alternates active other since d' ∧ d'.generation = d.generation := by
  obtain ⟨s, hs, hplain, hlast⟩ := h.active
  obtain ⟨order, hgroups⟩ := hpending.groups
  generalize hg : (Group.new shown order).add (picture active timestamp) shown = g at hgroups
  have hwaits : ¬g.waits now = true := by
    rw [← hg]
    show ¬decide (now - shown < holdMs) = true
    rw [decide_eq_true_eq, holdMs]
    omega
  have hcontents : Contents (d.removeGroup (active, timestamp)) (active, timestamp) g
      [[38, 1, 128]] 0 := by
    have hdonl : (d.removeGroup (active, timestamp)).appleDonl active = true := by
      show ((d.observed.lookup active).bind SourceObservation.donl).getD true = true
      rw [hs, Option.bind_some, hplain.donl]
      rfl
    refine ⟨⟨0, by rw [← hg]; rfl, by rw [← hg]; rfl, ?_⟩,
      headed_singleton (by decide)⟩
    rw [hdonl, ← hg]
    show reassemble [[38, 1, 0, 0, 128]] true = _
    decide
  have hparams : paramsAfter (d.removeGroup (active, timestamp)) [[38, 1, 128]] = [] := by
    show d.params = []
    exact hpending.params
  obtain ⟨counters, hresolve⟩ := resolve_contents hcontents
  rw [hparams, show [[38, 1, 128]].filter isSlice = [[38, 1, 128]] by decide] at hresolve
  have htile : (d.removeGroup (active, timestamp)).sources.idxOf? active = some 0 := by
    show d.sources.idxOf? active = some 0
    rw [h.sources]
    simp [List.idxOf?]
  rw [finish_emits (by decide) (Or.inr (by decide)) (show parameterPrefix _ = some [] from rfl)
    htile] at hresolve
  have hpoll := poll_single _ h.tiles h.sources hgroups hpending.lastTs now
  rw [if_neg hwaits, hresolve, Option.map_some] at hpoll
  obtain ⟨_, _, hpolled, _, hsafe, _⟩ := poll_run now h.safe
  rw [hpoll] at hpolled
  cases hpolled
  have hsteady := poll_steady h.safe hpoll
  refine ⟨g, _, _, hpoll, rfl, rfl, ?_, rfl⟩
  exact ⟨hsafe, hsteady.tiles.trans h.tiles, hsteady.sources.trans h.sources, h.active, h.other⟩

/-- Four handoffs, after which the clock of the active source is set back. -/
def rounds : List Op :=
  [.push (picture 2 0) 100, .push (picture 1 0) 200, .push (picture 2 0) 300,
    .push (picture 1 0) 400, .push (picture 1 0) 0]

theorem le_saturatingSucc_of_le {n m : Nat} (h : min n (2 ^ 64 - 1) ≤ m) :
    min (n + 1) (2 ^ 64 - 1) ≤ saturatingSucc m := by
  unfold saturatingSucc
  split <;> omega

theorem rounds_raise (tieBreak : Nat → Key) {n : Nat} (h : Alternates 1 2 0 d)
    (hn : min n (2 ^ 64 - 1) ≤ d.generation) :
    ∃ events d', d.run tieBreak rounds = some (events, d') ∧ units events = [] ∧
      Alternates 1 2 0 d' ∧ min (n + 4) (2 ^ 64 - 1) ≤ d'.generation := by
  have hne : (2 : UInt32) ≠ 1 := by decide
  rcases h.handoff tieBreak hne (Nat.le_refl 100) 0 with ⟨e₁, d₁, hpush₁, h₁, _, hgeneration₁⟩
  rcases h₁.handoff tieBreak hne.symm (Nat.le_refl 200) 0 with
    ⟨e₂, d₂, hpush₂, h₂, _, hgeneration₂⟩
  rcases h₂.handoff tieBreak hne (Nat.le_refl 300) 0 with ⟨e₃, d₃, hpush₃, h₃, _, hgeneration₃⟩
  rcases h₃.handoff tieBreak hne.symm (Nat.le_refl 400) 0 with
    ⟨e₄, d₄, hpush₄, h₄, hpending, hgeneration₄⟩
  obtain ⟨d₅, hpush₅, h₅, hgeneration₅⟩ := h₄.stay tieBreak hne hpending (Nat.zero_le 400)
  refine ⟨[.cleared e₁, .cleared e₂, .cleared e₃, .cleared e₄], d₅, ?_, rfl, h₅, ?_⟩
  · unfold rounds
    simp only [Depacketizer.run, Depacketizer.step, hpush₁, hpush₂, hpush₃, hpush₄, hpush₅,
      Option.map_some]
    rfl
  · rw [hgeneration₅, hgeneration₄, hgeneration₃, hgeneration₂, hgeneration₁]
    exact le_saturatingSucc_of_le (le_saturatingSucc_of_le (le_saturatingSucc_of_le
      (le_saturatingSucc_of_le hn)))

theorem rounds_repeated (tieBreak : Nat → Key) (k : Nat) {n : Nat} (h : Alternates 1 2 0 d)
    (hn : min n (2 ^ 64 - 1) ≤ d.generation) :
    ∃ events d', d.run tieBreak (List.replicate k rounds).flatten = some (events, d') ∧
      units events = [] ∧ Alternates 1 2 0 d' ∧ min (n + 4 * k) (2 ^ 64 - 1) ≤ d'.generation := by
  induction k generalizing d n with
  | zero => exact ⟨[], d, rfl, rfl, h, hn⟩
  | succ k ih =>
      obtain ⟨events, m, hrounds, hnone, hm, hraised⟩ := rounds_raise tieBreak h hn
      obtain ⟨later, d', hrest, hnone', hd', hraised'⟩ := ih hm hraised
      rw [List.replicate_succ, List.flatten_cons]
      refine ⟨events ++ later, d', run_append tieBreak hrounds hrest, ?_, hd', ?_⟩
      · rw [units_append, hnone, hnone']
        rfl
      · rwa [Nat.mul_succ, Nat.add_comm (4 * k), ← Nat.add_assoc]

/-- Two sources send their first packets, and each takes over once. -/
def introductions : List Op :=
  List.replicate 8 (.push (picture 1 0) 0) ++ List.replicate 7 (.push (picture 2 0) 0) ++
    [.push (picture 2 0) 100, .push (picture 1 0) 200, .push (picture 1 0) 0]

/-- What `Alternates` and the counterexample read of a state. -/
def introduced (result : List Event × Depacketizer) :
    List AccessUnit × Nat × List UInt32 × Option SourceObservation × Option SourceObservation :=
  (units result.1, result.2.tiles, result.2.sources, result.2.observed.lookup 1,
    result.2.observed.lookup 2)

theorem introductions_alternate :
    ∃ events d, (Depacketizer.new 1).run (fun _ => (0, 0)) introductions = some (events, d) ∧
      units events = [] ∧ Alternates 1 2 0 d := by
  rcases run_trace (fun _ => (0, 0)) (safe_new 1) introductions with ⟨events, d, hrun, _, hsafe⟩
  have hvalue : ((Depacketizer.new 1).run (fun _ => (0, 0)) introductions).map introduced =
      some ([], 1, [1],
        some { packets := 10, last := 0, donl := none, params := [], prefixPackets := [],
               prefixBytes := 0 },
        some { packets := 8, last := 100, donl := none, params := [], prefixPackets := [],
               prefixBytes := 0 }) := by
    decide +kernel
  rw [hrun, Option.map_some, Option.some.injEq] at hvalue
  obtain ⟨hunits, htiles, hsources, hactive, hother⟩ : _ ∧ _ ∧ _ ∧ _ ∧ _ := by
    simpa only [introduced, Prod.mk.injEq] using hvalue
  refine ⟨events, d, hrun, hunits, hsafe, htiles, hsources, ⟨_, hactive, ?_, rfl⟩,
    ⟨_, hother, ?_⟩⟩
  · exact ⟨by decide, rfl, rfl, rfl⟩
  · exact ⟨by decide, rfl, rfl, rfl⟩

/-- Two key pictures of source 1 with the same timestamp, each after a handoff. -/
def shownTwice : List Op :=
  [.push (picture 2 0) 100, .push (picture 1 0) 200, .poll 225,
    .push (picture 2 0) 300, .push (picture 1 0) 400, .poll 425]

theorem shownTwice_repeats (tieBreak : Nat → Key) (h : Alternates 1 2 0 d)
    (hlimit : 2 ^ 64 - 1 ≤ d.generation) :
    ∃ first g u middle g' u' d', d.run tieBreak shownTwice =
        some (first ++ .resolved (1, 0) g (.emitted u) ::
          (middle ++ [.resolved (1, 0) g' (.emitted u')]), d') ∧
      units first = [] ∧ units middle = [] ∧ u.generation = u'.generation ∧
      u.rtpTimestamp = 0 ∧ u'.rtpTimestamp = 0 := by
  have hne : (2 : UInt32) ≠ 1 := by decide
  have hstays : saturatingSucc d.generation = d.generation :=
    if_neg (Nat.not_lt.2 hlimit)
  rcases h.handoff tieBreak hne (Nat.le_refl 100) 0 with ⟨e₁, d₁, hpush₁, h₁, _, hgeneration₁⟩
  rcases h₁.handoff tieBreak hne.symm (Nat.le_refl 200) 0 with
    ⟨e₂, d₂, hpush₂, h₂, hpending₂, hgeneration₂⟩
  rcases h₂.emits hpending₂ (Nat.le_refl 225) with
    ⟨g, u, d₃, hpoll₃, hu, htimestamp, h₃, hgeneration₃⟩
  rcases h₃.handoff tieBreak hne (Nat.le_refl 300) 0 with ⟨e₄, d₄, hpush₄, h₄, _, hgeneration₄⟩
  rcases h₄.handoff tieBreak hne.symm (Nat.le_refl 400) 0 with
    ⟨e₅, d₅, hpush₅, h₅, hpending₅, hgeneration₅⟩
  rcases h₅.emits hpending₅ (Nat.le_refl 425) with
    ⟨g', u', d₆, hpoll₆, hu', htimestamp', _, _⟩
  refine ⟨[.cleared e₁, .cleared e₂], g, u, [.cleared e₄, .cleared e₅], g', u', d₆, ?_, rfl, rfl,
    ?_, htimestamp, htimestamp'⟩
  · unfold shownTwice
    simp only [Depacketizer.run, Depacketizer.step, hpush₁, hpush₂, hpoll₃, hpush₄, hpush₅, hpoll₆,
      Option.map_some]
    rfl
  · rw [hu, hu', hgeneration₅, hgeneration₄, hgeneration₃, hgeneration₂, hgeneration₁]
    simp only [hstays]

end Alternating

theorem timestamp_repeated_after {k : Nat} (hk : 2 ^ 64 - 1 ≤ 4 * k) :
    ∃ events d first g u middle g' u',
      (Depacketizer.new 1).run (fun _ => (0, 0))
        (introductions ++ ((List.replicate k rounds).flatten ++ shownTwice)) = some (events, d) ∧
      events = first ++ .resolved (1, 0) g (.emitted u) ::
        (middle ++ [.resolved (1, 0) g' (.emitted u')]) ∧
      units first = [] ∧ units middle = [] ∧ u.generation = u'.generation ∧
      u.rtpTimestamp = 0 ∧ u'.rtpTimestamp = 0 := by
  obtain ⟨events, d, hstart, hnone, hd⟩ := introductions_alternate
  rcases rounds_repeated (fun _ => (0, 0)) k hd (n := 0) (by omega) with
    ⟨later, m, hrounds, hnone', hm, hraised⟩
  rcases shownTwice_repeats (fun _ => (0, 0)) hm (by omega) with
    ⟨first, g, u, middle, g', u', d', hshown, hfirst, hmiddle, hrest⟩
  refine ⟨_, d', events ++ (later ++ first), g, u, middle, g', u',
    run_append _ hstart (run_append _ hrounds hshown), ?_, ?_, hmiddle, hrest⟩
  · rw [List.append_assoc, List.append_assoc]
  · rw [units_append, units_append, hnone, hnone', hfirst]
    rfl

/-- After `2 ^ 64` handoffs the generation number stays, and a handoff forgets the last
timestamps: two key pictures of source 1 in a row have the same generation and the same
timestamp. -/
theorem timestamp_repeated :
    ∃ events d first g u middle g' u',
      (Depacketizer.new 1).run (fun _ => (0, 0))
        (introductions ++ ((List.replicate (2 ^ 62) rounds).flatten ++ shownTwice)) =
          some (events, d) ∧
      (units events).length < 2 ^ 63 ∧
      events = first ++ .resolved (1, 0) g (.emitted u) ::
        (middle ++ [.resolved (1, 0) g' (.emitted u')]) ∧
      (∀ k g u, .resolved k g (.emitted u) ∈ middle → k.1 ≠ 1) ∧
      u.generation = u'.generation ∧
      ¬0 < (u'.rtpTimestamp - u.rtpTimestamp).toBitVec.toInt := by
  rcases timestamp_repeated_after (k := 2 ^ 62) (by omega) with
    ⟨events, d, first, g, u, middle, g', u', hrun, hevents, hfirst, hmiddle, hgeneration, hu, hu'⟩
  refine ⟨events, d, first, g, u, middle, g', u', hrun, ?_, hevents, ?_, hgeneration, ?_⟩
  · have hunits : units events = [u, u'] := by
      rw [hevents, units_append, hfirst, units_cons, units_append, hmiddle]
      rfl
    rw [hunits]
    exact (by decide : 2 < 2 ^ 63)
  · intro key g u hmem
    have hunit := List.mem_filterMap.2 ⟨_, hmem, (rfl : Event.unit? (.resolved key g _) = some u)⟩
    rw [show List.filterMap Event.unit? middle = [] from hmiddle] at hunit
    cases hunit
  · rw [hu, hu']
    decide

end MacVnc.Media.DepacketizeSequence

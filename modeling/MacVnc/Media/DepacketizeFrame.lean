import MacVnc.Media.DepacketizeTrace
/-!
# What a call leaves alone

Once a packet's source is selected, the rest of the call changes neither the
sources nor the generation nor what was observed: every unit it emits carries the
generation and the index of its source in that state.
-/

namespace MacVnc.Media.DepacketizeFrame

open MacVnc.Media.Srtp (RtpPacket)
open MacVnc.Media.Depacketize
open MacVnc.Media.DepacketizeGroup
open MacVnc.Media.DepacketizeTrace

/-- The sources with a unit in this generation. -/
def Emitted (d : Depacketizer) (ssrc : UInt32) : Prop := (d.lastTs.lookup ssrc).isSome = true

instance (d : Depacketizer) (ssrc : UInt32) : Decidable (Emitted d ssrc) :=
  inferInstanceAs (Decidable (_ = true))

/-- Nothing happened to the sources, and all units are numbered by them. -/
structure Steady (d : Depacketizer) (events : List Event) (d' : Depacketizer) : Prop where
  tiles : d'.tiles = d.tiles
  sources : d'.sources = d.sources
  generation : d'.generation = d.generation
  observed : d'.observed = d.observed
  uncleared : ∀ groups, .cleared groups ∉ events
  units : ∀ key g u, .resolved key g (.emitted u) ∈ events →
    u.generation = d.generation ∧ d.sources.idxOf? key.1 = some u.tile ∧ Emitted d' key.1
  emitted : ∀ ssrc, Emitted d ssrc → Emitted d' ssrc

theorem Steady.refl (d : Depacketizer) : Steady d [] d :=
  ⟨rfl, rfl, rfl, rfl, nofun, nofun, fun _ h => h⟩

theorem Steady.trans {d m d' : Depacketizer} {first second : List Event} (h : Steady d first m)
    (h' : Steady m second d') : Steady d (first ++ second) d' where
  tiles := h'.tiles.trans h.tiles
  sources := h'.sources.trans h.sources
  generation := h'.generation.trans h.generation
  observed := h'.observed.trans h.observed
  uncleared groups hmem := by
    rcases List.mem_append.1 hmem with hfirst | hsecond
    · exact h.uncleared groups hfirst
    · exact h'.uncleared groups hsecond
  units key g u hmem := by
    rcases List.mem_append.1 hmem with hfirst | hsecond
    · obtain ⟨hgeneration, htile, hemitted⟩ := h.units key g u hfirst
      exact ⟨hgeneration, htile, h'.emitted key.1 hemitted⟩
    · have hunit := h'.units key g u hsecond
      rwa [h.generation, h.sources] at hunit
  emitted ssrc hemitted := h'.emitted ssrc (h.emitted ssrc hemitted)

theorem Steady.of_silent {d d' : Depacketizer} {events : List Event} (htiles : d'.tiles = d.tiles)
    (hsources : d'.sources = d.sources) (hgeneration : d'.generation = d.generation)
    (hobserved : d'.observed = d.observed) (hlast : d'.lastTs = d.lastTs)
    (hevents : ∀ e ∈ events, e.unit? = none ∧ ∀ groups, e ≠ .cleared groups) :
    Steady d events d' where
  tiles := htiles
  sources := hsources
  generation := hgeneration
  observed := hobserved
  uncleared groups hmem := (hevents _ hmem).2 groups rfl
  units key g u hmem := nomatch (hevents _ hmem).1
  emitted ssrc h := by
    unfold Emitted
    rwa [hlast]

theorem settles_steady {d d' : Depacketizer} {key : Key} {g : Group} {outcome : Outcome}
    (h : Settles d key g outcome d') : Steady d [.resolved key g outcome] d' := by
  have hsilent : ∀ reason, ∀ e ∈ [Event.resolved key g (.discarded reason)],
      e.unit? = none ∧ ∀ groups, e ≠ .cleared groups := by
    intro reason e he
    rw [List.mem_singleton.1 he]
    exact ⟨rfl, nofun⟩
  cases h with
  | incomplete reason => exact .of_silent rfl rfl rfl rfl rfl (hsilent reason)
  | headless => exact .of_silent rfl rfl rfl rfl rfl (hsilent _)
  | noSlices => exact .of_silent rfl rfl rfl rfl rfl (hsilent _)
  | preKey => exact .of_silent rfl rfl rfl rfl rfl (hsilent _)
  | emitted counters _ _ _ _ htile =>
      refine ⟨rfl, rfl, rfl, rfl, fun groups hmem => (nomatch List.mem_singleton.1 hmem), ?_, ?_⟩
      · intro key' g' u hmem
        cases List.mem_singleton.1 hmem
        refine ⟨rfl, htile, ?_⟩
        unfold Emitted
        rw [AList.lookup_insert]
        rfl
      · intro ssrc hemitted
        unfold Emitted at hemitted ⊢
        by_cases hsame : ssrc = key.1
        · rw [hsame, AList.lookup_insert]
          rfl
        · rwa [AList.lookup_insert_ne hsame]

/-- The ways in which the loop of `poll` goes on from a pending group. -/
inductive Polls (d : Depacketizer) (now : Nat) (key : Key) (keys : List Key) :
    List Event → Depacketizer → Prop
  | late {g later d'} : d.groups.lookup key = some g →
      Safe ({ d.removeGroup key with dropped := d.dropped + 1 }.count .lateTimestamp) →
      ({ d.removeGroup key with dropped := d.dropped + 1 }.count .lateTimestamp).pollLoop now keys =
        some (later, d') →
      Polls d now key keys (.resolved key g (.discarded .lateTimestamp) :: later) d'
  | waits {g} : d.groups.lookup key = some g → g.waits now = true → Polls d now key keys [] d
  | resolved {g outcome d₁ later d'} : d.groups.lookup key = some g →
      (d.removeGroup key).resolve key g = some (outcome, d₁) →
      Settles (d.removeGroup key) key g outcome d₁ → Safe d₁ →
      d₁.pollLoop now keys = some (later, d') →
      Polls d now key keys (.resolved key g outcome :: later) d'

theorem pollLoop_inversion {now : Nat} {d d' : Depacketizer} {key : Key} {keys : List Key}
    {events : List Event} (hsafe : Safe d)
    (hloop : d.pollLoop now (key :: keys) = some (events, d')) :
    Polls d now key keys events d' := by
  unfold Depacketizer.pollLoop at hloop
  split at hloop
  · cases hloop
  rename_i g hg
  split at hloop
  · obtain ⟨⟨later, last⟩, hlater, heq⟩ := Option.map_eq_some_iff.1 hloop
    cases heq
    exact .late hg (hsafe.late key) hlater
  split at hloop
  · rename_i hwaits
    cases hloop
    exact .waits hg hwaits
  · rcases resolve_settles g (hsafe.removeGroup key).params (hsafe.groups key g hg) with
      ⟨outcome, d₁, hresolve, hsettles⟩
    rw [hresolve] at hloop
    obtain ⟨⟨later, last⟩, hlater, heq⟩ := Option.map_eq_some_iff.1 hloop
    cases heq
    exact .resolved hg hresolve hsettles ((hsafe.removeGroup key).settles hsettles) hlater

theorem pollLoop_steady {now : Nat} {d d' : Depacketizer} {keys : List Key}
    {events : List Event} (hsafe : Safe d) (hloop : d.pollLoop now keys = some (events, d')) :
    Steady d events d' := by
  induction keys generalizing d events with
  | nil =>
      cases hloop
      exact .refl _
  | cons key keys ih =>
      cases pollLoop_inversion hsafe hloop with
      | @late g _ _ _ hsafe' hlater =>
          have hlate : Steady d [.resolved key g (.discarded .lateTimestamp)]
              ({ d.removeGroup key with dropped := d.dropped + 1 }.count .lateTimestamp) := by
            refine .of_silent rfl rfl rfl rfl rfl fun e he => ?_
            rw [List.mem_singleton.1 he]
            exact ⟨rfl, nofun⟩
          exact hlate.trans (ih hsafe' hlater)
      | waits => exact .refl _
      | @resolved g outcome d₁ _ _ _ _ hsettles hsafe' hlater =>
          have hremoved := settles_steady hsettles
          have hfirst : Steady d [.resolved key g outcome] d₁ :=
            ⟨hremoved.tiles, hremoved.sources, hremoved.generation, hremoved.observed,
              hremoved.uncleared, hremoved.units, hremoved.emitted⟩
          exact hfirst.trans (ih hsafe' hlater)

theorem poll_steady {now : Nat} {d d' : Depacketizer} {events : List Event} (hsafe : Safe d)
    (hpoll : d.poll now = some (events, d')) : Steady d events d' := by
  unfold Depacketizer.poll at hpoll
  split at hpoll
  · cases hpoll
    exact .refl _
  · exact pollLoop_steady hsafe hpoll

theorem evictGroup_steady (d : Depacketizer) (hint : Key) :
    Steady d (d.evictGroup hint).1 (d.evictGroup hint).2 := by
  unfold Depacketizer.evictGroup
  split
  · exact .refl _
  · refine .of_silent rfl rfl rfl rfl rfl fun e he => ?_
    rw [List.mem_singleton.1 he]
    exact ⟨rfl, nofun⟩

theorem insertPacket_steady (d : Depacketizer) (p : RtpPacket) (now : Nat) :
    Steady d (d.insertPacket p now).1 (d.insertPacket p now).2 := by
  unfold Depacketizer.insertPacket
  dsimp only
  split
  · refine .of_silent rfl rfl rfl rfl rfl fun e he => ?_
    rw [List.mem_singleton.1 he]
    exact ⟨rfl, nofun⟩
  · exact .of_silent rfl rfl rfl rfl rfl nofun

theorem place_steady (tieBreak : Nat → Key) (d : Depacketizer) (p : RtpPacket) (now : Nat) :
    Steady d (d.place tieBreak p now).1 (d.place tieBreak p now).2 := by
  unfold Depacketizer.place
  dsimp only
  split
  · refine .of_silent rfl rfl rfl rfl rfl fun e he => ?_
    rw [List.mem_singleton.1 he]
    exact ⟨rfl, nofun⟩
  · split
    · exact (evictGroup_steady d _).trans (insertPacket_steady _ p now)
    · exact (Steady.refl d).trans (insertPacket_steady d p now)

theorem pushSelected_steady {now : Nat} (tieBreak : Nat → Key) {d d' : Depacketizer}
    {p : RtpPacket} {events : List Event} (hsafe : Safe d) (hsource : p.ssrc ∈ d.sources)
    (hpush : d.pushSelected tieBreak p now = some (events, d')) : Steady d events d' := by
  obtain ⟨_, hsafe₁⟩ := prepare_quiet hsafe p.ssrc now
  obtain ⟨_, hsafe₂, _, _, _⟩ := place_run tieBreak hsafe₁ p now hsource
  obtain ⟨⟨later, last⟩, hpoll, heq⟩ := Option.map_eq_some_iff.1 hpush
  cases heq
  have hprepare : Steady d [] (d.prepare p.ssrc now) := .of_silent rfl rfl rfl rfl rfl nofun
  exact hprepare.trans ((place_steady tieBreak _ p now).trans (poll_steady hsafe₂ hpoll))

theorem pushAll_steady {now : Nat} (tieBreak : Nat → Key) {d d' : Depacketizer}
    {queue : List RtpPacket} {events : List Event} (hsafe : Safe d)
    (hsource : ∀ p ∈ queue, p.ssrc ∈ d.sources)
    (hpush : d.pushAll tieBreak now queue = some (events, d')) : Steady d events d' := by
  induction queue generalizing d events with
  | nil =>
      cases hpush
      exact .refl _
  | cons p rest ih =>
      rcases pushSelected_run tieBreak hsafe p now (hsource p List.mem_cons_self) with
        ⟨first, d₁, hfirst, _, hsafe₁, hsources, _, _⟩
      unfold Depacketizer.pushAll at hpush
      rw [hfirst] at hpush
      obtain ⟨⟨later, last⟩, hlater, heq⟩ := Option.map_eq_some_iff.1 hpush
      cases heq
      apply (pushSelected_steady tieBreak hsafe (hsource p List.mem_cons_self) hfirst).trans
      apply ih hsafe₁ _ hlater
      rw [hsources]
      exact fun q hq => hsource q (List.mem_cons_of_mem _ hq)

/-! ## What a push does -/

/-- How the source of a packet comes to be selected. -/
inductive Chosen (d : Depacketizer) (p : RtpPacket) (now : Nat) :
    List Event → Depacketizer → Prop
  | known : p.ssrc ∈ d.sources → Chosen d p now [] d
  | added : p.ssrc ∉ d.sources → d.sources.length < d.tiles →
      Chosen d p now [] { d with sources := (d.sources ++ [p.ssrc]).insertionSort (· ≤ ·) }
  | handoff : p.ssrc ∉ d.sources → d.tiles ≤ d.sources.length →
      d.handoffDue p now = some true →
      Chosen d p now [.cleared (d.groups.entries.map fun e => (e.1, e.2))] (d.handoff p.ssrc)

inductive Pushes (tieBreak : Nat → Key) (d : Depacketizer) (p : RtpPacket) (now : Nat) :
    List Event → Depacketizer → Prop
  | short {events d'} : p.payload.length < 2 → Safe ((d.countHeader p).count .short) →
      ((d.countHeader p).count .short).poll now = some (events, d') →
      Pushes tieBreak d p now events d'
  | held {d₁ d₂ events d'} : 2 ≤ p.payload.length → (d.countHeader p).observe p now = some d₁ →
      p.ssrc ∉ d₁.sources → d₁.tiles ≤ d₁.sources.length → d₁.handoffDue p now = some false →
      d₁.hold p = some d₂ → Safe d₂ → d₂.poll now = some (events, d') →
      Pushes tieBreak d p now events d'
  | selected {d₁ prior d₂ later d'} : 2 ≤ p.payload.length →
      (d.countHeader p).observe p now = some d₁ → Chosen d₁ p now prior d₂ →
      Safe (d₂.takePrefix p.ssrc).2 → p.ssrc ∈ (d₂.takePrefix p.ssrc).2.sources →
      (∀ q ∈ (d₂.takePrefix p.ssrc).1 ++ [p], q.ssrc = p.ssrc) →
      (d₂.takePrefix p.ssrc).2.pushAll tieBreak now ((d₂.takePrefix p.ssrc).1 ++ [p]) =
        some (later, d') →
      Pushes tieBreak d p now (prior ++ later) d'

theorem select_chosen {d : Depacketizer} {p : RtpPacket} {now : Nat} {s : Selection}
    (hselect : d.select p now = some s) :
    (s.selected = true ∧ Chosen d p now s.events s.state) ∨
      (s.selected = false ∧ s.events = [] ∧ p.ssrc ∉ d.sources ∧ d.tiles ≤ d.sources.length ∧
        d.handoffDue p now = some false ∧ d.hold p = some s.state) := by
  unfold Depacketizer.select at hselect
  split at hselect
  · rename_i hknown
    cases hselect
    exact Or.inl ⟨rfl, .known hknown⟩
  rename_i hnew
  split at hselect
  · rename_i hfull
    obtain ⟨replace, hdue, hchosen⟩ := Option.bind_eq_some_iff.1 hselect
    split at hchosen
    · rename_i hreplace
      subst hreplace
      cases hchosen
      exact Or.inl ⟨rfl, .handoff hnew hfull hdue⟩
    · rename_i hreplace
      rw [Bool.not_eq_true] at hreplace
      subst hreplace
      obtain ⟨d', hhold, heq⟩ := Option.map_eq_some_iff.1 hchosen
      cases heq
      exact Or.inr ⟨rfl, rfl, hnew, hfull, hdue, hhold⟩
  · rename_i hroom
    cases hselect
    exact Or.inl ⟨rfl, .added hnew (Nat.not_le.1 hroom)⟩

theorem push_inversion {tieBreak : Nat → Key} {d d' : Depacketizer} {p : RtpPacket} {now : Nat}
    {events : List Event} (hsafe : Safe d) (hpush : d.push tieBreak p now = some (events, d')) :
    Pushes tieBreak d p now events d' := by
  have hheader := countHeader_same d p
  unfold Depacketizer.push at hpush
  dsimp only at hpush
  split at hpush
  · rename_i hshort
    exact .short hshort ((hheader.count .short).safe hsafe) hpush
  rename_i hlong
  obtain ⟨d₁, hobserve, hselecting⟩ := Option.bind_eq_some_iff.1 hpush
  obtain ⟨s, hselect, hselected⟩ := Option.bind_eq_some_iff.1 hselecting
  rcases observe_quiet (hheader.safe hsafe) (Nat.not_lt.1 hlong) now with
    ⟨_, hobserve', _, hsafe₁, _⟩
  rw [hobserve] at hobserve'
  cases hobserve'
  obtain ⟨_, hselect', _, hsafe₂, hmember⟩ := select_run hsafe₁ p now
  rw [hselect] at hselect'
  cases hselect'
  rcases select_chosen hselect with ⟨htrue, hchosen⟩ | ⟨hfalse, hnone, hnew, hfull, hdue, hhold⟩
  · rw [if_pos htrue] at hselected
    obtain ⟨⟨later, last⟩, hall, heq⟩ := Option.map_eq_some_iff.1 hselected
    cases heq
    obtain ⟨_, hsafe₃, hsources, hprior⟩ := takePrefix_quiet hsafe₂ p.ssrc
    refine .selected (Nat.not_lt.1 hlong) hobserve hchosen hsafe₃ ?_ ?_ hall
    · rw [hsources]
      exact hmember htrue
    · intro q hq
      rcases List.mem_append.1 hq with hold | hlast
      · exact hprior q hold
      · rw [List.mem_singleton.1 hlast]
  · rw [if_neg (by rw [hfalse]; exact Bool.false_ne_true)] at hselected
    obtain ⟨⟨later, last⟩, hpoll, heq⟩ := Option.map_eq_some_iff.1 hselected
    cases heq
    rw [hnone]
    exact .held (Nat.not_lt.1 hlong) hobserve hnew hfull hdue hhold hsafe₂ hpoll

theorem observe_frame {d d' : Depacketizer} {p : RtpPacket} {now : Nat}
    (h : d.observe p now = some d') : ∃ observed, d' = { d with observed } := by
  unfold Depacketizer.observe at h
  split at h
  · obtain ⟨kind, _, heq⟩ := Option.bind_eq_some_iff.1 h
    cases heq
    exact ⟨_, rfl⟩
  · cases h
    exact ⟨_, rfl⟩

theorem hold_frame {d d' : Depacketizer} {p : RtpPacket} (h : d.hold p = some d') :
    ∃ observed counters, d' = { d with observed, counters } := by
  unfold Depacketizer.hold at h
  dsimp only at h
  split at h
  · split at h
    · cases h
      exact ⟨_, _, rfl⟩
    · obtain ⟨⟨held, bytes⟩, _, heq⟩ := Option.map_eq_some_iff.1 h
      cases heq
      exact ⟨_, _, rfl⟩
  · cases h
    exact ⟨_, _, rfl⟩

theorem takePrefix_frame (d : Depacketizer) (ssrc : UInt32) :
    ∃ observed, (d.takePrefix ssrc).2 = { d with observed } := by
  unfold Depacketizer.takePrefix
  split
  · exact ⟨_, rfl⟩
  · exact ⟨_, rfl⟩

/-! ## What is noted of a source -/

/-- The packets of a source, the time of the last one, and its framing. -/
def noted (d : Depacketizer) (ssrc : UInt32) : Option (Nat × Nat × Option Bool) :=
  (d.observed.lookup ssrc).map fun s => (s.packets, s.last, s.donl)

def Observable (d : Depacketizer) (ssrc : UInt32) : Prop :=
  (d.observed.lookup ssrc).isSome = true ∨ d.observed.keys.length < 32

instance (d : Depacketizer) (ssrc : UInt32) : Decidable (Observable d ssrc) :=
  inferInstanceAs (Decidable (_ ∨ _))

/-- The same is noted of the same sources. -/
structure SameNotes (d d' : Depacketizer) : Prop where
  noted : noted d' = noted d
  keys : d'.observed.keys.length = d.observed.keys.length

theorem SameNotes.of_observed {d d' : Depacketizer} (h : d'.observed = d.observed) :
    SameNotes d d' := by
  constructor
  · funext ssrc
    rw [DepacketizeFrame.noted, DepacketizeFrame.noted, h]
  · rw [h]

theorem SameNotes.trans {d m d' : Depacketizer} (h : SameNotes d m) (h' : SameNotes m d') :
    SameNotes d d' :=
  ⟨h'.noted.trans h.noted, h'.keys.trans h.keys⟩

theorem noted_insert (d : Depacketizer) (ssrc other : UInt32) (s : SourceObservation) :
    noted { d with observed := d.observed.insert ssrc s } other =
      if other = ssrc then some (s.packets, s.last, s.donl) else noted d other := by
  unfold noted
  by_cases hsame : other = ssrc
  · rw [if_pos hsame, hsame, show AList.lookup ssrc (d.observed.insert ssrc s) = some s from
      AList.lookup_insert _, Option.map_some]
  · rw [if_neg hsame, show AList.lookup other (d.observed.insert ssrc s) = _ from
      AList.lookup_insert_ne hsame]

theorem length_keys_insert (d : Depacketizer) (ssrc : UInt32) (s : SourceObservation) :
    (d.observed.insert ssrc s).keys.length =
      if (d.observed.lookup ssrc).isSome = true then d.observed.keys.length
      else d.observed.keys.length + 1 := by
  rw [AList.keys_insert, List.length_cons]
  by_cases hknown : (d.observed.lookup ssrc).isSome = true
  · have hmem : ssrc ∈ d.observed.keys := AList.lookup_isSome.1 hknown
    have hpos := List.length_pos_of_mem hmem
    rw [if_pos hknown, List.length_erase_of_mem hmem]
    omega
  · have hnew : ssrc ∉ d.observed.keys := fun hmem => hknown (AList.lookup_isSome.2 hmem)
    rw [if_neg hknown, List.erase_of_not_mem hnew]

theorem sameNotes_insert {d : Depacketizer} {ssrc : UInt32} {s s' : SourceObservation}
    (hs : d.observed.lookup ssrc = some s)
    (hsame : (s'.packets, s'.last, s'.donl) = (s.packets, s.last, s.donl)) :
    SameNotes d { d with observed := d.observed.insert ssrc s' } := by
  constructor
  · funext other
    rw [noted_insert, hsame]
    split
    · rename_i hother
      rw [hother, DepacketizeFrame.noted, hs, Option.map_some]
    · rfl
  · rw [length_keys_insert, if_pos (by rw [hs]; rfl)]

def observation (d : Depacketizer) (p : RtpPacket) (now : Nat) (kind : UInt8) :
    SourceObservation :=
  let s := (d.observed.lookup p.ssrc).getD Depacketizer.unobserved
  let s := { s with packets := s.packets + 1, last := now }
  if kind = 48 then Depacketizer.inferFraming s p.payload else s

theorem observe_inversion {d d₁ : Depacketizer} {p : RtpPacket} {now : Nat}
    (h : d.observe p now = some d₁) :
    (¬Observable d p.ssrc ∧ d₁ = d) ∨
      (Observable d p.ssrc ∧ ∃ kind, nalKind p.payload = some kind ∧
        d₁ = { d with observed := d.observed.insert p.ssrc (observation d p now kind) }) := by
  unfold Depacketizer.observe at h
  split at h
  · rename_i hroom
    obtain ⟨kind, hkind, heq⟩ := Option.bind_eq_some_iff.1 h
    cases heq
    exact Or.inr ⟨hroom, kind, hkind, rfl⟩
  · rename_i hfull
    cases h
    exact Or.inl ⟨hfull, rfl⟩

theorem hold_notes {d d' : Depacketizer} {p : RtpPacket} (h : d.hold p = some d') :
    SameNotes d d' := by
  unfold Depacketizer.hold at h
  dsimp only at h
  split at h
  · split at h
    · cases h
      exact .of_observed rfl
    · rename_i s hs
      obtain ⟨⟨held, bytes⟩, _, heq⟩ := Option.map_eq_some_iff.1 h
      cases heq
      have hcount : SameNotes d (d.count .unknownSource) := .of_observed rfl
      exact hcount.trans (sameNotes_insert hs rfl)
  · cases h
    exact .of_observed rfl

theorem takePrefix_notes (d : Depacketizer) (ssrc : UInt32) :
    SameNotes d (d.takePrefix ssrc).2 := by
  unfold Depacketizer.takePrefix
  split
  · exact .of_observed rfl
  · rename_i s hs
    exact sameNotes_insert hs rfl

theorem Chosen.observed {d d' : Depacketizer} {p : RtpPacket} {now : Nat} {events : List Event}
    (h : Chosen d p now events d') : d'.observed = d.observed := by
  cases h <;> rfl

/-- Everything that a push notes is noted when the packet is observed. -/
theorem Pushes.notes {tieBreak : Nat → Key} {d d' : Depacketizer} {p : RtpPacket} {now : Nat}
    {events : List Event} (h : Pushes tieBreak d p now events d') :
    (p.payload.length < 2 ∧ SameNotes d d') ∨
      (2 ≤ p.payload.length ∧
        ∃ d₁, (d.countHeader p).observe p now = some d₁ ∧ SameNotes d₁ d') := by
  cases h with
  | short hshort hsafe hpoll =>
      refine Or.inl ⟨hshort, .of_observed ?_⟩
      obtain ⟨counters, hheader⟩ := (countHeader_same d p).count .short
      rw [(poll_steady hsafe hpoll).observed, hheader]
  | held hlong hobserve _ _ _ hhold hsafe hpoll =>
      refine Or.inr ⟨hlong, _, hobserve, ?_⟩
      exact (hold_notes hhold).trans (.of_observed (poll_steady hsafe hpoll).observed)
  | selected hlong hobserve hchosen hsafe hmember hqueue hall =>
      refine Or.inr ⟨hlong, _, hobserve, ?_⟩
      have hsteady := pushAll_steady tieBreak hsafe (by
        intro q hq
        rw [hqueue q hq]
        exact hmember) hall
      exact (SameNotes.of_observed hchosen.observed).trans
        ((takePrefix_notes _ p.ssrc).trans (.of_observed hsteady.observed))

end MacVnc.Media.DepacketizeFrame

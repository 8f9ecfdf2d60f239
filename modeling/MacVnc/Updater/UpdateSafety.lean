import MacVnc.Updater.UpdateState
/-!
# What the threads of the updater do

A life cycle of releases and downloads that the events of every interleaving follow: one
thread at a time, no helper after an accepted cancellation, one launch that succeeds at most, and
helpers only for stages that were verified, of a release that a check has found.
-/

namespace MacVnc.Updater.UpdateState

open MacVnc.Lib (Text)
open MacVnc.Lib.Text
open MacVnc.Updater.Releases
open MacVnc.Updater.Prepare

/-! ## The life cycle -/

inductive Phase where
  | free
  | running (release : Release) (flag : Nat) (around : Surroundings) (cancelled : Bool)
  | handed (release : Release) (flag : Nat) (around : Surroundings)
  | polling (release : Release) (flag : Nat) (stage : Stage)
  | launched
  | finished

structure Lifecycle where
  known : List Release
  used : Nat
  phase : Phase

section Histories

variable (Offers : Release → Except Stop Response → Prop)
  (Ready : Release → Surroundings → Stage → Prop)

inductive Lifecycle.Next : Lifecycle → Event → Lifecycle → Prop
  | found {known : List Release} {used : Nat} {r : Release} {answer : Except Stop Response}
      (h : Offers r answer) :
      Next ⟨known, used, .free⟩ (.found r answer) ⟨r :: known, used, .free⟩
  | stale {known : List Release} {used f : Nat} (h : f < used) :
      Next ⟨known, used, .free⟩ (.cancelled f) ⟨known, used, .free⟩
  | started {known : List Release} {used : Nat} {r : Release} {around : Surroundings}
      (h : r ∈ known) :
      Next ⟨known, used, .free⟩ (.started r used around)
        ⟨known, used + 1, .running r used around false⟩
  | cancelled {known : List Release} {used f : Nat} {r : Release} {around : Surroundings}
      {c : Bool} :
      Next ⟨known, used, .running r f around c⟩ (.cancelled f)
        ⟨known, used, .running r f around true⟩
  | handedOver {known : List Release} {used f : Nat} {r : Release} {around : Surroundings} :
      Next ⟨known, used, .running r f around false⟩ (.handedOver f)
        ⟨known, used, .handed r f around⟩
  | stopped {known : List Release} {used f : Nat} {r : Release} {around : Surroundings}
      {c : Bool} :
      Next ⟨known, used, .running r f around c⟩ (.ended f) ⟨known, used, .free⟩
  | failed {known : List Release} {used f : Nat} {r : Release} {around : Surroundings} :
      Next ⟨known, used, .handed r f around⟩ (.ended f) ⟨known, used, .free⟩
  | spawned {known : List Release} {used f : Nat} {r : Release} {around : Surroundings}
      {stage : Stage} (h : Ready r around stage) :
      Next ⟨known, used, .handed r f around⟩ (.spawned r f stage)
        ⟨known, used, .polling r f stage⟩
  | lost {known : List Release} {used f : Nat} {r : Release} {stage : Stage} :
      Next ⟨known, used, .polling r f stage⟩ (.ended f) ⟨known, used, .free⟩
  | launched {known : List Release} {used f : Nat} {r : Release} {stage : Stage} :
      Next ⟨known, used, .polling r f stage⟩ (.launched f) ⟨known, used, .launched⟩
  | exits {known : List Release} {used : Nat} :
      Next ⟨known, used, .launched⟩ .exits ⟨known, used, .finished⟩

/-- The events of a life cycle from the start. -/
inductive History : List Event → Lifecycle → Prop
  | start : History [] ⟨[], 1, .free⟩
  | next {log : List Event} {l l' : Lifecycle} {e : Event} (h : History log l)
      (hnext : l.Next Offers Ready e l') : History (log ++ [e]) l'

/-- The helper was ready, and `launch` has returned. -/
def Event.isLaunch : Event → Bool
  | .launched _ => true
  | _ => false

/-- The download with this number has begun for a release that was found, it alone has this
number, and it has not started the helper. -/
structure Begun (log : List Event) (r : Release) (f : Nat) (around : Surroundings) : Prop where
  found : ∃ answer, Offers r answer ∧ .found r answer ∈ log
  started : .started r f around ∈ log
  only : ∀ r' around', .started r' f around' ∈ log → r' = r ∧ around' = around
  fresh : ∀ r' stage, .spawned r' f stage ∉ log
  first : ∀ e ∈ log, e.isLaunch = false

/-- The helper starts behind these events: for the stage that a download has verified, which was
handed over and which no cancellation had reached. -/
structure Spawn (before : List Event) (r : Release) (f : Nat) (stage : Stage) : Prop where
  ready : ∃ around, Begun Offers before r f around ∧ Ready r around stage
  handedOver : .handedOver f ∈ before
  uncancelled : .cancelled f ∉ before

/-- What is known of the events in each phase. -/
def Phase.Records (log : List Event) : Phase → Prop
  | .free => ∀ e ∈ log, e.isLaunch = false
  | .running r f around c => Begun Offers log r f around ∧ (c = false → .cancelled f ∉ log)
  | .handed r f around =>
      Begun Offers log r f around ∧ .handedOver f ∈ log ∧ .cancelled f ∉ log
  | .polling r f stage =>
      ∃ before, log = before ++ [.spawned r f stage] ∧ ∀ e ∈ before, e.isLaunch = false
  | .launched => ∃ before r f stage, log = before ++ [.spawned r f stage, .launched f] ∧
      ∀ e ∈ before, e.isLaunch = false
  | .finished => ∃ before r f stage, log = before ++ [.spawned r f stage, .launched f, .exits] ∧
      ∀ e ∈ before, e.isLaunch = false

structure Recorded (log : List Event) (l : Lifecycle) : Prop where
  known : ∀ r ∈ l.known, ∃ answer, Offers r answer ∧ .found r answer ∈ log
  cancelled : ∀ f, .cancelled f ∈ log → f < l.used
  started : ∀ r f around, .started r f around ∈ log → f < l.used
  spawned : ∀ r f stage, .spawned r f stage ∈ log → f < l.used
  spawns : ∀ before r f stage after, log = before ++ .spawned r f stage :: after →
    Spawn Offers Ready before r f stage
  phase : l.phase.Records Offers log

variable {Offers Ready}

theorem calm_concat {log : List Event} {e : Event} (h : ∀ e ∈ log, e.isLaunch = false)
    (he : e.isLaunch = false) : ∀ e' ∈ log ++ [e], e'.isLaunch = false := by
  rw [List.forall_mem_append, List.forall_mem_singleton]
  exact ⟨h, he⟩

theorem of_mem_concat {log : List Event} {e e' : Event} (h : e ∈ log ++ [e']) (he : e ≠ e') :
    e ∈ log := by
  rcases List.mem_append.1 h with h | h
  · exact h
  · exact absurd (List.mem_singleton.1 h) he

theorem not_mem_concat {log : List Event} {e e' : Event} (h : e ∉ log) (he : e ≠ e') :
    e ∉ log ++ [e'] := fun hmem => h (of_mem_concat hmem he)

theorem of_concat_eq {log before after : List Event} {e e' : Event}
    (h : log ++ [e] = before ++ e' :: after) :
    (before = log ∧ e' = e) ∨ ∃ rest, log = before ++ e' :: rest := by
  rcases List.eq_nil_or_concat after with rfl | ⟨rest, last, rfl⟩
  · obtain ⟨hlog, he⟩ := List.append_inj' h rfl
    exact .inl ⟨hlog.symm, (List.singleton_inj.1 he).symm⟩
  · rw [List.concat_eq_append, ← List.cons_append, ← List.append_assoc] at h
    exact .inr ⟨rest, (List.append_inj' h rfl).1⟩

/-- The event is that of a download which starts, or starts the helper. -/
def Event.begins : Event → Bool
  | .started _ _ _ | .spawned _ _ _ => true
  | _ => false

def Event.cancels : Event → Bool
  | .cancelled _ => true
  | _ => false

theorem Begun.concat {log : List Event} {r : Release} {f : Nat} {around : Surroundings}
    (h : Begun Offers log r f around) {e : Event} (hbegins : e.begins = false)
    (he : e.isLaunch = false) : Begun Offers (log ++ [e]) r f around where
  found := h.found.imp fun _ hfound => ⟨hfound.1, List.mem_append_left _ hfound.2⟩
  started := List.mem_append_left _ h.started
  only := fun r' a hmem => h.only r' a (of_mem_concat hmem (by rintro rfl; cases hbegins))
  fresh := fun r' stage => not_mem_concat (h.fresh r' stage) (by rintro rfl; cases hbegins)
  first := calm_concat h.first he

section Concat

variable {log : List Event} {l : Lifecycle} {e : Event}

theorem Recorded.found_concat (h : Recorded Offers Ready log l) :
    ∀ r ∈ l.known, ∃ answer, Offers r answer ∧ .found r answer ∈ log ++ [e] :=
  fun r hr => (h.known r hr).imp fun _ hfound => ⟨hfound.1, List.mem_append_left _ hfound.2⟩

/-- The life cycle goes on with an event. -/
theorem Recorded.concat (h : Recorded Offers Ready log l) {known : List Release} {used : Nat}
    {p : Phase} (hused : l.used ≤ used)
    (hknown : ∀ r ∈ known, ∃ answer, Offers r answer ∧ .found r answer ∈ log ++ [e])
    (hcancelled : ∀ f, .cancelled f = e → f < used)
    (hstarted : ∀ r f around, .started r f around = e → f < used)
    (hspawned : ∀ r f stage, .spawned r f stage = e →
      f < used ∧ Spawn Offers Ready log r f stage)
    (hphase : p.Records Offers (log ++ [e])) :
    Recorded Offers Ready (log ++ [e]) ⟨known, used, p⟩ := by
  refine ⟨hknown, fun f hf => ?_, fun r f around hf => ?_, fun r f stage hf => ?_,
    fun before r f stage after hlog => ?_, hphase⟩
  · rcases List.mem_append.1 hf with hf | hf
    · exact (h.cancelled f hf).trans_le hused
    · exact hcancelled f (List.mem_singleton.1 hf)
  · rcases List.mem_append.1 hf with hf | hf
    · exact (h.started r f around hf).trans_le hused
    · exact hstarted r f around (List.mem_singleton.1 hf)
  · rcases List.mem_append.1 hf with hf | hf
    · exact (h.spawned r f stage hf).trans_le hused
    · exact (hspawned r f stage (List.mem_singleton.1 hf)).1
  · rcases of_concat_eq hlog with ⟨rfl, hsame⟩ | ⟨rest, hlog⟩
    · exact (hspawned r f stage hsame).2
    · exact h.spawns before r f stage rest hlog

theorem Recorded.plain (h : Recorded Offers Ready log l) (hbegins : e.begins = false)
    (hcancels : e.cancels = false) {p : Phase} (hphase : p.Records Offers (log ++ [e])) :
    Recorded Offers Ready (log ++ [e]) ⟨l.known, l.used, p⟩ := by
  refine h.concat le_rfl h.found_concat (fun f hsame => ?_) (fun r f around hsame => ?_)
    (fun r f stage hsame => ?_) hphase
  · rw [← hsame] at hcancels
    cases hcancels
  · rw [← hsame] at hbegins
    cases hbegins
  · rw [← hsame] at hbegins
    cases hbegins

end Concat

theorem Recorded.next {log : List Event} {l l' : Lifecycle} {e : Event}
    (h : Recorded Offers Ready log l) (hnext : l.Next Offers Ready e l') :
    Recorded Offers Ready (log ++ [e]) l' := by
  have hknown := h.found_concat (e := e)
  have hphase := h.phase
  cases hnext with
  | @found known used r answer hr =>
      have hfound := h.plain (e := .found r answer) (p := .free) rfl rfl (calm_concat hphase rfl)
      refine { hfound with known := ?_ }
      rw [List.forall_mem_cons]
      exact ⟨⟨answer, hr, List.mem_append_right _ List.mem_cons_self⟩, hknown⟩
  | stale hf =>
      refine h.concat le_rfl hknown (fun f' hsame => ?_) (fun _ _ _ hsame => nomatch hsame)
        (fun _ _ _ hsame => nomatch hsame) (calm_concat hphase rfl)
      cases hsame
      exact hf
  | @started known used r around hr =>
      have hbegun : Begun Offers (log ++ [.started r used around]) r used around := by
        refine ⟨hknown r hr, List.mem_append_right _ List.mem_cons_self, fun r' a hmem => ?_,
          fun r' stage hmem => ?_, calm_concat hphase rfl⟩
        · rcases List.mem_append.1 hmem with hmem | hmem
          · exact absurd (h.started r' used a hmem) (Nat.lt_irrefl _)
          · cases List.mem_singleton.1 hmem
            exact ⟨rfl, rfl⟩
        · exact Nat.lt_irrefl _
            (h.spawned r' used stage (of_mem_concat hmem fun hsame => nomatch hsame))
      have huncancelled : .cancelled used ∉ log ++ [.started r used around] := fun hmem =>
        Nat.lt_irrefl _ (h.cancelled used (of_mem_concat hmem fun hsame => nomatch hsame))
      refine h.concat (Nat.le_succ _) hknown (fun _ hsame => nomatch hsame)
        (fun r' f a hsame => ?_) (fun _ _ _ hsame => nomatch hsame)
        ⟨hbegun, fun _ => huncancelled⟩
      cases hsame
      exact Nat.lt_succ_self _
  | @cancelled known used f r around c =>
      refine h.concat le_rfl hknown (fun f' hsame => ?_) (fun _ _ _ hsame => nomatch hsame)
        (fun _ _ _ hsame => nomatch hsame) ⟨hphase.1.concat rfl rfl, nofun⟩
      cases hsame
      exact h.started r f around hphase.1.started
  | handedOver =>
      exact h.plain rfl rfl ⟨hphase.1.concat rfl rfl, List.mem_append_right _ List.mem_cons_self,
        not_mem_concat (hphase.2 rfl) nofun⟩
  | stopped => exact h.plain (p := .free) rfl rfl (calm_concat hphase.1.first rfl)
  | failed => exact h.plain (p := .free) rfl rfl (calm_concat hphase.1.first rfl)
  | @spawned known used f r around stage hready =>
      refine h.concat le_rfl hknown (fun _ hsame => nomatch hsame)
        (fun _ _ _ hsame => nomatch hsame) (fun r' f' stage' hsame => ?_)
        ⟨log, rfl, hphase.1.first⟩
      cases hsame
      exact ⟨h.started r f around hphase.1.started, ⟨around, hphase.1, hready⟩, hphase.2.1,
        hphase.2.2⟩
  | lost =>
      obtain ⟨before, rfl, hcalm⟩ := hphase
      exact h.plain (p := .free) rfl rfl (calm_concat (calm_concat hcalm rfl) rfl)
  | @launched known used f r stage =>
      obtain ⟨before, rfl, hcalm⟩ := hphase
      refine h.plain (p := .launched) rfl rfl ⟨before, r, f, stage, ?_, hcalm⟩
      rw [List.append_assoc]
      rfl
  | exits =>
      obtain ⟨before, r, f, stage, rfl, hcalm⟩ := hphase
      refine h.plain (p := .finished) rfl rfl ⟨before, r, f, stage, ?_, hcalm⟩
      rw [List.append_assoc]
      rfl

theorem History.recorded {log : List Event} {l : Lifecycle} (h : History Offers Ready log l) :
    Recorded Offers Ready log l := by
  induction h with
  | start =>
      refine
        { known := fun _ hr => (List.not_mem_nil hr).elim
          cancelled := fun _ hf => (List.not_mem_nil hf).elim
          started := fun _ _ _ hf => (List.not_mem_nil hf).elim
          spawned := fun _ _ _ hf => (List.not_mem_nil hf).elim
          spawns := fun before r f stage after hlog => ?_
          phase := fun _ he => (List.not_mem_nil he).elim }
      exact absurd hlog.symm (List.append_ne_nil_of_right_ne_nil _ (List.cons_ne_nil _ _))
  | next h hnext ih => exact ih.next hnext

end Histories

/-! ## The threads -/

section Threads

variable {V : Type} [LinearOrder V]

/-- The release was parsed from this answer, as one behind this version. -/
def Offers (c : Crates V) (u : Settings) (r : Release) (answer : Except Stop Response) : Prop :=
  ∃ bytes api, Received answer bytes ∧ c.parseJson bytes = some api ∧
    Offered c.semver api u.version r

/-- The stage was prepared for this release, in these surroundings. -/
def Ready (c : Crates V) (r : Release) (around : Surroundings) (stage : Stage) : Prop :=
  Verified c.hash around r stage

def Ui.Calm : Ui → Prop
  | .ready | .looking _ | .callsCheck _ | .callsDownload _ | .dropped => True
  | _ => False

def Ui.release? : Ui → Option Release
  | .looking (.available r) | .callsDownload r | .downloads r | .arms r _ | .showsDownload r _ =>
      some r
  | _ => none

def State.release? : State → Option Release
  | .available r => some r
  | _ => none

inductive Worker.Prepares (c : Crates V) (r : Release) (f : Nat) (around : Surroundings) :
    Worker → Prop
  | preparing {reports : List Nat} {result : Except UpdateError Stage}
      (hreports : ∀ b ∈ reports, b ≤ r.size)
      (hresult : ∀ stage, result = .ok stage → Ready c r around stage) :
      Prepares c r f around (.preparing r f reports result)
  | prepared {stage : Stage} (h : Ready c r around stage) :
      Prepares c r f around (.prepared r f stage)
  | failing (e : UpdateError) : Prepares c r f around (.failing f e)

inductive Worker.Launches (c : Crates V) (r : Release) (f : Nat) (around : Surroundings) :
    Worker → Prop
  | launching {stage : Stage} (h : Ready c r around stage) :
      Launches c r f around (.launching r f stage)
  | failing (e : UpdateError) : Launches c r f around (.failing f e)

inductive Worker.Polls (f : Nat) : Worker → Prop
  | polling : Polls f (.polling f)
  | failing (e : UpdateError) : Polls f (.failing f e)

/-- Where the threads stand in a phase, with the number of flags that downloads have used. -/
inductive Place (c : Crates V) (u : Settings) (s : System) : Nat → Phase → Prop
  | idle (hworkers : s.workers = []) (hstate : s.shared.state.busy = false)
      (hui : s.ui.Calm ∨ (∃ now, s.ui = .checks now) ∨ ∃ r, s.ui = .downloads r) :
      Place c u s s.flags.length .free
  | showsCheck (hworkers : s.workers = []) (hstate : s.shared.state = .checking)
      (hui : s.ui = .showsCheck) : Place c u s s.flags.length .free
  | arms {r : Release} {f : Nat} (hworkers : s.workers = [])
      (hstate : s.shared.state.busy = false) (hui : s.ui = .arms r f)
      (hflag : s.shared.cancelled = f ∧ s.flags.length = f + 1 ∧ s.flag f = false) :
      Place c u s f .free
  | showsDownload {r : Release} {f : Nat} (hworkers : s.workers = [])
      (hstate : s.shared.state = .downloading r.version 0 r.size) (hui : s.ui = .showsDownload r f)
      (hflag : s.shared.cancelled = f ∧ s.flags.length = f + 1 ∧ s.flag f = false) :
      Place c u s f .free
  | checking {answer : Except Stop Response} {result : Except UpdateError (Option Release)}
      (hworkers : s.workers = [.checker answer result]) (hstate : s.shared.state = .checking)
      (hui : s.ui.Calm) (hresult : ∀ r, result = .ok (some r) → Offers c u r answer) :
      Place c u s s.flags.length .free
  | running {r : Release} {f bytes : Nat} {around : Surroundings} {w : Worker}
      (hworkers : s.workers = [w]) (hw : w.Prepares c r f around)
      (hstate : s.shared.state = .downloading r.version bytes r.size) (hbytes : bytes ≤ r.size)
      (hui : s.ui.Calm) (hflag : s.shared.cancelled = f) :
      Place c u s s.flags.length (.running r f around (s.flag f))
  | handed {r : Release} {f : Nat} {around : Surroundings} {w : Worker}
      (hworkers : s.workers = [w]) (hw : w.Launches c r f around)
      (hstate : s.shared.state = .restarting) (hui : s.ui.Calm) :
      Place c u s s.flags.length (.handed r f around)
  | polling {r : Release} {f : Nat} {stage : Stage} {w : Worker} (hworkers : s.workers = [w])
      (hw : w.Polls f) (hstate : s.shared.state = .restarting) (hui : s.ui.Calm) :
      Place c u s s.flags.length (.polling r f stage)
  | launched (hworkers : s.workers = [.launched]) (hstate : s.shared.state = .restarting)
      (hui : s.ui.Calm) : Place c u s s.flags.length .launched
  | finished (hworkers : s.workers = []) (hstate : s.shared.state = .restarting)
      (hui : s.ui.Calm) : Place c u s s.flags.length .finished

/-- The program has followed a life cycle up to here. -/
structure Follows (c : Crates V) (u : Settings) (s : System) (l : Lifecycle) : Prop where
  history : History (Offers c u) (Ready c) s.log l
  place : Place c u s l.used l.phase
  offered : ∀ r, s.shared.state.release? = some r ∨ s.ui.release? = some r → r ∈ l.known
  flag : s.shared.cancelled < s.flags.length
  exit : s.shared.exit = true ↔ l.phase = .finished

variable {c : Crates V} {u : Settings} {s : System} {l : Lifecycle} {n : Nat} {p : Phase}

theorem Place.move (h : Place c u s n p) (hs : s.ui.Calm) {ui : Ui} (hui : ui.Calm) :
    Place c u { s with ui } n p := by
  cases h with
  | idle hworkers hstate => exact .idle hworkers hstate (.inl hui)
  | showsCheck hworkers hstate hui' =>
      rw [hui'] at hs
      exact hs.elim
  | arms hworkers hstate hui' =>
      rw [hui'] at hs
      exact hs.elim
  | showsDownload hworkers hstate hui' =>
      rw [hui'] at hs
      exact hs.elim
  | checking hworkers hstate _ hresult => exact .checking hworkers hstate hui hresult
  | running hworkers hw hstate hbytes _ hflag => exact .running hworkers hw hstate hbytes hui hflag
  | handed hworkers hw hstate => exact .handed hworkers hw hstate hui
  | polling hworkers hw hstate => exact .polling hworkers hw hstate hui
  | launched hworkers hstate => exact .launched hworkers hstate hui
  | finished hworkers hstate => exact .finished hworkers hstate hui

/-- When nothing is busy no thread is there. -/
theorem Place.of_not_busy (h : Place c u s n p) (hs : s.ui.Calm)
    (hbusy : s.shared.state.busy = false) : s.workers = [] ∧ n = s.flags.length ∧ p = .free := by
  cases h with
  | idle hworkers => exact ⟨hworkers, rfl, rfl⟩
  | showsCheck _ hstate =>
      rw [hstate] at hbusy
      cases hbusy
  | arms _ _ hui =>
      rw [hui] at hs
      exact hs.elim
  | showsDownload _ hstate =>
      rw [hstate] at hbusy
      cases hbusy
  | checking _ hstate =>
      rw [hstate] at hbusy
      cases hbusy
  | running _ _ hstate =>
      rw [hstate] at hbusy
      cases hbusy
  | handed _ _ hstate =>
      rw [hstate] at hbusy
      cases hbusy
  | polling _ _ hstate =>
      rw [hstate] at hbusy
      cases hbusy
  | launched _ hstate =>
      rw [hstate] at hbusy
      cases hbusy
  | finished _ hstate =>
      rw [hstate] at hbusy
      cases hbusy

theorem Follows.move (h : Follows c u s l) (hs : s.ui.Calm) {ui : Ui} (hui : ui.Calm)
    (hoffered : ∀ r, ui.release? = some r → r ∈ l.known) : Follows c u { s with ui } l where
  history := h.history
  place := h.place.move hs hui
  offered := fun r hr => hr.elim (fun hr => h.offered r (.inl hr)) (hoffered r)
  flag := h.flag
  exit := h.exit

theorem cancel_of_restarting (h : s.shared.state = .restarting) : s.cancel = s := by
  unfold System.cancel
  rw [h]

theorem cancel_of_ne (h : s.shared.state ≠ .restarting) :
    s.cancel = ({ s with flags := s.flags.set s.shared.cancelled true } : System).emit
      (.cancelled s.shared.cancelled) := by
  unfold System.cancel
  split
  · rename_i hstate
    exact absurd hstate h
  · rfl

theorem flag_set {flags : List Bool} {f : Nat} (hf : f < flags.length) :
    (flags.set f true).getD f false = true := by
  rw [List.getD_eq_getElem?_getD, List.getElem?_set_self hf]
  rfl

/-- A cancellation is an event of the life cycle, or it comes too late. -/
theorem Follows.cancel (h : Follows c u s l) (hs : s.ui.Calm) : ∃ l', Follows c u s.cancel l' := by
  by_cases hrestarting : s.shared.state = .restarting
  · rw [cancel_of_restarting hrestarting]
    exact ⟨l, h⟩
  rw [cancel_of_ne hrestarting]
  have hlength : (s.flags.set s.shared.cancelled true).length = s.flags.length :=
    List.length_set
  obtain ⟨known, used, phase⟩ := l
  obtain ⟨hhistory, hplace, hoffered, hflag, hexits⟩ := h
  cases hplace with
  | idle hworkers hstate hui =>
      refine ⟨_, hhistory.next (.stale hflag), ?_, hoffered, hlength ▸ hflag, hexits⟩
      exact hlength ▸ .idle hworkers hstate hui
  | showsCheck _ _ hui =>
      rw [hui] at hs
      exact hs.elim
  | arms _ _ hui =>
      rw [hui] at hs
      exact hs.elim
  | showsDownload _ _ hui =>
      rw [hui] at hs
      exact hs.elim
  | checking hworkers hstate hui hresult =>
      refine ⟨_, hhistory.next (.stale hflag), ?_, hoffered, hlength ▸ hflag, hexits⟩
      exact hlength ▸ .checking hworkers hstate hui hresult
  | @running r f bytes around w hworkers hw hstate hbytes hui hcancelled =>
      subst hcancelled
      refine ⟨_, hhistory.next .cancelled, ?_, hoffered, hlength ▸ hflag,
        hexits.trans (iff_of_false nofun nofun)⟩
      let t : System := ({ s with flags := s.flags.set s.shared.cancelled true } : System).emit
        (.cancelled s.shared.cancelled)
      have hflags : t.flags.length = s.flags.length := hlength
      have hset : t.flag s.shared.cancelled = true := flag_set hflag
      have hrunning : Place c u t t.flags.length
          (.running r s.shared.cancelled around (t.flag s.shared.cancelled)) :=
        .running hworkers hw hstate hbytes hui rfl
      rwa [hflags, hset] at hrunning
  | handed _ _ hstate => exact absurd hstate hrestarting
  | polling _ _ hstate => exact absurd hstate hrestarting
  | launched _ hstate => exact absurd hstate hrestarting
  | finished _ hstate => exact absurd hstate hrestarting

/-- No thread starts while the window is about to start one. -/
theorem Place.of_calls (h : Place c u s n p) (hs : ¬ s.ui.Calm) :
    s.workers = [] ∧ p = .free := by
  cases h with
  | idle hworkers => exact ⟨hworkers, rfl⟩
  | showsCheck hworkers => exact ⟨hworkers, rfl⟩
  | arms hworkers => exact ⟨hworkers, rfl⟩
  | showsDownload hworkers => exact ⟨hworkers, rfl⟩
  | checking _ _ hui => exact absurd hui hs
  | running _ _ _ _ hui => exact absurd hui hs
  | handed _ _ _ hui => exact absurd hui hs
  | polling _ _ _ hui => exact absurd hui hs
  | launched _ _ hui => exact absurd hui hs
  | finished _ _ hui => exact absurd hui hs

theorem Place.of_chosen (h : Place c u s n p)
    (hs : (∃ now, s.ui = .checks now) ∨ ∃ r, s.ui = .downloads r) :
    s.shared.state.busy = false ∧ n = s.flags.length := by
  have hcalm : ¬ s.ui.Calm := by
    rcases hs with ⟨now, hui⟩ | ⟨r, hui⟩ <;> rw [hui] <;> exact id
  cases h with
  | idle _ hstate => exact ⟨hstate, rfl⟩
  | showsCheck _ _ hui => rcases hs with ⟨now, hs⟩ | ⟨r, hs⟩ <;> cases hui.symm.trans hs
  | arms _ _ hui => rcases hs with ⟨now, hs⟩ | ⟨r, hs⟩ <;> cases hui.symm.trans hs
  | showsDownload _ _ hui => rcases hs with ⟨now, hs⟩ | ⟨r, hs⟩ <;> cases hui.symm.trans hs
  | checking _ _ hui => exact absurd hui hcalm
  | running _ _ _ _ hui => exact absurd hui hcalm
  | handed _ _ _ hui => exact absurd hui hcalm
  | polling _ _ _ hui => exact absurd hui hcalm
  | launched _ _ hui => exact absurd hui hcalm
  | finished _ _ hui => exact absurd hui hcalm

theorem Place.of_flag (h : Place c u s n p) {r : Release} {f : Nat}
    (hs : s.ui = .arms r f ∨ s.ui = .showsDownload r f) :
    n = f ∧ s.shared.cancelled = f ∧ s.flags.length = f + 1 ∧ s.flag f = false := by
  have hcalm : ¬ s.ui.Calm := by
    rcases hs with hui | hui <;> rw [hui] <;> exact id
  cases h with
  | idle _ _ hui =>
      rcases hui with hui | ⟨now, hui⟩ | ⟨r, hui⟩
      · exact absurd hui hcalm
      · rcases hs with hs | hs <;> cases hui.symm.trans hs
      · rcases hs with hs | hs <;> cases hui.symm.trans hs
  | showsCheck _ _ hui => rcases hs with hs | hs <;> cases hui.symm.trans hs
  | arms _ _ hui hflag =>
      rcases hs with hs | hs <;> cases hui.symm.trans hs
      exact ⟨rfl, hflag⟩
  | showsDownload _ _ hui hflag =>
      rcases hs with hs | hs <;> cases hui.symm.trans hs
      exact ⟨rfl, hflag⟩
  | checking _ _ hui => exact absurd hui hcalm
  | running _ _ _ _ hui => exact absurd hui hcalm
  | handed _ _ _ hui => exact absurd hui hcalm
  | polling _ _ _ hui => exact absurd hui hcalm
  | launched _ _ hui => exact absurd hui hcalm
  | finished _ _ hui => exact absurd hui hcalm

theorem Follows.call (h : Follows c u s l) : ∃ l', Follows c u (call u s) l' := by
  have hkept : ∀ r, s.shared.state.release? = some r → r ∈ l.known :=
    fun r hr => h.offered r (.inl hr)
  unfold UpdateState.call
  split
  · rename_i now hui
    have hcalm : s.ui.Calm := by rw [hui]; trivial
    by_cases hguard : (!u.enabled || s.shared.state.busy) = true
    · rw [if_pos hguard]
      exact ⟨l, h.move hcalm trivial nofun⟩
    · rw [if_neg hguard]
      rw [Bool.or_eq_true, not_or, Bool.not_eq_true, Bool.not_eq_true] at hguard
      obtain ⟨hworkers, hused, hfree⟩ := h.place.of_not_busy hcalm hguard.2
      refine ⟨l, h.history, ?_, fun r hr => hr.elim (hkept r) nofun, h.flag, h.exit⟩
      rw [hused, hfree]
      exact .idle hworkers hguard.2 (.inr (.inl ⟨now, rfl⟩))
  · rename_i now hui
    have hcalm : ¬ s.ui.Calm := by rw [hui]; exact id
    obtain ⟨hworkers, hfree⟩ := h.place.of_calls hcalm
    obtain ⟨-, hused⟩ := h.place.of_chosen (.inl ⟨now, hui⟩)
    refine ⟨l, h.history, ?_, fun r hr => hr.elim nofun nofun, h.flag, h.exit⟩
    rw [hused, hfree]
    exact .showsCheck hworkers rfl rfl
  · rename_i release hui
    have hcalm : s.ui.Calm := by rw [hui]; trivial
    by_cases hguard : (!u.installable || s.shared.state.busy) = true
    · rw [if_pos hguard]
      exact ⟨l, h.move hcalm trivial nofun⟩
    · rw [if_neg hguard]
      rw [Bool.or_eq_true, not_or, Bool.not_eq_true, Bool.not_eq_true] at hguard
      obtain ⟨hworkers, hused, hfree⟩ := h.place.of_not_busy hcalm hguard.2
      refine ⟨l, h.history, ?_, fun r hr => hr.elim (hkept r) fun hr => ?_, h.flag, h.exit⟩
      · rw [hused, hfree]
        exact .idle hworkers hguard.2 (.inr (.inr ⟨release, rfl⟩))
      · exact h.offered r (.inr (by rw [hui]; exact hr))
  · rename_i release hui
    have hcalm : ¬ s.ui.Calm := by rw [hui]; exact id
    obtain ⟨hworkers, hfree⟩ := h.place.of_calls hcalm
    obtain ⟨hstate, hused⟩ := h.place.of_chosen (.inr ⟨release, hui⟩)
    have hlength : (s.flags ++ [false]).length = s.flags.length + 1 := List.length_append
    refine ⟨l, h.history, ?_, fun r hr => hr.elim (hkept r) fun hr => ?_, ?_, h.exit⟩
    · rw [hused, hfree]
      refine .arms hworkers hstate rfl ⟨rfl, hlength, ?_⟩
      show (s.flags ++ [false]).getD s.flags.length false = false
      simp
    · exact h.offered r (.inr (by rw [hui]; exact hr))
    · exact hlength ▸ Nat.lt_succ_self _
  · rename_i release flag hui
    have hcalm : ¬ s.ui.Calm := by rw [hui]; exact id
    obtain ⟨hworkers, hfree⟩ := h.place.of_calls hcalm
    obtain ⟨hused, hflag⟩ := h.place.of_flag (.inl hui)
    refine ⟨l, h.history, ?_, fun r hr => hr.elim nofun fun hr => ?_, h.flag, h.exit⟩
    · rw [hused, hfree]
      exact .showsDownload hworkers rfl rfl hflag
    · exact h.offered r (.inr (by rw [hui]; exact hr))
  · exact ⟨l, h⟩

theorem only_worker {w w' : Worker} {i : Nat} (hworkers : s.workers = [w'])
    (hi : s.workers[i]? = some w) :
    w = w' ∧ (s.endWorker i).workers = [] ∧ ∀ next, (s.setWorker i next).workers = [next] := by
  rw [hworkers] at hi
  cases i with
  | zero =>
      refine ⟨(Option.some.inj hi).symm, ?_, fun next => ?_⟩
      · rw [System.endWorker, hworkers]
        rfl
      · rw [System.setWorker, hworkers]
        rfl
  | succ i => cases hi

theorem Follows.checked (h : Follows c u s l) {i : Nat} {goes : Bool}
    {answer : Except Stop Response} {result : Except UpdateError (Option Release)}
    (hi : s.workers[i]? = some (.checker answer result))
    (hworkers : s.workers = [.checker answer result]) (hui : s.ui.Calm)
    (hresult : ∀ r, result = .ok (some r) → Offers c u r answer)
    (hused : l.used = s.flags.length) (hfree : l.phase = .free) :
    ∃ l', Follows c u (work s i goes (.checker answer result)) l' := by
  obtain ⟨-, hended, -⟩ := only_worker hworkers hi
  have hlooking : ∀ r, s.ui.release? = some r → r ∈ l.known := fun r hr => h.offered r (.inr hr)
  obtain ⟨known, used, phase⟩ := l
  cases hused
  cases hfree
  have hexit := h.exit
  match result with
  | .ok (some release) =>
      refine ⟨_, h.history.next (.found (hresult release rfl)), .idle hended rfl (.inl hui),
        fun r hr => ?_, h.flag, hexit⟩
      rcases hr with hr | hr
      · cases hr
        exact List.mem_cons_self
      · exact List.mem_cons_of_mem _ (hlooking r hr)
  | .ok none =>
      exact ⟨_, h.history, .idle hended rfl (.inl hui), fun r hr => hr.elim nofun (hlooking r),
        h.flag, hexit⟩
  | .error e =>
      exact ⟨_, h.history, .idle hended rfl (.inl hui), fun r hr => hr.elim nofun (hlooking r),
        h.flag, hexit⟩

theorem work_prepared_of_cancelled {i : Nat} {goes : Bool} {r : Release} {f : Nat}
    {stage : Stage} (h : s.flag f = true) :
    work s i goes (.prepared r f stage) =
      s.setWorker i (.failing f (.stopped .cancelled)) := if_pos h

theorem work_prepared {i : Nat} {goes : Bool} {r : Release} {f : Nat} {stage : Stage}
    (h : s.flag f = false) :
    work s i goes (.prepared r f stage) =
      ((s.setWorker i (.launching r f stage)).setState .restarting).emit (.handedOver f) :=
  if_neg ((Bool.not_eq_true _).mpr h)

/-- A download goes on, up to the hand-over. -/
theorem Follows.prepares (h : Follows c u s l) {i : Nat} {goes : Bool} {r : Release}
    {f bytes : Nat} {around : Surroundings} {w : Worker} (hi : s.workers[i]? = some w)
    (hworkers : s.workers = [w]) (hw : w.Prepares c r f around)
    (hstate : s.shared.state = .downloading r.version bytes r.size) (hbytes : bytes ≤ r.size)
    (hui : s.ui.Calm) (hflag : s.shared.cancelled = f) (hused : l.used = s.flags.length)
    (hphase : l.phase = .running r f around (s.flag f)) :
    ∃ l', Follows c u (work s i goes w) l' := by
  obtain ⟨-, hended, hset⟩ := only_worker hworkers hi
  obtain ⟨known, used, phase⟩ := l
  cases hused
  cases hphase
  have hlooking : ∀ r, s.ui.release? = some r → r ∈ known := fun r hr => h.offered r (.inr hr)
  cases hw with
  | @preparing reports result hreports hresult =>
      match reports, result with
      | bytes' :: reports, result =>
          refine ⟨_, h.history, .running (hset _) (.preparing ?_ hresult) rfl ?_ hui hflag,
            fun r hr => hr.elim nofun (hlooking r), h.flag, h.exit⟩
          · exact fun b hb => hreports b (List.mem_cons_of_mem _ hb)
          · exact hreports bytes' List.mem_cons_self
      | [], .error e =>
          exact ⟨_, h.history, .running (hset _) (.failing e) hstate hbytes hui hflag, h.offered,
            h.flag, h.exit⟩
      | [], .ok stage =>
          exact ⟨_, h.history, .running (hset _) (.prepared (hresult stage rfl)) hstate hbytes hui
            hflag, h.offered, h.flag, h.exit⟩
  | @prepared stage hready =>
      cases hcancelled : s.flag f with
      | true =>
          rw [work_prepared_of_cancelled hcancelled]
          have hplace : Place c u (s.setWorker i (.failing f (.stopped .cancelled))) _
              (.running r f around (s.flag f)) :=
            .running (hset _) (.failing _) hstate hbytes hui hflag
          exact ⟨_, h.history, hplace, h.offered, h.flag, h.exit⟩
      | false =>
          rw [work_prepared hcancelled]
          have hhistory := h.history
          rw [hcancelled] at hhistory
          exact ⟨_, hhistory.next .handedOver, .handed (hset _) (.launching hready) rfl hui,
            fun r hr => hr.elim nofun (hlooking r), h.flag, h.exit.trans (iff_of_false nofun nofun)⟩
  | failing e =>
      exact ⟨_, h.history.next .stopped, .idle hended rfl (.inl hui),
        fun r hr => hr.elim nofun (hlooking r), h.flag, h.exit.trans (iff_of_false nofun nofun)⟩

theorem Follows.launches (h : Follows c u s l) {i : Nat} {goes : Bool} {r : Release}
    {f : Nat} {around : Surroundings} {w : Worker} (hi : s.workers[i]? = some w)
    (hworkers : s.workers = [w]) (hw : w.Launches c r f around)
    (hstate : s.shared.state = .restarting) (hui : s.ui.Calm) (hused : l.used = s.flags.length)
    (hphase : l.phase = .handed r f around) : ∃ l', Follows c u (work s i goes w) l' := by
  obtain ⟨-, hended, hset⟩ := only_worker hworkers hi
  obtain ⟨known, used, phase⟩ := l
  cases hused
  cases hphase
  have hlooking : ∀ r, s.ui.release? = some r → r ∈ known := fun r hr => h.offered r (.inr hr)
  cases hw with
  | @launching stage hready =>
      cases goes with
      | true =>
          exact ⟨_, h.history.next (.spawned hready), .polling (hset _) .polling hstate hui,
            h.offered, h.flag, h.exit.trans (iff_of_false nofun nofun)⟩
      | false =>
          exact ⟨_, h.history, .handed (hset _) (.failing _) hstate hui, h.offered, h.flag, h.exit⟩
  | failing e =>
      exact ⟨_, h.history.next .failed, .idle hended rfl (.inl hui),
        fun r hr => hr.elim nofun (hlooking r), h.flag, h.exit.trans (iff_of_false nofun nofun)⟩

theorem Follows.polls (h : Follows c u s l) {i : Nat} {goes : Bool} {r : Release} {f : Nat}
    {stage : Stage} {w : Worker} (hi : s.workers[i]? = some w) (hworkers : s.workers = [w])
    (hw : w.Polls f) (hstate : s.shared.state = .restarting) (hui : s.ui.Calm)
    (hused : l.used = s.flags.length) (hphase : l.phase = .polling r f stage) :
    ∃ l', Follows c u (work s i goes w) l' := by
  obtain ⟨-, hended, hset⟩ := only_worker hworkers hi
  obtain ⟨known, used, phase⟩ := l
  cases hused
  cases hphase
  have hlooking : ∀ r, s.ui.release? = some r → r ∈ known := fun r hr => h.offered r (.inr hr)
  cases hw with
  | polling =>
      cases goes with
      | true =>
          exact ⟨_, h.history.next .launched, .launched (hset _) hstate hui, h.offered, h.flag,
            h.exit.trans (iff_of_false nofun nofun)⟩
      | false =>
          exact ⟨_, h.history, .polling (hset _) (.failing _) hstate hui, h.offered, h.flag, h.exit⟩
  | failing e =>
      exact ⟨_, h.history.next .lost, .idle hended rfl (.inl hui),
        fun r hr => hr.elim nofun (hlooking r), h.flag, h.exit.trans (iff_of_false nofun nofun)⟩

theorem Follows.exits (h : Follows c u s l) {i : Nat} {goes : Bool}
    (hi : s.workers[i]? = some .launched) (hworkers : s.workers = [.launched])
    (hstate : s.shared.state = .restarting) (hui : s.ui.Calm) (hused : l.used = s.flags.length)
    (hphase : l.phase = .launched) : ∃ l', Follows c u (work s i goes .launched) l' := by
  obtain ⟨-, hended, -⟩ := only_worker hworkers hi
  obtain ⟨known, used, phase⟩ := l
  cases hused
  cases hphase
  exact ⟨_, h.history.next .exits, .finished hended hstate hui, h.offered, h.flag,
    iff_of_true rfl rfl⟩

theorem Follows.work (h : Follows c u s l) {i : Nat} {goes : Bool} {w : Worker}
    (hi : s.workers[i]? = some w) : ∃ l', Follows c u (work s i goes w) l' := by
  have hplace := h.place
  generalize hused : l.used = used, hphase : l.phase = phase at hplace
  have hnone : s.workers ≠ [] := fun hworkers => by
    rw [hworkers] at hi
    cases hi
  cases hplace with
  | idle hworkers => exact absurd hworkers hnone
  | showsCheck hworkers => exact absurd hworkers hnone
  | arms hworkers => exact absurd hworkers hnone
  | showsDownload hworkers => exact absurd hworkers hnone
  | checking hworkers hstate hui hresult =>
      obtain ⟨rfl, -⟩ := only_worker hworkers hi
      exact h.checked hi hworkers hui hresult hused hphase
  | running hworkers hw hstate hbytes hui hflag =>
      obtain ⟨rfl, -⟩ := only_worker hworkers hi
      exact h.prepares hi hworkers hw hstate hbytes hui hflag hused hphase
  | handed hworkers hw hstate hui =>
      obtain ⟨rfl, -⟩ := only_worker hworkers hi
      exact h.launches hi hworkers hw hstate hui hused hphase
  | polling hworkers hw hstate hui =>
      obtain ⟨rfl, -⟩ := only_worker hworkers hi
      exact h.polls hi hworkers hw hstate hui hused hphase
  | launched hworkers hstate hui =>
      obtain ⟨rfl, -⟩ := only_worker hworkers hi
      exact h.exits hi hworkers hstate hui hused hphase
  | finished hworkers => exact absurd hworkers hnone

theorem Place.of_showsCheck (h : Place c u s n p) (hui : s.ui = .showsCheck) :
    n = s.flags.length ∧ s.shared.state = .checking := by
  have hcalm : ¬ s.ui.Calm := by rw [hui]; exact id
  cases h with
  | idle _ _ hui' =>
      rcases hui' with hui' | ⟨now, hui'⟩ | ⟨r, hui'⟩
      · exact absurd hui' hcalm
      · cases hui.symm.trans hui'
      · cases hui.symm.trans hui'
  | showsCheck _ hstate => exact ⟨rfl, hstate⟩
  | arms _ _ hui' => cases hui.symm.trans hui'
  | showsDownload _ _ hui' => cases hui.symm.trans hui'
  | checking _ _ hui' => exact absurd hui' hcalm
  | running _ _ _ _ hui' => exact absurd hui' hcalm
  | handed _ _ _ hui' => exact absurd hui' hcalm
  | polling _ _ _ hui' => exact absurd hui' hcalm
  | launched _ _ hui' => exact absurd hui' hcalm
  | finished _ _ hui' => exact absurd hui' hcalm

theorem Place.of_showsDownload (h : Place c u s n p) {r : Release} {f : Nat}
    (hui : s.ui = .showsDownload r f) :
    s.shared.state = .downloading r.version 0 r.size := by
  have hcalm : ¬ s.ui.Calm := by rw [hui]; exact id
  cases h with
  | idle _ _ hui' =>
      rcases hui' with hui' | ⟨now, hui'⟩ | ⟨r, hui'⟩
      · exact absurd hui' hcalm
      · cases hui.symm.trans hui'
      · cases hui.symm.trans hui'
  | showsCheck _ _ hui' => cases hui.symm.trans hui'
  | arms _ _ hui' => cases hui.symm.trans hui'
  | showsDownload _ hstate hui' =>
      cases hui.symm.trans hui'
      exact hstate
  | checking _ _ hui' => exact absurd hui' hcalm
  | running _ _ _ _ hui' => exact absurd hui' hcalm
  | handed _ _ _ hui' => exact absurd hui' hcalm
  | polling _ _ _ hui' => exact absurd hui' hcalm
  | launched _ _ hui' => exact absurd hui' hcalm
  | finished _ _ hui' => exact absurd hui' hcalm

theorem offers_of_findRelease {runtime client : Bool} {answer : Except Stop Response} {r : Release}
    (h : findRelease c.parseJson c.semver u.version runtime client answer = .ok (some r)) :
    Offers c u r answer := by
  obtain ⟨-, h⟩ := ok_of_guard h
  obtain ⟨-, h⟩ := ok_of_guard h
  obtain ⟨response, hsend, h⟩ := ok_of_bind h
  split at h
  · cases h
  obtain ⟨response', hstatus, h⟩ := ok_of_bind h
  rw [of_errorForStatus hstatus] at h
  obtain ⟨bytes, hbytes, h⟩ := ok_of_bind h
  obtain ⟨api, hapi, hoffered⟩ := parseRelease_ok (ok_of_mapError h)
  obtain ⟨hanswer, hfollow⟩ := of_send hsend
  obtain ⟨hbody, -⟩ := of_readBounded hbytes (Nat.zero_le _)
  rw [List.nil_append] at hbody
  exact ⟨bytes, api, ⟨response, hanswer, hbody.symm, hfollow⟩, hapi, hoffered⟩

theorem Follows.startCheck (h : Follows c u s l) (hui : s.ui = .showsCheck)
    (runtime client : Bool) (answer : Except Stop Response) :
    ∃ l', Follows c u
      { s with
        ui := .ready
        workers := s.workers ++
          [.checker answer
            (findRelease c.parseJson c.semver u.version runtime client answer)] } l' := by
  have hcalm : ¬ s.ui.Calm := by rw [hui]; exact id
  obtain ⟨hworkers, hfree⟩ := h.place.of_calls hcalm
  obtain ⟨hused, hstate⟩ := h.place.of_showsCheck hui
  refine ⟨l, h.history, ?_, fun r hr => hr.elim (fun hr => h.offered r (.inl hr)) nofun, h.flag,
    h.exit⟩
  rw [hused, hfree, hworkers]
  exact .checking rfl hstate trivial fun r hr => offers_of_findRelease hr

theorem step_startDownload {r : Release} {f : Nat} {around : Surroundings}
    {result : Except UpdateError Stage} {reports : List Nat} (hui : s.ui = .showsDownload r f)
    (hprepare : prepare c.hash c.parseIdentity c.openArchive around r = (result, reports)) :
    step c u s (.startDownload around) =
      ({ s with
        ui := .ready
        workers := s.workers ++ [.preparing r f reports result] } : System).emit
          (.started r f around) := by
  dsimp only [step]
  rw [hui]
  dsimp only
  rw [hprepare]

theorem Follows.startDownload (h : Follows c u s l) {r : Release} {f : Nat}
    (hui : s.ui = .showsDownload r f) (around : Surroundings) :
    ∃ l', Follows c u (step c u s (.startDownload around)) l' := by
  have hcalm : ¬ s.ui.Calm := by rw [hui]; exact id
  obtain ⟨hworkers, hfree⟩ := h.place.of_calls hcalm
  obtain ⟨hused, hcancelled, hflags, hflag⟩ := h.place.of_flag (.inr hui)
  have hstate := h.place.of_showsDownload hui
  have hknown : r ∈ l.known := h.offered r (.inr (by rw [hui]; rfl))
  obtain ⟨known, used, phase⟩ := l
  cases hused
  cases hfree
  cases hprepare : prepare c.hash c.parseIdentity c.openArchive around r with
  | mk result reports =>
      obtain ⟨total, hprogress⟩ :=
        prepare_progress c.hash c.parseIdentity c.openArchive around r
      rw [hprepare] at hprogress
      rw [step_startDownload hui hprepare, hworkers]
      let t : System := ({ s with
        ui := .ready
        workers := [.preparing r used reports result] } : System).emit (.started r used around)
      have hreports : ∀ b ∈ reports, b ≤ r.size :=
        fun b hb => (hprogress.reached b hb).trans hprogress.within
      have hready : ∀ stage, result = .ok stage → Ready c r around stage :=
        fun stage hstage => prepare_verified (hstage ▸ hprepare)
      have hrunning : Place c u t t.flags.length (.running r used around (t.flag used)) :=
        .running rfl (.preparing hreports hready) hstate (Nat.zero_le _) trivial hcancelled
      have hlength : t.flags.length = used + 1 := hflags
      have hclear : t.flag used = false := hflag
      rw [hlength, hclear] at hrunning
      exact ⟨_, h.history.next (.started hknown), hrunning,
        fun r hr => hr.elim (fun hr => h.offered r (.inl hr)) nofun, h.flag,
        h.exit.trans (iff_of_false nofun nofun)⟩

theorem release?_looking (state : State) : (Ui.looking state).release? = state.release? := by
  cases state <;> rfl

/-- What the window goes on to from its rest. -/
inductive Turn (u : Settings) (s : System) : Ui → Prop
  | ready : Turn u s .ready
  | looking : Turn u s (.looking s.shared.state)
  | callsCheck (now : Nat) (hu : u.enabled = true) : Turn u s (.callsCheck now)
  | callsDownload {r : Release} (hu : u.installable = true)
      (hui : s.ui = .looking (.available r)) : Turn u s (.callsDownload r)

theorem Turn.calm {ui : Ui} (h : Turn u s ui) : ui.Calm := by
  cases h <;> trivial

theorem Turn.release {ui : Ui} (h : Turn u s ui) {r : Release} (hr : ui.release? = some r) :
    s.shared.state.release? = some r ∨ s.ui.release? = some r := by
  cases h with
  | ready => cases hr
  | looking =>
      rw [release?_looking] at hr
      exact .inl hr
  | callsCheck now hu => cases hr
  | callsDownload hu hui =>
      rw [hui]
      exact .inr hr

/-- What a step does: the window turns to something, cancels, calls or starts a thread, or a
thread takes a step. -/
inductive Effect (c : Crates V) (u : Settings) (s : System) : System → Prop
  | unchanged : Effect c u s s
  | turned {ui : Ui} (hs : s.ui.Calm) (hui : Turn u s ui) : Effect c u s { s with ui }
  | cancelled {ui : Ui} (hs : s.ui.Calm) (hui : ui = .ready ∨ ui = .dropped) :
      Effect c u s ({ s with ui } : System).cancel
  | called : Effect c u s (call u s)
  | startedCheck (hui : s.ui = .showsCheck) (runtime client : Bool)
      (answer : Except Stop Response) :
      Effect c u s
        { s with
          ui := .ready
          workers := s.workers ++
            [.checker answer
              (findRelease c.parseJson c.semver u.version runtime client answer)] }
  | startedDownload {r : Release} {f : Nat} (hui : s.ui = .showsDownload r f)
      (around : Surroundings) : Effect c u s (step c u s (.startDownload around))
  | worked {i : Nat} {w : Worker} (hi : s.workers[i]? = some w) (goes : Bool) :
      Effect c u s (work s i goes w)

theorem step_effect (c : Crates V) (u : Settings) (s : System) (action : Action) :
    Effect c u s (step c u s action) := by
  cases action with
  | tick now =>
      dsimp only [UpdateState.step]
      split
      · rename_i hui hlast
        split
        · rename_i hguard
          exact .turned (by rw [hui]; trivial) (.callsCheck now hguard.1)
        · exact .unchanged
      · exact .unchanged
  | look =>
      dsimp only [UpdateState.step]
      split
      · rename_i hui
        exact .turned (by rw [hui]; trivial) .looking
      · exact .unchanged
  | clickDownload =>
      dsimp only [UpdateState.step]
      split
      · rename_i release hui
        split
        · rename_i hinstallable
          exact .turned (by rw [hui]; trivial) (.callsDownload hinstallable hui)
        · exact .unchanged
      · exact .unchanged
  | clickCancel =>
      dsimp only [UpdateState.step]
      split
      · rename_i hui
        exact .cancelled (by rw [hui]; trivial) (.inl rfl)
      · exact .unchanged
  | clickCheck now =>
      dsimp only [UpdateState.step]
      split
      · rename_i hui
        split
        · rename_i hguard
          exact .turned (by rw [hui]; trivial) (.callsCheck now hguard.1)
        · exact .unchanged
      · exact .unchanged
  | close =>
      dsimp only [UpdateState.step]
      split
      · rename_i hui
        exact .turned (by rw [hui]; trivial) .ready
      · exact .unchanged
  | drop =>
      dsimp only [UpdateState.step]
      split
      · rename_i hui
        exact .cancelled (by rw [hui]; trivial) (.inr rfl)
      · exact .unchanged
  | call => exact .called
  | startCheck runtime client answer =>
      dsimp only [UpdateState.step]
      split
      · exact .startedCheck ‹_› runtime client answer
      · exact .unchanged
  | startDownload around =>
      by_cases hui : ∃ r f, s.ui = .showsDownload r f
      · obtain ⟨r, f, hui⟩ := hui
        exact .startedDownload hui around
      · dsimp only [UpdateState.step]
        split
        · exact absurd ⟨_, _, ‹_›⟩ hui
        · exact .unchanged
  | work i goes =>
      dsimp only [UpdateState.step]
      split
      · exact .worked ‹_› goes
      · exact .unchanged

theorem Follows.effect (h : Follows c u s l) {t : System} (heffect : Effect c u s t) :
    ∃ l', Follows c u t l' := by
  cases heffect with
  | unchanged => exact ⟨l, h⟩
  | turned hs hui => exact ⟨l, h.move hs hui.calm fun r hr => h.offered r (hui.release hr)⟩
  | cancelled hs hui =>
      rcases hui with rfl | rfl
      · have hready := h.move hs (show Ui.ready.Calm from trivial) nofun
        exact hready.cancel trivial
      · have hdropped := h.move hs (show Ui.dropped.Calm from trivial) nofun
        exact hdropped.cancel trivial
  | called => exact h.call
  | startedCheck hui runtime client answer => exact h.startCheck hui runtime client answer
  | startedDownload hui around => exact h.startDownload hui around
  | worked hi goes => exact h.work hi

theorem Follows.run (h : Follows c u s l) (actions : List Action) :
    ∃ l', Follows c u (run c u s actions) l' := by
  induction actions generalizing s l with
  | nil => exact ⟨l, h⟩
  | cons action rest ih =>
      obtain ⟨l', hnext⟩ := h.effect (step_effect c u s action)
      exact ih hnext

/-! ## Without an installation -/

def Ui.Unarmed : Ui → Prop
  | .callsDownload _ | .downloads _ | .arms _ _ | .showsDownload _ _ => False
  | _ => True

def Event.isStart : Event → Bool
  | .started _ _ _ => true
  | _ => false

/-- No download has started, and none will. -/
structure Unarmed (s : System) : Prop where
  ui : s.ui.Unarmed
  log : ∀ e ∈ s.log, e.isStart = false

theorem Unarmed.emit (h : Unarmed s) {t : System} {e : Event} (hui : t.ui = s.ui)
    (hlog : t.log = s.log) (he : e.isStart = false) : Unarmed (t.emit e) where
  ui := hui ▸ h.ui
  log := by
    rw [System.emit, hlog, List.forall_mem_append, List.forall_mem_singleton]
    exact ⟨h.log, he⟩

theorem Unarmed.cancel (h : Unarmed s) : Unarmed s.cancel := by
  unfold System.cancel
  split
  · exact h
  · exact h.emit rfl rfl rfl

theorem Unarmed.work (h : Unarmed s) (i : Nat) (goes : Bool) (w : Worker) :
    Unarmed (work s i goes w) := by
  unfold UpdateState.work
  split
  · split
    · exact h.emit rfl rfl rfl
    · exact ⟨h.ui, h.log⟩
    · exact ⟨h.ui, h.log⟩
  · exact ⟨h.ui, h.log⟩
  · exact ⟨h.ui, h.log⟩
  · exact ⟨h.ui, h.log⟩
  · split
    · exact ⟨h.ui, h.log⟩
    · exact h.emit rfl rfl rfl
  · split
    · exact h.emit rfl rfl rfl
    · exact ⟨h.ui, h.log⟩
  · split
    · exact h.emit rfl rfl rfl
    · exact ⟨h.ui, h.log⟩
  · exact h.emit rfl rfl rfl
  · exact h.emit rfl rfl rfl

theorem Unarmed.call (h : Unarmed s) : Unarmed (call u s) := by
  have hui := h.ui
  unfold UpdateState.call
  split
  · refine ⟨?_, h.log⟩
    dsimp only
    split <;> trivial
  · exact ⟨trivial, h.log⟩
  · rename_i hui'
    rw [hui'] at hui
    exact hui.elim
  · rename_i hui'
    rw [hui'] at hui
    exact hui.elim
  · rename_i hui'
    rw [hui'] at hui
    exact hui.elim
  · exact h

theorem Unarmed.effect (h : Unarmed s) (hu : u.installable = false) {t : System}
    (heffect : Effect c u s t) : Unarmed t := by
  cases heffect with
  | unchanged => exact h
  | turned hs hui =>
      refine ⟨?_, h.log⟩
      cases hui with
      | callsDownload hinstallable =>
          rw [hu] at hinstallable
          cases hinstallable
      | _ => trivial
  | cancelled hs hui => exact Unarmed.cancel ⟨by rcases hui with rfl | rfl <;> trivial, h.log⟩
  | called => exact h.call
  | startedCheck hui runtime client answer => exact ⟨trivial, h.log⟩
  | startedDownload hui around =>
      have hunarmed := h.ui
      rw [hui] at hunarmed
      exact hunarmed.elim
  | worked hi goes => exact h.work _ goes _

theorem Unarmed.run (h : Unarmed s) (hu : u.installable = false) (actions : List Action) :
    Unarmed (run c u s actions) := by
  induction actions generalizing s with
  | nil => exact h
  | cons action rest ih => exact ih (h.effect hu (step_effect c u s action))

structure Resting (s : System) : Prop where
  workers : s.workers = []
  state : s.shared.state.busy = false
  exit : s.shared.exit = false
  ui : s.ui = .ready ∨ (∃ seen, s.ui = .looking seen) ∨ s.ui = .dropped
  log : ∀ e ∈ s.log, ∃ f, e = .cancelled f

theorem Resting.cancel (h : Resting s) : Resting s.cancel := by
  unfold System.cancel
  split
  · exact h
  · refine ⟨h.workers, h.state, h.exit, h.ui, ?_⟩
    rw [System.emit, List.forall_mem_append, List.forall_mem_singleton]
    exact ⟨h.log, _, rfl⟩

theorem Resting.effect (h : Resting s) (hu : u.enabled = false) {t : System}
    (heffect : Effect c u s t) : Resting t := by
  have hinstallable : u.installable = false := by rw [Settings.installable, hu, Bool.false_and]
  cases heffect with
  | unchanged => exact h
  | turned hs hui =>
      refine ⟨h.workers, h.state, h.exit, ?_, h.log⟩
      cases hui with
      | ready => exact .inl rfl
      | looking => exact .inr (.inl ⟨_, rfl⟩)
      | callsCheck now henabled =>
          rw [hu] at henabled
          cases henabled
      | callsDownload harmed =>
          rw [hinstallable] at harmed
          cases harmed
  | cancelled hs hui =>
      exact Resting.cancel ⟨h.workers, h.state, h.exit, hui.imp_right .inr, h.log⟩
  | called =>
      unfold UpdateState.call
      rcases h.ui with hui | ⟨seen, hui⟩ | hui <;> rw [hui] <;> exact h
  | startedCheck hstarts runtime client answer =>
      rcases h.ui with hui | ⟨seen, hui⟩ | hui <;> rw [hui] at hstarts <;> cases hstarts
  | startedDownload hstarts around =>
      rcases h.ui with hui | ⟨seen, hui⟩ | hui <;> rw [hui] at hstarts <;> cases hstarts
  | worked hi goes =>
      rw [h.workers] at hi
      cases hi

theorem Resting.run (h : Resting s) (hu : u.enabled = false) (actions : List Action) :
    Resting (run c u s actions) := by
  induction actions generalizing s with
  | nil => exact h
  | cons action rest ih => exact ih (h.effect hu (step_effect c u s action))

/-! ## Every interleaving -/

/-- What no order of the steps breaks. -/
structure Safe (c : Crates V) (u : Settings) (s : System) : Prop where
  alone : s.workers.length ≤ 1
  quiet : s.shared.state.busy = false → s.workers = []
  progress : ∀ version bytes total,
    s.shared.state = .downloading version bytes total → bytes ≤ total
  spawns : ∀ before r f stage after, s.log = before ++ .spawned r f stage :: after →
    Spawn (Offers c u) (Ready c) before r f stage
  launch : (∀ e ∈ s.log, e.isLaunch = false) ∨ ∃ before r f stage,
    (∀ e ∈ before, e.isLaunch = false) ∧
      (s.log = before ++ [.spawned r f stage, .launched f] ∨
        s.log = before ++ [.spawned r f stage, .launched f, .exits])
  exit : s.shared.exit = true → ∃ e ∈ s.log, e.isLaunch = true
  installable : u.installable = false → ∀ e ∈ s.log, e.isStart = false
  enabled : u.enabled = false → s.workers = []

theorem start_unarmed (u : Settings) (now : Nat) : Unarmed (start u now) where
  ui := by
    dsimp only [start]
    split <;> trivial
  log := fun _ he => (List.not_mem_nil he).elim

theorem start_resting {u : Settings} (hu : u.enabled = false) (now : Nat) :
    Resting (start u now) where
  workers := rfl
  state := by
    dsimp only [start]
    split <;> rfl
  exit := rfl
  ui := .inl (by rw [start, hu]; rfl)
  log := fun _ he => (List.not_mem_nil he).elim

theorem start_follows {u : Settings} (hu : u.enabled = true) (now : Nat) :
    Follows c u (start u now) ⟨[], 1, .free⟩ := by
  have hsmoke : u.smoke = false := by
    rw [Settings.enabled, Bool.and_eq_true, Bool.not_eq_true'] at hu
    exact hu.2
  have hstart : start u now =
      { shared := { state := .idle, cancelled := 0, exit := false }
        flags := [false]
        lastCheck := none
        ui := .callsCheck now
        workers := []
        log := [] } := by
    rw [start, hu, hsmoke]
    rfl
  rw [hstart]
  exact ⟨.start, .idle rfl rfl (.inl trivial), fun r hr => hr.elim nofun nofun, Nat.zero_lt_one,
    iff_of_false nofun nofun⟩

theorem Follows.launch (h : Follows c u s l) :
    (∀ e ∈ s.log, e.isLaunch = false) ∨ ∃ before r f stage,
      (∀ e ∈ before, e.isLaunch = false) ∧
        (s.log = before ++ [.spawned r f stage, .launched f] ∨
          s.log = before ++ [.spawned r f stage, .launched f, .exits]) := by
  have hphase := h.history.recorded.phase
  obtain ⟨known, used, phase⟩ := l
  cases phase with
  | free => exact .inl hphase
  | running r f around cancelled => exact .inl hphase.1.first
  | handed r f around => exact .inl hphase.1.first
  | polling r f stage =>
      obtain ⟨before, hlog, hcalm⟩ := hphase
      rw [hlog]
      exact .inl (calm_concat hcalm rfl)
  | launched =>
      obtain ⟨before, r, f, stage, hlog, hcalm⟩ := hphase
      exact .inr ⟨before, r, f, stage, hcalm, .inl hlog⟩
  | finished =>
      obtain ⟨before, r, f, stage, hlog, hcalm⟩ := hphase
      exact .inr ⟨before, r, f, stage, hcalm, .inr hlog⟩

theorem Follows.exit_launch (h : Follows c u s l) (hexit : s.shared.exit = true) :
    ∃ e ∈ s.log, e.isLaunch = true := by
  have hphase := h.history.recorded.phase
  rw [h.exit.1 hexit] at hphase
  obtain ⟨before, r, f, stage, hlog, -⟩ := hphase
  refine ⟨.launched f, ?_, rfl⟩
  rw [hlog]
  exact List.mem_append_right _ (List.mem_cons_of_mem _ List.mem_cons_self)

theorem Place.workers_le (h : Place c u s n p) : s.workers.length ≤ 1 := by
  cases h with
  | idle hworkers => exact hworkers ▸ Nat.zero_le _
  | showsCheck hworkers => exact hworkers ▸ Nat.zero_le _
  | arms hworkers => exact hworkers ▸ Nat.zero_le _
  | showsDownload hworkers => exact hworkers ▸ Nat.zero_le _
  | checking hworkers => exact hworkers ▸ Nat.le_refl _
  | running hworkers => exact hworkers ▸ Nat.le_refl _
  | handed hworkers => exact hworkers ▸ Nat.le_refl _
  | polling hworkers => exact hworkers ▸ Nat.le_refl _
  | launched hworkers => exact hworkers ▸ Nat.le_refl _
  | finished hworkers => exact hworkers ▸ Nat.zero_le _

theorem Place.quiet (h : Place c u s n p) (hbusy : s.shared.state.busy = false) :
    s.workers = [] := by
  by_cases hcalm : s.ui.Calm
  · exact (h.of_not_busy hcalm hbusy).1
  · exact (h.of_calls hcalm).1

theorem Place.progress (h : Place c u s n p) {version : Text} {bytes total : Nat}
    (hdownload : s.shared.state = .downloading version bytes total) : bytes ≤ total := by
  have hbusy : s.shared.state.busy = true := by rw [hdownload]; rfl
  cases h with
  | idle _ hstate => cases hstate.symm.trans hbusy
  | showsCheck _ hstate => cases hstate.symm.trans hdownload
  | arms _ hstate => cases hstate.symm.trans hbusy
  | showsDownload _ hstate =>
      cases hstate.symm.trans hdownload
      exact Nat.zero_le _
  | checking _ hstate => cases hstate.symm.trans hdownload
  | running _ _ hstate hbytes =>
      cases hstate.symm.trans hdownload
      exact hbytes
  | handed _ _ hstate => cases hstate.symm.trans hdownload
  | polling _ _ hstate => cases hstate.symm.trans hdownload
  | launched _ hstate => cases hstate.symm.trans hdownload
  | finished _ hstate => cases hstate.symm.trans hdownload

/-- In every order of the user's actions and of the steps of the threads, there is one thread at
most; a download starts the helper at most once, for a stage that it has verified in its own
surroundings, of a newer release that a check has found, and not when its cancellation was
accepted; and one launch at most succeeds, at the very end. -/
theorem updater_safe (c : Crates V) (u : Settings) (now : Nat) (actions : List Action) :
    Safe c u (run c u (start u now) actions) := by
  have hunarmed := fun hu : u.installable = false => (start_unarmed u now).run (c := c) hu actions
  cases hu : u.enabled with
  | false =>
      have hresting := (start_resting hu now).run (c := c) hu actions
      have hcalm : ∀ e ∈ (run c u (start u now) actions).log, e.isLaunch = false := by
        intro e he
        obtain ⟨f, rfl⟩ := hresting.log e he
        rfl
      refine ⟨hresting.workers ▸ Nat.zero_le _, fun _ => hresting.workers,
        fun v b t hdownload => ?_,
        fun before r f stage after hlog => ?_, .inl hcalm, fun hexit => ?_,
        fun hinstallable => (hunarmed hinstallable).log, fun _ => hresting.workers⟩
      · have hbusy := hresting.state
        rw [hdownload] at hbusy
        cases hbusy
      · obtain ⟨f', hsame⟩ := hresting.log (.spawned r f stage) <| by
          rw [hlog]
          exact List.mem_append_right _ List.mem_cons_self
        cases hsame
      · cases hresting.exit.symm.trans hexit
  | true =>
      obtain ⟨l, hfollows⟩ := (start_follows (c := c) hu now).run actions
      exact ⟨hfollows.place.workers_le, hfollows.place.quiet,
        fun _ _ _ hdownload => hfollows.place.progress hdownload,
        hfollows.history.recorded.spawns, hfollows.launch, hfollows.exit_launch,
        fun hinstallable => (hunarmed hinstallable).log,
        fun hdisabled => Bool.noConfusion (hu.symm.trans hdisabled)⟩

end Threads

end MacVnc.Updater.UpdateState

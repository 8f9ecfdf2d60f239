import MacVnc.Updater.Prepare
/-!
# The updater of the app

`Updater` (`macvnc-app/src/updater/mod.rs` and its window in `ui.rs`) with the threads that
it starts.  Each step ends with one use of the lock or of a flag, in any order among the
threads; a step that is not possible changes nothing.
-/

namespace MacVnc.Updater.UpdateState

open MacVnc.Lib (Text)
open MacVnc.Lib.Text
open MacVnc.Updater.Extract (Archive PackageIdentity)
open MacVnc.Updater.Releases (ApiRelease Release Semver repo)
open MacVnc.Updater.Prepare

inductive Failure where
  | couldNotCheck (e : UpdateError)
  | notInstalled (e : UpdateError)

inductive State where
  | idle
  | checking
  | current
  | available (release : Release)
  | downloading (version : Text) (bytes total : Nat)
  | restarting
  | failed (f : Failure)

def State.busy : State → Bool
  | .checking | .downloading _ _ _ | .restarting => true
  | _ => false

/-- The flag is that of the last download, by its number. -/
structure Shared where
  state : State
  cancelled : Nat
  exit : Bool

/-- What the parts that are not modelled do with what they are given. -/
structure Crates (V : Type) where
  hash : List UInt8 → Text
  parseIdentity : List UInt8 → Option PackageIdentity
  openArchive : List UInt8 → Archive
  parseJson : List UInt8 → Option ApiRelease
  semver : Semver V

/-- How the app was built and started. -/
structure Settings where
  windows : Bool
  smoke : Bool
  portable : Bool
  version : Text

def Settings.enabled (u : Settings) : Bool := u.windows && !u.smoke

def Settings.installable (u : Settings) : Bool := u.enabled && u.portable

/-- Where the thread of the window stands: in `show` with the state that it has read, or in
one of the functions that it calls. -/
inductive Ui where
  | ready
  | looking (seen : State)
  | callsCheck (now : Nat)
  | checks (now : Nat)
  | showsCheck
  | callsDownload (release : Release)
  | downloads (release : Release)
  | arms (release : Release) (flag : Nat)
  | showsDownload (release : Release) (flag : Nat)
  | dropped

/-- Where a thread that was started stands.  What its requests give is settled when it starts,
and seen when it gets there. -/
inductive Worker where
  | checker (answer : Except Stop Response) (result : Except UpdateError (Option Release))
  | preparing (release : Release) (flag : Nat) (reports : List Nat)
      (result : Except UpdateError Stage)
  | prepared (release : Release) (flag : Nat) (stage : Stage)
  | launching (release : Release) (flag : Nat) (stage : Stage)
  | polling (flag : Nat)
  | launched
  | failing (flag : Nat) (e : UpdateError)

/-- What happens to releases, downloads and the helper, with the answer in which a release was
found, and the surroundings of a download. -/
inductive Event where
  | found (release : Release) (answer : Except Stop Response)
  | started (release : Release) (flag : Nat) (around : Surroundings)
  | cancelled (flag : Nat)
  | handedOver (flag : Nat)
  | spawned (release : Release) (flag : Nat) (stage : Stage)
  | ended (flag : Nat)
  | launched (flag : Nat)
  | exits

structure System where
  shared : Shared
  flags : List Bool
  lastCheck : Option Nat
  ui : Ui
  workers : List Worker
  log : List Event

namespace System

def setState (s : System) (state : State) : System := { s with shared := { s.shared with state } }

def emit (s : System) (e : Event) : System := { s with log := s.log ++ [e] }

def flag (s : System) (f : Nat) : Bool := s.flags.getD f false

def setWorker (s : System) (i : Nat) (w : Worker) : System :=
  { s with workers := s.workers.set i w }

def endWorker (s : System) (i : Nat) : System := { s with workers := s.workers.eraseIdx i }

def cancel (s : System) : System :=
  match s.shared.state with
  | .restarting => s
  | _ =>
      { s with flags := s.flags.set s.shared.cancelled true }.emit (.cancelled s.shared.cancelled)

end System

def preview : Release :=
  { version := "0.1.10".toList
    notes := "Synthetic update preview. No download or installation will run.".toList
    page := repo ++ "/releases".toList
    archiveUrl := []
    checksumUrl := []
    size := 0 }

/-- `new`, which calls `check` where it may. -/
def start (u : Settings) (now : Nat) : System where
  shared :=
    { state := if u.smoke then .available preview else .idle, cancelled := 0, exit := false }
  flags := [false]
  lastCheck := none
  ui := if u.enabled then .callsCheck now else .ready
  workers := []
  log := []

inductive Action where
  | tick (now : Nat)
  | look
  | clickDownload
  | clickCancel
  | clickCheck (now : Nat)
  | close
  | drop
  | call
  | startCheck (runtime client : Bool) (answer : Except Stop Response)
  | startDownload (around : Surroundings)
  | work (i : Nat) (goes : Bool)

def day : Nat := 24 * 60 * 60

/-- The next statement of `check` or `download`, up to the start of a thread. -/
def call (u : Settings) (s : System) : System :=
  match s.ui with
  | .callsCheck now =>
      { s with ui := if !u.enabled || s.shared.state.busy then .ready else .checks now }
  | .checks now => { s.setState .checking with lastCheck := some now, ui := .showsCheck }
  | .callsDownload release =>
      { s with
        ui := if !u.installable || s.shared.state.busy then .ready else .downloads release }
  | .downloads release =>
      { s with
        shared := { s.shared with cancelled := s.flags.length }
        flags := s.flags ++ [false]
        ui := .arms release s.flags.length }
  | .arms release flag =>
      { s.setState (.downloading release.version 0 release.size) with
        ui := .showsDownload release flag }
  | _ => s

/-- The next step of a thread.  In `install::launch` the helper may not start, and one that has
started may exit, take too long and be killed, or be out of reach. -/
def work (s : System) (i : Nat) (goes : Bool) : Worker → System
  | .checker answer result =>
      match result with
      | .ok (some release) =>
          ((s.endWorker i).setState (.available release)).emit (.found release answer)
      | .ok none => (s.endWorker i).setState .current
      | .error e => (s.endWorker i).setState (.failed (.couldNotCheck e))
  | .preparing release flag (bytes :: reports) result =>
      (s.setWorker i (.preparing release flag reports result)).setState
        (.downloading release.version bytes release.size)
  | .preparing _ flag [] (.error e) => s.setWorker i (.failing flag e)
  | .preparing release flag [] (.ok stage) => s.setWorker i (.prepared release flag stage)
  | .prepared release flag stage =>
      if s.flag flag then s.setWorker i (.failing flag (.stopped .cancelled))
      else
        ((s.setWorker i (.launching release flag stage)).setState .restarting).emit
          (.handedOver flag)
  | .launching release flag stage =>
      if goes then (s.setWorker i (.polling flag)).emit (.spawned release flag stage)
      else s.setWorker i (.failing flag .launch)
  | .polling flag =>
      if goes then (s.setWorker i .launched).emit (.launched flag)
      else s.setWorker i (.failing flag .launch)
  | .launched => { s.endWorker i with shared := { s.shared with exit := true } }.emit .exits
  | .failing flag e =>
      ((s.endWorker i).setState (.failed (.notInstalled e))).emit (.ended flag)

variable {V : Type} [LinearOrder V]

def step (c : Crates V) (u : Settings) (s : System) : Action → System
  | .tick now =>
      match s.ui, s.lastCheck with
      | .ready, some last =>
          if u.enabled ∧ day ≤ now - last ∧ s.shared.state.busy = false then
            { s with ui := .callsCheck now }
          else s
      | _, _ => s
  | .look =>
      match s.ui with
      | .ready => { s with ui := .looking s.shared.state }
      | _ => s
  | .clickDownload =>
      match s.ui with
      | .looking (.available release) =>
          if u.installable then { s with ui := .callsDownload release } else s
      | _ => s
  | .clickCancel =>
      match s.ui with
      | .looking (.downloading _ _ _) => { s with ui := .ready }.cancel
      | _ => s
  | .clickCheck now =>
      match s.ui with
      | .looking _ =>
          if u.enabled ∧ s.shared.state.busy = false then { s with ui := .callsCheck now } else s
      | _ => s
  | .close =>
      match s.ui with
      | .looking _ => { s with ui := .ready }
      | _ => s
  | .drop =>
      match s.ui with
      | .ready => { s with ui := .dropped }.cancel
      | _ => s
  | .call => call u s
  | .startCheck runtime client answer =>
      match s.ui with
      | .showsCheck =>
          { s with
            ui := .ready
            workers := s.workers ++
              [.checker answer
                (findRelease c.parseJson c.semver u.version runtime client answer)] }
      | _ => s
  | .startDownload around =>
      match s.ui with
      | .showsDownload release flag =>
          let (result, reports) := prepare c.hash c.parseIdentity c.openArchive around release
          ({ s with
            ui := .ready
            workers := s.workers ++ [.preparing release flag reports result] } : System).emit
              (.started release flag around)
      | _ => s
  | .work i goes =>
      match s.workers[i]? with
      | some w => work s i goes w
      | none => s

def run (c : Crates V) (u : Settings) (s : System) (actions : List Action) : System :=
  actions.foldl (step c u) s

end MacVnc.Updater.UpdateState

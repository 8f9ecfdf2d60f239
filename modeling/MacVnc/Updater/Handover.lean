import MacVnc.Updater.Rollback
/-!
# The helper and the apps around it

The processes of an installation (`launch`, `run_helper`, `restart`, `await_start` and
`finish_restart`, `macvnc-app/src/updater/install.rs`): the app that is updated, the helper,
and the apps that it starts.  They speak through files of the staging directory and may be
stopped anywhere.  A directory is removed one entry after the other, by a restarted app or, when
the launch has failed, by the app that was to be updated.
-/

namespace MacVnc.Updater.Handover

open MacVnc.Lib (Text)
open MacVnc.Lib.Text
open MacVnc.Updater.Package (mainExecutable)
open MacVnc.Updater.Install

/-! ## Removing a directory -/

mutual

def removeBelow (path : List Text) : Entry → Option Entry
  | .file content =>
      match path with
      | [] => none
      | _ => some (.file content)
  | .link =>
      match path with
      | [] => none
      | _ => some .link
  | .directory entries =>
      match path, entries with
      | [], .nil => none
      | [], _ => some (.directory entries)
      | name :: rest, _ => some (.directory (removeNamed name rest entries))

def removeNamed (name : Text) (path : List Text) : Entries → Entries
  | .nil => .nil
  | .cons other entry rest =>
      if other = name then
        match removeBelow path entry with
        | none => rest
        | some entry => .cons other entry rest
      else .cons other entry (removeNamed name path rest)

end

def removeAt (directory : Directory) : List Text → Directory
  | [] => directory
  | name :: path =>
      match directory.lookup name with
      | none => directory
      | some entry =>
          match removeBelow path entry with
          | none => directory.erase name
          | some entry => directory.insert name entry

/-- What `remove_entry` leaves of an installed entry when it fails or is stopped: these paths
below it are gone. -/
def tear (torn : Text → List (List Text)) (d : Disk) (name : Text) : Disk :=
  match d.install.lookup name with
  | none | some .link => d
  | some _ =>
      if (d.backup.bind fun backup => backup.lookup name).isSome ∨
          (d.package.lookup name).isNone then
        { d with
          install := (torn name).foldl (fun install path => removeAt install (name :: path))
            d.install }
      else d

/-! ## The processes -/

/-- Where `run_helper` stands; `failed` is an error or a crash. -/
inductive Helper where
  | absent
  | loading
  | opening
  | signalling
  | waiting
  | verifying
  | refusing
  | applying (t : Transaction)
  | announcing (t : Transaction)
  | restarting (t : Transaction)
  | awaiting (t : Transaction) (child : Nat)
  | rollingBack (t : Transaction)
  | clearing
  | restartingOld
  | awaitingOld (child : Nat)
  | finishing
  | failed
  | done

def Helper.runs : Helper → Bool
  | .absent | .failed | .done => false
  | _ => true

/-- Where the thread of the updated app stands in `launch`, or that this has failed: the thread
drops the `TempDir`, which removes the staging directory. -/
inductive Launch where
  | copying
  | polling
  | handed
  | dropping
deriving DecidableEq

/-- Where `finish_restart` stands in a restarted app, with `updated` of the outcome it read. -/
inductive Stand where
  | starting
  | confirmed (updated : Bool)
  | opened (updated : Bool)
  | acknowledged
  | unconfirmed
deriving DecidableEq

/-- The thread of a restarted app that waits for the helper. -/
inductive Cleaner where
  | idle
  | waiting
  | removing
deriving DecidableEq

structure Child where
  alive : Bool
  stand : Stand
  version : Text
  cleaner : Cleaner

/-- Who removes an entry of the staging directory. -/
inductive Remover where
  | updated
  | restarted (child : Nat)
deriving DecidableEq

/-- The disk, the files of the staging directory and the processes.  Of the past: `acks` are the
outcomes that were acknowledged and `removals` who has removed an entry of the staging directory,
both with the installation at that time, `concluded` says that the helper has written
`finished`, and `orphaned` that it has lost sight of an app. -/
structure World where
  disk : Disk
  stage : Bool
  parent : Bool
  launch : Launch
  ready : Bool
  outcome : Option Bool
  restarted : Bool
  finished : Bool
  helper : Helper
  children : List Child
  acks : List (Bool × Directory)
  orphaned : Bool
  concluded : Bool
  removals : List (Remover × Directory)

/-- `Plan`, of which the directories are those of the disk. -/
structure FullPlan extends Plan where
  version : Text

def start (d : Disk) : World where
  disk := d
  stage := true
  parent := true
  launch := .copying
  ready := false
  outcome := none
  restarted := false
  finished := false
  helper := .absent
  children := []
  acks := []
  orphaned := false
  concluded := false
  removals := []

inductive Written where
  | whole
  | truncated
  | untouched
deriving DecidableEq

/-- What `launch` and `await_start` see. -/
inductive Sight where
  | started
  | exited
  | tooLate
  | unknown

/-- An entry of the staging directory, or at last the directory itself. -/
inductive Item where
  | package (path : List Text)
  | backup (path : List Text)
  | backupDirectory
  | transaction
  | ready
  | outcome
  | restarted
  | finished
  | directory

inductive Action where
  | launch (ok : Bool)
  | poll (sight : Sight)
  | drop (item : Item)
  | load (readable : Bool)
  | openParent (ok : Bool)
  | signal (result : Written)
  | waitParent (ok : Bool)
  | verify (readable : Bool) (result : Written)
  | write (result : Written)
  | apply (faults : Nat → Option Fault) (crashes : Bool)
  | spawn (ok : Bool)
  | look (sight : Sight)
  | rollBack (faults : Text → Disk.UndoFault) (torn : Text → List (List Text)) (stop : Option Nat)
  | clear (removed : Bool) (result : Written)
  | finish (result : Written)
  | crash
  | parentExits
  | childReads (i : Nat) (readable : Bool)
  | childOpens (i : Nat) (ok : Bool)
  | childAcknowledges (i : Nat) (result : Written)
  | childExits (i : Nat)
  | childCleans (i : Nat) (waited : Bool)
  | childRemoves (i : Nat) (item : Item)

namespace World

def at? (w : World) (i : Nat) : Option Child := w.children[i]?

def setChild (w : World) (i : Nat) (c : Child) : World :=
  { w with children := w.children.set i c }

def killChild (w : World) (i : Nat) : World :=
  match w.at? i with
  | some c => w.setChild i { c with alive := false }
  | none => w

def alive (w : World) (i : Nat) : Bool := (w.at? i).any Child.alive

/-- Nothing is written into a directory that is gone. -/
def written (w : World) (result : Written) : Written := if w.stage then result else .untouched

def writeOutcome (w : World) (updated : Bool) : Written → World
  | .whole => { w with outcome := some updated }
  | .truncated => { w with outcome := none }
  | .untouched => w

/-- None of its files is left in the staging directory. -/
def bare (w : World) : Bool :=
  w.disk.package.entries.isEmpty && w.disk.backup.isNone && w.disk.transaction.isNone &&
    !w.ready && w.outcome.isNone && !w.restarted && !w.finished

def remove (w : World) : Item → World
  | .package path => { w with disk := { w.disk with package := removeAt w.disk.package path } }
  | .backup path =>
      { w with
        disk := { w.disk with backup := w.disk.backup.map fun backup => removeAt backup path } }
  | .backupDirectory =>
      if w.disk.backup.any fun backup => backup.entries.isEmpty then
        { w with disk := { w.disk with backup := none } }
      else w
  | .transaction => { w with disk := { w.disk with transaction := none } }
  | .ready => { w with ready := false }
  | .outcome => { w with outcome := none }
  | .restarted => { w with restarted := false }
  | .finished => { w with finished := false }
  | .directory => if w.bare then { w with stage := false } else w

/-- A turn of `remove_dir_all`. -/
def removeBy (w : World) (remover : Remover) (item : Item) : World :=
  { w.remove item with removals := w.removals ++ [(remover, w.disk.install)] }

end World

def Written.ok : Written → Bool
  | .whole => true
  | _ => false

def Written.there : Written → Bool
  | .whole | .truncated => true
  | .untouched => false

/-- `restart`, from here with the child that is started, or not. -/
def spawn (programVersion : Entry → Text) (w : World) (ok : Bool) (next : Nat → Helper)
    (fails : Helper) : World :=
  match ok, w.disk.install.lookup mainExecutable with
  | true, some program =>
      { w with
        helper := next w.children.length
        children := w.children ++
          [{ alive := true
             stand := .starting
             version := programVersion program
             cleaner := .idle }] }
  | _, _ => { w with helper := fails }

/-- A turn of the loop in `launch`.  A helper that takes too long is killed; when it cannot be
asked about, it is left alone. -/
def pollHelper (w : World) : Sight → World
  | .started => if w.ready then { w with launch := .handed } else w
  | .exited => if w.helper.runs then w else { w with launch := .dropping }
  | .tooLate =>
      { w with
        launch := .dropping
        helper := if w.helper.runs then .failed else w.helper }
  | .unknown => { w with launch := .dropping }

/-- A turn of `await_start` on this child, which fails into `fails`; children are killed or left
alone as in `launch`. -/
def awaitStart (w : World) (child : Nat) (fails : Helper) : Sight → World
  | .started => if w.restarted then { w with helper := .finishing } else w
  | .exited => if w.alive child then w else { w with helper := fails }
  | .tooLate => { w.killChild child with helper := fails }
  | .unknown => { w with helper := fails, orphaned := true }

/-- The loop of `rollback`, which may be stopped at the name after so many others. -/
def rollBack (w : World) (t : Transaction) (faults : Text → Disk.UndoFault)
    (torn : Text → List (List Text)) : Option Nat → World
  | none =>
      let (failures, disk) := w.disk.undoAll faults t.names.reverse
      if failures = [] then { w with disk, helper := .clearing }
      else { w with disk := failures.foldl (tear torn) disk, helper := .failed }
  | some n =>
      let (failures, disk) := w.disk.undoAll faults (t.names.reverse.take n)
      let unfinished := failures ++ (t.names.reverse.drop n).take 1
      { w with disk := unfinished.foldl (tear torn) disk, helper := .failed }

def step (hash : List UInt8 → Text) (programVersion : Entry → Text) (plan : FullPlan) (w : World) :
    Action → World
  | .launch ok =>
      match w.parent, w.launch with
      | true, .copying =>
          if ok then { w with launch := .polling, helper := .loading }
          else { w with launch := .dropping }
      | _, _ => w
  | .poll sight =>
      match w.parent, w.launch with
      | true, .polling => pollHelper w sight
      | _, _ => w
  | .drop item =>
      match w.parent, w.launch with
      | true, .dropping => w.removeBy .updated item
      | _, _ => w
  | .load readable =>
      match w.helper with
      | .loading =>
          if readable ∧ plan.files.length ≤ 100000 ∧ plan.files ≠ [] then
            { w with helper := .opening }
          else { w with helper := .failed }
      | _ => w
  | .openParent ok =>
      match w.helper with
      | .opening =>
          if ok ∧ w.parent then { w with helper := .signalling } else { w with helper := .failed }
      | _ => w
  | .signal result =>
      match w.helper with
      | .signalling =>
          { w with
            helper := if (w.written result).ok then .waiting else .failed
            ready := w.ready || (w.written result).there }
      | _ => w
  | .waitParent ok =>
      match w.helper with
      | .waiting =>
          if ok = false then { w with helper := .failed }
          else if w.parent then w
          else { w with helper := .verifying }
      | _ => w
  | .verify readable result =>
      match w.helper with
      | .verifying =>
          match readable && w.stage, Transaction.new hash w.disk plan.toPlan with
          | true, .ok (t, disk) =>
              if result.ok then { w with disk, helper := .applying t }
              else { w with disk := { w.disk with backup := some ∅ }, helper := .refusing }
          | _, _ => { w with helper := .refusing }
      | _ => w
  | .write result =>
      match w.helper with
      | .refusing =>
          { w.writeOutcome false (w.written result) with
            helper := if (w.written result).ok then .restartingOld else .failed }
      | .announcing t =>
          { w.writeOutcome true (w.written result) with
            helper := if (w.written result).ok then .restarting t else .rollingBack t }
      | _ => w
  | .apply faults crashes =>
      match w.helper with
      | .applying t =>
          let (result, disk) := t.apply faults w.disk
          { w with
            disk
            helper :=
              if crashes then .failed
              else match result with
                | .ok () => .announcing t
                | .error _ => .rollingBack t }
      | _ => w
  | .spawn ok =>
      match w.helper with
      | .restarting t => spawn programVersion w ok (.awaiting t) (.rollingBack t)
      | .restartingOld => spawn programVersion w ok .awaitingOld .failed
      | _ => w
  | .look sight =>
      match w.helper with
      | .awaiting t child => awaitStart w child (.rollingBack t) sight
      | .awaitingOld child => awaitStart w child .failed sight
      | _ => w
  | .rollBack faults torn stop =>
      match w.helper with
      | .rollingBack t => rollBack w t faults torn stop
      | _ => w
  | .clear removed result =>
      match w.helper with
      | .clearing =>
          { w.writeOutcome false (w.written result) with
            restarted := w.restarted && !removed
            helper := if (w.written result).ok then .restartingOld else .failed }
      | _ => w
  | .finish result =>
      match w.helper with
      | .finishing =>
          { w with
            helper := if (w.written result).ok then .done else .failed
            finished := w.finished || (w.written result).there
            concluded := w.concluded || (w.written result).there }
      | _ => w
  | .crash => if w.helper.runs then { w with helper := .failed } else w
  | .parentExits => { w with parent := false }
  | .childReads i readable =>
      match w.at? i with
      | some { alive := true, stand := .starting, version, cleaner } =>
          let stand :=
            match w.outcome with
            | some updated =>
                if readable ∧ w.stage ∧ (updated = false ∨ version = plan.version) then
                  .confirmed updated
                else .unconfirmed
            | none => .unconfirmed
          w.setChild i { alive := true, stand, version, cleaner }
      | _ => w
  | .childOpens i ok =>
      match w.at? i with
      | some { alive := true, stand := .confirmed updated, version, cleaner } =>
          if ok ∧ w.ready then
            w.setChild i { alive := true, stand := .opened updated, version, cleaner := .waiting }
          else w.setChild i { alive := true, stand := .unconfirmed, version, cleaner }
      | _ => w
  | .childAcknowledges i result =>
      match w.at? i with
      | some { alive := true, stand := .opened updated, version, cleaner } =>
          let stand := if (w.written result).ok then .acknowledged else .unconfirmed
          let w' := w.setChild i { alive := true, stand, version, cleaner }
          if (w.written result).there then
            { w' with restarted := true, acks := w.acks ++ [(updated, w.disk.install)] }
          else w'
      | _ => w
  | .childExits i => w.killChild i
  | .childCleans i waited =>
      match w.at? i with
      | some { alive := true, stand, version, cleaner := .waiting } =>
          if waited = false then
            w.setChild i { alive := true, stand, version, cleaner := .idle }
          else if w.helper.runs then w
          else
            w.setChild i
              { alive := true
                stand
                version
                cleaner := if w.finished then .removing else .idle }
      | _ => w
  | .childRemoves i item =>
      match w.at? i with
      | some { alive := true, stand := _, version := _, cleaner := .removing } =>
          w.removeBy (.restarted i) item
      | _ => w

def run (hash : List UInt8 → Text) (programVersion : Entry → Text) (plan : FullPlan) (w : World)
    (actions : List Action) : World :=
  actions.foldl (step hash programVersion plan) w

end MacVnc.Updater.Handover

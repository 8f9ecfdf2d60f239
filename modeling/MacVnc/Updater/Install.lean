import MacVnc.Updater.Package
import Mathlib.Data.List.AList
import Mathlib.Data.List.Sort
import Mathlib.Data.Char
import Mathlib.Data.List.Lex
/-!
# Installing an update

The replacement of an installation (`macvnc-app/src/updater/install.rs`).  A
directory is a map from names to entries; a rename moves an entry whole.  The
three directories that a transaction moves entries between are the
installation, the staged package and the backup.  SHA-256 is a parameter.
-/

namespace MacVnc.Updater.Install

open MacVnc.Lib (Text)
open MacVnc.Lib.Text
open MacVnc.Updater.Package

mutual

inductive Entry where
  | file (content : List UInt8)
  | directory (entries : Entries)
  | link

inductive Entries where
  | nil
  | cons (name : Text) (entry : Entry) (rest : Entries)

end

abbrev Directory := AList fun _ : Text => Entry

/-- The installation without the staging directory, and the staging directory. -/
structure Disk where
  install : Directory
  packagePlain : Bool
  package : Directory
  backup : Option Directory
  transaction : Option (List Text)

structure Plan where
  files : List FileEntry

inductive InstallError where
  | path (error : PathError)
  | pathContainsLink
  | notFound
  | duplicateUpdateFile
  | stagedPackageChanged
  | unverifiedFile
  | inventoryChanged
  | backupExists
  | cannotBackUp
  | injected
  | cannotReplace
  | couldNotRestore (names : List Text)
deriving DecidableEq, Repr

/-! ## Verification -/

def Entries.lookup (name : Text) : Entries → Option Entry
  | .nil => none
  | .cons other entry rest => if other = name then some entry else rest.lookup name

def plain : Option Entry → Except InstallError Entry
  | none => .error .notFound
  | some .link => .error .pathContainsLink
  | some entry => .ok entry

/-- Follow the components below an entry, none of which may be a link. -/
def descend (entry : Entry) : List Text → Except InstallError Entry
  | [] => .ok entry
  | name :: rest =>
      match entry with
      | .directory entries =>
          match plain (entries.lookup name) with
          | .error e => .error e
          | .ok child => descend child rest
      | _ => .error .notFound

def find (package : Directory) : List Text → Except InstallError Entry
  | [] => .error .notFound
  | name :: rest =>
      match plain (package.lookup name) with
      | .error e => .error e
      | .ok entry => descend entry rest

def matchesPlan (hash : List UInt8 → Text) (file : FileEntry) : Entry → Bool
  | .file content => decide (content.length = file.size) && decide (hash content = file.sha256)
  | _ => false

/-- The loop over the planned files; `seen` are the keys of the earlier ones. -/
def verifyPlanned (hash : List UInt8 → Text) (package : Directory) (seen : List Text) :
    List FileEntry → Except InstallError (List Text)
  | [] => .ok seen
  | file :: rest =>
      match validateRelative file.path with
      | .error e => .error (.path e)
      | .ok () =>
          if pathKey file.path ∈ seen then .error .duplicateUpdateFile
          else match find package (file.path.components.map Component.text) with
            | .error e => .error e
            | .ok entry =>
                if matchesPlan hash file entry then
                  verifyPlanned hash package (pathKey file.path :: seen) rest
                else .error .stagedPackageChanged

def relativePath (names : List Text) : RelativePath :=
  { absolute := false, components := names.map .normal }

mutual

/-- An entry met by `walk`: the number of files at or below it, all of them seen. -/
def Entry.walk (seen : List Text) (path : List Text) : Entry → Except InstallError Nat
  | .link => .error .pathContainsLink
  | .file _ =>
      match validateRelative (relativePath path) with
      | .error e => .error (.path e)
      | .ok () => if pathKey (relativePath path) ∈ seen then .ok 1 else .error .unverifiedFile
  | .directory entries =>
      match validateRelative (relativePath path) with
      | .error e => .error (.path e)
      | .ok () => entries.walk seen path

def Entries.walk (seen : List Text) (path : List Text) : Entries → Except InstallError Nat
  | .nil => .ok 0
  | .cons name entry rest =>
      match entry.walk seen (path ++ [name]) with
      | .error e => .error e
      | .ok count =>
          match rest.walk seen path with
          | .error e => .error e
          | .ok more => .ok (count + more)

end

def walkPackage (seen : List Text) : List (Sigma fun _ : Text => Entry) → Except InstallError Nat
  | [] => .ok 0
  | e :: rest =>
      match e.2.walk seen [e.1] with
      | .error e => .error e
      | .ok count =>
          match walkPackage seen rest with
          | .error e => .error e
          | .ok more => .ok (count + more)

def verifyFiles (hash : List UInt8 → Text) (d : Disk) (plan : Plan) : Except InstallError Unit :=
  if d.packagePlain = false then .error .pathContainsLink
  else match verifyPlanned hash d.package [] plan.files with
    | .error e => .error e
    | .ok seen =>
        match walkPackage seen d.package.entries with
        | .error e => .error e
        | .ok count =>
            if count = plan.files.length then .ok () else .error .inventoryChanged

/-! ## The transaction -/

structure Transaction where
  names : List Text
deriving DecidableEq

def topLevel (file : FileEntry) : Text := (file.path.components.head?.map Component.text).getD []

/-- The main executable is replaced after its runtime and notices. -/
def beforeOrSame (a b : Text) : Prop :=
  if a = mainExecutable then b = mainExecutable else b = mainExecutable ∨ a ≤ b

instance : DecidableRel beforeOrSame := fun a b => by
  unfold beforeOrSame
  infer_instance

def plannedNames (plan : Plan) : List Text :=
  ((plan.files.map topLevel).dedup.insertionSort (· ≤ ·)).insertionSort beforeOrSame

def plainTargets (install : Directory) : List Text → Except InstallError Unit
  | [] => .ok ()
  | name :: rest =>
      match install.lookup name with
      | some .link => .error .pathContainsLink
      | _ => plainTargets install rest

def Transaction.new (hash : List UInt8 → Text) (d : Disk) (plan : Plan) :
    Except InstallError (Transaction × Disk) :=
  match verifyFiles hash d plan with
  | .error e => .error e
  | .ok () =>
      let names := plannedNames plan
      match plainTargets d.install names with
      | .error e => .error e
      | .ok () =>
          if d.backup.isSome then .error .backupExists
          else .ok ({ names }, { d with backup := some ∅, transaction := some names })

/-- What goes wrong for one name of `apply`. -/
inductive Fault where
  | backUp | beforeMove | replace
deriving DecidableEq

/-- A rename moves an entry from one directory to the other; the target is free. -/
def rename (name : Text) (source target : Directory) : Option (Directory × Directory) :=
  (source.lookup name).map fun entry => (source.erase name, target.insert name entry)

namespace Disk

/-- Move the installed entry, if there is one, to the backup. -/
def backUp (d : Disk) (fault : Option Fault) (name : Text) : Except InstallError Disk :=
  match d.install.lookup name with
  | none => .ok d
  | some _ =>
      if fault = some .backUp then .error .cannotBackUp
      else match d.backup with
        | none => .error .cannotBackUp
        | some backup =>
            match rename name d.install backup with
            | none => .error .cannotBackUp
            | some (install, backup) => .ok { d with install, backup := some backup }

def replace (d : Disk) (fault : Option Fault) (name : Text) : Except InstallError Disk :=
  if fault = some .beforeMove then .error .injected
  else if fault = some .replace then .error .cannotReplace
  else match rename name d.package d.install with
    | none => .error .cannotReplace
    | some (package, install) => .ok { d with package, install }

/-- The loop of `apply` from the `index`-th name on; an error leaves the disk as it is then. -/
def applyFrom (faults : Nat → Option Fault) (index : Nat) (d : Disk) :
    List Text → Except InstallError Unit × Disk
  | [] => (.ok (), d)
  | name :: rest =>
      match d.backUp (faults index) name with
      | .error e => (.error e, d)
      | .ok d =>
          match d.replace (faults index) name with
          | .error e => (.error e, d)
          | .ok d => d.applyFrom faults (index + 1) rest

/-- What goes wrong for one name of `rollback`. -/
structure UndoFault where
  remove : Bool
  rename : Bool

/-- Remove the installed entry, if there is one; links are left alone. -/
def removeEntry (d : Disk) (fault : UndoFault) (name : Text) : Except InstallError Disk :=
  match d.install.lookup name with
  | none => .ok d
  | some .link => .error .pathContainsLink
  | some _ =>
      if fault.remove then .error .cannotReplace else .ok { d with install := d.install.erase name }

/-- Undo one name: what `rollback` does follows from which of the three directories has it.
An error leaves the disk as it is then. -/
def undo (d : Disk) (fault : UndoFault) (name : Text) : Except InstallError Unit × Disk :=
  match d.backup.bind fun backup => backup.lookup name with
  | some _ =>
      match d.removeEntry fault name with
      | .error e => (.error e, d)
      | .ok d =>
          if fault.rename then (.error .cannotReplace, d)
          else match d.backup.bind fun backup => rename name backup d.install with
            | none => (.error .cannotReplace, d)
            | some (backup, install) => (.ok (), { d with backup := some backup, install })
  | none =>
      if (d.package.lookup name).isSome then (.ok (), d)
      else match d.removeEntry fault name with
        | .error e => (.error e, d)
        | .ok d => (.ok (), d)

/-- The loop of `rollback`, with the names that could not be restored. -/
def undoAll (faults : Text → UndoFault) (d : Disk) : List Text → List Text × Disk
  | [] => ([], d)
  | name :: rest =>
      let (result, d) := d.undo (faults name) name
      let (failures, d) := d.undoAll faults rest
      match result with
      | .ok () => (failures, d)
      | .error _ => (name :: failures, d)

end Disk

namespace Transaction

/-- `apply_with`: the faults are those of the renames and of the `before_move` callback. -/
def apply (t : Transaction) (faults : Nat → Option Fault) (d : Disk) :
    Except InstallError Unit × Disk := d.applyFrom faults 0 t.names

def rollback (t : Transaction) (faults : Text → Disk.UndoFault) (d : Disk) :
    Except InstallError Unit × Disk :=
  let (failures, d) := d.undoAll faults t.names.reverse
  (if failures = [] then .ok () else .error (.couldNotRestore failures), d)

end Transaction

end MacVnc.Updater.Install

import MacVnc.Lib.Text
/-!
# Package paths

The paths of an update package (`macvnc-app/src/updater/package.rs`): the
component names that are safe on Windows, the entries that an update manages,
and the key under which paths are compared.
-/

namespace MacVnc.Updater.Package

open MacVnc.Lib (Text)
open MacVnc.Lib.Text

/-- `/\:<>"|?*`, of which 34 is the quotation mark and 92 the backslash. -/
def forbiddenChars : List Nat := [47, 92, 58, 60, 62, 34, 124, 63, 42]

/-- The part before the first period, without white space at its end, in upper case. -/
def stem (name : Text) : Text := (trimEnd (name.takeWhile (· ≠ '.'))).map toAsciiUppercase

def deviceNames : List Text :=
  [['C', 'O', 'N'], ['P', 'R', 'N'], ['A', 'U', 'X'], ['N', 'U', 'L'],
    ['C', 'O', 'N', 'I', 'N', '$'], ['C', 'O', 'N', 'O', 'U', 'T', '$']]

/-- A device name with its number; the superscripts 1, 2 and 3 count as digits. -/
def numberedDevice (name : Text) : Bool :=
  ['1', '2', '3', '4', '5', '6', '7', '8', '9', Char.ofNat 0xb9, Char.ofNat 0xb2,
    Char.ofNat 0xb3].any fun n => name = ['C', 'O', 'M', n] || name = ['L', 'P', 'T', n]

def safeComponent (name : Text) : Bool :=
  if name = [] ∨ 255 < byteLength name ∨ name = ['.'] ∨ name = ['.', '.'] ∨
      name.getLast? = some ' ' ∨ name.getLast? = some '.' ∨
      name.any (fun c => isControl c || c.toNat ∈ forbiddenChars) = true then false
  else !(decide (stem name ∈ deviceNames) || numberedDevice (stem name))

def sourceDirectory : Text := "source".toList

def mainExecutable : Text := "macvnc-app.exe".toList

def documents : List Text :=
  ["UPDATE.json", "README.txt", "LICENSE.txt", "LICENSE-AGPL-3.0.txt", "FFMPEG-LICENSE.txt",
    "FFMPEG-GPL-3.0.txt", "THIRD_PARTY.md"].map String.toList

def managedEntry (name : Text) : Bool :=
  safeComponent name &&
    (decide (name = sourceDirectory) || decide (name = mainExecutable) ||
      ".dll".toList.isSuffixOf name || decide (name ∈ documents))

/-- A component of a path; `other` stands for a prefix, a root, `.` or `..`, and for
a name that is not Unicode. -/
inductive Component where
  | normal (name : Text)
  | other (raw : Text)
deriving DecidableEq

structure RelativePath where
  absolute : Bool
  components : List Component
deriving DecidableEq

inductive PathError where
  | invalidPath | nestingExceedsLimit | unsafePath | unsupportedEntry
deriving DecidableEq, Repr

def Component.safe : Component → Bool
  | .normal name => safeComponent name
  | .other _ => false

def validateRelative (path : RelativePath) : Except PathError Unit :=
  if path.components = [] ∨ path.absolute = true then .error .invalidPath
  else if 32 < path.components.length then .error .nestingExceedsLimit
  else if path.components.all Component.safe = false then .error .unsafePath
  else match path.components with
    | .normal first :: rest =>
        if managedEntry first = true ∧ (rest = [] ∨ first = sourceDirectory) then .ok ()
        else .error .unsupportedEntry
    | _ => .error .invalidPath

def Component.text : Component → Text
  | .normal name => name
  | .other raw => raw

def pathKey (path : RelativePath) : Text :=
  ['/'].intercalate (path.components.map fun c => c.text.map toAsciiLowercase)

structure FileEntry where
  path : RelativePath
  sha256 : Text
  size : Nat
deriving DecidableEq

theorem validateRelative_ok {path : RelativePath} (h : validateRelative path = .ok ()) :
    ∃ first rest, path.components = .normal first :: rest ∧ managedEntry first = true ∧
      (rest = [] ∨ first = sourceDirectory) ∧ path.components.all Component.safe = true := by
  unfold validateRelative at h
  by_cases hempty : path.components = [] ∨ path.absolute = true
  · rw [if_pos hempty] at h
    cases h
  rw [if_neg hempty] at h
  split at h
  · cases h
  by_cases hsafe : path.components.all Component.safe = false
  · rw [if_pos hsafe] at h
    cases h
  rw [if_neg hsafe] at h
  rw [Bool.not_eq_false] at hsafe
  cases hcomponents : path.components with
  | nil => exact absurd (Or.inl hcomponents) hempty
  | cons component rest =>
      rw [hcomponents] at h hsafe
      cases component with
      | other raw => cases h
      | normal first =>
          dsimp only at h
          by_cases hmanaged : managedEntry first = true ∧ (rest = [] ∨ first = sourceDirectory)
          · exact ⟨first, rest, rfl, hmanaged.1, hmanaged.2, hsafe⟩
          · rw [if_neg hmanaged] at h
            cases h

end MacVnc.Updater.Package

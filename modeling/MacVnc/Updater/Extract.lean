import MacVnc.Lib.Bytes
import MacVnc.Updater.Install
/-!
# Extracting a package

The archive of a release becomes a staged package (`extract`,
`macvnc-app/src/updater/package.rs`).  What the zip crate says of an entry is the
entry's data, and the reader of `UPDATE.json` is a parameter.  Names in a directory
are told apart as they are written: a file system for which two spellings are one name
is not modelled.
-/

namespace MacVnc.Updater.Extract

open MacVnc.Lib.Bytes
open MacVnc.Lib (Text)
open MacVnc.Lib.Text
open MacVnc.Updater.Package
open MacVnc.Updater.Install

/-! ## Building a tree -/

def Entries.set (name : Text) (entry : Entry) : Entries → Entries
  | .nil => .cons name entry .nil
  | .cons other old rest =>
      if other = name then .cons other entry rest else .cons other old (set name entry rest)

/-- `create_dir_all` from what is found at a name on, below which these follow: the new entry
of the name.  It fails where something else than a directory is met. -/
def createDirsBelow : List Text → Option Entry → Option Entry
  | [], none => some (.directory .nil)
  | [], some (.directory entries) => some (.directory entries)
  | name :: rest, none =>
      (createDirsBelow rest none).map fun child => .directory (.cons name child .nil)
  | name :: rest, some (.directory entries) =>
      (createDirsBelow rest (entries.lookup name)).map fun child =>
        .directory (Entries.set name child entries)
  | _, _ => none

/-- Open a file with `create_new`, from what is found at a name on: the new entry of the name,
for each content that may be written.  It fails where the file exists or its parent does not. -/
def createNewBelow : List Text → Option Entry → Option (List UInt8 → Entry)
  | [], none => some .file
  | name :: rest, some (.directory entries) =>
      (createNewBelow rest (entries.lookup name)).map fun write content =>
        .directory (Entries.set name (write content) entries)
  | _, _ => none

def createDirs (package : Directory) : List Text → Option Directory
  | [] => some package
  | name :: rest =>
      (createDirsBelow rest (package.lookup name)).map fun child => package.insert name child

def createNew (package : Directory) : List Text → Option (List UInt8 → Directory)
  | [] => none
  | name :: rest =>
      (createNewBelow rest (package.lookup name)).map fun write content =>
        package.insert name (write content)

/-! ## Paths -/

def component (piece : Text) : Option Component :=
  if piece = [] ∨ piece = ['.'] then none
  else if piece = ['.', '.'] then some (.other piece)
  else some (.normal piece)

/-- A `PathBuf` of a text.  A drive, which Windows takes as a prefix, is a name with a
colon here. -/
def toPath (text : Text) : RelativePath where
  absolute := text.head? = some '/'
  components :=
    match text.splitOn '/' with
    | [] => []
    | first :: rest =>
        (if first = [] ∧ text ≠ [] then [.other ['/']]
          else if first = ['.'] then [.other first]
          else (component first).toList) ++ rest.filterMap component

/-- The part behind the last period, if there is something before it. -/
def extension (name : Text) : Option Text :=
  let after := (name.reverse.takeWhile (· ≠ '.')).reverse
  if after.length + 1 < name.length then some after else none

def RelativePath.extension (path : RelativePath) : Option Text :=
  match path.components.getLast? with
  | some (.normal name) => Extract.extension name
  | _ => none

/-! ## The archive -/

structure ZipEntry where
  name : Text
  isDir : Bool
  unixMode : Option UInt32
  size : UInt64
  /-- What the reads give, one after the other. -/
  chunks : List (List UInt8)
  /-- The read behind them fails. -/
  readFails : Bool

/-- A file that may be an archive, with those of its entries that can be read. -/
structure Archive where
  length : UInt64
  entries : Option (List (Option ZipEntry))

structure PackageIdentity where
  schema : UInt32
  version : Text
  target : Text
  runtime : List Text
deriving DecidableEq

inductive ExtractError where
  | archiveExceedsSizeLimit
  | notAnArchive
  | tooManyEntries
  | destinationExists
  | cancelled
  | unreadableEntry
  | unexpectedRoot
  | unsafeArchivePath
  | path (error : PathError)
  | duplicatePath
  | linkOrSpecialFile
  | disk
  | sizeOverflow
  | expandedExceedsSizeLimit
  | readFailed
  | exceedsDeclaredSize
  | truncatedEntry
  | missingRequiredFiles
  | noRuntimeDlls
  | invalidIdentity
  | versionMismatch
  | runtimeExceedsLimit
  | invalidRuntime
  | missingRuntimeDll
  | missingFfmpeg
  | invalidExecutable
  | notWindowsX64
deriving DecidableEq

def maxArchive : Nat := 512 * 1024 * 1024

def maxExpanded : Nat := 2 * 1024 * 1024 * 1024

def packageRoot : Text := "macvnc-rust".toList

def trimEndSlashes (name : Text) : Text := (name.reverse.dropWhile (· = '/')).reverse

/-- What follows the root directory in the name of an entry. -/
def stripRoot (name : Text) : Option Text :=
  if (packageRoot ++ ['/']).isPrefixOf name then some (name.drop (packageRoot.length + 1)) else none

def ZipEntry.plainKind (entry : ZipEntry) : Bool :=
  let kind := entry.unixMode.getD 0 &&& 0o170000
  kind = 0 || (entry.isDir && kind = 0o040000) || (!entry.isDir && kind = 0o100000)

/-- The loop that copies an entry, from its `read`-th read on. -/
def copyChunks (cancelled : Nat → Bool) (entry : ZipEntry) (read : Nat) (copied : List UInt8) :
    List (List UInt8) → Except ExtractError (List UInt8)
  | [] =>
      if cancelled read then .error .cancelled
      else if entry.readFails then .error .readFailed
      else .ok copied
  | chunk :: rest =>
      if cancelled read then .error .cancelled
      else if chunk = [] then .ok copied
      else if entry.size.toNat < (copied ++ chunk).length then .error .exceedsDeclaredSize
      else copyChunks cancelled entry (read + 1) (copied ++ chunk) rest

/-- The variables of `extract`, and the tree below its destination. -/
structure Extraction where
  total : Nat
  seen : List Text
  files : List FileEntry
  package : Directory

namespace Extraction

def writeFile (hash : List UInt8 → Text) (cancelled : Nat → Bool) (s : Extraction)
    (entry : ZipEntry) (path : RelativePath) : Except ExtractError Extraction :=
  let names := path.components.map Component.text
  let total := s.total + entry.size.toNat
  if 2 ^ 64 ≤ total then .error .sizeOverflow
  else if maxArchive < entry.size.toNat ∨ maxExpanded < total then .error .expandedExceedsSizeLimit
  else match (createDirs s.package names.dropLast).bind fun package => createNew package names with
    | none => .error .disk
    | some write =>
        match copyChunks cancelled entry 1 [] entry.chunks with
        | .error e => .error e
        | .ok content =>
            if content.length ≠ entry.size.toNat then .error .truncatedEntry
            else .ok
              { s with
                total
                files := s.files ++ [{ path, sha256 := hash content, size := content.length }]
                package := write content }

def extractEntry (hash : List UInt8 → Text) (cancelled : Nat → Bool) (s : Extraction)
    (entry : ZipEntry) : Except ExtractError Extraction :=
  let name := trimEndSlashes entry.name
  if name = packageRoot ∧ entry.isDir then .ok s
  else match stripRoot name with
    | none => .error .unexpectedRoot
    | some relative =>
        if Char.ofNat 92 ∈ relative then .error .unsafeArchivePath
        else
          let path := toPath relative
          match validateRelative path with
          | .error e => .error (.path e)
          | .ok () =>
              if pathKey path ∈ s.seen then .error .duplicatePath
              else if entry.plainKind = false then .error .linkOrSpecialFile
              else
                let s := { s with seen := pathKey path :: s.seen }
                if entry.isDir then
                  match createDirs s.package (path.components.map Component.text) with
                  | none => .error .disk
                  | some package => .ok { s with package }
                else s.writeFile hash cancelled entry path

/-- The loop over the entries, from the `index`-th on.  `cancelled` are the answers of the
callback, by entry and then by call. -/
def extractFrom (hash : List UInt8 → Text) (cancelled : Nat → Nat → Bool) (index : Nat)
    (s : Extraction) : List (Option ZipEntry) → Except ExtractError Extraction
  | [] => .ok s
  | entry :: rest =>
      if cancelled index 0 then .error .cancelled
      else match entry with
        | none => .error .unreadableEntry
        | some entry =>
            match s.extractEntry hash (cancelled index) entry with
            | .error e => .error e
            | .ok s => s.extractFrom hash cancelled (index + 1) rest

end Extraction

/-! ## The package as a whole -/

def requiredFiles : List Text :=
  ["macvnc-app.exe", "UPDATE.json", "LICENSE-AGPL-3.0.txt", "LICENSE.txt", "FFMPEG-LICENSE.txt",
    "THIRD_PARTY.md", "source/Cargo.toml"].map String.toList

def contains (files : List FileEntry) (text : Text) : Bool :=
  files.any fun file => file.path = toPath text

def checkInventory (files : List FileEntry) : Except ExtractError Unit :=
  if requiredFiles.all (contains files) = false then .error .missingRequiredFiles
  else if files.any (fun file => RelativePath.extension file.path = some "dll".toList) = false then
    .error .noRuntimeDlls
  else .ok ()

/-- The loop over the declared runtime; `seen` are the earlier names in lower case. -/
def checkRuntime (files : List FileEntry) (seen : List Text) : List Text → Except ExtractError Unit
  | [] => .ok ()
  | name :: rest =>
      if safeComponent name = false ∨ ".dll".toList.isSuffixOf name = false ∨
          name.map toAsciiLowercase ∈ seen then .error .invalidRuntime
      else if contains files name = false then .error .missingRuntimeDll
      else checkRuntime files (name.map toAsciiLowercase :: seen) rest

def ffmpegPrefixes : List Text :=
  ["avcodec-", "avutil-", "swresample-", "swscale-"].map String.toList

def checkIdentity (parseIdentity : List UInt8 → Option PackageIdentity) (version : Text)
    (files : List FileEntry) (package : Directory) : Except ExtractError Unit :=
  match find package ["UPDATE.json".toList] with
  | .ok (.file content) =>
      match parseIdentity (content.take 4097) with
      | none => .error .invalidIdentity
      | some identity =>
          if identity.schema ≠ 1 ∨ identity.version ≠ version ∨
              identity.target ≠ "windows-x64".toList then .error .versionMismatch
          else if 128 < identity.runtime.length then .error .runtimeExceedsLimit
          else match checkRuntime files [] identity.runtime with
            | .error e => .error e
            | .ok () =>
                if ffmpegPrefixes.all (fun start => identity.runtime.any start.isPrefixOf) then
                  .ok ()
                else .error .missingFfmpeg
  | _ => .error .disk

/-- The first bytes of the executable are those of a program for Windows x64. -/
def checkExecutable (package : Directory) : Except ExtractError Unit :=
  match find package [mainExecutable] with
  | .ok (.file content) =>
      let header := content.take 4096
      if [0x4d, 0x5a].isPrefixOf header = false ∨ header.length < 64 then .error .invalidExecutable
      else
        let pe := ofBigEndian ((header.drop 60).take 4).reverse
        if header.length - 6 < pe ∨ (header.drop pe).take 4 ≠ [0x50, 0x45, 0, 0] ∨
            (header.drop (pe + 4)).take 2 ≠ [0x64, 0x86] then .error .notWindowsX64
        else .ok ()
  | _ => .error .disk

def extract (hash : List UInt8 → Text) (parseIdentity : List UInt8 → Option PackageIdentity)
    (cancelled : Nat → Nat → Bool) (archive : Archive) (occupied : Bool) (version : Text) :
    Except ExtractError (List FileEntry × Directory) :=
  if maxArchive < archive.length.toNat then .error .archiveExceedsSizeLimit
  else match archive.entries with
    | none => .error .notAnArchive
    | some entries =>
        if 100000 < entries.length then .error .tooManyEntries
        else if occupied then .error .destinationExists
        else match Extraction.extractFrom hash cancelled 0 ⟨0, [], [], ∅⟩ entries with
          | .error e => .error e
          | .ok s =>
              match checkInventory s.files with
              | .error e => .error e
              | .ok () =>
                  match checkIdentity parseIdentity version s.files s.package with
                  | .error e => .error e
                  | .ok () =>
                      match checkExecutable s.package with
                      | .error e => .error e
                      | .ok () => .ok (s.files, s.package)

end MacVnc.Updater.Extract

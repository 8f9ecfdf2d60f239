import Mathlib.Order.Lattice
import MacVnc.Lib.Text
/-!
# Releases

What the answer about the latest release has to say, and the published checksums
(`parse_release` and `checksum`, `macvnc-app/src/updater/package.rs`).  The readers of
JSON and of versions are parameters.
-/

namespace MacVnc.Updater.Releases

open MacVnc.Lib (Text)
open MacVnc.Lib.Text

def archiveName : Text := "macvnc-rust-windows-x64.zip".toList

def checksumName : Text := "SHA256SUMS.txt".toList

def repo : Text := "https://github.com/ossmalaysia/macvnc".toList

def maxArchive : Nat := 512 * 1024 * 1024

structure Asset where
  name : Text
  browserDownloadUrl : Text
  size : Nat
deriving DecidableEq

structure ApiRelease where
  tagName : Text
  draft : Bool
  prerelease : Bool
  body : Option Text
  assets : List Asset

structure Release where
  version : Text
  notes : Text
  page : Text
  archiveUrl : Text
  checksumUrl : Text
  size : Nat
deriving DecidableEq

/-- The versions of the `semver` crate. -/
structure Semver (V : Type) where
  parse : Text → Option V
  hasPre : V → Bool
  hasBuild : V → Bool
  toText : V → Text

inductive ReleaseError where
  | invalidResponse
  | unsupportedTag
  | version
  | tooManyAssets
  | missingAsset
  | ambiguousAsset
  | assetExceedsSizeLimit
  | unexpectedUrl
deriving DecidableEq

/-! ## The latest release -/

def downloadUrl (tag name : Text) : Text :=
  repo ++ "/releases/download/".toList ++ tag ++ ['/'] ++ name

def ApiRelease.asset (release : ApiRelease) (name : Text) (limit : Nat) :
    Except ReleaseError Asset :=
  match release.assets.filter fun a => a.name = name with
  | [] => .error .missingAsset
  | a :: rest =>
      if rest ≠ [] then .error .ambiguousAsset
      else if a.size = 0 ∨ limit < a.size then .error .assetExceedsSizeLimit
      else if a.browserDownloadUrl ≠ downloadUrl release.tagName name then .error .unexpectedUrl
      else .ok a

variable {V : Type} [LinearOrder V]

/-- The release is stable and newer, of the version with this text. -/
def ApiRelease.newer (semver : Semver V) (release : ApiRelease) (current : Text) :
    Except ReleaseError (Option V) :=
  if release.draft ∨ release.prerelease then .ok none
  else match release.tagName with
    | 'v' :: text =>
        match semver.parse text with
        | none => .error .version
        | some version =>
            if semver.hasPre version ∨ semver.hasBuild version then .ok none
            else match semver.parse current with
              | none => .error .version
              | some installed => .ok (if version ≤ installed then none else some version)
    | _ => .error .unsupportedTag

def parseRelease (parseJson : List UInt8 → Option ApiRelease) (semver : Semver V)
    (bytes : List UInt8) (current : Text) : Except ReleaseError (Option Release) :=
  match parseJson bytes with
  | none => .error .invalidResponse
  | some release =>
      match release.newer semver current with
      | .error e => .error e
      | .ok none => .ok none
      | .ok (some version) =>
          if 64 < release.assets.length then .error .tooManyAssets
          else match release.asset archiveName maxArchive with
            | .error e => .error e
            | .ok archive =>
                match release.asset checksumName (64 * 1024) with
                | .error e => .error e
                | .ok checksum => .ok <| some
                    { version := semver.toText version
                      notes := (release.body.getD []).take 8000
                      page := repo ++ "/releases/tag/".toList ++ release.tagName
                      archiveUrl := archive.browserDownloadUrl
                      checksumUrl := checksum.browserDownloadUrl
                      size := archive.size }

/-! ## Checksums -/

inductive ChecksumError where
  | notUtf8
  | duplicate
  | invalid
  | missing
deriving DecidableEq

/-- `lines`: a carriage return before the end of a line goes with it. -/
def stripCarriage (line : Text) : Text :=
  if line.getLast? = some '\r' then line.dropLast else line

def lines (text : Text) : List Text :=
  let pieces := text.splitOn '\n'
  pieces.dropLast.map stripCarriage ++ (pieces.getLast?.toList.filter (· ≠ []))

def fields (line : Text) : List Text := (line.splitOnP isWhitespace).filter (· ≠ [])

def isHexDigit (c : Char) : Bool :=
  (48 ≤ c.toNat && c.toNat ≤ 57) || (65 ≤ c.toNat && c.toNat ≤ 70) ||
    (97 ≤ c.toNat && c.toNat ≤ 102)

def isDigest (text : Text) : Bool := text.length = 64 && text.all isHexDigit

/-- The first field of a line of two that names the archive. -/
def namedDigest (line : Text) : Option Text :=
  match fields line with
  | [digest, name] => if name.dropWhile (· = '*') = archiveName then some digest else none
  | _ => none

def findDigest (found : Option Text) : List Text → Except ChecksumError Text
  | [] =>
      match found with
      | none => .error .missing
      | some digest => .ok digest
  | line :: rest =>
      match namedDigest line with
      | none => findDigest found rest
      | some digest =>
          if found.isSome then .error .duplicate
          else if isDigest digest = false then .error .invalid
          else findDigest (some (digest.map toAsciiLowercase)) rest

def checksum (bytes : List UInt8) : Except ChecksumError Text :=
  match fromUtf8 bytes with
  | none => .error .notUtf8
  | some text =>
      findDigest none <|
        (lines (text.dropWhile (· = Char.ofNat 0xfeff))).filter fun line =>
          !line.all isWhitespace

/-! ## What is accepted -/

/-- The digest that the lines give for the archive: one line names it. -/
def Names (lines : List Text) (digest : Text) : Prop :=
  ∃ found, lines.filterMap namedDigest = [found] ∧ isDigest found = true ∧
    digest = found.map toAsciiLowercase

theorem findDigest_some_iff {found digest : Text} {lines : List Text} :
    findDigest (some found) lines = .ok digest ↔
      lines.filterMap namedDigest = [] ∧ digest = found := by
  induction lines with
  | nil =>
      rw [findDigest, Except.ok.injEq, List.filterMap_nil]
      exact ⟨fun h => ⟨rfl, h.symm⟩, fun h => h.2.symm⟩
  | cons line rest ih =>
      rw [findDigest]
      cases hline : namedDigest line with
      | none =>
          rw [List.filterMap_cons_none hline]
          exact ih
      | some digest' =>
          rw [List.filterMap_cons_some hline]
          constructor
          · intro h
            cases h
          · rintro ⟨h, -⟩
            cases h

theorem findDigest_none_iff {digest : Text} {lines : List Text} :
    findDigest none lines = .ok digest ↔ Names lines digest := by
  unfold Names
  induction lines with
  | nil =>
      constructor
      · intro h
        cases h
      · rintro ⟨found, h, -⟩
        cases h
  | cons line rest ih =>
      rw [findDigest]
      cases hline : namedDigest line with
      | none =>
          rw [List.filterMap_cons_none hline]
          exact ih
      | some found =>
          rw [List.filterMap_cons_some hline]
          dsimp only [Option.isSome_none]
          rw [if_neg Bool.false_ne_true]
          by_cases hvalid : isDigest found = true
          · rw [if_neg ((Bool.not_eq_false _).mpr hvalid), findDigest_some_iff]
            constructor
            · rintro ⟨hrest, rfl⟩
              exact ⟨found, by rw [hrest], hvalid, rfl⟩
            · rintro ⟨found', hfound, -, rfl⟩
              obtain ⟨rfl, hrest⟩ := List.cons.inj hfound
              exact ⟨hrest, rfl⟩
          · rw [if_pos (Bool.of_not_eq_true hvalid)]
            constructor
            · intro h
              cases h
            · rintro ⟨found', hfound, hvalid', -⟩
              exact absurd ((List.cons.inj hfound).1 ▸ hvalid') hvalid

/-- The published checksums identify the archive exactly once, with this digest. -/
def Identifies (bytes : List UInt8) (digest : Text) : Prop :=
  ∃ text, fromUtf8 bytes = some text ∧
    Names ((lines (text.dropWhile (· = Char.ofNat 0xfeff))).filter fun line =>
      !line.all isWhitespace) digest

theorem checksum_ok_iff {bytes : List UInt8} {digest : Text} :
    checksum bytes = .ok digest ↔ Identifies bytes digest := by
  unfold checksum Identifies
  cases fromUtf8 bytes with
  | none =>
      constructor
      · intro h
        cases h
      · rintro ⟨text, h, -⟩
        cases h
  | some text =>
      rw [findDigest_none_iff]
      exact ⟨fun h => ⟨text, rfl, h⟩, fun ⟨_, h, hnames⟩ => Option.some.inj h ▸ hnames⟩

/-- An asset of a release: the only one of its name, of a size within the limit, from where
the release keeps it. -/
structure Published (release : ApiRelease) (name : Text) (limit : Nat) (a : Asset) : Prop where
  only : release.assets.filter (fun a => a.name = name) = [a]
  size : 0 < a.size ∧ a.size ≤ limit
  url : a.browserDownloadUrl = downloadUrl release.tagName name

theorem asset_ok_iff {release : ApiRelease} {name : Text} {limit : Nat} {a : Asset} :
    release.asset name limit = .ok a ↔ Published release name limit a := by
  unfold ApiRelease.asset
  cases hassets : release.assets.filter fun a => a.name = name with
  | nil =>
      constructor
      · intro h
        cases h
      · intro h
        cases hassets.symm.trans h.only
  | cons a' rest =>
      dsimp only
      split
      · rename_i hrest
        constructor
        · intro h
          cases h
        · intro h
          exact absurd (List.cons.inj (hassets.symm.trans h.only)).2 hrest
      split
      · rename_i hsize
        constructor
        · intro h
          cases h
        · intro h
          obtain ⟨rfl, -⟩ := List.cons.inj (hassets.symm.trans h.only)
          have hlimits := h.size
          omega
      split
      · rename_i hurl
        constructor
        · intro h
          cases h
        · intro h
          obtain ⟨rfl, -⟩ := List.cons.inj (hassets.symm.trans h.only)
          exact absurd h.url hurl
      · rename_i hrest hsize hurl
        rw [not_not] at hrest hurl
        rw [Except.ok.injEq]
        constructor
        · rintro rfl
          exact ⟨hrest ▸ hassets, by omega, hurl⟩
        · intro h
          exact (List.cons.inj (hassets.symm.trans h.only)).1

/-- The tag is that of a stable version behind the installed one. -/
structure Newer (semver : Semver V) (release : ApiRelease) (current : Text) (version : V) :
    Prop where
  published : release.draft = false ∧ release.prerelease = false
  tag : ∃ text, release.tagName = 'v' :: text ∧ semver.parse text = some version
  stable : semver.hasPre version = false ∧ semver.hasBuild version = false
  installed : ∃ installed, semver.parse current = some installed ∧ installed < version

theorem newer_ok {semver : Semver V} {release : ApiRelease} {current : Text} {version : V}
    (h : release.newer semver current = .ok (some version)) :
    Newer semver release current version := by
  unfold ApiRelease.newer at h
  split at h
  · cases h
  rename_i hpublished
  split at h
  · rename_i text htag
    split at h
    · cases h
    rename_i version' hversion
    split at h
    · cases h
    rename_i hstable
    split at h
    · cases h
    rename_i installed hinstalled
    rw [Except.ok.injEq, Option.ite_none_left_eq_some, Option.some.injEq] at h
    obtain ⟨hnewer, rfl⟩ := h
    rw [not_or, Bool.not_eq_true, Bool.not_eq_true] at hpublished hstable
    exact ⟨hpublished, ⟨text, htag, hversion⟩, hstable, ⟨installed, hinstalled, not_le.1 hnewer⟩⟩
  · cases h

/-- What is offered: a stable release behind the installed one, with its two assets. -/
structure Offered (semver : Semver V) (api : ApiRelease) (current : Text) (release : Release) :
    Prop where
  newer : ∃ version, Newer semver api current version ∧ release.version = semver.toText version
  archive : ∃ a, Published api archiveName maxArchive a ∧
    release.archiveUrl = a.browserDownloadUrl ∧
    release.size = a.size
  checksum : ∃ a, Published api checksumName (64 * 1024) a ∧
    release.checksumUrl = a.browserDownloadUrl
  notes : release.notes.length ≤ 8000

theorem parseRelease_ok {parseJson : List UInt8 → Option ApiRelease} {semver : Semver V}
    {bytes : List UInt8} {current : Text} {release : Release}
    (h : parseRelease parseJson semver bytes current = .ok (some release)) :
    ∃ api, parseJson bytes = some api ∧ Offered semver api current release := by
  unfold parseRelease at h
  split at h
  · cases h
  rename_i api hapi
  split at h
  · cases h
  · cases h
  rename_i version hnewer
  split at h
  · cases h
  split at h
  · cases h
  rename_i archive harchive
  split at h
  · cases h
  rename_i checksum hchecksum
  cases h
  exact ⟨api, hapi, ⟨version, newer_ok hnewer, rfl⟩,
    ⟨archive, asset_ok_iff.1 harchive, rfl, rfl⟩, ⟨checksum, asset_ok_iff.1 hchecksum, rfl⟩,
    List.length_take_le _ _⟩

end MacVnc.Updater.Releases

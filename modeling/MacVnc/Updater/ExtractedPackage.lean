import MacVnc.Updater.TreeBuilding
/-!
# The extracted package verifies

What holds of the tree and of the planned files while the entries of an archive are
written, and that verification accepts the result.
-/

namespace MacVnc.Updater.ExtractedPackage

open MacVnc.Lib (Text)
open MacVnc.Lib.Text
open MacVnc.Updater.Package
open MacVnc.Updater.Install
open MacVnc.Updater.Extract
open MacVnc.Updater.Verification
open MacVnc.Updater.TreeBuilding

variable {hash : List UInt8 → Text} {package package' : Directory} {files : List FileEntry}
  {names : List Text} {s s' : Extraction}

/-! ## Paths -/

theorem valid_prefix {dir : List Text} (h : validateRelative (relativePath names) = .ok ())
    (hdir : dir ≠ []) (hinitial : dir <+: names) :
    validateRelative (relativePath dir) = .ok () := by
  obtain ⟨hshort, first, rest, rfl, hmanaged, hrest, hsafe⟩ := valid_iff.1 h
  refine valid_iff.2 ⟨hinitial.length_le.trans hshort, ?_⟩
  cases dir with
  | nil => exact absurd rfl hdir
  | cons name inner =>
      obtain ⟨rfl, hinner⟩ := List.cons_prefix_cons.1 hinitial
      have hinside : ∀ other ∈ name :: inner, safeComponent other = true :=
        fun other hother => hsafe other (hinitial.subset hother)
      refine ⟨name, inner, rfl, hmanaged, ?_, hinside⟩
      rcases hrest with rfl | hsource
      · exact .inl (List.prefix_nil.1 hinner)
      · exact .inr hsource

/-! ## The invariant -/

/-- The planned files are found as planned, no key is planned twice, and nothing else is in the
tree but directories with valid paths. -/
structure Staged (hash : List UInt8 → Text) (s : Extraction) : Prop where
  planned : ∀ file ∈ s.files, Planned hash s.package file
  distinct : (s.files.map fun file => pathKey file.path).Nodup
  seen : ∀ file ∈ s.files, pathKey file.path ∈ s.seen
  stored : (storedPaths (listing s.package)).Perm
    (s.files.map fun file => file.path.components.map Component.text)
  valid : ∀ e ∈ listing s.package, e.2 ≠ .link ∧ validateRelative (relativePath e.1) = .ok ()

theorem staged_start : Staged hash ⟨0, [], [], ∅⟩ where
  planned := nofun
  distinct := List.nodup_nil
  seen := nofun
  stored := .refl _
  valid := nofun

theorem planned_stays {file : FileEntry} (h : Planned hash package file)
    (hstays : Stays package package') : Planned hash package' file where
  valid := h.valid
  found := by
    obtain ⟨content, hfind, hsame⟩ := h.found
    exact ⟨content, hstays _ content hfind, hsame⟩

theorem storedPaths_directories (dirs : List (List Text)) :
    storedPaths (asDirectories dirs) = [] := by
  unfold storedPaths asDirectories
  rw [List.map_eq_nil_iff, List.filter_eq_nil_iff]
  intro e he
  obtain ⟨dir, _, rfl⟩ := List.mem_map.1 he
  exact Bool.false_ne_true

theorem Staged.createDirs (h : Staged hash s) {path : List Text}
    (hpath : validateRelative (relativePath path) = .ok ()) (hnames : names <+: path)
    (hdirs : createDirs s.package names = some package) : Staged hash { s with package } where
  planned file hfile := planned_stays (h.planned file hfile) (createDirs_stays hdirs)
  distinct := h.distinct
  seen := h.seen
  stored := by
    obtain ⟨dirs, _, hlisting⟩ := createDirs_listing hdirs
    have hstored := (hlisting.filter fun e => e.2.stored).map Prod.fst
    have hsplit := storedPaths_append (asDirectories dirs) (listing s.package)
    rw [storedPaths_directories, List.nil_append] at hsplit
    exact (hstored.trans (hsplit ▸ .refl _)).trans h.stored
  valid := by
    obtain ⟨dirs, hway, hlisting⟩ := createDirs_listing hdirs
    intro e he
    rcases List.mem_append.1 (hlisting.subset he) with hnew | hold
    · obtain ⟨dir, hdir, rfl⟩ := List.mem_map.1 hnew
      exact ⟨nofun, valid_prefix hpath (hway dir hdir).1 ((hway dir hdir).2.trans hnames)⟩
    · exact h.valid e hold

theorem Staged.addFile (h : Staged hash s) {path : RelativePath}
    (hpath : validateRelative path = .ok ()) (hseen : pathKey path ∈ s.seen)
    (hnew : ∀ file ∈ s.files, pathKey file.path ≠ pathKey path) {write : List UInt8 → Directory}
    (hwrite : createNew s.package (path.components.map Component.text) = some write)
    (content : List UInt8) (total : Nat) :
    Staged hash
      { s with
        total
        files := s.files ++ [{ path, sha256 := hash content, size := content.length }]
        package := write content } where
  planned := by
    intro file hfile
    rcases List.mem_append.1 hfile with hold | hlast
    · exact planned_stays (h.planned file hold) (createNew_stays hwrite content)
    · cases List.mem_singleton.1 hlast
      exact ⟨hpath, content, createNew_find hwrite content, rfl, rfl⟩
  distinct := by
    rw [List.map_append]
    refine List.nodup_append.2 ⟨h.distinct, List.nodup_singleton _, ?_⟩
    intro key hkey other hother
    obtain ⟨file, hfile, rfl⟩ := List.mem_map.1 hkey
    cases List.mem_singleton.1 hother
    exact hnew file hfile
  seen := by
    intro file hfile
    rcases List.mem_append.1 hfile with hold | hlast
    · exact h.seen file hold
    · cases List.mem_singleton.1 hlast
      exact hseen
  stored := by
    have hlisting := ((createNew_listing hwrite content).filter fun e => e.2.stored).map Prod.fst
    refine List.Perm.trans (hlisting.trans (h.stored.cons _)) ?_
    rw [List.map_append]
    exact (List.perm_append_singleton _ _).symm
  valid := by
    intro e he
    rcases List.mem_cons.1 ((createNew_listing hwrite content).subset he) with rfl | hold
    · exact ⟨nofun, relativePath_of_valid hpath ▸ hpath⟩
    · exact h.valid e hold

/-! ## The loop -/

/-- A file is written in a directory that was made for it. -/
theorem writeFile_inv {cancelled : Nat → Bool} {entry : ZipEntry} {path : RelativePath}
    (h : s.writeFile hash cancelled entry path = .ok s') :
    ∃ parent write content total,
      Extract.createDirs s.package (path.components.map Component.text).dropLast = some parent ∧
        createNew parent (path.components.map Component.text) = some write ∧
        s' = { s with
          total
          files := s.files ++ [{ path, sha256 := hash content, size := content.length }]
          package := write content } := by
  unfold Extraction.writeFile at h
  dsimp only at h
  split at h
  · cases h
  split at h
  · cases h
  split at h
  · cases h
  rename_i write hwrite
  obtain ⟨parent, hparent, hnew⟩ := Option.bind_eq_some_iff.1 hwrite
  split at h
  · cases h
  rename_i content hcopied
  split at h
  · cases h
  · cases h
    exact ⟨parent, write, content, _, hparent, hnew, rfl⟩

theorem extractEntry_staged (h : Staged hash s) {cancelled : Nat → Bool} {entry : ZipEntry}
    (hentry : s.extractEntry hash cancelled entry = .ok s') : Staged hash s' := by
  unfold Extraction.extractEntry at hentry
  dsimp only at hentry
  split at hentry
  · cases hentry
    exact h
  split at hentry
  · cases hentry
  rename_i relative hrelative
  split at hentry
  · cases hentry
  cases hvalid : validateRelative (toPath relative) with
  | error e =>
      rw [hvalid] at hentry
      cases hentry
  | ok valid =>
      rw [hvalid] at hentry
      dsimp only at hentry
      generalize toPath relative = path at hvalid hentry
      split at hentry
      · cases hentry
      rename_i hnew
      split at hentry
      · cases hentry
      have hseen : Staged hash { s with seen := pathKey path :: s.seen } :=
        ⟨h.planned, h.distinct, fun file hfile => List.mem_cons_of_mem _ (h.seen file hfile),
          h.stored, h.valid⟩
      have hpath := relativePath_of_valid hvalid ▸ hvalid
      split at hentry
      · split at hentry
        · cases hentry
        · rename_i package hdirs
          cases hentry
          exact hseen.createDirs hpath (List.prefix_refl _) hdirs
      · obtain ⟨parent, write, content, total, hparent, hwrite, rfl⟩ := writeFile_inv hentry
        have hdirs := hseen.createDirs hpath (List.dropLast_prefix _) hparent
        apply hdirs.addFile hvalid List.mem_cons_self _ hwrite
        intro file hfile hkey
        exact hnew (hkey ▸ h.seen file hfile)

theorem extractFrom_staged (h : Staged hash s) {cancelled : Nat → Nat → Bool} {index : Nat}
    {entries : List (Option ZipEntry)}
    (hfrom : s.extractFrom hash cancelled index entries = .ok s') : Staged hash s' := by
  induction entries generalizing s index with
  | nil =>
      cases hfrom
      exact h
  | cons entry rest ih =>
      unfold Extraction.extractFrom at hfrom
      split at hfrom
      · cases hfrom
      split at hfrom
      · cases hfrom
      rename_i entry
      split at hfrom
      · cases hfrom
      · rename_i next hnext
        exact ih (extractEntry_staged h hnext) hfrom

/-! ## Verification -/

theorem verifyFiles_of_staged (h : Staged hash s) (d : Disk) :
    verifyFiles hash { d with packagePlain := true, package := s.package } ⟨s.files⟩ = .ok () := by
  apply verifyFiles_iff.2
  refine ⟨rfl, _, verifyPlanned_iff.2 ⟨h.planned, h.distinct, nofun, rfl⟩, ?_⟩
  apply (walkPackage_iff _ _).2
  refine ⟨h.stored.length_eq.trans (List.length_map _), h.valid, ?_⟩
  intro p hp
  obtain ⟨file, hfile, rfl⟩ := List.mem_map.1 (h.stored.subset hp)
  rw [List.append_nil, List.mem_reverse]
  refine List.mem_map.2 ⟨file, hfile, ?_⟩
  rw [List.nil_append, ← relativePath_of_valid (h.planned file hfile).valid]

theorem extract_staged {parseIdentity : List UInt8 → Option PackageIdentity}
    {cancelled : Nat → Nat → Bool} {archive : Archive} {occupied : Bool} {version : Text}
    (h : extract hash parseIdentity cancelled archive occupied version = .ok (files, package)) :
    ∃ s : Extraction, s.files = files ∧ s.package = package ∧ Staged hash s := by
  unfold extract at h
  split at h
  · cases h
  split at h
  · cases h
  rename_i entries hentries
  split at h
  · cases h
  split at h
  · cases h
  split at h
  · cases h
  rename_i s hfrom
  split at h
  · cases h
  split at h
  · cases h
  split at h
  · cases h
  · cases h
    exact ⟨s, rfl, rfl, extractFrom_staged staged_start hfrom⟩

/-- What `verify_files` accepts is exactly what was planned, and it accepts what `extract` made
of an archive, with the files that it returned. -/
theorem staged_verification_exact (hash : List UInt8 → Text) :
    (∀ (d : Disk) (plan : Plan), verifyFiles hash d plan = .ok () →
      d.packagePlain = true ∧ Exact hash d.package plan.files) ∧
    ∀ (parseIdentity : List UInt8 → Option PackageIdentity) (cancelled : Nat → Nat → Bool)
      (archive : Archive) (occupied : Bool) (version : Text) (files : List FileEntry)
      (package : Directory),
      extract hash parseIdentity cancelled archive occupied version = .ok (files, package) →
        ∀ d : Disk, verifyFiles hash { d with packagePlain := true, package } ⟨files⟩ = .ok () := by
  constructor
  · intro d plan h
    exact ⟨(verifyFiles_iff.1 h).1, exact_of_verified h⟩
  · intro parseIdentity cancelled archive occupied version files package h d
    obtain ⟨s, rfl, rfl, hstaged⟩ := extract_staged h
    exact verifyFiles_of_staged hstaged d

/-- A program with a header for Windows x64 and nothing else. -/
def fixtureProgram : List UInt8 :=
  [0x4d, 0x5a] ++ List.replicate 58 0 ++ [64, 0, 0, 0] ++ [0x50, 0x45, 0, 0, 0x64, 0x86] ++
    List.replicate 58 0

/-- `UPDATE.json`, as it is written. -/
def fixtureUpdate : List UInt8 :=
  toUtf8 ("\x7b\"schema\":1,\"version\":\"0.1.10\",\"target\":\"windows-x64\"," ++
    "\"runtime\":[\"avcodec-61.dll\",\"avutil-59.dll\",\"swresample-5.dll\"," ++
    "\"swscale-8.dll\"]\x7d").toList

/-- What `UPDATE.json` says. -/
def fixtureIdentity (content : List UInt8) : Option PackageIdentity :=
  if content = fixtureUpdate then some
    { schema := 1
      version := "0.1.10".toList
      target := "windows-x64".toList
      runtime := ["avcodec-61.dll", "avutil-59.dll", "swresample-5.dll", "swscale-8.dll"].map
        String.toList }
  else none

def fixtureContents : List (String × List UInt8) :=
  [("macvnc-app.exe", fixtureProgram),
    ("UPDATE.json", fixtureUpdate),
    ("avcodec-61.dll", toUtf8 "synthetic DLL".toList),
    ("avutil-59.dll", toUtf8 "synthetic DLL".toList),
    ("swresample-5.dll", toUtf8 "synthetic DLL".toList),
    ("swscale-8.dll", toUtf8 "synthetic DLL".toList),
    ("LICENSE-AGPL-3.0.txt", toUtf8 "synthetic license".toList),
    ("LICENSE.txt", toUtf8 "synthetic license".toList),
    ("FFMPEG-LICENSE.txt", toUtf8 "synthetic license".toList),
    ("THIRD_PARTY.md", toUtf8 "synthetic notices".toList),
    ("source/Cargo.toml", toUtf8 "synthetic source".toList)]

def fixtureDigest (content : List UInt8) : Text :=
  if content = fixtureProgram then
    "d1a163b6d2e1ca2d24467cc99302770cca68a3bcc2e610f724fca69b410dd19a".toList
  else if content = fixtureUpdate then
    "6c63829750cb24f3be66c8b3c0e4ae6920376beb7979713e94fce2bf283b7ed2".toList
  else if content = toUtf8 "synthetic DLL".toList then
    "7369eafb7088b0c837715633dc699c874045efff76ff01c3ca328029a8434ebd".toList
  else if content = toUtf8 "synthetic license".toList then
    "2e3d8844efe9cc5040f433127f7bf2140624e43734bee16cf742fb1924052dc9".toList
  else if content = toUtf8 "synthetic notices".toList then
    "87c4c0e8b7c53fc56f29b5046e43e5602dee19976fbf4f1a7d5c5345c61ff4e8".toList
  else "39631bb5e5dc9326b23f8c00bf43440a84ce711315c6b799de554c56aa04d133".toList

def fixtureArchive : Archive :=
  { length := 4096
    entries := some (fixtureContents.map fun e => some
      { name := packageRoot ++ ['/'] ++ e.1.toList
        isDir := false
        unixMode := some 0o100644
        size := UInt64.ofNat e.2.length
        chunks := [e.2]
        readFails := false }) }

theorem staged_verification_exact_fixture :
    ∃ files package,
      extract fixtureDigest fixtureIdentity (fun _ _ => false) fixtureArchive false
        "0.1.10".toList = .ok (files, package) ∧
      files.length = 11 ∧
      verifyFiles fixtureDigest ⟨∅, true, package, none, none⟩ ⟨files⟩ = .ok () ∧
      Exact fixtureDigest package files := by
  have hcount : (extract fixtureDigest fixtureIdentity (fun _ _ => false) fixtureArchive false
      "0.1.10".toList).toOption.map (fun result => result.1.length) = some 11 := by
    decide +kernel
  cases hextract : extract fixtureDigest fixtureIdentity (fun _ _ => false) fixtureArchive false
      "0.1.10".toList with
  | error e =>
      rw [hextract] at hcount
      cases hcount
  | ok result =>
      rw [hextract] at hcount
      obtain ⟨hexact, haccepts⟩ := staged_verification_exact fixtureDigest
      have hverify := haccepts _ _ _ _ _ _ _ hextract ⟨∅, true, ∅, none, none⟩
      exact ⟨result.1, result.2, rfl, Option.some.inj hcount, hverify, (hexact _ _ hverify).2⟩

end MacVnc.Updater.ExtractedPackage

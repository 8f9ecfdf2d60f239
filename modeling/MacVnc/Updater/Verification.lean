import MacVnc.Updater.Install
import Mathlib.Data.List.Perm.Subperm
/-!
# What verification finds

A staged package as the flat list of the entries below it, and what `verify_files`
has found out about it when it succeeds.
-/

namespace MacVnc.Updater.Verification

open MacVnc.Lib (Text)
open MacVnc.Lib.Text
open MacVnc.Updater.Package
open MacVnc.Updater.Install

/-! ## The flat list -/

inductive Kind where
  | file (content : List UInt8)
  | directory
  | link
deriving DecidableEq

/-- Anything but a directory. -/
def Kind.stored : Kind → Bool
  | .directory => false
  | _ => true

def kind : Entry → Kind
  | .file content => .file content
  | .directory _ => .directory
  | .link => .link

/-- An entry of a directory, as seen from outside. -/
def below (name : Text) (e : List Text × Kind) : List Text × Kind := (name :: e.1, e.2)

mutual

/-- The entry and what is below it, by the way from the entry. -/
def Entry.listing : Entry → List (List Text × Kind)
  | .file content => [([], .file content)]
  | .link => [([], .link)]
  | .directory entries => ([], .directory) :: Entries.listing entries

def Entries.listing : Entries → List (List Text × Kind)
  | .nil => []
  | .cons name entry rest => (Entry.listing entry).map (below name) ++ Entries.listing rest

end

def listing (package : Directory) : List (List Text × Kind) :=
  package.entries.flatMap fun e => (Entry.listing e.2).map (below e.1)

/-- The paths that are no directories. -/
def storedPaths (l : List (List Text × Kind)) : List (List Text) :=
  (l.filter fun e => e.2.stored).map Prod.fst

theorem self_mem_listing (entry : Entry) : ([], kind entry) ∈ Entry.listing entry := by
  cases entry with
  | file content => exact List.mem_singleton.2 rfl
  | directory entries => exact List.mem_cons_self
  | link => exact List.mem_singleton.2 rfl

/-! ## Walking -/

/-- What a walk has found out about the entries below a path. -/
structure Walked (seen : List Text) (path : List Text) (l : List (List Text × Kind)) (count : Nat) :
    Prop where
  count : (storedPaths l).length = count
  valid : ∀ e ∈ l, e.2 ≠ .link ∧ validateRelative (relativePath (path ++ e.1)) = .ok ()
  seen : ∀ p ∈ storedPaths l, pathKey (relativePath (path ++ p)) ∈ seen

variable {seen path : List Text} {l l' : List (List Text × Kind)} {name : Text} {count : Nat}

theorem storedPaths_append (l l' : List (List Text × Kind)) :
    storedPaths (l ++ l') = storedPaths l ++ storedPaths l' := by
  rw [storedPaths, List.filter_append, List.map_append]
  rfl

theorem storedPaths_below :
    storedPaths (l.map (below name)) = (storedPaths l).map fun p => name :: p := by
  rw [storedPaths, List.filter_map, List.map_map, storedPaths, List.map_map]
  rfl

theorem walked_nil : Walked seen path [] 0 where
  count := rfl
  valid := nofun
  seen := nofun

theorem walked_append_iff :
    Walked seen path (l ++ l') count ↔
      ∃ first rest, Walked seen path l first ∧ Walked seen path l' rest ∧ first + rest = count := by
  constructor
  · intro h
    have hcount := h.count
    rw [storedPaths_append, List.length_append] at hcount
    refine ⟨_, _, ⟨rfl, ?_, ?_⟩, ⟨rfl, ?_, ?_⟩, hcount⟩
    · exact fun e he => h.valid e (List.mem_append_left _ he)
    · exact fun p hp => h.seen p (storedPaths_append l l' ▸ List.mem_append_left _ hp)
    · exact fun e he => h.valid e (List.mem_append_right _ he)
    · exact fun p hp => h.seen p (storedPaths_append l l' ▸ List.mem_append_right _ hp)
  · rintro ⟨first, rest, hfirst, hrest, rfl⟩
    refine ⟨?_, ?_, ?_⟩
    · rw [storedPaths_append, List.length_append, hfirst.count, hrest.count]
    · intro e he
      rcases List.mem_append.1 he with hleft | hright
      · exact hfirst.valid e hleft
      · exact hrest.valid e hright
    · intro p hp
      rw [storedPaths_append] at hp
      rcases List.mem_append.1 hp with hleft | hright
      · exact hfirst.seen p hleft
      · exact hrest.seen p hright

theorem walked_below_iff :
    Walked seen path (l.map (below name)) count ↔ Walked seen (path ++ [name]) l count := by
  have hpath (p : List Text) : path ++ name :: p = path ++ [name] ++ p := by
    rw [List.append_assoc]
    rfl
  constructor
  · intro h
    refine ⟨?_, ?_, ?_⟩
    · have hcount := h.count
      rwa [storedPaths_below, List.length_map] at hcount
    · intro e he
      have hvalid := h.valid _ (List.mem_map_of_mem he)
      rwa [below, hpath] at hvalid
    · intro p hp
      have hseen := h.seen (name :: p) (storedPaths_below ▸ List.mem_map_of_mem hp)
      rwa [hpath] at hseen
  · intro h
    refine ⟨?_, ?_, ?_⟩
    · rw [storedPaths_below, List.length_map]
      exact h.count
    · intro e he
      obtain ⟨inner, hinner, rfl⟩ := List.mem_map.1 he
      rw [below, hpath]
      exact h.valid inner hinner
    · intro p hp
      rw [storedPaths_below] at hp
      obtain ⟨inner, hinner, rfl⟩ := List.mem_map.1 hp
      rw [hpath]
      exact h.seen inner hinner

theorem both_ok_iff {first rest : Except InstallError Nat} :
    (match first with
      | .error e => .error e
      | .ok n =>
          match rest with
          | .error e => .error e
          | .ok more => .ok (n + more)) = Except.ok count ↔
      ∃ n more, first = .ok n ∧ rest = .ok more ∧ n + more = count := by
  constructor
  · intro h
    cases first with
    | error e => cases h
    | ok n =>
        cases rest with
        | error e => cases h
        | ok more =>
            cases h
            exact ⟨n, more, rfl, rfl, rfl⟩
  · rintro ⟨n, more, rfl, rfl, rfl⟩
    rfl

theorem walked_self_iff {k : Kind} (hk : k.stored = false) :
    Walked seen path (([], k) :: l) count ↔
      validateRelative (relativePath path) = .ok () ∧ Walked seen path l count := by
  have hstored : storedPaths (([], k) :: l) = storedPaths l := by
    rw [storedPaths, List.filter_cons_of_neg (by rw [hk]; exact Bool.false_ne_true)]
    rfl
  constructor
  · intro h
    have hself := (h.valid _ List.mem_cons_self).2
    rw [List.append_nil] at hself
    refine ⟨hself, hstored ▸ h.count, ?_, hstored ▸ h.seen⟩
    exact fun e he => h.valid e (List.mem_cons_of_mem _ he)
  · rintro ⟨hself, h⟩
    refine ⟨hstored.symm ▸ h.count, ?_, hstored.symm ▸ h.seen⟩
    intro e he
    rcases List.mem_cons.1 he with rfl | he
    · rw [List.append_nil]
      refine ⟨?_, hself⟩
      rintro rfl
      cases hk
    · exact h.valid e he

theorem walked_file_iff {content : List UInt8} :
    Walked seen path [([], .file content)] count ↔
      validateRelative (relativePath path) = .ok () ∧ pathKey (relativePath path) ∈ seen ∧
        count = 1 := by
  constructor
  · intro h
    have hvalid := (h.valid _ (List.mem_singleton.2 rfl)).2
    have hseen := h.seen [] (List.mem_singleton.2 rfl)
    rw [List.append_nil] at hvalid hseen
    exact ⟨hvalid, hseen, h.count.symm⟩
  · rintro ⟨hvalid, hseen, rfl⟩
    refine ⟨rfl, ?_, ?_⟩
    · intro e he
      rw [List.mem_singleton.1 he, List.append_nil]
      exact ⟨nofun, hvalid⟩
    · intro p hp
      rw [List.mem_singleton.1 hp, List.append_nil]
      exact hseen

mutual

theorem Entry.walk_iff (entry : Entry) (path : List Text) (count : Nat) :
    entry.walk seen path = .ok count ↔ Walked seen path (Entry.listing entry) count := by
  cases entry with
  | link =>
      refine ⟨nofun, fun h => ?_⟩
      exact absurd rfl (h.valid _ (List.mem_singleton.2 rfl)).1
  | file content =>
      unfold Install.Entry.walk Entry.listing
      rw [walked_file_iff]
      cases validateRelative (relativePath path) with
      | error e => exact ⟨nofun, nofun⟩
      | ok valid =>
          dsimp only
          split
          · rename_i hseen
            rw [Except.ok.injEq, eq_comm]
            exact ⟨fun h => ⟨rfl, hseen, h⟩, fun h => h.2.2⟩
          · rename_i hunseen
            exact ⟨nofun, fun h => absurd h.2.1 hunseen⟩
  | directory entries =>
      unfold Install.Entry.walk Entry.listing
      rw [walked_self_iff rfl]
      cases validateRelative (relativePath path) with
      | error e => exact ⟨nofun, nofun⟩
      | ok valid =>
          refine (Entries.walk_iff entries path count).trans ?_
          exact ⟨fun h => ⟨rfl, h⟩, And.right⟩

theorem Entries.walk_iff (entries : Entries) (path : List Text) (count : Nat) :
    entries.walk seen path = .ok count ↔ Walked seen path (Entries.listing entries) count := by
  cases entries with
  | nil =>
      unfold Install.Entries.walk Entries.listing
      constructor
      · intro h
        cases h
        exact walked_nil
      · intro h
        exact congrArg Except.ok h.count
  | cons name entry rest =>
      unfold Install.Entries.walk Entries.listing
      refine both_ok_iff.trans ?_
      rw [walked_append_iff]
      simp only [walked_below_iff, Entry.walk_iff entry, Entries.walk_iff rest]

end

theorem walkPackage_iff (entries : List (Sigma fun _ : Text => Entry)) (count : Nat) :
    walkPackage seen entries = .ok count ↔
      Walked seen [] (entries.flatMap fun e => (Entry.listing e.2).map (below e.1)) count := by
  induction entries generalizing count with
  | nil =>
      unfold walkPackage
      constructor
      · intro h
        cases h
        exact walked_nil
      · intro h
        exact congrArg Except.ok h.count
  | cons e rest ih =>
      unfold walkPackage
      refine both_ok_iff.trans ?_
      rw [List.flatMap_cons, walked_append_iff]
      simp only [walked_below_iff, Entry.walk_iff e.2, ih, List.nil_append]

/-! ## The planned files -/

/-- A file that was planned and found as it was planned. -/
structure Planned (hash : List UInt8 → Text) (package : Directory) (file : FileEntry) : Prop where
  valid : validateRelative file.path = .ok ()
  found : ∃ content, find package (file.path.components.map Component.text) =
    .ok (.file content) ∧ content.length = file.size ∧ hash content = file.sha256

theorem matchesPlan_iff {hash : List UInt8 → Text} {file : FileEntry} {entry : Entry} :
    matchesPlan hash file entry = true ↔
      ∃ content, entry = .file content ∧ content.length = file.size ∧
        hash content = file.sha256 := by
  cases entry with
  | file content =>
      rw [matchesPlan, Bool.and_eq_true, decide_eq_true_eq, decide_eq_true_eq]
      constructor
      · exact fun h => ⟨content, rfl, h⟩
      · rintro ⟨other, heq, h⟩
        cases heq
        exact h
  | directory entries =>
      refine ⟨nofun, ?_⟩
      rintro ⟨content, heq, _⟩
      cases heq
  | link =>
      refine ⟨nofun, ?_⟩
      rintro ⟨content, heq, _⟩
      cases heq

theorem verifyPlanned_cons_iff {hash : List UInt8 → Text} {package : Directory} {file : FileEntry}
    {rest : List FileEntry} {seen' : List Text} :
    verifyPlanned hash package seen (file :: rest) = .ok seen' ↔
      Planned hash package file ∧ pathKey file.path ∉ seen ∧
        verifyPlanned hash package (pathKey file.path :: seen) rest = .ok seen' := by
  conv_lhs => unfold verifyPlanned
  constructor
  · intro h
    cases hvalid : validateRelative file.path with
    | error e =>
        rw [hvalid] at h
        cases h
    | ok valid =>
        rw [hvalid] at h
        dsimp only at h
        split at h
        · cases h
        rename_i hnew
        cases hfind : find package (file.path.components.map Component.text) with
        | error e =>
            rw [hfind] at h
            cases h
        | ok entry =>
            rw [hfind] at h
            dsimp only at h
            split at h
            · rename_i hmatches
              obtain ⟨content, rfl, hsame⟩ := matchesPlan_iff.1 hmatches
              exact ⟨⟨hvalid, content, hfind, hsame⟩, hnew, h⟩
            · cases h
  · rintro ⟨⟨hvalid, content, hfind, hsame⟩, hnew, h⟩
    rw [hvalid]
    dsimp only
    rw [if_neg hnew, hfind]
    dsimp only
    rwa [if_pos (matchesPlan_iff.2 ⟨content, rfl, hsame⟩)]

/-- The loop over the planned files finds each of them, and no key twice. -/
theorem verifyPlanned_iff {hash : List UInt8 → Text} {package : Directory} {files : List FileEntry}
    {seen' : List Text} :
    verifyPlanned hash package seen files = .ok seen' ↔
      (∀ file ∈ files, Planned hash package file) ∧
        (files.map fun file => pathKey file.path).Nodup ∧
        (∀ file ∈ files, pathKey file.path ∉ seen) ∧
        seen' = (files.map fun file => pathKey file.path).reverse ++ seen := by
  induction files generalizing seen with
  | nil =>
      unfold verifyPlanned
      constructor
      · intro h
        cases h
        exact ⟨nofun, List.nodup_nil, nofun, rfl⟩
      · rintro ⟨_, _, _, rfl⟩
        rfl
  | cons file rest ih =>
      rw [verifyPlanned_cons_iff, ih, List.forall_mem_cons, List.forall_mem_cons, List.map_cons,
        List.nodup_cons, List.mem_map]
      constructor
      · rintro ⟨hfile, hnew, hplanned, hnodup, hfresh, rfl⟩
        refine ⟨⟨hfile, hplanned⟩, ⟨?_, hnodup⟩, ⟨hnew, ?_⟩, by simp⟩
        · rintro ⟨other, hother, hkey⟩
          exact hfresh other hother (hkey ▸ List.mem_cons_self)
        · exact fun other hother hmem => hfresh other hother (List.mem_cons_of_mem _ hmem)
      · rintro ⟨⟨hfile, hplanned⟩, ⟨honce, hnodup⟩, ⟨hnew, hfresh⟩, rfl⟩
        refine ⟨hfile, hnew, hplanned, hnodup, ?_, by simp⟩
        intro other hother hmem
        rcases List.mem_cons.1 hmem with hkey | hold
        · exact honce ⟨other, hother, hkey⟩
        · exact hfresh other hother hold

theorem plain_ok_iff {found : Option Entry} {entry : Entry} :
    plain found = .ok entry ↔ found = some entry ∧ entry ≠ .link := by
  cases found with
  | none => exact ⟨nofun, nofun⟩
  | some other =>
      cases other with
      | link =>
          refine ⟨nofun, ?_⟩
          rintro ⟨heq, hplain⟩
          cases heq
          exact absurd rfl hplain
      | file content =>
          constructor
          · intro h
            cases h
            exact ⟨rfl, nofun⟩
          · rintro ⟨heq, _⟩
            cases heq
            rfl
      | directory entries =>
          constructor
          · intro h
            cases h
            exact ⟨rfl, nofun⟩
          · rintro ⟨heq, _⟩
            cases heq
            rfl

theorem plain_then_iff {found : Option Entry} (next : Entry → Except InstallError Entry)
    {target : Entry} :
    (match plain found with
      | .error e => Except.error e
      | .ok child => next child) = .ok target ↔
      ∃ child, found = some child ∧ child ≠ .link ∧ next child = .ok target := by
  cases hplain : plain found with
  | error e =>
      refine ⟨nofun, ?_⟩
      rintro ⟨child, hfound, hlink, _⟩
      rw [plain_ok_iff.2 ⟨hfound, hlink⟩] at hplain
      cases hplain
  | ok child =>
      obtain ⟨hfound, hlink⟩ := plain_ok_iff.1 hplain
      constructor
      · exact fun h => ⟨child, hfound, hlink, h⟩
      · rintro ⟨other, hother, _, h⟩
        rw [hfound] at hother
        cases hother
        exact h

theorem descend_cons_iff {entries : Entries} {target : Entry} {rest : List Text} :
    descend (.directory entries) (name :: rest) = .ok target ↔
      ∃ child, entries.lookup name = some child ∧ child ≠ .link ∧ descend child rest = .ok target :=
  plain_then_iff fun child => descend child rest

theorem find_cons_iff {package : Directory} {target : Entry} {rest : List Text} :
    find package (name :: rest) = .ok target ↔
      ∃ child, package.lookup name = some child ∧ child ≠ .link ∧ descend child rest = .ok target :=
  plain_then_iff fun child => descend child rest

theorem mem_listing_of_lookup {entries : Entries} {child : Entry}
    (h : entries.lookup name = some child) {e : List Text × Kind} (he : e ∈ Entry.listing child) :
    below name e ∈ Entries.listing entries := by
  match entries with
  | .nil => cases h
  | .cons other first rest =>
      unfold Install.Entries.lookup at h
      unfold Entries.listing
      split at h
      · rename_i hname
        cases h
        rw [hname]
        exact List.mem_append_left _ (List.mem_map_of_mem he)
      · exact List.mem_append_right _ (mem_listing_of_lookup h he)

theorem mem_listing_of_descend {entry target : Entry} {names : List Text}
    (h : descend entry names = .ok target) : (names, kind target) ∈ Entry.listing entry := by
  induction names generalizing entry with
  | nil =>
      cases h
      exact self_mem_listing target
  | cons name rest ih =>
      cases entry with
      | file content => cases h
      | link => cases h
      | directory entries =>
          obtain ⟨child, hlookup, _, hrest⟩ := descend_cons_iff.1 h
          exact List.mem_cons_of_mem _ (mem_listing_of_lookup hlookup (ih hrest))

theorem mem_listing_of_find {package : Directory} {target : Entry} {names : List Text}
    (h : find package names = .ok target) : (names, kind target) ∈ listing package := by
  cases names with
  | nil => cases h
  | cons name rest =>
      obtain ⟨child, hlookup, _, hrest⟩ := find_cons_iff.1 h
      refine List.mem_flatMap.2 ⟨⟨name, child⟩, AList.mem_lookup_iff.1 hlookup, ?_⟩
      exact List.mem_map.2 ⟨_, mem_listing_of_descend hrest, rfl⟩

/-! ## Exactness -/

theorem relativePath_of_valid {path : RelativePath} (h : validateRelative path = .ok ()) :
    path = relativePath (path.components.map Component.text) := by
  obtain ⟨_, _, _, _, _, hsafe⟩ := validateRelative_ok h
  have habsolute : path.absolute = false := by
    unfold validateRelative at h
    by_contra htrue
    rw [if_pos (.inr (Bool.not_eq_false _ ▸ htrue))] at h
    cases h
  have hnormal : (path.components.map Component.text).map Component.normal = path.components := by
    rw [List.map_map]
    refine (List.map_congr_left fun c hc => ?_).trans (List.map_id _)
    have hc := List.all_eq_true.1 hsafe c hc
    cases c with
    | normal name => rfl
    | other raw => cases hc
  unfold relativePath
  rw [hnormal, ← habsolute]

/-- An entry of a package: it is in the source directory, or an entry at the top that an
update manages, and Windows takes each component as it is. -/
def Managed (names : List Text) : Prop :=
  ∃ first rest, names = first :: rest ∧ managedEntry first = true ∧
    (rest = [] ∨ first = sourceDirectory) ∧ ∀ name ∈ names, safeComponent name = true

theorem valid_iff {names : List Text} :
    validateRelative (relativePath names) = .ok () ↔ names.length ≤ 32 ∧ Managed names := by
  constructor
  · intro h
    obtain ⟨first, rest, hcomponents, hmanaged, hrest, hsafe⟩ := validateRelative_ok h
    have hshort : names.length ≤ 32 := by
      unfold validateRelative at h
      by_contra hlong
      have hdeep : 32 < (relativePath names).components.length := by
        rw [relativePath, List.length_map]
        omega
      rw [if_pos hdeep] at h
      split at h <;> cases h
    refine ⟨hshort, ?_⟩
    cases names with
    | nil => cases hcomponents
    | cons name names =>
        obtain ⟨hname, hnames⟩ := List.cons.inj hcomponents
        cases hname
        subst hnames
        refine ⟨first, names, rfl, hmanaged, hrest.imp_left List.map_eq_nil_iff.1, ?_⟩
        intro other hother
        exact List.all_eq_true.1 hsafe _ (List.mem_map_of_mem hother)
  · rintro ⟨hshort, first, rest, rfl, hmanaged, hrest, hsafe⟩
    have hall : (relativePath (first :: rest)).components.all Component.safe = true := by
      apply List.all_eq_true.2
      intro c hc
      obtain ⟨name, hname, rfl⟩ := List.mem_map.1 hc
      exact hsafe name hname
    have hlength : (relativePath (first :: rest)).components.length ≤ 32 := by
      rwa [relativePath, List.length_map]
    unfold validateRelative
    rw [if_neg (by simp [relativePath]), if_neg (Nat.not_lt.2 hlength), if_neg (by simp [hall])]
    exact if_pos ⟨hmanaged, hrest.imp_left fun hnil => List.map_eq_nil_iff.2 hnil⟩

/-- The staged package is exactly what was planned. -/
structure Exact (hash : List UInt8 → Text) (package : Directory) (files : List FileEntry) :
    Prop where
  paths : (files.map FileEntry.path).Perm ((storedPaths (listing package)).map relativePath)
  distinct : (files.map fun file => pathKey file.path).Nodup
  contents : ∀ file ∈ files, ∃ names content, file.path = relativePath names ∧
    (names, .file content) ∈ listing package ∧ content.length = file.size ∧
      hash content = file.sha256
  plain : ∀ e ∈ listing package, e.2 ≠ .link
  managed : ∀ e ∈ listing package, Managed e.1

theorem verifyFiles_iff {hash : List UInt8 → Text} {d : Disk} {plan : Plan} :
    verifyFiles hash d plan = .ok () ↔
      d.packagePlain = true ∧ ∃ seen, verifyPlanned hash d.package [] plan.files = .ok seen ∧
        walkPackage seen d.package.entries = .ok plan.files.length := by
  unfold verifyFiles
  cases d.packagePlain with
  | false => exact ⟨nofun, nofun⟩
  | true =>
      rw [if_neg nofun]
      cases hplanned : verifyPlanned hash d.package [] plan.files with
      | error e => exact ⟨nofun, nofun⟩
      | ok seen =>
          dsimp only
          cases hwalk : walkPackage seen d.package.entries with
          | error e =>
              refine ⟨nofun, ?_⟩
              rintro ⟨_, _, ⟨⟩, hcount⟩
              rw [hwalk] at hcount
              cases hcount
          | ok count =>
              dsimp only
              constructor
              · intro h
                split at h
                · rename_i hcount
                  exact ⟨rfl, seen, rfl, hcount ▸ hwalk⟩
                · cases h
              · rintro ⟨_, _, ⟨⟩, hcount⟩
                rw [hwalk] at hcount
                cases hcount
                rw [if_pos rfl]

theorem exact_of_verified {hash : List UInt8 → Text} {d : Disk} {plan : Plan}
    (h : verifyFiles hash d plan = .ok ()) : Exact hash d.package plan.files := by
  obtain ⟨_, seen, hplanned, hwalk⟩ := verifyFiles_iff.1 h
  obtain ⟨hplanned, hkeys, _, _⟩ := verifyPlanned_iff.1 hplanned
  have hwalked : Walked seen [] (listing d.package) plan.files.length :=
    (walkPackage_iff d.package.entries _).1 hwalk
  have hpath : ∀ file ∈ plan.files,
      file.path = relativePath (file.path.components.map Component.text) :=
    fun file hfile => relativePath_of_valid (hplanned file hfile).valid
  have hlisted : ∀ file ∈ plan.files, ∃ content,
      (file.path.components.map Component.text, Kind.file content) ∈ listing d.package ∧
        content.length = file.size ∧ hash content = file.sha256 := by
    intro file hfile
    obtain ⟨content, hfind, hsame⟩ := (hplanned file hfile).found
    exact ⟨content, mem_listing_of_find hfind, hsame⟩
  -- As many paths as the walk has counted, all of them walked, and none twice: these are all.
  have hpaths : (plan.files.map FileEntry.path).Perm
      ((storedPaths (listing d.package)).map relativePath) := by
    apply (List.subperm_of_subset _ _).perm_of_length_le
    · rw [List.length_map, List.length_map, hwalked.count]
    · have hmapped : ((plan.files.map FileEntry.path).map pathKey).Nodup := by
        rw [List.map_map]
        exact hkeys
      exact hmapped.of_map pathKey
    · intro path hmem
      obtain ⟨file, hfile, rfl⟩ := List.mem_map.1 hmem
      obtain ⟨content, hmem, _⟩ := hlisted file hfile
      rw [hpath file hfile]
      apply List.mem_map_of_mem
      exact List.mem_map.2 ⟨_, List.mem_filter.2 ⟨hmem, rfl⟩, rfl⟩
  refine ⟨hpaths, hkeys, ?_, fun e he => (hwalked.valid e he).1, ?_⟩
  · intro file hfile
    obtain ⟨content, hmem, hsame⟩ := hlisted file hfile
    exact ⟨_, content, hpath file hfile, hmem, hsame⟩
  · intro e he
    exact (valid_iff.1 (hwalked.valid e he).2).2

end MacVnc.Updater.Verification

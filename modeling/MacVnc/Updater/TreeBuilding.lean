import MacVnc.Lib.WeightedMap
import MacVnc.Updater.Extract
import MacVnc.Updater.Verification
/-!
# Building the staged tree

What creating directories and files adds to the list of a tree's entries, and that
the files which are there stay as they are.
-/

namespace MacVnc.Updater.TreeBuilding

open MacVnc.Lib (Text)
open MacVnc.Lib.Text
open MacVnc.Lib.WeightedMap (perm_erase)
open MacVnc.Updater.Install
open MacVnc.Updater.Extract
open MacVnc.Updater.Verification (Kind kind below listing)

variable {entries : Entries} {package : Directory} {entry new : Entry} {name : Text}
  {names : List Text}

/-! ## One name -/

theorem lookup_set_self (name : Text) (new : Entry) (entries : Entries) :
    (Entries.set name new entries).lookup name = some new := by
  match entries with
  | .nil => exact if_pos rfl
  | .cons other old rest =>
      unfold Entries.set
      split
      · rename_i hsame
        exact if_pos hsame
      · rename_i hother
        exact (if_neg hother).trans (lookup_set_self name new rest)

theorem lookup_set_ne {other : Text} (h : other ≠ name) (new : Entry) (entries : Entries) :
    (Entries.set name new entries).lookup other = entries.lookup other := by
  match entries with
  | .nil => exact if_neg (Ne.symm h)
  | .cons first old rest =>
      unfold Entries.set
      split
      · rename_i hsame
        have hfirst : first ≠ other := fun heq => h (heq ▸ hsame)
        exact (if_neg hfirst).trans (if_neg hfirst).symm
      · unfold Install.Entries.lookup
        rw [lookup_set_ne h new rest]

/-- What an entry contributes to the list of its directory. -/
def branch (name : Text) : Option Entry → List (List Text × Kind)
  | none => []
  | some entry => (Verification.Entry.listing entry).map (below name)

theorem listing_set (name : Text) (new : Entry) (entries : Entries) :
    ∃ rest,
      (Verification.Entries.listing entries).Perm (branch name (entries.lookup name) ++ rest) ∧
      (Verification.Entries.listing (Entries.set name new entries)).Perm
        (branch name (some new) ++ rest) := by
  match entries with
  | .nil => exact ⟨[], .refl _, .refl _⟩
  | .cons other old rest =>
      unfold Entries.set Install.Entries.lookup Verification.Entries.listing
      split
      · rename_i hsame
        subst hsame
        exact ⟨_, .refl _, .refl _⟩
      · obtain ⟨others, hbefore, hafter⟩ := listing_set name new rest
        refine ⟨(Verification.Entry.listing old).map (below other) ++ others, ?_, ?_⟩
        · exact (hbefore.append_left _).trans (List.perm_append_comm_assoc _ _ _)
        · exact (hafter.append_left _).trans (List.perm_append_comm_assoc _ _ _)

theorem listing_insert (name : Text) (new : Entry) (package : Directory) :
    ∃ rest, (listing package).Perm (branch name (package.lookup name) ++ rest) ∧
      (listing (package.insert name new)).Perm (branch name (some new) ++ rest) := by
  have hinsert : listing (package.insert name new) =
      branch name (some new) ++ listing (package.erase name) := rfl
  refine ⟨listing (package.erase name), ?_, hinsert ▸ .refl _⟩
  cases hlookup : package.lookup name with
  | none =>
      have herase : package.erase name = package := by
        apply AList.ext
        exact List.kerase_of_notMem_keys (AList.lookup_eq_none.1 hlookup)
      rw [herase]
      exact .refl _
  | some old => exact (perm_erase hlookup).flatMap_right _

/-- Setting a name adds to the list what the entry adds to the branch of the name. -/
theorem listing_set_of_branch (entries : Entries) (added : List (List Text × Kind))
    (h : (branch name (some new)).Perm (added ++ branch name (entries.lookup name))) :
    (Verification.Entry.listing (.directory (Entries.set name new entries))).Perm
      (added ++ Verification.Entry.listing (.directory entries)) := by
  obtain ⟨rest, hbefore, hafter⟩ := listing_set name new entries
  unfold Verification.Entry.listing
  refine List.Perm.trans (List.Perm.cons _ ?_) List.perm_middle.symm
  refine hafter.trans ((h.append_right rest).trans ?_)
  rw [List.append_assoc]
  exact hbefore.symm.append_left added

theorem listing_insert_of_branch (added : List (List Text × Kind))
    (h : (branch name (some new)).Perm (added ++ branch name (package.lookup name))) :
    (listing (package.insert name new)).Perm (added ++ listing package) := by
  obtain ⟨rest, hbefore, hafter⟩ := listing_insert name new package
  refine hafter.trans ((h.append_right rest).trans ?_)
  rw [List.append_assoc]
  exact hbefore.symm.append_left added

/-! ## Creating directories -/

/-- Directories on the way that a path goes. -/
def OnTheWay (dirs : List (List Text)) (names : List Text) : Prop :=
  ∀ dir ∈ dirs, dir ≠ [] ∧ dir <+: names

def asDirectories (dirs : List (List Text)) : List (List Text × Kind) :=
  dirs.map fun dir => (dir, .directory)

theorem onTheWay_below {dirs : List (List Text)} (h : OnTheWay dirs names) (name : Text) :
    OnTheWay (dirs.map fun dir => name :: dir) (name :: names) := by
  intro dir hdir
  obtain ⟨inner, hinner, rfl⟩ := List.mem_map.1 hdir
  exact ⟨List.cons_ne_nil _ _, (List.prefix_cons_inj name).2 (h inner hinner).2⟩

theorem onTheWay_cons {dirs : List (List Text)} (h : OnTheWay dirs names) (name : Text) :
    OnTheWay ([name] :: dirs.map fun dir => name :: dir) (name :: names) :=
  List.forall_mem_cons.2 ⟨⟨List.cons_ne_nil _ _, ⟨names, rfl⟩⟩, onTheWay_below h name⟩

theorem asDirectories_below (dirs : List (List Text)) (name : Text) :
    (asDirectories dirs).map (below name) = asDirectories (dirs.map fun dir => name :: dir) := by
  rw [asDirectories, asDirectories, List.map_map, List.map_map]
  rfl

theorem createDirsBelow_branch {old : Option Entry} (h : createDirsBelow names old = some new)
    (name : Text) :
    ∃ dirs, OnTheWay dirs (name :: names) ∧
      (branch name (some new)).Perm (asDirectories dirs ++ branch name old) := by
  induction names generalizing old new name with
  | nil =>
      match old with
      | none =>
          cases h
          have hnone : OnTheWay [] [] := nofun
          exact ⟨[[name]], onTheWay_cons hnone name, .refl _⟩
      | some (.directory entries) =>
          cases h
          exact ⟨[], nofun, .refl _⟩
  | cons next rest ih =>
      match old with
      | none =>
          obtain ⟨child, hchild, rfl⟩ := Option.map_eq_some_iff.1 h
          obtain ⟨dirs, hway, hbranch⟩ := ih hchild next
          refine ⟨_, onTheWay_cons hway name, ?_⟩
          have hlisting : (Verification.Entry.listing (.directory (.cons next child .nil))).Perm
              (asDirectories dirs ++ Verification.Entry.listing (.directory .nil)) :=
            listing_set_of_branch .nil _ hbranch
          have hmapped := hlisting.map (below name)
          rw [List.map_append, asDirectories_below] at hmapped
          refine hmapped.trans ?_
          rw [branch, List.append_nil]
          exact List.perm_append_comm
      | some (.directory entries) =>
          obtain ⟨child, hchild, rfl⟩ := Option.map_eq_some_iff.1 h
          obtain ⟨dirs, hway, hbranch⟩ := ih hchild next
          refine ⟨_, onTheWay_below hway name, ?_⟩
          have hlisting := (listing_set_of_branch entries _ hbranch).map (below name)
          rwa [List.map_append, asDirectories_below] at hlisting

theorem createDirs_listing {package' : Directory} (h : createDirs package names = some package') :
    ∃ dirs, OnTheWay dirs names ∧
      (listing package').Perm (asDirectories dirs ++ listing package) := by
  cases names with
  | nil =>
      cases h
      exact ⟨[], nofun, .refl _⟩
  | cons name rest =>
      obtain ⟨child, hchild, rfl⟩ := Option.map_eq_some_iff.1 h
      obtain ⟨dirs, hway, hbranch⟩ := createDirsBelow_branch hchild name
      exact ⟨dirs, hway, listing_insert_of_branch _ hbranch⟩

/-! ## Creating files -/

theorem createNewBelow_branch {old : Option Entry} {write : List UInt8 → Entry}
    (h : createNewBelow names old = some write) (name : Text) (content : List UInt8) :
    (branch name (some (write content))).Perm
      ([(name :: names, .file content)] ++ branch name old) := by
  induction names generalizing old write name with
  | nil =>
      match old with
      | none =>
          cases h
          exact .refl _
  | cons next rest ih =>
      match old with
      | some (.directory entries) =>
          obtain ⟨child, hchild, rfl⟩ := Option.map_eq_some_iff.1 h
          exact (listing_set_of_branch entries _ (ih hchild next)).map (below name)

theorem createNew_listing {write : List UInt8 → Directory}
    (h : createNew package names = some write) (content : List UInt8) :
    (listing (write content)).Perm ((names, .file content) :: listing package) := by
  cases names with
  | nil => cases h
  | cons name rest =>
      obtain ⟨child, hchild, rfl⟩ := Option.map_eq_some_iff.1 h
      exact listing_insert_of_branch _ (createNewBelow_branch hchild name content)

/-! ## What stays -/

/-- Files that are found from one entry on are found from the other. -/
def Keeps (old : Option Entry) (new : Entry) : Prop :=
  ∀ entry, old = some entry → ∀ names content, descend entry names = .ok (.file content) →
    descend new names = .ok (.file content)

/-- No file is found from a link on. -/
theorem ne_link_of_descend {content : List UInt8} (h : descend entry names = .ok (.file content)) :
    entry ≠ .link := by
  rintro rfl
  cases names with
  | nil => cases h
  | cons name rest => cases h

theorem Keeps.set (h : Keeps (entries.lookup name) new) :
    Keeps (some (.directory entries)) (.directory (Entries.set name new entries)) := by
  intro entry hentry names content hfound
  cases hentry
  cases names with
  | nil => cases hfound
  | cons next rest =>
      obtain ⟨child, hlookup, hlink, hchild⟩ := Verification.descend_cons_iff.1 hfound
      apply Verification.descend_cons_iff.2
      by_cases hsame : next = name
      · subst hsame
        have hnew := h child hlookup rest content hchild
        exact ⟨new, lookup_set_self next new entries, ne_link_of_descend hnew, hnew⟩
      · exact ⟨child, (lookup_set_ne hsame new entries).trans hlookup, hlink, hchild⟩

theorem createDirsBelow_keeps {old : Option Entry} (h : createDirsBelow names old = some new) :
    Keeps old new := by
  induction names generalizing old new with
  | nil =>
      match old with
      | none => exact nofun
      | some (.directory entries) =>
          cases h
          intro entry hentry names content hfound
          cases hentry
          exact hfound
  | cons next rest ih =>
      match old with
      | none => exact nofun
      | some (.directory entries) =>
          obtain ⟨child, hchild, rfl⟩ := Option.map_eq_some_iff.1 h
          exact (ih hchild).set

theorem createNewBelow_keeps {old : Option Entry} {write : List UInt8 → Entry}
    (h : createNewBelow names old = some write) (content : List UInt8) :
    Keeps old (write content) := by
  induction names generalizing old write with
  | nil =>
      match old with
      | none => exact nofun
  | cons next rest ih =>
      match old with
      | some (.directory entries) =>
          obtain ⟨child, hchild, rfl⟩ := Option.map_eq_some_iff.1 h
          exact (ih hchild).set

/-- Files of the package that are found stay. -/
def Stays (package package' : Directory) : Prop :=
  ∀ names content, find package names = .ok (.file content) →
    find package' names = .ok (.file content)

theorem Keeps.insert (h : Keeps (package.lookup name) new) :
    Stays package (package.insert name new) := by
  intro names content hfound
  cases names with
  | nil => cases hfound
  | cons next rest =>
      obtain ⟨child, hlookup, hlink, hchild⟩ := Verification.find_cons_iff.1 hfound
      apply Verification.find_cons_iff.2
      by_cases hsame : next = name
      · subst hsame
        have hnew := h child hlookup rest content hchild
        exact ⟨new, AList.lookup_insert package, ne_link_of_descend hnew, hnew⟩
      · exact ⟨child, (AList.lookup_insert_ne hsame).trans hlookup, hlink, hchild⟩

theorem createDirs_stays {package' : Directory} (h : createDirs package names = some package') :
    Stays package package' := by
  cases names with
  | nil =>
      cases h
      exact fun _ _ hfound => hfound
  | cons name rest =>
      obtain ⟨child, hchild, rfl⟩ := Option.map_eq_some_iff.1 h
      exact (createDirsBelow_keeps hchild).insert

theorem createNew_stays {write : List UInt8 → Directory} (h : createNew package names = some write)
    (content : List UInt8) : Stays package (write content) := by
  cases names with
  | nil => cases h
  | cons name rest =>
      obtain ⟨child, hchild, rfl⟩ := Option.map_eq_some_iff.1 h
      exact (createNewBelow_keeps hchild content).insert

theorem createNewBelow_descend {old : Option Entry} {write : List UInt8 → Entry}
    (h : createNewBelow names old = some write) (content : List UInt8) :
    descend (write content) names = .ok (.file content) := by
  induction names generalizing old write with
  | nil =>
      match old with
      | none =>
          cases h
          rfl
  | cons next rest ih =>
      match old with
      | some (.directory entries) =>
          obtain ⟨child, hchild, rfl⟩ := Option.map_eq_some_iff.1 h
          have hnew := ih hchild
          apply Verification.descend_cons_iff.2
          exact ⟨child content, lookup_set_self next _ entries, ne_link_of_descend hnew, hnew⟩

theorem createNew_find {write : List UInt8 → Directory} (h : createNew package names = some write)
    (content : List UInt8) : find (write content) names = .ok (.file content) := by
  cases names with
  | nil => cases h
  | cons name rest =>
      obtain ⟨child, hchild, rfl⟩ := Option.map_eq_some_iff.1 h
      have hnew := createNewBelow_descend hchild content
      apply Verification.find_cons_iff.2
      exact ⟨child content, AList.lookup_insert package, ne_link_of_descend hnew, hnew⟩

end MacVnc.Updater.TreeBuilding

import MacVnc.Lib.Replacement
import MacVnc.Updater.Verification
import Mathlib.Data.List.Dedup
/-!
# An update is all or nothing

A transaction moves the entries of each planned name through the phases of a
replacement and touches no other name.  The rollback undoes each of them.
-/

namespace MacVnc.Updater.Rollback

open MacVnc.Lib (Text)
open MacVnc.Lib.Text
open MacVnc.Lib.Replacement
open MacVnc.Updater.Package
open MacVnc.Updater.Install

/-- The entries of one name in the installation, the package and the backup. -/
def slot (d : Disk) (name : Text) : Slot Entry :=
  { live := d.install.lookup name
    staged := d.package.lookup name
    saved := d.backup.bind fun backup => backup.lookup name }

/-! ## One operation on one name -/

theorem rename_some {name : Text} {source target source' target' : Directory}
    (h : rename name source target = some (source', target')) :
    ∃ entry, source.lookup name = some entry ∧ source' = source.erase name ∧
      target' = target.insert name entry := by
  unfold rename at h
  cases hentry : source.lookup name with
  | none =>
      rw [hentry] at h
      cases h
  | some entry =>
      rw [hentry] at h
      cases h
      exact ⟨entry, rfl, rfl, rfl⟩

theorem rename_isSome {name : Text} {source target : Directory} {entry : Entry}
    (h : source.lookup name = some entry) :
    rename name source target = some (source.erase name, target.insert name entry) := by
  unfold rename
  rw [h]
  rfl

/-- The operation changes only the entries of `name`. -/
def Local (d d' : Disk) (name : Text) : Prop :=
  ∀ other, other ≠ name → slot d' other = slot d other

theorem Local.refl (d : Disk) (name : Text) : Local d d name := fun _ _ => rfl

theorem Local.trans {d d' d'' : Disk} {name : Text} (h : Local d d' name)
    (h' : Local d' d'' name) : Local d d'' name := by
  intro other hne
  rw [h' other hne, h other hne]

theorem backUp_ok {d d' : Disk} {fault : Option Fault} {name : Text}
    (h : d.backUp fault name = .ok d') :
    slot d' name = (slot d name).save ∧ Local d d' name := by
  unfold Disk.backUp at h
  cases hlive : d.install.lookup name with
  | none =>
      rw [hlive] at h
      cases h
      refine ⟨?_, Local.refl d name⟩
      unfold Slot.save slot
      rw [hlive]
  | some entry =>
      rw [hlive] at h
      dsimp only at h
      split at h
      · cases h
      cases hbackup : d.backup with
      | none =>
          rw [hbackup] at h
          cases h
      | some backup =>
          rw [hbackup] at h
          dsimp only at h
          rw [rename_isSome hlive] at h
          cases h
          have hsave : (slot d name).save =
              ⟨none, d.package.lookup name, some entry⟩ := by
            unfold Slot.save slot
            rw [hlive]
          refine ⟨?_, ?_⟩
          · rw [hsave]
            ext1
            · exact AList.lookup_erase name d.install
            · rfl
            · exact AList.lookup_insert backup
          · intro other hne
            ext1
            · exact AList.lookup_erase_ne hne
            · rfl
            · unfold slot
              rw [hbackup]
              exact AList.lookup_insert_ne hne

theorem replace_ok {d d' : Disk} {fault : Option Fault} {name : Text}
    (h : d.replace fault name = .ok d') :
    slot d' name = (slot d name).install ∧ Local d d' name := by
  unfold Disk.replace at h
  split at h
  · cases h
  split at h
  · cases h
  cases hrename : rename name d.package d.install with
  | none =>
      rw [hrename] at h
      cases h
  | some moved =>
      obtain ⟨package, install⟩ := moved
      rw [hrename] at h
      cases h
      obtain ⟨entry, hstaged, rfl, rfl⟩ := rename_some hrename
      refine ⟨?_, ?_⟩
      · ext1
        · exact (AList.lookup_insert d.install).trans hstaged.symm
        · exact AList.lookup_erase name d.package
        · rfl
      · intro other hne
        ext1
        · exact AList.lookup_insert_ne hne
        · exact AList.lookup_erase_ne hne
        · rfl

theorem removeEntry_ok {d d' : Disk} {fault : Disk.UndoFault} {name : Text}
    (h : d.removeEntry fault name = .ok d') :
    slot d' name = { slot d name with live := none } ∧ d'.backup = d.backup ∧
      Local d d' name := by
  unfold Disk.removeEntry at h
  cases hlive : d.install.lookup name with
  | none =>
      rw [hlive] at h
      cases h
      refine ⟨?_, rfl, Local.refl d name⟩
      ext1
      · exact hlive
      · rfl
      · rfl
  | some entry =>
      rw [hlive] at h
      have hd : d' = { d with install := d.install.erase name } := by
        cases entry with
        | link => cases h
        | file content | directory entries =>
            dsimp only at h
            split at h
            · cases h
            · exact (Except.ok.inj h).symm
      subst hd
      refine ⟨?_, rfl, ?_⟩
      · ext1
        · exact AList.lookup_erase name d.install
        · rfl
        · rfl
      · intro other hne
        ext1
        · exact AList.lookup_erase_ne hne
        · rfl
        · rfl

/-- A failed undo may have removed the installed entry, and changes no other name. -/
theorem undo_local (d : Disk) (fault : Disk.UndoFault) (name : Text) :
    Local d (d.undo fault name).2 name := by
  unfold Disk.undo
  cases hsaved : d.backup.bind fun backup => backup.lookup name with
  | none =>
      dsimp only
      split
      · exact Local.refl d name
      cases hremove : d.removeEntry fault name with
      | error e => exact Local.refl d name
      | ok removed => exact (removeEntry_ok hremove).2.2
  | some entry =>
      dsimp only
      cases hremove : d.removeEntry fault name with
      | error e => exact Local.refl d name
      | ok removed =>
          obtain ⟨_, hbackup, hlocal⟩ := removeEntry_ok hremove
          dsimp only
          split
          · exact hlocal
          obtain ⟨backup, hbackupd, hlookup⟩ := Option.bind_eq_some_iff.mp hsaved
          rw [hbackup, hbackupd, Option.bind_some, rename_isSome hlookup]
          apply hlocal.trans
          intro other hne
          ext1
          · exact AList.lookup_insert_ne hne
          · rfl
          · unfold slot
            rw [hbackup, hbackupd]
            exact AList.lookup_erase_ne hne

theorem undo_slot {d : Disk} {fault : Disk.UndoFault} {name : Text}
    (h : (d.undo fault name).1 = .ok ()) :
    slot (d.undo fault name).2 name = (slot d name).undo := by
  unfold Disk.undo at h ⊢
  cases hsaved : d.backup.bind fun backup => backup.lookup name with
  | none =>
      rw [hsaved] at h
      dsimp only at h ⊢
      unfold Slot.undo slot
      rw [hsaved]
      dsimp only
      by_cases hstaged : (d.package.lookup name).isSome = true
      · rw [if_pos hstaged, if_pos hstaged]
        ext1
        · rfl
        · rfl
        · exact hsaved
      · rw [if_neg hstaged] at h ⊢
        rw [if_neg hstaged]
        cases hremove : d.removeEntry fault name with
        | error e =>
            rw [hremove] at h
            cases h
        | ok removed =>
            have hslot := (removeEntry_ok hremove).1
            unfold slot at hslot
            rw [hsaved] at hslot
            exact hslot
  | some entry =>
      rw [hsaved] at h
      dsimp only at h ⊢
      unfold Slot.undo slot
      rw [hsaved]
      dsimp only
      cases hremove : d.removeEntry fault name with
      | error e =>
          rw [hremove] at h
          cases h
      | ok removed =>
          obtain ⟨hslot, hbackup, _⟩ := removeEntry_ok hremove
          have hstaged : removed.package.lookup name = d.package.lookup name :=
            congrArg Slot.staged hslot
          rw [hremove] at h
          dsimp only at h ⊢
          split at h
          · cases h
          rename_i hrename
          rw [if_neg hrename]
          obtain ⟨backup, hbackupd, hlookup⟩ := Option.bind_eq_some_iff.mp hsaved
          rw [hbackup, hbackupd, Option.bind_some, rename_isSome hlookup]
          ext1
          · exact AList.lookup_insert removed.install
          · exact hstaged
          · exact AList.lookup_erase name backup

/-- The undo of a name fails only on a fault or on an installed link. -/
theorem undo_ok {d : Disk} {fault : Disk.UndoFault} {name : Text} (hremove : fault.remove = false)
    (hrename : fault.rename = false) (hlink : (slot d name).live ≠ some .link) :
    (d.undo fault name).1 = .ok () := by
  have hremoved : ∃ removed, d.removeEntry fault name = .ok removed := by
    unfold Disk.removeEntry
    cases hlive : d.install.lookup name with
    | none => exact ⟨d, rfl⟩
    | some entry =>
        cases entry with
        | link => exact absurd hlive hlink
        | file content | directory entries =>
            dsimp only
            rw [hremove, if_neg Bool.false_ne_true]
            exact ⟨_, rfl⟩
  obtain ⟨removed, hremoved⟩ := hremoved
  unfold Disk.undo
  cases hsaved : d.backup.bind fun backup => backup.lookup name with
  | none =>
      dsimp only
      split
      · rfl
      · rw [hremoved]
  | some entry =>
      dsimp only
      obtain ⟨backup, hbackup, hlookup⟩ := Option.bind_eq_some_iff.mp hsaved
      rw [hremoved]
      dsimp only
      rw [hrename, if_neg Bool.false_ne_true, (removeEntry_ok hremoved).2.1, hbackup,
        Option.bind_some, rename_isSome hlookup]

/-! ## The run of a transaction -/

/-- What `apply` leaves behind, when the names went in untouched. -/
structure Applied (old : Text → Option Entry) (new : Text → Entry) (names : List Text)
    (d : Disk) (r : Except InstallError Unit × Disk) : Prop where
  phases : ∀ name ∈ names, Phase (old name) (new name) (slot r.2 name)
  frame : ∀ name, name ∉ names → slot r.2 name = slot d name
  complete : r.1 = .ok () → ∀ name ∈ names, slot r.2 name = ⟨some (new name), none, old name⟩

theorem Applied.stopped {old : Text → Option Entry} {new : Text → Entry} {name : Text}
    {rest : List Text} {d d' : Disk} (e : InstallError) (hnotMem : name ∉ rest)
    (huntouched : ∀ other ∈ rest, slot d other = ⟨old other, some (new other), none⟩)
    (hlocal : Local d d' name) (hphase : Phase (old name) (new name) (slot d' name)) :
    Applied old new (name :: rest) d (.error e, d') := by
  constructor
  · intro other hmem
    rcases List.mem_cons.mp hmem with rfl | hmem
    · exact hphase
    · show Phase _ _ (slot d' other)
      rw [hlocal other (fun heq => hnotMem (heq ▸ hmem)), huntouched other hmem]
      exact Phase.untouched
  · intro other hother
    exact hlocal other (fun heq => hother (heq ▸ List.mem_cons_self))
  · intro hok
    cases hok

theorem Applied.cons {old : Text → Option Entry} {new : Text → Entry} {name : Text}
    {rest : List Text} {d d' : Disk} {r : Except InstallError Unit × Disk}
    (h : Applied old new rest d' r) (hnotMem : name ∉ rest) (hlocal : Local d d' name)
    (hreplaced : slot d' name = ⟨some (new name), none, old name⟩) :
    Applied old new (name :: rest) d r := by
  have hdone : slot r.2 name = ⟨some (new name), none, old name⟩ :=
    (h.frame name hnotMem).trans hreplaced
  constructor
  · intro other hmem
    rcases List.mem_cons.mp hmem with rfl | hmem
    · rw [hdone]
      exact Phase.replaced
    · exact h.phases other hmem
  · intro other hother
    rw [List.mem_cons, not_or] at hother
    rw [h.frame other hother.2, hlocal other hother.1]
  · intro hok other hmem
    rcases List.mem_cons.mp hmem with rfl | hmem
    · exact hdone
    · exact h.complete hok other hmem

theorem applyFrom_applied {old : Text → Option Entry} {new : Text → Entry}
    (faults : Nat → Option Fault) {names : List Text} (index : Nat) (d : Disk)
    (hnodup : names.Nodup)
    (huntouched : ∀ name ∈ names, slot d name = ⟨old name, some (new name), none⟩) :
    Applied old new names d (d.applyFrom faults index names) := by
  induction names generalizing index d with
  | nil =>
      constructor
      · intro name hmem
        cases hmem
      · intro name _
        rfl
      · intro _ name hmem
        cases hmem
  | cons name rest ih =>
      obtain ⟨hnotMem, hrest⟩ := List.nodup_cons.mp hnodup
      have hname := huntouched name List.mem_cons_self
      have hothers : ∀ other ∈ rest, slot d other = ⟨old other, some (new other), none⟩ :=
        fun other hmem => huntouched other (List.mem_cons_of_mem name hmem)
      unfold Disk.applyFrom
      cases hbackUp : d.backUp (faults index) name with
      | error e =>
          apply Applied.stopped e hnotMem hothers (Local.refl d name)
          rw [hname]
          exact Phase.untouched
      | ok saved =>
          obtain ⟨hsaved, hlocal⟩ := backUp_ok hbackUp
          rw [hname, save_untouched] at hsaved
          dsimp only
          cases hreplace : saved.replace (faults index) name with
          | error e =>
              apply Applied.stopped e hnotMem hothers hlocal
              rw [hsaved]
              exact Phase.aside
          | ok replaced =>
              obtain ⟨hreplaced, hlocal'⟩ := replace_ok hreplace
              have hboth := hlocal.trans hlocal'
              rw [hsaved] at hreplaced
              apply Applied.cons _ hnotMem hboth hreplaced
              apply ih (index + 1) replaced hrest
              intro other hmem
              rw [hboth other (fun heq => hnotMem (heq ▸ hmem))]
              exact hothers other hmem

theorem undoAll_frame (faults : Text → Disk.UndoFault) (d : Disk) {names : List Text}
    {name : Text} (h : name ∉ names) : slot (d.undoAll faults names).2 name = slot d name := by
  induction names generalizing d with
  | nil => rfl
  | cons other rest ih =>
      rw [List.mem_cons, not_or] at h
      have hrest := ih (d.undo (faults other) other).2 h.2
      rw [undo_local d (faults other) other name h.1] at hrest
      unfold Disk.undoAll
      dsimp only
      split <;> exact hrest

/-- When no name is reported, each of them was undone. -/
theorem undoAll_slot {faults : Text → Disk.UndoFault} {d : Disk} {names : List Text}
    (hnodup : names.Nodup) (h : (d.undoAll faults names).1 = []) {name : Text}
    (hmem : name ∈ names) :
    slot (d.undoAll faults names).2 name = (slot d name).undo := by
  induction names generalizing d with
  | nil => cases hmem
  | cons other rest ih =>
      obtain ⟨hnotMem, hrest⟩ := List.nodup_cons.mp hnodup
      unfold Disk.undoAll at h ⊢
      dsimp only at h ⊢
      cases hresult : (d.undo (faults other) other).1 with
      | error e =>
          rw [hresult] at h
          cases h
      | ok result =>
          rw [hresult] at h
          dsimp only at h ⊢
          rcases List.mem_cons.mp hmem with rfl | hmem
          · rw [undoAll_frame faults _ hnotMem]
            exact undo_slot hresult
          · rw [ih hrest h hmem]
            rw [undo_local d (faults other) other name (fun heq => hnotMem (heq ▸ hmem))]

theorem undoAll_ok {faults : Text → Disk.UndoFault} {d : Disk} {names : List Text}
    (hnodup : names.Nodup)
    (hfaults : ∀ name, (faults name).remove = false ∧ (faults name).rename = false)
    (hlinks : ∀ name ∈ names, (slot d name).live ≠ some .link) :
    (d.undoAll faults names).1 = [] := by
  induction names generalizing d with
  | nil => rfl
  | cons name rest ih =>
      obtain ⟨hnotMem, hrest⟩ := List.nodup_cons.mp hnodup
      have hundo : (d.undo (faults name) name).1 = .ok () :=
        undo_ok (hfaults name).1 (hfaults name).2 (hlinks name List.mem_cons_self)
      unfold Disk.undoAll
      dsimp only
      rw [hundo]
      apply ih hrest
      intro other hmem
      rw [undo_local d (faults name) name other (fun heq => hnotMem (heq ▸ hmem))]
      exact hlinks other (List.mem_cons_of_mem name hmem)

/-! ## What an accepted plan provides -/

theorem verifyFiles_staged {hash : List UInt8 → Text} {d : Disk} {plan : Plan}
    (h : verifyFiles hash d plan = .ok ()) {file : FileEntry} (hmem : file ∈ plan.files) :
    ∃ top, d.package.lookup (topLevel file) = some top ∧ top ≠ .link := by
  obtain ⟨_, seen, hplanned, _⟩ := Verification.verifyFiles_iff.1 h
  obtain ⟨hvalid, content, hfind, _⟩ := (Verification.verifyPlanned_iff.1 hplanned).1 file hmem
  obtain ⟨first, rest, hcomponents, _⟩ := validateRelative_ok hvalid
  have htop : topLevel file = first := by
    unfold topLevel
    rw [hcomponents]
    rfl
  rw [hcomponents] at hfind
  obtain ⟨top, hlookup, hlink, _⟩ := Verification.find_cons_iff.1 hfind
  exact ⟨top, htop ▸ hlookup, hlink⟩

theorem plainTargets_ok {install : Directory} {names : List Text}
    (h : plainTargets install names = .ok ()) {name : Text} (hmem : name ∈ names) :
    install.lookup name ≠ some .link := by
  induction names with
  | nil => cases hmem
  | cons other rest ih =>
      unfold plainTargets at h
      split at h
      · cases h
      · rename_i hplain
        rcases List.mem_cons.mp hmem with rfl | hmem
        · exact fun hlink => hplain hlink
        · exact ih h hmem

theorem mem_plannedNames {plan : Plan} {name : Text} :
    name ∈ plannedNames plan ↔ ∃ file ∈ plan.files, topLevel file = name := by
  unfold plannedNames
  rw [List.mem_insertionSort, List.mem_insertionSort, List.mem_dedup, List.mem_map]

theorem nodup_plannedNames (plan : Plan) : (plannedNames plan).Nodup := by
  unfold plannedNames
  rw [(List.perm_insertionSort _ _).nodup_iff, (List.perm_insertionSort _ _).nodup_iff]
  exact List.nodup_dedup _

/-- An accepted transaction starts with every planned name staged and not yet saved. -/
structure Prepared (d d₀ : Disk) (plan : Plan) (t : Transaction) : Prop where
  names : t.names = plannedNames plan
  install : d₀.install = d.install
  package : d₀.package = d.package
  backup : d₀.backup = some ∅
  staged : ∀ name ∈ t.names, ∃ top, d.package.lookup name = some top ∧ top ≠ .link
  plain : ∀ name ∈ t.names, d.install.lookup name ≠ some .link

theorem new_prepared {hash : List UInt8 → Text} {d d₀ : Disk} {plan : Plan} {t : Transaction}
    (h : Transaction.new hash d plan = .ok (t, d₀)) : Prepared d d₀ plan t := by
  unfold Transaction.new at h
  cases hverify : verifyFiles hash d plan with
  | error e =>
      rw [hverify] at h
      cases h
  | ok verified =>
      rw [hverify] at h
      dsimp only at h
      cases hplain : plainTargets d.install (plannedNames plan) with
      | error e =>
          rw [hplain] at h
          cases h
      | ok targets =>
          rw [hplain] at h
          dsimp only at h
          split at h
          · cases h
          cases h
          refine ⟨rfl, rfl, rfl, rfl, ?_, fun name hmem => plainTargets_ok hplain hmem⟩
          intro name hmem
          obtain ⟨file, hfile, rfl⟩ := mem_plannedNames.mp hmem
          exact verifyFiles_staged hverify hfile

def stagedEntry (d : Disk) (name : Text) : Entry := (d.package.lookup name).getD .link

theorem Prepared.untouched {d d₀ : Disk} {plan : Plan} {t : Transaction}
    (h : Prepared d d₀ plan t) {name : Text} (hmem : name ∈ t.names) :
    slot d₀ name = ⟨d.install.lookup name, some (stagedEntry d name), none⟩ := by
  obtain ⟨top, hstaged, _⟩ := h.staged name hmem
  unfold slot stagedEntry
  rw [h.install, h.package, h.backup, hstaged]
  rfl

theorem Prepared.applied {d d₀ : Disk} {plan : Plan} {t : Transaction}
    (h : Prepared d d₀ plan t) (faults : Nat → Option Fault) :
    Applied d.install.lookup (stagedEntry d) t.names d₀ (t.apply faults d₀) := by
  apply applyFrom_applied faults 0 d₀
  · rw [h.names]
    exact nodup_plannedNames plan
  · intro name hmem
    exact h.untouched hmem

theorem rollback_fst {t : Transaction} {undoFaults : Text → Disk.UndoFault} {d : Disk} :
    (t.rollback undoFaults d).1 = .ok () ↔ (d.undoAll undoFaults t.names.reverse).1 = [] := by
  unfold Transaction.rollback
  dsimp only
  split
  · rename_i hempty
    exact ⟨fun _ => hempty, fun _ => rfl⟩
  · rename_i hnonempty
    exact ⟨fun h => (by cases h), fun h => absurd h hnonempty⟩

theorem Prepared.restored {d d₀ : Disk} {plan : Plan} {t : Transaction}
    (h : Prepared d d₀ plan t) {faults : Nat → Option Fault}
    {undoFaults : Text → Disk.UndoFault}
    (hok : (t.rollback undoFaults (t.apply faults d₀).2).1 = .ok ()) (name : Text) :
    (t.rollback undoFaults (t.apply faults d₀).2).2.install.lookup name =
      d.install.lookup name := by
  have happlied := h.applied faults
  have hnodup : t.names.reverse.Nodup := by
    rw [List.nodup_reverse, h.names]
    exact nodup_plannedNames plan
  show (slot ((t.apply faults d₀).2.undoAll undoFaults t.names.reverse).2 name).live = _
  by_cases hmem : name ∈ t.names
  · rw [undoAll_slot hnodup (rollback_fst.mp hok) (List.mem_reverse.mpr hmem)]
    exact (happlied.phases name hmem).undo_live
  · rw [undoAll_frame undoFaults _ (fun hmem' => hmem (List.mem_reverse.mp hmem')),
      happlied.frame name hmem]
    show d₀.install.lookup name = _
    rw [h.install]

/-- Neither the old nor the new entry of a planned name is a link, so the rollback can undo it. -/
theorem Prepared.rollback_ok {d d₀ : Disk} {plan : Plan} {t : Transaction}
    (h : Prepared d d₀ plan t) (faults : Nat → Option Fault)
    {undoFaults : Text → Disk.UndoFault}
    (hfaults : ∀ name, (undoFaults name).remove = false ∧ (undoFaults name).rename = false) :
    (t.rollback undoFaults (t.apply faults d₀).2).1 = .ok () := by
  have happlied := h.applied faults
  rw [rollback_fst]
  apply undoAll_ok _ hfaults
  · intro name hmem hlink
    have hmem := List.mem_reverse.mp hmem
    rcases (happlied.phases name hmem).live hlink with hold | hnew
    · exact h.plain name hmem hold
    · obtain ⟨top, hstaged, hne⟩ := h.staged name hmem
      apply hne
      rw [← hnew]
      unfold stagedEntry
      rw [hstaged]
      rfl
  · rw [List.nodup_reverse, h.names]
    exact nodup_plannedNames plan

/-- However far the replacement gets, a rollback whose operations succeed restores the
installation; without an error, the planned entries are replaced and all others kept. -/
theorem replacement_all_or_nothing {hash : List UInt8 → Text} {d d₀ : Disk} {plan : Plan}
    {t : Transaction} (hnew : Transaction.new hash d plan = .ok (t, d₀))
    (faults : Nat → Option Fault) (undoFaults : Text → Disk.UndoFault) :
    ((∀ name, (undoFaults name).remove = false ∧ (undoFaults name).rename = false) →
      (t.rollback undoFaults (t.apply faults d₀).2).1 = .ok ()) ∧
    ((t.rollback undoFaults (t.apply faults d₀).2).1 = .ok () →
      ∀ name, (t.rollback undoFaults (t.apply faults d₀).2).2.install.lookup name =
        d.install.lookup name) ∧
    ((t.apply faults d₀).1 = .ok () →
      (∀ file ∈ plan.files, ∃ entry, d.package.lookup (topLevel file) = some entry ∧
        (t.apply faults d₀).2.install.lookup (topLevel file) = some entry ∧
        ((t.apply faults d₀).2.backup.bind fun backup => backup.lookup (topLevel file)) =
          d.install.lookup (topLevel file)) ∧
      ∀ name, (∀ file ∈ plan.files, topLevel file ≠ name) →
        (t.apply faults d₀).2.install.lookup name = d.install.lookup name) := by
  have hprepared := new_prepared hnew
  have happlied := hprepared.applied faults
  refine ⟨hprepared.rollback_ok faults, hprepared.restored, fun hok => ⟨?_, ?_⟩⟩
  · intro file hfile
    have hmem : topLevel file ∈ t.names := by
      rw [hprepared.names]
      exact mem_plannedNames.mpr ⟨file, hfile, rfl⟩
    have hslot := happlied.complete hok (topLevel file) hmem
    obtain ⟨top, hstaged, _⟩ := hprepared.staged (topLevel file) hmem
    have hentry : stagedEntry d (topLevel file) = top := by
      unfold stagedEntry
      rw [hstaged]
      rfl
    rw [hentry] at hslot
    exact ⟨top, hstaged, congrArg Slot.live hslot, congrArg Slot.saved hslot⟩
  · intro name hother
    have hnotMem : name ∉ t.names := by
      rw [hprepared.names, mem_plannedNames]
      rintro ⟨file, hfile, htop⟩
      exact hother file hfile htop
    have hslot := happlied.frame name hnotMem
    calc
      (t.apply faults d₀).2.install.lookup name = d₀.install.lookup name :=
        congrArg Slot.live hslot
      _ = d.install.lookup name := by rw [hprepared.install]

def ascii (text : String) : List UInt8 := text.toList.map fun c => UInt8.ofNat c.toNat

def fixtureFiles : List (List String × List UInt8 × Text) :=
  [(["macvnc-app.exe"], ascii "new app",
      "3e251d279782d6b3aff8badc87bbb7c56ab11550d8441c03ae951d1c9d759274".toList),
    (["source", "new.rs"], ascii "new source",
      "eb326958738d171e78bdff8117386308557c0f4d19783441bca3dea03314d2bc".toList),
    (["avcodec-61.dll"], ascii "new dll",
      "bf4613b739bc590f107983c1ce2af38a19e60958081d0ac599cf616140d8b2f2".toList)]

def fixtureHash (content : List UInt8) : Text :=
  ((fixtureFiles.find? fun file => file.2.1 = content).map fun file => file.2.2).getD []

def fixturePlan : Plan :=
  { files := fixtureFiles.map fun file =>
      { path := relativePath (file.1.map String.toList)
        sha256 := file.2.2
        size := file.2.1.length } }

def fixtureDisk : Disk :=
  { install := List.toAList
      [⟨"source".toList, .directory (.cons "old.rs".toList (.file (ascii "old source")) .nil)⟩,
        ⟨"macvnc-app.exe".toList, .file (ascii "old app")⟩,
        ⟨"personal.txt".toList, .file (ascii "untouched")⟩]
    packagePlain := true
    package := List.toAList
      [⟨"macvnc-app.exe".toList, .file (ascii "new app")⟩,
        ⟨"source".toList, .directory (.cons "new.rs".toList (.file (ascii "new source")) .nil)⟩,
        ⟨"avcodec-61.dll".toList, .file (ascii "new dll")⟩]
    backup := none
    transaction := none }

def fixtureTransaction : Transaction :=
  { names := ["avcodec-61.dll".toList, "source".toList, "macvnc-app.exe".toList] }

def fixtureStart : Disk :=
  { fixtureDisk with backup := some ∅, transaction := some fixtureTransaction.names }

theorem fixture_new : Transaction.new fixtureHash fixtureDisk fixturePlan =
    .ok (fixtureTransaction, fixtureStart) := by
  have hplain : plainTargets fixtureDisk.install (plannedNames fixturePlan) = .ok () := by
    decide +kernel
  have hverify : verifyFiles fixtureHash fixtureDisk fixturePlan = .ok () := by decide +kernel
  have hnames : plannedNames fixturePlan = fixtureTransaction.names := by decide +kernel
  unfold Transaction.new
  rw [hverify]
  dsimp only
  rw [hplain]
  dsimp only
  rw [hnames]
  rfl

/-- The complete replacement, undone, and the one that stops before its second move, undone. -/
theorem replacement_all_or_nothing_fixture :
    (fixtureTransaction.apply (fun _ => none) fixtureStart).2.install.lookup mainExecutable =
      some (.file (ascii "new app")) ∧
    (fixtureTransaction.rollback (fun _ => ⟨false, false⟩)
      (fixtureTransaction.apply (fun _ => none) fixtureStart).2).2.install.lookup mainExecutable =
      some (.file (ascii "old app")) ∧
    (fixtureTransaction.rollback (fun _ => ⟨false, false⟩)
      (fixtureTransaction.apply (fun index => if index = 1 then some .beforeMove else none)
        fixtureStart).2).2.install.lookup sourceDirectory =
      some (.directory (.cons "old.rs".toList (.file (ascii "old source")) .nil)) := by
  obtain ⟨hundo, hrestored, hreplaced⟩ :=
    replacement_all_or_nothing fixture_new (fun _ => none) (fun _ => ⟨false, false⟩)
  have hstopped := replacement_all_or_nothing fixture_new
    (fun index => if index = 1 then some .beforeMove else none) (fun _ => ⟨false, false⟩)
  have hok : (fixtureTransaction.apply (fun _ => none) fixtureStart).1 = .ok () := by
    decide +kernel
  refine ⟨?_, ?_, ?_⟩
  · have hfile : fixturePlan.files.head (by decide) ∈ fixturePlan.files := List.head_mem _
    obtain ⟨entry, hstaged, hinstalled, _⟩ := (hreplaced hok).1 _ hfile
    have hentry : some entry = some (.file (ascii "new app")) := hstaged.symm.trans rfl
    exact hinstalled.trans hentry
  · rw [hrestored (hundo fun _ => ⟨rfl, rfl⟩)]
    rfl
  · rw [hstopped.2.1 (hstopped.1 fun _ => ⟨rfl, rfl⟩)]
    rfl

end MacVnc.Updater.Rollback

import MacVnc.Updater.Handover
/-!
# What an installation leaves behind

Wherever a process fails or is stopped, each old entry is still in the installation or in
the backup until a restarted app removes it, which happens only when the installation is all old
or all new, and the outcome that a restarted app shows is true.
-/

namespace MacVnc.Updater.Handover

open MacVnc.Lib (Text)
open MacVnc.Lib.Text
open MacVnc.Lib.Replacement
open MacVnc.Updater.Install
open MacVnc.Updater.Rollback

/-! ## Old entries -/

/-- The old entry of a name is in use or set aside. -/
def Keeps (old : Option Entry) (s : Slot Entry) : Prop :=
  ∀ entry, old = some entry → s.live = some entry ∨ s.saved = some entry

theorem keeps_of_live {old : Option Entry} {s : Slot Entry} (h : s.live = old) : Keeps old s :=
  fun _ hold => .inl (h.trans hold)

/-- The entry in use may be removed where `undo` removes one. -/
structure Held (old : Option Entry) (s : Slot Entry) : Prop where
  keeps : Keeps old s
  saved : s.saved.isSome ∨ s.staged.isNone → ∀ entry, old = some entry → s.saved = some entry

theorem held_of_phase {old : Option Entry} {new : Entry} {s : Slot Entry}
    (h : Phase old new s) : Held old s := by
  cases h with
  | untouched => exact ⟨keeps_of_live rfl, fun hor => hor.elim nofun nofun⟩
  | aside => exact ⟨fun _ hold => .inr hold, fun _ _ hold => hold⟩
  | replaced => exact ⟨fun _ hold => .inr hold, fun _ _ hold => hold⟩

/-- An undo that failed has changed nothing, or it has removed an entry whose old one is still
set aside. -/
theorem undo_error {d : Disk} {fault : Disk.UndoFault} {name : Text} {e : InstallError}
    (h : (d.undo fault name).1 = .error e) :
    slot (d.undo fault name).2 name = slot d name ∨
      (slot d name).saved.isSome = true ∧
        slot (d.undo fault name).2 name = { slot d name with live := none } := by
  unfold Disk.undo at h ⊢
  cases hsaved : d.backup.bind fun backup => backup.lookup name with
  | none =>
      rw [hsaved] at h
      dsimp only at h ⊢
      split at h
      · cases h
      rename_i hstaged
      rw [if_neg hstaged]
      cases hremove : d.removeEntry fault name with
      | error e => exact .inl rfl
      | ok removed =>
          rw [hremove] at h
          cases h
  | some entry =>
      rw [hsaved] at h
      dsimp only at h ⊢
      cases hremove : d.removeEntry fault name with
      | error e => exact .inl rfl
      | ok removed =>
          obtain ⟨hslot, hbackup, -⟩ := removeEntry_ok hremove
          rw [hremove] at h
          dsimp only at h ⊢
          split at h
          · rename_i hrename
            rw [if_pos hrename]
            exact .inr ⟨Option.isSome_iff_exists.2 ⟨entry, hsaved⟩, hslot⟩
          · obtain ⟨backup, hbackupd, hlookup⟩ := Option.bind_eq_some_iff.mp hsaved
            rw [hbackup, hbackupd, Option.bind_some, rename_isSome hlookup] at h
            cases h

theorem undo_held {old : Option Entry} {new : Entry} {d : Disk} {fault : Disk.UndoFault}
    {name : Text} {e : InstallError} (h : Phase old new (slot d name))
    (herror : (d.undo fault name).1 = .error e) :
    Held old (slot (d.undo fault name).2 name) := by
  have hheld := held_of_phase h
  rcases undo_error herror with hslot | ⟨hsaved, hslot⟩
  · rw [hslot]
    exact hheld
  · rw [hslot]
    have hentry := hheld.saved (.inl hsaved)
    exact ⟨fun entry hold => .inr (hentry entry hold), fun _ => hentry⟩

theorem undo_keeps {old : Option Entry} {new : Entry} {d : Disk} {name : Text}
    (h : Phase old new (slot d name)) (fault : Disk.UndoFault) :
    Keeps old (slot (d.undo fault name).2 name) := by
  cases hresult : (d.undo fault name).1 with
  | ok result =>
      rw [undo_slot hresult]
      exact keeps_of_live h.undo_live
  | error e => exact (undo_held h hresult).keeps

theorem undoAll_cons_slot (faults : Text → Disk.UndoFault) (d : Disk) (other name : Text)
    (rest : List Text) :
    slot (d.undoAll faults (other :: rest)).2 name =
      slot ((d.undo (faults other) other).2.undoAll faults rest).2 name := by
  rw [Disk.undoAll]
  dsimp only
  split <;> rfl

section Names

variable (old : Text → Option Entry) (new : Text → Entry) {faults : Text → Disk.UndoFault}

/-- What one undo leaves of the others. -/
theorem phases_undo {d : Disk} {other : Text} {rest : List Text} (hnotMem : other ∉ rest)
    (hphase : ∀ name ∈ other :: rest, Phase (old name) (new name) (slot d name)) :
    ∀ name ∈ rest, Phase (old name) (new name) (slot (d.undo (faults other) other).2 name) := by
  intro name hmem
  rw [undo_local d (faults other) other name fun heq => hnotMem (heq ▸ hmem)]
  exact hphase name (List.mem_cons_of_mem other hmem)

/-- Wherever a rollback stops, the names that it came to keep their old entries. -/
theorem undoAll_keeps {d : Disk} {names : List Text} (hnodup : names.Nodup)
    (hphase : ∀ name ∈ names, Phase (old name) (new name) (slot d name)) {name : Text}
    (hmem : name ∈ names) : Keeps (old name) (slot (d.undoAll faults names).2 name) := by
  induction names generalizing d with
  | nil => cases hmem
  | cons other rest ih =>
      obtain ⟨hnotMem, hrest⟩ := List.nodup_cons.mp hnodup
      rw [undoAll_cons_slot]
      rcases List.mem_cons.mp hmem with rfl | hmem
      · rw [undoAll_frame faults _ hnotMem]
        exact undo_keeps (hphase name List.mem_cons_self) _
      · exact ih hrest (phases_undo old new hnotMem hphase) hmem

/-- Those that it could not restore are safe from what remains of it. -/
theorem undoAll_held {d : Disk} {names : List Text} (hnodup : names.Nodup)
    (hphase : ∀ name ∈ names, Phase (old name) (new name) (slot d name)) {name : Text}
    (hmem : name ∈ (d.undoAll faults names).1) :
    name ∈ names ∧ Held (old name) (slot (d.undoAll faults names).2 name) := by
  induction names generalizing d with
  | nil => cases hmem
  | cons other rest ih =>
      obtain ⟨hnotMem, hrest⟩ := List.nodup_cons.mp hnodup
      have hnext : name ∈ ((d.undo (faults other) other).2.undoAll faults rest).1 →
          name ∈ other :: rest ∧
            Held (old name) (slot (d.undoAll faults (other :: rest)).2 name) := by
        intro hmem
        obtain ⟨hmem, hheld⟩ := ih hrest (phases_undo old new hnotMem hphase) hmem
        rw [undoAll_cons_slot]
        exact ⟨List.mem_cons_of_mem other hmem, hheld⟩
      rw [Disk.undoAll] at hmem
      dsimp only at hmem
      cases hresult : (d.undo (faults other) other).1 with
      | ok result =>
          rw [hresult] at hmem
          exact hnext hmem
      | error e =>
          rw [hresult] at hmem
          rcases List.mem_cons.mp hmem with rfl | hmem
          · rw [undoAll_cons_slot, undoAll_frame faults _ hnotMem]
            exact ⟨List.mem_cons_self, undo_held (hphase name List.mem_cons_self) hresult⟩
          · exact hnext hmem

end Names

/-! ## Entries that are removed in part -/

theorem lookup_removeAt (directory : Directory) {name other : Text} (path : List Text)
    (hne : other ≠ name) :
    (removeAt directory (name :: path)).lookup other = directory.lookup other := by
  rw [removeAt]
  split
  · rfl
  split
  · exact AList.lookup_erase_ne hne
  · exact AList.lookup_insert_ne hne

theorem lookup_foldl_removeAt (paths : List (List Text)) (directory : Directory)
    {name other : Text} (hne : other ≠ name) :
    (paths.foldl (fun install path => removeAt install (name :: path)) directory).lookup other =
      directory.lookup other := by
  induction paths generalizing directory with
  | nil => rfl
  | cons path rest ih => rw [List.foldl_cons, ih, lookup_removeAt directory path hne]

/-- Only the entry of this name that is in use changes, where `undo` removes it. -/
theorem slot_tear (torn : Text → List (List Text)) (d : Disk) (name other : Text) :
    slot (tear torn d name) other = slot d other ∨
      other = name ∧ ((slot d name).saved.isSome ∨ (slot d name).staged.isNone) ∧
        ∃ live, slot (tear torn d name) other = { slot d other with live } := by
  unfold tear
  split
  · exact .inl rfl
  · exact .inl rfl
  split
  · rename_i hundo
    by_cases hsame : other = name
    · exact .inr ⟨hsame, hundo, _, rfl⟩
    · left
      unfold slot
      dsimp only
      rw [lookup_foldl_removeAt _ _ hsame]
  · exact .inl rfl

theorem foldl_tear_held {old : Option Entry} (torn : Text → List (List Text))
    (names : List Text) {d : Disk} {name : Text} (h : Held old (slot d name)) :
    Held old (slot (names.foldl (tear torn) d) name) := by
  induction names generalizing d with
  | nil => exact h
  | cons other rest ih =>
      apply ih
      rcases slot_tear torn d other name with hslot | ⟨rfl, hundo, live, hslot⟩
      · rw [hslot]
        exact h
      · rw [hslot]
        have hentry := h.saved hundo
        exact ⟨fun entry hold => .inr (hentry entry hold), fun _ => hentry⟩

theorem foldl_tear_frame (torn : Text → List (List Text)) {names : List Text} (d : Disk)
    {name : Text} (h : name ∉ names) :
    slot (names.foldl (tear torn) d) name = slot d name := by
  induction names generalizing d with
  | nil => rfl
  | cons other rest ih =>
      rw [List.mem_cons, not_or] at h
      rw [List.foldl_cons, ih _ h.2]
      rcases slot_tear torn d other name with hslot | ⟨hsame, -⟩
      · exact hslot
      · exact absurd hsame h.1

/-! ## What the places hold -/

def Old (d : Disk) (install : Directory) : Prop :=
  ∀ name, install.lookup name = d.install.lookup name

/-- The planned names are replaced by the entries of a package that the helper has verified, and
no others. -/
def New (hash : List UInt8 → Text) (d : Disk) (plan : FullPlan) (install : Directory) : Prop :=
  ∃ found : Disk, found.install = d.install ∧ verifyFiles hash found plan.toPlan = .ok () ∧
    ∀ name, install.lookup name =
      if name ∈ plannedNames plan.toPlan then some (stagedEntry found name)
      else d.install.lookup name

def Kept (d d' : Disk) : Prop := ∀ name, Keeps (d.install.lookup name) (slot d' name)

theorem kept_of_old {d d' : Disk} (h : Old d d'.install) : Kept d d' :=
  fun name => keeps_of_live (h name)

/-- The disk `found` was verified, and prepared for the transaction. -/
structure Begun (hash : List UInt8 → Text) (d found d₀ : Disk) (plan : FullPlan)
    (t : Transaction) : Prop where
  install : found.install = d.install
  verified : verifyFiles hash found plan.toPlan = .ok ()
  prepared : Prepared found d₀ plan.toPlan t

section Places

variable {hash : List UInt8 → Text} {d found d₀ : Disk} {plan : FullPlan} {t : Transaction}

theorem begun_of_new (hinstall : found.install = d.install)
    (h : Transaction.new hash found plan.toPlan = .ok (t, d₀)) : Begun hash d found d₀ plan t where
  install := hinstall
  verified := by
    unfold Transaction.new at h
    split at h
    · cases h
    · assumption
  prepared := new_prepared h

theorem Begun.kept (h : Begun hash d found d₀ plan t) : Kept d d₀ :=
  kept_of_old fun name => by rw [h.prepared.install, h.install]

theorem Begun.phases (h : Begun hash d found d₀ plan t) (faults : Nat → Option Fault) :
    ∀ name ∈ t.names.reverse,
      Phase (d.install.lookup name) (stagedEntry found name) (slot (t.apply faults d₀).2 name) := by
  intro name hmem
  rw [← h.install]
  exact (h.prepared.applied faults).phases name (List.mem_reverse.1 hmem)

theorem Begun.frame (h : Begun hash d found d₀ plan t) (faults : Nat → Option Fault) {name : Text}
    (hmem : name ∉ t.names) :
    (slot (t.apply faults d₀).2 name).live = d.install.lookup name := by
  rw [(h.prepared.applied faults).frame name hmem, ← h.install, ← h.prepared.install]
  rfl

theorem Begun.kept_apply (h : Begun hash d found d₀ plan t) (faults : Nat → Option Fault) :
    Kept d (t.apply faults d₀).2 := by
  intro name
  by_cases hmem : name ∈ t.names
  · exact (held_of_phase (h.phases faults name (List.mem_reverse.2 hmem))).keeps
  · exact keeps_of_live (h.frame faults hmem)

/-- The entries of the names that were tried and failed, and of the one at which the helper was
stopped, may be removed in part. -/
theorem Begun.kept_torn (h : Begun hash d found d₀ plan t) (faults : Nat → Option Fault)
    (undoFaults : Text → Disk.UndoFault) (torn : Text → List (List Text)) (n : Nat) :
    Kept d ((((t.apply faults d₀).2.undoAll undoFaults (t.names.reverse.take n)).1 ++
      (t.names.reverse.drop n).take 1).foldl (tear torn)
        ((t.apply faults d₀).2.undoAll undoFaults (t.names.reverse.take n)).2) := by
  intro name
  have hnodup : t.names.reverse.Nodup := by
    rw [List.nodup_reverse, h.prepared.names]
    exact nodup_plannedNames _
  have hphases := h.phases faults
  have htaken : ∀ name ∈ t.names.reverse.take n, Phase (d.install.lookup name)
      (stagedEntry found name) (slot (t.apply faults d₀).2 name) :=
    fun name hmem => hphases name (List.mem_of_mem_take hmem)
  have hsublist := (List.take_sublist n _).nodup hnodup
  by_cases hmem : name ∈ ((t.apply faults d₀).2.undoAll undoFaults (t.names.reverse.take n)).1 ++
      (t.names.reverse.drop n).take 1
  · refine (foldl_tear_held torn _ ?_).keeps
    rcases List.mem_append.1 hmem with hfailed | hnext
    · exact (undoAll_held d.install.lookup (stagedEntry found) hsublist htaken hfailed).2
    · have hdrop := List.mem_of_mem_take hnext
      rw [undoAll_frame undoFaults _ fun htake =>
        (List.disjoint_take_drop hnodup le_rfl htake hdrop)]
      exact held_of_phase (hphases name (List.mem_of_mem_drop hdrop))
  · rw [foldl_tear_frame torn _ hmem]
    by_cases htake : name ∈ t.names.reverse.take n
    · exact undoAll_keeps d.install.lookup (stagedEntry found) hsublist htaken htake
    · rw [undoAll_frame undoFaults _ htake]
      exact h.kept_apply faults name

theorem Begun.old_rollback (h : Begun hash d found d₀ plan t) {faults : Nat → Option Fault}
    {undoFaults : Text → Disk.UndoFault}
    (hok : ((t.apply faults d₀).2.undoAll undoFaults t.names.reverse).1 = []) :
    Old d ((t.apply faults d₀).2.undoAll undoFaults t.names.reverse).2.install := by
  intro name
  rw [← h.install]
  exact h.prepared.restored (rollback_fst.2 hok) name

theorem Begun.new_apply (h : Begun hash d found d₀ plan t) {faults : Nat → Option Fault}
    (hok : (t.apply faults d₀).1 = .ok ()) : New hash d plan (t.apply faults d₀).2.install := by
  refine ⟨found, h.install, h.verified, fun name => ?_⟩
  rw [← h.prepared.names]
  split
  · rename_i hmem
    exact congrArg Slot.live ((h.prepared.applied faults).complete hok name hmem)
  · rename_i hmem
    exact h.frame faults hmem

end Places

/-! ## Every step -/

/-- The outcome is true of the installation. -/
def Tells (hash : List UInt8 → Text) (d : Disk) (plan : FullPlan) (install : Directory) :
    Bool → Prop
  | true => New hash d plan install
  | false => Old d install

def Replaced (hash : List UInt8 → Text) (d : Disk) (plan : FullPlan) (t : Transaction)
    (disk : Disk) : Prop :=
  ∃ found d₀ faults, Begun hash d found d₀ plan t ∧ t.apply faults d₀ = (.ok (), disk)

def Stopped (hash : List UInt8 → Text) (d : Disk) (plan : FullPlan) (t : Transaction)
    (disk : Disk) : Prop :=
  ∃ found d₀ faults, Begun hash d found d₀ plan t ∧ (t.apply faults d₀).2 = disk

/-- What the disk is when the helper stands here. -/
def Fits (hash : List UInt8 → Text) (d : Disk) (plan : FullPlan) (w : World) : Helper → Prop
  | .absent | .loading | .opening | .signalling | .waiting | .verifying | .refusing =>
      w.disk.install = d.install
  | .applying t => ∃ found, Begun hash d found w.disk plan t
  | .announcing t => Replaced hash d plan t w.disk
  | .restarting t | .awaiting t _ => Replaced hash d plan t w.disk ∧ w.outcome = some true
  | .rollingBack t => Stopped hash d plan t w.disk
  | .clearing => Old d w.disk.install
  | .restartingOld | .awaitingOld _ => Old d w.disk.install ∧ w.outcome = some false
  | .finishing | .done => ∃ b, Tells hash d plan w.disk.install b
  | .failed => True

/-- The helper may stand here while the app runs that is updated. -/
def Helper.early : Helper → Bool
  | .absent | .loading | .opening | .signalling | .waiting | .failed => true
  | _ => false

/-- A restarted app may run while the helper stands here. -/
def Helper.allows : Helper → Nat → Bool
  | .awaiting _ i, j | .awaitingOld i, j => i == j
  | .finishing, _ | .done, _ | .failed, _ => true
  | _, _ => false

/-- A restarted app has confirmed. -/
def Helper.confirmed : Helper → Bool
  | .finishing | .done => true
  | _ => false

/-- The outcome that an app has read and will acknowledge. -/
def Stand.read : Stand → Option Bool
  | .confirmed b | .opened b => some b
  | _ => none

/-- The installation is all old or all new. -/
def Whole (hash : List UInt8 → Text) (d : Disk) (plan : FullPlan) (install : Directory) : Prop :=
  Old d install ∨ New hash d plan install

/-- Something was removed by the updated app, for which the launch has failed, or by a restarted
app, when the helper had finished. -/
def Justified (hash : List UInt8 → Text) (d : Disk) (plan : FullPlan) (w : World) :
    Remover × Directory → Prop
  | (.updated, install) => w.launch = .dropping ∧ Old d install
  | (.restarted _, install) => w.concluded = true ∧ Whole hash d plan install

def World.cleaned (w : World) : Prop := ∃ i install, (Remover.restarted i, install) ∈ w.removals

structure Inv (hash : List UInt8 → Text) (d : Disk) (plan : FullPlan) (w : World) : Prop where
  fits : Fits hash d plan w w.helper
  kept : ¬ w.cleaned → Kept d w.disk
  concluded : w.concluded = true →
    w.helper.runs = false ∧ Whole hash d plan w.disk.install ∧ w.acks ≠ []
  finished : w.finished = true → w.concluded = true
  copying : w.launch = .copying → w.helper = .absent
  parent : w.parent = true → w.helper.early = true ∧ w.concluded = false ∧
    w.disk.install = d.install ∧ (w.removals = [] → w.disk = d)
  gone : w.stage = false → w.removals ≠ []
  removals : ∀ r ∈ w.removals, Justified hash d plan w r
  cleaners : ∀ i c, w.at? i = some c → c.cleaner = .removing → w.concluded = true
  allowed : w.orphaned = false → ∀ j c, w.at? j = some c → c.alive = true →
    w.helper.allows j = true
  truth : w.orphaned = false → ∀ j c, w.at? j = some c → c.alive = true →
    (∀ b, w.outcome = some b → Tells hash d plan w.disk.install b) ∧
      ∀ b, c.stand.read = some b → Tells hash d plan w.disk.install b
  acks : w.orphaned = false → ∀ a ∈ w.acks, Tells hash d plan a.2 a.1
  confirmed : w.restarted = true ∨ w.helper.confirmed = true → w.acks ≠ []

section Steps

variable {hash : List UInt8 → Text} {programVersion : Entry → Text} {d : Disk} {plan : FullPlan}
  {w : World} {t : Transaction}

theorem whole_of_tells {install : Directory} {b : Bool} (h : Tells hash d plan install b) :
    Whole hash d plan install := by
  cases b with
  | true => exact .inr h
  | false => exact .inl h

/-- A helper that runs has not finished. -/
theorem Inv.unfinished (h : Inv hash d plan w) (hruns : w.helper.runs = true) {p : Prop} :
    w.concluded = true → p :=
  fun hconcluded => nomatch hruns.symm.trans (h.concluded hconcluded).1

theorem Inv.launched (h : Inv hash d plan w) (hruns : w.helper.runs = true) {p : Prop} :
    w.launch = .copying → p := by
  intro hcopying
  rw [h.copying hcopying] at hruns
  cases hruns

theorem Inv.goto (h : Inv hash d plan w) {next : Helper} (ready : Bool)
    (hruns : w.helper.runs = true) (hfits : Fits hash d plan w next)
    (hearly : w.parent = true → next.early = true)
    (hallowed : w.orphaned = false → ∀ j c, w.at? j = some c → c.alive = true →
      next.allows j = true)
    (hconfirmed : next.confirmed = true → w.acks ≠ []) :
    Inv hash d plan { w with helper := next, ready } where
  fits := hfits
  kept := h.kept
  concluded := h.unfinished hruns
  finished := h.finished
  copying := h.launched hruns
  parent := fun hparent => ⟨hearly hparent, (h.parent hparent).2⟩
  gone := h.gone
  removals := h.removals
  cleaners := h.cleaners
  allowed := hallowed
  truth := h.truth
  acks := h.acks
  confirmed := fun hor => hor.elim (fun hrestarted => h.confirmed (.inl hrestarted)) hconfirmed

theorem Inv.fail (h : Inv hash d plan w) (hruns : w.helper.runs = true) :
    Inv hash d plan { w with helper := .failed } :=
  h.goto w.ready hruns trivial (fun _ => rfl) (fun _ _ _ _ _ => rfl) nofun

/-- No restarted app runs while the helper is at work. -/
theorem Inv.quiet (h : Inv hash d plan w) (hquiet : ∀ j, w.helper.allows j = false)
    (horphaned : w.orphaned = false) {j : Nat} {c : Child} (hc : w.at? j = some c) :
    c.alive = false := by
  cases halive : c.alive with
  | false => rfl
  | true => exact (h.allowed horphaned j c hc halive).symm.trans (hquiet j)

theorem Inv.act (h : Inv hash d plan w) {disk : Disk} {outcome : Option Bool} {restarted : Bool}
    {next : Helper} (hruns : w.helper.runs = true) (hquiet : ∀ j, w.helper.allows j = false)
    (hlate : w.helper.early = false) (hfits : Fits hash d plan { w with disk, outcome } next)
    (hkept : Kept d disk) (hrestarted : restarted = true → w.restarted = true)
    (hconfirmed : next.confirmed = false) :
    Inv hash d plan { w with disk, outcome, restarted, helper := next } where
  fits := hfits
  kept := fun _ => hkept
  concluded := h.unfinished hruns
  finished := h.finished
  copying := h.launched hruns
  parent := fun hparent => nomatch hlate.symm.trans (h.parent hparent).1
  gone := h.gone
  removals := h.removals
  cleaners := h.cleaners
  allowed := fun horphaned _ _ hc halive => nomatch (h.quiet hquiet horphaned hc).symm.trans halive
  truth := fun horphaned _ _ hc halive => nomatch (h.quiet hquiet horphaned hc).symm.trans halive
  acks := h.acks
  confirmed := by
    rintro (hor | hor)
    · exact h.confirmed (.inl (hrestarted hor))
    · cases hconfirmed.symm.trans hor

/-! ### The updated app -/

theorem Inv.relaunch (h : Inv hash d plan w) {next : Launch} (hlaunch : w.launch ≠ .dropping)
    (hnext : next ≠ .copying) : Inv hash d plan { w with launch := next } :=
  { h with
    copying := fun hcopying => absurd hcopying hnext
    removals := by
      rintro ⟨remover, install⟩ hr
      have hjustified := h.removals _ hr
      cases remover with
      | updated => exact absurd hjustified.1 hlaunch
      | restarted i => exact hjustified }

theorem Inv.launch (h : Inv hash d plan w) (ok : Bool) :
    Inv hash d plan (step hash programVersion plan w (.launch ok)) := by
  dsimp only [step]
  split
  · rename_i hparent hlaunch
    have hdropping : w.launch ≠ .dropping := by
      rw [hlaunch]
      nofun
    split
    · have hhelper := h.copying hlaunch
      have hallowed := h.allowed
      obtain ⟨-, hconcluded, hinstall, -⟩ := h.parent hparent
      rw [hhelper] at hallowed
      exact { h.relaunch hdropping (show Launch.polling ≠ .copying from nofun) with
        fits := hinstall
        concluded := fun htrue => nomatch hconcluded.symm.trans htrue
        copying := nofun
        parent := fun hparent => ⟨rfl, (h.parent hparent).2⟩
        allowed := hallowed
        confirmed := fun hor => hor.elim (fun hrestarted => h.confirmed (.inl hrestarted)) nofun }
    · exact h.relaunch hdropping nofun
  · exact h

theorem Inv.poll (h : Inv hash d plan w) (sight : Sight) :
    Inv hash d plan (step hash programVersion plan w (.poll sight)) := by
  dsimp only [step]
  split
  · rename_i hparent hlaunch
    have hdropping : w.launch ≠ .dropping := by
      rw [hlaunch]
      nofun
    cases sight with
    | started =>
        dsimp only [pollHelper]
        split
        · exact h.relaunch hdropping nofun
        · exact h
    | exited =>
        dsimp only [pollHelper]
        split
        · exact h
        · exact h.relaunch hdropping nofun
    | tooLate =>
        dsimp only [pollHelper]
        split
        · rename_i hruns
          exact (h.fail hruns).relaunch hdropping nofun
        · exact h.relaunch hdropping nofun
    | unknown => exact h.relaunch hdropping nofun
  · exact h

theorem remove_eq (w : World) (item : Item) :
    ∃ disk stage ready outcome restarted finished,
      w.remove item = { w with disk, stage, ready, outcome, restarted, finished } ∧
        disk.install = w.disk.install ∧ (∀ b, outcome = some b → w.outcome = some b) ∧
        (restarted = true → w.restarted = true) ∧ (finished = true → w.finished = true) := by
  cases item with
  | backupDirectory =>
      dsimp only [World.remove]
      split
      · exact ⟨_, _, _, _, _, _, rfl, rfl, fun _ hb => hb, id, id⟩
      · exact ⟨_, _, _, _, _, _, rfl, rfl, fun _ hb => hb, id, id⟩
  | directory =>
      dsimp only [World.remove]
      split
      · exact ⟨_, _, _, _, _, _, rfl, rfl, fun _ hb => hb, id, id⟩
      · exact ⟨_, _, _, _, _, _, rfl, rfl, fun _ hb => hb, id, id⟩
  | outcome => exact ⟨_, _, _, _, _, _, rfl, rfl, nofun, id, id⟩
  | restarted => exact ⟨_, _, _, _, _, _, rfl, rfl, fun _ hb => hb, nofun, id⟩
  | finished => exact ⟨_, _, _, _, _, _, rfl, rfl, fun _ hb => hb, id, nofun⟩
  | _ => exact ⟨_, _, _, _, _, _, rfl, rfl, fun _ hb => hb, id, id⟩

/-- A helper that does not look at the staging directory, or has not yet, does not miss it. -/
theorem fits_of_install {w' : World} (hidle : w.helper.runs = false ∨ w.helper.early = true)
    (hinstall : w'.disk.install = w.disk.install) (h : Fits hash d plan w w.helper) :
    Fits hash d plan w' w.helper := by
  generalize w.helper = helper at hidle h
  cases helper with
  | failed => trivial
  | done =>
      show ∃ b, Tells hash d plan w'.disk.install b
      rw [hinstall]
      exact h
  | absent | loading | opening | signalling | waiting => exact hinstall.trans h
  | _ => exact hidle.elim nofun nofun

theorem Inv.removeBy (h : Inv hash d plan w) {remover : Remover} (item : Item)
    (hparent : remover = .updated → w.parent = true)
    (hjustified : Justified hash d plan w (remover, w.disk.install)) :
    Inv hash d plan (w.removeBy remover item) := by
  obtain ⟨disk, stage, ready, outcome, restarted, finished, hremove, hinstall, houtcome,
    hrestarted, hfinished⟩ := remove_eq w item
  unfold World.removeBy
  rw [hremove]
  have hidle : w.helper.runs = false ∨ w.helper.early = true := by
    cases remover with
    | updated => exact .inr (h.parent (hparent rfl)).1
    | restarted i => exact .inl (h.concluded hjustified.1).1
  have hsome : w.removals ++ [(remover, w.disk.install)] ≠ [] :=
    List.append_ne_nil_of_right_ne_nil _ (List.cons_ne_nil _ _)
  have htruth := h.truth
  have hconcluded := h.concluded
  rw [← hinstall] at htruth hconcluded
  refine
    { h with
      fits := fits_of_install (w := w) hidle hinstall h.fits
      kept := fun hclean => ?_
      concluded := hconcluded
      finished := fun htrue => h.finished (hfinished htrue)
      parent := fun hrunning => ?_
      gone := fun _ => hsome
      removals := ?_
      truth := fun horphaned j c hc halive => ?_
      confirmed := fun hor => h.confirmed (hor.imp hrestarted id) }
  · cases remover with
    | updated =>
        refine kept_of_old fun name => ?_
        dsimp only
        rw [hinstall]
        exact hjustified.2 name
    | restarted i =>
        exact absurd ⟨i, w.disk.install, List.mem_append_right _ (List.mem_singleton_self _)⟩ hclean
  · obtain ⟨hearly, hunfinished, hold, -⟩ := h.parent hrunning
    exact ⟨hearly, hunfinished, hinstall.trans hold, fun hnone => absurd hnone hsome⟩
  · rw [List.forall_mem_append, List.forall_mem_singleton]
    exact ⟨h.removals, hjustified⟩
  · obtain ⟨htold, hread⟩ := htruth horphaned j c hc halive
    exact ⟨fun b hb => htold b (houtcome b hb), hread⟩

theorem Inv.drop (h : Inv hash d plan w) (item : Item) :
    Inv hash d plan (step hash programVersion plan w (.drop item)) := by
  dsimp only [step]
  split
  · rename_i hparent hlaunch
    refine h.removeBy item (fun _ => hparent) ⟨hlaunch, fun name => ?_⟩
    rw [(h.parent hparent).2.2.1]
  · exact h

/-! ### The helper -/

theorem Inv.load (h : Inv hash d plan w) (readable : Bool) :
    Inv hash d plan (step hash programVersion plan w (.load readable)) := by
  dsimp only [step]
  split
  · rename_i hhelper
    have hfits := h.fits
    have hallowed := h.allowed
    have hruns : w.helper.runs = true := by rw [hhelper]; rfl
    rw [hhelper] at hfits hallowed
    split
    · exact h.goto w.ready hruns hfits (fun _ => rfl) hallowed nofun
    · exact h.fail hruns
  · exact h

theorem Inv.openParent (h : Inv hash d plan w) (ok : Bool) :
    Inv hash d plan (step hash programVersion plan w (.openParent ok)) := by
  dsimp only [step]
  split
  · rename_i hhelper
    have hfits := h.fits
    have hallowed := h.allowed
    have hruns : w.helper.runs = true := by rw [hhelper]; rfl
    rw [hhelper] at hfits hallowed
    split
    · exact h.goto w.ready hruns hfits (fun _ => rfl) hallowed nofun
    · exact h.fail hruns
  · exact h

theorem Inv.signal (h : Inv hash d plan w) (result : Written) :
    Inv hash d plan (step hash programVersion plan w (.signal result)) := by
  dsimp only [step]
  split
  · rename_i hhelper
    have hfits := h.fits
    have hallowed := h.allowed
    have hruns : w.helper.runs = true := by rw [hhelper]; rfl
    rw [hhelper] at hfits hallowed
    split
    · exact h.goto _ hruns hfits (fun _ => rfl) hallowed nofun
    · exact h.goto _ hruns trivial (fun _ => rfl) (fun _ _ _ _ _ => rfl) nofun
  · exact h

theorem Inv.waitParent (h : Inv hash d plan w) (ok : Bool) :
    Inv hash d plan (step hash programVersion plan w (.waitParent ok)) := by
  dsimp only [step]
  split
  · rename_i hhelper
    have hfits := h.fits
    have hallowed := h.allowed
    have hruns : w.helper.runs = true := by rw [hhelper]; rfl
    rw [hhelper] at hfits hallowed
    split
    · exact h.fail hruns
    split
    · exact h
    · rename_i hparent
      exact h.goto w.ready hruns hfits (fun hrunning => absurd hrunning hparent) hallowed nofun
  · exact h

theorem Inv.verify (h : Inv hash d plan w) (readable : Bool) (result : Written) :
    Inv hash d plan (step hash programVersion plan w (.verify readable result)) := by
  dsimp only [step]
  split
  · rename_i hhelper
    have hinstall : w.disk.install = d.install := by
      have hfits := h.fits
      rwa [hhelper] at hfits
    have hruns : w.helper.runs = true := by rw [hhelper]; rfl
    have hquiet : ∀ j, w.helper.allows j = false := fun j => by rw [hhelper]; rfl
    have hlate : w.helper.early = false := by rw [hhelper]; rfl
    have hkept : Kept d w.disk := kept_of_old fun name => by rw [hinstall]
    split
    · rename_i t disk hnew
      have hbegun := begun_of_new hinstall hnew
      split
      · exact h.act hruns hquiet hlate ⟨w.disk, hbegun⟩ hbegun.kept id rfl
      · refine h.act hruns hquiet hlate hinstall (kept_of_old fun name => ?_) id rfl
        rw [hinstall]
    · exact h.act hruns hquiet hlate hinstall hkept id rfl
  · exact h

theorem Inv.outcome (h : Inv hash d plan w) {b : Bool} {next fails : Helper} (restarted : Bool)
    (hruns : w.helper.runs = true) (hquiet : ∀ j, w.helper.allows j = false)
    (hlate : w.helper.early = false)
    (hnext : Fits hash d plan { w with outcome := some b } next)
    (hfails : ∀ outcome, Fits hash d plan { w with outcome } fails) (hkept : Kept d w.disk)
    (hrestarted : restarted = true → w.restarted = true) (hconfirmed : next.confirmed = false)
    (hunconfirmed : fails.confirmed = false) (result : Written) :
    Inv hash d plan { w.writeOutcome b result with
      restarted
      helper := if result.ok then next else fails } := by
  cases result with
  | whole => exact h.act hruns hquiet hlate hnext hkept hrestarted hconfirmed
  | truncated => exact h.act hruns hquiet hlate (hfails _) hkept hrestarted hunconfirmed
  | untouched => exact h.act hruns hquiet hlate (hfails _) hkept hrestarted hunconfirmed

theorem writeOutcome_restarted (w : World) (b : Bool) (result : Written) :
    (w.writeOutcome b result).restarted = w.restarted := by
  cases result with
  | _ => rfl

theorem Inv.write (h : Inv hash d plan w) (result : Written) :
    Inv hash d plan (step hash programVersion plan w (.write result)) := by
  dsimp only [step]
  split
  · rename_i hhelper
    have hinstall : w.disk.install = d.install := by
      have hfits := h.fits
      rwa [hhelper] at hfits
    have hold : Old d w.disk.install := fun name => by rw [hinstall]
    have hnext : Fits hash d plan { w with outcome := some false } .restartingOld := ⟨hold, rfl⟩
    exact h.outcome _ (by rw [hhelper]; rfl) (fun j => by rw [hhelper]; rfl)
      (by rw [hhelper]; rfl) hnext (fun _ => show Fits hash d plan _ .failed from trivial)
      (kept_of_old hold) (fun htrue => writeOutcome_restarted w false _ ▸ htrue) rfl rfl _
  · rename_i t hhelper
    have hreplaced : Replaced hash d plan t w.disk := by
      have hfits := h.fits
      rwa [hhelper] at hfits
    obtain ⟨found, d₀, faults, hbegun, happly⟩ := hreplaced
    have hdisk : (t.apply faults d₀).2 = w.disk := congrArg Prod.snd happly
    have hkept : Kept d w.disk := hdisk ▸ hbegun.kept_apply faults
    have hnext : Fits hash d plan { w with outcome := some true } (.restarting t) :=
      ⟨⟨found, d₀, faults, hbegun, happly⟩, rfl⟩
    have hfails : Stopped hash d plan t w.disk := ⟨found, d₀, faults, hbegun, hdisk⟩
    exact h.outcome _ (by rw [hhelper]; rfl) (fun j => by rw [hhelper]; rfl)
      (by rw [hhelper]; rfl) hnext (fun _ => show Fits hash d plan _ (.rollingBack t) from hfails)
      hkept (fun htrue => writeOutcome_restarted w true _ ▸ htrue) rfl rfl _
  · exact h

theorem Inv.apply (h : Inv hash d plan w) (faults : Nat → Option Fault) (crashes : Bool) :
    Inv hash d plan (step hash programVersion plan w (.apply faults crashes)) := by
  dsimp only [step]
  split
  · rename_i t hhelper
    obtain ⟨found, hbegun⟩ : ∃ found, Begun hash d found w.disk plan t := by
      have hfits := h.fits
      rwa [hhelper] at hfits
    have hruns : w.helper.runs = true := by rw [hhelper]; rfl
    have hquiet : ∀ j, w.helper.allows j = false := fun j => by rw [hhelper]; rfl
    have hlate : w.helper.early = false := by rw [hhelper]; rfl
    have hkept := hbegun.kept_apply faults
    cases crashes with
    | true => exact h.act hruns hquiet hlate trivial hkept id rfl
    | false =>
        cases happly : t.apply faults w.disk with
        | mk result disk =>
            rw [happly] at hkept
            cases result with
            | ok value =>
                exact h.act hruns hquiet hlate ⟨found, w.disk, faults, hbegun, happly⟩ hkept id rfl
            | error e =>
                exact h.act hruns hquiet hlate
                  ⟨found, w.disk, faults, hbegun, congrArg Prod.snd happly⟩ hkept id rfl
  · exact h

theorem Inv.rollBack (h : Inv hash d plan w) (faults : Text → Disk.UndoFault)
    (torn : Text → List (List Text)) (stop : Option Nat) :
    Inv hash d plan (step hash programVersion plan w (.rollBack faults torn stop)) := by
  dsimp only [step]
  split
  · rename_i t hhelper
    obtain ⟨found, d₀, applyFaults, hbegun, hdisk⟩ : Stopped hash d plan t w.disk := by
      have hfits := h.fits
      rwa [hhelper] at hfits
    have hruns : w.helper.runs = true := by rw [hhelper]; rfl
    have hquiet : ∀ j, w.helper.allows j = false := fun j => by rw [hhelper]; rfl
    have hlate : w.helper.early = false := by rw [hhelper]; rfl
    have htorn := hbegun.kept_torn applyFaults faults torn
    rw [hdisk] at htorn
    cases stop with
    | some n => exact h.act hruns hquiet hlate trivial (htorn n) id rfl
    | none =>
        dsimp only [Handover.rollBack]
        split
        · rename_i hok
          rw [← hdisk] at hok
          have hold := hbegun.old_rollback hok
          rw [hdisk] at hold
          exact h.act hruns hquiet hlate hold (kept_of_old hold) id rfl
        · have hall := htorn t.names.reverse.length
          rw [List.take_length, List.drop_length, List.take_nil, List.append_nil] at hall
          exact h.act hruns hquiet hlate trivial hall id rfl
  · exact h

theorem Inv.clear (h : Inv hash d plan w) (removed : Bool) (result : Written) :
    Inv hash d plan (step hash programVersion plan w (.clear removed result)) := by
  dsimp only [step]
  split
  · rename_i hhelper
    have hold : Old d w.disk.install := by
      have hfits := h.fits
      rwa [hhelper] at hfits
    have hnext : Fits hash d plan { w with outcome := some false } .restartingOld := ⟨hold, rfl⟩
    exact h.outcome (w.restarted && !removed) (by rw [hhelper]; rfl) (fun j => by rw [hhelper]; rfl)
      (by rw [hhelper]; rfl) hnext (fun _ => show Fits hash d plan _ .failed from trivial)
      (kept_of_old hold) (fun hboth => (Bool.and_eq_true_iff.1 hboth).1) rfl rfl _
  · exact h

theorem Inv.restart (h : Inv hash d plan w) (ok : Bool) {next : Nat → Helper} {fails : Helper}
    {b : Bool} (hruns : w.helper.runs = true) (hquiet : ∀ j, w.helper.allows j = false)
    (hlate : w.helper.early = false) (hnext : ∀ i, Fits hash d plan w (next i))
    (hallows : ∀ i, (next i).allows i = true) (hconfirmed : ∀ i, (next i).confirmed = false)
    (houtcome : w.outcome = some b) (htells : Tells hash d plan w.disk.install b)
    (hfails : Inv hash d plan { w with helper := fails }) :
    Inv hash d plan (spawn programVersion w ok next fails) := by
  unfold spawn
  split
  · have hnew : ∀ (program : Child) (j : Nat) (c : Child),
        (w.children ++ [program])[j]? = some c →
          w.at? j = some c ∨ j = w.children.length ∧ c = program := by
      intro program j c hc
      rcases Nat.lt_trichotomy j w.children.length with hlt | rfl | hgt
      · rw [List.getElem?_append_left hlt] at hc
        exact .inl hc
      · rw [List.getElem?_concat_length] at hc
        exact .inr ⟨rfl, (Option.some.inj hc).symm⟩
      · rw [List.getElem?_eq_none (by rw [List.length_append, List.length_singleton]; omega)] at hc
        cases hc
    refine
      { h with
        fits := hnext _
        concluded := h.unfinished hruns
        copying := h.launched hruns
        parent := fun hparent => nomatch hlate.symm.trans (h.parent hparent).1
        cleaners := fun j c hc hremoving => ?_
        allowed := fun horphaned j c hc halive => ?_
        truth := fun horphaned j c hc halive => ?_
        confirmed := fun hor => hor.elim (fun hrestarted => h.confirmed (.inl hrestarted))
          fun htrue => nomatch (hconfirmed _).symm.trans htrue }
    · rcases hnew _ j c hc with hc | ⟨-, rfl⟩
      · exact h.cleaners j c hc hremoving
      · cases hremoving
    · rcases hnew _ j c hc with hc | ⟨rfl, -⟩
      · cases (h.quiet hquiet horphaned hc).symm.trans halive
      · exact hallows _
    · rcases hnew _ j c hc with hc | ⟨-, rfl⟩
      · cases (h.quiet hquiet horphaned hc).symm.trans halive
      · refine ⟨fun b' hb' => ?_, nofun⟩
        cases houtcome.symm.trans hb'
        exact htells
  · exact hfails

theorem tells_of_replaced (h : Replaced hash d plan t w.disk) :
    Tells hash d plan w.disk.install true := by
  obtain ⟨found, d₀, faults, hbegun, happly⟩ := h
  have hnew := hbegun.new_apply (congrArg Prod.fst happly)
  rwa [happly] at hnew

theorem stopped_of_replaced (h : Replaced hash d plan t w.disk) : Stopped hash d plan t w.disk := by
  obtain ⟨found, d₀, faults, hbegun, happly⟩ := h
  exact ⟨found, d₀, faults, hbegun, congrArg Prod.snd happly⟩

theorem Inv.spawn (h : Inv hash d plan w) (ok : Bool) :
    Inv hash d plan (step hash programVersion plan w (.spawn ok)) := by
  have hfits := h.fits
  have hallowed := h.allowed
  dsimp only [step]
  split
  · rename_i t hhelper
    rw [hhelper] at hfits hallowed
    have hruns : w.helper.runs = true := by rw [hhelper]; rfl
    have hlate : w.helper.early = false := by rw [hhelper]; rfl
    refine h.restart ok hruns (fun j => by rw [hhelper]; rfl) hlate
      (fun _ => hfits) (fun i => beq_self_eq_true i) (fun _ => rfl) hfits.2
      (tells_of_replaced hfits.1) ?_
    exact h.goto w.ready hruns (stopped_of_replaced hfits.1)
      (fun hparent => nomatch hlate.symm.trans (h.parent hparent).1) hallowed nofun
  · rename_i hhelper
    rw [hhelper] at hfits
    have hruns : w.helper.runs = true := by rw [hhelper]; rfl
    exact h.restart ok hruns (fun j => by rw [hhelper]; rfl) (by rw [hhelper]; rfl)
      (fun _ => hfits) (fun i => beq_self_eq_true i) (fun _ => rfl) hfits.2 hfits.1
      (h.fail hruns)
  · exact h

/-! ### The restarted apps -/

theorem of_at_setChild {i j : Nat} {c c' : Child} (h : (w.setChild i c').at? j = some c) :
    (j = i ∧ c = c') ∨ (j ≠ i ∧ w.at? j = some c) := by
  by_cases hsame : j = i
  · rw [World.at?, World.setChild, hsame, List.getElem?_set_self'] at h
    obtain ⟨_, -, rfl⟩ := Option.map_eq_some_iff.1 h
    exact .inl ⟨hsame, rfl⟩
  · rw [World.at?, World.setChild, List.getElem?_set_ne (Ne.symm hsame)] at h
    exact .inr ⟨hsame, h⟩

theorem Inv.setChild (h : Inv hash d plan w) {i : Nat} {c c' : Child} (hc : w.at? i = some c)
    (hcleaner : c'.cleaner = .removing → w.concluded = true)
    (halive : c'.alive = true → c.alive = true)
    (hread : w.orphaned = false → c'.alive = true → ∀ b, c'.stand.read = some b →
      Tells hash d plan w.disk.install b) :
    Inv hash d plan (w.setChild i c') :=
  { h with
    cleaners := by
      intro j c'' hc'' hremoving
      rcases of_at_setChild hc'' with ⟨rfl, rfl⟩ | ⟨-, hc''⟩
      · exact hcleaner hremoving
      · exact h.cleaners j c'' hc'' hremoving
    allowed := by
      intro horphaned j c'' hc'' halive''
      rcases of_at_setChild hc'' with ⟨rfl, rfl⟩ | ⟨-, hc''⟩
      · exact h.allowed horphaned j c hc (halive halive'')
      · exact h.allowed horphaned j c'' hc'' halive''
    truth := by
      intro horphaned j c'' hc'' halive''
      rcases of_at_setChild hc'' with ⟨rfl, rfl⟩ | ⟨-, hc''⟩
      · exact ⟨(h.truth horphaned j c hc (halive halive'')).1, hread horphaned halive''⟩
      · exact h.truth horphaned j c'' hc'' halive'' }

theorem Inv.killChild (h : Inv hash d plan w) (i : Nat) : Inv hash d plan (w.killChild i) := by
  unfold World.killChild
  split
  · rename_i c hc
    exact h.setChild hc (h.cleaners i c hc) nofun nofun
  · exact h

theorem of_at_killChild {i j : Nat} {c : Child} (h : (w.killChild i).at? j = some c)
    (halive : c.alive = true) : j ≠ i ∧ w.at? j = some c := by
  unfold World.killChild at h
  split at h
  · rcases of_at_setChild h with ⟨-, rfl⟩ | h
    · cases halive
    · exact h
  · rename_i hnone
    refine ⟨fun hsame => ?_, h⟩
    rw [hsame, hnone] at h
    cases h

theorem killChild_frame (w : World) (i : Nat) :
    (w.killChild i).helper = w.helper ∧ (w.killChild i).disk = w.disk ∧
      (w.killChild i).outcome = w.outcome ∧ (w.killChild i).parent = w.parent ∧
      (w.killChild i).orphaned = w.orphaned := by
  unfold World.killChild
  split <;> exact ⟨rfl, rfl, rfl, rfl, rfl⟩

theorem Inv.awaitStart (h : Inv hash d plan w) {child : Nat} {fails : Helper} {b : Bool}
    (hruns : w.helper.runs = true) (hwaits : ∀ j, w.helper.allows j = (child == j))
    (hlate : w.helper.early = false) (htells : Tells hash d plan w.disk.install b)
    (hfails : ∀ w' : World, w'.disk = w.disk → Fits hash d plan w' fails)
    (hconfirmed : fails.confirmed = false) (sight : Sight) :
    Inv hash d plan (awaitStart w child fails sight) := by
  have hparent : ∀ {p : Prop}, w.parent = true → p :=
    fun hrunning => nomatch hlate.symm.trans (h.parent hrunning).1
  have hnone : ∀ {p : Prop}, fails.confirmed = true → p :=
    fun htrue => nomatch hconfirmed.symm.trans htrue
  cases sight with
  | started =>
      dsimp only [Handover.awaitStart]
      split
      · rename_i hrestarted
        exact h.goto w.ready hruns ⟨b, htells⟩ hparent (fun _ _ _ _ _ => rfl)
          fun _ => h.confirmed (.inl hrestarted)
      · exact h
  | exited =>
      dsimp only [Handover.awaitStart]
      split
      · exact h
      · rename_i hdead
        refine h.goto w.ready hruns (hfails w rfl) hparent (fun ho j c hc halive => ?_) hnone
        have hsame := (hwaits j).symm.trans (h.allowed ho j c hc halive)
        rw [beq_iff_eq] at hsame
        rw [World.alive, hsame, hc] at hdead
        exact absurd halive hdead
  | tooLate =>
      dsimp only [Handover.awaitStart]
      obtain ⟨hhelper, hdisk, houtcome', hparent', horphaned⟩ := killChild_frame w child
      have hkilled := h.killChild child
      refine hkilled.goto (w.killChild child).ready (hhelper ▸ hruns) (hfails _ hdisk)
        (fun hrunning => hparent (hparent' ▸ hrunning)) (fun ho j c hc halive => ?_) hnone
      obtain ⟨hne, hc⟩ := of_at_killChild hc halive
      have hsame := (hwaits j).symm.trans (h.allowed (horphaned ▸ ho) j c hc halive)
      rw [beq_iff_eq] at hsame
      exact absurd hsame.symm hne
  | unknown =>
      exact { h with
        fits := hfails _ rfl
        concluded := h.unfinished hruns
        copying := h.launched hruns
        parent := hparent
        allowed := nofun
        truth := nofun
        acks := nofun
        confirmed := fun hor => hor.elim (fun hrestarted => h.confirmed (.inl hrestarted)) hnone }

theorem Inv.look (h : Inv hash d plan w) (sight : Sight) :
    Inv hash d plan (step hash programVersion plan w (.look sight)) := by
  have hfits := h.fits
  dsimp only [step]
  split
  · rename_i t child hhelper
    rw [hhelper] at hfits
    refine h.awaitStart (by rw [hhelper]; rfl) (fun j => by rw [hhelper]; rfl)
      (by rw [hhelper]; rfl) (tells_of_replaced hfits.1) (fun w' hdisk => ?_) rfl sight
    show Stopped hash d plan t w'.disk
    rw [hdisk]
    exact stopped_of_replaced hfits.1
  · rename_i child hhelper
    rw [hhelper] at hfits
    exact h.awaitStart (b := false) (by rw [hhelper]; rfl) (fun j => by rw [hhelper]; rfl)
      (by rw [hhelper]; rfl) hfits.1
      (fun w' _ => show Fits hash d plan w' .failed from trivial) rfl sight
  · exact h

theorem Inv.finish (h : Inv hash d plan w) (result : Written) :
    Inv hash d plan (step hash programVersion plan w (.finish result)) := by
  dsimp only [step]
  split
  · rename_i hhelper
    have hfits := h.fits
    rw [hhelper] at hfits
    obtain ⟨b, htells⟩ := hfits
    have hruns : w.helper.runs = true := by rw [hhelper]; rfl
    have hacks : w.acks ≠ [] := h.confirmed (.inr (by rw [hhelper]; rfl))
    have hparent : ∀ {p : Prop}, w.parent = true → p := by
      intro p hrunning
      have hearly := (h.parent hrunning).1
      rw [hhelper] at hearly
      cases hearly
    have hnext : ∀ next : Helper, next = .done ∨ next = .failed →
        Fits hash d plan w next ∧ next.runs = false ∧ ∀ j, next.allows j = true := by
      rintro next (rfl | rfl)
      · exact ⟨⟨b, htells⟩, rfl, fun _ => rfl⟩
      · exact ⟨trivial, rfl, fun _ => rfl⟩
    generalize hends : (if (w.written result).ok = true then Helper.done else .failed) = next
    obtain ⟨hfits, hended, hallows⟩ := hnext next (by split at hends <;> simp [← hends])
    exact { h with
      fits := hfits
      concluded := fun _ => ⟨hended, whole_of_tells htells, hacks⟩
      finished := fun htrue => by
        rw [Bool.or_eq_true] at htrue ⊢
        exact htrue.imp h.finished id
      copying := h.launched hruns
      parent := hparent
      removals := by
        rintro ⟨remover, install⟩ hr
        have hjustified := h.removals _ hr
        cases remover with
        | updated => exact hjustified
        | restarted i => exact h.unfinished hruns hjustified.1
      cleaners := fun i c hc hremoving => by
        rw [h.cleaners i c hc hremoving, Bool.true_or]
      allowed := fun _ j _ _ _ => hallows j
      confirmed := fun _ => hacks }
  · exact h

theorem Inv.crash (h : Inv hash d plan w) :
    Inv hash d plan (step hash programVersion plan w .crash) := by
  dsimp only [step]
  split
  · rename_i hruns
    exact h.fail hruns
  · exact h

theorem Inv.parentExits (h : Inv hash d plan w) :
    Inv hash d plan (step hash programVersion plan w .parentExits) :=
  { h with parent := nofun }

theorem Inv.childReads (h : Inv hash d plan w) (i : Nat) (readable : Bool) :
    Inv hash d plan (step hash programVersion plan w (.childReads i readable)) := by
  dsimp only [step]
  split
  · rename_i version cleaner hc
    refine h.setChild hc (fun hremoving => h.cleaners i _ hc hremoving) (fun _ => rfl)
      fun ho _ b hb => ?_
    dsimp only at hb
    split at hb
    · rename_i updated houtcome
      split at hb
      · cases hb
        exact (h.truth ho i _ hc rfl).1 _ houtcome
      · cases hb
    · cases hb
  · exact h

theorem Inv.childOpens (h : Inv hash d plan w) (i : Nat) (ok : Bool) :
    Inv hash d plan (step hash programVersion plan w (.childOpens i ok)) := by
  dsimp only [step]
  split
  · rename_i updated version cleaner hc
    split
    · refine h.setChild hc nofun (fun _ => rfl) fun ho _ b hb => ?_
      cases hb
      exact (h.truth ho i _ hc rfl).2 _ rfl
    · exact h.setChild hc (fun hremoving => h.cleaners i _ hc hremoving) (fun _ => rfl) nofun
  · exact h

theorem Inv.childAcknowledges (h : Inv hash d plan w) (i : Nat) (result : Written) :
    Inv hash d plan (step hash programVersion plan w (.childAcknowledges i result)) := by
  dsimp only [step]
  split
  · rename_i updated version cleaner hc
    have hset : Inv hash d plan (w.setChild i
        { alive := true
          stand := if (w.written result).ok then .acknowledged else .unconfirmed
          version
          cleaner }) := by
      refine h.setChild hc (fun hremoving => h.cleaners i _ hc hremoving) (fun _ => rfl)
        fun _ _ b hb => ?_
      split at hb <;> cases hb
    split
    · have hsome : w.acks ++ [(updated, w.disk.install)] ≠ [] :=
        List.append_ne_nil_of_right_ne_nil _ (List.cons_ne_nil _ _)
      refine { hset with
        concluded := fun hconcluded => ?_
        acks := fun ho => ?_
        confirmed := fun _ => hsome }
      · obtain ⟨hended, hwhole, -⟩ := h.concluded hconcluded
        exact ⟨hended, hwhole, hsome⟩
      · rw [List.forall_mem_append, List.forall_mem_singleton]
        exact ⟨h.acks ho, (h.truth ho i _ hc rfl).2 _ rfl⟩
    · exact hset
  · exact h

theorem Inv.childCleans (h : Inv hash d plan w) (i : Nat) (waited : Bool) :
    Inv hash d plan (step hash programVersion plan w (.childCleans i waited)) := by
  dsimp only [step]
  split
  · rename_i stand version hc
    have hread : w.orphaned = false → true = true → ∀ b, stand.read = some b →
        Tells hash d plan w.disk.install b := fun ho _ => (h.truth ho i _ hc rfl).2
    split
    · exact h.setChild hc nofun (fun _ => rfl) hread
    split
    · exact h
    · refine h.setChild hc (fun hremoving => ?_) (fun _ => rfl) hread
      dsimp only at hremoving
      split at hremoving
      · exact h.finished ‹_›
      · cases hremoving
  · exact h

theorem Inv.childRemoves (h : Inv hash d plan w) (i : Nat) (item : Item) :
    Inv hash d plan (step hash programVersion plan w (.childRemoves i item)) := by
  dsimp only [step]
  split
  · rename_i hc
    have hconcluded := h.cleaners i _ hc rfl
    exact h.removeBy item nofun ⟨hconcluded, (h.concluded hconcluded).2.1⟩
  · exact h

theorem Inv.step (h : Inv hash d plan w) (action : Action) :
    Inv hash d plan (step hash programVersion plan w action) := by
  cases action with
  | launch ok => exact h.launch ok
  | poll sight => exact h.poll sight
  | drop item => exact h.drop item
  | load readable => exact h.load readable
  | openParent ok => exact h.openParent ok
  | signal result => exact h.signal result
  | waitParent ok => exact h.waitParent ok
  | verify readable result => exact h.verify readable result
  | write result => exact h.write result
  | apply faults crashes => exact h.apply faults crashes
  | spawn ok => exact h.spawn ok
  | look sight => exact h.look sight
  | rollBack faults torn stop => exact h.rollBack faults torn stop
  | clear removed result => exact h.clear removed result
  | finish result => exact h.finish result
  | crash => exact h.crash
  | parentExits => exact h.parentExits
  | childReads i readable => exact h.childReads i readable
  | childOpens i ok => exact h.childOpens i ok
  | childAcknowledges i result => exact h.childAcknowledges i result
  | childExits i => exact h.killChild i
  | childCleans i waited => exact h.childCleans i waited
  | childRemoves i item => exact h.childRemoves i item

theorem Inv.run (h : Inv hash d plan w) (actions : List Action) :
    Inv hash d plan (run hash programVersion plan w actions) := by
  induction actions generalizing w with
  | nil => exact h
  | cons action rest ih => exact ih (h.step action)

end Steps

theorem start_inv (hash : List UInt8 → Text) (d : Disk) (plan : FullPlan) :
    Inv hash d plan (start d) where
  fits := rfl
  kept := fun _ => kept_of_old fun _ => rfl
  concluded := nofun
  finished := nofun
  copying := fun _ => rfl
  parent := fun _ => ⟨rfl, rfl, rfl, fun _ => rfl⟩
  gone := nofun
  removals := fun _ hr => (List.not_mem_nil hr).elim
  cleaners := nofun
  allowed := nofun
  truth := nofun
  acks := fun _ _ ha => (List.not_mem_nil ha).elim
  confirmed := fun hor => hor.elim nofun nofun

/-! ## The installation -/

/-- What no failure and no order of the steps breaks. -/
structure Sound (hash : List UInt8 → Text) (d : Disk) (plan : FullPlan) (w : World) : Prop where
  untouched : w.parent = true → w.disk.install = d.install ∧ (w.removals = [] → w.disk = d)
  kept : (∀ i install, (Remover.restarted i, install) ∉ w.removals) →
    ∀ name entry, d.install.lookup name = some entry →
      w.disk.install.lookup name = some entry ∨
        (w.disk.backup.bind fun backup => backup.lookup name) = some entry
  finished : w.finished = true → w.concluded = true
  concluded : w.concluded = true → Whole hash d plan w.disk.install ∧ w.acks ≠ []
  gone : w.stage = false → w.removals ≠ []
  removals : ∀ r ∈ w.removals, Justified hash d plan w r
  acks : w.orphaned = false → ∀ a ∈ w.acks, Tells hash d plan a.2 a.1

end MacVnc.Updater.Handover

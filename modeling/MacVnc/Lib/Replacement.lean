import Mathlib.Data.Option.Basic
/-!
# Replacing an entry with a way back

The three places of one name while its entry is replaced: the entry in use,
the entry that waits to replace it, and the entry set aside.  How far the
replacement got can be read off the places, so it can be undone.
-/

namespace MacVnc.Lib.Replacement

variable {α : Type*}

@[ext]
structure Slot (α : Type*) where
  live : Option α
  staged : Option α
  saved : Option α

namespace Slot

def save (s : Slot α) : Slot α :=
  match s.live with
  | none => s
  | some entry => ⟨none, s.staged, some entry⟩

def install (s : Slot α) : Slot α := ⟨s.staged, none, s.saved⟩

def undo (s : Slot α) : Slot α :=
  match s.saved with
  | some entry => ⟨some entry, s.staged, none⟩
  | none => if s.staged.isSome then s else ⟨none, s.staged, none⟩

end Slot

/-- The states on the way from `old` to `new`. -/
inductive Phase (old : Option α) (new : α) : Slot α → Prop where
  | untouched : Phase old new ⟨old, some new, none⟩
  | aside : Phase old new ⟨none, some new, old⟩
  | replaced : Phase old new ⟨some new, none, old⟩

theorem save_untouched (old : Option α) (new : α) :
    (⟨old, some new, none⟩ : Slot α).save = ⟨none, some new, old⟩ := by
  cases old <;> rfl

/-- Undoing a replacement restores the old entry, whatever the phase. -/
theorem Phase.undo_live {old : Option α} {new : α} {s : Slot α} (h : Phase old new s) :
    s.undo.live = old := by
  cases h with
  | untouched => rfl
  | aside => cases old <;> rfl
  | replaced => cases old <;> rfl

theorem Phase.live {old : Option α} {new : α} {s : Slot α} (h : Phase old new s) {entry : α}
    (hlive : s.live = some entry) : old = some entry ∨ new = entry := by
  cases h with
  | untouched => exact Or.inl hlive
  | aside => cases hlive
  | replaced => exact Or.inr (Option.some.inj hlive)

end MacVnc.Lib.Replacement

import Mathlib.Data.List.Basic
import Mathlib.Algebra.GroupWithZero.Nat
/-!
# Checked operations

Indexing, slicing, copying and unsigned arithmetic that have no value where a
program would stop: an index or a range outside of the sequence, a copy between
ranges of different lengths, a sum or product beyond the width, a difference
below zero.
-/

namespace MacVnc.Lib.Checked

variable {α : Type}

def slice (xs : List α) (first last : Nat) : Option (List α) :=
  if first ≤ last ∧ last ≤ xs.length then some ((xs.drop first).take (last - first)) else none

/-- `source` in place of the elements from `first` to before `last`. -/
def copyInto (xs : List α) (first last : Nat) (source : List α) : Option (List α) :=
  if first ≤ last ∧ last ≤ xs.length ∧ source.length = last - first then
    some (xs.take first ++ source ++ xs.drop last)
  else none

def add (width a b : Nat) : Option Nat := if a + b < 2 ^ width then some (a + b) else none

def mul (width a b : Nat) : Option Nat := if a * b < 2 ^ width then some (a * b) else none

def sub (a b : Nat) : Option Nat := if b ≤ a then some (a - b) else none

abbrev Guarded (ε β : Type) : Type := ExceptT ε Option β

theorem some_bind {β : Type} (a : α) (f : α → Option β) : (some a >>= f) = f a := rfl

theorem lift_some {ε : Type} (a : α) : (liftM (some a) : Guarded ε α) = pure a := rfl

theorem lift_bind {ε β : Type} (a : α) (f : α → Guarded ε β) :
    ((liftM (some a) : Guarded ε α) >>= f) = f a := rfl

theorem slice_of_le {xs : List α} {first last : Nat} (h : first ≤ last) (hlast : last ≤ xs.length) :
    slice xs first last = some ((xs.drop first).take (last - first)) :=
  if_pos ⟨h, hlast⟩

theorem slice_prefix {xs : List α} {last : Nat} (h : last ≤ xs.length) :
    slice xs 0 last = some (xs.take last) := by
  rw [slice_of_le (Nat.zero_le _) h, List.drop_zero, Nat.sub_zero]

theorem slice_suffix {xs : List α} {first : Nat} (h : first ≤ xs.length) :
    slice xs first xs.length = some (xs.drop first) := by
  have hlength : (xs.drop first).length ≤ xs.length - first := by simp
  rw [slice_of_le h (Nat.le_refl _), List.take_of_length_le hlength]

theorem slice_of_eq {xs front middle : List α} (back : List α) {first last : Nat}
    (hxs : xs = front ++ middle ++ back) (hfirst : first = front.length)
    (hlast : last = front.length + middle.length) : slice xs first last = some middle := by
  subst hxs hfirst hlast
  rw [slice_of_le (by omega) (by simp), List.append_assoc, List.drop_left,
    Nat.add_sub_cancel_left, List.take_left]

theorem copyInto_of_eq {xs front old back source : List α} {first last : Nat}
    (hxs : xs = front ++ old ++ back) (hfirst : first = front.length)
    (hlast : last = front.length + old.length) (hsource : source.length = old.length) :
    copyInto xs first last source = some (front ++ source ++ back) := by
  subst hxs hfirst hlast
  have htake : (front ++ old ++ back).take front.length = front := by
    rw [List.append_assoc, List.take_left]
  have hdrop : (front ++ old ++ back).drop (front.length + old.length) = back :=
    List.drop_left' List.length_append
  rw [copyInto, if_pos ⟨by omega, by simp, by omega⟩, htake, hdrop]

theorem add_of_lt {width a b : Nat} (h : a + b < 2 ^ width) : add width a b = some (a + b) :=
  if_pos h

theorem mul_of_lt {width a b : Nat} (h : a * b < 2 ^ width) : mul width a b = some (a * b) :=
  if_pos h

theorem sub_of_le {a b : Nat} (h : b ≤ a) : sub a b = some (a - b) :=
  if_pos h

end MacVnc.Lib.Checked

import Mathlib.Data.List.Sort
import Mathlib.Algebra.GroupWithZero.Nat
/-!
# Serial numbers

Items numbered consecutively in wrapping 16-bit arithmetic.  The wrapping
distance to the last number restores their order from any permutation.
-/

namespace MacVnc.Lib.SerialNumber

theorem toNat_distance (start : UInt16) {i n : Nat} (hi : i ≤ n) (hn : n < 2 ^ 16) :
    (start + UInt16.ofNat n - (start + UInt16.ofNat i)).toNat = n - i := by
  have hstart := start.toNat_lt
  rw [UInt16.toNat_sub, UInt16.toNat_add, UInt16.toNat_add, UInt16.toNat_ofNat',
    UInt16.toNat_ofNat']
  omega

theorem add_ofNat_inj (start : UInt16) {i j : Nat} (hi : i < 2 ^ 16) (hj : j < 2 ^ 16)
    (h : start + UInt16.ofNat i = start + UInt16.ofNat j) : i = j := by
  have hstart := start.toNat_lt
  have hnat := congrArg UInt16.toNat h
  rw [UInt16.toNat_add, UInt16.toNat_add, UInt16.toNat_ofNat', UInt16.toNat_ofNat'] at hnat
  omega

variable {α : Type*}

/-- Sorting by decreasing key restores a list whose keys decrease strictly from
any permutation of it. -/
theorem insertionSort_eq_of_perm {r : α → α → Prop} [DecidableRel r] {f : α → Nat}
    (hr : ∀ a b, r a b ↔ f b ≤ f a) {l sorted : List α} (hperm : l.Perm sorted)
    (hsorted : sorted.Pairwise fun a b => f b < f a) : l.insertionSort r = sorted := by
  have : Std.Total r := ⟨fun a b => by
    rw [hr, hr]
    exact Nat.le_total _ _⟩
  have : IsTrans α r := ⟨fun a b c hab hbc => by
    rw [hr] at hab hbc ⊢
    omega⟩
  have hpairwise : sorted.Pairwise r := hsorted.imp fun {a b} hlt => (hr a b).2 (Nat.le_of_lt hlt)
  have hdistinct : ∀ a ∈ sorted, ∀ b ∈ sorted, f a = f b → a = b := by
    intro a ha b hb heq
    have hmap : (sorted.map f).Nodup :=
      List.pairwise_map.2 (hsorted.imp fun hlt => (Nat.ne_of_lt hlt).symm)
    exact List.inj_on_of_nodup_map hmap ha hb heq
  have hsame := (List.perm_insertionSort r l).trans hperm
  apply hsame.eq_of_pairwise _ (List.pairwise_insertionSort r l) hpairwise
  intro a b ha hb hab hba
  rw [hr] at hab hba
  exact hdistinct a (hsame.mem_iff.1 ha) b hb (by omega)

end MacVnc.Lib.SerialNumber

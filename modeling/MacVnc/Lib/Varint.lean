import Mathlib.Data.List.Basic
import Mathlib.Data.Nat.Bitwise
/-!
# Numbers in groups of seven bits

A byte string that ends with the first byte below 128, and the number that the low
seven bits of its bytes spell, the least significant group first.
-/

namespace MacVnc.Lib.Varint

def sevenBits : List UInt8 → Nat
  | [] => 0
  | c :: rest => c.toNat % 128 + 128 * sevenBits rest

/-- Bytes that say they go on, and one that does not. -/
def Delimited : List UInt8 → Prop
  | [] => False
  | [c] => c.toNat < 128
  | c :: rest => 128 ≤ c.toNat ∧ Delimited rest

theorem delimited_cons {c : UInt8} {code : List UInt8} :
    Delimited (c :: code) ↔ code = [] ∧ c.toNat < 128 ∨ 128 ≤ c.toNat ∧ Delimited code := by
  cases code with
  | nil => simp [Delimited]
  | cons d rest => simp [Delimited]

theorem Delimited.ne_nil {code : List UInt8} (h : Delimited code) : code ≠ [] := by
  rintro rfl
  exact h.elim

theorem exists_delimited_cons {c : UInt8} {tail rest : List UInt8} {P : List UInt8 → Prop} :
    (∃ code, c :: tail = code ++ rest ∧ Delimited code ∧ P code) ↔
      (c.toNat < 128 ∧ tail = rest ∧ P [c]) ∨
        (128 ≤ c.toNat ∧ ∃ later, tail = later ++ rest ∧ Delimited later ∧ P (c :: later)) := by
  constructor
  · rintro ⟨code, hcode, hdelimited, hP⟩
    cases code with
    | nil => exact hdelimited.elim
    | cons d later =>
        rw [List.cons_append, List.cons.injEq] at hcode
        obtain ⟨rfl, htail⟩ := hcode
        rcases delimited_cons.1 hdelimited with ⟨rfl, hends⟩ | ⟨hmore, hlater⟩
        · exact Or.inl ⟨hends, htail, hP⟩
        · exact Or.inr ⟨hmore, later, htail, hlater, hP⟩
  · rintro (⟨hends, rfl, hP⟩ | ⟨hmore, later, rfl, hlater, hP⟩)
    · exact ⟨[c], rfl, hends, hP⟩
    · exact ⟨c :: later, rfl, delimited_cons.2 (Or.inr ⟨hmore, hlater⟩), hP⟩

theorem high_bit_eq_zero_iff (c : UInt8) : c &&& 128 = 0 ↔ c.toNat < 128 := by
  have hbit : (c &&& 128).toNat = (c.toNat.testBit 7).toNat * 2 ^ 7 := by
    rw [UInt8.toNat_and]
    exact Nat.and_two_pow c.toNat 7
  have hlt := c.toNat_lt
  rw [← UInt8.toNat_inj, hbit, Nat.testBit_eq_decide_div_mod_eq, UInt8.toNat_zero]
  by_cases hhigh : c.toNat / 2 ^ 7 % 2 = 1
  · rw [decide_eq_true hhigh]
    simp
    omega
  · rw [decide_eq_false hhigh]
    simp
    omega

/-- A byte adds its seven bits on top of the groups before it. -/
theorem or_group {v shift : Nat} (c : UInt8) (hv : v < 2 ^ shift) :
    v ||| (c.toNat &&& 127) <<< shift = v + 2 ^ shift * (c.toNat % 128) := by
  have hmod : c.toNat &&& 127 = c.toNat % 128 := Nat.and_two_pow_sub_one_eq_mod c.toNat 7
  rw [hmod, Nat.or_comm, ← Nat.shiftLeft_add_eq_or_of_lt hv, Nat.shiftLeft_eq, Nat.mul_comm,
    Nat.add_comm]

/-- The groups so far stay below the next one. -/
theorem add_group_lt {v shift : Nat} (c : UInt8) (hv : v < 2 ^ shift) :
    v + 2 ^ shift * (c.toNat % 128) < 2 ^ (shift + 7) := by
  have hlow : c.toNat % 128 ≤ 127 := Nat.le_of_lt_succ (Nat.mod_lt _ (by decide))
  have hle : 2 ^ shift * (c.toNat % 128) ≤ 2 ^ shift * 127 := Nat.mul_le_mul_left _ hlow
  rw [Nat.pow_add]
  omega

theorem add_sevenBits_cons (v shift : Nat) (c : UInt8) (rest : List UInt8) :
    v + 2 ^ shift * sevenBits (c :: rest) =
      v + 2 ^ shift * (c.toNat % 128) + 2 ^ (shift + 7) * sevenBits rest := by
  rw [sevenBits, Nat.mul_add, ← Nat.mul_assoc, Nat.pow_add, ← Nat.add_assoc]

end MacVnc.Lib.Varint

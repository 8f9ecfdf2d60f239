import MacVnc.Lib.Bytes
import Mathlib.Data.List.Nodup
import Mathlib.Data.List.Range
/-!
# Counter mode

A 128-bit block cipher in counter mode with a big-endian block counter that
starts at the initial counter block.  Initial counter blocks that leave their low
16 bits to the counter, and differ, never share a counter block between messages
of at most 2 ^ 20 bytes.
-/

namespace MacVnc.Lib.CounterMode

open MacVnc.Lib.Bytes

def counterBlock (iv : List UInt8) (j : Nat) : Nat := (ofBigEndian iv + j) % 256 ^ 16

def counterBlocks (iv : List UInt8) (length : Nat) : List Nat :=
  (List.range ((length + 15) / 16)).map (counterBlock iv)

/-- The keystream of a cipher that maps a counter block and a position to a byte. -/
def keystream (cipher : Nat → Nat → UInt8) (iv : List UInt8) (i : Nat) : UInt8 :=
  cipher (counterBlock iv (i / 16)) (i % 16)

def encrypt (cipher : Nat → Nat → UInt8) (iv bytes : List UInt8) : List UInt8 :=
  bytes.mapIdx fun i b => b ^^^ keystream cipher iv i

/-! ## Disjoint counters -/

/-- An initial counter block whose low 16 bits are left to the counter. -/
structure Slot (iv : List UInt8) : Prop where
  length : iv.length = 16
  low : ofBigEndian iv % 2 ^ 16 = 0

/-- Within its slot the counter does not wrap. -/
theorem Slot.counterBlock_eq {iv : List UInt8} (h : Slot iv) {j : Nat} (hj : j < 2 ^ 16) :
    counterBlock iv j = ofBigEndian iv + j := by
  have hbound := ofBigEndian_lt iv
  have hlow := h.low
  rw [h.length] at hbound
  apply Nat.mod_eq_of_lt
  omega

theorem Slot.nodup {iv : List UInt8} (h : Slot iv) {length : Nat} (hlength : length ≤ 2 ^ 20) :
    (counterBlocks iv length).Nodup := by
  apply List.Nodup.map_on _ List.nodup_range
  intro i hi j hj heq
  rw [List.mem_range] at hi hj
  rw [h.counterBlock_eq (by omega), h.counterBlock_eq (by omega)] at heq
  omega

theorem Slot.disjoint {iv iv' : List UInt8} (h : Slot iv) (h' : Slot iv')
    (hne : ofBigEndian iv ≠ ofBigEndian iv') {length length' : Nat} (hlength : length ≤ 2 ^ 20)
    (hlength' : length' ≤ 2 ^ 20) :
    List.Disjoint (counterBlocks iv length) (counterBlocks iv' length') := by
  intro block hblock hblock'
  obtain ⟨i, hi, hiv⟩ := List.mem_map.1 hblock
  obtain ⟨j, hj, hiv'⟩ := List.mem_map.1 hblock'
  rw [List.mem_range] at hi hj
  rw [h.counterBlock_eq (by omega)] at hiv
  rw [h'.counterBlock_eq (by omega)] at hiv'
  have hlow := h.low
  have hlow' := h'.low
  omega

/-- The counter blocks of messages in pairwise different slots are all distinct. -/
theorem nodup_flatMap {α : Type*} {messages : List α} {iv : α → List UInt8}
    {length : α → Nat} (hslot : ∀ m ∈ messages, Slot (iv m))
    (hlength : ∀ m ∈ messages, length m ≤ 2 ^ 20)
    (hdistinct : messages.Pairwise fun m m' => ofBigEndian (iv m) ≠ ofBigEndian (iv m')) :
    (messages.flatMap fun m => counterBlocks (iv m) (length m)).Nodup := by
  rw [List.nodup_flatMap]
  constructor
  · exact fun m hm => (hslot m hm).nodup (hlength m hm)
  · apply hdistinct.imp_of_mem
    intro m m' hm hm' hne
    exact (hslot m hm).disjoint (hslot m' hm') hne (hlength m hm) (hlength m' hm')

end MacVnc.Lib.CounterMode

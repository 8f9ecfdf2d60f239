import Mathlib.Data.List.Basic
import Mathlib.Tactic.Ring
import Mathlib.Tactic.Linarith
/-!
# Byte strings

Byte strings are lists of `UInt8`.  This module gives the fixed-width
big-endian encoding of a natural number, its decoder, and the cutting of a
list into fixed-size blocks.  It names nothing of a particular protocol, so
every wire format of the development shares it.
-/

namespace MacVnc.Lib.Bytes

/-! ## Big-endian integers -/

def toBigEndian : Nat → Nat → List UInt8
  | 0, _ => []
  | width + 1, n => UInt8.ofNat (n / 256 ^ width) :: toBigEndian width n

/-- The natural number that a byte string denotes, most significant byte first. -/
def ofBigEndian (bytes : List UInt8) : Nat :=
  bytes.foldl (fun acc b => acc * 256 + b.toNat) 0

@[simp] theorem length_toBigEndian (width n : Nat) :
    (toBigEndian width n).length = width := by
  induction width with
  | zero => rfl
  | succ width ih => simp [toBigEndian, ih]

private theorem foldl_bigEndian (bytes : List UInt8) (acc : Nat) :
    bytes.foldl (fun acc b => acc * 256 + b.toNat) acc =
      acc * 256 ^ bytes.length + ofBigEndian bytes := by
  induction bytes generalizing acc with
  | nil => simp [ofBigEndian]
  | cons b bytes ih =>
      rw [ofBigEndian, List.foldl_cons, List.foldl_cons, ih, ih (0 * 256 + b.toNat),
        List.length_cons]
      ring

@[simp] theorem ofBigEndian_nil : ofBigEndian [] = 0 := rfl

theorem ofBigEndian_cons (b : UInt8) (bytes : List UInt8) :
    ofBigEndian (b :: bytes) = b.toNat * 256 ^ bytes.length + ofBigEndian bytes := by
  rw [ofBigEndian, List.foldl_cons, foldl_bigEndian]
  simp

theorem ofBigEndian_append (first second : List UInt8) :
    ofBigEndian (first ++ second) =
      ofBigEndian first * 256 ^ second.length + ofBigEndian second := by
  rw [ofBigEndian, List.foldl_append, foldl_bigEndian]
  rfl

theorem ofBigEndian_lt (bytes : List UInt8) :
    ofBigEndian bytes < 256 ^ bytes.length := by
  induction bytes with
  | nil => simp
  | cons b bytes ih =>
      rw [ofBigEndian_cons, List.length_cons, pow_succ]
      have hb : b.toNat ≤ 255 := Nat.le_of_lt_succ b.toNat_lt
      have hmul : b.toNat * 256 ^ bytes.length ≤ 255 * 256 ^ bytes.length :=
        Nat.mul_le_mul_right _ hb
      omega

theorem ofBigEndian_toBigEndian_mod (width n : Nat) :
    ofBigEndian (toBigEndian width n) = n % 256 ^ width := by
  induction width with
  | zero => simp [toBigEndian, Nat.mod_one]
  | succ width ih =>
      rw [toBigEndian, ofBigEndian_cons, ih, length_toBigEndian]
      have hdigit : (UInt8.ofNat (n / 256 ^ width)).toNat = n / 256 ^ width % 256 := by
        simp
      rw [hdigit, pow_succ, Nat.mod_mul]
      ring

/-- Decoding inverts encoding on every value that fits the width. -/
theorem ofBigEndian_toBigEndian {width n : Nat} (h : n < 256 ^ width) :
    ofBigEndian (toBigEndian width n) = n := by
  rw [ofBigEndian_toBigEndian_mod, Nat.mod_eq_of_lt h]

/-- Byte strings of one length are told apart by their numbers. -/
theorem ofBigEndian_inj {first second : List UInt8} (hlength : first.length = second.length)
    (h : ofBigEndian first = ofBigEndian second) : first = second := by
  induction first generalizing second with
  | nil => exact (List.length_eq_zero_iff.1 hlength.symm).symm
  | cons a first ih =>
      cases second with
      | nil => cases hlength
      | cons b second =>
          have hrest : first.length = second.length := Nat.succ.inj hlength
          rw [ofBigEndian_cons, ofBigEndian_cons, hrest] at h
          have hfirst := ofBigEndian_lt first
          have hsecond := ofBigEndian_lt second
          rw [hrest] at hfirst
          have hdigit : a.toNat = b.toNat := by
            have hdiv := congrArg (· / 256 ^ second.length) h
            simpa [Nat.mul_comm _ (256 ^ second.length), Nat.mul_add_div, Nat.div_eq_of_lt,
              hfirst, hsecond] using hdiv
          rw [hdigit] at h
          rw [UInt8.toNat_inj.1 hdigit, ih hrest (Nat.add_left_cancel h)]

theorem toBigEndian_ofBigEndian (bytes : List UInt8) :
    toBigEndian bytes.length (ofBigEndian bytes) = bytes :=
  ofBigEndian_inj (length_toBigEndian _ _) (ofBigEndian_toBigEndian (ofBigEndian_lt bytes))

theorem drop_toBigEndian (first second n : Nat) :
    (toBigEndian (first + second) n).drop first = toBigEndian second n := by
  induction first with
  | zero => rw [Nat.zero_add, List.drop_zero]
  | succ first ih => rw [Nat.succ_add, toBigEndian, List.drop_succ_cons, ih]

def bytesBe (n : Nat) : List UInt8 :=
  if n < 256 then [UInt8.ofNat n] else bytesBe (n / 256) ++ [UInt8.ofNat (n % 256)]

theorem ofBigEndian_bytesBe (n : Nat) : ofBigEndian (bytesBe n) = n := by
  fun_induction bytesBe n with
  | case1 n hsmall =>
      rw [ofBigEndian_cons, UInt8.toNat_ofNat_of_lt' hsmall]
      simp
  | case2 n hlarge ih =>
      have hdigit : n % 256 < 256 := Nat.mod_lt _ (by decide)
      rw [ofBigEndian_append, ih, ofBigEndian_cons, UInt8.toNat_ofNat_of_lt' hdigit]
      simp
      omega

theorem length_bytesBe_le (n size : Nat) (h : n < 256 ^ size) (hsize : 0 < size) :
    (bytesBe n).length ≤ size := by
  induction size generalizing n with
  | zero => omega
  | succ size ih =>
      rw [bytesBe]
      split
      · exact Nat.succ_le_succ (Nat.zero_le _)
      · rename_i hlarge
        have hnext : n / 256 < 256 ^ size :=
          Nat.div_lt_of_lt_mul (by rwa [Nat.pow_succ, Nat.mul_comm] at h)
        have hpos : 0 < size := by
          rcases Nat.eq_zero_or_pos size with rfl | hpos
          · exact absurd h hlarge
          · exact hpos
        rw [List.length_append]
        exact Nat.succ_le_succ (ih _ hnext hpos)

/-! ## Fields of a buffer -/

/-- `buffer[off..off + bytes.len()].copy_from_slice(bytes)`. -/
def copyAt (off : Nat) (bytes buffer : List UInt8) : List UInt8 :=
  buffer.take off ++ bytes ++ buffer.drop (off + bytes.length)

theorem length_copyAt {off : Nat} {bytes buffer : List UInt8}
    (h : off + bytes.length ≤ buffer.length) :
    (copyAt off bytes buffer).length = buffer.length := by
  simp only [copyAt, List.length_append, List.length_take, List.length_drop]
  omega

theorem field_copyAt {off width : Nat} {bytes buffer : List UInt8} (h : off ≤ buffer.length)
    (hwidth : bytes.length = width) : ((copyAt off bytes buffer).drop off).take width = bytes := by
  have htake : (buffer.take off).length = off := by
    rw [List.length_take, Nat.min_eq_left h]
  rw [copyAt, List.append_assoc, List.drop_append_of_le_length (by omega),
    List.drop_eq_nil_of_le (by omega), List.nil_append, ← hwidth, List.take_left]

/-- A field in front of the copied bytes or behind them is unchanged. -/
theorem field_copyAt_of_disjoint {off at_ width : Nat} {bytes buffer : List UInt8}
    (h : off + bytes.length ≤ buffer.length)
    (hdisjoint : at_ + width ≤ off ∨ off + bytes.length ≤ at_) :
    ((copyAt off bytes buffer).drop at_).take width = (buffer.drop at_).take width := by
  have htake : (buffer.take off).length = off := by
    rw [List.length_take, Nat.min_eq_left (by omega)]
  rcases hdisjoint with hbefore | hbehind
  · rw [copyAt, List.append_assoc, List.drop_append_of_le_length (by omega),
      List.take_append_of_le_length (by rw [List.length_drop]; omega), List.drop_take,
      List.take_take, Nat.min_eq_left (by omega)]
  · have hfront : (buffer.take off ++ bytes).length = off + bytes.length := by
      rw [List.length_append, htake]
    rw [copyAt, List.drop_append, List.drop_eq_nil_of_le (by omega), List.nil_append, hfront,
      List.drop_drop, Nat.add_sub_cancel' hbehind]

theorem copyAt_copyAt {off : Nat} {first second buffer : List UInt8} (h : off ≤ buffer.length) :
    copyAt (off + first.length) second (copyAt off first buffer) =
      copyAt off (first ++ second) buffer := by
  have hfront : (buffer.take off ++ first).length = off + first.length := by
    rw [List.length_append, List.length_take, Nat.min_eq_left h]
  have hdrop : (buffer.take off ++ first ++ buffer.drop (off + first.length)).drop
      (off + first.length + second.length) = buffer.drop (off + (first ++ second).length) := by
    rw [← List.drop_drop, List.drop_left' hfront, List.drop_drop, List.length_append, Nat.add_assoc]
  simp only [copyAt]
  rw [hdrop, List.take_left' hfront, List.append_assoc (buffer.take off)]

/-! ## Fixed-size blocks -/

section Blocks

variable {α : Type*} [Inhabited α] {size : Nat}

/-- The first `count` blocks of `size` symbols of a list. -/
def blocks (size : Nat) : Nat → List α → List (Vector α size)
  | 0, _ => []
  | count + 1, l =>
      Vector.ofFn (fun i => l.getD i default) :: blocks size count (l.drop size)

def unblocks (bs : List (Vector α size)) : List α := bs.flatMap Vector.toList

omit [Inhabited α] in
@[simp] theorem unblocks_nil : unblocks ([] : List (Vector α size)) = [] := rfl

omit [Inhabited α] in
@[simp] theorem unblocks_cons (b : Vector α size) (bs : List (Vector α size)) :
    unblocks (b :: bs) = b.toList ++ unblocks bs := rfl

omit [Inhabited α] in
@[simp] theorem length_unblocks (bs : List (Vector α size)) :
    (unblocks bs).length = size * bs.length := by
  induction bs with
  | nil => simp
  | cons b bs ih =>
      simp [ih]
      ring

@[simp] theorem length_blocks (count : Nat) (l : List α) :
    (blocks size count l).length = count := by
  induction count generalizing l with
  | zero => rfl
  | succ count ih => simp [blocks, ih]

private theorem toList_ofFn_getD (l : List α) (h : size ≤ l.length) :
    (Vector.ofFn (fun i : Fin size => l.getD i default)).toList = l.take size := by
  apply List.ext_getElem
  · simp [h]
  · intro i hi _
    have hi' : i < size := by simpa using hi
    simp [List.getD_eq_getElem?_getD, List.getElem?_eq_getElem (by omega : i < l.length)]

/-- Cutting a long enough list into blocks loses no symbol of its first
`size * count`. -/
theorem unblocks_blocks (count : Nat) (l : List α) (h : size * count ≤ l.length) :
    unblocks (blocks size count l) = l.take (size * count) := by
  induction count generalizing l with
  | zero => simp [blocks]
  | succ count ih =>
      rw [Nat.mul_succ] at h
      rw [blocks, unblocks_cons, ih _ (by simp; omega), toList_ofFn_getD l (by omega),
        Nat.mul_succ, Nat.add_comm, List.take_add]

/-- The blocks of a concatenation of blocks are those blocks. -/
theorem blocks_unblocks (bs : List (Vector α size)) :
    blocks size bs.length (unblocks bs) = bs := by
  induction bs with
  | nil => rfl
  | cons b bs ih =>
      have hdrop : (b.toList ++ unblocks bs).drop size = unblocks bs := by
        rw [List.drop_append_of_le_length (by simp)]
        simp
      rw [unblocks_cons, List.length_cons, blocks, hdrop, ih]
      congr 1
      apply Vector.ext
      intro i hi
      simp [List.getD_eq_getElem?_getD, List.getElem?_append_left]

end Blocks

end MacVnc.Lib.Bytes

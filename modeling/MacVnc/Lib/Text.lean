import Mathlib.Data.List.Basic
import Mathlib.Data.List.TakeWhile
import Mathlib.Algebra.GroupWithZero.Nat
/-!
# Text

Strings as lists of characters, with the operations of the standard library
that look at their bytes, their case or their character classes.
-/

namespace MacVnc.Lib

abbrev Text := List Char

namespace Text

instance : LawfulBEq Text := List.instLawfulBEq

def fromUtf8 (bytes : List UInt8) : Option Text :=
  (String.fromUTF8? ⟨bytes.toArray⟩).map String.toList

def toUtf8 (text : Text) : List UInt8 := text.flatMap String.utf8EncodeChar

theorem fromUtf8_toUtf8 (text : Text) : fromUtf8 (toUtf8 text) = some text := by
  have hbytes : (⟨(toUtf8 text).toArray⟩ : ByteArray) = (String.ofList text).toByteArray := by
    rw [String.toByteArray_ofList, List.utf8Encode]
    apply ByteArray.ext
    simp [toUtf8]
  have hstring : String.fromUTF8? ⟨(toUtf8 text).toArray⟩ = some (String.ofList text) := by
    unfold String.fromUTF8?
    rw [dif_pos (hbytes ▸ (String.ofList text).isValidUTF8)]
    congr 1
    apply String.toByteArray_inj.1
    exact hbytes
  rw [fromUtf8, hstring, Option.map_some, String.toList_ofList]

def byteLength (text : Text) : Nat := (text.map Char.utf8Size).sum

theorem length_toUtf8 (text : Text) : (toUtf8 text).length = byteLength text := by
  simp [toUtf8, byteLength, List.length_flatMap]

/-- The general category Cc. -/
def isControl (c : Char) : Bool := c.val < 0x20 || (0x7f ≤ c.val && c.val < 0xa0)

/-- The property White_Space. -/
def isWhitespace (c : Char) : Bool :=
  (9 ≤ c.val && c.val ≤ 13) || (0x2000 ≤ c.val && c.val ≤ 0x200a) ||
    c.val ∈ [0x20, 0x85, 0xa0, 0x1680, 0x2028, 0x2029, 0x202f, 0x205f, 0x3000]

def isAscii (text : Text) : Bool := text.all fun c => c.val < 128

def toAsciiUppercase (c : Char) : Char := if 'a' ≤ c ∧ c ≤ 'z' then Char.ofNat (c.toNat - 32) else c

def toAsciiLowercase (c : Char) : Char := if 'A' ≤ c ∧ c ≤ 'Z' then Char.ofNat (c.toNat + 32) else c

def trimEnd (text : Text) : Text := (text.reverse.dropWhile isWhitespace).reverse

theorem exists_trimEnd (text : Text) :
    ∃ pad, text = trimEnd text ++ pad ∧ ∀ c ∈ pad, isWhitespace c = true := by
  refine ⟨(text.reverse.takeWhile isWhitespace).reverse, ?_, ?_⟩
  · unfold trimEnd
    rw [← List.reverse_append, List.takeWhile_append_dropWhile, List.reverse_reverse]
  · intro c hc
    exact List.mem_takeWhile_imp (List.mem_reverse.1 hc)

theorem trimEnd_append {text pad : Text} (hpad : ∀ c ∈ pad, isWhitespace c = true)
    (htext : ∀ c ∈ text, isWhitespace c = false) : trimEnd (text ++ pad) = text := by
  have hdropped : pad.reverse.dropWhile isWhitespace = [] :=
    List.dropWhile_eq_nil_iff.2 fun c hc => hpad c (List.mem_reverse.1 hc)
  have hkept : text.reverse.dropWhile isWhitespace = text.reverse := by
    cases hreverse : text.reverse with
    | nil => rfl
    | cons c rest =>
        have hc : c ∈ text := by
          rw [← List.mem_reverse, hreverse]
          exact List.mem_cons_self
        rw [List.dropWhile_cons, htext c hc, if_neg Bool.false_ne_true]
  unfold trimEnd
  rw [List.reverse_append, List.dropWhile_append, hdropped, List.isEmpty_nil, if_pos rfl, hkept,
    List.reverse_reverse]

theorem toAsciiUppercase_of_isWhitespace {c : Char} (h : isWhitespace c = true) :
    toAsciiUppercase c = c := by
  have hletters : ∀ n < 123, 97 ≤ n → isWhitespace (Char.ofNat n) = false := by decide
  unfold toAsciiUppercase
  rw [if_neg]
  rintro ⟨hlow, hhigh⟩
  rw [Char.le_def, UInt32.le_iff_toNat_le] at hlow hhigh
  have hletter := hletters c.toNat (Nat.lt_succ_of_le hhigh) hlow
  rw [Char.ofNat_toNat, h] at hletter
  cases hletter

end Text

end MacVnc.Lib

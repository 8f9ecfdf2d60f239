import MacVnc.Lib.Bytes
import MacVnc.Lib.Checked
/-!
# Fields in a buffer

A message of fixed layout is made by copying fields into a buffer, one after the other.
It has no value where a copy would leave the buffer.  A field is found in its place
unless a later one reaches into it, and what no field reaches is as it was.
-/

namespace MacVnc.Lib.Layout

open Bytes

structure Field where
  off : Nat
  bytes : List UInt8

namespace Field

def last (f : Field) : Nat := f.off + f.bytes.length

def Apart (f g : Field) : Prop := f.last ≤ g.off ∨ g.last ≤ f.off

end Field

/-- `buffer[off..off + n].copy_from_slice(bytes)` for each field. -/
def place (buffer : List UInt8) (fields : List Field) : Option (List UInt8) :=
  fields.foldlM (fun buffer f => Checked.copyInto buffer f.off f.last f.bytes) buffer

def region (message : List UInt8) (off width : Nat) : List UInt8 := (message.drop off).take width

variable {buffer message : List UInt8} {fields : List Field}

theorem place_cons {f : Field} (h : f.last ≤ buffer.length) (fields : List Field) :
    place buffer (f :: fields) = place (copyAt f.off f.bytes buffer) fields := by
  have hcopy : Checked.copyInto buffer f.off f.last f.bytes =
      some (copyAt f.off f.bytes buffer) := by
    refine if_pos ⟨Nat.le_add_right _ _, h, ?_⟩
    rw [Field.last, Nat.add_sub_cancel_left]
  rw [place, List.foldlM_cons, hcopy]
  rfl

theorem place_of_fits (h : ∀ f ∈ fields, f.last ≤ buffer.length) :
    ∃ message, place buffer fields = some message ∧ message.length = buffer.length := by
  induction fields generalizing buffer with
  | nil => exact ⟨buffer, rfl, rfl⟩
  | cons f fields ih =>
      obtain ⟨hf, hfields⟩ := List.forall_mem_cons.1 h
      have hlength := length_copyAt hf
      rw [place_cons hf]
      rw [← hlength] at hfields
      obtain ⟨message, hplace, hmessage⟩ := ih hfields
      exact ⟨message, hplace, hmessage.trans hlength⟩

theorem region_place (h : ∀ f ∈ fields, f.last ≤ buffer.length)
    (hplace : place buffer fields = some message) {off width : Nat}
    (hapart : ∀ f ∈ fields, off + width ≤ f.off ∨ f.last ≤ off) :
    region message off width = region buffer off width := by
  induction fields generalizing buffer with
  | nil =>
      cases hplace
      rfl
  | cons f fields ih =>
      obtain ⟨hf, hfields⟩ := List.forall_mem_cons.1 h
      obtain ⟨hfirst, hlater⟩ := List.forall_mem_cons.1 hapart
      rw [place_cons hf] at hplace
      rw [← length_copyAt hf] at hfields
      rw [ih hfields hplace hlater]
      exact field_copyAt_of_disjoint hf hfirst

/-- A field is in its place unless a later one reaches into it. -/
theorem region_field (i : Nat) {f : Field} (h : ∀ g ∈ fields, g.last ≤ buffer.length)
    (hplace : place buffer fields = some message) (hf : fields[i]? = some f)
    (hapart : ∀ g ∈ fields.drop (i + 1), f.Apart g) :
    region message f.off f.bytes.length = f.bytes := by
  induction fields generalizing buffer i with
  | nil => cases hf
  | cons g fields ih =>
      obtain ⟨hg, hfields⟩ := List.forall_mem_cons.1 h
      have hlength := length_copyAt hg
      rw [place_cons hg] at hplace
      rw [← hlength] at hfields
      cases i with
      | zero =>
          cases hf
          rw [region_place hfields hplace hapart]
          exact field_copyAt (Nat.le_trans (Nat.le_add_right _ _) hg) rfl
      | succ i => exact ih i hfields hplace hf hapart

end MacVnc.Lib.Layout

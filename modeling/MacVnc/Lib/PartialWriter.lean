import Mathlib.Data.List.Basic
import Mathlib.Algebra.GroupWithZero.Nat
/-!
# Partial writers

A nonblocking byte writer: a call may take any part of what it is offered, take
nothing, ask for another try or fail.  A sink remembers what its writer took
and how often it was called.  A queue of records with a part of the front
record already written holds the bytes that are still to be written, and
writing from its front drops exactly the bytes that were taken.
-/

namespace MacVnc.Lib.PartialWriter

/-- What a call of a writer returns. -/
inductive WriteResult where
  | ok (n : Nat)
  | wouldBlock
  | interrupted
  | failed
deriving DecidableEq, Repr

structure Writer (σ : Type*) where
  write : σ → List UInt8 → WriteResult × σ
  bounded : ∀ world buffer n, (write world buffer).1 = .ok n → n ≤ buffer.length

structure Sink (σ : Type*) where
  world : σ
  accepted : List UInt8
  calls : Nat

variable {σ : Type*}

namespace Sink

def new (world : σ) : Sink σ := { world, accepted := [], calls := 0 }

def write (writer : Writer σ) (s : Sink σ) (buffer : List UInt8) : WriteResult × Sink σ :=
  let (result, world) := writer.write s.world buffer
  let taken := match result with
    | .ok n => buffer.take n
    | _ => []
  (result, { world, accepted := s.accepted ++ taken, calls := s.calls + 1 })

theorem write_ok {writer : Writer σ} {s s' : Sink σ} {buffer : List UInt8} {n : Nat}
    (h : s.write writer buffer = (.ok n, s')) :
    n ≤ buffer.length ∧ s'.accepted = s.accepted ++ buffer.take n ∧ s'.calls = s.calls + 1 := by
  unfold write at h
  have hresult : (writer.write s.world buffer).1 = .ok n := congrArg Prod.fst h
  dsimp only at h
  rw [hresult, Prod.mk.injEq] at h
  obtain ⟨_, rfl⟩ := h
  exact ⟨writer.bounded _ _ _ hresult, rfl, rfl⟩

theorem write_refused {writer : Writer σ} {s s' : Sink σ} {buffer : List UInt8}
    {result : WriteResult} (h : s.write writer buffer = (result, s'))
    (hnone : ∀ n, result ≠ .ok n) :
    s'.accepted = s.accepted ∧ s'.calls = s.calls + 1 := by
  unfold write at h
  have hresult : (writer.write s.world buffer).1 = result := congrArg Prod.fst h
  dsimp only at h
  rw [hresult, Prod.mk.injEq] at h
  obtain ⟨_, rfl⟩ := h
  cases result with
  | ok n => exact absurd rfl (hnone n)
  | wouldBlock => exact ⟨List.append_nil _, rfl⟩
  | interrupted => exact ⟨List.append_nil _, rfl⟩
  | failed => exact ⟨List.append_nil _, rfl⟩

end Sink

/-! ## The bytes of a queue of records -/

section Records

variable {α : Type*}

/-- What is still to be written of a queue whose front record is written up to
`offset`. -/
def unwritten (records : List (List α)) (offset : Nat) : List α := records.flatten.drop offset

theorem unwritten_cons {record : List α} {rest : List (List α)} {offset : Nat}
    (h : offset ≤ record.length) :
    unwritten (record :: rest) offset = record.drop offset ++ rest.flatten := by
  rw [unwritten, List.flatten_cons, List.drop_append_of_le_length h]

theorem unwritten_append {records : List (List α)} {offset : Nat} (record : List α)
    (h : offset ≤ records.flatten.length) :
    unwritten (records ++ [record]) offset = unwritten records offset ++ record := by
  rw [unwritten, List.flatten_append, List.drop_append_of_le_length h, List.flatten_cons,
    List.flatten_nil, List.append_nil, unwritten]

theorem take_append_unwritten {record : List α} {rest : List (List α)} {offset n : Nat}
    (h : offset + n ≤ record.length) :
    (record.drop offset).take n ++ unwritten (record :: rest) (offset + n) =
      unwritten (record :: rest) offset := by
  rw [unwritten_cons h, unwritten_cons (by omega), ← List.append_assoc, ← List.drop_drop,
    List.take_append_drop]

/-- A record written to its end is no longer to be written. -/
theorem unwritten_full (record : List α) (rest : List (List α)) :
    unwritten (record :: rest) record.length = unwritten rest 0 := by
  rw [unwritten_cons (Nat.le_refl _), List.drop_length, List.nil_append, unwritten,
    List.drop_zero]

end Records

end MacVnc.Lib.PartialWriter

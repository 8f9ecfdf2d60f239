import Mathlib.Data.List.Induction
import Mathlib.Logic.Function.Basic
/-!
# Tables in which the last write wins

The table that a log of entries leaves when every entry goes to its slot and replaces
the one there, and what becomes of it when the entries are written again from a
sorted store instead of in the order of the log.
-/

namespace MacVnc.Lib.LastWrite

variable {α κ : Type*} [DecidableEq κ] (slot : α → κ)

def replay (log : List α) : κ → Option α :=
  log.foldl (fun table a => Function.update table (slot a) (some a)) fun _ => none

theorem replay_concat (log : List α) (a : α) :
    replay slot (log ++ [a]) = Function.update (replay slot log) (slot a) (some a) := by
  unfold replay
  rw [List.foldl_append]
  rfl

/-- The entry in force in a slot is the last one written there. -/
theorem replay_eq (log : List α) (k : κ) :
    replay slot log k = (log.filter fun a => slot a = k).getLast? := by
  induction log using List.reverseRecOn with
  | nil => rfl
  | append_singleton log a ih =>
      rw [replay_concat, List.filter_append]
      by_cases hslot : slot a = k
      · rw [← hslot, Function.update_self]
        simp
      · rw [Function.update_of_ne (Ne.symm hslot), ih]
        simp [hslot]

theorem mem_of_replay {log : List α} {k : κ} {a : α} (h : replay slot log k = some a) :
    a ∈ log ∧ slot a = k := by
  rw [replay_eq] at h
  simpa using List.mem_of_getLast? h

theorem replay_eq_none_iff {log : List α} {k : κ} :
    replay slot log k = none ↔ ∀ a ∈ log, slot a ≠ k := by
  rw [replay_eq, List.getLast?_eq_none_iff, List.filter_eq_nil_iff]
  simp

/-! ## Writing from a sorted store -/

variable [LE α] {written log : List α}

theorem le_of_replay (hrefl : ∀ a : α, a ≤ a)
    (hsorted : ∀ k, (written.filter fun a => slot a = k).Pairwise (· ≤ ·)) {k : κ} {a b : α}
    (h : replay slot written k = some b) (ha : a ∈ written) (hslot : slot a = k) : a ≤ b := by
  rw [replay_eq] at h
  obtain ⟨first, hsplit⟩ := List.getLast?_eq_some_iff.1 h
  have hmem : a ∈ first ++ [b] := by
    rw [← hsplit]
    exact List.mem_filter.2 ⟨ha, by simpa using hslot⟩
  rcases List.mem_append.1 hmem with hfirst | hlast
  · have hpairwise := hsorted k
    rw [hsplit] at hpairwise
    exact (List.pairwise_append.1 hpairwise).2.2 a hfirst b (List.mem_singleton_self b)
  · rw [List.mem_singleton.1 hlast]
    exact hrefl b

/-- The sorted store leaves the table of the log exactly if it has the last entry of each
slot, and nothing greater in that slot. -/
theorem replay_eq_replay_iff (hrefl : ∀ a : α, a ≤ a)
    (hantisymm : ∀ a b : α, a ≤ b → b ≤ a → a = b)
    (hsorted : ∀ k, (written.filter fun a => slot a = k).Pairwise (· ≤ ·)) :
    replay slot written = replay slot log ↔
      (∀ k a, replay slot log k = some a → a ∈ written) ∧
        ∀ a ∈ written, ∃ b, replay slot log (slot a) = some b ∧ a ≤ b := by
  constructor
  · intro hsame
    refine ⟨fun k a ha => (mem_of_replay slot (hsame ▸ ha)).1, fun a ha => ?_⟩
    cases hb : replay slot written (slot a) with
    | none => exact absurd rfl ((replay_eq_none_iff slot).1 hb a ha)
    | some b => exact ⟨b, by rw [← hsame, hb], le_of_replay slot hrefl hsorted hb ha rfl⟩
  · rintro ⟨hkept, hgreatest⟩
    funext k
    cases ha : replay slot log k with
    | none =>
        refine (replay_eq_none_iff slot).2 fun a hmem hslot => ?_
        obtain ⟨b, hb, _⟩ := hgreatest a hmem
        rw [hslot, ha] at hb
        cases hb
    | some a =>
        have hmem := hkept k a ha
        have hslot := (mem_of_replay slot ha).2
        cases hb : replay slot written k with
        | none => exact absurd hslot ((replay_eq_none_iff slot).1 hb a hmem)
        | some b =>
            have hin := mem_of_replay slot hb
            obtain ⟨c, hc, hle⟩ := hgreatest b hin.1
            rw [hin.2, ha] at hc
            cases hc
            rw [hantisymm b a hle (le_of_replay slot hrefl hsorted hb hmem hslot)]

end MacVnc.Lib.LastWrite

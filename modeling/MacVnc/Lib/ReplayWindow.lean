import Mathlib.Data.List.Basic
import Mathlib.Data.Finset.Basic
/-!
# Anti-replay windows

The sliding window of a datagram receiver: the highest index accepted and a
`w`-bit mask of the indices just below it.  `Tracks` says what the mask means,
and the two results are that the window admits exactly the indices that are
neither too old nor accepted before, and that recording an admitted index keeps
its meaning through shifts of any size.
-/

namespace MacVnc.Lib.ReplayWindow

structure Window (w : Nat) where
  highest : Nat
  seen : BitVec w
deriving DecidableEq

namespace Window

variable {w : Nat}

/-- An index is refused when it is too far below the highest one or its bit is
set. -/
def refuses (s : Window w) (index : Nat) : Bool :=
  decide (index ≤ s.highest) &&
    (decide (w ≤ s.highest - index) || s.seen.getLsbD (s.highest - index))

/-- The window of a source whose first index is `index`, before it is recorded. -/
def fresh (index : Nat) : Window w := { highest := index, seen := 0 }

def advance (s : Window w) (index : Nat) : Window w :=
  if s.highest < index then
    { highest := index
      seen := if w ≤ index - s.highest then 0 else s.seen <<< (index - s.highest) }
  else s

/-- Record an index: advance, then set its bit. -/
def record (s : Window w) (index : Nat) : Window w :=
  let s := s.advance index
  { s with seen := s.seen ||| (1#w <<< (s.highest - index)) }

/-- Bit `k` is set exactly when index `highest - k` is among the accepted ones,
none of which is above `highest`. -/
structure Tracks (s : Window w) (accepted : List Nat) : Prop where
  le_highest : ∀ index ∈ accepted, index ≤ s.highest
  bit : ∀ k < w, s.seen.getLsbD k = true ↔ ∃ index ∈ accepted, index + k = s.highest

theorem Tracks.congr {s : Window w} {accepted accepted' : List Nat} (h : s.Tracks accepted)
    (hmem : ∀ index, index ∈ accepted ↔ index ∈ accepted') : s.Tracks accepted' where
  le_highest index hindex := h.le_highest index ((hmem index).2 hindex)
  bit k hk := by
    rw [h.bit k hk]
    exact exists_congr fun index => and_congr_left' (hmem index)

/-- A window admits an index exactly when it is above the lower edge and was not
accepted before. -/
theorem Tracks.refuses_iff {s : Window w} {accepted : List Nat} (h : s.Tracks accepted)
    (hw : 0 < w) (index : Nat) :
    s.refuses index = false ↔ s.highest < index + w ∧ index ∉ accepted := by
  simp only [refuses, Bool.and_eq_false_iff, Bool.or_eq_false_iff, decide_eq_false_iff_not]
  by_cases hle : index ≤ s.highest
  · have hbit : s.highest - index < w →
        (s.seen.getLsbD (s.highest - index) = true ↔ index ∈ accepted) := by
      intro hage
      rw [h.bit _ hage]
      constructor
      · rintro ⟨i, hi, hsum⟩
        have : i = index := by omega
        rwa [← this]
      · intro hmem
        exact ⟨index, hmem, by omega⟩
    constructor
    · rintro (hnot | ⟨hage, hclear⟩)
      · exact absurd hle hnot
      · refine ⟨by omega, fun hmem => ?_⟩
        rw [(hbit (by omega)).2 hmem] at hclear
        exact Bool.noConfusion hclear
    · rintro ⟨hedge, hnew⟩
      refine Or.inr ⟨by omega, ?_⟩
      rw [← Bool.not_eq_true, hbit (by omega)]
      exact hnew
  · constructor
    · intro _
      exact ⟨by omega, fun hmem => hle (h.le_highest index hmem)⟩
    · intro _
      exact Or.inl hle

/-- An admitted index is above the lower edge, whatever the mask means. -/
theorem lt_of_refuses {s : Window w} {index : Nat} (hw : 0 < w)
    (h : s.refuses index = false) : s.highest < index + w := by
  unfold refuses at h
  by_cases hle : index ≤ s.highest
  · simp only [hle, decide_true, Bool.true_and, Bool.or_eq_false_iff,
      decide_eq_false_iff_not] at h
    omega
  · omega

theorem tracks_fresh (index : Nat) : (fresh index : Window w).Tracks [] where
  le_highest := by simp
  bit := by simp [fresh]

@[simp] theorem highest_advance (s : Window w) (index : Nat) :
    (s.advance index).highest = max s.highest index := by
  unfold advance
  by_cases hup : s.highest < index
  · rw [if_pos hup, Nat.max_eq_right hup.le]
  · rw [if_neg hup, Nat.max_eq_left (by omega)]

@[simp] theorem highest_record (s : Window w) (index : Nat) :
    (s.record index).highest = max s.highest index := by
  simp [record]

/-- Advancing keeps the meaning of every bit, through shifts below, at and above
the width. -/
theorem Tracks.advance {s : Window w} {accepted : List Nat} (h : s.Tracks accepted)
    (index : Nat) : (s.advance index).Tracks accepted := by
  constructor
  · intro i hi
    have := h.le_highest i hi
    rw [highest_advance]
    omega
  · intro k hk
    unfold Window.advance
    by_cases hup : s.highest < index
    · rw [if_pos hup]
      by_cases hfar : w ≤ index - s.highest
      · -- every accepted index has left the window
        simp only [if_pos hfar, BitVec.ofNat_eq_ofNat, BitVec.getLsbD_zero,
          Bool.false_eq_true, false_iff, not_exists, not_and]
        intro i hi hsum
        have := h.le_highest i hi
        omega
      · simp only [if_neg hfar, BitVec.getLsbD_shiftLeft, hk, decide_true, Bool.true_and,
          Bool.and_eq_true, Bool.not_eq_true', decide_eq_false_iff_not, Nat.not_lt]
        constructor
        · rintro ⟨hshift, hbit⟩
          obtain ⟨i, hi, hsum⟩ := (h.bit _ (by omega)).1 hbit
          exact ⟨i, hi, by omega⟩
        · rintro ⟨i, hi, hsum⟩
          have hle := h.le_highest i hi
          refine ⟨by omega, (h.bit _ (by omega)).2 ⟨i, hi, by omega⟩⟩
    · rw [if_neg hup]
      exact h.bit k hk

theorem Tracks.record {s : Window w} {accepted : List Nat} (h : s.Tracks accepted)
    (index : Nat) : (s.record index).Tracks (index :: accepted) := by
  have hadv := h.advance index
  have hhigh := s.highest_advance index
  constructor
  · intro i hi
    rw [highest_record]
    rcases List.mem_cons.1 hi with rfl | hi
    · omega
    · have := h.le_highest i hi
      omega
  · intro k hk
    have hset : (1#w <<< ((s.advance index).highest - index)).getLsbD k = true ↔
        index + k = (s.advance index).highest := by
      simp only [BitVec.getLsbD_shiftLeft, BitVec.getLsbD_one, hk, decide_true, Bool.true_and,
        Bool.and_eq_true, Bool.not_eq_true', decide_eq_false_iff_not, decide_eq_true_eq]
      omega
    simp only [Window.record, BitVec.getLsbD_or, Bool.or_eq_true, hset, List.mem_cons,
      exists_eq_or_imp]
    rw [hadv.bit k hk, or_comm]

end Window

end MacVnc.Lib.ReplayWindow

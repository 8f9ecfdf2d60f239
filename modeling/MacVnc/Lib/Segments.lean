import Mathlib.Data.List.Basic
/-!
# Words cut into arbitrary segments

A stream carries a list of words one after the other and is received in
segments whose borders ignore the words.  `completed words n` counts the
leading words whose last symbol is among the first `n` symbols received: it is
what a correct reassembler has returned at that point.
-/

namespace MacVnc.Lib.Segments

variable {α : Type*}

/-- How many leading words lie wholly within the first `n` symbols of their
concatenation. -/
def completed : List (List α) → Nat → Nat
  | [], _ => 0
  | word :: words, n =>
      if word.length ≤ n then completed words (n - word.length) + 1 else 0

@[simp] theorem completed_nil (n : Nat) : completed ([] : List (List α)) n = 0 := rfl

theorem completed_cons_of_le {word : List α} {words : List (List α)} {n : Nat}
    (h : word.length ≤ n) :
    completed (word :: words) n = completed words (n - word.length) + 1 := by
  rw [completed, if_pos h]

theorem completed_cons_of_lt {word : List α} {words : List (List α)} {n : Nat}
    (h : n < word.length) : completed (word :: words) n = 0 := by
  rw [completed, if_neg (by omega)]

theorem length_take_completed (words : List (List α)) (n : Nat) :
    ((words.take (completed words n)).flatten).length ≤ n := by
  induction words generalizing n with
  | nil => simp
  | cons word words ih =>
      by_cases hword : word.length ≤ n
      · have := ih (n - word.length)
        rw [completed_cons_of_le hword, List.take_succ_cons, List.flatten_cons,
          List.length_append]
        omega
      · rw [completed_cons_of_lt (by omega)]
        simp

/-- Words that are wholly received stay counted, and the rest is counted on
what lies behind them. -/
theorem completed_append {front words : List (List α)} {n : Nat}
    (h : front.flatten.length ≤ n) :
    completed (front ++ words) n =
      front.length + completed words (n - front.flatten.length) := by
  induction front generalizing n with
  | nil => simp
  | cons word front ih =>
      rw [List.flatten_cons, List.length_append] at h
      rw [List.cons_append, completed_cons_of_le (by omega), ih (by omega),
        List.flatten_cons, List.length_append, List.length_cons, Nat.sub_sub]
      omega

/-- Once the completed words are taken away, what is left completes no word. -/
theorem completed_drop (words : List (List α)) (n : Nat) :
    completed (words.drop (completed words n))
      (n - ((words.take (completed words n)).flatten).length) = 0 := by
  induction words generalizing n with
  | nil => rfl
  | cons word words ih =>
      by_cases hword : word.length ≤ n
      · have := ih (n - word.length)
        rw [completed_cons_of_le hword, List.take_succ_cons, List.drop_succ_cons,
          List.flatten_cons, List.length_append, ← Nat.sub_sub]
        exact this
      · have hzero : completed (word :: words) n = 0 := completed_cons_of_lt (by omega)
        rw [hzero]
        simpa using hzero

/-- A word not yet received wholly keeps every later one from being counted. -/
theorem completed_eq_zero_iff {word : List α} {words : List (List α)} {n : Nat} :
    completed (word :: words) n = 0 ↔ n < word.length := by
  rw [completed]
  split <;> omega

/-- Queueing one more word completes nothing. -/
theorem completed_snoc_eq_zero {words : List (List α)} {word : List α} {n : Nat}
    (hzero : completed words n = 0) (hn : n ≤ words.flatten.length)
    (hword : word ≠ []) : completed (words ++ [word]) n = 0 := by
  cases words with
  | nil =>
      have hpos := List.length_pos_of_ne_nil hword
      simp only [List.flatten_nil, List.length_nil] at hn
      exact completed_eq_zero_iff.2 (by omega)
  | cons head words =>
      exact completed_eq_zero_iff.2 (completed_eq_zero_iff.1 hzero)

end MacVnc.Lib.Segments

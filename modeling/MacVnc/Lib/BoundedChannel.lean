import Mathlib.Data.List.ReduceOption
import Mathlib.Algebra.BigOperators.Group.List.Basic
import Mathlib.Algebra.GroupWithZero.Nat
/-!
# Bounded channels

A channel of bounded capacity whose sender never waits: an item that does not
fit is refused.  The channel remembers what was taken from it and what it
refused, so that the items it accepted are those taken and those still queued.
-/

namespace MacVnc.Lib.BoundedChannel

structure Channel (α : Type*) where
  queue : List α
  taken : List α
  refused : List α
deriving DecidableEq

namespace Channel

variable {α : Type*}

def empty : Channel α := { queue := [], taken := [], refused := [] }

def accepted (c : Channel α) : List α := c.taken ++ c.queue

def offer (capacity : Nat) (c : Channel α) (x : α) : Channel α :=
  if c.queue.length < capacity then { c with queue := c.queue ++ [x] }
  else { c with refused := c.refused ++ [x] }

def offerAll (capacity : Nat) (c : Channel α) (xs : List α) : Channel α :=
  xs.foldl (offer capacity) c

def take (n : Nat) (c : Channel α) : Channel α :=
  { c with queue := c.queue.drop n, taken := c.taken ++ c.queue.take n }

@[simp] theorem accepted_take (n : Nat) (c : Channel α) : (c.take n).accepted = c.accepted := by
  simp [accepted, take]

@[simp] theorem refused_take (n : Nat) (c : Channel α) : (c.take n).refused = c.refused := rfl

theorem offer_of_room {capacity : Nat} {c : Channel α} (h : c.queue.length < capacity) (x : α) :
    c.offer capacity x = { c with queue := c.queue ++ [x] } := if_pos h

theorem offer_of_full {capacity : Nat} {c : Channel α} (h : capacity ≤ c.queue.length) (x : α) :
    c.offer capacity x = { c with refused := c.refused ++ [x] } := if_neg (by omega)

/-- Nothing that was refused is forgotten. -/
theorem refused_prefix_offer (capacity : Nat) (c : Channel α) (x : α) :
    c.refused <+: (c.offer capacity x).refused := by
  unfold offer
  split
  · exact List.prefix_refl c.refused
  · exact List.prefix_append c.refused [x]

theorem refused_prefix_offerAll (capacity : Nat) (c : Channel α) (xs : List α) :
    c.refused <+: (c.offerAll capacity xs).refused := by
  induction xs generalizing c with
  | nil => exact List.prefix_refl _
  | cons x rest ih => exact (refused_prefix_offer capacity c x).trans (ih (c.offer capacity x))

/-- Items that fit are queued in order. -/
theorem offerAll_of_room {capacity : Nat} {c : Channel α} {xs : List α}
    (h : c.queue.length + xs.length ≤ capacity) :
    c.offerAll capacity xs = { c with queue := c.queue ++ xs } := by
  induction xs generalizing c with
  | nil => simp [offerAll]
  | cons x rest ih =>
      rw [List.length_cons] at h
      have hrest : (c.offer capacity x).offerAll capacity rest = _ := ih (by
        rw [offer_of_room (by omega)]
        simp
        omega)
      show (c.offer capacity x).offerAll capacity rest = _
      rw [hrest, offer_of_room (by omega)]
      simp

/-- Nothing is refused exactly when everything fits. -/
theorem refused_offerAll_iff {capacity : Nat} {c : Channel α} {xs : List α} :
    (c.offerAll capacity xs).refused = c.refused ↔
      xs = [] ∨ c.queue.length + xs.length ≤ capacity := by
  constructor
  · intro hsame
    induction xs generalizing c with
    | nil => exact Or.inl rfl
    | cons x rest ih =>
        refine Or.inr ?_
        have hlater := refused_prefix_offerAll capacity (c.offer capacity x) rest
        rw [show (c.offer capacity x).offerAll capacity rest =
            c.offerAll capacity (x :: rest) from rfl,
          hsame] at hlater
        by_cases hroom : c.queue.length < capacity
        · have hfirst : (c.offer capacity x).refused = c.refused := by
            rw [offer_of_room hroom]
          rcases ih (hsame.trans hfirst.symm) with rfl | hfits
          · rw [List.length_singleton]
            omega
          · rw [offer_of_room hroom] at hfits
            simp at hfits
            rw [List.length_cons]
            omega
        · rw [offer_of_full (by omega)] at hlater
          have hlen := hlater.length_le
          rw [List.length_append, List.length_singleton] at hlen
          omega
  · rintro (rfl | hfits)
    · rfl
    · rw [offerAll_of_room hfits]

theorem accepted_offerAll {capacity : Nat} {c : Channel α} {xs : List α}
    (h : (c.offerAll capacity xs).refused = c.refused) :
    (c.offerAll capacity xs).accepted = c.accepted ++ xs := by
  rcases refused_offerAll_iff.1 h with rfl | hfits
  · exact (List.append_nil _).symm
  · rw [offerAll_of_room hfits, accepted, accepted, List.append_assoc]

end Channel

/-! ## Two parties -/

/-- In turns that offer so many items each, or take all there are, no more is offered between
two takings than the channel holds. -/
def Fits (capacity queued : Nat) (turns : List (Option Nat)) : Prop :=
  ∀ before burst after, turns = before ++ burst ++ after → none ∉ burst →
    (if none ∈ before then 0 else queued) + burst.reduceOption.sum ≤ capacity

theorem fits_nil {capacity queued : Nat} (h : queued ≤ capacity) : Fits capacity queued [] := by
  intro before burst after hsplit _
  obtain ⟨rfl, rfl, -⟩ : before = [] ∧ burst = [] ∧ after = [] := by
    simpa using hsplit.symm
  simpa using h

theorem fits_offer {capacity queued n : Nat} {turns : List (Option Nat)} :
    Fits capacity queued (some n :: turns) ↔
      queued + n ≤ capacity ∧ Fits capacity (queued + n) turns := by
  constructor
  · intro h
    refine ⟨?_, fun before burst after hsplit hburst => ?_⟩
    · have hfirst := h [] [some n] turns rfl (by simp)
      simpa [List.reduceOption] using hfirst
    · by_cases hbefore : none ∈ before
      · have hlater := h (some n :: before) burst after (by rw [hsplit]; rfl) hburst
        rw [if_pos (List.mem_cons_of_mem _ hbefore)] at hlater
        rw [if_pos hbefore]
        exact hlater
      · have hwhole := h [] (some n :: before ++ burst) after (by rw [hsplit]; simp) (by
          simp [hbefore, hburst])
        rw [if_neg List.not_mem_nil, List.cons_append, List.reduceOption_cons_of_some,
          List.reduceOption_append, List.sum_cons, List.sum_append] at hwhole
        rw [if_neg hbefore]
        omega
  · rintro ⟨hfirst, h⟩ before burst after hsplit hburst
    cases before with
    | nil =>
        cases burst with
        | nil =>
            simp [List.reduceOption]
            omega
        | cons turn burst =>
            cases hsplit
            have hrest := h [] burst after rfl fun hin => hburst (List.mem_cons_of_mem _ hin)
            rw [if_neg List.not_mem_nil] at hrest ⊢
            rw [List.reduceOption_cons_of_some, List.sum_cons]
            omega
    | cons turn before =>
        cases hsplit
        have hrest := h before burst after rfl hburst
        by_cases hbefore : none ∈ before
        · rw [if_pos hbefore] at hrest
          rw [if_pos (List.mem_cons_of_mem _ hbefore)]
          exact hrest
        · rw [if_neg hbefore] at hrest
          rw [if_neg (by simp [hbefore])]
          omega

theorem fits_take {capacity queued : Nat} {turns : List (Option Nat)} (h : queued ≤ capacity) :
    Fits capacity queued (none :: turns) ↔ Fits capacity 0 turns := by
  constructor
  · intro hfits before burst after hsplit hburst
    have hlater := hfits (none :: before) burst after (by rw [hsplit]; rfl) hburst
    rw [if_pos List.mem_cons_self] at hlater
    rw [ite_self]
    exact hlater
  · intro hfits before burst after hsplit hburst
    cases before with
    | nil =>
        cases burst with
        | nil =>
            simp [List.reduceOption]
            omega
        | cons turn burst =>
            cases hsplit
            exact absurd List.mem_cons_self hburst
    | cons turn before =>
        cases hsplit
        have hrest := hfits before burst after rfl hburst
        rw [ite_self] at hrest
        rw [if_pos List.mem_cons_self]
        exact hrest

end MacVnc.Lib.BoundedChannel

import Mathlib.Data.List.Chain
import Mathlib.Data.List.GetD
/-!
# Coalesced updates

A value is reported as it changes and passed on in updates.  The reports since the
last update make one update, with the latest of them; there is none while that is the
value passed on before, and none while the limiter is not ready again.
-/

namespace MacVnc.Lib.Coalescing

variable {α τ : Type*}

/-- The value reported last, the one passed on last, and when that was. -/
structure Follower (α τ : Type*) where
  reported : α
  passedOn : α
  last : Option τ

inductive Call (α τ : Type*) where
  | report (a : α)
  | ask (now : τ)

namespace Follower

def start (a : α) : Follower α τ := { reported := a, passedOn := a, last := none }

def Settled (f : Follower α τ) : Prop := f.reported = f.passedOn

/-- The limiter allows an update. -/
def Open (ready : τ → τ → Prop) (f : Follower α τ) (now : τ) : Prop := ∀ t ∈ f.last, ready t now

variable (ready : τ → τ → Prop)

def Due (f : Follower α τ) (now : τ) : Prop := ¬ f.Settled ∧ f.Open ready now

variable [DecidableEq α] [DecidableRel ready]

instance (f : Follower α τ) : Decidable f.Settled :=
  inferInstanceAs (Decidable (f.reported = f.passedOn))

instance (f : Follower α τ) (now : τ) : Decidable (f.Due ready now) :=
  inferInstanceAs (Decidable (¬ f.Settled ∧ ∀ t ∈ f.last, ready t now))

def step (f : Follower α τ) : Call α τ → Follower α τ
  | .report a => { f with reported := a }
  | .ask now => if f.Due ready now then { f with passedOn := f.reported, last := some now } else f

def run (f : Follower α τ) (calls : List (Call α τ)) : Follower α τ := calls.foldl (step ready) f

def updates (f : Follower α τ) : List (Call α τ) → List τ
  | [] => []
  | .report a :: rest => updates (f.step ready (.report a)) rest
  | .ask now :: rest =>
      if f.Due ready now then now :: updates (f.step ready (.ask now)) rest
      else updates (f.step ready (.ask now)) rest

end Follower

def reports (calls : List (Call α τ)) : List α :=
  calls.filterMap fun
    | .report a => some a
    | .ask _ => none

@[simp] theorem reports_report (a : α) (rest : List (Call α τ)) :
    reports (.report a :: rest) = a :: reports rest := rfl

@[simp] theorem reports_ask (now : τ) (rest : List (Call α τ)) :
    reports (.ask now :: rest) = reports rest := rfl

namespace Follower

variable {ready : τ → τ → Prop} [DecidableEq α] [DecidableRel ready]
variable {f : Follower α τ} {calls : List (Call α τ)}

theorem step_due {now : τ} (h : f.Due ready now) :
    f.step ready (.ask now) = { f with passedOn := f.reported, last := some now } := if_pos h

theorem step_not_due {now : τ} (h : ¬ f.Due ready now) : f.step ready (.ask now) = f := if_neg h

theorem updates_due {now : τ} (h : f.Due ready now) (rest : List (Call α τ)) :
    f.updates ready (.ask now :: rest) =
      now :: updates ready { f with passedOn := f.reported, last := some now } rest := by
  rw [updates, if_pos h, step_due h]

theorem updates_not_due {now : τ} (h : ¬ f.Due ready now) (rest : List (Call α τ)) :
    f.updates ready (.ask now :: rest) = f.updates ready rest := by
  rw [updates, if_neg h, step_not_due h]

theorem run_due {now : τ} (h : f.Due ready now) (rest : List (Call α τ)) :
    f.run ready (.ask now :: rest) =
      run ready { f with passedOn := f.reported, last := some now } rest := by
  rw [run, List.foldl_cons, step_due h]
  rfl

theorem run_not_due {now : τ} (h : ¬ f.Due ready now) (rest : List (Call α τ)) :
    f.run ready (.ask now :: rest) = f.run ready rest := by
  rw [run, List.foldl_cons, step_not_due h]
  rfl

theorem run_append (f : Follower α τ) (calls later : List (Call α τ)) :
    f.run ready (calls ++ later) = (f.run ready calls).run ready later :=
  List.foldl_append

theorem updates_append (f : Follower α τ) (calls later : List (Call α τ)) :
    f.updates ready (calls ++ later) =
      f.updates ready calls ++ (f.run ready calls).updates ready later := by
  induction calls generalizing f with
  | nil => rfl
  | cons call rest ih =>
      cases call with
      | report a => exact ih _
      | ask now =>
          by_cases hdue : f.Due ready now
          · rw [List.cons_append, updates_due hdue, updates_due hdue, run_due hdue, ih]
            rfl
          · rw [List.cons_append, updates_not_due hdue, updates_not_due hdue, run_not_due hdue, ih]

/-! ## What a run leaves -/

theorem reported_ask (f : Follower α τ) (now : τ) :
    (f.step ready (.ask now)).reported = f.reported := by
  by_cases hdue : f.Due ready now
  · rw [step_due hdue]
  · rw [step_not_due hdue]

theorem reported_run (f : Follower α τ) (calls : List (Call α τ)) :
    (f.run ready calls).reported = (reports calls).getLast?.getD f.reported := by
  induction calls generalizing f with
  | nil => rfl
  | cons call rest ih =>
      show ((f.step ready call).run ready rest).reported = _
      rw [ih]
      cases call with
      | report a =>
          rw [reports_report, List.getLast?_cons]
          rfl
      | ask now =>
          rw [reports_ask, reported_ask]

theorem last_run (f : Follower α τ) (calls : List (Call α τ)) :
    (f.run ready calls).last = (f.updates ready calls).getLast?.or f.last := by
  induction calls generalizing f with
  | nil => rfl
  | cons call rest ih =>
      show ((f.step ready call).run ready rest).last = _
      rw [ih]
      cases call with
      | report a => rfl
      | ask now =>
          by_cases hdue : f.Due ready now
          · rw [step_due hdue, updates_due hdue, List.getLast?_cons]
            cases (updates ready _ rest).getLast? <;> rfl
          · rw [step_not_due hdue, updates_not_due hdue]

theorem passedOn_run (h : f.updates ready calls = []) :
    (f.run ready calls).passedOn = f.passedOn := by
  induction calls generalizing f with
  | nil => rfl
  | cons call rest ih =>
      cases call with
      | report a => exact ih h
      | ask now =>
          by_cases hdue : f.Due ready now
          · rw [updates_due hdue] at h
            cases h
          · rw [updates_not_due hdue] at h
            rw [run_not_due hdue]
            exact ih h

theorem settled_step {now : τ} (h : f.Open ready now) : (f.step ready (.ask now)).Settled := by
  by_cases hdue : f.Due ready now
  · rw [step_due hdue]
    rfl
  · rw [step_not_due hdue]
    by_contra hnot
    exact hdue ⟨hnot, h⟩

/-! ## The updates of a run -/

/-- Each update comes when the limiter is ready after the one before. -/
theorem isChain_updates (f : Follower α τ) (calls : List (Call α τ)) :
    List.IsChain ready (f.last.toList ++ f.updates ready calls) := by
  induction calls generalizing f with
  | nil =>
      cases hlast : f.last with
      | none => exact .nil
      | some t => exact .singleton t
  | cons call rest ih =>
      cases call with
      | report a => exact ih { f with reported := a }
      | ask now =>
          by_cases hdue : f.Due ready now
          · rw [updates_due hdue]
            have hrest := ih { f with passedOn := f.reported, last := some now }
            cases hlast : f.last with
            | none => exact hrest
            | some t => exact .cons_cons (hdue.2 t hlast) hrest
          · rw [updates_not_due hdue]
            exact ih f

theorem pairwise_updates (htrans : ∀ a b c, ready a b → ready b c → ready a c)
    (f : Follower α τ) (calls : List (Call α τ)) : (f.updates ready calls).Pairwise ready := by
  have htrans' : Trans ready ready ready := ⟨fun hab hbc => htrans _ _ _ hab hbc⟩
  exact List.isChain_iff_pairwise.1 (isChain_updates f calls).right_of_append

/-- While only the value passed on is reported, nothing happens. -/
theorem Settled.run (ready : τ → τ → Prop) [DecidableRel ready] (h : f.Settled)
    (hsame : ∀ a ∈ reports calls, a = f.passedOn) :
    f.run ready calls = f ∧ f.updates ready calls = [] := by
  induction calls with
  | nil => exact ⟨rfl, rfl⟩
  | cons call rest ih =>
      cases call with
      | report a =>
          obtain ⟨ha, hrest⟩ := List.forall_mem_cons.1 hsame
          have hstep : f.step ready (.report a) = f := by
            rw [ha, ← h]
            rfl
          rw [Follower.run, List.foldl_cons, updates, hstep]
          exact ih hrest
      | ask now =>
          have hdue : ¬ f.Due ready now := fun hdue => hdue.1 h
          rw [run_not_due hdue, updates_not_due hdue]
          exact ih hsame

theorem length_updates_le_one (hsame : ∀ a ∈ reports calls, a = f.reported) :
    (f.updates ready calls).length ≤ 1 := by
  induction calls generalizing f with
  | nil => exact Nat.zero_le 1
  | cons call rest ih =>
      cases call with
      | report a =>
          obtain ⟨ha, hrest⟩ := List.forall_mem_cons.1 hsame
          apply ih
          rw [ha]
          exact hrest
      | ask now =>
          rw [reports_ask] at hsame
          by_cases hdue : f.Due ready now
          · rw [updates_due hdue]
            have hsettled : Settled { f with passedOn := f.reported, last := some now } := rfl
            rw [List.length_cons, (hsettled.run ready hsame).2]
            exact Nat.le_refl 1
          · rw [updates_not_due hdue]
            exact ih hsame

/-- A value that is taken back before it is passed on makes no update. -/
theorem updates_reverted {middle later : List (Call α τ)} (h : f.updates ready middle = [])
    (hsame : ∀ a ∈ reports later, a = f.passedOn) :
    f.updates ready (middle ++ .report f.passedOn :: later) = [] := by
  have hpassed := passedOn_run h
  rw [updates_append, h, List.nil_append, updates]
  have hsettled : ((f.run ready middle).step ready (.report f.passedOn)).Settled := hpassed.symm
  refine (hsettled.run ready ?_).2
  intro a ha
  rw [hsame a ha]
  exact hpassed.symm

end Follower

end MacVnc.Lib.Coalescing

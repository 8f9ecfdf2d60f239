import Mathlib.Data.List.Basic
/-!
# Stateful computations

Computations that change a state, may fail with an error, and have no outcome where
the program would stop.  A triple says that there is one: from a state with the
precondition the computation ends, in a state with the postcondition or, after an
error, with the exceptional one.
-/

namespace MacVnc.Lib.Stateful

universe u

/-- The state after an error is kept; `none` is a stop. -/
abbrev Computation (ε σ α : Type u) : Type u := ExceptT ε (StateT σ Option) α

variable {ε ε' σ ρ α β : Type u}

def outcome (m : Computation ε σ α) (s : σ) : Option (Except ε α × σ) := m.run.run s

def ofOutcome (f : σ → Option (Except ε α × σ)) : Computation ε σ α := ExceptT.mk f

/-- A value that is missing where the program would stop. -/
def checked (x : Option α) : Computation ε σ α := ofOutcome fun s => x.map fun a => (.ok a, s)

def onPart (part : σ → ρ) (put : σ → ρ → σ) (wrap : ε' → ε)
    (f : ρ → Option (Except ε' α × ρ)) : Computation ε σ α :=
  ofOutcome fun s => (f (part s)).map fun (result, r) => (result.mapError wrap, put s r)

def ensure (p : σ → Prop) [DecidablePred p] (e : ε) : Computation ε σ PUnit :=
  ofOutcome fun s => some (if p s then .ok ⟨⟩ else .error e, s)

/-- The result of a computation, whether it failed or not. -/
def attempt (m : Computation ε σ α) : Computation ε σ (Except ε α) :=
  ofOutcome fun s => (outcome m s).map fun (result, s) => (.ok result, s)

/-- What holds of an ending: `Q` with a value, `E` after an error. -/
def Ends (Q : α → σ → Prop) (E : σ → Prop) : Except ε α × σ → Prop
  | (.ok a, s) => Q a s
  | (.error _, s) => E s

def Triple (P : σ → Prop) (m : Computation ε σ α) (Q : α → σ → Prop) (E : σ → Prop) : Prop :=
  ∀ s, P s → ∃ ending, outcome m s = some ending ∧ Ends Q E ending

theorem outcome_bind_ok {m : Computation ε σ α} {f : α → Computation ε σ β} {s s' : σ} {a : α}
    (h : outcome m s = some (.ok a, s')) : outcome (m >>= f) s = outcome (f a) s' := by
  show (m.run.run s).bind _ = _
  rw [show m.run.run s = some (.ok a, s') from h]
  rfl

theorem outcome_bind_error {m : Computation ε σ α} (f : α → Computation ε σ β) {s s' : σ} {e : ε}
    (h : outcome m s = some (.error e, s')) : outcome (m >>= f) s = some (.error e, s') := by
  show (m.run.run s).bind _ = _
  rw [show m.run.run s = some (.error e, s') from h]
  rfl

namespace Triple

variable {P P' : σ → Prop} {Q : α → σ → Prop} {R : β → σ → Prop} {E : σ → Prop}
  {m : Computation ε σ α}

theorem pre (h : Triple P m Q E) (hpre : ∀ s, P' s → P s) : Triple P' m Q E :=
  fun s hs => h s (hpre s hs)

theorem bind {f : α → Computation ε σ β} (hm : Triple P m Q E)
    (hf : ∀ a, Triple (Q a) (f a) R E) : Triple P (m >>= f) R E := by
  intro s hs
  obtain ⟨⟨result, s'⟩, hrun, hends⟩ := hm s hs
  cases result with
  | ok a =>
      obtain ⟨ending, hrest, hends⟩ := hf a s' hends
      exact ⟨ending, (outcome_bind_ok hrun).trans hrest, hends⟩
  | error e => exact ⟨(.error e, s'), outcome_bind_error f hrun, hends⟩

theorem pure (a : α) : Triple (Q a) (Pure.pure a : Computation ε σ α) Q E :=
  fun s hs => ⟨(.ok a, s), rfl, hs⟩

theorem throw (e : ε) : Triple E (MonadExcept.throw e : Computation ε σ α) Q E :=
  fun s hs => ⟨(.error e, s), rfl, hs⟩

theorem get : Triple P (MonadState.get : Computation ε σ σ) (fun a s => P s ∧ a = s) E :=
  fun s hs => ⟨(.ok s, s), rfl, hs, rfl⟩

theorem modify {Q : PUnit → σ → Prop} (f : σ → σ) :
    Triple (fun s => Q ⟨⟩ (f s)) (modify f : Computation ε σ PUnit) Q E :=
  fun s hs => ⟨(.ok ⟨⟩, f s), rfl, hs⟩

theorem ofOutcome {f : σ → Option (Except ε α × σ)}
    (h : ∀ s, P s → ∃ ending, f s = some ending ∧ Ends Q E ending) :
    Triple P (ofOutcome f) Q E := h

theorem checked {x : Option α} {a : α} (hx : x = some a) (h : ∀ s, P s → Q a s) :
    Triple P (checked x : Computation ε σ α) Q E := by
  intro s hs
  refine ⟨(.ok a, s), ?_, h s hs⟩
  rw [hx]
  rfl

theorem ensure {p : σ → Prop} [DecidablePred p] (e : ε) (herror : ∀ s, P s → E s) :
    Triple P (ensure p e) (fun _ s => P s ∧ p s) E := by
  intro s hs
  refine ⟨_, rfl, ?_⟩
  by_cases hp : p s
  · rw [if_pos hp]
    exact ⟨hs, hp⟩
  · rw [if_neg hp]
    exact herror s hs

theorem onPart {part : σ → ρ} {put : σ → ρ → σ} {wrap : ε' → ε}
    {f : ρ → Option (Except ε' α × ρ)}
    (h : ∀ s, P s → ∃ result r, f (part s) = some (result, r) ∧ Ends Q E (result, put s r)) :
    Triple P (onPart part put wrap f) Q E := by
  intro s hs
  obtain ⟨result, r, hf, hends⟩ := h s hs
  refine ⟨(result.mapError wrap, put s r), congrArg (Option.map _) hf, ?_⟩
  cases result with
  | ok a => exact hends
  | error e => exact hends

theorem attempt {Q : Except ε α → σ → Prop}
    (h : Triple P m (fun a => Q (.ok a)) fun s => ∀ e, Q (.error e) s) :
    Triple P (attempt m) Q E := by
  intro s hs
  obtain ⟨⟨result, s'⟩, hrun, hends⟩ := h s hs
  refine ⟨(.ok result, s'), congrArg (Option.map _) hrun, ?_⟩
  cases result with
  | ok a => exact hends
  | error e => exact hends e

theorem post {Q' : α → σ → Prop} {E' : σ → Prop} (h : Triple P m Q E)
    (hpost : ∀ a s, Q a s → Q' a s) (herror : ∀ s, E s → E' s) : Triple P m Q' E' := by
  intro s hs
  obtain ⟨⟨result, s'⟩, hrun, hends⟩ := h s hs
  refine ⟨(result, s'), hrun, ?_⟩
  cases result with
  | ok a => exact hpost a s' hends
  | error e => exact herror s' hends

/-- An invariant of every step is one of the loop. -/
theorem forM {Inv : σ → Prop} {f : β → Computation ε σ PUnit} {xs : List β}
    (h : ∀ x ∈ xs, Triple Inv (f x) (fun _ => Inv) E) :
    Triple Inv (ForM.forM xs f) (fun _ => Inv) E := by
  induction xs with
  | nil =>
      rw [List.forM_nil]
      exact pure (Q := fun _ => Inv) PUnit.unit
  | cons x rest ih =>
      rw [List.forM_cons]
      exact (h x List.mem_cons_self).bind fun _ => ih fun y hy => h y (List.mem_cons_of_mem x hy)

end Triple

end MacVnc.Lib.Stateful

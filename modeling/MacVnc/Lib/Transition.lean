import Mathlib.Data.List.Basic
/-!
# Event traces

Runs of a transition system whose steps either emit one event or are quiet.  A
trace can be cut at any place of its event list, an invariant of every step
holds at its end, and a counter that no step lowers and that is equal at both
ends was not raised by any event between.
-/

namespace MacVnc.Lib.Transition

variable {σ ε : Type*}

theorem of_guarded {p : Prop} [Decidable p] {s t : σ} (h : (if p then some s else none) = some t) :
    p ∧ s = t := by
  rwa [Option.ite_none_right_eq_some, Option.some.injEq] at h

/-- The events of a run from one state to another. -/
inductive Trace (quiet : σ → σ → Prop) (emits : σ → ε → σ → Prop) : σ → List ε → σ → Prop
  | done (s) : Trace quiet emits s [] s
  | quiet {s m t events} : quiet s m → Trace quiet emits m events t →
      Trace quiet emits s events t
  | event {s m t e events} : emits s e m → Trace quiet emits m events t →
      Trace quiet emits s (e :: events) t

variable {quiet : σ → σ → Prop} {emits : σ → ε → σ → Prop}

theorem Trace.ofQuiet {s t : σ} (h : quiet s t) : Trace quiet emits s [] t :=
  .quiet h (.done t)

theorem Trace.ofEvent {s t : σ} {e : ε} (h : emits s e t) : Trace quiet emits s [e] t :=
  .event h (.done t)

theorem Trace.append {s m t : σ} {first second : List ε} (h : Trace quiet emits s first m)
    (h' : Trace quiet emits m second t) : Trace quiet emits s (first ++ second) t := by
  induction h with
  | done s => exact h'
  | quiet hstep _ ih => exact .quiet hstep (ih h')
  | event hstep _ ih => exact .event hstep (ih h')

theorem Trace.split {s t : σ} {first second : List ε}
    (h : Trace quiet emits s (first ++ second) t) :
    ∃ m, Trace quiet emits s first m ∧ Trace quiet emits m second t := by
  generalize hevents : first ++ second = events at h
  induction h generalizing first with
  | done s =>
      rw [List.append_eq_nil_iff] at hevents
      rw [hevents.1, hevents.2]
      exact ⟨s, .done s, .done s⟩
  | quiet hstep _ ih =>
      obtain ⟨m, hfirst, hsecond⟩ := ih hevents
      exact ⟨m, .quiet hstep hfirst, hsecond⟩
  | @event s _ _ e events hstep hrest ih =>
      cases first with
      | nil =>
          rw [List.nil_append] at hevents
          rw [hevents]
          exact ⟨s, .done s, .event hstep hrest⟩
      | cons head first =>
          rw [List.cons_append, List.cons.injEq] at hevents
          obtain ⟨m, hfirst, hsecond⟩ := ih hevents.2
          rw [hevents.1]
          exact ⟨m, .event hstep hfirst, hsecond⟩

theorem Trace.around {s t : σ} {first second : List ε} {e : ε}
    (h : Trace quiet emits s (first ++ e :: second) t) :
    ∃ m n, Trace quiet emits s first m ∧ emits m e n ∧ Trace quiet emits n second t := by
  obtain ⟨m, hfirst, hsecond⟩ := h.split
  generalize hevents : e :: second = events at hsecond
  suffices h : ∃ m' n, Trace quiet emits m [] m' ∧ emits m' e n ∧
      Trace quiet emits n second t by
    obtain ⟨m', n, hquiet, hstep, hrest⟩ := h
    refine ⟨m', n, ?_, hstep, hrest⟩
    have := hfirst.append hquiet
    rwa [List.append_nil] at this
  clear hfirst h
  induction hsecond with
  | done s => cases hevents
  | quiet hstep _ ih =>
      obtain ⟨m', n, hquiet, hemits, hrest⟩ := ih hevents
      exact ⟨m', n, .quiet hstep hquiet, hemits, hrest⟩
  | event hstep hrest _ =>
      cases hevents
      exact ⟨_, _, .done _, hstep, hrest⟩

/-- An invariant of the quiet steps and of the events of a trace holds at its end. -/
theorem Trace.invariant {I : σ → Prop} {P : ε → Prop} (hquiet : ∀ s t, quiet s t → I s → I t)
    (hemits : ∀ s e t, P e → emits s e t → I s → I t) {s t : σ} {events : List ε}
    (h : Trace quiet emits s events t) (hevents : ∀ e ∈ events, P e) (hs : I s) : I t := by
  induction h with
  | done s => exact hs
  | quiet hstep _ ih => exact ih hevents (hquiet _ _ hstep hs)
  | event hstep _ ih =>
      apply ih (fun e he => hevents e (List.mem_cons_of_mem _ he))
      exact hemits _ _ _ (hevents _ List.mem_cons_self) hstep hs

theorem Trace.monotone {f : σ → Nat} (hquiet : ∀ s t, quiet s t → f s ≤ f t)
    (hemits : ∀ s e t, emits s e t → f s ≤ f t) {s t : σ} {events : List ε}
    (h : Trace quiet emits s events t) : f s ≤ f t := by
  induction h with
  | done s => exact Nat.le_refl _
  | quiet hstep _ ih => exact Nat.le_trans (hquiet _ _ hstep) ih
  | event hstep _ ih => exact Nat.le_trans (hemits _ _ _ hstep) ih

/-- Between two states of equal count no event raised the counter. -/
theorem Trace.unraised {f : σ → Nat} (hquiet : ∀ s t, quiet s t → f s ≤ f t)
    (hemits : ∀ s e t, emits s e t → f s ≤ f t) {s t : σ} {first second : List ε} {e : ε}
    (h : Trace quiet emits s (first ++ e :: second) t) (heq : f s = f t) :
    ∃ m n, Trace quiet emits s first m ∧ emits m e n ∧ Trace quiet emits n second t ∧
      f m = f n := by
  obtain ⟨m, n, hfirst, hstep, hsecond⟩ := h.around
  refine ⟨m, n, hfirst, hstep, hsecond, ?_⟩
  have hbefore := hfirst.monotone hquiet hemits
  have hat := hemits m e n hstep
  have hafter := hsecond.monotone hquiet hemits
  omega

end MacVnc.Lib.Transition

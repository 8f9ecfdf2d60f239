import MacVnc.Lib.Coalescing
import Mathlib.Algebra.GroupWithZero.Nat
/-!
# Layout recovery

`LayoutRecovery` (`hp-protocol/src/lib.rs`): the geometry that the last media offer
was made for, the one to make the next for, and when it was sent.  From the negotiated
stream on it coalesces the layouts that the Mac reports: the offer is repeated for the
layout reported last, if that is another one, and every two seconds at most.
-/

namespace MacVnc.Protocol.Recovery

open MacVnc.Lib.Coalescing (Follower reports)

abbrev Dimensions := UInt16 × UInt16

abbrev Instant := Nat

/-- `Instant::duration_since`, which saturates. -/
def durationSince (now earlier : Instant) : Nat := now - earlier

def twoSeconds : Nat := 2 * 10 ^ 9

structure LayoutRecovery where
  current : Option Dimensions
  pending : Option Dimensions
  lastSent : Option Instant
deriving DecidableEq

namespace LayoutRecovery

def default : LayoutRecovery := { current := none, pending := none, lastSent := none }

def observe (s : LayoutRecovery) (dimensions : Dimensions) : LayoutRecovery :=
  match s.current with
  | some current => { s with pending := if current ≠ dimensions then some dimensions else none }
  | none => s

def takeDue (s : LayoutRecovery) (now : Instant) : Bool × LayoutRecovery :=
  if s.pending.isNone || s.lastSent.any fun last => durationSince now last < twoSeconds then
    (false, s)
  else (true, { current := s.pending, pending := none, lastSent := some now })

end LayoutRecovery

/-! ## Runs -/

inductive Call where
  | observe (dimensions : Dimensions)
  | takeDue (now : Instant)
deriving DecidableEq

namespace LayoutRecovery

def step (s : LayoutRecovery) : Call → LayoutRecovery
  | .observe dimensions => s.observe dimensions
  | .takeDue now => (s.takeDue now).2

def run (s : LayoutRecovery) (calls : List Call) : LayoutRecovery := calls.foldl step s

/-- When the calls of `take_due` return true. -/
def reoffers (s : LayoutRecovery) : List Call → List Instant
  | [] => []
  | .observe dimensions :: rest => (s.observe dimensions).reoffers rest
  | .takeDue now :: rest =>
      if (s.takeDue now).1 then now :: (s.takeDue now).2.reoffers rest
      else (s.takeDue now).2.reoffers rest

theorem run_append (s : LayoutRecovery) (calls later : List Call) :
    s.run (calls ++ later) = (s.run calls).run later := List.foldl_append

theorem reoffers_append (s : LayoutRecovery) (calls later : List Call) :
    s.reoffers (calls ++ later) = s.reoffers calls ++ (s.run calls).reoffers later := by
  induction calls generalizing s with
  | nil => rfl
  | cons call rest ih =>
      cases call with
      | observe dimensions => exact ih (s.observe dimensions)
      | takeDue now =>
          rw [List.cons_append, reoffers, reoffers, ih]
          split
          · rfl
          · rfl

end LayoutRecovery

def observed (calls : List Call) : List Dimensions :=
  calls.filterMap fun
    | .observe dimensions => some dimensions
    | .takeDue _ => none

def lastObserved (calls : List Call) : Option Dimensions := (observed calls).getLast?

/-! ## Before the stream is negotiated -/

namespace LayoutRecovery

/-- Without a stream to compare with, no call has an effect. -/
theorem run_default (calls : List Call) : default.run calls = default := by
  induction calls with
  | nil => rfl
  | cons call rest ih =>
      cases call with
      | observe dimensions => exact ih
      | takeDue now => exact ih

/-- The state once `current` is set from the stream. -/
def negotiated (dimensions : Dimensions) : LayoutRecovery :=
  { current := some dimensions, pending := none, lastSent := none }

theorem negotiated_eq (before : List Call) (dimensions : Dimensions) :
    { default.run before with current := some dimensions } = negotiated dimensions := by
  rw [run_default]
  rfl

end LayoutRecovery

/-! ## The follower behind it -/

/-- Two re-offers at these times are far enough apart. -/
def Apart (last now : Nat) : Prop := last + twoSeconds ≤ now

instance : DecidableRel Apart := fun _ now => inferInstanceAs (Decidable (_ ≤ now))

/-- An observation is a report, `take_due` an ask. -/
def Call.spec : Call → MacVnc.Lib.Coalescing.Call Dimensions Instant
  | .observe dimensions => .report dimensions
  | .takeDue now => .ask now

theorem reports_spec (calls : List Call) : reports (calls.map Call.spec) = observed calls := by
  induction calls with
  | nil => rfl
  | cons call rest ih =>
      cases call with
      | observe dimensions => exact congrArg (dimensions :: ·) ih
      | takeDue now => exact ih

/-- The fields in terms of the follower. -/
structure Shows (s : LayoutRecovery) (f : Follower Dimensions Instant) : Prop where
  current : s.current = some f.passedOn
  pending : s.pending = if f.Settled then none else some f.reported
  lastSent : s.lastSent = f.last

theorem shows_negotiated (dimensions : Dimensions) :
    Shows (.negotiated dimensions) (.start dimensions) where
  current := rfl
  pending := (if_pos rfl).symm
  lastSent := rfl

namespace Shows

variable {s : LayoutRecovery} {f : Follower Dimensions Instant} {now : Instant}

theorem pending_eq_none_iff (h : Shows s f) : s.pending = none ↔ f.Settled := by
  rw [h.pending]
  split
  · rename_i hsettled
    exact iff_of_true rfl hsettled
  · rename_i hsettled
    exact iff_of_false (fun hnone => by cases hnone) hsettled

theorem open_iff (h : Shows s f) : f.Open Apart now ↔ ∀ t, s.lastSent = some t → Apart t now := by
  rw [h.lastSent]
  exact Iff.rfl

theorem held_iff (s : LayoutRecovery) (now : Instant) :
    (s.pending.isNone || s.lastSent.any fun last => durationSince now last < twoSeconds) = true ↔
      s.pending = none ∨ ∃ t, s.lastSent = some t ∧ ¬ Apart t now := by
  rw [Bool.or_eq_true, Option.isNone_iff_eq_none, Option.any_eq_true]
  apply or_congr Iff.rfl
  apply exists_congr
  intro t
  rw [decide_eq_true_iff]
  apply and_congr Iff.rfl
  unfold durationSince Apart twoSeconds
  omega

theorem held_iff_not_due (h : Shows s f) :
    (s.pending.isNone || s.lastSent.any fun last => durationSince now last < twoSeconds) = true ↔
      ¬ f.Due Apart now := by
  rw [held_iff, Follower.Due, not_and_or, not_not, h.pending_eq_none_iff, h.open_iff]
  push Not
  rfl

theorem takeDue_eq (h : Shows s f) :
    s.takeDue now = if f.Due Apart now then
      (true, { current := s.pending, pending := none, lastSent := some now }) else (false, s) := by
  unfold LayoutRecovery.takeDue
  by_cases hdue : f.Due Apart now
  · rw [if_neg (fun hheld => h.held_iff_not_due.1 hheld hdue), if_pos hdue]
  · rw [if_pos (h.held_iff_not_due.2 hdue), if_neg hdue]

theorem takeDue_iff (h : Shows s f) : (s.takeDue now).1 = true ↔ f.Due Apart now := by
  rw [h.takeDue_eq]
  split
  · rename_i hdue
    exact iff_of_true rfl hdue
  · rename_i hdue
    exact iff_of_false Bool.false_ne_true hdue

theorem observe (h : Shows s f) (dimensions : Dimensions) :
    Shows (s.observe dimensions) { f with reported := dimensions } := by
  have hobserve : s.observe dimensions =
      { s with pending := if f.passedOn ≠ dimensions then some dimensions else none } := by
    rw [LayoutRecovery.observe, h.current]
  rw [hobserve]
  refine ⟨h.current, ?_, h.lastSent⟩
  show (if f.passedOn ≠ dimensions then some dimensions else none) =
    if dimensions = f.passedOn then none else some dimensions
  by_cases hsame : f.passedOn = dimensions
  · rw [if_neg (not_not.2 hsame), if_pos hsame.symm]
  · rw [if_pos hsame, if_neg (Ne.symm hsame)]

theorem takeDue (h : Shows s f) (now : Instant) :
    Shows (s.takeDue now).2 (f.step Apart (.ask now)) := by
  rw [h.takeDue_eq]
  by_cases hdue : f.Due Apart now
  · rw [if_pos hdue, Follower.step_due hdue]
    refine ⟨?_, (if_pos rfl).symm, rfl⟩
    rw [h.pending, if_neg hdue.1]
  · rw [if_neg hdue, Follower.step_not_due hdue]
    exact h

theorem step (h : Shows s f) (call : Call) : Shows (s.step call) (f.step Apart call.spec) := by
  cases call with
  | observe dimensions => exact h.observe dimensions
  | takeDue now => exact h.takeDue now

theorem run (h : Shows s f) (calls : List Call) :
    Shows (s.run calls) (f.run Apart (calls.map Call.spec)) := by
  induction calls generalizing s f with
  | nil => exact h
  | cons call rest ih => exact ih (h.step call)

theorem reoffers (h : Shows s f) (calls : List Call) :
    s.reoffers calls = f.updates Apart (calls.map Call.spec) := by
  induction calls generalizing s f with
  | nil => rfl
  | cons call rest ih =>
      cases call with
      | observe dimensions => exact ih (h.observe dimensions)
      | takeDue now =>
          have hrest := ih (h.takeDue now)
          rw [LayoutRecovery.reoffers, hrest, List.map_cons, Call.spec, Follower.updates]
          by_cases hdue : f.Due Apart now
          · rw [if_pos (h.takeDue_iff.2 hdue), if_pos hdue]
          · rw [if_neg (fun htrue => hdue (h.takeDue_iff.1 htrue)), if_neg hdue]

end Shows

/-! ## From the negotiated stream on -/

def follower (c : Dimensions) (calls : List Call) : Follower Dimensions Instant :=
  (Follower.start c).run Apart (calls.map Call.spec)

section Negotiated

variable (c : Dimensions) (calls : List Call)

theorem shows_run : Shows ((LayoutRecovery.negotiated c).run calls) (follower c calls) :=
  (shows_negotiated c).run calls

theorem follower_reported : (follower c calls).reported = (lastObserved calls).getD c := by
  unfold follower
  rw [Follower.reported_run, reports_spec]
  rfl

theorem follower_last :
    (follower c calls).last = ((LayoutRecovery.negotiated c).reoffers calls).getLast? := by
  unfold follower
  rw [Follower.last_run, ← (shows_negotiated c).reoffers]
  exact Option.or_none

theorem settled_of_unobserved (h : lastObserved calls = none) : (follower c calls).Settled := by
  have hstart : (.start c : Follower Dimensions Instant).Settled := rfl
  have hnone : reports (calls.map Call.spec) = [] := by
    rw [reports_spec]
    exact List.getLast?_eq_none_iff.1 h
  have hsame : ∀ g ∈ reports (calls.map Call.spec), g = c := by
    rw [hnone]
    exact nofun
  unfold follower
  rw [(hstart.run Apart hsame).1]
  exact hstart

/-- A geometry is left to offer: the last one observed is not the current one. -/
theorem not_settled_iff :
    ¬ (follower c calls).Settled ↔
      ∃ g, lastObserved calls = some g ∧
        ((LayoutRecovery.negotiated c).run calls).current ≠ some g := by
  rw [(shows_run c calls).current]
  cases hlast : lastObserved calls with
  | none =>
      refine iff_of_false (not_not.2 (settled_of_unobserved c calls hlast)) ?_
      rintro ⟨g, hg, -⟩
      cases hg
  | some g =>
      have hreported : (follower c calls).reported = g := by
        rw [follower_reported, hlast]
        rfl
      rw [Follower.Settled, hreported]
      constructor
      · intro hne
        exact ⟨g, rfl, fun heq => hne (Option.some.inj heq).symm⟩
      · rintro ⟨_, hg, hne⟩ heq
        cases hg
        exact hne (congrArg some heq.symm)

theorem due_iff (now : Instant) :
    (((LayoutRecovery.negotiated c).run calls).takeDue now).1 = true ↔
      (∃ g, lastObserved calls = some g ∧
        ((LayoutRecovery.negotiated c).run calls).current ≠ some g) ∧
      ∀ t, ((LayoutRecovery.negotiated c).reoffers calls).getLast? = some t →
        t + twoSeconds ≤ now := by
  rw [(shows_run c calls).takeDue_iff, Follower.Due, not_settled_iff, Follower.Open, follower_last]
  rfl

theorem current_of_due {now : Instant}
    (h : (((LayoutRecovery.negotiated c).run calls).takeDue now).1 = true) :
    (((LayoutRecovery.negotiated c).run calls).takeDue now).2.current = lastObserved calls := by
  have hdue := (shows_run c calls).takeDue_iff.1 h
  obtain ⟨g, hg, -⟩ := (not_settled_iff c calls).1 hdue.1
  rw [(shows_run c calls).takeDue_eq, if_pos hdue, (shows_run c calls).pending, if_neg hdue.1,
    follower_reported, hg]
  rfl

/-- When the limiter allows it, `take_due` leaves the geometry observed last. -/
theorem takeDue_settles {now : Instant}
    (h : ∀ t, ((LayoutRecovery.negotiated c).reoffers calls).getLast? = some t →
      t + twoSeconds ≤ now) :
    (((LayoutRecovery.negotiated c).run calls).takeDue now).2.pending = none ∧
      (((LayoutRecovery.negotiated c).run calls).takeDue now).2.current =
        some ((lastObserved calls).getD c) := by
  have hopen : (follower c calls).Open Apart now := by
    unfold Follower.Open
    rw [follower_last]
    exact h
  have hsettled := Follower.settled_step hopen
  have hshows := (shows_run c calls).takeDue now
  refine ⟨hshows.pending_eq_none_iff.2 hsettled, ?_⟩
  rw [hshows.current, ← hsettled, Follower.reported_ask, follower_reported]

end Negotiated

/-! ## Coalescing -/

theorem apart_trans (a b c : Nat) (hab : Apart a b) (hbc : Apart b c) : Apart a c := by
  unfold Apart at *
  omega

namespace Shows

variable {s : LayoutRecovery} {f : Follower Dimensions Instant}

theorem reoffers_apart (h : Shows s f) (calls : List Call) : (s.reoffers calls).Pairwise Apart := by
  rw [h.reoffers]
  exact Follower.pairwise_updates apart_trans f _

theorem reoffers_repeated (h : Shows s f) {g : Dimensions} {later : List Call}
    (hsame : ∀ d ∈ observed later, d = g) : (s.reoffers (.observe g :: later)).length ≤ 1 := by
  rw [LayoutRecovery.reoffers, (h.observe g).reoffers]
  apply Follower.length_updates_le_one
  rw [reports_spec]
  exact hsame

theorem reoffers_reverted (h : Shows s f) {g : Dimensions} (hcurrent : s.current = some g)
    {middle later : List Call} (hnone : s.reoffers middle = [])
    (hsame : ∀ d ∈ observed later, d = g) :
    s.reoffers (middle ++ .observe g :: later) = [] := by
  rw [h.current] at hcurrent
  cases hcurrent
  rw [h.reoffers] at hnone
  rw [h.reoffers, List.map_append, List.map_cons]
  apply Follower.updates_reverted hnone
  rw [reports_spec]
  exact hsame

end Shows

/-! ## The rate of re-offers -/

theorem mem_of_mem_reoffers {s : LayoutRecovery} {calls : List Call} {t : Instant}
    (h : t ∈ s.reoffers calls) : .takeDue t ∈ calls := by
  induction calls generalizing s with
  | nil => cases h
  | cons call rest ih =>
      cases call with
      | observe dimensions => exact List.mem_cons_of_mem _ (ih h)
      | takeDue now =>
          rw [LayoutRecovery.reoffers] at h
          split at h
          · rcases List.mem_cons.1 h with rfl | hrest
            · exact List.mem_cons_self
            · exact List.mem_cons_of_mem _ (ih hrest)
          · exact List.mem_cons_of_mem _ (ih h)

theorem length_of_apart {began : Nat} {times : List Nat} (hapart : times.Pairwise Apart)
    (hbegan : ∀ t ∈ times, began ≤ t) {last : Nat} (hlast : times.getLast? = some last) :
    began + times.length * twoSeconds ≤ last + twoSeconds := by
  induction times using List.reverseRecOn generalizing last with
  | nil => cases hlast
  | append_singleton times t ih =>
      rw [List.getLast?_concat, Option.some.injEq] at hlast
      subst hlast
      obtain ⟨hapart, -, hnext⟩ := List.pairwise_append.1 hapart
      rw [List.length_append, List.length_singleton, Nat.add_mul, Nat.one_mul, ← Nat.add_assoc]
      apply Nat.add_le_add_right
      cases hbefore : times.getLast? with
      | none =>
          rw [List.getLast?_eq_none_iff.1 hbefore, List.length_nil, Nat.zero_mul]
          exact hbegan t (List.mem_append_right times List.mem_cons_self)
      | some before =>
          have hfirst := ih hapart (fun u hu => hbegan u (List.mem_append_left _ hu)) hbefore
          exact hfirst.trans (hnext before (List.mem_of_getLast? hbefore) t List.mem_cons_self)

/-- What the re-offers of a run take, from the first time on that the clock shows. -/
theorem reoffers_rate {began : Instant} (c : Dimensions) {calls : List Call}
    (htimes : ∀ t, .takeDue t ∈ calls → began ≤ t) {last : Instant}
    (hlast : ((LayoutRecovery.negotiated c).run calls).lastSent = some last) :
    began + ((LayoutRecovery.negotiated c).reoffers calls).length * twoSeconds ≤
      last + twoSeconds := by
  rw [(shows_run c calls).lastSent, follower_last] at hlast
  apply length_of_apart ((shows_negotiated c).reoffers_apart calls) _ hlast
  intro t ht
  exact htimes t (mem_of_mem_reoffers ht)

theorem reoffers_of_unsent (c : Dimensions) {calls : List Call}
    (h : ((LayoutRecovery.negotiated c).run calls).lastSent = none) :
    (LayoutRecovery.negotiated c).reoffers calls = [] := by
  rw [(shows_run c calls).lastSent, follower_last] at h
  exact List.getLast?_eq_none_iff.1 h

/-! ## Runs of the recovery -/

/-- From the stream on that sets `current`, in every run: a re-offer is due exactly if the
geometry observed last is not the current one and the last re-offer is two seconds old, and it
makes that geometry the current one.  So re-offers are two seconds apart, one geometry makes one
at most, and one that is back in time makes none.  The times need not be in order. -/
theorem layout_recovery_coalesces (before calls : List Call) (c : Dimensions) :
    let start := { LayoutRecovery.default.run before with current := some c }
    let s := start.run calls
    (∀ now, (s.takeDue now).1 = true ↔
      (∃ g, lastObserved calls = some g ∧ s.current ≠ some g) ∧
        ∀ t, (start.reoffers calls).getLast? = some t → t + twoSeconds ≤ now) ∧
    (∀ now, (s.takeDue now).1 = true → (s.takeDue now).2.current = lastObserved calls) ∧
    (start.reoffers calls).Pairwise (fun t t' => t + twoSeconds ≤ t') ∧
    (∀ g later, (∀ d ∈ observed later, d = g) → (s.reoffers (.observe g :: later)).length ≤ 1) ∧
    ∀ g middle later, s.current = some g → s.reoffers middle = [] →
      (∀ d ∈ observed later, d = g) → s.reoffers (middle ++ .observe g :: later) = [] := by
  intro start s
  have hstart : start = .negotiated c := LayoutRecovery.negotiated_eq before c
  have hs : s = (LayoutRecovery.negotiated c).run calls := by
    rw [← hstart]
  rw [hs, hstart]
  have hshows := shows_run c calls
  refine ⟨due_iff c calls, fun _ => current_of_due c calls, ?_, ?_, ?_⟩
  · exact (shows_negotiated c).reoffers_apart calls
  · intro g later hsame
    exact hshows.reoffers_repeated hsame
  · intro g middle later hcurrent hnone hsame
    exact hshows.reoffers_reverted hcurrent hnone hsame

/-- Full HD was negotiated; smaller layouts are reported twice, and taken back. -/
theorem layout_recovery_coalesces_full_hd :
    let start := { LayoutRecovery.default.run [.observe (1920, 1080), .takeDue 0] with
      current := some (1920, 1080) }
    (start.reoffers [.observe (1280, 720), .takeDue 0, .observe (1280, 720),
      .takeDue (3 * 10 ^ 9)]).length ≤ 1 ∧
    start.reoffers [.observe (1280, 720), .observe (1920, 1080), .takeDue 0] = [] := by
  obtain ⟨-, -, -, honce, hback⟩ := layout_recovery_coalesces
    [.observe (1920, 1080), .takeDue 0] [] (1920, 1080)
  constructor
  · exact honce (1280, 720) [.takeDue 0, .observe (1280, 720), .takeDue (3 * 10 ^ 9)]
      (by simp [observed])
  · exact hback (1920, 1080) [.observe (1280, 720)] [.takeDue 0] rfl rfl (by simp [observed])

example : (LayoutRecovery.negotiated (1920, 1080)).reoffers
    [.observe (1920, 1080), .takeDue 0, .observe (1280, 720), .takeDue 0, .observe (1280, 720),
      .takeDue (3 * 10 ^ 9), .observe (1920, 1080), .takeDue (10 ^ 9), .observe (1600, 900),
      .takeDue (2 * 10 ^ 9), .takeDue (8 * 10 ^ 9)] = [0, 2 * 10 ^ 9] := by decide

end MacVnc.Protocol.Recovery

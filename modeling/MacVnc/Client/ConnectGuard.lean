import MacVnc.Client.SessionBoundary
/-!
# The window's guard on Connect

`App::connect` returns at once while one of its flags is set, and the flags are
cleared when the Disconnected event is seen (`macvnc-app/src/main.rs`).  A window
that keeps to its flags begins a Connect only while no session is active.
-/

namespace MacVnc.Client.ConnectGuard

open Commands
open SessionBoundary

structure App where
  state : State
  /-- One of `connecting`, `connected` and `cancelling` is set. -/
  active : Bool
  /-- The Disconnected events not yet seen. -/
  ended : Nat
deriving DecidableEq

inductive AppAction where
  | step (action : Action)
  | disconnected
deriving DecidableEq

def beginsConnect : Action → Bool
  | .begin command => isConnect command
  | _ => false

namespace App

def initial : App := { state := .initial, active := false, ended := 0 }

def step (a : App) : AppAction → Option App
  | .step action =>
      if a.active && beginsConnect action then none
      else (a.state.apply action).map fun state =>
        { state
          active := a.active || beginsConnect action
          ended := a.ended + if action = .close then 1 else 0 }
  | .disconnected =>
      if 0 < a.ended then some { a with active := false, ended := a.ended - 1 } else none

def run (a : App) : List AppAction → Option App
  | [] => some a
  | action :: rest => (a.step action).bind fun next => next.run rest

end App

def queued (queue : List Sent) : Nat := queue.countP fun sent => isConnect sent.command

def offered : Window → Nat
  | .offering sent => (isConnect sent.command).toNat
  | _ => 0

/-- The Connects under way: queued, offered, or with the backend. -/
def underWay (s : State) : Nat := queued s.queue + offered s.window + s.backend.busy.toNat

theorem queued_cons (sent : Sent) (rest : List Sent) :
    queued (sent :: rest) = queued rest + (isConnect sent.command).toNat := by
  unfold queued
  rw [List.countP_cons]
  cases isConnect sent.command <;> rfl

theorem queued_append (queue : List Sent) (sent : Sent) :
    queued (queue ++ [sent]) = queued queue + (isConnect sent.command).toNat := by
  unfold queued
  rw [List.countP_append, List.countP_singleton]
  cases isConnect sent.command <;> rfl

theorem underWay_le {s next : State} (hwindow : next.window = s.window)
    (hqueue : next.queue <:+ s.queue) (hbusy : next.backend.busy = true → s.backend.busy = true) :
    underWay next ≤ underWay s := by
  have hcount : queued next.queue ≤ queued s.queue := hqueue.sublist.countP_le
  have hbackend : next.backend.busy.toNat ≤ s.backend.busy.toNat := by
    cases hnext : next.backend.busy with
    | false => exact Nat.zero_le _
    | true => rw [hbusy hnext]
  unfold underWay
  rw [hwindow]
  omega

theorem underWay_begin {s : State} (hready : s.window = .ready) (command : Command) :
    underWay (s.begin command) = underWay s + (isConnect command).toNat := by
  unfold underWay
  rw [hready]
  cases command <;> simp [State.begin, State.tag, offered, isConnect]
  omega

theorem underWay_offer {s : State} {sent : Sent} (hoffering : s.window = .offering sent) :
    underWay (s.offer sent) ≤ underWay s := by
  unfold underWay State.offer
  rw [hoffering]
  split
  · rw [queued_append]
    simp only [offered]
    omega
  · simp only [offered]
    omega

theorem underWay_receive {s : State} {sent : Sent} {rest : List Sent}
    (hwaiting : s.backend = .waiting) (hqueue : s.queue = sent :: rest) :
    underWay (s.receive sent rest) = underWay s := by
  unfold underWay State.receive
  rw [hqueue, queued_cons, hwaiting]
  split
  · rename_i hconnect
    rw [hconnect]
    simp [Backend.busy]
    omega
  · rename_i hother
    rw [Bool.eq_false_iff.2 hother]
    simp [Backend.busy]

theorem underWay_check {s next : State} (h : s.check = some next) : underWay next ≤ underWay s := by
  unfold State.check at h
  split at h
  case h_1 hphase =>
    cases h
    exact underWay_le rfl (List.suffix_refl _) fun _ => by rw [hphase]; rfl
  case h_2 hphase =>
    cases h
    exact underWay_le rfl (List.suffix_refl _) fun _ => by rw [hphase]; rfl
  case h_3 hphase =>
    cases h
    split
    · exact underWay_le rfl (List.suffix_refl _) fun _ => by rw [hphase]; rfl
    · exact underWay_le rfl (List.suffix_refl _) fun _ => by rw [hphase]; rfl
  case h_4 hphase =>
    cases h
    split
    · exact underWay_le rfl (List.suffix_refl _) fun _ => by rw [hphase]; rfl
    · exact Nat.le_refl _
  case h_5 => cases h

theorem underWay_proceed {s next : State} {ok : Bool} (h : s.proceed ok = some next) :
    underWay next ≤ underWay s := by
  unfold State.proceed at h
  split at h
  case h_1 hphase =>
    cases h
    exact underWay_le rfl (List.suffix_refl _) fun _ => by rw [hphase]; rfl
  case h_2 hphase =>
    cases h
    exact underWay_le rfl (List.suffix_refl _) fun _ => by rw [hphase]; rfl
  case h_3 hphase =>
    cases h
    exact underWay_le rfl (List.suffix_refl _) fun _ => by rw [hphase]; rfl
  case h_4 => cases h

theorem underWay_take {s : State} {taken : Nat} (hbatch : s.backend = .batch taken) (ok : Bool) :
    underWay (s.take taken ok) ≤ underWay s := by
  have hbusy : s.backend.busy = true := by
    rw [hbatch]
    rfl
  unfold State.take
  split
  · exact underWay_le rfl (List.suffix_refl _) fun _ => hbusy
  · split
    · exact underWay_le rfl (List.suffix_refl _) fun _ => hbusy
    · rename_i sent rest hqueue
      have hsuffix : rest <:+ s.queue := by
        rw [hqueue]
        exact List.suffix_cons sent rest
      unfold State.transmit
      cases sent.command <;> exact underWay_le rfl hsuffix fun _ => hbusy

/-- No step but the begin of a Connect brings one under way, and the end of a session takes
one away. -/
theorem underWay_apply {s next : State} {action : Action} (h : s.apply action = some next) :
    underWay next + (if action = .close then 1 else 0) ≤
      underWay s + (beginsConnect action).toNat := by
  cases State.apply_cases h with
  | begin command hready => exact Nat.le_of_eq (underWay_begin hready command)
  | offer hoffering => exact underWay_offer hoffering
  | fail hrefused => simp [underWay, State.fail, hrefused, offered]
  | drop hready => simp [underWay, hready, offered]
  | hangUp hdropping => simp [underWay, hdropping, offered]
  | receive hwaiting hqueue => exact Nat.le_of_eq (underWay_receive hwaiting hqueue)
  | stop => exact underWay_le rfl (List.suffix_refl _) fun hbusy => (Bool.false_ne_true hbusy).elim
  | check hcheck => exact underWay_check hcheck
  | proceed hproceed => exact underWay_proceed hproceed
  | take ok hbatch => exact underWay_take hbatch ok
  | @drain sent rest _ hqueue =>
      refine underWay_le rfl ?_ id
      rw [hqueue]
      exact List.suffix_cons sent rest
  | drained hdraining =>
      exact underWay_le rfl (List.suffix_refl _) fun _ => by rw [hdraining]; rfl
  | close hclosing => simp [underWay, hclosing, Backend.busy, beginsConnect]

theorem idle_of_underWay {s : State} (h : underWay s = 0) : s.idle = true := by
  unfold underWay at h
  have hbusy : s.backend.busy = false := by
    cases hvalue : s.backend.busy with
    | false => rfl
    | true =>
        rw [hvalue, Bool.toNat_true] at h
        omega
  have hqueue : queued s.queue = 0 := by omega
  rw [State.idle, hbusy, Bool.not_false, Bool.true_and, List.all_eq_true]
  intro sent hmem
  rw [Bool.not_eq_true', Bool.eq_false_iff]
  exact List.countP_eq_zero.1 hqueue sent hmem

namespace App

/-- At most one Connect is under way or its end unseen, and none while the flags are clear. -/
def Exclusive (a : App) : Prop := underWay a.state + a.ended ≤ a.active.toNat

theorem exclusive_step {a next : App} {action : AppAction} (h : a.Exclusive)
    (hstep : a.step action = some next) : next.Exclusive := by
  unfold Exclusive at h ⊢
  cases action with
  | step action =>
      rw [step] at hstep
      split at hstep
      · cases hstep
      · rename_i hallowed
        obtain ⟨state, happly, rfl⟩ := Option.map_eq_some_iff.1 hstep
        have hmoved := underWay_apply happly
        dsimp only
        cases hactive : a.active with
        | true =>
            rw [hactive, Bool.true_and, Bool.not_eq_true] at hallowed
            rw [hallowed, Bool.toNat_false] at hmoved
            rw [hactive] at h
            rw [Bool.true_or]
            omega
        | false =>
            rw [hactive, Bool.toNat_false] at h
            rw [Bool.false_or]
            omega
  | disconnected =>
      rw [step] at hstep
      split at hstep
      · rename_i hended
        cases hstep
        have hactive := Bool.toNat_le a.active
        dsimp only
        rw [Bool.toNat_false]
        omega
      · cases hstep

theorem step_allowed {a next : App} {action : Action} (h : a.Exclusive)
    (hstep : a.step (.step action) = some next) : a.state.step action = some next.state := by
  rw [step] at hstep
  split at hstep
  · cases hstep
  · rename_i hflags
    obtain ⟨state, happly, rfl⟩ := Option.map_eq_some_iff.1 hstep
    have hallowed : a.state.allowed action = true := by
      cases hconnect : beginsConnect action with
      | false =>
          cases action with
          | begin command =>
              rw [State.allowed, show isConnect command = false from hconnect]
              rfl
          | _ => rfl
      | true =>
          rw [hconnect, Bool.and_true, Bool.not_eq_true] at hflags
          unfold Exclusive at h
          rw [hflags, Bool.toNat_false] at h
          cases action with
          | begin command =>
              rw [State.allowed, idle_of_underWay (by omega), Bool.or_true]
          | _ => cases hconnect
    rw [State.step, if_pos hallowed, happly]

/-- The steps of a run that are not the window's own. -/
def actions (run : List AppAction) : List Action :=
  run.filterMap fun action =>
    match action with
    | .step action => some action
    | .disconnected => none

/-- A window that keeps to its flags begins a Connect only while no session is active. -/
theorem run_allowed {a last : App} {taken : List AppAction} (h : a.Exclusive)
    (hrun : a.run taken = some last) : a.state.run (actions taken) = some last.state := by
  induction taken generalizing a with
  | nil =>
      cases hrun
      rfl
  | cons action rest ih =>
      obtain ⟨next, hstep, hrest⟩ := Option.bind_eq_some_iff.1 hrun
      have hlater := ih (exclusive_step h hstep) hrest
      cases action with
      | step action =>
          show (a.state.step action).bind _ = _
          rw [step_allowed h hstep]
          exact hlater
      | disconnected =>
          rw [step] at hstep
          split at hstep
          · cases hstep
            exact hlater
          · cases hstep

theorem initial_exclusive : initial.Exclusive := Nat.le_refl 0

/-- The session boundary holds in every run of the window. -/
theorem transmitted_clean {last : App} {taken : List AppAction}
    (hrun : initial.run taken = some last) : ∀ t ∈ last.state.transmitted, t.Clean :=
  (State.invariant_run State.initial_invariant (run_allowed initial_exclusive hrun)).clean

end App

end MacVnc.Client.ConnectGuard

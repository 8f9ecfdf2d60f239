import MacVnc.Lib.Transition
import MacVnc.Protocol.FileTransfer
/-!
# Replies to transfer jobs

The session thread and the transfer worker of `macvnc-app/src/transfer.rs` side by
side, one atomic step at a time: the comparison and the enqueue of `Session::reply`,
and the loop of `Worker::run` with the replies that `Worker::receive` returns to its
jobs.  A job gets only its own replies as long as no reply that was compared for one
job is enqueued behind the drain for a later one.
-/

namespace MacVnc.Client.TransferWorker

open MacVnc.Lib.Transition (of_guarded)
open MacVnc.Protocol.FileTransfer (Message endOfFile)

def repliesCapacity : Nat := 8

/-- Where the worker is in `Worker::run`. -/
inductive Phase where
  | head
  | awaiting
  | draining
  | publishing
  /-- In `upload` or `download`, before or after the job is started. -/
  | running (started : Bool)
  /-- In `receive`, between its check and `recv_timeout`. -/
  | receiving
  | finished (ok started : Bool)
  | cleared (ok started : Bool)
  | stopped
deriving DecidableEq

structure State where
  phase : Phase
  /-- The id of the worker's current job, or of its next one. -/
  id : UInt32
  activeId : UInt32
  jobs : Nat
  replies : List Message
  /-- A reply that was compared and is not enqueued yet. -/
  inFlight : Option Message
  closed : Bool
  disconnect : Bool
  /-- The client still has this session's sender of jobs. -/
  routed : Bool
  dropping : Bool
  dropped : Bool
  /-- What `receive` has returned, with the id of the job it was returned to. -/
  returned : List (UInt32 × Message)
deriving DecidableEq

inductive Action where
  | submit
  | compare (message : Message)
  | enqueue
  | drop
  | detach
  | hangUp
  | look
  | take
  | drain
  | publish
  | start
  | check (expired : Bool)
  | receive
  | finish (ok : Bool)
  | clear
  | report
deriving DecidableEq

namespace State

def initial : State where
  phase := .head
  id := 2
  activeId := 0
  jobs := 0
  replies := []
  inFlight := none
  closed := false
  disconnect := false
  routed := true
  dropping := false
  dropped := false
  returned := []

/-- The first half of `reply`. -/
def compare (s : State) (message : Message) : State :=
  if message.session ≠ s.activeId ∨ message.session = 0 then s
  else { s with inFlight := some message }

/-- The second half: without room, or without the worker, the session ends. -/
def enqueue (s : State) (message : Message) : State :=
  if s.replies.length < repliesCapacity ∧ s.phase ≠ .stopped then
    { s with inFlight := none, replies := s.replies ++ [message] }
  else { s with inFlight := none, disconnect := true, closed := true }

/-- `jobs.recv_timeout`. -/
def take (s : State) : State :=
  match s.jobs with
  | n + 1 => { s with jobs := n, phase := .draining }
  | 0 => { s with phase := if s.routed then .head else .stopped }

/-- One call of `try_recv` before a job. -/
def drain (s : State) : State :=
  match s.replies with
  | _ :: rest => { s with replies := rest }
  | [] => { s with phase := .publishing }

def receive (s : State) : State :=
  match s.replies with
  | message :: rest =>
      { s with
        replies := rest
        phase := .running true
        returned := s.returned ++ [(s.id, message)] }
  | [] => { s with phase := if s.dropped then .finished false true else .running true }

/-- The end of the loop: a started job that failed is the last one. -/
def report (s : State) (ok started : Bool) : State :=
  if ok = false ∧ started = true then { s with phase := .stopped, disconnect := true }
  else if s.id.toNat + 1 < 2 ^ 32 then { s with phase := .head, id := s.id + 1 }
  else { s with phase := .stopped }

/-- One atomic step of the session thread or of the worker; `none` where that thread
is elsewhere. -/
def step (s : State) : Action → Option State
  | .submit =>
      if s.jobs = 0 ∧ s.routed = true ∧ s.phase ≠ .stopped then some { s with jobs := 1 }
      else none
  | .compare message =>
      if s.inFlight = none ∧ s.dropping = false then some (s.compare message) else none
  | .enqueue => s.inFlight.map s.enqueue
  | .drop =>
      if s.inFlight = none then some { s with closed := true, dropping := true } else none
  -- In the drop of the session, or when the client opens another one.
  | .detach => some { s with routed := false }
  | .hangUp => if s.dropping = true then some { s with dropped := true } else none
  | .look =>
      if s.phase = .head then some { s with phase := if s.closed then .stopped else .awaiting }
      else none
  | .take => if s.phase = .awaiting then some s.take else none
  | .drain => if s.phase = .draining then some s.drain else none
  | .publish =>
      if s.phase = .publishing then some { s with activeId := s.id, phase := .running false }
      else none
  | .start => if s.phase = .running false then some { s with phase := .running true } else none
  -- The job's own cancel flag and its deadline are an oracle.
  | .check expired =>
      if s.phase = .running true then
        some { s with phase := if s.closed || expired then .finished false true else .receiving }
      else none
  | .receive => if s.phase = .receiving then some s.receive else none
  | .finish ok =>
      match s.phase with
      | .running started =>
          if ok = true ∧ started = false then none
          else some { s with phase := .finished ok started }
      | _ => none
  | .clear =>
      match s.phase with
      | .finished ok started => some { s with activeId := 0, phase := .cleared ok started }
      | _ => none
  | .report =>
      match s.phase with
      | .cleared ok started => some (s.report ok started)
      | _ => none

def run (s : State) : List Action → Option State
  | [] => some s
  | action :: rest => (s.step action).bind fun next => next.run rest

end State

/-! ## The condition -/

/-- The drain for the current job has ended, and the job may still receive. -/
def Phase.listens : Phase → Bool
  | .publishing => true
  | .running _ => true
  | .receiving => true
  | _ => false

/-- A reply is enqueued behind the drain for a job only if it is for that job. -/
def Timely (s : State) (action : Action) : Prop :=
  action = .enqueue → s.phase.listens = true → ∀ m ∈ s.inFlight, m.session = s.id

def Along (condition : State → Action → Prop) (s : State) : List Action → Prop
  | [] => True
  | action :: rest =>
      condition s action ∧ ∀ next, s.step action = some next → Along condition next rest

def OwnReplies (s : State) : Prop := ∀ entry ∈ s.returned, entry.2.session = entry.1

instance (s : State) : Decidable (OwnReplies s) :=
  inferInstanceAs (Decidable (∀ entry ∈ s.returned, _))

/-! ## One step -/

/-- What a step does to the replies. -/
inductive Effect (s : State) : Action → State → Prop
  | quiet {action t} : t.id = s.id → t.activeId = s.activeId → t.replies = s.replies →
      t.inFlight = s.inFlight → t.returned = s.returned →
      (t.phase.listens = true → s.phase.listens = true ∨ s.replies = []) → Effect s action t
  | compared {action} (m : Message) : m.session = s.activeId →
      Effect s action { s with inFlight := some m }
  | enqueued (m : Message) : s.inFlight = some m →
      Effect s .enqueue { s with inFlight := none, replies := s.replies ++ [m] }
  | refused {action} : Effect s action
      { s with inFlight := none, disconnect := true, closed := true }
  | drained {action rest} : s.phase = .draining → Effect s action { s with replies := rest }
  | published {action} : s.phase = .publishing →
      Effect s action { s with activeId := s.id, phase := .running false }
  | received {action} (m : Message) (rest : List Message) : s.phase = .receiving →
      s.replies = m :: rest →
      Effect s action
        { s with replies := rest, phase := .running true, returned := s.returned ++ [(s.id, m)] }
  | cleared {action ok started} :
      Effect s action { s with activeId := 0, phase := .cleared ok started }
  | advanced {action} : s.id.toNat + 1 < 2 ^ 32 →
      Effect s action { s with phase := .head, id := s.id + 1 }

theorem Effect.deaf {s t : State} {action : Action} (hid : t.id = s.id)
    (hactive : t.activeId = s.activeId) (hreplies : t.replies = s.replies)
    (hflight : t.inFlight = s.inFlight) (hreturned : t.returned = s.returned)
    (hphase : t.phase.listens = false) : Effect s action t :=
  .quiet hid hactive hreplies hflight hreturned fun hlistens => by
    rw [hphase] at hlistens
    cases hlistens

theorem step_effect {s t : State} {action : Action} (h : s.step action = some t) :
    Effect s action t := by
  cases action with
  | submit =>
      obtain ⟨_, rfl⟩ := of_guarded h
      exact .quiet rfl rfl rfl rfl rfl Or.inl
  | compare message =>
      obtain ⟨_, rfl⟩ := of_guarded h
      unfold State.compare
      split
      · exact .quiet rfl rfl rfl rfl rfl Or.inl
      · rename_i hsame
        exact .compared message (by simp at hsame; exact hsame.1)
  | enqueue =>
      obtain ⟨message, hflight, rfl⟩ := Option.map_eq_some_iff.1 h
      unfold State.enqueue
      split
      · exact .enqueued message hflight
      · exact .refused
  | drop =>
      obtain ⟨_, rfl⟩ := of_guarded h
      exact .quiet rfl rfl rfl rfl rfl Or.inl
  | detach =>
      cases h
      exact .quiet rfl rfl rfl rfl rfl Or.inl
  | hangUp =>
      obtain ⟨_, rfl⟩ := of_guarded h
      exact .quiet rfl rfl rfl rfl rfl Or.inl
  | look =>
      obtain ⟨_, rfl⟩ := of_guarded h
      exact .deaf rfl rfl rfl rfl rfl (by dsimp only; split <;> rfl)
  | take =>
      obtain ⟨_, rfl⟩ := of_guarded h
      unfold State.take
      split
      · exact .deaf rfl rfl rfl rfl rfl rfl
      · exact .deaf rfl rfl rfl rfl rfl (by dsimp only; split <;> rfl)
  | drain =>
      obtain ⟨hphase, rfl⟩ := of_guarded h
      unfold State.drain
      split
      · exact .drained hphase
      · -- The drain ends on an empty queue, and the worker listens from here on.
        rename_i hempty
        exact .quiet rfl rfl rfl rfl rfl fun _ => Or.inr hempty
  | publish =>
      obtain ⟨hphase, rfl⟩ := of_guarded h
      exact .published hphase
  | start =>
      obtain ⟨hphase, rfl⟩ := of_guarded h
      exact .quiet rfl rfl rfl rfl rfl fun _ => Or.inl (by rw [hphase]; rfl)
  | check expired =>
      obtain ⟨hphase, rfl⟩ := of_guarded h
      exact .quiet rfl rfl rfl rfl rfl fun _ => Or.inl (by rw [hphase]; rfl)
  | receive =>
      obtain ⟨hphase, rfl⟩ := of_guarded h
      unfold State.receive
      split
      · rename_i message rest hreplies
        exact .received message rest hphase hreplies
      · rename_i hempty
        exact .quiet rfl rfl rfl rfl rfl fun _ => Or.inr hempty
  | finish ok =>
      simp only [State.step] at h
      split at h
      · rw [Option.ite_none_left_eq_some, Option.some.injEq] at h
        obtain ⟨_, rfl⟩ := h
        exact .deaf rfl rfl rfl rfl rfl rfl
      · cases h
  | clear =>
      simp only [State.step] at h
      split at h
      · cases h
        exact .cleared
      · cases h
  | report =>
      simp only [State.step] at h
      split at h
      · cases h
        unfold State.report
        split
        · exact .deaf rfl rfl rfl rfl rfl rfl
        · split
          · rename_i hnext
            exact .advanced hnext
          · exact .deaf rfl rfl rfl rfl rfl rfl
      · cases h

/-! ## Runs -/

theorem run_invariant {I : State → Prop} {condition : State → Action → Prop}
    {actions : List Action} {s t : State}
    (hstep : ∀ s t action, condition s action → s.step action = some t → I s → I t)
    (hrun : s.run actions = some t) (halong : Along condition s actions) (hs : I s) : I t := by
  induction actions generalizing s with
  | nil =>
      cases hrun
      exact hs
  | cons action rest ih =>
      obtain ⟨next, hnext, hrest⟩ := Option.bind_eq_some_iff.1 hrun
      exact ih hrest (halong.2 next hnext) (hstep s next action halong.1 hnext hs)

theorem along_trivial (s : State) (actions : List Action) : Along (fun _ _ => True) s actions := by
  induction actions generalizing s with
  | nil => trivial
  | cons action rest ih => exact ⟨trivial, fun next _ => ih next⟩

/-- No reply is compared before its job. -/
structure Behind (s : State) : Prop where
  active : s.activeId.toNat ≤ s.id.toNat
  inFlight : ∀ m ∈ s.inFlight, m.session.toNat ≤ s.id.toNat

theorem Behind.step {s t : State} {action : Action} (h : Behind s)
    (hstep : s.step action = some t) : Behind t := by
  cases step_effect hstep with
  | quiet hid hactive _ hflight _ _ =>
      constructor
      · rw [hactive, hid]
        exact h.active
      · rw [hflight, hid]
        exact h.inFlight
  | compared m hsame =>
      refine ⟨h.active, fun other hother => ?_⟩
      rw [← Option.mem_some_iff.1 hother, hsame]
      exact h.active
  | enqueued m _ => exact ⟨h.active, by simp⟩
  | refused => exact ⟨h.active, by simp⟩
  | drained _ => exact ⟨h.active, h.inFlight⟩
  | published _ => exact ⟨Nat.le_refl _, h.inFlight⟩
  | received m rest _ _ => exact ⟨h.active, h.inFlight⟩
  | cleared => exact ⟨by simp, h.inFlight⟩
  | advanced hnext =>
      have hid : (s.id + 1).toNat = s.id.toNat + 1 := by
        rw [UInt32.toNat_add, UInt32.toNat_one, Nat.mod_eq_of_lt hnext]
      constructor
      · dsimp only
        rw [hid]
        exact Nat.le_succ_of_le h.active
      · intro m hm
        dsimp only
        rw [hid]
        exact Nat.le_succ_of_le (h.inFlight m hm)

/-- A reply that is not enqueued in time was compared for an earlier job. -/
theorem late_of_not_timely {actions : List Action} {s : State} {action : Action}
    (hrun : State.initial.run actions = some s) (hlate : ¬Timely s action) :
    ∃ m ∈ s.inFlight, m.session.toNat < s.id.toNat := by
  have hbehind : Behind s :=
    run_invariant (fun _ _ _ _ hstep h => h.step hstep) hrun (along_trivial _ actions)
      ⟨by decide, by simp [State.initial]⟩
  unfold Timely at hlate
  push Not at hlate
  obtain ⟨_, _, m, hm, hother⟩ := hlate
  refine ⟨m, hm, Nat.lt_of_le_of_ne (hbehind.inFlight m hm) fun hsame => ?_⟩
  exact hother (UInt32.toNat_inj.1 hsame)

/-- The queue of a listening worker holds replies to its job, and so far every job got only
its own. -/
structure Settled (s : State) : Prop where
  replies : s.phase.listens = true → ∀ m ∈ s.replies, m.session = s.id
  returned : OwnReplies s

theorem settled_initial : Settled State.initial where
  replies := by simp [State.initial]
  returned := by simp [OwnReplies, State.initial]

theorem Settled.step {s t : State} {action : Action} (h : Settled s) (htimely : Timely s action)
    (hstep : s.step action = some t) : Settled t := by
  cases step_effect hstep with
  | quiet hid _ hreplies _ hreturned hphase =>
      refine ⟨fun hlistens m hm => ?_, ?_⟩
      · rw [hreplies] at hm
        rw [hid]
        rcases hphase hlistens with hbefore | hempty
        · exact h.replies hbefore m hm
        · rw [hempty] at hm
          cases hm
      · unfold OwnReplies
        rw [hreturned]
        exact h.returned
  | compared m _ => exact ⟨h.replies, h.returned⟩
  | enqueued m hflight =>
      refine ⟨fun hlistens other hother => ?_, h.returned⟩
      rcases List.mem_append.1 hother with hqueued | hnew
      · exact h.replies hlistens other hqueued
      · rw [List.mem_singleton.1 hnew]
        exact htimely rfl hlistens m hflight
  | refused => exact ⟨h.replies, h.returned⟩
  | drained hphase =>
      refine ⟨fun hlistens => ?_, h.returned⟩
      simp [hphase, Phase.listens] at hlistens
  | published hphase =>
      exact ⟨fun _ => h.replies (by rw [hphase]; rfl), h.returned⟩
  | received m rest hphase hreplies =>
      have hown : ∀ m ∈ s.replies, m.session = s.id := h.replies (by rw [hphase]; rfl)
      rw [hreplies, List.forall_mem_cons] at hown
      refine ⟨fun _ => hown.2, fun entry hentry => ?_⟩
      rcases List.mem_append.1 hentry with hbefore | hnew
      · exact h.returned entry hbefore
      · rw [List.mem_singleton.1 hnew]
        exact hown.1
  | cleared => exact ⟨by simp [Phase.listens], h.returned⟩
  | advanced _ => exact ⟨by simp [Phase.listens], h.returned⟩

/-- In every run in which no reply is enqueued behind the drain for another job than its
own, `receive` returns to every job only replies with the job's id. -/
theorem jobs_receive_own_replies (actions : List Action) (s : State)
    (hrun : State.initial.run actions = some s) (htimely : Along Timely State.initial actions) :
    OwnReplies s := by
  have hsettled : Settled s :=
    run_invariant (fun _ _ _ htime hstep h => h.step htime hstep) hrun htimely settled_initial
  exact hsettled.returned

/-- A late reply does reach the wrong job when it is the next one to be received. -/
theorem late_reply_misdelivered {s : State} {m : Message} (hflight : s.inFlight = some m)
    (hlate : m.session ≠ s.id) (hphase : s.phase = .running true) (hempty : s.replies = [])
    (hopen : s.closed = false) :
    ∃ t, s.run [.enqueue, .check false, .receive] = some t ∧ ¬OwnReplies t := by
  refine ⟨{ s with inFlight := none, returned := s.returned ++ [(s.id, m)] }, ?_, ?_⟩
  · simp [State.run, State.step, State.enqueue, State.receive, hflight, hphase, hempty, hopen,
      repliesCapacity]
  · intro hown
    exact hlate (hown (s.id, m) (by simp))

/-! ## Example -/

def endMessage (session : UInt32) : Message :=
  { kind := endOfFile, session, argument := 0, payload := [] }

def takeJob : List Action := [.submit, .look, .take, .drain, .publish, .start]

/-- A second end of the first transfer is compared before the job is over and enqueued when
the next one has started. -/
def lateReply : List Action :=
  takeJob ++ [.compare (endMessage 2), .enqueue, .compare (endMessage 2), .check false, .receive,
    .finish true, .clear, .report] ++ takeJob ++ [.enqueue, .check false, .receive]

/-- The second job gets the reply to the first. -/
theorem late_reply_received :
    (State.initial.run lateReply).map State.returned =
        some [(2, endMessage 2), (3, endMessage 2)] ∧
      (State.initial.run lateReply).any (fun s => decide (OwnReplies s)) = false := by
  decide

/-- Two jobs, each with its reply in time.  A second end of the first transfer is enqueued
when its job is over, and the drain for the next job throws it away. -/
def promptReplies : List Action :=
  takeJob ++ [.compare (endMessage 2), .enqueue, .compare (endMessage 2), .check false, .receive,
    .finish true, .clear, .report, .enqueue, .submit, .look, .take, .drain, .drain, .publish,
    .start, .compare (endMessage 3), .enqueue, .check false, .receive]

theorem promptReplies_timely : Along Timely State.initial promptReplies := by
  simp [promptReplies, takeJob, Along, Timely, State.step, State.initial, State.take, State.drain,
    State.compare, State.enqueue, State.receive, State.report, endMessage, Phase.listens,
    repliesCapacity]

theorem jobs_receive_own_replies_prompt :
    ∃ s, State.initial.run promptReplies = some s ∧
      s.returned = [(2, endMessage 2), (3, endMessage 3)] ∧ OwnReplies s :=
  ⟨_, rfl, rfl, jobs_receive_own_replies promptReplies _ rfl promptReplies_timely⟩

end MacVnc.Client.TransferWorker

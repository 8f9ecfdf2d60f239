import Mathlib.Data.List.Basic
import Mathlib.Algebra.GroupWithZero.Nat
import MacVnc.Lib.Transition
/-!
# Transfer sessions

The transfer client of `macvnc-app/src/transfer.rs` with any number of sessions and
their workers, one mutex-protected block at a time: `submit`, `cancel`, the updates of
the workers, the opening of sessions and their drops.  A session that is not the newest
one has no influence on what the client shows.
-/

namespace MacVnc.Client.TransferSessions

open MacVnc.Lib.Transition (of_guarded)

structure Snapshot where
  busy : Bool
  bytes : Nat
  total : Option Nat
  status : String
deriving DecidableEq

/-- A submitted job: the session it was sent to, its cancel flag, and whether its final
update was made. -/
structure Job where
  session : Nat
  cancel : Bool
  finished : Bool
deriving DecidableEq

/-- Where a worker is in `Worker::run`. -/
inductive Phase where
  | head
  | waiting
  | running (job : Nat)
  /-- Out of the loop, with the receiver of jobs still there. -/
  | leaving
  | stopped
deriving DecidableEq

structure Session where
  generation : Nat
  closed : Bool
  dropped : Bool
  phase : Phase
  queue : Option Nat
  id : UInt32
deriving DecidableEq

/-- The state that a client shares, with all sessions and jobs so far, the last one the
newest.  The route and the cancel flag refer to them. -/
structure State where
  generation : Nat
  route : Option Nat
  cancel : Option Nat
  snapshot : Snapshot
  sessions : List Session
  jobs : List Job
deriving DecidableEq

/-- What a session or its worker updates the snapshot with. -/
inductive Update where
  | sending (size : Nat)
  | receiving
  | progress (bytes : Nat) (total : Option Nat)
  | sent
  | overflow
  | complete
  | stopped (error : String) (started : Bool)
deriving DecidableEq

namespace Update

def apply (view : Snapshot) : Update → Snapshot
  | .sending size => { view with status := "Sending file…", total := some size }
  | .receiving => { view with status := "Receiving file…" }
  | .progress bytes total => { view with bytes, total }
  | .sent => { view with status := "File sent · waiting for the Mac to confirm…" }
  | .overflow => { view with status := "File receiver could not keep up; disconnecting." }
  | .complete =>
      { view with busy := false, status := "Transfer complete · Mac confirmed completion." }
  | .stopped error started =>
      { view with
        busy := false
        status := "Transfer stopped: " ++ error ++
          if started then " · reconnect before retrying; partial Mac files may remain" else "" }

def final : Update → Bool
  | .complete => true
  | .stopped _ _ => true
  | _ => false

theorem busy_apply (view : Snapshot) (u : Update) :
    (u.apply view).busy = (!u.final && view.busy) := by
  cases u <;> rfl

end Update

inductive SubmitError where
  | alreadyActive
  | notConnected
  | workerUnavailable
deriving DecidableEq, Repr

inductive Action where
  | new
  | submit
  | cancel
  | update (session : Nat) (u : Update)
  | look (session : Nat)
  | take (session : Nat)
  | leave (session : Nat)
  | close (session : Nat)
  | drop (session : Nat)
deriving DecidableEq

def Action.dropped : Action → Option Nat
  | .drop k => some k
  | _ => none

namespace Session

def opened (generation : Nat) : Session where
  generation
  closed := false
  dropped := false
  phase := .head
  queue := none
  id := 2

def look (session : Session) : Session :=
  { session with phase := if session.closed then .leaving else .waiting }

/-- `jobs.recv_timeout`. -/
def take (session : Session) (routed : Bool) : Session :=
  match session.queue with
  | some job => { session with phase := .running job, queue := none }
  | none => { session with phase := if routed then .head else .leaving }

def next (session : Session) : Update → Session
  | .stopped _ true => { session with phase := .leaving }
  | _ =>
      if session.id.toNat + 1 < 2 ^ 32 then { session with phase := .head, id := session.id + 1 }
      else { session with phase := .leaving }

/-- The end of the worker, which drops a job that is still queued. -/
def stop (session : Session) : Session := { session with phase := .stopped, queue := none }

end Session

namespace State

def initial : State where
  generation := 0
  route := none
  cancel := none
  snapshot := { busy := false, bytes := 0, total := none, status := "" }
  sessions := []
  jobs := []

def setSession (s : State) (k : Nat) (session : Session) : State :=
  { s with sessions := s.sessions.set k session }

def newSession (s : State) : State :=
  { s with
    generation := s.generation + 1
    route := some s.sessions.length
    cancel := none
    snapshot :=
      { busy := false, bytes := 0, total := none, status := "Select a file to send or receive." }
    sessions := s.sessions ++ [Session.opened (s.generation + 1)] }

def queueJob (s : State) (k : Nat) (session : Session) : State :=
  { s.setSession k { session with queue := some s.jobs.length } with
    jobs := s.jobs ++ [{ session := k, cancel := false, finished := false }] }

def submit (s : State) : Except SubmitError State :=
  if s.snapshot.busy then .error .alreadyActive
  else
    match s.route with
    | none => .error .notConnected
    | some k =>
        match s.sessions[k]? with
        | none => .error .workerUnavailable
        | some session =>
            if session.queue = none ∧ session.phase ≠ .stopped then
              .ok
                { s.queueJob k session with
                  cancel := some s.jobs.length
                  snapshot :=
                    { busy := true, bytes := 0, total := none, status := "Preparing file…" } }
            else .error .workerUnavailable

def setCancel (s : State) (job : Nat) : State :=
  { s with jobs := s.jobs.modify job fun job => { job with cancel := true } }

def cancelJob (s : State) : State :=
  match s.cancel with
  | some job => s.setCancel job
  | none => s

def update (s : State) (generation : Nat) (u : Update) : State :=
  if s.generation = generation then { s with snapshot := u.apply s.snapshot } else s

def finish (s : State) (k : Nat) (session : Session) (job : Nat) (u : Update) : State :=
  { (s.update session.generation u).setSession k (session.next u) with
    jobs := s.jobs.modify job fun job => { job with finished := true } }

/-- The locked block of `drop`. -/
def drop (s : State) (k : Nat) (session : Session) : State :=
  let s := s.setSession k { session with dropped := true }
  if s.generation = session.generation then
    let s := { s.cancelJob with route := none, cancel := none }
    if s.snapshot.busy then
      { s with
        snapshot :=
          { s.snapshot with
            busy := false
            status :=
              "Transfer stopped with the screen-sharing session. Partial Mac files may remain." } }
    else s
  else s

def step (s : State) : Action → Option State
  -- The generation must not overflow.
  | .new => if s.generation + 1 < 2 ^ 64 then some s.newSession else none
  | .submit =>
      match s.submit with
      | .ok s => some s
      | .error _ => some s
  | .cancel => some s.cancelJob
  | .update k u =>
      s.sessions[k]?.bind fun session =>
        match session.phase, u with
        -- A reply that does not fit is reported by the session itself.
        | _, .overflow => if session.dropped then none else some (s.update session.generation u)
        | .running job, u =>
            if u.final then some (s.finish k session job u)
            else some (s.update session.generation u)
        | _, _ => none
  | .look k =>
      s.sessions[k]?.bind fun session =>
        if session.phase = .head then some (s.setSession k session.look) else none
  | .take k =>
      s.sessions[k]?.bind fun session =>
        if session.phase = .waiting then some (s.setSession k (session.take (s.route = some k)))
        else none
  | .leave k =>
      s.sessions[k]?.bind fun session =>
        if session.phase = .leaving then some (s.setSession k session.stop) else none
  -- The first store of `drop`, or the last one of a session that cannot keep up.
  | .close k =>
      s.sessions[k]?.map fun session =>
        s.setSession k { session with closed := true }
  | .drop k =>
      s.sessions[k]?.bind fun session =>
        if session.closed ∧ session.dropped = false then some (s.drop k session) else none

def run (s : State) : List Action → Option State
  | [] => some s
  | action :: rest => (s.step action).bind fun next => next.run rest

end State

/-! ## One step -/

/-- A step of a session or of its worker that touches nothing shared. -/
structure Session.Moves (x y : Session) : Prop where
  generation : y.generation = x.generation
  holds : ∀ job, y.phase = .running job ∨ y.queue = some job →
    x.phase = .running job ∨ x.queue = some job
  apart : ∀ job, y.phase = .running job → y.queue ≠ some job

theorem Session.next_spec (x : Session) (u : Update) :
    (x.next u).generation = x.generation ∧ (x.next u).dropped = x.dropped ∧
      (x.next u).queue = x.queue ∧ ∀ job, (x.next u).phase ≠ .running job := by
  unfold Session.next
  split
  · simp
  · split <;> simp

/-- What a step does to the shared state, and the session it drops. -/
inductive Effect (s : State) : Option Nat → State → Prop
  | unchanged : Effect s none s
  | opened : Effect s none s.newSession
  | submitted {t} : s.submit = .ok t → Effect s none t
  | cancelled : Effect s none s.cancelJob
  | updated {k : Nat} {x : Session} (u : Update) : s.sessions[k]? = some x → u.final = false →
      Effect s none (s.update x.generation u)
  | finished {k : Nat} {x : Session} {job : Nat} (u : Update) : s.sessions[k]? = some x →
      x.phase = .running job → u.final = true → Effect s none (s.finish k x job u)
  | moved {k : Nat} {x y : Session} : s.sessions[k]? = some x →
      ((∀ job, x.phase = .running job → x.queue ≠ some job) → x.Moves y) →
      y.dropped = x.dropped → Effect s none (s.setSession k y)
  | dropped {k : Nat} {x : Session} : s.sessions[k]? = some x → Effect s (some k) (s.drop k x)

theorem Session.look_moves (x : Session) : x.Moves x.look := by
  unfold Session.look
  refine ⟨rfl, fun job hjob => Or.inr (hjob.resolve_left ?_), fun job hrunning => ?_⟩
  · dsimp only
    split <;> simp
  · dsimp only at hrunning
    split at hrunning <;> cases hrunning

theorem Session.take_moves (x : Session) (routed : Bool) : x.Moves (x.take routed) := by
  unfold Session.take
  split
  · rename_i job hqueue
    refine ⟨rfl, fun other hother => Or.inr ?_, fun other _ => by simp⟩
    rw [hqueue]
    simpa [eq_comm] using hother
  · rename_i hqueue
    refine ⟨rfl, fun other hother => Or.inr (hother.resolve_left ?_), fun other _ => ?_⟩
    · dsimp only
      split <;> simp
    · dsimp only
      rw [hqueue]
      simp

theorem Session.stop_moves (x : Session) : x.Moves x.stop :=
  ⟨rfl, by simp [Session.stop], by simp [Session.stop]⟩

theorem step_effect {s t : State} {action : Action} (h : s.step action = some t) :
    Effect s action.dropped t := by
  cases action with
  | new =>
      obtain ⟨_, rfl⟩ := of_guarded h
      exact .opened
  | submit =>
      simp only [State.step] at h
      split at h
      · cases h
        rename_i hsubmit
        exact .submitted hsubmit
      · cases h
        exact .unchanged
  | cancel =>
      cases h
      exact .cancelled
  | update k u =>
      obtain ⟨x, hx, hupdate⟩ := Option.bind_eq_some_iff.1 h
      split at hupdate
      · rw [Option.ite_none_left_eq_some, Option.some.injEq] at hupdate
        obtain ⟨_, rfl⟩ := hupdate
        exact .updated _ hx rfl
      · rename_i job hphase _
        split at hupdate
        · cases hupdate
          rename_i hfinal
          exact .finished _ hx hphase hfinal
        · cases hupdate
          rename_i hfinal
          exact .updated _ hx (by simpa using hfinal)
      · cases hupdate
  | look k =>
      obtain ⟨x, hx, hlook⟩ := Option.bind_eq_some_iff.1 h
      obtain ⟨_, rfl⟩ := of_guarded hlook
      exact .moved hx (fun _ => x.look_moves) rfl
  | take k =>
      obtain ⟨x, hx, htake⟩ := Option.bind_eq_some_iff.1 h
      obtain ⟨_, rfl⟩ := of_guarded htake
      exact .moved hx (fun _ => x.take_moves _) (by unfold Session.take; split <;> rfl)
  | leave k =>
      obtain ⟨x, hx, hleave⟩ := Option.bind_eq_some_iff.1 h
      obtain ⟨_, rfl⟩ := of_guarded hleave
      exact .moved hx (fun _ => x.stop_moves) rfl
  | close k =>
      obtain ⟨x, hx, rfl⟩ := Option.map_eq_some_iff.1 h
      exact .moved hx (fun hapart => ⟨rfl, fun _ => id, hapart⟩) rfl
  | drop k =>
      obtain ⟨x, hx, hdrop⟩ := Option.bind_eq_some_iff.1 h
      obtain ⟨_, rfl⟩ := of_guarded hdrop
      exact .dropped hx

/-! ## The invariant -/

namespace State

def Newest (s : State) (k : Nat) : Prop := k + 1 = s.sessions.length

instance (s : State) (k : Nat) : Decidable (s.Newest k) := inferInstanceAs (Decidable (_ = _))

def jobState (s : State) (j : Nat) : Option (Nat × Bool) :=
  s.jobs[j]?.map fun job => (job.session, job.finished)

def Unfinished (s : State) (j : Nat) : Prop := ∃ k, s.jobState j = some (k, false) ∧ s.Newest k

/-- The newest session has not been dropped. -/
def Live (s : State) : Prop := ∃ k, s.Newest k ∧ s.sessions[k]?.map Session.dropped = some false

def flag (s : State) (j : Nat) : Option Bool := s.jobs[j]?.map Job.cancel

theorem jobState_setCancel (s : State) (i j : Nat) : (s.setCancel i).jobState j = s.jobState j := by
  unfold jobState setCancel
  rw [List.getElem?_modify, Option.map_eq_map, Option.map_map]
  congr 1
  funext job
  dsimp only [Function.comp_apply]
  split <;> rfl

theorem cancelJob_same (s : State) :
    ∃ jobs, s.cancelJob = { s with jobs } ∧ jobs.length = s.jobs.length ∧
      ∀ j, s.cancelJob.jobState j = s.jobState j := by
  unfold cancelJob
  split
  · rename_i i _
    exact ⟨_, rfl, List.length_modify .., s.jobState_setCancel i⟩
  · exact ⟨s.jobs, rfl, rfl, fun _ => rfl⟩

end State

/-- What is shared belongs to the newest session. -/
structure Shared (s : State) : Prop where
  route : ∀ k ∈ s.route, s.Newest k
  single : ∀ i j, s.Unfinished i → s.Unfinished j → i = j
  busy : s.snapshot.busy = true ↔ (∃ j, s.Unfinished j) ∧ s.Live

/-- How generations, sessions and jobs belong together. -/
structure Linked (s : State) : Prop where
  generation : s.generation = s.sessions.length
  generations : ∀ (k : Nat) x, s.sessions[k]? = some x → x.generation = k + 1
  owners : ∀ j k finished, s.jobState j = some (k, finished) → k < s.sessions.length
  holds : ∀ (k : Nat) x j, s.sessions[k]? = some x → x.phase = .running j ∨ x.queue = some j →
    s.jobState j = some (k, false)
  apart : ∀ (k : Nat) x j, s.sessions[k]? = some x → x.phase = .running j → x.queue ≠ some j

structure Inv (s : State) : Prop extends Shared s, Linked s where
  live : ∀ k ∈ s.route, s.Live
  last : ∀ j ∈ s.cancel, j + 1 = s.jobs.length

theorem inv_initial : Inv State.initial where
  route := by simp [State.initial]
  single := by simp [State.Unfinished, State.jobState, State.initial]
  busy := by simp [State.Unfinished, State.jobState, State.initial]
  generation := rfl
  generations := by simp [State.initial]
  owners := by simp [State.jobState, State.initial]
  holds := by simp [State.initial]
  apart := by simp [State.initial]
  live := by simp [State.initial]
  last := by simp [State.initial]

theorem State.unfinished_cancelJob (s : State) (j : Nat) :
    s.cancelJob.Unfinished j ↔ s.Unfinished j := by
  obtain ⟨jobs, hsame, _, hstate⟩ := s.cancelJob_same
  unfold State.Unfinished
  rw [hstate, hsame]
  rfl

theorem Linked.congr {s t : State} (h : Linked s) (hgeneration : t.generation = s.generation)
    (hsessions : t.sessions = s.sessions) (hstate : ∀ j, t.jobState j = s.jobState j) :
    Linked t := by
  refine ⟨?_, ?_, ?_, ?_, ?_⟩
  · rw [hgeneration, hsessions]
    exact h.generation
  · rw [hsessions]
    exact h.generations
  · simp only [hsessions, hstate]
    exact h.owners
  · simp only [hsessions, hstate]
    exact h.holds
  · rw [hsessions]
    exact h.apart

theorem Linked.cancelJob {s : State} (h : Linked s) : Linked s.cancelJob := by
  obtain ⟨jobs, hsame, _, hstate⟩ := s.cancelJob_same
  rw [hsame] at hstate ⊢
  exact h.congr rfl rfl hstate

section Sessions

variable {s : State} {k : Nat} {x y : Session}

theorem getElem?_setSession (hx : s.sessions[k]? = some x) (i : Nat) :
    (s.setSession k y).sessions[i]? = if i = k then some y else s.sessions[i]? := by
  have hlt : k < s.sessions.length := (List.getElem?_eq_some_iff.1 hx).1
  rw [State.setSession, List.getElem?_set]
  split
  · rename_i hsame
    rw [if_pos hsame.symm]
  · rename_i hother
    rw [if_neg fun hsame => hother hsame.symm]

theorem newest_setSession (i : Nat) : (s.setSession k y).Newest i ↔ s.Newest i := by
  rw [State.Newest, State.setSession, List.length_set, State.Newest]

theorem unfinished_setSession (j : Nat) : (s.setSession k y).Unfinished j ↔ s.Unfinished j := by
  unfold State.Unfinished
  simp only [newest_setSession]
  rfl

theorem live_setSession (hx : s.sessions[k]? = some x)
    (hkept : s.Newest k → y.dropped = x.dropped) : (s.setSession k y).Live ↔ s.Live := by
  unfold State.Live
  simp only [newest_setSession, getElem?_setSession hx]
  refine exists_congr fun i => and_congr_right fun hnewest => ?_
  split
  · rename_i hsame
    rw [hsame, hx, Option.map_some, Option.map_some, hkept (hsame ▸ hnewest)]
  · rfl

/-- The generation of a session is the client's exactly for the newest one. -/
theorem Linked.generation_eq_iff (h : Linked s) (hx : s.sessions[k]? = some x) :
    s.generation = x.generation ↔ s.Newest k := by
  rw [h.generation, h.generations k x hx, State.Newest, eq_comm]

theorem Linked.setSession (h : Linked s) (hx : s.sessions[k]? = some x) (hmoves : x.Moves y) :
    Linked (s.setSession k y) := by
  have hget := getElem?_setSession (y := y) hx
  have hlength : (s.setSession k y).sessions.length = s.sessions.length := List.length_set
  constructor
  · rw [hlength]
    exact h.generation
  · intro i z hz
    rw [hget] at hz
    split at hz
    · rename_i hsame
      cases hz
      rw [hmoves.generation, hsame]
      exact h.generations k x hx
    · exact h.generations i z hz
  · rw [hlength]
    exact h.owners
  · intro i z j hz hheld
    rw [hget] at hz
    split at hz
    · rename_i hsame
      cases hz
      rw [hsame]
      exact h.holds k x j hx (hmoves.holds j hheld)
    · exact h.holds i z j hz hheld
  · intro i z j hz hrunning
    rw [hget] at hz
    split at hz
    · cases hz
      exact hmoves.apart j hrunning
    · exact h.apart i z j hz hrunning

theorem jobState_queueJob (s : State) (k : Nat) (x : Session) (j : Nat) :
    (s.queueJob k x).jobState j =
      if j = s.jobs.length then some (k, false) else s.jobState j := by
  unfold State.jobState State.queueJob
  dsimp only
  rw [List.getElem?_append]
  split
  · rw [if_neg (by omega)]
  · rename_i hge
    split
    · rename_i hsame
      rw [hsame, Nat.sub_self]
      rfl
    · rw [List.getElem?_eq_none (by simp; omega), List.getElem?_eq_none (by omega)]

theorem jobState_lt {j : Nat} {entry : Nat × Bool} (h : s.jobState j = some entry) :
    j < s.jobs.length := by
  obtain ⟨job, hjob, _⟩ := Option.map_eq_some_iff.1 h
  exact (List.getElem?_eq_some_iff.1 hjob).1

theorem Linked.queueJob (h : Linked s) (hx : s.sessions[k]? = some x) :
    Linked (s.queueJob k x) := by
  have hget : ∀ i : Nat, (s.queueJob k x).sessions[i]? =
      if i = k then some { x with queue := some s.jobs.length } else s.sessions[i]? :=
    getElem?_setSession hx
  have hlength : (s.queueJob k x).sessions.length = s.sessions.length := List.length_set
  have hstate := jobState_queueJob s k x
  have hold : ∀ i z j, s.sessions[i]? = some z → z.phase = .running j ∨ z.queue = some j →
      (s.queueJob k x).jobState j = some (i, false) := by
    intro i z j hz hheld
    have hj := h.holds i z j hz hheld
    rw [hstate, if_neg (Nat.ne_of_lt (jobState_lt hj)), hj]
  constructor
  · rw [hlength]
    exact h.generation
  · intro i z hz
    rw [hget] at hz
    split at hz
    · rename_i hsame
      cases hz
      rw [hsame]
      exact h.generations k x hx
    · exact h.generations i z hz
  · intro j i finished hj
    rw [hlength]
    rw [hstate] at hj
    split at hj
    · cases hj
      exact (List.getElem?_eq_some_iff.1 hx).1
    · exact h.owners j i finished hj
  · intro i z j hz hheld
    rw [hget] at hz
    split at hz
    · rename_i hsame
      cases hz
      rcases hheld with hrunning | hqueued
      · rw [hsame]
        exact hold k x j hx (Or.inl hrunning)
      · cases hqueued
        rw [hstate, if_pos rfl, hsame]
    · exact hold i z j hz hheld
  · intro i z j hz hrunning
    rw [hget] at hz
    split at hz
    · cases hz
      intro hsame
      cases hsame
      have := jobState_lt (h.holds k x _ hx (Or.inl hrunning))
      omega
    · exact h.apart i z j hz hrunning

/-- The sessions and the jobs behind a final update. -/
theorem finish_same (s : State) (k : Nat) (x : Session) (job : Nat) (u : Update) :
    (s.finish k x job u).sessions = (s.setSession k (x.next u)).sessions ∧
      (s.finish k x job u).generation = s.generation ∧
      (s.finish k x job u).route = s.route ∧ (s.finish k x job u).cancel = s.cancel ∧
      (s.finish k x job u).jobs.length = s.jobs.length ∧
      (s.finish k x job u).snapshot = (s.update x.generation u).snapshot := by
  unfold State.finish State.setSession State.update
  refine ⟨?_, ?_, ?_, ?_, List.length_modify .., rfl⟩ <;> split <;> rfl

theorem jobState_finish (s : State) (k : Nat) (x : Session) (job : Nat) (u : Update) (j : Nat) :
    (s.finish k x job u).jobState j =
      if j = job then (s.jobState j).map fun entry => (entry.1, true) else s.jobState j := by
  unfold State.jobState State.finish
  dsimp only
  rw [List.getElem?_modify, Option.map_eq_map, Option.map_map]
  by_cases hsame : j = job
  · rw [if_pos hsame, Option.map_map]
    congr 1
    funext entry
    simp [hsame]
  · rw [if_neg hsame]
    congr 1
    funext entry
    simp [Ne.symm hsame]

theorem Linked.finish (h : Linked s) {job : Nat} (u : Update) (hx : s.sessions[k]? = some x)
    (hphase : x.phase = .running job) : Linked (s.finish k x job u) := by
  obtain ⟨hsessions, hgeneration, _, _, _, _⟩ := finish_same s k x job u
  obtain ⟨hsame, _, hqueue, hidle⟩ := x.next_spec u
  have hmoved := h.setSession (y := x.next u) hx
    ⟨hsame, fun j hj => Or.inr (hqueue ▸ hj.resolve_left (hidle j)),
      fun j hj => absurd hj (hidle j)⟩
  have hstate := jobState_finish s k x job u
  constructor
  · rw [hgeneration, hsessions]
    exact hmoved.generation
  · rw [hsessions]
    exact hmoved.generations
  · intro j i finished hj
    rw [hsessions]
    rw [hstate] at hj
    split at hj
    · obtain ⟨entry, hentry, hpair⟩ := Option.map_eq_some_iff.1 hj
      cases hpair
      exact hmoved.owners j entry.1 entry.2 hentry
    · exact hmoved.owners j i finished hj
  · intro i z j hz hheld
    rw [hsessions] at hz
    rw [hstate, if_neg]
    · exact hmoved.holds i z j hz hheld
    · -- The finished job was running in its own session only, and was not queued there.
      rintro rfl
      have hown := h.holds k x j hx (Or.inl hphase)
      have hclaim : s.jobState j = some (i, false) := hmoved.holds i z j hz hheld
      rw [hown] at hclaim
      cases hclaim
      rw [getElem?_setSession hx, if_pos rfl] at hz
      cases hz
      rcases hheld with hrunning | hqueued
      · exact hidle j hrunning
      · rw [hqueue] at hqueued
        exact h.apart k x j hx hphase hqueued
  · rw [hsessions]
    exact hmoved.apart

end Sessions

namespace Inv

variable {s : State}

theorem update (h : Inv s) {u : Update} (hfinal : u.final = false) (generation : Nat) :
    Inv (s.update generation u) := by
  unfold State.update
  split
  · have hbusy : (u.apply s.snapshot).busy = s.snapshot.busy := by
      rw [Update.busy_apply, hfinal]
      rfl
    exact
      { h with
        busy := by
          rw [hbusy]
          exact h.busy }
  · exact h

theorem cancelJob (h : Inv s) : Inv s.cancelJob := by
  have hlinked := h.toLinked.cancelJob
  have hunfinished := s.unfinished_cancelJob
  obtain ⟨jobs, hsame, hlength, _⟩ := s.cancelJob_same
  rw [hsame] at hlinked hunfinished ⊢
  refine ⟨⟨h.route, ?_, ?_⟩, hlinked, h.live, ?_⟩
  · simp only [hunfinished]
    exact h.single
  · simp only [hunfinished]
    exact h.busy
  · rw [hlength]
    exact h.last

theorem setSession (h : Inv s) {k : Nat} {x y : Session} (hx : s.sessions[k]? = some x)
    (hmoves : x.Moves y) (hkept : y.dropped = x.dropped) : Inv (s.setSession k y) := by
  have hlive := live_setSession hx fun _ => hkept
  refine ⟨⟨?_, ?_, ?_⟩, h.toLinked.setSession hx hmoves, ?_, h.last⟩
  · simp only [newest_setSession]
    exact h.route
  · simp only [unfinished_setSession]
    exact h.single
  · simp only [unfinished_setSession, hlive]
    exact h.busy
  · simp only [hlive]
    exact h.live

theorem newSession (h : Inv s) : Inv s.newSession := by
  have hlength : s.newSession.sessions.length = s.sessions.length + 1 := List.length_append
  have hget : ∀ i z, s.newSession.sessions[i]? = some z →
      s.sessions[i]? = some z ∨ i = s.sessions.length ∧ z = Session.opened (s.generation + 1) := by
    intro i z hz
    rw [State.newSession, List.getElem?_append] at hz
    split at hz
    · exact Or.inl hz
    · rename_i hge
      rw [List.getElem?_singleton, Option.ite_none_right_eq_some] at hz
      exact Or.inr ⟨by omega, by simpa [eq_comm] using hz.2⟩
  -- The jobs are jobs of other sessions.
  have hnone : ∀ j, ¬s.newSession.Unfinished j := by
    rintro j ⟨k, hstate, hnewest⟩
    have := h.owners j k false hstate
    rw [State.Newest, hlength] at hnewest
    omega
  refine ⟨⟨?_, fun i j hi => absurd hi (hnone i), ?_⟩, ⟨?_, ?_, ?_, ?_, ?_⟩, ?_, by
    simp [State.newSession]⟩
  · intro k hk
    cases hk
    rw [State.Newest, hlength]
  · exact ⟨nofun, fun ⟨⟨j, hj⟩, _⟩ => absurd hj (hnone j)⟩
  · rw [hlength, ← h.generation]
    rfl
  · intro i z hz
    rcases hget i z hz with hold | ⟨rfl, rfl⟩
    · exact h.generations i z hold
    · rw [← h.generation]
      rfl
  · intro j k finished hstate
    rw [hlength]
    exact Nat.lt_succ_of_lt (h.owners j k finished hstate)
  · intro i z j hz hheld
    rcases hget i z hz with hold | ⟨rfl, rfl⟩
    · exact h.holds i z j hold hheld
    · simp [Session.opened] at hheld
  · intro i z j hz hrunning
    rcases hget i z hz with hold | ⟨rfl, rfl⟩
    · exact h.apart i z j hold hrunning
    · simp [Session.opened] at hrunning
  · intro _ _
    refine ⟨s.sessions.length, by rw [State.Newest, hlength], ?_⟩
    rw [State.newSession, List.getElem?_concat_length]
    rfl

/-- A job is submitted to the newest session, which has no other. -/
theorem submit_inversion {t : State} (h : s.submit = .ok t) :
    ∃ k x, s.snapshot.busy = false ∧ s.route = some k ∧ s.sessions[k]? = some x ∧
      x.queue = none ∧
      t =
        { s.queueJob k x with
          cancel := some s.jobs.length
          snapshot :=
            { busy := true, bytes := 0, total := none, status := "Preparing file…" } } := by
  unfold State.submit at h
  split at h
  · cases h
  · rename_i hidle
    split at h
    · cases h
    · rename_i k hroute
      split at h
      · cases h
      · rename_i x hx
        split at h
        · rename_i hroom
          cases h
          exact ⟨k, x, by simpa using hidle, hroute, hx, hroom.1, rfl⟩
        · cases h

theorem submit (h : Inv s) {t : State} (hsubmit : s.submit = .ok t) : Inv t := by
  obtain ⟨k, x, hidle, hroute, hx, hempty, ht⟩ := submit_inversion hsubmit
  have hlinked := h.toLinked.queueJob hx
  have hstate := jobState_queueJob s k x
  have hnewest : ∀ i, (s.queueJob k x).Newest i ↔ s.Newest i := newest_setSession
  have hlive : (s.queueJob k x).Live :=
    (live_setSession (y := { x with queue := some s.jobs.length }) hx fun _ => rfl).2
      (h.live k hroute)
  -- The client was not busy, so the new job is the only unfinished one.
  have hnone : ∀ j, ¬s.Unfinished j := by
    intro j hj
    have := h.busy.2 ⟨⟨j, hj⟩, h.live k hroute⟩
    rw [hidle] at this
    cases this
  have hunfinished : ∀ j, (s.queueJob k x).Unfinished j ↔ j = s.jobs.length := by
    intro j
    unfold State.Unfinished
    simp only [hstate, hnewest]
    constructor
    · rintro ⟨i, hi, hni⟩
      split at hi
      · assumption
      · exact absurd ⟨i, hi, hni⟩ (hnone j)
    · intro hj
      exact ⟨k, by rw [if_pos hj], h.route k hroute⟩
  rw [ht]
  refine ⟨⟨fun i hi => (hnewest i).2 (h.route i hi), fun i j hi hj => ?_, ?_⟩,
    hlinked.congr rfl rfl fun _ => rfl,
    fun _ _ => hlive, by simp [State.queueJob]⟩
  · rw [(hunfinished i).1 hi, (hunfinished j).1 hj]
  · exact ⟨fun _ => ⟨⟨_, (hunfinished _).2 rfl⟩, hlive⟩, fun _ => rfl⟩

/-- A final update ends the only unfinished job of the newest session, or a job of another
one. -/
theorem finish (h : Inv s) {k job : Nat} {x : Session} {u : Update}
    (hx : s.sessions[k]? = some x) (hphase : x.phase = .running job) (hfinal : u.final = true) :
    Inv (s.finish k x job u) := by
  obtain ⟨hsessions, _, hroute, hcancel, hlength, hsnapshot⟩ := finish_same s k x job u
  obtain ⟨_, hdropped, _, _⟩ := x.next_spec u
  have hstate := jobState_finish s k x job u
  have hnewest : ∀ i, (s.finish k x job u).Newest i ↔ s.Newest i := by
    intro i
    rw [State.Newest, hsessions]
    exact newest_setSession i
  have hlive : (s.finish k x job u).Live ↔ s.Live := by
    have hmoved := live_setSession hx fun _ => hdropped
    unfold State.Live at hmoved ⊢
    simp only [hnewest, hsessions]
    simp only [newest_setSession] at hmoved
    exact hmoved
  have hunfinished : ∀ j, (s.finish k x job u).Unfinished j ↔ s.Unfinished j ∧ j ≠ job := by
    intro j
    unfold State.Unfinished
    simp only [hstate, hnewest]
    split
    · rename_i hsame
      simp [hsame]
    · rename_i hother
      simp [hother]
  have hown := h.holds k x job hx (Or.inl hphase)
  refine ⟨⟨?_, ?_, ?_⟩, h.toLinked.finish u hx hphase, ?_, ?_⟩
  · rw [hroute]
    simp only [hnewest]
    exact h.route
  · intro i j hi hj
    exact h.single i j ((hunfinished i).1 hi).1 ((hunfinished j).1 hj).1
  · simp only [hunfinished, hlive]
    rw [hsnapshot, State.update]
    by_cases hthis : s.Newest k
    · rw [if_pos ((h.generation_eq_iff hx).2 hthis)]
      dsimp only
      rw [Update.busy_apply, hfinal]
      refine ⟨nofun, fun ⟨⟨j, hj, hother⟩, _⟩ => ?_⟩
      exact absurd (h.single j job hj ⟨k, hown, hthis⟩) hother
    · rw [if_neg fun hsame => hthis ((h.generation_eq_iff hx).1 hsame), h.busy]
      refine and_congr_left fun _ => exists_congr fun j => ?_
      refine ⟨fun hj => ⟨hj, ?_⟩, fun hj => hj.1⟩
      rintro rfl
      obtain ⟨i, hi, hni⟩ := hj
      rw [hown] at hi
      cases hi
      exact hthis hni
  · rw [hroute]
    simp only [hlive]
    exact h.live
  · rw [hcancel, hlength]
    exact h.last

/-- The drop of the newest session leaves no route and nothing busy; that of another one
changes nothing that is shared. -/
theorem drop (h : Inv s) {k : Nat} {x : Session} (hx : s.sessions[k]? = some x) :
    Inv (s.drop k x) := by
  have hlinked : Linked (s.setSession k { x with dropped := true }) :=
    h.toLinked.setSession hx ⟨rfl, fun _ => id, fun j => h.apart k x j hx⟩
  unfold State.drop
  dsimp only
  split
  · rename_i hsame
    have hthis : s.Newest k := (h.generation_eq_iff hx).1 hsame
    have hcancelled := hlinked.cancelJob
    have hunfinished := (s.setSession k { x with dropped := true }).unfinished_cancelJob
    obtain ⟨jobs, hjobs, _, _⟩ := (s.setSession k { x with dropped := true }).cancelJob_same
    rw [hjobs] at hcancelled hunfinished ⊢
    have hdead : ¬(s.setSession k { x with dropped := true }).Live := by
      rintro ⟨i, hi, hdropped⟩
      rw [newest_setSession] at hi
      have hsame' : i = k := by
        unfold State.Newest at hi hthis
        omega
      rw [getElem?_setSession hx, if_pos hsame'] at hdropped
      cases hdropped
    have hsingle : ∀ i j, { s.setSession k { x with dropped := true } with jobs }.Unfinished i →
        { s.setSession k { x with dropped := true } with jobs }.Unfinished j → i = j := by
      simp only [hunfinished, unfinished_setSession]
      exact h.single
    have hlink : ∀ snapshot, Linked
        { s.setSession k { x with dropped := true } with
          jobs, route := none, cancel := none, snapshot } :=
      fun _ => hcancelled.congr rfl rfl fun _ => rfl
    split
    · refine ⟨⟨nofun, hsingle, ?_⟩, hlink _, nofun, nofun⟩
      exact ⟨nofun, fun ⟨_, hlive⟩ => absurd hlive hdead⟩
    · rename_i hidle
      refine ⟨⟨nofun, hsingle, ?_⟩, hlink _, nofun, nofun⟩
      exact ⟨fun hbusy => absurd hbusy hidle, fun ⟨_, hlive⟩ => absurd hlive hdead⟩
  · rename_i hother
    have hold : ¬s.Newest k := fun hthis => hother ((h.generation_eq_iff hx).2 hthis)
    have hlive :=
      live_setSession (y := { x with dropped := true }) hx fun hthis => absurd hthis hold
    refine ⟨⟨?_, ?_, ?_⟩, hlinked, ?_, h.last⟩
    · simp only [newest_setSession]
      exact h.route
    · simp only [unfinished_setSession]
      exact h.single
    · simp only [unfinished_setSession, hlive]
      exact h.busy
    · simp only [hlive]
      exact h.live

theorem step (h : Inv s) {t : State} {action : Action} (hstep : s.step action = some t) :
    Inv t := by
  have heffect := step_effect hstep
  generalize action.dropped = d at heffect
  cases heffect with
  | unchanged => exact h
  | opened => exact h.newSession
  | submitted hsubmit => exact h.submit hsubmit
  | cancelled => exact h.cancelJob
  | updated u hx hfinal => exact h.update hfinal _
  | finished u hx hphase hfinal => exact h.finish hx hphase hfinal
  | moved hx hmoves hdropped => exact h.setSession hx (hmoves fun j => h.apart _ _ j hx) hdropped
  | dropped hx => exact h.drop hx

theorem run (h : Inv s) {t : State} {actions : List Action} (hrun : s.run actions = some t) :
    Inv t := by
  induction actions generalizing s with
  | nil =>
      cases hrun
      exact h
  | cons action rest ih =>
      obtain ⟨next, hnext, hrest⟩ := Option.bind_eq_some_iff.1 hrun
      exact ih (h.step hnext) hrest

theorem update_older (h : Inv s) {t : State} {k : Nat} {u : Update} (hold : ¬s.Newest k)
    (hstep : s.step (.update k u) = some t) : t.snapshot = s.snapshot := by
  obtain ⟨x, hx, hupdate⟩ := Option.bind_eq_some_iff.1 hstep
  have hother : ¬s.generation = x.generation := fun hsame => hold ((h.generation_eq_iff hx).1 hsame)
  have hstill : ∀ u, s.update x.generation u = s := fun _ => if_neg hother
  split at hupdate
  · rw [Option.ite_none_left_eq_some, Option.some.injEq, hstill] at hupdate
    rw [hupdate.2]
  · split at hupdate
    · cases hupdate
      obtain ⟨_, _, _, _, _, hsnapshot⟩ := finish_same s k x _ _
      rw [hsnapshot, hstill]
    · rw [Option.some.injEq, hstill] at hupdate
      rw [hupdate]
  · cases hupdate

theorem drop_older (h : Inv s) {t : State} {k : Nat} (hold : ¬s.Newest k)
    (hstep : s.step (.close k) = some t ∨ s.step (.drop k) = some t) :
    t.route = s.route ∧ t.cancel = s.cancel ∧ t.snapshot = s.snapshot ∧ t.jobs = s.jobs := by
  rcases hstep with hclose | hdrop
  · obtain ⟨x, hx, rfl⟩ := Option.map_eq_some_iff.1 hclose
    exact ⟨rfl, rfl, rfl, rfl⟩
  · obtain ⟨x, hx, hguard⟩ := Option.bind_eq_some_iff.1 hdrop
    obtain ⟨_, rfl⟩ := of_guarded hguard
    have hother : ¬s.generation = x.generation := fun hsame =>
      hold ((h.generation_eq_iff hx).1 hsame)
    have hlocal : s.drop k x = s.setSession k { x with dropped := true } := if_neg hother
    rw [hlocal]
    exact ⟨rfl, rfl, rfl, rfl⟩

/-- No step sets the flag of a job before the last one. -/
theorem flag_step (h : Inv s) {t : State} {action : Action} (hstep : s.step action = some t)
    {j : Nat} (hj : j + 1 < s.jobs.length) : t.flag j = s.flag j := by
  have hcancel : ∀ r : State, r.cancel = s.cancel → r.jobs = s.jobs →
      r.cancelJob.flag j = s.flag j := by
    intro r hflag hjobs
    unfold State.cancelJob
    split
    · rename_i i hi
      have hlast := h.last i (hflag ▸ hi)
      have hother : i ≠ j := by omega
      simp [State.flag, State.setCancel, hjobs, hother]
    · rw [State.flag, hjobs, State.flag]
  have heffect := step_effect hstep
  generalize action.dropped = d at heffect
  cases heffect with
  | unchanged => rfl
  | opened => rfl
  | submitted hsubmit =>
      obtain ⟨k, x, _, _, _, _, rfl⟩ := submit_inversion hsubmit
      unfold State.flag State.queueJob
      dsimp only
      rw [List.getElem?_append_left (by omega)]
  | cancelled => exact hcancel s rfl rfl
  | updated u _ _ =>
      unfold State.update
      split <;> rfl
  | @finished k x job u _ _ _ =>
      unfold State.flag State.finish
      dsimp only
      rw [List.getElem?_modify, Option.map_eq_map, Option.map_map]
      congr 1
      funext entry
      dsimp only [Function.comp_apply]
      split <;> rfl
  | moved _ _ _ => rfl
  | @dropped k x _ =>
      unfold State.drop
      dsimp only
      split
      · have hflag := hcancel (s.setSession k { x with dropped := true }) rfl rfl
        split <;> exact hflag
      · rfl

end Inv

/-! ## Drops -/

theorem sessions_drop (s : State) (k : Nat) (x : Session) :
    (s.drop k x).sessions = (s.setSession k { x with dropped := true }).sessions := by
  have hcancel : ∀ r : State, r.cancelJob.sessions = r.sessions := by
    intro r
    obtain ⟨jobs, hsame, -⟩ := r.cancelJob_same
    rw [hsame]
  unfold State.drop
  dsimp only
  split
  · split <;> exact hcancel _
  · rfl

/-- Sessions are only added, and only the session that a step drops is marked. -/
theorem Effect.sessions {s t : State} {d : Option Nat} (h : Effect s d t) :
    s.sessions.length ≤ t.sessions.length ∧ (∀ k ∈ d, k < s.sessions.length) ∧
      ∀ k x, t.sessions[k]? = some x →
        (x.dropped = true ↔ d = some k ∨ s.sessions[k]?.map Session.dropped = some true) := by
  have hset : ∀ {k : Nat} {x y : Session} {d : Option Nat}, s.sessions[k]? = some x →
      (y.dropped = true ↔ d = some k ∨ x.dropped = true) → (∀ i ∈ d, i = k) →
      ∀ i z, (s.setSession k y).sessions[i]? = some z →
        (z.dropped = true ↔ d = some i ∨ s.sessions[i]?.map Session.dropped = some true) := by
    intro k x y d hx hy hd i z hz
    rw [getElem?_setSession hx] at hz
    split at hz
    · rename_i hsame
      cases hz
      rw [hsame, hx]
      simpa using hy
    · rename_i hother
      have hnot : d ≠ some i := fun hsome => hother (hd i hsome)
      rw [hz]
      simp [hnot]
  have hsame : ∀ (k : Nat) (x : Session), s.sessions[k]? = some x →
      (x.dropped = true ↔ none = some k ∨ s.sessions[k]?.map Session.dropped = some true) := by
    intro k x hx
    rw [hx]
    simp
  have hlength : ∀ k y, (s.setSession k y).sessions.length = s.sessions.length := fun _ _ =>
    List.length_set
  cases h with
  | unchanged => exact ⟨Nat.le_refl _, nofun, hsame⟩
  | opened =>
      refine ⟨by simp [State.newSession], nofun, fun k x hx => ?_⟩
      rw [State.newSession, List.getElem?_append] at hx
      split at hx
      · exact hsame k x hx
      · rename_i hge
        rw [List.getElem?_singleton, Option.ite_none_right_eq_some] at hx
        rw [List.getElem?_eq_none (by omega)]
        simp [← Option.some.inj hx.2, Session.opened]
  | submitted hsubmit =>
      obtain ⟨k, x, -, -, hx, -, rfl⟩ := Inv.submit_inversion hsubmit
      exact ⟨Nat.le_of_eq (hlength k _).symm, nofun, hset hx (by simp) nofun⟩
  | cancelled =>
      obtain ⟨jobs, hjobs, -⟩ := s.cancelJob_same
      rw [hjobs]
      exact ⟨Nat.le_refl _, nofun, hsame⟩
  | updated u hx hfinal =>
      unfold State.update
      split <;> exact ⟨Nat.le_refl _, nofun, hsame⟩
  | @finished k x job u hx hphase hfinal =>
      obtain ⟨hsessions, -⟩ := finish_same s k x job u
      obtain ⟨-, hdropped, -, -⟩ := x.next_spec u
      rw [hsessions]
      exact ⟨Nat.le_of_eq (hlength k _).symm, nofun, hset hx (by simp [hdropped]) nofun⟩
  | moved hx hmoves hdropped =>
      exact ⟨Nat.le_of_eq (hlength _ _).symm, nofun, hset hx (by simp [hdropped]) nofun⟩
  | @dropped k x hx =>
      rw [sessions_drop]
      refine ⟨Nat.le_of_eq (hlength k _).symm, ?_, hset hx (by simp) (by simp [eq_comm])⟩
      rintro i ⟨⟩
      exact (List.getElem?_eq_some_iff.1 hx).1

theorem Action.dropped_eq {action : Action} {k : Nat} :
    action.dropped = some k ↔ action = .drop k := by
  cases action <;> simp [Action.dropped]

/-- The sessions marked are those that were dropped. -/
structure Recorded (actions : List Action) (s : State) : Prop where
  known : ∀ k, .drop k ∈ actions → k < s.sessions.length
  dropped : ∀ k x, s.sessions[k]? = some x → (x.dropped = true ↔ .drop k ∈ actions)

theorem Recorded.step {before : List Action} {s t : State} {action : Action}
    (h : Recorded before s) (hstep : s.step action = some t) : Recorded (before ++ [action]) t := by
  obtain ⟨hlength, hdropped, hmarked⟩ := (step_effect hstep).sessions
  constructor
  · intro k hk
    rcases List.mem_append.1 hk with hold | hnew
    · exact Nat.lt_of_lt_of_le (h.known k hold) hlength
    · have hthis := Action.dropped_eq.2 (List.mem_singleton.1 hnew).symm
      exact Nat.lt_of_lt_of_le (hdropped k hthis) hlength
  · intro k x hx
    have hold : s.sessions[k]?.map Session.dropped = some true ↔ .drop k ∈ before := by
      cases hk : s.sessions[k]? with
      | none =>
          have hunknown : ¬.drop k ∈ before := fun hmem =>
            absurd (h.known k hmem) (Nat.not_lt.2 (List.getElem?_eq_none_iff.1 hk))
          simp [hunknown]
      | some y => simpa using h.dropped k y hk
    rw [hmarked k x hx, hold, Action.dropped_eq, List.mem_append, List.mem_singleton, or_comm,
      eq_comm]

theorem Recorded.run {before actions : List Action} {s t : State} (h : Recorded before s)
    (hrun : s.run actions = some t) : Recorded (before ++ actions) t := by
  induction actions generalizing before s with
  | nil =>
      cases hrun
      rwa [List.append_nil]
  | cons action rest ih =>
      obtain ⟨next, hnext, hrest⟩ := Option.bind_eq_some_iff.1 hrun
      have hlater := ih (h.step hnext) hrest
      rwa [List.append_assoc, List.singleton_append] at hlater

/-- Dropping the newest session ends what it shares: the route, the cancel flag, and a busy
client. -/
theorem Inv.drop_newest {s t : State} (h : Inv s) {k : Nat} (hnewest : s.Newest k)
    (hstep : s.step (.drop k) = some t) :
    t.route = none ∧ t.cancel = none ∧ (∀ j ∈ s.cancel, t.flag j = some true) ∧
      t.snapshot =
        (if s.snapshot.busy then
          { s.snapshot with
            busy := false
            status :=
              "Transfer stopped with the screen-sharing session. Partial Mac files may remain." }
        else s.snapshot) := by
  obtain ⟨x, hx, hguard⟩ := Option.bind_eq_some_iff.1 hstep
  obtain ⟨-, rfl⟩ := of_guarded hguard
  have hflag : ∀ j ∈ s.cancel,
      (s.setSession k { x with dropped := true }).cancelJob.flag j = some true := by
    intro j hj
    have hlast := h.last j hj
    have hcancel : (s.setSession k { x with dropped := true }).cancel = some j := hj
    unfold State.cancelJob
    rw [hcancel]
    dsimp only
    unfold State.flag State.setCancel State.setSession
    dsimp only
    rw [List.getElem?_modify, List.getElem?_eq_getElem (by omega)]
    simp
  obtain ⟨jobs, hsame, -⟩ := (s.setSession k { x with dropped := true }).cancelJob_same
  have hcurrent : (s.setSession k { x with dropped := true }).generation = x.generation :=
    (h.generation_eq_iff hx).2 hnewest
  unfold State.drop
  dsimp only
  rw [if_pos hcurrent]
  rw [hsame] at hflag ⊢
  split
  · rename_i hbusy
    rw [if_pos (show s.snapshot.busy = true from hbusy)]
    exact ⟨rfl, rfl, hflag, rfl⟩
  · rename_i hbusy
    rw [if_neg (show ¬s.snapshot.busy = true from hbusy)]
    exact ⟨rfl, rfl, hflag, rfl⟩

theorem Inv.update_final {s t : State} (h : Inv s) {k j : Nat} {u : Update}
    (hfinal : u.final = true) (hrunning : s.sessions[k]?.map Session.phase = some (.running j))
    (hstep : s.step (.update k u) = some t) :
    t.jobState j = some (k, true) ∧ (s.Newest k → t.snapshot = u.apply s.snapshot) := by
  obtain ⟨x, hx, hphase⟩ := Option.map_eq_some_iff.1 hrunning
  have hfinish : t = s.finish k x j u := by
    unfold State.step at hstep
    dsimp only at hstep
    rw [hx, Option.bind_some, hphase] at hstep
    cases u with
    | complete => exact (Option.some.inj hstep).symm
    | stopped error started => exact (Option.some.inj hstep).symm
    | _ => cases hfinal
  obtain ⟨-, -, -, -, -, hsnapshot⟩ := finish_same s k x j u
  rw [hfinish]
  constructor
  · rw [jobState_finish, if_pos rfl, h.holds k x j hx (Or.inl hphase)]
    rfl
  · intro hnewest
    rw [hsnapshot, State.update, if_pos ((h.generation_eq_iff hx).2 hnewest)]

/-! ## Runs -/

/-- The sessions of a client are isolated from each other, after these actions. -/
structure Isolated (actions : List Action) (s : State) : Prop where
  route : ∀ k ∈ s.route, s.Newest k
  single : ∀ i j, s.Unfinished i → s.Unfinished j → i = j
  busy : s.snapshot.busy = true ↔
    ∃ j k, s.jobState j = some (k, false) ∧ s.Newest k ∧ .drop k ∉ actions

theorem isolated {actions : List Action} {s : State} (h : Inv s) (hrecorded : Recorded actions s) :
    Isolated actions s := by
  have hkept : ∀ k, s.Newest k →
      (s.sessions[k]?.map Session.dropped = some false ↔ .drop k ∉ actions) := by
    intro k hk
    have hlt : k < s.sessions.length := by
      unfold State.Newest at hk
      omega
    have hx := List.getElem?_eq_getElem hlt
    rw [hx, ← hrecorded.dropped k _ hx]
    simp
  refine ⟨h.route, h.single, h.busy.trans ⟨?_, ?_⟩⟩
  · rintro ⟨⟨j, k, hstate, hnewest⟩, i, hi, hdropped⟩
    have hsame : i = k := by
      unfold State.Newest at hi hnewest
      omega
    exact ⟨j, k, hstate, hnewest, (hkept k hnewest).1 (hsame ▸ hdropped)⟩
  · rintro ⟨j, k, hstate, hnewest, hnot⟩
    exact ⟨⟨j, k, hstate, hnewest⟩, k, hnewest, (hkept k hnewest).2 hnot⟩

/-- In every reachable state the route is that of the newest session, at most one of its
jobs is unfinished and the client is busy exactly while one is and the session was not
dropped; no step of an older session and no cancel reaches beyond that.  The drop of the
newest session and the last update of a job end what they are to end. -/
theorem sessions_isolated (actions : List Action) (s : State)
    (hrun : State.initial.run actions = some s) :
    Isolated actions s ∧
      (∀ k u t, ¬s.Newest k → s.step (.update k u) = some t → t.snapshot = s.snapshot) ∧
      (∀ k t, ¬s.Newest k → s.step (.close k) = some t ∨ s.step (.drop k) = some t →
        t.route = s.route ∧ t.cancel = s.cancel ∧ t.snapshot = s.snapshot ∧ t.jobs = s.jobs) ∧
      (∀ k t, s.Newest k → s.step (.drop k) = some t →
        t.route = none ∧ t.cancel = none ∧ (∀ j ∈ s.cancel, t.flag j = some true) ∧
        t.snapshot =
          (if s.snapshot.busy then
            { s.snapshot with
              busy := false
              status :=
                "Transfer stopped with the screen-sharing session. Partial Mac files may remain." }
          else s.snapshot)) ∧
      (∀ k j u t, u.final = true → s.sessions[k]?.map Session.phase = some (.running j) →
        s.step (.update k u) = some t →
        t.jobState j = some (k, true) ∧ (s.Newest k → t.snapshot = u.apply s.snapshot)) ∧
      ∀ action t, s.step action = some t → ∀ j, j + 1 < s.jobs.length → t.flag j = s.flag j := by
  have h : Inv s := inv_initial.run hrun
  have hinitial : Recorded [] State.initial := ⟨nofun, nofun⟩
  refine ⟨isolated h (hinitial.run hrun), ?_, ?_, ?_, ?_, ?_⟩
  · intro k u t hold hstep
    exact h.update_older hold hstep
  · intro k t hold hstep
    exact h.drop_older hold hstep
  · intro k t hnewest hstep
    exact h.drop_newest hnewest hstep
  · intro k j u t hfinal hrunning hstep
    exact h.update_final hfinal hrunning hstep
  · intro action t hstep j hj
    exact h.flag_step hstep hj

/-- A second session is opened while the worker of the first one is running a job, and the
job of the second one is submitted before the first one ends. -/
def twoSessions : List Action :=
  [.new, .submit, .look 0, .take 0, .update 0 .receiving, .new, .submit, .cancel,
    .update 0 (.progress 5 none), .update 0 .complete, .close 0, .drop 0, .close 1]

/-- The drop of the first session leaves the client busy, that of the second one does not. -/
theorem sessions_isolated_twoSessions :
    ∃ s t, State.initial.run twoSessions = some s ∧ s.snapshot.busy = true ∧
      s.jobs.map Job.cancel = [false, true] ∧ Isolated twoSessions s ∧
      s.step (.drop 1) = some t ∧ t.route = none ∧ t.snapshot.busy = false := by
  obtain ⟨hisolated, -, -, hdrop, -⟩ := sessions_isolated twoSessions _ rfl
  obtain ⟨hroute, -, -, hsnapshot⟩ := hdrop 1 _ rfl rfl
  exact ⟨_, _, rfl, rfl, rfl, hisolated, rfl, hroute, congrArg Snapshot.busy hsnapshot⟩

end MacVnc.Client.TransferSessions

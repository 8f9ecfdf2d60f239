import Mathlib.Data.List.TakeWhile
import MacVnc.Client.Commands
import MacVnc.Lib.Transition
/-!
# Commands at the session boundary

The window thread and the session thread of `macvnc-app/src/backend.rs` side by
side, one atomic step at a time: the stores and the `try_send` of
`CommandSender::send`, and what `start` and `run_session` do with the queue and
with the flag.  Every command carries what its sender had seen when its send
began, and every command that reaches the Mac the session and the loop iteration
that sent it.
-/

namespace MacVnc.Client.SessionBoundary

open Commands
open MacVnc.Lib.Transition (of_guarded)

/-- A send that found the queue full: the loop iterations in which it was refused
and in which it then raised the flag. -/
structure Failure where
  refusedIn : Nat
  storedIn : Nat
deriving DecidableEq

structure Sent where
  command : Command
  /-- The Connects sent up to this command. -/
  connects : Nat
  /-- A Disconnect was sent since the last Connect. -/
  disconnected : Bool
  /-- The first send since the last Connect that failed. -/
  failure : Option Failure
deriving DecidableEq

structure Transmission where
  sent : Sent
  session : Nat
  iteration : Nat
deriving DecidableEq

/-- Where the window thread is in `CommandSender::send`. -/
inductive Window where
  | ready
  | offering (sent : Sent)
  | refused (iteration : Nat)
  | dropping
  | closed
deriving DecidableEq

/-- Where the backend thread is. -/
inductive Backend where
  | waiting
  | entering
  | connecting
  | connected
  | preparing
  | head
  | batch (taken : Nat)
  | rest
  | draining
  | closing
  | stopped
deriving DecidableEq

structure State where
  window : Window
  queue : List Sent
  cancelled : Bool
  backend : Backend
  connects : Nat
  disconnected : Bool
  failure : Option Failure
  session : Nat
  iteration : Nat
  transmitted : List Transmission
deriving DecidableEq

/-- The backend is on the way from a Connect to the end of its session. -/
def Backend.busy : Backend → Bool
  | .waiting => false
  | .stopped => false
  | _ => true

def isConnect : Command → Bool
  | .connect _ => true
  | _ => false

inductive Action where
  | begin (command : Command)
  | offer
  | fail
  | drop
  | hangUp
  | receive
  | check
  | proceed (ok : Bool)
  | take (ok : Bool)
  | drain
  | close
deriving DecidableEq

namespace State

def initial : State where
  window := .ready
  queue := []
  cancelled := false
  backend := .waiting
  connects := 0
  disconnected := false
  failure := none
  session := 0
  iteration := 0
  transmitted := []

def idle (s : State) : Bool :=
  !s.backend.busy && s.queue.all fun sent => !isConnect sent.command

def tag (s : State) (command : Command) : Sent :=
  { command, connects := s.connects, disconnected := s.disconnected, failure := s.failure }

/-- The stores that `send` makes before it offers the command. -/
def begin (s : State) (command : Command) : State :=
  match command with
  | .connect options =>
      { s with
        window := .offering
          { command := .connect options, connects := s.connects + 1, disconnected := false,
            failure := none }
        cancelled := false
        connects := s.connects + 1
        disconnected := false
        failure := none }
  | .disconnect =>
      { s with window := .offering (s.tag .disconnect), cancelled := true, disconnected := true }
  | command => { s with window := .offering (s.tag command) }

/-- `try_send`. -/
def offer (s : State) (sent : Sent) : State :=
  if s.queue.length < commandQueueCapacity then
    { s with window := .ready, queue := s.queue ++ [sent] }
  else { s with window := .refused s.iteration }

/-- A dropped key release could latch remote input: the session is closed instead. -/
def fail (s : State) (refusedIn : Nat) : State :=
  { s with
    window := .ready
    cancelled := true
    failure := s.failure.or (some { refusedIn, storedIn := s.iteration }) }

/-- `rx.recv()`: anything but a Connect is ignored between sessions. -/
def receive (s : State) (sent : Sent) (rest : List Sent) : State :=
  if isConnect sent.command then
    { s with queue := rest, backend := .entering, session := sent.connects }
  else { s with queue := rest }

/-- One command of a batch.  A command that the connection fails on may have left all the same. -/
def transmit (s : State) (taken : Nat) (sent : Sent) (rest : List Sent) (ok : Bool) : State :=
  match sent.command with
  | .disconnect => { s with queue := rest, backend := .draining }
  | .connect _ => { s with queue := rest, backend := .batch (taken + 1) }
  | _ =>
      { s with
        queue := rest
        backend := if ok then .batch (taken + 1) else .draining
        transmitted := s.transmitted ++
          [{ sent, session := s.session, iteration := s.iteration }] }

/-- `commands.try_recv()`, up to 256 times in an iteration. -/
def take (s : State) (taken : Nat) (ok : Bool) : State :=
  if taken = 256 then { s with backend := .rest }
  else
    match s.queue with
    | [] => { s with backend := if s.window = .closed then .draining else .rest }
    | sent :: rest => s.transmit taken sent rest ok

/-- The places where `run_session` reads the flag. -/
def check (s : State) : Option State :=
  match s.backend with
  | .entering => some { s with backend := if s.cancelled then .draining else .connecting }
  | .connected => some { s with backend := if s.cancelled then .draining else .preparing }
  | .head =>
      some (if s.cancelled then { s with backend := .draining }
        else { s with backend := .batch 0, iteration := s.iteration + 1 })
  | .rest => some (if s.cancelled then { s with backend := .draining } else s)
  | _ => none

/-- The fallible work between those places. -/
def proceed (s : State) (ok : Bool) : Option State :=
  match s.backend with
  | .connecting => some { s with backend := if ok then .connected else .draining }
  | .preparing => some { s with backend := if ok then .head else .draining }
  | .rest => some { s with backend := if ok then .head else .draining }
  | _ => none

/-- One atomic step of either thread; `none` where that thread is elsewhere. -/
def apply (s : State) : Action → Option State
  | .begin command => if s.window = .ready then some (s.begin command) else none
  | .offer =>
      match s.window with
      | .offering sent => some (s.offer sent)
      | _ => none
  | .fail =>
      match s.window with
      | .refused iteration => some (s.fail iteration)
      | _ => none
  | .drop =>
      if s.window = .ready then some { s with window := .dropping, cancelled := true } else none
  | .hangUp => if s.window = .dropping then some { s with window := .closed } else none
  | .receive =>
      if s.backend = .waiting then
        match s.queue with
        | sent :: rest => some (s.receive sent rest)
        | [] => if s.window = .closed then some { s with backend := .stopped } else none
      else none
  | .check => s.check
  | .proceed ok => s.proceed ok
  | .take ok =>
      match s.backend with
      | .batch taken => some (s.take taken ok)
      | _ => none
  | .drain =>
      if s.backend = .draining then
        match s.queue with
        | _ :: rest => some { s with queue := rest }
        | [] => some { s with backend := .closing }
      else none
  | .close => if s.backend = .closing then some { s with backend := .waiting } else none

def allowed (s : State) : Action → Bool
  | .begin command => !isConnect command || s.idle
  | _ => true

def step (s : State) (action : Action) : Option State :=
  if s.allowed action then s.apply action else none

def run (s : State) : List Action → Option State
  | [] => some s
  | action :: rest => (s.step action).bind fun next => next.run rest

/-- What one step does, and where its thread is. -/
inductive Applied (s : State) : Action → State → Prop
  | begin (command : Command) : s.window = .ready → Applied s (.begin command) (s.begin command)
  | offer {sent} : s.window = .offering sent → Applied s .offer (s.offer sent)
  | fail {iteration} : s.window = .refused iteration → Applied s .fail (s.fail iteration)
  | drop : s.window = .ready → Applied s .drop { s with window := .dropping, cancelled := true }
  | hangUp : s.window = .dropping → Applied s .hangUp { s with window := .closed }
  | receive {sent rest} : s.backend = .waiting → s.queue = sent :: rest →
      Applied s .receive (s.receive sent rest)
  | stop : s.backend = .waiting → Applied s .receive { s with backend := .stopped }
  | check {next} : s.check = some next → Applied s .check next
  | proceed {ok next} : s.proceed ok = some next → Applied s (.proceed ok) next
  | take {taken} (ok : Bool) : s.backend = .batch taken → Applied s (.take ok) (s.take taken ok)
  | drain {sent rest} : s.backend = .draining → s.queue = sent :: rest →
      Applied s .drain { s with queue := rest }
  | drained : s.backend = .draining → Applied s .drain { s with backend := .closing }
  | close : s.backend = .closing → Applied s .close { s with backend := .waiting }

theorem apply_cases {s next : State} {action : Action} (h : s.apply action = some next) :
    Applied s action next := by
  unfold apply at h
  cases action with
  | begin command =>
      obtain ⟨hready, rfl⟩ := of_guarded h
      exact .begin command hready
  | offer =>
      dsimp only at h
      split at h
      · cases h
        exact .offer (by assumption)
      · cases h
  | fail =>
      dsimp only at h
      split at h
      · cases h
        exact .fail (by assumption)
      · cases h
  | drop =>
      obtain ⟨hready, rfl⟩ := of_guarded h
      exact .drop hready
  | hangUp =>
      obtain ⟨hdropping, rfl⟩ := of_guarded h
      exact .hangUp hdropping
  | receive =>
      dsimp only at h
      split at h
      · rename_i hwaiting
        split at h
        · cases h
          exact .receive hwaiting (by assumption)
        · obtain ⟨_, rfl⟩ := of_guarded h
          exact .stop hwaiting
      · cases h
  | check => exact .check h
  | proceed ok => exact .proceed h
  | take ok =>
      dsimp only at h
      split at h
      · cases h
        exact .take ok (by assumption)
      · cases h
  | drain =>
      dsimp only at h
      split at h
      · rename_i hdraining
        split at h
        · cases h
          exact .drain hdraining (by assumption)
        · cases h
          exact .drained hdraining
      · cases h
  | close =>
      obtain ⟨hclosing, rfl⟩ := of_guarded h
      exact .close hclosing

end State

def Backend.inSession : Backend → Bool
  | .waiting => false
  | .draining => false
  | .closing => false
  | .stopped => false
  | _ => true

theorem Backend.busy_of_inSession {backend : Backend} (h : backend.inSession = true) :
    backend.busy = true := by
  cases backend <;> first | rfl | cases h

/-- A command that the batch of this iteration must not reach. -/
def Barred (iteration : Nat) (sent : Sent) : Prop :=
  sent.disconnected = true ∨ ∃ failure ∈ sent.failure, failure.refusedIn = iteration

/-- A batch with this many commands taken does not get past these. -/
def Shield (taken : Nat) (before : List Sent) : Prop :=
  (∃ sent ∈ before, sent.command = .disconnect) ∨ 256 ≤ before.length + taken

/-- The queue as the batch will take it: a Disconnect ends it, and so does its length. -/
def Guarded (iteration : Nat) : Nat → List Sent → Prop
  | _, [] => True
  | taken, sent :: rest =>
      (Barred iteration sent → 256 ≤ taken) ∧
        (sent.command ≠ .disconnect → Guarded iteration (taken + 1) rest)

theorem Shield.append {taken : Nat} {before : List Sent} (h : Shield taken before)
    (after : List Sent) : Shield taken (before ++ after) := by
  rcases h with ⟨sent, hmem, hcommand⟩ | hlong
  · exact Or.inl ⟨sent, List.mem_append_left _ hmem, hcommand⟩
  · right
    rw [List.length_append]
    omega

/-- Taking a command other than a Disconnect leaves the shield in place. -/
theorem Shield.tail {taken : Nat} {sent : Sent} {rest : List Sent}
    (h : Shield taken (sent :: rest)) (hcommand : sent.command ≠ .disconnect) :
    Shield (taken + 1) rest := by
  rcases h with ⟨other, hmem, hother⟩ | hlong
  · rcases List.mem_cons.1 hmem with rfl | hmem
    · exact absurd hother hcommand
    · exact Or.inl ⟨other, hmem, hother⟩
  · right
    rw [List.length_cons] at hlong
    omega

theorem Guarded.append {iteration taken : Nat} {queue : List Sent} {sent : Sent}
    (h : Guarded iteration taken queue) (hshield : Barred iteration sent → Shield taken queue) :
    Guarded iteration taken (queue ++ [sent]) := by
  induction queue generalizing taken with
  | nil =>
      refine ⟨fun hbarred => ?_, fun _ => trivial⟩
      rcases hshield hbarred with ⟨_, hmem, _⟩ | hlong
      · cases hmem
      · rwa [List.length_nil, Nat.zero_add] at hlong
  | cons first rest ih =>
      refine ⟨h.1, fun hcommand => ih (h.2 hcommand) fun hbarred => ?_⟩
      exact (hshield hbarred).tail hcommand

theorem guarded_of_unbarred {iteration taken : Nat} {queue : List Sent}
    (h : ∀ sent ∈ queue, ¬ Barred iteration sent) : Guarded iteration taken queue := by
  induction queue generalizing taken with
  | nil => trivial
  | cons first rest ih =>
      refine ⟨fun hbarred => absurd hbarred (h first List.mem_cons_self), fun _ => ?_⟩
      exact ih fun sent hmem => h sent (List.mem_cons_of_mem _ hmem)

/-- What a command that reaches the Mac has behind it. -/
structure Transmission.Clean (t : Transmission) : Prop where
  input : CommandSender.isInput t.sent.command = true
  session : t.sent.connects = t.session
  connected : t.sent.disconnected = false
  overtaken : ∀ failure ∈ t.sent.failure,
    failure.refusedIn < t.iteration ∧ failure.storedIn = t.iteration

namespace State

/-- A command of the session under way, or of the one that a queued Connect will start. -/
structure Saw (s : State) (sent : Sent) : Prop where
  connects : sent.connects = s.connects
  disconnected : sent.disconnected = true → s.disconnected = true
  failure : ∀ failure ∈ sent.failure, s.failure = some failure

/-- The next command to be queued is barred. -/
def Closing (s : State) : Prop :=
  match s.window with
  | .ready => s.disconnected = true ∨ ∃ failure ∈ s.failure, failure.refusedIn = s.iteration
  | .offering sent => Barred s.iteration sent
  | .refused iteration =>
      s.disconnected = true ∨ (∃ failure ∈ s.failure, failure.refusedIn = s.iteration) ∨
        iteration = s.iteration
  | _ => False

structure Batch (s : State) (taken : Nat) : Prop where
  bounded : taken ≤ 256
  queued : Guarded s.iteration taken s.queue
  next : s.Closing → Shield taken s.queue

structure Invariant (s : State) : Prop where
  /-- From the first Connect on, the queue belongs to the session that it starts. -/
  led : ∀ sent ∈ s.queue.dropWhile fun sent => !isConnect sent.command, s.Saw sent
  current : s.backend.inSession = true →
    s.session = s.connects ∧ ∀ sent ∈ s.queue, s.Saw sent
  offered : ∀ sent, s.window = .offering sent →
    s.Saw sent ∧ sent.failure = s.failure ∧
      (s.disconnected = true → sent.disconnected = true ∨ sent.command = .disconnect)
  refused : ∀ iteration, s.window = .refused iteration → iteration ≤ s.iteration
  flagged : s.disconnected = true ∨ s.failure.isSome = true → s.cancelled = true
  stored : ∀ failure ∈ s.failure,
    failure.refusedIn ≤ s.iteration ∧ failure.storedIn = s.iteration
  batch : ∀ taken, s.backend = .batch taken → s.Batch taken
  clean : ∀ t ∈ s.transmitted, t.Clean

theorem initial_invariant : initial.Invariant where
  led := by simp [initial]
  current := by simp [initial, Backend.inSession]
  offered := by simp [initial]
  refused := by simp [initial]
  flagged := by simp [initial]
  stored := by simp [initial]
  batch := by simp [initial]
  clean := by simp [initial]

theorem Saw.mono {s t : State} {sent : Sent} (h : s.Saw sent) (hconnects : t.connects = s.connects)
    (hdisconnected : s.disconnected = true → t.disconnected = true)
    (hfailure : ∀ failure, s.failure = some failure → t.failure = some failure) : t.Saw sent where
  connects := h.connects.trans hconnects.symm
  disconnected := fun hsent => hdisconnected (h.disconnected hsent)
  failure := fun failure hmem => hfailure failure (h.failure failure hmem)

theorem invariant_offering {s : State} (h : s.Invariant) (hready : s.window = .ready)
    (command : Command) : Invariant { s with window := .offering (s.tag command) } where
  led := fun sent hmem => (h.led sent hmem).mono rfl id fun _ => id
  current := fun hin =>
    ⟨(h.current hin).1, fun sent hmem => ((h.current hin).2 sent hmem).mono rfl id fun _ => id⟩
  offered := by
    intro sent hsent
    cases hsent
    exact ⟨⟨rfl, id, fun _ hmem => hmem⟩, rfl, Or.inl⟩
  refused := nofun
  flagged := h.flagged
  stored := h.stored
  batch := by
    intro taken hbatch
    have hold := h.batch taken hbatch
    refine ⟨hold.bounded, hold.queued, fun hclosing => hold.next ?_⟩
    rw [Closing, hready]
    exact hclosing
  clean := h.clean

theorem invariant_disconnect {s : State} (h : s.Invariant) (hready : s.window = .ready) :
    (s.begin .disconnect).Invariant where
  led := fun sent hmem => (h.led sent hmem).mono rfl (fun _ => rfl) fun _ => id
  current := fun hin =>
    ⟨(h.current hin).1, fun sent hmem =>
      ((h.current hin).2 sent hmem).mono rfl (fun _ => rfl) fun _ => id⟩
  offered := by
    intro sent hsent
    cases hsent
    exact ⟨⟨rfl, fun _ => rfl, fun _ hmem => hmem⟩, rfl, fun _ => Or.inr rfl⟩
  refused := nofun
  flagged := fun _ => rfl
  stored := h.stored
  batch := by
    intro taken hbatch
    have hold := h.batch taken hbatch
    refine ⟨hold.bounded, hold.queued, fun hclosing => hold.next ?_⟩
    rw [Closing, hready]
    exact hclosing
  clean := h.clean

/-- A Connect begins with nothing of an earlier session at the front of its own. -/
theorem invariant_connect {s : State} (h : s.Invariant) (hidle : s.idle = true)
    (options : ConnectOptions) : (s.begin (.connect options)).Invariant := by
  rw [idle, Bool.and_eq_true, Bool.not_eq_true', List.all_eq_true] at hidle
  obtain ⟨hbusy, hnone⟩ := hidle
  have hled : s.queue.dropWhile (fun sent => !isConnect sent.command) = [] :=
    List.dropWhile_eq_nil_iff.2 hnone
  exact
    { led := by
        intro sent hmem
        rw [show (s.begin (.connect options)).queue = s.queue from rfl, hled] at hmem
        cases hmem
      current := by
        intro hin
        rw [show s.backend.busy = true from Backend.busy_of_inSession hin] at hbusy
        cases hbusy
      offered := by
        intro sent hsent
        cases hsent
        exact ⟨⟨rfl, nofun, fun _ hmem => hmem⟩, rfl,
          nofun⟩
      refused := nofun
      flagged := by
        intro himpossible
        rcases himpossible with himpossible | himpossible <;> cases himpossible
      stored := by
        intro failure hmem
        cases hmem
      batch := by
        intro taken hbatch
        rw [show s.backend = .batch taken from hbatch] at hbusy
        cases hbusy
      clean := h.clean }

theorem invariant_begin {s : State} {command : Command} (h : s.Invariant)
    (hready : s.window = .ready) (hallowed : s.allowed (.begin command) = true) :
    (s.begin command).Invariant := by
  cases command with
  | connect options => exact invariant_connect h hallowed options
  | disconnect => exact invariant_disconnect h hready
  | _ => exact invariant_offering h hready _

theorem mem_dropWhile_append {queue : List Sent} {sent other : Sent}
    {keep : Sent → Bool} (h : other ∈ (queue ++ [sent]).dropWhile keep) :
    other ∈ queue.dropWhile keep ∨ other = sent := by
  rw [List.dropWhile_append] at h
  split at h
  · exact Or.inr (List.mem_singleton.1 ((List.dropWhile_sublist _).subset h))
  · rcases List.mem_append.1 h with hmem | hmem
    · exact Or.inl hmem
    · exact Or.inr (List.mem_singleton.1 hmem)

theorem invariant_queued {s : State} {sent : Sent} (h : s.Invariant)
    (hoffering : s.window = .offering sent) :
    Invariant { s with window := .ready, queue := s.queue ++ [sent] } := by
  obtain ⟨hsaw, hfailure, hdisconnected⟩ := h.offered sent hoffering
  exact
    { led := by
        intro other hmem
        rcases mem_dropWhile_append hmem with hmem | rfl
        · exact (h.led other hmem).mono rfl id fun _ => id
        · exact hsaw.mono rfl id fun _ => id
      current := by
        intro hin
        refine ⟨(h.current hin).1, fun other hmem => ?_⟩
        rcases List.mem_append.1 hmem with hmem | hmem
        · exact ((h.current hin).2 other hmem).mono rfl id fun _ => id
        · rw [List.mem_singleton.1 hmem]
          exact hsaw.mono rfl id fun _ => id
      offered := nofun
      refused := nofun
      flagged := h.flagged
      stored := h.stored
      batch := by
        intro taken hbatch
        have hold := h.batch taken hbatch
        have hshield : Barred s.iteration sent → Shield taken s.queue := by
          intro hbarred
          apply hold.next
          rw [Closing, hoffering]
          exact hbarred
        refine ⟨hold.bounded, hold.queued.append hshield, fun hclosing => ?_⟩
        by_cases hbarred : Barred s.iteration sent
        · exact (hshield hbarred).append [sent]
        · -- the first Disconnect since the Connect is its own shield
          rcases hclosing with hclosed | hfailed
          · rcases hdisconnected hclosed with hearlier | hcommand
            · exact absurd (Or.inl hearlier) hbarred
            · exact Or.inl ⟨sent, by simp, hcommand⟩
          · refine absurd (Or.inr ?_) hbarred
            rw [hfailure]
            exact hfailed
      clean := h.clean }

/-- A full queue is longer than what is left of the batch. -/
theorem invariant_refused {s : State} (h : s.Invariant)
    (hfull : commandQueueCapacity ≤ s.queue.length) :
    Invariant { s with window := .refused s.iteration } where
  led := fun sent hmem => (h.led sent hmem).mono rfl id fun _ => id
  current := fun hin =>
    ⟨(h.current hin).1, fun sent hmem => ((h.current hin).2 sent hmem).mono rfl id fun _ => id⟩
  offered := nofun
  refused := by
    intro iteration hiteration
    cases hiteration
    exact Nat.le_refl _
  flagged := h.flagged
  stored := h.stored
  batch := by
    intro taken hbatch
    have hold := h.batch taken hbatch
    refine ⟨hold.bounded, hold.queued, fun _ => Or.inr ?_⟩
    have hcapacity : commandQueueCapacity = 256 := rfl
    show 256 ≤ s.queue.length + taken
    omega
  clean := h.clean

theorem invariant_offer {s : State} {sent : Sent} (h : s.Invariant)
    (hoffering : s.window = .offering sent) : (s.offer sent).Invariant := by
  unfold offer
  split
  · exact invariant_queued h hoffering
  · exact invariant_refused h (by omega)

theorem invariant_fail {s : State} {iteration : Nat} (h : s.Invariant)
    (hrefused : s.window = .refused iteration) : (s.fail iteration).Invariant where
  led := fun sent hmem => (h.led sent hmem).mono rfl id fun failure hsome => by
    rw [fail, hsome]
    rfl
  current := fun hin =>
    ⟨(h.current hin).1, fun sent hmem =>
      ((h.current hin).2 sent hmem).mono rfl id fun failure hsome => by
        rw [fail, hsome]
        rfl⟩
  offered := nofun
  refused := nofun
  flagged := fun _ => rfl
  stored := by
    intro failure hmem
    rcases Option.or_eq_some_iff.1 hmem with hold | ⟨_, hnew⟩
    · exact h.stored failure hold
    · cases hnew
      exact ⟨h.refused iteration hrefused, rfl⟩
  batch := by
    intro taken hbatch
    have hold := h.batch taken hbatch
    refine ⟨hold.bounded, hold.queued, fun hclosing => hold.next ?_⟩
    rw [Closing, hrefused]
    rcases hclosing with hclosed | ⟨failure, hmem, hhere⟩
    · exact Or.inl hclosed
    · rcases Option.or_eq_some_iff.1 hmem with hold | ⟨_, hnew⟩
      · exact Or.inr (Or.inl ⟨failure, hold, hhere⟩)
      · cases hnew
        exact Or.inr (Or.inr hhere)
  clean := h.clean

theorem invariant_leaving {s : State} (h : s.Invariant) {window : Window} (cancelled : Bool)
    (hwindow : window = .dropping ∨ window = .closed)
    (hcancelled : s.cancelled = true → cancelled = true) :
    Invariant { s with window, cancelled } where
  led := fun sent hmem => (h.led sent hmem).mono rfl id fun _ => id
  current := fun hin =>
    ⟨(h.current hin).1, fun sent hmem => ((h.current hin).2 sent hmem).mono rfl id fun _ => id⟩
  offered := by
    rcases hwindow with rfl | rfl <;> exact nofun
  refused := by
    rcases hwindow with rfl | rfl <;> exact nofun
  flagged := fun hflag => hcancelled (h.flagged hflag)
  stored := h.stored
  batch := by
    intro taken hbatch
    have hold := h.batch taken hbatch
    refine ⟨hold.bounded, hold.queued, fun hclosing => ?_⟩
    rcases hwindow with rfl | rfl <;> exact absurd hclosing id
  clean := h.clean

theorem invariant_moved {s : State} (h : s.Invariant) {backend : Backend}
    (hsession : backend.inSession = true → s.backend.inSession = true)
    (hbatch : ∀ taken, backend ≠ .batch taken) : Invariant { s with backend } where
  led := fun sent hmem => (h.led sent hmem).mono rfl id fun _ => id
  current := fun hin =>
    ⟨(h.current (hsession hin)).1, fun sent hmem =>
      ((h.current (hsession hin)).2 sent hmem).mono rfl id fun _ => id⟩
  offered := fun sent hsent =>
    have hold := h.offered sent hsent
    ⟨hold.1.mono rfl id fun _ => id, hold.2⟩
  refused := h.refused
  flagged := h.flagged
  stored := h.stored
  batch := fun taken hsame => absurd hsame (hbatch taken)
  clean := h.clean

theorem led_tail {s : State} {sent : Sent} {rest : List Sent} (h : s.Invariant)
    (hqueue : s.queue = sent :: rest) :
    ∀ other ∈ rest.dropWhile fun sent => !isConnect sent.command, s.Saw other := by
  intro other hmem
  apply h.led other
  rw [hqueue, List.dropWhile_cons]
  split
  · exact hmem
  · exact List.mem_cons_of_mem _ ((List.dropWhile_sublist _).subset hmem)

theorem invariant_dropped {s : State} {sent : Sent} {rest : List Sent} (h : s.Invariant)
    (hqueue : s.queue = sent :: rest) (hout : s.backend.inSession = false) :
    Invariant { s with queue := rest } where
  led := fun other hmem => (led_tail h hqueue other hmem).mono rfl id fun _ => id
  current := fun hin => absurd hin (by rw [hout]; exact Bool.false_ne_true)
  offered := fun other hsent =>
    have hold := h.offered other hsent
    ⟨hold.1.mono rfl id fun _ => id, hold.2⟩
  refused := h.refused
  flagged := h.flagged
  stored := h.stored
  batch := by
    intro taken hbatch
    rw [show s.backend = .batch taken from hbatch] at hout
    cases hout
  clean := h.clean

/-- The session of a Connect starts with what was sent after it. -/
theorem invariant_receive {s : State} {sent : Sent} {rest : List Sent} (h : s.Invariant)
    (hwaiting : s.backend = .waiting) (hqueue : s.queue = sent :: rest) :
    (s.receive sent rest).Invariant := by
  unfold receive
  split
  · rename_i hconnect
    have hall : ∀ other ∈ s.queue, s.Saw other := by
      intro other hmem
      apply h.led other
      rw [hqueue, List.dropWhile_cons, if_neg (by rw [hconnect]; exact Bool.false_ne_true),
        ← hqueue]
      exact hmem
    rw [hqueue] at hall
    exact
      { led := fun other hmem => (led_tail h hqueue other hmem).mono rfl id fun _ => id
        current := fun _ =>
          ⟨(hall sent List.mem_cons_self).connects, fun other hmem =>
            (hall other (List.mem_cons_of_mem _ hmem)).mono rfl id fun _ => id⟩
        offered := fun other hsent =>
          have hold := h.offered other hsent
          ⟨hold.1.mono rfl id fun _ => id, hold.2⟩
        refused := h.refused
        flagged := h.flagged
        stored := h.stored
        batch := nofun
        clean := h.clean }
  · exact invariant_dropped h hqueue (by rw [hwaiting]; rfl)

/-- A loop iteration that begins with the flag clear finds nothing barred. -/
theorem invariant_head {s : State} (h : s.Invariant) (hhead : s.backend = .head)
    (hopen : s.cancelled = false) :
    Invariant { s with backend := .batch 0, iteration := s.iteration + 1 } := by
  have hnone : ¬ (s.disconnected = true ∨ s.failure.isSome = true) := by
    intro hflag
    rw [h.flagged hflag] at hopen
    cases hopen
  rw [not_or, Option.not_isSome_iff_eq_none] at hnone
  have hunbarred : ∀ sent, s.Saw sent → ¬ Barred (s.iteration + 1) sent := by
    rintro sent hsaw (hdisconnected | ⟨failure, hmem, -⟩)
    · exact hnone.1 (hsaw.disconnected hdisconnected)
    · have hsome := hsaw.failure failure hmem
      rw [hnone.2] at hsome
      cases hsome
  obtain ⟨hsession, hqueue⟩ := h.current (by rw [hhead]; rfl)
  exact
    { led := fun sent hmem => (h.led sent hmem).mono rfl id fun _ => id
      current := fun _ => ⟨hsession, fun sent hmem => (hqueue sent hmem).mono rfl id fun _ => id⟩
      offered := fun sent hsent =>
        have hold := h.offered sent hsent
        ⟨hold.1.mono rfl id fun _ => id, hold.2⟩
      refused := fun iteration hiteration => Nat.le_succ_of_le (h.refused iteration hiteration)
      flagged := h.flagged
      stored := by
        intro failure hmem
        rw [show s.failure = some failure from hmem] at hnone
        cases hnone.2
      batch := by
        intro taken hbatch
        cases hbatch
        refine ⟨by omega, guarded_of_unbarred fun sent hmem => hunbarred sent (hqueue sent hmem),
          fun hclosing => ?_⟩
        exfalso
        cases hwindow : s.window with
        | ready =>
            rw [Closing, hwindow] at hclosing
            rcases hclosing with hclosed | ⟨failure, hmem, -⟩
            · exact hnone.1 hclosed
            · rw [hnone.2] at hmem
              cases hmem
        | offering sent =>
            rw [Closing, hwindow] at hclosing
            exact hunbarred sent (h.offered sent hwindow).1 hclosing
        | refused iteration =>
            have hold := h.refused iteration hwindow
            rw [Closing, hwindow] at hclosing
            rcases hclosing with hclosed | ⟨failure, hmem, -⟩ | hnow
            · exact hnone.1 hclosed
            · rw [hnone.2] at hmem
              cases hmem
            · rw [hnow] at hold
              exact absurd hold (Nat.not_succ_le_self _)
        | dropping => rw [Closing, hwindow] at hclosing; exact hclosing
        | closed => rw [Closing, hwindow] at hclosing; exact hclosing
      clean := h.clean }

theorem invariant_advanced {s : State} (h : s.Invariant) {phase backend : Backend}
    (hphase : s.backend = phase) (hin : phase.inSession = true)
    (hbackend : ∀ taken, backend ≠ .batch taken) : Invariant { s with backend } := by
  apply invariant_moved h _ hbackend
  intro _
  rwa [hphase]

theorem invariant_check {s next : State} (h : s.Invariant) (hcheck : s.check = some next) :
    next.Invariant := by
  unfold check at hcheck
  split at hcheck
  case h_1 hphase =>
    cases hcheck
    exact invariant_advanced h hphase rfl (by split <;> simp)
  case h_2 hphase =>
    cases hcheck
    exact invariant_advanced h hphase rfl (by split <;> simp)
  case h_3 hhead =>
    cases hcheck
    split
    · exact invariant_advanced h hhead rfl nofun
    · rename_i hopen
      exact invariant_head h hhead (Bool.eq_false_iff.2 hopen)
  case h_4 hphase =>
    cases hcheck
    split
    · exact invariant_advanced h hphase rfl nofun
    · exact h
  case h_5 => cases hcheck

theorem invariant_proceed {s next : State} {ok : Bool} (h : s.Invariant)
    (hproceed : s.proceed ok = some next) : next.Invariant := by
  unfold proceed at hproceed
  split at hproceed
  case h_1 hphase =>
    cases hproceed
    exact invariant_advanced h hphase rfl (by split <;> simp)
  case h_2 hphase =>
    cases hproceed
    exact invariant_advanced h hphase rfl (by split <;> simp)
  case h_3 hphase =>
    cases hproceed
    exact invariant_advanced h hphase rfl (by split <;> simp)
  case h_4 => cases hproceed

theorem invariant_taken {s : State} {taken : Nat} {sent : Sent} {rest : List Sent}
    (h : s.Invariant) (hbatch : s.backend = .batch taken) (hroom : taken ≠ 256)
    (hqueue : s.queue = sent :: rest) (hcommand : sent.command ≠ .disconnect) :
    Invariant { s with queue := rest, backend := .batch (taken + 1) } where
  led := fun other hmem => (led_tail h hqueue other hmem).mono rfl id fun _ => id
  current := by
    intro _
    obtain ⟨hsession, hall⟩ := h.current (by rw [hbatch]; rfl)
    rw [hqueue] at hall
    exact ⟨hsession, fun other hmem =>
      (hall other (List.mem_cons_of_mem _ hmem)).mono rfl id fun _ => id⟩
  offered := fun other hsent =>
    have hold := h.offered other hsent
    ⟨hold.1.mono rfl id fun _ => id, hold.2⟩
  refused := h.refused
  flagged := h.flagged
  stored := h.stored
  batch := by
    intro later hlater
    cases hlater
    obtain ⟨hbounded, hqueued, hnext⟩ := h.batch taken hbatch
    rw [hqueue] at hqueued hnext
    exact ⟨by omega, hqueued.2 hcommand, fun hclosing => (hnext hclosing).tail hcommand⟩
  clean := h.clean

/-- The command at the front of a batch is one of this session, and nothing bars it. -/
theorem front_clean {s : State} {taken : Nat} {sent : Sent} {rest : List Sent} (h : s.Invariant)
    (hbatch : s.backend = .batch taken) (hroom : taken ≠ 256) (hqueue : s.queue = sent :: rest)
    (hinput : CommandSender.isInput sent.command = true) :
    Transmission.Clean { sent, session := s.session, iteration := s.iteration } := by
  obtain ⟨hsession, hall⟩ := h.current (by rw [hbatch]; rfl)
  have hsaw : s.Saw sent := by
    apply hall
    rw [hqueue]
    exact List.mem_cons_self
  have hbounds := h.batch taken hbatch
  have hunbarred : ¬ Barred s.iteration sent := by
    intro hbarred
    have hqueued := hbounds.queued
    rw [hqueue] at hqueued
    have hlong := hqueued.1 hbarred
    have hshort := hbounds.bounded
    omega
  rw [Barred, not_or] at hunbarred
  refine ⟨hinput, hsaw.connects.trans hsession.symm, Bool.eq_false_iff.2 hunbarred.1, ?_⟩
  intro failure hmem
  obtain ⟨hrefused, hstored⟩ := h.stored failure (hsaw.failure failure hmem)
  have hearlier : failure.refusedIn ≠ s.iteration := fun hsame =>
    hunbarred.2 ⟨failure, hmem, hsame⟩
  exact ⟨Nat.lt_of_le_of_ne hrefused hearlier, hstored⟩

theorem invariant_sent {s : State} {t : Transmission} (h : s.Invariant) (ht : t.Clean) :
    Invariant { s with transmitted := s.transmitted ++ [t] } where
  led := fun sent hmem => (h.led sent hmem).mono rfl id fun _ => id
  current := fun hin =>
    ⟨(h.current hin).1, fun sent hmem => ((h.current hin).2 sent hmem).mono rfl id fun _ => id⟩
  offered := fun sent hsent =>
    have hold := h.offered sent hsent
    ⟨hold.1.mono rfl id fun _ => id, hold.2⟩
  refused := h.refused
  flagged := h.flagged
  stored := h.stored
  batch := fun taken hbatch =>
    have hold := h.batch taken hbatch
    ⟨hold.bounded, hold.queued, hold.next⟩
  clean := by
    intro other hmem
    rcases List.mem_append.1 hmem with hmem | hmem
    · exact h.clean other hmem
    · rwa [List.mem_singleton.1 hmem]

theorem invariant_take {s : State} {taken : Nat} (h : s.Invariant)
    (hbatch : s.backend = .batch taken) (ok : Bool) : (s.take taken ok).Invariant := by
  unfold take
  split
  · exact invariant_advanced h hbatch rfl nofun
  · rename_i hroom
    split
    · exact invariant_advanced h hbatch rfl (by split <;> simp)
    · rename_i sent rest hqueue
      have hleft : ∀ next : State, next.Invariant → Invariant { next with backend := .draining } :=
        fun next hnext => invariant_moved hnext nofun
          nofun
      -- input: sent, and then the batch goes on or the session ends
      have hinput : CommandSender.isInput sent.command = true →
          sent.command ≠ .disconnect → Invariant
            { s with
              queue := rest
              backend := if ok then .batch (taken + 1) else .draining
              transmitted := s.transmitted ++
                [{ sent, session := s.session, iteration := s.iteration }] } := by
        intro hkind hcommand
        have hsent := invariant_sent (invariant_taken h hbatch hroom hqueue hcommand)
          (front_clean h hbatch hroom hqueue hkind)
        cases ok
        · exact hleft _ hsent
        · exact hsent
      unfold transmit
      cases hcommand : sent.command with
      | connect options =>
          exact invariant_taken h hbatch hroom hqueue (by rw [hcommand]; exact nofun)
      | disconnect =>
          refine invariant_dropped (hleft s h) hqueue rfl
      | pointer x y buttons => exact hinput (by rw [hcommand]; rfl) (by rw [hcommand]; exact nofun)
      | key keysym down => exact hinput (by rw [hcommand]; rfl) (by rw [hcommand]; exact nofun)
      | clipboard text => exact hinput (by rw [hcommand]; rfl) (by rw [hcommand]; exact nofun)

theorem invariant_step {s next : State} {action : Action} (h : s.Invariant)
    (hstep : s.step action = some next) : next.Invariant := by
  obtain ⟨hallowed, hnext⟩ := Option.ite_none_right_eq_some.1 hstep
  cases apply_cases hnext with
  | begin command hready => exact invariant_begin h hready hallowed
  | offer hoffering => exact invariant_offer h hoffering
  | fail hrefused => exact invariant_fail h hrefused
  | drop => exact invariant_leaving h true (Or.inl rfl) fun _ => rfl
  | hangUp => exact invariant_leaving h s.cancelled (Or.inr rfl) id
  | receive hwaiting hqueue => exact invariant_receive h hwaiting hqueue
  | stop => exact invariant_moved h nofun nofun
  | check hcheck => exact invariant_check h hcheck
  | proceed hproceed => exact invariant_proceed h hproceed
  | take ok hbatch => exact invariant_take h hbatch ok
  | drain hdraining hqueue => exact invariant_dropped h hqueue (by rw [hdraining]; rfl)
  | drained => exact invariant_moved h nofun nofun
  | close => exact invariant_moved h nofun nofun

theorem invariant_run {s last : State} {actions : List Action} (h : s.Invariant)
    (hrun : s.run actions = some last) : last.Invariant := by
  induction actions generalizing s with
  | nil =>
      cases hrun
      exact h
  | cons action rest ih =>
      obtain ⟨next, hstep, hrest⟩ := Option.bind_eq_some_iff.1 hrun
      exact ih (invariant_step h hstep) hrest

/-- What reaches the Mac in a session is input sent after the Connect of that session,
with no Disconnect between, and after a send that failed only in a loop iteration that
was already past the flag when that send raised it. -/
theorem input_stays_in_session (actions : List Action) (s : State)
    (hrun : initial.run actions = some s) (t : Transmission) (ht : t ∈ s.transmitted) :
    CommandSender.isInput t.sent.command = true ∧ t.sent.connects = t.session ∧
      t.sent.disconnected = false ∧
      ∀ failure ∈ t.sent.failure,
        failure.refusedIn < t.iteration ∧ failure.storedIn = t.iteration := by
  have hclean := (invariant_run initial_invariant hrun).clean t ht
  exact ⟨hclean.input, hclean.session, hclean.connected, hclean.overtaken⟩

def fixtureOptions : ConnectOptions :=
  { host := ['m', 'a', 'c'], port := 5900, username := ['u'], password := ['p'],
    width := 1920, height := 1080, fps := 60 }

def opening : List Action :=
  [.begin (.connect fixtureOptions), .offer, .receive, .check, .proceed true, .check,
    .proceed true, .check]

def fixtureRun : List Action := opening ++ [.begin (.key 65 true), .offer, .take true]

def fixtureSent : Transmission :=
  { sent := { command := .key 65 true, connects := 1, disconnected := false, failure := none }
    session := 1
    iteration := 1 }

theorem input_stays_in_session_fixture :
    ∃ s, initial.run fixtureRun = some s ∧ s.transmitted = [fixtureSent] ∧
      fixtureSent.sent.connects = fixtureSent.session := by
  have hrun : (initial.run fixtureRun).map transmitted = some [fixtureSent] := by decide
  obtain ⟨s, hs, htransmitted⟩ := Option.map_eq_some_iff.1 hrun
  have hmem : fixtureSent ∈ s.transmitted := by
    rw [htransmitted]
    exact List.mem_cons_self
  exact ⟨s, hs, htransmitted, (input_stays_in_session fixtureRun s hs fixtureSent hmem).2.1⟩

/-- The queue is filled, a key release is refused, and the backend begins its next
iteration before that send raises the flag. -/
def overtaking : List Action :=
  opening ++ (List.replicate 256 [Action.begin (.pointer 0 0 0), .offer]).flatten ++
    [.begin (.key 65 false), .offer] ++ List.replicate 257 (.take true) ++
    [.proceed true, .check, .fail, .begin (.key 66 true), .offer, .take true]

def overtaken : Transmission :=
  { sent :=
      { command := .key 66 true, connects := 1, disconnected := false
        failure := some { refusedIn := 1, storedIn := 2 } }
    session := 1
    iteration := 2 }

/-- A key sent after a send that failed still reaches the Mac. -/
theorem failed_send_overtaken :
    ¬ ∀ actions s, initial.run actions = some s → ∀ t ∈ s.transmitted,
      t.sent.connects = t.session ∧ t.sent.disconnected = false ∧ t.sent.failure = none := by
  intro hclaim
  have hrun : (initial.run overtaking).map (fun s => s.transmitted.getLast?) =
      some (some overtaken) := by decide +kernel
  obtain ⟨s, hs, hlast⟩ := Option.map_eq_some_iff.1 hrun
  have hnone := (hclaim overtaking s hs overtaken (List.mem_of_getLast? hlast)).2.2
  cases hnone

end State

end MacVnc.Client.SessionBoundary

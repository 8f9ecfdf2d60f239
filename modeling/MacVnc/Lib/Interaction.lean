import Mathlib.Data.List.Basic
import Mathlib.Data.List.Forall2
/-!
# Dialogues with a peer

A program that talks to a peer: it asks for a number of bytes, emits messages, starts a
deadline and goes on only before it.  The bytes of the peer are one string, or they come
through a socket: in pieces of any size, with interruptions and failures, by a clock that
runs as it likes.  Over a socket a dialogue ends as it does on the string, or the socket
or the clock stopped it on the way.
-/

namespace MacVnc.Lib.Interaction

/-- A program with messages `ω`, errors `ε` and results `α`. -/
inductive Dialogue (ω ε α : Type) where
  | done (result : Except ε α)
  | read (count : Nat) (next : List UInt8 → Dialogue ω ε α)
  | emit (message : ω) (next : Dialogue ω ε α)
  | arm (next : Dialogue ω ε α)
  | within (late : ε) (next : Dialogue ω ε α)

variable {ω ε α β : Type}

namespace Dialogue

def bind : Dialogue ω ε α → (α → Dialogue ω ε β) → Dialogue ω ε β
  | .done (.ok a), f => f a
  | .done (.error e), _ => .done (.error e)
  | .read count next, f => .read count fun bytes => (next bytes).bind f
  | .emit message next, f => .emit message (next.bind f)
  | .arm next, f => .arm (next.bind f)
  | .within late next, f => .within late (next.bind f)

instance : Monad (Dialogue ω ε) where
  pure a := .done (.ok a)
  bind := bind

def fail (e : ε) : Dialogue ω ε α := .done (.error e)

/-- `ensure!`. -/
def ensure (p : Prop) [Decidable p] (e : ε) : Dialogue ω ε Unit :=
  if p then .done (.ok ()) else .done (.error e)

def receive (count : Nat) : Dialogue ω ε (List UInt8) := .read count fun bytes => .done (.ok bytes)

def say (message : ω) : Dialogue ω ε Unit := .emit message (.done (.ok ()))

def arming : Dialogue ω ε Unit := .arm (.done (.ok ()))

def inTime (late : ε) : Dialogue ω ε Unit := .within late (.done (.ok ()))

theorem pure_bind (a : α) (f : α → Dialogue ω ε β) :
    ((pure a : Dialogue ω ε α) >>= f) = f a := rfl

theorem ensure_bind {p : Prop} [Decidable p] (hp : p) (e : ε) (f : Unit → Dialogue ω ε α) :
    (ensure p e >>= f) = f () := by
  rw [ensure, if_pos hp]
  rfl

end Dialogue

inductive Stop (ε : Type) where
  | program (e : ε)
  | expired (e : ε)
  | closed
  | late
  | failed
  | refused
deriving DecidableEq

def Stop.External : Stop ε → Prop
  | .program _ => False
  | .closed => False
  | _ => True

structure Ending (ω ε α τ : Type) where
  result : Except (Stop ε) α
  emitted : List ω
  rest : τ

namespace Ending

variable {τ : Type}

def after (messages : List ω) (ending : Ending ω ε α τ) : Ending ω ε α τ :=
  { ending with emitted := messages ++ ending.emitted }

end Ending

namespace Dialogue

/-! ## On a string -/

/-- The dialogue with a peer that sends these bytes and closes. -/
def run : Dialogue ω ε α → List UInt8 → Ending ω ε α (List UInt8)
  | .done result, bytes => { result := result.mapError .program, emitted := [], rest := bytes }
  | .read count next, bytes =>
      if bytes.length < count then { result := .error .closed, emitted := [], rest := [] }
      else (next (bytes.take count)).run (bytes.drop count)
  | .emit message next, bytes => (next.run bytes).after [message]
  | .arm next, bytes => next.run bytes
  | .within _ next, bytes => next.run bytes

theorem run_receive {chunk : List UInt8} {count : Nat} (h : chunk.length = count)
    (rest : List UInt8) (f : List UInt8 → Dialogue ω ε α) :
    (receive count >>= f).run (chunk ++ rest) = (f chunk).run rest := by
  show (if (chunk ++ rest).length < count then _ else _) = _
  rw [if_neg (by rw [List.length_append, h]; omega), ← h, List.take_left, List.drop_left]
  rfl

theorem run_receive_of_lt {bytes : List UInt8} {count : Nat} (h : bytes.length < count)
    (f : List UInt8 → Dialogue ω ε α) :
    (receive count >>= f).run bytes = { result := .error .closed, emitted := [], rest := [] } :=
  if_pos h

theorem run_receive_cases (count : Nat) (f : List UInt8 → Dialogue ω ε α) (bytes : List UInt8) :
    (∃ chunk rest, bytes = chunk ++ rest ∧ chunk.length = count ∧
      (receive count >>= f).run bytes = (f chunk).run rest) ∨
    (receive count >>= f).run bytes = { result := .error .closed, emitted := [], rest := [] } := by
  rcases Nat.lt_or_ge bytes.length count with hshort | hlong
  · exact .inr (run_receive_of_lt hshort f)
  · have hchunk : (bytes.take count).length = count := List.length_take_of_le hlong
    refine .inl ⟨bytes.take count, bytes.drop count, (List.take_append_drop ..).symm, hchunk, ?_⟩
    have hrun := run_receive hchunk (bytes.drop count) f
    rwa [List.take_append_drop] at hrun

theorem run_say (message : ω) (f : Unit → Dialogue ω ε α) (bytes : List UInt8) :
    (say message >>= f).run bytes = ((f ()).run bytes).after [message] := rfl

theorem run_arming (f : Unit → Dialogue ω ε α) (bytes : List UInt8) :
    (arming >>= f).run bytes = (f ()).run bytes := rfl

theorem run_inTime (late : ε) (f : Unit → Dialogue ω ε α) (bytes : List UInt8) :
    (inTime late >>= f).run bytes = (f ()).run bytes := rfl

/-- What follows a dialogue, from its ending on. -/
def andThen (f : α → Dialogue ω ε β) (ending : Ending ω ε α (List UInt8)) :
    Ending ω ε β (List UInt8) :=
  match ending.result with
  | .ok a => ((f a).run ending.rest).after ending.emitted
  | .error stop => { ending with result := .error stop }

theorem run_bind (d : Dialogue ω ε α) (f : α → Dialogue ω ε β) (bytes : List UInt8) :
    (d >>= f).run bytes = andThen f (d.run bytes) := by
  induction d generalizing bytes with
  | done result =>
      cases result with
      | error e => rfl
      | ok a => rfl
  | read count next ih =>
      show (if bytes.length < count then _ else _) = _
      rw [run]
      split
      · rfl
      · exact ih _ _
  | emit message next ih =>
      show ((next >>= f).run bytes).after [message] = _
      rw [ih, run]
      unfold andThen Ending.after
      dsimp only
      cases (next.run bytes).result with
      | error stop => rfl
      | ok a => rfl
  | arm next ih => exact ih bytes
  | within late next ih => exact ih bytes

theorem run_bind_ok {d : Dialogue ω ε α} {bytes rest : List UInt8} {messages : List ω} {a : α}
    (h : d.run bytes = { result := .ok a, emitted := messages, rest })
    (f : α → Dialogue ω ε β) : (d >>= f).run bytes = ((f a).run rest).after messages := by
  rw [run_bind, h]
  rfl

end Dialogue

/-! ## Over a socket -/

/-- What a call of `read` finds: bytes, an interruption or an error. -/
inductive Arrival where
  | data (first : UInt8) (more : List UInt8)
  | interrupted
  | failed
deriving DecidableEq

def Arrival.bytes : Arrival → List UInt8
  | .data first more => first :: more
  | _ => []

/-- What is still to arrive, the readings of the clock from now on, and which of the next
messages the socket refuses.  Behind the arrivals the peer has closed. -/
structure Socket where
  arrivals : List Arrival
  clock : Nat → Nat
  refuses : Nat → Bool

namespace Socket

def bytes (s : Socket) : List UInt8 := s.arrivals.flatMap Arrival.bytes

def tick (s : Socket) : Socket := { s with clock := fun n => s.clock (n + 1) }

def written (s : Socket) : Socket := { s with refuses := fun n => s.refuses (n + 1) }

/-- Bytes that did not fit are read next. -/
def unread : List UInt8 → List Arrival → List Arrival
  | [], arrivals => arrivals
  | first :: more, arrivals => .data first more :: arrivals

/-- Reading until the buffer of `count` bytes is full. -/
def fill (deadline : Nat) : Nat → List Arrival → (Nat → Nat) →
    Except (Stop ε) (List UInt8) × List Arrival × (Nat → Nat)
  | count, arrivals, clock =>
      if count = 0 then (.ok [], arrivals, clock)
      else if ¬ clock 0 < deadline then (.error .late, arrivals, fun n => clock (n + 1))
      else
        match arrivals with
        | [] => (.error .closed, [], fun n => clock (n + 1))
        | .failed :: rest => (.error .failed, rest, fun n => clock (n + 1))
        | .interrupted :: rest => fill deadline count rest fun n => clock (n + 1)
        | .data first more :: rest =>
            if (first :: more).length < count then
              let (result, arrivals, clock) :=
                fill deadline (count - (first :: more).length) rest fun n => clock (n + 1)
              (result.map ((first :: more) ++ ·), arrivals, clock)
            else
              (.ok ((first :: more).take count), unread ((first :: more).drop count) rest,
                fun n => clock (n + 1))

/-- A field is read before the patience of the program is over. -/
def receive (patience count : Nat) (s : Socket) : Except (Stop ε) (List UInt8) × Socket :=
  let (result, arrivals, clock) := fill (s.clock 0 + patience) count s.arrivals s.tick.clock
  (result, { s with arrivals, clock })

end Socket

/-- The dialogue over a socket, with the deadline that was started last. -/
def Dialogue.runOn (patience : Nat) : Dialogue ω ε α → Nat → Socket → Ending ω ε α Socket
  | .done result, _, s => { result := result.mapError .program, emitted := [], rest := s }
  | .read count next, deadline, s =>
      match s.receive patience count with
      | (.ok bytes, s) => (next bytes).runOn patience deadline s
      | (.error stop, s) => { result := .error stop, emitted := [], rest := s }
  | .emit message next, deadline, s =>
      if s.refuses 0 then { result := .error .refused, emitted := [], rest := s.written }
      else (next.runOn patience deadline s.written).after [message]
  | .arm next, _, s => next.runOn patience (s.clock 0 + patience) s.tick
  | .within late next, deadline, s =>
      if s.clock 0 < deadline then next.runOn patience deadline s.tick
      else { result := .error (.expired late), emitted := [], rest := s.tick }

/-- The dialogue from its start, with the deadline as if it were started there. -/
def Dialogue.over (patience : Nat) (d : Dialogue ω ε α) (s : Socket) : Ending ω ε α Socket :=
  d.runOn patience (s.clock 0 + patience) s

/-! ### Against the string -/

namespace Socket

@[simp] theorem flatMap_unread (bytes : List UInt8) (arrivals : List Arrival) :
    (unread bytes arrivals).flatMap Arrival.bytes = bytes ++ arrivals.flatMap Arrival.bytes := by
  cases bytes with
  | nil => rfl
  | cons first more => rfl

/-- What filling a buffer leaves: the next bytes are in it, or they were too few, or it was
stopped from outside. -/
def Filled (count : Nat) (bytes : List UInt8) :
    Except (Stop ε) (List UInt8) × List Arrival × (Nat → Nat) → Prop
  | (.ok chunk, arrivals, _) =>
      chunk.length = count ∧ bytes = chunk ++ arrivals.flatMap Arrival.bytes
  | (.error stop, arrivals, _) => stop.External ∨
      stop = .closed ∧ bytes.length < count ∧ arrivals = []

theorem fill_spec (deadline count : Nat) (arrivals : List Arrival) (clock : Nat → Nat) :
    Filled count (arrivals.flatMap Arrival.bytes)
      (fill deadline count arrivals clock : Except (Stop ε) (List UInt8) × _) := by
  induction arrivals generalizing count clock with
  | nil =>
      unfold fill
      split
      · rename_i hcount
        exact ⟨hcount.symm, rfl⟩
      · rename_i hcount
        split
        · exact .inl trivial
        · exact .inr ⟨rfl, Nat.pos_of_ne_zero hcount, rfl⟩
  | cons arrival rest ih =>
      unfold fill
      split
      · rename_i hcount
        exact ⟨hcount.symm, rfl⟩
      split
      · exact .inl trivial
      cases arrival with
      | failed => exact .inl trivial
      | interrupted => exact ih count _
      | data first more =>
          rw [List.flatMap_cons, Arrival.bytes]
          dsimp only
          generalize first :: more = chunk
          split
          · rename_i hshort
            have hrest := ih (count - chunk.length) fun n => clock (n + 1)
            generalize (fill deadline (count - chunk.length) rest fun n => clock (n + 1) :
              Except (Stop ε) (List UInt8) × _) = ending at hrest ⊢
            obtain ⟨result, arrivals, next⟩ := ending
            cases result with
            | ok taken =>
                refine ⟨?_, ?_⟩
                · rw [List.length_append, hrest.1]
                  omega
                · rw [hrest.2, List.append_assoc]
            | error stop =>
                refine hrest.imp_right fun ⟨hclosed, hfew, hempty⟩ => ⟨hclosed, ?_, hempty⟩
                rw [List.length_append]
                omega
          · rename_i hlong
            refine ⟨?_, ?_⟩
            · rw [List.length_take]
              omega
            · rw [flatMap_unread, ← List.append_assoc, List.take_append_drop]

theorem receive_spec (patience count : Nat) (s : Socket) :
    match (s.receive patience count : Except (Stop ε) (List UInt8) × Socket) with
    | (.ok chunk, s') => chunk.length = count ∧ s.bytes = chunk ++ s'.bytes
    | (.error stop, s') => stop.External ∨
        stop = .closed ∧ s.bytes.length < count ∧ s'.bytes = [] := by
  have hfilled := fill_spec (ε := ε) (s.clock 0 + patience) count s.arrivals s.tick.clock
  unfold receive
  generalize (fill (s.clock 0 + patience) count s.arrivals s.tick.clock :
    Except (Stop ε) (List UInt8) × _) = ending at hfilled ⊢
  obtain ⟨result, arrivals, next⟩ := ending
  cases result with
  | ok chunk => exact hfilled
  | error stop =>
      refine hfilled.imp_right fun ⟨hclosed, hfew, hempty⟩ => ⟨hclosed, hfew, ?_⟩
      rw [Socket.bytes, hempty]
      rfl

end Socket

/-- One ending tells the same as another, with the same bytes left to read. -/
structure Agrees (real : Ending ω ε α Socket) (plain : Ending ω ε α (List UInt8)) : Prop where
  result : real.result = plain.result
  emitted : real.emitted = plain.emitted
  rest : real.rest.bytes = plain.rest

/-- Something outside of the program stopped it, on the way to the other ending. -/
def StoppedBefore (real : Ending ω ε α Socket) (plain : Ending ω ε α (List UInt8)) : Prop :=
  (∃ stop, real.result = .error stop ∧ stop.External) ∧ real.emitted <+: plain.emitted

theorem Agrees.after {real : Ending ω ε α Socket} {plain : Ending ω ε α (List UInt8)}
    (h : Agrees real plain) (messages : List ω) :
    Agrees (real.after messages) (plain.after messages) :=
  ⟨h.result, congrArg (messages ++ ·) h.emitted, h.rest⟩

theorem StoppedBefore.after {real : Ending ω ε α Socket} {plain : Ending ω ε α (List UInt8)}
    (h : StoppedBefore real plain) (messages : List ω) :
    StoppedBefore (real.after messages) (plain.after messages) :=
  ⟨h.1, (List.prefix_append_right_inj messages).2 h.2⟩

/-- Over a socket nothing else can happen than on the string, but that it is stopped. -/
theorem runOn_refines (patience : Nat) (d : Dialogue ω ε α) (deadline : Nat) (s : Socket) :
    Agrees (d.runOn patience deadline s) (d.run s.bytes) ∨
      StoppedBefore (d.runOn patience deadline s) (d.run s.bytes) := by
  induction d generalizing deadline s with
  | done result => exact .inl ⟨rfl, rfl, rfl⟩
  | read count next ih =>
      have hreceive := s.receive_spec (ε := ε) patience count
      unfold Dialogue.runOn
      generalize (s.receive patience count : Except (Stop ε) (List UInt8) × Socket) = received
        at hreceive ⊢
      obtain ⟨result, s'⟩ := received
      cases result with
      | ok chunk =>
          obtain ⟨hcount, hbytes⟩ := hreceive
          rw [hbytes, Dialogue.run, if_neg (by rw [List.length_append]; omega), ← hcount,
            List.take_left, List.drop_left]
          exact ih chunk deadline s'
      | error stop =>
          rcases hreceive with hexternal | ⟨rfl, hfew, hempty⟩
          · exact .inr ⟨⟨stop, rfl, hexternal⟩, List.nil_prefix⟩
          · rw [Dialogue.run, if_pos hfew]
            exact .inl ⟨rfl, rfl, hempty⟩
  | emit message next ih =>
      unfold Dialogue.runOn
      split
      · exact .inr ⟨⟨.refused, rfl, trivial⟩, List.nil_prefix⟩
      · rcases ih deadline s.written with hagrees | ⟨hstop, hprefix⟩
        · exact .inl ⟨hagrees.result, congrArg (message :: ·) hagrees.emitted, hagrees.rest⟩
        · exact .inr ⟨hstop, List.cons_prefix_cons.2 ⟨rfl, hprefix⟩⟩
  | arm next ih => exact ih _ s.tick
  | within late next ih =>
      unfold Dialogue.runOn
      split
      · exact ih deadline s.tick
      · exact .inr ⟨⟨.expired late, rfl, trivial⟩, List.nil_prefix⟩

/-! ### An undisturbed socket -/

/-- No call fails, and all that happens takes less than the patience of the program. -/
structure Undisturbed (patience deadline : Nat) (s : Socket) : Prop where
  arrivals : .failed ∉ s.arrivals
  refuses : ∀ n, s.refuses n = false
  clock : ∀ i j, s.clock j < s.clock i + patience
  deadline : ∀ j, s.clock j < deadline

namespace Undisturbed

variable {patience deadline : Nat} {s : Socket}

theorem tick (h : Undisturbed patience deadline s) : Undisturbed patience deadline s.tick :=
  ⟨h.arrivals, h.refuses, fun i j => h.clock (i + 1) (j + 1), fun j => h.deadline (j + 1)⟩

theorem written (h : Undisturbed patience deadline s) : Undisturbed patience deadline s.written :=
  ⟨h.arrivals, fun n => h.refuses (n + 1), h.clock, h.deadline⟩

theorem arm (h : Undisturbed patience deadline s) :
    Undisturbed patience (s.clock 0 + patience) s.tick :=
  ⟨h.arrivals, h.refuses, h.tick.clock, fun j => h.clock 0 (j + 1)⟩

end Undisturbed

/-- Reading was not stopped from outside, and the clock has gone on. -/
structure Calm (clock : Nat → Nat)
    (ending : Except (Stop ε) (List UInt8) × List Arrival × (Nat → Nat)) : Prop where
  result : ∀ stop, ending.1 = .error stop → ¬ stop.External
  arrivals : .failed ∉ ending.2.1
  clock : ∃ shift, ∀ n, ending.2.2 n = clock (n + shift)

namespace Calm

variable {clock : Nat → Nat} {ending : Except (Stop ε) (List UInt8) × List Arrival × (Nat → Nat)}

theorem of_tick (h : Calm (fun n => clock (n + 1)) ending) : Calm clock ending := by
  obtain ⟨shift, hshift⟩ := h.clock
  refine ⟨h.result, h.arrivals, shift + 1, fun n => ?_⟩
  rw [hshift, Nat.add_assoc]

theorem prepend (chunk : List UInt8) (h : Calm clock ending) :
    Calm clock (ending.1.map (chunk ++ ·), ending.2) := by
  refine ⟨fun stop hstop => ?_, h.arrivals, h.clock⟩
  cases hresult : ending.1 with
  | ok bytes =>
      rw [hresult] at hstop
      cases hstop
  | error e =>
      rw [hresult] at hstop
      cases hstop
      exact h.result stop hresult

end Calm

theorem calm_fill {deadline : Nat} (count : Nat) {arrivals : List Arrival} {clock : Nat → Nat}
    (harrivals : .failed ∉ arrivals) (hclock : ∀ j, clock j < deadline) :
    Calm clock (Socket.fill deadline count arrivals clock :
      Except (Stop ε) (List UInt8) × List Arrival × (Nat → Nat)) := by
  induction arrivals generalizing count clock with
  | nil =>
      unfold Socket.fill
      split
      · exact ⟨nofun, harrivals, 0, fun _ => rfl⟩
      · rw [if_neg (not_not.2 (hclock 0))]
        refine ⟨fun stop hstop => ?_, harrivals, 1, fun _ => rfl⟩
        cases hstop
        exact id
  | cons arrival rest ih =>
      rw [List.mem_cons, not_or] at harrivals
      have hlater : ∀ j, clock (j + 1) < deadline := fun j => hclock (j + 1)
      unfold Socket.fill
      split
      · exact ⟨nofun, by rw [List.mem_cons, not_or]; exact harrivals, 0, fun _ => rfl⟩
      rw [if_neg (not_not.2 (hclock 0))]
      cases arrival with
      | failed => exact absurd rfl harrivals.1
      | interrupted => exact (ih count harrivals.2 hlater).of_tick
      | data first more =>
          dsimp only
          split
          · exact ((ih _ harrivals.2 hlater).of_tick).prepend (first :: more)
          · refine ⟨nofun, ?_, 1, fun _ => rfl⟩
            dsimp only
            cases (first :: more).drop count with
            | nil => exact harrivals.2
            | cons b rest => exact List.not_mem_cons_of_ne_of_not_mem nofun harrivals.2

namespace Undisturbed

variable {patience deadline : Nat} {s : Socket}

theorem receive (h : Undisturbed patience deadline s) (count : Nat) :
    (∀ stop, (s.receive patience count : Except (Stop ε) (List UInt8) × Socket).1 = .error stop →
      ¬ stop.External) ∧
    Undisturbed patience deadline
      (s.receive patience count : Except (Stop ε) (List UInt8) × Socket).2 := by
  have hcalm := calm_fill (ε := ε) count h.arrivals fun j => h.clock 0 (j + 1)
  obtain ⟨shift, hshift⟩ := hcalm.clock
  have hclock : ∀ n, (s.receive patience count : Except (Stop ε) (List UInt8) × Socket).2.clock n =
      s.clock (n + shift + 1) := hshift
  refine ⟨hcalm.result, hcalm.arrivals, h.refuses, fun i j => ?_, fun j => ?_⟩
  · rw [hclock, hclock]
    exact h.clock _ _
  · rw [hclock]
    exact h.deadline _

/-- Nothing but the program and the end of the bytes stops a dialogue. -/
theorem runOn (h : Undisturbed patience deadline s) (d : Dialogue ω ε α) {stop : Stop ε}
    (hstop : (d.runOn patience deadline s).result = .error stop) : ¬ stop.External := by
  induction d generalizing deadline s with
  | done result =>
      cases result with
      | ok a => cases hstop
      | error e =>
          cases hstop
          exact id
  | read count next ih =>
      obtain ⟨hexternal, hnext⟩ := h.receive (ε := ε) count
      unfold Dialogue.runOn at hstop
      generalize (s.receive patience count : Except (Stop ε) (List UInt8) × Socket) = received
        at hexternal hnext hstop
      obtain ⟨result, s'⟩ := received
      cases result with
      | ok chunk => exact ih chunk hnext hstop
      | error e =>
          cases hstop
          exact hexternal stop rfl
  | emit message next ih =>
      unfold Dialogue.runOn at hstop
      rw [h.refuses, if_neg Bool.false_ne_true] at hstop
      exact ih h.written hstop
  | arm next ih => exact ih h.arm hstop
  | within late next ih =>
      unfold Dialogue.runOn at hstop
      rw [if_pos (h.deadline 0)] at hstop
      exact ih h.tick hstop

theorem of_start (harrivals : .failed ∉ s.arrivals) (hrefuses : ∀ n, s.refuses n = false)
    (hclock : ∀ i j, s.clock j < s.clock i + patience) :
    Undisturbed patience (s.clock 0 + patience) s :=
  ⟨harrivals, hrefuses, hclock, hclock 0⟩

/-- Over an undisturbed socket a dialogue ends as on the string, however that is cut. -/
theorem agrees (h : Undisturbed patience deadline s) (d : Dialogue ω ε α) :
    Agrees (d.runOn patience deadline s) (d.run s.bytes) := by
  rcases runOn_refines patience d deadline s with hagrees | ⟨⟨stop, hstop, hexternal⟩, -⟩
  · exact hagrees
  · exact absurd hexternal (h.runOn d hstop)

end Undisturbed

/-! ## Dialogues that differ in their messages only -/

/-- The same dialogue, but for messages that are related. -/
inductive Similar (R : ω → ω → Prop) : Dialogue ω ε α → Dialogue ω ε α → Prop
  | done (result) : Similar R (.done result) (.done result)
  | read (count) {next next'} (h : ∀ bytes, Similar R (next bytes) (next' bytes)) :
      Similar R (.read count next) (.read count next')
  | emit {message message' next next'} (hmessage : R message message') (h : Similar R next next') :
      Similar R (.emit message next) (.emit message' next')
  | arm {next next'} (h : Similar R next next') : Similar R (.arm next) (.arm next')
  | within (late) {next next'} (h : Similar R next next') :
      Similar R (.within late next) (.within late next')

namespace Similar

variable {R : ω → ω → Prop} {d d' : Dialogue ω ε α}

theorem refl (hR : ∀ message, R message message) (d : Dialogue ω ε α) : Similar R d d := by
  induction d with
  | done result => exact .done result
  | read count next ih => exact .read count ih
  | emit message next ih => exact .emit (hR message) ih
  | arm next ih => exact .arm ih
  | within late next ih => exact .within late ih

theorem bind (h : Similar R d d') {f f' : α → Dialogue ω ε β} (hf : ∀ a, Similar R (f a) (f' a)) :
    Similar R (d >>= f) (d' >>= f') := by
  induction h with
  | done result =>
      cases result with
      | ok a => exact hf a
      | error e => exact .done _
  | read count _ ih => exact .read count ih
  | emit hmessage _ ih => exact .emit hmessage ih
  | arm _ ih => exact .arm ih
  | within late _ ih => exact .within late ih

/-- A peer that sends the same finds no other difference. -/
theorem runOn (h : Similar R d d') (patience deadline : Nat) (s : Socket) :
    (d.runOn patience deadline s).result = (d'.runOn patience deadline s).result ∧
      (d.runOn patience deadline s).rest = (d'.runOn patience deadline s).rest ∧
      List.Forall₂ R (d.runOn patience deadline s).emitted
        (d'.runOn patience deadline s).emitted := by
  induction h generalizing deadline s with
  | done result => exact ⟨rfl, rfl, .nil⟩
  | read count _ ih =>
      unfold Dialogue.runOn
      split
      · exact ih _ deadline _
      · exact ⟨rfl, rfl, .nil⟩
  | emit hmessage _ ih =>
      unfold Dialogue.runOn
      split
      · exact ⟨rfl, rfl, .nil⟩
      · obtain ⟨hresult, hrest, hemitted⟩ := ih deadline s.written
        exact ⟨hresult, hrest, .cons hmessage hemitted⟩
  | arm _ ih => exact ih _ s.tick
  | within late _ ih =>
      unfold Dialogue.runOn
      split
      · exact ih deadline s.tick
      · exact ⟨rfl, rfl, .nil⟩

end Similar

/-! ## Scripts -/

/-- The dialogue emits the messages of a script in their order.  With a result `Q` holds of what
is left of the script, after an error `E` does. -/
inductive Follows (Q : α → List (ω → Prop) → Prop) (E : ε → List (ω → Prop) → Prop) :
    Dialogue ω ε α → List (ω → Prop) → Prop
  | result {a script} (h : Q a script) : Follows Q E (.done (.ok a)) script
  | error {e script} (h : E e script) : Follows Q E (.done (.error e)) script
  | read {count next script}
      (h : ∀ bytes, bytes.length = count → Follows Q E (next bytes) script) :
      Follows Q E (.read count next) script
  | emit {message next entry script} (hmessage : entry message) (h : Follows Q E next script) :
      Follows Q E (.emit message next) (entry :: script)
  | arm {next script} (h : Follows Q E next script) : Follows Q E (.arm next) script
  | within (late) {next script} (h : Follows Q E next script) :
      Follows Q E (.within late next) script

namespace Follows

variable {Q : α → List (ω → Prop) → Prop} {R : β → List (ω → Prop) → Prop}
  {E : ε → List (ω → Prop) → Prop} {d : Dialogue ω ε α} {script : List (ω → Prop)}

theorem bind {f : α → Dialogue ω ε β} (h : Follows Q E d script)
    (hf : ∀ a rest, Q a rest → Follows R E (f a) rest) : Follows R E (d >>= f) script := by
  induction h with
  | result h => exact hf _ _ h
  | error h => exact .error h
  | read _ ih => exact .read ih
  | emit hmessage _ ih => exact .emit hmessage ih
  | arm _ ih => exact .arm ih
  | within late _ ih => exact .within late ih

theorem receive {Q : List UInt8 → List (ω → Prop) → Prop} {count : Nat}
    (h : ∀ bytes, bytes.length = count → Q bytes script) :
    Follows Q E (Dialogue.receive count) script :=
  .read fun bytes hlength => .result (h bytes hlength)

theorem say {Q : Unit → List (ω → Prop) → Prop} {entry : ω → Prop} {message : ω}
    (hmessage : entry message) (h : Q () script) :
    Follows Q E (Dialogue.say message) (entry :: script) := .emit hmessage (.result h)

theorem ensure {Q : Unit → List (ω → Prop) → Prop} {p : Prop} [Decidable p] {e : ε}
    (h : p → Q () script) (herror : ¬ p → E e script) :
    Follows Q E (Dialogue.ensure p e) script := by
  unfold Dialogue.ensure
  split
  · exact .result (h ‹p›)
  · exact .error (herror ‹¬ p›)

/-- The messages of a run are the first of the script; the program ends with `Q` or `E`. -/
theorem runOn (h : Follows Q E d script) (patience deadline : Nat) (s : Socket) :
    ∃ said rest, script = said ++ rest ∧
      List.Forall₂ (fun entry message => entry message) said
        (d.runOn patience deadline s).emitted ∧
      (∀ a, (d.runOn patience deadline s).result = .ok a → Q a rest) ∧
      ∀ e, (d.runOn patience deadline s).result = .error (.program e) → E e rest := by
  induction h generalizing deadline s with
  | result h =>
      refine ⟨[], _, rfl, .nil, fun a ha => ?_, nofun⟩
      cases ha
      exact h
  | error h =>
      refine ⟨[], _, rfl, .nil, nofun, fun e he => ?_⟩
      cases he
      exact h
  | @read count next script _ ih =>
      have hreceive := s.receive_spec (ε := ε) patience count
      unfold Dialogue.runOn
      generalize (s.receive patience count : Except (Stop ε) (List UInt8) × Socket) = received
        at hreceive ⊢
      obtain ⟨result, s'⟩ := received
      cases result with
      | ok chunk => exact ih chunk hreceive.1 deadline s'
      | error stop =>
          refine ⟨[], script, rfl, .nil, nofun, fun e he => ?_⟩
          cases he
          rcases hreceive with himpossible | ⟨himpossible, -⟩
          · exact himpossible.elim
          · cases himpossible
  | emit hmessage _ ih =>
      unfold Dialogue.runOn
      split
      · exact ⟨[], _, rfl, .nil, nofun, nofun⟩
      · obtain ⟨said, rest, hsplit, hsaid, hends⟩ := ih deadline s.written
        exact ⟨_ :: said, rest, congrArg (_ :: ·) hsplit, .cons hmessage hsaid, hends⟩
  | arm _ ih => exact ih _ s.tick
  | within late _ ih =>
      unfold Dialogue.runOn
      split
      · exact ih deadline s.tick
      · exact ⟨[], _, rfl, .nil, nofun, nofun⟩

end Follows

end MacVnc.Lib.Interaction

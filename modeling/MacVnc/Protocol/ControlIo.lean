import MacVnc.Lib.PartialWriter
/-!
# The outbound queue

The queue of encrypted records in front of the control socket
(`hp-protocol/src/control_io.rs`).  Ciphertext stays in wire order, including
partially written records: what the socket took and what the queue still holds
are always the records that were pushed.

An index out of range or an underflow, which would panic, is `none`.
-/

namespace MacVnc.Protocol.ControlIo

open MacVnc.Lib.PartialWriter

/-- The control socket and `Instant::now` in nanoseconds. -/
structure Socket (σ : Type*) where
  writer : Writer σ
  now : σ → Nat × σ

inductive OutboundError where
  | backlogExceededLimit
  | writerClosed
  | writerStalled
  | io
deriving DecidableEq, Repr

structure Outbound where
  records : List (List UInt8)
  offset : Nat
  bytes : Nat
  stalledSince : Option Nat
deriving DecidableEq

def maxBacklog : Nat := 512 * 1024

def flushBudget : Nat := 64 * 1024

def flushAttempts : Nat := 128

def stallLimit : Nat := 3 * 10 ^ 9

variable {σ : Type*}

/-- `Instant::now` read through the sink of the socket. -/
def readClock (socket : Socket σ) (s : Sink σ) : Nat × Sink σ :=
  let (now, world) := socket.now s.world
  (now, { s with world })

namespace Outbound

def empty : Outbound := { records := [], offset := 0, bytes := 0, stalledSince := none }

def push (q : Outbound) (wire : List UInt8) : Except OutboundError Unit × Outbound :=
  if maxBacklog < q.bytes + wire.length then (.error .backlogExceededLimit, q)
  else (.ok (), { q with bytes := q.bytes + wire.length, records := q.records ++ [wire] })

def stall (socket : Socket σ) (q : Outbound) (s : Sink σ) :
    Except OutboundError Unit × Outbound × Sink σ :=
  let (began, s) := match q.stalledSince with
    | some began => (began, s)
    | none => readClock socket s
  let (now, s) := readClock socket s
  let q := { q with stalledSince := some began }
  if now - began < stallLimit then (.ok (), q, s) else (.error .writerStalled, q, s)

def advance (q : Outbound) (record : List UInt8) (rest : List (List UInt8)) (n : Nat) :
    Option Outbound :=
  let offset := q.offset + n
  if n ≤ q.bytes then some
    { records := if offset = record.length then rest else record :: rest
      offset := if offset = record.length then 0 else offset
      bytes := q.bytes - n
      stalledSince := none }
  else none

/-- The loop of `flush` with `attempts` calls and `budget` bytes left. -/
def flushLoop (socket : Socket σ) :
    Nat → Nat → Outbound → Sink σ → Option (Except OutboundError Unit × Outbound × Sink σ)
  | 0, _, q, s => some (.ok (), q, s)
  | attempts + 1, budget, q, s =>
      match q.records with
      | [] => some (.ok (), q, s)
      | record :: rest =>
          if record.length < q.offset then none
          else
            let buffer := (record.drop q.offset).take (min budget (record.length - q.offset))
            match s.write socket.writer buffer with
            | (.ok n, s) =>
                if n = 0 then some (.error .writerClosed, q, s)
                else (q.advance record rest n).bind fun q =>
                if budget < n then none
                else if budget - n = 0 then some (.ok (), q, s)
                else flushLoop socket attempts (budget - n) q s
            | (.wouldBlock, s) => some (stall socket q s)
            | (.interrupted, s) => flushLoop socket attempts budget q s
            | (.failed, s) => some (.error .io, q, s)

def flush (socket : Socket σ) (q : Outbound) (s : Sink σ) :
    Option (Except OutboundError Unit × Outbound × Sink σ) :=
  flushLoop socket flushAttempts flushBudget q s

/-! ## What the queue holds -/

def remainder (q : Outbound) : List UInt8 := unwritten q.records q.offset

/-- The queue holds no empty record, is inside its front record, counts its
bytes and keeps its limit. -/
structure Consistent (q : Outbound) : Prop where
  records : ∀ record ∈ q.records, record ≠ []
  emptyOffset : q.records = [] → q.offset = 0
  frontOffset : ∀ record rest, q.records = record :: rest → q.offset < record.length
  bytes : q.bytes = q.remainder.length
  limit : q.bytes ≤ maxBacklog

theorem consistent_empty : Consistent empty where
  records record h := by cases h
  emptyOffset _ := rfl
  frontOffset record rest h := by cases h
  bytes := rfl
  limit := Nat.zero_le _

theorem Consistent.offset_le {q : Outbound} (h : q.Consistent) :
    q.offset ≤ q.records.flatten.length := by
  cases hrecords : q.records with
  | nil =>
      rw [h.emptyOffset hrecords]
      exact Nat.zero_le _
  | cons record rest =>
      have := h.frontOffset record rest hrecords
      rw [List.flatten_cons, List.length_append]
      omega

/-- A push appends its record or is refused without effect. -/
theorem Consistent.push {q : Outbound} (h : q.Consistent) {wire : List UInt8} (hwire : wire ≠ []) :
    (q.push wire).2.Consistent ∧
      ((q.push wire).1 = .ok () ∧ (q.push wire).2.remainder = q.remainder ++ wire ∨
        (q.push wire).1 = .error .backlogExceededLimit ∧ (q.push wire).2 = q) := by
  unfold Outbound.push
  by_cases hfull : maxBacklog < q.bytes + wire.length
  · rw [if_pos hfull]
    exact ⟨h, Or.inr ⟨rfl, rfl⟩⟩
  rw [if_neg hfull]
  have hremainder : unwritten (q.records ++ [wire]) q.offset = q.remainder ++ wire :=
    unwritten_append wire h.offset_le
  refine ⟨⟨?_, ?_, ?_, ?_, Nat.not_lt.1 hfull⟩, Or.inl ⟨rfl, hremainder⟩⟩
  · intro record hrecord
    rcases List.mem_append.1 hrecord with hold | hnew
    · exact h.records record hold
    · rw [List.mem_singleton.1 hnew]
      exact hwire
  · intro hnone
    exact absurd hnone (by simp)
  · intro record rest hsplit
    cases hrecords : q.records with
    | nil =>
        dsimp only at hsplit
        rw [hrecords, List.nil_append, List.cons.injEq] at hsplit
        show q.offset < record.length
        rw [h.emptyOffset hrecords, ← hsplit.1]
        exact List.length_pos_of_ne_nil hwire
    | cons front tail =>
        dsimp only at hsplit
        rw [hrecords, List.cons_append, List.cons.injEq] at hsplit
        rw [← hsplit.1]
        exact h.frontOffset front tail hrecords
  · show q.bytes + wire.length = (unwritten (q.records ++ [wire]) q.offset).length
    rw [hremainder, List.length_append, h.bytes]

/-- Bytes taken from the front record leave the queue. -/
theorem Consistent.advance {q : Outbound} (h : q.Consistent) {record : List UInt8}
    {rest : List (List UInt8)} (hrecords : q.records = record :: rest) {n : Nat}
    (hn : q.offset + n ≤ record.length) :
    ∃ q', q.advance record rest n = some q' ∧ q'.Consistent ∧
      (record.drop q.offset).take n ++ q'.remainder = q.remainder := by
  have hremainder : (record.drop q.offset).take n ++ unwritten (record :: rest) (q.offset + n) =
      q.remainder := by
    rw [Outbound.remainder, hrecords]
    exact take_append_unwritten hn
  have htaken : ((record.drop q.offset).take n).length = n := by
    rw [List.length_take, List.length_drop]
    omega
  have hlength : n + (unwritten (record :: rest) (q.offset + n)).length = q.bytes := by
    rw [h.bytes, ← hremainder, List.length_append, htaken]
  have hlimit := h.limit
  unfold Outbound.advance
  dsimp only
  rw [if_pos (by omega)]
  refine ⟨_, rfl, ?_⟩
  by_cases hdone : q.offset + n = record.length
  · rw [hdone, unwritten_full] at hremainder hlength
    simp only [hdone, ↓reduceIte]
    refine ⟨⟨?_, fun _ => rfl, ?_, ?_, ?_⟩, hremainder⟩
    · intro other hother
      exact h.records other (hrecords ▸ List.mem_cons_of_mem _ hother)
    · intro front tail hsplit
      have hne : front ≠ [] := h.records front (by rw [hrecords]; simp_all)
      exact List.length_pos_of_ne_nil hne
    · show q.bytes - n = (unwritten rest 0).length
      omega
    · show q.bytes - n ≤ maxBacklog
      omega
  · simp only [hdone, ↓reduceIte]
    refine ⟨⟨?_, ?_, ?_, ?_, ?_⟩, hremainder⟩
    · intro other hother
      exact h.records other (hrecords ▸ hother)
    · intro hnone
      cases hnone
    · intro front tail hsplit
      cases hsplit
      show q.offset + n < record.length
      omega
    · show q.bytes - n = (unwritten (record :: rest) (q.offset + n)).length
      omega
    · show q.bytes - n ≤ maxBacklog
      omega

theorem stall_same (socket : Socket σ) (q : Outbound) (s : Sink σ) :
    ∃ result stalledSince world, stall socket q s =
      (result, { q with stalledSince }, { s with world }) := by
  unfold stall
  cases q.stalledSince with
  | none =>
      dsimp only [readClock]
      split <;> exact ⟨_, _, _, rfl⟩
  | some began =>
      dsimp only [readClock]
      split <;> exact ⟨_, _, _, rfl⟩

theorem Consistent.stalled {q : Outbound} (h : q.Consistent) (stalledSince : Option Nat) :
    Consistent { q with stalledSince } :=
  ⟨h.records, h.emptyOffset, h.frontOffset, h.bytes, h.limit⟩

/-- What a loop of `attempts` calls and `budget` bytes does to the queue and the sink. -/
structure Flushed (attempts budget : Nat) (q : Outbound) (s : Sink σ) (q' : Outbound)
    (s' : Sink σ) : Prop where
  consistent : q'.Consistent
  conserved : s'.accepted ++ q'.remainder = s.accepted ++ q.remainder
  accepted : s'.accepted.length ≤ s.accepted.length + budget
  calls : s'.calls ≤ s.calls + attempts

theorem Flushed.later {attempts budget : Nat} {q q' : Outbound} {s s₁ s' : Sink σ}
    (h : Flushed attempts budget q s₁ q' s') (haccepted : s₁.accepted = s.accepted)
    (hcalls : s₁.calls = s.calls + 1) : Flushed (attempts + 1) budget q s q' s' where
  consistent := h.consistent
  conserved := by rw [h.conserved, haccepted]
  accepted := by rw [← haccepted]; exact h.accepted
  calls := by
    have := h.calls
    omega

theorem flushed_refl {q : Outbound} (h : q.Consistent) (attempts budget : Nat) (s : Sink σ) :
    Flushed attempts budget q s q s :=
  ⟨h, rfl, Nat.le_add_right _ _, Nat.le_add_right _ _⟩

/-- What the socket took of the front record leaves the queue. -/
theorem Consistent.written {q : Outbound} (h : q.Consistent) {record : List UInt8}
    {rest : List (List UInt8)} (hrecords : q.records = record :: rest) {budget n : Nat}
    {buffer : List UInt8}
    (hbuffer : (record.drop q.offset).take (min budget (record.length - q.offset)) = buffer)
    (hn : n ≤ buffer.length) :
    ∃ q', q.advance record rest n = some q' ∧ q'.Consistent ∧
      buffer.take n ++ q'.remainder = q.remainder := by
  have hoffset := h.frontOffset record rest hrecords
  rw [← hbuffer, List.length_take, List.length_drop] at hn
  have htaken : buffer.take n = (record.drop q.offset).take n := by
    rw [← hbuffer, List.take_take, Nat.min_eq_left (by omega)]
  rw [htaken]
  exact h.advance hrecords (by omega)

theorem Flushed.after {attempts budget n : Nat} {q q₁ q' : Outbound} {s s₁ s' : Sink σ}
    {buffer : List UInt8} (h : Flushed attempts (budget - n) q₁ s₁ q' s') (hroom : n ≤ budget)
    (hn : n ≤ buffer.length) (haccepted : s₁.accepted = s.accepted ++ buffer.take n)
    (hcalls : s₁.calls = s.calls + 1) (hremainder : buffer.take n ++ q₁.remainder = q.remainder) :
    Flushed (attempts + 1) budget q s q' s' where
  consistent := h.consistent
  conserved := by rw [h.conserved, haccepted, List.append_assoc, hremainder]
  accepted := by
    have hmore := h.accepted
    rw [haccepted, List.length_append, List.length_take, Nat.min_eq_left hn] at hmore
    omega
  calls := by
    have hcount := h.calls
    omega

/-- The loop never panics, whatever the socket does. -/
theorem flushLoop_spec (socket : Socket σ) (attempts budget : Nat) {q : Outbound}
    (h : q.Consistent) (s : Sink σ) :
    ∃ result q' s', flushLoop socket attempts budget q s = some (result, q', s') ∧
      Flushed attempts budget q s q' s' := by
  induction attempts generalizing budget q s with
  | zero => exact ⟨_, q, s, rfl, flushed_refl h _ _ s⟩
  | succ attempts ih =>
      unfold flushLoop
      cases hrecords : q.records with
      | nil => exact ⟨_, q, s, rfl, flushed_refl h _ _ s⟩
      | cons record rest =>
          have hoffset := h.frontOffset record rest hrecords
          dsimp only
          rw [if_neg (by omega)]
          generalize hbuffer : (record.drop q.offset).take
            (min budget (record.length - q.offset)) = buffer
          have hroom : buffer.length ≤ budget := by
            rw [← hbuffer, List.length_take]
            omega
          rcases hwrite : s.write socket.writer buffer with ⟨result, s₁⟩
          cases result with
          | wouldBlock =>
              obtain ⟨haccepted, hcalls⟩ := Sink.write_refused hwrite (by simp)
              obtain ⟨result, since, world, hstall⟩ := stall_same socket q s₁
              dsimp only
              rw [hstall]
              refine ⟨_, _, _, rfl, h.stalled since, ?_, ?_, ?_⟩
              · exact congrArg (· ++ q.remainder) haccepted
              · rw [haccepted]
                exact Nat.le_add_right _ _
              · rw [hcalls]
                omega
          | interrupted =>
              obtain ⟨haccepted, hcalls⟩ := Sink.write_refused hwrite (by simp)
              obtain ⟨result, q', s', hloop, hflushed⟩ := ih budget h s₁
              exact ⟨result, q', s', hloop, hflushed.later haccepted hcalls⟩
          | failed =>
              obtain ⟨haccepted, hcalls⟩ := Sink.write_refused hwrite (by simp)
              exact ⟨_, q, s₁, rfl, (flushed_refl h attempts budget s₁).later haccepted hcalls⟩
          | ok n =>
              obtain ⟨hn, haccepted, hcalls⟩ := Sink.write_ok hwrite
              dsimp only
              by_cases hzero : n = 0
              · rw [hzero, List.take_zero, List.append_nil] at haccepted
                rw [if_pos hzero]
                exact ⟨_, q, s₁, rfl, (flushed_refl h attempts budget s₁).later haccepted hcalls⟩
              rw [if_neg hzero]
              obtain ⟨q₁, hadvance, hconsistent, hremainder⟩ := h.written hrecords hbuffer hn
              rw [hadvance, Option.bind_some, if_neg (by omega)]
              by_cases hspent : budget - n = 0
              · rw [if_pos hspent]
                exact ⟨_, q₁, s₁, rfl,
                  (flushed_refl hconsistent attempts (budget - n) s₁).after (by omega) hn
                    haccepted hcalls hremainder⟩
              · rw [if_neg hspent]
                obtain ⟨result, q', s', hloop, hflushed⟩ := ih (budget - n) hconsistent s₁
                exact ⟨result, q', s', hloop,
                  hflushed.after (by omega) hn haccepted hcalls hremainder⟩

end Outbound

/-! ## Runs -/

inductive Op where
  | push (wire : List UInt8)
  | flush
deriving DecidableEq

/-- The queue, its socket and the concatenation of the records that were accepted. -/
structure Pipe (σ : Type*) where
  queue : Outbound
  sink : Sink σ
  pushed : List UInt8

namespace Pipe

def new (world : σ) : Pipe σ := { queue := .empty, sink := .new world, pushed := [] }

def step (socket : Socket σ) (pipe : Pipe σ) : Op → Option (Except OutboundError Unit × Pipe σ)
  | .push wire =>
      match pipe.queue.push wire with
      | (.ok (), queue) => some (.ok (), { pipe with queue, pushed := pipe.pushed ++ wire })
      | (.error e, queue) => some (.error e, { pipe with queue })
  | .flush =>
      (pipe.queue.flush socket pipe.sink).map fun (result, queue, sink) =>
        (result, { pipe with queue, sink })

def run (socket : Socket σ) (pipe : Pipe σ) : List Op → Option (Pipe σ)
  | [] => some pipe
  | op :: ops => (pipe.step socket op).bind fun (_, pipe) => pipe.run socket ops

/-- Every accepted byte was taken by the socket or is still queued, in order. -/
structure Conserved (pipe : Pipe σ) : Prop where
  consistent : pipe.queue.Consistent
  bytes : pipe.sink.accepted ++ pipe.queue.remainder = pipe.pushed

theorem conserved_new (world : σ) : Conserved (new world) := ⟨Outbound.consistent_empty, rfl⟩

theorem Conserved.step (socket : Socket σ) {pipe : Pipe σ} (h : pipe.Conserved) {op : Op}
    (hop : ∀ wire, op = .push wire → wire ≠ []) :
    ∃ result pipe', pipe.step socket op = some (result, pipe') ∧ pipe'.Conserved := by
  cases op with
  | push wire =>
      obtain ⟨hconsistent, hcases⟩ := h.consistent.push (hop wire rfl)
      unfold Pipe.step
      rcases hpush : pipe.queue.push wire with ⟨result, queue⟩
      rw [hpush] at hconsistent hcases
      dsimp only at hconsistent hcases
      rcases hcases with ⟨rfl, hremainder⟩ | ⟨rfl, rfl⟩
      · dsimp only
        rw [hpush]
        refine ⟨_, _, rfl, hconsistent, ?_⟩
        show pipe.sink.accepted ++ queue.remainder = pipe.pushed ++ wire
        rw [hremainder, ← List.append_assoc, h.bytes]
      · dsimp only
        rw [hpush]
        exact ⟨_, _, rfl, hconsistent, h.bytes⟩
  | flush =>
      rcases Outbound.flushLoop_spec socket flushAttempts flushBudget h.consistent pipe.sink with
        ⟨result, queue, sink, hloop, hflushed⟩
      unfold Pipe.step Outbound.flush
      dsimp only
      rw [hloop]
      exact ⟨result, _, rfl, hflushed.consistent, hflushed.conserved.trans h.bytes⟩

theorem Conserved.run (socket : Socket σ) {pipe : Pipe σ} (h : pipe.Conserved) {ops : List Op}
    (hops : ∀ wire, .push wire ∈ ops → wire ≠ []) :
    ∃ pipe', pipe.run socket ops = some pipe' ∧ pipe'.Conserved := by
  induction ops generalizing pipe with
  | nil => exact ⟨pipe, rfl, h⟩
  | cons op ops ih =>
      have hhead : ∀ wire, op = .push wire → wire ≠ [] :=
        fun wire hwire => hops wire (hwire ▸ List.mem_cons_self)
      obtain ⟨result, pipe₁, hstep, hconserved⟩ := h.step socket hhead
      unfold Pipe.run
      rw [hstep, Option.bind_some]
      exact ih hconserved fun wire hwire => hops wire (List.mem_cons_of_mem _ hwire)

/-- After every call, whatever it returned, what the socket took and what the queue
holds are the pushed records; the counters agree with the bytes; and the next flush
keeps its budget. -/
theorem outbound_conserves (socket : Socket σ) (world : σ) (ops : List Op)
    (hops : ∀ wire, .push wire ∈ ops → wire ≠ []) :
    ∃ pipe, (new world).run socket ops = some pipe ∧
      pipe.sink.accepted ++ pipe.queue.remainder = pipe.pushed ∧
      pipe.queue.bytes = pipe.queue.remainder.length ∧ pipe.queue.bytes ≤ 512 * 1024 ∧
      (pipe.queue.records = [] → pipe.queue.offset = 0) ∧
      (∀ record rest, pipe.queue.records = record :: rest →
        pipe.queue.offset < record.length) ∧
      ∃ result queue sink, pipe.queue.flush socket pipe.sink = some (result, queue, sink) ∧
        sink.accepted.length ≤ pipe.sink.accepted.length + 64 * 1024 ∧
        sink.calls ≤ pipe.sink.calls + 128 := by
  obtain ⟨pipe, hrun, hconserved⟩ := (conserved_new world).run socket hops
  have hqueue := hconserved.consistent
  rcases Outbound.flushLoop_spec socket flushAttempts flushBudget hqueue pipe.sink with
    ⟨result, queue, sink, hflush, hflushed⟩
  exact ⟨pipe, hrun, hconserved.bytes, hqueue.bytes, hqueue.limit, hqueue.emptyOffset,
    hqueue.frontOffset, result, queue, sink, hflush, hflushed.accepted, hflushed.calls⟩

end Pipe

/-! ## Example -/

def alternating : Socket Bool where
  writer :=
    { write := fun block buffer =>
        (if block then .wouldBlock else .ok (min 3 buffer.length), !block)
      bounded := by
        intro block buffer n h
        cases block with
        | true => cases h
        | false =>
            cases h
            exact Nat.min_le_right _ _ }
  now := fun world => (0, world)

theorem Pipe.outbound_conserves_alternating :
    (∀ wire, .push wire ∈ [Op.push [1, 2, 3, 4], .push [5], .flush, .flush] → wire ≠ []) ∧
    ∃ pipe, (Pipe.new false).run alternating [.push [1, 2, 3, 4], .push [5], .flush, .flush] =
        some pipe ∧
      pipe.sink.accepted ++ pipe.queue.remainder = pipe.pushed ∧
      pipe.queue.bytes = pipe.queue.remainder.length ∧ pipe.queue.bytes ≤ 512 * 1024 ∧
      (pipe.queue.records = [] → pipe.queue.offset = 0) ∧
      (∀ record rest, pipe.queue.records = record :: rest →
        pipe.queue.offset < record.length) ∧
      ∃ result queue sink, pipe.queue.flush alternating pipe.sink = some (result, queue, sink) ∧
        sink.accepted.length ≤ pipe.sink.accepted.length + 64 * 1024 ∧
        sink.calls ≤ pipe.sink.calls + 128 :=
  ⟨by simp, Pipe.outbound_conserves alternating false _ (by simp)⟩

end MacVnc.Protocol.ControlIo

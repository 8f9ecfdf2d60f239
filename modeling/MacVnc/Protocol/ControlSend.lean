import MacVnc.Protocol.Channel
import MacVnc.Protocol.ControlIo
/-!
# Sending control messages

`HpConnection::send` and `try_send_file_message` (`hp-protocol/src/lib.rs`):
the body is encrypted, the record is queued and the queue is flushed.  The
record layer counts a record before the queue decides on it.  A record that the
full queue refuses is missing from the stream, so that the peer cannot decode
what is accepted behind it; as long as nothing is, it decodes exactly the
bodies that were taken.
-/

namespace MacVnc.Protocol.ControlSend

open MacVnc.Lib.Bytes
open MacVnc.Lib.Cbc
open MacVnc.Lib.PartialWriter
open MacVnc.Lib.Segments
open MacVnc.Protocol.Channel (Expects drainLoop_expects length_record)
open MacVnc.Protocol.ControlIo
open MacVnc.Protocol.Record

inductive SendError where
  | record (message : String)
  | outbound (e : OutboundError)
  | notFileMessage
deriving DecidableEq

/-- The fields of a connection that sending uses. -/
structure HpConnection (σ : Type*) where
  records : RecordLayer
  outbound : Outbound
  tcp : Sink σ

def bulkLimit : Nat := 64 * 1024

variable {σ : Type*}

namespace HpConnection

def start (records : RecordLayer) (world : σ) : HpConnection σ :=
  { records, outbound := .empty, tcp := .new world }

def flush (socket : Socket σ) (c : HpConnection σ) :
    Option (Except SendError Unit × HpConnection σ) :=
  (c.outbound.flush socket c.tcp).map fun (result, outbound, tcp) =>
    (result.mapError .outbound, { c with outbound, tcp })

def writeRecord (socket : Socket σ) (c : HpConnection σ) (wire : List UInt8) :
    Option (Except SendError Unit × HpConnection σ) :=
  match c.outbound.push wire with
  | (.error e, outbound) => some (.error (.outbound e), { c with outbound })
  | (.ok (), outbound) => flush socket { c with outbound }

def send (P : Primitives) (socket : Socket σ) (c : HpConnection σ) (body : List UInt8) :
    Option (Except SendError Unit × HpConnection σ) :=
  match c.records.encrypt P body with
  | (.error e, records) => some (.error (.record e), { c with records })
  | (.ok wire, records) => writeRecord socket { c with records } wire

def trySendFileMessage (P : Primitives) (socket : Socket σ) (c : HpConnection σ)
    (message : List UInt8) : Option (Except SendError Bool × HpConnection σ) :=
  if message.head? ≠ some 0x22 then some (.error .notFileMessage, c)
  else if bulkLimit < c.outbound.bytes then some (.ok false, c)
  else (c.send P socket message).map fun (result, c) => (result.map fun _ => true, c)

end HpConnection

/-! ## Runs -/

inductive Op where
  | send (body : List UInt8)
  | trySendFileMessage (message : List UInt8)
  | flush
deriving DecidableEq

/-- One call, with whether it took a body. -/
def step (P : Primitives) (socket : Socket σ) (c : HpConnection σ) :
    Op → Option (Except SendError Bool × HpConnection σ)
  | .send body => (c.send P socket body).map fun (result, c) => (result.map fun _ => true, c)
  | .trySendFileMessage message => c.trySendFileMessage P socket message
  | .flush => (c.flush socket).map fun (result, c) => (result.map fun _ => false, c)

def run (P : Primitives) (socket : Socket σ) (c : HpConnection σ) :
    List Op → Option (List (Except SendError Bool) × HpConnection σ)
  | [] => some ([], c)
  | op :: ops =>
      (step P socket c op).bind fun (result, c) =>
        (run P socket c ops).map fun (results, c) => (result :: results, c)

def Op.body : Op → List UInt8
  | .send body => body
  | .trySendFileMessage message => message
  | .flush => []

def taken : List Op → List (Except SendError Bool) → List (List UInt8)
  | op :: ops, result :: results =>
      if result = .ok true then op.body :: taken ops results else taken ops results
  | _, _ => []

/-- The writer did not fail, close or stall past its limit. -/
def Steady (result : Except SendError Bool) : Prop :=
  ∀ e, result = .error (.outbound e) → e = .backlogExceededLimit

/-! ## The condition -/

/-- The record layer seals the body of a call. -/
def Seals (c : HpConnection σ) (body : List UInt8) : Prop :=
  body.length ≤ 65498 ∧ c.records.encSeq < 0xffffffff

def Room (c : HpConnection σ) (body : List UInt8) : Prop :=
  c.outbound.bytes + (2 + recordSize body.length) ≤ maxBacklog

/-- A call whose record the full queue refuses. -/
def Refuses (c : HpConnection σ) : Op → Prop
  | .send body => Seals c body ∧ ¬ Room c body
  | _ => False

def Takes (c : HpConnection σ) : Op → Prop
  | .send body => Seals c body ∧ Room c body
  | .trySendFileMessage message =>
      message.head? = some 0x22 ∧ c.outbound.bytes ≤ bulkLimit ∧ Seals c message
  | .flush => False

/-- No call takes a body once the full queue refused one (`lost`: it has). -/
def Careful (P : Primitives) (socket : Socket σ) : Prop → HpConnection σ → List Op → Prop
  | _, _, [] => True
  | lost, c, op :: ops =>
      (lost → ¬ Takes c op) ∧ ∀ result c', step P socket c op = some (result, c') →
        Careful P socket (lost ∨ Refuses c op) c' ops

/-! ## What one call does -/

def wireRecord (P : Primitives) (r : RecordLayer) (body : List UInt8) : List UInt8 :=
  toBigEndian 2 (recordSize body.length) ++ (sealRecord P r.key r.encSeq r.encIv body).1

def sealing (P : Primitives) (r : RecordLayer) (body : List UInt8) : RecordLayer :=
  { r with
    encIv := (sealRecord P r.key r.encSeq r.encIv body).2
    encSeq := r.encSeq + 1 }

theorem length_wireRecord (P : Primitives) (r : RecordLayer) (body : List UInt8) :
    (wireRecord P r body).length = 2 + recordSize body.length :=
  length_record P r.key r.encSeq r.encIv body

theorem encrypt_error {P : Primitives} {r : RecordLayer} (hfailed : r.failed = false)
    {body : List UInt8} (hseals : ¬ (body.length ≤ 65498 ∧ r.encSeq < 0xffffffff)) :
    ∃ e, r.encrypt P body = (.error e, r) := by
  unfold RecordLayer.encrypt
  rw [if_neg (ne_true_of_eq_false hfailed)]
  by_cases hseq : r.encSeq < 0xffffffff
  · rw [if_neg (not_not.2 hseq), if_pos fun hbody => hseals ⟨hbody, hseq⟩]
    exact ⟨_, rfl⟩
  · rw [if_pos hseq]
    exact ⟨_, rfl⟩

theorem stall_error {socket : Socket σ} {q : Outbound} {s : Sink σ} {e : OutboundError}
    (h : (Outbound.stall socket q s).1 = .error e) : e = .writerStalled := by
  unfold Outbound.stall at h
  dsimp only at h
  -- a stall that goes on, and one that begins
  split at h
  all_goals
    split at h
    · cases h
    · cases h
      rfl

/-- A flush never reports a full queue. -/
theorem flushLoop_error {socket : Socket σ} {attempts budget : Nat} {q q' : Outbound}
    {s s' : Sink σ} {e : OutboundError}
    (h : Outbound.flushLoop socket attempts budget q s = some (.error e, q', s')) :
    e ≠ .backlogExceededLimit := by
  induction attempts generalizing budget q s with
  | zero => cases h
  | succ attempts ih =>
      unfold Outbound.flushLoop at h
      split at h
      · cases h
      split at h
      · cases h
      dsimp only at h
      split at h
      · rename_i n s₁ hwrite
        split at h
        · cases h
          decide
        obtain ⟨q₁, hadvance, hrest⟩ := Option.bind_eq_some_iff.1 h
        split at hrest
        · cases hrest
        split at hrest
        · cases hrest
        · exact ih hrest
      · rename_i s₁ hwrite
        have hstall := stall_error (congrArg Prod.fst (Option.some.inj h))
        rw [hstall]
        decide
      · exact ih h
      · cases h
        decide

/-- Both parts of the connection can go on. -/
def Usable (c : HpConnection σ) : Prop := c.records.failed = false ∧ c.outbound.Consistent

/-- A flush ended well, or with an error of the writer. -/
def Writer (result : Except SendError Unit) : Prop :=
  result = .ok () ∨ ∃ e, result = .error (.outbound e) ∧ e ≠ .backlogExceededLimit

def stream (c : HpConnection σ) : List UInt8 := c.tcp.accepted ++ c.outbound.remainder

/-- A flush moves bytes from the queue to the socket and nothing else. -/
theorem flush_spec (socket : Socket σ) {c : HpConnection σ} (h : c.outbound.Consistent) :
    ∃ result c', c.flush socket = some (result, c') ∧ c'.records = c.records ∧
      c'.outbound.Consistent ∧ stream c' = stream c ∧ Writer result := by
  obtain ⟨result, outbound, tcp, hloop, hflushed⟩ :=
    Outbound.flushLoop_spec socket flushAttempts flushBudget h c.tcp
  refine ⟨result.mapError .outbound, { c with outbound, tcp }, ?_, rfl, hflushed.consistent,
    hflushed.conserved, ?_⟩
  · rw [HpConnection.flush, Outbound.flush, hloop]
    rfl
  · cases result with
    | ok => exact Or.inl rfl
    | error e => exact Or.inr ⟨e, rfl, flushLoop_error hloop⟩

/-- What a send does: the layer refuses the body, the queue refuses a record that the layer
has counted, or the record is queued and flushed. -/
inductive Sent (P : Primitives) (c : HpConnection σ) (body : List UInt8) :
    Except SendError Unit → HpConnection σ → Prop where
  | refused (e : String) (hseals : ¬ Seals c body) : Sent P c body (.error (.record e)) c
  | full (hseals : Seals c body) (hroom : ¬ Room c body) :
      Sent P c body (.error (.outbound .backlogExceededLimit))
        { c with records := sealing P c.records body }
  | queued (result : Except SendError Unit) (c' : HpConnection σ) (hseals : Seals c body)
      (hroom : Room c body) (hrecords : c'.records = sealing P c.records body)
      (hstream : stream c' = stream c ++ wireRecord P c.records body) (hresult : Writer result) :
      Sent P c body result c'

/-- The connection with the record of a body queued, in front of the flush. -/
def queued (P : Primitives) (c : HpConnection σ) (body : List UInt8) : HpConnection σ :=
  { c with
    records := sealing P c.records body
    outbound := (c.outbound.push (wireRecord P c.records body)).2 }

theorem push_room {P : Primitives} {c : HpConnection σ} {body : List UInt8} (hroom : Room c body) :
    c.outbound.push (wireRecord P c.records body) = (.ok (), { c.outbound with
      bytes := c.outbound.bytes + (wireRecord P c.records body).length
      records := c.outbound.records ++ [wireRecord P c.records body] }) := by
  rw [Outbound.push, if_neg]
  rw [length_wireRecord]
  exact not_lt.2 hroom

theorem send_queued (P : Primitives) (socket : Socket σ) {c : HpConnection σ} (h : Usable c)
    {body : List UInt8} (hseals : Seals c body) (hroom : Room c body) :
    c.send P socket body = (queued P c body).flush socket ∧ Usable (queued P c body) ∧
      stream (queued P c body) = stream c ++ wireRecord P c.records body := by
  have hpush := push_room (P := P) hroom
  have hne : wireRecord P c.records body ≠ [] :=
    List.ne_nil_of_length_pos (by rw [length_wireRecord]; omega)
  obtain ⟨hconsistent, hcases⟩ := h.2.push hne
  refine ⟨?_, ⟨h.1, hconsistent⟩, ?_⟩
  · rw [HpConnection.send, encrypt_ok h.1 hseals.2 hseals.1]
    show HpConnection.writeRecord socket { c with records := sealing P c.records body }
      (wireRecord P c.records body) = _
    rw [HpConnection.writeRecord, queued, hpush]
  · rcases hcases with ⟨-, hremainder⟩ | ⟨herror, -⟩
    · show c.tcp.accepted ++ (c.outbound.push (wireRecord P c.records body)).2.remainder = _
      rw [hremainder, ← List.append_assoc]
      rfl
    · rw [hpush] at herror
      cases herror

theorem send_full (P : Primitives) (socket : Socket σ) {c : HpConnection σ} (h : Usable c)
    {body : List UInt8} (hseals : Seals c body) (hroom : ¬ Room c body) :
    c.send P socket body =
      some (.error (.outbound .backlogExceededLimit),
        { c with records := sealing P c.records body }) := by
  rw [HpConnection.send, encrypt_ok h.1 hseals.2 hseals.1]
  show HpConnection.writeRecord socket { c with records := sealing P c.records body }
    (wireRecord P c.records body) = _
  rw [HpConnection.writeRecord, Outbound.push,
    if_pos (by rw [length_wireRecord]; exact not_le.1 hroom)]

theorem send_spec (P : Primitives) (socket : Socket σ) {c : HpConnection σ} (h : Usable c)
    (body : List UInt8) :
    ∃ result c', c.send P socket body = some (result, c') ∧ Usable c' ∧
      Sent P c body result c' := by
  by_cases hseals : Seals c body
  swap
  · obtain ⟨e, hencrypt⟩ := encrypt_error (P := P) h.1 hseals
    rw [HpConnection.send, hencrypt]
    exact ⟨_, _, rfl, h, .refused e hseals⟩
  by_cases hroom : Room c body
  · obtain ⟨hsend, husable, hqueued⟩ := send_queued P socket h hseals hroom
    obtain ⟨result, c', hflush, hrecords, hconsistent, hstream, hresult⟩ :=
      flush_spec socket husable.2
    refine ⟨result, c', hsend.trans hflush, ⟨?_, hconsistent⟩, ?_⟩
    · rw [hrecords]
      exact h.1
    · exact .queued result c' hseals hroom hrecords (hstream.trans hqueued) hresult
  · exact ⟨_, { c with records := sealing P c.records body }, send_full P socket h hseals hroom, h,
      .full hseals hroom⟩

/-- What a call does: nothing is sent, or one body is. -/
inductive Stepped (P : Primitives) (c : HpConnection σ) (op : Op) :
    Except SendError Bool → HpConnection σ → Prop where
  | idle (result : Except SendError Bool) (c' : HpConnection σ) (hresult : result ≠ .ok true)
      (hrecords : c'.records = c.records) (hstream : stream c' = stream c) :
      Stepped P c op result c'
  | sent (result : Except SendError Unit) (c' : HpConnection σ) (hsent : Sent P c op.body result c')
      (htakes : Seals c op.body ∧ Room c op.body → Takes c op)
      (hrefuses : Seals c op.body ∧ ¬ Room c op.body → Refuses c op) :
      Stepped P c op (result.map fun _ => true) c'

/-- A file message that the queue lets pass finds room in it. -/
theorem room_of_bulk {c : HpConnection σ} {message : List UInt8}
    (hbulk : c.outbound.bytes ≤ bulkLimit) (hmessage : message.length ≤ 65498) :
    Room c message := by
  have hsize := recordSize_le hmessage
  unfold Room maxBacklog
  unfold bulkLimit at hbulk
  omega

theorem step_spec (P : Primitives) (socket : Socket σ) {c : HpConnection σ} (h : Usable c)
    (op : Op) :
    ∃ result c', step P socket c op = some (result, c') ∧ Usable c' ∧ Stepped P c op result c' := by
  cases op with
  | send body =>
      obtain ⟨result, c', hsend, husable, hsent⟩ := send_spec P socket h body
      exact ⟨_, c', by rw [step, hsend]; rfl, husable, .sent result c' hsent id id⟩
  | trySendFileMessage message =>
      show ∃ result c', c.trySendFileMessage P socket message = some (result, c') ∧ _
      unfold HpConnection.trySendFileMessage
      split
      · exact ⟨_, c, rfl, h, .idle _ c nofun rfl rfl⟩
      rename_i hhead
      rw [not_not] at hhead
      split
      · exact ⟨_, c, rfl, h, .idle _ c nofun rfl rfl⟩
      rename_i hbulk
      rw [not_lt] at hbulk
      obtain ⟨result, c', hsend, husable, hsent⟩ := send_spec P socket h message
      rw [hsend]
      refine ⟨_, c', rfl, husable, .sent result c' hsent ?_ ?_⟩
      · exact fun htakes => ⟨hhead, hbulk, htakes.1⟩
      · exact fun hrefuses => absurd (room_of_bulk hbulk hrefuses.1.1) hrefuses.2
  | flush =>
      obtain ⟨result, c', hflush, hrecords, hconsistent, hstream, -⟩ := flush_spec socket h.2
      refine ⟨result.map fun _ => false, c', by rw [step, hflush]; rfl, ⟨?_, hconsistent⟩, ?_⟩
      · rw [hrecords]
        exact h.1
      · refine .idle _ c' ?_ hrecords hstream
        cases result with
        | ok => exact nofun
        | error e => exact nofun

/-- No call of a run panics. -/
theorem run_total (P : Primitives) (socket : Socket σ) {c : HpConnection σ} (h : Usable c)
    (ops : List Op) : ∃ results c', run P socket c ops = some (results, c') := by
  induction ops generalizing c with
  | nil => exact ⟨[], c, rfl⟩
  | cons op ops ih =>
      obtain ⟨result, c₁, hstep, husable, -⟩ := step_spec P socket h op
      obtain ⟨results, c', hrun⟩ := ih husable
      refine ⟨result :: results, c', ?_⟩
      rw [run, hstep, Option.bind_some]
      dsimp only
      rw [hrun]
      rfl

/-! ## What the peer decodes -/

/-- The connection holds the records of `queue`, of which the peer expects the first under
`seq` and `iv`; nothing was lost, or nothing may follow. -/
structure Holds (P : Primitives) (key : Key) (seq : UInt32) (iv : Block) (lost : Prop)
    (c : HpConnection σ) (queue : List (List UInt8 × List UInt8)) : Prop where
  usable : Usable c
  sameKey : c.records.key = key
  bytes : stream c = (queue.map Prod.snd).flatten
  expects : ∃ seq' iv', Expects P key seq iv queue seq' iv' ∧
    (¬ lost → seq' = c.records.encSeq ∧ iv' = c.records.encIv)

section Calls

variable {P : Primitives} {socket : Socket σ} {key : Key} {seq : UInt32} {iv : Block} {lost : Prop}
  {c c' : HpConnection σ} {queue : List (List UInt8 × List UInt8)}

theorem Holds.idle {lost' : Prop} (h : Holds P key seq iv lost c queue) (husable : Usable c')
    (hrecords : c'.records = c.records) (hstream : stream c' = stream c) (hlost : lost → lost') :
    Holds P key seq iv lost' c' queue := by
  obtain ⟨seq', iv', hexpects, hlayer⟩ := h.expects
  refine ⟨husable, ?_, hstream.trans h.bytes, seq', iv', hexpects, fun hkept => ?_⟩
  · rw [hrecords]
    exact h.sameKey
  · rw [hrecords]
    exact hlayer fun hold => hkept (hlost hold)

/-- One call of a careful run whose writer does not fail. -/
theorem Holds.step {op : Op} {result : Except SendError Bool} (h : Holds P key seq iv lost c queue)
    (husable : Usable c') (hstepped : Stepped P c op result c') (hcareful : lost → ¬ Takes c op)
    (hsteady : Steady result) :
    ∃ queue', Holds P key seq iv (lost ∨ Refuses c op) c' queue' ∧
      queue'.map Prod.fst = queue.map Prod.fst ++ if result = .ok true then [op.body] else [] := by
  cases hstepped with
  | idle _ _ hresult hrecords hstream =>
      rw [if_neg hresult, List.append_nil]
      exact ⟨queue, h.idle husable hrecords hstream Or.inl, rfl⟩
  | sent result _ hsent htakes hrefuses =>
    cases hsent with
    | refused e hseals =>
        refine ⟨queue, h.idle husable rfl rfl Or.inl, ?_⟩
        rw [if_neg nofun, List.append_nil]
    | full hseals hroom =>
        obtain ⟨seq', iv', hexpects, -⟩ := h.expects
        refine ⟨queue, ⟨husable, h.sameKey, h.bytes, seq', iv', hexpects, fun hkept => ?_⟩, ?_⟩
        · exact absurd (Or.inr (hrefuses ⟨hseals, hroom⟩)) hkept
        · rw [if_neg nofun, List.append_nil]
    | queued _ _ hseals hroom hrecords hstream hresult =>
        rcases hresult with rfl | ⟨e, rfl, hne⟩
        swap
        · exact absurd (hsteady e rfl) hne
        obtain ⟨seq', iv', hexpects, hlayer⟩ := h.expects
        obtain rfl := h.sameKey
        obtain ⟨rfl, rfl⟩ := hlayer fun hlost => hcareful hlost (htakes ⟨hseals, hroom⟩)
        refine ⟨queue ++ [(op.body, wireRecord P c.records op.body)], ⟨husable, ?_, ?_, ?_⟩, ?_⟩
        · rw [hrecords]
          rfl
        · rw [hstream, h.bytes]
          simp
        · rw [hrecords]
          exact ⟨_, _, hexpects.snoc hseals.2 hseals.1, fun _ => ⟨rfl, rfl⟩⟩
        · simp [Except.map]

theorem Holds.run {ops : List Op} {results : List (Except SendError Bool)}
    (h : Holds P key seq iv lost c queue) (hcareful : Careful P socket lost c ops)
    (hrun : run P socket c ops = some (results, c'))
    (hsteady : ∀ result ∈ results, Steady result) :
    ∃ lost' queue', Holds P key seq iv lost' c' queue' ∧
      queue'.map Prod.fst = queue.map Prod.fst ++ taken ops results := by
  induction ops generalizing lost c queue results with
  | nil =>
      cases hrun
      exact ⟨lost, queue, h, (List.append_nil _).symm⟩
  | cons op ops ih =>
      obtain ⟨result, c₁, hstep, husable, hstepped⟩ := step_spec P socket h.usable op
      rw [ControlSend.run, hstep, Option.bind_some] at hrun
      dsimp only at hrun
      obtain ⟨⟨later, c₂⟩, hlater, hpair⟩ := Option.map_eq_some_iff.1 hrun
      cases hpair
      rw [List.forall_mem_cons] at hsteady
      obtain ⟨queue₁, hholds, hbodies⟩ := h.step husable hstepped hcareful.1 hsteady.1
      obtain ⟨lost', queue', hholds', hbodies'⟩ :=
        ih hholds (hcareful.2 result c₁ hstep) hlater hsteady.2
      refine ⟨lost', queue', hholds', ?_⟩
      rw [hbodies', hbodies, List.append_assoc, taken]
      split <;> rfl

end Calls

/-- The peer's layer opens what `records` seals next. -/
structure InStep (records peer : RecordLayer) : Prop where
  working : records.failed = false
  peerWorking : peer.failed = false
  key : peer.key = records.key
  seq : peer.decSeq = records.encSeq
  iv : peer.decIv = records.encIv

theorem inStep_new (key : Key) (iv : Block) : InStep (.new key iv) (.new key iv) :=
  ⟨rfl, rfl, rfl, rfl, rfl⟩

theorem completed_all (records : List (List UInt8)) :
    completed records records.flatten.length = records.length := by
  have h : completed (records ++ []) records.flatten.length = records.length + completed [] _ :=
    completed_append (Nat.le_refl _)
  rwa [List.append_nil, completed_nil, Nat.add_zero] at h

/-- As long as no call takes a body behind a send that the full queue refused, the socket takes
a prefix of a stream that the peer decodes to exactly the bodies that were taken. -/
theorem careful_sends_decode (P : Primitives) (socket : Socket σ) (world : σ)
    {records peer : RecordLayer} (hpeer : InStep records peer) (ops : List Op)
    (hcareful : Careful P socket False (.start records world) ops) :
    ∃ results c, run P socket (.start records world) ops = some (results, c) ∧
      ((∀ result ∈ results, Steady result) →
        ∃ stream peer', c.tcp.accepted <+: stream ∧
          drainLoop P peer stream = (.ok (taken ops results, []), peer')) := by
  have husable : Usable (HpConnection.start records world) :=
    ⟨hpeer.working, Outbound.consistent_empty⟩
  obtain ⟨results, c, hrun⟩ := run_total P socket husable ops
  refine ⟨results, c, hrun, fun hsteady => ?_⟩
  have hstart : Holds P peer.key peer.decSeq peer.decIv False (.start records world) [] :=
    ⟨husable, hpeer.key.symm, rfl, peer.decSeq, peer.decIv, ⟨rfl, rfl⟩,
      fun _ => ⟨hpeer.seq, hpeer.iv⟩⟩
  obtain ⟨lost, queue, hholds, hbodies⟩ := hstart.run hcareful hrun hsteady
  obtain ⟨seq', iv', hexpects, -⟩ := hholds.expects
  obtain ⟨peer', hloop, -⟩ := drainLoop_expects hpeer.peerWorking hexpects (List.prefix_refl _)
  refine ⟨stream c, peer', List.prefix_append _ _, ?_⟩
  rw [hholds.bytes, hloop, completed_all, List.length_map, List.take_length, hbodies,
    List.take_of_length_le (by simp), List.drop_length]
  rfl

/-! ## A record that the full queue refuses

Eight records fill the queue of a socket that blocks, the ninth is refused and the tenth, a small
one, is queued.  When the socket takes bytes again the peer finds the tenth in place of the
ninth. -/

theorem drainLoop_error {P : Primitives} {layer : RecordLayer} {seq' : UInt32} {iv' : Block}
    {queue : List (List UInt8 × List UInt8)} {tail : List UInt8} (hworking : layer.failed = false)
    (hexpects : Expects P layer.key layer.decSeq layer.decIv queue seq' iv')
    (htail : ∃ e, (drainLoop P { layer with decSeq := seq', decIv := iv' } tail).1 = .error e) :
    ∃ e, (drainLoop P layer ((queue.map Prod.snd).flatten ++ tail)).1 = .error e := by
  induction queue generalizing layer with
  | nil =>
      obtain ⟨rfl, rfl⟩ := hexpects
      exact htail
  | cons head queue ih =>
      obtain ⟨body, record⟩ := head
      obtain ⟨hseq, hbody, rfl, hnext⟩ := hexpects
      obtain ⟨e, he⟩ := @ih { layer with
        decIv := (sealRecord P layer.key layer.decSeq layer.decIv body).2
        decSeq := layer.decSeq + 1 } hworking hnext htail
      refine ⟨e, ?_⟩
      rw [List.map_cons, List.flatten_cons, List.append_assoc,
        Channel.drainLoop_complete hworking hseq hbody]
      split
      · rename_i hloop
        rw [hloop] at he
        exact he
      · rename_i hloop
        rw [hloop] at he
        cases he

def numbering : Primitives where
  aes := { encryptBlock := fun _ block => block, decryptBlock := fun _ block => block
           decrypt_encrypt := fun _ _ => rfl }
  sha1 := fun input => Vector.replicate 20 (input.getD 3 0)

theorem trailer_numbering (seq : UInt32) (front : List UInt8) :
    trailer numbering seq front = List.replicate 20 ((toBigEndian 4 seq.toNat).getD 3 0) := by
  have hlength : 3 < (toBigEndian 4 seq.toNat).length := by simp
  show (Vector.replicate 20 _).toList = _
  rw [Vector.toList_replicate, List.getD_eq_getElem?_getD, List.getElem?_append_left hlength,
    ← List.getD_eq_getElem?_getD]

theorem decrypt_gap {r : RecordLayer} (hworking : r.failed = false) (hseq : r.decSeq = 8)
    (key : Key) (iv : Block) :
    ∃ e, (r.decrypt numbering (sealRecord numbering key 9 iv []).1).1 = .error e := by
  have hplain : plaintext numbering 9 [] =
      unblocks [#v[0, 0, 0, 0, 0, 0, 0, 0, 0, 0, 0, 0, 9, 9, 9, 9], Vector.replicate 16 9] := by
    rw [plaintext, trailer_numbering]
    decide
  obtain ⟨first, hopened⟩ : ∃ first, (cbcDecrypt numbering.aes r.key r.decIv
      (chunks16 (sealRecord numbering key 9 iv []).1)).1 = [first, Vector.replicate 16 9] := by
    rw [sealRecord, chunks16_unblocks, hplain, chunks16_unblocks]
    simp only [cbcEncrypt, cbcDecrypt, numbering, CancelXor.xor_xor]
    exact ⟨_, rfl⟩
  have hlength : (sealRecord numbering key 9 iv []).1.length = 32 := length_sealRecord _ _ _ _ _
  have hmismatch : trailer numbering r.decSeq ((unblocks [first, Vector.replicate 16 9]).take 12) ≠
      (unblocks [first, Vector.replicate 16 9]).drop 12 := by
    rw [trailer_numbering, hseq]
    intro hsame
    have hmem : 9 ∈ (unblocks [first, Vector.replicate 16 9]).drop 12 := by
      rw [unblocks_cons, unblocks_cons, unblocks_nil, List.append_nil,
        List.drop_append_of_le_length (by simp)]
      exact List.mem_append_right _ (by decide)
    rw [← hsame] at hmem
    exact absurd (List.eq_of_mem_replicate hmem) (by decide)
  rw [RecordLayer.decrypt, if_neg (ne_true_of_eq_false hworking), if_neg (by rw [hseq]; decide),
    if_neg (by rw [hlength]; decide)]
  dsimp only
  rw [hopened, show (unblocks [first, Vector.replicate 16 9]).length - 20 = 12 by simp,
    if_pos hmismatch]
  exact ⟨_, rfl⟩

/-- A socket that blocks for the given number of writes and takes everything behind them. -/
def opening : Socket Nat where
  writer :=
    { write := fun blocks buffer =>
        match blocks with
        | 0 => (.ok buffer.length, 0)
        | blocks + 1 => (.wouldBlock, blocks)
      bounded := by
        intro blocks buffer n h
        cases blocks with
        | zero =>
            cases h
            exact Nat.le_refl _
        | succ blocks => cases h }
  now := fun blocks => (0, blocks)

structure Blocked (blocks : Nat) (c : HpConnection Nat) : Prop where
  usable : Usable c
  world : c.tcp.world = blocks
  accepted : c.tcp.accepted = []
  since : c.outbound.stalledSince.getD 0 = 0

theorem stall_opening {q : Outbound} (s : Sink Nat) (h : q.stalledSince.getD 0 = 0) :
    Outbound.stall opening q s = (.ok (), { q with stalledSince := some 0 }, s) := by
  unfold Outbound.stall
  cases hsince : q.stalledSince with
  | none => rfl
  | some began =>
      rw [hsince] at h
      cases h
      rfl

theorem Blocked.flush {blocks : Nat} {c : HpConnection Nat} (h : Blocked (blocks + 1) c)
    (hrecords : c.outbound.records ≠ []) :
    ∃ c', c.flush opening = some (.ok (), c') ∧ Blocked blocks c' ∧ c'.records = c.records ∧
      stream c' = stream c := by
  obtain ⟨record, rest, hsplit⟩ := List.exists_cons_of_ne_nil hrecords
  have hfront := h.usable.2.frontOffset record rest hsplit
  have hwrite : ∀ buffer, c.tcp.write opening.writer buffer = (.wouldBlock,
      { world := blocks, accepted := c.tcp.accepted ++ [], calls := c.tcp.calls + 1 }) := by
    intro buffer
    rw [Sink.write, h.world]
    rfl
  refine ⟨{ c with
    outbound := { c.outbound with stalledSince := some 0 }
    tcp := { world := blocks, accepted := c.tcp.accepted ++ [], calls := c.tcp.calls + 1 } },
    ?_, ⟨⟨h.usable.1, h.usable.2.stalled _⟩, rfl, ?_, rfl⟩, rfl, ?_⟩
  · rw [HpConnection.flush, Outbound.flush, flushAttempts, Outbound.flushLoop, hsplit]
    dsimp only
    rw [if_neg (by omega), hwrite]
    dsimp only
    rw [stall_opening _ h.since]
    rfl
  · dsimp only
    rw [h.accepted, List.append_nil]
  · show c.tcp.accepted ++ [] ++ c.outbound.remainder = _
    rw [List.append_nil, stream]

theorem Blocked.send {P : Primitives} {blocks : Nat} {c : HpConnection Nat}
    (h : Blocked (blocks + 1) c) {body : List UInt8} (hseals : Seals c body) (hroom : Room c body) :
    ∃ c', step P opening c (.send body) = some (.ok true, c') ∧ Blocked blocks c' ∧
      c'.records = sealing P c.records body ∧
      stream c' = stream c ++ wireRecord P c.records body := by
  obtain ⟨hsend, husable, hqueued⟩ := send_queued P opening h.usable hseals hroom
  have hpush := push_room (P := P) hroom
  have hblocked : Blocked (blocks + 1) (queued P c body) := by
    refine ⟨husable, h.world, h.accepted, ?_⟩
    rw [queued, hpush]
    exact h.since
  have hrecords : (queued P c body).outbound.records ≠ [] := by
    rw [queued, hpush]
    simp
  obtain ⟨c', hflush, hblocked', hsame, hstream⟩ := hblocked.flush hrecords
  refine ⟨c', ?_, hblocked', hsame, hstream.trans hqueued⟩
  rw [step, hsend, hflush]
  rfl

theorem Blocked.bytes {blocks : Nat} {c : HpConnection Nat} (h : Blocked blocks c) :
    c.outbound.bytes = (stream c).length := by
  rw [h.usable.2.bytes, stream, h.accepted, List.nil_append]

theorem recordSize_large {body : List UInt8} (hbody : body.length = 65498) :
    recordSize body.length = 65520 := by
  rw [hbody, recordSize]

theorem Careful.mono {P : Primitives} {socket : Socket σ} {lost lost' : Prop} {ops : List Op}
    {c : HpConnection σ} (h : Careful P socket lost c ops) (hlost : lost' → lost) :
    Careful P socket lost' c ops := by
  induction ops generalizing lost lost' c with
  | nil => trivial
  | cons op ops ih =>
      refine ⟨fun hlost' => h.1 (hlost hlost'), fun result c' hstep => ?_⟩
      exact ih (h.2 result c' hstep) (Or.imp_left hlost)

theorem Careful.cons {P : Primitives} {socket : Socket σ} {lost : Prop} {op : Op} {ops : List Op}
    {c c' : HpConnection σ} {result : Except SendError Bool}
    (hstep : step P socket c op = some (result, c')) (htakes : lost → ¬ Takes c op)
    (h : Careful P socket (lost ∨ Refuses c op) c' ops) : Careful P socket lost c (op :: ops) := by
  refine ⟨htakes, fun other last hother => ?_⟩
  rw [hstep] at hother
  cases hother
  exact h

/-- Large bodies while they find room. -/
theorem Blocked.fill {P : Primitives} {key : Key} {seq : UInt32} {iv : Block} {body : List UInt8}
    (hbody : body.length = 65498) (count : Nat) {blocks : Nat} {c : HpConnection Nat}
    {queue : List (List UInt8 × List UInt8)}
    (h : Blocked (blocks + count) c) (hholds : Holds P key seq iv False c queue)
    (hroom : (stream c).length + count * 65522 ≤ maxBacklog)
    (hseq : c.records.encSeq.toNat + count < 4294967295) :
    ∃ c' queue', run P opening c (List.replicate count (.send body)) =
        some (List.replicate count (.ok true), c') ∧ Blocked blocks c' ∧
      Holds P key seq iv False c' queue' ∧
      c'.records.encSeq.toNat = c.records.encSeq.toNat + count ∧
      (stream c').length = (stream c).length + count * 65522 ∧
      ∀ later, Careful P opening False c' later →
        Careful P opening False c (List.replicate count (.send body) ++ later) := by
  induction count generalizing c queue with
  | zero => exact ⟨c, queue, rfl, h, hholds, rfl, rfl, fun _ hlater => hlater⟩
  | succ count ih =>
      have hseals : Seals c body := by
        refine ⟨hbody.le, ?_⟩
        rw [UInt32.lt_iff_toNat_lt]
        show c.records.encSeq.toNat < 4294967295
        omega
      have hlarge : Room c body := by
        rw [Room, h.bytes, recordSize_large hbody]
        omega
      have hnext : Blocked (blocks + count + 1) c := h
      obtain ⟨c₁, hstep, hblocked, hrecords, hstream⟩ := hnext.send (P := P) hseals hlarge
      obtain ⟨result, c₂, hstep', husable, hstepped⟩ :=
        step_spec P opening h.usable (.send body)
      rw [hstep] at hstep'
      cases hstep'
      obtain ⟨queue₁, hholds₁, -⟩ := hholds.step husable hstepped nofun nofun
      have hkept : False ∨ Refuses c (.send body) → False := by
        rintro (hlost | hrefuses)
        · exact hlost
        · exact hrefuses.2 hlarge
      have hsealed : c₁.records.encSeq.toNat = c.records.encSeq.toNat + 1 := by
        rw [hrecords]
        exact toNat_succ hseals.2
      have hlength : (stream c₁).length = (stream c).length + 65522 := by
        rw [hstream, List.length_append, length_wireRecord, recordSize_large hbody]
      obtain ⟨c', queue', hrun, hblocked', hholds', hseq', hlength', hcareful⟩ :=
        ih hblocked (hholds₁.idle husable rfl rfl hkept) (by omega) (by omega)
      refine ⟨c', queue', ?_, hblocked', hholds', by omega, by omega, ?_⟩
      · rw [List.replicate_succ, run, hstep, Option.bind_some]
        dsimp only
        rw [hrun]
        rfl
      · intro later hlater
        exact .cons hstep False.elim ((hcareful later hlater).mono hkept)

theorem flushLoop_open (attempts : Nat) {budget : Nat} {q : Outbound} {s : Sink Nat}
    (h : q.Consistent) (hbudget : 0 < budget) (hworld : s.world = 0) :
    ∃ q' s', Outbound.flushLoop opening attempts budget q s = some (.ok (), q', s') ∧
      s'.world = 0 ∧ s.accepted.length ≤ s'.accepted.length ∧
      (0 < attempts → q.records ≠ [] → s.accepted.length < s'.accepted.length) := by
  induction attempts generalizing budget q s with
  | zero => exact ⟨q, s, rfl, hworld, Nat.le_refl _, nofun⟩
  | succ attempts ih =>
      unfold Outbound.flushLoop
      cases hrecords : q.records with
      | nil => exact ⟨q, s, rfl, hworld, Nat.le_refl _, fun _ hne => absurd rfl hne⟩
      | cons record rest =>
          have hfront := h.frontOffset record rest hrecords
          dsimp only
          rw [if_neg (by omega)]
          generalize hbuffer : (record.drop q.offset).take
            (min budget (record.length - q.offset)) = buffer
          have hlength : buffer.length = min budget (record.length - q.offset) := by
            rw [← hbuffer, List.length_take, List.length_drop]
            omega
          have hwrite : s.write opening.writer buffer = (.ok buffer.length,
              { world := 0, accepted := s.accepted ++ buffer.take buffer.length
                calls := s.calls + 1 }) := by
            rw [Sink.write, hworld]
            rfl
          rw [hwrite]
          dsimp only
          rw [if_neg (by omega)]
          obtain ⟨q₁, hadvance, hconsistent, -⟩ :=
            @Outbound.Consistent.advance q h record rest hrecords buffer.length (by omega)
          rw [hadvance, Option.bind_some, if_neg (by omega), List.take_length]
          have hmore : s.accepted.length < (s.accepted ++ buffer).length := by
            rw [List.length_append]
            omega
          by_cases hspent : budget - buffer.length = 0
          · rw [if_pos hspent]
            exact ⟨_, _, rfl, rfl, hmore.le, fun _ _ => hmore⟩
          · rw [if_neg hspent]
            obtain ⟨q', s', hloop, hworld', hle, -⟩ := @ih (budget - buffer.length) q₁
              { world := 0, accepted := s.accepted ++ buffer, calls := s.calls + 1 } hconsistent
              (by omega) rfl
            exact ⟨q', s', hloop, hworld', hmore.le.trans hle, fun _ _ => hmore.trans_le hle⟩

theorem flushes_open (P : Primitives) {c : HpConnection Nat} (h : Usable c)
    (hworld : c.tcp.world = 0) :
    ∃ count c', run P opening c (List.replicate count .flush) =
        some (List.replicate count (.ok false), c') ∧ c'.tcp.accepted = stream c := by
  induction hlength : c.outbound.remainder.length using Nat.strong_induction_on generalizing c with
  | _ n ih =>
    subst hlength
    by_cases hrecords : c.outbound.records = []
    · refine ⟨0, c, rfl, ?_⟩
      rw [stream, Outbound.remainder, hrecords, unwritten, List.flatten_nil, List.drop_nil,
        List.append_nil]
    obtain ⟨q, s, hloop, hworld', -, hgrows⟩ :=
      flushLoop_open flushAttempts h.2 (by decide : 0 < flushBudget) hworld
    obtain ⟨result, c₁, hflush, hsame, hconsistent, hstream, -⟩ := flush_spec opening h.2
    have hc₁ : c.flush opening = some (.ok (), { c with outbound := q, tcp := s }) := by
      rw [HpConnection.flush, Outbound.flush, hloop]
      rfl
    rw [hc₁] at hflush
    cases hflush
    have hmore := hgrows (by decide) hrecords
    have hshorter := congrArg List.length hstream
    rw [stream, stream, List.length_append, List.length_append] at hshorter
    dsimp only at hshorter
    obtain ⟨count, c', hrun, haccepted⟩ :=
      @ih q.remainder.length (by omega) { c with outbound := q, tcp := s } ⟨h.1, hconsistent⟩
        hworld' rfl
    refine ⟨count + 1, c', ?_, haccepted.trans hstream⟩
    rw [List.replicate_succ, run, step, hc₁]
    show Option.map _ (run P opening _ _) = _
    rw [hrun]
    rfl

theorem run_append {P : Primitives} {socket : Socket σ} {c c₁ c₂ : HpConnection σ}
    {ops later : List Op} {results others : List (Except SendError Bool)}
    (h : run P socket c ops = some (results, c₁))
    (hlater : run P socket c₁ later = some (others, c₂)) :
    run P socket c (ops ++ later) = some (results ++ others, c₂) := by
  induction ops generalizing c results with
  | nil =>
      cases h
      exact hlater
  | cons op ops ih =>
      rw [run] at h
      obtain ⟨⟨result, c'⟩, hstep, hrest⟩ := Option.bind_eq_some_iff.1 h
      obtain ⟨⟨rest, c''⟩, hrun, hpair⟩ := Option.map_eq_some_iff.1 hrest
      cases hpair
      rw [List.cons_append, run, hstep, Option.bind_some]
      dsimp only
      rw [ih hrun]
      rfl

/-- A record that does not open stops the loop. -/
theorem drainLoop_refused {P : Primitives} {layer : RecordLayer} {record : List UInt8} {len : Nat}
    (hlen : len ≤ 65498) (hrecord : record.length = recordSize len)
    (h : ∃ e, (layer.decrypt P record).1 = .error e) (more : List UInt8) :
    ∃ e, (drainLoop P layer (toBigEndian 2 (recordSize len) ++ (record ++ more))).1 = .error e := by
  have hbounds := recordSize_bounds hlen
  obtain ⟨e, he⟩ := h
  have hheader : (toBigEndian 2 (recordSize len) ++ (record ++ more)).take 2 =
      toBigEndian 2 (recordSize len) := by
    rw [List.take_append_of_le_length (by simp), List.take_of_length_le (by simp)]
  have hn : ofBigEndian ((toBigEndian 2 (recordSize len) ++ (record ++ more)).take 2) =
      recordSize len := by
    rw [hheader, ofBigEndian_toBigEndian (by omega)]
  have hpayload : ((toBigEndian 2 (recordSize len) ++ (record ++ more)).drop 2).take
      (recordSize len) = record := by
    rw [List.drop_append_of_le_length (by simp), List.drop_of_length_le (by simp),
      List.nil_append, ← hrecord, List.take_left]
  rw [drainLoop, dif_pos (by simp)]
  dsimp only
  rw [hn, if_neg (by omega), if_neg (by simp; omega), hpayload]
  split
  · rename_i hdecrypt
    exact ⟨_, rfl⟩
  · rename_i hdecrypt
    rw [hdecrypt] at he
    cases he

structure Filled (P : Primitives) (key : Key) (iv : Block) (c : HpConnection Nat)
    (queue : List (List UInt8 × List UInt8)) : Prop where
  blocked : Blocked 1 c
  holds : Holds P key 0 iv False c queue
  seq : c.records.encSeq = 8
  length : (stream c).length = 524176

theorem filled (P : Primitives) {body : List UInt8} (hbody : body.length = 65498) (key : Key)
    (iv : Block) :
    ∃ c queue, run P opening (.start (.new key iv) 9)
        (List.replicate 8 (.send body)) = some (List.replicate 8 (.ok true), c) ∧
      Filled P key iv c queue ∧
      ∀ later, Careful P opening False c later →
        Careful P opening False (.start (.new key iv) 9)
          (List.replicate 8 (.send body) ++ later) := by
  have hblocked : Blocked (1 + 8) (HpConnection.start (.new key iv) 9) :=
    ⟨⟨rfl, Outbound.consistent_empty⟩, rfl, rfl, rfl⟩
  have hholds : Holds P key 0 iv False (HpConnection.start (.new key iv) 9) [] :=
    ⟨hblocked.usable, rfl, rfl, 0, iv, ⟨rfl, rfl⟩, fun _ => ⟨rfl, rfl⟩⟩
  have hempty : (stream (HpConnection.start (.new key iv) 9)).length = 0 := rfl
  have hzero : (HpConnection.start (.new key iv) 9).records.encSeq.toNat = 0 := rfl
  obtain ⟨c, queue, hrun, hblocked', hholds', hseq, hlength, hcareful⟩ :=
    hblocked.fill hbody 8 hholds (by rw [hempty]; decide) (by rw [hzero]; decide)
  refine ⟨c, queue, hrun, ⟨hblocked', hholds', ?_, ?_⟩, hcareful⟩
  · exact UInt32.toNat.inj (hseq.trans (by rw [hzero]; rfl))
  · rw [hlength, hempty]

/-- A ninth large record is refused, and its number is spent. -/
theorem Filled.full {P : Primitives} {key : Key} {iv : Block} {c : HpConnection Nat}
    {queue : List (List UInt8 × List UInt8)} (h : Filled P key iv c queue) {body : List UInt8}
    (hbody : body.length = 65498) :
    ¬ Room c body ∧
      step P opening c (.send body) =
        some (.error (.outbound .backlogExceededLimit),
          { c with records := sealing P c.records body }) ∧
      Blocked (0 + 1) { c with records := sealing P c.records body } := by
  have hseals : Seals c body := ⟨hbody.le, by rw [h.seq]; decide⟩
  have hfull : ¬ Room c body := by
    rw [Room, h.blocked.bytes, h.length, recordSize_large hbody]
    decide
  refine ⟨hfull, ?_, h.blocked.usable, h.blocked.world, h.blocked.accepted, h.blocked.since⟩
  rw [step, send_full P opening h.blocked.usable hseals hfull]
  rfl

/-- What the socket takes in the end: the eight records and the tenth. -/
theorem Filled.gap {key : Key} {iv : Block} {c : HpConnection Nat}
    {queue : List (List UInt8 × List UInt8)} (h : Filled numbering key iv c queue)
    {body : List UInt8} (hbody : body.length = 65498) :
    ∃ count c', run numbering opening c
        ([.send body, .send []] ++ List.replicate count .flush) =
        some ([.error (.outbound .backlogExceededLimit), .ok true] ++
          List.replicate count (.ok false), c') ∧
      c'.tcp.accepted = (queue.map Prod.snd).flatten ++
        wireRecord numbering (sealing numbering c.records body) [] := by
  obtain ⟨-, hlost, hblocked⟩ := h.full hbody
  have hroom : Room { c with records := sealing numbering c.records body } [] := by
    rw [Room, h.blocked.bytes, h.length]
    decide
  have hempty : Seals { c with records := sealing numbering c.records body } [] := by
    refine ⟨by decide, ?_⟩
    show c.records.encSeq + 1 < 0xffffffff
    rw [h.seq]
    decide
  obtain ⟨c₂, hstep, hblocked₂, -, hstream⟩ := hblocked.send (P := numbering) hempty hroom
  obtain ⟨count, c', hrun, haccepted⟩ :=
    flushes_open numbering hblocked₂.usable hblocked₂.world
  refine ⟨count, c', run_append ?_ hrun, ?_⟩
  · rw [run, hlost]
    show Option.map _ (run numbering opening _ _) = _
    rw [run, hstep]
    rfl
  · rw [haccepted, hstream, ← h.holds.bytes]
    rfl

/-- The control stream is lost behind a record that the full queue refused. -/
theorem refused_send_breaks_stream :
    ¬ ∀ (P : Primitives) (socket : Socket Nat) (world : Nat) (key : Key) (iv : Block)
        (ops : List Op) (results : List (Except SendError Bool)) (c : HpConnection Nat),
      run P socket (.start (.new key iv) world) ops = some (results, c) →
      (∀ result ∈ results, Steady result) →
      ∃ stream peer', c.tcp.accepted <+: stream ∧
        drainLoop P (.new key iv) stream = (.ok (taken ops results, []), peer') := by
  intro hclaim
  obtain ⟨body, hbody⟩ : ∃ body : List UInt8, body.length = 65498 :=
    ⟨_, List.length_replicate (a := 0)⟩
  obtain ⟨c, queue, hrun, hfilled, -⟩ :=
    filled numbering hbody (Vector.replicate 16 0) (Vector.replicate 16 0)
  obtain ⟨count, c', hgap, haccepted⟩ := hfilled.gap hbody
  have hsteady : ∀ result ∈ List.replicate 8 (.ok true) ++
      ([.error (.outbound .backlogExceededLimit), .ok true] ++ List.replicate count (.ok false)),
      Steady result := by
    intro result hmem
    simp only [List.mem_append, List.mem_cons, List.not_mem_nil, or_false, List.mem_replicate]
      at hmem
    rcases hmem with ⟨-, rfl⟩ | (rfl | rfl) | ⟨-, rfl⟩
    · exact nofun
    · intro e he
      cases he
      rfl
    · exact nofun
    · exact nofun
  obtain ⟨stream', peer', ⟨more, rfl⟩, hdrain⟩ :=
    hclaim numbering opening 9 _ _ _ _ c' (run_append hrun hgap) hsteady
  obtain ⟨seq', iv', hexpects, hlayer⟩ := hfilled.holds.expects
  obtain ⟨rfl, rfl⟩ := hlayer id
  have hopen := decrypt_gap (r := { RecordLayer.new (Vector.replicate 16 0) (Vector.replicate 16 0)
    with decSeq := c.records.encSeq, decIv := c.records.encIv }) rfl hfilled.seq c.records.key
    (sealing numbering c.records body).encIv
  have htail := drainLoop_refused (Nat.zero_le _) (length_sealRecord _ _ _ _ []) hopen more
  have hbad := drainLoop_error rfl hexpects htail
  obtain ⟨e, he⟩ := hbad
  have hnine : (sealing numbering c.records body).encSeq = 9 := by
    show c.records.encSeq + 1 = 9
    rw [hfilled.seq]
    rfl
  rw [haccepted, wireRecord, hnine, List.append_assoc, List.append_assoc] at hdrain
  have hdecoded := congrArg Prod.fst hdrain
  rw [show (sealing numbering c.records body).key = c.records.key from rfl] at hdecoded
  rw [List.length_nil] at hdecoded
  rw [hdecoded] at he
  cases he

/-! ## Refused calls

The same socket and the same eight records, and behind them a send that is too long, a file
message that has to wait, a send that the full queue refuses, and flushes. -/

def refusals (body : List UInt8) (count : Nat) : List Op :=
  List.replicate 8 (.send body) ++
    ([.send (0 :: body), .trySendFileMessage [0x22], .send body] ++ List.replicate count .flush)

def refusalResults (count : Nat) : List (Except SendError Bool) :=
  List.replicate 8 (.ok true) ++
    ([.error (.record "control message too large"), .ok false,
      .error (.outbound .backlogExceededLimit)] ++ List.replicate count (.ok false))

theorem taken_refusals (body : List UInt8) (count : Nat) :
    taken (refusals body count) (refusalResults count) = List.replicate 8 body := by
  have hflushes : taken (List.replicate count .flush) (List.replicate count (.ok false)) = [] := by
    induction count with
    | zero => rfl
    | succ count ih => simpa [List.replicate_succ, taken] using ih
  simp [refusals, refusalResults, List.replicate_succ, taken, hflushes, Op.body]

theorem steady_refusals (count : Nat) : ∀ result ∈ refusalResults count, Steady result := by
  intro result hmem
  simp only [refusalResults, List.mem_append, List.mem_cons, List.not_mem_nil, or_false,
    List.mem_replicate] at hmem
  rcases hmem with ⟨-, rfl⟩ | (rfl | rfl | rfl) | ⟨-, rfl⟩
  · exact nofun
  · exact nofun
  · exact nofun
  · intro e he
    cases he
    rfl
  · exact nofun

theorem careful_flushes {P : Primitives} {socket : Socket σ} {lost : Prop} (count : Nat)
    (c : HpConnection σ) : Careful P socket lost c (List.replicate count .flush) := by
  induction count generalizing lost c with
  | zero => trivial
  | succ count ih => exact ⟨fun _ htakes => htakes, fun _ c' _ => ih c'⟩

theorem step_tooLarge (P : Primitives) (socket : Socket σ) {c : HpConnection σ} (h : Usable c)
    (hseq : c.records.encSeq < 0xffffffff) {body : List UInt8} (hbody : 65498 < body.length) :
    step P socket c (.send body) = some (.error (.record "control message too large"), c) := by
  have hencrypt : c.records.encrypt P body = (.error "control message too large", c.records) := by
    rw [RecordLayer.encrypt, if_neg (ne_true_of_eq_false h.1), if_neg (not_not.2 hseq),
      if_pos (not_le.2 hbody)]
  rw [step, HpConnection.send, hencrypt]
  rfl

theorem Filled.records {P : Primitives} {key : Key} {iv : Block} {c : HpConnection Nat}
    {queue : List (List UInt8 × List UInt8)} (h : Filled P key iv c queue) :
    c.outbound.records ≠ [] := by
  intro hnone
  have hstream : stream c = [] := by
    rw [stream, h.blocked.accepted, Outbound.remainder, hnone, unwritten, List.flatten_nil,
      List.drop_nil, List.append_nil]
  have hlength := h.length
  rw [hstream] at hlength
  exact absurd hlength (by decide)

/-- The calls that are refused leave the queue as it is, and none of them has to be avoided. -/
theorem Filled.refused {P : Primitives} {key : Key} {iv : Block} {c : HpConnection Nat}
    {queue : List (List UInt8 × List UInt8)} (h : Filled P key iv c queue) {body : List UInt8}
    (hbody : body.length = 65498) :
    run P opening c [.send (0 :: body), .trySendFileMessage [0x22], .send body] =
        some ([.error (.record "control message too large"), .ok false,
          .error (.outbound .backlogExceededLimit)],
          { c with records := sealing P c.records body }) ∧
      ∀ count, Careful P opening False c
        ([.send (0 :: body), .trySendFileMessage [0x22], .send body] ++
          List.replicate count .flush) := by
  have hseq : c.records.encSeq < 0xffffffff := by
    rw [h.seq]
    decide
  have hlarge : 65498 < (0 :: body).length := by
    rw [List.length_cons, hbody]
    decide
  have htooLarge := step_tooLarge P opening h.blocked.usable hseq hlarge
  have hwaits : step P opening c (.trySendFileMessage [0x22]) = some (.ok false, c) := by
    show c.trySendFileMessage P opening [0x22] = _
    rw [HpConnection.trySendFileMessage, if_neg (by decide),
      if_pos (by rw [h.blocked.bytes, h.length]; decide)]
  obtain ⟨hfull, hlost, -⟩ := h.full hbody
  constructor
  · rw [run, htooLarge, Option.bind_some]
    dsimp only
    rw [run, hwaits, Option.bind_some]
    dsimp only
    rw [run, hlost]
    rfl
  · intro count
    refine .cons htooLarge False.elim (.cons hwaits ?_ (.cons hlost ?_ (careful_flushes _ _)))
    · rintro (hnone | hrefuses)
      · exact hnone.elim
      · exact absurd hrefuses.1.1 (not_le.2 hlarge)
    · exact fun _ htakes => hfull htakes.2

/-- The flushes behind them empty the queue. -/
theorem Filled.refusals {P : Primitives} {key : Key} {iv : Block} {c : HpConnection Nat}
    {queue : List (List UInt8 × List UInt8)} (h : Filled P key iv c queue) {body : List UInt8}
    (hbody : body.length = 65498) :
    ∃ count c', run P opening c
        ([.send (0 :: body), .trySendFileMessage [0x22], .send body] ++
          List.replicate count .flush) =
        some ([.error (.record "control message too large"), .ok false,
          .error (.outbound .backlogExceededLimit)] ++ List.replicate count (.ok false), c') ∧
      c'.tcp.accepted = stream c ∧
      Careful P opening False c
        ([.send (0 :: body), .trySendFileMessage [0x22], .send body] ++
          List.replicate count .flush) := by
  obtain ⟨hrefused, hcareful⟩ := h.refused hbody
  obtain ⟨-, -, hblocked⟩ := h.full hbody
  obtain ⟨c₂, hflush, hblocked₂, -, hstream⟩ := hblocked.flush h.records
  obtain ⟨count, c', hrun, haccepted⟩ := flushes_open P hblocked₂.usable hblocked₂.world
  refine ⟨count + 1, c', run_append hrefused ?_, haccepted.trans hstream, hcareful _⟩
  have hfirst : step P opening { c with records := sealing P c.records body } .flush =
      some (.ok false, c₂) := by
    rw [step, hflush]
    rfl
  rw [List.replicate_succ, run, hfirst, Option.bind_some]
  dsimp only
  rw [hrun]
  rfl

/-- The peer decodes the eight bodies that were taken, and none of the refused ones. -/
theorem careful_sends_decode_opening :
    ∃ body count c, body.length = 65498 ∧
      run Channel.fixture opening (.start (.new Channel.fixtureKey Channel.fixtureIv) 9)
        (refusals body count) = some (refusalResults count, c) ∧
      c.tcp.accepted.length = 524176 ∧
      ∃ stream peer', c.tcp.accepted <+: stream ∧
        drainLoop Channel.fixture (.new Channel.fixtureKey Channel.fixtureIv) stream =
          (.ok (List.replicate 8 body, []), peer') := by
  obtain ⟨body, hbody⟩ : ∃ body : List UInt8, body.length = 65498 :=
    ⟨_, List.length_replicate (a := 0)⟩
  obtain ⟨c, queue, hrun, hfilled, hfront⟩ :=
    filled Channel.fixture hbody Channel.fixtureKey Channel.fixtureIv
  obtain ⟨count, c', hrefused, haccepted, hback⟩ := hfilled.refusals hbody
  have hall := run_append hrun hrefused
  obtain ⟨results, last, hlast, hdecodes⟩ :=
    careful_sends_decode Channel.fixture opening 9 (inStep_new _ _) _ (hfront _ hback)
  rw [hall] at hlast
  cases hlast
  obtain ⟨stream', peer', hprefix, hdrain⟩ := hdecodes (steady_refusals count)
  refine ⟨body, count, c', hbody, hall, ?_, stream', peer', hprefix, ?_⟩
  · rw [haccepted, hfilled.length]
  · rw [hdrain]
    exact congrArg (fun bodies => ((.ok (bodies, []) : Except _ _), peer'))
      (taken_refusals body count)

end MacVnc.Protocol.ControlSend

import MacVnc.Lib.Stateful
import MacVnc.Protocol.ControlSend
import MacVnc.Protocol.FileDecoder
import MacVnc.Protocol.FramebufferUpdate
import MacVnc.Protocol.Metadata
import MacVnc.Protocol.Recovery
/-!
# Polling the control channel

`HpConnection::poll_control` and `inspect_control` (`hp-protocol/src/lib.rs`): the
queue is flushed, what the socket has is read, every whole record is decrypted, file
messages are taken out, and the rest is inspected for layouts, answers and updates.
At the end a media offer may be due again.  The socket, the clock and the zlib decoder
are oracles; what would panic has no outcome.
-/

namespace MacVnc.Protocol.Polling

open MacVnc.Lib.PartialWriter
open MacVnc.Lib.Stateful
open MacVnc.Protocol.ControlIo (Socket readClock)
open MacVnc.Protocol.ControlSend (SendError Usable)
open MacVnc.Protocol.FileDecoder (FeedError Fed)
open MacVnc.Protocol.FileTransfer (Message)
open MacVnc.Protocol.FramebufferUpdate (Size completeUpdate displayLayout)
open MacVnc.Protocol.Metadata (MetadataError StreamConfig parseAnswer)
open MacVnc.Protocol.Record (Primitives RecordLayer drainLoop drainRecords)
open MacVnc.Protocol.Recovery

inductive PollError where
  | send (e : SendError)
  | closed
  | controlBacklog
  | io
  | record (message : String)
  | feed (e : FeedError)
  | fileBacklog
  | answer (e : MetadataError)
  | unsupportedLtr

def chunkSize : Nat := 8192

/-- What `read` does: the bytes fit into the buffer, and none are the end of the stream. -/
inductive Read where
  | data (chunk : List UInt8) (hfits : chunk.length ≤ chunkSize)
  | wouldBlock
  | interrupted
  | failed

/-- The control socket with its reading side. -/
structure Tcp (σ : Type) extends Socket σ where
  read : σ → Read × σ

/-- The connection without its keys and its media sockets. -/
structure HpConnection (σ : Type) where
  link : ControlSend.HpConnection σ
  pending : List UInt8
  fileDecoder : FileDecoder.Decoder
  fileMessages : List Message
  width : UInt16
  height : UInt16
  streamConfig : Option StreamConfig
  updateOutstanding : Bool
  mediaOffer : List UInt8
  recovery : LayoutRecovery
  layoutEvents : UInt64
  mediaReoffers : UInt64

def saturatingSucc (n : UInt64) : UInt64 := if n = 0xffffffffffffffff then n else n + 1

def framebufferRequest (incremental : Bool) : List UInt8 :=
  [3, if incremental then 1 else 0, 0, 0, 0, 0, 255, 255, 255, 255]

def maxPending : Nat := 4 * 1024 * 1024

def maxFileMessages : Nat := 256

variable {σ : Type}

abbrev Poll (σ α : Type) : Type := Computation PollError (HpConnection σ) α

def onLink {α : Type}
    (f : ControlSend.HpConnection σ → Option (Except SendError α × ControlSend.HpConnection σ)) :
    Poll σ α :=
  onPart HpConnection.link (fun c link => { c with link }) .send f

section Connection

variable (P : Primitives) (tcp : Tcp σ) (zlib : Metadata.Decoder)

def flush : Poll σ Unit := onLink (ControlSend.HpConnection.flush tcp.toSocket)

def send (body : List UInt8) : Poll σ Unit :=
  onLink fun link => link.send P tcp.toSocket body

def sendMediaOffer : Poll σ Unit := do
  let c ← get
  send P tcp c.mediaOffer

/-- `self.tcp.read(&mut chunk)`. -/
def readOnce : Poll σ Read :=
  ofOutcome fun c =>
    let (result, world) := tcp.read c.link.tcp.world
    some (.ok result, { c with link := { c.link with tcp := { c.link.tcp with world } } })

def now : Poll σ Instant :=
  ofOutcome fun c =>
    let (time, sink) := readClock tcp.toSocket c.link.tcp
    some (.ok time, { c with link := { c.link with tcp := sink } })

def readLoop : Nat → Poll σ Unit
  | 0 => pure ()
  | attempts + 1 => do
      match ← readOnce tcp with
      | .data [] _ => throw .closed
      | .data chunk _ =>
          modify fun c => { c with pending := c.pending ++ chunk }
          ensure (fun c => c.pending.length ≤ maxPending) .controlBacklog
          readLoop attempts
      | .wouldBlock => pure ()
      | .interrupted => readLoop attempts
      | .failed => throw .io

/-- `record::drain_records` on the fields of the connection. -/
def drain : Poll σ (List (List UInt8)) :=
  onPart (fun c => (c.link.records, c.pending))
    (fun c (records, pending) => { c with link := { c.link with records }, pending }) .record
    fun (records, pending) => some (drainRecords P records pending)

/-- `self.file_decoder.feed(&body)`. -/
def feed (body : List UInt8) : Poll σ Fed :=
  onPart HpConnection.fileDecoder (fun c fileDecoder => { c with fileDecoder }) .feed
    fun fileDecoder => some (fileDecoder.feed body)

/-! ## inspect_control -/

/-- `if let Some(dimensions) = layout`. -/
def noteLayout : Option Size → Poll σ Unit
  | none => pure ()
  | some size => modify fun c =>
      { c with
        layoutEvents := saturatingSucc c.layoutEvents
        recovery := c.recovery.observe (size.1.toUInt16, size.2.toUInt16) }

/-- `if let Some(config) = metadata::parse_answer(body)?`. -/
def noteAnswer : Except MetadataError (Option StreamConfig) → Poll σ Unit
  | .error e => throw (.answer e)
  | .ok none => pure ()
  | .ok (some config) => do
      ensure (fun _ => ¬ config.ltrEnabled) .unsupportedLtr
      modify fun c =>
        { c with
          recovery := if c.streamConfig.isNone then
            { c.recovery with current := some (config.width, config.height) } else c.recovery
          width := config.width
          height := config.height
          streamConfig := some config }

/-- The next update is requested once an outstanding one is complete. -/
def requestUpdate (complete : Bool) (layout : Option Size) : Poll σ Unit := do
  let c ← get
  if complete && c.updateOutstanding then
    modify fun c => { c with updateOutstanding := false }
    send P tcp (framebufferRequest layout.isNone)
    modify fun c => { c with updateOutstanding := true }

def inspectControl (body : List UInt8) : Poll σ Unit := do
  let layout ← checked (displayLayout body)
  noteLayout layout
  noteAnswer (parseAnswer zlib body)
  let complete ← checked (completeUpdate body)
  requestUpdate P tcp complete layout

/-! ## poll_control -/

def receiveAll : List (List UInt8) → Poll σ (List (List UInt8))
  | [] => pure []
  | body :: bodies => do
      let fed ← feed body
      ensure (fun c => c.fileMessages.length + fed.messages.length ≤ maxFileMessages) .fileBacklog
      modify fun c => { c with fileMessages := c.fileMessages ++ fed.messages }
      match fed.other with
      | none => receiveAll bodies
      | some other => do
          inspectControl P tcp zlib other
          let result ← receiveAll bodies
          pure (other :: result)

def takeDue (time : Instant) : Poll σ Bool :=
  modifyGet fun c =>
    let (due, recovery) := c.recovery.takeDue time
    (due, { c with recovery })

def pollControl : Poll σ (List (List UInt8)) := do
  flush tcp
  readLoop tcp 8
  let bodies ← drain P
  let result ← receiveAll P tcp zlib bodies
  let time ← now tcp
  if ← takeDue time then
    sendMediaOffer P tcp
    modify fun c => { c with mediaReoffers := saturatingSucc c.mediaReoffers }
  pure result

/-! ## Sessions -/

/-- What is done with a connection: it is polled, its messages are taken, or something is sent
whether or not that fails. -/
inductive Op where
  | pollControl
  | takeFileMessages
  | send (op : ControlSend.Op)
  | sendMediaOffer

def step : Op → Poll σ PUnit
  | .pollControl => do
      let _ ← pollControl P tcp zlib
  | .takeFileMessages => modify fun c => { c with fileMessages := [] }
  | .send op =>
      onPart HpConnection.link (fun c link => { c with link }) .send fun link =>
        (ControlSend.step P tcp.toSocket link op).map fun (_, link) => (.ok ⟨⟩, link)
  | .sendMediaOffer => sendMediaOffer P tcp

/-- A session from the first record behind the offer on. -/
def session (first : List UInt8) (ops : List Op) : Poll σ PUnit := do
  inspectControl P tcp zlib first
  forM ops (step P tcp zlib)

end Connection

def HpConnection.start (link : ControlSend.HpConnection σ) (width height : UInt16)
    (mediaOffer : List UInt8) : HpConnection σ :=
  { link
    pending := []
    fileDecoder := .new
    fileMessages := []
    width
    height
    streamConfig := none
    updateOutstanding := true
    mediaOffer
    recovery := .default
    layoutEvents := 0
    mediaReoffers := 0 }

/-! ## What the recovery has gone through -/

theorem saturatingSucc_le (n : UInt64) : (saturatingSucc n).toNat ≤ n.toNat + 1 := by
  unfold saturatingSucc
  split
  · omega
  · rw [UInt64.toNat_add]
    exact Nat.mod_le _ _

/-- The recovery of a connection whose clock has not been before `began`: the default until a
stream is negotiated, then a run with a true `take_due` for each re-offer counted. -/
inductive Tracked (began : Instant) : Option StreamConfig → LayoutRecovery → UInt64 → Prop
  | startup : Tracked began none .default 0
  | negotiated {config : StreamConfig} {count : UInt64} (d : Dimensions) (calls : List Call)
      (hcount : count.toNat ≤ ((LayoutRecovery.negotiated d).reoffers calls).length)
      (htimes : ∀ t, Call.takeDue t ∈ calls → began ≤ t) :
      Tracked began (some config) ((LayoutRecovery.negotiated d).run calls) count

namespace Tracked

variable {began : Instant} {config : Option StreamConfig} {s : LayoutRecovery} {count : UInt64}

theorem observe (h : Tracked began config s count) (dimensions : Dimensions) :
    Tracked began config (s.observe dimensions) count := by
  cases h with
  | startup => exact .startup
  | negotiated d calls hcount htimes =>
      have hrun : ((LayoutRecovery.negotiated d).run calls).observe dimensions =
          (LayoutRecovery.negotiated d).run (calls ++ [.observe dimensions]) := by
        rw [LayoutRecovery.run_append]
        rfl
      rw [hrun]
      refine .negotiated d _ ?_ fun t ht => ?_
      · rw [LayoutRecovery.reoffers_append, List.length_append]
        exact Nat.le_add_right_of_le hcount
      · rw [List.mem_append, List.mem_singleton] at ht
        rcases ht with ht | ht
        · exact htimes t ht
        · cases ht

/-- `current` is set with the first stream only. -/
theorem answer (h : Tracked began config s count) (next : StreamConfig) :
    Tracked began (some next)
      (if config.isNone then { s with current := some (next.width, next.height) } else s)
      count := by
  cases h with
  | startup => exact .negotiated (next.width, next.height) [] (Nat.zero_le _) nofun
  | negotiated d calls hcount htimes => exact .negotiated d calls hcount htimes

theorem takeDue (h : Tracked began config s count) {t : Instant} (ht : began ≤ t) :
    Tracked began config (s.takeDue t).2 count ∧
      ((s.takeDue t).1 = true → Tracked began config (s.takeDue t).2 (saturatingSucc count)) := by
  cases h with
  | startup => exact ⟨.startup, nofun⟩
  | negotiated d calls hcount htimes =>
      have hrun : (((LayoutRecovery.negotiated d).run calls).takeDue t).2 =
          (LayoutRecovery.negotiated d).run (calls ++ [.takeDue t]) := by
        rw [LayoutRecovery.run_append]
        rfl
      have htimes' : ∀ u, Call.takeDue u ∈ calls ++ [.takeDue t] → began ≤ u := by
        intro u hu
        rw [List.mem_append, List.mem_singleton] at hu
        rcases hu with hu | hu
        · exact htimes u hu
        · cases hu
          exact ht
      rw [hrun]
      constructor
      · refine .negotiated d _ ?_ htimes'
        rw [LayoutRecovery.reoffers_append, List.length_append]
        exact Nat.le_add_right_of_le hcount
      · intro hdue
        refine .negotiated d _ ?_ htimes'
        rw [LayoutRecovery.reoffers_append, List.length_append, LayoutRecovery.reoffers,
          if_pos hdue]
        exact Nat.le_trans (saturatingSucc_le count) (Nat.add_le_add_right hcount 1)

/-- The re-offers counted took two seconds each, but for the first. -/
theorem rate (h : Tracked began config s count) : count = 0 ∨
    ∃ last, s.lastSent = some last ∧ began + count.toNat * twoSeconds ≤ last + twoSeconds := by
  cases h with
  | startup => exact Or.inl rfl
  | negotiated d calls hcount htimes =>
      cases hlast : ((LayoutRecovery.negotiated d).run calls).lastSent with
      | none =>
          rw [reoffers_of_unsent d hlast] at hcount
          exact Or.inl (UInt64.toNat_inj.1 (Nat.le_zero.1 hcount))
      | some last =>
          refine Or.inr ⟨last, rfl, ?_⟩
          have hmany := Nat.mul_le_mul_right twoSeconds hcount
          exact (Nat.add_le_add_left hmany began).trans (reoffers_rate d htimes hlast)

end Tracked

/-! ## The records -/

theorem decrypt_working {P : Primitives} {r r' : RecordLayer} {record body : List UInt8}
    (h : r.decrypt P record = (.ok body, r')) : r'.failed = false := by
  unfold RecordLayer.decrypt at h
  split at h
  · cases h
  split at h
  · cases h
  split at h
  · cases h
  dsimp only at h
  split at h
  · cases h
  split at h
  · cases h
  split at h
  · cases h
  · cases h
    rfl

theorem drainLoop_working {P : Primitives} {r r' : RecordLayer} {rest : List UInt8}
    {drained : List (List UInt8) × List UInt8} (hworking : r.failed = false)
    (h : drainLoop P r rest = (.ok drained, r')) : r'.failed = false := by
  fun_induction drainLoop P r rest generalizing drained r' with
  | case1 => cases h
  | case2 =>
      cases h
      exact hworking
  | case3 => cases h
  | case4 => cases h
  | case5 _ _ _ _ _ _ _ _ hdecrypt _ _ _ hrest =>
      rename_i ih
      cases h
      exact ih (decrypt_working hdecrypt) hrest
  | case6 =>
      cases h
      exact hworking

theorem drainRecords_working {P : Primitives} {r r' : RecordLayer} {pending left : List UInt8}
    {bodies : List (List UInt8)} (hworking : r.failed = false)
    (h : drainRecords P r pending = (.ok bodies, r', left)) : r'.failed = false := by
  unfold drainRecords at h
  split at h
  · cases h
  · rename_i out rest records hloop
    cases h
    exact drainLoop_working hworking hloop

/-! ## What every call keeps -/

/-- The recovery is tracked, whatever the calls came to. -/
def Paced (began : Instant) (c : HpConnection σ) : Prop :=
  Tracked began c.streamConfig c.recovery c.mediaReoffers

/-- A connection that can go on, with an update requested or not. -/
structure Ready (began : Instant) (outstanding : Bool) (c : HpConnection σ) : Prop where
  usable : Usable c.link
  update : c.updateOutstanding = outstanding
  backlog : c.fileMessages.length ≤ maxFileMessages
  geometry : ∀ config, c.streamConfig = some config →
    c.width = config.width ∧ c.height = config.height ∧ config.ltrEnabled = false
  paced : Paced began c

/-- A computation that ends, with the connection ready again or after an error. -/
abbrev Keeps {α : Type} (began : Instant) (outstanding : Bool) (m : Poll σ α) : Prop :=
  Triple (Ready began outstanding) m (fun _ => Ready began outstanding) (Paced began)

section Keeps

variable {P : Primitives} {tcp : Tcp σ} {zlib : Metadata.Decoder} {began : Instant}
  {outstanding : Bool} {c : HpConnection σ}

theorem keeps_pure {α : Type} (a : α) : Keeps began outstanding (pure a : Poll σ α) :=
  fun c h => ⟨(.ok a, c), rfl, h⟩

theorem keeps_checked {α : Type} {x : Option α} {a : α} (hx : x = some a) :
    Keeps began outstanding (checked x : Poll σ α) := Triple.checked hx fun _ h => h

/-- Conditions that say of the sending side only that it is usable. -/
structure Linked (began : Instant) (I : HpConnection σ → Prop) : Prop where
  usable : ∀ c, I c → Usable c.link
  paced : ∀ c, I c → Paced began c
  link : ∀ c link, I c → Usable link → I { c with link }

theorem linked_ready : Linked began (Ready (σ := σ) began outstanding) where
  usable _ h := h.usable
  paced _ h := h.paced
  link _ _ h husable := ⟨husable, h.update, h.backlog, h.geometry, h.paced⟩

section Linked

variable {I : HpConnection σ → Prop} (hlinked : Linked began I)

include hlinked

theorem Linked.onLink {α : Type}
    {f : ControlSend.HpConnection σ → Option (Except SendError α × ControlSend.HpConnection σ)}
    (hf : ∀ link, Usable link → ∃ result link', f link = some (result, link') ∧ Usable link') :
    Triple I (onLink f) (fun _ => I) (Paced began) := by
  apply Triple.onPart
  intro c h
  obtain ⟨result, link, hresult, husable⟩ := hf c.link (hlinked.usable c h)
  have hkept := hlinked.link c link h husable
  refine ⟨result, link, hresult, ?_⟩
  cases result with
  | ok => exact hkept
  | error e => exact hlinked.paced _ hkept

theorem Linked.flush : Triple I (flush tcp) (fun _ => I) (Paced began) := by
  apply hlinked.onLink
  intro link h
  obtain ⟨result, link', hflush, hrecords, hconsistent, -, -⟩ :=
    ControlSend.flush_spec tcp.toSocket h.2
  refine ⟨result, link', hflush, ?_, hconsistent⟩
  rw [hrecords]
  exact h.1

theorem Linked.send (body : List UInt8) :
    Triple I (send P tcp body) (fun _ => I) (Paced began) := by
  apply hlinked.onLink
  intro link h
  obtain ⟨result, link', hsend, husable, -⟩ := ControlSend.send_spec P tcp.toSocket h body
  exact ⟨result, link', hsend, husable⟩

theorem Linked.sendMediaOffer : Triple I (sendMediaOffer P tcp) (fun _ => I) (Paced began) := by
  unfold Polling.sendMediaOffer
  apply Triple.bind Triple.get
  intro c
  exact (hlinked.send c.mediaOffer).pre fun _ h => h.1

end Linked

/-- Reading changes nothing but the socket. -/
theorem keeps_readOnce : Keeps began outstanding (readOnce tcp) := by
  apply Triple.ofOutcome
  intro c h
  exact ⟨_, rfl, linked_ready.link _ _ h h.usable⟩

theorem keeps_readLoop (attempts : Nat) : Keeps began outstanding (readLoop tcp attempts) := by
  induction attempts with
  | zero => exact keeps_pure _
  | succ attempts ih =>
      unfold readLoop
      apply Triple.bind keeps_readOnce
      intro result
      cases result with
      | data chunk hfits =>
          cases chunk with
          | nil => exact (Triple.throw _).pre fun _ h => h.paced
          | cons b chunk =>
              refine Triple.bind ((Triple.modify _).pre ?_) fun _ =>
                (Triple.ensure _ fun _ h => h.paced).bind fun _ => ih.pre fun _ h => h.1
              exact fun c h => ⟨h.usable, h.update, h.backlog, h.geometry, h.paced⟩
      | wouldBlock => exact keeps_pure _
      | interrupted => exact ih
      | failed => exact (Triple.throw _).pre fun _ h => h.paced

theorem keeps_drain : Keeps began outstanding (drain P : Poll σ (List (List UInt8))) := by
  apply Triple.onPart
  intro c h
  rcases hdrain : drainRecords P c.link.records c.pending with ⟨result, records, pending⟩
  refine ⟨result, (records, pending), congrArg some hdrain, ?_⟩
  cases result with
  | ok bodies =>
      have hworking := drainRecords_working h.usable.1 hdrain
      exact ⟨⟨hworking, h.usable.2⟩, h.update, h.backlog, h.geometry, h.paced⟩
  | error e => exact h.paced

theorem keeps_feed (body : List UInt8) : Keeps began outstanding (feed body : Poll σ Fed) := by
  apply Triple.onPart
  intro c h
  obtain ⟨result, fileDecoder⟩ := c.fileDecoder.feed body
  refine ⟨result, fileDecoder, rfl, ?_⟩
  cases result with
  | ok fed => exact ⟨h.usable, h.update, h.backlog, h.geometry, h.paced⟩
  | error e => exact h.paced

theorem keeps_noteLayout (layout : Option Size) :
    Keeps began outstanding (noteLayout layout : Poll σ Unit) := by
  cases layout with
  | none => exact keeps_pure _
  | some size =>
      refine (Triple.modify _).pre fun c h => ?_
      exact ⟨h.usable, h.update, h.backlog, h.geometry, h.paced.observe _⟩

theorem keeps_noteAnswer (answer : Except MetadataError (Option StreamConfig)) :
    Keeps began outstanding (noteAnswer answer : Poll σ Unit) := by
  cases answer with
  | error e => exact (Triple.throw _).pre fun _ h => h.paced
  | ok config =>
      cases config with
      | none => exact keeps_pure _
      | some config =>
          apply Triple.bind (Triple.ensure _ fun _ h => h.paced)
          intro _
          refine (Triple.modify _).pre ?_
          rintro c ⟨h, hltr⟩
          refine ⟨h.usable, h.update, h.backlog, ?_, h.paced.answer config⟩
          intro _ hconfig
          cases hconfig
          exact ⟨rfl, rfl, eq_false_of_ne_true hltr⟩

theorem keeps_requestUpdate (complete : Bool) (layout : Option Size) :
    Keeps began true (requestUpdate P tcp complete layout) := by
  unfold requestUpdate
  apply Triple.bind Triple.get
  intro c
  split
  · have hbegin : Triple (fun c' : HpConnection σ => Ready began true c' ∧ c = c')
        (modify fun c : HpConnection σ => { c with updateOutstanding := false } : Poll σ Unit)
        (fun _ => Ready began false) (Paced began) :=
      (Triple.modify _).pre fun _ h =>
        ⟨h.1.usable, rfl, h.1.backlog, h.1.geometry, h.1.paced⟩
    refine hbegin.bind fun _ => (linked_ready.send _).bind fun _ => (Triple.modify _).pre ?_
    exact fun _ h => ⟨h.usable, rfl, h.backlog, h.geometry, h.paced⟩
  · exact (keeps_pure _).pre fun _ h => h.1

theorem scan_total (body : List UInt8) :
    ∃ complete layout, completeUpdate body = some complete ∧ displayLayout body = some layout := by
  obtain ⟨complete, layout, hscan, -⟩ := FramebufferUpdate.scanUpdate_sound body
  refine ⟨complete, if complete then layout else none, ?_, ?_⟩
  · rw [completeUpdate, hscan]
    rfl
  · rw [displayLayout, hscan]
    rfl

theorem keeps_inspectControl (body : List UInt8) :
    Keeps began true (inspectControl P tcp zlib body) := by
  obtain ⟨complete, layout, hcomplete, hlayout⟩ := scan_total body
  unfold inspectControl
  apply Triple.bind (keeps_checked hlayout)
  intro layout
  apply Triple.bind (keeps_noteLayout layout)
  intro _
  apply Triple.bind (keeps_noteAnswer _)
  intro _
  apply Triple.bind (keeps_checked hcomplete)
  intro complete
  exact keeps_requestUpdate complete layout

theorem keeps_receiveAll (bodies : List (List UInt8)) :
    Keeps began true (receiveAll P tcp zlib bodies) := by
  induction bodies with
  | nil => exact keeps_pure _
  | cons body bodies ih =>
      unfold receiveAll
      apply Triple.bind (keeps_feed body)
      intro fed
      apply Triple.bind (Triple.ensure _ fun _ h => h.paced)
      intro _
      have hextend : Triple (fun c : HpConnection σ => Ready began true c ∧
            c.fileMessages.length + fed.messages.length ≤ maxFileMessages)
          (modify fun c : HpConnection σ =>
            { c with fileMessages := c.fileMessages ++ fed.messages } : Poll σ Unit)
          (fun _ => Ready began true) (Paced began) := by
        refine (Triple.modify _).pre ?_
        rintro c ⟨h, hroom⟩
        refine ⟨h.usable, h.update, ?_, h.geometry, h.paced⟩
        rw [List.length_append]
        exact hroom
      apply Triple.bind hextend
      intro _
      cases fed.other with
      | none => exact ih
      | some other =>
          apply Triple.bind (keeps_inspectControl other)
          intro _
          apply Triple.bind ih
          intro result
          exact keeps_pure _

/-- The re-offer that a true `take_due` announces can still be counted. -/
def Owed (began : Instant) (due : Bool) (c : HpConnection σ) : Prop :=
  due = true → Tracked began c.streamConfig c.recovery (saturatingSucc c.mediaReoffers)

theorem linked_owed (due : Bool) :
    Linked began fun c : HpConnection σ => Ready began outstanding c ∧ Owed began due c where
  usable _ h := h.1.usable
  paced _ h := h.1.paced
  link c link h husable := ⟨linked_ready.link c link h.1 husable, h.2⟩

theorem keeps_pollControl (hclock : ∀ world, began ≤ (tcp.now world).1) :
    Keeps began true (pollControl P tcp zlib) := by
  have hnow : Triple (Ready began true) (now tcp)
      (fun t c => Ready began true c ∧ began ≤ t) (Paced began) := by
    apply Triple.ofOutcome
    intro c h
    exact ⟨_, rfl, linked_ready.link _ _ h h.usable, hclock _⟩
  have hdue : ∀ t, Triple (fun c : HpConnection σ => Ready began true c ∧ began ≤ t)
      (takeDue t) (fun due c => Ready began true c ∧ Owed began due c) (Paced began) := by
    rintro t c ⟨h, ht⟩
    obtain ⟨htracked, howed⟩ := Tracked.takeDue h.paced ht
    exact ⟨_, rfl, ⟨h.usable, h.update, h.backlog, h.geometry, htracked⟩, howed⟩
  unfold pollControl
  apply Triple.bind linked_ready.flush
  intro _
  apply Triple.bind (keeps_readLoop 8)
  intro _
  apply Triple.bind keeps_drain
  intro bodies
  apply Triple.bind (keeps_receiveAll bodies)
  intro result
  apply Triple.bind hnow
  intro t
  apply Triple.bind (hdue t)
  intro due
  split
  · rename_i htrue
    apply Triple.bind (linked_owed due).sendMediaOffer
    intro _
    have hcount : Triple (fun c : HpConnection σ => Ready began true c ∧ Owed began due c)
        (modify fun c : HpConnection σ =>
          { c with mediaReoffers := saturatingSucc c.mediaReoffers } : Poll σ Unit)
        (fun _ => Ready began true) (Paced began) := by
      refine (Triple.modify _).pre ?_
      rintro c ⟨h, howed⟩
      exact ⟨h.usable, h.update, h.backlog, h.geometry, howed htrue⟩
    exact hcount.bind fun _ => keeps_pure result
  · exact (keeps_pure result).pre fun _ h => h.1

theorem keeps_step (hclock : ∀ world, began ≤ (tcp.now world).1) (op : Op) :
    Keeps began true (step P tcp zlib op) := by
  cases op with
  | pollControl => exact (keeps_pollControl hclock).bind fun _ => keeps_pure _
  | takeFileMessages =>
      refine (Triple.modify _).pre fun c h => ?_
      exact ⟨h.usable, h.update, Nat.zero_le _, h.geometry, h.paced⟩
  | send op =>
      apply linked_ready.onLink
      intro link h
      obtain ⟨result, link', hstep, husable, -⟩ := ControlSend.step_spec P tcp.toSocket h op
      exact ⟨.ok ⟨⟩, link', by rw [hstep]; rfl, husable⟩
  | sendMediaOffer => exact linked_ready.sendMediaOffer

theorem keeps_session (hclock : ∀ world, began ≤ (tcp.now world).1) (first : List UInt8)
    (ops : List Op) : Keeps began true (session P tcp zlib first ops) := by
  apply Triple.bind (keeps_inspectControl first)
  intro _
  exact Triple.forM fun op _ => keeps_step hclock op

end Keeps

theorem ready_start (began : Instant) {link : ControlSend.HpConnection σ} (h : Usable link)
    (width height : UInt16) (mediaOffer : List UInt8) :
    Ready began true (.start link width height mediaOffer) :=
  ⟨h, rfl, Nat.zero_le _, nofun, .startup⟩

/-- No session panics, whatever its peer sends.  In every state it comes to, the media offers
repeated since its clock began took two seconds each, but for the first; while no poll has
failed, an update is requested, the file messages are within their limit, and the geometry is
the one of the last answer, without long-term references. -/
theorem session_paced (P : Primitives) (tcp : Tcp σ) (zlib : Metadata.Decoder) {began : Instant}
    (hclock : ∀ world, began ≤ (tcp.now world).1) {link : ControlSend.HpConnection σ}
    (hlink : Usable link) (width height : UInt16) (mediaOffer first : List UInt8) (ops : List Op) :
    ∃ result c, outcome (session P tcp zlib first ops) (.start link width height mediaOffer) =
        some (result, c) ∧
      (c.mediaReoffers = 0 ∨ ∃ last, c.recovery.lastSent = some last ∧
        began + c.mediaReoffers.toNat * twoSeconds ≤ last + twoSeconds) ∧
      (result = .ok ⟨⟩ → c.updateOutstanding = true ∧ c.fileMessages.length ≤ maxFileMessages ∧
        ∀ config, c.streamConfig = some config →
          c.width = config.width ∧ c.height = config.height ∧ config.ltrEnabled = false) := by
  obtain ⟨⟨result, c⟩, houtcome, hends⟩ :=
    keeps_session hclock first ops _ (ready_start began hlink width height mediaOffer)
  refine ⟨result, c, houtcome, ?_⟩
  cases result with
  | ok =>
      have hready : Ready began true c := hends
      exact ⟨hready.paced.rate, fun _ => ⟨hready.update, hready.backlog, hready.geometry⟩⟩
  | error e =>
      have hpaced : Paced began c := hends
      exact ⟨hpaced.rate, nofun⟩

end MacVnc.Protocol.Polling

import MacVnc.Lib.Segments
import MacVnc.Protocol.Record
import Mathlib.Logic.Equiv.Basic
import Mathlib.Algebra.Group.End
/-!
# Two record layers over a byte stream

Both ends of a control connection, each with its record layer and its unread
bytes, joined by two ordered byte streams.  Records are sent on either side and
bytes are delivered to either side in segments of any size, in any order of
steps.  The result is that each side has returned exactly the bodies whose last
wire byte has arrived.
-/

namespace MacVnc.Protocol.Channel

open MacVnc.Lib.Bytes
open MacVnc.Lib.Cbc
open MacVnc.Lib.Segments
open MacVnc.Protocol.Record

inductive Side where
  | viewer
  | mac
deriving DecidableEq

def Side.peer : Side → Side
  | .viewer => .mac
  | .mac => .viewer

@[simp] theorem Side.peer_peer (side : Side) : side.peer.peer = side := by
  cases side <;> rfl

theorem Side.peer_ne (side : Side) : side.peer ≠ side := by
  cases side <;> simp [Side.peer]

/-- One end of the connection.  `sent` pairs every body with its wire record,
`arrived` is every byte ever appended to `pending`, and `returned` every body
that `drain_records` has returned. -/
structure Station where
  layer : RecordLayer
  pending : List UInt8
  sent : List (List UInt8 × List UInt8)
  arrived : List UInt8
  returned : List (List UInt8)

abbrev Ends := Side → Station

def start (key : Key) (iv : Block) : Ends := fun _ =>
  { layer := RecordLayer.new key iv, pending := [], sent := [], arrived := [],
    returned := [] }

def Station.records (s : Station) : List (List UInt8) := s.sent.map Prod.snd

/-- Bytes written by the peer that have not been delivered yet. -/
def inFlight (c : Ends) (side : Side) : List UInt8 :=
  (c side.peer).records.flatten.drop (c side).arrived.length

/-- `send` encrypts one body; `read` appends at most `count` bytes in flight to
`pending` and drains it once. -/
inductive Op where
  | send (side : Side) (body : List UInt8)
  | read (side : Side) (count : Nat)

def step (P : Primitives) (c : Ends) : Op → Option Ends
  | .send side body =>
      match (c side).layer.encrypt P body with
      | (.error _, _) => none
      | (.ok record, layer) =>
          some (Function.update c side
            { c side with layer, sent := (c side).sent ++ [(body, record)] })
  | .read side count =>
      let chunk := (inFlight c side).take count
      match drainRecords P (c side).layer ((c side).pending ++ chunk) with
      | (.error _, _, _) => none
      | (.ok bodies, layer, pending) =>
          some (Function.update c side
            { c side with
              layer, pending
              arrived := (c side).arrived ++ chunk
              returned := (c side).returned ++ bodies })

def run (P : Primitives) (c : Ends) : List Op → Option Ends
  | [] => some c
  | op :: ops => (step P c op).bind fun c => run P c ops

def bodiesSent (side : Side) (ops : List Op) : List (List UInt8) :=
  ops.filterMap fun
    | .send s body => if s = side then some body else none
    | .read _ _ => none

/-- What a call adds to the bytes that were written to a side, and to those that it has read. -/
def carry (side : Side) (t : Nat × Nat) : Op → Nat × Nat
  | .send s body => if s = side.peer then (t.1 + (2 + recordSize body.length), t.2) else t
  | .read s count => if s = side then (t.1, min t.1 (t.2 + count)) else t

/-- The bytes that the calls write to a side and deliver there. -/
def carried (side : Side) (ops : List Op) : Nat × Nat := ops.foldl (carry side) (0, 0)

/-! ## What a receiver expects -/

/-- The queued records are the ones a sender seals from sequence number `seq`
and chaining value `iv` on, ending with `seq'` and `iv'`. -/
def Expects (P : Primitives) (key : Key) :
    UInt32 → Block → List (List UInt8 × List UInt8) → UInt32 → Block → Prop
  | seq, iv, [], seq', iv' => seq = seq' ∧ iv = iv'
  | seq, iv, (body, record) :: queue, seq', iv' =>
      seq < 0xffffffff ∧ body.length ≤ 65498 ∧
      record = toBigEndian 2 (recordSize body.length) ++ (sealRecord P key seq iv body).1 ∧
      Expects P key (seq + 1) (sealRecord P key seq iv body).2 queue seq' iv'

theorem Expects.snoc {P : Primitives} {key : Key} {seq seq' : UInt32} {iv iv' : Block}
    {queue : List (List UInt8 × List UInt8)} {body : List UInt8}
    (h : Expects P key seq iv queue seq' iv') (hseq : seq' < 0xffffffff)
    (hbody : body.length ≤ 65498) :
    Expects P key seq iv
      (queue ++ [(body, toBigEndian 2 (recordSize body.length) ++
        (sealRecord P key seq' iv' body).1)])
      (seq' + 1) (sealRecord P key seq' iv' body).2 := by
  induction queue generalizing seq iv with
  | nil =>
      obtain ⟨rfl, rfl⟩ := h
      exact ⟨hseq, hbody, rfl, rfl, rfl⟩
  | cons head queue ih =>
      obtain ⟨h₁, h₂, h₃, h₄⟩ := h
      exact ⟨h₁, h₂, h₃, ih h₄⟩

theorem length_record (P : Primitives) (key : Key) (seq : UInt32) (iv : Block)
    (body : List UInt8) :
    (toBigEndian 2 (recordSize body.length) ++ (sealRecord P key seq iv body).1).length =
      2 + recordSize body.length := by
  simp

theorem drainLoop_incomplete {P : Primitives} {layer : RecordLayer} {pending rest : List UInt8}
    {len : Nat} (hlen : len ≤ 65498) (hlt : pending.length < 2 + recordSize len)
    (hpre : pending <+: toBigEndian 2 (recordSize len) ++ rest) :
    drainLoop P layer pending = (.ok ([], pending), layer) := by
  have hbounds := recordSize_bounds hlen
  rw [drainLoop]
  by_cases htwo : 2 ≤ pending.length
  · have hheader : pending.take 2 = toBigEndian 2 (recordSize len) := by
      obtain ⟨tail, htail⟩ := hpre
      have := congrArg (List.take 2) htail
      rwa [List.take_append_of_le_length htwo, List.take_append_of_le_length (by simp),
        List.take_of_length_le (l := toBigEndian 2 (recordSize len)) (by simp)] at this
    have hn : ofBigEndian (pending.take 2) = recordSize len := by
      rw [hheader, ofBigEndian_toBigEndian (by omega)]
    rw [dif_pos htwo]
    simp only [hn]
    rw [if_neg (by omega), if_pos hlt]
  · rw [dif_neg htwo]

/-- A complete head record is decrypted and the loop continues behind it. -/
theorem drainLoop_complete {P : Primitives} {layer : RecordLayer} {rest body : List UInt8}
    (hfailed : layer.failed = false) (hseq : layer.decSeq < 0xffffffff)
    (hbody : body.length ≤ 65498) :
    drainLoop P layer (toBigEndian 2 (recordSize body.length) ++
        (sealRecord P layer.key layer.decSeq layer.decIv body).1 ++ rest) =
      match drainLoop P
          { layer with
            decIv := (sealRecord P layer.key layer.decSeq layer.decIv body).2
            decSeq := layer.decSeq + 1 } rest with
      | (.error e, layer) => (.error e, layer)
      | (.ok (out, rest), layer) => (.ok (body :: out, rest), layer) := by
  have hbounds := recordSize_bounds hbody
  have hsealed := length_sealRecord P layer.key layer.decSeq layer.decIv body
  generalize hrecord : (sealRecord P layer.key layer.decSeq layer.decIv body).1 = record at *
  have hheader : (toBigEndian 2 (recordSize body.length) ++ record ++ rest).take 2 =
      toBigEndian 2 (recordSize body.length) := by
    rw [List.append_assoc, List.take_append_of_le_length (by simp),
      List.take_of_length_le (by simp)]
  have hn : ofBigEndian ((toBigEndian 2 (recordSize body.length) ++ record ++ rest).take 2) =
      recordSize body.length := by
    rw [hheader, ofBigEndian_toBigEndian (by omega)]
  have hpayload : ((toBigEndian 2 (recordSize body.length) ++ record ++ rest).drop 2).take
      (recordSize body.length) = record := by
    rw [List.append_assoc, List.drop_append_of_le_length (by simp),
      List.drop_of_length_le (by simp), List.nil_append, ← hsealed, List.take_left]
  have hrest : (toBigEndian 2 (recordSize body.length) ++ record ++ rest).drop
      (2 + recordSize body.length) = rest := by
    have hlen : (toBigEndian 2 (recordSize body.length) ++ record).length =
        2 + recordSize body.length := by simp [hsealed]
    rw [← hlen, List.drop_left]
  rw [drainLoop, dif_pos (by simp)]
  simp only [hn, hpayload, hrest]
  rw [if_neg (by omega), if_neg (by simp; omega), ← hrecord]
  rcases hloop : drainLoop P
      { layer with
        decIv := (sealRecord P layer.key layer.decSeq layer.decIv body).2
        decSeq := layer.decSeq + 1 } rest with ⟨e | ⟨out, left⟩, last⟩
  · simp only [decrypt_sealRecord hfailed hseq hbody, hloop]
  · simp only [decrypt_sealRecord hfailed hseq hbody, hloop]

/-- What one drain does to a layer: only the receive direction moves. -/
structure Drained (before after : RecordLayer) : Prop where
  key : after.key = before.key
  failed : after.failed = false
  encIv : after.encIv = before.encIv
  encSeq : after.encSeq = before.encSeq

/-- Draining a prefix of the expected records returns exactly the bodies whose
records are complete, and keeps the rest of the bytes. -/
theorem drainLoop_expects {P : Primitives} {layer : RecordLayer} {pending : List UInt8}
    {queue : List (List UInt8 × List UInt8)} {seq' : UInt32} {iv' : Block}
    (hfailed : layer.failed = false)
    (hexpects : Expects P layer.key layer.decSeq layer.decIv queue seq' iv')
    (hpre : pending <+: (queue.map Prod.snd).flatten) :
    ∃ layer', drainLoop P layer pending =
        (.ok ((queue.take (completed (queue.map Prod.snd) pending.length)).map Prod.fst,
          pending.drop ((queue.map Prod.snd).take
            (completed (queue.map Prod.snd) pending.length)).flatten.length), layer') ∧
      Drained layer layer' ∧
      Expects P layer.key layer'.decSeq layer'.decIv
        (queue.drop (completed (queue.map Prod.snd) pending.length)) seq' iv' := by
  induction queue generalizing layer pending with
  | nil =>
      have hnil : pending = [] := by simpa using hpre
      refine ⟨layer, ?_, ⟨rfl, hfailed, rfl, rfl⟩, hexpects⟩
      rw [hnil, drainLoop]
      simp
  | cons head queue ih =>
      obtain ⟨body, record⟩ := head
      obtain ⟨hseq, hbody, hrecord, hnext⟩ := hexpects
      have hlength : record.length = 2 + recordSize body.length := by
        rw [hrecord, length_record]
      simp only [List.map_cons, List.flatten_cons] at hpre ⊢
      by_cases hcomplete : record.length ≤ pending.length
      · obtain ⟨rest, rfl⟩ : record <+: pending :=
          List.prefix_of_prefix_length_le (List.prefix_append _ _) hpre hcomplete
        have hrest : rest <+: (queue.map Prod.snd).flatten := by
          simpa using hpre
        obtain ⟨layer', hloop, hdrained, hexpects'⟩ :=
          @ih { layer with
            decIv := (sealRecord P layer.key layer.decSeq layer.decIv body).2
            decSeq := layer.decSeq + 1 } rest hfailed hnext hrest
        have hcount : completed (record :: queue.map Prod.snd) (record ++ rest).length =
            completed (queue.map Prod.snd) rest.length + 1 := by
          rw [completed_cons_of_le hcomplete, List.length_append, Nat.add_sub_cancel_left]
        refine ⟨layer', ?_, ⟨hdrained.key, hdrained.failed, hdrained.encIv,
          hdrained.encSeq⟩, ?_⟩
        · rw [hcount]
          conv_lhs => rw [hrecord, drainLoop_complete hfailed hseq hbody, hloop]
          simp [List.drop_append]
        · rw [hcount]
          exact hexpects'
      · have hlt : pending.length < record.length := by omega
        refine ⟨layer, ?_, ⟨rfl, hfailed, rfl, rfl⟩, ?_⟩
        · rw [completed_cons_of_lt hlt]
          rw [hrecord, List.append_assoc] at hpre
          rw [drainLoop_incomplete hbody (by omega) hpre]
          simp
        · rw [completed_cons_of_lt hlt]
          exact ⟨hseq, hbody, hrecord, hnext⟩

/-! ## One direction -/

/-- The receiver `r` is in step with the sender `s`: it has returned the first
records, holds the bytes of the next one that have arrived, and expects the
records still queued. -/
structure Synced (P : Primitives) (s r : Station) (done queue : List (List UInt8 × List UInt8)) :
    Prop where
  sent : s.sent = done ++ queue
  returned : r.returned = done.map Prod.fst
  arrived : r.arrived = (done.map Prod.snd).flatten ++ r.pending
  held : r.pending <+: (queue.map Prod.snd).flatten
  partial_head : completed (queue.map Prod.snd) r.pending.length = 0
  expects : Expects P r.layer.key r.layer.decSeq r.layer.decIv queue
    s.layer.encSeq s.layer.encIv

theorem Synced.records {P : Primitives} {s r : Station}
    {done queue : List (List UInt8 × List UInt8)} (h : Synced P s r done queue) :
    s.records.flatten = (done.map Prod.snd).flatten ++ (queue.map Prod.snd).flatten := by
  rw [Station.records, h.sent, List.map_append, List.flatten_append]

theorem Synced.arrived_prefix {P : Primitives} {s r : Station}
    {done queue : List (List UInt8 × List UInt8)} (h : Synced P s r done queue) :
    r.arrived <+: s.records.flatten := by
  rw [h.records, h.arrived]
  exact (List.prefix_append_right_inj _).2 h.held

theorem Synced.send {P : Primitives} {s r : Station}
    {done queue : List (List UInt8 × List UInt8)} (h : Synced P s r done queue)
    (hkey : r.layer.key = s.layer.key) {body : List UInt8}
    (hseq : s.layer.encSeq < 0xffffffff) (hbody : body.length ≤ 65498) :
    Synced P
      { s with
        layer :=
          { s.layer with
            encIv := (sealRecord P s.layer.key s.layer.encSeq s.layer.encIv body).2
            encSeq := s.layer.encSeq + 1 }
        sent := s.sent ++ [(body, toBigEndian 2 (recordSize body.length) ++
          (sealRecord P s.layer.key s.layer.encSeq s.layer.encIv body).1)] }
      r done
      (queue ++ [(body, toBigEndian 2 (recordSize body.length) ++
        (sealRecord P s.layer.key s.layer.encSeq s.layer.encIv body).1)]) := by
  have hexpects := h.expects.snoc hseq hbody
  rw [hkey] at hexpects
  constructor
  · simp only [h.sent, List.append_assoc]
  · exact h.returned
  · exact h.arrived
  · exact h.held.trans (by simp)
  · rw [List.map_append]
    exact completed_snoc_eq_zero h.partial_head h.held.length_le (by simp [toBigEndian])
  · rw [hkey]
    exact hexpects

/-- The next bytes in flight arrive: the records that they complete are returned. -/
theorem Synced.read {P : Primitives} {s r : Station}
    {done queue : List (List UInt8 × List UInt8)} (h : Synced P s r done queue)
    (hfailed : r.layer.failed = false) {chunk : List UInt8}
    (hchunk : chunk <+: s.records.flatten.drop r.arrived.length) :
    ∃ bodies layer pending,
      drainRecords P r.layer (r.pending ++ chunk) = (.ok bodies, layer, pending) ∧
      Drained r.layer layer ∧
      ∃ done' queue', Synced P s
        { r with
          layer, pending
          arrived := r.arrived ++ chunk
          returned := r.returned ++ bodies } done' queue' := by
  have hflat := h.records
  -- the bytes held and the new segment are together a prefix of what is expected
  have hpre : r.pending ++ chunk <+: (queue.map Prod.snd).flatten := by
    obtain ⟨tail, htail⟩ := h.held
    rw [hflat, h.arrived, ← htail, ← List.append_assoc, List.drop_left] at hchunk
    rw [← htail]
    exact (List.prefix_append_right_inj _).2 hchunk
  obtain ⟨layer, hloop, hdrained, hexpects⟩ := drainLoop_expects hfailed h.expects hpre
  have hzero := completed_drop (queue.map Prod.snd) (r.pending ++ chunk).length
  have hle := length_take_completed (queue.map Prod.snd) (r.pending ++ chunk).length
  generalize completed (queue.map Prod.snd) (r.pending ++ chunk).length = k at *
  have hsplit : (queue.map Prod.snd).flatten =
      ((queue.take k).map Prod.snd).flatten ++ ((queue.drop k).map Prod.snd).flatten := by
    rw [← List.flatten_append, ← List.map_append, List.take_append_drop]
  rw [← List.map_take] at hle
  obtain ⟨rest, hrest⟩ : ((queue.take k).map Prod.snd).flatten <+: r.pending ++ chunk := by
    apply List.prefix_of_prefix_length_le _ hpre hle
    rw [hsplit]
    exact List.prefix_append _ _
  have hdrop : (r.pending ++ chunk).drop ((queue.map Prod.snd).take k).flatten.length = rest := by
    rw [← List.map_take, ← hrest, List.drop_left]
  rw [hdrop] at hloop
  refine ⟨_, layer, rest, by rw [drainRecords, hloop], hdrained, done ++ queue.take k,
    queue.drop k, ?_⟩
  constructor
  · rw [h.sent, List.append_assoc, List.take_append_drop]
  · simp [h.returned]
  · simp only [List.map_append, List.flatten_append, List.append_assoc, hrest, h.arrived]
  · rw [← hrest, hsplit] at hpre
    exact (List.prefix_append_right_inj _).1 hpre
  · rw [← List.map_take, ← hrest, List.length_append, Nat.add_sub_cancel_left] at hzero
    rwa [List.map_drop]
  · simpa [hdrained.key] using hexpects

/-- Both directions of the channel. -/
structure Invariant (P : Primitives) (key : Key) (c : Ends) : Prop where
  key : ∀ side, (c side).layer.key = key
  failed : ∀ side, (c side).layer.failed = false
  count : ∀ side, (c side).layer.encSeq.toNat = (c side).sent.length
  synced : ∀ side, ∃ done queue, Synced P (c side.peer) (c side) done queue

theorem invariant_start (P : Primitives) (key : Key) (iv : Block) :
    Invariant P key (start key iv) where
  key _ := rfl
  failed _ := rfl
  count _ := rfl
  synced _ := ⟨[], [], rfl, rfl, rfl, List.prefix_rfl, rfl, rfl, rfl⟩

/-- A new state of one side keeps the invariant when it keeps both of its directions. -/
theorem Invariant.update {P : Primitives} {key : Key} {c : Ends} {side : Side}
    {station : Station} (h : Invariant P key c) (hkey : station.layer.key = key)
    (hfailed : station.layer.failed = false)
    (hcount : station.layer.encSeq.toNat = station.sent.length)
    (hreceives : ∃ done queue, Synced P (c side.peer) station done queue)
    (hsends : ∃ done queue, Synced P station (c side.peer) done queue) :
    Invariant P key (Function.update c side station) := by
  constructor
  · intro s
    by_cases hs : s = side
    · subst hs
      simpa using hkey
    · simpa [hs] using h.key s
  · intro s
    by_cases hs : s = side
    · subst hs
      simpa using hfailed
    · simpa [hs] using h.failed s
  · intro s
    by_cases hs : s = side
    · subst hs
      simpa using hcount
    · simpa [hs] using h.count s
  · intro s
    by_cases hs : s = side
    · subst hs
      rw [Function.update_self, Function.update_of_ne s.peer_ne]
      exact hreceives
    · have hpeer : s.peer = side := by
        cases s <;> cases side <;> simp_all [Side.peer]
      subst hpeer
      rw [Side.peer_peer] at hsends
      rw [Function.update_self, Function.update_of_ne hs]
      exact hsends

theorem Invariant.sends {P : Primitives} {key : Key} {c : Ends} (h : Invariant P key c)
    (side : Side) : ∃ done queue, Synced P (c side) (c side.peer) done queue := by
  have hsynced := h.synced side.peer
  rwa [Side.peer_peer] at hsynced

/-- The bytes that were written to a side, and those that have arrived there. -/
def counts (c : Ends) (side : Side) : Nat × Nat :=
  ((c side.peer).records.flatten.length, (c side).arrived.length)

theorem step_send {P : Primitives} {key : Key} {c : Ends} (side : Side)
    {body : List UInt8} (h : Invariant P key c) (hbody : body.length ≤ 65498)
    (hcount : (c side).sent.length < 2 ^ 32 - 1) :
    ∃ c', step P c (.send side body) = some c' ∧ Invariant P key c' ∧
      (∀ s, (c' s).sent.map Prod.fst = (c s).sent.map Prod.fst ++
        if s = side then [body] else []) ∧
      ∀ s, counts c' s = carry s (counts c s) (.send side body) := by
  have hseq : (c side).layer.encSeq < 0xffffffff := by
    rw [UInt32.lt_iff_toNat_lt, h.count side]
    simpa using hcount
  have hnext : ((c side).layer.encSeq + 1).toNat = (c side).sent.length + 1 := by
    rw [UInt32.toNat_add, h.count side]
    exact Nat.mod_eq_of_lt (by simp; omega)
  refine ⟨_, by rw [step, encrypt_ok (h.failed side) hseq hbody], ?_, ?_, ?_⟩
  · apply h.update
    · exact h.key side
    · exact h.failed side
    · simpa using hnext
    · -- the sender's own receive direction is not touched
      obtain ⟨done, queue, hsync⟩ := h.synced side
      exact ⟨done, queue, hsync.sent, hsync.returned, hsync.arrived, hsync.held,
        hsync.partial_head, hsync.expects⟩
    · obtain ⟨done, queue, hsync⟩ := h.sends side
      have hkey : (c side.peer).layer.key = (c side).layer.key := by rw [h.key, h.key]
      exact ⟨done, _, hsync.send hkey hseq hbody⟩
  · intro s
    by_cases hs : s = side
    · subst hs
      simp
    · simp [hs]
  · intro s
    cases s <;> cases side <;> simp [counts, carry, Side.peer, Station.records]

/-- A read moves the receive direction of its side only: it returns the records
that the new bytes complete. -/
theorem step_read {P : Primitives} {key : Key} {c : Ends} (side : Side) (count : Nat)
    (h : Invariant P key c) :
    ∃ c', step P c (.read side count) = some c' ∧ Invariant P key c' ∧
      (∀ s, (c' s).sent = (c s).sent) ∧
      ∀ s, counts c' s = carry s (counts c s) (.read side count) := by
  obtain ⟨done, queue, hsync⟩ := h.synced side
  obtain ⟨bodies, layer, pending, hdrain, hdrained, hreceives⟩ :=
    hsync.read (h.failed side) (List.take_prefix count (inFlight c side))
  have hprefix := hsync.arrived_prefix.length_le
  refine ⟨_, by rw [step, hdrain], ?_, ?_, ?_⟩
  · apply h.update
    · exact hdrained.key.trans (h.key side)
    · exact hdrained.failed
    · exact (congrArg UInt32.toNat hdrained.encSeq).trans (h.count side)
    · exact hreceives
    · -- the peer's receive direction sees an unchanged sender
      obtain ⟨done', queue', hsync'⟩ := h.sends side
      refine ⟨done', queue', hsync'.sent, hsync'.returned, hsync'.arrived, hsync'.held,
        hsync'.partial_head, ?_⟩
      simpa [hdrained.encSeq, hdrained.encIv] using hsync'.expects
  · intro s
    by_cases hs : s = side
    · subst hs
      simp
    · simp [hs]
  · intro s
    have hchunk : ((inFlight c side).take count).length =
        min count ((c side.peer).records.flatten.length - (c side).arrived.length) := by
      rw [List.length_take, inFlight, List.length_drop]
    by_cases hs : s = side
    · subst hs
      rw [counts, counts, carry, if_pos rfl, Function.update_self, Function.update_of_ne s.peer_ne]
      dsimp only
      rw [List.length_append, hchunk]
      congr 1
      omega
    · have hpeer : side.peer = s := by
        cases s <;> cases side <;> simp_all [Side.peer]
      subst hpeer
      simp [counts, carry, side.peer_ne.symm, Station.records, side.peer_ne]

/-! ## Whole runs -/

theorem bodiesSent_cons (side : Side) (op : Op) (ops : List Op) :
    bodiesSent side (op :: ops) = bodiesSent side [op] ++ bodiesSent side ops := by
  rw [← List.singleton_append, bodiesSent, List.filterMap_append]
  rfl

/-- Every run of admissible steps succeeds and keeps the invariant. -/
theorem run_invariant {P : Primitives} {key : Key} {c : Ends} {ops : List Op}
    (h : Invariant P key c)
    (hbodies : ∀ side body, Op.send side body ∈ ops → body.length ≤ 65498)
    (hcount : ∀ side, (c side).sent.length + (bodiesSent side ops).length < 2 ^ 32 - 1) :
    ∃ c', run P c ops = some c' ∧ Invariant P key c' ∧
      (∀ side, (c' side).sent.map Prod.fst =
        (c side).sent.map Prod.fst ++ bodiesSent side ops) ∧
      ∀ side, counts c' side = ops.foldl (carry side) (counts c side) := by
  induction ops generalizing c with
  | nil => exact ⟨c, rfl, h, fun side => by simp [bodiesSent], fun _ => rfl⟩
  | cons op ops ih =>
      have hlater : ∀ side body, Op.send side body ∈ ops → body.length ≤ 65498 :=
        fun side body hmem => hbodies side body (List.mem_cons_of_mem op hmem)
      obtain ⟨c₁, hstep, hinv, hsent, hcounts⟩ : ∃ c₁, step P c op = some c₁ ∧
          Invariant P key c₁ ∧
          (∀ s, (c₁ s).sent.map Prod.fst = (c s).sent.map Prod.fst ++ bodiesSent s [op]) ∧
          ∀ s, counts c₁ s = carry s (counts c s) op := by
        cases op with
        | send side body =>
            have hside := hcount side
            rw [bodiesSent_cons] at hside
            obtain ⟨c₁, hstep, hinv, hsent, hcounts⟩ := step_send side h
              (hbodies side body (List.mem_cons_self ..)) (by omega)
            refine ⟨c₁, hstep, hinv, fun s => ?_, hcounts⟩
            rw [hsent s]
            by_cases hs : s = side
            · subst hs
              simp [bodiesSent]
            · simp [bodiesSent, hs, Ne.symm hs]
        | read side count =>
            obtain ⟨c₁, hstep, hinv, hsent, hcounts⟩ := step_read side count h
            exact ⟨c₁, hstep, hinv, fun s => by simp [hsent s, bodiesSent], hcounts⟩
      have hlength : ∀ side, (c₁ side).sent.length + (bodiesSent side ops).length =
          (c side).sent.length + (bodiesSent side (op :: ops)).length := by
        intro side
        have := congrArg List.length (hsent side)
        rw [bodiesSent_cons]
        simp only [List.length_map, List.length_append] at this ⊢
        omega
      obtain ⟨c', hrun, hinv', hsent', hcounts'⟩ := ih hinv hlater
        (fun side => by rw [hlength side]; exact hcount side)
      refine ⟨c', ?_, hinv', fun side => ?_, fun side => ?_⟩
      · rw [run, hstep, Option.bind_some, hrun]
      · rw [hsent' side, hsent side, bodiesSent_cons side op ops, List.append_assoc]
      · rw [hcounts' side, hcounts side, List.foldl_cons]

/-- Over any interleaving of sends and reads on both sides, with the bytes cut
into any segments, no call fails; after it the bytes that the reads deliver have
arrived, each side has returned exactly the bodies whose last wire byte is among
them, and holds exactly the bytes behind these. -/
theorem channel_round_trip (P : Primitives) (key : Key) (iv : Block) (ops : List Op)
    (hbodies : ∀ side body, Op.send side body ∈ ops → body.length ≤ 65498)
    (hcount : ∀ side, (bodiesSent side ops).length < 2 ^ 32 - 1) :
    ∃ c, run P (start key iv) ops = some c ∧ ∀ side,
      (c side).sent.map Prod.fst = bodiesSent side ops ∧
      (c side).arrived <+: (c side.peer).records.flatten ∧
      (c side).arrived.length = (carried side ops).2 ∧
      (c side).returned = (bodiesSent side.peer ops).take
        (completed (c side.peer).records (c side).arrived.length) ∧
      (c side).pending = (c side).arrived.drop
        (((c side.peer).records.take
          (completed (c side.peer).records (c side).arrived.length)).flatten.length) := by
  obtain ⟨c, hrun, hinv, hsent, hcounts⟩ := run_invariant (invariant_start P key iv) hbodies
    (fun side => by simpa [start] using hcount side)
  have hbodiesSent : ∀ side, (c side).sent.map Prod.fst = bodiesSent side ops := by
    intro side
    simpa [start] using hsent side
  refine ⟨c, hrun, fun side => ?_⟩
  obtain ⟨done, queue, hsync⟩ := hinv.synced side
  have hrecords : (c side.peer).records = done.map Prod.snd ++ queue.map Prod.snd := by
    rw [Station.records, hsync.sent, List.map_append]
  have harrived : (done.map Prod.snd).flatten.length ≤ (c side).arrived.length := by
    rw [hsync.arrived, List.length_append]
    omega
  have hcompleted : completed (c side.peer).records (c side).arrived.length = done.length := by
    rw [hrecords, completed_append harrived, hsync.arrived, List.length_append,
      Nat.add_sub_cancel_left, hsync.partial_head, List.length_map, Nat.add_zero]
  refine ⟨hbodiesSent side, hsync.arrived_prefix, congrArg Prod.snd (hcounts side), ?_, ?_⟩
  · rw [hcompleted, ← hbodiesSent side.peer, hsync.sent, hsync.returned, List.map_append,
      List.take_append_of_le_length (by simp), List.take_of_length_le (by simp)]
  · rw [hcompleted, hrecords, List.take_append_of_le_length (by simp),
      List.take_of_length_le (by simp), hsync.arrived, List.drop_left]

/-! ## The node crypto fixture

AES-128 and SHA-1 as they act on the first record of the differential fixture:
key `[9; 16]`, chaining value `[2; 16]`, body `hello`. -/

def fixtureKey : Key := Vector.replicate 16 9

def fixtureIv : Block := Vector.replicate 16 2

def fixtureBlocks : (Block × Block) × (Block × Block) :=
  ((#v[2, 7, 106, 103, 110, 110, 109, 2, 2, 2, 2, 2, 253, 235, 229, 26],
    #v[203, 87, 91, 95, 21, 125, 117, 229, 30, 163, 209, 203, 95, 179, 232, 155]),
   (#v[150, 11, 203, 157, 93, 27, 245, 168, 129, 228, 180, 135, 161, 47, 19, 52],
    #v[89, 157, 132, 197, 30, 57, 152, 242, 236, 60, 37, 222, 7, 78, 148, 185]))

/-- A permutation of the blocks that agrees with AES-128 under the fixture's key
on the fixture's blocks. -/
def fixtureCipher : BlockCipher Key Block :=
  let σ := Equiv.swap fixtureBlocks.1.1 fixtureBlocks.1.2 *
    Equiv.swap fixtureBlocks.2.1 fixtureBlocks.2.2
  { encryptBlock := fun _ block => σ block
    decryptBlock := fun _ block => σ.symm block
    decrypt_encrypt := fun _ block => σ.symm_apply_apply block }

/-- SHA-1 on the fixture's trailer input. -/
def fixtureSha1 (input : List UInt8) : Vector UInt8 20 :=
  if input = [0, 0, 0, 0, 0, 5, 104, 101, 108, 108, 111, 0, 0, 0, 0, 0] then
    #v[255, 233, 231, 24, 93, 92, 144, 194, 72, 102, 128, 77, 159, 71, 101, 76, 254, 156, 251, 175]
  else Vector.replicate 20 0

def fixture : Primitives := { aes := fixtureCipher, sha1 := fixtureSha1 }

def fixtureRecord : List UInt8 :=
  [0, 32, 203, 87, 91, 95, 21, 125, 117, 229, 30, 163, 209, 203, 95, 179, 232, 155,
    89, 157, 132, 197, 30, 57, 152, 242, 236, 60, 37, 222, 7, 78, 148, 185]

example : ((RecordLayer.new fixtureKey fixtureIv).encrypt fixture
    [104, 101, 108, 108, 111]).1.toOption = some fixtureRecord := by
  decide +kernel

theorem channel_round_trip_fixture :
    let ops := [.send .viewer [104, 101, 108, 108, 111], .read .mac 1, .read .mac 0,
      .read .mac 40]
    (∀ side, (bodiesSent side ops).length < 2 ^ 32 - 1) ∧
    ∃ c, run fixture (start fixtureKey fixtureIv) ops = some c ∧ ∀ side,
      (c side).sent.map Prod.fst = bodiesSent side ops ∧
      (c side).arrived <+: (c side.peer).records.flatten ∧
      (c side).arrived.length = (carried side ops).2 ∧
      (c side).returned = (bodiesSent side.peer ops).take
        (completed (c side.peer).records (c side).arrived.length) ∧
      (c side).pending = (c side).arrived.drop
        (((c side.peer).records.take
          (completed (c side.peer).records (c side).arrived.length)).flatten.length) := by
  intro ops
  have hbodies : ∀ side body, Op.send side body ∈ ops → body.length ≤ 65498 := by
    intro side body hmem
    simp only [ops, List.mem_cons, Op.send.injEq, reduceCtorEq, List.not_mem_nil,
      or_false] at hmem
    simp [hmem.2]
  have hcount : ∀ side, (bodiesSent side ops).length < 2 ^ 32 - 1 := by
    intro side
    cases side <;> decide
  exact ⟨hcount, channel_round_trip fixture fixtureKey fixtureIv ops hbodies hcount⟩

end MacVnc.Protocol.Channel

import MacVnc.Lib.Bytes
import MacVnc.Lib.ReplayWindow
import Mathlib.Data.List.AList
/-!
# SRTP

The media transport of the client (`hp-media/src/srtp.rs`): key derivation, the
receiver with its rollover guess and replay window, and the sender with its
owned packet index.  AES-256-CTR is any keystream and HMAC-SHA1 any function of
key and message.

A call that would panic (an index out of range, an underflow, a shift by the
width or more) is `none`; a rejected datagram is an ordinary result.
-/

namespace MacVnc.Media.Srtp

open MacVnc.Lib.Bytes
open MacVnc.Lib.ReplayWindow

/-- The cryptographic library: the AES-256-CTR keystream byte at a position for
a key and an initial counter block, and HMAC-SHA1. -/
structure Primitives where
  keystream : List UInt8 → List UInt8 → Nat → UInt8
  hmacSha1 : List UInt8 → List UInt8 → Vector UInt8 20

def applyKeystream (P : Primitives) (key iv bytes : List UInt8) : List UInt8 :=
  bytes.mapIdx fun i b => b ^^^ P.keystream key iv i

/-- XOR `bytes` into a buffer from offset `off` on. -/
def xorAt (off : Nat) (bytes buffer : List UInt8) : List UInt8 :=
  buffer.mapIdx fun i b => if off ≤ i then b ^^^ bytes.getD (i - off) 0 else b

structure Keys where
  cipher : List UInt8
  auth : List UInt8
  salt : List UInt8
deriving DecidableEq

def kdf (P : Primitives) (blob : List UInt8) (label : UInt8) (count : Nat) : List UInt8 :=
  applyKeystream P (blob.take 32) (xorAt 7 [label] (blob.drop 32 ++ [0, 0]))
    (List.replicate count 0)

def derive (P : Primitives) (blob : List UInt8) (label : UInt8) : Except String Keys :=
  if blob.length ≠ 46 then .error "SRTP key must contain 46 bytes"
  else .ok
    { cipher := kdf P blob label 32
      auth := kdf P blob (label + 1) 20
      salt := kdf P blob (label + 2) 14 }

def packetIv (k : Keys) (ssrc : UInt32) (index : Nat) : List UInt8 :=
  xorAt 6 (toBigEndian 8 index)
    (xorAt 4 (toBigEndian 4 ssrc.toNat) (k.salt ++ [0, 0]))

def crypt (P : Primitives) (k : Keys) (ssrc : UInt32) (index : Nat) (bytes : List UInt8) :
    List UInt8 :=
  applyKeystream P k.cipher (packetIv k ssrc index) bytes

def authTag (P : Primitives) (k : Keys) (message : List UInt8) (roc : Nat) : List UInt8 :=
  (P.hmacSha1 k.auth (message ++ toBigEndian 4 roc)).toList.take 10

def isRtcp (p : List UInt8) : Bool :=
  match p with
  | _ :: kind :: _ => 64 ≤ kind &&& 127 && kind &&& 127 ≤ 95
  | _ => false

structure RtpPacket where
  ssrc : UInt32
  seq : UInt16
  timestamp : UInt32
  marker : Bool
  pt : UInt8
  payload : List UInt8
deriving DecidableEq

abbrev ReceiveState := Window 128

structure SrtpReceiver where
  keys : Keys
  states : AList (fun _ : UInt32 => ReceiveState)

/-! ## Operations that panic outside their range -/

def sub64 (a b : Nat) : Option Nat := if b ≤ a then some (a - b) else none

def add64 (a b : Nat) : Option Nat := if a + b < 2 ^ 64 then some (a + b) else none

def shl128 (a : BitVec 128) (n : Nat) : Option (BitVec 128) :=
  if n < 128 then some (a <<< n) else none

def slice (p : List UInt8) (first last : Nat) : Option (List UInt8) :=
  if first ≤ last ∧ last ≤ p.length then some ((p.drop first).take (last - first)) else none

/-! ## The receiver -/

/-- The rollover counter guessed for a sequence number. -/
def guessRoc (previous : Option Nat) (seq : UInt16) : Option Nat :=
  match previous with
  | none => some 0
  | some v =>
      let roc := v >>> 16
      let delta : Int := (seq.toNat : Int) - ((v % 2 ^ 16 : Nat) : Int)
      if delta < -32768 then add64 roc 1
      else if delta > 32768 then some (roc - 1)
      else some roc

def replayed (state : Option ReceiveState) (index : Nat) : Option Bool :=
  match state with
  | none => some false
  | some s =>
      if index ≤ s.highest then do
        let age ← sub64 s.highest index
        if 128 ≤ age then some true
        else
          let mask ← shl128 1 age
          some (decide (s.seen &&& mask ≠ 0))
      else some false

/-- Where the payload begins, behind the CSRC list and the extension. -/
def payloadOffset (p : List UInt8) (b0 : UInt8) (len : Nat) : Option (Option Nat) :=
  let off := 12 + (b0.toNat &&& 15) * 4
  if b0 &&& 16 ≠ 0 then
    if len < off + 4 then some none
    else do
      let words ← slice p (off + 2) (off + 4)
      let off := off + (4 + ofBigEndian words * 4)
      some (if len < off then none else some off)
  else some (if len < off then none else some off)

def stripPadding (b0 : UInt8) (payload : List UInt8) : Option (List UInt8) :=
  if b0 &&& 32 ≠ 0 then
    let count := (payload.getLast?.getD 0).toNat
    if count = 0 ∨ payload.length < count then none
    else some (payload.take (payload.length - count))
  else some payload

/-- Advance a source's window to an accepted index and set its bit. -/
def acceptIndex (s : ReceiveState) (index : Nat) : Option ReceiveState := do
  let s ←
    if s.highest < index then do
      let delta ← sub64 index s.highest
      let seen ← if 128 ≤ delta then some 0 else shl128 s.seen delta
      some { highest := index, seen }
    else some s
  let mask ← shl128 1 (← sub64 s.highest index)
  some { s with seen := s.seen ||| mask }

namespace SrtpReceiver

def new (P : Primitives) (blob : List UInt8) : Except String SrtpReceiver := do
  let keys ← derive P blob 0
  return { keys, states := ∅ }

/-- `SrtpReceiver::unprotect`.  Every rejection returns the receiver as it was. -/
def unprotect (P : Primitives) (r : SrtpReceiver) (p : List UInt8) :
    Option (Option RtpPacket × SrtpReceiver) :=
  let reject : Option (Option RtpPacket × SrtpReceiver) := some (none, r)
  if p.length < 22 ∨ 65535 < p.length then reject
  else p[0]?.bind fun (b0 : UInt8) =>
  if b0 >>> 6 ≠ 2 ∨ isRtcp p = true then reject
  else
  let len := p.length - 10
  (slice p 2 4).bind fun seqBytes =>
  (slice p 8 12).bind fun ssrcBytes =>
  let seq := UInt16.ofNat (ofBigEndian seqBytes)
  let ssrc := UInt32.ofNat (ofBigEndian ssrcBytes)
  let state := r.states.lookup ssrc
  (guessRoc (state.map Window.highest) seq).bind fun guess =>
  if 0xffffffff < guess then reject
  else
  let index := guess <<< 16 ||| seq.toNat
  (replayed state index).bind fun replay =>
  if replay = true then reject
  else if authTag P r.keys (p.take len) guess ≠ p.drop len then reject
  else (payloadOffset p b0 len).bind fun offset =>
  match offset with
  | none => reject
  | some off =>
  (slice p off len).bind fun body =>
  match stripPadding b0 (crypt P r.keys ssrc index body) with
  | none => reject
  | some payload =>
  if state = none ∧ 32 ≤ r.states.keys.length then reject
  else (acceptIndex (state.getD (Window.fresh index)) index).bind fun s =>
  (slice p 4 8).bind fun timeBytes =>
  p[1]?.bind fun (b1 : UInt8) =>
  some
    (some
      { ssrc, seq
        timestamp := UInt32.ofNat (ofBigEndian timeBytes)
        marker := decide (b1 &&& 128 ≠ 0)
        pt := b1 &&& 127
        payload },
      { r with states := r.states.insert ssrc s })

end SrtpReceiver

/-! ## The sender -/

structure SrtpSender where
  keys : Keys
  ssrc : UInt32
  index : Nat
  heartbeatTimestamp : UInt32
deriving DecidableEq

def rtpHeader (ssrc : UInt32) (index : Nat) (timestamp : UInt32) (pt : UInt8) : List UInt8 :=
  [0x80, pt] ++ toBigEndian 2 index ++ toBigEndian 4 timestamp.toNat ++ toBigEndian 4 ssrc.toNat

def rtpMessage (P : Primitives) (k : Keys) (ssrc : UInt32) (index : Nat) (payload : List UInt8)
    (timestamp : UInt32) (pt : UInt8) : List UInt8 :=
  rtpHeader ssrc index timestamp pt ++ crypt P k ssrc index payload

namespace SrtpSender

def new (P : Primitives) (blob : List UInt8) (ssrc : UInt32) : Except String SrtpSender := do
  let keys ← derive P blob 0
  return { keys, ssrc, index := 0, heartbeatTimestamp := 0 }

def protect (P : Primitives) (s : SrtpSender) (payload : List UInt8) (timestamp : UInt32)
    (pt : UInt8) : Except String (List UInt8) × SrtpSender :=
  if 2 ^ 48 ≤ s.index then (.error "SRTP sending key exhausted", s)
  else if 127 < pt ∨ (64 ≤ pt ∧ pt ≤ 95) ∨ 65507 - 22 < payload.length then
    (.error "Invalid RTP payload", s)
  else
    let out := rtpMessage P s.keys s.ssrc s.index payload timestamp pt
    (.ok (out ++ authTag P s.keys out (s.index >>> 16)), { s with index := s.index + 1 })

def audioHeartbeat (P : Primitives) (s : SrtpSender) : Except String (List UInt8) × SrtpSender :=
  match s.protect P [0, 0x68, 0x34, 0] s.heartbeatTimestamp 101 with
  | (.error e, s) => (.error e, s)
  | (.ok packet, s) =>
      (.ok packet, { s with heartbeatTimestamp := s.heartbeatTimestamp + 480 })

end SrtpSender

/-! ## Facts about the parts -/

@[simp] theorem length_applyKeystream (P : Primitives) (key iv bytes : List UInt8) :
    (applyKeystream P key iv bytes).length = bytes.length := by
  simp [applyKeystream]

theorem applyKeystream_applyKeystream (P : Primitives) (key iv bytes : List UInt8) :
    applyKeystream P key iv (applyKeystream P key iv bytes) = bytes := by
  apply List.ext_getElem
  · simp
  · intro i _ _
    simp only [applyKeystream, List.getElem_mapIdx]
    rw [UInt8.xor_assoc, UInt8.xor_self, UInt8.xor_zero]

@[simp] theorem length_crypt (P : Primitives) (k : Keys) (ssrc : UInt32) (index : Nat)
    (bytes : List UInt8) : (crypt P k ssrc index bytes).length = bytes.length := by
  simp [crypt]

theorem crypt_crypt (P : Primitives) (k : Keys) (ssrc : UInt32) (index : Nat)
    (bytes : List UInt8) : crypt P k ssrc index (crypt P k ssrc index bytes) = bytes :=
  applyKeystream_applyKeystream P _ _ _

theorem slice_eq_some {p : List UInt8} {first last : Nat} (h : first ≤ last)
    (hlen : last ≤ p.length) : slice p first last = some ((p.drop first).take (last - first)) := by
  rw [slice, if_pos ⟨h, hlen⟩]

/-- The guess never overflows on a 48-bit index. -/
theorem guessRoc_isSome (previous : Option Nat) (seq : UInt16)
    (h : ∀ v ∈ previous, v < 2 ^ 48) : ∃ guess, guessRoc previous seq = some guess := by
  cases previous with
  | none => exact ⟨0, rfl⟩
  | some v =>
      have hv := h v rfl
      have hroc : v >>> 16 + 1 < 2 ^ 64 := by
        rw [Nat.shiftRight_eq_div_pow]
        omega
      simp only [guessRoc, add64, if_pos hroc]
      split
      · exact ⟨_, rfl⟩
      · split
        · exact ⟨_, rfl⟩
        · exact ⟨_, rfl⟩

theorem and_shiftLeft_one_ne_zero (seen : BitVec 128) {age : Nat} (h : age < 128) :
    decide (seen &&& (1#128 <<< age) ≠ 0) = seen.getLsbD age := by
  have hbit : ∀ k, (seen &&& (1#128 <<< age)).getLsbD k = (seen.getLsbD k && decide (k = age)) := by
    intro k
    rw [BitVec.getLsbD_and, BitVec.getLsbD_shiftLeft, BitVec.getLsbD_one]
    by_cases hk : k = age
    · subst hk
      simp [h]
    · have hdiff : k < age ∨ k - age ≠ 0 := by omega
      rcases hdiff with hlt | hne
      · simp [hk, hlt]
      · simp [hk, hne]
  cases hage : seen.getLsbD age with
  | true =>
      rw [decide_eq_true_eq]
      intro hzero
      have := hbit age
      rw [hzero, hage] at this
      simp at this
  | false =>
      rw [decide_eq_false_iff_not, not_not]
      apply BitVec.eq_of_getLsbD_eq
      intro k _
      rw [hbit k]
      by_cases hk : k = age
      · simp [hk, hage]
      · simp [hk]

theorem replayed_some (s : ReceiveState) (index : Nat) :
    replayed (some s) index = some (s.refuses index) := by
  unfold replayed Window.refuses
  by_cases hle : index ≤ s.highest
  · simp only [hle, ↓reduceIte, sub64, Option.bind_eq_bind, Option.bind_some, decide_true,
      Bool.true_and]
    by_cases hage : 128 ≤ s.highest - index
    · simp [hage]
    · have hlt : s.highest - index < 128 := by omega
      have hmask := and_shiftLeft_one_ne_zero s.seen hlt
      simp only [hage, hlt, ↓reduceIte, shl128, Option.bind_some, decide_false, Bool.false_or]
      exact congrArg some hmask
  · simp [hle]

theorem replayed_eq (state : Option ReceiveState) (index : Nat) :
    replayed state index = some (state.any fun s => s.refuses index) := by
  cases state with
  | none => rfl
  | some s => exact replayed_some s index

/-- An admitted index is recorded without panic, as the window records it. -/
theorem acceptIndex_eq {s : ReceiveState} {index : Nat} (h : s.highest < index + 128) :
    acceptIndex s index = some (s.record index) := by
  unfold acceptIndex Window.record Window.advance
  by_cases hup : s.highest < index
  · have hsub : sub64 index s.highest = some (index - s.highest) := by
      rw [sub64, if_pos hup.le]
    simp only [if_pos hup, hsub, Option.bind_eq_bind, Option.bind_some]
    by_cases hfar : 128 ≤ index - s.highest
    · simp [hfar, sub64, shl128]
    · have hnear : index - s.highest < 128 := by omega
      simp [hfar, hnear, sub64, shl128]
  · have hage : s.highest - index < 128 := by omega
    simp [hup, sub64, shl128, hage, Nat.le_of_not_lt hup]

/-- After the replay test the accepting branch cannot panic. -/
theorem acceptIndex_getD {state : Option ReceiveState} {index : Nat}
    (h : state.any (fun s => s.refuses index) = false) :
    acceptIndex (state.getD (Window.fresh index)) index =
      some ((state.getD (Window.fresh index)).record index) := by
  apply acceptIndex_eq
  cases state with
  | none =>
      show index < index + 128
      omega
  | some s => exact Window.lt_of_refuses (by omega) h

end MacVnc.Media.Srtp

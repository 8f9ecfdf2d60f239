import MacVnc.Lib.CounterMode
import MacVnc.Media.SrtpRoundTrip
import Mathlib.Data.List.GetD
/-!
# No keystream is used twice

The senders of the media transport (`hp-media/src/srtp.rs`), now with the SRTCP
sender, over AES-256 in counter mode.  A packet index selects the slot of the
128-bit counter that its packet is encrypted in; no packet leaves its slot and
no index is used twice, so the counter blocks of a whole run are distinct.
-/

namespace MacVnc.Media.SrtpCounters

open MacVnc.Lib.Bytes
open MacVnc.Lib.CounterMode (counterBlocks Slot)
open MacVnc.Media.Srtp
open MacVnc.Media.SrtpReplay (fixtureBlob fixtureKeys fixtureStreams fixtureHmac)
open MacVnc.Media.SrtpRoundTrip (Call Sent sendAll sendAll_spec)

/-- AES-256 under a key, as the bytes of its encrypted counter blocks. -/
abbrev BlockCipher := List UInt8 → Nat → Nat → UInt8

/-- The library over this block cipher in counter mode. -/
def counterMode (aes : BlockCipher) (hmacSha1 : List UInt8 → List UInt8 → Vector UInt8 20) :
    Primitives :=
  { keystream := fun key iv => MacVnc.Lib.CounterMode.keystream (aes key) iv, hmacSha1 }

/-! ## The SRTCP sender -/

structure SrtcpSender where
  keys : Keys
  index : Nat
deriving DecidableEq

/-- The sender's SSRC in an RTCP packet. -/
def rtcpSsrc (p : List UInt8) : UInt32 := UInt32.ofNat (ofBigEndian ((p.drop 4).take 4))

/-- Header, encrypted body and index word, before the tag. -/
def rtcpMessage (P : Primitives) (k : Keys) (index : Nat) (p : List UInt8) : List UInt8 :=
  p.take 8 ++ crypt P k (rtcpSsrc p) index (p.drop 8) ++ toBigEndian 4 (0x80000000 ||| index)

namespace SrtcpSender

def new (P : Primitives) (blob : List UInt8) : Except String SrtcpSender := do
  let keys ← derive P blob 3
  return { keys, index := 0 }

def protect (P : Primitives) (s : SrtcpSender) (p : List UInt8) :
    Except String (List UInt8) × SrtcpSender :=
  if p.length < 8 ∨ 65535 - 14 < p.length ∨ 0x7fffffff ≤ s.index then
    (.error "Invalid RTCP packet or exhausted key", s)
  else
    let out := rtcpMessage P s.keys s.index p
    (.ok (out ++ (P.hmacSha1 s.keys.auth out).toList.take 10), { s with index := s.index + 1 })

end SrtcpSender

structure RtcpSent where
  index : Nat
  packet : List UInt8
  datagram : List UInt8
deriving DecidableEq

def sendAllRtcp (P : Primitives) (s : SrtcpSender) : List (List UInt8) → List RtcpSent
  | [] => []
  | packet :: packets =>
      match s.protect P packet with
      | (.error _, s) => sendAllRtcp P s packets
      | (.ok datagram, s') => { index := s.index, packet, datagram } :: sendAllRtcp P s' packets

/-- The datagram is the sender's encoding of the packet. -/
structure RtcpSent.Encodes (P : Primitives) (k : Keys) (d : RtcpSent) : Prop where
  index : d.index < 2 ^ 31
  size : d.packet.length ≤ 65535 - 14
  datagram : ∃ tag, d.datagram = rtcpMessage P k d.index d.packet ++ tag

theorem rtcp_protect_cases (P : Primitives) (s : SrtcpSender) (p : List UInt8) :
    (∃ e, s.protect P p = (.error e, s)) ∨
      ∃ datagram, s.protect P p = (.ok datagram, { s with index := s.index + 1 }) ∧
        RtcpSent.Encodes P s.keys { index := s.index, packet := p, datagram } := by
  unfold SrtcpSender.protect
  by_cases hrefused : p.length < 8 ∨ 65535 - 14 < p.length ∨ 0x7fffffff ≤ s.index
  · rw [if_pos hrefused]
    exact Or.inl ⟨_, rfl⟩
  · rw [if_neg hrefused]
    rw [not_or, not_or, Nat.not_lt, Nat.not_lt, Nat.not_le] at hrefused
    obtain ⟨_, hsize, hindex⟩ := hrefused
    refine Or.inr ⟨_, rfl, ?_, hsize, _, rfl⟩
    show s.index < 2 ^ 31
    omega

/-- Every datagram of a run encodes its packet, and an index names one datagram. -/
theorem sendAllRtcp_spec (P : Primitives) (s : SrtcpSender) (packets : List (List UInt8)) :
    (∀ d ∈ sendAllRtcp P s packets, d.Encodes P s.keys ∧ s.index ≤ d.index) ∧
      (sendAllRtcp P s packets).Pairwise fun d e => d.index < e.index := by
  induction packets generalizing s with
  | nil => exact ⟨by simp [sendAllRtcp], List.Pairwise.nil⟩
  | cons packet packets ih =>
      unfold sendAllRtcp
      rcases rtcp_protect_cases P s packet with ⟨e, hfail⟩ | ⟨datagram, hok, hencodes⟩
      · rw [hfail]
        exact ih s
      · rw [hok]
        obtain ⟨hlater, hpairs⟩ := ih { s with index := s.index + 1 }
        constructor
        · intro d hd
          rcases List.mem_cons.1 hd with rfl | hrest
          · exact ⟨hencodes, Nat.le_refl _⟩
          · have hindex := (hlater d hrest).2
            dsimp only at hindex
            exact ⟨(hlater d hrest).1, by omega⟩
        · apply List.pairwise_cons.2 ⟨fun d hd => ?_, hpairs⟩
          exact (hlater d hd).2

/-! ## The slots of the packets -/

theorem length_xorAt (off : Nat) (bytes buffer : List UInt8) :
    (xorAt off bytes buffer).length = buffer.length := by
  simp [xorAt]

theorem getD_xorAt (off : Nat) (bytes buffer : List UInt8) {i : Nat} (hi : i < buffer.length) :
    (xorAt off bytes buffer).getD i 0 =
      if off ≤ i then buffer.getD i 0 ^^^ bytes.getD (i - off) 0 else buffer.getD i 0 := by
  simp [xorAt, List.getD_eq_getElem?_getD, hi]

theorem length_salt {P : Primitives} {blob : List UInt8} {label : UInt8} {k : Keys}
    (h : derive P blob label = .ok k) : k.salt.length = 14 := by
  unfold derive at h
  split at h
  · cases h
  · rw [← Except.ok.inj h]
    show (kdf P blob (label + 2) 14).length = 14
    rw [kdf, length_applyKeystream, List.length_replicate]

section Iv

variable {k : Keys} (hsalt : k.salt.length = 14)
include hsalt

theorem length_packetIv (ssrc : UInt32) (index : Nat) : (packetIv k ssrc index).length = 16 := by
  simp [packetIv, length_xorAt, hsalt]

/-- Behind the place of the SSRC the counter block is salted index bytes. -/
theorem getD_packetIv (ssrc : UInt32) (index : Nat) {i : Nat} (hlow : 8 ≤ i) (hi : i < 16) :
    (packetIv k ssrc index).getD i 0 =
      (k.salt ++ [0, 0]).getD i 0 ^^^ (toBigEndian 8 index).getD (i - 6) 0 := by
  have hpast : (toBigEndian 4 ssrc.toNat).getD (i - 4) 0 = 0 :=
    List.getD_eq_default _ _ (by simp; omega)
  unfold packetIv
  rw [getD_xorAt _ _ _ (by simp [length_xorAt, hsalt]; omega), if_pos (by omega),
    getD_xorAt _ _ _ (by simp [hsalt]; omega), if_pos (by omega), hpast, UInt8.xor_zero]

theorem packetIv_slot (ssrc : UInt32) (index : Nat) : Slot (packetIv k ssrc index) := by
  have hlength := length_packetIv hsalt ssrc index
  have hpad : (packetIv k ssrc index).drop 14 = [0, 0] := by
    apply List.ext_getElem
    · simp [hlength]
    · intro i hi hi'
      have hbyte := getD_packetIv hsalt ssrc index (i := 14 + i) (by omega) (by simp at hi'; omega)
      have hindex : (toBigEndian 8 index).getD (14 + i - 6) 0 = 0 :=
        List.getD_eq_default _ _ (by simp; omega)
      rw [hindex, UInt8.xor_zero, List.getD_append_right _ _ _ _ (by omega), hsalt,
        Nat.add_sub_cancel_left] at hbyte
      rw [List.getElem_drop, ← List.getD_eq_getElem _ 0, hbyte, List.getD_eq_getElem _ 0]
  refine ⟨hlength, ?_⟩
  have hwidth : 256 ^ ([0, 0] : List UInt8).length = 2 ^ 16 := by norm_num
  have hzero : ofBigEndian [0, 0] = 0 := rfl
  rw [← List.take_append_drop 14 (packetIv k ssrc index), hpad, ofBigEndian_append, hwidth,
    hzero, Nat.add_zero, Nat.mul_mod_left]

/-- The slot tells the index, whatever the SSRC. -/
theorem index_of_packetIv {ssrc ssrc' : UInt32} {index index' : Nat} (hindex : index < 2 ^ 48)
    (hindex' : index' < 2 ^ 48)
    (h : ofBigEndian (packetIv k ssrc index) = ofBigEndian (packetIv k ssrc' index')) :
    index = index' := by
  have hsame : packetIv k ssrc index = packetIv k ssrc' index' := by
    apply ofBigEndian_inj _ h
    rw [length_packetIv hsalt, length_packetIv hsalt]
  have hlow : toBigEndian 6 index = toBigEndian 6 index' := by
    apply List.ext_getElem
    · simp
    · intro i hi hi'
      rw [length_toBigEndian] at hi
      have hbyte := getD_packetIv hsalt ssrc index (i := i + 8) (by omega) (by omega)
      rw [hsame, getD_packetIv hsalt ssrc' index' (by omega) (by omega)] at hbyte
      have hdigit : ∀ n, (toBigEndian 6 n).getD i 0 = (toBigEndian 8 n).getD (i + 8 - 6) 0 := by
        intro n
        rw [← drop_toBigEndian 2 6 n, List.getD_eq_getElem?_getD, List.getElem?_drop,
          List.getD_eq_getElem?_getD]
        congr 2
        omega
      rw [← List.getD_eq_getElem _ 0, ← List.getD_eq_getElem _ 0, hdigit, hdigit]
      exact (UInt8.xor_right_inj _).1 hbyte.symm
  have hvalue := congrArg ofBigEndian hlow
  rwa [ofBigEndian_toBigEndian (by omega), ofBigEndian_toBigEndian (by omega)] at hvalue

end Iv

/-! ## Whole runs -/

def rtpBlocks (k : Keys) (ssrc : UInt32) (d : Sent) : List Nat :=
  counterBlocks (packetIv k ssrc d.index) d.payload.length

def rtcpBlocks (k : Keys) (d : RtcpSent) : List Nat :=
  counterBlocks (packetIv k (rtcpSsrc d.packet) d.index) (d.packet.drop 8).length

theorem rtp_blocks_nodup (P : Primitives) {s : SrtpSender} (hsalt : s.keys.salt.length = 14)
    (calls : List Call) : ((sendAll P s calls).flatMap (rtpBlocks s.keys s.ssrc)).Nodup := by
  obtain ⟨hencodes, hindices⟩ := sendAll_spec P s calls
  apply MacVnc.Lib.CounterMode.nodup_flatMap
  · exact fun d _ => packetIv_slot hsalt s.ssrc d.index
  · intro d hd
    have := (hencodes d hd).1.size
    omega
  · apply hindices.imp_of_mem
    intro d e hd he hlt heq
    have := index_of_packetIv hsalt (hencodes d hd).1.index (hencodes e he).1.index heq
    omega

theorem rtcp_blocks_nodup (P : Primitives) {s : SrtcpSender} (hsalt : s.keys.salt.length = 14)
    (packets : List (List UInt8)) :
    ((sendAllRtcp P s packets).flatMap (rtcpBlocks s.keys)).Nodup := by
  obtain ⟨hencodes, hindices⟩ := sendAllRtcp_spec P s packets
  apply MacVnc.Lib.CounterMode.nodup_flatMap
  · exact fun d _ => packetIv_slot hsalt (rtcpSsrc d.packet) d.index
  · intro d hd
    have hsize := (hencodes d hd).1.size
    rw [List.length_drop]
    omega
  · apply hindices.imp_of_mem
    intro d e hd he hlt heq
    have hbound := (hencodes d hd).1.index
    have hbound' := (hencodes e he).1.index
    have := index_of_packetIv hsalt (by omega) (by omega) heq
    omega

theorem audioHeartbeat_error {P : Primitives} {s : SrtpSender} {e : String}
    (h : (s.audioHeartbeat P).1 = .error e) : (s.audioHeartbeat P).2 = s := by
  unfold SrtpSender.audioHeartbeat at h ⊢
  rcases MacVnc.Media.SrtpRoundTrip.protect_cases P s [0, 0x68, 0x34, 0] s.heartbeatTimestamp 101
    with ⟨reason, hfail⟩ | ⟨datagram, hok, _⟩
  · rw [hfail]
  · rw [hok] at h
    cases h

/-- Whatever is sent, every packet is encrypted under the counter blocks of its
index, the counter blocks of a whole run are pairwise distinct, and a rejected call
changes no sender. -/
theorem senders_never_reuse_keystream (aes : BlockCipher)
    (hmac : List UInt8 → List UInt8 → Vector UInt8 20) (blob : List UInt8) :
    let P := counterMode aes hmac
    (∀ ssrc s, SrtpSender.new P blob ssrc = .ok s → ∀ calls,
      (∀ d ∈ sendAll P s calls, ∃ header tag, d.datagram = header ++
        MacVnc.Lib.CounterMode.encrypt (aes s.keys.cipher)
          (packetIv s.keys ssrc d.index) d.payload ++ tag) ∧
      ((sendAll P s calls).flatMap (rtpBlocks s.keys ssrc)).Nodup) ∧
    (∀ s, SrtcpSender.new P blob = .ok s → ∀ packets,
      (∀ d ∈ sendAllRtcp P s packets, ∃ tag, d.datagram = d.packet.take 8 ++
        MacVnc.Lib.CounterMode.encrypt (aes s.keys.cipher)
          (packetIv s.keys (rtcpSsrc d.packet) d.index) (d.packet.drop 8) ++ tag) ∧
      ((sendAllRtcp P s packets).flatMap (rtcpBlocks s.keys)).Nodup) ∧
    (∀ s payload timestamp pt e, (SrtpSender.protect P s payload timestamp pt).1 = .error e →
      (SrtpSender.protect P s payload timestamp pt).2 = s) ∧
    (∀ s e, (SrtpSender.audioHeartbeat P s).1 = .error e → (s.audioHeartbeat P).2 = s) ∧
    ∀ s p e, (SrtcpSender.protect P s p).1 = .error e → (SrtcpSender.protect P s p).2 = s := by
  intro P
  refine ⟨?_, ?_, ?_, fun s e => audioHeartbeat_error, ?_⟩
  · intro ssrc s hnew calls
    unfold SrtpSender.new at hnew
    cases hkeys : derive P blob 0 with
    | error e =>
        rw [hkeys] at hnew
        cases hnew
    | ok k =>
        rw [hkeys] at hnew
        cases hnew
        refine ⟨fun d hd => ?_, rtp_blocks_nodup P (length_salt hkeys) calls⟩
        have hdatagram := ((sendAll_spec P _ calls).1 d hd).1.datagram
        exact ⟨_, _, hdatagram⟩
  · intro s hnew packets
    unfold SrtcpSender.new at hnew
    cases hkeys : derive P blob 3 with
    | error e =>
        rw [hkeys] at hnew
        cases hnew
    | ok k =>
        rw [hkeys] at hnew
        cases hnew
        refine ⟨fun d hd => ?_, rtcp_blocks_nodup P (length_salt hkeys) packets⟩
        obtain ⟨tag, hdatagram⟩ := ((sendAllRtcp_spec P _ packets).1 d hd).1.datagram
        refine ⟨toBigEndian 4 (0x80000000 ||| d.index) ++ tag, hdatagram.trans ?_⟩
        unfold rtcpMessage
        rw [List.append_assoc]
        rfl
  · intro s payload timestamp pt e h
    rcases MacVnc.Media.SrtpRoundTrip.protect_cases P s payload timestamp pt with
      ⟨reason, hfail⟩ | ⟨datagram, hok, _⟩
    · rw [hfail]
    · rw [hok] at h
      cases h
  · intro s p e h
    rcases rtcp_protect_cases P s p with ⟨reason, hfail⟩ | ⟨datagram, hok, _⟩
    · rw [hfail]
    · rw [hok] at h
      cases h

/-! ## Example -/

/-- AES-256 on the counter blocks of the heartbeats' streams. -/
def fixtureAes : BlockCipher := fun key block i =>
  match fixtureStreams.find? fun stream =>
      stream.1.1 = key && ofBigEndian stream.1.2 ≤ block && block < ofBigEndian stream.1.2 + 2 with
  | some stream => stream.2.getD ((block - ofBigEndian stream.1.2) * 16 + i) 0
  | none => 0

theorem senders_never_reuse_keystream_fixture :
    SrtpSender.new (counterMode fixtureAes fixtureHmac) fixtureBlob 7 =
        .ok { keys := fixtureKeys, ssrc := 7, index := 0, heartbeatTimestamp := 0 } ∧
      ((sendAll (counterMode fixtureAes fixtureHmac)
        { keys := fixtureKeys, ssrc := 7, index := 0, heartbeatTimestamp := 0 }
        [.audioHeartbeat, .protect [] 0 200, .audioHeartbeat]).flatMap
          (rtpBlocks fixtureKeys 7)).Nodup := by
  have hkeys : derive (counterMode fixtureAes fixtureHmac) fixtureBlob 0 = .ok fixtureKeys := by
    decide +kernel
  have hnew : SrtpSender.new (counterMode fixtureAes fixtureHmac) fixtureBlob 7 =
      .ok { keys := fixtureKeys, ssrc := 7, index := 0, heartbeatTimestamp := 0 } := by
    rw [SrtpSender.new, hkeys]
    rfl
  exact ⟨hnew, ((senders_never_reuse_keystream fixtureAes fixtureHmac fixtureBlob).1 7 _ hnew
    [.audioHeartbeat, .protect [] 0 200, .audioHeartbeat]).2⟩

end MacVnc.Media.SrtpCounters

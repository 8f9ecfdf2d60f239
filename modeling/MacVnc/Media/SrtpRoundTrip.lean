import MacVnc.Media.SrtpReplay
import Mathlib.Data.List.MinMax
/-!
# The SRTP round trip over an unreliable network

Datagrams of one sender reach a receiver with the same key in any order, with
losses and duplicates.  As long as every index stays near the highest one
accepted, the receiver reads the rollover counter the sender used, so it accepts
exactly the new packets above the lower edge of its window and returns what the
sender was given.
-/

namespace MacVnc.Media.SrtpRoundTrip

open MacVnc.Lib.Bytes
open MacVnc.Lib.ReplayWindow
open MacVnc.Media.Srtp
open MacVnc.Media.SrtpReplay (fixture fixtureBlob fixtureKeys fixtureReceiver fixtureHeartbeats
  new_fixture)

/-! ## The sender's run -/

inductive Call where
  | protect (payload : List UInt8) (timestamp : UInt32) (pt : UInt8)
  | audioHeartbeat
deriving DecidableEq

/-- A datagram with its packet index and what the sender was given for it. -/
structure Sent where
  index : Nat
  timestamp : UInt32
  pt : UInt8
  payload : List UInt8
  datagram : List UInt8
deriving DecidableEq

def Call.perform (P : Primitives) (s : SrtpSender) : Call → Option Sent × SrtpSender
  | .protect payload timestamp pt =>
      match s.protect P payload timestamp pt with
      | (.error _, s') => (none, s')
      | (.ok datagram, s') => (some { index := s.index, timestamp, pt, payload, datagram }, s')
  | .audioHeartbeat =>
      match s.audioHeartbeat P with
      | (.error _, s') => (none, s')
      | (.ok datagram, s') =>
          (some
            { index := s.index
              timestamp := s.heartbeatTimestamp
              pt := 101
              payload := [0, 0x68, 0x34, 0]
              datagram }, s')

def sendAll (P : Primitives) (s : SrtpSender) : List Call → List Sent
  | [] => []
  | call :: calls =>
      let (sent, s) := call.perform P s
      sent.toList ++ sendAll P s calls

def Sent.packet (d : Sent) (ssrc : UInt32) : RtpPacket :=
  { ssrc
    seq := UInt16.ofNat d.index
    timestamp := d.timestamp
    marker := false
    pt := d.pt
    payload := d.payload }

structure Sent.Encodes (P : Primitives) (k : Keys) (ssrc : UInt32) (d : Sent) : Prop where
  index : d.index < 2 ^ 48
  pt : d.pt ≤ 127
  media : ¬(64 ≤ d.pt ∧ d.pt ≤ 95)
  size : d.payload.length ≤ 65507 - 22
  datagram : d.datagram =
    rtpMessage P k ssrc d.index d.payload d.timestamp d.pt ++
      authTag P k (rtpMessage P k ssrc d.index d.payload d.timestamp d.pt) (d.index >>> 16)

/-- What `protect` can do: fail without effect, or encode at the current index
and move to the next. -/
theorem protect_cases (P : Primitives) (s : SrtpSender) (payload : List UInt8)
    (timestamp : UInt32) (pt : UInt8) :
    (∃ e, s.protect P payload timestamp pt = (.error e, s)) ∨
      ∃ datagram, s.protect P payload timestamp pt =
          (.ok datagram, { s with index := s.index + 1 }) ∧
        Sent.Encodes P s.keys s.ssrc { index := s.index, timestamp, pt, payload, datagram } := by
  unfold SrtpSender.protect
  by_cases hindex : 2 ^ 48 ≤ s.index
  · rw [if_pos hindex]
    exact Or.inl ⟨_, rfl⟩
  rw [if_neg hindex]
  by_cases hpayload : 127 < pt ∨ (64 ≤ pt ∧ pt ≤ 95) ∨ 65507 - 22 < payload.length
  · rw [if_pos hpayload]
    exact Or.inl ⟨_, rfl⟩
  rw [if_neg hpayload]
  have hpt : ¬127 < pt := fun h => hpayload (Or.inl h)
  have hmedia : ¬(64 ≤ pt ∧ pt ≤ 95) := fun h => hpayload (Or.inr (Or.inl h))
  have hsize : ¬65507 - 22 < payload.length := fun h => hpayload (Or.inr (Or.inr h))
  refine Or.inr ⟨_, rfl, ?_, UInt8.not_lt.1 hpt, hmedia, ?_, rfl⟩
  · exact Nat.not_le.1 hindex
  · exact Nat.not_lt.1 hsize

theorem perform_spec (P : Primitives) (s : SrtpSender) (call : Call) :
    (call.perform P s).2.keys = s.keys ∧ (call.perform P s).2.ssrc = s.ssrc ∧
      s.index ≤ (call.perform P s).2.index ∧
      ∀ d ∈ (call.perform P s).1, d.Encodes P s.keys s.ssrc ∧ d.index = s.index ∧
        (call.perform P s).2.index = s.index + 1 := by
  cases call with
  | protect payload timestamp pt =>
      rcases protect_cases P s payload timestamp pt with ⟨e, hfail⟩ | ⟨datagram, hok, henc⟩
      · simp [Call.perform, hfail]
      · simp [Call.perform, hok, henc]
  | audioHeartbeat =>
      rcases protect_cases P s [0, 0x68, 0x34, 0] s.heartbeatTimestamp 101 with
        ⟨e, hfail⟩ | ⟨datagram, hok, henc⟩
      · simp [Call.perform, SrtpSender.audioHeartbeat, hfail]
      · simp [Call.perform, SrtpSender.audioHeartbeat, hok, henc]

/-- Every datagram of a run encodes what the sender was given, and an index
names one datagram. -/
theorem sendAll_spec (P : Primitives) (s : SrtpSender) (calls : List Call) :
    (∀ d ∈ sendAll P s calls, d.Encodes P s.keys s.ssrc ∧ s.index ≤ d.index) ∧
      (sendAll P s calls).Pairwise fun d e => d.index < e.index := by
  induction calls generalizing s with
  | nil => exact ⟨by simp [sendAll], List.Pairwise.nil⟩
  | cons call calls ih =>
      obtain ⟨hkeys, hssrc, hindex, hsent⟩ := perform_spec P s call
      obtain ⟨henc, hpair⟩ := ih (call.perform P s).2
      rw [hkeys, hssrc] at henc
      have hunfold : sendAll P s (call :: calls) =
          (call.perform P s).1.toList ++ sendAll P (call.perform P s).2 calls := rfl
      cases hd : (call.perform P s).1 with
      | none =>
          rw [hunfold, hd]
          refine ⟨fun d hmem => ?_, hpair⟩
          have := henc d hmem
          exact ⟨this.1, by omega⟩
      | some d =>
          obtain ⟨hfirst, hat, hnext⟩ := hsent d hd
          rw [hunfold, hd]
          constructor
          · intro e hmem
            rcases List.mem_cons.1 hmem with rfl | hlater
            · exact ⟨hfirst, by omega⟩
            · have := henc e hlater
              exact ⟨this.1, by omega⟩
          · apply List.pairwise_cons.2 ⟨fun e hlater => ?_, hpair⟩
            have := (henc e hlater).2
            omega

/-! ## One datagram at the receiver -/

theorem shiftRight_or_eq (index : Nat) :
    index >>> 16 <<< 16 ||| (UInt16.ofNat index).toNat = index := by
  rw [UInt16.toNat_ofNat', ← Nat.shiftLeft_add_eq_or_of_lt (Nat.mod_lt _ (by omega)),
    Nat.shiftLeft_eq, Nat.shiftRight_eq_div_pow]
  omega

/-- An index less than 2 ^ 15 away from the highest one is guessed right, on both
sides of a wrap. -/
theorem guessRoc_near {highest index : Nat} (hhigh : highest < 2 ^ 48)
    (hup : index < highest + 2 ^ 15) (hdown : highest < index + 2 ^ 15) :
    guessRoc (some highest) (UInt16.ofNat index) = some (index >>> 16) := by
  have hroc : highest / 2 ^ 16 + 1 < 2 ^ 64 := by omega
  simp only [guessRoc, add64, UInt16.toNat_ofNat', Nat.shiftRight_eq_div_pow, if_pos hroc]
  split
  · congr 1
    omega
  · split
    · congr 1
      omega
    · congr 1
      omega

theorem and_127_of_le {pt : UInt8} (h : pt ≤ 127) : pt &&& 127 = pt := by
  apply UInt8.toNat_inj.1
  have hle : pt.toNat ≤ 127 := UInt8.le_iff_toNat_le.1 h
  rw [UInt8.toNat_and, show (127 : UInt8).toNat = 2 ^ 7 - 1 from rfl,
    Nat.and_two_pow_sub_one_eq_mod]
  omega

theorem and_128_of_le {pt : UInt8} (h : pt ≤ 127) : pt &&& 128 = 0 := by
  rw [← and_127_of_le h, UInt8.and_assoc]
  exact UInt8.and_zero

theorem slice_append {p a b c : List UInt8} {first last : Nat} (hp : p = a ++ b ++ c)
    (hfirst : first = a.length) (hlast : last = a.length + b.length) :
    slice p first last = some b := by
  subst hp hfirst hlast
  rw [slice_eq_some (by omega) (by simp), List.append_assoc, List.drop_left,
    Nat.add_sub_cancel_left, List.take_left]

section Encoded

variable {P : Primitives} {k : Keys} {ssrc : UInt32} {d : Sent}

@[simp] theorem length_rtpMessage (index : Nat) (payload : List UInt8) (timestamp : UInt32)
    (pt : UInt8) :
    (rtpMessage P k ssrc index payload timestamp pt).length = 12 + payload.length := by
  simp [rtpMessage, rtpHeader]
  omega

@[simp] theorem length_authTag (message : List UInt8) (roc : Nat) :
    (authTag P k message roc).length = 10 := by
  simp [authTag]

theorem Sent.Encodes.length_datagram (h : d.Encodes P k ssrc) :
    d.datagram.length = 22 + d.payload.length := by
  rw [h.datagram, List.length_append, length_rtpMessage, length_authTag]
  omega

theorem Sent.Encodes.layout (h : d.Encodes P k ssrc) :
    d.datagram = 0x80 :: d.pt :: (toBigEndian 2 d.index ++ (toBigEndian 4 d.timestamp.toNat ++
      (toBigEndian 4 ssrc.toNat ++ (crypt P k ssrc d.index d.payload ++
        authTag P k (rtpMessage P k ssrc d.index d.payload d.timestamp d.pt)
          (d.index >>> 16))))) := by
  rw [h.datagram]
  simp [rtpMessage, rtpHeader]

theorem Sent.Encodes.slice_seq (h : d.Encodes P k ssrc) :
    slice d.datagram 2 4 = some (toBigEndian 2 d.index) := by
  rw [h.layout]
  exact slice_append (a := [0x80, d.pt]) rfl rfl (by simp)

theorem Sent.Encodes.slice_time (h : d.Encodes P k ssrc) :
    slice d.datagram 4 8 = some (toBigEndian 4 d.timestamp.toNat) := by
  rw [h.layout]
  exact slice_append (a := [0x80, d.pt] ++ toBigEndian 2 d.index)
    (b := toBigEndian 4 d.timestamp.toNat) (by simp; rfl) (by simp) (by simp)

theorem Sent.Encodes.slice_ssrc (h : d.Encodes P k ssrc) :
    slice d.datagram 8 12 = some (toBigEndian 4 ssrc.toNat) := by
  rw [h.layout]
  exact slice_append
    (a := [0x80, d.pt] ++ toBigEndian 2 d.index ++ toBigEndian 4 d.timestamp.toNat)
    (b := toBigEndian 4 ssrc.toNat) (by simp; rfl) (by simp) (by simp)

theorem Sent.Encodes.slice_body (h : d.Encodes P k ssrc) :
    slice d.datagram 12 (d.datagram.length - 10) = some (crypt P k ssrc d.index d.payload) := by
  rw [h.length_datagram, h.layout]
  exact slice_append
    (a := [0x80, d.pt] ++ toBigEndian 2 d.index ++ toBigEndian 4 d.timestamp.toNat ++
      toBigEndian 4 ssrc.toNat)
    (b := crypt P k ssrc d.index d.payload) (by simp; rfl) (by simp) (by simp; omega)

theorem Sent.Encodes.tag (h : d.Encodes P k ssrc) :
    authTag P k (d.datagram.take (d.datagram.length - 10)) (d.index >>> 16) =
      d.datagram.drop (d.datagram.length - 10) := by
  have hlen : d.datagram.length - 10 =
      (rtpMessage P k ssrc d.index d.payload d.timestamp d.pt).length := by
    rw [h.length_datagram, length_rtpMessage]
    omega
  rw [hlen, h.datagram, List.take_left, List.drop_left]

theorem Sent.Encodes.isRtcp (h : d.Encodes P k ssrc) : isRtcp d.datagram = false := by
  rw [h.layout]
  have hmedia := h.media
  simp only [Srtp.isRtcp, and_127_of_le h.pt, Bool.and_eq_false_iff, decide_eq_false_iff_not]
  by_cases hlow : 64 ≤ d.pt
  · exact Or.inr fun hhigh => hmedia ⟨hlow, hhigh⟩
  · exact Or.inl hlow

/-- With the right guess the receiver refuses a sender's datagram or returns
exactly what the sender was given, as its window decides. -/
theorem unprotect_sent (h : d.Encodes P k ssrc) {r : SrtpReceiver} (hkeys : r.keys = k)
    (hguess : guessRoc ((r.states.lookup ssrc).map Window.highest) (UInt16.ofNat d.index) =
      some (d.index >>> 16))
    (hroom : r.states.keys.length < 32) :
    r.unprotect P d.datagram =
      if (r.states.lookup ssrc).any (fun w => w.refuses d.index) = true then some (none, r)
      else some
        (some (d.packet ssrc),
          { r with
            states := r.states.insert ssrc
              (((r.states.lookup ssrc).getD (Window.fresh d.index)).record d.index) }) := by
  have hlen := h.length_datagram
  have hsize := h.size
  have hindex := h.index
  have hseq : UInt16.ofNat (ofBigEndian (toBigEndian 2 d.index)) = UInt16.ofNat d.index := by
    apply UInt16.toNat_inj.1
    rw [ofBigEndian_toBigEndian_mod, UInt16.toNat_ofNat', UInt16.toNat_ofNat']
    omega
  have hssrc : UInt32.ofNat (ofBigEndian (toBigEndian 4 ssrc.toNat)) = ssrc := by
    rw [ofBigEndian_toBigEndian ssrc.toNat_lt]
    exact UInt32.ofNat_toNat
  have htime : UInt32.ofNat (ofBigEndian (toBigEndian 4 d.timestamp.toNat)) = d.timestamp := by
    rw [ofBigEndian_toBigEndian d.timestamp.toNat_lt]
    exact UInt32.ofNat_toNat
  have hfirst : d.datagram[0]? = some 0x80 := by rw [h.layout]; rfl
  have hsecond : d.datagram[1]? = some d.pt := by rw [h.layout]; rfl
  have hroc : ¬0xffffffff < d.index >>> 16 := by
    rw [Nat.shiftRight_eq_div_pow]
    omega
  have hoffset : payloadOffset d.datagram 0x80 (d.datagram.length - 10) = some (some 12) := by
    have hcount : (0x80 : UInt8).toNat &&& 15 = 0 := rfl
    have hext : ¬(0x80 : UInt8) &&& 16 ≠ 0 := by decide
    unfold payloadOffset
    rw [hcount, if_neg hext, if_neg (by omega)]
  unfold SrtpReceiver.unprotect
  rw [if_neg (by omega), hfirst, Option.bind_some, if_neg (by rw [h.isRtcp]; decide),
    h.slice_seq, Option.bind_some, h.slice_ssrc, Option.bind_some]
  generalize hsource : UInt32.ofNat (ofBigEndian (toBigEndian 4 ssrc.toNat)) = source
  generalize hnumber : UInt16.ofNat (ofBigEndian (toBigEndian 2 d.index)) = number
  rw [hssrc] at hsource
  rw [hseq] at hnumber
  subst hsource hnumber
  simp only [hguess, Option.bind_some, shiftRight_or_eq]
  rw [if_neg hroc]
  rw [replayed_eq, Option.bind_some]
  by_cases hrefused : (r.states.lookup ssrc).any (fun w => w.refuses d.index) = true
  · rw [if_pos hrefused, if_pos hrefused]
  rw [if_neg hrefused, if_neg hrefused, if_neg (by rw [hkeys]; exact not_not.2 h.tag), hoffset,
    Option.bind_some]
  simp only [h.slice_body, Option.bind_some]
  rw [hkeys, crypt_crypt]
  have hpad : stripPadding 0x80 d.payload = some d.payload := if_neg (by decide)
  simp only [hpad]
  rw [if_neg (fun hfull => Nat.not_lt.2 hfull.2 hroom),
    acceptIndex_getD (Bool.not_eq_true _ ▸ hrefused), Option.bind_some, h.slice_time,
    Option.bind_some, hsecond, Option.bind_some, htime, and_127_of_le h.pt, and_128_of_le h.pt]
  rfl

end Encoded

/-! ## The network -/

/-- A receiver and the datagrams it has accepted, newest first. -/
structure Link where
  receiver : SrtpReceiver
  accepted : List Sent

namespace Link

def start (receiver : SrtpReceiver) : Link := { receiver, accepted := [] }

/-- One delivery; `none` is a panic. -/
def deliver (P : Primitives) (link : Link) (d : Sent) : Option Link :=
  match link.receiver.unprotect P d.datagram with
  | none => none
  | some (none, receiver) => some { link with receiver }
  | some (some _, receiver) => some { receiver, accepted := d :: link.accepted }

def run (P : Primitives) (link : Link) : List Sent → Option Link
  | [] => some link
  | d :: rest =>
      match link.deliver P d with
      | none => none
      | some link => link.run P rest

def highest (link : Link) : Option Nat := (link.accepted.map Sent.index).max?

/-- What the network promises of the next datagram. -/
def near (link : Link) (d : Sent) : Bool :=
  match link.highest with
  | none => d.index < 2 ^ 16
  | some h => d.index < h + 2 ^ 15 && h < d.index + 2 ^ 15

/-- The promise along a whole delivery. -/
def admissible (P : Primitives) (link : Link) : List Sent → Bool
  | [] => true
  | d :: rest => link.near d &&
      match link.deliver P d with
      | none => true
      | some next => next.admissible P rest

/-- The receiver tracks only the sender's source, with a window that tracks the
accepted datagrams. -/
structure Invariant (k : Keys) (ssrc : UInt32) (sent : List Sent) (link : Link) : Prop where
  keys : link.receiver.keys = k
  only : ∀ source ∈ link.receiver.states.keys, source = ssrc
  accepted : ∀ d ∈ link.accepted, d ∈ sent
  highest : (link.receiver.states.lookup ssrc).map Window.highest = link.highest
  tracks : ∀ w, link.receiver.states.lookup ssrc = some w →
    w.Tracks (link.accepted.map Sent.index)

variable {P : Primitives} {k : Keys} {ssrc : UInt32} {sent : List Sent} {link : Link} {d : Sent}

theorem Invariant.room (h : link.Invariant k ssrc sent) :
    link.receiver.states.keys.length < 32 := by
  have hsub : link.receiver.states.keys ⊆ [ssrc] := by
    intro source hsource
    rw [h.only source hsource]
    exact List.mem_singleton_self ssrc
  have hone : link.receiver.states.keys.length ≤ 1 :=
    (List.subperm_of_subset link.receiver.states.nodupKeys hsub).length_le
  omega

/-- The receiver reads the rollover counter the sender used. -/
theorem Invariant.guess (h : link.Invariant k ssrc sent)
    (hsent : ∀ e ∈ sent, e.Encodes P k ssrc) (hnear : link.near d = true) :
    guessRoc ((link.receiver.states.lookup ssrc).map Window.highest) (UInt16.ofNat d.index) =
      some (d.index >>> 16) := by
  rw [h.highest]
  unfold near at hnear
  cases hhigh : link.highest with
  | none =>
      rw [hhigh] at hnear
      rw [guessRoc, Nat.shiftRight_eq_div_pow, Nat.div_eq_of_lt (of_decide_eq_true hnear)]
  | some v =>
      rw [hhigh] at hnear
      obtain ⟨hup, hdown⟩ := (Bool.and_eq_true _ _).mp hnear
      obtain ⟨e, he, rfl⟩ := List.mem_map.1 (List.max?_mem hhigh)
      exact guessRoc_near (hsent e (h.accepted e he)).index (of_decide_eq_true hup)
        (of_decide_eq_true hdown)

/-- The window refuses exactly what was accepted before or lies below its edge. -/
theorem Invariant.refuses_iff (h : link.Invariant k ssrc sent) (hd : d ∈ sent)
    (hdistinct : (sent.map Sent.index).Nodup) :
    (link.receiver.states.lookup ssrc).any (fun w => w.refuses d.index) = false ↔
      d ∉ link.accepted ∧ ∀ v ∈ link.highest, v < d.index + 128 := by
  have hunique : d.index ∈ link.accepted.map Sent.index ↔ d ∈ link.accepted := by
    constructor
    · intro hindex
      obtain ⟨e, he, heq⟩ := List.mem_map.1 hindex
      have hsame : e = d := List.inj_on_of_nodup_map hdistinct (h.accepted e he) hd heq
      rwa [← hsame]
    · exact List.mem_map_of_mem
  have hhigh := h.highest
  cases hstate : link.receiver.states.lookup ssrc with
  | none =>
      rw [hstate, Option.map_none] at hhigh
      have hnone : link.accepted = [] := by
        have := List.max?_eq_none_iff.1 hhigh.symm
        exact List.map_eq_nil_iff.1 this
      simp [← hhigh, hnone]
  | some w =>
      rw [hstate, Option.map_some] at hhigh
      rw [Option.any_some, (h.tracks w hstate).refuses_iff (by omega), hunique, ← hhigh, and_comm]
      simp

theorem Invariant.accept (h : link.Invariant k ssrc sent) (hd : d ∈ sent) :
    Invariant k ssrc sent
      { receiver :=
          { link.receiver with
            states := link.receiver.states.insert ssrc
              (((link.receiver.states.lookup ssrc).getD (Window.fresh d.index)).record d.index) }
        accepted := d :: link.accepted } := by
  have hhigh := h.highest
  unfold Link.highest at hhigh
  constructor
  · exact h.keys
  · intro source hsource
    rw [show _ = _ from AList.keys_insert _, List.mem_cons] at hsource
    rcases hsource with hsame | hold
    · exact hsame
    · exact h.only source (List.mem_of_mem_erase hold)
  · intro e he
    rcases List.mem_cons.1 he with rfl | hold
    · exact hd
    · exact h.accepted e hold
  · show ((AList.insert ssrc _ link.receiver.states).lookup ssrc).map _ = List.max? _
    rw [AList.lookup_insert, Option.map_some, Window.highest_record, List.map_cons, List.max?_cons,
      ← hhigh]
    cases hstate : link.receiver.states.lookup ssrc with
    | none => simp [Window.fresh]
    | some w => simp [Nat.max_comm]
  · intro w hw
    rw [show _ = _ from AList.lookup_insert _] at hw
    cases hw
    apply Window.Tracks.record
    cases hstate : link.receiver.states.lookup ssrc with
    | some w => exact h.tracks w hstate
    | none =>
        rw [hstate, Option.map_none] at hhigh
        rw [List.max?_eq_none_iff.1 hhigh.symm]
        exact Window.tracks_fresh d.index

/-- One delivery that the network promised: the receiver accepts it exactly when
it is new and above the edge, and returns what the sender was given. -/
theorem Invariant.deliver (h : link.Invariant k ssrc sent)
    (hsent : ∀ e ∈ sent, e.Encodes P k ssrc)
    (hdistinct : (sent.map Sent.index).Nodup) (hd : d ∈ sent)
    (hnear : link.near d = true) :
    ∃ next, link.deliver P d = some next ∧ next.Invariant k ssrc sent ∧
      ∃ out r', link.receiver.unprotect P d.datagram = some (out, r') ∧
        (out.isSome = true ↔ d ∉ link.accepted ∧ ∀ v ∈ link.highest, v < d.index + 128) ∧
        ∀ packet ∈ out, packet = d.packet ssrc := by
  have hstep := unprotect_sent (hsent d hd) h.keys (h.guess hsent hnear) h.room
  have haccepts := h.refuses_iff hd hdistinct
  unfold Link.deliver
  by_cases hrefused : (link.receiver.states.lookup ssrc).any (fun w => w.refuses d.index) = true
  · rw [if_pos hrefused] at hstep
    rw [hstep]
    refine ⟨link, rfl, h, none, _, rfl, ?_, by simp⟩
    rw [← haccepts, hrefused]
    simp
  · rw [if_neg hrefused] at hstep
    rw [hstep]
    refine ⟨_, rfl, ?_, some (d.packet ssrc), _, rfl, ?_, by simp⟩
    · exact h.accept hd
    · rw [← haccepts]
      simp [hrefused]

theorem Invariant.run (h : link.Invariant k ssrc sent)
    (hsent : ∀ e ∈ sent, e.Encodes P k ssrc) (hdistinct : (sent.map Sent.index).Nodup)
    {delivered : List Sent} (hmem : ∀ e ∈ delivered, e ∈ sent)
    (hadm : link.admissible P delivered = true) {before after : List Sent}
    (hsplit : delivered = before ++ d :: after) :
    ∃ reached, link.run P before = some reached ∧ reached.Invariant k ssrc sent ∧
      reached.near d = true := by
  induction before generalizing link delivered with
  | nil =>
      subst hsplit
      obtain ⟨hnear, -⟩ := (Bool.and_eq_true _ _).mp hadm
      exact ⟨link, rfl, h, hnear⟩
  | cons e before ih =>
      subst hsplit
      obtain ⟨hnear, hrest⟩ := (Bool.and_eq_true _ _).mp hadm
      obtain ⟨next, hnext, hinv, -⟩ := h.deliver hsent hdistinct (hmem e (by simp)) hnear
      rw [hnext] at hrest
      rw [Link.run, hnext]
      exact ih hinv (fun e he => hmem e (List.mem_cons_of_mem _ he)) hrest rfl

end Link

/-- Over any delivery order, losses and duplicates that keep each index near the
highest one accepted, a datagram is accepted exactly when it is new and less
than 128 below the highest, and then yields what the sender was given. -/
theorem unreliable_round_trip (P : Primitives) (blob : List UInt8) (ssrc : UInt32)
    (sender : SrtpSender) (receiver : SrtpReceiver)
    (hsender : SrtpSender.new P blob ssrc = .ok sender)
    (hreceiver : SrtpReceiver.new P blob = .ok receiver)
    (calls : List Call) (delivered : List Sent)
    (hmem : ∀ d ∈ delivered, d ∈ sendAll P sender calls)
    (hadm : (Link.start receiver).admissible P delivered = true)
    (before after : List Sent) (d : Sent) (hsplit : delivered = before ++ d :: after) :
    ∃ link, (Link.start receiver).run P before = some link ∧
      ∃ out r', link.receiver.unprotect P d.datagram = some (out, r') ∧
        (out.isSome = true ↔ d ∉ link.accepted ∧ ∀ v ∈ link.highest, v < d.index + 128) ∧
        ∀ packet ∈ out, packet = d.packet ssrc := by
  obtain ⟨keys, hs, hr⟩ : ∃ keys, sender = { keys, ssrc, index := 0, heartbeatTimestamp := 0 } ∧
      receiver = { keys, states := ∅ } := by
    unfold SrtpSender.new at hsender
    unfold SrtpReceiver.new at hreceiver
    cases hkeys : derive P blob 0 with
    | error e =>
        rw [hkeys] at hsender
        cases hsender
    | ok keys =>
        rw [hkeys] at hsender hreceiver
        cases hsender
        cases hreceiver
        exact ⟨keys, rfl, rfl⟩
  obtain ⟨henc, hpair⟩ := sendAll_spec P sender calls
  have hsent : ∀ e ∈ sendAll P sender calls, e.Encodes P keys ssrc := by
    intro e he
    have := (henc e he).1
    rwa [hs] at this
  have hdistinct : ((sendAll P sender calls).map Sent.index).Nodup :=
    List.pairwise_map.2 (hpair.imp fun hlt => Nat.ne_of_lt hlt)
  have hstart : (Link.start receiver).Invariant keys ssrc (sendAll P sender calls) := by
    rw [hr]
    constructor
    · rfl
    · intro source hsource
      cases hsource
    · intro e he
      cases he
    · rfl
    · intro w hw
      cases hw
  obtain ⟨link, hrun, hinv, hnear⟩ := hstart.run hsent hdistinct hmem hadm hsplit
  obtain ⟨_, _, _, hout⟩ := hinv.deliver hsent hdistinct (hmem d (by simp [hsplit])) hnear
  exact ⟨link, hrun, hout⟩

def fixtureSender : SrtpSender :=
  { keys := fixtureKeys, ssrc := 7, index := 0, heartbeatTimestamp := 0 }

def fixtureSent (i : Nat) (timestamp : UInt32) : Sent :=
  { index := i
    timestamp
    pt := 101
    payload := [0, 0x68, 0x34, 0]
    datagram := fixtureHeartbeats.getD i [] }

/-- The second heartbeat arrives first and once more at the end. -/
theorem unreliable_round_trip_fixture :
    ∃ link, (Link.start fixtureReceiver).run fixture [fixtureSent 1 480, fixtureSent 0 0] =
        some link ∧
      ∃ out r', link.receiver.unprotect fixture (fixtureSent 1 480).datagram = some (out, r') ∧
        (out.isSome = true ↔ fixtureSent 1 480 ∉ link.accepted ∧
          ∀ v ∈ link.highest, v < (fixtureSent 1 480).index + 128) ∧
        ∀ packet ∈ out, packet = (fixtureSent 1 480).packet 7 := by
  have hsender : SrtpSender.new fixture fixtureBlob 7 = .ok fixtureSender := by
    have hkeys : derive fixture fixtureBlob 0 = .ok fixtureKeys := by decide +kernel
    rw [SrtpSender.new, hkeys]
    rfl
  have hsent : sendAll fixture fixtureSender [.audioHeartbeat, .audioHeartbeat] =
      [fixtureSent 0 0, fixtureSent 1 480] := by
    decide +kernel
  apply unreliable_round_trip fixture fixtureBlob 7 fixtureSender fixtureReceiver hsender
    new_fixture [.audioHeartbeat, .audioHeartbeat]
    [fixtureSent 1 480, fixtureSent 0 0, fixtureSent 1 480] ?_ (by decide +kernel)
    [fixtureSent 1 480, fixtureSent 0 0] [] (fixtureSent 1 480) rfl
  intro d hd
  rw [hsent]
  simp only [List.mem_cons, List.not_mem_nil, or_false] at hd ⊢
  rcases hd with rfl | rfl | rfl
  · exact Or.inr rfl
  · exact Or.inl rfl
  · exact Or.inr rfl

end MacVnc.Media.SrtpRoundTrip

import MacVnc.Lib.WeightedMap
import MacVnc.Media.Srtp
/-!
# Replay protection of the SRTP receiver

What one call of `unprotect` can do on any datagram, and what holds of the
receiver after any sequence of datagrams.  The cipher and the authentication
tag are arbitrary functions throughout.
-/

namespace MacVnc.Media.SrtpReplay

open MacVnc.Lib.Bytes
open MacVnc.Lib.ReplayWindow
open MacVnc.Lib.WeightedMap (of_lookup_insert)
open MacVnc.Media.Srtp

/-! ## One call -/

/-- The packet index the receiver assigns to a sequence number of a source. -/
def packetIndex (r : SrtpReceiver) (ssrc : UInt32) (seq : UInt16) : Nat :=
  (guessRoc ((r.states.lookup ssrc).map Window.highest) seq).getD 0 <<< 16 ||| seq.toNat

def Bounded (r : SrtpReceiver) : Prop :=
  ∀ ssrc s, r.states.lookup ssrc = some s → s.highest < 2 ^ 48

/-- What an accepting call has checked and done. -/
structure Accepts (r : SrtpReceiver) (packet : RtpPacket) (r' : SrtpReceiver) : Prop where
  bound : packetIndex r packet.ssrc packet.seq < 2 ^ 48
  fresh : ∀ s, r.states.lookup packet.ssrc = some s →
    s.refuses (packetIndex r packet.ssrc packet.seq) = false
  room : r.states.lookup packet.ssrc = none → r.states.keys.length < 32
  after : r' =
    { r with
      states := r.states.insert packet.ssrc
        (((r.states.lookup packet.ssrc).getD
          (Window.fresh (packetIndex r packet.ssrc packet.seq))).record
          (packetIndex r packet.ssrc packet.seq)) }

theorem shiftLeft_or_lt {guess : Nat} (seq : UInt16) (h : guess ≤ 0xffffffff) :
    guess <<< 16 ||| seq.toNat < 2 ^ 48 := by
  have hseq : seq.toNat < 2 ^ 16 := seq.toNat_lt
  apply Nat.or_lt_two_pow
  · rw [Nat.shiftLeft_eq]
    omega
  · omega

theorem payloadOffset_isSome {p : List UInt8} (b0 : UInt8) {len : Nat} (hlen : len ≤ p.length) :
    ∃ offset, payloadOffset p b0 len = some offset ∧ ∀ off ∈ offset, off ≤ len := by
  unfold payloadOffset
  by_cases hext : b0 &&& 16 ≠ 0
  · simp only [if_pos hext]
    by_cases hshort : len < 12 + (b0.toNat &&& 15) * 4 + 4
    · exact ⟨none, by rw [if_pos hshort], by simp⟩
    · rw [if_neg hshort, slice_eq_some (by omega) (by omega)]
      refine ⟨_, rfl, ?_⟩
      intro off hoff
      split at hoff
      · simp at hoff
      · cases hoff
        omega
  · simp only [if_neg hext]
    refine ⟨_, rfl, ?_⟩
    intro off hoff
    split at hoff
    · simp at hoff
    · cases hoff
      omega

/-- A call never panics; it returns no packet and leaves the receiver unchanged,
or it accepts. -/
theorem unprotect_cases (P : Primitives) {r : SrtpReceiver} (hbounded : Bounded r)
    (p : List UInt8) :
    r.unprotect P p = some (none, r) ∨
      ∃ packet r', r.unprotect P p = some (some packet, r') ∧ Accepts r packet r' := by
  unfold SrtpReceiver.unprotect
  by_cases hlength : p.length < 22 ∨ 65535 < p.length
  · exact Or.inl (if_pos hlength)
  rw [if_neg hlength]
  have hlen : 22 ≤ p.length := by omega
  rw [List.getElem?_eq_getElem (by omega : 0 < p.length), Option.bind_some]
  by_cases hversion : p[0] >>> 6 ≠ 2 ∨ isRtcp p = true
  · exact Or.inl (if_pos hversion)
  rw [if_neg hversion, slice_eq_some (by omega) (by omega), Option.bind_some,
    slice_eq_some (by omega) (by omega), Option.bind_some]
  generalize UInt16.ofNat (ofBigEndian ((p.drop 2).take (4 - 2))) = seq
  generalize UInt32.ofNat (ofBigEndian ((p.drop 8).take (12 - 8))) = ssrc
  obtain ⟨guess, hguess⟩ :=
    guessRoc_isSome ((r.states.lookup ssrc).map Window.highest) seq (by
      intro v hv
      obtain ⟨s, hs, rfl⟩ := Option.map_eq_some_iff.1 hv
      exact hbounded ssrc s hs)
  have hindex : packetIndex r ssrc seq = guess <<< 16 ||| seq.toNat := by
    rw [packetIndex, hguess, Option.getD_some]
  simp only [hguess, Option.bind_some, ← hindex]
  by_cases hroc : 0xffffffff < guess
  · exact Or.inl (if_pos hroc)
  rw [if_neg hroc]
  have hbound : packetIndex r ssrc seq < 2 ^ 48 := by
    rw [hindex]
    exact shiftLeft_or_lt seq (by omega)
  rw [replayed_eq, Option.bind_some]
  by_cases hrefused :
      (r.states.lookup ssrc).any (fun s => s.refuses (packetIndex r ssrc seq)) = true
  · exact Or.inl (if_pos hrefused)
  rw [if_neg hrefused]
  rw [Bool.not_eq_true] at hrefused
  by_cases htag : authTag P r.keys (p.take (p.length - 10)) guess ≠ p.drop (p.length - 10)
  · exact Or.inl (if_pos htag)
  rw [if_neg htag]
  obtain ⟨offset, hoffset, hoff⟩ :=
    payloadOffset_isSome (p := p) p[0] (by omega : p.length - 10 ≤ p.length)
  rw [hoffset, Option.bind_some]
  cases offset with
  | none => exact Or.inl rfl
  | some off =>
      have hoff : off ≤ p.length - 10 := hoff off rfl
      simp only [slice_eq_some hoff (by omega : p.length - 10 ≤ p.length), Option.bind_some]
      cases hpad : stripPadding p[0] (crypt P r.keys ssrc (packetIndex r ssrc seq)
          ((p.drop off).take (p.length - 10 - off))) with
      | none => exact Or.inl rfl
      | some payload =>
          by_cases hfull : r.states.lookup ssrc = none ∧ 32 ≤ r.states.keys.length
          · exact Or.inl (if_pos hfull)
          simp only [if_neg hfull]
          rw [acceptIndex_getD hrefused, Option.bind_some,
            slice_eq_some (by omega) (by omega), Option.bind_some,
            List.getElem?_eq_getElem (by omega : 1 < p.length), Option.bind_some]
          refine Or.inr ⟨_, _, rfl, hbound, ?_, ?_, rfl⟩
          · intro s hs
            rwa [show r.states.lookup ssrc = some s from hs] at hrefused
          · intro hnone
            by_contra hroom
            exact hfull ⟨hnone, Nat.not_lt.1 hroom⟩

/-- An accepting call touches one source and never lowers a highest index. -/
theorem Accepts.highest_le {r r' : SrtpReceiver} {packet : RtpPacket} (h : Accepts r packet r')
    {ssrc : UInt32} {w : ReceiveState} (hw : r.states.lookup ssrc = some w) :
    ∃ w', r'.states.lookup ssrc = some w' ∧ w.highest ≤ w'.highest := by
  rw [h.after]
  by_cases hsame : ssrc = packet.ssrc
  · subst hsame
    refine ⟨_, AList.lookup_insert _, ?_⟩
    rw [hw, Option.getD_some, Window.highest_record]
    omega
  · exact ⟨w, by rw [AList.lookup_insert_ne hsame, hw], le_refl _⟩

theorem Bounded.accept {r r' : SrtpReceiver} {packet : RtpPacket} (h : Bounded r)
    (ha : Accepts r packet r') : Bounded r' := by
  have hbound := ha.bound
  rw [ha.after]
  intro ssrc w hw
  rcases of_lookup_insert hw with ⟨rfl, rfl⟩ | ⟨-, hold⟩
  · rw [Window.highest_record]
    cases hstate : r.states.lookup packet.ssrc with
    | none =>
        show max (packetIndex r packet.ssrc packet.seq) _ < 2 ^ 48
        exact max_lt hbound hbound
    | some w =>
        have := h _ w hstate
        rw [Option.getD_some]
        omega
  · exact h ssrc w hold

/-! ## Runs -/

/-- A receiver and the packets it has accepted so far, newest first. -/
structure Session where
  receiver : SrtpReceiver
  accepted : List (UInt32 × Nat)

namespace Session

def start (receiver : SrtpReceiver) : Session := { receiver, accepted := [] }

/-- One datagram; `none` is a panic. -/
def receive (P : Primitives) (s : Session) (p : List UInt8) : Option Session :=
  match s.receiver.unprotect P p with
  | none => none
  | some (none, receiver) => some { s with receiver }
  | some (some packet, receiver) => some
      { receiver
        accepted := (packet.ssrc, packetIndex s.receiver packet.ssrc packet.seq) :: s.accepted }

def run (P : Primitives) (s : Session) : List (List UInt8) → Option Session
  | [] => some s
  | p :: rest =>
      match s.receive P p with
      | none => none
      | some s => s.run P rest

def indices (s : Session) (ssrc : UInt32) : List Nat :=
  (s.accepted.filter fun entry => entry.1 == ssrc).map Prod.snd

theorem mem_indices {s : Session} {ssrc : UInt32} {index : Nat} :
    index ∈ s.indices ssrc ↔ (ssrc, index) ∈ s.accepted := by
  unfold indices
  constructor
  · intro h
    obtain ⟨⟨source, i⟩, hmem, rfl⟩ := List.mem_map.1 h
    obtain ⟨hmem, heq⟩ := List.mem_filter.1 hmem
    rwa [← eq_of_beq heq]
  · intro h
    exact List.mem_map.2 ⟨_, List.mem_filter.2 ⟨h, beq_self_eq_true ssrc⟩, rfl⟩

/-- What holds after every run: the table is small, the accepted packets are
distinct and belong to known sources, and every window tracks its source. -/
structure Invariant (s : Session) : Prop where
  sources : s.receiver.states.keys.length ≤ 32
  bounded : Bounded s.receiver
  nodup : s.accepted.Nodup
  known : ∀ entry ∈ s.accepted, s.receiver.states.lookup entry.1 ≠ none
  tracks : ∀ ssrc w, s.receiver.states.lookup ssrc = some w → w.Tracks (s.indices ssrc)

theorem invariant_start {P : Primitives} {blob : List UInt8} {r : SrtpReceiver}
    (hnew : SrtpReceiver.new P blob = .ok r) : (start r).Invariant := by
  have hstates : r.states = ∅ := by
    unfold SrtpReceiver.new at hnew
    cases hkeys : derive P blob 0 with
    | error e =>
        rw [hkeys] at hnew
        cases hnew
    | ok keys =>
        rw [hkeys] at hnew
        cases hnew
        rfl
  constructor
  · show r.states.keys.length ≤ 32
    rw [hstates, AList.keys_empty]
    exact Nat.zero_le 32
  · intro ssrc w hw
    rw [show (start r).receiver = r from rfl, hstates, AList.lookup_empty] at hw
    cases hw
  · exact List.nodup_nil
  · intro entry hentry
    cases hentry
  · intro ssrc w hw
    rw [show (start r).receiver = r from rfl, hstates, AList.lookup_empty] at hw
    cases hw

theorem Invariant.tracks_record {s : Session} (h : s.Invariant) (ssrc : UInt32) (index : Nat) :
    (((s.receiver.states.lookup ssrc).getD (Window.fresh index)).record index).Tracks
      (index :: s.indices ssrc) := by
  apply Window.Tracks.record
  cases hstate : s.receiver.states.lookup ssrc with
  | some w => exact h.tracks ssrc w hstate
  | none =>
      have hempty : s.indices ssrc = [] := by
        apply List.eq_nil_iff_forall_not_mem.2
        intro i hi
        exact h.known _ (mem_indices.1 hi) hstate
      rw [hempty]
      exact Window.tracks_fresh index

theorem Invariant.fresh_packet {s : Session} (h : s.Invariant) {packet : RtpPacket}
    {r' : SrtpReceiver} (ha : Accepts s.receiver packet r') :
    (packet.ssrc, packetIndex s.receiver packet.ssrc packet.seq) ∉ s.accepted := by
  intro hmem
  cases hstate : s.receiver.states.lookup packet.ssrc with
  | none => exact h.known _ hmem hstate
  | some w =>
      have hrefuses := ha.fresh w hstate
      rw [(h.tracks _ w hstate).refuses_iff (by omega)] at hrefuses
      exact hrefuses.2 (mem_indices.2 hmem)

theorem Invariant.accept {s : Session} (h : s.Invariant) {packet : RtpPacket}
    {r' : SrtpReceiver} (ha : Accepts s.receiver packet r') :
    Invariant
      { receiver := r'
        accepted := (packet.ssrc, packetIndex s.receiver packet.ssrc packet.seq) ::
          s.accepted } := by
  have hafter := ha.after
  have hbounded := h.bounded.accept ha
  have hsource := h.tracks_record packet.ssrc (packetIndex s.receiver packet.ssrc packet.seq)
  generalize hindex : packetIndex s.receiver packet.ssrc packet.seq = index at *
  subst hafter
  constructor
  · -- a new source finds room, a known one keeps its place
    show (AList.insert _ _ s.receiver.states).keys.length ≤ 32
    rw [AList.keys_insert, List.length_cons, List.length_erase]
    have := h.sources
    by_cases hmem : packet.ssrc ∈ s.receiver.states.keys
    · rw [if_pos hmem]
      have := List.length_pos_of_mem hmem
      omega
    · rw [if_neg hmem]
      have := ha.room (AList.lookup_eq_none.2 hmem)
      omega
  · exact hbounded
  · exact List.nodup_cons.2 ⟨hindex ▸ h.fresh_packet ha, h.nodup⟩
  · intro entry hentry
    show (AList.insert _ _ s.receiver.states).lookup entry.1 ≠ none
    by_cases hsame : entry.1 = packet.ssrc
    · rw [hsame, AList.lookup_insert]
      exact Option.some_ne_none _
    · rw [AList.lookup_insert_ne hsame]
      rcases List.mem_cons.1 hentry with rfl | hold
      · exact absurd rfl hsame
      · exact h.known entry hold
  · intro ssrc w hw
    rcases of_lookup_insert hw with ⟨rfl, rfl⟩ | ⟨hsame, hold⟩
    · apply hsource.congr
      intro i
      simp [mem_indices]
    · apply (h.tracks ssrc w hold).congr
      intro i
      simp [mem_indices, hsame]

/-- Every datagram is received without panic and keeps the invariant. -/
theorem Invariant.receive (P : Primitives) {s : Session} (h : s.Invariant) (p : List UInt8) :
    ∃ s', s.receive P p = some s' ∧ s'.Invariant := by
  unfold Session.receive
  rcases unprotect_cases P h.bounded p with hreject | ⟨packet, r', haccept, ha⟩
  · rw [hreject]
    exact ⟨s, rfl, h⟩
  · rw [haccept]
    exact ⟨_, rfl, h.accept ha⟩

theorem Invariant.run (P : Primitives) {s : Session} (h : s.Invariant)
    (datagrams : List (List UInt8)) : ∃ s', s.run P datagrams = some s' ∧ s'.Invariant := by
  induction datagrams generalizing s with
  | nil => exact ⟨s, rfl, h⟩
  | cons p rest ih =>
      obtain ⟨next, hnext, hinv⟩ := h.receive P p
      rw [Session.run, hnext]
      exact ih hinv

end Session

/-- After any datagrams the receiver has accepted no packet twice, tracks at most
32 sources, each below 2 ^ 48 and with a window that means what it should; and
no datagram that follows can panic, change the receiver without being accepted,
or lower a highest index. -/
theorem receiver_replay_protection (P : Primitives) (blob : List UInt8) (r : SrtpReceiver)
    (hnew : SrtpReceiver.new P blob = .ok r) (datagrams : List (List UInt8)) :
    ∃ s, (Session.start r).run P datagrams = some s ∧ s.accepted.Nodup ∧
      s.receiver.states.keys.length ≤ 32 ∧
      (∀ ssrc w, s.receiver.states.lookup ssrc = some w → w.highest < 2 ^ 48 ∧
        ∀ k < 128, w.seen.getLsbD k = true ↔
          ∃ index, (ssrc, index) ∈ s.accepted ∧ index + k = w.highest) ∧
      ∀ p, ∃ packet r', s.receiver.unprotect P p = some (packet, r') ∧
        (packet = none → r' = s.receiver) ∧
        ∀ ssrc w, s.receiver.states.lookup ssrc = some w →
          ∃ w', r'.states.lookup ssrc = some w' ∧ w.highest ≤ w'.highest := by
  obtain ⟨s, hrun, hinv⟩ := (Session.invariant_start hnew).run P datagrams
  refine ⟨s, hrun, hinv.nodup, hinv.sources, ?_, ?_⟩
  · intro ssrc w hw
    refine ⟨hinv.bounded ssrc w hw, ?_⟩
    intro k hk
    rw [(hinv.tracks ssrc w hw).bit k hk]
    exact exists_congr fun index => and_congr_left' Session.mem_indices
  · intro p
    rcases unprotect_cases P hinv.bounded p with hreject | ⟨packet, r', haccept, ha⟩
    · exact ⟨none, s.receiver, hreject, fun _ => rfl, fun ssrc w hw => ⟨w, hw, le_refl _⟩⟩
    · refine ⟨some packet, r', haccept, ?_, fun ssrc w hw => ha.highest_le hw⟩
      intro hnone
      cases hnone

/-! ## The node crypto fixture

AES-256-CTR and HMAC-SHA1 on the inputs of the first two audio heartbeats sent
under the key `[9; 46]`. -/

def fixtureBlob : List UInt8 := List.replicate 46 9

def fixtureKeys : Keys :=
  { cipher :=
      [244, 53, 12, 27, 171, 238, 234, 152, 234, 201, 221, 149, 100, 109, 7, 130,
        140, 244, 88, 69, 42, 192, 63, 90, 125, 196, 102, 146, 97, 20, 39, 133]
    auth :=
      [213, 213, 147, 254, 231, 34, 179, 130, 143, 75, 211, 173, 189, 116, 8, 6, 235, 27, 236, 133]
    salt := [251, 180, 144, 25, 139, 62, 59, 188, 116, 94, 8, 4, 167, 62] }

/-- Keystreams by cipher key and initial counter block. -/
def fixtureStreams : List ((List UInt8 × List UInt8) × List UInt8) :=
  [((List.replicate 32 9, [9, 9, 9, 9, 9, 9, 9, 9, 9, 9, 9, 9, 9, 9, 0, 0]), fixtureKeys.cipher),
    ((List.replicate 32 9, [9, 9, 9, 9, 9, 9, 9, 8, 9, 9, 9, 9, 9, 9, 0, 0]), fixtureKeys.auth),
    ((List.replicate 32 9, [9, 9, 9, 9, 9, 9, 9, 11, 9, 9, 9, 9, 9, 9, 0, 0]), fixtureKeys.salt),
    ((fixtureKeys.cipher, [251, 180, 144, 25, 139, 62, 59, 187, 116, 94, 8, 4, 167, 62, 0, 0]),
      [211, 217, 109, 191]),
    ((fixtureKeys.cipher, [251, 180, 144, 25, 139, 62, 59, 187, 116, 94, 8, 4, 167, 63, 0, 0]),
      [124, 128, 167, 33])]

def fixtureHmac (key message : List UInt8) : Vector UInt8 20 :=
  if key ≠ fixtureKeys.auth then Vector.replicate 20 0
  else if message = [128, 101, 0, 0, 0, 0, 0, 0, 0, 0, 0, 7, 211, 177, 89, 191, 0, 0, 0, 0] then
    #v[126, 127, 32, 209, 2, 82, 189, 40, 105, 230, 91, 52, 93, 240, 29, 79, 120, 20, 127, 171]
  else if message = [128, 101, 0, 1, 0, 0, 1, 224, 0, 0, 0, 7, 124, 232, 147, 33, 0, 0, 0, 0] then
    #v[135, 65, 213, 94, 221, 224, 139, 242, 26, 138, 213, 34, 202, 83, 163, 5, 238, 109, 5, 110]
  else Vector.replicate 20 0

def fixture : Primitives :=
  { keystream := fun key iv i => ((fixtureStreams.lookup (key, iv)).getD []).getD i 0
    hmacSha1 := fixtureHmac }

def fixtureHeartbeats : List (List UInt8) :=
  [[128, 101, 0, 0, 0, 0, 0, 0, 0, 0, 0, 7, 211, 177, 89, 191, 126, 127, 32, 209, 2, 82, 189, 40,
      105, 230],
    [128, 101, 0, 1, 0, 0, 1, 224, 0, 0, 0, 7, 124, 232, 147, 33, 135, 65, 213, 94, 221, 224, 139,
      242, 26, 138]]

def fixtureReceiver : SrtpReceiver := { keys := fixtureKeys, states := ∅ }

theorem new_fixture : SrtpReceiver.new fixture fixtureBlob = .ok fixtureReceiver := by
  have hkeys : derive fixture fixtureBlob 0 = .ok fixtureKeys := by decide +kernel
  rw [SrtpReceiver.new, hkeys]
  rfl

example : (SrtpSender.new fixture fixtureBlob 7).toOption.map
    (fun s => (s.audioHeartbeat fixture).1.toOption) = some fixtureHeartbeats[0]? := by
  decide +kernel

theorem receiver_replay_protection_fixture :
    let datagrams := fixtureHeartbeats ++ fixtureHeartbeats ++ [[128, 101, 0]]
    ((Session.start fixtureReceiver).run fixture datagrams).map Session.accepted =
      some [(7, 1), (7, 0)] ∧
    ∃ s, (Session.start fixtureReceiver).run fixture datagrams = some s ∧ s.accepted.Nodup ∧
      s.receiver.states.keys.length ≤ 32 ∧
      (∀ ssrc w, s.receiver.states.lookup ssrc = some w → w.highest < 2 ^ 48 ∧
        ∀ k < 128, w.seen.getLsbD k = true ↔
          ∃ index, (ssrc, index) ∈ s.accepted ∧ index + k = w.highest) ∧
      ∀ p, ∃ packet r', s.receiver.unprotect fixture p = some (packet, r') ∧
        (packet = none → r' = s.receiver) ∧
        ∀ ssrc w, s.receiver.states.lookup ssrc = some w →
          ∃ w', r'.states.lookup ssrc = some w' ∧ w.highest ≤ w'.highest := by
  intro datagrams
  refine ⟨by decide +kernel, ?_⟩
  exact receiver_replay_protection fixture fixtureBlob fixtureReceiver new_fixture datagrams

end MacVnc.Media.SrtpReplay

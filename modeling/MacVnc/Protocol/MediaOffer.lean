import Mathlib.Logic.Encodable.Basic
import Mathlib.Logic.Equiv.List
import MacVnc.Lib.Layout
import MacVnc.Lib.Text
import MacVnc.Protocol.Offer
/-!
# The messages of the negotiation

`hp-protocol/src/offer.rs`: the description of the viewer, the encodings, the display
configuration and the media offers with their keys.  The zlib encoder and the property
list writer are parameters with the readers that invert them; the clock, the call id and
the random bytes are arguments.  The reader of the media message is the Mac, as far as
the message tells.
-/

namespace MacVnc.Protocol.MediaOffer

open MacVnc.Lib
open MacVnc.Lib.Bytes
open MacVnc.Lib.Layout
open MacVnc.Lib.Text
open MacVnc.Protocol.Metadata
open MacVnc.Protocol.Offer (Guarded)

inductive Value where
  | data (bytes : List UInt8)
  | integer (n : Nat)
  | string (text : Text)
deriving DecidableEq

abbrev Dictionary := List (Text × Value)

/-- The `flate2` and `plist` crates; a dictionary has a key once. -/
structure Packer where
  compress : List UInt8 → List UInt8
  inflate : List UInt8 → Option (List UInt8)
  inflate_compress : ∀ bytes, inflate (compress bytes) = some bytes
  toBinary : Dictionary → List UInt8
  fromReader : List UInt8 → Option Dictionary
  fromReader_toBinary : ∀ dict : Dictionary, (dict.map Prod.fst).Nodup →
    fromReader (toBinary dict) = some dict

def encode (fs : List Offer.Field) : List UInt8 := fs.flatMap Offer.Field.code

def ascii (text : Text) : List UInt8 := toUtf8 text

/-! ## Fixed messages -/

def be16 (n : Nat) : List UInt8 := toBigEndian 2 n

def be32 (n : Nat) : List UInt8 := toBigEndian 4 n

def viewerInfo : Option (List UInt8) :=
  place (List.replicate 66 0) <|
    [⟨0, [0x21]⟩, ⟨2, be16 62⟩, ⟨4, be16 1⟩] ++
    [(6, 2), (10, 6), (14, 1), (22, 15), (26, 3)].map (fun (p, v) => ⟨p, be32 v⟩) ++
    [(34, 0xb0), (36, 0x0c), (37, 3), (38, 0x90), (44, 0x40)].map fun (p, v) => ⟨p, [v]⟩

/-- An identifier as `i32::to_be_bytes`. -/
def encodingBytes (id : Int) : List UInt8 := be32 (id % 2 ^ 32).toNat

def encodings : List UInt8 :=
  [2, 0, 0, 13] ++
    [1010, 1011, 1002, 6, 16, 1104, 1100, -223, 1101, 1105, 1107, 1109, 1110].flatMap encodingBytes

def f64Bits (n : Nat) : Nat :=
  if n = 0 then 0 else (1023 + n.log2) * 2 ^ 52 + (n - 2 ^ n.log2) * 2 ^ (52 - n.log2)

def modes (w h : UInt16) : List (Nat × Nat) :=
  [(w.toNat, h.toNat), (1440, 900), (1920, 1080), (1440, 810), (1312, 848)]

def modeFields (fps : UInt16) (i : Nat) (mode : Nat × Nat) : List Field :=
  let m := 12 + 0x9c + 28 * i
  [⟨m, be32 mode.1⟩, ⟨m + 4, be32 mode.2⟩, ⟨m + 8, be32 mode.1⟩, ⟨m + 12, be32 mode.2⟩,
    ⟨m + 16, toBigEndian 8 (f64Bits fps.toNat)⟩]

def displayFields (w h fps : UInt16) : List Field :=
  [⟨0, [0x1d]⟩, ⟨2, be16 304⟩, ⟨4, be16 1⟩, ⟨6, be16 1⟩, ⟨12, be16 296⟩,
    ⟨14, ascii "macvnc".toList⟩] ++
  -- The sizes in millimetres are the bits of 369.45456 and 207.81818.
  [(0x7a, 1), (0x7e, 4), (0x82, 0x43b8ba2f), (0x86, 0x434fd174), (0x8a, max 3840 w.toNat),
    (0x8e, max 2160 h.toNat), (0x96, 7)].map (fun (p, v) => ⟨12 + p, be32 v⟩) ++
  [⟨12 + 0x9a, be16 5⟩] ++
  (modes w h).zipIdx.flatMap fun (mode, i) => modeFields fps i mode

def displayConfig (w h fps : UInt16) : Option (List UInt8) :=
  place (List.replicate 308 0) (displayFields w h fps)

/-! ## Offers -/

def bank : List Offer.Field :=
  [.number 1 100,
    .bytes 2 (encode [.number 1 1, .number 2 1, .number 3 50115, .number 4 0]),
    .bytes 2 (encode [.number 1 1, .number 2 2, .number 3 50115, .number 4 0]),
    .bytes 3 (ascii
      "FLS;LF:-1;POS:5;EOD:1;HTS:2;RR:3;POSE:4;AR:16/9,5/8;XR:16/9,5/8;".toList),
    .number 4 14]

def videoDescription (ssrc : UInt32) : List Offer.Field :=
  [.number 1 ssrc.toUInt64, .number 2 0, .bytes 3 (encode bank), .number 6 1, .number 7 0,
    .number 8 63, .number 9 1, .number 12 1]

def audioDescription (ssrc : UInt32) : List Offer.Field :=
  [.number 1 ssrc.toUInt64, .number 2 0, .number 3 0, .number 4 1000, .number 5 0, .number 6 0]

def description (mode : UInt64) (ssrc : UInt32) : Offer.Field :=
  if mode = 7 then .bytes 5 (encode (videoDescription ssrc))
  else .bytes 3 (encode (audioDescription ssrc))

def tiers : List (UInt64 × UInt64 × Option UInt64) :=
  [(0, 40000000, some 12288), (0, 6000000, some 131072), (4074, 0, some 16384), (16, 4100, none),
    (0, 75000000, some 524288), (0, 20000000, some 98304), (4, 6500, none),
    (0, 60000000, some 262144), (1, 299, none), (0, 100000000, some 1048576)]

def tier (t : UInt64 × UInt64 × Option UInt64) : Offer.Field :=
  .bytes 9 (encode ([.number 1 t.1, .number 2 t.2.1] ++ (t.2.2.map (Offer.Field.number 3)).toList))

/-- The fields of an offer at this time in nanoseconds. -/
def media (mode : UInt64) (ssrc : UInt32) (ns : UInt64) : List Offer.Field :=
  [.number 1 1, .number 2 1, description mode ssrc, .bytes 6 (ascii "iShareScreen 1.0.0".toList),
    .number 8 0] ++ tiers.map tier ++ [.number 13 ns, .number 14 2, .number 16 0, .number 18 1]

def endpoint : List Offer.Field :=
  [.number 1 0, .number 2 1, .bytes 3 (ascii "MacBookPro18,3".toList),
    .bytes 4 (ascii "1.0.0".toList), .bytes 5 (ascii "24A335".toList)]

def mediaBlobKey : Text := "avcMediaStreamNegotiatorMediaBlob".toList

def modeKey : Text := "avcMediaStreamNegotiatorMode".toList

def callIdKey : Text := "avcMediaStreamOptionCallID".toList

def endpointKey : Text := "avcMediaStreamOptionRemoteEndpointInfo".toList

/-- What the surroundings give an offer: the time since the epoch and a call id. -/
structure Surroundings where
  nanos : Nat
  callId : Text

def offer (Z : Packer) (env : Surroundings) (mode : UInt64) (ssrc : UInt32) : List UInt8 :=
  Z.toBinary
    [(mediaBlobKey, .data (Z.compress (encode (media mode ssrc (UInt64.ofNat env.nanos))))),
      (modeKey, .integer mode.toNat), (callIdKey, .string env.callId),
      (endpointKey, .data (encode endpoint))]

abbrev MediaKey := Vector UInt8 46

/-- What is copied into the message around two offers, in the order of the code. -/
def mediaFields (audio video : List UInt8) (send recv : MediaKey) (fps : UInt16)
    (audioSend : MediaKey) (filler : Vector UInt8 108) : List Field :=
  let p := 0x80 + audio.length
  [⟨0, [0x1c]⟩, ⟨2, be16 (audio.length + video.length + 0xd8)⟩, ⟨4, be16 3⟩,
    ⟨6, be32 (if 60 ≤ fps then 7 else 3)⟩, ⟨10, be16 audio.length⟩, ⟨12, be16 video.length⟩,
    ⟨0x14, filler.toList⟩, ⟨0x24, audioSend.toList⟩, ⟨0x80, audio⟩, ⟨p, send.toList⟩,
    ⟨p + 46, recv.toList⟩, ⟨p + 92, video⟩]

def mediaMessage (audio video : List UInt8) (send recv : MediaKey) (fps : UInt16)
    (audioSend : MediaKey) (filler : Vector UInt8 108) : Option (List UInt8) :=
  place (List.replicate (audio.length + video.length + 0xd8 + 4) 0)
    (mediaFields audio video send recv fps audioSend filler)

def mediaOptions (Z : Packer) (audioEnv videoEnv : Surroundings) (ssrc : UInt32)
    (send recv : MediaKey) (fps : UInt16) (audioSsrc : UInt32) (audioSend : MediaKey)
    (filler : Vector UInt8 108) : Option (List UInt8) :=
  mediaMessage (offer Z audioEnv 8 audioSsrc) (offer Z videoEnv 7 ssrc) send recv fps audioSend
    filler

/-! ## The reader -/

structure MediaMessage where
  rate : Nat
  audioSend : List UInt8
  audio : List UInt8
  send : List UInt8
  recv : List UInt8
  video : List UInt8
deriving DecidableEq

/-- What the Mac finds in a media message whose lengths add up. -/
def readMedia (message : List UInt8) : Option MediaMessage :=
  let audio := ofBigEndian (region message 10 2)
  let video := ofBigEndian (region message 12 2)
  let p := 0x80 + audio
  if region message 0 1 = [0x1c] ∧ ofBigEndian (region message 2 2) + 4 = message.length ∧
      p + 92 + video = message.length then
    some
      { rate := ofBigEndian (region message 6 4)
        audioSend := region message 0x24 46
        audio := region message 0x80 audio
        send := region message p 46
        recv := region message (p + 46) 46
        video := region message (p + 92) video }
  else none

/-- The fields of the description in an offer, by the number of that. -/
def readOffer (Z : Packer) (number : Nat) (bytes : List UInt8) : Option (List ProtoField) := do
  let dict ← Z.fromReader bytes
  match dict.lookup mediaBlobKey with
  | some (.data blob) => do
      let proto ← Z.inflate blob
      let found ← (fields proto).toOption
      let description ← found.find? fun f => f.field = number
      (fields description.bytes).toOption
  | _ => none

theorem fields_encode {fs : List Offer.Field} (hcount : fs.length ≤ 4096)
    (hnumbers : ∀ f ∈ fs, f.Numbered) (hsize : (encode fs).length ≤ 1024 * 1024) :
    fields (encode fs) = .ok (fs.map Offer.Field.read) :=
  Offer.fields_written hcount hnumbers hsize

instance (f : Offer.Field) : Decidable f.Numbered :=
  inferInstanceAs (Decidable (1 ≤ f.n.toNat ∧ f.n.toNat ≤ 2 ^ 61 - 1))

/-! ### Lengths of fields -/

def bound : Offer.Field → Nat
  | .number _ _ => 20
  | .bytes _ value => 20 + value.length

theorem length_varint_le (value : UInt64) : (Offer.varint value).length ≤ 10 :=
  Offer.length_varint (Nat.lt_trans value.toNat_lt (by decide))

theorem length_code_le (f : Offer.Field) : f.code.length ≤ bound f := by
  cases f with
  | number n value =>
      have hn := length_varint_le (n <<< 3)
      have hvalue := length_varint_le value
      show (Offer.varint _ ++ Offer.varint _).length ≤ 20
      rw [List.length_append]
      omega
  | bytes n value =>
      have hn := length_varint_le (n <<< 3 ||| 2)
      have hlength := length_varint_le (UInt64.ofNat value.length)
      show (Offer.varint _ ++ Offer.varint _ ++ value).length ≤ 20 + value.length
      rw [List.length_append, List.length_append]
      omega

theorem length_encode_le (fs : List Offer.Field) : (encode fs).length ≤ (fs.map bound).sum := by
  induction fs with
  | nil => exact Nat.le_refl 0
  | cons f fs ih =>
      have hf := length_code_le f
      rw [List.map_cons, List.sum_cons, encode, List.flatMap_cons, List.length_append]
      exact Nat.add_le_add hf ih

theorem length_encode_videoDescription (ssrc : UInt32) :
    (encode (videoDescription ssrc)).length ≤ 1000 := by
  refine (length_encode_le _).trans ?_
  have hbank : (encode bank).length ≤ 400 := by decide +kernel
  simp only [videoDescription, bound, List.map_cons, List.map_nil, List.sum_cons, List.sum_nil]
  generalize (encode bank).length = size at hbank ⊢
  omega

theorem length_encode_audioDescription (ssrc : UInt32) :
    (encode (audioDescription ssrc)).length ≤ 1000 := by
  refine (length_encode_le _).trans ?_
  simp [audioDescription, bound]

theorem fields_videoDescription (ssrc : UInt32) :
    fields (encode (videoDescription ssrc)) =
      .ok ((videoDescription ssrc).map Offer.Field.read) := by
  apply fields_encode
  · exact (by decide : 8 ≤ 4096)
  · simp [videoDescription, Offer.Field.Numbered, Offer.Field.n]
  · exact (length_encode_videoDescription ssrc).trans (by decide)

theorem fields_audioDescription (ssrc : UInt32) :
    fields (encode (audioDescription ssrc)) =
      .ok ((audioDescription ssrc).map Offer.Field.read) := by
  apply fields_encode
  · exact (by decide : 6 ≤ 4096)
  · simp [audioDescription, Offer.Field.Numbered, Offer.Field.n]
  · exact (length_encode_audioDescription ssrc).trans (by decide)

theorem bound_description (mode : UInt64) (ssrc : UInt32) :
    bound (description mode ssrc) ≤ 1020 := by
  unfold description
  split
  · exact Nat.add_le_add_left (length_encode_videoDescription ssrc) 20
  · exact Nat.add_le_add_left (length_encode_audioDescription ssrc) 20

theorem numbered_description (mode : UInt64) (ssrc : UInt32) :
    (description mode ssrc).Numbered := by
  unfold description
  split
  · exact of_decide_eq_true rfl
  · exact of_decide_eq_true rfl

theorem fields_media (mode : UInt64) (ssrc : UInt32) (ns : UInt64) :
    fields (encode (media mode ssrc ns)) = .ok ((media mode ssrc ns).map Offer.Field.read) := by
  have hdescription := numbered_description mode ssrc
  have hbound := bound_description mode ssrc
  apply fields_encode
  · exact (by decide : 19 ≤ 4096)
  · unfold media
    have htiers : ∀ f ∈ tiers.map tier, f.Numbered := by
      intro f hf
      obtain ⟨t, _, rfl⟩ := List.mem_map.1 hf
      exact of_decide_eq_true rfl
    simp only [List.forall_mem_append, List.forall_mem_cons]
    exact ⟨⟨⟨of_decide_eq_true rfl, of_decide_eq_true rfl, hdescription, of_decide_eq_true rfl,
      of_decide_eq_true rfl, nofun⟩, htiers⟩, of_decide_eq_true rfl, of_decide_eq_true rfl,
      of_decide_eq_true rfl, of_decide_eq_true rfl, nofun⟩
  · refine (length_encode_le _).trans ?_
    have htiers : ((tiers.map tier).map bound).sum ≤ 1000 := by decide +kernel
    have hname : bound (.bytes 6 (ascii "iShareScreen 1.0.0".toList)) ≤ 40 := by decide +kernel
    rw [media, List.map_append, List.map_append, List.sum_append, List.sum_append]
    simp only [List.map_cons, List.map_nil, List.sum_cons, List.sum_nil]
    generalize ((tiers.map tier).map bound).sum = size at htiers ⊢
    generalize bound (.bytes 6 _) = name at hname ⊢
    generalize bound (description mode ssrc) = described at hbound ⊢
    simp only [bound]
    omega

/-! ### What is read -/

theorem fromReader_offer (Z : Packer) (env : Surroundings) (mode : UInt64) (ssrc : UInt32) :
    Z.fromReader (offer Z env mode ssrc) =
      some
        [(mediaBlobKey, .data (Z.compress (encode (media mode ssrc (UInt64.ofNat env.nanos))))),
          (modeKey, .integer mode.toNat), (callIdKey, .string env.callId),
          (endpointKey, .data (encode endpoint))] := by
  have hkeys : [mediaBlobKey, modeKey, callIdKey, endpointKey].Nodup := by decide
  exact Z.fromReader_toBinary _ hkeys

theorem readOffer_video (Z : Packer) (env : Surroundings) (ssrc : UInt32) :
    readOffer Z 5 (offer Z env 7 ssrc) = some ((videoDescription ssrc).map Offer.Field.read) := by
  have hmedia := fields_media 7 ssrc (UInt64.ofNat env.nanos)
  rw [readOffer, fromReader_offer, Option.bind_eq_bind, Option.bind_some]
  show (Z.inflate _ >>= _) = _
  rw [Z.inflate_compress, Option.bind_eq_bind, Option.bind_some, hmedia]
  show (fields (encode (videoDescription ssrc))).toOption = _
  rw [fields_videoDescription]
  rfl

theorem readOffer_audio (Z : Packer) (env : Surroundings) (ssrc : UInt32) :
    readOffer Z 3 (offer Z env 8 ssrc) = some ((audioDescription ssrc).map Offer.Field.read) := by
  have hmedia := fields_media 8 ssrc (UInt64.ofNat env.nanos)
  rw [readOffer, fromReader_offer, Option.bind_eq_bind, Option.bind_some]
  show (Z.inflate _ >>= _) = _
  rw [Z.inflate_compress, Option.bind_eq_bind, Option.bind_some, hmedia]
  show (fields (encode (audioDescription ssrc))).toOption = _
  rw [fields_audioDescription]
  rfl

section Message

variable (audio video : List UInt8) (send recv : MediaKey) (fps : UInt16) (audioSend : MediaKey)
  (filler : Vector UInt8 108)

theorem mediaFields_fit :
    ∀ f ∈ mediaFields audio video send recv fps audioSend filler,
      f.last ≤ (List.replicate (audio.length + video.length + 0xd8 + 4) (0 : UInt8)).length := by
  rw [List.length_replicate]
  simp only [mediaFields, List.forall_mem_cons, Field.last, be16, be32, length_toBigEndian,
    Vector.length_toList, List.length_cons, List.length_nil]
  refine ⟨?_, ?_, ?_, ?_, ?_, ?_, ?_, ?_, ?_, ?_, ?_, ?_, fun _ h => (List.not_mem_nil h).elim⟩ <;>
    omega

/-- The random bytes reach into the audio key, which comes later; nothing else overlaps. -/
theorem mediaFields_apart {i : Nat} (hi : i ≠ 6) {f : Field}
    (hf : (mediaFields audio video send recv fps audioSend filler)[i]? = some f) :
    ∀ g ∈ (mediaFields audio video send recv fps audioSend filler).drop (i + 1), f.Apart g := by
  rcases i with _ | _ | _ | _ | _ | _ | _ | _ | _ | _ | _ | _ | i
  all_goals first | exact absurd rfl hi | cases hf
  all_goals
    simp only [mediaFields, List.drop_succ_cons, List.drop_zero, List.drop_nil,
      List.forall_mem_cons, Field.Apart, Field.last, be16, be32, length_toBigEndian,
      Vector.length_toList, List.length_cons, List.length_nil, List.not_mem_nil,
      IsEmpty.forall_iff, implies_true, and_true]
  all_goals omega

theorem region_mediaField {message : List UInt8}
    (hplace : mediaMessage audio video send recv fps audioSend filler = some message) {i : Nat}
    (hi : i ≠ 6) {f : Field}
    (hf : (mediaFields audio video send recv fps audioSend filler)[i]? = some f) :
    region message f.off f.bytes.length = f.bytes :=
  region_field i (mediaFields_fit audio video send recv fps audioSend filler) hplace hf
    (mediaFields_apart audio video send recv fps audioSend filler hi hf)

/-- The Mac reads a media message back if the lengths fit their fields, and refuses it if not. -/
theorem readMedia_mediaMessage :
    ∃ message, mediaMessage audio video send recv fps audioSend filler = some message ∧
      readMedia message =
        if audio.length + video.length + 0xd8 < 2 ^ 16 then
          some
            { rate := if 60 ≤ fps then 7 else 3
              audioSend := audioSend.toList
              audio
              send := send.toList
              recv := recv.toList
              video }
        else none := by
  obtain ⟨message, hplace, hlength⟩ :=
    place_of_fits (mediaFields_fit audio video send recv fps audioSend filler)
  rw [List.length_replicate] at hlength
  refine ⟨message, hplace, ?_⟩
  have hfield (i : Nat) (hi : i ≠ 6) {f : Field}
      (hf : (mediaFields audio video send recv fps audioSend filler)[i]? = some f) :=
    region_mediaField audio video send recv fps audioSend filler hplace hi hf
  have hkind : region message 0 1 = [0x1c] := hfield 0 (by decide) rfl
  have hsize : region message 2 2 = be16 (audio.length + video.length + 0xd8) :=
    hfield 1 (by decide) rfl
  have hrate : region message 6 4 = be32 (if 60 ≤ fps then 7 else 3) := hfield 3 (by decide) rfl
  have haudioLength : region message 10 2 = be16 audio.length := hfield 4 (by decide) rfl
  have hvideoLength : region message 12 2 = be16 video.length := hfield 5 (by decide) rfl
  have haudioSend : region message 0x24 46 = audioSend.toList := by
    simpa using hfield 7 (by decide) rfl
  have haudio : region message 0x80 audio.length = audio := hfield 8 (by decide) rfl
  have hsend : region message (0x80 + audio.length) 46 = send.toList := by
    simpa using hfield 9 (by decide) rfl
  have hrecv : region message (0x80 + audio.length + 46) 46 = recv.toList := by
    simpa using hfield 10 (by decide) rfl
  have hvideo : region message (0x80 + audio.length + 92) video.length = video :=
    hfield 11 (by decide) rfl
  unfold readMedia
  rw [hkind, hsize, hrate, haudioLength, hvideoLength, haudioSend, be16, be16, be16,
    ofBigEndian_toBigEndian_mod, ofBigEndian_toBigEndian_mod, ofBigEndian_toBigEndian_mod, hlength]
  dsimp only
  by_cases hfits : audio.length + video.length + 0xd8 < 2 ^ 16
  · rw [Nat.mod_eq_of_lt (by omega), Nat.mod_eq_of_lt (by omega), Nat.mod_eq_of_lt (by omega),
      if_pos hfits, if_pos ⟨rfl, rfl, by omega⟩, haudio, hsend, hrecv, hvideo]
    split
    · rfl
    · rfl
  · have hshort := Nat.mod_lt (audio.length + video.length + 0xd8) (show 0 < 256 ^ 2 by decide)
    rw [if_neg hfits, if_neg fun hread => by omega]

end Message

theorem fields_bank : fields (encode bank) = .ok (bank.map Offer.Field.read) := by
  apply fields_encode
  · decide
  · exact fun f hf => of_decide_eq_true (List.all_eq_true.1 (by decide +kernel :
      bank.all (fun f => decide f.Numbered) = true) f hf)
  · decide +kernel

/-- What the Mac reads from a media offer: the keys and both offers, if their lengths fit into the
message and not at all if they do not, and from the offers what they were made of. -/
theorem media_options_read_back (Z : Packer) (audioEnv videoEnv : Surroundings) (ssrc : UInt32)
    (send recv : MediaKey) (fps : UInt16) (audioSsrc : UInt32) (audioSend : MediaKey)
    (filler : Vector UInt8 108) :
    let audio := offer Z audioEnv 8 audioSsrc
    let video := offer Z videoEnv 7 ssrc
    (∃ message, mediaOptions Z audioEnv videoEnv ssrc send recv fps audioSsrc audioSend filler =
        some message ∧
      readMedia message =
        if audio.length + video.length + 0xd8 < 2 ^ 16 then
          some
            { rate := if 60 ≤ fps then 7 else 3
              audioSend := audioSend.toList
              audio
              send := send.toList
              recv := recv.toList
              video }
        else none) ∧
    readOffer Z 3 audio = some ((audioDescription audioSsrc).map Offer.Field.read) ∧
    readOffer Z 5 video = some ((videoDescription ssrc).map Offer.Field.read) ∧
    fields (encode bank) = .ok (bank.map Offer.Field.read) :=
  ⟨readMedia_mediaMessage _ _ send recv fps audioSend filler, readOffer_audio Z audioEnv audioSsrc,
    readOffer_video Z videoEnv ssrc, fields_bank⟩

/-! ## A packer

It writes two dictionaries in a byte and any other by its number, and compresses nothing. -/

instance encodableByte : Encodable UInt8 :=
  .ofLeftInverse UInt8.toNat UInt8.ofNat fun _ => UInt8.ofNat_toNat

instance encodableChar : Encodable Char := .ofLeftInverse Char.toNat Char.ofNat Char.ofNat_toNat

def valueCode : Value → List UInt8 ⊕ Nat ⊕ Text
  | .data bytes => .inl bytes
  | .integer n => .inr (.inl n)
  | .string text => .inr (.inr text)

def ofValueCode : List UInt8 ⊕ Nat ⊕ Text → Value
  | .inl bytes => .data bytes
  | .inr (.inl n) => .integer n
  | .inr (.inr text) => .string text

instance encodableValue : Encodable Value := .ofLeftInverse valueCode ofValueCode fun value => by
  cases value <;> rfl

def fixturePacker (first second : Dictionary) : Packer where
  compress := id
  inflate := some
  inflate_compress _ := rfl
  toBinary dict :=
    if dict = first then [1] else if dict = second then [2]
    else 0 :: bytesBe (Encodable.encode dict)
  fromReader bytes :=
    if bytes = [1] then some first else if bytes = [2] then some second
    else Encodable.decode (ofBigEndian (bytes.drop 1))
  fromReader_toBinary dict _ := by
    by_cases hfirst : dict = first
    · rw [if_pos hfirst, if_pos rfl, hfirst]
    by_cases hsecond : dict = second
    · rw [if_neg hfirst, if_pos hsecond, if_neg (by decide), if_pos rfl, hsecond]
    · have hone : (0 : UInt8) :: bytesBe (Encodable.encode dict) ≠ [1] := fun h => by cases h
      have htwo : (0 : UInt8) :: bytesBe (Encodable.encode dict) ≠ [2] := fun h => by cases h
      rw [if_neg hfirst, if_neg hsecond, if_neg hone, if_neg htwo, List.drop_succ_cons,
        List.drop_zero, ofBigEndian_bytesBe, Encodable.encodek]

def fixtureOffer (mode : UInt64) : Dictionary :=
  [(mediaBlobKey, .data (encode (media mode 0 0))), (modeKey, .integer mode.toNat),
    (callIdKey, .string []), (endpointKey, .data (encode endpoint))]

def fixtureSurroundings : Surroundings := { nanos := 0, callId := [] }

theorem fixture_offer_audio : offer (fixturePacker (fixtureOffer 8) (fixtureOffer 7))
    fixtureSurroundings 8 0 = [1] := if_pos rfl

theorem fixture_offer_video : offer (fixturePacker (fixtureOffer 8) (fixtureOffer 7))
    fixtureSurroundings 7 0 = [2] := by
  have hother : fixtureOffer 7 ≠ fixtureOffer 8 := fun h => by
    have hmode := congrArg (List.lookup modeKey) h
    revert hmode
    decide
  exact (if_neg hother).trans (if_pos rfl)

theorem media_options_read_back_fixture :
    ∃ message, mediaOptions (fixturePacker (fixtureOffer 8) (fixtureOffer 7)) fixtureSurroundings
        fixtureSurroundings 0 (Vector.replicate 46 1) (Vector.replicate 46 2) 60 0
        (Vector.replicate 46 3) (Vector.replicate 108 0) = some message ∧
      readMedia message =
        some
          { rate := 7
            audioSend := List.replicate 46 3
            audio := [1]
            send := List.replicate 46 1
            recv := List.replicate 46 2
            video := [2] } := by
  obtain ⟨⟨message, hmessage, hread⟩, -⟩ := media_options_read_back
    (fixturePacker (fixtureOffer 8) (fixtureOffer 7)) fixtureSurroundings fixtureSurroundings 0
    (Vector.replicate 46 1) (Vector.replicate 46 2) 60 0 (Vector.replicate 46 3)
    (Vector.replicate 108 0)
  refine ⟨message, hmessage, ?_⟩
  rw [fixture_offer_audio, fixture_offer_video] at hread
  exact hread

end MacVnc.Protocol.MediaOffer

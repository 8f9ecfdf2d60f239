import MacVnc.Lib.Varint
/-!
# Media answers

The answer of the Mac to a media offer (`hp-protocol/src/metadata.rs`): a property
list with compressed protobuf records in it, from the first of which the geometry of
the stream is read.  The zlib decoder is a parameter.  The wire format is a grammar
beside the parser, which reads exactly what the grammar allows.
-/

namespace MacVnc.Protocol.Metadata

open MacVnc.Lib.Varint

inductive MetadataError where
  | truncatedVarint
  | varintOverflow
  | invalidVarint
  | exceedsInputLimit
  | fieldCountExceedsLimit
  | invalidField
  | unsupportedWireType
  | truncatedField
  | canvasExceedsLimits
  | invalidTileCount
  | answerExceedsRecordLimit
  | candidateLimitExceeded
  | expandsBeyondLimit
deriving DecidableEq, Repr

structure StreamConfig where
  width : UInt16
  height : UInt16
  tileCount : UInt16
  ltrEnabled : Bool
deriving DecidableEq

/-! ## Protobuf -/

def varintLoop : Nat → Nat → Nat → List UInt8 → Except MetadataError (Nat × List UInt8)
  | 0, _, _, _ => .error .invalidVarint
  | _ + 1, _, _, [] => .error .truncatedVarint
  | rounds + 1, shift, v, c :: rest =>
      if ¬(shift ≠ 63 ∨ c ≤ 1) then .error .varintOverflow
      else
        let v := v ||| (c.toNat &&& 127) <<< shift
        if c &&& 128 = 0 then .ok (v, rest) else varintLoop rounds (shift + 7) v rest

def varint (bytes : List UInt8) : Except MetadataError (Nat × List UInt8) :=
  varintLoop 10 0 0 bytes

structure ProtoField where
  field : Nat
  value : Option Nat
  bytes : List UInt8
deriving DecidableEq

/-- The value and the length of a field of this wire type. -/
def fieldValue (wireType : Nat) (bytes : List UInt8) :
    Except MetadataError (Option Nat × Nat × List UInt8) :=
  match wireType with
  | 0 => (varint bytes).map fun (value, rest) => (some value, 0, rest)
  | 1 => .ok (none, 8, bytes)
  | 2 => (varint bytes).map fun (length, rest) => (none, length, rest)
  | 5 => .ok (none, 4, bytes)
  | _ => .error .unsupportedWireType

/-- The body of the loop over the fields: one field off the front. -/
def protoField (bytes : List UInt8) : Except MetadataError (ProtoField × List UInt8) :=
  (varint bytes).bind fun (tag, rest) =>
    let field := tag >>> 3
    if field = 0 then .error .invalidField
    else
      (fieldValue (tag &&& 7) rest).bind fun (value, length, rest) =>
        -- A length beyond the address space is beyond the record.
        if rest.length < length then .error .truncatedField
        else .ok ({ field, value, bytes := rest.take length }, rest.drop length)

def fieldsLoop : Nat → List UInt8 → Except MetadataError (List ProtoField)
  | _, [] => .ok []
  | 0, _ :: _ => .error .fieldCountExceedsLimit
  | budget + 1, b :: bytes =>
      (protoField (b :: bytes)).bind fun (f, rest) => (fieldsLoop budget rest).map (f :: ·)

def fields (bytes : List UInt8) : Except MetadataError (List ProtoField) :=
  if 1024 * 1024 < bytes.length then .error .exceedsInputLimit else fieldsLoop 4096 bytes

/-! ## Geometry -/

structure Geometry where
  width : Nat
  height : Nat
  tiles : Nat
  ltr : Bool
deriving DecidableEq

namespace Geometry

/-- The tile count is absent for a single full picture. -/
def absent : Geometry := { width := 0, height := 0, tiles := 1, ltr := false }

def note (g : Geometry) (f : ProtoField) : Geometry :=
  match f.value with
  | none => g
  | some v =>
      if f.field = 4 then { g with width := v }
      else if f.field = 5 then { g with height := v }
      else if f.field = 6 then { g with tiles := v }
      else if f.field = 7 then { g with ltr := v ≠ 0 }
      else g

def config (g : Geometry) : StreamConfig where
  width := g.width.toUInt16
  height := g.height.toUInt16
  tileCount := g.tiles.toUInt16
  ltrEnabled := g.ltr

end Geometry

def videoConfigLoop : List ProtoField → Except MetadataError (Option StreamConfig)
  | [] => .ok none
  | f :: rest =>
      if f.field ≠ 5 then videoConfigLoop rest
      else
        (fields f.bytes).bind fun sub =>
          let g := sub.foldl Geometry.note .absent
          if 0 < g.width ∧ 0 < g.height then
            if ¬(g.width ≤ 16384 ∧ g.height ≤ 16384 ∧ g.width * g.height ≤ 67108864) then
              .error .canvasExceedsLimits
            else if ¬(1 ≤ g.tiles ∧ g.tiles ≤ 64) then .error .invalidTileCount
            else .ok (some g.config)
          else videoConfigLoop rest

def videoConfig (bytes : List UInt8) : Except MetadataError (Option StreamConfig) :=
  (fields bytes).bind videoConfigLoop

/-! ## Answers -/

def plistAnchor : List UInt8 := [98, 112, 108, 105, 115, 116, 48, 48]

def anchored : List UInt8 → Option (List UInt8)
  | [] => none
  | b :: rest => if plistAnchor.isPrefixOf (b :: rest) then some (b :: rest) else anchored rest

/-- What the zlib decoder makes of its input when at most so many bytes are read from it:
the bytes, and whether it got there without an error. -/
abbrev Decoder : Type := List UInt8 → Nat → List UInt8 × Bool

/-- The loop over the places behind the anchor, with the attempts and the expanded bytes so
far. -/
def scan (decoder : Decoder) (attempts expanded : Nat) :
    List UInt8 → Except MetadataError (Option StreamConfig)
  | a :: b :: rest =>
      if a ≠ 0x78 ∨ (a.toNat * 256 + b.toNat) % 31 ≠ 0 then
        scan decoder attempts expanded (b :: rest)
      else if 32 < attempts + 1 then .error .candidateLimitExceeded
      else
        let (out, decoded) := decoder (a :: b :: rest) (1024 * 1024 - expanded + 1)
        let expanded := expanded + out.length
        if 1024 * 1024 < expanded then .error .expandsBeyondLimit
        else if decoded = false then scan decoder (attempts + 1) expanded (b :: rest)
        else
          match videoConfig out with
          | .ok (some config) => .ok (some config)
          | _ => scan decoder (attempts + 1) expanded (b :: rest)
  | _ => .ok none

def parseAnswer (decoder : Decoder) (body : List UInt8) :
    Except MetadataError (Option StreamConfig) :=
  if 65498 < body.length then .error .answerExceedsRecordLimit
  else if body.head? ≠ some 0 then .ok none
  else
    match anchored body with
    | none => .ok none
    | some rest => scan decoder 0 0 rest

/-! ## Varints -/

/-- The bytes spell a number of at most 64 bits. -/
structure Spells (code : List UInt8) (v : Nat) : Prop where
  delimited : Delimited code
  short : code.length ≤ 10
  value : sevenBits code = v
  fits : v < 2 ^ 64

theorem last_round {shift rounds v : Nat} {c : UInt8} (hshift : shift + 7 * (rounds + 1) = 70)
    (hv : v < 2 ^ shift) (hends : c.toNat < 128) :
    v + 2 ^ shift * (c.toNat % 128) < 2 ^ 64 ↔ shift ≠ 63 ∨ c ≤ 1 := by
  rw [UInt8.le_iff_toNat_le, Nat.mod_eq_of_lt hends, UInt8.toNat_one]
  rcases Nat.lt_or_ge shift 63 with hearly | hlate
  · have hbelow := add_group_lt c hv
    rw [Nat.mod_eq_of_lt hends] at hbelow
    have hle : 2 ^ (shift + 7) ≤ 2 ^ 64 := Nat.pow_le_pow_right (by decide) (by omega)
    constructor
    · intro _
      omega
    · intro _
      omega
  · have hsame : shift = 63 := by omega
    rw [hsame] at hv ⊢
    omega

theorem varintLoop_iff {rounds shift v w : Nat} {bytes rest : List UInt8}
    (hshift : shift + 7 * rounds = 70) (hv : v < 2 ^ shift) :
    varintLoop rounds shift v bytes = .ok (w, rest) ↔
      ∃ code, bytes = code ++ rest ∧ Delimited code ∧ code.length ≤ rounds ∧
        w = v + 2 ^ shift * sevenBits code ∧ w < 2 ^ 64 := by
  induction rounds generalizing shift v bytes with
  | zero =>
      refine ⟨fun herror => (by cases herror), ?_⟩
      rintro ⟨code, _, hdelimited, hshort, _⟩
      exact absurd (List.length_eq_zero_iff.1 (Nat.le_zero.1 hshort)) hdelimited.ne_nil
  | succ rounds ih =>
      cases bytes with
      | nil =>
          refine ⟨fun herror => (by cases herror), ?_⟩
          rintro ⟨code, hcode, hdelimited, _⟩
          exact absurd (List.append_eq_nil_iff.1 hcode.symm).1 hdelimited.ne_nil
      | cons c tail =>
          rw [exists_delimited_cons]
          unfold varintLoop
          dsimp only
          rw [or_group c hv]
          simp only [high_bit_eq_zero_iff, add_sevenBits_cons, List.length_cons]
          by_cases hends : c.toNat < 128
          · have hlast := last_round hshift hv hends
            by_cases hfits : shift ≠ 63 ∨ c ≤ 1
            · rw [if_neg (not_not.2 hfits), if_pos hends]
              have hbound := hlast.2 hfits
              simp only [Except.ok.injEq, Prod.mk.injEq, hends, true_and, sevenBits, Nat.mul_zero,
                Nat.add_zero, List.length_nil, Nat.zero_add, Nat.not_le_of_lt hends, false_and,
                or_false]
              constructor
              · rintro ⟨rfl, rfl⟩
                exact ⟨rfl, by omega, rfl, hbound⟩
              · rintro ⟨rfl, _, rfl, _⟩
                exact ⟨rfl, rfl⟩
            · rw [if_pos hfits]
              refine ⟨fun herror => (by cases herror), ?_⟩
              rintro (⟨_, _, _, hvalue, hsmall⟩ | ⟨hmore, _⟩)
              · rw [sevenBits, Nat.mul_zero, Nat.add_zero] at hvalue
                exact absurd (hlast.1 (hvalue ▸ hsmall)) hfits
              · omega
          · by_cases hfits : shift ≠ 63 ∨ c ≤ 1
            · rw [if_neg (not_not.2 hfits), if_neg hends, ih (by omega) (add_group_lt c hv)]
              simp only [hends, false_and, false_or, Nat.le_of_not_lt hends, true_and,
                Nat.add_le_add_iff_right]
            · -- The tenth byte cannot go on.
              rw [if_pos hfits]
              refine ⟨fun herror => (by cases herror), ?_⟩
              rintro (⟨hsmall, _⟩ | ⟨_, later, _, hlater, hshort, _⟩)
              · exact absurd hsmall hends
              · have hnone : later = [] := by
                  rw [← List.length_eq_zero_iff]
                  omega
                exact absurd hnone hlater.ne_nil

/-- A varint is read exactly where one is spelt. -/
theorem varint_iff {v : Nat} {bytes rest : List UInt8} :
    varint bytes = .ok (v, rest) ↔ ∃ code, bytes = code ++ rest ∧ Spells code v := by
  unfold varint
  rw [varintLoop_iff (by rfl) (by decide)]
  constructor
  · rintro ⟨code, hcode, hdelimited, hshort, hvalue, hfits⟩
    exact ⟨code, hcode, hdelimited, hshort, by omega, hfits⟩
  · rintro ⟨code, hcode, hdelimited, hshort, hvalue, hfits⟩
    exact ⟨code, hcode, hdelimited, hshort, by omega, hfits⟩

/-! ## The wire format -/

theorem bind_ok_iff {α β : Type} {x : Except MetadataError α} {g : α → Except MetadataError β}
    {b : β} : x.bind g = .ok b ↔ ∃ a, x = .ok a ∧ g a = .ok b := by
  cases x with
  | error e => simp [Except.bind]
  | ok a => simp [Except.bind]

theorem map_ok_iff {α β : Type} {x : Except MetadataError α} {g : α → β} {b : β} :
    x.map g = .ok b ↔ ∃ a, x = .ok a ∧ g a = b := by
  cases x with
  | error e => simp [Except.map]
  | ok a => simp [Except.map]

/-- What stands behind the tag of a field: its wire type, its value, its bytes and their
code. -/
inductive Payload : Nat → Option Nat → List UInt8 → List UInt8 → Prop
  | varint {v : Nat} {code : List UInt8} : Spells code v → Payload 0 (some v) [] code
  | fixed64 {bytes : List UInt8} : bytes.length = 8 → Payload 1 none bytes bytes
  | delimited {size bytes : List UInt8} :
      Spells size bytes.length → Payload 2 none bytes (size ++ bytes)
  | fixed32 {bytes : List UInt8} : bytes.length = 4 → Payload 5 none bytes bytes

theorem Payload.wireType_lt {wireType : Nat} {value : Option Nat} {bytes code : List UInt8}
    (h : Payload wireType value bytes code) : wireType < 8 := by
  cases h with
  | varint _ => decide
  | fixed64 _ => decide
  | delimited _ => decide
  | fixed32 _ => decide

/-- A field on the wire. -/
inductive FieldCode : ProtoField → List UInt8 → Prop
  | intro {f : ProtoField} {wireType : Nat} {tag payload : List UInt8} :
      f.field ≠ 0 → Spells tag (f.field * 8 + wireType) →
      Payload wireType f.value f.bytes payload → FieldCode f (tag ++ payload)

/-- A record on the wire: its fields one behind the other. -/
inductive Wire : List ProtoField → List UInt8 → Prop
  | nil : Wire [] []
  | cons {f : ProtoField} {fs : List ProtoField} {code rest : List UInt8} :
      FieldCode f code → Wire fs rest → Wire (f :: fs) (code ++ rest)

/-- What `fields` reads: a record in its bounds. -/
structure Record (fs : List ProtoField) (bytes : List UInt8) : Prop where
  size : bytes.length ≤ 1024 * 1024
  count : fs.length ≤ 4096
  wire : Wire fs bytes

theorem fieldValue_iff {wireType : Nat} {value : Option Nat} {bytes input rest : List UInt8} :
    (∃ length later, fieldValue wireType input = .ok (value, length, later) ∧
        length ≤ later.length ∧ later.take length = bytes ∧ later.drop length = rest) ↔
      ∃ payload, input = payload ++ rest ∧ Payload wireType value bytes payload := by
  constructor
  · rintro ⟨length, later, hvalue, hlength, rfl, rfl⟩
    unfold fieldValue at hvalue
    split at hvalue
    · obtain ⟨⟨v, tail⟩, hv, heq⟩ := map_ok_iff.1 hvalue
      cases heq
      obtain ⟨code, rfl, hspells⟩ := varint_iff.1 hv
      exact ⟨code, rfl, .varint hspells⟩
    · cases hvalue
      exact ⟨_, (List.take_append_drop 8 _).symm, .fixed64 (List.length_take_of_le hlength)⟩
    · obtain ⟨⟨size, tail⟩, hsize, heq⟩ := map_ok_iff.1 hvalue
      cases heq
      obtain ⟨code, rfl, hspells⟩ := varint_iff.1 hsize
      refine ⟨code ++ later.take length, ?_, .delimited ?_⟩
      · rw [List.append_assoc, List.take_append_drop]
      · rwa [List.length_take_of_le hlength]
    · cases hvalue
      exact ⟨_, (List.take_append_drop 4 _).symm, .fixed32 (List.length_take_of_le hlength)⟩
    · cases hvalue
  · rintro ⟨payload, rfl, hpayload⟩
    cases hpayload with
    | varint hspells =>
        have hv : varint (payload ++ rest) = .ok (_, rest) := varint_iff.2 ⟨payload, rfl, hspells⟩
        exact ⟨0, rest, map_ok_iff.2 ⟨_, hv, rfl⟩, Nat.zero_le _, rfl, rfl⟩
    | fixed64 hlength =>
        refine ⟨8, _, rfl, ?_, List.take_left' hlength, List.drop_left' hlength⟩
        rw [List.length_append]
        omega
    | @delimited size _ hspells =>
        have hsize := varint_iff.2 ⟨size, List.append_assoc size bytes rest, hspells⟩
        refine ⟨bytes.length, _, map_ok_iff.2 ⟨_, hsize, rfl⟩, ?_, List.take_left, List.drop_left⟩
        rw [List.length_append]
        omega
    | fixed32 hlength =>
        refine ⟨4, _, rfl, ?_, List.take_left' hlength, List.drop_left' hlength⟩
        rw [List.length_append]
        omega

theorem tag_split (tag : Nat) : tag = (tag >>> 3) * 8 + (tag &&& 7) := by
  have hlow : tag &&& 7 = tag % 8 := Nat.and_two_pow_sub_one_eq_mod tag 3
  rw [Nat.shiftRight_eq_div_pow, hlow]
  omega

theorem tag_parts (field : Nat) {wireType : Nat} (h : wireType < 8) :
    (field * 8 + wireType) >>> 3 = field ∧ (field * 8 + wireType) &&& 7 = wireType := by
  have hlow : (field * 8 + wireType) &&& 7 = (field * 8 + wireType) % 8 :=
    Nat.and_two_pow_sub_one_eq_mod _ 3
  rw [Nat.shiftRight_eq_div_pow, hlow]
  omega

theorem protoField_iff {f : ProtoField} {bytes rest : List UInt8} :
    protoField bytes = .ok (f, rest) ↔ ∃ code, bytes = code ++ rest ∧ FieldCode f code := by
  unfold protoField
  rw [bind_ok_iff]
  constructor
  · rintro ⟨⟨tag, later⟩, htag, hfield⟩
    obtain ⟨code, rfl, hspells⟩ := varint_iff.1 htag
    dsimp only at hfield
    split at hfield
    · cases hfield
    rename_i hpos
    obtain ⟨⟨value, length, tail⟩, hvalue, hbytes⟩ := bind_ok_iff.1 hfield
    dsimp only at hbytes
    split at hbytes
    · cases hbytes
    rename_i hlength
    cases hbytes
    obtain ⟨payload, rfl, hpayload⟩ :=
      fieldValue_iff.1 ⟨length, tail, hvalue, Nat.le_of_not_lt hlength, rfl, rfl⟩
    refine ⟨code ++ payload, (List.append_assoc code payload _).symm, .intro hpos ?_ hpayload⟩
    exact tag_split tag ▸ hspells
  · rintro ⟨_, rfl, hcode⟩
    cases hcode with
    | @intro wireType tag payload hpos hspells hpayload =>
        obtain ⟨hfield, htype⟩ := tag_parts f.field hpayload.wireType_lt
        refine ⟨⟨f.field * 8 + wireType, payload ++ rest⟩, ?_, ?_⟩
        · exact varint_iff.2 ⟨tag, List.append_assoc tag payload rest, hspells⟩
        · dsimp only
          rw [hfield, htype, if_neg hpos, bind_ok_iff]
          obtain ⟨length, later, hvalue, hlength, hbytes, hrest⟩ :=
            fieldValue_iff.2 ⟨payload, rfl, hpayload⟩
          refine ⟨_, hvalue, ?_⟩
          dsimp only
          rw [if_neg (Nat.not_lt_of_le hlength), hbytes, hrest]

theorem FieldCode.ne_nil {f : ProtoField} {code : List UInt8} (h : FieldCode f code) :
    code ≠ [] := by
  cases h with
  | intro _ hspells _ =>
      intro hnil
      exact hspells.delimited.ne_nil (List.append_eq_nil_iff.1 hnil).1

theorem wire_nil_iff {fs : List ProtoField} : Wire fs [] ↔ fs = [] := by
  constructor
  · intro h
    generalize hnil : ([] : List UInt8) = bytes at h
    cases h with
    | nil => rfl
    | cons hcode _ => exact absurd (List.append_eq_nil_iff.1 hnil.symm).1 hcode.ne_nil
  · rintro rfl
    exact .nil

theorem fieldsLoop_iff {budget : Nat} {bytes : List UInt8} {fs : List ProtoField} :
    fieldsLoop budget bytes = .ok fs ↔ fs.length ≤ budget ∧ Wire fs bytes := by
  induction budget generalizing bytes fs with
  | zero =>
      cases bytes with
      | nil =>
          constructor
          · intro h
            cases h
            exact ⟨Nat.le_refl 0, .nil⟩
          · rintro ⟨hcount, _⟩
            rw [List.length_eq_zero_iff.1 (Nat.le_zero.1 hcount)]
            rfl
      | cons b bytes =>
          refine ⟨nofun, ?_⟩
          rintro ⟨hcount, hwire⟩
          rw [List.length_eq_zero_iff.1 (Nat.le_zero.1 hcount)] at hwire
          cases hwire
  | succ budget ih =>
      cases bytes with
      | nil =>
          constructor
          · intro h
            cases h
            exact ⟨Nat.zero_le _, .nil⟩
          · rintro ⟨_, hwire⟩
            rw [wire_nil_iff.1 hwire]
            rfl
      | cons b bytes =>
          unfold fieldsLoop
          rw [bind_ok_iff]
          constructor
          · rintro ⟨⟨f, rest⟩, hf, hrest⟩
            obtain ⟨fs, hfs, rfl⟩ := map_ok_iff.1 hrest
            obtain ⟨code, hbytes, hcode⟩ := protoField_iff.1 hf
            obtain ⟨hcount, hwire⟩ := ih.1 hfs
            rw [hbytes]
            exact ⟨Nat.succ_le_succ hcount, .cons hcode hwire⟩
          · rintro ⟨hcount, hwire⟩
            generalize hall : b :: bytes = all at hwire
            cases hwire with
            | nil => cases hall
            | @cons f fs code rest hcode hrest =>
                refine ⟨⟨f, rest⟩, protoField_iff.2 ⟨code, rfl, hcode⟩, ?_⟩
                exact map_ok_iff.2 ⟨fs, ih.2 ⟨Nat.le_of_succ_le_succ hcount, hrest⟩, rfl⟩

/-- The parser reads a record exactly where one is written. -/
theorem fields_iff {bytes : List UInt8} {fs : List ProtoField} :
    fields bytes = .ok fs ↔ Record fs bytes := by
  unfold fields
  split
  · rename_i hsize
    refine ⟨nofun, fun h => absurd h.size (Nat.not_le_of_lt hsize)⟩
  · rename_i hsize
    rw [fieldsLoop_iff]
    constructor
    · rintro ⟨hcount, hwire⟩
      exact ⟨Nat.le_of_not_lt hsize, hcount, hwire⟩
    · intro h
      exact ⟨h.count, h.wire⟩

/-! ## Announced geometries -/

/-- The numbers that a record gives under this field, in order. -/
def valuesOf (field : Nat) (fs : List ProtoField) : List Nat :=
  fs.filterMap fun f => if f.field = field then f.value else none

namespace Geometry

/-- What a picture record says over this geometry: of a repeated field, the last value. -/
def reading (g : Geometry) (fs : List ProtoField) : Geometry where
  width := (valuesOf 4 fs).getLastD g.width
  height := (valuesOf 5 fs).getLastD g.height
  tiles := (valuesOf 6 fs).getLastD g.tiles
  ltr := ((valuesOf 7 fs).map fun v => decide (v ≠ 0)).getLastD g.ltr

def Shown (g : Geometry) : Prop := 0 < g.width ∧ 0 < g.height

/-- The limits of the protocol. -/
structure Negotiable (g : Geometry) : Prop where
  width : g.width ≤ 16384
  height : g.height ≤ 16384
  area : g.width * g.height ≤ 67108864
  tiles : 1 ≤ g.tiles ∧ g.tiles ≤ 64

end Geometry

theorem valuesOf_cons_of_ne {field : Nat} {f : ProtoField} (h : f.field ≠ field)
    (fs : List ProtoField) : valuesOf field (f :: fs) = valuesOf field fs :=
  List.filterMap_cons_none (if_neg h)

theorem valuesOf_cons_of_none {field : Nat} {f : ProtoField} (h : f.value = none)
    (fs : List ProtoField) : valuesOf field (f :: fs) = valuesOf field fs := by
  apply List.filterMap_cons_none
  rw [h, ite_self]

theorem valuesOf_cons_self {f : ProtoField} {v : Nat} (h : f.value = some v)
    (fs : List ProtoField) : valuesOf f.field (f :: fs) = v :: valuesOf f.field fs := by
  apply List.filterMap_cons_some
  rw [if_pos rfl, h]

theorem reading_note (g : Geometry) (f : ProtoField) (fs : List ProtoField) :
    (g.note f).reading fs = g.reading (f :: fs) := by
  unfold Geometry.reading Geometry.note
  cases hv : f.value with
  | none => simp only [valuesOf_cons_of_none hv]
  | some v =>
      have hself := valuesOf_cons_self hv fs
      by_cases h4 : f.field = 4
      · rw [h4] at hself
        simp [h4, hself, valuesOf_cons_of_ne, List.getLastD_cons, -List.getLastD_eq_getLast?]
      by_cases h5 : f.field = 5
      · rw [h5] at hself
        simp [h5, hself, valuesOf_cons_of_ne, List.getLastD_cons, -List.getLastD_eq_getLast?]
      by_cases h6 : f.field = 6
      · rw [h6] at hself
        simp [h6, hself, valuesOf_cons_of_ne, List.getLastD_cons, -List.getLastD_eq_getLast?]
      by_cases h7 : f.field = 7
      · rw [h7] at hself
        simp [h7, hself, valuesOf_cons_of_ne, List.getLastD_cons, -List.getLastD_eq_getLast?]
      simp [h4, h5, h6, h7, valuesOf_cons_of_ne]

/-- The fold of the code keeps the last value of each field. -/
theorem foldl_note (fs : List ProtoField) (g : Geometry) :
    fs.foldl Geometry.note g = g.reading fs := by
  induction fs generalizing g with
  | nil => rfl
  | cons f fs ih => rw [List.foldl_cons, ih, reading_note]

/-- The field is the record of a picture with this geometry. -/
structure Picture (f : ProtoField) (g : Geometry) : Prop where
  field : f.field = 5
  read : ∃ sub, Record sub f.bytes ∧ g = Geometry.absent.reading sub

/-- The first picture of a record. -/
inductive FirstPicture : List ProtoField → Geometry → Prop
  | here {f : ProtoField} {rest : List ProtoField} {g : Geometry} :
      Picture f g → g.Shown → FirstPicture (f :: rest) g
  | other {f : ProtoField} {rest : List ProtoField} {g : Geometry} :
      f.field ≠ 5 → FirstPicture rest g → FirstPicture (f :: rest) g
  | empty {f : ProtoField} {rest : List ProtoField} {g e : Geometry} :
      Picture f e → ¬e.Shown → FirstPicture rest g → FirstPicture (f :: rest) g

/-- The answer of the code to a picture that is shown. -/
theorem limits_iff {g : Geometry} {cfg : StreamConfig} :
    (if ¬(g.width ≤ 16384 ∧ g.height ≤ 16384 ∧ g.width * g.height ≤ 67108864) then
        (.error .canvasExceedsLimits : Except MetadataError (Option StreamConfig))
      else if ¬(1 ≤ g.tiles ∧ g.tiles ≤ 64) then .error .invalidTileCount
      else .ok (some g.config)) = .ok (some cfg) ↔ g.Negotiable ∧ cfg = g.config := by
  by_cases hcanvas : g.width ≤ 16384 ∧ g.height ≤ 16384 ∧ g.width * g.height ≤ 67108864
  · rw [if_neg (not_not.2 hcanvas)]
    by_cases htiles : 1 ≤ g.tiles ∧ g.tiles ≤ 64
    · rw [if_neg (not_not.2 htiles), Except.ok.injEq, Option.some.injEq, eq_comm]
      have hlimits : g.Negotiable := ⟨hcanvas.1, hcanvas.2.1, hcanvas.2.2, htiles⟩
      exact (and_iff_right hlimits).symm
    · rw [if_pos htiles]
      exact ⟨nofun, fun h => absurd h.1.tiles htiles⟩
  · rw [if_pos hcanvas]
    exact ⟨nofun, fun h => absurd ⟨h.1.width, h.1.height, h.1.area⟩ hcanvas⟩

theorem videoConfigLoop_iff {fs : List ProtoField} {cfg : StreamConfig} :
    videoConfigLoop fs = .ok (some cfg) ↔
      ∃ g, FirstPicture fs g ∧ g.Negotiable ∧ cfg = g.config := by
  induction fs with
  | nil =>
      refine ⟨nofun, ?_⟩
      rintro ⟨g, hnone, _⟩
      cases hnone
  | cons f rest ih =>
      unfold videoConfigLoop
      by_cases hfield : f.field = 5
      · rw [if_neg (not_not.2 hfield), bind_ok_iff]
        constructor
        · rintro ⟨sub, hsub, hcfg⟩
          rw [foldl_note] at hcfg
          have hpicture : Picture f (Geometry.absent.reading sub) :=
            ⟨hfield, sub, fields_iff.1 hsub, rfl⟩
          by_cases hshown : (Geometry.absent.reading sub).Shown
          · have hlimits := limits_iff.1 ((if_pos hshown).symm.trans hcfg)
            exact ⟨_, .here hpicture hshown, hlimits⟩
          · obtain ⟨g, hg, hlimits⟩ := ih.1 ((if_neg hshown).symm.trans hcfg)
            exact ⟨g, .empty hpicture hshown hg, hlimits⟩
        · rintro ⟨g, hfirst, hlimits⟩
          cases hfirst with
          | here hpicture hshown =>
              obtain ⟨_, sub, hsub, rfl⟩ := hpicture
              refine ⟨sub, fields_iff.2 hsub, ?_⟩
              rw [foldl_note]
              exact (if_pos hshown).trans (limits_iff.2 hlimits)
          | other hne _ => exact absurd hfield hne
          | empty hpicture hshown hrest =>
              obtain ⟨_, sub, hsub, rfl⟩ := hpicture
              refine ⟨sub, fields_iff.2 hsub, ?_⟩
              rw [foldl_note]
              exact (if_neg hshown).trans (ih.2 ⟨g, hrest, hlimits⟩)
      · rw [if_pos hfield, ih]
        constructor
        · rintro ⟨g, hrest, hlimits⟩
          exact ⟨g, .other hfield hrest, hlimits⟩
        · rintro ⟨g, hfirst, hlimits⟩
          cases hfirst with
          | here hpicture _ => exact absurd hpicture.field hfield
          | other _ hrest => exact ⟨g, hrest, hlimits⟩
          | empty hpicture _ _ => exact absurd hpicture.field hfield

/-- The bytes hold a picture with this geometry, within the limits of the protocol. -/
def Describes (out : List UInt8) (g : Geometry) : Prop :=
  ∃ fs, Record fs out ∧ FirstPicture fs g ∧ g.Negotiable

theorem videoConfig_iff {out : List UInt8} {cfg : StreamConfig} :
    videoConfig out = .ok (some cfg) ↔ ∃ g, Describes out g ∧ cfg = g.config := by
  unfold videoConfig
  rw [bind_ok_iff]
  constructor
  · rintro ⟨fs, hfs, hcfg⟩
    obtain ⟨g, hfirst, hlimits, heq⟩ := videoConfigLoop_iff.1 hcfg
    exact ⟨g, ⟨fs, fields_iff.1 hfs, hfirst, hlimits⟩, heq⟩
  · rintro ⟨g, ⟨fs, hfs, hfirst, hlimits⟩, heq⟩
    exact ⟨fs, fields_iff.2 hfs, videoConfigLoop_iff.2 ⟨g, hfirst, hlimits, heq⟩⟩

def candidates : List UInt8 → List (List UInt8)
  | a :: b :: rest =>
      if a ≠ 0x78 ∨ (a.toNat * 256 + b.toNat) % 31 ≠ 0 then candidates (b :: rest)
      else (a :: b :: rest) :: candidates (b :: rest)
  | _ => []

/-- The first of the candidates that expands to a picture, after so many attempts and
expanded bytes. -/
inductive Announces (decoder : Decoder) : Nat → Nat → List (List UInt8) → Geometry → Prop
  | here {attempts expanded : Nat} {stream out : List UInt8} {later : List (List UInt8)}
      {g : Geometry} : attempts < 32 →
      decoder stream (1024 * 1024 - expanded + 1) = (out, true) →
      expanded + out.length ≤ 1024 * 1024 → Describes out g →
      Announces decoder attempts expanded (stream :: later) g
  | later {attempts expanded : Nat} {stream out : List UInt8} {decoded : Bool}
      {later : List (List UInt8)} {g : Geometry} : attempts < 32 →
      decoder stream (1024 * 1024 - expanded + 1) = (out, decoded) →
      expanded + out.length ≤ 1024 * 1024 → (decoded = true → ¬∃ e, Describes out e) →
      Announces decoder (attempts + 1) (expanded + out.length) later g →
      Announces decoder attempts expanded (stream :: later) g

theorem announces_cons {decoder : Decoder} {attempts expanded : Nat} {stream out : List UInt8}
    {decoded : Bool} {later : List (List UInt8)} {g : Geometry}
    (hdecoder : decoder stream (1024 * 1024 - expanded + 1) = (out, decoded)) :
    Announces decoder attempts expanded (stream :: later) g ↔
      attempts < 32 ∧ expanded + out.length ≤ 1024 * 1024 ∧
        (decoded = true ∧ Describes out g ∨
          (decoded = true → ¬∃ e, Describes out e) ∧
            Announces decoder (attempts + 1) (expanded + out.length) later g) := by
  constructor
  · intro h
    cases h with
    | here hfew hout hsize hdescribes =>
        cases hdecoder.symm.trans hout
        exact ⟨hfew, hsize, .inl ⟨rfl, hdescribes⟩⟩
    | later hfew hout hsize hnone hlater =>
        cases hdecoder.symm.trans hout
        exact ⟨hfew, hsize, .inr ⟨hnone, hlater⟩⟩
  · rintro ⟨hfew, hsize, ⟨rfl, hdescribes⟩ | ⟨hnone, hlater⟩⟩
    · exact .here hfew hdecoder hsize hdescribes
    · exact .later hfew hdecoder hsize hnone hlater

theorem scan_iff {decoder : Decoder} {attempts expanded : Nat} {bytes : List UInt8}
    {cfg : StreamConfig} :
    scan decoder attempts expanded bytes = .ok (some cfg) ↔
      ∃ g, Announces decoder attempts expanded (candidates bytes) g ∧ cfg = g.config := by
  fun_induction candidates bytes generalizing attempts expanded with
  | case1 a b rest hheader ih =>
      unfold scan
      rw [if_pos hheader, ih]
  | case2 a b rest hheader ih =>
      unfold scan
      rw [if_neg hheader]
      obtain ⟨out, decoded, hdecoder⟩ : ∃ out decoded,
        decoder (a :: b :: rest) (1024 * 1024 - expanded + 1) = (out, decoded) := ⟨_, _, rfl⟩
      simp only [announces_cons hdecoder, hdecoder]
      by_cases hattempts : 32 < attempts + 1
      · rw [if_pos hattempts]
        refine ⟨nofun, ?_⟩
        rintro ⟨g, ⟨hfew, _⟩, _⟩
        omega
      have hfew : attempts < 32 := by omega
      rw [if_neg hattempts]
      by_cases hsize : 1024 * 1024 < expanded + out.length
      · rw [if_pos hsize]
        refine ⟨nofun, ?_⟩
        rintro ⟨g, ⟨_, hsmall, _⟩, _⟩
        omega
      rw [if_neg hsize]
      simp only [hfew, Nat.le_of_not_lt hsize, true_and]
      cases decoded with
      | false =>
          rw [if_pos rfl, ih]
          simp only [Bool.false_eq_true, false_and, false_or, false_implies, true_and]
      | true =>
          rw [if_neg nofun]
          by_cases hdescribed : ∃ e, Describes out e
          · obtain ⟨e, he⟩ := hdescribed
            have hconfig := videoConfig_iff.2 ⟨e, he, rfl⟩
            rw [hconfig]
            constructor
            · intro h
              cases h
              exact ⟨e, .inl ⟨rfl, he⟩, rfl⟩
            · rintro ⟨g, ⟨_, hg⟩ | ⟨hnone, _⟩, rfl⟩
              · exact hconfig.symm.trans (videoConfig_iff.2 ⟨g, hg, rfl⟩)
              · exact absurd ⟨e, he⟩ (hnone rfl)
          · have hnone : ∀ g, ¬Describes out g := fun g hg => hdescribed ⟨g, hg⟩
            split
            · rename_i config hconfig
              obtain ⟨e, he, _⟩ := videoConfig_iff.1 hconfig
              exact absurd he (hnone e)
            · rw [ih]
              simp only [hnone, and_false, false_or, exists_false, not_false_eq_true, implies_true,
                true_and]
  | case3 bytes h =>
      have hscan : scan decoder attempts expanded bytes = .ok none := by
        match bytes with
        | [] => rfl
        | [_] => rfl
        | a :: b :: rest => exact absurd rfl (h a b rest)
      rw [hscan]
      refine ⟨nofun, ?_⟩
      rintro ⟨g, hg, _⟩
      cases hg

/-- What an answer announces: the first picture behind its first anchor. -/
structure Announced (decoder : Decoder) (body : List UInt8) (g : Geometry) : Prop where
  size : body.length ≤ 65498
  kind : body.head? = some 0
  picture : ∃ rest, anchored body = some rest ∧ Announces decoder 0 0 (candidates rest) g

/-- An answer is read exactly as it is announced. -/
theorem parseAnswer_iff {decoder : Decoder} {body : List UInt8} {cfg : StreamConfig} :
    parseAnswer decoder body = .ok (some cfg) ↔
      ∃ g, Announced decoder body g ∧ cfg = g.config := by
  unfold parseAnswer
  by_cases hsize : 65498 < body.length
  · rw [if_pos hsize]
    refine ⟨nofun, ?_⟩
    rintro ⟨g, hg, _⟩
    exact absurd hg.size (Nat.not_le_of_lt hsize)
  rw [if_neg hsize]
  by_cases hkind : body.head? = some 0
  · rw [if_neg (not_not.2 hkind)]
    cases hanchor : anchored body with
    | none =>
        refine ⟨nofun, ?_⟩
        rintro ⟨g, ⟨_, _, rest, hrest, _⟩, _⟩
        rw [hanchor] at hrest
        cases hrest
    | some rest =>
        dsimp only
        rw [scan_iff]
        constructor
        · rintro ⟨g, hg, rfl⟩
          exact ⟨g, ⟨Nat.le_of_not_lt hsize, hkind, rest, hanchor, hg⟩, rfl⟩
        · rintro ⟨g, ⟨_, _, rest', hrest, hg⟩, rfl⟩
          cases hanchor.symm.trans hrest
          exact ⟨g, hg, rfl⟩
  · rw [if_pos hkind]
    refine ⟨nofun, ?_⟩
    rintro ⟨g, hg, _⟩
    exact absurd hg.kind hkind

theorem shown_of_firstPicture {fs : List ProtoField} {g : Geometry} (h : FirstPicture fs g) :
    g.Shown := by
  induction h with
  | here _ hshown => exact hshown
  | other _ _ ih => exact ih
  | empty _ _ _ ih => exact ih

theorem describes_of_announces {decoder : Decoder} {attempts expanded : Nat}
    {streams : List (List UInt8)} {g : Geometry}
    (h : Announces decoder attempts expanded streams g) : ∃ out, Describes out g := by
  induction h with
  | here _ _ _ hdescribes => exact ⟨_, hdescribes⟩
  | later _ _ _ _ _ ih => exact ih

/-- An announced geometry shows a picture within the limits of the protocol. -/
theorem announced_limits {decoder : Decoder} {body : List UInt8} {g : Geometry}
    (h : Announced decoder body g) : g.Shown ∧ g.Negotiable := by
  obtain ⟨rest, _, hstreams⟩ := h.picture
  obtain ⟨out, fs, _, hfirst, hlimits⟩ := describes_of_announces hstreams
  exact ⟨shown_of_firstPicture hfirst, hlimits⟩

theorem toNat_toUInt16 {n bound : Nat} (h : n ≤ bound) (hbound : bound < 2 ^ 16) :
    n.toUInt16.toNat = n := by
  rw [Nat.toUInt16_eq]
  exact UInt16.toNat_ofNat_of_lt' (Nat.lt_of_le_of_lt h hbound)

/-- The casts of the configuration keep what is negotiable. -/
theorem config_toNat {g : Geometry} (h : g.Negotiable) :
    g.config.width.toNat = g.width ∧ g.config.height.toNat = g.height ∧
      g.config.tileCount.toNat = g.tiles := by
  refine ⟨?_, ?_, ?_⟩
  · exact toNat_toUInt16 h.width (by decide)
  · exact toNat_toUInt16 h.height (by decide)
  · exact toNat_toUInt16 h.tiles.2 (by decide)

end MacVnc.Protocol.Metadata

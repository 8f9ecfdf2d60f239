import MacVnc.Lib.Checked
import MacVnc.Protocol.Metadata
import Mathlib.Data.UInt
/-!
# Protobuf fields of an offer

The writer of `hp-protocol/src/offer.rs`, which the reader of `metadata.rs` inverts.
The reader stands here once more at offsets into its input, with every access
checked; an index or a range outside of the input is `none`.
-/

namespace MacVnc.Protocol.Offer

open MacVnc.Lib
open MacVnc.Lib.Varint
open MacVnc.Protocol.Metadata

/-! ## Writing -/

theorem toNat_shiftRight_seven (value : UInt64) :
    (value >>> 7).toNat = value.toNat / 128 := by
  rw [UInt64.toNat_shiftRight]
  exact Nat.shiftRight_eq_div_pow _ 7

def varint (value : UInt64) : List UInt8 :=
  if value > 127 then (value.toUInt8 ||| 128) :: varint (value >>> 7) else [value.toUInt8]
termination_by value.toNat
decreasing_by
  have hlarge : 127 < value.toNat := UInt64.lt_iff_toNat_lt.1 ‹value > 127›
  rw [toNat_shiftRight_seven]
  omega

def v (n value : UInt64) : List UInt8 := varint (n <<< 3) ++ varint value

def b (n : UInt64) (value : List UInt8) : List UInt8 :=
  varint (n <<< 3 ||| 2) ++ varint (UInt64.ofNat value.length) ++ value

inductive Field where
  | number (n value : UInt64)
  | bytes (n : UInt64) (value : List UInt8)

namespace Field

def n : Field → UInt64
  | number n _ => n
  | bytes n _ => n

/-- The numbers that fit above the wire type. -/
def Numbered (f : Field) : Prop := 1 ≤ f.n.toNat ∧ f.n.toNat ≤ 2 ^ 61 - 1

def code : Field → List UInt8
  | number n value => v n value
  | bytes n value => b n value

def read : Field → ProtoField
  | number n value => { field := n.toNat, value := some value.toNat, bytes := [] }
  | bytes n value => { field := n.toNat, value := none, bytes := value }

end Field

/-! ## Reading at offsets -/

/-- A computation that may fail, and `none` where an access would stop the program. -/
abbrev Guarded (α : Type) : Type := Checked.Guarded MetadataError α

/-- A field and where its bytes lie. -/
structure Placed extends ProtoField where
  first : Nat
  last : Nat

/-- The rounds of the loop of `varint`, from this shift and offset on. -/
def varintLoopAt (bytes : List UInt8) : Nat → Nat → Nat → Nat → Guarded (Nat × Nat)
  | 0, _, _, _ => throw .invalidVarint
  | rounds + 1, shift, v, p =>
      if ¬p < bytes.length then throw .truncatedVarint
      else do
        let c ← (bytes[p]? : Option UInt8)
        let p ← Checked.add 64 p 1
        if ¬(shift ≠ 63 ∨ c ≤ 1) then throw .varintOverflow
        else
          let v := v ||| (c.toNat &&& 127) <<< shift
          if c &&& 128 = 0 then return (v, p) else varintLoopAt bytes rounds (shift + 7) v p

def varintAt (bytes : List UInt8) (p : Nat) : Guarded (Nat × Nat) := varintLoopAt bytes 10 0 0 p

def fieldValueAt (bytes : List UInt8) (wireType p : Nat) : Guarded ((Option Nat × Nat) × Nat) :=
  match wireType with
  | 0 => do
      let (value, p) ← varintAt bytes p
      return ((some value, 0), p)
  | 1 => return ((none, 8), p)
  | 2 => do
      let (length, p) ← varintAt bytes p
      return ((none, length), p)
  | 5 => return ((none, 4), p)
  | _ => throw .unsupportedWireType

def protoFieldAt (bytes : List UInt8) (p : Nat) : Guarded (Placed × Nat) := do
  let (tag, p) ← varintAt bytes p
  let field := tag >>> 3
  if field = 0 then throw .invalidField
  else
    let ((value, length), p) ← fieldValueAt bytes (tag &&& 7) p
    let left ← Checked.sub bytes.length p
    if left < length then throw .truncatedField
    else
      let last ← Checked.add 64 p length
      let content ← Checked.slice bytes p last
      return ({ field, value, bytes := content, first := p, last }, last)

/-- The loop over the fields, of which so many more are allowed. -/
def fieldsLoopAt (bytes : List UInt8) : Nat → Nat → Guarded (List Placed)
  | 0, p => if p < bytes.length then throw .fieldCountExceedsLimit else return []
  | budget + 1, p =>
      if p < bytes.length then do
        let (f, p) ← protoFieldAt bytes p
        let rest ← fieldsLoopAt bytes budget p
        return f :: rest
      else return []

def fieldsAt (bytes : List UInt8) : Guarded (List Placed) :=
  if 1024 * 1024 < bytes.length then throw .exceedsInputLimit else fieldsLoopAt bytes 4096 0

/-! ## Varints -/

theorem toNat_toUInt8 (value : UInt64) : value.toUInt8.toNat = value.toNat % 256 := by
  rw [UInt64.toNat_toUInt8]

/-- The bit that says that the number goes on leaves the group as it is. -/
theorem continued (c : UInt8) :
    128 ≤ (c ||| 128).toNat ∧ (c ||| 128).toNat % 128 = c.toNat % 128 := by
  rw [UInt8.toNat_or]
  have hlow : (c.toNat ||| 128) % 2 ^ 7 = c.toNat % 2 ^ 7 ||| 0 := Nat.or_mod_two_pow
  rw [Nat.or_zero] at hlow
  exact ⟨Nat.right_le_or, hlow⟩

theorem delimited_varint (value : UInt64) : Delimited (varint value) := by
  fun_induction varint value with
  | case1 value hlarge ih => exact delimited_cons.2 (.inr ⟨(continued _).1, ih⟩)
  | case2 value hsmall =>
      have hle : value.toNat ≤ 127 := UInt64.le_iff_toNat_le.1 (UInt64.not_lt.1 hsmall)
      refine delimited_cons.2 (.inl ⟨rfl, ?_⟩)
      rw [toNat_toUInt8]
      omega

theorem sevenBits_varint (value : UInt64) : sevenBits (varint value) = value.toNat := by
  fun_induction varint value with
  | case1 value hlarge ih =>
      rw [sevenBits, (continued _).2, ih, toNat_toUInt8, toNat_shiftRight_seven]
      omega
  | case2 value hsmall =>
      have hle : value.toNat ≤ 127 := UInt64.le_iff_toNat_le.1 (UInt64.not_lt.1 hsmall)
      rw [sevenBits, sevenBits, toNat_toUInt8]
      omega

theorem length_varint {value : UInt64} {groups : Nat} (h : value.toNat < 128 ^ (groups + 1)) :
    (varint value).length ≤ groups + 1 := by
  induction groups generalizing value with
  | zero =>
      have hsmall : ¬value > 127 := by
        rw [gt_iff_lt, UInt64.lt_iff_toNat_lt]
        exact Nat.not_lt_of_le (Nat.le_of_lt_succ h)
      rw [varint, if_neg hsmall]
      exact Nat.le_refl 1
  | succ groups ih =>
      rw [varint]
      split
      · have hnext : (value >>> 7).toNat < 128 ^ (groups + 1) := by
          rw [toNat_shiftRight_seven]
          exact Nat.div_lt_of_lt_mul (by rwa [Nat.pow_succ, Nat.mul_comm] at h)
        exact Nat.succ_le_succ (ih hnext)
      · exact Nat.succ_le_succ (Nat.zero_le _)

theorem spells_varint (value : UInt64) : Spells (varint value) value.toNat where
  delimited := delimited_varint value
  short := length_varint (Nat.lt_trans value.toNat_lt (by decide))
  value := sevenBits_varint value
  fits := value.toNat_lt

/-! ## Fields -/

theorem spells_tag {n : UInt64} (hn : n.toNat ≤ 2 ^ 61 - 1) (wireType : UInt64)
    (htype : wireType.toNat < 8) :
    Spells (varint (n <<< 3 ||| wireType)) (n.toNat * 8 + wireType.toNat) := by
  have hshift : (n <<< 3).toNat = n.toNat <<< 3 := by
    rw [UInt64.toNat_shiftLeft]
    apply Nat.mod_eq_of_lt
    rw [Nat.shiftLeft_eq]
    have hthree : (3 : UInt64).toNat % 64 = 3 := rfl
    rw [hthree]
    omega
  have htag : (n <<< 3 ||| wireType).toNat = n.toNat * 8 + wireType.toNat := by
    have hlow : wireType.toNat < 2 ^ 3 := htype
    rw [UInt64.toNat_or, hshift, ← Nat.shiftLeft_add_eq_or_of_lt hlow, Nat.shiftLeft_eq]
  rw [← htag]
  exact spells_varint _

/-- What is written is a field on the wire. -/
theorem fieldCode_code {f : Field} (h : f.Numbered) (hsize : f.code.length ≤ 1024 * 1024) :
    FieldCode f.read f.code := by
  have hpos : f.n.toNat ≠ 0 := by
    have hone := h.1
    omega
  cases f with
  | number n value =>
      have htag := spells_tag h.2 0 (by decide)
      rw [UInt64.or_zero] at htag
      exact .intro hpos htag (.varint (spells_varint value))
  | bytes n value =>
      have hlength : (UInt64.ofNat value.length).toNat = value.length := by
        rw [UInt64.toNat_ofNat']
        apply Nat.mod_eq_of_lt
        rw [Field.code, b, List.length_append] at hsize
        omega
      have hvalue := spells_varint (UInt64.ofNat value.length)
      rw [hlength] at hvalue
      have htag : Spells _ _ := spells_tag h.2 2 (by decide)
      rw [Field.code, b, List.append_assoc]
      exact .intro hpos htag (.delimited hvalue)

theorem wire_written {fs : List Field} (hnumbers : ∀ f ∈ fs, f.Numbered)
    (hsize : (fs.flatMap Field.code).length ≤ 1024 * 1024) :
    Wire (fs.map Field.read) (fs.flatMap Field.code) := by
  induction fs with
  | nil => exact .nil
  | cons f fs ih =>
      rw [List.flatMap_cons, List.length_append] at hsize
      have hrest := ih (fun g hg => hnumbers g (List.mem_cons_of_mem f hg)) (by omega)
      exact .cons (fieldCode_code (hnumbers f List.mem_cons_self) (by omega)) hrest

theorem fields_written {fs : List Field} (hcount : fs.length ≤ 4096)
    (hnumbers : ∀ f ∈ fs, f.Numbered) (hsize : (fs.flatMap Field.code).length ≤ 1024 * 1024) :
    fields (fs.flatMap Field.code) = .ok (fs.map Field.read) := by
  refine fields_iff.2 ⟨hsize, ?_, wire_written hnumbers hsize⟩
  rwa [List.length_map]

/-! ## The reader at offsets -/

section Reads

variable {α β : Type} {bytes : List UInt8} {p : Nat}

/-- The reader at an offset finds what the reader of the rest finds there, and the offset
behind it. -/
inductive Reads (bytes : List UInt8) (p : Nat) :
    Guarded (α × Nat) → Except MetadataError (α × List UInt8) → Prop
  | ok {a : α} {q : Nat} (hforward : p ≤ q) (hinside : q ≤ bytes.length) :
      Reads bytes p (pure (a, q)) (.ok (a, bytes.drop q))
  | error (e : MetadataError) : Reads bytes p (throw e) (.error e)

theorem Reads.bind {x : Guarded (α × Nat)} {s : Except MetadataError (α × List UInt8)}
    {f : α × Nat → Guarded (β × Nat)} {g : α × List UInt8 → Except MetadataError (β × List UInt8)}
    (h : Reads bytes p x s)
    (hnext : ∀ a q, p ≤ q → q ≤ bytes.length → Reads bytes q (f (a, q)) (g (a, bytes.drop q))) :
    Reads bytes p (x >>= f) (s.bind g) := by
  cases h with
  | error e => exact .error e
  | @ok a q hforward hinside =>
      have hafter : Reads bytes q (f (a, q)) (g (a, bytes.drop q)) := hnext a q hforward hinside
      change Reads bytes p (f (a, q)) (g (a, bytes.drop q))
      generalize f (a, q) = found at hafter ⊢
      generalize g (a, bytes.drop q) = expected at hafter ⊢
      cases hafter with
      | error e => exact .error e
      | ok hforward' hinside' => exact .ok (Nat.le_trans hforward hforward') hinside'

theorem Reads.weaken {q : Nat} {x : Guarded (α × Nat)} {s : Except MetadataError (α × List UInt8)}
    (h : Reads bytes q x s) (hle : p ≤ q) : Reads bytes p x s := by
  cases h with
  | error e => exact .error e
  | ok hforward hinside => exact .ok (Nat.le_trans hle hforward) hinside

theorem Reads.outcome {x : Guarded (α × Nat)} {s : Except MetadataError (α × List UInt8)}
    (h : Reads bytes p x s) :
    (∃ e, x = throw e ∧ s = .error e) ∨
      ∃ a q, x = pure (a, q) ∧ s = .ok (a, bytes.drop q) ∧ p ≤ q ∧ q ≤ bytes.length := by
  cases h with
  | error e => exact .inl ⟨e, rfl, rfl⟩
  | ok hforward hinside => exact .inr ⟨_, _, rfl, rfl, hforward, hinside⟩

end Reads

theorem add_one_of_lt {bytes : List UInt8} (hsize : bytes.length ≤ 1024 * 1024) {p : Nat}
    (h : p < bytes.length) : Checked.add 64 p 1 = some (p + 1) :=
  Checked.add_of_lt (by omega)

theorem varintLoopAt_reads {bytes : List UInt8} (hsize : bytes.length ≤ 1024 * 1024)
    {rounds shift v p : Nat} (hp : p ≤ bytes.length) :
    Reads bytes p (varintLoopAt bytes rounds shift v p)
      (varintLoop rounds shift v (bytes.drop p)) := by
  induction rounds generalizing shift v p with
  | zero => exact .error _
  | succ rounds ih =>
      unfold varintLoopAt
      by_cases hlt : p < bytes.length
      · rw [if_neg (not_not.2 hlt), List.getElem?_eq_getElem hlt, add_one_of_lt hsize hlt,
          List.drop_eq_getElem_cons hlt]
        generalize bytes[p] = c
        unfold varintLoop
        simp only [Checked.lift_bind]
        split
        · exact .error _
        · split
          · exact .ok (Nat.le_succ p) hlt
          · exact (ih hlt).weaken (Nat.le_succ p)
      · rw [if_pos hlt, List.drop_eq_nil_of_le (Nat.le_of_not_lt hlt)]
        exact .error _

theorem varintAt_reads {bytes : List UInt8} (hsize : bytes.length ≤ 1024 * 1024) {p : Nat}
    (hp : p ≤ bytes.length) : Reads bytes p (varintAt bytes p) (Metadata.varint (bytes.drop p)) :=
  varintLoopAt_reads hsize hp

theorem varint_forward {bytes : List UInt8} {p q tag : Nat}
    (h : Metadata.varint (bytes.drop p) = .ok (tag, bytes.drop q)) : p ≠ q := by
  rintro rfl
  obtain ⟨code, hcode, hspells⟩ := varint_iff.1 h
  exact hspells.delimited.ne_nil (List.append_left_eq_self.1 hcode.symm)

theorem fieldValueAt_reads {bytes : List UInt8} (hsize : bytes.length ≤ 1024 * 1024)
    (wireType : Nat) {p : Nat} (hp : p ≤ bytes.length) :
    Reads bytes p (fieldValueAt bytes wireType p)
      ((fieldValue wireType (bytes.drop p)).map fun (value, length, rest) =>
        ((value, length), rest)) := by
  unfold fieldValueAt fieldValue
  obtain ⟨e, hat, hrest⟩ | ⟨number, q, hat, hrest, hforward, hinside⟩ :=
    (varintAt_reads hsize hp).outcome
  · rw [hat, hrest]
    split
    · exact .error e
    · exact .ok (Nat.le_refl p) hp
    · exact .error e
    · exact .ok (Nat.le_refl p) hp
    · simp only
      exact .error _
  · rw [hat, hrest]
    split
    · exact .ok hforward hinside
    · exact .ok (Nat.le_refl p) hp
    · exact .ok hforward hinside
    · exact .ok (Nat.le_refl p) hp
    · simp only
      exact .error _

/-- The bytes of a field lie in the input, behind this offset. -/
structure Inside (bytes : List UInt8) (p : Nat) (f : Placed) : Prop where
  after : p < f.first
  ordered : f.first ≤ f.last
  inside : f.last ≤ bytes.length
  content : Checked.slice bytes f.first f.last = some f.bytes

theorem protoFieldAt_outcome {bytes : List UInt8} (hsize : bytes.length ≤ 1024 * 1024) {p : Nat}
    (hp : p ≤ bytes.length) :
    (∃ e, protoFieldAt bytes p = throw e ∧ protoField (bytes.drop p) = .error e) ∨
      ∃ f, protoFieldAt bytes p = pure (f, f.last) ∧
        protoField (bytes.drop p) = .ok (f.toProtoField, bytes.drop f.last) ∧
        Inside bytes p f := by
  unfold protoFieldAt protoField
  obtain ⟨e, hat, hrest⟩ | ⟨tag, q, hat, hrest, hforward, hinside⟩ :=
    (varintAt_reads hsize hp).outcome
  · exact .inl ⟨e, by rw [hat]; rfl, by rw [hrest]; rfl⟩
  have hstrict := varint_forward hrest
  rw [hat, hrest]
  simp only [pure_bind, Except.bind]
  by_cases hfield : tag >>> 3 = 0
  · rw [if_pos hfield, if_pos hfield]
    exact .inl ⟨_, rfl, rfl⟩
  rw [if_neg hfield, if_neg hfield]
  have hvalue := (fieldValueAt_reads hsize (tag &&& 7) hinside).outcome
  generalize fieldValue (tag &&& 7) (bytes.drop q) = rest at hvalue ⊢
  cases rest with
  | error e =>
      obtain ⟨e', hat', herror⟩ | ⟨_, _, _, hok, _⟩ := hvalue
      · cases herror
        rw [hat']
        exact .inl ⟨e, rfl, rfl⟩
      · cases hok
  | ok read =>
      obtain ⟨value, length, rest⟩ := read
      obtain ⟨_, _, herror⟩ | ⟨_, r, hat', hok, hforward', hinside'⟩ := hvalue
      · cases herror
      cases hok
      rw [hat']
      simp only [pure_bind, Checked.sub_of_le hinside', Checked.lift_bind, List.length_drop]
      by_cases hlength : bytes.length - r < length
      · rw [if_pos hlength, if_pos hlength]
        exact .inl ⟨_, rfl, rfl⟩
      · have hcontent : Checked.slice bytes r (r + length) = some ((bytes.drop r).take length) := by
          rw [Checked.slice_of_le (Nat.le_add_right r length) (by omega), Nat.add_sub_cancel_left]
        have hlast : Checked.add 64 r length = some (r + length) := Checked.add_of_lt (by omega)
        simp only [if_neg hlength, hlast, Checked.lift_bind, hcontent]
        refine .inr ⟨_, rfl, ?_, ?_⟩
        · rw [List.drop_drop]
        · refine ⟨?_, ?_, ?_, hcontent⟩
          · exact Nat.lt_of_lt_of_le (Nat.lt_of_le_of_ne hforward hstrict) hforward'
          · exact Nat.le_add_right r length
          · change r + length ≤ bytes.length
            omega

/-- The bytes of each field lie in the input, behind those of the field before it. -/
def InOrder (bytes : List UInt8) : Nat → List Placed → Prop
  | _, [] => True
  | p, f :: rest => Inside bytes p f ∧ InOrder bytes f.last rest

def contents (fs : List Placed) : List ProtoField := fs.map Placed.toProtoField

/-- What reading at offsets comes to: the answer of the reader, and no access outside. -/
def Safe (bytes : List UInt8) (p : Nat) (x : Guarded (List Placed))
    (answer : Except MetadataError (List ProtoField)) : Prop :=
  ∃ r : Except MetadataError (List Placed), x = ExceptT.mk (some r) ∧ r.map contents = answer ∧
    ∀ fs, r = .ok fs → InOrder bytes p fs

theorem safe_done (bytes : List UInt8) (p : Nat) : Safe bytes p (return []) (.ok []) := by
  refine ⟨.ok [], rfl, rfl, ?_⟩
  rintro _ ⟨⟩
  trivial

theorem safe_error (bytes : List UInt8) (p : Nat) (e : MetadataError) :
    Safe bytes p (throw e) (.error e) :=
  ⟨.error e, rfl, rfl, nofun⟩

theorem fieldsLoopAt_safe {bytes : List UInt8} (hsize : bytes.length ≤ 1024 * 1024)
    {budget p : Nat} (hp : p ≤ bytes.length) :
    Safe bytes p (fieldsLoopAt bytes budget p) (fieldsLoop budget (bytes.drop p)) := by
  induction budget generalizing p with
  | zero =>
      unfold fieldsLoopAt
      by_cases hlt : p < bytes.length
      · rw [if_pos hlt, List.drop_eq_getElem_cons hlt]
        exact safe_error bytes p _
      · rw [if_neg hlt, List.drop_eq_nil_of_le (Nat.le_of_not_lt hlt)]
        exact safe_done bytes p
  | succ budget ih =>
      unfold fieldsLoopAt
      by_cases hlt : p < bytes.length
      · have hunfold : fieldsLoop (budget + 1) (bytes.drop p) =
            (protoField (bytes.drop p)).bind fun answer =>
              (fieldsLoop budget answer.2).map (answer.1 :: ·) := by
          rw [List.drop_eq_getElem_cons hlt]
          rfl
        rw [if_pos hlt, hunfold]
        obtain ⟨e, hat, hrest⟩ | ⟨f, hat, hrest, hinside⟩ := protoFieldAt_outcome hsize hp
        · rw [hat, hrest]
          exact safe_error bytes p e
        · obtain ⟨r, hr, hanswer, horder⟩ := ih hinside.inside
          simp only [hat, hrest, pure_bind, hr, Except.bind, ← hanswer]
          cases r with
          | error e => exact safe_error bytes p e
          | ok fs =>
              refine ⟨.ok (f :: fs), rfl, rfl, ?_⟩
              rintro _ ⟨⟩
              exact ⟨hinside, horder fs rfl⟩
      · rw [if_neg hlt, List.drop_eq_nil_of_le (Nat.le_of_not_lt hlt)]
        exact safe_done bytes p

theorem fieldsAt_safe (bytes : List UInt8) : Safe bytes 0 (fieldsAt bytes) (fields bytes) := by
  unfold fieldsAt fields
  by_cases hsize : 1024 * 1024 < bytes.length
  · rw [if_pos hsize, if_pos hsize]
    exact safe_error bytes 0 _
  · rw [if_neg hsize, if_neg hsize]
    exact fieldsLoopAt_safe (Nat.le_of_not_lt hsize) (Nat.zero_le _)

/-- What the writer writes is read back as it is, and whatever is read, the reader stays in
its input and takes the bytes of the fields from there in order. -/
theorem writer_reader_agree :
    (∀ fs : List Field, fs.length ≤ 4096 → (∀ f ∈ fs, f.Numbered) →
      (fs.flatMap Field.code).length ≤ 1024 * 1024 →
      fields (fs.flatMap Field.code) = .ok (fs.map Field.read)) ∧
    ∀ bytes, Safe bytes 0 (fieldsAt bytes) (fields bytes) :=
  ⟨fun _ hcount hnumbers hsize => fields_written hcount hnumbers hsize, fieldsAt_safe⟩

theorem writer_reader_agree_picture :
    fields ([Field.number 4 1920, .number 1 (2 ^ 64 - 1), .bytes 5 [8, 1]].flatMap Field.code) =
      .ok ([Field.number 4 1920, .number 1 (2 ^ 64 - 1), .bytes 5 [8, 1]].map Field.read) := by
  refine writer_reader_agree.1 _ (by decide) ?_ (by decide +kernel)
  intro f hf
  simp only [List.mem_cons, List.not_mem_nil, or_false] at hf
  rcases hf with rfl | rfl | rfl
  · exact ⟨by decide, by decide⟩
  · exact ⟨by decide, by decide⟩
  · exact ⟨by decide, by decide⟩

end MacVnc.Protocol.Offer

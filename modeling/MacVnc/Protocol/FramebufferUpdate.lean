import MacVnc.Lib.Bytes
import MacVnc.Lib.Checked
/-!
# Framebuffer updates

Control records with display metadata (`scan_update` in
`hp-protocol/src/metadata.rs`): a count and that many rectangles, each of which
says by its encoding how long it is.  The scan is written with every access
checked; an index out of range or an underflow is `none`.  It accepts exactly a
grammar of rectangles, and the layout it reports is the one of the last display
rectangle within the limits.
-/

namespace MacVnc.Protocol.FramebufferUpdate

open MacVnc.Lib
open MacVnc.Lib.Bytes

abbrev Size := Nat × Nat

/-- `u16::from_be_bytes([bytes[i], bytes[i + 1]])`. -/
def readU16 (bytes : List UInt8) (i : Nat) : Option Nat := do
  let high ← bytes[i]?
  let low ← bytes[i + 1]?
  some (ofBigEndian [high, low])

def encodingOf (word : List UInt8) : Int := (BitVec.ofNat 32 (ofBigEndian word)).toInt

/-- The encodings whose payload stands behind its 16-bit length. -/
def prefixedEncodings : List Int := [1002, 1010, 1011, 0x451, 0x453, 0x455, 0x456]

/-- The payload size of a rectangle in front of the rest of the record; the inner `none` is
an encoding that is not known or whose length is cut. -/
def payloadSize (enc : Int) (rest : List UInt8) : Option (Option Nat) :=
  if enc = 1103 then some (some 36)
  else if enc = 0x450 ∧ 8 ≤ rest.length then
    (Checked.slice rest 4 8).map fun word => some (8 + ofBigEndian word)
  else if enc ∈ prefixedEncodings ∧ 2 ≤ rest.length then
    (readU16 rest 0).map fun length => some (2 + length)
  else if enc = -223 then some (some 0)
  else some none

/-- The size in a display payload that holds all displays it declares. -/
def displaySize (payload : List UInt8) : Option (Option Size) :=
  if payload.length < 20 then some none
  else do
    let count ← readU16 payload 18
    if payload.length < 20 + count * 56 then some none
    else
      let w ← readU16 payload 6
      let h ← readU16 payload 8
      some (some (w, h))

/-- The sizes that are taken over. -/
def WithinLimits (size : Size) : Prop :=
  size.1 > 0 ∧ size.2 > 0 ∧ size.1 ≤ 16384 ∧ size.2 ≤ 16384 ∧ size.1 * size.2 ≤ 67108864

instance (size : Size) : Decidable (WithinLimits size) := by
  unfold WithinLimits
  infer_instance

/-- The layout behind a display rectangle. -/
def nextLayout (layout : Option Size) (size : Size) : Option Size :=
  if WithinLimits size then some size else layout

/-- The loop over the rectangles, with so many left, from this offset on. -/
def scanLoop (body : List UInt8) : Nat → Nat → Option Size → Option (Bool × Option Size)
  | 0, p, layout => some (decide (p = body.length), layout)
  | n + 1, p, layout => do
      let left ← Checked.sub body.length p
      if left < 12 then some (false, none)
      else
        let word ← Checked.slice body (p + 8) (p + 12)
        let enc := encodingOf word
        if enc = -224 then some (true, layout)
        else
          let rest ← Checked.slice body (p + 12) body.length
          match ← payloadSize enc rest with
          | none => some (false, none)
          | some size =>
              let left ← Checked.sub body.length (p + 12)
              if left < size then some (false, none)
              else if enc = 0x451 then
                let payload ← Checked.slice rest 2 size
                match ← displaySize payload with
                | none => some (false, none)
                | some display => scanLoop body n (p + 12 + size) (nextLayout layout display)
              else scanLoop body n (p + 12 + size) layout

def scanUpdate (body : List UInt8) : Option (Bool × Option Size) :=
  if body.length < 4 then some (false, none)
  else do
    let kind ← body[0]?
    if kind ≠ 0 then some (false, none)
    else
      let n ← readU16 body 2
      scanLoop body n 4 none

def completeUpdate (body : List UInt8) : Option Bool := (scanUpdate body).map Prod.fst

def displayLayout (body : List UInt8) : Option (Option Size) :=
  (scanUpdate body).map fun (complete, layout) => if complete then layout else none

/-! ## The grammar -/

def word16 (bytes : List UInt8) (i : Nat) : Nat := ofBigEndian ((bytes.drop i).take 2)

def Prefixed (payload content : List UInt8) : Prop :=
  content.length < 2 ^ 16 ∧ payload = toBigEndian 2 content.length ++ content

inductive Payload : Int → List UInt8 → Prop
  | fixed {payload : List UInt8} (hlength : payload.length = 36) : Payload 1103 payload
  | sized {front word content : List UInt8} (hfront : front.length = 4) (hword : word.length = 4)
      (hcontent : content.length = ofBigEndian word) : Payload 0x450 (front ++ word ++ content)
  | prefixed {enc : Int} {payload content : List UInt8}
      (henc : enc ∈ [1002, 1010, 1011, 0x453, 0x455, 0x456])
      (hpayload : Prefixed payload content) : Payload enc payload
  | displays {payload content : List UInt8} (hpayload : Prefixed payload content)
      (hheader : 20 ≤ content.length) (hall : 20 + 56 * word16 content 18 ≤ content.length) :
      Payload 0x451 payload
  | empty : Payload (-223) []

/-- A well-formed rectangle: position and size, encoding, payload. -/
structure Rectangle where
  geometry : List UInt8
  word : List UInt8
  payload : List UInt8
  geometryLength : geometry.length = 8
  wordLength : word.length = 4
  valid : Payload (encodingOf word) payload

namespace Rectangle

def bytes (r : Rectangle) : List UInt8 := r.geometry ++ r.word ++ r.payload

/-- The size that a display rectangle announces, within the limits. -/
def layout (r : Rectangle) : Option Size :=
  if encodingOf r.word = 0x451 then
    let size := (word16 r.payload 8, word16 r.payload 10)
    if WithinLimits size then some size else none
  else none

def stream (rs : List Rectangle) : List UInt8 := rs.flatMap bytes

end Rectangle

def lastLayout (rs : List Rectangle) : Option Size := (rs.filterMap Rectangle.layout).getLast?

/-- What stands in front of the rectangles: a zero, any byte and their number. -/
def header (pad : UInt8) (n : Nat) : List UInt8 := 0 :: pad :: toBigEndian 2 n

/-- An update that ends early: fewer rectangles than announced, the header of the end, and
anything behind it. -/
def Terminated (body : List UInt8) (rs : List Rectangle) : Prop :=
  ∃ pad n geometry word rest, body =
    header pad n ++ Rectangle.stream rs ++ (geometry ++ word ++ rest) ∧ rs.length < n ∧
    n < 2 ^ 16 ∧ geometry.length = 8 ∧ word.length = 4 ∧ encodingOf word = -224

/-- An update with as many rectangles as announced, and nothing more. -/
def Whole (body : List UInt8) (rs : List Rectangle) : Prop :=
  ∃ pad, body = header pad rs.length ++ Rectangle.stream rs ∧ rs.length < 2 ^ 16

def Update (body : List UInt8) (rs : List Rectangle) : Prop := Terminated body rs ∨ Whole body rs

/-! ## Payloads -/

theorem readU16_of_le {bytes : List UInt8} {i : Nat} (h : i + 2 ≤ bytes.length) :
    readU16 bytes i = some (word16 bytes i) := by
  have hhigh : bytes[i]? = some bytes[i] := List.getElem?_eq_getElem (by omega)
  have hlow : bytes[i + 1]? = some bytes[i + 1] := List.getElem?_eq_getElem (by omega)
  have hword : (bytes.drop i).take 2 = [bytes[i], bytes[i + 1]] := by
    rw [List.drop_eq_getElem_cons (by omega), List.drop_eq_getElem_cons (by omega)]
    rfl
  rw [readU16, hhigh, hlow, word16, hword]
  rfl

theorem word16_append {front word back : List UInt8} {i : Nat} (hfront : front.length = i)
    (hword : word.length = 2) : word16 (front ++ word ++ back) i = ofBigEndian word := by
  rw [word16, List.append_assoc, List.drop_left' hfront, List.take_left' hword]

theorem Prefixed.lengthWord {payload content : List UInt8} (h : Prefixed payload content)
    (more : List UInt8) : word16 (payload ++ more) 0 = content.length := by
  obtain ⟨hlength, rfl⟩ := h
  have hword : word16 ([] ++ toBigEndian 2 content.length ++ (content ++ more)) 0 =
      ofBigEndian (toBigEndian 2 content.length) := word16_append rfl (length_toBigEndian _ _)
  rw [ofBigEndian_toBigEndian (by omega)] at hword
  rwa [List.append_assoc]

theorem Prefixed.length {payload content : List UInt8} (h : Prefixed payload content) :
    payload.length = 2 + content.length := by
  rw [h.2, List.length_append, length_toBigEndian]

theorem payloadSize_prefixed {enc : Int} (henc : enc ∈ prefixedEncodings) {rest : List UInt8}
    (hrest : 2 ≤ rest.length) : payloadSize enc rest = some (some (2 + word16 rest 0)) := by
  have hother : ∀ e ∈ prefixedEncodings, e ≠ 1103 ∧ e ≠ 0x450 := by decide
  obtain ⟨hfixed, hsized⟩ := hother enc henc
  rw [payloadSize, if_neg hfixed, if_neg fun h => hsized h.1, if_pos ⟨henc, hrest⟩,
    readU16_of_le (by omega)]
  rfl

theorem payloadSize_complete {enc : Int} {payload : List UInt8} (h : Payload enc payload)
    (more : List UInt8) : payloadSize enc (payload ++ more) = some (some payload.length) := by
  cases h with
  | fixed hlength => rw [payloadSize, if_pos rfl, hlength]
  | @sized front word content hfront hword hcontent =>
      have hslice : Checked.slice (front ++ word ++ content ++ more) 4 8 = some word :=
        Checked.slice_of_eq _ (List.append_assoc _ _ _) hfront.symm (by omega)
      rw [payloadSize, if_neg (by decide), if_pos ⟨rfl, by simp; omega⟩, hslice]
      simp only [Option.map_some, List.length_append, hfront, hword, hcontent]
  | @prefixed _ _ content henc hpayload =>
      have hall : ∀ e ∈ [1002, 1010, 1011, 0x453, 0x455, 0x456], e ∈ prefixedEncodings := by decide
      have hlength := hpayload.length
      rw [payloadSize_prefixed (hall enc henc) (by rw [List.length_append]; omega),
        hpayload.lengthWord, hlength]
  | @displays _ content hpayload _ _ =>
      have hlength := hpayload.length
      rw [payloadSize_prefixed (by decide) (by rw [List.length_append]; omega), hpayload.lengthWord,
        hlength]
  | empty =>
      rw [payloadSize, if_neg (by decide), if_neg (by rintro ⟨h, -⟩; revert h; decide),
        if_neg (by rintro ⟨h, -⟩; revert h; decide), if_pos rfl]
      rfl

/-- The bytes in front that the code takes for a payload with its length. -/
theorem prefixed_take {rest : List UInt8} (hrest : 2 + word16 rest 0 ≤ rest.length) :
    Prefixed (rest.take (2 + word16 rest 0)) ((rest.drop 2).take (word16 rest 0)) := by
  have hlength : ((rest.drop 2).take (word16 rest 0)).length = word16 rest 0 := by
    rw [List.length_take, List.length_drop]
    omega
  have htwo : (rest.take 2).length = 2 := by
    rw [List.length_take]
    omega
  have hword : toBigEndian 2 (word16 rest 0) = rest.take 2 := by
    have hback := toBigEndian_ofBigEndian (rest.take 2)
    rwa [htwo] at hback
  refine ⟨?_, ?_⟩
  · rw [hlength, word16]
    have hbound := ofBigEndian_lt ((rest.drop 0).take 2)
    rw [List.drop_zero, htwo] at hbound
    exact hbound
  · rw [hlength, hword, List.take_add]

/-- Reading a payload size never leaves the record. -/
theorem payloadSize_total (enc : Int) (rest : List UInt8) :
    ∃ size, payloadSize enc rest = some size := by
  unfold payloadSize
  split
  · exact ⟨_, rfl⟩
  split
  · rename_i hsized
    rw [Checked.slice_of_le (by omega) (by omega)]
    exact ⟨_, rfl⟩
  split
  · rename_i hprefixed
    rw [readU16_of_le (by omega)]
    exact ⟨_, rfl⟩
  split
  · exact ⟨_, rfl⟩
  · exact ⟨_, rfl⟩

/-- What the code takes for a payload is one, up to the displays of a display rectangle. -/
theorem payloadSize_sound {enc : Int} {rest : List UInt8} {size : Nat}
    (h : payloadSize enc rest = some (some size)) (hsize : size ≤ rest.length) :
    (enc ≠ 0x451 → Payload enc (rest.take size)) ∧
      (enc = 0x451 → 2 ≤ size ∧ Prefixed (rest.take size) ((rest.drop 2).take (size - 2))) := by
  by_cases hprefixed : enc ∈ prefixedEncodings ∧ 2 ≤ rest.length
  · rw [payloadSize_prefixed hprefixed.1 hprefixed.2] at h
    cases h
    have hcontent := prefixed_take hsize
    rw [Nat.add_sub_cancel_left]
    refine ⟨fun hne => .prefixed ?_ hcontent, fun _ => ⟨by omega, hcontent⟩⟩
    have hall : ∀ e ∈ prefixedEncodings,
        e = 0x451 ∨ e ∈ [1002, 1010, 1011, 0x453, 0x455, 0x456] := by decide
    exact (hall enc hprefixed.1).resolve_left hne
  unfold payloadSize at h
  split at h
  · rename_i hfixed
    subst hfixed
    cases h
    refine ⟨fun _ => .fixed ?_, nofun⟩
    rw [List.length_take]
    omega
  split at h
  · rename_i hsized
    obtain ⟨rfl, hlong⟩ := hsized
    rw [Checked.slice_of_le (by omega) (by omega)] at h
    cases h
    refine ⟨fun _ => ?_, nofun⟩
    have hsplit : rest.take (8 + ofBigEndian ((rest.drop 4).take (8 - 4))) = rest.take 4 ++
        (rest.drop 4).take 4 ++ (rest.drop 8).take (ofBigEndian ((rest.drop 4).take 4)) := by
      rw [List.take_add, show (8 : Nat) = 4 + 4 from rfl, List.take_add, Nat.add_sub_cancel]
    rw [hsplit]
    refine .sized ?_ ?_ ?_
    · rw [List.length_take]
      omega
    · rw [List.length_take, List.length_drop]
      omega
    · rw [List.length_take, List.length_drop]
      exact Nat.min_eq_left (Nat.le_sub_of_add_le' hsize)
  split at h
  · rename_i hempty
    subst hempty
    cases h
    exact ⟨fun _ => .empty, nofun⟩
  · cases h

theorem displaySize_of_all {payload : List UInt8} (hheader : 20 ≤ payload.length)
    (hall : 20 + 56 * word16 payload 18 ≤ payload.length) :
    displaySize payload = some (some (word16 payload 6, word16 payload 8)) := by
  rw [displaySize, if_neg (by omega), readU16_of_le (by omega), Checked.some_bind,
    if_neg (by omega), readU16_of_le (by omega), Checked.some_bind, readU16_of_le (by omega),
    Checked.some_bind]

theorem displaySize_of_missing {payload : List UInt8}
    (h : ¬ (20 ≤ payload.length ∧ 20 + 56 * word16 payload 18 ≤ payload.length)) :
    displaySize payload = some none := by
  unfold displaySize
  split
  · rfl
  · rw [readU16_of_le (by omega), Checked.some_bind, if_pos (by omega)]

/-! ## One rectangle -/

theorem Payload.ne_end {enc : Int} {payload : List UInt8} (h : Payload enc payload) :
    enc ≠ -224 := by
  cases h with
  | fixed => decide
  | sized => decide
  | @prefixed _ _ _ henc =>
      have hall : ∀ e ∈ ([1002, 1010, 1011, 0x453, 0x455, 0x456] : List Int), e ≠ -224 := by decide
      exact hall enc henc
  | displays => decide
  | empty => decide

theorem word16_drop (bytes : List UInt8) (first i : Nat) :
    word16 (bytes.drop first) i = word16 bytes (first + i) := by
  rw [word16, word16, List.drop_drop]

theorem Prefixed.slice {payload content : List UInt8} (h : Prefixed payload content)
    (more : List UInt8) :
    Checked.slice (payload ++ more) 2 payload.length = some content := by
  have hlength := h.length
  refine Checked.slice_of_eq more ?_ (length_toBigEndian 2 content.length).symm ?_
  · rw [h.2]
  · rw [length_toBigEndian, hlength]

theorem scanLoop_header {body front geometry word rest : List UInt8} {n : Nat}
    {layout : Option Size} (hbody : body = front ++ geometry ++ word ++ rest)
    (hgeometry : geometry.length = 8) (hword : word.length = 4) :
    scanLoop body (n + 1) front.length layout =
      if encodingOf word = -224 then some (true, layout)
      else (do
        match ← payloadSize (encodingOf word) rest with
        | none => some (false, none)
        | some size =>
            if rest.length < size then some (false, none)
            else if encodingOf word = 0x451 then
              let payload ← Checked.slice rest 2 size
              match ← displaySize payload with
              | none => some (false, none)
              | some display =>
                  scanLoop body n (front.length + 12 + size) (nextLayout layout display)
            else scanLoop body n (front.length + 12 + size) layout) := by
  have hlength : body.length = front.length + 12 + rest.length := by
    rw [hbody]
    simp only [List.length_append]
    omega
  have hslice : Checked.slice body (front.length + 8) (front.length + 12) = some word :=
    Checked.slice_of_eq rest hbody (by simp [hgeometry]) (by simp [hgeometry, hword])
  have hrest : Checked.slice body (front.length + 12) body.length = some rest := by
    rw [Checked.slice_suffix (by omega), hbody,
      List.drop_left' (by simp [hgeometry, hword])]
  rw [scanLoop, Checked.sub_of_le (by omega), Checked.some_bind, if_neg (by omega), hslice,
    Checked.some_bind]
  dsimp only
  rw [hrest, Checked.some_bind, Checked.sub_of_le (by omega),
    show body.length - (front.length + 12) = rest.length by omega]
  rfl

theorem Payload.displays_of {enc : Int} {payload : List UInt8} (h : Payload enc payload)
    (henc : enc = 0x451) :
    ∃ content, Prefixed payload content ∧ 20 ≤ content.length ∧
      20 + 56 * word16 content 18 ≤ content.length := by
  cases h with
  | fixed => exact absurd henc (by decide)
  | sized => exact absurd henc (by decide)
  | @prefixed _ _ _ hmem =>
      have hother : ∀ e ∈ ([1002, 1010, 1011, 0x453, 0x455, 0x456] : List Int), e ≠ 0x451 := by
        decide
      exact absurd henc (hother enc hmem)
  | @displays _ content hpayload hheader hall => exact ⟨content, hpayload, hheader, hall⟩
  | empty => exact absurd henc (by decide)

/-- The size that the code reads in the content of a display rectangle. -/
theorem Prefixed.display {payload content : List UInt8} (h : Prefixed payload content) :
    (word16 content 6, word16 content 8) = (word16 payload 8, word16 payload 10) := by
  have hdrop : payload.drop 2 = content := by
    rw [h.2, List.drop_left' (length_toBigEndian _ _)]
  rw [← hdrop, word16_drop, word16_drop]

/-- A well-formed rectangle is passed, and its layout is the last so far. -/
theorem scanLoop_rectangle {body front more : List UInt8} {n : Nat} {layout : Option Size}
    (r : Rectangle) (hbody : body = front ++ r.bytes ++ more) :
    scanLoop body (n + 1) front.length layout =
      scanLoop body n (front ++ r.bytes).length (r.layout.or layout) := by
  have hsplit : body = front ++ r.geometry ++ r.word ++ (r.payload ++ more) := by
    rw [hbody, Rectangle.bytes]
    simp only [List.append_assoc]
  have hlength : (front ++ r.bytes).length = front.length + 12 + r.payload.length := by
    simp only [Rectangle.bytes, List.length_append, r.geometryLength, r.wordLength]
    omega
  rw [scanLoop_header hsplit r.geometryLength r.wordLength, if_neg r.valid.ne_end,
    payloadSize_complete r.valid, Checked.some_bind, hlength]
  dsimp only
  rw [if_neg (by simp)]
  by_cases henc : encodingOf r.word = 0x451
  · obtain ⟨content, hpayload, hheader, hall⟩ := r.valid.displays_of henc
    rw [if_pos henc, hpayload.slice, Checked.some_bind, displaySize_of_all hheader hall,
      Checked.some_bind, hpayload.display, Rectangle.layout, if_pos henc]
    dsimp only
    rw [nextLayout]
    split
    · rfl
    · rfl
  · rw [if_neg henc, Rectangle.layout, if_neg henc, Option.none_or]

/-! ## The whole scan -/

/-- The layout behind rectangles, from the one in front of them. -/
def layoutAfter (rs : List Rectangle) (layout : Option Size) : Option Size :=
  (lastLayout rs).or layout

theorem layoutAfter_cons (r : Rectangle) (rs : List Rectangle) (layout : Option Size) :
    layoutAfter (r :: rs) layout = layoutAfter rs (r.layout.or layout) := by
  unfold layoutAfter lastLayout
  cases hr : r.layout with
  | none => rw [List.filterMap_cons_none hr, Option.none_or]
  | some size =>
      rw [List.filterMap_cons_some hr, List.getLast?_cons, Option.some_or]
      cases (List.filterMap Rectangle.layout rs).getLast? with
      | none => rfl
      | some last => rfl

theorem scanLoop_rectangles {body front more : List UInt8} {n : Nat} {layout : Option Size}
    (rs : List Rectangle) (hbody : body = front ++ Rectangle.stream rs ++ more) :
    scanLoop body (rs.length + n) front.length layout =
      scanLoop body n (front ++ Rectangle.stream rs).length (layoutAfter rs layout) := by
  induction rs generalizing front layout with
  | nil =>
      rw [List.length_nil, Nat.zero_add, Rectangle.stream, List.flatMap_nil, List.append_nil]
      rfl
  | cons r rs ih =>
      have hstream : Rectangle.stream (r :: rs) = r.bytes ++ Rectangle.stream rs := rfl
      rw [hstream, ← List.append_assoc] at hbody
      rw [List.length_cons, Nat.add_right_comm, scanLoop_rectangle r, ih hbody, hstream,
        layoutAfter_cons, List.append_assoc]
      rw [hbody, List.append_assoc (front ++ r.bytes)]

theorem scanLoop_end {body front geometry word rest : List UInt8} {n : Nat} {layout : Option Size}
    (hbody : body = front ++ (geometry ++ word ++ rest)) (hgeometry : geometry.length = 8)
    (hword : word.length = 4) (henc : encodingOf word = -224) :
    scanLoop body (n + 1) front.length layout = some (true, layout) := by
  have hsplit : body = front ++ geometry ++ word ++ rest := by
    rw [hbody]
    simp only [List.append_assoc]
  rw [scanLoop_header hsplit hgeometry hword, if_pos henc]

/-- The remaining rectangles of a scan that accepts. -/
def Remaining (n : Nat) (rest : List UInt8) (rs : List Rectangle) : Prop :=
  rs.length = n ∧ rest = Rectangle.stream rs ∨
    rs.length < n ∧ ∃ geometry word more,
      rest = Rectangle.stream rs ++ (geometry ++ word ++ more) ∧ geometry.length = 8 ∧
        word.length = 4 ∧ encodingOf word = -224

theorem Remaining.cons {n : Nat} {rest : List UInt8} {rs : List Rectangle}
    (h : Remaining n rest rs) (r : Rectangle) :
    Remaining (n + 1) (r.bytes ++ rest) (r :: rs) := by
  have hstream : Rectangle.stream (r :: rs) = r.bytes ++ Rectangle.stream rs := rfl
  rcases h with ⟨rfl, rfl⟩ | ⟨hfewer, geometry, word, more, rfl, hend⟩
  · exact Or.inl ⟨rfl, hstream.symm⟩
  · refine Or.inr ⟨Nat.succ_lt_succ hfewer, geometry, word, more, ?_, hend⟩
    rw [hstream, List.append_assoc r.bytes]

theorem scanLoop_complete {body front rest : List UInt8} {n : Nat} {rs : List Rectangle}
    {layout : Option Size} (hbody : body = front ++ rest) (h : Remaining n rest rs) :
    scanLoop body n front.length layout = some (true, layoutAfter rs layout) := by
  rcases h with ⟨rfl, rfl⟩ | ⟨hfewer, geometry, word, more, rfl, hgeometry, hword, henc⟩
  · have hall : body = front ++ Rectangle.stream rs ++ [] := by rw [hbody, List.append_nil]
    have hscan : scanLoop body (rs.length + 0) front.length layout = _ :=
      scanLoop_rectangles rs hall
    rw [Nat.add_zero] at hscan
    rw [hscan, scanLoop, hbody, decide_eq_true rfl]
  · obtain ⟨k, rfl⟩ := Nat.exists_eq_add_of_lt hfewer
    have hall : body = front ++ Rectangle.stream rs ++ (geometry ++ word ++ more) := by
      rw [hbody, List.append_assoc front]
    rw [Nat.add_assoc, scanLoop_rectangles rs hall, scanLoop_end hall hgeometry hword henc]

theorem scanLoop_first {body front rest : List UInt8} {n : Nat} {layout : Option Size}
    (hbody : body = front ++ rest) :
    scanLoop body (n + 1) front.length layout = some (false, none) ∨
      (∃ geometry word more, rest = geometry ++ word ++ more ∧ geometry.length = 8 ∧
        word.length = 4 ∧ encodingOf word = -224) ∨
      ∃ (r : Rectangle) (more : List UInt8), rest = r.bytes ++ more := by
  by_cases hshort : rest.length < 12
  · left
    have hlength : body.length - front.length = rest.length := by
      rw [hbody, List.length_append, Nat.add_sub_cancel_left]
    rw [scanLoop, Checked.sub_of_le (by rw [hbody]; simp), Checked.some_bind, hlength,
      if_pos hshort]
  obtain ⟨geometry, word, tail, rfl, hgeometry, hword⟩ : ∃ geometry word tail,
      rest = geometry ++ word ++ tail ∧ geometry.length = 8 ∧ word.length = 4 := by
    refine ⟨rest.take 8, (rest.drop 8).take 4, (rest.drop 8).drop 4, ?_, ?_, ?_⟩
    · rw [List.append_assoc, List.take_append_drop, List.take_append_drop]
    · rw [List.length_take]
      omega
    · rw [List.length_take, List.length_drop]
      omega
  by_cases hend : encodingOf word = -224
  · exact Or.inr (Or.inl ⟨geometry, word, tail, rfl, hgeometry, hword, hend⟩)
  have hsplit : body = front ++ geometry ++ word ++ tail := by
    rw [hbody]
    simp only [List.append_assoc]
  rw [scanLoop_header hsplit hgeometry hword, if_neg hend]
  obtain ⟨size, hsize⟩ := payloadSize_total (encodingOf word) tail
  rw [hsize, Checked.some_bind]
  cases size with
  | none => exact Or.inl rfl
  | some size =>
      dsimp only
      by_cases hcut : tail.length < size
      · rw [if_pos hcut]
        exact Or.inl rfl
      rw [if_neg hcut]
      obtain ⟨hplain, hdisplay⟩ := payloadSize_sound hsize (not_lt.1 hcut)
      have hrectangle (hvalid : Payload (encodingOf word) (tail.take size)) :
          ∃ (r : Rectangle) (more : List UInt8), geometry ++ word ++ tail = r.bytes ++ more := by
        refine ⟨⟨geometry, word, tail.take size, hgeometry, hword, hvalid⟩, tail.drop size, ?_⟩
        rw [Rectangle.bytes, List.append_assoc (geometry ++ word), List.take_append_drop]
      by_cases henc : encodingOf word = 0x451
      swap
      · exact Or.inr (Or.inr (hrectangle (hplain henc)))
      obtain ⟨htwo, hpayload⟩ := hdisplay henc
      by_cases hall : 20 ≤ ((tail.drop 2).take (size - 2)).length ∧
          20 + 56 * word16 ((tail.drop 2).take (size - 2)) 18 ≤
            ((tail.drop 2).take (size - 2)).length
      · rw [henc] at hrectangle
        exact Or.inr (Or.inr (hrectangle (.displays hpayload hall.1 hall.2)))
      · left
        rw [if_pos henc, Checked.slice_of_le htwo (not_lt.1 hcut), Checked.some_bind,
          displaySize_of_missing hall, Checked.some_bind]

/-- The loop stays inside the record, and what it accepts are rectangles. -/
theorem scanLoop_sound {body front rest : List UInt8} {n : Nat} {layout : Option Size}
    (hbody : body = front ++ rest) :
    ∃ complete after, scanLoop body n front.length layout = some (complete, after) ∧
      (complete = true → ∃ rs, Remaining n rest rs) := by
  induction n generalizing front rest layout with
  | zero =>
      refine ⟨_, _, rfl, fun hcomplete => ⟨[], Or.inl ⟨rfl, ?_⟩⟩⟩
      have hlength := of_decide_eq_true hcomplete
      rw [hbody, List.length_append] at hlength
      exact List.length_eq_zero_iff.1 (by omega)
  | succ n ih =>
      have hfirst : scanLoop body (n + 1) front.length layout = some (false, none) ∨ _ :=
        scanLoop_first hbody
      rcases hfirst with hrefused | ⟨geometry, word, more, rfl, hend⟩ | ⟨r, more, rfl⟩
      · exact ⟨false, none, hrefused, nofun⟩
      · refine ⟨true, layout, scanLoop_end hbody hend.1 hend.2.1 hend.2.2, fun _ => ?_⟩
        exact ⟨[], Or.inr ⟨Nat.succ_pos n, geometry, word, more, rfl, hend⟩⟩
      · have hsplit : body = front ++ r.bytes ++ more := by rw [hbody, List.append_assoc]
        obtain ⟨complete, after, hscan, hsound⟩ :=
          @ih (front ++ r.bytes) more (r.layout.or layout) hsplit
        refine ⟨complete, after, (scanLoop_rectangle r hsplit).trans hscan, fun hcomplete => ?_⟩
        obtain ⟨rs, hrs⟩ := hsound hcomplete
        exact ⟨r :: rs, hrs.cons r⟩

/-! ## Updates -/

theorem update_iff {body : List UInt8} {rs : List Rectangle} :
    Update body rs ↔ ∃ pad n rest, n < 2 ^ 16 ∧ body = header pad n ++ rest ∧
      Remaining n rest rs := by
  constructor
  · rintro (⟨pad, n, geometry, word, rest, rfl, hfewer, hn, hend⟩ | ⟨pad, rfl, hn⟩)
    · exact ⟨pad, n, _, hn, List.append_assoc _ _ _,
        Or.inr ⟨hfewer, geometry, word, rest, rfl, hend⟩⟩
    · exact ⟨pad, rs.length, _, hn, rfl, Or.inl ⟨rfl, rfl⟩⟩
  · rintro ⟨pad, n, rest, hn, rfl, ⟨rfl, rfl⟩ | ⟨hfewer, geometry, word, more, rfl, hend⟩⟩
    · exact Or.inr ⟨pad, rfl, hn⟩
    · exact Or.inl ⟨pad, n, geometry, word, more, (List.append_assoc _ _ _).symm, hfewer, hn, hend⟩

theorem scanUpdate_header (pad : UInt8) {n : Nat} (hn : n < 2 ^ 16) (rest : List UInt8) :
    scanUpdate (header pad n ++ rest) = scanLoop (header pad n ++ rest) n 4 none := by
  have hlength : (header pad n).length = 4 := by simp [header]
  have hcount : word16 (header pad n ++ rest) 2 = n := by
    have hword : word16 ([0, pad] ++ toBigEndian 2 n ++ rest) 2 = ofBigEndian (toBigEndian 2 n) :=
      word16_append rfl (length_toBigEndian _ _)
    rwa [ofBigEndian_toBigEndian (by omega)] at hword
  have hkind : (header pad n ++ rest)[0]? = some 0 := rfl
  rw [scanUpdate, if_neg (by rw [List.length_append]; omega), hkind, Checked.some_bind,
    if_neg (by decide), readU16_of_le (by rw [List.length_append]; omega), Checked.some_bind,
    hcount]

theorem header_of_kind {body : List UInt8} (hlength : 4 ≤ body.length) (hkind : body[0]? = some 0) :
    ∃ pad n rest, n < 2 ^ 16 ∧ body = header pad n ++ rest := by
  match body, hlength with
  | kind :: pad :: high :: low :: rest, _ =>
      rw [List.getElem?_cons_zero, Option.some.injEq] at hkind
      have hbound : ofBigEndian [high, low] < 256 ^ 2 := ofBigEndian_lt [high, low]
      have hback : toBigEndian 2 (ofBigEndian [high, low]) = [high, low] :=
        toBigEndian_ofBigEndian [high, low]
      refine ⟨pad, ofBigEndian [high, low], rest, by omega, ?_⟩
      rw [hkind, header, hback]
      rfl

theorem scanUpdate_complete {body : List UInt8} {rs : List Rectangle} (h : Update body rs) :
    scanUpdate body = some (true, lastLayout rs) := by
  obtain ⟨pad, n, rest, hn, rfl, hrest⟩ := update_iff.1 h
  rw [scanUpdate_header pad hn]
  have hscan : scanLoop (header pad n ++ rest) n (header pad n).length none = _ :=
    scanLoop_complete rfl hrest
  rw [layoutAfter, Option.or_none] at hscan
  exact hscan

/-- The scan stays inside the record, and what it accepts is an update. -/
theorem scanUpdate_sound (body : List UInt8) :
    ∃ complete layout, scanUpdate body = some (complete, layout) ∧
      (complete = true → ∃ rs, Update body rs) := by
  by_cases hshort : body.length < 4
  · exact ⟨false, none, if_pos hshort, nofun⟩
  by_cases hkind : body[0]? = some 0
  · obtain ⟨pad, n, rest, hn, rfl⟩ := header_of_kind (not_lt.1 hshort) hkind
    rw [scanUpdate_header pad hn]
    obtain ⟨complete, layout, hscan, hsound⟩ :=
      @scanLoop_sound (header pad n ++ rest) (header pad n) rest n none rfl
    refine ⟨complete, layout, hscan, fun hcomplete => ?_⟩
    obtain ⟨rs, hrs⟩ := hsound hcomplete
    exact ⟨rs, update_iff.2 ⟨pad, n, rest, hn, rfl, hrs⟩⟩
  · have hfirst : body[0]? = some body[0] := List.getElem?_eq_getElem (by omega)
    refine ⟨false, none, ?_, nofun⟩
    rw [hfirst, Option.some.injEq] at hkind
    rw [scanUpdate, if_neg hshort, hfirst, Checked.some_bind, if_pos hkind]

/-- What is behind the last rectangle of a whole update makes it incomplete. -/
theorem Whole.append {front back : List UInt8} {rs : List Rectangle} (h : Whole front rs)
    (hback : back ≠ []) : completeUpdate (front ++ back) = some false := by
  obtain ⟨pad, rfl, hn⟩ := h
  have hscan : scanLoop (header pad rs.length ++ Rectangle.stream rs ++ back) (rs.length + 0)
      (header pad rs.length).length none = _ := scanLoop_rectangles rs rfl
  have hlength := List.length_pos_of_ne_nil hback
  rw [completeUpdate, List.append_assoc, scanUpdate_header pad hn, ← List.append_assoc]
  rw [Nat.add_zero] at hscan
  refine (congrArg (Option.map Prod.fst) hscan).trans ?_
  rw [scanLoop, Option.map_some, decide_eq_false]
  simp only [List.length_append]
  omega

/-- The scan never leaves the record, accepts exactly the updates, and reports the layout of the
last display rectangle; an update that another one begins with has ended early. -/
theorem scan_update_exact (body : List UInt8) :
    (∃ result, scanUpdate body = some result) ∧
    (completeUpdate body = some true ↔ ∃ rs, Update body rs) ∧
    (∀ rs, Update body rs → displayLayout body = some (lastLayout rs)) ∧
    ((¬ ∃ rs, Update body rs) → displayLayout body = some none) ∧
    ∀ front, front <+: body → front ≠ body → completeUpdate body = some true →
      completeUpdate front = some true → ∃ rs, Terminated front rs := by
  have hexact : ∀ bytes, completeUpdate bytes = some true → ∃ rs, Update bytes rs := by
    intro bytes hcomplete
    obtain ⟨complete, layout, hscan, hsound⟩ := scanUpdate_sound bytes
    rw [completeUpdate, hscan] at hcomplete
    exact hsound (Option.some.inj hcomplete)
  obtain ⟨complete, layout, hscan, hsound⟩ := scanUpdate_sound body
  refine ⟨⟨_, hscan⟩, ⟨hexact body, ?_⟩, ?_, ?_, ?_⟩
  · rintro ⟨rs, hrs⟩
    rw [completeUpdate, scanUpdate_complete hrs]
    rfl
  · intro rs hrs
    rw [displayLayout, scanUpdate_complete hrs]
    rfl
  · intro hnone
    cases complete with
    | true => exact absurd (hsound rfl) hnone
    | false =>
        rw [displayLayout, hscan]
        rfl
  · rintro front ⟨back, rfl⟩ hne hcomplete hfront
    obtain ⟨rs, hterminated | hwhole⟩ := hexact front hfront
    · exact ⟨rs, hterminated⟩
    · have hback : back ≠ [] := by
        rintro rfl
        exact hne (List.append_nil front).symm
      rw [hwhole.append hback] at hcomplete
      cases hcomplete

def displayRectangle : Rectangle where
  geometry := List.replicate 8 0
  word := [0, 0, 4, 0x51]
  payload := [0, 20, 0, 0, 0, 0, 0, 0, 7, 128, 4, 56, 0, 0, 0, 0, 0, 0, 0, 0, 0, 0]
  geometryLength := rfl
  wordLength := rfl
  valid := by
    have hword : encodingOf [0, 0, 4, 0x51] = 0x451 := by decide
    rw [hword]
    refine @Payload.displays _ [0, 0, 0, 0, 0, 0, 7, 128, 4, 56, 0, 0, 0, 0, 0, 0, 0, 0, 0, 0]
      ⟨?_, ?_⟩ ?_ ?_
    all_goals decide

theorem scan_update_exact_display :
    completeUpdate (header 0 1 ++ displayRectangle.bytes) = some true ∧
      displayLayout (header 0 1 ++ displayRectangle.bytes) = some (some (1920, 1080)) ∧
      ∀ front, front <+: header 0 1 ++ displayRectangle.bytes →
        front ≠ header 0 1 ++ displayRectangle.bytes → completeUpdate front = some true →
        ∃ rs, Terminated front rs := by
  have hupdate : Update (header 0 1 ++ displayRectangle.bytes) [displayRectangle] :=
    Or.inr ⟨0, rfl, by decide⟩
  obtain ⟨-, hcomplete, hlayout, -, hprefix⟩ :=
    scan_update_exact (header 0 1 ++ displayRectangle.bytes)
  refine ⟨hcomplete.2 ⟨_, hupdate⟩, (hlayout _ hupdate).trans ?_, ?_⟩
  · exact congrArg some (by decide)
  · exact fun front hfront hne => hprefix front hfront hne (hcomplete.2 ⟨_, hupdate⟩)

end MacVnc.Protocol.FramebufferUpdate

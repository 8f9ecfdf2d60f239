import MacVnc.Protocol.Offer
/-!
# Bounds on reading a media answer

`parse_answer` and `diagnose_answer` of `hp-protocol/src/metadata.rs` once more, at
offsets into the answer and with every access and every sum, difference and product
checked; what would stop the program is `none`.  Both keep a log of what they
decompress.
-/

namespace MacVnc.Protocol.AnswerBounds

open MacVnc.Lib
open MacVnc.Protocol.Metadata
open MacVnc.Protocol.Offer

/-! ## Decompressing -/

/-- One use of the zlib decoder: the bytes it may give, those it gives, and whether it got
there without an error. -/
structure Decompression where
  limit : Nat
  out : List UInt8
  decoded : Bool

/-- A decoder behind `take`. -/
def taken (zlib : Decoder) : Decoder := fun stream limit =>
  ((zlib stream limit).1.take limit, (zlib stream limit).2)

/-- A zlib stream may start at this offset. -/
def candidate (body : List UInt8) (i : Nat) : Option Bool := do
  let a ← body[i]?
  if a ≠ 0x78 then some false
  else
    let b ← body[i + 1]?
    some (decide ((a.toNat * 256 + b.toNat) % 31 = 0))

/-- The decompression from this offset on, and the expanded bytes after it. -/
def decompress (zlib : Decoder) (body : List UInt8) (i expanded : Nat) :
    Option (Decompression × Nat) := do
  let stream ← Checked.slice body i body.length
  let left ← Checked.sub (1024 * 1024) expanded
  let limit ← Checked.add 64 left 1
  let (out, decoded) := taken zlib stream limit
  let expanded ← Checked.add 64 expanded out.length
  some ({ limit, out, decoded }, expanded)

/-- `windows(8).position`. -/
def anchorAt : List UInt8 → Option Nat
  | [] => none
  | b :: rest => if plistAnchor.isPrefixOf (b :: rest) then some 0 else (anchorAt rest).map (· + 1)

/-! ## `parse_answer` -/

def withinCanvas (w h : Nat) : Option Bool :=
  if w ≤ 16384 then
    if h ≤ 16384 then (Checked.mul 64 w h).map fun area => decide (area ≤ 67108864)
    else some false
  else some false

def videoConfigLoopAt : List Placed → Guarded (Option StreamConfig)
  | [] => return none
  | f :: rest =>
      if f.field ≠ 5 then videoConfigLoopAt rest
      else do
        let sub ← fieldsAt f.bytes
        let g := (contents sub).foldl Geometry.note .absent
        if 0 < g.width ∧ 0 < g.height then
          let within ← withinCanvas g.width g.height
          if ¬within then throw .canvasExceedsLimits
          else if ¬(1 ≤ g.tiles ∧ g.tiles ≤ 64) then throw .invalidTileCount
          else return some g.config
        else videoConfigLoopAt rest

def videoConfigAt (bytes : List UInt8) : Guarded (Option StreamConfig) := do
  let fs ← fieldsAt bytes
  videoConfigLoopAt fs

/-- The loop over the offsets, of which so many are left, with the attempts and the expanded
bytes so far. -/
def scanAt (zlib : Decoder) (body : List UInt8) :
    Nat → Nat → Nat → Nat →
      Option (List Decompression × Except MetadataError (Option StreamConfig))
  | 0, _, _, _ => some ([], .ok none)
  | left + 1, i, attempts, expanded => do
      let found ← candidate body i
      if ¬found then scanAt zlib body left (i + 1) attempts expanded
      else
        let attempts ← Checked.add 31 attempts 1
        if 32 < attempts then some ([], .error .candidateLimitExceeded)
        else
          let (d, expanded) ← decompress zlib body i expanded
          if 1024 * 1024 < expanded then some ([d], .error .expandsBeyondLimit)
          else if d.decoded = false then
            let (log, answer) ← scanAt zlib body left (i + 1) attempts expanded
            some (d :: log, answer)
          else
            match ← (videoConfigAt d.out).run with
            | .ok (some config) => some ([d], .ok (some config))
            | _ =>
                let (log, answer) ← scanAt zlib body left (i + 1) attempts expanded
                some (d :: log, answer)

def parseAnswerAt (zlib : Decoder) (body : List UInt8) :
    Option (List Decompression × Except MetadataError (Option StreamConfig)) :=
  if 65498 < body.length then some ([], .error .answerExceedsRecordLimit)
  else if body.head? ≠ some 0 then some ([], .ok none)
  else
    match anchorAt body with
    | none => some ([], .ok none)
    | some start => scanAt zlib body (body.length - 1 - start) start 0 0

/-! ## `diagnose_answer` -/

inductive Reason where
  | oversizeRecord
  | noVideoConfig
  | zlibCandidateLimit
  | decompressionLimit
  | invalidProtobuf
  | invalidVideoConfig
  | zeroGeometry
  | oversizeGeometry
  | tileFieldMissing
  | invalidTileCount
  | validGeometry
deriving DecidableEq, Repr

def Reason.text : Reason → String
  | oversizeRecord => "oversize_record"
  | noVideoConfig => "no_video_config"
  | zlibCandidateLimit => "zlib_candidate_limit"
  | decompressionLimit => "decompression_limit"
  | invalidProtobuf => "invalid_protobuf"
  | invalidVideoConfig => "invalid_video_config"
  | zeroGeometry => "zero_geometry"
  | oversizeGeometry => "oversize_geometry"
  | tileFieldMissing => "tile_field_missing"
  | invalidTileCount => "invalid_tile_count"
  | validGeometry => "valid_geometry"

/-- The counts and the geometry that a diagnosis keeps. -/
structure Diagnosis where
  compressed : Nat
  protobuf : Nat
  configs : Nat
  width : Nat
  height : Nat
  tiles : Option Nat
  reason : Reason

namespace Diagnosis

def fresh : Diagnosis where
  compressed := 0
  protobuf := 0
  configs := 0
  width := 0
  height := 0
  tiles := none
  reason := .noVideoConfig

def note (d : Diagnosis) (f : ProtoField) : Diagnosis :=
  match f.value with
  | none => d
  | some v =>
      if f.field = 4 then { d with width := v }
      else if f.field = 5 then { d with height := v }
      else if f.field = 6 then { d with tiles := some v }
      else d

/-- The tile count where the canvas is within its limits. -/
def tileReason (d : Diagnosis) : Reason :=
  match d.tiles with
  | none => .tileFieldMissing
  | some tiles => if 1 ≤ tiles ∧ tiles ≤ 64 then .validGeometry else .invalidTileCount

def geometryReason (d : Diagnosis) : Option Reason :=
  if d.width = 0 ∨ d.height = 0 then some .zeroGeometry
  else if 16384 < d.width ∨ 16384 < d.height then some .oversizeGeometry
  else
    (Checked.mul 64 d.width d.height).map fun area =>
      if 67108864 < area then .oversizeGeometry else d.tileReason

def fieldsOf : List Placed → Diagnosis → Option Diagnosis
  | [], d => some d
  | f :: rest, d =>
      if f.field ≠ 5 then fieldsOf rest d
      else do
        match ← (fieldsAt f.bytes).run with
        | .error _ => fieldsOf rest { d with reason := .invalidVideoConfig }
        | .ok config =>
            let noted := (contents config).foldl note { d with configs := d.configs + 1 }
            let reason ← noted.geometryReason
            fieldsOf rest { noted with reason }

def record (d : Diagnosis) (out : List UInt8) : Option Diagnosis := do
  let d := { d with compressed := d.compressed + 1 }
  match ← (fieldsAt out).run with
  | .error _ => some { d with reason := .invalidProtobuf }
  | .ok top => fieldsOf top { d with protobuf := d.protobuf + 1 }

/-- A stream that is not decompressed to its end changes nothing. -/
def after (d : Diagnosis) (x : Decompression) : Option Diagnosis :=
  if x.decoded then d.record x.out else some d

def tilesText : Option Nat → String
  | none => "None"
  | some tiles => s!"Some({tiles})"

def text (d : Diagnosis) (kind : Nat) : String :=
  s!"type={kind}, zlib={d.compressed}, protobuf={d.protobuf}, video_configs={d.configs}, " ++
    s!"geometry={d.width}x{d.height}, tiles={tilesText d.tiles}, reason={d.reason.text}"

end Diagnosis

/-- The loop over the offsets, of which so many are left. -/
def diagnoseLoopAt (zlib : Decoder) (body : List UInt8) :
    Nat → Nat → Nat → Nat → Diagnosis → Option (List Decompression × Diagnosis)
  | 0, _, _, _, diagnosis => some ([], diagnosis)
  | left + 1, i, attempts, expanded, diagnosis => do
      let found ← candidate body i
      if ¬found then diagnoseLoopAt zlib body left (i + 1) attempts expanded diagnosis
      else
        let attempts ← Checked.add 31 attempts 1
        if 32 < attempts then some ([], { diagnosis with reason := .zlibCandidateLimit })
        else
          let (d, expanded) ← decompress zlib body i expanded
          if 1024 * 1024 < expanded then
            some ([d], { diagnosis with reason := .decompressionLimit })
          else
            let diagnosis ← diagnosis.after d
            let (log, diagnosis) ←
              diagnoseLoopAt zlib body left (i + 1) attempts expanded diagnosis
            some (d :: log, diagnosis)

def diagnoseAnswerAt (zlib : Decoder) (body : List UInt8) : Option (List Decompression × String) :=
  if 65498 < body.length then some ([], s!"reason={Reason.oversizeRecord.text}")
  else do
    let (log, diagnosis) ←
      match anchorAt body with
      | none => some ([], Diagnosis.fresh)
      | some start => diagnoseLoopAt zlib body (body.length - 1 - start) start 0 0 .fresh
    some (log, diagnosis.text (body.headD 255).toNat)

/-! ## The budget -/

/-- The decompressions of a log stay in the budget, after so many attempts and expanded
bytes. -/
structure Within (attempts expanded : Nat) (log : List Decompression) : Prop where
  started : attempts + log.length ≤ 32
  output : expanded + (log.map fun d => d.out.length).sum ≤ 1024 * 1024 + 1

variable {zlib : Decoder} {body : List UInt8} {attempts expanded i left : Nat}
  {log : List Decompression}

theorem within_nil (hattempts : attempts ≤ 32) (hexpanded : expanded ≤ 1024 * 1024) :
    Within attempts expanded [] where
  started := hattempts
  output := Nat.le_succ_of_le hexpanded

theorem within_cons {d : Decompression} (h : Within (attempts + 1) (expanded + d.out.length) log) :
    Within attempts expanded (d :: log) where
  started := by
    have hstarted := h.started
    rw [List.length_cons]
    omega
  output := by
    have houtput := h.output
    rw [List.map_cons, List.sum_cons]
    omega

/-- The last decompression may run one byte over. -/
theorem within_last {d : Decompression} (hattempts : attempts + 1 ≤ 32)
    (hout : expanded + d.out.length ≤ 1024 * 1024 + 1) : Within attempts expanded [d] where
  started := hattempts
  output := by simpa using hout

/-- What a decompression gives is within what is left of the budget. -/
theorem decompress_spec (zlib : Decoder) (hi : i ≤ body.length)
    (hexpanded : expanded ≤ 1024 * 1024) :
    ∃ d, decompress zlib body i expanded = some (d, expanded + d.out.length) ∧
      (d.out, d.decoded) = taken zlib (body.drop i) (1024 * 1024 - expanded + 1) ∧
      expanded + d.out.length ≤ 1024 * 1024 + 1 := by
  have hlimit : Checked.add 64 (1024 * 1024 - expanded) 1 = some (1024 * 1024 - expanded + 1) :=
    Checked.add_of_lt (by omega)
  obtain ⟨out, decoded, htaken⟩ : ∃ out decoded,
    taken zlib (body.drop i) (1024 * 1024 - expanded + 1) = (out, decoded) := ⟨_, _, rfl⟩
  have hout : out.length ≤ 1024 * 1024 - expanded + 1 := by
    have hfst : _ = out := congrArg Prod.fst htaken
    rw [← hfst]
    exact List.length_take_le _ _
  have hsum : Checked.add 64 expanded out.length = some (expanded + out.length) :=
    Checked.add_of_lt (by omega)
  refine ⟨⟨1024 * 1024 - expanded + 1, out, decoded⟩, ?_, htaken.symm, by dsimp only; omega⟩
  simp only [decompress, Checked.slice_suffix hi, Checked.sub_of_le hexpanded, hlimit, htaken, hsum,
    Checked.some_bind]

/-- The bytes of a candidate are in the answer. -/
theorem candidate_spec (hi : i + 1 < body.length) :
    ∃ a b rest, body.drop i = a :: b :: rest ∧ body.drop (i + 1) = b :: rest ∧
      candidate body i =
        some (decide (¬(a ≠ 0x78 ∨ (a.toNat * 256 + b.toNat) % 31 ≠ 0))) := by
  have hnext : body.drop (i + 1) = body[i + 1] :: body.drop (i + 2) :=
    List.drop_eq_getElem_cons hi
  have hhere : body.drop i = body[i] :: body.drop (i + 1) := List.drop_eq_getElem_cons (by omega)
  refine ⟨body[i], body[i + 1], body.drop (i + 2), hnext ▸ hhere, hnext, ?_⟩
  rw [candidate, List.getElem?_eq_getElem (by omega), Checked.some_bind,
    List.getElem?_eq_getElem hi, Checked.some_bind]
  by_cases hfirst : body[i] = 0x78
  · simp [hfirst]
  · simp [hfirst]

/-! ## The answer -/

theorem withinCanvas_eq (w h : Nat) :
    withinCanvas w h =
      some (decide (w ≤ 16384 ∧ h ≤ 16384 ∧ w * h ≤ 67108864)) := by
  unfold withinCanvas
  by_cases hw : w ≤ 16384
  · by_cases hh : h ≤ 16384
    · have harea : w * h ≤ 16384 * 16384 := Nat.mul_le_mul hw hh
      rw [if_pos hw, if_pos hh, Checked.mul_of_lt (by omega)]
      simp [hw, hh]
    · rw [if_pos hw, if_neg hh]
      simp [hh]
  · rw [if_neg hw]
    simp [hw]

theorem fieldsAt_contents (bytes : List UInt8) :
    ∃ r : Except MetadataError (List Placed), fieldsAt bytes = ExceptT.mk (some r) ∧
      r.map contents = fields bytes := by
  obtain ⟨r, hr, hfields, _⟩ := fieldsAt_safe bytes
  exact ⟨r, hr, hfields⟩

/-- Checking the product of the sizes leaves the answer for a geometry as it is. -/
theorem geometryAnswer_eq (g : Geometry) (x : Guarded (Option StreamConfig))
    (y : Except MetadataError (Option StreamConfig)) (hxy : x = ExceptT.mk (some y)) :
    (if 0 < g.width ∧ 0 < g.height then do
        let within ← withinCanvas g.width g.height
        if ¬within then throw .canvasExceedsLimits
        else if ¬(1 ≤ g.tiles ∧ g.tiles ≤ 64) then throw .invalidTileCount
        else return some g.config
      else x) =
      ExceptT.mk (some
        (if 0 < g.width ∧ 0 < g.height then
          if ¬(g.width ≤ 16384 ∧ g.height ≤ 16384 ∧ g.width * g.height ≤ 67108864) then
            .error .canvasExceedsLimits
          else if ¬(1 ≤ g.tiles ∧ g.tiles ≤ 64) then .error .invalidTileCount
          else .ok (some g.config)
        else y)) := by
  by_cases hshown : 0 < g.width ∧ 0 < g.height
  · rw [if_pos hshown, if_pos hshown, withinCanvas_eq, Checked.lift_bind]
    by_cases hcanvas : g.width ≤ 16384 ∧ g.height ≤ 16384 ∧ g.width * g.height ≤ 67108864
    · rw [decide_eq_true hcanvas, if_neg (not_not.2 rfl), if_neg (not_not.2 hcanvas)]
      by_cases htiles : 1 ≤ g.tiles ∧ g.tiles ≤ 64
      · rw [if_neg (not_not.2 htiles), if_neg (not_not.2 htiles)]
        rfl
      · rw [if_pos htiles, if_pos htiles]
        rfl
    · rw [decide_eq_false hcanvas, if_pos nofun, if_pos hcanvas]
      rfl
  · rw [if_neg hshown, if_neg hshown, hxy]

theorem videoConfigLoopAt_eq (fs : List Placed) :
    videoConfigLoopAt fs = ExceptT.mk (some (videoConfigLoop (contents fs))) := by
  induction fs with
  | nil => rfl
  | cons f rest ih =>
      rw [contents, List.map_cons]
      unfold videoConfigLoopAt videoConfigLoop
      by_cases hfield : f.field = 5
      · rw [if_neg (not_not.2 hfield), if_neg (not_not.2 hfield)]
        obtain ⟨r, hr, hfields⟩ := fieldsAt_contents f.bytes
        rw [hr, ← hfields]
        cases r with
        | error e => rfl
        | ok sub => exact geometryAnswer_eq _ _ _ ih
      · rw [if_pos hfield, if_pos hfield, ih]
        rfl

theorem videoConfigAt_eq (bytes : List UInt8) :
    videoConfigAt bytes = ExceptT.mk (some (videoConfig bytes)) := by
  obtain ⟨r, hr, hfields⟩ := fieldsAt_contents bytes
  unfold videoConfigAt videoConfig
  rw [hr, ← hfields]
  cases r with
  | error e => rfl
  | ok fs => exact videoConfigLoopAt_eq fs

/-- The scan at offsets gives what the scan of the rest gives, within the budget. -/
theorem scanAt_spec (hleft : i + left + 1 = body.length) (hattempts : attempts ≤ 32)
    (hexpanded : expanded ≤ 1024 * 1024) :
    ∃ log, scanAt zlib body left i attempts expanded =
        some (log, scan (taken zlib) attempts expanded (body.drop i)) ∧
      Within attempts expanded log := by
  induction left generalizing i attempts expanded with
  | zero =>
      refine ⟨[], ?_, within_nil hattempts hexpanded⟩
      have hlast : body.drop i = [body[i]] := by
        rw [List.drop_eq_getElem_cons (by omega), List.drop_eq_nil_of_le (by omega)]
      rw [hlast]
      rfl
  | succ left ih =>
      obtain ⟨a, b, rest, hhere, hnext, hcandidate⟩ :=
        candidate_spec (show i + 1 < body.length by omega)
      unfold scanAt scan
      rw [hcandidate, Checked.some_bind, hhere]
      by_cases hfound : a ≠ 0x78 ∨ (a.toNat * 256 + b.toNat) % 31 ≠ 0
      · rw [decide_eq_false (not_not.2 hfound), if_pos Bool.false_ne_true]
        dsimp only
        rw [if_pos hfound, ← hnext]
        exact ih (by omega) hattempts hexpanded
      rw [decide_eq_true hfound, if_neg (not_not.2 rfl), Checked.add_of_lt (by omega),
        Checked.some_bind]
      dsimp only
      rw [if_neg hfound]
      by_cases hfew : 32 < attempts + 1
      · rw [if_pos hfew, if_pos hfew]
        exact ⟨[], rfl, within_nil hattempts hexpanded⟩
      rw [if_neg hfew, if_neg hfew]
      obtain ⟨d, hd, htaken, hsize⟩ :=
        decompress_spec zlib (show i ≤ body.length by omega) hexpanded
      rw [hhere] at htaken
      rw [hd, Checked.some_bind, ← htaken]
      dsimp only
      by_cases hlarge : 1024 * 1024 < expanded + d.out.length
      · rw [if_pos hlarge, if_pos hlarge]
        exact ⟨[d], rfl, within_last (by omega) hsize⟩
      rw [if_neg hlarge, if_neg hlarge, ← hnext]
      -- Every other way goes on with the scan or ends it with this decompression.
      obtain ⟨log, hlog, hwithin⟩ :=
        ih (i := i + 1) (by omega) (Nat.le_of_not_lt hfew) (Nat.le_of_not_lt hlarge)
      by_cases hdecoded : d.decoded = false
      · rw [if_pos hdecoded, if_pos hdecoded, hlog]
        exact ⟨d :: log, rfl, within_cons hwithin⟩
      have hconfig : (videoConfigAt d.out).run = some (videoConfig d.out) := videoConfigAt_eq d.out
      rw [if_neg hdecoded, if_neg hdecoded, hconfig, Checked.some_bind, hlog]
      cases videoConfig d.out with
      | error e => exact ⟨d :: log, rfl, within_cons hwithin⟩
      | ok answer =>
          cases answer with
          | none => exact ⟨d :: log, rfl, within_cons hwithin⟩
          | some config => exact ⟨[d], rfl, within_last (by omega) hsize⟩

theorem anchorAt_spec (body : List UInt8) :
    anchored body = (anchorAt body).map (body.drop ·) ∧
      ∀ start, anchorAt body = some start → start < body.length := by
  induction body with
  | nil => exact ⟨rfl, nofun⟩
  | cons b rest ih =>
      unfold anchored anchorAt
      by_cases hanchor : plistAnchor.isPrefixOf (b :: rest) = true
      · rw [if_pos hanchor, if_pos hanchor]
        refine ⟨rfl, ?_⟩
        rintro _ ⟨⟩
        exact Nat.zero_lt_succ _
      · rw [if_neg hanchor, if_neg hanchor, ih.1]
        refine ⟨?_, ?_⟩
        · rw [Option.map_map]
          rfl
        · intro start hstart
          obtain ⟨place, hplace, rfl⟩ := Option.map_eq_some_iff.1 hstart
          exact Nat.succ_lt_succ (ih.2 place hplace)

theorem parseAnswerAt_spec (zlib : Decoder) (body : List UInt8) :
    ∃ log, parseAnswerAt zlib body = some (log, parseAnswer (taken zlib) body) ∧
      Within 0 0 log := by
  have hnone : Within 0 0 [] := within_nil (Nat.zero_le _) (Nat.zero_le _)
  unfold parseAnswerAt parseAnswer
  by_cases hsize : 65498 < body.length
  · rw [if_pos hsize, if_pos hsize]
    exact ⟨[], rfl, hnone⟩
  rw [if_neg hsize, if_neg hsize]
  by_cases hkind : body.head? ≠ some 0
  · rw [if_pos hkind, if_pos hkind]
    exact ⟨[], rfl, hnone⟩
  rw [if_neg hkind, if_neg hkind]
  obtain ⟨hanchored, hplace⟩ := anchorAt_spec body
  rw [hanchored]
  cases hanchor : anchorAt body with
  | none => exact ⟨[], rfl, hnone⟩
  | some start =>
      have hstart := hplace start hanchor
      exact scanAt_spec (by omega) (Nat.zero_le _) (Nat.zero_le _)

/-! ## The diagnosis -/

namespace Diagnosis

/-- The product is formed for sizes of at most 16384 only. -/
theorem geometryReason_some (d : Diagnosis) : ∃ reason, d.geometryReason = some reason := by
  unfold geometryReason
  by_cases hempty : d.width = 0 ∨ d.height = 0
  · rw [if_pos hempty]
    exact ⟨_, rfl⟩
  rw [if_neg hempty]
  by_cases hlarge : 16384 < d.width ∨ 16384 < d.height
  · rw [if_pos hlarge]
    exact ⟨_, rfl⟩
  · obtain ⟨hwidth, hheight⟩ := not_or.1 hlarge
    have harea : d.width * d.height ≤ 16384 * 16384 :=
      Nat.mul_le_mul (Nat.le_of_not_lt hwidth) (Nat.le_of_not_lt hheight)
    rw [if_neg hlarge, Checked.mul_of_lt (by omega)]
    exact ⟨_, rfl⟩

theorem fieldsOf_some (fs : List Placed) (d : Diagnosis) : ∃ d', fieldsOf fs d = some d' := by
  induction fs generalizing d with
  | nil => exact ⟨d, rfl⟩
  | cons f rest ih =>
      unfold fieldsOf
      by_cases hfield : f.field = 5
      · rw [if_neg (not_not.2 hfield)]
        obtain ⟨r, hr, _⟩ := fieldsAt_contents f.bytes
        have hrun : (fieldsAt f.bytes).run = some r := hr
        rw [hrun, Checked.some_bind]
        cases r with
        | error e => exact ih _
        | ok config =>
            obtain ⟨reason, hreason⟩ := geometryReason_some
              ((contents config).foldl note { d with configs := d.configs + 1 })
            dsimp only
            rw [hreason, Checked.some_bind]
            exact ih _
      · rw [if_pos hfield]
        exact ih d

theorem record_some (d : Diagnosis) (out : List UInt8) : ∃ d', d.record out = some d' := by
  unfold record
  obtain ⟨r, hr, _⟩ := fieldsAt_contents out
  have hrun : (fieldsAt out).run = some r := hr
  dsimp only
  rw [hrun, Checked.some_bind]
  cases r with
  | error e => exact ⟨_, rfl⟩
  | ok top => exact fieldsOf_some top _

theorem after_some (d : Diagnosis) (x : Decompression) : ∃ d', d.after x = some d' := by
  unfold after
  split
  · exact record_some d x.out
  · exact ⟨d, rfl⟩

end Diagnosis

theorem diagnoseLoopAt_spec (zlib : Decoder) (hleft : i + left + 1 = body.length)
    (hattempts : attempts ≤ 32) (hexpanded : expanded ≤ 1024 * 1024) (diagnosis : Diagnosis) :
    ∃ log final, diagnoseLoopAt zlib body left i attempts expanded diagnosis = some (log, final) ∧
      Within attempts expanded log := by
  induction left generalizing i attempts expanded diagnosis with
  | zero => exact ⟨[], diagnosis, rfl, within_nil hattempts hexpanded⟩
  | succ left ih =>
      obtain ⟨a, b, rest, _, _, hcandidate⟩ := candidate_spec (show i + 1 < body.length by omega)
      unfold diagnoseLoopAt
      rw [hcandidate, Checked.some_bind]
      by_cases hfound : a ≠ 0x78 ∨ (a.toNat * 256 + b.toNat) % 31 ≠ 0
      · rw [decide_eq_false (not_not.2 hfound), if_pos Bool.false_ne_true]
        exact ih (by omega) hattempts hexpanded diagnosis
      rw [decide_eq_true hfound, if_neg (not_not.2 rfl), Checked.add_of_lt (by omega),
        Checked.some_bind]
      by_cases hfew : 32 < attempts + 1
      · rw [if_pos hfew]
        exact ⟨[], _, rfl, within_nil hattempts hexpanded⟩
      rw [if_neg hfew]
      obtain ⟨d, hd, _, hsize⟩ := decompress_spec zlib (show i ≤ body.length by omega) hexpanded
      rw [hd, Checked.some_bind]
      dsimp only
      by_cases hlarge : 1024 * 1024 < expanded + d.out.length
      · rw [if_pos hlarge]
        exact ⟨[d], _, rfl, within_last (by omega) hsize⟩
      rw [if_neg hlarge]
      obtain ⟨next, hnext⟩ := Diagnosis.after_some diagnosis d
      obtain ⟨log, final, hlog, hwithin⟩ :=
        ih (i := i + 1) (by omega) (Nat.le_of_not_lt hfew) (Nat.le_of_not_lt hlarge) next
      rw [hnext, Checked.some_bind, hlog]
      exact ⟨d :: log, final, rfl, within_cons hwithin⟩

theorem diagnoseAnswerAt_spec (zlib : Decoder) (body : List UInt8) :
    ∃ log text, diagnoseAnswerAt zlib body = some (log, text) ∧ Within 0 0 log := by
  have hnone : Within 0 0 [] := within_nil (Nat.zero_le _) (Nat.zero_le _)
  unfold diagnoseAnswerAt
  by_cases hsize : 65498 < body.length
  · rw [if_pos hsize]
    exact ⟨[], _, rfl, hnone⟩
  rw [if_neg hsize]
  cases hanchor : anchorAt body with
  | none => exact ⟨[], _, rfl, hnone⟩
  | some start =>
      have hstart := (anchorAt_spec body).2 start hanchor
      have hplace : start + (body.length - 1 - start) + 1 = body.length := by omega
      obtain ⟨log, final, hlog, hwithin⟩ :=
        diagnoseLoopAt_spec zlib hplace (Nat.zero_le 32) (Nat.zero_le _) .fresh
      dsimp only
      rw [hlog]
      exact ⟨log, _, rfl, hwithin⟩

/-! ## Both -/

structure Limited (config : StreamConfig) : Prop where
  width : 1 ≤ config.width.toNat ∧ config.width.toNat ≤ 16384
  height : 1 ≤ config.height.toNat ∧ config.height.toNat ≤ 16384
  area : config.width.toNat * config.height.toNat ≤ 67108864
  tiles : 1 ≤ config.tileCount.toNat ∧ config.tileCount.toNat ≤ 64

/-- The casts kept the numbers that were decoded. -/
structure Kept (config : StreamConfig) (g : Geometry) : Prop where
  width : config.width.toNat = g.width
  height : config.height.toNat = g.height
  tiles : config.tileCount.toNat = g.tiles
  ltr : config.ltrEnabled = g.ltr

theorem kept_config {g : Geometry} (h : g.Negotiable) : Kept g.config g where
  width := (config_toNat h).1
  height := (config_toNat h).2.1
  tiles := (config_toNat h).2.2
  ltr := rfl

theorem limited_of_kept {g : Geometry} {config : StreamConfig} (hshown : g.Shown)
    (h : g.Negotiable) (hkept : Kept config g) : Limited config where
  width := hkept.width ▸ ⟨hshown.1, h.width⟩
  height := hkept.height ▸ ⟨hshown.2, h.height⟩
  area := by
    rw [hkept.width, hkept.height]
    exact h.area
  tiles := hkept.tiles ▸ h.tiles

/-- Whatever the answer and the decoder, both readings end without an access outside of the
answer and without an overflow, after 32 decompressions and a byte more than 1 MiB at most,
and a configuration is within its limits and as it was decoded. -/
theorem answers_bounded (zlib : Decoder) (body : List UInt8) :
    (∃ log answer, parseAnswerAt zlib body = some (log, answer) ∧ Within 0 0 log ∧
        ∀ config, answer = .ok (some config) → Limited config ∧
          ∃ g, Announced (taken zlib) body g ∧ Kept config g) ∧
      ∃ log text, diagnoseAnswerAt zlib body = some (log, text) ∧ Within 0 0 log := by
  refine ⟨?_, diagnoseAnswerAt_spec zlib body⟩
  obtain ⟨log, hlog, hwithin⟩ := parseAnswerAt_spec zlib body
  refine ⟨log, _, hlog, hwithin, ?_⟩
  intro config hconfig
  obtain ⟨g, hannounced, rfl⟩ := parseAnswer_iff.1 hconfig
  obtain ⟨hshown, hlimits⟩ := announced_limits hannounced
  exact ⟨limited_of_kept hshown hlimits (kept_config hlimits), g, hannounced, kept_config hlimits⟩

end MacVnc.Protocol.AnswerBounds

import MacVnc.Media.Compositing
/-!
# Bands on the canvas

What a sequence of updates leaves on the canvas.  Every pixel is that of the latest
accepted tile over it, a refused tile changes nothing, and the tiles cover the canvas
for good exactly when the last of them lies on it.
-/

namespace MacVnc.Media.CompositorBands

open MacVnc.Media.Compositing

def pixel (f : RgbaFrame) (x y : Nat) : List UInt8 :=
  (f.pixels.drop ((y * f.width + x) * 4)).take 4

/-- The checks of a tile that do not look at the canvas. -/
def Passes (tiles : Nat) (t : DecodedTile) : Prop :=
  t.tile < tiles ∧ rgbaLen t.frame.width t.frame.height = .ok t.frame.pixels.length

instance (tiles : Nat) (t : DecodedTile) : Decidable (Passes tiles t) :=
  inferInstanceAs (Decidable (_ ∧ rgbaLen t.frame.width t.frame.height = _))

/-- `update` on the compositor itself, with what it leaves there when it fails. -/
def updateInPlace (c : Compositor) (t : DecodedTile) :
    Option (Except MediaError Bool × Compositor) :=
  if c.tiles ≤ t.tile then some (.error .invalidDecodedTile, c)
  else match rgbaLen t.frame.width t.frame.height with
    | .error e => some (.error e, c)
    | .ok length =>
        if t.frame.pixels.length ≠ length then some (.error .invalidDecodedTile, c)
        else
        let slot := c.slotHeight.getD t.frame.height
        let c := { c with slotHeight := some slot }
        if t.frame.height ≠ slot then some (.error .tileGeometryChanged, c)
        else
        let y := t.tile * slot
        if c.frame.height ≤ y then some (.ok false, c)
        else
        let rows := min slot (c.frame.height - y)
        let cols := min t.frame.width c.frame.width
        (copyRows t.frame c.frame.width y cols c.frame.pixels rows).map fun pixels =>
          let c := { c with frame := { c.frame with pixels }, seen := c.seen.set t.tile true }
          (.ok (c.seen.all id), c)

def updates (c : Compositor) :
    List DecodedTile → Option (List (Except MediaError Bool) × Compositor)
  | [] => some ([], c)
  | t :: rest =>
      (updateInPlace c t).bind fun (result, c) =>
        (updates c rest).map fun (results, c) => (result :: results, c)

/-! ## Copies -/

theorem copySlice_getElem? {pixels source result : List UInt8} {dst src len : Nat}
    (h : copySlice pixels source dst src len = some result) (i : Nat) :
    result[i]? = if dst ≤ i ∧ i < dst + len then source[src + (i - dst)]? else pixels[i]? := by
  unfold copySlice at h
  rw [Option.ite_none_right_eq_some, Option.some.injEq] at h
  obtain ⟨⟨hdst, hsrc⟩, rfl⟩ := h
  have hfront : (pixels.take dst).length = dst := by simp; omega
  have hmid : ((source.drop src).take len).length = len := by simp; omega
  by_cases hbefore : i < dst
  · rw [if_neg (by omega), List.append_assoc, List.getElem?_append_left (by omega),
      List.getElem?_take_of_lt hbefore]
  · by_cases hin : i < dst + len
    · rw [if_pos ⟨by omega, hin⟩, List.getElem?_append_left (by simp; omega),
        List.getElem?_append_right (by omega), hfront, List.getElem?_take_of_lt (by omega),
        List.getElem?_drop]
    · rw [if_neg (by omega), List.getElem?_append_right (by simp; omega), List.getElem?_drop]
      congr 1
      simp
      omega

theorem byte_in_row {width x y b row cols : Nat} (hx : x < width) (hb : b < 4)
    (hcols : cols ≤ width) :
    row * width * 4 ≤ (y * width + x) * 4 + b ∧
        (y * width + x) * 4 + b < row * width * 4 + cols * 4 ↔
      y = row ∧ x < cols := by
  rcases Nat.lt_trichotomy y row with hless | rfl | hgreater
  · have hrow : (y + 1) * width ≤ row * width := Nat.mul_le_mul_right width hless
    rw [Nat.add_mul, Nat.one_mul] at hrow
    constructor
    · intro hin
      omega
    · intro hin
      omega
  · constructor
    · intro hin
      omega
    · intro hin
      omega
  · have hrow : (row + 1) * width ≤ y * width := Nat.mul_le_mul_right width hgreater
    rw [Nat.add_mul, Nat.one_mul] at hrow
    constructor
    · intro hin
      omega
    · intro hin
      omega

theorem copyRows_getElem? {band : RgbaFrame} {width y cols rows : Nat}
    {pixels result : List UInt8} (hcols : cols ≤ width)
    (h : copyRows band width y cols pixels rows = some result) {x v b : Nat} (hx : x < width)
    (hb : b < 4) :
    result[(v * width + x) * 4 + b]? =
      if y ≤ v ∧ v < y + rows ∧ x < cols then
        band.pixels[((v - y) * band.width + x) * 4 + b]?
      else pixels[(v * width + x) * 4 + b]? := by
  induction rows generalizing result with
  | zero =>
      cases h
      rw [if_neg (by omega)]
  | succ row ih =>
      unfold copyRows at h
      obtain ⟨before, hbefore, hcopy⟩ := Option.bind_eq_some_iff.1 h
      rw [copySlice_getElem? hcopy]
      simp only [byte_in_row hx hb hcols]
      by_cases hthis : v = y + row ∧ x < cols
      · rw [if_pos hthis, if_pos (by omega)]
        obtain ⟨rfl, _⟩ := hthis
        congr 1
        rw [Nat.add_sub_cancel_left, Nat.add_mul, Nat.add_mul]
        omega
      · rw [if_neg hthis, ih hbefore]
        by_cases hold : y ≤ v ∧ v < y + row ∧ x < cols
        · rw [if_pos hold, if_pos (by omega)]
        · rw [if_neg hold, if_neg (by omega)]

/-! ## One update -/

theorem Passes.positive {tiles : Nat} {t : DecodedTile} (h : Passes tiles t) :
    0 < t.frame.height := by
  have hlen := h.2
  unfold rgbaLen at hlen
  split at hlen
  · cases hlen
  · omega

theorem Passes.pixels {tiles : Nat} {t : DecodedTile} (h : Passes tiles t) :
    t.frame.pixels.length = t.frame.width * t.frame.height * 4 := rgbaLen_ok h.2

structure Drawn (c : Compositor) (t : DecodedTile) (pixels : List UInt8) : Prop where
  length : pixels.length = c.frame.pixels.length
  bytes : ∀ x v b, x < c.frame.width → v < c.frame.height → b < 4 →
    pixels[(v * c.frame.width + x) * 4 + b]? =
      if v / t.frame.height = t.tile ∧ x < t.frame.width then
        t.frame.pixels[(v % t.frame.height * t.frame.width + x) * 4 + b]?
      else c.frame.pixels[(v * c.frame.width + x) * 4 + b]?

inductive Updated (c : Compositor) (t : DecodedTile) : Except MediaError Bool → Compositor → Prop
  | refused (e : MediaError) :
      ¬Passes c.tiles t ∨ (∃ slot, c.slotHeight = some slot ∧ t.frame.height ≠ slot) →
      Updated c t (.error e) c
  | outside : Passes c.tiles t → (∀ slot ∈ c.slotHeight, slot = t.frame.height) →
      c.frame.height ≤ t.tile * t.frame.height →
      Updated c t (.ok false) { c with slotHeight := some t.frame.height }
  | drawn (pixels : List UInt8) : Passes c.tiles t →
      (∀ slot ∈ c.slotHeight, slot = t.frame.height) →
      t.tile * t.frame.height < c.frame.height → Drawn c t pixels →
      Updated c t (.ok ((c.seen.set t.tile true).all id))
        { c with
          slotHeight := some t.frame.height
          frame := { c.frame with pixels }
          seen := c.seen.set t.tile true }

theorem row_in_band {slot height v : Nat} (tile : Nat) (hslot : 0 < slot) (hv : v < height) :
    tile * slot ≤ v ∧ v < tile * slot + min slot (height - tile * slot) ↔ v / slot = tile := by
  constructor
  · intro hin
    rw [Nat.div_eq_iff hslot]
    omega
  · rintro rfl
    have hfloor : v / slot * slot ≤ v := Nat.div_mul_le_self v slot
    have hrest : v < v / slot * slot + slot := by
      have hsplit := Nat.div_add_mod v slot
      have hmod := Nat.mod_lt v hslot
      rw [Nat.mul_comm] at hsplit
      omega
    omega

theorem drawn_of_copyRows {c : Compositor} {t : DecodedTile} {pixels : List UInt8}
    (hpasses : Passes c.tiles t)
    (hcopy : copyRows t.frame c.frame.width (t.tile * t.frame.height)
      (min t.frame.width c.frame.width) c.frame.pixels
      (min t.frame.height (c.frame.height - t.tile * t.frame.height)) = some pixels)
    (hlength : pixels.length = c.frame.pixels.length) : Drawn c t pixels := by
  refine ⟨hlength, fun x v b hx hv hb => ?_⟩
  rw [copyRows_getElem? (Nat.min_le_right _ _) hcopy hx hb]
  have hband := row_in_band t.tile hpasses.positive hv
  by_cases hin : v / t.frame.height = t.tile ∧ x < t.frame.width
  · have hrows := hband.2 hin.1
    rw [if_pos hin, if_pos ⟨hrows.1, hrows.2, by omega⟩, ← hin.1]
    congr 3
    rw [Nat.mod_eq_sub_div_mul]
  · rw [if_neg hin, if_neg]
    rintro ⟨hfirst, hlast, hcol⟩
    exact hin ⟨hband.1 ⟨hfirst, hlast⟩, by omega⟩

theorem update_spec {c : Compositor} (h : c.Valid) (t : DecodedTile) :
    ∃ result c', updateInPlace c t = some (result, c') ∧ Updated c t result c' := by
  unfold updateInPlace
  by_cases htile : c.tiles ≤ t.tile
  · rw [if_pos htile]
    exact ⟨_, _, rfl, .refused _ (Or.inl fun hpasses => Nat.not_le_of_lt hpasses.1 htile)⟩
  rw [if_neg htile]
  cases hlen : rgbaLen t.frame.width t.frame.height with
  | error e =>
      refine ⟨_, _, rfl, .refused _ (Or.inl fun hpasses => ?_)⟩
      rw [hpasses.2] at hlen
      cases hlen
  | ok length =>
      dsimp only
      by_cases hpixels : t.frame.pixels.length ≠ length
      · rw [if_pos hpixels]
        refine ⟨_, _, rfl, .refused _ (Or.inl fun hpasses => hpixels ?_)⟩
        rw [hpasses.2] at hlen
        exact Except.ok.inj hlen
      rw [if_neg hpixels]
      rw [not_not] at hpixels
      have hpasses : Passes c.tiles t := ⟨by omega, hlen.trans (by rw [hpixels])⟩
      by_cases hslot : t.frame.height ≠ c.slotHeight.getD t.frame.height
      · -- A slot height that was already there is put back as it was.
        rw [if_pos hslot]
        cases hheld : c.slotHeight with
        | none =>
            rw [hheld] at hslot
            exact absurd rfl hslot
        | some slot =>
            rw [hheld] at hslot
            have hsame : { c with slotHeight := some slot } = c := by rw [← hheld]
            refine ⟨_, _, rfl, ?_⟩
            dsimp only [Option.getD_some]
            rw [hsame]
            exact .refused _ (Or.inr ⟨slot, hheld, hslot⟩)
      rw [if_neg hslot]
      rw [not_not] at hslot
      have hheight : ∀ slot ∈ c.slotHeight, slot = t.frame.height := by
        intro slot hheld
        rw [hslot, Option.mem_def.1 hheld]
        rfl
      rw [← hslot]
      by_cases hy : c.frame.height ≤ t.tile * t.frame.height
      · rw [if_pos hy]
        exact ⟨_, _, rfl, .outside hpasses hheight hy⟩
      rw [if_neg hy]
      obtain ⟨pixels, hcopy, hlength⟩ :
          ∃ pixels, copyRows t.frame c.frame.width (t.tile * t.frame.height)
            (min t.frame.width c.frame.width) c.frame.pixels
            (min t.frame.height (c.frame.height - t.tile * t.frame.height)) = some pixels ∧
            pixels.length = c.frame.pixels.length := by
        apply copyRows_isSome h.pixels hpasses.pixels (Nat.min_le_right _ _)
          (Nat.min_le_left _ _) (Nat.min_le_left _ _)
        omega
      rw [hcopy]
      exact ⟨_, _, rfl, .drawn pixels hpasses hheight (by omega)
        (drawn_of_copyRows hpasses hcopy hlength)⟩

/-- The update of the compositor itself is the one that returns what it leaves, and a
failure leaves it as it was. -/
theorem updateInPlace_eq (c : Compositor) (t : DecodedTile) :
    updateInPlace c t =
      (c.update t).map fun
        | .error e => (.error e, c)
        | .ok (done, c') => (.ok done, c') := by
  unfold updateInPlace Compositor.update
  split
  · rfl
  cases rgbaLen t.frame.width t.frame.height with
  | error e => rfl
  | ok length =>
      dsimp only
      split
      · rfl
      split
      · rename_i hslot
        cases hheld : c.slotHeight with
        | none =>
            rw [hheld] at hslot
            exact absurd rfl hslot
        | some slot =>
            have hsame : { c with slotHeight := some slot } = c := by rw [← hheld]
            rw [Option.getD_some, hsame]
            rfl
      · split
        · rfl
        · rw [Option.map_map]
          rfl

/-! ## Sequences of updates -/

def slotOf (tiles : Nat) (given : List DecodedTile) : Option Nat :=
  (given.find? (Passes tiles)).map fun t => t.frame.height

/-- The tiles whose update succeeded. -/
def acceptedTiles (given : List DecodedTile) (results : List (Except MediaError Bool)) :
    List DecodedTile :=
  ((given.zip results).filter fun entry => entry.2.isOk).map Prod.fst

def shown (slot : Option Nat) (accepted : List DecodedTile) (x y : Nat) : List UInt8 :=
  match slot with
  | none => List.replicate 4 0
  | some slot =>
      match (accepted.filter fun t => t.tile = y / slot ∧ x < t.frame.width).getLast? with
      | none => List.replicate 4 0
      | some t => pixel t.frame x (y % slot)

theorem pixel_getElem? (f : RgbaFrame) (x y b : Nat) :
    (pixel f x y)[b]? = if b < 4 then f.pixels[(y * f.width + x) * 4 + b]? else none := by
  unfold pixel
  rw [List.getElem?_take, List.getElem?_drop]

/-- A pixel behind a band. -/
theorem Drawn.pixel {c : Compositor} {t : DecodedTile} {pixels : List UInt8}
    (h : Drawn c t pixels) {x y : Nat} (hx : x < c.frame.width) (hy : y < c.frame.height) :
    pixel { c.frame with pixels } x y =
      if t.tile = y / t.frame.height ∧ x < t.frame.width then
        CompositorBands.pixel t.frame x (y % t.frame.height)
      else CompositorBands.pixel c.frame x y := by
  apply List.ext_getElem?
  intro b
  rw [pixel_getElem?]
  by_cases hb : b < 4
  · rw [if_pos hb]
    dsimp only
    rw [h.bytes x y b hx hy hb]
    by_cases hin : y / t.frame.height = t.tile ∧ x < t.frame.width
    · rw [if_pos hin, if_pos ⟨hin.1.symm, hin.2⟩, pixel_getElem?, if_pos hb]
    · rw [if_neg hin, if_neg fun hband => hin ⟨hband.1.symm, hband.2⟩, pixel_getElem?, if_pos hb]
  · rw [if_neg hb]
    split
    · rw [pixel_getElem?, if_neg hb]
    · rw [pixel_getElem?, if_neg hb]

/-- What the compositor knows of the tiles it was given. -/
structure Shows (width height tiles : Nat) (given accepted : List DecodedTile) (c : Compositor) :
    Prop where
  valid : c.Valid
  canvasWidth : c.frame.width = width
  canvasHeight : c.frame.height = height
  tileCount : c.tiles = tiles
  slot : c.slotHeight = slotOf tiles given
  heights : ∀ t ∈ accepted, c.slotHeight = some t.frame.height
  taken : ∀ t ∈ given, Passes tiles t → slotOf tiles given = some t.frame.height → t ∈ accepted
  pixels : ∀ x < width, ∀ y < height, pixel c.frame x y = shown c.slotHeight accepted x y
  seen : ∀ i < tiles, c.seen[i]? = some (accepted.any fun t =>
    t.tile = i && t.tile * t.frame.height < height)

theorem slotOf_append (tiles : Nat) (given : List DecodedTile) (t : DecodedTile) :
    slotOf tiles (given ++ [t]) =
      (slotOf tiles given).or (if Passes tiles t then some t.frame.height else none) := by
  unfold slotOf
  rw [List.find?_append]
  by_cases hpasses : Passes tiles t
  · cases given.find? (Passes tiles) <;> simp [hpasses]
  · cases given.find? (Passes tiles) <;> simp [hpasses]

theorem slotOf_append_of_passes {tiles : Nat} {given : List DecodedTile} {t : DecodedTile}
    (ht : t ∈ given) (hpasses : Passes tiles t) (later : DecodedTile) :
    slotOf tiles (given ++ [later]) = slotOf tiles given := by
  rw [slotOf_append]
  cases hslot : slotOf tiles given with
  | some slot => rfl
  | none =>
      rw [slotOf, Option.map_eq_none_iff, List.find?_eq_none] at hslot
      exact absurd (by simpa using hpasses) (hslot t ht)

theorem shown_append {slot : Nat} {accepted : List DecodedTile} {t : DecodedTile} (x y : Nat) :
    shown (some slot) (accepted ++ [t]) x y =
      if t.tile = y / slot ∧ x < t.frame.width then pixel t.frame x (y % slot)
      else shown (some slot) accepted x y := by
  unfold shown
  dsimp only
  rw [List.filter_append]
  by_cases hover : t.tile = y / slot ∧ x < t.frame.width
  · rw [if_pos hover, List.filter_singleton, decide_eq_true hover, cond_true, List.getLast?_concat]
  · rw [if_neg hover, List.filter_singleton, decide_eq_false hover, cond_false, List.append_nil]

theorem shown_nil (slot : Option Nat) (x y : Nat) :
    shown slot [] x y = List.replicate 4 0 := by
  cases slot <;> rfl

variable {width height tiles : Nat} {given accepted : List DecodedTile} {c : Compositor}

/-- The slot height does not matter until a tile is accepted. -/
theorem Shows.pixels_at (h : Shows width height tiles given accepted c) {slot : Nat}
    (hslot : ∀ held ∈ c.slotHeight, held = slot) :
    ∀ x < width, ∀ y < height, pixel c.frame x y = shown (some slot) accepted x y := by
  intro x hx y hy
  rw [h.pixels x hx y hy]
  cases hheld : c.slotHeight with
  | some held => rw [hslot held hheld]
  | none =>
      have hnone : accepted = [] := by
        refine List.eq_nil_iff_forall_not_mem.2 fun t ht => ?_
        have hheight := h.heights t ht
        rw [hheld] at hheight
        cases hheight
      rw [hnone, shown_nil, shown_nil]

/-- A tile that is accepted has the slot's height, or gives it. -/
theorem Shows.slot_accepted (h : Shows width height tiles given accepted c) {t : DecodedTile}
    (hpasses : Passes c.tiles t) (hslot : ∀ slot ∈ c.slotHeight, slot = t.frame.height) :
    slotOf tiles (given ++ [t]) = some t.frame.height := by
  rw [slotOf_append, ← h.slot, if_pos (h.tileCount ▸ hpasses)]
  cases hheld : c.slotHeight with
  | none => rfl
  | some slot => rw [Option.some_or, hslot slot hheld]

theorem Shows.taken_append (h : Shows width height tiles given accepted c) (t : DecodedTile) :
    ∀ other ∈ given ++ [t], Passes tiles other →
      slotOf tiles (given ++ [t]) = some other.frame.height → other ∈ accepted ++ [t] := by
  intro other hother hpasses hheight
  rcases List.mem_append.1 hother with hold | hnew
  · rw [slotOf_append_of_passes hold hpasses] at hheight
    exact List.mem_append_left _ (h.taken other hold hpasses hheight)
  · exact List.mem_append_right _ hnew

theorem Shows.heights_append (h : Shows width height tiles given accepted c) {t : DecodedTile}
    (hslot : ∀ slot ∈ c.slotHeight, slot = t.frame.height) :
    ∀ other ∈ accepted ++ [t], some t.frame.height = some other.frame.height := by
  intro other hother
  rcases List.mem_append.1 hother with hold | hnew
  · have hheld := h.heights other hold
    rw [← hslot _ hheld]
  · rw [List.mem_singleton.1 hnew]

theorem Shows.update (h : Shows width height tiles given accepted c) {t : DecodedTile}
    {result : Except MediaError Bool} {c' : Compositor} (hupdate : Updated c t result c') :
    Shows width height tiles (given ++ [t]) (accepted ++ if result.isOk then [t] else []) c' := by
  cases hupdate with
  | refused e hwhy =>
      have hslot : slotOf tiles (given ++ [t]) = c.slotHeight := by
        rw [slotOf_append, ← h.slot]
        rcases hwhy with hfails | ⟨slot, hheld, _⟩
        · rw [if_neg (h.tileCount ▸ hfails), Option.or_none]
        · rw [hheld, Option.some_or]
      have hsame :
          (accepted ++ if (Except.error e : Except MediaError Bool).isOk then [t] else []) =
            accepted := List.append_nil accepted
      rw [hsame]
      refine ⟨h.valid, h.canvasWidth, h.canvasHeight, h.tileCount, hslot.symm, h.heights, ?_,
        h.pixels, h.seen⟩
      intro other hother hpasses hheight
      rcases List.mem_append.1 hother with hold | hnew
      · rw [slotOf_append_of_passes hold hpasses] at hheight
        exact h.taken other hold hpasses hheight
      · rw [List.mem_singleton.1 hnew] at hpasses hheight
        rcases hwhy with hfails | ⟨slot, hheld, hother⟩
        · exact absurd (h.tileCount ▸ hpasses) hfails
        · rw [hslot, hheld] at hheight
          exact absurd (Option.some.inj hheight).symm hother
  | outside hpasses hheight hy =>
      have hslot := h.slot_accepted hpasses hheight
      refine ⟨⟨h.valid.pixels, h.valid.seen⟩, h.canvasWidth, h.canvasHeight, h.tileCount,
        hslot.symm, h.heights_append hheight, h.taken_append t, ?_, ?_⟩
      · intro x hx y hy'
        rw [h.pixels_at hheight x hx y hy']
        change _ = shown (some t.frame.height) (accepted ++ [t]) x y
        rw [shown_append, if_neg]
        -- A band below the canvas is over none of its pixels.
        rintro ⟨htile, _⟩
        have hfloor := Nat.div_mul_le_self y t.frame.height
        rw [htile, h.canvasHeight] at hy
        omega
      · intro i hi
        dsimp only
        rw [h.seen i hi, List.any_append]
        have houtside : ¬t.tile * t.frame.height < height := by
          rw [← h.canvasHeight]
          omega
        simp [Except.isOk, Except.toBool, houtside]
  | drawn pixels hpasses hheight hy hdrawn =>
      have hslot := h.slot_accepted hpasses hheight
      refine ⟨⟨?_, ?_⟩, h.canvasWidth, h.canvasHeight, h.tileCount, hslot.symm,
        h.heights_append hheight, h.taken_append t, ?_, ?_⟩
      · exact hdrawn.length.trans h.valid.pixels
      · dsimp only
        rw [List.length_set]
        exact h.valid.seen
      · intro x hx y hy'
        change pixel { c.frame with pixels } x y = shown (some t.frame.height) (accepted ++ [t]) x y
        rw [hdrawn.pixel (h.canvasWidth.symm ▸ hx) (h.canvasHeight.symm ▸ hy'), shown_append,
          h.pixels_at hheight x hx y hy']
      · intro i hi
        dsimp only
        have hinside : t.tile * t.frame.height < height := by
          rw [← h.canvasHeight]
          exact hy
        have hlength : i < c.seen.length := by
          rw [h.valid.seen, h.tileCount]
          exact hi
        rw [List.getElem?_set, List.any_append, h.seen i hi]
        by_cases hthis : t.tile = i
        · rw [if_pos hthis, if_pos (hthis ▸ hlength)]
          simp [hthis, Except.isOk, Except.toBool, hthis ▸ hinside]
        · simp [hthis, Except.isOk, Except.toBool]

theorem shows_new (hnew : Compositor.new width height tiles = .ok c) :
    Shows width height tiles [] [] c := by
  have hvalid := valid_new hnew
  unfold Compositor.new allocateRgba at hnew
  split at hnew
  · cases hnew
  cases hlen : rgbaLen width height with
  | error e =>
      rw [hlen] at hnew
      cases hnew
  | ok length =>
      rw [hlen] at hnew
      cases hnew
      refine ⟨hvalid, rfl, rfl, rfl, rfl, nofun, nofun, ?_, ?_⟩
      · intro x hx y hy
        rw [shown_nil]
        unfold pixel
        dsimp only
        have hroom : (y * width + x) * 4 + 4 ≤ length := by
          rw [rgbaLen_ok hlen, Nat.mul_comm width height]
          have hrow : (y + 1) * width ≤ height * width := Nat.mul_le_mul_right width hy
          rw [Nat.add_mul, Nat.one_mul] at hrow
          omega
        rw [List.drop_replicate, List.take_replicate, Nat.min_eq_left (by omega)]
      · intro i hi
        rw [List.getElem?_replicate_of_lt hi]
        rfl

theorem acceptedTiles_cons (t : DecodedTile) (rest : List DecodedTile)
    (result : Except MediaError Bool) (results : List (Except MediaError Bool)) :
    acceptedTiles (t :: rest) (result :: results) =
      (if result.isOk then [t] else []) ++ acceptedTiles rest results := by
  unfold acceptedTiles
  rw [List.zip_cons_cons, List.filter_cons]
  split <;> simp

/-- Updates never leave the canvas. -/
theorem updates_shows (h : Shows width height tiles given accepted c) (ts : List DecodedTile) :
    ∃ results c', updates c ts = some (results, c') ∧ results.length = ts.length ∧
      Shows width height tiles (given ++ ts) (accepted ++ acceptedTiles ts results) c' := by
  induction ts generalizing given accepted c with
  | nil => exact ⟨[], c, rfl, rfl, by simpa [acceptedTiles] using h⟩
  | cons t rest ih =>
      obtain ⟨result, c₁, hupdate, hspec⟩ := update_spec h.valid t
      obtain ⟨results, c', hrest, hlength, hshows⟩ := ih (h.update hspec)
      refine ⟨result :: results, c', ?_, by simp [hlength], ?_⟩
      · unfold updates
        rw [hupdate, Option.bind_some]
        dsimp only
        rw [hrest]
        rfl
      · rw [acceptedTiles_cons, ← List.append_assoc]
        simpa using hshows

/-- After any updates of a new compositor every pixel is that of the latest accepted tile
over it, or zero; a valid tile of the slot's height is accepted, one that is refused changes
nothing, and no copy leaves its buffer. -/
theorem canvas_shows_latest {c₀ : Compositor}
    (hnew : Compositor.new width height tiles = .ok c₀) (ts : List DecodedTile) :
    ∃ results c, updates c₀ ts = some (results, c) ∧ results.length = ts.length ∧
      c.frame.width = width ∧ c.frame.height = height ∧
      c.frame.pixels.length = width * height * 4 ∧
      (∀ x < width, ∀ y < height,
        pixel c.frame x y = shown (slotOf tiles ts) (acceptedTiles ts results) x y) ∧
      (∀ t ∈ ts, Passes tiles t → slotOf tiles ts = some t.frame.height →
        t ∈ acceptedTiles ts results) ∧
      ∀ t, ∃ result c', updateInPlace c t = some (result, c') ∧ (result.isOk = false → c' = c) := by
  obtain ⟨results, c, hrun, hlength, hshows⟩ := updates_shows (shows_new hnew) ts
  rw [List.nil_append, List.nil_append] at hshows
  refine ⟨results, c, hrun, hlength, hshows.canvasWidth, hshows.canvasHeight, ?_, ?_,
    hshows.taken, fun t => ?_⟩
  · rw [hshows.valid.pixels, hshows.canvasWidth, hshows.canvasHeight]
  · rw [← hshows.slot]
    exact hshows.pixels
  · obtain ⟨result, c', hupdate, hspec⟩ := update_spec hshows.valid t
    refine ⟨result, c', hupdate, fun hfails => ?_⟩
    cases hspec with
    | refused => rfl
    | outside => cases hfails
    | drawn => cases hfails

def plainTile (tile width height : Nat) (value : UInt8) : DecodedTile :=
  { tile, frame := { width, height, pixels := List.replicate (width * height * 4) value } }

/-- Two bands with padding, and a tile of another height, on a canvas of two by three. -/
def paddedTiles : List DecodedTile :=
  [plainTile 1 3 2 7, plainTile 0 1 2 5, plainTile 0 2 1 9, plainTile 0 2 2 6]

theorem canvas_shows_latest_padded :
    ∃ c₀ results c, Compositor.new 2 3 2 = .ok c₀ ∧ updates c₀ paddedTiles = some (results, c) ∧
      results.length = 4 ∧ c.frame.width = 2 ∧ c.frame.height = 3 ∧
      c.frame.pixels.length = 2 * 3 * 4 ∧
      (∀ x < 2, ∀ y < 3, pixel c.frame x y =
        shown (slotOf 2 paddedTiles) (acceptedTiles paddedTiles results) x y) ∧
      (∀ t ∈ paddedTiles, Passes 2 t → slotOf 2 paddedTiles = some t.frame.height →
        t ∈ acceptedTiles paddedTiles results) ∧
      ∀ t, ∃ result c', updateInPlace c t = some (result, c') ∧
        (result.isOk = false → c' = c) := by
  obtain ⟨results, c, hspec⟩ := canvas_shows_latest
    (show Compositor.new 2 3 2 = .ok _ from rfl) paddedTiles
  exact ⟨_, results, c, rfl, hspec⟩

/-! ## Coverage -/

/-- The state of a visible tile's update, once every visible band has been given. -/
theorem Shows.covers_iff (h : Shows width height tiles given accepted c) {slot : Nat}
    (hslot : c.slotHeight = some slot)
    (hgiven : ∀ i < tiles, i * slot < height → ∃ t ∈ accepted, t.tile = i) (htiles : 0 < tiles) :
    c.seen.all id = true ↔ (tiles - 1) * slot < height := by
  have hheights : ∀ t ∈ accepted, t.frame.height = slot := by
    intro t ht
    have hheld := h.heights t ht
    rw [hslot] at hheld
    exact (Option.some.inj hheld).symm
  have hlength : c.seen.length = tiles := h.valid.seen.trans h.tileCount
  constructor
  · intro hall
    -- The last tile was drawn.
    have hlast := h.seen (tiles - 1) (by omega)
    have hmem := List.mem_of_getElem? hlast
    have htrue := List.all_eq_true.1 hall _ hmem
    obtain ⟨t, ht, hdrawn⟩ := List.any_eq_true.1 htrue
    rw [Bool.and_eq_true, decide_eq_true_eq, decide_eq_true_eq, hheights t ht] at hdrawn
    rw [← hdrawn.1]
    exact hdrawn.2
  · intro hcover
    rw [List.all_eq_true]
    intro flag hflag
    obtain ⟨i, hi, hget⟩ := List.getElem_of_mem hflag
    have htile : i < tiles := by omega
    have hvisible : i * slot < height := by
      have hle : i * slot ≤ (tiles - 1) * slot := Nat.mul_le_mul_right slot (by omega)
      omega
    obtain ⟨t, ht, hsame⟩ := hgiven i htile hvisible
    have hseen := h.seen i htile
    rw [List.getElem?_eq_getElem hi, hget, Option.some.injEq] at hseen
    rw [hseen, id_eq, List.any_eq_true]
    refine ⟨t, ht, ?_⟩
    rw [Bool.and_eq_true, decide_eq_true_eq, decide_eq_true_eq, hheights t ht, hsame]
    exact ⟨rfl, hvisible⟩

/-- Once every visible band was given, the next visible one completes the coverage exactly
when the last tile lies on the canvas too. -/
theorem coverage_completes_iff {c₀ : Compositor}
    (hnew : Compositor.new width height tiles = .ok c₀) {slot : Nat} {ts : List DecodedTile}
    (hheights : ∀ t ∈ ts, Passes tiles t → t.frame.height = slot)
    (hgiven : ∀ i < tiles, i * slot < height → ∃ t ∈ ts, Passes tiles t ∧ t.tile = i)
    {t : DecodedTile} (hpasses : Passes tiles t) (hheight : t.frame.height = slot)
    (hvisible : t.tile * slot < height) :
    ∃ results c done c', updates c₀ ts = some (results, c) ∧
      updateInPlace c t = some (.ok done, c') ∧
      (done = true ↔ (tiles - 1) * slot < height) := by
  obtain ⟨results, c, hrun, _, hshows⟩ := updates_shows (shows_new hnew) ts
  rw [List.nil_append, List.nil_append] at hshows
  obtain ⟨result, c', hupdate, hspec⟩ := update_spec hshows.valid t
  have hnext := hshows.update hspec
  -- Every tile that passes has the slot's height, so none of them is refused.
  have hslotOf : slotOf tiles (ts ++ [t]) = some slot := by
    unfold slotOf
    cases hfound : (ts ++ [t]).find? (Passes tiles) with
    | none =>
        rw [List.find?_eq_none] at hfound
        exact absurd (by simpa using hpasses) (hfound t (by simp))
    | some first =>
        have hfirst : Passes tiles first := by simpa using List.find?_some hfound
        rcases List.mem_append.1 (List.mem_of_find?_eq_some hfound) with hold | hnew
        · rw [Option.map_some, hheights first hold hfirst]
        · rw [Option.map_some, List.mem_singleton.1 hnew, hheight]
  have hcovered : ∀ i < tiles, i * slot < height →
      ∃ other ∈ acceptedTiles ts results ++ if result.isOk then [t] else [], other.tile = i := by
    intro i hi hband
    obtain ⟨other, hother, hother_passes, hsame⟩ := hgiven i hi hband
    refine ⟨other, hnext.taken other (List.mem_append_left _ hother) hother_passes ?_, hsame⟩
    rw [hslotOf, hheights other hother hother_passes]
  have hiff := hnext.covers_iff (hnext.slot.trans hslotOf) hcovered (by
    have := hpasses.1
    omega)
  cases hspec with
  | refused e hwhy =>
      exfalso
      rcases hwhy with hfails | ⟨held, hheld, hother⟩
      · exact hfails (hshows.tileCount.symm ▸ hpasses)
      · have hkept := hnext.slot.trans hslotOf
        rw [hheld] at hkept
        exact hother (hheight.trans (Option.some.inj hkept).symm)
  | outside _ _ hy =>
      rw [hheight, hshows.canvasHeight] at hy
      omega
  | drawn pixels _ _ _ _ => exact ⟨results, c, _, _, hrun, hupdate, hiff⟩

/-- A canvas of one by four with two tiles of height four. -/
def tallTiles : List DecodedTile := [plainTile 0 1 4 7]

/-- The second tile lies below the canvas, so the coverage never completes. -/
theorem coverage_never_completes :
    (∀ i < 2, i * 4 < 4 → ∃ t ∈ tallTiles, Passes 2 t ∧ t.tile = i) ∧
      ((Compositor.new 1 4 2).toOption.bind fun c =>
        (updates c (tallTiles ++ [plainTile 1 1 4 8, plainTile 0 1 4 9])).map Prod.fst) =
        some [.ok false, .ok false, .ok false] := by
  constructor
  · decide
  · rfl

theorem coverage_completes_iff_two :
    ∃ c₀ results c done c', Compositor.new 1 4 2 = .ok c₀ ∧
      updates c₀ [plainTile 1 1 2 7, plainTile 0 1 2 5] = some (results, c) ∧
      updateInPlace c (plainTile 1 1 2 8) = some (.ok done, c') ∧
      (done = true ↔ (2 - 1) * 2 < 4) := by
  obtain ⟨results, c, done, c', hspec⟩ := coverage_completes_iff
    (show Compositor.new 1 4 2 = .ok _ from rfl)
    (show ∀ t ∈ [plainTile 1 1 2 7, plainTile 0 1 2 5], Passes 2 t → t.frame.height = 2 by decide)
    (by decide) (t := plainTile 1 1 2 8) (by decide) rfl (by decide)
  exact ⟨_, results, c, done, c', rfl, hspec⟩

end MacVnc.Media.CompositorBands

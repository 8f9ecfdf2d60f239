import Mathlib.Data.List.Basic
/-!
# Composing the screen

The canvas onto which decoded bands are copied (`hp-media/src/compositor.rs` and
the frame sizes of `hp-media/src/lib.rs`).  A copy out of bounds is `none`.
Allocation succeeds.
-/

namespace MacVnc.Media.Compositing

structure RgbaFrame where
  width : Nat
  height : Nat
  pixels : List UInt8
deriving DecidableEq

structure DecodedTile where
  tile : Nat
  frame : RgbaFrame
deriving DecidableEq

inductive MediaError where
  | invalidFramebufferDimensions
  | exceedsPixelLimit
  | invalidDecodedTile
  | tileGeometryChanged
deriving DecidableEq, Repr

def maxFrameDimension : Nat := 16384

def maxFramePixels : Nat := 32 * 1024 * 1024

def rgbaLen (width height : Nat) : Except MediaError Nat :=
  if width = 0 ∨ height = 0 ∨ maxFrameDimension < width ∨ maxFrameDimension < height then
    .error .invalidFramebufferDimensions
  else if maxFramePixels < width * height then .error .exceedsPixelLimit
  else .ok (width * height * 4)

def allocateRgba (width height : Nat) : Except MediaError (List UInt8) :=
  (rgbaLen width height).map fun length => List.replicate length 0

structure Compositor where
  frame : RgbaFrame
  tiles : Nat
  slotHeight : Option Nat
  seen : List Bool
deriving DecidableEq

/-- Copy `len` bytes of `source` from `src` over those of `pixels` from `dst`. -/
def copySlice (pixels source : List UInt8) (dst src len : Nat) : Option (List UInt8) :=
  if dst + len ≤ pixels.length ∧ src + len ≤ source.length then
    some (pixels.take dst ++ (source.drop src).take len ++ pixels.drop (dst + len))
  else none

/-- The loop over the first rows of a band, from canvas row `y` on. -/
def copyRows (band : RgbaFrame) (width y cols : Nat) (pixels : List UInt8) :
    Nat → Option (List UInt8)
  | 0 => some pixels
  | row + 1 =>
      (copyRows band width y cols pixels row).bind fun pixels =>
        copySlice pixels band.pixels ((y + row) * width * 4) (row * band.width * 4) (cols * 4)

namespace Compositor

def new (width height tiles : Nat) : Except MediaError Compositor :=
  if tiles = 0 ∨ 16 < tiles then .error .invalidFramebufferDimensions
  else (allocateRgba width height).map fun pixels =>
    { frame := { width, height, pixels }
      tiles
      slotHeight := none
      seen := List.replicate tiles false }

/-- Copy a band; whether every band has been seen.  A refusal changes nothing. -/
def update (c : Compositor) (t : DecodedTile) : Option (Except MediaError (Bool × Compositor)) :=
  if c.tiles ≤ t.tile then some (.error .invalidDecodedTile)
  else match rgbaLen t.frame.width t.frame.height with
    | .error e => some (.error e)
    | .ok length =>
        if t.frame.pixels.length ≠ length then some (.error .invalidDecodedTile)
        else
        let slot := c.slotHeight.getD t.frame.height
        if t.frame.height ≠ slot then some (.error .tileGeometryChanged)
        else
        let c := { c with slotHeight := some slot }
        let y := t.tile * slot
        if c.frame.height ≤ y then some (.ok (false, c))
        else
        let rows := min slot (c.frame.height - y)
        let cols := min t.frame.width c.frame.width
        (copyRows t.frame c.frame.width y cols c.frame.pixels rows).map fun pixels =>
          let c := { c with frame := { c.frame with pixels }, seen := c.seen.set t.tile true }
          .ok (c.seen.all id, c)

def snapshot (c : Compositor) : RgbaFrame := c.frame

structure Valid (c : Compositor) : Prop where
  pixels : c.frame.pixels.length = c.frame.width * c.frame.height * 4
  seen : c.seen.length = c.tiles

end Compositor

theorem rgbaLen_eq_ok_iff {width height length : Nat} :
    rgbaLen width height = .ok length ↔
      (0 < width ∧ 0 < height) ∧ (width ≤ maxFrameDimension ∧ height ≤ maxFrameDimension) ∧
        width * height ≤ maxFramePixels ∧ length = width * height * 4 := by
  unfold rgbaLen
  by_cases hsides : width = 0 ∨ height = 0 ∨ maxFrameDimension < width ∨ maxFrameDimension < height
  · rw [if_pos hsides]
    refine ⟨nofun, ?_⟩
    omega
  rw [if_neg hsides]
  by_cases harea : maxFramePixels < width * height
  · rw [if_pos harea]
    refine ⟨nofun, ?_⟩
    omega
  rw [if_neg harea, Except.ok.injEq]
  constructor
  · intro hlength
    exact ⟨by omega, by omega, Nat.le_of_not_lt harea, hlength.symm⟩
  · intro h
    exact h.2.2.2.symm

theorem rgbaLen_ok {width height length : Nat} (h : rgbaLen width height = .ok length) :
    length = width * height * 4 :=
  (rgbaLen_eq_ok_iff.1 h).2.2.2

/-- What a compositor can be made for. -/
structure Renderable (width height tiles : Nat) : Prop where
  shown : 0 < width ∧ 0 < height
  sides : width ≤ maxFrameDimension ∧ height ≤ maxFrameDimension
  area : width * height ≤ maxFramePixels
  tiles : 1 ≤ tiles ∧ tiles ≤ 16

theorem new_ok_iff {width height tiles : Nat} :
    (∃ c, Compositor.new width height tiles = .ok c) ↔ Renderable width height tiles := by
  unfold Compositor.new allocateRgba
  by_cases htiles : tiles = 0 ∨ 16 < tiles
  · rw [if_pos htiles]
    constructor
    · rintro ⟨c, hc⟩
      cases hc
    · intro h
      have hfew := h.tiles
      omega
  rw [if_neg htiles]
  constructor
  · rintro ⟨c, hc⟩
    cases hlength : rgbaLen width height with
    | error e =>
        rw [hlength] at hc
        cases hc
    | ok length =>
        obtain ⟨hshown, hsides, harea, _⟩ := rgbaLen_eq_ok_iff.1 hlength
        exact ⟨hshown, hsides, harea, by omega⟩
  · intro h
    rw [rgbaLen_eq_ok_iff.2 ⟨h.shown, h.sides, h.area, rfl⟩]
    exact ⟨_, rfl⟩

theorem valid_new {width height tiles : Nat} {c : Compositor}
    (h : Compositor.new width height tiles = .ok c) : c.Valid := by
  unfold Compositor.new allocateRgba at h
  split at h
  · cases h
  cases hlen : rgbaLen width height with
  | error e =>
      rw [hlen] at h
      cases h
  | ok length =>
      rw [hlen] at h
      cases h
      constructor
      · show (List.replicate length (0 : UInt8)).length = _
        rw [List.length_replicate, rgbaLen_ok hlen]
      · exact List.length_replicate

theorem length_copySlice {pixels source result : List UInt8} {dst src len : Nat}
    (h : copySlice pixels source dst src len = some result) : result.length = pixels.length := by
  unfold copySlice at h
  split at h
  · rename_i hbounds
    cases h
    rw [List.length_append, List.length_append, List.length_take, List.length_take,
      List.length_drop, List.length_drop]
    omega
  · cases h

/-- The rows of a band that lie on the canvas are copied without leaving it. -/
theorem copyRows_isSome {band : RgbaFrame} {width height y cols rows : Nat}
    {pixels : List UInt8} (hcanvas : pixels.length = width * height * 4)
    (hband : band.pixels.length = band.width * band.height * 4) (hcols : cols ≤ width)
    (hcols' : cols ≤ band.width) (hrows : rows ≤ band.height) (hy : y + rows ≤ height) :
    ∃ result, copyRows band width y cols pixels rows = some result ∧
      result.length = pixels.length := by
  induction rows with
  | zero => exact ⟨pixels, rfl, rfl⟩
  | succ row ih =>
      obtain ⟨result, hresult, hlength⟩ := ih (by omega) (by omega)
      have hdst : (y + row) * width * 4 + cols * 4 ≤ result.length := by
        rw [hlength, hcanvas]
        have hlast : (y + row + 1) * width ≤ height * width := Nat.mul_le_mul_right width hy
        rw [Nat.add_mul, Nat.one_mul, Nat.mul_comm height width] at hlast
        omega
      have hsrc : row * band.width * 4 + cols * 4 ≤ band.pixels.length := by
        rw [hband]
        have hlast : (row + 1) * band.width ≤ band.height * band.width :=
          Nat.mul_le_mul_right band.width hrows
        rw [Nat.add_mul, Nat.one_mul, Nat.mul_comm band.height band.width] at hlast
        omega
      have hcopy : copySlice result band.pixels ((y + row) * width * 4) (row * band.width * 4)
          (cols * 4) = some _ := if_pos ⟨hdst, hsrc⟩
      refine ⟨_, ?_, (length_copySlice hcopy).trans hlength⟩
      unfold copyRows
      rw [hresult]
      exact hcopy

/-- An update never leaves the canvas, and keeps it whole. -/
theorem update_valid {c : Compositor} (h : c.Valid) (t : DecodedTile) :
    ∃ result, c.update t = some result ∧
      ∀ drawn c', result = .ok (drawn, c') → c'.Valid := by
  unfold Compositor.update
  split
  · exact ⟨_, rfl, fun _ _ h => (by cases h)⟩
  cases hlen : rgbaLen t.frame.width t.frame.height with
  | error e => exact ⟨_, rfl, fun _ _ h => (by cases h)⟩
  | ok length =>
      dsimp only
      split
      · exact ⟨_, rfl, fun _ _ h => (by cases h)⟩
      rename_i hpixels
      split
      · exact ⟨_, rfl, fun _ _ h => (by cases h)⟩
      rename_i hslot
      split
      · refine ⟨_, rfl, ?_⟩
        intro drawn c' hok
        cases hok
        exact ⟨h.pixels, h.seen⟩
      rename_i hy
      rw [not_not] at hpixels hslot
      rw [← hslot] at hy ⊢
      obtain ⟨pixels, hcopy, hlength⟩ :
          ∃ pixels, copyRows t.frame c.frame.width (t.tile * t.frame.height)
            (min t.frame.width c.frame.width) c.frame.pixels
            (min t.frame.height (c.frame.height - t.tile * t.frame.height)) = some pixels ∧
            pixels.length = c.frame.pixels.length := by
        apply copyRows_isSome h.pixels (hpixels.trans (rgbaLen_ok hlen)) (Nat.min_le_right _ _)
          (Nat.min_le_left _ _) (Nat.min_le_left _ _)
        omega
      rw [hcopy]
      refine ⟨_, rfl, ?_⟩
      intro drawn c' hok
      cases hok
      constructor
      · exact hlength.trans h.pixels
      · show (c.seen.set t.tile true).length = c.tiles
        rw [List.length_set, h.seen]

end MacVnc.Media.Compositing

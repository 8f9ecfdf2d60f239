import MacVnc.Protocol.Metadata
import MacVnc.Media.Compositing
/-!
# The canvas of a negotiated geometry

A session makes its compositor for the geometry that the answer of the Mac was read
as (`run_session`, `macvnc-app/src/backend.rs`).  The limits of the two are not the
same.
-/

namespace MacVnc.Client.CanvasGeometry

open MacVnc.Protocol.Metadata MacVnc.Media.Compositing

def sessionCompositor (config : StreamConfig) : Except MediaError Compositor :=
  Compositor.new config.width.toNat config.height.toNat config.tileCount.toNat

theorem sessionCompositor_config {g : Geometry} (h : g.Negotiable) :
    sessionCompositor g.config = Compositor.new g.width g.height g.tiles := by
  obtain ⟨hwidth, hheight, htiles⟩ := config_toNat h
  unfold sessionCompositor
  rw [hwidth, hheight, htiles]

/-- The compositor is made for what was negotiated, unless its own limits are the
lower ones. -/
theorem sessionCompositor_iff {g : Geometry} (hshown : g.Shown) (h : g.Negotiable) :
    (∃ c, sessionCompositor g.config = .ok c) ↔
      g.width * g.height ≤ maxFramePixels ∧ g.tiles ≤ 16 := by
  rw [sessionCompositor_config h, new_ok_iff]
  constructor
  · intro hcanvas
    exact ⟨hcanvas.area, hcanvas.tiles.2⟩
  · rintro ⟨harea, htiles⟩
    exact ⟨hshown, ⟨h.width, h.height⟩, harea, h.tiles.1, htiles⟩

theorem geometries_render_iff (decoder : Decoder) (body : List UInt8) :
    (∀ config, parseAnswer decoder body = .ok (some config) →
        ∃ c, sessionCompositor config = .ok c) ↔
      ∀ g, Announced decoder body g → g.width * g.height ≤ maxFramePixels ∧ g.tiles ≤ 16 := by
  constructor
  · intro h g hg
    obtain ⟨hshown, hlimits⟩ := announced_limits hg
    exact (sessionCompositor_iff hshown hlimits).1 (h g.config (parseAnswer_iff.2 ⟨g, hg, rfl⟩))
  · intro h config hconfig
    obtain ⟨g, hg, rfl⟩ := parseAnswer_iff.1 hconfig
    obtain ⟨hshown, hlimits⟩ := announced_limits hg
    exact (sessionCompositor_iff hshown hlimits).2 (h g hg)

/-- An answer with one picture of 8192 pixels square, in a stored zlib stream. -/
def squareStream : List UInt8 :=
  [120, 1, 1, 8, 0, 247, 255, 42, 6, 32, 128, 64, 40, 128, 64, 7, 122, 1, 249]

def squareDecoder : Decoder := fun stream limit =>
  if stream = squareStream then
    ([42, 6, 32, 128, 64, 40, 128, 64].take limit, true)
  else ([], false)

theorem square_not_rendered :
    parseAnswer squareDecoder (0 :: (plistAnchor ++ squareStream)) =
        .ok (some { width := 8192, height := 8192, tileCount := 1, ltrEnabled := false }) ∧
      sessionCompositor { width := 8192, height := 8192, tileCount := 1, ltrEnabled := false } =
        .error .exceedsPixelLimit := by
  decide +kernel

end MacVnc.Client.CanvasGeometry

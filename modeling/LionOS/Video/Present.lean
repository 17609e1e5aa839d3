import LionOS.Video.Init
import LionOS.Video.Wallpaper

/-! Rectangles of the desktop buffer are copied to the framebuffer. -/
namespace LionOS.Video
open LionOS.Library
open LionOS.Physical (Byte)
open LionOS.Processes (wrap)

/-- The bytes that a pixel is stored in. -/
def pixelWrites (bpp address : Nat) (packed : Pixel) : List (Nat × Byte) :=
  (List.range (packedBytes bpp)).map fun i => (wrap (address + i),(packed >>> (8 * i)).setWidth 8)

theorem writePackedPixel_eq (bpp : Nat) (memory : Nat → Byte) (address : Nat) (packed : Pixel) :
    writePackedPixel bpp memory address packed = writeAll memory (pixelWrites bpp address packed) := by
  rw [writeAll,pixelWrites,List.foldl_map]
  rfl

/-- The loops of `framebuffer_present_rect` over a rectangle in the screen. With 32 bits a pixel
`memcpy` writes the bytes of a row in the same order. -/
def presentWrites (d : Display) (x y width height : Nat) : List (Nat × Byte) :=
  (List.range height).flatMap fun row =>
    let dst := pixelAddress d x (wrap (y + row))
    let src := wrap (wrap (y + row) * d.width) + x
    (List.range width).flatMap fun col =>
      pixelWrites d.format.bpp (wrap (dst + wrap (col * bytesOf d.format.bpp))) (d.desktopBuffer (src + col))

def framebufferPresentRect (d : Display) (x y width height : Nat) : Display :=
  if !d.enabled ∨ !d.desktopMode ∨ !d.buffered ∨ width = 0 ∨ height = 0 then d
  else if x ≥ d.width ∨ y ≥ d.height then d
  else
    let width := if width > d.width - x then d.width - x else width
    let height := if height > d.height - y then d.height - y else height
    { d with memory := writeAll d.memory (presentWrites d x y width height) }

/-- No two pixels of the screen share a byte. -/
def Apart (d : Display) : Prop :=
  ∀ x < d.width, ∀ y < d.height, ∀ x' < d.width, ∀ y' < d.height, ∀ address,
    PixelBytes d x y address → PixelBytes d x' y' address → x = x' ∧ y = y'

/-- The byte of a pixel of the screen in the framebuffer. -/
def shownByte (d : Display) (px py i : Nat) : Byte := d.memory (wrap (pixelAddress d px py + i))

section Bytes
variable {d : Display}

theorem packedBytes_le (bpp : Nat) : packedBytes bpp ≤ 4 := by
  unfold packedBytes
  split
  · decide
  · split
    · decide
    · split
      · decide
      · decide

theorem pixel_address (d : Display) (x y col : Nat) :
    wrap (pixelAddress d x y + wrap (col * bytesOf d.format.bpp)) = pixelAddress d (x + col) y := by
  unfold pixelAddress wrap
  rw [Nat.add_mul]
  omega

/-- A byte belongs to one pixel, and there it is one byte. -/
theorem Apart.byte (apart : Apart d) {px py px' py' i i' : Nat} (column : px < d.width) (row : py < d.height)
    (column' : px' < d.width) (row' : py' < d.height) (byte : i < packedBytes d.format.bpp) (byte' : i' < packedBytes d.format.bpp)
    (same : wrap (pixelAddress d px py + i) = wrap (pixelAddress d px' py' + i')) : px = px' ∧ py = py' ∧ i = i' := by
  obtain ⟨rfl,rfl⟩ := apart px column py row px' column' py' row' _ ⟨i,byte,rfl⟩ ⟨i',byte',same⟩
  have few := packedBytes_le d.format.bpp
  unfold wrap at same
  exact ⟨rfl,rfl,by omega⟩

/-- In the rectangle the framebuffer shows the desktop buffer, and elsewhere what it showed. -/
theorem present_shows (desktop : DesktopMode d) (apart : Apart d) {r : Rect} (inside : Inside d (some r)) {px py i : Nat} (column : px < d.width)
    (row : py < d.height) (byte : i < packedBytes d.format.bpp) :
    shownByte (framebufferPresentRect d r.x r.y r.width r.height) px py i =
      if py * d.width + px ∈ Box d.width r.x r.width r.y r.height then (d.desktopBuffer (py * d.width + px) >>> (8 * i)).setWidth 8
      else shownByte d px py i := by
  obtain ⟨⟨some_w,columns⟩,some_h,rows⟩ := inside r rfl
  have less_w := desktop.width.2
  have less_h := desktop.height.2
  have on : ¬((!d.enabled) ∨ (!d.desktopMode) ∨ (!d.buffered) ∨ r.width = 0 ∨ r.height = 0) := by
    simp only [desktop.enabled,desktop.mode,desktop.buffered,Bool.not_true,Bool.false_eq_true,false_or,not_or]
    exact ⟨Nat.ne_of_gt some_w,Nat.ne_of_gt some_h⟩
  have on_screen : ¬(r.x ≥ d.width ∨ r.y ≥ d.height) := by omega
  have whole_w : ¬ r.width > d.width - r.x := by omega
  have whole_h : ¬ r.height > d.height - r.y := by omega
  have written : framebufferPresentRect d r.x r.y r.width r.height =
      { d with memory := writeAll d.memory (presentWrites d r.x r.y r.width r.height) } := by
    rw [framebufferPresentRect,if_neg on,if_neg on_screen]
    dsimp only
    rw [if_neg whole_w,if_neg whole_h]
  have mem {w : Nat × Byte} : w ∈ presentWrites d r.x r.y r.width r.height ↔ ∃ row < r.height, ∃ col < r.width,
      ∃ j < packedBytes d.format.bpp, w = (wrap (pixelAddress d (r.x + col) (r.y + row) + j),
        (d.desktopBuffer ((r.y + row) * d.width + (r.x + col)) >>> (8 * j)).setWidth 8) := by
    have place (row col : Nat) (below : row < r.height) :
        pixelWrites d.format.bpp (wrap (pixelAddress d r.x (wrap (r.y + row)) + wrap (col * bytesOf d.format.bpp)))
            (d.desktopBuffer (wrap (wrap (r.y + row) * d.width) + r.x + col)) =
          pixelWrites d.format.bpp (pixelAddress d (r.x + col) (r.y + row)) (d.desktopBuffer ((r.y + row) * d.width + (r.x + col))) := by
      have in_row : wrap (r.y + row) = r.y + row := wrap_of_small (by omega)
      rw [pixel_address,in_row,line_small (by omega) less_w,Nat.add_assoc]
    simp only [presentWrites,List.mem_flatMap,List.mem_range]
    refine exists_congr fun row => and_congr_right fun below => exists_congr fun col => and_congr_right fun _ => ?_
    rw [place row col below]
    simp only [pixelWrites,List.mem_map,List.mem_range,eq_comm]
  rw [shownByte,written]
  change writeAll d.memory _ (wrap (pixelAddress d px py + i)) = _
  split
  next member =>
    obtain ⟨in_columns,in_rows⟩ := member
    rw [place_mod column] at in_columns
    rw [place_div column] at in_rows
    have here : (wrap (pixelAddress d px py + i),(d.desktopBuffer (py * d.width + px) >>> (8 * i)).setWidth 8) ∈
        presentWrites d r.x r.y r.width r.height := by
      refine mem.mpr ⟨py - r.y,by omega,px - r.x,by omega,i,byte,?_⟩
      rw [Nat.add_sub_cancel' in_columns.1,Nat.add_sub_cancel' in_rows.1]
    refine writeAll_agrees (fun w member same => ?_) ⟨_,here⟩ d.memory
    obtain ⟨row',below,col,within,j,byte',rfl⟩ := mem.mp member
    obtain ⟨rfl,rfl,rfl⟩ := apart.byte (by omega) (by omega) column row byte' byte same
    rfl
  next outside =>
    refine writeAll_outside ?_ d.memory
    rintro ⟨value,member⟩
    obtain ⟨row',below,col,within,j,byte',same⟩ := mem.mp member
    obtain ⟨rfl,rfl,_⟩ := apart.byte column row (by omega) (by omega) byte byte' (Prod.mk.inj same).1
    refine outside ⟨?_,?_⟩
    · rw [place_mod column]
      omega
    · rw [place_div column]
      omega

end Bytes

end LionOS.Video

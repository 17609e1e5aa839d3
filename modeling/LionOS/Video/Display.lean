import LionOS.Processes.State
import LionOS.Library.Raster

/-! The framebuffer and the desktop buffer of `framebuffer.c`: the pixel formats, the clip
rectangle and the filling of a rectangle. -/
namespace LionOS.Video
open LionOS.Library
open LionOS.Physical (Byte)
open LionOS.Processes (wrap)

abbrev Pixel := BitVec 32

/-- Where the framebuffer holds the three colours in a pixel. -/
structure PixelFormat where
  bpp : Nat
  redPos : Nat
  redSize : Nat
  greenPos : Nat
  greenSize : Nat
  bluePos : Nat
  blueSize : Nat
  deriving DecidableEq

/-- `fmt888` -/
def PixelFormat.fmt888 (f : PixelFormat) : Bool :=
  decide (f.bpp = 32 ∧ f.redSize = 8 ∧ f.greenSize = 8 ∧ f.blueSize = 8 ∧ f.redPos = 16 ∧ f.greenPos = 8 ∧ f.bluePos = 0)

/-- `1u << size`, as the processor takes the number of a shift. -/
def oneShifted (size : Nat) : Nat := 2 ^ (size % 32)

/-- `(1u << size) - 1u` -/
def mask (size : Nat) : Nat := oneShifted size - 1

def channel (value size position : Nat) : Pixel :=
  if size = 0 then 0
  else
    let scaled := wrap (wrap (value * mask size) + 127) / 255
    BitVec.ofNat 32 scaled <<< (position % 32)

def packRgb (f : PixelFormat) (rgb : Pixel) : Pixel :=
  if f.fmt888 then rgb &&& 0x00FFFFFF
  else
    let r := (rgb >>> 16).toNat % 256
    let g := (rgb >>> 8).toNat % 256
    let b := rgb.toNat % 256
    channel r f.redSize f.redPos ||| channel g f.greenSize f.greenPos ||| channel b f.blueSize f.bluePos

structure Rect where
  x : Nat
  y : Nat
  width : Nat
  height : Nat
  deriving DecidableEq

/-- The statics of the driver. The desktop buffer is what its pointer leads to, and `buffered`
says that there is one; without a clip rectangle clipping is disabled. -/
structure Display where
  enabled : Bool
  fb : Nat
  pitch : Nat
  width : Nat
  height : Nat
  format : PixelFormat
  desktopMode : Bool
  buffered : Bool
  desktopBuffer : Nat → Pixel
  clip : Option Rect
  memory : Nat → Byte

def bytesOf (bpp : Nat) : Nat := (bpp + 7) / 8

/-- The bytes that `write_packed_pixel` stores. -/
def packedBytes (bpp : Nat) : Nat := if bpp = 32 then 4 else if bpp = 24 then 3 else if bpp = 16 then 2 else 0

def writePackedPixel (bpp : Nat) (memory : Nat → Byte) (dst : Nat) (packed : Pixel) : Nat → Byte :=
  (List.range (packedBytes bpp)).foldl (fun m i => Function.update m (wrap (dst + i)) ((packed >>> (8 * i)).setWidth 8)) memory

/-- `fb + y * fb_pitch + x * bytes` -/
def pixelAddress (d : Display) (x y : Nat) : Nat := wrap (wrap (d.fb + wrap (y * d.pitch)) + wrap (x * bytesOf d.format.bpp))

def putPixel (d : Display) (x y : Nat) (color : Pixel) : Display :=
  if !d.enabled ∨ x ≥ d.width ∨ y ≥ d.height then d
  else { d with memory := writePackedPixel d.format.bpp d.memory (pixelAddress d x y) (packRgb d.format color) }

/-- `framebuffer_begin_desktop`, `block` what `kmalloc` would return. -/
def framebufferBeginDesktop (d : Display) (block : Option (Nat → Pixel)) : Int × Display :=
  if !d.enabled then (-1,d)
  else if d.desktopMode then (0,d)
  else if d.buffered then (0,{ d with desktopMode := true })
  else if d.width * d.height > 0xFFFFFFFF / 4 then (-1,d)
  else
    match block with
    | none => (-1,d)
    | some words => (0,{ d with buffered := true,desktopBuffer := words,desktopMode := true })

/-- A screen with a desktop buffer has no more pixels than the buffer can have. -/
def Display.Sized (d : Display) : Prop := d.desktopMode ∨ d.buffered → d.width * d.height ≤ 0xFFFFFFFF / 4

theorem Display.Sized.beginDesktop {d : Display} (sized : d.Sized) (block : Option (Nat → Pixel)) :
    (framebufferBeginDesktop d block).2.Sized := by
  unfold framebufferBeginDesktop
  split
  · exact sized
  split
  · exact sized
  split
  next buffered => exact fun _ => sized (.inr buffered)
  split
  · exact sized
  next few =>
    cases block with
    | none => exact sized
    | some words => exact fun _ => Nat.le_of_not_lt few

def framebufferSetClip (d : Display) (x y width height : Nat) : Display :=
  if width = 0 ∨ height = 0 ∨ x ≥ d.width ∨ y ≥ d.height then { d with clip := none }
  else
    let width := if width > d.width - x then d.width - x else width
    let height := if height > d.height - y then d.height - y else height
    { d with clip := some ⟨x,y,width,height⟩ }

def framebufferClearClip (d : Display) : Display := { d with clip := none }

/-- The sides of the clip rectangle, if there is one. -/
def columnClip (d : Display) : Option (Nat × Nat) := d.clip.map fun c => (c.x,c.width)

def rowClip (d : Display) : Option (Nat × Nat) := d.clip.map fun c => (c.y,c.height)

/-- One direction of `framebuffer_apply_clip`: the start and the size of what is left of a side
within a side of the clip rectangle, or none where the function returns. -/
def clipStart (x width clipX : Nat) : Option (Nat × Nat) :=
  if x < clipX then
    let delta := clipX - x
    if delta ≥ width then none else some (clipX,width - delta)
  else some (x,width)

def clipEnd (x width clipX clipW : Nat) : Nat :=
  let right := wrap (x + width)
  let clipRight := wrap (clipX + clipW)
  if right > clipRight then if clipRight > x then clipRight - x else 0 else width

def framebufferApplyClip (clip : Option Rect) (r : Rect) : Rect :=
  match clip with
  | none => r
  | some c =>
    match clipStart r.x r.width c.x with
    | none => { r with width := 0 }
    | some (x,width) =>
      match clipStart r.y r.height c.y with
      | none => { r with x := x,width := width,height := 0 }
      | some (y,height) => ⟨x,y,clipEnd x width c.x c.width,clipEnd y height c.y c.height⟩

/-- The body of `framebuffer_fill_rect` once the rectangle is clipped: a row after the other, in
the desktop buffer or in the framebuffer. -/
def fillRows (d : Display) (r : Rect) (packed : Pixel) : Option Display :=
  if d.desktopMode then
    (forRange r.y (wrap (r.y + r.height)) (fun yy buffer =>
      let line := wrap (yy * d.width) + r.x
      forRange 0 r.width (fun xx buffer => some (Function.update buffer (line + xx) packed)) buffer) d.desktopBuffer).map
        fun buffer => { d with desktopBuffer := buffer }
  else
    (forRange r.y (wrap (r.y + r.height)) (fun yy memory =>
      let line := pixelAddress d r.x yy
      forRange 0 r.width (fun xx memory =>
        some (writePackedPixel d.format.bpp memory (wrap (line + wrap (xx * bytesOf d.format.bpp))) packed)) memory) d.memory).map
        fun memory => { d with memory := memory }

def framebufferFillRect (d : Display) (x y width height : Nat) (color : Pixel) : Option Display :=
  if !d.enabled then some d
  else if x ≥ d.width ∨ y ≥ d.height ∨ width = 0 ∨ height = 0 then some d
  else
    let width := if width > d.width - x then d.width - x else width
    let height := if height > d.height - y then d.height - y else height
    let r := framebufferApplyClip d.clip ⟨x,y,width,height⟩
    if r.width = 0 ∨ r.height = 0 then some d else fillRows d r (packRgb d.format color)

end LionOS.Video

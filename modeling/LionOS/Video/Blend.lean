import LionOS.Video.Display

/-! The shapes that are blended into the desktop buffer: rectangles, rounded rectangles and
circles. -/
namespace LionOS.Video
open LionOS.Library
open LionOS.Processes (wrap toU32 toI32)

/-- A channel of `desktop_unpack_rgb`, of a mask that may be 0. -/
def unpackChannel (size position : Nat) (packed : Pixel) : Nat :=
  let mask := if size = 0 then 0 else mask size
  let value := if size = 0 then 0 else (packed >>> (position % 32)).toNat &&& mask
  if mask = 0 then value else wrap (wrap (value * 255) + mask / 2) / mask

def desktopUnpackRgb (f : PixelFormat) (packed : Pixel) : Pixel :=
  BitVec.ofNat 32 (unpackChannel f.redSize f.redPos packed <<< 16 ||| unpackChannel f.greenSize f.greenPos packed <<< 8 |||
    unpackChannel f.blueSize f.bluePos packed)

def desktopBlendRgb (dst src : Pixel) (alpha : Nat) : Pixel :=
  if alpha ≥ 255 then src &&& 0x00FFFFFF
  else if alpha = 0 then dst &&& 0x00FFFFFF
  else
    let dr := (dst >>> 16).toNat % 256
    let dg := (dst >>> 8).toNat % 256
    let db := dst.toNat % 256
    let sr := (src >>> 16).toNat % 256
    let sg := (src >>> 8).toNat % 256
    let sb := src.toNat % 256
    let r := (sr * alpha + dr * (255 - alpha)) / 255
    let g := (sg * alpha + dg * (255 - alpha)) / 255
    let b := (sb * alpha + db * (255 - alpha)) / 255
    BitVec.ofNat 32 (r <<< 16 ||| g <<< 8 ||| b)

def blend888 (dst src a : Pixel) : Pixel :=
  let rb := (((src &&& 0x00FF00FF) * a + (dst &&& 0x00FF00FF) * (256 - a)) >>> 8) &&& 0x00FF00FF
  let g := (((src &&& 0x0000FF00) * a + (dst &&& 0x0000FF00) * (256 - a)) >>> 8) &&& 0x0000FF00
  rb ||| g

/-- What `blend_span` makes of a pixel. -/
def blendPixel (f : PixelFormat) (color : Pixel) (alpha : Nat) (p : Pixel) : Pixel :=
  if f.fmt888 then
    let a := BitVec.ofNat 32 (alpha + alpha / 2^7)
    let s := color &&& 0x00FFFFFF
    blend888 p s a
  else packRgb f (desktopBlendRgb (desktopUnpackRgb f p) color alpha)

def blendSpan (f : PixelFormat) (p n : Nat) (color : Pixel) (alpha : Nat) : (Nat → Pixel) → Option (Nat → Pixel) :=
  forRange 0 n fun i buffer => some (Function.update buffer (p + i) (blendPixel f color alpha (buffer (p + i))))

/-- The loop of `isqrt_u32`, which stops at some of the 2^32 values of `r` or runs for ever. -/
def isqrtFrom (v : Nat) : Nat → Nat → Option Nat
  | 0, _ => none
  | turns + 1, r => if wrap (wrap (r + 1) * wrap (r + 1)) ≤ v then isqrtFrom v turns (wrap (r + 1)) else some r

def isqrtU32 (v : Nat) : Option Nat := isqrtFrom v (2^32) 0

theorem isqrtFrom_some {v turns r : Nat} (small : v ≤ 2^30) (below : r ≤ 2^15) (enough : 2^15 < turns + r) :
    ∃ root,isqrtFrom v turns r = some root := by
  induction turns generalizing r with
  | zero => omega
  | succ turns ih =>
    have next : wrap (r + 1) = r + 1 := Nat.mod_eq_of_lt (by omega)
    have square : (r + 1) * (r + 1) ≤ (2^15 + 1) * (2^15 + 1) := Nat.mul_le_mul (by omega) (by omega)
    rw [isqrtFrom,next,show wrap ((r + 1) * (r + 1)) = (r + 1) * (r + 1) from Nat.mod_eq_of_lt (by omega)]
    by_cases more : (r + 1) * (r + 1) ≤ v
    · have low : r + 1 ≤ 2^15 := by
        by_contra high
        have last : (2^15 + 1) * (2^15 + 1) ≤ (r + 1) * (r + 1) := Nat.mul_le_mul (by omega) (by omega)
        omega
      rw [if_pos more]
      exact ih low (by omega)
    · exact ⟨r,if_neg more⟩

/-- `isqrt_u32` returns for the squares of the shapes. -/
theorem isqrtU32_some {v : Nat} (small : v ≤ 2^30) : ∃ root,isqrtU32 v = some root :=
  isqrtFrom_some small (by omega) (by omega)

/-- The start and the end of a side that the clip rectangle leaves. -/
def clippedSide (clip : Option (Nat × Nat)) (x₀ x₁ : Nat) : Nat × Nat :=
  match clip with
  | none => (x₀,x₁)
  | some (clipX,clipW) =>
    let right := wrap (clipX + clipW)
    (if x₀ < clipX then clipX else x₀,if x₁ > right then right else x₁)

def onBuffer (d : Display) (op : (Nat → Pixel) → Option (Nat → Pixel)) : Option Display :=
  (op d.desktopBuffer).map fun buffer => { d with desktopBuffer := buffer }

def framebufferBlendRect (d : Display) (x y width height : Nat) (color : Pixel) (alpha : Nat) : Option Display :=
  if !d.enabled ∨ !d.desktopMode ∨ !d.buffered ∨ width = 0 ∨ height = 0 ∨ alpha = 0 then some d
  else if x ≥ d.width ∨ y ≥ d.height then some d
  else
    let width := if width > d.width - x then d.width - x else width
    let height := if height > d.height - y then d.height - y else height
    let (x₀,x₁) := clippedSide (columnClip d) x (wrap (x + width))
    let (y₀,y₁) := clippedSide (rowClip d) y (wrap (y + height))
    if x₁ ≤ x₀ ∨ y₁ ≤ y₀ then some d
    else onBuffer d (forRange y₀ y₁ fun yy => blendSpan d.format (wrap (yy * d.width) + x₀) (x₁ - x₀) color alpha)

/-- How far a row lies in the part of a corner, 0 for the rows between the corners. -/
def cornerRow (r top bottom py : Int) : Int := if py < top + r then top + r - py else if py > bottom - r then py - (bottom - r) else 0

/-- The start and the end of a row of a rounded rectangle. -/
def roundRow (left right top bottom r : Int) (yy : Nat) : Option (Nat × Nat) :=
  let py := toI32 yy
  let dy := cornerRow r top bottom py
  (if dy > 0 then (isqrtU32 (toU32 (r * r - dy * dy))).map fun root => r - toI32 root else some 0).map fun inset =>
    (toU32 (left + inset),wrap (toU32 (right - inset) + 1))

def framebufferBlendRoundRect (d : Display) (x y width height radius : Nat) (color : Pixel) (alpha : Nat) : Option Display :=
  if !d.enabled ∨ !d.desktopMode ∨ !d.buffered ∨ width = 0 ∨ height = 0 ∨ alpha = 0 then some d
  else if x ≥ d.width ∨ y ≥ d.height then some d
  else
    let width := if width > d.width - x then d.width - x else width
    let height := if height > d.height - y then d.height - y else height
    let radius := if wrap (radius * 2) > width then width / 2 else radius
    let radius := if wrap (radius * 2) > height then height / 2 else radius
    let (x₀,x₁) := clippedSide (columnClip d) x (wrap (x + width))
    let (y₀,y₁) := clippedSide (rowClip d) y (wrap (y + height))
    if x₁ ≤ x₀ ∨ y₁ ≤ y₀ then some d
    else
      let r := toI32 radius
      let left := toI32 x
      let top := toI32 y
      let right := toI32 (x + width - 1)
      let bottom := toI32 (y + height - 1)
      onBuffer d (forRange y₀ y₁ fun yy buffer =>
        (roundRow left right top bottom r yy).bind fun (sx,ex) =>
          let sx := if sx < x₀ then x₀ else sx
          let ex := if ex > x₁ then x₁ else ex
          if ex > sx then blendSpan d.format (wrap (yy * d.width) + sx) (ex - sx) color alpha buffer else some buffer)

/-- The turn of `framebuffer_blend_circle` for row `yy`, between the columns `cl` and `cr`. -/
def circleRow (d : Display) (cx cy : Nat) (r cl cr : Int) (color : Pixel) (alpha : Nat) (yy : Int) (buffer : Nat → Pixel) :
    Option (Nat → Pixel) :=
  let dy := yy - toI32 cy
  let d2 := r * r - dy * dy
  if d2 < 0 then some buffer
  else
    (isqrtU32 (toU32 d2)).bind fun root =>
      let half := toI32 root
      let sx := toI32 cx - half
      let ex := toI32 cx + half + 1
      let sx := if sx < cl then cl else sx
      let ex := if ex > cr then cr else ex
      if ex > sx then blendSpan d.format (wrap (toU32 yy * d.width) + toU32 sx) (toU32 (ex - sx)) color alpha buffer else some buffer

/-- The signed ends of a side that `framebuffer_blend_circle` draws in. -/
def circleClip (clip : Option (Nat × Nat)) (size : Nat) : Int × Int :=
  match clip with
  | none => (0,toI32 size)
  | some (clipX,clipW) => (toI32 clipX,toI32 (wrap (clipX + clipW)))

def framebufferBlendCircle (d : Display) (cx cy radius : Nat) (color : Pixel) (alpha : Nat) : Option Display :=
  if !d.enabled ∨ !d.desktopMode ∨ !d.buffered ∨ radius = 0 ∨ alpha = 0 then some d
  else
    let r := toI32 radius
    let y₀ := toI32 cy - r
    let y₁ := toI32 cy + r + 1
    let (cl,cr) := circleClip (columnClip d) d.width
    let (ct,cb) := circleClip (rowClip d) d.height
    let y₀ := if y₀ < ct then ct else y₀
    let y₁ := if y₁ > cb then cb else y₁
    onBuffer d (forEach ((List.range (y₁ - y₀).toNat).map fun i : Nat => y₀ + i) (circleRow d cx cy r cl cr color alpha))

end LionOS.Video

import LionOS.Video.Display

/-! `framebuffer_blit_rgba32`: a bitmap with an alpha channel, scaled to a square and blended
into the desktop buffer. -/
namespace LionOS.Video
open LionOS.Library
open LionOS.Processes (wrap toU32 toI32)

/-- The processor divides by no zero. -/
def divide (a b : Nat) : Option Nat := if b = 0 then none else some (a / b)

/-- Two neighbouring rows or columns of the bitmap, and the weight of the second in 1/256. -/
structure Sample where
  first : Nat
  second : Nat
  weight : Nat
  deriving DecidableEq

/-- The sample for a row or column `d` of the square, `extent` the height or width of the bitmap. -/
def sample (d extent size : Nat) : Option Sample :=
  (divide (wrap (wrap (wrap (2 * d + 1) * extent) * 128)) size).map fun quotient =>
    let fp := toI32 quotient - 128
    let fp := if fp < 0 then 0 else fp
    let last := wrap ((extent - 1) * 256)
    let fp := if toU32 fp > last then last else toU32 fp
    let first := fp / 256
    ⟨first,if wrap (first + 1) < extent then wrap (first + 1) else first,fp % 256⟩

/-- What is at the four pixels of the bitmap around a place. -/
structure Corners (α : Type) where
  p00 : α
  p10 : α
  p01 : α
  p11 : α
  deriving DecidableEq

def Corners.map {α β : Type} (c : Corners α) (f : α → β) : Corners β := ⟨f c.p00,f c.p10,f c.p01,f c.p11⟩

def corners (pixels : Nat → Pixel) (width : Nat) (sy sx : Sample) : Corners Pixel where
  p00 := pixels (wrap (wrap (sy.first * width) + sx.first))
  p10 := pixels (wrap (wrap (sy.first * width) + sx.second))
  p01 := pixels (wrap (wrap (sy.second * width) + sx.first))
  p11 := pixels (wrap (wrap (sy.second * width) + sx.second))

def weighted (a b weight : Nat) : Nat := (a * (256 - weight) + b * weight + 128) / 256

/-- The mean of four values, by columns and then by rows. -/
def bilinear (c : Corners Nat) (fy fx : Nat) : Nat := weighted (weighted c.p00 c.p10 fx) (weighted c.p01 c.p11 fx) fy

def alphaOf (p : Pixel) : Nat := (p >>> 24).toNat

/-- The eight bits of a pixel from `shift` on, times its alpha. -/
def premultiplied (shift : Nat) (p : Pixel) : Nat := (p >>> shift).toNat % 256 * alphaOf p

/-- `dr`, `dg` or `db`: a colour of a stored pixel, scaled to 255. -/
def storedChannel (size position : Nat) (dst : Pixel) : Option Nat :=
  divide (wrap (((dst >>> (position % 32)).toNat &&& mask size) * 255)) (mask size)

/-- The mixture of a channel of the bitmap with a stored one. -/
def mixed (s alpha d : Nat) : Nat := (s * alpha + d * (255 - alpha)) / 255

/-- The values that are put together for `pack_rgb`. -/
structure Channels where
  r : Nat
  g : Nat
  b : Nat
  deriving DecidableEq

def Channels.rgb (c : Channels) : Pixel := BitVec.ofNat 32 (c.r <<< 16 ||| c.g <<< 8 ||| c.b)

/-- The channels for one pixel over the stored `dst`; the inner option is empty where the
loop goes on with the next pixel. -/
def blitChannels (f : PixelFormat) (c : Corners Pixel) (fy fx : Nat) (dst : Pixel) : Option (Option Channels) :=
  let alpha := bilinear (c.map alphaOf) fy fx
  if alpha = 0 then some none
  else do
    let sr ← divide (bilinear (c.map (premultiplied 16)) fy fx) alpha
    let sg ← divide (bilinear (c.map (premultiplied 8)) fy fx) alpha
    let sb ← divide (bilinear (c.map (premultiplied 0)) fy fx) alpha
    if alpha ≥ 255 then some (some ⟨sr,sg,sb⟩)
    else do
      let dr ← storedChannel f.redSize f.redPos dst
      let dg ← storedChannel f.greenSize f.greenPos dst
      let db ← storedChannel f.blueSize f.bluePos dst
      some (some ⟨mixed sr alpha dr,mixed sg alpha dg,mixed sb alpha db⟩)

/-- What a turn of the inner loop leaves of the stored pixel. -/
def blitPixel (f : PixelFormat) (pixels : Nat → Pixel) (width : Nat) (sy sx : Sample) (dst : Pixel) : Option Pixel :=
  (blitChannels f (corners pixels width sy sx) sy.weight sx.weight dst).map fun mixture =>
    match mixture with
    | none => dst
    | some channels => packRgb f channels.rgb

/-- The first row or column of the square that is drawn and the one after the last, `x` the
place of the square. -/
def blitStart (clip : Option (Nat × Nat)) (x : Nat) : Nat :=
  match clip with
  | none => 0
  | some (clipX,_) => if x < clipX then clipX - x else 0

def blitEnd (clip : Option (Nat × Nat)) (x size : Nat) : Nat :=
  match clip with
  | none => size
  | some (clipX,clipW) =>
    let clipRight := wrap (clipX + clipW)
    if wrap (x + size) > clipRight then if clipRight > x then clipRight - x else 0 else size

def framebufferBlitRgba32 (d : Display) (pixels : Nat → Pixel) (width height x y size : Nat) : Option Display :=
  if !d.enabled ∨ !d.desktopMode ∨ !d.buffered ∨ width = 0 ∨ height = 0 ∨ size = 0 then some d
  else
    let startX := blitStart (columnClip d) x
    let startY := blitStart (rowClip d) y
    let endX := blitEnd (columnClip d) x size
    let endY := blitEnd (rowClip d) y size
    if wrap (x + startX) ≥ d.width ∨ wrap (y + startY) ≥ d.height ∨ endX ≤ startX ∨ endY ≤ startY then some d
    else
      let endX := if endX > wrap (d.width + 2^32 - x) then wrap (d.width + 2^32 - x) else endX
      let endY := if endY > wrap (d.height + 2^32 - y) then wrap (d.height + 2^32 - y) else endY
      (forRange startY endY (fun dy buffer =>
        (sample dy height size).bind fun sy =>
          forRange startX endX (fun dx buffer =>
            (sample dx width size).bind fun sx =>
              let place := wrap (wrap (wrap (y + dy) * d.width) + wrap (x + dx))
              (blitPixel d.format pixels width sy sx (buffer place)).map (Function.update buffer place)) buffer) d.desktopBuffer).map
        fun buffer => { d with desktopBuffer := buffer }

section Division

theorem divide_some (a : Nat) {b : Nat} (some_ : b ≠ 0) : divide a b = some (a / b) := if_neg some_

/-- A square of some size has a sample for each row and column. -/
theorem sample_some (d extent : Nat) {size : Nat} (some_ : size ≠ 0) : ∃ s,sample d extent size = some s ∧ s.weight < 256 := by
  rw [sample,divide_some _ some_]
  exact ⟨_,rfl,Nat.mod_lt _ (by decide)⟩

/-- A format whose channels have between one and eight bits. -/
def PixelFormat.Narrow (f : PixelFormat) : Prop :=
  (1 ≤ f.redSize ∧ f.redSize ≤ 8) ∧ (1 ≤ f.greenSize ∧ f.greenSize ≤ 8) ∧ 1 ≤ f.blueSize ∧ f.blueSize ≤ 8

instance (f : PixelFormat) : Decidable f.Narrow := inferInstanceAs (Decidable (_ ∧ _ ∧ _))

/-- No mask of the format is 0. -/
def PixelFormat.Divides (f : PixelFormat) : Prop := mask f.redSize ≠ 0 ∧ mask f.greenSize ≠ 0 ∧ mask f.blueSize ≠ 0

instance (f : PixelFormat) : Decidable f.Divides := inferInstanceAs (Decidable (_ ∧ _ ∧ _))

theorem mask_ne_zero {size : Nat} (some_ : 1 ≤ size) (narrow : size ≤ 8) : mask size ≠ 0 := by
  have two : 2 ^ 1 ≤ 2 ^ size := Nat.pow_le_pow_right (by decide) some_
  rw [mask,oneShifted,Nat.mod_eq_of_lt (by omega)]
  omega

theorem PixelFormat.Narrow.divides {f : PixelFormat} (narrow : f.Narrow) : f.Divides :=
  ⟨mask_ne_zero narrow.1.1 narrow.1.2,mask_ne_zero narrow.2.1.1 narrow.2.1.2,mask_ne_zero narrow.2.2.1 narrow.2.2.2⟩

theorem storedChannel_some {size : Nat} (full : mask size ≠ 0) (position : Nat) (dst : Pixel) :
    ∃ d,storedChannel size position dst = some d ∧ d ≤ 255 := by
  refine ⟨_,divide_some _ full,?_⟩
  have below : (dst >>> (position % 32)).toNat &&& mask size ≤ mask size := Nat.and_le_right
  refine Nat.div_le_of_le_mul (Nat.le_trans (Nat.mod_le _ _) ?_)
  exact Nat.mul_le_mul_right 255 below

end Division

section Bounds

/-- The mean of two values is that of their weighted sum, up to the rounding. -/
theorem weighted_range (a b w : Nat) :
    256 * weighted a b w ≤ a * (256 - w) + b * w + 128 ∧ a * (256 - w) + b * w ≤ 256 * weighted a b w + 127 := by
  unfold weighted
  omega

theorem weighted_le {a b w m : Nat} (first : a ≤ m) (second : b ≤ m) (inside : w ≤ 256) : weighted a b w ≤ m := by
  have one := Nat.mul_le_mul_right (256 - w) first
  have two := Nat.mul_le_mul_right w second
  have sum : m * (256 - w) + m * w = 256 * m := by
    rw [← Nat.mul_add,Nat.sub_add_cancel inside,Nat.mul_comm]
  have range := (weighted_range a b w).1
  omega

/-- What a value of at most `m` times the alpha at both ends comes to: `m` times the mean alpha,
and an error from the rounding. -/
theorem weighted_premultiplied {c d a b e w : Nat} (first : c ≤ 255 * a + e) (second : d ≤ 255 * b + e) (inside : w ≤ 256) :
    256 * weighted c d w ≤ 255 * (256 * weighted a b w + 127) + 256 * e + 128 := by
  have one := Nat.mul_le_mul_right (256 - w) first
  have two := Nat.mul_le_mul_right w second
  have errors : e * (256 - w) + e * w = 256 * e := by
    rw [← Nat.mul_add,Nat.sub_add_cancel inside,Nat.mul_comm]
  have alphas := (weighted_range a b w).2
  have values := (weighted_range c d w).1
  rw [Nat.add_mul,Nat.mul_assoc] at one two
  omega

/-- The mean of the premultiplied values is at most 255 times the mean alpha, and 254 from the
two roundings. -/
theorem bilinear_premultiplied (c : Corners Pixel) (shift : Nat) {fy fx : Nat} (row : fy ≤ 256) (column : fx ≤ 256) :
    bilinear (c.map (premultiplied shift)) fy fx ≤ 255 * bilinear (c.map alphaOf) fy fx + 254 := by
  have each (p : Pixel) : premultiplied shift p ≤ 255 * alphaOf p + 0 :=
    Nat.mul_le_mul_right _ (Nat.le_of_lt_succ (Nat.mod_lt _ (by decide)))
  have top := weighted_premultiplied (each c.p00) (each c.p10) column
  have bottom := weighted_premultiplied (each c.p01) (each c.p11) column
  have above : weighted (premultiplied shift c.p00) (premultiplied shift c.p10) fx ≤
      255 * weighted (alphaOf c.p00) (alphaOf c.p10) fx + 127 := by omega
  have below : weighted (premultiplied shift c.p01) (premultiplied shift c.p11) fx ≤
      255 * weighted (alphaOf c.p01) (alphaOf c.p11) fx + 127 := by omega
  have sides := weighted_premultiplied above below row
  unfold bilinear Corners.map
  dsimp only
  omega

theorem bilinear_alpha (c : Corners Pixel) {fy fx : Nat} (row : fy ≤ 256) (column : fx ≤ 256) :
    bilinear (c.map alphaOf) fy fx ≤ 255 := by
  have each (p : Pixel) : alphaOf p ≤ 255 := by
    rw [alphaOf,BitVec.toNat_ushiftRight,Nat.shiftRight_eq_div_pow]
    have := p.isLt
    omega
  exact weighted_le (weighted_le (each _) (each _) column) (weighted_le (each _) (each _) column) row

/-- Where the source covers a pixel its channels are bytes already. -/
theorem quotient_le {value alpha : Nat} (value_le : value ≤ 255 * alpha + 254) (full : 255 ≤ alpha) : value / alpha ≤ 255 := by
  rw [Nat.div_le_iff_le_mul_add_pred (by omega)]
  omega

/-- A channel of the source may be above 255 by itself, but its mixture with a stored one is
not. -/
theorem mixed_le {value alpha d : Nat} (value_le : value ≤ 255 * alpha + 254) (partial_ : alpha < 255) (byte : d ≤ 255) :
    mixed (value / alpha) alpha d ≤ 255 := by
  have source : value / alpha * alpha ≤ value := Nat.div_mul_le_self value alpha
  have stored : d * (255 - alpha) ≤ 255 * (255 - alpha) := Nat.mul_le_mul_right (255 - alpha) byte
  unfold mixed
  omega

/-- All three channels are bytes. -/
def Channels.Bytes (c : Channels) : Prop := c.r ≤ 255 ∧ c.g ≤ 255 ∧ c.b ≤ 255

/-- Channels that are bytes stay where they are put. -/
theorem Channels.Bytes.apart {c : Channels} (bytes : c.Bytes) :
    (c.rgb >>> 16).toNat = c.r ∧ (c.rgb >>> 8).toNat % 256 = c.g ∧ c.rgb.toNat % 256 = c.b := by
  obtain ⟨red,green,blue⟩ := bytes
  have value : c.rgb.toNat = (c.r * 256 + c.g) * 256 + c.b := by
    have high : c.r <<< 16 ||| c.g <<< 8 = (c.r * 256 + c.g) <<< 8 := by
      rw [← Nat.shiftLeft_add_eq_or_of_lt (by rw [Nat.shiftLeft_eq]; omega) c.r]
      simp only [Nat.shiftLeft_eq]
      omega
    rw [Channels.rgb,BitVec.toNat_ofNat,high,← Nat.shiftLeft_add_eq_or_of_lt (by omega),Nat.shiftLeft_eq,Nat.mod_eq_of_lt (by omega)]
  simp only [BitVec.toNat_ushiftRight,Nat.shiftRight_eq_div_pow,value]
  omega

theorem blitChannels_bytes {f : PixelFormat} (divides : f.Divides) (c : Corners Pixel) {fy fx : Nat} (row : fy < 256)
    (column : fx < 256) (dst : Pixel) :
    ∃ mixture,blitChannels f c fy fx dst = some mixture ∧ ∀ channels ∈ mixture,channels.Bytes := by
  have values (shift : Nat) := bilinear_premultiplied c shift (Nat.le_of_lt row) (Nat.le_of_lt column)
  rw [blitChannels]
  by_cases clear : bilinear (c.map alphaOf) fy fx = 0
  · exact ⟨none,if_pos clear,nofun⟩
  rw [if_neg clear,divide_some _ clear,divide_some _ clear,divide_some _ clear]
  by_cases full : bilinear (c.map alphaOf) fy fx ≥ 255
  · refine ⟨some _,if_pos full,?_⟩
    rintro channels ⟨⟩
    exact ⟨quotient_le (values 16) full,quotient_le (values 8) full,quotient_le (values 0) full⟩
  · obtain ⟨dr,red,redByte⟩ := storedChannel_some divides.1 f.redPos dst
    obtain ⟨dg,green,greenByte⟩ := storedChannel_some divides.2.1 f.greenPos dst
    obtain ⟨db,blue,blueByte⟩ := storedChannel_some divides.2.2 f.bluePos dst
    have less := Nat.lt_of_not_le full
    simp only [Option.bind_eq_bind,Option.bind_some,if_neg full,red,green,blue]
    refine ⟨_,rfl,?_⟩
    rintro channels ⟨⟩
    exact ⟨mixed_le (values 16) less redByte,mixed_le (values 8) less greenByte,mixed_le (values 0) less blueByte⟩

end Bounds

section Calls

theorem blitPixel_some {f : PixelFormat} (divides : f.Divides) (pixels : Nat → Pixel) (width : Nat) {sy sx : Sample}
    (row : sy.weight < 256) (column : sx.weight < 256) (dst : Pixel) : ∃ p,blitPixel f pixels width sy sx dst = some p := by
  obtain ⟨mixture,made,_⟩ := blitChannels_bytes divides (corners pixels width sy sx) row column dst
  exact ⟨_,by rw [blitPixel,made]; rfl⟩

/-- A call divides by no zero. -/
theorem framebufferBlitRgba32_returns {d : Display} (divides : d.format.Divides) (pixels : Nat → Pixel)
    (width height x y size : Nat) : ∃ r,framebufferBlitRgba32 d pixels width height x y size = some r := by
  rw [framebufferBlitRgba32]
  split
  · exact ⟨d,rfl⟩
  next drawn =>
    have some_ : size ≠ 0 := fun zero => drawn (by simp [zero])
    dsimp only
    split
    · exact ⟨d,rfl⟩
    · refine Option.isSome_iff_exists.mp (Option.isSome_map.trans (Option.isSome_iff_exists.mpr ?_))
      refine forEach_returns (fun dy _ buffer => ?_) d.desktopBuffer
      obtain ⟨sy,row,weight⟩ := sample_some dy height some_
      rw [row,Option.bind_some]
      refine forEach_returns (fun dx _ buffer => ?_) buffer
      obtain ⟨sx,column,weight'⟩ := sample_some dx width some_
      obtain ⟨p,made⟩ := blitPixel_some divides pixels width weight weight' (buffer (wrap (wrap (wrap (y + dy) * d.width) + wrap (x + dx))))
      rw [column,Option.bind_some,made]
      exact ⟨_,rfl⟩

/-- A call divides by no zero, and the channels that it puts together, for any row and column
and over any stored pixel, are bytes, each in its own place. -/
theorem blit_channels_bytes {d : Display} (narrow : d.format.Narrow) (pixels : Nat → Pixel) (width height x y size : Nat) :
    (∃ r,framebufferBlitRgba32 d pixels width height x y size = some r) ∧
      ∀ dy dx dst,size ≠ 0 → ∃ sy sx mixture,sample dy height size = some sy ∧ sample dx width size = some sx ∧
        blitChannels d.format (corners pixels width sy sx) sy.weight sx.weight dst = some mixture ∧
          ∀ channels ∈ mixture,channels.Bytes ∧ (channels.rgb >>> 16).toNat = channels.r ∧
            (channels.rgb >>> 8).toNat % 256 = channels.g ∧ channels.rgb.toNat % 256 = channels.b := by
  refine ⟨framebufferBlitRgba32_returns narrow.divides pixels width height x y size,fun dy dx dst some_ => ?_⟩
  obtain ⟨sy,row,weight⟩ := sample_some dy height some_
  obtain ⟨sx,column,weight'⟩ := sample_some dx width some_
  obtain ⟨mixture,made,bytes⟩ := blitChannels_bytes narrow.divides (corners pixels width sy sx) weight weight' dst
  exact ⟨sy,sx,mixture,row,column,made,fun channels member => ⟨bytes channels member,(bytes channels member).apart⟩⟩

/-- A screen of 640 by 480 pixels of 16 bits in desktop mode. -/
def highColor : Display where
  enabled := true
  fb := 0xF4000000
  pitch := 1280
  width := 640
  height := 480
  format := ⟨16,11,5,5,6,0,5⟩
  desktopMode := true
  buffered := true
  desktopBuffer := fun _ => 0
  clip := none
  memory := fun _ => 0

theorem blit_channels_bytes_highColor :
    (∃ r,framebufferBlitRgba32 highColor (fun _ => 0x80FF00FF) 2 2 7 5 3 = some r) ∧
      ∀ dy dx dst,3 ≠ 0 → ∃ sy sx mixture,sample dy 2 3 = some sy ∧ sample dx 2 3 = some sx ∧
        blitChannels highColor.format (corners (fun _ => 0x80FF00FF) 2 sy sx) sy.weight sx.weight dst = some mixture ∧
          ∀ channels ∈ mixture,channels.Bytes ∧ (channels.rgb >>> 16).toNat = channels.r ∧
            (channels.rgb >>> 8).toNat % 256 = channels.g ∧ channels.rgb.toNat % 256 = channels.b :=
  blit_channels_bytes (by decide) _ 2 2 7 5 3

end Calls
end LionOS.Video

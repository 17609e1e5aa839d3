import LionOS.Video.Clip

/-! The wallpaper of the desktop: a picture of 16 bits a pixel, scaled to cover the screen and kept
in a cache, from which rectangles of the desktop buffer are restored. -/
namespace LionOS.Video
open LionOS.Library
open LionOS.Processes (wrap)

structure Picture where
  pixels : Nat → BitVec 16
  width : Nat
  height : Nat

/-- A colour of five or six bits from `shift` on, scaled to 255. -/
def channel565 (shift bits : Nat) (p : Pixel) : Nat := (p >>> shift).toNat % 2^bits * 255 / (2^bits - 1)

def coverChannels (p : Picture) (sy sx : Sample) : Channels :=
  let c := corners (fun k => (p.pixels k).setWidth 32) p.width sy sx
  ⟨bilinear (c.map (channel565 11 5)) sy.weight sx.weight,bilinear (c.map (channel565 5 6)) sy.weight sx.weight,
    bilinear (c.map (channel565 0 5)) sy.weight sx.weight⟩

/-- `out_w` and `out_h`: the size of the picture when it covers the screen. -/
def coverSize (d : Display) (p : Picture) : Nat × Nat :=
  let lhs := wrap (d.width * p.height)
  let rhs := wrap (d.height * p.width)
  if lhs ≥ rhs then (d.width,wrap (d.width * p.height) / p.width) else (wrap (d.height * p.width) / p.height,d.height)

def cropped (out screen : Nat) : Nat := if out > screen then (out - screen) / 2 else 0

def coverRow (d : Display) (p : Picture) (y : Nat) : Option Sample :=
  sample (wrap (y + cropped (coverSize d p).2 d.height)) p.height (coverSize d p).2

def coverColumn (d : Display) (p : Picture) (x : Nat) : Option Sample :=
  sample (wrap (x + cropped (coverSize d p).1 d.width)) p.width (coverSize d p).1

/-- The loops that fill the cache. -/
def scalePicture (d : Display) (p : Picture) : (Nat → Pixel) → Option (Nat → Pixel) :=
  forRange 0 d.height fun y cells => (coverRow d p y).bind fun sy =>
    forRange 0 d.width (fun x cells => (coverColumn d p x).map fun sx =>
      Function.update cells (wrap (y * d.width) + x) (packRgb d.format (coverChannels p sy sx).rgb)) cells

/-- `wallpaper_cache` and the statics about it. -/
structure Wallpaper where
  source : Nat
  width : Nat
  height : Nat
  ready : Bool
  cells : Nat → Pixel

def framebufferRestoreWallpaperRect (d : Display) (cache : Option Wallpaper) (x y width height : Nat) : Option Display :=
  match cache with
  | none => some d
  | some c =>
    if !d.enabled ∨ !d.desktopMode ∨ !d.buffered ∨ !c.ready ∨ width = 0 ∨ height = 0 then some d
    else if x ≥ d.width ∨ y ≥ d.height then some d
    else
      let width := if width > d.width - x then d.width - x else width
      let height := if height > d.height - y then d.height - y else height
      onBuffer d (forRange 0 height fun row buffer =>
        let line := wrap (wrap (y + row) * d.width) + x
        forRange 0 width (fun i buffer => some (Function.update buffer (line + i) (c.cells (line + i)))) buffer)

def framebufferRestoreWallpaper (d : Display) (cache : Option Wallpaper) : Option Display :=
  match cache with
  | none => some d
  | some c =>
    if !d.enabled ∨ !d.desktopMode ∨ !d.buffered ∨ !c.ready then some d
    else onBuffer d fun buffer => some fun k => if k < wrap (d.width * d.height) then c.cells k else buffer k

/-- The cached picture is scaled when it is not ready, and shown in the clip rectangle. -/
def showWallpaper (p : Picture) (d : Display) (c : Wallpaper) : Option (Display × Option Wallpaper) :=
  let scaled :=
    if c.ready then some c
    else (scalePicture d p fun k => if k < d.width * d.height then packRgb d.format 0 else c.cells k).map fun cells =>
      { c with ready := true,cells }
  scaled.bind fun c =>
    (match d.clip with
      | some r => framebufferRestoreWallpaperRect d (some c) r.x r.y r.width r.height
      | none => framebufferRestoreWallpaper d (some c)).map fun d => (d,some c)

/-- `framebuffer_blit_rgb565_cover` of the picture at the address `source`, `block` what `kmalloc`
would return. -/
def framebufferBlitRgb565Cover (pictures : Nat → Picture) (d : Display) (cache : Option Wallpaper) (source : Nat)
    (block : Option (Nat → Pixel)) : Option (Display × Option Wallpaper) :=
  let p := pictures source
  if !d.enabled ∨ !d.desktopMode ∨ !d.buffered ∨ source = 0 ∨ p.width = 0 ∨ p.height = 0 then some (d,cache)
  else match cache.filter fun c => c.width = d.width ∧ c.height = d.height ∧ c.source = source with
    | some c => showWallpaper p d c
    | none =>
      if d.width * d.height > 0xFFFFFFFF / 4 then some (d,cache)
      else match block with
        | none => some (d,none)
        | some words => showWallpaper p d ⟨source,d.width,d.height,false,words⟩

/-- A pixel of the scaled picture, by its place in the desktop buffer. -/
def coverCell (d : Display) (p : Picture) (k : Nat) : Option Pixel :=
  (coverRow d p (k / d.width)).bind fun sy => (coverColumn d p (k % d.width)).map fun sx =>
    packRgb d.format (coverChannels p sy sx).rgb

/-- The scaled picture. -/
def covering (d : Display) (p : Picture) : Nat → Pixel := fun k => (coverCell d p k).getD 0

/-- A picture with a size. -/
def Picture.Small (p : Picture) : Prop := (0 < p.width ∧ p.width < 2^15) ∧ 0 < p.height ∧ p.height < 2^15

instance (width x w y h k : Nat) : Decidable (k ∈ Box width x w y h) :=
  inferInstanceAs (Decidable ((x ≤ k % width ∧ k % width < x + w) ∧ y ≤ k / width ∧ k / width < y + h))

/-- The places of the screen. -/
def ScreenPlaces (d : Display) : Set Nat := Box d.width 0 d.width 0 d.height

/-- A desktop that is not larger than the drawing calls can count. -/
structure DesktopMode (d : Display) : Prop where
  enabled : d.enabled = true
  mode : d.desktopMode = true
  buffered : d.buffered = true
  width : 0 < d.width ∧ d.width < 2^15
  height : 0 < d.height ∧ d.height < 2^15

section Scale
variable {d : Display} {p : Picture}

theorem coverSize_positive (desktop : DesktopMode d) (small : p.Small) : 0 < (coverSize d p).1 ∧ 0 < (coverSize d p).2 := by
  obtain ⟨⟨some_w,less_w⟩,some_h,less_h⟩ := small
  have less_w' := desktop.width.2
  have less_h' := desktop.height.2
  have across : d.width * p.height < 2^15 * 2^15 := Nat.mul_lt_mul'' less_w' less_h
  have down : d.height * p.width < 2^15 * 2^15 := Nat.mul_lt_mul'' less_h' less_w
  have across_exact : wrap (d.width * p.height) = d.width * p.height := wrap_of_small (by omega)
  have down_exact : wrap (d.height * p.width) = d.height * p.width := wrap_of_small (by omega)
  unfold coverSize
  dsimp only
  rw [across_exact,down_exact]
  split
  next wide =>
    refine ⟨desktop.width.1,Nat.div_pos ?_ some_w⟩
    exact (Nat.le_mul_of_pos_left p.width desktop.height.1).trans wide
  next narrow =>
    refine ⟨Nat.div_pos ?_ some_h,desktop.height.1⟩
    exact (Nat.le_mul_of_pos_left p.height desktop.width.1).trans (Nat.le_of_lt (Nat.lt_of_not_le narrow))

theorem coverCell_some (desktop : DesktopMode d) (small : p.Small) (k : Nat) : coverCell d p k = some (covering d p k) := by
  obtain ⟨wide,high⟩ := coverSize_positive desktop small
  obtain ⟨sy,row,_⟩ := sample_some (wrap (k / d.width + cropped (coverSize d p).2 d.height)) p.height (Nat.ne_of_gt high)
  obtain ⟨sx,column,_⟩ := sample_some (wrap (k % d.width + cropped (coverSize d p).1 d.width)) p.width (Nat.ne_of_gt wide)
  have both : coverCell d p k = some (packRgb d.format (coverChannels p sy sx).rgb) := by
    unfold coverCell coverRow coverColumn
    rw [row,column]
    rfl
  rw [covering,both]
  rfl

/-- The loops give each pixel of the screen what the scaled picture has there. -/
theorem scalePicture_touches (desktop : DesktopMode d) (small : p.Small) :
    Touches (ScreenPlaces d) (fun k _ => coverCell d p k) (scalePicture d p) := by
  unfold ScreenPlaces Box
  rw [Nat.zero_add,Nat.zero_add]
  refine touches_box fun y _ below => ?_
  obtain ⟨_,high⟩ := coverSize_positive desktop small
  obtain ⟨sy,row,_⟩ := sample_some (wrap (y + cropped (coverSize d p).2 d.height)) p.height (Nat.ne_of_gt high)
  have in_row : coverRow d p y = some sy := row
  have small_row : y < 2^15 := Nat.lt_trans (by omega) desktop.height.2
  simp only [in_row,Option.bind_some]
  have turn (x : Nat) (_ : 0 ≤ x) (inside : x < d.width) :
      Touches {wrap (y * d.width) + x} (fun k _ => coverCell d p k) fun cells =>
        (coverColumn d p x).map fun sx =>
          Function.update cells (wrap (y * d.width) + x) (packRgb d.format (coverChannels p sy sx).rgb) := by
    have its : coverCell d p (wrap (y * d.width) + x) =
        (coverColumn d p x).map fun sx => packRgb d.format (coverChannels p sy sx).rgb := by
      rw [line_small small_row desktop.width.2,coverCell,place_div inside,place_mod inside,in_row]
      rfl
    have one := touches_one (fun k _ => coverCell d p k) (wrap (y * d.width) + x)
    simp only [its,Option.map_map] at one
    exact one
  refine touches_line turn (Nat.le_refl _) rfl fun x _ _ => ?_
  rw [line_small small_row desktop.width.2]
  omega

end Scale

theorem DesktopMode.over (desktop : DesktopMode d) (clip : Option Rect) (buffer : Nat → Pixel) : DesktopMode (d.over clip buffer) :=
  ⟨desktop.enabled,desktop.mode,desktop.buffered,desktop.width,desktop.height⟩

theorem DesktopMode.sized (desktop : DesktopMode d) : d.Sized := by
  intro _
  have product := Nat.mul_lt_mul'' desktop.width.2 desktop.height.2
  omega

section Restore
variable {d : Display} {c : Wallpaper} {r : Rect}

theorem box_screen (inside : Inside d (some r)) : Box d.width r.x r.width r.y r.height ⊆ ScreenPlaces d := by
  obtain ⟨⟨_,column⟩,_,row⟩ := inside r rfl
  rintro k ⟨columns,rows⟩
  exact ⟨⟨Nat.zero_le _,by omega⟩,Nat.zero_le _,by omega⟩

/-- The buffer when a rectangle of it is restored. -/
def restored (d : Display) (r : Rect) (cells buffer : Nat → Pixel) : Nat → Pixel := fun k =>
  if k ∈ Box d.width r.x r.width r.y r.height then cells k else buffer k

theorem restoreRect_box (desktop : DesktopMode d) (ready : c.ready = true) (inside : Inside d (some r)) :
    framebufferRestoreWallpaperRect d (some c) r.x r.y r.width r.height =
      some { d with desktopBuffer := restored d r c.cells d.desktopBuffer } := by
  obtain ⟨⟨some_w,column⟩,some_h,row⟩ := inside r rfl
  have less_w := desktop.width.2
  have less_h := desktop.height.2
  let body (row : Nat) (buffer : Nat → Pixel) : Option (Nat → Pixel) := forRange 0 r.width (fun i buffer =>
    some (Function.update buffer (wrap (wrap (r.y + row) * d.width) + r.x + i)
      (c.cells (wrap (wrap (r.y + row) * d.width) + r.x + i)))) buffer
  have loop : Touches (Box d.width r.x r.width r.y r.height) (fun k _ => some (c.cells k)) (forRange 0 r.height body) := by
    rw [funext fun buffer => forRange_shift r.y 0 r.height body buffer]
    refine touches_box fun yy low high => ?_
    have at_row : wrap (r.y + (yy - r.y)) = yy := by
      rw [Nat.add_sub_cancel' low,wrap_of_small (by omega)]
    unfold body
    rw [at_row]
    have line := @touches_span d.width yy r.x (r.x + r.width) (by omega) less_w column fun k _ => some (c.cells k)
    rw [Nat.add_sub_cancel_left] at line
    exact line
  have all : forRange 0 r.height body d.desktopBuffer = some (restored d r c.cells d.desktopBuffer) :=
    (loop _ _).mpr fun k => ⟨fun member => (congrArg some (if_pos member)).symm,fun none => if_neg none⟩
  have on : ¬((!d.enabled) ∨ (!d.desktopMode) ∨ (!d.buffered) ∨ (!c.ready) ∨ r.width = 0 ∨ r.height = 0) := by
    simp only [desktop.enabled,desktop.mode,desktop.buffered,ready,Bool.not_true,Bool.false_eq_true,false_or,not_or]
    exact ⟨Nat.ne_of_gt some_w,Nat.ne_of_gt some_h⟩
  have on_screen : ¬(r.x ≥ d.width ∨ r.y ≥ d.height) := by omega
  have whole_w : ¬ r.width > d.width - r.x := by omega
  have whole_h : ¬ r.height > d.height - r.y := by omega
  rw [framebufferRestoreWallpaperRect,if_neg on,if_neg on_screen]
  dsimp only
  rw [if_neg whole_w,if_neg whole_h,onBuffer]
  exact congrArg (Option.map _) all

end Restore

/-- What the cache holds once it is ready is the scaled picture of its source. -/
def Cached (pictures : Nat → Picture) (d : Display) (cache : Option Wallpaper) : Prop :=
  ∀ c ∈ cache, c.ready → c.width = d.width → c.height = d.height → ∀ k ∈ ScreenPlaces d, c.cells k = covering d (pictures c.source) k

section Cover
variable {pictures : Nat → Picture} {d : Display} {cache : Option Wallpaper} {source : Nat} {r : Rect}

theorem restored_congr (inside : Inside d (some r)) {cells cells' : Nat → Pixel} (same : ∀ k ∈ ScreenPlaces d, cells k = cells' k)
    (buffer : Nat → Pixel) : restored d r cells buffer = restored d r cells' buffer := by
  funext k
  unfold restored
  split
  next member => exact same k (box_screen inside member)
  · rfl

theorem showWallpaper_box (desktop : DesktopMode d) (small : (pictures source).Small) (inside : Inside d (some r)) {c : Wallpaper}
    (own : c.source = source) (cached : Cached pictures d (some c)) (sized : c.width = d.width ∧ c.height = d.height) (buffer : Nat → Pixel) :
    ∃ cache, showWallpaper (pictures source) (d.over (some r) buffer) c =
        some (d.over (some r) (restored d r (covering d (pictures source)) buffer),cache) ∧ Cached pictures d cache := by
  have filled : ∃ c', (if c.ready then some c
      else (scalePicture d (pictures source) fun k => if k < d.width * d.height then packRgb d.format 0 else c.cells k).map fun cells =>
        { c with ready := true,cells }) = some c' ∧ c'.ready = true ∧ c'.source = source ∧
          ∀ k ∈ ScreenPlaces d, c'.cells k = covering d (pictures source) k := by
    by_cases ready : c.ready = true
    · rw [if_pos ready]
      refine ⟨c,rfl,ready,own,fun k member => ?_⟩
      rw [cached c rfl ready sized.1 sized.2 k member,own]
    · rw [if_neg ready]
      have touches := scalePicture_touches desktop small
      obtain ⟨cells,done⟩ := touches.returns (fun k _ _ => ⟨_,coverCell_some desktop small k⟩)
        fun k => if k < d.width * d.height then packRgb d.format 0 else c.cells k
      rw [done]
      refine ⟨_,rfl,rfl,own,fun k member => ?_⟩
      have made := ((touches _ _).mp done k).1 member
      dsimp only at made
      rw [coverCell_some desktop small] at made
      exact (Option.some_inj.mp made).symm
  obtain ⟨c',made,ready,of_source,cells⟩ := filled
  refine ⟨some c',?_,?_⟩
  · have shown := restoreRect_box (desktop.over (some r) buffer) ready inside
    refine (congrArg (fun scaled => Option.bind scaled _) made).trans ?_
    rw [Option.bind_some]
    refine (congrArg (Option.map _) shown).trans ?_
    rw [← restored_congr inside cells]
    rfl
  · intro c member _ _ _ k place
    rw [Option.mem_some_iff] at member
    rw [← member,of_source]
    exact cells k place

/-- Whatever is in the cache, the picture covers the clip rectangle. -/
theorem cover_box (desktop : DesktopMode d) (given : source ≠ 0) (small : (pictures source).Small) (inside : Inside d (some r))
    (cached : Cached pictures d cache) (words buffer : Nat → Pixel) :
    ∃ cache', framebufferBlitRgb565Cover pictures (d.over (some r) buffer) cache source (some words) =
        some (d.over (some r) (restored d r (covering d (pictures source)) buffer),cache') ∧ Cached pictures d cache' := by
  have on : ¬((!(d.over (some r) buffer).enabled) ∨ (!(d.over (some r) buffer).desktopMode) ∨ (!(d.over (some r) buffer).buffered) ∨
      source = 0 ∨ (pictures source).width = 0 ∨ (pictures source).height = 0) := by
    obtain ⟨enabled,mode,buffered,_,_⟩ := desktop.over (some r) buffer
    simp only [enabled,mode,buffered,Bool.not_true,Bool.false_eq_true,false_or,not_or]
    exact ⟨given,Nat.ne_of_gt small.1.1,Nat.ne_of_gt small.2.1⟩
  rw [framebufferBlitRgb565Cover,if_neg on]
  cases hit : cache.filter fun c =>
      c.width = (d.over (some r) buffer).width ∧ c.height = (d.over (some r) buffer).height ∧ c.source = source with
  | some c =>
    obtain ⟨here,fits⟩ := Option.filter_eq_some_iff.mp hit
    obtain ⟨width,height,own⟩ := of_decide_eq_true fits
    exact showWallpaper_box desktop small inside own (by rwa [← here]) ⟨width,height⟩ buffer
  | none =>
    have few : ¬ (d.over (some r) buffer).width * (d.over (some r) buffer).height > 0xFFFFFFFF / 4 := by
      have product := Nat.mul_lt_mul'' desktop.width.2 desktop.height.2
      exact Nat.not_lt.mpr (Nat.le_of_lt_succ product)
    dsimp only
    rw [if_neg few]
    refine showWallpaper_box desktop small inside rfl ?_ ⟨rfl,rfl⟩ buffer
    intro c member ready
    rw [Option.mem_some_iff] at member
    rw [← member] at ready
    cases ready

end Cover

end LionOS.Video

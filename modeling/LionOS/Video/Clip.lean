import Mathlib.Algebra.Order.Ring.Int
import LionOS.Video.Blend
import LionOS.Video.Blit

/-! Clipping: a call changes inside the clip rectangle what it would change without one, and
nothing outside. -/
namespace LionOS.Video
open LionOS.Library
open LionOS.Physical (Byte)
open LionOS.Processes (wrap toU32 toI32)

/-- A row or column lies in a side of the clip rectangle, if there is one. -/
def OnSide : Option (Nat × Nat) → Nat → Prop
  | none, _ => True
  | some (clipX,clipW), p => clipX ≤ p ∧ p < clipX + clipW

/-- The places of a clip rectangle in the desktop buffer of a screen; all without one. -/
def clipPlaces (width : Nat) (clip : Option Rect) : Set Nat :=
  {k | OnSide (clip.map fun c => (c.x,c.width)) (k % width) ∧ OnSide (clip.map fun c => (c.y,c.height)) (k / width)}

/-- The rectangle lies in the screen, as `framebuffer_set_clip` makes it. -/
def Inside (d : Display) (clip : Option Rect) : Prop :=
  ∀ c ∈ clip,(0 < c.width ∧ c.x + c.width ≤ d.width) ∧ 0 < c.height ∧ c.y + c.height ≤ d.height

/-- The screen with another clip rectangle and another buffer. -/
def Display.over (d : Display) (clip : Option Rect) (buffer : Nat → Pixel) : Display :=
  { d with clip := clip,desktopBuffer := buffer }

/-- A call changes some places of the buffer, each on its own, and with a clip rectangle those
of them that lie in it. -/
def Draws (d : Display) (S : Set Nat) (f : Nat → Pixel → Option Pixel) (call : Display → Option Display) : Prop :=
  ∀ clip,Inside d clip → ∃ op,Touches (S ∩ clipPlaces d.width clip) f op ∧
    ∀ buffer,call (d.over clip buffer) = (op buffer).map (d.over clip)

theorem draws_nothing {d : Display} {call : Display → Option Display} (f : Nat → Pixel → Option Pixel)
    (same : ∀ clip buffer,call (d.over clip buffer) = some (d.over clip buffer)) : Draws d ∅ f call := by
  intro clip _
  refine ⟨some,?_,same clip⟩
  rw [Set.empty_inter]
  exact touches_nothing f

/-- The places of a rectangle. -/
def Box (width x w y h : Nat) : Set Nat := {k | (x ≤ k % width ∧ k % width < x + w) ∧ y ≤ k / width ∧ k / width < y + h}

section Sides
variable {screen x w clipX clipW : Nat}

/-- The part of a side that a clip rectangle leaves. -/
theorem clipStart_end (small : screen < 2^15) (own : x + w ≤ screen) (clip : clipX + clipW ≤ screen) :
    match clipStart x w clipX with
    | none => ∀ p,¬((x ≤ p ∧ p < x + w) ∧ clipX ≤ p ∧ p < clipX + clipW)
    | some (x',w') => x' + clipEnd x' w' clipX clipW ≤ screen ∧
        ∀ p,(x' ≤ p ∧ p < x' + clipEnd x' w' clipX clipW) ↔ (x ≤ p ∧ p < x + w) ∧ clipX ≤ p ∧ p < clipX + clipW := by
  unfold clipStart
  by_cases before : x < clipX
  · rw [if_pos before]
    by_cases gone : clipX - x ≥ w
    · dsimp only
      rw [if_pos gone]
      intro p
      omega
    · dsimp only
      rw [if_neg gone]
      dsimp only
      unfold clipEnd wrap
      dsimp only
      constructor
      · split
        · split
          · omega
          · omega
        · omega
      · intro p
        split
        · split
          · omega
          · omega
        · omega
  · rw [if_neg before]
    dsimp only
    unfold clipEnd wrap
    dsimp only
    constructor
    · split
      · split
        · omega
        · omega
      · omega
    · intro p
      split
      · split
        · omega
        · omega
      · omega

theorem clippedSide_iff {clip : Option (Nat × Nat)} (small : screen < 2^15) (own : x + w ≤ screen)
    (inside : ∀ c ∈ clip,c.1 + c.2 ≤ screen) :
    (clippedSide clip x (wrap (x + w))).2 ≤ screen ∧
      ∀ p,((clippedSide clip x (wrap (x + w))).1 ≤ p ∧ p < (clippedSide clip x (wrap (x + w))).2) ↔
        (x ≤ p ∧ p < x + w) ∧ OnSide clip p := by
  match clip with
  | none =>
    unfold clippedSide wrap
    dsimp only
    refine ⟨by omega,fun p => ?_⟩
    rw [OnSide,and_true]
    omega
  | some (clipX,clipW) =>
    have clip_end : clipX + clipW ≤ screen := inside _ rfl
    unfold clippedSide OnSide wrap
    dsimp only
    refine ⟨?_,fun p => ?_⟩
    · split
      · omega
      · omega
    · split
      · split
        · omega
        · omega
      · split
        · omega
        · omega

end Sides

section Inside
variable {d : Display} {clip : Option Rect}

theorem Inside.columns (inside : Inside d clip) : ∀ c ∈ clip.map fun c => (c.x,c.width),c.1 + c.2 ≤ d.width := by
  rintro c member
  obtain ⟨rect,found,rfl⟩ := Option.map_eq_some_iff.mp member
  exact (inside rect found).1.2

theorem Inside.rows (inside : Inside d clip) : ∀ c ∈ clip.map fun c => (c.y,c.height),c.1 + c.2 ≤ d.height := by
  rintro c member
  obtain ⟨rect,found,rfl⟩ := Option.map_eq_some_iff.mp member
  exact (inside rect found).2.2

/-- What `framebuffer_apply_clip` leaves of a rectangle in the screen. -/
theorem applyClip_box {r : Rect} (smallW : d.width < 2^15) (smallH : d.height < 2^15) (column : r.x + r.width ≤ d.width)
    (row : r.y + r.height ≤ d.height) (inside : Inside d clip) :
    let r' := framebufferApplyClip clip r
    if r'.width = 0 ∨ r'.height = 0 then Box d.width r.x r.width r.y r.height ∩ clipPlaces d.width clip = ∅
    else r'.x + r'.width ≤ d.width ∧ r'.y + r'.height ≤ d.height ∧
      Box d.width r'.x r'.width r'.y r'.height = Box d.width r.x r.width r.y r.height ∩ clipPlaces d.width clip := by
  have all : clipPlaces d.width none = Set.univ := Set.eq_univ_of_forall fun _ => ⟨trivial,trivial⟩
  match clip with
  | none =>
    dsimp only [framebufferApplyClip]
    rw [all,Set.inter_univ]
    split
    next empty =>
      ext k
      refine ⟨fun ⟨member,member'⟩ => ?_,nofun⟩
      omega
    · exact ⟨column,row,rfl⟩
  | some c =>
    have within := inside c rfl
    have columns := clipStart_end smallW column within.1.2
    have rows := clipStart_end smallH row within.2.2
    dsimp only [framebufferApplyClip]
    cases first : clipStart r.x r.width c.x with
    | none =>
      rw [first] at columns
      rw [if_pos (.inl rfl)]
      ext k
      simp only [Set.mem_empty_iff_false,iff_false]
      exact fun both => columns (k % d.width) ⟨both.1.1,both.2.1⟩
    | some start =>
      rw [first] at columns
      cases second : clipStart r.y r.height c.y with
      | none =>
        rw [second] at rows
        dsimp only
        rw [if_pos (.inr rfl)]
        ext k
        simp only [Set.mem_empty_iff_false,iff_false]
        exact fun both => rows (k / d.width) ⟨both.1.2,both.2.2⟩
      | some start' =>
        rw [second] at rows
        have same : Box d.width start.1 (clipEnd start.1 start.2 c.x c.width) start'.1 (clipEnd start'.1 start'.2 c.y c.height) =
            Box d.width r.x r.width r.y r.height ∩ clipPlaces d.width (some c) := by
          ext k
          have one := columns.2 (k % d.width)
          have two := rows.2 (k / d.width)
          constructor
          · intro ⟨member,member'⟩
            have both := one.mp member
            have both' := two.mp member'
            exact ⟨⟨both.1,both'.1⟩,both.2,both'.2⟩
          · intro ⟨⟨member,member'⟩,inner,inner'⟩
            exact ⟨one.mpr ⟨member,inner⟩,two.mpr ⟨member',inner'⟩⟩
        dsimp only
        split
        next empty =>
          rw [← same]
          ext k
          refine ⟨fun ⟨member,member'⟩ => ?_,nofun⟩
          omega
        · exact ⟨columns.1,rows.1,same⟩

end Inside

section Lines
variable {d : Display}

theorem wrap_of_small {n : Nat} (small : n < 2^32) : wrap n = n := Nat.mod_eq_of_lt small

/-- The index of the first pixel of a row does not wrap around. -/
theorem line_small {yy width : Nat} (row : yy < 2^15) (column : width < 2^15) : wrap (yy * width) = yy * width := by
  refine wrap_of_small ?_
  have product : yy * width ≤ 2^15 * 2^15 := Nat.mul_le_mul (Nat.le_of_lt row) (Nat.le_of_lt column)
  omega

/-- A line that a loop writes pixel by pixel. -/
theorem touches_span {width yy a b : Nat} (row : yy < 2^15) (column : width < 2^15) (inside : b ≤ width) (f : Nat → Pixel → Option Pixel) :
    Touches (Span width yy a b) f (forRange 0 (b - a) fun i buffer =>
      (f (wrap (yy * width) + a + i) (buffer (wrap (yy * width) + a + i))).map (Function.update buffer (wrap (yy * width) + a + i))) := by
  refine touches_line (fun i _ _ => touches_one f (wrap (yy * width) + a + i)) inside (Nat.sub_zero _) fun i _ _ => ?_
  rw [line_small row column]
  omega

theorem touches_none {width yy a b : Nat} (empty : b ≤ a) (f : Nat → Pixel → Option Pixel) : Touches (Span width yy a b) f some := by
  have none : Span width yy a b = ∅ := by
    ext k
    refine ⟨fun ⟨_,from_,to_⟩ => ?_,nofun⟩
    omega
  rw [none]
  exact touches_nothing f

def painting (g : Pixel → Pixel) : Nat → Pixel → Option Pixel := fun _ p => some (g p)

theorem blendSpan_touches {width yy a b : Nat} (row : yy < 2^15) (column : width < 2^15) (inside : b ≤ width) (format : PixelFormat)
    (color : Pixel) (alpha : Nat) :
    Touches (Span width yy a b) (painting (blendPixel format color alpha))
      (blendSpan format (wrap (yy * width) + a) (b - a) color alpha) :=
  touches_span row column inside (painting (blendPixel format color alpha))

/-- The same columns of some rows. -/
theorem touches_box {width a b y₀ y₁ : Nat} {f : Nat → Pixel → Option Pixel} {body : Nat → (Nat → Pixel) → Option (Nat → Pixel)}
    (each : ∀ yy,y₀ ≤ yy → yy < y₁ → Touches (Span width yy a b) f (body yy)) :
    Touches {k | (a ≤ k % width ∧ k % width < b) ∧ y₀ ≤ k / width ∧ k / width < y₁} f (forRange y₀ y₁ body) := by
  have rows := @touches_rows _ f width y₀ y₁ body (fun _ => a) (fun _ => b) each
  have same : {k | (a ≤ k % width ∧ k % width < b) ∧ y₀ ≤ k / width ∧ k / width < y₁} =
      {k | y₀ ≤ k / width ∧ k / width < y₁ ∧ a ≤ k % width ∧ k % width < b} := by
    ext k
    exact ⟨fun ⟨⟨c,e⟩,l,m⟩ => ⟨l,m,c,e⟩,fun ⟨l,m,c,e⟩ => ⟨⟨c,e⟩,l,m⟩⟩
  rw [same]
  exact rows

end Lines

section Fill
variable {d : Display}

/-- The size of a side that the screen leaves. -/
def shortened (screen x w : Nat) : Nat := if w > screen - x then screen - x else w

theorem shortened_le {screen x w : Nat} (inside : x < screen) : x + shortened screen x w ≤ screen := by
  unfold shortened
  split
  · omega
  · omega

theorem fillRows_draws (desk : d.desktopMode) (smallW : d.width < 2^15) (smallH : d.height < 2^15) {r : Rect}
    (column : r.x + r.width ≤ d.width) (row : r.y + r.height ≤ d.height) (packed : Pixel) :
    ∃ op,Touches (Box d.width r.x r.width r.y r.height) (painting fun _ => packed) op ∧
      ∀ clip buffer,fillRows (d.over clip buffer) r packed = (op buffer).map (d.over clip) := by
  have lines : Touches (Box d.width r.x r.width r.y r.height)
      (painting fun _ => packed) (forRange r.y (r.y + r.height) fun yy buffer =>
        forRange 0 r.width (fun xx buffer => some (Function.update buffer (wrap (yy * d.width) + r.x + xx) packed)) buffer) := by
    refine touches_box fun yy _ last => ?_
    have line := @touches_span d.width yy r.x (r.x + r.width) (by omega) smallW column (painting fun _ => packed)
    rw [Nat.add_sub_cancel_left] at line
    exact line
  refine ⟨_,lines,fun clip buffer => ?_⟩
  unfold fillRows
  rw [if_pos (show (d.over clip buffer).desktopMode = true from desk),wrap_of_small (by omega)]
  rfl

theorem fillRect_draws (desk : d.desktopMode) (smallW : d.width < 2^15) (smallH : d.height < 2^15) (x y width height : Nat)
    (color : Pixel) : ∃ S,Draws d S (painting fun _ => packRgb d.format color) fun d => framebufferFillRect d x y width height color := by
  by_cases off : !d.enabled
  · exact ⟨∅,draws_nothing _ fun clip buffer => if_pos off⟩
  by_cases outside : x ≥ d.width ∨ y ≥ d.height ∨ width = 0 ∨ height = 0
  · exact ⟨∅,draws_nothing _ fun clip buffer => (if_neg off).trans (if_pos outside)⟩
  have column := @shortened_le d.width x width (by omega)
  have row := @shortened_le d.height y height (by omega)
  refine ⟨Box d.width x (shortened d.width x width) y (shortened d.height y height),fun clip inside => ?_⟩
  have clipped := @applyClip_box d clip ⟨x,y,shortened d.width x width,shortened d.height y height⟩ smallW smallH column row inside
  have opened (buffer : Nat → Pixel) : framebufferFillRect (d.over clip buffer) x y width height color =
      let r := framebufferApplyClip clip ⟨x,y,shortened d.width x width,shortened d.height y height⟩
      if r.width = 0 ∨ r.height = 0 then some (d.over clip buffer) else fillRows (d.over clip buffer) r (packRgb d.format color) :=
    (if_neg off).trans (if_neg outside)
  by_cases empty : (framebufferApplyClip clip ⟨x,y,shortened d.width x width,shortened d.height y height⟩).width = 0 ∨
      (framebufferApplyClip clip ⟨x,y,shortened d.width x width,shortened d.height y height⟩).height = 0
  · dsimp only at clipped
    rw [if_pos empty] at clipped
    refine ⟨some,?_,fun buffer => (opened buffer).trans (if_pos empty)⟩
    rw [clipped]
    exact touches_nothing _
  · dsimp only at clipped
    rw [if_neg empty] at clipped
    obtain ⟨op,touches,same⟩ := fillRows_draws desk smallW smallH clipped.1 clipped.2.1 (packRgb d.format color)
    rw [clipped.2.2] at touches
    exact ⟨op,touches,fun buffer => ((opened buffer).trans (if_neg empty)).trans (same clip buffer)⟩

end Fill

section Blend
variable {d : Display} {clip : Option Rect}

abbrev columnsOf (clip : Option Rect) : Option (Nat × Nat) := clip.map fun c => (c.x,c.width)

abbrev rowsOf (clip : Option Rect) : Option (Nat × Nat) := clip.map fun c => (c.y,c.height)

/-- Two clipped sides are a box in the clip rectangle. -/
theorem clipped_box {x y width height : Nat} (smallW : d.width < 2^15) (smallH : d.height < 2^15) (column : x + width ≤ d.width)
    (row : y + height ≤ d.height) (inside : Inside d clip) (P : Nat → Prop) :
    {k | ((clippedSide (columnsOf clip) x (wrap (x + width))).1 ≤ k % d.width ∧
        k % d.width < (clippedSide (columnsOf clip) x (wrap (x + width))).2) ∧
      ((clippedSide (rowsOf clip) y (wrap (y + height))).1 ≤ k / d.width ∧
        k / d.width < (clippedSide (rowsOf clip) y (wrap (y + height))).2) ∧ P k} =
      (Box d.width x width y height ∩ {k | P k}) ∩ clipPlaces d.width clip := by
  have columns := clippedSide_iff smallW column inside.columns
  have rows := clippedSide_iff smallH row inside.rows
  ext k
  constructor
  · intro ⟨member,member',holds⟩
    have both := (columns.2 _).mp member
    have both' := (rows.2 _).mp member'
    exact ⟨⟨⟨both.1,both'.1⟩,holds⟩,both.2,both'.2⟩
  · intro ⟨⟨⟨member,member'⟩,holds⟩,inner,inner'⟩
    exact ⟨(columns.2 _).mpr ⟨member,inner⟩,(rows.2 _).mpr ⟨member',inner'⟩,holds⟩

theorem blendRect_draws (smallW : d.width < 2^15) (smallH : d.height < 2^15) (x y width height : Nat)
    (color : Pixel) (alpha : Nat) :
    ∃ S,Draws d S (painting (blendPixel d.format color alpha)) fun d => framebufferBlendRect d x y width height color alpha := by
  by_cases off : !d.enabled ∨ !d.desktopMode ∨ !d.buffered ∨ width = 0 ∨ height = 0 ∨ alpha = 0
  · exact ⟨∅,draws_nothing _ fun clip buffer => if_pos off⟩
  by_cases outside : x ≥ d.width ∨ y ≥ d.height
  · exact ⟨∅,draws_nothing _ fun clip buffer => (if_neg off).trans (if_pos outside)⟩
  have column := @shortened_le d.width x width (by omega)
  have row := @shortened_le d.height y height (by omega)
  refine ⟨Box d.width x (shortened d.width x width) y (shortened d.height y height) ∩ {_k | True},fun clip inside => ?_⟩
  have box := clipped_box smallW smallH column row inside fun _ => True
  have columns := (clippedSide_iff smallW column inside.columns).1
  have rows := (clippedSide_iff smallH row inside.rows).1
  generalize cs : clippedSide (columnsOf clip) x (wrap (x + shortened d.width x width)) = side at box columns
  generalize rs : clippedSide (rowsOf clip) y (wrap (y + shortened d.height y height)) = side' at box rows
  have opened (buffer : Nat → Pixel) : framebufferBlendRect (d.over clip buffer) x y width height color alpha =
      if side.2 ≤ side.1 ∨ side'.2 ≤ side'.1 then some (d.over clip buffer)
      else onBuffer (d.over clip buffer) (forRange side'.1 side'.2 fun yy =>
        blendSpan d.format (wrap (yy * d.width) + side.1) (side.2 - side.1) color alpha) := by
    rw [← cs,← rs]
    exact (if_neg off).trans (if_neg outside)
  rw [← box]
  by_cases empty : side.2 ≤ side.1 ∨ side'.2 ≤ side'.1
  · have none : {k | (side.1 ≤ k % d.width ∧ k % d.width < side.2) ∧ (side'.1 ≤ k / d.width ∧ k / d.width < side'.2) ∧ True} = ∅ := by
      ext k
      refine ⟨fun ⟨member,member',_⟩ => ?_,nofun⟩
      omega
    rw [none]
    exact ⟨some,touches_nothing _,fun buffer => (opened buffer).trans (if_pos empty)⟩
  · have lines := @touches_box d.width side.1 side.2 side'.1 side'.2 (painting (blendPixel d.format color alpha)) _
      fun yy _ last => @blendSpan_touches d.width yy side.1 side.2 (by omega) smallW columns d.format color alpha
    simp only [and_true]
    exact ⟨_,lines,fun buffer => (opened buffer).trans (if_neg empty)⟩

theorem toI32_small {n : Nat} (small : n < 2^31) : toI32 n = n := by
  unfold toI32 wrap
  rw [if_pos (by omega),Nat.mod_eq_of_lt (by omega)]

theorem toU32_small {n : Int} (low : 0 ≤ n) (small : n < 2^32) : toU32 n = n.toNat := by
  unfold toU32
  rw [Int.emod_eq_of_lt low (by omega)]

/-- Every row of a rounded rectangle has its ends. -/
theorem roundRow_some {left right top bottom r : Int} (radius : 0 ≤ r ∧ r < 2^15) {yy : Nat} (small : yy < 2^15)
    (row : top ≤ yy ∧ yy ≤ bottom) : ∃ ends,roundRow left right top bottom r yy = some ends := by
  have py : toI32 yy = yy := toI32_small (by omega)
  unfold roundRow
  dsimp only
  rw [py]
  have near : cornerRow r top bottom yy ≤ r := by
    unfold cornerRow
    split
    · omega
    · split
      · omega
      · omega
  by_cases corner : cornerRow r top bottom yy > 0
  · have low : cornerRow r top bottom yy * cornerRow r top bottom yy ≤ r * r := Int.mul_le_mul near near (by omega) radius.1
    have high : r * r ≤ 2^15 * 2^15 := Int.mul_le_mul (by omega) (by omega) radius.1 (by omega)
    have positive : 0 ≤ cornerRow r top bottom yy * cornerRow r top bottom yy := Int.mul_nonneg (by omega) (by omega)
    obtain ⟨root,made⟩ := @isqrtU32_some (toU32 (r * r - cornerRow r top bottom yy * cornerRow r top bottom yy)) (by
      rw [toU32_small (by omega) (by omega)]
      omega)
    rw [if_pos corner,made]
    exact ⟨_,rfl⟩
  · rw [if_neg corner]
    exact ⟨_,rfl⟩

/-- The radius that `framebuffer_blend_round_rect` goes on with. -/
def fittingRadius (radius width height : Nat) : Nat :=
  let radius := if wrap (radius * 2) > width then width / 2 else radius
  if wrap (radius * 2) > height then height / 2 else radius

theorem fittingRadius_small {radius width height : Nat} (round : radius < 2^15) (smallW : width < 2^15) (smallH : height < 2^15) :
    fittingRadius radius width height < 2^15 := by
  have once : (if wrap (radius * 2) > width then width / 2 else radius) < 2^15 := by
    split
    · omega
    · exact round
  unfold fittingRadius
  dsimp only
  generalize (if wrap (radius * 2) > width then width / 2 else radius) = inner at once ⊢
  split
  · omega
  · exact once

/-- The turn of `framebuffer_blend_round_rect` for a row, `ends` the ends of the row and `side`
the columns that are drawn in. -/
def roundTurn (d : Display) (color : Pixel) (alpha yy : Nat) (side : Nat × Nat) (ends : Nat × Nat) (buffer : Nat → Pixel) :
    Option (Nat → Pixel) :=
  let sx := if ends.1 < side.1 then side.1 else ends.1
  let ex := if ends.2 > side.2 then side.2 else ends.2
  if ex > sx then blendSpan d.format (wrap (yy * d.width) + sx) (ex - sx) color alpha buffer else some buffer

theorem roundTurn_touches {yy : Nat} (row : yy < 2^15) (smallW : d.width < 2^15) {side : Nat × Nat} (inside : side.2 ≤ d.width)
    (ends : Nat × Nat) (color : Pixel) (alpha : Nat) :
    Touches (Span d.width yy (max ends.1 side.1) (min ends.2 side.2)) (painting (blendPixel d.format color alpha))
      (roundTurn d color alpha yy side ends) := by
  have from_ : (if ends.1 < side.1 then side.1 else ends.1) = max ends.1 side.1 := by
    split
    · omega
    · omega
  have to_ : (if ends.2 > side.2 then side.2 else ends.2) = min ends.2 side.2 := by
    split
    · omega
    · omega
  have turn (buffer : Nat → Pixel) : roundTurn d color alpha yy side ends buffer =
      if min ends.2 side.2 > max ends.1 side.1 then
        blendSpan d.format (wrap (yy * d.width) + max ends.1 side.1) (min ends.2 side.2 - max ends.1 side.1) color alpha buffer
      else some buffer := by
    rw [roundTurn,from_,to_]
  by_cases wide : min ends.2 side.2 > max ends.1 side.1
  · rw [funext fun buffer => (turn buffer).trans (if_pos wide)]
    exact blendSpan_touches row smallW (by omega) d.format color alpha
  · rw [funext fun buffer => (turn buffer).trans (if_neg wide)]
    exact touches_none (by omega) _

theorem roundRect_draws (smallW : d.width < 2^15) (smallH : d.height < 2^15) (x y width height : Nat) {radius : Nat}
    (round : radius < 2^15) (color : Pixel) (alpha : Nat) :
    ∃ S,Draws d S (painting (blendPixel d.format color alpha)) fun d => framebufferBlendRoundRect d x y width height radius color alpha := by
  by_cases off : !d.enabled ∨ !d.desktopMode ∨ !d.buffered ∨ width = 0 ∨ height = 0 ∨ alpha = 0
  · exact ⟨∅,draws_nothing _ fun clip buffer => if_pos off⟩
  by_cases outside : x ≥ d.width ∨ y ≥ d.height
  · exact ⟨∅,draws_nothing _ fun clip buffer => (if_neg off).trans (if_pos outside)⟩
  have column := @shortened_le d.width x width (by omega)
  have row := @shortened_le d.height y height (by omega)
  have fits := @fittingRadius_small radius (shortened d.width x width) (shortened d.height y height) round (by omega) (by omega)
  let r := toI32 (fittingRadius radius (shortened d.width x width) (shortened d.height y height))
  let ends (yy : Nat) := roundRow (toI32 x) (toI32 (x + shortened d.width x width - 1)) (toI32 y)
    (toI32 (y + shortened d.height y height - 1)) r yy
  have found : ∀ yy,y ≤ yy → yy < y + shortened d.height y height → ∃ pair,ends yy = some pair := by
    intro yy first last
    refine roundRow_some ?_ (by omega) ?_
    · have value : r = (fittingRadius radius (shortened d.width x width) (shortened d.height y height) : Int) :=
        toI32_small (by omega)
      omega
    · have top : toI32 y = y := toI32_small (by omega)
      have bottom : toI32 (y + shortened d.height y height - 1) = (y + shortened d.height y height - 1 : Nat) :=
        toI32_small (by omega)
      omega
  let span (yy : Nat) : Nat × Nat := (ends yy).getD (0,0)
  refine ⟨Box d.width x (shortened d.width x width) y (shortened d.height y height) ∩
    {k | (span (k / d.width)).1 ≤ k % d.width ∧ k % d.width < (span (k / d.width)).2},fun clip inside => ?_⟩
  have box := clipped_box smallW smallH column row inside fun k =>
    (span (k / d.width)).1 ≤ k % d.width ∧ k % d.width < (span (k / d.width)).2
  have columns := (clippedSide_iff smallW column inside.columns).1
  have rows := clippedSide_iff smallH row inside.rows
  generalize cs : clippedSide (columnsOf clip) x (wrap (x + shortened d.width x width)) = side at box columns
  generalize rs : clippedSide (rowsOf clip) y (wrap (y + shortened d.height y height)) = side' at box rows
  have opened (buffer : Nat → Pixel) : framebufferBlendRoundRect (d.over clip buffer) x y width height radius color alpha =
      if side.2 ≤ side.1 ∨ side'.2 ≤ side'.1 then some (d.over clip buffer)
      else onBuffer (d.over clip buffer) (forRange side'.1 side'.2 fun yy buffer =>
        (ends yy).bind fun pair => roundTurn d color alpha yy side pair buffer) := by
    rw [← cs,← rs]
    exact (if_neg off).trans (if_neg outside)
  rw [← box]
  by_cases empty : side.2 ≤ side.1 ∨ side'.2 ≤ side'.1
  · refine ⟨some,?_,fun buffer => (opened buffer).trans (if_pos empty)⟩
    have none : {k | (side.1 ≤ k % d.width ∧ k % d.width < side.2) ∧ (side'.1 ≤ k / d.width ∧ k / d.width < side'.2) ∧
        (span (k / d.width)).1 ≤ k % d.width ∧ k % d.width < (span (k / d.width)).2} = ∅ := by
      ext k
      refine ⟨fun ⟨member,member',_⟩ => ?_,nofun⟩
      omega
    rw [none]
    exact touches_nothing _
  · have lines := @touches_rows _ (painting (blendPixel d.format color alpha)) d.width side'.1 side'.2
      (fun yy buffer => (ends yy).bind fun pair => roundTurn d color alpha yy side pair buffer)
      (fun yy => max (span yy).1 side.1) (fun yy => min (span yy).2 side.2) fun yy first last => by
        have place := (rows.2 yy).mp ⟨first,last⟩
        obtain ⟨pair,made⟩ := found yy place.1.1 place.1.2
        have its : span yy = pair := by
          change (ends yy).getD (0,0) = pair
          rw [made]
          rfl
        rw [its,made]
        exact roundTurn_touches (by omega) smallW columns pair color alpha
    have same : {k | (side.1 ≤ k % d.width ∧ k % d.width < side.2) ∧ (side'.1 ≤ k / d.width ∧ k / d.width < side'.2) ∧
        (span (k / d.width)).1 ≤ k % d.width ∧ k % d.width < (span (k / d.width)).2} =
        {k | side'.1 ≤ k / d.width ∧ k / d.width < side'.2 ∧ max (span (k / d.width)).1 side.1 ≤ k % d.width ∧
          k % d.width < min (span (k / d.width)).2 side.2} := by
      ext k
      constructor
      · intro ⟨⟨a,b⟩,⟨c,e⟩,low,high⟩
        exact ⟨c,e,Nat.max_le.mpr ⟨low,a⟩,Nat.lt_min.mpr ⟨high,b⟩⟩
      · intro ⟨c,e,low,high⟩
        exact ⟨⟨(Nat.max_le.mp low).2,(Nat.lt_min.mp high).2⟩,⟨c,e⟩,(Nat.max_le.mp low).1,(Nat.lt_min.mp high).1⟩
    rw [same]
    exact ⟨_,lines,fun buffer => (opened buffer).trans (if_neg empty)⟩

end Blend

section Circle
variable {d : Display} {clip : Option Rect}

theorem circleClip_iff {clip : Option (Nat × Nat)} {screen : Nat} (small : screen < 2^15) (inside : ∀ c ∈ clip,c.1 + c.2 ≤ screen) :
    (0 ≤ (circleClip clip screen).1 ∧ (circleClip clip screen).2 ≤ screen) ∧
      ∀ p : Nat,((circleClip clip screen).1 ≤ p ∧ p < (circleClip clip screen).2) ↔ p < screen ∧ OnSide clip p := by
  match clip with
  | none =>
    have all : toI32 screen = screen := toI32_small (by omega)
    unfold circleClip OnSide
    dsimp only
    rw [all]
    refine ⟨by omega,fun p => ?_⟩
    rw [and_true]
    omega
  | some (clipX,clipW) =>
    have clip_end : clipX + clipW ≤ screen := inside _ rfl
    have first : toI32 clipX = clipX := toI32_small (by omega)
    have last : toI32 (wrap (clipX + clipW)) = (clipX + clipW : Nat) := by
      rw [wrap_of_small (by omega),toI32_small (by omega)]
    unfold circleClip OnSide
    dsimp only
    rw [first,last]
    exact ⟨by omega,fun p => by omega⟩

/-- The square of half the length of row `yy` of a circle. -/
def chord (cy : Nat) (r yy : Int) : Int := r * r - (yy - toI32 cy) * (yy - toI32 cy)

def halfRow (cy : Nat) (r yy : Int) : Int := toI32 ((isqrtU32 (toU32 (chord cy r yy))).getD 0)

/-- The places of row `yy` of a circle between two columns. -/
def circlePlaces (width cx cy : Nat) (r cl cr yy : Int) : Set Nat :=
  {k | ((k / width : Nat) : Int) = yy ∧ 0 ≤ chord cy r yy ∧ max (toI32 cx - halfRow cy r yy) cl ≤ ((k % width : Nat) : Int) ∧
    ((k % width : Nat) : Int) < min (toI32 cx + halfRow cy r yy + 1) cr}

theorem circleRow_touches {cx cy : Nat} {r cl cr : Int} (round : 0 ≤ r ∧ r < 2^15) (smallW : d.width < 2^15)
    (columns : 0 ≤ cl ∧ cr ≤ d.width) {yy : Int} (row : 0 ≤ yy ∧ yy < 2^15) (color : Pixel) (alpha : Nat) :
    Touches (circlePlaces d.width cx cy r cl cr yy) (painting (blendPixel d.format color alpha))
      (circleRow d cx cy r cl cr color alpha yy) := by
  by_cases beyond : chord cy r yy < 0
  · have none : circlePlaces d.width cx cy r cl cr yy = ∅ := by
      ext k
      refine ⟨fun ⟨_,low,_⟩ => ?_,nofun⟩
      omega
    have turn (buffer : Nat → Pixel) : circleRow d cx cy r cl cr color alpha yy buffer = some buffer := if_pos beyond
    rw [none,funext turn]
    exact touches_nothing _
  have square : r * r ≤ 2^15 * 2^15 := Int.mul_le_mul (by omega) (by omega) round.1 (by omega)
  have positive : 0 ≤ (yy - toI32 cy) * (yy - toI32 cy) := mul_self_nonneg _
  have low : chord cy r yy ≤ 2^30 := by
    unfold chord
    omega
  obtain ⟨root,made⟩ := @isqrtU32_some (toU32 (chord cy r yy)) (by
    rw [toU32_small (by omega) (by omega)]
    omega)
  have half : halfRow cy r yy = toI32 root := by rw [halfRow,made]; rfl
  have from_ : (if toI32 cx - toI32 root < cl then cl else toI32 cx - toI32 root) = max (toI32 cx - toI32 root) cl := by
    split
    · omega
    · omega
  have to_ : (if toI32 cx + toI32 root + 1 > cr then cr else toI32 cx + toI32 root + 1) = min (toI32 cx + toI32 root + 1) cr := by
    split
    · omega
    · omega
  have turn (buffer : Nat → Pixel) : circleRow d cx cy r cl cr color alpha yy buffer =
      if min (toI32 cx + toI32 root + 1) cr > max (toI32 cx - toI32 root) cl then
        blendSpan d.format (wrap (toU32 yy * d.width) + toU32 (max (toI32 cx - toI32 root) cl))
          (toU32 (min (toI32 cx + toI32 root + 1) cr - max (toI32 cx - toI32 root) cl)) color alpha buffer
      else some buffer := by
    rw [← from_,← to_]
    refine (if_neg beyond).trans ?_
    change (isqrtU32 (toU32 (chord cy r yy))).bind _ = _
    rw [made]
    rfl
  unfold circlePlaces
  rw [half]
  have first : 0 ≤ max (toI32 cx - toI32 root) cl := by omega
  have last : min (toI32 cx + toI32 root + 1) cr ≤ d.width := by omega
  generalize max (toI32 cx - toI32 root) cl = sx at turn first
  generalize min (toI32 cx + toI32 root + 1) cr = ex at turn last
  have places : {k | ((k / d.width : Nat) : Int) = yy ∧ 0 ≤ chord cy r yy ∧ sx ≤ ((k % d.width : Nat) : Int) ∧
      ((k % d.width : Nat) : Int) < ex} = Span d.width yy.toNat sx.toNat ex.toNat := by
    ext k
    constructor
    · intro ⟨same,_,from_x,to_x⟩
      exact ⟨by omega,by omega,by omega⟩
    · intro ⟨same,from_x,to_x⟩
      exact ⟨by omega,by omega,by omega,by omega⟩
  rw [places]
  by_cases wide : ex > sx
  · have line := @blendSpan_touches d.width yy.toNat sx.toNat ex.toNat (by omega) smallW (by omega) d.format color alpha
    have length : toU32 (ex - sx) = ex.toNat - sx.toNat := by
      rw [toU32_small (by omega) (by omega)]
      omega
    have drawn (buffer : Nat → Pixel) := (turn buffer).trans (if_pos wide)
    rw [toU32_small row.1 (by omega),toU32_small first (by omega),length] at drawn
    rw [funext drawn]
    exact line
  · rw [funext fun buffer => (turn buffer).trans (if_neg wide)]
    exact touches_none (by omega) _

theorem circle_draws (smallW : d.width < 2^15) (smallH : d.height < 2^15) (cx cy : Nat) {radius : Nat} (round : radius < 2^15)
    (color : Pixel) (alpha : Nat) :
    ∃ S,Draws d S (painting (blendPixel d.format color alpha)) fun d => framebufferBlendCircle d cx cy radius color alpha := by
  by_cases off : !d.enabled ∨ !d.desktopMode ∨ !d.buffered ∨ radius = 0 ∨ alpha = 0
  · exact ⟨∅,draws_nothing _ fun clip buffer => if_pos off⟩
  have its : toI32 radius = radius := toI32_small (by omega)
  let r := toI32 radius
  let inRow (yy p : Int) := 0 ≤ chord cy r yy ∧ toI32 cx - halfRow cy r yy ≤ p ∧ p < toI32 cx + halfRow cy r yy + 1
  refine ⟨{k | (k % d.width < d.width ∧ k / d.width < d.height) ∧
    (toI32 cy - r ≤ ((k / d.width : Nat) : Int) ∧ ((k / d.width : Nat) : Int) < toI32 cy + r + 1) ∧
      inRow ((k / d.width : Nat) : Int) ((k % d.width : Nat) : Int)},fun clip inside => ?_⟩
  have columns := circleClip_iff smallW inside.columns
  have rows := circleClip_iff smallH inside.rows
  generalize cs : circleClip (columnsOf clip) d.width = side at columns
  generalize rs : circleClip (rowsOf clip) d.height = side' at rows
  let y₀ := if toI32 cy - r < side'.1 then side'.1 else toI32 cy - r
  let y₁ := if toI32 cy + r + 1 > side'.2 then side'.2 else toI32 cy + r + 1
  have y₀_eq : y₀ = max (toI32 cy - r) side'.1 := by
    unfold y₀
    split
    · omega
    · omega
  have y₁_eq : y₁ = min (toI32 cy + r + 1) side'.2 := by
    unfold y₁
    split
    · omega
    · omega
  have opened (buffer : Nat → Pixel) : framebufferBlendCircle (d.over clip buffer) cx cy radius color alpha =
      onBuffer (d.over clip buffer) (forEach ((List.range (y₁ - y₀).toNat).map fun i : Nat => y₀ + i)
        (circleRow d cx cy r side.1 side.2 color alpha)) := by
    unfold y₀ y₁
    rw [← cs,← rs]
    exact if_neg off
  have lines := @Touches.forEach _ _ (painting (blendPixel d.format color alpha)) (circlePlaces d.width cx cy r side.1 side.2)
    (circleRow d cx cy r side.1 side.2 color alpha) ((List.range (y₁ - y₀).toNat).map fun i : Nat => y₀ + i)
    (by
      intro yy member
      obtain ⟨i,below,rfl⟩ := List.mem_map.mp member
      have range := List.mem_range.mp below
      exact circleRow_touches (by omega) smallW columns.1 (by omega) color alpha)
    (by
      rw [List.pairwise_map]
      refine List.Pairwise.imp ?_ List.pairwise_lt_range
      intro i j less
      rw [Set.disjoint_left]
      rintro k ⟨row,_⟩ ⟨row',_⟩
      omega)
  refine ⟨_,?_,opened⟩
  have same : {k | (k % d.width < d.width ∧ k / d.width < d.height) ∧
      (toI32 cy - r ≤ ((k / d.width : Nat) : Int) ∧ ((k / d.width : Nat) : Int) < toI32 cy + r + 1) ∧
        inRow ((k / d.width : Nat) : Int) ((k % d.width : Nat) : Int)} ∩ clipPlaces d.width clip =
      {k | ∃ yy ∈ (List.range (y₁ - y₀).toNat).map fun i : Nat => y₀ + i,k ∈ circlePlaces d.width cx cy r side.1 side.2 yy} := by
    ext k
    constructor
    · intro ⟨⟨⟨inX,inY⟩,⟨low,high⟩,some_,left,right⟩,onX,onY⟩
      have x := (columns.2 _).mpr ⟨inX,onX⟩
      have y := (rows.2 _).mpr ⟨inY,onY⟩
      refine ⟨((k / d.width : Nat) : Int),List.mem_map.mpr ⟨(((k / d.width : Nat) : Int) - y₀).toNat,List.mem_range.mpr (by omega),by omega⟩,
        rfl,some_,by omega,by omega⟩
    · rintro ⟨yy,member,row,some_,left,right⟩
      obtain ⟨i,below,rfl⟩ := List.mem_map.mp member
      have range := List.mem_range.mp below
      rw [← row] at some_ left right
      have x := (columns.2 (k % d.width)).mp ⟨by omega,by omega⟩
      have y := (rows.2 (k / d.width)).mp ⟨by omega,by omega⟩
      exact ⟨⟨⟨x.1,y.1⟩,⟨by omega,by omega⟩,some_,by omega,by omega⟩,x.2,y.2⟩
  rw [same]
  exact lines

end Circle

section Blit
variable {d : Display}

/-- The part of a side of the square that is drawn, counted from its start. -/
theorem blitSide {clip : Option (Nat × Nat)} {screen x size : Nat} (small : screen < 2^15) (place : x < 2^15) (some_ : size < 2^15)
    (inside : ∀ c ∈ clip,c.1 + c.2 ≤ screen) :
    if wrap (x + blitStart clip x) ≥ screen ∨ blitEnd clip x size ≤ blitStart clip x then
      ∀ p,¬(((x ≤ p ∧ p < x + size) ∧ p < screen) ∧ OnSide clip p)
    else ∃ last,(if blitEnd clip x size > wrap (screen + 2^32 - x) then wrap (screen + 2^32 - x) else blitEnd clip x size) = last ∧
      x + last ≤ screen ∧
        ∀ p,(x + blitStart clip x ≤ p ∧ p < x + last) ↔ ((x ≤ p ∧ p < x + size) ∧ p < screen) ∧ OnSide clip p := by
  match clip with
  | none =>
    unfold blitStart blitEnd OnSide wrap
    dsimp only
    split
    · intro p
      rw [and_true]
      omega
    · refine ⟨_,rfl,?_,fun p => ?_⟩
      · split
        · omega
        · omega
      · rw [and_true]
        split
        · omega
        · omega
  | some (clipX,clipW) =>
    have clip_end : clipX + clipW ≤ screen := inside _ rfl
    have start : blitStart (some (clipX,clipW)) x = clipX - x := by
      unfold blitStart
      dsimp only
      split
      · rfl
      · omega
    have stop : blitEnd (some (clipX,clipW)) x size = min size (clipX + clipW - x) := by
      unfold blitEnd wrap
      dsimp only
      split
      · split
        · omega
        · omega
      · omega
    rw [start,stop]
    unfold OnSide wrap
    split
    · intro p
      omega
    · refine ⟨_,rfl,?_,fun p => ?_⟩
      · split
        · omega
        · omega
      · split
        · omega
        · omega

/-- What a blit makes of the pixel at place `k` of the buffer. -/
def blitAt (d : Display) (pixels : Nat → Pixel) (width height x y size k : Nat) (dst : Pixel) : Option Pixel :=
  (sample (k / d.width - y) height size).bind fun sy =>
    (sample (k % d.width - x) width size).bind fun sx => blitPixel d.format pixels width sy sx dst

/-- A turn of the inner loop of the blit. -/
theorem blit_turn (d : Display) (pixels : Nat → Pixel) {width height x y size dx dy : Nat} (some_ : size ≠ 0) {sy : Sample}
    (row : sample dy height size = some sy) (smallW : d.width < 2^15) (column : x + dx < d.width) (low : y + dy < 2^15) :
    Touches {(y + dy) * d.width + (x + dx)} (blitAt d pixels width height x y size) fun buffer =>
      (sample dx width size).bind fun sx =>
        (blitPixel d.format pixels width sy sx (buffer (wrap (wrap (wrap (y + dy) * d.width) + wrap (x + dx))))).map
          (Function.update buffer (wrap (wrap (wrap (y + dy) * d.width) + wrap (x + dx)))) := by
  have product : (y + dy) * d.width ≤ 2^15 * 2^15 := Nat.mul_le_mul (Nat.le_of_lt low) (Nat.le_of_lt smallW)
  have place : wrap (wrap (wrap (y + dy) * d.width) + wrap (x + dx)) = (y + dy) * d.width + (x + dx) := by
    rw [@wrap_of_small (y + dy) (by omega),@wrap_of_small (x + dx) (by omega),line_small low smallW,wrap_of_small (by omega)]
  obtain ⟨sx,sampled,_⟩ := sample_some dx width some_
  have its (dst : Pixel) : blitAt d pixels width height x y size ((y + dy) * d.width + (x + dx)) dst =
      blitPixel d.format pixels width sy sx dst := by
    rw [blitAt,place_div column,place_mod column,Nat.add_sub_cancel_left,Nat.add_sub_cancel_left,row,sampled]
    rfl
  have one := touches_one (blitAt d pixels width height x y size) ((y + dy) * d.width + (x + dx))
  simp only [its] at one
  rw [place,sampled]
  exact one

theorem blit_draws (smallW : d.width < 2^15) (smallH : d.height < 2^15) (pixels : Nat → Pixel) (width height : Nat) {x y size : Nat}
    (column : x < 2^15) (row : y < 2^15) (square : size < 2^15) :
    ∃ S,Draws d S (blitAt d pixels width height x y size) fun d => framebufferBlitRgba32 d pixels width height x y size := by
  by_cases off : !d.enabled ∨ !d.desktopMode ∨ !d.buffered ∨ width = 0 ∨ height = 0 ∨ size = 0
  · exact ⟨∅,draws_nothing _ fun clip buffer => if_pos off⟩
  have some_ : size ≠ 0 := by omega
  refine ⟨{k | ((x ≤ k % d.width ∧ k % d.width < x + size) ∧ k % d.width < d.width) ∧
    (y ≤ k / d.width ∧ k / d.width < y + size) ∧ k / d.width < d.height},fun clip inside => ?_⟩
  have columns := @blitSide (columnsOf clip) d.width x size smallW column square inside.columns
  have rows := @blitSide (rowsOf clip) d.height y size smallH row square inside.rows
  by_cases gone : wrap (x + blitStart (columnsOf clip) x) ≥ d.width ∨ wrap (y + blitStart (rowsOf clip) y) ≥ d.height ∨
      blitEnd (columnsOf clip) x size ≤ blitStart (columnsOf clip) x ∨ blitEnd (rowsOf clip) y size ≤ blitStart (rowsOf clip) y
  · have none : {k | ((x ≤ k % d.width ∧ k % d.width < x + size) ∧ k % d.width < d.width) ∧
        (y ≤ k / d.width ∧ k / d.width < y + size) ∧ k / d.width < d.height} ∩ clipPlaces d.width clip = ∅ := by
      ext k
      refine ⟨fun ⟨⟨inX,inY⟩,onX,onY⟩ => ?_,nofun⟩
      by_cases side : wrap (x + blitStart (columnsOf clip) x) ≥ d.width ∨ blitEnd (columnsOf clip) x size ≤ blitStart (columnsOf clip) x
      · rw [if_pos side] at columns
        exact columns _ ⟨inX,onX⟩
      · rw [if_pos (by omega)] at rows
        exact rows _ ⟨inY,onY⟩
    rw [none]
    exact ⟨some,touches_nothing _,fun buffer => (if_neg off).trans (if_pos gone)⟩
  rw [if_neg (by omega)] at columns
  rw [if_neg (by omega)] at rows
  obtain ⟨lastX,endX,fitX,inX⟩ := columns
  obtain ⟨lastY,endY,fitY,inY⟩ := rows
  generalize startX : blitStart (columnsOf clip) x = firstX at endX inX
  generalize startY : blitStart (rowsOf clip) y = firstY at endY inY
  let body (dy : Nat) (buffer : Nat → Pixel) : Option (Nat → Pixel) :=
    (sample dy height size).bind fun sy => forRange firstX lastX (fun dx buffer =>
      (sample dx width size).bind fun sx =>
        (blitPixel d.format pixels width sy sx (buffer (wrap (wrap (wrap (y + dy) * d.width) + wrap (x + dx))))).map
          (Function.update buffer (wrap (wrap (wrap (y + dy) * d.width) + wrap (x + dx))))) buffer
  have opened (buffer : Nat → Pixel) : framebufferBlitRgba32 (d.over clip buffer) pixels width height x y size =
      onBuffer (d.over clip buffer) (forRange firstY lastY body) := by
    unfold body
    rw [← endX,← endY,← startX,← startY]
    exact (if_neg off).trans (if_neg gone)
  have lines : Touches {k | (x + firstX ≤ k % d.width ∧ k % d.width < x + lastX) ∧ y + firstY ≤ k / d.width ∧ k / d.width < y + lastY}
      (blitAt d pixels width height x y size) (forRange firstY lastY body) := by
    rw [funext fun buffer => forRange_shift y firstY lastY body buffer]
    refine touches_box fun yy low high => ?_
    have at_row : y + (yy - y) = yy := by omega
    obtain ⟨sy,sampled,_⟩ := sample_some (yy - y) height some_
    unfold body
    rw [sampled]
    refine touches_line (fun i _ below => @blit_turn d pixels width height x y size i (yy - y) some_ sy sampled smallW (by omega) (by omega))
      fitX (by omega) fun i from_ _ => ?_
    rw [at_row]
    omega
  refine ⟨_,?_,opened⟩
  have same : {k | ((x ≤ k % d.width ∧ k % d.width < x + size) ∧ k % d.width < d.width) ∧
      (y ≤ k / d.width ∧ k / d.width < y + size) ∧ k / d.width < d.height} ∩ clipPlaces d.width clip =
      {k | (x + firstX ≤ k % d.width ∧ k % d.width < x + lastX) ∧ y + firstY ≤ k / d.width ∧ k / d.width < y + lastY} := by
    ext k
    constructor
    · intro ⟨⟨x',y'⟩,onX,onY⟩
      exact ⟨(inX _).mpr ⟨x',onX⟩,(inY _).mpr ⟨y',onY⟩⟩
    · intro ⟨x',y'⟩
      have both := (inX _).mp x'
      have both' := (inY _).mp y'
      exact ⟨⟨both.1,both'.1⟩,both.2,both'.2⟩
  rw [same]
  exact lines

end Blit

section Calls
variable {d : Display}

/-- The calls that draw into the desktop buffer. -/
inductive DrawCall
  | fillRect (x y width height : Nat) (color : Pixel)
  | blitRgba32 (pixels : Nat → Pixel) (width height x y size : Nat)
  | blendRect (x y width height : Nat) (color : Pixel) (alpha : Byte)
  | blendRoundRect (x y width height radius : Nat) (color : Pixel) (alpha : Byte)
  | blendCircle (cx cy radius : Nat) (color : Pixel) (alpha : Byte)

def DrawCall.run : DrawCall → Display → Option Display
  | .fillRect x y width height color, d => framebufferFillRect d x y width height color
  | .blitRgba32 pixels width height x y size, d => framebufferBlitRgba32 d pixels width height x y size
  | .blendRect x y width height color alpha, d => framebufferBlendRect d x y width height color alpha.toNat
  | .blendRoundRect x y width height radius color alpha, d => framebufferBlendRoundRect d x y width height radius color alpha.toNat
  | .blendCircle cx cy radius color alpha, d => framebufferBlendCircle d cx cy radius color alpha.toNat

/-- The coordinates and sizes are below 2^15. -/
def DrawCall.Small : DrawCall → Prop
  | .fillRect x y width height _ | .blendRect x y width height _ _ => x < 2^15 ∧ y < 2^15 ∧ width < 2^15 ∧ height < 2^15
  | .blitRgba32 _ width height x y size => width < 2^15 ∧ height < 2^15 ∧ x < 2^15 ∧ y < 2^15 ∧ size < 2^15
  | .blendRoundRect x y width height radius _ _ => x < 2^15 ∧ y < 2^15 ∧ width < 2^15 ∧ height < 2^15 ∧ radius < 2^15
  | .blendCircle cx cy radius _ _ => cx < 2^15 ∧ cy < 2^15 ∧ radius < 2^15

/-- A blit divides by the masks of the pixel format. -/
def DrawCall.Divides (format : PixelFormat) : DrawCall → Prop
  | .blitRgba32 .. => format.Divides
  | _ => True

/-- Each call changes some pixels of the buffer, each on its own. -/
theorem DrawCall.draws (desk : d.desktopMode) (smallW : d.width < 2^15) (smallH : d.height < 2^15) (c : DrawCall) (small : c.Small) :
    ∃ S f,Draws d S f c.run := by
  cases c with
  | fillRect x y width height color =>
    obtain ⟨S,draws⟩ := fillRect_draws desk smallW smallH x y width height color
    exact ⟨S,_,draws⟩
  | blitRgba32 pixels width height x y size =>
    obtain ⟨S,draws⟩ := blit_draws smallW smallH pixels width height small.2.2.1 small.2.2.2.1 small.2.2.2.2
    exact ⟨S,_,draws⟩
  | blendRect x y width height color alpha =>
    obtain ⟨S,draws⟩ := blendRect_draws smallW smallH x y width height color alpha.toNat
    exact ⟨S,_,draws⟩
  | blendRoundRect x y width height radius color alpha =>
    obtain ⟨S,draws⟩ := roundRect_draws smallW smallH x y width height small.2.2.2.2 color alpha.toNat
    exact ⟨S,_,draws⟩
  | blendCircle cx cy radius color alpha =>
    obtain ⟨S,draws⟩ := circle_draws smallW smallH cx cy small.2.2 color alpha.toNat
    exact ⟨S,_,draws⟩

theorem Draws.returns {S : Set Nat} {call : Display → Option Display} {g : Pixel → Pixel} (draws : Draws d S (painting g) call)
    {clip : Option Rect} (inside : Inside d clip) (buffer : Nat → Pixel) : ∃ r,call (d.over clip buffer) = some r := by
  obtain ⟨op,touches,same⟩ := draws clip inside
  obtain ⟨result,done⟩ := touches.returns (fun _ _ p => ⟨g p,rfl⟩) buffer
  exact ⟨_,by rw [same,done]; rfl⟩

theorem inside_none : Inside d none := nofun

/-- A call returns unless it is a blit that divides by a mask 0. -/
theorem DrawCall.returns (desk : d.desktopMode) (smallW : d.width < 2^15) (smallH : d.height < 2^15) (c : DrawCall) (small : c.Small)
    (divides : c.Divides d.format) : ∃ r,c.run (framebufferClearClip d) = some r := by
  cases c with
  | fillRect x y width height color =>
    obtain ⟨S,draws⟩ := fillRect_draws desk smallW smallH x y width height color
    exact draws.returns inside_none d.desktopBuffer
  | blitRgba32 pixels width height x y size => exact @framebufferBlitRgba32_returns (framebufferClearClip d) divides pixels width height x y size
  | blendRect x y width height color alpha =>
    obtain ⟨S,draws⟩ := blendRect_draws smallW smallH x y width height color alpha.toNat
    exact draws.returns inside_none d.desktopBuffer
  | blendRoundRect x y width height radius color alpha =>
    obtain ⟨S,draws⟩ := roundRect_draws smallW smallH x y width height small.2.2.2.2 color alpha.toNat
    exact draws.returns inside_none d.desktopBuffer
  | blendCircle cx cy radius color alpha =>
    obtain ⟨S,draws⟩ := circle_draws smallW smallH cx cy small.2.2 color alpha.toNat
    exact draws.returns inside_none d.desktopBuffer

/-- One call after the other. -/
def drawAll (calls : List DrawCall) : Display → Option Display := forEach calls DrawCall.run

/-- What a row of calls leaves with a clip rectangle: inside what it leaves without one, from
buffers that agree there, and outside what was there. -/
theorem drawAll_restricts (desk : d.desktopMode) (smallW : d.width < 2^15) (smallH : d.height < 2^15) {clip : Option Rect}
    (inside : Inside d clip) {calls : List DrawCall} (small : ∀ c ∈ calls,c.Small) {buffer buffer' : Nat → Pixel}
    (agree : ∀ k ∈ clipPlaces d.width clip,buffer' k = buffer k) {r : Display} (done : drawAll calls (d.over none buffer) = some r) :
    ∃ r',drawAll calls (d.over clip buffer') = some r' ∧
      (∀ k ∈ clipPlaces d.width clip,r'.desktopBuffer k = r.desktopBuffer k) ∧
        ∀ k ∉ clipPlaces d.width clip,r'.desktopBuffer k = buffer' k := by
  have all : clipPlaces d.width none = Set.univ := Set.eq_univ_of_forall fun _ => ⟨trivial,trivial⟩
  induction calls generalizing buffer buffer' with
  | nil =>
    cases done
    exact ⟨_,rfl,agree,fun _ _ => rfl⟩
  | cons c rest ih =>
    obtain ⟨S,f,draws⟩ := c.draws desk smallW smallH (small c (List.mem_cons_self ..))
    obtain ⟨whole,touches,same⟩ := draws none inside_none
    obtain ⟨part,touches',same'⟩ := draws clip inside
    rw [all,Set.inter_univ] at touches
    rw [drawAll,forEach_cons,same] at done
    obtain ⟨next,made,later⟩ := Option.bind_eq_some_iff.mp done
    obtain ⟨result,drawn,rfl⟩ := Option.map_eq_some_iff.mp made
    obtain ⟨result',drawn',equal,kept⟩ := touches.restrict touches' agree drawn
    obtain ⟨r',done',within,outside⟩ := ih (fun c member => small c (List.mem_cons_of_mem _ member)) equal later
    refine ⟨r',?_,within,fun k beyond => (outside k beyond).trans (kept k beyond)⟩
    rw [drawAll,forEach_cons,same',drawn']
    exact done'

end Calls

/-- In the rectangle an operation leaves, with it as the clip rectangle, what it leaves with
clipping disabled, and everywhere else it leaves what was there. -/
def Restricts (d : Display) (x y width height : Nat) (op : Display → Option Display) : Prop :=
  ∀ r,op (framebufferClearClip d) = some r → ∃ r',op (framebufferSetClip d x y width height) = some r' ∧
    ∀ px py,px < d.width → py < d.height → r'.desktopBuffer (py * d.width + px) =
      if (x ≤ px ∧ px < x + width) ∧ y ≤ py ∧ py < y + height then r.desktopBuffer (py * d.width + px)
      else d.desktopBuffer (py * d.width + px)

theorem drawAll_setClip {d : Display} (desk : d.desktopMode) (smallW : d.width < 2^15) (smallH : d.height < 2^15) {x y width height : Nat}
    (nonempty : width ≠ 0 ∧ height ≠ 0) (meets : x < d.width ∧ y < d.height) {calls : List DrawCall} (small : ∀ c ∈ calls,c.Small) :
    Restricts d x y width height (drawAll calls) := by
  intro r done
  have column := @shortened_le d.width x width meets.1
  have row := @shortened_le d.height y height meets.2
  have set : framebufferSetClip d x y width height =
      d.over (some ⟨x,y,shortened d.width x width,shortened d.height y height⟩) d.desktopBuffer := if_neg (by omega)
  have positive : 0 < shortened d.width x width ∧ 0 < shortened d.height y height := by
    unfold shortened
    constructor
    · split
      · omega
      · omega
    · split
      · omega
      · omega
  have inside : Inside d (some ⟨x,y,shortened d.width x width,shortened d.height y height⟩) := by
    rintro c ⟨⟩
    exact ⟨⟨positive.1,column⟩,positive.2,row⟩
  obtain ⟨r',done',within,outside⟩ := drawAll_restricts desk smallW smallH inside small (fun _ _ => rfl) done
  refine ⟨r',by rw [set]; exact done',fun px py inX inY => ?_⟩
  have member : py * d.width + px ∈ clipPlaces d.width (some ⟨x,y,shortened d.width x width,shortened d.height y height⟩) ↔
      (x ≤ px ∧ px < x + width) ∧ y ≤ py ∧ py < y + height := by
    change ((x ≤ _ ∧ _ < x + shortened d.width x width) ∧ (y ≤ _ ∧ _ < y + shortened d.height y height)) ↔ _
    rw [place_div inX,place_mod inX]
    unfold shortened
    split
    · split
      · omega
      · omega
    · split
      · omega
      · omega
  by_cases clipped : (x ≤ px ∧ px < x + width) ∧ y ≤ py ∧ py < y + height
  · rw [if_pos clipped]
    exact within _ (member.mpr clipped)
  · rw [if_neg clipped]
    exact outside _ (mt member.mp clipped)

/-- Clipping is restriction, for every call and every row of calls. -/
theorem clipping_restricts {d : Display} (desk : d.desktopMode) (smallW : d.width < 2^15) (smallH : d.height < 2^15)
    {x y width height : Nat} (nonempty : width ≠ 0 ∧ height ≠ 0) (meets : x < d.width ∧ y < d.height) :
    (∀ c : DrawCall,c.Small → Restricts d x y width height c.run ∧
      (c.Divides d.format → ∃ r,c.run (framebufferClearClip d) = some r)) ∧
      ∀ calls : List DrawCall,(∀ c ∈ calls,c.Small) → Restricts d x y width height (drawAll calls) := by
  refine ⟨fun c small => ⟨?_,c.returns desk smallW smallH small⟩,fun calls small => drawAll_setClip desk smallW smallH nonempty meets small⟩
  have one := @drawAll_setClip d desk smallW smallH x y width height nonempty meets [c] (by simpa using small)
  have same : drawAll [c] = c.run := by
    funext e
    exact Option.bind_fun_some (c.run e)
  rwa [same] at one

/-- The right half of a screen of high colour. -/
theorem clipping_restricts_highColor :
    (∀ c : DrawCall,c.Small → Restricts highColor 320 0 400 480 c.run ∧
      (c.Divides highColor.format → ∃ r,c.run (framebufferClearClip highColor) = some r)) ∧
      ∀ calls : List DrawCall,(∀ c ∈ calls,c.Small) → Restricts highColor 320 0 400 480 (drawAll calls) :=
  clipping_restricts rfl (by decide) (by decide) (by decide) (by decide)

end LionOS.Video

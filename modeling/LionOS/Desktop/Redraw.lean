import LionOS.Library.Simulation
import LionOS.Video.Cursor
import LionOS.Video.Present

/-! The desktop is drawn again only where it is dirty: what the user sees is nevertheless the whole
drawing of the scene. -/
namespace LionOS.Desktop
open LionOS.Library LionOS.Video
open LionOS.Physical (Byte)
open LionOS.Processes (wrap)

/-- What there is to be drawn: the wallpaper by its address, and over it the calls that the icons,
the windows, the taskbar, the start menu and the cursor make. -/
structure Scene where
  source : Nat
  calls : List DrawCall

/-- The screen with its cursor, and the statics of the redrawing. A dirty rectangle is valid when there is one. -/
structure Desk where
  overlay : Overlay
  cache : Option Wallpaper
  sceneDirty : Bool
  dirty : Option Rect
  lastRenderTick : BitVec 32
  scene : Scene

def dirtyFull (s : Desk) : Desk :=
  { s with sceneDirty := true,dirty := some ⟨0,0,s.overlay.display.width,s.overlay.display.height⟩ }

/-- The rectangle around two rectangles. -/
def joined (o r : Rect) : Rect :=
  let left := if o.x < r.x then o.x else r.x
  let top := if o.y < r.y then o.y else r.y
  let right := if wrap (o.x + o.width) > wrap (r.x + r.width) then wrap (o.x + o.width) else wrap (r.x + r.width)
  let bottom := if wrap (o.y + o.height) > wrap (r.y + r.height) then wrap (o.y + o.height) else wrap (r.y + r.height)
  ⟨left,top,wrap (right + 2^32 - left),wrap (bottom + 2^32 - top)⟩

def dirtyRect (s : Desk) (x y w h : Nat) : Desk :=
  let sw := s.overlay.display.width
  let sh := s.overlay.display.height
  if w = 0 ∨ h = 0 then s
  else if x ≥ sw ∨ y ≥ sh then s
  else
    let w := if w > sw - x then sw - x else w
    let h := if h > sh - y then sh - y else h
    match s.dirty with
    | none => { s with sceneDirty := true,dirty := some ⟨x,y,w,h⟩ }
    | some o => { s with sceneDirty := true,dirty := some (joined o ⟨x,y,w,h⟩) }

/-- The bar at the top, which `draw_desktop_background` draws over the wallpaper. -/
def topBar (d : Display) : DrawCall := .blendRect 0 0 d.width 42 0x050A12 18

/-- The part of `render_all` that draws the rectangle `r`. -/
def renderRect (pictures : Nat → Picture) (s : Desk) (r : Rect) (now : BitVec 32) (block : Option (Nat → Pixel)) : Option Desk := do
  let o := framebufferCursorHide s.overlay
  let d ← framebufferRestoreWallpaperRect o.display s.cache r.x r.y r.width r.height
  let (d,cache) ← framebufferBlitRgb565Cover pictures (framebufferSetClip d r.x r.y r.width r.height) s.cache s.scene.source block
  let d ← drawAll (topBar d::s.scene.calls) d
  some { s with
    overlay := { o with display := framebufferPresentRect (framebufferClearClip d) r.x r.y r.width r.height }
    cache,sceneDirty := false,dirty := none,lastRenderTick := now }

/-- `render_all` while the browser is not active. -/
def renderAll (pictures : Nat → Picture) (s : Desk) (now : BitVec 32) (block : Option (Nat → Pixel)) : Option Desk :=
  if s.lastRenderTick ≠ 0xFFFFFFFF ∧ now - s.lastRenderTick < 1 then some s
  else if !s.sceneDirty then some s
  else match s.dirty with
    | none => some s
    | some r => renderRect pictures s r now block

inductive DeskEvent
  /-- The scene becomes another one, and what is dirty is reported. -/
  | full (next : Scene)
  | rect (x y w h : Nat) (next : Scene)
  | render (now : BitVec 32) (block : Option (Nat → Pixel))
  | cursor (call : CursorCall)

def deskStep (pictures : Nat → Picture) (e : DeskEvent) (s : Desk) : Option Desk :=
  match e with
  | .full next => some (dirtyFull { s with scene := next })
  | .rect x y w h next => some (dirtyRect { s with scene := next } x y w h)
  | .render now block => renderAll pictures s now block
  | .cursor call => some { s with overlay := cursorStep s.overlay call }

/-- What the events alone decide. -/
def nextScene (scene : Scene) : DeskEvent → Scene
  | .full next | .rect _ _ _ _ next => next
  | _ => scene

/-- The whole drawing of a scene. -/
def wholeDrawing (pictures : Nat → Picture) (d : Display) (scene : Scene) : Option (Nat → Pixel) :=
  (drawAll (topBar d::scene.calls) (d.over none (covering d (pictures scene.source)))).map Display.desktopBuffer

/-- A scene that the calls can draw. -/
structure Drawable (pictures : Nat → Picture) (d : Display) (scene : Scene) : Prop where
  given : scene.source ≠ 0
  picture : (pictures scene.source).Small
  small : ∀ c ∈ scene.calls, c.Small
  divides : ∀ c ∈ scene.calls, c.Divides d.format

/-- The code that reports a rectangle has changed nothing outside of it. -/
def Reported (pictures : Nat → Picture) (d : Display) (scene : Scene) : DeskEvent → Prop
  | .full next => Drawable pictures d next
  | .rect x y w h next => Drawable pictures d next ∧ ∀ old new, wholeDrawing pictures d scene = some old →
      wholeDrawing pictures d next = some new → ∀ k ∈ ScreenPlaces d, k ∉ Box d.width x w y h → new k = old k
  | .render _ block => block.isSome
  | .cursor _ => True

/-- The bytes that the framebuffer holds for a pixel, by its place in the desktop buffer. -/
def shownPixel (d : Display) (k : Nat) : List Byte :=
  (List.range (packedBytes d.format.bpp)).map (shownByte d (k % d.width) (k / d.width))

def pixelBytes (d : Display) (p : Pixel) : List Byte :=
  (List.range (packedBytes d.format.bpp)).map fun i => (p >>> (8 * i)).setWidth 8

def dirtyPlaces (d : Display) (dirty : Option Rect) : Set Nat := {k | ∃ r ∈ dirty, k ∈ Box d.width r.x r.width r.y r.height}

/-- Between two events. `screen` is the display as it would be without the cursor. -/
structure Upheld (pictures : Nat → Picture) (base : Display) (s : Desk) (screen : Display) : Prop where
  undoable : Undoable screen s.overlay
  same : screen = { base with memory := screen.memory,desktopBuffer := screen.desktopBuffer }
  cached : Cached pictures base s.cache
  flagged : s.dirty.isSome → s.sceneDirty
  inside : Inside base s.dirty
  drawable : Drawable pictures base s.scene
  buffer : ∀ whole, wholeDrawing pictures base s.scene = some whole →
    UpToDate (ScreenPlaces base) (dirtyPlaces base s.dirty) screen.desktopBuffer whole
  shown : ∀ whole, wholeDrawing pictures base s.scene = some whole →
    UpToDate (ScreenPlaces base) (dirtyPlaces base s.dirty) (shownPixel screen) fun k => pixelBytes base (whole k)

section Memory
variable {d : Display}

/-- The display with another framebuffer. -/
def onMemory (memory : Nat → Byte) (d : Display) : Display := { d with memory }

theorem onBuffer_memory (memory : Nat → Byte) (op : (Nat → Pixel) → Option (Nat → Pixel)) :
    onBuffer (onMemory memory d) op = (onBuffer d op).map (onMemory memory) := by
  change (op d.desktopBuffer).map _ = ((op d.desktopBuffer).map _).map _
  cases op d.desktopBuffer with
  | none => rfl
  | some buffer => rfl

theorem ite_memory {memory : Nat → Byte} {c : Prop} [Decidable c] {a b a' b' : Option Display} (yes : a = a'.map (onMemory memory))
    (no : b = b'.map (onMemory memory)) : (if c then a else b) = (if c then a' else b').map (onMemory memory) := by
  split
  · exact yes
  · exact no

/-- On the desktop no drawing call reads the framebuffer or writes to it. -/
theorem run_memory (mode : d.desktopMode = true) (memory : Nat → Byte) (c : DrawCall) :
    c.run (onMemory memory d) = (c.run d).map (onMemory memory) := by
  cases c with
  | fillRect x y width height color =>
    have rows (r : Rect) (packed : Pixel) : fillRows (onMemory memory d) r packed = (fillRows d r packed).map (onMemory memory) := by
      rw [fillRows,fillRows,if_pos mode,if_pos (show (onMemory memory d).desktopMode = true from mode)]
      exact onBuffer_memory memory _
    exact ite_memory rfl (ite_memory rfl (ite_memory rfl (rows _ _)))
  | blitRgba32 pixels width height x y size => exact ite_memory rfl (ite_memory rfl (onBuffer_memory memory _))
  | blendRect x y width height color alpha => exact ite_memory rfl (ite_memory rfl (ite_memory rfl (onBuffer_memory memory _)))
  | blendRoundRect x y width height radius color alpha =>
    exact ite_memory rfl (ite_memory rfl (ite_memory rfl (onBuffer_memory memory _)))
  | blendCircle cx cy radius color alpha => exact ite_memory rfl (onBuffer_memory memory _)

/-- The calls leave everything but the buffer. -/
theorem drawAll_over (mode : d.desktopMode = true) (smallW : d.width < 2^15) (smallH : d.height < 2^15) {clip : Option Rect}
    (inside : Inside d clip) {calls : List DrawCall} (small : ∀ c ∈ calls, c.Small) {buffer : Nat → Pixel} {r : Display}
    (done : drawAll calls (d.over clip buffer) = some r) : r = d.over clip r.desktopBuffer := by
  induction calls generalizing buffer with
  | nil =>
    cases done
    rfl
  | cons c rest ih =>
    obtain ⟨S,f,draws⟩ := c.draws mode smallW smallH (small c List.mem_cons_self)
    obtain ⟨op,_,same⟩ := draws clip inside
    rw [drawAll,forEach_cons,same] at done
    obtain ⟨next,made,later⟩ := Option.bind_eq_some_iff.mp done
    obtain ⟨buffer',_,rfl⟩ := Option.map_eq_some_iff.mp made
    exact ih (fun c member => small c (List.mem_cons_of_mem _ member)) later

theorem drawAll_memory (mode : d.desktopMode = true) (smallW : d.width < 2^15) (smallH : d.height < 2^15) {clip : Option Rect}
    (inside : Inside d clip) (memory : Nat → Byte) {calls : List DrawCall} (small : ∀ c ∈ calls, c.Small) (buffer : Nat → Pixel) :
    drawAll calls (onMemory memory (d.over clip buffer)) = (drawAll calls (d.over clip buffer)).map (onMemory memory) := by
  induction calls generalizing buffer with
  | nil => rfl
  | cons c rest ih =>
    obtain ⟨S,f,draws⟩ := c.draws mode smallW smallH (small c List.mem_cons_self)
    obtain ⟨op,_,same⟩ := draws clip inside
    have here : (d.over clip buffer).desktopMode = true := mode
    rw [drawAll,forEach_cons,forEach_cons,run_memory here,same]
    cases op buffer with
    | none => rfl
    | some buffer' => exact ih (fun c member => small c (List.mem_cons_of_mem _ member)) buffer'

theorem drawAll_returns (mode : d.desktopMode = true) (smallW : d.width < 2^15) (smallH : d.height < 2^15)
    {calls : List DrawCall} (small : ∀ c ∈ calls, c.Small) (divides : ∀ c ∈ calls, c.Divides d.format) (buffer : Nat → Pixel) :
    ∃ r, drawAll calls (d.over none buffer) = some r := by
  induction calls generalizing buffer with
  | nil => exact ⟨_,rfl⟩
  | cons c rest ih =>
    obtain ⟨S,f,draws⟩ := c.draws mode smallW smallH (small c List.mem_cons_self)
    obtain ⟨op,_,same⟩ := draws none inside_none
    obtain ⟨r,made⟩ := @DrawCall.returns (d.over none buffer) mode smallW smallH c (small c List.mem_cons_self) (divides c List.mem_cons_self)
    change c.run (d.over none buffer) = some r at made
    rw [drawAll,forEach_cons,made]
    rw [same] at made
    obtain ⟨buffer',_,rfl⟩ := Option.map_eq_some_iff.mp made
    exact ih (fun c member => small c (List.mem_cons_of_mem _ member)) (fun c member => divides c (List.mem_cons_of_mem _ member)) buffer'

end Memory

section Render
variable {pictures : Nat → Picture} {base screen : Display} {s : Desk} {scene : Scene}

theorem Drawable.calls (drawable : Drawable pictures base scene) (desktop : DesktopMode base) :
    (∀ c ∈ topBar base::scene.calls, c.Small) ∧ ∀ c ∈ topBar base::scene.calls, c.Divides base.format := by
  refine ⟨List.forall_mem_cons.mpr ⟨?_,drawable.small⟩,List.forall_mem_cons.mpr ⟨trivial,drawable.divides⟩⟩
  exact ⟨by decide,by decide,desktop.width.2,by decide⟩

/-- A drawable scene has a whole drawing. -/
theorem Drawable.whole (drawable : Drawable pictures base scene) (desktop : DesktopMode base) :
    ∃ whole, wholeDrawing pictures base scene = some whole ∧
      drawAll (topBar base::scene.calls) (base.over none (covering base (pictures scene.source))) = some (base.over none whole) := by
  obtain ⟨small,divides⟩ := drawable.calls desktop
  obtain ⟨r,done⟩ := drawAll_returns desktop.mode desktop.width.2 desktop.height.2 small divides (covering base (pictures scene.source))
  have left := drawAll_over desktop.mode desktop.width.2 desktop.height.2 inside_none small done
  refine ⟨r.desktopBuffer,?_,?_⟩
  · rw [wholeDrawing,done]
    rfl
  · rw [done,← left]

theorem restoreRect_some (desktop : DesktopMode screen) (cache : Option Wallpaper) {r : Rect} (inside : Inside screen (some r)) :
    ∃ buffer, framebufferRestoreWallpaperRect screen cache r.x r.y r.width r.height = some { screen with desktopBuffer := buffer } ∧
      ∀ k ∉ Box screen.width r.x r.width r.y r.height, buffer k = screen.desktopBuffer k := by
  cases cache with
  | none => exact ⟨_,rfl,fun _ _ => rfl⟩
  | some c =>
    by_cases ready : c.ready = true
    · exact ⟨_,restoreRect_box desktop ready inside,fun k outside => if_neg outside⟩
    · refine ⟨screen.desktopBuffer,if_pos (.inr (.inr (.inr (.inl ?_)))),fun _ _ => rfl⟩
      simpa using ready

theorem setClip_inside {d : Display} {r : Rect} (inside : Inside d (some r)) (buffer : Nat → Pixel) :
    framebufferSetClip (d.over none buffer) r.x r.y r.width r.height = d.over (some r) buffer := by
  obtain ⟨⟨some_w,column⟩,some_h,row⟩ := inside r rfl
  have on_screen : ¬(r.width = 0 ∨ r.height = 0 ∨ r.x ≥ (d.over none buffer).width ∨ r.y ≥ (d.over none buffer).height) := by
    change ¬(r.width = 0 ∨ r.height = 0 ∨ r.x ≥ d.width ∨ r.y ≥ d.height)
    omega
  have whole_w : ¬ r.width > (d.over none buffer).width - r.x := Nat.not_lt.mpr (Nat.le_sub_of_add_le' column)
  have whole_h : ¬ r.height > (d.over none buffer).height - r.y := Nat.not_lt.mpr (Nat.le_sub_of_add_le' row)
  rw [framebufferSetClip,if_neg on_screen]
  dsimp only
  rw [if_neg whole_w,if_neg whole_h]
  rfl

theorem Upheld.desktop (upheld : Upheld pictures base s screen) (desktop : DesktopMode base) : DesktopMode screen := by
  rw [upheld.same]
  exact ⟨desktop.enabled,desktop.mode,desktop.buffered,desktop.width,desktop.height⟩

theorem onMemory_desktop (desktop : DesktopMode base) (memory : Nat → Byte) : DesktopMode (onMemory memory base) :=
  ⟨desktop.enabled,desktop.mode,desktop.buffered,desktop.width,desktop.height⟩

theorem renderRect_steps {r : Rect} {now : BitVec 32} {block : Option (Nat → Pixel)} {d₁ d₂ d₃ : Display} {cache : Option Wallpaper}
    (first : framebufferRestoreWallpaperRect (framebufferCursorHide s.overlay).display s.cache r.x r.y r.width r.height = some d₁)
    (second : framebufferBlitRgb565Cover pictures (framebufferSetClip d₁ r.x r.y r.width r.height) s.cache s.scene.source block =
      some (d₂,cache))
    (third : drawAll (topBar d₂::s.scene.calls) d₂ = some d₃) : renderRect pictures s r now block = some { s with
      overlay := { framebufferCursorHide s.overlay with
        display := framebufferPresentRect (framebufferClearClip d₃) r.x r.y r.width r.height }
      cache,sceneDirty := false,dirty := none,lastRenderTick := now } := by
  rw [renderRect]
  simp only [first,second,third,Option.bind_eq_bind,Option.bind_some]

/-- The dirty rectangle is drawn as in the whole drawing, in the buffer and then in the framebuffer. -/
theorem renderRect_draws (desktop : DesktopMode base) (clip : base.clip = none) (upheld : Upheld pictures base s screen) {r : Rect}
    (dirty : s.dirty = some r) (now : BitVec 32) (words : Nat → Pixel) {whole : Nat → Pixel}
    (drawn : wholeDrawing pictures base s.scene = some whole) :
    ∃ buffer cache, renderRect pictures s r now (some words) = some { s with
        overlay := { framebufferCursorHide s.overlay with
          display := framebufferPresentRect { screen with desktopBuffer := buffer } r.x r.y r.width r.height }
        cache,sceneDirty := false,dirty := none,lastRenderTick := now } ∧ Cached pictures base cache ∧
      (∀ k ∈ Box base.width r.x r.width r.y r.height, buffer k = whole k) ∧
        ∀ k ∉ Box base.width r.x r.width r.y r.height, buffer k = screen.desktopBuffer k := by
  obtain ⟨_,hidden,_⟩ := upheld.undoable.hide (upheld.desktop desktop).sized
  have inside : Inside base (some r) := dirty ▸ upheld.inside
  have plain : screen = onMemory screen.memory (base.over none screen.desktopBuffer) := by
    rw [← clip]
    exact upheld.same
  generalize screen.memory = memory at plain
  generalize screen.desktopBuffer = old at plain
  subst plain
  obtain ⟨before,restored_,kept⟩ := restoreRect_some (upheld.desktop desktop) s.cache inside
  obtain ⟨cache,covered,cached⟩ := @cover_box pictures (onMemory memory base) s.cache s.scene.source r (onMemory_desktop desktop memory)
    upheld.drawable.given upheld.drawable.picture inside upheld.cached words before
  obtain ⟨small,_⟩ := upheld.drawable.calls desktop
  obtain ⟨whole',same,done⟩ := upheld.drawable.whole desktop
  rw [drawn,Option.some_inj] at same
  subst same
  have agree : ∀ k ∈ clipPlaces base.width (some r),
      restored base r (covering base (pictures s.scene.source)) before k = covering base (pictures s.scene.source) k :=
    fun k member => if_pos member
  obtain ⟨left,part,within,outside⟩ := drawAll_restricts desktop.mode desktop.width.2 desktop.height.2 inside small agree done
  have lifted := drawAll_over desktop.mode desktop.width.2 desktop.height.2 inside small part
  have there := drawAll_memory desktop.mode desktop.width.2 desktop.height.2 inside memory small
    (restored base r (covering base (pictures s.scene.source)) before)
  rw [part,lifted] at there
  have set := @setClip_inside (onMemory memory base) r inside before
  refine ⟨left.desktopBuffer,cache,?_,cached,within,fun k off => ?_⟩
  · have first : framebufferRestoreWallpaperRect (framebufferCursorHide s.overlay).display s.cache r.x r.y r.width r.height =
        some ((onMemory memory base).over none before) := by
      rw [hidden]
      exact restored_
    rw [← set] at covered
    exact renderRect_steps first covered there
  · rw [outside k off,restored,if_neg off,kept k off]
    rfl

theorem presentRect_memory (d : Display) (x y width height : Nat) : framebufferPresentRect d x y width height =
    { d with memory := (framebufferPresentRect d x y width height).memory } := by
  unfold framebufferPresentRect
  split
  · rfl
  · split
    · rfl
    · rfl

/-- The pixels of the screen after a rectangle is presented. -/
theorem shownPixel_present (desktop : DesktopMode screen) (apart : Apart screen) {r : Rect} (inside : Inside screen (some r)) {k : Nat}
    (place : k ∈ ScreenPlaces screen) : shownPixel (framebufferPresentRect screen r.x r.y r.width r.height) k =
      if k ∈ Box screen.width r.x r.width r.y r.height then pixelBytes screen (screen.desktopBuffer k) else shownPixel screen k := by
  obtain ⟨⟨_,column⟩,_,row⟩ := place
  rw [Nat.zero_add] at column row
  have each : ∀ i < packedBytes screen.format.bpp,
      shownByte (framebufferPresentRect screen r.x r.y r.width r.height) (k % screen.width) (k / screen.width) i =
        if k ∈ Box screen.width r.x r.width r.y r.height then (screen.desktopBuffer k >>> (8 * i)).setWidth 8
        else shownByte screen (k % screen.width) (k / screen.width) i := by
    intro i byte
    have shows := present_shows desktop apart inside column row byte
    rwa [place_eq] at shows
  have format : shownPixel (framebufferPresentRect screen r.x r.y r.width r.height) k =
      (List.range (packedBytes screen.format.bpp)).map
        (shownByte (framebufferPresentRect screen r.x r.y r.width r.height) (k % screen.width) (k / screen.width)) := by
    rw [shownPixel,presentRect_memory]
  rw [format]
  split
  next member =>
    refine List.map_congr_left fun i inRange => ?_
    rw [each i (List.mem_range.mp inRange),if_pos member]
  next outside =>
    refine List.map_congr_left fun i inRange => ?_
    rw [each i (List.mem_range.mp inRange),if_neg outside]

/-- What the user sees when the dirty rectangle is drawn. -/
theorem renderRect_upheld (desktop : DesktopMode base) (apart : Apart base) (clip : base.clip = none)
    (upheld : Upheld pictures base s screen) {r : Rect} (dirty : s.dirty = some r) (now : BitVec 32) (words : Nat → Pixel) :
    ∃ s', renderRect pictures s r now (some words) = some s' ∧ s'.dirty = none ∧ s'.scene = s.scene ∧
      Upheld pictures base s' s'.overlay.display := by
  have plain := upheld.same
  generalize screen.memory = memory at plain
  generalize screen.desktopBuffer = old at plain
  subst plain
  obtain ⟨whole,drawn,_⟩ := upheld.drawable.whole desktop
  obtain ⟨buffer,cache,done,cached,within,outside⟩ := renderRect_draws desktop clip upheld dirty now words drawn
  obtain ⟨_,hidden,gone⟩ := upheld.undoable.hide (upheld.desktop desktop).sized
  have inside : Inside base (some r) := dirty ▸ upheld.inside
  have box : dirtyPlaces base s.dirty = Box base.width r.x r.width r.y r.height := by
    ext k
    simp [dirtyPlaces,dirty]
  have nothing : dirtyPlaces base none = ∅ := by
    ext k
    simp [dirtyPlaces]
  have was := upheld.buffer whole drawn
  have showed := upheld.shown whole drawn
  rw [box] at was showed
  refine ⟨_,done,rfl,rfl,?_⟩
  refine ⟨?_,?_,cached,fun none => ?_,?_,upheld.drawable,fun whole' drawn' => ?_,fun whole' drawn' => ?_⟩
  · refine ⟨rfl,fun _ => rfl,fun shown => ?_⟩
    rw [gone] at shown
    cases shown
  · dsimp only
    rw [presentRect_memory]
  · cases none
  · exact inside_none
  · rw [drawn,Option.some_inj] at drawn'
    subst drawn'
    dsimp only
    rw [nothing,presentRect_memory]
    exact was.refresh (fun k _ => within k) fun k _ => outside k
  · rw [drawn,Option.some_inj] at drawn'
    subst drawn'
    rw [nothing]
    have desktop' : DesktopMode { base with memory,desktopBuffer := buffer } := (upheld.desktop desktop).over base.clip buffer
    have shows {k : Nat} (place : k ∈ ScreenPlaces base) := @shownPixel_present { base with memory,desktopBuffer := buffer } desktop' apart r inside k place
    refine showed.refresh (fun k place member => ?_) fun k place off => ?_
    · exact ((shows place).trans (if_pos member)).trans (congrArg (pixelBytes base) (within k member))
    · exact (shows place).trans (if_neg off)

end Render

section Events
variable {pictures : Nat → Picture} {base screen : Display} {s : Desk} {scene next : Scene}

theorem Upheld.sizes (upheld : Upheld pictures base s screen) :
    s.overlay.display.width = base.width ∧ s.overlay.display.height = base.height := by
  rw [upheld.undoable.screen,upheld.same]
  exact ⟨rfl,rfl⟩

theorem joined_covers {o r : Rect} (desktop : DesktopMode base) (first : Inside base (some o)) (second : Inside base (some r)) :
    Inside base (some (joined o r)) ∧ (Box base.width o.x o.width o.y o.height ∪ Box base.width r.x r.width r.y r.height) ⊆
      Box base.width (joined o r).x (joined o r).width (joined o r).y (joined o r).height := by
  obtain ⟨⟨_,_⟩,_,_⟩ := first o rfl
  obtain ⟨⟨_,_⟩,_,_⟩ := second r rfl
  have less_w := desktop.width.2
  have less_h := desktop.height.2
  have side {a b c e screen : Nat} (some_ : 0 < b ∧ 0 < e) (inner : a + b ≤ screen) (inner' : c + e ≤ screen) (small : screen < 2^15) :
      ∃ w, (wrap ((if wrap (a + b) > wrap (c + e) then wrap (a + b) else wrap (c + e)) + 2^32 - if a < c then a else c)) = w ∧
        0 < w ∧ (if a < c then a else c) + w ≤ screen ∧
          ∀ p, (a ≤ p ∧ p < a + b) ∨ (c ≤ p ∧ p < c + e) → (if a < c then a else c) ≤ p ∧ p < (if a < c then a else c) + w := by
    rw [@wrap_of_small (a + b) (by omega),@wrap_of_small (c + e) (by omega)]
    have start : (if a < c then a else c) = min a c := by
      split
      · omega
      · omega
    have stop : (if a + b > c + e then a + b else c + e) = max (a + b) (c + e) := by
      split
      · omega
      · omega
    rw [start,stop]
    refine ⟨max (a + b) (c + e) - min a c,?_,by omega,by omega,fun p => by omega⟩
    unfold wrap
    omega
  obtain ⟨w,width,some_w,column,columns⟩ := @side o.x o.width r.x r.width base.width (by omega) (by omega) (by omega) less_w
  obtain ⟨h,height,some_h,row,rows⟩ := @side o.y o.height r.y r.height base.height (by omega) (by omega) (by omega) less_h
  have its : joined o r = ⟨if o.x < r.x then o.x else r.x,if o.y < r.y then o.y else r.y,w,h⟩ := by
    rw [joined,width,height]
  rw [its]
  refine ⟨?_,?_⟩
  · intro c member
    rw [Option.mem_some_iff] at member
    subst member
    exact ⟨⟨some_w,column⟩,some_h,row⟩
  · rintro k (⟨c,l⟩ | ⟨c,l⟩)
    · exact ⟨columns _ (.inl c),rows _ (.inl l)⟩
    · exact ⟨columns _ (.inr c),rows _ (.inr l)⟩

/-- Another scene, with what differs in the dirty places. -/
theorem Upheld.change (upheld : Upheld pictures base s screen) (desktop : DesktopMode base) (drawable : Drawable pictures base next)
    {dirty : Option Rect} {flag : Bool} (flagged : dirty.isSome → flag) (inside : Inside base dirty) {more : Set Nat}
    (outside : ∀ old new, wholeDrawing pictures base s.scene = some old → wholeDrawing pictures base next = some new →
      ∀ k ∈ ScreenPlaces base, k ∉ more → new k = old k)
    (covers : ∀ k ∈ ScreenPlaces base, k ∈ dirtyPlaces base s.dirty ∨ k ∈ more → k ∈ dirtyPlaces base dirty) :
    Upheld pictures base { s with scene := next,sceneDirty := flag,dirty } screen := by
  obtain ⟨old,was,_⟩ := upheld.drawable.whole desktop
  refine ⟨upheld.undoable,upheld.same,upheld.cached,flagged,inside,drawable,fun new drawn => ?_,fun new drawn => ?_⟩
  · exact (upheld.buffer old was).change (outside old new was drawn) covers
  · refine (upheld.shown old was).change (fun k place off => ?_) covers
    exact congrArg (pixelBytes base) (outside old new was drawn k place off)

theorem Upheld.full (upheld : Upheld pictures base s screen) (desktop : DesktopMode base) (drawable : Drawable pictures base next) :
    Upheld pictures base (dirtyFull { s with scene := next }) screen := by
  obtain ⟨width,height⟩ := upheld.sizes
  rw [dirtyFull,width,height]
  have all : dirtyPlaces base (some ⟨0,0,base.width,base.height⟩) = ScreenPlaces base := by
    ext k
    simp [dirtyPlaces,ScreenPlaces]
  refine @Upheld.change _ _ _ _ _ upheld desktop drawable _ _ (fun _ => rfl) ?_ (ScreenPlaces base) (fun _ _ _ _ k place off => absurd place off) ?_
  · intro r member
    rw [Option.mem_some_iff] at member
    subst member
    exact ⟨⟨desktop.width.1,Nat.le_of_eq (Nat.zero_add _)⟩,desktop.height.1,Nat.le_of_eq (Nat.zero_add _)⟩
  · intro k place _
    rwa [all]

theorem Upheld.rect (upheld : Upheld pictures base s screen) (desktop : DesktopMode base) (drawable : Drawable pictures base next)
    {x y w h : Nat} (outside : ∀ old new, wholeDrawing pictures base s.scene = some old → wholeDrawing pictures base next = some new →
      ∀ k ∈ ScreenPlaces base, k ∉ Box base.width x w y h → new k = old k) :
    Upheld pictures base (dirtyRect { s with scene := next } x y w h) screen := by
  obtain ⟨width,height⟩ := upheld.sizes
  unfold dirtyRect
  dsimp only
  rw [width,height]
  have nowhere (off : (w = 0 ∨ h = 0) ∨ x ≥ base.width ∨ y ≥ base.height) : Upheld pictures base { s with scene := next } screen := by
    refine upheld.change desktop drawable upheld.flagged upheld.inside outside ?_
    rintro k ⟨_,_⟩ (dirty | ⟨_,_⟩)
    · exact dirty
    · omega
  split
  next empty => exact nowhere (.inl empty)
  split
  next off => exact nowhere (.inr off)
  next some_ on =>
    have column := @shortened_le base.width x w (by omega)
    have row := @shortened_le base.height y h (by omega)
    have positive {screen x w : Nat} (on : x < screen) (some_ : w ≠ 0) : 0 < shortened screen x w := by
      unfold shortened
      split
      · omega
      · omega
    have inside : Inside base (some ⟨x,y,shortened base.width x w,shortened base.height y h⟩) := by
      intro r member
      rw [Option.mem_some_iff] at member
      subst member
      exact ⟨⟨positive (by omega) (by omega),column⟩,positive (by omega) (by omega),row⟩
    have cut : ∀ k ∈ ScreenPlaces base, k ∈ Box base.width x w y h →
        k ∈ Box base.width x (shortened base.width x w) y (shortened base.height y h) := by
      rintro k ⟨⟨_,_⟩,_,_⟩ ⟨⟨_,_⟩,_,_⟩
      have side {screen x w p : Nat} (from_ : x ≤ p) (to_ : p < x + w) (on : p < screen) : p < x + shortened screen x w := by
        unfold shortened
        split
        · omega
        · omega
      exact ⟨⟨by omega,side (by omega) (by omega) (by omega)⟩,by omega,side (by omega) (by omega) (by omega)⟩
    cases dirty : s.dirty with
    | none =>
      refine upheld.change desktop drawable (fun _ => rfl) inside outside ?_
      rintro k place (⟨r,member,_⟩ | member)
      · rw [dirty] at member
        cases member
      · exact ⟨_,rfl,cut k place member⟩
    | some o =>
      have before : Inside base (some o) := dirty ▸ upheld.inside
      obtain ⟨inside',covers⟩ := joined_covers desktop before inside
      refine upheld.change desktop drawable (fun _ => rfl) inside' outside ?_
      rintro k place (⟨r,member,old⟩ | member)
      · rw [dirty,Option.mem_some_iff] at member
        subst member
        exact ⟨_,rfl,covers (.inl old)⟩
      · exact ⟨_,rfl,covers (.inr (cut k place member))⟩

theorem dirtyRect_scene (s : Desk) (x y w h : Nat) : (dirtyRect s x y w h).scene = s.scene := by
  unfold dirtyRect
  dsimp only
  split
  · rfl
  split
  · rfl
  cases s.dirty with
  | none => rfl
  | some o => rfl

theorem Upheld.render (upheld : Upheld pictures base s screen) (desktop : DesktopMode base) (apart : Apart base) (clip : base.clip = none)
    (now : BitVec 32) (words : Nat → Pixel) : ∃ s', renderAll pictures s now (some words) = some s' ∧ s'.scene = s.scene ∧
      (¬(s.lastRenderTick ≠ 0xFFFFFFFF ∧ now - s.lastRenderTick < 1) → s'.dirty = none) ∧
      ∃ screen', Upheld pictures base s' screen' := by
  unfold renderAll
  split
  next early => exact ⟨s,rfl,rfl,fun due => absurd early due,screen,upheld⟩
  split
  next clean =>
    have none_ : s.dirty = none := by
      cases dirty : s.dirty with
      | none => rfl
      | some r =>
        have flag := upheld.flagged (by rw [dirty]; rfl)
        rw [flag] at clean
        cases clean
    exact ⟨s,rfl,rfl,fun _ => none_,screen,upheld⟩
  cases dirty : s.dirty with
  | none => exact ⟨s,rfl,rfl,fun _ => dirty,screen,upheld⟩
  | some r =>
    obtain ⟨s',done,gone,same,left⟩ := renderRect_upheld desktop apart clip upheld dirty now words
    exact ⟨s',done,same,fun _ => gone,_,left⟩

theorem Upheld.step (desktop : DesktopMode base) (apart : Apart base) (clip : base.clip = none) (upheld : Upheld pictures base s screen)
    {e : DeskEvent} (reported : Reported pictures base s.scene e) :
    ∃ s', deskStep pictures e s = some s' ∧ (∃ screen', Upheld pictures base s' screen') ∧ s'.scene = nextScene s.scene e := by
  cases e with
  | full next => exact ⟨_,rfl,⟨screen,upheld.full desktop reported⟩,rfl⟩
  | rect x y w h next =>
    exact ⟨_,rfl,⟨screen,upheld.rect desktop reported.1 reported.2⟩,dirtyRect_scene _ x y w h⟩
  | render now block =>
    obtain ⟨words,rfl⟩ := Option.isSome_iff_exists.mp reported
    obtain ⟨s',done,same,_,left⟩ := upheld.render desktop apart clip now words
    exact ⟨s',done,left,same⟩
  | cursor call =>
    refine ⟨_,rfl,⟨screen,?_⟩,rfl⟩
    exact ⟨upheld.undoable.step (upheld.desktop desktop).sized _ call,upheld.same,upheld.cached,upheld.flagged,upheld.inside,upheld.drawable,
      upheld.buffer,upheld.shown⟩

/-- The desk when the desktop is opened. -/
def openDesk (base : Display) (cursor : Cursor) (scene : Scene) : Desk := dirtyFull ⟨⟨base,cursor⟩,none,false,none,0xFFFFFFFF,scene⟩

theorem openDesk_upheld (desktop : DesktopMode base) {cursor : Cursor} (hidden : cursor.visible = false)
    (drawable : Drawable pictures base scene) : Upheld pictures base (openDesk base cursor scene) base := by
  have all : ∀ k ∈ ScreenPlaces base, k ∈ dirtyPlaces base (openDesk base cursor scene).dirty := fun k place => ⟨_,rfl,place⟩
  refine ⟨⟨rfl,fun _ => rfl,fun shown => ?_⟩,rfl,fun c none => ?_,fun _ => rfl,fun r member => ?_,drawable,fun _ _ k place off => ?_,
    fun _ _ k place off => ?_⟩
  · change cursor.visible = true at shown
    rw [hidden] at shown
    cases shown
  · cases none
  · obtain rfl := Option.mem_some_iff.mp member
    exact ⟨⟨desktop.width.1,Nat.le_of_eq (Nat.zero_add _)⟩,desktop.height.1,Nat.le_of_eq (Nat.zero_add _)⟩
  · exact absurd (all k place) off
  · exact absurd (all k place) off

end Events

/-- However the scene changes, the cursor moves and the desktop is drawn: behind the cursor the framebuffer
shows the whole drawing of the scene outside of the dirty rectangle, and everywhere after the next drawing. -/
theorem redraw_shows {pictures : Nat → Picture} {base : Display} (desktop : DesktopMode base) (apart : Apart base)
    (clip : base.clip = none) {cursor : Cursor} (hidden : cursor.visible = false) {scene : Scene} (drawable : Drawable pictures base scene)
    {events : List DeskEvent} (reported : Meets nextScene (Reported pictures base) scene events) :
    ∃ s whole, forEach events (deskStep pictures) (openDesk base cursor scene) = some s ∧
      wholeDrawing pictures base (run nextScene scene events) = some whole ∧
      UpToDate (ScreenPlaces base) (dirtyPlaces base s.dirty) (shownPixel (framebufferCursorHide s.overlay).display)
        (fun k => pixelBytes base (whole k)) ∧
      ∀ now words, ¬(s.lastRenderTick ≠ 0xFFFFFFFF ∧ now - s.lastRenderTick < 1) →
        ∃ s', renderAll pictures s now (some words) = some s' ∧
          ∀ k ∈ ScreenPlaces base, shownPixel (framebufferCursorHide s'.overlay).display k = pixelBytes base (whole k) := by
  have each : ∀ s e, (∃ screen, Upheld pictures base s screen) → Reported pictures base s.scene e →
      ∃ s', deskStep pictures e s = some s' ∧ (∃ screen, Upheld pictures base s' screen) ∧ s'.scene = nextScene s.scene e := by
    rintro s e ⟨screen,upheld⟩ reported
    exact upheld.step desktop apart clip reported
  obtain ⟨s,done,⟨screen,upheld⟩,same⟩ := @forEach_meets Desk Scene DeskEvent (deskStep pictures) Desk.scene nextScene
    (Reported pictures base) (fun s => ∃ screen, Upheld pictures base s screen) each (openDesk base cursor scene)
    ⟨base,openDesk_upheld desktop hidden drawable⟩ events reported
  obtain ⟨whole,drawn,_⟩ := upheld.drawable.whole desktop
  obtain ⟨_,restored,_⟩ := upheld.undoable.hide (upheld.desktop desktop).sized
  refine ⟨s,whole,done,?_,?_,fun now words due => ?_⟩
  · rw [← drawn,same]
    rfl
  · rw [restored]
    exact upheld.shown whole drawn
  · obtain ⟨s',rendered,scene',clean,screen',left⟩ := upheld.render desktop apart clip now words
    obtain ⟨_,restored',_⟩ := left.undoable.hide (left.desktop desktop).sized
    refine ⟨s',rendered,fun k place => ?_⟩
    rw [restored']
    refine left.shown whole (by rw [scene',drawn]) k place ?_
    rw [clean due]
    rintro ⟨r,none,_⟩
    cases none

/-- The screen of 1024 by 768 pixels in desktop mode. -/
def usualDesktop : Display := ⟨true,0xF4000000,4096,1024,768,⟨32,16,8,8,8,0,8⟩,true,true,fun _ => 0,none,fun _ => 0⟩

theorem usualDesktop_mapped : Mapped usualDesktop usualTag :=
  ⟨rfl,rfl,rfl,rfl,rfl,.inr (.inr rfl),by decide,by decide⟩

def lockedScene : Scene := ⟨1,[]⟩

def greenScene : Scene := ⟨1,[.fillRect 100 100 200 150 0x00FF00]⟩

theorem redraw_shows_usual : ∃ s whole,
    forEach [.full greenScene,.cursor (.move 5 5),.render 7 (some fun _ => 0),.rect 10 10 20 20 greenScene]
        (deskStep fun _ => ⟨fun _ => 0x07E0,2,2⟩) (openDesk usualDesktop ⟨fun _ => 0,0,0,0,0,false⟩ lockedScene) = some s ∧
      wholeDrawing (fun _ => ⟨fun _ => 0x07E0,2,2⟩) usualDesktop greenScene = some whole ∧
      UpToDate (ScreenPlaces usualDesktop) (dirtyPlaces usualDesktop s.dirty) (shownPixel (framebufferCursorHide s.overlay).display)
        (fun k => pixelBytes usualDesktop (whole k)) ∧
      ∀ now words, ¬(s.lastRenderTick ≠ 0xFFFFFFFF ∧ now - s.lastRenderTick < 1) →
        ∃ s', renderAll (fun _ => ⟨fun _ => 0x07E0,2,2⟩) s now (some words) = some s' ∧
          ∀ k ∈ ScreenPlaces usualDesktop, shownPixel (framebufferCursorHide s'.overlay).display k = pixelBytes usualDesktop (whole k) := by
  have desktop : DesktopMode usualDesktop := ⟨rfl,rfl,rfl,by decide,by decide⟩
  have apart : Apart usualDesktop := (usualDesktop_mapped.addressable (by decide)).apart
  have green : Drawable (fun _ => ⟨fun _ => 0x07E0,2,2⟩) usualDesktop greenScene := by
    refine ⟨by decide,⟨⟨by decide,by decide⟩,by decide,by decide⟩,?_,?_⟩
    · rw [greenScene,List.forall_mem_singleton]
      exact ⟨by decide,by decide,by decide,by decide⟩
    · rw [greenScene,List.forall_mem_singleton]
      trivial
  refine @redraw_shows _ _ desktop apart rfl ⟨fun _ => 0,0,0,0,0,false⟩ rfl lockedScene ?_ _ ⟨green,trivial,rfl,⟨green,?_⟩,trivial⟩
  · exact ⟨by decide,⟨⟨by decide,by decide⟩,by decide,by decide⟩,by simp [lockedScene],by simp [lockedScene]⟩
  · intro old new was is k _ _
    rw [Option.some_inj.mp (is.symm.trans was)]

end LionOS.Desktop

import Mathlib.Data.List.TakeWhile
import LionOS.Library.Run
import LionOS.Library.Writes
import LionOS.Video.Blit

/-! The mouse cursor, which is drawn over the framebuffer after what is under it was saved. -/
namespace LionOS.Video
open LionOS.Library
open LionOS.Physical (Byte)
open LionOS.Processes (wrap)

def cursorArrow : List Nat :=
  [0x8000,0xC000,0xE000,0xF000,0xF800,0xFC00,0xFE00,0xFF00,0xFF80,0xFFC0,0xFFE0,0xFFF0,0xFFF8,0xFFF0,0xF3E0,0xE1C0,0xC080,0x8000]

def cursorArrowW : Nat := 16
def cursorArrowH : Nat := 18
def cursorUnderW : Nat := 17
def cursorUnderH : Nat := 19

/-- The statics of the cursor: the pixels under it, their rectangle and whether it is drawn. -/
structure Cursor where
  under : Nat → Pixel
  underW : Nat
  underH : Nat
  underX : Nat
  underY : Nat
  visible : Bool

structure Overlay where
  display : Display
  cursor : Cursor

def overlaySupported (d : Display) : Bool := d.enabled && d.desktopMode && d.buffered && d.format.bpp == 32

/-- The bytes that a store of a word of 32 bits writes, and the word that a load reads. -/
def wordWrites (address : Nat) (word : Pixel) : List (Nat × Byte) :=
  (List.range 4).map fun i => (wrap (address + i),(word >>> (8 * i)).setWidth 8)

def loadWord (memory : Nat → Byte) (address : Nat) : Pixel :=
  memory (wrap (address + 3)) ++ memory (wrap (address + 2)) ++ memory (wrap (address + 1)) ++ memory (wrap (address + 0))

def Overlay.write (o : Overlay) (writes : List (Nat × Byte)) : Overlay :=
  { o with display := { o.display with memory := writeAll o.display.memory writes } }

/-- The word `col` of the line in row `sy` that starts in the column of the rectangle. -/
def underAddress (d : Display) (underX sy col : Nat) : Nat :=
  wrap (wrap (wrap (d.fb + wrap (sy * d.pitch)) + wrap (underX * 4)) + 4 * col)

/-- `fb + py * fb_pitch + px * 4` -/
def wordAddress (d : Display) (px py : Nat) : Nat := wrap (wrap (d.fb + wrap (py * d.pitch)) + wrap (px * 4))

/-- What `framebuffer_cursor_hide` writes: both loops leave at the edge of the screen. -/
def hideWrites (o : Overlay) : List (Nat × Byte) :=
  let d := o.display
  let c := o.cursor
  if overlaySupported d && c.visible then
    ((List.range c.underH).takeWhile fun y => wrap (c.underY + y) < d.height).flatMap fun y =>
      ((List.range c.underW).takeWhile fun x => wrap (c.underX + x) < d.width).flatMap fun x =>
        wordWrites (underAddress d c.underX (wrap (c.underY + y)) x) (c.under (y * cursorUnderW + x))
  else []

def framebufferCursorHide (o : Overlay) : Overlay :=
  if overlaySupported o.display && o.cursor.visible then
    { o.write (hideWrites o) with cursor := { o.cursor with visible := false } }
  else o

/-- The first half of `framebuffer_cursor_move`: the rectangle under the cursor, cut at the edges
of the screen, is saved. -/
def saveUnder (o : Overlay) (x y : Nat) : Overlay :=
  let d := o.display
  let underW := if wrap (x + cursorUnderW) > d.width then d.width - x else cursorUnderW
  let underH := if wrap (y + cursorUnderH) > d.height then d.height - y else cursorUnderH
  let saved := (List.range underH).flatMap fun row => (List.range underW).map fun col =>
    (row * cursorUnderW + col,loadWord d.memory (underAddress d x (wrap (y + row)) col))
  { o with cursor := { o.cursor with under := writeAll o.cursor.under saved,underW,underH,underX := x,underY := y } }

/-- A pixel of the arrow is set and lies on the screen. -/
def arrowPixel (d : Display) (row col px py : Nat) : Bool :=
  (cursorArrow.getD row 0).testBit (15 - col) && decide (px < d.width) && decide (py < d.height)

/-- What `framebuffer_cursor_move` draws: the shadow and the arrow. -/
def arrowWrites (d : Display) (x y : Nat) : List (Nat × Byte) :=
  let shadow := packRgb d.format 0x050A12
  let white := packRgb d.format 0xF2F5FA
  ((List.range cursorArrowH).flatMap fun row => (List.range cursorArrowW).flatMap fun col =>
    let px := wrap (wrap (x + col) + 1)
    let py := wrap (wrap (y + row) + 1)
    if arrowPixel d row col px py then wordWrites (wordAddress d px py) shadow else []) ++
  (List.range' 1 (cursorArrowH - 2)).flatMap fun row => (List.range' 1 (cursorArrowW - 2)).flatMap fun col =>
    let px := wrap (x + col)
    let py := wrap (y + row)
    if arrowPixel d row col px py then wordWrites (wordAddress d px py) white else []

def framebufferCursorMove (o : Overlay) (x y : Nat) : Overlay :=
  if !overlaySupported o.display then o
  else
    let hidden := framebufferCursorHide o
    if x ≥ o.display.width ∨ y ≥ o.display.height then hidden
    else
      let saved := saveUnder hidden x y
      let drawn := saved.write (arrowWrites o.display x y)
      { drawn with cursor := { drawn.cursor with visible := true } }

inductive CursorCall
  | move (x y : BitVec 32)
  | hide

def cursorStep (o : Overlay) : CursorCall → Overlay
  | .move x y => framebufferCursorMove o x.toNat y.toNat
  | .hide => framebufferCursorHide o

/-- The states after each byte of a row of writes. -/
def Overlay.stages (o : Overlay) (writes : List (Nat × Byte)) : List Overlay := writes.inits.map o.write

/-- The states that a call goes through. -/
def cursorStages (o : Overlay) : CursorCall → List Overlay
  | .hide => o.stages (hideWrites o) ++ [framebufferCursorHide o]
  | .move x y =>
    if !overlaySupported o.display then [o]
    else
      let hidden := framebufferCursorHide o
      o.stages (hideWrites o) ++ [hidden] ++
        if x.toNat ≥ o.display.width ∨ y.toNat ≥ o.display.height then []
        else (saveUnder hidden x.toNat y.toNat).stages (arrowWrites o.display x.toNat y.toNat) ++
          [framebufferCursorMove o x.toNat y.toNat]

/-- The last state of a call is the one that it leaves. -/
theorem cursorStages_last (o : Overlay) (c : CursorCall) : (cursorStages o c).getLast? = some (cursorStep o c) := by
  cases c with
  | hide =>
    rw [cursorStages,List.getLast?_append]
    rfl
  | move x y =>
    rw [cursorStages,cursorStep]
    by_cases off : (!overlaySupported o.display) = true
    · rw [if_pos off,framebufferCursorMove,if_pos off]
      rfl
    rw [if_neg off]
    dsimp only
    by_cases outside : x.toNat ≥ o.display.width ∨ y.toNat ≥ o.display.height
    · rw [if_pos outside,List.append_nil,List.getLast?_append,framebufferCursorMove,if_neg off]
      dsimp only
      rw [if_pos outside]
      rfl
    · rw [if_neg outside,List.getLast?_append,List.getLast?_append]
      rfl

/-- The bytes of the pixels in the rectangle under the cursor. -/
def UnderBytes (o : Overlay) (address : Nat) : Prop :=
  ∃ row < o.cursor.underH,∃ col < o.cursor.underW,∃ i < 4,
    address = wrap (wordAddress o.display (o.cursor.underX + col) (o.cursor.underY + row) + i)

section Words

theorem underAddress_eq (d : Display) (underX sy col : Nat) : underAddress d underX sy col = wordAddress d (underX + col) sy := by
  unfold underAddress wordAddress wrap
  omega

/-- A byte of a word that was loaded is the byte that it was loaded from. -/
theorem loadWord_byte (memory : Nat → Byte) (address : Nat) {i : Nat} (inside : i < 4) :
    (loadWord memory address >>> (8 * i)).setWidth 8 = memory (wrap (address + i)) := by
  apply BitVec.eq_of_getLsbD_eq
  intro j low
  have below : decide (j < 8) = true := decide_eq_true low
  rw [BitVec.getLsbD_setWidth,BitVec.getLsbD_ushiftRight,below,Bool.true_and,loadWord]
  simp only [BitVec.getLsbD_append]
  match i with
  | 0 => simp [low]
  | 1 =>
    rw [if_neg (by omega),if_pos (by omega)]
    congr 1
    omega
  | 2 =>
    rw [if_neg (by omega),if_neg (by omega),if_pos (by omega)]
    congr 1
    omega
  | 3 =>
    rw [if_neg (by omega),if_neg (by omega),if_neg (by omega)]
    congr 1
    omega

theorem mem_wordWrites {address : Nat} {word : Pixel} {w : Nat × Byte} (member : w ∈ wordWrites address word) :
    ∃ i < 4,w = (wrap (address + i),(word >>> (8 * i)).setWidth 8) := by
  obtain ⟨i,below,rfl⟩ := List.mem_map.mp member
  exact ⟨i,List.mem_range.mp below,rfl⟩

/-- The four bytes of a word are covered by its store. -/
theorem wordWrites_covered (address : Nat) (word : Pixel) {i : Nat} (inside : i < 4) :
    Covered (wordWrites address word) (wrap (address + i)) :=
  ⟨_,List.mem_map.mpr ⟨i,List.mem_range.mpr inside,rfl⟩⟩

end Words

/-- What is under a drawn cursor is saved as the memory `original` has it. -/
structure Saved (original : Nat → Byte) (o : Overlay) : Prop where
  place : o.cursor.underX < o.display.width ∧ o.cursor.underY < o.display.height
  columns : o.cursor.underX + o.cursor.underW ≤ o.display.width
  rows : o.cursor.underY + o.cursor.underH ≤ o.display.height
  words : ∀ row < o.cursor.underH,∀ col < o.cursor.underW,o.cursor.under (row * cursorUnderW + col) =
    loadWord original (wordAddress o.display (o.cursor.underX + col) (o.cursor.underY + row))

/-- The memory differs from `original` only under the cursor. -/
def OnlyUnder (original : Nat → Byte) (o : Overlay) : Prop :=
  ∀ address,o.display.memory address ≠ original address → UnderBytes o address

/-- Everywhere between calls: the screen is the one of the start but for the memory, and that is
as at the start if the cursor is hidden. -/
structure Undoable (d : Display) (o : Overlay) : Prop where
  screen : o.display = { d with memory := o.display.memory }
  hidden : o.cursor.visible = false → o.display.memory = d.memory
  drawn : o.cursor.visible = true → overlaySupported d ∧ Saved d.memory o ∧ OnlyUnder d.memory o

section Hide
variable {original : Nat → Byte} {o : Overlay}

theorem hide_columns (small : o.display.width < 2^32) (saved : Saved original o) :
    (List.range o.cursor.underW).takeWhile (fun x => wrap (o.cursor.underX + x) < o.display.width) = List.range o.cursor.underW := by
  refine List.takeWhile_eq_self_iff.mpr fun x member => ?_
  have below := List.mem_range.mp member
  have fits := saved.columns
  rw [decide_eq_true_iff,wrap,Nat.mod_eq_of_lt (by omega)]
  omega

theorem hide_rows (small : o.display.height < 2^32) (saved : Saved original o) :
    (List.range o.cursor.underH).takeWhile (fun y => wrap (o.cursor.underY + y) < o.display.height) = List.range o.cursor.underH := by
  refine List.takeWhile_eq_self_iff.mpr fun y member => ?_
  have below := List.mem_range.mp member
  have fits := saved.rows
  rw [decide_eq_true_iff,wrap,Nat.mod_eq_of_lt (by omega)]
  omega

theorem hideWrites_eq (smallW : o.display.width < 2^32) (smallH : o.display.height < 2^32)
    (drawn : (overlaySupported o.display && o.cursor.visible) = true) (saved : Saved original o) :
    hideWrites o = (List.range o.cursor.underH).flatMap fun row => (List.range o.cursor.underW).flatMap fun col =>
      wordWrites (wordAddress o.display (o.cursor.underX + col) (wrap (o.cursor.underY + row))) (o.cursor.under (row * cursorUnderW + col)) := by
  rw [hideWrites,if_pos drawn,hide_columns smallW saved,hide_rows smallH saved]
  simp only [underAddress_eq]

/-- Hiding writes back what the memory held, and all of it. -/
theorem hideWrites_back (smallW : o.display.width < 2^32) (smallH : o.display.height < 2^32)
    (drawn : (overlaySupported o.display && o.cursor.visible) = true) (saved : Saved original o) :
    (∀ w ∈ hideWrites o,w.2 = original w.1) ∧ ∀ address,UnderBytes o address → Covered (hideWrites o) address := by
  have inRow {row : Nat} (below : row < o.cursor.underH) : wrap (o.cursor.underY + row) = o.cursor.underY + row := by
    have fits := saved.rows
    exact Nat.mod_eq_of_lt (by omega)
  rw [hideWrites_eq smallW smallH drawn saved]
  constructor
  · intro w member
    obtain ⟨row,inRows,member⟩ := List.mem_flatMap.mp member
    obtain ⟨col,inColumns,member⟩ := List.mem_flatMap.mp member
    have below := List.mem_range.mp inRows
    obtain ⟨i,byte,rfl⟩ := mem_wordWrites member
    rw [saved.words row below col (List.mem_range.mp inColumns),inRow below]
    exact loadWord_byte original _ byte
  · rintro address ⟨row,below,col,inside,i,byte,rfl⟩
    obtain ⟨value,member⟩ := wordWrites_covered (wordAddress o.display (o.cursor.underX + col) (o.cursor.underY + row))
      (o.cursor.under (row * cursorUnderW + col)) byte
    refine ⟨value,List.mem_flatMap.mpr ⟨row,List.mem_range.mpr below,List.mem_flatMap.mpr ⟨col,List.mem_range.mpr inside,?_⟩⟩⟩
    rw [inRow below]
    exact member

end Hide

section Keeps
variable {d : Display} {o : Overlay}

/-- The sizes of a screen on which there is a place for the cursor. -/
theorem sizes_small (sized : d.Sized) (supported : overlaySupported d) {x y : Nat} (column : x < d.width) (row : y < d.height) :
    d.width < 2^31 ∧ d.height < 2^31 := by
  have desk : d.desktopMode = true := by
    simp only [overlaySupported,Bool.and_eq_true] at supported
    exact supported.1.1.2
  have few := sized (.inl desk)
  have one := Nat.le_mul_of_pos_right d.width (by omega : 0 < d.height)
  have two := Nat.le_mul_of_pos_left d.height (by omega : 0 < d.width)
  omega

/-- The fields of the screen that no cursor call changes. -/
theorem Undoable.fields (undoable : Undoable d o) :
    o.display.width = d.width ∧ o.display.height = d.height ∧ overlaySupported o.display = overlaySupported d := by
  rw [undoable.screen]
  exact ⟨rfl,rfl,rfl⟩

/-- While the cursor is taken away the memory differs under it only, and afterwards nowhere. -/
theorem Undoable.hide (undoable : Undoable d o) (sized : d.Sized) :
    (∀ writes,writes <+: hideWrites o → OnlyUnder d.memory (o.write writes)) ∧
      (framebufferCursorHide o).display = d ∧ (framebufferCursorHide o).cursor.visible = false := by
  obtain ⟨width,height,supported⟩ := undoable.fields
  by_cases visible : o.cursor.visible = true
  · obtain ⟨on,saved,only⟩ := undoable.drawn visible
    have drawn : (overlaySupported o.display && o.cursor.visible) = true := by rw [supported,on,visible]; rfl
    have small := sizes_small sized on (width ▸ saved.place.1) (height ▸ saved.place.2)
    obtain ⟨back,whole⟩ := @hideWrites_back d.memory o (by omega) (by omega) drawn saved
    refine ⟨fun writes first address differs => ?_,?_,?_⟩
    · have again : ∀ w ∈ writes,w.2 = d.memory w.1 := fun w member => back w (first.subset member)
      by_cases covered : Covered writes address
      · exact absurd (writeAll_covered again covered o.display.memory) differs
      · exact only address fun same => differs ((writeAll_outside covered _).trans same)
    · rw [framebufferCursorHide,if_pos drawn]
      have restored := writeAll_restores back fun address differs => whole address (only address differs)
      change { o.display with memory := writeAll o.display.memory (hideWrites o) } = d
      rw [restored,undoable.screen]
    · rw [framebufferCursorHide,if_pos drawn]
  · have hidden : o.cursor.visible = false := Bool.eq_false_iff.mpr visible
    have off : ¬(overlaySupported o.display && o.cursor.visible) = true := by rw [hidden,Bool.and_false]; exact Bool.false_ne_true
    have same : o.display = d := by
      rw [undoable.screen,undoable.hidden hidden]
    refine ⟨fun writes first address differs => ?_,?_,?_⟩
    · have none : writes = [] := by
        rw [hideWrites,if_neg off] at first
        exact List.prefix_nil.mp first
      rw [none] at differs
      exact absurd (congrFun (undoable.hidden hidden) address) differs
    · rw [framebufferCursorHide,if_neg off,same]
    · rw [framebufferCursorHide,if_neg off,hidden]

/-- The rectangle that a move saves is what the screen leaves of 17 by 19 pixels. -/
theorem saveUnder_size (x y : Nat) (smallW : o.display.width < 2^31) (smallH : o.display.height < 2^31)
    (column : x < o.display.width) (row : y < o.display.height) :
    (saveUnder o x y).cursor.underW = min cursorUnderW (o.display.width - x) ∧
      (saveUnder o x y).cursor.underH = min cursorUnderH (o.display.height - y) := by
  constructor
  · change (if wrap (x + cursorUnderW) > o.display.width then o.display.width - x else cursorUnderW) = _
    unfold wrap cursorUnderW
    split
    · omega
    · omega
  · change (if wrap (y + cursorUnderH) > o.display.height then o.display.height - y else cursorUnderH) = _
    unfold wrap cursorUnderH
    split
    · omega
    · omega

/-- The words that a move saves, each at its own index. -/
theorem saveUnder_words {x y : Nat} (narrow : (saveUnder o x y).cursor.underW ≤ cursorUnderW) {r c : Nat}
    (inRows : r < (saveUnder o x y).cursor.underH) (inColumns : c < (saveUnder o x y).cursor.underW) :
    (saveUnder o x y).cursor.under (r * cursorUnderW + c) = loadWord o.display.memory (wordAddress o.display (x + c) (wrap (y + r))) := by
  let word (k : Nat) := loadWord o.display.memory (underAddress o.display x (wrap (y + k / cursorUnderW)) (k % cursorUnderW))
  have at_place {row col : Nat} (inside : col < cursorUnderW) : word (row * cursorUnderW + col) =
      loadWord o.display.memory (underAddress o.display x (wrap (y + row)) col) := by
    unfold word
    rw [place_div inside,place_mod inside]
  rw [← underAddress_eq,← at_place (Nat.lt_of_lt_of_le inColumns narrow)]
  refine writeAll_covered ?_ ?_ o.cursor.under
  · intro w member
    obtain ⟨row,_,member⟩ := List.mem_flatMap.mp member
    obtain ⟨col,inside,rfl⟩ := List.mem_map.mp member
    exact (at_place (Nat.lt_of_lt_of_le (List.mem_range.mp inside) narrow)).symm
  · exact ⟨_,List.mem_flatMap.mpr ⟨r,List.mem_range.mpr inRows,List.mem_map.mpr ⟨c,List.mem_range.mpr inColumns,rfl⟩⟩⟩

theorem saveUnder_saved {x y : Nat} (column : x < o.display.width) (row : y < o.display.height) (smallW : o.display.width < 2^31)
    (smallH : o.display.height < 2^31) : Saved o.display.memory (saveUnder o x y) := by
  obtain ⟨width,height⟩ := saveUnder_size x y smallW smallH column row
  refine ⟨⟨column,row⟩,?_,?_,fun r inRows c inColumns => ?_⟩
  · rw [width]
    change x + _ ≤ o.display.width
    omega
  · rw [height]
    change y + _ ≤ o.display.height
    omega
  · have in_screen : wrap (y + r) = y + r := by
      rw [height] at inRows
      exact Nat.mod_eq_of_lt (by omega)
    have words := saveUnder_words (by rw [width]; omega) inRows inColumns
    rw [in_screen] at words
    exact words

/-- The arrow and its shadow stay in the rectangle that was saved. -/
theorem arrowWrites_under {x y : Nat} (column : x < o.display.width) (row : y < o.display.height) (smallW : o.display.width < 2^31)
    (smallH : o.display.height < 2^31) {address : Nat} (covered : Covered (arrowWrites o.display x y) address) :
    UnderBytes (saveUnder o x y) address := by
  obtain ⟨width,height⟩ := saveUnder_size x y smallW smallH column row
  have pixel {px py r c : Nat} (set : arrowPixel o.display r c px py = true) (right : x ≤ px ∧ px < x + cursorUnderW)
      (down : y ≤ py ∧ py < y + cursorUnderH) {word : Pixel} {w : Nat × Byte} (member : w ∈ wordWrites (wordAddress o.display px py) word) :
      UnderBytes (saveUnder o x y) w.1 := by
    obtain ⟨i,byte,rfl⟩ := mem_wordWrites member
    simp only [arrowPixel,Bool.and_eq_true,decide_eq_true_iff] at set
    refine ⟨py - y,?_,px - x,?_,i,byte,?_⟩
    · rw [height]
      omega
    · rw [width]
      omega
    · change wrap (wordAddress o.display px py + i) = wrap (wordAddress o.display (x + (px - x)) (y + (py - y)) + i)
      rw [Nat.add_sub_cancel' right.1,Nat.add_sub_cancel' down.1]
  obtain ⟨value,member⟩ := covered
  rcases List.mem_append.mp member with member | member
  · obtain ⟨r,inRows,member⟩ := List.mem_flatMap.mp member
    obtain ⟨c,inColumns,member⟩ := List.mem_flatMap.mp member
    have rows := List.mem_range.mp inRows
    have columns := List.mem_range.mp inColumns
    have px : wrap (wrap (x + c) + 1) = x + c + 1 := by
      unfold wrap cursorArrowW at *
      omega
    have py : wrap (wrap (y + r) + 1) = y + r + 1 := by
      unfold wrap cursorArrowH at *
      omega
    dsimp only at member
    rw [px,py] at member
    split at member
    next set =>
      unfold cursorArrowW cursorArrowH at *
      exact pixel set (by unfold cursorUnderW; omega) (by unfold cursorUnderH; omega) member
    · cases member
  · obtain ⟨r,inRows,member⟩ := List.mem_flatMap.mp member
    obtain ⟨c,inColumns,member⟩ := List.mem_flatMap.mp member
    have rows := List.mem_range'_1.mp inRows
    have columns := List.mem_range'_1.mp inColumns
    have px : wrap (x + c) = x + c := by
      unfold wrap cursorArrowW at *
      omega
    have py : wrap (y + r) = y + r := by
      unfold wrap cursorArrowH at *
      omega
    dsimp only at member
    rw [px,py] at member
    split at member
    next set =>
      unfold cursorArrowW cursorArrowH at *
      exact pixel set (by unfold cursorUnderW; omega) (by unfold cursorUnderH; omega) member
    · cases member

end Keeps

section Steps
variable {d : Display} {o : Overlay}

/-- While the arrow is drawn over a memory that was saved, that memory changes under it only. -/
theorem arrow_stages {x y : Nat} (memory : o.display = d) (column : x < d.width) (row : y < d.height) (small : d.width < 2^31 ∧ d.height < 2^31)
    {writes : List (Nat × Byte)} (first : writes <+: arrowWrites d x y) : OnlyUnder d.memory ((saveUnder o x y).write writes) := by
  subst memory
  intro address differs
  by_cases covered : Covered writes address
  · exact arrowWrites_under column row small.1 small.2 (covered.mono first)
  · exact absurd (writeAll_outside covered o.display.memory) differs

theorem Undoable.move (undoable : Undoable d o) (sized : d.Sized) (x y : Nat) : Undoable d (framebufferCursorMove o x y) := by
  obtain ⟨width,height,supported⟩ := undoable.fields
  by_cases off : (!overlaySupported o.display) = true
  · rw [framebufferCursorMove,if_pos off]
    exact undoable
  have on : overlaySupported d = true := by rw [← supported]; simpa using off
  obtain ⟨_,restored,gone⟩ := undoable.hide sized
  have calm : Undoable d (framebufferCursorHide o) := by
    refine ⟨by rw [restored],fun _ => by rw [restored],fun shown => ?_⟩
    rw [gone] at shown
    cases shown
  rw [framebufferCursorMove,if_neg off]
  dsimp only
  by_cases outside : x ≥ o.display.width ∨ y ≥ o.display.height
  · rw [if_pos outside]
    exact calm
  rw [if_neg outside]
  have column : x < d.width := by omega
  have row : y < d.height := by omega
  have small := sizes_small sized on column row
  have same : arrowWrites o.display x y = arrowWrites d x y := by
    rw [undoable.screen]
    rfl
  rw [same]
  refine ⟨?_,nofun,fun _ => ⟨on,?_,?_⟩⟩
  · change ({ (framebufferCursorHide o).display with memory := _ } : Display) = { d with memory := _ }
    rw [restored]
    rfl
  · have saved := @saveUnder_saved (framebufferCursorHide o) x y (by rw [restored]; exact column) (by rw [restored]; exact row)
      (by rw [restored]; exact small.1) (by rw [restored]; exact small.2)
    rw [restored] at saved
    exact ⟨saved.place,saved.columns,saved.rows,saved.words⟩
  · exact arrow_stages restored column row small (List.prefix_refl _)

theorem Undoable.step (sized : d.Sized) (o : Overlay) (c : CursorCall) (undoable : Undoable d o) : Undoable d (cursorStep o c) := by
  cases c with
  | move x y => exact undoable.move sized x.toNat y.toNat
  | hide =>
    obtain ⟨_,restored,gone⟩ := undoable.hide sized
    refine ⟨by rw [cursorStep,restored],fun _ => by rw [cursorStep,restored],fun shown => ?_⟩
    rw [cursorStep,gone] at shown
    cases shown

/-- A state between calls differs from the start under the cursor only. -/
theorem Undoable.only (undoable : Undoable d o) : OnlyUnder d.memory o := by
  by_cases visible : o.cursor.visible = true
  · exact (undoable.drawn visible).2.2
  · intro address differs
    exact absurd (congrFun (undoable.hidden (Bool.eq_false_iff.mpr visible)) address) differs

/-- So does every state that a call goes through. -/
theorem Undoable.stages (undoable : Undoable d o) (sized : d.Sized) (c : CursorCall) : ∀ m ∈ cursorStages o c,OnlyUnder d.memory m := by
  obtain ⟨taken,restored,gone⟩ := undoable.hide sized
  have hides : ∀ m ∈ o.stages (hideWrites o) ++ [framebufferCursorHide o],OnlyUnder d.memory m := by
    intro m member
    rcases List.mem_append.mp member with member | member
    · obtain ⟨writes,first,rfl⟩ := List.mem_map.mp member
      exact taken writes ((List.mem_inits _ _).mp first)
    · rw [List.mem_singleton.mp member]
      intro address differs
      rw [restored] at differs
      exact absurd rfl differs
  cases c with
  | hide => exact hides
  | move x y =>
    obtain ⟨width,height,supported⟩ := undoable.fields
    intro m member
    rw [cursorStages] at member
    by_cases off : (!overlaySupported o.display) = true
    · rw [if_pos off,List.mem_singleton] at member
      rw [member]
      exact undoable.only
    have on : overlaySupported d = true := by rw [← supported]; simpa using off
    rw [if_neg off] at member
    rcases List.mem_append.mp member with member | member
    · exact hides m member
    by_cases outside : x.toNat ≥ o.display.width ∨ y.toNat ≥ o.display.height
    · rw [if_pos outside] at member
      cases member
    rw [if_neg outside] at member
    have column : x.toNat < d.width := by omega
    have row : y.toNat < d.height := by omega
    rcases List.mem_append.mp member with member | member
    · obtain ⟨writes,first,rfl⟩ := List.mem_map.mp member
      have same : arrowWrites o.display x.toNat y.toNat = arrowWrites d x.toNat y.toNat := by
        rw [undoable.screen]
        rfl
      rw [same] at first
      exact arrow_stages restored column row (sizes_small sized on column row) ((List.mem_inits _ _).mp first)
    · rw [List.mem_singleton.mp member]
      exact (undoable.move sized x.toNat y.toNat).only

end Steps

/-- After any moves of a cursor that was hidden at first, hiding it gives back every byte, and
in every state of the next call only bytes of the rectangle under the cursor differ. -/
theorem cursor_undone {o : Overlay} (sized : o.display.Sized) (hidden : o.cursor.visible = false) (calls : List CursorCall) :
    (framebufferCursorHide (run cursorStep o calls)).display.memory = o.display.memory ∧
      ∀ c,∀ m ∈ cursorStages (run cursorStep o calls) c,OnlyUnder o.display.memory m := by
  have start : Undoable o.display o := by
    refine ⟨rfl,fun _ => rfl,fun shown => ?_⟩
    rw [hidden] at shown
    cases shown
  have reached : Undoable o.display (run cursorStep o calls) := run_invariant (Undoable.step sized) start
  exact ⟨congrArg Display.memory (reached.hide sized).2.1,fun c => reached.stages sized c⟩

/-- A screen of 640 by 480 pixels of 32 bits, before the first move. -/
def trueColor : Overlay where
  display :=
    { highColor with
      pitch := 2560
      format := ⟨32,16,8,8,8,0,8⟩ }
  cursor := ⟨fun _ => 0,0,0,0,0,false⟩

theorem cursor_undone_corner :
    (framebufferCursorHide (run cursorStep trueColor [.move 639 479])).display.memory = trueColor.display.memory ∧
      ∀ c,∀ m ∈ cursorStages (run cursorStep trueColor [.move 639 479]) c,OnlyUnder trueColor.display.memory m :=
  cursor_undone (fun _ => by decide) rfl _

end LionOS.Video

import Mathlib.Logic.Function.Basic
import LionOS.Library.Raster
import LionOS.Library.Simulation
import LionOS.Physical

/-! The console in text mode and on the framebuffer: what it shows is the end of a page without end,
the last lines in text mode and the last sheet on the framebuffer. -/
namespace LionOS.Video
open LionOS.Library
open LionOS.Physical (Byte)

def vgaWidth : Nat := 80
def vgaHeight : Nat := 25

def newline : Byte := 10
def carriage : Byte := 13
def backspace : Byte := 8
def blank : Byte := 32

/-- A cell of the text screen: `((uint16_t)color << 8) | c`. -/
def vgaCell (color c : Byte) : BitVec 16 := color.setWidth 16 <<< 8 ||| c.setWidth 16

def palette : List (BitVec 32) :=
  [0x000000,0x2244AA,0x2ECC71,0x1ABC9C,0xE74C3C,0x9B59B6,0x9A6B30,0xD6DEEB,
    0x5B6B7A,0x3498DB,0x66FF99,0x66FFFF,0xFF6B6B,0xFF7AC8,0xF2C14E,0xF5F7FA]

def fgRgb (color : Byte) : BitVec 32 := palette.getD (color &&& 0x0F).toNat 0
def bgRgb : BitVec 32 := 0x07111F

structure Framebuffer where
  available : Bool
  width : Nat
  height : Nat

def Framebuffer.rows (fb : Framebuffer) : Nat := if fb.height > 52 + 48 then (fb.height - 52 - 48) / 16 else 0
def Framebuffer.cols (fb : Framebuffer) : Nat := if fb.width > 16 then (fb.width - 16) / 12 else 0

structure Glyph where
  c : Byte
  fg : BitVec 32
  bg : BitVec 32

/-- The console, with what the cells of the framebuffer show: a character, or nothing after a clear. -/
structure Console where
  vga : Nat → BitVec 16
  grid : Nat → Nat → Option Glyph
  row : Nat
  col : Nat
  color : Byte
  graphics : Bool

def framebufferConsoleClear (fb : Framebuffer) (s : Console) : Console :=
  if fb.available then {s with grid := fun _ _ => none} else s

def framebufferConsolePutc (fb : Framebuffer) (s : Console) (c : Byte) (row col : Nat) (fg bg : BitVec 32) : Console :=
  if !fb.available ∨ row ≥ fb.rows ∨ col ≥ fb.cols then s
  else {s with grid := Function.update s.grid row (Function.update (s.grid row) col (some ⟨c,fg,bg⟩))}

/-- `VGA[i] = ...` for the `n` cells from `first` on. -/
def vgaFill (vga : Nat → BitVec 16) (first n : Nat) (cell : BitVec 16) : Nat → BitVec 16 :=
  (List.range n).foldl (fun vga x => Function.update vga (first + x) cell) vga

/-- The inner loop of `vga_scroll`: line `y` goes up. -/
def vgaUp (vga : Nat → BitVec 16) (y : Nat) : Nat → BitVec 16 :=
  (List.range vgaWidth).foldl (fun vga x => Function.update vga ((y - 1) * vgaWidth + x) (vga (y * vgaWidth + x))) vga

def vgaScroll (s : Console) : Console :=
  if s.row < vgaHeight then s
  else
    let vga := (List.range' 1 (vgaHeight - 1)).foldl vgaUp s.vga
    {s with vga := vgaFill vga ((vgaHeight - 1) * vgaWidth) vgaWidth (vgaCell s.color blank),row := vgaHeight - 1}

def consoleClear (fb : Framebuffer) (s : Console) : Console :=
  if s.graphics then {framebufferConsoleClear fb s with row := 0,col := 0}
  else {s with vga := vgaFill s.vga 0 (vgaWidth * vgaHeight) (vgaCell s.color blank),row := 0,col := 0}

def consoleInit (fb : Framebuffer) (s : Console) : Console := consoleClear fb {s with color := 7,graphics := false}

def consoleSetColor (s : Console) (fg : Byte) : Console := {s with color := fg &&& 0x0F}

def consoleUseFramebuffer (fb : Framebuffer) (s : Console) : Console :=
  if fb.available then {s with graphics := true,row := 0,col := 0} else s

def consolePutc (fb : Framebuffer) (s : Console) (c : Byte) : Console :=
  if s.graphics then
    let rows := fb.rows
    let cols := fb.cols
    if rows = 0 ∨ cols = 0 then s
    else if c = newline then
      let s := {s with col := 0,row := s.row + 1}
      if s.row ≥ rows then consoleClear fb s else s
    else if c = carriage then {s with col := 0}
    else if c = backspace then
      let s := if s.col ≠ 0 then {s with col := s.col - 1} else s
      framebufferConsolePutc fb s blank s.row s.col bgRgb bgRgb
    else
      let s := framebufferConsolePutc fb s c s.row s.col (fgRgb s.color) bgRgb
      if s.col + 1 ≥ cols then
        let s := {s with col := 0,row := s.row + 1}
        if s.row ≥ rows then consoleClear fb s else s
      else {s with col := s.col + 1}
  else if c = newline then vgaScroll {s with col := 0,row := s.row + 1}
  else if c = carriage then {s with col := 0}
  else if c = backspace then
    let s := if s.col ≠ 0 then {s with col := s.col - 1} else s
    {s with vga := Function.update s.vga (s.row * vgaWidth + s.col) (vgaCell s.color blank)}
  else
    let s := {s with vga := Function.update s.vga (s.row * vgaWidth + s.col) (vgaCell s.color c)}
    if s.col + 1 ≥ vgaWidth then vgaScroll {s with col := 0,row := s.row + 1} else {s with col := s.col + 1}

/-- The calls on the console; `console_write` and the others are runs of `putc`. -/
inductive ConsoleCall
  | putc (c : Byte)
  | clear
  | setColor (fg : Byte)
  | useFramebuffer

def consoleStep (fb : Framebuffer) (s : Console) : ConsoleCall → Console
  | .putc c => consolePutc fb s c
  | .clear => consoleClear fb s
  | .setColor fg => consoleSetColor s fg
  | .useFramebuffer => consoleUseFramebuffer fb s

/-- A cell of the page: what was there before, empty since a clear, rubbed out, or a character. -/
inductive PageCell
  | before
  | empty (color : Byte)
  | erased (color : Byte)
  | char (c color : Byte)

/-- The page that is written, its lines without end. -/
structure Page where
  cells : Nat → Nat → PageCell
  line : Nat
  col : Nat
  color : Byte
  graphics : Bool

def Page.width (fb : Framebuffer) (p : Page) : Nat := if p.graphics then fb.cols else vgaWidth

/-- The line of the screen that the line is shown on. -/
def Page.row (fb : Framebuffer) (p : Page) : Nat :=
  if p.graphics then p.line % fb.rows else p.line - (p.line - (vgaHeight - 1))

def Page.write (p : Page) (cell : PageCell) : Page :=
  {p with cells := Function.update p.cells p.line (Function.update (p.cells p.line) p.col cell)}

/-- The next line; below the first lines of the text screen it takes the color of its time. -/
def Page.next (p : Page) : Page :=
  {p with
    cells := if !p.graphics ∧ p.line + 1 ≥ vgaHeight then Function.update p.cells (p.line + 1) fun _ => .empty p.color else p.cells
    line := p.line + 1
    col := 0}

def Page.putc (fb : Framebuffer) (p : Page) (c : Byte) : Page :=
  if c = newline then p.next
  else if c = carriage then {p with col := 0}
  else if c = backspace then
    let p := {p with col := p.col - 1}
    p.write (.erased p.color)
  else
    let p := p.write (.char c p.color)
    if p.col + 1 ≥ p.width fb then p.next else {p with col := p.col + 1}

def Page.clear (p : Page) : Page := {p with cells := fun _ _ => .empty p.color,line := 0,col := 0}

def pageStep (fb : Framebuffer) (p : Page) : ConsoleCall → Page
  | .putc c => p.putc fb c
  | .clear => p.clear
  | .setColor fg => {p with color := fg &&& 0x0F}
  | .useFramebuffer =>
    if fb.available then
      {p with cells := fun line _ => if line < fb.rows then .before else .empty p.color,line := 0,col := 0,graphics := true}
    else p

def firstPage : Page := ⟨fun _ _ => .empty 7,0,0,7,false⟩

/-- How the text screen shows a cell. -/
def PageCell.text : PageCell → Option (BitVec 16)
  | .before => none
  | .empty color | .erased color => some (vgaCell color blank)
  | .char c color => some (vgaCell color c)

/-- How the framebuffer shows a cell. -/
def PageCell.glyph : PageCell → Option (Option Glyph)
  | .before => none
  | .empty _ => some none
  | .erased _ => some (some ⟨blank,bgRgb,bgRgb⟩)
  | .char c color => some (some ⟨c,fgRgb color,bgRgb⟩)

/-- The console shows the end of the page: the last lines in text mode, the sheet that the line is on
where the framebuffer is used. Nothing beyond the text screen is written. -/
structure ShowsPage (fb : Framebuffer) (beyond : Nat → BitVec 16) (s : Console) (p : Page) : Prop where
  color : s.color = p.color
  graphics : s.graphics = p.graphics
  available : p.graphics = true → fb.available = true
  col : s.col = p.col
  width : p.col < p.width fb
  outside : ∀ i, vgaWidth * vgaHeight ≤ i → s.vga i = beyond i
  row : s.row = p.row fb
  text : p.graphics = false → ∀ y < vgaHeight, ∀ x < vgaWidth,
    some (s.vga (y * vgaWidth + x)) = (p.cells (p.line - (vgaHeight - 1) + y) x).text
  sheet : p.graphics = true → ∀ y < fb.rows, ∀ x < fb.cols,
    ∀ shown, (p.cells (p.line / fb.rows * fb.rows + y) x).glyph = some shown → s.grid y x = shown
  ahead : p.graphics = true → ∀ line, (p.line / fb.rows + 1) * fb.rows ≤ line → ∀ x, (p.cells line x).glyph = some none

section Screen

theorem vgaFill_apply (vga : Nat → BitVec 16) (first n : Nat) (cell : BitVec 16) (i : Nat) :
    vgaFill vga first n cell i = if first ≤ i ∧ i < first + n then cell else vga i := by
  induction n with
  | zero => exact (if_neg (by omega)).symm
  | succ n ih =>
    unfold vgaFill at ih ⊢
    rw [List.range_succ,List.foldl_append,List.foldl_cons,List.foldl_nil]
    by_cases here : i = first + n
    · rw [here,Function.update_self,if_pos (by omega)]
    · rw [Function.update_of_ne here,ih]
      exact if_congr (by omega) rfl rfl

/-- A line goes up: what is copied later is not yet written. -/
theorem vgaUp_apply (vga : Nat → BitVec 16) (y i : Nat) :
    vgaUp vga (y + 1) i = if y * vgaWidth ≤ i ∧ i < y * vgaWidth + vgaWidth then vga (i + vgaWidth) else vga i := by
  have part (n : Nat) (few : n ≤ vgaWidth) (i : Nat) :
      (List.range n).foldl (fun vga x => Function.update vga (y * vgaWidth + x) (vga ((y + 1) * vgaWidth + x))) vga i =
        if y * vgaWidth ≤ i ∧ i < y * vgaWidth + n then vga (i + vgaWidth) else vga i := by
    induction n generalizing i with
    | zero => exact (if_neg (by omega)).symm
    | succ n ih =>
      rw [List.range_succ,List.foldl_append,List.foldl_cons,List.foldl_nil]
      by_cases here : i = y * vgaWidth + n
      · have next : (y + 1) * vgaWidth + n = y * vgaWidth + n + vgaWidth := by rw [Nat.succ_mul]; omega
        rw [here,Function.update_self,ih (by omega),next,if_neg (by omega),if_pos (by omega)]
      · rw [Function.update_of_ne here,ih (by omega)]
        exact if_congr (by omega) rfl rfl
  exact part vgaWidth (Nat.le_refl _) i

theorem vgaUps_apply (vga : Nat → BitVec 16) (lines i : Nat) :
    (List.range' 1 lines).foldl vgaUp vga i = if i < lines * vgaWidth then vga (i + vgaWidth) else vga i := by
  induction lines generalizing i with
  | zero => exact (if_neg (by omega)).symm
  | succ lines ih =>
    rw [List.range'_1_concat,List.foldl_append,List.foldl_cons,List.foldl_nil,Nat.add_comm 1 lines,vgaUp_apply,ih,ih,Nat.succ_mul]
    split
    next here => rw [if_neg (by omega),if_pos (by omega)]
    next other => exact if_congr (by omega) rfl rfl

theorem vgaScroll_apply {s : Console} (full : s.row = vgaHeight) (i : Nat) :
    (vgaScroll s).vga i = if i < (vgaHeight - 1) * vgaWidth then s.vga (i + vgaWidth)
      else if i < vgaHeight * vgaWidth then vgaCell s.color blank else s.vga i := by
  unfold vgaScroll
  rw [if_neg (by omega)]
  dsimp only
  have size : vgaHeight * vgaWidth = (vgaHeight - 1) * vgaWidth + vgaWidth := rfl
  rw [vgaFill_apply,vgaUps_apply,size]
  by_cases low : i < (vgaHeight - 1) * vgaWidth
  · rw [if_neg (by omega),if_pos low,if_pos low]
  · rw [if_neg low,if_neg low]
    exact if_congr (by omega) rfl rfl

theorem vgaScroll_row {s : Console} (full : s.row = vgaHeight) : (vgaScroll s).row = vgaHeight - 1 := by
  unfold vgaScroll
  rw [if_neg (by omega)]

end Screen

section Steps
variable {fb : Framebuffer} {beyond : Nat → BitVec 16} {s : Console} {p : Page}

theorem ShowsPage.moves (shows : ShowsPage fb beyond s p) {col : Nat} (within : col < p.width fb) :
    ShowsPage fb beyond {s with col} {p with col} :=
  {shows with col := rfl,width := within}

theorem ShowsPage.colors (shows : ShowsPage fb beyond s p) (color : Byte) :
    ShowsPage fb beyond {s with color} {p with color} :=
  {shows with color := rfl}

/-- The line that is written is the one of the cursor on the text screen. -/
theorem ShowsPage.row_text (shows : ShowsPage fb beyond s p) (text : p.graphics = false) :
    s.row < vgaHeight ∧ p.line - (vgaHeight - 1) + s.row = p.line := by
  have row := shows.row
  rw [Page.row,text] at row
  simp only [vgaHeight,Bool.false_eq_true,if_false] at row ⊢
  omega

theorem ShowsPage.writes_text (shows : ShowsPage fb beyond s p) (text : p.graphics = false) {cell : PageCell} {value : BitVec 16}
    (same : cell.text = some value) :
    ShowsPage fb beyond {s with vga := Function.update s.vga (s.row * vgaWidth + s.col) value} (p.write cell) := by
  obtain ⟨low,line⟩ := shows.row_text text
  have col := shows.col
  have width := shows.width
  have narrow : s.col < vgaWidth := by
    rw [Page.width,text,if_neg (by decide)] at width
    omega
  refine {shows with outside := ?_,text := ?_,sheet := fun graphics => ?_,ahead := fun graphics => ?_}
  · intro i far
    dsimp only
    rw [Function.update_of_ne ?_]
    · exact shows.outside i far
    · simp only [vgaWidth,vgaHeight] at *
      omega
  · intro _ y inY x inX
    dsimp only [Page.write]
    by_cases here : y = s.row ∧ x = s.col
    · obtain ⟨rfl,rfl⟩ := here
      rw [Function.update_self,line,Function.update_self,col,Function.update_self,same]
    · have other : y * vgaWidth + x ≠ s.row * vgaWidth + s.col := by
        simp only [vgaWidth,vgaHeight] at *
        omega
      rw [Function.update_of_ne other,shows.text text y inY x inX]
      by_cases level : y = s.row
      · rw [level,line,Function.update_self,Function.update_of_ne (by omega)]
      · rw [Function.update_of_ne (by omega)]
  · rw [show (p.write cell).graphics = p.graphics from rfl,text] at graphics
    cases graphics
  · rw [show (p.write cell).graphics = p.graphics from rfl,text] at graphics
    cases graphics

/-- On the text screen the next line comes below, or all lines go up. -/
theorem ShowsPage.next_text (shows : ShowsPage fb beyond s p) (text : p.graphics = false) :
    ShowsPage fb beyond (vgaScroll {s with col := 0,row := s.row + 1}) p.next := by
  obtain ⟨low,line⟩ := shows.row_text text
  have row := shows.row
  rw [Page.row,text,if_neg (by decide)] at row
  have wide : 0 < p.next.width fb := by
    rw [Page.width,show p.next.graphics = false from text,if_neg (by decide)]
    decide
  have onText (graphics : p.next.graphics = true) : False := by
    rw [show p.next.graphics = p.graphics from rfl,text] at graphics
    cases graphics
  by_cases full : s.row + 1 = vgaHeight
  · have here : ({s with col := 0,row := s.row + 1} : Console).row = vgaHeight := full
    have cells := vgaScroll_apply here
    have ends := vgaScroll_row here
    have kept : (vgaScroll {s with col := 0,row := s.row + 1}).color = s.color ∧
        (vgaScroll {s with col := 0,row := s.row + 1}).graphics = s.graphics ∧ (vgaScroll {s with col := 0,row := s.row + 1}).col = 0 := by
      unfold vgaScroll
      split
      · exact ⟨rfl,rfl,rfl⟩
      · exact ⟨rfl,rfl,rfl⟩
    have below : p.line + 1 ≥ vgaHeight := by simp only [vgaHeight] at *; omega
    have entered : p.next.cells = Function.update p.cells (p.line + 1) fun _ => .empty p.color := by
      unfold Page.next
      dsimp only
      rw [if_pos ⟨by rw [text]; rfl,below⟩]
    refine ⟨kept.1.trans shows.color,kept.2.1.trans shows.graphics,fun graphics => (onText graphics).elim,kept.2.2,wide,?_,?_,?_,
      fun graphics => (onText graphics).elim,fun graphics => (onText graphics).elim⟩
    · intro i far
      rw [cells,if_neg (by simp only [vgaHeight,vgaWidth] at *; omega),if_neg (by simp only [vgaHeight,vgaWidth] at *; omega)]
      exact shows.outside i far
    · rw [ends,Page.row,show p.next.graphics = false from text,if_neg (by decide)]
      show vgaHeight - 1 = p.line + 1 - (p.line + 1 - (vgaHeight - 1))
      omega
    · intro _ y inY x inX
      rw [cells,entered]
      show _ = (Function.update p.cells (p.line + 1) (fun _ => PageCell.empty p.color) (p.line + 1 - (vgaHeight - 1) + y) x).text
      by_cases last : y = vgaHeight - 1
      · have place : p.line + 1 - (vgaHeight - 1) + y = p.line + 1 := by omega
        rw [place,Function.update_self,if_neg (by simp only [vgaHeight,vgaWidth] at *; omega),
          if_pos (by simp only [vgaHeight,vgaWidth] at *; omega)]
        exact congrArg (fun color => some (vgaCell color blank)) shows.color
      · have place : p.line + 1 - (vgaHeight - 1) + y = p.line - (vgaHeight - 1) + (y + 1) := by omega
        have up : y * vgaWidth + x + vgaWidth = (y + 1) * vgaWidth + x := by rw [Nat.succ_mul]; omega
        rw [place,Function.update_of_ne (by omega),if_pos (by simp only [vgaHeight,vgaWidth] at *; omega)]
        dsimp only
        rw [up]
        exact shows.text text (y + 1) (by omega) x inX
  · have room : vgaScroll {s with col := 0,row := s.row + 1} = {s with col := 0,row := s.row + 1} :=
      if_pos (by dsimp only; omega)
    have short : ¬(p.line + 1 ≥ vgaHeight) := by simp only [vgaHeight] at *; omega
    have entered : p.next.cells = p.cells := by
      unfold Page.next
      dsimp only
      rw [if_neg fun both => short both.2]
    have place : p.next.line - (vgaHeight - 1) = p.line - (vgaHeight - 1) := by
      show p.line + 1 - (vgaHeight - 1) = _
      simp only [vgaHeight] at *
      omega
    rw [room]
    refine ⟨shows.color,shows.graphics,fun graphics => (onText graphics).elim,rfl,wide,shows.outside,?_,?_,
      fun graphics => (onText graphics).elim,fun graphics => (onText graphics).elim⟩
    · rw [Page.row,show p.next.graphics = false from text,if_neg (by decide)]
      show s.row + 1 = p.line + 1 - (p.next.line - (vgaHeight - 1))
      rw [place]
      omega
    · intro _ y inY x inX
      rw [entered,place]
      exact shows.text text y inY x inX

theorem ShowsPage.row_sheet (shows : ShowsPage fb beyond s p) (graphics : p.graphics = true) (rows : 0 < fb.rows) :
    s.row = p.line % fb.rows ∧ s.row < fb.rows ∧ p.line / fb.rows * fb.rows + s.row = p.line := by
  have row := shows.row
  rw [Page.row,graphics,if_pos rfl] at row
  exact ⟨row,row ▸ Nat.mod_lt _ rows,row ▸ place_eq fb.rows p.line⟩

/-- What is written on the framebuffer is drawn: the cursor is inside of it. -/
theorem ShowsPage.writes_sheet (shows : ShowsPage fb beyond s p) (graphics : p.graphics = true) (rows : 0 < fb.rows)
    {cell : PageCell} {g : Glyph} (same : cell.glyph = some (some g)) :
    ShowsPage fb beyond (framebufferConsolePutc fb s g.c s.row s.col g.fg g.bg) (p.write cell) := by
  obtain ⟨_,low,line⟩ := shows.row_sheet graphics rows
  have col := shows.col
  have narrow : s.col < fb.cols := by
    have width := shows.width
    rw [Page.width,if_pos graphics] at width
    omega
  have drawn : framebufferConsolePutc fb s g.c s.row s.col g.fg g.bg =
      {s with grid := Function.update s.grid s.row (Function.update (s.grid s.row) s.col (some g))} := by
    unfold framebufferConsolePutc
    rw [if_neg]
    rw [shows.available graphics,not_or,not_or]
    exact ⟨by decide,by omega,by omega⟩
  rw [drawn]
  refine {shows with text := fun text => ?_,sheet := ?_,ahead := ?_}
  · rw [show (p.write cell).graphics = p.graphics from rfl,graphics] at text
    cases text
  · intro _ y inY x inX shown here
    dsimp only [Page.write] at here ⊢
    by_cases level : y = s.row
    · rw [level,line,Function.update_self] at here
      rw [level,Function.update_self]
      by_cases place : x = s.col
      · rw [place,col,Function.update_self,same] at here
        rw [place,Function.update_self]
        exact Option.some.inj here
      · rw [Function.update_of_ne (by omega)] at here
        rw [Function.update_of_ne place]
        exact shows.sheet graphics s.row low x inX shown (line.symm ▸ here)
    · rw [Function.update_of_ne (by omega)] at here
      rw [Function.update_of_ne level]
      exact shows.sheet graphics y inY x inX shown here
  · intro _ later far x
    dsimp only [Page.write]
    have other : later ≠ p.line := by
      have far' : (p.line / fb.rows + 1) * fb.rows ≤ later := far
      rw [Nat.succ_mul] at far'
      omega
    rw [Function.update_of_ne other]
    exact shows.ahead graphics later far x

theorem consoleClear_graphics (on : s.graphics = true) (available : fb.available = true) :
    consoleClear fb s = {s with grid := fun _ _ => none,row := 0,col := 0} := by
  unfold consoleClear framebufferConsoleClear
  rw [if_pos on,if_pos available]

/-- On the framebuffer the next line comes below, or a new sheet. -/
theorem ShowsPage.next_sheet (shows : ShowsPage fb beyond s p) (graphics : p.graphics = true) (rows : 0 < fb.rows) (cols : 0 < fb.cols) :
    ShowsPage fb beyond (if s.row + 1 ≥ fb.rows then consoleClear fb {s with col := 0,row := s.row + 1} else {s with col := 0,row := s.row + 1})
      p.next := by
  obtain ⟨row,low,line⟩ := shows.row_sheet graphics rows
  have available := shows.available graphics
  have on : s.graphics = true := shows.graphics.trans graphics
  have entered : p.next.cells = p.cells := by
    unfold Page.next
    dsimp only
    rw [if_neg fun both => by rw [graphics] at both; exact absurd both.1 (by decide)]
  have wide : 0 < p.next.width fb := by
    rw [Page.width,if_pos (show p.next.graphics = true from graphics)]
    exact cols
  have offText (text : p.next.graphics = false) : False := by
    rw [show p.next.graphics = p.graphics from rfl,graphics] at text
    cases text
  split
  next full =>
    have whole : p.line + 1 = (p.line / fb.rows + 1) * fb.rows + 0 := by rw [Nat.succ_mul]; omega
    have quotient : (p.line + 1) / fb.rows = p.line / fb.rows + 1 := by
      rw [whole]
      exact place_div rows _
    have remainder : (p.line + 1) % fb.rows = 0 := by
      rw [whole]
      exact place_mod rows _
    have cleared : consoleClear fb {s with col := 0,row := s.row + 1} = {s with grid := fun _ _ => none,row := 0,col := 0} :=
      consoleClear_graphics on available
    rw [cleared]
    refine ⟨shows.color,shows.graphics,fun _ => available,rfl,wide,shows.outside,?_,fun text => (offText text).elim,?_,?_⟩
    · rw [Page.row,if_pos (show p.next.graphics = true from graphics)]
      exact remainder.symm
    · intro _ y _ x _ shown here
      rw [entered,show p.next.line = p.line + 1 from rfl,quotient,shows.ahead graphics _ (Nat.le_add_right ..) x] at here
      exact Option.some.inj here
    · intro _ later far x
      rw [entered]
      rw [show p.next.line = p.line + 1 from rfl,quotient,Nat.succ_mul] at far
      exact shows.ahead graphics later (by omega) x
  next room =>
    have whole : p.line + 1 = p.line / fb.rows * fb.rows + (s.row + 1) := by omega
    have quotient : (p.line + 1) / fb.rows = p.line / fb.rows := by
      rw [whole]
      exact place_div (by omega) _
    have remainder : (p.line + 1) % fb.rows = s.row + 1 := by
      rw [whole]
      exact place_mod (by omega) _
    refine ⟨shows.color,shows.graphics,fun _ => available,rfl,wide,shows.outside,?_,fun text => (offText text).elim,?_,?_⟩
    · rw [Page.row,if_pos (show p.next.graphics = true from graphics)]
      exact remainder.symm
    · intro _
      rw [entered,show p.next.line = p.line + 1 from rfl,quotient]
      exact shows.sheet graphics
    · intro _
      rw [entered,show p.next.line = p.line + 1 from rfl,quotient]
      exact shows.ahead graphics

theorem ShowsPage.clears (shows : ShowsPage fb beyond s p) (cols : 0 < fb.cols) :
    ShowsPage fb beyond (consoleClear fb s) p.clear := by
  have start : p.clear.width fb = p.width fb := rfl
  by_cases graphics : p.graphics = true
  · have on : s.graphics = true := shows.graphics.trans graphics
    have available := shows.available graphics
    rw [consoleClear_graphics on available]
    refine ⟨shows.color,shows.graphics,fun _ => available,rfl,?_,shows.outside,?_,?_,?_,fun _ _ _ _ => rfl⟩
    · rw [start,Page.width,if_pos graphics]
      exact cols
    · rw [Page.row,if_pos (show p.clear.graphics = true from graphics)]
      exact (Nat.zero_mod fb.rows).symm
    · intro text
      rw [show p.clear.graphics = p.graphics from rfl,graphics] at text
      cases text
    · exact fun _ _ _ _ _ shown here => Option.some.inj here
  · have text : p.graphics = false := by simpa using graphics
    have off : s.graphics ≠ true := fun on => graphics (shows.graphics.symm.trans on)
    have cleared : consoleClear fb s =
        {s with vga := vgaFill s.vga 0 (vgaWidth * vgaHeight) (vgaCell s.color blank),row := 0,col := 0} := by
      unfold consoleClear
      rw [if_neg off]
    rw [cleared]
    refine ⟨shows.color,shows.graphics,fun on => absurd on graphics,rfl,?_,?_,?_,?_,fun on => absurd on graphics,fun on => absurd on graphics⟩
    · rw [start,Page.width,if_neg graphics]
      show 0 < vgaWidth
      decide
    · intro i far
      dsimp only
      rw [vgaFill_apply,if_neg (by omega)]
      exact shows.outside i far
    · rw [Page.row,if_neg (show ¬p.clear.graphics = true from graphics)]
      rfl
    · intro _ y inY x inX
      dsimp only
      rw [vgaFill_apply,if_pos (by simp only [vgaWidth,vgaHeight] at *; omega)]
      exact congrArg (fun color => some (vgaCell color blank)) shows.color

theorem ShowsPage.uses_framebuffer (shows : ShowsPage fb beyond s p) (cols : 0 < fb.cols) :
    ShowsPage fb beyond (consoleUseFramebuffer fb s) (pageStep fb p .useFramebuffer) := by
  unfold consoleUseFramebuffer pageStep
  dsimp only
  split
  next available =>
    refine ⟨shows.color,rfl,fun _ => available,rfl,?_,shows.outside,?_,fun text => (by cases text),?_,?_⟩
    · rw [Page.width,if_pos rfl]
      exact cols
    · rw [Page.row,if_pos rfl]
      exact (Nat.zero_mod fb.rows).symm
    · intro _ y inY x inX shown here
      dsimp only at here
      rw [Nat.zero_div,Nat.zero_mul,Nat.zero_add,if_pos inY] at here
      cases here
    · intro _ line far x
      dsimp only at far ⊢
      rw [Nat.zero_div,Nat.zero_add,Nat.one_mul] at far
      rw [if_neg (by omega)]
      rfl
  next => exact shows

theorem ShowsPage.puts (shows : ShowsPage fb beyond s p) (rows : 0 < fb.rows) (cols : 0 < fb.cols) (c : Byte) :
    ShowsPage fb beyond (consolePutc fb s c) (p.putc fb c) := by
  have wide : 0 < p.width fb := Nat.lt_of_le_of_lt (Nat.zero_le _) shows.width
  have back : (if s.col ≠ 0 then {s with col := s.col - 1} else s) = {s with col := p.col - 1} := by
    rw [← shows.col]
    split
    next => rfl
    next first =>
      have same : s.col - 1 = s.col := by omega
      rw [same]
  have stepped : ShowsPage fb beyond {s with col := p.col - 1} {p with col := p.col - 1} :=
    shows.moves (Nat.lt_of_le_of_lt (Nat.sub_le ..) shows.width)
  unfold consolePutc Page.putc
  by_cases graphics : p.graphics = true
  · rw [if_pos (shows.graphics.trans graphics)]
    dsimp only
    rw [if_neg (by omega)]
    by_cases isNewline : c = newline
    · rw [if_pos isNewline,if_pos isNewline]
      exact shows.next_sheet graphics rows cols
    rw [if_neg isNewline,if_neg isNewline]
    by_cases isCarriage : c = carriage
    · rw [if_pos isCarriage,if_pos isCarriage]
      exact shows.moves wide
    rw [if_neg isCarriage,if_neg isCarriage]
    by_cases isBackspace : c = backspace
    · rw [if_pos isBackspace,if_pos isBackspace,back]
      exact stepped.writes_sheet graphics rows (g := ⟨blank,bgRgb,bgRgb⟩) rfl
    rw [if_neg isBackspace,if_neg isBackspace]
    have written : ShowsPage fb beyond (framebufferConsolePutc fb s c s.row s.col (fgRgb s.color) bgRgb) (p.write (.char c p.color)) :=
      shows.writes_sheet graphics rows (g := ⟨c,fgRgb s.color,bgRgb⟩) (by rw [shows.color]; rfl)
    have width : (p.write (.char c p.color)).width fb = fb.cols := if_pos graphics
    rw [width,← written.col]
    split
    · exact written.next_sheet graphics rows cols
    · exact written.moves (by rw [width]; omega)
  · have text : p.graphics = false := by simpa using graphics
    rw [if_neg fun on => graphics (shows.graphics.symm.trans on)]
    dsimp only
    by_cases isNewline : c = newline
    · rw [if_pos isNewline,if_pos isNewline]
      exact shows.next_text text
    rw [if_neg isNewline,if_neg isNewline]
    by_cases isCarriage : c = carriage
    · rw [if_pos isCarriage,if_pos isCarriage]
      exact shows.moves wide
    rw [if_neg isCarriage,if_neg isCarriage]
    by_cases isBackspace : c = backspace
    · rw [if_pos isBackspace,if_pos isBackspace,back]
      exact stepped.writes_text text (by rw [shows.color]; rfl)
    rw [if_neg isBackspace,if_neg isBackspace]
    have written : ShowsPage fb beyond {s with vga := Function.update s.vga (s.row * vgaWidth + s.col) (vgaCell s.color c)}
        (p.write (.char c p.color)) := shows.writes_text text (by rw [shows.color]; rfl)
    have width : (p.write (.char c p.color)).width fb = vgaWidth := if_neg graphics
    rw [width,← written.col]
    split
    · exact written.next_text text
    · exact written.moves (by rw [width]; omega)

theorem ShowsPage.step (shows : ShowsPage fb beyond s p) (rows : 0 < fb.rows) (cols : 0 < fb.cols) (call : ConsoleCall) :
    ShowsPage fb beyond (consoleStep fb s call) (pageStep fb p call) := by
  cases call with
  | putc c => exact shows.puts rows cols c
  | clear => exact shows.clears cols
  | setColor fg => exact shows.colors (fg &&& 0x0F)
  | useFramebuffer => exact shows.uses_framebuffer cols

theorem consoleInit_shows (fb : Framebuffer) (s : Console) : ShowsPage fb s.vga (consoleInit fb s) firstPage := by
  have cleared : consoleInit fb s =
      {s with vga := vgaFill s.vga 0 (vgaWidth * vgaHeight) (vgaCell 7 blank),row := 0,col := 0,color := 7,graphics := false} := rfl
  rw [cleared]
  refine ⟨rfl,rfl,fun on => (by cases on),rfl,(by show 0 < vgaWidth; decide),?_,rfl,?_,fun on => (by cases on),fun on => (by cases on)⟩
  · intro i far
    dsimp only
    rw [vgaFill_apply,if_neg (by omega)]
  · intro _ y inY x inX
    dsimp only
    rw [vgaFill_apply,if_pos (by simp only [vgaWidth,vgaHeight] at *; omega)]
    rfl

end Steps

/-- The console with what `console_row` and `console_col` tell after each call. -/
def console (fb : Framebuffer) : Machine Console ConsoleCall (Nat × Nat) := fun s call =>
  let s := consoleStep fb s call
  (s,s.row,s.col)

def page (fb : Framebuffer) : Machine Page ConsoleCall (Nat × Nat) := fun p call =>
  let p := pageStep fb p call
  (p,p.row fb,p.col)

theorem console_simulates {fb : Framebuffer} (rows : 0 < fb.rows) (cols : 0 < fb.cols) (beyond : Nat → BitVec 16) :
    Simulates (console fb) (page fb) (fun _ _ => True) (ShowsPage fb beyond) where
  answer s p call shows _ := by
    have next := shows.step rows cols call
    exact Prod.ext next.row next.col
  next s p call shows _ := shows.step rows cols call

/-- Whatever is put, cleared and colored, in text mode and after the change to the framebuffer: the
console shows the end of the page that is written, with the cursor at its end. -/
theorem console_shows_page {fb : Framebuffer} (rows : 0 < fb.rows) (cols : 0 < fb.cols) (s : Console) (calls : List ConsoleCall) :
    answers (console fb) (consoleInit fb s) calls = answers (page fb) firstPage calls ∧
      ShowsPage fb s.vga (run (console fb).step (consoleInit fb s) calls) (run (page fb).step firstPage calls) :=
  (console_simulates rows cols s.vga).run (consoleInit_shows fb s) (meets_always (fun _ _ => trivial) firstPage calls)

/-- A line on the text screen, and one on a screen of 1024 by 768 pixels after it. -/
theorem console_shows_page_usual :
    let fb : Framebuffer := ⟨true,1024,768⟩
    let s : Console := ⟨fun _ => 0,fun _ _ => none,3,4,0,false⟩
    let calls : List ConsoleCall := [.setColor 10,.putc 79,.putc 75,.putc 10,.useFramebuffer,.clear,.putc 62,.putc 8]
    answers (console fb) (consoleInit fb s) calls = answers (page fb) firstPage calls ∧
      ShowsPage fb s.vga (run (console fb).step (consoleInit fb s) calls) (run (page fb).step firstPage calls) :=
  console_shows_page (by decide) (by decide) _ _

end LionOS.Video

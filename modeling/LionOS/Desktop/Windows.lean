import LionOS.Desktop.Notepad
import LionOS.Library.Layers

/-! The windows of the desktop: how they are shown, hidden, moved to the front and drawn. -/
namespace LionOS.Desktop
open LionOS.Physical (Byte)
open LionOS.Files LionOS.Library

def taskbarH : BitVec 32 := 92
def titleH : BitVec 32 := 36

/-- The windows in the order of their array. -/
inductive WindowId
  | terminal
  | files
  | about
  | settings
  | notepad
  | logs
  deriving DecidableEq

def WindowId.all : List WindowId := [.terminal,.files,.about,.settings,.notepad,.logs]

def WindowId.index : WindowId → Nat
  | .terminal => 0
  | .files => 1
  | .about => 2
  | .settings => 3
  | .notepad => 4
  | .logs => 5

structure UiWindow where
  visible : Bool
  minimized : Bool
  focused : Bool
  maximized : Bool
  x : BitVec 32
  y : BitVec 32
  w : BitVec 32
  h : BitVec 32
  oldX : BitVec 32
  oldY : BitVec 32
  oldW : BitVec 32
  oldH : BitVec 32

/-- The size of a framebuffer that `framebuffer_begin_desktop` accepts. -/
structure Screen where
  width : BitVec 32
  height : BitVec 32
  some : width ≠ 0 ∧ height ≠ 0
  pixels : width.toNat * height.toNat ≤ 0xFFFFFFFF / 4

inductive IconAction
  | files
  | terminal
  | browser
  | settings
  | about
  | notepad
  | logs

structure DesktopIcon where
  x : BitVec 32
  y : BitVec 32
  action : IconAction
  moved : Bool

/-- The variables of the desktop. -/
structure Gui where
  windows : WindowId → UiWindow
  guiActive : Bool
  startOpen : Bool
  browserActive : Bool
  terminalFocus : Bool
  dragActive : Bool
  dragId : Option WindowId
  dragDx : BitVec 32
  dragDy : BitVec 32
  mouseX : BitVec 32
  mouseY : BitVec 32
  pressed : Bool
  icons : Fin 7 → DesktopIcon
  iconDrag : Option (Fin 7)
  iconPressX : BitVec 32
  iconPressY : BitVec 32
  termInput : List Byte
  fileSelected : Option Nat
  fileLastClicked : Option Nat
  fileLastClickTick : BitVec 32
  notes : Notes

/-- The rectangle of a window or a button contains the pointer. -/
def hit (x y w h px py : BitVec 32) : Bool := decide (px ≥ x ∧ px < x + w ∧ py ≥ y ∧ py < y + h)

def UiWindow.shown (w : UiWindow) : Bool := w.visible && !w.minimized

section Operations
variable (sc : Screen) (d : Gui) (id : WindowId)

def Gui.update (f : UiWindow → UiWindow) : Gui :=
  {d with windows := Function.update d.windows id (f (d.windows id))}

def Gui.focus : Gui :=
  {d with windows := fun i => {d.windows i with focused := i == id && (d.windows i).shown}}

def Gui.show : Gui :=
  let d := (d.update id fun w => {w with visible := true,minimized := false}).focus id
  let d := {d with
    startOpen := false
    terminalFocus := id == .terminal
    notes := {d.notes with focus := id == .notepad}}
  if id = .notepad ∧ d.notes.loaded = false then {d with notes := {notepadInit d.notes with loaded := true}} else d

def Gui.hide : Gui :=
  let d := if id = .notepad then {d with notes := notepadSave d.notes} else d
  let d := d.update id fun w => {w with visible := false,minimized := false,focused := false}
  {d with
    dragActive := false
    terminalFocus := id != .terminal && d.terminalFocus
    notes := {d.notes with focus := id != .notepad && d.notes.focus}}

def Gui.minimize : Gui :=
  let d := d.update id fun w => {w with minimized := true,focused := false}
  let d := {d with dragActive := false,terminalFocus := id != .terminal && d.terminalFocus}
  if id = .notepad then {d with notes := {notepadSave d.notes with focus := false}} else d

def Gui.toggleMax : Gui :=
  let dh := if sc.height > taskbarH then sc.height - taskbarH else sc.height
  (d.update id fun w =>
    if w.maximized = false then
      {w with oldX := w.x,oldY := w.y,oldW := w.w,oldH := w.h,x := 0,y := 0,w := sc.width,h := dh,maximized := true}
    else {w with x := w.oldX,y := w.oldY,w := w.oldW,h := w.oldH,maximized := false}).focus id

/-- `file_manager_open_selected`. -/
def fileManagerOpenSelected : Gui :=
  match d.fileSelected.bind (vfsName d.notes.store) with
  | none => d
  | some name =>
    let (notes,read) := d.notes.openFile name
    if read then Gui.show {d with notes} .notepad else {d with notes}

/-- The windows that `draw_windows` draws, one after the other. -/
def drawWindows (dragRenderSkipId : Option WindowId) : List WindowId :=
  layers (fun i => (d.windows i).shown && dragRenderSkipId != some i) (fun i => (d.windows i).focused) WindowId.all

/-- The window that `handle_click` finds at the pointer. -/
def windowAt : Option WindowId :=
  lastOf (fun i => (d.windows i).shown &&
    hit (d.windows i).x (d.windows i).y (d.windows i).w (d.windows i).h d.mouseX d.mouseY) WindowId.all

end Operations

end LionOS.Desktop

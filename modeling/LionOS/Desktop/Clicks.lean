import LionOS.Desktop.Windows
import LionOS.Files.WriteRead
import LionOS.Library.Run

/-! Clicks, moves and keys on the desktop, and which window a click goes to. -/
namespace LionOS.Desktop
open LionOS.Physical (Byte)
open LionOS.Files LionOS.Library

def iconSize : BitVec 32 := 64
def iconBlockH : BitVec 32 := 88

/-- `file_manager_hit`. -/
def fileManagerHit (st : Store) (w : UiWindow) (x y : BitVec 32) : Option Nat :=
  let gx := w.x + 16 + 128 + 18
  let gy := w.y + titleH + 10 + 48
  if x < gx ∨ y < gy then none
  else
    let col := (x - gx) / 96
    let row := (y - gy) / 70
    if col ≥ 3 ∨ row ≥ 4 then none
    else
      let bx := gx + col * 96
      let byy := gy + row * 70
      if x < bx ∨ x ≥ bx + 84 ∨ y < byy ∨ y ≥ byy + 60 then none
      else
        let idx := (row * 3 + col).toNat
        if idx ≥ vfsCount st ∨ idx ≥ 12 then none else some idx

section Clicks
variable (sc : Screen) (now : BitVec 32) (d : Gui)

def activateDesktopIcon : IconAction → Gui
  | .files => d.show .files
  | .terminal => d.show .terminal
  | .browser => {d with browserActive := true}
  | .settings => d.show .settings
  | .about => d.show .about
  | .notepad => d.show .notepad
  | .logs => d.show .logs

def closeGui : Gui := {d with guiActive := false}

/-- The part of `handle_window_click` for the files window. -/
def clickFile (w : UiWindow) : Gui :=
  match fileManagerHit d.notes.store w d.mouseX d.mouseY with
  | none => {d with fileLastClicked := none}
  | some idx =>
    if d.fileSelected = some idx ∧ d.fileLastClicked = some idx ∧ now - d.fileLastClickTick ≤ 50 then
      {fileManagerOpenSelected d with fileLastClicked := none}
    else {d with fileSelected := some idx,fileLastClicked := some idx,fileLastClickTick := now}

/-- `handle_window_click`; the wallpaper that a click chooses in the settings window is left out. -/
def handleWindowClick (id : WindowId) : Gui :=
  let w := d.windows id
  let x := d.mouseX
  let d := d.focus id
  let d := {d with terminalFocus := id == .terminal,notes := {d.notes with focus := id == .notepad}}
  if d.mouseY < w.y + titleH ∧ x ≥ w.x ∧ x < w.x + w.w then
    if x ≥ w.x + w.w - 28 then d.hide id
    else if x ≥ w.x + w.w - 56 then d.toggleMax sc id
    else if x ≥ w.x + w.w - 84 then d.minimize id
    else if w.maximized = false then
      {d with dragActive := true,dragId := some id,dragDx := x - w.x,dragDy := d.mouseY - w.y}
    else d
  else if id = .files then clickFile now d w
  else d

/-- `desktop_icon_at`. -/
def desktopIconAt : Option (Fin 7) :=
  let bottom := if sc.height > taskbarH then sc.height - taskbarH else 0
  lastOf (fun i => hit (d.icons i).x (d.icons i).y iconSize iconBlockH d.mouseX d.mouseY &&
    decide (d.mouseY + iconBlockH ≤ bottom)) (List.finRange 7)

def pressIcon : Gui :=
  match desktopIconAt sc d with
  | none => d
  | some i =>
    {d with
      icons := Function.update d.icons i {d.icons i with moved := false}
      iconDrag := some i
      iconPressX := d.mouseX - (d.icons i).x
      iconPressY := d.mouseY - (d.icons i).y}

/-- The items of the dock, with what a click on them does. -/
def dockItems : List (BitVec 32 × IconAction) :=
  [(0,.terminal),(1,.files),(2,.browser),(3,.settings),(4,.about),(5,.notepad)]

def dockItemAt : Option IconAction :=
  let dockW := if sc.width > 720 then 620 else if sc.width > 420 then sc.width - 40 else 320
  let dockX := (sc.width - dockW) / 2
  let step := if dockW ≥ 360 then 92 else (dockW - 24) / 6
  let step := if step < 52 then 52 else step
  let dockY := sc.height - taskbarH + 8
  (dockItems.find? fun (i,_) =>
    hit (dockX + (dockW - step * 6) / 2 + 4 + i * step) (dockY + 9) 52 52 d.mouseX d.mouseY).map Prod.snd

/-- The rectangle of the start menu. -/
def startGeom : BitVec 32 × BitVec 32 × BitVec 32 × BitVec 32 :=
  let w := if sc.width > 560 then 460 else 300
  let h := if sc.height > 580 then 520 else if sc.height > 480 then 455 else 350
  (12,sc.height - taskbarH - h - 10,w,h)

def startItems : List (BitVec 32 × IconAction) :=
  [(0,.terminal),(1,.files),(2,.about),(3,.settings),(4,.browser),(5,.notepad),(6,.logs)]

def startItemAt : Option IconAction :=
  let (sx,sy,mw,_) := startGeom sc
  (startItems.find? fun (i,_) => hit (sx + 18) (sy + 136 + i * 42) (mw - 36) 38 d.mouseX d.mouseY).map Prod.snd

def powerHit : Bool :=
  let (sx,sy,_,mh) := startGeom sc
  decide (mh > 400) && hit (sx + 18) (sy + mh - 52) 140 34 d.mouseX d.mouseY

/-- The end of `handle_click`: the windows and the icons behind them. -/
def clickWindows : Gui × Option WindowId :=
  match windowAt d with
  | some id => (handleWindowClick sc now d id,some id)
  | none => (pressIcon sc d,none)

/-- `handle_click`, with the window that it passes the click to. -/
def handleClick : Gui × Option WindowId :=
  if d.browserActive then (d,none)
  else match if d.mouseY ≥ sc.height - taskbarH then dockItemAt sc d else none with
    | some action => (activateDesktopIcon d action,none)
    | none =>
      if d.mouseY ≥ sc.height - taskbarH ∧ d.mouseX < 170 then ({d with startOpen := !d.startOpen},none)
      else if d.startOpen then
        match startItemAt sc d with
        | some action => ({activateDesktopIcon d action with startOpen := false},none)
        | none =>
          if powerHit sc d then (closeGui d,none) else clickWindows sc now {d with startOpen := false}
      else clickWindows sc now d

end Clicks

section Moves
variable (sc : Screen) (d : Gui)

def moveDesktopIcon (icon : DesktopIcon) : DesktopIcon :=
  let maxX := if sc.width > iconSize then sc.width - iconSize else 0
  let maxY := if sc.height > taskbarH + iconBlockH then sc.height - taskbarH - iconBlockH else 0
  let nx := d.mouseX - d.iconPressX
  let ny := d.mouseY - d.iconPressY
  let nx := if nx.slt 0 then 0 else nx
  let ny := if ny.slt 0 then 0 else ny
  let nx := if maxX.slt nx then maxX else nx
  let ny := if maxY.slt ny then maxY else ny
  {icon with x := nx,y := ny,moved := icon.moved || nx != icon.x || ny != icon.y}

/-- The window that is dragged, at its new place. -/
def moveWindow (w : UiWindow) : UiWindow :=
  let nx := d.mouseX - d.dragDx
  let ny := d.mouseY - d.dragDy
  let maxY := sc.height - taskbarH - titleH
  let nx := if nx.slt 4 then 4 else nx
  let ny := if ny.slt 0 then 0 else ny
  let nx := if (sc.width - 4).slt (nx + w.w) then sc.width - w.w - 4 else nx
  let ny := if maxY.slt ny then maxY else ny
  {w with x := nx,y := ny}

def handleMove : Gui :=
  match d.iconDrag with
  | some i => {d with icons := Function.update d.icons i (moveDesktopIcon sc d (d.icons i))}
  | none =>
    if d.dragActive = false then d
    else match d.dragId with
      | none => {d with dragActive := false}
      | some id =>
        if (d.windows id).visible = false then {d with dragActive := false} else d.update id (moveWindow sc d)

end Moves

section Keys
variable (d : Gui) (key : Int)

def browserKey : Gui := if d.browserActive ∧ key = 27 then {d with browserActive := false} else d

/-- `terminal_command`; only "exit" does something to the windows. -/
def terminalCommand : Gui :=
  if d.termInput = [] then d
  else if d.termInput = ascii ['e','x','i','t'] then d.hide .terminal
  else {d with termInput := []}

def terminalKey : Gui :=
  if key = 10 ∨ key = 13 then terminalCommand d
  else if key = 8 ∨ key = 127 then {d with termInput := d.termInput.dropLast}
  else if key ≥ 32 ∧ key < 127 ∧ d.termInput.length < 120 then
    {d with termInput := d.termInput ++ [BitVec.ofInt 8 key]}
  else d

def escapeKey : Gui :=
  if d.terminalFocus ∧ (d.windows .terminal).visible then d.hide .terminal
  else match WindowId.all.find? fun i => (d.windows i).focused with
    | some id => d.hide id
    | none => closeGui d

def handleKey : Gui :=
  if d.browserActive then browserKey d key
  else if key = 27 then escapeKey d
  else if d.notes.focus then {d with notes := notepadInsert d.notes key}
  else if d.terminalFocus then terminalKey d key
  else if key = 0x74 ∨ key = 0x54 then d.show .terminal
  else if key = 0x66 ∨ key = 0x46 then d.show .files
  else if key = 0x61 ∨ key = 0x41 then d.show .about
  else if key = 0x73 ∨ key = 0x53 then d.show .settings
  else d

end Keys

/-- What the mouse and the keyboard report to a step, and its time. -/
structure Input where
  x : BitVec 32
  y : BitVec 32
  button : Bool
  keys : List Int
  now : BitVec 32

section Steps
variable (sc : Screen) (d : Gui) (input : Input)

/-- The end of a press. -/
def release : Gui :=
  let d := match d.iconDrag with
    | none => d
    | some i =>
      let d := if (d.icons i).moved then d else activateDesktopIcon d (d.icons i).action
      {d with iconDrag := none}
  {d with dragActive := false}

def guiStep : Gui :=
  if d.guiActive = false then d
  else
    let d := {d with mouseX := input.x,mouseY := input.y}
    let d := if input.button ∧ d.pressed = false then (handleClick sc input.now d).1 else d
    let d := if input.button = false ∧ d.pressed then release d else d
    let d := handleMove sc d
    let d := if d.browserActive then input.keys.foldl browserKey d else input.keys.foldl handleKey d
    {d with pressed := input.button}

/-- A window of `init_windows`, at hundredths of the screen. -/
def placed (x y w h : BitVec 32) : UiWindow :=
  let sh := if sc.height > taskbarH then sc.height - taskbarH else sc.height
  ⟨false,false,false,false,sc.width * x / 100,sh * y / 100,sc.width * w / 100,sh * h / 100,0,0,0,0⟩

def initWindow : WindowId → UiWindow
  | .terminal => placed sc 18 13 62 68
  | .files => placed sc 25 17 50 58
  | .about => placed sc 34 20 36 48
  | .settings => placed sc 41 18 34 52
  | .notepad => placed sc 22 12 56 64
  | .logs => placed sc 10 10 80 76

/-- `gui_start` with `init_windows`. -/
def guiStart : Gui :=
  {d with
    windows := initWindow sc
    guiActive := true
    startOpen := false
    dragActive := false
    iconDrag := none
    icons := fun i => {d.icons i with moved := false}
    terminalFocus := false
    termInput := []
    fileSelected := none
    fileLastClicked := none
    fileLastClickTick := 0
    mouseX := input.x
    mouseY := input.y
    pressed := input.button}

/-- The desktop is started, it takes a step, or others use the files. -/
inductive GuiEvent
  | start (input : Input)
  | step (input : Input)
  | files (store : Store) (fds : FdTable)

def guiEvent (d : Gui) : GuiEvent → Gui
  | .start input => guiStart sc d input
  | .step input => guiStep sc d input
  | .files store fds => {d with notes := {d.notes with store,fds}}

/-- The variables as the kernel starts. -/
def idleGui (store : Store) (fds : FdTable) : Gui where
  windows := fun _ => ⟨false,false,false,false,0,0,0,0,0,0,0,0⟩
  guiActive := false
  startOpen := false
  browserActive := false
  terminalFocus := false
  dragActive := false
  dragId := none
  dragDx := 0
  dragDy := 0
  mouseX := 0
  mouseY := 0
  pressed := false
  icons := fun i => ⟨24,24 + 100 * BitVec.ofNat 32 i,
    match i with
    | 0 => .files
    | 1 => .files
    | 2 => .terminal
    | 3 => .browser
    | 4 => .settings
    | 5 => .about
    | 6 => .notepad,false⟩
  iconDrag := none
  iconPressX := 0
  iconPressY := 0
  termInput := []
  fileSelected := none
  fileLastClicked := none
  fileLastClickTick := 0
  notes := ⟨store,fds,[],0,false,false⟩

end Steps

/-- The pixels of a window. -/
def UiWindow.covers (w : UiWindow) (px py : Nat) : Bool :=
  decide (w.x.toNat ≤ px ∧ px < w.x.toNat + w.w.toNat ∧ w.y.toNat ≤ py ∧ py < w.y.toNat + w.h.toNat)

def Gui.shows (d : Gui) (px py : Nat) (i : WindowId) : Bool := (d.windows i).shown && (d.windows i).covers px py

/-- At a pixel the window that has the focus is drawn over one that comes later in the array. -/
def Raised (d : Gui) (px py : Nat) : Prop :=
  ∃ i j : WindowId, i.index < j.index ∧ (d.windows i).focused = true ∧ d.shows px py i = true ∧ d.shows px py j = true

/-- The window that is drawn last at a pixel. -/
def topmost (d : Gui) (px py : Nat) : Option WindowId :=
  lastOf (fun i => (d.windows i).covers px py) (drawWindows d none)

def pointedAt (d : Gui) (x y : BitVec 32) : Gui := {d with mouseX := x,mouseY := y}

/-- No window is too large for the signed numbers of the code, now or when it is restored. -/
structure UiWindow.Bounded (w : UiWindow) : Prop where
  width : w.w.toNat < 2^31
  height : w.h.toNat < 2^31
  oldWidth : w.oldW.toNat < 2^31
  oldHeight : w.oldH.toNat < 2^31

/-- At most one window has the focus. -/
structure Arranged (windows : WindowId → UiWindow) : Prop where
  one : ∀ i j, (windows i).focused = true → (windows j).focused = true → i = j
  bounded : ∀ i, (windows i).Bounded

theorem Screen.small (sc : Screen) : sc.width.toNat < 2^31 ∧ sc.height.toNat < 2^31 := by
  have pixels := sc.pixels
  have width : 0 < sc.width.toNat := Nat.pos_of_ne_zero fun zero => sc.some.1 (BitVec.eq_of_toNat_eq zero)
  have height : 0 < sc.height.toNat := Nat.pos_of_ne_zero fun zero => sc.some.2 (BitVec.eq_of_toNat_eq zero)
  have left := Nat.le_mul_of_pos_right sc.width.toNat height
  have right := Nat.le_mul_of_pos_left sc.height.toNat width
  omega

section Arrangement
variable {sc : Screen} {d : Gui} {id : WindowId}

theorem Arranged.focus (arranged : Arranged d.windows) (id : WindowId) : Arranged (d.focus id).windows where
  one := by
    intro i j first second
    dsimp only [Gui.focus] at first second
    rw [Bool.and_eq_true,beq_iff_eq] at first second
    exact first.1.trans second.1.symm
  bounded := fun i => ⟨(arranged.bounded i).width,(arranged.bounded i).height,(arranged.bounded i).oldWidth,
    (arranged.bounded i).oldHeight⟩

theorem Arranged.update (arranged : Arranged d.windows) (id : WindowId) {f : UiWindow → UiWindow}
    (unfocused : (f (d.windows id)).focused = true → (d.windows id).focused = true)
    (bounded : (f (d.windows id)).Bounded) : Arranged (d.update id f).windows where
  one := by
    have kept : ∀ i, ((d.update id f).windows i).focused = true → (d.windows i).focused = true := by
      intro i focused
      unfold Gui.update at focused
      dsimp only at focused
      by_cases same : i = id
      · subst same
        rw [Function.update_self] at focused
        exact unfocused focused
      · rw [Function.update_of_ne same] at focused
        exact focused
    intro i j first second
    exact arranged.one i j (kept i first) (kept j second)
  bounded := by
    intro i
    unfold Gui.update
    dsimp only
    by_cases same : i = id
    · subst same
      rw [Function.update_self]
      exact bounded
    · rw [Function.update_of_ne same]
      exact arranged.bounded i

theorem show_arranged (arranged : Arranged d.windows) (id : WindowId) : Arranged (d.show id).windows := by
  have shown := (arranged.update id (f := fun w => {w with visible := true,minimized := false}) (fun focused => focused)
    ⟨(arranged.bounded id).width,(arranged.bounded id).height,(arranged.bounded id).oldWidth,
      (arranged.bounded id).oldHeight⟩).focus id
  unfold Gui.show
  dsimp only
  split <;> exact shown

theorem hide_arranged (arranged : Arranged d.windows) (id : WindowId) : Arranged (d.hide id).windows := by
  have hidden := arranged.update id (f := fun w => {w with visible := false,minimized := false,focused := false})
    (fun focused => by cases focused)
    ⟨(arranged.bounded id).width,(arranged.bounded id).height,(arranged.bounded id).oldWidth,
      (arranged.bounded id).oldHeight⟩
  unfold Gui.hide
  dsimp only
  split <;> exact hidden

theorem minimize_arranged (arranged : Arranged d.windows) (id : WindowId) : Arranged (d.minimize id).windows := by
  have hidden := arranged.update id (f := fun w => {w with minimized := true,focused := false})
    (fun focused => by cases focused)
    ⟨(arranged.bounded id).width,(arranged.bounded id).height,(arranged.bounded id).oldWidth,
      (arranged.bounded id).oldHeight⟩
  unfold Gui.minimize
  dsimp only
  split <;> exact hidden

theorem toggleMax_arranged (arranged : Arranged d.windows) (sc : Screen) (id : WindowId) :
    Arranged (d.toggleMax sc id).windows := by
  obtain ⟨wide,high⟩ := sc.small
  have bounded := arranged.bounded id
  have desk : (if sc.height > taskbarH then sc.height - taskbarH else sc.height).toNat < 2^31 := by
    split
    next taller =>
      rw [BitVec.toNat_sub_of_le (BitVec.le_of_lt taller)]
      omega
    · exact high
  refine (arranged.update id ?_ ?_).focus id
  · split <;> exact fun focused => focused
  · split
    · exact ⟨wide,desk,bounded.width,bounded.height⟩
    · exact ⟨bounded.oldWidth,bounded.oldHeight,bounded.oldWidth,bounded.oldHeight⟩

theorem activate_arranged (arranged : Arranged d.windows) (action : IconAction) :
    Arranged (activateDesktopIcon d action).windows := by
  cases action with
  | browser => exact arranged
  | files => exact show_arranged arranged _
  | terminal => exact show_arranged arranged _
  | settings => exact show_arranged arranged _
  | about => exact show_arranged arranged _
  | notepad => exact show_arranged arranged _
  | logs => exact show_arranged arranged _

theorem openSelected_arranged (arranged : Arranged d.windows) : Arranged (fileManagerOpenSelected d).windows := by
  unfold fileManagerOpenSelected
  split
  · exact arranged
  · dsimp only
    split
    · refine show_arranged ?_ _
      exact arranged
    · exact arranged

theorem clickFile_arranged (arranged : Arranged d.windows) (now : BitVec 32) (w : UiWindow) :
    Arranged (clickFile now d w).windows := by
  unfold clickFile
  split
  · exact arranged
  · split
    · exact openSelected_arranged arranged
    · exact arranged

theorem handleWindowClick_arranged (arranged : Arranged d.windows) (sc : Screen) (now : BitVec 32) (id : WindowId) :
    Arranged (handleWindowClick sc now d id).windows := by
  have focused := arranged.focus id
  unfold handleWindowClick
  dsimp only
  split
  · split
    · refine hide_arranged ?_ id
      exact focused
    · split
      · refine toggleMax_arranged ?_ sc id
        exact focused
      · split
        · refine minimize_arranged ?_ id
          exact focused
        · split <;> exact focused
  · split
    · refine clickFile_arranged ?_ now _
      exact focused
    · exact focused

theorem clickWindows_arranged (arranged : Arranged d.windows) (sc : Screen) (now : BitVec 32) :
    Arranged (clickWindows sc now d).1.windows := by
  unfold clickWindows
  split
  · exact handleWindowClick_arranged arranged sc now _
  · unfold pressIcon
    split <;> exact arranged

theorem handleClick_arranged (arranged : Arranged d.windows) (sc : Screen) (now : BitVec 32) :
    Arranged (handleClick sc now d).1.windows := by
  unfold handleClick
  split
  · exact arranged
  split
  · exact activate_arranged arranged _
  split
  · exact arranged
  split
  · split
    · exact activate_arranged arranged _
    · split
      · exact arranged
      · refine clickWindows_arranged ?_ sc now
        exact arranged
  · exact clickWindows_arranged arranged sc now

theorem moveWindow_bounded {w : UiWindow} (bounded : w.Bounded) (sc : Screen) (d : Gui) : (moveWindow sc d w).Bounded :=
  ⟨bounded.width,bounded.height,bounded.oldWidth,bounded.oldHeight⟩

theorem handleMove_arranged (arranged : Arranged d.windows) (sc : Screen) : Arranged (handleMove sc d).windows := by
  unfold handleMove
  split
  · exact arranged
  split
  · exact arranged
  split
  · exact arranged
  next id _ =>
    split
    · exact arranged
    · exact arranged.update id (fun focused => focused) (moveWindow_bounded (arranged.bounded id) sc d)

theorem browserKey_arranged (arranged : Arranged d.windows) (key : Int) : Arranged (browserKey d key).windows := by
  unfold browserKey
  split <;> exact arranged

theorem terminalKey_arranged (arranged : Arranged d.windows) (key : Int) : Arranged (terminalKey d key).windows := by
  have command : Arranged (terminalCommand d).windows := by
    unfold terminalCommand
    split
    · exact arranged
    · split
      · exact hide_arranged arranged _
      · exact arranged
  unfold terminalKey
  split
  · exact command
  · split
    · exact arranged
    · split <;> exact arranged

theorem handleKey_arranged (arranged : Arranged d.windows) (key : Int) : Arranged (handleKey d key).windows := by
  have escape : Arranged (escapeKey d).windows := by
    unfold escapeKey
    split
    · exact hide_arranged arranged _
    · split
      · exact hide_arranged arranged _
      · exact arranged
  unfold handleKey
  split
  · exact browserKey_arranged arranged key
  split
  · exact escape
  split
  · exact arranged
  split
  · exact terminalKey_arranged arranged key
  split
  · exact show_arranged arranged _
  split
  · exact show_arranged arranged _
  split
  · exact show_arranged arranged _
  split
  · exact show_arranged arranged _
  · exact arranged

theorem release_arranged (arranged : Arranged d.windows) : Arranged (release d).windows := by
  unfold release
  dsimp only
  split
  · exact arranged
  · dsimp only
    split
    · exact arranged
    · exact activate_arranged arranged _

theorem keys_arranged {handle : Gui → Int → Gui} (kept : ∀ d key, Arranged d.windows → Arranged (handle d key).windows)
    (arranged : Arranged d.windows) (keys : List Int) : Arranged (keys.foldl handle d).windows := by
  induction keys generalizing d with
  | nil => exact arranged
  | cons key rest ih => exact ih (kept d key arranged)

theorem guiStep_arranged (arranged : Arranged d.windows) (sc : Screen) (input : Input) :
    Arranged (guiStep sc d input).windows := by
  unfold guiStep
  split
  · exact arranged
  dsimp only
  generalize clicks : (if input.button = true ∧ d.pressed = false then _ else _ : Gui) = clicked
  have one : Arranged clicked.windows := by
    subst clicks
    split
    · refine handleClick_arranged ?_ sc input.now
      exact arranged
    · exact arranged
  generalize releases : (if input.button = false ∧ clicked.pressed = true then _ else _ : Gui) = released
  have two : Arranged released.windows := by
    subst releases
    split
    · exact release_arranged one
    · exact one
  have three := handleMove_arranged two sc
  split
  · exact keys_arranged (fun d key kept => browserKey_arranged kept key) three input.keys
  · exact keys_arranged (fun d key kept => handleKey_arranged kept key) three input.keys

theorem placed_bounded (sc : Screen) (x y w h : BitVec 32) : (placed sc x y w h).Bounded := by
  have small : ∀ a : BitVec 32, (a / 100).toNat < 2^31 := by
    intro a
    have bound := a.isLt
    rw [BitVec.toNat_udiv]
    change a.toNat / 100 < 2^31
    omega
  exact ⟨small _,small _,show 0 < 2^31 by decide,show 0 < 2^31 by decide⟩

theorem guiEvent_arranged (arranged : Arranged d.windows) (sc : Screen) (event : GuiEvent) :
    Arranged (guiEvent sc d event).windows := by
  cases event with
  | start input =>
    refine ⟨?_,?_⟩
    · intro i j focused
      cases i <;> cases focused
    · intro i
      cases i <;> exact placed_bounded sc _ _ _ _
  | step input => exact guiStep_arranged arranged sc input
  | files store fds => exact arranged

/-- In every run at most one window has the focus. -/
theorem run_arranged (sc : Screen) (store : Store) (fds : FdTable) (events : List GuiEvent) :
    Arranged (run (guiEvent sc) (idleGui store fds) events).windows := by
  refine @run_invariant _ _ (guiEvent sc) (fun d => Arranged d.windows)
    (fun d event kept => guiEvent_arranged kept sc event) _ events ?_
  have none : 0 < 2^31 := by decide
  refine ⟨?_,fun i => ⟨none,none,none,none⟩⟩
  intro i j focused
  cases focused

end Arrangement

section Topmost
variable {sc : Screen} {d : Gui}

theorem hit_covers {w : UiWindow} (bounded : w.Bounded) {x y : BitVec 32} (left : x.toNat < 2^31) (top : y.toNat < 2^31) :
    hit w.x w.y w.w w.h x y = w.covers x.toNat y.toNat := by
  have edge : ∀ {a n p : BitVec 32}, n.toNat < 2^31 → p.toNat < 2^31 →
      ((p ≥ a ∧ p < a + n) ↔ a.toNat ≤ p.toNat ∧ p.toNat < a.toNat + n.toNat) := by
    intro a n p small low
    rw [ge_iff_le,BitVec.le_def,BitVec.lt_def,BitVec.toNat_add]
    omega
  unfold hit UiWindow.covers
  rw [decide_eq_decide,← and_assoc,edge bounded.width left,and_assoc,edge bounded.height top]

theorem handleClick_windowAt {now : BitVec 32} (above : d.mouseY < sc.height - taskbarH) (closed : d.startOpen = false)
    (inactive : d.browserActive = false) : (handleClick sc now d).2 = windowAt d := by
  have desk : ¬d.mouseY ≥ sc.height - taskbarH := BitVec.not_le.mpr above
  unfold handleClick
  rw [inactive,closed,if_neg Bool.false_ne_true,if_neg desk]
  dsimp only
  rw [if_neg fun both => desk both.1,if_neg Bool.false_ne_true]
  unfold clickWindows
  split
  next id found => rw [found]
  next none => rw [none]

theorem windowAt_topmost_iff (arranged : Arranged d.windows) (left : d.mouseX.toNat < 2^31) (top : d.mouseY.toNat < 2^31) :
    windowAt d = topmost d d.mouseX.toNat d.mouseY.toNat ↔
      ¬Raised d d.mouseX.toNat d.mouseY.toNat := by
  have ordered : WindowId.all.Pairwise fun i j => i.index < j.index := by decide
  have all : ∀ i, i ∈ WindowId.all := by
    intro i
    cases i <;> decide
  have windows : windowAt d = lastOf (d.shows d.mouseX.toNat d.mouseY.toNat) WindowId.all := by
    unfold windowAt
    refine lastOf_congr fun i _ => ?_
    rw [hit_covers (arranged.bounded i) left top]
    rfl
  have unskipped : (fun i => (d.windows i).shown && (none : Option WindowId) != some i) = fun i => (d.windows i).shown := by
    funext i
    exact Bool.and_true _
  unfold topmost drawWindows
  rw [windows,unskipped]
  refine (layers_last_iff ordered fun i _ j _ => arranged.one i j).trans ?_
  refine not_congr ⟨?_,?_⟩
  · intro ⟨i,_,j,_,both⟩
    exact ⟨i,j,both⟩
  · intro ⟨i,j,both⟩
    exact ⟨i,all i,j,all j,both⟩

end Topmost

/-- A click goes to the window on top unless the window that has the focus is in front of one that
comes later in the array. -/
theorem click_topmost_iff (sc : Screen) (store : Store) (fds : FdTable) (events : List GuiEvent) (x y now : BitVec 32)
    (column : x < sc.width) (row : y < sc.height) (above : y < sc.height - taskbarH)
    (closed : (run (guiEvent sc) (idleGui store fds) events).startOpen = false)
    (inactive : (run (guiEvent sc) (idleGui store fds) events).browserActive = false) :
    (handleClick sc now (pointedAt (run (guiEvent sc) (idleGui store fds) events) x y)).2 =
        topmost (run (guiEvent sc) (idleGui store fds) events) x.toNat y.toNat ↔
      ¬Raised (run (guiEvent sc) (idleGui store fds) events) x.toNat y.toNat := by
  have arranged := run_arranged sc store fds events
  generalize run (guiEvent sc) (idleGui store fds) events = d at *
  obtain ⟨wide,high⟩ := sc.small
  have left : x.toNat < 2^31 := Nat.lt_trans (BitVec.lt_def.mp column) wide
  have top : y.toNat < 2^31 := Nat.lt_trans (BitVec.lt_def.mp row) high
  rw [@handleClick_windowAt sc (pointedAt d x y) now above closed inactive]
  exact @windowAt_topmost_iff (pointedAt d x y) arranged left top

/-- A screen of 1000 by 800 pixels. -/
def letterScreen : Screen := ⟨1000,800,by decide,by decide⟩

def keysOnly (keys : List Int) : Input := ⟨0,0,false,keys,0⟩

/-- The files window in front of the one that tells about the system. -/
def overlapping : List GuiEvent := [.start (keysOnly []),.step (keysOnly [0x66,0x61,0x66])]

def restingGui : Gui := run (guiEvent letterScreen) (idleGui bareStore noFds) overlapping

theorem click_topmost_iff_resting :
    (handleClick letterScreen 0 (pointedAt restingGui 400 300)).2 = topmost restingGui 400 300 ↔ ¬Raised restingGui 400 300 :=
  click_topmost_iff letterScreen bareStore noFds overlapping 400 300 0 (by decide) (by decide) (by decide) rfl rfl

theorem click_behind : ¬∀ (sc : Screen) (store : Store) (fds : FdTable) (events : List GuiEvent) (x y now : BitVec 32),
    x < sc.width → y < sc.height → y < sc.height - taskbarH →
    (run (guiEvent sc) (idleGui store fds) events).startOpen = false →
    (run (guiEvent sc) (idleGui store fds) events).browserActive = false →
    (handleClick sc now (pointedAt (run (guiEvent sc) (idleGui store fds) events) x y)).2 =
      topmost (run (guiEvent sc) (idleGui store fds) events) x.toNat y.toNat := by
  intro all
  have same := all letterScreen bareStore noFds overlapping 400 300 0 (by decide) (by decide) (by decide) rfl rfl
  exact absurd same (by decide)

end LionOS.Desktop

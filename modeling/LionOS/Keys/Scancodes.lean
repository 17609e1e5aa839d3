import LionOS.Library.Run
import LionOS.Keys.Driver

/-! A keyboard of scancode set 1: which keys are held, and what the driver makes of its bytes. -/
namespace LionOS.Keys
open LionOS.Library
open LionOS.Physical (Byte)

/-- A code of seven bits. No key has a code whose release would read as a prefix. -/
abbrev Code := {code : BitVec 7 // code ≠ 0x60 ∧ code ≠ 0x61}

inductive Key
  | plain (code : Code)
  | extended (code : Code)
  deriving DecidableEq

def leftShift : Key := .plain ⟨0x2A,by decide⟩
def rightShift : Key := .plain ⟨0x36,by decide⟩
def leftCtrl : Key := .plain ⟨0x1D,by decide⟩
def rightCtrl : Key := .extended ⟨0x1D,by decide⟩

/-- What the keyboard does. Around some extended keys it sends codes of a Shift behind the prefix,
and Pause sends its codes at once, with no release. -/
inductive Act
  | press (key : Key)
  | repeats (key : Key)
  | release (key : Key)
  | fakeShift (right up : Bool)
  | pause

def byteOf (code : BitVec 7) (up : Bool) : Byte := BitVec.cons up code

def Key.bytes (key : Key) (up : Bool) : List Byte :=
  match key with
  | .plain code => [byteOf code up]
  | .extended code => [0xE0,byteOf code up]

/-- The bytes of a complete scancode. -/
def Act.bytes : Act → List Byte
  | .press key => key.bytes false
  | .repeats key => key.bytes false
  | .release key => key.bytes true
  | .fakeShift right up => [0xE0,byteOf (if right then 0x36 else 0x2A) up]
  | .pause => [0xE1,0x1D,0x45,0xE1,0x9D,0xC5]

/-- The key whose code an act types. -/
def Act.typed : Act → Option Code
  | .press (.plain code) => some code
  | .repeats (.plain code) => some code
  | _ => none

/-- One of two keys is held. -/
def either (held : Key → Bool) (left right : Key) : Bool := held left || held right

def shiftHeld (held : Key → Bool) : Bool := either held leftShift rightShift
def ctrlHeld (held : Key → Bool) : Bool := either held leftCtrl rightCtrl

def Act.after (act : Act) (held : Key → Bool) : Key → Bool :=
  match act with
  | .press key => Function.update held key true
  | .release key => Function.update held key false
  | _ => held

/-- What a keyboard can do. With a Ctrl key held, Pause acts as an extended key. -/
def Act.Possible (held : Key → Bool) : Act → Prop
  | .press key => held key = false
  | .repeats key => held key = true
  | .release key => held key = true
  | .fakeShift _ _ => True
  | .pause => ctrlHeld held = false

def letter (code : BitVec 7) : Bool := lowerCase (keymap (byteOf code false))

/-- The character that the maps give for a key. Backspace and Tab have their own, and Ctrl leaves
the control characters. -/
def given (shift ctrl caps : Bool) (code : BitVec 7) : Option Byte :=
  let base := keymap (byteOf code false)
  let shifted := shiftmap (byteOf code false)
  if code = 0x0E then some 8
  else if code = 0x0F then some 9
  else if ctrl then
    if letter code then some (base - 96) else if base = 0x5C then some 0x1C else if base = 0x2D then some 0x1F else none
  else if letter code then some (if caps ^^ shift then shifted else base)
  else if shift && shifted != 0 then some shifted
  else if base ≠ 0 then some base
  else none

/-- The driver takes the bytes one by one. -/
def handleAll (s : Driver) : List Byte → Driver × List Byte
  | [] => (s,[])
  | b::rest =>
    let first := keyboardHandleScancode s b
    let later := handleAll first.1 rest
    (later.1,first.2 ++ later.2)

/-- The driver, the keys that are held, and each character that was pushed behind the one that the
maps give for the keys held at that time. -/
structure Desk where
  driver : Driver
  held : Key → Bool
  log : List (Option Byte × Byte)

def Desk.step (d : Desk) (act : Act) : Desk :=
  let result := handleAll d.driver act.bytes
  let wanted := act.typed.bind fun code => given (shiftHeld d.held) (ctrlHeld d.held) d.driver.capsLock code
  ⟨result.1,act.after d.held,d.log ++ result.2.map fun c => (wanted,c)⟩

/-- The driver's modifiers are those held, and all the characters are the ones given. -/
structure Follows (d : Desk) : Prop where
  shift : d.driver.shiftDown = shiftHeld d.held
  ctrl : d.driver.ctrlDown = ctrlHeld d.held
  typed : ∀ entry ∈ d.log, entry.1 = some entry.2

/-- No Shift is released under the other, the right Ctrl is held only with the left one, and no
letter is typed with Shift and Caps Lock and no Ctrl. -/
structure Plain (d : Desk) (act : Act) : Prop where
  shiftLeft : act = .release leftShift → d.held rightShift = false
  shiftRight : act = .release rightShift → d.held leftShift = false
  ctrlRight : act = .press rightCtrl → d.held leftCtrl = true
  ctrlLeft : act = .release leftCtrl → d.held rightCtrl = false
  letters : ∀ code, act.typed = some code → letter code →
    ¬(shiftHeld d.held = true ∧ d.driver.capsLock = true ∧ ctrlHeld d.held = false)

/-- Before an act the driver is in set 1 and behind no prefix. -/
structure Ready (s : Driver) : Prop where
  set : s.scancodeSet = 1
  fresh : s.extendedPrefix = false

section Bytes
variable {s : Driver}

/-- The characters that a byte of set 1 types. -/
def charsOf (shift ctrl caps : Bool) (b : Byte) : List Byte :=
  if b ∈ [0x2A,0x36,0x1D,0x38,0x3A] ∨ b.msb then []
  else if b = 0x0E then [8]
  else if b = 0x0F then [9]
  else if scancodeChar shift ctrl caps b ≠ 0 then [scancodeChar shift ctrl caps b] else []

def shiftAfter (down : Bool) (b : Byte) : Bool :=
  if b = 0x2A ∨ b = 0x36 then true else if b = 0xAA ∨ b = 0xB6 then false else down

def ctrlAfter (down : Bool) (b : Byte) : Bool := if b = 0x1D then true else if b = 0x9D then false else down

theorem handleCode_spec (s : Driver) (b : Byte) :
    (handleCode s b).1.scancodeSet = s.scancodeSet ∧ (handleCode s b).1.extendedPrefix = s.extendedPrefix ∧
    (handleCode s b).1.shiftDown = shiftAfter s.shiftDown b ∧ (handleCode s b).1.ctrlDown = ctrlAfter s.ctrlDown b ∧
    (handleCode s b).2 = charsOf s.shiftDown s.ctrlDown s.capsLock b := by
  unfold handleCode
  by_cases special : b ∈ [0x2A,0x36,0xAA,0xB6,0x1D,0x9D,0x38,0xB8,0x3A]
  · simp only [List.mem_cons,List.not_mem_nil,or_false] at special
    rcases special with rfl | rfl | rfl | rfl | rfl | rfl | rfl | rfl | rfl
    all_goals exact ⟨rfl,rfl,rfl,rfl,rfl⟩
  · simp only [List.mem_cons,List.not_mem_nil,or_false,not_or] at special
    obtain ⟨h1,h2,h3,h4,h5,h6,h7,h8,h9⟩ := special
    unfold charsOf shiftAfter ctrlAfter
    simp only [h1,h2,h3,h4,h5,h6,h7,h8,h9,List.mem_cons,List.not_mem_nil,or_self,if_false,false_or]
    split
    · exact ⟨rfl,rfl,rfl,rfl,rfl⟩
    · split
      · exact ⟨rfl,rfl,rfl,rfl,rfl⟩
      · split
        · exact ⟨rfl,rfl,rfl,rfl,rfl⟩
        · split
          · exact ⟨rfl,rfl,rfl,rfl,rfl⟩
          · exact ⟨rfl,rfl,rfl,rfl,rfl⟩

theorem handle_code (ready : Ready s) {b : Byte} (code : b ≠ 0xE0) :
    Ready (keyboardHandleScancode s b).1 ∧
    (keyboardHandleScancode s b).1.shiftDown = shiftAfter s.shiftDown b ∧
    (keyboardHandleScancode s b).1.ctrlDown = ctrlAfter s.ctrlDown b ∧
    (keyboardHandleScancode s b).2 = charsOf s.shiftDown s.ctrlDown s.capsLock b := by
  obtain ⟨set,fresh⟩ := ready
  unfold keyboardHandleScancode handleSet1
  rw [if_neg (by rw [set]; decide),if_neg code]
  dsimp only
  rw [fresh,if_neg Bool.false_ne_true]
  obtain ⟨kept,kept',rest⟩ := handleCode_spec
    {s with scancodeCount := LionOS.Processes.wrap (s.scancodeCount + 1),lastScancode := b,inputSeen := true,extendedPrefix := false} b
  exact ⟨⟨kept.trans set,kept'⟩,rest⟩

/-- The two bytes of an extended key change no modifier. -/
theorem handle_extended (ready : Ready s) {b : Byte} (code : b ≠ 0xE0) :
    Ready (handleAll s [0xE0,b]).1 ∧ (handleAll s [0xE0,b]).1.shiftDown = s.shiftDown ∧
      (handleAll s [0xE0,b]).1.ctrlDown = s.ctrlDown ∧ (handleAll s [0xE0,b]).2 = [] := by
  obtain ⟨set,fresh⟩ := ready
  let counted (s : Driver) (b : Byte) : Driver :=
    {s with scancodeCount := LionOS.Processes.wrap (s.scancodeCount + 1),lastScancode := b,inputSeen := true}
  have first : keyboardHandleScancode s 0xE0 = ({counted s 0xE0 with extendedPrefix := true},[]) := by
    unfold keyboardHandleScancode handleSet1
    rw [if_neg (by rw [set]; decide),if_pos rfl]
  have second : keyboardHandleScancode {counted s 0xE0 with extendedPrefix := true} b =
      ({counted {counted s 0xE0 with extendedPrefix := true} b with extendedPrefix := false},[]) := by
    unfold keyboardHandleScancode handleSet1
    rw [if_neg (show ¬s.scancodeSet = 2 by rw [set]; decide),if_neg code]
    rfl
  unfold handleAll
  rw [first]
  unfold handleAll
  dsimp only
  rw [second]
  exact ⟨⟨set,rfl⟩,rfl,rfl,rfl⟩

theorem handleAll_cons (s : Driver) (b : Byte) (rest : List Byte) : handleAll s (b::rest) =
    ((handleAll (keyboardHandleScancode s b).1 rest).1,
      (keyboardHandleScancode s b).2 ++ (handleAll (keyboardHandleScancode s b).1 rest).2) := rfl

theorem handle_silent (ready : Ready s) {bytes : List Byte} (codes : ∀ b ∈ bytes, b ≠ 0xE0)
    (silent : ∀ b ∈ bytes, ∀ shift ctrl caps, charsOf shift ctrl caps b = []) :
    Ready (handleAll s bytes).1 ∧ (handleAll s bytes).1.shiftDown = bytes.foldl shiftAfter s.shiftDown ∧
      (handleAll s bytes).1.ctrlDown = bytes.foldl ctrlAfter s.ctrlDown ∧ (handleAll s bytes).2 = [] := by
  induction bytes generalizing s with
  | nil => exact ⟨ready,rfl,rfl,rfl⟩
  | cons b rest ih =>
    obtain ⟨ready',shift,ctrl,typed⟩ := handle_code ready (codes b (List.mem_cons_self ..))
    obtain ⟨later,shift',ctrl',typed'⟩ := ih ready' (fun b member => codes b (List.mem_cons_of_mem _ member))
      fun b member => silent b (List.mem_cons_of_mem _ member)
    rw [handleAll_cons,List.foldl_cons,List.foldl_cons,← shift,← ctrl]
    refine ⟨later,shift',ctrl',?_⟩
    dsimp only
    rw [typed,silent b (List.mem_cons_self ..),typed']
    rfl

/-- Pause presses and releases a Ctrl key. -/
theorem handle_pause (ready : Ready s) : Ready (handleAll s Act.pause.bytes).1 ∧
    (handleAll s Act.pause.bytes).1.shiftDown = s.shiftDown ∧ (handleAll s Act.pause.bytes).1.ctrlDown = false ∧
      (handleAll s Act.pause.bytes).2 = [] := by
  have flags : ∀ down, Act.pause.bytes.foldl shiftAfter down = down ∧ Act.pause.bytes.foldl ctrlAfter down = false := by
    decide
  obtain ⟨after,shift,ctrl,silent⟩ := handle_silent ready (by decide) (by decide +kernel : ∀ b ∈ Act.pause.bytes, _)
  exact ⟨after,shift.trans (flags _).1,ctrl.trans (flags _).2,silent⟩

end Bytes

section Codes

theorem byteOf_inj {code other : BitVec 7} {up up' : Bool} : byteOf code up = byteOf other up' ↔ up = up' ∧ code = other := by
  constructor
  · intro same
    have top := congrArg BitVec.msb same
    have low := congrArg (BitVec.setWidth 7) same
    unfold byteOf at top low
    rw [BitVec.msb_cons,BitVec.msb_cons] at top
    rw [BitVec.setWidth_cons,BitVec.setWidth_cons] at low
    exact ⟨top,low⟩
  · intro ⟨top,low⟩
    rw [top,low]

theorem byteOf_down (code : BitVec 7) : (byteOf code false).msb = false ∧ byteOf code false ≠ 0xE0 := by
  refine ⟨BitVec.msb_cons,fun same => ?_⟩
  have high : byteOf code false = byteOf 0x60 true := same
  exact Bool.false_ne_true (byteOf_inj.mp high).1

theorem byteOf_up (code : BitVec 7) : (byteOf code true).msb = true ∧ (byteOf code true = 0xE0 → code = 0x60) := by
  refine ⟨BitVec.msb_cons,fun same => ?_⟩
  have high : byteOf code true = byteOf 0x60 true := same
  exact (byteOf_inj.mp high).2

theorem byteOf_false (code other : BitVec 7) : byteOf code false = byteOf other false ↔ code = other :=
  byteOf_inj.trans (and_iff_right rfl)

theorem byteOf_true (code other : BitVec 7) : byteOf code true = byteOf other true ↔ code = other :=
  byteOf_inj.trans (and_iff_right rfl)

theorem after_down (code : BitVec 7) (down : Bool) :
    shiftAfter down (byteOf code false) = (decide (code = 0x2A) || decide (code = 0x36) || down) ∧
    ctrlAfter down (byteOf code false) = (decide (code = 0x1D) || down) := by
  have upper (other : BitVec 7) : byteOf code false ≠ byteOf other true := fun same => Bool.false_ne_true (byteOf_inj.mp same).1
  have first : byteOf code false = 0x2A ↔ code = 0x2A := byteOf_false code 0x2A
  have second : byteOf code false = 0x36 ↔ code = 0x36 := byteOf_false code 0x36
  have third : byteOf code false = 0x1D ↔ code = 0x1D := byteOf_false code 0x1D
  unfold shiftAfter ctrlAfter
  rw [if_neg (show ¬(byteOf code false = 0xAA ∨ byteOf code false = 0xB6) from not_or.mpr ⟨upper 0x2A,upper 0x36⟩)]
  rw [if_neg (show ¬byteOf code false = 0x9D from upper 0x1D)]
  simp only [first,second,third]
  by_cases ctrl : code = 0x1D
  · simp [ctrl]
  · simp [← Bool.decide_or]

theorem after_up (code : BitVec 7) (down : Bool) :
    shiftAfter down (byteOf code true) = (!decide (code = 0x2A) && !decide (code = 0x36) && down) ∧
    ctrlAfter down (byteOf code true) = (!decide (code = 0x1D) && down) := by
  have lower (other : BitVec 7) : byteOf code true ≠ byteOf other false := fun same => Bool.false_ne_true (byteOf_inj.mp same).1.symm
  have first : byteOf code true = 0xAA ↔ code = 0x2A := byteOf_true code 0x2A
  have second : byteOf code true = 0xB6 ↔ code = 0x36 := byteOf_true code 0x36
  have third : byteOf code true = 0x9D ↔ code = 0x1D := byteOf_true code 0x1D
  unfold shiftAfter ctrlAfter
  rw [if_neg (show ¬(byteOf code true = 0x2A ∨ byteOf code true = 0x36) from not_or.mpr ⟨lower 0x2A,lower 0x36⟩)]
  rw [if_neg (show ¬byteOf code true = 0x1D from lower 0x1D)]
  simp only [first,second,third]
  by_cases ctrl : code = 0x1D
  · simp [ctrl]
  · simp [← Bool.not_or,← Bool.decide_or]

theorem byteOf_codes (code : BitVec 7) : (byteOf code false = 0x0E ↔ code = 0x0E) ∧ (byteOf code false = 0x0F ↔ code = 0x0F) :=
  ⟨byteOf_false code 0x0E,byteOf_false code 0x0F⟩

/-- The letters stand in both maps and are no special keys. -/
theorem letter_maps : ∀ code : BitVec 7, letter code = true →
    shiftmap (byteOf code false) = keymap (byteOf code false) - 97 + 65 ∧ keymap (byteOf code false) - 97 + 65 ≠ 0 ∧
    (byteOf code false ∉ ([0x2A,0x36,0x1D,0x38,0x3A] : List Byte) ∧ byteOf code false ≠ 0x0E ∧ byteOf code false ≠ 0x0F) ∧
    keymap (byteOf code false) ≠ 0 ∧ keymap (byteOf code false) - 97 + 1 = keymap (byteOf code false) - 96 ∧
    keymap (byteOf code false) - 97 + 1 ≠ 0 ∧ keymap (byteOf code false) ≠ keymap (byteOf code false) - 97 + 65 := by
  decide +kernel

theorem other_maps : ∀ code : BitVec 7, letter code = false → byteOf code false ≠ 0x2C ∧
    (byteOf code false = 0x0C → keymap (byteOf code false) = 0x2D) := by decide +kernel

theorem scancodeChar_letter {b : Byte} (shift ctrl caps : Bool) (lower : lowerCase (keymap b) = true) :
    scancodeChar shift ctrl caps b = if ctrl then keymap b - 97 + 1 else if caps ^^ shift then keymap b - 97 + 65
      else if shift && shiftmap b != 0 then shiftmap b else keymap b := by
  unfold scancodeChar
  dsimp only
  rw [lower]
  rfl

theorem scancodeChar_other {b : Byte} (shift ctrl caps : Bool) (other : lowerCase (keymap b) = false) :
    scancodeChar shift ctrl caps b = if ctrl then if b = 0x2C then 0x1C else if b = 0x0C then 0x1F else 0
      else if shift && shiftmap b != 0 then shiftmap b else keymap b := by
  unfold scancodeChar
  dsimp only
  rw [other]
  rfl

theorem typed_iff {typed wanted : Byte} (real : typed ≠ 0) :
    (∀ c ∈ (if typed ≠ 0 then [typed] else []), some wanted = some c) ↔ wanted = typed := by
  rw [if_pos real,List.forall_mem_singleton,Option.some_inj]

theorem charsOf_letter (shift ctrl caps : Bool) (letters : letter code = true) :
    (∀ c ∈ charsOf shift ctrl caps (byteOf code false), given shift ctrl caps code = some c) ↔
      ¬(shift = true ∧ caps = true ∧ ctrl = false) := by
  obtain ⟨down,_⟩ := byteOf_down code
  obtain ⟨backspace,tab⟩ := byteOf_codes code
  obtain ⟨upper,real,⟨plain,first,second⟩,real',control,real'',apart⟩ := letter_maps code letters
  have wanted : given shift ctrl caps code = some (if ctrl then keymap (byteOf code false) - 96
      else if caps ^^ shift then shiftmap (byteOf code false) else keymap (byteOf code false)) := by
    unfold given
    rw [if_neg (mt backspace.mpr first),if_neg (mt tab.mpr second)]
    cases ctrl with
    | true => rw [if_pos rfl,if_pos letters,if_pos rfl]
    | false => rw [if_neg Bool.false_ne_true,if_pos letters,if_neg Bool.false_ne_true]
  have typed : charsOf shift ctrl caps (byteOf code false) =
      if scancodeChar shift ctrl caps (byteOf code false) ≠ 0 then [scancodeChar shift ctrl caps (byteOf code false)] else [] := by
    unfold charsOf
    rw [if_neg,if_neg first,if_neg second]
    rw [not_or,down]
    exact ⟨plain,Bool.false_ne_true⟩
  have lower : lowerCase (keymap (byteOf code false)) = true := letters
  rw [typed,wanted,scancodeChar_letter shift ctrl caps lower,upper]
  generalize keymap (byteOf code false) = base at *
  have shown : (base - 97 + 65 != 0) = true := bne_iff_ne.mpr real
  cases ctrl with
  | true => exact (typed_iff real'').trans (iff_of_true control.symm nofun)
  | false =>
    cases caps with
    | true =>
      cases shift with
      | true =>
        rw [shown]
        exact (typed_iff real).trans (iff_of_false apart fun safe => safe ⟨rfl,rfl,rfl⟩)
      | false => exact (typed_iff real).trans (iff_of_true rfl nofun)
    | false =>
      cases shift with
      | true => exact (typed_iff real).trans (iff_of_true rfl nofun)
      | false => exact (typed_iff real').trans (iff_of_true rfl nofun)

theorem charsOf_other (shift ctrl caps : Bool) (letters : letter code = false) :
    ∀ c ∈ charsOf shift ctrl caps (byteOf code false), given shift ctrl caps code = some c := by
  obtain ⟨backspace,tab⟩ := byteOf_codes code
  obtain ⟨other,minus⟩ := other_maps code letters
  have lower : lowerCase (keymap (byteOf code false)) = false := letters
  intro c member
  unfold charsOf at member
  unfold given
  split at member
  next => cases member
  next =>
    split at member
    next first => rw [if_pos (backspace.mp first),List.mem_singleton.mp member]
    next first =>
      rw [if_neg (mt backspace.mpr first)]
      split at member
      next second => rw [if_pos (tab.mp second),List.mem_singleton.mp member]
      next second =>
        rw [if_neg (mt tab.mpr second)]
        split at member
        next real =>
          rw [List.mem_singleton.mp member]
          rw [scancodeChar_other shift ctrl caps lower] at real ⊢
          rw [letters]
          cases ctrl with
          | true =>
            rw [if_pos rfl,if_neg other] at real ⊢
            rw [if_pos rfl,if_neg Bool.false_ne_true]
            split at real
            next here =>
              rw [minus here,if_pos here]
              rfl
            next => exact absurd rfl real
          | false =>
            rw [if_neg Bool.false_ne_true] at real ⊢
            rw [if_neg Bool.false_ne_true,if_neg Bool.false_ne_true]
            split at real
            next upper => rw [if_pos upper,if_pos upper]
            next plain => rw [if_neg plain,if_neg plain,if_pos real]
        next => cases member

/-- What is typed is what is given, but for a letter under Shift and Caps Lock. -/
theorem charsOf_given (code : BitVec 7) (shift ctrl caps : Bool) :
    (∀ c ∈ charsOf shift ctrl caps (byteOf code false), given shift ctrl caps code = some c) ↔
      ¬(letter code = true ∧ shift = true ∧ caps = true ∧ ctrl = false) := by
  cases letters : letter code with
  | true => exact (charsOf_letter shift ctrl caps letters).trans (not_congr (and_iff_right rfl).symm)
  | false => exact iff_of_true (charsOf_other shift ctrl caps letters) fun both => Bool.false_ne_true both.1

end Codes

section Hands
variable {held : Key → Bool} {left right : Key}

theorem either_press (key : Key) : either (Function.update held key true) left right =
    (decide (key = left) || decide (key = right) || either held left right) := by
  unfold either
  by_cases first : key = left
  · rw [first,Function.update_self,decide_eq_true rfl]
    rfl
  · rw [Function.update_of_ne (Ne.symm first),decide_eq_false first]
    by_cases second : key = right
    · rw [second,Function.update_self,decide_eq_true rfl,Bool.or_true]
      rfl
    · rw [Function.update_of_ne (Ne.symm second),decide_eq_false second]
      rfl

theorem either_release (apart : left ≠ right) (key : Key) : either (Function.update held key false) left right =
    if key = left then held right else if key = right then held left else either held left right := by
  unfold either
  split
  next first => rw [first,Function.update_self,Function.update_of_ne (Ne.symm apart),Bool.false_or]
  next first =>
    rw [Function.update_of_ne (Ne.symm first)]
    split
    next second => rw [second,Function.update_self,Bool.or_false]
    next second => rw [Function.update_of_ne (Ne.symm second)]

end Hands

section Acts
variable {d : Desk}

/-- Between two acts the driver is ready and follows, and the right Ctrl is held only with the left
one. -/
structure Quiet (d : Desk) : Prop where
  ready : Ready d.driver
  follows : Follows d
  ctrl : d.held rightCtrl = true → d.held leftCtrl = true

theorem plain_decide (code other : Code) : decide (Key.plain code = .plain other) = decide (code.1 = other.1) := by
  rw [decide_eq_decide,Key.plain.injEq,Subtype.ext_iff]

theorem key_down (ready : Ready d.driver) (key : Key) :
    Ready (handleAll d.driver (key.bytes false)).1 ∧
    (handleAll d.driver (key.bytes false)).1.shiftDown =
      (decide (key = leftShift) || decide (key = rightShift) || d.driver.shiftDown) ∧
    (handleAll d.driver (key.bytes false)).1.ctrlDown = (decide (key = leftCtrl) || d.driver.ctrlDown) ∧
    (handleAll d.driver (key.bytes false)).2 = match key with
      | .plain code => charsOf d.driver.shiftDown d.driver.ctrlDown d.driver.capsLock (byteOf code false)
      | .extended _ => [] := by
  cases key with
  | plain code =>
    obtain ⟨after,shift,ctrl,typed⟩ := handle_code ready (byteOf_down code.1).2
    refine ⟨after,shift.trans ?_,ctrl.trans ?_,(List.append_nil _).trans typed⟩
    · unfold leftShift rightShift
      rw [plain_decide,plain_decide,(after_down ..).1]
    · unfold leftCtrl
      rw [plain_decide,(after_down ..).2]
  | extended code =>
    obtain ⟨after,shift,ctrl,silent⟩ := handle_extended ready (byteOf_down code.1).2
    exact ⟨after,shift,ctrl,silent⟩

theorem key_up (ready : Ready d.driver) (key : Key) :
    Ready (handleAll d.driver (key.bytes true)).1 ∧
    (handleAll d.driver (key.bytes true)).1.shiftDown =
      (!decide (key = leftShift) && !decide (key = rightShift) && d.driver.shiftDown) ∧
    (handleAll d.driver (key.bytes true)).1.ctrlDown = (!decide (key = leftCtrl) && d.driver.ctrlDown) ∧
    (handleAll d.driver (key.bytes true)).2 = [] := by
  cases key with
  | plain code =>
    have other : byteOf code.1 true ≠ 0xE0 := mt (byteOf_up code.1).2 code.2.1
    obtain ⟨after,shift,ctrl,typed⟩ := handle_code ready other
    refine ⟨after,shift.trans ?_,ctrl.trans ?_,(List.append_nil _).trans (typed.trans ?_)⟩
    · unfold leftShift rightShift
      rw [plain_decide,plain_decide,(after_up ..).1]
    · unfold leftCtrl
      rw [plain_decide,(after_up ..).2]
    · exact if_pos (.inr (byteOf_up code.1).1)
  | extended code =>
    have other : byteOf code.1 true ≠ 0xE0 := mt (byteOf_up code.1).2 code.2.1
    obtain ⟨after,shift,ctrl,silent⟩ := handle_extended ready other
    exact ⟨after,shift,ctrl,silent⟩

theorem step_typed (act : Act) : (∀ entry ∈ (d.step act).log, entry.1 = some entry.2) ↔
    (∀ entry ∈ d.log, entry.1 = some entry.2) ∧ ∀ c ∈ (handleAll d.driver act.bytes).2,
      (act.typed.bind fun code => given (shiftHeld d.held) (ctrlHeld d.held) d.driver.capsLock code) = some c := by
  change (∀ entry ∈ d.log ++ _,_) ↔ _
  rw [List.forall_mem_append,List.forall_mem_map]

/-- What a key types is what is given. -/
theorem down_typed (quiet : Quiet d) (key : Key) (act : Act)
    (kind : act.typed = match key with
      | .plain code => some code
      | .extended _ => none) :
    (∀ c ∈ (handleAll d.driver (key.bytes false)).2,
      (act.typed.bind fun code => given (shiftHeld d.held) (ctrlHeld d.held) d.driver.capsLock code) = some c) ↔
    ∀ code, act.typed = some code → letter code →
      ¬(shiftHeld d.held = true ∧ d.driver.capsLock = true ∧ ctrlHeld d.held = false) := by
  rw [(key_down quiet.ready key).2.2.2,kind]
  cases key with
  | plain code =>
    rw [quiet.follows.shift,quiet.follows.ctrl]
    refine (charsOf_given ..).trans ⟨?_,?_⟩
    · intro safe other same letters both
      cases same
      exact safe ⟨letters,both⟩
    · intro safe both
      exact safe code rfl both.1 both.2
  | extended code => exact iff_of_true nofun nofun

theorem press_follows (quiet : Quiet d) {key : Key} (free : d.held key = false) :
    Follows (d.step (.press key)) ↔ Plain d (.press key) := by
  obtain ⟨_,shift,ctrl,_⟩ := key_down quiet.ready key
  have typed := down_typed quiet key (.press key) (by cases key <;> rfl)
  have shiftFlag : (d.step (.press key)).driver.shiftDown = shiftHeld (d.step (.press key)).held := by
    refine shift.trans ?_
    rw [quiet.follows.shift]
    exact (either_press key).symm
  have ctrlFlag : (d.step (.press key)).driver.ctrlDown = ctrlHeld (d.step (.press key)).held ↔
      (key = rightCtrl → d.held leftCtrl = true) := by
    have flag := ctrl
    rw [quiet.follows.ctrl] at flag
    change (handleAll d.driver (key.bytes false)).1.ctrlDown = ctrlHeld (Function.update d.held key true) ↔ _
    rw [flag]
    unfold ctrlHeld
    rw [either_press]
    by_cases own : key = rightCtrl
    · rw [own] at free
      rw [decide_eq_true own,Bool.or_true,Bool.true_or,forall_prop_of_true own]
      rw [decide_eq_false (own ▸ by decide),Bool.false_or]
      unfold either
      rw [free,Bool.or_false]
    · rw [decide_eq_false own,Bool.or_false]
      exact iff_of_true rfl fun same => absurd same own
  constructor
  · intro follows
    refine ⟨nofun,nofun,fun same => ?_,nofun,?_⟩
    · cases same
      exact ctrlFlag.mp follows.ctrl rfl
    · exact typed.mp ((step_typed _).mp follows.typed).2
  · intro plain
    refine ⟨shiftFlag,ctrlFlag.mpr fun own => plain.ctrlRight (congrArg Act.press own),?_⟩
    exact (step_typed _).mpr ⟨quiet.follows.typed,typed.mpr plain.letters⟩

theorem repeats_follows (quiet : Quiet d) {key : Key} (down : d.held key = true) :
    Follows (d.step (.repeats key)) ↔ Plain d (.repeats key) := by
  obtain ⟨_,shift,ctrl,_⟩ := key_down quiet.ready key
  have typed := down_typed quiet key (.repeats key) (by cases key <;> rfl)
  have own {left right : Key} (one : key = left ∨ key = right) : either d.held left right = true := by
    unfold either
    rcases one with rfl | rfl
    · rw [down,Bool.true_or]
    · rw [down,Bool.or_true]
  have shiftFlag : (d.step (.repeats key)).driver.shiftDown = shiftHeld (d.step (.repeats key)).held := by
    refine shift.trans ?_
    rw [quiet.follows.shift]
    change _ = shiftHeld d.held
    by_cases one : key = leftShift ∨ key = rightShift
    · rw [show shiftHeld d.held = true from own one,Bool.or_true]
    · rw [not_or] at one
      rw [decide_eq_false one.1,decide_eq_false one.2]
      rfl
  have ctrlFlag : (d.step (.repeats key)).driver.ctrlDown = ctrlHeld (d.step (.repeats key)).held := by
    refine ctrl.trans ?_
    rw [quiet.follows.ctrl]
    change _ = ctrlHeld d.held
    by_cases one : key = leftCtrl
    · rw [show ctrlHeld d.held = true from own (.inl one),Bool.or_true]
    · rw [decide_eq_false one]
      rfl
  constructor
  · intro follows
    exact ⟨nofun,nofun,nofun,nofun,typed.mp ((step_typed _).mp follows.typed).2⟩
  · intro plain
    exact ⟨shiftFlag,ctrlFlag,(step_typed _).mpr ⟨quiet.follows.typed,typed.mpr plain.letters⟩⟩

theorem release_follows (quiet : Quiet d) {key : Key} (down : d.held key = true) :
    Follows (d.step (.release key)) ↔ Plain d (.release key) := by
  obtain ⟨_,shift,ctrl,silent⟩ := key_up quiet.ready key
  have typed : ∀ entry ∈ (d.step (.release key)).log, entry.1 = some entry.2 := by
    refine (step_typed _).mpr ⟨quiet.follows.typed,?_⟩
    change ∀ c ∈ (handleAll d.driver (key.bytes true)).2,_
    rw [silent]
    nofun
  have shiftFlag : (d.step (.release key)).driver.shiftDown = shiftHeld (d.step (.release key)).held ↔
      (key = leftShift → d.held rightShift = false) ∧ (key = rightShift → d.held leftShift = false) := by
    have flag := shift
    rw [quiet.follows.shift] at flag
    change (handleAll d.driver (key.bytes true)).1.shiftDown = shiftHeld (Function.update d.held key false) ↔ _
    rw [flag]
    unfold shiftHeld
    rw [either_release (by decide)]
    by_cases first : key = leftShift
    · have other : key ≠ rightShift := first ▸ by decide
      rw [if_pos first,decide_eq_true first,forall_prop_of_true first,and_iff_left fun same => absurd same other]
      exact eq_comm
    · rw [if_neg first,decide_eq_false first]
      by_cases second : key = rightShift
      · rw [if_pos second,decide_eq_true second,forall_prop_of_true second,and_iff_right fun same => absurd same first]
        exact eq_comm
      · rw [if_neg second,decide_eq_false second]
        exact iff_of_true rfl ⟨fun same => absurd same first,fun same => absurd same second⟩
  have ctrlFlag : (d.step (.release key)).driver.ctrlDown = ctrlHeld (d.step (.release key)).held ↔
      (key = leftCtrl → d.held rightCtrl = false) := by
    have flag := ctrl
    rw [quiet.follows.ctrl] at flag
    change (handleAll d.driver (key.bytes true)).1.ctrlDown = ctrlHeld (Function.update d.held key false) ↔ _
    rw [flag]
    unfold ctrlHeld
    rw [either_release (by decide)]
    by_cases first : key = leftCtrl
    · rw [if_pos first,decide_eq_true first,forall_prop_of_true first]
      exact eq_comm
    · rw [if_neg first,decide_eq_false first]
      refine iff_of_true ?_ fun same => absurd same first
      split
      next second =>
        rw [second] at down
        have both := quiet.ctrl down
        unfold either
        rw [both,down]
        rfl
      next => rfl
  constructor
  · intro follows
    have flags := shiftFlag.mp follows.shift
    refine ⟨fun same => ?_,fun same => ?_,nofun,fun same => ?_,nofun⟩
    · cases same
      exact flags.1 rfl
    · cases same
      exact flags.2 rfl
    · cases same
      exact ctrlFlag.mp follows.ctrl rfl
  · intro plain
    have left (own : key = leftShift) := plain.shiftLeft (congrArg Act.release own)
    have right (own : key = rightShift) := plain.shiftRight (congrArg Act.release own)
    exact ⟨shiftFlag.mpr ⟨left,right⟩,ctrlFlag.mpr fun own => plain.ctrlLeft (congrArg Act.release own),typed⟩

/-- An act that types nothing and changes no key. -/
theorem silent_follows (quiet : Quiet d) {act : Act} (kind : act.typed = none) (idle : act.after d.held = d.held)
    (other : ∀ key, act ≠ .press key ∧ act ≠ .release key)
    (shift : (handleAll d.driver act.bytes).1.shiftDown = d.driver.shiftDown)
    (ctrl : (handleAll d.driver act.bytes).1.ctrlDown = d.driver.ctrlDown) (silent : (handleAll d.driver act.bytes).2 = []) :
    Follows (d.step act) ↔ Plain d act := by
  refine iff_of_true ⟨?_,?_,?_⟩ ⟨?_,?_,?_,?_,?_⟩
  · change (handleAll d.driver act.bytes).1.shiftDown = shiftHeld (act.after d.held)
    rw [shift,idle,quiet.follows.shift]
  · change (handleAll d.driver act.bytes).1.ctrlDown = ctrlHeld (act.after d.held)
    rw [ctrl,idle,quiet.follows.ctrl]
  · refine (step_typed act).mpr ⟨quiet.follows.typed,?_⟩
    rw [silent]
    nofun
  · exact fun same => absurd same (other leftShift).2
  · exact fun same => absurd same (other rightShift).2
  · exact fun same => absurd same (other rightCtrl).1
  · exact fun same => absurd same (other leftCtrl).2
  · intro code typed
    exact nomatch kind.symm.trans typed

theorem fakeShift_ready (quiet : Quiet d) (right up : Bool) :
    Ready (handleAll d.driver (Act.fakeShift right up).bytes).1 ∧
    (handleAll d.driver (Act.fakeShift right up).bytes).1.shiftDown = d.driver.shiftDown ∧
    (handleAll d.driver (Act.fakeShift right up).bytes).1.ctrlDown = d.driver.ctrlDown ∧
    (handleAll d.driver (Act.fakeShift right up).bytes).2 = [] := by
  apply handle_extended quiet.ready
  cases right <;> cases up <;> decide

/-- After an act the driver follows exactly if the act is plain. -/
theorem step_follows (quiet : Quiet d) {act : Act} (possible : act.Possible d.held) : Follows (d.step act) ↔ Plain d act := by
  cases act with
  | press key => exact press_follows quiet possible
  | repeats key => exact repeats_follows quiet possible
  | release key => exact release_follows quiet possible
  | fakeShift right up =>
    obtain ⟨_,shift,ctrl,silent⟩ := fakeShift_ready quiet right up
    exact silent_follows quiet rfl rfl (fun _ => ⟨nofun,nofun⟩) shift ctrl silent
  | pause =>
    obtain ⟨_,shift,ctrl,silent⟩ := handle_pause quiet.ready
    have free : ctrlHeld d.held = false := possible
    exact silent_follows quiet rfl rfl (fun _ => ⟨nofun,nofun⟩) shift
      (ctrl.trans (quiet.follows.ctrl.trans free).symm) silent

theorem step_ready (quiet : Quiet d) (act : Act) : Ready (d.step act).driver := by
  change Ready (handleAll d.driver act.bytes).1
  cases act with
  | press key => exact (key_down quiet.ready key).1
  | repeats key => exact (key_down quiet.ready key).1
  | release key => exact (key_up quiet.ready key).1
  | fakeShift right up => exact (fakeShift_ready quiet right up).1
  | pause => exact (handle_pause quiet.ready).1

theorem step_quiet (quiet : Quiet d) {act : Act} (possible : act.Possible d.held) (plain : Plain d act) :
    Quiet (d.step act) := by
  refine ⟨step_ready quiet act,(step_follows quiet possible).mpr plain,?_⟩
  cases act with
  | press key =>
    change Function.update d.held key true rightCtrl = true → Function.update d.held key true leftCtrl = true
    intro right
    by_cases left : key = leftCtrl
    · rw [left,Function.update_self]
    · rw [Function.update_of_ne (Ne.symm left)]
      by_cases own : key = rightCtrl
      · exact plain.ctrlRight (congrArg Act.press own)
      · rw [Function.update_of_ne (Ne.symm own)] at right
        exact quiet.ctrl right
  | release key =>
    change Function.update d.held key false rightCtrl = true → Function.update d.held key false leftCtrl = true
    intro right
    have own : rightCtrl ≠ key := by
      rintro rfl
      rw [Function.update_self] at right
      exact Bool.false_ne_true right
    rw [Function.update_of_ne own] at right
    have left : leftCtrl ≠ key := by
      rintro rfl
      exact Bool.false_ne_true ((plain.ctrlLeft rfl).symm.trans right)
    rw [Function.update_of_ne left]
    exact quiet.ctrl right
  | _ => exact quiet.ctrl

end Acts

/-- The keyboard after `keyboard_init`, with no key held. -/
def Desk.init (s : Driver) : Desk := ⟨keyboardInit s,fun _ => false,[]⟩

theorem init_quiet (s : Driver) : Quiet (Desk.init s) := ⟨⟨rfl,rfl⟩,⟨rfl,rfl,nofun⟩,nofun⟩

/-- The modifiers follow the keys after every scancode of a run, and the characters are those given,
exactly if each act of it is plain. -/
theorem modifiers_follow_iff (s : Driver) {acts : List Act}
    (possible : Meets Desk.step (fun d act => act.Possible d.held) (Desk.init s) acts) :
    (∀ past, past <+: acts → Follows (run Desk.step (Desk.init s) past)) ↔ Meets Desk.step Plain (Desk.init s) acts :=
  throughout_iff (fun _ quiet => quiet.follows) (fun _ _ quiet can plain => step_quiet quiet can plain)
    (fun _ _ quiet can follows => (step_follows quiet can).mp follows) (init_quiet s) possible

/-- A letter is typed with the left Shift. -/
theorem modifiers_follow_letter :
    Follows (run Desk.step (Desk.init idleDriver) [.press leftShift,.press (.plain ⟨0x1E,by decide⟩)]) := by
  have possible : Meets Desk.step (fun d act => act.Possible d.held) (Desk.init idleDriver)
    [.press leftShift,.press (.plain ⟨0x1E,by decide⟩)] := ⟨rfl,rfl,trivial⟩
  refine (modifiers_follow_iff idleDriver possible).mpr ⟨⟨nofun,nofun,?_,nofun,?_⟩,⟨nofun,nofun,?_,nofun,?_⟩,trivial⟩
    _ (List.prefix_refl _)
  · intro same
    exact absurd (Act.press.inj same) (by decide)
  · intro code typed letters
    cases typed
    exact absurd letters (by decide +kernel)
  · intro same
    exact absurd (Act.press.inj same) (by decide)
  · intro code _ _ both
    exact Bool.false_ne_true both.2.1

/-- The left Shift is released under the right one. -/
theorem shift_lost :
    Meets Desk.step (fun d act => act.Possible d.held) (Desk.init idleDriver)
      [.press leftShift,.press rightShift,.release leftShift] ∧
    ¬Follows (run Desk.step (Desk.init idleDriver) [.press leftShift,.press rightShift,.release leftShift]) := by
  refine ⟨⟨rfl,rfl,rfl,trivial⟩,fun follows => ?_⟩
  have lost : (run Desk.step (Desk.init idleDriver) [.press leftShift,.press rightShift,.release leftShift]).driver.shiftDown ≠
      shiftHeld (run Desk.step (Desk.init idleDriver) [.press leftShift,.press rightShift,.release leftShift]).held := by
    decide +kernel
  exact lost follows.shift

end LionOS.Keys

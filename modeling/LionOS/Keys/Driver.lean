import LionOS.Channels.Input
import LionOS.Library.Ring

/-! The keyboard driver, with the scancodes of a PS/2 keyboard and the reports of a USB keyboard.
Next to the driver its functions return the characters that they push. -/
namespace LionOS.Keys
open LionOS.Physical (Byte)
open LionOS.Processes (wrap)
open LionOS.Library (window window_push window_length)
open LionOS.Channels (Keyboard pushChar keyboardAvailable keyboardBufferSize)

instance : LawfulBEq Byte := inferInstance

structure Driver where
  queue : Keyboard
  shiftDown : Bool
  ctrlDown : Bool
  altDown : Bool
  capsLock : Bool
  extendedPrefix : Bool
  scancodeCount : Nat
  lastScancode : Byte
  inputSeen : Bool
  scancodeSet : Nat
  set2BreakPending : Bool
  usbPrevKeys : List Byte

/-- The variables that `keyboard_init` resets. -/
def keyboardInit (s : Driver) : Driver :=
  {s with
    queue := {s.queue with readIndex := 0,writeIndex := 0}
    shiftDown := false
    ctrlDown := false
    altDown := false
    capsLock := false
    extendedPrefix := false
    scancodeCount := 0
    lastScancode := 0
    inputSeen := false
    scancodeSet := 1
    set2BreakPending := false}

/-- The driver before it is used. -/
def idleDriver : Driver := ⟨⟨fun _ => 0,0,0⟩,false,false,false,false,false,0,0,false,1,false,[0,0,0,0,0,0]⟩

def Driver.push (s : Driver) (c : Byte) : Driver × List Byte := ({s with queue := pushChar s.queue c},[c])

/-- An array of characters in rows without a gap. Between the rows it is 0. -/
def entry (rows : List (Nat × List Char)) (i : Nat) : Byte :=
  match rows.find? fun row => row.1 ≤ i && i < row.1 + row.2.length with
  | some row => BitVec.ofNat 8 ((row.2[i - row.1]?).elim 0 Char.toNat)
  | none => 0

def keymap (scancode : Byte) : Byte :=
  entry [(0x01,['\x1b']),(0x02,['1','2','3','4','5','6','7','8','9','0','-','=']),
    (0x10,['q','w','e','r','t','y','u','i','o','p','[',']','\n']),
    (0x1E,['a','s','d','f','g','h','j','k','l',';','\x27','\x60']),
    (0x2B,['\x5c','z','x','c','v','b','n','m',',','.','/']),(0x39,[' '])] scancode.toNat

def shiftmap (scancode : Byte) : Byte :=
  entry [(0x02,['!','@','#','$','%','^','&','*','(',')','_','+']),
    (0x10,['Q','W','E','R','T','Y','U','I','O','P','\x7b','\x7d','\n']),
    (0x1E,['A','S','D','F','G','H','J','K','L',':','\x22','~']),
    (0x2B,['|','Z','X','C','V','B','N','M','<','>','?']),(0x39,[' '])] scancode.toNat

def lowerCase (c : Byte) : Bool := 97 ≤ c && c ≤ 122

/-- The character at the end of `keyboard_handle_scancode`, or 0. -/
def scancodeChar (shift ctrl caps : Bool) (scancode : Byte) : Byte :=
  let base := keymap scancode
  let shifted := shiftmap scancode
  if ctrl then
    if lowerCase base then base - 97 + 1 else if scancode = 0x2C then 0x1C else if scancode = 0x0C then 0x1F else 0
  else if lowerCase base && (caps ^^ shift) then base - 97 + 65
  else if shift && shifted != 0 then shifted
  else base

/-- `keyboard_handle_scancode` for a code of set 1 behind no prefix. -/
def handleCode (s : Driver) (scancode : Byte) : Driver × List Byte :=
  if scancode = 0x2A ∨ scancode = 0x36 then ({s with shiftDown := true},[])
  else if scancode = 0xAA ∨ scancode = 0xB6 then ({s with shiftDown := false},[])
  else if scancode = 0x1D then ({s with ctrlDown := true},[])
  else if scancode = 0x9D then ({s with ctrlDown := false},[])
  else if scancode = 0x38 then ({s with altDown := true},[])
  else if scancode = 0xB8 then ({s with altDown := false},[])
  else if scancode = 0x3A then ({s with capsLock := !s.capsLock},[])
  else if scancode.msb then (s,[])
  else if scancode = 0x0E then s.push 8
  else if scancode = 0x0F then s.push 9
  else
    let ch := scancodeChar s.shiftDown s.ctrlDown s.capsLock scancode
    if ch ≠ 0 then s.push ch else (s,[])

def handleSet1 (s : Driver) (scancode : Byte) : Driver × List Byte :=
  let s := {s with scancodeCount := wrap (s.scancodeCount + 1),lastScancode := scancode,inputSeen := true}
  if scancode = 0xE0 then ({s with extendedPrefix := true},[])
  else if s.extendedPrefix then ({s with extendedPrefix := false},[])
  else handleCode s scancode

def set2MakeToSet1 (code : Byte) : Byte :=
  (([(0x1C,0x1E),(0x32,0x30),(0x21,0x2E),(0x23,0x20),(0x24,0x12),(0x2B,0x21),(0x34,0x22),(0x33,0x23),(0x43,0x17),
    (0x3B,0x24),(0x42,0x35),(0x4B,0x25),(0x3A,0x26),(0x31,0x2C),(0x44,0x18),(0x4D,0x19),(0x15,0x10),(0x2D,0x11),
    (0x1B,0x2D),(0x2C,0x2F),(0x3C,0x14),(0x2A,0x1F),(0x1D,0x1E),(0x35,0x31),(0x3D,0x13),(0x45,0x0B),(0x16,0x02),
    (0x1E,0x03),(0x26,0x04),(0x25,0x05),(0x2E,0x06),(0x36,0x07),(0x3E,0x08),(0x46,0x09),(0x3F,0x0A),(0x47,0x0C),
    (0x4F,0x0D),(0x55,0x0D),(0x54,0x1A),(0x5B,0x1B),(0x5A,0x1C),(0x66,0x0E),(0x0D,0x0F),(0x29,0x39),(0x12,0x2A),
    (0x59,0x36),(0x14,0x1D),(0x11,0x38),(0x58,0x3A),(0x76,0x01)] : List (Byte × Byte)).lookup code).getD 0

def keyboardHandleScancode (s : Driver) (scancode : Byte) : Driver × List Byte :=
  if s.scancodeSet = 2 then
    if scancode = 0xF0 then ({s with set2BreakPending := true},[])
    else
      let make := set2MakeToSet1 scancode
      if make = 0 then (s,[])
      else if s.set2BreakPending then
        let s := {s with set2BreakPending := false}
        if make = 0x2A ∨ make = 0x36 then ({s with shiftDown := false},[])
        else if make = 0x1D then ({s with ctrlDown := false},[])
        else if make = 0x38 then ({s with altDown := false},[])
        else (s,[])
      else handleSet1 s make
  else handleSet1 s scancode

def usbKeyChar (usage : Byte) (shifted : Bool) : Byte :=
  if shifted then
    entry [(0x04,['A','B','C','D','E','F','G','H','I','J','K','L','M','N','O','P','Q','R','S','T','U','V','W','X','Y','Z']),
      (0x1E,['!','@','#','$','%','^','&','*','(',')']),
      (0x28,['\n','\x1b','\x08','\t',' ','_','+','\x7b','\x7d','|']),(0x33,[':','\x22','~','<','>','?'])] usage.toNat
  else
    entry [(0x04,['a','b','c','d','e','f','g','h','i','j','k','l','m','n','o','p','q','r','s','t','u','v','w','x','y','z']),
      (0x1E,['1','2','3','4','5','6','7','8','9','0']),
      (0x28,['\n','\x1b','\x08','\t',' ','-','=','[',']','\x5c']),(0x33,[';','\x27','\x60',',','.','/'])] usage.toNat

/-- The character of a key of a report, or 0. -/
def usageChar (shift ctrl caps : Bool) (code : Byte) : Byte :=
  let ch := usbKeyChar code (shift ^^ (caps && 0x04 ≤ code && code ≤ 0x1D))
  if ctrl && lowerCase ch then ch - 97 + 1 else ch

/-- A turn of the loop over the keys of a report. -/
def usbTurn (shift ctrl : Bool) (prev : List Byte) (now : Driver × List Byte) (code : Byte) : Driver × List Byte :=
  let (s,pushed) := now
  if code = 0 ∨ code ∈ prev then (s,pushed)
  else if code = 0x39 then ({s with capsLock := !s.capsLock},pushed)
  else
    let ch := usageChar shift ctrl s.capsLock code
    if ch ≠ 0 then ({s with queue := pushChar s.queue ch,inputSeen := true},pushed ++ [ch]) else (s,pushed)

def shiftIn (modifiers : Byte) : Bool := modifiers &&& 0x22 != 0
def ctrlIn (modifiers : Byte) : Bool := modifiers &&& 0x11 != 0
def altIn (modifiers : Byte) : Bool := modifiers &&& 0x44 != 0

def keyboardHandleUsbReport (s : Driver) (report : List Byte) : Driver × List Byte :=
  if report.length < 8 then (s,[])
  else
    let modifiers := report.headD 0
    let keys := (report.drop 2).take 6
    let start := {s with shiftDown := shiftIn modifiers,ctrlDown := ctrlIn modifiers,altDown := altIn modifiers}
    let (s,pushed) := keys.foldl (usbTurn (shiftIn modifiers) (ctrlIn modifiers) s.usbPrevKeys) (start,[])
    ({s with usbPrevKeys := keys},pushed)

/-- The characters that wait in the queue. -/
def waiting (k : Keyboard) : List Byte := window keyboardBufferSize k.buffer k.readIndex (keyboardAvailable k)

structure InRange (k : Keyboard) : Prop where
  read : k.readIndex < keyboardBufferSize
  write : k.writeIndex < keyboardBufferSize

theorem pushChar_stored {k : Keyboard} (range : InRange k) (c : Byte) (room : keyboardAvailable k + 1 < keyboardBufferSize) :
    InRange (pushChar k c) ∧ waiting (pushChar k c) = waiting k ++ [c] := by
  obtain ⟨read,write⟩ := range
  have counted : keyboardAvailable k < keyboardBufferSize ∧
      k.writeIndex = (k.readIndex + keyboardAvailable k) % keyboardBufferSize := by
    unfold keyboardAvailable keyboardBufferSize at *
    split <;> omega
  obtain ⟨below,place⟩ := counted
  have free : (k.writeIndex + 1) % keyboardBufferSize ≠ k.readIndex := by
    unfold keyboardBufferSize at *
    omega
  have pushed : pushChar k c = {k with
      buffer := Function.update k.buffer k.writeIndex c,writeIndex := (k.writeIndex + 1) % keyboardBufferSize} := if_neg free
  have more : keyboardAvailable (pushChar k c) = keyboardAvailable k + 1 := by
    rw [pushed]
    unfold keyboardAvailable keyboardBufferSize at *
    dsimp only at *
    split at place
    next => split <;> omega
    next => split <;> omega
  have stored := @window_push Byte keyboardBufferSize k.buffer k.readIndex (keyboardAvailable k) c below
  refine ⟨?_,?_⟩
  · rw [pushed]
    exact ⟨read,Nat.mod_lt _ (by decide)⟩
  · unfold waiting
    rw [more,pushed]
    rw [← place] at stored
    exact stored

theorem pushes_stored {k : Keyboard} {chars : List Byte} (range : InRange k)
    (room : (waiting k).length + chars.length < keyboardBufferSize) : waiting (chars.foldl pushChar k) = waiting k ++ chars := by
  induction chars generalizing k with
  | nil => exact (List.append_nil _).symm
  | cons c rest ih =>
    have count : (waiting k).length = keyboardAvailable k := window_length
    rw [List.length_cons] at room
    obtain ⟨range',stored⟩ := pushChar_stored range c (by omega)
    rw [List.foldl_cons,ih range' (by rw [stored,List.length_append,List.length_singleton]; omega),stored,List.append_assoc]
    rfl

end LionOS.Keys

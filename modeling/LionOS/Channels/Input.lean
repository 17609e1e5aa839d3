import LionOS.Processes.Schedule

/-! The ring buffers behind the keyboard and the mouse. -/
namespace LionOS.Channels
open LionOS.Physical LionOS.Processes

def keyboardBufferSize : Nat := 128
def mouseEventBufferSize : Nat := 256

structure Keyboard where
  buffer : Nat → Byte
  readIndex : Nat
  writeIndex : Nat

def pushChar (k : Keyboard) (c : Byte) : Keyboard :=
  let next := (k.writeIndex + 1) % keyboardBufferSize
  if next = k.readIndex then k
  else {k with buffer := Function.update k.buffer k.writeIndex c,writeIndex := next}

def keyboardGetchar (k : Keyboard) : Option (Keyboard × Byte) :=
  if k.readIndex = k.writeIndex then none
  else some ({k with readIndex := (k.readIndex + 1) % keyboardBufferSize},k.buffer k.readIndex)

def keyboardAvailable (k : Keyboard) : Nat :=
  if k.writeIndex ≥ k.readIndex then k.writeIndex - k.readIndex
  else keyboardBufferSize - k.readIndex + k.writeIndex

structure MouseEvent where
  dx : Nat
  dy : Nat
  buttons : Byte
  source : Byte
  deriving Inhabited

/-- `channel` is the address of `mouse_event_channel`. -/
structure Mouse where
  ready : Bool
  buffer : Nat → MouseEvent
  readIdx : Nat
  writeIdx : Nat
  dropCount : Nat
  channel : Nat

def mouseEventPush (s : System) (m : Mouse) (event : MouseEvent) : System × Mouse :=
  if m.ready = false then (s,m)
  else
    let next := (m.writeIdx + 1) % mouseEventBufferSize
    if next = m.readIdx then (s,{m with dropCount := wrap (m.dropCount + 1)})
    else (processWakeup s m.channel,
      {m with buffer := Function.update m.buffer m.writeIdx event,writeIdx := next})

def mouseEventAvailable (m : Mouse) : Nat :=
  if m.ready then (m.writeIdx + mouseEventBufferSize - m.readIdx) % mouseEventBufferSize else 0

def mouseReadEvent (s : System) (m : Mouse) (cpu : Nat) : System × Mouse × Except Int MouseEvent :=
  if m.ready = false then (s,m,.error (-1))
  else if m.readIdx ≠ m.writeIdx then
    (s,{m with readIdx := (m.readIdx + 1) % mouseEventBufferSize},.ok (m.buffer m.readIdx))
  else
    let (s,blocked) := processSleepOn s cpu m.channel
    (s,m,.error blocked)

end LionOS.Channels

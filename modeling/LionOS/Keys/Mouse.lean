import Mathlib.Data.Int.ModEq
import LionOS.Channels.Input
import LionOS.Library.Simulation

/-! The mouse driver: the packets of a PS/2 mouse, the reports of a USB mouse, and the cursor that they
move. Next to the driver its functions return the events that they push. -/
namespace LionOS.Keys
open LionOS.Library
open LionOS.Physical (Byte)
open LionOS.Channels (MouseEvent)

/-- A number as an `int32_t`. -/
def int32 (z : Int) : Int := z.bmod (2^32)

def word (z : Int) : Nat := (z % 2^32).toNat

structure MouseDriver where
  ps2X : Int
  ps2Y : Int
  ps2Buttons : Byte
  ps2Cycle : Nat
  ps2Dx : Int
  ps2Flags : Byte
  usbInitialized : Bool
  usbStatus : Nat
  usbRetryFrames : Nat
  usbRetryCount : Nat
  usbRetryPending : Bool
  usbRetryServiceBusy : Bool
  usbX : Int
  usbY : Int
  usbButtons : Byte
  usbRecoveryCooldown : Nat
  usbHasReport : Bool
  cursorSmoothX : Int
  cursorSmoothY : Int
  cursorMaxX : Nat
  cursorMaxY : Nat

def bootMouse : MouseDriver :=
  ⟨400,300,0,0,0,0,false,0,0,0,false,false,400,300,0,0,false,400,300,1023,767⟩

def mouseGain : Int := 2
def mouseScaleDelta (d : Int) : Int := int32 (d * mouseGain)

/-- `if (x < 0) x = 0; if (x > (int32_t)max) x = (int32_t)max;` -/
def clampTo (max : Nat) (x : Int) : Int :=
  let x := if x < 0 then 0 else x
  if x > int32 max then int32 max else x

/-- The sign bits of a packet: bit `4` for the x axis, bit `5` for the y axis. -/
def signOf (flags : Byte) (shift : Nat) : Int := ((flags.toNat <<< shift) &&& 0x100 : Nat)

def mouseHandlePs2Byte : Machine MouseDriver Byte (List MouseEvent) := fun s data =>
  match s.ps2Cycle with
  | 0 =>
    if data &&& 0x08 ≠ 0 then ({s with ps2Flags := data,ps2Buttons := data &&& 0x07,ps2Cycle := 1},[]) else (s,[])
  | 1 => ({s with ps2Dx := data.toNat,ps2Cycle := 2},[])
  | 2 =>
    if s.ps2Flags &&& 0xC0 = 0 then
      let dx := s.ps2Dx - signOf s.ps2Flags 4
      let dy := data.toNat - signOf s.ps2Flags 3
      ({s with
        ps2X := clampTo s.cursorMaxX (int32 (s.ps2X + mouseScaleDelta dx))
        ps2Y := clampTo s.cursorMaxY (int32 (s.ps2Y - mouseScaleDelta dy))
        ps2Cycle := 0},[⟨word dx,word (-dy),s.ps2Buttons,1⟩])
    else ({s with ps2Cycle := 0},[])
  | _ => ({s with ps2Cycle := 0},[])

/-- `mouse_usb_init`, with whether `xhci_mouse_init` finds a mouse. -/
def mouseUsbInit (s : MouseDriver) (found : Bool) : MouseDriver :=
  if s.usbInitialized then s
  else if found then
    {s with usbInitialized := true,usbHasReport := false,usbRetryCount := 0,usbStatus := 1,usbRecoveryCooldown := 0}
  else {s with usbStatus := 0}

/-- `mouse_usb_retry` before it calls `mouse_usb_init`. -/
def usbRetryBegin (s : MouseDriver) : MouseDriver :=
  {s with
    usbHasReport := false
    usbRetryFrames := 0
    usbRetryCount := 0
    usbRetryPending := false
    usbInitialized := false
    usbStatus := 3
    usbRecoveryCooldown := 0
    usbRetryServiceBusy := true}

/-- `mouse_retry_service` before it calls `mouse_usb_init`. -/
def retryServiceBegin (s : MouseDriver) : MouseDriver :=
  if !s.usbRetryPending || s.usbRetryServiceBusy then s else {s with usbRetryPending := false,usbRetryServiceBusy := true}

/-- The end of both. -/
def usbRetryEnd (s : MouseDriver) (found : Bool) : MouseDriver := {mouseUsbInit s found with usbRetryServiceBusy := false}

/-- What `xhci_mouse_poll` returns and stores. -/
structure UsbPoll where
  result : Int
  dx : Int
  dy : Int
  btn : Byte

def smoothStep (current target : Int) : Int := if target - current = 0 then current else target

/-- The report of a USB mouse, or its loss, in `mouse_poll`. -/
def pollUsb (s : MouseDriver) (poll : UsbPoll) : MouseDriver × List MouseEvent :=
  let result := if s.usbRetryServiceBusy then 0 else poll.result
  if s.usbInitialized then
    if result < 0 then
      ({s with
        usbInitialized := false
        usbHasReport := false
        usbStatus := 3
        usbRetryFrames := 0
        usbRecoveryCooldown := 500},[])
    else if result = 1 then
      ({s with
        usbX := clampTo s.cursorMaxX (int32 (s.usbX + mouseScaleDelta poll.dx))
        usbY := clampTo s.cursorMaxY (int32 (s.usbY + mouseScaleDelta poll.dy))
        usbButtons := poll.btn
        usbHasReport := true},[⟨word poll.dx,word poll.dy,poll.btn,2⟩])
    else (s,[])
  else if s.usbRetryCount < 3 then
    let s := {s with usbStatus := 3}
    if !s.usbRetryPending && !s.usbRetryServiceBusy then
      if s.usbRetryFrames + 1 ≥ 500 then
        ({s with usbRetryFrames := 0,usbRetryCount := s.usbRetryCount + 1,usbRetryPending := true},[])
      else ({s with usbRetryFrames := s.usbRetryFrames + 1},[])
    else (s,[])
  else ({s with usbStatus := 0},[])

def mousePoll (s : MouseDriver) (poll : UsbPoll) : MouseDriver × List MouseEvent :=
  let (s,events) := pollUsb s poll
  let tx := if s.usbInitialized then s.usbX else s.ps2X
  let ty := if s.usbInitialized then s.usbY else s.ps2Y
  ({s with
    usbRecoveryCooldown := s.usbRecoveryCooldown - 1
    cursorSmoothX := smoothStep s.cursorSmoothX tx
    cursorSmoothY := smoothStep s.cursorSmoothY ty},events)

def mouseSetBounds (s : MouseDriver) (maxX maxY : Nat) : MouseDriver :=
  let maxX := if maxX > 0 then maxX - 1 else 0
  let maxY := if maxY > 0 then maxY - 1 else 0
  {s with
    cursorMaxX := maxX
    cursorMaxY := maxY
    ps2X := if s.ps2X > int32 maxX then int32 maxX else s.ps2X
    ps2Y := if s.ps2Y > int32 maxY then int32 maxY else s.ps2Y
    usbX := if s.usbX > int32 maxX then int32 maxX else s.usbX
    usbY := if s.usbY > int32 maxY then int32 maxY else s.usbY}

def mouseX (s : MouseDriver) : Int := s.cursorSmoothX
def mouseY (s : MouseDriver) : Int := s.cursorSmoothY
def mouseButtons (s : MouseDriver) : Byte := if s.usbInitialized && s.usbHasReport then s.usbButtons else s.ps2Buttons

section Packets

/-- Three bytes of a PS/2 mouse, the first with its bit 3 set. -/
structure Packet where
  flags : Byte
  dx : Byte
  dy : Byte

/-- A byte that can start a packet. -/
def starts (b : Byte) : Prop := b &&& 0x08 ≠ 0

instance (b : Byte) : Decidable (starts b) := inferInstanceAs (Decidable (_ ≠ _))

/-- The packets in a row of bytes; a byte that starts none is passed over. -/
def packets : List Byte → List Packet
  | flags::dx::dy::rest => if starts flags then ⟨flags,dx,dy⟩::packets rest else packets (dx::dy::rest)
  | _ => []

/-- A packet with an overflow bit does not count. -/
def Packet.counts (p : Packet) : Bool := p.flags &&& 0xC0 == 0

/-- Nine bits with a sign. -/
def Packet.right (p : Packet) : Int := p.dx.toNat - if p.flags.getLsbD 4 then 256 else 0
def Packet.up (p : Packet) : Int := p.dy.toNat - if p.flags.getLsbD 5 then 256 else 0

/-- Where a packet moves the cursor on a screen with these last places. -/
def Packet.move (last : Nat × Nat) (place : Int × Int) (p : Packet) : Int × Int :=
  if p.counts then (min (last.1 : Int) (max 0 (place.1 + 2 * p.right)),min (last.2 : Int) (max 0 (place.2 - 2 * p.up))) else place

def Packet.event (p : Packet) : Option MouseEvent :=
  if p.counts then some ⟨word p.right,word (-p.up),p.flags &&& 0x07,1⟩ else none

theorem packets_skip {b : Byte} (none : ¬starts b) (rest : List Byte) : packets (b::rest) = packets rest := by
  cases rest with
  | nil => simp [packets]
  | cons dx rest => cases rest with
    | nil => simp [packets]
    | cons dy rest => rw [packets,if_neg none]

theorem int32_small {z : Int} (low : -2^31 ≤ z) (high : z < 2^31) : int32 z = z :=
  Int.bmod_eq_of_le (by omega) (by omega)

theorem clampTo_eq {last : Nat} (small : last ≤ 2^30) (x : Int) : clampTo last x = min (last : Int) (max 0 x) := by
  unfold clampTo
  rw [int32_small (by omega) (by omega)]
  dsimp only
  split <;> split <;> omega

theorem signOf_right (flags : Byte) : signOf flags 4 = if flags.getLsbD 4 then 256 else 0 := by
  revert flags
  decide

theorem signOf_up (flags : Byte) : signOf flags 3 = if flags.getLsbD 5 then 256 else 0 := by
  revert flags
  decide

theorem Packet.small (p : Packet) : -256 ≤ p.right ∧ p.right < 256 ∧ -256 ≤ p.up ∧ p.up < 256 := by
  have dx := p.dx.isLt
  have dy := p.dy.isLt
  unfold Packet.right Packet.up
  split <;> split <;> omega

end Packets

section Stream

/-- The bytes of a packet that have come. -/
inductive Holds (s : MouseDriver) : List Byte → Prop
  | none (cycle : s.ps2Cycle = 0) : Holds s []
  | one (flags : Byte) (cycle : s.ps2Cycle = 1) (first : s.ps2Flags = flags) (starting : starts flags)
      (buttons : s.ps2Buttons = flags &&& 0x07) : Holds s [flags]
  | two (flags dx : Byte) (cycle : s.ps2Cycle = 2) (first : s.ps2Flags = flags) (starting : starts flags)
      (buttons : s.ps2Buttons = flags &&& 0x07) (second : s.ps2Dx = dx.toNat) : Holds s [flags,dx]

def MouseDriver.place (s : MouseDriver) : Int × Int := (s.ps2X,s.ps2Y)
def MouseDriver.last (s : MouseDriver) : Nat × Nat := (s.cursorMaxX,s.cursorMaxY)

/-- A place of the screen. -/
def Inside (last : Nat × Nat) (place : Int × Int) : Prop :=
  0 ≤ place.1 ∧ place.1 ≤ last.1 ∧ 0 ≤ place.2 ∧ place.2 ≤ last.2

theorem Packet.move_inside {last : Nat × Nat} {place : Int × Int} (inside : Inside last place) (p : Packet) :
    Inside last (p.move last place) := by
  unfold Packet.move Inside at *
  split
  · dsimp only
    omega
  · exact inside

variable {s : MouseDriver} {held : List Byte}

theorem handle_third (cycle : s.ps2Cycle = 2) (dy : Byte) : mouseHandlePs2Byte s dy =
    if s.ps2Flags &&& 0xC0 = 0 then
      ({s with
        ps2X := clampTo s.cursorMaxX (int32 (s.ps2X + mouseScaleDelta (s.ps2Dx - signOf s.ps2Flags 4)))
        ps2Y := clampTo s.cursorMaxY (int32 (s.ps2Y - mouseScaleDelta (dy.toNat - signOf s.ps2Flags 3)))
        ps2Cycle := 0},[⟨word (s.ps2Dx - signOf s.ps2Flags 4),word (-(dy.toNat - signOf s.ps2Flags 3)),s.ps2Buttons,1⟩])
    else ({s with ps2Cycle := 0},[]) := by
  unfold mouseHandlePs2Byte
  rw [cycle]
  rfl

/-- The third byte completes the packet, and the driver moves by it. -/
theorem third_moves {flags dx : Byte} (holds : Holds s [flags,dx]) (small : s.cursorMaxX ≤ 2^30 ∧ s.cursorMaxY ≤ 2^30)
    (inside : Inside s.last s.place) (dy : Byte) :
    let p : Packet := ⟨flags,dx,dy⟩
    Holds (mouseHandlePs2Byte s dy).1 [] ∧ (mouseHandlePs2Byte s dy).1.last = s.last ∧
      (mouseHandlePs2Byte s dy).1.place = p.move s.last s.place ∧ (mouseHandlePs2Byte s dy).2 = p.event.toList := by
  intro p
  cases holds with
  | two _ _ cycle first starting buttons second =>
  have counted : p.counts = true ↔ s.ps2Flags &&& 0xC0 = 0 := by
    unfold Packet.counts
    rw [first,beq_iff_eq]
  rw [handle_third cycle]
  by_cases counts : s.ps2Flags &&& 0xC0 = 0
  · obtain ⟨right₁,right₂,up₁,up₂⟩ := p.small
    obtain ⟨x₁,x₂,y₁,y₂⟩ := inside
    dsimp only [MouseDriver.place,MouseDriver.last] at x₁ x₂ y₁ y₂
    have right : s.ps2Dx - signOf s.ps2Flags 4 = p.right := by rw [signOf_right,first,second,Packet.right]
    have up : (dy.toNat : Int) - signOf s.ps2Flags 3 = p.up := by rw [signOf_up,first,Packet.up]
    have doubled {d : Int} (low : -256 ≤ d) (high : d < 256) : mouseScaleDelta d = 2 * d := by
      unfold mouseScaleDelta mouseGain
      rw [int32_small (by omega) (by omega),Int.mul_comm]
    rw [if_pos counts,right,up,doubled right₁ right₂,doubled up₁ up₂]
    refine ⟨.none rfl,rfl,?_,?_⟩
    · unfold MouseDriver.place Packet.move MouseDriver.last
      rw [if_pos (counted.mpr counts)]
      dsimp only
      rw [int32_small (by omega) (by omega),int32_small (by omega) (by omega),clampTo_eq small.1,clampTo_eq small.2]
    · unfold Packet.event
      rw [if_pos (counted.mpr counts),buttons]
      rfl
  · rw [if_neg counts]
    refine ⟨.none rfl,rfl,?_,?_⟩
    · unfold Packet.move
      rw [if_neg (fun on => counts (counted.mp on))]
      rfl
    · unfold Packet.event
      rw [if_neg (fun on => counts (counted.mp on))]
      rfl

/-- The driver takes the packets out of the bytes as they come, one after the other. -/
theorem ps2_stream {s : MouseDriver} {held : List Byte} (holds : Holds s held) (small : s.cursorMaxX ≤ 2^30 ∧ s.cursorMaxY ≤ 2^30)
    (inside : Inside s.last s.place) (bytes : List Byte) :
    (∃ left, Holds (run mouseHandlePs2Byte.step s bytes) left) ∧ (run mouseHandlePs2Byte.step s bytes).last = s.last ∧
      (run mouseHandlePs2Byte.step s bytes).place = (packets (held ++ bytes)).foldl (Packet.move s.last) s.place ∧
      (answers mouseHandlePs2Byte s bytes).flatten = (packets (held ++ bytes)).flatMap fun p => p.event.toList := by
  induction bytes generalizing s held with
  | nil =>
    have none : packets (held ++ []) = [] := by cases holds <;> simp [packets]
    rw [none]
    exact ⟨⟨held,holds⟩,rfl,rfl,rfl⟩
  | cons b rest ih =>
    rw [run_cons,answers,List.flatten_cons]
    cases holds with
    | none cycle =>
      by_cases starting : starts b
      · have step : mouseHandlePs2Byte s b = ({s with ps2Flags := b,ps2Buttons := b &&& 0x07,ps2Cycle := 1},[]) := by
          unfold mouseHandlePs2Byte
          rw [cycle]
          exact if_pos starting
        rw [Machine.step,step]
        exact @ih _ [b] (.one b rfl rfl starting rfl) small inside
      · have step : mouseHandlePs2Byte s b = (s,[]) := by
          unfold mouseHandlePs2Byte
          rw [cycle]
          exact if_neg starting
        rw [Machine.step,step,List.nil_append,List.nil_append,packets_skip starting]
        exact @ih s [] (.none cycle) small inside
    | one flags cycle first starting buttons =>
      have step : mouseHandlePs2Byte s b = ({s with ps2Dx := b.toNat,ps2Cycle := 2},[]) := by
        unfold mouseHandlePs2Byte
        rw [cycle]
        rfl
      rw [Machine.step,step]
      exact @ih _ [flags,b] (.two flags b rfl first starting buttons rfl) small inside
    | two flags dx cycle first starting buttons second =>
      obtain ⟨clear,last,place,events⟩ := third_moves (.two flags dx cycle first starting buttons second) small inside b
      have whole : packets ([flags,dx] ++ b::rest) = ⟨flags,dx,b⟩::packets rest := by
        show packets (flags::dx::b::rest) = _
        rw [packets,if_pos starting]
      have same : (mouseHandlePs2Byte s b).1.cursorMaxX = s.cursorMaxX ∧ (mouseHandlePs2Byte s b).1.cursorMaxY = s.cursorMaxY :=
        ⟨congrArg Prod.fst last,congrArg Prod.snd last⟩
      have inside' : Inside (mouseHandlePs2Byte s b).1.last (mouseHandlePs2Byte s b).1.place := by
        rw [last,place]
        exact Packet.move_inside inside _
      obtain ⟨left,kept,moved,pushed⟩ := ih clear (same.1 ▸ same.2 ▸ small) inside'
      rw [whole,List.foldl_cons,List.flatMap_cons,events,Machine.step,pushed,kept,moved,last,place]
      exact ⟨left,rfl,rfl,rfl⟩

end Stream

section Runs

/-- What happens to the driver. A poll can come between the begin and the end of a retry. -/
inductive MouseCall
  | byte (data : Byte)
  | poll (poll : UsbPoll)
  | usbInit (found : Bool)
  | retryBegin
  | serviceBegin
  | retryEnd (found : Bool)
  | setBounds (maxX maxY : Nat)

def mouseStep (s : MouseDriver) : MouseCall → MouseDriver
  | .byte data => (mouseHandlePs2Byte s data).1
  | .poll poll => (mousePoll s poll).1
  | .usbInit found => mouseUsbInit s found
  | .retryBegin => usbRetryBegin s
  | .serviceBegin => retryServiceBegin s
  | .retryEnd found => usbRetryEnd s found
  | .setBounds maxX maxY => mouseSetBounds s maxX maxY

/-- The size of a screen is a positive `int32_t`. -/
def MouseCall.Fits : MouseCall → Prop
  | .setBounds maxX maxY => maxX ≤ 2^31 ∧ maxY ≤ 2^31
  | _ => True

def MouseDriver.usbPlace (s : MouseDriver) : Int × Int := (s.usbX,s.usbY)

/-- Both mice are on the screen, and the USB mouse is tried again at most three times by itself. -/
structure Steady (s : MouseDriver) : Prop where
  fits : s.cursorMaxX < 2^31 ∧ s.cursorMaxY < 2^31
  ps2 : Inside s.last s.place
  usb : Inside s.last s.usbPlace
  frames : s.usbRetryFrames < 500
  tries : s.usbRetryCount ≤ 3
  active : s.usbInitialized = true → s.usbStatus = 1
  idle : s.usbInitialized = false → s.usbHasReport = false

variable {s : MouseDriver}

theorem clampTo_inside {last : Nat} (fits : last < 2^31) (x : Int) : 0 ≤ clampTo last x ∧ clampTo last x ≤ last := by
  unfold clampTo
  rw [int32_small (by omega) (by omega)]
  dsimp only
  split <;> split <;> omega

theorem bootMouse_steady : Steady bootMouse where
  fits := by decide
  ps2 := by unfold Inside; decide
  usb := by unfold Inside; decide
  frames := by decide
  tries := by decide
  active on := by cases on
  idle _ := rfl

theorem Steady.byte (steady : Steady s) (data : Byte) : Steady (mouseHandlePs2Byte s data).1 := by
  have kept {flags buttons : Byte} {cycle : Nat} {dx : Int} :
      Steady {s with ps2Flags := flags,ps2Buttons := buttons,ps2Cycle := cycle,ps2Dx := dx} := ⟨steady.fits,steady.ps2,steady.usb,
        steady.frames,steady.tries,steady.active,steady.idle⟩
  unfold mouseHandlePs2Byte
  split
  · split
    · exact kept
    · exact steady
  · exact kept
  · split
    · obtain ⟨x₁,x₂⟩ := clampTo_inside steady.fits.1
        (int32 (s.ps2X + mouseScaleDelta (s.ps2Dx - signOf s.ps2Flags 4)))
      obtain ⟨y₁,y₂⟩ := clampTo_inside steady.fits.2
        (int32 (s.ps2Y - mouseScaleDelta (data.toNat - signOf s.ps2Flags 3)))
      exact ⟨steady.fits,⟨x₁,x₂,y₁,y₂⟩,steady.usb,steady.frames,steady.tries,steady.active,steady.idle⟩
    · exact kept
  · exact kept

theorem Steady.usbInit (steady : Steady s) (found : Bool) : Steady (mouseUsbInit s found) := by
  unfold mouseUsbInit
  split
  · exact steady
  next off =>
    have idle : s.usbInitialized = false := by simpa using off
    split
    · exact ⟨steady.fits,steady.ps2,steady.usb,steady.frames,Nat.zero_le 3,fun _ => rfl,fun on => by cases on⟩
    · refine ⟨steady.fits,steady.ps2,steady.usb,steady.frames,steady.tries,fun on => ?_,steady.idle⟩
      exact absurd (idle.symm.trans on) (by decide)

theorem Steady.pollUsb (steady : Steady s) (poll : UsbPoll) : Steady (pollUsb s poll).1 := by
  have counted {status frames count : Nat} {pending : Bool} (off : s.usbInitialized = false) (few : frames < 500) (most : count ≤ 3) :
      Steady {s with usbStatus := status,usbRetryFrames := frames,usbRetryCount := count,usbRetryPending := pending} :=
    ⟨steady.fits,steady.ps2,steady.usb,few,most,fun on => absurd (off.symm.trans on) (by decide),steady.idle⟩
  unfold LionOS.Keys.pollUsb
  generalize (if s.usbRetryServiceBusy = true then 0 else poll.result) = result
  dsimp only
  split
  next on =>
    split
    · exact ⟨steady.fits,steady.ps2,steady.usb,by show 0 < 500; decide,steady.tries,fun on => (by cases on),fun _ => rfl⟩
    · split
      · obtain ⟨x₁,x₂⟩ := clampTo_inside steady.fits.1 (int32 (s.usbX + mouseScaleDelta poll.dx))
        obtain ⟨y₁,y₂⟩ := clampTo_inside steady.fits.2 (int32 (s.usbY + mouseScaleDelta poll.dy))
        refine ⟨steady.fits,steady.ps2,⟨x₁,x₂,y₁,y₂⟩,steady.frames,steady.tries,steady.active,fun off => ?_⟩
        exact absurd (on.symm.trans off) (by decide)
      · exact steady
  next off =>
    have off : s.usbInitialized = false := by simpa using off
    have frames := steady.frames
    split
    · split
      · split
        · exact counted off (by decide) (by omega)
        · exact counted off (by omega) steady.tries
      · exact counted off frames steady.tries
    · exact counted off frames steady.tries

theorem Steady.poll (steady : Steady s) (poll : UsbPoll) : Steady (mousePoll s poll).1 := by
  have after := steady.pollUsb poll
  exact ⟨after.fits,after.ps2,after.usb,after.frames,after.tries,after.active,after.idle⟩

theorem Steady.setBounds (steady : Steady s) {maxX maxY : Nat} (fits : maxX ≤ 2^31 ∧ maxY ≤ 2^31) : Steady (mouseSetBounds s maxX maxY) := by
  have cut {n : Nat} (small : n ≤ 2^31) {x : Int} (positive : 0 ≤ x) :
      let last := if n > 0 then n - 1 else 0
      last < 2^31 ∧ 0 ≤ (if x > int32 last then int32 last else x) ∧ (if x > int32 last then int32 last else x) ≤ last := by
    intro last
    have below : last < 2^31 := by
      show (if n > 0 then n - 1 else 0) < 2^31
      split <;> omega
    rw [int32_small (by omega) (by omega)]
    refine ⟨below,?_⟩
    split <;> omega
  obtain ⟨px,_,py,_⟩ := steady.ps2
  obtain ⟨ux,_,uy,_⟩ := steady.usb
  refine ⟨⟨(cut fits.1 px).1,(cut fits.2 py).1⟩,?_,?_,steady.frames,steady.tries,steady.active,steady.idle⟩
  · exact ⟨(cut fits.1 px).2.1,(cut fits.1 px).2.2,(cut fits.2 py).2.1,(cut fits.2 py).2.2⟩
  · exact ⟨(cut fits.1 ux).2.1,(cut fits.1 ux).2.2,(cut fits.2 uy).2.1,(cut fits.2 uy).2.2⟩

theorem Steady.step (steady : Steady s) {call : MouseCall} (fits : call.Fits) : Steady (mouseStep s call) := by
  cases call with
  | byte data => exact steady.byte data
  | poll poll => exact steady.poll poll
  | usbInit found => exact steady.usbInit found
  | retryBegin =>
    exact ⟨steady.fits,steady.ps2,steady.usb,by show 0 < 500; decide,Nat.zero_le 3,fun on => (by cases on),fun _ => rfl⟩
  | serviceBegin =>
    show Steady (retryServiceBegin s)
    unfold retryServiceBegin
    split
    · exact steady
    · exact ⟨steady.fits,steady.ps2,steady.usb,steady.frames,steady.tries,steady.active,steady.idle⟩
  | retryEnd found =>
    have after := steady.usbInit found
    exact ⟨after.fits,after.ps2,after.usb,after.frames,after.tries,after.active,after.idle⟩
  | setBounds maxX maxY => exact steady.setBounds fits

theorem smoothStep_eq (current target : Int) : smoothStep current target = target := by
  unfold smoothStep
  split <;> omega

/-- While a retry is in service the poll leaves the USB mouse alone. -/
theorem pollUsb_busy (busy : s.usbRetryServiceBusy = true) (poll : UsbPoll) :
    (pollUsb s poll).2 = [] ∧ (pollUsb s poll).1.usbPlace = s.usbPlace ∧ (pollUsb s poll).1.usbInitialized = s.usbInitialized := by
  unfold pollUsb
  rw [busy]
  dsimp only
  split
  · rw [if_pos rfl,if_neg (by decide),if_neg (by decide)]
    exact ⟨rfl,rfl,rfl⟩
  · split
    · rw [if_neg (by simp)]
      exact ⟨rfl,rfl,rfl⟩
    · exact ⟨rfl,rfl,rfl⟩

end Runs

end LionOS.Keys

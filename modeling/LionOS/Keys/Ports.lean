import LionOS.Keys.Driver
import LionOS.Keys.Mouse

/-! The output buffer of the i8042 controller, which the keyboard and the mouse share, and the loops that read it. -/
namespace LionOS.Keys
open LionOS.Library
open LionOS.Physical (Byte)

/-- A byte in the output buffer, with the status that the controller shows for it. -/
structure Sample where
  status : Byte
  data : Byte
  full : status &&& 0x01 ≠ 0

def Sample.aux (b : Sample) : Bool := b.status &&& 0x20 != 0

/-- `PS2_STATUS_TIMEOUT | PS2_STATUS_PARITY` -/
def Sample.bad (b : Sample) : Bool := b.status &&& (0x40 ||| 0x80) != 0

/-- What is done with a byte. -/
inductive Route
  | keyboard
  | mouse
  | answer
  | drop
  deriving DecidableEq

/-- `pending` is in the output buffer or waits for it. -/
structure Ports where
  controllerPresent : Bool
  pending : List Sample
  keyboard : Driver
  mouse : MouseDriver

/-- What came to the controller while a loop ran, and what the loop took from it. -/
structure Reading where
  came : List Sample
  taken : List (Sample × Route)

def Ports.pass (s : Ports) (b : Sample) : Route → Ports
  | .keyboard => {s with keyboard := (keyboardHandleScancode s.keyboard b.data).1}
  | .mouse => {s with mouse := (mouseHandlePs2Byte s.mouse b.data).1}
  | .answer => s
  | .drop => s

/-- A loop that reads the status and, if the buffer is full, the data. It ends with an answer, and with
an empty buffer unless it waits. -/
def readPort (route : Sample → Route) (waits : Bool) : Nat → (Nat → List Sample) → Ports → Ports × Reading
  | 0,_,s => (s,⟨[],[]⟩)
  | polls+1,arriving,s =>
    let came := arriving polls
    match s.pending ++ came with
    | [] =>
      if waits then
        let (s,reading) := readPort route waits polls arriving s
        (s,⟨came ++ reading.came,reading.taken⟩)
      else (s,⟨came,[]⟩)
    | b::rest =>
      let s := {s with pending := rest}.pass b (route b)
      if route b = .answer then (s,⟨came,[(b,.answer)]⟩)
      else
        let (s,reading) := readPort route waits polls arriving s
        (s,⟨came ++ reading.came,(b,route b)::reading.taken⟩)

def serviceRoute (b : Sample) : Route := if b.bad then .drop else if b.aux then .mouse else .keyboard
def controllerRoute (b : Sample) : Route := if b.aux then .mouse else .answer
def auxRoute (b : Sample) : Route := if b.aux then .answer else .keyboard

/-- The acknowledgement of a command or the request to send it again. -/
def commandRoute (b : Sample) : Route :=
  if b.aux then .drop else if b.data = 0xFA then .answer else if b.data = 0xFE then .answer else .drop

/-- The end of the self test, good or bad. -/
def resetRoute (b : Sample) : Route :=
  if b.aux then .drop else if b.data = 0xFA then .drop else if b.data = 0xAA then .answer
  else if b.data = 0xFC ∨ b.data = 0xFD then .answer else .drop

def keyboardPs2Service (arriving : Nat → List Sample) (s : Ports) : Ports × Reading :=
  if s.controllerPresent then readPort serviceRoute false 64 arriving s else (s,⟨[],[]⟩)
def ps2ReadControllerByte : (Nat → List Sample) → Ports → Ports × Reading := readPort controllerRoute true 200000
def ps2ReadAuxByte : (Nat → List Sample) → Ports → Ports × Reading := readPort auxRoute true 200000
def keyboardDeviceCommandOnce : (Nat → List Sample) → Ports → Ports × Reading := readPort commandRoute true 200000
def keyboardResetDevice : (Nat → List Sample) → Ports → Ports × Reading := readPort resetRoute true 300000
def keyboardFlushOutput : (Nat → List Sample) → Ports → Ports × Reading := readPort (fun _ => .drop) false 64

/-- The loops, each with what comes before each of its polls, and what comes between them. -/
inductive PortCall
  | arrive (samples : List Sample)
  | service (arriving : Nat → List Sample)
  | controllerByte (arriving : Nat → List Sample)
  | auxByte (arriving : Nat → List Sample)
  | command (arriving : Nat → List Sample)
  | reset (arriving : Nat → List Sample)
  | flush (arriving : Nat → List Sample)

def portCall : Machine Ports PortCall Reading := fun s call =>
  match call with
  | .arrive samples => ({s with pending := s.pending ++ samples},⟨samples,[]⟩)
  | .service arriving => keyboardPs2Service arriving s
  | .controllerByte arriving => ps2ReadControllerByte arriving s
  | .auxByte arriving => ps2ReadAuxByte arriving s
  | .command arriving => keyboardDeviceCommandOnce arriving s
  | .reset arriving => keyboardResetDevice arriving s
  | .flush arriving => keyboardFlushOutput arriving s

section Apart

/-- The bytes that go one way. -/
def bytesTo (route : Route) (taken : List (Sample × Route)) : List Byte :=
  taken.filterMap fun entry => if entry.2 = route then some entry.1.data else none

/-- Scancodes come from the keyboard and packets from the mouse. -/
def Route.Fits (b : Sample) : Route → Prop
  | .keyboard => b.aux = false
  | .mouse => b.aux = true
  | _ => True

/-- What is taken from the buffer is what was first in it, and each driver has handled its bytes in their order. -/
structure Served (s s' : Ports) (reading : Reading) : Prop where
  order : s.pending ++ reading.came = reading.taken.map Prod.fst ++ s'.pending
  keyboard : s'.keyboard = run (Machine.step keyboardHandleScancode) s.keyboard (bytesTo .keyboard reading.taken)
  mouse : s'.mouse = run mouseHandlePs2Byte.step s.mouse (bytesTo .mouse reading.taken)

def Reading.append (first second : Reading) : Reading := ⟨first.came ++ second.came,first.taken ++ second.taken⟩

variable {s s' s'' : Ports} {first second : Reading}

theorem bytesTo_append (route : Route) (one two : List (Sample × Route)) : bytesTo route (one ++ two) = bytesTo route one ++ bytesTo route two :=
  List.filterMap_append

theorem Served.none (s : Ports) : Served s s ⟨[],[]⟩ := ⟨List.append_nil _,rfl,rfl⟩

theorem Served.trans (one : Served s s' first) (two : Served s' s'' second) : Served s s'' (first.append second) := by
  constructor
  · calc s.pending ++ (first.came ++ second.came)
        = first.taken.map Prod.fst ++ (s'.pending ++ second.came) := by rw [← List.append_assoc,one.order,List.append_assoc]
      _ = (first.taken ++ second.taken).map Prod.fst ++ s''.pending := by rw [two.order,List.map_append,List.append_assoc]
  · rw [Reading.append,bytesTo_append,run_append,← one.keyboard]
    exact two.keyboard
  · rw [Reading.append,bytesTo_append,run_append,← one.mouse]
    exact two.mouse

theorem served_came (s : Ports) (came : List Sample) : Served s {s with pending := s.pending ++ came} ⟨came,[]⟩ := ⟨rfl,rfl,rfl⟩

/-- The first byte goes its way. -/
theorem served_pass {b : Sample} {rest : List Sample} (next : s.pending = b::rest) (route : Route) :
    Served s ({s with pending := rest}.pass b route) ⟨[],[(b,route)]⟩ := by
  have order : s.pending ++ [] = [b] ++ rest := by
    rw [next,List.append_nil]
    rfl
  cases route with
  | keyboard => exact ⟨order,rfl,rfl⟩
  | mouse => exact ⟨order,rfl,rfl⟩
  | answer => exact ⟨order,rfl,rfl⟩
  | drop => exact ⟨order,rfl,rfl⟩

theorem readPort_serves (route : Sample → Route) (waits : Bool) (polls : Nat) (arriving : Nat → List Sample) (s : Ports) :
    Served s (readPort route waits polls arriving s).1 (readPort route waits polls arriving s).2 ∧
      ∀ entry ∈ (readPort route waits polls arriving s).2.taken, entry.2 = route entry.1 := by
  induction polls generalizing s with
  | zero => exact ⟨.none s,fun entry member => absurd member List.not_mem_nil⟩
  | succ polls ih =>
    have came := served_came s (arriving polls)
    unfold readPort
    dsimp only
    split
    next empty =>
      obtain ⟨before,nothing⟩ := List.append_eq_nil_iff.mp empty
      split
      · obtain ⟨later,routed⟩ := ih s
        rw [nothing]
        exact ⟨later,routed⟩
      · rw [nothing]
        exact ⟨.none s,fun entry member => absurd member List.not_mem_nil⟩
    next b rest next =>
      have here := came.trans (served_pass next (route b))
      split
      next answer =>
        rw [answer] at here ⊢
        rw [← List.append_nil (arriving polls)]
        refine ⟨here,fun entry member => ?_⟩
        rw [List.mem_singleton.mp member]
        exact answer.symm
      next =>
        obtain ⟨later,routed⟩ := ih ({s with pending := rest}.pass b (route b))
        have both := here.trans later
        refine ⟨?_,fun entry member => ?_⟩
        · rw [Reading.append,Reading.append,List.append_nil] at both
          exact both
        · rcases List.mem_cons.mp member with rfl | deeper
          · rfl
          · exact routed entry deeper

/-- Loops that throw no byte away but a bad one. -/
def PortCall.Keeps : PortCall → Prop
  | .arrive _ => True
  | .service _ => True
  | .controllerByte _ => True
  | .auxByte _ => True
  | _ => False

theorem serviceRoute_fits (b : Sample) : (serviceRoute b).Fits b ∧ (serviceRoute b = .drop → b.bad = true) := by
  unfold serviceRoute
  split
  next bad => exact ⟨trivial,fun _ => bad⟩
  next =>
    split
    next aux => exact ⟨aux,fun dropped => by cases dropped⟩
    next key => exact ⟨eq_false_of_ne_true key,fun dropped => by cases dropped⟩

theorem controllerRoute_fits (b : Sample) : (controllerRoute b).Fits b ∧ controllerRoute b ≠ .drop := by
  unfold controllerRoute
  split
  next aux => exact ⟨aux,fun dropped => by cases dropped⟩
  next => exact ⟨trivial,fun dropped => by cases dropped⟩

theorem auxRoute_fits (b : Sample) : (auxRoute b).Fits b ∧ auxRoute b ≠ .drop := by
  unfold auxRoute
  split
  next => exact ⟨trivial,fun dropped => by cases dropped⟩
  next key => exact ⟨eq_false_of_ne_true key,fun dropped => by cases dropped⟩

theorem commandRoute_fits (b : Sample) : (commandRoute b).Fits b := by
  unfold commandRoute
  split_ifs <;> trivial

theorem resetRoute_fits (b : Sample) : (resetRoute b).Fits b := by
  unfold resetRoute
  split_ifs <;> trivial

/-- A loop whose routes fit serves each driver its own bytes; one that drops bad bytes only loses no other. -/
theorem readPort_fits {route : Sample → Route} (fits : ∀ b, (route b).Fits b) (waits : Bool) (polls : Nat)
    (arriving : Nat → List Sample) (s : Ports) :
    let result := readPort route waits polls arriving s
    Served s result.1 result.2 ∧ (∀ entry ∈ result.2.taken, entry.2.Fits entry.1) ∧
      ((∀ b, route b = .drop → b.bad = true) → ∀ entry ∈ result.2.taken, entry.2 = .drop → entry.1.bad = true) := by
  obtain ⟨serves,routed⟩ := readPort_serves route waits polls arriving s
  refine ⟨serves,fun entry member => ?_,fun bad entry member dropped => ?_⟩
  · rw [routed entry member]
    exact fits entry.1
  · exact bad entry.1 ((routed entry member).symm.trans dropped)

/-- Each loop serves the buffer, by its own routes. -/
theorem portCall_serves (s : Ports) (call : PortCall) :
    Served s (portCall.step s call) (portCall s call).2 ∧ (∀ entry ∈ (portCall s call).2.taken, entry.2.Fits entry.1) ∧
      (call.Keeps → ∀ entry ∈ (portCall s call).2.taken, entry.2 = .drop → entry.1.bad = true) := by
  cases call with
  | arrive samples =>
    exact ⟨served_came s samples,fun entry member => absurd member List.not_mem_nil,fun _ entry member => absurd member List.not_mem_nil⟩
  | service arriving =>
    unfold Machine.step portCall keyboardPs2Service
    dsimp only
    split
    · obtain ⟨serves,fits,kept⟩ := readPort_fits (fun b => (serviceRoute_fits b).1) false 64 arriving s
      exact ⟨serves,fits,fun _ => kept fun b => (serviceRoute_fits b).2⟩
    · exact ⟨.none s,fun entry member => absurd member List.not_mem_nil,fun _ entry member => absurd member List.not_mem_nil⟩
  | controllerByte arriving =>
    obtain ⟨serves,fits,kept⟩ := readPort_fits (fun b => (controllerRoute_fits b).1) true 200000 arriving s
    exact ⟨serves,fits,fun _ => kept fun b dropped => absurd dropped (controllerRoute_fits b).2⟩
  | auxByte arriving =>
    obtain ⟨serves,fits,kept⟩ := readPort_fits (fun b => (auxRoute_fits b).1) true 200000 arriving s
    exact ⟨serves,fits,fun _ => kept fun b dropped => absurd dropped (auxRoute_fits b).2⟩
  | command arriving =>
    obtain ⟨serves,fits,_⟩ := readPort_fits commandRoute_fits true 200000 arriving s
    exact ⟨serves,fits,fun keeps => keeps.elim⟩
  | reset arriving =>
    obtain ⟨serves,fits,_⟩ := readPort_fits resetRoute_fits true 300000 arriving s
    exact ⟨serves,fits,fun keeps => keeps.elim⟩
  | flush arriving =>
    obtain ⟨serves,fits,_⟩ := @readPort_fits (fun _ => .drop) (fun _ => trivial) false 64 arriving s
    exact ⟨serves,fits,fun keeps => keeps.elim⟩

def total : List Reading → Reading
  | [] => ⟨[],[]⟩
  | reading::rest => reading.append (total rest)

theorem portCalls_serve (s : Ports) (calls : List PortCall) :
    let all := total (answers portCall s calls)
    Served s (run portCall.step s calls) all ∧ (∀ entry ∈ all.taken, entry.2.Fits entry.1) ∧
      ((∀ call ∈ calls, call.Keeps) → ∀ entry ∈ all.taken, entry.2 = .drop → entry.1.bad = true) := by
  induction calls generalizing s with
  | nil => exact ⟨.none s,fun entry member => absurd member List.not_mem_nil,fun _ entry member => absurd member List.not_mem_nil⟩
  | cons call rest ih =>
    obtain ⟨here,fits,kept⟩ := portCall_serves s call
    obtain ⟨later,fits',kept'⟩ := ih (portCall.step s call)
    rw [run_cons,answers,total]
    refine ⟨here.trans later,fun entry member => ?_,fun keeps entry member => ?_⟩
    · rcases List.mem_append.mp member with first | second
      · exact fits entry first
      · exact fits' entry second
    · obtain ⟨now,then'⟩ := List.forall_mem_cons.mp keeps
      rcases List.mem_append.mp member with first | second
      · exact kept now entry first
      · exact kept' then' entry second

/-- Whatever loops run and whatever comes while they do: the bytes are taken in the order in which they came,
those of the keyboard never reach the mouse nor the other way, and the mouse has moved by the packets
in its bytes, however those are mixed with the scancodes. -/
theorem ports_keep_apart (present : Bool) (keyboard : Driver) (calls : List PortCall) :
    let start : Ports := ⟨present,[],keyboard,bootMouse⟩
    let s := run portCall.step start calls
    let all := total (answers portCall start calls)
    let mouse := bytesTo .mouse all.taken
    all.came = all.taken.map Prod.fst ++ s.pending ∧
      s.keyboard = run (Machine.step keyboardHandleScancode) keyboard (bytesTo .keyboard all.taken) ∧
      s.mouse.place = (packets mouse).foldl (Packet.move (1023,767)) (400,300) ∧
      (answers mouseHandlePs2Byte bootMouse mouse).flatten = (packets mouse).flatMap (fun p => p.event.toList) ∧
      (∀ entry ∈ all.taken, entry.2.Fits entry.1) ∧
      ((∀ call ∈ calls, call.Keeps) → ∀ entry ∈ all.taken, entry.2 = .drop → entry.1.bad = true) := by
  intro start s all mouse
  obtain ⟨served,fits,kept⟩ := portCalls_serve start calls
  have inside : Inside bootMouse.last bootMouse.place := bootMouse_steady.ps2
  obtain ⟨_,_,moved,pushed⟩ := ps2_stream (.none rfl : Holds bootMouse []) (by decide) inside mouse
  refine ⟨served.order,served.keyboard,?_,pushed,fits,kept⟩
  rw [show s.mouse = _ from served.mouse]
  exact moved

end Apart

end LionOS.Keys

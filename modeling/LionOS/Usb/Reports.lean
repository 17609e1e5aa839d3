import LionOS.Library.Run
import LionOS.Usb.Rings

/-! The interrupt transfer rings of the USB mouse and the USB keyboard. -/
namespace LionOS.Usb
open LionOS.Library

def intrSegments : Nat := 4
def pageSize : Nat := 4096
def trbNormal : BitVec 32 := 1
def trbIsp : BitVec 32 := 4
def trbIoc : BitVec 32 := 0x20

/-- A HID device: the segments of its ring, its report buffer, its endpoint and the packet
size of the endpoint. -/
structure Device where
  segments : Nat → Nat
  buffer : Nat
  endpointId : Nat
  packet : Nat

inductive Endpoint
  | running
  | halted
  | stopped
  deriving DecidableEq

/-- What ringing the doorbell does to an endpoint. -/
def Endpoint.ring : Endpoint → Endpoint
  | .stopped => .running
  | e => e

/-- The ring of a device on both sides. `events` are the transfer events that the driver has
not seen, each with whether it reports success or a short packet. -/
structure Line where
  trbs : Trbs
  producer : Producer
  length : Nat
  pending : Bool
  consumer : Consumer
  endpoint : Endpoint
  events : List Bool
  submitted : List Trb
  executed : List Trb

/-- The loop of `setup_rings` over the segments of a ring. -/
def setupSegments (bases : Nat → Nat) (m : Trbs) : Trbs :=
  (List.range intrSegments).foldl (fun m i => linkTrb m (bases i) (bases ((i + 1) % intrSegments)) (i == intrSegments - 1)) m

def setupLine (d : Device) : Line :=
  ⟨setupSegments d.segments fun _ => noTrb,⟨0,0,true⟩,0,false,⟨d.segments 0,true⟩,.running,[],[],[]⟩

def reportLength (least packet : Nat) : Nat :=
  let length := if packet < least then least else packet
  if length > pageSize then pageSize else length

def reportControl : BitVec 32 := (trbNormal <<< 10) ||| trbIoc ||| trbIsp

def reportTrb (d : Device) (length : Nat) : Trb :=
  ⟨low d.buffer,high d.buffer,BitVec.ofNat 32 length &&& 0x1FFFF,reportControl⟩

/-- What `submit_report` and `submit_keyboard_report` do once they have decided to submit. -/
def Line.arm (d : Device) (l : Line) : Line :=
  let t := reportTrb d l.length
  let (trbs,producer) := enqueue d.segments intrSegments l.trbs l.producer t
  {l with
    trbs,producer,pending := true
    endpoint := l.endpoint.ring
    submitted := l.submitted ++ [t.marked l.producer.cycle]}

def submitReport (d : Device) (l : Line) : Int × Line :=
  if d.endpointId = 0 then (-1,l)
  else
    let l := {l with length := reportLength 3 d.packet}
    if l.pending then (0,l) else (0,l.arm d)

def submitKeyboardReport (d : Device) (ready : Bool) (l : Line) : Int × Line :=
  if !ready ∨ d.endpointId = 0 ∨ l.pending then (0,l)
  else (0,{l with length := reportLength 8 d.packet}.arm d)

/-- How the execution of a TRB ends. -/
inductive Finish
  | success
  | failure
  | halt
  deriving DecidableEq

/-- A step of the controller on a running endpoint. -/
def Line.execute (l : Line) (finish : Finish) : Line :=
  if l.endpoint ≠ .running then l
  else match l.consumer.fetch l.trbs with
    | none => l
    | some (consumer,none) => {l with consumer}
    | some (consumer,some t) => {l with
        consumer
        endpoint := if finish = .halt then .halted else .running
        events := l.events ++ [finish == .success]
        executed := l.executed ++ [t]}

/-- What becomes of a command: the driver sees that it was carried out, it is carried out
but the wait for it fails, or it is not carried out. -/
inductive Answer
  | success
  | lost
  | refused
  deriving DecidableEq

def Line.clear (l : Line) : Line := {l with pending := false}

/-- The wait for a command takes all events from the event ring. -/
def Line.awaited (l : Line) : Line := {l with events := []}

/-- `cmd_reset_endpoint`, which the controller carries out on halted endpoints only. -/
def cmdResetEndpoint (l : Line) (answer : Answer) : Bool × Line :=
  if l.endpoint = .halted ∧ answer ≠ .refused then (answer == .success,{l.awaited with endpoint := .stopped})
  else (false,l.awaited)

/-- `cmd_set_endpoint_deq`, which the controller carries out on stopped endpoints only. -/
def cmdSetEndpointDeq (l : Line) (dequeue : Nat) (answer : Answer) : Bool × Line :=
  if l.endpoint = .stopped ∧ answer ≠ .refused then
    (answer == .success,{l.awaited with consumer := ⟨dequeue / trbSize * trbSize,dequeue % 2 == 1⟩})
  else (false,l.awaited)

/-- The loop of `restart_hid_transfer_ring` over the segments. -/
def restartSegments (bases : Nat → Nat) (m : Trbs) : Trbs :=
  (List.range intrSegments).foldl (fun m i =>
    linkTrb (zeroPage m (bases i)) (bases i) (bases ((i + 1) % intrSegments)) (i == intrSegments - 1)) m

def Line.restarted (d : Device) (l : Line) : Line :=
  {l with trbs := restartSegments d.segments l.trbs,producer := ⟨0,0,true⟩,pending := false}

/-- `restart_hid_transfer_ring` with what becomes of its two commands. -/
def restartHidTransferRing (d : Device) (ready : Bool) (l : Line) (reset dequeue : Answer) : Int × Line :=
  if !ready ∨ d.endpointId = 0 then (-1,l)
  else
    let (ok,l) := cmdResetEndpoint l reset
    if !ok then (-1,l)
    else
      let (ok,l) := cmdSetEndpointDeq (l.restarted d) (d.segments 0 ||| 1) dequeue
      if !ok then (-1,l) else submitReport d l

/-- The mouse. `polling` says that `xhci_mouse_poll` has passed its checks and not returned. -/
structure Mouse where
  line : Line
  ready : Bool
  polling : Bool

inductive MouseAct
  | execute (finish : Finish)
  | await
  | poll (healthy : Bool)
  | event
  | finish
  | recover (healthy : Bool) (reset dequeue : Answer)

def hidEndpointNeedsRecovery (d : Device) (m : Mouse) : Bool :=
  m.ready && d.endpointId != 0 && m.line.endpoint != .running

/-- The next turn of the loop of `xhci_mouse_poll` on an event of the mouse. -/
def Mouse.event (d : Device) (m : Mouse) : Mouse :=
  match m.line.events with
  | [] => m
  | ok::events =>
    let line := {m.line with events}
    if !m.ready then {m with line}
    else if ok then
      let (result,line) := submitReport d line.clear
      {m with line,polling := result == 0}
    else {m with line := line.clear,polling := false}

/-- The end of `xhci_mouse_poll`. -/
def Mouse.finish (d : Device) (m : Mouse) : Mouse :=
  if m.ready ∧ !m.line.pending then {m with line := (submitReport d m.line).2,polling := false}
  else {m with polling := false}

def xhciMouseRecover (d : Device) (m : Mouse) (healthy : Bool) (reset dequeue : Answer) : Int × Mouse :=
  if !m.ready ∨ d.endpointId = 0 then (-1,m)
  else if !healthy then (-1,{m with ready := false,line := m.line.clear})
  else
    let (result,line) := restartHidTransferRing d m.ready m.line.clear reset dequeue
    if result = 0 then (0,{m with line}) else (-1,{m with ready := false,line := line.clear})

def Mouse.step (d : Device) (m : Mouse) : MouseAct → Mouse
  | .execute finish => {m with line := m.line.execute finish}
  | .await => {m with line := m.line.awaited}
  | .poll healthy =>
    if m.ready ∧ (!healthy ∨ hidEndpointNeedsRecovery d m) then m else {m with polling := true}
  | .event => if m.polling then m.event d else m
  | .finish => if m.polling then m.finish d else m
  | .recover healthy reset dequeue =>
    if m.polling then m else (xhciMouseRecover d m healthy reset dequeue).2

/-- The keyboard. Its events are handled in `xhci_mouse_poll` too. -/
structure Keyboard where
  line : Line
  ready : Bool

inductive KeyboardAct
  | execute (finish : Finish)
  | await
  | event
  | finish

def Keyboard.event (d : Device) (k : Keyboard) : Keyboard :=
  match k.line.events with
  | [] => k
  | _::events =>
    let line := {k.line with events}
    if k.ready then {k with line := (submitKeyboardReport d k.ready line.clear).2} else {k with line}

def Keyboard.step (d : Device) (k : Keyboard) : KeyboardAct → Keyboard
  | .execute finish => {k with line := k.line.execute finish}
  | .await => {k with line := k.line.awaited}
  | .event => k.event d
  | .finish => if k.ready ∧ !k.line.pending then {k with line := (submitKeyboardReport d k.ready k.line).2} else k

def setupKeyboard (d : Device) (ready : Bool) : Keyboard := ⟨setupLine d,ready⟩

def setupMouse (d : Device) : Mouse := ⟨setupLine d,true,false⟩

theorem last_segment (i : Nat) : (i == intrSegments - 1) = (i + 1 == intrSegments) := by
  unfold intrSegments
  rw [Bool.eq_iff_iff,beq_iff_eq,beq_iff_eq]
  omega

theorem reportControl_bits : reportControl.getLsbD 0 = false ∧ (reportControl >>> 10) &&& 0x3F ≠ trbLink := by decide

theorem setupSegments_unused {bases : Nat → Nat} (placed : Placed bases intrSegments) :
    ∀ s, s < intrSegments → Unused bases intrSegments s (setupSegments bases fun _ => noTrb) := by
  refine each_segment (P := fun s m => ∀ i, i < ringTrbs - 1 → m (trbAt (bases s) i) = noTrb) ?_ ?_ ?_ ?_
  · intro m s inside blank
    rw [last_segment s]
    exact linkTrb_unused blank
  · intro m s j inside other apart unused
    exact unused.elsewhere fun i below => linkTrb_elsewhere placed inside other apart below m _ _
  · intro m s j inside other apart blank i below
    rw [linkTrb_elsewhere placed inside other apart (Nat.lt_trans below (by decide))]
    exact blank i below
  · exact fun _ _ _ _ => rfl

theorem restartSegments_unused {bases : Nat → Nat} (placed : Placed bases intrSegments) (m : Trbs) :
    ∀ s, s < intrSegments → Unused bases intrSegments s (restartSegments bases m) := by
  refine each_segment (P := fun _ _ => True) ?_ ?_ (fun _ _ _ _ _ _ _ => trivial) fun _ _ => trivial
  · intro m s inside _
    rw [last_segment s]
    exact linkTrb_unused fun i below => zeroPage_own m (Nat.lt_trans below (by decide))
  · intro m s j inside other apart unused
    refine unused.elsewhere fun i below => ?_
    rw [linkTrb_elsewhere placed inside other apart below,zeroPage_elsewhere placed inside other apart below]

/-- A line whose controller reads the ring that the driver fills. All TRBs of the rings
before it have been executed. -/
structure Line.Fed (d : Device) (l : Line) (past current done written : List Trb) (k : Nat) : Prop where
  submitted : l.submitted = past ++ current
  executed : l.executed = past ++ done
  feed : Feed d.segments intrSegments true l.trbs l.producer current written
  fresh : Fresh (intrSegments * ringTrbs) Trb.cycle true (fun q => l.trbs (place d.segments intrSegments q)) written.length
  follows : Follows d.segments intrSegments true current l.consumer done k

def Line.Joined (d : Device) (l : Line) : Prop := ∃ past current done written k, l.Fed d past current done written k

/-- All that was submitted has been executed and the driver has seen it. -/
structure Line.Even (l : Line) : Prop where
  executed : l.submitted.length = l.executed.length
  events : l.events = []

section Line
variable {d : Device} (placed : Placed d.segments intrSegments)
include placed

theorem setup_joined : (setupLine d).Joined d := by
  have unused := setupSegments_unused placed
  refine ⟨[],[],[],[],0,rfl,rfl,.start placed unused,?_,.start placed⟩
  exact fun q _ _ => unused_unowned placed unused q

/-- A ring that was made anew while nothing was left in the old one. -/
theorem restarted_joined {l : Line} (all : l.executed = l.submitted) (trbs : Trbs)
    (made : l.trbs = restartSegments d.segments trbs) (producer : l.producer = ⟨0,0,true⟩)
    (consumer : l.consumer = ⟨d.segments 0,true⟩) : l.Joined d := by
  have unused := restartSegments_unused placed trbs
  rw [← made] at unused
  refine ⟨l.submitted,[],[],[],0,(List.append_nil _).symm,?_,?_,?_,?_⟩
  · rw [all,List.append_nil]
  · rw [producer]
    exact .start placed unused
  · exact fun q _ _ => unused_unowned placed unused q
  · rw [consumer]
    exact .start placed

theorem Line.Joined.arm {l : Line} (joined : l.Joined d) (even : l.submitted.length = l.executed.length) :
    (l.arm d).Joined d := by
  obtain ⟨past,current,done,written,k,submitted,executed,feed,fresh,follows⟩ := joined
  have few : current.length + 1 < done.length + (ringTrbs - 1) := by
    rw [submitted,executed,List.length_append,List.length_append] at even
    unfold ringTrbs
    omega
  have plain : (reportTrb d l.length).cycle = false := reportControl_bits.1
  have normal : (reportTrb d l.length).kind ≠ trbLink := reportControl_bits.2
  obtain ⟨written',feed'⟩ := feed.enqueue placed plain normal (feed.ahead fresh placed.positive)
  have length : written'.length = places (current.length + 1) := by
    rw [feed'.length,List.length_append,List.length_singleton]
  refine ⟨past,current ++ [(reportTrb d l.length).marked l.producer.cycle],done,written',k,?_,executed,feed',?_,?_⟩
  · unfold Line.arm
    dsimp only
    rw [submitted,List.append_assoc]
  · intro q inside later
    rw [length] at later
    dsimp only [Line.arm]
    rw [feed.enqueue_elsewhere placed _ inside later]
    apply fresh q inside
    rw [feed.length]
    unfold places ringTrbs at *
    omega
  · exact follows.submit _ (follows.room placed.positive few)

theorem Line.Joined.execute {l : Line} (joined : l.Joined d) (finish : Finish) : (l.execute finish).Joined d := by
  unfold Line.execute
  split
  next => exact joined
  next =>
    obtain ⟨past,current,done,written,k,submitted,executed,feed,fresh,follows⟩ := joined
    split
    next => exact ⟨past,current,done,written,k,submitted,executed,feed,fresh,follows⟩
    next c fetched =>
      have after := (follows.fetch feed placed fetched).1
      rw [Option.toList_none,List.append_nil] at after
      exact ⟨past,current,done,written,k + 1,submitted,executed,feed,fresh,after⟩
    next c t fetched =>
      have after := (follows.fetch feed placed fetched).1
      refine ⟨past,current,done ++ [t],written,k + 1,submitted,?_,feed,fresh,after⟩
      dsimp only
      rw [executed,List.append_assoc]

omit placed in
theorem Line.Joined.same {l l' : Line} (joined : l.Joined d) (trbs : l'.trbs = l.trbs) (producer : l'.producer = l.producer)
    (consumer : l'.consumer = l.consumer) (submitted : l'.submitted = l.submitted)
    (executed : l'.executed = l.executed) : l'.Joined d := by
  obtain ⟨past,current,done,written,k,fed⟩ := joined
  refine ⟨past,current,done,written,k,?_,?_,?_,?_,?_⟩
  · exact submitted.trans fed.submitted
  · exact executed.trans fed.executed
  · rw [trbs,producer]
    exact fed.feed
  · rw [trbs]
    exact fed.fresh
  · rw [consumer]
    exact fed.follows

theorem Line.Joined.faultless {l : Line} (joined : l.Joined d) :
    Faultless d.segments intrSegments l.trbs l.consumer l.submitted l.executed := by
  obtain ⟨past,current,done,written,k,submitted,executed,feed,fresh,follows⟩ := joined
  rw [submitted,executed]
  exact (follows.faultless feed placed).after past

end Line

/-- The events that the driver has not seen belong to TRBs that were executed, and at most
one TRB has been neither executed nor noticed. -/
structure Line.Paced (l : Line) : Prop where
  order : l.executed = l.submitted.take l.executed.length
  credit : l.submitted.length + l.events.length ≤ l.executed.length + 1

theorem Line.Paced.all {l : Line} (paced : l.Paced) (same : l.submitted.length = l.executed.length) : l.executed = l.submitted := by
  rw [paced.order,← same,List.take_length]

theorem Line.Paced.bound {l : Line} (paced : l.Paced) : l.executed.length ≤ l.submitted.length := by
  have length := congrArg List.length paced.order
  rw [List.length_take] at length
  omega

theorem Line.Paced.arm {l : Line} (paced : l.Paced) (even : l.Even) (d : Device) : (l.arm d).Paced := by
  have all := paced.all even.executed
  refine ⟨?_,?_⟩
  · dsimp only [Line.arm]
    rw [List.take_append_of_le_length paced.bound]
    exact paced.order
  · dsimp only [Line.arm]
    rw [List.length_append,List.length_singleton,even.events,all]
    exact Nat.le_refl _

/-- What executing a TRB may change. -/
structure Executes (l l' : Line) (finish : Finish) : Prop where
  pending : l'.pending = l.pending
  submitted : l'.submitted = l.submitted
  change : l'.executed = l.executed ∧ l'.events = l.events ∧ l'.endpoint = l.endpoint ∨
    l.endpoint = .running ∧ (∃ t, l.submitted[l.executed.length]? = some t ∧ l'.executed = l.executed ++ [t]) ∧
      l'.events = l.events ++ [finish == .success] ∧ l'.endpoint = if finish = .halt then .halted else .running

theorem execute_changes {d : Device} (placed : Placed d.segments intrSegments) {l : Line} (finish : Finish)
    (joined : l.endpoint = .running → l.Joined d) : Executes l (l.execute finish) finish := by
  unfold Line.execute
  split
  next => exact ⟨rfl,rfl,.inl ⟨rfl,rfl,rfl⟩⟩
  next running =>
    have faultless := (joined (not_not.mp running)).faultless placed
    split
    next => exact ⟨rfl,rfl,.inl ⟨rfl,rfl,rfl⟩⟩
    next => exact ⟨rfl,rfl,.inl ⟨rfl,rfl,rfl⟩⟩
    next c t fetched =>
      exact ⟨rfl,rfl,.inr ⟨not_not.mp running,⟨t,faultless.genuine c t fetched,rfl⟩,rfl,rfl⟩⟩

theorem Line.Paced.execute {l l' : Line} {finish : Finish} (paced : l.Paced) (executes : Executes l l' finish) : l'.Paced := by
  obtain ⟨_,submitted,⟨executed,events,_⟩ | ⟨_,⟨t,next,executed⟩,events,_⟩⟩ := executes
  · refine ⟨?_,?_⟩
    · rw [submitted,executed]
      exact paced.order
    · rw [submitted,executed,events]
      exact paced.credit
  · have credit := paced.credit
    have inside := (List.getElem?_eq_some_iff.mp next).1
    refine ⟨?_,?_⟩
    · rw [submitted,executed,List.length_append,List.length_singleton,List.take_add_one,next,← paced.order]
      rfl
    · rw [submitted,executed,events,List.length_append,List.length_append,List.length_singleton,List.length_singleton]
      omega

/-- What holds of the mouse and its ring after every step. -/
structure Mouse.Held (d : Device) (m : Mouse) : Prop where
  joined : m.line.Joined d ∨ m.ready = false ∧ m.line.endpoint = .stopped
  paced : m.line.Paced
  rest : m.line.endpoint ≠ .running → m.line.submitted.length = m.line.executed.length ∧
    (m.line.events = [] ∨ m.line.events = [false])
  even : m.ready → m.line.pending = false → m.line.Even
  armed : m.ready → m.polling → d.endpointId ≠ 0 → m.line.endpoint ≠ .running → m.line.pending

theorem Line.Even.held {d : Device} {l : Line} (even : l.Even) (joined : l.Joined d) (paced : l.Paced)
    {ready polling : Bool} (armed : ready → polling → d.endpointId ≠ 0 → l.endpoint ≠ .running → l.pending) :
    Mouse.Held d ⟨l,ready,polling⟩ :=
  ⟨.inl joined,paced,fun _ => ⟨even.executed,.inl even.events⟩,fun _ _ => even,armed⟩

/-- A report is submitted when nothing is left of the ones before. -/
theorem Line.Even.submit {d : Device} (placed : Placed d.segments intrSegments) {l : Line} (even : l.Even)
    (joined : l.Joined d) (paced : l.Paced) (clear : l.pending = false)
    (free : d.endpointId ≠ 0 → l.endpoint ≠ .halted) (ready polling : Bool) :
    Mouse.Held d ⟨(submitReport d l).2,ready,polling⟩ := by
  unfold submitReport
  split
  next none => exact even.held joined paced fun _ _ id => absurd none id
  next id =>
    dsimp only
    rw [if_neg (by rw [clear]; exact Bool.false_ne_true)]
    have same : ({l with length := reportLength 3 d.packet} : Line).Joined d := joined.same rfl rfl rfl rfl rfl
    have running : l.endpoint.ring = .running := by
      cases shape : l.endpoint with
      | running => rfl
      | halted => exact absurd shape (free id)
      | stopped => rfl
    refine ⟨.inl (same.arm placed even.executed),?_,?_,?_,?_⟩
    · have paced' : ({l with length := reportLength 3 d.packet} : Line).Paced := ⟨paced.order,paced.credit⟩
      exact paced'.arm ⟨even.executed,even.events⟩ d
    · exact fun still => absurd running still
    · exact fun _ armed => absurd armed.symm Bool.false_ne_true
    · exact fun _ _ _ _ => rfl

namespace Mouse.Held
variable {d : Device} {m : Mouse} (held : m.Held d)
include held

theorem joined_running (running : m.line.endpoint = .running) : m.line.Joined d := by
  rcases held.joined with joined | ⟨_,stopped⟩
  · exact joined
  · rw [running] at stopped
    cases stopped

theorem joined_ready (ready : m.ready) : m.line.Joined d := by
  rcases held.joined with joined | ⟨unready,_⟩
  · exact joined
  · rw [ready] at unready
    cases unready

theorem execute (placed : Placed d.segments intrSegments) (finish : Finish) :
    Held d {m with line := m.line.execute finish} := by
  have executes := execute_changes placed finish held.joined_running
  have credit := held.paced.credit
  refine ⟨?_,held.paced.execute executes,?_,?_,?_⟩
  · rcases held.joined with joined | ⟨unready,stopped⟩
    · exact .inl (joined.execute placed finish)
    · have idle : m.line.execute finish = m.line := by
        unfold Line.execute
        rw [if_pos (by rw [stopped]; exact nofun)]
      dsimp only
      rw [idle]
      exact .inr ⟨unready,stopped⟩
  · obtain ⟨_,submitted,⟨executed,events,endpoint⟩ | ⟨_,⟨t,next,executed⟩,events,endpoint⟩⟩ := executes
    · dsimp only
      rw [submitted,executed,events,endpoint]
      exact held.rest
    · intro still
      have inside := (List.getElem?_eq_some_iff.mp next).1
      have none : m.line.events = [] := List.length_eq_zero_iff.mp (by omega)
      dsimp only at still ⊢
      rw [endpoint] at still
      by_cases halt : finish = .halt
      · rw [submitted,executed,events,none,halt,List.length_append,List.length_singleton]
        exact ⟨by omega,.inr rfl⟩
      · rw [if_neg halt] at still
        exact absurd rfl still
  · intro ready clear
    dsimp only at clear ⊢
    rw [executes.pending] at clear
    have even := held.even ready clear
    obtain ⟨_,submitted,⟨executed,events,_⟩ | ⟨_,⟨t,next,_⟩,_⟩⟩ := executes
    · refine ⟨?_,?_⟩
      · rw [submitted,executed]
        exact even.executed
      · rw [events]
        exact even.events
    · have inside := (List.getElem?_eq_some_iff.mp next).1
      rw [even.executed] at inside
      exact absurd inside (Nat.lt_irrefl _)
  · intro ready polling id still
    dsimp only at still ⊢
    rw [executes.pending]
    obtain ⟨_,submitted,⟨_,_,endpoint⟩ | ⟨_,⟨t,next,_⟩,_⟩⟩ := executes
    · rw [endpoint] at still
      exact held.armed ready polling id still
    · by_contra clear
      have even := held.even ready (Bool.eq_false_iff.mpr clear)
      have inside := (List.getElem?_eq_some_iff.mp next).1
      rw [even.executed] at inside
      exact absurd inside (Nat.lt_irrefl _)

theorem await : Held d {m with line := m.line.awaited} := by
  obtain ⟨joined,⟨order,credit⟩,rest,even,armed⟩ := held
  refine ⟨joined.imp (fun whole => whole.same rfl rfl rfl rfl rfl) id,⟨order,?_⟩,?_,?_,armed⟩
  · exact Nat.le_trans (Nat.add_le_add_left (Nat.zero_le _) _) credit
  · exact fun still => ⟨(rest still).1,.inl rfl⟩
  · exact fun ready clear => ⟨(even ready clear).executed,rfl⟩

theorem event (placed : Placed d.segments intrSegments) : Held d (m.event d) := by
  have credit := held.paced.credit
  have bound := held.paced.bound
  unfold Mouse.event
  split
  next => exact held
  next ok events shape =>
    rw [shape,List.length_cons] at credit
    have none : events = [] := List.length_eq_zero_iff.mp (by omega)
    have executed : m.line.submitted.length = m.line.executed.length := by omega
    have paced : ({m.line with events} : Line).Paced := ⟨held.paced.order,by dsimp only; omega⟩
    dsimp only
    split_ifs with unready good
    · have off : m.ready = false := by simpa using unready
      refine ⟨held.joined.imp (fun whole => whole.same rfl rfl rfl rfl rfl) id,paced,?_,?_,?_⟩
      · exact fun _ => ⟨executed,.inl none⟩
      · exact fun ready => absurd ready (by rw [off]; exact Bool.false_ne_true)
      · exact fun ready => absurd ready (by rw [off]; exact Bool.false_ne_true)
    · have on : m.ready := by simpa using unready
      have joined : (Line.clear {m.line with events}).Joined d :=
        (held.joined_ready on).same rfl rfl rfl rfl rfl
      have even : (Line.clear {m.line with events}).Even := ⟨executed,none⟩
      refine even.submit placed joined ⟨paced.order,paced.credit⟩ rfl ?_ _ _
      intro _ halted
      have still : m.line.endpoint ≠ .running := by
        rw [Line.clear] at halted
        dsimp only at halted
        rw [halted]
        exact nofun
      rcases (held.rest still).2 with empty | failed
      · rw [shape] at empty
        cases empty
      · rw [shape,good] at failed
        cases failed
    · have on : m.ready := by simpa using unready
      have joined : (Line.clear {m.line with events}).Joined d :=
        (held.joined_ready on).same rfl rfl rfl rfl rfl
      have even : (Line.clear {m.line with events}).Even := ⟨executed,none⟩
      exact even.held joined ⟨paced.order,paced.credit⟩ fun _ polls => absurd polls Bool.false_ne_true

theorem finish (placed : Placed d.segments intrSegments) (polls : m.polling) : Held d (m.finish d) := by
  unfold Mouse.finish
  split
  next idle =>
    have clear : m.line.pending = false := by simpa using idle.2
    have even := held.even idle.1 clear
    refine Line.Even.submit placed even (held.joined_ready idle.1) held.paced clear ?_ _ _
    intro id halted
    have still : m.line.endpoint ≠ .running := by
      rw [halted]
      exact nofun
    have pending := held.armed idle.1 polls id still
    rw [clear] at pending
    cases pending
  next =>
    obtain ⟨joined,paced,rest,even,_⟩ := held
    exact ⟨joined,paced,rest,even,fun _ polls => absurd polls Bool.false_ne_true⟩

theorem poll (healthy : Bool) : Held d (m.step d (.poll healthy)) := by
  unfold Mouse.step
  dsimp only
  split
  next => exact held
  next passed =>
    obtain ⟨joined,paced,rest,even,_⟩ := held
    refine ⟨joined,paced,rest,even,?_⟩
    intro ready _ id still
    refine absurd ⟨ready,.inr ?_⟩ passed
    unfold hidEndpointNeedsRecovery
    dsimp only at ready still
    simp [ready,id,still]

/-- Nothing is submitted for a mouse that was given up. -/
theorem retire {l : Line} (joined : l.Joined d ∨ l.endpoint = .stopped) (order : l.executed = m.line.executed)
    (same : l.submitted = m.line.submitted) (none : l.events = [] ∨ l.events = m.line.events)
    (rest : l.endpoint ≠ .running → l.submitted.length = l.executed.length ∧ (l.events = [] ∨ l.events = [false]))
    (polling : Bool) : Held d ⟨l,false,polling⟩ := by
  refine ⟨joined.imp id fun stopped => ⟨rfl,stopped⟩,⟨?_,?_⟩,rest,nofun,nofun⟩
  · rw [order,same]
    exact held.paced.order
  · have credit := held.paced.credit
    rw [order,same]
    rcases none with empty | kept
    · rw [empty]
      exact Nat.le_trans (Nat.add_le_add_left (Nat.zero_le _) _) credit
    · rw [kept]
      exact credit

end Mouse.Held

theorem first_dequeue {base : Nat} (aligned : base % 4096 = 0) :
    (⟨(base ||| 1) / trbSize * trbSize,(base ||| 1) % 2 == 1⟩ : Consumer) = ⟨base,true⟩ := by
  have whole : base = 2^4 * (base / 16) := by omega
  have flag : 1 < 2^4 := by decide
  have sum : base ||| 1 = base + 1 := by
    rw [whole,← Nat.two_pow_add_eq_or_of_lt flag]
  have odd : (base + 1) % 2 = 1 := by omega
  have start : (base + 1) / trbSize * trbSize = base := by
    unfold trbSize
    omega
  rw [sum,odd,start]
  rfl

/-- What becomes of the line in a restart: its endpoint was not halted, it is left stopped,
or it goes on with a new ring. -/
inductive Restarts (d : Device) (l : Line) : Int × Line → Prop
  | refused : Restarts d l (-1,l.awaited)
  | stopped {l' : Line} (halted : l.endpoint = .halted) (endpoint : l'.endpoint = .stopped) (events : l'.events = [])
      (submitted : l'.submitted = l.submitted) (executed : l'.executed = l.executed) : Restarts d l (-1,l')
  | anew (halted : l.endpoint = .halted) : Restarts d l (submitReport d {l.restarted d with
      endpoint := .stopped,events := [],consumer := ⟨d.segments 0,true⟩})

theorem restart_cases (d : Device) (aligned : d.segments 0 % 4096 = 0) (l : Line) (id : d.endpointId ≠ 0)
    (reset dequeue : Answer) : Restarts d l (restartHidTransferRing d true l reset dequeue) := by
  unfold restartHidTransferRing cmdResetEndpoint
  rw [if_neg (by simpa using id)]
  by_cases reached : l.endpoint = .halted ∧ reset ≠ .refused
  · rw [if_pos reached]
    cases reset with
    | success =>
      have stopped : Line.restarted d {l.awaited with endpoint := .stopped} =
        {l.restarted d with endpoint := .stopped,events := []} := rfl
      dsimp only
      rw [stopped]
      unfold cmdSetEndpointDeq
      cases dequeue with
      | success =>
        rw [first_dequeue aligned]
        exact .anew reached.1
      | lost => exact .stopped reached.1 rfl rfl rfl rfl
      | refused => exact .stopped reached.1 rfl rfl rfl rfl
    | lost => exact .stopped reached.1 rfl rfl rfl rfl
    | refused => exact absurd rfl reached.2
  · rw [if_neg reached]
    exact .refused

theorem Mouse.Held.recover {d : Device} {m : Mouse} (held : m.Held d) (placed : Placed d.segments intrSegments)
    (healthy : Bool) (reset dequeue : Answer) :
    Held d (xhciMouseRecover d m healthy reset dequeue).2 := by
  unfold xhciMouseRecover
  split_ifs with off sick
  · exact held
  · have joined : m.line.clear.Joined d ∨ m.line.clear.endpoint = .stopped :=
      held.joined.imp (fun whole => whole.same rfl rfl rfl rfl rfl) And.right
    exact held.retire joined rfl rfl (.inr rfl) held.rest _
  · obtain ⟨on,id⟩ := not_or.mp off
    have ready : m.ready := by simpa using on
    have joined := held.joined_ready ready
    have cases := restart_cases d (placed.aligned 0 placed.positive) m.line.clear id reset dequeue
    rw [ready]
    generalize restartHidTransferRing d true m.line.clear reset dequeue = outcome at cases
    cases cases with
    | refused =>
      have same : m.line.clear.awaited.clear.Joined d := joined.same rfl rfl rfl rfl rfl
      refine held.retire (.inl same) rfl rfl (.inl rfl) ?_ _
      exact fun still => ⟨(held.rest still).1,.inl rfl⟩
    | @stopped l' halted endpoint events submitted executed =>
      have still : m.line.endpoint ≠ .running := by
        rw [show m.line.endpoint = .halted from halted]
        exact nofun
      have stopped : l'.clear.endpoint = .stopped := endpoint
      refine held.retire (.inr stopped) executed submitted (.inl events) (fun _ => ⟨?_,.inl events⟩) _
      have counts := (held.rest still).1
      rw [← show l'.clear.submitted = m.line.submitted from submitted,
        ← show l'.clear.executed = m.line.executed from executed] at counts
      exact counts
    | anew halted =>
      have still : m.line.endpoint ≠ .running := by
        rw [show m.line.endpoint = .halted from halted]
        exact nofun
      have counts := (held.rest still).1
      have all := held.paced.all counts
      have joined' : Line.Joined d {m.line.clear.restarted d with
          endpoint := .stopped,events := [],consumer := ⟨d.segments 0,true⟩} :=
        restarted_joined placed all m.line.trbs rfl rfl rfl
      have even : Line.Even {m.line.clear.restarted d with
          endpoint := .stopped,events := [],consumer := ⟨d.segments 0,true⟩} := ⟨counts,rfl⟩
      have paced : Line.Paced {m.line.clear.restarted d with
          endpoint := .stopped,events := [],consumer := ⟨d.segments 0,true⟩} :=
        ⟨held.paced.order,Nat.le_succ_of_le (Nat.le_of_eq counts)⟩
      have submitted := even.submit placed joined' paced rfl (fun _ => nofun) true m.polling
      unfold submitReport at submitted ⊢
      rw [if_neg id] at submitted ⊢
      exact submitted

theorem Mouse.Held.step {d : Device} {m : Mouse} (held : m.Held d) (placed : Placed d.segments intrSegments)
    (act : MouseAct) : Held d (m.step d act) := by
  cases act with
  | execute finish => exact held.execute placed finish
  | await => exact held.await
  | poll healthy => exact held.poll healthy
  | event =>
    unfold Mouse.step
    dsimp only
    split
    next => exact held.event placed
    next => exact held
  | finish =>
    unfold Mouse.step
    dsimp only
    split
    next polls => exact held.finish placed polls
    next => exact held
  | recover healthy reset dequeue =>
    unfold Mouse.step
    dsimp only
    split
    next => exact held
    next => exact held.recover placed healthy reset dequeue

theorem setup_paced (d : Device) : (setupLine d).Paced := ⟨rfl,Nat.zero_le _⟩

theorem setupMouse_held {d : Device} (placed : Placed d.segments intrSegments) : Mouse.Held d (setupMouse d) := by
  have even : (setupLine d).Even := ⟨rfl,rfl⟩
  exact even.held (setup_joined placed) (setup_paced d) fun _ polls => absurd polls Bool.false_ne_true

/-- A running endpoint executes what was submitted and nothing else, and nothing is left for
an endpoint that is not running. -/
structure Reported (d : Device) (l : Line) : Prop where
  order : l.executed = l.submitted.take l.executed.length
  running : l.endpoint = .running → Faultless d.segments intrSegments l.trbs l.consumer l.submitted l.executed
  still : l.endpoint ≠ .running → l.executed = l.submitted

theorem Mouse.Held.reported {d : Device} {m : Mouse} (held : m.Held d) (placed : Placed d.segments intrSegments) :
    Reported d m.line :=
  ⟨held.paced.order,fun running => (held.joined_running running).faultless placed,
    fun still => held.paced.all (held.rest still).1⟩

structure Keyboard.Held (d : Device) (k : Keyboard) : Prop where
  joined : k.line.Joined d
  paced : k.line.Paced
  even : k.line.pending = false → k.line.Even

theorem Keyboard.Held.submit {d : Device} (placed : Placed d.segments intrSegments) {l : Line} (joined : l.Joined d)
    (paced : l.Paced) (even : l.pending = false → l.Even) (ready : Bool) :
    Keyboard.Held d ⟨(submitKeyboardReport d ready l).2,ready⟩ := by
  unfold submitKeyboardReport
  split_ifs with idle
  · exact ⟨joined,paced,even⟩
  · have clear : l.pending = false := by
      simp only [not_or] at idle
      simpa using idle.2.2
    have same : Line.Joined d {l with length := reportLength 8 d.packet} := joined.same rfl rfl rfl rfl rfl
    have paced' : Line.Paced {l with length := reportLength 8 d.packet} := ⟨paced.order,paced.credit⟩
    have even' : Line.Even {l with length := reportLength 8 d.packet} := ⟨(even clear).executed,(even clear).events⟩
    exact ⟨same.arm placed even'.executed,paced'.arm even' d,fun armed => absurd armed.symm Bool.false_ne_true⟩

theorem Keyboard.Held.step {d : Device} {k : Keyboard} (held : k.Held d) (placed : Placed d.segments intrSegments)
    (act : KeyboardAct) : Held d (k.step d act) := by
  obtain ⟨joined,paced,even⟩ := held
  cases act with
  | execute finish =>
    have executes := execute_changes placed finish fun _ => joined
    refine ⟨joined.execute placed finish,paced.execute executes,?_⟩
    intro clear
    have before := even (executes.pending ▸ clear)
    obtain ⟨_,submitted,⟨executed,events,_⟩ | ⟨_,⟨t,next,_⟩,_⟩⟩ := executes
    · refine ⟨?_,?_⟩
      · exact (congrArg List.length submitted).trans (before.executed.trans (congrArg List.length executed.symm))
      · exact events.trans before.events
    · have inside := (List.getElem?_eq_some_iff.mp next).1
      rw [before.executed] at inside
      exact absurd inside (Nat.lt_irrefl _)
  | await =>
    refine ⟨joined.same rfl rfl rfl rfl rfl,⟨paced.order,?_⟩,fun clear => ⟨(even clear).executed,rfl⟩⟩
    exact Nat.le_trans (Nat.add_le_add_left (Nat.zero_le _) _) paced.credit
  | event =>
    unfold Keyboard.step Keyboard.event
    dsimp only
    split
    next => exact ⟨joined,paced,even⟩
    next noticed events shape =>
      have credit := paced.credit
      have bound := paced.bound
      rw [shape,List.length_cons] at credit
      have none : events = [] := List.length_eq_zero_iff.mp (by omega)
      have executed : k.line.submitted.length = k.line.executed.length := by omega
      split_ifs
      · have same : (Line.clear {k.line with events}).Joined d := joined.same rfl rfl rfl rfl rfl
        have even' : (Line.clear {k.line with events}).Even := ⟨executed,none⟩
        exact .submit placed same ⟨paced.order,by rw [even'.events,even'.executed]; exact Nat.le_succ _⟩
          (fun _ => even') k.ready
      · exact ⟨joined.same rfl rfl rfl rfl rfl,⟨paced.order,by dsimp only; omega⟩,fun _ => ⟨executed,none⟩⟩
  | finish =>
    unfold Keyboard.step
    dsimp only
    split_ifs
    · exact .submit placed joined paced even k.ready
    · exact ⟨joined,paced,even⟩

theorem setupKeyboard_held {d : Device} (placed : Placed d.segments intrSegments) (ready : Bool) :
    Keyboard.Held d (setupKeyboard d ready) := ⟨setup_joined placed,setup_paced d,fun _ => ⟨rfl,rfl⟩⟩

/-- The rings of the mouse and of the keyboard, in whatever order the driver and the
controller take their steps. -/
theorem reports_in_order (mouse keyboard : Device) (placed : Placed mouse.segments intrSegments)
    (placed' : Placed keyboard.segments intrSegments) (ready : Bool) (acts : List MouseAct) (keys : List KeyboardAct) :
    Reported mouse (run (Mouse.step mouse) (setupMouse mouse) acts).line ∧
      Faultless keyboard.segments intrSegments
        (run (Keyboard.step keyboard) (setupKeyboard keyboard ready) keys).line.trbs
        (run (Keyboard.step keyboard) (setupKeyboard keyboard ready) keys).line.consumer
        (run (Keyboard.step keyboard) (setupKeyboard keyboard ready) keys).line.submitted
        (run (Keyboard.step keyboard) (setupKeyboard keyboard ready) keys).line.executed := by
  have held : Mouse.Held mouse (run (Mouse.step mouse) (setupMouse mouse) acts) :=
    run_invariant (fun _ act before => before.step placed act) (setupMouse_held placed)
  have held' : Keyboard.Held keyboard (run (Keyboard.step keyboard) (setupKeyboard keyboard ready) keys) :=
    run_invariant (fun _ act before => before.step placed' act) (setupKeyboard_held placed' ready)
  exact ⟨held.reported placed,held'.joined.faultless placed'⟩

def pagesFrom (base s : Nat) : Nat := base + s * pageSize

theorem pagesFrom_placed {base : Nat} (aligned : base % 4096 = 0) (low : base < 2^32) :
    Placed (pagesFrom base) intrSegments := by
  unfold pagesFrom pageSize intrSegments
  refine ⟨by decide,?_,?_,?_⟩
  · intro s _
    omega
  · intro s inside
    omega
  · intro s s' _ _ same
    omega

theorem reports_in_order_restart : Reported ⟨pagesFrom 0x400000,0x10000,3,8⟩
    (run (Mouse.step ⟨pagesFrom 0x400000,0x10000,3,8⟩) (setupMouse ⟨pagesFrom 0x400000,0x10000,3,8⟩)
      [.poll true,.finish,.execute .halt,.recover true .success .success,.execute .success]).line ∧
    Faultless (pagesFrom 0x500000) intrSegments
      (run (Keyboard.step ⟨pagesFrom 0x500000,0x11000,3,8⟩) (setupKeyboard ⟨pagesFrom 0x500000,0x11000,3,8⟩ true)
        [.finish,.execute .success,.event]).line.trbs
      (run (Keyboard.step ⟨pagesFrom 0x500000,0x11000,3,8⟩) (setupKeyboard ⟨pagesFrom 0x500000,0x11000,3,8⟩ true)
        [.finish,.execute .success,.event]).line.consumer
      (run (Keyboard.step ⟨pagesFrom 0x500000,0x11000,3,8⟩) (setupKeyboard ⟨pagesFrom 0x500000,0x11000,3,8⟩ true)
        [.finish,.execute .success,.event]).line.submitted
      (run (Keyboard.step ⟨pagesFrom 0x500000,0x11000,3,8⟩) (setupKeyboard ⟨pagesFrom 0x500000,0x11000,3,8⟩ true)
        [.finish,.execute .success,.event]).line.executed :=
  reports_in_order ⟨pagesFrom 0x400000,0x10000,3,8⟩ ⟨pagesFrom 0x500000,0x11000,3,8⟩
    (pagesFrom_placed (by decide) (by decide)) (pagesFrom_placed (by decide) (by decide)) true _ _

end LionOS.Usb

import LionOS.Channels.Input
import LionOS.Library.Ring
import LionOS.Processes.Spinlock

/-! The queue of mouse events between the interrupts that fill it and the programs that read it, on any
number of processors. -/
namespace LionOS.Channels
open LionOS.Library LionOS.Processes

/-- The functions of the queue that hold `mouse_event_lock` while they work. -/
inductive QueueCall
  | push (event : MouseEvent)
  | tryRead
  | available
  | dropped

/-- Their variables; `room` is the condition of the branch that they take. -/
structure Variables where
  next : Nat
  room : Bool
  wake : Bool
  count : Nat
  out : MouseEvent

abbrev QueueStep := Mouse × Variables → Mouse × Variables

def Mouse.setSlot (m : Mouse) (set : MouseEvent → MouseEvent) : Mouse :=
  {m with buffer := Function.update m.buffer m.writeIdx (set (m.buffer m.writeIdx))}

def whenRoom (step : QueueStep) : QueueStep := fun now => if now.2.room then step now else now
def unlessRoom (step : QueueStep) : QueueStep := fun now => if now.2.room then now else step now

/-- `mouse_event_push` under the lock. -/
def pushSteps (event : MouseEvent) : List QueueStep :=
  [fun now => (now.1,{now.2 with next := (now.1.writeIdx + 1) % mouseEventBufferSize}),
    fun now => (now.1,{now.2 with room := decide (now.2.next ≠ now.1.readIdx)}),
    whenRoom fun now => (now.1.setSlot fun slot => {slot with dx := event.dx},now.2),
    whenRoom fun now => (now.1.setSlot fun slot => {slot with dy := event.dy},now.2),
    whenRoom fun now => (now.1.setSlot fun slot => {slot with buttons := event.buttons},now.2),
    whenRoom fun now => (now.1.setSlot fun slot => {slot with source := event.source},now.2),
    whenRoom fun now => ({now.1 with writeIdx := now.2.next},now.2),
    whenRoom fun now => (now.1,{now.2 with wake := true}),
    unlessRoom fun now => (now.1,{now.2 with count := now.1.dropCount}),
    unlessRoom fun now => ({now.1 with dropCount := wrap (now.2.count + 1)},now.2)]

/-- `mouse_try_read_event` under the lock. -/
def tryReadSteps : List QueueStep :=
  [fun now => (now.1,{now.2 with room := decide (now.1.readIdx ≠ now.1.writeIdx)}),
    whenRoom fun now => (now.1,{now.2 with out := {now.2.out with dx := (now.1.buffer now.1.readIdx).dx}}),
    whenRoom fun now => (now.1,{now.2 with out := {now.2.out with dy := (now.1.buffer now.1.readIdx).dy}}),
    whenRoom fun now => (now.1,{now.2 with out := {now.2.out with buttons := (now.1.buffer now.1.readIdx).buttons}}),
    whenRoom fun now => (now.1,{now.2 with out := {now.2.out with source := (now.1.buffer now.1.readIdx).source}}),
    whenRoom fun now => ({now.1 with readIdx := (now.1.readIdx + 1) % mouseEventBufferSize},now.2)]

/-- `mouse_event_available` under the lock. -/
def availableSteps : List QueueStep :=
  [fun now => (now.1,{now.2 with count := now.1.writeIdx + mouseEventBufferSize}),
    fun now => (now.1,{now.2 with count := (now.2.count - now.1.readIdx) % mouseEventBufferSize})]

/-- `mouse_event_dropped` under the lock. -/
def droppedSteps : List QueueStep := [fun now => (now.1,{now.2 with count := now.1.dropCount})]

def queueCode (call : QueueCall) : Guarded Mouse Variables where
  own := ⟨0,false,false,0,default⟩
  body := match call with
    | .push event => pushSteps event
    | .tryRead => tryReadSteps
    | .available => availableSteps
    | .dropped => droppedSteps

/-- Whether the push has somebody to wake, the event that is read, or the number. -/
inductive Answer
  | pushed (wake : Bool)
  | event (event : Option MouseEvent)
  | number (n : Nat)

def reply (call : QueueCall) (own : Variables) : Answer :=
  match call with
  | .push _ => .pushed own.wake
  | .tryRead => .event (if own.room then some own.out else none)
  | .available => .number own.count
  | .dropped => .number own.count

/-- The same functions in one go. -/
def queueCall : Machine Mouse QueueCall Answer := fun m call =>
  match call with
  | .push event =>
    let next := (m.writeIdx + 1) % mouseEventBufferSize
    if next = m.readIdx then ({m with dropCount := wrap (m.dropCount + 1)},.pushed false)
    else ({m with buffer := Function.update m.buffer m.writeIdx event,writeIdx := next},.pushed true)
  | .tryRead =>
    if m.readIdx = m.writeIdx then (m,.event none)
    else ({m with readIdx := (m.readIdx + 1) % mouseEventBufferSize},.event (some (m.buffer m.readIdx)))
  | .available => (m,.number ((m.writeIdx + mouseEventBufferSize - m.readIdx) % mouseEventBufferSize))
  | .dropped => (m,.number m.dropCount)

/-- What the queue is for: events that wait in order, at most 255 of them, and the number of those refused. -/
def pendingCall : Machine (List MouseEvent × Nat) QueueCall Answer := fun q call =>
  match call with
  | .push event =>
    if q.1.length + 1 < mouseEventBufferSize then ((q.1 ++ [event],q.2),.pushed true) else ((q.1,wrap (q.2 + 1)),.pushed false)
  | .tryRead => match q.1 with
    | [] => (q,.event none)
    | event::rest => ((rest,q.2),.event (some event))
  | .available => (q,.number q.1.length)
  | .dropped => (q,.number q.2)

section Atomic

/-- The push of the other modules does to the queue what this one does. -/
theorem mouseEventPush_queue (s : System) {m : Mouse} (ready : m.ready = true) (event : MouseEvent) :
    (mouseEventPush s m event).2 = (queueCall m (.push event)).1 := by
  unfold mouseEventPush queueCall
  rw [ready,if_neg (by decide)]
  dsimp only
  split <;> rfl

theorem mouseEventAvailable_queue {m : Mouse} (ready : m.ready = true) :
    queueCall m .available = (m,.number (mouseEventAvailable m)) := by
  unfold mouseEventAvailable
  rw [ready]
  rfl

/-- Each function, instruction by instruction, is the function in one go. -/
theorem queueCode_whole (m : Mouse) (call : QueueCall) :
    ((queueCode call).whole m).1 = (queueCall m call).1 ∧ reply call ((queueCode call).whole m).2 = (queueCall m call).2 := by
  cases call with
  | push event =>
    by_cases full : (m.writeIdx + 1) % mouseEventBufferSize = m.readIdx
    · simp [queueCode,Guarded.whole,pushSteps,whenRoom,unlessRoom,queueCall,reply,full]
    · simp [queueCode,Guarded.whole,pushSteps,whenRoom,unlessRoom,queueCall,reply,full,Mouse.setSlot]
  | tryRead =>
    by_cases empty : m.readIdx = m.writeIdx
    · simp [queueCode,Guarded.whole,tryReadSteps,whenRoom,queueCall,reply,empty]
    · simp [queueCode,Guarded.whole,tryReadSteps,whenRoom,queueCall,reply,empty]
  | available => exact ⟨rfl,rfl⟩
  | dropped => exact ⟨rfl,rfl⟩

/-- One call after the other, the functions answer as they do in one go. -/
theorem answers_whole (m : Mouse) (calls : List QueueCall) :
    List.zipWith reply calls (answers (atomically queueCode) m calls) = answers queueCall m calls ∧
      run (atomically queueCode).step m calls = run queueCall.step m calls := by
  induction calls generalizing m with
  | nil => exact ⟨rfl,rfl⟩
  | cons call rest ih =>
    obtain ⟨left,answered⟩ := queueCode_whole m call
    obtain ⟨same,ends⟩ := ih (queueCall.step m call)
    have next : (atomically queueCode).step m call = queueCall.step m call := left
    have first : reply call (atomically queueCode m call).2 = (queueCall m call).2 := answered
    rw [answers,answers,List.zipWith_cons_cons,next,same,first,run_cons,run_cons,next,ends]
    exact ⟨rfl,rfl⟩

end Atomic

section Order

/-- The events that wait are those between the two indices. -/
structure Queues (m : Mouse) (q : List MouseEvent × Nat) : Prop where
  read : m.readIdx < mouseEventBufferSize
  write : m.writeIdx = (m.readIdx + q.1.length) % mouseEventBufferSize
  events : window mouseEventBufferSize m.buffer m.readIdx q.1.length = q.1
  short : q.1.length < mouseEventBufferSize
  drops : m.dropCount = q.2

variable {m : Mouse} {q : List MouseEvent × Nat}

theorem Queues.push (queues : Queues m q) (event : MouseEvent) :
    (queueCall m (.push event)).2 = (pendingCall q (.push event)).2 ∧
      Queues (queueCall.step m (.push event)) (pendingCall.step q (.push event)) := by
  obtain ⟨read,write,events,short,drops⟩ := queues
  have full_iff : (m.writeIdx + 1) % mouseEventBufferSize = m.readIdx ↔ ¬q.1.length + 1 < mouseEventBufferSize := by
    rw [write]
    unfold mouseEventBufferSize at *
    omega
  unfold Machine.step queueCall pendingCall
  dsimp only
  by_cases room : q.1.length + 1 < mouseEventBufferSize
  · rw [if_pos room,if_neg (fun full => full_iff.mp full room)]
    refine ⟨rfl,read,?_,?_,?_,drops⟩
    · dsimp only
      rw [write,List.length_append,List.length_singleton,Nat.mod_add_mod,Nat.add_assoc]
    · dsimp only
      rw [List.length_append,List.length_singleton,write,window_push event short,events]
    · dsimp only
      rw [List.length_append,List.length_singleton]
      exact room
  · rw [if_neg room,if_pos (full_iff.mpr room)]
    exact ⟨rfl,read,write,events,short,congrArg (fun n => wrap (n + 1)) drops⟩

theorem Queues.tryRead (queues : Queues m q) :
    (queueCall m .tryRead).2 = (pendingCall q .tryRead).2 ∧ Queues (queueCall.step m .tryRead) (pendingCall.step q .tryRead) := by
  obtain ⟨pending,drops'⟩ := q
  have whole := queues
  obtain ⟨read,write,events,short,drops⟩ := queues
  unfold Machine.step queueCall pendingCall
  cases pending with
  | nil =>
    have empty : m.readIdx = m.writeIdx := by
      rw [write]
      exact (Nat.mod_eq_of_lt read).symm
    dsimp only
    rw [if_pos empty]
    exact ⟨rfl,whole⟩
  | cons event rest =>
    dsimp only at write events short drops ⊢
    rw [List.length_cons] at write short events
    have filled : m.readIdx ≠ m.writeIdx := by
      rw [write]
      unfold mouseEventBufferSize at *
      omega
    rw [window_pop,Nat.mod_eq_of_lt read] at events
    obtain ⟨first,others⟩ := List.cons.inj events
    rw [if_neg filled,first]
    refine ⟨rfl,Nat.mod_lt _ (by decide),?_,others,Nat.lt_of_succ_lt short,drops⟩
    dsimp only
    rw [write,Nat.mod_add_mod]
    exact congrArg (· % mouseEventBufferSize) (by omega)

theorem queue_simulates : Simulates queueCall pendingCall (fun _ _ => True) Queues := by
  have counted {m : Mouse} {q : List MouseEvent × Nat} (queues : Queues m q) :
      (m.writeIdx + mouseEventBufferSize - m.readIdx) % mouseEventBufferSize = q.1.length := by
    obtain ⟨read,write,_,short,_⟩ := queues
    rw [write]
    unfold mouseEventBufferSize at *
    omega
  constructor
  · intro m q call queues _
    cases call with
    | push event => exact (queues.push event).1
    | tryRead => exact queues.tryRead.1
    | available => exact congrArg Answer.number (counted queues)
    | dropped => exact congrArg Answer.number queues.drops
  · intro m q call queues _
    cases call with
    | push event => exact (queues.push event).2
    | tryRead => exact queues.tryRead.2
    | available => exact queues
    | dropped => exact queues

/-- The events that a history takes into the queue, and those that it hands out. -/
def accepted (history : List (QueueCall × Answer)) : List MouseEvent :=
  history.filterMap fun entry => match entry with
    | (.push event,.pushed true) => some event
    | _ => none

def delivered (history : List (QueueCall × Answer)) : List MouseEvent :=
  history.filterMap fun entry => match entry with
    | (.tryRead,.event event) => event
    | _ => none

/-- What is accepted is delivered or waits, in its order. -/
theorem pending_conserves (q : List MouseEvent × Nat) (calls : List QueueCall) :
    q.1 ++ accepted (calls.zip (answers pendingCall q calls)) =
      delivered (calls.zip (answers pendingCall q calls)) ++ (run pendingCall.step q calls).1 := by
  induction calls generalizing q with
  | nil => simp [accepted,delivered]
  | cons call rest ih =>
    have later := ih (pendingCall.step q call)
    rw [answers,List.zip_cons_cons,run_cons]
    cases call with
    | push event =>
      by_cases room : q.1.length + 1 < mouseEventBufferSize
      · have taken : pendingCall q (.push event) = ((q.1 ++ [event],q.2),.pushed true) := if_pos room
        rw [Machine.step,taken] at later ⊢
        rw [List.append_assoc] at later
        exact later
      · have refused : pendingCall q (.push event) = ((q.1,wrap (q.2 + 1)),.pushed false) := if_neg room
        rw [Machine.step,refused] at later ⊢
        exact later
    | tryRead =>
      obtain ⟨pending,drops⟩ := q
      cases pending with
      | nil => exact later
      | cons event others => exact congrArg (event :: ·) later
    | available => exact later
    | dropped => exact later

end Order

variable {ι : Type} [DecidableEq ι]

/-- However the processors take turns and wherever interrupts come, the calls are answered as a queue answers them:
no event that it took is lost, doubled or overtaken. -/
theorem mouse_events_in_order (enabled : ι → Bool) (buffer : Nat → MouseEvent) (channel : Nat) (moves : List (ι × Move QueueCall)) :
    let start := spinlockInit ⟨true,buffer,0,0,0,channel⟩ enabled
    let s := run (processors queueCode).step start moves
    let history := (finished queueCode start moves).map fun done => (done.1,reply done.1 done.2)
    let waiting := run pendingCall.step ([],0) (history.map Prod.fst)
    history.map Prod.snd = answers pendingCall ([],0) (history.map Prod.fst) ∧
      accepted history = delivered history ++ waiting.1 ∧ (s.value = 0 → Queues s.data waiting) := by
  intro start s history waiting
  obtain ⟨_,_,_,same,ends,_⟩ := sections_atomic queueCode ⟨true,buffer,0,0,0,channel⟩ enabled moves
  have calls : (finished queueCode start moves).map Prod.fst = history.map Prod.fst := by
    rw [List.map_map]
    rfl
  have room : 0 < mouseEventBufferSize := by decide
  have empty : Queues ⟨true,buffer,0,0,0,channel⟩ ([],0) := ⟨room,rfl,rfl,room,rfl⟩
  obtain ⟨answered,related⟩ := queue_simulates.run empty (meets_always (fun _ _ => trivial) _ (history.map Prod.fst))
  obtain ⟨whole,led⟩ := answers_whole ⟨true,buffer,0,0,0,channel⟩ (history.map Prod.fst)
  have replies : history.map Prod.snd = answers pendingCall ([],0) (history.map Prod.fst) := by
    rw [← answered,← whole,← calls,← same,List.zipWith_map,List.zipWith_self,List.map_map]
    rfl
  refine ⟨replies,?_,fun free => ?_⟩
  · have conserved := pending_conserves ([],0) (history.map Prod.fst)
    rw [← replies,List.zip_map',List.map_id'] at conserved
    exact conserved
  · have data : s.data = _ := ends free
    rw [data,calls,led]
    exact related

end LionOS.Channels

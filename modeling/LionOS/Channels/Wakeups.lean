import LionOS.Channels.Input
import LionOS.Channels.Stream
import LionOS.Channels.Delivery
import LionOS.Processes.Termination

/-! Sleeping and waking as seen from the locks: every section that runs under a lock is
one step, and the `process_wakeup` that a producer owes for its section is another one,
which may come at any time after it. -/
namespace LionOS.Channels
open LionOS.Physical LionOS.Processes LionOS.Library

/-- The call in which a task was put to sleep. -/
inductive Bed
  | ipc
  | pipeRead (id : Nat)
  | pipeWrite (id : Nat)
  | mouse
  deriving DecidableEq

/-- `pending` are the channels of the wakeups that are still owed and `asleep` tells
which tasks the channel calls have put to sleep. -/
structure Station where
  system : System
  queue : IpcQueue
  pipes : Pipes
  mouse : Mouse
  pending : List Nat
  asleep : Slot → Option Bed

/-- The sections of the three channel locks and of the process lock. The receiver of
`recvBlocking` is the process that runs on the CPU. A `pipeWrite` is one round of its
loop, on the bytes that are left. -/
inductive Section
  | send (receiverPid senderPid : Nat) (data : List Byte)
  | recv (receiverPid capacity : Nat)
  | recvBlocking (cpu capacity : Nat)
  | pipeCreate (ownerPid : Nat)
  | pipeRead (cpu handle capacity : Nat)
  | pipeWrite (cpu handle : Nat) (left : List Byte)
  | pipeClose (cpu handle : Nat)
  | mouseEvent (event : MouseEvent)
  | mouseRead (cpu : Nat)
  | process (call : Call)
  | wakeup (channel : Nat)

def Station.sleep (st : Station) (cpu channel : Nat) (bed : Bed) : Station :=
  let (system,result) := processSleepOn st.system cpu channel
  match currentLocal st.system cpu with
  | none => {st with system}
  | some c =>
    {st with system,asleep := if result = waitBlocked then Function.update st.asleep c (some bed) else st.asleep}

def sectionStep (st : Station) : Section → Station
  | .send receiverPid senderPid data =>
    let (_,queue,result) := ipcSend st.system st.queue receiverPid senderPid data
    {st with queue,pending := if result < 0 then st.pending else (ipcWaitChannelBase + receiverPid)::st.pending}
  | .recv receiverPid capacity => {st with queue := (ipcRecv st.queue receiverPid capacity).1}
  | .recvBlocking cpu capacity =>
    let receiverPid := currentPid st.system cpu
    if receiverPid = 0 ∨ capacity = 0 then st
    else match findMessage st.queue receiverPid with
      | some i => {st with
          queue := (takeMessage st.queue i capacity).1,pending := (ipcWaitChannelBase + receiverPid)::st.pending}
      | none => st.sleep cpu (ipcWaitChannelBase + receiverPid) .ipc
  | .pipeCreate ownerPid =>
    match pipeCreate st.pipes ownerPid with
    | none => st
    | some (pipes,_,_) => {st with pipes}
  | .pipeRead cpu handle capacity =>
    match decode handle with
    | none => st
    | some (id,side) =>
      let p := st.pipes id
      if side ≠ 0 ∨ capacity = 0 then st
      else if p.used = false ∨ p.ownerPid ≠ currentPid st.system cpu then st
      else if p.count ≠ 0 then
        {st with pipes := (pipeRead st.system st.pipes cpu handle capacity).2.1,pending := pipeChannel id 1::st.pending}
      else if p.writers = 0 then st
      else st.sleep cpu (pipeChannel id 0) (.pipeRead id)
  | .pipeWrite cpu handle left =>
    match decode handle with
    | none => st
    | some (id,side) =>
      let p := st.pipes id
      if side = 0 ∨ left = [] then st
      else if p.used = false ∨ p.ownerPid ≠ currentPid st.system cpu ∨ p.readers = 0 then st
      else if pipeBuffer - p.count ≠ 0 then
        let n := min left.length (pipeBuffer - p.count)
        let p := pushBytes p (left.take n)
        {st with pipes := Function.update st.pipes id {p with count := p.count + n},pending := pipeChannel id 0::st.pending}
      else st.sleep cpu (pipeChannel id 1) (.pipeWrite id)
  | .pipeClose cpu handle =>
    match decode handle with
    | none => st
    | some (id,_) =>
      let (_,pipes,result) := pipeClose st.system st.pipes cpu handle
      {st with
        pipes,pending := if result < 0 then st.pending else pipeChannel id 0::pipeChannel id 1::st.pending}
  | .mouseEvent event =>
    let (_,mouse) := mouseEventPush st.system st.mouse event
    let full := (st.mouse.writeIdx + 1) % mouseEventBufferSize = st.mouse.readIdx
    {st with mouse,pending := if st.mouse.ready = false ∨ full then st.pending else st.mouse.channel::st.pending}
  | .mouseRead cpu =>
    if st.mouse.ready = false then st
    else if st.mouse.readIdx ≠ st.mouse.writeIdx then
      {st with mouse := (mouseReadEvent st.system st.mouse cpu).2.1}
    else st.sleep cpu st.mouse.channel .mouse
  | .process call => {st with
      system := step st.system call
      asleep := fun i =>
        if currentLocal st.system 0 = some i ∧ blocks st.system call = true then none else st.asleep i}
  | .wakeup channel =>
    if channel ∈ st.pending then
      {st with system := processWakeup st.system channel,pending := st.pending.erase channel}
    else st

/-- The channel on which a task sleeps. -/
def Station.channel (st : Station) (i : Slot) : Bed → Nat
  | .ipc => ipcWaitChannelBase + (st.system.processes i).pid
  | .pipeRead id => pipeChannel id 0
  | .pipeWrite id => pipeChannel id 1
  | .mouse => st.mouse.channel

/-- There is nothing for a task to get up for. -/
def Station.Quiet (st : Station) (i : Slot) : Bed → Prop
  | .ipc => ∀ j, j < ipcQueueMax → (st.queue j).used = true →
      (st.queue j).receiverPid ≠ (st.system.processes i).pid
  | .pipeRead id => (st.pipes id).used = true ∧ (st.pipes id).count = 0 ∧ (st.pipes id).writers ≠ 0
  | .pipeWrite id => (st.pipes id).used = true ∧ pipeBuffer ≤ (st.pipes id).count ∧ (st.pipes id).readers ≠ 0
  | .mouse => st.mouse.readIdx = st.mouse.writeIdx

/-- A task in its bed sleeps on the channel of the bed, and either there is nothing to
get up for or a wakeup of that channel is owed. -/
structure Guarded (st : Station) (i : Slot) (bed : Bed) : Prop where
  channel : (st.system.processes i).waitChannel = wrap (st.channel i bed)
  nonzero : wrap (st.channel i bed) ≠ 0
  watched : st.Quiet i bed ∨ st.channel i bed ∈ st.pending

structure Watched (st : Station) : Prop where
  counter : st.system.nextTid ≠ 0
  idle : st.asleep bootstrap = none
  guarded : ∀ {i bed}, (st.system.processes i).state = .waiting → st.asleep i = some bed → Guarded st i bed

theorem Watched.data {st st' : Station} (watched : Watched st) (system : st'.system = st.system)
    (asleep : st'.asleep = st.asleep) (channel : st'.mouse.channel = st.mouse.channel)
    (owed : ∀ c, c ∈ st.pending → c ∈ st'.pending)
    (quiet : ∀ i bed, st.Quiet i bed → st'.Quiet i bed ∨ st.channel i bed ∈ st'.pending) : Watched st' := by
  obtain ⟨counter,idle,guarded⟩ := watched
  have same (i : Slot) (bed : Bed) : st'.channel i bed = st.channel i bed := by
    cases bed <;> simp only [Station.channel,system,channel]
  refine ⟨by rwa [system],by rwa [asleep],?_⟩
  intro i bed waiting lies
  rw [system] at waiting
  rw [asleep] at lies
  obtain ⟨sleeps,nonzero,still⟩ := guarded waiting lies
  refine ⟨by rw [system,same,sleeps],by rwa [same],?_⟩
  rw [same]
  rcases still with still | owes
  · exact quiet i bed still
  · exact .inr (owed _ owes)

theorem sleep_cases (st : Station) (cpu channel : Nat) (bed : Bed) :
    st.sleep cpu channel bed = st ∨
      ∃ c, currentLocal st.system cpu = some c ∧ c ≠ bootstrap ∧ wrap channel ≠ 0 ∧
        st.sleep cpu channel bed = {st with
          system := setProcess st.system c {st.system.processes c with waitChannel := wrap channel,state := .waiting}
          asleep := Function.update st.asleep c (some bed)} := by
  unfold Station.sleep processSleepOn
  cases running : currentLocal st.system cpu with
  | none =>
    left
    dsimp only
    split <;> rfl
  | some c =>
    dsimp only
    split
    next => exact .inl rfl
    next nonzero =>
      split
      next => exact .inl rfl
      next valid =>
        rw [not_or] at valid
        exact .inr ⟨c,rfl,valid.1,nonzero,rfl⟩

section Tasks
variable {st st' : Station} {i : Slot} {bed : Bed}

theorem channel_congr (pid : (st'.system.processes i).pid = (st.system.processes i).pid) (mouse : st'.mouse = st.mouse) :
    st'.channel i bed = st.channel i bed := by
  cases bed <;> simp only [Station.channel,pid,mouse]

theorem quiet_congr (pid : (st'.system.processes i).pid = (st.system.processes i).pid) (queue : st'.queue = st.queue)
    (pipes : st'.pipes = st.pipes) (mouse : st'.mouse = st.mouse) (quiet : st.Quiet i bed) : st'.Quiet i bed := by
  cases bed <;> simpa only [Station.Quiet,pid,queue,pipes,mouse] using quiet

/-- A section that leaves the data of the channels alone keeps the guard of a task whose
record it does not change. -/
theorem Guarded.kept (guarded : Guarded st i bed)
    (waitChannel : (st'.system.processes i).waitChannel = (st.system.processes i).waitChannel)
    (pid : (st'.system.processes i).pid = (st.system.processes i).pid) (queue : st'.queue = st.queue)
    (pipes : st'.pipes = st.pipes) (mouse : st'.mouse = st.mouse)
    (owed : st.channel i bed ∈ st.pending → st.channel i bed ∈ st'.pending) : Guarded st' i bed := by
  obtain ⟨sleeps,nonzero,still⟩ := guarded
  have channel : st'.channel i bed = st.channel i bed := channel_congr pid mouse
  refine ⟨by rw [waitChannel,channel,sleeps],by rwa [channel],?_⟩
  rw [channel]
  rcases still with still | owes
  · exact .inl (quiet_congr pid queue pipes mouse still)
  · exact .inr (owed owes)

end Tasks

theorem Watched.sleep {st : Station} (watched : Watched st) {cpu channel : Nat} {bed : Bed}
    (found : ∀ c, currentLocal st.system cpu = some c → st.channel c bed = channel ∧ st.Quiet c bed) :
    Watched (st.sleep cpu channel bed) := by
  rcases sleep_cases st cpu channel bed with same | ⟨c,running,ordinary,nonzero,slept⟩
  · rwa [same]
  · obtain ⟨own,nothing⟩ := found c running
    obtain ⟨counter,idle,guarded⟩ := watched
    rw [slept]
    refine ⟨counter,?_,?_⟩
    · dsimp only
      rwa [Function.update_of_ne (Ne.symm ordinary)]
    · intro i bed' waiting lies
      dsimp only [setProcess] at waiting lies
      by_cases mine : i = c
      · subst mine
        rw [Function.update_self] at lies
        cases lies
        subst own
        let st' : Station := {st with
          system := setProcess st.system i {st.system.processes i with
            waitChannel := wrap (st.channel i bed),state := .waiting}
          asleep := Function.update st.asleep i (some bed)}
        have record : st'.system.processes i = {st.system.processes i with
            waitChannel := wrap (st.channel i bed),state := .waiting} := Function.update_self _ _ _
        have pid : (st'.system.processes i).pid = (st.system.processes i).pid := by rw [record]
        have channel : st'.channel i bed = st.channel i bed := channel_congr pid rfl
        refine ⟨?_,?_,.inl (quiet_congr pid rfl rfl rfl nothing)⟩
        · rw [show Station.channel _ i bed = _ from channel,show (Station.system _).processes i = _ from record]
        · rwa [show Station.channel _ i bed = _ from channel]
      · rw [Function.update_of_ne mine] at waiting lies
        refine (guarded waiting lies).kept ?_ ?_ rfl rfl rfl id
        · simp only [setProcess,Function.update_of_ne mine]
        · simp only [setProcess,Function.update_of_ne mine]

/-- A task that waits after a call and did not block in it was waiting on the same
channel before. -/
theorem effect_waiting {s : System} {call : Call} {i : Slot} {p : Process} (effect : Effect s call i p)
    (other : ¬ (currentLocal s 0 = some i ∧ blocks s call = true)) (waiting : p.state = .waiting) :
    (s.processes i).state = .waiting ∧ p.waitChannel = (s.processes i).waitChannel ∧ p.pid = (s.processes i).pid := by
  have frame {c : Control} (same : p.control = c) : p.state = c.state ∧ p.waitChannel = c.waitChannel ∧ p.pid = c.pid := by
    subst same
    exact ⟨rfl,rfl,rfl⟩
  cases effect with
  | kept same _ =>
    obtain ⟨state,rest⟩ := frame same
    exact ⟨state.symm.trans waiting,rest⟩
  | scheduled change =>
    cases change with
    | kept same _ =>
      obtain ⟨state,rest⟩ := frame same
      exact ⟨state.symm.trans waiting,rest⟩
    | dispatched _ same => cases (frame same).1.symm.trans waiting
    | preempted _ _ same => cases (frame same).1.symm.trans waiting
    | reaped _ _ _ cleared => cases (frame cleared).1.symm.trans waiting
  | spawned _ fresh => cases fresh.ready.symm.trans waiting
  | replaced _ _ same =>
    obtain ⟨state,rest⟩ := frame same
    exact ⟨state.symm.trans waiting,rest⟩
  | terminated _ same _ => cases (frame same).1.symm.trans waiting
  | parentReleased => cases waiting
  | joinerReleased => cases waiting
  | woken => cases waiting
  | waits caller _ _ blocked => exact absurd ⟨caller,blocked⟩ other
  | joins caller _ _ blocked => exact absurd ⟨caller,blocked⟩ other
  | sleeps caller _ _ blocked => exact absurd ⟨caller,blocked⟩ other
  | reaped => cases waiting
  | stopped _ same _ => cases (frame same).1.symm.trans waiting
  | continued _ _ same _ => cases (frame same).1.symm.trans waiting

theorem Watched.process {st : Station} (watched : Watched st) (call : Call) :
    Watched (sectionStep st (.process call)) := by
  obtain ⟨counter,idle,guarded⟩ := watched
  refine ⟨step_counter st.system counter call,?_,?_⟩
  · simp only [sectionStep,idle,ite_self]
  · intro i bed waiting lies
    simp only [sectionStep] at waiting lies
    split at lies
    · cases lies
    next other =>
      obtain ⟨before,waitChannel,pid⟩ := effect_waiting (step_effect st.system counter call i) other waiting
      exact (guarded before lies).kept waitChannel pid rfl rfl rfl id

theorem Watched.wakeup {st : Station} (watched : Watched st) (channel : Nat) :
    Watched (sectionStep st (.wakeup channel)) := by
  simp only [sectionStep]
  split
  · obtain ⟨counter,idle,guarded⟩ := watched
    have effect (i : Slot) := processWakeup_effect st.system channel i
    refine ⟨?_,idle,?_⟩
    · exact step_counter st.system counter (.wakeup channel)
    · intro i bed waiting lies
      dsimp only at waiting lies
      have quiet : ¬ (currentLocal st.system 0 = some i ∧ blocks st.system (.wakeup channel) = true) := by
        rintro ⟨_,blocked⟩
        cases blocked
      obtain ⟨before,waitChannel,pid⟩ := effect_waiting (effect i) quiet waiting
      have guard := guarded before lies
      refine guard.kept waitChannel pid rfl rfl rfl ?_
      intro owes
      have other : st.channel i bed ≠ channel := by
        rintro rfl
        have ordinary : i ≠ bootstrap := by
          rintro rfl
          rw [idle] at lies
          cases lies
        have up : ((processWakeup st.system (st.channel i bed)).processes i).state = .ready := by
          simp only [processWakeup,if_neg guard.nonzero,if_neg ordinary,wakeOn]
          rw [if_pos ⟨before,guard.channel⟩]
        rw [up] at waiting
        cases waiting
      exact (List.mem_erase_of_ne other).mpr owes
  · exact watched

theorem Watched.send {st : Station} (watched : Watched st) (receiverPid senderPid : Nat) (data : List Byte) :
    Watched (sectionStep st (.send receiverPid senderPid data)) := by
  rcases ipcSend_cases st.system st.queue receiverPid senderPid data with ⟨k,_,_,result⟩ | refused
  · have accepted : ¬ (data.length : Int) < 0 := by omega
    simp only [sectionStep,result,if_neg accepted]
    refine watched.data rfl rfl rfl (fun c member => List.mem_cons_of_mem _ member) ?_
    intro i bed quiet
    cases bed with
    | ipc =>
      by_cases addressed : receiverPid = (st.system.processes i).pid
      · right
        rw [addressed]
        exact List.mem_cons_self
      · left
        intro j bound used
        dsimp only at used ⊢
        by_cases stored : j = k
        · subst stored
          rwa [Function.update_self]
        · rw [Function.update_of_ne stored] at used ⊢
          exact quiet j bound used
    | pipeRead id => exact .inl quiet
    | pipeWrite id => exact .inl quiet
    | mouse => exact .inl quiet
  · simp only [sectionStep,refused]
    exact watched

theorem Watched.drained {st : Station} (watched : Watched st) (queue : IpcQueue) (pending : List Nat)
    (owed : ∀ c, c ∈ st.pending → c ∈ pending)
    (left : ∀ j, (queue j).used = true → (st.queue j).used = true ∧ (queue j).receiverPid = (st.queue j).receiverPid) :
    Watched {st with queue,pending} := by
  refine watched.data rfl rfl rfl owed ?_
  intro i bed quiet
  left
  cases bed with
  | ipc =>
    intro j bound used
    obtain ⟨before,same⟩ := left j used
    dsimp only
    rw [same]
    exact quiet j bound before
  | pipeRead id => exact quiet
  | pipeWrite id => exact quiet
  | mouse => exact quiet

theorem takeMessage_left {q : IpcQueue} {i capacity j : Nat} (used : ((takeMessage q i capacity).1 j).used = true) :
    (q j).used = true ∧ ((takeMessage q i capacity).1 j).receiverPid = (q j).receiverPid := by
  unfold takeMessage at used ⊢
  dsimp only at used ⊢
  by_cases own : j = i
  · subst own
    rw [Function.update_self] at used
    cases used
  · rw [Function.update_of_ne own] at used ⊢
    exact ⟨used,rfl⟩

theorem Watched.recv {st : Station} (watched : Watched st) (receiverPid capacity : Nat) :
    Watched (sectionStep st (.recv receiverPid capacity)) := by
  have cases' := receive_cases ⟨receiverPid,capacity,none⟩ st.queue
  simp only [Receive.apply] at cases'
  rcases cases' with ⟨k,_,result⟩ | ⟨e,refused,_⟩
  · simp only [sectionStep,result]
    refine watched.drained _ st.pending (fun _ member => member) ?_
    intro j used
    exact takeMessage_left used
  · simp only [sectionStep,refused]
    exact watched

theorem Watched.recvBlocking {st : Station} (watched : Watched st) (cpu capacity : Nat) :
    Watched (sectionStep st (.recvBlocking cpu capacity)) := by
  simp only [sectionStep]
  split
  · exact watched
  split
  next k _ =>
    refine watched.drained _ _ (fun _ member => List.mem_cons_of_mem _ member) ?_
    intro j used
    exact takeMessage_left used
  next absent =>
    refine watched.sleep ?_
    intro c running
    have pid : currentPid st.system cpu = (st.system.processes c).pid := by
      simp only [currentPid,running]
    refine ⟨by rw [pid]; rfl,?_⟩
    intro j bound used own
    have unmatched := find_range_none.mp absent j bound
    simp [used,own,pid] at unmatched

theorem Watched.piped {st : Station} (watched : Watched st) {id : Nat} {p : PipeState} {pending : List Nat}
    (owed : ∀ c, c ∈ st.pending → c ∈ pending)
    (readers : (st.pipes id).used = true → (st.pipes id).count = 0 → (st.pipes id).writers ≠ 0 →
      p.used = true ∧ p.count = 0 ∧ p.writers ≠ 0 ∨ pipeChannel id 0 ∈ pending)
    (writers : (st.pipes id).used = true → pipeBuffer ≤ (st.pipes id).count → (st.pipes id).readers ≠ 0 →
      p.used = true ∧ pipeBuffer ≤ p.count ∧ p.readers ≠ 0 ∨ pipeChannel id 1 ∈ pending) :
    Watched {st with pipes := Function.update st.pipes id p,pending} := by
  refine watched.data rfl rfl rfl owed ?_
  intro i bed quiet
  cases bed with
  | ipc => exact .inl quiet
  | pipeRead k =>
    by_cases own : k = id
    · subst own
      simpa only [Station.Quiet,Station.channel,Function.update_self] using readers quiet.1 quiet.2.1 quiet.2.2
    · left
      simpa only [Station.Quiet,Function.update_of_ne own] using quiet
  | pipeWrite k =>
    by_cases own : k = id
    · subst own
      simpa only [Station.Quiet,Station.channel,Function.update_self] using writers quiet.1 quiet.2.1 quiet.2.2
    · left
      simpa only [Station.Quiet,Function.update_of_ne own] using quiet
  | mouse => exact .inl quiet

theorem Watched.pipeCreate {st : Station} (watched : Watched st) (ownerPid : Nat) :
    Watched (sectionStep st (.pipeCreate ownerPid)) := by
  simp only [sectionStep]
  split
  · exact watched
  next pipes _ _ given =>
    unfold Channels.pipeCreate at given
    split at given
    · cases given
    split at given
    · cases given
    next k free =>
      cases given
      obtain ⟨_,unused,_⟩ := find_range.mp free
      rw [Bool.not_eq_true'] at unused
      have closed {P : Prop} (used : (st.pipes k).used = true) : P := by
        rw [unused] at used
        cases used
      exact watched.piped (fun _ member => member) (fun used => closed used) (fun used => closed used)

theorem Watched.pipeRead {st : Station} (watched : Watched st) (cpu handle capacity : Nat) :
    Watched (sectionStep st (.pipeRead cpu handle capacity)) := by
  simp only [sectionStep]
  split
  · exact watched
  next k side target =>
    split
    · exact watched
    next valid =>
      split
      · exact watched
      next own =>
        split
        next given =>
          have taken : (Channels.pipeRead st.system st.pipes cpu handle capacity).2.1 = Function.update st.pipes k
              {(popBytes (st.pipes k) (min (st.pipes k).count capacity)).1 with
                count := (popBytes (st.pipes k) (min (st.pipes k).count capacity)).1.count -
                  min (st.pipes k).count capacity} := by
            simp only [Channels.pipeRead,target,if_neg valid,if_neg own,if_pos given]
          rw [taken]
          refine watched.piped (fun _ member => List.mem_cons_of_mem _ member) ?_ ?_
          · intro _ empty
            exact absurd empty given
          · intro _ _ _
            exact .inr List.mem_cons_self
        next empty =>
          rw [not_not] at empty
          split
          · exact watched
          next open' =>
            rw [not_or,Bool.not_eq_false,not_not] at own
            refine watched.sleep ?_
            intro c _
            exact ⟨rfl,own.1,empty,open'⟩

theorem Watched.pipeWrite {st : Station} (watched : Watched st) (cpu handle : Nat) (data : List Byte) :
    Watched (sectionStep st (.pipeWrite cpu handle data)) := by
  simp only [sectionStep]
  split
  · exact watched
  next k side target =>
    split
    · exact watched
    split
    · exact watched
    next own =>
      split
      next room =>
        refine watched.piped (fun _ member => List.mem_cons_of_mem _ member) ?_ ?_
        · intro _ _ _
          exact .inr List.mem_cons_self
        · intro _ full
          omega
      next full =>
        rw [not_or,not_or,Bool.not_eq_false] at own
        refine watched.sleep ?_
        intro c _
        exact ⟨rfl,own.1,by omega,own.2.2⟩

theorem Watched.pipeClose {st : Station} (watched : Watched st) (cpu handle : Nat) :
    Watched (sectionStep st (.pipeClose cpu handle)) := by
  simp only [sectionStep]
  split
  · exact watched
  next k side target =>
    simp only [Channels.pipeClose,target]
    split
    · exact watched
    · refine watched.piped ?_ ?_ ?_
      · intro c member
        exact List.mem_cons_of_mem _ (List.mem_cons_of_mem _ member)
      · intro _ _ _
        exact .inr List.mem_cons_self
      · intro _ _ _
        exact .inr (List.mem_cons_of_mem _ List.mem_cons_self)

theorem Watched.mouseEvent {st : Station} (watched : Watched st) (event : MouseEvent) :
    Watched (sectionStep st (.mouseEvent event)) := by
  simp only [sectionStep,mouseEventPush]
  by_cases off : st.mouse.ready = false
  · simp only [if_pos off,if_pos (Or.inl off)]
    exact watched
  by_cases full : (st.mouse.writeIdx + 1) % mouseEventBufferSize = st.mouse.readIdx
  · simp only [if_neg off,if_pos full,if_pos (Or.inr full)]
    refine watched.data rfl rfl rfl (fun _ member => member) ?_
    intro i bed quiet
    cases bed <;> exact .inl quiet
  · simp only [if_neg off,if_neg full,if_neg (not_or.mpr ⟨off,full⟩)]
    refine watched.data rfl rfl rfl (fun _ member => List.mem_cons_of_mem _ member) ?_
    intro i bed quiet
    cases bed with
    | ipc => exact .inl quiet
    | pipeRead id => exact .inl quiet
    | pipeWrite id => exact .inl quiet
    | mouse => exact .inr List.mem_cons_self

theorem Watched.mouseRead {st : Station} (watched : Watched st) (cpu : Nat) :
    Watched (sectionStep st (.mouseRead cpu)) := by
  simp only [sectionStep]
  split
  · exact watched
  next ready =>
    split
    next given =>
      simp only [mouseReadEvent,if_neg ready,if_pos given]
      refine watched.data rfl rfl rfl (fun _ member => member) ?_
      intro i bed quiet
      cases bed with
      | ipc => exact .inl quiet
      | pipeRead id => exact .inl quiet
      | pipeWrite id => exact .inl quiet
      | mouse => exact absurd quiet given
    next empty =>
      refine watched.sleep ?_
      intro c _
      exact ⟨rfl,not_not.mp empty⟩

theorem watched_step {st : Station} (watched : Watched st) (sec : Section) : Watched (sectionStep st sec) := by
  cases sec with
  | send receiverPid senderPid data => exact watched.send receiverPid senderPid data
  | recv receiverPid capacity => exact watched.recv receiverPid capacity
  | recvBlocking cpu capacity => exact watched.recvBlocking cpu capacity
  | pipeCreate ownerPid => exact watched.pipeCreate ownerPid
  | pipeRead cpu handle capacity => exact watched.pipeRead cpu handle capacity
  | pipeWrite cpu handle left => exact watched.pipeWrite cpu handle left
  | pipeClose cpu handle => exact watched.pipeClose cpu handle
  | mouseEvent event => exact watched.mouseEvent event
  | mouseRead cpu => exact watched.mouseRead cpu
  | process call => exact watched.process call
  | wakeup channel => exact watched.wakeup channel

/-- The tasks after `process_init`, over any contents of the channels. -/
def bootStation (s : System) (idle schedule : Nat) (queue : IpcQueue) (pipes : Pipes) (mouse : Mouse) : Station :=
  ⟨boot s idle schedule,queue,pipes,mouse,[],fun _ => none⟩

/-- The first process waits for a message and another one sends it one. -/
def addressedSleeper : List Section :=
  (launch (boot blank 0x1000 0x2000)).map .process ++ [.recvBlocking 0 8,.send 2 3 [7]]

def stillMouse : Mouse := ⟨false,fun _ => default,0,0,0,1⟩

/-- A call that nobody comes between does what its sections and their wakeups do. -/
structure Amounts (st : Station) (sections : List Section) (system : System) (queue : IpcQueue) (pipes : Pipes)
    (mouse : Mouse) : Prop where
  system : (run sectionStep st sections).system = system
  queue : (run sectionStep st sections).queue = queue
  pipes : (run sectionStep st sections).pipes = pipes
  mouse : (run sectionStep st sections).mouse = mouse
  pending : (run sectionStep st sections).pending = st.pending

theorem sleep_amounts (st : Station) (cpu channel : Nat) (bed : Bed) :
    (st.sleep cpu channel bed).system = (processSleepOn st.system cpu channel).1 ∧
      (st.sleep cpu channel bed).queue = st.queue ∧ (st.sleep cpu channel bed).pipes = st.pipes ∧
      (st.sleep cpu channel bed).mouse = st.mouse ∧ (st.sleep cpu channel bed).pending = st.pending := by
  unfold Station.sleep
  dsimp only
  split
  · exact ⟨rfl,rfl,rfl,rfl,rfl⟩
  · exact ⟨rfl,rfl,rfl,rfl,rfl⟩

theorem Amounts.nothing (st : Station) : Amounts st [] st.system st.queue st.pipes st.mouse :=
  ⟨rfl,rfl,rfl,rfl,rfl⟩

theorem ipcSend_sections (st : Station) (receiverPid senderPid : Nat) (data : List Byte) :
    ∃ sections, Amounts st sections (ipcSend st.system st.queue receiverPid senderPid data).1
      (ipcSend st.system st.queue receiverPid senderPid data).2.1 st.pipes st.mouse := by
  cases free : freeMessage st.queue with
  | none =>
    refine ⟨[],?_⟩
    have refused : ipcSend st.system st.queue receiverPid senderPid data = (st.system,st.queue,-1) := by
      simp only [ipcSend,free,ite_self]
    rw [refused]
    exact .nothing st
  | some i =>
    by_cases bad : receiverPid = 0 ∨ data = [] ∨ data.length > ipcMessageMax
    · refine ⟨[],?_⟩
      rw [ipcSend,if_pos bad]
      exact .nothing st
    · refine ⟨[.send receiverPid senderPid data,.wakeup (ipcWaitChannelBase + receiverPid)],?_⟩
      have accepted : ¬ (data.length : Int) < 0 := by omega
      simp only [ipcSend,if_neg bad,free]
      refine ⟨?_,?_,?_,?_,?_⟩ <;>
        simp only [run_cons,run_nil,sectionStep,ipcSend,if_neg bad,free,if_neg accepted,List.mem_cons_self,if_true,
          List.erase_cons_head]

theorem ipcRecvBlocking_sections (st : Station) (cpu capacity : Nat) :
    ∃ sections, Amounts st sections (ipcRecvBlocking st.system st.queue cpu (currentPid st.system cpu) capacity).1
      (ipcRecvBlocking st.system st.queue cpu (currentPid st.system cpu) capacity).2.1 st.pipes st.mouse := by
  by_cases bad : currentPid st.system cpu = 0 ∨ capacity = 0
  · refine ⟨[],?_⟩
    rw [ipcRecvBlocking,if_pos bad]
    exact .nothing st
  cases found : findMessage st.queue (currentPid st.system cpu) with
  | none =>
    refine ⟨[.recvBlocking cpu capacity],?_⟩
    obtain ⟨system,queue,pipes,mouse,pending⟩ :=
      sleep_amounts st cpu (ipcWaitChannelBase + currentPid st.system cpu) .ipc
    simp only [ipcRecvBlocking,if_neg bad,found]
    refine ⟨?_,?_,?_,?_,?_⟩ <;> simpa only [run_cons,run_nil,sectionStep,if_neg bad,found]
  | some i =>
    refine ⟨[.recvBlocking cpu capacity,.wakeup (ipcWaitChannelBase + currentPid st.system cpu)],?_⟩
    simp only [ipcRecvBlocking,if_neg bad,found]
    refine ⟨?_,?_,?_,?_,?_⟩ <;>
      simp only [run_cons,run_nil,sectionStep,if_neg bad,found,List.mem_cons_self,if_true,List.erase_cons_head]

theorem pipeRead_sections (st : Station) (cpu handle capacity : Nat) :
    ∃ sections, Amounts st sections (pipeRead st.system st.pipes cpu handle capacity).1 st.queue
      (pipeRead st.system st.pipes cpu handle capacity).2.1 st.mouse := by
  cases target : decode handle with
  | none =>
    refine ⟨[],?_⟩
    simp only [pipeRead,target]
    exact .nothing st
  | some end' =>
    obtain ⟨id,side⟩ := end'
    by_cases bad : side ≠ 0 ∨ capacity = 0
    · refine ⟨[],?_⟩
      simp only [pipeRead,target,if_pos bad]
      exact .nothing st
    by_cases other : (st.pipes id).used = false ∨ (st.pipes id).ownerPid ≠ currentPid st.system cpu
    · refine ⟨[],?_⟩
      simp only [pipeRead,target,if_neg bad,if_pos other]
      exact .nothing st
    by_cases given : (st.pipes id).count ≠ 0
    · refine ⟨[.pipeRead cpu handle capacity,.wakeup (pipeChannel id 1)],?_⟩
      refine ⟨?_,?_,?_,?_,?_⟩ <;>
        simp only [run_cons,run_nil,sectionStep,pipeRead,target,if_neg bad,if_neg other,if_pos given,
          List.mem_cons_self,if_true,List.erase_cons_head]
    by_cases closed : (st.pipes id).writers = 0
    · refine ⟨[],?_⟩
      simp only [pipeRead,target,if_neg bad,if_neg other,if_neg given,if_pos closed]
      exact .nothing st
    · refine ⟨[.pipeRead cpu handle capacity],?_⟩
      obtain ⟨system,queue,pipes,mouse,pending⟩ := sleep_amounts st cpu (pipeChannel id 0) (.pipeRead id)
      simp only [pipeRead,target,if_neg bad,if_neg other,if_neg given,if_neg closed]
      refine ⟨?_,?_,?_,?_,?_⟩ <;>
        simpa only [run_cons,run_nil,sectionStep,target,if_neg bad,if_neg other,if_neg given,if_neg closed]

theorem pipeWriteLoop_sections {cpu handle id side : Nat} (target : decode handle = some (id,side)) (half : side ≠ 0)
    (fuel : Nat) (st : Station) (left : List Byte) (done : Nat) (more : left ≠ []) :
    ∃ sections, Amounts st sections (pipeWriteLoop cpu id fuel st.system st.pipes left done).1 st.queue
      (pipeWriteLoop cpu id fuel st.system st.pipes left done).2.1 st.mouse := by
  induction fuel generalizing st left done with
  | zero => exact ⟨[],.nothing st⟩
  | succ fuel ih =>
    have bad : ¬ (side = 0 ∨ left = []) := not_or.mpr ⟨half,more⟩
    by_cases other : (st.pipes id).used = false ∨ (st.pipes id).ownerPid ≠ currentPid st.system cpu ∨
        (st.pipes id).readers = 0
    · refine ⟨[],?_⟩
      simp only [pipeWriteLoop,if_pos other]
      exact .nothing st
    by_cases space : pipeBuffer - (st.pipes id).count ≠ 0
    · generalize size : min left.length (pipeBuffer - (st.pipes id).count) = n
      let next : Station := {st with
        system := processWakeup st.system (pipeChannel id 0)
        pipes := Function.update st.pipes id {pushBytes (st.pipes id) (left.take n) with
          count := (pushBytes (st.pipes id) (left.take n)).count + n}}
      have round : run sectionStep st [.pipeWrite cpu handle left,.wakeup (pipeChannel id 0)] = next := by
        simp only [run_cons,run_nil,sectionStep,target,if_neg bad,if_neg other,if_pos space,size,
          List.mem_cons_self,if_true,List.erase_cons_head,next]
      by_cases last : left.length ≤ n
      · refine ⟨[.pipeWrite cpu handle left,.wakeup (pipeChannel id 0)],?_⟩
        simp only [pipeWriteLoop,if_neg other,if_pos space,size,if_pos last]
        refine ⟨?_,?_,?_,?_,?_⟩ <;> rw [round]
      · have rest : left.drop n ≠ [] := by
          rw [ne_eq,List.drop_eq_nil_iff]
          exact last
        obtain ⟨sections,system,queue,pipes,mouse,pending⟩ := ih next (left.drop n) (done + n) rest
        refine ⟨[.pipeWrite cpu handle left,.wakeup (pipeChannel id 0)] ++ sections,?_⟩
        simp only [pipeWriteLoop,if_neg other,if_pos space,size,if_neg last]
        refine ⟨?_,?_,?_,?_,?_⟩ <;> rw [run_append,round]
        · exact system
        · exact queue
        · exact pipes
        · exact mouse
        · exact pending
    · refine ⟨[.pipeWrite cpu handle left],?_⟩
      obtain ⟨system,queue,pipes,mouse,pending⟩ := sleep_amounts st cpu (pipeChannel id 1) (.pipeWrite id)
      simp only [pipeWriteLoop,if_neg other,if_neg space]
      refine ⟨?_,?_,?_,?_,?_⟩ <;>
        simpa only [run_cons,run_nil,sectionStep,target,if_neg bad,if_neg other,if_neg space]

theorem pipeWrite_sections (st : Station) (cpu handle : Nat) (data : List Byte) :
    ∃ sections, Amounts st sections (pipeWrite st.system st.pipes cpu handle data).1 st.queue
      (pipeWrite st.system st.pipes cpu handle data).2.1 st.mouse := by
  cases target : decode handle with
  | none =>
    refine ⟨[],?_⟩
    simp only [pipeWrite,target]
    exact .nothing st
  | some end' =>
    obtain ⟨id,side⟩ := end'
    by_cases bad : side = 0 ∨ data = []
    · refine ⟨[],?_⟩
      simp only [pipeWrite,target,if_pos bad]
      exact .nothing st
    · rw [not_or] at bad
      simp only [pipeWrite,target,if_neg (not_or.mpr bad)]
      exact pipeWriteLoop_sections target bad.1 (data.length + 1) st data 0 bad.2

theorem pipeClose_sections (st : Station) (cpu handle : Nat) :
    ∃ sections, Amounts st sections (pipeClose st.system st.pipes cpu handle).1 st.queue
      (pipeClose st.system st.pipes cpu handle).2.1 st.mouse := by
  cases target : decode handle with
  | none =>
    refine ⟨[],?_⟩
    simp only [pipeClose,target]
    exact .nothing st
  | some end' =>
    obtain ⟨id,side⟩ := end'
    by_cases other : (st.pipes id).used = false ∨ (st.pipes id).ownerPid ≠ currentPid st.system cpu
    · refine ⟨[],?_⟩
      simp only [pipeClose,target,if_pos other]
      exact .nothing st
    · refine ⟨[.pipeClose cpu handle,.wakeup (pipeChannel id 0),.wakeup (pipeChannel id 1)],?_⟩
      have closes : ¬ (0 : Int) < 0 := lt_irrefl 0
      refine ⟨?_,?_,?_,?_,?_⟩ <;>
        simp only [run_cons,run_nil,sectionStep,pipeClose,target,if_neg other,if_neg closes,List.mem_cons_self,if_true,
          List.erase_cons_head]

theorem mouseEventPush_sections (st : Station) (event : MouseEvent) :
    ∃ sections, Amounts st sections (mouseEventPush st.system st.mouse event).1 st.queue st.pipes
      (mouseEventPush st.system st.mouse event).2 := by
  by_cases off : st.mouse.ready = false
  · refine ⟨[],?_⟩
    simp only [mouseEventPush,if_pos off]
    exact .nothing st
  by_cases full : (st.mouse.writeIdx + 1) % mouseEventBufferSize = st.mouse.readIdx
  · refine ⟨[.mouseEvent event],?_⟩
    refine ⟨?_,?_,?_,?_,?_⟩ <;>
      simp only [run_cons,run_nil,sectionStep,mouseEventPush,if_neg off,if_pos full,if_pos (Or.inr full)]
  · refine ⟨[.mouseEvent event,.wakeup st.mouse.channel],?_⟩
    refine ⟨?_,?_,?_,?_,?_⟩ <;>
      simp only [run_cons,run_nil,sectionStep,mouseEventPush,if_neg off,if_neg full,if_neg (not_or.mpr ⟨off,full⟩),
        List.mem_cons_self,if_true,List.erase_cons_head]

theorem mouseReadEvent_sections (st : Station) (cpu : Nat) :
    ∃ sections, Amounts st sections (mouseReadEvent st.system st.mouse cpu).1 st.queue st.pipes
      (mouseReadEvent st.system st.mouse cpu).2.1 := by
  by_cases off : st.mouse.ready = false
  · refine ⟨[],?_⟩
    simp only [mouseReadEvent,if_pos off]
    exact .nothing st
  refine ⟨[.mouseRead cpu],?_⟩
  by_cases given : st.mouse.readIdx ≠ st.mouse.writeIdx
  · refine ⟨?_,?_,?_,?_,?_⟩ <;>
      simp only [run_cons,run_nil,sectionStep,mouseReadEvent,if_neg off,if_pos given]
  · obtain ⟨system,queue,pipes,mouse,pending⟩ := sleep_amounts st cpu st.mouse.channel .mouse
    simp only [mouseReadEvent,if_neg off,if_neg given]
    refine ⟨?_,?_,?_,?_,?_⟩ <;> simpa only [run_cons,run_nil,sectionStep,if_neg off,if_neg given]

end LionOS.Channels

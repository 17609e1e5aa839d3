import LionOS.Processes.Joins
import LionOS.Processes.Traits

/-! What belongs to a task: its address space and its stacks. The scheduler leaves all of it
alone, but for the kernel stack that a task had before it replaced its program. -/
namespace LionOS.Processes
open LionOS.Memory LionOS.Physical LionOS.Paging LionOS.Library

structure Estate where
  home : Home
  isThread : Bool
  threadGroupPid : Nat
  threadStackPage : Nat
  threadStackVa : Nat
  reapPending : Bool
  deferredKernelStack : Nat

def Process.estate (p : Process) : Estate where
  home := p.home
  isThread := p.isThread
  threadGroupPid := p.threadGroupPid
  threadStackPage := p.threadStackPage
  threadStackVa := p.threadStackVa
  reapPending := p.reapPending
  deferredKernelStack := p.deferredKernelStack

/-- Every task lives on with what belongs to it. -/
structure Lives (s s' : System) : Prop where
  estates : ∀ i, (s'.processes i).estate = (s.processes i).estate
  live : ∀ i, (s.processes i).state ≠ .unused → (s'.processes i).state ≠ .unused

/-- Nothing happens to memory, and the CPU keeps its task. -/
structure Mild (s s' : System) : Prop where
  lives : Lives s s'
  vm : s'.vm = s.vm
  current : s'.currentByCpu = s.currentByCpu

/-- A switch between tasks: nothing happens to memory, and the CPU runs in the address space
of the task that it has been given. -/
structure Moves (s s' : System) : Prop where
  lives : Lives s s'
  mem : s'.vm.mem = s.vm.mem
  pages : s'.vm.pages = s.vm.pages
  directory : (currentLocal s' 0 = currentLocal s 0 ∧ s'.vm.currentDirectory 0 = s.vm.currentDirectory 0) ∨
    ∃ n, currentLocal s' 0 = some n ∧
      ((s.processes n).pageDirectory ≠ 0 → s'.vm.currentDirectory 0 = (s.processes n).pageDirectory)

section Records
variable {s s' t : System}

theorem Lives.table (table : s'.processes = s.processes) : Lives s s' :=
  ⟨fun i => by rw [table],fun i => by rw [table]; exact id⟩

theorem Lives.trans (first : Lives s s') (second : Lives s' t) : Lives s t :=
  ⟨fun i => (second.estates i).trans (first.estates i),fun i taken => second.live i (first.live i taken)⟩

theorem Lives.update {c : Slot} {p : Process} (table : s'.processes = Function.update s.processes c p)
    (same : p.estate = (s.processes c).estate) (live : p.state ≠ .unused) : Lives s s' := by
  constructor
  · intro i
    rw [table]
    by_cases own : i = c
    · subst own
      rw [Function.update_self]
      exact same
    · rw [Function.update_of_ne own]
  · intro i taken
    rw [table]
    by_cases own : i = c
    · subst own
      rw [Function.update_self]
      exact live
    · rwa [Function.update_of_ne own]

theorem Lives.directory (lives : Lives s s') (i : Slot) : (s'.processes i).pageDirectory = (s.processes i).pageDirectory :=
  congrArg (Home.pageDirectory ∘ Estate.home) (lives.estates i)

theorem Mild.refl (s : System) : Mild s s := ⟨.table rfl,rfl,rfl⟩

theorem Mild.trans (first : Mild s s') (second : Mild s' t) : Mild s t :=
  ⟨first.lives.trans second.lives,second.vm.trans first.vm,second.current.trans first.current⟩

theorem setProcess_mild (s : System) (c : Slot) {p : Process} (same : p.estate = (s.processes c).estate)
    (live : (s.processes c).state ≠ .unused → p.state ≠ .unused) : Mild s (setProcess s c p) := by
  refine ⟨⟨?_,?_⟩,rfl,rfl⟩
  · intro i
    rw [setProcess_processes]
    by_cases own : i = c
    · subst own
      rw [Function.update_self]
      exact same
    · rw [Function.update_of_ne own]
  · intro i taken
    rw [setProcess_processes]
    by_cases own : i = c
    · subst own
      rw [Function.update_self]
      exact live taken
    · rwa [Function.update_of_ne own]

theorem Mild.moves (mild : Mild s s') : Moves s s' := by
  refine ⟨mild.lives,by rw [mild.vm],by rw [mild.vm],.inl ⟨?_,by rw [mild.vm]⟩⟩
  simp only [currentLocal,mild.current]

theorem Mild.switch (mild : Mild s s') (moves : Moves s' t) : Moves s t := by
  refine ⟨mild.lives.trans moves.lives,moves.mem.trans (by rw [mild.vm]),moves.pages.trans (by rw [mild.vm]),?_⟩
  rcases moves.directory with ⟨current,same⟩ | ⟨n,current,entered⟩
  · refine .inl ⟨current.trans ?_,same.trans (by rw [mild.vm])⟩
    simp only [currentLocal,mild.current]
  · rw [mild.lives.directory] at entered
    exact .inr ⟨n,current,entered⟩

end Records

section Switch
variable {s : System}

theorem chargeTick_mild (s : System) (c : Slot) : Mild s (chargeTick s c).1 := by
  unfold chargeTick
  dsimp only
  split
  · exact .refl s
  split
  · have cleared : Mild s {s with rescheduleRequested := false} := ⟨.table rfl,rfl,rfl⟩
    exact cleared.trans (setProcess_mild _ c rfl id)
  split
  · exact setProcess_mild s c rfl id
  · exact setProcess_mild s c rfl id

theorem preempt_mild (s : System) (cpu : Nat) (prev : Option Slot) : Mild s (preempt s cpu prev) := by
  have ready : State.ready ≠ State.unused := by decide
  unfold preempt
  split
  · exact .refl s
  next c =>
    split
    · have stopped : Mild s (setProcess s c {s.processes c with state := .ready}) :=
        setProcess_mild s c rfl fun _ => ready
      unfold fpuSave
      split
      · exact stopped.trans (setProcess_mild _ c rfl id)
      · exact stopped
    · exact .refl s

theorem fpuRestore_mild (s : System) (cpu : Nat) (i : Slot) : Mild s (fpuRestore s cpu i) := by
  unfold fpuRestore
  split <;> exact ⟨.table rfl,rfl,rfl⟩

theorem enter_vm (s : System) (n : Slot) : (enter s 0 n).vm = pagingSwitchAddressSpace s.vm 0 (s.processes n).pageDirectory := by
  have stack (s : System) (top : Nat) : (tssSetKernelStack s 0 top).vm = s.vm := by
    unfold tssSetKernelStack
    split <;> rfl
  have current (s : System) (c : Option Slot) : (setCurrentLocal s 0 c).vm = s.vm ∧
      (setCurrentLocal s 0 c).processes = s.processes := by
    unfold setCurrentLocal
    split <;> exact ⟨rfl,rfl⟩
  have stored (s : System) (p : Process) : (setProcess s n p).vm = s.vm := rfl
  unfold enter
  dsimp only
  rw [stack]
  simp only [setProcess_processes,Function.update_self,(current s _).2]
  rw [stored,(current s (some n)).1]

theorem switch_directory (vm : Vm) (pd : Nat) : ∃ directory, pagingSwitchAddressSpace vm 0 pd = {vm with currentDirectory := directory} := by
  unfold pagingSwitchAddressSpace
  split
  · exact ⟨vm.currentDirectory,rfl⟩
  · exact ⟨_,rfl⟩

theorem enter_moves (s : System) (n : Slot) : Moves s (enter s 0 n) := by
  have memory (vm : Vm) (pd : Nat) : (pagingSwitchAddressSpace vm 0 pd).mem = vm.mem ∧
      (pagingSwitchAddressSpace vm 0 pd).pages = vm.pages ∧
      (pd ≠ 0 → (pagingSwitchAddressSpace vm 0 pd).currentDirectory 0 = pd) := by
    unfold pagingSwitchAddressSpace
    split
    · exact ⟨rfl,rfl,fun other => absurd ‹_› other⟩
    · exact ⟨rfl,rfl,fun _ => Function.update_self 0 pd vm.currentDirectory⟩
  have switched := enter_vm s n
  refine ⟨⟨?_,?_⟩,?_,?_,.inr ⟨n,enter_current s n,?_⟩⟩
  · intro i
    rw [enter_record]
    split <;> rfl
  · intro i live
    rw [enter_record]
    split
    · exact (by decide : State.running ≠ State.unused)
    · exact live
  · rw [switched,(memory _ _).1]
  · rw [switched,(memory _ _).2.1]
  · rw [switched]
    exact (memory _ _).2.2

theorem reapPrev_none {prev : Option Slot} (unreaped : ∀ c, prev = some c → (s.processes c).reapPending = false) :
    reapPrev s prev = s := by
  cases prev with
  | none => rfl
  | some c =>
    unfold reapPrev
    dsimp only
    rw [if_neg (by rw [unreaped c rfl]; nofun)]

theorem switchFrom_moves {prev : Option Slot} (unreaped : ∀ c, prev = some c → (s.processes c).reapPending = false)
    (frame : Frame) : Moves s (switchFrom s 0 prev frame).1 := by
  have pending {t : System} (lives : Lives s t) (c : Slot) (own : prev = some c) :
      (t.processes c).reapPending = false :=
    (congrArg Estate.reapPending (lives.estates c)).trans (unreaped c own)
  unfold switchFrom
  dsimp only
  split
  next n _ =>
    have counted : Mild s {s with
        schedulerCpu := Function.update s.schedulerCpu 0 {s.schedulerCpu 0 with cursor := n.val}} := ⟨.table rfl,rfl,rfl⟩
    have ready := (counted.trans (preempt_mild _ 0 prev)).trans (fpuRestore_mild _ 0 n)
    have entered := ready.switch (enter_moves _ n)
    rw [reapPrev_none (pending entered.lives)]
    exact entered
  split
  · split
    · rw [if_pos rfl]
      have entered := enter_moves s bootstrap
      rw [reapPrev_none (pending entered.lives)]
      exact entered
    · exact (Mild.refl s).moves
  · rw [if_pos rfl]
    exact enter_moves s bootstrap

/-- The page of the deferred stack is given back, if there is one. -/
theorem freeDeferred_stack (s : System) (c : Slot) : freeDeferred s c = s ∨
    ((s.processes c).deferredKernelStack ≠ 0 ∧ ∃ page, page = (s.processes c).deferredKernelStack - 4096 ∧
      freeDeferred s c = setProcess {s with vm := {s.vm with pages := pageFree s.vm.pages page}} c
        {s.processes c with deferredKernelStack := 0}) := by
  unfold freeDeferred
  dsimp only
  split
  · exact .inl rfl
  next some => exact .inr ⟨some,_,rfl,rfl⟩

theorem freeDeferred_mild {s' : System} (mild : Mild s s') (c : Slot) : Mild (freeDeferred s c) (freeDeferred s' c) := by
  have deferred : (s'.processes c).deferredKernelStack = (s.processes c).deferredKernelStack :=
    congrArg Estate.deferredKernelStack (mild.lives.estates c)
  unfold freeDeferred
  dsimp only
  rw [deferred]
  split
  · exact mild
  · refine ⟨⟨?_,?_⟩,by simp only [setProcess,mild.vm],?_⟩
    · intro i
      simp only [setProcess_processes]
      by_cases own : i = c
      · subst own
        rw [Function.update_self,Function.update_self]
        exact congrArg (fun e : Estate => {e with deferredKernelStack := 0}) (mild.lives.estates i)
      · rw [Function.update_of_ne own,Function.update_of_ne own]
        exact mild.lives.estates i
    · intro i
      simp only [setProcess_processes]
      by_cases own : i = c
      · subst own
        rw [Function.update_self,Function.update_self]
        exact mild.lives.live i
      · rw [Function.update_of_ne own,Function.update_of_ne own]
        exact mild.lives.live i
    · rw [setProcess_current,setProcess_current]
      exact mild.current

theorem freeDeferred_reapPending (s : System) (c i : Slot) :
    ((freeDeferred s c).processes i).reapPending = (s.processes i).reapPending := by
  unfold freeDeferred
  dsimp only
  split
  · rfl
  · rw [setProcess_processes]
    by_cases own : i = c
    · subst own
      rw [Function.update_self]
    · rw [Function.update_of_ne own]

/-- A task that has to leave the CPU has given its deferred kernel stack back before. -/
def relieved (s : System) : System :=
  match currentLocal s 0 with
  | none => s
  | some c => freeDeferred s c

/-- The scheduler leaves everything as it is, or it switches from a task that it has relieved. -/
theorem processSchedule_splits (s : System) (acquired : Bool) (frame : Frame) :
    Mild s (processSchedule s 0 acquired frame).1 ∨ ∃ u, Mild (relieved s) u ∧
      (processSchedule s 0 acquired frame).1 = (switchFrom u 0 (currentLocal s 0) frame).1 := by
  have counted : Mild s (countSchedule s 0) := ⟨.table rfl,rfl,rfl⟩
  unfold processSchedule
  split
  · exact .inl (Mild.refl s)
  dsimp only
  have same : currentLocal (countSchedule s 0) 0 = currentLocal s 0 := rfl
  rw [same]
  unfold relieved
  cases currentLocal s 0 with
  | none => exact .inr ⟨countSchedule s 0,counted,rfl⟩
  | some c =>
    dsimp only
    have saved : Mild (countSchedule s 0) (saveFrame (countSchedule s 0) c frame) := setProcess_mild _ c rfl id
    have charged := (counted.trans saved).trans (chargeTick_mild (saveFrame (countSchedule s 0) c frame) c)
    split
    next t kept =>
      rw [kept] at charged
      exact .inl charged
    next t gives =>
      rw [gives] at charged
      exact .inr ⟨freeDeferred t c,freeDeferred_mild charged c,rfl⟩

/-- Where the task that leaves the CPU is not reaped, the scheduler gives back its deferred
kernel stack at most. -/
theorem processSchedule_moves (unreaped : ∀ c, currentLocal s 0 = some c → (s.processes c).reapPending = false)
    (acquired : Bool) (frame : Frame) :
    ∃ t, (t = s ∨ ∃ c, currentLocal s 0 = some c ∧ t = freeDeferred s c) ∧
      Moves t (processSchedule s 0 acquired frame).1 := by
  rcases processSchedule_splits s acquired frame with mild | ⟨u,mild,switched⟩
  · exact ⟨s,.inl rfl,mild.moves⟩
  · rw [switched]
    have calm (c : Slot) (own : currentLocal s 0 = some c) : (u.processes c).reapPending = false := by
      refine (congrArg Estate.reapPending (mild.lives.estates c)).trans ?_
      rw [relieved,own]
      exact (freeDeferred_reapPending s c c).trans (unreaped c own)
    have moves := mild.switch (switchFrom_moves calm frame)
    refine ⟨relieved s,?_,moves⟩
    unfold relieved
    cases currentLocal s 0 with
    | none => exact .inl rfl
    | some c => exact .inr ⟨c,rfl,rfl⟩

end Switch

/-! ### Exits and joins -/

/-- Everybody lives on, the CPU keeps its task, and memory changes by a status word of the
receiver at most. -/
structure Informs (s s' : System) (receiver : Option Slot) : Prop where
  lives : Lives s s'
  current : s'.currentByCpu = s.currentByCpu
  memory : s'.vm = s.vm ∨ ∃ i ptr value, receiver = some i ∧
    s'.vm = (writeUserU32 s.vm (s.processes i).pageDirectory ptr value).1

theorem processExitCurrent_informs {s : System} {c : Slot} (caller : currentLocal s 0 = some c)
    (thread : (s.processes c).isThread = true) (code : Nat) :
    Informs s (processExitCurrent s 0 code) (joinedBy s (.exit code)) := by
  have victim : victim s (.exit code) = some c := by
    unfold victim
    simp only [caller,thread,true_or,if_true]
  have receiver : joinedBy s (.exit code) = waitingJoiner (terminate s c code) (s.processes c).tid := by
    unfold joinedBy
    simp only [victim,thread,if_true]
    exact (waitingJoiner_code s c (s.processes c).tid code).symm
  have ended : processExitCurrent s 0 code = wakeJoiner (terminate s c code) (s.processes c).tid code := by
    unfold processExitCurrent
    simp only [caller,thread,if_true]
  have terminated : Lives s (terminate s c code) :=
    .update (terminate_processes s c code) rfl (by decide : State.zombie ≠ State.unused)
  rw [receiver,ended]
  refine ⟨terminated.trans ⟨?_,?_⟩,?_,?_⟩
  · intro i
    rw [wakeJoiner_record]
    split <;> rfl
  · intro i live
    rw [wakeJoiner_record]
    split
    · exact (by decide : State.ready ≠ State.unused)
    · exact live
  · rw [wakeJoiner_current,terminate_current]
  · unfold wakeJoiner
    cases found : waitingJoiner (terminate s c code) (s.processes c).tid with
    | none => exact .inl rfl
    | some w =>
      dsimp only
      by_cases null : ((terminate s c code).processes w).joinStatusPtr = 0
      · rw [if_pos null]
        exact .inl rfl
      · rw [if_neg null,terminated.directory]
        exact .inr ⟨w,_,code,rfl,rfl⟩

theorem processJoinThread_informs {s : System} {tid statusPtr : Nat} (uncollected : deadThread s tid statusPtr = none) :
    Informs s (processJoinThread s 0 tid statusPtr).1 (currentLocal s 0) := by
  have unchanged (receiver : Option Slot) : Informs s s receiver := ⟨.table rfl,rfl,.inl rfl⟩
  unfold deadThread at uncollected
  unfold processJoinThread
  cases caller : currentLocal s 0 with
  | none => exact unchanged _
  | some c =>
    simp only [caller] at uncollected
    dsimp only
    split
    · exact unchanged _
    next valid =>
      rw [if_neg valid] at uncollected
      cases target : joinTarget s (s.processes c).threadGroupPid tid with
      | none => exact unchanged _
      | some z =>
        simp only [target] at uncollected
        dsimp only
        split
        next dead =>
          split
          next vm failed =>
            refine ⟨.table rfl,rfl,.inr ⟨c,statusPtr,(s.processes z).exitCode,rfl,?_⟩⟩
            rw [failed]
          next vm stored => simp [dead,stored] at uncollected
        next =>
          have waits : Mild s (setProcess s c {s.processes c with
              joinTid := tid,joinStatusPtr := statusPtr,state := .waiting}) :=
            setProcess_mild s c rfl fun _ => (by decide : State.waiting ≠ State.unused)
          exact ⟨waits.lives,waits.current,.inl waits.vm⟩

end LionOS.Processes

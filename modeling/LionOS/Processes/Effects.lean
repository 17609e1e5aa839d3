import LionOS.Processes.Schedule

/-! What each operation of `process.c` can do to the records of the process table,
stated once so that every invariant over runs is derived from it. -/
namespace LionOS.Processes
open LionOS.Memory LionOS.Physical LionOS.Paging

@[simp] theorem setProcess_processes (s : System) (i : Slot) (p : Process) :
    (setProcess s i p).processes = Function.update s.processes i p := rfl

@[simp] theorem setProcess_current (s : System) (i : Slot) (p : Process) :
    (setProcess s i p).currentByCpu = s.currentByCpu := rfl

@[simp] theorem setProcess_nextTid (s : System) (i : Slot) (p : Process) :
    (setProcess s i p).nextTid = s.nextTid := rfl

theorem find_slot {test : Slot → Bool} {i : Slot}
    (found : (List.finRange processMax).find? test = some i) : test i = true :=
  List.find?_some found

theorem find_none {test : Slot → Bool} (absent : (List.finRange processMax).find? test = none)
    (i : Slot) : test i = false := by
  have all := List.find?_eq_none.mp absent i (List.mem_finRange i)
  simpa using all

theorem findFreeSlot_unused {s : System} {i : Slot} (found : findFreeSlot s = some i) :
    (s.processes i).state = .unused := by
  simpa using find_slot found

theorem findPid_found {s : System} {pid : Nat} {i : Slot} (found : findPid s pid = some i) :
    (s.processes i).state ≠ .unused ∧ (s.processes i).pid = pid := by
  simpa using find_slot found

theorem findZombieChild_found {s : System} {parentPid pid : Nat} {i : Slot}
    (found : findZombieChild s parentPid pid = some i) :
    i ≠ bootstrap ∧ isChildOf (s.processes i) parentPid pid = true ∧
      (s.processes i).state = .zombie := by
  simpa [and_assoc] using find_slot found

theorem joinTarget_found {s : System} {groupPid tid : Nat} {i : Slot}
    (found : joinTarget s groupPid tid = some i) :
    i ≠ bootstrap ∧ (s.processes i).isThread = true ∧ (s.processes i).tid = tid := by
  have test := find_slot found
  simp only [Bool.and_eq_true,decide_eq_true_eq] at test
  exact ⟨test.1.1.1,test.1.1.2,test.2⟩

theorem waitingParent_found {s : System} {child i : Slot} (found : waitingParent s child = some i) :
    i ≠ bootstrap ∧ (s.processes i).state = .waiting ∧
      (s.processes i).pid = (s.processes child).parentPid ∧
      ((s.processes i).waitPid = 0 ∨ (s.processes i).waitPid = (s.processes child).pid) := by
  simpa [and_assoc] using find_slot found

theorem waitingJoiner_found {s : System} {tid : Nat} {i : Slot} (found : waitingJoiner s tid = some i) :
    i ≠ bootstrap ∧ (s.processes i).state = .waiting ∧ (s.processes i).isThread = false ∧
      (s.processes i).joinTid = tid := by
  simpa [and_assoc] using find_slot found

/-- No wait is recorded: the side fields of the state WAITING are all clear. -/
structure Idle (p : Process) : Prop where
  waitPid : p.waitPid = 0
  waitStatusPtr : p.waitStatusPtr = 0
  waitChannel : p.waitChannel = 0
  joinTid : p.joinTid = 0
  joinStatusPtr : p.joinStatusPtr = 0

instance Idle.decidable (p : Process) : Decidable (Idle p) :=
  decidable_of_iff (p.waitPid = 0 ∧ p.waitStatusPtr = 0 ∧ p.waitChannel = 0 ∧ p.joinTid = 0 ∧
    p.joinStatusPtr = 0)
    ⟨fun ⟨a,b,c,d,e⟩ => ⟨a,b,c,d,e⟩,fun ⟨a,b,c,d,e⟩ => ⟨a,b,c,d,e⟩⟩

/-- A record as the creating operations leave it. -/
structure Fresh (p : Process) : Prop where
  ready : p.state = .ready
  idle : Idle p
  unreported : p.reapPending = false
  thread : p.isThread = true → p.tid ≠ 0
  frame : p.savedFrame.isSome = true

theorem clearProcess_idle (p : Process) : Idle (clearProcess p) := ⟨rfl,rfl,rfl,rfl,rfl⟩

/-- Creation of a task is refused or takes an UNUSED slot for a fresh record. -/
inductive Spawns (s s' : System) : Prop
  | refused (table : s'.processes = s.processes)
  | spawned (i : Slot) (p : Process) (free : (s.processes i).state = .unused) (fresh : Fresh p)
      (table : s'.processes = Function.update s.processes i p)

theorem processCreateExVasLocked_spawns {s s' : System} {cpu entry stack pd count : Nat}
    {pages vas : Nat → Nat} {i : Slot}
    (created : processCreateExVasLocked s cpu entry stack pd pages vas count = some (s',i)) :
    (s.processes i).state = .unused ∧ s'.currentByCpu = s.currentByCpu ∧
      s'.nextTid = nextTidAfter s.nextTid ∧ (s'.processes i).isThread = false ∧
      Fresh (s'.processes i) ∧ s'.processes = Function.update s.processes i (s'.processes i) := by
  unfold processCreateExVasLocked at created
  cases free : findFreeSlot s with
  | none => simp [free] at created
  | some slot =>
    simp only [free] at created
    split at created
    · simp at created
    · cases stackPage : pageAlloc s.vm.pages with
      | none => simp [stackPage] at created
      | some result =>
        simp only [stackPage,Option.some.injEq,Prod.mk.injEq] at created
        obtain ⟨rfl,rfl⟩ := created
        refine ⟨findFreeSlot_unused free,rfl,rfl,by simp [initInterruptFrame],?_,by simp⟩
        constructor <;> simp [initInterruptFrame]
        constructor <;> rfl

theorem nextTidAfter_ne_zero (n : Nat) : nextTidAfter n ≠ 0 := by
  unfold nextTidAfter
  split
  · exact Nat.one_ne_zero
  · assumption

/-- What every creating operation leaves: the tasks of the CPUs as they were and a
thread counter that stays positive. -/
structure Creates (s s' : System) : Prop where
  spawns : Spawns s s'
  current : s'.currentByCpu = s.currentByCpu
  counter : s.nextTid ≠ 0 → s'.nextTid ≠ 0

theorem Creates.of_table {s s' : System} (table : s'.processes = s.processes)
    (current : s'.currentByCpu = s.currentByCpu) (counter : s'.nextTid = s.nextTid) : Creates s s' :=
  ⟨.refused table,current,fun positive => counter ▸ positive⟩

theorem processCreateExVas_creates {s s' : System} {cpu entry stack pd count : Nat}
    {pages vas : Nat → Nat} {i : Slot}
    (created : processCreateExVas s cpu entry stack pd pages vas count = some (s',i)) :
    Creates s s' := by
  obtain ⟨free,current,counter,_,fresh,table⟩ := processCreateExVasLocked_spawns created
  refine ⟨.spawned i _ free fresh table,current,?_⟩
  intro _
  rw [counter]
  exact nextTidAfter_ne_zero _

theorem forkChild_fresh (parent : Process) {child : Process} (cpu tid : Nat) (frame : Frame)
    (fresh : Fresh child) : Fresh (forkChild parent child cpu tid frame) := by
  obtain ⟨ready,⟨a,b,c,d,e⟩,unreported,_,_⟩ := fresh
  exact ⟨ready,⟨a,b,c,d,e⟩,unreported,fun thread => by simp [forkChild] at thread,rfl⟩

theorem processForkCurrent_creates (s : System) (cpu : Nat) (frame : Frame) :
    Creates s (processForkCurrent s cpu frame).1 := by
  unfold processForkCurrent
  cases caller : currentLocal s cpu with
  | none => exact .of_table rfl rfl rfl
  | some c =>
    dsimp only
    split
    · exact .of_table rfl rfl rfl
    split
    · exact .of_table rfl rfl rfl
    split
    · exact .of_table rfl rfl rfl
    split
    · exact .of_table rfl rfl rfl
    split
    · exact .of_table rfl rfl rfl
    split
    · exact .of_table rfl rfl rfl
    next made i created =>
      obtain ⟨free,current,_,_,fresh,table⟩ := processCreateExVasLocked_spawns created
      have child := forkChild_fresh (s.processes c) cpu made.nextTid frame fresh
      refine ⟨.spawned i _ free child ?_,current,fun _ => nextTidAfter_ne_zero _⟩
      rw [setProcess_processes]
      dsimp only
      rw [table]
      simp

theorem processCreateKernelThread_creates {s s' : System} {cpu entry : Nat} {i : Slot}
    (positive : s.nextTid ≠ 0) (created : processCreateKernelThread s cpu entry = some (s',i)) :
    Creates s s' := by
  unfold processCreateKernelThread at created
  split at created
  · contradiction
  split at created
  · contradiction
  next slot free =>
    split at created
    · contradiction
    simp only [Option.some.injEq,Prod.mk.injEq] at created
    obtain ⟨rfl,rfl⟩ := created
    refine ⟨.spawned slot _ (findFreeSlot_unused free) ?_ rfl,rfl,fun _ => nextTidAfter_ne_zero _⟩
    exact ⟨rfl,⟨rfl,rfl,rfl,rfl,rfl⟩,rfl,fun _ => positive,rfl⟩

theorem processCreateUserThread_creates {s s' : System} {cpu entry tid : Nat}
    (positive : s.nextTid ≠ 0) (created : processCreateUserThread s cpu entry = some (s',tid)) :
    Creates s s' := by
  unfold processCreateUserThread at created
  split at created
  · cases created
    exact .of_table rfl rfl rfl
  split at created
  · cases created
    exact .of_table rfl rfl rfl
  dsimp only at created
  split at created
  · cases created
    exact .of_table rfl rfl rfl
  split at created
  · cases created
    exact .of_table rfl rfl rfl
  next slot free =>
    split at created
    · split at created
      all_goals
        cases created
        exact .of_table rfl rfl rfl
    split at created
    · cases created
      exact .of_table rfl rfl rfl
    split at created
    · cases created
      exact .of_table rfl rfl rfl
    split at created
    · contradiction
    simp only [Option.some.injEq,Prod.mk.injEq] at created
    obtain ⟨rfl,rfl⟩ := created
    refine ⟨.spawned slot _ (findFreeSlot_unused free) ?_ rfl,rfl,fun _ => nextTidAfter_ne_zero _⟩
    exact ⟨rfl,⟨rfl,rfl,rfl,rfl,rfl⟩,rfl,fun _ => positive,rfl⟩

theorem reapProcess_record (s : System) (i j : Slot) :
    (reapProcess s i).processes j =
      if (s.processes i).state = .zombie ∧ j = i then clearProcess (s.processes j) else s.processes j := by
  unfold reapProcess
  dsimp only
  by_cases dead : (s.processes i).state = .zombie
  · by_cases same : j = i
    · subst same
      simp only [dead,ne_eq,not_true_eq_false,if_false,and_self,if_true]
      split <;> simp
    · simp only [dead,same,ne_eq,not_true_eq_false,if_false,and_false]
      split <;> simp [same]
  · simp [dead]

@[simp] theorem reapProcess_current (s : System) (i : Slot) :
    (reapProcess s i).currentByCpu = s.currentByCpu := by
  unfold reapProcess
  dsimp only
  split
  · rfl
  split <;> rfl

@[simp] theorem reapProcess_nextTid (s : System) (i : Slot) : (reapProcess s i).nextTid = s.nextTid := by
  unfold reapProcess
  dsimp only
  split
  · rfl
  split <;> rfl

theorem wakeWaitingParent_record {s : System} {child : Slot}
    (settled : (s.processes child).state ≠ .waiting) (i : Slot) :
    (wakeWaitingParent s child).processes i =
      if waitingParent s child = some i then releaseParent (s.processes i) (s.processes child).pid
      else if i = child then
        {s.processes i with reapPending := (s.processes i).reapPending || (waitingParent s child).isSome}
      else s.processes i := by
  unfold wakeWaitingParent
  cases found : waitingParent s child with
  | none => by_cases same : i = child <;> simp [same]
  | some parent =>
    have apart : parent ≠ child := by
      intro equal
      rw [equal] at found
      exact settled (waitingParent_found found).2.1
    by_cases same : i = child
    · subst same
      simp [apart,Ne.symm apart]
    · by_cases released : i = parent
      · subst released
        simp [same]
      · simp [same,released,Ne.symm released]

@[simp] theorem wakeWaitingParent_current (s : System) (child : Slot) :
    (wakeWaitingParent s child).currentByCpu = s.currentByCpu := by
  unfold wakeWaitingParent
  split <;> rfl

@[simp] theorem wakeWaitingParent_nextTid (s : System) (child : Slot) :
    (wakeWaitingParent s child).nextTid = s.nextTid := by
  unfold wakeWaitingParent
  split <;> rfl

theorem wakeJoiner_record (s : System) (tid code : Nat) (i : Slot) :
    (wakeJoiner s tid code).processes i =
      if waitingJoiner s tid = some i then releaseJoiner (s.processes i) tid else s.processes i := by
  unfold wakeJoiner
  cases found : waitingJoiner s tid with
  | none => simp
  | some joiner =>
    by_cases same : i = joiner
    · subst same
      simp
    · simp [same,Ne.symm same]

@[simp] theorem wakeJoiner_current (s : System) (tid code : Nat) :
    (wakeJoiner s tid code).currentByCpu = s.currentByCpu := by
  unfold wakeJoiner
  split <;> rfl

@[simp] theorem wakeJoiner_nextTid (s : System) (tid code : Nat) :
    (wakeJoiner s tid code).nextTid = s.nextTid := by
  unfold wakeJoiner
  split <;> rfl

@[simp] theorem terminate_processes (s : System) (i : Slot) (code : Nat) :
    (terminate s i code).processes =
      Function.update s.processes i {s.processes i with exitCode := code,state := .zombie} := rfl

@[simp] theorem terminate_current (s : System) (i : Slot) (code : Nat) :
    (terminate s i code).currentByCpu = s.currentByCpu := rfl

@[simp] theorem terminate_nextTid (s : System) (i : Slot) (code : Nat) :
    (terminate s i code).nextTid = s.nextTid := rfl

/-- The memory that belongs to a task. -/
structure Home where
  pageDirectory : Nat
  kernelStackTop : Nat
  userPages : Nat → Nat
  userPageVas : Nat → Nat
  userPageCount : Nat

def Process.home (p : Process) : Home where
  pageDirectory := p.pageDirectory
  kernelStackTop := p.kernelStackTop
  userPages := p.userPages
  userPageVas := p.userPageVas
  userPageCount := p.userPageCount

/-- The fields by which tasks wait, terminate and are reported, and their memory. The
operations of the scheduler change nothing of them but the state. -/
structure Control where
  pid : Nat
  state : State
  parentPid : Nat
  exitCode : Nat
  waitPid : Nat
  waitStatusPtr : Nat
  waitChannel : Nat
  reapPending : Bool
  tid : Nat
  threadGroupPid : Nat
  isThread : Bool
  joinTid : Nat
  joinStatusPtr : Nat
  home : Home

def Process.control (p : Process) : Control where
  pid := p.pid
  state := p.state
  parentPid := p.parentPid
  exitCode := p.exitCode
  waitPid := p.waitPid
  waitStatusPtr := p.waitStatusPtr
  waitChannel := p.waitChannel
  reapPending := p.reapPending
  tid := p.tid
  threadGroupPid := p.threadGroupPid
  isThread := p.isThread
  joinTid := p.joinTid
  joinStatusPtr := p.joinStatusPtr
  home := p.home

@[simp] theorem fpuRestore_processes (s : System) (cpu : Nat) (i : Slot) :
    (fpuRestore s cpu i).processes = s.processes := by
  unfold fpuRestore
  split <;> rfl

theorem preempt_record (s : System) (cpu : Nat) (prev : Option Slot) (i : Slot) :
    ((preempt s cpu prev).processes i).savedFrame = (s.processes i).savedFrame ∧
      ((preempt s cpu prev).processes i).control =
        if prev = some i ∧ (s.processes i).state = .running then
          {(s.processes i).control with state := .ready}
        else (s.processes i).control := by
  cases prev with
  | none => simp [preempt]
  | some k =>
    unfold preempt fpuSave
    by_cases same : i = k
    · subst same
      by_cases running : (s.processes i).state = .running
      · by_cases enabled : s.fpuEnabled <;> simp [running,enabled,setProcess,Process.control,Process.home]
      · simp [running]
    · by_cases running : (s.processes k).state = .running
      · by_cases enabled : s.fpuEnabled <;> simp [running,enabled,setProcess,same,Ne.symm same]
      · simp [running,Ne.symm same]

theorem enter_record (s : System) (cpu : Nat) (next i : Slot) :
    (enter s cpu next).processes i =
      if i = next then {s.processes i with cpuOwner := cpu,state := .running} else s.processes i := by
  have kept (s : System) (top : Nat) : (tssSetKernelStack s cpu top).processes = s.processes := by
    unfold tssSetKernelStack
    split <;> rfl
  have table : (setCurrentLocal s cpu (some next)).processes = s.processes := by
    unfold setCurrentLocal
    split <;> rfl
  unfold enter
  simp only [kept,setProcess_processes,table]
  by_cases same : i = next
  · subst same
    simp
  · simp [same]

theorem reapPrev_record (s : System) (prev : Option Slot) (i : Slot) :
    (reapPrev s prev).processes i =
      if prev = some i ∧ (s.processes i).reapPending = true ∧ (s.processes i).state = .zombie then
        clearProcess (s.processes i)
      else s.processes i := by
  cases prev with
  | none => simp [reapPrev]
  | some k =>
    unfold reapPrev
    dsimp only
    by_cases same : i = k
    · subst same
      split
      next pending => simp [reapProcess_record,pending]
      next waits => simp [waits]
    · split
      · simp [reapProcess_record,same,Ne.symm same]
      · simp [Ne.symm same]

/-- What one call of the scheduler on `cpu` can do to the record `i`. -/
inductive Scheduled (s : System) (cpu : Nat) (i : Slot) (p : Process) : Prop
  | kept (same : p.control = (s.processes i).control)
      (frame : currentLocal s cpu = some i ∨ p.savedFrame = (s.processes i).savedFrame)
  | dispatched (ready : (s.processes i).state = .ready ∨ i = bootstrap)
      (same : p.control = {(s.processes i).control with state := .running})
  | preempted (caller : currentLocal s cpu = some i) (running : (s.processes i).state = .running)
      (same : p.control = {(s.processes i).control with state := .ready})
  | reaped (caller : currentLocal s cpu = some i) (dead : (s.processes i).state = .zombie)
      (pending : (s.processes i).reapPending = true)
      (cleared : p.control = (clearProcess (s.processes i)).control)

theorem selectNext_ready {s : System} {cpu start : Nat} {i : Slot}
    (found : selectNext s cpu start = some i) : (s.processes i).state = .ready := by
  unfold selectNext at found
  obtain ⟨priority,_,chosen⟩ := List.exists_of_findSome?_eq_some found
  have test := List.find?_some chosen
  simp only [Bool.and_eq_true,decide_eq_true_eq] at test
  exact test.1.1

theorem control_state {p q : Process} (same : p.control = q.control) : p.state = q.state :=
  congrArg Control.state same

theorem reapPrev_scheduled {s before : System} {cpu : Nat} {prev : Option Slot} {i : Slot}
    (caller : currentLocal s cpu = prev)
    (frame : (before.processes i).savedFrame = (s.processes i).savedFrame)
    (same : (before.processes i).control =
      if prev = some i ∧ (s.processes i).state = .running then
        {(s.processes i).control with state := .ready}
      else (s.processes i).control) :
    Scheduled s cpu i ((reapPrev before prev).processes i) := by
  rw [reapPrev_record]
  split at same
  next outgoing =>
    have state : (before.processes i).state = .ready := congrArg Control.state same
    rw [if_neg (by simp [state])]
    exact .preempted (caller.trans outgoing.1) outgoing.2 same
  next other =>
    split
    next reaped =>
      obtain ⟨outgoing,pending,dead⟩ := reaped
      have pended : (before.processes i).reapPending = (s.processes i).reapPending :=
        congrArg Control.reapPending same
      exact .reaped (caller.trans outgoing) (by rw [← control_state same,dead]) (by rw [← pended,pending])
        rfl
    next => exact .kept same (.inr frame)

theorem enter_running (s : System) (cpu : Nat) (prev : Option Slot) (next : Slot) :
    (reapPrev (enter s cpu next) prev).processes next = (enter s cpu next).processes next := by
  rw [reapPrev_record,if_neg (by simp [enter_record])]

theorem switch_scheduled {s before : System} {cpu : Nat} {prev : Option Slot} {next i : Slot}
    (caller : currentLocal s cpu = prev)
    (ready : (s.processes next).state = .ready ∨ next = bootstrap ∧
      ∀ k, prev = some k → (s.processes k).state ≠ .running)
    (records : ∀ k, (before.processes k).savedFrame = (s.processes k).savedFrame ∧
      (before.processes k).control =
        if prev = some k ∧ (s.processes k).state = .running then
          {(s.processes k).control with state := .ready}
        else (s.processes k).control) :
    Scheduled s cpu i ((reapPrev (enter before cpu next) prev).processes i) := by
  by_cases chosen : i = next
  · subst chosen
    rw [enter_running,enter_record,if_pos rfl]
    obtain ⟨_,same⟩ := records i
    rw [if_neg] at same
    · refine .dispatched (ready.imp id And.left) ?_
      calc
        _ = {(before.processes i).control with state := .running} := rfl
        _ = _ := by rw [same]
    · rintro ⟨outgoing,running⟩
      cases ready with
      | inl ready => simp [ready] at running
      | inr idle => exact idle.2 i outgoing running
  · have other : (enter before cpu next).processes i = before.processes i := by
      rw [enter_record,if_neg chosen]
    refine reapPrev_scheduled caller ?_ ?_
    · rw [other]
      exact (records i).1
    · rw [other]
      exact (records i).2

theorem switchFrom_scheduled (s : System) (cpu : Nat) (frame : Frame) (i : Slot) :
    Scheduled s cpu i ((switchFrom s cpu (currentLocal s cpu) frame).1.processes i) := by
  unfold switchFrom
  dsimp only
  split
  next next found =>
    refine switch_scheduled rfl (.inl (selectNext_ready found)) ?_
    intro k
    rw [fpuRestore_processes]
    exact preempt_record _ cpu (currentLocal s cpu) k
  next =>
    split
    next prev caller =>
      split
      next halted =>
        have stays : ∀ k, currentLocal s cpu = some k → (s.processes k).state ≠ .running := by
          intro k caller' running
          rw [caller] at caller'
          cases caller'
          simp [running] at halted
        have records (before : System) (table : before.processes = s.processes) (k : Slot) :
            (before.processes k).savedFrame = (s.processes k).savedFrame ∧
              (before.processes k).control =
                if currentLocal s cpu = some k ∧ (s.processes k).state = .running then
                  {(s.processes k).control with state := .ready}
                else (s.processes k).control := by
          rw [table,if_neg (by rintro ⟨outgoing,running⟩; exact stays k outgoing running)]
          exact ⟨rfl,rfl⟩
        split
        · exact switch_scheduled rfl (.inr ⟨rfl,stays⟩) (records s rfl)
        · have idle : (setCurrentLocal s cpu none).processes = s.processes := by
            unfold setCurrentLocal
            split <;> rfl
          exact reapPrev_scheduled rfl (records _ idle i).1 (records _ idle i).2
      next => exact .kept rfl (.inr rfl)
    next caller =>
      split
      · have records (k : Slot) : (s.processes k).savedFrame = (s.processes k).savedFrame ∧
            (s.processes k).control =
              if (none : Option Slot) = some k ∧ (s.processes k).state = .running then
                {(s.processes k).control with state := .ready}
              else (s.processes k).control := by simp
        exact switch_scheduled caller (.inr ⟨rfl,fun k outgoing => by cases outgoing⟩) records
      · exact .kept rfl (.inr rfl)

/-- Bookkeeping before a switch: no field of a wait, a termination or a report
changes and only the caller's frame is saved. -/
structure Upkeep (s s' : System) (cpu : Nat) : Prop where
  current : s'.currentByCpu = s.currentByCpu
  control : ∀ i, (s'.processes i).control = (s.processes i).control
  frame : ∀ i, currentLocal s cpu = some i ∨ (s'.processes i).savedFrame = (s.processes i).savedFrame

theorem Upkeep.currentLocal {s s' : System} {cpu : Nat} (upkeep : Upkeep s s' cpu) (c : Nat) :
    currentLocal s' c = currentLocal s c := by
  simp only [Processes.currentLocal,upkeep.current]

theorem Upkeep.scheduled {s s' : System} {cpu : Nat} (upkeep : Upkeep s s' cpu) {i : Slot} {p : Process}
    (later : Scheduled s' cpu i p) : Scheduled s cpu i p := by
  have state : (s'.processes i).state = (s.processes i).state := control_state (upkeep.control i)
  have caller := upkeep.currentLocal cpu
  cases later with
  | kept same frame =>
    refine .kept (same.trans (upkeep.control i)) ?_
    cases frame with
    | inl own => exact .inl (caller ▸ own)
    | inr frame => exact (upkeep.frame i).imp id frame.trans
  | dispatched ready same =>
    exact .dispatched (state ▸ ready) (by rw [same,upkeep.control i])
  | preempted own running same =>
    exact .preempted (caller ▸ own) (state ▸ running) (by rw [same,upkeep.control i])
  | reaped own dead pending cleared =>
    have reported : (s'.processes i).reapPending = (s.processes i).reapPending :=
      congrArg Control.reapPending (upkeep.control i)
    exact .reaped (caller ▸ own) (state ▸ dead) (reported ▸ pending) cleared

theorem Upkeep.setProcess {s s' : System} {cpu : Nat} {prev : Slot} {p : Process}
    (caller : Processes.currentLocal s cpu = some prev) (current : s'.currentByCpu = s.currentByCpu)
    (table : s'.processes = Function.update s.processes prev p)
    (same : p.control = (s.processes prev).control) : Upkeep s s' cpu := by
  refine ⟨current,?_,?_⟩
  · intro i
    rw [table]
    by_cases own : i = prev
    · subst own
      simpa using same
    · simp [own]
  · intro i
    rw [table]
    by_cases own : i = prev
    · subst own
      exact .inl caller
    · simp [own]

theorem Upkeep.trans {s t u : System} {cpu : Nat} (first : Upkeep s t cpu) (second : Upkeep t u cpu) :
    Upkeep s u cpu := by
  refine ⟨second.current.trans first.current,fun i => (second.control i).trans (first.control i),?_⟩
  intro i
  have caller := first.currentLocal cpu
  rcases second.frame i with own | frame
  · exact .inl (caller ▸ own)
  · exact (first.frame i).imp id frame.trans

theorem Upkeep.refl (s : System) (cpu : Nat) : Upkeep s s cpu := ⟨rfl,fun _ => rfl,fun _ => .inr rfl⟩

theorem chargeTick_upkeep {s : System} {cpu : Nat} {prev : Slot}
    (caller : Processes.currentLocal s cpu = some prev) : Upkeep s (chargeTick s prev).1 cpu := by
  unfold chargeTick
  dsimp only
  split
  · exact .refl s cpu
  split
  · exact .setProcess caller (setProcess_current _ _ _) (setProcess_processes _ _ _) rfl
  split
  · exact .setProcess caller (setProcess_current _ _ _) (setProcess_processes _ _ _) rfl
  · exact .setProcess caller (setProcess_current _ _ _) (setProcess_processes _ _ _) rfl

theorem freeDeferred_upkeep {s : System} {cpu : Nat} {prev : Slot}
    (caller : Processes.currentLocal s cpu = some prev) : Upkeep s (freeDeferred s prev) cpu := by
  unfold freeDeferred
  dsimp only
  split
  · exact .refl s cpu
  · exact .setProcess caller (setProcess_current _ _ _) (setProcess_processes _ _ _) rfl

theorem chargeTick_nextTid (s : System) (prev : Slot) : (chargeTick s prev).1.nextTid = s.nextTid := by
  unfold chargeTick
  dsimp only
  split
  · rfl
  split
  · rfl
  split
  · rfl
  · exact setProcess_nextTid _ _ _

theorem freeDeferred_nextTid (s : System) (prev : Slot) : (freeDeferred s prev).nextTid = s.nextTid := by
  unfold freeDeferred
  dsimp only
  split
  · rfl
  · exact setProcess_nextTid _ _ _

/-- The part of `process_schedule` between taking the lock and choosing a task:
`none` where no task is running on the CPU. -/
theorem processSchedule_acquired (s : System) (cpu : Nat) (frame : Frame) :
    ∃ ready, Upkeep s ready cpu ∧ ready.nextTid = s.nextTid ∧
      (processSchedule s cpu true frame = (ready,.own frame) ∧
          (∃ prev, currentLocal s cpu = some prev ∧ (s.processes prev).state = .running) ∨
        processSchedule s cpu true frame = switchFrom ready cpu (currentLocal ready cpu) frame) := by
  have first : Upkeep s (countSchedule s cpu) cpu := ⟨rfl,fun _ => rfl,fun _ => .inr rfl⟩
  unfold processSchedule
  rw [if_neg (by simp)]
  dsimp only
  cases caller : currentLocal (countSchedule s cpu) cpu with
  | none => exact ⟨countSchedule s cpu,first,rfl,.inr (by rw [caller])⟩
  | some prev =>
    dsimp only
    have second : Upkeep (countSchedule s cpu) (saveFrame (countSchedule s cpu) prev frame) cpu :=
      .setProcess caller (setProcess_current _ _ _) (setProcess_processes _ _ _) rfl
    have running : currentLocal (saveFrame (countSchedule s cpu) prev frame) cpu = some prev :=
      (second.currentLocal cpu).trans caller
    have third := chargeTick_upkeep running
    have tids := chargeTick_nextTid (saveFrame (countSchedule s cpu) prev frame) prev
    have before := first.trans second
    cases charged : chargeTick (saveFrame (countSchedule s cpu) prev frame) prev with
    | mk v gives =>
      rw [charged] at third tids
      have upkeep := before.trans third
      cases gives with
      | false =>
        refine ⟨v,upkeep,tids,.inl ⟨rfl,prev,(first.currentLocal cpu).symm.trans caller,?_⟩⟩
        rw [← control_state (before.control prev)]
        by_contra other
        simp [chargeTick,other] at charged
      | true =>
        have again : currentLocal v cpu = some prev := (third.currentLocal cpu).trans running
        have fourth := freeDeferred_upkeep again
        refine ⟨freeDeferred v prev,upkeep.trans fourth,?_,.inr ?_⟩
        · rw [freeDeferred_nextTid]
          exact tids
        · rw [fourth.currentLocal cpu,again]

theorem processSchedule_scheduled (s : System) (cpu : Nat) (acquired : Bool) (frame : Frame) (i : Slot) :
    Scheduled s cpu i ((processSchedule s cpu acquired frame).1.processes i) := by
  cases acquired with
  | false => exact .kept rfl (.inr rfl)
  | true =>
    obtain ⟨ready,upkeep,_,⟨kept,_⟩ | switched⟩ := processSchedule_acquired s cpu frame
    · rw [kept]
      exact .kept (upkeep.control i) (upkeep.frame i)
    · rw [switched]
      exact upkeep.scheduled (switchFrom_scheduled ready cpu frame i)

theorem switchFrom_saved {s : System} {cpu : Nat} {prev : Option Slot} {frame : Frame} {i : Slot}
    {saved : Option Frame} (resumed : (switchFrom s cpu prev frame).2 = .saved i saved) :
    (s.processes i).state = .ready ∨ i = bootstrap := by
  unfold switchFrom at resumed
  dsimp only at resumed
  split at resumed
  next next found =>
    cases resumed
    exact .inl (selectNext_ready found)
  next =>
    split at resumed
    · split at resumed
      · split at resumed
        · cases resumed
          exact .inr rfl
        · cases resumed
      · cases resumed
    · split at resumed <;> cases resumed

theorem processSchedule_saved {s : System} {cpu : Nat} {acquired : Bool} {frame : Frame} {i : Slot}
    {saved : Option Frame} (resumed : (processSchedule s cpu acquired frame).2 = .saved i saved) :
    (s.processes i).state = .ready ∨ i = bootstrap := by
  cases acquired with
  | false => cases resumed
  | true =>
    obtain ⟨ready,upkeep,_,⟨kept,_⟩ | switched⟩ := processSchedule_acquired s cpu frame
    · rw [kept] at resumed
      cases resumed
    · rw [switched] at resumed
      rw [← control_state (upkeep.control i)]
      exact switchFrom_saved resumed

theorem switchFrom_frame (s : System) (cpu : Nat) (prev : Option Slot) (frame : Frame) (i : Slot) :
    ((switchFrom s cpu prev frame).1.processes i).state = .unused ∨
      ((switchFrom s cpu prev frame).1.processes i).savedFrame = (s.processes i).savedFrame := by
  have left {before : System} (same : (before.processes i).savedFrame = (s.processes i).savedFrame) :
      ((reapPrev before prev).processes i).state = .unused ∨
        ((reapPrev before prev).processes i).savedFrame = (s.processes i).savedFrame := by
    rw [reapPrev_record]
    split
    · exact .inl rfl
    · exact .inr same
  have entered (before : System) (next : Slot)
      (same : (before.processes i).savedFrame = (s.processes i).savedFrame) :
      ((enter before cpu next).processes i).savedFrame = (s.processes i).savedFrame := by
    rw [enter_record]
    split
    · exact same
    · exact same
  unfold switchFrom
  dsimp only
  split
  · apply left
    apply entered
    rw [fpuRestore_processes]
    exact (preempt_record _ _ _ _).1
  split
  · split
    · split
      · exact left (entered s bootstrap rfl)
      · apply left
        unfold setCurrentLocal
        split <;> rfl
    · exact .inr rfl
  · split
    · exact .inr (entered s bootstrap rfl)
    · exact .inr rfl

theorem processSchedule_frame (s : System) (cpu : Nat) (frame : Frame) (i : Slot) :
    ((processSchedule s cpu true frame).1.processes i).state = .unused ∨
      ((processSchedule s cpu true frame).1.processes i).savedFrame =
        if currentLocal s cpu = some i then some frame else (s.processes i).savedFrame := by
  have charged (s : System) (prev : Slot) :
      ((chargeTick s prev).1.processes i).savedFrame = (s.processes i).savedFrame := by
    unfold chargeTick
    dsimp only
    split
    · rfl
    split
    all_goals try split
    all_goals
      rw [setProcess_processes]
      by_cases own : i = prev
      · subst own
        simp
      · simp [own]
  have freed (s : System) (prev : Slot) :
      ((freeDeferred s prev).processes i).savedFrame = (s.processes i).savedFrame := by
    unfold freeDeferred
    dsimp only
    split
    · rfl
    · rw [setProcess_processes]
      by_cases own : i = prev
      · subst own
        simp
      · simp [own]
  have caller : currentLocal (countSchedule s cpu) cpu = currentLocal s cpu := rfl
  unfold processSchedule
  rw [if_neg (by simp)]
  dsimp only
  rw [caller]
  cases currentLocal s cpu with
  | none =>
    rw [if_neg (by simp)]
    exact switchFrom_frame (countSchedule s cpu) cpu none frame i
  | some prev =>
    have saved : ((saveFrame (countSchedule s cpu) prev frame).processes i).savedFrame =
        if some prev = some i then some frame else (s.processes i).savedFrame := by
      unfold saveFrame
      rw [setProcess_processes]
      by_cases own : i = prev
      · subst own
        simp
      · simp [own,Ne.symm own,countSchedule]
    have ticked := charged (saveFrame (countSchedule s cpu) prev frame) prev
    rw [saved] at ticked
    dsimp only
    split
    next v keeps =>
      rw [keeps] at ticked
      exact .inr ticked
    next v gives =>
      rw [gives] at ticked
      have switched := switchFrom_frame (freeDeferred v prev) cpu (some prev) frame i
      rwa [freed,ticked] at switched

theorem switchFrom_reaps {s : System} {i : Slot} (frame : Frame)
    (dead : (s.processes i).state = .zombie) (pending : (s.processes i).reapPending = true)
    (ordinary : i ≠ bootstrap) : ((switchFrom s 0 (some i) frame).1.processes i).state = .unused := by
  have frees (before : System) (next : Slot) (other : next ≠ i)
      (same : (before.processes i).control = (s.processes i).control) :
      ((reapPrev (enter before 0 next) (some i)).processes i).state = .unused := by
    have pending' : (before.processes i).reapPending = true :=
      (congrArg Control.reapPending same).trans pending
    have dead' : (before.processes i).state = .zombie := (control_state same).trans dead
    rw [reapPrev_record,enter_record,if_neg other.symm,if_pos ⟨rfl,pending',dead'⟩]
    rfl
  unfold switchFrom
  dsimp only
  split
  next next found =>
    apply frees
    · intro same
      have ready := selectNext_ready found
      rw [same,dead] at ready
      cases ready
    · rw [fpuRestore_processes,(preempt_record _ _ _ _).2]
      simp [dead]
  next => simpa [dead] using frees s bootstrap ordinary.symm rfl

theorem processSchedule_reaps {s : System} {i : Slot} (frame : Frame)
    (caller : Processes.currentLocal s 0 = some i) (dead : (s.processes i).state = .zombie)
    (pending : (s.processes i).reapPending = true) (ordinary : i ≠ bootstrap) :
    ((processSchedule s 0 true frame).1.processes i).state = .unused := by
  obtain ⟨ready,upkeep,_,⟨_,prev,running⟩ | switched⟩ := processSchedule_acquired s 0 frame
  · rw [caller] at running
    obtain ⟨same,running⟩ := running
    cases same
    simp [dead] at running
  · rw [switched,upkeep.currentLocal,caller]
    exact switchFrom_reaps frame ((control_state (upkeep.control i)).trans dead)
      ((congrArg Control.reapPending (upkeep.control i)).trans pending) ordinary

end LionOS.Processes

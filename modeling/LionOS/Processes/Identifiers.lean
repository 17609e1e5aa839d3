import LionOS.Processes.Counters

/-! The numbers of processes and threads: where the counters that hand them out keep them
unique. -/
namespace LionOS.Processes
open LionOS.Memory LionOS.Physical LionOS.Paging LionOS.Library

def Live (s : System) (i : Slot) : Prop := (s.processes i).state ≠ .unused

instance Live.decidable (s : System) (i : Slot) : Decidable (Live s i) := inferInstanceAs (Decidable (_ ≠ _))

/-- Live processes have distinct pids, live tasks other than the idle task distinct tids,
and none of these numbers is 0. -/
structure UniqueIds (s : System) : Prop where
  pid : ∀ i, Live s i → (s.processes i).isThread = false → (s.processes i).pid ≠ 0
  pids : ∀ i j, i ≠ j → Live s i → Live s j → (s.processes i).isThread = false → (s.processes j).isThread = false →
    (s.processes i).pid ≠ (s.processes j).pid
  tid : ∀ i, i ≠ bootstrap → Live s i → (s.processes i).tid ≠ 0
  tids : ∀ i j, i ≠ j → i ≠ bootstrap → j ≠ bootstrap → Live s i → Live s j →
    (s.processes i).tid ≠ (s.processes j).tid

def FreshPid (s : System) (pid : Nat) : Prop :=
  ∀ i, Live s i → (s.processes i).isThread = false → (s.processes i).pid ≠ pid

def FreshTid (s : System) (tid : Nat) : Prop := ∀ i, i ≠ bootstrap → Live s i → (s.processes i).tid ≠ tid

instance FreshPid.decidable (s : System) (pid : Nat) : Decidable (FreshPid s pid) :=
  inferInstanceAs (Decidable (∀ i, Live s i → (s.processes i).isThread = false → (s.processes i).pid ≠ pid))

instance FreshTid.decidable (s : System) (tid : Nat) : Decidable (FreshTid s tid) :=
  inferInstanceAs (Decidable (∀ i, i ≠ bootstrap → Live s i → (s.processes i).tid ≠ tid))

/-- The record that a call takes away where it takes away one. -/
def collected (s : System) : Call → Option Slot
  | .waitpid pid _ => match currentLocal s 0 with
    | none => none
    | some c => findZombieChild s (s.processes c).pid pid
  | .reapPid pid => findPid s pid
  | _ => none

/-- The counters hold numbers that no live task has when a call takes them. -/
def Issues (s : System) : Call → Prop
  | .create _ _ _ _ _ _ => FreshPid s s.nextPid ∧ FreshTid s s.nextTid
  | .fork _ => FreshPid s s.nextPid ∧ FreshTid s (nextTidAfter s.nextTid)
  | .createKernelThread _ => FreshTid s s.nextTid
  | .createUserThread _ => FreshTid s s.nextTid
  | _ => True

/-- A call hands out no number of a live task, and no call but the scheduler takes away the
record of the task on the CPU. -/
def Numbered (s : System) (call : Call) : Prop :=
  Issues s call ∧ ∀ c, currentLocal s 0 = some c → collected s call ≠ some c

instance Issues.decidable (s : System) : ∀ call, Decidable (Issues s call)
  | .create _ _ _ _ _ _ => inferInstanceAs (Decidable (_ ∧ _))
  | .fork _ => inferInstanceAs (Decidable (_ ∧ _))
  | .createKernelThread _ => inferInstanceAs (Decidable (FreshTid _ _))
  | .createUserThread _ => inferInstanceAs (Decidable (FreshTid _ _))
  | .schedule _ _ | .requestReschedule | .replace _ _ _ _ _ _ | .exit _ | .waitpid _ _ | .joinThread _ _ | .sleepOn _
  | .wakeup _ | .kill _ _ | .reapPid _ | .setPriority _ _ | .setCapabilities _ _ | .memory _ => isTrue trivial

instance Numbered.decidable (s : System) (call : Call) : Decidable (Numbered s call) :=
  inferInstanceAs (Decidable (Issues s call ∧ _))

/-! ### The task on the CPU -/

/-- The task on the boot CPU, where there is one, is live. -/
def Occupied (s : System) : Prop := ∀ c, currentLocal s 0 = some c → Live s c

theorem switchFrom_occupied {s : System} (occupied : Occupied s) (frame : Frame) :
    Occupied (switchFrom s 0 (currentLocal s 0) frame).1 := by
  have enters (before : System) (prev : Option Slot) (next : Slot) : Occupied (reapPrev (enter before 0 next) prev) := by
    intro c current
    rw [reapPrev_current,enter_current] at current
    cases current
    unfold Live
    rw [enter_running,enter_record,if_pos rfl]
    nofun
  unfold switchFrom
  dsimp only
  split
  · exact enters _ _ _
  split
  · split
    · exact enters _ _ _
    · exact occupied
  · exact enters _ none _

theorem schedule_occupied {s : System} (occupied : Occupied s) (acquired : Bool) (frame : Frame) :
    Occupied (processSchedule s 0 acquired frame).1 := by
  cases acquired with
  | false => exact occupied
  | true =>
    obtain ⟨ready,upkeep,_,scheduled⟩ := processSchedule_acquired s 0 frame
    have before : Occupied ready := by
      intro c current
      rw [upkeep.currentLocal] at current
      unfold Live
      rw [control_state (upkeep.control c)]
      exact occupied c current
    rcases scheduled with ⟨kept,_⟩ | switched
    · rw [kept]
      exact before
    · rw [switched]
      exact switchFrom_occupied before frame

theorem effect_alive {s : System} {call : Call} {i : Slot} {p : Process} (reaps : call.reaps = false) (live : Live s i)
    (effect : Effect s call i p) : p.state ≠ .unused := by
  have through {c : Control} (same : p.control = c) (alive : c.state ≠ .unused) : p.state ≠ .unused := by
    rw [← same] at alive
    exact alive
  cases effect with
  | kept same => exact through same live
  | scheduled => cases reaps
  | spawned free => exact absurd free live
  | replaced _ _ same => exact through same live
  | terminated _ same => exact through same nofun
  | stopped _ same => exact through same nofun
  | continued _ _ same => exact through same nofun
  | reaped collects =>
    rw [reaps] at collects
    cases collects
  | parentReleased | joinerReleased | woken | waits | joins | sleeps => nofun

/-- A call that is not the scheduler takes the record of the task on the CPU away only
where it is the one it collects. -/
theorem step_alive {s : System} {call : Call} {c : Slot} (sound : Sound s) (serving : call.schedules = false)
    (caller : currentLocal s 0 = some c) (live : Live s c) (other : collected s call ≠ some c) :
    Live (step s call) c := by
  have reaped (s' : System) (table : s'.processes = s.processes) {z : Slot} (apart : c ≠ z) :
      Live (reapProcess s' z) c := by
    unfold Live
    rw [reapProcess_record,if_neg (fun dead => apart dead.2),table]
    exact live
  cases call with
  | waitpid pid statusPtr =>
    simp only [collected,caller] at other
    simp only [step,processWaitpid,caller]
    split
    · exact live
    split
    next z found =>
      rw [found] at other
      split
      · exact live
      next vm _ => exact reaped {s with vm} rfl (fun own => other (congrArg some own.symm))
    split
    · unfold Live
      rw [setProcess_processes,Function.update_self]
      simp
    · exact live
  | joinThread tid statusPtr =>
    simp only [step,processJoinThread,caller]
    split
    · exact live
    next valid =>
      split
      · exact live
      next i found =>
        split
        · split
          · exact live
          next vm _ =>
            refine reaped {s with vm} rfl ?_
            rintro rfl
            exact valid (.inl (joinTarget_found found).2.1)
        · unfold Live
          rw [setProcess_processes,Function.update_self]
          simp
  | reapPid pid =>
    simp only [collected] at other
    simp only [step,processReapPid]
    split
    · exact live
    next z found =>
      rw [found] at other
      split
      · exact live
      · exact reaped s rfl (fun own => other (congrArg some own.symm))
  | schedule => cases serving
  | _ => exact effect_alive rfl live (step_effect s sound.counter _ c)

theorem step_occupied {s : System} {call : Call} (sound : Sound s) (occupied : Occupied s)
    (numbered : Numbered s call) : Occupied (step s call) := by
  cases serving : call.schedules with
  | false =>
    have current := step_current s sound.counter call (by rintro acquired frame rfl; cases serving)
    intro c caller
    have caller : currentLocal s 0 = some c := by simpa only [currentLocal,current] using caller
    exact step_alive sound serving caller (occupied c caller) (numbered.2 c caller)
  | true =>
    cases call with
    | schedule acquired frame => exact schedule_occupied occupied acquired frame
    | _ => cases serving

/-! ### Uniqueness -/

section Uniqueness
variable {s s' : System} {call : Call}

/-- The numbers of the live tasks are the numbers that they had before. -/
theorem UniqueIds.keeps (unique : UniqueIds s)
    (kept : ∀ i, Live s' i → Live s i ∧ (s'.processes i).pid = (s.processes i).pid ∧
      (s'.processes i).tid = (s.processes i).tid ∧ (s'.processes i).isThread = (s.processes i).isThread) :
    UniqueIds s' := by
  constructor
  · intro i live process
    obtain ⟨before,pid,_,thread⟩ := kept i live
    rw [pid]
    exact unique.pid i before (thread ▸ process)
  · intro i j apart live live' process process'
    obtain ⟨before,pid,_,thread⟩ := kept i live
    obtain ⟨before',pid',_,thread'⟩ := kept j live'
    rw [pid,pid']
    exact unique.pids i j apart before before' (thread ▸ process) (thread' ▸ process')
  · intro i ordinary live
    obtain ⟨before,_,tid,_⟩ := kept i live
    rw [tid]
    exact unique.tid i ordinary before
  · intro i j apart ordinary ordinary' live live'
    obtain ⟨before,_,tid,_⟩ := kept i live
    obtain ⟨before',_,tid',_⟩ := kept j live'
    rw [tid,tid']
    exact unique.tids i j apart ordinary ordinary' before before'

/-- A new record with numbers that no live task has. -/
theorem UniqueIds.born (unique : UniqueIds s) {k : Slot} {p : Process}
    (table : s'.processes = Function.update s.processes k p)
    (pid : p.isThread = false → p.pid ≠ 0 ∧ FreshPid s p.pid) (tid : p.tid ≠ 0) (fresh : FreshTid s p.tid) :
    UniqueIds s' := by
  have record : s'.processes k = p := by rw [table,Function.update_self]
  have others {i : Slot} (other : i ≠ k) : s'.processes i = s.processes i := by
    rw [table,Function.update_of_ne other]
  have old {i : Slot} (other : i ≠ k) (live : Live s' i) : Live s i := by
    unfold Live at live
    rwa [others other] at live
  constructor
  · intro i live process
    by_cases new : i = k
    · rw [new,record] at process ⊢
      exact (pid process).1
    · rw [others new] at process ⊢
      exact unique.pid i (old new live) process
  · intro i j apart live live' process process'
    by_cases new : i = k
    · have other : j ≠ k := fun same => apart (new.trans same.symm)
      rw [others other] at process' ⊢
      rw [new,record] at process ⊢
      exact ((pid process).2 j (old other live') process').symm
    · rw [others new] at process ⊢
      by_cases new' : j = k
      · rw [new',record] at process' ⊢
        exact (pid process').2 i (old new live) process
      · rw [others new'] at process' ⊢
        exact unique.pids i j apart (old new live) (old new' live') process process'
  · intro i own live
    by_cases new : i = k
    · rw [new,record]
      exact tid
    · rw [others new]
      exact unique.tid i own (old new live)
  · intro i j apart own own' live live'
    by_cases new : i = k
    · have other : j ≠ k := fun same => apart (new.trans same.symm)
      rw [others other,new,record]
      exact (fresh j own' (old other live')).symm
    · rw [others new]
      by_cases new' : j = k
      · rw [new',record]
        exact fresh i own (old new live)
      · rw [others new']
        exact unique.tids i j apart own own' (old new live) (old new' live')

theorem born_unique (sound : Sound s) (positive : s.nextPid ≠ 0) (unique : UniqueIds s) (numbered : Numbered s call)
    {k : Slot} {p : Process} (born : Born s call p)
    (table : s'.processes = Function.update s.processes k p) : UniqueIds s' := by
  cases born with
  | process identity =>
    have pid : p.pid = s.nextPid := congrArg Identity.pid identity
    have tid : p.tid = s.nextTid := congrArg Identity.tid identity
    refine unique.born table (fun _ => ?_) ?_ ?_
    · rw [pid]
      exact ⟨positive,numbered.1.1⟩
    · rw [tid]
      exact sound.counter
    · rw [tid]
      exact numbered.1.2
  | forked caller user pages identity =>
    have pid : p.pid = s.nextPid := congrArg Identity.pid identity
    have tid : p.tid = nextTidAfter s.nextTid := congrArg Identity.tid identity
    refine unique.born table (fun _ => ?_) ?_ ?_
    · rw [pid]
      exact ⟨positive,numbered.1.1⟩
    · rw [tid]
      exact nextTidAfter_ne_zero _
    · rw [tid]
      exact numbered.1.2
  | kernelThread identity =>
    have thread : p.isThread = true := congrArg Identity.isThread identity
    have tid : p.tid = s.nextTid := congrArg Identity.tid identity
    refine unique.born table (fun process => ?_) ?_ ?_
    · rw [thread] at process
      cases process
    · rw [tid]
      exact sound.counter
    · rw [tid]
      exact numbered.1
  | userThread caller user identity =>
    have thread : p.isThread = true := congrArg Identity.isThread identity
    have tid : p.tid = s.nextTid := congrArg Identity.tid identity
    refine unique.born table (fun process => ?_) ?_ ?_
    · rw [thread] at process
      cases process
    · rw [tid]
      exact sound.counter
    · rw [tid]
      exact numbered.1

theorem follows_unique (occupied : Occupied s) (unique : UniqueIds s)
    (follows : ∀ i, Follows s call i (s'.processes i)) : UniqueIds s' := by
  refine unique.keeps fun i live => ?_
  have change := follows i
  unfold Live at live
  generalize s'.processes i = p at change live
  cases change with
  | kept same alive =>
    refine ⟨?_,congrArg Identity.pid same,congrArg Identity.tid same,congrArg Identity.isThread same⟩
    rcases alive live with before | caller
    · exact before
    · exact occupied i caller
  | reaped _ free => exact absurd free live
  | moved _ _ state same =>
    rw [state] at live
    exact ⟨live,congrArg Identity.pid same,congrArg Identity.tid same,congrArg Identity.isThread same⟩

end Uniqueness

/-- What the numbers rest on: the records of live tasks are not taken away under them, and
the counter of pids is never 0. -/
structure Registered (s : System) : Prop where
  sound : Sound s
  counter : s.nextPid ≠ 0
  occupied : Occupied s
  unique : UniqueIds s

theorem registered_step {s : System} (registered : Registered s) (call : Call) (numbered : Numbered s call) :
    Registered (step s call) := by
  obtain ⟨sound,counter,occupied,unique⟩ := registered
  refine ⟨sound_step sound call,step_nextPid counter call,step_occupied sound occupied numbered,?_⟩
  rcases step_identity s sound call with (table | ⟨k,p,_,_,born,table⟩) | follows
  · refine unique.keeps fun i live => ?_
    unfold Live at live
    rw [table] at live ⊢
    exact ⟨live,rfl,rfl,rfl⟩
  · exact born_unique sound counter unique numbered born table
  · exact follows_unique occupied unique follows

theorem boot_registered (s : System) (idle schedule : Nat) : Registered (boot s idle schedule) := by
  have counter : (boot s idle schedule).nextPid = 2 := by
    unfold boot processInit setCurrentLocal
    dsimp only
    split
    all_goals split <;> rfl
  have live {i : Slot} (live : Live (boot s idle schedule) i) : i = bootstrap := by
    by_contra other
    apply live
    refine (congrArg Control.state (boot_record s idle schedule i)).trans ?_
    rw [if_neg other]
    rfl
  refine ⟨boot_sound s idle schedule,by rw [counter]; nofun,?_,?_,?_,?_,?_⟩
  · intro c current
    rw [boot_current] at current
    cases current
    exact (boot_sound s idle schedule).taken
  · intro i alive _
    rw [live alive]
    have pid : ((boot s idle schedule).processes bootstrap).pid = 1 :=
      congrArg Control.pid (boot_record s idle schedule bootstrap)
    rw [pid]
    nofun
  · intro i j apart alive alive'
    exact absurd ((live alive).trans (live alive').symm) apart
  · intro i ordinary alive
    exact absurd (live alive) ordinary
  · intro i j _ ordinary _ alive
    exact absurd (live alive) ordinary

/-- In a run in which no number is given out that a live task has, and in which the task
on the CPU is collected by nobody, identifiers stay unique. -/
theorem ids_unique (s : System) (idle schedule : Nat) (calls : List Call)
    (numbered : Meets step Numbered (boot s idle schedule) calls) :
    UniqueIds (run step (boot s idle schedule) calls) := by
  have preserved (s : System) (call : Call) (registered : Registered s) (numbered : Numbered s call) :
      Registered (step s call) := registered_step registered call numbered
  exact (numbered.invariant preserved (boot_registered s idle schedule)).unique

theorem family_unique : UniqueIds (run step (boot blank 0x1000 0x2000)
    (launch (boot blank 0x1000 0x2000) ++ [.fork zeroFrame,.createUserThread 0x8048000])) :=
  ids_unique blank 0x1000 0x2000 _ (by decide +kernel)

/-! ### A long run -/

theorem find_slot_only {test : Slot → Bool} {i : Slot} (holds : test i = true) (only : ∀ j, test j = true → j = i) :
    (List.finRange processMax).find? test = some i := by
  cases found : (List.finRange processMax).find? test with
  | none =>
    have absent := find_none found i
    rw [holds] at absent
    cases absent
  | some j => rw [only j (find_slot found)]

/-- The memory, the address space and the shared pages of a fork of `parent` that succeeds. -/
def forkMemory (vm : Vm) (parent : Process) : Option (Vm × Nat × List ForkPage) :=
  match pagingCreateAddressSpace vm with
  | none => none
  | some (vm,pd) =>
    match forkShare parent.pageDirectory pd ((List.range parent.userPageCount).map parent.userPageVas) vm [] with
    | (_,_,false) => none
    | (vm,shared,true) => match forkProtect parent.pageDirectory shared vm 0 with
      | (_,_,false) => none
      | (vm,_,true) => if pd = 0 then none
        else (pageAlloc vm.pages).map fun (pages,_) => ({vm with pages},pd,shared)

/-- A fork that succeeds puts a READY child of the caller into a free slot. -/
theorem fork_succeeds {s : System} {c k : Slot} {vm : Vm} {pd : Nat} {shared : List ForkPage} (frame : Frame)
    (caller : currentLocal s 0 = some c) (ordinary : c ≠ bootstrap)
    (pages : 0 < (s.processes c).userPageCount ∧ (s.processes c).userPageCount ≤ maxUserPages)
    (free : findFreeSlot s = some k) (memory : forkMemory s.vm (s.processes c) = some (vm,pd,shared)) :
    ∃ child, (processForkCurrent s 0 frame).1.vm = vm ∧
      (processForkCurrent s 0 frame).1.processes = Function.update s.processes k child ∧
      (processForkCurrent s 0 frame).1.nextPid = nextPidAfter s.nextPid ∧ child.state = .ready ∧
      child.pid = s.nextPid ∧ child.parentPid = (s.processes c).pid ∧ child.isThread = false := by
  unfold forkMemory at memory
  cases space : pagingCreateAddressSpace s.vm with
  | none => simp [space] at memory
  | some made =>
    obtain ⟨first,directory⟩ := made
    simp only [space] at memory
    split at memory
    · cases memory
    next second copied sharing =>
      split at memory
      · cases memory
      next third cowed protecting =>
        split at memory
        · cases memory
        next nonzero =>
          obtain ⟨⟨frames,stack⟩,stackPage,result⟩ := Option.map_eq_some_iff.mp memory
          cases result
          have empty : (s.processes c).userPageCount ≠ 0 := by omega
          have within : ¬ (s.processes c).userPageCount > maxUserPages := by omega
          have unused : findFreeSlot {s with vm := third} = some k := free
          have current : currentLocal {s with vm := third} 0 = some c := caller
          simp only [processForkCurrent,caller,ordinary,empty,or_self,if_false,free,space,sharing,protecting,
            processCreateExVasLocked,unused,nonzero,within,stackPage,current,setProcess,Function.update_self,
            Function.update_idem]
          exact ⟨_,trivial,rfl,trivial,rfl,rfl,rfl,rfl⟩

/-- A program that has just been started, and its record. -/
def started : System := run step (boot blank 0x1000 0x2000) (launch (boot blank 0x1000 0x2000))

def program : Process := started.processes 1

/-- The program forks, kills its child and waits for it. The children of earlier rounds are
gone, and their memory has been given back. -/
def round (pid : Nat) : List Call :=
  [.memory started.vm,.fork zeroFrame,.kill pid sigKill,.waitpid pid 0x8048000]

def rounds : Nat → List Call
  | 0 => []
  | m+1 => rounds m ++ round (3 + m)

/-- The program is the only task beside the idle task. -/
structure Alone (s : System) (pid : Nat) : Prop where
  current : currentLocal s 0 = some 1
  idle : (s.processes 0).state = .ready ∧ (s.processes 0).pid = 1
  own : s.processes 1 = program
  free : ∀ i, i ≠ 0 → i ≠ 1 → (s.processes i).state = .unused
  next : s.nextPid = pid

theorem started_alone : Alone started 3 :=
  ⟨by decide +kernel,by decide +kernel,rfl,by decide +kernel,by decide +kernel⟩

/-- The memory that a fork of the program leaves. -/
def forked : Vm × Nat × List ForkPage := (forkMemory started.vm program).getD (started.vm,0,[])

theorem started_forks : forkMemory started.vm program = some forked := by
  have success : (forkMemory started.vm program).isSome = true := by decide +kernel
  obtain ⟨result,made⟩ := Option.isSome_iff_exists.mp success
  rw [forked,made]
  rfl

/-- The program with a child: the state that a fork leaves. -/
structure Parental (s : System) (k : Slot) (pid next : Nat) : Prop where
  current : currentLocal s 0 = some 1
  idle : (s.processes 0).state = .ready ∧ (s.processes 0).pid = 1
  own : s.processes 1 = program
  apart : k ≠ 0 ∧ k ≠ 1
  child : (s.processes k).pid = pid ∧ (s.processes k).parentPid = 2 ∧ (s.processes k).isThread = false
  free : ∀ i, i ≠ 0 → i ≠ 1 → i ≠ k → (s.processes i).state = .unused
  next : s.nextPid = next
  vm : s.vm = forked.1

theorem Alone.memory {s : System} {pid : Nat} (alone : Alone s pid) (vm : Vm) : Alone (step s (.memory vm)) pid :=
  ⟨alone.current,alone.idle,alone.own,alone.free,alone.next⟩

theorem Alone.fork {s : System} {pid : Nat} (alone : Alone s pid) (memory : s.vm = started.vm) :
    ∃ k, Parental (step s (.fork zeroFrame)) k pid (nextPidAfter pid) ∧
      ((step s (.fork zeroFrame)).processes k).state = .ready := by
  obtain ⟨current,idle,own,unused,next⟩ := alone
  obtain ⟨k,free⟩ : ∃ k, findFreeSlot s = some k := by
    cases found : findFreeSlot s with
    | none =>
      have absent := find_none found 2
      simp [unused 2 (by decide) (by decide)] at absent
    | some k => exact ⟨k,rfl⟩
  have empty := findFreeSlot_unused free
  have apart : k ≠ 0 ∧ k ≠ 1 := by
    constructor
    · rintro rfl
      rw [idle.1] at empty
      cases empty
    · rintro rfl
      rw [own] at empty
      exact absurd empty (by decide +kernel)
  have forks : forkMemory s.vm (s.processes 1) = some (forked.1,forked.2.1,forked.2.2) := by
    rw [own,memory]
    exact started_forks
  have pages : 0 < (s.processes 1).userPageCount ∧ (s.processes 1).userPageCount ≤ maxUserPages := by
    rw [own]
    decide +kernel
  have caller := (processForkCurrent_creates s 0 zeroFrame).current
  obtain ⟨child,vm,table,counter,ready,number,parent,process⟩ :=
    fork_succeeds zeroFrame current (by decide) pages free forks
  have record : (step s (.fork zeroFrame)).processes k = child := by simp only [step,table,Function.update_self]
  have others {i : Slot} (other : i ≠ k) : (step s (.fork zeroFrame)).processes i = s.processes i := by
    simp only [step,table,Function.update_of_ne other]
  refine ⟨k,⟨?_,?_,?_,apart,?_,?_,?_,vm⟩,by rw [record]; exact ready⟩
  · simp only [step,currentLocal,caller]
    exact current
  · rw [others apart.1.symm]
    exact idle
  · rw [others apart.2.symm]
    exact own
  · rw [record]
    refine ⟨number.trans next,parent.trans ?_,process⟩
    rw [own]
    decide +kernel
  · intro i idle own other
    rw [others other]
    exact unused i idle own
  · rw [← next]
    exact counter

/-- The child of the program is the record with its pid. -/
theorem Parental.found {s : System} {k : Slot} {pid next : Nat} (parental : Parental s k pid next)
    (live : (s.processes k).state ≠ .unused) (above : 2 < pid) : findPid s pid = some k := by
  apply find_slot_only
  · simp [live,parental.child.1]
  · intro j test
    simp only [Bool.and_eq_true,decide_eq_true_eq] at test
    by_contra other
    by_cases idle : j = 0
    · rw [idle,parental.idle.2] at test
      omega
    by_cases own : j = 1
    · rw [own,parental.own] at test
      have number : program.pid = 2 := by decide +kernel
      omega
    · exact test.1 (parental.free j idle own other)

theorem Parental.kill {s : System} {k : Slot} {pid next : Nat} (parental : Parental s k pid next)
    (ready : (s.processes k).state = .ready) (above : 2 < pid) :
    Parental (step s (.kill pid sigKill)) k pid next ∧
      ((step s (.kill pid sigKill)).processes k).state = .zombie ∧
      ((step s (.kill pid sigKill)).processes k).exitCode = 137 := by
  have target := parental.found (by rw [ready]; nofun) above
  obtain ⟨current,idle,own,apart,child,free,counter,vm⟩ := parental
  have number : currentPid s 0 = 2 := by
    rw [currentPid,current]
    dsimp only
    rw [own]
    decide +kernel
  have capable : hasCap s 0 capProcess = true := by
    rw [hasCap,current]
    dsimp only
    rw [own]
    decide +kernel
  have descends : processIsDescendantOrChild s pid 2 = true := by simp [processIsDescendantOrChild,target,child.2.1]
  have permitted : killPermitted s 0 pid sigKill = true := by
    simp only [killPermitted,capable,processExists,target,number,descends]
    have distinct : pid ≠ 0 ∧ pid ≠ 2 := by omega
    simp [distinct,sigKill,sigMax]
  have silent : waitingParent (terminate (setProcess s k {s.processes k with
      pendingSignals := (s.processes k).pendingSignals ||| signalBit sigKill}) k 137) k = none := by
    cases found : waitingParent (terminate (setProcess s k {s.processes k with
      pendingSignals := (s.processes k).pendingSignals ||| signalBit sigKill}) k 137) k with
    | none => rfl
    | some i =>
      obtain ⟨ordinary,waiting,_⟩ := waitingParent_found found
      rw [terminate_processes,setProcess_processes,Function.update_idem] at waiting
      by_cases other : i = k
      · rw [other,Function.update_self] at waiting
        cases waiting
      rw [Function.update_of_ne other] at waiting
      by_cases caller : i = 1
      · rw [caller,own] at waiting
        exact absurd waiting (by decide +kernel)
      · rw [free i ordinary caller other] at waiting
        cases waiting
  have result : step s (.kill pid sigKill) = terminate (setProcess s k {s.processes k with
      pendingSignals := (s.processes k).pendingSignals ||| signalBit sigKill}) k 137 := by
    have valid : ¬ (k = bootstrap ∨ sigKill = 0 ∨ sigKill > sigMax) := by
      rintro (same | rest)
      · exact apart.1 same
      · revert rest
        decide
    simp only [step,sysKill,permitted,if_true,processSignal,target,if_neg valid,true_or]
    rw [wakeWaitingParent]
    simp only [show 128 + sigKill = 137 from rfl,silent]
  have record : (step s (.kill pid sigKill)).processes = Function.update s.processes k {s.processes k with
      pendingSignals := (s.processes k).pendingSignals ||| signalBit sigKill,exitCode := 137,state := .zombie} := by
    rw [result,terminate_processes,setProcess_processes,Function.update_idem,Function.update_self]
  refine ⟨⟨?_,?_,?_,apart,?_,?_,?_,?_⟩,?_,?_⟩
  · rw [result]
    exact current
  · rw [record,Function.update_of_ne apart.1.symm]
    exact idle
  · rw [record,Function.update_of_ne apart.2.symm]
    exact own
  · rw [record,Function.update_self]
    exact child
  · intro i idle own other
    rw [record,Function.update_of_ne other]
    exact free i idle own other
  · rw [result]
    exact counter
  · rw [result]
    exact vm
  · rw [record,Function.update_self]
  · rw [record,Function.update_self]

theorem Parental.waitpid {s : System} {k : Slot} {pid next : Nat} (parental : Parental s k pid next)
    (dead : (s.processes k).state = .zombie) (code : (s.processes k).exitCode = 137) :
    Alone (step s (.waitpid pid 0x8048000)) next := by
  obtain ⟨current,idle,own,apart,child,free,counter,vm⟩ := parental
  have number : (s.processes 1).pid = 2 := by
    rw [own]
    decide +kernel
  have found : findZombieChild s 2 pid = some k := by
    apply find_slot_only
    · have ordinary : k ≠ bootstrap := apart.1
      simp [ordinary,isChildOf,dead,child]
    · intro j test
      simp only [Bool.and_eq_true,decide_eq_true_eq] at test
      obtain ⟨⟨ordinary,_⟩,dead⟩ := test
      by_contra other
      by_cases caller : j = 1
      · rw [caller,own] at dead
        exact absurd dead (by decide +kernel)
      · rw [free j ordinary caller other] at dead
        cases dead
  have stored : (writeUserU32 s.vm (s.processes 1).pageDirectory 0x8048000 (s.processes k).exitCode).2 = true := by
    rw [vm,own,code]
    decide +kernel
  obtain ⟨reaped,result⟩ : ∃ vm, step s (.waitpid pid 0x8048000) = reapProcess {s with vm} k := by
    simp only [step,processWaitpid,current,number,found]
    rw [if_neg (by decide)]
    cases written : writeUserU32 s.vm (s.processes 1).pageDirectory 0x8048000 (s.processes k).exitCode with
    | mk vm success =>
      rw [written] at stored
      cases stored
      exact ⟨vm,rfl⟩
  have steady := reapProcess_steady {s with vm := reaped} k
  have record (i : Slot) : (step s (.waitpid pid 0x8048000)).processes i =
      if i = k then clearProcess (s.processes i) else s.processes i := by
    rw [result,reapProcess_record]
    simp only [dead,true_and]
  refine ⟨?_,?_,?_,?_,?_⟩
  · rw [result]
    simp only [currentLocal,reapProcess_current]
    exact current
  · rw [record,if_neg apart.1.symm]
    exact idle
  · rw [record,if_neg apart.2.symm]
    exact own
  · intro i idle own
    rw [record]
    split
    · rfl
    next other => exact free i idle own other
  · rw [result,reapProcess_nextPid]
    exact counter

theorem Alone.round {s : System} {pid : Nat} (alone : Alone s pid) (above : 2 < pid) :
    Alone (run step s (round pid)) (nextPidAfter pid) := by
  obtain ⟨k,parental,ready⟩ := (alone.memory started.vm).fork rfl
  obtain ⟨killed,dead,code⟩ := parental.kill ready above
  exact killed.waitpid dead code

theorem nextPidAfter_small {pid : Nat} (small : pid + 1 < 2^32) : nextPidAfter pid = pid + 1 := by
  unfold nextPidAfter wrap
  rw [Nat.mod_eq_of_lt small,if_neg (Nat.succ_ne_zero pid)]

theorem rounds_alone (m : Nat) (small : 3 + m < 2^32) : Alone (run step started (rounds m)) (3 + m) := by
  induction m with
  | zero =>
    rw [rounds,run_nil]
    exact started_alone
  | succ m ih =>
    rw [rounds,run_append]
    have next := (ih (by omega)).round (by omega)
    rw [nextPidAfter_small (by omega)] at next
    exact next

theorem program_again : ∃ calls, Alone (run step (boot blank 0x1000 0x2000) calls) 2 := by
  have last := (rounds_alone (2^32 - 4) (by omega)).round (by omega)
  have wrapped : nextPidAfter (3 + (2^32 - 4)) = 2 := by decide
  rw [wrapped] at last
  generalize rounds (2^32 - 4) = before at last
  refine ⟨launch (boot blank 0x1000 0x2000) ++ (before ++ Processes.round (3 + (2^32 - 4))),?_⟩
  rw [run_append,run_append]
  exact last

/-- When the counter stands at the pid of the program, its next child gets that pid too. -/
theorem Alone.twice {s : System} (alone : Alone s 2) : ¬ UniqueIds (run step s [.memory started.vm,.fork zeroFrame]) := by
  intro unique
  obtain ⟨k,parental,ready⟩ := (alone.memory started.vm).fork rfl
  have state : program.state ≠ .unused := by decide +kernel
  have process : program.isThread = false := by decide +kernel
  have pid : program.pid = 2 := by decide +kernel
  rw [← parental.own] at state process pid
  refine unique.pids 1 k parental.apart.2.symm state ?_ process parental.child.2.2 ?_
  · intro free
    have clash := ready.symm.trans free
    cases clash
  · exact pid.trans parental.child.1.symm

/-- After 2^32 - 3 children the counter starts again at 2, which is the pid of the program. -/
theorem pid_given_twice : ¬ ∀ (s : System) (idle schedule : Nat) (calls : List Call),
    UniqueIds (run step (boot s idle schedule) calls) := by
  intro unique
  obtain ⟨calls,alone⟩ := program_again
  apply alone.twice
  rw [← run_append]
  exact unique blank 0x1000 0x2000 _

end LionOS.Processes

import LionOS.Calls.Silence
import LionOS.Processes.Estates

/-! A wait for a task that ends before the call and one for a task that ends while the caller is
blocked in it: two ways through `process.c` to the same result, or not. -/
namespace LionOS.Processes
open LionOS.Memory LionOS.Physical LionOS.Paging LionOS.Library

/-- What a task waits for: a child, where 0 is any child, or a thread of its group. -/
inductive Await where
  | child (pid : Nat)
  | thread (tid : Nat)

def Await.call (s : System) (ptr : Nat) : Await → System × Int
  | .child pid => processWaitpid s 0 pid ptr
  | .thread tid => processJoinThread s 0 tid ptr

/-- A task ends on its own account or after a fault, or another task ends it. -/
inductive Ending where
  | exits (code : Nat)
  | killed (signal : Nat)

def Ending.code : Ending → Nat
  | .exits code => code
  | .killed signal => 128 + signal

inductive Ends (i : Slot) (s : System) : Ending → System → Prop
  | exits {code : Nat} (running : currentLocal s 0 = some i) : Ends i s (.exits code) (processExitCurrent s 0 code)
  | killed {signal : Nat} (fatal : signal = sigKill ∨ signal = sigTerm) (other : currentLocal s 0 ≠ some i)
      (target : findPid s (s.processes i).pid = some i) :
      Ends i s (.killed signal) (processSignal s (s.processes i).pid signal).1

/-- The fields of a record that the scheduler does not touch; it is the same to them whether
the task runs or could run. -/
def Process.bond (p : Process) : Control := {p.control with state := if p.state = .running then .ready else p.state}

/-- The task is one that the caller waits for. -/
def Await.Meant (caller p : Process) : Await → Prop
  | .child pid => p.isThread = false ∧ isChildOf p caller.pid pid = true
  | .thread tid => p.isThread = true ∧ p.threadGroupPid = caller.threadGroupPid ∧ p.tid = tid

/-- The caller cannot collect this task instead, nor does it wait for the same end. -/
def Await.Bystander (caller target p : Process) : Await → Prop
  | .child pid => (isChildOf p caller.pid pid = true → p.state ≠ .zombie) ∧
      (p.state = .waiting → p.pid = caller.pid → p.waitPid ≠ 0 ∧ p.waitPid ≠ target.pid)
  | .thread tid => (p.isThread = true → p.threadGroupPid = caller.threadGroupPid → p.tid ≠ tid) ∧
      (p.state = .waiting → p.isThread = false → p.joinTid ≠ tid)

/-- A caller, a task that it can wait for, and nobody else whom that concerns. Threads end on
their own account only. -/
structure Company (w : Await) (e : Ending) (c i : Slot) (s : System) : Prop where
  apart : c ≠ i
  caller : c ≠ bootstrap
  target : i ≠ bootstrap
  meant : w.Meant (s.processes c) (s.processes i)
  fresh : (s.processes i).reapPending = false
  joins : ∀ tid, w = .thread tid → (s.processes c).isThread = false ∧ tid ≠ 0 ∧ ∃ code, e = .exits code
  others : ∀ j, j ≠ c → j ≠ i → w.Bystander (s.processes c) (s.processes i) (s.processes j)

/-- The caller can run, and the task has not ended. -/
structure Scene (w : Await) (e : Ending) (c i : Slot) (ptr : Nat) (s : System) : Prop extends Company w e c i s where
  pointer : ptr ≠ 0
  runs : (s.processes c).bond.state = .ready
  alive : (s.processes i).state ≠ .zombie
  small : (s.processes i).pid < 2^32 ∧ (s.processes i).tid < 2^32

/-- What happens between the calls: the scheduler switches tasks, and other tasks do what
concerns neither the two nor memory. -/
structure Quiet (w : Await) (c i : Slot) (s s' : System) : Prop where
  caller : (s'.processes c).bond = (s.processes c).bond
  target : (s'.processes i).bond = (s.processes i).bond
  others : ∀ j, j ≠ c → j ≠ i → w.Bystander (s.processes c) (s.processes i) (s'.processes j)
  vm : ∃ directory, s'.vm = {s.vm with currentDirectory := directory}

/-- The task ends, then the caller gets the CPU. -/
inductive Early (w : Await) (e : Ending) (c i : Slot) (s : System) : System → Prop
  | ended {t u v : System} (before : Quiet w c i s t) (ends : Ends i t e u) (after : Quiet w c i u v)
      (running : currentLocal v 0 = some c) : Early w e c i s v

/-- The caller calls, the scheduler keeps its frame, and the task ends; then the scheduler is
called where the task that ended was running. -/
inductive Late (w : Await) (e : Ending) (c i : Slot) (ptr : Nat) (s : System) : System → Prop
  | ended {t u v : System} {frame frame' : Frame} (before : Quiet w c i s t) (running : currentLocal t 0 = some c)
      (after : Quiet w c i (w.call t ptr).1 u) (blocked : currentLocal u 0 ≠ some c)
      (saved : (u.processes c).savedFrame = some frame) (ends : Ends i u e v)
      (calm : ∀ k, currentLocal v 0 = some k → k ≠ i → (v.processes k).reapPending = false) :
      Late w e c i ptr s (processSchedule v 0 true frame').1

/-- What user mode gets back, what memory holds and which user words the kernel has stored to,
and whether the slot of the task is free. -/
structure Outcome where
  value : Option Nat
  memory : Mem
  stores : List UserStore
  reclaimed : Bool

def Await.collected (w : Await) (s : System) (i : Slot) (ptr : Nat) : Outcome :=
  let (s,value) := w.call s ptr
  ⟨some (toU32 value),s.vm.mem,s.vm.userStores,decide ((s.processes i).state = .unused)⟩

def delivered (s : System) (c i : Slot) : Outcome :=
  ⟨(s.processes c).savedFrame.map Frame.eax,s.vm.mem,s.vm.userStores,decide ((s.processes i).state = .unused)⟩

/-- Whether `write_user_u32` stores to the pointer. -/
def takesStatus (vm : Vm) (pd ptr : Nat) : Bool :=
  decide (ptr ≠ 0) && decide (ptr ≤ 0xBFFFFFFC) && decide (ptr % 4 = 0) &&
    (pagingGetUserPage vm pd (pageOf ptr)).any fun (_,flags) => !has flags pteCow ||
      (pagingResolveCow vm pd (pageOf ptr)).any fun vm => (pagingGetUserPage vm pd (pageOf ptr)).isSome

/-- When the two orders come to the same. -/
def Await.Agrees (e : Ending) (vm : Vm) (caller target : Process) (ptr : Nat) : Await → Prop
  | .child _ => match e with
    | .exits _ => takesStatus vm caller.pageDirectory ptr = true
    | .killed _ => takesStatus vm caller.pageDirectory ptr = false ∧ target.pid = syscallErr
  | .thread tid => takesStatus vm caller.pageDirectory ptr = false ∧ tid = syscallErr

/-! ### The status word -/

section Status
variable {vm : Vm} {pd ptr value : Nat}

theorem writeUserU32_takes : (writeUserU32 vm pd ptr value).2 = takesStatus vm pd ptr := by
  unfold writeUserU32 takesStatus
  split
  next outside =>
    rcases outside with rfl | high | odd
    · rfl
    · rw [decide_eq_false (Nat.not_le.mpr high),Bool.and_false,Bool.false_and,Bool.false_and]
    · rw [decide_eq_false odd,Bool.and_false,Bool.false_and]
  next inside =>
    obtain ⟨nonnull,low,aligned⟩ : ptr ≠ 0 ∧ ptr ≤ 0xBFFFFFFC ∧ ptr % 4 = 0 := by omega
    rw [decide_eq_true nonnull,decide_eq_true low,decide_eq_true aligned]
    simp only [Bool.true_and]
    cases found : pagingGetUserPage vm pd (pageOf ptr) with
    | none => rfl
    | some page =>
      obtain ⟨physical,flags⟩ := page
      simp only [Option.any_some]
      cases shared : has flags pteCow with
      | false => rfl
      | true =>
        simp only [if_true,Bool.not_true,Bool.false_or]
        cases pagingResolveCow vm pd (pageOf ptr) with
        | none => rfl
        | some w =>
          simp only [Option.any_some]
          cases pagingGetUserPage w pd (pageOf ptr) with
          | none => rfl
          | some page => rfl

theorem pagingResolveCow_directory (directory : Nat → Nat) (va : Nat) :
    pagingResolveCow {vm with currentDirectory := directory} pd va =
      (pagingResolveCow vm pd va).map fun vm => {vm with currentDirectory := directory} := by
  unfold pagingResolveCow
  split
  · rfl
  dsimp only
  cases pteSlot vm.mem pd va with
  | none => rfl
  | some slot =>
    dsimp only
    split
    · generalize pageRefcount vm.pages (ptPtr (read vm.mem slot)) = count
      match count with
      | 0 => rfl
      | 1 => rfl
      | n+2 => cases pageAlloc vm.pages with
        | none => rfl
        | some taken => rfl
    · rfl

theorem writeUserU32_directory (directory : Nat → Nat) : writeUserU32 {vm with currentDirectory := directory} pd ptr value =
    ({(writeUserU32 vm pd ptr value).1 with currentDirectory := directory},(writeUserU32 vm pd ptr value).2) := by
  have looks (vm : Vm) : pagingGetUserPage {vm with currentDirectory := directory} pd (pageOf ptr) =
      pagingGetUserPage vm pd (pageOf ptr) := rfl
  unfold writeUserU32
  split
  · rfl
  rw [looks,pagingResolveCow_directory]
  cases pagingGetUserPage vm pd (pageOf ptr) with
  | none => rfl
  | some page =>
    dsimp only
    split
    · cases pagingResolveCow vm pd (pageOf ptr) with
      | none => rfl
      | some w =>
        simp only [Option.map_some,looks]
        cases pagingGetUserPage w pd (pageOf ptr) with
        | none => rfl
        | some page => rfl
    · rfl

end Status

/-! ### Records -/

section Records
variable {p q : Process}

theorem control_bond (same : q.control = p.control) : q.bond = p.bond := by
  rw [Process.bond,Process.bond,control_state same,same]

theorem bond_own {state : State} (idle : state ≠ .ready) (other : state ≠ .running) :
    p.bond.state = state ↔ p.state = state := by
  unfold Process.bond
  dsimp only
  split
  next running =>
    rw [running]
    exact ⟨fun ready => absurd ready.symm idle,fun same => absurd same.symm other⟩
  next => exact Iff.rfl

theorem bond_state (same : q.bond = p.bond) {state : State} (idle : state ≠ .ready) (other : state ≠ .running) :
    q.state = state ↔ p.state = state := by
  rw [← bond_own idle other,same,bond_own idle other]

theorem bond_runs (runs : p.bond.state = .ready) {state : State} (idle : state ≠ .ready) (other : state ≠ .running) :
    p.state ≠ state := by
  intro same
  rw [(bond_own idle other).mpr same] at runs
  exact idle runs

theorem find_only {test : Slot → Bool} {i : Slot} (own : test i = true) (only : ∀ j, j ≠ i → test j = false) :
    (List.finRange processMax).find? test = some i := by
  cases found : (List.finRange processMax).find? test with
  | none =>
    rw [find_none found i] at own
    cases own
  | some j =>
    by_contra other
    have positive := find_slot found
    rw [only j (fun same => other (congrArg some same))] at positive
    cases positive

theorem find_nobody {test : Slot → Bool} (nobody : ∀ j, test j = false) : (List.finRange processMax).find? test = none := by
  refine List.find?_eq_none.mpr fun j _ => ?_
  rw [nobody j]
  nofun

end Records

/-! ### The end of the task -/

section End
variable {s : System} {c i : Slot}

/-- Who waits for `i`, if at most `c` does. -/
theorem waitingParent_caller (ordinary : c ≠ bootstrap) (dead : (s.processes i).state = .zombie)
    (parent : (s.processes c).pid = (s.processes i).parentPid)
    (others : ∀ j, j ≠ c → j ≠ i → (s.processes j).state = .waiting → (s.processes j).pid = (s.processes i).parentPid →
      (s.processes j).waitPid ≠ 0 ∧ (s.processes j).waitPid ≠ (s.processes i).pid) :
    waitingParent s i = if (s.processes c).state = .waiting ∧ ((s.processes c).waitPid = 0 ∨ (s.processes c).waitPid = (s.processes i).pid)
      then some c else none := by
  have alone (j : Slot) (other : j ≠ c) : (decide (j ≠ bootstrap) && decide ((s.processes j).state = .waiting) &&
      decide ((s.processes j).pid = (s.processes i).parentPid) &&
        (decide ((s.processes j).waitPid = 0) || decide ((s.processes j).waitPid = (s.processes i).pid))) = false := by
    by_cases own : j = i
    · rw [own,dead]
      simp
    · have apart := others j other own
      simp only [Bool.and_eq_false_iff,Bool.or_eq_false_iff,decide_eq_false_iff_not]
      tauto
  unfold waitingParent
  split
  next waits =>
    refine find_only ?_ alone
    simp only [Bool.and_eq_true,Bool.or_eq_true,decide_eq_true_eq]
    exact ⟨⟨⟨ordinary,waits.1⟩,parent⟩,waits.2⟩
  next idle =>
    refine find_nobody fun j => ?_
    by_cases own : j = c
    · rw [own]
      simp only [Bool.and_eq_false_iff,Bool.or_eq_false_iff,decide_eq_false_iff_not]
      tauto
    · exact alone j own

theorem waitingJoiner_caller {tid : Nat} (ordinary : c ≠ bootstrap) (process : (s.processes c).isThread = false)
    (others : ∀ j, j ≠ c → (s.processes j).state = .waiting → (s.processes j).isThread = false → (s.processes j).joinTid ≠ tid) :
    waitingJoiner s tid = if (s.processes c).state = .waiting ∧ (s.processes c).joinTid = tid then some c else none := by
  have alone (j : Slot) (other : j ≠ c) : (decide (j ≠ bootstrap) && decide ((s.processes j).state = .waiting) &&
      !(s.processes j).isThread && decide ((s.processes j).joinTid = tid)) = false := by
    have apart := others j other
    simp only [Bool.and_eq_false_iff,Bool.not_eq_false',decide_eq_false_iff_not]
    cases thread : (s.processes j).isThread with
    | true => exact .inl (.inr rfl)
    | false =>
      rw [thread] at apart
      tauto
  unfold waitingJoiner
  split
  next waits =>
    refine find_only ?_ alone
    simp only [Bool.and_eq_true,Bool.not_eq_true',decide_eq_true_eq]
    exact ⟨⟨⟨ordinary,waits.1⟩,process⟩,waits.2⟩
  next idle =>
    refine find_nobody fun j => ?_
    by_cases own : j = c
    · rw [own]
      simp only [Bool.and_eq_false_iff,Bool.not_eq_false',decide_eq_false_iff_not]
      tauto
    · exact alone j own

/-- A child's end, before its parent hears of it. -/
theorem ends_child {e : Ending} {u : System} (ends : Ends i s e u) (process : (s.processes i).isThread = false)
    (ordinary : i ≠ bootstrap) : ∃ x, u = wakeWaitingParent x i ∧ x.vm = s.vm ∧ x.currentByCpu = s.currentByCpu ∧
      (∀ j, j ≠ i → x.processes j = s.processes j) ∧
      (x.processes i).control = {(s.processes i).control with exitCode := e.code,state := .zombie} := by
  cases ends with
  | @exits code running =>
    refine ⟨terminate s i code,?_,rfl,rfl,?_,?_⟩
    · unfold processExitCurrent
      simp only [running,process,Bool.false_eq_true,if_false,if_neg ordinary]
    · intro j other
      rw [terminate_processes,Function.update_of_ne other]
    · rw [terminate_processes,Function.update_self]
      rfl
  | @killed signal fatal other target =>
    have bounds : ¬ (i = bootstrap ∨ signal = 0 ∨ signal > sigMax) := by
      simp only [sigKill,sigTerm] at fatal
      simp only [ordinary,sigMax,false_or]
      omega
    refine ⟨terminate (setProcess s i {s.processes i with
      pendingSignals := (s.processes i).pendingSignals ||| signalBit signal}) i (128 + signal),?_,rfl,rfl,?_,?_⟩
    · unfold processSignal
      simp only [target,if_neg bounds,if_pos fatal]
    · intro j apart
      rw [terminate_processes,Function.update_of_ne apart,setProcess_processes,Function.update_of_ne apart]
    · rw [terminate_processes,Function.update_self,setProcess_processes,Function.update_self]
      rfl

theorem ends_thread {code : Nat} {u : System} (ends : Ends i s (.exits code) u) (thread : (s.processes i).isThread = true) :
    u = wakeJoiner (terminate s i code) (s.processes i).tid code := by
  cases ends with
  | exits running =>
    unfold processExitCurrent
    simp only [running,thread,if_true]

end End

/-! ### The company -/

/-- What ties tasks to each other. -/
structure Tie where
  pid : Nat
  parentPid : Nat
  tid : Nat
  threadGroupPid : Nat
  isThread : Bool

def Process.tie (p : Process) : Tie := ⟨p.pid,p.parentPid,p.tid,p.threadGroupPid,p.isThread⟩

section Company
variable {w : Await} {e : Ending} {c i : Slot} {s t : System}

theorem meant_child {caller p : Process} {pid : Nat} : (Await.child pid).Meant caller p ↔
    p.isThread = false ∧ p.state ≠ .unused ∧ p.parentPid = caller.pid ∧ (pid = 0 ∨ p.pid = pid) := by
  simp only [Await.Meant,isChildOf,Bool.and_eq_true,Bool.or_eq_true,decide_eq_true_eq,and_assoc]

theorem Company.carry (company : Company w e c i s) (caller : (t.processes c).tie = (s.processes c).tie)
    (target : (t.processes i).tie = (s.processes i).tie) (live : (s.processes i).state ≠ .unused → (t.processes i).state ≠ .unused)
    (fresh : (t.processes i).reapPending = false)
    (others : ∀ j, j ≠ c → j ≠ i → w.Bystander (s.processes c) (s.processes i) (t.processes j)) : Company w e c i t := by
  have pid : (t.processes c).pid = (s.processes c).pid := congrArg Tie.pid caller
  have group : (t.processes c).threadGroupPid = (s.processes c).threadGroupPid := congrArg Tie.threadGroupPid caller
  have child : (t.processes i).pid = (s.processes i).pid := congrArg Tie.pid target
  refine ⟨company.apart,company.caller,company.target,?_,fresh,?_,?_⟩
  · have thread : (t.processes i).isThread = (s.processes i).isThread := congrArg Tie.isThread target
    have meant := company.meant
    cases w with
    | child n =>
      rw [meant_child] at meant ⊢
      have parent : (t.processes i).parentPid = (s.processes i).parentPid := congrArg Tie.parentPid target
      rw [thread,parent,pid,child]
      exact ⟨meant.1,live meant.2.1,meant.2.2⟩
    | thread n =>
      have tid : (t.processes i).tid = (s.processes i).tid := congrArg Tie.tid target
      have own : (t.processes i).threadGroupPid = (s.processes i).threadGroupPid := congrArg Tie.threadGroupPid target
      simp only [Await.Meant] at meant ⊢
      rw [thread,own,group,tid]
      exact meant
  · intro tid thread
    have process : (t.processes c).isThread = (s.processes c).isThread := congrArg Tie.isThread caller
    rw [process]
    exact company.joins tid thread
  · intro j first second
    have away := others j first second
    cases w with
    | child n =>
      simp only [Await.Bystander] at away ⊢
      rw [pid,child]
      exact away
    | thread n =>
      simp only [Await.Bystander] at away ⊢
      rw [group]
      exact away

theorem bond_tie {p q : Process} (same : q.bond = p.bond) : q.tie = p.tie := by
  rw [Process.tie,Process.tie]
  exact congrArg (fun b : Control => (⟨b.pid,b.parentPid,b.tid,b.threadGroupPid,b.isThread⟩ : Tie)) same

theorem Company.quiet (company : Company w e c i s) (quiet : Quiet w c i s t) : Company w e c i t := by
  refine company.carry (bond_tie quiet.caller) (bond_tie quiet.target) ?_ ?_ quiet.others
  · exact mt (bond_state quiet.target (by decide) (by decide)).mp
  · exact (congrArg Control.reapPending quiet.target).trans company.fresh

theorem Scene.quiet {ptr : Nat} (scene : Scene w e c i ptr s) (quiet : Quiet w c i s t) : Scene w e c i ptr t := by
  refine ⟨scene.toCompany.quiet quiet,scene.pointer,?_,?_,?_⟩
  · rw [quiet.caller]
    exact scene.runs
  · exact mt (bond_state quiet.target (by decide) (by decide)).mp scene.alive
  · have ties := bond_tie quiet.target
    rw [show (t.processes i).pid = _ from congrArg Tie.pid ties,show (t.processes i).tid = _ from congrArg Tie.tid ties]
    exact scene.small

end Company

/-! ### The scheduler after the end -/

section Switch
variable {s : System} {i : Slot}

theorem reapProcess_memory (process : (s.processes i).isThread = false) (dead : (s.processes i).state = .zombie) :
    (reapProcess s i).vm.mem = (pagingDestroyAddressSpace s.vm (s.processes i).pageDirectory).mem := by
  unfold reapProcess pagingDestroyAddressSpace pagingKernelDirectory
  simp only [dead,process,ne_eq,not_true_eq_false,if_false,Bool.false_eq_true]
  split_ifs <;> first | rfl | (exfalso; tauto)

theorem destroyed_memory {vm vm' : Vm} (mem : vm'.mem = vm.mem) (root : vm'.pageRoot = vm.pageRoot) (pd : Nat) :
    (pagingDestroyAddressSpace vm' pd).mem = (pagingDestroyAddressSpace vm pd).mem := by
  unfold pagingDestroyAddressSpace pagingKernelDirectory
  rw [root,mem]
  split
  · exact mem
  · rfl

theorem switchFrom_memory (dead : (s.processes i).state = .zombie) (pending : (s.processes i).reapPending = true)
    (process : (s.processes i).isThread = false) (ordinary : i ≠ bootstrap) (frame : Frame) :
    (switchFrom s 0 (some i) frame).1.vm.mem = (pagingDestroyAddressSpace s.vm (s.processes i).pageDirectory).mem := by
  have frees (before : System) (next : Slot) (other : next ≠ i)
      (same : (before.processes i).control = (s.processes i).control) (vm : before.vm = s.vm) :
      (reapPrev (enter before 0 next) (some i)).vm.mem = (pagingDestroyAddressSpace s.vm (s.processes i).pageDirectory).mem := by
    have record : (enter before 0 next).processes i = before.processes i := by
      rw [enter_record,if_neg other.symm]
    rw [← record] at same
    obtain ⟨directory,switched⟩ := switch_directory s.vm (before.processes next).pageDirectory
    have pended : ((enter before 0 next).processes i).reapPending = true := (congrArg Control.reapPending same).trans pending
    unfold reapPrev
    dsimp only
    rw [if_pos pended,
      reapProcess_memory ((congrArg Control.isThread same).trans process) ((control_state same).trans dead),
      show ((enter before 0 next).processes i).pageDirectory = _ from congrArg (fun c => c.home.pageDirectory) same]
    refine destroyed_memory ?_ ?_ _ <;> rw [enter_vm,vm,switched]
  unfold switchFrom
  dsimp only
  split
  next next found =>
    refine frees _ next ?_ ?_ ?_
    · intro same
      have ready := selectNext_ready found
      rw [same,dead] at ready
      cases ready
    · rw [fpuRestore_processes,(preempt_record _ _ _ _).2]
      simp [dead]
    · rw [Calls.fpuRestore_vm,Calls.preempt_vm]
  next => simpa [dead] using frees s bootstrap ordinary.symm rfl rfl

theorem processSchedule_stopped (caller : currentLocal s 0 = some i) (idle : (s.processes i).state ≠ .running) (frame : Frame) :
    processSchedule s 0 true frame = switchFrom (freeDeferred (saveFrame (countSchedule s 0) i frame) i) 0 (some i) frame := by
  have same : currentLocal (countSchedule s 0) 0 = some i := caller
  have kept : ((saveFrame (countSchedule s 0) i frame).processes i).state ≠ .running := by
    unfold saveFrame
    rw [setProcess_processes,Function.update_self]
    exact idle
  unfold processSchedule
  simp only [Bool.not_true,Bool.false_eq_true,if_false,same,chargeTick,if_pos kept]

theorem processSchedule_memory (caller : currentLocal s 0 = some i) (dead : (s.processes i).state = .zombie)
    (pending : (s.processes i).reapPending = true) (process : (s.processes i).isThread = false) (ordinary : i ≠ bootstrap)
    (frame : Frame) : (processSchedule s 0 true frame).1.vm.mem =
      (pagingDestroyAddressSpace s.vm (s.processes i).pageDirectory).mem := by
  have saved : ((saveFrame (countSchedule s 0) i frame).processes i).control = (s.processes i).control := by
    unfold saveFrame
    rw [setProcess_processes,Function.update_self]
    rfl
  have freed : ((freeDeferred (saveFrame (countSchedule s 0) i frame) i).processes i).control = (s.processes i).control := by
    have caller' : currentLocal (saveFrame (countSchedule s 0) i frame) 0 = some i := by
      simpa only [currentLocal,saveFrame,setProcess_current,countSchedule] using caller
    exact ((freeDeferred_upkeep caller').control i).trans saved
  have memory (s : System) : (freeDeferred s i).vm.mem = s.vm.mem ∧ (freeDeferred s i).vm.pageRoot = s.vm.pageRoot := by
    rcases freeDeferred_stack s i with same | ⟨_,page,_,freed⟩
    · rw [same]
      exact ⟨rfl,rfl⟩
    · rw [freed]
      exact ⟨rfl,rfl⟩
  have vm : (saveFrame (countSchedule s 0) i frame).vm = s.vm := rfl
  obtain ⟨mem,root⟩ := memory (saveFrame (countSchedule s 0) i frame)
  rw [vm] at mem root
  rw [processSchedule_stopped caller (by rw [dead]; simp),switchFrom_memory ((control_state freed).trans dead)
    ((congrArg Control.reapPending freed).trans pending) ((congrArg Control.isThread freed).trans process) ordinary,
    show ((freeDeferred (saveFrame (countSchedule s 0) i frame) i).processes i).pageDirectory = _ from
      congrArg (fun c => c.home.pageDirectory) freed]
  exact destroyed_memory mem root _

end Switch

/-! ### The end before the call -/

section Orders
variable {w : Await} {e : Ending} {c i : Slot} {ptr : Nat} {s t u v b : System}

theorem control_tie {p q : Process} {code : Nat} {state : State} (same : q.control = {p.control with exitCode := code,state}) :
    q.tie = p.tie := by
  rw [Process.tie,Process.tie]
  exact congrArg (fun b : Control => (⟨b.pid,b.parentPid,b.tid,b.threadGroupPid,b.isThread⟩ : Tie)) same

/-- A task that nobody waits for ends. -/
theorem Company.unheard (company : Company w e c i s) (awake : (s.processes c).state ≠ .waiting) (ends : Ends i s e u) :
    u.vm = s.vm ∧ (∀ j, j ≠ i → u.processes j = s.processes j) ∧
      (u.processes i).control = {(s.processes i).control with exitCode := e.code,state := .zombie} := by
  cases w with
  | child n =>
    obtain ⟨process,_,parent,_⟩ := meant_child.mp company.meant
    obtain ⟨x,rfl,vm,_,rest,own⟩ := ends_child ends process company.target
    have tie := control_tie own
    have caller := rest c company.apart
    have child : (x.processes i).parentPid = (s.processes c).pid := (congrArg Tie.parentPid tie).trans parent
    have pid : (x.processes i).pid = (s.processes i).pid := congrArg Tie.pid tie
    have nobody : waitingParent x i = none := by
      rw [waitingParent_caller company.caller (congrArg Control.state own) ?_ ?_,caller,if_neg (fun waits => awake waits.1)]
      · rw [caller]
        exact child.symm
      · intro j first second
        rw [rest j second,child,pid]
        exact (company.others j first second).2
    rw [wakeWaitingParent,nobody]
    exact ⟨vm,rest,own⟩
  | thread n =>
    obtain ⟨process,_,code,rfl⟩ := company.joins n rfl
    obtain ⟨thread,_,tid⟩ := company.meant
    have caller : (terminate s i code).processes c = s.processes c := by
      rw [terminate_processes,Function.update_of_ne company.apart]
    have nobody : waitingJoiner (terminate s i code) n = none := by
      rw [waitingJoiner_caller company.caller ?_ ?_,caller,if_neg (fun waits => awake waits.1)]
      · rw [caller]
        exact process
      · intro j first
        rw [terminate_processes]
        by_cases own : j = i
        · rw [own,Function.update_self]
          nofun
        · rw [Function.update_of_ne own]
          exact (company.others j first own).2
    rw [ends_thread ends thread,tid,wakeJoiner,nobody]
    refine ⟨rfl,fun j other => ?_,?_⟩
    · rw [terminate_processes,Function.update_of_ne other]
    · rw [terminate_processes,Function.update_self]
      rfl

theorem Company.ended (company : Company w e c i s) (awake : (s.processes c).state ≠ .waiting) (ends : Ends i s e u) :
    Company w e c i u := by
  obtain ⟨_,rest,own⟩ := company.unheard awake ends
  refine company.carry (congrArg Process.tie (rest c company.apart)) (control_tie own) ?_
    ((congrArg Control.reapPending own).trans company.fresh) fun j one other => ?_
  · intro _ unused
    rw [show (u.processes i).state = .zombie from congrArg Control.state own] at unused
    cases unused
  · rw [rest j other]
    exact company.others j one other

/-- What the caller gets from a task that has ended. -/
def Await.inline (w : Await) (vm : Vm) (target : Process) (takes : Bool) : Outcome :=
  match w, takes with
  | .child _, true => ⟨some target.pid,(pagingDestroyAddressSpace vm target.pageDirectory).mem,vm.userStores,true⟩
  | .thread tid, true => ⟨some tid,vm.mem,vm.userStores,true⟩
  | _, false => ⟨some syscallErr,vm.mem,vm.userStores,false⟩

theorem toU32_toI32 {n : Nat} (small : n < 2^32) : toU32 (toI32 n) = n := by
  unfold toU32 toI32 wrap
  split <;> omega

theorem findZombieChild_only {n : Nat} (company : Company (.child n) e c i s) (caller : (s.processes c).state ≠ .zombie) :
    findZombieChild s (s.processes c).pid n = if (s.processes i).state = .zombie then some i else none := by
  have alone (j : Slot) (other : j ≠ i) : (decide (j ≠ bootstrap) && isChildOf (s.processes j) (s.processes c).pid n &&
      decide ((s.processes j).state = .zombie)) = false := by
    by_cases own : j = c
    · rw [own]
      simp [caller]
    · have away := (company.others j own other).1
      simp only [Bool.and_eq_false_iff,decide_eq_false_iff_not]
      by_cases child : isChildOf (s.processes j) (s.processes c).pid n = true
      · exact .inr (away child)
      · exact .inl (.inr (Bool.eq_false_iff.mpr child))
  unfold findZombieChild
  split
  next dead =>
    refine find_only ?_ alone
    simp only [Bool.and_eq_true,decide_eq_true_eq]
    exact ⟨⟨company.target,company.meant.2⟩,dead⟩
  next alive =>
    refine find_nobody fun j => ?_
    by_cases own : j = i
    · rw [own]
      simp [alive]
    · exact alone j own

theorem joinTarget_only {n : Nat} (company : Company (.thread n) e c i s) :
    joinTarget s (s.processes c).threadGroupPid n = some i := by
  obtain ⟨thread,group,tid⟩ := company.meant
  refine find_only ?_ fun j other => ?_
  · simp only [Bool.and_eq_true,decide_eq_true_eq]
    exact ⟨⟨⟨company.target,thread⟩,group⟩,tid⟩
  · dsimp only
    by_cases own : j = c
    · rw [own,(company.joins n rfl).1]
      simp
    · have away := (company.others j own other).1
      simp only [Bool.and_eq_false_iff,decide_eq_false_iff_not]
      by_cases thread : (s.processes j).isThread = true
      · by_cases group : (s.processes j).threadGroupPid = (s.processes c).threadGroupPid
        · exact .inr (away thread group)
        · exact .inl (.inr group)
      · exact .inl (.inl (.inr (Bool.eq_false_iff.mpr thread)))

theorem reapProcess_unused (dead : (s.processes i).state = .zombie) : ((reapProcess s i).processes i).state = .unused := by
  rw [reapProcess_record,if_pos ⟨dead,rfl⟩]
  rfl

/-- The call after the end. -/
theorem Company.collects (company : Company w e c i s) (pointer : ptr ≠ 0) (running : currentLocal s 0 = some c)
    (caller : (s.processes c).state ≠ .zombie) (dead : (s.processes i).state = .zombie)
    (small : (s.processes i).pid < 2^32 ∧ (s.processes i).tid < 2^32) :
    w.collected s i ptr = w.inline (writeUserU32 s.vm (s.processes c).pageDirectory ptr (s.processes i).exitCode).1
      (s.processes i) (takesStatus s.vm (s.processes c).pageDirectory ptr) := by
  have takes : (writeUserU32 s.vm (s.processes c).pageDirectory ptr (s.processes i).exitCode).2 =
    takesStatus s.vm (s.processes c).pageDirectory ptr := writeUserU32_takes
  rw [← takes]
  cases w with
  | child n =>
    have found := findZombieChild_only company caller
    rw [if_pos dead] at found
    have refused : ¬ (c = bootstrap ∨ ptr = 0) := by simp [company.caller,pointer]
    have process := (meant_child.mp company.meant).1
    unfold Await.collected Await.call processWaitpid
    simp only [running,if_neg refused,found]
    cases written : writeUserU32 s.vm (s.processes c).pageDirectory ptr (s.processes i).exitCode with
    | mk vm ok =>
      cases ok with
      | false =>
        simp only [Await.inline,dead]
        rfl
      | true =>
        have freed : ((reapProcess {s with vm} i).processes i).state = .unused := reapProcess_unused dead
        have memory : (reapProcess {s with vm} i).vm.mem = _ := reapProcess_memory process dead
        have stores : (reapProcess {s with vm} i).vm.userStores = vm.userStores := Calls.reapProcess_log _ _
        simp only [Await.inline]
        rw [freed,memory,stores,toU32_toI32 small.1]
        rfl
  | thread n =>
    obtain ⟨thread,_,tid⟩ := company.meant
    obtain ⟨process,nonzero,_⟩ := company.joins n rfl
    have refused : ¬ ((s.processes c).isThread = true ∨ n = 0 ∨ ptr = 0) := by simp [process,nonzero,pointer]
    unfold Await.collected Await.call processJoinThread
    simp only [running,if_neg refused,joinTarget_only company,if_pos dead]
    cases written : writeUserU32 s.vm (s.processes c).pageDirectory ptr (s.processes i).exitCode with
    | mk vm ok =>
      cases ok with
      | false =>
        simp only [Await.inline,dead]
        rfl
      | true =>
        obtain ⟨freed,memory,_⟩ := reapProcess_thread (s := {s with vm}) (z := i) dead thread
        have stores : (reapProcess {s with vm} i).vm.userStores = vm.userStores := Calls.reapProcess_log _ _
        have small := small.2
        rw [tid] at small
        simp only [Await.inline]
        rw [freed,memory,stores,toU32_toI32 small]
        rfl

/-! ### The end during the call -/

/-- The caller is blocked in the call. -/
def Await.Waits (w : Await) (ptr : Nat) (p : Process) : Prop :=
  p.state = .waiting ∧ match w with
    | .child pid => p.waitPid = pid ∧ p.waitStatusPtr = ptr
    | .thread tid => p.joinTid = tid ∧ p.joinStatusPtr = ptr

/-- The call before the end. -/
theorem Company.blocks (company : Company w e c i s) (pointer : ptr ≠ 0) (running : currentLocal s 0 = some c)
    (caller : (s.processes c).state ≠ .zombie) (alive : (s.processes i).state ≠ .zombie) :
    (w.call s ptr).1.vm = s.vm ∧ (∀ j, j ≠ c → (w.call s ptr).1.processes j = s.processes j) ∧
      w.Waits ptr ((w.call s ptr).1.processes c) ∧
      ((w.call s ptr).1.processes c).tie = (s.processes c).tie ∧
      ((w.call s ptr).1.processes c).home = (s.processes c).home := by
  cases w with
  | child n =>
    have found := findZombieChild_only company caller
    rw [if_neg alive] at found
    have refused : ¬ (c = bootstrap ∨ ptr = 0) := by simp [company.caller,pointer]
    have child : hasChild s (s.processes c).pid n = true := by
      refine List.any_eq_true.mpr ⟨i,List.mem_finRange i,?_⟩
      simp only [Bool.and_eq_true,decide_eq_true_eq]
      exact ⟨company.target,company.meant.2⟩
    unfold Await.call processWaitpid
    simp only [running,if_neg refused,found,child,if_true,setProcess_processes,Function.update_self]
    exact ⟨rfl,fun j other => Function.update_of_ne other _ _,⟨rfl,rfl,rfl⟩,rfl,rfl⟩
  | thread n =>
    obtain ⟨process,nonzero,_⟩ := company.joins n rfl
    have refused : ¬ ((s.processes c).isThread = true ∨ n = 0 ∨ ptr = 0) := by simp [process,nonzero,pointer]
    unfold Await.call processJoinThread
    simp only [running,if_neg refused,joinTarget_only company,if_neg alive,setProcess_processes,Function.update_self]
    exact ⟨rfl,fun j other => Function.update_of_ne other _ _,⟨rfl,rfl,rfl⟩,rfl,rfl⟩

theorem Company.called (company : Company w e c i s) (pointer : ptr ≠ 0) (running : currentLocal s 0 = some c)
    (caller : (s.processes c).state ≠ .zombie) (alive : (s.processes i).state ≠ .zombie) : Company w e c i (w.call s ptr).1 := by
  obtain ⟨_,rest,_,tie,_⟩ := company.blocks pointer running caller alive
  have own := rest i company.apart.symm
  refine company.carry tie (congrArg Process.tie own) (by rw [own]; exact id) ((congrArg Process.reapPending own).trans company.fresh) ?_
  intro j one other
  rw [rest j one]
  exact company.others j one other

/-- The value that a blocked caller gets. -/
def Await.value (target : Process) : Await → Nat
  | .child _ => target.pid
  | .thread tid => tid

/-- The task that the caller is blocked for ends. -/
theorem Company.heard (company : Company w e c i s) (pointer : ptr ≠ 0) (waits : w.Waits ptr (s.processes c)) (ends : Ends i s e u) :
    u.vm = (writeUserU32 s.vm (s.processes c).pageDirectory ptr e.code).1 ∧ u.currentByCpu = s.currentByCpu ∧
      (u.processes c).state = .ready ∧ (u.processes c).savedFrame = setEax (s.processes c) (w.value (s.processes i)) ∧
      (u.processes i).state = .zombie ∧ (u.processes i).isThread = (s.processes i).isThread ∧
      (u.processes i).reapPending = !(s.processes i).isThread ∧ (u.processes i).pageDirectory = (s.processes i).pageDirectory := by
  cases w with
  | child n =>
    obtain ⟨process,_,parent,meant⟩ := meant_child.mp company.meant
    obtain ⟨x,rfl,vm,current,rest,own⟩ := ends_child ends process company.target
    have tie := control_tie own
    have caller := rest c company.apart
    have child : (x.processes i).parentPid = (s.processes c).pid := (congrArg Tie.parentPid tie).trans parent
    have pid : (x.processes i).pid = (s.processes i).pid := congrArg Tie.pid tie
    have dead : (x.processes i).state = .zombie := congrArg Control.state own
    have code : (x.processes i).exitCode = e.code := congrArg Control.exitCode own
    obtain ⟨waiting,which,place⟩ := waits
    have named : (s.processes c).waitPid = 0 ∨ (s.processes c).waitPid = (x.processes i).pid := by
      rw [which,pid]
      exact meant.imp id Eq.symm
    have found : waitingParent x i = some c := by
      rw [waitingParent_caller company.caller dead ?_ ?_,caller,if_pos ⟨waiting,named⟩]
      · rw [caller]
        exact child.symm
      · intro j first second
        rw [rest j second,child,pid]
        exact (company.others j first second).2
    unfold wakeWaitingParent
    simp only [found,caller,place,if_neg pointer,setProcess_processes,Function.update_self,Function.update_of_ne company.apart,
      Function.update_of_ne company.apart.symm]
    refine ⟨?_,current,rfl,?_,dead,congrArg Tie.isThread tie,?_,congrArg (fun c => c.home.pageDirectory) own⟩
    · rw [code,vm]
      rfl
    · rw [pid]
      rfl
    · rw [process]
      rfl
  | thread n =>
    obtain ⟨process,_,code,rfl⟩ := company.joins n rfl
    obtain ⟨thread,_,tid⟩ := company.meant
    have caller : (terminate s i code).processes c = s.processes c := by
      rw [terminate_processes,Function.update_of_ne company.apart]
    obtain ⟨waiting,which,place⟩ := waits
    have found : waitingJoiner (terminate s i code) n = some c := by
      rw [waitingJoiner_caller company.caller ?_ ?_,caller,if_pos ⟨waiting,which⟩]
      · rw [caller]
        exact process
      · intro j first
        rw [terminate_processes]
        by_cases own : j = i
        · rw [own,Function.update_self]
          nofun
        · rw [Function.update_of_ne own]
          exact (company.others j first own).2
    rw [ends_thread ends thread,tid]
    unfold wakeJoiner
    rw [found]
    dsimp only
    rw [caller,place,if_neg pointer,setProcess_processes,Function.update_self,Function.update_of_ne company.apart.symm,
      terminate_processes,Function.update_self]
    refine ⟨rfl,rfl,rfl,rfl,rfl,rfl,?_,rfl⟩
    rw [thread]
    exact company.fresh

/-- The scheduler leaves the record of a dead task that it does not reap. -/
theorem zombie_stays (ordinary : i ≠ bootstrap) (dead : (v.processes i).state = .zombie)
    (kept : currentLocal v 0 = some i → (v.processes i).reapPending = false) (frame : Frame) :
    ((processSchedule v 0 true frame).1.processes i).state = .zombie := by
  cases processSchedule_scheduled v 0 true frame i with
  | kept same _ => exact (control_state same).trans dead
  | dispatched ready _ =>
    rcases ready with ready | idle
    · rw [dead] at ready
      cases ready
    · exact absurd idle ordinary
  | preempted _ running _ =>
    rw [dead] at running
    cases running
  | reaped caller _ pending _ =>
    rw [kept caller] at pending
    cases pending

theorem ready_frame (away : currentLocal v 0 ≠ some c) (ready : (v.processes c).state = .ready) (frame : Frame) :
    ((processSchedule v 0 true frame).1.processes c).savedFrame = (v.processes c).savedFrame := by
  rcases processSchedule_frame v 0 frame c with unused | kept
  · exfalso
    cases processSchedule_scheduled v 0 true frame c with
    | kept same _ =>
      rw [control_state same,ready] at unused
      cases unused
    | dispatched _ same =>
      rw [show ((processSchedule v 0 true frame).1.processes c).state = .running from congrArg Control.state same] at unused
      cases unused
    | preempted caller _ _ => exact away caller
    | reaped caller _ _ _ => exact away caller
  · rw [kept,if_neg away]

theorem calm_memory (calm : ∀ k, currentLocal v 0 = some k → (v.processes k).reapPending = false) (frame : Frame) :
    (processSchedule v 0 true frame).1.vm.mem = v.vm.mem := by
  obtain ⟨t,relieved,moves⟩ := processSchedule_moves calm true frame
  rw [moves.mem]
  rcases relieved with rfl | ⟨k,_,rfl⟩
  · rfl
  · rcases freeDeferred_stack v k with same | ⟨_,page,_,freed⟩
    · rw [same]
    · rw [freed]
      rfl

/-- What the caller gets from a task that ends while it is blocked. -/
def Await.woken (w : Await) (e : Ending) (vm : Vm) (target : Process) : Outcome :=
  match w, e with
  | .child _, .exits _ => ⟨some target.pid,(pagingDestroyAddressSpace vm target.pageDirectory).mem,vm.userStores,true⟩
  | .child _, .killed _ => ⟨some target.pid,vm.mem,vm.userStores,false⟩
  | .thread tid, _ => ⟨some tid,vm.mem,vm.userStores,false⟩

/-- The end during the call. -/
theorem Company.wakes (company : Company w e c i s) (pointer : ptr ≠ 0) (waits : w.Waits ptr (s.processes c)) {frame : Frame}
    (saved : (s.processes c).savedFrame = some frame) (away : currentLocal s 0 ≠ some c) (ends : Ends i s e v)
    (calm : ∀ k, currentLocal v 0 = some k → k ≠ i → (v.processes k).reapPending = false) (frame' : Frame) :
    delivered (processSchedule v 0 true frame').1 c i =
      w.woken e (writeUserU32 s.vm (s.processes c).pageDirectory ptr e.code).1 (s.processes i) := by
  obtain ⟨vm,current,ready,value,dead,kind,pending,directory⟩ := company.heard pointer waits ends
  have same : currentLocal v 0 = currentLocal s 0 := by
    simp only [currentLocal,current]
  have frame := ready_frame (same.trans_ne away) ready frame'
  rw [value,setEax,saved,Option.map_some] at frame
  have log := Calls.processSchedule_log v 0 true frame'
  rw [vm] at log
  unfold delivered
  rw [frame,log]
  have stays (unreaped : ∀ k, currentLocal v 0 = some k → (v.processes k).reapPending = false) :
      (processSchedule v 0 true frame').1.vm.mem = (writeUserU32 s.vm (s.processes c).pageDirectory ptr e.code).1.mem ∧
        ((processSchedule v 0 true frame').1.processes i).state = .zombie := by
    refine ⟨?_,zombie_stays company.target dead (unreaped i) frame'⟩
    rw [calm_memory unreaped,vm]
  cases w with
  | child n =>
    have process := (meant_child.mp company.meant).1
    cases ends with
    | exits running =>
      have caller := same.trans running
      rw [process] at kind pending
      rw [processSchedule_memory caller dead pending kind company.target,processSchedule_reaps frame' caller dead pending
        company.target,vm,directory]
      rfl
    | killed _ other _ =>
      obtain ⟨memory,zombie⟩ := stays fun k own => calm k own fun itself => other (same.symm.trans (own.trans (congrArg some itself)))
      rw [memory,zombie]
      rfl
  | thread n =>
    obtain ⟨_,_,code,rfl⟩ := company.joins n rfl
    rw [company.meant.1] at pending
    obtain ⟨memory,zombie⟩ := stays fun k own => by
      by_cases itself : k = i
      · rw [itself]
        exact pending
      · exact calm k own itself
    rw [memory,zombie]
    rfl

/-! ### The two orders -/

theorem bystander_congr {caller caller' target target' p : Process} (first : caller'.tie = caller.tie) (second : target'.tie = target.tie) :
    w.Bystander caller' target' p ↔ w.Bystander caller target p := by
  have pid : caller'.pid = caller.pid := congrArg Tie.pid first
  have group : caller'.threadGroupPid = caller.threadGroupPid := congrArg Tie.threadGroupPid first
  have child : target'.pid = target.pid := congrArg Tie.pid second
  cases w with
  | child n =>
    simp only [Await.Bystander]
    rw [pid,child]
  | thread n =>
    simp only [Await.Bystander]
    rw [group]

theorem waits_bond {p q : Process} (same : q.bond = p.bond) (waits : w.Waits ptr p) : w.Waits ptr q := by
  obtain ⟨waiting,record⟩ := waits
  refine ⟨(bond_state same (by decide) (by decide)).mpr waiting,?_⟩
  cases w with
  | child n => exact ⟨(congrArg Control.waitPid same).trans record.1,(congrArg Control.waitStatusPtr same).trans record.2⟩
  | thread n => exact ⟨(congrArg Control.joinTid same).trans record.1,(congrArg Control.joinStatusPtr same).trans record.2⟩

theorem bond_directory {p q : Process} (same : q.bond = p.bond) : q.pageDirectory = p.pageDirectory :=
  congrArg (fun b : Control => b.home.pageDirectory) same

theorem takesStatus_directory (vm : Vm) (directory : Nat → Nat) (pd ptr : Nat) :
    takesStatus {vm with currentDirectory := directory} pd ptr = takesStatus vm pd ptr := by
  have first : (writeUserU32 {vm with currentDirectory := directory} pd ptr 0).2 = _ := writeUserU32_takes
  rw [← first,writeUserU32_directory]
  exact writeUserU32_takes

/-- The directory in use makes no difference, and of the task that has ended only its pid and
its address space do. -/
theorem inline_congr (w : Await) {vm : Vm} (directory : Nat → Nat) {p q : Process} (pid : q.pid = p.pid)
    (space : q.pageDirectory = p.pageDirectory) (takes : Bool) :
    w.inline {vm with currentDirectory := directory} q takes = w.inline vm p takes := by
  have memory : (pagingDestroyAddressSpace {vm with currentDirectory := directory} p.pageDirectory).mem =
      (pagingDestroyAddressSpace vm p.pageDirectory).mem := by
    apply destroyed_memory <;> rfl
  cases w <;> cases takes <;> simp only [Await.inline]
  rw [pid,space,memory]

theorem woken_congr (w : Await) (e : Ending) {vm : Vm} (directory : Nat → Nat) {p q : Process} (pid : q.pid = p.pid)
    (space : q.pageDirectory = p.pageDirectory) : w.woken e {vm with currentDirectory := directory} q = w.woken e vm p := by
  have memory : (pagingDestroyAddressSpace {vm with currentDirectory := directory} p.pageDirectory).mem =
      (pagingDestroyAddressSpace vm p.pageDirectory).mem := by
    apply destroyed_memory <;> rfl
  cases w <;> cases e <;> simp only [Await.woken]
  · rw [pid,space,memory]
  · rw [pid]

/-- What the call after the end comes to. -/
theorem Scene.early (scene : Scene w e c i ptr s) (early : Early w e c i s v) : w.collected v i ptr =
    w.inline (writeUserU32 s.vm (s.processes c).pageDirectory ptr e.code).1 (s.processes i)
      (takesStatus s.vm (s.processes c).pageDirectory ptr) := by
  obtain ⟨before,ends,after,running⟩ := early
  next t u =>
  have middle := scene.quiet before
  obtain ⟨vm,rest,own⟩ := middle.unheard (bond_runs middle.runs (by decide) (by decide)) ends
  have caller := rest c middle.apart
  obtain ⟨d,first⟩ := before.vm
  obtain ⟨d',second⟩ := after.vm
  rw [vm,first] at second
  replace second : v.vm = {s.vm with currentDirectory := d'} := second
  have bond := after.caller
  rw [caller] at bond
  have tie : (v.processes i).tie = (t.processes i).tie := (bond_tie after.target).trans (control_tie own)
  have dead : (v.processes i).state = .zombie := (bond_state after.target (by decide) (by decide)).mpr (congrArg Control.state own)
  have exit : (v.processes i).exitCode = e.code := (congrArg Control.exitCode after.target).trans (congrArg Control.exitCode own)
  have fresh : (v.processes i).reapPending = false :=
    (congrArg Control.reapPending after.target).trans ((congrArg Control.reapPending own).trans middle.fresh)
  have space : (v.processes i).pageDirectory = (s.processes i).pageDirectory :=
    ((bond_directory after.target).trans (congrArg (fun c => c.home.pageDirectory) own)).trans (bond_directory before.target)
  have company : Company w e c i v := by
    refine middle.toCompany.carry (bond_tie bond) tie (fun _ => by rw [dead]; nofun) fresh ?_
    intro j one other
    refine (bystander_congr ?_ ?_).mp (after.others j one other)
    · rw [caller]
    · exact control_tie own
  have small : (v.processes i).pid < 2^32 ∧ (v.processes i).tid < 2^32 := by
    rw [show (v.processes i).pid = _ from congrArg Tie.pid tie,show (v.processes i).tid = _ from congrArg Tie.tid tie]
    exact middle.small
  have alive : (v.processes c).state ≠ .zombie := by
    refine bond_runs ?_ (by decide) (by decide)
    rw [bond]
    exact middle.runs
  rw [company.collects scene.pointer running alive dead small,exit,bond_directory bond,bond_directory before.caller,second,
    takesStatus_directory,writeUserU32_directory]
  exact inline_congr w _ (congrArg Tie.pid (tie.trans (bond_tie before.target))) space _

/-- What the call before the end comes to. -/
theorem Scene.late (scene : Scene w e c i ptr s) (late : Late w e c i ptr s b) : delivered b c i =
    w.woken e (writeUserU32 s.vm (s.processes c).pageDirectory ptr e.code).1 (s.processes i) := by
  obtain ⟨before,running,after,blocked,saved,ends,calm⟩ := late
  next t u v frame frame' =>
  have middle := scene.quiet before
  obtain ⟨vm,rest,waits,caller,home⟩ := middle.blocks scene.pointer running (bond_runs middle.runs (by decide) (by decide)) middle.alive
  have own := rest i middle.apart.symm
  have company := (middle.toCompany.called scene.pointer running (bond_runs middle.runs (by decide) (by decide)) middle.alive).quiet after
  obtain ⟨d,first⟩ := before.vm
  obtain ⟨d',second⟩ := after.vm
  rw [vm,first] at second
  replace second : u.vm = {s.vm with currentDirectory := d'} := second
  have target := after.target
  rw [own] at target
  have space : (u.processes c).pageDirectory = (s.processes c).pageDirectory :=
    ((bond_directory after.caller).trans (congrArg Home.pageDirectory home)).trans (bond_directory before.caller)
  rw [company.wakes scene.pointer (waits_bond after.caller waits) saved blocked ends calm frame',space,second,writeUserU32_directory]
  exact woken_congr w e _ (congrArg Tie.pid ((bond_tie target).trans (bond_tie before.target)))
    ((bond_directory target).trans (bond_directory before.target))

/-- When it makes no difference whether a task ends before the call that waits for it or during
the call. -/
theorem wait_order (scene : Scene w e c i ptr s) (early : Early w e c i s v) (late : Late w e c i ptr s b) :
    w.collected v i ptr = delivered b c i ↔ w.Agrees e s.vm (s.processes c) (s.processes i) ptr := by
  rw [scene.early early,scene.late late]
  cases w with
  | child n =>
    cases e with
    | exits code => cases takes : takesStatus s.vm (s.processes c).pageDirectory ptr <;>
        simp [Await.inline,Await.woken,Await.Agrees,takes]
    | killed signal => cases takes : takesStatus s.vm (s.processes c).pageDirectory ptr <;>
        simp [Await.inline,Await.woken,Await.Agrees,takes,eq_comm]
  | thread n => cases takes : takesStatus s.vm (s.processes c).pageDirectory ptr <;>
      simp [Await.inline,Await.woken,Await.Agrees,takes,eq_comm]

end Orders

/-! ### What happens in between -/

section Between
variable {w : Await} {e : Ending} {c i : Slot} {s t u : System}

theorem Company.still (company : Company w e c i s) : Quiet w c i s s :=
  ⟨rfl,rfl,company.others,s.vm.currentDirectory,rfl⟩

theorem Company.requested (company : Company w e c i s) : Quiet w c i s (processRequestReschedule s) :=
  ⟨rfl,rfl,company.others,s.vm.currentDirectory,rfl⟩

theorem Quiet.trans (first : Quiet w c i s t) (second : Quiet w c i t u) : Quiet w c i s u := by
  obtain ⟨d,before⟩ := first.vm
  obtain ⟨d',after⟩ := second.vm
  refine ⟨second.caller.trans first.caller,second.target.trans first.target,?_,d',?_⟩
  · intro j one other
    exact (bystander_congr (bond_tie first.caller) (bond_tie first.target)).mp (second.others j one other)
  · rw [after,before]

theorem scheduled_bond {k : Slot} {p : Process} (ordinary : k ≠ bootstrap)
    (unreaped : currentLocal s 0 = some k → (s.processes k).reapPending = false) (scheduled : Scheduled s 0 k p) :
    p.bond = (s.processes k).bond := by
  cases scheduled with
  | kept same _ => exact control_bond same
  | dispatched ready same =>
    have ready := ready.resolve_right ordinary
    have state : p.state = .running := congrArg Control.state same
    rw [Process.bond,Process.bond,state,ready,same]
    rfl
  | preempted _ running same =>
    have state : p.state = .ready := congrArg Control.state same
    rw [Process.bond,Process.bond,state,running,same]
    rfl
  | reaped caller _ pending _ =>
    rw [unreaped caller] at pending
    cases pending

theorem bystander_bond {caller target p q : Process} (same : q.bond = p.bond) (away : w.Bystander caller target p) :
    w.Bystander caller target q := by
  have dead : q.state = .zombie ↔ p.state = .zombie := bond_state same (by decide) (by decide)
  have waits : q.state = .waiting ↔ p.state = .waiting := bond_state same (by decide) (by decide)
  have unused : q.state = .unused ↔ p.state = .unused := bond_state same (by decide) (by decide)
  have pid : q.pid = p.pid := congrArg Control.pid same
  have parent : q.parentPid = p.parentPid := congrArg Control.parentPid same
  have waitPid : q.waitPid = p.waitPid := congrArg Control.waitPid same
  have thread : q.isThread = p.isThread := congrArg Control.isThread same
  have group : q.threadGroupPid = p.threadGroupPid := congrArg Control.threadGroupPid same
  have tid : q.tid = p.tid := congrArg Control.tid same
  have joinTid : q.joinTid = p.joinTid := congrArg Control.joinTid same
  cases w with
  | child n =>
    have child : isChildOf q caller.pid n = isChildOf p caller.pid n := by
      simp only [isChildOf,ne_eq,unused,pid,parent]
    simp only [Await.Bystander]
    rw [child,pid,waitPid,waits,ne_eq,dead]
    exact away
  | thread n =>
    simp only [Await.Bystander]
    rw [thread,group,tid,joinTid,waits]
    exact away

/-- The idle task concerns nobody when it gets the CPU. -/
theorem bystander_dispatched {caller target p q : Process} (same : q.control = {p.control with state := .running})
    (away : w.Bystander caller target p) : w.Bystander caller target q := by
  have state : q.state = .running := congrArg Control.state same
  have thread : q.isThread = p.isThread := congrArg Control.isThread same
  have group : q.threadGroupPid = p.threadGroupPid := congrArg Control.threadGroupPid same
  have tid : q.tid = p.tid := congrArg Control.tid same
  cases w with
  | child n =>
    simp only [Await.Bystander]
    rw [state]
    exact ⟨fun _ => by nofun,by nofun⟩
  | thread n =>
    simp only [Await.Bystander]
    rw [thread,group,tid,state]
    exact ⟨away.1,by nofun⟩

theorem switchFrom_directory {prev : Option Slot} (unreaped : ∀ k, prev = some k → (s.processes k).reapPending = false) (frame : Frame) :
    ∃ directory, (switchFrom s 0 prev frame).1.vm = {s.vm with currentDirectory := directory} := by
  have enters (before : System) (next : Slot) (vm : before.vm = s.vm)
      (kept : ∀ k, prev = some k → (before.processes k).reapPending = false) :
      ∃ directory, (reapPrev (enter before 0 next) prev).vm = {s.vm with currentDirectory := directory} := by
    have none : reapPrev (enter before 0 next) prev = enter before 0 next := by
      refine reapPrev_none fun k own => ?_
      rw [enter_record]
      split <;> exact kept k own
    obtain ⟨directory,switched⟩ := switch_directory s.vm (before.processes next).pageDirectory
    refine ⟨directory,?_⟩
    rw [none,enter_vm,vm,switched]
  unfold switchFrom
  dsimp only
  split
  next next _ =>
    refine enters _ next ?_ ?_
    · rw [Calls.fpuRestore_vm,Calls.preempt_vm]
    · intro k own
      rw [fpuRestore_processes]
      exact (congrArg Estate.reapPending ((preempt_mild _ 0 prev).lives.estates k)).trans (unreaped k own)
  split
  next prev =>
    split
    · rw [if_pos rfl]
      exact enters s bootstrap rfl unreaped
    · exact ⟨s.vm.currentDirectory,rfl⟩
  next =>
    rw [if_pos rfl]
    obtain ⟨directory,switched⟩ := switch_directory s.vm (s.processes bootstrap).pageDirectory
    exact ⟨directory,by rw [enter_vm,switched]⟩

/-- A call of the scheduler that has nothing to give back. -/
theorem Company.scheduled (company : Company w e c i s)
    (calm : ∀ k, currentLocal s 0 = some k → (s.processes k).reapPending = false ∧ (s.processes k).deferredKernelStack = 0)
    (acquired : Bool) (frame : Frame) : Quiet w c i s (processSchedule s 0 acquired frame).1 := by
  have scheduled (k : Slot) := processSchedule_scheduled s 0 acquired frame k
  refine ⟨scheduled_bond company.caller (fun own => (calm c own).1) (scheduled c),
    scheduled_bond company.target (fun own => (calm i own).1) (scheduled i),?_,?_⟩
  · intro j one other
    have away := company.others j one other
    cases scheduled j with
    | kept same _ => exact bystander_bond (control_bond same) away
    | dispatched _ same => exact bystander_dispatched same away
    | preempted caller running same =>
      refine bystander_bond ?_ away
      have state : ((processSchedule s 0 acquired frame).1.processes j).state = .ready := congrArg Control.state same
      rw [Process.bond,Process.bond,state,running,same]
      rfl
    | reaped caller _ pending _ =>
      rw [(calm j caller).1] at pending
      cases pending
  · rcases processSchedule_splits s acquired frame with mild | ⟨u,mild,switched⟩
    · exact ⟨s.vm.currentDirectory,mild.vm⟩
    · have own : relieved s = s := by
        unfold relieved
        cases caller : currentLocal s 0 with
        | none => rfl
        | some k =>
          rcases freeDeferred_stack s k with same | ⟨some,_⟩
          · exact same
          · exact absurd (calm k caller).2 some
      rw [own] at mild
      rw [switched,← mild.vm]
      refine switchFrom_directory (fun k caller => ?_) frame
      exact (congrArg Estate.reapPending (mild.lives.estates k)).trans (calm k caller).1

end Between

/-! ### A parent and its child -/

def pass (s : System) : System := (processSchedule s 0 true zeroFrame).1

/-- The task that leaves the CPU leaves nothing to be given back. -/
def calmly (s : System) : Bool :=
  (currentLocal s 0).all fun k => !(s.processes k).reapPending && decide ((s.processes k).deferredKernelStack = 0)

theorem calmly_calm {s : System} (checked : calmly s = true) (k : Slot) (caller : currentLocal s 0 = some k) :
    (s.processes k).reapPending = false ∧ (s.processes k).deferredKernelStack = 0 := by
  unfold calmly at checked
  rw [caller] at checked
  simpa using checked

section Pair
variable {s : System} {c i : Slot} {code ptr : Nat}

/-- The child exits when it first gets the CPU, and the parent calls after a turn of the idle task. -/
theorem Scene.exitsFirst (scene : Scene (.child 0) (.exits code) c i ptr s) {u v : System}
    (ended : u = processExitCurrent (pass s) 0 code) (asked : v = processRequestReschedule (pass u))
    (calm : calmly s = true ∧ calmly u = true ∧ calmly v = true)
    (turns : currentLocal (pass s) 0 = some i ∧ currentLocal (pass v) 0 = some c) :
    Early (.child 0) (.exits code) c i s (pass v) := by
  have before := scene.toCompany.scheduled (calmly_calm calm.1) true zeroFrame
  have middle := scene.quiet before
  have ends : Ends i (pass s) (.exits code) u := ended ▸ .exits turns.1
  have company := middle.toCompany.ended (bond_runs middle.runs (by decide) (by decide)) ends
  have first := company.scheduled (calmly_calm calm.2.1) true zeroFrame
  have second : Quiet (.child 0) c i (pass u) v := asked ▸ (company.quiet first).requested
  have third := ((company.quiet first).quiet second).scheduled (calmly_calm calm.2.2) true zeroFrame
  exact .ended before ends ((first.trans second).trans third) turns.2

/-- The parent calls, and the child exits when it gets the CPU. -/
theorem Scene.exitsLast (scene : Scene (.child 0) (.exits code) c i ptr s) (running : currentLocal s 0 = some c) {t v : System}
    (called : t = (processWaitpid s 0 0 ptr).1) (ended : v = processExitCurrent (pass t) 0 code) (calm : calmly t = true)
    (turns : currentLocal (pass t) 0 = some i ∧ currentLocal v 0 = some i) (saved : ((pass t).processes c).savedFrame = some zeroFrame) :
    Late (.child 0) (.exits code) c i ptr s (pass v) := by
  have company : Company (.child 0) (.exits code) c i t := by
    rw [called]
    exact scene.toCompany.called scene.pointer running (bond_runs scene.runs (by decide) (by decide)) scene.alive
  have after : Quiet (.child 0) c i t (pass t) := company.scheduled (calmly_calm calm) true zeroFrame
  have ends : Ends i (pass t) (.exits code) v := ended ▸ .exits turns.1
  rw [called] at after saved ends turns
  refine .ended scene.toCompany.still running after ?_ saved ends fun k own other => ?_
  · rw [turns.1]
    exact fun same => scene.apart (Option.some.inj same).symm
  · exact absurd (Option.some.inj (own.symm.trans turns.2)) other

end Pair

/-- The calls that start a process with one writable page and let it fork. -/
def startPair (s : System) : List Call :=
  match (do
    let (vm,pd) ← pagingCreateAddressSpace s.vm
    let (pages,page) ← pageAlloc vm.pages
    let vm ← pagingMapUserPageIn {vm with pages} pd 0x10000000 page (ptePresent ||| pteWritable)
    return (vm,pd,page) : Option (Vm × Nat × Nat)) with
  | none => []
  | some (vm,pd,page) =>
    [.memory vm,.create 0x10000000 0x10001000 pd (fun _ => page) (fun _ => 0x10000000) 1,
      .requestReschedule,.schedule true zeroFrame,.fork zeroFrame,.requestReschedule]

/-- A parent in slot 1 and its child in slot 2. -/
def pair : System := run step (boot blank 0x1000 0x2000) (startPair (boot blank 0x1000 0x2000))

def exited (s : System) : System := processExitCurrent (pass s) 0 7
def asked (s : System) : System := processRequestReschedule (pass s)
def called (s : System) (ptr : Nat) : System := (processWaitpid s 0 0 ptr).1

theorem scene_of {s : System} {ptr : Nat} (pointer : ptr ≠ 0)
    (others : ∀ j, j ≠ 1 → j ≠ 2 → (s.processes j).state ≠ .waiting ∧ (s.processes j).state ≠ .zombie)
    (meant : (s.processes 2).isThread = false ∧ isChildOf (s.processes 2) (s.processes 1).pid 0 = true)
    (fresh : (s.processes 2).reapPending = false) (runs : (s.processes 1).bond.state = .ready)
    (alive : (s.processes 2).state ≠ .zombie) (small : (s.processes 2).pid < 2^32 ∧ (s.processes 2).tid < 2^32) :
    Scene (.child 0) (.exits 7) 1 2 ptr s := by
  refine ⟨⟨by decide,by decide,by decide,meant,fresh,by nofun,?_⟩,pointer,runs,alive,small⟩
  intro j one other
  obtain ⟨active,live⟩ := others j one other
  exact ⟨fun _ => live,fun waiting => absurd waiting active⟩

theorem pair_scene {ptr : Nat} (pointer : ptr ≠ 0) : Scene (.child 0) (.exits 7) 1 2 ptr pair :=
  scene_of pointer (by decide +kernel) (by decide +kernel) (by decide +kernel) (by decide +kernel) (by decide +kernel)
    (by decide +kernel)

theorem pair_early : Early (.child 0) (.exits 7) 1 2 pair (pass (asked (exited pair))) :=
  (pair_scene (by decide : 1 ≠ 0)).exitsFirst rfl rfl (by decide +kernel) (by decide +kernel)

theorem pair_late {ptr : Nat} (pointer : ptr ≠ 0) (calm : calmly (called pair ptr) = true)
    (turns : currentLocal (pass (called pair ptr)) 0 = some 2 ∧ currentLocal (exited (called pair ptr)) 0 = some 2)
    (saved : ((pass (called pair ptr)).processes 1).savedFrame = some zeroFrame) :
    Late (.child 0) (.exits 7) 1 2 ptr pair (pass (exited (called pair ptr))) := by
  have running : currentLocal pair 0 = some 1 := by decide +kernel
  exact (pair_scene pointer).exitsLast running rfl rfl calm turns saved

/-- A status pointer that is not aligned: the call after the end fails and leaves the child, the
call before the end returns its pid, and the child is gone with its exit code. -/
theorem unaligned_status_differs : ¬ ∀ (w : Await) (e : Ending) (c i : Slot) (ptr : Nat) (s v b : System), Scene w e c i ptr s →
    Early w e c i s v → Late w e c i ptr s b → Calls.userRangeOk s.vm 0 ptr 4 = true → w.collected v i ptr = delivered b c i := by
  intro same
  have scene := pair_scene (by decide : 0x10000102 ≠ 0)
  have late := pair_late (by decide : 0x10000102 ≠ 0) (by decide +kernel) (by decide +kernel) (by decide +kernel)
  have accepted : Calls.userRangeOk pair.vm 0 0x10000102 4 = true := by decide +kernel
  have odd : takesStatus pair.vm (pair.processes 1).pageDirectory 0x10000102 = false := by decide +kernel
  have equal := same _ _ _ _ _ _ _ _ scene pair_early late accepted
  rw [scene.early pair_early,scene.late late,odd] at equal
  have reclaimed := congrArg Outcome.reclaimed equal
  cases reclaimed

theorem aligned_status_same : (Await.child 0).collected (pass (asked (exited pair))) 2 0x10000100 =
    delivered (pass (exited (called pair 0x10000100))) 1 2 := by
  have scene := pair_scene (by decide : 0x10000100 ≠ 0)
  have late := pair_late (by decide : 0x10000100 ≠ 0) (by decide +kernel) (by decide +kernel) (by decide +kernel)
  have takes : takesStatus pair.vm (pair.processes 1).pageDirectory 0x10000100 = true := by decide +kernel
  exact (wait_order scene pair_early late).mpr takes

end LionOS.Processes

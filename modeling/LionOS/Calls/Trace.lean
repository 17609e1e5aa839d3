import LionOS.Calls.Interrupt

/-! The calls of `process.c` that a system call makes on the boot CPU, read off the state
before it. -/
namespace LionOS.Calls
open LionOS.Memory LionOS.Physical LionOS.Paging LionOS.Processes LionOS.Channels LionOS.Files LionOS.Exec

/-- Nothing changes but memory, descriptors and what the scheduler keeps for a CPU. -/
structure Quiet (s s' : System) : Prop where
  current : s'.currentByCpu = s.currentByCpu
  counter : s'.nextTid = s.nextTid
  control : ∀ i, (s'.processes i).control = (s.processes i).control
  frame : ∀ i, (s'.processes i).savedFrame = (s.processes i).savedFrame
  capabilities : ∀ i, (s'.processes i).capabilities = (s.processes i).capabilities

theorem Quiet.of_table {s s' : System} (table : s'.processes = s.processes)
    (current : s'.currentByCpu = s.currentByCpu) (counter : s'.nextTid = s.nextTid) : Quiet s s' :=
  ⟨current,counter,fun i => by rw [table],fun i => by rw [table],fun i => by rw [table]⟩

theorem Quiet.refl (s : System) : Quiet s s := .of_table rfl rfl rfl

theorem Quiet.trans {s t u : System} (first : Quiet s t) (second : Quiet t u) : Quiet s u :=
  ⟨second.current.trans first.current,second.counter.trans first.counter,
    fun i => (second.control i).trans (first.control i),fun i => (second.frame i).trans (first.frame i),
    fun i => (second.capabilities i).trans (first.capabilities i)⟩

theorem Quiet.memory (s : System) (vm : Vm) : Quiet s {s with vm} := .of_table rfl rfl rfl

theorem Quiet.setProcess (s : System) (c : Slot) (p : Process) (same : p.control = (s.processes c).control)
    (frame : p.savedFrame = (s.processes c).savedFrame)
    (capabilities : p.capabilities = (s.processes c).capabilities) : Quiet s (setProcess s c p) := by
  refine ⟨rfl,rfl,?_,?_,?_⟩
  all_goals
    intro i
    rw [setProcess_processes]
    by_cases own : i = c
    · subst own
      rw [Function.update_self]
      assumption
    · rw [Function.update_of_ne own]

/-- The state goes through these calls, with quiet changes before, between and after. -/
inductive Goes : System → List Call → System → Prop
  | quiet {s s' : System} (same : Quiet s s') : Goes s [] s'
  | call {s s₁ s' : System} {call : Call} {rest : List Call} (same : Quiet s s₁)
      (later : Goes (Processes.step s₁ call) rest s') : Goes s (call::rest) s'

theorem Goes.one {s s₁ s' : System} {call : Call} (same : Quiet s s₁)
    (after : Quiet (Processes.step s₁ call) s') : Goes s [call] s' := .call same (.quiet after)

theorem Goes.before {s t u : System} {calls : List Call} (same : Quiet s t) (goes : Goes t calls u) :
    Goes s calls u := by
  cases goes with
  | quiet later => exact .quiet (same.trans later)
  | call first later => exact .call (same.trans first) later

theorem Goes.after {s t u : System} {calls : List Call} (goes : Goes s calls t) (same : Quiet t u) :
    Goes s calls u := by
  induction goes with
  | quiet first => exact .quiet (first.trans same)
  | call first later ih => exact .call first (ih same)

def writable (k : Kernel) (ptr len : Nat) : Bool := (userRangeOkWrite k.sys.vm 0 ptr len).2

/-- The checks of both receiving calls. -/
def receivable (k : Kernel) (ptr capacity sender : Nat) : Bool :=
  decide (capacity ≠ 0) && decide (capacity ≤ ipcMessageMax) && writable k ptr capacity &&
    (decide (sender = 0) ||
      writable (k.withVm (userRangeOkWrite k.sys.vm 0 ptr capacity).1) sender 4)

def readable (k : Kernel) (ptr len : Nat) : Bool :=
  decide (len ≠ 0) && decide (len ≤ ipcMessageMax) && userRangeOk k.sys.vm 0 ptr len

def mouseCalls (k : Kernel) : List Call :=
  if k.mouse.ready = true ∧ k.mouse.readIdx = k.mouse.writeIdx then [.sleepOn k.mouse.channel] else []

def ipcSendCalls (k : Kernel) (receiver : Nat) : List Call :=
  if processExists k.sys receiver = true ∧ receiver ≠ currentPid k.sys 0 ∧ (freeMessage k.messages).isSome then
    [.wakeup (ipcWaitChannelBase + receiver)]
  else []

def ipcRecvCalls (k : Kernel) : List Call :=
  let pid := currentPid k.sys 0
  if pid = 0 then []
  else if (findMessage k.messages pid).isSome then [.wakeup (ipcWaitChannelBase + pid)]
  else [.sleepOn (ipcWaitChannelBase + pid)]

/-- The pipe of a handle, if the calling process owns it. -/
def ownPipe (k : Kernel) (handle : Nat) : Option (Nat × Nat) :=
  match decode handle with
  | none => none
  | some (id,side) =>
    if (k.pipes id).used = true ∧ (k.pipes id).ownerPid = currentPid k.sys 0 then some (id,side) else none

def pipeReadCalls (k : Kernel) (handle : Nat) : List Call :=
  match ownPipe k handle with
  | some (id,0) =>
    if (k.pipes id).count ≠ 0 then [.wakeup (pipeChannel id 1)]
    else if (k.pipes id).writers ≠ 0 then [.sleepOn (pipeChannel id 0)]
    else []
  | _ => []

def pipeWriteCalls (k : Kernel) (handle len : Nat) : List Call :=
  match ownPipe k handle with
  | some (id,1) =>
    if (k.pipes id).readers = 0 then []
    else
      let space := pipeBuffer - (k.pipes id).count
      (if space ≠ 0 then [.wakeup (pipeChannel id 0)] else []) ++
        (if space < len then [.sleepOn (pipeChannel id 1)] else [])
  | _ => []

def pipeCloseCalls (k : Kernel) (handle : Nat) : List Call :=
  match ownPipe k handle with
  | some (id,_) => [.wakeup (pipeChannel id 0),.wakeup (pipeChannel id 1)]
  | none => []

def execCalls (k : Kernel) (ptr : Nat) : List Call :=
  match copyUserString k.sys.vm 0 64 ptr with
  | none => []
  | some name => match (loadImage k.sys.vm k.ram name).2 with
    | none => []
    | some p => [.replace p.entry p.stack p.pd (pageArray p.pages) (vaArray p.pages) p.pages.length]

def callsOf (k : Kernel) (a0 a1 a2 : Nat) : Syscall → List Call
  | .exit => [.exit a0]
  | .threadExit => [.exit a0]
  | .exec => execCalls k a0
  | .waitpid => if userRangeOk k.sys.vm 0 a1 4 then [.waitpid a0 a1] else []
  | .threadJoin => if userRangeOk k.sys.vm 0 a1 4 then [.joinThread a0 a1] else []
  | .threadCreate => if a0 < userMin ∨ a0 ≥ userMax then [] else [.createUserThread a0]
  | .kill => [.kill a0 a1]
  | .mouseRead => if writable k a0 12 then mouseCalls k else []
  | .ipcSend => if readable k a1 a2 then ipcSendCalls k a0 else []
  | .ipcRecvBlocking => if receivable k a0 a1 a2 then ipcRecvCalls k else []
  | .pipeRead => if readable k a1 a2 then pipeReadCalls k a0 else []
  | .pipeWrite => if readable k a1 a2 then pipeWriteCalls k a0 a2 else []
  | .pipeClose => pipeCloseCalls k a0
  | _ => []

section Steps
variable {k k' : Kernel} {cpu ptr len value : Nat}

theorem withWritable_some {rest : Kernel → Outcome}
    (served : withWritable k cpu ptr len rest = some (k',value)) :
    ∃ vm ok, userRangeOkWrite k.sys.vm cpu ptr len = (vm,ok) ∧
      (ok = false ∧ k' = k.withVm vm ∧ value = syscallErr ∨
        ok = true ∧ rest (k.withVm vm) = some (k',value)) := by
  unfold withWritable at served
  split at served
  next vm refused =>
    cases served
    exact ⟨vm,false,refused,.inl ⟨rfl,rfl,rfl⟩⟩
  next vm granted => exact ⟨vm,true,granted,.inr ⟨rfl,served⟩⟩

theorem storing_some {bytes : List Byte} {rest : Kernel → Outcome}
    (served : storing k cpu ptr bytes rest = some (k',value)) :
    ∃ vm, storeUserBytes k.sys.vm cpu ptr bytes = some vm ∧ rest (k.withVm vm) = some (k',value) := by
  unfold storing at served
  split at served
  · cases served
  next vm stored => exact ⟨vm,stored,served⟩

theorem loading_some {rest : List Byte → Outcome}
    (served : loading k cpu ptr len rest = some (k',value)) :
    ∃ bytes, loadUserBytes k.sys.vm cpu ptr len = some bytes ∧ rest bytes = some (k',value) := by
  unfold loading at served
  split at served
  · cases served
  next bytes loaded => exact ⟨bytes,loaded,served⟩

theorem loadUserBytes_length {vm : Vm} {va : Nat} {bytes : List Byte}
    (loaded : loadUserBytes vm cpu va len = some bytes) : bytes.length = len := by
  induction len generalizing va bytes with
  | zero =>
    cases loaded
    rfl
  | succ n ih =>
    unfold loadUserBytes at loaded
    split at loaded
    · cases loaded
    · obtain ⟨rest,later,rfl⟩ := Option.map_eq_some_iff.mp loaded
      rw [List.length_cons,ih later]

theorem withVm_quiet (k : Kernel) (vm : Vm) : Quiet k.sys (k.withVm vm).sys := .memory _ _

theorem withStore_quiet (k : Kernel) (st : Store) : Quiet k.sys (k.withStore st).sys := .memory _ _

theorem storing_quiet {bytes : List Byte} {values : Kernel → Nat}
    (served : (storing k cpu ptr bytes fun k => some (k,values k)) = some (k',value)) : Quiet k.sys k'.sys := by
  obtain ⟨vm,_,rest⟩ := storing_some served
  cases rest
  exact withVm_quiet k vm

end Steps

/-- The calls behind a system call and its value: a call that blocks in the end gives
the blocked value, unless another one was made before it. -/
structure Traced (s : System) (calls : List Call) (s' : System) (value : Nat) : Prop where
  goes : Goes s calls s'
  waits : ∀ call, calls = [call] → blocks s call = true → value = toU32 waitBlocked
  splits : ∀ first call, calls = [first,call] → blocks s call = true → value ≠ toU32 waitBlocked

theorem Traced.quiet {s s' : System} {value : Nat} (same : Quiet s s') : Traced s [] s' value :=
  ⟨.quiet same,fun _ empty => (by cases empty),fun _ _ empty => (by cases empty)⟩

theorem Traced.one {s s₁ s' : System} {call : Call} {value : Nat} (same : Quiet s s₁)
    (after : Quiet (Processes.step s₁ call) s') (waits : blocks s call = true → value = toU32 waitBlocked) :
    Traced s [call] s' value := by
  refine ⟨.one same after,?_,fun _ _ two => by cases two⟩
  intro other one
  cases one
  exact waits

theorem Traced.silent {s s₁ s' : System} {call : Call} {value : Nat} (same : Quiet s s₁)
    (after : Quiet (Processes.step s₁ call) s') (runs : blocks s call = false) :
    Traced s [call] s' value :=
  .one same after (by simp [runs])

theorem blocks_quiet {s s' : System} (same : Quiet s s') (call : Call) : blocks s' call = blocks s call := by
  have caller : currentLocal s' 0 = currentLocal s 0 := by simp only [currentLocal,same.current]
  have state (i : Slot) : (s'.processes i).state = (s.processes i).state := control_state (same.control i)
  have pid (i : Slot) : (s'.processes i).pid = (s.processes i).pid := congrArg Control.pid (same.control i)
  have parentPid (i : Slot) : (s'.processes i).parentPid = (s.processes i).parentPid :=
    congrArg Control.parentPid (same.control i)
  have isThread (i : Slot) : (s'.processes i).isThread = (s.processes i).isThread :=
    congrArg Control.isThread (same.control i)
  have tid (i : Slot) : (s'.processes i).tid = (s.processes i).tid := congrArg Control.tid (same.control i)
  have group (i : Slot) : (s'.processes i).threadGroupPid = (s.processes i).threadGroupPid :=
    congrArg Control.threadGroupPid (same.control i)
  cases call with
  | waitpid pid' ptr =>
    simp only [blocks,caller,findZombieChild,hasChild,isChildOf,state,pid,parentPid]
  | joinThread tid' ptr => simp only [blocks,caller,joinTarget,state,isThread,group,tid]
  | sleepOn channel => simp only [blocks,caller,state]
  | _ => rfl

theorem waitpid_value {s : System} {pid ptr : Nat} (blocked : blocks s (.waitpid pid ptr) = true) :
    (processWaitpid s 0 pid ptr).2 = waitBlocked := by
  cases caller : currentLocal s 0 with
  | none => simp [blocks,caller] at blocked
  | some c =>
    simp only [blocks,caller,Bool.and_eq_true,decide_eq_true_eq,Option.isNone_iff_eq_none] at blocked
    obtain ⟨⟨⟨ordinary,nonnull⟩,none⟩,parent⟩ := blocked
    simp [processWaitpid,caller,ordinary,nonnull,none,parent]

theorem joinThread_value {s : System} {tid ptr : Nat} (blocked : blocks s (.joinThread tid ptr) = true) :
    (processJoinThread s 0 tid ptr).2 = waitBlocked := by
  cases caller : currentLocal s 0 with
  | none => simp [blocks,caller] at blocked
  | some c =>
    simp only [blocks,caller,Bool.and_eq_true,decide_eq_true_eq,Bool.not_eq_true',Option.any_eq_true] at blocked
    obtain ⟨⟨⟨process,positive⟩,nonnull⟩,target,found,running⟩ := blocked
    simp [processJoinThread,caller,process,positive,nonnull,found,running]

theorem sleepOn_value {s : System} {channel : Nat} (blocked : blocks s (.sleepOn channel) = true) :
    (processSleepOn s 0 channel).2 = waitBlocked := by
  cases caller : currentLocal s 0 with
  | none => simp [blocks,caller] at blocked
  | some c =>
    simp only [blocks,caller,Bool.and_eq_true,decide_eq_true_eq] at blocked
    obtain ⟨⟨ordinary,nonzero⟩,taken⟩ := blocked
    simp [processSleepOn,caller,ordinary,nonzero,taken]

section Handlers
variable {k k' : Kernel} {value : Nat}

theorem sysGetchar_quiet (served : sysGetchar k = some (k',value)) : Quiet k.sys k'.sys := by
  unfold sysGetchar at served
  split at served
  · cases served
    exact .refl _
  · cases served
    exact .refl _

theorem sysMouseRead_traced {ptr : Nat} (served : sysMouseRead k 0 ptr = some (k',value)) :
    Traced k.sys (if writable k ptr 12 then mouseCalls k else []) k'.sys value := by
  obtain ⟨vm,ok,range,⟨rfl,rfl,rfl⟩ | ⟨rfl,rest⟩⟩ := withWritable_some served
  · rw [if_neg (by simp [writable,range])]
    exact .quiet (withVm_quiet k vm)
  · rw [if_pos (by simp [writable,range])]
    have start := withVm_quiet k vm
    have mouse : (k.withVm vm).mouse = k.mouse := rfl
    cases on : k.mouse.ready with
    | false =>
      simp only [mouseReadEvent,mouse,on,if_true] at rest
      cases rest
      rw [mouseCalls,if_neg (by simp [on])]
      exact .quiet start
    | true =>
      by_cases empty : k.mouse.readIdx = k.mouse.writeIdx
      · simp only [mouseReadEvent,mouse,on,empty,Bool.true_eq_false,ne_eq,not_true,if_false] at rest
        cases rest
        rw [mouseCalls,if_pos ⟨on,empty⟩]
        refine .one start (.refl _) ?_
        intro blocked
        rw [← blocks_quiet start] at blocked
        rw [sleepOn_value blocked]
        rfl
      · simp only [mouseReadEvent,mouse,on,empty,Bool.true_eq_false,ne_eq,not_false_iff,if_false,if_true]
          at rest
        rw [mouseCalls,if_neg (by simp [empty])]
        have stored := storing_quiet rest
        exact .quiet (start.trans stored)

theorem sysWrite_quiet {ptr len : Nat} (served : sysWrite k 0 ptr len = some (k',value)) :
    Quiet k.sys k'.sys := by
  unfold sysWrite at served
  split at served
  · cases served
    exact .refl _
  · obtain ⟨bytes,_,rest⟩ := loading_some served
    cases rest
    exact .refl _

theorem sysRead_quiet {ptr len : Nat} (served : sysRead k 0 ptr len = some (k',value)) :
    Quiet k.sys k'.sys := by
  unfold sysRead at served
  split at served
  · cases served
    exact .refl _
  · obtain ⟨vm,ok,_,⟨_,rfl,_⟩ | ⟨_,rest⟩⟩ := withWritable_some served
    · exact withVm_quiet k vm
    · obtain ⟨vm',_,last⟩ := storing_some rest
      cases last
      exact (withVm_quiet k vm).trans (.memory _ vm')

theorem sysExec_traced {ptr : Nat} (served : sysExec k 0 ptr = some (k',value)) :
    Traced k.sys (execCalls k ptr) k'.sys value := by
  unfold sysExec at served
  unfold execCalls
  cases copied : copyUserString k.sys.vm 0 64 ptr with
  | none =>
    simp only [copied] at served ⊢
    cases served
    exact .quiet (.refl _)
  | some name =>
    simp only [copied,execReplaceCurrent] at served ⊢
    cases program : loadImage k.sys.vm k.ram name with
    | mk vm loaded =>
      simp only [program] at served ⊢
      cases loaded with
      | none =>
        cases served
        exact .quiet (.memory _ _)
      | some p =>
        dsimp only at served ⊢
        cases replaced : processExecReplaceCurrent {k.sys with vm} 0 p.entry p.stack p.pd
            (pageArray p.pages) (vaArray p.pages) p.pages.length with
        | none =>
          simp only [replaced] at served
          cases served
          refine .silent (.memory _ vm) ?_ rfl
          simp only [Processes.step,replaced,Option.getD_none]
          exact .memory _ _
        | some s =>
          simp only [replaced] at served
          cases served
          refine .silent (.memory _ vm) ?_ rfl
          simp only [Processes.step,replaced,Option.getD_some]
          exact .refl _

theorem sysWaitpid_traced {pid ptr : Nat} (served : sysWaitpid k 0 pid ptr = some (k',value)) :
    Traced k.sys (if userRangeOk k.sys.vm 0 ptr 4 then [.waitpid pid ptr] else []) k'.sys value := by
  unfold sysWaitpid at served
  split at served
  next range =>
    cases served
    rw [if_pos range]
    exact .one (.refl _) (.refl _) (fun blocked => congrArg toU32 (waitpid_value blocked))
  next range =>
    cases served
    rw [if_neg range]
    exact .quiet (.refl _)

theorem sysThreadJoin_traced {tid ptr : Nat} (served : sysThreadJoin k 0 tid ptr = some (k',value)) :
    Traced k.sys (if userRangeOk k.sys.vm 0 ptr 4 then [.joinThread tid ptr] else []) k'.sys value := by
  unfold sysThreadJoin at served
  split at served
  next range =>
    cases served
    rw [if_pos range]
    exact .one (.refl _) (.refl _) (fun blocked => congrArg toU32 (joinThread_value blocked))
  next range =>
    cases served
    rw [if_neg range]
    exact .quiet (.refl _)

theorem sysOpen_quiet {ptr flags : Nat} (served : sysOpen k 0 ptr flags = some (k',value)) :
    Quiet k.sys k'.sys := by
  unfold sysOpen at served
  split at served
  · cases served
    exact (withStore_quiet k _).trans (.setProcess _ _ _ rfl rfl rfl)
  · cases served
    exact .refl _

theorem sysClose_quiet {fd : Nat} (served : sysClose k 0 fd = some (k',value)) : Quiet k.sys k'.sys := by
  unfold sysClose at served
  split at served
  · cases served
    exact .refl _
  · cases served
    exact .setProcess _ _ _ rfl rfl rfl

theorem sysFread_quiet {fd ptr len : Nat} (served : sysFread k 0 fd ptr len = some (k',value)) :
    Quiet k.sys k'.sys := by
  unfold sysFread at served
  split at served
  · cases served
    exact .refl _
  · obtain ⟨vm,ok,_,⟨_,rfl,_⟩ | ⟨_,rest⟩⟩ := withWritable_some served
    · exact withVm_quiet k vm
    · have start := withVm_quiet k vm
      split at rest
      · cases rest
        exact start
      next c _ =>
        split at rest
        next st p result read =>
          have record : p.control = ((k.withVm vm).sys.processes c).control ∧
              p.savedFrame = ((k.withVm vm).sys.processes c).savedFrame ∧
                p.capabilities = ((k.withVm vm).sys.processes c).capabilities := by
            cases read
            exact ⟨rfl,rfl,rfl⟩
          have opened : Quiet k.sys (setProcess ((k.withVm vm).withStore st).sys c p) :=
            (start.trans (withStore_quiet _ st)).trans (.setProcess _ _ _ record.1 record.2.1 record.2.2)
          dsimp only at rest
          split at rest
          · cases rest
            exact opened
          · have stored := storing_quiet rest
            exact opened.trans stored

theorem sysFwrite_quiet {fd ptr len : Nat} (served : sysFwrite k 0 fd ptr len = some (k',value)) :
    Quiet k.sys k'.sys := by
  unfold sysFwrite at served
  split at served
  · cases served
    exact .refl _
  · obtain ⟨bytes,_,rest⟩ := loading_some served
    split at rest
    · cases rest
      exact .refl _
    · cases rest
      exact (withStore_quiet k _).trans (.setProcess _ _ _ rfl rfl rfl)

theorem sysRemove_quiet {ptr : Nat} (served : sysRemove k 0 ptr = some (k',value)) : Quiet k.sys k'.sys := by
  unfold sysRemove at served
  split at served
  · cases served
    exact .refl _
  · cases served
    exact withStore_quiet k _

theorem sysStat_quiet {path ptr : Nat} (served : sysStat k 0 path ptr = some (k',value)) :
    Quiet k.sys k'.sys := by
  unfold sysStat at served
  split at served
  · cases served
    exact .refl _
  · obtain ⟨vm,ok,_,⟨_,rfl,_⟩ | ⟨_,rest⟩⟩ := withWritable_some served
    · exact withVm_quiet k vm
    · split at rest
      · cases rest
        exact withVm_quiet k vm
      · have stored := storing_quiet rest
        exact (withVm_quiet k vm).trans stored

theorem sysGetfile_quiet {index ptr len : Nat} (served : sysGetfile k 0 index ptr len = some (k',value)) :
    Quiet k.sys k'.sys := by
  unfold sysGetfile at served
  split at served
  · cases served
    exact .refl _
  · obtain ⟨vm,ok,_,⟨_,rfl,_⟩ | ⟨_,rest⟩⟩ := withWritable_some served
    · exact withVm_quiet k vm
    · split at rest
      · cases rest
        exact withVm_quiet k vm
      · have stored := storing_quiet rest
        exact (withVm_quiet k vm).trans stored

theorem deliver_quiet {ptr sender : Nat} {received : List Byte × Nat}
    (served : deliver k 0 ptr sender received = some (k',value)) : Quiet k.sys k'.sys := by
  obtain ⟨vm,_,rest⟩ := storing_some served
  split at rest
  · cases rest
    exact withVm_quiet k vm
  · have stored := storing_quiet rest
    exact (withVm_quiet k vm).trans stored

theorem withReceiveBuffers_some {ptr capacity sender : Nat} {rest : Kernel → Outcome}
    (served : withReceiveBuffers k 0 ptr capacity sender rest = some (k',value)) :
    ∃ vm, receivable k ptr capacity sender = false ∧ k' = k.withVm vm ∨
      receivable k ptr capacity sender = true ∧ capacity ≠ 0 ∧ rest (k.withVm vm) = some (k',value) := by
  unfold withReceiveBuffers at served
  split at served
  next bad =>
    cases served
    refine ⟨k.sys.vm,.inl ⟨?_,rfl⟩⟩
    rcases bad with bad | bad
    · simp [receivable,bad]
    · simp [receivable,Nat.not_le.mpr bad]
  next good =>
    rw [not_or,Nat.not_lt] at good
    obtain ⟨vm,ok,first,⟨rfl,rfl,_⟩ | ⟨rfl,more⟩⟩ := withWritable_some served
    · exact ⟨vm,.inl ⟨by simp [receivable,writable,first],rfl⟩⟩
    · split at more
      next null =>
        refine ⟨vm,.inr ⟨?_,good.1,more⟩⟩
        simp [receivable,writable,first,good.1,good.2,null]
      next pointer =>
        obtain ⟨vm',ok,second,⟨rfl,rfl,_⟩ | ⟨rfl,last⟩⟩ := withWritable_some more
        · refine ⟨vm',.inl ⟨?_,rfl⟩⟩
          simp [receivable,writable,first,second,pointer]
        · refine ⟨vm',.inr ⟨?_,good.1,last⟩⟩
          simp [receivable,writable,first,second,good.1,good.2]

theorem sysIpcRecv_quiet {ptr capacity sender : Nat}
    (served : sysIpcRecv k 0 ptr capacity sender = some (k',value)) : Quiet k.sys k'.sys := by
  obtain ⟨vm,⟨_,rfl⟩ | ⟨_,_,rest⟩⟩ := withReceiveBuffers_some served
  · exact withVm_quiet k vm
  · split at rest
    · cases rest
      exact withVm_quiet k vm
    · have given := deliver_quiet rest
      exact (withVm_quiet k vm).trans given

theorem sysIpcSend_traced {receiver ptr len : Nat}
    (served : sysIpcSend k 0 receiver ptr len = some (k',value)) :
    Traced k.sys (if readable k ptr len then ipcSendCalls k receiver else []) k'.sys value := by
  unfold sysIpcSend at served
  split at served
  next bad =>
    cases served
    have none : (if readable k ptr len then ipcSendCalls k receiver else []) = [] := by
      unfold readable ipcSendCalls
      rcases bad with bad | bad | bad | bad | bad
      · simp [bad]
      · simp [bad]
      · simp [bad]
      · simp [Nat.not_le.mpr bad]
      · simp [bad]
    rw [none]
    exact .quiet (.refl _)
  next good =>
    simp only [not_or,Bool.not_eq_false,Nat.not_lt] at good
    obtain ⟨exists',other,given,short,range⟩ := good
    obtain ⟨bytes,loaded,rest⟩ := loading_some served
    have length := loadUserBytes_length loaded
    have positive : receiver ≠ 0 := by
      simp only [processExists,Bool.and_eq_true,decide_eq_true_eq] at exists'
      exact exists'.1
    have accepted : ¬(receiver = 0 ∨ bytes = [] ∨ bytes.length > ipcMessageMax) := by
      rw [← List.length_eq_zero_iff,length]
      omega
    rw [if_pos (by simp [readable,given,short,range]),ipcSendCalls]
    simp only [ipcSend,if_neg accepted] at rest
    cases free : freeMessage k.messages with
    | none =>
      simp only [free] at rest
      cases rest
      simp only [Option.isSome_none,Bool.false_eq_true,and_false,if_false]
      exact .quiet (.refl _)
    | some i =>
      simp only [free] at rest
      cases rest
      rw [if_pos ⟨exists',other,rfl⟩]
      exact .silent (.refl _) (.refl _) rfl

theorem sysIpcRecvBlocking_traced {ptr capacity sender : Nat}
    (served : sysIpcRecvBlocking k 0 ptr capacity sender = some (k',value)) :
    Traced k.sys (if receivable k ptr capacity sender then ipcRecvCalls k else []) k'.sys value := by
  obtain ⟨vm,⟨refused,rfl⟩ | ⟨granted,given,rest⟩⟩ := withReceiveBuffers_some served
  · rw [if_neg (by simp [refused])]
    exact .quiet (withVm_quiet k vm)
  · have start := withVm_quiet k vm
    have caller : currentPid (k.withVm vm).sys 0 = currentPid k.sys 0 := rfl
    have queue : (k.withVm vm).messages = k.messages := rfl
    rw [if_pos granted,ipcRecvCalls]
    by_cases idle : currentPid k.sys 0 = 0
    · have stopped : currentPid k.sys 0 = 0 ∨ capacity = 0 := .inl idle
      simp only [ipcRecvBlocking,caller,if_pos stopped] at rest
      cases rest
      rw [if_pos idle]
      exact .quiet start
    · have valid : ¬(currentPid k.sys 0 = 0 ∨ capacity = 0) := by simp [idle,given]
      rw [if_neg idle]
      simp only [ipcRecvBlocking,caller,queue,if_neg valid] at rest
      cases found : findMessage k.messages (currentPid k.sys 0) with
      | some i =>
        simp only [found] at rest
        have delivered := deliver_quiet rest
        exact .silent start delivered rfl
      | none =>
        simp only [found] at rest
        cases rest
        refine .one start (.refl _) ?_
        intro blocked
        rw [← blocks_quiet start] at blocked
        rw [sleepOn_value blocked,if_pos rfl]

theorem sysThreadCreate_traced {entry : Nat} (served : sysThreadCreate k 0 entry = some (k',value)) :
    Traced k.sys (if entry < userMin ∨ entry ≥ userMax then [] else [.createUserThread entry])
      k'.sys value := by
  unfold sysThreadCreate at served
  split at served
  next bad =>
    cases served
    rw [if_pos bad]
    exact .quiet (.refl _)
  next good =>
    obtain ⟨made,created,result⟩ := Option.map_eq_some_iff.mp served
    cases result
    rw [if_neg good]
    refine .silent (.refl _) ?_ rfl
    simp only [Processes.step,created,Option.map_some,Option.getD_some]
    exact .refl _

theorem sysPipeCreate_quiet {readEnd writeEnd : Nat}
    (served : sysPipeCreate k 0 readEnd writeEnd = some (k',value)) : Quiet k.sys k'.sys := by
  obtain ⟨vm,ok,_,⟨_,rfl,_⟩ | ⟨_,more⟩⟩ := withWritable_some served
  · exact withVm_quiet k vm
  obtain ⟨vm',ok,_,⟨_,rfl,_⟩ | ⟨_,rest⟩⟩ := withWritable_some more
  · exact withVm_quiet k vm'
  split at rest
  · cases rest
    exact withVm_quiet k vm'
  · obtain ⟨vm'',_,last⟩ := storing_some rest
    have stored := storing_quiet last
    exact (withVm_quiet k vm'').trans stored

theorem sysNetSend_quiet {dstIp ports ptr len : Nat}
    (served : sysNetSend k 0 dstIp ports ptr len = some (k',value)) : Quiet k.sys k'.sys := by
  unfold sysNetSend at served
  split at served
  · cases served
    exact .refl _
  · obtain ⟨bytes,_,rest⟩ := loading_some served
    cases rest
    exact .refl _

theorem fillIfWritable_some {ptr : Nat} {bytes : List Byte} {rest : Kernel → Outcome}
    (served : fillIfWritable k 0 ptr bytes rest = some (k',value)) :
    ∃ vm, rest (k.withVm vm) = some (k',value) := by
  unfold fillIfWritable at served
  split at served
  · exact ⟨k.sys.vm,served⟩
  · split at served
    next vm _ => exact ⟨vm,served⟩
    next vm _ =>
      obtain ⟨vm',_,later⟩ := storing_some served
      exact ⟨vm',later⟩

theorem sysNetRecv_quiet {port ptr capacity ipPtr portPtr : Nat}
    (served : sysNetRecv k 0 port ptr capacity ipPtr portPtr = some (k',value)) : Quiet k.sys k'.sys := by
  unfold sysNetRecv at served
  split at served
  · cases served
    exact .refl _
  · obtain ⟨vm,ok,_,⟨_,rfl,_⟩ | ⟨_,rest⟩⟩ := withWritable_some served
    · exact withVm_quiet k vm
    · split at rest
      · cases rest
        exact withVm_quiet k vm
      · obtain ⟨vm₁,_,more⟩ := storing_some rest
        obtain ⟨vm₂,more⟩ := fillIfWritable_some more
        obtain ⟨vm₃,last⟩ := fillIfWritable_some more
        cases last
        exact withVm_quiet k vm₃

theorem decode_side {handle id side : Nat} (valid : decode handle = some (id,side)) : side = 0 ∨ side = 1 := by
  unfold decode at valid
  split at valid
  · cases valid
  · cases valid
    omega

theorem sysPipeRead_traced {handle ptr len : Nat}
    (served : sysPipeRead k 0 handle ptr len = some (k',value)) :
    Traced k.sys (if readable k ptr len then pipeReadCalls k handle else []) k'.sys value := by
  unfold sysPipeRead at served
  split at served
  next bad =>
    cases served
    rw [if_neg]
    · exact .quiet (.refl _)
    · unfold readable
      rcases bad with bad | bad | bad
      · simp [bad]
      · simp [Nat.not_le.mpr bad]
      · simp [bad]
  next good =>
    simp only [not_or,Bool.not_eq_false,Nat.not_lt,gt_iff_lt] at good
    obtain ⟨given,short,range⟩ := good
    rw [if_pos (by simp [readable,given,short,range])]
    unfold pipeReadCalls ownPipe
    unfold pipeRead at served
    cases handled : decode handle with
    | none =>
      simp only [handled] at served ⊢
      cases served
      exact .quiet (.refl _)
    | some pair =>
      obtain ⟨id,side⟩ := pair
      simp only [handled,given,or_false] at served ⊢
      by_cases own : (k.pipes id).used = true ∧ (k.pipes id).ownerPid = currentPid k.sys 0
      · rcases decode_side handled with rfl | rfl
        · have usable : ¬((k.pipes id).used = false ∨ (k.pipes id).ownerPid ≠ currentPid k.sys 0) := by
            simp [own.1,own.2]
          simp only [ne_eq,not_true,if_false,if_neg usable,if_pos own] at served ⊢
          by_cases filled : (k.pipes id).count = 0
          · simp only [filled,not_true,if_false] at served ⊢
            by_cases closed : (k.pipes id).writers = 0
            · simp only [closed,if_true] at served
              cases served
              rw [if_neg (by simp [closed])]
              exact .quiet (.refl _)
            · simp only [closed,if_false] at served
              cases served
              rw [if_pos (by simp [closed])]
              exact .one (.refl _) (.refl _) (fun blocked => congrArg toU32 (sleepOn_value blocked))
          · simp only [filled,not_false_iff,if_true] at served ⊢
            have stored := storing_quiet served
            exact .silent (.refl _) stored rfl
        · simp only [ne_eq,Nat.one_ne_zero,not_false_iff,if_true,if_pos own] at served ⊢
          cases served
          exact .quiet (.refl _)
      · have unusable : (k.pipes id).used = false ∨ (k.pipes id).ownerPid ≠ currentPid k.sys 0 := by
          rwa [not_and_or,Bool.not_eq_true] at own
        simp only [if_pos unusable,if_neg own] at served ⊢
        split at served
        all_goals
          next result =>
            split at result
            all_goals
              cases result
              try cases served
            all_goals exact .quiet (.refl _)

theorem sysPipeClose_traced {handle : Nat} :
    Traced k.sys (pipeCloseCalls k handle) (pipeClose k.sys k.pipes 0 handle).1
      (toU32 (pipeClose k.sys k.pipes 0 handle).2.2) := by
  unfold pipeCloseCalls ownPipe pipeClose
  cases handled : decode handle with
  | none => exact .quiet (.refl _)
  | some pair =>
    obtain ⟨id,side⟩ := pair
    dsimp only
    by_cases own : (k.pipes id).used = true ∧ (k.pipes id).ownerPid = currentPid k.sys 0
    · rw [if_pos own,if_neg (by simp [own.1,own.2])]
      refine ⟨.call (.refl _) (.call (.refl _) (.quiet (.refl _))),?_,?_⟩
      · intro call one
        cases one
      · intro first call two blocked
        cases two
        cases blocked
    · rw [if_neg own,if_pos (by rwa [not_and_or,Bool.not_eq_true] at own)]
      exact .quiet (.refl _)

theorem processWakeup_pid (s : System) (channel : Nat) :
    currentPid (processWakeup s channel) 0 = currentPid s 0 := by
  unfold processWakeup
  split
  · rfl
  · have caller : currentLocal {s with processes := fun i =>
        if i = bootstrap then s.processes i else wakeOn channel (s.processes i)} 0 = currentLocal s 0 := rfl
    simp only [currentPid,caller]
    split
    · rfl
    · split
      · rfl
      · unfold wakeOn
        split <;> rfl

theorem pushBytes_fields (p : PipeState) (bytes : List Byte) :
    (pushBytes p bytes).used = p.used ∧ (pushBytes p bytes).ownerPid = p.ownerPid ∧
      (pushBytes p bytes).readers = p.readers ∧ (pushBytes p bytes).count = p.count := by
  induction bytes generalizing p with
  | nil => exact ⟨rfl,rfl,rfl,rfl⟩
  | cons c rest ih =>
    obtain ⟨used,owner,readers,count⟩ := ih {p with
      data := Function.update p.data p.head c
      head := (p.head + 1) % pipeBuffer}
    exact ⟨used,owner,readers,count⟩

section Loop
variable {s : System} {pipes : Pipes} {id : Nat}

theorem pipeWriteLoop_full (fuel : Nat) (left : List Byte) (done : Nat)
    (usable : ¬((pipes id).used = false ∨ (pipes id).ownerPid ≠ currentPid s 0 ∨ (pipes id).readers = 0))
    (full : pipeBuffer - (pipes id).count = 0) :
    pipeWriteLoop 0 id (fuel+1) s pipes left done =
      let slept := processSleepOn s 0 (pipeChannel id 1)
      (slept.1,pipes,if slept.2 = waitBlocked then if done ≠ 0 then (done : Int) else pipeBlocked else slept.2) := by
  simp only [pipeWriteLoop,if_neg usable,full,ne_eq,not_true,if_false]

theorem pipeWriteLoop_space (fuel : Nat) (left : List Byte) (done : Nat)
    (usable : ¬((pipes id).used = false ∨ (pipes id).ownerPid ≠ currentPid s 0 ∨ (pipes id).readers = 0))
    (space : pipeBuffer - (pipes id).count ≠ 0) :
    ∃ pipes', (pipes' id).used = (pipes id).used ∧ (pipes' id).ownerPid = (pipes id).ownerPid ∧
      (pipes' id).readers = (pipes id).readers ∧
      (pipes' id).count = (pipes id).count + min left.length (pipeBuffer - (pipes id).count) ∧
      pipeWriteLoop 0 id (fuel+1) s pipes left done =
        let n := min left.length (pipeBuffer - (pipes id).count)
        let s := processWakeup s (pipeChannel id 0)
        if left.length ≤ n then (s,pipes',((done + n : Nat) : Int))
        else pipeWriteLoop 0 id fuel s pipes' (left.drop n) (done + n) := by
  let n := min left.length (pipeBuffer - (pipes id).count)
  let p := pushBytes (pipes id) (left.take n)
  obtain ⟨used,owner,readers,count⟩ := pushBytes_fields (pipes id) (left.take n)
  refine ⟨Function.update pipes id {p with count := p.count + n},?_,?_,?_,?_,?_⟩
  · simp [p,used]
  · simp [p,owner]
  · simp [p,readers]
  · simp [p,count,n]
  · simp only [pipeWriteLoop,if_neg usable,if_pos space]
    rfl

end Loop

theorem blocks_wakeup (s : System) (woken channel : Nat) :
    blocks (processWakeup s woken) (.sleepOn channel) = blocks s (.sleepOn channel) := by
  unfold processWakeup
  split
  · rfl
  · have caller : currentLocal {s with processes := fun i =>
        if i = bootstrap then s.processes i else wakeOn woken (s.processes i)} 0 = currentLocal s 0 := rfl
    simp only [blocks,caller]
    split
    · rfl
    next c _ =>
      congr 2
      split
      · rfl
      · unfold wakeOn
        split
        next waits => simp [waits.1]
        · rfl

theorem sysPipeWrite_traced {handle ptr len : Nat}
    (served : sysPipeWrite k 0 handle ptr len = some (k',value)) :
    Traced k.sys (if readable k ptr len then pipeWriteCalls k handle len else []) k'.sys value := by
  unfold sysPipeWrite at served
  split at served
  next bad =>
    cases served
    rw [if_neg]
    · exact .quiet (.refl _)
    · unfold readable
      rcases bad with bad | bad | bad
      · simp [bad]
      · simp [Nat.not_le.mpr bad]
      · simp [bad]
  next good =>
    simp only [not_or,Bool.not_eq_false,Nat.not_lt,gt_iff_lt] at good
    obtain ⟨given,short,range⟩ := good
    rw [if_pos (by simp [readable,given,short,range])]
    obtain ⟨bytes,loaded,rest⟩ := loading_some served
    have length := loadUserBytes_length loaded
    have nonempty : bytes ≠ [] := by
      intro none
      simp [none] at length
      omega
    cases rest
    unfold pipeWriteCalls ownPipe
    cases handled : decode handle with
    | none => exact .quiet (.refl _)
    | some pair =>
      obtain ⟨id,side⟩ := pair
      by_cases own : (k.pipes id).used = true ∧ (k.pipes id).ownerPid = currentPid k.sys 0
      · rcases decode_side handled with rfl | rfl
        · simp only [if_pos own,true_or,if_true]
          exact .quiet (.refl _)
        · simp only [if_pos own,Nat.one_ne_zero,nonempty,or_self,if_false]
          by_cases deaf : (k.pipes id).readers = 0
          · rw [if_pos deaf,pipeWriteLoop,if_pos (.inr (.inr deaf))]
            exact .quiet (.refl _)
          · have usable : ¬((k.pipes id).used = false ∨ (k.pipes id).ownerPid ≠ currentPid k.sys 0 ∨
                (k.pipes id).readers = 0) := by simp [own.1,own.2,deaf]
            rw [if_neg deaf]
            by_cases space : pipeBuffer - (k.pipes id).count = 0
            · rw [pipeWriteLoop_full _ _ _ usable space]
              simp only [space,ne_eq,not_true,if_false,List.nil_append,if_pos (Nat.pos_of_ne_zero given)]
              refine .one (.refl _) (.refl _) ?_
              intro blocked
              rw [sleepOn_value blocked,if_pos rfl]
              rfl
            · obtain ⟨pipes',used,owner,readers,count,round⟩ :=
                pipeWriteLoop_space bytes.length bytes 0 usable space
              rw [round]
              simp only [space,ne_eq,not_false_iff,if_true]
              by_cases fits : bytes.length ≤ pipeBuffer - (k.pipes id).count
              · rw [if_neg (by omega),if_pos (by omega)]
                exact .silent (.refl _) (.refl _) rfl
              · rw [if_pos (by omega),if_neg (by omega)]
                have again : ¬((pipes' id).used = false ∨
                    (pipes' id).ownerPid ≠ currentPid (processWakeup k.sys (pipeChannel id 0)) 0 ∨
                      (pipes' id).readers = 0) := by
                  rw [used,owner,readers,processWakeup_pid]
                  exact usable
                have full : pipeBuffer - (pipes' id).count = 0 := by omega
                obtain ⟨fuel,more⟩ : ∃ fuel, bytes.length = fuel + 1 := ⟨bytes.length - 1,by omega⟩
                rw [more,pipeWriteLoop_full _ _ _ again full]
                refine ⟨.call (.refl _) (.call (.refl _) (.quiet (.refl _))),?_,?_⟩
                · intro call one
                  cases one
                · intro first call two blocked
                  cases two
                  rw [← blocks_wakeup k.sys (pipeChannel id 0)] at blocked
                  simp only [sleepOn_value blocked,if_true]
                  rw [if_pos (by omega)]
                  have room : pipeBuffer = 1024 := rfl
                  have value : toU32 waitBlocked = 0xFFFFFFFE := rfl
                  unfold ipcMessageMax at short
                  rw [value,toU32]
                  omega
      · simp only [if_neg own]
        split
        · exact .quiet (.refl _)
        · rw [pipeWriteLoop,if_pos]
          · exact .quiet (.refl _)
          · rw [not_and_or,Bool.not_eq_true] at own
            exact own.imp_right .inl

/-- Every system call makes the calls that are read off the state before it. -/
theorem serve_traced {a0 a1 a2 a3 a4 : Nat} {call : Syscall}
    (served : serve k 0 a0 a1 a2 a3 a4 call = some (k',value)) :
    Traced k.sys (callsOf k a0 a1 a2 call) k'.sys value := by
  cases call with
  | exit =>
    cases served
    exact .silent (.refl _) (.refl _) rfl
  | threadExit =>
    cases served
    exact .silent (.refl _) (.refl _) rfl
  | exec => exact sysExec_traced served
  | waitpid => exact sysWaitpid_traced served
  | threadJoin => exact sysThreadJoin_traced served
  | threadCreate => exact sysThreadCreate_traced served
  | kill =>
    cases served
    exact .silent (.refl _) (.refl _) rfl
  | mouseRead => exact sysMouseRead_traced served
  | ipcSend => exact sysIpcSend_traced served
  | ipcRecvBlocking => exact sysIpcRecvBlocking_traced served
  | pipeRead => exact sysPipeRead_traced served
  | pipeWrite => exact sysPipeWrite_traced served
  | pipeClose =>
    cases served
    exact sysPipeClose_traced
  | getchar => exact .quiet (sysGetchar_quiet served)
  | write => exact .quiet (sysWrite_quiet served)
  | read => exact .quiet (sysRead_quiet served)
  | fopen => exact .quiet (sysOpen_quiet served)
  | fclose => exact .quiet (sysClose_quiet served)
  | fread => exact .quiet (sysFread_quiet served)
  | fwrite => exact .quiet (sysFwrite_quiet served)
  | remove => exact .quiet (sysRemove_quiet served)
  | stat => exact .quiet (sysStat_quiet served)
  | getfile => exact .quiet (sysGetfile_quiet served)
  | ipcRecv => exact .quiet (sysIpcRecv_quiet served)
  | pipeCreate => exact .quiet (sysPipeCreate_quiet served)
  | netSend => exact .quiet (sysNetSend_quiet served)
  | netRecv => exact .quiet (sysNetRecv_quiet served)
  | abiVersion | putc | getpid | gettid | yield | kbdAvail | mousePending | clear | meminfo | fork
  | ipcPending | getppid | getstate | sigpending | netPending | netGetip | netPing =>
    cases served
    exact .quiet (.refl _)

end Handlers

end LionOS.Calls

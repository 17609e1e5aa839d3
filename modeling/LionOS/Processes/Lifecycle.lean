import LionOS.Processes.State

/-! Creation, replacement, duplication, termination and reaping of processes and
the ways in which a task waits and is woken. -/
namespace LionOS.Processes
open LionOS.Memory LionOS.Physical LionOS.Paging

def pageOf (address : Nat) : Nat := address / pageSize * pageSize

/-- A kernel store of one word of user memory through its physical address. -/
def storePhysical (vm : Vm) (pd ptr physical : Nat) (flags : Word) (value : Nat) : Vm :=
  {vm with
    mem := writeBytes vm.mem (physical + ptr % pageSize) (bytes32 value)
    userStores := vm.userStores ++ (List.range 4).map fun i => ⟨pd,ptr + i,flags⟩}

/-- `write_user_u32` for the address space `pd`; the flag is its success. -/
def writeUserU32 (vm : Vm) (pd ptr value : Nat) : Vm × Bool :=
  if ptr = 0 ∨ ptr > 0xBFFFFFFC ∨ ptr % 4 ≠ 0 then (vm,false)
  else match pagingGetUserPage vm pd (pageOf ptr) with
    | none => (vm,false)
    | some (physical,flags) =>
      if has flags pteCow then
        match pagingResolveCow vm pd (pageOf ptr) with
        | none => (vm,false)
        | some vm => match pagingGetUserPage vm pd (pageOf ptr) with
          | none => (vm,false)
          | some (physical,flags) => (storePhysical vm pd ptr physical flags value,true)
      else (storePhysical vm pd ptr physical flags value,true)

/-- `process_create_ex_vas_locked`: `pages` and `vas` hold `count` entries each. -/
def processCreateExVasLocked (s : System) (cpu entry stack pd : Nat) (pages vas : Nat → Nat)
    (count : Nat) : Option (System × Slot) :=
  match findFreeSlot s with
  | none => none
  | some i =>
    if pd = 0 ∨ count = 0 ∨ count > maxUserPages then none
    else match pageAlloc s.vm.pages with
      | none => none
      | some (frames,ks) =>
        let parentPid := match currentLocal s cpu with
          | some c => (s.processes c).pid
          | none => 1
        let p := {s.processes i with
          pid := s.nextPid,tid := s.nextTid,threadGroupPid := s.nextPid,isThread := false
          ownsAddressSpace := true,threadStackPage := 0,threadStackVa := 0,joinTid := 0
          joinStatusPtr := 0,state := .ready,parentPid,exitCode := 0,waitPid := 0
          waitStatusPtr := 0,waitChannel := 0,reapPending := false,deferredKernelStack := 0
          pageDirectory := pd,entry,userStack := stack,kernelStackTop := ks + 4096
          savedFrame := none,userPageCount := count,userCodePage := pages 0
          userStackPage := pages (count-1),pendingSignals := 0,capabilities := capUserDefault
          cpuOwner := cpu,priority := priorityDefault,basePriority := priorityDefault
          timeSlice := quantumForPriority priorityDefault,ticksUsed := 0,fpuValid := false
          userPages := fun j => if j < count then pages j else 0
          userPageVas := fun j => if j < count then vas j else 0}
        let s := {s with
          vm := {s.vm with pages := frames}
          nextPid := nextPidAfter s.nextPid,nextTid := nextTidAfter s.nextTid}
        some (setProcess s i (initInterruptFrame p),i)

def processCreateExVas (s : System) (cpu entry stack pd : Nat) (pages vas : Nat → Nat)
    (count : Nat) : Option (System × Slot) :=
  processCreateExVasLocked s cpu entry stack pd pages vas count

def freePages (a : Allocator) (addresses : List Nat) : Allocator :=
  addresses.foldl (fun a page => if page = 0 then a else pageFree a page) a

def ownedPages (p : Process) : List Nat := (List.range p.userPageCount).map p.userPages

/-- `process_exec_replace_current`; `none` is its return value -1. -/
def processExecReplaceCurrent (s : System) (cpu entry stack pd : Nat) (pages vas : Nat → Nat)
    (count : Nat) : Option System :=
  match currentLocal s cpu with
  | none => none
  | some c =>
    if c = bootstrap ∨ pd = 0 ∨ count = 0 ∨ count > maxUserPages then none
    else match pageAlloc s.vm.pages with
      | none => none
      | some (frames,ks) =>
        let old := s.processes c
        let p := initInterruptFrame {old with
          pageDirectory := pd,entry,userStack := stack,kernelStackTop := ks + 4096
          savedFrame := none,userPageCount := count,userCodePage := pages 0
          userStackPage := pages (count-1),exitCode := 0,waitPid := 0,waitStatusPtr := 0
          reapPending := false,pendingSignals := 0,deferredKernelStack := old.kernelStackTop
          userPages := fun j => if j < count then pages j else 0
          userPageVas := fun j => if j < count then vas j else 0}
        let vm := pagingSwitchAddressSpace {s.vm with pages := frames} cpu pd
        let s := tssSetKernelStack {s with vm} cpu p.kernelStackTop
        let vm := {s.vm with pages := freePages s.vm.pages (ownedPages old)}
        let vm := if old.pageDirectory ≠ 0 ∧ old.pageDirectory ≠ pd then
          pagingDestroyAddressSpace vm old.pageDirectory else vm
        some (setProcess {s with vm} c p)

structure ForkPage where
  va : Nat
  page : Nat
  flags : Word

/-- The flags a writable page gets in both address spaces of a fork. -/
def shareFlags (flags : Word) : Word :=
  if has flags pteWritable then (flags &&& ~~~pteWritable) ||| pteCow else flags

/-- The first loop of fork: map and retain each page of the parent in the child. -/
def forkShare (parentPd pd : Nat) : List Nat → Vm → List ForkPage → Vm × List ForkPage × Bool
  | [], vm, shared => (vm,shared,true)
  | va::rest, vm, shared => match pagingGetUserPage vm parentPd va with
    | none => (vm,shared,false)
    | some (page,flags) => match pagingMapUserPageIn vm pd va page (shareFlags flags) with
      | none => (vm,shared,false)
      | some vm =>
        forkShare parentPd pd rest {vm with pages := pageRetain vm.pages page} (shared ++ [⟨va,page,flags⟩])

/-- The second loop of fork: mark the writable pages of the parent; the number
counts the marked ones. -/
def forkProtect (parentPd : Nat) : List ForkPage → Vm → Nat → Vm × Nat × Bool
  | [], vm, cowed => (vm,cowed,true)
  | p::rest, vm, cowed =>
    if has p.flags pteWritable then
      match pagingSetUserPageFlags vm parentPd p.va (shareFlags p.flags) with
      | none => (vm,cowed,false)
      | some vm => forkProtect parentPd rest vm (cowed+1)
    else forkProtect parentPd rest vm cowed

/-- The `restore` loop of fork, which takes the first `cowed` pages of the list. -/
def forkRestore (vm : Vm) (parentPd : Nat) (shared : List ForkPage) (cowed : Nat) : Vm :=
  (shared.take cowed).foldl (fun vm p => (pagingSetUserPageFlags vm parentPd p.va p.flags).getD vm) vm

def forkFail (vm : Vm) (pd : Nat) (shared : List ForkPage) : Vm :=
  pagingDestroyAddressSpace {vm with pages := shared.foldl (fun a p => pageFree a p.page) vm.pages} pd

/-- What fork changes in the fresh record of the child. -/
def forkChild (parent child : Process) (cpu tid : Nat) (parentFrame : Frame) : Process :=
  {child with
    parentPid := parent.pid,tid,threadGroupPid := parent.threadGroupPid,isThread := false
    ownsAddressSpace := true,cpuOwner := cpu,capabilities := parent.capabilities
    priority := parent.priority,basePriority := parent.basePriority
    timeSlice := quantumForPriority parent.priority,ticksUsed := 0,fds := parent.fds
    savedFrame := some {parentFrame with eax := 0}}

/-- `process_fork_current` with a frame; the result is the value for the caller. -/
def processForkCurrent (s : System) (cpu : Nat) (parentFrame : Frame) : System × Nat :=
  match currentLocal s cpu with
  | none => (s,syscallErr)
  | some c =>
    let parent := s.processes c
    if c = bootstrap ∨ parent.userPageCount = 0 then (s,syscallErr)
    else match findFreeSlot s with
      | none => (s,syscallErr)
      | some _ => match pagingCreateAddressSpace s.vm with
        | none => (s,syscallErr)
        | some (vm,pd) =>
          let vas := (List.range parent.userPageCount).map parent.userPageVas
          match forkShare parent.pageDirectory pd vas vm [] with
          | (vm,shared,false) => ({s with vm := forkFail vm pd shared},syscallErr)
          | (vm,shared,true) => match forkProtect parent.pageDirectory shared vm 0 with
            | (vm,cowed,false) =>
              ({s with vm := forkFail (forkRestore vm parent.pageDirectory shared cowed) pd shared},
                syscallErr)
            | (vm,cowed,true) =>
              let pages := fun j => (shared.map ForkPage.page).getD j 0
              let childVas := fun j => (shared.map ForkPage.va).getD j 0
              match processCreateExVasLocked {s with vm} cpu parent.entry parent.userStack pd pages
                  childVas parent.userPageCount with
              | none =>
                ({s with vm := forkFail (forkRestore vm parent.pageDirectory shared cowed) pd shared},
                  syscallErr)
              | some (s,i) =>
                let child := forkChild parent (s.processes i) cpu s.nextTid parentFrame
                (setProcess {s with nextTid := nextTidAfter s.nextTid} i child,child.pid)

def isChildOf (p : Process) (parentPid pid : Nat) : Bool :=
  decide (p.state ≠ .unused) && decide (p.parentPid = parentPid) &&
    (decide (pid = 0) || decide (p.pid = pid))

def findZombieChild (s : System) (parentPid pid : Nat) : Option Slot :=
  (List.finRange processMax).find? fun i =>
    decide (i ≠ bootstrap) && isChildOf (s.processes i) parentPid pid &&
      decide ((s.processes i).state = .zombie)

def hasChild (s : System) (parentPid pid : Nat) : Bool :=
  (List.finRange processMax).any fun i =>
    decide (i ≠ bootstrap) && isChildOf (s.processes i) parentPid pid

def freeStack (a : Allocator) (top : Nat) : Allocator := if top = 0 then a else pageFree a (top - 4096)

def reapProcess (s : System) (i : Slot) : System :=
  let p := s.processes i
  if p.state ≠ .zombie then s
  else if p.isThread then
    let pages := if p.threadStackPage = 0 then s.vm.pages else pageFree s.vm.pages p.threadStackPage
    setProcess {s with vm := {s.vm with pages := freeStack pages p.kernelStackTop}} i (clearProcess p)
  else
    let vm := {s.vm with pages := freePages s.vm.pages (ownedPages p)}
    let vm := if p.pageDirectory ≠ 0 ∧ p.pageDirectory ≠ pagingKernelDirectory vm then
      pagingDestroyAddressSpace vm p.pageDirectory else vm
    setProcess {s with vm := {vm with pages := freeStack vm.pages p.kernelStackTop}} i (clearProcess p)

def processGetExitCode (s : System) (pid : Nat) : Option Nat :=
  match findPid s pid with
  | none => none
  | some i => if (s.processes i).state = .zombie then some (s.processes i).exitCode else none

def processReapPid (s : System) (pid : Nat) : System × Int :=
  match findPid s pid with
  | none => (s,-1)
  | some i => if (s.processes i).state ≠ .zombie then (s,-1) else (reapProcess s i,0)

def processWaitpid (s : System) (cpu pid statusPtr : Nat) : System × Int :=
  match currentLocal s cpu with
  | none => (s,-1)
  | some c =>
    if c = bootstrap ∨ statusPtr = 0 then (s,-1)
    else match findZombieChild s (s.processes c).pid pid with
      | some z =>
        match writeUserU32 s.vm (s.processes c).pageDirectory statusPtr (s.processes z).exitCode with
        | (vm,false) => ({s with vm},-1)
        | (vm,true) => (reapProcess {s with vm} z,toI32 (s.processes z).pid)
      | none =>
        if hasChild s (s.processes c).pid pid then
          (setProcess s c {s.processes c with
            waitPid := pid,waitStatusPtr := statusPtr,waitChannel := 0,state := .waiting},waitBlocked)
        else (s,-1)

/-- `process_sleep_on` once the caller holds the outer lock. -/
def processSleepOn (s : System) (cpu channel : Nat) : System × Int :=
  if wrap channel = 0 then (s,-1)
  else match currentLocal s cpu with
    | none => (s,-1)
    | some c =>
      if c = bootstrap ∨ (s.processes c).state = .unused then (s,-1)
      else (setProcess s c {s.processes c with waitChannel := wrap channel,state := .waiting},waitBlocked)

def wakeOn (channel : Nat) (p : Process) : Process :=
  if p.state = .waiting ∧ p.waitChannel = wrap channel then {p with waitChannel := 0,state := .ready}
  else p

def processWakeup (s : System) (channel : Nat) : System :=
  if wrap channel = 0 then s
  else {s with processes := fun i => if i = bootstrap then s.processes i else wakeOn channel (s.processes i)}

def setEax (p : Process) (value : Nat) : Option Frame := p.savedFrame.map fun f => {f with eax := value}

/-- The record that `wake_waiting_parent` stops at. -/
def waitingParent (s : System) (child : Slot) : Option Slot :=
  (List.finRange processMax).find? fun i =>
    let p := s.processes i
    decide (i ≠ bootstrap) && decide (p.state = .waiting) &&
      decide (p.pid = (s.processes child).parentPid) &&
      (decide (p.waitPid = 0) || decide (p.waitPid = (s.processes child).pid))

/-- The parent's record once the termination of child `pid` has been delivered. -/
def releaseParent (p : Process) (pid : Nat) : Process :=
  {p with savedFrame := setEax p pid,waitPid := 0,waitStatusPtr := 0,waitChannel := 0,state := .ready}

def wakeWaitingParent (s : System) (child : Slot) : System :=
  match waitingParent s child with
  | none => s
  | some i =>
    let p := s.processes i
    let c := s.processes child
    let vm := if p.waitStatusPtr = 0 then s.vm
      else (writeUserU32 s.vm p.pageDirectory p.waitStatusPtr c.exitCode).1
    let s := setProcess {s with vm} i (releaseParent p c.pid)
    setProcess s child {s.processes child with reapPending := true}

/-- The task that the exit of thread `tid` finds waiting in a join. -/
def waitingJoiner (s : System) (tid : Nat) : Option Slot :=
  (List.finRange processMax).find? fun i =>
    let w := s.processes i
    decide (i ≠ bootstrap) && decide (w.state = .waiting) && !w.isThread && decide (w.joinTid = tid)

def releaseJoiner (w : Process) (tid : Nat) : Process :=
  {w with savedFrame := setEax w tid,joinTid := 0,joinStatusPtr := 0,state := .ready}

def wakeJoiner (s : System) (tid code : Nat) : System :=
  match waitingJoiner s tid with
  | none => s
  | some i =>
    let w := s.processes i
    let vm := if w.joinStatusPtr = 0 then s.vm
      else (writeUserU32 s.vm w.pageDirectory w.joinStatusPtr code).1
    setProcess {s with vm} i (releaseJoiner w tid)

def terminate (s : System) (i : Slot) (code : Nat) : System :=
  setProcess s i {s.processes i with exitCode := code,state := .zombie}

def processExitCurrent (s : System) (cpu code : Nat) : System :=
  match currentLocal s cpu with
  | none => s
  | some c =>
    let exited := terminate s c code
    if (s.processes c).isThread then wakeJoiner exited (s.processes c).tid code
    else if c = bootstrap then s
    else wakeWaitingParent exited c

/-- The ancestor walk of `process_is_descendant_or_child`, `fuel` links at most. -/
def ancestorWalk (s : System) (ancestorPid : Nat) : Nat → Slot → Bool
  | 0, _ => false
  | fuel+1, p =>
    if (s.processes p).parentPid = 0 then false
    else match findPid s (s.processes p).parentPid with
      | none => false
      | some q => if (s.processes q).pid = ancestorPid then true else ancestorWalk s ancestorPid fuel q

def processIsDescendantOrChild (s : System) (pid ancestorPid : Nat) : Bool :=
  match findPid s pid with
  | none => false
  | some p =>
    if ancestorPid = 0 then false
    else if (s.processes p).parentPid = ancestorPid then true
    else ancestorWalk s ancestorPid processMax p

def sigKill : Nat := 9
def sigTerm : Nat := 15
def sigCont : Nat := 18
def sigStop : Nat := 19
def sigMax : Nat := 31

def signalBit (signal : Nat) : BitVec 32 := 1#32 <<< (signal - 1)

def processSignal (s : System) (pid signal : Nat) : System × Int :=
  match findPid s pid with
  | none => (s,-1)
  | some i =>
    let p := s.processes i
    if i = bootstrap ∨ signal = 0 ∨ signal > sigMax then (s,-1)
    else if signal = sigKill ∨ signal = sigTerm then
      (wakeWaitingParent (terminate (setProcess s i {p with
        pendingSignals := p.pendingSignals ||| signalBit signal}) i (128 + signal)) i,0)
    else if signal = sigStop then
      (setProcess s i {p with pendingSignals := p.pendingSignals ||| signalBit signal,state := .stopped},0)
    else if signal = sigCont then
      (setProcess s i {p with
        pendingSignals := p.pendingSignals &&& ~~~signalBit sigStop
        state := if p.state = .stopped then .ready else p.state},0)
    else (s,-1)

def processSignalPending (s : System) (pid : Nat) : Nat :=
  match findPid s pid with
  | none => 0
  | some i => (s.processes i).pendingSignals.toNat

def processGetState (s : System) (pid : Nat) : Int :=
  match findPid s pid with
  | none => -1
  | some i => ((s.processes i).state.code : Int)

def processHasCapability (p : Process) (capability : BitVec 32) : Bool :=
  p.capabilities &&& capability == capability

def processSetCapabilities (s : System) (i : Slot) (capabilities : BitVec 32) : System × Int :=
  if i = bootstrap then (s,-1)
  else (setProcess s i {s.processes i with capabilities := capabilities &&& ~~~capAdmin},0)

end LionOS.Processes

import LionOS.Library.Run
import LionOS.Processes.Effects

/-! The boot CPU as a machine that takes the calls of `process.c` one after another,
and what one call can do to one record. The other CPUs own no task; all that is
seen of them here is that the scheduler may fail to get the process lock. -/
namespace LionOS.Processes
open LionOS.Memory LionOS.Physical LionOS.Paging LionOS.Library

def currentPid (s : System) (cpu : Nat) : Nat :=
  match currentLocal s cpu with
  | none => 0
  | some c => (s.processes c).pid

def hasCap (s : System) (cpu : Nat) (capability : BitVec 32) : Bool :=
  match currentLocal s cpu with
  | none => false
  | some c => processHasCapability (s.processes c) capability

def processExists (s : System) (pid : Nat) : Bool := decide (pid ≠ 0) && (findPid s pid).isSome

/-- The checks of the system call before `process_signal`. -/
def killPermitted (s : System) (cpu pid signal : Nat) : Bool :=
  hasCap s cpu capProcess && processExists s pid && decide (pid ≠ currentPid s cpu) &&
    processIsDescendantOrChild s pid (currentPid s cpu) && decide (signal ≠ 0) && decide (signal ≤ sigMax)

def sysKill (s : System) (cpu pid signal : Nat) : System × Nat :=
  if killPermitted s cpu pid signal then
    ((processSignal s pid signal).1,toU32 (processSignal s pid signal).2)
  else (s,syscallErr)

inductive Call where
  | schedule (acquired : Bool) (frame : Frame)
  | requestReschedule
  | create (entry stack pd : Nat) (pages vas : Nat → Nat) (count : Nat)
  | replace (entry stack pd : Nat) (pages vas : Nat → Nat) (count : Nat)
  | fork (frame : Frame)
  | createKernelThread (entry : Nat)
  | createUserThread (entry : Nat)
  | exit (code : Nat)
  | waitpid (pid statusPtr : Nat)
  | joinThread (tid statusPtr : Nat)
  | sleepOn (channel : Nat)
  | wakeup (channel : Nat)
  | kill (pid signal : Nat)
  | reapPid (pid : Nat)
  | setPriority (slot : Slot) (priority : Nat)
  | setCapabilities (slot : Slot) (capabilities : BitVec 32)
  | memory (vm : Vm)

/-- One call on the boot CPU. `memory` is whatever user programs and the rest of the
kernel do to memory. A call that ends in a kernel panic leaves the state here,
since no call comes after it. -/
def step (s : System) : Call → System
  | .schedule acquired frame => (processSchedule s 0 acquired frame).1
  | .requestReschedule => processRequestReschedule s
  | .create entry stack pd pages vas count =>
    ((processCreateExVas s 0 entry stack pd pages vas count).map Prod.fst).getD s
  | .replace entry stack pd pages vas count =>
    (processExecReplaceCurrent s 0 entry stack pd pages vas count).getD s
  | .fork frame => (processForkCurrent s 0 frame).1
  | .createKernelThread entry => ((processCreateKernelThread s 0 entry).map Prod.fst).getD s
  | .createUserThread entry => ((processCreateUserThread s 0 entry).map Prod.fst).getD s
  | .exit code => processExitCurrent s 0 code
  | .waitpid pid statusPtr => (processWaitpid s 0 pid statusPtr).1
  | .joinThread tid statusPtr => (processJoinThread s 0 tid statusPtr).1
  | .sleepOn channel => (processSleepOn s 0 channel).1
  | .wakeup channel => processWakeup s channel
  | .kill pid signal => (sysKill s 0 pid signal).1
  | .reapPid pid => (processReapPid s pid).1
  | .setPriority slot priority => (processSetPriority s slot priority).1
  | .setCapabilities slot capabilities => (processSetCapabilities s slot capabilities).1
  | .memory vm => {s with vm}

def killTarget (s : System) (pid signal : Nat) : Option Slot :=
  if killPermitted s 0 pid signal then
    match findPid s pid with
    | none => none
    | some i => if i = bootstrap then none else some i
  else none

/-- The record that a call marks as terminated. -/
def victim (s : System) : Call → Option Slot
  | .exit _ => match currentLocal s 0 with
    | none => none
    | some c => if (s.processes c).isThread = true ∨ c ≠ bootstrap then some c else none
  | .kill pid signal => if signal = sigKill ∨ signal = sigTerm then killTarget s pid signal else none
  | _ => none

/-- The parent to which the termination of `child` is announced. -/
def parentOf (s : System) (child : Slot) : Option Slot := waitingParent (terminate s child 0) child

/-- The parent to which a call announces the termination that it causes. -/
def reportsTo (s : System) (call : Call) : Option Slot :=
  match victim s call, call with
  | some child, .exit _ => if (s.processes child).isThread then none else parentOf s child
  | some child, _ => parentOf s child
  | none, _ => none

/-- The task that the end of a thread releases from its join. -/
def joinedBy (s : System) (call : Call) : Option Slot :=
  match victim s call, call with
  | some child, .exit _ =>
    if (s.processes child).isThread then waitingJoiner (terminate s child 0) (s.processes child).tid else none
  | _, _ => none

/-- The calls that can end with the record of a zombie given back. -/
def Call.reaps : Call → Bool
  | .schedule _ _ => true
  | .waitpid _ _ => true
  | .joinThread _ _ => true
  | .reapPid _ => true
  | _ => false

/-- The call puts its caller to sleep. -/
def blocks (s : System) : Call → Bool
  | .waitpid pid statusPtr => match currentLocal s 0 with
    | none => false
    | some c => decide (c ≠ bootstrap) && decide (statusPtr ≠ 0) &&
        (findZombieChild s (s.processes c).pid pid).isNone && hasChild s (s.processes c).pid pid
  | .joinThread tid statusPtr => match currentLocal s 0 with
    | none => false
    | some c => !(s.processes c).isThread && decide (tid ≠ 0) && decide (statusPtr ≠ 0) &&
        (joinTarget s (s.processes c).threadGroupPid tid).any fun i => (s.processes i).state ≠ .zombie
  | .sleepOn channel => match currentLocal s 0 with
    | none => false
    | some c => decide (c ≠ bootstrap) && decide (wrap channel ≠ 0) &&
        decide ((s.processes c).state ≠ .unused)
  | _ => false

def terminationCode : Call → Nat
  | .exit code => code
  | .kill _ signal => 128 + signal
  | _ => 0

/-- What one call can do to the record `i`. -/
inductive Effect (s : System) : Call → Slot → Process → Prop
  | kept {call : Call} {i : Slot} {p : Process} (same : p.control = (s.processes i).control)
      (frame : p.savedFrame = (s.processes i).savedFrame) : Effect s call i p
  | scheduled {acquired : Bool} {frame : Frame} {i : Slot} {p : Process} (change : Scheduled s 0 i p) :
      Effect s (.schedule acquired frame) i p
  | spawned {call : Call} {i : Slot} {p : Process} (free : (s.processes i).state = .unused)
      (fresh : Fresh p) : Effect s call i p
  | replaced {entry stack pd count : Nat} {pages vas : Nat → Nat} {i : Slot} {p : Process}
      (caller : currentLocal s 0 = some i) (ordinary : i ≠ bootstrap)
      (same : p.control = {(s.processes i).control with
        exitCode := 0,waitPid := 0,waitStatusPtr := 0,reapPending := false,home := p.home}) :
      Effect s (.replace entry stack pd pages vas count) i p
  | terminated {call : Call} {i : Slot} {p : Process} (victim : victim s call = some i)
      (same : p.control = {(s.processes i).control with
        exitCode := terminationCode call,state := .zombie
        reapPending := (s.processes i).reapPending || (reportsTo s call).isSome})
      (frame : p.savedFrame = (s.processes i).savedFrame) : Effect s call i p
  | parentReleased {call : Call} {child i : Slot} (victim : victim s call = some child)
      (announced : reportsTo s call = some i) (waiting : (s.processes i).state = .waiting)
      (ordinary : i ≠ bootstrap) (parent : (s.processes i).pid = (s.processes child).parentPid)
      (matching : (s.processes i).waitPid = 0 ∨ (s.processes i).waitPid = (s.processes child).pid) :
      Effect s call i (releaseParent (s.processes i) (s.processes child).pid)
  | joinerReleased {call : Call} {child i : Slot} (victim : victim s call = some child)
      (thread : (s.processes child).isThread = true) (announced : joinedBy s call = some i)
      (waiting : (s.processes i).state = .waiting) (ordinary : i ≠ bootstrap)
      (joining : (s.processes i).joinTid = (s.processes child).tid) :
      Effect s call i (releaseJoiner (s.processes i) (s.processes child).tid)
  | woken {channel : Nat} {i : Slot} (nonzero : wrap channel ≠ 0) (ordinary : i ≠ bootstrap)
      (waiting : (s.processes i).state = .waiting) (asleep : (s.processes i).waitChannel = wrap channel) :
      Effect s (.wakeup channel) i {s.processes i with waitChannel := 0,state := .ready}
  | waits {pid statusPtr : Nat} {i : Slot} (caller : currentLocal s 0 = some i) (ordinary : i ≠ bootstrap)
      (nonnull : statusPtr ≠ 0) (blocked : blocks s (.waitpid pid statusPtr) = true) :
      Effect s (.waitpid pid statusPtr) i {s.processes i with
        waitPid := pid,waitStatusPtr := statusPtr,waitChannel := 0,state := .waiting}
  | joins {tid statusPtr : Nat} {i : Slot} (caller : currentLocal s 0 = some i) (positive : tid ≠ 0)
      (nonnull : statusPtr ≠ 0) (blocked : blocks s (.joinThread tid statusPtr) = true) :
      Effect s (.joinThread tid statusPtr) i {s.processes i with
        joinTid := tid,joinStatusPtr := statusPtr,state := .waiting}
  | sleeps {channel : Nat} {i : Slot} (caller : currentLocal s 0 = some i) (ordinary : i ≠ bootstrap)
      (nonzero : wrap channel ≠ 0) (blocked : blocks s (.sleepOn channel) = true) :
      Effect s (.sleepOn channel) i {s.processes i with waitChannel := wrap channel,state := .waiting}
  | reaped {call : Call} {i : Slot} (reaps : call.reaps = true) (dead : (s.processes i).state = .zombie)
      (waits : ∀ pid statusPtr, call = .waitpid pid statusPtr → i ≠ bootstrap) :
      Effect s call i (clearProcess (s.processes i))
  | stopped {pid : Nat} {i : Slot} {p : Process} (target : killTarget s pid sigStop = some i)
      (same : p.control = {(s.processes i).control with state := .stopped})
      (frame : p.savedFrame = (s.processes i).savedFrame) : Effect s (.kill pid sigStop) i p
  | continued {pid : Nat} {i : Slot} {p : Process} (target : killTarget s pid sigCont = some i)
      (paused : (s.processes i).state = .stopped)
      (same : p.control = {(s.processes i).control with state := .ready})
      (frame : p.savedFrame = (s.processes i).savedFrame) : Effect s (.kill pid sigCont) i p

theorem waitingParent_congr {s t : System} {child : Slot}
    (same : ∀ i, (t.processes i).control = (s.processes i).control) :
    waitingParent t child = waitingParent s child := by
  have state (i : Slot) : (t.processes i).state = (s.processes i).state := congrArg Control.state (same i)
  have pid (i : Slot) : (t.processes i).pid = (s.processes i).pid := congrArg Control.pid (same i)
  have parentPid (i : Slot) : (t.processes i).parentPid = (s.processes i).parentPid :=
    congrArg Control.parentPid (same i)
  have waitPid (i : Slot) : (t.processes i).waitPid = (s.processes i).waitPid :=
    congrArg Control.waitPid (same i)
  simp only [waitingParent,state,pid,parentPid,waitPid]

/-- The exit code plays no part in the search for a waiting parent. -/
theorem waitingParent_code (s : System) (child : Slot) (code : Nat) :
    waitingParent (terminate s child code) child = parentOf s child := by
  unfold parentOf waitingParent
  congr 1
  funext i
  by_cases own : i = child
  · subst own
    simp
  · simp [own]

theorem waitingParent_terminated {s t : System} {child : Slot} {p : Process} (code : Nat)
    (table : t.processes = Function.update s.processes child p)
    (same : p.control = (s.processes child).control) :
    waitingParent (terminate t child code) child = parentOf s child := by
  rw [← waitingParent_code s child code]
  have fields : {p.control with exitCode := code,state := .zombie} =
      {(s.processes child).control with exitCode := code,state := .zombie} := by rw [same]
  apply waitingParent_congr
  intro i
  simp only [terminate_processes,table,Function.update_self,Function.update_idem]
  by_cases own : i = child
  · subst own
    simp only [Function.update_self]
    exact fields
  · simp [own]

theorem Creates.effect {s s' : System} (creates : Creates s s') (call : Call) (i : Slot) :
    Effect s call i (s'.processes i) := by
  cases creates.spawns with
  | refused table =>
    rw [table]
    exact .kept rfl rfl
  | spawned slot p free fresh table =>
    rw [table]
    by_cases same : i = slot
    · subst same
      rw [Function.update_self]
      exact .spawned free fresh
    · rw [Function.update_of_ne same]
      exact .kept rfl rfl

theorem Effect.unchanged {s s' : System} (call : Call) (table : s'.processes = s.processes) (i : Slot) :
    Effect s call i (s'.processes i) := by
  rw [table]
  exact .kept rfl rfl

theorem reapProcess_effect {s s' : System} {call : Call} {z : Slot} (reaps : call.reaps = true)
    (table : s'.processes = s.processes)
    (ordinary : ∀ pid statusPtr, call = .waitpid pid statusPtr → z ≠ bootstrap) (i : Slot) :
    Effect s call i ((reapProcess s' z).processes i) := by
  rw [reapProcess_record,table]
  split
  next dead =>
    obtain ⟨dead,rfl⟩ := dead
    exact .reaped reaps dead ordinary
  next => exact .kept rfl rfl

theorem processWaitpid_effect (s : System) (pid statusPtr : Nat) (i : Slot) :
    Effect s (.waitpid pid statusPtr) i ((processWaitpid s 0 pid statusPtr).1.processes i) := by
  unfold processWaitpid
  cases caller : currentLocal s 0 with
  | none => exact .unchanged _ rfl i
  | some c =>
    dsimp only
    split
    · exact .unchanged _ rfl i
    next valid =>
      rw [not_or] at valid
      split
      next z found =>
        split
        · exact .unchanged _ rfl i
        · apply reapProcess_effect
          · rfl
          · rfl
          · intro _ _ _
            exact (findZombieChild_found found).1
      next none =>
        split
        next parent =>
          rw [setProcess_processes]
          by_cases same : i = c
          · subst same
            rw [Function.update_self]
            exact .waits caller valid.1 valid.2 (by simp [blocks,caller,valid.1,valid.2,none,parent])
          · rw [Function.update_of_ne same]
            exact .kept rfl rfl
        · exact .unchanged _ rfl i

theorem processJoinThread_effect (s : System) (tid statusPtr : Nat) (i : Slot) :
    Effect s (.joinThread tid statusPtr) i ((processJoinThread s 0 tid statusPtr).1.processes i) := by
  unfold processJoinThread
  cases caller : currentLocal s 0 with
  | none => exact .unchanged _ rfl i
  | some c =>
    dsimp only
    split
    · exact .unchanged _ rfl i
    next valid =>
      rw [not_or,not_or] at valid
      split
      · exact .unchanged _ rfl i
      next target =>
        split
        · split
          · exact .unchanged _ rfl i
          · apply reapProcess_effect
            · rfl
            · rfl
            · intro _ _ equal
              cases equal
        next running =>
          rw [setProcess_processes]
          by_cases same : i = c
          · subst same
            rw [Function.update_self]
            exact .joins caller valid.2.1 valid.2.2 (by
              simp [blocks,caller,valid.1,valid.2.1,valid.2.2,target,running])
          · rw [Function.update_of_ne same]
            exact .kept rfl rfl

theorem processSleepOn_effect (s : System) (channel : Nat) (i : Slot) :
    Effect s (.sleepOn channel) i ((processSleepOn s 0 channel).1.processes i) := by
  unfold processSleepOn
  split
  · exact .unchanged _ rfl i
  next nonzero =>
    cases caller : currentLocal s 0 with
    | none => exact .unchanged _ rfl i
    | some c =>
      dsimp only
      split
      · exact .unchanged _ rfl i
      next valid =>
        rw [not_or] at valid
        rw [setProcess_processes]
        by_cases same : i = c
        · subst same
          rw [Function.update_self]
          exact .sleeps caller valid.1 nonzero (by simp [blocks,caller,valid.1,valid.2,nonzero])
        · rw [Function.update_of_ne same]
          exact .kept rfl rfl

theorem processWakeup_effect (s : System) (channel : Nat) (i : Slot) :
    Effect s (.wakeup channel) i ((processWakeup s channel).processes i) := by
  unfold processWakeup
  split
  · exact .unchanged _ rfl i
  next nonzero =>
    dsimp only
    split
    · exact .kept rfl rfl
    next ordinary =>
      unfold wakeOn
      split
      next asleep => exact .woken nonzero ordinary asleep.1 asleep.2
      next => exact .kept rfl rfl

theorem processExecReplaceCurrent_effect (s : System) (entry stack pd : Nat) (pages vas : Nat → Nat)
    (count : Nat) (i : Slot) :
    Effect s (.replace entry stack pd pages vas count) i
      (((processExecReplaceCurrent s 0 entry stack pd pages vas count).getD s).processes i) := by
  unfold processExecReplaceCurrent
  cases caller : currentLocal s 0 with
  | none => exact .unchanged _ rfl i
  | some c =>
    dsimp only
    split
    · exact .unchanged _ rfl i
    next valid =>
      rw [not_or] at valid
      split
      · exact .unchanged _ rfl i
      · rw [Option.getD_some,setProcess_processes]
        have kept (s : System) (top : Nat) : (tssSetKernelStack s 0 top).processes = s.processes := by
          unfold tssSetKernelStack
          split <;> rfl
        simp only [kept]
        by_cases same : i = c
        · subst same
          rw [Function.update_self]
          exact .replaced caller valid.1 rfl
        · rw [Function.update_of_ne same]
          exact .kept rfl rfl

section Announced
variable {s t : System} {call : Call} {child : Slot} {p : Process}

theorem terminate_record (announces : reportsTo s call = parentOf s child)
    (table : t.processes = Function.update s.processes child p)
    (same : p.control = (s.processes child).control) :
    ((wakeWaitingParent (terminate t child (terminationCode call)) child).processes child).control =
      {(s.processes child).control with
        exitCode := terminationCode call,state := .zombie
        reapPending := (s.processes child).reapPending || (reportsTo s call).isSome} := by
  have parent := waitingParent_terminated (terminationCode call) table same
  have settled : ((terminate t child (terminationCode call)).processes child).state ≠ .waiting := by simp
  rw [wakeWaitingParent_record settled,if_neg,if_pos rfl,parent,← announces]
  · simp only [terminate_processes,table,Function.update_self]
    calc
      _ = {p.control with
            exitCode := terminationCode call,state := .zombie
            reapPending := p.control.reapPending || (reportsTo s call).isSome} := rfl
      _ = _ := by rw [same]; rfl
  · intro released
    exact settled (waitingParent_found released).2.1

theorem terminate_effect (ends : victim s call = some child) (announces : reportsTo s call = parentOf s child)
    (table : t.processes = Function.update s.processes child p)
    (same : p.control = (s.processes child).control)
    (frame : p.savedFrame = (s.processes child).savedFrame) (i : Slot) :
    Effect s call i
      ((wakeWaitingParent (terminate t child (terminationCode call)) child).processes i) := by
  have parent := waitingParent_terminated (terminationCode call) table same
  have settled : ((terminate t child (terminationCode call)).processes child).state ≠ .waiting := by simp
  have pid : p.pid = (s.processes child).pid := congrArg Control.pid same
  by_cases own : i = child
  · subst own
    refine .terminated ends (terminate_record announces table same) ?_
    rw [wakeWaitingParent_record settled,if_neg,if_pos rfl]
    · simpa [table] using frame
    · intro released
      exact settled (waitingParent_found released).2.1
  · have record : (terminate t child (terminationCode call)).processes i = s.processes i := by
      simp [table,own]
    have name : ((terminate t child (terminationCode call)).processes child).pid = (s.processes child).pid := by
      simpa [table] using pid
    rw [wakeWaitingParent_record settled,parent,← announces,if_neg own,record,name]
    split
    next released =>
      have found := released
      rw [announces,← parent] at found
      obtain ⟨ordinary,waiting,child',matching⟩ := waitingParent_found found
      have origin : p.parentPid = (s.processes child).parentPid := congrArg Control.parentPid same
      simp only [terminate_processes,table,Function.update_self,
        Function.update_of_ne own,pid,origin] at waiting child' matching
      exact .parentReleased ends released waiting ordinary child' matching
    next => exact .kept rfl rfl

end Announced

theorem waitingJoiner_code (s : System) (child : Slot) (tid code : Nat) :
    waitingJoiner (terminate s child code) tid = waitingJoiner (terminate s child 0) tid := by
  unfold waitingJoiner
  congr 1
  funext i
  by_cases own : i = child
  · subst own
    simp
  · simp [own]

theorem processExitCurrent_effect (s : System) (code : Nat) (i : Slot) :
    Effect s (.exit code) i ((processExitCurrent s 0 code).processes i) := by
  unfold processExitCurrent
  cases caller : currentLocal s 0 with
  | none => exact .unchanged _ rfl i
  | some c =>
    dsimp only
    split
    next thread =>
      have ends : victim s (.exit code) = some c := by simp [victim,caller,thread]
      have joiner : joinedBy s (.exit code) = waitingJoiner (terminate s c code) (s.processes c).tid := by
        rw [waitingJoiner_code]
        simp [joinedBy,ends,thread]
      have silent : reportsTo s (.exit code) = none := by simp [reportsTo,ends,thread]
      rw [wakeJoiner_record]
      by_cases own : i = c
      · subst own
        rw [if_neg]
        · refine .terminated ends ?_ ?_
          · simp [terminationCode,silent,Process.control,Process.home]
          · simp
        · intro found
          simpa using (waitingJoiner_found found).2.1
      · simp only [terminate_processes,Function.update_of_ne own]
        split
        next found =>
          obtain ⟨ordinary,waiting,_,joining⟩ := waitingJoiner_found found
          simp only [terminate_processes,Function.update_of_ne own] at waiting joining
          exact .joinerReleased ends thread (joiner.trans found) waiting ordinary joining
        next => exact .kept rfl rfl
    next process =>
      split
      · exact .unchanged _ rfl i
      next ordinary =>
        have ends : victim s (.exit code) = some c := by simp [victim,caller,ordinary]
        have announces : reportsTo s (.exit code) = parentOf s c := by simp [reportsTo,ends,process]
        exact terminate_effect ends announces (Function.update_eq_self c s.processes).symm rfl rfl i

theorem sysKill_effect (s : System) (pid signal : Nat) (i : Slot) :
    Effect s (.kill pid signal) i ((sysKill s 0 pid signal).1.processes i) := by
  unfold sysKill
  split
  next permitted =>
    unfold processSignal
    cases found : findPid s pid with
    | none => exact .unchanged _ rfl i
    | some target =>
      dsimp only
      split
      · exact .unchanged _ rfl i
      next valid =>
        rw [not_or] at valid
        have aimed : killTarget s pid signal = some target := by
          simp [killTarget,permitted,found,valid.1]
        split
        next lethal =>
          have ends : victim s (.kill pid signal) = some target := by
            simp only [victim,if_pos lethal]
            exact aimed
          have announces : reportsTo s (.kill pid signal) = parentOf s target := by
            simp [reportsTo,ends]
          apply terminate_effect ends announces
          · exact setProcess_processes s target _
          · rfl
          · rfl
        split
        next stop =>
          subst stop
          rw [setProcess_processes]
          by_cases own : i = target
          · subst own
            rw [Function.update_self]
            exact .stopped aimed rfl rfl
          · rw [Function.update_of_ne own]
            exact .kept rfl rfl
        split
        next resume =>
          subst resume
          rw [setProcess_processes]
          by_cases own : i = target
          · subst own
            rw [Function.update_self]
            split
            next paused => exact .continued aimed paused rfl rfl
            next => exact .kept rfl rfl
          · rw [Function.update_of_ne own]
            exact .kept rfl rfl
        · exact .unchanged _ rfl i
  next => exact .unchanged _ rfl i

theorem Creates.refl (s : System) : Creates s s := .of_table rfl rfl rfl

theorem step_create_creates (s : System) (entry stack pd : Nat) (pages vas : Nat → Nat) (count : Nat) :
    Creates s (step s (.create entry stack pd pages vas count)) := by
  cases created : processCreateExVas s 0 entry stack pd pages vas count with
  | none =>
    simp only [step,created]
    exact .refl s
  | some made =>
    simp only [step,created]
    exact processCreateExVas_creates created

theorem step_createKernelThread_creates (s : System) (positive : s.nextTid ≠ 0) (entry : Nat) :
    Creates s (step s (.createKernelThread entry)) := by
  cases created : processCreateKernelThread s 0 entry with
  | none =>
    simp only [step,created]
    exact .refl s
  | some made =>
    simp only [step,created]
    exact processCreateKernelThread_creates positive created

theorem step_createUserThread_creates (s : System) (positive : s.nextTid ≠ 0) (entry : Nat) :
    Creates s (step s (.createUserThread entry)) := by
  cases created : processCreateUserThread s 0 entry with
  | none =>
    simp only [step,created]
    exact .refl s
  | some made =>
    simp only [step,created]
    exact processCreateUserThread_creates positive created

/-- Every change that a call makes to a record is one of the listed effects. -/
theorem step_effect (s : System) (positive : s.nextTid ≠ 0) (call : Call) (i : Slot) :
    Effect s call i ((step s call).processes i) := by
  cases call with
  | schedule acquired frame => exact .scheduled (processSchedule_scheduled s 0 acquired frame i)
  | requestReschedule => exact .kept rfl rfl
  | create entry stack pd pages vas count =>
    exact (step_create_creates s entry stack pd pages vas count).effect _ i
  | replace entry stack pd pages vas count =>
    exact processExecReplaceCurrent_effect s entry stack pd pages vas count i
  | fork frame => exact (processForkCurrent_creates s 0 frame).effect _ i
  | createKernelThread entry => exact (step_createKernelThread_creates s positive entry).effect _ i
  | createUserThread entry => exact (step_createUserThread_creates s positive entry).effect _ i
  | exit code => exact processExitCurrent_effect s code i
  | waitpid pid statusPtr => exact processWaitpid_effect s pid statusPtr i
  | joinThread tid statusPtr => exact processJoinThread_effect s tid statusPtr i
  | sleepOn channel => exact processSleepOn_effect s channel i
  | wakeup channel => exact processWakeup_effect s channel i
  | kill pid signal => exact sysKill_effect s pid signal i
  | reapPid pid =>
    simp only [step,processReapPid]
    split
    · exact .kept rfl rfl
    split
    · exact .kept rfl rfl
    · exact reapProcess_effect rfl rfl (fun _ _ equal => by cases equal) i
  | setPriority slot priority =>
    simp only [step,processSetPriority]
    split
    · exact .kept rfl rfl
    · rw [setProcess_processes]
      by_cases same : i = slot
      · subst same
        rw [Function.update_self]
        exact .kept rfl rfl
      · rw [Function.update_of_ne same]
        exact .kept rfl rfl
  | setCapabilities slot capabilities =>
    simp only [step,processSetCapabilities]
    split
    · exact .kept rfl rfl
    · rw [setProcess_processes]
      by_cases same : i = slot
      · subst same
        rw [Function.update_self]
        exact .kept rfl rfl
      · rw [Function.update_of_ne same]
        exact .kept rfl rfl
  | memory vm => exact .kept rfl rfl

/-- Only the scheduler changes which task runs on a CPU, and no call takes the
thread counter to zero. -/
structure Frames (s s' : System) : Prop where
  current : s'.currentByCpu = s.currentByCpu
  counter : s'.nextTid = s.nextTid

theorem processExitCurrent_frames (s : System) (code : Nat) : Frames s (processExitCurrent s 0 code) := by
  unfold processExitCurrent
  split
  · exact ⟨rfl,rfl⟩
  dsimp only
  split
  · exact ⟨by simp,by simp⟩
  split
  · exact ⟨rfl,rfl⟩
  · exact ⟨by simp,by simp⟩

theorem processWaitpid_frames (s : System) (pid statusPtr : Nat) :
    Frames s (processWaitpid s 0 pid statusPtr).1 := by
  unfold processWaitpid
  split
  · exact ⟨rfl,rfl⟩
  split
  · exact ⟨rfl,rfl⟩
  split
  · split
    · exact ⟨rfl,rfl⟩
    · exact ⟨by simp,by simp⟩
  split
  · exact ⟨rfl,rfl⟩
  · exact ⟨rfl,rfl⟩

theorem processJoinThread_frames (s : System) (tid statusPtr : Nat) :
    Frames s (processJoinThread s 0 tid statusPtr).1 := by
  unfold processJoinThread
  split
  · exact ⟨rfl,rfl⟩
  dsimp only
  split
  · exact ⟨rfl,rfl⟩
  split
  · exact ⟨rfl,rfl⟩
  split
  · split
    · exact ⟨rfl,rfl⟩
    · exact ⟨by simp,by simp⟩
  · exact ⟨rfl,rfl⟩

theorem processSleepOn_frames (s : System) (channel : Nat) : Frames s (processSleepOn s 0 channel).1 := by
  unfold processSleepOn
  split
  · exact ⟨rfl,rfl⟩
  split
  · exact ⟨rfl,rfl⟩
  split
  · exact ⟨rfl,rfl⟩
  · exact ⟨rfl,rfl⟩

theorem sysKill_frames (s : System) (pid signal : Nat) : Frames s (sysKill s 0 pid signal).1 := by
  unfold sysKill
  split
  · unfold processSignal
    split
    · exact ⟨rfl,rfl⟩
    dsimp only
    split
    · exact ⟨rfl,rfl⟩
    split
    · exact ⟨by simp,by simp⟩
    split
    · exact ⟨rfl,rfl⟩
    split
    · exact ⟨rfl,rfl⟩
    · exact ⟨rfl,rfl⟩
  · exact ⟨rfl,rfl⟩

theorem processExecReplaceCurrent_frames (s : System) (entry stack pd : Nat) (pages vas : Nat → Nat)
    (count : Nat) :
    Frames s ((processExecReplaceCurrent s 0 entry stack pd pages vas count).getD s) := by
  have kept (s : System) (top : Nat) : Frames s (tssSetKernelStack s 0 top) := by
    unfold tssSetKernelStack
    split
    · exact ⟨rfl,rfl⟩
    · exact ⟨rfl,rfl⟩
  unfold processExecReplaceCurrent
  split
  · exact ⟨rfl,rfl⟩
  split
  · exact ⟨rfl,rfl⟩
  split
  · exact ⟨rfl,rfl⟩
  · rw [Option.getD_some]
    exact ⟨(kept _ _).current,(kept _ _).counter⟩

theorem step_current (s : System) (positive : s.nextTid ≠ 0) (call : Call)
    (other : ∀ acquired frame, call ≠ .schedule acquired frame) :
    (step s call).currentByCpu = s.currentByCpu := by
  cases call with
  | schedule acquired frame => exact absurd rfl (other acquired frame)
  | requestReschedule => rfl
  | create entry stack pd pages vas count => exact (step_create_creates s entry stack pd pages vas count).current
  | replace entry stack pd pages vas count =>
    exact (processExecReplaceCurrent_frames s entry stack pd pages vas count).current
  | fork frame => exact (processForkCurrent_creates s 0 frame).current
  | createKernelThread entry => exact (step_createKernelThread_creates s positive entry).current
  | createUserThread entry => exact (step_createUserThread_creates s positive entry).current
  | exit code => exact (processExitCurrent_frames s code).current
  | waitpid pid statusPtr => exact (processWaitpid_frames s pid statusPtr).current
  | joinThread tid statusPtr => exact (processJoinThread_frames s tid statusPtr).current
  | sleepOn channel => exact (processSleepOn_frames s channel).current
  | wakeup channel =>
    simp only [step,processWakeup]
    split <;> rfl
  | kill pid signal => exact (sysKill_frames s pid signal).current
  | reapPid pid =>
    simp only [step,processReapPid]
    split
    · rfl
    split
    · rfl
    · exact reapProcess_current _ _
  | setPriority slot priority =>
    simp only [step,processSetPriority]
    split <;> rfl
  | setCapabilities slot capabilities =>
    simp only [step,processSetCapabilities]
    split <;> rfl
  | memory vm => rfl

theorem switchFrom_nextTid (s : System) (cpu : Nat) (prev : Option Slot) (frame : Frame) :
    (switchFrom s cpu prev frame).1.nextTid = s.nextTid := by
  have local' (s : System) (i : Option Slot) : (setCurrentLocal s cpu i).nextTid = s.nextTid := by
    unfold setCurrentLocal
    split <;> rfl
  have stack (s : System) (top : Nat) : (tssSetKernelStack s cpu top).nextTid = s.nextTid := by
    unfold tssSetKernelStack
    split <;> rfl
  have entered (s : System) (next : Slot) : (enter s cpu next).nextTid = s.nextTid := by
    unfold enter
    rw [stack]
    exact local' s (some next)
  have reaps (s : System) : (reapPrev s prev).nextTid = s.nextTid := by
    unfold reapPrev
    split
    · rfl
    split
    · exact reapProcess_nextTid _ _
    · rfl
  have restores (s : System) (i : Slot) : (fpuRestore s cpu i).nextTid = s.nextTid := by
    unfold fpuRestore
    split <;> rfl
  have saves (s : System) (i : Slot) : (fpuSave s cpu i).nextTid = s.nextTid := by
    unfold fpuSave
    split <;> rfl
  have preempts (s : System) : (preempt s cpu prev).nextTid = s.nextTid := by
    unfold preempt
    split
    · rfl
    split
    · exact saves _ _
    · rfl
  unfold switchFrom
  dsimp only
  split
  · simp only [reaps,entered,restores,preempts]
  split
  · split
    · split
      · simp only [reaps,entered]
      · simp only [reaps,local']
    · rfl
  · split
    · exact entered _ _
    · rfl

theorem step_counter (s : System) (positive : s.nextTid ≠ 0) (call : Call) : (step s call).nextTid ≠ 0 := by
  cases call with
  | schedule acquired frame =>
    cases acquired with
    | false => exact positive
    | true =>
      obtain ⟨ready,_,counter,⟨kept,_⟩ | switched⟩ := processSchedule_acquired s 0 frame
      · simpa only [step,kept,counter] using positive
      · simpa only [step,switched,switchFrom_nextTid,counter] using positive
  | requestReschedule => exact positive
  | create entry stack pd pages vas count =>
    exact (step_create_creates s entry stack pd pages vas count).counter positive
  | replace entry stack pd pages vas count =>
    simpa only [step,(processExecReplaceCurrent_frames s entry stack pd pages vas count).counter]
      using positive
  | fork frame => exact (processForkCurrent_creates s 0 frame).counter positive
  | createKernelThread entry => exact (step_createKernelThread_creates s positive entry).counter positive
  | createUserThread entry => exact (step_createUserThread_creates s positive entry).counter positive
  | exit code => simpa only [step,(processExitCurrent_frames s code).counter] using positive
  | waitpid pid statusPtr => simpa only [step,(processWaitpid_frames s pid statusPtr).counter] using positive
  | joinThread tid statusPtr =>
    simpa only [step,(processJoinThread_frames s tid statusPtr).counter] using positive
  | sleepOn channel => simpa only [step,(processSleepOn_frames s channel).counter] using positive
  | wakeup channel =>
    simp only [step,processWakeup]
    split <;> exact positive
  | kill pid signal => simpa only [step,(sysKill_frames s pid signal).counter] using positive
  | reapPid pid =>
    simp only [step,processReapPid]
    split
    · exact positive
    split
    · exact positive
    · simpa using positive
  | setPriority slot priority =>
    simp only [step,processSetPriority]
    split <;> exact positive
  | setCapabilities slot capabilities =>
    simp only [step,processSetCapabilities]
    split <;> exact positive
  | memory vm => exact positive

/-- The machine when `process_init` has returned on the boot CPU. -/
def boot (s : System) (idle schedule : Nat) : System := processInit s 0 idle schedule

theorem boot_record (s : System) (idle schedule : Nat) (i : Slot) :
    ((boot s idle schedule).processes i).control =
      if i = bootstrap then {(clearProcess (s.processes i)).control with
        pid := 1,state := .running,home := ((boot s idle schedule).processes bootstrap).home}
      else (clearProcess (s.processes i)).control := by
  have kept (s : System) (i : Option Slot) : (setCurrentLocal s 0 i).processes = s.processes := by
    unfold setCurrentLocal
    split <;> rfl
  unfold boot processInit
  dsimp only
  rw [kept]
  split <;>
  · rw [setProcess_processes]
    by_cases same : i = bootstrap
    · subst same
      rw [Function.update_self,if_pos rfl]
      rfl
    · rw [Function.update_of_ne same,if_neg same]

theorem boot_counter (s : System) (idle schedule : Nat) : (boot s idle schedule).nextTid = 1 := by
  have kept (s : System) (i : Option Slot) : (setCurrentLocal s 0 i).nextTid = s.nextTid := by
    unfold setCurrentLocal
    split <;> rfl
  unfold boot processInit
  dsimp only
  rw [kept]
  split <;> rfl

theorem killTarget_found {s : System} {pid signal : Nat} {i : Slot}
    (target : killTarget s pid signal = some i) :
    i ≠ bootstrap ∧ killPermitted s 0 pid signal = true ∧ findPid s pid = some i := by
  unfold killTarget at target
  split at target
  next permitted =>
    split at target
    · cases target
    next found =>
      split at target
      · cases target
      next ordinary =>
        cases target
        exact ⟨ordinary,permitted,found⟩
  next => cases target

theorem killTarget_other {s : System} {pid signal : Nat} {i : Slot}
    (target : killTarget s pid signal = some i) : currentLocal s 0 ≠ some i := by
  intro caller
  obtain ⟨_,permitted,found⟩ := killTarget_found target
  simp only [killPermitted,Bool.and_eq_true,decide_eq_true_eq] at permitted
  apply permitted.1.1.1.2
  rw [currentPid,caller]
  exact (findPid_found found).2.symm

/-- What holds of the table in every state: the idle task is a live process without
a wait of its own to end it, and threads have positive identifiers. -/
structure Sound (s : System) : Prop where
  counter : s.nextTid ≠ 0
  threads : ∀ i, (s.processes i).isThread = true → (s.processes i).tid ≠ 0
  process : (s.processes bootstrap).isThread = false
  alive : (s.processes bootstrap).state ≠ .zombie
  taken : (s.processes bootstrap).state ≠ .unused

theorem boot_sound (s : System) (idle schedule : Nat) : Sound (boot s idle schedule) := by
  have state : ((boot s idle schedule).processes bootstrap).state = .running :=
    congrArg Control.state (boot_record s idle schedule bootstrap)
  have process (i : Slot) : ((boot s idle schedule).processes i).isThread = false := by
    refine (congrArg Control.isThread (boot_record s idle schedule i)).trans ?_
    split <;> rfl
  refine ⟨by simp [boot_counter],?_,process bootstrap,by simp [state],by simp [state]⟩
  intro i thread
  simp [process i] at thread

theorem victim_ordinary {s : System} (sound : Sound s) {call : Call} {i : Slot}
    (ends : victim s call = some i) : i ≠ bootstrap := by
  intro idle
  cases call with
  | exit code =>
    simp only [victim] at ends
    split at ends
    · cases ends
    · split at ends
      next valid =>
        cases ends
        rw [idle,sound.process] at valid
        simp at valid
      next => cases ends
  | kill pid signal =>
    simp only [victim] at ends
    split at ends
    · exact (killTarget_found ends).1 idle
    · cases ends
  | _ => cases ends

theorem victim_signal {s : System} {pid signal : Nat} {i : Slot}
    (ends : victim s (.kill pid signal) = some i) :
    (signal = sigKill ∨ signal = sigTerm) ∧ killTarget s pid signal = some i := by
  simp only [victim] at ends
  split at ends
  next lethal => exact ⟨lethal,ends⟩
  next => cases ends

theorem victim_exit {s : System} {code : Nat} {i : Slot} (ends : victim s (.exit code) = some i) :
    currentLocal s 0 = some i := by
  simp only [victim] at ends
  split at ends
  · cases ends
  next caller =>
    split at ends
    · rw [caller]
      exact ends
    · cases ends

theorem victim_record {s : System} {call : Call} {i : Slot} (ends : victim s call = some i) :
    ((step s call).processes i).control = {(s.processes i).control with
      exitCode := terminationCode call,state := .zombie
      reapPending := (s.processes i).reapPending || (reportsTo s call).isSome} := by
  cases call with
  | exit code =>
    have caller := victim_exit ends
    simp only [step,processExitCurrent,caller]
    split
    next thread =>
      have silent : reportsTo s (.exit code) = none := by simp [reportsTo,ends,thread]
      rw [wakeJoiner_record,if_neg]
      · simp [terminationCode,silent,Process.control,Process.home]
      · intro found
        simpa using (waitingJoiner_found found).2.1
    next process =>
      split
      next idle =>
        have thread : (s.processes bootstrap).isThread = true := by simpa [victim,caller,idle] using ends
        rw [idle] at process
        exact absurd thread process
      next =>
        have announces : reportsTo s (.exit code) = parentOf s i := by simp [reportsTo,ends,process]
        have table : s.processes = Function.update s.processes i (s.processes i) :=
          (Function.update_eq_self i s.processes).symm
        have record := terminate_record announces table rfl
        exact record
  | kill pid signal =>
    obtain ⟨lethal,target⟩ := victim_signal ends
    obtain ⟨ordinary,permitted,found⟩ := killTarget_found target
    have valid := permitted
    simp only [killPermitted,Bool.and_eq_true,decide_eq_true_eq] at valid
    have announces : reportsTo s (.kill pid signal) = parentOf s i := by simp [reportsTo,ends]
    simp only [step,sysKill,permitted,if_true,processSignal,found]
    rw [if_neg (by simp [ordinary,valid.1.2,Nat.not_lt.mpr valid.2]),if_pos lethal]
    have table := setProcess_processes s i {s.processes i with
      pendingSignals := (s.processes i).pendingSignals ||| signalBit signal}
    have record := terminate_record announces table rfl
    exact record
  | _ => cases ends

/-- A thread has a positive identifier in the record `p` of a process table. -/
def Identified (p : Process) : Prop := p.isThread = true → p.tid ≠ 0

theorem identified_congr {p q : Process} (thread : p.isThread = q.isThread) (tid : p.tid = q.tid)
    (known : Identified q) : Identified p := by
  unfold Identified
  rw [thread,tid]
  exact known

theorem effect_identified {s : System} {call : Call} {i : Slot} {p : Process}
    (known : Identified (s.processes i)) (effect : Effect s call i p) : Identified p := by
  have through {c : Control} (same : p.control = c) (thread : c.isThread = (s.processes i).isThread)
      (tid : c.tid = (s.processes i).tid) : Identified p :=
    identified_congr ((congrArg Control.isThread same).trans thread)
      ((congrArg Control.tid same).trans tid) known
  cases effect with
  | kept same frame => exact through same rfl rfl
  | scheduled change =>
    cases change with
    | kept same frame => exact through same rfl rfl
    | dispatched ready same => exact through same rfl rfl
    | preempted caller running same => exact through same rfl rfl
    | reaped caller dead pending cleared =>
      intro thread
      have process : p.isThread = false := congrArg Control.isThread cleared
      simp [process] at thread
  | spawned free fresh => exact fresh.thread
  | replaced caller ordinary same => exact through same rfl rfl
  | terminated ends same frame => exact through same rfl rfl
  | reaped reaps dead waits =>
    intro thread
    simp [clearProcess] at thread
  | stopped target same frame => exact through same rfl rfl
  | continued target paused same frame => exact through same rfl rfl
  | parentReleased | joinerReleased | woken | waits | joins | sleeps => exact known

theorem effect_idle_process {s : System} (sound : Sound s) {call : Call} {p : Process}
    (effect : Effect s call bootstrap p) :
    p.isThread = false ∧ p.state ≠ .zombie ∧ p.state ≠ .unused := by
  have through {c : Control} (same : p.control = c) (thread : c.isThread = false)
      (alive : c.state ≠ .zombie) (taken : c.state ≠ .unused) :
      p.isThread = false ∧ p.state ≠ .zombie ∧ p.state ≠ .unused := by
    rw [← same] at thread alive taken
    exact ⟨thread,alive,taken⟩
  obtain ⟨_,_,process,alive,taken⟩ := sound
  cases effect with
  | kept same frame => exact through same process alive taken
  | scheduled change =>
    cases change with
    | kept same frame => exact through same process alive taken
    | dispatched ready same => exact through same process (by simp) (by simp)
    | preempted caller running same => exact through same process (by simp) (by simp)
    | reaped caller dead pending cleared => exact absurd dead alive
  | spawned free fresh => exact absurd free taken
  | replaced caller ordinary same => exact absurd rfl ordinary
  | terminated ends same frame => exact absurd rfl (victim_ordinary ⟨‹_›,‹_›,process,alive,taken⟩ ends)
  | reaped reaps dead waits => exact absurd dead alive
  | stopped target same frame => exact absurd rfl (killTarget_found target).1
  | continued target paused same frame => exact through same process (by simp) (by simp)
  | joins caller positive nonnull => exact ⟨process,by simp,by simp⟩
  | parentReleased _ _ _ ordinary => exact absurd rfl ordinary
  | joinerReleased _ _ _ _ ordinary => exact absurd rfl ordinary
  | woken nonzero ordinary => exact absurd rfl ordinary
  | waits caller ordinary => exact absurd rfl ordinary
  | sleeps caller ordinary => exact absurd rfl ordinary

theorem sound_step {s : System} (sound : Sound s) (call : Call) : Sound (step s call) := by
  obtain ⟨process,alive,taken⟩ := effect_idle_process sound (step_effect s sound.counter call bootstrap)
  refine ⟨step_counter s sound.counter call,?_,process,alive,taken⟩
  intro i
  exact effect_identified (sound.threads i) (step_effect s sound.counter call i)

theorem run_sound (s : System) (idle schedule : Nat) (calls : List Call) :
    Sound (run step (boot s idle schedule) calls) := by
  induction calls using List.reverseRecOn with
  | nil => exact boot_sound s idle schedule
  | append_singleton calls call ih =>
    rw [run_append]
    exact sound_step ih call

end LionOS.Processes

import LionOS.Calls.Trace
import LionOS.Processes.Awake

/-! The calls of `process.c` behind a trap and what quiet changes leave of them. -/
namespace LionOS.Calls
open LionOS.Memory LionOS.Physical LionOS.Paging LionOS.Processes LionOS.Channels LionOS.Files LionOS.Exec
  LionOS.Library

section Quiet
variable {s s' : System} (same : Quiet s s')
include same

theorem Quiet.currentLocal (cpu : Nat) : currentLocal s' cpu = currentLocal s cpu := by
  simp only [Processes.currentLocal,same.current]

theorem Quiet.state (i : Slot) : (s'.processes i).state = (s.processes i).state := control_state (same.control i)

theorem Quiet.pid (i : Slot) : (s'.processes i).pid = (s.processes i).pid := congrArg Control.pid (same.control i)

theorem Quiet.parentPid (i : Slot) : (s'.processes i).parentPid = (s.processes i).parentPid :=
  congrArg Control.parentPid (same.control i)

theorem Quiet.isThread (i : Slot) : (s'.processes i).isThread = (s.processes i).isThread :=
  congrArg Control.isThread (same.control i)

theorem Quiet.findPid (pid : Nat) : findPid s' pid = findPid s pid := by
  simp only [Processes.findPid,same.state,same.pid]

theorem Quiet.ancestorWalk (pid fuel : Nat) (i : Slot) : ancestorWalk s' pid fuel i = ancestorWalk s pid fuel i := by
  induction fuel generalizing i with
  | zero => rfl
  | succ fuel ih => simp only [Processes.ancestorWalk,same.parentPid,same.findPid,same.pid,ih]

theorem Quiet.killPermitted (pid signal : Nat) : killPermitted s' 0 pid signal = killPermitted s 0 pid signal := by
  have caps : hasCap s' 0 capProcess = hasCap s 0 capProcess := by
    simp only [hasCap,processHasCapability,same.currentLocal,same.capabilities]
  have caller : currentPid s' 0 = currentPid s 0 := by simp only [currentPid,same.currentLocal,same.pid]
  have descends (ancestor : Nat) :
      processIsDescendantOrChild s' pid ancestor = processIsDescendantOrChild s pid ancestor := by
    simp only [processIsDescendantOrChild,same.findPid,same.parentPid,same.ancestorWalk]
  simp only [Processes.killPermitted,caps,caller,descends,processExists,same.findPid]

theorem Quiet.killTarget (pid signal : Nat) : killTarget s' pid signal = killTarget s pid signal := by
  simp only [Processes.killTarget,same.killPermitted,same.findPid]

theorem Quiet.victim (call : Call) : victim s' call = victim s call := by
  cases call with
  | exit code => simp only [Processes.victim,same.currentLocal,same.isThread]
  | kill pid signal => simp only [Processes.victim,same.killTarget]
  | _ => rfl

theorem Quiet.suspends (call : Call) : suspends s' call = suspends s call := by
  simp only [Processes.suspends,blocks_quiet same,same.currentLocal,same.victim]

theorem Quiet.tid (i : Slot) : (s'.processes i).tid = (s.processes i).tid := congrArg Control.tid (same.control i)

theorem Quiet.joinedBy (call : Call) : joinedBy s' call = joinedBy s call := by
  have joiner (child : Slot) (tid : Nat) :
      waitingJoiner (terminate s' child 0) tid = waitingJoiner (terminate s child 0) tid := by
    unfold waitingJoiner
    congr 1
    funext i
    have joins : (s'.processes i).joinTid = (s.processes i).joinTid := congrArg Control.joinTid (same.control i)
    by_cases own : i = child
    · subst own
      simp [same.isThread,joins]
    · simp [own,same.state,same.isThread,joins]
  cases call with
  | exit code => simp only [Processes.joinedBy,same.victim,same.isThread,same.tid,joiner]
  | kill pid signal =>
    simp only [Processes.joinedBy,same.victim]
    cases Processes.victim s (.kill pid signal) <;> rfl
  | _ => rfl

theorem Quiet.reportsTo (call : Call) : reportsTo s' call = reportsTo s call := by
  have parent (child : Slot) : parentOf s' child = parentOf s child := by
    apply waitingParent_congr
    intro i
    by_cases own : i = child
    · subst own
      simp only [terminate_processes,Function.update_self]
      calc
        _ = {(s'.processes i).control with exitCode := 0,state := .zombie} := rfl
        _ = {(s.processes i).control with exitCode := 0,state := .zombie} := by rw [same.control i]
    · simp only [terminate_processes,Function.update_of_ne own,same.control]
  cases call with
  | exit code => simp only [Processes.reportsTo,same.victim,same.isThread,parent]
  | kill pid signal =>
    simp only [Processes.reportsTo,same.victim]
    cases Processes.victim s (.kill pid signal) with
    | none => rfl
    | some child => exact parent child
  | _ => rfl

theorem Quiet.clean {call : Call} (clean : Clean s call) : Clean s' call := by
  have channels (i : Slot) : (s'.processes i).waitChannel = (s.processes i).waitChannel :=
    congrArg Control.waitChannel (same.control i)
  have continued : continues s' call = continues s call := by
    cases call with
    | kill pid signal => simp only [continues,same.killTarget]
    | _ => rfl
  intro i
  rw [same.joinedBy,continued,same.state,channels]
  exact clean i

theorem Quiet.sound (sound : Sound s) : Sound s' := by
  obtain ⟨counter,threads,process,alive,taken⟩ := sound
  refine ⟨?_,?_,?_,?_,?_⟩
  · rwa [same.counter]
  · intro i
    rw [same.isThread,same.tid]
    exact threads i
  · rwa [same.isThread]
  · rwa [same.state]
  · rwa [same.state]

theorem Quiet.resting (resting : Resting s) : Resting s' := by
  refine ⟨same.sound resting.sound,?_⟩
  intro i
  rw [same.currentLocal]
  exact (resting.records i).congr (same.control i) (same.frame i)

end Quiet

/-- The calls of `process.c` that a trap makes. -/
def trapCalls (k : Kernel) (frame : Frame) : List Call :=
  if frame.eax = sysForkNumber then [.fork frame]
  else match syscallOf frame.eax with
    | none => []
    | some call => if permitted k 0 call then callsOf k frame.ebx frame.ecx frame.edx call else []

/-- The trap writes to a pipe with room for a part of the data only. -/
def partialWrite (k : Kernel) (frame : Frame) : Bool :=
  decide (frame.eax = sysPipeWriteNumber) && permitted k 0 .pipeWrite && readable k frame.ecx frame.edx &&
    match ownPipe k frame.ebx with
    | some (id,1) =>
      let space := pipeBuffer - (k.pipes id).count
      decide ((k.pipes id).readers ≠ 0) && decide (space ≠ 0) && decide (space < frame.edx) &&
        blocks k.sys (.sleepOn (pipeChannel id 1))
    | _ => false

/-- The only call of a trap puts its caller to sleep or ends it. -/
def suspended (s : System) : List Call → Bool
  | [call] => suspends s call
  | _ => false

theorem syscallOf_number {number : Nat} {call : Syscall} (valid : syscallOf number = some call) :
    number = Syscall.table.idxOf call := by
  obtain ⟨bound,rfl⟩ := List.getElem?_eq_some_iff.mp valid
  have distinct : Syscall.table.Nodup := by decide
  exact (distinct.idxOf_getElem number bound).symm

/-- A trap makes no call, one call, or two on a pipe of which only the second can block. -/
inductive Shape (k : Kernel) (frame : Frame) : List Call → Prop
  | none (whole : partialWrite k frame = false) : Shape k frame []
  | one {call : Call} (serving : call.schedules = false) (whole : partialWrite k frame = false)
      (exits : ∀ code, call = .exit code → frame.eax = sysExitNumber ∨ frame.eax = sysThreadExitNumber)
      (execs : frame.eax = sysExecNumber → blocks k.sys call = false ∧ ∀ code, call ≠ .exit code) :
      Shape k frame [call]
  | woken {first second : Nat} (whole : partialWrite k frame = false) :
      Shape k frame [.wakeup first,.wakeup second]
  | slept {first channel : Nat} (part : partialWrite k frame = blocks k.sys (.sleepOn channel))
      (number : frame.eax = sysPipeWriteNumber) : Shape k frame [.wakeup first,.sleepOn channel]

section Shapes
variable {k : Kernel} {frame : Frame}

theorem partialWrite_other (other : frame.eax ≠ sysPipeWriteNumber) : partialWrite k frame = false := by
  simp [partialWrite,other]

theorem Shape.plain {call : Call} (other : frame.eax ≠ sysPipeWriteNumber) (serving : call.schedules = false)
    (lives : ∀ code, call ≠ .exit code) (execs : frame.eax = sysExecNumber → blocks k.sys call = false) :
    Shape k frame [call] :=
  .one serving (partialWrite_other other) (fun code same => absurd same (lives code)) fun exec => ⟨execs exec,lives⟩

theorem pipeWrite_shape (number : frame.eax = sysPipeWriteNumber) (allowed : permitted k 0 .pipeWrite = true)
    (given : readable k frame.ecx frame.edx = true) :
    Shape k frame (pipeWriteCalls k frame.ebx frame.edx) := by
  have part : partialWrite k frame = match ownPipe k frame.ebx with
      | some (id,1) =>
        let space := pipeBuffer - (k.pipes id).count
        decide ((k.pipes id).readers ≠ 0) && decide (space ≠ 0) && decide (space < frame.edx) &&
          blocks k.sys (.sleepOn (pipeChannel id 1))
      | _ => false := by
    simp only [partialWrite,number,allowed,given,decide_true,Bool.true_and]
  unfold pipeWriteCalls
  split
  next id own =>
    simp only [own] at part
    split
    next deaf => exact .none (by rw [part]; simp [deaf])
    next heard =>
      dsimp only
      have execs : frame.eax = sysExecNumber → False := by
        rw [number]
        exact fun exec => by cases exec
      by_cases space : pipeBuffer - (k.pipes id).count = 0
      · rw [if_neg (by simp [space])]
        split
        · exact .one rfl (by rw [part]; simp [space]) (fun code exit => by cases exit) fun exec => (execs exec).elim
        · exact .none (by rw [part]; simp [space])
      · rw [if_pos space]
        split
        next short =>
          refine .slept ?_ number
          rw [part]
          simp [heard,space,short]
        next fits =>
          exact .one rfl (by rw [part]; simp [fits]) (fun code exit => by cases exit) fun exec => (execs exec).elim
  next other =>
    refine .none ?_
    rw [part]
    split
    next id own => exact absurd own (other id)
    · rfl

theorem trapCalls_shape (k : Kernel) (frame : Frame) : Shape k frame (trapCalls k frame) := by
  unfold trapCalls
  split
  next fork =>
    have other : frame.eax ≠ sysPipeWriteNumber := by
      rw [fork]
      decide
    exact .plain other rfl (fun code exit => by cases exit) fun _ => rfl
  split
  next unknown =>
    refine .none (partialWrite_other ?_)
    intro number
    rw [number] at unknown
    cases unknown
  next call valid =>
    have number := syscallOf_number valid
    have other (apart : call ≠ .pipeWrite) : frame.eax ≠ sysPipeWriteNumber := by
      rw [number]
      revert apart
      cases call <;> decide
    have exec (apart : call ≠ .exec) : frame.eax ≠ sysExecNumber := by
      rw [number]
      revert apart
      cases call <;> decide
    split
    next allowed =>
      have silent (apart : call ≠ .pipeWrite) : Shape k frame [] := .none (partialWrite_other (other apart))
      have single {c : Call} (apart : call ≠ .pipeWrite) (program : call ≠ .exec) (serving : c.schedules = false)
          (lives : ∀ code, c ≠ .exit code) : Shape k frame [c] :=
        .plain (other apart) serving lives fun same => absurd same (exec program)
      have wakes {channel : Nat} (apart : call ≠ .pipeWrite) (program : call ≠ .exec) :
          Shape k frame [.wakeup channel] := single apart program rfl fun code exit => by cases exit
      have sleeps {channel : Nat} (apart : call ≠ .pipeWrite) (program : call ≠ .exec) :
          Shape k frame [.sleepOn channel] := single apart program rfl fun code exit => by cases exit
      cases call with
      | pipeWrite =>
        have write : frame.eax = sysPipeWriteNumber := number
        simp only [callsOf]
        split
        next given => exact pipeWrite_shape write allowed given
        next refused =>
          refine .none ?_
          simp [partialWrite,refused]
      | exit =>
        refine .one rfl (partialWrite_other (other (by decide))) (fun code same => .inl number) ?_
        exact fun program => absurd program (exec (by decide))
      | threadExit =>
        refine .one rfl (partialWrite_other (other (by decide))) (fun code same => .inr number) ?_
        exact fun program => absurd program (exec (by decide))
      | exec =>
        simp only [callsOf,execCalls]
        split
        · exact silent (by decide)
        split
        · exact silent (by decide)
        · exact .plain (other (by decide)) rfl (fun code exit => by cases exit) fun _ => rfl
      | threadCreate =>
        simp only [callsOf]
        split
        · exact silent (by decide)
        · exact single (by decide) (by decide) rfl fun code exit => by cases exit
      | waitpid | threadJoin =>
        simp only [callsOf]
        split
        · exact single (by decide) (by decide) rfl fun code exit => by cases exit
        · exact silent (by decide)
      | kill => exact single (by decide) (by decide) rfl fun code exit => by cases exit
      | mouseRead =>
        simp only [callsOf,mouseCalls]
        split
        · split
          · exact sleeps (by decide) (by decide)
          · exact silent (by decide)
        · exact silent (by decide)
      | ipcSend =>
        simp only [callsOf,ipcSendCalls]
        split
        · split
          · exact wakes (by decide) (by decide)
          · exact silent (by decide)
        · exact silent (by decide)
      | ipcRecvBlocking =>
        simp only [callsOf,ipcRecvCalls]
        split
        · split
          · exact silent (by decide)
          split
          · exact wakes (by decide) (by decide)
          · exact sleeps (by decide) (by decide)
        · exact silent (by decide)
      | pipeRead =>
        simp only [callsOf,pipeReadCalls]
        split
        · split
          · split
            · exact wakes (by decide) (by decide)
            split
            · exact sleeps (by decide) (by decide)
            · exact silent (by decide)
          · exact silent (by decide)
        · exact silent (by decide)
      | pipeClose =>
        simp only [callsOf,pipeCloseCalls]
        split
        · exact .woken (partialWrite_other (other (by decide)))
        · exact silent (by decide)
      | _ => exact silent (by decide)
    next refused =>
      refine .none ?_
      by_cases write : call = .pipeWrite
      · subst write
        simp [partialWrite,refused]
      · exact partialWrite_other (other write)

end Shapes

end LionOS.Calls

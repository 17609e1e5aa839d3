import LionOS.Processes.Awake
import LionOS.Processes.Identity

/-! What the calls leave alone: the FPU, and the counter of pids up to the next number. -/
namespace LionOS.Processes
open LionOS.Memory LionOS.Physical LionOS.Paging LionOS.Library

/-- A call leaves the FPU registers and settings alone and moves the counter of pids by at
most one number. -/
structure Steady (s s' : System) : Prop where
  pid : s'.nextPid = s.nextPid ∨ s'.nextPid = nextPidAfter s.nextPid
  enabled : s'.fpuEnabled = s.fpuEnabled
  initial : s'.fpuInitialState = s.fpuInitialState
  registers : s'.fpuRegisters = s.fpuRegisters

theorem Steady.refl (s : System) : Steady s s := ⟨.inl rfl,rfl,rfl,rfl⟩

theorem reapProcess_steady (s : System) (i : Slot) : Steady s (reapProcess s i) := by
  unfold reapProcess
  dsimp only
  split
  · exact .refl s
  split
  · exact ⟨.inl rfl,rfl,rfl,rfl⟩
  · exact ⟨.inl rfl,rfl,rfl,rfl⟩

theorem wakeWaitingParent_steady (s : System) (child : Slot) : Steady s (wakeWaitingParent s child) := by
  unfold wakeWaitingParent
  split <;> exact ⟨.inl rfl,rfl,rfl,rfl⟩

theorem wakeJoiner_steady (s : System) (tid code : Nat) : Steady s (wakeJoiner s tid code) := by
  unfold wakeJoiner
  split <;> exact ⟨.inl rfl,rfl,rfl,rfl⟩

section Calls
variable (s : System)

theorem processCreateExVasLocked_steady {s s' : System} {cpu entry stack pd count : Nat} {pages vas : Nat → Nat}
    {i : Slot} (created : processCreateExVasLocked s cpu entry stack pd pages vas count = some (s',i)) :
    Steady s s' ∧ s'.nextPid = nextPidAfter s.nextPid := by
  unfold processCreateExVasLocked at created
  split at created
  · cases created
  split at created
  · cases created
  split at created
  · cases created
  · cases created
    exact ⟨⟨.inr rfl,rfl,rfl,rfl⟩,rfl⟩

theorem processForkCurrent_steady (frame : Frame) : Steady s (processForkCurrent s 0 frame).1 := by
  unfold processForkCurrent
  split
  · exact .refl s
  dsimp only
  split
  · exact .refl s
  split
  · exact .refl s
  split
  · exact .refl s
  split
  · exact ⟨.inl rfl,rfl,rfl,rfl⟩
  split
  · exact ⟨.inl rfl,rfl,rfl,rfl⟩
  split
  · exact ⟨.inl rfl,rfl,rfl,rfl⟩
  next made i created =>
    obtain ⟨⟨pid,enabled,initial,registers⟩,_⟩ := processCreateExVasLocked_steady created
    exact ⟨pid,enabled,initial,registers⟩

theorem processCreateUserThread_steady (entry : Nat) : Steady s (step s (.createUserThread entry)) := by
  simp only [step,processCreateUserThread]
  split
  · exact .refl s
  split
  · exact .refl s
  split
  · exact .refl s
  split
  · exact .refl s
  split
  · split <;> exact ⟨.inl rfl,rfl,rfl,rfl⟩
  split
  · exact ⟨.inl rfl,rfl,rfl,rfl⟩
  split
  · exact ⟨.inl rfl,rfl,rfl,rfl⟩
  split
  · exact .refl s
  · exact ⟨.inl rfl,rfl,rfl,rfl⟩

theorem processExecReplaceCurrent_steady (entry stack pd : Nat) (pages vas : Nat → Nat) (count : Nat) :
    Steady s ((processExecReplaceCurrent s 0 entry stack pd pages vas count).getD s) := by
  have kept (s : System) (top : Nat) : Steady s (tssSetKernelStack s 0 top) := by
    unfold tssSetKernelStack
    split <;> exact ⟨.inl rfl,rfl,rfl,rfl⟩
  unfold processExecReplaceCurrent
  split
  · exact .refl s
  split
  · exact .refl s
  split
  · exact .refl s
  · rw [Option.getD_some]
    exact ⟨(kept _ _).pid,(kept _ _).enabled,(kept _ _).initial,(kept _ _).registers⟩

theorem processExitCurrent_steady (code : Nat) : Steady s (processExitCurrent s 0 code) := by
  unfold processExitCurrent
  split
  · exact .refl s
  next c _ =>
    dsimp only
    split
    · have woken := wakeJoiner_steady (terminate s c code) (s.processes c).tid code
      exact ⟨woken.pid,woken.enabled,woken.initial,woken.registers⟩
    split
    · exact .refl s
    · have woken := wakeWaitingParent_steady (terminate s c code) c
      exact ⟨woken.pid,woken.enabled,woken.initial,woken.registers⟩

theorem processWaitpid_steady (pid statusPtr : Nat) : Steady s (processWaitpid s 0 pid statusPtr).1 := by
  unfold processWaitpid
  split
  · exact .refl s
  split
  · exact .refl s
  split
  next z _ =>
    split
    · exact ⟨.inl rfl,rfl,rfl,rfl⟩
    next vm _ =>
      have reaped := reapProcess_steady {s with vm} z
      exact ⟨reaped.pid,reaped.enabled,reaped.initial,reaped.registers⟩
  split
  · exact ⟨.inl rfl,rfl,rfl,rfl⟩
  · exact .refl s

theorem processJoinThread_steady (tid statusPtr : Nat) : Steady s (processJoinThread s 0 tid statusPtr).1 := by
  unfold processJoinThread
  split
  · exact .refl s
  dsimp only
  split
  · exact .refl s
  split
  · exact .refl s
  next i _ =>
    split
    · split
      · exact ⟨.inl rfl,rfl,rfl,rfl⟩
      next vm _ =>
        have reaped := reapProcess_steady {s with vm} i
        exact ⟨reaped.pid,reaped.enabled,reaped.initial,reaped.registers⟩
    · exact ⟨.inl rfl,rfl,rfl,rfl⟩

theorem processSleepOn_steady (channel : Nat) : Steady s (processSleepOn s 0 channel).1 := by
  unfold processSleepOn
  split
  · exact .refl s
  split
  · exact .refl s
  split
  · exact .refl s
  · exact ⟨.inl rfl,rfl,rfl,rfl⟩

theorem sysKill_steady (pid signal : Nat) : Steady s (sysKill s 0 pid signal).1 := by
  unfold sysKill
  split
  · unfold processSignal
    split
    · exact .refl s
    next i _ =>
      dsimp only
      split
      · exact .refl s
      split
      · have woken (t : System) : Steady t (wakeWaitingParent (terminate t i (128 + signal)) i) := by
          have after := wakeWaitingParent_steady (terminate t i (128 + signal)) i
          exact ⟨after.pid,after.enabled,after.initial,after.registers⟩
        exact ⟨(woken _).pid,(woken _).enabled,(woken _).initial,(woken _).registers⟩
      split
      · exact ⟨.inl rfl,rfl,rfl,rfl⟩
      split
      · exact ⟨.inl rfl,rfl,rfl,rfl⟩
      · exact .refl s
  · exact .refl s

/-- Only the scheduler touches the FPU. -/
theorem step_steady (call : Call) (other : call.schedules = false) : Steady s (step s call) := by
  cases call with
  | schedule acquired frame => cases other
  | requestReschedule => exact ⟨.inl rfl,rfl,rfl,rfl⟩
  | create entry stack pd pages vas count =>
    simp only [step,processCreateExVas]
    cases created : processCreateExVasLocked s 0 entry stack pd pages vas count with
    | none => exact .refl s
    | some made => exact (processCreateExVasLocked_steady created).1
  | replace entry stack pd pages vas count => exact processExecReplaceCurrent_steady s entry stack pd pages vas count
  | fork frame => exact processForkCurrent_steady s frame
  | createKernelThread entry =>
    simp only [step,processCreateKernelThread]
    split
    · exact .refl s
    split
    · exact .refl s
    split
    · exact .refl s
    · exact ⟨.inl rfl,rfl,rfl,rfl⟩
  | createUserThread entry => exact processCreateUserThread_steady s entry
  | exit code => exact processExitCurrent_steady s code
  | waitpid pid statusPtr => exact processWaitpid_steady s pid statusPtr
  | joinThread tid statusPtr => exact processJoinThread_steady s tid statusPtr
  | sleepOn channel => exact processSleepOn_steady s channel
  | wakeup channel =>
    simp only [step,processWakeup]
    split
    · exact .refl s
    · exact ⟨.inl rfl,rfl,rfl,rfl⟩
  | kill pid signal => exact sysKill_steady s pid signal
  | reapPid pid =>
    simp only [step,processReapPid]
    split
    · exact .refl s
    split
    · exact .refl s
    · exact reapProcess_steady s _
  | setPriority slot priority =>
    simp only [step,processSetPriority]
    split
    · exact .refl s
    · exact ⟨.inl rfl,rfl,rfl,rfl⟩
  | setCapabilities slot capabilities =>
    simp only [step,processSetCapabilities]
    split
    · exact .refl s
    · exact ⟨.inl rfl,rfl,rfl,rfl⟩
  | memory vm => exact ⟨.inl rfl,rfl,rfl,rfl⟩

end Calls

/-! ### The counter of pids -/

theorem nextPidAfter_ne_zero (n : Nat) : nextPidAfter n ≠ 0 := by
  unfold nextPidAfter
  split
  · nofun
  · assumption

theorem setProcess_nextPid (s : System) (i : Slot) (p : Process) : (setProcess s i p).nextPid = s.nextPid := rfl

theorem chargeTick_nextPid (s : System) (prev : Slot) : (chargeTick s prev).1.nextPid = s.nextPid := by
  unfold chargeTick
  dsimp only
  split
  · rfl
  split
  · rfl
  split <;> rfl

theorem enter_nextPid (s : System) (cpu : Nat) (next : Slot) : (enter s cpu next).nextPid = s.nextPid := by
  have stack (s : System) (top : Nat) : (tssSetKernelStack s cpu top).nextPid = s.nextPid := by
    unfold tssSetKernelStack
    split <;> rfl
  have current (s : System) (i : Option Slot) : (setCurrentLocal s cpu i).nextPid = s.nextPid := by
    unfold setCurrentLocal
    split <;> rfl
  unfold enter
  rw [stack]
  exact current s (some next)

theorem reapProcess_nextPid (s : System) (i : Slot) : (reapProcess s i).nextPid = s.nextPid := by
  unfold reapProcess
  dsimp only
  split
  · rfl
  split <;> rfl

theorem reapPrev_nextPid (s : System) (prev : Option Slot) : (reapPrev s prev).nextPid = s.nextPid := by
  unfold reapPrev
  split
  · rfl
  split
  · exact reapProcess_nextPid s _
  · rfl

theorem preempt_nextPid (s : System) (cpu : Nat) (prev : Option Slot) : (preempt s cpu prev).nextPid = s.nextPid := by
  unfold preempt
  split
  · rfl
  split
  · unfold fpuSave
    split <;> rfl
  · rfl

theorem switchFrom_nextPid (s : System) (cpu : Nat) (prev : Option Slot) (frame : Frame) :
    (switchFrom s cpu prev frame).1.nextPid = s.nextPid := by
  have restored (s : System) (i : Slot) : (fpuRestore s cpu i).nextPid = s.nextPid := by
    unfold fpuRestore
    split <;> rfl
  have current (s : System) (i : Option Slot) : (setCurrentLocal s cpu i).nextPid = s.nextPid := by
    unfold setCurrentLocal
    split <;> rfl
  unfold switchFrom
  dsimp only
  split
  · rw [reapPrev_nextPid,enter_nextPid,restored,preempt_nextPid]
  split
  · split
    · split
      · rw [reapPrev_nextPid,enter_nextPid]
      · rw [reapPrev_nextPid,current]
    · rfl
  · split
    · rw [enter_nextPid]
    · rfl

theorem processSchedule_nextPid (s : System) (acquired : Bool) (frame : Frame) :
    (processSchedule s 0 acquired frame).1.nextPid = s.nextPid := by
  unfold processSchedule
  split
  · rfl
  dsimp only
  split
  · rw [switchFrom_nextPid]
    rfl
  next prev _ =>
    have charged := chargeTick_nextPid (saveFrame (countSchedule s 0) prev frame) prev
    split
    next t kept =>
      rw [kept] at charged
      exact charged
    next t gives =>
      rw [gives] at charged
      have freed : (freeDeferred t prev).nextPid = t.nextPid := by
        unfold freeDeferred
        dsimp only
        split
        · rfl
        · exact setProcess_nextPid _ _ _
      rw [switchFrom_nextPid,freed]
      exact charged

theorem step_nextPid {s : System} (positive : s.nextPid ≠ 0) (call : Call) : (step s call).nextPid ≠ 0 := by
  cases serving : call.schedules with
  | false =>
    rcases (step_steady s call serving).pid with same | moved
    · rw [same]
      exact positive
    · rw [moved]
      exact nextPidAfter_ne_zero _
  | true =>
    cases call with
    | schedule acquired frame =>
      simp only [step]
      rw [processSchedule_nextPid]
      exact positive
    | _ => cases serving

end LionOS.Processes

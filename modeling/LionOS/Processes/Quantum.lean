import LionOS.Processes.Identifiers

/-! Priorities and quanta: where the time slice of a task is the one of its priority. -/
namespace LionOS.Processes
open LionOS.Memory LionOS.Physical LionOS.Paging LionOS.Library

/-- The priority of a task exists, its time slice is that of its priority, and there is some
of it left. -/
structure Paced (p : Process) : Prop where
  level : p.priority < priorityLevels
  slice : p.timeSlice = quantumForPriority p.priority
  ticks : p.ticksUsed < p.timeSlice

instance Paced.decidable (p : Process) : Decidable (Paced p) :=
  decidable_of_iff (p.priority < priorityLevels ∧ p.timeSlice = quantumForPriority p.priority ∧
    p.ticksUsed < p.timeSlice) ⟨fun paced => ⟨paced.1,paced.2.1,paced.2.2⟩,fun paced => ⟨paced.level,paced.slice,paced.ticks⟩⟩

/-- The calls that create tasks, set priorities or schedule. -/
def Call.paces : Call → Bool
  | .create _ _ _ _ _ _ | .fork _ | .createKernelThread _ | .createUserThread _ | .setPriority _ _ | .schedule _ _
  | .requestReschedule | .memory _ => true
  | _ => false

/-- The tick uses up the quantum of a task that has a lower priority to go to. -/
def demotes (s : System) (c : Slot) : Prop :=
  c ≠ bootstrap ∧ (s.processes c).state = .running ∧ s.rescheduleRequested = false ∧
    (s.processes c).timeSlice ≤ (s.processes c).ticksUsed + 1 ∧ (s.processes c).priority + 1 < priorityLevels

/-- The call creates no kernel thread and lowers no priority. -/
def Punctual (s : System) : Call → Prop
  | .createKernelThread entry => entry = 0 ∨ findFreeSlot s = none ∨ pageAlloc s.vm.pages = none
  | .schedule acquired _ => acquired = true → ∀ c, currentLocal s 0 = some c → ¬ demotes s c
  | _ => True

instance demotes.decidable (s : System) (c : Slot) : Decidable (demotes s c) := inferInstanceAs (Decidable (_ ∧ _))

/-- No frame is left for a stack. -/
def outOfFrames (a : Allocator) : Bool := (pageAlloc a).isNone

instance Punctual.decidable (s : System) : ∀ call, Decidable (Punctual s call)
  | .createKernelThread entry => decidable_of_iff (entry = 0 ∨ findFreeSlot s = none ∨ outOfFrames s.vm.pages = true)
      (by simp only [Punctual,outOfFrames,Option.isNone_iff_eq_none])
  | .schedule _ _ => inferInstanceAs (Decidable (_ → _))
  | .create _ _ _ _ _ _ | .fork _ | .createUserThread _ | .requestReschedule | .replace _ _ _ _ _ _ | .exit _
  | .waitpid _ _ | .joinThread _ _ | .sleepOn _ | .wakeup _ | .kill _ _ | .reapPid _ | .setPriority _ _
  | .setCapabilities _ _ | .memory _ => isTrue trivial

/-- Every record has a priority, and the tasks other than the idle task keep to their quantum. -/
structure Timed (s : System) : Prop where
  level : ∀ i, (s.processes i).priority < priorityLevels
  tasks : ∀ i, i ≠ bootstrap → Live s i → Paced (s.processes i)

def Process.pace (p : Process) : Nat × Nat × Nat := (p.priority,p.timeSlice,p.ticksUsed)

theorem Paced.congr {p q : Process} (same : q.pace = p.pace) (paced : Paced p) : Paced q := by
  simp only [Process.pace,Prod.mk.injEq] at same
  obtain ⟨priority,slice,ticks⟩ := same
  obtain ⟨level,own,left⟩ := paced
  rw [← priority] at level own
  rw [← slice] at own left
  rw [← ticks] at left
  exact ⟨level,own,left⟩

theorem quantum_positive (priority : Nat) : 0 < quantumForPriority priority := by
  have levels : ∀ i : Fin priorityLevels, 0 < [2,4,8,12].getD i.val 0 := by decide
  unfold quantumForPriority
  split
  next low => exact levels ⟨priority,low⟩
  next => exact levels ⟨priorityLevels - 1,by decide⟩

theorem quantum_small (priority : Nat) : quantumForPriority priority ≤ 12 := by
  have levels : ∀ i : Fin priorityLevels, [2,4,8,12].getD i.val 0 ≤ 12 := by decide
  unfold quantumForPriority
  split
  next low => exact levels ⟨priority,low⟩
  next => exact levels ⟨priorityLevels - 1,by decide⟩

/-- Within a quantum the counter of the ticks is far from its end. -/
theorem Paced.counts (paced : Paced p) : wrap (p.ticksUsed + 1) = p.ticksUsed + 1 := by
  obtain ⟨_,slice,left⟩ := paced
  have small := quantum_small p.priority
  apply Nat.mod_eq_of_lt
  omega

theorem level_counts {priority : Nat} (level : priority < priorityLevels) : wrap (priority + 1) = priority + 1 := by
  unfold priorityLevels at level
  apply Nat.mod_eq_of_lt
  omega

/-- A record that has used nothing of its quantum. -/
theorem Paced.fresh {p : Process} {priority : Nat} (level : priority < priorityLevels)
    (pace : p.pace = (priority,quantumForPriority priority,0)) : Paced p := by
  simp only [Process.pace,Prod.mk.injEq] at pace
  obtain ⟨same,slice,ticks⟩ := pace
  refine ⟨by rw [same]; exact level,by rw [slice,same],?_⟩
  rw [ticks,slice]
  exact quantum_positive priority

section Table
variable {s s' : System}

/-- A new record in place of another one. -/
theorem Timed.update (timed : Timed s) {c : Slot} {p : Process}
    (table : s'.processes = Function.update s.processes c p) (level : p.priority < priorityLevels)
    (paced : c ≠ bootstrap → p.state ≠ .unused → Paced p) : Timed s' := by
  constructor
  · intro i
    rw [table]
    by_cases own : i = c
    · rw [own,Function.update_self]
      exact level
    · rw [Function.update_of_ne own]
      exact timed.level i
  · intro i ordinary live
    unfold Live at live
    rw [table] at live ⊢
    by_cases own : i = c
    · rw [own,Function.update_self] at live ⊢
      exact paced (own ▸ ordinary) live
    · rw [Function.update_of_ne own] at live ⊢
      exact timed.tasks i ordinary live

theorem Timed.table (timed : Timed s) (table : s'.processes = s.processes) : Timed s' := by
  refine ⟨?_,?_⟩
  · rw [table]
    exact timed.level
  · unfold Live
    rw [table]
    exact timed.tasks

/-- A change to a record that leaves its pace alone and does not bring it to life. -/
theorem Timed.kept (timed : Timed s) {c : Slot} {p : Process} (table : s'.processes = Function.update s.processes c p)
    (pace : p.pace = (s.processes c).pace) (live : c ≠ bootstrap → p.state ≠ .unused → Live s c) : Timed s' := by
  have priority : p.priority = (s.processes c).priority := congrArg Prod.fst pace
  refine timed.update table (priority ▸ timed.level c) ?_
  intro ordinary taken
  exact (timed.tasks c ordinary (live ordinary taken)).congr pace

end Table

/-! ### The scheduler -/

section Scheduler
variable {s : System} (timed : Timed s)
include timed

theorem fpuSave_timed (cpu : Nat) (c : Slot) : Timed (fpuSave s cpu c) := by
  unfold fpuSave
  split
  · apply timed.kept (setProcess_processes s c _)
    · rfl
    · exact fun _ taken => taken
  · exact timed

theorem preempt_timed (cpu : Nat) (prev : Option Slot) : Timed (preempt s cpu prev) := by
  unfold preempt
  split
  · exact timed
  next c =>
    split
    next running =>
      apply fpuSave_timed
      apply timed.kept (setProcess_processes s c _)
      · rfl
      · intro _ _ free
        rw [running] at free
        cases free
    · exact timed

theorem enter_timed (cpu : Nat) {next : Slot} (live : next ≠ bootstrap → Live s next) : Timed (enter s cpu next) := by
  have table : (enter s cpu next).processes =
      Function.update s.processes next {s.processes next with cpuOwner := cpu,state := .running} := by
    funext i
    rw [enter_record,Function.update_apply]
    split
    next own => rw [own]
    next => rfl
  apply timed.kept table
  · rfl
  · exact fun ordinary _ => live ordinary

theorem reapPrev_timed (prev : Option Slot) : Timed (reapPrev s prev) := by
  constructor
  · intro i
    rw [reapPrev_record]
    split
    · exact show priorityDefault < priorityLevels by decide
    · exact timed.level i
  · intro i ordinary live
    unfold Live at live
    rw [reapPrev_record] at live ⊢
    split at live
    · exact absurd rfl live
    next waits =>
      rw [if_neg waits]
      exact timed.tasks i ordinary live

theorem setCurrentLocal_timed (cpu : Nat) (c : Option Slot) : Timed (setCurrentLocal s cpu c) := by
  unfold setCurrentLocal
  split
  · exact timed.table rfl
  · exact timed

theorem switchFrom_timed (cpu : Nat) (prev : Option Slot) (frame : Frame) : Timed (switchFrom s cpu prev frame).1 := by
  unfold switchFrom
  dsimp only
  split
  next next' found =>
    apply reapPrev_timed
    apply enter_timed
    · refine Timed.table (preempt_timed ?_ cpu prev) (fpuRestore_processes _ _ _)
      refine timed.table ?_
      rfl
    · intro _ free
      have ready := selectNext_ready found
      rw [fpuRestore_processes] at free
      have control := (preempt_record {s with
        schedulerCpu := Function.update s.schedulerCpu cpu {s.schedulerCpu cpu with cursor := next'.val}} cpu prev next').2
      rw [if_neg (by rw [ready]; nofun)] at control
      rw [control_state control,ready] at free
      cases free
  · split
    · split
      · split
        · dsimp only
          exact reapPrev_timed (enter_timed timed _ fun ordinary => absurd rfl ordinary) _
        · dsimp only
          exact reapPrev_timed (setCurrentLocal_timed timed _ _) _
      · exact timed
    · split
      · exact enter_timed timed _ fun ordinary => absurd rfl ordinary
      · exact timed

theorem saveFrame_timed (prev : Slot) (frame : Frame) : Timed (saveFrame s prev frame) := by
  apply timed.kept (setProcess_processes s prev _)
  · rfl
  · exact fun _ taken => taken

theorem freeDeferred_timed (prev : Slot) : Timed (freeDeferred s prev) := by
  unfold freeDeferred
  dsimp only
  split
  · exact timed
  · generalize (s.processes prev).deferredKernelStack - 4096 = page
    have freed : Timed {s with vm := {s.vm with pages := pageFree s.vm.pages page}} := timed.table rfl
    apply freed.kept (setProcess_processes _ prev _)
    · rfl
    · exact fun _ taken => taken

/-- A tick that lowers no priority leaves the running task within its quantum. -/
theorem chargeTick_timed {prev : Slot} (keeps : ¬ demotes s prev) : Timed (chargeTick s prev).1 := by
  unfold chargeTick
  dsimp only
  split
  · exact timed
  next running =>
    rw [not_not] at running
    have live : Live s prev := by
      unfold Live
      rw [running]
      nofun
    split
    · have cleared : Timed {s with rescheduleRequested := false} := timed.table rfl
      apply cleared.update (setProcess_processes _ prev _)
      · exact timed.level prev
      · intro ordinary _
        obtain ⟨level,slice,_⟩ := timed.tasks prev ordinary live
        refine ⟨level,slice,?_⟩
        rw [slice]
        exact quantum_positive _
    next unrequested =>
      split
      next left =>
        apply timed.update (setProcess_processes _ prev _)
        · exact timed.level prev
        · intro ordinary _
          obtain ⟨level,slice,_⟩ := timed.tasks prev ordinary live
          exact ⟨level,slice,left⟩
      next later =>
        rw [level_counts (timed.level prev)]
        have bound : (if (s.processes prev).priority + 1 < priorityLevels then (s.processes prev).priority + 1
            else (s.processes prev).priority) < priorityLevels := by
          split
          next lower => exact lower
          next => exact timed.level prev
        apply timed.update (setProcess_processes _ prev _)
        · exact bound
        · intro ordinary _
          obtain ⟨level,slice,_⟩ := timed.tasks prev ordinary live
          rw [(timed.tasks prev ordinary live).counts] at later
          have lowest : ¬ (s.processes prev).priority + 1 < priorityLevels := by
            intro lower
            exact keeps ⟨ordinary,running,by simpa using unrequested,Nat.not_lt.mp later,lower⟩
          rw [if_neg lowest]
          refine ⟨level,slice,?_⟩
          rw [slice]
          exact quantum_positive _

theorem processSchedule_timed {acquired : Bool} (frame : Frame) (punctual : Punctual s (.schedule acquired frame)) :
    Timed (processSchedule s 0 acquired frame).1 := by
  cases acquired with
  | false => exact timed
  | true =>
    have counted : Timed (countSchedule s 0) := timed.table rfl
    simp only [processSchedule,Bool.not_true,Bool.false_eq_true,if_false]
    cases caller : currentLocal (countSchedule s 0) 0 with
    | none => exact switchFrom_timed counted 0 none frame
    | some prev =>
      have keeps : ¬ demotes (saveFrame (countSchedule s 0) prev frame) prev := by
        have own := punctual rfl prev caller
        unfold demotes at own ⊢
        simp only [saveFrame,setProcess_processes,Function.update_self]
        exact own
      have charged := chargeTick_timed (saveFrame_timed counted prev frame) keeps
      cases outcome : chargeTick (saveFrame (countSchedule s 0) prev frame) prev with
      | mk after yields =>
        rw [outcome] at charged
        simp only [outcome]
        cases yields with
        | false => exact charged
        | true => exact switchFrom_timed (freeDeferred_timed charged prev) 0 (some prev) frame

end Scheduler

/-! ### New tasks -/

section Creation
variable {s : System}

theorem processCreateExVasLocked_pace {s' : System} {cpu entry stack pd count : Nat} {pages vas : Nat → Nat} {i : Slot}
    (created : processCreateExVasLocked s cpu entry stack pd pages vas count = some (s',i)) :
    (s'.processes i).pace = (priorityDefault,quantumForPriority priorityDefault,0) := by
  unfold processCreateExVasLocked at created
  split at created
  · cases created
  split at created
  · cases created
  split at created
  · cases created
  next slot _ _ frames stackPage _ =>
    simp only [Option.some.injEq,Prod.mk.injEq] at created
    obtain ⟨rfl,rfl⟩ := created
    rw [setProcess_processes,Function.update_self]
    rfl

theorem create_timed (timed : Timed s) {s' : System} {cpu entry stack pd count : Nat} {pages vas : Nat → Nat} {i : Slot}
    (created : processCreateExVasLocked s cpu entry stack pd pages vas count = some (s',i)) : Timed s' := by
  obtain ⟨_,_,_,_,_,table⟩ := processCreateExVasLocked_spawns created
  have paced : Paced (s'.processes i) := .fresh (by decide) (processCreateExVasLocked_pace created)
  exact timed.update table paced.level fun _ _ => paced

theorem fork_timed (timed : Timed s) (frame : Frame) : Timed (processForkCurrent s 0 frame).1 := by
  unfold processForkCurrent
  cases caller : currentLocal s 0 with
  | none => exact timed
  | some c =>
    dsimp only
    split
    · exact timed
    split
    · exact timed
    split
    · exact timed
    split
    · exact timed.table rfl
    split
    · exact timed.table rfl
    split
    · exact timed.table rfl
    next made i created =>
      have before : Timed made := by
        refine create_timed ?_ created
        exact timed.table rfl
      have counted : Timed {made with nextTid := nextTidAfter made.nextTid} := before.table rfl
      have level : (s.processes c).priority < priorityLevels := timed.level c
      have paced : Paced (forkChild (s.processes c) (made.processes i) 0 made.nextTid frame) := by
        apply Paced.fresh level
        rfl
      exact counted.update (setProcess_processes _ i _) paced.level fun _ _ => paced

theorem userThread_timed (timed : Timed s) (entry : Nat) : Timed (step s (.createUserThread entry)) := by
  simp only [step,processCreateUserThread]
  split
  · exact timed
  cases caller : currentLocal s 0 with
  | none => exact timed
  | some c =>
    simp only
    split
    · exact timed
    cases free : findFreeSlot s with
    | none => exact timed
    | some slot =>
      simp only
      split
      · split
        · exact timed
        · exact timed.table rfl
      split
      · exact timed.table rfl
      split
      · exact timed.table rfl
      split
      · exact timed
      next frames kp _ _ stack ks _ _ vm _ _ stored _ =>
        have level : (s.processes c).priority < priorityLevels := timed.level c
        have before : Timed {s with vm := stored,nextTid := nextTidAfter s.nextTid} := timed.table rfl
        apply before.update (setProcess_processes _ slot _)
        · exact level
        · intro _ _
          apply Paced.fresh level
          rfl

/-- A kernel thread that is created gets no time slice. -/
theorem kernelThread_refused {entry : Nat} (punctual : Punctual s (.createKernelThread entry)) :
    step s (.createKernelThread entry) = s := by
  simp only [step,processCreateKernelThread]
  rcases punctual with zero | full | starved
  · rw [if_pos zero]
    rfl
  · rw [full]
    split <;> rfl
  · rw [starved]
    split
    · rfl
    · split <;> rfl

theorem setPriority_timed (timed : Timed s) (slot : Slot) (priority : Nat) :
    Timed (step s (.setPriority slot priority)) := by
  simp only [step,processSetPriority]
  split
  · exact timed
  next valid =>
    have level : priority < priorityLevels := Nat.not_le.mp valid
    apply timed.update (setProcess_processes s slot _)
    · exact level
    · intro _ _
      apply Paced.fresh level
      rfl

end Creation

theorem timed_step {s : System} (timed : Timed s) {call : Call} (own : call.paces = true)
    (punctual : Punctual s call) : Timed (step s call) := by
  cases call with
  | schedule acquired frame => exact processSchedule_timed timed frame punctual
  | requestReschedule => exact timed.table rfl
  | create entry stack pd pages vas count =>
    simp only [step,processCreateExVas]
    cases created : processCreateExVasLocked s 0 entry stack pd pages vas count with
    | none => exact timed
    | some made => exact create_timed timed created
  | fork frame => exact fork_timed timed frame
  | createKernelThread entry =>
    rw [kernelThread_refused punctual]
    exact timed
  | createUserThread entry => exact userThread_timed timed entry
  | setPriority slot priority => exact setPriority_timed timed slot priority
  | memory vm => exact timed.table rfl
  | _ => cases own

theorem boot_timed (s : System) (idle schedule : Nat) : Timed (boot s idle schedule) := by
  have levels (i : Slot) : ((boot s idle schedule).processes i).priority = priorityDefault := by
    have kept (s : System) (i : Option Slot) : (setCurrentLocal s 0 i).processes = s.processes := by
      unfold setCurrentLocal
      split <;> rfl
    unfold boot processInit
    dsimp only
    rw [kept]
    split <;>
    · rw [setProcess_processes,Function.update_apply]
      split <;> rfl
  constructor
  · intro i
    rw [levels]
    decide
  · intro i ordinary live
    refine absurd ((congrArg Control.state (boot_record s idle schedule i)).trans ?_) live
    rw [if_neg ordinary]
    rfl

/-- The task on the CPU gives it up at a tick when its quantum is over. -/
def OnQuantum (s : System) : Prop :=
  ∀ c, currentLocal s 0 = some c → c ≠ bootstrap → (s.processes c).state = .running → s.rescheduleRequested = false →
    ((chargeTick s c).2 = true ↔ (s.processes c).ticksUsed + 1 = quantumForPriority (s.processes c).priority)

theorem Timed.onQuantum {s : System} (timed : Timed s) : OnQuantum s := by
  intro c _ ordinary running unrequested
  have live : Live s c := by
    unfold Live
    rw [running]
    nofun
  obtain ⟨_,slice,ticks⟩ := timed.tasks c ordinary live
  unfold chargeTick
  simp only [running,unrequested,ne_eq,not_true,Bool.false_eq_true,if_false,(timed.tasks c ordinary live).counts]
  rw [← slice]
  split
  next left =>
    refine ⟨nofun,fun later => ?_⟩
    omega
  next later =>
    refine ⟨fun _ => ?_,fun _ => rfl⟩
    omega

/-- In a run that creates no kernel thread and lowers no priority, every task keeps to the
quantum of its priority. -/
theorem quanta_kept (s : System) (idle schedule : Nat) (calls : List Call) (own : ∀ call ∈ calls, call.paces = true)
    (punctual : Meets step Punctual (boot s idle schedule) calls) :
    (∀ i, i ≠ bootstrap → Live (run step (boot s idle schedule) calls) i →
      Paced ((run step (boot s idle schedule) calls).processes i)) ∧ OnQuantum (run step (boot s idle schedule) calls) := by
  have timed : Timed (run step (boot s idle schedule) calls) := by
    have start := boot_timed s idle schedule
    generalize boot s idle schedule = t at start punctual
    induction calls generalizing t with
    | nil => exact start
    | cons call rest ih =>
      have first : call.paces = true := own call List.mem_cons_self
      have later (next : Call) (member : next ∈ rest) : next.paces = true := own next (List.mem_cons_of_mem call member)
      exact ih later (step t call) (timed_step start first punctual.1) punctual.2
  exact ⟨timed.tasks,timed.onQuantum⟩

/-- A program is started, forks, gets another priority and runs for a tick. -/
def busy : List Call :=
  launch (boot blank 0x1000 0x2000) ++ [.fork zeroFrame,.setPriority 1 3,.schedule true zeroFrame]

theorem busy_quanta :
    (∀ i, i ≠ bootstrap → Live (run step (boot blank 0x1000 0x2000) busy) i →
      Paced ((run step (boot blank 0x1000 0x2000) busy).processes i)) ∧ OnQuantum (run step (boot blank 0x1000 0x2000) busy) :=
  quanta_kept blank 0x1000 0x2000 busy (by decide +kernel) (by decide +kernel)

/-- After eight ticks the program has the next priority and still the old time slice. -/
theorem demoted_quantum :
    ¬ ∀ (s : System) (idle schedule : Nat) (calls : List Call), (∀ call ∈ calls, call.paces = true) →
      ∀ i, i ≠ bootstrap → Live (run step (boot s idle schedule) calls) i →
        Paced ((run step (boot s idle schedule) calls).processes i) := by
  intro always
  have paced := always blank 0x1000 0x2000
    (launch (boot blank 0x1000 0x2000) ++ List.replicate 8 (.schedule true zeroFrame)) (by decide +kernel) 1 (by decide)
    (by decide +kernel)
  revert paced
  decide +kernel

end LionOS.Processes

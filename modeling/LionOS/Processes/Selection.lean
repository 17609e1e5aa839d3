import LionOS.Library.Choice
import LionOS.Processes.Awake
import LionOS.Processes.Registers

/-! Which task the scheduler of the boot CPU chooses, and what it leaves in the table. -/
namespace LionOS.Processes
open LionOS.Memory LionOS.Physical LionOS.Paging LionOS.Library

/-- The table of a call of the scheduler: a task is on the CPU, and no other is RUNNING. -/
structure Scheduling (s : System) (prev : Slot) : Prop where
  current : currentLocal s 0 = some prev
  own : (s.processes prev).cpuOwner = 0
  state : (s.processes prev).state = .running ∨ (s.processes prev).state = .waiting ∨ (s.processes prev).state = .stopped ∨
    (s.processes prev).state = .zombie
  alone : ∀ i, i ≠ prev → (s.processes i).state ≠ .running

theorem Scheduling.unready {s : System} {prev : Slot} (scheduling : Scheduling s prev) : (s.processes prev).state ≠ .ready := by
  intro ready
  have state := scheduling.state
  rw [ready] at state
  simp at state

/-- The running task is within its slice, and nobody asks for another one. -/
def Keeps (s : System) (prev : Slot) : Prop := (s.processes prev).state = .running ∧ s.rescheduleRequested = false ∧
  wrap ((s.processes prev).ticksUsed + 1) < (s.processes prev).timeSlice

/-- How many slots lie between the two in cyclic order. -/
def between (prev i : Slot) : Nat := (i.val + (processMax - 1 - prev.val)) % processMax

/-- The task with the least priority number, and of these the first behind `prev`. -/
structure Chosen (s : System) (prev next : Slot) : Prop where
  candidate : Candidate (s.processes next)
  first : ∀ i, Candidate (s.processes i) → (s.processes next).priority < (s.processes i).priority ∨
    (s.processes next).priority = (s.processes i).priority ∧ between prev next ≤ between prev i

theorem between_slot (prev i : Slot) : between prev i < processMax ∧ Fin.ofNat processMax (prev.val + between prev i + 1) = i := by
  have bounds := And.intro prev.isLt i.isLt
  refine ⟨Nat.mod_lt _ (by decide),Fin.ext ?_⟩
  simp only [Fin.ofNat,between,processMax] at bounds ⊢
  omega

theorem slot_between (prev : Slot) {step : Nat} (bound : step < processMax) :
    between prev (Fin.ofNat processMax (prev.val + step + 1)) = step := by
  have inside := prev.isLt
  simp only [Fin.ofNat,between,processMax] at bound inside ⊢
  omega

theorem selectNext_chosen {s : System} {prev next : Slot} (found : selectNext s 0 prev.val = some next) : Chosen s prev next := by
  have shape : selectNext s 0 prev.val = ((List.range priorityLevels).findSome? fun priority =>
      (List.range processMax).find? fun step =>
        let p := s.processes (Fin.ofNat processMax (prev.val + step + 1))
        (decide (p.state = .ready) && decide (p.cpuOwner = 0)) && decide (p.priority = priority)).map
          fun step => Fin.ofNat processMax (prev.val + step + 1) := by
    rw [List.map_findSome?]
    unfold selectNext
    congr 1
    funext priority
    rw [List.find?_map]
    rfl
  rw [shape,Option.map_eq_some_iff] at found
  obtain ⟨step,search,rfl⟩ := found
  obtain ⟨bound,passes,level,least⟩ := @least_found priorityLevels processMax step
    (fun step => decide ((s.processes (Fin.ofNat processMax (prev.val + step + 1))).state = .ready) &&
      decide ((s.processes (Fin.ofNat processMax (prev.val + step + 1))).cpuOwner = 0))
    (fun step => (s.processes (Fin.ofNat processMax (prev.val + step + 1))).priority) search
  rw [Bool.and_eq_true,decide_eq_true_iff,decide_eq_true_iff] at passes
  refine ⟨⟨passes.1,passes.2,level⟩,fun i candidate => ?_⟩
  obtain ⟨inside,same⟩ := between_slot prev i
  have tested := least (between prev i) inside
  simp only [same] at tested
  rw [slot_between prev bound]
  apply tested
  rw [candidate.1,candidate.2.1]
  decide

/-! ### The tick -/

/-- What the call does before the search: it changes the record of `prev` only, and there nothing
that the search and the switch look at. -/
structure Charged (s s' : System) (prev : Slot) : Prop where
  current : s'.currentByCpu = s.currentByCpu
  others : ∀ i, i ≠ prev → s'.processes i = s.processes i
  state : (s'.processes prev).state = (s.processes prev).state
  owner : (s'.processes prev).cpuOwner = (s.processes prev).cpuOwner
  pending : (s'.processes prev).reapPending = (s.processes prev).reapPending

section Tick
variable {s t u : System} {prev : Slot}

theorem Charged.trans (first : Charged s t prev) (second : Charged t u prev) : Charged s u prev where
  current := second.current.trans first.current
  others i other := (second.others i other).trans (first.others i other)
  state := second.state.trans first.state
  owner := second.owner.trans first.owner
  pending := second.pending.trans first.pending

theorem setProcess_charged {p : Process} (state : p.state = (s.processes prev).state) (owner : p.cpuOwner = (s.processes prev).cpuOwner)
    (pending : p.reapPending = (s.processes prev).reapPending) : Charged s (setProcess s prev p) prev where
  current := rfl
  others i other := by rw [setProcess_processes,Function.update_of_ne other]
  state := by rw [setProcess_processes,Function.update_self,state]
  owner := by rw [setProcess_processes,Function.update_self,owner]
  pending := by rw [setProcess_processes,Function.update_self,pending]

theorem freeDeferred_charged (s : System) (prev : Slot) : Charged s (freeDeferred s prev) prev := by
  unfold freeDeferred
  dsimp only
  split
  · exact ⟨rfl,fun _ _ => rfl,rfl,rfl,rfl⟩
  · have freed : Charged s {s with vm := {s.vm with
        pages := pageFree s.vm.pages ((s.processes prev).deferredKernelStack - 4096)}} prev :=
      ⟨rfl,fun _ _ => rfl,rfl,rfl,rfl⟩
    exact freed.trans (setProcess_charged rfl rfl rfl)

/-- Within its slice the running task keeps the CPU. -/
theorem chargeTick_keeps (keeps : Keeps s prev) : chargeTick s prev =
    (setProcess s prev {s.processes prev with ticksUsed := wrap ((s.processes prev).ticksUsed + 1)},false) := by
  obtain ⟨running,unrequested,left⟩ := keeps
  unfold chargeTick
  dsimp only
  rw [if_neg (by rw [running]; exact fun differs => differs rfl),if_neg (by rw [unrequested]; exact Bool.noConfusion),if_pos left]

theorem chargeTick_gives (gives : ¬Keeps s prev) : (chargeTick s prev).2 = true ∧ Charged s (chargeTick s prev).1 prev := by
  unfold chargeTick
  dsimp only
  split
  · exact ⟨rfl,rfl,fun _ _ => rfl,rfl,rfl,rfl⟩
  next running =>
    rw [not_not] at running
    split
    · have cleared : Charged s {s with rescheduleRequested := false} prev := ⟨rfl,fun _ _ => rfl,rfl,rfl,rfl⟩
      exact ⟨rfl,cleared.trans (setProcess_charged rfl rfl rfl)⟩
    next unrequested =>
      rw [if_neg fun left => gives ⟨running,by simpa using unrequested,left⟩]
      exact ⟨rfl,setProcess_charged rfl rfl rfl⟩

theorem saved_keeps (s : System) (prev : Slot) (frame : Frame) :
    Keeps (saveFrame (countSchedule s 0) prev frame) prev ↔ Keeps s prev := by
  unfold Keeps saveFrame
  rw [setProcess_processes,Function.update_self]
  rfl

/-- The call of a task that keeps the CPU: its ticks and its frame are all that changes in the table. -/
structure Ticked (s s' : System) (prev : Slot) (frame : Frame) : Prop where
  own : s'.processes prev = {s.processes prev with ticksUsed := wrap ((s.processes prev).ticksUsed + 1),savedFrame := some frame}
  others : ∀ i, i ≠ prev → s'.processes i = s.processes i

theorem processSchedule_keeps (current : currentLocal s 0 = some prev) (keeps : Keeps s prev) (frame : Frame) :
    ∃ s', processSchedule s 0 true frame = (s',.own frame) ∧ currentLocal s' 0 = some prev ∧ Ticked s s' prev frame := by
  have counted : currentLocal (countSchedule s 0) 0 = some prev := current
  unfold processSchedule
  rw [if_neg (by decide)]
  dsimp only
  rw [counted]
  dsimp only
  rw [chargeTick_keeps ((saved_keeps s prev frame).mpr keeps)]
  refine ⟨_,rfl,current,?_,fun i other => ?_⟩
  · unfold saveFrame
    simp only [setProcess_processes,Function.update_self]
    rfl
  · unfold saveFrame
    simp only [setProcess_processes,Function.update_of_ne other]
    rfl

theorem processSchedule_gives (current : currentLocal s 0 = some prev) (gives : ¬Keeps s prev) (frame : Frame) :
    ∃ s', processSchedule s 0 true frame = switchFrom s' 0 (some prev) frame ∧ Charged s s' prev := by
  have counted : currentLocal (countSchedule s 0) 0 = some prev := current
  have first : Charged s (countSchedule s 0) prev := ⟨rfl,fun _ _ => rfl,rfl,rfl,rfl⟩
  have second : Charged (countSchedule s 0) (saveFrame (countSchedule s 0) prev frame) prev := setProcess_charged rfl rfl rfl
  obtain ⟨yields,third⟩ := chargeTick_gives (mt (saved_keeps s prev frame).mp gives)
  unfold processSchedule
  rw [if_neg (by decide)]
  dsimp only
  rw [counted]
  dsimp only
  generalize chargeTick (saveFrame (countSchedule s 0) prev frame) prev = charged at yields third ⊢
  obtain ⟨t,_ | _⟩ := charged
  · cases yields
  · exact ⟨freeDeferred t prev,rfl,((first.trans second).trans third).trans (freeDeferred_charged t prev)⟩

end Tick

/-! ### The switch -/

/-- The state in which a task leaves the CPU. -/
def leaves (p : Process) : State :=
  match p.state with
  | .running => .ready
  | .zombie => if p.reapPending then .unused else .zombie
  | other => other

/-- The call that goes over to `next`. -/
structure Switched (s s' : System) (prev next : Slot) : Prop where
  entered : s'.processes next = {s.processes next with cpuOwner := 0,state := .running}
  left : (s'.processes prev).state = leaves (s.processes prev)
  others : ∀ i, i ≠ prev → i ≠ next → s'.processes i = s.processes i

section Switch
variable {s t : System} {prev next : Slot}

theorem preempt_others (cpu : Nat) {i : Slot} (other : i ≠ prev) : (preempt s cpu (some prev)).processes i = s.processes i := by
  unfold preempt fpuSave
  dsimp only
  split
  · split
    · simp only [setProcess_processes,Function.update_of_ne other]
    · simp only [setProcess_processes,Function.update_of_ne other]
  · rfl

theorem preempt_state (cpu : Nat) : ((preempt s cpu (some prev)).processes prev).state =
    (if (s.processes prev).state = .running then .ready else (s.processes prev).state) ∧
      ((preempt s cpu (some prev)).processes prev).reapPending = (s.processes prev).reapPending := by
  have record := (preempt_record s cpu (some prev) prev).2
  have state := congrArg Control.state record
  have pending := congrArg Control.reapPending record
  constructor
  · refine Eq.trans state ?_
    by_cases running : (s.processes prev).state = .running
    · rw [if_pos ⟨rfl,running⟩,if_pos running]
    · rw [if_neg fun both => running both.2,if_neg running]
      rfl
  · refine Eq.trans pending ?_
    split
    · rfl
    · rfl

theorem reap_leaves (prev : Slot) : ((reapPrev s (some prev)).processes prev).state =
    if (s.processes prev).reapPending = true ∧ (s.processes prev).state = .zombie then .unused else (s.processes prev).state := by
  rw [reapPrev_record]
  by_cases reaped : (s.processes prev).reapPending = true ∧ (s.processes prev).state = .zombie
  · rw [if_pos ⟨rfl,reaped⟩,if_pos reaped]
    rfl
  · rw [if_neg fun both => reaped both.2,if_neg reaped]

/-- The task that is found goes on where it was interrupted. -/
theorem switchFrom_resumes (found : selectNext s 0 prev.val = some next) (apart : next ≠ prev) (frame : Frame) :
    ∃ s', switchFrom s 0 (some prev) frame = (s',.saved next (s.processes next).savedFrame) ∧
      currentLocal s' 0 = some next ∧ Switched s s' prev next := by
  unfold switchFrom
  dsimp only
  rw [found]
  dsimp only
  generalize shape : {s with schedulerCpu := Function.update s.schedulerCpu 0 {s.schedulerCpu 0 with cursor := next.val}} = t
  have table : t.processes = s.processes := by rw [← shape]
  obtain ⟨state,pending⟩ := @preempt_state t prev 0
  have chosen : (reapPrev (enter (fpuRestore (preempt t 0 (some prev)) 0 next) 0 next) (some prev)).processes next =
      {s.processes next with cpuOwner := 0,state := .running} := by
    rw [enter_running,enter_record,if_pos rfl,fpuRestore_processes,preempt_others 0 apart,table]
  refine ⟨_,by rw [chosen],by rw [reapPrev_current,enter_current],chosen,?_,fun i other another => ?_⟩
  · rw [reap_leaves,enter_record,if_neg apart.symm,fpuRestore_processes,state,pending,table]
    unfold leaves
    cases (s.processes prev).state <;> simp
  · rw [reapPrev_record,if_neg fun both => other (Option.some_inj.mp both.1).symm,enter_record,if_neg another,
      fpuRestore_processes,preempt_others 0 other,table]

/-- Without a task to go to the CPU goes back to the kernel. -/
theorem switchFrom_idles (absent : selectNext s 0 prev.val = none) (halted : (s.processes prev).state = .zombie ∨
    (s.processes prev).state = .stopped ∨ (s.processes prev).state = .waiting) (frame : Frame) :
    (switchFrom s 0 (some prev) frame).1 = reapPrev (enter s 0 bootstrap) (some prev) := by
  unfold switchFrom
  dsimp only
  rw [absent]
  dsimp only
  rw [if_pos halted,if_pos rfl]

theorem switchFrom_stays (absent : selectNext s 0 prev.val = none) (running : (s.processes prev).state = .running) (frame : Frame) :
    (switchFrom s 0 (some prev) frame).1 = s := by
  unfold switchFrom
  dsimp only
  rw [absent]
  dsimp only
  rw [if_neg (by rw [running]; decide)]

/-- The task on the CPU is RUNNING, and no other task of this CPU is. -/
def OneRuns (s : System) (i : Slot) : Prop :=
  currentLocal s 0 = some i ∧ ∀ j, (s.processes j).state = .running ∧ (s.processes j).cpuOwner = 0 ↔ j = i

theorem oneRuns {i : Slot} (current : currentLocal s 0 = some i) (running : (s.processes i).state = .running)
    (own : (s.processes i).cpuOwner = 0) (others : ∀ j, j ≠ i → (s.processes j).state ≠ .running) : OneRuns s i := by
  refine ⟨current,fun j => ⟨fun both => ?_,?_⟩⟩
  · by_contra other
    exact others j other both.1
  · rintro rfl
    exact ⟨running,own⟩

theorem leaves_running (p : Process) : leaves p ≠ .running := by
  unfold leaves
  cases p.state with
  | zombie =>
    dsimp only
    split
    · nofun
    · nofun
  | _ => nofun

theorem Switched.oneRuns (switched : Switched s t prev next) (current : currentLocal t 0 = some next)
    (alone : ∀ i, i ≠ prev → (s.processes i).state ≠ .running) : OneRuns t next := by
  refine Processes.oneRuns current (by rw [switched.entered]) (by rw [switched.entered]) fun j another => ?_
  by_cases own : j = prev
  · rw [own,switched.left]
    exact leaves_running _
  · rw [switched.others j own another]
    exact alone j own

/-- Behind any switch one task runs. -/
theorem switchFrom_oneRuns (scheduling : Scheduling s prev) (frame : Frame) : ∃ i, OneRuns (switchFrom s 0 (some prev) frame).1 i := by
  cases found : selectNext s 0 prev.val with
  | some next =>
    have apart : next ≠ prev := by
      rintro rfl
      exact scheduling.unready (selectNext_ready found)
    obtain ⟨t,call,current,switched⟩ := switchFrom_resumes found apart frame
    rw [call]
    exact ⟨next,switched.oneRuns current scheduling.alone⟩
  | none =>
    by_cases running : (s.processes prev).state = .running
    · rw [switchFrom_stays found running]
      exact ⟨prev,oneRuns scheduling.current running scheduling.own scheduling.alone⟩
    · have halted : (s.processes prev).state = .zombie ∨ (s.processes prev).state = .stopped ∨ (s.processes prev).state = .waiting := by
        rcases scheduling.state with state | state | state | state
        · exact absurd state running
        · exact .inr (.inr state)
        · exact .inr (.inl state)
        · exact .inl state
      rw [switchFrom_idles found halted]
      refine ⟨bootstrap,oneRuns (by rw [reapPrev_current,enter_current]) ?_ ?_ fun j other => ?_⟩
      · rw [enter_running,enter_record,if_pos rfl]
      · rw [enter_running,enter_record,if_pos rfl]
      · have stays : (s.processes j).state ≠ .running := by
          by_cases own : j = prev
          · rw [own]
            exact running
          · exact scheduling.alone j own
        rw [reapPrev_record]
        split
        · nofun
        · rw [enter_record,if_neg other]
          exact stays

end Switch

theorem Scheduling.charged {s s' : System} {prev : Slot} (scheduling : Scheduling s prev) (charged : Charged s s' prev) :
    Scheduling s' prev where
  current := by
    unfold currentLocal
    rw [charged.current]
    exact scheduling.current
  own := charged.owner.trans scheduling.own
  state := by
    rw [charged.state]
    exact scheduling.state
  alone i other := by
    rw [charged.others i other]
    exact scheduling.alone i other

theorem Charged.chosen {s t : System} {prev next : Slot} (charged : Charged s t prev) (scheduling : Scheduling s prev)
    (chosen : Chosen t prev next) : next ≠ prev ∧ Chosen s prev next := by
  have other : next ≠ prev := by
    rintro rfl
    exact (scheduling.charged charged).unready chosen.candidate.1
  have same := charged.others next other
  refine ⟨other,same ▸ chosen.candidate,fun i candidate => ?_⟩
  have another : i ≠ prev := by
    rintro rfl
    exact scheduling.unready candidate.1
  have first := chosen.first i (by rw [charged.others i another]; exact candidate)
  rwa [same,charged.others i another] at first

theorem Charged.switched {s t u : System} {prev next : Slot} (charged : Charged s t prev) (apart : next ≠ prev)
    (switched : Switched t u prev next) : Switched s u prev next where
  entered := by rw [switched.entered,charged.others next apart]
  left := by
    rw [switched.left]
    unfold leaves
    rw [charged.state,charged.pending]
  others i other another := (switched.others i other another).trans (charged.others i other)

theorem leaves_ready {p : Process} (state : p.state ≠ .ready) : leaves p = .ready ↔ p.state = .running := by
  unfold leaves
  cases kind : p.state with
  | ready => exact absurd kind state
  | zombie =>
    dsimp only
    split <;> simp
  | _ => simp

/-- One call of the scheduler with the lock, for every table in which the task on the CPU belongs to it. -/
theorem schedule_selects (s : System) (prev : Slot) (frame : Frame) (scheduling : Scheduling s prev) :
    let after := (processSchedule s 0 true frame).1
    let resumed := (processSchedule s 0 true frame).2
    (Keeps s prev → resumed = .own frame ∧ Ticked s after prev frame) ∧
      (¬Keeps s prev → (∃ i, Candidate (s.processes i)) → ∃ next, Chosen s prev next ∧
        resumed = .saved next (s.processes next).savedFrame ∧ Switched s after prev next ∧
          ((after.processes prev).state = .ready ↔ (s.processes prev).state = .running)) ∧
        ∃ i, OneRuns after i := by
  dsimp only
  by_cases keeps : Keeps s prev
  · obtain ⟨t,call,current,ticked⟩ := processSchedule_keeps scheduling.current keeps frame
    rw [call]
    refine ⟨fun _ => ⟨rfl,ticked⟩,fun gives => absurd keeps gives,prev,oneRuns current ?_ ?_ fun j other => ?_⟩
    · rw [ticked.own]
      exact keeps.1
    · rw [ticked.own]
      exact scheduling.own
    · rw [ticked.others j other]
      exact scheduling.alone j other
  · obtain ⟨t,call,charged⟩ := processSchedule_gives scheduling.current keeps frame
    rw [call]
    refine ⟨fun kept => absurd kept keeps,fun _ waiting => ?_,switchFrom_oneRuns (scheduling.charged charged) frame⟩
    obtain ⟨i,candidate⟩ := waiting
    have other : i ≠ prev := by
      rintro rfl
      exact scheduling.unready candidate.1
    cases found : selectNext t 0 prev.val with
    | none => exact absurd found (selectNext_candidate (by rw [charged.others i other]; exact candidate) prev.val)
    | some next =>
      obtain ⟨apart,chosen⟩ := charged.chosen scheduling (selectNext_chosen found)
      obtain ⟨u,result,_,switched⟩ := switchFrom_resumes found apart frame
      have changed := charged.switched apart switched
      rw [result]
      refine ⟨next,chosen,by rw [charged.others next apart],changed,?_⟩
      rw [changed.left]
      exact leaves_ready scheduling.unready

/-- The kernel yields, and one task waits for the CPU. -/
def oneReady (priority : Nat) : System :=
  let s := boot blank 0x1000 0x2000
  processRequestReschedule (setProcess s 1 {clearProcess (s.processes 1) with pid := 2,state := .ready,priority})

theorem schedule_selects_one : ∃ next, Chosen (oneReady 3) bootstrap next ∧
    (processSchedule (oneReady 3) 0 true zeroFrame).2 = .saved next ((oneReady 3).processes next).savedFrame := by
  have scheduling : Scheduling (oneReady 3) bootstrap :=
    ⟨by decide +kernel,by decide +kernel,by decide +kernel,by decide +kernel⟩
  have gives : ¬Keeps (oneReady 3) bootstrap := by
    intro keeps
    have requested : (oneReady 3).rescheduleRequested = true := by decide +kernel
    cases keeps.2.1.symm.trans requested
  have waiting : ∃ i, Candidate ((oneReady 3).processes i) := ⟨1,by decide +kernel⟩
  obtain ⟨next,chosen,resumed,_⟩ := (schedule_selects (oneReady 3) bootstrap zeroFrame scheduling).2.1 gives waiting
  exact ⟨next,chosen,resumed⟩

/-- A task that belongs to another CPU is on this one, and the kernel waits. -/
def strayTask : System :=
  let s := boot blank 0x1000 0x2000
  let s := setProcess s bootstrap {s.processes bootstrap with state := .waiting}
  setCurrentLocal (setProcess s 1 {clearProcess (s.processes 1) with pid := 2,state := .running,cpuOwner := 1}) 0 (some 1)

/-- A READY task of this CPU with a priority number of no level is passed over; and with a task of
another CPU on this one no task of this CPU runs. -/
theorem selection_passes_over :
    (currentLocal (oneReady 4) 0 = some bootstrap ∧ ((oneReady 4).processes bootstrap).cpuOwner = 0 ∧
      ((oneReady 4).processes bootstrap).state = .running ∧
      (∀ i, i ≠ bootstrap → ((oneReady 4).processes i).state ≠ .running) ∧ (oneReady 4).rescheduleRequested = true ∧
      ((oneReady 4).processes 1).state = .ready ∧ ((oneReady 4).processes 1).cpuOwner = 0 ∧
      (processSchedule (oneReady 4) 0 true zeroFrame).2 = .own zeroFrame) ∧
    currentLocal strayTask 0 = some 1 ∧ (strayTask.processes bootstrap).cpuOwner = 0 ∧ (strayTask.processes 1).state = .running ∧
      (∀ i, i ≠ 1 → (strayTask.processes i).state ≠ .running) ∧
      ∀ i, ¬(((processSchedule strayTask 0 true zeroFrame).1.processes i).state = .running ∧
        ((processSchedule strayTask 0 true zeroFrame).1.processes i).cpuOwner = 0) := by
  decide +kernel

end LionOS.Processes

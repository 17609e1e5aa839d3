import LionOS.Processes.Calls

/-! Whether the state ZOMBIE is final: what a call can do to a terminated record,
over every run from the boot on. -/
namespace LionOS.Processes
open LionOS.Memory LionOS.Physical LionOS.Paging LionOS.Library

/-- No call takes a terminated task out of ZOMBIE but the ones that reap it, its exit
code stays and the scheduler does not resume it. -/
def Absorbs (s : System) (call : Call) : Prop :=
  ∀ i, (s.processes i).state = .zombie →
    (((step s call).processes i).state = .zombie ∧
        ((step s call).processes i).exitCode = (s.processes i).exitCode ∨
      ((step s call).processes i).state = .unused ∧ call.reaps = true) ∧
    ∀ acquired frame saved, (processSchedule s 0 acquired frame).2 ≠ .saved i saved

/-- The call does more to the terminated task `i` than reap it: a signal that stops or
kills is sent to it, or, still on the CPU after its exit, it blocks, executes a new
image or exits with another code. -/
def disturbs (s : System) (i : Slot) : Call → Bool
  | .kill pid signal => decide (killTarget s pid signal = some i) &&
      (decide (signal = sigKill) || decide (signal = sigTerm) || decide (signal = sigStop))
  | .exit code => decide (currentLocal s 0 = some i) && decide ((s.processes i).exitCode ≠ code)
  | .replace _ _ _ _ _ _ => decide (currentLocal s 0 = some i)
  | call => decide (currentLocal s 0 = some i) && blocks s call

def Spares (s : System) (call : Call) : Prop :=
  ∀ i, (s.processes i).state = .zombie → disturbs s i call = false

instance Spares.decidable (s : System) (call : Call) : Decidable (Spares s call) :=
  inferInstanceAs (Decidable (∀ i, (s.processes i).state = .zombie → disturbs s i call = false))

theorem scheduled_zombie {s : System} {cpu : Nat} {i : Slot} {p : Process} (ordinary : i ≠ bootstrap)
    (dead : (s.processes i).state = .zombie) (change : Scheduled s cpu i p) :
    p.state = .zombie ∧ p.exitCode = (s.processes i).exitCode ∨ p.state = .unused := by
  cases change with
  | kept same frame => exact .inl ⟨(control_state same).trans dead,congrArg Control.exitCode same⟩
  | dispatched ready same =>
    rcases ready with ready | idle
    · simp [dead] at ready
    · exact absurd idle ordinary
  | preempted caller running same => simp [dead] at running
  | reaped caller _ pending cleared => exact .inr (congrArg Control.state cleared)

theorem terminated_zombie {s : System} {call : Call} {i : Slot} (spared : disturbs s i call = false)
    (ends : victim s call = some i) : terminationCode call = (s.processes i).exitCode := by
  cases call with
  | exit code =>
    simp only [disturbs,victim_exit ends,decide_true,Bool.true_and,decide_eq_false_iff_not,ne_eq,
      not_not] at spared
    exact spared.symm
  | kill pid signal =>
    obtain ⟨lethal,target⟩ := victim_signal ends
    have signals : (decide (signal = sigKill) || decide (signal = sigTerm)) = true := by
      simpa using lethal
    simp only [disturbs,target,signals,decide_true,Bool.true_or,Bool.true_and] at spared
    cases spared
  | _ => cases ends

/-- A call that spares the terminated records leaves each of them a zombie with its
exit code or reaps it. -/
theorem effect_zombie {s : System} {call : Call} {i : Slot} {p : Process} (sound : Sound s)
    (spared : disturbs s i call = false) (dead : (s.processes i).state = .zombie)
    (effect : Effect s call i p) :
    p.state = .zombie ∧ p.exitCode = (s.processes i).exitCode ∨ p.state = .unused ∧ call.reaps = true := by
  have ordinary : i ≠ bootstrap := by
    intro idle
    subst idle
    exact sound.alive dead
  cases effect with
  | kept same frame => exact .inl ⟨(control_state same).trans dead,congrArg Control.exitCode same⟩
  | scheduled change => exact (scheduled_zombie ordinary dead change).imp id (⟨·,rfl⟩)
  | spawned free fresh => simp [dead] at free
  | replaced caller _ same => simp [disturbs,caller] at spared
  | terminated ends same frame =>
    refine .inl ⟨congrArg Control.state same,?_⟩
    rw [← terminated_zombie spared ends]
    exact congrArg Control.exitCode same
  | parentReleased _ _ waiting => simp [dead] at waiting
  | joinerReleased _ _ _ waiting => simp [dead] at waiting
  | woken _ _ waiting => simp [dead] at waiting
  | waits caller _ _ blocked => simp [disturbs,caller,blocked] at spared
  | joins caller _ _ blocked => simp [disturbs,caller,blocked] at spared
  | sleeps caller _ _ blocked => simp [disturbs,caller,blocked] at spared
  | reaped reaps _ _ => exact .inr ⟨rfl,reaps⟩
  | stopped target same frame => simp [disturbs,target] at spared
  | continued target paused same frame => simp [dead] at paused

theorem zombie_unscheduled {s : System} (sound : Sound s) {i : Slot}
    (dead : (s.processes i).state = .zombie) (acquired : Bool) (frame : Frame) (saved : Option Frame) :
    (processSchedule s 0 acquired frame).2 ≠ .saved i saved := by
  intro resumed
  rcases processSchedule_saved resumed with ready | idle
  · simp [dead] at ready
  · rw [idle] at dead
    exact sound.alive dead

/-- In a run whose calls spare the terminated records, termination is final. -/
theorem termination_absorbing (s : System) (idle schedule : Nat) (calls : List Call) (call : Call)
    (spared : Meets step Spares (boot s idle schedule) (calls ++ [call])) :
    Absorbs (run step (boot s idle schedule) calls) call := by
  have sound := run_sound s idle schedule calls
  have last : Spares (run step (boot s idle schedule) calls) call :=
    ((meets_append step Spares _ calls [call]).mp spared).2.1
  intro i dead
  exact ⟨effect_zombie sound (last i dead) dead (step_effect _ sound.counter call i),
    zombie_unscheduled sound dead⟩

/-- A machine with blank memory, all frames free. -/
def blank : System where
  vm := ⟨fun _ => zeroPage,⟨fun _ => 0,fun _ => 0,maxPages,maxPages - reservedPages⟩,0x200000,0x201000,
    fun _ => 0x200000,[],[]⟩
  processes := fun _ => default
  currentByCpu := fun _ => none
  schedulerCpu := fun _ => ⟨0,0,0⟩
  nextPid := 0
  nextTid := 0
  rescheduleRequested := false
  fpuEnabled := false
  fpuInitialState := 0
  fpuRegisters := fun _ => 0
  esp0 := fun _ => 0

/-- An address space with the writable page 0x8048000 and the frame behind it. -/
def programImage (vm : Vm) : Option (Vm × Nat × Nat) := do
  let (vm,pd) ← pagingCreateAddressSpace vm
  let (pages,page) ← pageAlloc vm.pages
  let vm ← pagingMapUserPageIn {vm with pages} pd 0x8048000 page (ptePresent ||| pteWritable)
  return (vm,pd,page)

/-- The calls that start one user process and make it current. -/
def launch (s : System) : List Call :=
  match programImage s.vm with
  | none => []
  | some (vm,pd,page) =>
    [.memory vm,.create 0x8048000 0x8049000 pd (fun _ => page) (fun _ => 0x8048000) 1,
      .requestReschedule,.schedule true zeroFrame]

def yield : List Call := [.requestReschedule,.schedule true zeroFrame]

/-- The process of slot 1 forks, the child in slot 2 exits at once, and after a turn
of the idle task the parent runs again. -/
def deadChild : List Call :=
  launch (boot blank 0x1000 0x2000) ++ [.fork zeroFrame] ++ yield ++ [.exit 7] ++ yield ++ yield

/-- SIGSTOP takes the dead child out of ZOMBIE. -/
theorem zombie_revived :
    ¬ ∀ (s : System) (idle schedule : Nat) (calls : List Call) (call : Call),
      Absorbs (run step (boot s idle schedule) calls) call := by
  intro absorbing
  have dead : ((run step (boot blank 0x1000 0x2000) deadChild).processes 2).state = .zombie := by
    decide +kernel
  have stopped : ((step (run step (boot blank 0x1000 0x2000) deadChild)
      (.kill 3 sigStop)).processes 2).state = .stopped := by decide +kernel
  have final := (absorbing blank 0x1000 0x2000 deadChild (.kill 3 sigStop) 2 dead).1
  rw [stopped] at final
  simp at final

/-- A dead child keeps its state when it is only continued. -/
theorem dead_child_continued :
    Absorbs (run step (boot blank 0x1000 0x2000) deadChild) (.kill 3 sigCont) :=
  termination_absorbing blank 0x1000 0x2000 deadChild (.kill 3 sigCont) (by decide +kernel)

end LionOS.Processes

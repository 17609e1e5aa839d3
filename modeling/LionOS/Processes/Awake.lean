import LionOS.Processes.Blocking

/-! The task on the boot CPU is RUNNING and waits for nothing whenever a program runs.
A task that blocks or ends hands the CPU over before that. -/
namespace LionOS.Processes
open LionOS.Memory LionOS.Physical LionOS.Paging LionOS.Library

/-- A call puts its caller to sleep or ends it. -/
def suspends (s : System) (call : Call) : Bool :=
  blocks s call || (currentLocal s 0).any fun c => decide (victim s call = some c)

/-- No task gets READY by this call while it has a channel to wait on. -/
def Clean (s : System) (call : Call) : Prop :=
  ∀ i, (continues s call = some i → (s.processes i).state = .stopped → (s.processes i).waitChannel = 0) ∧
    (joinedBy s call = some i → (s.processes i).waitChannel = 0)

instance Clean.decidable (s : System) (call : Call) : Decidable (Clean s call) :=
  inferInstanceAs (Decidable (∀ _, (_ → _ → _) ∧ (_ → _)))

def Call.schedules : Call → Bool
  | .schedule _ _ => true
  | _ => false

/-- A task that may run waits on no channel, and one that is not on the CPU can be resumed. -/
structure Rested (i : Slot) (p : Process) (own : Prop) : Prop where
  calm : p.state = .ready ∨ p.state = .running ∨ i = bootstrap → p.waitChannel = 0
  frame : own ∨ p.state = .unused ∨ p.savedFrame.isSome = true

structure Resting (s : System) : Prop where
  sound : Sound s
  records : ∀ i, Rested i (s.processes i) (currentLocal s 0 = some i)

/-- The task on the CPU is RUNNING. -/
structure Awake (s : System) : Prop where
  resting : Resting s
  runs : ∃ c, currentLocal s 0 = some c ∧ (s.processes c).state = .running

theorem Rested.congr {i : Slot} {p q : Process} {own : Prop} (rested : Rested i p own)
    (same : q.control = p.control) (frame : q.savedFrame = p.savedFrame) : Rested i q own := by
  have state := control_state same
  have channel : q.waitChannel = p.waitChannel := congrArg Control.waitChannel same
  obtain ⟨calm,saved⟩ := rested
  refine ⟨?_,?_⟩
  · rw [state,channel]
    exact calm
  · rw [state,frame]
    exact saved

theorem Rested.asleep {i : Slot} {p q : Process} {own : Prop} (rested : Rested i p own)
    (ordinary : i ≠ bootstrap) (taken : p.state ≠ .unused) (halted : q.state ≠ .ready ∧ q.state ≠ .running)
    (frame : q.savedFrame = p.savedFrame) : Rested i q own := by
  refine ⟨?_,?_⟩
  · rintro (ready | running | idle)
    · exact absurd ready halted.1
    · exact absurd running halted.2
    · exact absurd idle ordinary
  · rw [frame]
    rcases rested.frame with own | unused | saved
    · exact .inl own
    · exact absurd unused taken
    · exact .inr (.inr saved)

theorem Rested.released {i : Slot} {p q : Process} {own : Prop} {value : Nat} (rested : Rested i p own)
    (waiting : p.state = .waiting) (channel : q.waitChannel = 0) (frame : q.savedFrame = setEax p value) :
    Rested i q own := by
  refine ⟨fun _ => channel,?_⟩
  rcases rested.frame with own | unused | saved
  · exact .inl own
  · simp [waiting] at unused
  · refine .inr (.inr ?_)
    rw [frame,setEax,Option.isSome_map]
    exact saved

theorem effect_rested {s : System} {call : Call} {i : Slot} {p : Process} (resting : Resting s)
    (clean : Clean s call) (serving : call.schedules = false) (effect : Effect s call i p) :
    Rested i p (currentLocal s 0 = some i) := by
  have rested := resting.records i
  have sound := resting.sound
  cases effect with
  | kept same frame => exact rested.congr same frame
  | scheduled change => cases serving
  | spawned free fresh => exact ⟨fun _ => fresh.idle.waitChannel,.inr (.inr fresh.frame)⟩
  | replaced caller ordinary same =>
    have state : p.state = (s.processes i).state := congrArg Control.state same
    have channel : p.waitChannel = (s.processes i).waitChannel := congrArg Control.waitChannel same
    refine ⟨?_,.inl caller⟩
    rw [state,channel]
    exact rested.calm
  | terminated ends same frame =>
    have state : p.state = .zombie := congrArg Control.state same
    have ordinary := victim_ordinary sound ends
    refine ⟨?_,?_⟩
    · simp [state,ordinary]
    · rw [frame]
      rcases rested.frame with own | unused | saved
      · exact .inl own
      · cases call with
        | exit code => exact .inl (victim_exit ends)
        | kill pid signal =>
          obtain ⟨_,_,found⟩ := killTarget_found (victim_signal ends).2
          exact absurd unused (findPid_found found).1
        | _ => cases ends
      · exact .inr (.inr saved)
  | parentReleased ends announced waiting => exact rested.released waiting rfl rfl
  | joinerReleased ends thread announced waiting =>
    exact rested.released waiting ((clean i).2 announced) rfl
  | woken nonzero ordinary waiting asleep =>
    refine ⟨fun _ => rfl,?_⟩
    simpa [waiting] using rested.frame
  | waits caller ordinary nonnull blocked => exact ⟨by simp,.inl caller⟩
  | joins caller positive nonnull blocked =>
    refine ⟨?_,.inl caller⟩
    rintro (ready | running | idle)
    · cases ready
    · cases running
    · exact rested.calm (.inr (.inr idle))
  | sleeps caller ordinary nonzero blocked => exact ⟨by simp [ordinary],.inl caller⟩
  | reaped reaps dead waits => exact ⟨fun _ => rfl,.inr (.inl rfl)⟩
  | stopped target same frame =>
    obtain ⟨ordinary,_,found⟩ := killTarget_found target
    have state : p.state = .stopped := congrArg Control.state same
    exact rested.asleep ordinary (findPid_found found).1 (by simp [state]) frame
  | @continued pid i p target paused same frame =>
    have channel : p.waitChannel = (s.processes i).waitChannel := congrArg Control.waitChannel same
    have aimed : continues s (.kill pid sigCont) = some i := by
      simp only [continues,if_true]
      exact target
    refine ⟨?_,?_⟩
    · rw [channel,(clean i).1 aimed paused]
      simp
    · rw [frame]
      exact rested.frame.imp id (Or.imp (fun unused => by simp [paused] at unused) id)

theorem step_resting {s : System} {call : Call} (resting : Resting s) (clean : Clean s call)
    (serving : call.schedules = false) : Resting (step s call) := by
  refine ⟨sound_step resting.sound call,?_⟩
  intro i
  have effect := step_effect s resting.sound.counter call i
  have current : (step s call).currentByCpu = s.currentByCpu := by
    apply step_current
    · exact resting.sound.counter
    · intro acquired frame scheduled
      rw [scheduled] at serving
      cases serving
  have caller : currentLocal (step s call) 0 = currentLocal s 0 := by simp only [currentLocal,current]
  rw [caller]
  exact effect_rested resting clean serving effect

theorem step_caller {s : System} {call : Call} {c : Slot} (sound : Sound s)
    (serving : call.schedules = false) (caller : currentLocal s 0 = some c)
    (running : (s.processes c).state = .running) :
    if suspends s call then
      ((step s call).processes c).state = .waiting ∨ ((step s call).processes c).state = .zombie
    else ((step s call).processes c).state = .running := by
  split
  next suspended =>
    rw [suspends,Bool.or_eq_true] at suspended
    rcases suspended with blocked | ended
    · left
      cases call with
      | waitpid pid ptr => rw [(waitpid_record caller blocked).2.2]
      | joinThread tid ptr => rw [(joinThread_record caller blocked).2]
      | sleepOn channel => rw [(sleepOn_record caller blocked).2.2]
      | _ => cases blocked
    · right
      simp only [caller,Option.any_some,decide_eq_true_eq] at ended
      exact congrArg Control.state (victim_record ended)
  next stays =>
    rw [suspends,Bool.or_eq_true,not_or,caller,Option.any_some,decide_eq_true_eq] at stays
    obtain ⟨runs,lives⟩ := stays
    have effect := step_effect s sound.counter call c
    generalize (step s call).processes c = p at effect
    cases effect with
    | kept same frame => exact (control_state same).trans running
    | scheduled change => cases serving
    | spawned free fresh => simp [running] at free
    | replaced _ ordinary same => exact (congrArg Control.state same).trans running
    | terminated ends same frame => exact absurd ends lives
    | parentReleased _ _ waiting => simp [running] at waiting
    | joinerReleased _ _ _ waiting => simp [running] at waiting
    | woken _ _ waiting => simp [running] at waiting
    | waits _ _ _ blocked => exact absurd blocked runs
    | joins _ _ _ blocked => exact absurd blocked runs
    | sleeps _ _ _ blocked => exact absurd blocked runs
    | reaped reaps dead waits => simp [running] at dead
    | stopped target same frame => exact absurd caller (killTarget_other target)
    | continued target paused same frame => exact absurd caller (killTarget_other target)

theorem Awake.caller {s : System} {c : Slot} (awake : Awake s) (caller : currentLocal s 0 = some c) :
    (s.processes c).state = .running ∧ (s.processes c).waitChannel = 0 := by
  obtain ⟨resting,d,current,running⟩ := awake
  rw [caller] at current
  cases current
  exact ⟨running,(resting.records c).calm (.inr (.inl running))⟩

/-- The scheduler gives the CPU to a RUNNING task. -/
structure Handed (s s' : System) (c : Slot) (frame : Frame) (resumed : Resume) (next : Slot) : Prop where
  current : currentLocal s' 0 = some next
  runs : (s'.processes next).state = .running
  resumed : resumed = .own frame ∧ next = c ∧ (s.processes c).state = .running ∨
    resumed = .saved next (s'.processes next).savedFrame ∧
      ((s.processes next).state = .ready ∨ next = bootstrap)

theorem enter_current (s : System) (next : Slot) : currentLocal (enter s 0 next) 0 = some next := by
  have stack (s : System) (top : Nat) : (tssSetKernelStack s 0 top).currentByCpu = s.currentByCpu := by
    unfold tssSetKernelStack
    split <;> rfl
  have zero : 0 < maxCpus := by decide
  simp only [currentLocal,enter,stack,setCurrentLocal,if_pos zero,setProcess_current,Function.update_self]

theorem reapPrev_current (s : System) (prev : Option Slot) (cpu : Nat) :
    currentLocal (reapPrev s prev) cpu = currentLocal s cpu := by
  have same : (reapPrev s prev).currentByCpu = s.currentByCpu := by
    unfold reapPrev
    split
    · rfl
    split
    · exact reapProcess_current _ _
    · rfl
  simp only [currentLocal,same]

theorem switchFrom_resumed {s : System} {prev : Option Slot} {frame : Frame} {i : Slot} {saved : Option Frame}
    (resumed : (switchFrom s 0 prev frame).2 = .saved i saved) :
    ((switchFrom s 0 prev frame).1.processes i).state = .running ∧
      ((switchFrom s 0 prev frame).1.processes i).savedFrame = saved := by
  have runs (before : System) (next : Slot) :
      ((reapPrev (enter before 0 next) prev).processes next).state = .running := by
    rw [enter_running,enter_record,if_pos rfl]
  unfold switchFrom at resumed ⊢
  dsimp only at resumed ⊢
  split at resumed
  · cases resumed
    exact ⟨runs _ _,rfl⟩
  split at resumed
  · rw [if_pos rfl] at resumed ⊢
    split at resumed
    next halted =>
      cases resumed
      rw [if_pos halted]
      exact ⟨runs _ _,rfl⟩
    · cases resumed
  · cases resumed

theorem processSchedule_resumed {s : System} {acquired : Bool} {frame : Frame} {i : Slot} {saved : Option Frame}
    (resumed : (processSchedule s 0 acquired frame).2 = .saved i saved) :
    ((processSchedule s 0 acquired frame).1.processes i).state = .running ∧
      ((processSchedule s 0 acquired frame).1.processes i).savedFrame = saved := by
  cases acquired with
  | false => cases resumed
  | true =>
    obtain ⟨ready,_,_,⟨kept,_⟩ | switched⟩ := processSchedule_acquired s 0 frame
    · rw [kept] at resumed
      cases resumed
    · rw [switched] at resumed ⊢
      exact switchFrom_resumed resumed

theorem switchFrom_handed {s : System} {c : Slot} (frame : Frame) (caller : currentLocal s 0 = some c)
    (ended : (s.processes c).state = .running ∨ (s.processes c).state = .waiting ∨
      (s.processes c).state = .zombie) :
    ∃ next, Handed s (switchFrom s 0 (some c) frame).1 c frame (switchFrom s 0 (some c) frame).2 next := by
  have enters (before : System) (next : Slot) (ready : (s.processes next).state = .ready ∨ next = bootstrap) :
      Handed s (reapPrev (enter before 0 next) (some c)) c frame
        (.saved next ((reapPrev (enter before 0 next) (some c)).processes next).savedFrame) next := by
    refine ⟨?_,?_,.inr ⟨rfl,ready⟩⟩
    · rw [reapPrev_current,enter_current]
    · rw [enter_running,enter_record,if_pos rfl]
  unfold switchFrom
  dsimp only
  split
  next next found => exact ⟨next,enters _ next (.inl (selectNext_ready found))⟩
  next =>
    split
    next => exact ⟨bootstrap,enters s bootstrap (.inr rfl)⟩
    next stays =>
      have runs : (s.processes c).state = .running := by
        rcases ended with running | waiting | dead
        · exact running
        · simp [waiting] at stays
        · simp [dead] at stays
      exact ⟨c,caller,runs,.inl ⟨rfl,rfl,runs⟩⟩

theorem processSchedule_handed {s : System} {c : Slot} (frame : Frame) (caller : currentLocal s 0 = some c)
    (ended : (s.processes c).state = .running ∨ (s.processes c).state = .waiting ∨
      (s.processes c).state = .zombie) :
    ∃ next, Handed s (processSchedule s 0 true frame).1 c frame (processSchedule s 0 true frame).2 next := by
  obtain ⟨ready,upkeep,_,⟨kept,prev,same,running⟩ | switched⟩ := processSchedule_acquired s 0 frame
  · have own : currentLocal ready 0 = some c := (upkeep.currentLocal 0).trans caller
    rw [caller] at same
    cases same
    rw [kept]
    exact ⟨c,own,(control_state (upkeep.control c)).trans running,.inl ⟨rfl,rfl,running⟩⟩
  · have own : currentLocal ready 0 = some c := (upkeep.currentLocal 0).trans caller
    have states (i : Slot) : (ready.processes i).state = (s.processes i).state := control_state (upkeep.control i)
    rw [own] at switched
    rw [switched]
    rw [← states c] at ended
    obtain ⟨next,current,runs,resumed⟩ := switchFrom_handed frame own ended
    rw [states c,states next] at resumed
    exact ⟨next,current,runs,resumed⟩

theorem schedule_framed {s : System} (resting : Resting s) (frame : Frame) (i : Slot) :
    ((processSchedule s 0 true frame).1.processes i).state = .unused ∨
      ((processSchedule s 0 true frame).1.processes i).savedFrame.isSome = true := by
  have framed := (resting.records i).frame
  have change := processSchedule_scheduled s 0 true frame i
  have saved := processSchedule_frame s 0 frame i
  generalize (processSchedule s 0 true frame).1.processes i = p at change saved
  rcases saved with unused | saved
  · exact .inl unused
  by_cases own : currentLocal s 0 = some i
  · rw [saved,if_pos own]
    exact .inr rfl
  rw [saved,if_neg own]
  rcases framed with caller | unused | isSome
  · exact absurd caller own
  · left
    cases change with
    | kept same frame => exact (control_state same).trans unused
    | dispatched ready same =>
      rcases ready with ready | idle
      · simp [unused] at ready
      · rw [idle] at unused
        exact absurd unused resting.sound.taken
    | preempted caller running same => exact absurd caller own
    | reaped caller dead pending cleared => exact absurd caller own
  · exact .inr isSome

theorem schedule_calm {s : System} (resting : Resting s) (i : Slot) {p : Process}
    (change : Scheduled s 0 i p) (may : p.state = .ready ∨ p.state = .running ∨ i = bootstrap) :
    p.waitChannel = 0 := by
  have calm := (resting.records i).calm
  have through {c : Control} (same : p.control = c) (channel : c.waitChannel = (s.processes i).waitChannel) :
      p.waitChannel = (s.processes i).waitChannel := (congrArg Control.waitChannel same).trans channel
  cases change with
  | kept same frame =>
    rw [control_state same] at may
    rw [through same rfl]
    exact calm may
  | dispatched ready same =>
    rw [through same rfl]
    exact calm (ready.imp id .inr)
  | preempted caller running same =>
    rw [through same rfl]
    exact calm (.inr (.inl running))
  | reaped caller dead pending cleared => exact congrArg Control.waitChannel cleared

/-- The scheduler on the boot CPU, when it gets the lock: the task that it leaves on the CPU
is RUNNING and is the one whose frame it hands back. -/
theorem schedule_awake {s : System} (resting : Resting s) {c : Slot} (frame : Frame)
    (caller : currentLocal s 0 = some c)
    (ended : (s.processes c).state = .running ∨ (s.processes c).state = .waiting ∨
      (s.processes c).state = .zombie) :
    Awake (processSchedule s 0 true frame).1 ∧
      ∃ next, currentLocal (processSchedule s 0 true frame).1 0 = some next ∧
        ((processSchedule s 0 true frame).2 = .own frame ∧ next = c ∨
          ∃ saved, (processSchedule s 0 true frame).2 = .saved next (some saved)) := by
  obtain ⟨next,current,runs,resumed⟩ := processSchedule_handed frame caller ended
  have sound : Sound (processSchedule s 0 true frame).1 := sound_step resting.sound (.schedule true frame)
  have framed := schedule_framed resting frame
  have change := processSchedule_scheduled s 0 true frame
  have resting' : Resting (processSchedule s 0 true frame).1 :=
    ⟨sound,fun i => ⟨schedule_calm resting i (change i),.inr (framed i)⟩⟩
  refine ⟨⟨resting',next,current,runs⟩,next,current,?_⟩
  rcases resumed with ⟨own,same,_⟩ | ⟨saved,_⟩
  · exact .inl ⟨own,same⟩
  · rcases framed next with unused | isSome
    · simp [runs] at unused
    · obtain ⟨image,present⟩ := Option.isSome_iff_exists.mp isSome
      exact .inr ⟨image,by rw [saved,present]⟩

theorem boot_current (s : System) (idle schedule : Nat) :
    currentLocal (boot s idle schedule) 0 = some bootstrap := by
  have zero : 0 < maxCpus := by decide
  simp only [currentLocal,boot,processInit,setCurrentLocal,if_pos zero,Function.update_self]

theorem boot_awake (s : System) (idle schedule : Nat) : Awake (boot s idle schedule) := by
  have record := boot_record s idle schedule
  have current := boot_current s idle schedule
  refine ⟨⟨boot_sound s idle schedule,?_⟩,bootstrap,current,?_⟩
  · intro i
    have same := record i
    rw [current]
    by_cases own : i = bootstrap
    · rw [if_pos own] at same
      exact ⟨fun _ => congrArg Control.waitChannel same,.inl (by rw [own])⟩
    · rw [if_neg own] at same
      exact ⟨fun _ => congrArg Control.waitChannel same,.inr (.inl (control_state same))⟩
  · exact (congrArg Control.state (record bootstrap)).trans (by rw [if_pos rfl])

end LionOS.Processes

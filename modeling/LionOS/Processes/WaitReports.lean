import LionOS.Processes.Termination

/-! How often the termination of a child reaches its parent through waitpid: a count
of the reports is kept beside the system and followed over every run. -/
namespace LionOS.Processes
open LionOS.Memory LionOS.Physical LionOS.Paging LionOS.Library

/-- The zombie whose pid a waitpid returns at once. -/
def returnedChild (s : System) (pid statusPtr : Nat) : Option Slot :=
  match currentLocal s 0 with
  | none => none
  | some c =>
    if c = bootstrap ∨ statusPtr = 0 then none
    else match findZombieChild s (s.processes c).pid pid with
      | none => none
      | some z =>
        if (writeUserU32 s.vm (s.processes c).pageDirectory statusPtr (s.processes z).exitCode).2 then some z
        else none

/-- The child whose pid a call delivers, as the result of a waitpid or to a parent
that wakes up from one. -/
def reportedBy (s : System) (call : Call) : Option Slot :=
  match call with
  | .waitpid pid statusPtr => returnedChild s pid statusPtr
  | call => if (reportsTo s call).isSome then victim s call else none

structure Reports where
  system : System
  count : Slot → Nat

/-- The count of a slot starts anew with each child that it holds. -/
def reportStep (t : Reports) (call : Call) : Reports where
  system := step t.system call
  count i :=
    if (t.system.processes i).state = .unused then 0
    else t.count i + if reportedBy t.system call = some i then 1 else 0

def reportBoot (s : System) (idle schedule : Nat) : Reports := ⟨boot s idle schedule,fun _ => 0⟩

/-- Each child has been reported once at most, and the slot of a reported one is free
once the scheduler has run. -/
def ReportedOnce (t : Reports) : Prop :=
  ∀ i, t.count i ≤ 1 ∧
    (t.count i = 1 → ∀ frame, ((processSchedule t.system 0 true frame).1.processes i).state = .unused)

/-- A call by the task `i` itself that exits, waits, blocks or executes a new image. -/
def ownCall (s : System) (i : Slot) (call : Call) : Bool :=
  decide (currentLocal s 0 = some i) &&
    match call with
    | .exit _ => true
    | .waitpid _ _ => true
    | .replace _ _ _ _ _ _ => true
    | call => blocks s call

/-- A signal that ends a child whose parent is waiting for it. -/
def killsAwaited (s : System) (call : Call) : Bool :=
  match call with
  | .kill _ _ => (reportsTo s call).isSome
  | _ => false

/-- The call reports no child that stays behind: no signal ends a child that its parent
is waiting for, and a task whose termination has been reported makes no call that
exits, waits, blocks or executes a new image. -/
def Settles (s : System) (call : Call) : Prop :=
  killsAwaited s call = false ∧
    ∀ i, (s.processes i).state = .zombie → (s.processes i).reapPending = true → ownCall s i call = false

instance Settles.decidable (s : System) (call : Call) : Decidable (Settles s call) :=
  inferInstanceAs (Decidable (_ ∧ ∀ i, _ → _ → ownCall s i call = false))

/-- What the counts say of the slots: a reported child is gone or still the current
task, marked for the scheduler to reap. -/
def Counted (t : Reports) (i : Slot) : Prop :=
  t.count i = 0 ∨ t.count i = 1 ∧
    ((t.system.processes i).state = .unused ∨
      (t.system.processes i).state = .zombie ∧ (t.system.processes i).reapPending = true ∧
        currentLocal t.system 0 = some i)

theorem returnedChild_found {s : System} {pid statusPtr : Nat} {z : Slot}
    (returned : returnedChild s pid statusPtr = some z) :
    (s.processes z).state = .zombie ∧ ((step s (.waitpid pid statusPtr)).processes z).state = .unused := by
  unfold returnedChild at returned
  simp only [step,processWaitpid]
  cases caller : currentLocal s 0 with
  | none => simp [caller] at returned
  | some c =>
    dsimp only
    simp only [caller] at returned
    split at returned
    · cases returned
    next valid =>
      rw [if_neg valid]
      cases found : findZombieChild s (s.processes c).pid pid with
      | none => simp [found] at returned
      | some y =>
        simp only [found] at returned
        split at returned
        next written =>
          cases returned
          have dead := (findZombieChild_found found).2.2
          refine ⟨dead,?_⟩
          dsimp only
          split
          next failed => simp [failed] at written
          next =>
            dsimp only
            rw [reapProcess_record,if_pos ⟨dead,rfl⟩]
            rfl
        next => cases returned

/-- A child that a call reports has not been reported before, and after the call it is
gone or marked for the scheduler to reap. -/
theorem reportedBy_settled {s : System} (sound : Sound s) {call : Call} (settles : Settles s call)
    {i : Slot} (reported : reportedBy s call = some i) :
    ¬ ((s.processes i).state = .zombie ∧ (s.processes i).reapPending = true ∧ currentLocal s 0 = some i) ∧
      (((step s call).processes i).state = .unused ∨
        ((step s call).processes i).state = .zombie ∧ ((step s call).processes i).reapPending = true ∧
          currentLocal (step s call) 0 = some i) := by
  cases call with
  | waitpid pid statusPtr =>
    refine ⟨?_,.inl (returnedChild_found reported).2⟩
    rintro ⟨dead,pending,caller⟩
    simpa [ownCall,caller] using settles.2 i dead pending
  | kill pid signal =>
    have silent := settles.1
    simp only [killsAwaited] at silent
    simp [reportedBy,silent] at reported
  | exit code =>
    simp only [reportedBy] at reported
    split at reported
    next announced =>
      have caller := victim_exit reported
      have record := victim_record reported
      refine ⟨?_,.inr ⟨congrArg Control.state record,?_,?_⟩⟩
      · rintro ⟨dead,pending,_⟩
        simpa [ownCall,caller] using settles.2 i dead pending
      · refine (congrArg Control.reapPending record).trans ?_
        simp [announced]
      · rw [← caller]
        simp only [currentLocal,step_current s sound.counter (.exit code) (fun _ _ equal => by cases equal)]
    next => cases reported
  | _ => simp [reportedBy,reportsTo,victim] at reported

/-- Nothing but the scheduler and the calls that reap touches a reported child that is
still on the CPU. -/
theorem reported_effect {s : System} {call : Call} {i : Slot} {p : Process} (ordinary : i ≠ bootstrap)
    (dead : (s.processes i).state = .zombie) (pending : (s.processes i).reapPending = true)
    (caller : currentLocal s 0 = some i) (quiet : ownCall s i call = false)
    (effect : Effect s call i p) :
    p.state = .unused ∨ p.state = .zombie ∧ p.reapPending = true := by
  cases effect with
  | kept same frame =>
    exact .inr ⟨(control_state same).trans dead,(congrArg Control.reapPending same).trans pending⟩
  | scheduled change =>
    cases change with
    | kept same frame =>
      exact .inr ⟨(control_state same).trans dead,(congrArg Control.reapPending same).trans pending⟩
    | dispatched ready same =>
      rcases ready with ready | idle
      · simp [dead] at ready
      · exact absurd idle ordinary
    | preempted _ running same => simp [dead] at running
    | reaped _ _ _ cleared => exact .inl (control_state cleared)
  | spawned free fresh => simp [dead] at free
  | replaced _ _ same => simp [ownCall,caller] at quiet
  | terminated ends same frame =>
    refine .inr ⟨congrArg Control.state same,?_⟩
    refine (congrArg Control.reapPending same).trans ?_
    simp [pending]
  | parentReleased _ _ waiting => simp [dead] at waiting
  | joinerReleased _ _ _ waiting => simp [dead] at waiting
  | woken _ _ waiting => simp [dead] at waiting
  | waits => simp [ownCall,caller] at quiet
  | joins _ _ _ blocked => simp [ownCall,caller,blocked] at quiet
  | sleeps _ _ _ blocked => simp [ownCall,caller,blocked] at quiet
  | reaped => exact .inl rfl
  | stopped target => exact absurd caller (killTarget_other target)
  | continued target => exact absurd caller (killTarget_other target)

theorem counted_step {t : Reports} (sound : Sound t.system) {call : Call} (settles : Settles t.system call)
    {i : Slot} (counted : Counted t i) : Counted (reportStep t call) i := by
  unfold Counted at counted ⊢
  simp only [reportStep]
  by_cases free : (t.system.processes i).state = .unused
  · exact .inl (if_pos free)
  simp only [if_neg free]
  by_cases reported : reportedBy t.system call = some i
  · obtain ⟨fresh,settled⟩ := reportedBy_settled sound settles reported
    rw [if_pos reported]
    rcases counted with none | ⟨once,free' | held⟩
    · exact .inr ⟨by omega,settled⟩
    · exact absurd free' free
    · exact absurd held fresh
  rw [if_neg reported]
  rcases counted with none | ⟨once,free' | ⟨dead,pending,caller⟩⟩
  · exact .inl none
  · exact absurd free' free
  refine .inr ⟨once,?_⟩
  have ordinary : i ≠ bootstrap := by
    intro idle
    rw [idle] at dead
    exact sound.alive dead
  have effect := step_effect t.system sound.counter call i
  have kept := reported_effect ordinary dead pending caller (settles.2 i dead pending) effect
  by_cases scheduling : ∃ acquired frame, call = .schedule acquired frame
  · obtain ⟨acquired,frame,rfl⟩ := scheduling
    cases acquired with
    | false => exact .inr ⟨dead,pending,caller⟩
    | true => exact .inl (processSchedule_reaps frame caller dead pending ordinary)
  · have current := step_current t.system sound.counter call
      (fun acquired frame equal => scheduling ⟨acquired,frame,equal⟩)
    refine kept.imp id fun held => ⟨held.1,held.2,?_⟩
    rw [← caller]
    simp only [currentLocal,current]

theorem unused_scheduled {s : System} (sound : Sound s) {i : Slot} (free : (s.processes i).state = .unused)
    (acquired : Bool) (frame : Frame) :
    ((processSchedule s 0 acquired frame).1.processes i).state = .unused := by
  have ordinary : i ≠ bootstrap := by
    intro idle
    rw [idle] at free
    exact sound.taken free
  cases processSchedule_scheduled s 0 acquired frame i with
  | kept same frame => exact (control_state same).trans free
  | dispatched ready same =>
    rcases ready with ready | idle
    · simp [free] at ready
    · exact absurd idle ordinary
  | preempted caller running same => simp [free] at running
  | reaped caller dead pending cleared => exact control_state cleared

theorem counted_once {t : Reports} (sound : Sound t.system) (counted : ∀ i, Counted t i) :
    ReportedOnce t := by
  intro i
  rcases counted i with none | ⟨once,free | ⟨dead,pending,caller⟩⟩
  · exact ⟨by omega,fun once => by omega⟩
  · exact ⟨by omega,fun _ => unused_scheduled sound free true⟩
  · refine ⟨by omega,fun _ frame => processSchedule_reaps frame caller dead pending ?_⟩
    intro idle
    rw [idle] at dead
    exact sound.alive dead

/-- In a run in which no signal ends an awaited child and no reported task goes on,
every child is reported once at most and then reaped by the next schedule. -/
theorem termination_reported_once (s : System) (idle schedule : Nat) (calls : List Call)
    (settled : Meets reportStep (fun t call => Settles t.system call) (reportBoot s idle schedule) calls) :
    ReportedOnce (run reportStep (reportBoot s idle schedule) calls) := by
  have initial : Sound (reportBoot s idle schedule).system ∧ ∀ i, Counted (reportBoot s idle schedule) i :=
    ⟨boot_sound s idle schedule,fun _ => .inl rfl⟩
  have preserved (t : Reports) (call : Call) (holds : Sound t.system ∧ ∀ i, Counted t i)
      (settles : Settles t.system call) :
      Sound (reportStep t call).system ∧ ∀ i, Counted (reportStep t call) i :=
    ⟨sound_step holds.1 call,fun i => counted_step holds.1 settles (holds.2 i)⟩
  obtain ⟨sound,counted⟩ := settled.invariant preserved initial
  exact counted_once sound counted

/-- The parent collects its dead child: one report, and the slot is free. -/
theorem collected_child_reported_once :
    ReportedOnce (run reportStep (reportBoot blank 0x1000 0x2000) (deadChild ++ [.waitpid 3 0x8048100])) ∧
      (run reportStep (reportBoot blank 0x1000 0x2000) (deadChild ++ [.waitpid 3 0x8048100])).count 2 = 1 :=
  ⟨termination_reported_once blank 0x1000 0x2000 (deadChild ++ [.waitpid 3 0x8048100]) (by decide +kernel),
    by decide +kernel⟩

/-- Three generations: the parent in slot 2 waits for its child in slot 3, the
grandparent in slot 1 kills the child, and the parent waits once more. -/
def awaitedKill : List Call :=
  launch (boot blank 0x1000 0x2000) ++ [.fork zeroFrame] ++ yield ++
    [.fork zeroFrame,.waitpid 4 0x8048100,.schedule true zeroFrame] ++ yield ++ yield ++
    [.kill 4 sigKill] ++ yield ++ [.waitpid 4 0x8048100]

theorem awaited_kill_reported_twice :
    ¬ ∀ (s : System) (idle schedule : Nat) (calls : List Call),
      ReportedOnce (run reportStep (reportBoot s idle schedule) calls) := by
  intro once
  have twice : (run reportStep (reportBoot blank 0x1000 0x2000) awaitedKill).count 3 = 2 := by
    decide +kernel
  have bound := (once blank 0x1000 0x2000 awaitedKill 3).1
  rw [twice] at bound
  omega

end LionOS.Processes

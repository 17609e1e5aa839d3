import LionOS.Processes.Termination

/-! What a blocked task waits for. The state WAITING encodes three kinds of waits in
its side fields; the kind is kept beside the system and compared with what wakes the
task, over every run. -/
namespace LionOS.Processes
open LionOS.Memory LionOS.Physical LionOS.Paging LionOS.Library

inductive Wait where
  | child (pid : Nat)
  | thread (tid : Nat)
  | channel (channel : Nat)
  deriving DecidableEq

/-- What the caller of a blocking call waits for. -/
def waitOf : Call → Wait
  | .waitpid pid _ => .child pid
  | .joinThread tid _ => .thread tid
  | .sleepOn channel => .channel (wrap channel)
  | _ => .channel 0

structure Waits where
  system : System
  wait : Slot → Wait

def waitStep (t : Waits) (call : Call) : Waits where
  system := step t.system call
  wait i := if currentLocal t.system 0 = some i ∧ blocks t.system call = true then waitOf call else t.wait i

def waitBoot (s : System) (idle schedule : Nat) : Waits := ⟨boot s idle schedule,fun _ => .channel 0⟩

/-- The call is the event that a task with the record `p` waits for. -/
def Occurs (s : System) (call : Call) (p : Process) : Wait → Prop
  | .child pid => ∃ child, victim s call = some child ∧ (s.processes child).parentPid = p.pid ∧
      (pid = 0 ∨ (s.processes child).pid = pid)
  | .thread tid => ∃ child, victim s call = some child ∧ (s.processes child).isThread = true ∧
      (s.processes child).tid = tid
  | .channel channel => ∃ c, call = .wakeup c ∧ wrap c = channel

/-- A task in the middle of a wait, be it stopped there or not. -/
def Blocked (p : Process) : Prop := p.state = .waiting ∨ p.state = .stopped ∧ ¬ Idle p

/-- The same wait goes on in `p'`. -/
structure Pends (p p' : Process) : Prop where
  state : p'.state = .waiting ∨ p'.state = .stopped
  waitPid : p'.waitPid = p.waitPid
  waitStatusPtr : p'.waitStatusPtr = p.waitStatusPtr
  waitChannel : p'.waitChannel = p.waitChannel
  joinTid : p'.joinTid = p.joinTid
  joinStatusPtr : p'.joinStatusPtr = p.joinStatusPtr

/-- A call that the task `i` makes itself and that changes its own wait or frame. -/
def ownAction (s : System) (i : Slot) (call : Call) : Prop :=
  currentLocal s 0 = some i ∧
    match call with
    | .replace _ _ _ _ _ _ => True
    | call => blocks s call = true

/-- A blocked task stays in its wait, frame included, until the event it waits for
comes, it is killed or, still on the CPU, acts itself. -/
def WaitsOn (t : Waits) (call : Call) : Prop :=
  ∀ i, Blocked (t.system.processes i) →
    Pends (t.system.processes i) ((step t.system call).processes i) ∧
        (((step t.system call).processes i).savedFrame = (t.system.processes i).savedFrame ∨
          currentLocal t.system 0 = some i ∧ ∃ acquired frame, call = .schedule acquired frame) ∨
      Occurs t.system call (t.system.processes i) (t.wait i) ∨
      victim t.system call = some i ∨ ownAction t.system i call

/-- The caller `i` is about to block while fields of another kind of wait are set. -/
def conflicts (s : System) (i : Slot) (call : Call) : Bool :=
  let p := s.processes i
  match call with
  | .waitpid _ _ => blocks s call && (decide (p.joinTid ≠ 0) || decide (p.joinStatusPtr ≠ 0))
  | .joinThread _ _ => blocks s call && (decide (i = bootstrap) || decide (p.waitPid ≠ 0) ||
      decide (p.waitStatusPtr ≠ 0) || decide (p.waitChannel ≠ 0))
  | .sleepOn _ => blocks s call && (decide (p.waitPid ≠ 0) || decide (p.waitStatusPtr ≠ 0) ||
      decide (p.joinTid ≠ 0) || decide (p.joinStatusPtr ≠ 0))
  | .replace _ _ _ _ _ _ => decide (p.state = .waiting) && decide (p.waitStatusPtr ≠ 0)
  | _ => false

/-- The target of a SIGCONT. -/
def continues (s : System) : Call → Option Slot
  | .kill pid signal => if signal = sigCont then killTarget s pid signal else none
  | _ => none

/-- The call keeps the kinds of waits apart: no task that was stopped in the middle of a
wait is continued, the parent to which a termination is announced waits in waitpid, and
no task starts a wait while one of another kind is pending. -/
def Orderly (s : System) (call : Call) : Prop :=
  ∀ i, (continues s call = some i → (s.processes i).state = .stopped → Idle (s.processes i)) ∧
    (reportsTo s call = some i → (s.processes i).waitStatusPtr ≠ 0) ∧
    (currentLocal s 0 = some i → conflicts s i call = false)

instance Orderly.decidable (s : System) (call : Call) : Decidable (Orderly s call) :=
  inferInstanceAs (Decidable (∀ _, (_ → _ → _) ∧ (_ → _) ∧ (_ → _)))

/-- The side fields of a WAITING record hold the wait and nothing else. -/
def Matches (p : Process) : Wait → Prop
  | .child pid => p.waitPid = pid ∧ p.waitStatusPtr ≠ 0 ∧ p.waitChannel = 0 ∧ p.joinTid = 0 ∧
      p.joinStatusPtr = 0
  | .thread tid => p.waitPid = 0 ∧ p.waitStatusPtr = 0 ∧ p.waitChannel = 0 ∧ p.joinTid = tid ∧ tid ≠ 0
  | .channel channel => p.waitPid = 0 ∧ p.waitStatusPtr = 0 ∧ p.waitChannel = channel ∧ channel ≠ 0 ∧
      p.joinTid = 0 ∧ p.joinStatusPtr = 0

structure Kept (p : Process) (i : Slot) (wait : Wait) : Prop where
  waiting : p.state = .waiting → Matches p wait ∧ i ≠ bootstrap
  idle : p.state = .running ∨ p.state = .ready ∨ i = bootstrap → Idle p

theorem idle_fields {p : Process} {c : Control} (same : p.control = c) (waitPid : c.waitPid = 0)
    (waitStatusPtr : c.waitStatusPtr = 0) (waitChannel : c.waitChannel = 0) (joinTid : c.joinTid = 0)
    (joinStatusPtr : c.joinStatusPtr = 0) : Idle p := by
  subst same
  exact ⟨waitPid,waitStatusPtr,waitChannel,joinTid,joinStatusPtr⟩

theorem idle_congr {p q : Process} (same : p.control = q.control) (idle : Idle q) : Idle p :=
  idle_fields same idle.waitPid idle.waitStatusPtr idle.waitChannel idle.joinTid idle.joinStatusPtr

theorem idle_state {p q : Process} {state : State} (same : p.control = {q.control with state}) (idle : Idle q) :
    Idle p :=
  idle_fields same idle.waitPid idle.waitStatusPtr idle.waitChannel idle.joinTid idle.joinStatusPtr

theorem matches_congr {p q : Process} (same : p.control = q.control) {wait : Wait} (fits : Matches q wait) :
    Matches p wait := by
  have waitPid : p.waitPid = q.waitPid := congrArg Control.waitPid same
  have waitStatusPtr : p.waitStatusPtr = q.waitStatusPtr := congrArg Control.waitStatusPtr same
  have waitChannel : p.waitChannel = q.waitChannel := congrArg Control.waitChannel same
  have joinTid : p.joinTid = q.joinTid := congrArg Control.joinTid same
  have joinStatusPtr : p.joinStatusPtr = q.joinStatusPtr := congrArg Control.joinStatusPtr same
  cases wait <;> simpa only [Matches,waitPid,waitStatusPtr,waitChannel,joinTid,joinStatusPtr] using fits

theorem pends_congr {p q : Process} (same : p.control = q.control)
    (state : q.state = .waiting ∨ q.state = .stopped) : Pends q p :=
  ⟨(control_state same).symm ▸ state,congrArg Control.waitPid same,congrArg Control.waitStatusPtr same,
    congrArg Control.waitChannel same,congrArg Control.joinTid same,congrArg Control.joinStatusPtr same⟩

theorem kept_congr {p q : Process} {i : Slot} {wait : Wait} (same : p.control = q.control)
    (kept : Kept q i wait) : Kept p i wait := by
  have state := control_state same
  refine ⟨?_,?_⟩
  · intro waiting
    rw [state] at waiting
    exact ⟨matches_congr same (kept.waiting waiting).1,(kept.waiting waiting).2⟩
  · intro active
    rw [state] at active
    exact idle_congr same (kept.idle active)

theorem kept_idle {p : Process} {i : Slot} {wait : Wait} (idle : Idle p) (state : p.state ≠ .waiting) :
    Kept p i wait := ⟨fun waiting => absurd waiting state,fun _ => idle⟩

theorem kept_final {p : Process} {i : Slot} {wait : Wait} (ordinary : i ≠ bootstrap)
    (state : p.state = .zombie ∨ p.state = .unused ∨ p.state = .stopped) : Kept p i wait := by
  refine ⟨?_,?_⟩
  · intro waiting
    simp [waiting] at state
  · rintro (running | ready | idle)
    · simp [running] at state
    · simp [ready] at state
    · exact absurd idle ordinary

section Step
variable {t : Waits} {call : Call} {i : Slot} {p : Process}

/-- The effect leaves the ghost wait alone unless the task blocks. -/
theorem wait_kept (quiet : blocks t.system call = false ∨ currentLocal t.system 0 ≠ some i) :
    (waitStep t call).wait i = t.wait i := by
  simp only [waitStep]
  rw [if_neg]
  rintro ⟨caller,blocked⟩
  rcases quiet with quiet | other
  · simp [quiet] at blocked
  · exact other caller

theorem wait_set (caller : currentLocal t.system 0 = some i) (blocked : blocks t.system call = true) :
    (waitStep t call).wait i = waitOf call := by
  simp only [waitStep]
  rw [if_pos ⟨caller,blocked⟩]

theorem scheduled_kept (kept : Kept (t.system.processes i) i (t.wait i))
    (change : Scheduled t.system 0 i p) : Kept p i (t.wait i) := by
  cases change with
  | kept same frame => exact kept_congr same kept
  | dispatched ready same =>
    have active : (t.system.processes i).state = .ready ∨ i = bootstrap := ready
    refine kept_idle (idle_state same (kept.idle (.inr active))) ?_
    simp [show p.state = .running from congrArg Control.state same]
  | preempted caller running same =>
    refine kept_idle (idle_state same (kept.idle (.inl running))) ?_
    simp [show p.state = .ready from congrArg Control.state same]
  | reaped caller dead pending cleared =>
    refine kept_idle (idle_congr cleared (clearProcess_idle _)) ?_
    simp [show p.state = .unused from congrArg Control.state cleared]

/-- A parent that a termination is announced to waits in waitpid. -/
theorem announced_matches (orderly : Orderly t.system call)
    (kept : Kept (t.system.processes i) i (t.wait i)) (announced : reportsTo t.system call = some i)
    (waiting : (t.system.processes i).state = .waiting) :
    ∃ pid, t.wait i = .child pid ∧ (t.system.processes i).waitPid = pid ∧
      (t.system.processes i).joinTid = 0 ∧ (t.system.processes i).joinStatusPtr = 0 := by
  have status := (orderly i).2.1 announced
  have fits := (kept.waiting waiting).1
  cases wait : t.wait i with
  | child pid =>
    rw [wait] at fits
    exact ⟨pid,rfl,fits.1,fits.2.2.2.1,fits.2.2.2.2⟩
  | thread tid =>
    rw [wait] at fits
    exact absurd fits.2.1 status
  | channel channel =>
    rw [wait] at fits
    exact absurd fits.2.1 status

theorem joining_matches (kept : Kept (t.system.processes i) i (t.wait i)) {tid : Nat} (positive : tid ≠ 0)
    (waiting : (t.system.processes i).state = .waiting) (joining : (t.system.processes i).joinTid = tid) :
    t.wait i = .thread tid ∧ (t.system.processes i).waitPid = 0 ∧
      (t.system.processes i).waitStatusPtr = 0 ∧ (t.system.processes i).waitChannel = 0 := by
  have fits := (kept.waiting waiting).1
  cases wait : t.wait i with
  | child pid =>
    rw [wait] at fits
    exact absurd (joining.symm.trans fits.2.2.2.1) positive
  | thread other =>
    rw [wait] at fits
    obtain ⟨waitPid,waitStatusPtr,waitChannel,same,_⟩ := fits
    rw [joining] at same
    exact ⟨by rw [same],waitPid,waitStatusPtr,waitChannel⟩
  | channel channel =>
    rw [wait] at fits
    exact absurd (joining.symm.trans fits.2.2.2.2.1) positive

theorem sleeping_matches (kept : Kept (t.system.processes i) i (t.wait i)) {channel : Nat}
    (nonzero : channel ≠ 0) (waiting : (t.system.processes i).state = .waiting)
    (asleep : (t.system.processes i).waitChannel = channel) :
    t.wait i = .channel channel ∧ (t.system.processes i).waitPid = 0 ∧
      (t.system.processes i).waitStatusPtr = 0 ∧ (t.system.processes i).joinTid = 0 ∧
      (t.system.processes i).joinStatusPtr = 0 := by
  have fits := (kept.waiting waiting).1
  cases wait : t.wait i with
  | child pid =>
    rw [wait] at fits
    exact absurd (asleep.symm.trans fits.2.2.1) nonzero
  | thread tid =>
    rw [wait] at fits
    exact absurd (asleep.symm.trans fits.2.2.1) nonzero
  | channel other =>
    rw [wait] at fits
    obtain ⟨waitPid,waitStatusPtr,same,_,joinTid,joinStatusPtr⟩ := fits
    rw [asleep] at same
    exact ⟨by rw [same],waitPid,waitStatusPtr,joinTid,joinStatusPtr⟩

theorem kept_effect (sound : Sound t.system) (orderly : Orderly t.system call)
    (kept : Kept (t.system.processes i) i (t.wait i)) (effect : Effect t.system call i p)
    (quiet : blocks t.system call = false ∨ currentLocal t.system 0 ≠ some i) : Kept p i (t.wait i) := by
  cases effect with
  | kept same frame => exact kept_congr same kept
  | scheduled change => exact scheduled_kept kept change
  | spawned free fresh => exact kept_idle fresh.idle (by simp [fresh.ready])
  | replaced caller ordinary same =>
    have state : p.state = (t.system.processes i).state := congrArg Control.state same
    have clear := (orderly i).2.2 caller
    refine ⟨?_,?_⟩
    · intro waiting
      rw [state] at waiting
      obtain ⟨fits,_⟩ := kept.waiting waiting
      simp only [conflicts,waiting,decide_true,Bool.true_and,decide_eq_false_iff_not,ne_eq,not_not] at clear
      refine ⟨?_,ordinary⟩
      have waitPid : p.waitPid = 0 := congrArg Control.waitPid same
      have waitStatusPtr : p.waitStatusPtr = 0 := congrArg Control.waitStatusPtr same
      have waitChannel : p.waitChannel = (t.system.processes i).waitChannel := congrArg Control.waitChannel same
      have joinTid : p.joinTid = (t.system.processes i).joinTid := congrArg Control.joinTid same
      have joinStatusPtr : p.joinStatusPtr = (t.system.processes i).joinStatusPtr :=
        congrArg Control.joinStatusPtr same
      cases wait : t.wait i with
      | child pid =>
        rw [wait] at fits
        exact absurd clear fits.2.1
      | thread tid =>
        rw [wait] at fits
        exact ⟨waitPid,waitStatusPtr,waitChannel.trans fits.2.2.1,joinTid.trans fits.2.2.2.1,fits.2.2.2.2⟩
      | channel channel =>
        rw [wait] at fits
        exact ⟨waitPid,waitStatusPtr,waitChannel.trans fits.2.2.1,fits.2.2.2.1,
          joinTid.trans fits.2.2.2.2.1,joinStatusPtr.trans fits.2.2.2.2.2⟩
    · intro active
      rw [state] at active
      obtain ⟨_,_,c,d,e⟩ := kept.idle active
      exact idle_fields same rfl rfl c d e
  | terminated ends same frame =>
    exact kept_final (victim_ordinary sound ends) (.inl (congrArg Control.state same))
  | parentReleased ends announced waiting ordinary =>
    obtain ⟨_,_,_,joinTid,joinStatusPtr⟩ := announced_matches orderly kept announced waiting
    exact kept_idle ⟨rfl,rfl,rfl,joinTid,joinStatusPtr⟩ (by simp [releaseParent])
  | joinerReleased ends thread announced waiting ordinary joining =>
    obtain ⟨_,waitPid,waitStatusPtr,waitChannel⟩ :=
      joining_matches kept (sound.threads _ thread) waiting joining
    exact kept_idle ⟨waitPid,waitStatusPtr,waitChannel,rfl,rfl⟩ (by simp [releaseJoiner])
  | woken nonzero ordinary waiting asleep =>
    obtain ⟨_,waitPid,waitStatusPtr,joinTid,joinStatusPtr⟩ := sleeping_matches kept nonzero waiting asleep
    exact kept_idle ⟨waitPid,waitStatusPtr,rfl,joinTid,joinStatusPtr⟩ (by simp)
  | waits caller ordinary nonnull blocked => simp [blocked,caller] at quiet
  | joins caller positive nonnull blocked => simp [blocked,caller] at quiet
  | sleeps caller ordinary nonzero blocked => simp [blocked,caller] at quiet
  | reaped reaps dead waits =>
    exact kept_idle (clearProcess_idle _) (by simp [clearProcess])
  | stopped target same frame =>
    exact kept_final (killTarget_found target).1 (.inr (.inr (congrArg Control.state same)))
  | continued target paused same frame =>
    have idle := (orderly i).1 (by simpa [continues] using target) paused
    refine kept_idle (idle_state same idle) ?_
    simp [show p.state = .ready from congrArg Control.state same]

end Step

theorem waitpid_record {s : System} {pid statusPtr : Nat} {i : Slot} (caller : currentLocal s 0 = some i)
    (blocked : blocks s (.waitpid pid statusPtr) = true) :
    i ≠ bootstrap ∧ statusPtr ≠ 0 ∧ (step s (.waitpid pid statusPtr)).processes i = {s.processes i with
      waitPid := pid,waitStatusPtr := statusPtr,waitChannel := 0,state := .waiting} := by
  simp only [blocks,caller,Bool.and_eq_true,decide_eq_true_eq,Option.isNone_iff_eq_none] at blocked
  obtain ⟨⟨⟨ordinary,nonnull⟩,none⟩,parent⟩ := blocked
  refine ⟨ordinary,nonnull,?_⟩
  simp only [step,processWaitpid,caller]
  rw [if_neg (by simp [ordinary,nonnull])]
  simp [none,parent]

theorem joinThread_record {s : System} {tid statusPtr : Nat} {i : Slot} (caller : currentLocal s 0 = some i)
    (blocked : blocks s (.joinThread tid statusPtr) = true) :
    tid ≠ 0 ∧ (step s (.joinThread tid statusPtr)).processes i = {s.processes i with
      joinTid := tid,joinStatusPtr := statusPtr,state := .waiting} := by
  simp only [blocks,caller,Bool.and_eq_true,decide_eq_true_eq,Bool.not_eq_true',Option.any_eq_true] at blocked
  obtain ⟨⟨⟨process,positive⟩,nonnull⟩,target,found,running⟩ := blocked
  refine ⟨positive,?_⟩
  simp only [step,processJoinThread,caller]
  rw [if_neg (by simp [process,positive,nonnull])]
  simp only [found]
  rw [if_neg running]
  simp

theorem sleepOn_record {s : System} {channel : Nat} {i : Slot} (caller : currentLocal s 0 = some i)
    (blocked : blocks s (.sleepOn channel) = true) :
    i ≠ bootstrap ∧ wrap channel ≠ 0 ∧ (step s (.sleepOn channel)).processes i =
      {s.processes i with waitChannel := wrap channel,state := .waiting} := by
  simp only [blocks,caller,Bool.and_eq_true,decide_eq_true_eq] at blocked
  obtain ⟨⟨ordinary,nonzero⟩,taken⟩ := blocked
  refine ⟨ordinary,nonzero,?_⟩
  simp only [step,processSleepOn,caller]
  rw [if_neg nonzero,if_neg (by simp [ordinary,taken])]
  simp

theorem kept_blocked {s : System} {call : Call} {i : Slot} (orderly : Orderly s call)
    (caller : currentLocal s 0 = some i) (blocked : blocks s call = true) :
    Kept ((step s call).processes i) i (waitOf call) := by
  have clear := (orderly i).2.2 caller
  cases call with
  | waitpid pid statusPtr =>
    obtain ⟨ordinary,nonnull,record⟩ := waitpid_record caller blocked
    simp only [conflicts,blocked,Bool.true_and,Bool.or_eq_false_iff,decide_eq_false_iff_not,ne_eq,
      not_not] at clear
    rw [record]
    refine ⟨fun _ => ⟨⟨rfl,nonnull,rfl,clear.1,clear.2⟩,ordinary⟩,?_⟩
    simp [ordinary]
  | joinThread tid statusPtr =>
    obtain ⟨positive,record⟩ := joinThread_record caller blocked
    simp only [conflicts,blocked,Bool.true_and,Bool.or_eq_false_iff,decide_eq_false_iff_not,ne_eq,
      not_not] at clear
    obtain ⟨⟨⟨ordinary,waitPid⟩,waitStatusPtr⟩,waitChannel⟩ := clear
    rw [record]
    refine ⟨fun _ => ⟨⟨waitPid,waitStatusPtr,waitChannel,rfl,positive⟩,ordinary⟩,?_⟩
    simp [ordinary]
  | sleepOn channel =>
    obtain ⟨ordinary,nonzero,record⟩ := sleepOn_record caller blocked
    simp only [conflicts,blocked,Bool.true_and,Bool.or_eq_false_iff,decide_eq_false_iff_not,ne_eq,
      not_not] at clear
    obtain ⟨⟨⟨waitPid,waitStatusPtr⟩,joinTid⟩,joinStatusPtr⟩ := clear
    rw [record]
    refine ⟨fun _ => ⟨⟨waitPid,waitStatusPtr,rfl,nonzero,joinTid,joinStatusPtr⟩,ordinary⟩,?_⟩
    simp [ordinary]
  | _ => cases blocked

theorem kept_step {t : Waits} {call : Call} (sound : Sound t.system) (orderly : Orderly t.system call)
    {i : Slot} (kept : Kept (t.system.processes i) i (t.wait i)) :
    Kept ((waitStep t call).system.processes i) i ((waitStep t call).wait i) := by
  by_cases blocking : currentLocal t.system 0 = some i ∧ blocks t.system call = true
  · rw [wait_set blocking.1 blocking.2]
    exact kept_blocked orderly blocking.1 blocking.2
  · have quiet : blocks t.system call = false ∨ currentLocal t.system 0 ≠ some i := by
      by_cases caller : currentLocal t.system 0 = some i
      · exact .inl (by simpa [caller] using blocking)
      · exact .inr caller
    rw [wait_kept quiet]
    exact kept_effect sound orderly kept (step_effect t.system sound.counter call i) quiet

theorem waits_effect {t : Waits} {call : Call} {i : Slot} {p : Process} (sound : Sound t.system)
    (orderly : Orderly t.system call) (kept : Kept (t.system.processes i) i (t.wait i))
    (blocked : Blocked (t.system.processes i)) (effect : Effect t.system call i p) :
    Pends (t.system.processes i) p ∧ (p.savedFrame = (t.system.processes i).savedFrame ∨
        currentLocal t.system 0 = some i ∧ ∃ acquired frame, call = .schedule acquired frame) ∨
      Occurs t.system call (t.system.processes i) (t.wait i) ∨
      victim t.system call = some i ∨ ownAction t.system i call := by
  have state : (t.system.processes i).state = .waiting ∨ (t.system.processes i).state = .stopped :=
    blocked.imp id And.left
  cases effect with
  | kept same frame => exact .inl ⟨pends_congr same state,.inl frame⟩
  | @scheduled acquired frame _ _ change =>
    cases change with
    | kept same saved =>
      refine .inl ⟨pends_congr same state,?_⟩
      exact saved.symm.imp id fun caller => ⟨caller,acquired,frame,rfl⟩
    | dispatched ready same =>
      rcases ready with ready | idle
      · simp [ready] at state
      · rcases blocked with waiting | ⟨_,pending⟩
        · exact absurd idle (kept.waiting waiting).2
        · exact absurd (kept.idle (.inr (.inr idle))) pending
    | preempted caller running same => simp [running] at state
    | reaped caller dead pending cleared => simp [dead] at state
  | spawned free fresh => simp [free] at state
  | replaced caller ordinary same => exact .inr (.inr (.inr ⟨caller,trivial⟩))
  | terminated ends same frame => exact .inr (.inr (.inl ends))
  | @parentReleased _ child _ ends announced waiting ordinary parent matching =>
    obtain ⟨pid,wait,waitPid,_,_⟩ := announced_matches orderly kept announced waiting
    rw [wait]
    rw [waitPid] at matching
    exact .inr (.inl ⟨child,ends,parent.symm,matching.imp id Eq.symm⟩)
  | @joinerReleased _ child _ ends thread announced waiting ordinary joining =>
    obtain ⟨wait,_⟩ := joining_matches kept (sound.threads _ thread) waiting joining
    rw [wait]
    exact .inr (.inl ⟨child,ends,thread,rfl⟩)
  | @woken channel _ nonzero ordinary waiting asleep =>
    obtain ⟨wait,_⟩ := sleeping_matches kept nonzero waiting asleep
    rw [wait]
    exact .inr (.inl ⟨channel,rfl,rfl⟩)
  | waits caller ordinary nonnull blocking => exact .inr (.inr (.inr ⟨caller,blocking⟩))
  | joins caller positive nonnull blocking => exact .inr (.inr (.inr ⟨caller,blocking⟩))
  | sleeps caller ordinary nonzero blocking => exact .inr (.inr (.inr ⟨caller,blocking⟩))
  | reaped reaps dead waits => simp [dead] at state
  | stopped target same frame =>
    refine .inl ⟨⟨.inr (congrArg Control.state same),congrArg Control.waitPid same,
      congrArg Control.waitStatusPtr same,congrArg Control.waitChannel same,congrArg Control.joinTid same,
      congrArg Control.joinStatusPtr same⟩,.inl frame⟩
  | continued target paused same frame =>
    rcases blocked with waiting | ⟨_,pending⟩
    · simp [paused] at waiting
    · exact absurd ((orderly i).1 (by simpa [continues] using target) paused) pending

theorem boot_kept (s : System) (idle schedule : Nat) (i : Slot) :
    Kept ((boot s idle schedule).processes i) i ((waitBoot s idle schedule).wait i) := by
  have record := boot_record s idle schedule i
  split at record
  · refine kept_idle (idle_fields record rfl rfl rfl rfl rfl) ?_
    simp [show ((boot s idle schedule).processes i).state = .running from congrArg Control.state record]
  · refine kept_idle (idle_congr record (clearProcess_idle _)) ?_
    simp [show ((boot s idle schedule).processes i).state = .unused from congrArg Control.state record]

/-- In a run whose calls keep the kinds of waits apart, a blocked task leaves its wait
for the event it waits for only. -/
theorem blocked_until_event (s : System) (idle schedule : Nat) (calls : List Call) (call : Call)
    (orderly : Meets waitStep (fun t call => Orderly t.system call) (waitBoot s idle schedule)
      (calls ++ [call])) :
    WaitsOn (run waitStep (waitBoot s idle schedule) calls) call := by
  obtain ⟨before,last⟩ := (meets_append waitStep _ _ calls [call]).mp orderly
  have initial : Sound (waitBoot s idle schedule).system ∧
      ∀ i, Kept ((waitBoot s idle schedule).system.processes i) i ((waitBoot s idle schedule).wait i) :=
    ⟨boot_sound s idle schedule,boot_kept s idle schedule⟩
  have preserved (t : Waits) (call : Call)
      (holds : Sound t.system ∧ ∀ i, Kept (t.system.processes i) i (t.wait i))
      (orderly : Orderly t.system call) :
      Sound (waitStep t call).system ∧
        ∀ i, Kept ((waitStep t call).system.processes i) i ((waitStep t call).wait i) :=
    ⟨sound_step holds.1 call,fun i => kept_step holds.1 orderly (holds.2 i)⟩
  obtain ⟨sound,kept⟩ := before.invariant preserved initial
  intro i blocked
  exact waits_effect sound last.1 (kept i) blocked (step_effect _ sound.counter call i)

/-- The child goes to sleep on a channel, as for a message, and the parent runs. -/
def sleepingChild : List Call :=
  launch (boot blank 0x1000 0x2000) ++ [.fork zeroFrame] ++ yield ++ [.sleepOn 0x49504303] ++ yield ++ yield

/-- A wakeup on another channel leaves the child asleep. -/
theorem sleeping_child_waits :
    WaitsOn (run waitStep (waitBoot blank 0x1000 0x2000) sleepingChild) (.wakeup 0x49504302) :=
  blocked_until_event blank 0x1000 0x2000 sleepingChild (.wakeup 0x49504302) (by decide +kernel)

/-- A SIGCONT that makes a sleeping task READY is not the wakeup it waits for. -/
theorem continued_early {t : Waits} {pid channel : Nat} {i : Slot} (blocked : Blocked (t.system.processes i))
    (asleep : t.wait i = .channel channel)
    (ready : ((step t.system (.kill pid sigCont)).processes i).state = .ready) :
    ¬ WaitsOn t (.kill pid sigCont) := by
  intro waits
  rcases waits i blocked with ⟨pends,_⟩ | occurs | killed | own
  · have state := pends.state
    simp [ready] at state
  · rw [asleep] at occurs
    obtain ⟨channel,equal,_⟩ := occurs
    cases equal
  · simp [victim,sigCont,sigKill,sigTerm] at killed
  · simp [ownAction,blocks] at own

/-- SIGSTOP and SIGCONT make the sleeping child READY without a wakeup. -/
theorem sleeping_child_continued :
    ¬ ∀ (s : System) (idle schedule : Nat) (calls : List Call) (call : Call),
      WaitsOn (run waitStep (waitBoot s idle schedule) calls) call := by
  intro waits
  have stopped : ((run waitStep (waitBoot blank 0x1000 0x2000)
        (sleepingChild ++ [.kill 3 sigStop])).system.processes 2).state = .stopped ∧
      ¬ Idle ((run waitStep (waitBoot blank 0x1000 0x2000)
        (sleepingChild ++ [.kill 3 sigStop])).system.processes 2) := by decide +kernel
  have ready : ((step (run waitStep (waitBoot blank 0x1000 0x2000)
      (sleepingChild ++ [.kill 3 sigStop])).system (.kill 3 sigCont)).processes 2).state = .ready := by
    decide +kernel
  have asleep : (run waitStep (waitBoot blank 0x1000 0x2000)
      (sleepingChild ++ [.kill 3 sigStop])).wait 2 = .channel 0x49504303 := by decide +kernel
  exact continued_early (.inr stopped) asleep ready (waits blank 0x1000 0x2000 _ _)

end LionOS.Processes

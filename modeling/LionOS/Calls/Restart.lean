import LionOS.Calls.Completion

/-! What a blocked trap looks like when it is executed again. The registers that a task
goes to sleep with stay as they are until the scheduler resumes it. -/
namespace LionOS.Calls
open LionOS.Memory LionOS.Physical LionOS.Paging LionOS.Processes LionOS.Channels LionOS.Files LionOS.Exec
  LionOS.Library

/-- The calls that can end a task, made by an event. -/
def serviceCalls (k : Kernel) : Event → List Call
  | .interrupt env frame =>
    if frame.vector = 128 then trapCalls k frame
    else match faultCode k env frame with
      | some code => [.exit code]
      | none => []
  | _ => []

/-- The calls of an event on the boot CPU, up to the one of the scheduler. -/
inductive Handled (k : Kernel) : Event → List Call → Prop
  | quiet (event : Event) : Handled k event []
  | trap {env : Env} {frame : Frame} (vector : frame.vector = 128) :
      Handled k (.interrupt env frame) (trapCalls k frame)
  | fault {env : Env} {frame : Frame} {code : Nat} (other : frame.vector ≠ 128)
      (ends : faultCode k env frame = some code) : Handled k (.interrupt env frame) [.exit code]
  | input {env : Env} {frame : Frame} {calls : List Call} (wakes : ∀ call ∈ calls, ∃ channel, call = .wakeup channel) :
      Handled k (.interrupt env frame) calls
  | loaded {name : List Byte} {entry stack pd count : Nat} {pages vas : Nat → Nat} :
      Handled k (.runFile name) [.create entry stack pd pages vas count]
  | reaped {pid : Nat} : Handled k (.reapPid pid) [.reapPid pid]

/-- Where an event leads after its calls: the scheduler may follow. -/
def Settles (mid s' : System) : Prop :=
  Quiet mid s' ∨ ∃ acquired frame, Quiet (Processes.step mid (.schedule acquired frame)) s'

theorem goes_sound {s s' : System} {calls : List Call} (goes : Goes s calls s') (sound : Sound s) : Sound s' := by
  induction goes with
  | quiet same => exact same.sound sound
  | call same later ih => exact ih (sound_step (same.sound sound) _)

theorem Goes.trans {s t u : System} {first second : List Call} (goes : Goes s first t) (later : Goes t second u) :
    Goes s (first ++ second) u := by
  induction goes with
  | quiet same => exact later.before same
  | call same rest ih => exact .call same (ih later)

section Handling
variable {k k' : Kernel} {env : Env} {frame : Frame} {next : Resume}

theorem tick_settles (taken : k.tick 0 env.acquired frame = some (k',next)) : Settles k.sys k'.sys := by
  cases taken
  exact .inr ⟨env.acquired,frame,scheduleTick_quiet k.sys 0 env.acquired frame⟩

theorem mouseEventPush_goes (s : System) (mouse : Mouse) (event : MouseEvent) :
    ∃ calls : List Call, (∀ call ∈ calls, ∃ channel, call = .wakeup channel) ∧
      Goes s calls (mouseEventPush s mouse event).1 := by
  unfold mouseEventPush
  split
  · exact ⟨[],by simp,.quiet (.refl s)⟩
  dsimp only
  split
  · exact ⟨[],by simp,.quiet (.refl s)⟩
  · exact ⟨[.wakeup mouse.channel],by simp,.one (.refl s) (.refl _)⟩

theorem poll_goes (k : Kernel) (env : Env) :
    ∃ calls : List Call, (∀ call ∈ calls, ∃ channel, call = .wakeup channel) ∧ Goes k.sys calls (poll k env).sys := by
  unfold poll
  dsimp only
  generalize start : ({k with keyboard := env.keys.foldl pushChar k.keyboard} : Kernel) = first
  have same : k.sys = first.sys := by rw [← start]
  rw [same]
  clear start same
  induction env.events generalizing first with
  | nil => exact ⟨[],by simp,.quiet (.refl _)⟩
  | cons event rest ih =>
    obtain ⟨pushed,wakes,goes⟩ := mouseEventPush_goes first.sys first.mouse event
    obtain ⟨calls,wakes',later⟩ := ih {first with
      sys := (mouseEventPush first.sys first.mouse event).1
      mouse := (mouseEventPush first.sys first.mouse event).2}
    refine ⟨pushed ++ calls,?_,goes.trans later⟩
    intro call member
    rcases List.mem_append.mp member with early | late
    · exact wakes call early
    · exact wakes' call late

theorem syscallTrap_goes (taken : syscallTrap k 0 env frame = some (k',next)) :
    ∃ mid, Goes k.sys (trapCalls k frame) mid ∧ Settles mid k'.sys := by
  obtain ⟨k₁,value,⟨goes,_,_⟩,⟨⟨f,scheduled⟩,_⟩ | ⟨rfl,_⟩⟩ := syscallTrap_cases taken
  · have request : Quiet k₁.sys (processRequestReschedule k₁.sys) := .of_table rfl rfl rfl
    exact ⟨_,goes.after request,tick_settles scheduled⟩
  · exact ⟨_,goes,.inl (.refl _)⟩

theorem syscallTrap_handled (vector : frame.vector = 128) (taken : syscallTrap k 0 env frame = some (k',next)) :
    ∃ calls mid, Handled k (.interrupt env frame) calls ∧ Goes k.sys calls mid ∧ Settles mid k'.sys := by
  obtain ⟨mid,goes,settles⟩ := syscallTrap_goes taken
  exact ⟨_,mid,.trap vector,goes,settles⟩

theorem killedBy_handled {code : Nat} (other : frame.vector ≠ 128) (ends : faultCode k env frame = some code)
    (taken : killedBy k 0 env code frame = some (k',next)) :
    ∃ calls mid, Handled k (.interrupt env frame) calls ∧ Goes k.sys calls mid ∧ Settles mid k'.sys :=
  ⟨_,_,.fault other ends,.one (.refl _) (.refl _),tick_settles taken⟩

theorem interrupt_handled (taken : interruptDispatch k 0 env frame = some (k',next)) :
    ∃ calls mid, Handled k (.interrupt env frame) calls ∧ Goes k.sys calls mid ∧ Settles mid k'.sys := by
  have still : ∃ calls mid, Handled k (.interrupt env frame) calls ∧ Goes k.sys calls mid ∧ Settles mid k.sys :=
    ⟨[],k.sys,.quiet _,.quiet (.refl _),.inl (.refl _)⟩
  obtain ⟨calls,wakes,polled⟩ := poll_goes k env
  unfold interruptDispatch at taken
  dsimp only at taken
  split at taken
  next vector => exact syscallTrap_handled vector taken
  next other =>
    split at taken
    · exact ⟨calls,_,.input wakes,polled,tick_settles taken⟩
    split at taken
    · rw [if_neg (by simp)] at taken
      cases taken
      exact still
    split at taken
    · cases taken
      exact ⟨calls,_,.input wakes,polled,.inl (.refl _)⟩
    split at taken
    · cases taken
      exact still
    split at taken
    next fault =>
      unfold pageFault at taken
      split at taken
      next user =>
        have code : faultCode k env frame =
            if (resolvedFault k 0 env frame).isSome then none else some 139 := by
          rw [faultCode,if_pos ⟨by omega,user⟩,if_pos fault]
        split at taken
        next vm resolved =>
          cases taken
          exact ⟨[],_,.quiet _,.quiet (withVm_quiet k vm),.inl (.refl _)⟩
        next unresolved =>
          rw [unresolved] at code
          exact killedBy_handled other code taken
      next => cases taken
    next fault =>
      split at taken
      next exception =>
        split at taken
        next user =>
          have code : faultCode k env frame = some (128 + frame.vector) := by
            rw [faultCode,if_pos ⟨exception,user⟩,if_neg fault]
          exact killedBy_handled other code taken
        next => cases taken
      next =>
        cases taken
        exact still

end Handling

theorem Kernel.step_handled (k : Kernel) (event : Event) :
    ∃ calls mid, Handled k event calls ∧ Goes k.sys calls mid ∧ Settles mid (k.step event).sys := by
  cases event with
  | interrupt env frame =>
    simp only [Kernel.step]
    cases taken : interruptDispatch k 0 env frame with
    | none => exact ⟨[],k.sys,.quiet _,.quiet (.refl _),.inl (.refl _)⟩
    | some result => exact interrupt_handled taken
  | store va value => exact ⟨[],_,.quiet _,.quiet (withVm_quiet k _),.inl (.refl _)⟩
  | runFile name =>
    simp only [Kernel.step,execRunFile]
    split
    next vm _ => exact ⟨[],_,.quiet _,.quiet (.memory k.sys vm),.inl (.refl _)⟩
    next vm p _ =>
      split
      next refused =>
        exact ⟨[],_,.quiet _,.quiet ((Quiet.memory k.sys vm).trans (.memory _ _)),.inl (.refl _)⟩
      next s' i created =>
        have made : s' = Processes.step {k.sys with vm} (.create p.entry p.stack p.pd (pageArray p.pages)
            (vaArray p.pages) p.pages.length) := by
          simp only [Processes.step,created,Option.map_some,Option.getD_some]
        rw [made]
        exact ⟨_,_,.loaded,.one (.memory k.sys vm) (.refl _),.inl (.refl _)⟩
  | reapPid pid => exact ⟨_,_,.reaped,.one (.refl _) (.refl _),.inl (.refl _)⟩

theorem settles_sound {mid s' : System} (settles : Settles mid s') (sound : Sound mid) : Sound s' := by
  rcases settles with same | ⟨acquired,frame,same⟩
  · exact same.sound sound
  · exact same.sound (sound_step sound _)

theorem kernel_sound (k : Kernel) (events : List Event) (sound : Sound k.sys) :
    Sound (run Kernel.step k events).sys := by
  apply @run_invariant _ _ _ (fun k : Kernel => Sound k.sys)
  · intro k event sound
    obtain ⟨calls,mid,_,goes,settles⟩ := k.step_handled event
    exact settles_sound settles (goes_sound goes sound)
  · exact sound

/-- A call delivers a termination to the task `c`. -/
def Delivers (s : System) (c : Slot) (call : Call) : Prop := reportsTo s call = some c ∨ joinedBy s call = some c

/-- The task `c` is asleep or READY, off the CPU, and the event delivers no termination to it. -/
structure Undisturbed (c : Slot) (k : Kernel) (event : Event) : Prop where
  away : currentLocal k.sys 0 ≠ some c
  dormant : (k.sys.processes c).state = .waiting ∨ (k.sys.processes c).state = .ready
  undelivered : ∀ call ∈ serviceCalls k event, ¬ Delivers k.sys c call

instance Undisturbed.decidable (c : Slot) (k : Kernel) (event : Event) : Decidable (Undisturbed c k event) :=
  have (call : Call) : Decidable (¬ Delivers k.sys c call) := inferInstanceAs (Decidable (¬ (_ ∨ _)))
  decidable_of_iff (currentLocal k.sys 0 ≠ some c ∧
      ((k.sys.processes c).state = .waiting ∨ (k.sys.processes c).state = .ready) ∧
        ∀ call ∈ serviceCalls k event, ¬ Delivers k.sys c call)
    ⟨fun ⟨away,dormant,undelivered⟩ => ⟨away,dormant,undelivered⟩,
      fun ⟨away,dormant,undelivered⟩ => ⟨away,dormant,undelivered⟩⟩

/-- The task `c` is off the CPU with the frame `f`. -/
structure Held (s : System) (c : Slot) (f : Frame) : Prop where
  away : currentLocal s 0 ≠ some c
  frame : (s.processes c).savedFrame = some f

theorem Held.quiet {s s' : System} {c : Slot} {f : Frame} (held : Held s c f) (same : Quiet s s') : Held s' c f := by
  obtain ⟨away,frame⟩ := held
  refine ⟨?_,?_⟩
  · rwa [same.currentLocal]
  · rwa [same.frame]

theorem held_effect {s : System} {call : Call} {c : Slot} {f : Frame} {p : Process} (held : Held s c f)
    (dormant : (s.processes c).state = .waiting ∨ (s.processes c).state = .ready)
    (serving : call.schedules = false) (undelivered : ¬ Delivers s c call) (effect : Effect s call c p) :
    p.savedFrame = some f := by
  obtain ⟨away,frame⟩ := held
  have taken : (s.processes c).state ≠ .unused := by
    rcases dormant with state | state
    · simp [state]
    · simp [state]
  cases effect with
  | kept same saved => exact saved.trans frame
  | scheduled change => cases serving
  | spawned free fresh => exact absurd free taken
  | replaced caller => exact absurd caller away
  | terminated ends same saved => exact saved.trans frame
  | parentReleased _ announced => exact absurd (.inl announced) undelivered
  | joinerReleased _ _ announced => exact absurd (.inr announced) undelivered
  | woken => exact frame
  | waits caller => exact absurd caller away
  | joins caller => exact absurd caller away
  | sleeps caller => exact absurd caller away
  | reaped reaps dead => rcases dormant with state | state <;> simp [state] at dead
  | stopped target same saved => exact saved.trans frame
  | continued target paused same saved => exact saved.trans frame

theorem held_step {s : System} {call : Call} {c : Slot} {f : Frame} (sound : Sound s) (held : Held s c f)
    (dormant : (s.processes c).state = .waiting ∨ (s.processes c).state = .ready)
    (serving : call.schedules = false) (undelivered : ¬ Delivers s c call) : Held (step s call) c f := by
  refine ⟨?_,held_effect held dormant serving undelivered (step_effect s sound.counter call c)⟩
  rw [currentLocal,step_current s sound.counter call]
  · exact held.away
  · intro acquired frame scheduled
    rw [scheduled] at serving
    cases serving

theorem wakeup_undelivered (s : System) (c : Slot) (channel : Nat) : ¬ Delivers s c (.wakeup channel) := by
  rintro (told | told)
  · cases told
  · cases told

theorem wakeup_dormant {s : System} {c : Slot} (channel : Nat) (sound : Sound s)
    (dormant : (s.processes c).state = .waiting ∨ (s.processes c).state = .ready) :
    ((step s (.wakeup channel)).processes c).state = .waiting ∨
      ((step s (.wakeup channel)).processes c).state = .ready := by
  have effect := step_effect s sound.counter (.wakeup channel) c
  generalize (step s (.wakeup channel)).processes c = p at effect
  cases effect with
  | kept same frame =>
    rw [control_state same]
    exact dormant
  | spawned free fresh => exact .inr fresh.ready
  | terminated ends => cases ends
  | parentReleased _ announced => exact .inr rfl
  | joinerReleased _ _ announced => exact .inr rfl
  | woken => exact .inr rfl
  | reaped reaps => cases reaps

theorem held_wakeups {s s' : System} {calls : List Call} {c : Slot} {f : Frame} (goes : Goes s calls s')
    (wakes : ∀ call ∈ calls, ∃ channel, call = .wakeup channel) (sound : Sound s) (held : Held s c f)
    (dormant : (s.processes c).state = .waiting ∨ (s.processes c).state = .ready) : Held s' c f := by
  induction goes with
  | quiet same => exact held.quiet same
  | @call s s₁ s' call rest same later ih =>
    obtain ⟨channel,rfl⟩ := wakes call (by simp)
    have sound := same.sound sound
    rw [← same.state] at dormant
    apply ih
    · exact fun call member => wakes call (by simp [member])
    · exact sound_step sound _
    · exact held_step sound (held.quiet same) dormant rfl (wakeup_undelivered _ _ channel)
    · exact wakeup_dormant channel sound dormant

theorem held_one {s s' : System} {call : Call} {c : Slot} {f : Frame} (goes : Goes s [call] s')
    (serving : call.schedules = false) (undelivered : ¬ Delivers s c call) (sound : Sound s) (held : Held s c f)
    (dormant : (s.processes c).state = .waiting ∨ (s.processes c).state = .ready) : Held s' c f := by
  cases goes with
  | call before later =>
    cases later with
    | quiet after =>
      rw [Delivers,← before.reportsTo,← before.joinedBy] at undelivered
      rw [← before.state] at dormant
      exact (held_step (before.sound sound) (held.quiet before) dormant serving undelivered).quiet after

theorem Shape.held {k : Kernel} {frame : Frame} {calls : List Call} {s' : System} {c : Slot} {f : Frame}
    (shape : Shape k frame calls) (goes : Goes k.sys calls s') (sound : Sound k.sys) (held : Held k.sys c f)
    (dormant : (k.sys.processes c).state = .waiting ∨ (k.sys.processes c).state = .ready)
    (undelivered : ∀ call ∈ calls, ¬ Delivers k.sys c call) : Held s' c f := by
  cases shape with
  | none whole =>
    cases goes with
    | quiet same => exact held.quiet same
  | one serving whole exits execs => exact held_one goes serving (undelivered _ (by simp)) sound held dormant
  | @woken first second whole => exact held_wakeups goes (by simp) sound held dormant
  | @slept first channel part number =>
    cases goes with
    | call before later =>
      have sound := before.sound sound
      rw [← before.state] at dormant
      have woken := held_step sound (held.quiet before) dormant rfl (wakeup_undelivered _ c first)
      refine held_one later rfl ?_ (sound_step sound _) woken (wakeup_dormant first sound dormant)
      rintro (told | told)
      · cases told
      · cases told

theorem Handled.held {k : Kernel} {event : Event} {calls : List Call} {s' : System} {c : Slot} {f : Frame}
    (handled : Handled k event calls) (goes : Goes k.sys calls s') (sound : Sound k.sys) (held : Held k.sys c f)
    (calm : Undisturbed c k event) : Held s' c f := by
  obtain ⟨_,dormant,undelivered⟩ := calm
  cases handled with
  | quiet =>
    cases goes with
    | quiet same => exact held.quiet same
  | @trap env frame vector =>
    rw [serviceCalls,if_pos vector] at undelivered
    exact (trapCalls_shape k frame).held goes sound held dormant undelivered
  | fault other ends =>
    rw [serviceCalls,if_neg other,ends] at undelivered
    exact held_one goes rfl (undelivered _ (by simp)) sound held dormant
  | input wakes => exact held_wakeups goes wakes sound held dormant
  | loaded =>
    refine held_one goes rfl ?_ sound held dormant
    rintro (told | told)
    · cases told
    · cases told
  | reaped =>
    refine held_one goes rfl ?_ sound held dormant
    rintro (told | told)
    · cases told
    · cases told

/-- An undisturbed task keeps its frame until the scheduler has given it the CPU, that
moment included. -/
theorem held_event {k : Kernel} {event : Event} {c : Slot} {f : Frame} (sound : Sound k.sys)
    (held : Held k.sys c f) (calm : Undisturbed c k event) :
    ((k.step event).sys.processes c).state = .unused ∨ ((k.step event).sys.processes c).savedFrame = some f := by
  obtain ⟨calls,mid,handled,goes,settles⟩ := k.step_handled event
  have kept := handled.held goes sound held calm
  rcases settles with same | ⟨acquired,frame,same⟩
  · exact .inr ((same.frame c).trans kept.frame)
  · rw [same.state,same.frame]
    cases acquired with
    | false => exact .inr kept.frame
    | true =>
      have saved := processSchedule_frame mid 0 frame c
      rw [if_neg kept.away,kept.frame] at saved
      exact saved

/-- The frame that a blocked trap leaves its caller with: EAX holds the result and the
instruction pointer is back on the trap. -/
def rewound (frame : Frame) : Frame :=
  {frame with eax := toU32 waitBlocked,eip := if frame.eip ≥ 2 then frame.eip - 2 else frame.eip}

theorem Shape.serving {k : Kernel} {frame : Frame} {calls : List Call} (shape : Shape k frame calls) :
    ∀ call ∈ calls, call.schedules = false := by
  cases shape with
  | none => simp
  | one serving => simpa using serving
  | woken => simp [Call.schedules]
  | slept => simp [Call.schedules]

theorem goes_current {s s' : System} {calls : List Call} (goes : Goes s calls s') (sound : Sound s)
    (serving : ∀ call ∈ calls, call.schedules = false) : currentLocal s' 0 = currentLocal s 0 := by
  induction goes with
  | quiet same => exact same.currentLocal 0
  | @call s s₁ s' call rest same later ih =>
    have sound := same.sound sound
    have stays : currentLocal (step s₁ call) 0 = currentLocal s₁ 0 := by
      rw [currentLocal,currentLocal,step_current s₁ sound.counter call]
      intro acquired frame scheduled
      have other := serving call (by simp)
      rw [scheduled] at other
      cases other
    rw [ih (sound_step sound call) (fun call member => serving call (by simp [member])),stays]
    exact same.currentLocal 0

section Restarts
variable {k k' : Kernel} {env : Env} {frame : Frame} {next : Resume} {c : Slot}

theorem reschedule_saved (caller : currentLocal k.sys 0 = some c)
    (taken : k.reschedule 0 env.acquired frame = some (k',next)) (away : currentLocal k'.sys 0 ≠ some c)
    (alive : (k'.sys.processes c).state ≠ .unused) : (k'.sys.processes c).savedFrame = some frame := by
  have final : k'.sys = (scheduleTick (processRequestReschedule k.sys) 0 env.acquired frame).1 := by
    cases taken
    rfl
  have quiet := scheduleTick_quiet (processRequestReschedule k.sys) 0 env.acquired frame
  have before : currentLocal (processRequestReschedule k.sys) 0 = some c := caller
  rw [final,quiet.currentLocal] at away
  rw [final,quiet.state] at alive
  rw [final,quiet.frame]
  cases lock : env.acquired with
  | false =>
    rw [lock] at away
    exact absurd caller away
  | true =>
    rw [lock] at alive
    rcases processSchedule_frame (processRequestReschedule k.sys) 0 frame c with unused | saved
    · exact absurd unused alive
    · rwa [if_pos before] at saved

theorem syscallTrap_saved (sound : Sound k.sys) (number : restartable frame.eax = true)
    (caller : currentLocal k.sys 0 = some c) (taken : syscallTrap k 0 env frame = some (k',next))
    (away : currentLocal k'.sys 0 ≠ some c) (alive : (k'.sys.processes c).state ≠ .unused) :
    (k'.sys.processes c).savedFrame = some (rewound frame) := by
  have restarts : frame.eax = 33 ∨ frame.eax = 43 ∨ frame.eax = 40 ∨ frame.eax = 41 := by
    simpa [restartable,sysMouseReadNumber,sysIpcRecvBlockingNumber,sysPipeReadNumber,sysPipeWriteNumber] using number
  have fork : frame.eax ≠ sysForkNumber := by
    unfold sysForkNumber
    omega
  have exec : frame.eax ≠ sysExecNumber := by
    unfold sysExecNumber
    omega
  have leaves : ¬ (frame.eax = sysYieldNumber ∨ frame.eax = sysExitNumber ∨ frame.eax = sysThreadExitNumber) := by
    unfold sysYieldNumber sysExitNumber sysThreadExitNumber
    omega
  unfold syscallTrap at taken
  dsimp only at taken
  rw [if_neg fork] at taken
  split at taken
  · cases taken
  next k₁ value served =>
    have agrees := syscallDispatch_agrees fork served
    have current := goes_current agrees.goes sound (trapCalls_shape k frame).serving
    rw [caller] at current
    rw [if_neg (fun program => exec program.1)] at taken
    by_cases blocked : value = toU32 waitBlocked
    · rw [if_pos blocked,number,Bool.true_and,blocked] at taken
      have saved := reschedule_saved current taken away alive
      rw [saved]
      unfold rewound
      by_cases rewinds : frame.eip ≥ 2
      · simp [rewinds]
      · simp [rewinds]
    · rw [if_neg blocked,if_neg leaves] at taken
      cases taken
      exact absurd current away

theorem tick_resumed {f : Frame} (taken : k.tick 0 env.acquired frame = some (k',.saved c (some f))) :
    (k'.sys.processes c).state = .running ∧ (k'.sys.processes c).savedFrame = some f := by
  simp only [Kernel.tick,Option.some.injEq,Prod.mk.injEq] at taken
  obtain ⟨same,result⟩ := taken
  have final : k'.sys = (scheduleTick k.sys 0 env.acquired frame).1 := by rw [← same]
  have quiet := scheduleTick_quiet k.sys 0 env.acquired frame
  rw [final,quiet.state,quiet.frame]
  apply processSchedule_resumed
  unfold scheduleTick at result
  cases scheduled : processSchedule k.sys 0 env.acquired frame with
  | mk s' next =>
    rw [scheduled] at result
    dsimp only at result ⊢
    split at result
    · cases result
    · exact result

theorem interrupt_resumed {f : Frame} (sound : Sound k.sys) (away : currentLocal k.sys 0 ≠ some c)
    (taken : interruptDispatch k 0 env frame = some (k',.saved c (some f))) :
    (k'.sys.processes c).state = .running ∧ (k'.sys.processes c).savedFrame = some f := by
  unfold interruptDispatch at taken
  dsimp only at taken
  split at taken
  next trap =>
    obtain ⟨k₁,value,⟨goes,_,_⟩,⟨⟨f',scheduled⟩,_⟩ | ⟨rfl,_,⟨f',own⟩ | ⟨d,saved,current,same⟩⟩⟩ :=
      syscallTrap_cases taken
    · exact tick_resumed scheduled
    · cases own
    · cases same
      rw [goes_current goes sound (trapCalls_shape k frame).serving] at current
      exact absurd current away
  split at taken
  · exact tick_resumed taken
  split at taken
  · rw [if_neg (by simp)] at taken
    cases taken
  split at taken
  · cases taken
  split at taken
  · cases taken
  split at taken
  · unfold pageFault at taken
    split at taken
    · split at taken
      · cases taken
      · exact tick_resumed taken
    · cases taken
  split at taken
  · split at taken
    · exact tick_resumed taken
    · cases taken
  · cases taken

/-- The registers of a trap that is executed again: the instruction at EIP is the trap. -/
def repeated (f : Frame) : Frame := {f with vector := 128,eip := f.eip + 2}

/-- The trap of `f` carries the number and the arguments of the trap of `frame`. -/
def SameCall (frame f : Frame) : Prop :=
  f.eax = frame.eax ∧ f.ebx = frame.ebx ∧ f.ecx = frame.ecx ∧ f.edx = frame.edx ∧ f.esi = frame.esi ∧
    f.edi = frame.edi

/-- The number of the trap that is executed again belongs to no system call. -/
theorem rewound_value (k : Kernel) (env : Env) (frame : Frame) :
    interruptDispatch k 0 env (repeated (rewound frame)) =
      some (k,.own {repeated (rewound frame) with eax := syscallErr}) := by
  have vector : (repeated (rewound frame)).vector = 128 := rfl
  have number : (repeated (rewound frame)).eax = 0xFFFFFFFE := by
    show toU32 waitBlocked = _
    decide
  generalize repeated (rewound frame) = f at vector number
  have unknown : syscallOf f.eax = none := by
    rw [number]
    apply List.getElem?_eq_none
    decide
  have refused : syscallDispatch k 0 f.eax f.ebx f.ecx f.edx f.esi f.edi = some (k,syscallErr) := by
    rw [syscallDispatch,unknown]
    rfl
  have error : syscallErr ≠ toU32 waitBlocked := by decide
  rw [interruptDispatch,if_pos vector,syscallTrap]
  dsimp only
  rw [if_neg (by rw [number]; decide),refused]
  dsimp only
  rw [if_neg (by simp),if_neg error,if_neg (by rw [number]; decide)]

end Restarts

theorem held_run {k : Kernel} {c : Slot} {f : Frame} {events : List Event} {last : Event} (sound : Sound k.sys)
    (held : Held k.sys c f) (calm : Meets Kernel.step (Undisturbed c) k (events ++ [last])) :
    Held (run Kernel.step k events).sys c f ∧ Undisturbed c (run Kernel.step k events) last := by
  induction events generalizing k with
  | nil => exact ⟨held,calm.1⟩
  | cons event rest ih =>
    obtain ⟨first,later⟩ := calm
    have following : ∃ event', Undisturbed c (k.step event) event' := by
      cases rest with
      | nil => exact ⟨_,later.1⟩
      | cons event' rest => exact ⟨event',later.1⟩
    obtain ⟨event',next⟩ := following
    apply ih
    · exact kernel_sound k [event] sound
    · refine ⟨next.away,?_⟩
      rcases held_event sound held first with unused | saved
      · rcases next.dormant with state | state
        · simp [unused] at state
        · simp [unused] at state
      · exact saved
    · exact later

/-- A task that sleeps in a trap and is resumed without a termination being delivered to it
gets the frame that it went to sleep with. -/
theorem restarted_frame {k k₁ k₂ : Kernel} {env env' : Env} {frame frame' f : Frame} {next : Resume} {c : Slot}
    {later : List Event} (sound : Sound k.sys) (trap : frame.vector = 128) (number : restartable frame.eax = true)
    (caller : currentLocal k.sys 0 = some c) (taken : interruptDispatch k 0 env frame = some (k₁,next))
    (asleep : currentLocal k₁.sys 0 ≠ some c ∧ (k₁.sys.processes c).state = .waiting)
    (calm : Meets Kernel.step (Undisturbed c) k₁ (later ++ [.interrupt env' frame']))
    (resumed : interruptDispatch (run Kernel.step k₁ later) 0 env' frame' = some (k₂,.saved c (some f))) :
    f = rewound frame := by
  have stepped : k.step (.interrupt env frame) = k₁ := by
    rw [Kernel.step,taken]
    rfl
  have sound₁ : Sound k₁.sys := by
    rw [← stepped]
    exact kernel_sound k [.interrupt env frame] sound
  rw [interruptDispatch,if_pos trap] at taken
  have saved := syscallTrap_saved sound number caller taken asleep.1 (by simp [asleep.2])
  have held := held_run sound₁ ⟨asleep.1,saved⟩ calm
  have sound₂ := kernel_sound k₁ later sound₁
  have final := interrupt_resumed sound₂ held.1.away resumed
  have kept := held_event sound₂ held.1 held.2
  rw [Kernel.step,resumed] at kept
  rcases kept with unused | kept
  · have running := final.1
    simp only [Option.map_some,Option.getD_some] at unused
    rw [running] at unused
    cases unused
  · simp only [Option.map_some,Option.getD_some] at kept
    rw [final.2] at kept
    exact Option.some.inj kept

/-- No call that put its caller to sleep is ever restarted as the same call: the number
is overwritten by the result, and what is executed again is refused in every state. -/
theorem restart_changes_call (k k₁ k₂ : Kernel) (s : System) (idle schedule : Nat) (history later : List Event)
    (env env' : Env) (frame frame' f : Frame) (next : Resume) (c : Slot) (booted : k.sys = boot s idle schedule)
    (trap : frame.vector = 128) (number : restartable frame.eax = true)
    (caller : currentLocal (run Kernel.step k history).sys 0 = some c)
    (taken : interruptDispatch (run Kernel.step k history) 0 env frame = some (k₁,next))
    (asleep : currentLocal k₁.sys 0 ≠ some c ∧ (k₁.sys.processes c).state = .waiting)
    (calm : Meets Kernel.step (Undisturbed c) k₁ (later ++ [.interrupt env' frame']))
    (resumed : interruptDispatch (run Kernel.step k₁ later) 0 env' frame' = some (k₂,.saved c (some f))) :
    ¬ SameCall frame f ∧ ∀ k env, interruptDispatch k 0 env (repeated f) =
      some (k,.own {repeated f with eax := syscallErr}) := by
  have start : Sound k.sys := by
    rw [booted]
    exact boot_sound s idle schedule
  have sound := kernel_sound k history start
  have same := restarted_frame sound trap number caller taken asleep calm resumed
  subst same
  refine ⟨?_,fun k env => rewound_value k env frame⟩
  rintro ⟨kept,_⟩
  have changed : (rewound frame).eax = 0xFFFFFFFE := by
    show toU32 waitBlocked = _
    decide
  rw [← kept,changed] at number
  exact absurd number (by decide)

def forked : List Event := started ++ [trap sysForkNumber 0 0 0,trap sysYieldNumber 0 0 0]

/-- The child in slot 2 waits for a message of up to 16 bytes. -/
def receiving : Frame := trapFrame sysIpcRecvBlockingNumber 0x10000000 16 0

def sent : List Event := [trap 20 3 0x10000000 4]

def yielding : Frame := trapFrame sysYieldNumber 0 0 0

/-- The child sleeps, is woken by the message and gets the CPU with the frame `f`. -/
structure Delivered (k₁ k₂ : Kernel) (next : Resume) (f : Frame) : Prop where
  taken : interruptDispatch (run Kernel.step bareKernel forked) 0 calm receiving = some (k₁,next)
  asleep : currentLocal k₁.sys 0 ≠ some 2 ∧ (k₁.sys.processes 2).state = .waiting
  woken : ((run Kernel.step k₁ sent).sys.processes 2).state = .ready
  undisturbed : Meets Kernel.step (Undisturbed 2) k₁ (sent ++ [.interrupt calm yielding])
  resumed : interruptDispatch (run Kernel.step k₁ sent) 0 calm yielding = some (k₂,.saved 2 (some f))

def resumes (k : Kernel) (env : Env) (frame : Frame) (c : Slot) : Bool :=
  match interruptDispatch k 0 env frame with
  | some (_,.saved d (some _)) => decide (d = c)
  | _ => false

theorem resumes_saved {k : Kernel} {env : Env} {frame : Frame} {c : Slot} (gives : resumes k env frame c = true) :
    ∃ k' f, interruptDispatch k 0 env frame = some (k',.saved c (some f)) := by
  unfold resumes at gives
  split at gives
  next k' d f taken =>
    obtain rfl := of_decide_eq_true gives
    exact ⟨k',f,taken⟩
  · cases gives

theorem message_delivered : ∃ k₁ k₂ next f, Delivered k₁ k₂ next f := by
  have returns : (interruptDispatch (run Kernel.step bareKernel forked) 0 calm receiving).isSome = true := by
    decide +kernel
  obtain ⟨⟨k₁,next⟩,taken⟩ := Option.isSome_iff_exists.mp returns
  have reached : run Kernel.step bareKernel (forked ++ [.interrupt calm receiving]) = k₁ := by
    rw [run_append,run_cons,run_nil,Kernel.step,taken]
    rfl
  have gives : resumes (run Kernel.step (run Kernel.step bareKernel (forked ++ [.interrupt calm receiving])) sent)
      calm yielding 2 = true := by decide +kernel
  have asleep : currentLocal (run Kernel.step bareKernel (forked ++ [.interrupt calm receiving])).sys 0 ≠ some 2 ∧
      ((run Kernel.step bareKernel (forked ++ [.interrupt calm receiving])).sys.processes 2).state = .waiting := by
    decide +kernel
  have woken : ((run Kernel.step (run Kernel.step bareKernel (forked ++ [.interrupt calm receiving]))
      sent).sys.processes 2).state = .ready := by decide +kernel
  have undisturbed : Meets Kernel.step (Undisturbed 2) (run Kernel.step bareKernel
      (forked ++ [.interrupt calm receiving])) (sent ++ [.interrupt calm yielding]) := by decide +kernel
  rw [reached] at gives asleep woken undisturbed
  obtain ⟨k₂,f,resumed⟩ := resumes_saved gives
  exact ⟨k₁,k₂,next,f,taken,asleep,woken,undisturbed,resumed⟩

theorem receive_repeated_wrong : ∃ k₁ k₂ next f, Delivered k₁ k₂ next f ∧ ¬ SameCall receiving f := by
  obtain ⟨k₁,k₂,next,f,delivered⟩ := message_delivered
  have changed := restart_changes_call bareKernel k₁ k₂ blank 0x1000 0x2000 forked sent calm calm receiving
    yielding f next 2 rfl rfl rfl (by decide +kernel) delivered.taken delivered.asleep delivered.undisturbed
    delivered.resumed
  exact ⟨k₁,k₂,next,f,delivered,changed.1⟩

/-- A message wakes its receiver, which then executes another trap. -/
theorem receive_not_restarted :
    ¬ ∀ (k k₁ k₂ : Kernel) (s : System) (idle schedule : Nat) (history later : List Event) (env env' : Env)
      (frame frame' f : Frame) (next : Resume) (c : Slot), k.sys = boot s idle schedule → frame.vector = 128 →
        restartable frame.eax = true → currentLocal (run Kernel.step k history).sys 0 = some c →
          interruptDispatch (run Kernel.step k history) 0 env frame = some (k₁,next) →
            currentLocal k₁.sys 0 ≠ some c ∧ (k₁.sys.processes c).state = .waiting →
              Meets Kernel.step (Undisturbed c) k₁ (later ++ [.interrupt env' frame']) →
                interruptDispatch (run Kernel.step k₁ later) 0 env' frame' = some (k₂,.saved c (some f)) →
                  SameCall frame f := by
  intro transparent
  obtain ⟨k₁,k₂,next,f,delivered⟩ := message_delivered
  have same := transparent bareKernel k₁ k₂ blank 0x1000 0x2000 forked sent calm calm receiving yielding f next 2
    rfl rfl rfl (by decide +kernel) delivered.taken delivered.asleep delivered.undisturbed delivered.resumed
  have rewinds := restarted_frame (kernel_sound bareKernel forked (boot_sound blank 0x1000 0x2000)) rfl rfl
    (by decide +kernel) delivered.taken delivered.asleep delivered.undisturbed delivered.resumed
  rw [rewinds] at same
  exact absurd same.1 (by decide)

end LionOS.Calls

import LionOS.Calls.Shapes
import LionOS.Files.WriteRead

/-! Which system calls complete. A trap gives its caller's frame back to user mode only
if the caller runs on, or else it has left the CPU. -/
namespace LionOS.Calls
open LionOS.Memory LionOS.Physical LionOS.Paging LionOS.Processes LionOS.Channels LionOS.Files LionOS.Exec
  LionOS.Library

/-- The task `c` on the CPU after a trap: asleep or ended, or else RUNNING. -/
structure Served (s : System) (c : Slot) (halted : Bool) : Prop where
  resting : Resting s
  current : currentLocal s 0 = some c
  state : if halted then (s.processes c).state = .waiting ∨ (s.processes c).state = .zombie
    else (s.processes c).state = .running

theorem Served.quiet {s s' : System} {c : Slot} {halted : Bool} (same : Quiet s s') (served : Served s c halted) :
    Served s' c halted := by
  obtain ⟨resting,current,state⟩ := served
  refine ⟨same.resting resting,?_,?_⟩
  · rwa [same.currentLocal]
  · rwa [same.state]

theorem Served.step {s : System} {c : Slot} {call : Call} (served : Served s c false) (clean : Clean s call)
    (serving : call.schedules = false) : Served (step s call) c (suspends s call) := by
  obtain ⟨resting,current,running⟩ := served
  have kept : currentLocal (Processes.step s call) 0 = currentLocal s 0 := by
    rw [currentLocal,currentLocal,step_current s resting.sound.counter call]
    intro acquired frame scheduled
    rw [scheduled] at serving
    cases serving
  exact ⟨step_resting resting clean serving,kept.trans current,step_caller resting.sound serving current running⟩

theorem wakeup_clean (s : System) (channel : Nat) : Clean s (.wakeup channel) :=
  fun _ => ⟨fun continued => (by cases continued),fun joined => (by cases joined)⟩

theorem sleepOn_clean (s : System) (channel : Nat) : Clean s (.sleepOn channel) :=
  fun _ => ⟨fun continued => (by cases continued),fun joined => (by cases joined)⟩

theorem wakeup_suspends (s : System) (channel : Nat) : suspends s (.wakeup channel) = false := by
  simp [suspends,blocks,victim]

theorem sleepOn_suspends (s : System) (channel : Nat) :
    suspends s (.sleepOn channel) = blocks s (.sleepOn channel) := by
  simp [suspends,victim]

theorem Shape.served {k : Kernel} {frame : Frame} {calls : List Call} {s : System} {c : Slot}
    (shape : Shape k frame calls) (goes : Goes k.sys calls s) (clean : ∀ call ∈ calls, Clean k.sys call)
    (start : Served k.sys c false) : Served s c (partialWrite k frame || suspended k.sys calls) := by
  cases shape with
  | none whole =>
    cases goes with
    | quiet same =>
      rw [whole]
      exact start.quiet same
  | @one call serving whole exits execs =>
    rw [whole,Bool.false_or]
    cases goes with
    | call before later =>
      cases later with
      | quiet after =>
        have first := start.quiet before
        have made := (first.step (before.clean (clean call (by simp))) serving).quiet after
        rw [before.suspends] at made
        exact made
  | @woken first second whole =>
    rw [whole]
    cases goes with
    | call before later =>
      cases later with
      | call between last =>
        cases last with
        | quiet after =>
          have once := ((start.quiet before).step (wakeup_clean _ first) rfl).quiet between
          rw [wakeup_suspends] at once
          have twice := (once.step (wakeup_clean _ second) rfl).quiet after
          rwa [wakeup_suspends] at twice
  | @slept first channel part number =>
    rw [part]
    cases goes with
    | call before later =>
      cases later with
      | call between last =>
        cases last with
        | quiet after =>
          have once := ((start.quiet before).step (wakeup_clean _ first) rfl).quiet between
          rw [wakeup_suspends] at once
          have twice := (once.step (sleepOn_clean _ channel) rfl).quiet after
          rw [sleepOn_suspends,blocks_quiet between] at twice
          simp only [Processes.step,blocks_wakeup,blocks_quiet before] at twice
          have two : suspended k.sys [.wakeup first,.sleepOn channel] = false := rfl
          rw [two,Bool.or_false]
          exact twice

section Traps
variable {k k' : Kernel} {env : Env} {frame : Frame} {next : Resume} {value : Nat}

/-- The value of a trap makes `interrupt_dispatch` schedule. -/
def Reschedules (frame : Frame) (value : Nat) : Prop :=
  ¬ (frame.eax = sysExecNumber ∧ value ≠ syscallErr) ∧
    (value = toU32 waitBlocked ∨ frame.eax = sysYieldNumber ∨ frame.eax = sysExitNumber ∨
      frame.eax = sysThreadExitNumber)

/-- The value of a trap tells whether its caller has been suspended. -/
structure Agrees (k : Kernel) (frame : Frame) (s' : System) (value : Nat) : Prop where
  goes : Goes k.sys (trapCalls k frame) s'
  stays : partialWrite k frame = true → ¬ Reschedules frame value
  leaves : suspended k.sys (trapCalls k frame) = true → Reschedules frame value

theorem Traced.agrees {s' : System} (shape : Shape k frame (trapCalls k frame))
    (traced : Traced k.sys (trapCalls k frame) s' value) : Agrees k frame s' value := by
  obtain ⟨goes,waits,splits⟩ := traced
  refine ⟨goes,?_,?_⟩
  · intro part
    generalize trapCalls k frame = calls at shape splits
    cases shape with
    | none whole => simp [part] at whole
    | one serving whole exits execs => simp [part] at whole
    | woken whole => simp [part] at whole
    | slept blocked number =>
      have value := splits _ _ rfl (blocked.symm.trans part)
      rintro ⟨_,blocked | yields | exits | exits⟩
      · exact value blocked
      all_goals
        rw [number] at *
        contradiction
  · intro halted
    generalize trapCalls k frame = calls at shape waits halted
    cases shape with
    | none whole => cases halted
    | woken whole => cases halted
    | slept blocked number => cases halted
    | @one call serving whole exits execs =>
      rw [suspended,suspends,Bool.or_eq_true] at halted
      rcases halted with blocked | ended
      · refine ⟨?_,.inl (waits call rfl blocked)⟩
        rintro ⟨exec,_⟩
        simp [(execs exec).1] at blocked
      · simp only [Option.any_eq_true,decide_eq_true_eq] at ended
        obtain ⟨c,caller,ended⟩ := ended
        cases call with
        | exit code =>
          have number := exits code rfl
          refine ⟨?_,.inr (.inr number)⟩
          rintro ⟨exec,_⟩
          exact (execs exec).2 code rfl
        | kill pid signal => exact absurd caller (killTarget_other (victim_signal ended).2)
        | _ => cases ended

theorem syscallDispatch_agrees (other : frame.eax ≠ sysForkNumber)
    (served : syscallDispatch k 0 frame.eax frame.ebx frame.ecx frame.edx frame.esi frame.edi = some (k',value)) :
    Agrees k frame k'.sys value := by
  have shape := trapCalls_shape k frame
  apply Traced.agrees shape
  unfold trapCalls
  rw [if_neg other]
  unfold syscallDispatch at served
  cases valid : syscallOf frame.eax with
  | none =>
    simp only [valid] at served ⊢
    cases served
    exact .quiet (.refl _)
  | some call =>
    simp only [valid] at served ⊢
    split at served
    next allowed =>
      rw [if_pos allowed]
      exact serve_traced served
    next refused =>
      rw [if_neg refused]
      cases served
      exact .quiet (.refl _)

theorem syscallTrap_cases (taken : syscallTrap k 0 env frame = some (k',next)) :
    ∃ k₁ value, Agrees k frame k₁.sys value ∧
      ((∃ f, k₁.reschedule 0 env.acquired f = some (k',next)) ∧ Reschedules frame value ∨
        k' = k₁ ∧ ¬ Reschedules frame value ∧
          ((∃ f, next = .own f) ∨ ∃ c saved, currentLocal k₁.sys 0 = some c ∧ next = .saved c (some saved))) := by
  unfold syscallTrap at taken
  dsimp only at taken
  split at taken
  next fork =>
    cases taken
    have calls : trapCalls k frame = [.fork frame] := by rw [trapCalls,if_pos fork]
    have stays : ¬ Reschedules frame 0 := by
      rintro ⟨_,blocked | same | same | same⟩
      · cases blocked
      all_goals
        rw [fork] at same
        cases same
    refine ⟨_,0,⟨?_,fun _ => stays,?_⟩,.inr ⟨rfl,stays,.inl ⟨_,rfl⟩⟩⟩
    · rw [calls]
      exact .one (.refl _) (.refl _)
    · rw [calls]
      simp [suspended,suspends,blocks,victim]
  next other =>
    split at taken
    · cases taken
    next k₁ value served =>
      refine ⟨k₁,value,syscallDispatch_agrees other served,?_⟩
      split at taken
      next exec =>
        right
        have stays : ¬ Reschedules frame value := fun leaves => leaves.1 exec
        split at taken
        · cases taken
          exact ⟨rfl,stays,.inl ⟨_,rfl⟩⟩
        next c caller =>
          split at taken
          · cases taken
            exact ⟨rfl,stays,.inl ⟨_,rfl⟩⟩
          next fresh saved =>
            cases taken
            exact ⟨rfl,stays,.inr ⟨c,fresh,caller,rfl⟩⟩
      next program =>
        split at taken
        next blocked => exact .inl ⟨⟨_,taken⟩,program,.inl blocked⟩
        next returned =>
          split at taken
          next leaves => exact .inl ⟨⟨_,taken⟩,program,.inr leaves⟩
          next stays =>
            cases taken
            refine .inr ⟨rfl,?_,.inl ⟨_,rfl⟩⟩
            rintro ⟨_,blocked | leaves⟩
            · exact returned blocked
            · exact stays leaves

end Traps

/-- `interrupt_dispatch` returned to the caller of a trap only if it is RUNNING and waits
on no channel. -/
def Completes (s s' : System) (next : Resume) : Prop :=
  ∀ c, currentLocal s 0 = some c → ((∃ f, next = .own f) ∨ ∃ saved, next = .saved c saved) →
    (s'.processes c).state = .running ∧ (s'.processes c).waitChannel = 0

/-- A trap that suspends its caller has not already transferred a part of the data, and
the scheduler gets its lock. -/
def Prompt (k : Kernel) (env : Env) (frame : Frame) : Prop :=
  partialWrite k frame = false ∧ (suspended k.sys (trapCalls k frame) = true → env.acquired = true)

theorem tssSetKernelStack_quiet (s : System) (cpu top : Nat) : Quiet s (tssSetKernelStack s cpu top) := by
  unfold tssSetKernelStack
  split
  · exact .of_table rfl rfl rfl
  · exact .refl s

theorem scheduleTick_quiet (s : System) (cpu : Nat) (acquired : Bool) (frame : Frame) :
    Quiet (processSchedule s cpu acquired frame).1 (scheduleTick s cpu acquired frame).1 := by
  unfold scheduleTick
  cases processSchedule s cpu acquired frame with
  | mk s' next =>
    dsimp only
    cases currentLocal s' cpu with
    | none =>
      split
      · exact .refl _
      · exact .refl _
    | some c =>
      split
      · exact tssSetKernelStack_quiet _ _ _
      · exact tssSetKernelStack_quiet _ _ _

theorem scheduleTick_resume (s : System) (cpu : Nat) (acquired : Bool) (frame : Frame) {next : Resume}
    (resumed : (processSchedule s cpu acquired frame).2 = next) (framed : ∀ i, next ≠ .saved i none) :
    (scheduleTick s cpu acquired frame).2 = next := by
  unfold scheduleTick
  cases scheduled : processSchedule s cpu acquired frame with
  | mk s' next' =>
    rw [scheduled] at resumed
    dsimp only at resumed ⊢
    subst resumed
    split
    next i => exact absurd rfl (framed i)
    · rfl

theorem Quiet.awake {s s' : System} (same : Quiet s s') (awake : Awake s) : Awake s' := by
  obtain ⟨resting,c,caller,running⟩ := awake
  refine ⟨same.resting resting,c,?_,?_⟩
  · rwa [same.currentLocal]
  · rwa [same.state]

theorem tick_awake {s : System} {c : Slot} {halted : Bool} (served : Served s c halted) (frame : Frame) :
    Awake (scheduleTick s 0 true frame).1 ∧
      ∀ d, ((∃ f, (scheduleTick s 0 true frame).2 = .own f) ∧ d = c ∨
          ∃ saved, (scheduleTick s 0 true frame).2 = .saved d saved) →
        currentLocal (scheduleTick s 0 true frame).1 0 = some d := by
  obtain ⟨resting,current,state⟩ := served
  have ended : (s.processes c).state = .running ∨ (s.processes c).state = .waiting ∨
      (s.processes c).state = .zombie := by
    cases halted with
    | false => exact .inl state
    | true => exact .inr state
  have quiet := scheduleTick_quiet s 0 true frame
  obtain ⟨awake,next,runs,resumed⟩ := schedule_awake resting frame current ended
  refine ⟨quiet.awake awake,?_⟩
  intro d given
  rw [quiet.currentLocal,runs]
  rcases resumed with ⟨own,same⟩ | ⟨saved,back⟩
  · have tick := scheduleTick_resume s 0 true frame own (by simp)
    rcases given with ⟨_,rfl⟩ | ⟨saved,other⟩
    · rw [same]
    · rw [tick] at other
      cases other
  · have tick := scheduleTick_resume s 0 true frame back (by simp)
    rcases given with ⟨⟨f,other⟩,_⟩ | ⟨_,other⟩
    · rw [tick] at other
      cases other
    · rw [tick] at other
      cases other
      rfl

theorem Served.awake {s : System} {c : Slot} (served : Served s c false) : Awake s :=
  ⟨served.resting,c,served.current,served.state⟩

theorem Served.complete {s s' : System} {c : Slot} {next : Resume} (served : Served s' c false)
    (caller : currentLocal s 0 = some c) : Completes s s' next := by
  intro d current _
  rw [caller] at current
  cases current
  exact served.awake.caller served.current

theorem Served.incomplete {s s' : System} {c : Slot} {next : Resume} (served : Served s' c true)
    (caller : currentLocal s 0 = some c) (own : (∃ f, next = .own f) ∨ ∃ saved, next = .saved c saved) :
    ¬ Completes s s' next := by
  intro completes
  have running := (completes c caller own).1
  rcases served.state with waiting | dead
  · simp [waiting] at running
  · simp [dead] at running

section Prompt
variable {k k' : Kernel} {env : Env} {frame : Frame} {next : Resume}

theorem trap_completes (awake : Awake k.sys) (clean : ∀ call ∈ trapCalls k frame, Clean k.sys call)
    (taken : syscallTrap k 0 env frame = some (k',next)) :
    (Completes k.sys k'.sys next ↔ Prompt k env frame) ∧ (Prompt k env frame → Awake k'.sys) := by
  obtain ⟨resting,c,caller,running⟩ := awake
  obtain ⟨k₁,value,⟨goes,stays,leaves⟩,ends⟩ := syscallTrap_cases taken
  have start : Served k.sys c false := ⟨resting,caller,running⟩
  have served := (trapCalls_shape k frame).served goes clean start
  rcases ends with ⟨⟨f,scheduled⟩,yields⟩ | ⟨rfl,remains,back⟩
  · have whole : partialWrite k frame = false := by
      cases part : partialWrite k frame with
      | false => rfl
      | true => exact absurd yields (stays part)
    rw [whole,Bool.false_or] at served
    have request : Quiet k₁.sys (processRequestReschedule k₁.sys) := .of_table rfl rfl rfl
    have served := served.quiet request
    unfold Kernel.reschedule Kernel.tick at scheduled
    dsimp only at scheduled
    cases scheduled
    cases acquired : env.acquired with
    | true =>
      have prompt : Prompt k env frame := ⟨whole,fun _ => acquired⟩
      obtain ⟨awake,owner⟩ := tick_awake served f
      refine ⟨⟨fun _ => prompt,fun _ => ?_⟩,fun _ => awake⟩
      intro d current given
      rw [caller] at current
      cases current
      exact awake.caller (owner c (given.imp (⟨·,rfl⟩) id))
    | false =>
      have quiet := scheduleTick_quiet (processRequestReschedule k₁.sys) 0 false f
      have own : (scheduleTick (processRequestReschedule k₁.sys) 0 false f).2 = .own f :=
        scheduleTick_resume _ 0 false f rfl (by simp)
      have served := served.quiet quiet
      cases halted : suspended k.sys (trapCalls k frame) with
      | true =>
        have late : ¬ Prompt k env frame := by
          rintro ⟨_,acquires⟩
          simp [acquires halted] at acquired
        rw [halted] at served
        exact ⟨⟨fun completes => (served.incomplete caller (.inl ⟨_,own⟩) completes).elim,
          fun prompt => absurd prompt late⟩,fun prompt => absurd prompt late⟩
      | false =>
        rw [halted] at served
        have prompt : Prompt k env frame := ⟨whole,by simp [halted]⟩
        have awake := served.awake
        exact ⟨⟨fun _ => prompt,fun _ => served.complete caller⟩,fun _ => awake⟩
  · have lasts : suspended k.sys (trapCalls k frame) = false := by
      cases halted : suspended k.sys (trapCalls k frame) with
      | false => rfl
      | true => exact absurd (leaves halted) remains
    rw [lasts,Bool.or_false] at served
    cases part : partialWrite k frame with
    | true =>
      have late : ¬ Prompt k env frame := fun prompt => by simp [prompt.1] at part
      rw [part] at served
      have own : (∃ f, next = .own f) ∨ ∃ saved, next = .saved c saved := by
        rcases back with own | ⟨d,saved,current,back⟩
        · exact .inl own
        · rw [served.current] at current
          cases current
          exact .inr ⟨_,back⟩
      exact ⟨⟨fun completes => (served.incomplete caller own completes).elim,
        fun prompt => absurd prompt late⟩,fun prompt => absurd prompt late⟩
    | false =>
      rw [part] at served
      have prompt : Prompt k env frame := ⟨part,by simp [lasts]⟩
      exact ⟨⟨fun _ => prompt,fun _ => served.complete caller⟩,fun _ => served.awake⟩

end Prompt

/-- The exit code of the program that an exception ends. -/
def faultCode (k : Kernel) (env : Env) (frame : Frame) : Option Nat :=
  if frame.vector < 32 ∧ userMode frame = true then
    if frame.vector = 14 then if (resolvedFault k 0 env frame).isSome then none else some 139
    else some (128 + frame.vector)
  else none

/-- A call that ends or suspends its caller hands the CPU over at once, and no task gets
READY with a channel to wait on. -/
def Orderly (k : Kernel) : Event → Prop
  | .interrupt env frame =>
    if frame.vector = 128 then Prompt k env frame ∧ ∀ call ∈ trapCalls k frame, Clean k.sys call
    else ∀ code, faultCode k env frame = some code →
      Clean k.sys (.exit code) ∧ (suspends k.sys (.exit code) = true → env.acquired = true)
  | _ => True

theorem tick_keeps {s : System} {c : Slot} {halted acquired : Bool} (served : Served s c halted)
    (frame : Frame) (hands : halted = true → acquired = true) : Awake (scheduleTick s 0 acquired frame).1 := by
  cases acquired with
  | true => exact (tick_awake served frame).1
  | false =>
    cases halted with
    | true => cases hands rfl
    | false => exact (served.quiet (scheduleTick_quiet s 0 false frame)).awake

theorem awake_step {s : System} {call : Call} (awake : Awake s) (clean : Clean s call)
    (serving : call.schedules = false) (runs : suspends s call = false) : Awake (step s call) := by
  obtain ⟨resting,c,caller,running⟩ := awake
  have start : Served s c false := ⟨resting,caller,running⟩
  have served := start.step clean serving
  rw [runs] at served
  exact served.awake

theorem mouseEventPush_awake {s : System} (awake : Awake s) (mouse : Mouse) (event : MouseEvent) :
    Awake (mouseEventPush s mouse event).1 := by
  unfold mouseEventPush
  split
  · exact awake
  dsimp only
  split
  · exact awake
  · exact awake_step awake (wakeup_clean s mouse.channel) rfl (wakeup_suspends s mouse.channel)

theorem poll_awake {k : Kernel} (awake : Awake k.sys) (env : Env) : Awake (poll k env).sys := by
  have pushes (k : Kernel) (event : MouseEvent) (awake : Awake k.sys) :
      Awake (mouseEventPush k.sys k.mouse event).1 := mouseEventPush_awake awake k.mouse event
  exact @run_invariant _ _ _ (fun k : Kernel => Awake k.sys) pushes
    {k with keyboard := env.keys.foldl pushChar k.keyboard} env.events awake

section Events
variable {k k' : Kernel} {env : Env} {frame : Frame} {next : Resume}

theorem Kernel.tick_awake {c : Slot} {halted : Bool} (served : Served k.sys c halted)
    (hands : halted = true → env.acquired = true)
    (taken : k.tick 0 env.acquired frame = some (k',next)) : Awake k'.sys := by
  cases taken
  exact tick_keeps served frame hands

theorem killedBy_awake (awake : Awake k.sys) {code : Nat} (clean : Clean k.sys (.exit code))
    (hands : suspends k.sys (.exit code) = true → env.acquired = true)
    (taken : killedBy k 0 env code frame = some (k',next)) : Awake k'.sys := by
  obtain ⟨resting,c,caller,running⟩ := awake
  have start : Served k.sys c false := ⟨resting,caller,running⟩
  have served := start.step clean rfl
  cases taken
  exact tick_keeps served frame hands

theorem interrupt_awake (awake : Awake k.sys) (other : frame.vector ≠ 128)
    (orderly : ∀ code, faultCode k env frame = some code →
      Clean k.sys (.exit code) ∧ (suspends k.sys (.exit code) = true → env.acquired = true))
    (taken : interruptDispatch k 0 env frame = some (k',next)) : Awake k'.sys := by
  have polled := poll_awake awake env
  unfold interruptDispatch at taken
  dsimp only at taken
  rw [if_neg other] at taken
  split at taken
  · obtain ⟨resting,c,caller,running⟩ := polled
    have start : Served (poll k env).sys c false := ⟨resting,caller,running⟩
    exact Kernel.tick_awake start (fun halted => by cases halted) taken
  split at taken
  · rw [if_neg (by simp)] at taken
    cases taken
    exact awake
  split at taken
  · cases taken
    exact polled
  split at taken
  · cases taken
    exact awake
  split at taken
  next fault =>
    unfold pageFault at taken
    split at taken
    next user =>
      have code : faultCode k env frame =
          if (resolvedFault k 0 env frame).isSome then none else some 139 := by
        rw [faultCode,if_pos ⟨by omega,user⟩,if_pos fault]
      split at taken
      next vm resolved =>
        cases taken
        exact (withVm_quiet k vm).awake awake
      next unresolved =>
        rw [unresolved] at code
        obtain ⟨clean,hands⟩ := orderly 139 code
        exact killedBy_awake awake clean hands taken
    next => cases taken
  next fault =>
    split at taken
    next exception =>
      split at taken
      next user =>
        have code : faultCode k env frame = some (128 + frame.vector) := by
          rw [faultCode,if_pos ⟨exception,user⟩,if_neg fault]
        obtain ⟨clean,hands⟩ := orderly _ code
        exact killedBy_awake awake clean hands taken
      next => cases taken
    next =>
      cases taken
      exact awake

theorem execRunFile_awake {s : System} (awake : Awake s) (ram : RamFs) (name : List Byte) :
    Awake (execRunFile s ram 0 name).1 := by
  unfold execRunFile
  split
  next vm _ => exact (Quiet.memory s vm).awake awake
  next vm p _ =>
    have loaded := (Quiet.memory s vm).awake awake
    dsimp only
    split
    next refused => exact (Quiet.memory _ _).awake loaded
    next s' i created =>
      have made : s' = step {s with vm} (.create p.entry p.stack p.pd (pageArray p.pages) (vaArray p.pages)
          p.pages.length) := by
        simp only [Processes.step,created,Option.map_some,Option.getD_some]
      rw [made]
      refine @awake_step _ (.create _ _ _ _ _ _) loaded ?_ rfl ?_
      · exact fun _ => ⟨fun continued => (by cases continued),fun joined => (by cases joined)⟩
      · simp [suspends,blocks,victim]

theorem step_awake (awake : Awake k.sys) (event : Event) (orderly : Orderly k event) :
    Awake (k.step event).sys := by
  cases event with
  | interrupt env frame =>
    simp only [Orderly] at orderly
    simp only [Kernel.step]
    cases taken : interruptDispatch k 0 env frame with
    | none => exact awake
    | some result =>
      obtain ⟨k',next⟩ := result
      by_cases trap : frame.vector = 128
      · rw [if_pos trap] at orderly
        rw [interruptDispatch,if_pos trap] at taken
        exact (trap_completes awake orderly.2 taken).2 orderly.1
      · rw [if_neg trap] at orderly
        exact interrupt_awake awake trap orderly taken
  | store va value => exact (withVm_quiet k _).awake awake
  | runFile name => exact execRunFile_awake awake k.ram name
  | reapPid pid =>
    refine @awake_step _ (.reapPid pid) awake ?_ rfl ?_
    · exact fun _ => ⟨fun continued => (by cases continued),fun joined => (by cases joined)⟩
    · simp [suspends,blocks,victim]

end Events

/-- After every orderly run from the boot, a trap completes exactly if it is prompt. -/
theorem call_completes (k k' : Kernel) (s : System) (idle schedule : Nat) (events : List Event)
    (env : Env) (frame : Frame) (next : Resume) (booted : k.sys = boot s idle schedule)
    (orderly : Meets Kernel.step Orderly k events) (trap : frame.vector = 128)
    (clean : ∀ call ∈ trapCalls (run Kernel.step k events) frame,
      Clean (run Kernel.step k events).sys call)
    (taken : interruptDispatch (run Kernel.step k events) 0 env frame = some (k',next)) :
    Completes (run Kernel.step k events).sys k'.sys next ↔ Prompt (run Kernel.step k events) env frame := by
  have start : Awake k.sys := by
    rw [booted]
    exact boot_awake s idle schedule
  have awake := @Meets.invariant _ _ _ _ (fun k : Kernel => Awake k.sys)
    (fun k event awake orderly => step_awake awake event orderly) k events start orderly
  rw [interruptDispatch,if_pos trap] at taken
  exact (trap_completes awake clean taken).1

instance Prompt.decidable (k : Kernel) (env : Env) (frame : Frame) : Decidable (Prompt k env frame) :=
  inferInstanceAs (Decidable (_ ∧ (_ → _)))

instance Orderly.decidable (k : Kernel) : ∀ event, Decidable (Orderly k event)
  | .interrupt env frame =>
    inferInstanceAs (Decidable (if frame.vector = 128 then _ ∧ _
      else ∀ code, faultCode k env frame = some code → _))
  | .store _ _ => isTrue trivial
  | .runFile _ => isTrue trivial
  | .reapPid _ => isTrue trivial

/-- An ELF image with one segment of zeros, a writable page at 0x10000000. -/
def tinyImage : List Byte :=
  [0x7F,0x45,0x4C,0x46,1,1,1,0,0,0,0,0,0,0,0,0,2,0,3,0] ++ bytes32 1 ++ bytes32 0x10000000 ++ bytes32 52 ++
    bytes32 0 ++ bytes32 0 ++ [52,0,32,0,1,0,0,0,0,0,0,0] ++ bytes32 1 ++ bytes32 0 ++ bytes32 0x10000000 ++
    bytes32 0 ++ bytes32 0 ++ bytes32 16 ++ bytes32 6 ++ bytes32 4096

/-- The kernel after the boot. -/
def bareKernel : Kernel where
  sys := boot blank 0x1000 0x2000
  ram := ⟨fun _ => tinyImage,fun _ => default,0⟩
  disk := bareStore.disk
  allocations := fun _ => default
  messages := fun _ => default
  pipes := fun _ => default
  keyboard := ⟨fun _ => 0,0,0⟩
  mouse := ⟨false,fun _ => default,0,0,0,0⟩
  net := ⟨fun _ => default,false,fun _ => 0⟩

def calm : Env := ⟨true,0,[],[]⟩

def trapFrame (number a0 a1 a2 : Nat) : Frame :=
  {zeroFrame with vector := 128,eax := number,ebx := a0,ecx := a1,edx := a2,eip := 0x10000002,cs := userCodeSel}

def trap (number a0 a1 a2 : Nat) : Event := .interrupt calm (trapFrame number a0 a1 a2)

def started : List Event :=
  [.runFile (ascii "hello.elf".toList),.interrupt calm {zeroFrame with vector := 32}]

def filled : List Event :=
  started ++ List.replicate 2 (trap 39 0x10000000 0x10000004 0) ++
    List.replicate 7 (trap sysPipeWriteNumber 3 0x10000000 128) ++ [trap sysPipeWriteNumber 3 0x10000000 1]

theorem receive_completes : ∃ k' next,
    interruptDispatch (run Kernel.step bareKernel started) 0 calm
        (trapFrame sysIpcRecvBlockingNumber 0x10000000 16 0) = some (k',next) ∧
      Completes (run Kernel.step bareKernel started).sys k'.sys next := by
  have returns : (interruptDispatch (run Kernel.step bareKernel started) 0 calm
      (trapFrame sysIpcRecvBlockingNumber 0x10000000 16 0)).isSome = true := by decide +kernel
  obtain ⟨⟨k',next⟩,taken⟩ := Option.isSome_iff_exists.mp returns
  have prompt : Prompt (run Kernel.step bareKernel started) calm
      (trapFrame sysIpcRecvBlockingNumber 0x10000000 16 0) := by decide +kernel
  refine ⟨k',next,taken,?_⟩
  exact (call_completes bareKernel k' blank 0x1000 0x2000 started calm
    (trapFrame sysIpcRecvBlockingNumber 0x10000000 16 0) next rfl (by decide +kernel) rfl
    (by decide +kernel) taken).mpr prompt

/-- The caller of a trap gets its own frame back and is WAITING. -/
def leftWaiting (k : Kernel) (env : Env) (frame : Frame) : Bool :=
  match interruptDispatch k 0 env frame, currentLocal k.sys 0 with
  | some (k',.own _), some c => decide ((k'.sys.processes c).state = .waiting)
  | _, _ => false

theorem leftWaiting_incomplete {k : Kernel} {env : Env} {frame : Frame} (waiting : leftWaiting k env frame = true) :
    ∃ k' next, interruptDispatch k 0 env frame = some (k',next) ∧ ¬ Completes k.sys k'.sys next := by
  unfold leftWaiting at waiting
  split at waiting
  next k' f c taken caller =>
    refine ⟨k',.own f,taken,?_⟩
    intro completes
    have running := (completes c caller (.inl ⟨f,rfl⟩)).1
    simp [running] at waiting
  · cases waiting

/-- A write of 128 bytes into the last 127 ends with its caller asleep. -/
theorem partial_write_sleeps :
    ¬ ∀ (k k' : Kernel) (s : System) (idle schedule : Nat) (events : List Event) (env : Env) (frame : Frame)
      (next : Resume), k.sys = boot s idle schedule → frame.vector = 128 →
        interruptDispatch (run Kernel.step k events) 0 env frame = some (k',next) →
          Completes (run Kernel.step k events).sys k'.sys next := by
  intro completes
  have waiting : leftWaiting (run Kernel.step bareKernel filled) calm
      (trapFrame sysPipeWriteNumber 3 0x10000000 128) = true := by decide +kernel
  obtain ⟨k',next,taken,incomplete⟩ := leftWaiting_incomplete waiting
  exact incomplete (completes bareKernel k' blank 0x1000 0x2000 filled calm _ next rfl rfl taken)

end LionOS.Calls

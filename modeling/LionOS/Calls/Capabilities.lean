import LionOS.Calls.Confinement
import LionOS.Calls.Restart
import LionOS.Processes.Traits

/-! Capabilities at work: a trap of a task that lacks one does nothing that needs it, fork
apart, and whatever tasks and traps there are, nobody has more than was granted. -/
namespace LionOS.Calls
open LionOS.Memory LionOS.Physical LionOS.Paging LionOS.Processes LionOS.Channels LionOS.Files LionOS.Exec
  LionOS.Library

/-- The calls that create, replace, wait for, join or signal a task. -/
def manages : Call → Bool
  | .create _ _ _ _ _ _ | .replace _ _ _ _ _ _ | .fork _ | .createKernelThread _ | .createUserThread _ => true
  | .waitpid _ _ | .joinThread _ _ | .kill _ _ => true
  | _ => false

section Traps
variable {k : Kernel} {frame : Frame}

theorem callsOf_own {a0 a1 a2 : Nat} {number : Syscall} {call : Call} (member : call ∈ callsOf k a0 a1 a2 number) :
    call.byTask = true ∧ (manages call = true → number.capability = some capProcess) := by
  have idle {given : Call} (own : given.byTask = true) (harmless : manages given = false) (same : call = given) :
      call.byTask = true ∧ (manages call = true → number.capability = some capProcess) := by
    subst same
    exact ⟨own,fun task => by simp [harmless] at task⟩
  cases number with
  | exit | threadExit =>
    obtain rfl := List.mem_singleton.mp member
    exact ⟨rfl,nofun⟩
  | kill =>
    obtain rfl := List.mem_singleton.mp member
    exact ⟨rfl,fun _ => rfl⟩
  | exec =>
    simp only [callsOf,execCalls] at member
    split at member
    · cases member
    split at member
    · cases member
    · obtain rfl := List.mem_singleton.mp member
      exact ⟨rfl,fun _ => rfl⟩
  | waitpid | threadJoin =>
    simp only [callsOf] at member
    split at member
    · obtain rfl := List.mem_singleton.mp member
      exact ⟨rfl,fun _ => rfl⟩
    · cases member
  | threadCreate =>
    simp only [callsOf] at member
    split at member
    · cases member
    · obtain rfl := List.mem_singleton.mp member
      exact ⟨rfl,fun _ => rfl⟩
  | mouseRead =>
    simp only [callsOf,mouseCalls] at member
    split at member
    · split at member
      · exact idle rfl rfl (List.mem_singleton.mp member)
      · cases member
    · cases member
  | ipcSend =>
    simp only [callsOf,ipcSendCalls] at member
    split at member
    · split at member
      · exact idle rfl rfl (List.mem_singleton.mp member)
      · cases member
    · cases member
  | ipcRecvBlocking =>
    simp only [callsOf,ipcRecvCalls] at member
    split at member
    · split at member
      · cases member
      split at member
      · exact idle rfl rfl (List.mem_singleton.mp member)
      · exact idle rfl rfl (List.mem_singleton.mp member)
    · cases member
  | pipeRead =>
    simp only [callsOf,pipeReadCalls] at member
    split at member
    · split at member
      · split at member
        · exact idle rfl rfl (List.mem_singleton.mp member)
        split at member
        · exact idle rfl rfl (List.mem_singleton.mp member)
        · cases member
      · cases member
    · cases member
  | pipeWrite =>
    simp only [callsOf,pipeWriteCalls] at member
    split at member
    · split at member
      · split at member
        · cases member
        · rcases List.mem_append.mp member with first | second
          · split at first
            · exact idle rfl rfl (List.mem_singleton.mp first)
            · cases first
          · split at second
            · exact idle rfl rfl (List.mem_singleton.mp second)
            · cases second
      · cases member
    · cases member
  | pipeClose =>
    simp only [callsOf,pipeCloseCalls] at member
    split at member
    · rcases List.mem_cons.mp member with first | second
      · exact idle rfl rfl first
      · exact idle rfl rfl (List.mem_singleton.mp second)
    · cases member
  | _ => cases member

/-- A trap acts for its task, and manages tasks only where the number is fork's or needs the
capability for it. -/
theorem trapCalls_own {call : Call} (member : call ∈ trapCalls k frame) :
    call.byTask = true ∧ (manages call = true → frame.eax = sysForkNumber ∨ hasCap k.sys 0 capProcess = true) := by
  unfold trapCalls at member
  split at member
  next fork =>
    obtain rfl := List.mem_singleton.mp member
    exact ⟨rfl,fun _ => .inl fork⟩
  split at member
  · cases member
  next number _ =>
    split at member
    next allowed =>
      obtain ⟨own,needs⟩ := callsOf_own member
      refine ⟨own,fun task => .inr ?_⟩
      rwa [permitted,needs task] at allowed
    next => cases member

end Traps

/-! ### What events give to whom -/

theorem Quiet.capabilities_caller {s s' : System} (same : Quiet s s') :
    callerCapabilities s' 0 = callerCapabilities s 0 := by
  simp only [callerCapabilities,same.currentLocal,same.capabilities]

theorem Quiet.lasting {s s' : System} (same : Quiet s s') : Lasting s s' :=
  ⟨same.capabilities,fun i live => by rwa [← same.state]⟩

theorem Quiet.grants {s t u : System} {given : BitVec 32} (same : Quiet s t) (grants : Grants t u given) :
    Grants s u given := by
  obtain ⟨kept,born⟩ := grants
  refine ⟨fun i taken => ?_,fun i free => ?_⟩
  · rw [kept i (by rwa [same.state]),same.capabilities]
  · exact born i (by rwa [same.state])

theorem goes_one_grants {s s' : System} {call : Call} (goes : Goes s [call] s') (sound : Sound s)
    (own : call.byTask = true) : Grants s s' (callerCapabilities s 0) := by
  cases goes with
  | call before later =>
    cases later with
    | quiet after =>
      have grants := step_grants (before.sound sound) own
      rw [before.capabilities_caller] at grants
      exact (before.grants grants).lasting after.lasting

theorem goes_lasting {s s' : System} {calls : List Call} (goes : Goes s calls s')
    (waits : ∀ call ∈ calls, (∃ channel, call = .wakeup channel) ∨ ∃ channel, call = .sleepOn channel) :
    Lasting s s' := by
  induction goes with
  | quiet same => exact same.lasting
  | @call s s₁ s' call rest same later ih =>
    have first : Lasting s₁ (step s₁ call) := by
      rcases waits call (by simp) with ⟨channel,rfl⟩ | ⟨channel,rfl⟩
      · exact processWakeup_lasting s₁ channel
      · exact processSleepOn_lasting s₁ channel
    exact same.lasting.trans (first.trans (ih fun call member => waits call (by simp [member])))

theorem settles_lasting {mid s' : System} (settles : Settles mid s') (sound : Sound mid) : Lasting mid s' := by
  rcases settles with same | ⟨acquired,frame,same⟩
  · exact same.lasting
  · exact (processSchedule_lasting sound acquired frame).trans same.lasting

section Events
variable {k : Kernel}

theorem trap_grants {frame : Frame} {s' : System} (goes : Goes k.sys (trapCalls k frame) s') (sound : Sound k.sys) :
    Grants k.sys s' (callerCapabilities k.sys 0) := by
  have own {call : Call} (member : call ∈ trapCalls k frame) : call.byTask = true := (trapCalls_own member).1
  have shape := trapCalls_shape k frame
  generalize trapCalls k frame = calls at *
  cases shape with
  | none => exact (goes_lasting goes (by simp)).grants _
  | one => exact goes_one_grants goes sound (own (by simp))
  | woken => exact (goes_lasting goes (by simp)).grants _
  | slept => exact (goes_lasting goes (by simp)).grants _

/-- The capabilities that the maker of a new task has. -/
def creatorCapabilities (k : Kernel) : Event → BitVec 32
  | .runFile _ => capUserDefault
  | _ => callerCapabilities k.sys 0

theorem execRunFile_grants (s : System) (ram : RamFs) (name : List Byte) :
    Grants s (execRunFile s ram 0 name).1 capUserDefault := by
  unfold execRunFile
  split
  · exact .table rfl
  next vm p _ =>
    dsimp only
    split
    · exact .table rfl
    next s' i created =>
      have grants := processCreateExVas_grants {s with vm} p.entry p.stack p.pd (pageArray p.pages) (vaArray p.pages)
        p.pages.length
      simp only [Processes.step,created,Option.map_some,Option.getD_some] at grants
      exact ⟨grants.kept,grants.born⟩

theorem event_grants (sound : Sound k.sys) (event : Event) :
    Grants k.sys (k.step event).sys (creatorCapabilities k event) := by
  obtain ⟨calls,mid,handled,goes,settles⟩ := k.step_handled event
  have later := settles_lasting settles (goes_sound goes sound)
  cases handled with
  | quiet => exact ((goes_lasting goes (by simp)).grants _).lasting later
  | trap vector => exact (trap_grants goes sound).lasting later
  | fault => exact (goes_one_grants goes sound rfl).lasting later
  | input wakes => exact ((goes_lasting goes fun call member => .inl (wakes call member)).grants _).lasting later
  | @loaded name => exact execRunFile_grants k.sys k.ram name
  | reaped => exact (goes_one_grants goes sound rfl).lasting later

end Events

/-- What happens to the kernel and its tasks: an event, or the kernel sets the capabilities
of a task. -/
inductive Turn where
  | event (event : Event)
  | limit (slot : Slot) (capabilities : BitVec 32)

/-- The kernel with, for every record, the capabilities that the maker of its task had then
or that the kernel has set. -/
structure Granting where
  kernel : Kernel
  granted : Slot → BitVec 32

def Granting.step (t : Granting) : Turn → Granting
  | .event event =>
    ⟨t.kernel.step event,fun i =>
      if (t.kernel.sys.processes i).state = .unused ∧ ((t.kernel.step event).sys.processes i).state ≠ .unused then
        creatorCapabilities t.kernel event
      else t.granted i⟩
  | .limit slot capabilities =>
    ⟨{t.kernel with sys := (processSetCapabilities t.kernel.sys slot capabilities).1},
      if slot = bootstrap then t.granted else Function.update t.granted slot capabilities⟩

def granting (k : Kernel) : Granting := ⟨k,fun i => (k.sys.processes i).capabilities⟩

/-- No task has a capability that was not granted to it. -/
def Inherited (t : Granting) : Prop :=
  ∀ i, (t.kernel.sys.processes i).state ≠ .unused → (t.kernel.sys.processes i).capabilities &&& ~~~t.granted i = 0

theorem granting_step {t : Granting} (sound : Sound t.kernel.sys) (inherited : Inherited t) (turn : Turn) :
    Sound (t.step turn).kernel.sys ∧ Inherited (t.step turn) := by
  cases turn with
  | event event =>
    obtain ⟨kept,born⟩ := event_grants sound event
    refine ⟨kernel_sound t.kernel [event] sound,fun i live => ?_⟩
    simp only [Granting.step] at live ⊢
    by_cases free : (t.kernel.sys.processes i).state = .unused
    · rw [if_pos ⟨free,live⟩,born i free live]
      exact BitVec.and_not_self _
    · rw [if_neg fun fresh => free fresh.1,kept i free]
      exact inherited i free
  | limit slot capabilities =>
    refine ⟨sound_step sound (.setCapabilities slot capabilities),fun i live => ?_⟩
    by_cases idle : slot = bootstrap
    · simp only [Granting.step,processSetCapabilities,if_pos idle] at live ⊢
      exact inherited i live
    · simp only [Granting.step,processSetCapabilities,if_neg idle,setProcess_processes] at live ⊢
      by_cases own : i = slot
      · subst own
        rw [Function.update_self,Function.update_self]
        ext j
        simp +contextual
      · rw [Function.update_of_ne own] at live ⊢
        rw [Function.update_of_ne own]
        exact inherited i live

theorem granting_run {k : Kernel} (sound : Sound k.sys) (turns : List Turn) :
    Sound (run Granting.step (granting k) turns).kernel.sys ∧ Inherited (run Granting.step (granting k) turns) := by
  have start : Inherited (granting k) := fun i _ => BitVec.and_not_self _
  have preserved (t : Granting) (turn : Turn) (holds : Sound t.kernel.sys ∧ Inherited t) :
      Sound (t.step turn).kernel.sys ∧ Inherited (t.step turn) := granting_step holds.1 holds.2 turn
  exact @run_invariant _ _ _ (fun t : Granting => Sound t.kernel.sys ∧ Inherited t) preserved (granting k) turns
    ⟨sound,start⟩

/-! ### What a trap may do -/

/-- The trap of `frame` keeps to the capabilities of its task. -/
structure Enforced (k : Kernel) (env : Env) (frame : Frame) : Prop where
  calls : ∀ k' next, interruptDispatch k 0 env frame = some (k',next) →
    ∃ mid, Goes k.sys (trapCalls k frame) mid ∧ Settles mid k'.sys
  tasks : hasCap k.sys 0 capProcess = false → ∀ call ∈ trapCalls k frame, manages call = false
  refused : ∀ family : Family, hasCap k.sys 0 family.capability = false →
    ∀ call, syscallOf frame.eax = some call → call.family = some family →
      interruptDispatch k 0 env frame = some (k,.own {frame with eax := syscallErr})
  confined : ∀ family : Family, hasCap k.sys 0 family.capability = false →
    ∀ other : Kernel, (frame.eax = sysExecNumber → (k.graft other family).ram = k.ram) →
      interruptDispatch (k.graft other family) 0 env frame =
        graftOutcome other family (interruptDispatch k 0 env frame)

theorem family_capability {call : Syscall} {family : Family} (member : call.family = some family) :
    call.capability = some family.capability := by
  cases call with
  | exec | fork | waitpid | threadCreate | threadJoin | threadExit | kill | abiVersion | getpid | gettid | yield
  | exit | meminfo | getppid | getstate | sigpending => cases member
  | _ =>
    cases member
    rfl

section Trap
variable {k : Kernel} {env : Env} {frame : Frame}

theorem permitted_family {cpu : Nat} {call : Syscall} {family : Family} (member : call.family = some family) :
    permitted k cpu call = hasCap k.sys cpu family.capability := by
  unfold permitted
  rw [family_capability member]

theorem family_refused (vector : frame.vector = 128) {family : Family}
    (lacks : hasCap k.sys 0 family.capability = false) {call : Syscall} (valid : syscallOf frame.eax = some call)
    (member : call.family = some family) :
    interruptDispatch k 0 env frame = some (k,.own {frame with eax := syscallErr}) := by
  have denied : permitted k 0 call = false := (permitted_family member).trans lacks
  have refused : syscallDispatch k 0 frame.eax frame.ebx frame.ecx frame.edx frame.esi frame.edi =
      some (k,syscallErr) := by
    rw [syscallDispatch,valid]
    simp only [denied]
    rfl
  have error : syscallErr ≠ toU32 waitBlocked := by decide
  have number := syscallOf_number valid
  have apart : frame.eax ≠ sysForkNumber ∧
      ¬ (frame.eax = sysYieldNumber ∨ frame.eax = sysExitNumber ∨ frame.eax = sysThreadExitNumber) := by
    rw [number]
    cases call with
    | exec | fork | waitpid | threadCreate | threadJoin | threadExit | kill | abiVersion | getpid | gettid | yield
    | exit | meminfo | getppid | getstate | sigpending => cases member
    | _ => decide
  rw [interruptDispatch,if_pos vector,syscallTrap]
  dsimp only
  rw [if_neg apart.1,refused]
  dsimp only
  rw [if_neg (by simp),if_neg error,if_neg apart.2]

theorem interruptDispatch_enforced (vector : frame.vector = 128) :
    Enforced k env frame ↔ (frame.eax = sysForkNumber → hasCap k.sys 0 capProcess = true) := by
  constructor
  · intro enforced fork
    cases lacks : hasCap k.sys 0 capProcess with
    | true => rfl
    | false =>
      have calls : trapCalls k frame = [.fork frame] := by rw [trapCalls,if_pos fork]
      have idle := enforced.tasks lacks (.fork frame) (by rw [calls]; simp)
      cases idle
  · intro allowed
    refine ⟨fun k' next taken => ?_,fun lacks call member => ?_,fun family lacks call => ?_,fun family lacks other => ?_⟩
    · rw [interruptDispatch,if_pos vector] at taken
      exact syscallTrap_goes taken
    · cases idle : manages call with
      | false => rfl
      | true =>
        rcases (trapCalls_own member).2 idle with fork | has
        · rw [allowed fork] at lacks
          cases lacks
        · rw [has] at lacks
          cases lacks
    · exact family_refused vector lacks
    · intro same
      rw [interruptDispatch,if_pos vector,interruptDispatch,if_pos vector]
      refine syscallTrap_graft (fun call valid may member => ?_) same
      rw [permitted_family member,lacks] at may
      cases may

end Trap

/-- In every run from the boot nobody has more capabilities than were granted, and a trap keeps
to those of its task exactly if it is no fork of a task that may not manage tasks. -/
theorem capabilities_enforced (k : Kernel) (s : System) (idle schedule : Nat) (turns : List Turn) (env : Env)
    (frame : Frame) (booted : k.sys = boot s idle schedule) (vector : frame.vector = 128) :
    Inherited (run Granting.step (granting k) turns) ∧
      (Enforced (run Granting.step (granting k) turns).kernel env frame ↔
        (frame.eax = sysForkNumber →
          hasCap (run Granting.step (granting k) turns).kernel.sys 0 capProcess = true)) := by
  have start : Sound k.sys := by
    rw [booted]
    exact boot_sound s idle schedule
  exact ⟨(granting_run start turns).2,interruptDispatch_enforced vector⟩

/-- The first program runs without any capability. -/
def stripped : List Turn := started.map .event ++ [.limit 1 0]

def powerless : Granting := run Granting.step (granting bareKernel) stripped

theorem write_enforced : Inherited powerless ∧
    interruptDispatch powerless.kernel 0 calm (trapFrame 7 0x10000000 1 0) =
      some (powerless.kernel,.own (trapFrame syscallErr 0x10000000 1 0)) := by
  obtain ⟨inherited,enforced⟩ := capabilities_enforced bareKernel blank 0x1000 0x2000 stripped calm
    (trapFrame 7 0x10000000 1 0) rfl rfl
  refine ⟨inherited,?_⟩
  exact (enforced.mpr (fun fork => by cases fork)).refused .console (by decide +kernel) .write rfl rfl

/-- The program forks nevertheless: its child is READY in slot 2. -/
theorem fork_unchecked :
    (hasCap powerless.kernel.sys 0 capProcess = false ∧ (powerless.kernel.sys.processes 2).state = .unused ∧
      ((powerless.kernel.step (trap sysForkNumber 0 0 0)).sys.processes 2).state = .ready) ∧
    ¬ ∀ (k : Kernel) (s : System) (idle schedule : Nat) (turns : List Turn) (env : Env) (frame : Frame),
      k.sys = boot s idle schedule → frame.vector = 128 →
        Enforced (run Granting.step (granting k) turns).kernel env frame := by
  have lacks : hasCap powerless.kernel.sys 0 capProcess = false := by decide +kernel
  refine ⟨⟨lacks,by decide +kernel,by decide +kernel⟩,?_⟩
  intro claimed
  have enforced := claimed bareKernel blank 0x1000 0x2000 stripped calm (trapFrame sysForkNumber 0 0 0) rfl rfl
  have number : (trapFrame sysForkNumber 0 0 0).eax = sysForkNumber := rfl
  have calls : trapCalls powerless.kernel (trapFrame sysForkNumber 0 0 0) =
      [.fork (trapFrame sysForkNumber 0 0 0)] := by rw [trapCalls,if_pos number]
  have idle := enforced.tasks lacks (.fork (trapFrame sysForkNumber 0 0 0)) (by
    show _ ∈ trapCalls powerless.kernel _
    rw [calls]
    simp)
  cases idle

end LionOS.Calls

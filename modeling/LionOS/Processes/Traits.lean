import LionOS.Processes.Counters

/-! The capabilities, the saved FPU image and the stack page of a task: what no call but the
scheduler and the setter of capabilities changes while the task lives, and which capabilities
a new task gets. -/
namespace LionOS.Processes
open LionOS.Memory LionOS.Physical LionOS.Paging LionOS.Library

structure Traits where
  capabilities : BitVec 32
  fpuState : FpuImage
  fpuValid : Bool
  threadStackPage : Nat
  threadStackVa : Nat

def Process.traits (p : Process) : Traits where
  capabilities := p.capabilities
  fpuState := p.fpuState
  fpuValid := p.fpuValid
  threadStackPage := p.threadStackPage
  threadStackVa := p.threadStackVa

/-- A record keeps its traits, is cleared or gets other capabilities. -/
inductive Retains (call : Call) (i : Slot) (old new : Process) : Prop
  | kept (same : new.traits = old.traits)
  | cleared (free : new.state = .unused) (same : new.traits = (clearProcess old).traits)
  | capable {capabilities : BitVec 32} (setter : call = .setCapabilities i capabilities)
      (same : new.traits = {old.traits with capabilities := capabilities &&& ~~~capAdmin})

section Records
variable {s : System} {call : Call}

theorem Retains.table {s' : System} (table : s'.processes = s.processes) (i : Slot) :
    Retains call i (s.processes i) (s'.processes i) := by
  rw [table]
  exact .kept rfl

theorem Retains.update {c : Slot} {p : Process} (same : p.traits = (s.processes c).traits) (i : Slot) :
    Retains call i (s.processes i) (Function.update s.processes c p i) := by
  by_cases own : i = c
  · subst own
    rw [Function.update_self]
    exact .kept same
  · rw [Function.update_of_ne own]
    exact .kept rfl

theorem reapProcess_retains {s' : System} (table : s'.processes = s.processes) (z i : Slot) :
    Retains call i (s.processes i) ((reapProcess s' z).processes i) := by
  rw [reapProcess_record,table]
  split
  · exact .cleared rfl rfl
  · exact .kept rfl

section Terminated
variable {t : System} {child : Slot} {p : Process} (table : t.processes = Function.update s.processes child p)
  (same : p.traits = (s.processes child).traits)
include table same

theorem terminated_traits (i : Slot) : (t.processes i).traits = (s.processes i).traits := by
  rw [table]
  by_cases own : i = child
  · subst own
    rw [Function.update_self]
    exact same
  · rw [Function.update_of_ne own]

theorem wakeWaitingParent_retains (dead : p.state = .zombie) (i : Slot) :
    Retains call i (s.processes i) ((wakeWaitingParent t child).processes i) := by
  have record : t.processes child = p := by rw [table,Function.update_self]
  have traits := terminated_traits table same i
  rw [wakeWaitingParent_record (by rw [record,dead]; nofun)]
  split
  · exact .kept traits
  split
  · exact .kept traits
  · exact .kept traits

theorem wakeJoiner_retains (tid code : Nat) (i : Slot) :
    Retains call i (s.processes i) ((wakeJoiner t tid code).processes i) := by
  have traits := terminated_traits table same i
  rw [wakeJoiner_record]
  split
  · exact .kept traits
  · exact .kept traits

end Terminated

theorem processExitCurrent_retains (s : System) (code : Nat) (i : Slot) :
    Retains call i (s.processes i) ((processExitCurrent s 0 code).processes i) := by
  unfold processExitCurrent
  cases caller : currentLocal s 0 with
  | none => exact .kept rfl
  | some c =>
    dsimp only
    split
    · exact wakeJoiner_retains (terminate_processes s c code) rfl _ _ i
    split
    · exact .kept rfl
    · exact wakeWaitingParent_retains (terminate_processes s c code) rfl rfl i

theorem processWaitpid_retains (s : System) (pid statusPtr : Nat) (i : Slot) :
    Retains call i (s.processes i) ((processWaitpid s 0 pid statusPtr).1.processes i) := by
  unfold processWaitpid
  cases caller : currentLocal s 0 with
  | none => exact .kept rfl
  | some c =>
    dsimp only
    split
    · exact .kept rfl
    split
    · split
      · exact .kept rfl
      · refine reapProcess_retains ?_ _ i
        rfl
    split
    · refine Retains.update ?_ i
      rfl
    · exact .kept rfl

theorem processJoinThread_retains (s : System) (tid statusPtr : Nat) (i : Slot) :
    Retains call i (s.processes i) ((processJoinThread s 0 tid statusPtr).1.processes i) := by
  unfold processJoinThread
  cases caller : currentLocal s 0 with
  | none => exact .kept rfl
  | some c =>
    dsimp only
    split
    · exact .kept rfl
    split
    · exact .kept rfl
    split
    · split
      · exact .kept rfl
      · refine reapProcess_retains ?_ _ i
        rfl
    · refine Retains.update ?_ i
      rfl

theorem sysKill_retains (s : System) (pid signal : Nat) (i : Slot) :
    Retains call i (s.processes i) ((sysKill s 0 pid signal).1.processes i) := by
  unfold sysKill
  split
  · unfold processSignal
    cases found : findPid s pid with
    | none => exact .kept rfl
    | some target =>
      dsimp only
      split
      · exact .kept rfl
      split
      · have ended (q : Process) : (terminate (setProcess s target q) target (128 + signal)).processes =
            Function.update s.processes target {q with exitCode := 128 + signal,state := .zombie} := by
          rw [terminate_processes,setProcess_processes,Function.update_idem,Function.update_self]
        refine wakeWaitingParent_retains (ended _) ?_ rfl i
        rfl
      split
      · refine Retains.update ?_ i
        rfl
      split
      · refine Retains.update ?_ i
        rfl
      · exact .kept rfl
  · exact .kept rfl

theorem processExecReplaceCurrent_retains (s : System) (entry stack pd : Nat) (pages vas : Nat → Nat) (count : Nat)
    (i : Slot) : Retains call i (s.processes i)
      (((processExecReplaceCurrent s 0 entry stack pd pages vas count).getD s).processes i) := by
  have kept (s : System) (top : Nat) : (tssSetKernelStack s 0 top).processes = s.processes := by
    unfold tssSetKernelStack
    split <;> rfl
  unfold processExecReplaceCurrent
  cases caller : currentLocal s 0 with
  | none => exact .kept rfl
  | some c =>
    dsimp only
    split
    · exact .kept rfl
    split
    · exact .kept rfl
    · rw [Option.getD_some,setProcess_processes]
      simp only [kept]
      refine Retains.update ?_ i
      rfl

end Records

/-- A call other than the scheduler's creates at most one record and leaves the traits of the
others alone. -/
theorem step_traits (s : System) (call : Call) (other : call.schedules = false) :
    Bears s call (step s call) ∨ ∀ i, Retains call i (s.processes i) ((step s call).processes i) := by
  cases call with
  | schedule acquired frame => cases other
  | requestReschedule => exact .inl (.inl rfl)
  | create entry stack pd pages vas count => exact .inl (step_create_bears s entry stack pd pages vas count)
  | replace entry stack pd pages vas count =>
    exact .inr (processExecReplaceCurrent_retains s entry stack pd pages vas count)
  | fork frame => exact .inl (processForkCurrent_bears s frame)
  | createKernelThread entry => exact .inl (processCreateKernelThread_bears s entry)
  | createUserThread entry => exact .inl (processCreateUserThread_bears s entry)
  | exit code => exact .inr (processExitCurrent_retains s code)
  | waitpid pid statusPtr => exact .inr (processWaitpid_retains s pid statusPtr)
  | joinThread tid statusPtr => exact .inr (processJoinThread_retains s tid statusPtr)
  | sleepOn channel =>
    refine .inr fun i => ?_
    simp only [step,processSleepOn]
    split
    · exact .kept rfl
    split
    · exact .kept rfl
    split
    · exact .kept rfl
    · refine Retains.update ?_ i
      rfl
  | wakeup channel =>
    refine .inr fun i => ?_
    simp only [step,processWakeup]
    split
    · exact .kept rfl
    dsimp only
    split
    · exact .kept rfl
    · unfold wakeOn
      split <;> exact .kept rfl
  | kill pid signal => exact .inr (sysKill_retains s pid signal)
  | reapPid pid =>
    refine .inr fun i => ?_
    simp only [step,processReapPid]
    split
    · exact .kept rfl
    split
    · exact .kept rfl
    · refine reapProcess_retains ?_ _ i
      rfl
  | setPriority slot priority =>
    refine .inr fun i => ?_
    simp only [step,processSetPriority]
    split
    · exact .kept rfl
    · refine Retains.update ?_ i
      rfl
  | setCapabilities slot capabilities =>
    refine .inr fun i => ?_
    simp only [step,processSetCapabilities]
    split
    · exact .kept rfl
    · rw [setProcess_processes]
      by_cases own : i = slot
      · subst own
        rw [Function.update_self]
        exact .capable rfl rfl
      · rw [Function.update_of_ne own]
        exact .kept rfl
  | memory vm => exact .inl (.inl rfl)

/-! ### The scheduler -/

theorem setProcess_capabilities (s : System) (c : Slot) {p : Process}
    (same : p.capabilities = (s.processes c).capabilities) (i : Slot) :
    ((setProcess s c p).processes i).capabilities = (s.processes i).capabilities := by
  rw [setProcess_processes]
  by_cases own : i = c
  · subst own
    rw [Function.update_self]
    exact same
  · rw [Function.update_of_ne own]

theorem preempt_capabilities (s : System) (cpu : Nat) (prev : Option Slot) (i : Slot) :
    ((preempt s cpu prev).processes i).capabilities = (s.processes i).capabilities := by
  unfold preempt
  split
  · rfl
  next c =>
    split
    · unfold fpuSave
      split
      · refine (setProcess_capabilities _ c ?_ i).trans (setProcess_capabilities s c ?_ i) <;> rfl
      · refine setProcess_capabilities s c ?_ i
        rfl
    · rfl

theorem reapPrev_capabilities (s : System) (prev : Option Slot) (i : Slot) :
    ((reapPrev s prev).processes i).capabilities = (s.processes i).capabilities := by
  rw [reapPrev_record]
  split <;> rfl

theorem enter_capabilities (s : System) (cpu : Nat) (next i : Slot) :
    ((enter s cpu next).processes i).capabilities = (s.processes i).capabilities := by
  rw [enter_record]
  split <;> rfl

theorem switchFrom_capabilities (s : System) (cpu : Nat) (prev : Option Slot) (frame : Frame) (i : Slot) :
    ((switchFrom s cpu prev frame).1.processes i).capabilities = (s.processes i).capabilities := by
  have current (s : System) (c : Option Slot) : (setCurrentLocal s cpu c).processes = s.processes := by
    unfold setCurrentLocal
    split <;> rfl
  unfold switchFrom
  dsimp only
  split
  · rw [reapPrev_capabilities,enter_capabilities,fpuRestore_processes,preempt_capabilities]
  split
  · split
    · split
      · rw [reapPrev_capabilities,enter_capabilities]
      · rw [reapPrev_capabilities,current]
    · rfl
  · split
    · rw [enter_capabilities]
    · rfl

/-- The scheduler changes nobody's capabilities. -/
theorem processSchedule_capabilities (s : System) (cpu : Nat) (acquired : Bool) (frame : Frame) (i : Slot) :
    ((processSchedule s cpu acquired frame).1.processes i).capabilities = (s.processes i).capabilities := by
  have charged (s : System) (c : Slot) :
      ((chargeTick s c).1.processes i).capabilities = (s.processes i).capabilities := by
    unfold chargeTick
    dsimp only
    split
    · rfl
    split
    · refine setProcess_capabilities _ c ?_ i
      rfl
    split
    · refine setProcess_capabilities s c ?_ i
      rfl
    · refine setProcess_capabilities s c ?_ i
      rfl
  have freed (s : System) (c : Slot) :
      ((freeDeferred s c).processes i).capabilities = (s.processes i).capabilities := by
    unfold freeDeferred
    dsimp only
    split
    · rfl
    · refine setProcess_capabilities _ c ?_ i
      rfl
  have saved (c : Slot) : ((saveFrame (countSchedule s cpu) c frame).processes i).capabilities =
      (s.processes i).capabilities := by
    refine setProcess_capabilities (countSchedule s cpu) c ?_ i
    rfl
  unfold processSchedule
  split
  · rfl
  dsimp only
  split
  · exact switchFrom_capabilities (countSchedule s cpu) cpu none frame i
  next prev _ =>
    have ticked := charged (saveFrame (countSchedule s cpu) prev frame) prev
    split
    next t kept =>
      rw [kept] at ticked
      exact ticked.trans (saved prev)
    next t gives =>
      rw [gives] at ticked
      rw [switchFrom_capabilities,freed]
      exact ticked.trans (saved prev)

/-! ### Grants -/

def callerCapabilities (s : System) (cpu : Nat) : BitVec 32 :=
  match currentLocal s cpu with
  | none => 0
  | some c => (s.processes c).capabilities

/-- A task that lives on keeps its capabilities, and one that comes to life has the given ones. -/
structure Grants (s s' : System) (given : BitVec 32) : Prop where
  kept : ∀ i, (s.processes i).state ≠ .unused → (s'.processes i).capabilities = (s.processes i).capabilities
  born : ∀ i, (s.processes i).state = .unused → (s'.processes i).state ≠ .unused →
    (s'.processes i).capabilities = given

/-- Everybody keeps the capabilities and nobody comes to life. -/
structure Lasting (s s' : System) : Prop where
  same : ∀ i, (s'.processes i).capabilities = (s.processes i).capabilities
  live : ∀ i, (s'.processes i).state ≠ .unused → (s.processes i).state ≠ .unused

section Grants
variable {s s' t : System} {given : BitVec 32}

theorem Lasting.grants (lasting : Lasting s s') (given : BitVec 32) : Grants s s' given :=
  ⟨fun i _ => lasting.same i,fun i free live => absurd free (lasting.live i live)⟩

theorem Lasting.trans (first : Lasting s s') (second : Lasting s' t) : Lasting s t :=
  ⟨fun i => (second.same i).trans (first.same i),fun i live => first.live i (second.live i live)⟩

theorem Grants.lasting (grants : Grants s s' given) (later : Lasting s' t) : Grants s t given := by
  refine ⟨fun i taken => (later.same i).trans (grants.kept i taken),fun i free live => ?_⟩
  rw [later.same]
  exact grants.born i free (later.live i live)

theorem Grants.spawned {i : Slot} {p : Process} (free : (s.processes i).state = .unused)
    (table : s'.processes = Function.update s.processes i p) (capabilities : p.capabilities = given) :
    Grants s s' given := by
  constructor
  · intro j taken
    have other : j ≠ i := by
      rintro rfl
      exact taken free
    rw [table,Function.update_of_ne other]
  · intro j unused live
    by_cases own : j = i
    · subst own
      rw [table,Function.update_self]
      exact capabilities
    · rw [table,Function.update_of_ne own] at live
      exact absurd unused live

theorem Lasting.table (table : s'.processes = s.processes) : Lasting s s' :=
  ⟨fun i => by rw [table],fun i live => by rwa [← table]⟩

theorem Grants.table (table : s'.processes = s.processes) : Grants s s' given := (Lasting.table table).grants given

theorem processForkCurrent_grants (s : System) (frame : Frame) :
    Grants s (processForkCurrent s 0 frame).1 (callerCapabilities s 0) := by
  unfold processForkCurrent
  cases caller : currentLocal s 0 with
  | none => exact .table rfl
  | some c =>
    dsimp only
    split
    · exact .table rfl
    split
    · exact .table rfl
    split
    · exact .table rfl
    split
    · exact .table rfl
    split
    · exact .table rfl
    split
    · exact .table rfl
    next made i created =>
      obtain ⟨free,_,_,_,_,table⟩ := processCreateExVasLocked_spawns created
      refine Grants.spawned (p := forkChild (s.processes c) (made.processes i) 0 made.nextTid frame) free ?_ ?_
      · rw [setProcess_processes]
        dsimp only
        rw [table]
        simp
      · unfold callerCapabilities
        rw [caller]
        rfl

theorem processCreateUserThread_grants (s : System) (entry : Nat) :
    Grants s (step s (.createUserThread entry)) (callerCapabilities s 0) := by
  simp only [step,processCreateUserThread]
  split
  · exact .table rfl
  cases caller : currentLocal s 0 with
  | none => exact .table rfl
  | some c =>
    simp only
    split
    · exact .table rfl
    cases free : findFreeSlot s with
    | none => exact .table rfl
    | some slot =>
      simp only
      split
      · split <;> exact .table rfl
      split
      · exact .table rfl
      split
      · exact .table rfl
      split
      · exact .table rfl
      · refine Grants.spawned (findFreeSlot_unused free) rfl ?_
        unfold callerCapabilities
        rw [caller]

/-- A process that the kernel makes for a file gets the default. -/
theorem processCreateExVas_grants (s : System) (entry stack pd : Nat) (pages vas : Nat → Nat) (count : Nat) :
    Grants s (step s (.create entry stack pd pages vas count)) capUserDefault := by
  simp only [step,processCreateExVas,processCreateExVasLocked]
  cases free : findFreeSlot s with
  | none => exact .table rfl
  | some slot =>
    simp only
    split
    · exact .table rfl
    cases pageAlloc s.vm.pages with
    | none => exact .table rfl
    | some result =>
      exact Grants.spawned (findFreeSlot_unused free) rfl rfl

/-- The calls that a task makes for itself. -/
def Call.byTask : Call → Bool
  | .schedule _ _ | .create _ _ _ _ _ _ | .createKernelThread _ | .setCapabilities _ _ => false
  | _ => true

theorem Bears.grants {call : Call} (own : call.byTask = true) (bears : Bears s call (step s call)) :
    Grants s (step s call) (callerCapabilities s 0) := by
  rcases bears with table | ⟨_,_,_,_,born,_⟩
  · exact .table table
  · cases born with
    | process | kernelThread => cases own
    | forked => exact processForkCurrent_grants s _
    | userThread => exact processCreateUserThread_grants s _

/-- What a task does for itself gives nobody more than the task has. -/
theorem step_grants (sound : Sound s) {call : Call} (own : call.byTask = true) :
    Grants s (step s call) (callerCapabilities s 0) := by
  have serving : call.schedules = false := by
    cases call with
    | schedule => cases own
    | _ => rfl
  rcases step_traits s call serving with bears | retains
  · exact bears.grants own
  rcases step_identity s sound call with bears | follows
  · exact bears.grants own
  have same (i : Slot) : ((step s call).processes i).capabilities = (s.processes i).capabilities := by
    cases retains i with
    | kept same => exact congrArg Traits.capabilities same
    | cleared _ same => exact congrArg Traits.capabilities same
    | capable setter =>
      rw [setter] at own
      cases own
  refine ⟨fun i _ => same i,fun i free live => ?_⟩
  have revived : currentLocal s 0 = some i := by
    cases follows i with
    | kept _ alive => exact (alive live).resolve_left (absurd free)
    | reaped _ cleared => exact absurd cleared live
    | moved caller => exact caller
  rw [same,callerCapabilities,revived]

theorem processWakeup_lasting (s : System) (channel : Nat) : Lasting s (step s (.wakeup channel)) := by
  have record (i : Slot) : (wakeOn channel (s.processes i)).capabilities = (s.processes i).capabilities ∧
      ((wakeOn channel (s.processes i)).state ≠ .unused → (s.processes i).state ≠ .unused) := by
    unfold wakeOn
    split
    next asleep => exact ⟨rfl,fun _ => by rw [asleep.1]; nofun⟩
    next => exact ⟨rfl,id⟩
  simp only [step,processWakeup]
  split
  · exact .table rfl
  constructor
  · intro i
    dsimp only
    split
    · rfl
    · exact (record i).1
  · intro i
    dsimp only
    split
    · exact id
    · exact (record i).2

theorem processSleepOn_lasting (s : System) (channel : Nat) : Lasting s (step s (.sleepOn channel)) := by
  simp only [step,processSleepOn]
  split
  · exact .table rfl
  split
  · exact .table rfl
  next c _ =>
    split
    · exact .table rfl
    next valid =>
      rw [not_or] at valid
      refine ⟨setProcess_capabilities s c ?_,fun i live => ?_⟩
      · rfl
      · rw [setProcess_processes] at live
        by_cases own : i = c
        · rw [own]
          exact valid.2
        · rwa [Function.update_of_ne own] at live

theorem processSchedule_lasting (sound : Sound s) (acquired : Bool) (frame : Frame) :
    Lasting s (step s (.schedule acquired frame)) := by
  refine ⟨processSchedule_capabilities s 0 acquired frame,fun i live => ?_⟩
  simp only [step] at live
  cases processSchedule_scheduled s 0 acquired frame i with
  | kept same => rwa [← control_state same]
  | dispatched ready same =>
    rcases ready with ready | idle
    · rw [ready]
      simp
    · exact idle ▸ sound.taken
  | preempted _ running => rw [running]; simp
  | reaped _ _ _ cleared => exact absurd (control_state cleared) live

end Grants

end LionOS.Processes

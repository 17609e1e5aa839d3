import LionOS.Processes.Termination

/-! The numbers, the parent and the address space of a record: which ones a new task gets, and
that no call but `process_exec_replace_current` changes those of a task that exists. -/
namespace LionOS.Processes
open LionOS.Memory LionOS.Physical LionOS.Paging LionOS.Library

@[ext] structure Identity where
  pid : Nat
  tid : Nat
  threadGroupPid : Nat
  isThread : Bool
  pageDirectory : Nat
  parentPid : Nat

def Control.identity (c : Control) : Identity where
  pid := c.pid
  tid := c.tid
  threadGroupPid := c.threadGroupPid
  isThread := c.isThread
  pageDirectory := c.home.pageDirectory
  parentPid := c.parentPid

def Process.identity (p : Process) : Identity := p.control.identity

def noIdentity : Identity := ⟨0,0,0,false,0,0⟩

theorem control_identity {p : Process} {c : Control} (same : p.control = c) : p.identity = c.identity :=
  congrArg Control.identity same

/-- The pid that a process gets as that of its parent. -/
def creatorPid (s : System) (cpu : Nat) : Nat :=
  match currentLocal s cpu with
  | some c => (s.processes c).pid
  | none => 1

/-- The record `p` that a call puts into a free slot. -/
inductive Born (s : System) : Call → Process → Prop
  | process {entry stack pd count : Nat} {pages vas : Nat → Nat} {p : Process}
      (identity : p.identity = ⟨s.nextPid,s.nextTid,s.nextPid,false,pd,creatorPid s 0⟩) :
      Born s (.create entry stack pd pages vas count) p
  | forked {frame : Frame} {c : Slot} {pd : Nat} {p : Process} (caller : currentLocal s 0 = some c)
      (ordinary : c ≠ bootstrap) (pages : (s.processes c).userPageCount ≠ 0)
      (identity : p.identity =
        ⟨s.nextPid,nextTidAfter s.nextTid,(s.processes c).threadGroupPid,false,pd,(s.processes c).pid⟩) :
      Born s (.fork frame) p
  | kernelThread {entry : Nat} {p : Process}
      (identity : p.identity = ⟨0,s.nextTid,0,true,pagingKernelDirectory s.vm,0⟩) : Born s (.createKernelThread entry) p
  | userThread {entry : Nat} {c : Slot} {p : Process} (caller : currentLocal s 0 = some c) (ordinary : c ≠ bootstrap)
      (identity : p.identity =
        ⟨0,s.nextTid,(s.processes c).threadGroupPid,true,(s.processes c).pageDirectory,0⟩) :
      Born s (.createUserThread entry) p

/-- A call creates nothing or puts a new record into the first free slot. -/
def Bears (s : System) (call : Call) (s' : System) : Prop :=
  s'.processes = s.processes ∨ ∃ i p, findFreeSlot s = some i ∧ p.state = .ready ∧ Born s call p ∧
    s'.processes = Function.update s.processes i p

/-- A record keeps its identity, a zombie is reaped or the caller moves to a new address
space. No record comes to life but that of the task on the CPU. -/
inductive Follows (s : System) : Call → Slot → Process → Prop
  | kept {call : Call} {i : Slot} {p : Process} (same : p.identity = (s.processes i).identity)
      (live : p.state ≠ .unused → (s.processes i).state ≠ .unused ∨ currentLocal s 0 = some i) : Follows s call i p
  | reaped {call : Call} {i : Slot} {p : Process} (dead : (s.processes i).state = .zombie) (free : p.state = .unused)
      (blank : p.identity = noIdentity) : Follows s call i p
  | moved {entry stack pd count : Nat} {pages vas : Nat → Nat} {i : Slot} {p : Process}
      (caller : currentLocal s 0 = some i) (ordinary : i ≠ bootstrap) (state : p.state = (s.processes i).state)
      (same : p.identity = {(s.processes i).identity with pageDirectory := pd}) :
      Follows s (.replace entry stack pd pages vas count) i p

theorem Follows.refl (s : System) (call : Call) (i : Slot) : Follows s call i (s.processes i) := .kept rfl .inl

section Creation
variable {s s' : System}

theorem processCreateExVasLocked_born {cpu entry stack pd count : Nat} {pages vas : Nat → Nat} {i : Slot}
    (created : processCreateExVasLocked s cpu entry stack pd pages vas count = some (s',i)) :
    findFreeSlot s = some i ∧ (s'.processes i).identity =
      ⟨s.nextPid,s.nextTid,s.nextPid,false,pd,creatorPid s cpu⟩ := by
  unfold processCreateExVasLocked at created
  cases free : findFreeSlot s with
  | none => simp [free] at created
  | some slot =>
    simp only [free] at created
    split at created
    · cases created
    · cases stackPage : pageAlloc s.vm.pages with
      | none => simp [stackPage] at created
      | some result =>
        simp only [stackPage,Option.some.injEq,Prod.mk.injEq] at created
        obtain ⟨rfl,rfl⟩ := created
        refine ⟨rfl,?_⟩
        rw [setProcess_processes,Function.update_self]
        rfl

theorem step_create_bears (s : System) (entry stack pd : Nat) (pages vas : Nat → Nat) (count : Nat) :
    Bears s (.create entry stack pd pages vas count) (step s (.create entry stack pd pages vas count)) := by
  cases created : processCreateExVas s 0 entry stack pd pages vas count with
  | none =>
    simp only [step,created]
    exact .inl rfl
  | some made =>
    obtain ⟨s',i⟩ := made
    simp only [step,created]
    obtain ⟨free,identity⟩ := processCreateExVasLocked_born created
    obtain ⟨_,_,_,_,fresh,table⟩ := processCreateExVasLocked_spawns created
    exact .inr ⟨i,_,free,fresh.ready,.process identity,table⟩

theorem processForkCurrent_bears (s : System) (frame : Frame) :
    Bears s (.fork frame) (processForkCurrent s 0 frame).1 := by
  unfold processForkCurrent
  cases caller : currentLocal s 0 with
  | none => exact .inl rfl
  | some c =>
    dsimp only
    split
    · exact .inl rfl
    next user =>
      rw [not_or] at user
      split
      · exact .inl rfl
      split
      · exact .inl rfl
      split
      · exact .inl rfl
      split
      · exact .inl rfl
      split
      · exact .inl rfl
      next made i created =>
        obtain ⟨free,identity⟩ := processCreateExVasLocked_born created
        obtain ⟨_,_,tid,_,fresh,table⟩ := processCreateExVasLocked_spawns created
        have numbers : (forkChild (s.processes c) (made.processes i) 0 made.nextTid frame).identity =
            ⟨s.nextPid,nextTidAfter s.nextTid,(s.processes c).threadGroupPid,false,(made.processes i).pageDirectory,
              (s.processes c).pid⟩ := by
          apply Identity.ext
          · have pid := congrArg Identity.pid identity
            exact pid
          · exact tid
          · rfl
          · rfl
          · rfl
          · rfl
        refine .inr ⟨i,forkChild (s.processes c) (made.processes i) 0 made.nextTid frame,free,fresh.ready,
          .forked caller user.1 user.2 numbers,?_⟩
        rw [setProcess_processes]
        dsimp only
        rw [table]
        simp

theorem processCreateKernelThread_bears (s : System) (entry : Nat) :
    Bears s (.createKernelThread entry) (step s (.createKernelThread entry)) := by
  simp only [step,processCreateKernelThread]
  split
  · exact .inl rfl
  split
  · exact .inl rfl
  next slot free =>
    split
    · exact .inl rfl
    · exact .inr ⟨slot,_,free,rfl,.kernelThread rfl,rfl⟩

theorem processCreateUserThread_bears (s : System) (entry : Nat) :
    Bears s (.createUserThread entry) (step s (.createUserThread entry)) := by
  simp only [step,processCreateUserThread]
  split
  · exact .inl rfl
  cases caller : currentLocal s 0 with
  | none => exact .inl rfl
  | some c =>
    simp only
    split
    · exact .inl rfl
    next ordinary =>
      cases free : findFreeSlot s with
      | none => exact .inl rfl
      | some slot =>
        simp only
        split
        · split <;> exact .inl rfl
        split
        · exact .inl rfl
        split
        · exact .inl rfl
        split
        · exact .inl rfl
        · exact .inr ⟨slot,_,free,rfl,.userThread caller ordinary rfl,rfl⟩

end Creation

section Records
variable {s : System} {call : Call}

theorem Follows.table {s' : System} (table : s'.processes = s.processes) (i : Slot) :
    Follows s call i (s'.processes i) := by
  rw [table]
  exact .refl s call i

/-- A change to one record that leaves its identity as it was. -/
theorem Follows.update {c : Slot} {p : Process} (same : p.identity = (s.processes c).identity)
    (live : p.state ≠ .unused → (s.processes c).state ≠ .unused ∨ currentLocal s 0 = some c) (i : Slot) :
    Follows s call i (Function.update s.processes c p i) := by
  by_cases own : i = c
  · subst own
    rw [Function.update_self]
    exact .kept same live
  · rw [Function.update_of_ne own]
    exact .refl s call i

theorem reapProcess_follows {s' : System} (table : s'.processes = s.processes) (z i : Slot) :
    Follows s call i ((reapProcess s' z).processes i) := by
  rw [reapProcess_record,table]
  split
  next dead =>
    obtain ⟨dead,rfl⟩ := dead
    exact .reaped dead rfl rfl
  next => exact .refl s call i

section Terminated
variable {t : System} {child : Slot} {p : Process} (table : t.processes = Function.update s.processes child p)
  (same : p.identity = (s.processes child).identity) (dead : p.state = .zombie)
  (live : (s.processes child).state ≠ .unused ∨ currentLocal s 0 = some child)
include table same dead live

theorem terminated_other {i : Slot} (waiting : (t.processes i).state = .waiting) :
    t.processes i = s.processes i := by
  have other : i ≠ child := by
    rintro rfl
    rw [table,Function.update_self,dead] at waiting
    cases waiting
  rw [table,Function.update_of_ne other]

theorem wakeWaitingParent_follows (i : Slot) : Follows s call i ((wakeWaitingParent t child).processes i) := by
  have record : t.processes child = p := by rw [table,Function.update_self]
  rw [wakeWaitingParent_record (by rw [record,dead]; nofun)]
  split
  next found =>
    have waiting := (waitingParent_found found).2.1
    have other := terminated_other table same dead live waiting
    rw [other] at waiting ⊢
    exact .kept rfl fun _ => .inl (by rw [waiting]; nofun)
  split
  next own =>
    subst own
    rw [record]
    exact .kept same fun _ => live
  next =>
    rw [table]
    exact .update same (fun _ => live) i

theorem wakeJoiner_follows (tid code : Nat) (i : Slot) : Follows s call i ((wakeJoiner t tid code).processes i) := by
  rw [wakeJoiner_record]
  split
  next found =>
    have waiting := (waitingJoiner_found found).2.1
    have other := terminated_other table same dead live waiting
    rw [other] at waiting ⊢
    exact .kept rfl fun _ => .inl (by rw [waiting]; nofun)
  next =>
    rw [table]
    exact .update same (fun _ => live) i

end Terminated

theorem processExitCurrent_follows (s : System) (code : Nat) (i : Slot) :
    Follows s call i ((processExitCurrent s 0 code).processes i) := by
  unfold processExitCurrent
  cases caller : currentLocal s 0 with
  | none => exact .refl s call i
  | some c =>
    dsimp only
    split
    · exact wakeJoiner_follows (terminate_processes s c code) rfl rfl (.inr caller) _ _ i
    split
    · exact .refl s call i
    · exact wakeWaitingParent_follows (terminate_processes s c code) rfl rfl (.inr caller) i

theorem processWaitpid_follows (s : System) (pid statusPtr : Nat) (i : Slot) :
    Follows s call i ((processWaitpid s 0 pid statusPtr).1.processes i) := by
  unfold processWaitpid
  cases caller : currentLocal s 0 with
  | none => exact .refl s call i
  | some c =>
    dsimp only
    split
    · exact .refl s call i
    split
    · split
      · exact .table rfl i
      · refine reapProcess_follows ?_ _ i
        rfl
    split
    · refine Follows.update ?_ (fun _ => .inr caller) i
      rfl
    · exact .refl s call i

theorem processJoinThread_follows (s : System) (tid statusPtr : Nat) (i : Slot) :
    Follows s call i ((processJoinThread s 0 tid statusPtr).1.processes i) := by
  unfold processJoinThread
  cases caller : currentLocal s 0 with
  | none => exact .refl s call i
  | some c =>
    dsimp only
    split
    · exact .refl s call i
    split
    · exact .refl s call i
    split
    · split
      · exact .table rfl i
      · refine reapProcess_follows ?_ _ i
        rfl
    · refine Follows.update ?_ (fun _ => .inr caller) i
      rfl

theorem processSleepOn_follows (s : System) (channel : Nat) (i : Slot) :
    Follows s call i ((processSleepOn s 0 channel).1.processes i) := by
  unfold processSleepOn
  split
  · exact .refl s call i
  cases caller : currentLocal s 0 with
  | none => exact .refl s call i
  | some c =>
    dsimp only
    split
    · exact .refl s call i
    · refine Follows.update ?_ (fun _ => .inr caller) i
      rfl

theorem processWakeup_follows (s : System) (channel : Nat) (i : Slot) :
    Follows s call i ((processWakeup s channel).processes i) := by
  unfold processWakeup
  split
  · exact .refl s call i
  dsimp only
  split
  · exact .refl s call i
  · unfold wakeOn
    split
    next asleep => exact .kept rfl fun _ => .inl (by rw [asleep.1]; nofun)
    next => exact .refl s call i

theorem sysKill_follows (s : System) (pid signal : Nat) (i : Slot) :
    Follows s call i ((sysKill s 0 pid signal).1.processes i) := by
  unfold sysKill
  split
  · unfold processSignal
    cases found : findPid s pid with
    | none => exact .refl s call i
    | some target =>
      have live : (s.processes target).state ≠ .unused := (findPid_found found).1
      dsimp only
      split
      · exact .refl s call i
      split
      · have ended (q : Process) : (terminate (setProcess s target q) target (128 + signal)).processes =
            Function.update s.processes target {q with exitCode := 128 + signal,state := .zombie} := by
          rw [terminate_processes,setProcess_processes,Function.update_idem,Function.update_self]
        refine wakeWaitingParent_follows (ended _) ?_ rfl (.inl live) i
        rfl
      split
      · refine Follows.update ?_ (fun _ => .inl live) i
        rfl
      split
      · refine Follows.update ?_ (fun _ => .inl live) i
        rfl
      · exact .refl s call i
  · exact .refl s call i

theorem processSchedule_follows (s : System) (sound : Sound s) (acquired : Bool) (frame : Frame) (i : Slot) :
    Follows s call i ((processSchedule s 0 acquired frame).1.processes i) := by
  cases processSchedule_scheduled s 0 acquired frame i with
  | kept same frame =>
    refine .kept (control_identity same) fun live => .inl ?_
    rw [← control_state same]
    exact live
  | dispatched ready same =>
    refine .kept ((control_identity same).trans rfl) fun _ => .inl ?_
    rcases ready with ready | idle
    · rw [ready]
      nofun
    · exact idle ▸ sound.taken
  | preempted caller running same => exact .kept ((control_identity same).trans rfl) fun _ => .inr caller
  | reaped caller dead pending cleared => exact .reaped dead (control_state cleared) (control_identity cleared)

/-- A record that is free after a call was free before or has been cleared. -/
theorem effect_unused {i : Slot} {p : Process} (effect : Effect s call i p) (free : p.state = .unused) :
    ((s.processes i).state = .unused ∧
      p.identity = {(s.processes i).identity with pageDirectory := p.pageDirectory}) ∨ p.identity = noIdentity := by
  have through {c : Control} (same : p.control = c) (kept : c.state = (s.processes i).state)
      (identity : c.identity = {(s.processes i).identity with pageDirectory := c.home.pageDirectory}) :
      ((s.processes i).state = .unused ∧
        p.identity = {(s.processes i).identity with pageDirectory := p.pageDirectory}) ∨ p.identity = noIdentity := by
    subst same
    exact .inl ⟨kept.symm.trans free,identity⟩
  cases effect with
  | kept same => exact through same rfl rfl
  | scheduled change =>
    cases change with
    | kept same => exact through same rfl rfl
    | dispatched _ same => cases (congrArg Control.state same).symm.trans free
    | preempted _ _ same => cases (congrArg Control.state same).symm.trans free
    | reaped _ _ _ cleared => exact .inr (control_identity cleared)
  | spawned _ fresh =>
    rw [fresh.ready] at free
    cases free
  | replaced _ _ same => exact through same rfl rfl
  | terminated _ same => cases (congrArg Control.state same).symm.trans free
  | stopped _ same => cases (congrArg Control.state same).symm.trans free
  | continued _ _ same => cases (congrArg Control.state same).symm.trans free
  | reaped => exact .inr rfl
  | parentReleased | joinerReleased | woken | waits | joins | sleeps => cases free

end Records

theorem processExecReplaceCurrent_follows (s : System) (entry stack pd : Nat) (pages vas : Nat → Nat) (count : Nat)
    (i : Slot) : Follows s (.replace entry stack pd pages vas count) i
      (((processExecReplaceCurrent s 0 entry stack pd pages vas count).getD s).processes i) := by
  unfold processExecReplaceCurrent
  cases caller : currentLocal s 0 with
  | none => exact .refl s _ i
  | some c =>
    dsimp only
    split
    · exact .refl s _ i
    next valid =>
      rw [not_or] at valid
      split
      · exact .refl s _ i
      · rw [Option.getD_some,setProcess_processes]
        have kept (s : System) (top : Nat) : (tssSetKernelStack s 0 top).processes = s.processes := by
          unfold tssSetKernelStack
          split <;> rfl
        simp only [kept]
        by_cases own : i = c
        · subst own
          rw [Function.update_self]
          exact .moved caller valid.1 rfl rfl
        · rw [Function.update_of_ne own]
          exact .refl s _ i

/-- A call creates at most one record, and every other record follows the one before. -/
theorem step_identity (s : System) (sound : Sound s) (call : Call) :
    Bears s call (step s call) ∨ ∀ i, Follows s call i ((step s call).processes i) := by
  cases call with
  | schedule acquired frame => exact .inr (processSchedule_follows s sound acquired frame)
  | requestReschedule => exact .inl (.inl rfl)
  | create entry stack pd pages vas count => exact .inl (step_create_bears s entry stack pd pages vas count)
  | replace entry stack pd pages vas count =>
    exact .inr (processExecReplaceCurrent_follows s entry stack pd pages vas count)
  | fork frame => exact .inl (processForkCurrent_bears s frame)
  | createKernelThread entry => exact .inl (processCreateKernelThread_bears s entry)
  | createUserThread entry => exact .inl (processCreateUserThread_bears s entry)
  | exit code => exact .inr (processExitCurrent_follows s code)
  | waitpid pid statusPtr => exact .inr (processWaitpid_follows s pid statusPtr)
  | joinThread tid statusPtr => exact .inr (processJoinThread_follows s tid statusPtr)
  | sleepOn channel => exact .inr (processSleepOn_follows s channel)
  | wakeup channel => exact .inr (processWakeup_follows s channel)
  | kill pid signal => exact .inr (sysKill_follows s pid signal)
  | reapPid pid =>
    refine .inr fun i => ?_
    simp only [step,processReapPid]
    split
    · exact .refl s _ i
    split
    · exact .refl s _ i
    · exact reapProcess_follows rfl _ i
  | setPriority slot priority =>
    refine .inr fun i => ?_
    simp only [step,processSetPriority]
    split
    · exact .refl s _ i
    · refine Follows.update ?_ ?_ i
      · rfl
      · exact .inl
  | setCapabilities slot capabilities =>
    refine .inr fun i => ?_
    simp only [step,processSetCapabilities]
    split
    · exact .refl s _ i
    · refine Follows.update ?_ ?_ i
      · rfl
      · exact .inl
  | memory vm => exact .inl (.inl rfl)

end LionOS.Processes

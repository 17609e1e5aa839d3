import LionOS.Processes.Authority

/-! What a pid that was written down once stands for later: a process that still runs, the
kernel, a thread, or a process that has ended. Nothing changes the parent of a record when
the parent ends, so the children of ended processes stay as they are. -/
namespace LionOS.Processes
open LionOS.Memory LionOS.Physical LionOS.Paging LionOS.Library

/-- The pid of the process that a call ends. -/
def endedBy (s : System) (call : Call) : List Nat :=
  match victim s call with
  | none => []
  | some i => [(s.processes i).pid]

/-- A machine together with the pids of all processes that have ended on it. -/
structure History where
  system : System
  ended : List Nat

def History.step (h : History) (call : Call) : History :=
  ⟨Processes.step h.system call,endedBy h.system call ++ h.ended⟩

def History.boot (s : System) (idle schedule : Nat) : History := ⟨Processes.boot s idle schedule,[]⟩

/-- A process other than the idle task that has not ended. -/
structure Runs (s : System) (q : Slot) : Prop where
  ordinary : q ≠ bootstrap
  live : Live s q
  alive : (s.processes q).state ≠ .zombie
  process : (s.processes q).isThread = false

instance Runs.decidable (s : System) (q : Slot) : Decidable (Runs s q) :=
  decidable_of_iff (q ≠ bootstrap ∧ Live s q ∧ (s.processes q).state ≠ .zombie ∧ (s.processes q).isThread = false)
    ⟨fun runs => ⟨runs.1,runs.2.1,runs.2.2.1,runs.2.2.2⟩,fun runs => ⟨runs.ordinary,runs.live,runs.alive,runs.process⟩⟩

/-- What a recorded pid can stand for. Threads have the pid 0 and the idle task has the pid 1. -/
inductive Known (ended : List Nat) (s : System) (pid : Nat) : Prop
  | thread (zero : pid = 0)
  | kernel (one : pid = 1)
  | gone (before : pid ∈ ended)
  | alive (q : Slot) (runs : Runs s q) (same : (s.processes q).pid = pid)

/-- No other record in use has the pid of record `i`. -/
def Only (s : System) (i : Slot) : Prop := ∀ j, Live s j → (s.processes j).pid = (s.processes i).pid → j = i

/-- `process_waitpid` takes the zombie `i` away when task `q` calls it with a pointer that
takes the exit code. -/
def CollectedBy (s : System) (q i : Slot) : Prop :=
  ∀ t statusPtr, t.processes = s.processes → currentLocal t 0 = some q → statusPtr ≠ 0 →
    (writeUserU32 t.vm (s.processes q).pageDirectory statusPtr (s.processes i).exitCode).2 = true →
      ((processWaitpid t 0 (s.processes i).pid statusPtr).1.processes i).state = .unused

/-- Where a zombie comes from and who can take it away: its parent, if it still runs, and the
kernel in any case. -/
structure Collectable (ended : List Nat) (s : System) (i : Slot) : Prop where
  origin : Known ended s (s.processes i).parentPid
  parent : ∀ q, Runs s q → (s.processes q).pid = (s.processes i).parentPid → Only s i → CollectedBy s q i
  kernel : Only s i → ((processReapPid s (s.processes i).pid).1.processes i).state = .unused

/-- The zombie waits for the scheduler to take it away, or its parent still runs. -/
def Awaited (s : System) (i : Slot) : Prop :=
  (s.processes i).reapPending = true ∧ currentLocal s 0 = some i ∨
    ∃ q, Runs s q ∧ (s.processes q).pid = (s.processes i).parentPid

instance Awaited.decidable (s : System) (i : Slot) : Decidable (Awaited s i) := inferInstanceAs (Decidable (_ ∨ _))

section Step
variable {s s' : System} {call : Call}

/-- A record that is a zombie after a call was one before or is the victim of the call. -/
theorem effect_dead {i : Slot} {p : Process} (effect : Effect s call i p) (dead : p.state = .zombie) :
    (s.processes i).state = .zombie ∨ victim s call = some i := by
  have through {c : Control} (same : p.control = c) : c.state = .zombie := by
    rw [← same]
    exact dead
  cases effect with
  | kept same => exact .inl (through same)
  | scheduled change =>
    cases change with
    | kept same => exact .inl (through same)
    | dispatched _ same => cases through same
    | preempted _ _ same => cases through same
    | reaped _ _ _ cleared => cases through cleared
  | spawned _ fresh =>
    rw [fresh.ready] at dead
    cases dead
  | replaced _ _ same => exact .inl (through same)
  | terminated ends => exact .inr ends
  | reaped => cases dead
  | stopped _ same => cases through same
  | continued _ _ same => cases through same
  | parentReleased | joinerReleased | woken | waits | joins | sleeps => cases dead

/-- A record that is in use before a call and free after it was a zombie. -/
theorem effect_freed {i : Slot} {p : Process} (effect : Effect s call i p) (live : Live s i) (free : p.state = .unused) :
    (s.processes i).state = .zombie := by
  have through {c : Control} (same : p.control = c) : c.state = .unused := by
    rw [← same]
    exact free
  cases effect with
  | kept same => exact absurd (through same) live
  | scheduled change =>
    cases change with
    | kept same => exact absurd (through same) live
    | dispatched _ same => cases through same
    | preempted _ _ same => cases through same
    | reaped _ dead => exact dead
  | spawned unused => exact absurd unused live
  | replaced _ _ same => exact absurd (through same) live
  | terminated _ same => cases through same
  | reaped _ dead => exact dead
  | stopped _ same => cases through same
  | continued _ _ same => cases through same
  | parentReleased | joinerReleased | woken | waits | joins | sleeps => cases free

/-- A process keeps its pid in a call that does not take it away. -/
theorem step_pid (sound : Sound s) {q : Slot} (live : Live s q) (kept : Live (step s call) q) :
    ((step s call).processes q).pid = (s.processes q).pid ∧
      ((step s call).processes q).isThread = (s.processes q).isThread := by
  rcases step_identity s sound call with (table | ⟨k,p,free,_,_,table⟩) | follows
  · rw [table]
    exact ⟨rfl,rfl⟩
  · have other : q ≠ k := by
      rintro rfl
      exact live (findFreeSlot_unused free)
    rw [table,Function.update_of_ne other]
    exact ⟨rfl,rfl⟩
  · have change := follows q
    unfold Live at kept
    generalize (step s call).processes q = p at change kept
    cases change with
    | kept same => exact ⟨congrArg Identity.pid same,congrArg Identity.isThread same⟩
    | reaped _ unused => exact absurd unused kept
    | moved _ _ _ same => exact ⟨congrArg Identity.pid same,congrArg Identity.isThread same⟩

/-- A running process still runs after a call, or the call ends it. -/
theorem Runs.step (sound : Sound s) {q : Slot} (runs : Runs s q) (call : Call) :
    Runs (step s call) q ∧ ((Processes.step s call).processes q).pid = (s.processes q).pid ∨
      (s.processes q).pid ∈ endedBy s call := by
  have effect := step_effect s sound.counter call q
  by_cases ends : victim s call = some q
  · right
    simp [endedBy,ends]
  · left
    have live : Live (Processes.step s call) q := fun free => runs.alive (effect_freed effect runs.live free)
    obtain ⟨pid,thread⟩ := step_pid sound runs.live live
    refine ⟨⟨runs.ordinary,live,?_,thread.trans runs.process⟩,pid⟩
    intro dead
    rcases effect_dead effect dead with before | ended
    · exact runs.alive before
    · exact ends ended

theorem Known.step {ended : List Nat} (sound : Sound s) {pid : Nat} (known : Known ended s pid) (call : Call) :
    Known (endedBy s call ++ ended) (step s call) pid := by
  cases known with
  | thread zero => exact .thread zero
  | kernel one => exact .kernel one
  | gone before => exact .gone (List.mem_append_right _ before)
  | alive q runs same =>
    rcases runs.step sound call with ⟨still,kept⟩ | ends
    · exact .alive q still (kept.trans same)
    · rw [same] at ends
      exact .gone (List.mem_append_left _ ends)

end Step

/-- The pids of the zombies are pids of ended processes, and each parent is known. -/
structure Remembered (ended : List Nat) (s : System) : Prop where
  sound : Sound s
  lineage : Lineage s
  idle : (s.processes bootstrap).pid = 1
  dead : ∀ i, (s.processes i).state = .zombie → (s.processes i).isThread = false → (s.processes i).pid ∈ ended
  parents : ∀ i, Live s i → (s.processes i).isThread = false → Known ended s (s.processes i).parentPid

section Memory
variable {ended : List Nat} {s : System} (remembered : Remembered ended s)
include remembered

/-- The pid in any record is known. -/
theorem Remembered.record (i : Slot) : Known ended s (s.processes i).pid := by
  by_cases idle : i = bootstrap
  · rw [idle]
    exact .kernel remembered.idle
  by_cases free : (s.processes i).state = .unused
  · exact .thread (remembered.lineage.blank i free)
  cases thread : (s.processes i).isThread with
  | true => exact .thread (remembered.lineage.thread i thread)
  | false =>
    by_cases dead : (s.processes i).state = .zombie
    · exact .gone (remembered.dead i dead thread)
    · exact .alive i ⟨idle,free,dead,thread⟩ rfl

theorem Remembered.creator (cpu : Nat) : Known ended s (creatorPid s cpu) := by
  unfold creatorPid
  split
  · exact remembered.record _
  · exact .kernel rfl

theorem Remembered.born {call : Call} {p : Process} (born : Born s call p) : Known ended s p.parentPid := by
  cases born with
  | process identity =>
    rw [show p.parentPid = creatorPid s 0 from congrArg Identity.parentPid identity]
    exact remembered.creator 0
  | @forked _ c _ _ caller ordinary pages identity =>
    rw [show p.parentPid = (s.processes c).pid from congrArg Identity.parentPid identity]
    exact remembered.record c
  | kernelThread identity => exact .thread (congrArg Identity.parentPid identity)
  | userThread _ _ identity => exact .thread (congrArg Identity.parentPid identity)

/-- The parent of a record that is in use after a call. -/
theorem Remembered.parent (call : Call) {i : Slot} (live : Live (step s call) i)
    (process : ((step s call).processes i).isThread = false) :
    Known ended s ((step s call).processes i).parentPid := by
  have idle : Known ended s 0 := .thread rfl
  rcases step_identity s remembered.sound call with (table | ⟨k,p,free,_,born,table⟩) | follows
  · unfold Live at live
    rw [table] at live process ⊢
    exact remembered.parents i live process
  · unfold Live at live
    rw [table] at live process ⊢
    by_cases new : i = k
    · rw [new,Function.update_self]
      exact remembered.born born
    · rw [Function.update_of_ne new] at live process ⊢
      exact remembered.parents i live process
  · have change := follows i
    unfold Live at live
    generalize (step s call).processes i = p at change live process
    -- a task without a record that goes to sleep gets one with the pid and the parent 0
    have old (pid : p.pid = (s.processes i).pid) (thread : p.isThread = (s.processes i).isThread)
        (parent : p.parentPid = (s.processes i).parentPid) : Known ended s p.parentPid := by
      rw [parent]
      by_cases unused : (s.processes i).state = .unused
      · rw [remembered.lineage.orphan i (remembered.lineage.blank i unused)]
        exact idle
      · exact remembered.parents i unused (thread ▸ process)
    cases change with
    | kept same =>
      exact old (congrArg Identity.pid same) (congrArg Identity.isThread same) (congrArg Identity.parentPid same)
    | reaped _ unused => exact absurd unused live
    | moved _ _ _ same =>
      exact old (congrArg Identity.pid same) (congrArg Identity.isThread same) (congrArg Identity.parentPid same)

theorem Remembered.zombie (call : Call) {i : Slot} (dead : ((step s call).processes i).state = .zombie)
    (process : ((step s call).processes i).isThread = false) :
    ((step s call).processes i).pid ∈ endedBy s call ++ ended := by
  rcases effect_dead (step_effect s remembered.sound.counter call i) dead with before | ends
  · have live : Live s i := by
      unfold Live
      rw [before]
      nofun
    have kept : Live (step s call) i := by
      unfold Live
      rw [dead]
      nofun
    obtain ⟨pid,thread⟩ := step_pid remembered.sound live kept
    rw [pid]
    exact List.mem_append_right _ (remembered.dead i before (thread ▸ process))
  · have pid : ((step s call).processes i).pid = (s.processes i).pid := congrArg Control.pid (victim_record ends)
    rw [pid,endedBy,ends]
    exact List.mem_append_left _ (List.mem_singleton_self _)

theorem Remembered.step (call : Call) : Remembered (endedBy s call ++ ended) (Processes.step s call) := by
  have sound := remembered.sound
  refine ⟨sound_step sound call,lineage_step remembered.lineage sound call,?_,?_,?_⟩
  · exact (step_pid sound sound.taken (sound_step sound call).taken).1.trans remembered.idle
  · intro i dead process
    exact remembered.zombie call dead process
  · intro i live process
    exact (remembered.parent call live process).step sound call

end Memory

section Table
variable {s t : System} (table : t.processes = s.processes)
include table

theorem Known.congr {ended : List Nat} {pid : Nat} (known : Known ended s pid) : Known ended t pid := by
  cases known with
  | thread zero => exact .thread zero
  | kernel one => exact .kernel one
  | gone before => exact .gone before
  | alive q runs same =>
    obtain ⟨ordinary,live,alive,process⟩ := runs
    unfold Live at live
    rw [← table] at live alive process same
    exact .alive q ⟨ordinary,live,alive,process⟩ same

/-- What is remembered is about the records and the counters. -/
theorem Remembered.congr {ended : List Nat} (remembered : Remembered ended s) (pids : t.nextPid = s.nextPid)
    (tids : t.nextTid = s.nextTid) : Remembered ended t := by
  obtain ⟨⟨counter,threads,process,alive,taken⟩,⟨next,thread,blank,orphan,root⟩,idle,dead,parents⟩ := remembered
  have known (i : Slot) (live : Live t i) (process : (t.processes i).isThread = false) :
      Known ended t (t.processes i).parentPid := by
    unfold Live at live
    rw [table] at live process ⊢
    exact (parents i live process).congr table
  rw [← pids] at next
  rw [← tids] at counter
  rw [← table] at threads process alive taken thread blank orphan root idle dead
  exact ⟨⟨counter,threads,process,alive,taken⟩,⟨next,thread,blank,orphan,root⟩,idle,dead,known⟩

end Table

theorem boot_remembered (s : System) (idle schedule : Nat) : Remembered [] (boot s idle schedule) := by
  refine ⟨boot_sound s idle schedule,boot_lineage s idle schedule,?_,?_,?_⟩
  · exact congrArg Control.pid (boot_record s idle schedule bootstrap)
  · intro i dead
    have state := congrArg Control.state (boot_record s idle schedule i)
    split at state
    · cases dead.symm.trans state
    · cases dead.symm.trans state
  · intro i _ _
    refine .thread ((congrArg Control.parentPid (boot_record s idle schedule i)).trans ?_)
    split <;> rfl

/-- A history tells of the same machine. -/
theorem history_system (h : History) (calls : List Call) :
    (run History.step h calls).system = run step h.system calls := by
  induction calls generalizing h with
  | nil => rfl
  | cons call rest ih => exact ih (h.step call)

theorem run_remembered (s : System) (idle schedule : Nat) (calls : List Call) :
    Remembered (run History.step (History.boot s idle schedule) calls).ended
      (run step (boot s idle schedule) calls) := by
  have preserved (h : History) (call : Call) (remembered : Remembered h.ended h.system) :
      Remembered (h.step call).ended (h.step call).system := remembered.step call
  have remembered := @run_invariant _ _ History.step (fun h => Remembered h.ended h.system) preserved
    (History.boot s idle schedule) calls (boot_remembered s idle schedule)
  rwa [history_system] at remembered

/-! ### Collecting a zombie -/

theorem reapProcess_free {s : System} {i : Slot} (dead : (s.processes i).state = .zombie) :
    ((reapProcess s i).processes i).state = .unused := by
  rw [reapProcess_record,if_pos ⟨dead,rfl⟩]
  rfl

section Collecting
variable {s : System} {i : Slot} (dead : (s.processes i).state = .zombie) (only : Only s i)
include dead only

theorem Only.collected (lineage : Lineage s) {q : Slot} (ordinary : i ≠ bootstrap) (runs : Runs s q)
    (parent : (s.processes q).pid = (s.processes i).parentPid) : CollectedBy s q i := by
  -- a zombie without a pid has no parent either, so that its parent would be itself
  have numbered : (s.processes i).pid ≠ 0 := by
    intro zero
    rw [lineage.orphan i zero] at parent
    have own := only q runs.live (parent.trans zero.symm)
    rw [← own] at dead
    exact runs.alive dead
  intro t statusPtr table caller nonnull written
  have child : isChildOf (s.processes i) (s.processes q).pid (s.processes i).pid = true := by
    simp [isChildOf,dead,parent]
  have found : findZombieChild t (s.processes q).pid (s.processes i).pid = some i := by
    apply find_slot_only
    · simp [table,ordinary,child,dead]
    · intro j test
      simp only [table,isChildOf,Bool.and_eq_true,decide_eq_true_eq,Bool.or_eq_true] at test
      obtain ⟨⟨_,⟨live,_⟩,matching⟩,_⟩ := test
      exact only j live (matching.resolve_left numbered)
  have valid : ¬ (q = bootstrap ∨ statusPtr = 0) := not_or.mpr ⟨runs.ordinary,nonnull⟩
  simp only [processWaitpid,caller,if_neg valid,table,found]
  split
  next refused =>
    rw [refused] at written
    cases written
  next => exact reapProcess_free dead

theorem Only.reaped : ((processReapPid s (s.processes i).pid).1.processes i).state = .unused := by
  have found : findPid s (s.processes i).pid = some i := by
    apply find_slot_only
    · simp [dead]
    · intro j test
      simp only [Bool.and_eq_true,decide_eq_true_eq] at test
      exact only j test.1 test.2
  simp only [processReapPid,found,dead,ne_eq,not_true,if_false]
  exact reapProcess_free dead

end Collecting

/-- In every run the parent of a zombie is a process that runs, the kernel, a thread, or a
process that has ended before. A parent that runs can take it away, and so can the kernel. -/
theorem zombies_collectable (s : System) (idle schedule : Nat) (calls : List Call) (i : Slot)
    (dead : ((run step (boot s idle schedule) calls).processes i).state = .zombie)
    (process : ((run step (boot s idle schedule) calls).processes i).isThread = false) :
    Collectable (run History.step (History.boot s idle schedule) calls).ended (run step (boot s idle schedule) calls) i := by
  have remembered := run_remembered s idle schedule calls
  have live : Live (run step (boot s idle schedule) calls) i := by
    unfold Live
    rw [dead]
    nofun
  have ordinary : i ≠ bootstrap := by
    rintro rfl
    exact remembered.sound.alive dead
  refine ⟨remembered.parents i live process,?_,?_⟩
  · intro q runs parent only
    exact only.collected dead remembered.lineage ordinary runs parent
  · intro only
    exact only.reaped dead

/-- The program forks and kills its child: the child waits for its parent. -/
def killedChild : List Call := launch (boot blank 0x1000 0x2000) ++ [.fork zeroFrame,.kill 3 sigKill]

theorem killed_child_collectable :
    Collectable (run History.step (History.boot blank 0x1000 0x2000) killedChild).ended
      (run step (boot blank 0x1000 0x2000) killedChild) 2 :=
  zombies_collectable blank 0x1000 0x2000 killedChild 2 (by decide +kernel) (by decide +kernel)

/-- The program, which the kernel has started, ends before its dead child is collected. -/
theorem orphan_stays :
    ¬ ∀ (s : System) (idle schedule : Nat) (calls : List Call) (i : Slot),
      ((run step (boot s idle schedule) calls).processes i).state = .zombie →
        ((run step (boot s idle schedule) calls).processes i).isThread = false →
          Awaited (run step (boot s idle schedule) calls) i := by
  intro awaited
  have left := awaited blank 0x1000 0x2000 (killedChild ++ [.exit 0] ++ yield) 2 (by decide +kernel) (by decide +kernel)
  revert left
  decide +kernel

end LionOS.Processes

import LionOS.Calls.Completion
import LionOS.Calls.Copyouts

/-! Which interrupts make the kernel store to a page of a process that the process may
not write to. The calls that check their buffers with `user_range_ok_write` never do;
status words and the bytes of a pipe are stored without that check. -/
namespace LionOS.Calls
open LionOS.Memory LionOS.Physical LionOS.Paging LionOS.Processes LionOS.Channels LionOS.Files LionOS.Exec

/-- The address spaces of the tasks. -/
def TaskSpace (s : System) (pd : Nat) : Prop :=
  ∃ i, i ≠ bootstrap ∧ (s.processes i).state ≠ .unused ∧ (s.processes i).pageDirectory = pd

/-- A user task runs in its address space, and the page tables of every task are formed. -/
structure Prepared (s : System) (cpu : Nat) : Prop where
  caller : ∃ c, currentLocal s cpu = some c ∧ c ≠ bootstrap ∧ (s.processes c).state ≠ .unused ∧
    s.vm.currentDirectory cpu = (s.processes c).pageDirectory
  spaces : ∀ i, i ≠ bootstrap → (s.processes i).state ≠ .unused →
    ∃ role, Kept role s.vm.pages ∧ Space role s.vm (s.processes i).pageDirectory

/-- The end of `child` stores to the status word of the parent that waits for it, which
is read-only. -/
def parentReadOnly (s : System) (child : Slot) : Bool :=
  (parentOf s child).any fun i => readOnlyWord s.vm (s.processes i).pageDirectory (s.processes i).waitStatusPtr

/-- The same for the task that waits to join a thread. -/
def joinerReadOnly (s : System) (thread : Slot) : Bool :=
  (waitingJoiner (terminate s thread 0) (s.processes thread).tid).any fun i =>
    readOnlyWord s.vm (s.processes i).pageDirectory (s.processes i).joinStatusPtr

def exitReadOnly (s : System) (cpu : Nat) : Bool :=
  (currentLocal s cpu).any fun c =>
    if (s.processes c).isThread then joinerReadOnly s c else decide (c ≠ bootstrap) && parentReadOnly s c

def waitpidReadOnly (s : System) (cpu pid ptr : Nat) : Bool :=
  userRangeOk s.vm cpu ptr 4 && (currentLocal s cpu).any fun c =>
    decide (c ≠ bootstrap) && (findZombieChild s (s.processes c).pid pid).isSome &&
      readOnlyWord s.vm (s.processes c).pageDirectory ptr

def joinReadOnly (s : System) (cpu tid ptr : Nat) : Bool :=
  userRangeOk s.vm cpu ptr 4 && (currentLocal s cpu).any fun c =>
    !(s.processes c).isThread && decide (tid ≠ 0) &&
      (joinTarget s (s.processes c).threadGroupPid tid).any (fun i => decide ((s.processes i).state = .zombie)) &&
      readOnlyWord s.vm (s.processes c).pageDirectory ptr

def killReadOnly (s : System) (cpu pid signal : Nat) : Bool :=
  killPermitted s cpu pid signal && decide (signal = sigKill ∨ signal = sigTerm) &&
    (findPid s pid).any fun i => decide (i ≠ bootstrap) && parentReadOnly s i

/-- The pipe has bytes for a buffer that cannot be stored to all over. -/
def pipeReadOnly (k : Kernel) (cpu handle ptr capacity : Nat) : Bool :=
  decide (capacity ≠ 0) && decide (capacity ≤ ipcMessageMax) && userRangeOk k.sys.vm cpu ptr capacity &&
    match decode handle with
    | none => false
    | some (id,side) =>
      decide (side = 0) && (k.pipes id).used && decide ((k.pipes id).ownerPid = currentPid k.sys cpu) &&
        !(List.range (min (k.pipes id).count capacity)).all fun i =>
          writableAt k.sys.vm (k.sys.vm.currentDirectory cpu) (ptr + i)

def storesReadOnly (k : Kernel) (cpu a0 a1 a2 : Nat) : Syscall → Bool
  | .exit | .threadExit => exitReadOnly k.sys cpu
  | .waitpid => waitpidReadOnly k.sys cpu a0 a1
  | .threadJoin => joinReadOnly k.sys cpu a0 a1
  | .kill => killReadOnly k.sys cpu a0 a1
  | .pipeRead => pipeReadOnly k cpu a0 a1 a2
  | _ => false

def trapReadOnly (k : Kernel) (cpu : Nat) (frame : Frame) : Bool :=
  decide (frame.eax ≠ sysForkNumber) && (syscallOf frame.eax).any fun call =>
    permitted k cpu call && storesReadOnly k cpu frame.ebx frame.ecx frame.edx call

def interruptReadOnly (k : Kernel) (cpu : Nat) (env : Env) (frame : Frame) : Bool :=
  if frame.vector = 128 then trapReadOnly k cpu frame
  else if frame.vector = 14 then (resolvedFault k cpu env frame).isNone && exitReadOnly k.sys cpu
  else decide (frame.vector < 32) && exitReadOnly k.sys cpu

section Ends
variable {s : System} {cpu : Nat}

theorem Prepared.word (prepared : Prepared s cpu) {i : Slot} (ordinary : i ≠ bootstrap)
    (alive : (s.processes i).state ≠ .unused) (ptr value : Nat) :
    Writes (TaskSpace s) s.vm (writeUserU32 s.vm (s.processes i).pageDirectory ptr value).1 ↔
      readOnlyWord s.vm (s.processes i).pageDirectory ptr = false := by
  obtain ⟨role,kept,space⟩ := prepared.spaces i ordinary alive
  constructor
  · intro writes
    by_contra readOnly
    exact writeUserU32_readOnly value (Bool.not_eq_false _ ▸ readOnly) writes
  · intro allowed
    exact writeUserU32_writes kept space ⟨i,ordinary,alive,rfl⟩ value allowed

/-- A task that ends reports to its parent, in the state `t` where it is a zombie. -/
theorem wakeWaitingParent_writes (prepared : Prepared s cpu) {t : System} {child : Slot} (memory : t.vm = s.vm)
    (dead : (t.processes child).state = .zombie) (others : ∀ i, i ≠ child → t.processes i = s.processes i)
    (parent : waitingParent t child = parentOf s child) :
    Writes (TaskSpace s) s.vm (wakeWaitingParent t child).vm ↔ parentReadOnly s child = false := by
  unfold wakeWaitingParent parentReadOnly
  rw [← parent]
  cases found : waitingParent t child with
  | none => exact ⟨fun _ => rfl,fun _ => .silent (congrArg Vm.userStores memory)⟩
  | some i =>
    obtain ⟨ordinary,waiting,_⟩ := waitingParent_found found
    have apart : i ≠ child := by
      rintro rfl
      rw [dead] at waiting
      cases waiting
    rw [others i apart] at waiting
    have word := prepared.word ordinary (by rw [waiting]; nofun) (s.processes i).waitStatusPtr (t.processes child).exitCode
    simp only [Option.any_some,others i apart,memory]
    split_ifs with absent
    · rw [absent]
      exact ⟨fun _ => rfl,fun _ => .silent rfl⟩
    · exact word

theorem wakeJoiner_writes (prepared : Prepared s cpu) {t : System} {thread : Slot} {code : Nat} (memory : t.vm = s.vm)
    (dead : (t.processes thread).state = .zombie) (others : ∀ i, i ≠ thread → t.processes i = s.processes i)
    (joiner : waitingJoiner t (s.processes thread).tid = waitingJoiner (terminate s thread 0) (s.processes thread).tid) :
    Writes (TaskSpace s) s.vm (wakeJoiner t (s.processes thread).tid code).vm ↔ joinerReadOnly s thread = false := by
  unfold wakeJoiner joinerReadOnly
  rw [← joiner]
  cases found : waitingJoiner t (s.processes thread).tid with
  | none => exact ⟨fun _ => rfl,fun _ => .silent (congrArg Vm.userStores memory)⟩
  | some i =>
    obtain ⟨ordinary,waiting,_⟩ := waitingJoiner_found found
    have apart : i ≠ thread := by
      rintro rfl
      rw [dead] at waiting
      cases waiting
    rw [others i apart] at waiting
    have word := prepared.word ordinary (by rw [waiting]; nofun) (s.processes i).joinStatusPtr code
    simp only [Option.any_some,others i apart,memory]
    split_ifs with absent
    · rw [absent]
      exact ⟨fun _ => rfl,fun _ => .silent rfl⟩
    · exact word

theorem processExitCurrent_writes (prepared : Prepared s cpu) (code : Nat) :
    Writes (TaskSpace s) s.vm (processExitCurrent s cpu code).vm ↔ exitReadOnly s cpu = false := by
  obtain ⟨c,caller,ordinary,_⟩ := prepared.caller
  have dead : ((terminate s c code).processes c).state = .zombie := by simp
  have others (i : Slot) (apart : i ≠ c) : (terminate s c code).processes i = s.processes i := by simp [apart]
  simp only [processExitCurrent,exitReadOnly,caller,Option.any_some]
  by_cases thread : (s.processes c).isThread = true
  · rw [if_pos thread,if_pos thread]
    exact wakeJoiner_writes prepared rfl dead others (waitingJoiner_code s c (s.processes c).tid code)
  · rw [if_neg thread,if_neg thread,if_neg ordinary,decide_eq_true ordinary,Bool.true_and]
    exact wakeWaitingParent_writes prepared rfl dead others (waitingParent_code s c code)

theorem sysKill_writes (prepared : Prepared s cpu) (pid signal : Nat) :
    Writes (TaskSpace s) s.vm (sysKill s cpu pid signal).1.vm ↔ killReadOnly s cpu pid signal = false := by
  unfold sysKill killReadOnly
  by_cases granted : killPermitted s cpu pid signal = true
  · rw [if_pos granted,granted,Bool.true_and]
    unfold processSignal
    cases found : findPid s pid with
    | none =>
      rw [Option.any_none,Bool.and_false]
      exact ⟨fun _ => rfl,fun _ => .silent rfl⟩
    | some i =>
      have bounds : signal ≠ 0 ∧ signal ≤ sigMax := by
        simp only [killPermitted,Bool.and_eq_true,decide_eq_true_eq] at granted
        exact ⟨granted.1.2,granted.2⟩
      simp only [Option.any_some]
      by_cases boot : i = bootstrap
      · rw [if_pos (.inl boot),decide_eq_false (not_not.mpr boot),Bool.false_and,Bool.and_false]
        exact ⟨fun _ => rfl,fun _ => .silent rfl⟩
      · rw [if_neg (not_or.mpr ⟨boot,by omega⟩),decide_eq_true boot,Bool.true_and]
        by_cases fatal : signal = sigKill ∨ signal = sigTerm
        · rw [if_pos fatal,decide_eq_true fatal,Bool.true_and]
          refine wakeWaitingParent_writes prepared ?_ ?_ ?_ ?_
          · rfl
          · simp
          · intro j apart
            simp [apart]
          · exact waitingParent_terminated (128 + signal) (setProcess_processes _ _ _) rfl
        · rw [if_neg fatal,decide_eq_false fatal,Bool.false_and]
          split_ifs
          all_goals exact ⟨fun _ => rfl,fun _ => .silent rfl⟩
  · rw [if_neg granted,Bool.eq_false_iff.mpr granted,Bool.false_and,Bool.false_and]
    exact ⟨fun _ => rfl,fun _ => .silent rfl⟩

theorem Writes.log {live : Nat → Prop} {base vm vm' : Vm} (same : vm'.userStores = vm.userStores) :
    Writes live base vm' ↔ Writes live base vm := by
  unfold Writes
  rw [same]

theorem silent_iff {live : Nat → Prop} {vm vm' : Vm} {readOnly : Bool} (same : vm'.userStores = vm.userStores)
    (allowed : readOnly = false) : Writes live vm vm' ↔ readOnly = false :=
  ⟨fun _ => allowed,fun _ => .silent same⟩

/-- The status word of a collected task, and the collection after it. -/
theorem collect_writes (prepared : Prepared s cpu) {c : Slot} (ordinary : c ≠ bootstrap)
    (alive : (s.processes c).state ≠ .unused) (z : Slot) (ptr value : Nat) (result : Int) :
    Writes (TaskSpace s) s.vm (match writeUserU32 s.vm (s.processes c).pageDirectory ptr value with
      | (vm,false) => (({s with vm},-1) : System × Int)
      | (vm,true) => (reapProcess {s with vm} z,result)).1.vm ↔
        readOnlyWord s.vm (s.processes c).pageDirectory ptr = false := by
  rw [← prepared.word ordinary alive ptr value]
  apply Writes.log
  generalize writeUserU32 s.vm (s.processes c).pageDirectory ptr value = written
  obtain ⟨vm,ok⟩ := written
  cases ok with
  | false => rfl
  | true => exact reapProcess_log _ _

theorem processWaitpid_writes (prepared : Prepared s cpu) (pid ptr : Nat) :
    Writes (TaskSpace s) s.vm (processWaitpid s cpu pid ptr).1.vm ↔
      ((currentLocal s cpu).any fun c =>
        decide (c ≠ bootstrap) && (findZombieChild s (s.processes c).pid pid).isSome &&
          readOnlyWord s.vm (s.processes c).pageDirectory ptr) = false := by
  obtain ⟨c,caller,ordinary,alive,_⟩ := prepared.caller
  simp only [processWaitpid,caller,Option.any_some,decide_eq_true ordinary,Bool.true_and]
  by_cases null : ptr = 0
  · rw [if_pos (.inr null)]
    exact silent_iff rfl (by simp [readOnlyWord,null])
  · rw [if_neg (not_or.mpr ⟨ordinary,null⟩)]
    cases found : findZombieChild s (s.processes c).pid pid with
    | some z =>
      rw [Option.isSome_some,Bool.true_and]
      exact collect_writes prepared ordinary alive z ptr _ _
    | none =>
      rw [Option.isSome_none,Bool.false_and]
      refine silent_iff ?_ rfl
      simp only
      split_ifs <;> rfl

theorem processJoinThread_writes (prepared : Prepared s cpu) (tid ptr : Nat) :
    Writes (TaskSpace s) s.vm (processJoinThread s cpu tid ptr).1.vm ↔
      ((currentLocal s cpu).any fun c =>
        !(s.processes c).isThread && decide (tid ≠ 0) &&
          (joinTarget s (s.processes c).threadGroupPid tid).any (fun i => decide ((s.processes i).state = .zombie)) &&
          readOnlyWord s.vm (s.processes c).pageDirectory ptr) = false := by
  obtain ⟨c,caller,ordinary,alive,_⟩ := prepared.caller
  simp only [processJoinThread,caller,Option.any_some]
  by_cases refused : (s.processes c).isThread = true ∨ tid = 0 ∨ ptr = 0
  · rw [if_pos refused]
    apply silent_iff rfl
    rcases refused with thread | absent | null
    · simp [thread]
    · simp [absent]
    · simp [readOnlyWord,null]
  · rw [if_neg refused]
    simp only [not_or,Bool.not_eq_true] at refused
    rw [refused.1,Bool.not_false,decide_eq_true refused.2.1,Bool.true_and,Bool.true_and]
    cases found : joinTarget s (s.processes c).threadGroupPid tid with
    | none => exact silent_iff rfl rfl
    | some i =>
      simp only [Option.any_some]
      by_cases dead : (s.processes i).state = .zombie
      · rw [if_pos dead,decide_eq_true dead,Bool.true_and]
        exact collect_writes prepared ordinary alive i ptr _ _
      · rw [if_neg dead,decide_eq_false dead,Bool.false_and]
        exact silent_iff rfl rfl

end Ends

section Traps
variable {k : Kernel} {cpu : Nat}

theorem Prepared.loaded (prepared : Prepared k.sys cpu) :
    ∃ role, Loaded (TaskSpace k.sys) role k.sys.vm cpu k.sys.vm := by
  obtain ⟨c,_,ordinary,alive,directory⟩ := prepared.caller
  obtain ⟨role,kept,space⟩ := prepared.spaces c ordinary alive
  refine ⟨role,kept,?_,⟨c,ordinary,alive,directory.symm⟩,.silent rfl⟩
  rw [directory]
  exact space

theorem safe_iff {live : Nat → Prop} {base : Vm} {k' : Kernel} {value : Nat} :
    Safe live base (some (k',value)) ↔ Writes live base k'.sys.vm := by
  constructor
  · rintro ⟨_,_,⟨⟩,writes⟩
    exact writes
  · intro writes
    exact ⟨k',value,rfl,writes⟩

theorem sysWaitpid_safe (prepared : Prepared k.sys cpu) (pid ptr : Nat) :
    Safe (TaskSpace k.sys) k.sys.vm (sysWaitpid k cpu pid ptr) ↔ waitpidReadOnly k.sys cpu pid ptr = false := by
  unfold sysWaitpid waitpidReadOnly
  by_cases checked : userRangeOk k.sys.vm cpu ptr 4 = true
  · rw [if_pos checked,checked,Bool.true_and,← processWaitpid_writes prepared pid ptr]
    exact safe_iff
  · rw [if_neg checked,Bool.eq_false_iff.mpr checked,Bool.false_and]
    exact ⟨fun _ => rfl,fun _ => .refused (.silent rfl)⟩

theorem sysThreadJoin_safe (prepared : Prepared k.sys cpu) (tid ptr : Nat) :
    Safe (TaskSpace k.sys) k.sys.vm (sysThreadJoin k cpu tid ptr) ↔ joinReadOnly k.sys cpu tid ptr = false := by
  unfold sysThreadJoin joinReadOnly
  by_cases checked : userRangeOk k.sys.vm cpu ptr 4 = true
  · rw [if_pos checked,checked,Bool.true_and,← processJoinThread_writes prepared tid ptr]
    exact safe_iff
  · rw [if_neg checked,Bool.eq_false_iff.mpr checked,Bool.false_and]
    exact ⟨fun _ => rfl,fun _ => .refused (.silent rfl)⟩

theorem popBytes_length (p : PipeState) (n : Nat) : (popBytes p n).2.length = n := by
  induction n generalizing p with
  | zero => rfl
  | succ n ih => rw [popBytes,List.length_cons,ih]

/-- Stores that are not preceded by a check succeed where all their pages are writable. -/
theorem storing_iff {live : Nat → Prop} {role : Nat → Role} {k' : Kernel} {ptr : Nat} {bytes : List Byte}
    {values : Kernel → Nat} (loaded : Loaded live role k.sys.vm cpu k.sys.vm) (same : k'.sys.vm = k.sys.vm) :
    Safe live k.sys.vm (storing k' cpu ptr bytes fun k => some (k,values k)) ↔
      (!(List.range bytes.length).all fun i => writableAt k.sys.vm (k.sys.vm.currentDirectory cpu) (ptr + i)) = false := by
  rw [← same] at loaded ⊢
  rw [Bool.not_eq_false',List.all_eq_true]
  constructor
  · rintro ⟨k'',value,served,_⟩ i member
    by_contra readOnly
    rw [storing,storeUserBytes_faults loaded.space.formed loaded.own (List.mem_range.mp member)
      (Bool.eq_false_iff.mpr readOnly)] at served
    cases served
  · intro writable
    exact storing_done loaded.space.formed loaded.own loaded.writes
      fun i inside => writable i (List.mem_range.mpr inside)

/-- The bytes of a pipe go to its buffer without a check of the pages. -/
theorem sysPipeRead_safe (prepared : Prepared k.sys cpu) (handle ptr capacity : Nat) :
    Safe (TaskSpace k.sys) k.sys.vm (sysPipeRead k cpu handle ptr capacity) ↔
      pipeReadOnly k cpu handle ptr capacity = false := by
  obtain ⟨role,loaded⟩ := prepared.loaded
  unfold sysPipeRead pipeReadOnly
  by_cases refused : capacity = 0 ∨ capacity > ipcMessageMax ∨ userRangeOk k.sys.vm cpu ptr capacity = false
  · rw [if_pos refused]
    refine ⟨fun _ => ?_,fun _ => .refused loaded.writes⟩
    rcases refused with empty | long | unchecked
    · simp [empty]
    · rw [decide_eq_false (by omega : ¬ capacity ≤ ipcMessageMax),Bool.and_false,Bool.false_and,Bool.false_and]
    · rw [unchecked,Bool.and_false,Bool.false_and]
  · rw [if_neg refused]
    simp only [not_or,Bool.not_eq_false] at refused
    rw [decide_eq_true refused.1,decide_eq_true (by omega : capacity ≤ ipcMessageMax),refused.2.2,Bool.true_and,
      Bool.true_and,Bool.true_and]
    unfold pipeRead
    cases decode handle with
    | none => exact ⟨fun _ => rfl,fun _ => .done loaded.writes _⟩
    | some half =>
      obtain ⟨id,side⟩ := half
      simp only
      by_cases writer : side ≠ 0 ∨ capacity = 0
      · rw [if_pos writer,decide_eq_false (by omega : ¬ side = 0)]
        exact ⟨fun _ => rfl,fun _ => .done loaded.writes _⟩
      rw [if_neg writer,decide_eq_true (by omega : side = 0),Bool.true_and]
      by_cases foreign : (k.pipes id).used = false ∨ (k.pipes id).ownerPid ≠ currentPid k.sys cpu
      · rw [if_pos foreign]
        refine ⟨fun _ => ?_,fun _ => .done loaded.writes _⟩
        rcases foreign with unused | other
        · rw [unused,Bool.false_and,Bool.false_and]
        · rw [decide_eq_false other,Bool.and_false,Bool.false_and]
      rw [if_neg foreign]
      simp only [not_or,Bool.not_eq_false,not_not] at foreign
      rw [foreign.1,decide_eq_true foreign.2,Bool.true_and,Bool.true_and]
      by_cases empty : (k.pipes id).count ≠ 0
      · rw [if_pos empty]
        have bytes := popBytes_length (k.pipes id) (min (k.pipes id).count capacity)
        have same := processWakeup_vm k.sys (pipeChannel id 1)
        generalize popBytes (k.pipes id) (min (k.pipes id).count capacity) = popped at *
        obtain ⟨pipe,data⟩ := popped
        rw [← bytes]
        exact storing_iff loaded same
      · rw [if_neg empty,not_not.mp empty,Nat.zero_min]
        refine ⟨fun _ => rfl,fun _ => ?_⟩
        split_ifs
        · exact .done loaded.writes _
        · exact loaded.silent (congrArg Vm.userStores (processSleepOn_vm k.sys cpu (pipeChannel id 0))) _

theorem serve_safe (prepared : Prepared k.sys cpu) (a0 a1 a2 a3 a4 : Nat) (call : Syscall) :
    Safe (TaskSpace k.sys) k.sys.vm (serve k cpu a0 a1 a2 a3 a4 call) ↔ storesReadOnly k cpu a0 a1 a2 call = false := by
  obtain ⟨role,loaded⟩ := prepared.loaded
  have always {out : Outcome} (safe : Safe (TaskSpace k.sys) k.sys.vm out) :
      Safe (TaskSpace k.sys) k.sys.vm out ↔ false = false := ⟨fun _ => rfl,fun _ => safe⟩
  cases call with
  | exit => exact safe_iff.trans (processExitCurrent_writes prepared a0)
  | threadExit => exact safe_iff.trans (processExitCurrent_writes prepared a0)
  | waitpid => exact sysWaitpid_safe prepared a0 a1
  | threadJoin => exact sysThreadJoin_safe prepared a0 a1
  | kill => exact safe_iff.trans (sysKill_writes prepared a0 a1)
  | pipeRead => exact sysPipeRead_safe prepared a0 a1 a2
  | mouseRead => exact always (sysMouseRead_safe loaded a0)
  | write => exact always (sysWrite_safe loaded a0 a1)
  | read => exact always (sysRead_safe loaded a0 a1)
  | exec => exact always (sysExec_safe loaded a0)
  | fopen => exact always (sysOpen_safe loaded a0 a1)
  | fclose => exact always (sysClose_safe loaded a0)
  | fread => exact always (sysFread_safe loaded a0 a1 a2)
  | fwrite => exact always (sysFwrite_safe loaded a0 a1 a2)
  | remove => exact always (sysRemove_safe loaded a0)
  | stat => exact always (sysStat_safe loaded a0 a1)
  | getfile => exact always (sysGetfile_safe loaded a0 a1 a2)
  | ipcSend => exact always (sysIpcSend_safe loaded a0 a1 a2)
  | ipcRecv => exact always (sysIpcRecv_safe loaded a0 a1 a2)
  | ipcRecvBlocking => exact always (sysIpcRecvBlocking_safe loaded a0 a1 a2)
  | pipeCreate => exact always (sysPipeCreate_safe loaded a0 a1)
  | pipeWrite => exact always (sysPipeWrite_safe loaded a0 a1 a2)
  | netSend => exact always (sysNetSend_safe loaded a0 a1 a2 a3)
  | netRecv => exact always (sysNetRecv_safe loaded a0 a1 a2 a3 a4)
  | pipeClose =>
    exact always (loaded.silent (congrArg Vm.userStores (pipeClose_vm k.sys cpu k.pipes a0)) _)
  | threadCreate =>
    apply always
    show Safe _ _ (sysThreadCreate k cpu a0)
    unfold sysThreadCreate
    split_ifs
    · exact .refused loaded.writes
    · obtain ⟨c,caller,_,_,directory⟩ := prepared.caller
      have current (d : Slot) (found : currentLocal k.sys cpu = some d) :
          k.sys.vm.currentDirectory cpu = (k.sys.processes d).pageDirectory := by
        rw [caller] at found
        cases found
        exact directory
      obtain ⟨s',tid,made,writes⟩ := processCreateUserThread_safe loaded a0 current
      rw [made]
      exact .done writes _
  | getchar =>
    apply always
    show Safe _ _ (sysGetchar k)
    unfold sysGetchar
    split
    · exact .refused loaded.writes
    · refine loaded.silent ?_ _
      rfl
  | abiVersion | putc | getpid | gettid | yield | kbdAvail | mousePending | clear | meminfo | fork | ipcPending
  | getppid | getstate | sigpending | netPending | netGetip | netPing => exact always (.done loaded.writes _)

theorem syscallDispatch_safe (prepared : Prepared k.sys cpu) (number a0 a1 a2 a3 a4 : Nat) :
    Safe (TaskSpace k.sys) k.sys.vm (syscallDispatch k cpu number a0 a1 a2 a3 a4) ↔
      ((syscallOf number).any fun call => permitted k cpu call && storesReadOnly k cpu a0 a1 a2 call) = false := by
  unfold syscallDispatch
  cases syscallOf number with
  | none => exact ⟨fun _ => rfl,fun _ => .refused (.silent rfl)⟩
  | some call =>
    simp only [Option.any_some]
    by_cases granted : permitted k cpu call = true
    · rw [if_pos granted,granted,Bool.true_and]
      exact serve_safe prepared a0 a1 a2 a3 a4 call
    · rw [if_neg granted,Bool.eq_false_iff.mpr granted,Bool.false_and]
      exact ⟨fun _ => rfl,fun _ => .refused (.silent rfl)⟩

end Traps

section Interrupts
variable {k : Kernel} {cpu : Nat}

/-- An interrupt that does not end in a kernel panic, and whose stores to user memory all
went through writable pages. -/
def SafeInterrupt (k : Kernel) (out : Dispatched) : Prop :=
  ∃ k' next, out = some (k',next) ∧ Writes (TaskSpace k.sys) k.sys.vm k'.sys.vm

theorem tick_safe (k' : Kernel) (acquired : Bool) (frame : Frame) :
    SafeInterrupt k (k'.tick cpu acquired frame) ↔ Writes (TaskSpace k.sys) k.sys.vm k'.sys.vm := by
  rw [← Writes.log (scheduleTick_log k'.sys cpu acquired frame)]
  unfold SafeInterrupt Kernel.tick
  generalize scheduleTick k'.sys cpu acquired frame = ticked
  obtain ⟨sys,next⟩ := ticked
  constructor
  · rintro ⟨_,_,⟨⟩,writes⟩
    exact writes
  · intro writes
    exact ⟨_,_,rfl,writes⟩

theorem own_safe (k' : Kernel) (next : Resume) :
    SafeInterrupt k (some (k',next)) ↔ Writes (TaskSpace k.sys) k.sys.vm k'.sys.vm := by
  constructor
  · rintro ⟨_,_,⟨⟩,writes⟩
    exact writes
  · intro writes
    exact ⟨_,_,rfl,writes⟩

theorem syscallTrap_safe (prepared : Prepared k.sys cpu) (env : Env) (frame : Frame) :
    SafeInterrupt k (syscallTrap k cpu env frame) ↔ trapReadOnly k cpu frame = false := by
  unfold syscallTrap trapReadOnly
  by_cases fork : frame.eax = sysForkNumber
  · simp only [fork,if_true,not_true,decide_false,Bool.false_and,iff_true,ne_eq]
    have same := processForkCurrent_log k.sys cpu frame
    generalize processForkCurrent k.sys cpu frame = forked at *
    obtain ⟨sys,pid⟩ := forked
    exact (own_safe _ _).mpr (.silent same)
  · simp only [if_neg fork,decide_eq_true fork,Bool.true_and,ne_eq]
    rw [← syscallDispatch_safe prepared frame.eax frame.ebx frame.ecx frame.edx frame.esi frame.edi]
    cases served : syscallDispatch k cpu frame.eax frame.ebx frame.ecx frame.edx frame.esi frame.edi with
    | none =>
      constructor
      · rintro ⟨_,_,⟨⟩,_⟩
      · rintro ⟨_,_,⟨⟩,_⟩
    | some outcome =>
      obtain ⟨k',value⟩ := outcome
      have scheduled (frame : Frame) : SafeInterrupt k (k'.reschedule cpu env.acquired frame) ↔
          Writes (TaskSpace k.sys) k.sys.vm k'.sys.vm := tick_safe _ env.acquired frame
      rw [safe_iff]
      simp only
      split_ifs
      · split
        · exact own_safe _ _
        · split
          · exact own_safe _ _
          · exact own_safe _ _
      · exact scheduled _
      · exact scheduled _
      · exact scheduled _
      · exact own_safe _ _

theorem killedBy_safe (prepared : Prepared k.sys cpu) (env : Env) (code : Nat) (frame : Frame) :
    SafeInterrupt k (killedBy k cpu env code frame) ↔ exitReadOnly k.sys cpu = false :=
  (tick_safe _ env.acquired frame).trans (processExitCurrent_writes prepared code)

theorem resolvedFault_log {env : Env} {frame : Frame} {vm : Vm} (resolved : resolvedFault k cpu env frame = some vm) :
    vm.userStores = k.sys.vm.userStores := by
  unfold resolvedFault at resolved
  cases caller : currentLocal k.sys cpu with
  | none => simp [caller] at resolved
  | some c =>
    simp only [caller] at resolved
    split_ifs at resolved
    exact (pagingResolveCow_keeps resolved).1

/-- The kernel stores to a read-only page of a process exactly where `interruptReadOnly`
says so. -/
theorem stores_writable (k : Kernel) (cpu : Nat) (env : Env) (frame : Frame) (user : userMode frame = true)
    (prepared : Prepared k.sys cpu) :
    (∃ k' next, interruptDispatch k cpu env frame = some (k',next) ∧ Writes (TaskSpace k.sys) k.sys.vm k'.sys.vm) ↔
      interruptReadOnly k cpu env frame = false := by
  have silent {k' : Kernel} (same : k'.sys.vm.userStores = k.sys.vm.userStores) :
      Writes (TaskSpace k.sys) k.sys.vm k'.sys.vm := .silent same
  show SafeInterrupt k (interruptDispatch k cpu env frame) ↔ _
  unfold interruptDispatch interruptReadOnly
  dsimp only
  by_cases trap : frame.vector = 128
  · rw [if_pos trap,if_pos trap]
    exact syscallTrap_safe prepared env frame
  rw [if_neg trap,if_neg trap]
  by_cases fault : frame.vector = 14
  · rw [if_pos fault,if_neg (by omega),if_neg (by omega),if_neg (by omega),if_neg (by omega),if_pos fault]
    unfold pageFault
    rw [if_pos user]
    cases resolved : resolvedFault k cpu env frame with
    | none => exact killedBy_safe prepared env 139 frame
    | some vm => exact ⟨fun _ => rfl,fun _ => (own_safe _ _).mpr (silent (resolvedFault_log resolved))⟩
  rw [if_neg fault,if_neg fault]
  by_cases exception : frame.vector < 32
  · rw [if_neg (by omega),if_neg (by omega),if_neg (by omega),if_neg (by omega),if_pos exception,if_pos user,
      decide_eq_true exception,Bool.true_and]
    exact killedBy_safe prepared env (128 + frame.vector) frame
  rw [if_neg exception,decide_eq_false exception,Bool.false_and]
  refine ⟨fun _ => rfl,fun _ => ?_⟩
  have polled := congrArg Vm.userStores (poll_vm k env)
  split_ifs
  · exact (tick_safe _ env.acquired frame).mpr (silent polled)
  · exact (tick_safe _ env.acquired frame).mpr (silent rfl)
  · exact (own_safe _ _).mpr (silent rfl)
  · exact (own_safe _ _).mpr (silent polled)
  · exact (own_safe _ _).mpr (silent rfl)
  · exact (own_safe _ _).mpr (silent rfl)

end Interrupts

/-- An address space whose one page is read-only. -/
def textSpace (vm : Vm) : Option (Vm × Nat) := do
  let (vm,pd) ← pagingCreateAddressSpace vm
  let (pages,page) ← pageAlloc vm.pages
  let vm ← pagingMapUserPageIn {vm with pages} pd 0x10000000 page ptePresent
  return (vm,pd)

/-- A space stays formed when it gets a page of its own. -/
theorem freshPage_space {role : Nat → Role} {vm vm' : Vm} {pages : Allocator} {pd va page : Nat} {flags : Word}
    (kept : Kept role vm.pages) (space : Space role vm pd) (allocated : pageAlloc vm.pages = some (pages,page))
    (mapped : pagingMapUserPageIn {vm with pages} pd va page flags = some vm') :
    ∃ role', Kept role' vm'.pages ∧ Space role' vm' pd := by
  obtain ⟨frame,rfl,takes⟩ := pageAlloc_takes allocated
  obtain ⟨_,small,number⟩ := table_address takes.high
  have fresh : Space role {vm with pages} pd := space.pages fun f held => takes.taken held
  have keeps : Kept role ({vm with pages} : Vm).pages := fun f structural => takes.taken (kept f structural)
  have data : role (frame * pageSize / pageSize) = .data := by
    rw [number]
    exact kept.data (takes.free frame (Nat.le_refl _) (by omega))
  have used : isFree ({vm with pages} : Vm).pages (frame * pageSize / pageSize) = false := by
    rw [number]
    exact (takes.single frame).trans (by simp)
  obtain ⟨role',remaps⟩ := pagingMapUserPageIn_remaps mapped fresh keeps data used small
  exact ⟨role',remaps.kept,remaps.space⟩

theorem textSpace_space {role : Nat → Role} {vm vm' : Vm} {pd : Nat} (kept : Kept role vm.pages)
    (made : textSpace vm = some (vm',pd)) : ∃ role', Kept role' vm'.pages ∧ Space role' vm' pd := by
  unfold textSpace at made
  simp only [bind,Option.bind_eq_some_iff] at made
  obtain ⟨⟨vm₁,pd₁⟩,fresh,⟨pages,page⟩,allocated,vm₂,mapped,result⟩ := made
  cases result
  obtain ⟨role₁,kept₁,space₁,_⟩ := pagingCreateAddressSpace_space kept fresh
  exact freshPage_space kept₁ space₁ allocated mapped

/-- A program with a read-only page, and with bytes in a pipe of its own. -/
def textKernel : Kernel :=
  let (vm,pd) := (textSpace blank.vm).getD (blank.vm,0)
  let sys := boot blank 0x1000 0x2000
  let p := {sys.processes 1 with pid := 2,state := .running,capabilities := capUserDefault,pageDirectory := pd}
  {bareKernel with
    sys := {setProcess sys 1 p with vm := {vm with currentDirectory := fun _ => pd},currentByCpu := fun _ => some 1}
    pipes := fun _ => {(default : PipeState) with used := true,ownerPid := 2,readers := 1,writers := 1,count := 1}}

theorem textKernel_prepared : Prepared textKernel.sys 0 := by
  have made : (textSpace blank.vm).isSome = true := by decide +kernel
  obtain ⟨⟨vm,pd⟩,made⟩ := Option.isSome_iff_exists.mp made
  have blankKept : Kept (fun _ => .data) blank.vm.pages := fun _ structural => absurd rfl structural
  obtain ⟨role,kept,space⟩ := textSpace_space blankKept made
  have alone : ∀ i, i ≠ bootstrap → (textKernel.sys.processes i).state ≠ .unused → i = 1 := by decide +kernel
  have directory : (textKernel.sys.processes 1).pageDirectory = pd := by
    simp only [textKernel,made]
    rfl
  have memory : textKernel.sys.vm = {vm with currentDirectory := fun _ => pd} := by
    simp only [textKernel,made]
    rfl
  refine ⟨⟨1,rfl,by decide,by decide +kernel,?_⟩,?_⟩
  · rw [memory,directory]
  · intro i ordinary alive
    rw [alone i ordinary alive,memory,directory]
    exact ⟨role,kept,space.formed,space.held⟩

/-- A read into the read-only page is refused. -/
theorem read_checked : ∃ k' next,
    interruptDispatch textKernel 0 calm (trapFrame 8 0x10000000 16 0) = some (k',next) ∧
      Writes (TaskSpace textKernel.sys) textKernel.sys.vm k'.sys.vm :=
  (stores_writable textKernel 0 calm (trapFrame 8 0x10000000 16 0) rfl textKernel_prepared).mpr (by decide +kernel)

/-- The bytes of the pipe are stored to the read-only page, which is a fault of the kernel. -/
theorem pipe_read_faults : ¬ ∀ (k : Kernel) (cpu : Nat) (env : Env) (frame : Frame), userMode frame = true →
    Prepared k.sys cpu → ∃ k' next, interruptDispatch k cpu env frame = some (k',next) ∧
      Writes (TaskSpace k.sys) k.sys.vm k'.sys.vm := by
  intro safe
  have halts : (interruptDispatch textKernel 0 calm (trapFrame sysPipeReadNumber 2 0x10000000 1)).isNone = true := by
    decide +kernel
  obtain ⟨k',next,taken,_⟩ := safe textKernel 0 calm (trapFrame sysPipeReadNumber 2 0x10000000 1) rfl textKernel_prepared
  rw [taken] at halts
  cases halts

end LionOS.Calls

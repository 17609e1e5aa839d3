import LionOS.Calls.Copyouts
import LionOS.Files.Listing

/-! The names of the enumeration as the paths that a process passes back. -/
namespace LionOS.Calls
open LionOS.Memory LionOS.Physical LionOS.Paging LionOS.Processes LionOS.Files LionOS.Library

/-- The memory of the caller holds the characters and a zero behind them, where it may read. -/
def HoldsPath (vm : Vm) (cpu ptr : Nat) (path : List Byte) : Prop :=
  ∀ i, i ≤ path.length → userRangeOk vm cpu (ptr + i) 1 = true ∧ loadUser vm cpu (ptr + i) = some (path.getD i 0)

/-- A process that may use files passes the path of a file of the store. -/
structure Passes (st : Store) (path : List Byte) (k : Kernel) (cpu ptr : Nat) : Prop where
  ram : k.ram = st.ram
  disk : k.disk = st.disk
  loaded : ∃ live role base, Loaded live role base cpu k.sys.vm
  capable : hasCap k.sys cpu capFs = true
  held : HoldsPath k.sys.vm cpu ptr path

/-- `LIONOS_SYS_STAT` takes the path with a buffer that the process may write to, and
`LIONOS_SYS_OPEN` takes it with a free descriptor. -/
structure Accepts (st : Store) (path : List Byte) : Prop where
  stat : ∀ (k : Kernel) (cpu number ptr buffer a2 a3 a4 : Nat), syscallOf number = some .stat → Passes st path k cpu ptr →
    (userRangeOkWrite k.sys.vm cpu buffer 12).2 = true →
      ∃ k', syscallDispatch k cpu number ptr buffer a2 a3 a4 = some (k',0)
  opened : ∀ (k : Kernel) (cpu number ptr flags a2 a3 a4 : Nat) (c : Slot), syscallOf number = some .fopen →
    Passes st path k cpu ptr → currentLocal k.sys cpu = some c → freeFd (k.sys.processes c).fds ≠ none →
      ∃ k' fd, syscallDispatch k cpu number ptr flags a2 a3 a4 = some (k',fd) ∧ fd < vfsFdMax

section Paths
variable {vm : Vm} {cpu ptr : Nat} {path : List Byte}

theorem HoldsPath.tail {c : Byte} {rest : List Byte} (held : HoldsPath vm cpu ptr (c::rest)) :
    HoldsPath vm cpu (ptr + 1) rest := by
  intro i bound
  have next := held (i + 1) (by simpa using bound)
  rw [Nat.add_assoc,Nat.add_comm 1]
  exact next

theorem copyCharacters_path (text : 0 ∉ path) (held : HoldsPath vm cpu ptr path) (n : Nat) :
    copyCharacters vm cpu ptr n = if path.length < n then some path else none := by
  induction n generalizing ptr path with
  | zero => exact (if_neg (Nat.not_lt_zero _)).symm
  | succ n ih =>
    obtain ⟨checked,loaded⟩ := held 0 (Nat.zero_le _)
    rw [Nat.add_zero] at checked loaded
    rw [copyCharacters,if_pos checked,loaded]
    cases path with
    | nil => exact (if_pos (Nat.succ_pos n)).symm
    | cons c rest =>
      rw [List.mem_cons,not_or] at text
      rw [List.getD_cons_zero]
      dsimp only
      rw [if_neg (Ne.symm text.1),ih text.2 held.tail]
      by_cases short : rest.length < n
      · rw [if_pos short,if_pos (by simpa using short)]
        rfl
      · rw [if_neg short,if_neg (by simpa using short)]
        rfl

/-- A path is copied where it ends within the array. -/
theorem copyUserString_path (text : 0 ∉ path) (held : HoldsPath vm cpu ptr path) {size : Nat} (room : 2 ≤ size) :
    copyUserString vm cpu size ptr = if path.length < size - 1 then some path else none := by
  rw [copyUserString,if_neg (Nat.not_lt.mpr room)]
  exact copyCharacters_path text held (size - 1)

end Paths

section Accepting
variable {st : Store} {path : List Byte} {k : Kernel} {cpu ptr : Nat}

/-- What the files say of a path does not depend on the heap. -/
theorem Passes.lookup (passes : Passes st path k cpu ptr) (vm : Vm) :
    vfsStatPath (k.withVm vm).store path = vfsStatPath st path ∧ backendFor k.store path = backendFor st path := by
  obtain ⟨ram,disk,_,_,_⟩ := passes
  unfold Kernel.withVm Kernel.store vfsStatPath backendFor
  rw [← ram,← disk]
  exact ⟨rfl,rfl⟩

theorem Passes.dispatch (passes : Passes st path k cpu ptr) {number : Nat} {call : Syscall}
    (numbered : syscallOf number = some call) (files : call.capability = some capFs) (a1 a2 a3 a4 : Nat) :
    syscallDispatch k cpu number ptr a1 a2 a3 a4 = serve k cpu ptr a1 a2 a3 a4 call := by
  have permit : permitted k cpu call = true := by
    rw [permitted,files]
    exact passes.capable
  rw [syscallDispatch,numbered]
  exact if_pos permit

theorem Passes.stat (passes : Passes st path k cpu ptr) (passable : Passable path) (found : (vfsStatPath st path).isSome)
    {buffer : Nat} (writable : (userRangeOkWrite k.sys.vm cpu buffer 12).2 = true) :
    ∃ k', sysStat k cpu ptr buffer = some (k',0) := by
  obtain ⟨live,role,base,loaded⟩ := passes.loaded
  have copied := @copyUserString_path _ cpu ptr path passable.name.clean.text passes.held vfsPathMax (by decide)
  rw [if_pos passable.short] at copied
  rcases checked : userRangeOkWrite k.sys.vm cpu buffer 12 with ⟨vm,ok⟩
  rw [checked] at writable
  change ok = true at writable
  subst writable
  obtain ⟨opened,all⟩ := userRangeOkWrite_opened loaded.kept loaded.space checked
  have ready := loaded.opened opened
  obtain ⟨stat,known⟩ := Option.isSome_iff_exists.mp found
  rw [← (passes.lookup vm).1] at known
  have room : ∀ i < 12, writableAt vm (vm.currentDirectory cpu) (buffer + i) = true := by
    intro i inside
    rw [opened.directory]
    exact all rfl i inside
  obtain ⟨vm',stored,_⟩ := @storeUserBytes_stored live role vm cpu ready.space.formed ready.own
    (bytes32 stat.size ++ bytes32 stat.backend ++ bytes32 stat.flags) buffer room
  rw [sysStat,copied]
  dsimp only
  rw [withWritable,checked]
  dsimp only
  rw [known]
  dsimp only
  have written : storeUserBytes (k.withVm vm).sys.vm cpu buffer
      (bytes32 stat.size ++ bytes32 stat.backend ++ bytes32 stat.flags) = some vm' := stored
  rw [storing,written]
  exact ⟨_,rfl⟩

theorem openSlot_found {fds : FdTable} {i : Nat} (found : backendFor st path ≠ backendNone) (free : freeFd fds = some i)
    (flags : Nat) : (openSlot st fds path flags).2.2 = some i := by
  have closed : ¬(backendFor st path = backendNone ∧ flagged flags vfsFWrite = false) := fun both => found both.1
  simp only [openSlot,if_neg closed,if_neg found,free]

theorem vfsStatPath_backend (normal : pathNormalize path = some path) (found : (vfsStatPath st path).isSome) :
    backendFor st path ≠ backendNone := by
  intro absent
  obtain ⟨missing,gone⟩ := backendFor_absent.mp absent
  obtain ⟨path',same,there⟩ := (vfsStatPath_found path).mp found
  rw [normal,Option.some_inj] at same
  subst same
  rw [missing] at there
  exact there.elim (fun none => Bool.noConfusion none) gone

theorem Passes.opened (passes : Passes st path k cpu ptr) (passable : Passable path) (found : (vfsStatPath st path).isSome)
    {c : Slot} (current : currentLocal k.sys cpu = some c) (free : freeFd (k.sys.processes c).fds ≠ none) (flags : Nat) :
    ∃ k' fd, sysOpen k cpu ptr flags = some (k',fd) ∧ fd < vfsFdMax := by
  have copied := @copyUserString_path _ cpu ptr path passable.name.clean.text passes.held vfsPathMax (by decide)
  rw [if_pos passable.short] at copied
  obtain ⟨i,first⟩ := Option.ne_none_iff_exists'.mp free
  have there : backendFor k.store path ≠ backendNone := by
    rw [(passes.lookup k.sys.vm).2]
    exact vfsStatPath_backend passable.normal found
  have result : (vfsOpenForProcess k.store (k.sys.processes c) path flags).2.2 = some i := by
    unfold vfsOpenForProcess vfsOpen
    rw [passable.normal]
    exact openSlot_found there first flags
  rcases made : vfsOpenForProcess k.store (k.sys.processes c) path flags with ⟨st',p,fd⟩
  rw [made] at result
  change fd = some i at result
  subst result
  rw [sysOpen,copied,current]
  dsimp only
  rw [made]
  exact ⟨_,i,rfl,(find_range.mp first).1⟩

theorem accepts_passable (passable : Passable path) (found : (vfsStatPath st path).isSome) : Accepts st path := by
  refine ⟨?_,?_⟩
  · intro k cpu number ptr buffer a2 a3 a4 numbered passes writable
    rw [passes.dispatch numbered rfl]
    exact passes.stat passable found writable
  · intro k cpu number ptr flags a2 a3 a4 c numbered passes current free
    rw [passes.dispatch numbered rfl]
    exact passes.opened passable found current free flags

/-- Both calls refuse a longer path, whatever file has it. -/
theorem Passes.refused (passes : Passes st path k cpu ptr) (text : 0 ∉ path) (long : vfsPathMax - 1 ≤ path.length)
    {number : Nat} (numbered : syscallOf number = some .stat ∨ syscallOf number = some .fopen) (a1 a2 a3 a4 : Nat) :
    syscallDispatch k cpu number ptr a1 a2 a3 a4 = refuse k := by
  have copied := @copyUserString_path _ cpu ptr path text passes.held vfsPathMax (by decide)
  rw [if_neg (Nat.not_lt.mpr long)] at copied
  rcases numbered with stat | opened
  · rw [passes.dispatch stat rfl,serve,sysStat,copied]
  · rw [passes.dispatch opened rfl,serve,sysOpen,copied]

end Accepting

/-- In every run of discerning calls, with any restarts in between, the names of the enumeration
are there, distinct and the paths that are found, and both calls take each of them. -/
theorem enumeration_matches (programs : Nat → List Byte) (files : Nat → RamFile) (heap : Heap) (calls : List MachineCall)
    (discerning : Meets machineStep Discerns (firstBoot programs files heap) calls) :
    Enumerates (run machineStep (firstBoot programs files heap) calls).store ∧
      ∀ i path, i < vfsCount (run machineStep (firstBoot programs files heap) calls).store →
        vfsName (run machineStep (firstBoot programs files heap) calls).store i = some path →
          Accepts (run machineStep (firstBoot programs files heap) calls).store path := by
  have catalogued := run_catalogued programs files heap discerning
  generalize run machineStep (firstBoot programs files heap) calls = m at catalogued
  obtain ⟨⟨held,_⟩,catalogue,_⟩ := catalogued
  have enumerates := catalogue.enumerates held
  refine ⟨enumerates,?_⟩
  intro i path bound named
  have passable := catalogue.listed_passable held bound named
  exact accepts_passable passable ((enumerates.found path).mpr ⟨path,passable.normal,i,bound,named⟩)

/-- A new file, a write to it and a restart. -/
def letterRun : List MachineCall :=
  [.file 0 (.opened letter vfsFWrite),.file 0 (.wrote 0 [1]),.rebooted (fun _ => default) bareStore.heap]

theorem enumeration_matches_letter : Enumerates (run machineStep firstMachine letterRun).store ∧
    ∀ i path, i < vfsCount (run machineStep firstMachine letterRun).store →
      vfsName (run machineStep firstMachine letterRun).store i = some path →
        Accepts (run machineStep firstMachine letterRun).store path := by
  have normal : pathNormalize letter = some letter := by decide +kernel
  have onDisk : if ((machineStep firstMachine (.file 0 (.opened letter vfsFWrite))).tables 0 0).backend = backendDiskfs then
      diskfsExists (machineStep firstMachine (.file 0 (.opened letter vfsFWrite))).store.disk
        ((machineStep firstMachine (.file 0 (.opened letter vfsFWrite))).tables 0 0).path = true
      else (ramfsData (machineStep firstMachine (.file 0 (.opened letter vfsFWrite))).store.ram
        ((machineStep firstMachine (.file 0 (.opened letter vfsFWrite))).tables 0 0).path).isSome := by decide +kernel
  refine enumeration_matches (fun _ => []) (fun _ => default) bareStore.heap letterRun ⟨?_,?_,?_,trivial⟩
  · intro path same _
    rw [normal,Option.some_inj] at same
    subst same
    decide
  · intro _ _
    exact present_kept onDisk
  · change ∀ seed ∈ seeds, diskfsExists (run machineStep firstMachine
      [.file 0 (.opened letter vfsFWrite),.file 0 (.wrote 0 [1])]).store.disk seed.1 = false
    decide +kernel

/-- After a restart the seeded file and the one of its name on the disk are both listed. -/
theorem seeded_name_twice :
    ¬Enumerates (run machineStep firstMachine (motdCalls ++ [.rebooted (fun _ => default) bareStore.heap])).store := by
  intro enumerates
  have listed : 24 < vfsCount (run machineStep firstMachine
        (motdCalls ++ [.rebooted (fun _ => default) bareStore.heap])).store ∧
      vfsName (run machineStep firstMachine (motdCalls ++ [.rebooted (fun _ => default) bareStore.heap])).store 2 =
        vfsName (run machineStep firstMachine (motdCalls ++ [.rebooted (fun _ => default) bareStore.heap])).store 24 := by
    decide +kernel
  have same := enumerates.distinct 2 24 (by omega) listed.1 listed.2
  cases same

end LionOS.Calls

import LionOS.Files.Rotation
import LionOS.Library.Locks

/-! The spinlocks that are taken on the way of a log line to its file: by the page allocator,
the heap, the virtual file system and the log itself. -/
namespace LionOS.Diag
open LionOS.Memory LionOS.Physical LionOS.Files LionOS.Library LionOS.Processes

inductive KernelLock
  | process
  | memory
  | vfs
  | persistence
  | ipc
  | pipe
  | net
  | mouseEvent
  | smp
  deriving DecidableEq

abbrev Steps := List (LockStep KernelLock)

def pageAllocContiguousLocks (count : Nat) : Steps :=
  if count = 0 ∨ count > maxPages - reservedPages then [] else locked .memory []

def pageFreeLocks (address : Nat) : Steps := if managed address then locked .memory [] else []

def kmallocLocks (h : Heap) (size : Nat) : Steps :=
  if size = 0 ∨ size > 0xFFFFFFFF - (pageSize - 1) then []
  else match freeHeapSlot h with
    | none => []
    | some _ => pageAllocContiguousLocks ((size + pageSize - 1) / pageSize)

def kfreeLocks (h : Heap) (ptr : Nat) : Steps :=
  if ptr = 0 then []
  else match (List.range maxHeapAllocs).find? fun i =>
      (h.allocations i).used && decide ((h.allocations i).base = ptr) with
    | none => []
    | some i =>
      let block := h.allocations i
      (List.range block.pages).flatMap fun page => pageFreeLocks (block.base + page * pageSize)

/-- The buffer of a read or an append: `kmalloc`, and `kfree` at the end. -/
def bufferLocks (h : Heap) (size : Nat) : Steps :=
  kmallocLocks h size ++ match kmalloc h size with
    | none => []
    | some (h,ptr) => kfreeLocks h ptr

def readSlotLocks (st : Store) (f : ProcessFd) (length : Nat) : Steps :=
  if f.used = false ∨ length > vfsIoMax ∨ flagged f.flags vfsFRead = false then []
  else if f.offset ≥ fileSize st f.backend f.path then []
  else if f.backend = backendDiskfs then bufferLocks st.heap vfsIoMax
  else []

def appendSlotLocks (st : Store) (f : ProcessFd) (bytes : List Byte) : Steps :=
  let oldSize := fileSize st f.backend f.path
  let maxSize := if f.backend = backendDiskfs then diskfsMaxFileSize else 256
  if oldSize > maxSize ∨ bytes.length > maxSize - oldSize then [] else bufferLocks st.heap maxSize

def writeSlotLocks (st : Store) (f : ProcessFd) (bytes : List Byte) : Steps :=
  if f.used = false ∨ bytes.length > vfsIoMax ∨ flagged f.flags vfsFWrite = false then []
  else if f.offset ≠ 0 ∧ flagged f.flags vfsFAppend = false then []
  else if flagged f.flags vfsFAppend then appendSlotLocks st f bytes
  else []

/-- The calls that take a path: `vfs_open`, `vfs_remove` and `vfs_stat_path`. -/
def vfsPathLocks (path : List Byte) : Steps :=
  match pathNormalize path with
  | none => []
  | some _ => locked .vfs []

def vfsCloseLocks (fd : Int) : Steps := if fd < 0 ∨ fd ≥ vfsFdMax then [] else locked .vfs []

def vfsReadLocks (st : Store) (fds : FdTable) (fd : Int) (length : Nat) : Steps :=
  if fd < 0 ∨ fd ≥ vfsFdMax then [] else locked .vfs (readSlotLocks st (fds fd.toNat) length)

def vfsWriteLocks (st : Store) (fds : FdTable) (fd : Int) (bytes : List Byte) : Steps :=
  if fd < 0 ∨ fd ≥ vfsFdMax then [] else locked .vfs (writeSlotLocks st (fds fd.toNat) bytes)

def ensureLogFileLocks (st : Store) (fds : FdTable) : Steps :=
  vfsPathLocks klogFilePath ++ match vfsStatPath st klogFilePath with
    | some _ => []
    | none => vfsPathLocks klogFilePath ++ match vfsOpen st fds klogFilePath (vfsFWrite + vfsFAppend) with
      | (_,_,none) => []
      | (_,_,some fd) => vfsCloseLocks fd ++ vfsPathLocks klogFilePath

def rotateLogFileLocks (st : Store) (fds : FdTable) (stat : VfsStat) : Steps :=
  vfsPathLocks klogFilePath ++ match vfsOpen st fds klogFilePath vfsFRead with
    | (_,_,none) => []
    | (st,fds,some fd) =>
      let reading := if stat.size ≠ 0 then vfsReadLocks st fds fd stat.size else []
      let (st,fds,bytes) := if stat.size ≠ 0 then vfsRead st fds fd stat.size else (st,fds,some [])
      let fds := (vfsClose fds fd).1
      reading ++ vfsCloseLocks fd ++ match bytes with
        | none => []
        | some bytes =>
          let retained := bytes.drop (cutStart bytes (logLimit stat.backend))
          vfsPathLocks klogFilePath ++ match vfsRemove st klogFilePath with
            | (_,false) => []
            | (st,true) => vfsPathLocks klogFilePath ++ match vfsOpen st fds klogFilePath vfsFWrite with
              | (_,_,none) => []
              | (st,fds,some fd) =>
                let writing := if retained ≠ [] then vfsWriteLocks st fds fd retained else []
                let (_,_,stored) := if retained ≠ [] then vfsWrite st fds fd retained else (st,fds,some 0)
                writing ++ vfsCloseLocks fd ++ if stored ≠ some retained.length then [] else vfsPathLocks klogFilePath

def appendLogFileLocks (st : Store) (fds : FdTable) (line : List Byte) : Steps :=
  if line = [] then []
  else ensureLogFileLocks st fds ++ match ensureLogFile st fds with
    | (_,_,none) => []
    | (st,fds,some stat) =>
      if line.length > logLimit stat.backend then []
      else
        let rotating := if stat.size + line.length > logLimit stat.backend then rotateLogFileLocks st fds stat else []
        let (st,fds,fits) := if stat.size + line.length > logLimit stat.backend
          then rotateLogFile st fds stat line.length else (st,fds,true)
        rotating ++ if fits = false then [] else vfsPathLocks klogFilePath ++
          match vfsOpen st fds klogFilePath (vfsFWrite + vfsFAppend) with
          | (_,_,none) => []
          | (st,fds,some fd) => vfsWriteLocks st fds fd line ++ vfsCloseLocks fd

/-! ### Sections -/

/-- The heap takes no lock but that of the page allocator. -/
structure OnlyMemory (steps : Steps) : Prop where
  sections : Sections steps
  only : ∀ lock, Acquires steps lock → lock = .memory

theorem OnlyMemory.nil : OnlyMemory [] := ⟨.nil,fun lock taken => absurd taken (acquires_nil lock)⟩

theorem OnlyMemory.append {first second : Steps} (one : OnlyMemory first) (two : OnlyMemory second) :
    OnlyMemory (first ++ second) := by
  refine ⟨.append one.sections two.sections,fun lock taken => ?_⟩
  rcases (acquires_append _ _ _).mp taken with here | there
  · exact one.only lock here
  · exact two.only lock there

theorem onlyMemory_locked : OnlyMemory (locked .memory []) := by
  refine ⟨.around .nil (acquires_nil _),fun lock taken => ?_⟩
  exact ((acquires_locked _ _ _).mp taken).resolve_right (acquires_nil lock)

theorem pageFreeLocks_only (address : Nat) : OnlyMemory (pageFreeLocks address) := by
  unfold pageFreeLocks
  split_ifs
  · exact onlyMemory_locked
  · exact .nil

theorem kmallocLocks_only (h : Heap) (size : Nat) : OnlyMemory (kmallocLocks h size) := by
  unfold kmallocLocks
  split
  · exact .nil
  · split
    · exact .nil
    · unfold pageAllocContiguousLocks
      split
      · exact .nil
      · exact onlyMemory_locked

theorem kfreeLocks_only (h : Heap) (ptr : Nat) : OnlyMemory (kfreeLocks h ptr) := by
  have pages (l : List Nat) (base : Nat) : OnlyMemory (l.flatMap fun page => pageFreeLocks (base + page * pageSize)) := by
    induction l with
    | nil => exact .nil
    | cons page rest ih =>
      rw [List.flatMap_cons]
      exact .append (pageFreeLocks_only _) ih
  unfold kfreeLocks
  split_ifs
  · exact .nil
  · split
    · exact .nil
    · exact pages _ _

theorem bufferLocks_only (h : Heap) (size : Nat) : OnlyMemory (bufferLocks h size) := by
  unfold bufferLocks
  refine .append (kmallocLocks_only h size) ?_
  split
  · exact .nil
  · exact kfreeLocks_only _ _

theorem readSlotLocks_only (st : Store) (f : ProcessFd) (length : Nat) : OnlyMemory (readSlotLocks st f length) := by
  unfold readSlotLocks
  split_ifs
  · exact .nil
  · exact .nil
  · exact bufferLocks_only _ _
  · exact .nil

theorem appendSlotLocks_only (st : Store) (f : ProcessFd) (bytes : List Byte) : OnlyMemory (appendSlotLocks st f bytes) := by
  unfold appendSlotLocks
  dsimp only
  generalize (if f.backend = backendDiskfs then diskfsMaxFileSize else 256) = maxSize
  split
  · exact .nil
  · exact bufferLocks_only _ _

theorem writeSlotLocks_only (st : Store) (f : ProcessFd) (bytes : List Byte) : OnlyMemory (writeSlotLocks st f bytes) := by
  unfold writeSlotLocks
  split
  · exact .nil
  split
  · exact .nil
  split
  · exact appendSlotLocks_only st f bytes
  · exact .nil

/-- The file calls take the lock of the file system, and within it that of the allocator. -/
structure OnlyFiles (steps : Steps) : Prop where
  sections : Sections steps
  only : ∀ lock, Acquires steps lock → lock = .vfs ∨ lock = .memory

theorem OnlyFiles.nil : OnlyFiles [] := ⟨.nil,fun lock taken => absurd taken (acquires_nil lock)⟩

theorem OnlyFiles.append {first second : Steps} (one : OnlyFiles first) (two : OnlyFiles second) :
    OnlyFiles (first ++ second) := by
  refine ⟨.append one.sections two.sections,fun lock taken => ?_⟩
  rcases (acquires_append _ _ _).mp taken with here | there
  · exact one.only lock here
  · exact two.only lock there

theorem OnlyMemory.locked {inner : Steps} (only : OnlyMemory inner) : OnlyFiles (locked .vfs inner) := by
  refine ⟨.around only.sections fun taken => ?_,fun lock taken => ?_⟩
  · cases only.only _ taken
  · rcases (acquires_locked _ _ _).mp taken with own | inside
    · exact .inl own
    · exact .inr (only.only lock inside)

theorem vfsPathLocks_files (path : List Byte) : OnlyFiles (vfsPathLocks path) := by
  unfold vfsPathLocks
  split
  · exact .nil
  · exact OnlyMemory.nil.locked

theorem vfsCloseLocks_files (fd : Int) : OnlyFiles (vfsCloseLocks fd) := by
  unfold vfsCloseLocks
  split
  · exact .nil
  · exact OnlyMemory.nil.locked

theorem vfsReadLocks_files (st : Store) (fds : FdTable) (fd : Int) (length : Nat) : OnlyFiles (vfsReadLocks st fds fd length) := by
  unfold vfsReadLocks
  split
  · exact .nil
  · exact (readSlotLocks_only _ _ _).locked

theorem vfsWriteLocks_files (st : Store) (fds : FdTable) (fd : Int) (bytes : List Byte) :
    OnlyFiles (vfsWriteLocks st fds fd bytes) := by
  unfold vfsWriteLocks
  split
  · exact .nil
  · exact (writeSlotLocks_only _ _ _).locked

theorem ensureLogFileLocks_files (st : Store) (fds : FdTable) : OnlyFiles (ensureLogFileLocks st fds) := by
  unfold ensureLogFileLocks
  refine .append (vfsPathLocks_files _) ?_
  split
  · exact .nil
  · refine .append (vfsPathLocks_files _) ?_
    split
    · exact .nil
    · exact .append (vfsCloseLocks_files _) (vfsPathLocks_files _)

theorem rotateLogFileLocks_files (st : Store) (fds : FdTable) (stat : VfsStat) : OnlyFiles (rotateLogFileLocks st fds stat) := by
  unfold rotateLogFileLocks
  refine .append (vfsPathLocks_files _) ?_
  split
  · exact .nil
  next st fds fd _ =>
    have reading : OnlyFiles (if stat.size ≠ 0 then vfsReadLocks st fds fd stat.size else []) := by
      split
      · exact vfsReadLocks_files _ _ _ _
      · exact .nil
    dsimp only
    generalize (if stat.size ≠ 0 then vfsRead st fds fd stat.size else (st,fds,some [])) = result
    refine .append (.append reading (vfsCloseLocks_files _)) ?_
    split
    · exact .nil
    next bytes _ =>
      generalize bytes.drop (cutStart bytes (logLimit stat.backend)) = retained
      refine .append (vfsPathLocks_files _) ?_
      split
      · exact .nil
      · refine .append (vfsPathLocks_files _) ?_
        split
        · exact .nil
        next st fds fd _ =>
          have writing : OnlyFiles (if retained ≠ [] then vfsWriteLocks st fds fd retained else []) := by
            split
            · exact vfsWriteLocks_files _ _ _ _
            · exact .nil
          generalize (if retained ≠ [] then vfsWrite st fds fd retained else (st,fds,some 0)) = result
          refine .append (.append writing (vfsCloseLocks_files _)) ?_
          split
          · exact .nil
          · exact vfsPathLocks_files _

theorem appendLogFileLocks_files (st : Store) (fds : FdTable) (line : List Byte) : OnlyFiles (appendLogFileLocks st fds line) := by
  unfold appendLogFileLocks
  split
  · exact .nil
  refine .append (ensureLogFileLocks_files _ _) ?_
  split
  · exact .nil
  next st fds stat _ =>
    split
    · exact .nil
    have rotating : OnlyFiles (if stat.size + line.length > logLimit stat.backend then rotateLogFileLocks st fds stat else []) := by
      split
      · exact rotateLogFileLocks_files _ _ _
      · exact .nil
    dsimp only
    generalize (if stat.size + line.length > logLimit stat.backend
      then rotateLogFile st fds stat line.length else (st,fds,true)) = result
    refine .append rotating ?_
    split
    · exact .nil
    · refine .append (vfsPathLocks_files _) ?_
      split
      · exact .nil
      · exact .append (vfsWriteLocks_files _ _ _ _) (vfsCloseLocks_files _)

/-! ### When a line gets to the allocator -/

/-- The append of a line of length `n` gets to a `kmalloc` that has a record for its block: there
is a log file or one can be made, there is a descriptor for it, and where the file is full
it can be read from the disk or be cut in memory. -/
def lineAllocates (st : Store) (fds : FdTable) (n : Nat) : Bool :=
  (freeHeapSlot st.heap).isSome && match ensureLogFile st fds with
    | (_,_,none) => false
    | (st,fds,some stat) => (freeFd fds).isSome &&
      if stat.size + n ≤ logLimit stat.backend then true
      else if stat.backend = backendDiskfs then decide (stat.size ≤ vfsIoMax)
      else (rotateLogFile st fds stat n).2.2

theorem path_memory (path : List Byte) : ¬Acquires (vfsPathLocks path) .memory := by
  unfold vfsPathLocks
  split <;> simp

theorem close_memory (fd : Int) : ¬Acquires (vfsCloseLocks fd) .memory := by
  unfold vfsCloseLocks
  split <;> simp

theorem ensure_memory (st : Store) (fds : FdTable) : ¬Acquires (ensureLogFileLocks st fds) .memory := by
  unfold ensureLogFileLocks
  split
  · simp [path_memory]
  · split
    · simp [path_memory]
    · simp [path_memory,close_memory]

theorem buffer_memory (h : Heap) {size : Nat} (positive : 0 < size) (small : size ≤ vfsIoMax) :
    Acquires (bufferLocks h size) .memory ↔ (freeHeapSlot h).isSome = true := by
  have one : (size + pageSize - 1) / pageSize = 1 := by
    simp only [pageSize,vfsIoMax] at *
    omega
  have sized : ¬(size = 0 ∨ size > 0xFFFFFFFF - (pageSize - 1)) := by
    simp only [pageSize,vfsIoMax] at *
    omega
  have asked : pageAllocContiguousLocks 1 = locked .memory [] := if_neg (by decide)
  unfold bufferLocks kmallocLocks kmalloc
  rw [if_neg sized,if_neg sized,one,asked]
  cases freeHeapSlot h with
  | none => simp
  | some slot => simp

/-! ### Descriptors of the log -/

section Log
variable {st st' : Store} {fds fds' : FdTable} {stat : VfsStat} {n : Nat}

theorem stat_target (found : vfsStatPath st klogFilePath = some stat) :
    Target st klogName stat.backend ∧ stat.size = fileSize st stat.backend klogName := by
  have present : backendFor st klogName ≠ backendNone := by
    intro absent
    unfold backendFor at absent
    unfold vfsStatPath at found
    rw [klog_normal] at found
    dsimp only at found
    split_ifs at found absent
    · cases absent
    · cases absent
  have target : Target st klogName (backendFor st klogName) := ⟨rfl,present⟩
  rw [vfsStatPath_target target klog_normal] at found
  cases found
  exact ⟨target,rfl⟩

theorem openSlot_heap (st : Store) (fds : FdTable) (path : List Byte) (flags : Nat) :
    (openSlot st fds path flags).1.heap = st.heap := by
  have created : (createFile st path).1.heap = st.heap := by
    unfold createFile
    generalize (if diskfsAvailable st.disk then diskfsWrite st.disk path [] else (st.disk,false)) = result
    dsimp only
    split
    · rfl
    · split <;> rfl
  unfold openSlot
  dsimp only
  split
  · rfl
  · have target : (if backendFor st path = backendNone then createFile st path else (st,backendFor st path)).1.heap = st.heap := by
      split
      · exact created
      · rfl
    generalize (if backendFor st path = backendNone then createFile st path else (st,backendFor st path)) = chosen at target ⊢
    split
    · exact target
    · split <;> exact target

theorem vfsOpen_heap (st : Store) (fds : FdTable) (path : List Byte) (flags : Nat) :
    (vfsOpen st fds path flags).1.heap = st.heap := by
  unfold vfsOpen
  split
  · rfl
  · exact openSlot_heap _ _ _ _

/-- A descriptor that has been opened. -/
theorem openSlot_fd {path : List Byte} {flags i : Nat} (opened : openSlot st fds path flags = (st',fds',some i)) :
    i < vfsFdMax ∧ (fds' i).flags = flags ∧ freeFd fds = some i := by
  unfold openSlot at opened
  dsimp only at opened
  split at opened
  · cases opened
  · generalize (if backendFor st path = backendNone then createFile st path else (st,backendFor st path)) = chosen at opened
    split at opened
    · cases opened
    · split at opened
      · cases opened
      next j slot =>
        cases opened
        refine ⟨(find_range.mp slot).1,?_,slot⟩
        rw [Function.update_self]

theorem vfsOpen_fd {path : List Byte} {flags i : Nat} (opened : vfsOpen st fds path flags = (st',fds',some i)) :
    i < vfsFdMax ∧ (fds' i).flags = flags ∧ freeFd fds = some i := by
  unfold vfsOpen at opened
  split at opened
  · cases opened
  · exact openSlot_fd opened

/-- Without a free descriptor nothing is opened. -/
theorem vfsOpen_refused (path : List Byte) (flags : Nat) (full : freeFd fds = none) :
    ∃ st' fds', vfsOpen st fds path flags = (st',fds',none) := by
  rcases opened : vfsOpen st fds path flags with ⟨st',fds',_ | i⟩
  · exact ⟨st',fds',rfl⟩
  · rw [(vfsOpen_fd opened).2.2] at full
    cases full

theorem vfsRemove_heap (st : Store) (path : List Byte) : (vfsRemove st path).1.heap = st.heap := by
  unfold vfsRemove
  split
  · rfl
  · split
    · split <;> rfl
    · split <;> rfl

theorem storeWhole_heap (st : Store) (b : Nat) (path bytes : List Byte) : (storeWhole st b path bytes).1.heap = st.heap := by
  unfold storeWhole
  split
  · rfl
  · split <;> rfl

/-- A write that is no append asks the heap for nothing. -/
theorem vfsWrite_heap {i : Nat} (bound : i < vfsFdMax) (plain : (fds i).flags = vfsFWrite) (bytes : List Byte) :
    (vfsWrite st fds i bytes).1.heap = st.heap ∧ ¬Acquires (vfsWriteLocks st fds i bytes) .memory := by
  have append : flagged (fds i).flags vfsFAppend = false := by rw [plain]; decide
  constructor
  · rw [vfsWrite_slot bound]
    unfold writeSlot
    rw [append]
    split
    · rfl
    split
    · rfl
    · have whole := storeWhole_heap st (fds i).backend (fds i).path bytes
      simp only [Bool.false_eq_true,if_false]
      split
      next failed =>
        rw [failed] at whole
        exact whole
      next stored =>
        rw [stored] at whole
        exact whole
  · unfold vfsWriteLocks writeSlotLocks
    rw [if_neg (by omega),Int.toNat_natCast,append]
    split
    · simp
    · split <;> simp

/-- The first read of a full log takes a buffer for the disk only. -/
theorem read_memory {i b : Nat} (bound : i < vfsFdMax) (opened : fds i = ⟨true,b,vfsFRead,0,klogName⟩)
    (size : n = fileSize st b klogName) (some : n ≠ 0) :
    (Acquires (vfsReadLocks st fds i n) .memory ↔ b = backendDiskfs ∧ n ≤ vfsIoMax ∧ (freeHeapSlot st.heap).isSome = true) ∧
      (b ≠ backendDiskfs → (vfsRead st fds i n).1.heap = st.heap) ∧
      (b = backendDiskfs → ¬(n ≤ vfsIoMax ∧ (freeHeapSlot st.heap).isSome = true) → (vfsRead st fds i n).2.2 = none) := by
  have readable : flagged vfsFRead vfsFRead = true := by decide
  rw [vfsRead_slot bound]
  unfold vfsReadLocks readSlotLocks readSlot
  rw [if_neg (by omega),Int.toNat_natCast,opened]
  dsimp only
  rw [readable,← size]
  by_cases small : n ≤ vfsIoMax
  · have passes : ¬(true = false ∨ n > vfsIoMax ∨ true = false) := by simp; omega
    have more : ¬0 ≥ n := by omega
    rw [if_neg passes,if_neg passes,if_neg more,if_neg more]
    by_cases disk : b = backendDiskfs
    · rw [if_pos disk,if_pos disk]
      refine ⟨?_,fun other => absurd disk other,fun _ blocked => ?_⟩
      · rw [acquires_locked,buffer_memory st.heap (by decide) (Nat.le_refl _)]
        simp [disk,small]
      · have full : freeHeapSlot st.heap = none := by
          rw [← Option.not_isSome_iff_eq_none]
          exact fun slot => blocked ⟨small,slot⟩
        have refused : kmalloc st.heap vfsIoMax = none := by
          unfold kmalloc
          rw [if_neg (by decide),full]
        rw [refused]
    · rw [if_neg disk,if_neg disk]
      refine ⟨by simp [disk],fun _ => ?_,fun same => absurd same disk⟩
      split <;> rfl
  · rw [if_pos (by omega),if_pos (by omega)]
    refine ⟨?_,fun _ => rfl,fun _ _ => rfl⟩
    simp [small]

/-- The descriptor of the first read of a full log. -/
theorem log_read (target : Target st klogName stat.backend) (size : stat.size = fileSize st stat.backend klogName)
    (some : stat.size ≠ 0) (free : freeFd fds ≠ none) :
    ∃ i fds₁, i < vfsFdMax ∧ vfsOpen st fds klogFilePath vfsFRead = (st,fds₁,Option.some i) ∧
      (Acquires (vfsReadLocks st fds₁ i stat.size) .memory ↔
        stat.backend = backendDiskfs ∧ stat.size ≤ vfsIoMax ∧ (freeHeapSlot st.heap).isSome = true) ∧
      (stat.backend ≠ backendDiskfs → (vfsRead st fds₁ i stat.size).1.heap = st.heap) ∧
      (stat.backend = backendDiskfs → ¬(stat.size ≤ vfsIoMax ∧ (freeHeapSlot st.heap).isSome = true) →
        (vfsRead st fds₁ i stat.size).2.2 = none) := by
  obtain ⟨i,bound,opened⟩ := vfsOpen_target target klog_normal free vfsFRead
  exact ⟨i,_,bound,opened,read_memory bound (Function.update_self _ _ _) size some⟩

theorem rotate_memory (target : Target st klogName stat.backend) (size : stat.size = fileSize st stat.backend klogName)
    (some : stat.size ≠ 0) : Acquires (rotateLogFileLocks st fds stat) .memory ↔ freeFd fds ≠ none ∧
      stat.backend = backendDiskfs ∧ stat.size ≤ vfsIoMax ∧ (freeHeapSlot st.heap).isSome = true := by
  unfold rotateLogFileLocks
  rw [acquires_append]
  by_cases free : freeFd fds = none
  · obtain ⟨st₁,fds₁,opened⟩ := @vfsOpen_refused st fds klogFilePath vfsFRead free
    rw [opened]
    simp [path_memory,free]
  · obtain ⟨i,fds₁,bound,opened,reads,_,_⟩ := log_read target size some free
    rw [opened]
    simp only [ne_eq,some,not_false_eq_true,if_true,acquires_append,path_memory,close_memory,false_or,or_false,reads,free,true_and]
    refine or_iff_left ?_
    split
    · exact acquires_nil _
    next bytes _ =>
      generalize bytes.drop (cutStart bytes (logLimit stat.backend)) = retained
      rw [acquires_append]
      rintro (here | there)
      · exact path_memory _ here
      · split at there
        · exact acquires_nil _ there
        · rw [acquires_append] at there
          rcases there with here | there
          · exact path_memory _ here
          · split at there
            · exact acquires_nil _ there
            next st₂ fds₂ j again =>
              obtain ⟨bound',plain,_⟩ := vfsOpen_fd again
              generalize (if ¬retained = [] then vfsWrite st₂ fds₂ j retained else (st₂,fds₂,Option.some 0)) = result at there
              rw [acquires_append,acquires_append] at there
              rcases there with (writing | here) | here
              · split at writing
                · exact (vfsWrite_heap bound' plain _).2 writing
                · exact acquires_nil _ writing
              · exact close_memory _ here
              · split at here
                · exact acquires_nil _ here
                · exact path_memory _ here

/-- The log file is there before a line is put behind it. -/
theorem ensureLogFile_found (ensured : ensureLogFile st fds = (st',fds',some stat)) :
    vfsStatPath st' klogFilePath = some stat ∧ st'.heap = st.heap := by
  unfold ensureLogFile at ensured
  split at ensured
  next found =>
    cases ensured
    exact ⟨found,rfl⟩
  · have heap := vfsOpen_heap st fds klogFilePath (vfsFWrite + vfsFAppend)
    rcases opened : vfsOpen st fds klogFilePath (vfsFWrite + vfsFAppend) with ⟨st₁,fds₁,_ | i⟩
    · rw [opened] at ensured
      cases ensured
    · rw [opened] at ensured heap
      dsimp only at ensured heap
      obtain ⟨rfl,rest⟩ := Prod.mk.inj ensured
      exact ⟨(Prod.mk.inj rest).2,heap⟩

/-- The last part of an append takes a buffer if there is a descriptor and a record for it. -/
theorem append_memory (found : vfsStatPath st klogFilePath = some stat) {line : List Byte}
    (fits : stat.size + line.length ≤ logLimit stat.backend) :
    Acquires (vfsPathLocks klogFilePath ++ match vfsOpen st fds klogFilePath (vfsFWrite + vfsFAppend) with
      | (_,_,none) => []
      | (st,fds,some fd) => vfsWriteLocks st fds fd line ++ vfsCloseLocks fd) .memory ↔
        freeFd fds ≠ none ∧ (freeHeapSlot st.heap).isSome = true := by
  obtain ⟨target,size⟩ := stat_target found
  rw [acquires_append]
  by_cases free : freeFd fds = none
  · obtain ⟨st₁,fds₁,opened⟩ := @vfsOpen_refused st fds klogFilePath (vfsFWrite + vfsFAppend) free
    rw [opened]
    simp [path_memory,free]
  · obtain ⟨i,bound,opened⟩ := vfsOpen_target target klog_normal free (vfsFWrite + vfsFAppend)
    have limits := logLimit_io stat.backend
    have written : flagged (vfsFWrite + vfsFAppend) vfsFWrite = true := by decide
    have appended : flagged (vfsFWrite + vfsFAppend) vfsFAppend = true := by decide
    have passes : ¬(true = false ∨ line.length > vfsIoMax ∨ true = false) := by simp; omega
    have room : ¬(stat.size > logLimit stat.backend ∨ line.length > logLimit stat.backend - stat.size) := by omega
    have taken : Acquires (vfsWriteLocks st (Function.update fds i ⟨true,stat.backend,vfsFWrite + vfsFAppend,
        if flagged (vfsFWrite + vfsFAppend) vfsFAppend then fileSize st stat.backend klogName else 0,klogName⟩) i line) .memory ↔
          (freeHeapSlot st.heap).isSome = true := by
      unfold vfsWriteLocks writeSlotLocks appendSlotLocks
      rw [if_neg (by omega),Int.toNat_natCast,Function.update_self]
      dsimp only
      rw [written,appended,if_neg passes,if_neg (by simp),if_pos rfl,← size]
      show Acquires (locked .vfs (if stat.size > logLimit stat.backend ∨ line.length > logLimit stat.backend - stat.size then []
        else bufferLocks st.heap (logLimit stat.backend))) .memory ↔ _
      rw [if_neg room,acquires_locked,buffer_memory st.heap (by omega) limits.2]
      simp
    rw [opened]
    simp only [acquires_append,path_memory,close_memory,false_or,or_false,taken,ne_eq,free,not_false_eq_true,true_and]

/-- A full log that cannot be read leaves no room for the line. -/
theorem rotate_refused (found : vfsStatPath st klogFilePath = some stat) (full : stat.size ≠ 0) (disk : stat.backend = backendDiskfs)
    (blocked : ¬(freeFd fds ≠ none ∧ stat.size ≤ vfsIoMax ∧ (freeHeapSlot st.heap).isSome = true)) :
    (rotateLogFile st fds stat n).2.2 = false := by
  obtain ⟨target,size⟩ := stat_target found
  unfold rotateLogFile
  by_cases free : freeFd fds = none
  · obtain ⟨st₁,fds₁,opened⟩ := @vfsOpen_refused st fds klogFilePath vfsFRead free
    rw [opened]
  · obtain ⟨i,fds₁,bound,opened,_,_,fails⟩ := log_read target size full free
    have missing := fails disk fun readable => blocked ⟨free,readable⟩
    rw [opened]
    dsimp only
    rw [if_pos full]
    generalize vfsRead st fds₁ i stat.size = result at missing ⊢
    obtain ⟨st₁,fds₁,bytes⟩ := result
    obtain rfl : bytes = none := missing
    rfl

/-- A log in memory that has been cut is open for the line, and the heap is as it was. -/
theorem rotate_settles (found : vfsStatPath st klogFilePath = some stat) (full : stat.size ≠ 0) (memory : stat.backend ≠ backendDiskfs)
    (rotated : rotateLogFile st fds stat n = (st',fds',true)) :
    freeFd fds ≠ none ∧ freeFd fds' ≠ none ∧ st'.heap = st.heap ∧
      ∃ stat', vfsStatPath st' klogFilePath = some stat' ∧ stat'.size + n ≤ logLimit stat'.backend := by
  obtain ⟨target,size⟩ := stat_target found
  unfold rotateLogFile at rotated
  by_cases free : freeFd fds = none
  · obtain ⟨st₁,fds₁,opened⟩ := @vfsOpen_refused st fds klogFilePath vfsFRead free
    rw [opened] at rotated
    cases rotated
  · obtain ⟨i,fds₁,bound,opened,_,same,_⟩ := log_read target size full free
    have heap₁ := same memory
    rw [opened] at rotated
    dsimp only at rotated
    rw [if_pos full] at rotated
    generalize vfsRead st fds₁ i stat.size = result at heap₁ rotated
    obtain ⟨st₁,fds₁,bytes⟩ := result
    dsimp only at heap₁ rotated
    rcases bytes with _ | bytes
    · cases rotated
    · dsimp only at rotated
      generalize bytes.drop (cutStart bytes (logLimit stat.backend)) = retained at rotated
      have heap₂ := vfsRemove_heap st₁ klogFilePath
      rcases removed : vfsRemove st₁ klogFilePath with ⟨st₂,_ | _⟩
      · rw [removed] at rotated
        cases rotated
      · rw [removed] at rotated heap₂
        dsimp only at rotated heap₂
        have heap₃ := vfsOpen_heap st₂ (vfsClose fds₁ i).1 klogFilePath vfsFWrite
        rcases again : vfsOpen st₂ (vfsClose fds₁ i).1 klogFilePath vfsFWrite with ⟨st₃,fds₃,_ | j⟩
        · rw [again] at rotated
          cases rotated
        · obtain ⟨bound',plain,_⟩ := vfsOpen_fd again
          rw [again] at rotated heap₃
          dsimp only at rotated heap₃
          have heap₄ : (if retained ≠ [] then vfsWrite st₃ fds₃ j retained else (st₃,fds₃,some 0)).1.heap = st₃.heap := by
            split
            · exact (vfsWrite_heap bound' plain retained).1
            · rfl
          generalize (if retained ≠ [] then vfsWrite st₃ fds₃ j retained else (st₃,fds₃,some 0)) = result at heap₄ rotated
          obtain ⟨st₄,fds₄,stored⟩ := result
          dsimp only at heap₄ rotated
          split at rotated
          · cases rotated
          · rcases after : vfsStatPath st₄ klogFilePath with _ | stat'
            · rw [after] at rotated
              cases rotated
            · rw [after] at rotated
              dsimp only at rotated
              obtain ⟨rfl,rest⟩ := Prod.mk.inj rotated
              obtain ⟨rfl,fits⟩ := Prod.mk.inj rest
              exact ⟨free,vfsClose_free bound',by rw [heap₄,heap₃,heap₂,heap₁],stat',after,of_decide_eq_true fits⟩

end Log

/-- A line takes the lock of the file system, and that of the allocator where `lineAllocates` says so. -/
theorem appendLogFileLocks_acquires (st : Store) (fds : FdTable) {line : List Byte} (given : 0 < line.length)
    (short : line.length < klogLineCapacity) : Acquires (appendLogFileLocks st fds line) .vfs ∧
      (Acquires (appendLogFileLocks st fds line) .memory ↔ lineAllocates st fds line.length = true) := by
  have some : line ≠ [] := List.length_pos_iff.mp given
  have visits : Acquires (vfsPathLocks klogFilePath) .vfs := by
    unfold vfsPathLocks
    rw [klog_normal]
    simp
  constructor
  · unfold appendLogFileLocks ensureLogFileLocks
    rw [if_neg some,acquires_append,acquires_append]
    exact .inl (.inl visits)
  · unfold appendLogFileLocks lineAllocates
    rw [if_neg some,acquires_append]
    simp only [ensure_memory,false_or]
    rcases ensured : ensureLogFile st fds with ⟨st₁,fds₁,_ | stat⟩
    · simp
    obtain ⟨found,heap⟩ := ensureLogFile_found ensured
    have limits := logLimit_io stat.backend
    have fitting : ¬line.length > logLimit stat.backend := by
      unfold klogLineCapacity at short
      omega
    dsimp only
    rw [if_neg fitting,← heap]
    by_cases fits : stat.size + line.length ≤ logLimit stat.backend
    · have room : ¬stat.size + line.length > logLimit stat.backend := by omega
      rw [if_neg room,if_neg room,if_pos fits,List.nil_append,if_neg Bool.noConfusion,append_memory found fits]
      simp [and_comm,Option.isSome_iff_ne_none]
    · have overfull : stat.size + line.length > logLimit stat.backend := by omega
      have full : stat.size ≠ 0 := by
        unfold klogLineCapacity at short
        omega
      obtain ⟨target,size⟩ := stat_target found
      rw [if_pos overfull,if_pos overfull,if_neg fits,acquires_append,rotate_memory target size full]
      by_cases disk : stat.backend = backendDiskfs
      · rw [if_pos disk]
        by_cases readable : freeFd fds₁ ≠ none ∧ stat.size ≤ vfsIoMax ∧ (freeHeapSlot st₁.heap).isSome = true
        · simp [readable,disk,Option.isSome_iff_ne_none]
        · have refused := @rotate_refused st₁ fds₁ stat line.length found full disk readable
          generalize rotateLogFile st₁ fds₁ stat line.length = result at refused ⊢
          rw [if_pos refused]
          simp only [disk,true_and,acquires_nil,or_false,Bool.and_eq_true,decide_eq_true_iff,Option.isSome_iff_ne_none]
          constructor
          · rintro ⟨free,small,slot⟩
            exact ⟨slot,free,small⟩
          · rintro ⟨slot,free,small⟩
            exact ⟨free,small,slot⟩
      · rw [if_neg disk]
        simp only [disk,false_and,and_false,false_or]
        rcases rotated : rotateLogFile st₁ fds₁ stat line.length with ⟨st₂,fds₂,_ | _⟩
        · simp
        · obtain ⟨free,free',heap',stat',found',fits'⟩ := rotate_settles found full disk rotated
          dsimp only
          rw [if_neg Bool.noConfusion,append_memory found' fits',heap']
          simp [free,free',Option.isSome_iff_ne_none]

end LionOS.Diag

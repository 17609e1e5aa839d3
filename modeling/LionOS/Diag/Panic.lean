import LionOS.Diag.Locks
import LionOS.Diag.Ring
import LionOS.Files.Appends

/-! A panic: the line that it logs, the report behind it, and the locks in between. -/
namespace LionOS.Diag
open LionOS.Memory LionOS.Physical LionOS.Files LionOS.Library LionOS.Processes

abbrev Word := BitVec 32

def klogError : Nat := 3
def klogPanic : Nat := 4
def klogLevels : Nat := 5

def levelName (level : Nat) : List Byte := persistentLevelName level

/-! ### Numbers -/

def hexDigit (digit : Nat) : Byte := (ascii "0123456789ABCDEF".toList).getD digit 0

def hexDigits (value : Word) : List Byte := (List.range 8).map fun i => hexDigit ((value.toNat >>> (28 - 4 * i)) % 16)

def debugHex32 (value : Word) : List Byte := ascii "0x".toList ++ hexDigits value

def consoleWriteHex (value : Word) : List Byte := ascii "0x".toList ++ hexDigits value

def consoleWriteDec (value : Word) : List Byte := ascii (Nat.toDigits 10 value.toNat)

/-! ### The logger -/

/-- What the logger and the panic keep; the kernel's own descriptors are table 0 of the machine. -/
structure KernelDiag where
  logCounts : Nat → Nat
  ring : LogRing
  panicActive : Bool
  persistenceReady : Bool
  failureReported : Bool
  machine : Machine

def KernelDiag.fds (k : KernelDiag) : FdTable := k.machine.tables 0

def KernelDiag.withFiles (k : KernelDiag) (store : Store) (fds : FdTable) : KernelDiag :=
  {k with machine := {k.machine with store,tables := Function.update k.machine.tables 0 fds}}

/-- `append_log_file_locked`, and `report_persistence_failure` where it fails. With the state comes
what goes to the debug port. -/
def appendReporting (k : KernelDiag) (line : List Byte) : KernelDiag × List Byte :=
  match appendLogFileLocked k.machine.store k.fds line with
  | (store,fds,true) => (k.withFiles store fds,[])
  | (store,fds,false) => ({k.withFiles store fds with failureReported := true},
      if k.failureReported then [] else ascii "LIONOS:PERSIST-LOG-WRITE-FAILED\n".toList)

def kernelLogPersistenceWrite (k : KernelDiag) (level : Nat) (message : Option (List Byte)) : KernelDiag × List Byte :=
  if k.persistenceReady = false then (k,[])
  else
    let line := formatLogLine level message klogLineCapacity
    if line = [] then (k,[]) else appendReporting k line

/-- A call that nothing interrupts, behind its last store. -/
def kernelLogRingRecord (ring : LogRing) (record : Record) : LogRing :=
  (run Logging.next ⟨ring,[],[]⟩ (.call record::List.replicate (klogMessageMax + 5) .step)).ring

def kernelLog (k : KernelDiag) (level : Nat) (message : Option (List Byte)) : KernelDiag × List Byte :=
  let level := if level ≥ klogLevels then klogError else level
  let counted := {k with logCounts := Function.update k.logCounts level ((k.logCounts level + 1) % 2^32),
                         ring := kernelLogRingRecord k.ring ⟨level,message⟩}
  let (k,failure) := kernelLogPersistenceWrite counted level message
  (k,failure ++ ascii "LIONOS:LOG:".toList ++ levelName level ++ ascii ":".toList ++ cstring (message.getD []) ++ [newline])

/-- The locks of `kernel_log`, all of them those of `kernel_log_persistence_write`. -/
def kernelLogLocks (k : KernelDiag) (level : Nat) (message : Option (List Byte)) : Steps :=
  if k.persistenceReady = false then []
  else
    let line := formatLogLine (if level ≥ klogLevels then klogError else level) message klogLineCapacity
    if line = [] then [] else locked .persistence (appendLogFileLocks k.machine.store k.fds line)

/-! ### The log of a session -/

def containsBytes (buffer needle : List Byte) : Bool :=
  if needle = [] ∨ needle.length > buffer.length then false
  else (List.range (buffer.length - needle.length + 1)).any fun i => needle.isPrefixOf (buffer.drop i)

/-- Whether the log on the disk says that the last session came up. -/
def previousSessionComplete (st : Store) (fds : FdTable) : Store × FdTable × Bool :=
  match vfsStatPath st klogFilePath with
  | none => (st,fds,false)
  | some stat =>
    if stat.backend ≠ backendDiskfs ∨ stat.size = 0 then (st,fds,false)
    else match vfsOpen st fds klogFilePath vfsFRead with
      | (st,fds,none) => (st,fds,false)
      | (st,fds,some fd) =>
        let (st,fds,bytes) := vfsRead st fds fd stat.size
        (st,(vfsClose fds fd).1,containsBytes (bytes.getD []) (ascii "LionOS boot completed; starting desktop".toList))

/-- The entries of the ring from `i` on, put into the file. -/
def appendEntries (k : KernelDiag) (i : Nat) : Nat → KernelDiag × List Byte
  | 0 => (k,[])
  | count+1 =>
    let (k,text) := match kernelLogRead k.ring i true klogMessageMax with
      | none => (k,[])
      | some (level,message) =>
        let line := formatLogLine level (some message) klogLineCapacity
        if line = [] then (k,[]) else appendReporting k line
    let (k,rest) := appendEntries k (i+1) count
    (k,text ++ rest)

/-- `kernel_log_persistence_init`; the flag is its success. -/
def kernelLogPersistenceInit (k : KernelDiag) : KernelDiag × List Byte × Bool :=
  let (store,fds,complete) := previousSessionComplete k.machine.store k.fds
  match ensureLogFile store fds with
  | (store,fds,none) => ({k.withFiles store fds with persistenceReady := false},[],false)
  | (store,fds,some stat) =>
    let ready := {k.withFiles store fds with persistenceReady := true}
    let (opened,first) := appendReporting ready (ascii "\n----- LionOS boot session -----\n".toList)
    let (k,entries) := appendEntries opened 0 (kernelLogEntryCount k.ring)
    (k,first ++ entries ++ (if complete then ascii "LIONOS:PERSIST-LOG-OK\n".toList else []) ++
      ascii (if stat.backend = backendDiskfs then "LIONOS:PERSIST-LOG-DISK-READY\n" else "LIONOS:PERSIST-LOG-RAM-ONLY\n").toList ++
      ascii "LIONOS:PERSIST-LOG-READY\n".toList,true)

/-! ### The panic -/

/-- The arguments of `kernel_panic`, and the address that a page fault leaves in cr2. -/
structure PanicFrame where
  vector : Word
  error : Word
  eip : Word
  cs : Word
  eflags : Word
  cr2 : Word

def panicMessage : List Byte := ascii "kernel exception".toList

/-- What the panic hands to `console_putc`. -/
def panicConsole (f : PanicFrame) : List Byte :=
  ascii "\n[FATAL] KERNEL PANIC\n".toList ++
    ascii " vector=".toList ++ consoleWriteDec f.vector ++
    ascii " error=0x".toList ++ consoleWriteHex f.error ++
    ascii " eip=0x".toList ++ consoleWriteHex f.eip ++
    ascii " cs=0x".toList ++ consoleWriteHex f.cs ++
    ascii " eflags=0x".toList ++ consoleWriteHex f.eflags ++
    ascii "\nSystem halted.\n".toList

/-- What it hands to `debug_putc`, behind the line of the logger. -/
def panicDebug (f : PanicFrame) : List Byte :=
  ascii "LIONOS:PANIC vector=".toList ++ debugHex32 f.vector ++
    ascii " error=".toList ++ debugHex32 f.error ++
    ascii " eip=".toList ++ debugHex32 f.eip ++
    (if f.vector = 14 then ascii " cr2=".toList ++ debugHex32 f.cr2 else []) ++
    ascii " cs=".toList ++ debugHex32 f.cs ++
    ascii " eflags=".toList ++ debugHex32 f.eflags ++ [newline]

/-- Where a panic comes to: the loop that halts, with what it has printed, or a lock that is never
released, since interrupts are off and the holder is the code that has faulted. -/
inductive PanicEnd
  | halted (k : KernelDiag) (console debug : List Byte)
  | spins (lock : KernelLock)

/-- `held` are the locks that the CPU holds where it faults. -/
def kernelPanic (k : KernelDiag) (held : KernelLock → Bool) (f : PanicFrame) : PanicEnd :=
  if k.panicActive then .halted k [] []
  else
    let active := {k with panicActive := true}
    match waitsFor held (kernelLogLocks active klogPanic (some panicMessage)) with
    | some lock => .spins lock
    | none =>
      let (k,text) := kernelLog active klogPanic (some panicMessage)
      .halted k (panicConsole f) (text ++ panicDebug f)

/-- The report is printed, and then the CPU halts. -/
def Reports (f : PanicFrame) : PanicEnd → Prop
  | .halted _ console debug => console = panicConsole f ∧ ∃ before, debug = before ++ panicDebug f
  | .spins _ => False

def panicLine : List Byte := formatLogLine klogPanic (some panicMessage) klogLineCapacity

example : panicLine = ascii "PANIC: kernel exception\n".toList := by decide

/-- The logger passes all its locks. -/
theorem kernelLogLocks_pass (k : KernelDiag) (held : KernelLock → Bool) :
    waitsFor held (kernelLogLocks k klogPanic (some panicMessage)) = none ↔
      k.persistenceReady = false ∨ held .persistence = false ∧ held .vfs = false ∧
        (held .memory = false ∨ lineAllocates k.machine.store k.fds panicLine.length = false) := by
  obtain ⟨given,short⟩ := formatLogLine_length klogPanic (some panicMessage)
  have some : panicLine ≠ [] := List.length_pos_iff.mp given
  have files := appendLogFileLocks_files k.machine.store k.fds panicLine
  obtain ⟨visits,allocates⟩ := appendLogFileLocks_acquires k.machine.store k.fds given short
  change Acquires (appendLogFileLocks k.machine.store k.fds panicLine) .vfs at visits
  change Acquires (appendLogFileLocks k.machine.store k.fds panicLine) .memory ↔ lineAllocates k.machine.store k.fds panicLine.length = true at allocates
  cases ready : k.persistenceReady with
  | false =>
    unfold kernelLogLocks
    rw [if_pos ready]
    simp [waitsFor]
  | true =>
    have trace : kernelLogLocks k klogPanic (Option.some panicMessage) =
        locked .persistence (appendLogFileLocks k.machine.store k.fds panicLine) := by
      have level : ¬klogPanic ≥ klogLevels := by decide
      unfold kernelLogLocks
      rw [if_neg (by rw [ready]; exact Bool.noConfusion),if_neg level]
      rw [panicLine] at some ⊢
      exact if_neg some
    have sections : Sections (locked .persistence (appendLogFileLocks k.machine.store k.fds panicLine)) := by
      refine .around files.sections fun taken => ?_
      rcases files.only _ taken with other | other <;> cases other
    rw [trace,sections.waitsFor_none]
    simp only [acquires_locked]
    constructor
    · intro free
      refine .inr ⟨free _ (.inl rfl),free _ (.inr visits),?_⟩
      by_cases buffer : lineAllocates k.machine.store k.fds panicLine.length = true
      · exact .inl (free _ (.inr (allocates.mpr buffer)))
      · exact .inr (Bool.not_eq_true _ ▸ buffer)
    · rintro (unready | ⟨own,vfs,memory⟩) lock taken
      · cases unready
      · rcases taken with rfl | inside
        · exact own
        · rcases files.only _ inside with rfl | rfl
          · exact vfs
          · rcases memory with free | none
            · exact free
            · rw [allocates.mp inside] at none
              cases none

theorem kernelPanic_reports {k : KernelDiag} {held : KernelLock → Bool} {f : PanicFrame} (first : k.panicActive = false) :
    Reports f (kernelPanic k held f) ↔
      waitsFor held (kernelLogLocks {k with panicActive := true} klogPanic (some panicMessage)) = none := by
  unfold kernelPanic
  rw [if_neg (by rw [first]; exact Bool.noConfusion)]
  dsimp only
  cases waitsFor held (kernelLogLocks {k with panicActive := true} klogPanic (some panicMessage)) with
  | none => exact ⟨fun _ => rfl,fun _ => ⟨rfl,_,rfl⟩⟩
  | some lock => exact ⟨False.elim,fun none => by cases none⟩

/-- The first panic of a kernel reports exactly if nothing is logged to the file, or none of the
locks on the way there is the CPU's own. -/
theorem panic_reports (k : KernelDiag) (held : KernelLock → Bool) (f : PanicFrame) (first : k.panicActive = false) :
    Reports f (kernelPanic k held f) ↔ k.persistenceReady = false ∨ held .persistence = false ∧ held .vfs = false ∧
      (held .memory = false ∨ lineAllocates k.machine.store k.fds panicLine.length = false) :=
  (kernelPanic_reports first).trans (kernelLogLocks_pass {k with panicActive := true} held)

/-- A kernel that has come up with an empty disk and logs to it. -/
def freshKernel : KernelDiag where
  logCounts := fun _ => 0
  ring := emptyRing
  panicActive := false
  persistenceReady := false
  failureReported := false
  machine := started (fun _ => []) (fun _ => default) bareStore.heap freshDisk

@[irreducible] def loggingKernel : KernelDiag := (kernelLogPersistenceInit freshKernel).1

/-- A write of the kernel to a page that is not there. -/
def pageFault : PanicFrame := ⟨14,2,0x100000,8,0x10002,0xDEAD0000⟩

theorem panic_outside_locks : Reports pageFault (kernelPanic loggingKernel (fun _ => false) pageFault) := by
  have first : loggingKernel.panicActive = false := by decide +kernel
  exact (panic_reports loggingKernel (fun _ => false) pageFault first).mpr (.inr ⟨rfl,rfl,.inl rfl⟩)

/-- A fault behind the first step of any call that takes a path: the log line waits for the call
that it has interrupted. -/
theorem panic_spins : loggingKernel.panicActive = false ∧ ¬Reports pageFault
    (kernelPanic loggingKernel (heldAfter (fun _ => false) ((vfsPathLocks klogFilePath).take 1)) pageFault) := by
  have first : loggingKernel.panicActive = false := by decide +kernel
  have ready : loggingKernel.persistenceReady = true := by decide +kernel
  have inside : heldAfter (fun _ => false) ((vfsPathLocks klogFilePath).take 1) .vfs = true := by
    unfold vfsPathLocks
    rw [klog_normal]
    rfl
  refine ⟨first,fun reports => ?_⟩
  have passes := (kernelPanic_reports first).mp reports
  rcases (kernelLogLocks_pass {loggingKernel with panicActive := true} _).mp passes with unready | ⟨_,free,_⟩
  · cases unready.symm.trans ready
  · cases free.symm.trans inside

end LionOS.Diag

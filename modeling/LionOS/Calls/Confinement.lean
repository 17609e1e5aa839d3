import LionOS.Calls.Shapes

/-! Which part of the kernel a system call can see: the console, the file systems, the queues
of messages and pipes, and the network are exchanged behind a trap that has no business
with them, and the trap does the same as before. -/
namespace LionOS.Calls
open LionOS.Memory LionOS.Physical LionOS.Paging LionOS.Processes LionOS.Channels LionOS.Files LionOS.Exec

inductive Family where
  | console | file | message | network
  deriving DecidableEq

def Family.capability : Family → BitVec 32
  | .console => capConsole
  | .file => capFs
  | .message => capIpc
  | .network => capNet

/-- The family of operations that a call is for; the rest is about tasks or harmless. -/
def Syscall.family : Syscall → Option Family
  | .putc | .getchar | .kbdAvail | .mousePending | .mouseRead | .write | .read | .clear => some .console
  | .fopen | .fclose | .fread | .fwrite | .remove | .stat | .getfile => some .file
  | .ipcSend | .ipcRecv | .ipcPending | .ipcRecvBlocking | .pipeCreate | .pipeRead | .pipeWrite | .pipeClose =>
    some .message
  | .netSend | .netRecv | .netPending | .netGetip | .netPing => some .network
  | .exec | .fork | .waitpid | .threadCreate | .threadJoin | .threadExit | .kill | .abiVersion | .getpid | .gettid
  | .yield | .exit | .meminfo | .getppid | .getstate | .sigpending => none

/-- The kernel with the state of one family taken from another one. -/
def Kernel.graft (k other : Kernel) : Family → Kernel
  | .console => {k with keyboard := other.keyboard,mouse := other.mouse}
  | .file => {k with ram := other.ram,disk := other.disk,allocations := other.allocations}
  | .message => {k with messages := other.messages,pipes := other.pipes}
  | .network => {k with net := other.net}

def graftOutcome {α : Type} (other : Kernel) (family : Family) (outcome : Option (Kernel × α)) : Option (Kernel × α) :=
  outcome.map fun result => (result.1.graft other family,result.2)

section Graft
variable {k other : Kernel} {family : Family} {cpu : Nat}

@[simp] theorem graft_sys : (k.graft other family).sys = k.sys := by cases family <;> rfl

@[simp] theorem graft_withVm (vm : Vm) : (k.graft other family).withVm vm = (k.withVm vm).graft other family := by
  cases family <;> rfl

/-- The rest of a call does not see the family. -/
def Blind (other : Kernel) (family : Family) {α : Type} (rest : Kernel → Option (Kernel × α)) : Prop :=
  ∀ k, rest (k.graft other family) = graftOutcome other family (rest k)

theorem refuse_blind : Blind other family refuse := fun _ => rfl

theorem done_blind (value : Nat) : Blind other family fun k => some (k,value) := fun _ => rfl

theorem withWritable_blind {rest : Kernel → Outcome} (blind : Blind other family rest) (ptr len : Nat) :
    Blind other family fun k => withWritable k cpu ptr len rest := by
  intro k
  unfold withWritable
  dsimp only
  rw [graft_sys]
  split
  · rw [graft_withVm]
    exact refuse_blind _
  · rw [graft_withVm]
    exact blind _

theorem storing_blind {rest : Kernel → Outcome} (blind : Blind other family rest) (ptr : Nat) (bytes : List Byte) :
    Blind other family fun k => storing k cpu ptr bytes rest := by
  intro k
  unfold storing
  dsimp only
  rw [graft_sys]
  split
  · rfl
  · rw [graft_withVm]
    exact blind _

theorem loading_graft {rest rest' : List Byte → Outcome}
    (blind : ∀ bytes, rest' bytes = graftOutcome other family (rest bytes)) (ptr len : Nat) :
    loading (k.graft other family) cpu ptr len rest' = graftOutcome other family (loading k cpu ptr len rest) := by
  unfold loading
  rw [graft_sys]
  split
  · rfl
  · exact blind _

theorem fillIfWritable_blind {rest : Kernel → Outcome} (blind : Blind other family rest) (ptr : Nat)
    (bytes : List Byte) : Blind other family fun k => fillIfWritable k cpu ptr bytes rest := by
  intro k
  unfold fillIfWritable
  dsimp only
  split
  · exact blind k
  rw [graft_sys]
  split
  · rw [graft_withVm]
    exact blind _
  · rw [graft_withVm]
    exact storing_blind blind ptr bytes _

end Graft

section Handlers
variable {other : Kernel} {family : Family} {cpu : Nat}

theorem graft_moves (sys : System) (k : Kernel) :
    {k.graft other family with sys} = ({k with sys} : Kernel).graft other family := by cases family <;> rfl

/-! ### The console -/

variable (other) in
theorem graft_input (apart : family ≠ .console) (k : Kernel) : (k.graft other family).keyboard = k.keyboard ∧
    (k.graft other family).mouse = k.mouse ∧
    (∀ keyboard, {k.graft other family with keyboard} = ({k with keyboard} : Kernel).graft other family) ∧
    ∀ sys mouse, {k.graft other family with sys,mouse} = ({k with sys,mouse} : Kernel).graft other family := by
  cases family with
  | console => exact absurd rfl apart
  | file | message | network => exact ⟨rfl,rfl,fun _ => rfl,fun _ _ => rfl⟩

theorem sysGetchar_blind (apart : family ≠ .console) : Blind other family sysGetchar := by
  intro k
  obtain ⟨keyboard,_,moves,_⟩ := graft_input other apart k
  unfold sysGetchar
  rw [keyboard]
  split
  · exact refuse_blind k
  · rw [moves]
    rfl

theorem sysMouseRead_blind (apart : family ≠ .console) (ptr : Nat) :
    Blind other family fun k => sysMouseRead k cpu ptr := by
  refine withWritable_blind ?_ ptr 12
  intro k
  obtain ⟨_,mouse,_,moves⟩ := graft_input other apart k
  dsimp only
  rw [graft_sys,mouse]
  split
  · rw [moves]
    rfl
  · rw [moves]
    exact storing_blind (done_blind 0) ptr _ _

theorem sysWrite_blind (ptr len : Nat) : Blind other family fun k => sysWrite k cpu ptr len := by
  intro k
  unfold sysWrite
  dsimp only
  rw [graft_sys]
  split
  · exact refuse_blind k
  · exact loading_graft (fun _ => done_blind len k) ptr len

theorem sysRead_blind (apart : family ≠ .console) (ptr len : Nat) :
    Blind other family fun k => sysRead k cpu ptr len := by
  intro k
  unfold sysRead
  dsimp only
  split
  · exact refuse_blind k
  · refine withWritable_blind ?_ ptr len k
    intro k
    obtain ⟨keyboard,_,moves,_⟩ := graft_input other apart k
    dsimp only
    rw [keyboard,moves]
    exact storing_blind (done_blind _) ptr _ _

/-! ### Tasks -/

theorem sysExec_blind (ptr : Nat) {k : Kernel} (same : (k.graft other family).ram = k.ram) :
    sysExec (k.graft other family) cpu ptr = graftOutcome other family (sysExec k cpu ptr) := by
  have load (name : List Byte) : execReplaceCurrent (k.graft other family).sys (k.graft other family).ram cpu name =
      execReplaceCurrent k.sys k.ram cpu name := by rw [graft_sys,same]
  unfold sysExec
  simp only [load]
  rw [graft_sys]
  split
  · exact refuse_blind k
  split
  · rw [graft_moves]
    exact refuse_blind _
  · rw [graft_moves]
    rfl

theorem sysWaitpid_blind (pid ptr : Nat) : Blind other family fun k => sysWaitpid k cpu pid ptr := by
  intro k
  unfold sysWaitpid
  dsimp only
  rw [graft_sys]
  split
  · rw [graft_moves]
    rfl
  · exact refuse_blind k

theorem sysThreadJoin_blind (tid ptr : Nat) : Blind other family fun k => sysThreadJoin k cpu tid ptr := by
  intro k
  unfold sysThreadJoin
  dsimp only
  rw [graft_sys]
  split
  · rw [graft_moves]
    rfl
  · exact refuse_blind k

theorem sysThreadCreate_blind (entry : Nat) : Blind other family fun k => sysThreadCreate k cpu entry := by
  intro k
  unfold sysThreadCreate
  dsimp only
  rw [graft_sys]
  split
  · exact refuse_blind k
  · cases processCreateUserThread k.sys cpu entry with
    | none => rfl
    | some made => cases family <;> rfl

/-! ### Files -/

variable (other) in
theorem graft_store (apart : family ≠ .file) (k : Kernel) : (k.graft other family).store = k.store ∧
    ∀ st, (k.graft other family).withStore st = (k.withStore st).graft other family := by
  cases family with
  | file => exact absurd rfl apart
  | console | message | network => exact ⟨rfl,fun _ => rfl⟩

theorem sysOpen_blind (apart : family ≠ .file) (ptr flags : Nat) :
    Blind other family fun k => sysOpen k cpu ptr flags := by
  intro k
  obtain ⟨store,moves⟩ := graft_store other apart k
  unfold sysOpen
  dsimp only
  rw [graft_sys,store]
  split
  · rw [moves,graft_sys,graft_moves]
    rfl
  · exact refuse_blind k

theorem sysClose_blind (fd : Nat) : Blind other family fun k => sysClose k cpu fd := by
  intro k
  unfold sysClose
  dsimp only
  rw [graft_sys]
  split
  · exact refuse_blind k
  · rw [graft_moves]
    rfl

theorem sysFread_blind (apart : family ≠ .file) (fd ptr len : Nat) :
    Blind other family fun k => sysFread k cpu fd ptr len := by
  intro k
  unfold sysFread
  dsimp only
  split
  · exact refuse_blind k
  refine withWritable_blind ?_ ptr len k
  intro k
  obtain ⟨store,moves⟩ := graft_store other apart k
  dsimp only
  rw [graft_sys,store]
  split
  · exact refuse_blind k
  next c _ =>
    cases taken : vfsReadForProcess k.store (k.sys.processes c) (toI32 fd) len with
    | mk st rest =>
      obtain ⟨p,none | bytes⟩ := rest
      · simp only [moves,graft_sys,graft_moves]
        exact refuse_blind _
      · simp only [moves,graft_sys,graft_moves]
        exact storing_blind (done_blind bytes.length) ptr bytes _

theorem sysFwrite_blind (apart : family ≠ .file) (fd ptr len : Nat) :
    Blind other family fun k => sysFwrite k cpu fd ptr len := by
  intro k
  unfold sysFwrite
  dsimp only
  rw [graft_sys]
  split
  · exact refuse_blind k
  refine loading_graft ?_ ptr len
  intro bytes
  obtain ⟨store,moves⟩ := graft_store other apart k
  rw [store]
  split
  · exact refuse_blind k
  · rw [moves,graft_sys,graft_moves]
    rfl

theorem sysRemove_blind (apart : family ≠ .file) (ptr : Nat) : Blind other family fun k => sysRemove k cpu ptr := by
  intro k
  obtain ⟨store,moves⟩ := graft_store other apart k
  unfold sysRemove
  dsimp only
  rw [graft_sys,store]
  split
  · exact refuse_blind k
  · rw [moves]
    rfl

theorem sysStat_blind (apart : family ≠ .file) (path ptr : Nat) :
    Blind other family fun k => sysStat k cpu path ptr := by
  intro k
  unfold sysStat
  dsimp only
  rw [graft_sys]
  split
  · exact refuse_blind k
  refine withWritable_blind ?_ ptr 12 k
  intro k
  dsimp only
  rw [(graft_store other apart k).1]
  split
  · exact refuse_blind k
  · exact storing_blind (done_blind 0) ptr _ k

theorem sysGetfile_blind (apart : family ≠ .file) (index ptr len : Nat) :
    Blind other family fun k => sysGetfile k cpu index ptr len := by
  intro k
  unfold sysGetfile
  dsimp only
  split
  · exact refuse_blind k
  refine withWritable_blind ?_ ptr len k
  intro k
  dsimp only
  rw [(graft_store other apart k).1]
  split
  · exact refuse_blind k
  · exact storing_blind (done_blind _) ptr _ k

/-! ### Messages and pipes -/

variable (other) in
theorem graft_queues (apart : family ≠ .message) (k : Kernel) : (k.graft other family).messages = k.messages ∧
    (k.graft other family).pipes = k.pipes ∧
    (∀ sys messages, {k.graft other family with sys,messages} = ({k with sys,messages} : Kernel).graft other family) ∧
    ∀ sys pipes, {k.graft other family with sys,pipes} = ({k with sys,pipes} : Kernel).graft other family := by
  cases family with
  | message => exact absurd rfl apart
  | console | file | network => exact ⟨rfl,rfl,fun _ _ => rfl,fun _ _ => rfl⟩

theorem sysIpcSend_blind (apart : family ≠ .message) (receiver ptr len : Nat) :
    Blind other family fun k => sysIpcSend k cpu receiver ptr len := by
  intro k
  obtain ⟨messages,_,moves,_⟩ := graft_queues other apart k
  unfold sysIpcSend
  dsimp only
  rw [graft_sys]
  split
  · exact refuse_blind k
  refine loading_graft ?_ ptr len
  intro bytes
  rw [messages,moves]
  rfl

theorem withReceiveBuffers_blind {rest : Kernel → Outcome} (blind : Blind other family rest) (ptr capacity sender : Nat) :
    Blind other family fun k => withReceiveBuffers k cpu ptr capacity sender rest := by
  intro k
  unfold withReceiveBuffers
  dsimp only
  split
  · exact refuse_blind k
  refine withWritable_blind ?_ ptr capacity k
  intro k
  dsimp only
  split
  · exact blind k
  · exact withWritable_blind blind sender 4 k

theorem deliver_blind (ptr sender : Nat) (received : List Byte × Nat) :
    Blind other family fun k => deliver k cpu ptr sender received := by
  refine storing_blind ?_ ptr received.1
  intro k
  dsimp only
  split
  · exact done_blind _ k
  · exact storing_blind (done_blind _) sender _ k

theorem sysIpcRecv_blind (apart : family ≠ .message) (ptr capacity sender : Nat) :
    Blind other family fun k => sysIpcRecv k cpu ptr capacity sender := by
  refine withReceiveBuffers_blind ?_ ptr capacity sender
  intro k
  obtain ⟨messages,_,moves,_⟩ := graft_queues other apart k
  dsimp only
  rw [graft_sys,messages]
  split
  · rw [moves]
    rfl
  · rw [moves]
    exact deliver_blind ptr sender _ _

theorem sysIpcRecvBlocking_blind (apart : family ≠ .message) (ptr capacity sender : Nat) :
    Blind other family fun k => sysIpcRecvBlocking k cpu ptr capacity sender := by
  refine withReceiveBuffers_blind ?_ ptr capacity sender
  intro k
  obtain ⟨messages,_,moves,_⟩ := graft_queues other apart k
  dsimp only
  rw [graft_sys,messages]
  split
  · rw [moves]
    rfl
  · rw [moves]
    exact deliver_blind ptr sender _ _

theorem sysPipeCreate_blind (apart : family ≠ .message) (readEnd writeEnd : Nat) :
    Blind other family fun k => sysPipeCreate k cpu readEnd writeEnd := by
  refine withWritable_blind (withWritable_blind ?_ writeEnd 4) readEnd 4
  intro k
  obtain ⟨_,pipes,_,moves⟩ := graft_queues other apart k
  dsimp only
  rw [graft_sys,pipes]
  split
  · exact refuse_blind k
  · rw [moves]
    exact storing_blind (storing_blind (done_blind 0) writeEnd _) readEnd _ _

theorem sysPipeRead_blind (apart : family ≠ .message) (handle ptr capacity : Nat) :
    Blind other family fun k => sysPipeRead k cpu handle ptr capacity := by
  intro k
  obtain ⟨_,pipes,_,moves⟩ := graft_queues other apart k
  unfold sysPipeRead
  dsimp only
  rw [graft_sys]
  split
  · exact refuse_blind k
  rw [pipes]
  split
  · rw [moves]
    rfl
  · rw [moves]
    exact storing_blind (done_blind _) ptr _ _

theorem sysPipeWrite_blind (apart : family ≠ .message) (handle ptr len : Nat) :
    Blind other family fun k => sysPipeWrite k cpu handle ptr len := by
  intro k
  obtain ⟨_,pipes,_,moves⟩ := graft_queues other apart k
  unfold sysPipeWrite
  dsimp only
  rw [graft_sys]
  split
  · exact refuse_blind k
  refine loading_graft ?_ ptr len
  intro bytes
  rw [pipes,moves]
  rfl

/-! ### The network -/

variable (other) in
theorem graft_net (apart : family ≠ .network) (k : Kernel) : (k.graft other family).net = k.net ∧
    ∀ sys net, {k.graft other family with sys,net} = ({k with sys,net} : Kernel).graft other family := by
  cases family with
  | network => exact absurd rfl apart
  | console | file | message => exact ⟨rfl,fun _ _ => rfl⟩

theorem sysNetSend_blind (apart : family ≠ .network) (dstIp ports ptr len : Nat) :
    Blind other family fun k => sysNetSend k cpu dstIp ports ptr len := by
  intro k
  obtain ⟨net,moves⟩ := graft_net other apart k
  unfold sysNetSend
  dsimp only
  rw [graft_sys]
  split
  · exact refuse_blind k
  refine loading_graft ?_ ptr len
  intro bytes
  rw [net,moves]
  rfl

theorem sysNetRecv_blind (apart : family ≠ .network) (port ptr capacity ipPtr portPtr : Nat) :
    Blind other family fun k => sysNetRecv k cpu port ptr capacity ipPtr portPtr := by
  intro k
  unfold sysNetRecv
  dsimp only
  split
  · exact refuse_blind k
  refine withWritable_blind ?_ ptr capacity k
  intro k
  obtain ⟨net,moves⟩ := graft_net other apart k
  dsimp only
  rw [graft_sys,net]
  split
  · rw [moves]
    rfl
  · rw [moves]
    refine storing_blind ?_ ptr _ _
    exact fillIfWritable_blind (fillIfWritable_blind (done_blind _) portPtr _) ipPtr _

end Handlers

section Traps
variable {k other : Kernel} {family : Family} {cpu : Nat}

theorem serve_graft {call : Syscall} (a0 a1 a2 a3 a4 : Nat) (apart : call.family ≠ some family)
    (same : call = .exec → (k.graft other family).ram = k.ram) :
    serve (k.graft other family) cpu a0 a1 a2 a3 a4 call = graftOutcome other family (serve k cpu a0 a1 a2 a3 a4 call) := by
  have other' {f : Family} (is : call.family = some f) : family ≠ f := by
    rintro rfl
    exact apart is
  cases call with
  | putc | abiVersion | yield | clear => exact done_blind _ k
  | getpid | gettid | meminfo | getppid | getstate | sigpending =>
    simp only [serve,graft_sys]
    rfl
  | exit | threadExit | kill =>
    simp only [serve,graft_sys]
    rw [graft_moves]
    rfl
  | getchar => exact sysGetchar_blind (other' rfl) k
  | kbdAvail =>
    simp only [serve,(graft_input other (other' rfl) k).1]
    rfl
  | mousePending =>
    simp only [serve,(graft_input other (other' rfl) k).2.1]
    rfl
  | mouseRead => exact sysMouseRead_blind (other' rfl) a0 k
  | write => exact sysWrite_blind a0 a1 k
  | read => exact sysRead_blind (other' rfl) a0 a1 k
  | exec => exact sysExec_blind a0 (same rfl)
  | fork => exact refuse_blind k
  | waitpid => exact sysWaitpid_blind a0 a1 k
  | threadCreate => exact sysThreadCreate_blind a0 k
  | threadJoin => exact sysThreadJoin_blind a0 a1 k
  | fopen => exact sysOpen_blind (other' rfl) a0 a1 k
  | fclose => exact sysClose_blind a0 k
  | fread => exact sysFread_blind (other' rfl) a0 a1 a2 k
  | fwrite => exact sysFwrite_blind (other' rfl) a0 a1 a2 k
  | remove => exact sysRemove_blind (other' rfl) a0 k
  | stat => exact sysStat_blind (other' rfl) a0 a1 k
  | getfile => exact sysGetfile_blind (other' rfl) a0 a1 a2 k
  | ipcSend => exact sysIpcSend_blind (other' rfl) a0 a1 a2 k
  | ipcRecv => exact sysIpcRecv_blind (other' rfl) a0 a1 a2 k
  | ipcPending =>
    simp only [serve,graft_sys,(graft_queues other (other' rfl) k).1]
    rfl
  | ipcRecvBlocking => exact sysIpcRecvBlocking_blind (other' rfl) a0 a1 a2 k
  | pipeCreate => exact sysPipeCreate_blind (other' rfl) a0 a1 k
  | pipeRead => exact sysPipeRead_blind (other' rfl) a0 a1 a2 k
  | pipeWrite => exact sysPipeWrite_blind (other' rfl) a0 a1 a2 k
  | pipeClose =>
    obtain ⟨_,pipes,_,moves⟩ := graft_queues other (other' rfl) k
    simp only [serve,graft_sys,pipes]
    rw [moves]
    rfl
  | netSend => exact sysNetSend_blind (other' rfl) a0 a1 a2 a3 k
  | netRecv => exact sysNetRecv_blind (other' rfl) a0 a1 a2 a3 a4 k
  | netPending =>
    simp only [serve,(graft_net other (other' rfl) k).1]
    rfl
  | netGetip =>
    simp only [serve,(graft_net other (other' rfl) k).1]
    rfl
  | netPing =>
    simp only [serve,(graft_net other (other' rfl) k).1]
    rfl

theorem reschedule_blind (acquired : Bool) (frame : Frame) :
    Blind other family fun k => k.reschedule cpu acquired frame := by
  intro k
  cases family <;> rfl

/-- A trap that may not use the family, or does not want to, neither sees nor changes it. -/
theorem syscallTrap_graft {env : Env} {frame : Frame}
    (apart : ∀ call, syscallOf frame.eax = some call → permitted k cpu call = true → call.family ≠ some family)
    (same : frame.eax = sysExecNumber → (k.graft other family).ram = k.ram) :
    syscallTrap (k.graft other family) cpu env frame = graftOutcome other family (syscallTrap k cpu env frame) := by
  have dispatch : syscallDispatch (k.graft other family) cpu frame.eax frame.ebx frame.ecx frame.edx frame.esi frame.edi =
      graftOutcome other family (syscallDispatch k cpu frame.eax frame.ebx frame.ecx frame.edx frame.esi frame.edi) := by
    have allowed (call : Syscall) : permitted (k.graft other family) cpu call = permitted k cpu call := by
      unfold permitted
      rw [graft_sys]
    unfold syscallDispatch
    split
    · exact refuse_blind k
    next call valid =>
      rw [allowed]
      split
      next may =>
        refine serve_graft _ _ _ _ _ (apart call valid may) ?_
        rintro rfl
        exact same (by rw [syscallOf_number valid]; rfl)
      next => exact refuse_blind k
  unfold syscallTrap
  dsimp only
  rw [graft_sys,dispatch]
  split
  · rw [graft_moves]
    rfl
  cases syscallDispatch k cpu frame.eax frame.ebx frame.ecx frame.edx frame.esi frame.edi with
  | none => rfl
  | some result =>
    obtain ⟨k,value⟩ := result
    simp only [graftOutcome,Option.map_some,graft_sys]
    split
    · split
      · rfl
      · split <;> rfl
    split
    · exact reschedule_blind _ _ k
    split
    · exact reschedule_blind _ _ k
    · rfl

end Traps

end LionOS.Calls

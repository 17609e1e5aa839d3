import LionOS.Calls.Silence
import LionOS.Calls.Stores

/-! Every byte that the kernel stores to user memory for a system call, and the pages
that it goes to. -/
namespace LionOS.Calls
open LionOS.Memory LionOS.Physical LionOS.Paging LionOS.Processes LionOS.Channels LionOS.Files LionOS.Exec

/-- The call has not faulted, and all its stores went through writable pages. -/
def Safe (live : Nat → Prop) (base : Vm) (out : Outcome) : Prop :=
  ∃ k value, out = some (k,value) ∧ Writes live base k.sys.vm

/-- Every byte of the buffer can be stored to. -/
def Buffer (vm : Vm) (cpu ptr len : Nat) : Prop := ∀ i < len, writableAt vm (vm.currentDirectory cpu) (ptr + i) = true

/-- The address space of the caller is loaded and formed, and nothing but writable
pages has been stored to. -/
structure Loaded (live : Nat → Prop) (role : Nat → Role) (base : Vm) (cpu : Nat) (vm : Vm) : Prop where
  kept : Kept role vm.pages
  space : Space role vm (vm.currentDirectory cpu)
  own : live (vm.currentDirectory cpu)
  writes : Writes live base vm

section Rules
variable {live : Nat → Prop} {role : Nat → Role} {base vm vm' : Vm} {k : Kernel} {cpu ptr len value : Nat}

theorem Safe.done (writes : Writes live base k.sys.vm) (value : Nat) : Safe live base (some (k,value)) :=
  ⟨k,value,rfl,writes⟩

theorem Safe.refused (writes : Writes live base k.sys.vm) : Safe live base (refuse k) := .done writes syscallErr

theorem Loaded.silent (loaded : Loaded live role base cpu vm) (same : k.sys.vm.userStores = vm.userStores) (value : Nat) :
    Safe live base (some (k,value)) := .done (loaded.writes.trans (.silent same)) value

theorem Loaded.opened (loaded : Loaded live role base cpu vm)
    (opened : Opened role (vm.currentDirectory cpu) vm vm') : Loaded live role base cpu vm' := by
  have same : vm'.currentDirectory cpu = vm.currentDirectory cpu := by rw [opened.directory]
  refine ⟨opened.kept,?_,?_,loaded.writes.trans (.silent opened.stores)⟩
  · rw [same]
    exact opened.space
  · rw [same]
    exact loaded.own

theorem Loaded.stored (loaded : Loaded live role base cpu vm)
    (stored : Stored live role (vm.currentDirectory cpu) vm vm') : Loaded live role base cpu vm' := by
  have same : vm'.currentDirectory cpu = vm.currentDirectory cpu := by rw [stored.directory]
  refine ⟨?_,?_,?_,loaded.writes.trans stored.writes⟩
  · rw [stored.pages]
    exact loaded.kept
  · rw [same]
    exact stored.space loaded.space
  · rw [same]
    exact loaded.own

theorem Buffer.opened (buffer : Buffer vm cpu ptr len) (opened : Opened role (vm.currentDirectory cpu) vm vm') :
    Buffer vm' cpu ptr len := by
  intro i inside
  rw [opened.directory]
  exact opened.writable _ (buffer i inside)

theorem Buffer.stored (buffer : Buffer vm cpu ptr len) (formed : Formed role vm.mem (vm.currentDirectory cpu))
    (stored : Stored live role (vm.currentDirectory cpu) vm vm') : Buffer vm' cpu ptr len := by
  intro i inside
  rw [stored.directory,stored.writableAt formed]
  exact buffer i inside

theorem Buffer.shorter {n : Nat} (buffer : Buffer vm cpu ptr len) (short : n ≤ len) : Buffer vm cpu ptr n :=
  fun i inside => buffer i (by omega)

theorem withWritable_safe {rest : Kernel → Outcome} (loaded : Loaded live role base cpu k.sys.vm)
    (safe : ∀ vm, Loaded live role base cpu vm → Opened role (k.sys.vm.currentDirectory cpu) k.sys.vm vm →
      Buffer vm cpu ptr len → Safe live base (rest (k.withVm vm))) :
    Safe live base (withWritable k cpu ptr len rest) := by
  unfold withWritable
  cases checked : userRangeOkWrite k.sys.vm cpu ptr len with
  | mk vm ok =>
    obtain ⟨opened,all⟩ := userRangeOkWrite_opened loaded.kept loaded.space checked
    cases ok with
    | false => exact .refused (loaded.opened opened).writes
    | true =>
      apply safe vm (loaded.opened opened) opened
      intro i inside
      rw [opened.directory]
      exact all rfl i inside

theorem storing_safe {rest : Kernel → Outcome} {bytes : List Byte}
    (formed : Formed role k.sys.vm.mem (k.sys.vm.currentDirectory cpu)) (own : live (k.sys.vm.currentDirectory cpu))
    (buffer : Buffer k.sys.vm cpu ptr bytes.length)
    (safe : ∀ vm, Stored live role (k.sys.vm.currentDirectory cpu) k.sys.vm vm → Safe live base (rest (k.withVm vm))) :
    Safe live base (storing k cpu ptr bytes rest) := by
  obtain ⟨vm,done,stored⟩ := storeUserBytes_stored formed own buffer
  simp only [storing,done]
  exact safe vm stored

/-- The last stores of a call. -/
theorem storing_done {bytes : List Byte} {values : Kernel → Nat}
    (formed : Formed role k.sys.vm.mem (k.sys.vm.currentDirectory cpu)) (own : live (k.sys.vm.currentDirectory cpu))
    (writes : Writes live base k.sys.vm) (buffer : Buffer k.sys.vm cpu ptr bytes.length) :
    Safe live base (storing k cpu ptr bytes fun k => some (k,values k)) :=
  storing_safe formed own buffer fun _ stored => .done (writes.trans stored.writes) _

theorem loading_safe {rest : List Byte → Outcome} (checked : userRangeOk k.sys.vm cpu ptr len = true)
    (safe : ∀ bytes, Safe live base (rest bytes)) : Safe live base (loading k cpu ptr len rest) := by
  obtain ⟨bytes,loaded⟩ := loadUserBytes_checked checked
  simp only [loading,loaded]
  exact safe bytes

end Rules

theorem keyboardTake_length (b : Keyboard) (n : Nat) : (keyboardTake b n).2.length ≤ n := by
  induction n generalizing b with
  | zero => exact Nat.le_refl 0
  | succ n ih =>
    unfold keyboardTake
    cases keyboardGetchar b with
    | none => exact Nat.zero_le _
    | some taken =>
      obtain ⟨b,c⟩ := taken
      simp only [List.length_cons]
      have rest := ih b
      omega

theorem readSlot_length {st st' : Store} {f f' : ProcessFd} {length : Nat} {bytes : List Byte}
    (got : readSlot st f length = (st',f',some bytes)) : bytes.length ≤ length := by
  unfold readSlot at got
  by_cases refused : f.used = false ∨ length > vfsIoMax ∨ flagged f.flags vfsFRead = false
  · rw [if_pos refused] at got
    cases got
  rw [if_neg refused] at got
  dsimp only at got
  by_cases ended : f.offset ≥ fileSize st f.backend f.path
  · rw [if_pos ended] at got
    cases got
    exact Nat.zero_le _
  rw [if_neg ended] at got
  by_cases disk : f.backend = backendDiskfs
  · rw [if_pos disk] at got
    cases allocated : kmalloc st.heap vfsIoMax with
    | none => simp [allocated] at got
    | some buffer =>
      obtain ⟨heap,temp⟩ := buffer
      cases read : diskfsRead st.disk f.path vfsIoMax with
      | mk next content =>
        cases content with
        | none => simp [allocated,read] at got
        | some content =>
          simp only [allocated,read] at got
          cases got
          rw [List.length_map,List.length_range]
          exact Nat.min_le_left _ _
  · rw [if_neg disk] at got
    cases held : ramfsData st.ram f.path with
    | none => simp [held] at got
    | some data =>
      simp only [held] at got
      cases got
      rw [List.length_map,List.length_range]
      exact Nat.min_le_left _ _

theorem vfsReadForProcess_length {st st' : Store} {p p' : Process} {fd : Int} {length : Nat} {bytes : List Byte}
    (got : vfsReadForProcess st p fd length = (st',p',some bytes)) : bytes.length ≤ length := by
  unfold vfsReadForProcess vfsRead at got
  by_cases outside : fd < 0 ∨ fd ≥ vfsFdMax
  · rw [if_pos outside] at got
    cases got
  · rw [if_neg outside] at got
    cases result : readSlot st (p.fds fd.toNat) length with
    | mk next rest =>
      obtain ⟨f,content⟩ := rest
      simp only [result] at got
      cases got
      exact readSlot_length result

theorem takeMessage_length (q : IpcQueue) (i capacity : Nat) : (takeMessage q i capacity).2.1.length ≤ capacity := by
  unfold takeMessage
  rw [List.length_map,List.length_range]
  exact Nat.min_le_right _ _

theorem ipcRecv_length {q q' : IpcQueue} {receiver capacity : Nat} {received : List Byte × Nat}
    (got : ipcRecv q receiver capacity = (q',.ok received)) : received.1.length ≤ capacity := by
  unfold ipcRecv at got
  by_cases refused : receiver = 0 ∨ capacity = 0
  · rw [if_pos refused] at got
    cases got
  · rw [if_neg refused] at got
    cases found : findMessage q receiver with
    | none => simp [found] at got
    | some i =>
      simp only [found] at got
      cases got
      exact takeMessage_length q i capacity

theorem ipcRecvBlocking_length {s s' : System} {q q' : IpcQueue} {cpu receiver capacity : Nat}
    {received : List Byte × Nat} (got : ipcRecvBlocking s q cpu receiver capacity = (s',q',.ok received)) :
    received.1.length ≤ capacity := by
  unfold ipcRecvBlocking at got
  by_cases refused : receiver = 0 ∨ capacity = 0
  · rw [if_pos refused] at got
    cases got
  · rw [if_neg refused] at got
    cases found : findMessage q receiver with
    | none => simp [found] at got
    | some i =>
      simp only [found] at got
      cases got
      exact takeMessage_length q i capacity

theorem netRecv_length {n n' : Net} {port capacity ip source : Nat} {bytes : List Byte}
    (got : netRecv n port capacity = (n',.ok (bytes,ip,source))) : bytes.length ≤ capacity := by
  unfold netRecv at got
  by_cases refused : port = 0 ∨ capacity = 0
  · rw [if_pos refused] at got
    cases got
  · rw [if_neg refused] at got
    cases found : (List.range netQueueMax).find? fun i => (n.queue i).used && decide ((n.queue i).dstPort = port) with
    | none => simp [found] at got
    | some i =>
      simp only [found] at got
      cases got
      rw [List.length_map,List.length_range]
      exact Nat.min_le_right _ _

section Services
variable {live : Nat → Prop} {role : Nat → Role} {base : Vm} {k : Kernel} {cpu : Nat}
  (loaded : Loaded live role base cpu k.sys.vm)
include loaded

theorem sysMouseRead_safe (ptr : Nat) : Safe live base (sysMouseRead k cpu ptr) := by
  apply withWritable_safe loaded
  intro vm ready _ buffer
  have same := mouseReadEvent_vm (k.withVm vm).sys cpu (k.withVm vm).mouse
  split
  next sys mouse r read =>
    have kept := (congrArg (fun r : System × Mouse × Except Int MouseEvent => r.1.vm) read).symm.trans same
    exact .done (kept ▸ ready.writes) _
  next sys mouse event read =>
    have kept : sys.vm = vm :=
      (congrArg (fun r : System × Mouse × Except Int MouseEvent => r.1.vm) read).symm.trans same
    subst kept
    exact storing_done ready.space.formed ready.own ready.writes buffer

theorem sysWrite_safe (ptr len : Nat) : Safe live base (sysWrite k cpu ptr len) := by
  unfold sysWrite
  by_cases refused : len > userCopyMax ∨ userRangeOk k.sys.vm cpu ptr len = false
  · rw [if_pos refused]
    exact .refused loaded.writes
  · rw [if_neg refused]
    apply loading_safe (by simpa using (not_or.mp refused).2)
    intro _
    exact .done loaded.writes _

theorem sysRead_safe (ptr len : Nat) : Safe live base (sysRead k cpu ptr len) := by
  unfold sysRead
  split_ifs
  · exact .refused loaded.writes
  · apply withWritable_safe loaded
    intro vm ready _ buffer
    have short := keyboardTake_length (k.withVm vm).keyboard len
    exact storing_done ready.space.formed ready.own ready.writes (buffer.shorter short)

theorem sysExec_safe (ptr : Nat) : Safe live base (sysExec k cpu ptr) := by
  unfold sysExec
  cases copyUserString k.sys.vm cpu 64 ptr with
  | none => exact .refused loaded.writes
  | some name =>
    have same : (execReplaceCurrent k.sys k.ram cpu name).1.vm.userStores = _ := execReplaceCurrent_log k.ram name
    simp only
    split
    next sys failed =>
      have kept := (congrArg (fun r : System × Bool => r.1.vm.userStores) failed).symm.trans same
      exact .refused (loaded.writes.trans (.silent kept))
    next sys done =>
      have kept := (congrArg (fun r : System × Bool => r.1.vm.userStores) done).symm.trans same
      exact .done (loaded.writes.trans (.silent kept)) _

theorem sysOpen_safe (ptr flags : Nat) : Safe live base (sysOpen k cpu ptr flags) := by
  unfold sysOpen
  split
  next path c _ _ =>
    generalize vfsOpenForProcess k.store (k.sys.processes c) path flags = result
    obtain ⟨st,p,fd⟩ := result
    refine loaded.silent ?_ _
    rfl
  · exact .refused loaded.writes

theorem sysClose_safe (fd : Nat) : Safe live base (sysClose k cpu fd) := by
  unfold sysClose
  cases currentLocal k.sys cpu with
  | none => exact .refused loaded.writes
  | some c =>
    refine loaded.silent ?_ _
    rfl

theorem sysFread_safe (fd ptr len : Nat) : Safe live base (sysFread k cpu fd ptr len) := by
  unfold sysFread
  split_ifs
  · exact .refused loaded.writes
  · apply withWritable_safe loaded
    intro vm ready _ buffer
    cases currentLocal (k.withVm vm).sys cpu with
    | none => exact .refused ready.writes
    | some c =>
      simp only
      cases result : vfsReadForProcess (k.withVm vm).store ((k.withVm vm).sys.processes c) (toI32 fd) len with
      | mk st rest =>
        obtain ⟨p,bytes⟩ := rest
        cases bytes with
        | none => exact .refused ready.writes
        | some bytes =>
          have short := vfsReadForProcess_length result
          exact storing_done ready.space.formed ready.own ready.writes (buffer.shorter short)

theorem sysFwrite_safe (fd ptr len : Nat) : Safe live base (sysFwrite k cpu fd ptr len) := by
  unfold sysFwrite
  by_cases refused : len > userCopyMax ∨ userRangeOk k.sys.vm cpu ptr len = false
  · rw [if_pos refused]
    exact .refused loaded.writes
  · rw [if_neg refused]
    apply loading_safe (by simpa using (not_or.mp refused).2)
    intro bytes
    cases currentLocal k.sys cpu with
    | none => exact .refused loaded.writes
    | some c =>
      simp only
      generalize vfsWriteForProcess k.store (k.sys.processes c) (toI32 fd) bytes = result
      obtain ⟨st,p,written⟩ := result
      refine loaded.silent ?_ _
      rfl

theorem sysRemove_safe (ptr : Nat) : Safe live base (sysRemove k cpu ptr) := by
  unfold sysRemove
  cases copyUserString k.sys.vm cpu vfsPathMax ptr with
  | none => exact .refused loaded.writes
  | some path =>
    simp only
    generalize vfsRemove k.store path = result
    obtain ⟨st,removed⟩ := result
    refine loaded.silent ?_ _
    rfl

theorem sysStat_safe (path ptr : Nat) : Safe live base (sysStat k cpu path ptr) := by
  unfold sysStat
  cases copyUserString k.sys.vm cpu vfsPathMax path with
  | none => exact .refused loaded.writes
  | some path =>
    apply withWritable_safe loaded
    intro vm ready _ buffer
    cases vfsStatPath (k.withVm vm).store path with
    | none => exact .refused ready.writes
    | some st => exact storing_done ready.space.formed ready.own ready.writes buffer

theorem sysGetfile_safe (index ptr len : Nat) : Safe live base (sysGetfile k cpu index ptr len) := by
  unfold sysGetfile
  by_cases refused : ptr = 0 ∨ len < 2
  · rw [if_pos refused]
    exact .refused loaded.writes
  · rw [if_neg refused]
    apply withWritable_safe loaded
    intro vm ready _ buffer
    cases vfsName (k.withVm vm).store index with
    | none => exact .refused ready.writes
    | some name =>
      have short : (name.take (len - 1) ++ [0]).length ≤ len := by
        rw [List.length_append,List.length_take,List.length_singleton]
        omega
      exact storing_done ready.space.formed ready.own ready.writes (buffer.shorter short)

theorem sysIpcSend_safe (receiver ptr len : Nat) : Safe live base (sysIpcSend k cpu receiver ptr len) := by
  unfold sysIpcSend
  by_cases refused : processExists k.sys receiver = false ∨ receiver = currentPid k.sys cpu ∨ len = 0 ∨
      len > ipcMessageMax ∨ userRangeOk k.sys.vm cpu ptr len = false
  · rw [if_pos refused]
    exact .refused loaded.writes
  · rw [if_neg refused]
    apply loading_safe (by simpa using (not_or.mp (not_or.mp (not_or.mp (not_or.mp refused).2).2).2).2)
    intro bytes
    have same := ipcSend_vm k.sys k.messages receiver (currentPid k.sys cpu) bytes
    generalize ipcSend k.sys k.messages receiver (currentPid k.sys cpu) bytes = result at *
    obtain ⟨sys,messages,value⟩ := result
    exact loaded.silent (congrArg Vm.userStores same) _

theorem deliver_safe {ptr sender : Nat} {received : List Byte × Nat}
    (buffer : Buffer k.sys.vm cpu ptr received.1.length) (word : sender ≠ 0 → Buffer k.sys.vm cpu sender 4) :
    Safe live base (deliver k cpu ptr sender received) := by
  apply storing_safe loaded.space.formed loaded.own buffer
  intro vm stored
  have ready := loaded.stored stored
  split_ifs with absent
  · exact .done ready.writes _
  · exact storing_done ready.space.formed ready.own ready.writes ((word absent).stored loaded.space.formed stored)

theorem withReceiveBuffers_safe {ptr capacity sender : Nat} {rest : Kernel → Outcome}
    (safe : ∀ vm, Loaded live role base cpu vm → Buffer vm cpu ptr capacity → (sender ≠ 0 → Buffer vm cpu sender 4) →
      Safe live base (rest (k.withVm vm))) :
    Safe live base (withReceiveBuffers k cpu ptr capacity sender rest) := by
  unfold withReceiveBuffers
  split_ifs with refused absent
  · exact .refused loaded.writes
  · apply withWritable_safe loaded
    intro vm ready _ buffer
    exact safe vm ready buffer fun present => absurd absent present
  · apply withWritable_safe loaded
    intro vm ready _ buffer
    apply withWritable_safe (k := k.withVm vm) ready
    intro vm' later opened word
    exact safe vm' later (buffer.opened opened) fun _ => word

theorem sysIpcRecv_safe (ptr capacity sender : Nat) : Safe live base (sysIpcRecv k cpu ptr capacity sender) := by
  apply withReceiveBuffers_safe loaded
  intro vm ready buffer word
  cases got : ipcRecv (k.withVm vm).messages (currentPid (k.withVm vm).sys cpu) capacity with
  | mk messages result =>
    cases result with
    | error r => exact ready.silent rfl _
    | ok received =>
      exact deliver_safe (k := {k.withVm vm with messages}) ready (buffer.shorter (ipcRecv_length got)) word

theorem sysIpcRecvBlocking_safe (ptr capacity sender : Nat) :
    Safe live base (sysIpcRecvBlocking k cpu ptr capacity sender) := by
  apply withReceiveBuffers_safe loaded
  intro vm ready buffer word
  have same := ipcRecvBlocking_vm (k.withVm vm).sys cpu (k.withVm vm).messages (currentPid (k.withVm vm).sys cpu) capacity
  cases got : ipcRecvBlocking (k.withVm vm).sys (k.withVm vm).messages cpu (currentPid (k.withVm vm).sys cpu) capacity with
  | mk sys rest =>
    obtain ⟨messages,result⟩ := rest
    rw [got] at same
    have kept : sys.vm = vm := same
    subst kept
    cases result with
    | error r => exact ready.silent rfl _
    | ok received =>
      exact deliver_safe (k := {k with sys,messages}) ready (buffer.shorter (ipcRecvBlocking_length got)) word

theorem sysPipeCreate_safe (readEnd writeEnd : Nat) : Safe live base (sysPipeCreate k cpu readEnd writeEnd) := by
  apply withWritable_safe loaded
  intro vm ready _ first
  apply withWritable_safe (k := k.withVm vm) ready
  intro vm' later opened second
  cases pipeCreate ((k.withVm vm).withVm vm').pipes (currentPid ((k.withVm vm).withVm vm').sys cpu) with
  | none => exact .refused later.writes
  | some created =>
    obtain ⟨pipes,reader,writer⟩ := created
    apply storing_safe later.space.formed later.own (first.opened opened)
    intro vm'' stored
    have last := later.stored stored
    exact storing_done last.space.formed last.own last.writes (second.stored later.space.formed stored)

theorem sysPipeWrite_safe (handle ptr len : Nat) : Safe live base (sysPipeWrite k cpu handle ptr len) := by
  unfold sysPipeWrite
  by_cases refused : len = 0 ∨ len > ipcMessageMax ∨ userRangeOk k.sys.vm cpu ptr len = false
  · rw [if_pos refused]
    exact .refused loaded.writes
  · rw [if_neg refused]
    apply loading_safe (by simpa using (not_or.mp (not_or.mp refused).2).2)
    intro bytes
    have same := pipeWrite_vm k.sys cpu k.pipes handle bytes
    generalize pipeWrite k.sys k.pipes cpu handle bytes = result at *
    obtain ⟨sys,pipes,value⟩ := result
    exact loaded.silent (congrArg Vm.userStores same) _

theorem sysNetSend_safe (dstIp ports ptr len : Nat) : Safe live base (sysNetSend k cpu dstIp ports ptr len) := by
  unfold sysNetSend
  by_cases refused : ptr = 0 ∨ len = 0 ∨ len > netPacketMax ∨ userRangeOk k.sys.vm cpu ptr len = false
  · rw [if_pos refused]
    exact .refused loaded.writes
  · rw [if_neg refused]
    apply loading_safe (by simpa using (not_or.mp (not_or.mp (not_or.mp refused).2).2).2)
    intro bytes
    simp only
    generalize netSend k.net dstIp (ports / 2^16 % 2^16) (ports % 2^16) bytes = result
    obtain ⟨net,value⟩ := result
    refine loaded.silent ?_ _
    rfl

theorem fillIfWritable_safe {ptr : Nat} {bytes : List Byte} {rest : Kernel → Outcome}
    (safe : ∀ vm, Loaded live role base cpu vm → Safe live base (rest (k.withVm vm))) :
    Safe live base (fillIfWritable k cpu ptr bytes rest) := by
  unfold fillIfWritable
  split_ifs
  · exact safe k.sys.vm loaded
  · cases checked : userRangeOkWrite k.sys.vm cpu ptr bytes.length with
    | mk vm ok =>
      obtain ⟨opened,all⟩ := userRangeOkWrite_opened loaded.kept loaded.space checked
      have ready := loaded.opened opened
      cases ok with
      | false => exact safe vm ready
      | true =>
        apply storing_safe (k := k.withVm vm) ready.space.formed ready.own
        · intro i inside
          have directory : (k.withVm vm).sys.vm.currentDirectory = k.sys.vm.currentDirectory := opened.directory
          rw [directory]
          exact all rfl i inside
        · intro vm' stored
          exact safe vm' (ready.stored stored)

theorem sysNetRecv_safe (port ptr capacity ipPtr portPtr : Nat) :
    Safe live base (sysNetRecv k cpu port ptr capacity ipPtr portPtr) := by
  unfold sysNetRecv
  split_ifs
  · exact .refused loaded.writes
  · apply withWritable_safe loaded
    intro vm ready _ buffer
    cases got : netRecv (k.withVm vm).net (port % 2^16) capacity with
    | mk net result =>
      cases result with
      | error r => exact ready.silent rfl _
      | ok packet =>
        obtain ⟨bytes,srcIp,srcPort⟩ := packet
        apply storing_safe ready.space.formed ready.own (buffer.shorter (netRecv_length got))
        intro vm₁ stored
        apply fillIfWritable_safe (k := {k.withVm vm₁ with net}) (ready.stored stored)
        intro vm₂ filled
        apply fillIfWritable_safe (k := {k.withVm vm₂ with net}) filled
        intro vm₃ last
        exact .done last.writes _

end Services

section Threads
variable {live : Nat → Prop} {role : Nat → Role} {base : Vm} {cpu : Nat} {s : System}

/-- A new stack page in the space `pd`, the only change to its pages. -/
structure Grown (role role' : Nat → Role) (vm vm' : Vm) (pd va page : Nat) : Prop where
  directory : vm'.currentDirectory = vm.currentDirectory
  taken : ∀ f, isFree vm.pages f = false → isFree vm'.pages f = false
  roles : ∀ f, isFree vm.pages f = false → role' f = role f
  kept : Kept role' vm'.pages
  space : Space role' vm' pd
  mapping : ∀ va' < userLimit, mapping vm'.mem pd va' = if va' / pageSize = va / pageSize then
    some (page,((ptePresent ||| pteWritable) &&& pteFlagsMask) ||| ptePresent ||| pteUser) else mapping vm.mem pd va'

/-- The stack of a new thread is mapped writable before its first word is stored. -/
theorem threadStack_grown {vm vm' : Vm} {pd va kp : Nat} (own : live pd) (current : vm.currentDirectory cpu = pd)
    (kept : Kept role vm.pages) (space : Space role vm pd) (data : role (kp / pageSize) = .data)
    (used : isFree vm.pages (kp / pageSize) = false) (small : kp < 2^32)
    (mapped : pagingMapUserPageIn vm pd va kp (ptePresent ||| pteWritable) = some vm') :
    ∃ role' v, storeUserBytes {vm' with mem := Function.update vm'.mem (kp / pageSize) zeroPage} cpu (va + 4096 - 4)
      (bytes32 0) = some v ∧ Grown role role' vm v pd va kp ∧ Writes live vm v := by
  obtain ⟨root,inside,aligned,_⟩ := pagingMapUserPageIn_cases mapped
  obtain ⟨role',remaps⟩ := pagingMapUserPageIn_remaps mapped space kept data used small
  have directory : vm'.currentDirectory cpu = pd := by rw [pagingMapUserPageIn_directory mapped,current]
  have here := remaps.mapping va inside
  rw [if_pos rfl] at here
  have outside : ∀ f, (role' f).space = some pd → Function.update vm'.mem (kp / pageSize) zeroPage f = vm'.mem f :=
    data_outside (remaps.space.formed.pages va inside _ _ here) vm'.mem zeroPage
  obtain ⟨stack,cleared⟩ : ∃ stack : Vm, stack = {vm' with mem := Function.update vm'.mem (kp / pageSize) zeroPage} :=
    ⟨_,rfl⟩
  rw [← cleared]
  have tables : ∀ f, (role' f).space = some pd → stack.mem f = vm'.mem f := by
    rw [cleared]
    exact outside
  have loaded : stack.currentDirectory cpu = pd := by rw [cleared,← directory]
  have formed : Formed role' stack.mem pd := remaps.space.formed.congr tables
  have writable : ∀ i < (bytes32 0).length, writableAt stack pd (va + 4096 - 4 + i) = true := by
    intro i below
    have short : i < 4 := below
    have page : (va + 4096 - 4 + i) / pageSize = va / pageSize := by
      simp only [pageSize] at *
      omega
    rw [writableAt_page stack pd page,writableAt,pagingGetUserPage_mapping stack inside root,
      mapping_congr remaps.space.formed.shaped tables inside,here]
    exact (by decide : has ((ptePresent ||| pteWritable) &&& pteFlagsMask ||| ptePresent ||| pteUser) pteWritable = true)
  rw [← loaded] at formed own writable
  obtain ⟨v,done,stored⟩ := storeUserBytes_stored formed own writable
  have silent : stack.userStores = vm.userStores := by rw [cleared,← pagingMapUserPageIn_log mapped]
  rw [loaded] at stored
  have pages : v.pages = vm'.pages := by rw [stored.pages,cleared]
  have same (f : Nat) (part : (role' f).space = some pd) : v.mem f = vm'.mem f :=
    (stored.tables f part).trans (tables f part)
  refine ⟨role',v,done,⟨?_,?_,remaps.roles,?_,?_,?_⟩,(Writes.silent silent).trans stored.writes⟩
  · rw [stored.directory,cleared,← pagingMapUserPageIn_directory mapped]
  · intro f held
    rw [pages]
    exact pagingMapUserPageIn_taken mapped held
  · rw [pages]
    exact remaps.kept
  · refine ⟨remaps.space.formed.congr same,?_⟩
    intro va' inside' page flags
    rw [mapping_congr remaps.space.formed.shaped same inside',pages]
    exact remaps.space.held va' inside' page flags
  · intro va' inside'
    rw [mapping_congr remaps.space.formed.shaped same inside']
    exact remaps.mapping va' inside'

theorem processCreateUserThread_safe (loaded : Loaded live role base cpu s.vm) (entry : Nat)
    (current : ∀ c, currentLocal s cpu = some c → s.vm.currentDirectory cpu = (s.processes c).pageDirectory) :
    ∃ s' tid, processCreateUserThread s cpu entry = some (s',tid) ∧ Writes live base s'.vm := by
  unfold processCreateUserThread
  split_ifs
  · exact ⟨s,_,rfl,loaded.writes⟩
  cases caller : currentLocal s cpu with
  | none => exact ⟨s,_,rfl,loaded.writes⟩
  | some c =>
    simp only
    split_ifs
    · exact ⟨s,_,rfl,loaded.writes⟩
    cases findFreeSlot s with
    | none => exact ⟨s,_,rfl,loaded.writes⟩
    | some i =>
      simp only
      cases first : pageAlloc s.vm.pages with
      | none => exact ⟨s,_,rfl,loaded.writes⟩
      | some block =>
        obtain ⟨pages,kp⟩ := block
        simp only
        cases second : pageAlloc pages with
        | none => exact ⟨_,_,rfl,loaded.writes.trans (.silent rfl)⟩
        | some block =>
          obtain ⟨pages',ks⟩ := block
          simp only
          cases mapped : pagingMapUserPageIn {s.vm with pages := pages'} (s.processes c).pageDirectory
              (threadStackVaForSlot i) kp (ptePresent ||| pteWritable) with
          | none => exact ⟨_,_,rfl,loaded.writes.trans (.silent rfl)⟩
          | some vm =>
            have directory := current c caller
            obtain ⟨frame,rfl,takes⟩ := pageAlloc_takes first
            obtain ⟨other,_,takes'⟩ := pageAlloc_takes second
            have own := loaded.own
            have space := loaded.space
            rw [directory] at own space
            have number : frame * pageSize / pageSize = frame := Nat.mul_div_cancel _ (by decide)
            have data : role (frame * pageSize / pageSize) = .data := by
              rw [number]
              exact loaded.kept.data (takes.free frame (Nat.le_refl _) (by omega))
            have used : isFree pages' (frame * pageSize / pageSize) = false := by
              apply takes'.taken
              rw [number,takes.single]
              simp
            have small : frame * pageSize < 2^32 := by
              have high := takes.high
              simp only [maxPages,pageSize] at *
              omega
            have grown (f : Nat) (held : isFree s.vm.pages f = false) : isFree pages' f = false :=
              takes'.taken (takes.taken held)
            have kept : Kept role ({s.vm with pages := pages'} : Vm).pages :=
              fun f structural => grown f (loaded.kept f structural)
            have space' : Space role {s.vm with pages := pages'} (s.processes c).pageDirectory := space.pages grown
            have directory' : ({s.vm with pages := pages'} : Vm).currentDirectory cpu = (s.processes c).pageDirectory :=
              directory
            obtain ⟨_,v,done,_,writes⟩ := threadStack_grown own directory' kept space' data used small mapped
            simp only [done]
            exact ⟨_,_,rfl,loaded.writes.trans ((Writes.silent rfl).trans writes)⟩

end Threads

end LionOS.Calls

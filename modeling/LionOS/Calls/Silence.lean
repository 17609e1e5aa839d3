import LionOS.Calls.Interrupt
import LionOS.Spaces.Updates

/-! The parts of the kernel that never store to user memory: loading and duplicating
programs, reaping, scheduling, and waiting on channels. -/
namespace LionOS.Calls
open LionOS.Memory LionOS.Physical LionOS.Paging LionOS.Processes LionOS.Channels LionOS.Files LionOS.Exec

section Paging
variable {vm vm' : Vm} {pd va pa : Nat} {flags : Word}

theorem pagingMapUserPageIn_log (mapped : pagingMapUserPageIn vm pd va pa flags = some vm') :
    vm'.userStores = vm.userStores := by
  obtain ⟨_,_,_,_,_,⟨t,_,rfl⟩ | ⟨_,pages,t,_,rfl⟩⟩ := pagingMapUserPageIn_cases mapped
  · rfl
  · rfl

theorem pagingMapUserPageIn_directory (mapped : pagingMapUserPageIn vm pd va pa flags = some vm') :
    vm'.currentDirectory = vm.currentDirectory := by
  obtain ⟨_,_,_,_,_,⟨t,_,rfl⟩ | ⟨_,pages,t,_,rfl⟩⟩ := pagingMapUserPageIn_cases mapped
  · rfl
  · rfl

theorem pagingSetUserPageFlags_log (changed : pagingSetUserPageFlags vm pd va flags = some vm') :
    vm'.userStores = vm.userStores := by
  unfold pagingSetUserPageFlags at changed
  split_ifs at changed
  cases found : pteSlot vm.mem pd va with
  | none => simp [found] at changed
  | some slot =>
    simp only [found] at changed
    split_ifs at changed
    cases changed
    rfl

theorem pagingDestroyAddressSpace_log (vm : Vm) (pd : Nat) :
    (pagingDestroyAddressSpace vm pd).userStores = vm.userStores := by
  unfold pagingDestroyAddressSpace
  split_ifs <;> rfl

theorem pagingCreateAddressSpace_log {vm : Vm} {created : Vm × Nat}
    (fresh : pagingCreateAddressSpace vm = some created) : created.1.userStores = vm.userStores := by
  unfold pagingCreateAddressSpace at fresh
  cases allocated : pageAllocContiguous vm.pages processPagingPages with
  | none => simp [allocated] at fresh
  | some block =>
    simp only [allocated] at fresh
    cases fresh
    rfl

end Paging

section Load

theorem loadPage_log (l : Loading) (va : Nat) (writable : Bool) :
    (loadPage l va writable).1.vm.userStores = l.vm.userStores := by
  unfold loadPage
  cases findPage l.pages va with
  | some i => rfl
  | none =>
    simp only
    split_ifs
    · rfl
    · cases pageAlloc l.vm.pages <;> rfl

theorem loadPages_log (l : Loading) (writable : Bool) (vas : List Nat) :
    (loadPages l writable vas).1.vm.userStores = l.vm.userStores := by
  induction vas generalizing l with
  | nil => rfl
  | cons va rest ih =>
    have first := loadPage_log l va writable
    unfold loadPages
    cases page : loadPage l va writable with
    | mk next ok =>
      rw [page] at first
      cases ok with
      | false => exact first
      | true => exact (ih next).trans first

theorem loadSegments_log (l : Loading) (segments : List Phdr) :
    (loadSegments l segments).1.vm.userStores = l.vm.userStores := by
  induction segments generalizing l with
  | nil => rfl
  | cons p rest ih =>
    have first := loadPages_log l (decide (p.flags / 2 % 2 = 1)) (segmentPages p)
    unfold loadSegments
    cases pages : loadPages l (decide (p.flags / 2 % 2 = 1)) (segmentPages p) with
    | mk next ok =>
      rw [pages] at first
      cases ok with
      | false => exact first
      | true => exact (ih next).trans first

theorem mapPages_log (pd : Nat) (vm : Vm) (pages : List LoadPage) :
    (mapPages pd vm pages).1.userStores = vm.userStores := by
  induction pages generalizing vm with
  | nil => rfl
  | cons p rest ih =>
    unfold mapPages
    cases mapped : pagingMapUserPageIn vm pd p.va p.page (BitVec.ofNat 64 p.flags) with
    | none => rfl
    | some next => exact (ih next).trans (pagingMapUserPageIn_log mapped)

theorem loadImage_log (vm : Vm) (r : RamFs) (name : List Byte) :
    (loadImage vm r name).1.userStores = vm.userStores := by
  unfold loadImage
  simp only
  cases execValidateImage (imageOf r name) with
  | none => rfl
  | some entry =>
    have segments := loadSegments_log ⟨vm,[]⟩ (loaded (imageOf r name))
    cases load : loadSegments ⟨vm,[]⟩ (loaded (imageOf r name)) with
    | mk l ok =>
      rw [load] at segments
      cases ok with
      | false => exact segments
      | true =>
        simp only
        split
        · exact segments
        split_ifs
        · exact segments
        split
        · exact segments
        split
        · exact segments
        split
        · exact segments
        next created fresh =>
          have block := pagingCreateAddressSpace_log fresh
          split
          next mapped failed =>
            have maps := (congrArg (fun r : Vm × Bool => r.1.userStores) failed).symm.trans (mapPages_log _ _ _)
            exact (pagingDestroyAddressSpace_log _ _).trans (maps.trans (block.trans segments))
          next mapped done =>
            have maps := (congrArg (fun r : Vm × Bool => r.1.userStores) done).symm.trans (mapPages_log _ _ _)
            exact maps.trans (block.trans segments)

end Load

section Tasks
variable {s : System} {cpu : Nat}

/-- An old address space that is destroyed under a condition. -/
theorem destroyed_log (vm : Vm) (pd : Nat) (condition : Prop) [Decidable condition] :
    (if condition then pagingDestroyAddressSpace vm pd else vm).userStores = vm.userStores := by
  split_ifs
  · exact pagingDestroyAddressSpace_log vm pd
  · rfl

theorem tssSetKernelStack_vm (s : System) (cpu top : Nat) : (tssSetKernelStack s cpu top).vm = s.vm := by
  unfold tssSetKernelStack
  split_ifs <;> rfl

theorem pagingSwitchAddressSpace_log (vm : Vm) (cpu pd : Nat) :
    (pagingSwitchAddressSpace vm cpu pd).userStores = vm.userStores := by
  unfold pagingSwitchAddressSpace
  split_ifs <;> rfl

theorem processExecReplaceCurrent_log {s' : System} {entry stack pd count : Nat} {pages vas : Nat → Nat}
    (replaced : processExecReplaceCurrent s cpu entry stack pd pages vas count = some s') :
    s'.vm.userStores = s.vm.userStores := by
  unfold processExecReplaceCurrent at replaced
  cases caller : currentLocal s cpu with
  | none => simp [caller] at replaced
  | some c =>
    simp only [caller] at replaced
    by_cases refused : c = bootstrap ∨ pd = 0 ∨ count = 0 ∨ count > maxUserPages
    · rw [if_pos refused] at replaced
      cases replaced
    · rw [if_neg refused] at replaced
      cases allocated : pageAlloc s.vm.pages with
      | none => simp [allocated] at replaced
      | some block =>
        simp only [allocated] at replaced
        cases replaced
        refine (destroyed_log _ _ _).trans ?_
        dsimp only
        rw [tssSetKernelStack_vm]
        exact pagingSwitchAddressSpace_log _ _ _

theorem execReplaceCurrent_log (r : RamFs) (name : List Byte) :
    (execReplaceCurrent s r cpu name).1.vm.userStores = s.vm.userStores := by
  have loads := loadImage_log s.vm r name
  unfold execReplaceCurrent
  split
  next vm refused => exact (congrArg (fun r : Vm × Option Loaded => r.1.userStores) refused).symm.trans loads
  next vm p loaded =>
    have same := (congrArg (fun r : Vm × Option Loaded => r.1.userStores) loaded).symm.trans loads
    simp only
    split
    · exact (pagingDestroyAddressSpace_log _ _).trans same
    next replaced => exact (processExecReplaceCurrent_log replaced).trans same

theorem reapProcess_log (s : System) (i : Slot) : (reapProcess s i).vm.userStores = s.vm.userStores := by
  unfold reapProcess
  by_cases alive : (s.processes i).state ≠ .zombie
  · rw [if_pos alive]
  · rw [if_neg alive]
    by_cases thread : (s.processes i).isThread = true
    · rw [if_pos thread]
      rfl
    · rw [if_neg thread]
      exact destroyed_log _ _ _

theorem forkShare_log (parentPd pd : Nat) (vas : List Nat) (vm : Vm) (shared : List ForkPage) :
    (forkShare parentPd pd vas vm shared).1.userStores = vm.userStores := by
  induction vas generalizing vm shared with
  | nil => rfl
  | cons va rest ih =>
    unfold forkShare
    split
    · rfl
    · split
      · rfl
      next next mapped =>
        have same := pagingMapUserPageIn_log mapped
        exact (ih _ _).trans same

theorem forkProtect_log (parentPd : Nat) (shared : List ForkPage) (vm : Vm) (cowed : Nat) :
    (forkProtect parentPd shared vm cowed).1.userStores = vm.userStores := by
  induction shared generalizing vm cowed with
  | nil => rfl
  | cons p rest ih =>
    unfold forkProtect
    split_ifs
    · split
      · rfl
      next next changed => exact (ih _ _).trans (pagingSetUserPageFlags_log changed)
    · exact ih _ _

theorem forkRestore_log (vm : Vm) (parentPd : Nat) (shared : List ForkPage) (cowed : Nat) :
    (forkRestore vm parentPd shared cowed).userStores = vm.userStores := by
  unfold forkRestore
  generalize shared.take cowed = pages
  induction pages generalizing vm with
  | nil => rfl
  | cons p rest ih =>
    rw [List.foldl_cons,ih]
    cases changed : pagingSetUserPageFlags vm parentPd p.va p.flags with
    | none => rfl
    | some next => exact pagingSetUserPageFlags_log changed

theorem forkFail_log (vm : Vm) (pd : Nat) (shared : List ForkPage) :
    (forkFail vm pd shared).userStores = vm.userStores := pagingDestroyAddressSpace_log _ _

theorem processCreateExVasLocked_log {created : System × Slot} {entry stack pd count : Nat} {pages vas : Nat → Nat}
    (made : processCreateExVasLocked s cpu entry stack pd pages vas count = some created) :
    created.1.vm.userStores = s.vm.userStores := by
  unfold processCreateExVasLocked at made
  cases free : findFreeSlot s with
  | none => simp [free] at made
  | some i =>
    simp only [free] at made
    split_ifs at made
    cases allocated : pageAlloc s.vm.pages with
    | none => simp [allocated] at made
    | some block =>
      simp only [allocated] at made
      cases made
      rfl

theorem processForkCurrent_log (s : System) (cpu : Nat) (frame : Frame) :
    (processForkCurrent s cpu frame).1.vm.userStores = s.vm.userStores := by
  unfold processForkCurrent
  cases currentLocal s cpu with
  | none => rfl
  | some c =>
    simp only
    split_ifs
    · rfl
    cases findFreeSlot s with
    | none => rfl
    | some free =>
      cases created : pagingCreateAddressSpace s.vm with
      | none => rfl
      | some space =>
        obtain ⟨vm,pd⟩ := space
        have fresh := pagingCreateAddressSpace_log created
        simp only
        split
        next v shared failed =>
          have shares := (congrArg (fun r : Vm × List ForkPage × Bool => r.1.userStores) failed).symm.trans
            (forkShare_log _ _ _ _ _)
          exact (forkFail_log _ _ _).trans (shares.trans fresh)
        next v shared done =>
          have shares := (congrArg (fun r : Vm × List ForkPage × Bool => r.1.userStores) done).symm.trans
            (forkShare_log _ _ _ _ _)
          split
          next u cowed failed =>
            have protects := (congrArg (fun r : Vm × Nat × Bool => r.1.userStores) failed).symm.trans
              (forkProtect_log _ _ _ _)
            exact (forkFail_log _ _ _).trans ((forkRestore_log _ _ _ _).trans (protects.trans (shares.trans fresh)))
          next u cowed marked =>
            have protects := (congrArg (fun r : Vm × Nat × Bool => r.1.userStores) marked).symm.trans
              (forkProtect_log _ _ _ _)
            split
            · exact (forkFail_log _ _ _).trans ((forkRestore_log _ _ _ _).trans (protects.trans (shares.trans fresh)))
            next made => exact (processCreateExVasLocked_log made).trans (protects.trans (shares.trans fresh))

theorem setProcess_log (s : System) (pages : Allocator) (i : Slot) (p : Process) :
    (setProcess {s with vm := {s.vm with pages}} i p).vm.userStores = s.vm.userStores := rfl

theorem chargeTick_vm (s : System) (prev : Slot) : (chargeTick s prev).1.vm = s.vm := by
  unfold chargeTick
  simp only
  split_ifs <;> rfl

theorem freeDeferred_log (s : System) (prev : Slot) : (freeDeferred s prev).vm.userStores = s.vm.userStores := by
  unfold freeDeferred
  simp only
  split_ifs
  · rfl
  · exact setProcess_log s _ prev _

theorem fpuRestore_vm (s : System) (cpu : Nat) (i : Slot) : (fpuRestore s cpu i).vm = s.vm := by
  unfold fpuRestore
  split_ifs <;> rfl

theorem preempt_vm (s : System) (cpu : Nat) (prev : Option Slot) : (preempt s cpu prev).vm = s.vm := by
  cases prev with
  | none => rfl
  | some i =>
    unfold preempt fpuSave
    simp only
    split_ifs <;> rfl

theorem enter_log (s : System) (cpu : Nat) (next : Slot) : (enter s cpu next).vm.userStores = s.vm.userStores := by
  unfold enter
  simp only [tssSetKernelStack_vm]
  refine (pagingSwitchAddressSpace_log _ _ _).trans ?_
  unfold setCurrentLocal
  split_ifs <;> rfl

theorem reapPrev_log (s : System) (prev : Option Slot) : (reapPrev s prev).vm.userStores = s.vm.userStores := by
  cases prev with
  | none => rfl
  | some i =>
    simp only [reapPrev]
    split_ifs
    · exact reapProcess_log s i
    · rfl

theorem setCurrentLocal_vm (s : System) (cpu : Nat) (i : Option Slot) : (setCurrentLocal s cpu i).vm = s.vm := by
  unfold setCurrentLocal
  split_ifs <;> rfl

theorem switchFrom_log (s : System) (cpu : Nat) (prev : Option Slot) (frame : Frame) :
    (switchFrom s cpu prev frame).1.vm.userStores = s.vm.userStores := by
  unfold switchFrom
  simp only
  split
  · rw [reapPrev_log,enter_log,fpuRestore_vm,preempt_vm]
  · split
    · split_ifs
      · rw [reapPrev_log,enter_log]
      · rw [reapPrev_log,setCurrentLocal_vm]
      · rfl
    · split_ifs
      · exact enter_log s cpu bootstrap
      · rfl

theorem processSchedule_log (s : System) (cpu : Nat) (acquired : Bool) (frame : Frame) :
    (processSchedule s cpu acquired frame).1.vm.userStores = s.vm.userStores := by
  unfold processSchedule
  split_ifs
  · rfl
  simp only
  split
  · exact switchFrom_log _ _ _ _
  next prev _ =>
    have charged := chargeTick_vm (saveFrame (countSchedule s cpu) prev frame) prev
    cases charge : chargeTick (saveFrame (countSchedule s cpu) prev frame) prev with
    | mk next switches =>
      rw [charge] at charged
      have same : next.vm.userStores = s.vm.userStores := congrArg Vm.userStores charged
      cases switches with
      | false => exact same
      | true => exact (switchFrom_log _ _ _ _).trans ((freeDeferred_log _ _).trans same)

theorem scheduleTick_log (s : System) (cpu : Nat) (acquired : Bool) (frame : Frame) :
    (scheduleTick s cpu acquired frame).1.vm.userStores = s.vm.userStores := by
  have scheduled := processSchedule_log s cpu acquired frame
  unfold scheduleTick
  generalize processSchedule s cpu acquired frame = result at *
  obtain ⟨t,next⟩ := result
  dsimp only
  cases currentLocal t cpu with
  | none =>
    split
    · exact scheduled
    · exact scheduled
  | some c =>
    have stack := tssSetKernelStack_vm t cpu (t.processes c).kernelStackTop
    split
    · exact (congrArg Vm.userStores stack).trans scheduled
    · exact (congrArg Vm.userStores stack).trans scheduled

end Tasks

section Waiting
variable (s : System) (cpu : Nat)

theorem processSleepOn_vm (channel : Nat) : (processSleepOn s cpu channel).1.vm = s.vm := by
  unfold processSleepOn
  split_ifs
  · rfl
  · cases currentLocal s cpu with
    | none => rfl
    | some c =>
      simp only
      split_ifs <;> rfl

theorem processWakeup_vm (channel : Nat) : (processWakeup s channel).vm = s.vm := by
  unfold processWakeup
  split_ifs <;> rfl

theorem mouseReadEvent_vm (m : Mouse) : (mouseReadEvent s m cpu).1.vm = s.vm := by
  unfold mouseReadEvent
  split_ifs
  · rfl
  · rfl
  · exact processSleepOn_vm s cpu m.channel

theorem mouseEventPush_vm (m : Mouse) (event : MouseEvent) : (mouseEventPush s m event).1.vm = s.vm := by
  unfold mouseEventPush
  simp only
  split_ifs
  · rfl
  · rfl
  · exact processWakeup_vm s m.channel

theorem ipcSend_vm (q : IpcQueue) (receiver sender : Nat) (data : List Byte) :
    (ipcSend s q receiver sender data).1.vm = s.vm := by
  unfold ipcSend
  split_ifs
  · rfl
  · cases freeMessage q with
    | none => rfl
    | some i => exact processWakeup_vm s _

theorem ipcRecvBlocking_vm (q : IpcQueue) (receiver capacity : Nat) :
    (ipcRecvBlocking s q cpu receiver capacity).1.vm = s.vm := by
  unfold ipcRecvBlocking
  split_ifs
  · rfl
  · cases findMessage q receiver with
    | none => exact processSleepOn_vm s cpu _
    | some i => exact processWakeup_vm s _

theorem pipeWriteLoop_vm (id fuel : Nat) (pipes : Pipes) (left : List Byte) (done : Nat) :
    (pipeWriteLoop cpu id fuel s pipes left done).1.vm = s.vm := by
  induction fuel generalizing s pipes left done with
  | zero => rfl
  | succ fuel ih =>
    unfold pipeWriteLoop
    simp only
    split_ifs
    · rfl
    · rfl
    · exact processWakeup_vm s _
    · exact (ih _ _ _ _).trans (processWakeup_vm s _)
    all_goals exact processSleepOn_vm s cpu _

theorem pipeWrite_vm (pipes : Pipes) (handle : Nat) (data : List Byte) :
    (pipeWrite s pipes cpu handle data).1.vm = s.vm := by
  unfold pipeWrite
  cases decode handle with
  | none => rfl
  | some end' =>
    simp only
    split_ifs
    · rfl
    · exact pipeWriteLoop_vm s cpu _ _ _ _ _

theorem pipeClose_vm (pipes : Pipes) (handle : Nat) : (pipeClose s pipes cpu handle).1.vm = s.vm := by
  unfold pipeClose
  cases decode handle with
  | none => rfl
  | some end' =>
    simp only
    split_ifs
    all_goals first | rfl | exact (processWakeup_vm _ _).trans (processWakeup_vm _ _)

end Waiting

theorem poll_vm (k : Kernel) (env : Env) : (poll k env).sys.vm = k.sys.vm := by
  unfold poll
  generalize env.events = events
  dsimp only
  generalize env.keys.foldl pushChar k.keyboard = keyboard
  change _ = ({k with keyboard} : Kernel).sys.vm
  generalize ({k with keyboard} : Kernel) = k
  induction events generalizing k with
  | nil => rfl
  | cons event rest ih =>
    rw [List.foldl_cons,ih]
    exact mouseEventPush_vm k.sys k.mouse event

end LionOS.Calls

import LionOS.Sharing.Rollback
import LionOS.Sharing.Threads

/-! The frames of one program, from its start over every replacement of its image until it has
been reaped, and what becomes of the kernel stacks that it leaves. -/
namespace LionOS.Exec
open LionOS.Memory LionOS.Physical LionOS.Paging LionOS.Processes LionOS.Files LionOS.Calls LionOS.Frames LionOS.Library LionOS.Sharing

/-- The frame of a kernel stack, if there is one. -/
def stackFrame (top : Nat) : Multiset Nat := if top = 0 then 0 else {(top - 4096) / pageSize}

theorem stackFrame_zero {top : Nat} : stackFrame top = 0 ↔ top = 0 := by
  unfold stackFrame
  split
  next none => simp [none]
  next some => simp [some]

theorem Lent.freeStack {a a' : Allocator} {owed : Multiset Nat} {top : Nat} (whole : top % pageSize = 0)
    (lent : Lent a a' (stackFrame top + owed)) : Lent a (freeStack a' top) owed := by
  unfold stackFrame at lent
  unfold Processes.freeStack
  split at lent
  next none =>
    rw [if_pos none]
    rw [zero_add] at lent
    exact lent
  next some =>
    have frame : (top - 4096) / pageSize * pageSize = top - 4096 := by
      refine Nat.div_mul_cancel (Nat.dvd_of_mod_eq_zero ?_)
      simp only [pageSize] at *
      omega
    rw [Multiset.singleton_add] at lent
    have back := lent.giveBack
    rw [frame] at back
    rw [if_neg some]
    exact back

def imageFrames (p : Process) : Multiset Nat := ↑((ownedPages p).map (· / pageSize))

/-- Since `vm₀` the task has been lent the frames of its space, of its pages and of its kernel
stacks, and `lost` besides. -/
structure Owns (vm₀ vm : Vm) (p : Process) (lost : Multiset Nat) : Prop where
  loan : Loan vm₀ vm p.pageDirectory
    (imageFrames p + (stackFrame p.kernelStackTop + (stackFrame p.deferredKernelStack + lost)))
  pages : ∀ page ∈ ownedPages p, page % pageSize = 0
  stack : p.kernelStackTop % pageSize = 0
  deferred : p.deferredKernelStack % pageSize = 0

theorem programHome_pages {p : Process} {program : Loaded} {top : Nat} (home : p.home = programHome program top) :
    ownedPages p = program.pages.map LoadPage.page := by
  have count : p.userPageCount = program.pages.length := congrArg Home.userPageCount home
  have pages : p.userPages = (programHome program top).userPages := congrArg Home.userPages home
  rw [ownedPages,count,pages]
  refine List.ext_getElem (by simp) fun j bound _ => ?_
  rw [List.length_map,List.length_range] at bound
  rw [List.getElem_map,List.getElem_range,List.getElem_map,programHome]
  dsimp only
  rw [if_pos bound,pageArray,List.getD_eq_getElem _ _ (by simpa using bound),List.getElem_map]

/-- What a load has taken and a kernel stack are what the program owns. -/
theorem Loan.owns {vm₀ vm : Vm} {p : Process} (program : Loaded) {frame : Nat} {lost : Multiset Nat}
    (home : p.home = programHome program (frame * pageSize + 4096)) (aligned : ∀ q ∈ program.pages, q.page % pageSize = 0)
    (deferred : p.deferredKernelStack % pageSize = 0)
    (loan : Loan vm₀ vm program.pd (↑(pageFrames program.pages) + ({frame} + (stackFrame p.deferredKernelStack + lost)))) :
    Owns vm₀ vm p lost := by
  have pages := programHome_pages home
  have top : p.kernelStackTop = frame * pageSize + 4096 := congrArg Home.kernelStackTop home
  have space : p.pageDirectory = program.pd := congrArg Home.pageDirectory home
  have image : imageFrames p = ↑(pageFrames program.pages) := by
    rw [imageFrames,pages,pageFrames,List.map_map]
    rfl
  have stack : stackFrame p.kernelStackTop = {frame} := by
    rw [stackFrame,top,if_neg (by omega),Nat.add_sub_cancel,address_frame]
  refine ⟨?_,?_,?_,deferred⟩
  · rw [space,image,stack]
    exact loan
  · rw [pages]
    intro page member
    obtain ⟨q,inside,rfl⟩ := List.mem_map.mp member
    exact aligned q inside
  · rw [top]
    simp only [pageSize]
    omega

/-- The start of a program, with all that it owns from then on. -/
theorem execRunFile_owns {s s' : System} {ram : RamFs} {name : List Byte} {pid : Nat} {i : Slot} (agrees : Agrees s.vm.pages)
    (slot : findFreeSlot s = some i) (done : execRunFile s ram 0 name = (s',some pid)) : Owns s.vm s'.vm (s'.processes i) 0 ∧
      (s'.processes i).deferredKernelStack = 0 ∧ (s'.processes i).reapPending = false ∧ (s'.processes i).isThread = false ∧
      (s'.processes i).pid = pid ∧ currentLocal s' 0 = currentLocal s 0 ∧
      (∀ c, currentLocal s 0 = some c → (s'.processes i).parentPid = (s.processes c).pid) ∧
      ∀ j ≠ i, s'.processes j = s.processes j := by
  unfold execRunFile at done
  have loads := loadImage_loads s.vm ram name
  cases load : loadImage s.vm ram name with
  | mk v result =>
    rw [load] at loads
    dsimp only at loads
    cases loads with
    | refused => simp [load] at done
    | dropped => simp [load] at done
    | unmapped => simp [load] at done
    | @loaded pages vm₁ vm₂ vm₃ entry stack pd filled short created mapped =>
      obtain ⟨loan,_⟩ := filled.loan agrees created mapped
      have slot' : findFreeSlot {s with vm := v} = some i := slot
      simp only [load,processCreateExVas,processCreateExVasLocked,slot'] at done
      split_ifs at done
      · cases done
      cases allocated : pageAlloc v.pages with
      | none => simp [allocated] at done
      | some block =>
        obtain ⟨frames,page⟩ := block
        simp only [allocated] at done
        obtain ⟨frame,rfl,_,lent⟩ := loan.lent.alloc allocated
        obtain ⟨rfl,own⟩ := Prod.mk.inj done
        have record {s : System} {p : Process} : (setProcess s i p).processes i = p := by
          rw [setProcess_processes,Function.update_self]
        have taken : Lent s.vm.pages frames (spaceOwed v.mem pd + (↑(pageFrames pages) + ({frame} + (0 + 0)))) := by
          rw [block_one,add_comm,add_assoc] at lent
          exact lent
        refine ⟨?_,?_,?_,?_,Option.some.inj own,rfl,?_,?_⟩
        · refine Loan.owns ⟨entry,stack,pd,pages⟩ (congrArg Process.home record) filled.aligned ?_ ?_
          · rw [record]
            rfl
          · rw [record]
            exact loan.congr (fun _ _ => rfl) taken
        · rw [record]
          rfl
        · rw [record]
          rfl
        · rw [record]
          rfl
        · intro c caller
          have caller' : currentLocal {s with vm := v} 0 = some c := caller
          rw [record]
          simp only [caller']
          rfl
        · intro j other
          rw [setProcess_processes,Function.update_of_ne other]

/-- A space that was made while another one was lent takes none of its frames. -/
theorem Loan.later {vm₀ vm vm' : Vm} {pd pd' : Nat} {extra extra' : Multiset Nat} (first : Loan vm₀ vm pd extra)
    (second : Loan vm vm' pd' extra') {f : Nat} (member : f ∈ spaceOwed vm'.mem pd') :
    isFree vm₀.pages f = true ∧ f ∉ spaceOwed vm.mem pd := by
  have free := second.new f member
  rw [first.lent.free,Bool.and_eq_true,decide_eq_true_eq] at free
  exact ⟨free.1,fun own => free.2 (Multiset.mem_add.mpr (.inl own))⟩

/-- The program's old pages and its old space are given back, its old kernel stack waits. A
kernel stack that has waited already is lost. -/
theorem execReplaceCurrent_owns {vm₀ : Vm} {s s' : System} {ram : RamFs} {name : List Byte} {c : Slot} {lost : Multiset Nat}
    (caller : currentLocal s 0 = some c) (regular : Regular (vm₀.pageRoot / pageSize) vm₀.pages)
    (owns : Owns vm₀ s.vm (s.processes c) lost) (done : execReplaceCurrent s ram 0 name = (s',true)) :
    Owns vm₀ s'.vm (s'.processes c) (stackFrame (s.processes c).deferredKernelStack + lost) := by
  unfold execReplaceCurrent at done
  have loads := loadImage_loads s.vm ram name
  cases load : loadImage s.vm ram name with
  | mk v result =>
    rw [load] at loads
    dsimp only at loads
    cases loads with
    | refused => simp [load] at done
    | dropped => simp [load] at done
    | unmapped => simp [load] at done
    | @loaded pages vm₁ vm₂ vm₃ entry stack pd filled short created mapped =>
      obtain ⟨loan,spares⟩ := filled.loan owns.loan.lent.agrees created mapped
      have caller' : currentLocal {s with vm := v} 0 = some c := caller
      simp only [load,processExecReplaceCurrent,caller'] at done
      by_cases refused : c = bootstrap ∨ pd = 0 ∨ pages.length = 0 ∨ pages.length > maxUserPages
      · simp only [if_pos refused] at done
        cases done
      simp only [if_neg refused] at done
      cases allocated : pageAlloc v.pages with
      | none => simp [allocated] at done
      | some block =>
        obtain ⟨frames,page⟩ := block
        obtain ⟨frame,rfl,_,taken⟩ := (owns.loan.lent.trans loan.lent).alloc allocated
        have root : ¬ pd = 0 := fun null => refused (.inr (.inl null))
        simp only [allocated,tssSetKernelStack_vm,pagingSwitchAddressSpace,if_neg root] at done
        obtain ⟨rest,held⟩ : ∃ rest, rest = spaceOwed v.mem pd + (↑(pageFrames pages) + ({frame} +
            (stackFrame (s.processes c).kernelStackTop + (stackFrame (s.processes c).deferredKernelStack + lost)))) := ⟨_,rfl⟩
        have all : Lent vm₀.pages frames (imageFrames (s.processes c) + (spaceOwed s.vm.mem (s.processes c).pageDirectory + rest)) := by
          have order : imageFrames (s.processes c) + (spaceOwed s.vm.mem (s.processes c).pageDirectory + rest) =
              block frame 1 + (spaceOwed v.mem pd + ↑(pageFrames pages) + (spaceOwed s.vm.mem (s.processes c).pageDirectory +
                (imageFrames (s.processes c) + (stackFrame (s.processes c).kernelStackTop +
                  (stackFrame (s.processes c).deferredKernelStack + lost))))) := by
            rw [held,block_one]
            ac_rfl
          rw [order]
          exact taken
        have back := Lent.freePages owns.pages all
        have same (k : Nat) (bound : k < processPagingPages) :
            v.mem ((s.processes c).pageDirectory / pageSize + k) = s.vm.mem ((s.processes c).pageDirectory / pageSize + k) :=
          spares _ (owns.loan.lent.used (Multiset.mem_add.mpr (.inl (block_owed _ _ bound))))
        have old := owns.loan.congr same back
        have nonzero := owns.loan.grown.nonzero
        have apart (f : Nat) (member : f ∈ spaceOwed v.mem pd) : f ≠ (s.processes c).pageDirectory / pageSize := by
          rintro rfl
          exact (Loan.later owns.loan loan member).2 (block_owed s.vm.mem _ (by decide : 0 < processPagingPages))
        have other : (s.processes c).pageDirectory ≠ pd := by
          intro shared
          exact apart _ (block_owed v.mem pd (by decide : 0 < processPagingPages)) (by rw [shared]; rfl)
        rw [if_pos ⟨nonzero,other⟩] at done
        cases done
        obtain ⟨vm,eq⟩ : ∃ vm : Vm, vm = {v with
            pages := freePages frames (ownedPages (s.processes c))
            currentDirectory := Function.update v.currentDirectory 0 pd} := ⟨_,rfl⟩
        have released : Loan vm₀ vm (s.processes c).pageDirectory rest := by
          rw [eq]
          exact ⟨old.grown,old.lent,old.new,loan.kernel.trans owns.loan.kernel⟩
        obtain ⟨lent,_⟩ := released.destroy regular.used
        have mem (f : Nat) (member : f ∈ spaceOwed v.mem pd) :
            (pagingDestroyAddressSpace vm (s.processes c).pageDirectory).mem f = v.mem f := by
          rw [pagingDestroyAddressSpace_mem vm (apart f member),eq]
        obtain ⟨grown,tables⟩ := loan.grown.congr fun k bound => mem _ (block_owed v.mem pd bound)
        have owed : spaceOwed (pagingDestroyAddressSpace vm (s.processes c).pageDirectory).mem pd = spaceOwed v.mem pd := by
          rw [spaceOwed,tables,spaceOwed]
        have record {s : System} {p : Process} : (setProcess s c p).processes c = p := by
          rw [setProcess_processes,Function.update_self]
        refine Loan.owns ⟨entry,stack,pd,pages⟩ (congrArg Process.home record) filled.aligned ?_ ?_
        · rw [record]
          exact owns.stack
        · rw [record]
          have final : Loan vm₀ (pagingDestroyAddressSpace vm (s.processes c).pageDirectory) pd (↑(pageFrames pages) + ({frame} +
              (stackFrame (s.processes c).kernelStackTop + (stackFrame (s.processes c).deferredKernelStack + lost)))) := by
            refine ⟨grown,?_,?_,?_⟩
            · rw [owed,← held]
              exact lent
            · rw [owed]
              exact fun f member => (Loan.later owns.loan loan member).1
            · rw [pagingDestroyAddressSpace_root,eq]
              exact loan.kernel.trans owns.loan.kernel
          rw [eq] at final
          exact final

/-- What else becomes of the record. -/
theorem execReplaceCurrent_record {s s' : System} {ram : RamFs} {name : List Byte} {c : Slot} (caller : currentLocal s 0 = some c)
    (done : execReplaceCurrent s ram 0 name = (s',true)) :
    (s'.processes c).deferredKernelStack = (s.processes c).kernelStackTop ∧ (s'.processes c).reapPending = false ∧
      (s'.processes c).isThread = (s.processes c).isThread ∧ (s'.processes c).parentPid = (s.processes c).parentPid ∧
      (∀ j ≠ c, s'.processes j = s.processes j) ∧ currentLocal s' 0 = some c := by
  unfold execReplaceCurrent at done
  cases load : loadImage s.vm ram name with
  | mk v result =>
    cases result with
    | none => simp [load] at done
    | some program =>
      have caller' : currentLocal {s with vm := v} 0 = some c := caller
      simp only [load,processExecReplaceCurrent,caller'] at done
      by_cases refused : c = bootstrap ∨ program.pd = 0 ∨ program.pages.length = 0 ∨ program.pages.length > maxUserPages
      · simp only [if_pos refused] at done
        cases done
      simp only [if_neg refused] at done
      cases allocated : pageAlloc v.pages with
      | none => simp [allocated] at done
      | some block =>
        simp only [allocated] at done
        cases done
        have stack (s : System) (top : Nat) : (tssSetKernelStack s 0 top).currentByCpu = s.currentByCpu ∧
            (tssSetKernelStack s 0 top).processes = s.processes := by
          unfold tssSetKernelStack
          split <;> exact ⟨rfl,rfl⟩
        have record {s : System} {p : Process} : (setProcess s c p).processes c = p := by
          rw [setProcess_processes,Function.update_self]
        rw [record]
        refine ⟨rfl,rfl,rfl,rfl,?_,?_⟩
        · intro j other
          rw [setProcess_processes,Function.update_of_ne other,(stack _ _).2]
        · rw [← caller']
          simp only [currentLocal,setProcess_current,(stack _ _).1]

/-! ### Runs of one program -/

/-- A system with the slot of a program. -/
structure Life where
  system : System
  slot : Slot

/-- What happens while the program runs: the scheduler is called, the program replaces its image,
tasks block on channels and are woken, the program exits, on its own account or after a fault,
or it gets a signal; and what everybody else does. -/
inductive Act where
  | tick (acquired : Bool) (frame : Frame)
  | exec (ram : RamFs) (name : List Byte)
  | sleepOn (channel : Nat)
  | wakeup (channel : Nat)
  | exit (code : Nat)
  | signal (pid number : Nat)
  | elsewhere (s : System)

def Act.perform (s : System) : Act → System
  | .tick acquired frame => step s (.schedule acquired frame)
  | .exec ram name => (execReplaceCurrent s ram 0 name).1
  | .sleepOn channel => step s (.sleepOn channel)
  | .wakeup channel => step s (.wakeup channel)
  | .exit code => step s (.exit code)
  | .signal pid number => (processSignal s pid number).1
  | .elsewhere s => s

def Life.step (t : Life) (act : Act) : Life := {t with system := act.perform t.system}

theorem run_slot (t : Life) (acts : List Act) : (run Life.step t acts).slot = t.slot := by
  induction acts generalizing t with
  | nil => rfl
  | cons act acts ih => exact ih (t.step act)

def Life.program (t : Life) : Process := t.system.processes t.slot

/-- What does not touch the program: it takes no frame and gives none back, and no other task gets
anything that the scheduler would give back. -/
structure Life.Apart (t : Life) (s : System) : Prop where
  estate : (s.processes t.slot).estate = t.program.estate
  parent : (s.processes t.slot).parentPid = t.program.parentPid
  orphan : ∀ j, j ≠ bootstrap → j ≠ t.slot → (s.processes j).pid ≠ t.program.parentPid
  others : ∀ j ≠ t.slot, (s.processes j).reapPending = false ∧ (s.processes j).deferredKernelStack = 0
  pages : s.vm.pages = t.system.vm.pages
  kernel : s.vm.pageRoot = t.system.vm.pageRoot
  tables : ∀ f ∈ spaceOwed t.system.vm.mem t.program.pageDirectory, s.vm.mem f = t.system.vm.mem f
  current : currentLocal s 0 = currentLocal t.system 0

/-- Calls of the program are made while it is on the CPU, and the signals are those that it gets. -/
def Life.Proper (t : Life) : Act → Prop
  | .exec _ _ | .exit _ => currentLocal t.system 0 = some t.slot
  | .signal pid _ => findPid t.system pid = some t.slot
  | .elsewhere s => t.Apart s
  | _ => True

/-- No image is replaced while the kernel stack of the one before still waits to be given back. -/
def Life.Relieved (t : Life) : Act → Prop
  | .exec ram name => (execReplaceCurrent t.system ram 0 name).2 = true → t.program.deferredKernelStack = 0
  | _ => True

/-- The invariant of all runs, with the frames that have been lost since `vm₀`. -/
structure Running (vm₀ : Vm) (t : Life) (lost : Multiset Nat) : Prop where
  owns : Owns vm₀ t.system.vm t.program lost
  thread : t.program.isThread = false
  orphan : ∀ j, j ≠ bootstrap → j ≠ t.slot → (t.system.processes j).pid ≠ t.program.parentPid
  pending : ∀ j, (t.system.processes j).reapPending = false
  others : ∀ j ≠ t.slot, (t.system.processes j).deferredKernelStack = 0
  waits : t.program.deferredKernelStack ≠ 0 → currentLocal t.system 0 = some t.slot

section Owns
variable {vm₀ vm vm' : Vm} {p p' : Process} {lost : Multiset Nat}

theorem Owns.congr (owns : Owns vm₀ vm p lost) (estate : p'.estate = p.estate) (pages : vm'.pages = vm.pages)
    (kernel : vm'.pageRoot = vm.pageRoot) (tables : ∀ f ∈ spaceOwed vm.mem p.pageDirectory, vm'.mem f = vm.mem f) :
    Owns vm₀ vm' p' lost := by
  have home : p'.home = p.home := congrArg Estate.home estate
  have deferred : p'.deferredKernelStack = p.deferredKernelStack := congrArg Estate.deferredKernelStack estate
  have space : p'.pageDirectory = p.pageDirectory := congrArg Home.pageDirectory home
  have top : p'.kernelStackTop = p.kernelStackTop := congrArg Home.kernelStackTop home
  have listed : ownedPages p' = ownedPages p := by
    have count : p'.userPageCount = p.userPageCount := congrArg Home.userPageCount home
    have own : p'.userPages = p.userPages := congrArg Home.userPages home
    rw [ownedPages,count,own,ownedPages]
  have loan := owns.loan.congr (fun k bound => tables _ (block_owed _ _ bound)) owns.loan.lent
  refine ⟨?_,?_,?_,?_⟩
  · rw [space,imageFrames,listed,← imageFrames,top,deferred]
    exact ⟨loan.grown,by rw [pages]; exact loan.lent,loan.new,kernel.trans loan.kernel⟩
  · rw [listed]
    exact owns.pages
  · rw [top]
    exact owns.stack
  · rw [deferred]
    exact owns.deferred

end Owns

/-- Every task keeps its numbers and what belongs to it, and nothing happens to memory. -/
structure Still (s s' : System) : Prop where
  estates : ∀ j, (s'.processes j).estate = (s.processes j).estate
  pids : ∀ j, (s'.processes j).pid = (s.processes j).pid
  parents : ∀ j, (s'.processes j).parentPid = (s.processes j).parentPid
  vm : s'.vm = s.vm
  current : currentLocal s' 0 = currentLocal s 0

theorem Still.refl (s : System) : Still s s := ⟨fun _ => rfl,fun _ => rfl,fun _ => rfl,rfl,rfl⟩

theorem setProcess_still {s : System} {c : Slot} {p : Process} (estate : p.estate = (s.processes c).estate)
    (pid : p.pid = (s.processes c).pid) (parent : p.parentPid = (s.processes c).parentPid) : Still s (setProcess s c p) := by
  have record {α : Type} (part : Process → α) (same : part p = part (s.processes c)) (j : Slot) :
      part ((setProcess s c p).processes j) = part (s.processes j) := by
    rw [setProcess_processes]
    by_cases own : j = c
    · subst own
      rw [Function.update_self]
      exact same
    · rw [Function.update_of_ne own]
  exact ⟨record Process.estate estate,record Process.pid pid,record Process.parentPid parent,rfl,rfl⟩

theorem processSleepOn_still (s : System) (channel : Nat) : Still s (processSleepOn s 0 channel).1 := by
  unfold processSleepOn
  split
  · exact .refl s
  split
  · exact .refl s
  · split
    · exact .refl s
    · exact setProcess_still rfl rfl rfl

theorem processWakeup_still (s : System) (channel : Nat) : Still s (processWakeup s channel) := by
  have woken {α : Type} (part : Process → α) (same : ∀ p, part (wakeOn channel p) = part p) (j : Slot) :
      part (if j = bootstrap then s.processes j else wakeOn channel (s.processes j)) = part (s.processes j) := by
    split
    · rfl
    · exact same _
  have record {α : Type} (part : Process → α) (same : ∀ p : Process, part {p with waitChannel := 0,state := .ready} = part p)
      (p : Process) : part (wakeOn channel p) = part p := by
    unfold wakeOn
    split
    · exact same p
    · rfl
  unfold processWakeup
  split
  · exact .refl s
  · exact ⟨woken _ (record Process.estate fun _ => rfl),woken _ (record Process.pid fun _ => rfl),
      woken _ (record Process.parentPid fun _ => rfl),rfl,rfl⟩

theorem enter_root (s : System) (n : Slot) : (enter s 0 n).vm.pageRoot = s.vm.pageRoot := by
  obtain ⟨directory,switched⟩ := switch_directory s.vm (s.processes n).pageDirectory
  rw [enter_vm,switched]

theorem reapPrev_root (s : System) (prev : Option Slot) : (reapPrev s prev).vm.pageRoot = s.vm.pageRoot := by
  cases prev with
  | none => rfl
  | some c =>
    unfold reapPrev reapProcess
    dsimp only
    split_ifs
    · rfl
    · rfl
    · rfl
    · exact pagingDestroyAddressSpace_root _ _
    · rfl
    · rfl

theorem switchFrom_root (s : System) (prev : Option Slot) (frame : Frame) : (switchFrom s 0 prev frame).1.vm.pageRoot = s.vm.pageRoot := by
  unfold switchFrom
  dsimp only
  split
  · rw [reapPrev_root,enter_root,fpuRestore_vm,preempt_vm]
  split
  · rw [if_pos rfl]
    split
    · rw [reapPrev_root,enter_root]
    · rfl
  · rw [if_pos rfl]
    exact enter_root s bootstrap

/-- Nobody hears of the end of a program whose parent is the kernel. -/
theorem terminate_unreported {s : System} {i : Slot} (code : Nat)
    (orphan : ∀ j, j ≠ bootstrap → j ≠ i → (s.processes j).pid ≠ (s.processes i).parentPid) :
    wakeWaitingParent (terminate s i code) i = terminate s i code := by
  have none : waitingParent (terminate s i code) i = none := by
    cases found : waitingParent (terminate s i code) i with
    | none => rfl
    | some j =>
      obtain ⟨ordinary,waiting,parent,_⟩ := waitingParent_found found
      unfold terminate at waiting parent
      rw [setProcess_processes] at waiting parent
      by_cases own : j = i
      · rw [own,Function.update_self] at waiting
        cases waiting
      · rw [Function.update_of_ne own,Function.update_self] at parent
        exact absurd parent (orphan j ordinary own)
  rw [wakeWaitingParent,none]

theorem terminate_still {s : System} {i : Slot} (code : Nat) : Still s (terminate s i code) := setProcess_still rfl rfl rfl

section Acts
variable {vm₀ : Vm} {t : Life} {lost : Multiset Nat}

theorem Running.still (running : Running vm₀ t lost) {s : System} (still : Still t.system s) : Running vm₀ {t with system := s} lost := by
  have deferred (j : Slot) : (s.processes j).deferredKernelStack = (t.system.processes j).deferredKernelStack :=
    congrArg Estate.deferredKernelStack (still.estates j)
  refine ⟨?_,?_,?_,?_,?_,?_⟩
  · exact running.owns.congr (still.estates t.slot) (by rw [still.vm]) (by rw [still.vm]) fun f _ => by rw [still.vm]
  · exact (congrArg Estate.isThread (still.estates t.slot)).trans running.thread
  · intro j ordinary other
    dsimp only [Life.program]
    rw [still.pids,still.parents]
    exact running.orphan j ordinary other
  · intro j
    exact (congrArg Estate.reapPending (still.estates j)).trans (running.pending j)
  · intro j other
    dsimp only
    rw [deferred]
    exact running.others j other
  · intro some
    dsimp only [Life.program] at some ⊢
    rw [deferred] at some
    rw [still.current]
    exact running.waits some

theorem processExitCurrent_still (running : Running vm₀ t lost) (caller : currentLocal t.system 0 = some t.slot) (code : Nat) :
    Still t.system (processExitCurrent t.system 0 code) := by
  have thread : (t.system.processes t.slot).isThread = false := running.thread
  unfold processExitCurrent
  simp only [caller,thread,Bool.false_eq_true,if_false]
  split
  · exact .refl _
  · rw [terminate_unreported code running.orphan]
    exact terminate_still code

theorem processSignal_still (running : Running vm₀ t lost) {pid : Nat} (found : findPid t.system pid = some t.slot) (number : Nat) :
    Still t.system (processSignal t.system pid number).1 := by
  unfold processSignal
  simp only [found]
  split
  · exact .refl _
  split
  · obtain ⟨marked,eq⟩ : ∃ marked, marked = setProcess t.system t.slot {t.system.processes t.slot with
        pendingSignals := (t.system.processes t.slot).pendingSignals ||| signalBit number} := ⟨_,rfl⟩
    have first : Still t.system marked := by
      rw [eq]
      exact setProcess_still rfl rfl rfl
    have orphan (j : Slot) (ordinary : j ≠ bootstrap) (other : j ≠ t.slot) : (marked.processes j).pid ≠ (marked.processes t.slot).parentPid := by
      rw [first.pids,first.parents]
      exact running.orphan j ordinary other
    have last : Still marked (terminate marked t.slot (128 + number)) := terminate_still _
    dsimp only
    rw [← eq,terminate_unreported _ orphan]
    exact ⟨fun j => (last.estates j).trans (first.estates j),fun j => (last.pids j).trans (first.pids j),
      fun j => (last.parents j).trans (first.parents j),last.vm.trans first.vm,last.current.trans first.current⟩
  split
  · exact setProcess_still rfl rfl rfl
  split
  · exact setProcess_still rfl rfl rfl
  · exact .refl _

theorem Running.apart (running : Running vm₀ t lost) {s : System} (apart : t.Apart s) : Running vm₀ {t with system := s} lost := by
  have deferred : (s.processes t.slot).deferredKernelStack = t.program.deferredKernelStack :=
    congrArg Estate.deferredKernelStack apart.estate
  refine ⟨?_,?_,?_,?_,?_,?_⟩
  · exact running.owns.congr apart.estate apart.pages apart.kernel apart.tables
  · exact (congrArg Estate.isThread apart.estate).trans running.thread
  · intro j ordinary other
    dsimp only [Life.program]
    rw [apart.parent]
    exact apart.orphan j ordinary other
  · intro j
    by_cases own : j = t.slot
    · subst own
      exact (congrArg Estate.reapPending apart.estate).trans (running.pending _)
    · exact (apart.others j own).1
  · exact fun j other => (apart.others j other).2
  · intro some
    dsimp only [Life.program] at some ⊢
    rw [deferred] at some
    rw [apart.current]
    exact running.waits some

/-- The program replaces its image, or nothing happens. -/
theorem Running.exec (regular : Regular (vm₀.pageRoot / pageSize) vm₀.pages) (running : Running vm₀ t lost)
    (caller : currentLocal t.system 0 = some t.slot) (ram : RamFs) (name : List Byte) :
    ∃ more, Running vm₀ (t.step (.exec ram name)) (more + lost) ∧ (more = 0 ↔ t.Relieved (.exec ram name)) := by
  unfold Life.Relieved
  dsimp only [Life.step,Act.perform]
  cases done : execReplaceCurrent t.system ram 0 name with
  | mk s replaced =>
    dsimp only
    cases replaced with
    | false =>
      have kernel := running.owns.loan.kernel
      have regular' : Regular (t.system.vm.pageRoot / pageSize) t.system.vm.pages := by
        rw [kernel]
        exact running.owns.loan.lent.regular regular
      have untouched := execReplaceCurrent_untouched regular' done
      have processes : s.processes = t.system.processes := (congrArg System.processes untouched.rest).trans rfl
      have current : currentLocal s 0 = currentLocal t.system 0 := (congrArg (fun s => currentLocal s 0) untouched.rest).trans rfl
      refine ⟨0,?_,fun _ => nofun,fun _ => rfl⟩
      rw [zero_add]
      refine running.apart ⟨?_,?_,?_,?_,untouched.allocator,untouched.kernel,?_,current⟩
      · rw [processes]
        rfl
      · rw [processes]
        rfl
      · rw [processes]
        exact running.orphan
      · rw [processes]
        exact fun j other => ⟨running.pending j,running.others j other⟩
      · exact fun f member => untouched.frames f (running.owns.loan.lent.used (Multiset.mem_add.mpr (.inl member)))
    | true =>
      obtain ⟨deferred,pending,thread,parent,others,current⟩ := execReplaceCurrent_record caller done
      refine ⟨stackFrame t.program.deferredKernelStack,⟨execReplaceCurrent_owns caller regular running.owns done,?_,?_,?_,?_,?_⟩,?_⟩
      · exact thread.trans running.thread
      · intro j ordinary other
        dsimp only [Life.program]
        rw [others j other,parent]
        exact running.orphan j ordinary other
      · intro j
        by_cases own : j = t.slot
        · subst own
          exact pending
        · rw [others j own]
          exact running.pending j
      · intro j other
        rw [others j other]
        exact running.others j other
      · exact fun _ => current
      · rw [stackFrame_zero]
        exact ⟨fun none _ => none,fun none => none rfl⟩

/-- The program without the kernel stack that it had left. -/
theorem Owns.relieve {vm : Vm} {p : Process} (owns : Owns vm₀ vm p lost) :
    Owns vm₀ {vm with pages := freeStack vm.pages p.deferredKernelStack} {p with deferredKernelStack := 0} lost := by
  have lent : Lent vm₀.pages (freeStack vm.pages p.deferredKernelStack) (spaceOwed vm.mem p.pageDirectory +
      (imageFrames p + (stackFrame p.kernelStackTop + (stackFrame 0 + lost)))) := by
    refine Lent.freeStack owns.deferred ?_
    have all := owns.loan.lent
    have order : stackFrame p.deferredKernelStack + (spaceOwed vm.mem p.pageDirectory +
        (imageFrames p + (stackFrame p.kernelStackTop + (stackFrame 0 + lost)))) = spaceOwed vm.mem p.pageDirectory +
          (imageFrames p + (stackFrame p.kernelStackTop + (stackFrame p.deferredKernelStack + lost))) := by
      rw [stackFrame_zero.mpr rfl,zero_add]
      ac_rfl
    rw [order]
    exact all
  exact ⟨owns.loan.congr (fun _ _ => rfl) lent,owns.pages,owns.stack,rfl⟩

theorem Running.relieved (running : Running vm₀ t lost) : Running vm₀ {t with system := Processes.relieved t.system} lost ∧
    ((Processes.relieved t.system).processes t.slot).deferredKernelStack = 0 := by
  unfold Processes.relieved
  cases caller : currentLocal t.system 0 with
  | none =>
    refine ⟨running,?_⟩
    by_contra some
    rw [running.waits some] at caller
    cases caller
  | some c =>
    dsimp only
    unfold freeDeferred
    dsimp only
    by_cases none : (t.system.processes c).deferredKernelStack = 0
    · rw [if_pos none]
      refine ⟨running,?_⟩
      by_contra some
      rw [running.waits some] at caller
      obtain rfl := Option.some.inj caller
      exact some none
    · rw [if_neg none]
      have own : c = t.slot := by
        by_contra other
        exact none (running.others c other)
      subst own
      have some : ¬ t.program.deferredKernelStack = 0 := none
      have owns := Owns.relieve running.owns
      rw [freeStack,if_neg some] at owns
      have record {j : Slot} (other : j ≠ t.slot) {s : System} {p : Process} : (setProcess s t.slot p).processes j = s.processes j := by
        rw [setProcess_processes,Function.update_of_ne other]
      have self {s : System} {p : Process} : (setProcess s t.slot p).processes t.slot = p := by
        rw [setProcess_processes,Function.update_self]
      refine ⟨⟨?_,?_,?_,?_,?_,?_⟩,?_⟩
      · dsimp only [Life.program]
        rw [self]
        exact owns
      · dsimp only [Life.program]
        rw [self]
        exact running.thread
      · intro j ordinary other
        dsimp only [Life.program]
        rw [self,record other]
        exact running.orphan j ordinary other
      · intro j
        by_cases own : j = t.slot
        · rw [own,self]
          exact running.pending t.slot
        · rw [record own]
          exact running.pending j
      · intro j other
        rw [record other]
        exact running.others j other
      · intro some
        dsimp only [Life.program] at some
        rw [self] at some
        exact absurd rfl some
      · rw [self]

theorem Running.tick (running : Running vm₀ t lost) (acquired : Bool) (frame : Frame) :
    Running vm₀ (t.step (.tick acquired frame)) lost := by
  have scheduled (j : Slot) : (((step t.system (.schedule acquired frame)).processes j).pid = (t.system.processes j).pid ∧
      ((step t.system (.schedule acquired frame)).processes j).parentPid = (t.system.processes j).parentPid) := by
    cases processSchedule_scheduled t.system 0 acquired frame j with
    | kept same frame => exact ⟨congrArg Control.pid same,congrArg Control.parentPid same⟩
    | dispatched ready same => exact ⟨congrArg Control.pid same,congrArg Control.parentPid same⟩
    | preempted caller running same => exact ⟨congrArg Control.pid same,congrArg Control.parentPid same⟩
    | reaped caller dead pending cleared =>
      rw [running.pending j] at pending
      cases pending
  rcases processSchedule_splits t.system acquired frame with mild | ⟨u,mild,switched⟩
  · refine running.still ⟨mild.lives.estates,fun j => (scheduled j).1,fun j => (scheduled j).2,mild.vm,?_⟩
    simp only [currentLocal]
    rw [← mild.current]
    rfl
  · obtain ⟨relieved,none⟩ := running.relieved
    have pending (c : Slot) (_ : currentLocal t.system 0 = some c) : (u.processes c).reapPending = false :=
      (congrArg Estate.reapPending (mild.lives.estates c)).trans (relieved.pending c)
    have moves := mild.switch (switchFrom_moves pending frame)
    have kernel := (switchFrom_root u (currentLocal t.system 0) frame).trans (congrArg Vm.pageRoot mild.vm)
    rw [← switched] at moves kernel
    refine ⟨?_,?_,?_,?_,?_,?_⟩
    · refine relieved.owns.congr (moves.lives.estates t.slot) moves.pages kernel fun f _ => ?_
      exact congrFun moves.mem f
    · exact (congrArg Estate.isThread (moves.lives.estates t.slot)).trans relieved.thread
    · intro j ordinary other
      refine (scheduled j).1.trans_ne ?_
      dsimp only [Life.program,Life.step,Act.perform]
      rw [(scheduled t.slot).2]
      exact running.orphan j ordinary other
    · exact fun j => (congrArg Estate.reapPending (moves.lives.estates j)).trans (relieved.pending j)
    · exact fun j other => (congrArg Estate.deferredKernelStack (moves.lives.estates j)).trans (relieved.others j other)
    · intro some
      exact absurd ((congrArg Estate.deferredKernelStack (moves.lives.estates t.slot)).trans none) some

theorem Running.step (regular : Regular (vm₀.pageRoot / pageSize) vm₀.pages) (running : Running vm₀ t lost) {act : Act}
    (proper : t.Proper act) : ∃ more, Running vm₀ (t.step act) (more + lost) ∧ (more = 0 ↔ t.Relieved act) := by
  have still {s : System} (same : Still t.system s) : ∃ more, Running vm₀ {t with system := s} (more + lost) ∧ (more = 0 ↔ True) := by
    refine ⟨0,?_,fun _ => trivial,fun _ => rfl⟩
    rw [zero_add]
    exact running.still same
  cases act with
  | tick acquired frame =>
    refine ⟨0,?_,fun _ => trivial,fun _ => rfl⟩
    rw [zero_add]
    exact running.tick acquired frame
  | exec ram name => exact running.exec regular proper ram name
  | sleepOn channel => exact still (processSleepOn_still t.system channel)
  | wakeup channel => exact still (processWakeup_still t.system channel)
  | exit code => exact still (processExitCurrent_still running proper code)
  | signal pid number => exact still (processSignal_still running proper number)
  | elsewhere s =>
    refine ⟨0,?_,fun _ => trivial,fun _ => rfl⟩
    rw [zero_add]
    exact running.apart proper

/-- Nothing is lost over a run exactly if every replacement comes after the release. -/
theorem Running.run (regular : Regular (vm₀.pageRoot / pageSize) vm₀.pages) {acts : List Act} (running : Running vm₀ t lost)
    (proper : Meets Life.step Life.Proper t acts) :
    ∃ more, Running vm₀ (run Life.step t acts) (more + lost) ∧ (more = 0 ↔ Meets Life.step Life.Relieved t acts) := by
  induction acts generalizing t lost with
  | nil => exact ⟨0,by rw [zero_add]; exact running,fun _ => trivial,fun _ => rfl⟩
  | cons act acts ih =>
    obtain ⟨first,rest⟩ := proper
    obtain ⟨more,next,own⟩ := running.step regular first
    obtain ⟨later,last,all⟩ := ih next rest
    refine ⟨later + more,?_,?_⟩
    · rw [add_assoc]
      exact last
    · simp only [Meets]
      rw [← own,← all,← Multiset.card_eq_zero,Multiset.card_add,Nat.add_eq_zero_iff,Multiset.card_eq_zero,
        Multiset.card_eq_zero,and_comm]

/-- Reaping gives back what the program owns, all but a kernel stack that waits. -/
theorem Owns.reap {s : System} {i : Slot} (regular : Regular (vm₀.pageRoot / pageSize) vm₀.pages)
    (owns : Owns vm₀ s.vm (s.processes i) lost) (dead : (s.processes i).state = .zombie) (thread : (s.processes i).isThread = false)
    (none : (s.processes i).deferredKernelStack = 0) : Lent vm₀.pages (reapProcess s i).vm.pages lost := by
  have all := owns.loan.lent
  have order : imageFrames (s.processes i) + (spaceOwed s.vm.mem (s.processes i).pageDirectory +
      (stackFrame (s.processes i).kernelStackTop + lost)) = spaceOwed s.vm.mem (s.processes i).pageDirectory +
        (imageFrames (s.processes i) + (stackFrame (s.processes i).kernelStackTop +
          (stackFrame (s.processes i).deferredKernelStack + lost))) := by
    rw [stackFrame_zero.mpr none,zero_add]
    ac_rfl
  rw [← order] at all
  have back := Lent.freePages owns.pages all
  obtain ⟨vm,eq⟩ : ∃ vm : Vm, vm = {s.vm with pages := freePages s.vm.pages (ownedPages (s.processes i))} := ⟨_,rfl⟩
  have loan : Loan vm₀ vm (s.processes i).pageDirectory (stackFrame (s.processes i).kernelStackTop + lost) := by
    rw [eq]
    exact owns.loan.congr (fun _ _ => rfl) back
  obtain ⟨lent,_⟩ := loan.destroy regular.used
  have own : (s.processes i).pageDirectory ≠ 0 ∧ (s.processes i).pageDirectory ≠ pagingKernelDirectory vm := by
    refine ⟨owns.loan.grown.nonzero,?_⟩
    intro same
    have free := owns.loan.new _ (block_owed s.vm.mem _ (by decide : 0 < processPagingPages))
    rw [same,pagingKernelDirectory,loan.kernel,Nat.add_zero,regular.used] at free
    cases free
  unfold reapProcess
  rw [if_neg (not_not.mpr dead),if_neg (by rw [thread]; simp)]
  dsimp only
  rw [← eq,if_pos own]
  exact Lent.freeStack owns.stack lent

end Acts

/-- A program can be started by the kernel: no task but the kernel has its pid, and there is nothing
that the scheduler would give back. -/
structure Startable (s : System) : Prop where
  regular : Regular (s.vm.pageRoot / pageSize) s.vm.pages
  caller : currentLocal s 0 = some bootstrap
  alone : ∀ j, j ≠ bootstrap → (s.processes j).pid ≠ (s.processes bootstrap).pid
  calm : ∀ j, (s.processes j).reapPending = false ∧ (s.processes j).deferredKernelStack = 0

theorem boot_fresh (s : System) (idle schedule : Nat) (j : Slot) : ((boot s idle schedule).processes j).deferredKernelStack = 0 := by
  have kept (s : System) (i : Option Slot) : (setCurrentLocal s 0 i).processes = s.processes := by
    unfold setCurrentLocal
    split <;> rfl
  unfold Processes.boot processInit
  dsimp only
  rw [kept]
  split <;>
  · rw [setProcess_processes]
    by_cases own : j = bootstrap
    · rw [own,Function.update_self]
      rfl
    · rw [Function.update_of_ne own]
      rfl

theorem boot_startable {s : System} (idle schedule : Nat) (regular : Regular (s.vm.pageRoot / pageSize) s.vm.pages) :
    Startable (boot s idle schedule) := by
  have records (j : Slot) := boot_record s idle schedule j
  refine ⟨?_,boot_current s idle schedule,?_,fun j => ⟨?_,boot_fresh s idle schedule j⟩⟩
  · have kept (s : System) : (setCurrentLocal s 0 (some bootstrap)).vm = s.vm := by
      unfold setCurrentLocal
      split <;> rfl
    unfold Processes.boot processInit
    dsimp only
    rw [kept]
    split
    next => exact regular
    next pages stack allocated => exact regular.alloc allocated
  · intro j other same
    have free : ((boot s idle schedule).processes j).pid = 0 := (congrArg Control.pid (records j)).trans (by rw [if_neg other]; rfl)
    have own : ((boot s idle schedule).processes bootstrap).pid = 1 :=
      (congrArg Control.pid (records bootstrap)).trans (by rw [if_pos rfl])
    rw [free,own] at same
    cases same
  · refine (congrArg Control.reapPending (records j)).trans ?_
    split <;> rfl

theorem execRunFile_running {s s' : System} {ram : RamFs} {name : List Byte} {pid : Nat} {i : Slot} (startable : Startable s)
    (slot : findFreeSlot s = some i) (done : execRunFile s ram 0 name = (s',some pid)) : Running s.vm ⟨s',i⟩ 0 := by
  obtain ⟨owns,deferred,pending,thread,_,_,parent,others⟩ := execRunFile_owns startable.regular.agrees slot done
  refine ⟨owns,thread,?_,?_,?_,fun some => absurd deferred some⟩
  · intro j ordinary other
    dsimp only [Life.program]
    rw [others j other,parent bootstrap startable.caller]
    exact startable.alone j ordinary
  · intro j
    by_cases own : j = i
    · rw [own]
      exact pending
    · dsimp only
      rw [others j own]
      exact (startable.calm j).1
  · intro j other
    dsimp only
    rw [others j other]
    exact (startable.calm j).2

section Reaped
variable {s s' final : System} {ram : RamFs} {name : List Byte} {pid target : Nat} {i : Slot} {acts : List Act}

/-- What is lost when the program has been reaped. -/
theorem reaped_lent (startable : Startable s) (slot : findFreeSlot s = some i) (done : execRunFile s ram 0 name = (s',some pid))
    (proper : Meets Life.step Life.Proper ⟨s',i⟩ acts) (found : findPid (run Life.step ⟨s',i⟩ acts).system target = some i)
    (left : currentLocal (run Life.step ⟨s',i⟩ acts).system 0 ≠ some i)
    (reaped : processReapPid (run Life.step ⟨s',i⟩ acts).system target = (final,0)) :
    ∃ lost, Lent s.vm.pages final.vm.pages lost ∧ (lost = 0 ↔ Meets Life.step Life.Relieved ⟨s',i⟩ acts) := by
  obtain ⟨lost,running,relieved⟩ := (execRunFile_running startable slot done).run startable.regular proper
  rw [add_zero] at running
  refine ⟨lost,?_,relieved⟩
  have same : (run Life.step ⟨s',i⟩ acts).slot = i := run_slot _ _
  obtain ⟨t,eq⟩ : ∃ t, t = run Life.step ⟨s',i⟩ acts := ⟨_,rfl⟩
  rw [← eq] at found left reaped running same
  unfold processReapPid at reaped
  simp only [found] at reaped
  split at reaped
  · cases reaped
  next alive =>
    cases reaped
    have none : t.program.deferredKernelStack = 0 := by
      by_contra some
      have caller := running.waits some
      rw [same] at caller
      exact left caller
    have owns := running.owns
    have thread := running.thread
    unfold Life.program at none owns thread
    rw [same] at none owns thread
    exact Owns.reap startable.regular owns (not_not.mp alive) thread none

/-- A program that was started by the kernel, has ended and is reaped has given back all of its
frames exactly if no image was replaced while a kernel stack of it was still to be released. -/
theorem lifecycle_conserves (startable : Startable s) (slot : findFreeSlot s = some i)
    (done : execRunFile s ram 0 name = (s',some pid)) (proper : Meets Life.step Life.Proper ⟨s',i⟩ acts)
    (found : findPid (run Life.step ⟨s',i⟩ acts).system target = some i)
    (left : currentLocal (run Life.step ⟨s',i⟩ acts).system 0 ≠ some i)
    (reaped : processReapPid (run Life.step ⟨s',i⟩ acts).system target = (final,0)) :
    final.vm.pages = s.vm.pages ↔ Meets Life.step Life.Relieved ⟨s',i⟩ acts := by
  obtain ⟨lost,lent,relieved⟩ := reaped_lent startable slot done proper found left reaped
  rw [lent.same,relieved]

end Reaped

/-- The machine after the start of the kernel, with `n` frames for programs and the kernel's own stack. -/
def scarceBoot (n : Nat) : System := boot {blank with vm := {blank.vm with pages := scarce n}} 0x1000 0x2000

theorem scarceBoot_startable {n : Nat} (few : n ≤ 32) : Startable (scarceBoot n) := by
  have low : blank.vm.pageRoot / pageSize < reservedPages := by decide
  exact boot_startable 0x1000 0x2000 (scarce_regular few low)

theorem scarceBoot_slot : findFreeSlot (scarceBoot 32) = some 1 := by decide +kernel

def imageLoad : System × Option Nat := execRunFile (scarceBoot 32) (imageFile userBase) 0 [0x74]

theorem pair_eq {α β : Type} {p : α × β} {b : β} (second : p.2 = b) : p = (p.1,b) := Prod.ext rfl second

theorem imageLoad_done : imageLoad = (imageLoad.1,some 2) := pair_eq (by decide +kernel)

/-- A program that replaces its image `n` times in its first time slice. -/
def execTimes (n : Nat) : List Act :=
  .tick true zeroFrame :: List.replicate n (.exec (imageFile userBase) [0x74]) ++ [.exit 0,.tick true zeroFrame]

def Life.proper (t : Life) : Act → Bool
  | .exec _ _ | .exit _ => currentLocal t.system 0 == some t.slot
  | .signal pid _ => findPid t.system pid == some t.slot
  | .elsewhere _ => false
  | _ => true

theorem life_proper {t : Life} {acts : List Act} (checked : Meets Life.step (fun t act => t.proper act = true) t acts) :
    Meets Life.step Life.Proper t acts := by
  refine checked.mono fun t act proper => ?_
  cases act with
  | exec _ _ | exit _ | signal _ _ => exact beq_iff_eq.mp proper
  | tick _ _ | sleepOn _ | wakeup _ => trivial
  | elsewhere _ => cases proper

instance (t : Life) : (act : Act) → Decidable (t.Relieved act)
  | .exec ram name => inferInstanceAs (Decidable ((execReplaceCurrent t.system ram 0 name).2 = true → t.program.deferredKernelStack = 0))
  | .tick _ _ | .sleepOn _ | .wakeup _ | .exit _ | .signal _ _ | .elsewhere _ => inferInstanceAs (Decidable True)

/-- Of two replacements in one time slice the second forgets the kernel stack of the first. -/
theorem second_exec_leaks : ¬ ∀ (s s' final : System) (ram : RamFs) (name : List Byte) (pid target : Nat) (i : Slot) (acts : List Act),
    Startable s → findFreeSlot s = some i → execRunFile s ram 0 name = (s',some pid) → Meets Life.step Life.Proper ⟨s',i⟩ acts →
    findPid (run Life.step ⟨s',i⟩ acts).system target = some i → currentLocal (run Life.step ⟨s',i⟩ acts).system 0 ≠ some i →
    processReapPid (run Life.step ⟨s',i⟩ acts).system target = (final,0) → final.vm.pages = s.vm.pages := by
  intro conserves
  have startable := scarceBoot_startable (by decide : 32 ≤ 32)
  obtain ⟨start,loaded⟩ : ∃ start, start = imageLoad.1 := ⟨_,rfl⟩
  obtain ⟨acts,twice⟩ : ∃ acts, acts = execTimes 2 := ⟨_,rfl⟩
  have done : imageLoad = (start,some 2) := loaded ▸ imageLoad_done
  have facts : Meets Life.step (fun t act => t.proper act = true) ⟨start,1⟩ acts ∧ ¬ Meets Life.step Life.Relieved ⟨start,1⟩ acts ∧
      findPid (run Life.step ⟨start,1⟩ acts).system 2 = some 1 ∧ currentLocal (run Life.step ⟨start,1⟩ acts).system 0 ≠ some 1 ∧
      (processReapPid (run Life.step ⟨start,1⟩ acts).system 2).2 = 0 := by
    rw [loaded,twice]
    decide +kernel
  obtain ⟨proper,leaks,found,left,reaped⟩ := facts
  have same := conserves _ _ _ _ _ 2 2 1 _ startable scarceBoot_slot done (life_proper proper) found left (pair_eq reaped)
  obtain ⟨lost,lent,relieved⟩ := reaped_lent startable scarceBoot_slot done (life_proper proper) found left (pair_eq reaped)
  exact leaks (relieved.mp (lent.same.mp same))

theorem single_exec_conserves : (processReapPid (run Life.step ⟨imageLoad.1,1⟩ (execTimes 1)).system 2).1.vm.pages =
    (scarceBoot 32).vm.pages := by
  obtain ⟨start,loaded⟩ : ∃ start, start = imageLoad.1 := ⟨_,rfl⟩
  obtain ⟨acts,once⟩ : ∃ acts, acts = execTimes 1 := ⟨_,rfl⟩
  have done : imageLoad = (start,some 2) := loaded ▸ imageLoad_done
  have facts : Meets Life.step (fun t act => t.proper act = true) ⟨start,1⟩ acts ∧ Meets Life.step Life.Relieved ⟨start,1⟩ acts ∧
      findPid (run Life.step ⟨start,1⟩ acts).system 2 = some 1 ∧ currentLocal (run Life.step ⟨start,1⟩ acts).system 0 ≠ some 1 ∧
      (processReapPid (run Life.step ⟨start,1⟩ acts).system 2).2 = 0 := by
    rw [loaded,once]
    decide +kernel
  obtain ⟨proper,relieved,found,left,reaped⟩ := facts
  rw [← loaded,← once]
  exact (lifecycle_conserves (scarceBoot_startable (by decide)) scarceBoot_slot done (life_proper proper) found left
    (pair_eq reaped)).mpr relieved

end LionOS.Exec

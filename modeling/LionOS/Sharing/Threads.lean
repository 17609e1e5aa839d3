import LionOS.Processes.Identifiers
import LionOS.Sharing.Stacks

/-! The creation of a thread beside those of its group, and the runs of a group from the
load of its image on. -/
namespace LionOS.Sharing
open LionOS.Memory LionOS.Physical LionOS.Paging LionOS.Processes LionOS.Files LionOS.Exec LionOS.Calls LionOS.Library

section Creation
variable {role : Nat → Role} {t : Group}

/-- What belongs to a new thread. -/
def newEstate (parent : Process) (kernelStackTop page va : Nat) : Estate where
  home := ⟨parent.pageDirectory,kernelStackTop,fun _ => 0,fun _ => 0,0⟩
  isThread := true
  threadGroupPid := parent.threadGroupPid
  threadStackPage := page
  threadStackVa := va
  reapPending := false
  deferredKernelStack := 0

/-- A creation that is refused, or one that has mapped the new stack. -/
inductive Creation (role : Nat → Role) (t : Group) (entry : Nat) (s : System) : Prop
  | refused (blocked : ¬ Clobbers t.system entry) (table : s.processes = t.system.processes)
      (current : s.currentByCpu = t.system.currentByCpu) (mem : s.vm.mem = t.system.vm.mem)
      (directory : s.vm.currentDirectory = t.system.vm.currentDirectory)
      (taken : ∀ f, isFree t.system.vm.pages f = false → isFree s.vm.pages f = false)
  | made {c i : Slot} {page : Nat} {role' : Nat → Role} {p : Process} (valid : entry ≠ 0)
      (caller : currentLocal t.system 0 = some c) (ordinary : c ≠ bootstrap) (slot : findFreeSlot t.system = some i)
      (frames : twoFrames t.system.vm.pages = true) (free : isFree t.system.vm.pages (page / pageSize) = true)
      (grown : Grown role role' t.system.vm s.vm t.space (threadStackVaForSlot i) page)
      (table : s.processes = Function.update t.system.processes i p)
      (estate : ∃ top, p.estate = newEstate (t.system.processes c) top page (threadStackVaForSlot i)) (live : p.state = .ready)

theorem threadStackVaForSlot_place (i : Slot) :
    threadStackVaForSlot i < userLimit ∧ threadStackVaForSlot i % pageSize = 0 := by
  have all : ∀ i : Slot, threadStackVaForSlot i < userLimit ∧ threadStackVaForSlot i % pageSize = 0 := by decide
  exact all i

theorem pageFree_apart {a : Allocator} {frame f : Nat} (high : frame < maxPages) (apart : f ≠ frame) :
    isFree (pageFree a (frame * pageSize)) f = isFree a f := by
  apply pageFree_other
  rw [(table_address high).2.2]
  exact apart

theorem Takes.apart {a a' : Allocator} {first f : Nat} (takes : Takes a a' first 1) (used : isFree a f = false) :
    f ≠ first := by
  rintro rfl
  rw [takes.free f (Nat.le_refl _) (by omega)] at used
  cases used

theorem pageFree_taken {a a' : Allocator} {first : Nat} (takes : Takes a a' first 1) {f : Nat} (used : isFree a f = false) :
    isFree (pageFree a' (first * pageSize)) f = false := by
  rw [pageFree_apart takes.high (Takes.apart takes used)]
  exact takes.taken used

theorem createUserThread_creation (settled : Settled role t) {c : Slot} (member : c ∈ t.members)
    (caller : currentLocal t.system 0 = some c) (entry : Nat) :
    Creation role t entry (Processes.step t.system (.createUserThread entry)) := by
  have unchanged (blocked : ¬ Clobbers t.system entry) : Creation role t entry t.system :=
    .refused blocked rfl rfl rfl rfl fun _ => id
  simp only [Processes.step]
  unfold processCreateUserThread
  split
  next null => exact unchanged fun clobbers => clobbers.1 null
  next valid =>
    simp only [caller]
    split
    next boot =>
      refine unchanged ?_
      rintro ⟨_,c',i,caller',ordinary,_⟩
      rw [caller] at caller'
      obtain rfl := Option.some.inj caller'
      exact ordinary boot
    next ordinary =>
      cases slot : findFreeSlot t.system with
      | none =>
        refine unchanged ?_
        rintro ⟨_,c',i,_,_,slot',_⟩
        rw [slot] at slot'
        cases slot'
      | some i =>
        dsimp only
        cases first : pageAlloc t.system.vm.pages with
        | none =>
          refine unchanged ?_
          rintro ⟨_,c',i,_,_,_,frames,_⟩
          simp [twoFrames,first] at frames
        | some block =>
          obtain ⟨pages,page⟩ := block
          obtain ⟨frame,rfl,takes⟩ := pageAlloc_takes first
          dsimp only
          cases second : pageAlloc pages with
          | none =>
            refine .refused ?_ rfl rfl rfl rfl fun f used => pageFree_taken takes used
            rintro ⟨_,c',i,_,_,_,frames,_⟩
            simp [twoFrames,first,second] at frames
          | some block =>
            obtain ⟨pages',top⟩ := block
            obtain ⟨other,rfl,takes'⟩ := pageAlloc_takes second
            have space := settled.directories c member
            have taken (f : Nat) (used : isFree t.system.vm.pages f = false) : isFree pages' f = false :=
              takes'.taken (takes.taken used)
            have high : frame < maxPages := takes.high
            obtain ⟨aligned,small,number⟩ := table_address high
            have free : isFree t.system.vm.pages frame = true := takes.free frame (Nat.le_refl _) (by omega)
            have place := threadStackVaForSlot_place i
            dsimp only
            rw [space]
            cases mapped : pagingMapUserPageIn {t.system.vm with pages := pages'} t.space (threadStackVaForSlot i)
                (frame * pageSize) (ptePresent ||| pteWritable) with
            | none =>
              simp only [Option.map_some,Option.getD_some]
              refine .refused ?_ rfl rfl rfl rfl ?_
              · rintro ⟨_,c',i',caller',_,slot',_,there⟩
                rw [caller] at caller'
                rw [slot] at slot'
                obtain rfl := Option.some.inj caller'
                obtain rfl := Option.some.inj slot'
                rw [space,pagingGetUserPage_mapping _ place.1 settled.root,mapping] at there
                cases table : tableOf t.system.vm.mem t.space (threadStackVaForSlot i) with
                | none => simp [table] at there
                | some table' =>
                  have table' : tableOf ({t.system.vm with pages := pages'} : Vm).mem t.space (threadStackVaForSlot i) = some _ :=
                    table
                  exact pagingMapUserPageIn_table settled.root place.1 place.2 aligned table' mapped
              · intro f used
                rw [pageFree_apart takes'.high (Takes.apart takes' (takes.taken used)),pageFree_apart high (Takes.apart takes used)]
                exact taken f used
            | some vm =>
              have kept : Kept role ({t.system.vm with pages := pages'} : Vm).pages :=
                fun f structural => taken f (settled.kept f structural)
              have data : role (frame * pageSize / pageSize) = .data := by
                rw [number]
                exact settled.kept.data free
              have used : isFree pages' (frame * pageSize / pageSize) = false := by
                apply takes'.taken
                rw [number,takes.single]
                simp
              have directory : ({t.system.vm with pages := pages'} : Vm).currentDirectory 0 = t.space :=
                settled.current c member caller
              obtain ⟨role',v,stored,grown,_⟩ :=
                threadStack_grown (Eq.refl t.space) directory kept (settled.space.pages taken) data used small mapped
              have grown' : Grown role role' t.system.vm v t.space (threadStackVaForSlot i) (frame * pageSize) :=
                ⟨grown.directory,fun f used => grown.taken f (taken f used),fun f used => grown.roles f (taken f used),
                  grown.kept,grown.space,grown.mapping⟩
              simp only [stored,Option.map_some,Option.getD_some]
              refine .made valid caller ordinary slot ?_ ?_ grown' rfl ?_ rfl
              · simp [twoFrames,first,second]
              · rw [number]
                exact free
              · refine ⟨other * pageSize + 4096,?_⟩
                rw [newEstate,space]
                rfl

section Joined
variable {role' : Nat → Role} {s : System} {c i : Slot} {page top : Nat} {p : Process}

/-- A thread joins the group with the only page that is new in its space. -/
theorem Settled.joined (settled : Settled role t) (member : c ∈ t.members) (caller : currentLocal t.system 0 = some c)
    (unused : (t.system.processes i).state = .unused) (free : isFree t.system.vm.pages (page / pageSize) = true)
    (grown : Grown role role' t.system.vm s.vm t.space (threadStackVaForSlot i) page)
    (table : s.processes = Function.update t.system.processes i p)
    (estate : p.estate = newEstate (t.system.processes c) top page (threadStackVaForSlot i)) (live : p.state = .ready) :
    Settled role' {t.at s with members := i::t.members} := by
  have apart {j : Slot} (own : j ∈ t.members) : j ≠ i := by
    rintro rfl
    exact settled.live j own unused
  have before {j : Slot} (own : j ∈ t.members) : s.processes j = t.system.processes j := by
    rw [table,Function.update_of_ne (apart own)]
  have now : s.processes i = p := by rw [table,Function.update_self]
  have leader := before settled.leader
  have space : (t.at s).space = t.space := congrArg Process.pageDirectory leader
  have place := threadStackVaForSlot_place i
  refine ⟨grown.kept,?_,?_,?_,?_,List.mem_cons_of_mem i settled.leader,?_,?_,?_,?_,?_,?_,?_⟩
  · exact space.symm ▸ grown.space
  · exact space.symm ▸ settled.root
  · intro va inside page' flags here
    have here : mapping s.vm.mem (t.at s).space va = some (page',flags) := here
    rw [space,grown.mapping va inside] at here
    by_cases own : va / pageSize = threadStackVaForSlot i / pageSize
    · rw [if_pos own] at here
      cases here
      decide
    · rw [if_neg own] at here
      exact settled.plain va inside page' flags here
  · intro va inside page' flags here
    have here : mapping s.vm.mem (t.at s).space va = some (page',flags) := here
    rw [space,grown.mapping va inside] at here
    by_cases own : va / pageSize = threadStackVaForSlot i / pageSize
    · rw [if_pos own] at here
      cases here
      refine .inr ⟨i,List.mem_cons_self,?_,?_,?_⟩
      · exact (congrArg Process.isThread now).trans (congrArg Estate.isThread estate)
      · exact (congrArg Process.threadStackPage now).trans (congrArg Estate.threadStackPage estate)
      · refine ((congrArg Process.threadStackVa now).trans (congrArg Estate.threadStackVa estate)).trans ?_
        have aligned := place.2
        simp only [newEstate,pageOf,pageSize] at *
        omega
    · rw [if_neg own] at here
      rcases settled.owned va inside page' flags here with ⟨j,bound,frame,home⟩ | ⟨j,known,thread,frame,home⟩
      · refine .inl ⟨j,?_,?_,?_⟩
        · exact leader.symm ▸ bound
        · exact leader.symm ▸ frame
        · exact leader.symm ▸ home
      · refine .inr ⟨j,List.mem_cons_of_mem i known,?_⟩
        exact (before known).symm ▸ ⟨thread,frame,home⟩
  · refine List.forall_mem_cons.mpr ⟨?_,?_⟩
    · show (s.processes i).state ≠ .unused
      rw [now,live]
      simp
    · exact fun j known => (before known).symm ▸ settled.live j known
  · refine List.forall_mem_cons.mpr ⟨?_,?_⟩
    · refine ((congrArg Process.pageDirectory now).trans (congrArg (Home.pageDirectory ∘ Estate.home) estate)).trans ?_
      exact (settled.directories c member).trans space.symm
    · exact fun j known => (congrArg Process.pageDirectory (before known)).trans ((settled.directories j known).trans space.symm)
  · have number := congrArg Process.threadGroupPid leader
    refine List.forall_mem_cons.mpr ⟨?_,?_⟩
    · refine ((congrArg Process.threadGroupPid now).trans (congrArg Estate.threadGroupPid estate)).trans ?_
      exact (settled.groups c member).trans number.symm
    · exact fun j known => (congrArg Process.threadGroupPid (before known)).trans ((settled.groups j known).trans number.symm)
  · refine List.forall_mem_cons.mpr ⟨?_,?_⟩
    · exact (congrArg Process.reapPending now).trans (congrArg Estate.reapPending estate)
    · exact fun j known => (congrArg Process.reapPending (before known)).trans (settled.pending j known)
  · refine List.forall_mem_cons.mpr ⟨?_,?_⟩
    · exact fun _ => (congrArg Process.deferredKernelStack now).trans (congrArg Estate.deferredKernelStack estate)
    · intro j known other
      exact (congrArg Process.deferredKernelStack (before known)).trans (settled.others j known other)
  · intro f some
    have some : Deferred (s.processes t.leader) f := some
    rw [leader] at some
    obtain ⟨used,data,distinct⟩ := settled.deferred f some
    refine ⟨grown.taken f used,(grown.roles f used).trans data,?_⟩
    intro va inside page' flags here
    have here : mapping s.vm.mem (t.at s).space va = Option.some (page',flags) := here
    rw [space,grown.mapping va inside] at here
    by_cases own : va / pageSize = threadStackVaForSlot i / pageSize
    · rw [if_pos own] at here
      cases here
      rintro rfl
      rw [free] at used
      cases used
    · rw [if_neg own] at here
      exact distinct va inside page' flags here
  · intro c' _ running
    refine (congrFun grown.directory 0).trans ((settled.current c member caller).trans space.symm)

end Joined

theorem Settled.created (settled : Settled role t) {entry : Nat} (proper : t.Proper (.createUserThread entry)) :
    ∃ role', Settled role' (t.step (.createUserThread entry)) := by
  obtain ⟨c,member,caller⟩ := proper
  obtain ⟨s,done⟩ : ∃ s, s = Processes.step t.system (.createUserThread entry) := ⟨_,rfl⟩
  have creation := createUserThread_creation settled member caller entry
  rw [← done] at creation
  have performed : (Move.createUserThread entry).perform t.system = s := done.symm
  cases creation with
  | refused blocked table current mem directory taken =>
    have live (i : Slot) (own : i ∈ t.members) : (s.processes i).state ≠ .unused := by
      rw [table]
      exact settled.live i own
    have same : t.step (.createUserThread entry) = t.at s := by
      refine (step_members ?_ ?_).trans (congrArg t.at performed)
      · intro i slot
        rw [performed,table]
        exact findFreeSlot_unused slot
      · rw [performed]
        exact live
    rw [same]
    refine ⟨role,settled.carry ?_ ?_ ?_ ?_ ?_ ?_⟩
    · exact fun i own => ⟨live i own,_,.inl rfl,congrArg Process.estate (congrFun table i)⟩
    · exact fun f structural => taken f (settled.kept f structural)
    · exact fun f _ => by rw [mem]
    · rintro f ⟨va,page,flags,found,rfl⟩
      exact taken _ (settled.bounded va page flags found).1
    · intro f some
      rw [table] at some
      exact taken f (settled.deferred f some).1
    · intro c' own running
      rw [directory]
      refine settled.current c' own ?_
      simpa only [currentLocal,current] using running
  | @made c' i page role' p valid caller' ordinary slot frames free grown table estate live =>
    rw [caller] at caller'
    obtain rfl := Option.some.inj caller'
    obtain ⟨top,estate⟩ := estate
    have unused := findFreeSlot_unused slot
    have joined := settled.joined member caller unused free grown table estate live
    have same : t.step (.createUserThread entry) = {t.at s with members := i::t.members} := by
      have slot : (Move.createUserThread entry).slot t.system = some i := slot
      refine (step_joined slot ?_ ?_).trans ?_
      · rw [performed]
        exact joined.live _ List.mem_cons_self
      · rw [performed]
        exact fun j own => joined.live j (List.mem_cons_of_mem _ own)
      · rw [performed]
    rw [same]
    exact ⟨_,joined⟩

theorem Settled.undisturbed (settled : Settled role t) {entry : Nat} (proper : t.Proper (.createUserThread entry)) :
    t.Undisturbed entry ↔ ¬ Clobbers t.system entry := by
  obtain ⟨c,member,caller⟩ := proper
  unfold Group.Undisturbed
  simp only [Group.step,Move.perform]
  have creation := createUserThread_creation settled member caller entry
  obtain ⟨s,done⟩ : ∃ s, s = Processes.step t.system (.createUserThread entry) := ⟨_,rfl⟩
  rw [← done] at creation ⊢
  cases creation with
  | refused blocked table current mem directory taken =>
    refine ⟨fun _ => blocked,fun _ va page found => ?_⟩
    obtain ⟨inside,root⟩ := pagingGetUserPage_bounds found
    rw [pagingGetUserPage_mapping _ inside root] at found ⊢
    rw [mem]
    exact found
  | @made c' i page role' p valid caller' ordinary slot frames free grown table estate live =>
    rw [caller] at caller'
    obtain rfl := Option.some.inj caller'
    have place := (threadStackVaForSlot_place i).1
    have space := settled.directories c member
    constructor
    · rintro same ⟨_,c',i',caller',_,slot',_,there⟩
      rw [caller] at caller'
      rw [slot] at slot'
      obtain rfl := Option.some.inj caller'
      obtain rfl := Option.some.inj slot'
      rw [space] at there
      obtain ⟨⟨page',flags⟩,found⟩ := Option.isSome_iff_exists.mp there
      have after := same _ _ found
      rw [pagingGetUserPage_mapping _ place settled.root] at found after
      rw [grown.mapping _ place,if_pos rfl] at after
      cases after
      rw [settled.space.held _ place _ _ found] at free
      cases free
    · rintro apart va page' found
      obtain ⟨inside,root⟩ := pagingGetUserPage_bounds found
      rw [pagingGetUserPage_mapping _ inside root] at found ⊢
      rw [grown.mapping va inside,if_neg]
      · exact found
      · intro own
        refine apart ⟨valid,c,i,caller,ordinary,slot,frames,?_⟩
        rw [space,pagingGetUserPage_mapping _ place root,← mapping_page _ _ own,found]
        rfl

end Creation

section Runs
variable {role : Nat → Role} {t : Group}

theorem Settled.exited (settled : Settled role t) {code : Nat} (proper : t.Proper (.exit code)) :
    Settled role (t.at (processExitCurrent t.system 0 code)) := by
  obtain ⟨⟨c,_,caller,thread⟩,joiner⟩ := proper
  exact settled.informed (processExitCurrent_informs caller thread code) joiner

theorem Settled.waited (settled : Settled role t) {tid statusPtr : Nat} (proper : t.Proper (.joinThread tid statusPtr))
    (uncollected : t.Uncollected (.joinThread tid statusPtr)) :
    Settled role (t.at (processJoinThread t.system 0 tid statusPtr).1) := by
  obtain ⟨c,member,caller⟩ := proper
  refine settled.informed (processJoinThread_informs uncollected) ?_
  intro w own
  rw [caller] at own
  obtain rfl := Option.some.inj own
  exact member

theorem Settled.step (settled : Settled role t) {move : Move} (proper : t.Proper move) (uncollected : t.Uncollected move) :
    ∃ role', Settled role' (t.step move) := by
  have others {s : System} (move : Move) (none : move.slot t.system = none) (done : move.perform t.system = s)
      {role' : Nat → Role} (after : Settled role' (t.at s)) : ∃ role', Settled role' (t.step move) := by
    subst done
    refine ⟨role',?_⟩
    rw [step_members ?_ after.live]
    · exact after
    · intro i slot
      rw [none] at slot
      cases slot
  cases move with
  | schedule acquired frame => exact others _ rfl rfl (settled.scheduled proper)
  | createUserThread entry => exact settled.created proper
  | exit code => exact others _ rfl rfl (settled.exited proper)
  | joinThread tid statusPtr => exact others _ rfl rfl (settled.waited proper uncollected)
  | elsewhere s => exact others _ rfl rfl (settled.spared proper)

theorem Settled.run {moves : List Move} (start : ∃ role, Settled role t) (proper : Meets Group.step Group.Proper t moves)
    (uncollected : Meets Group.step Group.Uncollected t moves) : ∃ role, Settled role (Library.run Group.step t moves) := by
  induction moves generalizing t with
  | nil => exact start
  | cons move rest ih =>
    obtain ⟨role,settled⟩ := start
    exact ih (settled.step proper.1 uncollected.1) proper.2 uncollected.2

end Runs

section Start

/-- The frames that a task gives back with its program. -/
def Gives (m : Mem) (p : Process) (f : Nat) : Prop :=
  (∃ page ∈ ownedPages p, page ≠ 0 ∧ f = page / pageSize) ∨ p.pageDirectory ≠ 0 ∧
    ((∃ t ∈ userTables m p.pageDirectory, f = t / pageSize) ∨
      ∃ i < processPagingPages, f = (p.pageDirectory + i * pageSize) / pageSize)

/-- Where the program of the task and its kernel stack lie: in frames that are in use, and
the stack in one of its own. -/
structure Resides (vm : Vm) (p : Process) : Prop where
  aligned : p.pageDirectory % pageSize = 0
  program : ∀ f, Gives vm.mem p f → isFree vm.pages f = false
  stack : ∀ f, p.kernelStackTop ≠ 0 → f = (p.kernelStackTop - 4096) / pageSize → isFree vm.pages f = false ∧ ¬ Gives vm.mem p f

/-- A group that begins with one task, which `load_image` has just loaded a program for:
a new task, or the one that is running. -/
inductive Begins : Group → Prop
  | runFile {s s' : System} {ram : RamFs} {name : List Byte} {pid : Nat} {i : Slot} (occupied : Occupied s)
      (slot : findFreeSlot s = some i) (done : execRunFile s ram 0 name = (s',some pid)) : Begins ⟨s',i,[i]⟩
  | replaced {s s' : System} {ram : RamFs} {name : List Byte} {c : Slot} (occupied : Occupied s)
      (caller : currentLocal s 0 = some c) (resides : Resides s.vm (s.processes c)) (done : execReplaceCurrent s ram 0 name = (s',true)) :
      Begins ⟨s',c,[c]⟩

/-- What the record of a task says about its new program. -/
def programHome (program : Loaded) (top : Nat) : Home where
  pageDirectory := program.pd
  kernelStackTop := top
  userPages := fun j => if j < program.pages.length then pageArray program.pages j else 0
  userPageVas := fun j => if j < program.pages.length then vaArray program.pages j else 0
  userPageCount := program.pages.length

theorem pages_listed {pages : List LoadPage} {p : LoadPage} (member : p ∈ pages) :
    ∃ j < pages.length, pageArray pages j = p.page ∧ vaArray pages j = p.va := by
  obtain ⟨j,bound,rfl⟩ := List.mem_iff_getElem.mp member
  refine ⟨j,bound,?_,?_⟩
  · rw [pageArray,List.getD_eq_getElem _ _ (by simpa using bound),List.getElem_map]
  · rw [vaArray,List.getD_eq_getElem _ _ (by simpa using bound),List.getElem_map]

/-- The frames of the program were free before it was loaded, so whatever keeps those as the
load left them starts a group. -/
theorem laid_settled {role : Nat → Role} {vm v : Vm} {program : Loaded} (laid : Laid role vm v program.pd program.pages)
    {s : System} {c : Slot} {top : Nat} (home : (s.processes c).home = programHome program top)
    (live : (s.processes c).state ≠ .unused) (pending : (s.processes c).reapPending = false)
    (pages : ∀ f, isFree vm.pages f = true → isFree v.pages f = false → isFree s.vm.pages f = false)
    (mem : ∀ f, isFree vm.pages f = true → s.vm.mem f = v.mem f)
    (deferred : ∀ f, Deferred (s.processes c) f → isFree vm.pages f = false ∧ isFree s.vm.pages f = false)
    (current : currentLocal s 0 = some c → s.vm.currentDirectory 0 = program.pd) : Settled role ⟨s,c,[c]⟩ := by
  have space : (⟨s,c,[c]⟩ : Group).space = program.pd := congrArg Home.pageDirectory home
  have tables : ∀ f, (role f).space = some program.pd → s.vm.mem f = v.mem f := by
    intro f own
    refine mem f (laid.new f ?_)
    intro data
    rw [data] at own
    cases own
  have mappings {va : Nat} (inside : va < userLimit) : mapping s.vm.mem program.pd va = mapping v.mem program.pd va :=
    mapping_congr laid.space.formed.shaped tables inside
  have only {i : Slot} (member : i ∈ [c]) : i = c := List.mem_singleton.mp member
  refine ⟨?_,?_,?_,?_,?_,List.mem_singleton.mpr rfl,?_,?_,?_,?_,?_,?_,?_⟩
  · exact fun f structural => pages f (laid.new f structural) (laid.kept f structural)
  · rw [space]
    refine ⟨laid.space.formed.congr tables,?_⟩
    intro va inside page flags here
    rw [mappings inside] at here
    exact pages _ (laid.listed va inside page flags here).1 (laid.space.held va inside page flags here)
  · rw [space]
    exact laid.root
  · intro va inside page flags here
    rw [space,mappings inside] at here
    exact (laid.listed va inside page flags here).2.1
  · intro va inside page flags here
    rw [space,mappings inside] at here
    obtain ⟨_,_,p,member,frame,place⟩ := laid.listed va inside page flags here
    obtain ⟨j,bound,frame',place'⟩ := pages_listed member
    have count : (s.processes c).userPageCount = program.pages.length := congrArg Home.userPageCount home
    refine .inl ⟨j,?_,?_,?_⟩
    · exact count.symm ▸ bound
    · exact (congrFun (congrArg Home.userPages home) j).trans ((if_pos bound).trans (frame'.trans frame))
    · exact (congrFun (congrArg Home.userPageVas home) j).trans ((if_pos bound).trans (place'.trans place))
  · exact fun i member => only member ▸ live
  · exact fun i member => only member ▸ rfl
  · exact fun i member => only member ▸ rfl
  · exact fun i member => only member ▸ pending
  · exact fun i member other => absurd (only member) other
  · intro f some
    obtain ⟨before,used⟩ := deferred f some
    refine ⟨used,?_,?_⟩
    · by_contra structural
      rw [laid.new f structural] at before
      cases before
    · intro va inside page flags here
      rw [space,mappings inside] at here
      rintro rfl
      rw [(laid.listed va inside page flags here).1] at before
      cases before
  · intro i member caller
    obtain rfl := only member
    exact (current caller).trans space.symm

theorem execRunFile_settled {s s' : System} {ram : RamFs} {name : List Byte} {pid : Nat} {i : Slot} (occupied : Occupied s)
    (slot : findFreeSlot s = some i) (done : execRunFile s ram 0 name = (s',some pid)) :
    ∃ role, Settled role ⟨s',i,[i]⟩ := by
  unfold execRunFile at done
  cases load : loadImage s.vm ram name with
  | mk v result =>
    cases result with
    | none => simp [load] at done
    | some program =>
      obtain ⟨role,laid⟩ := loadImage_laid load
      have slot' : findFreeSlot {s with vm := v} = some i := slot
      simp only [load,processCreateExVas,processCreateExVasLocked,slot'] at done
      split_ifs at done
      · cases done
      cases stack : pageAlloc v.pages with
      | none => simp [stack] at done
      | some block =>
        obtain ⟨frames,page⟩ := block
        simp only [stack] at done
        obtain ⟨frame,rfl,takes⟩ := pageAlloc_takes stack
        obtain ⟨rfl,_⟩ := Prod.mk.inj done
        have record {s : System} {p : Process} : (setProcess s i p).processes i = p := by
          rw [setProcess_processes,Function.update_self]
        refine ⟨role,laid_settled laid (congrArg Process.home record) ?_ ?_ ?_ ?_ ?_ ?_⟩
        · rw [record]
          exact (by decide : State.ready ≠ State.unused)
        · rw [record]
          rfl
        · exact fun f _ used => takes.taken used
        · exact fun _ _ => rfl
        · rintro f ⟨some,_⟩
          rw [record] at some
          exact absurd rfl some
        · intro caller
          exact absurd (findFreeSlot_unused slot) (occupied i caller)

/-- What becomes of the task whose program is replaced: only what it gives back changes. -/
structure Replaces (s s' : System) (c : Slot) (new : Home) : Prop where
  home : (s'.processes c).home = new
  live : (s'.processes c).state = (s.processes c).state
  pending : (s'.processes c).reapPending = false
  deferred : (s'.processes c).deferredKernelStack = (s.processes c).kernelStackTop
  directory : s'.vm.currentDirectory 0 = new.pageDirectory
  mem : ∀ f, ¬ Gives s.vm.mem (s.processes c) f → s'.vm.mem f = s.vm.mem f
  taken : ∀ f, ¬ Gives s.vm.mem (s.processes c) f → isFree s.vm.pages f = false → isFree s'.vm.pages f = false

theorem freePages_apart {pages : List Nat} {f : Nat} (apart : ∀ page ∈ pages, page ≠ 0 → f ≠ page / pageSize) (a : Allocator) :
    isFree (freePages a pages) f = isFree a f := by
  unfold freePages
  induction pages generalizing a with
  | nil => rfl
  | cons page rest ih =>
    rw [List.foldl_cons,ih (List.forall_mem_cons.mp apart).2]
    split
    · rfl
    next some => exact pageFree_other a (apart page List.mem_cons_self some)

/-- The memory of a task that has given back its program. -/
def release (vm : Vm) (p : Process) (pd : Nat) : Vm :=
  let vm := {vm with pages := freePages vm.pages (ownedPages p)}
  if p.pageDirectory ≠ 0 ∧ p.pageDirectory ≠ pd then pagingDestroyAddressSpace vm p.pageDirectory else vm

theorem release_apart {vm : Vm} {p : Process} {f : Nat} (apart : ¬ Gives vm.mem p f) (pd : Nat) :
    (release vm p pd).mem f = vm.mem f ∧ isFree (release vm p pd).pages f = isFree vm.pages f := by
  have pages : isFree (freePages vm.pages (ownedPages p)) f = isFree vm.pages f :=
    freePages_apart (fun page member some own => apart (.inl ⟨page,member,some,own⟩)) vm.pages
  unfold release
  dsimp only
  split
  next space =>
    have tables : ∀ t ∈ userTables ({vm with pages := freePages vm.pages (ownedPages p)} : Vm).mem p.pageDirectory,
        f ≠ t / pageSize := fun t member own => apart (.inr ⟨space.1,.inl ⟨t,member,own⟩⟩)
    obtain ⟨mem,free⟩ := pagingDestroyAddressSpace_apart tables fun i bound own => apart (.inr ⟨space.1,.inr ⟨i,bound,own⟩⟩)
    exact ⟨mem,free.trans pages⟩
  · exact ⟨rfl,pages⟩

theorem release_directory (vm : Vm) (p : Process) (pd : Nat) :
    (release vm p pd).currentDirectory = vm.currentDirectory := by
  unfold release pagingDestroyAddressSpace
  dsimp only
  split_ifs <;> rfl

theorem processExecReplaceCurrent_replaces {s s' : System} {c : Slot} {program : Loaded} (caller : currentLocal s 0 = some c)
    (done : processExecReplaceCurrent s 0 program.entry program.stack program.pd (pageArray program.pages)
      (vaArray program.pages) program.pages.length = some s') : ∃ top, Replaces s s' c (programHome program top) := by
  unfold processExecReplaceCurrent at done
  simp only [caller] at done
  by_cases refused : c = bootstrap ∨ program.pd = 0 ∨ program.pages.length = 0 ∨ program.pages.length > maxUserPages
  · rw [if_pos refused] at done
    cases done
  rw [if_neg refused] at done
  cases stack : pageAlloc s.vm.pages with
  | none => simp [stack] at done
  | some block =>
    obtain ⟨frames,page⟩ := block
    obtain ⟨frame,rfl,takes⟩ := pageAlloc_takes stack
    simp only [stack,tssSetKernelStack_vm] at done
    have root : ¬ program.pd = 0 := fun null => refused (.inr (.inl null))
    have record {s : System} {p : Process} : (setProcess s c p).processes c = p := by
      rw [setProcess_processes,Function.update_self]
    obtain ⟨vm,switched⟩ : ∃ vm, vm = pagingSwitchAddressSpace {s.vm with pages := frames} 0 program.pd := ⟨_,rfl⟩
    simp only [← switched] at done
    have memory : vm.mem = s.vm.mem ∧ vm.pages = frames ∧ vm.currentDirectory 0 = program.pd := by
      rw [switched,pagingSwitchAddressSpace,if_neg root]
      exact ⟨rfl,rfl,Function.update_self 0 program.pd s.vm.currentDirectory⟩
    have apart (f : Nat) (outside : ¬ Gives s.vm.mem (s.processes c) f) :
        (release vm (s.processes c) program.pd).mem f = vm.mem f ∧
          isFree (release vm (s.processes c) program.pd).pages f = isFree vm.pages f :=
      release_apart (by rwa [memory.1]) program.pd
    refine ⟨frame * pageSize + 4096,?_⟩
    cases done
    refine ⟨?_,?_,?_,?_,?_,?_,?_⟩
    · rw [record]
      rfl
    · rw [record]
      rfl
    · rw [record]
      rfl
    · rw [record]
      rfl
    · exact (congrFun (release_directory vm (s.processes c) program.pd) 0).trans memory.2.2
    · intro f outside
      exact (apart f outside).1.trans (congrFun memory.1 f)
    · intro f outside used
      refine (apart f outside).2.trans ?_
      rw [memory.2.1]
      exact takes.taken used

theorem userTables_congr {m m' : Mem} {pd : Nat} (aligned : pd % pageSize = 0)
    (same : ∀ i < processPagingPages, m' ((pd + i * pageSize) / pageSize) = m ((pd + i * pageSize) / pageSize)) :
    userTables m' pd = userTables m pd := by
  unfold userTables
  refine List.flatMap_congr fun i row => List.filterMap_congr fun j column => ?_
  rw [List.mem_range] at row column
  have place : (pd + (i+1) * pageSize) % pageSize = 0 := by rw [Nat.add_mul_mod_self_right,aligned]
  have bound : i + 1 < processPagingPages := by
    simp only [processPagingPages]
    omega
  rw [read_word m' place column,read_word m place column,word,word,same (i+1) bound]

theorem gives_congr {m m' : Mem} {p : Process} (aligned : p.pageDirectory % pageSize = 0)
    (same : ∀ f, Gives m p f → m' f = m f) (f : Nat) : Gives m' p f ↔ Gives m p f := by
  have tables (space : p.pageDirectory ≠ 0) : userTables m' p.pageDirectory = userTables m p.pageDirectory :=
    userTables_congr aligned fun i bound => same _ (.inr ⟨space,.inr ⟨i,bound,rfl⟩⟩)
  unfold Gives
  refine or_congr Iff.rfl (and_congr_right fun space => ?_)
  rw [tables space]

theorem execReplaceCurrent_settled {s s' : System} {ram : RamFs} {name : List Byte} {c : Slot} (occupied : Occupied s)
    (caller : currentLocal s 0 = some c) (resides : Resides s.vm (s.processes c))
    (done : execReplaceCurrent s ram 0 name = (s',true)) : ∃ role, Settled role ⟨s',c,[c]⟩ := by
  unfold execReplaceCurrent at done
  cases load : loadImage s.vm ram name with
  | mk v result =>
    cases result with
    | none => simp [load] at done
    | some program =>
      obtain ⟨role,laid⟩ := loadImage_laid load
      have caller' : currentLocal {s with vm := v} 0 = some c := caller
      simp only [load] at done
      cases replace : processExecReplaceCurrent {s with vm := v} 0 program.entry program.stack program.pd
          (pageArray program.pages) (vaArray program.pages) program.pages.length with
      | none => simp [replace] at done
      | some s₁ =>
        simp only [replace] at done
        obtain ⟨rfl,_⟩ := Prod.mk.inj done
        obtain ⟨top,replaces⟩ := processExecReplaceCurrent_replaces caller' replace
        -- what the task gives back was in use before the load, so it is none of the new frames
        have gives (f : Nat) : Gives v.mem (s.processes c) f ↔ Gives s.vm.mem (s.processes c) f :=
          gives_congr resides.aligned (fun f own => laid.contents f (resides.program f own)) f
        have new (f : Nat) (free : isFree s.vm.pages f = true) : ¬ Gives v.mem (s.processes c) f := by
          rw [gives]
          intro own
          rw [resides.program f own] at free
          cases free
        refine ⟨role,laid_settled laid replaces.home ?_ replaces.pending ?_ ?_ ?_ fun _ => replaces.directory⟩
        · rw [replaces.live]
          exact occupied c caller
        · exact fun f free used => replaces.taken f (new f free) used
        · exact fun f free => replaces.mem f (new f free)
        · rintro f ⟨some,frame⟩
          rw [replaces.deferred] at some frame
          obtain ⟨used,apart⟩ := resides.stack f some frame
          exact ⟨used,replaces.taken f ((gives f).not.mpr apart) (laid.taken f used)⟩

theorem Begins.settled {t : Group} (begins : Begins t) : ∃ role, Settled role t := by
  cases begins with
  | runFile occupied slot done => exact execRunFile_settled occupied slot done
  | replaced occupied caller resides done => exact execReplaceCurrent_settled occupied caller resides done

/-- Every group that begins with the load of an image: its pages are its own and in use, and
a creation leaves them as they are but where its stack has no place. -/
theorem thread_stacks_kept {t : Group} {moves : List Move} (begins : Begins t)
    (proper : Meets Group.step Group.Proper t moves) (uncollected : Meets Group.step Group.Uncollected t moves) :
    (run Group.step t moves).Owned ∧ ∀ entry, (run Group.step t moves).Proper (.createUserThread entry) →
      ((run Group.step t moves).Undisturbed entry ↔ ¬ Clobbers (run Group.step t moves).system entry) := by
  obtain ⟨role,settled⟩ := Settled.run begins.settled proper uncollected
  exact ⟨settled.bounded,fun entry => settled.undisturbed⟩

end Start

section Image

/-- What can be computed of `Proper`. -/
def Group.proper (t : Group) : Move → Bool
  | .schedule _ _ => (currentLocal t.system 0).all fun c => t.members.contains c ||
      !(t.system.processes c).reapPending && decide ((t.system.processes c).deferredKernelStack = 0)
  | .createUserThread _ | .joinThread _ _ => (currentLocal t.system 0).any t.members.contains
  | .exit code => (currentLocal t.system 0).any (fun c => t.members.contains c && (t.system.processes c).isThread) &&
      (joinedBy t.system (.exit code)).all t.members.contains
  | .elsewhere _ => false

theorem proper_computed {t : Group} {move : Move} (checked : t.proper move = true) : t.Proper move := by
  cases move with
  | schedule acquired frame =>
    intro c caller outside
    simpa [Group.proper,caller,outside] using checked
  | createUserThread entry => simpa [Group.proper,Group.Proper,Option.any_eq_true,and_comm] using checked
  | exit code =>
    simp only [Group.proper,Bool.and_eq_true,Option.any_eq_true,Option.all_eq_true,List.contains_iff_mem] at checked
    obtain ⟨⟨c,caller,member,thread⟩,joiner⟩ := checked
    exact ⟨⟨c,member,caller,thread⟩,joiner⟩
  | joinThread tid statusPtr => simpa [Group.proper,Group.Proper,Option.any_eq_true,and_comm] using checked
  | elsewhere s => cases checked

/-- An image whose only segment is a page of zeros at `va`. -/
def imageAt (va : Nat) : List Byte :=
  [0x7F,0x45,0x4C,0x46,1,1,1,0,0,0,0,0,0,0,0,0] ++
    ([0x30002,1,va,52,0,0,0x200034,1,0].flatMap bytes32 ++ [1,0,va,0,0,0x1000,7,0].flatMap bytes32)

def imageFile (va : Nat) : RamFs where
  programs := fun _ => []
  files := fun _ => ⟨[0x74],fun i => (imageAt va).getD i 0,(imageAt va).length⟩
  count := 1

def imageStart (va : Nat) : System := (execRunFile (boot blank 0x1000 0x2000) (imageFile va) 0 [0x74]).1

def imageGroup (va : Nat) : Group := ⟨imageStart va,1,[1]⟩

theorem imageGroup_begins {va : Nat} (loads : (execRunFile (boot blank 0x1000 0x2000) (imageFile va) 0 [0x74]).2 = some 2) :
    Begins (imageGroup va) := by
  have occupied : ∀ c, currentLocal (boot blank 0x1000 0x2000) 0 = some c → Live (boot blank 0x1000 0x2000) c := by
    decide +kernel
  have slot : findFreeSlot (boot blank 0x1000 0x2000) = some 1 := by decide +kernel
  have done : execRunFile (boot blank 0x1000 0x2000) (imageFile va) 0 [0x74] = (imageStart va,some 2) := by
    rw [imageStart,← loads]
  unfold imageGroup
  exact .runFile occupied slot done

theorem userBase_loads : (execRunFile (boot blank 0x1000 0x2000) (imageFile userBase) 0 [0x74]).2 = some 2 := by decide +kernel

instance (t : Group) : (move : Move) → Decidable (t.Uncollected move)
  | .joinThread tid statusPtr => inferInstanceAs (Decidable (deadThread t.system tid statusPtr = none))
  | .schedule _ _ | .createUserThread _ | .exit _ | .elsewhere _ => isTrue trivial

def ticks (n : Nat) : List Move := List.replicate n (.schedule true zeroFrame)

/-- A thread is joined while it runs. -/
def joinFirst : List Move := ticks 1 ++ [.createUserThread userBase,.joinThread 2 userBase] ++ ticks 1 ++ [.exit 7] ++ ticks 2

/-- A thread is joined after its end. -/
def joinLast : List Move := ticks 1 ++ [.createUserThread userBase] ++ ticks 8 ++ [.exit 7] ++ ticks 2 ++ [.joinThread 2 userBase]

theorem meets_proper {t : Group} {moves : List Move} (checked : Meets Group.step (fun t move => t.proper move = true) t moves) :
    Meets Group.step Group.Proper t moves := checked.mono fun _ _ => proper_computed

theorem stacks_kept_joinFirst : (run Group.step (imageGroup userBase) joinFirst).Owned := by
  have proper : Meets Group.step (fun t move => t.proper move = true) (imageGroup userBase) joinFirst := by decide +kernel
  have uncollected : Meets Group.step Group.Uncollected (imageGroup userBase) joinFirst := by decide +kernel
  exact (thread_stacks_kept (imageGroup_begins userBase_loads) (meets_proper proper) uncollected).1

/-- The join leaves the stack mapped in a frame that is free, and the stack of a thread in
slot 2 takes the place of a page of the image. -/
theorem thread_stacks_fail :
    (Begins (imageGroup userBase) ∧ Meets Group.step Group.Proper (imageGroup userBase) joinLast ∧
        ¬ (run Group.step (imageGroup userBase) joinLast).Owned) ∧
      Begins (imageGroup 0xBFFDB000) ∧ Meets Group.step Group.Proper (imageGroup 0xBFFDB000) (ticks 1) ∧
        (run Group.step (imageGroup 0xBFFDB000) (ticks 1)).Proper (.createUserThread 0xBFFDB000) ∧
        ¬ (run Group.step (imageGroup 0xBFFDB000) (ticks 1)).Undisturbed 0xBFFDB000 := by
  constructor
  · have proper : Meets Group.step (fun t move => t.proper move = true) (imageGroup userBase) joinLast := by decide +kernel
    refine ⟨imageGroup_begins userBase_loads,meets_proper proper,?_⟩
    intro owned
    have dangles : (pagingGetUserPage (run Group.step (imageGroup userBase) joinLast).system.vm
        (run Group.step (imageGroup userBase) joinLast).space (threadStackVaForSlot 2)).any (fun page =>
          isFree (run Group.step (imageGroup userBase) joinLast).system.vm.pages (page.1 / pageSize)) = true := by decide +kernel
    obtain ⟨⟨page,flags⟩,found,free⟩ := (Option.any_eq_true _ _).mp dangles
    rw [(owned _ page flags found).1] at free
    cases free
  · have loads : (execRunFile (boot blank 0x1000 0x2000) (imageFile 0xBFFDB000) 0 [0x74]).2 = some 2 := by decide +kernel
    have proper : Meets Group.step (fun t move => t.proper move = true) (imageGroup 0xBFFDB000)
        (ticks 1 ++ [.createUserThread 0xBFFDB000]) := by decide +kernel
    obtain ⟨first,last,_⟩ := (meets_append _ _ _ _ _).mp (meets_proper proper)
    refine ⟨imageGroup_begins loads,first,last,?_⟩
    intro same
    have changed : (pagingGetUserPage (run Group.step (imageGroup 0xBFFDB000) (ticks 1)).system.vm
          (run Group.step (imageGroup 0xBFFDB000) (ticks 1)).space 0xBFFDB000).any (fun page =>
        ((pagingGetUserPage ((run Group.step (imageGroup 0xBFFDB000) (ticks 1)).step (.createUserThread 0xBFFDB000)).system.vm
          (run Group.step (imageGroup 0xBFFDB000) (ticks 1)).space 0xBFFDB000).map Prod.fst != some page.1)) = true := by
      decide +kernel
    obtain ⟨page,found,other⟩ := (Option.any_eq_true _ _).mp changed
    rw [same _ page found] at other
    simp at other

end Image

end LionOS.Sharing

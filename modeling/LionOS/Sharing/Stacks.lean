import LionOS.Calls.Copyouts
import LionOS.Processes.Estates
import LionOS.Sharing.Images
import LionOS.Spaces.Lifetime

/-! The stacks of the threads of one program: which frames its address space maps while they
are created, exit and are joined. -/
namespace LionOS.Sharing
open LionOS.Memory LionOS.Physical LionOS.Paging LionOS.Processes LionOS.Files LionOS.Exec LionOS.Calls LionOS.Library

/-- A process with the slots of its threads and of itself. -/
structure Group where
  system : System
  leader : Slot
  members : List Slot

/-- The address space of the group. -/
def Group.space (t : Group) : Nat := (t.system.processes t.leader).pageDirectory

/-- What the tasks of the group do, the switches between tasks, and what everybody else does. -/
inductive Move where
  | schedule (acquired : Bool) (frame : Frame)
  | createUserThread (entry : Nat)
  | exit (code : Nat)
  | joinThread (tid statusPtr : Nat)
  | elsewhere (s : System)

def Move.perform (s : System) : Move → System
  | .schedule acquired frame => step s (.schedule acquired frame)
  | .createUserThread entry => step s (.createUserThread entry)
  | .exit code => step s (.exit code)
  | .joinThread tid statusPtr => step s (.joinThread tid statusPtr)
  | .elsewhere s => s

/-- The slot that a creation takes. -/
def Move.slot (s : System) : Move → Option Slot
  | .createUserThread _ => findFreeSlot s
  | _ => none

def Group.step (t : Group) (move : Move) : Group where
  system := move.perform t.system
  leader := t.leader
  members := ((move.slot t.system).toList ++ t.members).filter fun i =>
    decide (((move.perform t.system).processes i).state ≠ .unused)

/-- The frame holds the root, a directory or a table of the space. -/
def Part (m : Mem) (pd f : Nat) : Prop :=
  f = pd / pageSize ∨ ∃ va < userLimit, (pdPtr m pd (pdptIndex va) ≠ 0 ∧ f = pdPtr m pd (pdptIndex va) / pageSize) ∨
    ∃ t, tableOf m pd va = some t ∧ f = t / pageSize

/-- The frame holds a page of the space. -/
def Maps (vm : Vm) (pd f : Nat) : Prop := ∃ va page flags, pagingGetUserPage vm pd va = some (page,flags) ∧ f = page / pageSize

/-- The kernel stack that a task still has to give back. -/
def Deferred (p : Process) (f : Nat) : Prop := p.deferredKernelStack ≠ 0 ∧ f = (p.deferredKernelStack - 4096) / pageSize

/-- What other tasks, the programs and the rest of the kernel do: they neither free the frames
of the group nor store to its tables, and its tasks live on. -/
structure Spares (t : Group) (s : System) : Prop where
  live : ∀ i ∈ t.members, (s.processes i).state ≠ .unused
  estates : ∀ i ∈ t.members, (s.processes i).estate = (t.system.processes i).estate
  tables : ∀ f, Part t.system.vm.mem t.space f → s.vm.mem f = t.system.vm.mem f ∧ isFree s.vm.pages f = false
  pages : ∀ f, Maps t.system.vm t.space f → isFree s.vm.pages f = false
  deferred : ∀ f, Deferred (t.system.processes t.leader) f → isFree s.vm.pages f = false
  current : ∀ c ∈ t.members, currentLocal s 0 = some c → s.vm.currentDirectory 0 = t.space

/-- The calls are those of a task of the group, only threads exit, and what a switch or an
exit means to tasks outside of the group is left to them. -/
def Group.Proper (t : Group) : Move → Prop
  | .schedule _ _ => ∀ c, currentLocal t.system 0 = some c → c ∉ t.members →
      (t.system.processes c).reapPending = false ∧ (t.system.processes c).deferredKernelStack = 0
  | .createUserThread _ | .joinThread _ _ => ∃ c ∈ t.members, currentLocal t.system 0 = some c
  | .exit code => (∃ c ∈ t.members, currentLocal t.system 0 = some c ∧ (t.system.processes c).isThread = true) ∧
      ∀ w, joinedBy t.system (.exit code) = some w → w ∈ t.members
  | .elsewhere s => Spares t s

/-- The join finds no dead thread that it could collect at once. -/
def Group.Uncollected (t : Group) : Move → Prop
  | .joinThread tid statusPtr => deadThread t.system tid statusPtr = none
  | _ => True

/-- A page of the image, or the stack of a thread that has not been reaped. -/
def Group.Holds (t : Group) (va page : Nat) : Prop :=
  (∃ j < (t.system.processes t.leader).userPageCount, (t.system.processes t.leader).userPages j = page ∧
      (t.system.processes t.leader).userPageVas j = pageOf va) ∨
    ∃ i, Thread t.system i ∧ (t.system.processes i).threadGroupPid = (t.system.processes t.leader).threadGroupPid ∧
      (t.system.processes i).threadStackPage = page ∧ (t.system.processes i).threadStackVa = pageOf va

open Classical in
/-- The roles of the frames that the space consists of. -/
noncomputable def bare (role : Nat → Role) (m : Mem) (pd : Nat) : Nat → Role := fun f =>
  if Part m pd f then role f else .data

/-- What `Holds` says, of the tasks that are known to be members. -/
def Group.Keeps (t : Group) (va page : Nat) : Prop :=
  (∃ j < (t.system.processes t.leader).userPageCount, (t.system.processes t.leader).userPages j = page ∧
      (t.system.processes t.leader).userPageVas j = pageOf va) ∨
    ∃ i ∈ t.members, (t.system.processes i).isThread = true ∧ (t.system.processes i).threadStackPage = page ∧
      (t.system.processes i).threadStackVa = pageOf va

/-- Every page that the group can reach is in use and its own. -/
def Group.Owned (t : Group) : Prop := ∀ va page flags, pagingGetUserPage t.system.vm t.space va = some (page,flags) →
  isFree t.system.vm.pages (page / pageSize) = false ∧ t.Holds va page

/-- The creation of a thread leaves all pages as they are that are mapped. -/
def Group.Undisturbed (t : Group) (entry : Nat) : Prop := ∀ va page, pagingGetUserPage t.system.vm t.space va = some page →
  pagingGetUserPage (t.step (.createUserThread entry)).system.vm t.space va = some page

def twoFrames (a : Allocator) : Bool :=
  match pageAlloc a with
  | none => false
  | some (a,_) => (pageAlloc a).isSome

/-- The creation has what it needs, and something is mapped where it puts the stack. -/
def Clobbers (s : System) (entry : Nat) : Prop :=
  entry ≠ 0 ∧ ∃ c i, currentLocal s 0 = some c ∧ c ≠ bootstrap ∧ findFreeSlot s = some i ∧ twoFrames s.vm.pages = true ∧
    (pagingGetUserPage s.vm (s.processes c).pageDirectory (threadStackVaForSlot i)).isSome = true

/-- The invariant of all runs. Only the task that the image was loaded for can have a kernel
stack that is still to be given back. -/
structure Settled (role : Nat → Role) (t : Group) : Prop where
  kept : Kept role t.system.vm.pages
  space : Space role t.system.vm t.space
  root : t.space ≠ 0
  plain : ∀ va < userLimit, ∀ page flags, mapping t.system.vm.mem t.space va = some (page,flags) → has flags pteCow = false
  owned : ∀ va < userLimit, ∀ page flags, mapping t.system.vm.mem t.space va = some (page,flags) → t.Keeps va page
  leader : t.leader ∈ t.members
  live : ∀ i ∈ t.members, (t.system.processes i).state ≠ .unused
  directories : ∀ i ∈ t.members, (t.system.processes i).pageDirectory = t.space
  groups : ∀ i ∈ t.members, (t.system.processes i).threadGroupPid = (t.system.processes t.leader).threadGroupPid
  pending : ∀ i ∈ t.members, (t.system.processes i).reapPending = false
  others : ∀ i ∈ t.members, i ≠ t.leader → (t.system.processes i).deferredKernelStack = 0
  deferred : ∀ f, Deferred (t.system.processes t.leader) f → isFree t.system.vm.pages f = false ∧ role f = .data ∧
    ∀ va < userLimit, ∀ page flags, mapping t.system.vm.mem t.space va = some (page,flags) → page / pageSize ≠ f
  current : ∀ c ∈ t.members, currentLocal t.system 0 = some c → t.system.vm.currentDirectory 0 = t.space

theorem Settled.bounded {role : Nat → Role} {t : Group} (settled : Settled role t) : t.Owned := by
  intro va page flags found
  obtain ⟨inside,root⟩ := pagingGetUserPage_bounds found
  rw [pagingGetUserPage_mapping _ inside root] at found
  refine ⟨settled.space.held va inside page flags found,?_⟩
  rcases settled.owned va inside page flags found with image | ⟨i,member,thread,frame,place⟩
  · exact .inl image
  · exact .inr ⟨i,⟨settled.live i member,thread⟩,settled.groups i member,frame,place⟩

section Carry
variable {role : Nat → Role} {t : Group} {s : System}

/-- The state with another system, where all members live on. -/
def Group.at (t : Group) (s : System) : Group := {t with system := s}

theorem step_members {move : Move} (idle : ∀ i, move.slot t.system = some i → ((move.perform t.system).processes i).state = .unused)
    (live : ∀ i ∈ t.members, ((move.perform t.system).processes i).state ≠ .unused) :
    t.step move = t.at (move.perform t.system) := by
  have all : t.members.filter (fun i => decide (((move.perform t.system).processes i).state ≠ .unused)) = t.members :=
    List.filter_eq_self.mpr fun i member => decide_eq_true (live i member)
  have none : (move.slot t.system).toList.filter
      (fun i => decide (((move.perform t.system).processes i).state ≠ .unused)) = [] := by
    rw [List.filter_eq_nil_iff]
    intro i found
    simp [idle i (Option.mem_toList.mp found)]
  simp only [Group.step,List.filter_append,all,none,List.nil_append,Group.at]

theorem step_joined {move : Move} {i : Slot} (slot : move.slot t.system = some i)
    (taken : ((move.perform t.system).processes i).state ≠ .unused)
    (live : ∀ j ∈ t.members, ((move.perform t.system).processes j).state ≠ .unused) :
    t.step move = {t.at (move.perform t.system) with members := i::t.members} := by
  have all : t.members.filter (fun i => decide (((move.perform t.system).processes i).state ≠ .unused)) = t.members :=
    List.filter_eq_self.mpr fun j member => decide_eq_true (live j member)
  have one : (move.slot t.system).toList.filter
      (fun i => decide (((move.perform t.system).processes i).state ≠ .unused)) = [i] := by
    simp [slot,taken]
  simp only [Group.step,List.filter_append,all,one,List.cons_append,List.nil_append,Group.at]

/-- All members live on with what belongs to them, but for a kernel stack given back. -/
def Group.Last (t : Group) (s : System) : Prop :=
  ∀ i ∈ t.members, (s.processes i).state ≠ .unused ∧
    ∃ stack, (stack = (t.system.processes i).deferredKernelStack ∨ stack = 0) ∧
      (s.processes i).estate = {(t.system.processes i).estate with deferredKernelStack := stack}

theorem last_lives (live : ∀ i ∈ t.members, (t.system.processes i).state ≠ .unused) (lives : Lives t.system s) :
    t.Last s := fun i member => ⟨lives.live i (live i member),_,.inl rfl,lives.estates i⟩

theorem last_deferred (last : t.Last s) {i : Slot} (member : i ∈ t.members) {f : Nat} (after : Deferred (s.processes i) f) :
    Deferred (t.system.processes i) f := by
  obtain ⟨_,stack,given,own⟩ := last i member
  have retired : (s.processes i).deferredKernelStack = stack := congrArg Estate.deferredKernelStack own
  obtain ⟨some,frame⟩ := after
  rw [retired] at some frame
  rcases given with rfl | rfl
  · exact ⟨some,frame⟩
  · exact absurd rfl some

theorem Keeps.at {va page : Nat} (held : t.Keeps va page) (leader : t.leader ∈ t.members) (last : t.Last s) :
    (t.at s).Keeps va page := by
  obtain ⟨_,_,_,own⟩ := last t.leader leader
  have home := congrArg Estate.home own
  rcases held with ⟨j,bound,frame,place⟩ | ⟨i,member,thread,frame,place⟩
  · have count : (s.processes t.leader).userPageCount = (t.system.processes t.leader).userPageCount :=
      congrArg Home.userPageCount home
    refine .inl ⟨j,?_,?_,?_⟩
    · exact count.symm ▸ bound
    · exact (congrFun (congrArg Home.userPages home) j).trans frame
    · exact (congrFun (congrArg Home.userPageVas home) j).trans place
  · obtain ⟨_,_,_,same⟩ := last i member
    refine .inr ⟨i,member,?_,?_,?_⟩
    · exact (congrArg Estate.isThread same).trans thread
    · exact (congrArg Estate.threadStackPage same).trans frame
    · exact (congrArg Estate.threadStackVa same).trans place

/-- What leaves the frames and the tasks of the group alone. -/
theorem Settled.carry (settled : Settled role t) (last : t.Last s) (kept : Kept role s.vm.pages)
    (tables : ∀ f, (role f).space = some t.space → s.vm.mem f = t.system.vm.mem f)
    (held : ∀ f, Maps t.system.vm t.space f → isFree s.vm.pages f = false)
    (deferred : ∀ f, Deferred (s.processes t.leader) f → isFree s.vm.pages f = false)
    (current : ∀ c ∈ t.members, currentLocal s 0 = some c → s.vm.currentDirectory 0 = t.space) :
    Settled role (t.at s) := by
  obtain ⟨_,_,_,own⟩ := last t.leader settled.leader
  have space : (t.at s).space = t.space := congrArg (Home.pageDirectory ∘ Estate.home) own
  have mappings {va : Nat} (inside : va < userLimit) : mapping s.vm.mem t.space va = mapping t.system.vm.mem t.space va :=
    mapping_congr settled.space.formed.shaped tables inside
  have number : (s.processes t.leader).threadGroupPid = (t.system.processes t.leader).threadGroupPid :=
    congrArg Estate.threadGroupPid own
  refine ⟨kept,?_,?_,?_,?_,settled.leader,fun i member => (last i member).1,?_,?_,?_,?_,?_,?_⟩
  · rw [space]
    refine ⟨settled.space.formed.congr tables,?_⟩
    intro va inside page flags here
    rw [Group.at,mappings inside] at here
    refine held _ ⟨va,page,flags,?_,rfl⟩
    rw [pagingGetUserPage_mapping _ inside settled.root]
    exact here
  · rw [space]
    exact settled.root
  · intro va inside page flags
    rw [space,Group.at,mappings inside]
    exact settled.plain va inside page flags
  · intro va inside page flags here
    rw [space,Group.at,mappings inside] at here
    exact Keeps.at (settled.owned va inside page flags here) settled.leader last
  · intro i member
    obtain ⟨_,_,_,same⟩ := last i member
    rw [space]
    exact (congrArg (Home.pageDirectory ∘ Estate.home) same).trans (settled.directories i member)
  · intro i member
    obtain ⟨_,_,_,same⟩ := last i member
    exact (congrArg Estate.threadGroupPid same).trans ((settled.groups i member).trans number.symm)
  · intro i member
    obtain ⟨_,_,_,same⟩ := last i member
    exact (congrArg Estate.reapPending same).trans (settled.pending i member)
  · intro i member other
    obtain ⟨_,stack,given,same⟩ := last i member
    refine (congrArg Estate.deferredKernelStack same).trans ?_
    rcases given with rfl | rfl
    · exact settled.others i member other
    · rfl
  · intro f after
    obtain ⟨_,data,apart⟩ := settled.deferred f (last_deferred last settled.leader after)
    refine ⟨deferred f after,data,?_⟩
    intro va inside page flags here
    rw [space,Group.at,mappings inside] at here
    exact apart va inside page flags here
  · intro c member caller
    rw [space]
    exact current c member caller

/-- Where the tables and the allocator are as before. -/
theorem Settled.calm (settled : Settled role t) (last : t.Last s)
    (tables : ∀ f, (role f).space = some t.space → s.vm.mem f = t.system.vm.mem f)
    (pages : s.vm.pages = t.system.vm.pages)
    (current : ∀ c ∈ t.members, currentLocal s 0 = some c → s.vm.currentDirectory 0 = t.space) :
    Settled role (t.at s) := by
  refine settled.carry last ?_ tables ?_ ?_ current
  · rw [pages]
    exact settled.kept
  · rintro f ⟨va,page,flags,found,rfl⟩
    obtain ⟨inside,root⟩ := pagingGetUserPage_bounds found
    rw [pagingGetUserPage_mapping _ inside root] at found
    rw [pages]
    exact settled.space.held va inside page flags found
  · intro f after
    rw [pages]
    exact (settled.deferred f (last_deferred last settled.leader after)).1

end Carry

section Calls
variable {role : Nat → Role} {t : Group}

/-- A status word goes to a page of the space, never to its tables. -/
theorem writeUserU32_calm {vm : Vm} {pd : Nat} (space : Space role vm pd)
    (plain : ∀ va < userLimit, ∀ page flags, mapping vm.mem pd va = some (page,flags) → has flags pteCow = false)
    (ptr value : Nat) : (writeUserU32 vm pd ptr value).1.pages = vm.pages ∧
      (writeUserU32 vm pd ptr value).1.currentDirectory = vm.currentDirectory ∧
      ∀ f, (role f).space = some pd → (writeUserU32 vm pd ptr value).1.mem f = vm.mem f := by
  unfold writeUserU32
  by_cases refused : ptr = 0 ∨ ptr > 0xBFFFFFFC ∨ ptr % 4 ≠ 0
  · rw [if_pos refused]
    exact ⟨rfl,rfl,fun _ _ => rfl⟩
  · rw [if_neg refused]
    cases found : pagingGetUserPage vm pd (pageOf ptr) with
    | none => exact ⟨rfl,rfl,fun _ _ => rfl⟩
    | some page =>
      obtain ⟨physical,flags⟩ := page
      obtain ⟨inside,root⟩ := pagingGetUserPage_bounds found
      rw [pagingGetUserPage_mapping vm inside root] at found
      have aligned := mapping_aligned found
      dsimp only
      rw [if_neg (by rw [plain _ inside _ _ found]; nofun)]
      refine ⟨rfl,rfl,?_⟩
      intro f own
      have short : (bytes32 value).length = 4 := rfl
      refine writeBytes_frame vm.mem ?_ ?_
      · rw [short]
        simp only [pageSize] at *
        omega
      · rintro rfl
        have frame : (physical + ptr % pageSize) / 4096 = physical / pageSize := by
          simp only [pageSize] at *
          omega
        rw [frame,space.formed.pages _ inside _ _ found] at own
        cases own

/-- An exit or a join, of which a member of the group is told at most. -/
theorem Settled.informed (settled : Settled role t) {s : System} {receiver : Option Slot}
    (informs : Informs t.system s receiver) (member : ∀ w, receiver = some w → w ∈ t.members) : Settled role (t.at s) := by
  have current (c : Slot) (own : c ∈ t.members) (caller : currentLocal s 0 = some c) :
      t.system.vm.currentDirectory 0 = t.space := by
    simp only [currentLocal,informs.current] at caller
    exact settled.current c own caller
  have last : t.Last s := last_lives settled.live informs.lives
  rcases informs.memory with same | ⟨w,ptr,value,told,vm⟩
  · apply settled.calm last
    · exact fun f _ => by rw [same]
    · rw [same]
    · rw [same]
      exact current
  · rw [settled.directories w (member w told)] at vm
    obtain ⟨pages,directory,tables⟩ := writeUserU32_calm settled.space settled.plain ptr value
    apply settled.calm last
    · rw [vm]
      exact tables
    · rw [vm,pages]
    · rw [vm,directory]
      exact current

theorem Settled.freeDeferred (settled : Settled role t) {c : Slot}
    (proper : c ∉ t.members → (t.system.processes c).deferredKernelStack = 0) :
    Settled role (t.at (freeDeferred t.system c)) := by
  rcases freeDeferred_stack t.system c with same | ⟨some,address,stack,result⟩
  · rw [same]
    exact settled
  · have own : c = t.leader := by
      by_contra other
      by_cases member : c ∈ t.members
      · exact some (settled.others c member other)
      · exact some (proper member)
    subst own
    obtain ⟨_,data,apart⟩ := settled.deferred (address / pageSize) ⟨some,by rw [stack]⟩
    rw [result]
    have pages {f : Nat} (other : f ≠ address / pageSize) (used : isFree t.system.vm.pages f = false) :
        isFree (pageFree t.system.vm.pages address) f = false := (pageFree_other t.system.vm.pages other).trans used
    apply settled.carry
    · intro i member
      rw [setProcess_processes]
      by_cases own : i = t.leader
      · subst own
        rw [Function.update_self]
        exact ⟨settled.live t.leader member,0,.inr rfl,rfl⟩
      · rw [Function.update_of_ne own]
        exact ⟨settled.live i member,_,.inl rfl,rfl⟩
    · intro f structural
      refine pages ?_ (settled.kept f structural)
      rintro rfl
      exact structural data
    · exact fun _ _ => rfl
    · rintro f ⟨va,page,flags,found,rfl⟩
      obtain ⟨inside,root⟩ := pagingGetUserPage_bounds found
      rw [pagingGetUserPage_mapping _ inside root] at found
      exact pages (apart va inside page flags found) (settled.space.held va inside page flags found)
    · rintro f ⟨some,_⟩
      rw [setProcess_processes,Function.update_self] at some
      exact absurd rfl some
    · exact settled.current

theorem Settled.moved (settled : Settled role t) {s : System} (moves : Moves t.system s) : Settled role (t.at s) := by
  apply settled.calm (last_lives settled.live moves.lives)
  · exact fun f _ => by rw [moves.mem]
  · exact moves.pages
  · intro c member caller
    rcases moves.directory with ⟨same,directory⟩ | ⟨n,current,entered⟩
    · rw [same] at caller
      rw [directory]
      exact settled.current c member caller
    · obtain rfl : n = c := Option.some.inj (current.symm.trans caller)
      have space := settled.directories n member
      rw [← space]
      apply entered
      rw [space]
      exact settled.root

theorem Settled.scheduled (settled : Settled role t) {acquired : Bool} {frame : Frame}
    (proper : t.Proper (.schedule acquired frame)) : Settled role (t.at (processSchedule t.system 0 acquired frame).1) := by
  have unreaped (c : Slot) (caller : currentLocal t.system 0 = some c) : (t.system.processes c).reapPending = false := by
    by_cases member : c ∈ t.members
    · exact settled.pending c member
    · exact (proper c caller member).1
  obtain ⟨s,start,moves⟩ := processSchedule_moves unreaped acquired frame
  have ready : Settled role (t.at s) := by
    rcases start with rfl | ⟨c,caller,rfl⟩
    · exact settled
    · exact settled.freeDeferred fun outside => (proper c caller outside).2
  exact ready.moved moves

theorem bare_data {m : Mem} {pd f : Nat} (data : role f = .data) : bare role m pd f = .data := by
  unfold bare
  split
  · exact data
  · rfl

theorem Space.bare {vm : Vm} {pd : Nat} (space : Space role vm pd) : Space (Sharing.bare role vm.mem pd) vm pd := by
  have kept {f : Nat} (part : Part vm.mem pd f) : Sharing.bare role vm.mem pd f = role f := if_pos part
  obtain ⟨⟨aligned,root,directories,tables,pages⟩,held⟩ := space
  refine ⟨⟨aligned,?_,?_,?_,?_⟩,held⟩
  · rw [kept (.inl rfl)]
    exact root
  · intro va inside present
    rw [kept (.inr ⟨va,inside,.inl ⟨present,rfl⟩⟩)]
    exact directories va inside present
  · intro va inside table found
    rw [kept (.inr ⟨va,inside,.inr ⟨table,found,rfl⟩⟩)]
    exact tables va inside table found
  · intro va inside page flags here
    exact bare_data (pages va inside page flags here)

theorem bare_part (role : Nat → Role) {m : Mem} {pd f : Nat} (structural : bare role m pd f ≠ .data) : Part m pd f := by
  unfold bare at structural
  by_contra outside
  rw [if_neg outside] at structural
  exact structural rfl

theorem Settled.spared (settled : Settled role t) {s : System} (spares : Spares t s) :
    Settled (bare role t.system.vm.mem t.space) (t.at s) := by
  have linked : Settled (bare role t.system.vm.mem t.space) t := by
    refine {settled with kept := ?_,space := Space.bare settled.space,deferred := ?_}
    · intro f structural
      refine settled.kept f fun data => structural ?_
      exact bare_data data
    · intro f some
      obtain ⟨used,data,apart⟩ := settled.deferred f some
      exact ⟨used,bare_data data,apart⟩
  have last : t.Last s := fun i member => ⟨spares.live i member,_,.inl rfl,spares.estates i member⟩
  apply linked.carry last
  · intro f structural
    exact (spares.tables f (bare_part role structural)).2
  · intro f own
    refine (spares.tables f (bare_part role ?_)).1
    intro data
    rw [data] at own
    cases own
  · exact spares.pages
  · intro f some
    exact spares.deferred f (last_deferred last settled.leader some)
  · exact spares.current

end Calls

end LionOS.Sharing

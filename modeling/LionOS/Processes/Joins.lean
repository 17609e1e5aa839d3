import Mathlib.Data.Fintype.Card
import LionOS.Frames.Allocation
import LionOS.Processes.Identity

/-! Joins of threads: how often a join reports a thread, what it stores, and that it gives the
slot and the two stacks of the thread back. -/
namespace LionOS.Processes
open LionOS.Memory LionOS.Physical LionOS.Paging LionOS.Library

/-- The dead thread that a join collects at once. -/
def deadThread (s : System) (tid statusPtr : Nat) : Option Slot :=
  match currentLocal s 0 with
  | none => none
  | some c =>
    if (s.processes c).isThread = true ∨ tid = 0 ∨ statusPtr = 0 then none
    else match joinTarget s (s.processes c).threadGroupPid tid with
      | none => none
      | some z =>
        if (s.processes z).state = .zombie ∧
            (writeUserU32 s.vm (s.processes c).pageDirectory statusPtr (s.processes z).exitCode).2 = true then some z
        else none

/-- The thread whose tid a call delivers and the task whose join returns it: the caller,
or the task that the end of the thread releases from its join. -/
def joinReport (s : System) : Call → Option (Slot × Slot)
  | .joinThread tid statusPtr => do return (← deadThread s tid statusPtr,← currentLocal s 0)
  | call => do return (← victim s call,← joinedBy s call)

/-- A live record of a thread. -/
def Thread (s : System) (i : Slot) : Prop := (s.processes i).state ≠ .unused ∧ (s.processes i).isThread = true

instance Thread.decidable (s : System) (i : Slot) : Decidable (Thread s i) := inferInstanceAs (Decidable (_ ∧ _))

def threads (s : System) : Finset Slot := Finset.univ.filter (Thread s)

/-- A thread comes to life. -/
def starts (s : System) (call : Call) : Bool := decide (∃ i, ¬ Thread s i ∧ Thread (step s call) i)

structure Joins where
  system : System
  count : Slot → Nat
  joiner : Slot → Option Slot
  created : Nat
  joined : Nat

/-- What is counted of a slot starts anew with each task that it holds. -/
def joinStep (t : Joins) (call : Call) : Joins where
  system := step t.system call
  count i :=
    if (t.system.processes i).state = .unused then 0
    else t.count i + if (joinReport t.system call).map Prod.fst = some i then 1 else 0
  joiner i :=
    if (t.system.processes i).state = .unused then none
    else match joinReport t.system call with
      | some (z,c) => if z = i then some c else t.joiner i
      | none => t.joiner i
  created := t.created + if starts t.system call then 1 else 0
  joined := t.joined + if (joinReport t.system call).isSome then 1 else 0

def joinBoot (s : System) (idle schedule : Nat) : Joins := ⟨boot s idle schedule,fun _ => 0,fun _ => none,0,0⟩

/-- Each thread is reported once at most, its slot is free when the task that joined it runs
again, and where every thread has been joined none holds a slot. -/
structure JoinedOnce (t : Joins) : Prop where
  once : ∀ i, t.count i ≤ 1
  reclaimed : ∀ i j, t.joiner i = some j → currentLocal t.system 0 = some j → (t.system.processes i).state = .unused
  room : t.joined = t.created → ∀ i, ¬ Thread t.system i

/-- The frames at the addresses lose one reference for each time they are listed, and one
without a reference left is free again. -/
structure Released (a a' : Allocator) (addresses : List Nat) : Prop where
  count : ∀ address, pageRefcount a' address = pageRefcount a address - addresses.count address
  last : ∀ address, pageRefcount a address ≠ 0 → pageRefcount a' address = 0 → isFree a' (address / pageSize) = true
  free : ∀ p, isFree a p = true → isFree a' p = true

/-- The status word at `ptr` of the address space `pd` holds `value`; a copy-on-write page
has been resolved before the store. -/
def StatusStored (vm vm' : Vm) (pd ptr value : Nat) : Prop :=
  ∃ v physical flags, (v = vm ∨ pagingResolveCow vm pd (pageOf ptr) = some v) ∧
    pagingGetUserPage v pd (pageOf ptr) = some (physical,flags) ∧
    (List.range 4).map (fun i => readByte vm'.mem (physical + ptr % pageSize + i)) = bytes32 value

/-- What the join of a dead thread leaves: the exit code in the status word, a free slot and
both stacks given back. -/
structure Collects (s s' : System) (c z : Slot) (statusPtr : Nat) : Prop where
  status : StatusStored s.vm s'.vm (s.processes c).pageDirectory statusPtr (s.processes z).exitCode
  slot : (s'.processes z).state = .unused
  released : Released (writeUserU32 s.vm (s.processes c).pageDirectory statusPtr (s.processes z).exitCode).1.pages
    s'.vm.pages [(s.processes z).threadStackPage,(s.processes z).kernelStackTop - 4096]

section Frames
variable {a b c : Allocator} {first second : List Nat}

theorem pageRefcount_held {address : Nat} (held : pageRefcount a address ≠ 0) :
    managed address = true ∧ isFree a (address / pageSize) = false ∧
      pageRefcount a address = a.pageRefs (address / pageSize) := by
  unfold pageRefcount at held ⊢
  dsimp only at held ⊢
  split at held
  next valid =>
    rw [if_pos valid]
    rw [Bool.and_eq_true,Bool.not_eq_true'] at valid
    exact ⟨valid.1,valid.2,rfl⟩
  next => exact absurd rfl held

theorem Released.refl (a : Allocator) : Released a a [] :=
  ⟨fun _ => rfl,fun _ held gone => absurd gone held,fun _ => id⟩

theorem Released.trans (before : Released a b first) (after : Released b c second) :
    Released a c (first ++ second) := by
  constructor
  · intro address
    rw [after.count,before.count,List.count_append,Nat.sub_sub]
  · intro address held gone
    by_cases early : pageRefcount b address = 0
    · exact after.free _ (before.last address held early)
    · exact after.last address early gone
  · intro p free
    exact after.free p (before.free p free)

theorem managed_frame {x y : Nat} (first : managed x = true) (second : managed y = true)
    (same : x / pageSize = y / pageSize) : x = y := by
  simp only [managed,Bool.and_eq_true,decide_eq_true_eq] at first second
  have := Nat.div_add_mod x pageSize
  have := Nat.div_add_mod y pageSize
  rw [same] at *
  omega

theorem pageRefcount_unmanaged (a : Allocator) {address : Nat} (outside : managed address = false) :
    pageRefcount a address = 0 := by
  simp [pageRefcount,outside]

theorem pageFree_released (a : Allocator) (address : Nat) : Released a (pageFree a address) [address] := by
  by_cases held : managed address = true ∧ isFree a (address / pageSize) = false ∧ a.pageRefs (address / pageSize) ≠ 0
  · obtain ⟨inside,used,counted⟩ := held
    obtain ⟨refs,free,_⟩ := Frames.pageFree_held inside used counted
    constructor
    · intro other
      cases place : managed other with
      | false => rw [pageRefcount_unmanaged _ place,pageRefcount_unmanaged _ place,Nat.zero_sub]
      | true =>
        by_cases own : other = address
        · subst own
          have freed : isFree (pageFree a other) (other / pageSize) = decide (a.pageRefs (other / pageSize) = 1) := by
            rw [Bool.eq_iff_iff,free,used]
            simp
          by_cases last : a.pageRefs (other / pageSize) = 1
          · simp [pageRefcount,place,used,freed,last]
          · simp [pageRefcount,place,used,freed,refs,last]
        · have apart : other / pageSize ≠ address / pageSize := fun same => own (managed_frame place inside same)
          have kept : isFree (pageFree a address) (other / pageSize) = isFree a (other / pageSize) := by
            rw [Bool.eq_iff_iff,free]
            simp [apart]
          simp [pageRefcount,place,kept,refs,apart,Ne.symm own]
    · intro other held gone
      obtain ⟨place,taken,count⟩ := pageRefcount_held held
      by_contra used'
      rw [Bool.not_eq_true] at used'
      have counts : pageRefcount (pageFree a address) other = (pageFree a address).pageRefs (other / pageSize) := by
        simp [pageRefcount,place,used']
      rw [counts,refs] at gone
      split at gone
      next same =>
        have single : a.pageRefs (other / pageSize) = 1 := by omega
        rw [(free _).mpr (.inr ⟨same,single⟩)] at used'
        cases used'
      next =>
        rw [count] at held
        exact held gone
    · intro p vacant
      exact (free p).mpr (.inl vacant)
  · rw [Frames.pageFree_refused held]
    have none : pageRefcount a address = 0 := by
      by_contra present
      obtain ⟨inside,used,count⟩ := pageRefcount_held present
      rw [count] at present
      exact held ⟨inside,used,present⟩
    refine ⟨?_,fun _ held gone => absurd gone held,fun _ => id⟩
    intro other
    by_cases own : other = address
    · rw [own,none,Nat.zero_sub]
    · simp [Ne.symm own]

/-- The zero pointer is no frame of the allocator. -/
theorem unmanaged_released (a : Allocator) {address : Nat} (outside : managed address = false) :
    Released a a [address] := by
  have same : pageFree a address = a := by
    apply Frames.pageFree_refused
    rintro ⟨inside,_⟩
    rw [inside] at outside
    cases outside
  have released := pageFree_released a address
  rwa [same] at released

end Frames

section Status
variable {vm vm' : Vm} {pd ptr value : Nat}

theorem storePhysical_stored (vm : Vm) (pd ptr physical : Nat) (flags : Word) (value : Nat) :
    (List.range 4).map (fun i => readByte (storePhysical vm pd ptr physical flags value).mem
      (physical + ptr % pageSize + i)) = bytes32 value :=
  readBytes_writeBytes vm.mem (physical + ptr % pageSize) (bytes32 value)

theorem writeUserU32_status (written : writeUserU32 vm pd ptr value = (vm',true)) :
    StatusStored vm vm' pd ptr value := by
  unfold writeUserU32 at written
  split at written
  · cases written
  split at written
  · cases written
  next physical flags mapped =>
    split at written
    · split at written
      · cases written
      next v resolved =>
        split at written
        · cases written
        next place bits mapped' =>
          cases written
          exact ⟨v,place,bits,.inr resolved,mapped',storePhysical_stored v pd ptr place bits value⟩
    · cases written
      exact ⟨vm,physical,flags,.inl rfl,mapped,storePhysical_stored vm pd ptr physical flags value⟩

theorem StatusStored.memory {w : Vm} (stored : StatusStored vm vm' pd ptr value) (same : w.mem = vm'.mem) :
    StatusStored vm w pd ptr value := by
  obtain ⟨v,physical,flags,before,mapped,word⟩ := stored
  refine ⟨v,physical,flags,before,mapped,?_⟩
  rw [same]
  exact word

end Status

theorem freeStack_released (a : Allocator) (top : Nat) : Released a (freeStack a top) [top - 4096] := by
  unfold freeStack
  split
  next none =>
    rw [none]
    exact unmanaged_released a rfl
  next => exact pageFree_released a _

theorem reapProcess_thread {s : System} {z : Slot} (dead : (s.processes z).state = .zombie)
    (thread : (s.processes z).isThread = true) :
    ((reapProcess s z).processes z).state = .unused ∧ (reapProcess s z).vm.mem = s.vm.mem ∧
      Released s.vm.pages (reapProcess s z).vm.pages
        [(s.processes z).threadStackPage,(s.processes z).kernelStackTop - 4096] := by
  refine ⟨?_,?_,?_⟩
  · rw [reapProcess_record,if_pos ⟨dead,rfl⟩]
    rfl
  · unfold reapProcess
    dsimp only
    rw [if_neg (by simp [dead]),if_pos thread]
    rfl
  · have stack : Released s.vm.pages
        (if (s.processes z).threadStackPage = 0 then s.vm.pages
          else pageFree s.vm.pages (s.processes z).threadStackPage) [(s.processes z).threadStackPage] := by
      split
      next none =>
        rw [none]
        exact unmanaged_released _ rfl
      next => exact pageFree_released _ _
    unfold reapProcess
    dsimp only
    rw [if_neg (by simp [dead]),if_pos thread]
    exact Released.trans stack (freeStack_released _ _)

theorem deadThread_found {s : System} {tid statusPtr : Nat} {z : Slot} (found : deadThread s tid statusPtr = some z) :
    ∃ c, currentLocal s 0 = some c ∧ (s.processes z).state = .zombie ∧ (s.processes z).isThread = true ∧
      (s.processes z).tid = tid ∧ (processJoinThread s 0 tid statusPtr).2 = toI32 tid ∧
      Collects s (step s (.joinThread tid statusPtr)) c z statusPtr := by
  unfold deadThread at found
  cases caller : currentLocal s 0 with
  | none => simp [caller] at found
  | some c =>
    simp only [caller] at found
    split at found
    · cases found
    next valid =>
      cases target : joinTarget s (s.processes c).threadGroupPid tid with
      | none => simp [target] at found
      | some i =>
        simp only [target] at found
        split at found
        next collects =>
          cases found
          obtain ⟨dead,written⟩ := collects
          obtain ⟨_,thread,number⟩ := joinTarget_found target
          obtain ⟨vm,stored⟩ : ∃ vm, writeUserU32 s.vm (s.processes c).pageDirectory statusPtr
              (s.processes z).exitCode = (vm,true) := ⟨_,Prod.ext rfl written⟩
          have result : processJoinThread s 0 tid statusPtr = (reapProcess {s with vm} z,toI32 tid) := by
            unfold processJoinThread
            simp only [caller,if_neg valid,target,if_pos dead,stored]
          obtain ⟨slot,memory,released⟩ := reapProcess_thread (s := {s with vm}) dead thread
          refine ⟨c,rfl,dead,thread,number,by rw [result],?_,?_,?_⟩
          · refine (writeUserU32_status stored).memory ?_
            simp only [step,result]
            exact memory
          · simp only [step,result]
            exact slot
          · simp only [step,result,stored]
            exact released
        next => cases found

/-- A join is refused, blocks, or returns the tid of a dead thread and collects it. -/
def JoinCollects (s : System) (call : Call) : Prop :=
  ∀ tid statusPtr, call = .joinThread tid statusPtr →
    (processJoinThread s 0 tid statusPtr).2 = -1 ∨ (processJoinThread s 0 tid statusPtr).2 = waitBlocked ∨
      ∃ c z, currentLocal s 0 = some c ∧ deadThread s tid statusPtr = some z ∧ (s.processes z).tid = tid ∧
        (processJoinThread s 0 tid statusPtr).2 = toI32 tid ∧ Collects s (step s call) c z statusPtr

/-- No thread ends while a task waits for it in a join. -/
def Unawaited (s : System) (call : Call) : Prop := joinedBy s call = none

instance Unawaited.decidable (s : System) (call : Call) : Decidable (Unawaited s call) :=
  inferInstanceAs (Decidable (_ = _))

/-- A thread that has been reported is gone, and of the threads that were created those that
still hold a slot have not been joined. -/
structure Joined (t : Joins) : Prop where
  sound : Sound t.system
  blank : ∀ i, (t.system.processes i).state = .unused → (t.system.processes i).isThread = false
  once : ∀ i, t.count i = 0 ∨ t.count i = 1 ∧ (t.system.processes i).state = .unused
  gone : ∀ i j, t.joiner i = some j → (t.system.processes i).state = .unused
  balance : (threads t.system).card + t.joined ≤ t.created

theorem Joined.joinedOnce {t : Joins} (settled : Joined t) : JoinedOnce t := by
  refine ⟨?_,fun i j joined _ => settled.gone i j joined,?_⟩
  · intro i
    rcases settled.once i with none | ⟨one,_⟩ <;> omega
  · intro all i thread
    have held : i ∈ threads t.system := Finset.mem_filter.mpr ⟨Finset.mem_univ i,thread⟩
    have some := Finset.card_pos.mpr ⟨i,held⟩
    have balance := settled.balance
    omega

section Step
variable {s : System} {call : Call}

theorem joinReport_dead (unawaited : Unawaited s call) {z c : Slot} (report : joinReport s call = some (z,c)) :
    ∃ tid statusPtr, call = .joinThread tid statusPtr ∧ deadThread s tid statusPtr = some z ∧ currentLocal s 0 = some c := by
  cases call with
  | joinThread tid statusPtr =>
    cases found : deadThread s tid statusPtr with
    | none => simp [joinReport,found] at report
    | some i =>
      cases caller : currentLocal s 0 with
      | none => simp [joinReport,found,caller] at report
      | some j =>
        simp only [joinReport,found,caller,Option.pure_def,Option.bind_eq_bind,Option.bind_some,Option.some.injEq,
          Prod.mk.injEq] at report
        obtain ⟨rfl,rfl⟩ := report
        exact ⟨tid,statusPtr,rfl,found,rfl⟩
  | _ => simp [joinReport,show joinedBy s _ = none from unawaited] at report

theorem follows_thread (blank : ∀ i, (s.processes i).state = .unused → (s.processes i).isThread = false) {s' : System}
    {i : Slot} (follows : Follows s call i (s'.processes i)) (thread : Thread s' i) : Thread s i := by
  obtain ⟨live,kind⟩ := thread
  have old : (s.processes i).isThread = true := by
    generalize s'.processes i = p at follows live kind
    cases follows with
    | kept same => exact (congrArg Identity.isThread same).symm.trans kind
    | reaped _ free => exact absurd free live
    | moved _ _ _ same => exact (congrArg Identity.isThread same).symm.trans kind
  refine ⟨fun unused => ?_,old⟩
  rw [blank i unused] at old
  cases old

/-- A call adds one thread at most, and none where it reports one. -/
theorem step_threads (sound : Sound s) (blank : ∀ i, (s.processes i).state = .unused → (s.processes i).isThread = false)
    (call : Call) : (threads (step s call)).card ≤ (threads s).card + if starts s call then 1 else 0 := by
  rcases step_identity s sound call with (table | ⟨k,p,_,_,_,table⟩) | follows
  · have same : threads (step s call) = threads s := by
      ext i
      simp only [threads,Finset.mem_filter,Thread,table]
    rw [same]
    exact Nat.le_add_right _ _
  · have subset : threads (step s call) ⊆ insert k (threads s) := by
      intro i member
      simp only [threads,Finset.mem_filter,Finset.mem_univ,true_and,Finset.mem_insert] at member ⊢
      by_cases own : i = k
      · exact .inl own
      · refine .inr ?_
        unfold Thread at member ⊢
        rwa [table,Function.update_of_ne own] at member
    by_cases old : Thread s k ∨ ¬ Thread (step s call) k
    · have within : threads (step s call) ⊆ threads s := by
        intro i member
        rcases Finset.mem_insert.mp (subset member) with rfl | inside
        · rcases old with thread | none
          · exact Finset.mem_filter.mpr ⟨Finset.mem_univ i,thread⟩
          · exact absurd (Finset.mem_filter.mp member).2 none
        · exact inside
      exact (Finset.card_le_card within).trans (Nat.le_add_right _ _)
    · rw [not_or,not_not] at old
      have born : starts s call = true := decide_eq_true ⟨k,old⟩
      rw [if_pos born]
      exact (Finset.card_le_card subset).trans (Finset.card_insert_le k (threads s))
  · have subset : threads (step s call) ⊆ threads s := by
      intro i member
      have thread := (Finset.mem_filter.mp member).2
      exact Finset.mem_filter.mpr ⟨Finset.mem_univ i,follows_thread blank (follows i) thread⟩
    exact (Finset.card_le_card subset).trans (Nat.le_add_right _ _)

theorem deadThread_threads (blank : ∀ i, (s.processes i).state = .unused → (s.processes i).isThread = false)
    {tid statusPtr : Nat} {z : Slot} (found : deadThread s tid statusPtr = some z) :
    (threads (step s (.joinThread tid statusPtr))).card + 1 ≤ (threads s).card := by
  obtain ⟨c,_,dead,thread,_,_,collects⟩ := deadThread_found found
  apply Finset.card_lt_card
  rw [Finset.ssubset_iff_of_subset]
  · refine ⟨z,?_,?_⟩
    · refine Finset.mem_filter.mpr ⟨Finset.mem_univ z,?_,thread⟩
      rw [dead]
      nofun
    · intro member
      exact (Finset.mem_filter.mp member).2.1 collects.slot
  · intro i member
    have held := (Finset.mem_filter.mp member).2
    have follows : Follows s (.joinThread tid statusPtr) i ((step s (.joinThread tid statusPtr)).processes i) :=
      processJoinThread_follows s tid statusPtr i
    exact Finset.mem_filter.mpr ⟨Finset.mem_univ i,follows_thread blank follows held⟩

end Step

theorem joined_step {t : Joins} {call : Call} (settled : Joined t) (unawaited : Unawaited t.system call) :
    Joined (joinStep t call) := by
  refine ⟨sound_step settled.sound call,?_,?_,?_,?_⟩
  · intro i free
    rcases effect_unused (step_effect t.system settled.sound.counter call i) free with ⟨unused,same⟩ | cleared
    · exact (congrArg Identity.isThread same).trans (settled.blank i unused)
    · exact congrArg Identity.isThread cleared
  · intro i
    simp only [joinStep]
    split
    · exact .inl rfl
    next live =>
      have none : t.count i = 0 := by
        rcases settled.once i with none | ⟨_,free⟩
        · exact none
        · exact absurd free live
      rw [none,Nat.zero_add]
      split
      next report =>
        cases found : joinReport t.system call with
        | none => simp [found] at report
        | some pair =>
          obtain ⟨z,c⟩ := pair
          obtain rfl : z = i := by simpa [found] using report
          obtain ⟨tid,statusPtr,rfl,dead,_⟩ := joinReport_dead unawaited found
          obtain ⟨_,_,_,_,_,_,collects⟩ := deadThread_found dead
          exact .inr ⟨rfl,collects.slot⟩
      · exact .inl rfl
  · intro i j joined
    simp only [joinStep] at joined ⊢
    split at joined
    · cases joined
    next live =>
      split at joined
      next z c found =>
        split at joined
        next own =>
          subst own
          obtain ⟨tid,statusPtr,rfl,dead,_⟩ := joinReport_dead unawaited found
          obtain ⟨_,_,_,_,_,_,collects⟩ := deadThread_found dead
          exact collects.slot
        next => exact absurd (settled.gone i j joined) live
      next => exact absurd (settled.gone i j joined) live
  · have balance := settled.balance
    simp only [joinStep]
    cases found : joinReport t.system call with
    | none =>
      have bound := step_threads settled.sound settled.blank call
      simp only [Option.isSome_none,Bool.false_eq_true,if_false]
      omega
    | some pair =>
      obtain ⟨z,c⟩ := pair
      obtain ⟨tid,statusPtr,rfl,dead,_⟩ := joinReport_dead unawaited found
      have bound := deadThread_threads settled.blank dead
      simp only [Option.isSome_some,if_true]
      omega

theorem boot_joined (s : System) (idle schedule : Nat) : Joined (joinBoot s idle schedule) := by
  have process (i : Slot) : ((boot s idle schedule).processes i).isThread = false := by
    refine (congrArg Control.isThread (boot_record s idle schedule i)).trans ?_
    split <;> rfl
  refine ⟨boot_sound s idle schedule,fun i _ => process i,fun _ => .inl rfl,nofun,?_⟩
  have empty : threads (boot s idle schedule) = ∅ := by
    apply Finset.filter_eq_empty_iff.mpr
    intro i _ thread
    exact Bool.noConfusion ((process i).symm.trans thread.2)
  simp only [joinBoot,empty,Finset.card_empty,Nat.add_zero,Nat.le_refl]

theorem processJoinThread_collects (s : System) (call : Call) : JoinCollects s call := by
  rintro tid statusPtr rfl
  cases found : deadThread s tid statusPtr with
  | some z =>
    obtain ⟨c,caller,_,_,number,result,collects⟩ := deadThread_found found
    exact .inr (.inr ⟨c,z,caller,rfl,number,result,collects⟩)
  | none =>
    unfold deadThread at found
    unfold processJoinThread
    cases caller : currentLocal s 0 with
    | none => exact .inl rfl
    | some c =>
      simp only [caller] at found
      dsimp only
      split
      · exact .inl rfl
      next valid =>
        rw [if_neg valid] at found
        cases target : joinTarget s (s.processes c).threadGroupPid tid with
        | none => exact .inl rfl
        | some z =>
          simp only [target] at found
          dsimp only
          split
          next dead =>
            split
            · exact .inl rfl
            next vm stored => simp [dead,stored] at found
          next => exact .inr (.inl rfl)

/-- Where no thread of the run ends while a task waits for it in a join, a join reports each
thread once, stores its exit code and gives everything back. -/
theorem joins_collect (s : System) (idle schedule : Nat) (calls : List Call) (call : Call)
    (unawaited : Meets joinStep (fun t call => Unawaited t.system call) (joinBoot s idle schedule) (calls ++ [call])) :
    JoinedOnce (run joinStep (joinBoot s idle schedule) (calls ++ [call])) ∧
      JoinCollects (run joinStep (joinBoot s idle schedule) calls).system call := by
  have preserved (t : Joins) (call : Call) (settled : Joined t) (unawaited : Unawaited t.system call) :
      Joined (joinStep t call) := joined_step settled unawaited
  exact ⟨(unawaited.invariant preserved (boot_joined s idle schedule)).joinedOnce,processJoinThread_collects _ call⟩

/-- The process of slot 1 creates a thread, which gets slot 2. -/
def threaded : List Call := launch (boot blank 0x1000 0x2000) ++ [.createUserThread 0x8048000]

/-- The thread exits before the process joins it. -/
def exitThenJoin : List Call := threaded ++ yield ++ [.exit 7] ++ yield ++ yield

/-- The process joins the thread before that exits, and runs again. -/
def joinThenExit : List Call := threaded ++ [.joinThread 2 0x8048100] ++ yield ++ [.exit 7] ++ yield ++ yield

theorem exited_thread_joined :
    (JoinedOnce (run joinStep (joinBoot blank 0x1000 0x2000) (exitThenJoin ++ [.joinThread 2 0x8048100])) ∧
      JoinCollects (run joinStep (joinBoot blank 0x1000 0x2000) exitThenJoin).system (.joinThread 2 0x8048100)) ∧
      (run joinStep (joinBoot blank 0x1000 0x2000) (exitThenJoin ++ [.joinThread 2 0x8048100])).count 2 = 1 :=
  ⟨joins_collect blank 0x1000 0x2000 exitThenJoin (.joinThread 2 0x8048100) (by decide +kernel),by decide +kernel⟩

/-- The join that waits for the thread leaves it in its slot. -/
theorem joined_thread_stays :
    ¬ ∀ (s : System) (idle schedule : Nat) (calls : List Call),
      JoinedOnce (run joinStep (joinBoot s idle schedule) calls) := by
  intro once
  have returned : (run joinStep (joinBoot blank 0x1000 0x2000) joinThenExit).joiner 2 = some 1 ∧
      currentLocal (run joinStep (joinBoot blank 0x1000 0x2000) joinThenExit).system 0 = some 1 ∧
      ((run joinStep (joinBoot blank 0x1000 0x2000) joinThenExit).system.processes 2).state = .zombie := by
    decide +kernel
  have free := (once blank 0x1000 0x2000 joinThenExit).reclaimed 2 1 returned.1 returned.2.1
  rw [returned.2.2] at free
  cases free

/-- A second join returns the same tid again. -/
example : (run joinStep (joinBoot blank 0x1000 0x2000) (joinThenExit ++ [.joinThread 2 0x8048100])).count 2 = 2 := by
  decide +kernel

end LionOS.Processes

import LionOS.Processes.Identity

/-! Thread groups and address spaces: where the tasks of one group have one address space. -/
namespace LionOS.Processes
open LionOS.Memory LionOS.Physical LionOS.Paging LionOS.Library

/-- A task of user code; the threads of the kernel have no group. -/
def UserTask (s : System) (i : Slot) : Prop :=
  i ≠ bootstrap ∧ (s.processes i).state ≠ .unused ∧ (s.processes i).threadGroupPid ≠ 0

instance UserTask.decidable (s : System) (i : Slot) : Decidable (UserTask s i) := inferInstanceAs (Decidable (_ ∧ _ ∧ _))

/-- The tasks of a group have one address space, and so has a thread that a join collects
with the task that joins it. -/
def GroupsShare (s : System) : Prop :=
  (∀ i j, UserTask s i → UserTask s j → (s.processes i).threadGroupPid = (s.processes j).threadGroupPid →
    (s.processes i).pageDirectory = (s.processes j).pageDirectory) ∧
  ∀ c tid i, UserTask s c → joinTarget s (s.processes c).threadGroupPid tid = some i →
    (s.processes i).state = .zombie → (s.processes i).pageDirectory = (s.processes c).pageDirectory

/-- A fork passes its first checks. -/
def forks (s : System) : Bool :=
  match currentLocal s 0 with
  | none => false
  | some c => decide (c ≠ bootstrap) && decide ((s.processes c).userPageCount ≠ 0) && (findFreeSlot s).isSome

/-- The call leaves groups and address spaces aligned: no fork, no new image for one task
of a larger group, and no pid that is still the number of a group. -/
def Aligned (s : System) : Call → Prop
  | .create _ _ _ _ _ _ => ∀ i, UserTask s i → (s.processes i).threadGroupPid ≠ s.nextPid
  | .replace _ _ _ _ _ _ => ∀ c i, currentLocal s 0 = some c → i ≠ c → UserTask s i →
      (s.processes i).threadGroupPid ≠ (s.processes c).threadGroupPid
  | .fork _ => forks s = false
  | _ => True

instance Aligned.decidable (s : System) : ∀ call, Decidable (Aligned s call)
  | .create _ _ _ _ _ _ => inferInstanceAs (Decidable (∀ _, _ → _))
  | .replace _ _ _ _ _ _ => inferInstanceAs (Decidable (∀ c i, currentLocal s 0 = some c → i ≠ c → UserTask s i →
      (s.processes i).threadGroupPid ≠ (s.processes c).threadGroupPid))
  | .fork _ => inferInstanceAs (Decidable (_ = _))
  | .schedule _ _ | .requestReschedule | .createKernelThread _ | .createUserThread _ | .exit _ | .waitpid _ _
  | .joinThread _ _ | .sleepOn _ | .wakeup _ | .kill _ _ | .reapPid _ | .setPriority _ _ | .setCapabilities _ _
  | .memory _ => isTrue trivial

structure Grouped (s : System) : Prop where
  share : ∀ i j, UserTask s i → UserTask s j → (s.processes i).threadGroupPid = (s.processes j).threadGroupPid →
    (s.processes i).pageDirectory = (s.processes j).pageDirectory
  blank : ∀ i, (s.processes i).state = .unused → (s.processes i).threadGroupPid = 0

theorem Grouped.groupsShare {s : System} (grouped : Grouped s) : GroupsShare s := by
  refine ⟨grouped.share,?_⟩
  intro c tid i caller found dead
  have test := find_slot found
  simp only [Bool.and_eq_true,decide_eq_true_eq] at test
  have group : (s.processes i).threadGroupPid = (s.processes c).threadGroupPid := test.1.2
  apply grouped.share i c _ caller group
  refine ⟨test.1.1.1,?_,?_⟩
  · rw [dead]
    nofun
  · rw [group]
    exact caller.2.2

section Step
variable {s s' : System} {call : Call}

theorem identity_group {p q : Process} (same : p.identity = q.identity) : p.threadGroupPid = q.threadGroupPid :=
  congrArg Identity.threadGroupPid same

theorem identity_directory {p q : Process} (same : p.identity = q.identity) : p.pageDirectory = q.pageDirectory :=
  congrArg Identity.pageDirectory same

/-- A user task after a call that creates none was one before, in the address space that
it still has or, where it executes a new image, in another one. -/
theorem Follows.userTask (grouped : Grouped s) {i : Slot} (follows : Follows s call i (s'.processes i))
    (task : UserTask s' i) : UserTask s i ∧ (s'.processes i).threadGroupPid = (s.processes i).threadGroupPid ∧
      ((s'.processes i).pageDirectory = (s.processes i).pageDirectory ∨
        currentLocal s 0 = some i ∧ ∃ entry stack pd pages vas count, call = .replace entry stack pd pages vas count) := by
  obtain ⟨ordinary,live,group⟩ := task
  generalize s'.processes i = p at *
  cases follows with
  | kept same alive =>
    have number := identity_group same
    refine ⟨⟨ordinary,?_,?_⟩,number,.inl (identity_directory same)⟩
    · intro free
      exact group (number.trans (grouped.blank i free))
    · rw [← number]
      exact group
  | reaped dead free blank => exact absurd free live
  | moved caller _ state same =>
    have number : p.threadGroupPid = (s.processes i).threadGroupPid := congrArg Identity.threadGroupPid same
    refine ⟨⟨ordinary,?_,?_⟩,number,.inr ⟨caller,_,_,_,_,_,_,rfl⟩⟩
    · rw [← state]
      exact live
    · rw [← number]
      exact group

/-- A record that is free after a call was free before or has been cleared. -/
theorem effect_blank {i : Slot} {p : Process} (blank : (s.processes i).state = .unused → (s.processes i).threadGroupPid = 0)
    (effect : Effect s call i p) (free : p.state = .unused) : p.threadGroupPid = 0 := by
  rcases effect_unused effect free with ⟨unused,same⟩ | cleared
  · exact (congrArg Identity.threadGroupPid same).trans (blank unused)
  · exact congrArg Identity.threadGroupPid cleared

/-- A call that creates no user task keeps the groups aligned. -/
theorem follows_grouped (grouped : Grouped s) (aligned : Aligned s call)
    (follows : ∀ i, Follows s call i (s'.processes i)) (i j : Slot) (first : UserTask s' i) (second : UserTask s' j)
    (group : (s'.processes i).threadGroupPid = (s'.processes j).threadGroupPid) :
    (s'.processes i).pageDirectory = (s'.processes j).pageDirectory := by
  by_cases own : i = j
  · rw [own]
  · obtain ⟨task,number,directory⟩ := (follows i).userTask grouped first
    obtain ⟨task',number',directory'⟩ := (follows j).userTask grouped second
    rw [number,number'] at group
    rcases directory with same | ⟨caller,_,_,_,_,_,_,rfl⟩
    · rcases directory' with same' | ⟨caller,_,_,_,_,_,_,rfl⟩
      · rw [same,same']
        exact grouped.share i j task task' group
      · exact absurd group (aligned j i caller own task)
    · exact absurd group.symm (aligned i j caller (Ne.symm own) task')

/-- A new task either starts a group of its own or joins the group and the address space
of the task that creates it. -/
theorem born_grouped (grouped : Grouped s) (aligned : Aligned s call) {k : Slot} {p : Process}
    (free : findFreeSlot s = some k) (born : Born s call p)
    (table : s'.processes = Function.update s.processes k p) (i j : Slot) (first : UserTask s' i)
    (second : UserTask s' j) (group : (s'.processes i).threadGroupPid = (s'.processes j).threadGroupPid) :
    (s'.processes i).pageDirectory = (s'.processes j).pageDirectory := by
  have old {i : Slot} (other : i ≠ k) (task : UserTask s' i) : s'.processes i = s.processes i ∧ UserTask s i := by
    have same : s'.processes i = s.processes i := by rw [table,Function.update_of_ne other]
    unfold UserTask at task
    rw [same] at task
    exact ⟨same,task⟩
  have new : s'.processes k = p := by rw [table,Function.update_self]
  have joins {j : Slot} (other : j ≠ k) (task : UserTask s' j) (fresh : UserTask s' k)
      (group : p.threadGroupPid = (s'.processes j).threadGroupPid) :
      p.pageDirectory = (s'.processes j).pageDirectory := by
    obtain ⟨same,task⟩ := old other task
    rw [same] at group ⊢
    have number : p.threadGroupPid ≠ 0 := by
      have own := fresh.2.2
      rwa [new] at own
    cases born with
    | process identity =>
      have own : p.threadGroupPid = s.nextPid := congrArg Identity.threadGroupPid identity
      exact absurd (group.symm.trans own) (aligned j task)
    | forked caller ordinary pages identity =>
      have refused : forks s = false := aligned
      simp [forks,caller,ordinary,pages,free] at refused
    | kernelThread identity => exact absurd (congrArg Identity.threadGroupPid identity) number
    | @userThread entry c _ caller ordinary identity =>
      have own : p.threadGroupPid = (s.processes c).threadGroupPid := congrArg Identity.threadGroupPid identity
      have parent : UserTask s c := by
        refine ⟨ordinary,?_,?_⟩
        · intro unused
          exact number (own.trans (grouped.blank c unused))
        · rw [← own]
          exact number
      refine (congrArg Identity.pageDirectory identity : p.pageDirectory = (s.processes c).pageDirectory).trans ?_
      exact grouped.share c j parent task (own.symm.trans group)
  by_cases left : i = k
  · rw [left] at first group ⊢
    by_cases right : j = k
    · rw [right]
    · rw [new] at group ⊢
      exact joins right second first group
  · by_cases right : j = k
    · rw [right] at second group ⊢
      rw [new] at group ⊢
      exact (joins left first second group.symm).symm
    · obtain ⟨same,task⟩ := old left first
      obtain ⟨same',task'⟩ := old right second
      rw [same,same'] at group ⊢
      exact grouped.share i j task task' group

theorem grouped_step (sound : Sound s) (grouped : Grouped s) (aligned : Aligned s call) : Grouped (step s call) := by
  refine ⟨?_,fun i => effect_blank (grouped.blank i) (step_effect s sound.counter call i)⟩
  rcases step_identity s sound call with (table | ⟨k,p,free,_,born,table⟩) | follows
  · intro i j first second
    unfold UserTask at first second
    rw [table] at first second ⊢
    exact grouped.share i j first second
  · exact born_grouped grouped aligned free born table
  · exact follows_grouped grouped aligned follows

end Step

theorem boot_grouped (s : System) (idle schedule : Nat) : Grouped (boot s idle schedule) := by
  have group (i : Slot) : ((boot s idle schedule).processes i).threadGroupPid = 0 := by
    refine (congrArg Control.threadGroupPid (boot_record s idle schedule i)).trans ?_
    split <;> rfl
  exact ⟨fun i j first => absurd (group i) first.2.2,fun i _ => group i⟩

/-- In a run without forks, in which no task of a larger group executes a new image and no
pid is given out that is still the number of a group, groups are address spaces. -/
theorem groups_share (s : System) (idle schedule : Nat) (calls : List Call)
    (aligned : Meets step Aligned (boot s idle schedule) calls) :
    GroupsShare (run step (boot s idle schedule) calls) := by
  have initial : Sound (boot s idle schedule) ∧ Grouped (boot s idle schedule) :=
    ⟨boot_sound s idle schedule,boot_grouped s idle schedule⟩
  have preserved (s : System) (call : Call) (holds : Sound s ∧ Grouped s) (aligned : Aligned s call) :
      Sound (step s call) ∧ Grouped (step s call) :=
    ⟨sound_step holds.1 call,grouped_step holds.1 holds.2 aligned⟩
  exact (aligned.invariant preserved initial).2.groupsShare

/-- A program with a thread of its own. -/
def threadedProgram : List Call := launch (boot blank 0x1000 0x2000) ++ [.createUserThread 0x8048000]

theorem threadedProgram_shares : UserTask (run step (boot blank 0x1000 0x2000) threadedProgram) 2 ∧
    GroupsShare (run step (boot blank 0x1000 0x2000) threadedProgram) :=
  ⟨by decide +kernel,groups_share blank 0x1000 0x2000 threadedProgram (by decide +kernel)⟩

/-- The child of a fork has the group of its parent and an address space of its own. -/
theorem fork_splits_group :
    ¬ ∀ (s : System) (idle schedule : Nat) (calls : List Call), GroupsShare (run step (boot s idle schedule) calls) := by
  intro share
  have split : ((run step (boot blank 0x1000 0x2000) (launch (boot blank 0x1000 0x2000) ++ [.fork zeroFrame])).processes
        1).pageDirectory ≠
      ((run step (boot blank 0x1000 0x2000) (launch (boot blank 0x1000 0x2000) ++ [.fork zeroFrame])).processes
        2).pageDirectory := by decide +kernel
  exact split ((share blank 0x1000 0x2000 _).1 1 2 (by decide +kernel) (by decide +kernel) (by decide +kernel))

end LionOS.Processes

import LionOS.Library.Chain
import LionOS.Processes.Identifiers

/-! Who may signal whom: a process reaches its descendants and nobody else. -/
namespace LionOS.Processes
open LionOS.Memory LionOS.Physical LionOS.Paging LionOS.Library

/-- Record `q` is in use and has the pid that record `i` names as that of its parent. A
zombie is in use until it is collected. -/
def Parent (s : System) (i q : Slot) : Prop :=
  Live s i ∧ (s.processes i).parentPid ≠ 0 ∧ Live s q ∧ (s.processes q).pid = (s.processes i).parentPid

/-- Record `i` is another record than `c`, and its chain of parents leads to `c`. -/
def Descends (s : System) (i c : Slot) : Prop := i ≠ c ∧ Relation.TransGen (Parent s) i c

def DistinctPids (s : System) : Prop :=
  ∀ i j, i ≠ j → Live s i → Live s j → (s.processes i).isThread = false → (s.processes j).isThread = false →
    (s.processes i).pid ≠ (s.processes j).pid

/-- One of the fields by which a signal shows. -/
def Signalled (p p' : Process) : Prop :=
  p'.state ≠ p.state ∨ p'.exitCode ≠ p.exitCode ∨ p'.pendingSignals ≠ p.pendingSignals

/-- What holds of pids and parents in every state: only processes have a pid, and what has no
pid has no parent either. -/
structure Lineage (s : System) : Prop where
  counter : s.nextPid ≠ 0
  thread : ∀ i, (s.processes i).isThread = true → (s.processes i).pid = 0
  blank : ∀ i, (s.processes i).state = .unused → (s.processes i).pid = 0
  orphan : ∀ i, (s.processes i).pid = 0 → (s.processes i).parentPid = 0
  root : (s.processes bootstrap).parentPid = 0

section Invariant
variable {s s' : System} {call : Call}

theorem born_lineage (lineage : Lineage s) (sound : Sound s) (counter : s'.nextPid ≠ 0) {k : Slot} {p : Process}
    (free : findFreeSlot s = some k) (ready : p.state = .ready) (born : Born s call p)
    (table : s'.processes = Function.update s.processes k p) : Lineage s' := by
  have numbers : (p.isThread = true → p.pid = 0) ∧ (p.pid = 0 → p.parentPid = 0) := by
    have process (pid : p.pid = s.nextPid) (thread : p.isThread = false) :
        (p.isThread = true → p.pid = 0) ∧ (p.pid = 0 → p.parentPid = 0) := by
      rw [pid,thread]
      exact ⟨nofun,fun zero => absurd zero lineage.counter⟩
    have threaded (pid : p.pid = 0) (parent : p.parentPid = 0) :
        (p.isThread = true → p.pid = 0) ∧ (p.pid = 0 → p.parentPid = 0) := ⟨fun _ => pid,fun _ => parent⟩
    cases born with
    | process identity => exact process (congrArg Identity.pid identity) (congrArg Identity.isThread identity)
    | forked _ _ _ identity => exact process (congrArg Identity.pid identity) (congrArg Identity.isThread identity)
    | kernelThread identity => exact threaded (congrArg Identity.pid identity) (congrArg Identity.parentPid identity)
    | userThread _ _ identity => exact threaded (congrArg Identity.pid identity) (congrArg Identity.parentPid identity)
  have new : s'.processes k = p := by rw [table,Function.update_self]
  have old {i : Slot} (other : i ≠ k) : s'.processes i = s.processes i := by
    rw [table,Function.update_of_ne other]
  have idle : bootstrap ≠ k := by
    rintro rfl
    exact sound.taken (findFreeSlot_unused free)
  refine ⟨counter,?_,?_,?_,?_⟩
  · intro i thread
    by_cases own : i = k
    · rw [own,new] at thread ⊢
      exact numbers.1 thread
    · rw [old own] at thread ⊢
      exact lineage.thread i thread
  · intro i unused
    by_cases own : i = k
    · rw [own,new,ready] at unused
      cases unused
    · rw [old own] at unused ⊢
      exact lineage.blank i unused
  · intro i zero
    by_cases own : i = k
    · rw [own,new] at zero ⊢
      exact numbers.2 zero
    · rw [old own] at zero ⊢
      exact lineage.orphan i zero
  · rw [old idle]
    exact lineage.root

theorem follows_lineage (lineage : Lineage s) (counter : s'.nextPid ≠ 0)
    (follows : ∀ i, Follows s call i (s'.processes i)) (effect : ∀ i, Effect s call i (s'.processes i)) :
    Lineage s' := by
  have record (i : Slot) : (s'.processes i).identity = noIdentity ∨ (s'.processes i).pid = (s.processes i).pid ∧
      (s'.processes i).isThread = (s.processes i).isThread ∧ (s'.processes i).parentPid = (s.processes i).parentPid := by
    have change := follows i
    generalize s'.processes i = p at change
    cases change with
    | kept same =>
      exact .inr ⟨congrArg Identity.pid same,congrArg Identity.isThread same,congrArg Identity.parentPid same⟩
    | reaped _ _ blank => exact .inl blank
    | moved _ _ _ same =>
      exact .inr ⟨congrArg Identity.pid same,congrArg Identity.isThread same,congrArg Identity.parentPid same⟩
  refine ⟨counter,?_,?_,?_,?_⟩
  · intro i thread
    rcases record i with blank | ⟨pid,kind,_⟩
    · exact congrArg Identity.pid blank
    · rw [pid]
      exact lineage.thread i (kind ▸ thread)
  · intro i free
    rcases effect_unused (effect i) free with ⟨unused,_⟩ | blank
    · rcases record i with blank | ⟨pid,_⟩
      · exact congrArg Identity.pid blank
      · rw [pid]
        exact lineage.blank i unused
    · exact congrArg Identity.pid blank
  · intro i zero
    rcases record i with blank | ⟨pid,_,parent⟩
    · exact congrArg Identity.parentPid blank
    · rw [parent]
      exact lineage.orphan i (pid ▸ zero)
  · rcases record bootstrap with blank | ⟨_,_,parent⟩
    · exact congrArg Identity.parentPid blank
    · rw [parent]
      exact lineage.root

theorem lineage_step (lineage : Lineage s) (sound : Sound s) (call : Call) : Lineage (step s call) := by
  have counter := step_nextPid lineage.counter call
  rcases step_identity s sound call with (table | ⟨k,p,free,ready,born,table⟩) | follows
  · exact ⟨counter,by rw [table]; exact lineage.thread,by rw [table]; exact lineage.blank,
      by rw [table]; exact lineage.orphan,by rw [table]; exact lineage.root⟩
  · exact born_lineage lineage sound counter free ready born table
  · exact follows_lineage lineage counter follows (step_effect s sound.counter call)

end Invariant

theorem boot_lineage (s : System) (idle schedule : Nat) : Lineage (boot s idle schedule) := by
  have record := boot_record s idle schedule
  have parent (i : Slot) : ((boot s idle schedule).processes i).parentPid = 0 := by
    refine (congrArg Control.parentPid (record i)).trans ?_
    split <;> rfl
  refine ⟨(boot_registered s idle schedule).counter,?_,?_,fun i _ => parent i,parent bootstrap⟩
  · intro i thread
    have process : ((boot s idle schedule).processes i).isThread = false := by
      refine (congrArg Control.isThread (record i)).trans ?_
      split <;> rfl
    rw [process] at thread
    cases thread
  · intro i unused
    by_cases own : i = bootstrap
    · rw [own] at unused
      exact absurd unused (boot_sound s idle schedule).taken
    · refine (congrArg Control.pid (record i)).trans ?_
      rw [if_neg own]
      rfl

theorem run_lineage (s : System) (idle schedule : Nat) (calls : List Call) :
    Sound (run step (boot s idle schedule) calls) ∧ Lineage (run step (boot s idle schedule) calls) := by
  have preserved (s : System) (call : Call) (holds : Sound s ∧ Lineage s) : Sound (step s call) ∧ Lineage (step s call) :=
    ⟨sound_step holds.1 call,lineage_step holds.2 holds.1 call⟩
  exact run_invariant preserved ⟨boot_sound s idle schedule,boot_lineage s idle schedule⟩

/-! ### The walk along the parents -/

/-- The record that one link of the walk leads to. -/
def parentSlot (s : System) (i : Slot) : Option Slot :=
  if (s.processes i).parentPid = 0 then none else findPid s (s.processes i).parentPid

theorem ancestorWalk_linked (s : System) (ancestorPid fuel : Nat) (i : Slot) :
    ancestorWalk s ancestorPid fuel i = true ↔
      ∃ k, k < fuel ∧ ∃ q, linked (parentSlot s) (k + 1) i = some q ∧ (s.processes q).pid = ancestorPid := by
  induction fuel generalizing i with
  | zero => simp [ancestorWalk]
  | succ fuel ih =>
    have first (q : Slot) (link : parentSlot s i = some q) (k : Nat) :
        linked (parentSlot s) (k + 1) i = linked (parentSlot s) k q := by rw [linked,link,Option.bind_some]
    by_cases top : (s.processes i).parentPid = 0
    · have ends : parentSlot s i = none := by rw [parentSlot,if_pos top]
      simp [ancestorWalk,top,linked,ends]
    · cases found : findPid s (s.processes i).parentPid with
      | none =>
        have ends : parentSlot s i = none := by rw [parentSlot,if_neg top,found]
        simp [ancestorWalk,top,found,linked,ends]
      | some q =>
        have link : parentSlot s i = some q := by rw [parentSlot,if_neg top,found]
        simp only [ancestorWalk,top,found,if_false]
        split
        next reached =>
          exact ⟨fun _ => ⟨0,Nat.succ_pos fuel,q,by rw [first q link,linked],reached⟩,fun _ => rfl⟩
        next other =>
          rw [ih q]
          constructor
          · rintro ⟨k,within,p,chain,pid⟩
            exact ⟨k + 1,by omega,p,by rw [first q link]; exact chain,pid⟩
          · rintro ⟨k,within,p,chain,pid⟩
            rw [first q link] at chain
            cases k with
            | zero =>
              cases chain
              exact absurd pid other
            | succ k => exact ⟨k,by omega,p,chain,pid⟩

section Walk
variable {s : System} (lineage : Lineage s) (distinct : DistinctPids s)
include lineage distinct

/-- A pid other than 0 leads to the one record in use that has it. -/
theorem findPid_only {i : Slot} (live : Live s i) (nonzero : (s.processes i).pid ≠ 0) :
    findPid s (s.processes i).pid = some i := by
  have process {j : Slot} (nonzero : (s.processes j).pid ≠ 0) : (s.processes j).isThread = false := by
    by_contra thread
    exact nonzero (lineage.thread j (by simpa using thread))
  apply find_slot_only
  · unfold Live at live
    simp [live]
  · intro j test
    simp only [Bool.and_eq_true,decide_eq_true_eq] at test
    obtain ⟨taken,same⟩ := test
    by_contra other
    exact distinct j i other taken live (process (by rw [same]; exact nonzero)) (process nonzero) same

theorem parentSlot_parent {i q : Slot} (live : Live s i) : Leads (parentSlot s) i q ↔ Parent s i q := by
  unfold Leads parentSlot
  constructor
  · intro link
    split at link
    · cases link
    next named =>
      obtain ⟨taken,pid⟩ := findPid_found link
      exact ⟨live,named,taken,pid⟩
  · rintro ⟨_,named,taken,pid⟩
    rw [if_neg named,← pid]
    exact findPid_only lineage distinct taken (by rw [pid]; exact named)

theorem transGen_parent {i c : Slot} (live : Live s i) :
    Relation.TransGen (Leads (parentSlot s)) i c ↔ Relation.TransGen (Parent s) i c := by
  constructor
  · intro chain
    induction chain using Relation.TransGen.head_induction_on with
    | single link => exact .single ((parentSlot_parent lineage distinct live).mp link)
    | head link _ ih =>
      have parent := (parentSlot_parent lineage distinct live).mp link
      exact .head parent (ih parent.2.2.1)
  · intro chain
    refine Relation.TransGen.mono ?_ i c chain
    intro i q parent
    exact (parentSlot_parent lineage distinct parent.1).mpr parent

/-- The bounded walk finds every ancestor and stops at nothing else. -/
theorem processIsDescendantOrChild_iff {i c : Slot} (live : Live s i) (taken : Live s c)
    (pid : (s.processes i).pid ≠ 0) (ancestor : (s.processes c).pid ≠ 0) :
    processIsDescendantOrChild s (s.processes i).pid (s.processes c).pid = true ↔
      Relation.TransGen (Parent s) i c := by
  simp only [processIsDescendantOrChild,findPid_only lineage distinct live pid,if_neg ancestor]
  split
  next child =>
    have parent : Parent s i c := ⟨live,by rw [child]; exact ancestor,taken,child.symm⟩
    exact ⟨fun _ => .single parent,fun _ => rfl⟩
  next =>
    rw [ancestorWalk_linked,← transGen_parent lineage distinct live]
    constructor
    · rintro ⟨k,_,q,chain,same⟩
      have reaches := (transGen_linked (parentSlot s)).mpr ⟨k,chain⟩
      have last : Live s q := by
        obtain ⟨p,_,link⟩ := Relation.TransGen.tail'_iff.mp reaches
        unfold Leads parentSlot at link
        split at link
        · cases link
        · exact (findPid_found link).1
      have found := findPid_only lineage distinct last (by rw [same]; exact ancestor)
      rw [same,findPid_only lineage distinct taken ancestor] at found
      cases found
      exact reaches
    · intro chain
      obtain ⟨k,within,reached⟩ := transGen_bounded (parentSlot s) chain
      rw [Fintype.card_fin] at within
      exact ⟨k,within,c,reached,rfl⟩

end Walk

/-- Where a signal goes: to the descendants of the caller, each of which it can reach, and
to no other record but the parent that it releases from its wait for the target. -/
structure Authority (s : System) (pid signal : Nat) : Prop where
  target : ∀ i, killTarget s pid signal = some i ↔ hasCap s 0 capProcess = true ∧ signal ≠ 0 ∧ signal ≤ sigMax ∧
    (s.processes i).pid = pid ∧ ∃ c, currentLocal s 0 = some c ∧ Descends s i c
  others : ∀ i, Signalled (s.processes i) ((step s (.kill pid signal)).processes i) →
    killTarget s pid signal = some i ∨ ∃ child, killTarget s pid signal = some child ∧
      (s.processes i).state = .waiting ∧ (s.processes i).pid = (s.processes child).parentPid ∧
      (step s (.kill pid signal)).processes i = releaseParent (s.processes i) (s.processes child).pid
  walk : ∀ i c, Live s i → Live s c → (s.processes i).pid ≠ 0 → (s.processes c).pid ≠ 0 →
    (processIsDescendantOrChild s (s.processes i).pid (s.processes c).pid = true ↔ Relation.TransGen (Parent s) i c)

section Signals
variable {s : System}

theorem killTarget_descends (lineage : Lineage s) (distinct : DistinctPids s) (pid signal : Nat) (i : Slot) :
    killTarget s pid signal = some i ↔ hasCap s 0 capProcess = true ∧ signal ≠ 0 ∧ signal ≤ sigMax ∧
      (s.processes i).pid = pid ∧ ∃ c, currentLocal s 0 = some c ∧ Descends s i c := by
  constructor
  · intro target
    obtain ⟨ordinary,permitted,found⟩ := killTarget_found target
    simp only [killPermitted,Bool.and_eq_true,decide_eq_true_eq] at permitted
    obtain ⟨⟨⟨⟨⟨capable,exists'⟩,other⟩,descends⟩,signal⟩,range⟩ := permitted
    obtain ⟨taken,number⟩ := findPid_found found
    have nonzero : (s.processes i).pid ≠ 0 := by
      rw [number]
      simp only [processExists,Bool.and_eq_true,decide_eq_true_eq] at exists'
      exact exists'.1
    cases caller : currentLocal s 0 with
    | none => simp [hasCap,caller] at capable
    | some c =>
      have own : currentPid s 0 = (s.processes c).pid := by rw [currentPid,caller]
      rw [own,← number] at descends other
      have ancestor : (s.processes c).pid ≠ 0 := by
        intro zero
        simp [processIsDescendantOrChild,findPid_only lineage distinct taken nonzero,zero] at descends
      have live : Live s c := fun unused => ancestor (lineage.blank c unused)
      refine ⟨capable,signal,range,number,c,rfl,?_,?_⟩
      · rintro rfl
        exact other rfl
      · exact (processIsDescendantOrChild_iff lineage distinct taken live nonzero ancestor).mp descends
  · rintro ⟨capable,signal,range,rfl,c,caller,apart,chain⟩
    have parent {q : Slot} (chain : Relation.TransGen (Parent s) q c) : Live s q ∧ (s.processes q).parentPid ≠ 0 := by
      obtain ⟨_,link,_⟩ := Relation.TransGen.head'_iff.mp chain
      exact ⟨link.1,link.2.1⟩
    have top : Live s c ∧ (s.processes c).pid ≠ 0 := by
      obtain ⟨_,_,link⟩ := Relation.TransGen.tail'_iff.mp chain
      exact ⟨link.2.2.1,by rw [link.2.2.2]; exact link.2.1⟩
    obtain ⟨live,named⟩ := parent chain
    have nonzero : (s.processes i).pid ≠ 0 := fun zero => named (lineage.orphan i zero)
    have found := findPid_only lineage distinct live nonzero
    have own : currentPid s 0 = (s.processes c).pid := by rw [currentPid,caller]
    have other : (s.processes i).pid ≠ (s.processes c).pid := by
      intro same
      have again := findPid_only lineage distinct top.1 top.2
      rw [← same,found] at again
      exact apart (Option.some.inj again)
    have descends := (processIsDescendantOrChild_iff lineage distinct live top.1 nonzero top.2).mpr chain
    have permitted : killPermitted s 0 (s.processes i).pid ‹Nat› = true := by
      simp [killPermitted,capable,processExists,nonzero,found,own,other,descends,signal,range]
    have ordinary : i ≠ bootstrap := by
      rintro rfl
      exact named lineage.root
    simp only [killTarget,permitted,if_true,found,if_neg ordinary]

theorem killTarget_none {pid signal : Nat} (absent : killTarget s pid signal = none) :
    step s (.kill pid signal) = s := by
  simp only [step,sysKill]
  split
  next permitted =>
    simp only [killTarget,permitted,if_true] at absent
    unfold processSignal
    split
    · rfl
    next i found =>
      simp only [found] at absent
      split at absent
      next idle => simp [idle]
      next => cases absent
  · rfl

/-- A signal changes its target and the parent that waits for it. -/
theorem sysKill_others {pid signal : Nat} {target i : Slot} (sent : killTarget s pid signal = some target)
    (other : i ≠ target) : (step s (.kill pid signal)).processes i = s.processes i ∨
      (s.processes i).state = .waiting ∧ (s.processes i).pid = (s.processes target).parentPid ∧
        (step s (.kill pid signal)).processes i = releaseParent (s.processes i) (s.processes target).pid := by
  obtain ⟨ordinary,permitted,found⟩ := killTarget_found sent
  simp only [step,sysKill,permitted,if_true,processSignal,found]
  split
  · exact .inl rfl
  split
  · have table (q : Process) : (terminate (setProcess s target q) target (128 + signal)).processes =
        Function.update s.processes target {q with exitCode := 128 + signal,state := .zombie} := by
      rw [terminate_processes,setProcess_processes,Function.update_idem,Function.update_self]
    rw [wakeWaitingParent_record (by rw [table,Function.update_self]; simp)]
    split
    next waits =>
      obtain ⟨_,waiting,parent,_⟩ := waitingParent_found waits
      rw [table,Function.update_of_ne other] at waiting
      rw [table,Function.update_of_ne other,Function.update_self] at parent
      refine .inr ⟨waiting,parent,?_⟩
      rw [table,Function.update_of_ne other,Function.update_self]
    · rw [table,Function.update_of_ne other]
      exact .inl rfl
  split
  · rw [setProcess_processes,Function.update_of_ne other]
    exact .inl rfl
  split
  · rw [setProcess_processes,Function.update_of_ne other]
    exact .inl rfl
  · exact .inl rfl

theorem signalled_target {pid signal : Nat} {i : Slot}
    (shows : Signalled (s.processes i) ((step s (.kill pid signal)).processes i)) :
    killTarget s pid signal = some i ∨ ∃ child, killTarget s pid signal = some child ∧
      (s.processes i).state = .waiting ∧ (s.processes i).pid = (s.processes child).parentPid ∧
      (step s (.kill pid signal)).processes i = releaseParent (s.processes i) (s.processes child).pid := by
  have still {p : Process} : ¬ Signalled p p := by simp [Signalled]
  cases sent : killTarget s pid signal with
  | none =>
    rw [killTarget_none sent] at shows
    exact absurd shows still
  | some target =>
    by_cases own : i = target
    · exact .inl (by rw [own])
    · right
      rcases sysKill_others sent own with same | released
      · rw [same] at shows
        exact absurd shows still
      · exact ⟨target,rfl,released⟩

end Signals

/-- A process, its child, and the child of the child, which the process can still signal. -/
def generations : List Call :=
  launch (boot blank 0x1000 0x2000) ++ [.fork zeroFrame] ++ yield ++ [.fork zeroFrame] ++ yield ++ yield ++
    yield

end LionOS.Processes

import LionOS.Processes.Traits

/-! The FPU registers over switches: what a task finds in them when the scheduler resumes it,
against what it left there when it last stopped. -/
namespace LionOS.Processes
open LionOS.Memory LionOS.Physical LionOS.Paging LionOS.Library

/-- The FPU image that a switch to the task `i` restores. -/
def image (s : System) (i : Slot) : FpuImage :=
  if (s.processes i).fpuValid then (s.processes i).fpuState else s.fpuInitialState

theorem image_fields {s s' : System} {i : Slot} (initial : s'.fpuInitialState = s.fpuInitialState)
    (state : (s'.processes i).fpuState = (s.processes i).fpuState)
    (valid : (s'.processes i).fpuValid = (s.processes i).fpuValid) : image s' i = image s i := by
  unfold image
  rw [state,valid,initial]

theorem image_congr {s s' : System} {i : Slot} (initial : s'.fpuInitialState = s.fpuInitialState)
    (same : (s'.processes i).traits = (s.processes i).traits) : image s' i = image s i :=
  image_fields initial (congrArg Traits.fpuState same) (congrArg Traits.fpuValid same)

/-- The task is one that the scheduler of the boot CPU can choose. -/
def Candidate (p : Process) : Prop := p.state = .ready ∧ p.cpuOwner = 0 ∧ p.priority < priorityLevels

instance Candidate.decidable (p : Process) : Decidable (Candidate p) := inferInstanceAs (Decidable (_ ∧ _))

/-- The search reaches every slot and every priority. -/
theorem selectNext_candidate {s : System} {i : Slot} (candidate : Candidate (s.processes i)) (start : Nat) :
    selectNext s 0 start ≠ none := by
  obtain ⟨ready,owner,priority⟩ := candidate
  intro absent
  have round := List.findSome?_eq_none_iff.mp absent (s.processes i).priority (List.mem_range.mpr priority)
  have reached : i ∈ (List.range processMax).map fun step => Fin.ofNat processMax (start + step + 1) := by
    refine List.mem_map.mpr ⟨(i.val + 15 * (start + 1)) % 16,List.mem_range.mpr (Nat.mod_lt _ (by decide)),?_⟩
    apply Fin.ext
    have bound := i.isLt
    simp only [Fin.ofNat,processMax] at bound ⊢
    omega
  have test := List.find?_eq_none.mp round i reached
  simp [ready,owner] at test

/-- The bookkeeping of the scheduler before a switch changes the record of the caller only,
and there neither its state nor its traits. -/
structure Prepared (s s' : System) (c : Slot) : Prop where
  current : s'.currentByCpu = s.currentByCpu
  enabled : s'.fpuEnabled = s.fpuEnabled
  initial : s'.fpuInitialState = s.fpuInitialState
  registers : s'.fpuRegisters = s.fpuRegisters
  others : ∀ i, i ≠ c → s'.processes i = s.processes i
  state : (s'.processes c).state = (s.processes c).state
  traits : (s'.processes c).traits = (s.processes c).traits

theorem Prepared.trans {s t u : System} {c : Slot} (first : Prepared s t c) (second : Prepared t u c) :
    Prepared s u c where
  current := second.current.trans first.current
  enabled := second.enabled.trans first.enabled
  initial := second.initial.trans first.initial
  registers := second.registers.trans first.registers
  others i other := (second.others i other).trans (first.others i other)
  state := second.state.trans first.state
  traits := second.traits.trans first.traits

theorem Prepared.refl (s : System) (c : Slot) : Prepared s s c := ⟨rfl,rfl,rfl,rfl,fun _ _ => rfl,rfl,rfl⟩

theorem Prepared.record {s s' : System} {c : Slot} (prepared : Prepared s s' c) (i : Slot) :
    (s'.processes i).state = (s.processes i).state ∧ (s'.processes i).traits = (s.processes i).traits := by
  by_cases own : i = c
  · rw [own]
    exact ⟨prepared.state,prepared.traits⟩
  · rw [prepared.others i own]
    exact ⟨rfl,rfl⟩

theorem setProcess_prepared (s : System) (c : Slot) {p : Process} (state : p.state = (s.processes c).state)
    (traits : p.traits = (s.processes c).traits) : Prepared s (setProcess s c p) c := by
  refine ⟨rfl,rfl,rfl,rfl,?_,?_,?_⟩
  · intro i other
    rw [setProcess_processes,Function.update_of_ne other]
  · rw [setProcess_processes,Function.update_self]
    exact state
  · rw [setProcess_processes,Function.update_self]
    exact traits

theorem chargeTick_prepared (s : System) (c : Slot) : Prepared s (chargeTick s c).1 c := by
  unfold chargeTick
  dsimp only
  split
  · exact .refl s c
  split
  · refine Prepared.trans (t := {s with rescheduleRequested := false}) ⟨rfl,rfl,rfl,rfl,fun _ _ => rfl,rfl,rfl⟩ ?_
    exact setProcess_prepared _ c rfl rfl
  split
  · exact setProcess_prepared s c rfl rfl
  · exact setProcess_prepared s c rfl rfl

theorem freeDeferred_prepared (s : System) (c : Slot) : Prepared s (freeDeferred s c) c := by
  unfold freeDeferred
  dsimp only
  split
  · exact .refl s c
  · have freed : Prepared s {s with vm := {s.vm with
        pages := pageFree s.vm.pages ((s.processes c).deferredKernelStack - 4096)}} c :=
      ⟨rfl,rfl,rfl,rfl,fun _ _ => rfl,rfl,rfl⟩
    exact freed.trans (setProcess_prepared _ c rfl rfl)

theorem processSchedule_prepared {s : System} {c : Slot} (caller : currentLocal s 0 = some c) (frame : Frame) :
    ∃ ready, Prepared s ready c ∧
      (processSchedule s 0 true frame = (ready,.own frame) ∨
        processSchedule s 0 true frame = switchFrom ready 0 (some c) frame) := by
  have counted : Prepared s (countSchedule s 0) c := ⟨rfl,rfl,rfl,rfl,fun _ _ => rfl,rfl,rfl⟩
  have saved : Prepared (countSchedule s 0) (saveFrame (countSchedule s 0) c frame) c :=
    setProcess_prepared _ c rfl rfl
  have charged := chargeTick_prepared (saveFrame (countSchedule s 0) c frame) c
  have same : currentLocal (countSchedule s 0) 0 = some c := caller
  unfold processSchedule
  rw [if_neg (by simp)]
  dsimp only
  rw [same]
  dsimp only
  cases tick : chargeTick (saveFrame (countSchedule s 0) c frame) c with
  | mk v gives =>
    rw [tick] at charged
    have before := (counted.trans saved).trans charged
    cases gives with
    | false => exact ⟨v,before,.inl rfl⟩
    | true => exact ⟨freeDeferred v c,before.trans (freeDeferred_prepared v c),.inr rfl⟩

theorem preempt_traits (s : System) (cpu : Nat) (c i : Slot) : ((preempt s cpu (some c)).processes i).traits =
    if i = c ∧ (s.processes i).state = .running ∧ s.fpuEnabled = true then
      {(s.processes i).traits with fpuState := s.fpuRegisters cpu,fpuValid := true}
    else (s.processes i).traits := by
  unfold preempt fpuSave
  by_cases own : i = c
  · subst own
    by_cases running : (s.processes i).state = .running
    · by_cases enabled : s.fpuEnabled = true <;> simp [running,enabled,setProcess,Process.traits]
    · simp [running]
  · by_cases running : (s.processes c).state = .running
    · by_cases enabled : s.fpuEnabled = true <;> simp [running,enabled,setProcess,own]
    · simp [running,own]

theorem preempt_fpu (s : System) (cpu : Nat) (prev : Option Slot) : (preempt s cpu prev).fpuEnabled = s.fpuEnabled ∧
    (preempt s cpu prev).fpuInitialState = s.fpuInitialState ∧ (preempt s cpu prev).fpuRegisters = s.fpuRegisters := by
  unfold preempt
  split
  · exact ⟨rfl,rfl,rfl⟩
  split
  · unfold fpuSave
    split <;> exact ⟨rfl,rfl,rfl⟩
  · exact ⟨rfl,rfl,rfl⟩

theorem fpuRestore_image {s : System} (enabled : s.fpuEnabled = true) (i : Slot) :
    (fpuRestore s 0 i).fpuRegisters 0 = image s i ∧ (fpuRestore s 0 i).fpuInitialState = s.fpuInitialState ∧
      (fpuRestore s 0 i).fpuEnabled = s.fpuEnabled := by
  unfold fpuRestore
  rw [if_pos enabled]
  refine ⟨?_,rfl,rfl⟩
  dsimp only
  rw [Function.update_self]
  rfl

/-- A switch to a task touches neither the FPU nor the traits of a task that is not reaped. -/
theorem enter_fpu (s : System) (c n : Slot) :
    (reapPrev (enter s 0 n) (some c)).fpuRegisters = s.fpuRegisters ∧
      (reapPrev (enter s 0 n) (some c)).fpuInitialState = s.fpuInitialState ∧
      (reapPrev (enter s 0 n) (some c)).fpuEnabled = s.fpuEnabled := by
  have stack (s : System) (top : Nat) : (tssSetKernelStack s 0 top).fpuRegisters = s.fpuRegisters ∧
      (tssSetKernelStack s 0 top).fpuInitialState = s.fpuInitialState ∧
      (tssSetKernelStack s 0 top).fpuEnabled = s.fpuEnabled := by
    unfold tssSetKernelStack
    split <;> exact ⟨rfl,rfl,rfl⟩
  have entered : (enter s 0 n).fpuRegisters = s.fpuRegisters ∧ (enter s 0 n).fpuInitialState = s.fpuInitialState ∧
      (enter s 0 n).fpuEnabled = s.fpuEnabled := by
    unfold enter
    rw [(stack _ _).1,(stack _ _).2.1,(stack _ _).2.2]
    unfold setCurrentLocal
    split <;> exact ⟨rfl,rfl,rfl⟩
  unfold reapPrev
  dsimp only
  split
  · have reaped := reapProcess_steady (enter s 0 n) c
    rw [reaped.registers,reaped.initial,reaped.enabled]
    exact entered
  · exact entered

theorem enter_traits (s : System) (c n i : Slot) : ((reapPrev (enter s 0 n) (some c)).processes i).state = .unused ∨
    ((reapPrev (enter s 0 n) (some c)).processes i).traits = (s.processes i).traits := by
  rw [reapPrev_record]
  split
  · exact .inl rfl
  · rw [enter_record]
    split <;> exact .inr rfl

/-- What one run of the scheduler does with the FPU: the current task `c` stays, the READY
task `n` is resumed with its image, or the CPU falls back to the idle task. -/
inductive Passes (s : System) (c : Slot) (s' : System) : Resume → Prop
  | stays {frame : Frame} (enabled : s'.fpuEnabled = s.fpuEnabled) (current : currentLocal s' 0 = some c)
      (registers : s'.fpuRegisters 0 = s.fpuRegisters 0) (images : ∀ i, image s' i = image s i) :
      Passes s c s' (.own frame)
  | resumes {n : Slot} {saved : Option Frame} (enabled : s'.fpuEnabled = s.fpuEnabled)
      (current : currentLocal s' 0 = some n) (ready : (s.processes n).state = .ready)
      (registers : s'.fpuRegisters 0 = image s n)
      (images : ∀ i, (s'.processes i).state = .unused ∨
        image s' i = if i = c ∧ (s.processes c).state = .running then s.fpuRegisters 0 else image s i) :
      Passes s c s' (.saved n saved)
  | idles {saved : Option Frame} (enabled : s'.fpuEnabled = s.fpuEnabled)
      (current : currentLocal s' 0 = some bootstrap) (halted : (s.processes c).state ≠ .running) (alone : ∀ i, i ≠ c → ¬ Candidate (s.processes i))
      (registers : s'.fpuRegisters 0 = s.fpuRegisters 0)
      (images : ∀ i, (s'.processes i).state = .unused ∨ image s' i = image s i) :
      Passes s c s' (.saved bootstrap saved)

theorem switchFrom_passes {s : System} {c : Slot} (caller : currentLocal s 0 = some c) (enabled : s.fpuEnabled = true)
    (frame : Frame) : Passes s c (switchFrom s 0 (some c) frame).1 (switchFrom s 0 (some c) frame).2 := by
  unfold switchFrom
  dsimp only
  cases found : selectNext s 0 c.val with
  | some n =>
    dsimp only
    have ready := selectNext_ready found
    obtain ⟨enabled',initial,registers⟩ := preempt_fpu {s with
      schedulerCpu := Function.update s.schedulerCpu 0 {s.schedulerCpu 0 with cursor := n.val}} 0 (some c)
    have traits := preempt_traits {s with
      schedulerCpu := Function.update s.schedulerCpu 0 {s.schedulerCpu 0 with cursor := n.val}} 0 c
    generalize preempt {s with
      schedulerCpu := Function.update s.schedulerCpu 0 {s.schedulerCpu 0 with cursor := n.val}} 0 (some c) = t at *
    dsimp only at enabled' initial registers traits
    obtain ⟨restored,initial',enabled''⟩ := fpuRestore_image (s := t) (enabled'.trans enabled) n
    have before (i : Slot) : image t i =
        if i = c ∧ (s.processes c).state = .running then s.fpuRegisters 0 else image s i := by
      by_cases outgoing : i = c ∧ (s.processes c).state = .running
      · obtain ⟨rfl,running⟩ := outgoing
        have saved := traits i
        rw [if_pos ⟨rfl,running,enabled⟩] at saved
        have state : (t.processes i).fpuState = s.fpuRegisters 0 := congrArg Traits.fpuState saved
        have valid : (t.processes i).fpuValid = true := congrArg Traits.fpuValid saved
        rw [if_pos ⟨rfl,running⟩]
        unfold image
        rw [if_pos valid,state]
      · rw [if_neg outgoing]
        apply image_congr initial
        rw [traits i,if_neg]
        rintro ⟨own,running,_⟩
        exact outgoing ⟨own,own ▸ running⟩
    have halts : ¬ (n = c ∧ (s.processes c).state = .running) := by
      rintro ⟨rfl,running⟩
      rw [ready] at running
      cases running
    refine .resumes ?_ ?_ ready ?_ ?_
    · rw [(enter_fpu _ c n).2.2,enabled'',enabled']
    · rw [reapPrev_current,enter_current]
    · rw [(enter_fpu _ c n).1,restored,before n,if_neg halts]
    · intro i
      rw [← before i]
      refine (enter_traits _ c n i).imp id fun same => image_congr ((enter_fpu _ c n).2.1.trans initial') ?_
      rw [same,fpuRestore_processes]
  | none =>
    have alone (i : Slot) (_ : i ≠ c) : ¬ Candidate (s.processes i) := fun candidate =>
      selectNext_candidate candidate c.val found
    dsimp only
    split
    next halted =>
      rw [if_pos rfl]
      refine .idles ?_ ?_ ?_ alone ?_ ?_
      · rw [(enter_fpu s c bootstrap).2.2]
      · rw [reapPrev_current,enter_current]
      · intro running
        simp [running] at halted
      · rw [(enter_fpu s c bootstrap).1]
      · intro i
        exact (enter_traits s c bootstrap i).imp id (image_congr (enter_fpu s c bootstrap).2.1)
    next => exact .stays rfl caller rfl fun _ => rfl

theorem Prepared.passes {s ready s' : System} {c : Slot} {resumed : Resume} (prepared : Prepared s ready c)
    (later : Passes ready c s' resumed) : Passes s c s' resumed := by
  have same (i : Slot) : image ready i = image s i := image_congr prepared.initial (prepared.record i).2
  cases later with
  | stays enabled current registers images =>
    exact .stays (enabled.trans prepared.enabled) current (by rw [registers,prepared.registers])
      fun i => (images i).trans (same i)
  | resumes enabled current chosen registers images =>
    refine .resumes (enabled.trans prepared.enabled) current ((prepared.record _).1 ▸ chosen) (by rw [registers,same]) ?_
    intro i
    rw [← prepared.state,← prepared.registers,← same i]
    exact images i
  | idles enabled current halted alone registers images =>
    refine .idles (enabled.trans prepared.enabled) current ?_ ?_ (by rw [registers,prepared.registers]) ?_
    · rw [← prepared.state]
      exact halted
    · intro i other
      rw [← prepared.others i other]
      exact alone i other
    · intro i
      rw [← same i]
      exact images i

theorem processSchedule_passes {s : System} {c : Slot} (caller : currentLocal s 0 = some c)
    (enabled : s.fpuEnabled = true) (frame : Frame) :
    Passes s c (processSchedule s 0 true frame).1 (processSchedule s 0 true frame).2 := by
  obtain ⟨ready,prepared,kept | switched⟩ := processSchedule_prepared caller frame
  · rw [kept]
    refine .stays prepared.enabled ?_ (by rw [prepared.registers]) fun i => image_congr prepared.initial (prepared.record i).2
    simp only [currentLocal,prepared.current] at caller ⊢
    exact caller
  · have own : currentLocal ready 0 = some c := by
      simp only [currentLocal,prepared.current] at caller ⊢
      exact caller
    rw [switched]
    exact prepared.passes (switchFrom_passes own (prepared.enabled.trans enabled) frame)

/-- A call, or what the running task does to the FPU registers. -/
inductive Activity where
  | call (call : Call)
  | compute (image : FpuImage)

/-- The system and the FPU registers that each task had when it last stopped. -/
structure Contexts where
  system : System
  last : Slot → Option FpuImage

/-- The scheduler stops the task. -/
def stops (s : System) (call : Call) (i : Slot) : Bool :=
  match call with
  | .schedule true _ => decide (currentLocal s 0 = some i)
  | _ => false

/-- What is known of a slot is forgotten with its task. -/
def contextStep (t : Contexts) : Activity → Contexts
  | .call call => {
    system := step t.system call
    last := fun i =>
      if ((step t.system call).processes i).state = .unused then none
      else if stops t.system call i then some (t.system.fpuRegisters 0) else t.last i}
  | .compute image => {t with system := {t.system with fpuRegisters := Function.update t.system.fpuRegisters 0 image}}

def contextBoot (s : System) (idle schedule : Nat) : Contexts := ⟨boot s idle schedule,fun _ => none⟩

/-- A task that has run before gets its registers back when the scheduler resumes it, and a
task that stays on the CPU keeps them. -/
def RegistersKept (t : Contexts) (activity : Activity) : Prop :=
  ∀ acquired frame, activity = .call (.schedule acquired frame) →
    (∀ i saved value, (processSchedule t.system 0 acquired frame).2 = .saved i saved →
      (contextStep t activity).last i = some value → (contextStep t activity).system.fpuRegisters 0 = value) ∧
    ∀ own, (processSchedule t.system 0 acquired frame).2 = .own own →
      (contextStep t activity).system.fpuRegisters 0 = t.system.fpuRegisters 0

/-- The scheduler finds the current task RUNNING or terminated, or the image that is saved
for it equal to the registers; it need not fall back to the idle task; and no terminated
task is stopped by a signal. -/
def Banks (s : System) : Activity → Prop
  | .call (.schedule true _) => ∀ c, currentLocal s 0 = some c →
      ((s.processes c).state = .running ∨ (s.processes c).state = .zombie ∨ image s c = s.fpuRegisters 0) ∧
        ((s.processes c).state = .running ∨ c = bootstrap ∨ Candidate (s.processes bootstrap))
  | .call (.kill pid signal) => signal = sigStop → ∀ i, killTarget s pid signal = some i → (s.processes i).state ≠ .zombie
  | _ => True

instance Banks.decidable (s : System) : ∀ activity, Decidable (Banks s activity)
  | .call (.schedule true _) => inferInstanceAs (Decidable (∀ c, currentLocal s 0 = some c →
      ((s.processes c).state = .running ∨ (s.processes c).state = .zombie ∨ image s c = s.fpuRegisters 0) ∧
        ((s.processes c).state = .running ∨ c = bootstrap ∨ Candidate (s.processes bootstrap))))
  | .call (.kill pid signal) => inferInstanceAs (Decidable (signal = sigStop → ∀ i, killTarget s pid signal = some i →
      (s.processes i).state ≠ .zombie))
  | .call (.schedule false _) | .call .requestReschedule | .call (.create _ _ _ _ _ _) | .call (.replace _ _ _ _ _ _)
  | .call (.fork _) | .call (.createKernelThread _) | .call (.createUserThread _) | .call (.exit _)
  | .call (.waitpid _ _) | .call (.joinThread _ _) | .call (.sleepOn _) | .call (.wakeup _) | .call (.reapPid _)
  | .call (.setPriority _ _) | .call (.setCapabilities _ _) | .call (.memory _) | .compute _ => isTrue trivial

/-- What the saved images say of the tasks that are off the CPU. -/
structure Banked (t : Contexts) : Prop where
  sound : Sound t.system
  enabled : t.system.fpuEnabled = true
  current : ∃ c, currentLocal t.system 0 = some c
  blank : ∀ i, (t.system.processes i).state = .unused → t.last i = none
  saved : ∀ i value, t.last i = some value → currentLocal t.system 0 ≠ some i →
    (t.system.processes i).state = .zombie ∨ image t.system i = value

/-- A terminated task off the CPU stays one until it is reaped. -/
theorem effect_parked {s : System} {call : Call} {i : Slot} {p : Process} (sound : Sound s)
    (banks : Banks s (.call call)) (dead : (s.processes i).state = .zombie) (parked : currentLocal s 0 ≠ some i)
    (effect : Effect s call i p) : p.state = .zombie ∨ p.state = .unused := by
  have ordinary : i ≠ bootstrap := by
    rintro rfl
    exact sound.alive dead
  cases effect with
  | kept same => exact .inl ((control_state same).trans dead)
  | scheduled change => exact (scheduled_zombie ordinary dead change).imp And.left id
  | spawned free => exact .inr (by rw [free] at dead; cases dead)
  | replaced caller => exact absurd caller parked
  | terminated _ same => exact .inl (congrArg Control.state same)
  | parentReleased _ _ waiting => cases dead.symm.trans waiting
  | joinerReleased _ _ _ waiting => cases dead.symm.trans waiting
  | woken _ _ waiting => cases dead.symm.trans waiting
  | waits caller => exact absurd caller parked
  | joins caller => exact absurd caller parked
  | sleeps caller => exact absurd caller parked
  | reaped => exact .inr rfl
  | stopped target => exact absurd dead (banks rfl i target)
  | continued _ paused => cases dead.symm.trans paused

section Step
variable {t : Contexts} (banked : Banked t)
include banked

theorem schedule_kept {frame : Frame} {c : Slot} (banks : Banks t.system (.call (.schedule true frame)))
    (caller : currentLocal t.system 0 = some c) (passes : Passes t.system c (processSchedule t.system 0 true frame).1
      (processSchedule t.system 0 true frame).2) : RegistersKept t (.call (.schedule true frame)) := by
  obtain ⟨saved,idle⟩ := banks c caller
  rintro acquired frame' equal
  cases equal
  have stopped (i : Slot) : stops t.system (.schedule true frame) i = decide (i = c) := by
    simp only [stops,caller,Option.some.injEq,eq_comm]
  have last (i : Slot) (value : FpuImage) (known : (contextStep t (.call (.schedule true frame))).last i = some value) :
      if i = c then value = t.system.fpuRegisters 0 else t.last i = some value := by
    simp only [contextStep,stopped] at known
    split at known
    · cases known
    by_cases own : i = c
    · rw [if_pos own]
      simp only [own,decide_true,if_true,Option.some.injEq] at known
      exact known.symm
    · rw [if_neg own]
      simpa only [own,decide_false,Bool.false_eq_true,if_false] using known
  constructor
  · intro i saved' value resumed known
    have before := last i value known
    simp only [contextStep,step]
    rw [resumed] at passes
    cases passes with
    | resumes _ current ready registers images =>
      rw [registers]
      by_cases own : i = c
      · rw [if_pos own] at before
        rw [own] at ready ⊢
        rcases saved with running | dead | equal
        · cases ready.symm.trans running
        · cases ready.symm.trans dead
        · rw [equal,before]
      · rw [if_neg own] at before
        rcases banked.saved i value before (by rw [caller]; simpa using Ne.symm own) with dead | same
        · cases ready.symm.trans dead
        · exact same
    | idles _ current halted alone registers images =>
      rw [registers]
      by_cases own : bootstrap = c
      · rw [if_pos own] at before
        exact before.symm
      · rcases idle with running | same | candidate
        · exact absurd running halted
        · exact absurd same.symm own
        · exact absurd candidate (alone bootstrap own)
  · intro own kept
    rw [kept] at passes
    simp only [contextStep,step]
    cases passes with
    | stays _ _ registers _ => exact registers

theorem schedule_banked {frame : Frame} {c : Slot} (banks : Banks t.system (.call (.schedule true frame)))
    (caller : currentLocal t.system 0 = some c) (passes : Passes t.system c (processSchedule t.system 0 true frame).1
      (processSchedule t.system 0 true frame).2) : Banked (contextStep t (.call (.schedule true frame))) := by
  obtain ⟨resaved,_⟩ := banks c caller
  have stopped (i : Slot) : stops t.system (.schedule true frame) i = decide (i = c) := by
    simp only [stops,caller,Option.some.injEq,eq_comm]
  have goes : (step t.system (.schedule true frame)).fpuEnabled = true ∧
      ∃ n, currentLocal (step t.system (.schedule true frame)) 0 = some n := by
    simp only [step]
    generalize (processSchedule t.system 0 true frame).2 = resumed at passes
    cases passes with
    | stays enabled current => exact ⟨enabled.trans banked.enabled,_,current⟩
    | resumes enabled current => exact ⟨enabled.trans banked.enabled,_,current⟩
    | idles enabled current => exact ⟨enabled.trans banked.enabled,_,current⟩
  have dies (i : Slot) (dead : (t.system.processes i).state = .zombie) :
      ((step t.system (.schedule true frame)).processes i).state = .zombie ∨
        ((step t.system (.schedule true frame)).processes i).state = .unused := by
    have ordinary : i ≠ bootstrap := by
      rintro rfl
      exact banked.sound.alive dead
    exact (scheduled_zombie ordinary dead (processSchedule_scheduled t.system 0 true frame i)).imp And.left id
  have images (i : Slot) (off : currentLocal (step t.system (.schedule true frame)) 0 ≠ some i)
      (live : ((step t.system (.schedule true frame)).processes i).state ≠ .unused) :
      image (step t.system (.schedule true frame)) i =
        if i = c ∧ (t.system.processes c).state = .running then t.system.fpuRegisters 0 else image t.system i := by
    simp only [step] at off live ⊢
    generalize (processSchedule t.system 0 true frame).2 = resumed at passes
    cases passes with
    | stays _ current registers images =>
      rw [images i,if_neg]
      rintro ⟨rfl,_⟩
      exact off current
    | resumes _ current ready registers images => exact (images i).resolve_left live
    | idles _ current halted alone registers images =>
      rw [(images i).resolve_left live,if_neg]
      rintro ⟨_,running⟩
      exact halted running
  refine ⟨sound_step banked.sound (.schedule true frame),goes.1,goes.2,fun i free => if_pos free,?_⟩
  intro i value known off
  simp only [contextStep,stopped] at known
  split at known
  · cases known
  next live =>
    have same := images i off live
    by_cases own : i = c
    · subst own
      simp only [decide_true,if_true,Option.some.injEq] at known
      rcases resaved with running | dead | equal
      · right
        rw [if_pos ⟨rfl,running⟩] at same
        exact same.trans known
      · exact .inl ((dies i dead).resolve_right live)
      · right
        rw [equal,ite_self] at same
        exact same.trans known
    · simp only [own,decide_false,Bool.false_eq_true,if_false] at known
      rcases banked.saved i value known (by rw [caller]; simpa using Ne.symm own) with dead | saved
      · exact .inl ((dies i dead).resolve_right live)
      · right
        rw [if_neg (fun both => own both.1)] at same
        exact same.trans saved

theorem call_banked {call : Call} (banks : Banks t.system (.call call)) (other : call.schedules = false) :
    Banked (contextStep t (.call call)) := by
  have steady := step_steady t.system call other
  have current : (step t.system call).currentByCpu = t.system.currentByCpu :=
    step_current t.system banked.sound.counter call (by rintro _ _ rfl; cases other)
  have same (cpu : Nat) : currentLocal (step t.system call) cpu = currentLocal t.system cpu := by
    simp only [currentLocal,current]
  have stopped (i : Slot) : stops t.system call i = false := by
    cases call with
    | schedule => cases other
    | _ => rfl
  refine ⟨sound_step banked.sound call,steady.enabled.trans banked.enabled,?_,?_,?_⟩
  · obtain ⟨c,caller⟩ := banked.current
    exact ⟨c,(same 0).trans caller⟩
  · intro i free
    exact if_pos free
  · intro i value known off
    simp only [contextStep,stopped,Bool.false_eq_true,if_false] at known
    split at known
    · cases known
    next live =>
      have parked : currentLocal t.system 0 ≠ some i := by
        rw [← same 0]
        exact off
      have taken : (t.system.processes i).state ≠ .unused := by
        intro free
        rw [banked.blank i free] at known
        cases known
      rcases banked.saved i value known parked with dead | saved
      · left
        have effect := step_effect t.system banked.sound.counter call i
        exact (effect_parked banked.sound banks dead parked effect).resolve_right live
      · right
        rw [← saved]
        rcases step_traits t.system call other with (table | ⟨k,p,free,_,_,table⟩) | retains
        · apply image_congr steady.initial
          simp only [table]
        · have apart : i ≠ k := by
            rintro rfl
            exact taken (findFreeSlot_unused free)
          apply image_congr steady.initial
          simp only [table,Function.update_of_ne apart]
        · cases retains i with
          | kept traits => exact image_congr steady.initial traits
          | cleared free => exact absurd free live
          | capable _ traits =>
            exact image_fields steady.initial (congrArg Traits.fpuState traits) (congrArg Traits.fpuValid traits)

theorem compute_banked (value : FpuImage) : Banked (contextStep t (.compute value)) where
  sound := ⟨banked.sound.counter,banked.sound.threads,banked.sound.process,banked.sound.alive,banked.sound.taken⟩
  enabled := banked.enabled
  current := banked.current
  blank := banked.blank
  saved := banked.saved

/-- The scheduler without the lock does nothing. -/
theorem refused_banked (frame : Frame) : Banked (contextStep t (.call (.schedule false frame))) := by
  refine ⟨banked.sound,banked.enabled,banked.current,fun i free => if_pos free,?_⟩
  intro i value known off
  simp only [contextStep,stops,Bool.false_eq_true,if_false] at known
  split at known
  · cases known
  · exact banked.saved i value known off

omit banked in
theorem refused_kept (t : Contexts) (frame : Frame) : RegistersKept t (.call (.schedule false frame)) := by
  rintro acquired frame' equal
  cases equal
  refine ⟨?_,fun own kept => rfl⟩
  intro i saved value resumed
  cases resumed

theorem step_banked {activity : Activity} (banks : Banks t.system activity) :
    Banked (contextStep t activity) ∧ RegistersKept t activity := by
  cases activity with
  | compute value => exact ⟨compute_banked banked value,nofun⟩
  | call call =>
    cases scheduling : call.schedules with
    | false =>
      refine ⟨call_banked banked banks scheduling,?_⟩
      rintro acquired frame equal
      cases equal
      cases scheduling
    | true =>
      cases call with
      | schedule acquired frame =>
        cases acquired with
        | true =>
          obtain ⟨c,caller⟩ := banked.current
          have passes := processSchedule_passes caller banked.enabled frame
          exact ⟨schedule_banked banked banks caller passes,schedule_kept banked banks caller passes⟩
        | false => exact ⟨refused_banked banked frame,refused_kept t frame⟩
      | _ => cases scheduling

end Step

theorem boot_banked (s : System) (idle schedule : Nat) (enabled : s.fpuEnabled = true) :
    Banked (contextBoot s idle schedule) := by
  refine ⟨boot_sound s idle schedule,?_,⟨bootstrap,boot_current s idle schedule⟩,fun _ _ => rfl,?_⟩
  · have moved (s : System) (i : Option Slot) : (setCurrentLocal s 0 i).fpuEnabled = s.fpuEnabled := by
      unfold setCurrentLocal
      split <;> rfl
    simp only [contextBoot,boot,processInit,moved]
    split <;> exact enabled
  · intro i value known
    exact (Option.some_ne_none value known.symm).elim

/-- With the FPU enabled, in a run whose switches meet the condition, a task finds in the
registers what it left there. -/
theorem registers_kept (s : System) (idle schedule : Nat) (enabled : s.fpuEnabled = true) (activities : List Activity)
    (activity : Activity) (banks : Meets contextStep (fun t activity => Banks t.system activity)
      (contextBoot s idle schedule) (activities ++ [activity])) :
    RegistersKept (run contextStep (contextBoot s idle schedule) activities) activity := by
  have preserved (t : Contexts) (activity : Activity) (banked : Banked t) (banks : Banks t.system activity) :
      Banked (contextStep t activity) := (step_banked banked banks).1
  obtain ⟨before,last⟩ := (meets_append contextStep _ _ activities [activity]).mp banks
  have banked := before.invariant preserved (boot_banked s idle schedule enabled)
  exact (step_banked banked last.1).2

def withFpu : System := {blank with fpuEnabled := true}

/-- The process of slot 1 puts 1 into the registers. -/
def computing : List Activity := (launch (boot withFpu 0x1000 0x2000)).map .call ++ [.compute 1]

/-- It gives up the CPU to the idle task, which computes something else. -/
def preempted : List Activity := computing ++ yield.map .call ++ [.compute 2,.call .requestReschedule]

theorem preempted_registers_kept :
    RegistersKept (run contextStep (contextBoot withFpu 0x1000 0x2000) preempted) (.call (.schedule true zeroFrame)) :=
  registers_kept withFpu 0x1000 0x2000 rfl preempted (.call (.schedule true zeroFrame)) (by decide +kernel)

/-- It sleeps on a channel and is woken. -/
def slept : List Activity :=
  computing ++ [.call (.sleepOn 5),.call (.schedule true zeroFrame),.call (.wakeup 5),.call .requestReschedule]

def sleeperWakes : Contexts := run contextStep (contextBoot withFpu 0x1000 0x2000) slept

/-- A task that has been asleep finds the initial image in place of its registers. -/
theorem slept_registers_lost :
    ¬ ∀ (s : System) (idle schedule : Nat), s.fpuEnabled = true → ∀ activities activity,
      RegistersKept (run contextStep (contextBoot s idle schedule) activities) activity := by
  intro kept
  have resumed : (processSchedule sleeperWakes.system 0 true zeroFrame).2 =
      .saved 1 ((processSchedule sleeperWakes.system 0 true zeroFrame).1.processes 1).savedFrame := by decide +kernel
  have left : (contextStep sleeperWakes (.call (.schedule true zeroFrame))).last 1 = some 1 := by decide +kernel
  have found : (contextStep sleeperWakes (.call (.schedule true zeroFrame))).system.fpuRegisters 0 = 0 := by
    decide +kernel
  have differ : (0 : FpuImage) ≠ 1 := by decide +kernel
  have same : RegistersKept sleeperWakes (.call (.schedule true zeroFrame)) := kept withFpu 0x1000 0x2000 rfl slept _
  have equal := (same true zeroFrame rfl).1 1
    ((processSchedule sleeperWakes.system 0 true zeroFrame).1.processes 1).savedFrame 1 resumed left
  rw [found] at equal
  exact differ equal

end LionOS.Processes

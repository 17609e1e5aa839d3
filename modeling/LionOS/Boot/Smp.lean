import LionOS.Boot.Cpus
import LionOS.Frames.Allocation
import LionOS.Library.Run

/-! How the boot processor starts the others one by one through a trampoline that they all read, in
every order of the steps of all processors. -/
namespace LionOS.Boot
open LionOS.Library LionOS.Memory

def smpStackPages : Nat := 4
def smpStartTimeout : Nat := 10000000

def smpStackSize : Nat := smpStackPages * pageSize

/-- Where the boot processor is in `smp_init`, with the processor it starts and the loads of
`wait_for_online` that are left. -/
inductive Bringup
  | enter
  | stack (index : Nat)
  | trampolineStack (index : Nat)
  | trampolineCpu (index : Nat)
  | init (index : Nat)
  | startup (index : Nat)
  | wait (index loads : Nat)
  | again (index : Nat)
  | confirm (index loads : Nat)
  | done

/-- Where another processor is: it waits for a startup after INIT, takes its stack, the directory and
its index from the trampoline, loads its task state, and announces itself. -/
inductive Ap
  | off
  | waits
  | starts
  | stacked (esp : Nat)
  | paged (esp cr3 : Nat)
  | main (esp cr3 : Nat)
  | entered (esp cr3 index : Nat)
  | loaded (esp cr3 index : Nat)
  | marked (esp cr3 index : Nat)
  | online (esp cr3 index : Nat)
  | halted
  | elsewhere

/-- What `smp_init` finds: the directory of the kernel, the address of `smp_ap_main`, the number of
processors and the APIC id of the boot processor. -/
structure Bsp where
  kernelDirectory : Nat
  smpApMain : Nat
  cpuCountHint : Nat
  lapicId : Nat

def Bsp.targetCount (k : Bsp) : Nat := if k.cpuCountHint > lionosMaxCpus then lionosMaxCpus else k.cpuCountHint

/-- The other processors by their APIC ids. -/
structure Smp where
  cpus : Nat → CpuInfo
  pages : Allocator
  apStacks : Nat → Nat
  trampolineCr3 : Nat
  trampolineEntry : Nat
  trampolineStack : Nat
  trampolineCpu : Nat
  esp0 : Nat → Nat
  apOnlineMask : BitVec 32
  onlineCount : Nat
  bsp : Bringup
  aps : Nat → Ap

def Smp.start (cpus : Nat → CpuInfo) (pages : Allocator) : Smp where
  cpus
  pages
  apStacks := fun _ => 0
  trampolineCr3 := 0
  trampolineEntry := 0
  trampolineStack := 0
  trampolineCpu := 0
  esp0 := fun _ => 0
  apOnlineMask := 0
  onlineCount := 1
  bsp := .enter
  aps := fun _ => .off

def Smp.stackTop (s : Smp) (index : Nat) : Nat := s.apStacks index + smpStackSize

/-- An interrupt to the id 0xFF goes to every processor. -/
def reaches (apicId p : Nat) : Bool := decide (p = apicId) || decide (apicId = 0xFF)

/-- INIT puts a processor back to where it waits for a startup. -/
def Smp.lapicSendInit (s : Smp) (apicId : Nat) : Smp :=
  {s with aps := fun p => if reaches apicId p then .waits else s.aps p}

/-- A startup starts a processor that waits for one. -/
def Ap.startup : Ap → Ap
  | .waits => .starts
  | ap => ap

/-- The interconnect may lose a startup. -/
def Smp.lapicSendStartup (s : Smp) (apicId : Nat) (delivered : Bool) : Smp :=
  if delivered then {s with aps := fun p => if reaches apicId p then (s.aps p).startup else s.aps p} else s

/-- A step of `smp_init`. -/
def Smp.smpInit (k : Bsp) (s : Smp) (delivered : Bool) : Smp :=
  match s.bsp with
  | .enter =>
    let s := {s with onlineCount := 1,apOnlineMask := 0}
    if k.cpuCountHint ≤ 1 ∨ k.lapicId = 0xFFFFFFFF then {s with bsp := .done}
    else {s with trampolineCr3 := k.kernelDirectory,trampolineEntry := k.smpApMain,bsp := .stack 1}
  | .stack index =>
    if index < k.targetCount then
      match pageAllocContiguous s.pages smpStackPages with
      | none => {s with apStacks := Function.update s.apStacks index 0,bsp := .done}
      | some (pages,base) => {s with pages,apStacks := Function.update s.apStacks index base,bsp := .trampolineStack index}
    else {s with bsp := .done}
  | .trampolineStack index => {s with trampolineStack := s.stackTop index,bsp := .trampolineCpu index}
  | .trampolineCpu index => {s with trampolineCpu := index,bsp := .init index}
  | .init index =>
    let targetApic := (s.cpus index).apicId
    if targetApic > 0xFF then {s with bsp := .done} else {s.lapicSendInit targetApic with bsp := .startup index}
  | .startup index => {s.lapicSendStartup (s.cpus index).apicId delivered with bsp := .wait index smpStartTimeout}
  | .wait index 0 => {s with bsp := .again index}
  | .wait index (loads+1) =>
    if s.apOnlineMask.getLsbD index then {s with bsp := .confirm index smpStartTimeout} else {s with bsp := .wait index loads}
  | .again index => {s.lapicSendStartup (s.cpus index).apicId delivered with bsp := .confirm index smpStartTimeout}
  | .confirm _ 0 => {s with bsp := .done}
  | .confirm index (loads+1) =>
    if s.apOnlineMask.getLsbD index then {s with onlineCount := s.onlineCount + 1,bsp := .stack (index + 1)}
    else {s with bsp := .confirm index loads}
  | .done => s

def cpuMarkOnline (cpus : Nat → CpuInfo) (index apicId : Nat) : Nat → CpuInfo :=
  if index ≥ lionosMaxCpus then cpus
  else Function.update cpus index {cpus index with apicId,logicalPerPackage := 1,online := 1}

/-- The stack of the kernel in the task state of a processor. -/
def tssInitCpu (esp0 : Nat → Nat) (cpu stackTop : Nat) : Nat → Nat :=
  if cpu ≥ lionosMaxCpus then esp0 else Function.update esp0 cpu stackTop

/-- A step of the processor with APIC id `p`, in the trampoline and in `smp_ap_main`. -/
def Smp.smpApMain (k : Bsp) (s : Smp) (p : Nat) : Smp :=
  let goes (ap : Ap) : Smp := {s with aps := Function.update s.aps p ap}
  match s.aps p with
  | .starts => goes (.stacked s.trampolineStack)
  | .stacked esp => goes (.paged esp s.trampolineCr3)
  | .paged esp cr3 => goes (if s.trampolineEntry = k.smpApMain then .main esp cr3 else .elsewhere)
  | .main esp cr3 => goes (if s.trampolineCpu ≥ lionosMaxCpus then .halted else .entered esp cr3 s.trampolineCpu)
  | .entered esp _ index =>
    {goes (.loaded esp k.kernelDirectory index) with esp0 := tssInitCpu s.esp0 index (s.stackTop index)}
  | .loaded esp cr3 index => {goes (.marked esp cr3 index) with cpus := cpuMarkOnline s.cpus index p}
  | .marked esp cr3 index => {goes (.online esp cr3 index) with apOnlineMask := s.apOnlineMask ||| 1#32 <<< index}
  | .off | .waits | .online _ _ _ | .halted | .elsewhere => s

/-- Whose turn it is, and whether the startup of the boot processor is delivered. -/
inductive Turn
  | bsp (delivered : Bool)
  | ap (p : Nat)

def Smp.step (k : Bsp) (s : Smp) : Turn → Smp
  | .bsp delivered => s.smpInit k delivered
  | .ap p => s.smpApMain k p

section Stages

def Ap.esp : Ap → Option Nat
  | .stacked esp | .paged esp _ | .main esp _ | .entered esp _ _ | .loaded esp _ _ | .marked esp _ _ | .online esp _ _ => some esp
  | _ => none

def Ap.cr3 : Ap → Option Nat
  | .paged _ cr3 | .main _ cr3 | .entered _ cr3 _ | .loaded _ cr3 _ | .marked _ cr3 _ | .online _ cr3 _ => some cr3
  | _ => none

def Ap.index : Ap → Option Nat
  | .entered _ _ index | .loaded _ _ index | .marked _ _ index | .online _ _ index => some index
  | _ => none

def Ap.hasTask : Ap → Bool
  | .loaded _ _ _ | .marked _ _ _ | .online _ _ _ => true
  | _ => false

def Ap.announced : Ap → Bool
  | .marked _ _ _ | .online _ _ _ => true
  | _ => false

def Ap.awake : Ap → Bool
  | .online _ _ _ => true
  | _ => false

def Ap.lost : Ap → Bool
  | .halted | .elsewhere => true
  | _ => false

def Bringup.index : Bringup → Option Nat
  | .stack index | .trampolineStack index | .trampolineCpu index | .init index | .startup index | .wait index _
  | .again index | .confirm index _ => some index
  | .enter | .done => none

/-- How much of the trampoline is written for the processor that is started. -/
def Bringup.level : Bringup → Nat
  | .enter | .done => 0
  | .stack _ => 1
  | .trampolineStack _ => 2
  | .trampolineCpu _ => 3
  | .init _ => 4
  | .startup _ | .wait _ _ | .again _ | .confirm _ _ => 5

/-- The processor that is started may run. -/
def Bringup.sent : Bringup → Bool
  | .startup _ | .wait _ _ | .again _ | .confirm _ _ | .done => true
  | _ => false

end Stages

/-- The processors of the firmware have distinct ids, none of them the id that reaches every processor,
and only the boot processor is online. -/
structure Startable (k : Bsp) (cpus : Nat → CpuInfo) : Prop where
  distinct : ∀ i j, i < k.targetCount → j < k.targetCount → (cpus i).apicId = (cpus j).apicId → i = j
  single : ∀ i < k.targetCount, (cpus i).apicId ≠ 0xFF
  own : (cpus 0).online = 1
  others : ∀ i, 0 < i → i < lionosMaxCpus → (cpus i).online = 0

section Invariant
variable (k : Bsp) (cpus : Nat → CpuInfo) (pages : Allocator)

/-- What a processor has so far is what is meant for processor `i`. -/
structure Own (s : Smp) (i : Nat) (ap : Ap) : Prop where
  esp : ∀ esp, ap.esp = some esp → esp = s.stackTop i
  cr3 : ∀ cr3, ap.cr3 = some cr3 → cr3 = k.kernelDirectory
  index : ∀ index, ap.index = some index → index = i
  task : ap.hasTask = true → s.esp0 i = s.stackTop i
  flag : ap.announced = true → (s.cpus i).online = 1
  bit : ap.awake = true → s.apOnlineMask.getLsbD i = true
  found : ap.lost = false

/-- The trampoline is written for processor `i`. -/
structure Prepared (s : Smp) (i : Nat) : Prop where
  cr3 : s.trampolineCr3 = k.kernelDirectory
  entry : s.trampolineEntry = k.smpApMain
  stack : s.trampolineStack = s.stackTop i
  cpu : s.trampolineCpu = i

/-- A started processor runs for one index: it is one of those counted, or the one that the
trampoline is written for. -/
structure Started (s : Smp) (p i : Nat) : Prop where
  positive : 1 ≤ i
  below : i < k.targetCount
  id : (cpus i).apicId = p
  stack : s.apStacks i ≠ 0
  own : Own k s i (s.aps p)
  turn : i < s.onlineCount ∧ (s.aps p).awake = true ∨ i = s.onlineCount ∧ s.bsp.sent = true ∧ Prepared k s i

structure Sound (s : Smp) : Prop where
  ids : ∀ i, (s.cpus i).apicId = (cpus i).apicId
  counted : 1 ≤ s.onlineCount
  enter : s.bsp = .enter → s.onlineCount = 1
  index : ∀ i, s.bsp.index = some i → i = s.onlineCount
  directory : 1 ≤ s.bsp.level → s.trampolineCr3 = k.kernelDirectory ∧ s.trampolineEntry = k.smpApMain
  below : 2 ≤ s.bsp.level → s.onlineCount < k.targetCount ∧ s.apStacks s.onlineCount ≠ 0
  stack : 3 ≤ s.bsp.level → s.trampolineStack = s.stackTop s.onlineCount
  cpu : 4 ≤ s.bsp.level → s.trampolineCpu = s.onlineCount
  started : ∀ p, s.aps p ≠ .off → ∃ i, Started k cpus s p i
  earlier : ∀ i, 1 ≤ i → i < s.onlineCount → i < k.targetCount ∧ (s.aps (cpus i).apicId).awake = true
  mask : ∀ i, s.apOnlineMask.getLsbD i = true → 1 ≤ i ∧ i < k.targetCount ∧ (s.aps (cpus i).apicId).awake = true
  flags : ∀ i < lionosMaxCpus, (s.cpus i).online = 1 → i = 0 ∨ i < k.targetCount ∧ (s.aps (cpus i).apicId).announced = true
  boots : (s.cpus 0).online = 1
  free : ∀ q, isFree s.pages q = true → isFree pages q = true
  blocks : ∀ i, s.apStacks i ≠ 0 → ∃ first, s.apStacks i = first * pageSize ∧
    ∀ q, first ≤ q → q < first + smpStackPages → isFree pages q = true ∧ isFree s.pages q = false
  apart : ∀ i j, i ≠ j → s.apStacks i ≠ 0 → s.apStacks j ≠ 0 → s.stackTop i ≤ s.apStacks j ∨ s.stackTop j ≤ s.apStacks i

end Invariant

section Steps
variable {k : Bsp} {cpus : Nat → CpuInfo} {pages : Allocator} {s : Smp}

theorem Ap.startup_off {ap : Ap} : ap.startup = .off ↔ ap = .off := by cases ap <;> simp [Ap.startup]

@[simp] theorem Ap.awake_startup (ap : Ap) : ap.startup.awake = ap.awake := by cases ap <;> rfl

@[simp] theorem Ap.announced_startup (ap : Ap) : ap.startup.announced = ap.announced := by cases ap <;> rfl

/-- A processor that has not loaded its task state. -/
theorem Own.early {i : Nat} {ap : Ap} (esp : ∀ esp, ap.esp = some esp → esp = s.stackTop i)
    (cr3 : ∀ cr3, ap.cr3 = some cr3 → cr3 = k.kernelDirectory) (index : ∀ index, ap.index = some index → index = i)
    (task : ap.hasTask = false) (flag : ap.announced = false) (bit : ap.awake = false) (found : ap.lost = false) : Own k s i ap := by
  refine ⟨esp,cr3,index,?_,?_,?_,found⟩
  · rw [task]
    exact fun loaded => by cases loaded
  · rw [flag]
    exact fun marked => by cases marked
  · rw [bit]
    exact fun up => by cases up

/-- A processor that starts has nothing yet. -/
theorem Own.startup {i : Nat} {ap : Ap} (own : Own k s i ap) : Own k s i ap.startup := by
  cases ap with
  | waits => exact .early (by simp [Ap.startup,Ap.esp]) (by simp [Ap.startup,Ap.cr3]) (by simp [Ap.startup,Ap.index]) rfl rfl rfl rfl
  | _ => exact own

theorem Own.waits {i : Nat} : Own k s i .waits :=
  .early (by simp [Ap.esp]) (by simp [Ap.cr3]) (by simp [Ap.index]) rfl rfl rfl rfl

/-- What a processor has stays its own while its entries of the tables do. -/
theorem Own.frame {s' : Smp} {i : Nat} {ap : Ap} (own : Own k s i ap) (kept : s'.apStacks i = s.apStacks i)
    (task : s'.esp0 i = s.esp0 i) (flag : (s'.cpus i).online = (s.cpus i).online)
    (bit : s.apOnlineMask.getLsbD i = true → s'.apOnlineMask.getLsbD i = true) : Own k s' i ap := by
  have top : s'.stackTop i = s.stackTop i := congrArg (· + smpStackSize) kept
  refine ⟨?_,own.cr3,own.index,?_,?_,fun awake => bit (own.bit awake),own.found⟩
  · rw [top]
    exact own.esp
  · rw [top,task]
    exact own.task
  · rw [flag]
    exact own.flag

/-- The index of a started processor is the one that the firmware gives it. -/
theorem Started.same (startable : Startable k cpus) {p i j : Nat} (started : Started k cpus s p i) (below : j < k.targetCount)
    (id : (cpus j).apicId = p) : j = i :=
  startable.distinct j i below started.below (id.trans started.id.symm)

/-- A processor goes on, with its entries of the tables. -/
theorem Sound.goes (startable : Startable k cpus) (sound : Sound k cpus pages s) {p i : Nat} (started : Started k cpus s p i)
    {ap : Ap} {infos : Nat → CpuInfo} {esp0 : Nat → Nat} {mask : BitVec 32}
    (awake : (s.aps p).awake = true → ap.awake = true) (announced : (s.aps p).announced = true → ap.announced = true)
    (ids : ∀ j, (infos j).apicId = (s.cpus j).apicId)
    (flags : ∀ j, j ≠ i → (infos j).online = (s.cpus j).online) (task : ∀ j, j ≠ i → esp0 j = s.esp0 j)
    (others : ∀ j, j ≠ i → mask.getLsbD j = s.apOnlineMask.getLsbD j)
    (flag : (infos i).online = 1 → ap.announced = true) (bit : mask.getLsbD i = true → ap.awake = true)
    (own : Own k {s with aps := Function.update s.aps p ap,cpus := infos,esp0,apOnlineMask := mask} i ap) :
    Sound k cpus pages {s with aps := Function.update s.aps p ap,cpus := infos,esp0,apOnlineMask := mask} := by
  have mine : Function.update s.aps p ap (cpus i).apicId = ap := by rw [started.id,Function.update_self]
  have other {j : Nat} (below : j < k.targetCount) (ne : j ≠ i) : (cpus j).apicId ≠ p :=
    fun same => ne (started.same startable below same)
  have wakes {j : Nat} (below : j < k.targetCount) (up : (s.aps (cpus j).apicId).awake = true) :
      (Function.update s.aps p ap (cpus j).apicId).awake = true := by
    by_cases same : (cpus j).apicId = p
    · rw [same,Function.update_self]
      exact awake (same ▸ up)
    · rw [Function.update_of_ne same]
      exact up
  constructor
  case ids => exact fun j => (ids j).trans (sound.ids j)
  case counted => exact sound.counted
  case enter => exact sound.enter
  case index => exact sound.index
  case directory => exact sound.directory
  case below => exact sound.below
  case stack => exact sound.stack
  case cpu => exact sound.cpu
  case free => exact sound.free
  case blocks => exact sound.blocks
  case apart => exact sound.apart
  case started =>
    intro q on
    dsimp only at on ⊢
    by_cases same : q = p
    · subst same
      refine ⟨i,started.positive,started.below,started.id,started.stack,?_,?_⟩
      · dsimp only
        rw [Function.update_self]
        exact own
      · dsimp only
        rw [Function.update_self]
        exact started.turn.imp (And.imp_right awake) fun now => ⟨now.1,now.2.1,now.2.2.cr3,now.2.2.entry,now.2.2.stack,now.2.2.cpu⟩
    · rw [Function.update_of_ne same] at on
      obtain ⟨j,before⟩ := sound.started q on
      have ne : j ≠ i := by
        rintro rfl
        exact same (before.id.symm.trans started.id)
      refine ⟨j,before.positive,before.below,before.id,before.stack,?_,?_⟩
      · dsimp only
        rw [Function.update_of_ne same]
        exact before.own.frame rfl (task j ne) (flags j ne) (fun up => (others j ne).trans up)
      · dsimp only
        rw [Function.update_of_ne same]
        exact before.turn.imp_right fun now => ⟨now.1,now.2.1,now.2.2.cr3,now.2.2.entry,now.2.2.stack,now.2.2.cpu⟩
  case earlier =>
    intro j low high
    obtain ⟨below,up⟩ := sound.earlier j low high
    exact ⟨below,wakes below up⟩
  case mask =>
    intro j set
    dsimp only at set ⊢
    by_cases same : j = i
    · subst same
      rw [mine]
      exact ⟨started.positive,started.below,bit set⟩
    · rw [others j same] at set
      obtain ⟨low,below,up⟩ := sound.mask j set
      exact ⟨low,below,wakes below up⟩
  case flags =>
    intro j few set
    dsimp only at set ⊢
    by_cases same : j = i
    · subst same
      rw [mine]
      exact .inr ⟨started.below,flag set⟩
    · rw [flags j same] at set
      refine (sound.flags j few set).imp_right fun here => ⟨here.1,?_⟩
      rw [Function.update_of_ne (other here.1 same)]
      exact here.2
  case boots =>
    have low := started.positive
    exact (flags 0 (by omega)).trans sound.boots

theorem targetCount_le (k : Bsp) : k.targetCount ≤ lionosMaxCpus := by
  unfold Bsp.targetCount
  split <;> omega

/-- No one sees a processor that has not announced itself. -/
theorem Sound.silent (sound : Sound k cpus pages s) {p i : Nat} (started : Started k cpus s p i)
    (quiet : (s.aps p).announced = false) : (s.cpus i).online ≠ 1 := by
  intro set
  have low := started.positive
  rcases sound.flags i (Nat.lt_of_lt_of_le started.below (targetCount_le k)) set with zero | ⟨_,up⟩
  · omega
  · rw [started.id,quiet] at up
    cases up

theorem Sound.unset (sound : Sound k cpus pages s) {p i : Nat} (started : Started k cpus s p i)
    (asleep : (s.aps p).awake = false) : s.apOnlineMask.getLsbD i ≠ true := by
  intro set
  have up := (sound.mask i set).2.2
  rw [started.id,asleep] at up
  cases up

/-- A processor goes on before it announces itself. -/
theorem Sound.walks (startable : Startable k cpus) (sound : Sound k cpus pages s) {p i : Nat} (started : Started k cpus s p i)
    {ap : Ap} {esp0 : Nat → Nat} (task : ∀ j, j ≠ i → esp0 j = s.esp0 j)
    (quiet : (s.aps p).announced = false) (asleep : (s.aps p).awake = false)
    (own : Own k {s with esp0} i ap) : Sound k cpus pages {s with aps := Function.update s.aps p ap,esp0} := by
  refine sound.goes startable started ?_ ?_ (fun _ => rfl) (fun _ _ => rfl) task (fun _ _ => rfl) ?_ ?_
    ⟨own.esp,own.cr3,own.index,own.task,own.flag,own.bit,own.found⟩
  · rw [asleep]
    exact fun up => by cases up
  · rw [quiet]
    exact fun up => by cases up
  · exact fun set => absurd set (sound.silent started quiet)
  · exact fun set => absurd set (sound.unset started asleep)

theorem getLsbD_setBit (mask : BitVec 32) {i : Nat} (few : i < 32) (j : Nat) :
    (mask ||| 1#32 <<< i).getLsbD j = (mask.getLsbD j || decide (j = i)) := by
  rw [BitVec.getLsbD_or,BitVec.getLsbD_shiftLeft]
  congr 1
  rw [BitVec.getLsbD_one,Bool.eq_iff_iff]
  simp only [Bool.and_eq_true,decide_eq_true_eq,Bool.not_eq_true',decide_eq_false_iff_not]
  omega

/-- What the trampoline holds for a processor that is not yet awake. -/
theorem Started.prepared {p i : Nat} (started : Started k cpus s p i) (asleep : (s.aps p).awake = false) : Prepared k s i := by
  rcases started.turn with ⟨_,up⟩ | ⟨_,_,prepared⟩
  · rw [asleep] at up
    cases up
  · exact prepared

theorem Sound.ap (startable : Startable k cpus) (sound : Sound k cpus pages s) (p : Nat) :
    Sound k cpus pages (s.smpApMain k p) := by
  by_cases off : s.aps p = .off
  · unfold Smp.smpApMain
    rw [off]
    exact sound
  obtain ⟨i,started⟩ := sound.started p off
  have own := started.own
  have prepared := started.prepared
  have few : i < lionosMaxCpus := Nat.lt_of_lt_of_le started.below (targetCount_le k)
  unfold Smp.smpApMain
  cases place : s.aps p with
  | off | waits | online | halted | elsewhere => exact sound
  | starts =>
    rw [place] at prepared
    refine sound.walks startable started (fun _ _ => rfl) (place ▸ rfl) (place ▸ rfl) (.early ?_ (by simp [Ap.cr3]) (by simp [Ap.index]) rfl rfl rfl rfl)
    intro esp same
    rw [← Option.some.inj same]
    exact (prepared rfl).stack
  | stacked esp =>
    rw [place] at prepared own
    refine sound.walks startable started (fun _ _ => rfl) (place ▸ rfl) (place ▸ rfl) (.early own.esp ?_ (by simp [Ap.index]) rfl rfl rfl rfl)
    intro cr3 same
    rw [← Option.some.inj same]
    exact (prepared rfl).cr3
  | paged esp cr3 =>
    rw [place] at prepared own
    dsimp only
    rw [if_pos (prepared rfl).entry]
    exact sound.walks startable started (fun _ _ => rfl) (place ▸ rfl) (place ▸ rfl) (.early own.esp own.cr3 (by simp [Ap.index]) rfl rfl rfl rfl)
  | main esp cr3 =>
    rw [place] at prepared own
    dsimp only
    have cpu := (prepared rfl).cpu
    rw [if_neg (by omega)]
    refine sound.walks startable started (fun _ _ => rfl) (place ▸ rfl) (place ▸ rfl) (.early own.esp own.cr3 ?_ rfl rfl rfl rfl)
    intro index same
    exact (Option.some.inj same).symm.trans cpu
  | entered esp cr3 index =>
    rw [place] at own
    obtain rfl := own.index index rfl
    have table : tssInitCpu s.esp0 index (s.stackTop index) = Function.update s.esp0 index (s.stackTop index) :=
      if_neg (by omega)
    dsimp only
    rw [table]
    refine sound.walks startable started (fun j ne => Function.update_of_ne ne ..) (place ▸ rfl) (place ▸ rfl)
      ⟨own.esp,?_,own.index,?_,own.flag,own.bit,rfl⟩
    · exact fun cr3 same => (Option.some.inj same).symm
    · exact fun _ => Function.update_self ..
  | loaded esp cr3 index =>
    rw [place] at own
    obtain rfl := own.index index rfl
    have table : cpuMarkOnline s.cpus index p =
        Function.update s.cpus index {s.cpus index with apicId := p,logicalPerPackage := 1,online := 1} := if_neg (by omega)
    dsimp only
    rw [table]
    refine sound.goes startable started (place ▸ fun up => up) (fun _ => rfl) ?_
      (fun j ne => congrArg CpuInfo.online (Function.update_of_ne ne ..)) (fun _ _ => rfl) (fun _ _ => rfl) (fun _ => rfl) ?_
      ⟨own.esp,own.cr3,own.index,fun _ => own.task rfl,?_,own.bit,rfl⟩
    · intro j
      by_cases same : j = index
      · rw [same,Function.update_self,sound.ids index,started.id]
      · rw [Function.update_of_ne same]
    · exact fun set => absurd set (sound.unset started (place ▸ rfl))
    · intro _
      dsimp only
      rw [Function.update_self]
  | marked esp cr3 index =>
    rw [place] at own
    obtain rfl := own.index index rfl
    have set := getLsbD_setBit s.apOnlineMask (show index < 32 by unfold lionosMaxCpus at few; omega)
    refine sound.goes startable started (fun _ => rfl) (fun _ => rfl) (fun _ => rfl) (fun _ _ => rfl) (fun _ _ => rfl) ?_
      (fun _ => rfl) (fun _ => rfl) ⟨own.esp,own.cr3,own.index,fun _ => own.task rfl,fun _ => own.flag rfl,?_,rfl⟩
    · intro j ne
      rw [set,decide_eq_false ne,Bool.or_false]
    · intro _
      dsimp only
      rw [set,decide_eq_true rfl,Bool.or_true]

/-- The boot processor goes on and changes nothing. -/
theorem Sound.turns (sound : Sound k cpus pages s) {b : Bringup} (level : b.level ≤ s.bsp.level)
    (index : ∀ i, b.index = some i → s.bsp.index = some i) (sent : s.bsp.sent = true → b.sent = true)
    (inside : b ≠ .enter) : Sound k cpus pages {s with bsp := b} := by
  refine {sound with
    enter := fun same => absurd same inside
    index := fun i same => sound.index i (index i same)
    directory := fun up => sound.directory (Nat.le_trans up level)
    below := fun up => sound.below (Nat.le_trans up level)
    stack := fun up => sound.stack (Nat.le_trans up level)
    cpu := fun up => sound.cpu (Nat.le_trans up level)
    started := ?_}
  intro p on
  obtain ⟨i,started⟩ := sound.started p on
  refine ⟨i,started.positive,started.below,started.id,started.stack,started.own.frame rfl rfl rfl fun up => up,?_⟩
  exact started.turn.imp_right fun now => ⟨now.1,sent now.2.1,now.2.2.cr3,now.2.2.entry,now.2.2.stack,now.2.2.cpu⟩

theorem Smp.bsp_lapicSendStartup (s : Smp) (apicId : Nat) (delivered : Bool) :
    (s.lapicSendStartup apicId delivered).bsp = s.bsp := by
  unfold Smp.lapicSendStartup
  split <;> rfl

theorem Sound.startup (sound : Sound k cpus pages s) (apicId : Nat) (delivered : Bool) :
    Sound k cpus pages (s.lapicSendStartup apicId delivered) := by
  cases delivered with
  | false => exact sound
  | true =>
    have same (p : Nat) : (s.lapicSendStartup apicId true).aps p = s.aps p ∨
        (s.lapicSendStartup apicId true).aps p = (s.aps p).startup := by
      unfold Smp.lapicSendStartup
      rw [if_pos rfl]
      dsimp only
      split
      · exact .inr rfl
      · exact .inl rfl
    have awake (p : Nat) : ((s.lapicSendStartup apicId true).aps p).awake = (s.aps p).awake := by
      rcases same p with as | as <;> simp [as]
    have announced (p : Nat) : ((s.lapicSendStartup apicId true).aps p).announced = (s.aps p).announced := by
      rcases same p with as | as <;> simp [as]
    refine {sound with started := ?_,earlier := ?_,mask := ?_,flags := ?_}
    · intro p on
      have before : s.aps p ≠ .off := by
        rcases same p with as | as
        · exact as ▸ on
        · exact fun off => on (as.trans (Ap.startup_off.mpr off))
      obtain ⟨i,started⟩ := sound.started p before
      have own : Own k (s.lapicSendStartup apicId true) i (s.aps p) := started.own.frame rfl rfl rfl fun up => up
      refine ⟨i,started.positive,started.below,started.id,started.stack,?_,?_⟩
      · rcases same p with as | as
        · exact as ▸ own
        · exact as ▸ own.startup
      · rw [awake]
        exact started.turn.imp_right fun now => ⟨now.1,now.2.1,now.2.2.cr3,now.2.2.entry,now.2.2.stack,now.2.2.cpu⟩
    · intro i low high
      rw [awake]
      exact sound.earlier i low high
    · intro i set
      rw [awake]
      exact sound.mask i set
    · intro i few set
      rw [announced]
      exact sound.flags i few set

/-- While the trampoline is written, all that run have read it. -/
theorem Started.settled {p i : Nat} (started : Started k cpus s p i) (unsent : s.bsp.sent = false) :
    i < s.onlineCount ∧ (s.aps p).awake = true := by
  rcases started.turn with early | ⟨_,sent,_⟩
  · exact early
  · rw [unsent] at sent
    cases sent

/-- The processor that INIT is sent to has not run yet. -/
theorem Sound.init (startable : Startable k cpus) (sound : Sound k cpus pages s) {index : Nat} (place : s.bsp = .init index) :
    Sound k cpus pages {s.lapicSendInit (s.cpus index).apicId with bsp := .startup index} := by
  have now : index = s.onlineCount := sound.index index (place ▸ rfl)
  obtain ⟨below,stack⟩ := sound.below (place ▸ (by decide : 2 ≤ Bringup.level (.init 0)))
  rw [← now] at below stack
  have reached (p : Nat) : reaches (s.cpus index).apicId p = decide (p = (cpus index).apicId) := by
    unfold reaches
    rw [sound.ids,decide_eq_false (startable.single index below),Bool.or_false]
  have off : s.aps (cpus index).apicId = .off := by
    by_contra on
    obtain ⟨i,started⟩ := sound.started _ on
    have same := started.same startable below rfl
    have early := (started.settled (place ▸ rfl)).1
    omega
  have quiet (p : Nat) : (if reaches (s.cpus index).apicId p then Ap.waits else s.aps p).awake = (s.aps p).awake ∧
      (if reaches (s.cpus index).apicId p then Ap.waits else s.aps p).announced = (s.aps p).announced := by
    split
    next here =>
      rw [reached,decide_eq_true_eq] at here
      rw [here,off]
      exact ⟨rfl,rfl⟩
    next => exact ⟨rfl,rfl⟩
  have level : s.bsp.level = 4 := place ▸ rfl
  refine {sound with
    enter := fun same => by cases same
    index := fun i same => sound.index i (place ▸ same)
    directory := fun _ => sound.directory (by omega)
    below := fun _ => sound.below (by omega)
    stack := fun _ => sound.stack (by omega)
    cpu := fun _ => sound.cpu (by omega)
    started := ?_
    earlier := ?_
    mask := ?_
    flags := ?_}
  · intro p on
    by_cases here : p = (cpus index).apicId
    · have waits : (if reaches (s.cpus index).apicId p then Ap.waits else s.aps p) = .waits := by
        rw [reached,if_pos (decide_eq_true here)]
      obtain ⟨cr3,entry⟩ := sound.directory (by omega)
      refine ⟨index,now ▸ sound.counted,below,here.symm,stack,?_,.inr ⟨now,rfl,cr3,entry,?_,?_⟩⟩
      · show Own k _ index (if reaches (s.cpus index).apicId p then Ap.waits else s.aps p)
        rw [waits]
        exact .waits
      · exact now ▸ sound.stack (by omega)
      · exact now ▸ sound.cpu (by omega)
    · have as : (if reaches (s.cpus index).apicId p then Ap.waits else s.aps p) = s.aps p := by
        rw [reached,if_neg (by simpa using here)]
      obtain ⟨i,started⟩ := sound.started p fun off => on (as.trans off)
      refine ⟨i,started.positive,started.below,started.id,started.stack,?_,.inl ?_⟩
      · show Own k _ i (if reaches (s.cpus index).apicId p then Ap.waits else s.aps p)
        rw [as]
        exact started.own.frame rfl rfl rfl fun up => up
      · show i < s.onlineCount ∧ (if reaches (s.cpus index).apicId p then Ap.waits else s.aps p).awake = true
        rw [as]
        exact started.settled (place ▸ rfl)
  · intro i low high
    obtain ⟨below,up⟩ := sound.earlier i low high
    exact ⟨below,(quiet _).1.trans up⟩
  · intro i set
    obtain ⟨low,below,up⟩ := sound.mask i set
    exact ⟨low,below,(quiet _).1.trans up⟩
  · intro i few set
    exact (sound.flags i few set).imp_right fun here => ⟨here.1,(quiet _).2.trans here.2⟩

/-- The boot processor writes the trampoline. -/
theorem Sound.writes (sound : Sound k cpus pages s) (unsent : s.bsp.sent = false) {cr3 entry stack cpu : Nat} {b : Bringup}
    (inside : b ≠ .enter) (index : ∀ i, b.index = some i → i = s.onlineCount)
    (directory : 1 ≤ b.level → cr3 = k.kernelDirectory ∧ entry = k.smpApMain)
    (below : 2 ≤ b.level → s.onlineCount < k.targetCount ∧ s.apStacks s.onlineCount ≠ 0)
    (top : 3 ≤ b.level → stack = s.stackTop s.onlineCount) (own : 4 ≤ b.level → cpu = s.onlineCount) :
    Sound k cpus pages
      {s with trampolineCr3 := cr3,trampolineEntry := entry,trampolineStack := stack,trampolineCpu := cpu,bsp := b} := by
  refine {sound with
    enter := fun same => absurd same inside
    index,directory,below
    stack := top
    cpu := own
    started := ?_}
  intro p on
  obtain ⟨i,started⟩ := sound.started p on
  exact ⟨i,started.positive,started.below,started.id,started.stack,started.own.frame rfl rfl rfl fun up => up,
    .inl (started.settled unsent)⟩

/-- The stack that is allocated lies apart from those in use. -/
theorem Sound.allocates (sound : Sound k cpus pages s) {index base : Nat} {pages' : Allocator} (place : s.bsp = .stack index)
    (below : index < k.targetCount) (allocated : pageAllocContiguous s.pages smpStackPages = some (pages',base)) :
    Sound k cpus pages
      {s with pages := pages',apStacks := Function.update s.apStacks index base,bsp := .trampolineStack index} := by
  obtain ⟨first,address,takes⟩ := pageAllocContiguous_takes allocated
  have now : index = s.onlineCount := sound.index index (place ▸ rfl)
  have level : s.bsp.level = 1 := place ▸ rfl
  have used : base ≠ 0 := address ▸ takes.positive
  have apart {i : Nat} (other : i ≠ index) (stack : s.apStacks i ≠ 0) :
      s.stackTop i ≤ base ∨ base + smpStackSize ≤ s.apStacks i := by
    obtain ⟨start,at',held⟩ := sound.blocks i stack
    have clear (q : Nat) (low : start ≤ q) (high : q < start + smpStackPages) : ¬(first ≤ q ∧ q < first + smpStackPages) := by
      intro inside
      have free := takes.free q inside.1 inside.2
      rw [(held q low high).2] at free
      cases free
    have a := clear start (Nat.le_refl _)
    have b := clear (start + smpStackPages - 1)
    unfold Smp.stackTop
    rw [at',address]
    simp only [smpStackSize,smpStackPages,pageSize] at *
    omega
  refine {sound with
    enter := fun same => by cases same
    index := fun i same => (Option.some.inj same).symm.trans now
    directory := fun _ => sound.directory (by omega)
    below := fun _ => ?_
    stack := fun high => absurd high (by show ¬ 3 ≤ 2; decide)
    cpu := fun high => absurd high (by show ¬ 4 ≤ 2; decide)
    started := ?_
    free := ?_
    blocks := ?_
    apart := ?_}
  · dsimp only
    rw [← now,Function.update_self]
    exact ⟨below,used⟩
  · intro p on
    obtain ⟨i,started⟩ := sound.started p on
    have early := started.settled (place ▸ rfl)
    have same : Function.update s.apStacks index base i = s.apStacks i := Function.update_of_ne (by omega) ..
    have stack := started.stack
    rw [← same] at stack
    exact ⟨i,started.positive,started.below,started.id,stack,started.own.frame same rfl rfl fun up => up,.inl early⟩
  · intro q free
    rw [takes.rest,Bool.and_eq_true] at free
    exact sound.free q free.1
  · intro i stack
    dsimp only at stack ⊢
    by_cases here : i = index
    · rw [here,Function.update_self]
      refine ⟨first,address,fun q low high => ⟨sound.free q (takes.free q low high),?_⟩⟩
      rw [takes.rest,decide_eq_true (And.intro low high),Bool.not_true,Bool.and_false]
    · rw [Function.update_of_ne here] at stack ⊢
      obtain ⟨start,at',held⟩ := sound.blocks i stack
      exact ⟨start,at',fun q low high => ⟨(held q low high).1,takes.taken (held q low high).2⟩⟩
  · intro i j other
    unfold Smp.stackTop
    dsimp only
    by_cases left : i = index
    · have right : j ≠ index := fun same => other (left.trans same.symm)
      rw [left,Function.update_self,Function.update_of_ne right]
      exact fun _ stack => (apart right stack).symm
    · rw [Function.update_of_ne left]
      by_cases right : j = index
      · rw [right,Function.update_self]
        exact fun stack _ => apart left stack
      · rw [Function.update_of_ne right]
        exact sound.apart i j other

/-- The processor that is awake is counted. -/
theorem Sound.counts (sound : Sound k cpus pages s) {index loads : Nat} (place : s.bsp = .confirm index loads)
    (set : s.apOnlineMask.getLsbD index = true) :
    Sound k cpus pages {s with onlineCount := s.onlineCount + 1,bsp := .stack (index + 1)} := by
  have now : index = s.onlineCount := sound.index index (place ▸ rfl)
  have level : s.bsp.level = 5 := place ▸ rfl
  obtain ⟨low,below,up⟩ := sound.mask index set
  refine {sound with
    counted := Nat.le_add_left ..
    enter := fun same => by cases same
    index := fun i same => by rw [← Option.some.inj same,now]
    directory := fun _ => sound.directory (by omega)
    below := fun high => absurd high (by show ¬ 2 ≤ 1; decide)
    stack := fun high => absurd high (by show ¬ 3 ≤ 1; decide)
    cpu := fun high => absurd high (by show ¬ 4 ≤ 1; decide)
    started := ?_
    earlier := ?_}
  · intro p on
    obtain ⟨i,started⟩ := sound.started p on
    refine ⟨i,started.positive,started.below,started.id,started.stack,started.own.frame rfl rfl rfl fun up => up,.inl ?_⟩
    rcases started.turn with ⟨early,awake⟩ | ⟨here,_,_⟩
    · exact ⟨Nat.lt_succ_of_lt early,awake⟩
    · rw [here,← now] at started
      have same : p = (cpus index).apicId := started.id.symm
      exact ⟨here ▸ Nat.lt_succ_self _,same ▸ up⟩
  · intro i positive high
    rcases Nat.lt_succ_iff_lt_or_eq.mp high with early | rfl
    · exact sound.earlier i positive early
    · exact now ▸ ⟨below,up⟩

/-- Before the boot processor starts, no other runs. -/
theorem Sound.clears (sound : Sound k cpus pages s) (place : s.bsp = .enter) :
    Sound k cpus pages {s with onlineCount := 1,apOnlineMask := 0} := by
  have one := sound.enter place
  have off (p : Nat) : s.aps p = .off := by
    by_contra on
    obtain ⟨i,started⟩ := sound.started p on
    have positive := started.positive
    have early := (started.settled (place ▸ rfl)).1
    omega
  refine {sound with
    counted := Nat.le_refl _
    enter := fun _ => rfl
    index := fun i same => by rw [place] at same; cases same
    below := fun high => by rw [place] at high; exact absurd high (by decide)
    stack := fun high => by rw [place] at high; exact absurd high (by decide)
    cpu := fun high => by rw [place] at high; exact absurd high (by decide)
    started := fun p on => absurd (off p) on
    earlier := fun i low high => by dsimp only at high; omega
    mask := fun i set => ?_}
  dsimp only at set
  rw [show (0 : BitVec 32).getLsbD i = false from BitVec.getLsbD_zero] at set
  cases set

/-- The boot processor gives up where there is no stack. -/
theorem Sound.fails (sound : Sound k cpus pages s) {index : Nat} (place : s.bsp = .stack index) :
    Sound k cpus pages {s with apStacks := Function.update s.apStacks index 0,bsp := .done} := by
  have now : index = s.onlineCount := sound.index index (place ▸ rfl)
  have kept {i : Nat} (stack : Function.update s.apStacks index 0 i ≠ 0) :
      Function.update s.apStacks index 0 i = s.apStacks i := by
    refine Function.update_of_ne ?_ ..
    rintro rfl
    exact stack (Function.update_self ..)
  refine {sound with
    enter := fun same => by cases same
    index := fun i same => by cases same
    directory := fun high => absurd high (by show ¬ 1 ≤ 0; decide)
    below := fun high => absurd high (by show ¬ 2 ≤ 0; decide)
    stack := fun high => absurd high (by show ¬ 3 ≤ 0; decide)
    cpu := fun high => absurd high (by show ¬ 4 ≤ 0; decide)
    started := ?_
    blocks := ?_
    apart := ?_}
  · intro p on
    obtain ⟨i,started⟩ := sound.started p on
    have early := started.settled (place ▸ rfl)
    have same : Function.update s.apStacks index 0 i = s.apStacks i := Function.update_of_ne (by omega) ..
    have stack := started.stack
    rw [← same] at stack
    exact ⟨i,started.positive,started.below,started.id,stack,started.own.frame same rfl rfl fun up => up,.inl early⟩
  · intro i stack
    have same := kept stack
    dsimp only at stack ⊢
    rw [same] at stack ⊢
    exact sound.blocks i stack
  · intro i j other left right
    have same := kept left
    have same' := kept right
    unfold Smp.stackTop
    dsimp only at left right ⊢
    rw [same] at left ⊢
    rw [same'] at right ⊢
    exact sound.apart i j other left right

theorem Sound.bsp (startable : Startable k cpus) (sound : Sound k cpus pages s) (delivered : Bool) :
    Sound k cpus pages (s.smpInit k delivered) := by
  unfold Smp.smpInit
  cases place : s.bsp with
  | enter =>
    have clear := sound.clears place
    dsimp only
    split
    · exact clear.turns (Nat.zero_le _) (fun i same => by cases same) (fun _ => rfl) (by simp)
    · refine clear.writes (place ▸ rfl) (by simp) (fun i same => (Option.some.inj same).symm) (fun _ => ⟨rfl,rfl⟩) ?_ ?_ ?_
      · exact fun high => absurd high (by show ¬ 2 ≤ 1; decide)
      · exact fun high => absurd high (by show ¬ 3 ≤ 1; decide)
      · exact fun high => absurd high (by show ¬ 4 ≤ 1; decide)
  | stack index =>
    dsimp only
    split
    next below =>
      cases allocated : pageAllocContiguous s.pages smpStackPages with
      | none => exact sound.fails place
      | some block => exact sound.allocates place below allocated
    next => exact sound.turns (Nat.zero_le _) (fun i same => by cases same) (fun _ => rfl) (by simp)
  | trampolineStack index =>
    have now : index = s.onlineCount := sound.index index (place ▸ rfl)
    have level : s.bsp.level = 2 := place ▸ rfl
    refine sound.writes (place ▸ rfl) (by simp) (fun i same => sound.index i (place ▸ same)) (fun _ => sound.directory (by omega))
      (fun _ => sound.below (by omega)) (fun _ => now ▸ rfl) ?_
    exact fun high => absurd high (by show ¬ 4 ≤ 3; decide)
  | trampolineCpu index =>
    have now : index = s.onlineCount := sound.index index (place ▸ rfl)
    have level : s.bsp.level = 3 := place ▸ rfl
    exact sound.writes (place ▸ rfl) (by simp) (fun i same => sound.index i (place ▸ same)) (fun _ => sound.directory (by omega))
      (fun _ => sound.below (by omega)) (fun _ => sound.stack (by omega)) (fun _ => now)
  | init index =>
    dsimp only
    split
    · exact sound.turns (Nat.zero_le _) (fun i same => by cases same) (fun _ => rfl) (by simp)
    · exact sound.init startable place
  | startup index =>
    have same := (s.bsp_lapicSendStartup (s.cpus index).apicId delivered).trans place
    have sent := sound.startup (s.cpus index).apicId delivered
    exact sent.turns (same ▸ Nat.le_refl 5) (fun i here => same ▸ here) (fun _ => rfl) (by simp)
  | wait index loads =>
    have level : s.bsp.level = 5 := place ▸ rfl
    cases loads with
    | zero => exact sound.turns (Nat.le_of_eq level.symm) (fun i here => place ▸ here) (fun _ => rfl) (by simp)
    | succ loads =>
      dsimp only
      split
      · exact sound.turns (Nat.le_of_eq level.symm) (fun i here => place ▸ here) (fun _ => rfl) (by simp)
      · exact sound.turns (Nat.le_of_eq level.symm) (fun i here => place ▸ here) (fun _ => rfl) (by simp)
  | again index =>
    have same := (s.bsp_lapicSendStartup (s.cpus index).apicId delivered).trans place
    have sent := sound.startup (s.cpus index).apicId delivered
    exact sent.turns (same ▸ Nat.le_refl 5) (fun i here => same ▸ here) (fun _ => rfl) (by simp)
  | confirm index loads =>
    have level : s.bsp.level = 5 := place ▸ rfl
    cases loads with
    | zero => exact sound.turns (Nat.zero_le _) (fun i here => by cases here) (fun _ => rfl) (by simp)
    | succ loads =>
      dsimp only
      split
      next set => exact sound.counts place set
      next => exact sound.turns (Nat.le_of_eq level.symm) (fun i here => place ▸ here) (fun _ => rfl) (by simp)
  | done => exact sound

theorem Sound.start (startable : Startable k cpus) : Sound k cpus pages (.start cpus pages) where
  ids _ := rfl
  counted := Nat.le_refl _
  enter _ := rfl
  index i same := by cases same
  directory high := absurd high (by show ¬ 1 ≤ 0; decide)
  below high := absurd high (by show ¬ 2 ≤ 0; decide)
  stack high := absurd high (by show ¬ 3 ≤ 0; decide)
  cpu high := absurd high (by show ¬ 4 ≤ 0; decide)
  started p on := absurd rfl on
  earlier i low high := absurd (Nat.lt_of_le_of_lt low high) (Nat.lt_irrefl 1)
  mask i set := by
    rw [show (Smp.start cpus pages).apOnlineMask.getLsbD i = false from BitVec.getLsbD_zero] at set
    cases set
  flags i few set := by
    refine .inl ((Nat.eq_zero_or_pos i).resolve_right fun positive => ?_)
    have off := startable.others i positive few
    rw [show (cpus i).online = 1 from set] at off
    cases off
  boots := startable.own
  free q free := free
  blocks i stack := absurd rfl stack
  apart i j _ stack := absurd rfl stack

theorem Sound.step (startable : Startable k cpus) (sound : Sound k cpus pages s) (turn : Turn) :
    Sound k cpus pages (s.step k turn) := by
  cases turn with
  | bsp delivered => exact sound.bsp startable delivered
  | ap p => exact sound.ap startable p

end Steps

/-- What holds of the processors at any time: one that runs has the index that the firmware gives its
id, on a stack and with a task state of its own; the others see it once it is awake; and all but one
of them are. -/
structure StartedApart (k : Bsp) (cpus : Nat → CpuInfo) (pages : Allocator) (s : Smp) : Prop where
  own : ∀ p, s.aps p ≠ .off → ∃ i, 1 ≤ i ∧ i < k.targetCount ∧ (cpus i).apicId = p ∧ Own k s i (s.aps p)
  apart : ∀ p q esp esp', p ≠ q → (s.aps p).esp = some esp → (s.aps q).esp = some esp' →
    esp + smpStackSize ≤ esp' ∨ esp' + smpStackSize ≤ esp
  frames : ∀ p esp, (s.aps p).esp = some esp → ∀ f, esp ≤ f * pageSize + smpStackSize → f * pageSize < esp →
    isFree pages f = true ∧ isFree s.pages f = false
  mask : ∀ i, s.apOnlineMask.getLsbD i = true ↔ 1 ≤ i ∧ i < k.targetCount ∧ (s.aps (cpus i).apicId).awake = true
  flags : ∀ i < lionosMaxCpus, (s.cpus i).online = 1 ↔ i = 0 ∨ i < k.targetCount ∧ (s.aps (cpus i).apicId).announced = true
  ids : ∀ i, (s.cpus i).apicId = (cpus i).apicId
  counted : 1 ≤ s.onlineCount ∧ ∀ i, 1 ≤ i → i < s.onlineCount → i < k.targetCount ∧ (s.aps (cpus i).apicId).awake = true
  single : ∀ p, s.aps p ≠ .off → (s.aps p).awake = false → (cpus s.onlineCount).apicId = p

theorem processors_start_apart {k : Bsp} {cpus : Nat → CpuInfo} (startable : Startable k cpus) (pages : Allocator)
    (turns : List Turn) : StartedApart k cpus pages (run (Smp.step k) (.start cpus pages) turns) := by
  have sound : Sound k cpus pages (run (Smp.step k) (.start cpus pages) turns) :=
    run_invariant (fun s turn sound => sound.step startable turn) (.start startable)
  revert sound
  generalize run (Smp.step k) (.start cpus pages) turns = s
  intro sound
  have mine {p i : Nat} (started : Started k cpus s p i) {j : Nat} (below : j < k.targetCount) (id : (cpus j).apicId = p) :
      Own k s j (s.aps p) := started.same startable below id ▸ started.own
  have on {ap : Ap} {seen : Ap → Bool} (up : seen ap = true) (unseen : seen .off = false) : ap ≠ .off := by
    rintro rfl
    rw [unseen] at up
    cases up
  constructor
  case own =>
    intro p running
    obtain ⟨i,started⟩ := sound.started p running
    exact ⟨i,started.positive,started.below,started.id,started.own⟩
  case apart =>
    intro p q esp esp' other left right
    obtain ⟨i,first⟩ := sound.started p fun off => by rw [off] at left; cases left
    obtain ⟨j,second⟩ := sound.started q fun off => by rw [off] at right; cases right
    have ne : i ≠ j := by
      rintro rfl
      exact other (first.id.symm.trans second.id)
    have apart := sound.apart i j ne first.stack second.stack
    rw [first.own.esp esp left,second.own.esp esp' right]
    unfold Smp.stackTop at apart ⊢
    omega
  case frames =>
    intro p esp here f low high
    obtain ⟨i,started⟩ := sound.started p fun off => by rw [off] at here; cases here
    obtain ⟨first,place,held⟩ := sound.blocks i started.stack
    rw [started.own.esp esp here] at low high
    unfold Smp.stackTop at low high
    rw [place] at low high
    simp only [smpStackSize,smpStackPages,pageSize] at low high held
    exact held f (by omega) (by omega)
  case mask =>
    intro i
    refine ⟨sound.mask i,fun here => ?_⟩
    obtain ⟨_,below,awake⟩ := here
    obtain ⟨j,started⟩ := sound.started _ (on awake rfl)
    exact (mine started below rfl).bit awake
  case flags =>
    intro i few
    refine ⟨sound.flags i few,fun here => ?_⟩
    rcases here with rfl | ⟨below,announced⟩
    · exact sound.boots
    · obtain ⟨j,started⟩ := sound.started _ (on announced rfl)
      exact (mine started below rfl).flag announced
  case ids => exact sound.ids
  case counted => exact ⟨sound.counted,sound.earlier⟩
  case single =>
    intro p running asleep
    obtain ⟨i,started⟩ := sound.started p running
    rcases started.turn with ⟨_,awake⟩ | ⟨now,_,_⟩
    · rw [asleep] at awake
      cases awake
    · exact now ▸ started.id

/-- Two processors, of which the second starts and is counted. -/
theorem processors_start_apart_two :
    let k : Bsp := ⟨0x200000,0x101000,2,0⟩
    let cpus : Nat → CpuInfo := fun i => ⟨i,i,1,if i = 0 then 1 else 0⟩
    let pages : Allocator := ⟨fun _ => 0,fun _ => 0,maxPages,maxPages⟩
    let turns := List.replicate 6 (.bsp true) ++ List.replicate 7 (.ap 1) ++ List.replicate 3 (.bsp true)
    let s := run (Smp.step k) (.start cpus pages) turns
    StartedApart k cpus pages s ∧ (s.aps 1).esp = some 0x804000 ∧ s.onlineCount = 2 := by
  refine ⟨processors_start_apart ⟨fun _ _ _ _ same => same,?_,rfl,fun i positive _ => if_neg (by omega)⟩ _ _,?_⟩
  · intro i below
    show i ≠ 0xFF
    have few : i < 2 := below
    omega
  · decide +kernel

end LionOS.Boot

import Mathlib.Logic.Equiv.Basic
import LionOS.Boot.Robust
import LionOS.Boot.Tables

/-! Which processors `cpu_init` leaves, whatever the firmware says. -/
namespace LionOS.Boot
open LionOS.Library
open LionOS.Physical (Byte)
open LionOS.Frames (read32 read64 tagEnd)

/-- The registers of CPUID: EAX of leaf 0, EBX, ECX and EDX of leaf 1, and EBX of leaf 0xB. -/
structure Cpuid where
  maxLeaf : BitVec 32
  ebx : BitVec 32
  ecx : BitVec 32
  edx : BitVec 32
  threads : BitVec 32

def Cpuid.bsp (id : Cpuid) : Nat := ((id.ebx >>> 24) &&& 0xFF).toNat

def Cpuid.logical (id : Cpuid) : Nat :=
  let logical := ((id.ebx >>> 16) &&& 0xFF).toNat
  let logical := if logical = 0 then 1 else logical
  if logical > lionosMaxCpus then lionosMaxCpus else logical

/-- The features with their places in `cpu_features`. -/
def Cpuid.features (id : Cpuid) : List (Bool × Nat) :=
  [(id.edx.getLsbD 9,7),(id.edx.getLsbD 25,0),(id.edx.getLsbD 26,1),(id.ecx.getLsbD 0,2),(id.ecx.getLsbD 9,3),
    (id.ecx.getLsbD 19,4),(id.ecx.getLsbD 20,5),(id.ecx.getLsbD 27 && id.ecx.getLsbD 28,6)]

structure Processors where
  cpus : Nat → CpuInfo
  cpuHint : Nat
  cpuFeatures : BitVec 32

/-- `cpu_init` before it looks at the tables. -/
def fromCpuid (id : Cpuid) : Processors where
  cpus := Function.update resetCpus 0 {resetCpus 0 with apicId := id.bsp,logicalPerPackage := id.logical,online := 1}
  cpuHint := if id.maxLeaf ≥ 0xB ∧ id.threads ≠ 0 ∧ id.threads.toNat ≤ lionosMaxCpus then id.threads.toNat else id.logical
  cpuFeatures := id.features.foldl (fun flags feature => if feature.1 then flags ||| 1 <<< feature.2 else flags) 0

/-- `cpu_init` after `acpi_enumerate`. -/
def Processors.after (early : Processors) (acpiCount : Nat) (cpus : Nat → CpuInfo) : Processors :=
  if acpiCount ≠ 0 then {early with cpus := cpus,cpuHint := acpiCount}
  else {early with
    cpus := fun i => if 1 ≤ i ∧ i < lionosMaxCpus then {cpus i with apicId := 0xFFFFFFFF} else cpus i
    cpuHint := 1}

/-- `cpu_init` with what it does with the tables. -/
def cpuInit (bytes : Nat → Byte) (id : Cpuid) (multibootInfo fuel : Nat) : Option (List TableEvent × Processors) :=
  (acpiTraced bytes multibootInfo id.bsp fuel (fromCpuid id).cpus).map fun result =>
    (result.1,(fromCpuid id).after result.2.1 result.2.2)

section Condition
variable (bytes : Nat → Byte)

/-- The places of the entries of a MADT. -/
def entryPlaces (endm : Nat) : Nat → Nat → List Nat
  | 0,_ => []
  | n+1,p =>
    let len := (bytes (p + 1)).toNat
    if p + 2 ≤ endm ∧ 2 ≤ len ∧ p + len ≤ endm then p::entryPlaces endm n (p + len) else []

/-- The APIC id in an entry of an enabled processor. -/
def enabledId (p : Nat) : Option Nat :=
  let type := (bytes p).toNat
  let len := (bytes (p + 1)).toNat
  if type = 0 ∧ len ≥ 8 then if read32 bytes (p + 4) % 2 = 1 then some (bytes (p + 3)).toNat else none
  else if type = 9 ∧ len ≥ 16 then if read32 bytes (p + 8) % 2 = 1 then some (read32 bytes (p + 4)) else none
  else none

/-- The APIC ids of the enabled processors of a MADT. -/
def enabledIds (madt : Nat) : List Nat :=
  (entryPlaces bytes (madt + sdtLength bytes madt) (sdtLength bytes madt) (madt + 44)).filterMap (enabledId bytes)

/-- The first tag whose root pointer leads to a MADT leads to this one. -/
def LeadsTo (mi madt : Nat) : Prop :=
  mi ≠ 0 ∧ ∃ tag, OnWay (following bytes (acpiStops bytes mi)) (pointer (mi + 8)) tag ∧ boundedStops bytes mi tag = false ∧
    rootTag bytes tag ∧ madtAt bytes tag = madt ∧ madt ≠ 0

/-- The processors are enumerated as the firmware lists them, and no read of a table leaves the
ranges that were checked before it. -/
structure Enumerated (mi bsp : Nat) (log : List TableEvent) (processors : Processors) : Prop where
  own : (processors.cpus 0).online = 1 ∧ (processors.cpus 0).apicId = bsp
  others : ∀ i, 0 < i → i < lionosMaxCpus → (processors.cpus i).online = 0
  listed : processors.cpuHint = 1 ∨ processors.cpuHint ≤ lionosMaxCpus ∧ ∃ madt, LeadsTo bytes mi madt ∧
    ∃ place < processors.cpuHint, ∀ i < processors.cpuHint,
      (enabledIds bytes madt)[Equiv.swap 0 place i]? = some (processors.cpus i).apicId
  reads : Guarded [] log

end Condition

/-- The processors that are entered so far. -/
structure Entered (bsp : Nat) (before : Nat → CpuInfo) (taken : List Nat) (e : Enumeration) : Prop where
  found : e.found = taken.length
  few : taken.length ≤ lionosMaxCpus
  apic : ∀ i < taken.length, taken[i]? = some (e.cpus i).apicId
  rest : ∀ i, taken.length ≤ i → e.cpus i = before i
  own : e.bspIndex = 0xFFFFFFFF ∧ bsp ∉ taken ∨ taken[e.bspIndex]? = some bsp

theorem Entered.enter {bsp apic flags : Nat} {before : Nat → CpuInfo} {seen : List Nat} {e : Enumeration}
    (entered : Entered bsp before (seen.take lionosMaxCpus) e) (enabled : flags % 2 = 1) :
    Entered bsp before ((seen ++ [apic]).take lionosMaxCpus) (e.enter apic flags bsp) := by
  obtain ⟨found,few,ids,rest,own⟩ := entered
  by_cases room : seen.length < lionosMaxCpus
  · have whole : seen.take lionosMaxCpus = seen := List.take_of_length_le (by omega)
    rw [whole] at found few ids rest own
    rw [List.take_of_length_le (by rw [List.length_append,List.length_singleton]; omega)]
    unfold Enumeration.enter
    rw [if_pos ⟨enabled,by omega⟩]
    refine ⟨?_,?_,?_,?_,?_⟩
    · rw [List.length_append,List.length_singleton,found]
    · rw [List.length_append,List.length_singleton]
      omega
    · intro i below
      rw [List.length_append,List.length_singleton] at below
      dsimp only
      by_cases last : i = e.found
      · rw [last,Function.update_self,found,List.getElem?_concat_length]
      · rw [Function.update_of_ne last,List.getElem?_append_left (by omega)]
        exact ids i (by omega)
    · intro i above
      rw [List.length_append,List.length_singleton] at above
      exact (Function.update_of_ne (by omega) ..).trans (rest i (by omega))
    · dsimp only
      split
      next same =>
        rw [found,List.getElem?_concat_length,same]
        exact .inr rfl
      next other =>
        refine own.imp (fun absent => ⟨absent.1,?_⟩) fun here => ?_
        · rw [List.mem_append,List.mem_singleton,not_or]
          exact ⟨absent.2,Ne.symm other⟩
        · obtain ⟨below,_⟩ := List.getElem?_eq_some_iff.mp here
          rw [List.getElem?_append_left below]
          exact here
  · have full : e.found = lionosMaxCpus := by
      rw [found,List.length_take]
      omega
    unfold Enumeration.enter
    rw [if_neg (fun free => by omega),List.take_append_of_le_length (by omega)]
    exact ⟨found,few,ids,rest,own⟩

section Listing
variable {bytes : Nat → Byte} {bsp endm : Nat} {before : Nat → CpuInfo} (low : endm ≤ 2^28)
include low

/-- A turn enters what the entry lists, or no entry is left. -/
theorem madtTurn_lists {seen : List Nat} {e : Enumeration} (inside : e.p ≤ endm)
    (entered : Entered bsp before (seen.take lionosMaxCpus) e) :
    (∃ e', madtTurn bytes endm bsp e = .goes [] e' ∧ e'.p = e.p + (bytes (e.p + 1)).toNat ∧
      e.p + 2 ≤ endm ∧ 2 ≤ (bytes (e.p + 1)).toNat ∧ e.p + (bytes (e.p + 1)).toNat ≤ endm ∧
      Entered bsp before ((seen ++ (enabledId bytes e.p).toList).take lionosMaxCpus) e') ∨
    madtTurn bytes endm bsp e = .ends [] e ∧
      ¬(e.p + 2 ≤ endm ∧ 2 ≤ (bytes (e.p + 1)).toNat ∧ e.p + (bytes (e.p + 1)).toNat ≤ endm) := by
  have near {skip : Nat} (short : skip < 2^8) : pointer (e.p + skip) = e.p + skip := by
    unfold pointer
    omega
  have here : pointer e.p = e.p := near (by decide : 0 < 2^8)
  have short := (bytes (e.p + 1)).isLt
  unfold madtTurn
  dsimp only
  rw [near (by decide),here,near (by decide),near short,near (by decide),near (by decide),near (by decide)]
  split
  next outside => exact .inr ⟨rfl,fun fits => outside fits.1⟩
  next head =>
    rw [Decidable.not_not] at head
    split
    next bad =>
      refine .inr ⟨rfl,fun fits => ?_⟩
      omega
    next sized =>
      rw [not_or,Nat.not_lt,Nat.not_lt] at sized
      have goes (e' : Enumeration) (listed : Entered bsp before ((seen ++ (enabledId bytes e.p).toList).take lionosMaxCpus) e') :=
        (⟨listed.found,listed.few,listed.apic,listed.rest,listed.own⟩ :
          Entered bsp before ((seen ++ (enabledId bytes e.p).toList).take lionosMaxCpus)
            {e' with p := e.p + (bytes (e.p + 1)).toNat})
      have enters {apic flags : Nat} (listed : enabledId bytes e.p = if flags % 2 = 1 then some apic else none) :
          Entered bsp before ((seen ++ (enabledId bytes e.p).toList).take lionosMaxCpus) (e.enter apic flags bsp) := by
        rw [listed]
        split
        next enabled => exact entered.enter enabled
        next disabled =>
          unfold Enumeration.enter
          rw [if_neg fun both => disabled both.1,Option.toList_none,List.append_nil]
          exact entered
      split
      next kind => exact .inl ⟨_,rfl,rfl,head,sized.1,sized.2,goes _ (enters (if_pos kind))⟩
      next other =>
        split
        next kind => exact .inl ⟨_,rfl,rfl,head,sized.1,sized.2,goes _ (enters ((if_neg other).trans (if_pos kind)))⟩
        next neither =>
          have listed : enabledId bytes e.p = none := (if_neg other).trans (if_neg neither)
          rw [listed,Option.toList_none,List.append_nil] at goes
          refine .inl ⟨_,rfl,rfl,head,sized.1,sized.2,?_⟩
          rw [listed,Option.toList_none,List.append_nil]
          exact goes _ entered

theorem madtLoop_lists {fuel n : Nat} {seen : List Nat} {e : Enumeration} {result : List Nat × Enumeration}
    (inside : e.p ≤ endm) (enough : endm - e.p ≤ n) (entered : Entered bsp before (seen.take lionosMaxCpus) e)
    (done : loop (madtTurn bytes endm bsp) fuel e = some result) :
    Entered bsp before ((seen ++ (entryPlaces bytes endm n e.p).filterMap (enabledId bytes)).take lionosMaxCpus) result.2 := by
  induction n generalizing fuel seen e result with
  | zero =>
    unfold entryPlaces
    rw [List.filterMap_nil,List.append_nil]
    cases fuel with
    | zero => cases done
    | succ fuel =>
      unfold loop at done
      rcases madtTurn_lists low inside entered with ⟨e',_,_,room,_⟩ | ⟨stops,_⟩
      · omega
      · rw [stops] at done
        cases done
        exact entered
  | succ n ih =>
    cases fuel with
    | zero => cases done
    | succ fuel =>
      unfold loop at done
      unfold entryPlaces
      dsimp only
      rcases madtTurn_lists low inside entered with ⟨e',goes,place,room,least,after,listed⟩ | ⟨stops,outside⟩
      · rw [goes] at done
        obtain ⟨later,ended,rfl⟩ := Option.map_eq_some_iff.mp done
        rw [if_pos ⟨room,least,after⟩]
        have rest := ih (by omega) (by omega) listed ended
        rw [place,List.append_assoc] at rest
        rw [List.filterMap_cons]
        cases id : enabledId bytes e.p with
        | none =>
          rw [id] at rest
          exact rest
        | some apic =>
          rw [id] at rest
          exact rest
      · rw [stops] at done
        cases done
        rw [if_neg outside,List.filterMap_nil,List.append_nil]
        exact entered

end Listing

section Settling
variable {bsp : Nat} {before : Nat → CpuInfo} {taken : List Nat} {e : Enumeration} (entered : Entered bsp before taken e)
include entered

theorem settle_absent (absent : bsp ∉ taken) : e.settle = (0,resetCpus) := by
  unfold Enumeration.settle
  rcases entered.own with ⟨none,_⟩ | here
  · rw [if_pos (.inr none)]
  · exact absurd (List.mem_of_getElem? here) absent

/-- The processor that runs comes to the front. -/
theorem settle_present (present : bsp ∈ taken) :
    ∃ place < taken.length, taken[place]? = some bsp ∧ e.settle.1 = taken.length ∧
      (∀ i < taken.length, taken[Equiv.swap 0 place i]? = some (e.settle.2 i).apicId ∧
        (e.settle.2 i).online = if i = 0 then 1 else 0) ∧
      ∀ i, taken.length ≤ i → e.settle.2 i = before i := by
  rcases entered.own with ⟨_,absent⟩ | here
  · exact absurd present absent
  obtain ⟨below,_⟩ := List.getElem?_eq_some_iff.mp here
  have few := entered.few
  unfold lionosMaxCpus at few
  have positive : 0 < taken.length := by omega
  have swapped : (if e.bspIndex ≠ 0 then
      Function.update (Function.update e.cpus 0 (e.cpus e.bspIndex)) e.bspIndex (e.cpus 0) else e.cpus) =
      fun i => e.cpus (Equiv.swap 0 e.bspIndex i) := by
    funext i
    rw [Equiv.swap_apply_def]
    by_cases first : e.bspIndex = 0
    · rw [if_neg (Decidable.not_not.mpr first),first]
      split
      next zero => rw [zero]
      next => rfl
    · rw [if_pos first]
      by_cases zero : i = 0
      · rw [zero,if_pos rfl,Function.update_of_ne (Ne.symm first),Function.update_self]
      · rw [if_neg zero]
        by_cases place : i = e.bspIndex
        · rw [if_pos place,place,Function.update_self]
        · rw [if_neg place,Function.update_of_ne place,Function.update_of_ne zero]
  refine ⟨e.bspIndex,below,here,?_⟩
  unfold Enumeration.settle
  rw [if_neg (by rw [not_or,entered.found]; omega)]
  dsimp only
  rw [swapped,entered.found]
  refine ⟨rfl,fun i inside => ?_,fun i above => ?_⟩
  · rw [if_pos inside]
    refine ⟨entered.apic _ ?_,rfl⟩
    rw [Equiv.swap_apply_def]
    split
    · exact below
    · split
      · exact positive
      · exact inside
  · rw [if_neg (by omega)]
    dsimp only
    rw [Equiv.swap_apply_of_ne_of_ne (by omega) (by omega)]
    exact entered.rest i above

end Settling

section Outcome
variable {bytes : Nat → Byte} {mi : Nat}

theorem leadsTo_stops {tag : Nat} (root : rootTag bytes tag) (found : madtAt bytes tag ≠ 0) :
    following bytes (acpiStops bytes mi) tag = none := by
  unfold following acpiStops
  rw [root,bne_iff_ne.mpr found,Bool.and_true,Bool.or_true]
  rfl

theorem leadsTo_unique {madt madt' : Nat} (leads : LeadsTo bytes mi madt) (leads' : LeadsTo bytes mi madt') : madt' = madt := by
  obtain ⟨_,tag,reached,_,root,rfl,real⟩ := leads
  obtain ⟨_,tag',reached',_,root',rfl,real'⟩ := leads'
  rw [reached.stop_unique (leadsTo_stops root real) reached' (leadsTo_stops root' real')]

theorem boundedStops_false {tag : Nat} :
    boundedStops bytes mi tag = false ↔ pointer (tag + 8) ≤ finishOf bytes mi ∧ read32 bytes tag ≠ tagEnd := by
  unfold boundedStops closes
  rw [Bool.or_eq_false_iff,← beyond_iff,Bool.not_eq_true,beq_eq_false_iff_ne]

theorem leadsTo_mapped {madt : Nat} (leads : LeadsTo bytes mi madt) : identityRangeOk madt (sdtLength bytes madt) := by
  obtain ⟨_,tag,_,bounded,root,found,real⟩ := leads
  obtain ⟨room,live⟩ := boundedStops_false.mp bounded
  have madt' := (tagEvents_found room live root found real).1
  unfold isMadt sdtValid at madt'
  simp only [Bool.and_eq_true] at madt'
  exact madt'.2.1.2

/-- The walk over the tags finds the MADT that they lead to. -/
theorem tags_lead (null : mi ≠ 0) {fuel : Nat} {tags : List Nat × Nat}
    (done : loop (acpiTurn bytes (finishOf bytes mi)) fuel (pointer (mi + 8)) = some tags) {madt : Nat} :
    LeadsTo bytes mi madt ↔ tags.2 = madt ∧ madt ≠ 0 := by
  obtain ⟨tag,log,reached,left,_⟩ := loop_last done
  have stops : following bytes (acpiStops bytes mi) tag = none := by
    rw [← acpiTurn_next,left]
    rfl
  simp only [acpiTurn_next] at reached
  constructor
  · intro ⟨_,tag',reached',bounded,root,found,real⟩
    have same := reached.stop_unique stops reached' (leadsTo_stops root (found ▸ real))
    rw [same] at bounded found
    obtain ⟨room,live⟩ := boundedStops_false.mp bounded
    rcases acpiTurn_ends left with ⟨beyond,_⟩ | ⟨_,_,_,value,_⟩
    · exact absurd beyond (by rw [not_or,Decidable.not_not]; exact ⟨room,live⟩)
    · exact ⟨value.symm.trans found,real⟩
  · intro ⟨value,real⟩
    rcases acpiTurn_ends left with ⟨_,none⟩ | ⟨room,live,root,found,_⟩
    · exact absurd (value.symm.trans none) real
    · exact ⟨null,tag,reached,boundedStops_false.mpr ⟨room,live⟩,root,found.trans value,real⟩

/-- Without a MADT of full length the processors stay as they are, and with one its entries are
entered. -/
theorem acpiEnumerate_outcome {bsp fuel : Nat} {cpus : Nat → CpuInfo} {result : List Nat × Nat × (Nat → CpuInfo)}
    (done : acpiEnumerate bytes mi bsp fuel cpus = some result) :
    result.2 = (0,cpus) ∧ (∀ madt, LeadsTo bytes mi madt → sdtLength bytes madt < 44) ∨
    ∃ madt e, LeadsTo bytes mi madt ∧ 44 ≤ sdtLength bytes madt ∧
      Entered bsp cpus ((enabledIds bytes madt).take lionosMaxCpus) e ∧ result.2 = e.settle := by
  unfold acpiEnumerate at done
  split at done
  next null =>
    cases done
    exact .inl ⟨rfl,fun madt leads => absurd null leads.1⟩
  next null =>
    split at done
    next => cases done
    next tags walked =>
      have leads {madt : Nat} : LeadsTo bytes mi madt ↔ tags.2 = madt ∧ madt ≠ 0 := tags_lead null walked
      obtain ⟨value,enumerated,rfl⟩ := Option.map_eq_some_iff.mp done
      unfold enumerateMadt at enumerated
      split at enumerated
      next none =>
        cases enumerated
        exact .inl ⟨rfl,fun madt found => absurd (none.symm.trans (leads.mp found).1).symm (leads.mp found).2⟩
      next real =>
        have found := leads.mpr ⟨rfl,real⟩
        have mapped := leadsTo_mapped found
        split at enumerated
        next bad =>
          cases enumerated
          have short := bad.resolve_left (Decidable.not_not.mpr mapped)
          exact .inl ⟨rfl,fun madt found' => leadsTo_unique found found' ▸ short⟩
        next fine =>
          rw [not_or,Nat.not_lt] at fine
          obtain ⟨turns,ended,rfl⟩ := Option.map_eq_some_iff.mp enumerated
          refine .inr ⟨tags.2,turns.2,found,fine.2,?_,rfl⟩
          have low := identityRangeOk_iff.mp mapped
          have near {n : Nat} (inside : n ≤ sdtLength bytes tags.2) : pointer (tags.2 + n) = tags.2 + n := by
            unfold pointer
            omega
          rw [near (Nat.le_refl _),near fine.2] at ended
          have start : Entered bsp cpus (([] : List Nat).take lionosMaxCpus) ⟨tags.2 + 44,0,0xFFFFFFFF,cpus⟩ :=
            ⟨rfl,Nat.zero_le _,nofun,fun _ _ => rfl,.inl ⟨rfl,nofun⟩⟩
          exact madtLoop_lists low.2.2 (Nat.add_le_add_left fine.2 _) (by dsimp only; omega) start ended

theorem acpiTurn_returns (finish tag : Nat) : (acpiTurn bytes finish tag).Fine fun _ => True := by
  unfold acpiTurn
  repeat' split
  all_goals exact fun _ _ => trivial

theorem enumerateMadt_more {madt bsp fuel more : Nat} {cpus : Nat → CpuInfo} {result : Nat × (Nat → CpuInfo)}
    (enough : fuel ≤ more) (done : enumerateMadt bytes madt bsp fuel cpus = some result) :
    enumerateMadt bytes madt bsp more cpus = some result := by
  unfold enumerateMadt at done ⊢
  split at done
  next none => rw [if_pos none,done]
  next real =>
    rw [if_neg real]
    split at done
    next bad => rw [if_pos bad,done]
    next fine =>
      obtain ⟨turns,ended,rfl⟩ := Option.map_eq_some_iff.mp done
      rw [if_neg fine,loop_more enough ended]
      rfl

theorem acpiEnumerate_more {bsp fuel more : Nat} {cpus : Nat → CpuInfo} {result : List Nat × Nat × (Nat → CpuInfo)}
    (enough : fuel ≤ more) (done : acpiEnumerate bytes mi bsp fuel cpus = some result) :
    acpiEnumerate bytes mi bsp more cpus = some result := by
  unfold acpiEnumerate at done ⊢
  split at done
  next null => rw [if_pos null,done]
  next null =>
    rw [if_neg null]
    split at done
    next => cases done
    next tags walked =>
      obtain ⟨value,enumerated,rfl⟩ := Option.map_eq_some_iff.mp done
      rw [loop_more enough walked]
      dsimp only
      rw [enumerateMadt_more enough enumerated]
      rfl

/-- The function returns exactly if the walk over the tags ends. -/
theorem acpiEnumerate_returns (mi bsp : Nat) (cpus : Nat → CpuInfo) :
    (∃ fuel result, acpiEnumerate bytes mi bsp fuel cpus = some result) ↔
      mi = 0 ∨ ∃ way, Walk (following bytes (acpiStops bytes mi)) (pointer (mi + 8)) way := by
  have walks {way : List Nat} : Walk (fun tag => (acpiTurn bytes (finishOf bytes mi) tag).next) (pointer (mi + 8)) way ↔
      Walk (following bytes (acpiStops bytes mi)) (pointer (mi + 8)) way := by
    simp only [acpiTurn_next]
  constructor
  · intro ⟨fuel,result,done⟩
    unfold acpiEnumerate at done
    split at done
    next null => exact .inl null
    next =>
      split at done
      next => cases done
      next tags walked =>
        have all : ∀ i ∈ tags.1, (fun _ : Nat => True) i := fun _ _ => trivial
        obtain ⟨way,found,_⟩ := loop_iff.mp ⟨tags,walked,all⟩
        exact .inr ⟨way,walks.mp found⟩
  · intro ends
    unfold acpiEnumerate
    by_cases null : mi = 0
    · exact ⟨0,([],0,cpus),if_pos null⟩
    obtain ⟨way,found⟩ := ends.resolve_left null
    obtain ⟨tags,walked,_⟩ := loop_iff.mpr ⟨way,walks.mpr found,Nat.le_refl _,fun tag _ => acpiTurn_returns _ tag⟩
    obtain ⟨least,returns⟩ := enumerateMadt_returns bytes tags.2 bsp cpus
    obtain ⟨value,enumerated⟩ := returns (max way.length least) (Nat.le_max_right ..)
    refine ⟨max way.length least,(tags.1,value),?_⟩
    have later := loop_more (Nat.le_max_left way.length least) walked
    unfold finishOf at later
    rw [if_neg null,later]
    dsimp only
    rw [enumerated]
    rfl

end Outcome

section Sound
variable {bytes : Nat → Byte} {mi : Nat} {id : Cpuid}

theorem cpuInit_traced {fuel : Nat} {result : List TableEvent × Processors} (done : cpuInit bytes id mi fuel = some result) :
    Guarded [] result.1 ∧ ∃ tags, acpiEnumerate bytes mi id.bsp fuel (fromCpuid id).cpus = some tags ∧
      result.2 = (fromCpuid id).after tags.2.1 tags.2.2 := by
  obtain ⟨traced,enumerated,rfl⟩ := Option.map_eq_some_iff.mp done
  have same := @acpiTraced_enumerates bytes mi id.bsp fuel (fromCpuid id).cpus
  rw [enumerated] at same
  obtain ⟨tags,again,value⟩ := Option.map_eq_some_iff.mp same.symm
  refine ⟨acpiTraced_guarded enumerated,tags,again,?_⟩
  rw [value]

theorem early_offline (id : Cpuid) {i : Nat} (other : i ≠ 0) : ((fromCpuid id).cpus i).online = 0 := by
  rw [show (fromCpuid id).cpus i = resetCpus i from Function.update_of_ne other ..]
  rfl

theorem enumerated_iff {fuel : Nat} {result : List TableEvent × Processors} (done : cpuInit bytes id mi fuel = some result) :
    Enumerated bytes mi id.bsp result.1 result.2 ↔
      ∀ madt, LeadsTo bytes mi madt → 44 ≤ sdtLength bytes madt → id.bsp ∈ (enabledIds bytes madt).take lionosMaxCpus := by
  obtain ⟨guarded,tags,enumerated,after⟩ := cpuInit_traced done
  rw [after]
  rcases acpiEnumerate_outcome enumerated with ⟨kept,short⟩ | ⟨madt,e,leads,long,entered,settled⟩
  · rw [kept]
    refine iff_of_true ⟨⟨rfl,rfl⟩,fun i positive below => ?_,.inl rfl,guarded⟩ ?_
    · change (if 1 ≤ i ∧ i < lionosMaxCpus then _ else _ : CpuInfo).online = 0
      rw [if_pos ⟨positive,below⟩]
      exact early_offline id (by omega)
    · exact fun madt leads long => absurd (short madt leads) (by omega)
  · by_cases present : id.bsp ∈ (enabledIds bytes madt).take lionosMaxCpus
    · refine iff_of_true ?_ fun madt' leads' _ => leadsTo_unique leads leads' ▸ present
      obtain ⟨place,below,own,count,listed,rest⟩ := settle_present entered present
      generalize held : (enabledIds bytes madt).take lionosMaxCpus = taken at *
      have few := entered.few
      have front := listed 0 (by omega)
      rw [settled,count,Processors.after,if_pos (by omega)]
      rw [Equiv.swap_apply_left,own] at front
      refine ⟨⟨front.2,(Option.some_inj.mp front.1).symm⟩,fun i positive _ => ?_,.inr ⟨few,madt,leads,place,below,?_⟩,guarded⟩
      · by_cases inside : i < taken.length
        · exact (listed i inside).2.trans (if_neg (by omega))
        · exact (congrArg CpuInfo.online (rest i (by omega))).trans (early_offline id (by omega))
      · intro i inside
        have listed' := (listed i inside).1
        obtain ⟨bound,_⟩ := List.getElem?_eq_some_iff.mp listed'
        rw [← held,List.getElem?_take_of_lt (by omega)] at listed'
        exact listed'
    · rw [settled,settle_absent entered present]
      refine iff_of_false (fun sound => ?_) fun all => present (all madt leads long)
      exact Nat.zero_ne_one sound.own.1

end Sound

/-- `cpu_init` returns with the processors that the firmware lists exactly if the walk over the
tags ends and a MADT that they lead to has the processor that runs among its first enabled
ones. -/
theorem cpus_enumerated_iff (bytes : Nat → Byte) (mi : Nat) (id : Cpuid) :
    (∃ least, ∀ fuel, least ≤ fuel → ∃ result, cpuInit bytes id mi fuel = some result ∧
      Enumerated bytes mi id.bsp result.1 result.2) ↔
    (mi = 0 ∨ ∃ way, Walk (following bytes (acpiStops bytes mi)) (pointer (mi + 8)) way) ∧
      ∀ madt, LeadsTo bytes mi madt → 44 ≤ sdtLength bytes madt → id.bsp ∈ (enabledIds bytes madt).take lionosMaxCpus := by
  constructor
  · intro ⟨least,returns⟩
    obtain ⟨result,done,sound⟩ := returns least (Nat.le_refl least)
    refine ⟨?_,(enumerated_iff done).mp sound⟩
    obtain ⟨_,tags,enumerated,_⟩ := cpuInit_traced done
    exact (acpiEnumerate_returns mi id.bsp (fromCpuid id).cpus).mp ⟨least,tags,enumerated⟩
  · intro ⟨ends,listed⟩
    obtain ⟨fuel,tags,enumerated⟩ := (acpiEnumerate_returns mi id.bsp (fromCpuid id).cpus).mpr ends
    refine ⟨fuel,fun more enough => ?_⟩
    have same := @acpiTraced_enumerates bytes mi id.bsp more (fromCpuid id).cpus
    rw [acpiEnumerate_more enough enumerated] at same
    obtain ⟨traced,done,_⟩ := Option.map_eq_some_iff.mp same
    have done' := congrArg (Option.map fun result => (result.1,(fromCpuid id).after result.2.1 result.2.2)) done
    exact ⟨_,done',(enumerated_iff done').mpr listed⟩

/-- A MADT that lists one processor, with the APIC id 1. -/
def strange : Nat → Byte := fun i =>
  if i = 0x1000 then 48 else if i = 0x1008 then 14 else if i = 0x100C then 28 else if i = 0x1018 then 0xE0
  else if i = 0x1021 then 0x20
  else if i = 0x2000 then 0x52 else if i = 0x2001 then 0x53 else if i = 0x2002 then 0x44 else if i = 0x2003 then 0x54
  else if i = 0x2004 then 40 else if i = 0x2009 then 107 else if i = 0x2025 then 0x30
  else if i = 0x3000 then 65 else if i = 0x3001 then 80 else if i = 0x3002 then 73 else if i = 0x3003 then 67
  else if i = 0x3004 then 52 else if i = 0x3009 then 165
  else if i = 0x302D then 8 else if i = 0x302F then 1 else if i = 0x3030 then 1 else 0

/-- On the processor 0 that table leaves no processor online. -/
theorem strange_offline : ∃ result, cpuInit strange ⟨1,0,0,0,0⟩ 0x1000 60 = some result ∧
    ¬Enumerated strange 0x1000 0 result.1 result.2 := by
  have offline : ((cpuInit strange ⟨1,0,0,0,0⟩ 0x1000 60).any fun result => (result.2.cpus 0).online == 0) = true := by
    decide +kernel
  obtain ⟨result,done,none⟩ := (Option.any_eq_true ..).mp offline
  refine ⟨result,done,fun sound => ?_⟩
  exact Nat.zero_ne_one ((beq_iff_eq.mp none).symm.trans sound.own.1)

end LionOS.Boot

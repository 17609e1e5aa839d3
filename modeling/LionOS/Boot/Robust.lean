import Mathlib.Data.Finset.Range
import LionOS.Boot.Walkers
import LionOS.Frames.MemoryMap

/-! When the walks over the boot information end and stay inside it. -/
namespace LionOS.Boot
open LionOS.Library
open LionOS.Physical (Byte)
open LionOS.Frames (read32 read64 tagEnd tagModule tagMmap memoryAvailable)

section Condition
variable (bytes : Nat → Byte) (mi : Nat)

def finishOf : Nat := pointer (mi + read32 bytes mi)

/-- A place in the block. -/
def Inside (i : Nat) : Prop := mi ≤ i ∧ i < mi + read32 bytes mi

/-- A field in the block. -/
def Fits (address count : Nat) : Prop := mi ≤ pointer address ∧ pointer address + count ≤ mi + read32 bytes mi

/-- The tag behind a tag, unless the walk stops there. -/
def following (stops : Nat → Bool) (tag : Nat) : Option Nat := if stops tag then none else some (advance bytes tag)

def closes (tag : Nat) : Bool := read32 bytes tag == tagEnd

def beyond (tag : Nat) : Bool := !decide (pointer (tag + 8) ≤ finishOf bytes mi)

def framebufferTag (tag : Nat) : Bool := read32 bytes tag == tagFramebuffer && decide (sizeAt bytes tag ≥ fbTagSize)

def boundedStops (tag : Nat) : Bool := beyond bytes mi tag || closes bytes tag

def framebufferStops (tag : Nat) : Bool := closes bytes tag || framebufferTag bytes tag

def acpiStops (tag : Nat) : Bool := boundedStops bytes mi tag || (rootTag bytes tag && madtAt bytes tag != 0)

/-- The entry behind an entry of the memory map, while they fit. -/
def nextEntry (tag p : Nat) : Option Nat :=
  if pointer (p + mapEntrySize bytes tag) ≤ pointer (tag + sizeAt bytes tag) then some (pointer (p + mapEntrySize bytes tag))
  else none

/-- The type and, but for the closing tag, the size lie in the block. -/
def HeadFits (tag : Nat) : Prop := Fits bytes mi tag 4 ∧ (¬closes bytes tag → Fits bytes mi (tag + 4) 4)

/-- The entries of a memory map do not come round, and their fields lie in the block. -/
def EntriesFit (tag : Nat) : Prop :=
  Fits bytes mi (tag + 8) 4 ∧ ∀ p, OnWay (nextEntry bytes tag) (pointer (tag + 16)) p →
    ((nextEntry bytes tag p).isSome → Fits bytes mi (p + 16) 4 ∧
      (read32 bytes (pointer (p + 16)) = memoryAvailable → Fits bytes mi p 8 ∧ Fits bytes mi (p + 8) 8)) ∧
    ¬ComesRound (nextEntry bytes tag) p

def MapFits (tag : Nat) : Prop :=
  ¬beyond bytes mi tag → HeadFits bytes mi tag ∧ (read32 bytes tag = tagMmap → EntriesFit bytes mi tag)

def ModuleFits (tag : Nat) : Prop :=
  ¬beyond bytes mi tag → HeadFits bytes mi tag ∧
    (read32 bytes tag = tagModule ∧ sizeAt bytes tag ≥ 16 → Fits bytes mi (tag + 8) 4 ∧ Fits bytes mi (tag + 12) 4)

def FramebufferFits (tag : Nat) : Prop :=
  HeadFits bytes mi tag ∧ (framebufferTag bytes tag →
    Fits bytes mi (tag + 29) 1 ∧ (bytes (pointer (tag + 29)) = 1 → Fits bytes mi (tag + 28) 1) ∧
      (modeAccepted bytes tag → Fits bytes mi tag fbTagSize))

def RootFits (tag : Nat) : Prop :=
  ¬beyond bytes mi tag → HeadFits bytes mi tag ∧ (rootTag bytes tag →
    Fits bytes mi (tag + 23) 1 ∧ (extendedRsdp bytes tag → Fits bytes mi (tag + 8) 36) ∧
      (¬extendedRsdp bytes tag ∧ sizeAt bytes tag ≥ 28 → Fits bytes mi (tag + 8) 20))

/-- Each tag that a walk reaches fits, and the walk does not come back to it. -/
def WalkFits (stops : Nat → Bool) (fits : Nat → Prop) : Prop :=
  ∀ tag, OnWay (following bytes stops) (pointer (mi + 8)) tag → fits tag ∧ ¬ComesRound (following bytes stops) tag

/-- The four functions end on a block and read only inside it on their walks. -/
structure Robust (saved : Option Nat) (bspApic : Nat) (cpus : Nat → CpuInfo) : Prop where
  memory : ∃ fuel reads, memoryInit bytes mi fuel = some reads ∧ ∀ i ∈ reads, Inside bytes mi i
  prepare : ∃ fuel result, framebufferPrepare bytes mi fuel = some result ∧ ∀ i ∈ result.1, Inside bytes mi i
  init : ∃ fuel result, framebufferInit bytes saved mi fuel = some result ∧ ∀ i ∈ result.1, Inside bytes mi i
  acpi : ∃ fuel result, acpiEnumerate bytes mi bspApic fuel cpus = some result ∧ ∀ i ∈ result.1, Inside bytes mi i

end Condition

instance (bytes : Nat → Byte) (mi address count : Nat) : Decidable (Fits bytes mi address count) :=
  inferInstanceAs (Decidable (_ ∧ _))

instance (bytes : Nat → Byte) (mi tag : Nat) : Decidable (HeadFits bytes mi tag) := inferInstanceAs (Decidable (_ ∧ _))

theorem pointer_lt (n : Nat) : pointer n < 2^32 := Nat.mod_lt n (by decide)

theorem fits_iff {bytes : Nat → Byte} {mi address count : Nat} (positive : 0 < count) :
    (∀ i ∈ bytesAt address count, Inside bytes mi i) ↔ Fits bytes mi address count := by
  unfold bytesAt Inside Fits
  simp only [List.forall_mem_map,List.mem_range]
  constructor
  · intro all
    have first := all 0 positive
    have last := all (count - 1) (by omega)
    omega
  · intro fits i below
    omega

section Turns
variable {bytes : Nat → Byte} {mi : Nat}

theorem following_lt {stops : Nat → Bool} {first tag : Nat} (reached : OnWay (following bytes stops) (pointer first) tag) :
    tag ∈ Finset.range (2^32) := by
  rw [Finset.mem_range]
  induction reached with
  | refl => exact pointer_lt first
  | tail _ leads _ =>
    unfold following at leads
    split at leads
    · cases leads
    · cases leads
      exact pointer_lt _

theorem nextEntry_lt {tag first p : Nat} (reached : OnWay (nextEntry bytes tag) (pointer first) p) :
    p ∈ Finset.range (2^32) := by
  rw [Finset.mem_range]
  induction reached with
  | refl => exact pointer_lt first
  | tail _ leads _ =>
    unfold nextEntry at leads
    split at leads
    · cases leads
      exact pointer_lt _
    · cases leads

theorem entryTurn_next (bytes : Nat → Byte) (tag p : Nat) : (entryTurn bytes tag p).next = nextEntry bytes tag p := by
  unfold entryTurn nextEntry
  split <;> rfl

theorem entryTurn_fine {tag p : Nat} : (entryTurn bytes tag p).Fine (Inside bytes mi) ↔
    Fits bytes mi (tag + 8) 4 ∧ ((nextEntry bytes tag p).isSome → Fits bytes mi (p + 16) 4 ∧
      (read32 bytes (pointer (p + 16)) = memoryAvailable → Fits bytes mi p 8 ∧ Fits bytes mi (p + 8) 8)) := by
  unfold entryTurn nextEntry
  split
  next =>
    simp only [Turn.Fine,List.forall_mem_append,Option.isSome_some,true_implies]
    split
    next kind =>
      simp only [List.forall_mem_append,fits_iff (by decide : 0 < 4),fits_iff (by decide : 0 < 8),kind,true_implies,and_assoc]
    next kind => simp [fits_iff (by decide : 0 < 4),kind]
  next => simp [Turn.Fine,fits_iff (by decide : 0 < 4)]

theorem entries_iff {tag : Nat} :
    (∃ fuel result, loop (entryTurn bytes tag) fuel (pointer (tag + 16)) = some result ∧ ∀ i ∈ result.1, Inside bytes mi i) ↔
      EntriesFit bytes mi tag := by
  have stable (fuel : Nat) (p : Nat) (_ : (entryTurn bytes tag p).Fine (Inside bytes mi)) := entryTurn_next bytes tag p
  constructor
  · intro ⟨fuel,result,done,inside⟩
    refine ⟨?_,fun p reached => ?_⟩
    · obtain ⟨⟨_,fine⟩,_⟩ := loop_sound stable done inside .refl
      exact (entryTurn_fine.mp fine).1
    · obtain ⟨⟨_,fine⟩,straight⟩ := loop_sound stable done inside reached
      exact ⟨(entryTurn_fine.mp fine).2,straight⟩
  · intro ⟨head,entries⟩
    obtain ⟨least,returns⟩ := loop_returns stable (fun _ _ _ _ fine => fine) (Finset.range (2^32))
      (fun p reached => nextEntry_lt reached) fun p reached =>
        ⟨⟨0,entryTurn_fine.mpr ⟨head,(entries p reached).1⟩⟩,(entries p reached).2⟩
    exact ⟨least,returns least (Nat.le_refl _)⟩

theorem head_iff {tag : Nat} (live : closes bytes tag = false) :
    (∀ i ∈ headReads tag, Inside bytes mi i) ↔ HeadFits bytes mi tag := by
  unfold headReads typeReads HeadFits
  rw [List.forall_mem_append,fits_iff (by decide),fits_iff (by decide),live]
  simp

theorem type_iff {tag : Nat} (closed : closes bytes tag = true) :
    (∀ i ∈ typeReads tag, Inside bytes mi i) ↔ HeadFits bytes mi tag := by
  unfold typeReads HeadFits
  rw [fits_iff (by decide),closed]
  simp

theorem beyond_iff {tag : Nat} : ¬beyond bytes mi tag ↔ pointer (tag + 8) ≤ finishOf bytes mi := by
  unfold beyond
  simp

theorem boundedStops_eq {tag : Nat} (room : pointer (tag + 8) ≤ finishOf bytes mi) :
    boundedStops bytes mi tag = closes bytes tag := by
  unfold boundedStops
  rw [Bool.eq_false_iff.mpr (beyond_iff.mpr room),Bool.false_or]

theorem mmapTurn_fine {fuel tag : Nat} : (mmapTurn bytes (finishOf bytes mi) fuel tag).Fine (Inside bytes mi) ↔
    (¬beyond bytes mi tag → HeadFits bytes mi tag ∧ (read32 bytes tag = tagMmap →
      ∃ result, loop (entryTurn bytes tag) fuel (pointer (tag + 16)) = some result ∧ ∀ i ∈ result.1, Inside bytes mi i)) := by
  unfold mmapTurn
  rw [beyond_iff]
  by_cases room : pointer (tag + 8) ≤ finishOf bytes mi
  · rw [if_neg (Decidable.not_not.mpr room),forall_prop_of_true room]
    by_cases closed : read32 bytes tag = tagEnd
    · have other : ¬read32 bytes tag = tagMmap := by
        rw [closed]
        decide
      rw [if_pos closed,← type_iff (beq_iff_eq.mpr closed)]
      simp [Turn.Fine,other]
    · rw [if_neg closed,← head_iff (beq_eq_false_iff_ne.mpr closed)]
      by_cases kind : read32 bytes tag = tagMmap
      · rw [if_pos kind,forall_prop_of_true kind]
        split
        next hangs => simp [Turn.Fine,hangs]
        next entries ended =>
          simp only [Turn.Fine,List.forall_mem_append,ended,Option.some.injEq,exists_eq_left']
      · rw [if_neg kind]
        simp [Turn.Fine,kind]
  · rw [if_pos room]
    simp [Turn.Fine,room]

theorem mmapTurn_next {fuel tag : Nat} (fine : (mmapTurn bytes (finishOf bytes mi) fuel tag).Fine (Inside bytes mi)) :
    (mmapTurn bytes (finishOf bytes mi) fuel tag).next = following bytes (boundedStops bytes mi) tag := by
  unfold following
  by_cases room : pointer (tag + 8) ≤ finishOf bytes mi
  · rw [boundedStops_eq room]
    unfold mmapTurn closes at *
    rw [if_neg (Decidable.not_not.mpr room)] at fine ⊢
    by_cases closed : read32 bytes tag = tagEnd
    · rw [if_pos closed,if_pos (beq_iff_eq.mpr closed)]
      rfl
    · rw [if_neg closed] at fine ⊢
      rw [if_neg (fun same => closed (beq_iff_eq.mp same))]
      split
      next kind =>
        rw [if_pos kind] at fine
        split
        next hangs =>
          rw [hangs] at fine
          exact fine.elim
        next => rfl
      next => rfl
  · have out : boundedStops bytes mi tag = true := by
      unfold boundedStops beyond
      simp [room]
    unfold mmapTurn
    rw [if_pos room,if_pos out]
    rfl

theorem moduleTurn_fine {tag : Nat} :
    (moduleTurn bytes (finishOf bytes mi) tag).Fine (Inside bytes mi) ↔ ModuleFits bytes mi tag := by
  unfold moduleTurn ModuleFits
  rw [beyond_iff]
  by_cases room : pointer (tag + 8) ≤ finishOf bytes mi
  · rw [if_neg (Decidable.not_not.mpr room),forall_prop_of_true room]
    by_cases closed : read32 bytes tag = tagEnd
    · have other : ¬(read32 bytes tag = tagModule ∧ sizeAt bytes tag ≥ 16) := by
        rw [closed]
        exact fun both => absurd both.1 (by decide)
      rw [if_pos closed,← type_iff (beq_iff_eq.mpr closed)]
      simp only [Turn.Fine,other,false_implies,and_true]
    · rw [if_neg closed,← head_iff (beq_eq_false_iff_ne.mpr closed)]
      split
      next kind =>
        rw [forall_prop_of_true kind]
        simp only [Turn.Fine,List.forall_mem_append,fits_iff (by decide : 0 < 4),and_assoc]
      next kind => simp only [Turn.Fine,kind,false_implies,and_true]
  · rw [if_pos room]
    simp [Turn.Fine,room]

theorem moduleTurn_next (tag : Nat) :
    (moduleTurn bytes (finishOf bytes mi) tag).next = following bytes (boundedStops bytes mi) tag := by
  unfold following
  by_cases room : pointer (tag + 8) ≤ finishOf bytes mi
  · rw [boundedStops_eq room]
    unfold moduleTurn closes
    rw [if_neg (Decidable.not_not.mpr room)]
    by_cases closed : read32 bytes tag = tagEnd
    · rw [if_pos closed,if_pos (beq_iff_eq.mpr closed)]
      rfl
    · rw [if_neg closed,if_neg (fun same => closed (beq_iff_eq.mp same))]
      split <;> rfl
  · have out : boundedStops bytes mi tag = true := by
      unfold boundedStops beyond
      simp [room]
    unfold moduleTurn
    rw [if_pos room,if_pos out]
    rfl

section Plain
variable {ρ : Type} {turn : Nat → Turn Nat Nat ρ} {stops : Nat → Bool} {fits : Nat → Prop}
variable (goes : ∀ tag, (turn tag).next = following bytes stops tag)
variable (fine : ∀ tag, (turn tag).Fine (Inside bytes mi) ↔ fits tag)
include goes fine

theorem walkFits_of_loop {fuel : Nat} {result : List Nat × ρ} (done : loop turn fuel (pointer (mi + 8)) = some result)
    (inside : ∀ i ∈ result.1, Inside bytes mi i) : WalkFits bytes mi stops fits := by
  intro tag reached
  have stable (_ tag : Nat) (_ : (turn tag).Fine (Inside bytes mi)) := goes tag
  obtain ⟨⟨_,good⟩,straight⟩ := loop_sound stable done inside reached
  exact ⟨(fine tag).mp good,straight⟩

theorem loop_of_walkFits (sound : WalkFits bytes mi stops fits) :
    ∃ least, ∀ fuel, least ≤ fuel → ∃ result, loop turn fuel (pointer (mi + 8)) = some result ∧
      ∀ i ∈ result.1, Inside bytes mi i := by
  have stable (_ tag : Nat) (_ : (turn tag).Fine (Inside bytes mi)) := goes tag
  refine loop_returns stable (fun _ _ _ _ good => good) (Finset.range (2^32)) (fun tag reached => following_lt reached) ?_
  intro tag reached
  exact ⟨⟨0,(fine tag).mpr (sound tag reached).1⟩,(sound tag reached).2⟩

end Plain

theorem memory_iff :
    (∃ fuel reads, memoryInit bytes mi fuel = some reads ∧ ∀ i ∈ reads, Inside bytes mi i) ↔
      WalkFits bytes mi (boundedStops bytes mi) fun tag => MapFits bytes mi tag ∧ ModuleFits bytes mi tag := by
  have stable (fuel tag : Nat) (fine : (mmapTurn bytes (finishOf bytes mi) fuel tag).Fine (Inside bytes mi)) :=
    mmapTurn_next fine
  constructor
  · intro ⟨fuel,reads,done,inside⟩ tag reached
    unfold memoryInit at done
    dsimp only at done
    split at done
    · cases done
    next maps mapped =>
      obtain ⟨modules,scanned,rfl⟩ := Option.map_eq_some_iff.mp done
      obtain ⟨⟨n,first⟩,straight⟩ := loop_sound stable mapped (fun i member => inside i (List.mem_append_left _ member)) reached
      have second : WalkFits bytes mi (boundedStops bytes mi) (ModuleFits bytes mi) :=
        walkFits_of_loop moduleTurn_next (fun _ => moduleTurn_fine) scanned fun i member => inside i (List.mem_append_right _ member)
      refine ⟨⟨fun room => ?_,(second tag reached).1⟩,straight⟩
      obtain ⟨head,entries⟩ := mmapTurn_fine.mp first room
      exact ⟨head,fun kind => entries_iff.mp ⟨n,entries kind⟩⟩
  · intro fits
    have wide (n m tag : Nat) (more : n ≤ m) (fine : (mmapTurn bytes (finishOf bytes mi) n tag).Fine (Inside bytes mi)) :
        (mmapTurn bytes (finishOf bytes mi) m tag).Fine (Inside bytes mi) := by
      refine mmapTurn_fine.mpr fun room => ?_
      obtain ⟨head,entries⟩ := mmapTurn_fine.mp fine room
      refine ⟨head,fun kind => ?_⟩
      obtain ⟨way,found,short,good⟩ := loop_iff.mp (entries kind)
      exact loop_iff.mpr ⟨way,found,Nat.le_trans short more,good⟩
    obtain ⟨n,maps⟩ := loop_returns stable wide (Finset.range (2^32)) (fun tag reached => following_lt reached) fun tag reached => by
      obtain ⟨⟨map,_⟩,straight⟩ := fits tag reached
      refine ⟨?_,straight⟩
      by_cases kind : ¬beyond bytes mi tag ∧ read32 bytes tag = tagMmap
      · obtain ⟨fuel,ended⟩ := entries_iff.mpr ((map kind.1).2 kind.2)
        exact ⟨fuel,mmapTurn_fine.mpr fun room => ⟨(map room).1,fun _ => ended⟩⟩
      · exact ⟨0,mmapTurn_fine.mpr fun room => ⟨(map room).1,fun own => absurd ⟨room,own⟩ kind⟩⟩
    have modulesFit : WalkFits bytes mi (boundedStops bytes mi) (ModuleFits bytes mi) := fun tag reached =>
      ⟨(fits tag reached).1.2,(fits tag reached).2⟩
    obtain ⟨m,modules⟩ := loop_of_walkFits moduleTurn_next (fun _ => moduleTurn_fine) modulesFit
    obtain ⟨first,mapped,inside⟩ := maps (max n m) (Nat.le_max_left ..)
    obtain ⟨second,scanned,inside'⟩ := modules (max n m) (Nat.le_max_right ..)
    refine ⟨max n m,first.1 ++ second.1,?_,?_⟩
    · unfold memoryInit
      unfold finishOf at mapped scanned
      dsimp only
      rw [mapped]
      dsimp only
      rw [scanned]
      rfl
    · rw [List.forall_mem_append]
      exact ⟨inside,inside'⟩

theorem Fits.part {address count skip width : Nat} (block : mi + read32 bytes mi < 2^32)
    (fits : Fits bytes mi address count) (inside : skip + width ≤ count) : Fits bytes mi (address + skip) width := by
  unfold Fits pointer at *
  omega

theorem framebufferTag_iff {tag : Nat} :
    framebufferTag bytes tag ↔ read32 bytes tag = tagFramebuffer ∧ sizeAt bytes tag ≥ fbTagSize := by
  unfold framebufferTag
  rw [Bool.and_eq_true,beq_iff_eq,decide_eq_true_eq]

theorem framebufferTurn_next (fields : Nat → List Nat) (tag : Nat) :
    (framebufferTurn bytes fields tag).next = following bytes (framebufferStops bytes) tag := by
  unfold framebufferTurn following framebufferStops closes
  by_cases closed : read32 bytes tag = tagEnd
  · simp [closed,Turn.next]
  · rw [if_neg closed,beq_eq_false_iff_ne.mpr closed,Bool.false_or]
    by_cases kind : framebufferTag bytes tag
    · rw [if_pos (framebufferTag_iff.mp kind),if_pos kind]
      rfl
    · rw [if_neg (fun own => kind (framebufferTag_iff.mpr own)),if_neg kind]
      rfl

theorem framebufferTurn_fine {fields : Nat → List Nat} {tag : Nat} :
    (framebufferTurn bytes fields tag).Fine (Inside bytes mi) ↔ HeadFits bytes mi tag ∧ (framebufferTag bytes tag →
      Fits bytes mi (tag + 29) 1 ∧ (bytes (pointer (tag + 29)) = 1 → Fits bytes mi (tag + 28) 1) ∧
        (modeAccepted bytes tag → ∀ i ∈ fields tag, Inside bytes mi i)) := by
  have optional (given : Prop) [Decidable given] (reads : List Nat) :
      (∀ i ∈ (if given then reads else []), Inside bytes mi i) ↔ (given → ∀ i ∈ reads, Inside bytes mi i) := by
    split
    next yes => exact ⟨fun all _ => all,fun all => all yes⟩
    next no => exact ⟨fun _ own => absurd own no,fun _ => nofun⟩
  unfold framebufferTurn
  by_cases closed : read32 bytes tag = tagEnd
  · have other : ¬framebufferTag bytes tag := by
      rw [framebufferTag_iff,closed]
      exact fun both => absurd both.1 (by decide)
    rw [if_pos closed,← type_iff (beq_iff_eq.mpr closed)]
    simp only [Turn.Fine,other,Bool.false_eq_true,false_implies,and_true]
  · rw [if_neg closed,← head_iff (beq_eq_false_iff_ne.mpr closed)]
    by_cases kind : framebufferTag bytes tag
    · rw [if_pos (framebufferTag_iff.mp kind),forall_prop_of_true kind]
      simp only [Turn.Fine,List.forall_mem_append,optional,fits_iff (by decide : 0 < 1),and_assoc]
    · rw [if_neg (fun own => kind (framebufferTag_iff.mpr own))]
      simp only [Turn.Fine,kind,Bool.false_eq_true,false_implies,and_true]

theorem prepareTurn_fine (tag : Nat) :
    (framebufferTurn bytes (fun tag => bytesAt tag fbTagSize) tag).Fine (Inside bytes mi) ↔ FramebufferFits bytes mi tag := by
  rw [framebufferTurn_fine,fits_iff (by decide)]
  rfl

theorem prepare_iff :
    (∃ fuel result, framebufferPrepare bytes mi fuel = some result ∧ ∀ i ∈ result.1, Inside bytes mi i) ↔
      WalkFits bytes mi (framebufferStops bytes) (FramebufferFits bytes mi) := by
  constructor
  · intro ⟨fuel,result,done,inside⟩
    exact walkFits_of_loop (framebufferTurn_next _) prepareTurn_fine done inside
  · intro fits
    obtain ⟨least,returns⟩ := loop_of_walkFits (framebufferTurn_next _) prepareTurn_fine fits
    exact ⟨least,returns least (Nat.le_refl _)⟩

/-- What `framebuffer_init` reads of a tag is part of what `framebuffer_prepare` copies. -/
theorem modeReads_inside (block : mi + read32 bytes mi < 2^32) {tag : Nat} (fits : Fits bytes mi tag fbTagSize) :
    ∀ i ∈ modeReads tag, Inside bytes mi i := by
  have part {skip width : Nat} (positive : 0 < width) (inside : skip + width ≤ fbTagSize) :=
    (fits_iff positive).mpr (fits.part block inside)
  unfold modeReads
  simp only [List.forall_mem_append]
  refine ⟨⟨⟨⟨⟨?_,?_⟩,?_⟩,?_⟩,?_⟩,?_⟩
  · exact part (by decide) (by decide)
  · exact part (by decide) (by decide)
  · exact part (by decide) (by decide)
  · exact part (by decide) (by decide)
  · exact part (by decide) (by decide)
  · intro i member
    obtain ⟨skip,colour,member⟩ := List.mem_flatMap.mp member
    have inside : skip + 1 ≤ fbTagSize := (by decide : ∀ skip ∈ [32,33,34,35,36,37], skip + 1 ≤ fbTagSize) skip colour
    exact part Nat.one_pos inside i member

theorem init_of_prepare (block : mi + read32 bytes mi < 2^32) (saved : Option Nat)
    (fits : WalkFits bytes mi (framebufferStops bytes) (FramebufferFits bytes mi)) :
    ∃ fuel result, framebufferInit bytes saved mi fuel = some result ∧ ∀ i ∈ result.1, Inside bytes mi i := by
  cases saved with
  | some tag => exact ⟨0,([],some tag),rfl,nofun⟩
  | none =>
    have fits' : WalkFits bytes mi (framebufferStops bytes) fun tag => HeadFits bytes mi tag ∧ (framebufferTag bytes tag →
        Fits bytes mi (tag + 29) 1 ∧ (bytes (pointer (tag + 29)) = 1 → Fits bytes mi (tag + 28) 1) ∧
          (modeAccepted bytes tag → ∀ i ∈ modeReads tag, Inside bytes mi i)) := by
      intro tag reached
      obtain ⟨⟨head,mode⟩,straight⟩ := fits tag reached
      refine ⟨⟨head,fun kind => ?_⟩,straight⟩
      obtain ⟨kinds,depth,whole⟩ := mode kind
      exact ⟨kinds,depth,fun accepted => modeReads_inside block (whole accepted)⟩
    obtain ⟨least,returns⟩ := loop_of_walkFits (framebufferTurn_next modeReads) (fun _ => framebufferTurn_fine) fits'
    exact ⟨least,returns least (Nat.le_refl _)⟩

theorem acpiTurn_next (tag : Nat) :
    (acpiTurn bytes (finishOf bytes mi) tag).next = following bytes (acpiStops bytes mi) tag := by
  unfold following acpiStops
  by_cases room : pointer (tag + 8) ≤ finishOf bytes mi
  · rw [boundedStops_eq room]
    unfold acpiTurn closes
    rw [if_neg (Decidable.not_not.mpr room)]
    by_cases closed : read32 bytes tag = tagEnd
    · rw [if_pos closed,beq_iff_eq.mpr closed,Bool.true_or,if_pos rfl]
      rfl
    · rw [if_neg closed,beq_eq_false_iff_ne.mpr closed,Bool.false_or]
      by_cases kind : rootTag bytes tag
      · rw [if_pos kind,kind,Bool.true_and]
        by_cases found : madtAt bytes tag = 0
        · rw [if_neg (Decidable.not_not.mpr found),found]
          rfl
        · rw [if_pos found,if_pos (bne_iff_ne.mpr found)]
          rfl
      · rw [if_neg kind,Bool.eq_false_iff.mpr kind]
        rfl
  · have out : boundedStops bytes mi tag = true := by
      unfold boundedStops beyond
      simp [room]
    unfold acpiTurn
    rw [if_pos room,out]
    rfl

theorem rootReads_inside (block : mi + read32 bytes mi < 2^32) (tag : Nat) :
    (∀ i ∈ rootReads bytes tag, Inside bytes mi i) ↔ Fits bytes mi (tag + 23) 1 ∧
      (extendedRsdp bytes tag → Fits bytes mi (tag + 8) 36) ∧
      (¬extendedRsdp bytes tag ∧ sizeAt bytes tag ≥ 28 → Fits bytes mi (tag + 8) 20) := by
  unfold rootReads summedRsdp
  rw [List.forall_mem_append,List.forall_mem_append,fits_iff (by decide),and_assoc]
  refine and_congr_right fun _ => ?_
  cases extended : extendedRsdp bytes tag with
  | false =>
    by_cases sized : sizeAt bytes tag ≥ 28
    · simp [sized,fits_iff (by decide : 0 < 20)]
    · simp [sized]
  | true =>
    simp only [if_true,fits_iff (by decide : 0 < 36),Bool.true_and,not_true_eq_false,false_and,false_implies,and_true,true_implies]
    refine and_iff_left_of_imp fun fits => ?_
    split
    next =>
      rw [List.forall_mem_append,fits_iff (by decide),fits_iff (by decide)]
      have root : Fits bytes mi (tag + 8 + 16) 4 := fits.part block (by decide)
      have extension : Fits bytes mi (tag + 8 + 24) 8 := fits.part block (by decide)
      exact ⟨root,extension⟩
    next =>
      split
      · rw [fits_iff (by decide)]
        have first : Fits bytes mi (tag + 8 + 0) 20 := fits.part block (by decide)
        exact first
      · nofun

theorem acpiTurn_fine (block : mi + read32 bytes mi < 2^32) (tag : Nat) :
    (acpiTurn bytes (finishOf bytes mi) tag).Fine (Inside bytes mi) ↔ RootFits bytes mi tag := by
  unfold acpiTurn RootFits
  rw [beyond_iff,← rootReads_inside block]
  by_cases room : pointer (tag + 8) ≤ finishOf bytes mi
  · rw [if_neg (Decidable.not_not.mpr room),forall_prop_of_true room]
    by_cases closed : read32 bytes tag = tagEnd
    · have other : ¬rootTag bytes tag := by
        unfold rootTag
        rw [closed]
        exact Bool.false_ne_true
      rw [if_pos closed,← type_iff (beq_iff_eq.mpr closed)]
      simp only [Turn.Fine,other,Bool.false_eq_true,false_implies,and_true]
    · rw [if_neg closed,← head_iff (beq_eq_false_iff_ne.mpr closed)]
      by_cases kind : rootTag bytes tag
      · rw [if_pos kind,forall_prop_of_true kind]
        split
        · simp only [Turn.Fine,List.forall_mem_append]
        · simp only [Turn.Fine,List.forall_mem_append]
      · rw [if_neg kind]
        simp only [Turn.Fine,kind,Bool.false_eq_true,false_implies,and_true]
  · rw [if_pos room]
    simp [Turn.Fine,room]

theorem acpi_iff (block : mi + read32 bytes mi < 2^32) (bspApic : Nat) (cpus : Nat → CpuInfo) :
    (∃ fuel result, acpiEnumerate bytes mi bspApic fuel cpus = some result ∧ ∀ i ∈ result.1, Inside bytes mi i) ↔
      (mi ≠ 0 → WalkFits bytes mi (acpiStops bytes mi) (RootFits bytes mi)) := by
  unfold acpiEnumerate
  by_cases null : mi = 0
  · simp only [if_pos null]
    exact ⟨fun _ other => absurd null other,fun _ => ⟨0,_,rfl,nofun⟩⟩
  · simp only [if_neg null]
    constructor
    · intro ⟨fuel,result,done,inside⟩ _
      split at done
      next => cases done
      next tags walked =>
        obtain ⟨value,_,rfl⟩ := Option.map_eq_some_iff.mp done
        exact walkFits_of_loop acpiTurn_next (acpiTurn_fine block) walked inside
    · intro fits
      obtain ⟨n,walks⟩ := loop_of_walkFits acpiTurn_next (acpiTurn_fine block) (fits null)
      obtain ⟨tags,walked,inside⟩ := walks n (Nat.le_refl n)
      obtain ⟨m,returns⟩ := enumerateMadt_returns bytes tags.2 bspApic cpus
      obtain ⟨value,enumerated⟩ := returns (max n m) (Nat.le_max_right ..)
      refine ⟨max n m,(tags.1,value),?_,inside⟩
      have later := loop_more (Nat.le_max_left n m) walked
      unfold finishOf at later
      rw [later]
      dsimp only
      rw [enumerated]
      rfl

end Turns

/-- On a block below 4 GiB, the four functions end and read only inside the block exactly if
the tags that each of them reaches fit and do not come round. -/
theorem walkers_robust {bytes : Nat → Byte} {mi : Nat} (block : mi + read32 bytes mi < 2^32) (saved : Option Nat)
    (bspApic : Nat) (cpus : Nat → CpuInfo) :
    Robust bytes mi saved bspApic cpus ↔
      WalkFits bytes mi (boundedStops bytes mi) (fun tag => MapFits bytes mi tag ∧ ModuleFits bytes mi tag) ∧
      WalkFits bytes mi (framebufferStops bytes) (FramebufferFits bytes mi) ∧
      (mi ≠ 0 → WalkFits bytes mi (acpiStops bytes mi) (RootFits bytes mi)) := by
  constructor
  · intro ⟨memory,prepare,_,acpi⟩
    exact ⟨memory_iff.mp memory,prepare_iff.mp prepare,(acpi_iff block bspApic cpus).mp acpi⟩
  · intro ⟨memory,prepare,acpi⟩
    exact ⟨memory_iff.mpr memory,prepare_iff.mpr prepare,init_of_prepare block saved prepare,
      (acpi_iff block bspApic cpus).mpr acpi⟩

section Formed
open LionOS.Frames (WellFormed nextTag infoEnd isTag isTag_room nextTag_above tagStride)
variable {bytes : Nat → Byte} {mi : Nat} (formed : WellFormed bytes mi) (block : mi + read32 bytes mi + 16 < 2^32)
include formed block

theorem formed_stride {tag : Nat} (reached : OnWay (nextTag bytes (infoEnd bytes mi)) (mi + 8) tag)
    (live : isTag bytes (infoEnd bytes mi) tag) :
    tag + tagStride (Frames.tagSize bytes tag) ≤ infoEnd bytes mi + 7 := by
  have inside := formed.inside tag ⟨reached,live⟩
  have above := nextTag_above reached
  unfold infoEnd tagStride at *
  omega

theorem formed_below {tag : Nat} (reached : OnWay (nextTag bytes (infoEnd bytes mi)) (mi + 8) tag) :
    tag ≤ infoEnd bytes mi + 8 := by
  cases reached with
  | refl => exact Nat.add_le_add_right (Nat.le_add_right ..) 8
  | tail before leads =>
    unfold nextTag at leads
    split at leads
    next live =>
      cases leads
      exact Nat.le_succ_of_le (formed_stride formed block before live)
    next => cases leads

theorem formed_following {tag : Nat} (reached : OnWay (nextTag bytes (infoEnd bytes mi)) (mi + 8) tag) :
    following bytes (boundedStops bytes mi) tag = nextTag bytes (infoEnd bytes mi) tag := by
  have below := formed_below formed block reached
  have wide : pointer (tag + 8) = tag + 8 := Nat.mod_eq_of_lt (by unfold infoEnd at below; omega)
  have finish : finishOf bytes mi = infoEnd bytes mi := Nat.mod_eq_of_lt (by omega)
  have same : boundedStops bytes mi tag = !isTag bytes (infoEnd bytes mi) tag := by
    unfold boundedStops beyond closes isTag
    rw [wide,finish,Bool.not_and]
    simp [bne]
  unfold following nextTag
  rw [same]
  cases live : isTag bytes (infoEnd bytes mi) tag with
  | false => rfl
  | true =>
    have stride := formed_stride formed block reached live
    have room := isTag_room live
    have field : pointer (tag + 4) = tag + 4 := Nat.mod_eq_of_lt (by unfold infoEnd at below; omega)
    have on : advance bytes tag = tag + tagStride (Frames.tagSize bytes tag) := by
      unfold advance sizeAt
      rw [field]
      exact Nat.mod_eq_of_lt (by unfold infoEnd Frames.tagSize at stride; omega)
    rw [on]
    rfl

/-- On a well formed block the loops of `memory_init` visit the tags from which its map of the
frames is made, where pointers do not wrap. -/
theorem wellFormed_way {tag : Nat} : OnWay (following bytes (boundedStops bytes mi)) (pointer (mi + 8)) tag ↔
    OnWay (nextTag bytes (infoEnd bytes mi)) (mi + 8) tag := by
  have first : pointer (mi + 8) = mi + 8 := Nat.mod_eq_of_lt (by omega)
  rw [first]
  constructor
  · intro reached
    induction reached with
    | refl => exact .refl
    | tail _ leads ih => exact .tail ih ((formed_following formed block ih).symm.trans leads)
  · intro reached
    induction reached with
    | refl => exact .refl
    | tail before leads ih => exact .tail ih ((formed_following formed block before).trans leads)

end Formed

theorem walkFits_of_walk {bytes : Nat → Byte} {mi : Nat} {stops : Nat → Bool} {fits : Nat → Prop} {way : List Nat}
    (found : Walk (following bytes stops) (pointer (mi + 8)) way) (each : ∀ tag ∈ way, fits tag) :
    WalkFits bytes mi stops fits := by
  intro tag reached
  obtain ⟨rest,goes,_⟩ := found.rest reached
  exact ⟨each tag (found.mem_iff.mpr reached),goes.straight⟩

/-- A block with a module and the closing tag. -/
def oneModule : Nat → Byte := fun i =>
  if i = 0x10000 then 32 else if i = 0x10008 then 3 else if i = 0x1000C then 16 else if i = 0x10012 then 0x80
  else if i = 0x10016 then 0x81 else if i = 0x1001C then 8 else 0

theorem oneModule_fits {stops : Nat → Bool} {fits : Nat → Prop} (goes : stops 0x10008 = false) (closes : stops 0x10018 = true)
    (module : fits 0x10008) (closing : fits 0x10018) : WalkFits oneModule 0x10000 stops fits := by
  have leads : following oneModule stops (pointer (0x10000 + 8)) = some 0x10018 := by
    unfold following
    rw [show pointer (0x10000 + 8) = 0x10008 from rfl,goes]
    decide +kernel
  have ends : following oneModule stops 0x10018 = none := by
    unfold following
    rw [closes]
    rfl
  refine walkFits_of_walk (.step leads (.last ends)) ?_
  intro tag member
  rcases List.mem_cons.mp member with first | second
  · rw [first]
    exact module
  · rw [List.mem_singleton.mp second]
    exact closing

theorem oneModule_heads : HeadFits oneModule 0x10000 0x10008 ∧ HeadFits oneModule 0x10000 0x10018 := by decide +kernel

theorem oneModule_kinds : read32 oneModule 0x10008 = tagModule ∧ read32 oneModule 0x10018 = tagEnd := by decide +kernel

theorem walkers_robust_module : Robust oneModule 0x10000 none 0 resetCpus := by
  obtain ⟨first,second⟩ := oneModule_heads
  have start : Fits oneModule 0x10000 (0x10008 + 8) 4 ∧ Fits oneModule 0x10000 (0x10008 + 12) 4 := by decide +kernel
  have other {kind : Nat} (module : kind ≠ tagModule) (closing : kind ≠ tagEnd) :
      read32 oneModule 0x10008 ≠ kind ∧ read32 oneModule 0x10018 ≠ kind := by
    rw [oneModule_kinds.1,oneModule_kinds.2]
    exact ⟨module.symm,closing.symm⟩
  have maps := other (by decide : tagMmap ≠ tagModule) (by decide)
  have none : framebufferTag oneModule 0x10008 = false ∧ framebufferTag oneModule 0x10018 = false ∧
      rootTag oneModule 0x10008 = false ∧ rootTag oneModule 0x10018 = false := by decide +kernel
  refine (walkers_robust (by decide +kernel) Option.none 0 resetCpus).mpr ⟨?_,?_,fun _ => ?_⟩
  · refine oneModule_fits (by decide +kernel) (by decide +kernel) ⟨fun _ => ⟨first,?_⟩,fun _ => ⟨first,fun _ => start⟩⟩
      ⟨fun _ => ⟨second,?_⟩,fun _ => ⟨second,?_⟩⟩
    · exact fun kind => absurd kind maps.1
    · exact fun kind => absurd kind maps.2
    · exact fun kind => absurd (oneModule_kinds.2.symm.trans kind.1) (by decide)
  · refine oneModule_fits (by decide +kernel) (by decide +kernel) ⟨first,?_⟩ ⟨second,?_⟩
    · exact fun kind => absurd (none.1.symm.trans kind) Bool.false_ne_true
    · exact fun kind => absurd (none.2.1.symm.trans kind) Bool.false_ne_true
  · refine oneModule_fits (by decide +kernel) (by decide +kernel) (fun _ => ⟨first,?_⟩) (fun _ => ⟨second,?_⟩)
    · exact fun kind => absurd (none.2.2.1.symm.trans kind) Bool.false_ne_true
    · exact fun kind => absurd (none.2.2.2.symm.trans kind) Bool.false_ne_true

/-- A tag that gives its size as 0. -/
def sizeless : Nat → Byte := fun i => if i = 0x10000 then 24 else if i = 0x10008 then 1 else 0

theorem sizeless_hangs : ¬Robust sizeless 0x10000 none 0 resetCpus := by
  intro robust
  have stays : following sizeless (boundedStops sizeless 0x10000) (pointer (0x10000 + 8)) = some (pointer (0x10000 + 8)) := by
    decide +kernel
  exact (memory_iff.mp robust.memory _ .refl).2 ⟨_,stays,.refl⟩

end LionOS.Boot

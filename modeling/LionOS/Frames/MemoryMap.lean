import LionOS.Library.Walk
import LionOS.Frames.Allocation

/-! Which frames are free after `memory_init` on a well formed block of boot information. -/
namespace LionOS.Frames
open LionOS.Library LionOS.Memory LionOS.Physical

section Block
variable (bytes : Nat → Byte) (mi : Nat)

def infoEnd : Nat := mi + read32 bytes mi

def tagSize (tag : Nat) : Nat := read32 bytes (tag + 4)

/-- A tag of a block that ends at `last`, other than the one that closes it. -/
def isTag (last tag : Nat) : Bool := tag + 8 ≤ last && read32 bytes tag != tagEnd

def nextTag (last tag : Nat) : Option Nat := if isTag bytes last tag then some (tag + tagStride (tagSize bytes tag)) else none

def TagOf (tag : Nat) : Prop := OnWay (nextTag bytes (infoEnd bytes mi)) (mi + 8) tag ∧ isTag bytes (infoEnd bytes mi) tag

def entrySize (tag : Nat) : Nat := read32 bytes (tag + 8)

/-- The tags lie in the block and no size is 0. -/
structure WellFormed : Prop where
  sized : ∀ tag, TagOf bytes mi tag → 0 < tagSize bytes tag
  inside : ∀ tag, TagOf bytes mi tag → tag + tagSize bytes tag ≤ infoEnd bytes mi
  entries : ∀ tag, TagOf bytes mi tag → read32 bytes tag = tagMmap → 0 < entrySize bytes tag

/-- The place of an entry of a memory map. -/
def EntryOf (entry : Nat) : Prop :=
  ∃ tag, TagOf bytes mi tag ∧ read32 bytes tag = tagMmap ∧
    ∃ k, entry = tag + 16 + k * entrySize bytes tag ∧ entry + entrySize bytes tag ≤ tag + tagSize bytes tag

def entryAddr (entry : Nat) : Nat := read64 bytes entry

def entryLen (entry : Nat) : Nat := read64 bytes (entry + 8)

def available (entry : Nat) : Bool := read32 bytes (entry + 16) == memoryAvailable

/-- The whole frame lies in an available entry, over the integers. -/
def Contains (entry p : Nat) : Prop :=
  available bytes entry ∧ entryAddr bytes entry ≤ p * pageSize ∧
    p * pageSize + pageSize ≤ entryAddr bytes entry + entryLen bytes entry

def Touches (first last p : Nat) : Prop := first < last ∧ first < p * pageSize + pageSize ∧ p * pageSize < last

/-- The first 8 MiB, the kernel image, the block itself and the modules. -/
def Reserved (kernelStart kernelEnd p : Nat) : Prop :=
  Touches 0 (8 * 2^20) p ∨ Touches kernelStart kernelEnd p ∨ Touches mi (infoEnd bytes mi) p ∨
    ∃ tag, TagOf bytes mi tag ∧ read32 bytes tag = tagModule ∧ 16 ≤ tagSize bytes tag ∧
      Touches (read32 bytes (tag + 8)) (read32 bytes (tag + 12)) p

/-- The frames that are to be free. -/
def Usable (kernelStart kernelEnd p : Nat) : Prop :=
  (∃ entry, EntryOf bytes mi entry ∧ Contains bytes entry p) ∧ ¬Reserved bytes mi kernelStart kernelEnd p

/-- The end of the entry does not fit into 64 bits. -/
def Overruns (entry : Nat) : Prop := 2^64 ≤ entryAddr bytes entry + entryLen bytes entry

/-- A frame outside the entry that its addresses come to when they are cut: an address in the
last page rounds up to 0, and a frame number loses what is above 32 bits. -/
def Strays (entry p : Nat) : Prop :=
  available bytes entry ∧
    (2^64 - pageSize < entryAddr bytes entry ∧
        (¬Overruns bytes entry ∨ p * pageSize + pageSize ≤ entryAddr bytes entry + entryLen bytes entry - 2^64) ∨
      ¬Overruns bytes entry ∧ ∃ k, 0 < k ∧ entryAddr bytes entry ≤ (p + k * 2^32) * pageSize ∧
        (p + k * 2^32) * pageSize + pageSize ≤ entryAddr bytes entry + entryLen bytes entry)

/-- What `memory_init` releases for an entry. -/
def Releases (entry p : Nat) : Prop :=
  available bytes entry ∧ ∃ address ∈ pagesBetween (alignUp (entryAddr bytes entry))
    (alignDown ((entryAddr bytes entry + entryLen bytes entry) % 2^64)), frameOf address = p

end Block

instance (first last p : Nat) : Decidable (Touches first last p) := inferInstanceAs (Decidable (_ ∧ _ ∧ _))

instance (bytes : Nat → Byte) (entry : Nat) : Decidable (Overruns bytes entry) := inferInstanceAs (Decidable (_ ≤ _))

theorem read32_lt (bytes : Nat → Byte) (address : Nat) : read32 bytes address < 2^32 := by
  have first := (bytes address).isLt
  have second := (bytes (address + 1)).isLt
  have third := (bytes (address + 2)).isLt
  have fourth := (bytes (address + 3)).isLt
  unfold read32
  omega

theorem read64_lt (bytes : Nat → Byte) (address : Nat) : read64 bytes address < 2^64 := by
  have low := read32_lt bytes address
  have high := read32_lt bytes (address + 4)
  unfold read64
  omega

theorem page_mem {first last address : Nat} :
    address ∈ pagesBetween first last ↔ ∃ i, i < (last - first) / pageSize ∧ first + i * pageSize = address := by
  unfold pagesBetween
  simp only [List.mem_map,List.mem_range]

/-- The frames released for an entry, by its address and length. -/
theorem page_between (addr len : Nat) {p : Nat} (low : addr < 2^64) (short : len < 2^64) (small : p < maxPages) :
    (∃ address ∈ pagesBetween (alignUp addr) (alignDown ((addr + len) % 2^64)), frameOf address = p) ↔
      (addr ≤ p * pageSize ∧ p * pageSize + pageSize ≤ addr + len ∧ ¬2^64 ≤ addr + len) ∨
      2^64 - pageSize < addr ∧ (¬2^64 ≤ addr + len ∨ p * pageSize + pageSize ≤ addr + len - 2^64) ∨
      ¬2^64 ≤ addr + len ∧ ∃ k, 0 < k ∧ addr ≤ (p + k * 2^32) * pageSize ∧ (p + k * 2^32) * pageSize + pageSize ≤ addr + len := by
  have pages : (∃ address ∈ pagesBetween (alignUp addr) (alignDown ((addr + len) % 2^64)), frameOf address = p) ↔
      ∃ k, (addr + 4095) % 2^64 / 4096 ≤ p + k * 2^32 ∧ p + k * 2^32 < (addr + len) % 2^64 / 4096 := by
    unfold alignUp alignDown frameOf pageSize
    unfold maxPages at small
    constructor
    · rintro ⟨address,member,frame⟩
      obtain ⟨i,inside,rfl⟩ := page_mem.mp member
      unfold pageSize at inside frame
      refine ⟨((addr + 4095) % 2^64 / 4096 + i) / 2^32,?_,?_⟩ <;> omega
    · rintro ⟨k,above,below⟩
      refine ⟨(p + k * 2^32) * 4096,page_mem.mpr ⟨p + k * 2^32 - (addr + 4095) % 2^64 / 4096,?_,?_⟩,?_⟩
      · unfold pageSize
        omega
      · unfold pageSize
        omega
      · omega
  rw [pages]
  unfold pageSize maxPages at *
  rcases Nat.lt_or_ge (2^64 - 4096) addr with top | below
  · have start : (addr + 4095) % 2^64 / 4096 = 0 := by omega
    rw [start]
    constructor
    · intro ⟨k,_,inside⟩
      exact .inr (.inl ⟨top,by omega⟩)
    · intro reached
      refine ⟨0,Nat.zero_le _,?_⟩
      rcases reached with ⟨_,_,fits⟩ | ⟨_,fits | inside⟩ | ⟨fits,_⟩ <;> omega
  · have start : (addr + 4095) % 2^64 / 4096 = (addr + 4095) / 4096 := by omega
    rw [start]
    by_cases wraps : 2^64 ≤ addr + len
    · constructor
      · intro ⟨k,after,before⟩
        omega
      · intro reached
        rcases reached with ⟨_,_,fits⟩ | ⟨top,_⟩ | ⟨fits,_⟩ <;> omega
    · have finish : (addr + len) % 2^64 / 4096 = (addr + len) / 4096 := by omega
      rw [finish]
      constructor
      · intro ⟨k,after,before⟩
        rcases Nat.eq_zero_or_pos k with zero | positive
        · rw [zero] at after before
          exact .inl (by omega)
        · exact .inr (.inr ⟨wraps,k,positive,by omega,by omega⟩)
      · intro reached
        rcases reached with ⟨_,_,_⟩ | ⟨top,_⟩ | ⟨_,k,_,_,_⟩
        · exact ⟨0,by omega,by omega⟩
        · omega
        · exact ⟨k,by omega,by omega⟩

theorem releases_iff (bytes : Nat → Byte) (entry : Nat) {p : Nat} (small : p < maxPages) :
    Releases bytes entry p ↔ Contains bytes entry p ∧ ¬Overruns bytes entry ∨ Strays bytes entry p := by
  unfold Releases Contains Strays Overruns
  rw [page_between (entryAddr bytes entry) (entryLen bytes entry) (read64_lt bytes entry)
    (read64_lt bytes (entry + 8)) small,and_or_left,and_assoc,and_assoc]

theorem isFree_releaseFrame (a : Allocator) (p q : Nat) :
    isFree (releaseFrame a p) q = (isFree a q || decide (q = p ∧ p < maxPages)) := by
  unfold releaseFrame
  split
  next held => exact isFree_markFree a p q
  next other =>
    by_cases own : q = p ∧ p < maxPages
    · obtain ⟨rfl,inside⟩ := own
      have free : isFree a q = true := by
        by_contra used
        exact other ⟨inside,Bool.eq_false_iff.mpr used⟩
      rw [free,Bool.true_or]
    · rw [decide_eq_false own,Bool.or_false]

theorem releaseFrames_free (addresses : List Nat) (a : Allocator) {p : Nat} (small : p < maxPages) :
    isFree (addresses.foldl (fun a address => releaseFrame a (frameOf address)) a) p = true ↔
      isFree a p = true ∨ ∃ address ∈ addresses, frameOf address = p := by
  induction addresses generalizing a with
  | nil => simp
  | cons address rest ih =>
    rw [List.foldl_cons,ih,isFree_releaseFrame,Bool.or_eq_true,decide_eq_true_eq,List.exists_mem_cons_iff,or_assoc]
    have own : p = frameOf address ∧ frameOf address < maxPages ↔ frameOf address = p := by
      constructor
      · exact fun reached => reached.1.symm
      · rintro rfl
        exact ⟨rfl,small⟩
    rw [own]

theorem mmapEntry_free (bytes : Nat → Byte) (a : Allocator) (entry : Nat) {p : Nat} (small : p < maxPages) :
    isFree (mmapEntry bytes a entry) p = true ↔ isFree a p = true ∨ Releases bytes entry p := by
  unfold mmapEntry
  split
  next kind =>
    have usable : available bytes entry = true := beq_iff_eq.mpr kind
    refine (releaseFrames_free _ a small).trans ?_
    unfold Releases
    rw [usable]
    simp only [true_and]
    rfl
  next other =>
    have usable : ¬available bytes entry = true := fun kind => other (beq_iff_eq.mp kind)
    unfold Releases
    simp only [usable,false_and,or_false,Bool.false_eq_true]

/-- The loop over the entries of one memory map. -/
theorem mmapEntries_free {bytes : Nat → Byte} {size last fuel : Nat} (positive : 0 < size) {entry : Nat}
    (enough : last - entry < fuel) (a : Allocator) :
    ∃ a', mmapEntries bytes size last fuel entry a = some a' ∧ ∀ p, p < maxPages →
      (isFree a' p = true ↔ isFree a p = true ∨
        ∃ k, entry + k * size + size ≤ last ∧ Releases bytes (entry + k * size) p) := by
  induction fuel generalizing entry a with
  | zero => cases enough
  | succ fuel ih =>
    unfold mmapEntries
    by_cases more : entry + size ≤ last
    · rw [if_pos more]
      obtain ⟨a',done,frames⟩ := ih (by omega : last - (entry + size) < fuel) (mmapEntry bytes a entry)
      refine ⟨a',done,?_⟩
      intro p small
      rw [frames p small,mmapEntry_free bytes a entry small,or_assoc]
      refine or_congr_right ?_
      constructor
      · rintro (own | ⟨k,inside,later⟩)
        · exact ⟨0,by omega,by rwa [Nat.zero_mul]⟩
        · have place : entry + size + k * size = entry + (k + 1) * size := by
            rw [Nat.add_one_mul]
            omega
          rw [place] at inside later
          exact ⟨k + 1,inside,later⟩
      · rintro ⟨k,inside,reached⟩
        cases k with
        | zero =>
          rw [Nat.zero_mul] at reached
          exact .inl reached
        | succ k =>
          have place : entry + (k + 1) * size = entry + size + k * size := by
            rw [Nat.add_one_mul]
            omega
          rw [place] at inside reached
          exact .inr ⟨k,inside,reached⟩
    · rw [if_neg more]
      refine ⟨a,rfl,fun p _ => ⟨.inl,?_⟩⟩
      rintro (free | ⟨k,inside,_⟩)
      · exact free
      · omega

/-- The loop over the tags, when each visit can only set the state of frames to one value. -/
theorem forTags_sets {bytes : Nat → Byte} {visit : Nat → Allocator → Option Allocator} {last fuel tag : Nat} {tags : List Nat}
    (value : Bool) {sets : Nat → Nat → Prop} (way : Walk (nextTag bytes last) tag tags)
    (visits : ∀ t ∈ tags, isTag bytes last t → ∀ a, ∃ a', visit t a = some a' ∧
      ∀ p, p < maxPages → (isFree a' p = value ↔ isFree a p = value ∨ sets t p))
    (enough : tags.length ≤ fuel) (a : Allocator) :
    ∃ a', forTags bytes visit last fuel tag a = some a' ∧ ∀ p, p < maxPages →
      (isFree a' p = value ↔ isFree a p = value ∨ ∃ t ∈ tags, isTag bytes last t ∧ sets t p) := by
  induction way generalizing fuel a with
  | @last t stops =>
    obtain ⟨fuel,rfl⟩ := Nat.exists_eq_add_of_le' enough
    have none : isTag bytes last t = false := by
      unfold nextTag at stops
      split at stops
      · cases stops
      next other => exact Bool.eq_false_iff.mpr other
    refine ⟨a,?_,?_⟩
    · unfold isTag at none
      rw [List.length_singleton,forTags]
      split
      next room =>
        rw [decide_eq_true room,Bool.true_and,bne_eq_false_iff_eq] at none
        rw [if_pos none]
      next => rfl
    · intro p small
      simp only [List.mem_singleton,exists_eq_left,none,Bool.false_eq_true,false_and,or_false]
  | @step t y rest leads later ih =>
    obtain ⟨fuel,rfl⟩ := Nat.exists_eq_add_of_le' enough
    have live : isTag bytes last t = true := by
      unfold nextTag at leads
      split at leads
      next here => exact here
      · cases leads
    unfold nextTag at leads
    rw [if_pos live] at leads
    cases leads
    obtain ⟨b,visited,own⟩ := visits t (List.mem_cons_self ..) live a
    obtain ⟨a',done,frames⟩ := ih (fun t' member => visits t' (List.mem_cons_of_mem _ member)) (Nat.le_add_left _ fuel) b
    refine ⟨a',?_,?_⟩
    · have live' := live
      unfold isTag at live'
      rw [Bool.and_eq_true,decide_eq_true_eq,bne_iff_ne] at live'
      rw [List.length_cons,← Nat.add_assoc,forTags,if_pos live'.1,if_neg live'.2,visited]
      exact done
    · intro p small
      rw [frames p small,own p small,or_assoc,List.exists_mem_cons_iff,live]
      simp only [true_and]

theorem reserveRange_used_iff (a : Allocator) {first last p : Nat} (short : last < 2^34) (small : p < maxPages) :
    isFree (reserveRange a first last) p = false ↔ isFree a p = false ∨ Touches first last p := by
  have touched : first < last → ((∃ address ∈ pagesBetween (alignDown first) (alignUp last), frameOf address = p) ↔
      Touches first last p) := by
    intro some
    have up : alignUp last = (last + 4095) / 4096 * 4096 := by
      unfold alignUp alignDown pageSize
      rw [Nat.mod_eq_of_lt (by omega)]
    rw [up]
    unfold Touches alignDown frameOf pageSize
    unfold maxPages at small
    constructor
    · rintro ⟨address,member,frame⟩
      obtain ⟨i,inside,rfl⟩ := page_mem.mp member
      unfold pageSize at inside frame
      omega
    · intro ⟨_,below,above⟩
      refine ⟨p * 4096,page_mem.mpr ⟨p - first / 4096,?_,?_⟩,by omega⟩
      · unfold pageSize
        omega
      · unfold pageSize
        omega
  by_cases some : first < last
  · rw [← touched some]
    constructor
    · intro used
      by_contra other
      have free := Bool.eq_true_of_not_eq_false fun before => other (.inl before)
      have same := reserveRange_outside (a := a) (fun address member frame => other (.inr ⟨address,member,frame⟩))
      rw [same,free] at used
      cases used
    · rintro (used | reached)
      · exact reserveRange_used first last used
      · unfold reserveRange
        rw [if_neg (by omega)]
        exact reserveFrames_inside _ a reached
  · unfold reserveRange
    rw [if_pos (Nat.le_of_not_lt some)]
    exact ⟨.inl,fun reached => reached.resolve_right fun touches => some touches.1⟩

theorem moduleTag_frames (bytes : Nat → Byte) (tag : Nat) (a : Allocator) :
    ∃ a', moduleTag bytes tag a = some a' ∧ ∀ p, p < maxPages → (isFree a' p = false ↔ isFree a p = false ∨
      read32 bytes tag = tagModule ∧ 16 ≤ tagSize bytes tag ∧
        Touches (read32 bytes (tag + 8)) (read32 bytes (tag + 12)) p) := by
  have high := read32_lt bytes (tag + 12)
  unfold moduleTag
  split
  next kind =>
    refine ⟨_,rfl,fun p small => ?_⟩
    rw [reserveRange_used_iff a (by omega) small]
    refine or_congr_right ⟨fun touches => ⟨kind.1,kind.2,touches⟩,fun reached => reached.2.2⟩
  next other =>
    refine ⟨a,rfl,fun p _ => ⟨.inl,?_⟩⟩
    rintro (used | ⟨kind,size,_⟩)
    · exact used
    · exact absurd ⟨kind,size⟩ other

theorem mmapTag_frames {bytes : Nat → Byte} {fuel tag : Nat} (positive : read32 bytes tag = tagMmap → 0 < entrySize bytes tag)
    (enough : tagSize bytes tag < fuel) (a : Allocator) :
    ∃ a', mmapTag bytes fuel tag a = some a' ∧ ∀ p, p < maxPages → (isFree a' p = true ↔ isFree a p = true ∨
      read32 bytes tag = tagMmap ∧ ∃ k, tag + 16 + k * entrySize bytes tag + entrySize bytes tag ≤ tag + tagSize bytes tag ∧
        Releases bytes (tag + 16 + k * entrySize bytes tag) p) := by
  unfold mmapTag
  split
  next kind =>
    have room : tag + tagSize bytes tag - (tag + 16) < fuel := by omega
    obtain ⟨a',done,frames⟩ := mmapEntries_free (positive kind) room a
    refine ⟨a',done,fun p small => ?_⟩
    rw [frames p small]
    exact or_congr_right ⟨fun reached => ⟨kind,reached⟩,And.right⟩
  next other =>
    refine ⟨a,rfl,fun p _ => ⟨.inl,?_⟩⟩
    rintro (free | ⟨kind,_⟩)
    · exact free
    · exact absurd kind other

theorem tagStride_le {size : Nat} (positive : 0 < size) (short : size + 7 < 2^32) : 0 < tagStride size := by
  unfold tagStride
  omega

theorem nextTag_above {bytes : Nat → Byte} {last first tag : Nat} (reached : OnWay (nextTag bytes last) first tag) :
    first ≤ tag := by
  induction reached with
  | refl => exact Nat.le_refl first
  | tail _ leads ih =>
    unfold nextTag at leads
    split at leads
    · cases leads
      exact Nat.le_add_right_of_le ih
    · cases leads

theorem isTag_room {bytes : Nat → Byte} {last tag : Nat} (live : isTag bytes last tag) : tag + 8 ≤ last := by
  unfold isTag at live
  rw [Bool.and_eq_true,decide_eq_true_eq] at live
  exact live.1

/-- The tags of a well formed block are a finite walk. -/
theorem WellFormed.walk {bytes : Nat → Byte} {mi : Nat} (formed : WellFormed bytes mi) :
    ∃ tags, Walk (nextTag bytes (infoEnd bytes mi)) (mi + 8) tags ∧ tags.length ≤ read32 bytes mi + 1 := by
  have total := read32_lt bytes mi
  have falls (y z : Nat) (reached : OnWay (nextTag bytes (infoEnd bytes mi)) (mi + 8) y)
      (leads : nextTag bytes (infoEnd bytes mi) y = some z) : infoEnd bytes mi - z < infoEnd bytes mi - y := by
    unfold nextTag at leads
    split at leads
    next live =>
      cases leads
      have positive := formed.sized y ⟨reached,live⟩
      have inside := formed.inside y ⟨reached,live⟩
      have above := nextTag_above reached
      have room := isTag_room live
      have short : tagSize bytes y + 7 < 2^32 := by
        unfold infoEnd at inside
        omega
      have stride := tagStride_le positive short
      omega
    next => cases leads
  obtain ⟨tags,way,short⟩ := walk_exists (fun tag => infoEnd bytes mi - tag) falls
  refine ⟨tags,way,Nat.le_trans short ?_⟩
  unfold infoEnd
  omega

/-- The frames that `memory_init` leaves free, whatever the addresses in the entries are. -/
theorem memoryInit_frames {bytes : Nat → Byte} {mi kernelEnd fuel : Nat} (kernelStart : Nat) (formed : WellFormed bytes mi)
    (info : mi < 2^32) (image : kernelEnd < 2^32) (enough : read32 bytes mi < fuel) :
    ∃ a, memoryInit bytes mi kernelStart kernelEnd fuel = some a ∧ ∀ p, p < maxPages →
      (isFree a p = true ↔ (∃ entry, EntryOf bytes mi entry ∧ Releases bytes entry p) ∧
        ¬Reserved bytes mi kernelStart kernelEnd p) := by
  obtain ⟨tags,way,short⟩ := formed.walk
  have total := read32_lt bytes mi
  have member (tag : Nat) : tag ∈ tags ∧ isTag bytes (infoEnd bytes mi) tag ↔ TagOf bytes mi tag := by
    unfold TagOf
    rw [way.mem_iff]
  have fits (tag : Nat) (of : TagOf bytes mi tag) : tagSize bytes tag < fuel := by
    have inside := formed.inside tag of
    have above := nextTag_above of.1
    unfold infoEnd at inside
    omega
  obtain ⟨a,mapped,free⟩ := forTags_sets true way (fun tag there live b => by
    have of := (member tag).mp ⟨there,live⟩
    exact mmapTag_frames (formed.entries tag of) (fits tag of) b) (Nat.le_trans short enough)
    ⟨fun _ => 0xFFFFFFFF#32,fun _ => 0,0,0⟩
  obtain ⟨a',reserved,used⟩ := forTags_sets false way (fun tag _ _ b => moduleTag_frames bytes tag b)
    (Nat.le_trans short enough)
    (reserveRange (reserveRange (reserveRange a 0 (reservedPages * pageSize)) kernelStart kernelEnd) mi (infoEnd bytes mi))
  refine ⟨a',?_,?_⟩
  · unfold memoryInit
    unfold infoEnd at mapped reserved
    dsimp only
    rw [mapped]
    exact reserved
  · intro p small
    have finish : infoEnd bytes mi < 2^34 := by
      unfold infoEnd
      omega
    have entries : isFree a p = true ↔ ∃ entry, EntryOf bytes mi entry ∧ Releases bytes entry p := by
      rw [free p small,isFree_full]
      constructor
      · rintro (used | ⟨tag,there,live,kind,k,inside,released⟩)
        · cases used
        · exact ⟨_,⟨tag,(member tag).mp ⟨there,live⟩,kind,k,rfl,inside⟩,released⟩
      · rintro ⟨_,⟨tag,of,kind,k,rfl,inside⟩,released⟩
        obtain ⟨there,live⟩ := (member tag).mpr of
        exact .inr ⟨tag,there,live,kind,k,inside,released⟩
    have modules : (∃ tag ∈ tags, isTag bytes (infoEnd bytes mi) tag ∧ read32 bytes tag = tagModule ∧
        16 ≤ tagSize bytes tag ∧ Touches (read32 bytes (tag + 8)) (read32 bytes (tag + 12)) p) ↔
        ∃ tag, TagOf bytes mi tag ∧ read32 bytes tag = tagModule ∧ 16 ≤ tagSize bytes tag ∧
          Touches (read32 bytes (tag + 8)) (read32 bytes (tag + 12)) p := by
      refine exists_congr fun tag => ?_
      rw [← member tag,and_assoc]
    have taken : isFree a' p = false ↔ isFree a p = false ∨ Reserved bytes mi kernelStart kernelEnd p := by
      rw [used p small,reserveRange_used_iff _ finish small,reserveRange_used_iff _ (by omega) small,
        reserveRange_used_iff _ (by decide) small,modules,or_assoc,or_assoc,or_assoc]
      rfl
    rw [← Bool.not_eq_false,taken,not_or,Bool.not_eq_false,entries]

/-- No frame is reached only by cut addresses, or missed only because the end of its entry is
cut. -/
def Uncut (bytes : Nat → Byte) (mi kernelStart kernelEnd : Nat) : Prop :=
  ∀ p, p < maxPages → ¬Reserved bytes mi kernelStart kernelEnd p →
    (∃ entry, EntryOf bytes mi entry ∧ Contains bytes entry p ∧ ¬Overruns bytes entry) ∨
    ((∃ entry, EntryOf bytes mi entry ∧ Strays bytes entry p) ↔
      ∃ entry, EntryOf bytes mi entry ∧ Contains bytes entry p ∧ Overruns bytes entry)

/-- `memory_init` returns with a right counter on every well formed block. The free frames are
those of the memory map exactly when no address is cut. -/
theorem memory_mapped {bytes : Nat → Byte} {mi kernelStart kernelEnd fuel : Nat} (formed : WellFormed bytes mi)
    (info : mi < 2^32) (image : kernelEnd < 2^32) (enough : read32 bytes mi < fuel) :
    ∃ a, memoryInit bytes mi kernelStart kernelEnd fuel = some a ∧ a.freePages = (freeFrames a).card ∧
      ((∀ p, p < maxPages → (isFree a p = true ↔ Usable bytes mi kernelStart kernelEnd p)) ↔
        Uncut bytes mi kernelStart kernelEnd) := by
  obtain ⟨a,booted,frames⟩ := memoryInit_frames kernelStart formed info image enough
  refine ⟨a,booted,(memoryInit_unused booted).agrees.counter,forall_congr' fun p => forall_congr' fun small => ?_⟩
  have released : (∃ entry, EntryOf bytes mi entry ∧ Releases bytes entry p) ↔
      (∃ entry, EntryOf bytes mi entry ∧ Contains bytes entry p ∧ ¬Overruns bytes entry) ∨
        ∃ entry, EntryOf bytes mi entry ∧ Strays bytes entry p := by
    rw [← exists_or]
    exact exists_congr fun entry => by rw [releases_iff bytes entry small,and_or_left]
  have contained : (∃ entry, EntryOf bytes mi entry ∧ Contains bytes entry p) ↔
      (∃ entry, EntryOf bytes mi entry ∧ Contains bytes entry p ∧ ¬Overruns bytes entry) ∨
        ∃ entry, EntryOf bytes mi entry ∧ Contains bytes entry p ∧ Overruns bytes entry := by
    rw [← exists_or]
    refine exists_congr fun entry => ?_
    rw [← and_or_left,← and_or_left,or_comm,and_iff_left (Classical.em _)]
  rw [frames p small,released]
  unfold Usable
  rw [contained]
  generalize (∃ entry, EntryOf bytes mi entry ∧ Contains bytes entry p ∧ ¬Overruns bytes entry) = exact
  generalize (∃ entry, EntryOf bytes mi entry ∧ Strays bytes entry p) = stray
  generalize (∃ entry, EntryOf bytes mi entry ∧ Contains bytes entry p ∧ Overruns bytes entry) = lost
  generalize Reserved bytes mi kernelStart kernelEnd p = reserved
  clear contained released
  tauto

/-- A block with one entry of one page, at 16 MiB or, with `high`, at a multiple of 2^40 above it. -/
def pageAt (high : Byte) : Nat → Byte := fun i =>
  if i = 0x10000 then 48 else if i = 0x10008 then 6 else if i = 0x1000C then 40 else if i = 0x10010 then 24
  else if i = 0x1001B then 1 else if i = 0x1001D then high else if i = 0x10021 then 0x10 else if i = 0x10028 then 1 else 0

theorem pageAt_tag (high : Byte) (tag : Nat) : TagOf (pageAt high) 0x10000 tag ↔ tag = 0x10008 := by
  have live : isTag (pageAt high) (infoEnd (pageAt high) 0x10000) 0x10008 = true := rfl
  have size : tagSize (pageAt high) 0x10008 = 40 := rfl
  have next : nextTag (pageAt high) (infoEnd (pageAt high) 0x10000) 0x10008 = some 0x10030 := by
    unfold nextTag
    rw [if_pos live,size]
    rfl
  have way : Walk (nextTag (pageAt high) (infoEnd (pageAt high) 0x10000)) (0x10000 + 8) [0x10008,0x10030] :=
    .step next (.last rfl)
  unfold TagOf
  rw [← way.mem_iff]
  constructor
  · intro ⟨member,live⟩
    rcases List.mem_cons.mp member with first | second
    · exact first
    · rw [List.mem_singleton.mp second] at live
      cases live
  · rintro rfl
    exact ⟨List.mem_cons_self ..,rfl⟩

theorem pageAt_formed (high : Byte) : WellFormed (pageAt high) 0x10000 := by
  refine ⟨?_,?_,?_⟩
  · intro tag of
    rw [(pageAt_tag high tag).mp of]
    exact (by decide : 0 < 40)
  · intro tag of
    rw [(pageAt_tag high tag).mp of]
    exact (by decide : 0x10008 + 40 ≤ 0x10000 + 48)
  · intro tag of _
    rw [(pageAt_tag high tag).mp of]
    exact (by decide : 0 < 24)

theorem memory_mapped_page : ∃ a, memoryInit (pageAt 0) 0x10000 0x100000 0x200000 49 = some a ∧
    a.freePages = (freeFrames a).card ∧
    ((∀ p, p < maxPages → (isFree a p = true ↔ Usable (pageAt 0) 0x10000 0x100000 0x200000 p)) ↔
      Uncut (pageAt 0) 0x10000 0x100000 0x200000) :=
  memory_mapped (pageAt_formed 0) (by decide) (by decide) (by decide)

theorem pageAt_entry (high : Byte) (entry : Nat) : EntryOf (pageAt high) 0x10000 entry ↔ entry = 0x10018 := by
  unfold EntryOf
  constructor
  · intro ⟨tag,of,_,k,place,inside⟩
    rw [(pageAt_tag high tag).mp of] at place inside
    have size : entrySize (pageAt high) 0x10008 = 24 := rfl
    have whole : tagSize (pageAt high) 0x10008 = 40 := rfl
    rw [size] at place inside
    rw [whole] at inside
    omega
  · rintro rfl
    exact ⟨0x10008,(pageAt_tag high _).mpr rfl,rfl,0,rfl,Nat.le_refl (0x10008 + 40)⟩

/-- An entry above 2^44 gives away the frame 2^44 below it. -/
theorem far_page_free : WellFormed (pageAt 0x10) 0x10000 ∧
    ∃ a, memoryInit (pageAt 0x10) 0x10000 0x100000 0x200000 49 = some a ∧ isFree a 4096 = true ∧
      ¬Usable (pageAt 0x10) 0x10000 0x100000 0x200000 4096 := by
  have formed := pageAt_formed 0x10
  obtain ⟨a,booted,frames⟩ := memoryInit_frames 0x100000 formed (by decide) (by decide : 0x200000 < 2^32)
    (by decide : _ < 49)
  have stray : Releases (pageAt 0x10) 0x10018 4096 := by
    rw [releases_iff _ _ (by decide)]
    exact .inr ⟨rfl,.inr ⟨by decide +kernel,1,Nat.one_pos,by decide +kernel,by decide +kernel⟩⟩
  have unreserved : ¬Reserved (pageAt 0x10) 0x10000 0x100000 0x200000 4096 := by
    rintro (low | image | block | ⟨tag,of,kind,_⟩)
    · exact absurd low (by decide)
    · exact absurd image (by decide)
    · exact absurd block (by decide)
    · rw [(pageAt_tag _ tag).mp of] at kind
      cases kind
  refine ⟨formed,a,booted,?_,?_⟩
  · exact (frames 4096 (by decide)).mpr ⟨⟨0x10018,(pageAt_entry _ _).mpr rfl,stray⟩,unreserved⟩
  · rintro ⟨⟨entry,of,_,above,_⟩,_⟩
    rw [(pageAt_entry _ entry).mp of] at above
    exact absurd above (by decide +kernel)

end LionOS.Frames

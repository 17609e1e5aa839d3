import LionOS.Files.Persistence

/-! A power loss between two sector writes: the mount that follows finds every file but
the one that was being written or removed. -/
namespace LionOS.Files
open LionOS.Physical LionOS.Library

def DiskCall.name : DiskCall → Text
  | .write name _ => name
  | .remove name => name

def transfers (d : DiskFs) : DiskCall → List SectorWrite
  | .write name bytes => match admitted d name.chars bytes with
    | none => []
    | some (c,i) => storeWrites c i bytes
  | .remove name =>
    if d.available then match diskfsFind d.entries name.chars with
      | none => []
      | some i => dropWrites d i
    else []

/-- The disk after the power was lost behind the first `k` writes of a call. -/
def crashed (d : DiskFs) (call : DiskCall) (k : Nat) : Disk := ⟨written d.disk.sectors ((transfers d call).take k),[]⟩

theorem diskStep_performs (d : DiskFs) (call : DiskCall) :
    (diskStep d call).disk = (performs d.disk (transfers d call)).1 := by
  cases call with
  | write name bytes =>
    cases given : admitted d name.chars bytes with
    | none =>
      simp only [diskStep,diskfsWrite_refused given,transfers,given,performs]
    | some claim =>
      obtain ⟨c,i⟩ := claim
      obtain ⟨disk,performed,result⟩ := diskfsWrite_transfers given
      simp only [diskStep,result,transfers,given]
      rw [← performed]
      split <;> rfl
  | remove name =>
    by_cases available : d.available = true
    · cases found : diskfsFind d.entries name.chars with
      | none => simp only [diskStep,diskfsRemove,found,transfers,ite_self,performs]
      | some i => simp only [diskStep,diskfsRemove_transfers available found,transfers,available,found,if_true]
    · rw [Bool.not_eq_true] at available
      simp [diskStep,diskfsRemove,transfers,available,performs]

section Torn
variable {old new : Nat → Entry} {sectors : Nat → Sector} {i m : Nat}

/-- Where an entry lies across two sectors, the boundary is within its name. -/
theorem boundary_name : ∀ i, i < diskfsMaxFiles → (entrySectors i).length = 2 →
    0 < ataSectorSize - i * entrySize % ataSectorSize ∧ ataSectorSize - i * entrySize % ataSectorSize ≤ 32 := by
  decide

theorem entrySectors_length : ∀ i, i < diskfsMaxFiles → (entrySectors i).length = 1 ∨ (entrySectors i).length = 2 := by
  decide

theorem torn_other (same : ∀ j, j ≠ i → new j = old j)
    (directory : ∀ s, s < diskfsDirSectors → sectors (diskfsDirLba + s) =
      if s ∈ (entrySectors i).take m then directorySector new s else directorySector old s)
    {j : Nat} (other : j ≠ i) (bound : j < diskfsMaxFiles) (encoded : Encoded (old j)) : rawEntry sectors j = old j := by
  refine loadEntry_encoded encoded ?_
  intro k inside
  have within := entry_inside bound inside
  have here := directory _ (table_sector within)
  split at here
  · rw [diskTable_byte within here,tableByte_entry new j inside,same j other]
  · rw [diskTable_byte within here,tableByte_entry old j inside]

theorem byte_sector {k : Nat} (inside : k < entrySize) : (i * entrySize + k) / ataSectorSize ∈ entrySectors i := by
  simp only [entrySectors,List.mem_map,List.mem_range]
  refine ⟨(i * entrySize + k) / ataSectorSize - i * entrySize / ataSectorSize,?_,?_⟩
  · unfold ataSectorSize
    unfold entrySize at inside ⊢
    omega
  · unfold ataSectorSize
    unfold entrySize at inside ⊢
    omega

/-- The entry itself is the old one, the new one, or the new one up to a place in its
name. -/
theorem torn_entry (bound : i < diskfsMaxFiles)
    (directory : ∀ s, s < diskfsDirSectors → sectors (diskfsDirLba + s) =
      if s ∈ (entrySectors i).take m then directorySector new s else directorySector old s)
    (before : Encoded (old i)) (after : Encoded (new i)) :
    rawEntry sectors i = old i ∨ rawEntry sectors i = new i ∨ ∃ b, 0 < b ∧ b ≤ 32 ∧
      rawEntry sectors i =
        ⟨fun k => if k < b then (new i).name k else (old i).name k,(old i).size,(old i).startLba⟩ := by
  have byte {k : Nat} (inside : k < entrySize) : diskTable sectors (i * entrySize + k) =
      if (i * entrySize + k) / ataSectorSize ∈ (entrySectors i).take m then entryByte (new i) k else entryByte (old i) k := by
    have within := entry_inside bound inside
    have here := directory _ (table_sector within)
    split at here
    next written => rw [diskTable_byte within here,tableByte_entry new i inside,if_pos written]
    next unwritten => rw [diskTable_byte within here,tableByte_entry old i inside,if_neg unwritten]
  by_cases all : (entrySectors i).length ≤ m
  · right
    left
    refine loadEntry_encoded after ?_
    intro k inside
    rw [byte inside,List.take_of_length_le all,if_pos (byte_sector inside)]
  by_cases start : m = 0
  · left
    refine loadEntry_encoded before ?_
    intro k inside
    rw [byte inside,start,List.take_zero,if_neg List.not_mem_nil]
  · right
    right
    have two : (entrySectors i).length = 2 ∧ m = 1 := by
      have lengths := entrySectors_length i bound
      omega
    obtain ⟨low,high⟩ := boundary_name i bound two.1
    refine ⟨ataSectorSize - i * entrySize % ataSectorSize,low,high,?_⟩
    generalize boundary : ataSectorSize - i * entrySize % ataSectorSize = b at low high
    have first {k : Nat} (inside : k < entrySize) : (i * entrySize + k) / ataSectorSize ∈ (entrySectors i).take m ↔ k < b := by
      have only : (entrySectors i).take m = [i * entrySize / ataSectorSize] := by
        rw [two.2,entrySectors,← List.map_take,List.take_range]
        have some : 1 ≤ ((i + 1) * entrySize - 1) / ataSectorSize + 1 - i * entrySize / ataSectorSize := by
          have length := two.1
          rw [entrySectors,List.length_map,List.length_range] at length
          omega
        rw [Nat.min_eq_left some]
        rfl
      rw [only,List.mem_singleton,← boundary]
      unfold ataSectorSize
      unfold entrySize at inside ⊢
      omega
    have encoded : Encoded
        ⟨fun k => if k < b then (new i).name k else (old i).name k,(old i).size,(old i).startLba⟩ := by
      refine ⟨?_,before.size,before.startLba⟩
      intro k outside
      dsimp only
      rw [if_neg (by omega)]
      exact before.name k outside
    refine loadEntry_encoded encoded ?_
    intro k inside
    rw [byte inside]
    simp only [first inside,entryByte]
    by_cases name : k < 64
    · simp only [if_pos name]
    · have behind : ¬ k < b := by omega
      simp only [if_neg name,if_neg behind]

end Torn

/-- Two file systems differ in one entry at most, which has no other name than `f`, and
in its extent. -/
structure Spared (d d' : DiskFs) (i : Nat) (f : List Byte) : Prop where
  available : d.available = true ∧ d'.available = true
  ready : d.disk.faults = [] ∧ d'.disk.faults = []
  others : ∀ j, j ≠ i → d'.entries j = d.entries j
  old : (d.entries i).name 0 = 0 ∨ Named (d.entries i) f
  new : (d'.entries i).name 0 = 0 ∨ Named (d'.entries i) f
  data : ∀ a, diskfsDataLba ≤ a → a < diskfsDataLba + i * diskfsSectorsPerFile ∨
    diskfsDataLba + i * diskfsSectorsPerFile + diskfsSectorsPerFile ≤ a → d'.disk.sectors a = d.disk.sectors a

theorem readData_congr {disk disk' : Disk} (ready : disk.faults = []) (ready' : disk'.faults = []) (lba remaining count : Nat)
    (same : ∀ s, s < count → disk'.sectors (lba + s) = disk.sectors (lba + s)) :
    (readData disk' lba remaining count).2 = (readData disk lba remaining count).2 := by
  induction count generalizing lba remaining with
  | zero => rfl
  | succ count ih =>
    have first := same 0 (Nat.succ_pos count)
    rw [Nat.add_zero] at first
    have rest := ih (lba + 1) (remaining - min remaining ataSectorSize) (by
      intro s bound
      have next := same (s + 1) (Nat.succ_lt_succ bound)
      rwa [show lba + (s + 1) = lba + 1 + s by omega] at next)
    simp only [readData,ataReadSector_ok ready,ataReadSector_ok ready',first]
    rcases taken : readData disk (lba + 1) (remaining - min remaining ataSectorSize) count with ⟨d,bytes⟩
    rcases taken' : readData disk' (lba + 1) (remaining - min remaining ataSectorSize) count with ⟨d',bytes'⟩
    rw [taken,taken'] at rest
    dsimp only at rest
    subst rest
    cases bytes' with
    | none => rfl
    | some rest => rfl

theorem unnamed_holds {entries : Nat → Entry} {j : Nat} (free : (entries j).name 0 = 0) (g : List Byte) :
    holds entries g j = false := by
  rw [holds,free]
  rfl

theorem Spared.find {d d' : DiskFs} {i : Nat} {f g : List Byte} (spared : Spared d d' i f) (tidy : Tidy d.entries)
    (text : 0 ∉ g) (other : g ≠ f) : diskfsFind d'.entries g = diskfsFind d.entries g := by
  have silent {entries : Nat → Entry} (named : (entries i).name 0 = 0 ∨ Named (entries i) f) :
      holds entries g i = false := by
    rcases named with free | named
    · exact unnamed_holds free g
    · rw [Bool.eq_false_iff]
      intro held
      exact other ((named.holds text).mp held).symm
  unfold diskfsFind
  congr 1
  ext1 j
  by_cases own : j = i
  · subst own
    rw [silent spared.old,silent spared.new]
  · have same := spared.others j own
    by_cases free : (d.entries j).name 0 = 0
    · rw [unnamed_holds free,unnamed_holds (by rwa [same])]
    · obtain ⟨_,⟨name,named⟩,_,_⟩ := tidy.file free
      have named' : Named (d'.entries j) name := by rwa [same]
      rw [Bool.eq_iff_iff,named.holds text,named'.holds text]

theorem Spared.file {d d' : DiskFs} {i : Nat} {f g : List Byte} (spared : Spared d d' i f) (tidy : Tidy d.entries)
    (text : 0 ∉ g) (other : g ≠ f) : diskFile d' g = diskFile d g := by
  have find := spared.find tidy text other
  unfold diskFile diskfsExists diskfsSize diskfsRead
  rw [find,spared.available.1,spared.available.2]
  cases found : diskfsFind d.entries g with
  | none => rfl
  | some j =>
    have named := (tidy.find text).mp found
    obtain ⟨_,file⟩ := tidy.file named.first
    have small := file.small
    have apart : j ≠ i := by
      rintro rfl
      rcases spared.old with free | also
      · exact named.first free
      · rw [← named.entryName,also.entryName] at other
        exact other rfl
    have data : (readData d'.disk (d.entries j).startLba (d.entries j).size
          (((d.entries j).size + ataSectorSize - 1) / ataSectorSize)).2 =
        (readData d.disk (d.entries j).startLba (d.entries j).size
          (((d.entries j).size + ataSectorSize - 1) / ataSectorSize)).2 := by
      refine readData_congr spared.ready.1 spared.ready.2 _ _ _ ?_
      intro s bound
      rw [file.own]
      apply spared.data
      · omega
      · unfold diskfsMaxFileSize at small
        unfold ataSectorSize at bound
        unfold diskfsSectorsPerFile
        omega
    simp only [spared.others j apart,Bool.not_true,Bool.false_eq_true,if_false,Nat.lt_irrefl,data]

/-- A mount of a disk on which one entry of a table in step was being rewritten. -/
theorem torn_mount {d : DiskFs} (synced : Synced d) (new : Nat → Entry) (m : Nat) {sectors : Nat → Sector} {i : Nat}
    {f : List Byte} (bound : i < diskfsMaxFiles) (same : ∀ j, j ≠ i → new j = d.entries j) (after : Encoded (new i))
    (super : superGood (sectors diskfsSuperLba))
    (directory : ∀ s, s < diskfsDirSectors → sectors (diskfsDirLba + s) =
      if s ∈ (entrySectors i).take m then directorySector new s else directorySector d.entries s)
    (data : ∀ a, diskfsDataLba ≤ a → a < diskfsDataLba + i * diskfsSectorsPerFile ∨
      diskfsDataLba + i * diskfsSectorsPerFile + diskfsSectorsPerFile ≤ a → sectors a = d.disk.sectors a)
    (before : (d.entries i).name 0 = 0 ∨ Named (d.entries i) f)
    (whole : (checkEntry i (new i)).name 0 = 0 ∨ Named (checkEntry i (new i)) f)
    (torn : ∀ b, 0 < b → b ≤ 32 → ∀ e, e = (⟨fun k => if k < b then (new i).name k else (d.entries i).name k,
      (d.entries i).size,(d.entries i).startLba⟩ : Entry) →
      (checkEntry i e).name 0 = 0 ∨ Named (checkEntry i e) f) :
    ∃ d', diskfsInit ⟨sectors,[]⟩ true = (d',true) ∧ Spared d d' i f := by
  refine ⟨_,@diskfsInit_ready ⟨sectors,[]⟩ rfl super,⟨synced.available,rfl⟩,⟨synced.ready,rfl⟩,?_,before,?_,data⟩
  · intro j other
    change mountedEntries sectors j = _
    by_cases inside : j < diskfsMaxFiles
    · rw [mountedEntries,torn_other same directory other inside (synced.tidy.encoded j)]
      exact synced.tidy.checked j
    · rw [mountedEntries_beyond sectors inside,synced.tidy.beyond inside]
  · change (mountedEntries sectors i).name 0 = 0 ∨ Named (mountedEntries sectors i) f
    rw [mountedEntries]
    rcases torn_entry bound directory (synced.tidy.encoded i) after with old | all | ⟨b,low,high,part⟩
    · rw [old,synced.tidy.checked]
      exact before
    · rw [all]
      exact whole
    · exact torn b low high _ part

theorem store_crash {d c : DiskFs} (synced : Synced d) {name : Text} {bytes : List Byte} {i : Nat}
    (given : admitted d name.chars bytes = some (c,i)) (k : Nat) :
    ∃ d', diskfsInit ⟨written d.disk.sectors ((storeWrites c i bytes).take k),[]⟩ true = (d',true) ∧
      Spared d d' i name.chars := by
  obtain ⟨_,valid,small,claimed⟩ := admitted_claimed given
  have claims := claimEntry_claims synced.tidy name.ends valid claimed
  have tidy' := claims.tidy synced.tidy name.ends small
  have count : c.fileCount ≤ diskfsMaxFiles := by
    rw [@Claims.count d c name.chars i bytes.length claims synced.count]
    exact liveCount_bound _
  have behind : diskfsDataLba ≤ (c.entries i).startLba := by
    rw [claims.own]
    exact Nat.le_add_right _ _
  have named : Named (sized c.entries i bytes.length i) name.chars :=
    ⟨claims.named.given,claims.named.text,claims.named.short,sized_name c.entries i bytes.length i ▸ claims.named.bytes⟩
  refine torn_mount synced (sized c.entries i bytes.length) (k - diskfsSectorsPerFile - 1) claims.bound ?_
    (tidy'.encoded i) ?_ ?_ ?_ ?_ ?_ ?_
  · intro j other
    rw [sized_other other,claims.others j other]
  · rw [stored_super behind]
    split
    · rw [synced.super,synced.count]
      exact superSector_good (liveCount_bound _)
    · exact superSector_good count
  · intro s low
    rw [stored_directory behind bytes k low,synced.imaged s low]
  · intro a high apart
    rw [stored_data claims.bound bytes k high,claims.own,dataWrites_other bytes _ apart]
  · rcases claims.before with ⟨_,found⟩ | ⟨blank,_,_⟩
    · exact .inr ((synced.tidy.find name.ends).mp found)
    · rw [blank]
      exact .inl rfl
  · rw [tidy'.checked]
    exact .inr named
  · rintro b _ _ e rfl
    rcases claims.before with ⟨rfl,found⟩ | ⟨blank,_,_⟩
    · have unchanged : (⟨fun k => if k < b then (sized c.entries i bytes.length i).name k else (c.entries i).name k,
          (c.entries i).size,(c.entries i).startLba⟩ : Entry) = c.entries i := by
        simp only [sized_name,ite_self]
      rw [unchanged,synced.tidy.checked]
      exact .inr claims.named
    · left
      apply checkEntry_dropped
      rintro ⟨_,_,own⟩
      rw [blank] at own
      change 0 = _ at own
      unfold diskfsDataLba at own
      omega

theorem drop_crash {d : DiskFs} (synced : Synced d) {name : Text} {i : Nat}
    (found : diskfsFind d.entries name.chars = some i) (k : Nat) :
    ∃ d', diskfsInit ⟨written d.disk.sectors ((dropWrites d i).take k),[]⟩ true = (d',true) ∧
      Spared d d' i name.chars := by
  have bound := (find_range.mp found).1
  have named := (synced.tidy.find name.ends).mp found
  have gone : (removed d i).entries i = blankEntry := Function.update_self _ _ _
  refine torn_mount synced (removed d i).entries (k - 1) bound ?_ ?_ ?_ ?_ ?_ (.inr named) ?_ ?_
  · intro j other
    exact Function.update_of_ne other _ _
  · rw [gone]
    exact blankEntry_encoded
  · rw [dropWrites,tableWrites_super]
    split
    · rw [synced.super,synced.count]
      exact superSector_good (liveCount_bound _)
    · rw [removed_count bound named.first synced.count]
      exact superSector_good (liveCount_bound _)
  · intro s low
    rw [dropWrites,tableWrites_directory,synced.imaged s low]
  · intro a high _
    rw [dropWrites,tableWrites_data bound high]
  · left
    rw [gone,checkEntry,if_neg (fun both => both.1 rfl)]
    rfl
  · rintro b low _ e rfl
    left
    apply checkEntry_dropped
    rintro ⟨first,_,_⟩
    rw [gone] at first
    dsimp only at first
    rw [if_pos low] at first
    exact first rfl

/-- Wherever in a write or a removal the power is lost, the disk can be mounted, and
every file but the one of the call has its name, its size and its contents. -/
theorem crash_contained (calls : List DiskCall) (call : DiskCall) (k : Nat) :
    let d := run diskStep freshFs calls
    ∃ d', diskfsInit (crashed d call k) true = (d',true) ∧
      ∀ g : Text, g.chars ≠ call.name.chars → diskFile d' g.chars = diskFile d g.chars := by
  intro d
  have synced : Synced d := run_synced calls
  have idle : ∃ d', diskfsInit ⟨d.disk.sectors,[]⟩ true = (d',true) ∧
      ∀ g : Text, g.chars ≠ call.name.chars → diskFile d' g.chars = diskFile d g.chars := by
    have mounted := synced.remount
    rw [show d.disk = ⟨d.disk.sectors,[]⟩ from synced.ready ▸ rfl] at mounted
    exact ⟨d,mounted,fun _ _ => rfl⟩
  have spared {i : Nat} {sectors : Nat → Sector}
      (mount : ∃ d', diskfsInit ⟨sectors,[]⟩ true = (d',true) ∧ Spared d d' i call.name.chars) :
      ∃ d', diskfsInit ⟨sectors,[]⟩ true = (d',true) ∧
        ∀ g : Text, g.chars ≠ call.name.chars → diskFile d' g.chars = diskFile d g.chars := by
    obtain ⟨d',mounted,differ⟩ := mount
    exact ⟨d',mounted,fun g other => differ.file synced.tidy g.ends other⟩
  cases call with
  | write name bytes =>
    simp only [crashed,transfers]
    cases given : admitted d name.chars bytes with
    | none => simpa only [List.take_nil,written_nil] using idle
    | some claim => exact spared (store_crash synced given k)
  | remove name =>
    simp only [crashed,transfers,synced.available,if_true]
    cases found : diskfsFind d.entries name.chars with
    | none => simpa only [List.take_nil,written_nil] using idle
    | some i => exact spared (drop_crash synced found k)

end LionOS.Files

import LionOS.Files.Contents
import LionOS.Library.Run

/-! What a table that was written without an error leaves on the disk: a mount of that
disk gives the same file system again. -/
namespace LionOS.Files
open LionOS.Physical LionOS.Library

inductive DiskCall
  | write (name : Text) (bytes : List Byte)
  | remove (name : Text)

def diskStep (d : DiskFs) : DiskCall → DiskFs
  | .write name bytes => (diskfsWrite d name.chars bytes).1
  | .remove name => (diskfsRemove d name.chars).1

/-- The image that the host's script creates: a superblock of no files and zeros. -/
def freshDisk : Disk := ⟨fun lba => if lba = diskfsSuperLba then superSector 0 else fun _ => 0,[]⟩

def freshFs : DiskFs := (diskfsInit freshDisk true).1

/-- The disk says what the table in memory says. -/
structure Synced (d : DiskFs) : Prop where
  available : d.available = true
  ready : d.disk.faults = []
  tidy : Tidy d.entries
  count : d.fileCount = liveCount d.entries
  super : d.disk.sectors diskfsSuperLba = superSector d.fileCount
  imaged : Imaged d.entries d.disk.sectors

theorem liveCount_bound (entries : Nat → Entry) : liveCount entries ≤ diskfsMaxFiles := by
  have bound := List.length_filter_le (fun i => (entries i).name 0 != 0) (List.range diskfsMaxFiles)
  rwa [List.length_range] at bound

theorem superSector_good {count : Nat} (few : count ≤ diskfsMaxFiles) : superGood (superSector count) := by
  have word : ∀ value offset, value < 2^32 → (∀ k, k < 4 → superSector count (offset + k) = byte32 value k) →
      word32 (superSector count) offset = value := fun value offset bound bytes => word32_byte32 bound _ _ bytes
  unfold diskfsMaxFiles at few
  refine ⟨?_,?_,?_⟩
  · rfl
  · refine word diskfsVersion 8 (by decide) ?_
    intro k low
    rw [superSector,if_neg (by omega),if_pos (by omega),Nat.add_sub_cancel_left]
  · rw [word count 12 (by omega)]
    · unfold diskfsMaxFiles
      omega
    · intro k low
      rw [superSector,if_neg (by omega),if_neg (by omega),if_pos (by omega),Nat.add_sub_cancel_left]

theorem mountedEntries_beyond (sectors : Nat → Sector) {i : Nat} (bound : ¬ i < diskfsMaxFiles) :
    mountedEntries sectors i = blankEntry := by
  have outside (k : Nat) : diskTable sectors (i * entrySize + k) = 0 := by
    rw [diskTable,if_neg]
    unfold diskfsMaxFiles at bound ⊢
    unfold entrySize
    omega
  have empty : rawEntry sectors i = blankEntry := by
    refine loadEntry_encoded blankEntry_encoded ?_
    intro k _
    rw [outside,entryByte_blank]
  rw [mountedEntries,empty,checkEntry,if_neg]
  exact fun both => both.1 rfl

theorem Tidy.checked {entries : Nat → Entry} (tidy : Tidy entries) (i : Nat) : checkEntry i (entries i) = entries i := by
  by_cases live : (entries i).name 0 = 0
  · rw [checkEntry,if_neg]
    exact fun both => both.1 live
  · exact checkEntry_kept (tidy.file live).2.kept

theorem Tidy.encoded {entries : Nat → Entry} (tidy : Tidy entries) (i : Nat) : Encoded (entries i) := by
  rcases tidy.slots i with blank | ⟨bound,file⟩
  · rw [blank]
    exact blankEntry_encoded
  · exact file.encoded bound

theorem Tidy.beyond {entries : Nat → Entry} (tidy : Tidy entries) {i : Nat} (bound : ¬ i < diskfsMaxFiles) :
    entries i = blankEntry := by
  rcases tidy.slots i with blank | ⟨inside,_⟩
  · exact blank
  · exact absurd inside bound

theorem mountedEntries_tidy {entries : Nat → Entry} {sectors : Nat → Sector} (tidy : Tidy entries)
    (imaged : Imaged entries sectors) : mountedEntries sectors = entries := by
  ext1 i
  by_cases bound : i < diskfsMaxFiles
  · rw [mountedEntries,rawEntry_imaged imaged bound (tidy.encoded i)]
    exact tidy.checked i
  · rw [mountedEntries_beyond sectors bound,tidy.beyond bound]

/-- A table that is in step with its disk comes back from a mount. -/
theorem Synced.remount {d : DiskFs} (synced : Synced d) : diskfsInit d.disk true = (d,true) := by
  obtain ⟨available,ready,tidy,count,super,imaged⟩ := synced
  have good : superGood (d.disk.sectors diskfsSuperLba) := by
    rw [super,count]
    exact superSector_good (liveCount_bound d.entries)
  rw [diskfsInit_ready ready good,mountedEntries_tidy tidy imaged,← count]
  cases d
  dsimp only at available
  rw [available]

/-- The entry that a write fills, in a tidy table. -/
structure Claims (d c : DiskFs) (name : List Byte) (i : Nat) : Prop where
  bound : i < diskfsMaxFiles
  disk : c.disk = d.disk
  available : c.available = d.available
  others : ∀ j, j ≠ i → c.entries j = d.entries j
  named : Named (c.entries i) name
  own : (c.entries i).startLba = diskfsDataLba + i * diskfsSectorsPerFile
  small : (c.entries i).size ≤ diskfsMaxFileSize
  before : c = d ∧ diskfsFind d.entries name = some i ∨
    d.entries i = blankEntry ∧ diskfsFind d.entries name = none ∧ c.fileCount = d.fileCount + 1

theorem claimEntry_claims {d c : DiskFs} {name : List Byte} {i : Nat} (tidy : Tidy d.entries) (text : 0 ∉ name)
    (valid : validName name = true) (claimed : claimEntry d name = some (c,i)) : Claims d c name i := by
  obtain ⟨bound,disk,available⟩ := claimEntry_bound claimed
  obtain ⟨nonempty,short⟩ := validName_given valid
  unfold claimEntry at claimed
  split at claimed
  next k found =>
    cases claimed
    have named := (tidy.find text).mp found
    obtain ⟨_,file⟩ := tidy.file named.first
    exact ⟨bound,disk,available,fun _ _ => rfl,named,file.own,file.small,.inl ⟨rfl,found⟩⟩
  next absent =>
    split at claimed
    · cases claimed
    next k free =>
      cases claimed
      obtain ⟨_,unnamed,_⟩ := find_range.mp free
      have blank := tidy.blank (beq_iff_eq.mp unnamed)
      have entry : (⟨copyName (d.entries i).name name,(d.entries i).size,
          diskfsDataLba + i * diskfsSectorsPerFile⟩ : Entry) =
          ⟨fun k => name.getD k 0,0,diskfsDataLba + i * diskfsSectorsPerFile⟩ := by
        rw [blank,blankEntry,copyName_blank short]
      refine ⟨bound,disk,available,?_,?_,?_,?_,.inr ⟨blank,absent,rfl⟩⟩
      · intro j other
        exact Function.update_of_ne other _ _
      · dsimp only
        rw [Function.update_self,entry]
        exact ⟨nonempty,text,short,rfl⟩
      · dsimp only
        rw [Function.update_self]
      · dsimp only
        rw [Function.update_self,entry]
        exact Nat.zero_le _

theorem sized_other {entries : Nat → Entry} {i size j : Nat} (other : j ≠ i) : sized entries i size j = entries j :=
  Function.update_of_ne other _ _

theorem sized_name (entries : Nat → Entry) (i size j : Nat) : (sized entries i size j).name = (entries j).name := by
  by_cases own : j = i
  · subst own
    rw [sized,Function.update_self]
  · rw [sized_other own]

theorem liveCount_congr {entries entries' : Nat → Entry} (names : ∀ j, (entries' j).name = (entries j).name) :
    liveCount entries' = liveCount entries := by
  simp only [liveCount,names]

section Updates
variable {d c : DiskFs} {name : List Byte} {i size : Nat}

theorem Claims.tidy (claims : Claims d c name i) (tidy : Tidy d.entries) (text : 0 ∉ name)
    (small : size ≤ diskfsMaxFileSize) : Tidy (sized c.entries i size) := by
  have file : FileEntry i (sized c.entries i size i) := by
    rw [sized,Function.update_self]
    exact ⟨⟨name,claims.named.given,claims.named.text,claims.named.short,claims.named.bytes⟩,small,claims.own⟩
  have alone {j : Nat} (named : Named (d.entries j) name) : j = i := by
    have found := (tidy.find text).mpr named
    rcases claims.before with ⟨_,own⟩ | ⟨_,absent,_⟩
    · rw [own] at found
      exact (Option.some.inj found).symm
    · rw [absent] at found
      cases found
  have renamed {j : Nat} {g : List Byte} (named : Named (sized c.entries i size j) g) :
      j = i ∧ g = name ∨ j ≠ i ∧ Named (d.entries j) g := by
    by_cases own : j = i
    · refine .inl ⟨own,?_⟩
      subst own
      have same : Named (c.entries j) g := ⟨named.given,named.text,named.short,sized_name c.entries j size j ▸ named.bytes⟩
      rw [← same.entryName,claims.named.entryName]
    · rw [sized_other own,claims.others j own] at named
      exact .inr ⟨own,named⟩
  refine ⟨?_,?_⟩
  · intro j
    by_cases own : j = i
    · subst own
      exact .inr ⟨claims.bound,file⟩
    · rw [sized_other own,claims.others j own]
      exact tidy.slots j
  · intro j k g first second
    rcases renamed first with ⟨rfl,rfl⟩ | ⟨_,old⟩
    · rcases renamed second with ⟨rfl,_⟩ | ⟨_,old⟩
      · rfl
      · exact (alone old).symm
    · rcases renamed second with ⟨rfl,rfl⟩ | ⟨_,old'⟩
      · exact alone old
      · exact tidy.distinct old old'

theorem Claims.count (claims : Claims d c name i) (count : d.fileCount = liveCount d.entries) :
    c.fileCount = liveCount (sized c.entries i size) := by
  rw [liveCount_congr (sized_name c.entries i size)]
  rcases claims.before with ⟨rfl,_⟩ | ⟨blank,_,counted⟩
  · exact count
  · rw [counted,count]
    symm
    refine count_range_gain claims.bound ?_ ?_ ?_
    · rw [blank]
      rfl
    · rw [bne_iff_ne]
      exact claims.named.first
    · intro j other
      rw [claims.others j other]

theorem removed_tidy (tidy : Tidy d.entries) : Tidy (removed d i).entries := by
  have gone : (removed d i).entries i = blankEntry := Function.update_self _ _ _
  have others {j : Nat} (other : j ≠ i) : (removed d i).entries j = d.entries j := Function.update_of_ne other _ _
  have before {j : Nat} {g : List Byte} (named : Named ((removed d i).entries j) g) : Named (d.entries j) g := by
    by_cases own : j = i
    · subst own
      rw [gone] at named
      exact absurd rfl named.first
    · rwa [others own] at named
  refine ⟨?_,?_⟩
  · intro j
    by_cases own : j = i
    · subst own
      exact .inl gone
    · rw [others own]
      exact tidy.slots j
  · intro j k g first second
    exact tidy.distinct (before first) (before second)

theorem removed_count (bound : i < diskfsMaxFiles) (live : (d.entries i).name 0 ≠ 0)
    (count : d.fileCount = liveCount d.entries) : (removed d i).fileCount = liveCount (removed d i).entries := by
  have gain : liveCount d.entries = liveCount (removed d i).entries + 1 := by
    refine count_range_gain bound ?_ (bne_iff_ne.mpr live) ?_
    · simp [removed]
    · intro j other
      simp [removed,other]
  change d.fileCount - 1 = _
  rw [count,gain,Nat.add_sub_cancel]

/-- Rewriting the sectors of one entry brings the directory on the disk up to date. -/
theorem Imaged.update {entries entries' : Nat → Entry} {sectors sectors' : Nat → Sector} (imaged : Imaged entries sectors)
    (same : ∀ j, j ≠ i → entries' j = entries j)
    (directory : ∀ s, s < diskfsDirSectors → sectors' (diskfsDirLba + s) =
      if s ∈ entrySectors i then directorySector entries' s else sectors (diskfsDirLba + s)) :
    Imaged entries' sectors' := by
  intro s bound
  rw [directory s bound]
  split
  · rfl
  next apart => rw [imaged s bound,directorySector_apart same apart]

end Updates

theorem Synced.write {d : DiskFs} (synced : Synced d) (name : Text) (bytes : List Byte) :
    Synced (diskStep d (.write name bytes)) := by
  rw [diskStep]
  cases given : admitted d name.chars bytes with
  | none =>
    rw [diskfsWrite_refused given]
    exact synced
  | some claim =>
    obtain ⟨c,i⟩ := claim
    obtain ⟨_,valid,small,claimed⟩ := admitted_claimed given
    have claims := claimEntry_claims synced.tidy name.ends valid claimed
    obtain ⟨disk,performed,result⟩ := diskfsWrite_transfers given
    have after := performs_reached d.disk (storeWrites c i bytes)
    have still := performs_ready synced.ready (storeWrites c i bytes)
    rw [← performed] at after still
    rw [synced.ready,reached_nil] at after result
    rw [storeWrites_length,if_neg (by omega)] at result
    rw [storeWrites_length] at after
    rw [result]
    have behind : diskfsDataLba ≤ (c.entries i).startLba := by
      rw [claims.own]
      exact Nat.le_add_right _ _
    refine ⟨claims.available.trans synced.available,still,claims.tidy synced.tidy name.ends small,
      claims.count synced.count,?_,?_⟩
    · change disk.sectors diskfsSuperLba = superSector c.fileCount
      rw [after.1,stored_super behind,if_neg (by omega)]
    · have same (j : Nat) (other : j ≠ i) : sized c.entries i bytes.length j = d.entries j := by
        rw [sized_other other,claims.others j other]
      refine synced.imaged.update same ?_
      intro s low
      change disk.sectors (diskfsDirLba + s) = _
      rw [after.1,stored_directory behind bytes _ low,List.take_of_length_le (by omega)]

theorem Synced.remove {d : DiskFs} (synced : Synced d) (name : Text) : Synced (diskStep d (.remove name)) := by
  rw [diskStep]
  cases found : diskfsFind d.entries name.chars with
  | none =>
    rw [diskfsRemove_refused (.inr found)]
    exact synced
  | some i =>
    obtain ⟨bound,held,_⟩ := find_range.mp found
    have named := (synced.tidy.find name.ends).mp found
    have after := performs_reached d.disk (dropWrites d i)
    have still := performs_ready synced.ready (dropWrites d i)
    rw [synced.ready,reached_nil] at after
    rw [diskfsRemove_transfers synced.available found]
    refine ⟨synced.available,still,removed_tidy synced.tidy,removed_count bound named.first synced.count,?_,?_⟩
    · dsimp only
      rw [after.1,dropWrites,tableWrites_super,if_neg (by simp [tableWrites])]
    · have same (j : Nat) (other : j ≠ i) : (removed d i).entries j = d.entries j := Function.update_of_ne other _ _
      refine synced.imaged.update same ?_
      intro s _
      dsimp only
      rw [after.1,dropWrites,tableWrites_directory,List.take_of_length_le (by simp [tableWrites])]

theorem blank_synced : Synced ⟨freshDisk,fun _ => blankEntry,0,true⟩ := by
  refine ⟨rfl,rfl,⟨fun _ => .inl rfl,?_⟩,rfl,rfl,?_⟩
  · intro i j name named
    exact absurd rfl named.first
  · intro s _
    have other : diskfsDirLba + s ≠ diskfsSuperLba := by
      unfold diskfsDirLba diskfsSuperLba
      omega
    change (if diskfsDirLba + s = diskfsSuperLba then superSector 0 else fun _ => 0) = _
    rw [if_neg other]
    ext1 k
    rw [directorySector]
    dsimp only
    rw [tableByte,entryByte_blank,ite_self]

theorem fresh_empty : freshFs = ⟨freshDisk,fun _ => blankEntry,0,true⟩ := congrArg Prod.fst blank_synced.remount

theorem fresh_synced : Synced freshFs := by
  rw [fresh_empty]
  exact blank_synced

theorem fresh_mounted : diskfsInit freshDisk true = (freshFs,true) := by
  have good : superGood (freshDisk.sectors diskfsSuperLba) := superSector_good (Nat.zero_le _)
  rw [freshFs,@diskfsInit_ready freshDisk rfl good]

theorem run_synced (calls : List DiskCall) : Synced (run diskStep freshFs calls) := by
  refine @run_invariant _ _ diskStep Synced ?_ _ calls fresh_synced
  intro d call held
  cases call with
  | write name bytes => exact held.write name bytes
  | remove name => exact held.remove name

/-- After any writes and removals without an error, a mount of the disk gives the file
system as it is in memory: the same names, sizes, contents and count. Its names are
distinct and end inside their entries, and it counts its named entries. -/
theorem remount_same (calls : List DiskCall) :
    diskfsInit (run diskStep freshFs calls).disk true = (run diskStep freshFs calls,true) ∧
      Orderly (run diskStep freshFs calls) := by
  have synced := run_synced calls
  exact ⟨synced.remount,synced.tidy.orderly synced.count⟩

end LionOS.Files

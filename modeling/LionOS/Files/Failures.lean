import LionOS.Files.Persistence

/-! What a write or a removal of LionFS leaves behind when one of its transfers fails. -/
namespace LionOS.Files
open LionOS.Physical LionOS.Library

def DiskFs.calm (d : DiskFs) : DiskFs := {d with disk := {d.disk with faults := []}}

def diskResult (d : DiskFs) : DiskCall → Bool
  | .write name bytes => (diskfsWrite d name.chars bytes).2
  | .remove name => (diskfsRemove d name.chars).2

/-- Every file is as it was, and so is the number of files. -/
def Unchanged (d d' : DiskFs) : Prop :=
  (∀ g : Text, diskFile d'.calm g.chars = diskFile d.calm g.chars) ∧ diskfsCount d' = diskfsCount d

def Atomic (d : DiskFs) (call : DiskCall) : Prop := diskResult d call = false → Unchanged d (diskStep d call)

/-- The first `k` transfers of a write to entry `i` bring to every place that belongs to
the contents of a file the byte that is there already. -/
def Unseen (d : DiskFs) (i : Nat) (bytes : List Byte) (k : Nat) : Prop :=
  ∀ (g : Text) j, diskfsFind d.entries g.chars = some j → ∀ b s, b < (d.entries j).size → s < min k diskfsSectorsPerFile →
    (d.entries j).startLba + b / ataSectorSize = (d.entries i).startLba + s →
    bytes.getD (ataSectorSize * s + b % ataSectorSize) 0 =
      d.disk.sectors ((d.entries i).startLba + s) (b % ataSectorSize)

/-- The call is refused before its first transfer, no transfer of it fails, or it writes
an existing file, brings no new byte to the contents of a file and, once all of its data
sectors are written, has the size that the file had. -/
def Harmless (d : DiskFs) : DiskCall → Prop
  | .write name bytes => ∀ c i, admitted d name.chars bytes = some (c,i) →
    let k := reached d.disk.faults (storeWrites c i bytes).length
    k = (storeWrites c i bytes).length ∨
      diskfsFind d.entries name.chars = some i ∧ Unseen d i bytes k ∧
        (diskfsSectorsPerFile ≤ k → bytes.length = (d.entries i).size)
  | .remove name => d.available = true → ∀ i, diskfsFind d.entries name.chars = some i →
    reached d.disk.faults (dropWrites d i).length = (dropWrites d i).length

/-- Whatever fails: used entries are in their own extents and counted. -/
structure Counted (d : DiskFs) : Prop where
  mounted : Mounted d
  count : d.available = true → d.fileCount = liveCount d.entries

theorem readData_bytes {disk : Disk} (ready : disk.faults = []) (lba remaining count : Nat)
    (room : remaining ≤ ataSectorSize * count) : (readData disk lba remaining count).2 =
      some ((List.range remaining).map fun b => disk.sectors (lba + b / ataSectorSize) (b % ataSectorSize)) := by
  induction count generalizing lba remaining with
  | zero =>
    obtain rfl : remaining = 0 := by omega
    rfl
  | succ count ih =>
    have positive : 0 < ataSectorSize := by decide
    rw [Nat.mul_succ] at room
    have rest := ih (lba + 1) (remaining - min remaining ataSectorSize) (by omega)
    simp only [readData,ataReadSector_ok ready]
    rcases taken : readData disk (lba + 1) (remaining - min remaining ataSectorSize) count with ⟨disk',bytes⟩
    rw [taken] at rest
    dsimp only at rest
    subst rest
    dsimp only
    have whole : remaining = min remaining ataSectorSize + (remaining - min remaining ataSectorSize) := by omega
    conv_rhs => rw [whole,List.range_add,List.map_append,List.map_map]
    refine congrArg some (congrArg₂ (· ++ ·) ?_ ?_)
    · apply List.map_congr_left
      intro b member
      have inside : b < ataSectorSize := by
        rw [List.mem_range] at member
        omega
      rw [Nat.div_eq_of_lt inside,Nat.mod_eq_of_lt inside,Nat.add_zero]
    · apply List.map_congr_left
      intro b member
      rw [List.mem_range] at member
      have full : min remaining ataSectorSize = ataSectorSize := by omega
      rw [Function.comp_apply,full,Nat.add_div_left _ positive,Nat.add_mod_left,Nat.add_assoc,Nat.add_comm 1]

theorem diskFile_calm (d : DiskFs) (g : List Byte) : diskFile d.calm g =
    if d.available then (diskfsFind d.entries g).map fun j => ((d.entries j).size,some ((List.range (d.entries j).size).map
      fun b => d.disk.sectors ((d.entries j).startLba + b / ataSectorSize) (b % ataSectorSize))) else none := by
  unfold diskFile diskfsExists diskfsSize diskfsRead
  change (if (d.available && (diskfsFind d.entries g).isSome) = true then _ else none) = _
  cases available : d.available with
  | false => rfl
  | true =>
    have same : d.calm.available = true := available
    have table : d.calm.entries = d.entries := rfl
    cases found : diskfsFind d.entries g with
    | none => rfl
    | some j =>
      have bytes := @readData_bytes d.calm.disk rfl (d.entries j).startLba (d.entries j).size
        (((d.entries j).size + ataSectorSize - 1) / ataSectorSize) (by unfold ataSectorSize; omega)
      simp only [same,table,found,Bool.not_true,Bool.false_eq_true,if_false,Nat.lt_irrefl,bytes]
      rfl

theorem diskfsInit_refused {disk : Disk} {present : Bool} {d : DiskFs} (init : diskfsInit disk present = (d,false)) :
    d.available = false := by
  unfold diskfsInit at init
  split at init
  · cases init
    rfl
  split at init
  · cases init
    rfl
  split at init
  · cases init
    rfl
  split at init
  · cases init
    rfl
  dsimp only at init
  split at init
  · cases init
    rfl
  · cases init

theorem holds_live {entries : Nat → Entry} {name : List Byte} {i : Nat} (held : holds entries name i = true) :
    (entries i).name 0 ≠ 0 := by
  rw [holds,Bool.and_eq_true,bne_iff_ne] at held
  exact held.1

theorem diskfsInit_counted (disk : Disk) (present : Bool) : Counted (diskfsInit disk present).1 := by
  rcases init : diskfsInit disk present with ⟨d,ok⟩
  refine ⟨diskfsInit_mounted init,?_⟩
  intro available
  cases ok with
  | true =>
    obtain ⟨_,mounts⟩ := diskfsInit_mounts init
    rw [mounts.fileCount,mounts.entries]
  | false =>
    have refused := diskfsInit_refused init
    rw [available] at refused
    cases refused

theorem claimEntry_counts {d c : DiskFs} {name : List Byte} {i : Nat} (text : 0 ∉ name) (given : name ≠ [])
    (claimed : claimEntry d name = some (c,i)) :
    c = d ∧ diskfsFind d.entries name = some i ∨ diskfsFind d.entries name = none ∧
      c.fileCount = d.fileCount + 1 ∧ liveCount c.entries = liveCount d.entries + 1 := by
  unfold claimEntry at claimed
  split at claimed
  next k found =>
    cases claimed
    exact .inl ⟨rfl,found⟩
  next absent =>
    split at claimed
    · cases claimed
    next k free =>
      cases claimed
      obtain ⟨bound,unnamed,_⟩ := find_range.mp free
      refine .inr ⟨absent,rfl,count_range_gain bound ?_ ?_ ?_⟩
      · rw [bne,unnamed]
        rfl
      · dsimp only
        rw [Function.update_self,bne_iff_ne]
        exact copyName_named _ given text
      · intro j other
        dsimp only
        rw [Function.update_of_ne other]

theorem Counted.write {d : DiskFs} (counted : Counted d) (name : Text) (bytes : List Byte) :
    Counted (diskStep d (.write name bytes)) := by
  refine ⟨diskfsWrite_mounted counted.mounted rfl,?_⟩
  rw [diskStep]
  cases given : admitted d name.chars bytes with
  | none =>
    rw [diskfsWrite_refused given]
    exact counted.count
  | some claim =>
    obtain ⟨c,i⟩ := claim
    obtain ⟨available,valid,_,claimed⟩ := admitted_claimed given
    have before := counted.count available
    have claims : c.fileCount = liveCount c.entries := by
      rcases claimEntry_counts name.ends (validName_given valid).1 claimed with ⟨rfl,_⟩ | ⟨_,counts,lives⟩
      · exact before
      · rw [counts,lives,before]
    obtain ⟨disk,_,result⟩ := diskfsWrite_transfers given
    rw [result]
    intro _
    dsimp only
    split
    · exact claims
    · exact claims.trans (liveCount_congr (sized_name c.entries i bytes.length)).symm

theorem Counted.remove {d : DiskFs} (counted : Counted d) (name : Text) : Counted (diskStep d (.remove name)) := by
  refine ⟨diskfsRemove_mounted counted.mounted rfl,?_⟩
  rw [diskStep]
  intro still
  cases available : d.available with
  | false =>
    rw [diskfsRemove_refused (.inl available),available] at still
    cases still
  | true =>
    cases found : diskfsFind d.entries name.chars with
    | none =>
      rw [diskfsRemove_refused (.inr found)]
      exact counted.count available
    | some i =>
      obtain ⟨bound,held,_⟩ := find_range.mp found
      rw [diskfsRemove_transfers available found]
      exact removed_count bound (holds_live held) (counted.count available)

theorem run_counted (disk : Disk) (present : Bool) (calls : List DiskCall) :
    Counted (run diskStep (diskfsInit disk present).1 calls) := by
  refine @run_invariant _ _ diskStep Counted ?_ _ calls (diskfsInit_counted disk present)
  intro d call counted
  cases call with
  | write name bytes => exact counted.write name bytes
  | remove name => exact counted.remove name

/-- Where the table is as it was, only the bytes of the files can differ. -/
theorem unchanged_bytes {d : DiskFs} (available : d.available = true) (disk : Disk) :
    Unchanged d {d with disk} ↔ ∀ (g : Text) j, diskfsFind d.entries g.chars = some j → ∀ b, b < (d.entries j).size →
      disk.sectors ((d.entries j).startLba + b / ataSectorSize) (b % ataSectorSize) =
        d.disk.sectors ((d.entries j).startLba + b / ataSectorSize) (b % ataSectorSize) := by
  have counts : diskfsCount {d with disk} = diskfsCount d := rfl
  rw [Unchanged,and_iff_left counts]
  refine ⟨?_,?_⟩
  · intro same g j found b inside
    have bytes := same g
    rw [diskFile_calm,diskFile_calm] at bytes
    simp only [available,found,if_true,Option.map_some,Option.some.injEq,Prod.mk.injEq,true_and,List.map_inj_left,
      List.mem_range] at bytes
    exact bytes b inside
  · intro same g
    rw [diskFile_calm,diskFile_calm,if_pos available,if_pos available]
    dsimp only
    cases found : diskfsFind d.entries g.chars with
    | none => rfl
    | some j =>
      simp only [Option.map_some,Option.some.injEq,Prod.mk.injEq,true_and,List.map_inj_left,
        List.mem_range]
      exact same g j found

/-- The contents of the files after the first `k` transfers to entry `i` are the old ones
if these bring no new byte. -/
theorem unseen_bytes {d : DiskFs} {i k : Nat} {bytes : List Byte} (bound : i < diskfsMaxFiles)
    (behind : ∀ j, j < diskfsMaxFiles → (d.entries j).name 0 ≠ 0 → diskfsDataLba ≤ (d.entries j).startLba) :
    (∀ (g : Text) j, diskfsFind d.entries g.chars = some j → ∀ b, b < (d.entries j).size →
      written d.disk.sectors ((storeWrites d i bytes).take k) ((d.entries j).startLba + b / ataSectorSize) (b % ataSectorSize) =
        d.disk.sectors ((d.entries j).startLba + b / ataSectorSize) (b % ataSectorSize)) ↔ Unseen d i bytes k := by
  have positive : 0 < ataSectorSize := by decide
  have byte (s p : Nat) (low : p < ataSectorSize) :
      sectorOf ((bytes.drop (ataSectorSize * s)).take ataSectorSize) p = bytes.getD (ataSectorSize * s + p) 0 := by
    rw [sectorOf,List.getD_eq_getElem?_getD,List.getD_eq_getElem?_getD,List.getElem?_take_of_lt low,List.getElem?_drop]
  refine ⟨?_,?_⟩
  · intro same g j found b s inside early place
    obtain ⟨bound',held,_⟩ := find_range.mp found
    have high := behind j bound' (holds_live held)
    have kept := same g j found b inside
    rw [stored_data bound bytes k (Nat.le_trans high (Nat.le_add_right _ _)),place,dataWrites_sector,if_pos early,
      byte s _ (Nat.mod_lt _ positive)] at kept
    exact kept
  · intro unseen g j found b inside
    obtain ⟨bound',held,_⟩ := find_range.mp found
    have high := behind j bound' (holds_live held)
    rw [stored_data bound bytes k (Nat.le_trans high (Nat.le_add_right _ _))]
    by_cases own : (d.entries i).startLba ≤ (d.entries j).startLba + b / ataSectorSize
    · obtain ⟨s,place⟩ := Nat.exists_eq_add_of_le own
      rw [place,dataWrites_sector]
      split
      next early =>
        rw [byte s _ (Nat.mod_lt _ positive)]
        exact unseen g j found b s inside early place
      · rfl
    · rw [dataWrites_other bytes diskfsSectorsPerFile (.inl (Nat.not_le.mp own))]

theorem counted_unchanged {d d' : DiskFs} (unchanged : Unchanged d d') (available : d'.available = d.available)
    (mounted : d.available = true) : d'.fileCount = d.fileCount := by
  have counts := unchanged.2
  rw [diskfsCount,diskfsCount,available,if_pos mounted,if_pos mounted] at counts
  exact counts

theorem sized_same (entries : Nat → Entry) (i : Nat) : sized entries i (entries i).size = entries :=
  Function.update_eq_self i entries

theorem resized_changed {d d' : DiskFs} {name : Text} {i : Nat} (short : name.chars.length ≤ 63)
    (mounted : d.available = true) (found : diskfsFind d.entries name.chars = some i) {size : Nat}
    (table : d'.entries = sized d.entries i size) (available : d'.available = d.available)
    (other : size ≠ (d.entries i).size) : ¬ Unchanged d d' := by
  intro unchanged
  have same := unchanged.1 name
  have still : diskfsFind d'.entries name.chars = some i := by
    rw [table,diskfsFind_congr short (sized_name d.entries i size),found]
  have entry : (d'.entries i).size = size := by rw [table,sized,Function.update_self]
  rw [diskFile_calm,diskFile_calm,available,if_pos mounted,if_pos mounted,found,still] at same
  simp only [Option.map_some,Option.some.injEq,Prod.mk.injEq] at same
  exact other (entry.symm.trans same.1)

theorem Counted.behind {d : DiskFs} (counted : Counted d) (available : d.available = true) {j : Nat}
    (bound : j < diskfsMaxFiles) (live : (d.entries j).name 0 ≠ 0) : diskfsDataLba ≤ (d.entries j).startLba := by
  rw [counted.mounted available j bound live]
  exact Nat.le_add_right _ _

theorem cut_write {d c : DiskFs} {name : Text} {bytes : List Byte} {i k : Nat} {disk : Disk} (counted : Counted d)
    (given : admitted d name.chars bytes = some (c,i))
    (made : disk.sectors = written d.disk.sectors ((storeWrites c i bytes).take k)) :
    Unchanged d (if k < diskfsSectorsPerFile then {c with disk}
      else {c with disk,entries := sized c.entries i bytes.length}) ↔
      diskfsFind d.entries name.chars = some i ∧ Unseen d i bytes k ∧
        (diskfsSectorsPerFile ≤ k → bytes.length = (d.entries i).size) := by
  obtain ⟨available,valid,_,claimed⟩ := admitted_claimed given
  obtain ⟨bound,_,available_same⟩ := claimEntry_bound claimed
  obtain ⟨nonempty,short⟩ := validName_given valid
  have behind (j : Nat) := @Counted.behind d counted available j
  rcases claimEntry_counts name.ends nonempty claimed with ⟨rfl,found⟩ | ⟨absent,counts,_⟩
  · rw [and_iff_right found]
    by_cases early : k < diskfsSectorsPerFile
    · rw [if_pos early,unchanged_bytes available disk]
      rw [made,unseen_bytes bound behind,and_iff_left]
      omega
    · rw [if_neg early]
      by_cases same : bytes.length = (c.entries i).size
      · have table : sized c.entries i bytes.length = c.entries := by rw [same,sized_same]
        rw [table,unchanged_bytes available disk]
        rw [made,unseen_bytes bound behind,and_iff_left (fun _ => same)]
      · refine ⟨?_,?_⟩
        · intro unchanged
          exact absurd unchanged (resized_changed short available found rfl rfl same)
        · rintro ⟨_,size⟩
          exact absurd (size (Nat.not_lt.mp early)) same
  · rw [absent]
    refine ⟨?_,?_⟩
    rotate_left
    · rintro ⟨⟨⟩,_⟩
    intro unchanged
    have differs : c.fileCount = d.fileCount := by
      split at unchanged
      · have same := counted_unchanged unchanged available_same available
        exact same
      · have same := counted_unchanged unchanged available_same available
        exact same
    omega

theorem write_atomic {d : DiskFs} (counted : Counted d) (name : Text) (bytes : List Byte) :
    Atomic d (.write name bytes) ↔ Harmless d (.write name bytes) := by
  rw [Atomic,Harmless,diskResult,diskStep]
  cases given : admitted d name.chars bytes with
  | none =>
    rw [diskfsWrite_refused given]
    refine ⟨?_,fun _ _ => ⟨fun _ => rfl,rfl⟩⟩
    intro _ c i claim
    cases claim
  | some claim =>
    obtain ⟨c,i⟩ := claim
    obtain ⟨disk,performed,result⟩ := diskfsWrite_transfers given
    have after := performs_reached d.disk (storeWrites c i bytes)
    rw [← performed] at after
    have cut := cut_write counted given after.1
    rw [result]
    dsimp only
    refine ⟨?_,?_⟩
    · rintro atomic c' i' ⟨⟩
      by_cases complete : reached d.disk.faults (storeWrites c i bytes).length = (storeWrites c i bytes).length
      · exact .inl complete
      · exact .inr (cut.mp (atomic (decide_eq_false complete)))
    · intro harmless failed
      rcases harmless c i rfl with complete | kept
      · exact absurd complete (of_decide_eq_false failed)
      · exact cut.mpr kept

theorem remove_atomic {d : DiskFs} (counted : Counted d) (name : Text) :
    Atomic d (.remove name) ↔ Harmless d (.remove name) := by
  rw [Atomic,Harmless,diskResult,diskStep]
  cases available : d.available with
  | false =>
    rw [diskfsRemove_refused (.inl available)]
    exact ⟨fun _ mounted => Bool.noConfusion mounted,fun _ _ => ⟨fun _ => rfl,rfl⟩⟩
  | true =>
    cases found : diskfsFind d.entries name.chars with
    | none =>
      rw [diskfsRemove_refused (.inr found)]
      refine ⟨?_,fun _ _ => ⟨fun _ => rfl,rfl⟩⟩
      intro _ _ i claim
      cases claim
    | some i =>
      obtain ⟨bound,held,_⟩ := find_range.mp found
      rw [diskfsRemove_transfers available found]
      refine ⟨?_,?_⟩
      · rintro atomic _ j ⟨⟩
        by_contra cut
        -- the count has changed before the first transfer
        have counts := counted_unchanged (atomic (decide_eq_false cut)) rfl available
        have before := counted.count available
        have lives := removed_count bound (holds_live held) before
        have fewer : (removed d i).fileCount = d.fileCount := counts
        have less : (removed d i).fileCount = d.fileCount - 1 := rfl
        have live : 0 < liveCount d.entries := by
          rw [liveCount,List.length_pos_iff_exists_mem]
          exact ⟨i,List.mem_filter.mpr ⟨List.mem_range.mpr bound,bne_iff_ne.mpr (holds_live held)⟩⟩
        omega
      · intro harmless failed
        exact absurd (harmless rfl i rfl) (of_decide_eq_false failed)

def nameA : Text := ⟨[97],by decide⟩

def failingDisk : Disk := ⟨freshDisk.sectors,List.replicate 6 false ++ [true]⟩

end LionOS.Files

import LionOS.Files.Persistence

/-! What a mount that succeeds makes of arbitrary directory bytes. -/
namespace LionOS.Files
open LionOS.Physical LionOS.Library

/-- Comparisons with a name and its use as a string read no byte behind the 64 of the
name. -/
structure StaysInside (d : DiskFs) : Prop where
  compared : ∀ i, i < diskfsMaxFiles → (d.entries i).name 0 ≠ 0 → ∀ g, 0 ∉ g →
    streq (nameAt d.entries i) g = streq (d.entries i).name g
  shown : ∀ i, i < diskfsMaxFiles → (d.entries i).name 0 ≠ 0 →
    cstring ((List.range ((diskfsMaxFiles - i) * entrySize)).map (nameAt d.entries i)) = entryName (d.entries i)

theorem terminated_inside {d : DiskFs} (terminated : ∀ i, i < diskfsMaxFiles → (d.entries i).name 0 ≠ 0 →
    ∃ k, k < diskfsNameMax ∧ (d.entries i).name k = 0) : StaysInside d := by
  unfold diskfsNameMax at terminated
  refine ⟨?_,?_⟩
  · intro i bound live g text
    obtain ⟨k,inside,zero⟩ := terminated i bound live
    by_cases short : g.length ≤ 63
    · apply streq_congr
      intro j within
      exact nameAt_inside d.entries i (by omega)
    · have differs (a : Nat → Byte) (ends : a k = 0) : streq a g = false := by
        rw [Bool.eq_false_iff]
        intro equal
        have same := (streq_iff.mp equal).1 k (by omega)
        rw [ends] at same
        have length := (getD_nonzero text).mp same.symm
        omega
      rw [differs _ zero,differs _ ((nameAt_inside d.entries i inside).trans zero)]
  · intro i bound live
    obtain ⟨k,inside,zero⟩ := terminated i bound live
    obtain ⟨m,split⟩ : ∃ m, (diskfsMaxFiles - i) * entrySize = diskfsNameMax + m := by
      refine ⟨(diskfsMaxFiles - i) * entrySize - diskfsNameMax,?_⟩
      unfold diskfsMaxFiles at bound ⊢
      unfold entrySize diskfsNameMax
      omega
    have first : (List.range diskfsNameMax).map (nameAt d.entries i) = (List.range diskfsNameMax).map (d.entries i).name := by
      apply List.map_congr_left
      intro j member
      exact nameAt_inside d.entries i (List.mem_range.mp member)
    rw [split,List.range_add,List.map_append,first,cstring,entryName,cstring,List.takeWhile_append,if_neg]
    intro whole
    have stays : (List.range diskfsNameMax).map (d.entries i).name =
        ((List.range diskfsNameMax).map (d.entries i).name).takeWhile (· ≠ 0) :=
      ((List.takeWhile_prefix _).eq_of_length whole).symm
    have member : (0 : Byte) ∈ (List.range diskfsNameMax).map (d.entries i).name :=
      List.mem_map.mpr ⟨k,List.mem_range.mpr inside,zero⟩
    rw [stays] at member
    have nonzero := List.mem_takeWhile_imp member
    simp at nonzero

/-- The directory bytes name no two files alike, and every name ends in its field. An
entry that the mount drops does not count. -/
structure CleanNames (sectors : Nat → Sector) : Prop where
  terminated : ∀ i, i < diskfsMaxFiles → kept i (rawEntry sectors i) →
    ∃ k, k < diskfsNameMax ∧ (rawEntry sectors i).name k = 0
  distinct : ∀ i j, i < diskfsMaxFiles → j < diskfsMaxFiles → i ≠ j → kept i (rawEntry sectors i) →
    kept j (rawEntry sectors j) → entryName (rawEntry sectors i) ≠ entryName (rawEntry sectors j)

/-- A mount checks the sizes, the extents and the count of what it keeps, but not the
names. -/
theorem mount_orderly (disk : Disk) (present : Bool) (d : DiskFs) (mounted : diskfsInit disk present = (d,true)) :
    Orderly d ∧ StaysInside d ↔ CleanNames disk.sectors := by
  obtain ⟨_,_,entries,count,_⟩ := diskfsInit_mounts mounted
  have live {i : Nat} : (d.entries i).name 0 ≠ 0 ↔ kept i (rawEntry disk.sectors i) := by
    rw [entries]
    exact checkEntry_named
  have same {i : Nat} (good : kept i (rawEntry disk.sectors i)) : d.entries i = rawEntry disk.sectors i := by
    rw [entries]
    exact checkEntry_kept good
  refine ⟨?_,?_⟩
  · rintro ⟨⟨terminated,distinct,_,_,_⟩,_⟩
    refine ⟨?_,?_⟩
    · intro i bound good
      rw [← same good]
      exact terminated i bound (live.mpr good)
    · intro i j bound bound' other good good'
      rw [← same good,← same good']
      exact distinct i j bound bound' other (live.mpr good) (live.mpr good')
  · rintro ⟨terminated,distinct⟩
    have ends (i : Nat) (bound : i < diskfsMaxFiles) (named : (d.entries i).name 0 ≠ 0) :
        ∃ k, k < diskfsNameMax ∧ (d.entries i).name k = 0 := by
      rw [same (live.mp named)]
      exact terminated i bound (live.mp named)
    refine ⟨⟨ends,?_,?_,?_,?_⟩,terminated_inside ends⟩
    · intro i j bound bound' other named named'
      rw [same (live.mp named),same (live.mp named')]
      exact distinct i j bound bound' other (live.mp named) (live.mp named')
    · intro i _ named
      rw [same (live.mp named)]
      exact (live.mp named).2.1
    · intro i _ named
      rw [same (live.mp named)]
      exact (live.mp named).2.2
    · rw [count,entries]

theorem mount_orderly_fresh : (Orderly freshFs ∧ StaysInside freshFs ↔ CleanNames freshDisk.sectors) ∧
    Orderly freshFs :=
  ⟨mount_orderly freshDisk true freshFs fresh_mounted,fresh_synced.tidy.orderly fresh_synced.count⟩

/-- One empty file whose name has no end. -/
def endlessName : Nat → Entry := fun i => if i = 0 then ⟨fun k => if k < 64 then 97 else 0,0,diskfsDataLba⟩ else blankEntry

def endlessDisk : Disk := ⟨fun lba => if lba = 0 then superSector 1 else directorySector endlessName (lba - 1),[]⟩

theorem endless_name_mounted : ∃ d, diskfsInit endlessDisk true = (d,true) ∧ ¬ Orderly d := by
  have good : superGood (endlessDisk.sectors diskfsSuperLba) := superSector_good (by decide)
  have imaged : Imaged endlessName endlessDisk.sectors := by
    intro s _
    have other : diskfsDirLba + s ≠ 0 := by
      unfold diskfsDirLba
      omega
    simp only [endlessDisk,if_neg other]
    rw [diskfsDirLba,Nat.add_sub_cancel_left]
  have encoded : Encoded (endlessName 0) := by
    refine ⟨?_,Nat.two_pow_pos 32,by decide⟩
    intro k outside
    simp only [endlessName,if_true]
    rw [if_neg (by omega)]
  have entry : mountedEntries endlessDisk.sectors 0 = endlessName 0 := by
    rw [mountedEntries,rawEntry_imaged imaged (by decide) encoded]
    exact checkEntry_kept ⟨by decide,by decide,rfl⟩
  refine ⟨_,@diskfsInit_ready endlessDisk rfl good,?_⟩
  intro orderly
  obtain ⟨k,inside,zero⟩ := orderly.terminated 0 (by decide) (by
    dsimp only
    rw [entry]
    decide)
  dsimp only at zero
  rw [entry] at zero
  unfold diskfsNameMax at inside
  simp only [endlessName,if_true,if_pos inside] at zero
  exact absurd zero (by decide)

end LionOS.Files

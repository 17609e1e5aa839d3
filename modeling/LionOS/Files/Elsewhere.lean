import LionOS.Files.Failures
import LionOS.Files.Reboot

/-! What a call on one file leaves of the others, on a disk whose transfers do not fail. The
table may be that of any disk that was mounted. -/
namespace LionOS.Files
open LionOS.Memory LionOS.Physical LionOS.Processes LionOS.Library

/-- A name of a path. -/
structure PathName (name : List Byte) : Prop where
  clean : CleanName name
  given : name ≠ []

theorem pathName_normal {src name : List Byte} (normal : pathNormalize src = some name) : PathName name :=
  ⟨(pathNormalize_clean normal).1,(pathNormalize_clean normal).2⟩

section Disk
variable {d d' : DiskFs} {name g bytes : List Byte} {i : Nat}

/-- What a read with room for every file gives. -/
def diskContent (d : DiskFs) (g : List Byte) : Option (List Byte) := (diskfsRead d g diskfsMaxFileSize).2

/-- The file of another name is left alone: its entry and its extent. -/
structure Elsewhere (d d' : DiskFs) (g : List Byte) : Prop where
  ready : d'.disk.faults = []
  available : d'.available = d.available
  find : diskfsFind d'.entries g = diskfsFind d.entries g
  entry : ∀ j, diskfsFind d.entries g = some j → d'.entries j = d.entries j
  data : ∀ j s, diskfsFind d.entries g = some j → s < diskfsSectorsPerFile →
    d'.disk.sectors (diskfsDataLba + j * diskfsSectorsPerFile + s) =
      d.disk.sectors (diskfsDataLba + j * diskfsSectorsPerFile + s)

theorem Elsewhere.refl (ready : d.disk.faults = []) : Elsewhere d d g :=
  ⟨ready,rfl,rfl,fun _ _ => rfl,fun _ _ _ _ => rfl⟩

/-- An entry has one name. -/
theorem holds_unique {entries : Nat → Entry} (first : PathName name) (second : PathName g)
    (held : holds entries name i = true) (held' : holds entries g i = true) : name = g := by
  rw [holds_eq entries first.clean.short,Bool.and_eq_true,streq_iff] at held
  rw [holds_eq entries second.clean.short,Bool.and_eq_true,streq_iff] at held'
  obtain ⟨_,chars,ends⟩ := held
  obtain ⟨_,chars',ends'⟩ := held'
  have length : name.length = g.length := by
    rcases Nat.lt_trichotomy name.length g.length with less | same | more
    · rw [chars' _ less] at ends
      exact absurd ((getD_nonzero second.clean.text).mp ends) (Nat.not_le.mpr less)
    · exact same
    · rw [chars _ more] at ends'
      exact absurd ((getD_nonzero first.clean.text).mp ends') (Nat.not_le.mpr more)
  apply List.ext_getElem length
  intro k inside inside'
  have same := (chars k inside).symm.trans (chars' k inside')
  rw [List.getD_eq_getElem _ _ inside,List.getD_eq_getElem _ _ inside'] at same
  exact same

/-- The content of a file that is left alone. -/
theorem Elsewhere.content (elsewhere : Elsewhere d d' g) (mounted : Mounted d) (ready : d.disk.faults = [])
    (named : PathName g) : diskContent d' g = diskContent d g := by
  unfold diskContent diskfsRead
  rw [elsewhere.available,elsewhere.find]
  cases available : d.available with
  | false => rfl
  | true =>
    cases found : diskfsFind d.entries g with
    | none => rfl
    | some j =>
      obtain ⟨bound,held,_⟩ := find_range.mp found
      rw [holds_eq d.entries named.clean.short,Bool.and_eq_true,bne_iff_ne] at held
      have own := mounted available j bound held.1
      simp only [Bool.not_true,Bool.false_eq_true,if_false]
      rw [elsewhere.entry j found]
      split
      next => rfl
      next small =>
        rw [own]
        refine readData_congr ready elsewhere.ready _ _ _ ?_
        intro s inside
        apply elsewhere.data j s found
        unfold diskfsMaxFileSize at small
        unfold ataSectorSize at inside
        unfold diskfsSectorsPerFile
        omega

/-- The entry that a write takes does not hold another name, before or after. -/
theorem claimEntry_other {c : DiskFs} (first : PathName name) (second : PathName g) (other : g ≠ name)
    (mounted : Mounted d) (available : d.available = true) (claimed : claimEntry d name = some (c,i)) :
    holds d.entries g i = false ∧ holds c.entries g i = false := by
  obtain ⟨_,found,_⟩ := claimEntry_found first.clean.short first.given first.clean.text mounted available claimed
  constructor
  · rw [Bool.eq_false_iff]
    intro held
    unfold claimEntry at claimed
    split at claimed
    next k own =>
      cases claimed
      exact other (holds_unique second first held (find_range.mp own).2.1)
    next =>
      split at claimed
      · cases claimed
      next k free =>
        cases claimed
        rw [unnamed_holds (beq_iff_eq.mp (find_range.mp free).2.1)] at held
        cases held
  · rw [Bool.eq_false_iff]
    exact fun held => other (holds_unique second first held (find_range.mp found).2.1)

theorem diskfsFind_other {entries entries' : Nat → Entry} (named : PathName g) (before : holds entries g i = false)
    (after : holds entries' g i = false) (same : ∀ j, j ≠ i → (entries' j).name = (entries j).name) :
    diskfsFind entries' g = diskfsFind entries g := by
  unfold diskfsFind
  congr 1
  funext j
  by_cases own : j = i
  · rw [own,before,after]
  · rw [holds_eq entries' named.clean.short,holds_eq entries named.clean.short,same j own]

theorem diskfsWrite_ready (ready : d.disk.faults = []) : (diskfsWrite d name bytes).1.disk.faults = [] := by
  cases given : admitted d name bytes with
  | none =>
    rw [diskfsWrite_refused given]
    exact ready
  | some claim =>
    obtain ⟨c,i⟩ := claim
    obtain ⟨disk,rfl,result⟩ := diskfsWrite_transfers given
    rw [result]
    have still := performs_ready ready (storeWrites c i bytes)
    dsimp only
    split <;> exact still

theorem diskfsRemove_ready (ready : d.disk.faults = []) : (diskfsRemove d name).1.disk.faults = [] := by
  cases available : d.available with
  | false =>
    rw [diskfsRemove_refused (.inl available)]
    exact ready
  | true =>
    cases found : diskfsFind d.entries name with
    | none =>
      rw [diskfsRemove_refused (.inr found)]
      exact ready
    | some i =>
      rw [diskfsRemove_transfers available found]
      exact performs_ready ready _

/-- The size of a file is the length of its content. -/
theorem diskContent_size {c : List Byte} (ready : d.disk.faults = []) (present : diskContent d g = some c) :
    diskfsExists d g = true ∧ diskfsSize d g = c.length ∧ c.length ≤ diskfsMaxFileSize := by
  unfold diskContent diskfsRead at present
  cases available : d.available with
  | false =>
    rw [available] at present
    cases present
  | true =>
    cases found : diskfsFind d.entries g with
    | none =>
      rw [available,found] at present
      cases present
    | some i =>
      simp only [available,found,Bool.not_true,Bool.false_eq_true,if_false] at present
      split at present
      · cases present
      next small =>
        dsimp only at present
        rw [readData_bytes ready _ _ _ (by unfold ataSectorSize; omega)] at present
        have length : (d.entries i).size = c.length := by
          rw [← Option.some.inj present,List.length_map,List.length_range]
        unfold diskfsExists diskfsSize
        rw [available,found]
        exact ⟨rfl,length,by omega⟩

theorem diskfsWrite_elsewhere (first : PathName name) (second : PathName g) (other : g ≠ name) (mounted : Mounted d)
    (ready : d.disk.faults = []) : Elsewhere d (diskfsWrite d name bytes).1 g := by
  cases given : admitted d name bytes with
  | none =>
    rw [diskfsWrite_refused given]
    exact .refl ready
  | some claim =>
    obtain ⟨c,i⟩ := claim
    obtain ⟨available,_,_,claimed⟩ := admitted_claimed given
    obtain ⟨bound,_,start,disk,available',others⟩ :=
      claimEntry_found first.clean.short first.given first.clean.text mounted available claimed
    obtain ⟨before,after⟩ := claimEntry_other first second other mounted available claimed
    obtain ⟨disk',rfl,result⟩ := diskfsWrite_transfers given
    rw [ready,reached_nil,storeWrites_length,if_neg (by omega)] at result
    rw [result]
    have apart {j : Nat} (found : diskfsFind d.entries g = some j) : j ≠ i := by
      intro same
      have held := (find_range.mp found).2.1
      rw [same,before] at held
      cases held
    have kept {j : Nat} (out : j ≠ i) : sized c.entries i bytes.length j = d.entries j :=
      (Function.update_of_ne out _ _).trans (others j out)
    refine ⟨performs_ready ready _,available',?_,fun j found => kept (apart found),?_⟩
    · have unheld : holds (sized c.entries i bytes.length) g i = false := by
        rw [holds_eq _ second.clean.short] at after ⊢
        rw [sized_name]
        exact after
      exact diskfsFind_other second before unheld fun j out => congrArg Entry.name (kept out)
    · intro j s found inside
      have out := apart found
      have reach := (performs_reached d.disk (storeWrites c i bytes)).1
      rw [ready,reached_nil] at reach
      dsimp only
      unfold diskfsSectorsPerFile at inside
      rw [reach,stored_data bound bytes _ (by omega),dataWrites_other bytes diskfsSectorsPerFile]
      rw [start]
      unfold diskfsSectorsPerFile
      omega

theorem diskfsRemove_elsewhere (first : PathName name) (second : PathName g) (other : g ≠ name)
    (ready : d.disk.faults = []) : Elsewhere d (diskfsRemove d name).1 g := by
  cases available : d.available with
  | false =>
    rw [diskfsRemove_refused (.inl available)]
    exact .refl ready
  | true =>
    cases found : diskfsFind d.entries name with
    | none =>
      rw [diskfsRemove_refused (.inr found)]
      exact .refl ready
    | some i =>
      rw [diskfsRemove_transfers available found]
      obtain ⟨bound,held,_⟩ := find_range.mp found
      have before : holds d.entries g i = false :=
        Bool.eq_false_iff.mpr fun also => other (holds_unique second first also held)
      have kept {j : Nat} (out : j ≠ i) : (removed d i).entries j = d.entries j := Function.update_of_ne out _ _
      have apart {j : Nat} (there : diskfsFind d.entries g = some j) : j ≠ i := by
        intro same
        have own := (find_range.mp there).2.1
        rw [same,before] at own
        cases own
      refine ⟨performs_ready ready _,available.symm ▸ rfl,?_,fun j there => kept (apart there),?_⟩
      · have blank : (removed d i).entries i = blankEntry := Function.update_self _ _ _
        have unheld : holds (removed d i).entries g i = false := unnamed_holds (by rw [blank]; rfl) g
        exact diskfsFind_other second before unheld fun j out => congrArg Entry.name (kept out)
      · intro j s there inside
        have reach := (performs_reached d.disk (dropWrites d i)).1
        rw [ready,reached_nil] at reach
        dsimp only
        rw [reach]
        exact tableWrites_data bound (by omega)

end Disk

section Memory
variable {r r' : RamFs} {name g bytes : List Byte}

/-- The bytes of a file of the memory file system. -/
def ramContent (r : RamFs) (g : List Byte) : Option (List Byte) :=
  (ramfsData r g).map fun data => (List.range (ramfsSize r g)).map data

theorem ramContent_file {i : Nat} (program : programIndex g = none) (found : ramfsFind r g = some i) :
    ramContent r g = some ((List.range (r.files i).size).map (r.files i).data) := by
  unfold ramContent ramfsData ramfsSize
  simp only [program,found,Option.map_some]

/-- A table in which the first file of a name is the same gives the same content. -/
theorem ramContent_congr (programs : r'.programs = r.programs)
    (same : (ramfsFind r' g).map r'.files = (ramfsFind r g).map r.files) : ramContent r' g = ramContent r g := by
  unfold ramContent ramfsData ramfsSize
  rw [programs]
  cases program : programIndex g with
  | some p => rfl
  | none =>
    cases found : ramfsFind r g with
    | none =>
      rw [found,Option.map_none,Option.map_eq_none_iff] at same
      rw [same]
      rfl
    | some i =>
      rw [found,Option.map_some,Option.map_eq_some_iff] at same
      obtain ⟨i',found',file⟩ := same
      simp only [found',Option.map_some,file]

theorem storeFile_other {i : Nat} (named : (r.files i).name ≠ g) :
    (ramfsFind (storeFile r i bytes) g).map (storeFile r i bytes).files = (ramfsFind r g).map r.files := by
  rw [storeFile_find]
  cases found : ramfsFind r g with
  | none => rfl
  | some j =>
    have own := of_decide_eq_true (find_range.mp found).2.1
    have out : j ≠ i := by
      intro same
      rw [same] at own
      exact named own
    rw [Option.map_some,Option.map_some]
    congr 1
    exact Function.update_of_ne out _ _

theorem ramfsFind_some {k : Nat} : ramfsFind r g = some k ↔
    k < r.count ∧ (r.files k).name = g ∧ ∀ j, j < k → (r.files j).name ≠ g := by
  unfold ramfsFind
  rw [find_range]
  simp only [decide_eq_true_eq,decide_eq_false_iff_not,ne_eq]

theorem ramfsFind_none : ramfsFind r g = none ↔ ∀ j, j < r.count → (r.files j).name ≠ g := by
  unfold ramfsFind
  rw [find_range_none]
  simp only [decide_eq_false_iff_not,ne_eq]

/-- The table after a file of another name has been entered at its end. -/
theorem entered_other {files : Nat → RamFile} (before : ∀ j, j < r.count → files j = r.files j)
    (last : (files r.count).name ≠ g) :
    (ramfsFind {r with files,count := r.count + 1} g).map files = (ramfsFind r g).map r.files := by
  cases found : ramfsFind r g with
  | none =>
    have still : ramfsFind {r with files,count := r.count + 1} g = none := by
      refine ramfsFind_none.mpr fun j bound => ?_
      dsimp only at bound ⊢
      rcases Nat.lt_or_eq_of_le (Nat.le_of_lt_succ bound) with old | rfl
      · rw [before j old]
        exact ramfsFind_none.mp found j old
      · exact last
    rw [still]
    rfl
  | some k =>
    obtain ⟨bound,own,earlier⟩ := ramfsFind_some.mp found
    have still : ramfsFind {r with files,count := r.count + 1} g = some k := by
      refine ramfsFind_some.mpr ⟨Nat.lt_succ_of_lt bound,?_,fun j less => ?_⟩
      · dsimp only
        rw [before k bound]
        exact own
      · dsimp only
        rw [before j (Nat.lt_trans less bound)]
        exact earlier j less
    rw [still,Option.map_some,Option.map_some,before k bound]

/-- The table after the file of another name has been taken out. -/
theorem shifted_other {files : Nat → RamFile} {i : Nat} (bound : i < r.count) (named : (r.files i).name ≠ g)
    (below : ∀ j, j < i → files j = r.files j) (above : ∀ j, i ≤ j → j + 1 < r.count → files j = r.files (j + 1)) :
    (ramfsFind {r with files,count := r.count - 1} g).map files = (ramfsFind r g).map r.files := by
  cases found : ramfsFind r g with
  | none =>
    have absent := ramfsFind_none.mp found
    have still : ramfsFind {r with files,count := r.count - 1} g = none := by
      refine ramfsFind_none.mpr fun j inside => ?_
      dsimp only at inside ⊢
      rcases Nat.lt_or_ge j i with less | least
      · rw [below j less]
        exact absent j (by omega)
      · rw [above j least (by omega)]
        exact absent (j + 1) (by omega)
    rw [still]
    rfl
  | some k =>
    obtain ⟨inside,own,earlier⟩ := ramfsFind_some.mp found
    have apart : k ≠ i := by
      rintro rfl
      exact named own
    rcases Nat.lt_or_gt_of_ne apart with less | more
    · have still : ramfsFind {r with files,count := r.count - 1} g = some k := by
        refine ramfsFind_some.mpr ⟨?_,?_,fun j before => ?_⟩
        · dsimp only
          omega
        · dsimp only
          rw [below k less]
          exact own
        · dsimp only
          rw [below j (Nat.lt_trans before less)]
          exact earlier j before
      rw [still,Option.map_some,Option.map_some,below k less]
    · have place : k - 1 + 1 = k := by omega
      have moved : files (k - 1) = r.files k := by
        rw [above (k - 1) (by omega) (by omega),place]
      have still : ramfsFind {r with files,count := r.count - 1} g = some (k - 1) := by
        refine ramfsFind_some.mpr ⟨?_,?_,fun j before => ?_⟩
        · dsimp only
          omega
        · dsimp only
          rw [moved]
          exact own
        · dsimp only
          rcases Nat.lt_or_ge j i with less' | least
          · rw [below j less']
            exact earlier j (by omega)
          · rw [above j least (by omega)]
            exact earlier (j + 1) (by omega)
      rw [still,Option.map_some,Option.map_some,moved]

theorem ramfsWrite_other (first : PathName name) (other : g ≠ name) (stored : ramfsWrite r name bytes = some r') :
    ramContent r' g = ramContent r g := by
  unfold ramfsWrite at stored
  split at stored
  · cases stored
  split at stored
  next i found =>
    cases stored
    have own := (ramfsFind_some.mp found).2.1
    exact ramContent_congr rfl (storeFile_other (by rw [own]; exact other.symm))
  next absent =>
    split at stored
    · cases stored
    next =>
      cases stored
      generalize entered : Function.update r.files r.count {r.files r.count with name := name.take 63} = files
      have last : (files r.count).name ≠ g := by
        rw [← entered,Function.update_self,List.take_of_length_le first.clean.short]
        exact other.symm
      have before (j : Nat) (old : j < r.count) : files j = r.files j := by
        rw [← entered]
        exact Function.update_of_ne (Nat.ne_of_lt old) _ _
      let r₁ : RamFs := {r with files,count := r.count + 1}
      have stores : ramContent (storeFile r₁ (r₁.count - 1) bytes) g = ramContent r₁ g :=
        ramContent_congr rfl (storeFile_other last)
      exact stores.trans (ramContent_congr rfl (entered_other before last))

theorem ramfsRemove_other (other : g ≠ name) (gone : ramfsRemove r name = some r') : ramContent r' g = ramContent r g := by
  unfold ramfsRemove at gone
  split at gone
  · cases gone
  split at gone
  · cases gone
  next i taken =>
    cases gone
    obtain ⟨bound,named,_⟩ := ramfsFind_some.mp taken
    refine ramContent_congr rfl (shifted_other bound (by rw [named]; exact other.symm) ?_ ?_)
    · exact fun j less => if_neg (by omega)
    · exact fun j least inside => if_pos ⟨least,inside⟩

end Memory
end LionOS.Files

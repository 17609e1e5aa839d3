import LionOS.Files.Mount
import LionOS.Files.Opens
import LionOS.Files.Paths
import LionOS.Files.Tables

/-! The names of the files of both back ends: when the enumeration by index agrees with the
lookup by path, and what keeps it so. -/
namespace LionOS.Files
open LionOS.Memory LionOS.Physical LionOS.Processes LionOS.Library

/-- The names below `vfs_count` are there, each one once, and they are the paths in normal
form that `vfs_stat_path` finds. -/
structure Enumerates (st : Store) : Prop where
  given : ∀ i, i < vfsCount st → (vfsName st i).isSome
  distinct : ∀ i j, i < vfsCount st → j < vfsCount st → vfsName st i = vfsName st j → i = j
  normal : ∀ i path, i < vfsCount st → vfsName st i = some path → pathNormalize path = some path
  found : ∀ src, (vfsStatPath st src).isSome ↔
    ∃ path, pathNormalize src = some path ∧ ∃ i, i < vfsCount st ∧ vfsName st i = some path

/-- A path that leads back to itself and that fits with its end into the array of a system
call. -/
structure Passable (path : List Byte) : Prop where
  normal : pathNormalize path = some path
  short : path.length < vfsPathMax - 1

def liveEntries (d : DiskFs) : List Nat := (List.range diskfsMaxFiles).filter fun i => (d.entries i).name 0 != 0

/-- The names of the memory table, of the programs and of the disk, in this order. -/
def storeNames (st : Store) : List (List Byte) :=
  (List.range st.ram.count).map (fun i => (st.ram.files i).name) ++
    (programNames ++ (liveEntries st.disk).map fun i => entryName (st.disk.entries i))

theorem liveEntries_member {d : DiskFs} {i : Nat} :
    i ∈ liveEntries d ↔ i < diskfsMaxFiles ∧ (d.entries i).name 0 ≠ 0 := by
  rw [liveEntries,List.mem_filter,List.mem_range,bne_iff_ne]

theorem liveEntries_named {d : DiskFs} (tidy : Tidy d.entries) {i : Nat} (live : i ∈ liveEntries d) :
    Named (d.entries i) (entryName (d.entries i)) := by
  obtain ⟨_,⟨name,named⟩,_,_⟩ := tidy.file (liveEntries_member.mp live).2
  exact named.entryName.symm ▸ named

section Names
variable {st : Store} {g : List Byte}

theorem storeNames_length (synced : Synced st.disk) : (storeNames st).length = vfsCount st := by
  have programs : programNames.length = ramfsProgramCount := by decide +kernel
  rw [vfsCount_available synced.available,synced.count,storeNames,List.length_append,List.length_append,List.length_map,
    List.length_map,List.length_range,programs,ramfsCount]
  exact (Nat.add_assoc _ _ _).symm

/-- The names by index are those of the list. -/
theorem storeNames_at (synced : Synced st.disk) (i : Nat) : vfsName st i = (storeNames st)[i]? := by
  have programs : programNames.length = ramfsProgramCount := by decide +kernel
  have shown := (terminated_inside (synced.tidy.orderly synced.count).terminated).shown
  unfold vfsName storeNames
  split
  next memory =>
    rw [ramfsCount] at memory
    unfold ramfsName
    split
    next file =>
      rw [List.getElem?_append_left (by simpa using file),List.getElem?_map,List.getElem?_range file]
      rfl
    next program =>
      rw [List.getElem?_append_right (by simpa using program),List.length_map,List.length_range,
        List.getElem?_append_left (by omega)]
  next disk =>
    rw [ramfsCount] at disk
    rw [List.getElem?_append_right (by rw [List.length_map,List.length_range]; omega),List.length_map,List.length_range,
      List.getElem?_append_right (by omega),programs,List.getElem?_map,ramfsCount,Nat.sub_add_eq]
    unfold diskfsName
    rw [synced.available]
    change (liveEntries st.disk)[i - st.ram.count - ramfsProgramCount]?.map _ = _
    apply Option.map_congr
    intro k taken
    have live := liveEntries_member.mp (List.mem_of_getElem? taken)
    exact shown k live.1 live.2

theorem programIndex_member : programIndex g ≠ none ↔ g ∈ programNames := by
  have programs : programNames.length = ramfsProgramCount := by decide +kernel
  unfold programIndex
  rw [ne_eq,find_range_none,List.mem_iff_getElem]
  simp only [decide_eq_false_iff_not,not_forall,not_not]
  refine ⟨?_,?_⟩
  · rintro ⟨i,bound,same⟩
    rw [← programs] at bound
    rw [List.getD_eq_getElem _ _ bound] at same
    exact ⟨i,bound,same⟩
  · rintro ⟨i,bound,same⟩
    refine ⟨i,programs ▸ bound,?_⟩
    rw [List.getD_eq_getElem _ _ bound]
    exact same

theorem storeNames_member (synced : Synced st.disk) : g ∈ storeNames st ↔
    (ramfsFind st.ram g ≠ none ∨ g ∈ programNames) ∨ ∃ k, Named (st.disk.entries k) g := by
  rw [storeNames,List.mem_append,List.mem_append,← or_assoc]
  refine or_congr (or_congr ?_ Iff.rfl) ?_
  · rw [ne_eq,ramfsFind_none,List.mem_map]
    simp only [List.mem_range,not_forall,not_not,exists_prop]
  · rw [List.mem_map]
    refine ⟨?_,?_⟩
    · rintro ⟨k,live,rfl⟩
      exact ⟨k,liveEntries_named synced.tidy live⟩
    · rintro ⟨k,named⟩
      exact ⟨k,liveEntries_member.mpr ⟨(synced.tidy.file named.first).1,named.first⟩,named.entryName⟩

end Names

/-- Every name of the back ends is passable, and no two files have the same one. -/
structure Catalogue (r : RamFs) (l : Ledger) : Prop where
  ordered : Ordered r
  unlinked : ∀ i, i < r.count → programIndex (r.files i).name = none
  memory : ∀ i, i < r.count → Passable (r.files i).name
  stored : ∀ g, l g ≠ none → Passable g
  apart : ∀ g, l g ≠ none → ramfsFind r g = none

/-- What a call does to the names: a write or a removal in one of the back ends, and no new
name that the other one has. -/
inductive Change (r : RamFs) (l : Ledger) : RamFs → Ledger → Prop
  | same : Change r l r l
  | wroteMemory {path bytes : List Byte} {r' : RamFs} (passable : Passable path) (absent : l path = none)
      (written : ramfsWrite r path bytes = some r') : Change r l r' l
  | wroteDisk {path bytes : List Byte} (passable : Passable path) (absent : ramfsFind r path = none) :
      Change r l r (Function.update l path (some bytes))
  | removedMemory {path : List Byte} {r' : RamFs} (gone : ramfsRemove r path = some r') : Change r l r' l
  | removedDisk (path : List Byte) : Change r l r (Function.update l path none)

section Changes
variable {r r' : RamFs} {l l' : Ledger} {path bytes : List Byte}

theorem Passable.name (passable : Passable path) : PathName path := pathName_normal passable.normal

/-- A file of the table after a write has the name that was written, or one of before. -/
theorem ramfsWrite_names (named : PathName path) (written : ramfsWrite r path bytes = some r') {i : Nat}
    (bound : i < r'.count) :
    (r'.files i).name = path ∨ ∃ j, j < r.count ∧ (r'.files i).name = (r.files j).name := by
  unfold ramfsWrite at written
  split at written
  · cases written
  split at written
  next k found =>
    cases written
    exact .inr ⟨i,bound,storeFile_name r k bytes i⟩
  next absent =>
    split at written
    · cases written
    next room =>
      cases written
      rw [storeFile_name]
      dsimp only
      by_cases last : i = r.count
      · subst last
        rw [Function.update_self,List.take_of_length_le named.clean.short]
        exact .inl rfl
      · rw [Function.update_of_ne last]
        refine .inr ⟨i,?_,rfl⟩
        change i < r.count + 1 at bound
        omega

theorem ramfsWrite_unlinked (written : ramfsWrite r path bytes = some r') : programIndex path = none := by
  unfold ramfsWrite at written
  split at written
  · cases written
  next valid =>
    rw [not_or,Option.isSome_iff_ne_none,not_not] at valid
    exact valid.2

/-- The names after a call. -/
theorem Catalogue.change (catalogue : Catalogue r l) (change : Change r l r' l') : Catalogue r' l' := by
  obtain ⟨ordered,unlinked,memory,stored,apart⟩ := catalogue
  cases change with
  | same => exact ⟨ordered,unlinked,memory,stored,apart⟩
  | wroteMemory passable absent written =>
    have names {i : Nat} (bound : i < r'.count) := ramfsWrite_names passable.name written bound
    refine ⟨ordered.write passable.name.clean.short written,?_,?_,stored,?_⟩
    · intro i bound
      rcases names bound with own | ⟨j,old,same⟩
      · rw [own]
        exact ramfsWrite_unlinked written
      · rw [same]
        exact unlinked j old
    · intro i bound
      rcases names bound with own | ⟨j,old,same⟩
      · rw [own]
        exact passable
      · rw [same]
        exact memory j old
    · intro g present
      have before := ramfsFind_none.mp (apart g present)
      refine ramfsFind_none.mpr fun i bound same => ?_
      rcases names bound with own | ⟨j,old,same'⟩
      · rw [← same,own] at present
        exact present absent
      · exact before j old (same'.symm.trans same)
  | @wroteDisk path bytes passable absent =>
    refine ⟨ordered,unlinked,memory,?_,?_⟩
    · intro g present
      by_cases own : g = path
      · rw [own]
        exact passable
      · rw [Function.update_of_ne own] at present
        exact stored g present
    · intro g present
      by_cases own : g = path
      · rw [own]
        exact absent
      · rw [Function.update_of_ne own] at present
        exact apart g present
  | removedMemory gone =>
    obtain ⟨_,source,_,_,moved,inside,_⟩ := ramfsRemove_source gone
    refine ⟨ordered.remove gone,?_,?_,stored,?_⟩
    · intro i bound
      rw [moved]
      exact unlinked _ (inside i bound).1
    · intro i bound
      rw [moved]
      exact memory _ (inside i bound).1
    · intro g present
      have before := ramfsFind_none.mp (apart g present)
      refine ramfsFind_none.mpr fun i bound => ?_
      rw [moved]
      exact before _ (inside i bound).1
  | removedDisk path =>
    have kept {g : List Byte} (present : Function.update l path none g ≠ none) : l g ≠ none := by
      by_cases own : g = path
      · rw [own,Function.update_self] at present
        exact absurd rfl present
      · rwa [Function.update_of_ne own] at present
    exact ⟨ordered,unlinked,memory,fun g present => stored g (kept present),fun g present => apart g (kept present)⟩

/-- A start keeps the names apart where the disk has no file of a name that it seeds. -/
theorem Catalogue.booted (stored : ∀ g, l g ≠ none → Passable g)
    (fresh : ∀ seed ∈ seeds, l seed.1 = none) : Catalogue (ramfsInit r) l := by
  have tabled := ramfsInit_tabled r
  have clear : ∀ i, i < seeds.length → programIndex (seeds.getD i default).1 = none ∧
      pathNormalize (seeds.getD i default).1 = some (seeds.getD i default).1 ∧
        (seeds.getD i default).1.length < vfsPathMax - 1 := by decide +kernel
  refine ⟨ramfsInit_ordered r,?_,?_,stored,?_⟩
  · intro i bound
    rw [tabled.count] at bound
    rw [tabled.name i bound]
    exact (clear i bound).1
  · intro i bound
    rw [tabled.count] at bound
    rw [tabled.name i bound]
    exact ⟨(clear i bound).2.1,(clear i bound).2.2⟩
  · intro g present
    refine ramfsFind_none.mpr fun i bound same => ?_
    rw [tabled.count] at bound
    rw [tabled.name i bound] at same
    exact present (same ▸ fresh _ (seeds_member.mpr ⟨i,bound,rfl⟩))

end Changes

section Lookup
variable {st : Store} {l : Ledger} {g : List Byte}

theorem programNames_passable (member : g ∈ programNames) : Passable g := by
  have all : ∀ name ∈ programNames, pathNormalize name = some name ∧ name.length < vfsPathMax - 1 := by decide +kernel
  exact ⟨(all g member).1,(all g member).2⟩

theorem Holds.exists_stored (held : Holds st.disk l) (text : 0 ∉ g) : diskfsExists st.disk g = true ↔ l g ≠ none := by
  have file := held.files ⟨g,text⟩
  dsimp only at file
  unfold diskFile at file
  refine ⟨fun present absent => ?_,fun present => ?_⟩
  · rw [if_pos present,absent] at file
    cases file
  · by_contra gone
    rw [if_neg gone,eq_comm,Option.map_eq_none_iff] at file
    exact present file

theorem Holds.entry_stored (held : Holds st.disk l) (text : 0 ∉ g) : (∃ k, Named (st.disk.entries k) g) ↔ l g ≠ none := by
  rw [← held.exists_stored text,diskfsExists,held.synced.available,Bool.true_and,Option.isSome_iff_exists]
  exact exists_congr fun k => (held.synced.tidy.find text).symm

theorem ramfsData_present {r : RamFs} : (ramfsData r g).isSome ↔ ramfsFind r g ≠ none ∨ g ∈ programNames := by
  rw [← programIndex_member]
  unfold ramfsData
  cases program : programIndex g with
  | some p => simp
  | none => simp [Option.isSome_iff_ne_none]

theorem vfsStatPath_found (src : List Byte) : (vfsStatPath st src).isSome ↔ ∃ path, pathNormalize src = some path ∧
    ((ramfsData st.ram path).isSome ∨ (diskfsAvailable st.disk && diskfsExists st.disk path) = true) := by
  unfold vfsStatPath
  cases normal : pathNormalize src with
  | none => simp
  | some path =>
    simp only [Option.some.injEq,exists_eq_left']
    split
    next memory => simp [memory]
    next missing =>
      split
      next disk => exact ⟨fun _ => .inr disk,fun _ => rfl⟩
      next gone => exact ⟨fun found => absurd found (by simp),fun either => (either.elim missing gone).elim⟩

theorem Catalogue.storeNames_passable (catalogue : Catalogue st.ram l) (held : Holds st.disk l) (member : g ∈ storeNames st) :
    Passable g := by
  rcases (storeNames_member held.synced).mp member with (memory | program) | ⟨k,named⟩
  · obtain ⟨i,found⟩ := Option.ne_none_iff_exists'.mp memory
    obtain ⟨bound,same,_⟩ := ramfsFind_some.mp found
    rw [← same]
    exact catalogue.memory i bound
  · exact programNames_passable program
  · exact catalogue.stored g ((held.entry_stored named.text).mp ⟨k,named⟩)

theorem Catalogue.storeNames_nodup (catalogue : Catalogue st.ram l) (held : Holds st.disk l) : (storeNames st).Nodup := by
  have disk : ((liveEntries st.disk).map fun i => entryName (st.disk.entries i)).Nodup := by
    refine List.Nodup.map_on ?_ (List.nodup_range.filter _)
    intro i first j second same
    have named := liveEntries_named held.synced.tidy first
    rw [same] at named
    exact held.synced.tidy.distinct named (liveEntries_named held.synced.tidy second)
  have memory : ((List.range st.ram.count).map fun i => (st.ram.files i).name).Nodup := by
    refine List.Nodup.map_on ?_ List.nodup_range
    intro i first j second same
    exact catalogue.ordered.distinct i j (List.mem_range.mp first) (List.mem_range.mp second) same
  have programs : programNames.Nodup := by decide +kernel
  have onDisk {g : List Byte} (member : g ∈ (liveEntries st.disk).map fun i => entryName (st.disk.entries i)) : l g ≠ none := by
    obtain ⟨i,live,rfl⟩ := List.mem_map.mp member
    have named := liveEntries_named held.synced.tidy live
    exact (held.entry_stored named.text).mp ⟨i,named⟩
  refine memory.append (programs.append disk ?_) ?_
  · intro g program stored
    exact programIndex_member.mpr program (held.unlinked g (onDisk stored))
  · intro g listed other
    obtain ⟨i,inside,rfl⟩ := List.mem_map.mp listed
    have bound := List.mem_range.mp inside
    rcases List.mem_append.mp other with program | stored
    · exact programIndex_member.mpr program (catalogue.unlinked i bound)
    · exact ramfsFind_none.mp (catalogue.apart _ (onDisk stored)) i bound rfl

theorem storeNames_listed (held : Holds st.disk l) : (∃ i, i < vfsCount st ∧ vfsName st i = some g) ↔ g ∈ storeNames st := by
  have length := storeNames_length held.synced
  rw [List.mem_iff_getElem?]
  refine exists_congr fun i => ?_
  rw [storeNames_at held.synced i,← length]
  exact ⟨And.right,fun found => ⟨(List.getElem?_eq_some_iff.mp found).1,found⟩⟩

theorem Catalogue.listed_passable (catalogue : Catalogue st.ram l) (held : Holds st.disk l) {i : Nat}
    (bound : i < vfsCount st) (named : vfsName st i = some g) : Passable g :=
  catalogue.storeNames_passable held ((storeNames_listed held).mp ⟨i,bound,named⟩)

/-- A catalogue makes the enumeration and the lookup agree. -/
theorem Catalogue.enumerates (catalogue : Catalogue st.ram l) (held : Holds st.disk l) : Enumerates st := by
  have length := storeNames_length held.synced
  have names := storeNames_at held.synced
  refine ⟨?_,?_,?_,?_⟩
  · intro i bound
    rw [← length] at bound
    rw [names i,List.getElem?_eq_getElem bound]
    rfl
  · intro i j first second same
    rw [← length] at first second
    rw [names i,names j] at same
    exact (List.getElem?_inj first (catalogue.storeNames_nodup held)).mp same
  · intro i path bound named
    exact (catalogue.listed_passable held bound named).normal
  · intro src
    rw [vfsStatPath_found]
    refine exists_congr fun path => and_congr_right fun normal => ?_
    have text := (pathNormalize_clean normal).1.text
    rw [storeNames_listed held,storeNames_member held.synced,held.entry_stored text,ramfsData_present,← held.exists_stored text]
    have available : diskfsAvailable st.disk = true := held.synced.available
    rw [available,Bool.true_and]

end Lookup

end LionOS.Files

import LionOS.Files.Elsewhere
import LionOS.Files.Failures
import LionOS.Files.WriteRead

/-! What an open leaves behind when it fails. -/
namespace LionOS.Files
open LionOS.Physical LionOS.Library LionOS.Processes

def vfsCount (st : Store) : Nat := ramfsCount st.ram + if diskfsAvailable st.disk then diskfsCount st.disk else 0

/-- The files of both back ends, their number and the descriptors are as they were. -/
structure Traceless (st st' : Store) (fds fds' : FdTable) : Prop where
  memory : ∀ g, ramContent st'.ram g = ramContent st.ram g
  disk : Unchanged st.disk st'.disk
  count : vfsCount st' = vfsCount st
  descriptors : fds' = fds

theorem Traceless.refl (st : Store) (fds : FdTable) : Traceless st st fds fds :=
  ⟨fun _ => rfl,⟨fun _ => rfl,rfl⟩,rfl,rfl⟩

/-- The disk has an entry for a new file of that name. -/
def Takes (d : DiskFs) (name : List Byte) (i : Nat) : Prop :=
  d.available = true ∧ validName name = true ∧ freeEntry d.entries = some i

/-- One of the transfers that make an empty file in entry `i` fails. -/
def Breaks (d : DiskFs) (i : Nat) : Prop :=
  reached d.disk.faults (diskfsSectorsPerFile + 1 + (entrySectors i).length) <
    diskfsSectorsPerFile + 1 + (entrySectors i).length

/-- The memory file system has room for one more file. -/
def Room (r : RamFs) : Prop := r.count < ramfsMaxFiles - ramfsProgramCount

/-- A new file is asked for, and either it is made and there is no descriptor for it, or the disk
fails half-way and memory is full. -/
def Strands (st : Store) (fds : FdTable) (clean : List Byte) (flags : Nat) : Prop :=
  backendFor st clean = backendNone ∧ flagged flags vfsFWrite = true ∧
    ((freeFd fds = none ∧ ((∃ i, Takes st.disk clean i) ∨ Room st.ram)) ∨
      (∃ i, Takes st.disk clean i ∧ Breaks st.disk i) ∧ ¬Room st.ram)

section Create
variable {st : Store} {clean : List Byte}

theorem backendFor_absent : backendFor st clean = backendNone ↔
    ramfsData st.ram clean = none ∧ ¬(diskfsAvailable st.disk && diskfsExists st.disk clean) = true := by
  unfold backendFor
  constructor
  · intro absent
    split at absent
    · cases absent
    next missing =>
      split at absent
      · cases absent
      next gone => exact ⟨by simpa using missing,gone⟩
  · intro ⟨missing,gone⟩
    rw [missing,if_neg (by simp),if_neg gone]

theorem ramfsData_absent {r : RamFs} (missing : ramfsData r clean = none) :
    programIndex clean = none ∧ ramfsFind r clean = none := by
  unfold ramfsData at missing
  split at missing
  · cases missing
  next program => exact ⟨program,Option.map_eq_none_iff.mp missing⟩

theorem ramfsWrite_room {r : RamFs} (missing : ramfsData r clean = none) (named : clean ≠ []) (room : Room r) :
    ∃ r', ramfsWrite r clean [] = some r' ∧ ramfsCount r' = ramfsCount r + 1 := by
  obtain ⟨program,find⟩ := ramfsData_absent missing
  have valid : ¬(clean = [] ∨ (programIndex clean).isSome = true) := by
    rw [program]
    simpa using named
  unfold Room at room
  unfold ramfsWrite
  rw [if_neg valid,find,if_neg (by omega)]
  refine ⟨_,rfl,?_⟩
  unfold ramfsCount storeFile
  dsimp only
  omega

theorem ramfsWrite_full {r : RamFs} (missing : ramfsData r clean = none) (full : ¬Room r) : ramfsWrite r clean [] = none := by
  obtain ⟨_,find⟩ := ramfsData_absent missing
  unfold ramfsWrite
  split
  · rfl
  · rw [find]
    exact if_pos (Nat.not_lt.mp full)

/-- Without a free entry or for a name that it refuses the disk does nothing. -/
theorem diskfsWrite_untaken {d : DiskFs} (gone : ¬(diskfsAvailable d && diskfsExists d clean) = true)
    (untaken : ¬∃ i, Takes d clean i) : diskfsWrite d clean [] = (d,false) := by
  apply diskfsWrite_refused
  unfold admitted
  split
  · rfl
  next valid =>
    simp only [Bool.or_eq_true,Bool.not_eq_true',decide_eq_true_eq,not_or,Bool.not_eq_false,gt_iff_lt] at valid
    have absent : diskfsFind d.entries clean = none := by
      unfold diskfsAvailable diskfsExists at gone
      simpa [valid.1.1] using gone
    unfold claimEntry
    rw [absent]
    dsimp only
    rcases free : freeEntry d.entries with _ | i
    · rfl
    · exact absurd ⟨i,valid.1.1,valid.1.2,free⟩ untaken

/-- With a free entry the file is there, whether or not its transfers succeed. -/
theorem diskfsWrite_taken {d : DiskFs} {i : Nat} (gone : ¬(diskfsAvailable d && diskfsExists d clean) = true)
    (takes : Takes d clean i) : ∃ d' ok, diskfsWrite d clean [] = (d',ok) ∧ (ok = true ↔ ¬Breaks d i) ∧
      d'.available = true ∧ d'.fileCount = d.fileCount + 1 := by
  obtain ⟨available,valid,free⟩ := takes
  have absent : diskfsFind d.entries clean = none := by
    unfold diskfsAvailable diskfsExists at gone
    simpa [available] using gone
  obtain ⟨c,claimed,count⟩ : ∃ c, claimEntry d clean = some (c,i) ∧ c.fileCount = d.fileCount + 1 := by
    unfold claimEntry
    rw [absent]
    dsimp only
    rw [free]
    exact ⟨_,rfl,rfl⟩
  have given : admitted d clean [] = some (c,i) := by
    unfold admitted
    rw [available,valid]
    exact claimed
  obtain ⟨disk,_,written⟩ := diskfsWrite_transfers given
  have kept : c.available = true := (claimEntry_bound claimed).2.2.trans available
  refine ⟨_,_,written,?_,?_,?_⟩
  · rw [decide_eq_true_iff,storeWrites_length]
    have most := reached_min d.disk.faults _ (diskfsSectorsPerFile + 1 + (entrySectors i).length) (Nat.le_refl _)
    unfold Breaks
    omega
  · split
    · exact kept
    · exact kept
  · split
    · exact count
    · exact count

theorem vfsCount_available {st : Store} (available : st.disk.available = true) :
    vfsCount st = ramfsCount st.ram + st.disk.fileCount := by
  unfold vfsCount diskfsAvailable diskfsCount
  rw [if_pos available,if_pos available]

theorem diskfsWrite_skipped (d : DiskFs) (name bytes : List Byte) :
    (if diskfsAvailable d then diskfsWrite d name bytes else (d,false)) = diskfsWrite d name bytes := by
  unfold diskfsAvailable
  split
  · rfl
  next off => exact (diskfsWrite_refused (by unfold admitted; rw [Bool.not_eq_true] at off; rw [off]; rfl)).symm

/-- Where a new file goes: to the disk, or behind a refusal or a failure of the disk to memory. -/
theorem createFile_outcome (absent : backendFor st clean = backendNone) (named : clean ≠ []) :
    ∃ st' backend, createFile st clean = (st',backend) ∧
      (backend = backendNone ↔ (∀ i, Takes st.disk clean i → Breaks st.disk i) ∧ ¬Room st.ram) ∧
      ((∃ i, Takes st.disk clean i) ∨ Room st.ram → vfsCount st < vfsCount st') ∧
      (¬(∃ i, Takes st.disk clean i) → ¬Room st.ram → st' = st) := by
  obtain ⟨missing,gone⟩ := backendFor_absent.mp absent
  unfold createFile
  rw [diskfsWrite_skipped]
  by_cases taken : ∃ i, Takes st.disk clean i
  · obtain ⟨i,takes⟩ := taken
    obtain ⟨d',ok,written,result,available,count⟩ := diskfsWrite_taken gone takes
    have one : ∀ j, Takes st.disk clean j → j = i := by
      intro j other
      have same := other.2.2
      rw [takes.2.2,Option.some_inj] at same
      exact same.symm
    have more : vfsCount {st with disk := d'} = vfsCount st + 1 := by
      rw [vfsCount_available available,vfsCount_available takes.1,count,Nat.add_assoc]
    rw [written]
    dsimp only
    cases ok with
    | true =>
      have whole := result.mp rfl
      refine ⟨_,_,rfl,?_,fun _ => ?_,fun none => absurd ⟨i,takes⟩ none⟩
      · exact ⟨fun same => absurd same (by decide),fun both => absurd (both.1 i takes) whole⟩
      · rw [more]
        exact Nat.lt_succ_self _
    | false =>
      have broken : Breaks st.disk i := by
        by_contra whole
        exact Bool.false_ne_true (result.mpr whole)
      have all : ∀ j, Takes st.disk clean j → Breaks st.disk j := fun j other => one j other ▸ broken
      rw [if_neg Bool.false_ne_true]
      by_cases room : Room st.ram
      · obtain ⟨ram,stored,grown⟩ := ramfsWrite_room missing named room
        rw [stored]
        refine ⟨_,_,rfl,?_,fun _ => ?_,fun none => absurd ⟨i,takes⟩ none⟩
        · exact ⟨fun same => absurd same (by decide),fun both => absurd room both.2⟩
        · have before := @vfsCount_available {st with disk := d'} available
          have after := @vfsCount_available {st with ram,disk := d'} available
          dsimp only at before after
          rw [after]
          omega
      · rw [ramfsWrite_full missing room]
        refine ⟨_,_,rfl,⟨fun _ => ⟨all,room⟩,fun _ => rfl⟩,fun _ => ?_,fun none => absurd ⟨i,takes⟩ none⟩
        rw [more]
        exact Nat.lt_succ_self _
  · rw [diskfsWrite_untaken gone taken]
    dsimp only
    rw [if_neg Bool.false_ne_true]
    by_cases room : Room st.ram
    · obtain ⟨ram,stored,grown⟩ := ramfsWrite_room missing named room
      rw [stored]
      refine ⟨_,_,rfl,?_,fun _ => ?_,fun _ full => absurd room full⟩
      · exact ⟨fun same => absurd same (by decide),fun both => absurd room both.2⟩
      · unfold vfsCount
        dsimp only
        omega
    · rw [ramfsWrite_full missing room]
      refine ⟨_,_,rfl,⟨fun _ => ⟨fun i takes => absurd ⟨i,takes⟩ taken,room⟩,fun _ => rfl⟩,fun some => ?_,fun _ _ => rfl⟩
      exact absurd some (not_or.mpr ⟨taken,room⟩)

end Create

/-- An open that fails leaves no trace unless it strands a new file. -/
theorem openSlot_traceless {st : Store} {clean : List Byte} (named : clean ≠ []) (fds : FdTable) (flags : Nat) :
    ((openSlot st fds clean flags).2.2 = none →
      Traceless st (openSlot st fds clean flags).1 fds (openSlot st fds clean flags).2.1) ↔ ¬Strands st fds clean flags := by
  unfold openSlot
  dsimp only
  by_cases absent : backendFor st clean = backendNone
  · by_cases write : flagged flags vfsFWrite = true
    · obtain ⟨st',backend,made,nowhere,counts,unchanged⟩ := createFile_outcome absent named
      rw [if_neg (by rw [write]; simp),if_pos absent,made]
      dsimp only
      have trace : (∃ i, Takes st.disk clean i) ∨ Room st.ram → ¬Traceless st st' fds fds := by
        intro created traceless
        have more := counts created
        rw [traceless.count] at more
        exact Nat.lt_irrefl _ more
      have same : ¬((∃ i, Takes st.disk clean i) ∨ Room st.ram) → Traceless st st' fds fds := by
        intro none
        rw [unchanged (fun takes => none (.inl takes)) fun room => none (.inr room)]
        exact .refl st fds
      unfold Strands
      rw [and_iff_right absent,and_iff_right write]
      by_cases lost : backend = backendNone
      · obtain ⟨broken,full⟩ := nowhere.mp lost
        rw [if_pos lost]
        refine ⟨fun traceless strands => ?_,fun strands _ => same fun created => strands (.inr ?_)⟩
        · refine trace ?_ (traceless rfl)
          rcases strands with ⟨_,created⟩ | ⟨⟨i,takes,_⟩,_⟩
          · exact created
          · exact .inl ⟨i,takes⟩
        · obtain ⟨i,takes⟩ := created.resolve_right full
          exact ⟨⟨i,takes,broken i takes⟩,full⟩
      · rw [if_neg lost]
        have kept : ¬((∃ i, Takes st.disk clean i ∧ Breaks st.disk i) ∧ ¬Room st.ram) := by
          rintro ⟨⟨i,takes,breaks⟩,full⟩
          refine lost (nowhere.mpr ⟨fun j other => ?_,full⟩)
          have slot := other.2.2
          rw [takes.2.2,Option.some_inj] at slot
          exact slot ▸ breaks
        rcases free : freeFd fds with _ | i
        · dsimp only
          rw [or_iff_left kept,and_iff_right rfl]
          exact ⟨fun traceless created => trace created (traceless rfl),fun none _ => same none⟩
        · dsimp only
          refine ⟨fun _ strands => ?_,fun _ refused => by cases refused⟩
          rcases strands with ⟨none,_⟩ | broken
          · cases none
          · exact kept broken
    · rw [if_pos ⟨absent,by simpa using write⟩]
      exact ⟨fun _ strands => write strands.2.1,fun _ _ => .refl st fds⟩
  · rw [if_neg fun both => absent both.1,if_neg absent]
    dsimp only
    rw [if_neg absent]
    refine ⟨fun _ strands => absent strands.1,fun _ => ?_⟩
    rcases freeFd fds with _ | i
    · exact fun _ => .refl st fds
    · exact fun refused => by cases refused

/-- What an open that fails has to leave as it was. -/
def OpensCleanly (st : Store) (fds : FdTable) (result : Store × FdTable × Option Nat) : Prop :=
  result.2.2 = none → Traceless st result.1 fds result.2.1

theorem vfsOpen_traceless (st : Store) (fds : FdTable) (path : List Byte) (flags : Nat) :
    OpensCleanly st fds (vfsOpen st fds path flags) ↔
      ∀ clean, pathNormalize path = some clean → ¬Strands st fds clean flags := by
  unfold OpensCleanly vfsOpen
  rcases normal : pathNormalize path with _ | clean
  · dsimp only
    exact ⟨fun _ clean made => (Option.some_ne_none clean made.symm).elim,fun _ _ => .refl st fds⟩
  · rw [openSlot_traceless (pathNormalize_clean normal).2]
    exact ⟨fun cleanly name same => Option.some_inj.mp same ▸ cleanly,fun all => all clean rfl⟩

/-- A failed open of the kernel or of a process leaves a trace exactly where it strands a file. -/
theorem failed_open (st : Store) (fds : FdTable) (p : Process) (path : List Byte) (flags : Nat) :
    (OpensCleanly st fds (vfsOpen st fds path flags) ↔
      ∀ clean, pathNormalize path = some clean → ¬Strands st fds clean flags) ∧
    (((vfsOpenForProcess st p path flags).2.2 = none →
        Traceless st (vfsOpenForProcess st p path flags).1 p.fds (vfsOpenForProcess st p path flags).2.1.fds) ↔
      ∀ clean, pathNormalize path = some clean → ¬Strands st p.fds clean flags) :=
  ⟨vfsOpen_traceless st fds path flags,vfsOpen_traceless st p.fds path flags⟩

/-- All descriptors are open on one file. -/
def crowded : Store × FdTable := run fileStep (bareStore,noFds) (List.replicate vfsFdMax (.opened letter vfsFWrite))

/-- A new file for which there is no descriptor stays. -/
theorem crowded_open_strands : ¬OpensCleanly crowded.1 crowded.2 (vfsOpen crowded.1 crowded.2 (ascii ['b']) vfsFWrite) := by
  intro cleanly
  have refused : (vfsOpen crowded.1 crowded.2 (ascii ['b']) vfsFWrite).2.2 = none := by decide +kernel
  have more : vfsCount (vfsOpen crowded.1 crowded.2 (ascii ['b']) vfsFWrite).1 ≠ vfsCount crowded.1 := by decide +kernel
  exact more (cleanly refused).count

end LionOS.Files

import LionOS.Files.KernelLog
import LionOS.Files.Opens
import LionOS.Files.Pieces
import LionOS.Files.Tables

/-! Appends to the log file of the kernel: what a rotation keeps of it, and when a file that was
hidden behind it comes up. -/
namespace LionOS.Files
open LionOS.Memory LionOS.Physical LionOS.Processes LionOS.Library

/-- The next `n` buffers that file calls ask for and give back are granted. -/
def serves : Nat → Heap → Bool
  | 0, _ => true
  | n+1, heap => [256,vfsIoMax].all fun size => match kmalloc heap size with
    | none => false
    | some (heap,base) => serves n (kfree heap base)

theorem serves_buffer {n : Nat} {heap : Heap} : serves (n + 1) heap = true ↔ ∀ size, size = 256 ∨ size = vfsIoMax →
    ∃ heap' base, kmalloc heap size = some (heap',base) ∧ serves n (kfree heap' base) = true := by
  rw [serves]
  simp only [List.all_eq_true,List.mem_cons,List.not_mem_nil,or_false]
  refine forall_congr' fun size => forall_congr' fun _ => ?_
  rcases kmalloc heap size with _ | ⟨heap',base⟩
  · simp
  · simp

theorem serves_fewer {n : Nat} {heap : Heap} (granted : serves (n + 1) heap = true) : serves n heap = true := by
  induction n generalizing heap with
  | zero => rfl
  | succ n ih =>
    refine serves_buffer.mpr fun size buffer => ?_
    obtain ⟨heap',base,given,later⟩ := serves_buffer.mp granted size buffer
    exact ⟨heap',base,given,ih later⟩

/-- Nothing fails on the disk. -/
structure Calm (st : Store) : Prop where
  mounted : Mounted st.disk
  ready : st.disk.disk.faults = []

/-- The back end that a path shows in. -/
structure Target (st : Store) (path : List Byte) (b : Nat) : Prop where
  backend : backendFor st path = b
  present : b ≠ backendNone

section Targets
variable {st st' : Store} {path bytes : List Byte} {b : Nat}

theorem target_ram : Target st path backendRamfs ↔ (ramfsData st.ram path).isSome = true := by
  refine ⟨fun target => ?_,fun some => ⟨if_pos some,by decide⟩⟩
  have backend := target.backend
  unfold backendFor at backend
  split at backend
  next some => exact some
  · split at backend
    · cases backend
    · cases backend

theorem target_disk : Target st path backendDiskfs ↔
    ramfsData st.ram path = none ∧ st.disk.available = true ∧ (diskfsFind st.disk.entries path).isSome = true := by
  refine ⟨fun target => ?_,fun ⟨missing,available,found⟩ => ⟨?_,by decide⟩⟩
  · have backend := target.backend
    unfold backendFor diskfsAvailable diskfsExists at backend
    split at backend
    · cases backend
    next missing =>
      split at backend
      next both =>
        rw [Bool.and_eq_true,Bool.and_eq_true] at both
        exact ⟨by simpa using missing,both.1,both.2.2⟩
      · cases backend
  · unfold backendFor diskfsAvailable diskfsExists
    rw [missing,available,found]
    rfl

theorem Target.cases (target : Target st path b) : b = backendRamfs ∨ b = backendDiskfs := by
  obtain ⟨backend,present⟩ := target
  unfold backendFor at backend
  split at backend
  · exact .inl backend.symm
  · split at backend
    · exact .inr backend.symm
    · exact absurd backend.symm present

theorem logLimit_content (b : Nat) : logLimit b = fileLimit (onDisk b) := by
  unfold logLimit fileLimit onDisk
  simp only [beq_iff_eq]
  rfl

/-- A file that a call has written shows in its back end, unless memory hides the disk. -/
theorem Only.target (named : PathName path) (kind : b = backendRamfs ∨ b = backendDiskfs ∧ ramfsData st.ram path = none)
    (only : Only st st' (onDisk b) path) (content : fileContent st' (onDisk b) path = some bytes) : Target st' path b := by
  rcases kind with rfl | ⟨rfl,missing⟩
  · obtain ⟨data,found,_⟩ := Option.map_eq_some_iff.mp content
    exact target_ram.mpr (by rw [found]; rfl)
  · have memory : ramContent st'.ram path = ramContent st.ram path := only.others false path named (.inl (by decide))
    unfold ramContent at memory
    rw [missing,Option.map_none,Option.map_eq_none_iff] at memory
    have exists_ := (diskContent_size only.ready content).1
    rw [diskfsExists,Bool.and_eq_true] at exists_
    exact target_disk.mpr ⟨memory,exists_⟩

theorem Target.kind (target : Target st path b) : b = backendRamfs ∨ b = backendDiskfs ∧ ramfsData st.ram path = none := by
  refine target.cases.imp_right fun disk => ⟨disk,?_⟩
  subst disk
  exact (target_disk.mp target).1

/-- The stored bytes show in the back end that took them, unless memory hides the disk. -/
theorem storeWhole_shown (calm : Calm st) (named : PathName path) (small : bytes.length ≤ logLimit b)
    (kind : b = backendRamfs ∨ b = backendDiskfs ∧ ramfsData st.ram path = none)
    (stored : storeWhole st b path bytes = (st',true)) :
    Calm st' ∧ Target st' path b ∧ fileContent st' (onDisk b) path = some bytes ∧ st'.heap = st.heap := by
  have mounted := @storeWhole_mounted st calm.mounted b path bytes
  rw [stored] at mounted
  have only := storeWhole_only calm.mounted calm.ready named stored
  have content := storeWhole_content calm.mounted calm.ready named (logLimit_content b ▸ small) stored
  rw [if_pos rfl] at content
  refine ⟨⟨mounted,only.ready⟩,only.target named kind content,content,?_⟩
  unfold storeWhole at stored
  split at stored
  · rcases made : diskfsWrite st.disk path bytes with ⟨disk,ok⟩
    rw [made] at stored
    cases stored
    rfl
  · split at stored
    · cases stored
    · cases stored
      rfl

/-- A path that shows can be written in its back end. -/
theorem Target.stores (target : Target st path b) (calm : Calm st) (named : PathName path) (valid : validName path = true)
    (program : programIndex path = none) (small : bytes.length ≤ logLimit b) :
    ∃ st', storeWhole st b path bytes = (st',true) := by
  rcases target.cases with rfl | rfl
  · have shown := target_ram.mp target
    unfold ramfsData at shown
    rw [program] at shown
    obtain ⟨i,found⟩ : ∃ i, ramfsFind st.ram path = some i := by
      rw [← Option.isSome_iff_exists]
      simpa using shown
    unfold storeWhole ramfsWrite
    rw [if_neg (by decide),if_neg (by rw [program]; simpa using named.given),found]
    exact ⟨_,rfl⟩
  · obtain ⟨_,available,some⟩ := target_disk.mp target
    obtain ⟨i,found⟩ := Option.isSome_iff_exists.mp some
    have given : admitted st.disk path bytes = Option.some (st.disk,i) := by
      unfold admitted claimEntry
      rw [available,valid,found]
      exact if_neg (by simpa [logLimit] using small)
    obtain ⟨disk,_,result⟩ := diskfsWrite_transfers given
    rw [calm.ready,reached_nil,decide_eq_true rfl] at result
    unfold storeWhole
    rw [if_pos rfl,result]
    exact ⟨_,rfl⟩

end Targets

section Descriptors
variable {st : Store} {fds : FdTable} {i : Nat}

theorem vfsRead_slot (bound : i < vfsFdMax) (n : Nat) : vfsRead st fds i n =
    ((readSlot st (fds i) n).1,Function.update fds i (readSlot st (fds i) n).2.1,(readSlot st (fds i) n).2.2) := by
  unfold vfsRead
  rw [if_neg (by omega),Int.toNat_natCast]

theorem vfsWrite_slot (bound : i < vfsFdMax) (bytes : List Byte) : vfsWrite st fds i bytes =
    ((writeSlot st (fds i) bytes).1,Function.update fds i (writeSlot st (fds i) bytes).2.1,(writeSlot st (fds i) bytes).2.2) := by
  unfold vfsWrite
  rw [if_neg (by omega),Int.toNat_natCast]

/-- Behind a close there is a descriptor for the next open. -/
theorem vfsClose_free (bound : i < vfsFdMax) : freeFd (vfsClose fds i).1 ≠ none := by
  intro none
  have used := find_range_none.mp none i bound
  unfold vfsClose at used
  rw [if_neg (by omega),Int.toNat_natCast] at used
  dsimp only at used
  rw [Function.update_self] at used
  cases used

end Descriptors

/-- The entry of the disk that shows next, once the file that shows is gone. -/
def hiddenEntry (st : Store) (path : List Byte) : Option Nat :=
  if (ramfsData st.ram path).isSome then diskfsFind st.disk.entries path
  else (List.range diskfsMaxFiles).find? fun j =>
    holds st.disk.entries path j && decide (diskfsFind st.disk.entries path ≠ some j)

/-- Another file of the path, that is not empty, is on the disk behind the one that shows. -/
def Hidden (st : Store) (path : List Byte) : Prop :=
  st.disk.available = true ∧ ∃ j, hiddenEntry st path = some j ∧ (st.disk.entries j).size ≠ 0

/-- The store behind the removal of the file that shows in back end `b`. -/
structure Emptied (st : Store) (path : List Byte) (b : Nat) (st' : Store) : Prop where
  calm : Calm st'
  heap : st'.heap = st.heap
  memory : ramfsData st'.ram path = none
  available : st'.disk.available = st.disk.available
  next : diskfsFind st'.disk.entries path = hiddenEntry st path
  kept : ∀ j, hiddenEntry st path = some j → st'.disk.entries j = st.disk.entries j
  room : b = backendRamfs ∧ Room st'.ram ∨
    b = backendDiskfs ∧ st'.disk.available = true ∧ freeEntry st'.disk.entries ≠ none

section Removal
variable {st : Store} {src path : List Byte} {b : Nat}

theorem removed_find {d : DiskFs} {i : Nat} (named : PathName path) (found : diskfsFind d.entries path = some i) :
    diskfsFind (removed d i).entries path =
      (List.range diskfsMaxFiles).find? fun j => holds d.entries path j && decide (diskfsFind d.entries path ≠ some j) := by
  unfold diskfsFind at found ⊢
  rw [found]
  congr 1
  funext j
  by_cases own : j = i
  · subst own
    have blank : (removed d j).entries j = blankEntry := Function.update_self _ _ _
    rw [unnamed_holds (by rw [blank]; rfl)]
    simp
  · have still : (removed d i).entries j = d.entries j := Function.update_of_ne own _ _
    rw [holds_eq _ named.clean.short,holds_eq _ named.clean.short,still]
    have other : ¬(i = j) := fun same => own same.symm
    simp [other]

theorem vfsRemove_emptied (calm : Calm st) (ordered : Ordered st.ram) (target : Target st path b) (program : programIndex path = none)
    (normal : pathNormalize src = some path) : ∃ st', vfsRemove st src = (st',true) ∧ Emptied st path b st' := by
  have named := pathName_normal normal
  unfold vfsRemove
  rw [normal]
  dsimp only
  rcases target.cases with rfl | rfl
  · have shown := target_ram.mp target
    have find : (ramfsFind st.ram path).isSome = true := by
      unfold ramfsData at shown
      rw [program] at shown
      simpa using shown
    obtain ⟨i,found⟩ := Option.isSome_iff_exists.mp find
    obtain ⟨ram,gone⟩ : ∃ ram, ramfsRemove st.ram path = some ram := by
      unfold ramfsRemove
      rw [program,found]
      exact ⟨_,rfl⟩
    rw [if_pos shown,gone]
    have entry : hiddenEntry st path = diskfsFind st.disk.entries path := if_pos shown
    refine ⟨_,rfl,⟨calm.mounted,calm.ready⟩,rfl,?_,rfl,entry.symm,fun _ _ => rfl,.inl ⟨rfl,?_⟩⟩
    · unfold ramfsData
      rw [program,ordered.gone gone]
      rfl
    · obtain ⟨_,_,_,count,_⟩ := ramfsRemove_source gone
      have bound := (ramfsFind_some.mp found).1
      have few := ordered.few
      unfold Room
      dsimp only
      omega
  · obtain ⟨missing,available,some⟩ := target_disk.mp target
    obtain ⟨i,found⟩ := Option.isSome_iff_exists.mp some
    have there : (diskfsAvailable st.disk && diskfsExists st.disk path) = true := by
      unfold diskfsAvailable diskfsExists
      rw [available,some]
      rfl
    have result := diskfsRemove_transfers available found
    rw [calm.ready,reached_nil,decide_eq_true rfl] at result
    rw [if_neg (by rw [missing]; decide),if_pos there,result]
    have entry : hiddenEntry st path = (List.range diskfsMaxFiles).find? fun j =>
        holds st.disk.entries path j && decide (diskfsFind st.disk.entries path ≠ Option.some j) :=
      if_neg (by rw [missing]; decide)
    have mounted := @diskfsRemove_mounted st.disk _ path true calm.mounted result
    refine ⟨_,rfl,⟨mounted,performs_ready calm.ready _⟩,rfl,missing,rfl,?_,fun j hidden => ?_,.inr ⟨rfl,available,?_⟩⟩
    · exact (removed_find named found).trans entry.symm
    · rw [entry] at hidden
      have other := (find_range.mp hidden).2.1
      rw [Bool.and_eq_true,decide_eq_true_eq,found] at other
      exact Function.update_of_ne (fun same => other.2 (congrArg Option.some same.symm)) _ _
    · intro full
      have taken := find_range_none.mp full i (find_range.mp found).1
      have blank : (removed st.disk i).entries i = blankEntry := Function.update_self _ _ _
      dsimp only at taken
      rw [blank] at taken
      cases taken

end Removal

section Opening
variable {st st' : Store} {fds : FdTable} {src path bytes : List Byte} {b n : Nat}

theorem vfsStatPath_target (target : Target st path b) (normal : pathNormalize src = some path) :
    vfsStatPath st src = some ⟨fileSize st b path,b,0⟩ := by
  unfold vfsStatPath fileSize
  rw [normal]
  dsimp only
  rcases target.cases with rfl | rfl
  · rw [if_pos (target_ram.mp target),if_neg (by decide)]
  · obtain ⟨missing,available,found⟩ := target_disk.mp target
    unfold diskfsAvailable diskfsExists
    rw [missing,available,found]
    rfl

theorem vfsOpen_target (target : Target st path b) (normal : pathNormalize src = some path) (free : freeFd fds ≠ none)
    (flags : Nat) : ∃ i, i < vfsFdMax ∧ vfsOpen st fds src flags = (st,Function.update fds i
      ⟨true,b,flags,if flagged flags vfsFAppend then fileSize st b path else 0,path⟩,some i) := by
  obtain ⟨i,slot⟩ := Option.ne_none_iff_exists'.mp free
  refine ⟨i,(find_range.mp slot).1,?_⟩
  unfold vfsOpen openSlot
  rw [normal]
  dsimp only
  rw [target.backend,if_neg fun both => target.present both.1,if_neg target.present]
  dsimp only
  rw [if_neg target.present,slot]

/-- A new file goes to the disk where it has an entry, and to memory otherwise. -/
theorem createFile_whole (calm : Calm st) (named : PathName path) (valid : validName path = true)
    (absent : backendFor st path = backendNone)
    (room : Room st.ram ∨ st.disk.available = true ∧ freeEntry st.disk.entries ≠ none) :
    ∃ st' b, createFile st path = (st',b) ∧ storeWhole st b path [] = (st',true) ∧ (b = backendRamfs ∨ b = backendDiskfs) ∧
      (st.disk.available = true ∧ freeEntry st.disk.entries ≠ none → b = backendDiskfs) := by
  obtain ⟨missing,gone⟩ := backendFor_absent.mp absent
  unfold createFile storeWhole
  rw [diskfsWrite_skipped]
  by_cases free : st.disk.available = true ∧ freeEntry st.disk.entries ≠ none
  · obtain ⟨i,entry⟩ := Option.ne_none_iff_exists'.mp free.2
    obtain ⟨d,ok,written,result,_⟩ := diskfsWrite_taken gone ⟨free.1,valid,entry⟩
    have whole : ¬Breaks st.disk i := by
      unfold Breaks
      rw [calm.ready,reached_nil]
      exact Nat.lt_irrefl _
    rw [written,result.mpr whole]
    exact ⟨_,backendDiskfs,rfl,rfl,.inr rfl,fun _ => rfl⟩
  · obtain ⟨ram,stored,_⟩ := ramfsWrite_room missing named.given (room.resolve_right free)
    have untaken : ¬∃ i, Takes st.disk path i := by
      rintro ⟨i,available,_,entry⟩
      exact free ⟨available,by rw [entry]; exact Option.some_ne_none i⟩
    rw [diskfsWrite_untaken gone untaken]
    dsimp only
    rw [if_neg Bool.false_ne_true,stored]
    refine ⟨_,backendRamfs,rfl,?_,.inl rfl,fun both => absurd both free⟩
    rw [if_neg (by decide)]

/-- Opening the path again gives a new file, or the hidden one as it is. -/
theorem vfsOpen_emptied (emptied : Emptied st path b st') (normal : pathNormalize src = some path) (valid : validName path = true)
    (free : freeFd fds ≠ none) : ∃ st₂ b₂ i, i < vfsFdMax ∧
      vfsOpen st' fds src vfsFWrite = (st₂,Function.update fds i ⟨true,b₂,vfsFWrite,0,path⟩,some i) ∧ Calm st₂ ∧
        st₂.heap = st.heap ∧ Target st₂ path b₂ ∧ (b = backendDiskfs → b₂ = backendDiskfs) ∧
          (fileSize st₂ b₂ path ≠ 0 ↔ Hidden st path) := by
  have named := pathName_normal normal
  by_cases up : st.disk.available = true ∧ (hiddenEntry st path).isSome = true
  · obtain ⟨j,hidden⟩ := Option.isSome_iff_exists.mp up.2
    have target : Target st' path backendDiskfs :=
      target_disk.mpr ⟨emptied.memory,emptied.available.trans up.1,by rw [emptied.next]; exact up.2⟩
    obtain ⟨i,bound,opened⟩ := vfsOpen_target target normal free vfsFWrite
    refine ⟨st',_,i,bound,opened,emptied.calm,emptied.heap,target,fun _ => rfl,?_⟩
    have size : fileSize st' backendDiskfs path = (st.disk.entries j).size := by
      unfold fileSize diskfsSize
      rw [if_pos rfl,emptied.next,hidden]
      dsimp only
      rw [emptied.kept j hidden]
    unfold Hidden
    rw [size,hidden]
    exact ⟨fun large => ⟨up.1,j,rfl,large⟩,fun ⟨_,_,same,large⟩ => Option.some_inj.mp same ▸ large⟩
  · have absent : backendFor st' path = backendNone := by
      refine backendFor_absent.mpr ⟨emptied.memory,fun there => up ?_⟩
      unfold diskfsAvailable diskfsExists at there
      rw [Bool.and_eq_true,Bool.and_eq_true,emptied.available,emptied.next] at there
      exact ⟨there.1,there.2.2⟩
    obtain ⟨st₂,b₂,made,stored,kind,disk⟩ := createFile_whole emptied.calm named valid absent
      (emptied.room.imp And.right And.right)
    obtain ⟨calm,target,content,heap⟩ := storeWhole_shown emptied.calm named (Nat.zero_le _)
      (kind.imp_right fun isDisk => ⟨isDisk,emptied.memory⟩) stored
    obtain ⟨i,slot⟩ := Option.ne_none_iff_exists'.mp free
    refine ⟨st₂,b₂,i,(find_range.mp slot).1,?_,calm,heap.trans emptied.heap,target,fun isDisk => disk ?_,?_⟩
    · unfold vfsOpen openSlot
      rw [normal]
      dsimp only
      rw [if_neg (by rw [absent]; decide),if_pos absent,made]
      dsimp only
      rw [if_neg target.present,slot]
      rfl
    · subst isDisk
      exact (emptied.room.resolve_left fun memory => absurd memory.1 (by decide)).2
    · rw [fileSize_content calm.ready content]
      refine ⟨fun some => absurd rfl some,fun hidden => absurd ⟨hidden.1,?_⟩ up⟩
      obtain ⟨_,j,entry,_⟩ := hidden
      rw [entry]
      rfl

/-- A file that is within the limit of its back end has a content. -/
theorem Target.content (target : Target st path b) (calm : Calm st) (small : fileSize st b path ≤ logLimit b) :
    ∃ h, fileContent st (onDisk b) path = some h ∧ h.length = fileSize st b path := by
  rcases target.cases with rfl | rfl
  · obtain ⟨data,found⟩ := Option.isSome_iff_exists.mp (target_ram.mp target)
    refine ⟨(List.range (ramfsSize st.ram path)).map data,congrArg (Option.map _) found,?_⟩
    rw [List.length_map,List.length_range]
    rfl
  · obtain ⟨_,available,some⟩ := target_disk.mp target
    obtain ⟨j,found⟩ := Option.isSome_iff_exists.mp some
    have size : fileSize st backendDiskfs path = (st.disk.entries j).size := by
      unfold fileSize diskfsSize
      rw [if_pos rfl,found]
    rw [size] at small ⊢
    have read : diskContent st.disk path = Option.some ((List.range (st.disk.entries j).size).map fun k =>
        st.disk.disk.sectors ((st.disk.entries j).startLba + k / ataSectorSize) (k % ataSectorSize)) := by
      unfold diskContent diskfsRead
      rw [available,found]
      dsimp only
      rw [if_neg (show ¬(!true) = true by decide),if_neg (show ¬diskfsMaxFileSize < _ from Nat.not_lt.mpr small)]
      exact readData_bytes calm.ready _ _ _ (by unfold ataSectorSize; omega)
    exact ⟨_,read,by rw [List.length_map,List.length_range]⟩

end Opening

section Transfer
variable {st st' : Store} {path bytes line : List Byte} {b n : Nat}

theorem logLimit_io (b : Nat) : 256 ≤ logLimit b ∧ logLimit b ≤ vfsIoMax := by
  unfold logLimit
  split
  · decide
  · decide

/-- A read changes nothing but the heap, which it asks for one buffer. -/
theorem readSlot_heap (calm : Calm st) (granted : serves (n + 1) st.heap = true) (f : ProcessFd) (length : Nat) :
    ∃ heap, (readSlot st f length).1 = {st with heap} ∧ serves n heap = true := by
  have still : ∃ heap, st = {st with heap} ∧ serves n heap = true := ⟨st.heap,rfl,serves_fewer granted⟩
  unfold readSlot
  split
  · exact still
  dsimp only
  split
  · exact still
  split
  · obtain ⟨heap,base,given,later⟩ := serves_buffer.mp granted vfsIoMax (.inr rfl)
    have same := (diskfsRead_file calm.ready f.path vfsIoMax).1
    rw [given]
    dsimp only
    rcases read : diskfsRead st.disk f.path vfsIoMax with ⟨disk,_ | found⟩
    · rw [read] at same
      obtain rfl : disk = st.disk := congrArg Prod.fst same
      exact ⟨_,rfl,later⟩
    · rw [read] at same
      obtain rfl : disk = st.disk := congrArg Prod.fst same
      exact ⟨_,rfl,later⟩
  · split
    · exact still
    · exact still

/-- The whole file in one read. -/
theorem readSlot_whole (calm : Calm st) (granted : serves (n + 1) st.heap = true) (small : bytes.length ≤ logLimit b)
    (content : fileContent st (onDisk b) path = some bytes) : ∃ heap f,
      readSlot st ⟨true,b,vfsFRead,0,path⟩ bytes.length = ({st with heap},f,some bytes) ∧ serves n heap = true := by
  obtain ⟨heap,store,later⟩ := readSlot_heap calm granted ⟨true,b,vfsFRead,0,path⟩ bytes.length
  obtain ⟨_,_,given,_⟩ := serves_buffer.mp granted vfsIoMax (.inr rfl)
  have read := @readSlot_content st ⟨true,b,vfsFRead,0,path⟩ (onDisk b) path bytes bytes.length ⟨rfl,rfl,rfl⟩
    (show flagged vfsFRead vfsFRead = true by decide) content calm.ready (fun _ => by rw [given]; rfl) (small.trans (logLimit_io b).2)
  dsimp only at read
  rw [List.drop_zero,List.take_length] at read
  exact ⟨heap,_,Prod.ext store read,later⟩

/-- A write from the start through a descriptor that is open for writing. -/
theorem writeSlot_whole (small : bytes.length ≤ vfsIoMax) (stored : storeWhole st b path bytes = (st',true)) :
    ∃ f, writeSlot st ⟨true,b,vfsFWrite,0,path⟩ bytes = (st',f,some bytes.length) := by
  have usable : ¬(true = false ∨ bytes.length > vfsIoMax ∨ flagged vfsFWrite vfsFWrite = false) := by
    rw [not_or,not_or]
    exact ⟨by decide,Nat.not_lt.mpr small,by decide⟩
  have whole : ¬flagged vfsFWrite vfsFAppend = true := by decide
  unfold writeSlot
  rw [if_neg usable,if_neg (fun both => both.1 rfl),if_neg whole,stored]
  exact ⟨_,rfl⟩

/-- An append that fits into a file of the path. -/
theorem writeSlot_fits (target : Target st path b) (calm : Calm st) (granted : serves 1 st.heap = true) (named : PathName path)
    (valid : validName path = true) (program : programIndex path = none) (content : fileContent st (onDisk b) path = some bytes)
    (fits : bytes.length + line.length ≤ logLimit b) (offset : Nat) :
    ∃ st' f, writeSlot st ⟨true,b,vfsFWrite + vfsFAppend,offset,path⟩ line = (st',f,some line.length) := by
  have bounds := logLimit_io b
  have usable : ¬(true = false ∨ line.length > vfsIoMax ∨ flagged (vfsFWrite + vfsFAppend) vfsFWrite = false) := by
    rw [not_or,not_or]
    exact ⟨by decide,by omega,by decide⟩
  have append : flagged (vfsFWrite + vfsFAppend) vfsFAppend = true := by decide
  have maximum : (if b = backendDiskfs then diskfsMaxFileSize else 256) = logLimit b := rfl
  have buffer : logLimit b = 256 ∨ logLimit b = vfsIoMax := by
    unfold logLimit
    split
    · exact .inr rfl
    · exact .inl rfl
  obtain ⟨heap,base,given,_⟩ := serves_buffer.mp granted (logLimit b) buffer
  have copy := @oldContent_content {st with heap} bytes ⟨true,b,vfsFWrite + vfsFAppend,offset,path⟩ calm.ready content
  dsimp only at copy
  rw [maximum] at copy
  rcases copied : oldContent {st with heap} ⟨true,b,vfsFWrite + vfsFAppend,offset,path⟩ bytes.length (logLimit b) with ⟨st₁,old⟩
  obtain ⟨ram,disk⟩ := @oldContent_same {st with heap} _ _ _ _ _ calm.ready copied
  rw [copied] at copy
  dsimp only at copy ram disk
  subst copy
  have calm₁ : Calm st₁ := by
    obtain ⟨mounted,ready⟩ := calm
    exact ⟨by rw [disk]; exact mounted,by rw [disk]; exact ready⟩
  have target₁ : Target st₁ path b := by
    refine ⟨?_,target.present⟩
    rw [← target.backend]
    unfold backendFor
    rw [ram,disk]
  obtain ⟨st₂,stored⟩ := target₁.stores calm₁ named valid program
    (show (bytes ++ line).length ≤ logLimit b by rw [List.length_append]; exact fits)
  unfold writeSlot appendSlot
  dsimp only
  rw [if_neg usable,if_neg (by rw [append]; simp),if_pos append,fileSize_content calm.ready content,maximum,
    if_neg (by omega),given]
  dsimp only
  rw [copied]
  dsimp only
  rw [stored]
  exact ⟨_,_,rfl⟩

end Transfer

theorem klog_normal : pathNormalize klogFilePath = some klogName := by decide +kernel
theorem klog_named : PathName klogName := pathName_normal klog_normal
theorem klog_valid : validName klogName = true := by decide +kernel
theorem klog_program : programIndex klogName = none := by decide +kernel

/-- The log shows in a back end with this content. -/
structure Logged (st : Store) (b : Nat) (bytes : List Byte) : Prop where
  target : Target st klogName b
  content : fileContent st (onDisk b) klogName = some bytes
  small : bytes.length ≤ logLimit b

/-- A rotation that keeps nothing brings up an older file. -/
def Resurfaces (st : Store) (b : Nat) (bytes : List Byte) (length : Nat) : Prop :=
  logLimit b < bytes.length + length ∧ Recent (logLimit b - 128) bytes [] ∧ Hidden st klogName

section Rotation
variable {st : Store} {fds : FdTable} {bytes line : List Byte} {b n : Nat}

/-- What a rotation leaves, with what it kept of the old content. -/
structure Rotated (st : Store) (bytes : List Byte) (b n : Nat) (result : Store × FdTable × Bool) : Prop where
  free : freeFd result.2.1 ≠ none
  calm : Calm result.1
  granted : serves 1 result.1.heap = true
  whole : ¬(bytes = [] ∧ Hidden st klogName) → result.2.2 = true ∧ ∃ b', Logged result.1 b' bytes ∧ bytes.length + n ≤ logLimit b'
  stale : bytes = [] → Hidden st klogName → result.2.2 = true →
    ∃ b' old, Logged result.1 b' old ∧ old ≠ [] ∧ old.length + n ≤ logLimit b'

theorem rotateLogFile_rotated (calm : Calm st) (ordered : Ordered st.ram) (granted : serves 2 st.heap = true) (free : freeFd fds ≠ none)
    (logged : Logged st b bytes) (short : n < 128) (full : logLimit b < bytes.length + n) :
    Rotated st (bytes.drop (cutStart bytes (logLimit b))) b n (rotateLogFile st fds ⟨bytes.length,b,0⟩ n) := by
  have bounds := logLimit_io b
  obtain ⟨target,content,small⟩ := logged
  have recent := @cut_recent (logLimit b) bytes (by omega) (by omega)
  obtain ⟨i,bound,opened⟩ := vfsOpen_target target klog_normal free vfsFRead
  obtain ⟨heap,f,read,granted₁⟩ := readSlot_whole calm granted small content
  obtain ⟨st₁,removed,emptied⟩ := @vfsRemove_emptied {st with heap} klogFilePath klogName b ⟨calm.mounted,calm.ready⟩ ordered
    ⟨target.backend,target.present⟩ klog_program klog_normal
  have free₁ := @vfsClose_free (Function.update (Function.update fds i ⟨true,b,vfsFRead,0,klogName⟩) i f) i bound
  obtain ⟨st₂,b₂,k,inside,reopened,calm₂,heap₂,target₂,disk,hidden⟩ := vfsOpen_emptied emptied klog_normal klog_valid free₁
  unfold rotateLogFile
  rw [opened]
  dsimp only
  rw [if_pos (by omega),vfsRead_slot bound,Function.update_self,show flagged vfsFRead vfsFAppend = false from by decide,
    if_neg Bool.false_ne_true,read]
  dsimp only
  rw [removed]
  dsimp only
  rw [reopened]
  dsimp only
  generalize bytes.drop (cutStart bytes (logLimit b)) = kept at recent ⊢
  have wider : logLimit b ≤ logLimit b₂ := by
    rcases target.cases with rfl | rfl
    · exact (logLimit_io b₂).1
    · rw [disk rfl]
  by_cases empty : kept = []
  · subst empty
    rw [if_neg (fun differs => differs rfl),if_neg (fun differs => differs rfl),vfsStatPath_target target₂ klog_normal]
    dsimp only
    refine ⟨vfsClose_free inside,calm₂,by rw [heap₂]; exact granted₁,fun fine => ?_,fun _ stale fits => ?_⟩
    · have none : fileSize st₂ b₂ klogName = 0 := by
        by_contra some
        exact fine ⟨rfl,hidden.mp some⟩
      obtain ⟨old,content',length⟩ := target₂.content calm₂ (by rw [none]; exact Nat.zero_le _)
      rw [none,List.length_eq_zero_iff] at length
      subst length
      rw [none,decide_eq_true_iff,List.length_nil]
      exact ⟨by omega,b₂,⟨target₂,content',Nat.zero_le _⟩,by omega⟩
    · rw [decide_eq_true_iff] at fits
      obtain ⟨old,content',length⟩ := target₂.content calm₂ (by omega)
      refine ⟨b₂,old,⟨target₂,content',by omega⟩,?_,by omega⟩
      rintro rfl
      exact hidden.mpr stale length.symm
  · have room : kept.length ≤ logLimit b₂ := by
      have less := recent.short
      omega
    obtain ⟨st₃,stored⟩ := target₂.stores calm₂ klog_named klog_valid klog_program room
    obtain ⟨g,written⟩ := writeSlot_whole (room.trans (logLimit_io b₂).2) stored
    obtain ⟨calm₃,target₃,content',heap₃⟩ := storeWhole_shown calm₂ klog_named room target₂.kind stored
    rw [if_pos empty,vfsWrite_slot inside,Function.update_self,written]
    dsimp only
    rw [if_neg (fun differs => differs rfl),vfsStatPath_target target₃ klog_normal]
    dsimp only
    have fits : kept.length + n ≤ logLimit b₂ := by
      have less := recent.short
      omega
    refine ⟨vfsClose_free inside,calm₃,by rw [heap₃,heap₂]; exact granted₁,fun _ => ?_,fun none => absurd none empty⟩
    rw [fileSize_content calm₃.ready content',decide_eq_true_iff]
    exact ⟨fits,b₂,⟨target₃,content',room⟩,fits⟩

/-- The last part of an append, for a line that fits. -/
theorem append_logged (calm : Calm st) (granted : serves 1 st.heap = true) (free : freeFd fds ≠ none) (logged : Logged st b bytes)
    (fits : bytes.length + line.length ≤ logLimit b) : ∃ st₁ fds₁ i st₂ fds₂,
      vfsOpen st fds klogFilePath (vfsFWrite + vfsFAppend) = (st₁,fds₁,some i) ∧
        vfsWrite st₁ fds₁ i line = (st₂,fds₂,some line.length) ∧ Logged st₂ b (bytes ++ line) := by
  obtain ⟨target,content,small⟩ := logged
  obtain ⟨i,bound,opened⟩ := vfsOpen_target target klog_normal free (vfsFWrite + vfsFAppend)
  rw [if_pos (show flagged (vfsFWrite + vfsFAppend) vfsFAppend = true by decide)] at opened
  obtain ⟨st₂,f,written⟩ := writeSlot_fits target calm granted klog_named klog_valid klog_program content fits
    (fileSize st b klogName)
  have only := writeSlot_only calm.mounted calm.ready (fun _ => klog_named) written
  have kept : ¬Truncates ⟨true,b,vfsFWrite + vfsFAppend,fileSize st b klogName,klogName⟩ :=
    fun whole => absurd whole.2.1 (show ¬flagged (vfsFWrite + vfsFAppend) vfsFAppend = false by decide)
  have grown := writeSlot_content calm.mounted calm.ready klog_named kept content written
  rw [Option.isSome_some,if_pos rfl] at grown
  have call := @vfsWrite_slot st
    (Function.update fds i ⟨true,b,vfsFWrite + vfsFAppend,fileSize st b klogName,klogName⟩) i bound line
  rw [Function.update_self,written] at call
  exact ⟨st,_,i,st₂,_,opened,call,only.target klog_named target.kind grown,grown,by rw [List.length_append]; exact fits⟩

/-- What an append has to leave of the log: as much of the old content as the limit allows, and
then the line. -/
def AppendsLine (b : Nat) (bytes line : List Byte) (result : Store × FdTable × Bool) : Prop :=
  result.2.2 = true ∧ ∃ kept b', Logged result.1 b' (kept ++ line) ∧
    (bytes.length + line.length ≤ logLimit b → kept = bytes) ∧
      (logLimit b < bytes.length + line.length → Recent (logLimit b - 128) bytes kept)

theorem Logged.same {b' : Nat} {other : List Byte} (logged : Logged st b bytes) (again : Logged st b' other) :
    bytes = other := by
  obtain rfl : b = b' := logged.target.backend.symm.trans again.target.backend
  exact Option.some_inj.mp (logged.content.symm.trans again.content)

theorem appendLogFileLocked_appends (calm : Calm st) (ordered : Ordered st.ram) (granted : serves 2 st.heap = true)
    (free : freeFd fds ≠ none) (logged : Logged st b bytes) (given : 0 < line.length) (short : line.length < 128) :
    AppendsLine b bytes line (appendLogFileLocked st fds line) ↔ ¬Resurfaces st b bytes line.length := by
  have bounds := logLimit_io b
  have shown := vfsStatPath_target logged.target klog_normal
  rw [fileSize_content calm.ready logged.content] at shown
  unfold appendLogFileLocked ensureLogFile
  rw [if_neg (List.ne_nil_of_length_pos given),shown]
  dsimp only
  rw [if_neg (by omega)]
  by_cases full : bytes.length + line.length > logLimit b
  · have rotated := rotateLogFile_rotated calm ordered granted free logged short full
    have recent := @cut_recent (logLimit b) bytes (by omega) (by omega)
    generalize bytes.drop (cutStart bytes (logLimit b)) = kept at rotated recent
    rw [if_pos full]
    generalize rotateLogFile st fds ⟨bytes.length,b,0⟩ line.length = result at rotated ⊢
    obtain ⟨st₁,fds₁,fits⟩ := result
    obtain ⟨free₁,calm₁,granted₁,whole,stale⟩ := rotated
    dsimp only at free₁ calm₁ granted₁ whole stale ⊢
    by_cases old : kept = [] ∧ Hidden st klogName
    · obtain ⟨rfl,hidden⟩ := old
      refine iff_of_false (fun appended => ?_) (not_not.mpr ⟨full,recent,hidden⟩)
      cases fits with
      | false => exact Bool.false_ne_true appended.1
      | true =>
        obtain ⟨b',content,logged₁,some,fits⟩ := stale rfl hidden rfl
        obtain ⟨st₂,fds₂,i,st₃,fds₃,opened,written,logged₃⟩ := append_logged calm₁ granted₁ free₁ logged₁ fits
        rw [if_neg (by decide),opened] at appended
        dsimp only at appended
        rw [written] at appended
        obtain ⟨_,kept,b'',again,_,rule⟩ := appended
        have empty := (rule full).unique recent
        subst empty
        exact some (List.append_cancel_right (logged₃.same again))
    · obtain ⟨rfl,b',logged₁,fits⟩ := whole old
      obtain ⟨st₂,fds₂,i,st₃,fds₃,opened,written,logged₃⟩ := append_logged calm₁ granted₁ free₁ logged₁ fits
      rw [if_neg (by decide),opened]
      dsimp only
      rw [written]
      refine iff_of_true ⟨decide_eq_true rfl,kept,b',logged₃,fun fits => ?_,fun _ => recent⟩ fun resurfaces => ?_
      · exact absurd fits (Nat.not_le.mpr full)
      · exact old ⟨recent.unique resurfaces.2.1,resurfaces.2.2⟩
  · obtain ⟨st₂,fds₂,i,st₃,fds₃,opened,written,logged₃⟩ := append_logged calm (serves_fewer granted) free logged
      (show bytes.length + line.length ≤ logLimit b by omega)
    rw [if_neg full]
    dsimp only
    rw [if_neg (by decide),opened]
    dsimp only
    rw [written]
    exact iff_of_true ⟨decide_eq_true rfl,bytes,b,logged₃,fun _ => rfl,fun large => absurd large full⟩
      fun resurfaces => full resurfaces.1

/-- The content of a file is within the limit of its back end. -/
theorem target_logged (ready : st.disk.disk.faults = []) (ordered : Ordered st.ram) (target : Target st klogName b)
    (content : fileContent st (onDisk b) klogName = some bytes) : Logged st b bytes := by
  refine ⟨target,content,?_⟩
  have size := fileSize_content ready content
  rcases target.cases with rfl | rfl
  · have shown := target_ram.mp target
    unfold ramfsData at shown
    rw [klog_program] at shown
    obtain ⟨i,found⟩ : ∃ i, ramfsFind st.ram klogName = some i := by
      rw [← Option.isSome_iff_exists]
      simpa using shown
    unfold fileSize ramfsSize at size
    rw [if_neg (by decide),klog_program,found] at size
    dsimp only at size
    rw [← size]
    exact ordered.small i (ramfsFind_some.mp found).1
  · exact (diskContent_size ready content).2.2

end Rotation

/-- In whatever state of a machine without failures: an append to the log leaves the last lines
of it and the new one, unless it keeps nothing and another file of that name comes up. -/
theorem log_rotation (programs : Nat → List Byte) (files : Nat → RamFile) (heap : Heap) (sectors : Disk) (calls : List MachineCall)
    (table b : Nat) (bytes line : List Byte) (m : Machine) (reached : m = run machineStep (started programs files heap sectors) calls)
    (ready : m.store.disk.disk.faults = []) (granted : serves 2 m.store.heap = true) (free : freeFd (m.tables table) ≠ none)
    (target : Target m.store klogName b) (content : fileContent m.store (onDisk b) klogName = some bytes)
    (given : 0 < line.length) (short : line.length < klogLineCapacity) :
    AppendsLine b bytes line (appendLogFileLocked m.store (m.tables table) line) ↔ ¬Resurfaces m.store b bytes line.length := by
  have settled : Settled m := reached ▸ run_settled programs files heap sectors calls
  exact appendLogFileLocked_appends ⟨settled.sane.mounted,ready⟩ settled.ordered granted free
    (target_logged ready settled.ordered target content) given short

def letterLog : Machine := run machineStep (started (fun _ => []) (fun _ => default) bareStore.heap freshDisk)
  [.file 0 (.opened klogFilePath vfsFWrite),.file 0 (.wrote 0 [120])]

theorem letterLog_shape : letterLog.store.disk.disk.faults = [] ∧ serves 2 letterLog.store.heap = true ∧
    freeFd (letterLog.tables 0) ≠ none ∧ backendFor letterLog.store klogName = backendDiskfs ∧
      fileContent letterLog.store (onDisk backendDiskfs) klogName = some [120] := by decide +kernel

theorem log_rotation_letter :
    AppendsLine backendDiskfs [120] [newline] (appendLogFileLocked letterLog.store (letterLog.tables 0) [newline]) := by
  obtain ⟨ready,granted,free,backend,content⟩ := letterLog_shape
  exact (log_rotation (fun _ => []) (fun _ => default) bareStore.heap freshDisk _ 0 backendDiskfs [120] [newline] letterLog
    rfl ready granted free ⟨backend,by decide⟩ content (by decide) (by decide)).mpr
      fun resurfaces => absurd resurfaces.1 (by decide)

def filler : List Byte := List.replicate 256 97

/-- The first transfer of a new log fails, and it is made in memory; once it is removed, its entry
on the disk shows and is written; and a descriptor from before writes the log in memory again. -/
def coveredLog : Machine := run machineStep (started (fun _ => []) (fun _ => default) bareStore.heap failingDisk)
  [.file 0 (.opened klogFilePath vfsFWrite),.file 0 (.removed klogFilePath),.file 0 (.opened klogFilePath vfsFWrite),
    .file 0 (.wrote 1 [120]),.file 0 (.wrote 0 filler)]

theorem coveredLog_shape : coveredLog.store.disk.disk.faults = [] ∧ serves 2 coveredLog.store.heap = true ∧
    freeFd (coveredLog.tables 0) ≠ none ∧ backendFor coveredLog.store klogName = backendRamfs ∧
      fileContent coveredLog.store (onDisk backendRamfs) klogName = some filler ∧
        backendFor (appendLogFileLocked coveredLog.store (coveredLog.tables 0) [newline]).1 klogName = backendDiskfs ∧
          fileContent (appendLogFileLocked coveredLog.store (coveredLog.tables 0) [newline]).1 true klogName =
            some [120,newline] := by decide +kernel

/-- Without a newline in the log the rotation keeps nothing, and the line goes behind the byte on
the disk. -/
theorem covered_log_resurfaces : coveredLog.store.disk.disk.faults = [] ∧ serves 2 coveredLog.store.heap = true ∧
    freeFd (coveredLog.tables 0) ≠ none ∧ Target coveredLog.store klogName backendRamfs ∧
      fileContent coveredLog.store (onDisk backendRamfs) klogName = some filler ∧
        ¬AppendsLine backendRamfs filler [newline]
          (appendLogFileLocked coveredLog.store (coveredLog.tables 0) [newline]) := by
  obtain ⟨ready,granted,free,target,old,backend,content⟩ := coveredLog_shape
  refine ⟨ready,granted,free,⟨target,by decide⟩,old,?_⟩
  intro ⟨_,kept,b',logged,_,rule⟩
  obtain rfl : b' = backendDiskfs := logged.target.backend.symm.trans backend
  have bytes : kept ++ [newline] = [120] ++ [newline] := Option.some_inj.mp (logged.content.symm.trans content)
  have left := List.append_cancel_right bytes
  subst left
  have full : logLimit backendRamfs < filler.length + [newline].length := by
    rw [filler,List.length_replicate]
    decide
  rcases (rule full).lines with empty | ⟨p,whole⟩
  · cases empty
  · have member : newline ∈ filler := by
      rw [whole]
      simp
    exact absurd (List.eq_of_mem_replicate (filler.eq_def ▸ member)) (by decide)

end LionOS.Files

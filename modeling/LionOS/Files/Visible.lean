import LionOS.Files.Rotation

/-! What a path shows: the content that is read under it, where a new file of the path goes, and
what comes up behind a file when it is removed. -/
namespace LionOS.Files
open LionOS.Memory LionOS.Physical LionOS.Processes LionOS.Library

/-- The content of the file that opens under a path. -/
def contentAt (st : Store) (path : List Byte) : Option (List Byte) :=
  if backendFor st path = backendNone then none else fileContent st (onDisk (backendFor st path)) path

instance (r : RamFs) : Decidable (Room r) := inferInstanceAs (Decidable (_ < _))

/-- The back end of a file that is opened for writing. -/
def placeFor (st : Store) (path : List Byte) : Nat :=
  if backendFor st path ≠ backendNone then backendFor st path
  else if st.disk.available = true ∧ validName path = true ∧ freeEntry st.disk.entries ≠ none then backendDiskfs
  else if Room st.ram then backendRamfs
  else backendNone

/-- A back end takes a write of the file: programs and, on the disk, some names are refused. -/
def accepts (b : Nat) (path : List Byte) : Bool :=
  if b = backendDiskfs then validName path else (programIndex path).isNone

section Contents
variable {st st' : Store} {path bytes : List Byte} {b : Nat}

theorem contentAt_target (target : Target st path b) : contentAt st path = fileContent st (onDisk b) path := by
  unfold contentAt
  rw [target.backend,if_neg target.present]

theorem memory_absent (missing : ramfsData st.ram path = none) : fileContent st false path = none := by
  change (ramfsData st.ram path).map _ = none
  rw [missing]
  rfl

theorem disk_absent (gone : ¬(diskfsAvailable st.disk && diskfsExists st.disk path) = true) :
    fileContent st true path = none := by
  change (diskfsRead st.disk path diskfsMaxFileSize).2 = none
  unfold diskfsAvailable diskfsExists at gone
  unfold diskfsRead
  cases available : st.disk.available with
  | false => rfl
  | true =>
    rw [available] at gone
    have missing : diskfsFind st.disk.entries path = none := by simpa using gone
    rw [missing]
    rfl

/-- The file in memory, and otherwise the one on the disk. -/
theorem contentAt_eq : contentAt st path = (fileContent st false path).or (fileContent st true path) := by
  by_cases absent : backendFor st path = backendNone
  · obtain ⟨missing,gone⟩ := backendFor_absent.mp absent
    unfold contentAt
    rw [if_pos absent,memory_absent missing,disk_absent gone]
    rfl
  · have target : Target st path (backendFor st path) := ⟨rfl,absent⟩
    rw [contentAt_target target]
    rcases target.cases with memory | disk
    · rw [memory] at target ⊢
      obtain ⟨data,found⟩ := Option.isSome_iff_exists.mp (target_ram.mp target)
      have content : fileContent st false path = (some data).map fun data =>
          (List.range (ramfsSize st.ram path)).map data := by
        rw [← found]
        rfl
      change fileContent st false path = _
      rw [content]
      rfl
    · rw [disk] at target ⊢
      rw [memory_absent (target_disk.mp target).1]
      rfl

theorem contentAt_same (same : ∀ disk, fileContent st' disk path = fileContent st disk path) :
    contentAt st' path = contentAt st path := by
  rw [contentAt_eq,contentAt_eq,same,same]

end Contents

section Writing
variable {st : Store} {path bytes : List Byte} {b : Nat}

theorem Target.refuses (target : Target st path b) (refused : accepts b path = false) :
    storeWhole st b path bytes = (st,false) := by
  unfold accepts at refused
  unfold storeWhole
  rcases target.cases with rfl | rfl
  · rw [if_neg (by decide)] at refused ⊢
    have program : (programIndex path).isSome = true := by simpa using refused
    unfold ramfsWrite
    rw [if_pos (.inr program)]
  · rw [if_pos rfl] at refused ⊢
    have none : admitted st.disk path bytes = none := by
      unfold admitted
      rw [refused]
      simp
    rw [diskfsWrite_refused none]

/-- The bytes that a back end keeps of what is written. -/
def held (b : Nat) (bytes : List Byte) : List Byte := bytes.take (fileLimit (onDisk b))

theorem held_small (b : Nat) (bytes : List Byte) : (held b bytes).length ≤ logLimit b := by
  rw [logLimit_content]
  exact List.length_take_le _ _

theorem storeWhole_held (st : Store) (path : List Byte) (b : Nat) (small : bytes.length ≤ diskfsMaxFileSize) :
    storeWhole st b path (held b bytes) = storeWhole st b path bytes := by
  unfold storeWhole held fileLimit onDisk
  split
  next disk => rw [if_pos (beq_iff_eq.mpr disk),List.take_of_length_le small]
  next memory =>
    have cut : ∀ r i, storeFile r i (bytes.take ramfsDataMax) = storeFile r i bytes := by
      intro r i
      unfold storeFile
      rw [List.take_take,Nat.min_self]
    rw [if_neg (by simpa using memory)]
    unfold ramfsWrite
    simp only [cut]

theorem Target.stored (target : Target st path b) (calm : Calm st) (named : PathName path)
    (accepted : accepts b path = true) (small : bytes.length ≤ diskfsMaxFileSize) :
    ∃ st', storeWhole st b path bytes = (st',true) ∧ Calm st' ∧ Target st' path b ∧
      Only st st' (onDisk b) path ∧ fileContent st' (onDisk b) path = some (held b bytes) ∧ st'.heap = st.heap := by
  obtain ⟨st',stored⟩ : ∃ st', storeWhole st b path (held b bytes) = (st',true) := by
    unfold accepts at accepted
    rcases target.cases with rfl | rfl
    · rw [if_neg (by decide)] at accepted
      have program : programIndex path = none := by simpa using accepted
      have shown := target_ram.mp target
      unfold ramfsData at shown
      rw [program] at shown
      obtain ⟨i,found⟩ : ∃ i, ramfsFind st.ram path = some i := by
        rw [← Option.isSome_iff_exists]
        simpa using shown
      unfold storeWhole ramfsWrite
      rw [if_neg (by decide),if_neg (by rw [program]; simpa using named.given),found]
      exact ⟨_,rfl⟩
    · rw [if_pos rfl] at accepted
      obtain ⟨_,available,some⟩ := target_disk.mp target
      obtain ⟨i,found⟩ := Option.isSome_iff_exists.mp some
      have fits : (held backendDiskfs bytes).length ≤ diskfsMaxFileSize := List.length_take_le _ _
      have given : admitted st.disk path (held backendDiskfs bytes) = Option.some (st.disk,i) := by
        unfold admitted claimEntry
        rw [available,accepted,found]
        exact if_neg (by simpa using fits)
      obtain ⟨disk,_,result⟩ := diskfsWrite_transfers given
      rw [calm.ready,reached_nil,decide_eq_true rfl] at result
      unfold storeWhole
      rw [if_pos rfl,result]
      exact ⟨_,rfl⟩
  obtain ⟨calm',target',content,heap⟩ := storeWhole_shown calm named (held_small b bytes) target.kind stored
  have only := storeWhole_only calm.mounted calm.ready named stored
  rw [storeWhole_held st path b small] at stored
  exact ⟨st',stored,calm',target',only,content,heap⟩

/-- Opening for writing makes an empty file where there is none and finds a place for it. -/
theorem createFile_place (calm : Calm st) (named : PathName path) (absent : backendFor st path = backendNone) :
    (placeFor st path = backendNone → createFile st path = (st,backendNone)) ∧
      (placeFor st path ≠ backendNone → ∃ st', createFile st path = (st',placeFor st path) ∧
        storeWhole st (placeFor st path) path [] = (st',true)) := by
  obtain ⟨missing,gone⟩ := backendFor_absent.mp absent
  unfold placeFor createFile
  rw [diskfsWrite_skipped,if_neg (not_not_intro absent)]
  by_cases disk : st.disk.available = true ∧ validName path = true ∧ freeEntry st.disk.entries ≠ none
  · obtain ⟨available,valid,free⟩ := disk
    obtain ⟨i,entry⟩ := Option.ne_none_iff_exists'.mp free
    obtain ⟨d,ok,written,result,_⟩ := diskfsWrite_taken gone ⟨available,valid,entry⟩
    have whole : ¬Breaks st.disk i := by
      unfold Breaks
      rw [calm.ready,reached_nil]
      exact Nat.lt_irrefl _
    rw [if_pos ⟨available,valid,free⟩,written,result.mpr whole]
    refine ⟨fun none => absurd none (by decide),fun _ => ⟨_,rfl,?_⟩⟩
    unfold storeWhole
    rw [if_pos rfl,written,result.mpr whole]
  · have untaken : ¬∃ i, Takes st.disk path i := by
      rintro ⟨i,available,valid,entry⟩
      exact disk ⟨available,valid,by rw [entry]; exact Option.some_ne_none i⟩
    rw [if_neg disk,diskfsWrite_untaken gone untaken]
    dsimp only
    rw [if_neg Bool.false_ne_true]
    by_cases room : Room st.ram
    · obtain ⟨ram,stored,_⟩ := ramfsWrite_room missing named.given room
      rw [if_pos room,stored]
      refine ⟨fun none => absurd none (by decide),fun _ => ⟨_,rfl,?_⟩⟩
      unfold storeWhole
      rw [if_neg (by decide),stored]
    · rw [if_neg room,ramfsWrite_full missing room]
      exact ⟨fun _ => rfl,fun some => absurd rfl some⟩

end Writing

section Removal
variable {d : DiskFs} {path dst bytes : List Byte} {i k : Nat}

/-- What a write leaves of the entries of a name and of their extents: only the entry that takes the
bytes changes, and no name does but that of a new file. -/
structure Apart (d d' : DiskFs) (path : List Byte) (i : Nat) : Prop where
  ready : d'.disk.faults = []
  available : d'.available = d.available
  names : ∀ j, holds d'.entries path j = holds d.entries path j
  entries : ∀ j, j ≠ i → d'.entries j = d.entries j
  data : ∀ j s, j ≠ i → s < diskfsSectorsPerFile →
    d'.disk.sectors (diskfsDataLba + j * diskfsSectorsPerFile + s) =
      d.disk.sectors (diskfsDataLba + j * diskfsSectorsPerFile + s)

/-- The entry that a write changes is the file of the name itself or one that has another name. -/
theorem diskfsWrite_apart (first : PathName dst) (second : PathName path) (mounted : Mounted d)
    (ready : d.disk.faults = []) (found : diskfsFind d.entries path = some k) :
    ∃ i, Apart d (diskfsWrite d dst bytes).1 path i ∧ (i = k ∨ holds d.entries path i = false) := by
  cases given : admitted d dst bytes with
  | none =>
    rw [diskfsWrite_refused given]
    exact ⟨k,⟨ready,rfl,fun _ => rfl,fun _ _ => rfl,fun _ _ _ _ => rfl⟩,.inl rfl⟩
  | some claim =>
    obtain ⟨c,i⟩ := claim
    obtain ⟨available,_,_,claimed⟩ := admitted_claimed given
    obtain ⟨bound,_,start,disk,available',others⟩ :=
      claimEntry_found first.clean.short first.given first.clean.text mounted available claimed
    obtain ⟨disk',rfl,result⟩ := diskfsWrite_transfers given
    rw [ready,reached_nil,storeWrites_length,if_neg (by omega)] at result
    rw [result]
    obtain ⟨names,own⟩ : (∀ j, holds c.entries path j = holds d.entries path j) ∧ (i = k ∨ holds d.entries path i = false) := by
      by_cases same : path = dst
      · subst same
        unfold claimEntry at claimed
        rw [found] at claimed
        cases claimed
        exact ⟨fun _ => rfl,.inl rfl⟩
      · obtain ⟨before,after⟩ := claimEntry_other first second same mounted available claimed
        refine ⟨fun j => ?_,.inr before⟩
        by_cases here : j = i
        · rw [here,before,after]
        · rw [holds_eq c.entries second.clean.short,holds_eq d.entries second.clean.short,others j here]
    refine ⟨i,⟨performs_ready ready _,available',fun j => ?_,fun j out => ?_,fun j s out inside => ?_⟩,own⟩
    · rw [← names j,holds_eq _ second.clean.short,holds_eq _ second.clean.short]
      dsimp only
      rw [sized_name]
    · exact (Function.update_of_ne out _ _).trans (others j out)
    · have reach := (performs_reached d.disk (storeWrites c i bytes)).1
      rw [ready,reached_nil] at reach
      dsimp only
      unfold diskfsSectorsPerFile at inside
      rw [reach,stored_data bound bytes _ (by omega),dataWrites_other bytes diskfsSectorsPerFile]
      rw [start]
      unfold diskfsSectorsPerFile
      omega

/-- The next entry of a name, once its first one is removed, is the same before and after a write. -/
theorem Apart.removes {d' : DiskFs} (apart : Apart d d' path i) (own : i = k ∨ holds d.entries path i = false)
    (named : PathName path) (ready : d.disk.faults = []) (available : d.available = true)
    (found : diskfsFind d.entries path = some k) :
    Elsewhere (diskfsRemove d path).1 (diskfsRemove d' path).1 path := by
  have still : diskfsFind d'.entries path = diskfsFind d.entries path := by
    unfold diskfsFind
    congr 1
    funext j
    exact apart.names j
  have found' := still.trans found
  have bound := (find_range.mp found).1
  rw [diskfsRemove_transfers available found,diskfsRemove_transfers (apart.available.trans available) found']
  have behind : ∀ j, diskfsFind (removed d k).entries path = some j → j ≠ k ∧ j ≠ i := by
    intro j next
    rw [removed_find named found] at next
    have test := (find_range.mp next).2.1
    rw [Bool.and_eq_true,decide_eq_true_eq,found] at test
    have other : j ≠ k := fun same => test.2 (congrArg some same.symm)
    refine ⟨other,fun same => ?_⟩
    rcases own with here | none
    · exact other (same.trans here)
    · rw [same,none] at test
      cases test.1
  refine ⟨performs_ready apart.ready _,apart.available,?_,fun j next => ?_,fun j s next inside => ?_⟩
  · dsimp only
    rw [removed_find named found',removed_find named found,still]
    congr 1
    funext j
    rw [apart.names j]
  · obtain ⟨other,out⟩ := behind j next
    change Function.update d'.entries k _ j = Function.update d.entries k _ j
    rw [Function.update_of_ne other,Function.update_of_ne other]
    exact apart.entries j out
  · obtain ⟨_,out⟩ := behind j next
    have before := (performs_reached d.disk (dropWrites d k)).1
    have after := (performs_reached d'.disk (dropWrites d' k)).1
    rw [ready,reached_nil] at before
    rw [apart.ready,reached_nil] at after
    dsimp only
    rw [before,after]
    exact (tableWrites_data bound (by omega)).trans ((apart.data j s out inside).trans (tableWrites_data bound (by omega)).symm)

end Removal

/-- What shows under a path once its file is removed. -/
def behind (st : Store) (path : List Byte) : Option (List Byte) :=
  if (ramfsData st.ram path).isSome then diskContent st.disk path else diskContent (diskfsRemove st.disk path).1 path

section Behind
variable {st st' : Store} {path dst src bytes : List Byte} {b bs : Nat}

/-- A removal takes the file that shows, if it is no program, and no other. -/
theorem vfsRemove_behind (calm : Calm st) (ordered : Ordered st.ram) (target : Target st path b)
    (program : programIndex path = none) (normal : pathNormalize src = some path) :
    ∃ st', vfsRemove st src = (st',true) ∧ contentAt st' path = behind st path := by
  obtain ⟨st',gone,emptied⟩ := vfsRemove_emptied calm ordered target program normal
  refine ⟨st',gone,?_⟩
  rw [contentAt_eq,memory_absent emptied.memory,Option.none_or]
  unfold behind vfsRemove at *
  rw [normal] at gone
  dsimp only at gone
  rcases target.cases with rfl | rfl
  · have shown := target_ram.mp target
    rw [if_pos shown] at gone ⊢
    split at gone
    · cases gone
    · cases gone
      rfl
  · obtain ⟨missing,available,found⟩ := target_disk.mp target
    have there : (diskfsAvailable st.disk && diskfsExists st.disk path) = true := by
      unfold diskfsAvailable diskfsExists
      rw [available,found]
      rfl
    rw [if_neg (by rw [missing]; decide)] at gone ⊢
    rw [if_pos there,Prod.mk.injEq] at gone
    obtain ⟨rfl,_⟩ := gone
    rfl

theorem vfsRemove_program (program : programIndex path ≠ none)
    (normal : pathNormalize src = some path) : vfsRemove st src = (st,false) := by
  have some : (programIndex path).isSome = true := Option.ne_none_iff_isSome.mp program
  have shown : (ramfsData st.ram path).isSome = true := by
    unfold ramfsData
    rcases found : programIndex path with _ | i
    · exact absurd found program
    · rfl
  unfold vfsRemove ramfsRemove
  rw [normal]
  dsimp only
  rw [if_pos shown,if_pos some]

/-- A write to another file, or to the one that shows, leaves what is behind it. -/
theorem storeWhole_behind (calm : Calm st) (named : PathName path) (other : PathName dst) (target : Target st path bs)
    (same : dst = path → b = bs) (stored : storeWhole st b dst bytes = (st',true)) :
    behind st' path = behind st path := by
  unfold storeWhole at stored
  split at stored
  next disk =>
    rcases written : diskfsWrite st.disk dst bytes with ⟨after,ok⟩
    rw [written] at stored
    cases stored
    obtain rfl : (diskfsWrite st.disk dst bytes).1 = after := congrArg Prod.fst written
    unfold behind
    dsimp only
    rcases target.cases with rfl | rfl
    · have shown := target_ram.mp target
      have apart : path ≠ dst := fun here => absurd (disk.symm.trans (same here.symm)) (by decide)
      rw [if_pos shown,if_pos shown]
      exact (diskfsWrite_elsewhere other named apart calm.mounted calm.ready).content calm.mounted calm.ready named
    · obtain ⟨missing,available,some⟩ := target_disk.mp target
      obtain ⟨k,found⟩ := Option.isSome_iff_exists.mp some
      have hidden : ¬(ramfsData st.ram path).isSome = true := by
        rw [missing]
        exact Bool.false_ne_true
      rw [if_neg hidden,if_neg hidden]
      obtain ⟨i,apart,own⟩ := @diskfsWrite_apart st.disk path dst bytes k other named calm.mounted calm.ready found
      exact (apart.removes own named calm.ready available found).content
        (diskfsRemove_mounted calm.mounted rfl) (diskfsRemove_ready calm.ready) named
  next memory =>
    split at stored
    · cases stored
    next ram written =>
      cases stored
      unfold behind
      dsimp only
      suffices shows : (ramfsData ram path).isSome = (ramfsData st.ram path).isSome by rw [shows]
      by_cases here : dst = path
      · subst here
        obtain rfl := same rfl
        have kind : b = backendRamfs := target.cases.resolve_right memory
        rw [kind] at target
        obtain ⟨program,i,found,-⟩ := ramfsWrite_found other.clean.short written
        rw [target_ram.mp target]
        unfold ramfsData
        rw [program,found]
        rfl
      · have content := ramfsWrite_other other (fun back => here back.symm) written
        have isSome : ∀ r, (ramContent r path).isSome = (ramfsData r path).isSome := fun r => Option.isSome_map
        rw [← isSome,← isSome,content]

end Behind

theorem storeWhole_targets {st st' : Store} {path g bytes : List Byte} {b b' : Nat} (calm : Calm st) (named : PathName path)
    (name : PathName g) (other : g ≠ path) (target : Target st g b') (stored : storeWhole st b path bytes = (st',true)) :
    Target st' g b' := by
  unfold storeWhole at stored
  split at stored
  · rcases written : diskfsWrite st.disk path bytes with ⟨after,ok⟩
    rw [written] at stored
    cases stored
    obtain rfl : (diskfsWrite st.disk path bytes).1 = after := congrArg Prod.fst written
    rcases target.cases with rfl | rfl
    · have shown := target_ram.mp target
      exact target_ram.mpr shown
    · obtain ⟨missing,available,found⟩ := target_disk.mp target
      have elsewhere := @diskfsWrite_elsewhere st.disk path g bytes named name other calm.mounted calm.ready
      exact target_disk.mpr ⟨missing,elsewhere.available.trans available,(congrArg Option.isSome elsewhere.find).trans found⟩
  · split at stored
    · cases stored
    next ram written =>
      cases stored
      have content := ramfsWrite_other named other written
      have isSome : ∀ r, (ramContent r g).isSome = (ramfsData r g).isSome := fun r => Option.isSome_map
      have shows : (ramfsData ram g).isSome = (ramfsData st.ram g).isSome := by rw [← isSome,← isSome,content]
      rcases target.cases with rfl | rfl
      · exact target_ram.mpr (shows.trans (target_ram.mp target))
      · obtain ⟨missing,there⟩ := target_disk.mp target
        rw [missing] at shows
        exact target_disk.mpr ⟨Option.isNone_iff_eq_none.mp (Option.isSome_eq_false_iff.mp shows),there⟩

section Opened
variable {st : Store} {path : List Byte}

/-- The file that opening for writing finds or makes. -/
def forWriting (st : Store) (path : List Byte) : Store × Nat :=
  if backendFor st path = backendNone then createFile st path else (st,backendFor st path)

theorem openSlot_writing (fds : FdTable) : openSlot st fds path vfsFWrite =
    if (forWriting st path).2 = backendNone then ((forWriting st path).1,fds,none)
    else match freeFd fds with
      | none => ((forWriting st path).1,fds,none)
      | some i => ((forWriting st path).1,Function.update fds i ⟨true,(forWriting st path).2,vfsFWrite,0,path⟩,some i) := by
  unfold openSlot
  dsimp only
  rw [if_neg fun both => absurd both.2 (by decide)]
  rfl

/-- The state behind an opening for writing: an empty file where there was none. -/
structure Opened (st : Store) (path : List Byte) (st' : Store) : Prop where
  calm : Calm st'
  ordered : Ordered st'.ram
  heap : st'.heap = st.heap
  target : Target st' path (placeFor st path)
  others : ∀ g, PathName g → g ≠ path → ∀ disk, fileContent st' disk g = fileContent st disk g
  content : contentAt st' path = if backendFor st path = backendNone then some [] else contentAt st path
  same : backendFor st path ≠ backendNone → st' = st
  targets : ∀ g b, PathName g → Target st g b → Target st' g b
  behind : ∀ g b, PathName g → Target st g b → behind st' g = behind st g

theorem forWriting_opened (calm : Calm st) (ordered : Ordered st.ram) (named : PathName path)
    (placed : placeFor st path ≠ backendNone) :
    ∃ st', forWriting st path = (st',placeFor st path) ∧ Opened st path st' := by
  unfold forWriting
  by_cases absent : backendFor st path = backendNone
  · obtain ⟨st',made,stored⟩ := (createFile_place calm named absent).2 placed
    have kind : placeFor st path = backendRamfs ∨ placeFor st path = backendDiskfs ∧ ramfsData st.ram path = none := by
      have missing := (backendFor_absent.mp absent).1
      revert placed
      unfold placeFor
      rw [if_neg (not_not_intro absent)]
      split
      · exact fun _ => .inr ⟨rfl,missing⟩
      · split
        · exact fun _ => .inl rfl
        · exact fun placed => absurd rfl placed
    obtain ⟨calm',target,content,heap⟩ := storeWhole_shown calm named (Nat.zero_le _) kind stored
    have only := storeWhole_only calm.mounted calm.ready named stored
    have renews := @storeWhole_renews st path named (placeFor st path) []
    rw [stored] at renews
    rw [if_pos absent]
    refine ⟨st',made,calm',renews.ordered ordered,heap,target,fun g name other disk => only.others disk g name (.inr other),?_,
      fun present => absurd absent present,fun g b name shown => ?_,fun g b name shown => ?_⟩
    · rw [if_pos absent,contentAt_target target,content]
    · have other : g ≠ path := fun here => shown.present (shown.backend.symm.trans (here ▸ absent))
      exact storeWhole_targets calm named name other shown stored
    · refine storeWhole_behind calm name named shown (fun here => ?_) stored
      subst here
      exact absurd (shown.backend.symm.trans absent) shown.present
  · have place : placeFor st path = backendFor st path := if_pos absent
    rw [if_neg absent,place]
    exact ⟨st,rfl,calm,ordered,rfl,place ▸ ⟨rfl,absent⟩,fun _ _ _ _ => rfl,(if_neg absent).symm,fun _ => rfl,fun _ _ _ shown => shown,
      fun _ _ _ _ => rfl⟩

theorem forWriting_place (calm : Calm st) (ordered : Ordered st.ram) (named : PathName path) :
    (forWriting st path).2 = placeFor st path := by
  by_cases placed : placeFor st path = backendNone
  · by_cases absent : backendFor st path = backendNone
    · unfold forWriting
      rw [if_pos absent,(createFile_place calm named absent).1 placed,placed]
    · exact absurd ((if_pos absent).symm.trans placed) absent
  · obtain ⟨st',made,_⟩ := forWriting_opened calm ordered named placed
    rw [made]

theorem forWriting_kept (calm : Calm st) (named : PathName path) {g : List Byte} (name : PathName g)
    (present : backendFor st g ≠ backendNone) : contentAt (forWriting st path).1 g = contentAt st g := by
  unfold forWriting
  split
  next absent =>
    have other : g ≠ path := fun here => present (here ▸ absent)
    exact contentAt_same fun disk => (createFile_other calm.mounted calm.ready named name other disk).2
  · rfl

end Opened

section Reads
variable {st : Store} {path c : List Byte} {b o n : Nat}

theorem readSlot_store (ready : st.disk.disk.faults = []) (f : ProcessFd) (n : Nat) :
    ∃ heap, (readSlot st f n).1 = {st with heap} := by
  obtain ⟨ram,disk⟩ := readSlot_files ready f n
  refine ⟨(readSlot st f n).1.heap,?_⟩
  rw [← ram,← disk]

theorem readSlot_short {f : ProcessFd} {bytes : List Byte} (read : (readSlot st f n).2.2 = some bytes) : bytes.length ≤ n := by
  unfold readSlot at read
  split at read
  · cases read
  dsimp only at read
  split at read
  · cases read
    exact Nat.zero_le _
  split at read
  · split at read
    · cases read
    · split at read
      · cases read
      · cases read
        rw [List.length_map,List.length_range]
        exact Nat.min_le_left _ _
  · split at read
    · cases read
    · cases read
      rw [List.length_map,List.length_range]
      exact Nat.min_le_left _ _

theorem readSlot_value (ready : st.disk.disk.faults = []) (content : fileContent st (onDisk b) path = some c)
    (short : n ≤ vfsIoMax) (buffer : o < c.length → onDisk b = true → kmalloc st.heap vfsIoMax ≠ none) :
    (readSlot st ⟨true,b,vfsFRead,o,path⟩ n).2 =
      (⟨true,b,vfsFRead,o + min n (c.length - o),path⟩,some ((c.drop o).take n)) := by
  by_cases more : o < c.length
  · exact readSlot_content (f := ⟨true,b,vfsFRead,o,path⟩) ⟨rfl,rfl,rfl⟩
      (show flagged vfsFRead vfsFRead = true by decide) content ready (fun disk => Option.ne_none_iff_isSome.mp (buffer more disk)) short
  · have ended : o ≥ fileSize st b path := by
      rw [fileSize_content ready content]
      exact Nat.le_of_not_lt more
    have usable : ¬(true = false ∨ n > vfsIoMax ∨ flagged vfsFRead vfsFRead = false) := by
      rw [not_or,not_or]
      exact ⟨by decide,Nat.not_lt.mpr short,by decide⟩
    unfold readSlot
    rw [if_neg usable]
    dsimp only
    rw [if_pos ended,List.drop_of_length_le (Nat.le_of_not_lt more),List.take_nil,Nat.sub_eq_zero_of_le (Nat.le_of_not_lt more),
      Nat.min_zero,Nat.add_zero]

/-- Without a buffer nothing is read from the disk. -/
theorem readSlot_unbuffered (ready : st.disk.disk.faults = []) (disk : onDisk b = true)
    (content : fileContent st (onDisk b) path = some c) (more : o < c.length) (full : kmalloc st.heap vfsIoMax = none) :
    (readSlot st ⟨true,b,vfsFRead,o,path⟩ n).2.2 = none := by
  unfold readSlot
  split
  · rfl
  dsimp only
  rw [if_neg (by rw [fileSize_content ready content]; exact Nat.not_le.mpr more),if_pos (beq_iff_eq.mp disk),full]

/-- A file that shows has a content, unless it is larger than the disk allows; then no read succeeds. -/
theorem readSlot_unreadable (calm : Calm st) (target : Target st path b) (content : fileContent st (onDisk b) path = none) :
    (readSlot st ⟨true,b,vfsFRead,0,path⟩ n).2.2 = none := by
  have large : logLimit b < fileSize st b path := by
    rw [← Nat.not_le]
    intro small
    obtain ⟨bytes,present,_⟩ := target.content calm small
    rw [content] at present
    cases present
  unfold readSlot
  split
  · rfl
  dsimp only
  rw [if_neg (Nat.not_le.mpr (Nat.zero_lt_of_lt large))]
  rcases target.cases with rfl | rfl
  · obtain ⟨data,found⟩ := Option.isSome_iff_exists.mp (target_ram.mp target)
    have present : fileContent st false path = some ((List.range (ramfsSize st.ram path)).map data) :=
      congrArg (Option.map _) found
    cases content.symm.trans present
  · rw [if_pos rfl]
    have unread : (diskfsRead st.disk path vfsIoMax).2 = none := content
    rcases kmalloc st.heap vfsIoMax with _ | ⟨heap,temp⟩
    · rfl
    · dsimp only
      rcases read : diskfsRead st.disk path vfsIoMax with ⟨disk,_ | bytes⟩
      · rfl
      · rw [read] at unread
        cases unread

theorem readSlot_calm (ready : st.disk.disk.faults = []) (content : fileContent st (onDisk b) path = some c)
    (short : n ≤ vfsIoMax) (buffer : o < c.length → onDisk b = true → kmalloc st.heap vfsIoMax ≠ none) :
    ∃ heap, readSlot st ⟨true,b,vfsFRead,o,path⟩ n =
      ({st with heap},⟨true,b,vfsFRead,o + min n (c.length - o),path⟩,some ((c.drop o).take n)) := by
  obtain ⟨heap,store⟩ := readSlot_store ready ⟨true,b,vfsFRead,o,path⟩ n
  exact ⟨heap,Prod.ext store (readSlot_value ready content short buffer)⟩

end Reads

section Writes
variable {st st' : Store} {path bytes : List Byte} {b o : Nat}

theorem writeSlot_start {ok : Bool} (short : bytes.length ≤ vfsIoMax) (stored : storeWhole st b path bytes = (st',ok)) :
    writeSlot st ⟨true,b,vfsFWrite,0,path⟩ bytes =
      (st',⟨true,b,vfsFWrite,if ok then bytes.length else 0,path⟩,if ok then some bytes.length else none) := by
  have usable : ¬(true = false ∨ bytes.length > vfsIoMax ∨ flagged vfsFWrite vfsFWrite = false) := by
    rw [not_or,not_or]
    exact ⟨by decide,Nat.not_lt.mpr short,by decide⟩
  have whole : ¬flagged vfsFWrite vfsFAppend = true := by decide
  unfold writeSlot
  rw [if_neg usable,if_neg (fun both => both.1 rfl),if_neg whole,stored]
  cases ok with
  | false => rfl
  | true =>
    dsimp only
    rw [Nat.zero_add]
    rfl

/-- Behind its start a file is only appended to. -/
theorem writeSlot_later (moved : o ≠ 0) : (writeSlot st ⟨true,b,vfsFWrite,o,path⟩ bytes) = (st,⟨true,b,vfsFWrite,o,path⟩,none) := by
  have whole : flagged vfsFWrite vfsFAppend = false := by decide
  unfold writeSlot
  split
  · rfl
  · rw [if_pos ⟨moved,whole⟩]

/-- The state behind a write of the whole file that shows. -/
structure Rewritten (st : Store) (path : List Byte) (b : Nat) (bytes : List Byte) (st' : Store) : Prop where
  calm : Calm st'
  ordered : Ordered st'.ram
  target : Target st' path b
  content : fileContent st' (onDisk b) path = some (held b bytes)
  others : ∀ g, PathName g → g ≠ path → ∀ disk, fileContent st' disk g = fileContent st disk g
  targets : ∀ g b', PathName g → Target st g b' → Target st' g b'
  behind : ∀ g b', PathName g → Target st g b' → behind st' g = behind st g

theorem Target.rewritten (target : Target st path b) (calm : Calm st) (ordered : Ordered st.ram) (named : PathName path)
    (accepted : accepts b path = true) (small : bytes.length ≤ diskfsMaxFileSize) :
    ∃ st', storeWhole st b path bytes = (st',true) ∧ Rewritten st path b bytes st' := by
  obtain ⟨st',stored,calm',target',only,content,_⟩ := target.stored calm named accepted small
  have renews := @storeWhole_renews st path named b bytes
  rw [stored] at renews
  refine ⟨st',stored,calm',renews.ordered ordered,target',content,fun g name other disk => only.others disk g name (.inr other),
    fun g b' name shown => ?_,fun g b' name shown => storeWhole_behind calm name named shown (fun here => ?_) stored⟩
  · by_cases here : g = path
    · subst here
      rw [← shown.backend,target.backend]
      exact target'
    · exact storeWhole_targets calm named name here shown stored
  · subst here
    exact target.backend.symm.trans shown.backend

theorem Rewritten.reheaped (rewritten : Rewritten st path b bytes st') (heap : Heap) :
    Rewritten st path b bytes {st' with heap} :=
  ⟨⟨rewritten.calm.mounted,rewritten.calm.ready⟩,rewritten.ordered,⟨rewritten.target.backend,rewritten.target.present⟩,
    rewritten.content,rewritten.others,
    fun g b' name shown => ⟨(rewritten.targets g b' name shown).backend,shown.present⟩,rewritten.behind⟩

end Writes

theorem bareStore_calm : Calm bareStore := ⟨fun available => absurd available (by decide),rfl⟩

end LionOS.Files

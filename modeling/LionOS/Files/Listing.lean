import LionOS.Files.Catalogue

/-! What the calls do to the names of the files, and the runs in which the enumeration keeps
agreeing with the lookup. -/
namespace LionOS.Files
open LionOS.Memory LionOS.Physical LionOS.Processes LionOS.Library

/-- The open makes a new file. -/
def Creates (st : Store) (path : List Byte) (flags : Nat) : Prop :=
  backendFor st path = backendNone ∧ flagged flags vfsFWrite = true ∧ ((∃ i, Takes st.disk path i) ∨ Room st.ram)

/-- What `write_slot` asks for before it stores. -/
structure Stores (st : Store) (f : ProcessFd) (bytes : List Byte) : Prop where
  used : f.used = true
  few : bytes.length ≤ vfsIoMax
  writes : flagged f.flags vfsFWrite = true
  start : flagged f.flags vfsFAppend = false → f.offset = 0
  grows : flagged f.flags vfsFAppend = true → f.backend ≠ backendDiskfs →
    bytes.length ≤ ramfsDataMax ∧ (kmalloc st.heap ramfsDataMax).isSome

/-- The file of the descriptor was removed, the other back end has one of its name since, and
the write makes it again in its own back end. -/
def Revives (st : Store) (f : ProcessFd) (bytes : List Byte) : Prop :=
  Stores st f bytes ∧ if f.backend = backendDiskfs then
    flagged f.flags vfsFAppend = false ∧ (ramfsData st.ram f.path).isSome ∧ diskfsExists st.disk f.path = false ∧
      ∃ i, Takes st.disk f.path i
  else ramfsData st.ram f.path = none ∧ diskfsExists st.disk f.path = true ∧ Room st.ram

/-- A write to a file that its back end still has makes none. -/
theorem present_kept {st : Store} {f : ProcessFd} {bytes : List Byte} (present : if f.backend = backendDiskfs then
    diskfsExists st.disk f.path = true else (ramfsData st.ram f.path).isSome) : ¬Revives st f bytes := by
  rintro ⟨_,revives⟩
  split at revives
  next disk =>
    rw [if_pos disk,revives.2.2.1] at present
    cases present
  next memory =>
    rw [if_neg memory,revives.1] at present
    cases present

/-- A new file has a path that a system call can take, and no write makes a second file of a
name. -/
def Distinguishes (st : Store) (fds : FdTable) : FileCall → Prop
  | .opened src flags => ∀ path, pathNormalize src = some path → Creates st path flags → path.length < vfsPathMax - 1
  | .wrote fd bytes => 0 ≤ fd → fd < vfsFdMax → ¬Revives st (fds fd.toNat) bytes
  | _ => True

/-- A call that keeps the names apart and within reach; the disk of a restart has no file of a
name that the restart seeds. -/
def Discerns (m : Machine) : MachineCall → Prop
  | .file table call => Distinguishes m.store (m.tables table) call
  | .rebooted _ _ => ∀ seed ∈ seeds, diskfsExists m.store.disk seed.1 = false
  | _ => True

theorem pathNormalize_fixed {src path : List Byte} (normal : pathNormalize src = some path) : pathNormalize path = some path := by
  have text := (pathNormalize_clean normal).1.text
  have plain : ∀ c ∈ path, decide (c ≠ 0) = true := fun c member => decide_eq_true fun zero => text (zero ▸ member)
  have whole : cstring (path ++ [0]) = cstring path := by
    unfold cstring
    rw [List.takeWhile_append_of_pos plain,List.takeWhile_eq_self_iff.mpr plain]
    simp
  have again := pathNormalize_again normal []
  unfold pathNormalize at again ⊢
  rwa [whole] at again

section Calls
variable {st : Store} {l : Ledger} {path : List Byte}

theorem ramfsWrite_room_taken {r r' : RamFs} {bytes : List Byte} (missing : ramfsFind r path = none)
    (written : ramfsWrite r path bytes = some r') : Room r := by
  unfold ramfsWrite at written
  rw [missing] at written
  split at written
  · cases written
  dsimp only at written
  split at written
  · cases written
  next room => exact Nat.lt_of_not_le room

/-- The disk has a free entry for a file that a write makes. -/
theorem diskfsWrite_takes {d d' : DiskFs} {bytes : List Byte} (missing : diskfsExists d path = false)
    (made : diskfsWrite d path bytes = (d',true)) : ∃ i, Takes d path i := by
  cases given : admitted d path bytes with
  | none =>
    rw [diskfsWrite_refused given] at made
    cases made
  | some claim =>
    obtain ⟨c,i⟩ := claim
    obtain ⟨available,valid,_,claimed⟩ := admitted_claimed given
    rw [diskfsExists,available,Bool.true_and,Option.isSome_eq_false_iff,Option.isNone_iff_eq_none] at missing
    unfold claimEntry at claimed
    rw [missing] at claimed
    dsimp only at claimed
    cases free : freeEntry d.entries with
    | none =>
      rw [free] at claimed
      cases claimed
    | some j => exact ⟨j,available,valid,free⟩

theorem createFile_change (held : Holds st.disk l) (text : 0 ∉ path) (absent : backendFor st path = backendNone)
    (passable : (∃ i, Takes st.disk path i) ∨ Room st.ram → Passable path) :
    Change st.ram l (createFile st path).1.ram
      (if (createFile st path).2 = backendNone then l else took l (createFile st path).2 path []) := by
  obtain ⟨missing,gone⟩ := backendFor_absent.mp absent
  have available : diskfsAvailable st.disk = true := held.synced.available
  rw [available,Bool.true_and] at gone
  obtain ⟨_,find⟩ := ramfsData_absent missing
  have unstored : l path = none := by
    by_contra stored
    exact gone ((held.exists_stored text).mpr stored)
  rcases made : diskfsWrite st.disk path [] with ⟨disk,stored⟩
  cases stored with
  | true =>
    have created : createFile st path = ({st with disk},backendDiskfs) := by
      rw [createFile,if_pos available,made]
      rfl
    have takes := diskfsWrite_takes (Bool.eq_false_of_not_eq_true gone) made
    rw [created]
    exact .wroteDisk (passable (.inl takes)) find
  | false =>
    cases written : ramfsWrite st.ram path [] with
    | none =>
      have created : createFile st path = ({st with disk},backendNone) := by
        rw [createFile,if_pos available,made]
        dsimp only
        rw [if_neg Bool.false_ne_true,written]
      rw [created]
      exact .same
    | some ram =>
      have created : createFile st path = ({st with ram,disk},backendRamfs) := by
        rw [createFile,if_pos available,made]
        dsimp only
        rw [if_neg Bool.false_ne_true,written]
      rw [created]
      exact .wroteMemory (passable (.inr (ramfsWrite_room_taken find written))) unstored written

theorem storeWhole_memory {st' : Store} {backend : Nat} {bytes : List Byte} {ok : Bool} (memory : backend ≠ backendDiskfs)
    (stored : storeWhole st backend path bytes = (st',ok)) :
    st'.ram = st.ram ∨ ramfsWrite st.ram path bytes = some st'.ram := by
  unfold storeWhole at stored
  rw [if_neg memory] at stored
  cases written : ramfsWrite st.ram path bytes with
  | none =>
    rw [written] at stored
    cases stored
    exact .inl rfl
  | some ram =>
    rw [written] at stored
    cases stored
    exact .inr rfl

theorem storeWhole_disk {st' : Store} {backend : Nat} {bytes : List Byte} {ok : Bool} (disk : backend = backendDiskfs)
    (stored : storeWhole st backend path bytes = (st',ok)) :
    st'.ram = st.ram ∧ (ok = true → diskfsExists st.disk path = false → ∃ i, Takes st.disk path i) := by
  unfold storeWhole at stored
  rw [if_pos disk] at stored
  rcases made : diskfsWrite st.disk path bytes with ⟨after,accepted⟩
  rw [made] at stored
  cases stored
  refine ⟨rfl,?_⟩
  rintro rfl missing
  exact diskfsWrite_takes missing made

section Writes
variable {st' : Store} {f f' : ProcessFd} {bytes : List Byte} {accepted : Option Nat}

theorem appendSlot_memory (memory : f.backend ≠ backendDiskfs) (made : appendSlot st f bytes = (st',f',accepted)) :
    st'.ram = st.ram ∨ (bytes.length ≤ ramfsDataMax ∧ (kmalloc st.heap ramfsDataMax).isSome) ∧
      ∃ content, ramfsWrite st.ram f.path content = some st'.ram := by
  unfold appendSlot at made
  dsimp only at made
  rw [if_neg memory] at made
  split at made
  · cases made
    exact .inl rfl
  next room =>
    split at made
    · cases made
      exact .inl rfl
    next heap temp page =>
      have same := @oldContent_ram {st with heap} f (fileSize st f.backend f.path) 256
      have asked : bytes.length ≤ ramfsDataMax ∧ (kmalloc st.heap ramfsDataMax).isSome := by
        refine ⟨?_,Option.isSome_of_eq_some page⟩
        unfold ramfsDataMax
        omega
      split at made
      next st₁ failed =>
        rw [failed] at same
        cases made
        exact .inl same
      next st₁ old copied =>
        rw [copied] at same
        rcases result : storeWhole st₁ f.backend f.path (old ++ bytes) with ⟨st₂,ok⟩
        have after := storeWhole_memory memory result
        rw [show st₁.ram = st.ram from same] at after
        have outcome : st₂.ram = st.ram ∨ (bytes.length ≤ ramfsDataMax ∧ (kmalloc st.heap ramfsDataMax).isSome) ∧
            ∃ content, ramfsWrite st.ram f.path content = some st₂.ram :=
          after.imp id fun written => ⟨asked,_,written⟩
        rw [result] at made
        cases ok with
        | false =>
          cases made
          exact outcome
        | true =>
          cases made
          exact outcome

/-- A write through a descriptor of the memory file system. -/
theorem writeSlot_memory (memory : f.backend ≠ backendDiskfs) (made : writeSlot st f bytes = (st',f',accepted)) :
    st'.ram = st.ram ∨ Stores st f bytes ∧ ∃ content, ramfsWrite st.ram f.path content = some st'.ram := by
  unfold writeSlot at made
  split at made
  · cases made
    exact .inl rfl
  next usable =>
    simp only [not_or,Bool.not_eq_false,Nat.not_lt,gt_iff_lt] at usable
    obtain ⟨used,few,writes⟩ := usable
    split at made
    · cases made
      exact .inl rfl
    next start =>
      split at made
      next append =>
        refine (appendSlot_memory memory made).imp id fun ⟨grows,written⟩ => ⟨⟨used,few,writes,?_,fun _ _ => grows⟩,written⟩
        intro whole
        rw [append] at whole
        cases whole
      next whole =>
        rw [Bool.not_eq_true] at whole
        have stores : Stores st f bytes := by
          refine ⟨used,few,writes,?_,?_⟩
          · intro _
            by_contra moved
            exact start ⟨moved,whole⟩
          · intro append
            rw [append] at whole
            cases whole
        rcases result : storeWhole st f.backend f.path bytes with ⟨st₁,ok⟩
        have after := storeWhole_memory memory result
        rw [result] at made
        cases ok with
        | false =>
          cases made
          exact after.imp id fun written => ⟨stores,_,written⟩
        | true =>
          cases made
          exact after.imp id fun written => ⟨stores,_,written⟩

/-- An append through a descriptor of the disk needs the file there. -/
theorem appendSlot_disk (held : Holds st.disk l) (disk : f.backend = backendDiskfs) (text : 0 ∉ f.path)
    (program : programIndex f.path = none) (made : appendSlot st f bytes = (st',f',accepted)) :
    st'.ram = st.ram ∧ (accepted ≠ none → l f.path ≠ none) := by
  unfold appendSlot at made
  dsimp only at made
  rw [if_pos disk] at made
  split at made
  · cases made
    exact ⟨rfl,fun refused => absurd rfl refused⟩
  split at made
  · cases made
    exact ⟨rfl,fun refused => absurd rfl refused⟩
  next heap temp _ =>
    have same := @oldContent_ram {st with heap} f (fileSize st f.backend f.path) diskfsMaxFileSize
    split at made
    next st₁ failed =>
      rw [failed] at same
      cases made
      exact ⟨same,fun refused => absurd rfl refused⟩
    next st₁ old copied =>
      rw [copied] at same
      have content := (@oldContent_holds {st with heap} l _ _ _ _ _ held (fun _ => ⟨text,program⟩) (fun _ => rfl) copied).2
      have present : l f.path ≠ none := by
        rw [content disk old rfl]
        exact Option.some_ne_none old
      rcases result : storeWhole st₁ f.backend f.path (old ++ bytes) with ⟨st₂,ok⟩
      have after := (storeWhole_disk disk result).1.trans same
      rw [result] at made
      cases ok with
      | false =>
        cases made
        exact ⟨after,fun _ => present⟩
      | true =>
        cases made
        exact ⟨after,fun _ => present⟩

/-- A write through a descriptor of the disk. -/
theorem writeSlot_disk (held : Holds st.disk l) (disk : f.backend = backendDiskfs) (text : 0 ∉ f.path)
    (program : programIndex f.path = none) (made : writeSlot st f bytes = (st',f',accepted)) :
    st'.ram = st.ram ∧ (accepted ≠ none → l f.path = none →
      Stores st f bytes ∧ flagged f.flags vfsFAppend = false ∧ ∃ i, Takes st.disk f.path i) := by
  unfold writeSlot at made
  split at made
  · cases made
    exact ⟨rfl,fun refused => absurd rfl refused⟩
  next usable =>
    simp only [not_or,Bool.not_eq_false,Nat.not_lt,gt_iff_lt] at usable
    obtain ⟨used,few,writes⟩ := usable
    split at made
    · cases made
      exact ⟨rfl,fun refused => absurd rfl refused⟩
    next start =>
      split at made
      next append =>
        obtain ⟨ram,needs⟩ := appendSlot_disk held disk text program made
        exact ⟨ram,fun taken absent => absurd absent (needs taken)⟩
      next whole =>
        rw [Bool.not_eq_true] at whole
        have stores : Stores st f bytes := by
          refine ⟨used,few,writes,?_,fun _ memory => absurd disk memory⟩
          intro _
          by_contra moved
          exact start ⟨moved,whole⟩
        rcases result : storeWhole st f.backend f.path bytes with ⟨st₁,ok⟩
        obtain ⟨ram,takes⟩ := storeWhole_disk disk result
        rw [result] at made
        cases ok with
        | false =>
          cases made
          exact ⟨ram,fun refused => absurd rfl refused⟩
        | true =>
          cases made
          refine ⟨ram,fun _ absent => ⟨stores,whole,takes rfl ?_⟩⟩
          rw [← Bool.not_eq_true,held.exists_stored text,not_not]
          exact absent

end Writes

/-- Every descriptor in use is on a passable path. -/
def Within (fds : FdTable) : Prop := ∀ i, (fds i).used = true → Passable (fds i).path

section Steps
variable {fds : FdTable}

theorem Catalogue.found_passable (catalogue : Catalogue st.ram l) (held : Holds st.disk l) (text : 0 ∉ path)
    (found : backendFor st path ≠ backendNone) : Passable path := by
  unfold backendFor at found
  split at found
  next memory =>
    rcases ramfsData_present.mp memory with present | program
    · exact catalogue.storeNames_passable held ((storeNames_member held.synced).mpr (.inl (.inl present)))
    · exact programNames_passable program
  next missing =>
    split at found
    next disk =>
      rw [Bool.and_eq_true,held.exists_stored text] at disk
      exact catalogue.stored path disk.2
    next gone => exact absurd rfl found

theorem createFile_asked (absent : backendFor st path = backendNone) (named : path ≠ [])
    (made : (createFile st path).2 ≠ backendNone) : (∃ i, Takes st.disk path i) ∨ Room st.ram := by
  obtain ⟨st',backend,created,nowhere,_⟩ := createFile_outcome absent named
  rw [created] at made
  by_contra neither
  rw [not_or] at neither
  exact made (nowhere.mpr ⟨fun i takes => absurd ⟨i,takes⟩ neither.1,neither.2⟩)

/-- Only an open of a file that is there then takes a descriptor. -/
theorem openSlot_descriptors (flags i : Nat) : (openSlot st fds path flags).2.1 i = fds i ∨
    ((openSlot st fds path flags).2.1 i).path = path ∧ (backendFor st path = backendNone →
      flagged flags vfsFWrite = true ∧ (createFile st path).2 ≠ backendNone) := by
  unfold openSlot
  dsimp only
  split
  · exact .inl rfl
  next allowed =>
    by_cases absent : backendFor st path = backendNone
    · simp only [absent,true_and,Bool.not_eq_false] at allowed
      rw [if_pos absent]
      split
      · exact .inl rfl
      next made =>
        split
        · exact .inl rfl
        next slot _ =>
          by_cases own : i = slot
          · subst own
            dsimp only
            rw [Function.update_self]
            exact .inr ⟨rfl,fun _ => ⟨allowed,made⟩⟩
          · exact .inl (Function.update_of_ne own _ _)
    · rw [if_neg absent]
      split
      · exact .inl rfl
      · split
        · exact .inl rfl
        next slot _ =>
          by_cases own : i = slot
          · subst own
            dsimp only
            rw [Function.update_self]
            exact .inr ⟨rfl,fun none => absurd none absent⟩
          · exact .inl (Function.update_of_ne own _ _)

theorem Within.moved (within : Within fds) (i : Nat) {f : ProcessFd} (same : SameFile (fds i) f) :
    Within (Function.update fds i f) := by
  obtain ⟨used,_,path⟩ := same
  intro j
  by_cases own : j = i
  · subst own
    rw [Function.update_self,used,path]
    exact within j
  · rw [Function.update_of_ne own]
    exact within j

theorem fileStep_within (within : Within fds) (catalogue : Catalogue st.ram l) (held : Holds st.disk l) {call : FileCall}
    (distinguishes : Distinguishes st fds call) : Within (fileStep (st,fds) call).2 := by
  cases call with
  | opened src flags =>
    simp only [fileStep,vfsOpen]
    cases normal : pathNormalize src with
    | none => exact within
    | some path =>
      intro i used
      have named := pathName_normal normal
      rcases @openSlot_descriptors st path fds flags i with same | ⟨opened,made⟩
      · dsimp only at used ⊢
        rw [same] at used ⊢
        exact within i used
      · dsimp only at opened ⊢
        rw [opened]
        by_cases absent : backendFor st path = backendNone
        · obtain ⟨write,created⟩ := made absent
          have asked := createFile_asked absent named.given created
          exact ⟨pathNormalize_fixed normal,distinguishes path normal ⟨absent,write,asked⟩⟩
        · exact catalogue.found_passable held named.clean.text absent
  | closed fd =>
    simp only [fileStep,vfsClose]
    split
    · exact within
    · intro i used
      dsimp only at used ⊢
      by_cases own : i = fd.toNat
      · subst own
        rw [Function.update_self] at used
        cases used
      · rw [Function.update_of_ne own] at used ⊢
        exact within i used
  | read fd length =>
    simp only [fileStep,vfsRead]
    split
    · exact within
    · exact within.moved fd.toNat (readSlot_file st (fds fd.toNat) length)
  | wrote fd bytes =>
    simp only [fileStep,vfsWrite]
    split
    · exact within
    · exact within.moved fd.toNat (writeSlot_file st (fds fd.toNat) bytes)
  | removed src => exact within

theorem writeSlot_change {st' : Store} {f f' : ProcessFd} {bytes : List Byte} {accepted : Option Nat}
    (catalogue : Catalogue st.ram l) (held : Holds st.disk l)
    (owned : f.used = true → f.backend = backendDiskfs → 0 ∉ f.path ∧ programIndex f.path = none)
    (passable : f.used = true → Passable f.path) (kept : ¬Revives st f bytes)
    (made : writeSlot st f bytes = (st',f',accepted)) : Change st.ram l st'.ram (wrote l f bytes accepted) := by
  by_cases used : f.used = true
  · by_cases disk : f.backend = backendDiskfs
    · obtain ⟨text,program⟩ := owned used disk
      obtain ⟨ram,needs⟩ := writeSlot_disk held disk text program made
      rw [ram]
      cases accepted with
      | none => exact .same
      | some n =>
        rw [wrote,took,if_pos disk]
        refine .wroteDisk (passable used) ?_
        by_cases stored : l f.path = none
        · obtain ⟨stores,whole,takes⟩ := needs (Option.some_ne_none n) stored
          by_contra present
          refine kept ⟨stores,?_⟩
          rw [if_pos disk]
          refine ⟨whole,ramfsData_present.mpr (.inl present),?_,takes⟩
          rw [← Bool.not_eq_true,held.exists_stored text,not_not]
          exact stored
        · exact catalogue.apart f.path stored
    · have ledger : wrote l f bytes accepted = l := by
        cases accepted with
        | none => rfl
        | some n => rw [wrote,took,if_neg disk]
      rw [ledger]
      rcases writeSlot_memory disk made with same | ⟨stores,content,written⟩
      · rw [same]
        exact .same
      · refine .wroteMemory (passable used) ?_ written
        by_contra stored
        have find := catalogue.apart f.path stored
        refine kept ⟨stores,?_⟩
        rw [if_neg disk]
        refine ⟨?_,(held.exists_stored (passable used).name.clean.text).mpr stored,ramfsWrite_room_taken find written⟩
        rw [ramfsData,ramfsWrite_unlinked written,find]
        rfl
  · have refused : writeSlot st f bytes = (st,f,none) := if_pos (.inl (Bool.eq_false_of_not_eq_true used))
    rw [refused] at made
    cases made
    exact .same

theorem vfsRemove_change {st' : Store} {src : List Byte} {ok : Bool} (normal : pathNormalize src = some path)
    (made : vfsRemove st src = (st',ok)) :
    Change st.ram l st'.ram (if ok then dropped l (backendFor st path) path else l) := by
  simp only [vfsRemove,normal] at made
  split at made
  next memory =>
    have backend : backendFor st path = backendRamfs := by rw [backendFor,if_pos memory]
    have kept (ok : Bool) : (if ok then dropped l (backendFor st path) path else l) = l := by
      rw [backend]
      exact ite_self l
    rw [kept]
    split at made
    · cases made
      exact .same
    next ram gone =>
      cases made
      exact .removedMemory gone
  next memory =>
    split at made
    next disk =>
      have backend : backendFor st path = backendDiskfs := by rw [backendFor,if_neg memory,if_pos disk]
      rw [backend]
      cases made
      split
      · exact .removedDisk path
      · exact .same
    · cases made
      exact .same

/-- What a file call does to the names. -/
theorem fileStep_change (catalogue : Catalogue st.ram l) (held : Holds st.disk l) (owned : Owned fds) (within : Within fds)
    {call : FileCall} (distinguishes : Distinguishes st fds call) :
    Change st.ram l (fileStep (st,fds) call).1.ram (recorded l st fds call) := by
  cases call with
  | opened src flags =>
    simp only [fileStep,vfsOpen,recorded]
    cases normal : pathNormalize src with
    | none => exact .same
    | some path =>
      dsimp only
      rw [openSlot_store]
      split
      next created =>
        refine createFile_change held (pathNormalize_clean normal).1.text created.1 fun asked => ?_
        exact ⟨pathNormalize_fixed normal,distinguishes path normal ⟨created.1,created.2,asked⟩⟩
      · exact .same
  | closed fd => exact .same
  | read fd length =>
    simp only [fileStep,vfsRead,recorded]
    split
    · exact .same
    · dsimp only
      rw [readSlot_ram]
      exact .same
  | wrote fd bytes =>
    simp only [fileStep,vfsWrite,recorded]
    split
    · exact .same
    next inside =>
      rw [not_or,Int.not_lt,ge_iff_le,Int.not_le] at inside
      rcases made : writeSlot st (fds fd.toNat) bytes with ⟨st',f,accepted⟩
      exact writeSlot_change catalogue held (owned fd.toNat) (within fd.toNat) (distinguishes inside.1 inside.2) made
  | removed src =>
    rcases made : vfsRemove st src with ⟨st',ok⟩
    simp only [fileStep,recorded,made]
    cases normal : pathNormalize src with
    | none =>
      simp only [vfsRemove,normal] at made
      cases made
      exact .same
    | some path => exact vfsRemove_change normal made

end Steps

end Calls

structure Catalogued (m : Machine) : Prop where
  faithful : Faithful m
  catalogue : Catalogue m.store.ram m.ledger
  within : ∀ table, Within (m.tables table)

theorem closed_within : Within fun _ => default := fun _ used => Bool.noConfusion used

theorem catalogued_machine {m : Machine} {call : MachineCall} (catalogued : Catalogued m) (discerns : Discerns m call) :
    Catalogued (machineStep m call) := by
  have faithful := faithful_machine call catalogued.faithful
  obtain ⟨⟨held,owned⟩,catalogue,within⟩ := catalogued
  have replaced (table : Nat) {fds : FdTable} (new : Within fds) (t : Nat) :
      Within (Function.update m.tables table fds t) := by
    by_cases same : t = table
    · subst same
      rw [Function.update_self]
      exact new
    · rw [Function.update_of_ne same]
      exact within t
  cases call with
  | file table call =>
    exact ⟨faithful,catalogue.change (fileStep_change catalogue held (owned table) (within table) discerns),
      replaced table (fileStep_within (within table) catalogue held discerns)⟩
  | forked parent child => exact ⟨faithful,catalogue,replaced child (within parent)⟩
  | cleared table => exact ⟨faithful,catalogue,replaced table closed_within⟩
  | allocated heap => exact ⟨faithful,catalogue,within⟩
  | rebooted files heap =>
    refine ⟨faithful,?_,fun _ => closed_within⟩
    change Catalogue (ramfsInit ⟨m.store.ram.programs,files,0⟩) m.ledger
    refine .booted catalogue.stored fun seed member => ?_
    by_contra stored
    have text := (catalogue.stored _ stored).name.clean.text
    have present := (held.exists_stored text).mpr stored
    rw [discerns seed member] at present
    cases present

theorem firstBoot_catalogued (programs : Nat → List Byte) (files : Nat → RamFile) (heap : Heap) :
    Catalogued (firstBoot programs files heap) := by
  refine ⟨firstBoot_faithful programs files heap,?_,fun _ => closed_within⟩
  change Catalogue (ramfsInit ⟨programs,files,0⟩) fun _ => none
  exact .booted (fun _ stored => absurd rfl stored) fun _ _ => rfl

/-- Every run of discerning calls, with restarts in between, keeps the names apart and within
reach. -/
theorem run_catalogued (programs : Nat → List Byte) (files : Nat → RamFile) (heap : Heap) {calls : List MachineCall}
    (discerning : Meets machineStep Discerns (firstBoot programs files heap) calls) :
    Catalogued (run machineStep (firstBoot programs files heap) calls) :=
  discerning.invariant (fun _ _ catalogued discerns => catalogued_machine catalogued discerns)
    (firstBoot_catalogued programs files heap)

end LionOS.Files

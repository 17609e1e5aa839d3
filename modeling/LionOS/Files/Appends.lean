import LionOS.Files.Elsewhere

/-! Appends through any descriptors of any processes: what a file has gained at the end. -/
namespace LionOS.Files
open LionOS.Memory LionOS.Physical LionOS.Processes LionOS.Library

/-- The limit of a back end. -/
def fileLimit (disk : Bool) : Nat := if disk then diskfsMaxFileSize else ramfsDataMax

/-- A file is a path in one of the back ends. -/
def fileContent (st : Store) (disk : Bool) (path : List Byte) : Option (List Byte) :=
  if disk then diskContent st.disk path else ramContent st.ram path

def onDisk (backend : Nat) : Bool := backend == backendDiskfs

/-- The descriptor is open on the file. -/
def OnFile (f : ProcessFd) (disk : Bool) (path : List Byte) : Prop :=
  f.used = true ∧ onDisk f.backend = disk ∧ f.path = path

instance (f : ProcessFd) (disk : Bool) (path : List Byte) : Decidable (OnFile f disk path) :=
  inferInstanceAs (Decidable (_ ∧ _ ∧ _))

/-- No file changes but one, and no transfer will fail. -/
structure Only (st st' : Store) (disk : Bool) (path : List Byte) : Prop where
  ready : st'.disk.disk.faults = []
  others : ∀ disk' g, PathName g → disk' ≠ disk ∨ g ≠ path → fileContent st' disk' g = fileContent st disk' g

section Stores
variable {st st' st'' : Store} {disk : Bool} {path bytes c : List Byte}

theorem fileContent_same (ram : st'.ram = st.ram) (same : st'.disk = st.disk) (disk : Bool) (path : List Byte) :
    fileContent st' disk path = fileContent st disk path := by
  unfold fileContent
  rw [ram,same]

theorem Only.same (ready : st.disk.disk.faults = []) (ram : st'.ram = st.ram) (same : st'.disk = st.disk) :
    Only st st' disk path :=
  ⟨by rw [same]; exact ready,fun disk' g _ _ => fileContent_same ram same disk' g⟩

theorem Only.trans (first : Only st st' disk path) (second : Only st' st'' disk path) : Only st st'' disk path :=
  ⟨second.ready,fun disk' g named other => (second.others disk' g named other).trans (first.others disk' g named other)⟩

theorem storeWhole_only {backend : Nat} {ok : Bool} (mounted : Mounted st.disk) (ready : st.disk.disk.faults = [])
    (named : PathName path) (stored : storeWhole st backend path bytes = (st',ok)) :
    Only st st' (onDisk backend) path := by
  unfold storeWhole at stored
  split at stored
  next kind =>
    have disk : onDisk backend = true := beq_iff_eq.mpr kind
    cases stored
    rw [disk]
    refine ⟨diskfsWrite_ready ready,fun disk' g name other => ?_⟩
    cases disk' with
    | false => rfl
    | true =>
      have apart : g ≠ path := other.resolve_left fun differs => differs rfl
      exact (diskfsWrite_elsewhere named name apart mounted ready).content mounted ready name
  next kind =>
    have memory : onDisk backend = false := beq_eq_false_iff_ne.mpr kind
    split at stored
    · cases stored
      exact .same ready rfl rfl
    next ram written =>
      cases stored
      rw [memory]
      refine ⟨ready,fun disk' g name other => ?_⟩
      cases disk' with
      | false => exact ramfsWrite_other named (other.resolve_left fun differs => differs rfl) written
      | true => rfl

/-- What a whole write leaves of its own file. -/
theorem storeWhole_content {backend : Nat} {ok : Bool} (mounted : Mounted st.disk) (ready : st.disk.disk.faults = [])
    (named : PathName path) (small : bytes.length ≤ fileLimit (onDisk backend))
    (stored : storeWhole st backend path bytes = (st',ok)) : fileContent st' (onDisk backend) path =
      if ok then some bytes else fileContent st (onDisk backend) path := by
  unfold storeWhole at stored
  split at stored
  next kind =>
    have disk : onDisk backend = true := beq_iff_eq.mpr kind
    rcases made : diskfsWrite st.disk path bytes with ⟨after,accepted⟩
    rw [made] at stored
    cases stored
    rw [disk]
    cases ok with
    | true => exact congrArg Prod.snd (diskfsWrite_read mounted ready named.clean.text made).2.2
    | false =>
      rw [diskfsWrite_failed ready made]
      rfl
  next kind =>
    have memory : onDisk backend = false := beq_eq_false_iff_ne.mpr kind
    rw [memory] at small ⊢
    split at stored
    · cases stored
      rfl
    next ram written =>
      cases stored
      obtain ⟨program,i,found,size,data⟩ := ramfsWrite_found named.clean.short written
      have whole : bytes.take ramfsDataMax = bytes := List.take_of_length_le small
      rw [whole] at size data
      rw [if_pos rfl]
      refine (ramContent_file program found).trans (congrArg some ?_)
      exact map_range_eq.mpr ⟨size,data⟩

theorem fileSize_content {backend : Nat} (ready : st.disk.disk.faults = [])
    (present : fileContent st (onDisk backend) path = some c) : fileSize st backend path = c.length := by
  unfold fileSize
  split
  next kind =>
    rw [show onDisk backend = true from beq_iff_eq.mpr kind] at present
    exact (diskContent_size ready present).2.1
  next kind =>
    rw [show onDisk backend = false from beq_eq_false_iff_ne.mpr kind] at present
    obtain ⟨data,_,same⟩ := Option.map_eq_some_iff.mp present
    rw [← same,List.length_map,List.length_range]

/-- The copy of the old content leaves the files as they are. -/
theorem oldContent_same {f : ProcessFd} {oldSize maxSize : Nat} {old : Option (List Byte)} (ready : st.disk.disk.faults = [])
    (copied : oldContent st f oldSize maxSize = (st',old)) : st'.ram = st.ram ∧ st'.disk = st.disk := by
  unfold oldContent at copied
  split at copied
  · have read := (diskfsRead_file ready f.path maxSize).1
    cases copied
    exact ⟨rfl,congrArg Prod.fst read⟩
  · split at copied
    · cases copied
      exact ⟨rfl,rfl⟩
    · cases copied
      exact ⟨rfl,rfl⟩

theorem oldContent_content {f : ProcessFd} (ready : st.disk.disk.faults = [])
    (present : fileContent st (onDisk f.backend) f.path = some c) :
    (oldContent st f c.length (if f.backend = backendDiskfs then diskfsMaxFileSize else 256)).2 = some c := by
  unfold oldContent
  split
  next kind =>
    rw [show onDisk f.backend = true from beq_iff_eq.mpr kind] at present
    exact present
  next kind =>
    rw [show onDisk f.backend = false from beq_eq_false_iff_ne.mpr kind] at present
    have size : fileSize st f.backend f.path = c.length := fileSize_content ready (by
      rw [show onDisk f.backend = false from beq_eq_false_iff_ne.mpr kind]
      exact present)
    unfold fileSize at size
    rw [if_neg kind] at size
    obtain ⟨data,found,same⟩ := Option.map_eq_some_iff.mp present
    rw [found]
    dsimp only
    rw [← size,same]

theorem appendSlot_only {f f' : ProcessFd} {accepted : Option Nat} (mounted : Mounted st.disk)
    (ready : st.disk.disk.faults = []) (named : PathName f.path) (made : appendSlot st f bytes = (st',f',accepted)) :
    Only st st' (onDisk f.backend) f.path := by
  unfold appendSlot at made
  dsimp only at made
  generalize (if f.backend = backendDiskfs then diskfsMaxFileSize else 256) = maxSize at made
  split at made
  · cases made
    exact .same ready rfl rfl
  split at made
  · cases made
    exact .same ready rfl rfl
  next heap temp _ =>
    split at made
    next st₁ failed =>
      obtain ⟨ram,disk⟩ := @oldContent_same {st with heap} _ _ _ _ _ ready failed
      cases made
      exact .same ready ram disk
    next st₁ old copied =>
      obtain ⟨ram,disk⟩ := @oldContent_same {st with heap} _ _ _ _ _ ready copied
      have same : Only st st₁ (onDisk f.backend) f.path := .same ready ram disk
      have mounted₁ : Mounted st₁.disk := by
        rw [disk]
        exact mounted
      rcases result : storeWhole st₁ f.backend f.path (old ++ bytes) with ⟨st₂,ok⟩
      have after := same.trans (storeWhole_only mounted₁ same.ready named result)
      rw [result] at made
      have freed : Only st {st₂ with heap := kfree st₂.heap temp} (onDisk f.backend) f.path := ⟨after.ready,after.others⟩
      cases ok with
      | false =>
        cases made
        exact freed
      | true =>
        cases made
        exact freed

theorem appendSlot_content {f f' : ProcessFd} {accepted : Option Nat} (mounted : Mounted st.disk)
    (ready : st.disk.disk.faults = []) (named : PathName f.path)
    (present : fileContent st (onDisk f.backend) f.path = some c) (made : appendSlot st f bytes = (st',f',accepted)) :
    fileContent st' (onDisk f.backend) f.path = some (c ++ if accepted.isSome then bytes else []) := by
  have size := fileSize_content ready present
  have unchanged : fileContent st (onDisk f.backend) f.path = some (c ++ []) := by
    rw [List.append_nil]
    exact present
  have limit : (if f.backend = backendDiskfs then diskfsMaxFileSize else 256) = fileLimit (onDisk f.backend) := by
    unfold fileLimit onDisk
    simp only [beq_iff_eq]
    rfl
  have copy {heap} := @oldContent_content {st with heap} c f ready present
  unfold appendSlot at made
  dsimp only at made
  rw [size] at made
  generalize (if f.backend = backendDiskfs then diskfsMaxFileSize else 256) = maxSize at limit made copy
  subst limit
  split at made
  · cases made
    exact unchanged
  next fits =>
    split at made
    · cases made
      exact unchanged
    next heap temp _ =>
      specialize @copy heap
      split at made
      next failed =>
        rw [failed] at copy
        cases copy
      next st₁ old copied =>
        obtain ⟨ram,disk⟩ := @oldContent_same {st with heap} _ _ _ _ _ ready copied
        rw [copied] at copy
        cases copy
        have mounted₁ : Mounted st₁.disk := by
          rw [disk]
          exact mounted
        have ready₁ : st₁.disk.disk.faults = [] := by
          rw [disk]
          exact ready
        have room : (c ++ bytes).length ≤ fileLimit (onDisk f.backend) := by
          rw [List.length_append]
          omega
        rcases result : storeWhole st₁ f.backend f.path (c ++ bytes) with ⟨st₂,ok⟩
        have after := storeWhole_content mounted₁ ready₁ named room result
        rw [result] at made
        cases ok with
        | false =>
          cases made
          rw [if_neg Bool.false_ne_true,fileContent_same ram disk] at after
          exact after.trans unchanged
        | true =>
          cases made
          exact after

/-- An append that does not fit changes nothing. -/
theorem appendSlot_refused {f : ProcessFd} (ready : st.disk.disk.faults = [])
    (present : fileContent st (onDisk f.backend) f.path = some c)
    (large : fileLimit (onDisk f.backend) < c.length + bytes.length) : appendSlot st f bytes = (st,f,none) := by
  have limit : (if f.backend = backendDiskfs then diskfsMaxFileSize else 256) = fileLimit (onDisk f.backend) := by
    unfold fileLimit onDisk
    simp only [beq_iff_eq]
    rfl
  unfold appendSlot
  dsimp only
  rw [fileSize_content ready present,limit,if_pos (by omega)]

/-- A write that would replace the content. -/
def Truncates (f : ProcessFd) : Prop :=
  flagged f.flags vfsFWrite = true ∧ flagged f.flags vfsFAppend = false ∧ f.offset = 0

instance (f : ProcessFd) : Decidable (Truncates f) := inferInstanceAs (Decidable (_ ∧ _ ∧ _))

theorem writeSlot_only {f f' : ProcessFd} {accepted : Option Nat} (mounted : Mounted st.disk)
    (ready : st.disk.disk.faults = []) (named : f.used = true → PathName f.path)
    (made : writeSlot st f bytes = (st',f',accepted)) :
    Only st st' (onDisk f.backend) f.path := by
  unfold writeSlot at made
  split at made
  · cases made
    exact .same ready rfl rfl
  next usable =>
    rw [not_or,Bool.not_eq_false] at usable
    have name := named usable.1
    split at made
    · cases made
      exact .same ready rfl rfl
    split at made
    · exact appendSlot_only mounted ready name made
    · rcases result : storeWhole st f.backend f.path bytes with ⟨st₁,ok⟩
      have after := storeWhole_only mounted ready name result
      rw [result] at made
      cases ok with
      | false =>
        cases made
        exact after
      | true =>
        cases made
        exact after

theorem writeSlot_content {f f' : ProcessFd} {accepted : Option Nat} (mounted : Mounted st.disk)
    (ready : st.disk.disk.faults = []) (named : PathName f.path) (appends : ¬Truncates f)
    (present : fileContent st (onDisk f.backend) f.path = some c) (made : writeSlot st f bytes = (st',f',accepted)) :
    fileContent st' (onDisk f.backend) f.path = some (c ++ if accepted.isSome then bytes else []) := by
  have unchanged : fileContent st (onDisk f.backend) f.path = some (c ++ []) := by
    rw [List.append_nil]
    exact present
  unfold writeSlot at made
  split at made
  · cases made
    exact unchanged
  next usable =>
    rw [not_or,not_or,Bool.not_eq_false,Bool.not_eq_false] at usable
    split at made
    · cases made
      exact unchanged
    next start =>
      split at made
      · exact appendSlot_content mounted ready named present made
      next whole =>
        rw [Bool.not_eq_true] at whole
        exact absurd ⟨usable.2.2,whole,Decidable.not_not.mp fun moved => start ⟨moved,whole⟩⟩ appends

/-- A write that does not fit into the file is refused as it stands. -/
theorem writeSlot_refused {f : ProcessFd} (ready : st.disk.disk.faults = []) (appends : ¬Truncates f)
    (present : fileContent st (onDisk f.backend) f.path = some c)
    (large : fileLimit (onDisk f.backend) < c.length + bytes.length) : writeSlot st f bytes = (st,f,none) := by
  unfold writeSlot
  split
  · rfl
  next usable =>
    rw [not_or,not_or,Bool.not_eq_false,Bool.not_eq_false] at usable
    split
    · rfl
    next start =>
      split
      · exact appendSlot_refused ready present large
      next whole =>
        rw [Bool.not_eq_true] at whole
        exact absurd ⟨usable.2.2,whole,Decidable.not_not.mp fun moved => start ⟨moved,whole⟩⟩ appends

theorem readSlot_files (ready : st.disk.disk.faults = []) (f : ProcessFd) (length : Nat) :
    (readSlot st f length).1.ram = st.ram ∧ (readSlot st f length).1.disk = st.disk := by
  refine ⟨?_,(readSlot_same ready f length).1⟩
  unfold readSlot
  split
  · rfl
  dsimp only
  split
  · rfl
  split
  · split
    · rfl
    · split <;> rfl
  · split <;> rfl

/-- A new file is made beside the others. -/
theorem createFile_other {g : List Byte} (mounted : Mounted st.disk) (ready : st.disk.disk.faults = [])
    (named : PathName path) (name : PathName g) (other : g ≠ path) (disk : Bool) :
    (createFile st path).1.disk.disk.faults = [] ∧ fileContent (createFile st path).1 disk g = fileContent st disk g := by
  have memory {st' : Store} {ram : RamFs} (written : ramfsWrite st'.ram path [] = some ram) :
      fileContent {st' with ram} disk g = fileContent st' disk g := by
    cases disk with
    | false => exact ramfsWrite_other named other written
    | true => rfl
  unfold createFile
  cases available : diskfsAvailable st.disk with
  | false =>
    simp only [Bool.false_eq_true,if_false]
    cases written : ramfsWrite st.ram path [] with
    | none => exact ⟨ready,rfl⟩
    | some ram => exact ⟨ready,memory written⟩
  | true =>
    simp only [if_true]
    have elsewhere := @diskfsWrite_elsewhere st.disk path g [] named name other mounted ready
    have still : fileContent {st with disk := (diskfsWrite st.disk path []).1} disk g = fileContent st disk g := by
      cases disk with
      | false => rfl
      | true => exact elsewhere.content mounted ready name
    split
    · exact ⟨elsewhere.ready,still⟩
    · cases written : ramfsWrite st.ram path [] with
      | none => exact ⟨elsewhere.ready,still⟩
      | some ram =>
        have kept := @memory {st with disk := (diskfsWrite st.disk path []).1} ram written
        exact ⟨elsewhere.ready,kept.trans still⟩

/-- A path with a file has a back end. -/
theorem backendFor_present (ready : st.disk.disk.faults = []) (present : fileContent st disk path = some c) :
    backendFor st path ≠ backendNone := by
  unfold backendFor
  split
  · decide
  next absent =>
    cases disk with
    | false =>
      obtain ⟨data,found,_⟩ := Option.map_eq_some_iff.mp present
      rw [found] at absent
      exact absurd rfl absent
    | true =>
      rw [show diskfsExists st.disk path = true from (diskContent_size ready present).1]
      split
      · decide
      next missing =>
        have known := (diskContent_size ready present).1
        rw [diskfsExists,Bool.and_eq_true] at known
        rw [Bool.and_true] at missing
        exact absurd known.1 missing

theorem openSlot_content (mounted : Mounted st.disk) (ready : st.disk.disk.faults = []) (fds : FdTable)
    {opened : List Byte} (name : PathName opened) (named : PathName path) (flags : Nat)
    (present : fileContent st disk path = some c) :
    (openSlot st fds opened flags).1.disk.disk.faults = [] ∧
      fileContent (openSlot st fds opened flags).1 disk path = some c := by
  rw [openSlot_store]
  split
  next created =>
    have other : path ≠ opened := by
      rintro rfl
      exact backendFor_present ready present created.1
    obtain ⟨after,same⟩ := createFile_other mounted ready name named other disk
    exact ⟨after,same.trans present⟩
  · exact ⟨ready,present⟩

/-- A removal takes one file from one back end. -/
theorem vfsRemove_content {src : List Byte} (mounted : Mounted st.disk) (ready : st.disk.disk.faults = [])
    (named : PathName path) (kept : pathNormalize src = some path → onDisk (backendFor st path) ≠ disk) :
    (vfsRemove st src).1.disk.disk.faults = [] ∧ fileContent (vfsRemove st src).1 disk path = fileContent st disk path := by
  unfold vfsRemove
  split
  · exact ⟨ready,rfl⟩
  next gone normal =>
    have name := pathName_normal normal
    split
    next memory =>
      have backend : backendFor st gone = backendRamfs := by rw [backendFor,if_pos memory]
      split
      · exact ⟨ready,rfl⟩
      next ram taken =>
        refine ⟨ready,?_⟩
        cases disk with
        | true => rfl
        | false =>
          refine ramfsRemove_other ?_ taken
          rintro rfl
          exact kept normal (by rw [backend]; rfl)
    next memory =>
      split
      next found =>
        have backend : backendFor st gone = backendDiskfs := by rw [backendFor,if_neg memory,if_pos found]
        refine ⟨diskfsRemove_ready ready,?_⟩
        cases disk with
        | false => rfl
        | true =>
          have other : path ≠ gone := by
            rintro rfl
            exact kept normal (by rw [backend]; rfl)
          exact (diskfsRemove_elsewhere name named other ready).content mounted ready named
      · exact ⟨ready,rfl⟩

end Stores

/-- The used descriptors hold the names of paths. -/
def Clean (fds : FdTable) : Prop := ∀ i, (fds i).used = true → PathName (fds i).path

theorem readSlot_file (st : Store) (f : ProcessFd) (length : Nat) : SameFile f (readSlot st f length).2.1 := by
  have still : SameFile f f := ⟨rfl,rfl,rfl⟩
  unfold readSlot
  split
  · exact still
  dsimp only
  split
  · exact still
  split
  · split
    · exact still
    · split
      · exact still
      · exact ⟨rfl,rfl,rfl⟩
  · split
    · exact still
    · exact ⟨rfl,rfl,rfl⟩

theorem appendSlot_file (st : Store) (f : ProcessFd) (bytes : List Byte) : SameFile f (appendSlot st f bytes).2.1 := by
  have still : SameFile f f := ⟨rfl,rfl,rfl⟩
  unfold appendSlot
  dsimp only
  generalize (if f.backend = backendDiskfs then diskfsMaxFileSize else 256) = maxSize
  split
  · exact still
  split
  · exact still
  split
  · exact still
  · split
    · exact ⟨rfl,rfl,rfl⟩
    · exact still

theorem writeSlot_file (st : Store) (f : ProcessFd) (bytes : List Byte) : SameFile f (writeSlot st f bytes).2.1 := by
  have still : SameFile f f := ⟨rfl,rfl,rfl⟩
  unfold writeSlot
  split
  · exact still
  split
  · exact still
  split
  · exact appendSlot_file st f bytes
  · split
    · exact still
    · exact ⟨rfl,rfl,rfl⟩

section Tables
variable {st : Store} {fds : FdTable}

theorem Clean.update (clean : Clean fds) (i : Nat) {f : ProcessFd} (new : f.used = true → PathName f.path) :
    Clean (Function.update fds i f) := by
  intro j
  by_cases same : j = i
  · subst same
    rw [Function.update_self]
    exact new
  · rw [Function.update_of_ne same]
    exact clean j

theorem Clean.moved (clean : Clean fds) (i : Nat) {f : ProcessFd} (same : SameFile (fds i) f) :
    Clean (Function.update fds i f) := by
  obtain ⟨used,_,path⟩ := same
  refine clean.update i ?_
  rw [used,path]
  exact clean i

theorem clean_closed : Clean fun _ => default := fun _ used => Bool.noConfusion used

theorem openSlot_clean (clean : Clean fds) {path : List Byte} (named : PathName path) (flags : Nat) :
    Clean (openSlot st fds path flags).2.1 := by
  unfold openSlot
  dsimp only
  split
  · exact clean
  generalize (if backendFor st path = backendNone then createFile st path
    else (st,backendFor st path)) = target
  split
  · exact clean
  split
  · exact clean
  next i _ => exact clean.update i fun _ => named

theorem fileStep_clean (clean : Clean fds) (call : FileCall) : Clean (fileStep (st,fds) call).2 := by
  cases call with
  | opened src flags =>
    simp only [fileStep,vfsOpen]
    cases normal : pathNormalize src with
    | none => exact clean
    | some path => exact openSlot_clean clean (pathName_normal normal) flags
  | closed fd =>
    change Clean (vfsClose fds fd).1
    unfold vfsClose
    split
    · exact clean
    · exact clean.update fd.toNat fun used => Bool.noConfusion used
  | read fd length =>
    simp only [fileStep,vfsRead]
    split
    · exact clean
    · exact clean.moved fd.toNat (readSlot_file st (fds fd.toNat) length)
  | wrote fd bytes =>
    simp only [fileStep,vfsWrite]
    split
    · exact clean
    · exact clean.moved fd.toNat (writeSlot_file st (fds fd.toNat) bytes)
  | removed src => exact clean

/-- The call neither removes the file nor replaces its content. -/
def Appending (disk : Bool) (path : List Byte) (st : Store) (fds : FdTable) : FileCall → Prop
  | .wrote fd _ => 0 ≤ fd ∧ fd < vfsFdMax → OnFile (fds fd.toNat) disk path → ¬Truncates (fds fd.toNat)
  | .removed src => pathNormalize src = some path → onDisk (backendFor st path) ≠ disk
  | .opened _ _ => True
  | .closed _ => True
  | .read _ _ => True

instance (disk : Bool) (path : List Byte) (st : Store) (fds : FdTable) (call : FileCall) :
    Decidable (Appending disk path st fds call) := by
  cases call <;> delta Appending <;> infer_instance

/-- What a call adds to the file: the bytes of a write that is accepted. -/
def gained (disk : Bool) (path : List Byte) (st : Store) (fds : FdTable) : FileCall → List Byte
  | .wrote fd bytes => if OnFile (fds fd.toNat) disk path ∧ (vfsWrite st fds fd bytes).2.2.isSome then bytes else []
  | _ => []

theorem fileStep_content {disk : Bool} {path c : List Byte} (mounted : Mounted st.disk) (ready : st.disk.disk.faults = [])
    (clean : Clean fds) (named : PathName path) (present : fileContent st disk path = some c) (call : FileCall)
    (appending : Appending disk path st fds call) : (fileStep (st,fds) call).1.disk.disk.faults = [] ∧
      fileContent (fileStep (st,fds) call).1 disk path = some (c ++ gained disk path st fds call) := by
  have unchanged : fileContent st disk path = some (c ++ []) := by
    rw [List.append_nil]
    exact present
  cases call with
  | opened src flags =>
    simp only [fileStep,vfsOpen]
    cases normal : pathNormalize src with
    | none => exact ⟨ready,unchanged⟩
    | some opened =>
      obtain ⟨after,content⟩ := openSlot_content mounted ready fds (pathName_normal normal) named flags present
      exact ⟨after,content.trans (present.symm.trans unchanged)⟩
  | closed fd => exact ⟨ready,unchanged⟩
  | read fd length =>
    simp only [fileStep,vfsRead]
    split
    · exact ⟨ready,unchanged⟩
    · obtain ⟨ram,same⟩ := readSlot_files ready (fds fd.toNat) length
      exact ⟨(congrArg (fun d => d.disk.faults) same).trans ready,(fileContent_same ram same disk path).trans unchanged⟩
  | wrote fd bytes =>
    simp only [fileStep,gained,vfsWrite]
    split
    · rw [if_neg fun both => Bool.false_ne_true both.2]
      exact ⟨ready,unchanged⟩
    next inside =>
      rcases made : writeSlot st (fds fd.toNat) bytes with ⟨st',f,accepted⟩
      have only := writeSlot_only mounted ready (clean fd.toNat) made
      refine ⟨only.ready,?_⟩
      dsimp only
      by_cases own : OnFile (fds fd.toNat) disk path
      · obtain ⟨used,back,here⟩ := own
        have still := appending (by omega) ⟨used,back,here⟩
        subst here
        subst back
        rw [writeSlot_content mounted ready named still present made]
        simp only [OnFile,used,true_and]
      · rw [if_neg fun both => own both.1]
        cases used : (fds fd.toNat).used with
        | false =>
          -- a closed descriptor takes no write
          rw [writeSlot,if_pos (.inl used)] at made
          cases made
          exact unchanged
        | true =>
          have other : disk ≠ onDisk (fds fd.toNat).backend ∨ path ≠ (fds fd.toNat).path := by
            by_contra both
            rw [not_or,not_not,not_not] at both
            exact own ⟨used,both.1.symm,both.2.symm⟩
          exact (only.others disk path named other).trans unchanged
  | removed src =>
    obtain ⟨after,content⟩ := @vfsRemove_content st disk path src mounted ready named appending
    exact ⟨after,content.trans unchanged⟩

end Tables

/-- A machine on any disk, before its first call. -/
def started (programs : Nat → List Byte) (files : Nat → RamFile) (heap : Heap) (disk : Disk) : Machine where
  store := Files.boot programs files heap disk
  tables := fun _ _ => default
  ledger := fun _ => none

structure Sane (m : Machine) : Prop where
  mounted : Mounted m.store.disk
  clean : ∀ table, Clean (m.tables table)

theorem boot_mounted (programs : Nat → List Byte) (files : Nat → RamFile) (heap : Heap) (disk : Disk) :
    Mounted (Files.boot programs files heap disk).disk :=
  @diskfsInit_mounted disk true (diskfsInit disk true).2 (diskfsInit disk true).1 rfl

theorem started_sane (programs : Nat → List Byte) (files : Nat → RamFile) (heap : Heap) (disk : Disk) :
    Sane (started programs files heap disk) :=
  ⟨boot_mounted programs files heap disk,fun _ => clean_closed⟩

theorem sane_machine {m : Machine} (call : MachineCall) (sane : Sane m) : Sane (machineStep m call) := by
  obtain ⟨mounted,clean⟩ := sane
  have replaced (table : Nat) {fds : FdTable} (new : Clean fds) (t : Nat) :
      Clean (Function.update m.tables table fds t) := by
    by_cases same : t = table
    · subst same
      rw [Function.update_self]
      exact new
    · rw [Function.update_of_ne same]
      exact clean t
  cases call with
  | file table call =>
    exact ⟨fileStep_mounted (m.store,m.tables table) call mounted,replaced table (fileStep_clean (clean table) call)⟩
  | forked parent child => exact ⟨mounted,replaced child (clean parent)⟩
  | cleared table => exact ⟨mounted,replaced table clean_closed⟩
  | allocated heap => exact ⟨mounted,clean⟩
  | rebooted files heap => exact ⟨boot_mounted _ files heap _,fun _ => clean_closed⟩

/-- The machine stays up, and its calls neither remove the file nor replace its content. -/
def Appends (disk : Bool) (path : List Byte) (m : Machine) : MachineCall → Prop
  | .file table call => Appending disk path m.store (m.tables table) call
  | .rebooted _ _ => False
  | .forked _ _ => True
  | .cleared _ => True
  | .allocated _ => True

instance (disk : Bool) (path : List Byte) (m : Machine) (call : MachineCall) : Decidable (Appends disk path m call) := by
  cases call <;> delta Appends <;> infer_instance

/-- The bytes of the writes to the file that are accepted in a run, in the order of the calls. -/
def appended (disk : Bool) (path : List Byte) : Machine → List MachineCall → List Byte
  | _, [] => []
  | m, .file table call::rest =>
    gained disk path m.store (m.tables table) call ++ appended disk path (machineStep m (.file table call)) rest
  | m, call::rest => appended disk path (machineStep m call) rest

section Runs
variable {disk : Bool} {path c : List Byte}

theorem run_content {m : Machine} {calls : List MachineCall} (sane : Sane m) (ready : m.store.disk.disk.faults = [])
    (named : PathName path) (present : fileContent m.store disk path = some c)
    (appends : Meets machineStep (Appends disk path) m calls) : (run machineStep m calls).store.disk.disk.faults = [] ∧
      fileContent (run machineStep m calls).store disk path = some (c ++ appended disk path m calls) := by
  induction calls generalizing m c with
  | nil =>
    rw [appended,List.append_nil]
    exact ⟨ready,present⟩
  | cons call rest ih =>
    obtain ⟨now,later⟩ := appends
    have after := sane_machine call sane
    cases call with
    | file table call =>
      obtain ⟨ready',content⟩ := fileStep_content sane.mounted ready (sane.clean table) named present call now
      rw [appended,← List.append_assoc]
      exact ih after ready' content later
    | forked parent child => exact ih after ready present later
    | cleared table => exact ih after ready present later
    | allocated heap => exact ih after ready present later
    | rebooted files heap => exact now.elim

/-- Whatever came before: from the last device failure on, a file that is neither removed nor
replaced has its content and then the bytes of every accepted write, in the order of the
calls; and a write past the limit of its back end is refused and leaves the machine as it is. -/
theorem appends_kept (programs : Nat → List Byte) (files : Nat → RamFile) (heap : Heap) (sectors : Disk)
    (before calls : List MachineCall) (src : List Byte) :
    let m := run machineStep (started programs files heap sectors) before
    m.store.disk.disk.faults = [] → pathNormalize src = some path → fileContent m.store disk path = some c →
      Meets machineStep (Appends disk path) m calls →
        let now := run machineStep m calls
        let content := c ++ appended disk path m calls
        fileContent now.store disk path = some content ∧
          ∀ table fd bytes, OnFile (now.tables table fd) disk path → flagged (now.tables table fd).flags vfsFWrite = true →
            flagged (now.tables table fd).flags vfsFAppend = true → fileLimit disk < content.length + bytes.length →
              (vfsWrite now.store (now.tables table) fd bytes).2.2 = none ∧
                machineStep now (.file table (.wrote fd bytes)) = now := by
  intro m ready normal present appends now content
  have sane : Sane m := run_invariant (fun m call held => sane_machine call held) (started_sane programs files heap sectors)
  obtain ⟨ready',whole⟩ := run_content sane ready (pathName_normal normal) present appends
  refine ⟨whole,?_⟩
  intro table fd bytes opened _ append large
  have kept : ¬Truncates (now.tables table fd) := fun whole => Bool.noConfusion (append.symm.trans whole.2.1)
  obtain ⟨_,back,here⟩ := opened
  subst here
  subst back
  have refused := writeSlot_refused ready' kept whole large
  have result : vfsWrite now.store (now.tables table) fd bytes = (now.store,now.tables table,none) := by
    unfold vfsWrite
    split
    · rfl
    · rw [Int.toNat_natCast,refused]
      dsimp only
      rw [Function.update_eq_self]
  refine ⟨by rw [result],?_⟩
  simp only [machineStep,fileStep,recorded,result,wrote]
  rw [Function.update_eq_self]

end Runs

def letterMachine : Machine := started (fun _ => []) (fun _ => default) bareStore.heap freshDisk

/-- Two processes open a new file of the disk for appending. -/
def letterOpens : List MachineCall := [.file 0 (.opened letter 6),.file 1 (.opened letter 6)]

def letterWrites : List MachineCall := [.file 0 (.wrote 0 [1]),.file 1 (.wrote 0 [2,3]),.file 0 (.wrote 0 [4])]

/-- The place of the first descriptor is behind the end of the file when it writes again. -/
theorem appends_kept_letter : fileContent (run machineStep (run machineStep letterMachine letterOpens) letterWrites).store
    true letter = some [1,2,3,4] := by
  have normal : pathNormalize letter = some letter := by decide +kernel
  have ready : (run machineStep letterMachine letterOpens).store.disk.disk.faults = [] := by decide +kernel
  have empty : fileContent (run machineStep letterMachine letterOpens).store true letter = some [] := by decide +kernel
  have appends : Meets machineStep (Appends true letter) (run machineStep letterMachine letterOpens) letterWrites := by
    decide +kernel
  have bytes : appended true letter (run machineStep letterMachine letterOpens) letterWrites = [1,2,3,4] := by decide +kernel
  have kept := (appends_kept (fun _ => []) (fun _ => default) bareStore.heap freshDisk letterOpens letterWrites letter
    ready normal empty appends).1
  exact kept.trans (congrArg (fun added => some ([] ++ added)) bytes)

end LionOS.Files

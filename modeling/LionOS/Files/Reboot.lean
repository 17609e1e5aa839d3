import LionOS.Files.Crash
import LionOS.Files.WriteRead

/-! Runs of file calls of all processes, with restarts of the machine in between: what
becomes of the files that the calls put on the disk. -/
namespace LionOS.Files
open LionOS.Memory LionOS.Physical LionOS.Processes LionOS.Library

/-- `ramfs_init` and then `diskfs_init` on a disk, with what is in the memory of the file
table and with the heap as it is then. -/
def boot (programs : Nat → List Byte) (files : Nat → RamFile) (heap : Heap) (disk : Disk) : Store where
  ram := ramfsInit ⟨programs,files,0⟩
  disk := (diskfsInit disk true).1
  heap := heap

/-- What the callers know of the disk: the content that it took last under each path, if
the file was not removed from it since. -/
abbrev Ledger := List Byte → Option (List Byte)

def took (l : Ledger) (backend : Nat) (path bytes : List Byte) : Ledger :=
  if backend = backendDiskfs then Function.update l path (some bytes) else l

def dropped (l : Ledger) (backend : Nat) (path : List Byte) : Ledger :=
  if backend = backendDiskfs then Function.update l path none else l

def wrote (l : Ledger) (f : ProcessFd) (bytes : List Byte) (accepted : Option Nat) : Ledger :=
  match accepted with
  | none => l
  | some _ => took l f.backend f.path ((if flagged f.flags vfsFAppend then (l f.path).getD [] else []) ++ bytes)

/-- The ledger after a call, from the results of the call. -/
def recorded (l : Ledger) (st : Store) (fds : FdTable) : FileCall → Ledger
  | .opened src flags => match pathNormalize src with
    | none => l
    | some path =>
      if backendFor st path = backendNone ∧ flagged flags vfsFWrite = true then
        let backend := (createFile st path).2
        if backend = backendNone then l else took l backend path []
      else l
  | .wrote fd bytes => wrote l (fds fd.toNat) bytes (vfsWrite st fds fd bytes).2.2
  | .removed src => match pathNormalize src with
    | none => l
    | some path => if (vfsRemove st src).2 then dropped l (backendFor st path) path else l
  | .closed _ => l
  | .read _ _ => l

structure Machine where
  store : Store
  tables : Nat → FdTable
  ledger : Ledger

/-- A file call on the descriptors of a process or of the kernel, the descriptors of a new
process, a change of the heap by another part of the kernel, and a restart. -/
inductive MachineCall
  | file (table : Nat) (call : FileCall)
  | forked (parent child : Nat)
  | cleared (table : Nat)
  | allocated (heap : Heap)
  | rebooted (files : Nat → RamFile) (heap : Heap)

def machineStep (m : Machine) : MachineCall → Machine
  | .file table call =>
    let (store,fds) := fileStep (m.store,m.tables table) call
    ⟨store,Function.update m.tables table fds,recorded m.ledger m.store (m.tables table) call⟩
  | .forked parent child => {m with tables := Function.update m.tables child (m.tables parent)}
  | .cleared table => {m with tables := Function.update m.tables table fun _ => default}
  | .allocated heap => {m with store := {m.store with heap}}
  | .rebooted files heap =>
    {m with store := boot m.store.ram.programs files heap m.store.disk.disk,tables := fun _ _ => default}

def firstBoot (programs : Nat → List Byte) (files : Nat → RamFile) (heap : Heap) : Machine where
  store := boot programs files heap freshDisk
  tables := fun _ _ => default
  ledger := fun _ => none

section Disk
variable {d d' : DiskFs} {name : Text} {bytes : List Byte}

theorem Synced.others (synced : Synced d) (call : DiskCall) {g : Text} (other : g.chars ≠ call.name.chars) :
    diskFile (diskStep d call) g.chars = diskFile d g.chars := by
  have made := diskStep_performs d call
  have after := performs_reached d.disk (transfers d call)
  have still := performs_ready synced.ready (transfers d call)
  rw [← made] at after still
  rw [synced.ready,reached_nil,List.take_length] at after
  have disk : (diskStep d call).disk = ⟨Library.written d.disk.sectors (transfers d call),[]⟩ := by
    rw [← after.1,← still]
  have remounts : Synced (diskStep d call) := by
    cases call with
    | write name bytes => exact synced.write name bytes
    | remove name => exact synced.remove name
  have mounted := remounts.remount
  rw [disk] at mounted
  have spared {i : Nat} (mount : ∃ d', diskfsInit ⟨Library.written d.disk.sectors (transfers d call),[]⟩ true = (d',true) ∧
      Spared d d' i call.name.chars) : diskFile (diskStep d call) g.chars = diskFile d g.chars := by
    obtain ⟨d',again,differ⟩ := mount
    rw [mounted] at again
    cases again
    exact differ.file synced.tidy g.ends other
  cases call with
  | write name bytes =>
    cases given : admitted d name.chars bytes with
    | none => rw [diskStep,diskfsWrite_refused given]
    | some claim =>
      obtain ⟨c,i⟩ := claim
      have crash := store_crash synced given (storeWrites c i bytes).length
      rw [List.take_length] at crash
      simp only [transfers,given] at spared
      exact spared crash
  | remove name =>
    cases found : diskfsFind d.entries name.chars with
    | none => rw [diskStep,diskfsRemove_refused (.inr found)]
    | some i =>
      have crash := drop_crash synced found (dropWrites d i).length
      rw [List.take_length] at crash
      simp only [transfers,found,synced.available,if_true] at spared
      exact spared crash

theorem Synced.mounted (synced : Synced d) : Mounted d := fun _ _ _ live => (synced.tidy.file live).2.own

theorem readData_disk {disk : Disk} (ready : disk.faults = []) (lba remaining count : Nat) :
    (readData disk lba remaining count).1 = disk := by
  induction count generalizing lba remaining with
  | zero => rfl
  | succ count ih =>
    have rest := ih (lba + 1) (remaining - min remaining ataSectorSize)
    simp only [readData,ataReadSector_ok ready]
    rcases taken : readData disk (lba + 1) (remaining - min remaining ataSectorSize) count with ⟨disk',bytes⟩
    rw [taken] at rest
    cases bytes with
    | none => exact rest
    | some bytes => exact rest

/-- A read with room for the file gives the file and changes nothing. -/
theorem diskfsRead_file (ready : d.disk.faults = []) (g : List Byte) (capacity : Nat) :
    diskfsRead d g capacity = (d,(diskfsRead d g capacity).2) ∧
      (diskfsSize d g ≤ capacity → (diskfsRead d g capacity).2 = (diskFile d g).bind Prod.snd) := by
  unfold diskFile diskfsExists diskfsSize diskfsRead
  cases available : d.available with
  | false => exact ⟨rfl,fun _ => rfl⟩
  | true =>
    cases found : diskfsFind d.entries g with
    | none => exact ⟨rfl,fun _ => rfl⟩
    | some i =>
      simp only [Bool.not_true,Bool.false_eq_true,if_false,Nat.lt_irrefl,Option.isSome_some,Bool.and_self,if_true,
        Option.bind_some]
      split
      next large => exact ⟨rfl,fun enough => absurd enough (Nat.not_le.mpr large)⟩
      · refine ⟨?_,fun _ => rfl⟩
        rw [readData_disk ready]
        cases d
        dsimp only at available
        rw [available]

end Disk

/-- The disk is in step with its table and holds exactly the contents that are stored;
none of these files has the name of a program. -/
structure Holds (d : DiskFs) (stored : List Byte → Option (List Byte)) : Prop where
  synced : Synced d
  files : ∀ g : Text, diskFile d g.chars = (stored g.chars).map fun c => (c.length,some c)
  unlinked : ∀ g, stored g ≠ none → programIndex g = none

section Holding
variable {d d' : DiskFs} {stored : List Byte → Option (List Byte)} {name : Text} {bytes : List Byte}

theorem Holds.updated (held : Holds d stored) (synced : Synced d') (content : Option (List Byte))
    (linked : content ≠ none → programIndex name.chars = none)
    (own : diskFile d' name.chars = content.map fun c => (c.length,some c))
    (others : ∀ g : Text, g.chars ≠ name.chars → diskFile d' g.chars = diskFile d g.chars) :
    Holds d' (Function.update stored name.chars content) := by
  refine ⟨synced,?_,?_⟩
  · intro g
    by_cases same : g.chars = name.chars
    · rw [same,own,Function.update_self]
    · rw [others g same,held.files g,Function.update_of_ne same]
  · intro g present
    by_cases same : g = name.chars
    · subst same
      rw [Function.update_self] at present
      exact linked present
    · rw [Function.update_of_ne same] at present
      exact held.unlinked g present

theorem Holds.write (held : Holds d stored) (program : programIndex name.chars = none)
    (made : diskfsWrite d name.chars bytes = (d',true)) :
    Holds d' (Function.update stored name.chars (some bytes)) := by
  have step : diskStep d (.write name bytes) = d' := by rw [diskStep,made]
  have synced : Synced d' := by
    rw [← step]
    exact held.synced.write name bytes
  obtain ⟨present,size,read⟩ := diskfsWrite_read held.synced.mounted held.synced.ready name.ends made
  refine held.updated synced (some bytes) (fun _ => program) ?_ ?_
  · have whole := (diskfsRead_file synced.ready name.chars diskfsMaxFileSize).2
    have small : bytes.length ≤ diskfsMaxFileSize := by
      obtain ⟨_,_,_,_,_,room,_⟩ := diskfsWrite_stored held.synced.mounted held.synced.ready name.ends made
      exact room
    rw [size,read] at whole
    have file : diskFile d' name.chars = some (bytes.length,(diskfsRead d' name.chars bytes.length).2) := by
      rw [diskFile,if_pos present,size]
    have content := whole small
    rw [file,Option.bind_some] at content
    rw [file,← content]
    rfl
  · intro g other
    rw [← step]
    exact held.synced.others (.write name bytes) other

theorem Holds.remove (held : Holds d stored) (made : diskfsRemove d name.chars = (d',true)) :
    Holds d' (Function.update stored name.chars none) := by
  have step : diskStep d (.remove name) = d' := by rw [diskStep,made]
  have synced : Synced d' := by
    rw [← step]
    exact held.synced.remove name
  refine held.updated synced none (fun present => absurd rfl present) ?_ ?_
  · rw [diskFile,diskfsExists]
    cases found : diskfsFind d.entries name.chars with
    | none =>
      rw [diskfsRemove_refused (.inr found)] at made
      cases (Prod.ext_iff.mp made).2
    | some i =>
      have entries : d'.entries = (removed d i).entries := by
        rw [diskfsRemove_transfers held.synced.available found] at made
        exact (congrArg (fun result => result.1.entries) made).symm
      have absent : diskfsFind d'.entries name.chars = none := by
        by_contra present
        obtain ⟨j,still⟩ := Option.ne_none_iff_exists'.mp present
        have named := (synced.tidy.find name.ends).mp still
        have before := (held.synced.tidy.find name.ends).mp found
        rw [entries] at named
        by_cases own : j = i
        · subst own
          have gone : (removed d j).entries j = blankEntry := Function.update_self _ _ _
          rw [gone] at named
          exact named.first rfl
        · have other : (removed d i).entries j = d.entries j := Function.update_of_ne own _ _
          rw [other] at named
          exact own (held.synced.tidy.distinct named before)
      rw [absent,Option.isSome_none,Bool.and_false]
      rfl
  · intro g other
    rw [← step]
    exact held.synced.others (.remove name) other

theorem Holds.removeRefused (held : Holds d stored) (failed : diskfsRemove d name.chars = (d',false)) : d' = d := by
  cases found : diskfsFind d.entries name.chars with
  | none =>
    rw [diskfsRemove_refused (.inr found)] at failed
    exact (Prod.ext_iff.mp failed).1.symm
  | some i =>
    rw [diskfsRemove_transfers held.synced.available found,held.synced.ready,reached_nil,decide_eq_true rfl] at failed
    cases (Prod.ext_iff.mp failed).2

theorem Holds.read (held : Holds d stored) {content : List Byte} (present : stored name.chars = some content) :
    diskfsExists d name.chars = true ∧ diskfsSize d name.chars = content.length ∧ content.length ≤ diskfsMaxFileSize ∧
      diskfsRead d name.chars diskfsMaxFileSize = (d,some content) := by
  have file := held.files name
  rw [present] at file
  have whole := diskfsRead_file held.synced.ready name.chars diskfsMaxFileSize
  rw [file] at whole
  unfold diskFile at file
  split at file
  next exists_ =>
    simp only [Option.map_some,Option.some.injEq,Prod.mk.injEq] at file
    have small : content.length ≤ diskfsMaxFileSize := by
      rw [diskfsExists,Bool.and_eq_true] at exists_
      obtain ⟨i,found⟩ := Option.isSome_iff_exists.mp exists_.2
      have named := (held.synced.tidy.find name.ends).mp found
      have bound := (held.synced.tidy.file named.first).2.small
      rw [← file.1,diskfsSize,found]
      exact bound
    have read := whole.2 (file.1 ▸ small)
    refine ⟨exists_,file.1,small,?_⟩
    rw [whole.1,read]
    rfl
  next absent => cases file

end Holding

/-- What a descriptor of the disk says about its file. -/
def Owned (fds : FdTable) : Prop :=
  ∀ i, (fds i).used = true → (fds i).backend = backendDiskfs → 0 ∉ (fds i).path ∧ programIndex (fds i).path = none

section Stores
variable {st : Store} {l : Ledger}

theorem unlinked_path {r : RamFs} {path : List Byte} (absent : ramfsData r path = none) : programIndex path = none := by
  unfold ramfsData at absent
  split at absent
  · cases absent
  next program => exact program

theorem createFile_holds (held : Holds st.disk l) {path : List Byte} (text : 0 ∉ path)
    (program : programIndex path = none) :
    Holds (createFile st path).1.disk
      (if (createFile st path).2 = backendNone then l else took l (createFile st path).2 path []) := by
  have available : diskfsAvailable st.disk = true := held.synced.available
  rcases made : diskfsWrite st.disk path [] with ⟨disk,stored⟩
  cases stored with
  | true =>
    rw [createFile,if_pos available,made]
    exact @Holds.write st.disk disk l ⟨path,text⟩ [] held program made
  | false =>
    have same := diskfsWrite_failed held.synced.ready made
    subst same
    cases stored : ramfsWrite st.ram path [] with
    | none =>
      have kept : createFile st path = (st,backendNone) := by
        simp only [createFile,available,made,stored,if_true,Bool.false_eq_true,if_false]
      rw [kept]
      exact held
    | some ram =>
      have taken : createFile st path = ({st with ram},backendRamfs) := by
        simp only [createFile,available,made,stored,if_true,Bool.false_eq_true,if_false]
      rw [taken]
      exact held

theorem openSlot_store (st : Store) (fds : FdTable) (path : List Byte) (flags : Nat) :
    (openSlot st fds path flags).1 =
      if backendFor st path = backendNone ∧ flagged flags vfsFWrite = true then (createFile st path).1 else st := by
  unfold openSlot
  dsimp only
  by_cases absent : backendFor st path = backendNone
  · simp only [absent,true_and,if_true]
    cases write : flagged flags vfsFWrite with
    | false => rfl
    | true =>
      rcases createFile st path with ⟨st',backend⟩
      dsimp only
      split
      · rename_i impossible
        cases impossible
      split
      · rfl
      · split <;> rfl
  · simp only [absent,false_and,if_false]
    split <;> rfl

theorem storeWhole_holds {st' : Store} {backend : Nat} {path bytes : List Byte} {ok : Bool}
    (held : Holds st.disk l) (owned : backend = backendDiskfs → 0 ∉ path ∧ programIndex path = none)
    (stored : storeWhole st backend path bytes = (st',ok)) :
    Holds st'.disk (if ok then took l backend path bytes else l) := by
  unfold storeWhole at stored
  split at stored
  next disk =>
    obtain ⟨text,program⟩ := owned disk
    rcases made : diskfsWrite st.disk path bytes with ⟨after,accepted⟩
    rw [made] at stored
    cases stored
    cases ok with
    | true =>
      rw [if_pos rfl,took,if_pos disk]
      exact @Holds.write st.disk after l ⟨path,text⟩ bytes held program made
    | false =>
      have same := diskfsWrite_failed held.synced.ready made
      subst same
      exact held
  next memory =>
    split at stored
    · cases stored
      exact held
    · cases stored
      rw [if_pos rfl,took,if_neg memory]
      exact held

/-- The old content that an append copies is the one in the ledger. -/
theorem oldContent_holds {st' : Store} {f : ProcessFd} {oldSize maxSize : Nat} {content : Option (List Byte)}
    (held : Holds st.disk l) (owned : f.backend = backendDiskfs → 0 ∉ f.path ∧ programIndex f.path = none)
    (room : f.backend = backendDiskfs → maxSize = diskfsMaxFileSize)
    (copied : oldContent st f oldSize maxSize = (st',content)) :
    st'.disk = st.disk ∧ (f.backend = backendDiskfs → ∀ old, content = some old → l f.path = some old) := by
  unfold oldContent at copied
  split at copied
  next disk =>
    obtain ⟨text,program⟩ := owned disk
    have read := diskfsRead_file held.synced.ready f.path maxSize
    rcases result : diskfsRead st.disk f.path maxSize with ⟨after,bytes⟩
    rw [result] at copied read
    cases copied
    refine ⟨congrArg Prod.fst read.1,?_⟩
    rintro _ old rfl
    cases present : l f.path with
    | none =>
      have file := held.files ⟨f.path,text⟩
      rw [present,diskFile,diskfsExists,held.synced.available,Bool.true_and] at file
      cases found : diskfsFind st.disk.entries f.path with
      | none =>
        rw [diskfsRead,found] at result
        simp at result
      | some i =>
        rw [found] at file
        cases file
    | some content =>
      obtain ⟨_,_,_,whole⟩ := @Holds.read st.disk l ⟨f.path,text⟩ held content present
      rw [← room disk,result] at whole
      cases whole
      rfl
  next memory =>
    split at copied
    · cases copied
      exact ⟨rfl,fun disk => absurd disk memory⟩
    · cases copied
      exact ⟨rfl,fun disk => absurd disk memory⟩

/-- The same file, at another place of it. -/
def SameFile (f f' : ProcessFd) : Prop := f'.used = f.used ∧ f'.backend = f.backend ∧ f'.path = f.path

theorem appendSlot_holds {st' : Store} {f f' : ProcessFd} {bytes : List Byte} {accepted : Option Nat}
    (held : Holds st.disk l) (append : flagged f.flags vfsFAppend = true)
    (owned : f.backend = backendDiskfs → 0 ∉ f.path ∧ programIndex f.path = none)
    (made : appendSlot st f bytes = (st',f',accepted)) :
    Holds st'.disk (wrote l f bytes accepted) ∧ SameFile f f' := by
  have still : SameFile f f := ⟨rfl,rfl,rfl⟩
  unfold appendSlot at made
  dsimp only at made
  generalize maximum : (if f.backend = backendDiskfs then diskfsMaxFileSize else 256) = maxSize at made
  have room (disk : f.backend = backendDiskfs) : maxSize = diskfsMaxFileSize := by rw [← maximum,if_pos disk]
  split at made
  · cases made
    exact ⟨held,still⟩
  split at made
  · cases made
    exact ⟨held,still⟩
  next heap temp _ =>
    split at made
    next st₁ failed =>
      obtain ⟨disk,_⟩ := @oldContent_holds {st with heap} l _ _ _ _ _ held owned room failed
      cases made
      refine ⟨?_,still⟩
      change Holds st₁.disk l
      rw [disk]
      exact held
    next st₁ old copied =>
      obtain ⟨disk,content⟩ := @oldContent_holds {st with heap} l _ _ _ _ _ held owned room copied
      have held₁ : Holds st₁.disk l := by
        rw [disk]
        exact held
      rcases result : storeWhole st₁ f.backend f.path (old ++ bytes) with ⟨st₂,ok⟩
      have after := storeWhole_holds held₁ owned result
      rw [result] at made
      cases ok with
      | false =>
        cases made
        exact ⟨after,still⟩
      | true =>
        cases made
        refine ⟨?_,rfl,rfl,rfl⟩
        change Holds st₂.disk _
        rw [wrote,if_pos append]
        rw [if_pos rfl] at after
        by_cases disk : f.backend = backendDiskfs
        · rw [content disk old rfl]
          exact after
        · rw [took,if_neg disk] at after ⊢
          exact after

theorem writeSlot_holds {st' : Store} {f f' : ProcessFd} {bytes : List Byte} {accepted : Option Nat}
    (held : Holds st.disk l)
    (owned : f.used = true → f.backend = backendDiskfs → 0 ∉ f.path ∧ programIndex f.path = none)
    (made : writeSlot st f bytes = (st',f',accepted)) :
    Holds st'.disk (wrote l f bytes accepted) ∧ SameFile f f' := by
  have still : SameFile f f := ⟨rfl,rfl,rfl⟩
  unfold writeSlot at made
  split at made
  · cases made
    exact ⟨held,still⟩
  next usable =>
    have used : f.used = true := by
      rw [not_or,Bool.not_eq_false] at usable
      exact usable.1
    split at made
    · cases made
      exact ⟨held,still⟩
    split at made
    next append => exact appendSlot_holds held append (owned used) made
    next whole =>
      rcases result : storeWhole st f.backend f.path bytes with ⟨st₁,ok⟩
      have after := storeWhole_holds held (owned used) result
      rw [result] at made
      cases ok with
      | false =>
        cases made
        exact ⟨after,still⟩
      | true =>
        cases made
        refine ⟨?_,rfl,rfl,rfl⟩
        rw [wrote,if_neg whole,List.nil_append]
        exact after

theorem readSlot_same (ready : st.disk.disk.faults = []) (f : ProcessFd) (length : Nat) :
    (readSlot st f length).1.disk = st.disk ∧ SameFile f (readSlot st f length).2.1 := by
  unfold readSlot
  split
  · exact ⟨rfl,rfl,rfl,rfl⟩
  dsimp only
  split
  · exact ⟨rfl,rfl,rfl,rfl⟩
  split
  · split
    · exact ⟨rfl,rfl,rfl,rfl⟩
    · have read := (diskfsRead_file ready f.path vfsIoMax).1
      split
      next failed => exact ⟨congrArg Prod.fst (failed.symm.trans read),rfl,rfl,rfl⟩
      next given => exact ⟨congrArg Prod.fst (given.symm.trans read),rfl,rfl,rfl⟩
  · split <;> exact ⟨rfl,rfl,rfl,rfl⟩

theorem Owned.update {fds : FdTable} (owned : Owned fds) (i : Nat) {f : ProcessFd}
    (new : f.used = true → f.backend = backendDiskfs → 0 ∉ f.path ∧ programIndex f.path = none) :
    Owned (Function.update fds i f) := by
  intro j
  by_cases same : j = i
  · subst same
    rw [Function.update_self]
    exact new
  · rw [Function.update_of_ne same]
    exact owned j

theorem Owned.moved {fds : FdTable} (owned : Owned fds) (i : Nat) {f : ProcessFd} (same : SameFile (fds i) f) :
    Owned (Function.update fds i f) := by
  obtain ⟨used,backend,path⟩ := same
  refine owned.update i ?_
  rw [used,backend,path]
  exact owned i

theorem openSlot_owned {fds : FdTable} (owned : Owned fds) {path : List Byte} (text : 0 ∉ path) (flags : Nat) :
    Owned (openSlot st fds path flags).2.1 := by
  have program (backend : Nat) (chosen : backend = backendDiskfs)
      (origin : backendFor st path = backend ∨ backendFor st path = backendNone) : programIndex path = none := by
    apply unlinked_path
    by_contra held
    have ram : backendFor st path = backendRamfs := by
      rw [backendFor,if_pos (Option.isSome_iff_ne_none.mpr held)]
    rw [ram,chosen] at origin
    exact absurd origin (by decide)
  unfold openSlot
  dsimp only
  split
  · exact owned
  have origin : backendFor st path = (if backendFor st path = backendNone then createFile st path
      else (st,backendFor st path)).2 ∨ backendFor st path = backendNone := by
    split
    next absent => exact .inr absent
    · exact .inl rfl
  generalize (if backendFor st path = backendNone then createFile st path
    else (st,backendFor st path)) = target at origin ⊢
  split
  · exact owned
  split
  · exact owned
  next i _ =>
    refine owned.update i ?_
    intro _ disk
    exact ⟨text,program target.2 disk origin⟩

theorem vfsRemove_holds {st' : Store} {src path : List Byte} {ok : Bool} (held : Holds st.disk l)
    (normal : pathNormalize src = some path) (made : vfsRemove st src = (st',ok)) :
    Holds st'.disk (if ok then dropped l (backendFor st path) path else l) := by
  have text := (pathNormalize_clean normal).1.text
  simp only [vfsRemove,normal] at made
  split at made
  next ram =>
    have backend : backendFor st path = backendRamfs := by rw [backendFor,if_pos ram]
    rw [backend]
    split at made
    · cases made
      exact held
    · cases made
      exact held
  next ram =>
    split at made
    next disk =>
      have backend : backendFor st path = backendDiskfs := by rw [backendFor,if_neg ram,if_pos disk]
      rw [backend]
      rcases result : diskfsRemove st.disk path with ⟨after,removed⟩
      rw [result] at made
      cases made
      cases removed with
      | true => exact @Holds.remove st.disk after l ⟨path,text⟩ held result
      | false =>
        have same := @Holds.removeRefused st.disk after l ⟨path,text⟩ held result
        subst same
        exact held
    · cases made
      exact held

theorem fileStep_holds {fds : FdTable} (held : Holds st.disk l) (owned : Owned fds) (call : FileCall) :
    Holds (fileStep (st,fds) call).1.disk (recorded l st fds call) ∧ Owned (fileStep (st,fds) call).2 := by
  cases call with
  | opened src flags =>
    simp only [fileStep,vfsOpen,recorded]
    cases normal : pathNormalize src with
    | none => exact ⟨held,owned⟩
    | some path =>
      have text := (pathNormalize_clean normal).1.text
      refine ⟨?_,openSlot_owned owned text flags⟩
      dsimp only
      rw [openSlot_store]
      split
      next created =>
        have absent : ramfsData st.ram path = none := by
          by_contra present
          have ram : backendFor st path = backendRamfs := by
            rw [backendFor,if_pos (Option.isSome_iff_ne_none.mpr present)]
          rw [ram] at created
          exact absurd created.1 (by decide)
        exact createFile_holds held text (unlinked_path absent)
      · exact held
  | closed fd =>
    refine ⟨held,?_⟩
    change Owned (vfsClose fds fd).1
    unfold vfsClose
    split
    · exact owned
    · exact owned.update fd.toNat fun used => Bool.noConfusion used
  | read fd length =>
    simp only [fileStep,vfsRead,recorded]
    split
    · exact ⟨held,owned⟩
    · obtain ⟨disk,same⟩ := readSlot_same held.synced.ready (fds fd.toNat) length
      refine ⟨?_,owned.moved fd.toNat same⟩
      dsimp only
      rw [disk]
      exact held
  | wrote fd bytes =>
    simp only [fileStep,vfsWrite,recorded]
    split
    · exact ⟨held,owned⟩
    · rcases made : writeSlot st (fds fd.toNat) bytes with ⟨st',f,accepted⟩
      obtain ⟨after,same⟩ := writeSlot_holds held (owned fd.toNat) made
      exact ⟨after,owned.moved fd.toNat same⟩
  | removed src =>
    refine ⟨?_,owned⟩
    rcases made : vfsRemove st src with ⟨st',ok⟩
    simp only [fileStep,recorded,made]
    cases normal : pathNormalize src with
    | none =>
      simp only [vfsRemove,normal] at made
      cases made
      exact held
    | some path => exact vfsRemove_holds held normal made

end Stores

structure Faithful (m : Machine) : Prop where
  held : Holds m.store.disk m.ledger
  owned : ∀ table, Owned (m.tables table)

theorem fresh_file (g : List Byte) : diskFile freshFs g = none := by
  have absent : diskfsFind freshFs.entries g = none := by
    rw [fresh_empty]
    exact find_range_none.mpr fun i _ => unnamed_holds rfl g
  rw [diskFile,diskfsExists,absent,Option.isSome_none,Bool.and_false]
  rfl

theorem closed_owned : Owned fun _ => default := fun _ used => Bool.noConfusion used

theorem faithful_machine {m : Machine} (call : MachineCall) (faithful : Faithful m) : Faithful (machineStep m call) := by
  obtain ⟨held,owned⟩ := faithful
  have replaced (table : Nat) {fds : FdTable} (new : Owned fds) (t : Nat) :
      Owned (Function.update m.tables table fds t) := by
    by_cases same : t = table
    · subst same
      rw [Function.update_self]
      exact new
    · rw [Function.update_of_ne same]
      exact owned t
  cases call with
  | file table call =>
    obtain ⟨after,new⟩ := fileStep_holds held (owned table) call
    exact ⟨after,replaced table new⟩
  | forked parent child => exact ⟨held,replaced child (owned parent)⟩
  | cleared table => exact ⟨held,replaced table closed_owned⟩
  | allocated heap => exact ⟨held,owned⟩
  | rebooted files heap =>
    refine ⟨?_,fun _ => closed_owned⟩
    change Holds (diskfsInit m.store.disk.disk true).1 m.ledger
    rw [held.synced.remount]
    exact held

theorem firstBoot_faithful (programs : Nat → List Byte) (files : Nat → RamFile) (heap : Heap) :
    Faithful (firstBoot programs files heap) := by
  refine ⟨⟨?_,?_,fun _ present => absurd rfl present⟩,fun _ => closed_owned⟩
  · change Synced (diskfsInit freshDisk true).1
    exact fresh_synced
  · intro g
    change diskFile freshFs g.chars = none
    exact fresh_file g.chars

section Seeds
variable {r : RamFs} {path : List Byte}

theorem seeds_member {entry : List Byte × List Byte} : entry ∈ seeds ↔ ∃ i, i < seeds.length ∧ seeds.getD i default = entry := by
  rw [List.mem_iff_getElem]
  refine exists_congr fun i => ?_
  refine ⟨?_,?_⟩
  · rintro ⟨bound,rfl⟩
    exact ⟨bound,List.getD_eq_getElem _ _ bound⟩
  · rintro ⟨bound,rfl⟩
    exact ⟨bound,(List.getD_eq_getElem _ _ bound).symm⟩

theorem seeds_distinct : ∀ i, i < seeds.length → ∀ j, j < seeds.length →
    (seeds.getD i default).1 = (seeds.getD j default).1 → i = j := by
  decide +kernel

theorem ramfsInit_absent (program : programIndex path = none) (other : path ∉ seeds.map Prod.fst) :
    ramfsData (ramfsInit r) path = none := by
  have tabled := ramfsInit_tabled r
  have absent : ramfsFind (ramfsInit r) path = none := by
    rw [tabled.find,find_range_none]
    intro i bound
    apply decide_eq_false
    intro same
    exact other (List.mem_map.mpr ⟨_,seeds_member.mpr ⟨i,bound,rfl⟩,same⟩)
  rw [ramfsData,program,absent]
  rfl

theorem ramfsInit_seeded (program : programIndex path = none) (seeded : path ∈ seeds.map Prod.fst) (content : List Byte) :
    ∃ data, ramfsData (ramfsInit r) path = some data ∧ (RamHolds (ramfsInit r) path content ↔ (path,content) ∈ seeds) := by
  have tabled := ramfsInit_tabled r
  obtain ⟨entry,member,rfl⟩ := List.mem_map.mp seeded
  obtain ⟨i,bound,rfl⟩ := seeds_member.mp member
  have found : ramfsFind (ramfsInit r) (seeds.getD i default).1 = some i := by
    rw [tabled.find,find_range]
    refine ⟨bound,decide_eq_true rfl,?_⟩
    intro j before
    apply decide_eq_false
    intro same
    have equal := seeds_distinct j (Nat.lt_trans before bound) i bound same
    omega
  have data : ramfsData (ramfsInit r) (seeds.getD i default).1 = some ((ramfsInit r).files i).data := by
    rw [ramfsData,program,found]
    rfl
  have size : ramfsSize (ramfsInit r) (seeds.getD i default).1 = (seeds.getD i default).2.length := by
    rw [ramfsSize,program,found]
    exact tabled.size i bound
  have holds : RamHolds (ramfsInit r) (seeds.getD i default).1 content ↔ content = (seeds.getD i default).2 := by
    rw [RamHolds,data,size]
    simp only [Option.some.injEq,exists_eq_left']
    refine ⟨?_,?_⟩
    · rintro ⟨length,bytes⟩
      apply List.ext_getElem length.symm
      intro j left right
      rw [← List.getD_eq_getElem _ 0 left,← List.getD_eq_getElem _ 0 right,← bytes j left,tabled.data i bound j right]
    · rintro rfl
      exact ⟨rfl,tabled.data i bound⟩
  refine ⟨_,data,holds.trans ⟨?_,?_⟩⟩
  · rintro rfl
    exact seeds_member.mpr ⟨i,bound,rfl⟩
  · intro also
    obtain ⟨j,bound',same⟩ := seeds_member.mp also
    have equal := seeds_distinct j bound' i bound (Prod.ext_iff.mp same).1
    subst equal
    exact (Prod.ext_iff.mp same).2.symm

end Seeds

/-- A file that the disk took last reads back after a restart exactly when no file of
`ramfs_init` hides it, or one with the same content, and the heap has the page that a read
of the disk goes through. -/
theorem survives_reboot (programs : Nat → List Byte) (files files' : Nat → RamFile) (heap heap' : Heap)
    (calls : List MachineCall) (src path content : List Byte) :
    let m := run machineStep (firstBoot programs files heap) calls
    pathNormalize src = some path → m.ledger path = some content →
      (ReadsBack (machineStep m (.rebooted files' heap')).store src content ↔
        if path ∈ seeds.map Prod.fst then (path,content) ∈ seeds
        else content = [] ∨ (kmalloc heap' vfsIoMax).isSome) := by
  intro m normal stored
  have faithful : Faithful m :=
    run_invariant (fun m call held => faithful_machine call held) (firstBoot_faithful programs files heap)
  obtain ⟨held,_⟩ := faithful_machine (.rebooted files' heap') faithful
  generalize after : machineStep m (.rebooted files' heap') = m' at held ⊢
  have ram : m'.store.ram = ramfsInit ⟨m.store.ram.programs,files',0⟩ := by rw [← after]; rfl
  have heap : m'.store.heap = heap' := by rw [← after]; rfl
  have kept : m'.ledger path = some content := by rw [← after]; exact stored
  have program := held.unlinked path (by rw [kept]; exact Option.some_ne_none content)
  have text := (pathNormalize_clean normal).1.text
  obtain ⟨present,size,small,read⟩ := @Holds.read m'.store.disk m'.ledger ⟨path,text⟩ held content kept
  split
  next seeded =>
    obtain ⟨data,hidden,same⟩ := @ramfsInit_seeded ⟨m.store.ram.programs,files',0⟩ path program seeded content
    rw [← ram] at hidden same
    rw [readsBack_ram normal small hidden,same]
  next other =>
    have absent := @ramfsInit_absent ⟨m.store.ram.programs,files',0⟩ path program other
    rw [← ram] at absent
    rw [readsBack_disk normal small absent present size read,heap]

def firstMachine : Machine := firstBoot (fun _ => []) (fun _ => default) bareStore.heap

/-- A new file of one byte, and the file of that name after the restart. -/
theorem survives_reboot_letter :
    ReadsBack (machineStep (run machineStep firstMachine [.file 0 (.opened letter vfsFWrite),.file 0 (.wrote 0 [1])])
      (.rebooted (fun _ => default) bareStore.heap)).store letter [1] := by
  have normal : pathNormalize letter = some letter := by decide +kernel
  have stored : (run machineStep firstMachine [.file 0 (.opened letter vfsFWrite),.file 0 (.wrote 0 [1])]).ledger letter =
      some [1] := by decide +kernel
  have page : (kmalloc bareStore.heap vfsIoMax).isSome := by decide +kernel
  have other : letter ∉ seeds.map Prod.fst := by decide +kernel
  refine (survives_reboot (fun _ => []) (fun _ => default) (fun _ => default) bareStore.heap bareStore.heap _ letter letter
    [1] normal stored).mpr ?_
  rw [if_neg other]
  exact .inr page

def motd : List Byte := ascii ['m','o','t','d']

/-- The removal of the seeded file, and a new file of its name, which goes to the disk. -/
def motdCalls : List MachineCall :=
  [.file 0 (.removed motd),.file 0 (.opened motd vfsFWrite),.file 0 (.wrote 0 [104,105])]

/-- The next start seeds the file again, and the file on the disk is hidden. -/
theorem seeded_file_hidden :
    pathNormalize motd = some motd ∧ (run machineStep firstMachine motdCalls).ledger motd = some [104,105] ∧
      vfsStatPath (run machineStep firstMachine motdCalls).store motd = some ⟨2,backendDiskfs,0⟩ ∧ ¬ReadsBack
        (machineStep (run machineStep firstMachine motdCalls) (.rebooted (fun _ => default) bareStore.heap)).store
          motd [104,105] := by
  refine ⟨by decide +kernel,by decide +kernel,by decide +kernel,?_⟩
  rintro ⟨size,_⟩
  have seed : (vfsStatPath (machineStep (run machineStep firstMachine motdCalls)
      (.rebooted (fun _ => default) bareStore.heap)).store motd).map VfsStat.size = some 28 := by decide +kernel
  rw [seed,Option.some.injEq] at size
  cases size

end LionOS.Files

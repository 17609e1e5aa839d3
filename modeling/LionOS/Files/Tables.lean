import LionOS.Files.Appends

/-! The table of the memory file system in every run: no call leaves a name twice, a file past
its limit or a file too many. -/
namespace LionOS.Files
open LionOS.Memory LionOS.Physical LionOS.Processes LionOS.Library

structure Ordered (r : RamFs) : Prop where
  few : r.count ≤ ramfsMaxFiles - ramfsProgramCount
  small : ∀ i < r.count, (r.files i).size ≤ ramfsDataMax
  distinct : ∀ i j, i < r.count → j < r.count → (r.files i).name = (r.files j).name → i = j

section Order
variable {r r' : RamFs} {name bytes : List Byte}

theorem Ordered.stored (ordered : Ordered r) (i : Nat) (bytes : List Byte) : Ordered (storeFile r i bytes) := by
  obtain ⟨few,small,distinct⟩ := ordered
  refine ⟨few,fun j bound => ?_,fun j k first second same => ?_⟩
  · by_cases own : j = i
    · subst own
      simp only [storeFile,Function.update_self,List.length_take]
      exact Nat.min_le_left _ _
    · have kept : (storeFile r i bytes).files j = r.files j := Function.update_of_ne own _ _
      rw [kept]
      exact small j bound
  · rw [storeFile_name,storeFile_name] at same
    exact distinct j k first second same

/-- A file of a new name behind the others. -/
theorem Ordered.entered (ordered : Ordered r) (short : name.length ≤ 63) (absent : ramfsFind r name = none)
    (room : r.count < ramfsMaxFiles - ramfsProgramCount) (bytes : List Byte) :
    Ordered (storeFile {r with
      files := Function.update r.files r.count {r.files r.count with name := name.take 63}
      count := r.count + 1} r.count bytes) := by
  obtain ⟨few,small,distinct⟩ := ordered
  have others := ramfsFind_none.mp absent
  generalize entered : ({r with
      files := Function.update r.files r.count {r.files r.count with name := name.take 63}
      count := r.count + 1} : RamFs) = r₁
  have count : r₁.count = r.count + 1 := by rw [← entered]
  have last : (r₁.files r.count).name = name := by
    rw [← entered]
    simp [List.take_of_length_le short]
  have before {j : Nat} (old : j < r.count) : r₁.files j = r.files j := by
    rw [← entered]
    exact Function.update_of_ne (Nat.ne_of_lt old) _ _
  have place {j : Nat} (bound : j < (storeFile r₁ r.count bytes).count) : j < r.count ∨ j = r.count := by
    change j < r₁.count at bound
    omega
  refine ⟨?_,fun j bound => ?_,fun j k first second same => ?_⟩
  · change r₁.count ≤ _
    omega
  · rcases place bound with old | rfl
    · have kept : (storeFile r₁ r.count bytes).files j = r₁.files j := Function.update_of_ne (Nat.ne_of_lt old) _ _
      rw [kept,before old]
      exact small j old
    · simp only [storeFile,Function.update_self,List.length_take]
      exact Nat.min_le_left _ _
  · rw [storeFile_name,storeFile_name] at same
    rcases place first with old | rfl
    · rcases place second with old' | rfl
      · rw [before old,before old'] at same
        exact distinct j k old old' same
      · rw [before old,last] at same
        exact absurd same (others j old)
    · rcases place second with old' | rfl
      · rw [last,before old'] at same
        exact absurd same.symm (others k old')
      · rfl

theorem Ordered.write (ordered : Ordered r) (short : name.length ≤ 63) (written : ramfsWrite r name bytes = some r') :
    Ordered r' := by
  unfold ramfsWrite at written
  split at written
  · cases written
  split at written
  next i found =>
    cases written
    exact ordered.stored i bytes
  next absent =>
    split at written
    · cases written
    next room =>
      cases written
      exact ordered.entered short absent (Nat.lt_of_not_le room) bytes

/-- Each file behind a removal stood in a place of its own before, and the removed one in another. -/
theorem ramfsRemove_source (gone : ramfsRemove r name = some r') : ∃ i, ∃ source : Nat → Nat,
    ramfsFind r name = some i ∧ r'.count = r.count - 1 ∧ (∀ j, r'.files j = r.files (source j)) ∧
      (∀ j < r'.count, source j < r.count ∧ source j ≠ i) ∧
      ∀ j k, j < r'.count → k < r'.count → source j = source k → j = k := by
  unfold ramfsRemove at gone
  split at gone
  · cases gone
  split at gone
  · cases gone
  next i found =>
    cases gone
    have bound := (ramfsFind_some.mp found).1
    refine ⟨i,fun j => if i ≤ j ∧ j + 1 < r.count then j + 1 else j,found,rfl,fun j => ?_,fun j less => ?_,?_⟩
    · dsimp only
      split <;> rfl
    · dsimp only at less ⊢
      split <;> omega
    · intro j k first second same
      dsimp only at first second same
      split at same
      · split at same <;> omega
      · split at same <;> omega

theorem Ordered.remove (ordered : Ordered r) (gone : ramfsRemove r name = some r') : Ordered r' := by
  obtain ⟨few,small,distinct⟩ := ordered
  obtain ⟨i,source,_,count,moved,inside,apart⟩ := ramfsRemove_source gone
  refine ⟨by omega,fun j less => ?_,fun j k first second same => ?_⟩
  · rw [moved]
    exact small _ (inside j less).1
  · rw [moved,moved] at same
    exact apart j k first second (distinct _ _ (inside j first).1 (inside k second).1 same)

/-- No file of the name is left. -/
theorem Ordered.gone (ordered : Ordered r) (gone : ramfsRemove r name = some r') : ramfsFind r' name = none := by
  obtain ⟨i,source,found,_,moved,inside,_⟩ := ramfsRemove_source gone
  obtain ⟨bound,named,_⟩ := ramfsFind_some.mp found
  refine ramfsFind_none.mpr fun j less same => ?_
  rw [moved] at same
  exact (inside j less).2 (ordered.distinct _ _ (inside j less).1 bound (same.trans named.symm))

theorem ramfsInit_ordered (r : RamFs) : Ordered (ramfsInit r) := by
  have tabled := ramfsInit_tabled r
  have sizes : ∀ i, i < seeds.length → (seeds.getD i default).2.length ≤ ramfsDataMax := by decide +kernel
  refine ⟨?_,fun i bound => ?_,fun i j first second same => ?_⟩
  · rw [tabled.count]
    decide +kernel
  · rw [tabled.count] at bound
    rw [tabled.size i bound]
    exact sizes i bound
  · rw [tabled.count] at first second
    rw [tabled.name i first,tabled.name j second] at same
    exact seeds_distinct i first j second same

end Order

/-- What a call can do to the table: one write under the name of a path, or one removal. -/
inductive Renews (r : RamFs) : RamFs → Prop
  | same : Renews r r
  | wrote {name bytes : List Byte} {r' : RamFs} (named : PathName name) (written : ramfsWrite r name bytes = some r') :
      Renews r r'
  | removed {name : List Byte} {r' : RamFs} (gone : ramfsRemove r name = some r') : Renews r r'

theorem Renews.ordered {r r' : RamFs} (renews : Renews r r') (ordered : Ordered r) : Ordered r' := by
  cases renews with
  | same => exact ordered
  | wrote named written => exact ordered.write named.clean.short written
  | removed gone => exact ordered.remove gone

section Calls
variable {st : Store} {path : List Byte}

theorem createFile_renews (named : PathName path) : Renews st.ram (createFile st path).1.ram := by
  unfold createFile
  generalize (if diskfsAvailable st.disk then diskfsWrite st.disk path [] else (st.disk,false)) = made
  obtain ⟨disk,stored⟩ := made
  dsimp only
  split
  · exact .same
  · split
    next ram written => exact .wrote named written
    · exact .same

theorem storeWhole_renews (named : PathName path) (backend : Nat) (bytes : List Byte) :
    Renews st.ram (storeWhole st backend path bytes).1.ram := by
  unfold storeWhole
  split
  · exact .same
  · split
    · exact .same
    next ram written => exact .wrote named written

theorem oldContent_ram (f : ProcessFd) (oldSize maxSize : Nat) : (oldContent st f oldSize maxSize).1.ram = st.ram := by
  unfold oldContent
  split
  · rfl
  · split <;> rfl

theorem readSlot_ram (f : ProcessFd) (length : Nat) : (readSlot st f length).1.ram = st.ram := by
  unfold readSlot
  split
  · rfl
  dsimp only
  split
  · rfl
  split
  · split
    · rfl
    · split <;> rfl
  · split <;> rfl

theorem appendSlot_renews {f : ProcessFd} (named : PathName f.path) (bytes : List Byte) :
    Renews st.ram (appendSlot st f bytes).1.ram := by
  unfold appendSlot
  dsimp only
  generalize (if f.backend = backendDiskfs then diskfsMaxFileSize else 256) = maxSize
  split
  · exact .same
  split
  · exact .same
  next heap temp _ =>
    have copied := @oldContent_ram {st with heap} f (fileSize st f.backend f.path) maxSize
    split
    next st₁ failed =>
      rw [failed] at copied
      change Renews st.ram st₁.ram
      rw [copied]
      exact .same
    next st₁ old read =>
      rw [read] at copied
      have stored := @storeWhole_renews st₁ _ named f.backend (old ++ bytes)
      rw [copied] at stored
      split
      · exact stored
      · exact stored

theorem writeSlot_renews {f : ProcessFd} (named : f.used = true → PathName f.path) (bytes : List Byte) :
    Renews st.ram (writeSlot st f bytes).1.ram := by
  unfold writeSlot
  split
  · exact .same
  next usable =>
    rw [not_or,Bool.not_eq_false] at usable
    have name := named usable.1
    split
    · exact .same
    split
    · exact appendSlot_renews name bytes
    · have stored := @storeWhole_renews st _ name f.backend bytes
      split
      next written =>
        rw [written] at stored
        exact stored
      next written =>
        rw [written] at stored
        exact stored

theorem fileStep_renews {fds : FdTable} (clean : Clean fds) (call : FileCall) :
    Renews st.ram (fileStep (st,fds) call).1.ram := by
  cases call with
  | opened src flags =>
    simp only [fileStep,vfsOpen]
    cases normal : pathNormalize src with
    | none => exact .same
    | some path =>
      dsimp only
      rw [openSlot_store]
      split
      · exact createFile_renews (pathName_normal normal)
      · exact .same
  | closed fd => exact .same
  | read fd length =>
    simp only [fileStep,vfsRead]
    split
    · exact .same
    · dsimp only
      rw [readSlot_ram]
      exact .same
  | wrote fd bytes =>
    simp only [fileStep,vfsWrite]
    split
    · exact .same
    · exact writeSlot_renews (clean fd.toNat) bytes
  | removed src =>
    simp only [fileStep,vfsRemove]
    split
    · exact .same
    split
    · split
      · exact .same
      next ram gone => exact .removed gone
    split
    · exact .same
    · exact .same

end Calls

structure Settled (m : Machine) : Prop where
  sane : Sane m
  ordered : Ordered m.store.ram

theorem settled_machine {m : Machine} (call : MachineCall) (settled : Settled m) : Settled (machineStep m call) := by
  obtain ⟨sane,ordered⟩ := settled
  refine ⟨sane_machine call sane,?_⟩
  cases call with
  | file table call => exact (fileStep_renews (sane.clean table) call).ordered ordered
  | forked parent child => exact ordered
  | cleared table => exact ordered
  | allocated heap => exact ordered
  | rebooted files heap => exact ramfsInit_ordered ⟨m.store.ram.programs,files,0⟩

theorem run_settled (programs : Nat → List Byte) (files : Nat → RamFile) (heap : Heap) (disk : Disk) (calls : List MachineCall) :
    Settled (run machineStep (started programs files heap disk) calls) :=
  run_invariant (fun _ call settled => settled_machine call settled)
    ⟨started_sane programs files heap disk,ramfsInit_ordered ⟨programs,files,0⟩⟩

end LionOS.Files

import LionOS.Files.Names
import LionOS.Library.Pool
import Mathlib.Data.List.GetD

/-! The memory file system: the programs linked into the kernel and a table of small
files. -/
namespace LionOS.Files
open LionOS.Physical LionOS.Library

def ramfsMaxFiles : Nat := 32
def ramfsDataMax : Nat := 256
def ramfsProgramCount : Nat := 21

def programNames : List (List Byte) :=
  ["hello.elf","process_test.elf","ipc_test.elf","signal_test.elf","net_test.elf","ping.elf",
    "vfs_test.elf","cow_test.elf","echo.elf","cat.elf","ls.elf","pwd.elf","uname.elf","rm.elf","stat.elf",
    "env.elf","grep.elf","find.elf","cp.elf","mv.elf","userland_test.elf"].map fun name => ascii name.toList

/-- A file of the table. The data array keeps what an earlier, longer content left
behind its size. -/
structure RamFile where
  name : List Byte
  data : Nat → Byte
  size : Nat
  deriving Inhabited

/-- `programs i` is the image linked in for the program `i`. -/
structure RamFs where
  programs : Nat → List Byte
  files : Nat → RamFile
  count : Nat

def programIndex (name : List Byte) : Option Nat :=
  (List.range ramfsProgramCount).find? fun i => decide (programNames.getD i [] = name)

def ramfsFind (r : RamFs) (name : List Byte) : Option Nat :=
  (List.range r.count).find? fun i => decide ((r.files i).name = name)

/-- The bytes that `ramfs_data` points at, as far as the file has some. -/
def ramfsData (r : RamFs) (name : List Byte) : Option (Nat → Byte) :=
  match programIndex name with
  | some p => some fun i => (r.programs p).getD i 0
  | none => (ramfsFind r name).map fun i => (r.files i).data

def ramfsSize (r : RamFs) (name : List Byte) : Nat :=
  match programIndex name with
  | some p => (r.programs p).length
  | none => match ramfsFind r name with
    | some i => (r.files i).size
    | none => 0

def ramfsCount (r : RamFs) : Nat := r.count + ramfsProgramCount

def ramfsName (r : RamFs) (i : Nat) : Option (List Byte) :=
  if i < r.count then some (r.files i).name else programNames[i - r.count]?

def storeFile (r : RamFs) (i : Nat) (bytes : List Byte) : RamFs :=
  let kept := bytes.take ramfsDataMax
  let f := r.files i
  let data := fun j => if j < kept.length then kept.getD j 0 else f.data j
  {r with files := Function.update r.files i {f with data,size := kept.length}}

/-- `ramfs_write`: `none` is its result -1. -/
def ramfsWrite (r : RamFs) (name bytes : List Byte) : Option RamFs :=
  if name = [] ∨ (programIndex name).isSome then none
  else match ramfsFind r name with
    | some i => some (storeFile r i bytes)
    | none =>
      if r.count ≥ ramfsMaxFiles - ramfsProgramCount then none
      else
        let f := {r.files r.count with name := name.take 63}
        let r := {r with files := Function.update r.files r.count f,count := r.count + 1}
        some (storeFile r (r.count - 1) bytes)

/-- `ramfs_remove` moves the later files one place down. -/
def ramfsRemove (r : RamFs) (name : List Byte) : Option RamFs :=
  if (programIndex name).isSome then none
  else match ramfsFind r name with
    | none => none
    | some i => some {r with
      files := fun j => if i ≤ j ∧ j + 1 < r.count then r.files (j+1) else r.files j
      count := r.count - 1}

/-- The files that `ramfs_init` writes. -/
def seeds : List (List Byte × List Byte) :=
  [("readme.txt","Welcome to LionOS.\nBuilt as an experimental 32-bit x86 OS.\n"),
    ("version","LionOS 1.0.0\n"),("motd","The LionOS kernel is alive.\n")].map fun seed =>
      (ascii seed.1.toList,ascii seed.2.toList)

def ramfsInit (r : RamFs) : RamFs :=
  seeds.foldl (fun r seed => (ramfsWrite r seed.1 seed.2).getD r) {r with count := 0}

theorem ramfsFind_congr {r r' : RamFs} (count : r'.count = r.count)
    (names : ∀ i, (r'.files i).name = (r.files i).name) (name : List Byte) :
    ramfsFind r' name = ramfsFind r name := by
  simp only [ramfsFind,count,names]

theorem storeFile_name (r : RamFs) (i : Nat) (bytes : List Byte) (j : Nat) :
    ((storeFile r i bytes).files j).name = (r.files j).name := by
  simp only [storeFile]
  by_cases same : j = i
  · subst same
    simp
  · simp [same]

theorem storeFile_find (r : RamFs) (i : Nat) (bytes name : List Byte) :
    ramfsFind (storeFile r i bytes) name = ramfsFind r name := by
  apply ramfsFind_congr
  · rfl
  · exact storeFile_name r i bytes

/-- After an accepted write the name is no program and stands for a file of the table
that holds the first 256 bytes. -/
theorem ramfsWrite_found {r r' : RamFs} {name bytes : List Byte} (short : name.length ≤ 63)
    (written : ramfsWrite r name bytes = some r') :
    programIndex name = none ∧ ∃ i, ramfsFind r' name = some i ∧
      (r'.files i).size = (bytes.take ramfsDataMax).length ∧
      ∀ j, j < (bytes.take ramfsDataMax).length → (r'.files i).data j = bytes.getD j 0 := by
  unfold ramfsWrite at written
  split at written
  · cases written
  next valid =>
    rw [not_or] at valid
    have program : programIndex name = none := by simpa using valid.2
    refine ⟨program,?_⟩
    have stored (r : RamFs) (i : Nat) :
        ((storeFile r i bytes).files i).size = (bytes.take ramfsDataMax).length ∧
          ∀ j, j < (bytes.take ramfsDataMax).length → ((storeFile r i bytes).files i).data j = bytes.getD j 0 := by
      constructor
      · simp [storeFile]
      · intro j bound
        simp only [storeFile,Function.update_self,if_pos bound]
        have inside := (List.length_take ▸ bound : j < min ramfsDataMax bytes.length)
        simp only [List.getD_eq_getElem?_getD]
        rw [List.getElem?_take_of_lt (by omega)]
    split at written
    next i found =>
      cases written
      exact ⟨i,(storeFile_find r i bytes name).trans found,stored r i⟩
    next absent =>
      split at written
      · cases written
      · cases written
        refine ⟨r.count,?_,stored _ _⟩
        rw [storeFile_find]
        have others := find_range_none.mp absent
        refine find_range.mpr ⟨by simp,?_,?_⟩
        · simp [List.take_of_length_le short]
        · intro j bound
          have other : j ≠ r.count := by omega
          simpa [other] using others j bound

/-- The table holds exactly these files. -/
structure Tabled (r : RamFs) (files : List (List Byte × List Byte)) : Prop where
  count : r.count = files.length
  name : ∀ i, i < files.length → (r.files i).name = (files.getD i default).1
  size : ∀ i, i < files.length → (r.files i).size = (files.getD i default).2.length
  data : ∀ i, i < files.length → ∀ j, j < (files.getD i default).2.length →
    (r.files i).data j = (files.getD i default).2.getD j 0

theorem Tabled.find {r : RamFs} {files : List (List Byte × List Byte)} (tabled : Tabled r files) (name : List Byte) :
    ramfsFind r name = (List.range files.length).find? fun i => decide ((files.getD i default).1 = name) := by
  rw [ramfsFind,tabled.count]
  ext1 i
  rw [find_range,find_range]
  refine and_congr_right fun bound => and_congr ?_ ?_
  · rw [tabled.name i bound]
  · refine forall_congr' fun j => forall_congr' fun before => ?_
    rw [tabled.name j (Nat.lt_trans before bound)]

theorem Tabled.write {r : RamFs} {files : List (List Byte × List Byte)} {name bytes : List Byte} (tabled : Tabled r files)
    (fresh : (List.range files.length).find? (fun i => decide ((files.getD i default).1 = name)) = none)
    (given : name ≠ []) (program : programIndex name = none) (short : name.length ≤ 63)
    (small : bytes.length ≤ ramfsDataMax) (room : files.length < ramfsMaxFiles - ramfsProgramCount) :
    Tabled ((ramfsWrite r name bytes).getD r) (files ++ [(name,bytes)]) := by
  have open_ : ¬ (name = [] ∨ (programIndex name).isSome) := by simp [given,program]
  have absent := tabled.find name
  rw [fresh] at absent
  have space : ¬ r.count ≥ ramfsMaxFiles - ramfsProgramCount := by
    rw [tabled.count]
    omega
  rw [ramfsWrite,if_neg open_]
  simp only [absent,if_neg space,Option.getD_some,Nat.add_sub_cancel]
  have before {i : Nat} (old : i < files.length) : (files ++ [(name,bytes)]).getD i default = files.getD i default :=
    List.getD_append _ _ _ _ old
  have last : (files ++ [(name,bytes)]).getD files.length default = (name,bytes) := by
    simp
  have kept : bytes.take ramfsDataMax = bytes := List.take_of_length_le small
  have cases_ {i : Nat} (bound : i < (files ++ [(name,bytes)]).length) : i < files.length ∨ i = files.length := by
    rw [List.length_append,List.length_singleton] at bound
    omega
  refine ⟨?_,?_,?_,?_⟩
  · simp [storeFile,tabled.count]
  · intro i bound
    rcases cases_ bound with old | rfl
    · have other : i ≠ r.count := by rw [tabled.count]; omega
      rw [before old,← tabled.name i old]
      simp [storeFile,other]
    · rw [last,← tabled.count]
      simp [storeFile,List.take_of_length_le short]
  · intro i bound
    rcases cases_ bound with old | rfl
    · have other : i ≠ r.count := by rw [tabled.count]; omega
      rw [before old,← tabled.size i old]
      simp [storeFile,other]
    · rw [last,← tabled.count]
      simp [storeFile,kept]
  · intro i bound j inside
    rcases cases_ bound with old | rfl
    · have other : i ≠ r.count := by rw [tabled.count]; omega
      rw [before old] at inside ⊢
      rw [← tabled.data i old j inside]
      simp [storeFile,other]
    · rw [last] at inside ⊢
      rw [← tabled.count]
      dsimp only at inside ⊢
      simp [storeFile,kept,inside]

theorem ramfsInit_tabled (r : RamFs) : Tabled (ramfsInit r) seeds := by
  have empty : Tabled {r with count := 0} (seeds.take 0) :=
    ⟨rfl,fun _ bound => absurd bound (Nat.not_lt_zero _),fun _ bound => absurd bound (Nat.not_lt_zero _),
      fun _ bound => absurd bound (Nat.not_lt_zero _)⟩
  have fits : ∀ k, k < 3 → (List.range (seeds.take k).length).find?
        (fun i => decide (((seeds.take k).getD i default).1 = (seeds.getD k default).1)) = none ∧
      (seeds.getD k default).1 ≠ [] ∧ programIndex (seeds.getD k default).1 = none ∧
      (seeds.getD k default).1.length ≤ 63 ∧ (seeds.getD k default).2.length ≤ ramfsDataMax ∧
      (seeds.take k).length < ramfsMaxFiles - ramfsProgramCount ∧
      seeds.take k ++ [((seeds.getD k default).1,(seeds.getD k default).2)] = seeds.take (k + 1) := by
    decide +kernel
  have written (k : Nat) (bound : k < 3) {r : RamFs} (tabled : Tabled r (seeds.take k)) :
      Tabled ((ramfsWrite r (seeds.getD k default).1 (seeds.getD k default).2).getD r) (seeds.take (k + 1)) := by
    obtain ⟨fresh,given,program,short,small,room,next⟩ := fits k bound
    rw [← next]
    exact tabled.write fresh given program short small room
  exact written 2 (by decide) (written 1 (by decide) (written 0 (by decide) empty))

end LionOS.Files

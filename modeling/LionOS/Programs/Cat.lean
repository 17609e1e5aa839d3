import LionOS.Programs.Copy
import LionOS.Programs.Numbers

/-! `cat`: the files of its arguments, one after the other, in pieces of 512 bytes. -/
namespace LionOS.Programs
open LionOS.Calls LionOS.Files LionOS.Library LionOS.Memory LionOS.Physical LionOS.Processes

/-- What `lion_write` and `lion_putc` bring to the console. -/
def lionWrite (p : Process) (bytes : List Byte) : List Byte := if processHasCapability p capConsole then bytes else []

def catNotFound (path : List Byte) : List Byte :=
  ((printf (ascii "cat: %s: not found\n".toList) [.string (some path)]).map Prod.fst).getD []

/-- A call of `cat_file` that has ended: the calls so far, the process, the output and the result. -/
structure Catted where
  calls : Nat
  process : Process
  output : List Byte
  result : Nat

section Program
variable (world : Nat → Store)

/-- The loop of the reads; `world` gives the state that each call finds. -/
def catReads (fd : Nat) : Nat → Nat → Process → Option Catted
  | 0,_,_ => none
  | fuel+1,calls,p => match lionFread (world calls) p fd readSize with
    | (_,p,none) => some ⟨calls + 1,lionClose p fd,[],1⟩
    | (_,p,some []) => some ⟨calls + 1,lionClose p fd,[],0⟩
    | (_,p,some bytes) =>
      if bytes.length < readSize then some ⟨calls + 1,lionClose p fd,lionWrite p bytes,0⟩
      else (catReads fd fuel (calls + 1) p).map fun x => {x with output := lionWrite p bytes ++ x.output}

def catFile (fuel calls : Nat) (p : Process) (path : List Byte) : Option Catted :=
  match lionOpen (world calls) p path vfsFRead with
  | (_,p,none) => some ⟨calls + 1,p,lionWrite p (catNotFound path),1⟩
  | (_,p,some fd) => catReads world fd fuel (calls + 1) p

def catFiles (fuel : Nat) : List (List Byte) → Nat → Process → Nat → Option (List Byte × Nat)
  | [],_,_,result => some ([],result)
  | path::paths,calls,p,result => match catFile world fuel calls p path with
    | none => none
    | some x =>
      (catFiles fuel paths x.calls x.process (if x.result ≠ 0 then 1 else result)).map fun later => (x.output ++ later.1,later.2)

/-- `main` on the arguments behind the name: what is put out and the exit code. -/
def cat (fuel : Nat) (p : Process) : List (List Byte) → Option (List Byte × Nat)
  | [] => some (lionWrite p (putsLine "usage: cat <file>..."),1)
  | paths => catFiles world fuel paths 0 p 0

end Program

/-- The file of a path reads the same at every call. -/
structure Readable (world : Nat → Store) (src c : List Byte) : Prop where
  short : src.length < vfsPathMax - 1
  path : ∃ path disk, pathNormalize src = some path ∧ ∀ call, onDisk (backendFor (world call) path) = disk ∧
    fileContent (world call) disk path = some c ∧ (world call).disk.disk.faults = [] ∧
    (disk = true → (kmalloc (world call).heap vfsIoMax).isSome)

/-- No file has the path at any call. -/
def Missing (world : Nat → Store) (src : List Byte) : Prop :=
  src.length ≥ vfsPathMax - 1 ∨ pathNormalize src = none ∨
    ∃ path, pathNormalize src = some path ∧ ∀ call, backendFor (world call) path = backendNone

/-- What an argument stands for. -/
inductive Names (world : Nat → Store) (src : List Byte) : Option (List Byte) → Prop
  | file (c : List Byte) (readable : Readable world src c) : Names world src (some c)
  | nothing (missing : Missing world src) : Names world src none

/-- What `cat` shall put out for an argument. -/
def shownFor (arg : List Byte × Option (List Byte)) : List Byte :=
  arg.2.getD (ascii "cat: ".toList ++ arg.1 ++ ascii ": not found\n".toList)

/-- The process can open files, read them and write to the console. -/
structure Able (p : Process) : Prop where
  files : processHasCapability p capFs = true
  console : processHasCapability p capConsole = true
  free : (freeFd p.fds).isSome

section Printing
variable {world : Nat → Store} {p : Process} {path c src : List Byte} {disk : Bool} {fd : Nat} {f : ProcessFd}

theorem catNotFound_eq (path : List Byte) : catNotFound path = ascii "cat: ".toList ++ path ++ ascii ": not found\n".toList := by
  unfold catNotFound
  rw [List.append_assoc]
  rfl

theorem closed_able (files : processHasCapability p capFs = true) (console : processHasCapability p capConsole = true)
    (bound : fd < vfsFdMax) : Able (lionClose p fd) := by
  have closed : lionClose p fd = {p with fds := (vfsClose p.fds fd).1} := by
    unfold lionClose
    rw [files]
    rfl
  rw [closed]
  exact ⟨files,console,Option.isSome_iff_ne_none.mpr (vfsClose_free bound)⟩

/-- The loop comes to the end of the file and has put out what was left of it. -/
theorem catReads_prints (reader : Reader f disk path) (bound : fd < vfsFdMax) (files : processHasCapability p capFs = true)
    (console : processHasCapability p capConsole = true) (held : p.fds fd = f) {fuel : Nat}
    (enough : c.length - f.offset + readSize ≤ fuel * readSize) (calls : Nat)
    (served : ∀ call, fileContent (world call) disk path = some c ∧ (world call).disk.disk.faults = [] ∧
      (disk = true → (kmalloc (world call).heap vfsIoMax).isSome)) :
    ∃ x, catReads world fd fuel calls p = some x ∧ x.output = c.drop f.offset ∧ x.result = 0 ∧ Able x.process := by
  have large : readSize = 512 := rfl
  induction fuel generalizing p f calls with
  | zero => omega
  | succ fuel ih =>
    obtain ⟨present,ready,room⟩ := served calls
    have read := lionFread_content files bound held reader present ready room
    rcases made : lionFread (world calls) p fd readSize with ⟨st',p',result⟩
    rw [made] at read
    cases read
    unfold catReads
    rw [made]
    have written (bytes : List Byte) : lionWrite (withFd p fd (advanced f c)) bytes = bytes := if_pos console
    have able : Able (lionClose (withFd p fd (advanced f c)) fd) := closed_able files console bound
    cases chunk : (c.drop f.offset).take readSize with
    | nil =>
      have none : c.drop f.offset = [] := by
        rcases List.take_eq_nil_iff.mp chunk with zero | none
        · exact absurd zero (by decide)
        · exact none
      rw [none]
      exact ⟨_,rfl,rfl,rfl,able⟩
    | cons b bytes =>
      have length := congrArg List.length chunk
      rw [List.length_take,List.length_drop] at length
      dsimp only
      rw [written]
      by_cases last : (b::bytes).length < readSize
      · rw [if_pos last]
        refine ⟨_,rfl,?_,rfl,able⟩
        dsimp only
        rw [← chunk]
        exact List.take_of_length_le (by rw [List.length_drop]; omega)
      · rw [if_neg last]
        have fewer : c.length - (f.offset + min readSize (c.length - f.offset)) + readSize ≤ fuel * readSize := by
          have units : fuel * readSize = fuel * 512 := rfl
          rw [Nat.succ_mul] at enough
          omega
        have moved : c.drop (f.offset + min readSize (c.length - f.offset)) = (c.drop f.offset).drop readSize := by
          rw [List.drop_drop]
          exact congrArg (fun n => c.drop (f.offset + n)) (by omega)
        obtain ⟨x,ends,output,result,after⟩ := @ih (withFd p fd (advanced f c)) (advanced f c) ⟨reader.onFile,reader.readable⟩ files
          console (Function.update_self ..) fewer (calls + 1)
        refine ⟨{x with output := (b::bytes) ++ x.output},by rw [ends]; rfl,?_,result,after⟩
        dsimp only
        rw [output,advanced,moved,← chunk,List.take_append_drop]

/-- A file that is there is put out whole. -/
theorem catFile_prints (able : Able p) (readable : Readable world src c) {fuel : Nat} (enough : c.length + readSize ≤ fuel * readSize)
    (calls : Nat) : ∃ x, catFile world fuel calls p src = some x ∧ x.output = c ∧ x.result = 0 ∧ Able x.process := by
  obtain ⟨files,console,free⟩ := able
  obtain ⟨short,path,disk,normal,content⟩ := readable
  obtain ⟨i,free⟩ := Option.isSome_iff_exists.mp free
  have bound : i < vfsFdMax := (find_range.mp free).1
  have found := backendFor_present (content calls).2.2.1 (content calls).2.1
  have opened := lionOpen_read files short free normal found
  have reader : Reader ⟨true,backendFor (world calls) path,vfsFRead,0,path⟩ disk path :=
    ⟨⟨rfl,(content calls).1,rfl⟩,(rfl : flagged vfsFRead vfsFRead = true)⟩
  unfold catFile
  rw [opened]
  exact @catReads_prints world (withFd p i ⟨true,backendFor (world calls) path,vfsFRead,0,path⟩) path c disk i _ reader bound files console
    (Function.update_self ..) fuel enough (calls + 1) fun call => (content call).2

/-- A path without a file is named. -/
theorem catFile_missing (able : Able p) (missing : Missing world src) (fuel calls : Nat) :
    catFile world fuel calls p src = some ⟨calls + 1,p,shownFor (src,none),1⟩ := by
  have closed : lionOpen (world calls) p src vfsFRead = (world calls,p,none) := by
    unfold lionOpen
    rcases missing with long | none | ⟨path,normal,absent⟩
    · rw [if_pos (.inr long)]
    · split
      · rfl
      · unfold vfsOpenForProcess vfsOpen
        rw [none]
    · split
      · rfl
      · unfold vfsOpenForProcess vfsOpen
        rw [normal]
        dsimp only
        rw [openSlot,if_pos ⟨absent calls,rfl⟩]
  unfold catFile
  rw [closed]
  dsimp only
  rw [lionWrite,if_pos able.console,catNotFound_eq]
  rfl

theorem catFiles_prints {args : List (List Byte × Option (List Byte))} (able : Able p) (names : ∀ arg ∈ args, Names world arg.1 arg.2)
    {fuel : Nat} (enough : ∀ arg ∈ args, ∀ c, arg.2 = some c → c.length + readSize ≤ fuel * readSize) (calls result : Nat) :
    catFiles world fuel (args.map Prod.fst) calls p result =
      some (args.flatMap shownFor,if args.all fun arg => arg.2.isSome then result else 1) := by
  induction args generalizing p calls result with
  | nil => rfl
  | cons arg rest ih =>
    obtain ⟨src,content⟩ := arg
    obtain ⟨name,others⟩ := List.forall_mem_cons.mp names
    obtain ⟨long,longer⟩ := List.forall_mem_cons.mp enough
    rw [List.map_cons,catFiles,List.flatMap_cons,List.all_cons]
    cases name with
    | file c readable =>
      obtain ⟨x,ends,output,code,after⟩ := catFile_prints able readable (long c rfl) calls
      rw [ends]
      dsimp only
      rw [ih after others longer,output,code]
      rfl
    | nothing missing =>
      rw [catFile_missing able missing]
      dsimp only
      rw [ih able others longer]
      refine congrArg some (Prod.ext rfl ?_)
      dsimp only
      split <;> rfl

/-- `cat` puts out every file whole and in order, a line for each path that names none, and its exit code
tells whether all were there; it ends as soon as it may read once more often than the longest file has pieces. -/
theorem cat_prints {args : List (List Byte × Option (List Byte))} (some : args ≠ []) (able : Able p)
    (names : ∀ arg ∈ args, Names world arg.1 arg.2) {fuel : Nat}
    (enough : ∀ arg ∈ args, ∀ c, arg.2 = .some c → c.length + readSize ≤ fuel * readSize) :
    cat world fuel p (args.map Prod.fst) = .some (args.flatMap shownFor,if args.all fun arg => arg.2.isSome then 0 else 1) := by
  cases args with
  | nil => exact absurd rfl some
  | cons arg rest => exact catFiles_prints able names enough 0 0

def catter : Process := {grepper with capabilities := capFs ||| capConsole}

/-- A file and a path without one. -/
theorem cat_prints_letter : cat (fun _ => holding letter (ascii "ab\nc".toList)) 2 catter [letter,ascii ['b']] =
    .some (ascii "ab\nccat: b: not found\n".toList,1) := by
  obtain ⟨_,short,_,path,normal,content⟩ := @holding_served (ascii "ab\nc".toList)
  have readable : Readable (fun _ => holding letter (ascii "ab\nc".toList)) letter (ascii "ab\nc".toList) :=
    ⟨short,path,_,normal,fun call => ⟨rfl,content call⟩⟩
  have absent : backendFor (holding letter (ascii "ab\nc".toList)) (ascii ['b']) = backendNone := by decide
  have missing : Missing (fun _ => holding letter (ascii "ab\nc".toList)) (ascii ['b']) := .inr (.inr ⟨ascii ['b'],by decide,fun _ => absent⟩)
  have names : ∀ arg ∈ [(letter,.some (ascii "ab\nc".toList)),(ascii ['b'],none)],
      Names (fun _ => holding letter (ascii "ab\nc".toList)) arg.1 arg.2 := by
    intro arg member
    rcases List.mem_pair.mp member with rfl | rfl
    · exact .file _ readable
    · exact .nothing missing
  have enough : ∀ arg ∈ [(letter,.some (ascii "ab\nc".toList)),(ascii ['b'],none)], ∀ c, arg.2 = .some c →
      c.length + readSize ≤ 2 * readSize := by
    intro arg member c here
    rcases List.mem_pair.mp member with rfl | rfl
    · cases here
      decide
    · cases here
  have able : Able catter := ⟨by decide,by decide,by decide⟩
  exact (cat_prints (List.cons_ne_nil _ _) able names enough).trans (by decide)

end Printing

end LionOS.Programs

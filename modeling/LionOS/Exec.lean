import LionOS.Files.RamFs
import LionOS.Processes.Schedule

/-! ELF images and the loading of a program into a new address space. -/
namespace LionOS.Exec
open LionOS.Memory LionOS.Physical LionOS.Paging LionOS.Processes LionOS.Files

def headerSize : Nat := 52
def phdrSize : Nat := 32
def ptLoad : Nat := 1
def userBase : Nat := 0x10000000
def userStackPage : Nat := 0xBFFFF000
def userStackTop : Nat := 0xC0000000
def maxExecPages : Nat := maxUserPages

def byteAt (image : List Byte) (i : Nat) : Nat := (image.getD i 0).toNat
def u16 (image : List Byte) (i : Nat) : Nat := byteAt image i + 2^8 * byteAt image (i+1)
def u32 (image : List Byte) (i : Nat) : Nat := u16 image i + 2^16 * u16 image (i+2)

structure Header where
  type : Nat
  machine : Nat
  version : Nat
  entry : Nat
  phoff : Nat
  ehsize : Nat
  phentsize : Nat
  phnum : Nat

structure Phdr where
  type : Nat
  offset : Nat
  vaddr : Nat
  filesz : Nat
  memsz : Nat
  flags : Nat

def header (image : List Byte) : Header where
  type := u16 image 16
  machine := u16 image 18
  version := u32 image 20
  entry := u32 image 24
  phoff := u32 image 28
  ehsize := u16 image 40
  phentsize := u16 image 42
  phnum := u16 image 44

def phdr (image : List Byte) (i : Nat) : Phdr :=
  let at' := (header image).phoff + i * (header image).phentsize
  { type := u32 image at', offset := u32 image (at'+4), vaddr := u32 image (at'+8),
    filesz := u32 image (at'+16), memsz := u32 image (at'+20), flags := u32 image (at'+24) }

def phdrs (image : List Byte) : List Phdr := (List.range (header image).phnum).map (phdr image)

def rangeOk (offset length size : Nat) : Bool := decide (offset ≤ size) && decide (length ≤ size - offset)

/-- The checks that `elf32_validate` makes of one segment to load. -/
def segmentValid (size : Nat) (p : Phdr) : Bool :=
  decide (p.filesz ≤ p.memsz) && rangeOk p.offset p.filesz size && decide (userBase ≤ p.vaddr) &&
    decide (p.vaddr < userLimit) && decide (p.memsz ≤ userLimit - p.vaddr) && decide (p.flags % 8 ≠ 0)

/-- `elf32_validate`: the entry point of a valid image. -/
def elf32Validate (image : List Byte) : Option Nat :=
  let size := image.length
  let h := header image
  let loads := (phdrs image).filter fun p => decide (p.type = ptLoad)
  if size < headerSize then none
  else if image.take 4 ≠ [0x7F,0x45,0x4C,0x46] ∨ byteAt image 4 ≠ 1 ∨ byteAt image 5 ≠ 1 then none
  else if h.type ≠ 2 ∨ h.machine ≠ 3 ∨ h.version ≠ 1 then none
  else if h.ehsize < headerSize ∨ h.phentsize < phdrSize ∨ h.phnum = 0 then none
  else if h.phoff > size ∨ h.phentsize > size - h.phoff ∨ h.phnum > (size - h.phoff) / h.phentsize then none
  else if !loads.all (segmentValid size) then none
  else if loads = [] ∨ h.entry < userBase ∨ h.entry ≥ userLimit then none
  else some h.entry

def alignDown (x : Nat) : Nat := x / pageSize * pageSize
def alignUp (x : Nat) : Nat := (x + pageSize - 1) / pageSize * pageSize

/-- The segments that take up pages. -/
def loaded (image : List Byte) : List Phdr :=
  (phdrs image).filter fun p => decide (p.type = ptLoad) && decide (p.memsz ≠ 0)

def segmentFits (p : Phdr) : Bool :=
  let first := alignDown p.vaddr
  let last := alignUp (p.vaddr + p.memsz)
  decide ((last - first) / pageSize ≤ maxExecPages) && !(decide (first ≤ userStackPage) && decide (userStackPage < last))

/-- `exec_validate_image`: the entry point. The checks that it repeats after
`elf32_validate` cannot fail. -/
def execValidateImage (image : List Byte) : Option Nat :=
  match elf32Validate image with
  | none => none
  | some entry =>
    if (loaded image).all (fun p => segmentValid image.length p && segmentFits p) && decide (loaded image ≠ []) then
      some entry
    else none

/-- An entry of the arrays `vas`, `pages` and `flags`. -/
structure LoadPage where
  va : Nat
  page : Nat
  flags : Nat

/-- The pages loaded so far; `page` is 0 in the last of them where the allocation
failed. -/
structure Loading where
  vm : Vm
  pages : List LoadPage

def findPage (pages : List LoadPage) (va : Nat) : Option Nat := pages.findIdx? fun p => decide (p.va = va)

def setFlags (pages : List LoadPage) (i : Nat) (writable : Bool) : List LoadPage :=
  if writable then pages.modify i fun p => {p with flags := p.flags ||| 2} else pages

/-- A round of the first loop of `load_image` over the page `va` of a segment. -/
def loadPage (l : Loading) (va : Nat) (writable : Bool) : Loading × Bool :=
  match findPage l.pages va with
  | some i => ({l with pages := setFlags l.pages i writable},true)
  | none =>
    if l.pages.length ≥ maxExecPages then (l,false)
    else match pageAlloc l.vm.pages with
      | none => ({l with pages := l.pages ++ [⟨va,0,0⟩]},false)
      | some (pages,page) =>
        let vm := {l.vm with pages,mem := Function.update l.vm.mem (page / pageSize) zeroPage}
        (⟨vm,setFlags (l.pages ++ [⟨va,page,1⟩]) l.pages.length writable⟩,true)

def loadPages (l : Loading) (writable : Bool) : List Nat → Loading × Bool
  | [] => (l,true)
  | va::rest => match loadPage l va writable with
    | (l,false) => (l,false)
    | (l,true) => loadPages l writable rest

def segmentPages (p : Phdr) : List Nat :=
  (List.range ((alignUp (p.vaddr + p.memsz) - alignDown p.vaddr) / pageSize)).map
    fun i => alignDown p.vaddr + i * pageSize

def loadSegments (l : Loading) : List Phdr → Loading × Bool
  | [] => (l,true)
  | p::rest => match loadPages l (decide (p.flags / 2 % 2 = 1)) (segmentPages p) with
    | (l,false) => (l,false)
    | (l,true) => loadSegments l rest

/-- The second loop of `load_image` over the bytes of one segment. -/
def copyBytes (pages : List LoadPage) (m : Mem) (va : Nat) : List Byte → Mem × Bool
  | [] => (m,true)
  | c::rest => match findPage pages (alignDown va) with
    | none => (m,false)
    | some i =>
      copyBytes pages (writeByte m ((pages.map LoadPage.page).getD i 0 + va % pageSize) c) (va+1) rest

def copySegments (image : List Byte) (pages : List LoadPage) (m : Mem) : List Phdr → Mem × Bool
  | [] => (m,true)
  | p::rest => match copyBytes pages m p.vaddr ((image.drop p.offset).take p.filesz) with
    | (m,false) => (m,false)
    | (m,true) => copySegments image pages m rest

/-- `build_initial_stack` for the program `name`: the memory and the stack pointer. -/
def buildInitialStack (m : Mem) (page : Nat) (name : List Byte) : Option (Mem × Nat) :=
  if name.length > 32 then none
  else
    let stringVa := userStackTop - 20 - name.length - 1
    let argv0 := userStackTop - 12
    let argc := userStackTop - 20
    let m := writeBytes m (page + (stringVa - userStackPage)) (name ++ [0])
    let m := writeBytes m (page + (argv0 - userStackPage)) (bytes32 stringVa)
    let m := writeBytes m (page + (argv0 - userStackPage) + 4) (bytes32 0)
    some (writeBytes m (page + (argc - userStackPage)) (bytes32 1),argc)

def mapPages (pd : Nat) (vm : Vm) : List LoadPage → Vm × Bool
  | [] => (vm,true)
  | p::rest => match pagingMapUserPageIn vm pd p.va p.page (BitVec.ofNat 64 p.flags) with
    | none => (vm,false)
    | some vm => mapPages pd vm rest

/-- The label `fail` of `load_image`. -/
def loadFail (vm : Vm) (pages : List LoadPage) : Vm :=
  {vm with pages := freePages vm.pages (pages.map LoadPage.page)}

structure Loaded where
  entry : Nat
  stack : Nat
  pd : Nat
  pages : List LoadPage

/-- What `ramfs_data` and `ramfs_size` give for a name; empty where one is 0. -/
def imageOf (r : RamFs) (name : List Byte) : List Byte :=
  match ramfsData r name with
  | none => []
  | some data => (List.range (ramfsSize r name)).map data

def loadImage (vm : Vm) (r : RamFs) (name : List Byte) : Vm × Option Loaded :=
  let image := imageOf r name
  match execValidateImage image with
  | none => (vm,none)
  | some entry => match loadSegments ⟨vm,[]⟩ (loaded image) with
    | (l,false) => (loadFail l.vm l.pages,none)
    | (l,true) => match copySegments image l.pages l.vm.mem
        ((phdrs image).filter fun p => decide (p.type = ptLoad) && decide (p.filesz ≠ 0)) with
      | (mem,false) => (loadFail {l.vm with mem} l.pages,none)
      | (mem,true) =>
        let vm := {l.vm with mem}
        if l.pages.length ≥ maxExecPages then (loadFail vm l.pages,none)
        else match pageAlloc vm.pages with
          | none => (loadFail vm l.pages,none)
          | some (frames,sp) =>
            let pages := l.pages ++ [⟨userStackPage,sp,3⟩]
            let vm := {vm with pages := frames,mem := Function.update vm.mem (sp / pageSize) zeroPage}
            match buildInitialStack vm.mem sp name with
            | none => (loadFail vm pages,none)
            | some (mem,stack) => match pagingCreateAddressSpace {vm with mem} with
              | none => (loadFail {vm with mem} pages,none)
              | some (vm,pd) => match mapPages pd vm pages with
                | (vm,false) => (loadFail (pagingDestroyAddressSpace vm pd) pages,none)
                | (vm,true) => (vm,some ⟨entry,stack,pd,pages⟩)

def pageArray (pages : List LoadPage) (i : Nat) : Nat := (pages.map LoadPage.page).getD i 0
def vaArray (pages : List LoadPage) (i : Nat) : Nat := (pages.map LoadPage.va).getD i 0

/-- A program that was loaded and then not started. -/
def discard (s : System) (program : Loaded) : System :=
  {s with vm := loadFail (pagingDestroyAddressSpace s.vm program.pd) program.pages}

/-- `exec_run_file`: the pid, `none` for -1. -/
def execRunFile (s : System) (r : RamFs) (cpu : Nat) (name : List Byte) : System × Option Nat :=
  match loadImage s.vm r name with
  | (vm,none) => ({s with vm},none)
  | (vm,some p) =>
    let s := {s with vm}
    match processCreateExVas s cpu p.entry p.stack p.pd (pageArray p.pages) (vaArray p.pages) p.pages.length with
    | none => (discard s p,none)
    | some (s,i) => (s,some (s.processes i).pid)

/-- `exec_replace_current` up to its result: `false` for -1. -/
def execReplaceCurrent (s : System) (r : RamFs) (cpu : Nat) (name : List Byte) : System × Bool :=
  match loadImage s.vm r name with
  | (vm,none) => ({s with vm},false)
  | (vm,some p) =>
    let s := {s with vm}
    match processExecReplaceCurrent s cpu p.entry p.stack p.pd (pageArray p.pages) (vaArray p.pages)
        p.pages.length with
    | none => (discard s p,false)
    | some s => (s,true)

end LionOS.Exec

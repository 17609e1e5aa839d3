import LionOS.Memory
import LionOS.Physical

/-! PAE page tables: the directories of user address spaces, their second-level
tables and the copy-on-write marks of their entries, kept in physical memory. -/
namespace LionOS.Paging
open LionOS.Memory LionOS.Physical

def userLimit : Nat := 0xC0000000
def processPagingPages : Nat := 5

def ptePresent : Word := 0x1
def pteWritable : Word := 0x2
def pteUser : Word := 0x4
def pteCow : Word := 0x200
def pteFlagsMask : Word := 0x21F
def pteAddrMask : Word := 0x000FFFFFFFFFF000

/-- One byte that the kernel stores to user memory: the page directory it goes
through, the virtual address and the flags of its page at that moment. -/
structure UserStore where
  directory : Nat
  address : Nat
  flags : Word
  deriving DecidableEq

/-- The memory state of the kernel. `pageRoot` and `kernelPd` are the link-time
addresses of the kernel directory and of its four page directories. Two lists record
what the kernel has done: `userStores` the bytes of user memory it has stored to, and
`spaces` the address spaces it has created and not destroyed since. -/
structure Vm where
  mem : Mem
  pages : Allocator
  pageRoot : Nat
  kernelPd : Nat
  currentDirectory : Nat → Nat
  userStores : List UserStore
  spaces : List Nat

def has (entry flag : Word) : Bool := entry &&& flag != 0#64

/-- A 32-bit pointer from an entry, as `pd_ptr` and `pt_ptr` compute it. -/
def ptPtr (entry : Word) : Nat := (entry &&& pteAddrMask).toNat % 2^32

def pdPtr (m : Mem) (physical pdptIndex : Nat) : Nat := ptPtr (read m (physical + 8 * pdptIndex))

def pdptIndex (va : Nat) : Nat := va / 2^30
def pdIndex (va : Nat) : Nat := va / 2^21 % 512
def ptIndex (va : Nat) : Nat := va / 2^12 % 512

/-- The address of the directory entry of `va`; `none` where `pd_ptr` is null. -/
def pdeSlot (m : Mem) (pd va : Nat) : Option Nat :=
  let directory := pdPtr m pd (pdptIndex va)
  if directory = 0 then none else some (directory + 8 * pdIndex va)

/-- The address of the table entry of `va`; `none` where the directory is null or
its entry is not a present user table. -/
def pteSlot (m : Mem) (pd va : Nat) : Option Nat :=
  match pdeSlot m pd va with
  | none => none
  | some slot =>
    let pde := read m slot
    if has pde ptePresent && has pde pteUser then some (ptPtr pde + 8 * ptIndex va) else none

def entryOf (address : Nat) (flags : Word) : Word :=
  (BitVec.ofNat 64 address &&& pteAddrMask) ||| (flags &&& pteFlagsMask) ||| ptePresent ||| pteUser

def pagingKernelDirectory (vm : Vm) : Nat := vm.pageRoot

def kernelEntry (vm : Vm) (i j : Nat) : Word := read vm.mem (vm.kernelPd + i * pageSize + 8 * j)

/-- The five frames that `paging_create_address_space` fills at `base`: the root
and the four directories with the supervisor entries of the kernel. -/
def newDirectory (vm : Vm) (base : Nat) : Mem := fun f i =>
  let b := base / pageSize
  if f = b then
    if i < 4 then (BitVec.ofNat 64 (base + (i+1) * pageSize) &&& pteAddrMask) ||| ptePresent else 0
  else if b < f ∧ f ≤ b + 4 then kernelEntry vm (f - b - 1) i &&& ~~~pteUser
  else vm.mem f i

def pagingCreateAddressSpace (vm : Vm) : Option (Vm × Nat) :=
  match pageAllocContiguous vm.pages processPagingPages with
  | none => none
  | some (pages,base) => some ({vm with pages,mem := newDirectory vm base,spaces := base::vm.spaces},base)

def pagingMapUserPageIn (vm : Vm) (pd va pa : Nat) (flags : Word) : Option Vm :=
  if pd = 0 ∨ va ≥ userLimit ∨ va % pageSize ≠ 0 ∨ pa % pageSize ≠ 0 then none
  else match pdeSlot vm.mem pd va with
    | none => none
    | some slot =>
      let pde := read vm.mem slot
      if has pde ptePresent && has pde pteUser then
        some {vm with mem := write vm.mem (ptPtr pde + 8 * ptIndex va) (entryOf pa flags)}
      else match pageAlloc vm.pages with
        | none => none
        | some (pages,table) =>
          let m := Function.update vm.mem (table / pageSize) zeroPage
          let m := write m slot ((BitVec.ofNat 64 table &&& pteAddrMask) |||
            ptePresent ||| pteWritable ||| pteUser)
          some {vm with pages,mem := write m (table + 8 * ptIndex va) (entryOf pa flags)}

def pagingSetUserPageFlags (vm : Vm) (pd va : Nat) (flags : Word) : Option Vm :=
  if pd = 0 ∨ va ≥ userLimit ∨ va % pageSize ≠ 0 then none
  else match pteSlot vm.mem pd va with
    | none => none
    | some slot =>
      let pte := read vm.mem slot
      if has pte ptePresent && has pte pteUser then
        some {vm with mem := write vm.mem slot ((pte &&& pteAddrMask) ||| (flags &&& pteFlagsMask) |||
          ptePresent ||| pteUser)}
      else none

/-- The frame and the supported flags of the page that holds `va`. -/
def pagingGetUserPage (vm : Vm) (pd va : Nat) : Option (Nat × Word) :=
  if pd = 0 ∨ va ≥ userLimit then none
  else match pteSlot vm.mem pd va with
    | none => none
    | some slot =>
      let pte := read vm.mem slot
      if has pte ptePresent && has pte pteUser then some (ptPtr pte,pte &&& pteFlagsMask) else none

def pagingMarkCow (vm : Vm) (pd va : Nat) : Option Vm :=
  match pagingGetUserPage vm pd va with
  | none => none
  | some (_,flags) =>
    if has flags pteWritable then pagingSetUserPageFlags vm pd va ((flags &&& ~~~pteWritable) ||| pteCow)
    else none

def pagingResolveCow (vm : Vm) (pd va : Nat) : Option Vm :=
  if pd = 0 ∨ va ≥ userLimit ∨ va % pageSize ≠ 0 then none
  else match pteSlot vm.mem pd va with
    | none => none
    | some slot =>
      let pte := read vm.mem slot
      if has pte ptePresent && has pte pteUser && has pte pteCow then
        let oldPhys := ptPtr pte
        let flags := ((pte &&& pteFlagsMask) ||| pteWritable) &&& ~~~pteCow
        match pageRefcount vm.pages oldPhys with
        | 0 => none
        | 1 => some {vm with mem := write vm.mem slot ((pte &&& pteAddrMask) ||| flags |||
            ptePresent ||| pteUser)}
        | _ => match pageAlloc vm.pages with
          | none => none
          | some (pages,newPage) =>
            let m := Function.update vm.mem (newPage / pageSize) (vm.mem (oldPhys / pageSize))
            let m := write m slot ((BitVec.ofNat 64 newPage &&& pteAddrMask) ||| flags |||
              ptePresent ||| pteUser)
            some {vm with mem := m,pages := pageFree pages oldPhys}
      else none

/-- The present user tables of the directory block at `base`, in the order in
which `paging_destroy_address_space` frees them. -/
def userTables (m : Mem) (base : Nat) : List Nat :=
  (List.range 4).flatMap fun i => (List.range 512).filterMap fun j =>
    let pde := read m (base + (i+1) * pageSize + 8 * j)
    if has pde ptePresent && has pde pteUser then some (ptPtr pde) else none

def pagingDestroyAddressSpace (vm : Vm) (pd : Nat) : Vm :=
  if pd = 0 ∨ pd = pagingKernelDirectory vm then vm
  else
    let pages := (userTables vm.mem pd).foldl pageFree vm.pages
    let pages := (List.range processPagingPages).foldl (fun a i => pageFree a (pd + i * pageSize)) pages
    let root : Page := fun i => if i < 4 then 0 else vm.mem (pd / pageSize) i
    {vm with
      pages,mem := Function.update vm.mem (pd / pageSize) root
      spaces := vm.spaces.filter fun space => decide (space ≠ pd)}

/-- A ring-0 store through the current directory. With CR0.WP set it faults on a
page that is not writable, and a fault in ring 0 ends in `kernel_panic`. -/
def storeUser (vm : Vm) (cpu va : Nat) (value : Byte) : Option Vm :=
  match pagingGetUserPage vm (vm.currentDirectory cpu) va with
  | none => none
  | some (physical,flags) =>
    if has flags pteWritable then
      some {vm with mem := writeByte vm.mem (physical + va % pageSize) value,
                    userStores := vm.userStores ++ [⟨vm.currentDirectory cpu,va,flags⟩]}
    else none

def storeUserBytes (vm : Vm) (cpu va : Nat) : List Byte → Option Vm
  | [] => some vm
  | value::rest => match storeUser vm cpu va value with
    | none => none
    | some vm => storeUserBytes vm cpu (va+1) rest

def pagingSwitchAddressSpace (vm : Vm) (cpu pd : Nat) : Vm :=
  if pd = 0 then vm else {vm with currentDirectory := Function.update vm.currentDirectory cpu pd}

end LionOS.Paging

import LionOS.Processes.Schedule

/-! How system calls check, read and fill buffers of the calling process. -/
namespace LionOS.Calls
open LionOS.Memory LionOS.Physical LionOS.Paging LionOS.Processes

def userMin : Nat := 0x10000000
def userMax : Nat := 0xC0000000
def userCopyMax : Nat := 4096

def pagingCurrentAddressSpace (vm : Vm) (cpu : Nat) : Nat := vm.currentDirectory cpu

/-- The pages from the one of `ptr` to the one of the last byte. -/
def rangePages (ptr len : Nat) : List Nat :=
  (List.range ((ptr % pageSize + len + pageSize - 1) / pageSize)).map fun i => pageOf ptr + i * pageSize

def inUserRange (ptr len : Nat) : Bool :=
  decide (userMin ≤ ptr) && decide (ptr < userMax) && decide (len ≤ userMax - ptr)

def userRangeOk (vm : Vm) (cpu ptr len : Nat) : Bool :=
  if len = 0 then inUserRange ptr 0
  else inUserRange ptr len && decide (pagingCurrentAddressSpace vm cpu ≠ 0) &&
    (rangePages ptr len).all fun va => (pagingGetUserPage vm (pagingCurrentAddressSpace vm cpu) va).isSome

/-- The page loop of `user_range_ok_write`. -/
def makeWritable (vm : Vm) (pd : Nat) : List Nat → Vm × Bool
  | [] => (vm,true)
  | va::rest => match pagingGetUserPage vm pd va with
    | none => (vm,false)
    | some (_,flags) =>
      if has flags pteWritable then makeWritable vm pd rest
      else if has flags pteCow then
        match pagingResolveCow vm pd va with
        | none => (vm,false)
        | some vm => makeWritable vm pd rest
      else (vm,false)

def userRangeOkWrite (vm : Vm) (cpu ptr len : Nat) : Vm × Bool :=
  if len = 0 then (vm,inUserRange ptr 0)
  else if inUserRange ptr len && decide (pagingCurrentAddressSpace vm cpu ≠ 0) then
    makeWritable vm (pagingCurrentAddressSpace vm cpu) (rangePages ptr len)
  else (vm,false)

/-- A ring-0 load through the current directory: `none` is a fault. -/
def loadUser (vm : Vm) (cpu va : Nat) : Option Byte :=
  (pagingGetUserPage vm (vm.currentDirectory cpu) va).map fun page => readByte vm.mem (page.1 + va % pageSize)

def loadUserBytes (vm : Vm) (cpu va : Nat) : Nat → Option (List Byte)
  | 0 => some []
  | n+1 => match loadUser vm cpu va with
    | none => none
    | some c => (loadUserBytes vm cpu (va+1) n).map (c::·)

/-- The loop of `copy_user_string`: at most `n` characters before the final zero. -/
def copyCharacters (vm : Vm) (cpu va : Nat) : Nat → Option (List Byte)
  | 0 => none
  | n+1 =>
    if userRangeOk vm cpu va 1 then
      match loadUser vm cpu va with
      | none => none
      | some c => if c = 0 then some [] else (copyCharacters vm cpu (va+1) n).map (c::·)
    else none

/-- `copy_user_string` into an array of `size` characters. -/
def copyUserString (vm : Vm) (cpu size ptr : Nat) : Option (List Byte) :=
  if size < 2 then none else copyCharacters vm cpu ptr (size - 1)

end LionOS.Calls

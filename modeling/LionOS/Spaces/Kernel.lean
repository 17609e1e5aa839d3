import LionOS.Frames.Boot
import LionOS.Spaces.Tables

/-! `paging_init`: the supervisor mappings of the kernel, which lie outside the range of user
addresses, in frames that `memory_init` hands out to nobody. -/
namespace LionOS.Paging
open LionOS.Memory LionOS.Physical LionOS.Frames

def identityPtCount : Nat := 128
def kernelMmioBase : Nat := 0xF0000000
def kernelMmioPdIndex : Nat := kernelMmioBase / 2^21 % 512
def kernelMmioPtCount : Nat := 128

/-- The first address of user programs. -/
def userFloor : Nat := 0x10000000

/-- The kernel image from `_kernel_start` to `_kernel_end` with the static tables in it. -/
structure Image where
  start : Nat
  finish : Nat
  pageRoot : Nat
  kernelPd : Nat
  identityPt : Nat
  kernelMmioPt : Nat
  small : finish < 2^32
  aligned : ∀ table ∈ [pageRoot,kernelPd,identityPt,kernelMmioPt], table % pageSize = 0
  within : ∀ block ∈ [(pageRoot,1),(kernelPd,4),(identityPt,identityPtCount),(kernelMmioPt,kernelMmioPtCount)],
    start ≤ block.1 ∧ block.1 + block.2 * pageSize ≤ finish
  apart : [(pageRoot,1),(kernelPd,4),(identityPt,identityPtCount),(kernelMmioPt,kernelMmioPtCount)].Pairwise
    fun block other => block.1 + block.2 * pageSize ≤ other.1 ∨ other.1 + other.2 * pageSize ≤ block.1

/-- Entry `j` of `kernel_pd[i]`. -/
def kernelPde (image : Image) (i j : Nat) : Word :=
  if i = 0 ∧ j < identityPtCount then
    (BitVec.ofNat 64 (image.identityPt + j * pageSize) &&& pteAddrMask) ||| ptePresent ||| pteWritable
  else if i = 3 ∧ kernelMmioPdIndex ≤ j ∧ j < kernelMmioPdIndex + kernelMmioPtCount then
    (BitVec.ofNat 64 (image.kernelMmioPt + (j - kernelMmioPdIndex) * pageSize) &&& pteAddrMask) |||
      ptePresent ||| pteWritable
  else 0

def pagingInit (image : Image) (m : Mem) : Mem := fun f i =>
  if f = image.pageRoot / pageSize ∧ i < 4 then
    (BitVec.ofNat 64 (image.kernelPd + i * pageSize) &&& pteAddrMask) ||| ptePresent
  else if image.kernelPd / pageSize ≤ f ∧ f < image.kernelPd / pageSize + 4 then
    kernelPde image (f - image.kernelPd / pageSize) i
  else if image.identityPt / pageSize ≤ f ∧ f < image.identityPt / pageSize + identityPtCount then
    BitVec.ofNat 64 (((f - image.identityPt / pageSize) * 512 + i) * pageSize) ||| ptePresent ||| pteWritable
  else if image.kernelMmioPt / pageSize ≤ f ∧ f < image.kernelMmioPt / pageSize + kernelMmioPtCount then 0
  else m f i

/-- The memory state when `memory_init` has left the allocator `a` and `paging_init` has returned. -/
def bootVm (image : Image) (m : Mem) (a : Allocator) : Vm where
  mem := pagingInit image m
  pages := a
  pageRoot := image.pageRoot
  kernelPd := image.kernelPd
  currentDirectory := fun cpu => if cpu = 0 then image.pageRoot else 0
  userStores := []
  spaces := []

/-- The frames of the kernel's own directory. -/
def KernelFrame (vm : Vm) (f : Nat) : Prop :=
  f = vm.pageRoot / pageSize ∨ vm.kernelPd / pageSize ≤ f ∧ f < vm.kernelPd / pageSize + 4

/-- The kernel maps nothing for ring 3 and nothing at user addresses. -/
structure Supervisor (vm : Vm) : Prop where
  root : vm.pageRoot % pageSize = 0
  aligned : vm.kernelPd % pageSize = 0
  used : ∀ f, KernelFrame vm f → isFree vm.pages f = false
  guarded : ∀ i < 4, ∀ j < 512, has (kernelEntry vm i j) pteUser = false
  lower : ∀ va, userFloor ≤ va → va < userLimit → kernelEntry vm (pdptIndex va) (pdIndex va) = 0

theorem kernelEntry_word {vm : Vm} (aligned : vm.kernelPd % pageSize = 0) {i j : Nat} (inside : j < 512) :
    kernelEntry vm i j = vm.mem (vm.kernelPd / pageSize + i) j := by
  have row : (vm.kernelPd + i * pageSize) % pageSize = 0 := by rw [Nat.add_mul_mod_self_right,aligned]
  rw [kernelEntry,read_word vm.mem row inside,word,Nat.add_mul_div_right _ _ (by decide)]

theorem kernelEntry_congr {vm vm' : Vm} (place : vm'.kernelPd = vm.kernelPd) (aligned : vm.kernelPd % pageSize = 0)
    (same : ∀ f, KernelFrame vm f → vm'.mem f = vm.mem f) {i j : Nat} (row : i < 4) (inside : j < 512) :
    kernelEntry vm' i j = kernelEntry vm i j := by
  rw [kernelEntry_word (place ▸ aligned) inside,kernelEntry_word aligned inside,place,
    same _ (.inr ⟨Nat.le_add_right _ _,by omega⟩)]

/-- What leaves the kernel's frames alone leaves its mappings alone. -/
theorem Supervisor.congr {vm vm' : Vm} (supervisor : Supervisor vm) (root : vm'.pageRoot = vm.pageRoot)
    (place : vm'.kernelPd = vm.kernelPd)
    (same : ∀ f, KernelFrame vm f → vm'.mem f = vm.mem f ∧ isFree vm'.pages f = false) : Supervisor vm' := by
  have entry {i j : Nat} (row : i < 4) (inside : j < 512) : kernelEntry vm' i j = kernelEntry vm i j :=
    kernelEntry_congr place supervisor.aligned (fun f kernel => (same f kernel).1) row inside
  refine ⟨root ▸ supervisor.root,place ▸ supervisor.aligned,?_,?_,?_⟩
  · intro f kernel
    rw [KernelFrame,root,place] at kernel
    exact (same f kernel).2
  · intro i row j inside
    rw [entry row inside]
    exact supervisor.guarded i row j inside
  · intro va low high
    have row : pdptIndex va < 4 := by
      simp only [pdptIndex,userLimit] at *
      omega
    rw [entry row (pdIndex_small va)]
    exact supervisor.lower va low high

section Boot
variable {image : Image} {m : Mem} {a : Allocator}

theorem bootVm_entry {i j : Nat} (row : i < 4) (inside : j < 512) :
    kernelEntry (bootVm image m a) i j = kernelPde image i j := by
  have aligned : image.kernelPd % pageSize = 0 := image.aligned _ (by simp)
  have root : image.pageRoot % pageSize = 0 := image.aligned _ (by simp)
  have apart := image.apart
  simp only [List.pairwise_cons,List.mem_cons,forall_eq_or_imp] at apart
  have other : image.kernelPd / pageSize + i ≠ image.pageRoot / pageSize := by
    have first := apart.1.1
    simp only [pageSize] at *
    omega
  rw [kernelEntry_word aligned inside]
  simp only [bootVm,pagingInit]
  rw [if_neg fun here => other here.1,if_pos ⟨Nat.le_add_right _ _,by omega⟩,Nat.add_sub_cancel_left]

theorem kernelPde_guarded (i j : Nat) : has (kernelPde image i j) pteUser = false := by
  have table (address : Nat) : has ((BitVec.ofNat 64 address &&& pteAddrMask) ||| ptePresent ||| pteWritable) pteUser =
      false := by
    have bits : has (BitVec.ofNat 64 address &&& pteAddrMask) pteUser = false := by
      rw [has,BitVec.and_assoc,show pteAddrMask &&& pteUser = 0#64 by decide,BitVec.and_zero]
      rfl
    rw [has_or,has_or,bits]
    decide
  unfold kernelPde
  split
  · exact table _
  split
  · exact table _
  · decide

/-- The identity map ends below the first user address, and the window for devices begins
above the last one. -/
theorem kernelPde_lower {va : Nat} (low : userFloor ≤ va) (high : va < userLimit) :
    kernelPde image (pdptIndex va) (pdIndex va) = 0 := by
  unfold kernelPde
  rw [if_neg,if_neg]
  · simp only [pdptIndex,userLimit] at *
    omega
  · simp only [pdptIndex,pdIndex,userFloor,identityPtCount] at *
    omega

/-- The kernel's directory after the boot. -/
theorem bootVm_supervisor {bytes : Nat → Byte} {mi fuel : Nat}
    (booted : memoryInit bytes mi image.start image.finish fuel = some a) : Supervisor (bootVm image m a) := by
  have aligned : image.kernelPd % pageSize = 0 := image.aligned _ (by simp)
  have root : image.pageRoot % pageSize = 0 := image.aligned _ (by simp)
  have rootInside := image.within (image.pageRoot,1) (by simp)
  have inside := image.within (image.kernelPd,4) (by simp)
  refine ⟨root,aligned,?_,?_,?_⟩
  · intro f kernel
    apply memoryInit_reserves booted image.small
    · rcases kernel with rfl | kernel
      · simp only [bootVm,pageSize] at *
        omega
      · simp only [bootVm,pageSize] at *
        omega
    · rcases kernel with rfl | kernel
      · simp only [bootVm,pageSize] at *
        omega
      · simp only [bootVm,pageSize] at *
        omega
  · intro i row j column
    rw [bootVm_entry row column]
    exact kernelPde_guarded i j
  · intro va low high
    have row : pdptIndex va < 4 := by
      simp only [pdptIndex,userLimit] at *
      omega
    rw [bootVm_entry row (pdIndex_small va)]
    exact kernelPde_lower low high

end Boot

end LionOS.Paging

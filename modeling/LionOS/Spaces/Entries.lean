import LionOS.Paging

/-! The bits of page table entries and the words that a walk reads. -/
namespace LionOS.Paging
open LionOS.Memory LionOS.Physical

theorem ptPtr_aligned (entry : Word) : ptPtr entry % pageSize = 0 := by
  have low : ((entry &&& pteAddrMask).setWidth 12).toNat = 0 := by
    rw [BitVec.setWidth_and,show pteAddrMask.setWidth 12 = 0#12 by decide]
    simp
  rw [BitVec.toNat_setWidth] at low
  simp only [ptPtr,pageSize]
  omega

/-- What address and flags a present user entry leads to. -/
def leaf (entry : Word) : Option (Nat × Word) :=
  if has entry ptePresent && has entry pteUser then some (ptPtr entry,entry &&& pteFlagsMask) else none

theorem leaf_flags {entry flags : Word} {page : Nat} (mapped : leaf entry = some (page,flags)) :
    has flags ptePresent = true ∧ has flags pteUser = true := by
  unfold leaf at mapped
  split_ifs at mapped with user
  cases mapped
  rw [Bool.and_eq_true] at user
  have kept (flag : Word) (inside : pteFlagsMask &&& flag = flag) : has (entry &&& pteFlagsMask) flag = has entry flag := by
    rw [has,BitVec.and_assoc,inside]
    rfl
  exact ⟨(kept ptePresent (by decide)).trans user.1,(kept pteUser (by decide)).trans user.2⟩

/-- An entry with the address bits of `a` and the flags `f`, present and of the user. -/
def userEntry (a f : Word) : Word := (a &&& pteAddrMask) ||| f ||| ptePresent ||| pteUser

/-- Flags without a bit outside the mask. -/
def Bare (f : Word) : Prop := f &&& pteFlagsMask = f

theorem bare_masked (f : Word) : Bare (f &&& pteFlagsMask) := by
  rw [Bare,BitVec.and_assoc,BitVec.and_self]

theorem Bare.address {f : Word} (bare : Bare f) : f &&& pteAddrMask = 0#64 := by
  rw [← show f &&& pteFlagsMask = f from bare,BitVec.and_assoc,show pteFlagsMask &&& pteAddrMask = 0#64 by decide]
  exact BitVec.and_zero

theorem userEntry_address (a : Word) {f : Word} (bare : Bare f) :
    userEntry a f &&& pteAddrMask = a &&& pteAddrMask := by
  simp only [userEntry,BitVec.and_or_distrib_right,bare.address,BitVec.and_assoc,BitVec.and_self]
  rw [show ptePresent &&& pteAddrMask = 0#64 by decide,show pteUser &&& pteAddrMask = 0#64 by decide]
  simp

theorem userEntry_congr {a b : Word} (same : a &&& pteAddrMask = b &&& pteAddrMask) (f : Word) : userEntry a f = userEntry b f := by
  rw [userEntry,userEntry,same]

theorem ptPtr_userEntry (a : Word) {f : Word} (bare : Bare f) : ptPtr (userEntry a f) = ptPtr a := by
  rw [ptPtr,userEntry_address a bare,ptPtr]

theorem userEntry_flags (a : Word) {f : Word} (bare : Bare f) :
    userEntry a f &&& pteFlagsMask = f ||| ptePresent ||| pteUser := by
  simp only [userEntry,BitVec.and_or_distrib_right,BitVec.and_assoc]
  rw [show f &&& pteFlagsMask = f from bare,show pteAddrMask &&& pteFlagsMask = 0#64 by decide,
    show ptePresent &&& pteFlagsMask = ptePresent by decide,show pteUser &&& pteFlagsMask = pteUser by decide]
  simp

/-- A flag that one of the parts has. -/
theorem has_or (x y flag : Word) : has (x ||| y) flag = (has x flag || has y flag) := by
  unfold has
  rw [BitVec.and_or_distrib_right]
  by_cases left : x &&& flag = 0#64
  · simp [left]
  · have joined : (x &&& flag) ||| (y &&& flag) ≠ 0#64 := by
      intro zero
      exact left (BitVec.or_eq_zero_iff.mp zero).1
    rw [bne_iff_ne.mpr joined,bne_iff_ne.mpr left,Bool.true_or]

theorem has_userEntry (a : Word) {f flag : Word} (apart : pteAddrMask &&& flag = 0#64) :
    has (userEntry a f) flag = (has f flag || has ptePresent flag || has pteUser flag) := by
  have address : has (a &&& pteAddrMask) flag = false := by
    rw [has,BitVec.and_assoc,apart,BitVec.and_zero]
    rfl
  simp only [userEntry,has_or,address,Bool.false_or]

theorem leaf_userEntry (a : Word) {f : Word} (bare : Bare f) :
    leaf (userEntry a f) = some (ptPtr a,f ||| ptePresent ||| pteUser) := by
  have present : has (userEntry a f) ptePresent = true := by
    rw [has_userEntry a (by decide)]
    simp [show has ptePresent ptePresent = true by decide]
  have user : has (userEntry a f) pteUser = true := by
    rw [has_userEntry a (by decide)]
    simp [show has pteUser pteUser = true by decide]
  rw [leaf,present,user,ptPtr_userEntry a bare,userEntry_flags a bare]
  rfl

theorem ptPtr_ofNat {address : Nat} (aligned : address % pageSize = 0) (small : address < 2^32) :
    ptPtr (BitVec.ofNat 64 address) = address := by
  have value : (BitVec.ofNat 64 address &&& pteAddrMask).toNat = address := by
    have split : BitVec.ofNat 64 address &&& pteAddrMask = BitVec.ofNat 64 address := by
      apply BitVec.eq_of_toNat_eq
      rw [BitVec.toNat_and,BitVec.toNat_ofNat,Nat.mod_eq_of_lt (by omega)]
      obtain ⟨frame,rfl⟩ : ∃ frame, address = frame * 2^12 :=
        ⟨address / 4096,by simp only [pageSize] at aligned; omega⟩
      rw [show pteAddrMask.toNat = (2^40 - 1) * 2^12 by decide,← Nat.shiftLeft_eq,← Nat.shiftLeft_eq,
        ← Nat.shiftLeft_and_distrib,Nat.and_two_pow_sub_one_eq_mod,Nat.mod_eq_of_lt (by omega)]
    rw [split,BitVec.toNat_ofNat,Nat.mod_eq_of_lt (by omega)]
  rw [ptPtr,value,Nat.mod_eq_of_lt small]

/-- The flags that `paging_resolve_cow` gives the page of an entry. -/
def resolvedFlags (entry : Word) : Word := ((entry &&& pteFlagsMask) ||| pteWritable) &&& ~~~pteCow

theorem resolvedFlags_bare (entry : Word) : Bare (resolvedFlags entry) := by
  rw [Bare,resolvedFlags,BitVec.and_assoc,BitVec.and_comm (~~~pteCow),← BitVec.and_assoc,
    BitVec.and_or_distrib_right,BitVec.and_assoc,BitVec.and_self,
    show pteWritable &&& pteFlagsMask = pteWritable by decide]

theorem resolvedFlags_writable (entry : Word) : has (resolvedFlags entry) pteWritable = true := by
  have kept : has (resolvedFlags entry) pteWritable = has ((entry &&& pteFlagsMask) ||| pteWritable) pteWritable := by
    rw [has,resolvedFlags,BitVec.and_assoc,show ~~~pteCow &&& pteWritable = pteWritable by decide]
    rfl
  rw [kept,has_or,show has pteWritable pteWritable = true by decide,Bool.or_true]

/-- Word `i` of the aligned frame at `t`. -/
def word (m : Mem) (t i : Nat) : Word := m (t / pageSize) i

theorem read_word (m : Mem) {t i : Nat} (aligned : t % pageSize = 0) (inside : i < 512) :
    read m (t + 8 * i) = word m t i := by
  simp only [pageSize] at aligned
  rw [Physical.read,word,show (t + 8 * i) / 4096 = t / pageSize by simp only [pageSize]; omega,
    show (t + 8 * i) % 4096 / 8 = i by omega]

theorem write_word (m : Mem) {t i : Nat} (aligned : t % pageSize = 0) (inside : i < 512) (value : Word) :
    write m (t + 8 * i) value = Function.update m (t / pageSize) (Function.update (m (t / pageSize)) i value) := by
  simp only [pageSize] at aligned
  rw [Physical.write,setWord,show (t + 8 * i) / 4096 = t / pageSize by simp only [pageSize]; omega,
    show (t + 8 * i) % 4096 / 8 = i by omega]

/-- The present user table of `va`. -/
def tableOf (m : Mem) (pd va : Nat) : Option Nat :=
  let directory := pdPtr m pd (pdptIndex va)
  let pde := word m directory (pdIndex va)
  if directory = 0 then none
  else if has pde ptePresent && has pde pteUser then some (ptPtr pde) else none

theorem pdPtr_aligned (m : Mem) (pd i : Nat) : pdPtr m pd i % pageSize = 0 := ptPtr_aligned _

theorem pdPtr_word (m : Mem) {pd i : Nat} (aligned : pd % pageSize = 0) (inside : i < 512) :
    pdPtr m pd i = ptPtr (word m pd i) := by
  rw [pdPtr,read_word m aligned inside]

theorem pdeSlot_eq (m : Mem) (pd va : Nat) :
    pdeSlot m pd va = if pdPtr m pd (pdptIndex va) = 0 then none
      else some (pdPtr m pd (pdptIndex va) + 8 * pdIndex va) := rfl

theorem pteSlot_table (m : Mem) (pd va : Nat) : pteSlot m pd va = (tableOf m pd va).map (· + 8 * ptIndex va) := by
  have inside : pdIndex va < 512 := Nat.mod_lt _ (by decide)
  unfold pteSlot pdeSlot tableOf
  by_cases null : pdPtr m pd (pdptIndex va) = 0
  · simp only [null,if_true]
    rfl
  · simp only [if_neg null,read_word m (pdPtr_aligned m pd _) inside]
    by_cases user : (has (word m (pdPtr m pd (pdptIndex va)) (pdIndex va)) ptePresent &&
        has (word m (pdPtr m pd (pdptIndex va)) (pdIndex va)) pteUser) = true
    · rw [if_pos user,if_pos user]
      rfl
    · rw [if_neg user,if_neg user]
      rfl

theorem tableOf_aligned {m : Mem} {pd va t : Nat} (table : tableOf m pd va = some t) : t % pageSize = 0 := by
  unfold tableOf at table
  dsimp only at table
  split_ifs at table
  cases table
  exact ptPtr_aligned _

theorem pagingGetUserPage_leaf (vm : Vm) {pd va : Nat} (inside : va < userLimit) (root : pd ≠ 0) :
    pagingGetUserPage vm pd va = (tableOf vm.mem pd va).bind fun t => leaf (word vm.mem t (ptIndex va)) := by
  have index : ptIndex va < 512 := Nat.mod_lt _ (by decide)
  rw [pagingGetUserPage,if_neg (by omega),pteSlot_table]
  cases table : tableOf vm.mem pd va with
  | none => rfl
  | some t =>
    simp only [Option.map_some,Option.bind_some,leaf,read_word vm.mem (tableOf_aligned table) index]

theorem pagingGetUserPage_bounds {vm : Vm} {pd va : Nat} {page : Nat × Word}
    (mapped : pagingGetUserPage vm pd va = some page) : va < userLimit ∧ pd ≠ 0 := by
  unfold pagingGetUserPage at mapped
  by_cases refused : pd = 0 ∨ va ≥ userLimit
  · rw [if_pos refused] at mapped
    cases mapped
  · omega

end LionOS.Paging

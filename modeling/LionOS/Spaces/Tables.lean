import LionOS.Spaces.Entries
import LionOS.Spaces.Frames

/-! Address spaces whose frames have one role each: a frame that holds a root, a
directory or a table belongs to one place of one space, and no user page lies in it. -/
namespace LionOS.Paging
open LionOS.Memory LionOS.Physical

inductive Role where
  | data
  | stack (owner : Nat)
  | root (pd : Nat)
  | directory (pd i : Nat)
  | table (pd i j : Nat)
  deriving DecidableEq

/-- The address space that a frame is a part of. -/
def Role.space : Role → Option Nat
  | .data | .stack _ => none
  | .root pd | .directory pd _ | .table pd _ _ => some pd

/-- The frame and the flags that the tables of `pd` give the page of `va`. -/
def mapping (m : Mem) (pd va : Nat) : Option (Nat × Word) :=
  (tableOf m pd va).bind fun t => leaf (word m t (ptIndex va))

theorem pagingGetUserPage_mapping (vm : Vm) {pd va : Nat} (inside : va < userLimit) (root : pd ≠ 0) :
    pagingGetUserPage vm pd va = mapping vm.mem pd va :=
  pagingGetUserPage_leaf vm inside root

structure Formed (role : Nat → Role) (m : Mem) (pd : Nat) : Prop where
  aligned : pd % pageSize = 0
  root : role (pd / pageSize) = .root pd
  directories : ∀ va < userLimit, pdPtr m pd (pdptIndex va) ≠ 0 →
    role (pdPtr m pd (pdptIndex va) / pageSize) = .directory pd (pdptIndex va)
  tables : ∀ va < userLimit, ∀ t, tableOf m pd va = some t →
    role (t / pageSize) = .table pd (pdptIndex va) (pdIndex va)
  pages : ∀ va < userLimit, ∀ page flags, mapping m pd va = some (page,flags) → role (page / pageSize) = .data

/-- What `Formed` says about the frames of the space itself, wherever its pages lie. -/
structure Shaped (role : Nat → Role) (m : Mem) (pd : Nat) : Prop where
  aligned : pd % pageSize = 0
  root : role (pd / pageSize) = .root pd
  directories : ∀ va < userLimit, pdPtr m pd (pdptIndex va) ≠ 0 →
    role (pdPtr m pd (pdptIndex va) / pageSize) = .directory pd (pdptIndex va)
  tables : ∀ va < userLimit, ∀ t, tableOf m pd va = some t →
    role (t / pageSize) = .table pd (pdptIndex va) (pdIndex va)

theorem Formed.shaped {role : Nat → Role} {m : Mem} {pd : Nat} (formed : Formed role m pd) : Shaped role m pd :=
  ⟨formed.aligned,formed.root,formed.directories,formed.tables⟩

theorem pdptIndex_small {va : Nat} (inside : va < userLimit) : pdptIndex va < 512 := by
  simp only [pdptIndex,userLimit] at *
  omega

theorem pdIndex_small (va : Nat) : pdIndex va < 512 := Nat.mod_lt _ (by decide)

theorem ptIndex_small (va : Nat) : ptIndex va < 512 := Nat.mod_lt _ (by decide)

section Congruence
variable {role : Nat → Role} {m m' : Mem} {pd : Nat} (shaped : Shaped role m pd)
include shaped

theorem pdPtr_congr (same : ∀ f, role f = .root pd → m' f = m f) {va : Nat} (inside : va < userLimit) :
    pdPtr m' pd (pdptIndex va) = pdPtr m pd (pdptIndex va) := by
  have small := pdptIndex_small inside
  rw [pdPtr_word m' shaped.aligned small,pdPtr_word m shaped.aligned small,word,word,same _ shaped.root]

theorem tableOf_congr (root : ∀ f, role f = .root pd → m' f = m f)
    (directory : ∀ f i, role f = .directory pd i → m' f = m f) {va : Nat} (inside : va < userLimit) :
    tableOf m' pd va = tableOf m pd va := by
  unfold tableOf
  rw [pdPtr_congr shaped root inside]
  by_cases null : pdPtr m pd (pdptIndex va) = 0
  · simp only [null,if_true]
  · have entry : word m' (pdPtr m pd (pdptIndex va)) (pdIndex va) = word m (pdPtr m pd (pdptIndex va)) (pdIndex va) := by
      rw [word,word,directory _ _ (shaped.directories va inside null)]
    simp only [entry]

theorem mapping_congr (same : ∀ f, (role f).space = some pd → m' f = m f) {va : Nat} (inside : va < userLimit) :
    mapping m' pd va = mapping m pd va := by
  have tables : tableOf m' pd va = tableOf m pd va := by
    apply tableOf_congr shaped _ _ inside
    · intro f root
      exact same f (by rw [root]; rfl)
    · intro f i directory
      exact same f (by rw [directory]; rfl)
  unfold mapping
  rw [tables]
  cases table : tableOf m pd va with
  | none => rfl
  | some t =>
    have own : (role (t / pageSize)).space = some pd := by rw [shaped.tables va inside t table]; rfl
    simp only [Option.bind_some,word,same _ own]

/-- Changes outside the frames of a space. -/
theorem Shaped.congr (same : ∀ f, (role f).space = some pd → m' f = m f) : Shaped role m' pd := by
  have root (f : Nat) (here : role f = .root pd) : m' f = m f := same f (by rw [here]; rfl)
  have directory (f i : Nat) (here : role f = .directory pd i) : m' f = m f := same f (by rw [here]; rfl)
  refine ⟨shaped.aligned,shaped.root,?_,?_⟩
  · intro va inside
    rw [pdPtr_congr shaped root inside]
    exact shaped.directories va inside
  · intro va inside t
    rw [tableOf_congr shaped root directory inside]
    exact shaped.tables va inside t

omit shaped in
theorem Formed.congr (formed : Formed role m pd) (same : ∀ f, (role f).space = some pd → m' f = m f) :
    Formed role m' pd := by
  obtain ⟨aligned,root,directories,tables⟩ := formed.shaped.congr same
  refine ⟨aligned,root,directories,tables,?_⟩
  intro va inside page flags
  rw [mapping_congr formed.shaped same inside]
  exact formed.pages va inside page flags

end Congruence

theorem same_page (va va' : Nat) : va' / pageSize = va / pageSize ↔
    pdptIndex va' = pdptIndex va ∧ pdIndex va' = pdIndex va ∧ ptIndex va' = ptIndex va := by
  simp only [pdptIndex,pdIndex,ptIndex,pageSize]
  omega

section Entry
variable {role : Nat → Role} {m : Mem} {pd va t : Nat} (shaped : Shaped role m pd) (inside : va < userLimit)
  (table : tableOf m pd va = some t)
include shaped inside table

/-- A new entry in the table of `va` leaves every other frame as it was. -/
theorem setEntry_frame (entry : Word) {f : Nat} (other : role f ≠ .table pd (pdptIndex va) (pdIndex va)) :
    write m (t + 8 * ptIndex va) entry f = m f := by
  rw [write_word m (tableOf_aligned table) (ptIndex_small va)]
  apply Function.update_of_ne
  intro same
  exact other (same ▸ shaped.tables va inside t table)

theorem setEntry_tables (entry : Word) {va' : Nat} (inside' : va' < userLimit) :
    tableOf (write m (t + 8 * ptIndex va) entry) pd va' = tableOf m pd va' := by
  apply tableOf_congr shaped _ _ inside'
  · intro f root
    exact setEntry_frame shaped inside table entry (by rw [root]; nofun)
  · intro f i directory
    exact setEntry_frame shaped inside table entry (by rw [directory]; nofun)

theorem setEntry_mapping (entry : Word) {va' : Nat} (inside' : va' < userLimit) :
    mapping (write m (t + 8 * ptIndex va) entry) pd va' =
      if va' / pageSize = va / pageSize then leaf entry else mapping m pd va' := by
  unfold mapping
  rw [setEntry_tables shaped inside table entry inside']
  by_cases region : pdptIndex va' = pdptIndex va ∧ pdIndex va' = pdIndex va
  · have shared : tableOf m pd va' = some t := by
      rw [← table]
      unfold tableOf
      rw [region.1,region.2]
    rw [shared,Option.bind_some,Option.bind_some,word,write_word m (tableOf_aligned table) (ptIndex_small va),
      Function.update_self]
    by_cases index : ptIndex va' = ptIndex va
    · rw [if_pos ((same_page va va').mpr ⟨region.1,region.2,index⟩),index,Function.update_self]
    · rw [if_neg fun page => index ((same_page va va').mp page).2.2,Function.update_of_ne index]
      rfl
  · rw [if_neg fun page => region ⟨((same_page va va').mp page).1,((same_page va va').mp page).2.1⟩]
    cases other : tableOf m pd va' with
    | none => rfl
    | some u =>
      rw [Option.bind_some,Option.bind_some,word,setEntry_frame shaped inside table entry]
      · rfl
      · rw [shaped.tables va' inside' u other]
        intro same
        injection same with _ first second
        exact region ⟨first,second⟩

theorem Shaped.setEntry (entry : Word) : Shaped role (write m (t + 8 * ptIndex va) entry) pd := by
  have root (f : Nat) (here : role f = .root pd) : write m (t + 8 * ptIndex va) entry f = m f :=
    setEntry_frame shaped inside table entry (by rw [here]; nofun)
  refine ⟨shaped.aligned,shaped.root,?_,?_⟩
  · intro va' inside'
    rw [pdPtr_congr shaped root inside']
    exact shaped.directories va' inside'
  · intro va' inside' u
    rw [setEntry_tables shaped inside table entry inside']
    exact shaped.tables va' inside' u

omit shaped in
theorem Formed.setEntry (formed : Formed role m pd) (entry : Word)
    (data : ∀ page flags, leaf entry = some (page,flags) → role (page / pageSize) = .data) :
    Formed role (write m (t + 8 * ptIndex va) entry) pd := by
  obtain ⟨aligned,root,directories,tables⟩ := formed.shaped.setEntry inside table entry
  refine ⟨aligned,root,directories,tables,?_⟩
  intro va' inside' page flags
  rw [setEntry_mapping formed.shaped inside table entry inside']
  by_cases page' : va' / pageSize = va / pageSize
  · rw [if_pos page']
    exact data page flags
  · rw [if_neg page']
    exact formed.pages va' inside' page flags

/-- The other address spaces do not notice a new entry. -/
theorem setEntry_aside {other : Nat} (distinct : other ≠ pd) (entry : Word) :
    ∀ f, (role f).space = some other → write m (t + 8 * ptIndex va) entry f = m f := by
  intro f own
  apply setEntry_frame shaped inside table entry
  intro here
  rw [here] at own
  exact distinct (Option.some.inj own).symm

end Entry

section Directory
variable {role : Nat → Role} {m : Mem} {pd va t : Nat} {pde : Word} (shaped : Shaped role m pd)
  (inside : va < userLimit) (directory : pdPtr m pd (pdptIndex va) ≠ 0)
include shaped inside directory

theorem setDirectory_frame (pde : Word) {f : Nat} (other : role f ≠ .directory pd (pdptIndex va)) :
    write m (pdPtr m pd (pdptIndex va) + 8 * pdIndex va) pde f = m f := by
  rw [write_word m (pdPtr_aligned m pd _) (pdIndex_small va)]
  apply Function.update_of_ne
  intro same
  exact other (same ▸ shaped.directories va inside directory)

theorem setDirectory_roots (pde : Word) {va' : Nat} (inside' : va' < userLimit) :
    pdPtr (write m (pdPtr m pd (pdptIndex va) + 8 * pdIndex va) pde) pd (pdptIndex va') =
      pdPtr m pd (pdptIndex va') := by
  apply pdPtr_congr shaped _ inside'
  intro f root
  exact setDirectory_frame shaped inside directory pde (by rw [root]; nofun)

theorem setDirectory_tables (user : (has pde ptePresent && has pde pteUser) = true) {va' : Nat}
    (inside' : va' < userLimit) :
    tableOf (write m (pdPtr m pd (pdptIndex va) + 8 * pdIndex va) pde) pd va' =
      if pdptIndex va' = pdptIndex va ∧ pdIndex va' = pdIndex va then some (ptPtr pde) else tableOf m pd va' := by
  have roots := setDirectory_roots shaped inside directory pde inside'
  by_cases region : pdptIndex va' = pdptIndex va
  · have entry : word (write m (pdPtr m pd (pdptIndex va) + 8 * pdIndex va) pde) (pdPtr m pd (pdptIndex va)) =
        Function.update (word m (pdPtr m pd (pdptIndex va))) (pdIndex va) pde := by
      funext i
      rw [word,write_word m (pdPtr_aligned m pd _) (pdIndex_small va),Function.update_self]
      rfl
    unfold tableOf
    rw [region] at roots ⊢
    rw [roots]
    simp only [if_neg directory,entry,true_and]
    by_cases index : pdIndex va' = pdIndex va
    · rw [if_pos index,index,Function.update_self,if_pos user]
    · rw [if_neg index,Function.update_of_ne index]
  · rw [if_neg fun both => region both.1]
    unfold tableOf
    rw [roots]
    by_cases null : pdPtr m pd (pdptIndex va') = 0
    · simp only [null,if_true]
    · have kept : word (write m (pdPtr m pd (pdptIndex va) + 8 * pdIndex va) pde) (pdPtr m pd (pdptIndex va')) =
          word m (pdPtr m pd (pdptIndex va')) := by
        funext i
        rw [word,setDirectory_frame shaped inside directory]
        · rfl
        · rw [shaped.directories va' inside' null]
          intro same
          injection same with _ index
          exact region index
      simp only [kept]

variable (user : (has pde ptePresent && has pde pteUser) = true)
  (fresh : role (ptPtr pde / pageSize) = .table pd (pdptIndex va) (pdIndex va))
  (zero : m (ptPtr pde / pageSize) = zeroPage)
include user fresh zero

theorem setDirectory_mapping {va' : Nat} (inside' : va' < userLimit) :
    mapping (write m (pdPtr m pd (pdptIndex va) + 8 * pdIndex va) pde) pd va' =
      if pdptIndex va' = pdptIndex va ∧ pdIndex va' = pdIndex va then none else mapping m pd va' := by
  unfold mapping
  rw [setDirectory_tables shaped inside directory user inside']
  by_cases region : pdptIndex va' = pdptIndex va ∧ pdIndex va' = pdIndex va
  · rw [if_pos region,if_pos region,Option.bind_some,word,setDirectory_frame shaped inside directory,zero]
    · exact (by decide : leaf 0 = none)
    · rw [fresh]
      simp
  · rw [if_neg region,if_neg region]
    cases table : tableOf m pd va' with
    | none => rfl
    | some t =>
      rw [Option.bind_some,Option.bind_some,word,setDirectory_frame shaped inside directory]
      · rfl
      · rw [shaped.tables va' inside' t table]
        simp

omit zero in
theorem Shaped.setDirectory : Shaped role (write m (pdPtr m pd (pdptIndex va) + 8 * pdIndex va) pde) pd := by
  refine ⟨shaped.aligned,shaped.root,?_,?_⟩
  · intro va' inside'
    rw [setDirectory_roots shaped inside directory pde inside']
    exact shaped.directories va' inside'
  · intro va' inside' t
    rw [setDirectory_tables shaped inside directory user inside']
    by_cases region : pdptIndex va' = pdptIndex va ∧ pdIndex va' = pdIndex va
    · rw [if_pos region,region.1,region.2]
      rintro ⟨⟩
      exact fresh
    · rw [if_neg region]
      exact shaped.tables va' inside' t

end Directory

/-- A data frame may be given another role. -/
theorem Shaped.retype {role : Nat → Role} {m : Mem} {pd frame : Nat} (shaped : Shaped role m pd) (r : Role)
    (data : role frame = .data) : Shaped (Function.update role frame r) m pd := by
  have kept {f : Nat} (structural : role f ≠ .data) : Function.update role frame r f = role f := by
    apply Function.update_of_ne
    rintro rfl
    exact structural data
  refine ⟨shaped.aligned,?_,?_,?_⟩
  · rw [kept (by rw [shaped.root]; nofun)]
    exact shaped.root
  · intro va inside directory
    have own := shaped.directories va inside directory
    rw [kept (by rw [own]; nofun)]
    exact own
  · intro va inside t table
    have own := shaped.tables va inside t table
    rw [kept (by rw [own]; nofun)]
    exact own

/-- A data frame that no page of the space lies in may be given another role. -/
theorem Formed.retype {role : Nat → Role} {m : Mem} {pd frame : Nat} (formed : Formed role m pd) (r : Role)
    (data : role frame = .data)
    (unmapped : ∀ va < userLimit, ∀ page flags, mapping m pd va = some (page,flags) → page / pageSize ≠ frame) :
    Formed (Function.update role frame r) m pd := by
  obtain ⟨aligned,root,directories,tables⟩ := formed.shaped.retype r data
  refine ⟨aligned,root,directories,tables,?_⟩
  intro va inside page flags mapped
  rw [Function.update_of_ne (unmapped va inside page flags mapped)]
  exact formed.pages va inside page flags mapped

theorem mapping_flags {m : Mem} {pd va page : Nat} {flags : Word} (mapped : mapping m pd va = some (page,flags)) :
    has flags ptePresent = true ∧ has flags pteUser = true := by
  obtain ⟨t,_,here⟩ := Option.bind_eq_some_iff.mp mapped
  exact leaf_flags here

theorem mapping_aligned {m : Mem} {pd va page : Nat} {flags : Word} (mapped : mapping m pd va = some (page,flags)) :
    page % pageSize = 0 := by
  obtain ⟨t,_,here⟩ := Option.bind_eq_some_iff.mp mapped
  unfold leaf at here
  split_ifs at here
  cases here
  exact ptPtr_aligned _

theorem mapping_page (m : Mem) (pd : Nat) {va va' : Nat} (same : va' / pageSize = va / pageSize) :
    mapping m pd va' = mapping m pd va := by
  obtain ⟨first,second,third⟩ := (same_page va va').mp same
  unfold mapping tableOf
  rw [first,second,third]

theorem pagingGetUserPage_outside (vm : Vm) {pd va : Nat} (outside : pd = 0 ∨ va ≥ userLimit) :
    pagingGetUserPage vm pd va = none := if_pos outside

theorem pagingGetUserPage_page (vm : Vm) (pd : Nat) {va va' : Nat} (same : va' / pageSize = va / pageSize) :
    pagingGetUserPage vm pd va' = pagingGetUserPage vm pd va := by
  by_cases outside : pd = 0 ∨ va ≥ userLimit
  · have outside' : pd = 0 ∨ va' ≥ userLimit := by
      simp only [userLimit,pageSize] at *
      omega
    rw [pagingGetUserPage_outside vm outside,pagingGetUserPage_outside vm outside']
  · have inside : va < userLimit := by omega
    have inside' : va' < userLimit := by
      simp only [userLimit,pageSize] at *
      omega
    rw [pagingGetUserPage_mapping vm inside' (by omega),pagingGetUserPage_mapping vm inside (by omega),
      mapping_page vm.mem pd same]

theorem pagingGetUserPage_congr {role : Nat → Role} {vm vm' : Vm} {pd : Nat} (shaped : Shaped role vm.mem pd)
    (same : ∀ f, (role f).space = some pd → vm'.mem f = vm.mem f) (va : Nat) :
    pagingGetUserPage vm' pd va = pagingGetUserPage vm pd va := by
  by_cases outside : pd = 0 ∨ va ≥ userLimit
  · rw [pagingGetUserPage_outside vm' outside,pagingGetUserPage_outside vm outside]
  · rw [pagingGetUserPage_mapping vm' (by omega) (by omega),pagingGetUserPage_mapping vm (by omega) (by omega),
      mapping_congr shaped same (by omega)]

end LionOS.Paging

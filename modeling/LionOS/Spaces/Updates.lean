import LionOS.Spaces.Tables

/-! What mapping a page, changing its flags and resolving a copy-on-write page do to
the mapping of an address space. -/
namespace LionOS.Paging
open LionOS.Memory LionOS.Physical

/-- No frame with a role is free. -/
def Kept (role : Nat → Role) (a : Allocator) : Prop := ∀ f, role f ≠ .data → isFree a f = false

theorem Kept.data {role : Nat → Role} {a : Allocator} (kept : Kept role a) {f : Nat} (free : isFree a f = true) :
    role f = .data := by
  by_contra structural
  rw [kept f structural] at free
  cases free

theorem data_outside {role : Nat → Role} {first : Nat} (data : role first = .data) (m : Mem) (content : Page)
    {pd : Nat} : ∀ f, (role f).space = some pd → Function.update m first content f = m f := by
  intro f own
  apply Function.update_of_ne
  rintro rfl
  rw [data] at own
  cases own

/-- A formed address space whose pages are allocated. -/
structure Space (role : Nat → Role) (vm : Vm) (pd : Nat) : Prop where
  formed : Formed role vm.mem pd
  held : ∀ va < userLimit, ∀ page flags, mapping vm.mem pd va = some (page,flags) →
    isFree vm.pages (page / pageSize) = false

/-- The page of `va` in `pd` now has the mapping `now`, and all other pages of all spaces
have the one they had. Frames that were in use keep their roles, and those that hold
data their contents. -/
structure Remaps (role role' : Nat → Role) (vm vm' : Vm) (pd va : Nat) (now : Option (Nat × Word)) : Prop where
  space : Space role' vm' pd
  kept : Kept role' vm'.pages
  roles : ∀ f, isFree vm.pages f = false → role' f = role f
  contents : ∀ f, isFree vm.pages f = false → role f = .data → vm'.mem f = vm.mem f
  upper : ∀ f p, role f = .root p ∨ role f = .directory p 3 → vm'.mem f = vm.mem f
  others : ∀ other, other ≠ pd → Space role vm other →
    Space role' vm' other ∧ ∀ va' < userLimit, mapping vm'.mem other va' = mapping vm.mem other va'
  mapping : ∀ va' < userLimit, mapping vm'.mem pd va' =
    if va' / pageSize = va / pageSize then now else mapping vm.mem pd va'

theorem entryOf_leaf {address : Nat} (flags : Word) (aligned : address % pageSize = 0) (small : address < 2^32) :
    leaf (entryOf address flags) = some (address,(flags &&& pteFlagsMask) ||| ptePresent ||| pteUser) := by
  have entry := leaf_userEntry (BitVec.ofNat 64 address) (bare_masked flags)
  rwa [ptPtr_ofNat aligned small] at entry

def tableEntry (table : Nat) : Word := (BitVec.ofNat 64 table &&& pteAddrMask) |||
  ptePresent ||| pteWritable ||| pteUser

theorem tableEntry_user (table : Nat) :
    (has (tableEntry table) ptePresent && has (tableEntry table) pteUser) = true := by
  simp only [tableEntry,has_or,show has ptePresent ptePresent = true by decide,
    show has pteUser pteUser = true by decide,Bool.or_true,Bool.true_or,Bool.and_self]

theorem tableEntry_address {table : Nat} (aligned : table % pageSize = 0) (small : table < 2^32) :
    ptPtr (tableEntry table) = table := by
  have bare : Bare (ptePresent ||| pteWritable) := by rw [Bare]; decide
  have same : tableEntry table = userEntry (BitVec.ofNat 64 table) (ptePresent ||| pteWritable) := by
    have once : ptePresent ||| pteWritable ||| pteUser = (ptePresent ||| pteWritable) ||| ptePresent ||| pteUser := by
      decide
    rw [tableEntry,userEntry,BitVec.or_assoc,BitVec.or_assoc,← BitVec.or_assoc ptePresent,once]
    simp only [BitVec.or_assoc]
  rw [same,ptPtr_userEntry _ bare,ptPtr_ofNat aligned small]

section Space
variable {role : Nat → Role} {vm : Vm} {pd : Nat} (space : Space role vm pd)
include space

theorem Space.pages {pages : Allocator} (taken : ∀ f, isFree vm.pages f = false → isFree pages f = false) :
    Space role {vm with pages} pd :=
  ⟨space.formed,fun va inside page flags mapped => taken _ (space.held va inside page flags mapped)⟩

theorem Space.outside {m : Mem} (same : ∀ f, (role f).space = some pd → m f = vm.mem f) :
    Space role {vm with mem := m} pd := by
  refine ⟨space.formed.congr same,?_⟩
  intro va inside page flags
  rw [mapping_congr space.formed.shaped same inside]
  exact space.held va inside page flags

theorem setEntry_remaps (kept : Kept role vm.pages) {va t : Nat} (inside : va < userLimit)
    (table : tableOf vm.mem pd va = some t) {entry : Word}
    (data : ∀ page flags, leaf entry = some (page,flags) →
      role (page / pageSize) = .data ∧ isFree vm.pages (page / pageSize) = false) :
    Remaps role role vm {vm with mem := write vm.mem (t + 8 * ptIndex va) entry} pd va (leaf entry) := by
  have entries {va' : Nat} (inside' : va' < userLimit) := setEntry_mapping space.formed.shaped inside table entry inside'
  refine ⟨⟨?_,?_⟩,kept,fun _ _ => rfl,?_,?_,?_,fun va' inside' => entries inside'⟩
  · exact space.formed.setEntry inside table entry fun page flags here => (data page flags here).1
  · intro va' inside' page flags
    dsimp only
    rw [entries inside']
    by_cases page' : va' / pageSize = va / pageSize
    · rw [if_pos page']
      intro here
      exact (data page flags here).2
    · rw [if_neg page']
      exact space.held va' inside' page flags
  · intro f _ own
    exact setEntry_frame space.formed.shaped inside table entry (by rw [own]; nofun)
  · rintro f p (own | own)
    · exact setEntry_frame space.formed.shaped inside table entry (by rw [own]; nofun)
    · exact setEntry_frame space.formed.shaped inside table entry (by rw [own]; nofun)
  · intro other apart separate
    have same := setEntry_aside space.formed.shaped inside table apart entry
    exact ⟨separate.outside same,fun va' inside' => mapping_congr separate.formed.shaped same inside'⟩

end Space

/-- The memory once a new table in frame `first` holds the entry of `va`. -/
def withTable (m : Mem) (pd va first : Nat) (entry : Word) : Mem :=
  write (write (Function.update m first zeroPage) (pdPtr m pd (pdptIndex va) + 8 * pdIndex va)
    (tableEntry (first * pageSize))) (first * pageSize + 8 * ptIndex va) entry

section Map
variable {vm vm' : Vm} {pd va pa : Nat} {flags : Word}

theorem pagingMapUserPageIn_cases (mapped : pagingMapUserPageIn vm pd va pa flags = some vm') :
    pd ≠ 0 ∧ va < userLimit ∧ va % pageSize = 0 ∧ pa % pageSize = 0 ∧ pdPtr vm.mem pd (pdptIndex va) ≠ 0 ∧
      ((∃ t, tableOf vm.mem pd va = some t ∧
          vm' = {vm with mem := write vm.mem (t + 8 * ptIndex va) (entryOf pa flags)}) ∨
        (tableOf vm.mem pd va = none ∧ ∃ pages t, pageAlloc vm.pages = some (pages,t) ∧
          vm' = {vm with pages,mem := withTable vm.mem pd va (t / pageSize) (entryOf pa flags)})) := by
  unfold pagingMapUserPageIn at mapped
  by_cases refused : pd = 0 ∨ va ≥ userLimit ∨ va % pageSize ≠ 0 ∨ pa % pageSize ≠ 0
  · rw [if_pos refused] at mapped
    cases mapped
  · rw [if_neg refused,pdeSlot_eq] at mapped
    by_cases null : pdPtr vm.mem pd (pdptIndex va) = 0
    · simp [null] at mapped
    · simp only [if_neg null,read_word vm.mem (pdPtr_aligned vm.mem pd _) (pdIndex_small va)] at mapped
      refine ⟨by omega,by omega,by omega,by omega,null,?_⟩
      unfold tableOf
      simp only [if_neg null]
      by_cases user : (has (word vm.mem (pdPtr vm.mem pd (pdptIndex va)) (pdIndex va)) ptePresent &&
          has (word vm.mem (pdPtr vm.mem pd (pdptIndex va)) (pdIndex va)) pteUser) = true
      · rw [if_pos user] at mapped ⊢
        exact .inl ⟨_,rfl,(Option.some.inj mapped).symm⟩
      · rw [if_neg user] at mapped ⊢
        cases allocated : pageAlloc vm.pages with
        | none => simp [allocated] at mapped
        | some fresh =>
          obtain ⟨pages,t⟩ := fresh
          simp only [allocated] at mapped
          obtain ⟨first,rfl,_⟩ := pageAlloc_takes allocated
          refine .inr ⟨rfl,pages,_,rfl,?_⟩
          rw [withTable,show first * pageSize / pageSize = first from Nat.mul_div_cancel _ (by decide)] at *
          exact (Option.some.inj mapped).symm

/-- A region that has its table takes every page. -/
theorem pagingMapUserPageIn_table {t : Nat} (root : pd ≠ 0) (inside : va < userLimit) (place : va % pageSize = 0)
    (frame : pa % pageSize = 0) (table : tableOf vm.mem pd va = some t) : pagingMapUserPageIn vm pd va pa flags ≠ none := by
  unfold tableOf at table
  unfold pagingMapUserPageIn
  rw [if_neg (by omega),pdeSlot_eq]
  by_cases null : pdPtr vm.mem pd (pdptIndex va) = 0
  · simp [null] at table
  · simp only [if_neg null] at table ⊢
    rw [read_word vm.mem (pdPtr_aligned vm.mem pd _) (pdIndex_small va)]
    split_ifs at table with user
    rw [if_pos user]
    nofun

/-- Mapping a page fails only where its region needs a table and there is no frame for one. -/
theorem pagingMapUserPageIn_fails (root : pd ≠ 0) (inside : va < userLimit) (place : va % pageSize = 0)
    (frame : pa % pageSize = 0) (failed : pagingMapUserPageIn vm pd va pa flags = none)
    (directory : pdPtr vm.mem pd (pdptIndex va) ≠ 0) : tableOf vm.mem pd va = none ∧ pageAlloc vm.pages = none := by
  have missing : tableOf vm.mem pd va = none := by
    by_contra present
    obtain ⟨t,table⟩ := Option.ne_none_iff_exists'.mp present
    exact pagingMapUserPageIn_table root inside place frame table failed
  refine ⟨missing,?_⟩
  unfold tableOf at missing
  unfold pagingMapUserPageIn at failed
  rw [if_neg (by omega),pdeSlot_eq] at failed
  simp only [if_neg directory] at missing failed
  rw [read_word vm.mem (pdPtr_aligned vm.mem pd _) (pdIndex_small va)] at failed
  split_ifs at missing with user
  rw [if_neg user] at failed
  cases allocated : pageAlloc vm.pages with
  | none => rfl
  | some result => simp [allocated] at failed

theorem pagingMapUserPageIn_taken {f : Nat} (mapped : pagingMapUserPageIn vm pd va pa flags = some vm')
    (used : isFree vm.pages f = false) : isFree vm'.pages f = false := by
  obtain ⟨_,_,_,_,_,⟨t,_,rfl⟩ | ⟨_,pages,t,allocated,rfl⟩⟩ := pagingMapUserPageIn_cases mapped
  · exact used
  · obtain ⟨_,_,takes⟩ := pageAlloc_takes allocated
    exact takes.taken used

/-- The new table is the one of its region, and beside it only the directory has changed. -/
structure NewTable (role : Nat → Role) (m : Mem) (pd va first : Nat) (entry : Word) : Prop where
  shaped : Shaped (Function.update role first (.table pd (pdptIndex va) (pdIndex va))) (withTable m pd va first entry) pd
  mapping : ∀ va' < userLimit, mapping (withTable m pd va first entry) pd va' =
    if va' / pageSize = va / pageSize then leaf entry else mapping m pd va'
  directory : withTable m pd va first entry (pdPtr m pd (pdptIndex va) / pageSize) =
    Function.update (m (pdPtr m pd (pdptIndex va) / pageSize)) (pdIndex va) (tableEntry (first * pageSize))
  frames : ∀ f, f ≠ first → role f ≠ .directory pd (pdptIndex va) → withTable m pd va first entry f = m f

theorem table_address {first : Nat} (high : first < maxPages) :
    first * pageSize % pageSize = 0 ∧ first * pageSize < 2^32 ∧ first * pageSize / pageSize = first := by
  refine ⟨Nat.mul_mod_left _ _,?_,Nat.mul_div_cancel _ (by decide)⟩
  simp only [maxPages,pageSize] at *
  omega

theorem withTable_new {role : Nat → Role} {m : Mem} {first : Nat} (shaped : Shaped role m pd) (inside : va < userLimit)
    (directory : pdPtr m pd (pdptIndex va) ≠ 0) (missing : tableOf m pd va = none) (data : role first = .data)
    (high : first < maxPages) (entry : Word) : NewTable role m pd va first entry := by
  obtain ⟨aligned,small,frame⟩ := table_address high
  have outside : ∀ f, (role f).space = some pd → Function.update m first zeroPage f = m f :=
    data_outside data m zeroPage
  have same {va' : Nat} (inside' : va' < userLimit) := mapping_congr shaped outside inside'
  have roots := pdPtr_congr shaped (fun f root => outside f (by rw [root]; rfl)) inside
  have retyped := (shaped.congr outside).retype (.table pd (pdptIndex va) (pdIndex va)) data
  have address := tableEntry_address aligned small
  have fresh : Function.update role first (.table pd (pdptIndex va) (pdIndex va))
      (ptPtr (tableEntry (first * pageSize)) / pageSize) = .table pd (pdptIndex va) (pdIndex va) := by
    rw [address,frame,Function.update_self]
  have zero : Function.update m first zeroPage (ptPtr (tableEntry (first * pageSize)) / pageSize) = zeroPage := by
    rw [address,frame,Function.update_self]
  have user := tableEntry_user (first * pageSize)
  have directory' : pdPtr (Function.update m first zeroPage) pd (pdptIndex va) ≠ 0 := by rwa [roots]
  have linked := retyped.setDirectory inside directory' user fresh
  have table := setDirectory_tables retyped inside directory' user inside
  have mapped {va' : Nat} (inside' : va' < userLimit) :=
    setDirectory_mapping retyped inside directory' user fresh zero inside'
  rw [if_pos ⟨rfl,rfl⟩,address] at table
  rw [roots] at linked table mapped
  have apart : pdPtr m pd (pdptIndex va) / pageSize ≠ first := by
    rintro same
    have own := shaped.directories va inside directory
    rw [same,data] at own
    cases own
  refine ⟨linked.setEntry inside table entry,?_,?_,?_⟩
  · intro va' inside'
    rw [withTable,setEntry_mapping linked inside table entry inside',mapped inside',same inside']
    by_cases region : pdptIndex va' = pdptIndex va ∧ pdIndex va' = pdIndex va
    · have absent : tableOf m pd va' = none := by
        rw [← missing]
        unfold tableOf
        rw [region.1,region.2]
      rw [if_pos region,Paging.mapping,absent]
      rfl
    · rw [if_neg region]
  · rw [withTable,write_word _ aligned (ptIndex_small va),frame,Function.update_of_ne apart,
      write_word _ (pdPtr_aligned m pd _) (pdIndex_small va),Function.update_self,Function.update_of_ne apart]
  · intro f other elsewhere
    have directoryFrame : f ≠ pdPtr m pd (pdptIndex va) / pageSize := by
      rintro rfl
      exact elsewhere (shaped.directories va inside directory)
    rw [withTable,write_word _ aligned (ptIndex_small va),frame,Function.update_of_ne other,
      write_word _ (pdPtr_aligned m pd _) (pdIndex_small va),Function.update_of_ne directoryFrame,
      Function.update_of_ne other]

/-- The new table of a region takes a frame that was free. -/
theorem newTable_remaps {role : Nat → Role} {pages : Allocator} {t : Nat} (space : Space role vm pd)
    (kept : Kept role vm.pages) (inside : va < userLimit) (directory : pdPtr vm.mem pd (pdptIndex va) ≠ 0)
    (missing : tableOf vm.mem pd va = none) (allocated : pageAlloc vm.pages = some (pages,t)) {entry : Word}
    (data : ∀ page flags, leaf entry = some (page,flags) →
      role (page / pageSize) = .data ∧ isFree vm.pages (page / pageSize) = false) :
    Remaps role (Function.update role (t / pageSize) (.table pd (pdptIndex va) (pdIndex va))) vm
      {vm with pages,mem := withTable vm.mem pd va (t / pageSize) entry} pd va (leaf entry) := by
  obtain ⟨first,rfl,takes⟩ := pageAlloc_takes allocated
  have high : first < maxPages := takes.high
  have free : isFree vm.pages first = true := takes.free first (Nat.le_refl _) (by omega)
  have role_data := kept.data free
  rw [(table_address high).2.2]
  obtain ⟨⟨aligned,root,directories,tables⟩,final,_,elsewhere⟩ :=
    withTable_new space.formed.shaped inside directory missing role_data high entry
  have in_use {f : Nat} (used : isFree vm.pages f = false) : f ≠ first := by
    rintro rfl
    rw [free] at used
    cases used
  refine ⟨⟨⟨aligned,root,directories,tables,?_⟩,?_⟩,?_,?_,?_,?_,?_,final⟩
  · intro va' inside' page flags
    dsimp only
    rw [final va' inside']
    by_cases page' : va' / pageSize = va / pageSize
    · rw [if_pos page']
      intro here
      obtain ⟨held,used⟩ := data page flags here
      rw [Function.update_of_ne (in_use used)]
      exact held
    · rw [if_neg page']
      intro here
      rw [Function.update_of_ne (in_use (space.held va' inside' page flags here))]
      exact space.formed.pages va' inside' page flags here
  · intro va' inside' page flags
    dsimp only
    rw [final va' inside']
    by_cases page' : va' / pageSize = va / pageSize
    · rw [if_pos page']
      intro here
      exact takes.taken (data page flags here).2
    · rw [if_neg page']
      intro here
      exact takes.taken (space.held va' inside' page flags here)
  · intro f structural
    by_cases own : f = first
    · rw [takes.single,own]
      simp
    · rw [Function.update_of_ne own] at structural
      exact takes.taken (kept f structural)
  · intro f used
    exact Function.update_of_ne (in_use used) _ _
  · intro f used own
    exact elsewhere f (in_use used) (by rw [own]; simp)
  · intro f p own
    have low : pdptIndex va ≠ 3 := by
      simp only [pdptIndex,userLimit] at *
      omega
    apply elsewhere
    · rintro rfl
      rcases own with own | own <;> rw [role_data] at own <;> cases own
    · rcases own with own | own
      · rw [own]
        simp
      · rw [own]
        intro same
        injection same with _ index
        exact low index.symm
  · intro other apart separate
    have same (f : Nat) (own : (role f).space = some other) : withTable vm.mem pd va first entry f = vm.mem f := by
      apply elsewhere
      · rintro rfl
        rw [role_data] at own
        cases own
      · intro here
        rw [here] at own
        exact apart (Option.some.inj own).symm
    refine ⟨⟨?_,?_⟩,fun va' inside' => mapping_congr separate.formed.shaped same inside'⟩
    · apply (separate.formed.congr same).retype _ role_data
      intro va' inside' page flags mapped
      rw [mapping_congr separate.formed.shaped same inside'] at mapped
      exact in_use (separate.held va' inside' page flags mapped)
    · intro va' inside' page flags mapped
      rw [mapping_congr separate.formed.shaped same inside'] at mapped
      exact takes.taken (separate.held va' inside' page flags mapped)

theorem pagingMapUserPageIn_remaps (mapped : pagingMapUserPageIn vm pd va pa flags = some vm') {role : Nat → Role}
    (space : Space role vm pd) (kept : Kept role vm.pages) (data : role (pa / pageSize) = .data)
    (used : isFree vm.pages (pa / pageSize) = false) (small : pa < 2^32) :
    ∃ role', Remaps role role' vm vm' pd va (some (pa,(flags &&& pteFlagsMask) ||| ptePresent ||| pteUser)) := by
  obtain ⟨_,inside,_,aligned,directory,⟨t,table,rfl⟩ | ⟨missing,pages,t,allocated,rfl⟩⟩ := pagingMapUserPageIn_cases mapped
  all_goals
    rw [← entryOf_leaf flags aligned small]
    have leads (page : Nat) (flags' : Word) (here : leaf (entryOf pa flags) = some (page,flags')) :
        role (page / pageSize) = .data ∧ isFree vm.pages (page / pageSize) = false := by
      rw [entryOf_leaf flags aligned small] at here
      cases here
      exact ⟨data,used⟩
  · exact ⟨role,setEntry_remaps space kept inside table leads⟩
  · exact ⟨_,newTable_remaps space kept inside directory missing allocated leads⟩

end Map

section Resolve
variable {vm vm' : Vm} {pd va : Nat}

/-- The entry of `va` where `va` has a table. -/
def entryAt (m : Mem) (t va : Nat) : Word := word m t (ptIndex va)

/-- What resolving does to a copy-on-write page: the last holder of its frame writes to
it, and any other one gets a copy. -/
theorem pagingResolveCow_cases (resolved : pagingResolveCow vm pd va = some vm') :
    pd ≠ 0 ∧ va < userLimit ∧ va % pageSize = 0 ∧ ∃ t, tableOf vm.mem pd va = some t ∧
      leaf (entryAt vm.mem t va) = some (ptPtr (entryAt vm.mem t va),entryAt vm.mem t va &&& pteFlagsMask) ∧
      has (entryAt vm.mem t va) pteCow = true ∧
      ((pageRefcount vm.pages (ptPtr (entryAt vm.mem t va)) = 1 ∧
          vm' = {vm with
            mem := write vm.mem (t + 8 * ptIndex va)
              (userEntry (entryAt vm.mem t va) (resolvedFlags (entryAt vm.mem t va)))}) ∨
        (1 < pageRefcount vm.pages (ptPtr (entryAt vm.mem t va)) ∧
          ∃ pages page, pageAlloc vm.pages = some (pages,page) ∧
          vm' = {vm with
            pages := pageFree pages (ptPtr (entryAt vm.mem t va))
            mem := write (Function.update vm.mem (page / pageSize) (vm.mem (ptPtr (entryAt vm.mem t va) / pageSize)))
              (t + 8 * ptIndex va) (userEntry (BitVec.ofNat 64 page) (resolvedFlags (entryAt vm.mem t va)))})) := by
  unfold pagingResolveCow at resolved
  by_cases refused : pd = 0 ∨ va ≥ userLimit ∨ va % pageSize ≠ 0
  · rw [if_pos refused] at resolved
    cases resolved
  · rw [if_neg refused,pteSlot_table] at resolved
    cases table : tableOf vm.mem pd va with
    | none => simp [table] at resolved
    | some t =>
      have reads : Physical.read vm.mem (t + 8 * ptIndex va) = entryAt vm.mem t va :=
        read_word vm.mem (tableOf_aligned table) (ptIndex_small va)
      simp only [table,Option.map_some,reads] at resolved
      by_cases marked : (has (entryAt vm.mem t va) ptePresent && has (entryAt vm.mem t va) pteUser &&
          has (entryAt vm.mem t va) pteCow) = true
      · rw [if_pos marked] at resolved
        rw [Bool.and_eq_true] at marked
        refine ⟨by omega,by omega,by omega,t,rfl,if_pos marked.1,marked.2,?_⟩
        cases count : pageRefcount vm.pages (ptPtr (entryAt vm.mem t va)) with
        | zero => simp [count] at resolved
        | succ n =>
          cases n with
          | zero =>
            simp only [count] at resolved
            exact .inl ⟨rfl,(Option.some.inj resolved).symm⟩
          | succ n =>
            simp only [count] at resolved
            cases allocated : pageAlloc vm.pages with
            | none => simp [allocated] at resolved
            | some fresh =>
              obtain ⟨pages,page⟩ := fresh
              simp only [allocated] at resolved
              exact .inr ⟨by omega,pages,page,rfl,(Option.some.inj resolved).symm⟩
      · simp [marked] at resolved

variable {role : Nat → Role} (space : Space role vm pd) (kept : Kept role vm.pages)
include space kept

theorem pagingResolveCow_remaps (resolved : pagingResolveCow vm pd va = some vm') :
    ∃ page flags, has flags pteWritable = true ∧ Remaps role role vm vm' pd va (some (page,flags)) := by
  obtain ⟨root,inside,_,t,table,present,_,⟨_,rfl⟩ | ⟨shared,pages,page,allocated,rfl⟩⟩ :=
    pagingResolveCow_cases resolved
  all_goals
    have here : mapping vm.mem pd va = _ := (congrArg (Option.bind · _) table).trans present
    generalize entryAt vm.mem t va = old at *
    have writable : has (resolvedFlags old ||| ptePresent ||| pteUser) pteWritable = true := by
      rw [has_or,has_or,resolvedFlags_writable]
      rfl
  · refine ⟨ptPtr old,_,writable,?_⟩
    rw [← leaf_userEntry old (resolvedFlags_bare old)]
    apply setEntry_remaps space kept inside table
    rw [leaf_userEntry old (resolvedFlags_bare old)]
    rintro page flags ⟨⟩
    exact ⟨space.formed.pages va inside _ _ here,space.held va inside _ _ here⟩
  · obtain ⟨first,rfl,takes⟩ := pageAlloc_takes allocated
    obtain ⟨_,used,counted⟩ := pageRefcount_positive (by omega : 0 < pageRefcount vm.pages (ptPtr old))
    have frame : first * pageSize / pageSize = first := Nat.mul_div_cancel _ (by decide)
    have small : first * pageSize < 2^32 := by
      have high := takes.high
      simp only [maxPages,pageSize] at *
      omega
    have free : isFree vm.pages first = true := takes.free first (Nat.le_refl _) (by omega)
    have apart : ptPtr old / pageSize ≠ first := by
      rintro same
      rw [same,free] at used
      cases used
    have outside : ∀ f, (role f).space = some pd →
        Function.update vm.mem first (vm.mem (ptPtr old / pageSize)) f = vm.mem f :=
      data_outside (kept.data free) vm.mem _
    have references : 1 < pages.pageRefs (ptPtr old / pageSize) := by
      rw [takes.refs,if_neg (by omega)]
      omega
    have freed := isFree_pageFree references
    have entry := leaf_userEntry (BitVec.ofNat 64 (first * pageSize)) (resolvedFlags_bare old)
    rw [ptPtr_ofNat (Nat.mul_mod_left _ _) small] at entry
    have copied : Space role {vm with
        pages
        mem := Function.update vm.mem first (vm.mem (ptPtr old / pageSize))} pd :=
      (space.outside outside).pages fun f held => takes.taken held
    have tables : tableOf (Function.update vm.mem first (vm.mem (ptPtr old / pageSize))) pd va = some t := by
      rw [← table]
      apply tableOf_congr space.formed.shaped _ _ inside
      · intro f root
        exact outside f (by rw [root]; rfl)
      · intro f i directory
        exact outside f (by rw [directory]; rfl)
    have leads : ∀ page flags,
        leaf (userEntry (BitVec.ofNat 64 (first * pageSize)) (resolvedFlags old)) = some (page,flags) →
          role (page / pageSize) = .data ∧ isFree pages (page / pageSize) = false := by
      rw [entry]
      rintro page flags ⟨⟩
      rw [frame,takes.single]
      exact ⟨kept.data free,by simp⟩
    have remaps := setEntry_remaps copied (fun f structural => takes.taken (kept f structural)) inside tables leads
    rw [entry] at remaps
    refine ⟨first * pageSize,_,writable,?_⟩
    rw [frame]
    refine ⟨remaps.space.pages fun f held => (freed f).trans held,?_,fun _ _ => rfl,?_,?_,?_,?_⟩
    · intro f structural
      exact (freed f).trans (remaps.kept f structural)
    · intro f held own
      refine (remaps.contents f (takes.taken held) own).trans (Function.update_of_ne ?_ _ _)
      rintro rfl
      rw [free] at held
      cases held
    · intro f p own
      refine (remaps.upper f p own).trans (Function.update_of_ne ?_ _ _)
      rintro rfl
      rcases own with own | own <;> rw [kept.data free] at own <;> cases own
    · intro other distinct separate
      have same : ∀ f, (role f).space = some other →
          Function.update vm.mem first (vm.mem (ptPtr old / pageSize)) f = vm.mem f :=
        data_outside (kept.data free) vm.mem _
      obtain ⟨space',mappings⟩ := remaps.others other distinct
        ((separate.outside same).pages fun f held => takes.taken held)
      refine ⟨space'.pages fun f held => (freed f).trans held,?_⟩
      intro va' inside'
      exact (mappings va' inside').trans (mapping_congr separate.formed.shaped same inside')
    · intro va' inside'
      rw [remaps.mapping va' inside']
      dsimp only
      rw [mapping_congr space.formed.shaped outside inside']

end Resolve

section Create
variable {role : Nat → Role} {vm : Vm} {first : Nat}

/-- The roles once the five frames from `first` on hold an address space. -/
def created (role : Nat → Role) (first : Nat) : Nat → Role := fun f =>
  if f = first then .root (first * pageSize)
  else if first < f ∧ f ≤ first + 4 then .directory (first * pageSize) (f - first - 1)
  else role f

theorem newDirectory_other {f : Nat} (outside : ¬ (first ≤ f ∧ f < first + 5)) :
    newDirectory vm (first * pageSize) f = vm.mem f := by
  have frame : first * pageSize / pageSize = first := Nat.mul_div_cancel _ (by decide)
  funext i
  simp only [newDirectory,frame]
  rw [if_neg (by omega),if_neg (by omega)]

theorem created_other {f : Nat} (outside : ¬ (first ≤ f ∧ f < first + 5)) : created role first f = role f := by
  unfold created
  rw [if_neg (by omega),if_neg (by omega)]

theorem newDirectory_root {i : Nat} (small : first + 5 ≤ maxPages) (inside : i < 4) :
    pdPtr (newDirectory vm (first * pageSize)) (first * pageSize) i = (first + i + 1) * pageSize := by
  have frame : first * pageSize / pageSize = first := Nat.mul_div_cancel _ (by decide)
  have entry : word (newDirectory vm (first * pageSize)) (first * pageSize) i =
      (BitVec.ofNat 64 ((first + i + 1) * pageSize) &&& pteAddrMask) ||| ptePresent := by
    have address : first * pageSize + (i + 1) * pageSize = (first + i + 1) * pageSize := by
      rw [← Nat.add_mul,Nat.add_assoc]
    simp only [word,newDirectory,if_true,if_pos inside,address]
  rw [pdPtr_word _ (Nat.mul_mod_left _ _) (by omega),entry,ptPtr,BitVec.and_or_distrib_right,BitVec.and_assoc,
    BitVec.and_self,show ptePresent &&& pteAddrMask = 0#64 by decide,BitVec.or_zero,← ptPtr]
  apply ptPtr_ofNat (Nat.mul_mod_left _ _)
  simp only [maxPages,pageSize] at *
  omega

theorem newDirectory_tables (small : first + 5 ≤ maxPages) {va : Nat} (inside : va < userLimit) :
    tableOf (newDirectory vm (first * pageSize)) (first * pageSize) va = none := by
  have index : pdptIndex va < 4 := by
    simp only [pdptIndex,userLimit] at *
    omega
  have entry (j : Nat) : has (word (newDirectory vm (first * pageSize)) ((first + pdptIndex va + 1) * pageSize) j)
      pteUser = false := by
    have frame (n : Nat) : n * pageSize / pageSize = n := Nat.mul_div_cancel _ (by decide)
    simp only [word,newDirectory,frame]
    rw [if_neg (by omega),if_pos (by omega),has,BitVec.and_assoc,show ~~~pteUser &&& pteUser = 0#64 by decide,
      BitVec.and_zero]
    rfl
  unfold tableOf
  simp [newDirectory_root small index,entry]

/-- The new space `pd` is empty, and its frames were free before. -/
structure Founded (role role' : Nat → Role) (vm vm' : Vm) (pd : Nat) : Prop where
  kept : Kept role' vm'.pages
  space : Space role' vm' pd
  root : pd ≠ 0
  unmapped : ∀ va < userLimit, mapping vm'.mem pd va = none
  frames : ∀ f, isFree vm.pages f = false → isFree vm'.pages f = false ∧ vm'.mem f = vm.mem f ∧ role' f = role f

theorem pagingCreateAddressSpace_space {vm' : Vm} {pd : Nat} (kept : Kept role vm.pages)
    (made : pagingCreateAddressSpace vm = some (vm',pd)) : ∃ role', Founded role role' vm vm' pd := by
  unfold pagingCreateAddressSpace at made
  cases allocated : pageAllocContiguous vm.pages processPagingPages with
  | none => simp [allocated] at made
  | some block =>
    obtain ⟨pages,base⟩ := block
    simp only [allocated] at made
    cases made
    obtain ⟨first,rfl,takes⟩ := pageAllocContiguous_takes allocated
    have small : first + 5 ≤ maxPages := takes.high
    have frame (n : Nat) : n * pageSize / pageSize = n := Nat.mul_div_cancel _ (by decide)
    have unmapped {va : Nat} (inside : va < userLimit) :
        mapping (newDirectory vm (first * pageSize)) (first * pageSize) va = none := by
      rw [mapping,newDirectory_tables small inside]
      rfl
    have outside {f : Nat} (used : isFree vm.pages f = false) : ¬ (first ≤ f ∧ f < first + 5) := by
      rintro ⟨low,high⟩
      rw [takes.free f low high] at used
      cases used
    refine ⟨created role first,?_,⟨⟨Nat.mul_mod_left _ _,?_,?_,?_,?_⟩,?_⟩,takes.positive,fun va inside => unmapped inside,?_⟩
    · intro f structural
      have inside : f < first + 5 ∧ first ≤ f ∨ role f ≠ .data := by
        by_cases within : f < first + 5 ∧ first ≤ f
        · exact .inl within
        · rw [created,if_neg (by omega),if_neg (by omega)] at structural
          exact .inr structural
      rcases inside with within | before
      · rw [takes.rest,show processPagingPages = 5 from rfl,decide_eq_true ⟨within.2,within.1⟩]
        simp
      · exact takes.taken (kept f before)
    · rw [frame,created,if_pos rfl]
    · intro va inside _
      have index : pdptIndex va < 4 := by
        simp only [pdptIndex,userLimit] at *
        omega
      rw [newDirectory_root small index,frame,created,if_neg (by omega),if_pos (by omega)]
      congr 1
      omega
    · intro va inside t table
      rw [newDirectory_tables small inside] at table
      cases table
    · intro va inside page flags mapped
      rw [unmapped inside] at mapped
      cases mapped
    · intro va inside page flags mapped
      rw [unmapped inside] at mapped
      cases mapped
    · intro f used
      exact ⟨takes.taken used,newDirectory_other (outside used),created_other (outside used)⟩

end Create

end LionOS.Paging

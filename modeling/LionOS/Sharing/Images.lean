import LionOS.Calls.Silence
import LionOS.Sharing.Loading

/-! The address space of a program that `load_image` has just loaded: it maps the pages of
the image and nothing else, in frames that were free. -/
namespace LionOS.Exec
open LionOS.Memory LionOS.Physical LionOS.Paging LionOS.Processes LionOS.Files LionOS.Calls

/-- What was in use before the pages were taken is still in use and as it was. -/
structure Placed (vm : Vm) (pages : List LoadPage) (vm' : Vm) : Prop where
  directory : vm'.currentDirectory = vm.currentDirectory
  taken : ∀ f, isFree vm.pages f = false → isFree vm'.pages f = false
  contents : ∀ f, isFree vm.pages f = false → vm'.mem f = vm.mem f
  frames : ∀ p ∈ pages, isFree vm.pages (p.page / pageSize) = true ∧ isFree vm'.pages (p.page / pageSize) = false ∧
    p.page < 2^32

theorem Filled.placed {vm vm' : Vm} {pages : List LoadPage} (filled : Filled vm pages vm') : Placed vm pages vm' := by
  induction filled with
  | start => exact ⟨rfl,fun _ used => used,fun _ _ => rfl,nofun⟩
  | @taken pages vm' va page flags frames filled fresh allocated plain ih =>
    obtain ⟨first,rfl,takes⟩ := pageAlloc_takes allocated
    have high : first < maxPages := takes.high
    obtain ⟨_,small,frame⟩ := table_address high
    have free : isFree vm'.pages first = true := takes.free first (Nat.le_refl _) (by omega)
    refine ⟨ih.directory,fun f used => takes.taken (ih.taken f used),?_,?_⟩
    · intro f used
      dsimp only
      rw [frame,Function.update_of_ne,ih.contents f used]
      rintro rfl
      rw [ih.taken f used] at free
      cases free
    · intro p inside
      rcases List.mem_append.mp inside with old | new
      · obtain ⟨before,used,bound⟩ := ih.frames p old
        exact ⟨before,takes.taken used,bound⟩
      · rw [List.mem_singleton.mp new]
        dsimp only
        rw [frame]
        refine ⟨?_,(takes.single first).trans (by simp),small⟩
        by_contra used
        rw [ih.taken first (by simpa using used)] at free
        cases free
  | @flagged pages pages' vm' filled same plain ih =>
    refine ⟨ih.directory,ih.taken,ih.contents,?_⟩
    intro p inside
    have page := List.mem_map_of_mem (f := LoadPage.page) inside
    rw [same_frames same] at page
    obtain ⟨q,member,page⟩ := List.mem_map.mp page
    rw [← page]
    exact ih.frames q member
  | @stored pages vm' m filled others ih =>
    refine ⟨ih.directory,ih.taken,?_,ih.frames⟩
    intro f used
    refine (others f ?_).trans (ih.contents f used)
    rintro p inside rfl
    rw [(ih.frames p inside).1] at used
    cases used

/-- The space `pd` maps these pages and no others, in frames that were free in `vm`. -/
structure Laid (role : Nat → Role) (vm vm' : Vm) (pd : Nat) (pages : List LoadPage) : Prop where
  directory : vm'.currentDirectory = vm.currentDirectory
  taken : ∀ f, isFree vm.pages f = false → isFree vm'.pages f = false
  contents : ∀ f, isFree vm.pages f = false → vm'.mem f = vm.mem f
  kept : Kept role vm'.pages
  space : Space role vm' pd
  root : pd ≠ 0
  new : ∀ f, role f ≠ .data → isFree vm.pages f = true
  listed : ∀ va < userLimit, ∀ page flags, mapping vm'.mem pd va = some (page,flags) →
    isFree vm.pages (page / pageSize) = true ∧ has flags pteCow = false ∧ ∃ p ∈ pages, p.page = page ∧ p.va = pageOf va

theorem plain_flags {n : Nat} (small : n < 4) :
    has ((BitVec.ofNat 64 n &&& pteFlagsMask) ||| ptePresent ||| pteUser) pteCow = false := by
  have all : ∀ n < 4, has ((BitVec.ofNat 64 n &&& pteFlagsMask) ||| ptePresent ||| pteUser) pteCow = false := by decide
  exact all n small

section Map
variable {role : Nat → Role} {vm v : Vm} {pd : Nat} {done : List LoadPage}

theorem Laid.map (laid : Laid role vm v pd done) {p : LoadPage} {v' : Vm} (plain : p.flags < 4)
    (before : isFree vm.pages (p.page / pageSize) = true) (used : isFree v.pages (p.page / pageSize) = false)
    (data : role (p.page / pageSize) = .data) (small : p.page < 2^32)
    (mapped : pagingMapUserPageIn v pd p.va p.page (BitVec.ofNat 64 p.flags) = some v') :
    ∃ role', Laid role' vm v' pd (done ++ [p]) ∧ ∀ f, isFree v.pages f = false → role' f = role f := by
  obtain ⟨role',remaps⟩ := pagingMapUserPageIn_remaps mapped laid.space laid.kept data used small
  have aligned := (pagingMapUserPageIn_cases mapped).2.2.1
  refine ⟨role',⟨?_,?_,?_,remaps.kept,remaps.space,laid.root,?_,?_⟩,remaps.roles⟩
  · rw [pagingMapUserPageIn_directory mapped,laid.directory]
  · exact fun f old => pagingMapUserPageIn_taken mapped (laid.taken f old)
  · intro f old
    have ordinary : role f = .data := by
      by_contra structural
      rw [laid.new f structural] at old
      cases old
    rw [remaps.contents f (laid.taken f old) ordinary,laid.contents f old]
  · intro f structural
    by_contra old
    rw [Bool.not_eq_true] at old
    have free := laid.new f
    rw [← remaps.roles f (laid.taken f old),old] at free
    cases free structural
  · intro va inside page flags here
    rw [remaps.mapping va inside] at here
    split_ifs at here with own
    · cases here
      refine ⟨before,plain_flags plain,p,by simp,rfl,?_⟩
      simp only [pageOf,pageSize] at *
      omega
    · obtain ⟨free,cow,q,member,frame,page⟩ := laid.listed va inside page flags here
      exact ⟨free,cow,q,List.mem_append_left _ member,frame,page⟩

theorem mapPages_laid {v' : Vm} (pages : List LoadPage) (laid : Laid role vm v pd done)
    (ready : ∀ p ∈ pages, p.flags < 4 ∧ isFree vm.pages (p.page / pageSize) = true ∧
      isFree v.pages (p.page / pageSize) = false ∧ role (p.page / pageSize) = .data ∧ p.page < 2^32)
    (mapped : mapPages pd v pages = (v',true)) : ∃ role', Laid role' vm v' pd (done ++ pages) := by
  induction pages generalizing role v done with
  | nil =>
    cases mapped
    rw [List.append_nil]
    exact ⟨role,laid⟩
  | cons p rest ih =>
    unfold mapPages at mapped
    cases first : pagingMapUserPageIn v pd p.va p.page (BitVec.ofNat 64 p.flags) with
    | none => simp [first] at mapped
    | some next =>
      simp only [first] at mapped
      obtain ⟨plain,before,used,data,small⟩ := ready p (by simp)
      obtain ⟨role',laid',roles⟩ := laid.map plain before used data small first
      obtain ⟨role'',last⟩ := ih laid' (fun q member => by
        obtain ⟨plain,before,used,data,small⟩ := ready q (by simp [member])
        exact ⟨plain,before,pagingMapUserPageIn_taken first used,(roles _ used).trans data,small⟩) mapped
      rw [List.append_assoc] at last
      exact ⟨role'',last⟩

end Map

theorem loadImage_laid {vm vm' : Vm} {ram : RamFs} {name : List Byte} {program : Loaded}
    (loaded : loadImage vm ram name = (vm',some program)) : ∃ role, Laid role vm vm' program.pd program.pages := by
  have loads := loadImage_loads vm ram name
  rw [loaded] at loads
  cases loads with
  | @loaded pages vm₁ vm₂ vm₃ entry stack pd filled short created mapped =>
    have placed := filled.placed
    have nothing : Kept (fun _ => .data) vm₁.pages := fun _ structural => absurd rfl structural
    obtain ⟨role,founded⟩ := pagingCreateAddressSpace_space nothing created
    have directory : vm₂.currentDirectory = vm₁.currentDirectory := by
      unfold pagingCreateAddressSpace at created
      split at created
      · cases created
      · cases created
        rfl
    have empty : Laid role vm vm₂ pd [] := by
      refine ⟨directory.trans placed.directory,?_,?_,founded.kept,founded.space,founded.root,?_,?_⟩
      · exact fun f used => (founded.frames f (placed.taken f used)).1
      · exact fun f used => (founded.frames f (placed.taken f used)).2.1.trans (placed.contents f used)
      · intro f structural
        by_contra old
        rw [Bool.not_eq_true] at old
        exact structural (founded.frames f (placed.taken f old)).2.2
      · intro va inside page flags here
        rw [founded.unmapped va inside] at here
        cases here
    obtain ⟨role',laid⟩ := mapPages_laid pages empty (fun p member => by
      obtain ⟨before,used,small⟩ := placed.frames p member
      obtain ⟨used',_,data⟩ := founded.frames _ used
      exact ⟨filled.plain p member,before,used',data,small⟩) mapped
    exact ⟨role',laid⟩

end LionOS.Exec

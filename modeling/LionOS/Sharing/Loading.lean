import LionOS.Exec
import LionOS.Spaces.Updates

/-! What `load_image` has done to memory wherever it ends. -/
namespace LionOS.Exec
open LionOS.Memory LionOS.Physical LionOS.Paging LionOS.Processes LionOS.Files

/-- The pages that an image has taken so far: their frames come from the allocator, no
page number occurs twice, none is copy-on-write, and only these frames have been written to. -/
inductive Filled (vm : Vm) : List LoadPage → Vm → Prop
  | start : Filled vm [] vm
  | taken {pages : List LoadPage} {vm' : Vm} {va page flags : Nat} {frames : Allocator} (filled : Filled vm pages vm')
      (fresh : ∀ p ∈ pages, p.va ≠ va) (allocated : pageAlloc vm'.pages = some (frames,page)) (plain : flags < 4) :
      Filled vm (pages ++ [⟨va,page,flags⟩]) {vm' with
        pages := frames
        mem := Function.update vm'.mem (page / pageSize) zeroPage}
  | flagged {pages pages' : List LoadPage} {vm' : Vm} (filled : Filled vm pages vm')
      (same : pages'.map (fun p => (p.va,p.page)) = pages.map fun p => (p.va,p.page))
      (plain : ∀ p ∈ pages', p.flags < 4) : Filled vm pages' vm'
  | stored {pages : List LoadPage} {vm' : Vm} {m : Mem} (filled : Filled vm pages vm')
      (others : ∀ f, (∀ p ∈ pages, p.page / pageSize ≠ f) → m f = vm'.mem f) : Filled vm pages {vm' with mem := m}

/-- How `load_image` can end: refused at once, given up after some pages, given up where
a page cannot be mapped, or with a program. -/
inductive Loads (vm : Vm) : Vm → Option Loaded → Prop
  | refused : Loads vm vm none
  | dropped {pages : List LoadPage} {vm₁ : Vm} (filled : Filled vm pages vm₁) : Loads vm (loadFail vm₁ pages) none
  | unmapped {pages : List LoadPage} {vm₁ vm₂ vm₃ : Vm} {pd : Nat} (filled : Filled vm pages vm₁)
      (created : pagingCreateAddressSpace vm₁ = some (vm₂,pd)) (mapped : mapPages pd vm₂ pages = (vm₃,false)) :
      Loads vm (loadFail (pagingDestroyAddressSpace vm₃ pd) pages) none
  | loaded {pages : List LoadPage} {vm₁ vm₂ vm₃ : Vm} {entry stack pd : Nat} (filled : Filled vm pages vm₁)
      (short : pages.length ≤ maxExecPages) (created : pagingCreateAddressSpace vm₁ = some (vm₂,pd))
      (mapped : mapPages pd vm₂ pages = (vm₃,true)) : Loads vm vm₃ (some ⟨entry,stack,pd,pages⟩)

theorem setFlags_pages (pages : List LoadPage) (i : Nat) (writable : Bool) :
    (setFlags pages i writable).map (fun p => (p.va,p.page)) = pages.map fun p => (p.va,p.page) := by
  unfold setFlags
  split_ifs
  · apply List.ext_getElem
    · simp
    · intro j first second
      simp only [List.getElem_map,List.getElem_modify]
      split_ifs <;> rfl
  · rfl

theorem setFlags_plain {pages : List LoadPage} (plain : ∀ p ∈ pages, p.flags < 4) (i : Nat) (writable : Bool) :
    ∀ p ∈ setFlags pages i writable, p.flags < 4 := by
  unfold setFlags
  split_ifs
  · intro p inside
    obtain ⟨j,bound,rfl⟩ := List.mem_iff_getElem.mp inside
    rw [List.getElem_modify]
    have before := plain _ (List.getElem_mem (by simpa using bound))
    split_ifs
    · exact Nat.or_lt_two_pow (n := 2) before (by decide)
    · exact before
  · exact plain

theorem Filled.plain {vm vm' : Vm} {pages : List LoadPage} (filled : Filled vm pages vm') : ∀ p ∈ pages, p.flags < 4 := by
  induction filled with
  | start => nofun
  | taken filled fresh allocated plain ih =>
    intro p inside
    rcases List.mem_append.mp inside with old | new
    · exact ih p old
    · rw [List.mem_singleton.mp new]
      exact plain
  | flagged filled same plain ih => exact plain
  | stored filled others ih => exact ih

theorem setFlags_length (pages : List LoadPage) (i : Nat) (writable : Bool) :
    (setFlags pages i writable).length = pages.length := by
  have same := congrArg List.length (setFlags_pages pages i writable)
  simpa using same

/-- The page numbers of a list of pages, which changed flags leave as they are. -/
theorem same_vas {pages pages' : List LoadPage}
    (same : pages'.map (fun p => (p.va,p.page)) = pages.map fun p => (p.va,p.page)) :
    pages'.map LoadPage.va = pages.map LoadPage.va := by
  have vas := congrArg (List.map Prod.fst) same
  simpa [Function.comp_def] using vas

theorem same_frames {pages pages' : List LoadPage}
    (same : pages'.map (fun p => (p.va,p.page)) = pages.map fun p => (p.va,p.page)) :
    pages'.map LoadPage.page = pages.map LoadPage.page := by
  have frames := congrArg (List.map Prod.snd) same
  simpa [Function.comp_def] using frames

theorem findPage_none {pages : List LoadPage} {va : Nat} (absent : findPage pages va = none) :
    ∀ p ∈ pages, p.va ≠ va := by
  intro p inside same
  have test := List.findIdx?_eq_none_iff.mp absent p inside
  simp [same] at test

theorem findPage_some {pages : List LoadPage} {va i : Nat} (found : findPage pages va = some i) :
    ∃ p ∈ pages, (pages.map LoadPage.page).getD i 0 = p.page := by
  obtain ⟨inside,_⟩ := List.findIdx?_eq_some_iff_getElem.mp found
  refine ⟨pages[i],List.getElem_mem inside,?_⟩
  rw [List.getD_eq_getElem _ _ (by simpa using inside),List.getElem_map]

theorem loadFail_missed (vm : Vm) (pages : List LoadPage) (va : Nat) :
    loadFail vm (pages ++ [⟨va,0,0⟩]) = loadFail vm pages := by
  simp [loadFail,freePages]

section Segments
variable {vm : Vm}

/-- What the first loop of `load_image` leaves: `seen` are the page addresses it went over. -/
structure Progress (vm : Vm) (l : Loading) (ok : Bool) (seen : List Nat) : Prop where
  filled : ∃ pages, Filled vm pages l.vm ∧ (ok = true → pages = l.pages) ∧ loadFail l.vm l.pages = loadFail l.vm pages
  vas : ok = true → ∀ p ∈ l.pages, p.va ∈ seen

theorem loadPage_progress {l : Loading} {seen : List Nat} (progress : Progress vm l true seen) (va : Nat)
    (writable : Bool) : Progress vm (loadPage l va writable).1 (loadPage l va writable).2 (seen ++ [va]) := by
  obtain ⟨⟨pages,filled,whole,_⟩,vas⟩ := progress
  have same := whole rfl
  subst same
  unfold loadPage
  cases found : findPage l.pages va with
  | some i =>
    simp only
    refine ⟨⟨_,filled.flagged (setFlags_pages l.pages i writable) (setFlags_plain filled.plain i writable),fun _ => rfl,rfl⟩,?_⟩
    intro _ p inside
    have kept : p.va ∈ (setFlags l.pages i writable).map LoadPage.va := List.mem_map_of_mem inside
    rw [same_vas (setFlags_pages l.pages i writable)] at kept
    obtain ⟨q,member,va⟩ := List.mem_map.mp kept
    exact List.mem_append_left _ (va ▸ vas rfl q member)
  | none =>
    simp only
    by_cases full : l.pages.length ≥ maxExecPages
    · simp only [if_pos full]
      exact ⟨⟨_,filled,nofun,rfl⟩,nofun⟩
    · simp only [if_neg full]
      cases allocated : pageAlloc l.vm.pages with
      | none =>
        simp only
        exact ⟨⟨_,filled,nofun,loadFail_missed l.vm l.pages va⟩,nofun⟩
      | some result =>
        obtain ⟨frames,page⟩ := result
        simp only
        have next : Filled vm (l.pages ++ [⟨va,page,1⟩]) _ :=
          filled.taken (findPage_none found) allocated (by decide)
        refine ⟨⟨_,next.flagged (setFlags_pages _ _ writable) (setFlags_plain next.plain _ writable),fun _ => rfl,rfl⟩,?_⟩
        intro _ p inside
        have kept : p.va ∈ (setFlags (l.pages ++ [⟨va,page,1⟩]) l.pages.length writable).map LoadPage.va :=
          List.mem_map_of_mem inside
        rw [same_vas (setFlags_pages _ l.pages.length writable),List.map_append,List.mem_append] at kept
        rcases kept with old | new
        · obtain ⟨q,member,va⟩ := List.mem_map.mp old
          exact List.mem_append_left _ (va ▸ vas rfl q member)
        · exact List.mem_append_right _ (by simpa using new)

theorem loadPages_progress {l : Loading} {seen : List Nat} (progress : Progress vm l true seen) (writable : Bool)
    (vas : List Nat) : Progress vm (loadPages l writable vas).1 (loadPages l writable vas).2 (seen ++ vas) := by
  induction vas generalizing l seen with
  | nil => simpa [loadPages] using progress
  | cons va rest ih =>
    have next := loadPage_progress progress va writable
    unfold loadPages
    generalize loadPage l va writable = result at *
    obtain ⟨l',ok⟩ := result
    cases ok with
    | false => exact ⟨next.filled,nofun⟩
    | true => simpa using ih next

theorem loadSegments_progress {l : Loading} {seen : List Nat} (progress : Progress vm l true seen)
    (segments : List Phdr) :
    Progress vm (loadSegments l segments).1 (loadSegments l segments).2 (seen ++ segments.flatMap segmentPages) := by
  induction segments generalizing l seen with
  | nil => simpa [loadSegments] using progress
  | cons p rest ih =>
    have next := loadPages_progress progress (decide (p.flags / 2 % 2 = 1)) (segmentPages p)
    unfold loadSegments
    generalize loadPages l (decide (p.flags / 2 % 2 = 1)) (segmentPages p) = result at *
    obtain ⟨l',ok⟩ := result
    cases ok with
    | false => exact ⟨next.filled,nofun⟩
    | true => simpa using ih next

end Segments

theorem Filled.aligned {vm vm' : Vm} {pages : List LoadPage} (filled : Filled vm pages vm') :
    ∀ p ∈ pages, p.page % pageSize = 0 := by
  induction filled with
  | start => nofun
  | taken filled fresh allocated _ ih =>
    obtain ⟨first,rfl,_⟩ := pageAlloc_takes allocated
    intro p inside
    rcases List.mem_append.mp inside with old | new
    · exact ih p old
    · rw [List.mem_singleton.mp new]
      exact Nat.mul_mod_left _ _
  | flagged filled same _ ih =>
    intro p inside
    have frame := List.mem_map_of_mem (f := LoadPage.page) inside
    rw [same_frames same] at frame
    obtain ⟨q,member,page⟩ := List.mem_map.mp frame
    exact page ▸ ih q member
  | stored filled others ih => exact ih

/-- Bytes stored to the pages of the image, each in the frame of its page. -/
theorem Filled.writeByte {vm vm' : Vm} {pages : List LoadPage} (filled : Filled vm pages vm') {p : LoadPage}
    (member : p ∈ pages) {offset : Nat} (inside : offset < pageSize) (value : Byte) :
    Filled vm pages {vm' with mem := writeByte vm'.mem (p.page + offset) value} := by
  apply filled.stored
  intro f apart
  have frame : (p.page + offset) / 4096 = p.page / pageSize := by
    have aligned := filled.aligned p member
    simp only [pageSize] at *
    omega
  rw [Physical.writeByte,frame]
  exact Function.update_of_ne (Ne.symm (apart p member)) _ _

theorem Filled.writeBytes {vm vm' : Vm} {pages : List LoadPage} (filled : Filled vm pages vm') {p : LoadPage}
    (member : p ∈ pages) (offset : Nat) (bytes : List Byte) (inside : offset + bytes.length ≤ pageSize) :
    Filled vm pages {vm' with mem := writeBytes vm'.mem (p.page + offset) bytes} := by
  induction bytes generalizing vm' offset with
  | nil => exact filled
  | cons value rest ih =>
    rw [List.length_cons] at inside
    have here : offset < pageSize := by omega
    exact ih (filled.writeByte member here value) (offset + 1) (by omega)

theorem copyBytes_filled {vm vm' : Vm} {pages : List LoadPage} (filled : Filled vm pages vm') (va : Nat)
    (bytes : List Byte) : Filled vm pages {vm' with mem := (copyBytes pages vm'.mem va bytes).1} := by
  induction bytes generalizing vm' va with
  | nil => exact filled
  | cons value rest ih =>
    unfold copyBytes
    cases found : findPage pages (alignDown va) with
    | none => exact filled
    | some i =>
      obtain ⟨p,member,page⟩ := findPage_some found
      simp only
      rw [page]
      exact ih (filled.writeByte member (Nat.mod_lt _ (by decide)) value) (va+1)

theorem copySegments_filled {vm vm' : Vm} {pages : List LoadPage} (filled : Filled vm pages vm') (image : List Byte)
    (segments : List Phdr) : Filled vm pages {vm' with mem := (copySegments image pages vm'.mem segments).1} := by
  induction segments generalizing vm' with
  | nil => exact filled
  | cons p rest ih =>
    have next := copyBytes_filled filled p.vaddr ((image.drop p.offset).take p.filesz)
    unfold copySegments
    generalize copyBytes pages vm'.mem p.vaddr ((image.drop p.offset).take p.filesz) = result at *
    obtain ⟨m,ok⟩ := result
    cases ok with
    | false => exact next
    | true => exact ih next

theorem buildInitialStack_filled {vm vm' : Vm} {pages : List LoadPage} (filled : Filled vm pages vm') {p : LoadPage}
    (member : p ∈ pages) {name : List Byte} {m : Mem} {stack : Nat}
    (built : buildInitialStack vm'.mem p.page name = some (m,stack)) : Filled vm pages {vm' with mem := m} := by
  unfold buildInitialStack at built
  by_cases long : name.length > 32
  · rw [if_pos long] at built
    cases built
  · rw [if_neg long] at built
    simp only [Option.some.injEq,Prod.mk.injEq] at built
    obtain ⟨rfl,_⟩ := built
    have string : userStackTop - 20 - name.length - 1 - userStackPage + (name ++ [0]).length ≤ pageSize := by
      simp only [userStackTop,userStackPage,pageSize,List.length_append,List.length_singleton]
      omega
    have named := filled.writeBytes member _ _ string
    have pointer : userStackTop - 12 - userStackPage + (bytes32 (userStackTop - 20 - name.length - 1)).length ≤ pageSize :=
      (by decide : userStackTop - 12 - userStackPage + 4 ≤ pageSize)
    have pointed := named.writeBytes member _ _ pointer
    have ended := pointed.writeBytes member (userStackTop - 12 - userStackPage + 4) (bytes32 0) (by decide)
    rw [← Nat.add_assoc] at ended
    exact ended.writeBytes member (userStackTop - 20 - userStackPage) (bytes32 1) (by decide)

theorem segmentPages_range {p : Phdr} {va : Nat} (inside : va ∈ segmentPages p) :
    alignDown p.vaddr ≤ va ∧ va < alignUp (p.vaddr + p.memsz) := by
  obtain ⟨i,bound,rfl⟩ := List.mem_map.mp inside
  have below := List.mem_range.mp bound
  have whole : (alignUp (p.vaddr + p.memsz) - alignDown p.vaddr) / pageSize * pageSize ≤
      alignUp (p.vaddr + p.memsz) - alignDown p.vaddr := Nat.div_mul_le_self _ _
  have next : (i + 1) * pageSize ≤ (alignUp (p.vaddr + p.memsz) - alignDown p.vaddr) / pageSize * pageSize :=
    Nat.mul_le_mul_right _ below
  rw [Nat.add_mul,Nat.one_mul] at next
  have size : 0 < pageSize := by decide
  omega

/-- No segment of an accepted image reaches into the stack page. -/
theorem execValidateImage_stack {image : List Byte} {entry : Nat} (valid : execValidateImage image = some entry) :
    userStackPage ∉ (loaded image).flatMap segmentPages := by
  intro inside
  obtain ⟨p,member,page⟩ := List.mem_flatMap.mp inside
  obtain ⟨low,high⟩ := segmentPages_range page
  unfold execValidateImage at valid
  cases checked : elf32Validate image with
  | none => simp [checked] at valid
  | some start =>
    simp only [checked] at valid
    split_ifs at valid with fits
    rw [Bool.and_eq_true,List.all_eq_true] at fits
    have segment := fits.1 p member
    simp only [segmentFits,Bool.and_eq_true,Bool.not_eq_true',decide_eq_true low,decide_eq_true high] at segment
    simp at segment

theorem loadImage_loads (vm : Vm) (r : RamFs) (name : List Byte) :
    Loads vm (loadImage vm r name).1 (loadImage vm r name).2 := by
  unfold loadImage
  dsimp only
  generalize imageOf r name = image
  cases valid : execValidateImage image with
  | none => exact .refused
  | some entry =>
    have start : Progress vm ⟨vm,[]⟩ true [] := ⟨⟨[],.start,fun _ => rfl,rfl⟩,nofun⟩
    have progress := loadSegments_progress start (loaded image)
    rw [List.nil_append] at progress
    simp only
    generalize loadSegments ⟨vm,[]⟩ (loaded image) = result at *
    obtain ⟨l,ok⟩ := result
    obtain ⟨⟨pages,filled,whole,undone⟩,vas⟩ := progress
    cases ok with
    | false =>
      simp only at *
      rw [undone]
      exact .dropped filled
    | true =>
      have same := whole rfl
      subst same
      have copied := copySegments_filled filled image
        ((phdrs image).filter fun p => decide (p.type = ptLoad) && decide (p.filesz ≠ 0))
      simp only at *
      generalize copySegments image l.pages l.vm.mem
        ((phdrs image).filter fun p => decide (p.type = ptLoad) && decide (p.filesz ≠ 0)) = copy at *
      obtain ⟨mem,complete⟩ := copy
      cases complete with
      | false => exact .dropped copied
      | true =>
        simp only
        by_cases full : l.pages.length ≥ maxExecPages
        · rw [if_pos full]
          exact .dropped copied
        · rw [if_neg full]
          cases allocated : pageAlloc l.vm.pages with
          | none => exact .dropped copied
          | some stack =>
            obtain ⟨frames,sp⟩ := stack
            have fresh : ∀ p ∈ l.pages, p.va ≠ userStackPage := by
              intro p inside same
              exact execValidateImage_stack valid (same ▸ vas trivial p inside)
            have stacked : Filled vm (l.pages ++ [⟨userStackPage,sp,3⟩]) _ := copied.taken fresh allocated (by decide)
            have last : (⟨userStackPage,sp,3⟩ : LoadPage) ∈ l.pages ++ [⟨userStackPage,sp,3⟩] := by simp
            simp only
            cases built : buildInitialStack (Function.update mem (sp / pageSize) zeroPage) sp name with
            | none => exact .dropped stacked
            | some top =>
              obtain ⟨m,pointer⟩ := top
              have ready := buildInitialStack_filled stacked last built
              simp only
              cases created : pagingCreateAddressSpace {l.vm with mem := m, pages := frames} with
              | none => exact .dropped ready
              | some space =>
                obtain ⟨vm₂,pd⟩ := space
                simp only
                cases mapped : mapPages pd vm₂ (l.pages ++ [⟨userStackPage,sp,3⟩]) with
                | mk vm₃ all =>
                  cases all with
                  | false => exact .unmapped ready created mapped
                  | true =>
                    refine .loaded ready ?_ created mapped
                    rw [List.length_append,List.length_singleton]
                    omega

end LionOS.Exec

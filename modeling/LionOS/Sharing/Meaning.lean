import LionOS.Processes.Termination
import LionOS.Sharing.Images

/-! What a loaded image means: which pages the new address space maps, what every byte of
them is, which may be written, and what the program finds on its stack. -/
namespace LionOS.Exec
open LionOS.Memory LionOS.Physical LionOS.Paging LionOS.Processes LionOS.Files LionOS.Calls

/-- The segment has a byte in the page of `va`. -/
def Phdr.Meets (p : Phdr) (va : Nat) : Prop := p.vaddr < pageOf va + pageSize ∧ pageOf va < p.vaddr + p.memsz

/-- The file part of the segment covers `va`. -/
def Phdr.covers (p : Phdr) (va : Nat) : Bool := decide (p.type = ptLoad) && decide (p.vaddr ≤ va) && decide (va < p.vaddr + p.filesz)

/-- The byte at `va`: that of the last segment whose file part covers it. -/
def imageByte (image : List Byte) (va : Nat) : Byte :=
  match ((phdrs image).filter fun p => p.covers va).getLast? with
  | none => 0
  | some p => image.getD (p.offset + (va - p.vaddr)) 0

/-- The bytes from `va` on as the program reads them, `none` where nothing is mapped. -/
def userBytes (vm : Vm) (pd va count : Nat) : List (Option Byte) :=
  (List.range count).map fun i => (pagingGetUserPage vm pd (va + i)).map fun page => readByte vm.mem (page.1 + (va + i) % pageSize)

structure Means (image name : List Byte) (vm : Vm) (program : Loaded) : Prop where
  mapped : ∀ va, (pagingGetUserPage vm program.pd va).isSome = true ↔
    (∃ p ∈ loaded image, p.Meets va) ∨ pageOf va = userStackPage
  bytes : ∀ va page flags, pagingGetUserPage vm program.pd va = some (page,flags) → pageOf va ≠ userStackPage →
    readByte vm.mem (page + va % pageSize) = imageByte image va
  writable : ∀ va page flags, pagingGetUserPage vm program.pd va = some (page,flags) → pageOf va ≠ userStackPage →
    (has flags pteWritable = true ↔ ∃ p ∈ loaded image, p.Meets va ∧ p.flags / 2 % 2 = 1)
  stack : ∃ page flags, pagingGetUserPage vm program.pd userStackPage = some (page,flags) ∧ has flags pteWritable = true
  /-- The words at the first stack pointer, where the start code takes `argc` and `argv` from. -/
  arguments : ∃ string, userBytes vm program.pd program.stack 4 = (bytes32 1).map some ∧
    userBytes vm program.pd (program.stack + 8) 4 = (bytes32 string).map some ∧
    userBytes vm program.pd (program.stack + 12) 4 = (bytes32 0).map some ∧
    userBytes vm program.pd string (name.length + 1) = (name ++ [0]).map some

/-! ### The list of pages -/

/-- No page number and no frame occurs twice. -/
structure Sited (pages : List LoadPage) : Prop where
  vas : (pages.map LoadPage.va).Nodup
  frames : (pages.map LoadPage.page).Nodup
  aligned : ∀ p ∈ pages, p.page % pageSize = 0

theorem Filled.sited {vm vm' : Vm} {pages : List LoadPage} (filled : Filled vm pages vm') : Sited pages := by
  refine ⟨?_,?_,filled.aligned⟩
  · induction filled with
    | start => exact List.nodup_nil
    | taken filled fresh allocated plain ih =>
      rw [List.map_append,List.map_singleton,List.nodup_append]
      refine ⟨ih,List.nodup_singleton _,?_⟩
      rintro va member va' own rfl
      obtain ⟨p,inside,same⟩ := List.mem_map.mp member
      exact fresh p inside (same.trans (List.mem_singleton.mp own))
    | flagged filled same plain ih =>
      rw [same_vas same]
      exact ih
    | stored filled others ih => exact ih
  · induction filled with
    | start => exact List.nodup_nil
    | taken filled fresh allocated plain ih =>
      obtain ⟨first,rfl,takes⟩ := pageAlloc_takes allocated
      rw [List.map_append,List.map_singleton,List.nodup_append]
      refine ⟨ih,List.nodup_singleton _,?_⟩
      rintro page member page' own rfl
      obtain ⟨p,inside,same⟩ := List.mem_map.mp member
      have used := (filled.placed.frames p inside).2.1
      rw [same,List.mem_singleton.mp own,Nat.mul_div_cancel _ (by decide : 0 < pageSize),
        takes.free first (Nat.le_refl _) (by omega)] at used
      cases used
    | flagged filled same plain ih =>
      rw [same_frames same]
      exact ih
    | stored filled others ih => exact ih

section Pages
variable {pages : List LoadPage}

theorem findPage_frame (pages : List LoadPage) (va : Nat) :
    (findPage pages va).map (fun i => (pages.map LoadPage.page).getD i 0) =
      (pages.find? fun p => decide (p.va = va)).map LoadPage.page := by
  unfold findPage
  induction pages with
  | nil => rfl
  | cons p rest ih =>
    rw [List.findIdx?_cons,List.find?_cons]
    by_cases own : p.va = va
    · simp [own]
    · rw [decide_eq_false own,← ih]
      simp [Function.comp_def]

theorem Sited.same_va (sited : Sited pages) {p q : LoadPage} (first : p ∈ pages) (second : q ∈ pages) (same : p.va = q.va) :
    p = q := List.inj_on_of_nodup_map sited.vas first second same

theorem Sited.same_page (sited : Sited pages) {p q : LoadPage} (first : p ∈ pages) (second : q ∈ pages)
    (same : p.page = q.page) : p = q := List.inj_on_of_nodup_map sited.frames first second same

theorem find_va {va : Nat} {p : LoadPage} (found : pages.find? (fun p => decide (p.va = va)) = some p) : p ∈ pages ∧ p.va = va := by
  have test := List.find?_some found
  exact ⟨List.mem_of_find?_eq_some found,of_decide_eq_true test⟩

theorem Sited.find (sited : Sited pages) {p : LoadPage} (member : p ∈ pages) :
    pages.find? (fun q => decide (q.va = p.va)) = some p := by
  cases found : pages.find? (fun q => decide (q.va = p.va)) with
  | none => simpa using List.find?_eq_none.mp found p member
  | some q =>
    obtain ⟨own,same⟩ := find_va found
    rw [sited.same_va own member same]

/-- The byte that the pages hold for `va`. -/
def view (pages : List LoadPage) (m : Mem) (va : Nat) : Option Byte :=
  (pages.find? fun p => decide (p.va = alignDown va)).map fun p => readByte m (p.page + va % pageSize)

theorem view_writeByte (sited : Sited pages) {p : LoadPage} {va : Nat}
    (found : pages.find? (fun p => decide (p.va = alignDown va)) = some p) (m : Mem) (value : Byte) (va' : Nat) :
    view pages (writeByte m (p.page + va % pageSize) value) va' = if va' = va then some value else view pages m va' := by
  unfold view
  by_cases own : va' = va
  · rw [own,found,if_pos rfl,Option.map_some,readByte_writeByte,if_pos rfl]
  · rw [if_neg own]
    cases found' : pages.find? (fun p => decide (p.va = alignDown va')) with
    | none => rfl
    | some q =>
      obtain ⟨member,first⟩ := find_va found
      obtain ⟨member',second⟩ := find_va found'
      rw [Option.map_some,Option.map_some,readByte_writeByte,if_neg]
      intro same
      have aligned := sited.aligned p member
      have aligned' := sited.aligned q member'
      have equal : q = p := by
        refine sited.same_page member' member ?_
        simp only [pageSize] at *
        omega
      subst equal
      simp only [alignDown,pageSize] at *
      omega

theorem copyBytes_view (sited : Sited pages) {bytes : List Byte} {m m' : Mem} {va : Nat}
    (copied : copyBytes pages m va bytes = (m',true)) (va' : Nat) :
    view pages m' va' = if va ≤ va' ∧ va' < va + bytes.length then bytes[va' - va]? else view pages m va' := by
  induction bytes generalizing m va with
  | nil =>
    cases copied
    rw [if_neg]
    simp
  | cons value rest ih =>
    have frame := findPage_frame pages (alignDown va)
    unfold copyBytes at copied
    cases index : findPage pages (alignDown va) with
    | none => simp [index] at copied
    | some i =>
      rw [index] at frame
      simp only [index] at copied
      cases found : pages.find? (fun p => decide (p.va = alignDown va)) with
      | none => simp [found] at frame
      | some p =>
        rw [found] at frame
        have place : (pages.map LoadPage.page).getD i 0 = p.page := Option.some.inj frame
        rw [place] at copied
        rw [ih copied,view_writeByte sited found,List.length_cons]
        by_cases own : va' = va
        · rw [if_neg (by omega),if_pos own,if_pos (by omega),own]
          simp
        · rw [if_neg own]
          by_cases later : va + 1 ≤ va' ∧ va' < va + 1 + rest.length
          · rw [if_pos later,if_pos (by omega),show va' - va = (va' - (va + 1)) + 1 by omega]
            rfl
          · rw [if_neg later,if_neg (by omega)]

/-- The bytes of the file that a segment brings. -/
def Phdr.byte (image : List Byte) (p : Phdr) (va : Nat) : Byte := image.getD (p.offset + (va - p.vaddr)) 0

theorem copySegments_view (sited : Sited pages) {image : List Byte} {segments : List Phdr} {m m' : Mem}
    (inside : ∀ p ∈ segments, p.type = ptLoad ∧ p.offset + p.filesz ≤ image.length)
    (copied : copySegments image pages m segments = (m',true)) (va : Nat) :
    view pages m' va = match (segments.filter fun p => p.covers va).getLast? with
      | none => view pages m va
      | some p => some (p.byte image va) := by
  induction segments generalizing m with
  | nil =>
    cases copied
    rfl
  | cons p rest ih =>
    unfold copySegments at copied
    cases first : copyBytes pages m p.vaddr ((image.drop p.offset).take p.filesz) with
    | mk next ok =>
      cases ok with
      | false => simp [first] at copied
      | true =>
        simp only [first] at copied
        obtain ⟨type,bound⟩ := inside p List.mem_cons_self
        have length : ((image.drop p.offset).take p.filesz).length = p.filesz := by
          rw [List.length_take,List.length_drop]
          omega
        have here := copyBytes_view sited first va
        rw [length] at here
        rw [ih (fun q member => inside q (List.mem_cons_of_mem p member)) copied]
        by_cases own : p.vaddr ≤ va ∧ va < p.vaddr + p.filesz
        · have covered : p.covers va = true := by simp [Phdr.covers,type,own.1,own.2]
          rw [List.filter_cons_of_pos (p := fun p : Phdr => p.covers va) covered,List.getLast?_cons]
          cases last : (rest.filter fun p => p.covers va).getLast? with
          | some q => rfl
          | none =>
            simp only [Option.getD_none]
            have range : va - p.vaddr < p.filesz := by omega
            have within : p.offset + (va - p.vaddr) < image.length := by omega
            rw [here,if_pos own,List.getElem?_take,if_pos range,List.getElem?_drop,List.getElem?_eq_getElem within,
              Phdr.byte,List.getD_eq_getElem _ _ within]
        · have uncovered : ¬ p.covers va = true := by
            simp only [Phdr.covers,Bool.and_eq_true,decide_eq_true_eq]
            exact fun all => own ⟨all.1.2,all.2⟩
          rw [List.filter_cons_of_neg (p := fun p : Phdr => p.covers va) uncovered]
          rw [if_neg own] at here
          rw [here]

end Pages

/-! ### The first loop -/

/-- The pages after some rounds of the first loop: zero throughout, those in `writes` writable. -/
structure Cleared (vm : Vm) (l : Loading) (seen writes : Set Nat) : Prop where
  filled : Filled vm l.pages l.vm
  zero : ∀ p ∈ l.pages, l.vm.mem (p.page / pageSize) = zeroPage
  visited : ∀ va, (∃ p ∈ l.pages, p.va = va) ↔ va ∈ seen
  flags : ∀ p ∈ l.pages, p.va ∈ writes ∧ p.flags = 3 ∨ p.va ∉ writes ∧ p.flags = 1
  part : writes ⊆ seen

section FirstLoop
variable {vm : Vm} {l l' : Loading} {seen writes : Set Nat}

theorem setFlags_member {pages : List LoadPage} (sited : Sited pages) {i : Nat} (bound : i < pages.length) {writable : Bool}
    {q : LoadPage} (member : q ∈ setFlags pages i writable) : ∃ p ∈ pages, p.va = q.va ∧ p.page = q.page ∧
      q.flags = if q.va = pages[i].va ∧ writable = true then p.flags ||| 2 else p.flags := by
  unfold setFlags at member
  cases writable with
  | false => exact ⟨q,member,rfl,rfl,by simp⟩
  | true =>
    rw [if_pos rfl] at member
    obtain ⟨j,inside,rfl⟩ := List.mem_iff_getElem.mp member
    have inside' : j < pages.length := by simpa using inside
    refine ⟨pages[j],List.getElem_mem inside',?_,?_,?_⟩
    · rw [List.getElem_modify]
      split_ifs <;> rfl
    · rw [List.getElem_modify]
      split_ifs <;> rfl
    · rw [List.getElem_modify]
      by_cases own : i = j
      · subst own
        simp
      · have other : pages[j].va ≠ pages[i].va := by
          intro same
          have equal := sited.same_va (List.getElem_mem inside') (List.getElem_mem bound) same
          have nodup : pages.Nodup := List.Nodup.of_map LoadPage.va sited.vas
          exact own ((nodup.getElem_inj_iff).mp equal).symm
        simp [own,other]

theorem Cleared.flag (cleared : Cleared vm l seen writes) {i va : Nat} (bound : i < l.pages.length)
    (own : l.pages[i].va = va) (writable : Bool) :
    Cleared vm {l with pages := setFlags l.pages i writable} seen (writes ∪ {va' | va' = va ∧ writable = true}) := by
  have same := setFlags_pages l.pages i writable
  have members {q : LoadPage} (member : q ∈ setFlags l.pages i writable) :=
    setFlags_member cleared.filled.sited bound member
  refine ⟨cleared.filled.flagged same (setFlags_plain cleared.filled.plain i writable),?_,?_,?_,?_⟩
  · intro q member
    obtain ⟨p,inside,_,frame,_⟩ := members member
    rw [← frame]
    exact cleared.zero p inside
  · intro va'
    have vas := congrArg (va' ∈ ·) (same_vas same)
    simp only [List.mem_map,eq_iff_iff] at vas
    rw [← cleared.visited va']
    exact vas
  · intro q member
    obtain ⟨p,inside,place,_,flags⟩ := members member
    rw [own] at flags
    rw [flags,← place]
    rcases cleared.flags p inside with ⟨writes,three⟩ | ⟨writes,one⟩
    · left
      refine ⟨.inl writes,?_⟩
      rw [three]
      split_ifs <;> rfl
    · rw [one]
      by_cases now : p.va = va ∧ writable = true
      · rw [if_pos now]
        exact .inl ⟨.inr now,rfl⟩
      · rw [if_neg now]
        exact .inr ⟨fun either => either.elim writes now,rfl⟩
  · refine Set.union_subset cleared.part ?_
    rintro va' ⟨rfl,_⟩
    exact (cleared.visited va').mp ⟨_,List.getElem_mem bound,own⟩

theorem loadPage_cleared (cleared : Cleared vm l seen writes) {va : Nat} {writable : Bool}
    (loads : loadPage l va writable = (l',true)) :
    Cleared vm l' (seen ∪ {va}) (writes ∪ {va' | va' = va ∧ writable = true}) := by
  unfold loadPage at loads
  cases found : findPage l.pages va with
  | some i =>
    simp only [found] at loads
    obtain ⟨rfl,_⟩ := Prod.mk.inj loads
    obtain ⟨bound,own,_⟩ := List.findIdx?_eq_some_iff_getElem.mp found
    have here : l.pages[i].va = va := of_decide_eq_true own
    have old : seen ∪ {va} = seen := by
      rw [Set.union_singleton,Set.insert_eq_of_mem]
      exact (cleared.visited va).mp ⟨_,List.getElem_mem bound,here⟩
    rw [old]
    exact cleared.flag bound here writable
  | none =>
    simp only [found] at loads
    by_cases full : l.pages.length ≥ maxExecPages
    · simp [full] at loads
    rw [if_neg full] at loads
    cases allocated : pageAlloc l.vm.pages with
    | none => simp [allocated] at loads
    | some block =>
      obtain ⟨frames,page⟩ := block
      simp only [allocated] at loads
      obtain ⟨rfl,_⟩ := Prod.mk.inj loads
      have fresh := findPage_none found
      have unseen : va ∉ seen := by
        rw [← cleared.visited va]
        rintro ⟨p,inside,same⟩
        exact fresh p inside same
      have taken : Cleared vm ⟨{l.vm with pages := frames,mem := Function.update l.vm.mem (page / pageSize) zeroPage},
          l.pages ++ [⟨va,page,1⟩]⟩ (seen ∪ {va}) writes := by
        refine ⟨cleared.filled.taken fresh allocated (by decide),?_,?_,?_,cleared.part.trans Set.subset_union_left⟩
        · intro p inside
          dsimp only
          by_cases own : p.page / pageSize = page / pageSize
          · rw [own,Function.update_self]
          · rw [Function.update_of_ne own]
            rcases List.mem_append.mp inside with old | new
            · exact cleared.zero p old
            · rw [List.mem_singleton.mp new] at own
              exact absurd rfl own
        · intro va'
          rw [Set.mem_union,← cleared.visited va']
          simp [or_and_right,exists_or,eq_comm]
        · intro p inside
          rcases List.mem_append.mp inside with old | new
          · exact cleared.flags p old
          · rw [List.mem_singleton.mp new]
            exact .inr ⟨fun own => unseen (cleared.part own),rfl⟩
      have last : l.pages.length < (l.pages ++ [(⟨va,page,1⟩ : LoadPage)]).length := by simp
      exact taken.flag last (by simp : (l.pages ++ [(⟨va,page,1⟩ : LoadPage)])[l.pages.length].va = va) writable

theorem loadPages_cleared (cleared : Cleared vm l seen writes) {vas : List Nat} {writable : Bool}
    (loads : loadPages l writable vas = (l',true)) :
    Cleared vm l' (seen ∪ {va | va ∈ vas}) (writes ∪ {va | va ∈ vas ∧ writable = true}) := by
  induction vas generalizing l seen writes with
  | nil =>
    obtain ⟨rfl,_⟩ := Prod.mk.inj loads
    simpa using cleared
  | cons va rest ih =>
    unfold loadPages at loads
    cases first : loadPage l va writable with
    | mk next ok =>
      cases ok with
      | false => simp [first] at loads
      | true =>
        simp only [first] at loads
        have last := ih (loadPage_cleared cleared first) loads
        have all : seen ∪ {va} ∪ {va | va ∈ rest} = seen ∪ {va' | va' ∈ va::rest} := by
          ext va'
          simp [or_assoc,or_left_comm]
        have some : writes ∪ {va' | va' = va ∧ writable = true} ∪ {va | va ∈ rest ∧ writable = true} =
            writes ∪ {va' | va' ∈ va::rest ∧ writable = true} := by
          ext va'
          simp [or_assoc,or_and_right]
        rwa [all,some] at last

/-- The pages of the segments that are writable. -/
def writablePages (segments : List Phdr) : Set Nat := {va | ∃ p ∈ segments, va ∈ segmentPages p ∧ p.flags / 2 % 2 = 1}

theorem loadSegments_cleared (cleared : Cleared vm l seen writes) {segments : List Phdr}
    (loads : loadSegments l segments = (l',true)) :
    Cleared vm l' (seen ∪ {va | va ∈ segments.flatMap segmentPages}) (writes ∪ writablePages segments) := by
  induction segments generalizing l seen writes with
  | nil =>
    obtain ⟨rfl,_⟩ := Prod.mk.inj loads
    simpa [writablePages] using cleared
  | cons p rest ih =>
    unfold loadSegments at loads
    cases first : loadPages l (decide (p.flags / 2 % 2 = 1)) (segmentPages p) with
    | mk next ok =>
      cases ok with
      | false => simp [first] at loads
      | true =>
        simp only [first] at loads
        have last := ih (loadPages_cleared cleared first) loads
        have all : seen ∪ {va | va ∈ segmentPages p} ∪ {va | va ∈ rest.flatMap segmentPages} =
            seen ∪ {va | va ∈ (p::rest).flatMap segmentPages} := by
          ext va
          simp [or_assoc]
        have some : writes ∪ {va | va ∈ segmentPages p ∧ decide (p.flags / 2 % 2 = 1) = true} ∪ writablePages rest =
            writes ∪ writablePages (p::rest) := by
          ext va
          simp [writablePages,or_assoc]
        rwa [all,some] at last

end FirstLoop

theorem segmentPages_mem {p : Phdr} {va : Nat} : va ∈ segmentPages p ↔
    va % pageSize = 0 ∧ va < p.vaddr + p.memsz ∧ p.vaddr < va + pageSize := by
  constructor
  · intro inside
    obtain ⟨low,high⟩ := segmentPages_range inside
    obtain ⟨i,_,rfl⟩ := List.mem_map.mp inside
    simp only [alignDown,alignUp,pageSize] at *
    omega
  · rintro ⟨aligned,high,low⟩
    refine List.mem_map.mpr ⟨(va - alignDown p.vaddr) / pageSize,List.mem_range.mpr ?_,?_⟩
    · simp only [alignDown,alignUp,pageSize] at *
      omega
    · simp only [alignDown,pageSize] at *
      omega

/-! ### The initial stack -/

/-- What the stack frame `page` holds once the stack for `name` is built. -/
structure StackBuilt (m m' : Mem) (page : Nat) (name : List Byte) (stack : Nat) : Prop where
  pointer : stack = userStackTop - 20
  short : name.length ≤ 32
  others : ∀ f, f ≠ page / pageSize → m' f = m f
  argc : ∀ i < 4, readByte m' (page + (pageSize - 20 + i)) = (bytes32 1).getD i 0
  argv : ∀ i < 4, readByte m' (page + (pageSize - 12 + i)) = (bytes32 (userStackTop - 20 - name.length - 1)).getD i 0
  null : ∀ i < 4, readByte m' (page + (pageSize - 8 + i)) = (bytes32 0).getD i 0
  string : ∀ i < name.length + 1, readByte m' (page + (pageSize - 20 - name.length - 1 + i)) = (name ++ [0]).getD i 0

theorem buildInitialStack_built {m m' : Mem} {page stack : Nat} {name : List Byte} (aligned : page % pageSize = 0)
    (built : buildInitialStack m page name = some (m',stack)) : StackBuilt m m' page name stack := by
  unfold buildInitialStack at built
  by_cases long : name.length > 32
  · rw [if_pos long] at built
    cases built
  rw [if_neg long] at built
  dsimp only at built
  have argc : userStackTop - 20 - userStackPage = 4076 := rfl
  have argv : userStackTop - 12 - userStackPage = 4084 := rfl
  have string : userStackTop - 20 - name.length - 1 - userStackPage = 4075 - name.length := by
    simp only [userStackTop,userStackPage]
    omega
  rw [argc,argv,string,Option.some.injEq,Prod.mk.injEq] at built
  obtain ⟨rfl,rfl⟩ := built
  have word (n : Nat) : (bytes32 n).length = 4 := rfl
  have text : (name ++ [0]).length = name.length + 1 := by simp
  refine ⟨rfl,by omega,?_,?_,?_,?_,?_⟩
  all_goals simp only [pageSize] at *
  · intro f other
    rw [writeBytes_frame _ (by rw [word]; omega) (by omega),writeBytes_frame _ (by rw [word]; omega) (by omega),
      writeBytes_frame _ (by rw [word]; omega) (by omega),writeBytes_frame _ (by rw [text]; omega) (by omega)]
  · intro i bound
    have index : page + (4096 - 20 + i) - (page + 4076) = i := by omega
    rw [readByte_writeBytes,word,if_pos (by omega),index]
  · intro i bound
    have index : page + (4096 - 12 + i) - (page + 4084) = i := by omega
    rw [readByte_writeBytes,word,if_neg (by omega),readByte_writeBytes,word,if_neg (by omega),readByte_writeBytes,word,
      if_pos (by omega),index]
  · intro i bound
    have index : page + (4096 - 8 + i) - (page + 4084 + 4) = i := by omega
    rw [readByte_writeBytes,word,if_neg (by omega),readByte_writeBytes,word,if_pos (by omega),index]
  · intro i bound
    have index : page + (4096 - 20 - name.length - 1 + i) - (page + (4075 - name.length)) = i := by omega
    rw [readByte_writeBytes,word,if_neg (by omega),readByte_writeBytes,word,if_neg (by omega),readByte_writeBytes,word,
      if_neg (by omega),readByte_writeBytes,text,if_pos (by omega),index]

theorem userBytes_stack {vm : Vm} {pd page : Nat} {flags : Word} {bytes : List Byte} {offset : Nat}
    (mapped : pagingGetUserPage vm pd userStackPage = some (page,flags)) (inside : offset + bytes.length ≤ pageSize)
    (stored : ∀ i < bytes.length, readByte vm.mem (page + (offset + i)) = bytes.getD i 0) :
    userBytes vm pd (userStackPage + offset) bytes.length = bytes.map some := by
  unfold userBytes
  refine List.ext_getElem (by simp) ?_
  intro i first second
  have bound : i < bytes.length := by simpa using second
  have same : (userStackPage + offset + i) / pageSize = userStackPage / pageSize := by
    simp only [userStackPage,pageSize] at *
    omega
  have rest : (userStackPage + offset + i) % pageSize = offset + i := by
    simp only [userStackPage,pageSize] at *
    omega
  rw [List.getElem_map,List.getElem_map,List.getElem_range,pagingGetUserPage_page vm pd same,mapped,Option.map_some,rest,
    stored i bound,List.getD_eq_getElem _ _ bound]

/-! ### The new tables -/

/-- The frame and the flags that a page is mapped with. -/
def LoadPage.leaf (p : LoadPage) : Nat × Word := (p.page,(BitVec.ofNat 64 p.flags &&& pteFlagsMask) ||| ptePresent ||| pteUser)

/-- The tables of `pd` hold exactly these pages. -/
structure Exact (role : Nat → Role) (vm : Vm) (pd : Nat) (pages : List LoadPage) : Prop where
  kept : Kept role vm.pages
  space : Space role vm pd
  mapping : ∀ va < userLimit, mapping vm.mem pd va = (pages.find? fun p => decide (p.va = alignDown va)).map LoadPage.leaf

section Map
variable {role : Nat → Role} {vm vm' : Vm} {pd : Nat} {done : List LoadPage}

theorem Exact.map (exact : Exact role vm pd done) {p : LoadPage} (fresh : ∀ q ∈ done, q.va ≠ p.va)
    (used : isFree vm.pages (p.page / pageSize) = false) (data : role (p.page / pageSize) = .data) (small : p.page < 2^32)
    (mapped : pagingMapUserPageIn vm pd p.va p.page (BitVec.ofNat 64 p.flags) = some vm') :
    ∃ role', Exact role' vm' pd (done ++ [p]) ∧ ∀ f, isFree vm.pages f = false →
      isFree vm'.pages f = false ∧ role' f = role f ∧ (role f = .data → vm'.mem f = vm.mem f) := by
  obtain ⟨role',remaps⟩ := pagingMapUserPageIn_remaps mapped exact.space exact.kept data used small
  have aligned := (pagingMapUserPageIn_cases mapped).2.2.1
  refine ⟨role',⟨remaps.kept,remaps.space,?_⟩,?_⟩
  · intro va inside
    rw [remaps.mapping va inside,exact.mapping va inside,List.find?_append]
    by_cases own : va / pageSize = p.va / pageSize
    · have here : p.va = alignDown va := by
        simp only [alignDown,pageSize] at *
        omega
      have before : done.find? (fun q => decide (q.va = alignDown va)) = none := by
        rw [List.find?_eq_none,← here]
        intro q member same
        exact fresh q member (of_decide_eq_true same)
      rw [if_pos own,before,Option.none_or,List.find?_singleton,here,decide_eq_true rfl]
      rfl
    · have apart : p.va ≠ alignDown va := by
        intro here
        simp only [alignDown,pageSize] at *
        omega
      rw [if_neg own,List.find?_singleton,decide_eq_false apart]
      simp
  · exact fun f held => ⟨pagingMapUserPageIn_taken mapped held,remaps.roles f held,remaps.contents f held⟩

theorem mapPages_exact {pages : List LoadPage} (exact : Exact role vm pd done) (distinct : ((done ++ pages).map LoadPage.va).Nodup)
    (ready : ∀ p ∈ pages, isFree vm.pages (p.page / pageSize) = false ∧ role (p.page / pageSize) = .data ∧ p.page < 2^32)
    (mapped : mapPages pd vm pages = (vm',true)) : ∃ role', Exact role' vm' pd (done ++ pages) ∧
      ∀ f, isFree vm.pages f = false → role f = .data → vm'.mem f = vm.mem f := by
  induction pages generalizing role vm done with
  | nil =>
    cases mapped
    rw [List.append_nil]
    exact ⟨role,exact,fun _ _ _ => rfl⟩
  | cons p rest ih =>
    unfold mapPages at mapped
    cases first : pagingMapUserPageIn vm pd p.va p.page (BitVec.ofNat 64 p.flags) with
    | none => simp [first] at mapped
    | some next =>
      simp only [first] at mapped
      obtain ⟨used,data,small⟩ := ready p List.mem_cons_self
      have fresh : ∀ q ∈ done, q.va ≠ p.va := by
        rw [List.map_append,List.nodup_append] at distinct
        intro q member
        exact distinct.2.2 q.va (List.mem_map_of_mem member) p.va (by simp)
      obtain ⟨role',exact',frame⟩ := exact.map fresh used data small first
      have split : done ++ p::rest = done ++ [p] ++ rest := by simp
      rw [split] at distinct ⊢
      obtain ⟨role'',last,contents⟩ := ih exact' distinct (fun q member => by
        obtain ⟨used,data,small⟩ := ready q (List.mem_cons_of_mem p member)
        exact ⟨(frame _ used).1,(frame _ used).2.1.trans data,small⟩) mapped
      refine ⟨role'',last,?_⟩
      intro f held ordinary
      obtain ⟨still,same,stays⟩ := frame f held
      exact (contents f still (same.trans ordinary)).trans (stays ordinary)

end Map

/-- What the finished address space shows of the pages that `Filled` took. -/
structure Shows (vm vm' : Vm) (pd : Nat) (pages : List LoadPage) : Prop where
  lookup : ∀ va, pagingGetUserPage vm' pd va =
    if va < userLimit then (pages.find? fun p => decide (p.va = alignDown va)).map LoadPage.leaf else none
  contents : ∀ p ∈ pages, vm'.mem (p.page / pageSize) = vm.mem (p.page / pageSize)

theorem Filled.shows {vm vm₁ vm₂ vm₃ : Vm} {pages : List LoadPage} {pd : Nat} (filled : Filled vm pages vm₁)
    (created : pagingCreateAddressSpace vm₁ = some (vm₂,pd)) (mapped : mapPages pd vm₂ pages = (vm₃,true)) :
    Shows vm₁ vm₃ pd pages := by
  have placed := filled.placed
  have nothing : Kept (fun _ => .data) vm₁.pages := fun _ structural => absurd rfl structural
  obtain ⟨role,founded⟩ := pagingCreateAddressSpace_space nothing created
  have empty : Exact role vm₂ pd [] := ⟨founded.kept,founded.space,fun va inside => founded.unmapped va inside⟩
  obtain ⟨role',exact,contents⟩ := mapPages_exact empty filled.sited.vas (fun p member => by
    obtain ⟨_,used,small⟩ := placed.frames p member
    obtain ⟨used',_,data⟩ := founded.frames _ used
    exact ⟨used',data,small⟩) mapped
  refine ⟨?_,?_⟩
  · intro va
    by_cases inside : va < userLimit
    · rw [if_pos inside,pagingGetUserPage_mapping _ inside founded.root,exact.mapping va inside]
      rfl
    · rw [if_neg inside]
      exact pagingGetUserPage_outside vm₃ (.inr (by omega))
  · intro p member
    obtain ⟨_,used,_⟩ := placed.frames p member
    obtain ⟨used',same,data⟩ := founded.frames _ used
    exact (contents _ used' data).trans same

/-! ### The whole of `load_image` -/

/-- The pages of an image with their contents, before they are mapped. -/
structure Composed (image name : List Byte) (pages : List LoadPage) (m : Mem) (stack : Nat) : Prop where
  visited : ∀ va, (∃ p ∈ pages, p.va = va) ↔ va ∈ (loaded image).flatMap segmentPages ∨ va = userStackPage
  bytes : ∀ va value, alignDown va ≠ userStackPage → view pages m va = some value → value = imageByte image va
  flags : ∀ p ∈ pages, p.va ≠ userStackPage →
    p.va ∈ writablePages (loaded image) ∧ p.flags = 3 ∨ p.va ∉ writablePages (loaded image) ∧ p.flags = 1
  stack : ∃ sp before, (⟨userStackPage,sp,3⟩ : LoadPage) ∈ pages ∧ StackBuilt before m sp name stack

theorem elf32Validate_inside {image : List Byte} {entry : Nat} (valid : elf32Validate image = some entry) :
    ∀ p ∈ phdrs image, p.type = ptLoad → segmentValid image.length p = true := by
  unfold elf32Validate at valid
  dsimp only at valid
  intro p member type
  by_contra bad
  have some : ((phdrs image).filter fun p => decide (p.type = ptLoad)).all (segmentValid image.length) = false := by
    rw [List.all_eq_false]
    exact ⟨p,List.mem_filter.mpr ⟨member,decide_eq_true type⟩,bad⟩
  rw [some] at valid
  simp at valid

theorem segmentValid_bounds {size : Nat} {p : Phdr} (valid : segmentValid size p = true) :
    p.filesz ≤ p.memsz ∧ p.offset + p.filesz ≤ size ∧ userBase ≤ p.vaddr ∧ p.vaddr + p.memsz ≤ userLimit := by
  simp only [segmentValid,rangeOk,Bool.and_eq_true,decide_eq_true_eq] at valid
  omega

theorem execValidateImage_elf {image : List Byte} {entry : Nat} (valid : execValidateImage image = some entry) :
    elf32Validate image = some entry := by
  unfold execValidateImage at valid
  cases checked : elf32Validate image with
  | none => simp [checked] at valid
  | some start =>
    simp only [checked] at valid
    split_ifs at valid
    exact valid

section Compose
variable {vm vm₁ : Vm} {image name : List Byte} {l : Loading} {mem m : Mem} {entry sp stack : Nat} {frames : Allocator}

/-- The two loops leave in the pages of the image the bytes of its segments. -/
theorem copied_bytes (valid : elf32Validate image = some entry) (cleared : Cleared vm l seen writes)
    (copied : copySegments image l.pages l.vm.mem
      ((phdrs image).filter fun p => decide (p.type = ptLoad) && decide (p.filesz ≠ 0)) = (mem,true))
    {va : Nat} {value : Byte} (shown : view l.pages mem va = some value) : value = imageByte image va := by
  have sited := cleared.filled.sited
  have inside : ∀ p ∈ (phdrs image).filter fun p => decide (p.type = ptLoad) && decide (p.filesz ≠ 0),
      p.type = ptLoad ∧ p.offset + p.filesz ≤ image.length := by
    intro p member
    obtain ⟨header,test⟩ := List.mem_filter.mp member
    rw [Bool.and_eq_true,decide_eq_true_eq] at test
    exact ⟨test.1,(segmentValid_bounds (elf32Validate_inside valid p header test.1)).2.1⟩
  have covering : ((phdrs image).filter fun p => decide (p.type = ptLoad) && decide (p.filesz ≠ 0)).filter
      (fun p => p.covers va) = (phdrs image).filter fun p => p.covers va := by
    rw [List.filter_filter]
    apply List.filter_congr
    intro p _
    by_cases covered : p.covers va = true
    · have parts := covered
      simp only [Phdr.covers,Bool.and_eq_true,decide_eq_true_eq] at parts
      have nonempty : p.filesz ≠ 0 := by omega
      simp [covered,parts.1.1,nonempty]
    · rw [Bool.not_eq_true] at covered
      rw [covered,Bool.false_and]
  rw [copySegments_view sited inside copied va,covering] at shown
  unfold imageByte
  cases last : ((phdrs image).filter fun p => p.covers va).getLast? with
  | some p =>
    rw [last] at shown
    exact (Option.some.inj shown).symm
  | none =>
    rw [last] at shown
    unfold view at shown
    cases found : l.pages.find? (fun p => decide (p.va = alignDown va)) with
    | none => simp [found] at shown
    | some p =>
      rw [found] at shown
      obtain ⟨member,_⟩ := find_va found
      have aligned := sited.aligned p member
      have frame : (p.page + va % pageSize) / 4096 = p.page / pageSize := by
        simp only [pageSize] at *
        omega
      have stored : readByte l.vm.mem (p.page + va % pageSize) = value := Option.some.inj shown
      rw [readByte,frame,cleared.zero p member] at stored
      have zero (offset : Nat) : byteOf zeroPage offset = 0 := by simp [byteOf,zeroPage]
      exact stored.symm.trans (zero _)

/-- The frame of the stack holds no byte of the image. -/
theorem Filled.view_stack {pages : List LoadPage} (filled : Filled vm (pages ++ [⟨userStackPage,sp,3⟩]) vm₁)
    (others : ∀ f, f ≠ sp / pageSize → m f = mem f) {va : Nat} (image : alignDown va ≠ userStackPage) :
    view (pages ++ [⟨userStackPage,sp,3⟩]) m va = view pages mem va := by
  have sited := filled.sited
  unfold view
  rw [List.find?_append,List.find?_singleton,decide_eq_false (Ne.symm image)]
  cases found : pages.find? (fun p => decide (p.va = alignDown va)) with
  | none => rfl
  | some p =>
    obtain ⟨member,place⟩ := find_va found
    have inside : p ∈ pages ++ [⟨userStackPage,sp,3⟩] := List.mem_append_left _ member
    have last : (⟨userStackPage,sp,3⟩ : LoadPage) ∈ pages ++ [⟨userStackPage,sp,3⟩] := by simp
    have aligned := sited.aligned p inside
    have aligned' := sited.aligned _ last
    have frame : (p.page + va % pageSize) / 4096 = p.page / pageSize := by
      simp only [pageSize] at *
      omega
    have apart : p.page / pageSize ≠ sp / pageSize := by
      intro same
      have equal : p.page = sp := by
        simp only [pageSize] at *
        omega
      have own := sited.same_page inside last equal
      rw [own] at place
      exact image place.symm
    rw [if_neg (by simp),Option.or_none,Option.map_some,Option.map_some,readByte,readByte,frame,others _ apart]

theorem composed (valid : execValidateImage image = some entry)
    (cleared : Cleared vm l {va | va ∈ (loaded image).flatMap segmentPages} (writablePages (loaded image)))
    (copied : copySegments image l.pages l.vm.mem
      ((phdrs image).filter fun p => decide (p.type = ptLoad) && decide (p.filesz ≠ 0)) = (mem,true))
    (filled : Filled vm (l.pages ++ [⟨userStackPage,sp,3⟩]) vm₁)
    (built : buildInitialStack (Function.update mem (sp / pageSize) zeroPage) sp name = some (m,stack)) :
    Composed image name (l.pages ++ [⟨userStackPage,sp,3⟩]) m stack := by
  have last : (⟨userStackPage,sp,3⟩ : LoadPage) ∈ l.pages ++ [⟨userStackPage,sp,3⟩] := by simp
  have stacked := buildInitialStack_built (filled.sited.aligned _ last) built
  refine ⟨?_,?_,?_,⟨sp,_,last,stacked⟩⟩
  · intro va
    have seen : (∃ p ∈ l.pages, p.va = va) ↔ va ∈ (loaded image).flatMap segmentPages := cleared.visited va
    rw [← seen]
    simp [or_and_right,exists_or,eq_comm]
  · intro va value other shown
    rw [filled.view_stack (fun f apart => (stacked.others f apart).trans (Function.update_of_ne apart _ _)) other] at shown
    exact copied_bytes (execValidateImage_elf valid) cleared copied shown
  · intro p member other
    rcases List.mem_append.mp member with image | stack
    · exact cleared.flags p image
    · rw [List.mem_singleton.mp stack] at other
      exact absurd rfl other

theorem loadImage_composed {ram : RamFs} {vm' : Vm} {program : Loaded} (loaded : loadImage vm ram name = (vm',some program)) :
    ∃ vm₁ vm₂ pages, Filled vm pages vm₁ ∧ Composed (imageOf ram name) name pages vm₁.mem program.stack ∧
      (∃ entry, execValidateImage (imageOf ram name) = some entry) ∧
      pagingCreateAddressSpace vm₁ = some (vm₂,program.pd) ∧ mapPages program.pd vm₂ pages = (vm',true) := by
  unfold loadImage at loaded
  dsimp only at loaded
  generalize imageOf ram name = image at *
  cases valid : execValidateImage image with
  | none => simp [valid] at loaded
  | some entry =>
    have start : Cleared vm ⟨vm,[]⟩ ∅ ∅ := ⟨.start,nofun,by simp,nofun,Set.Subset.refl _⟩
    simp only [valid] at loaded
    cases segments : loadSegments ⟨vm,[]⟩ (Exec.loaded image) with
    | mk l ok =>
      cases ok with
      | false => simp [segments] at loaded
      | true =>
        simp only [segments] at loaded
        have cleared := loadSegments_cleared start segments
        rw [Set.empty_union,Set.empty_union] at cleared
        have copies := copySegments_filled cleared.filled image
          ((phdrs image).filter fun p => decide (p.type = ptLoad) && decide (p.filesz ≠ 0))
        cases copied : copySegments image l.pages l.vm.mem
          ((phdrs image).filter fun p => decide (p.type = ptLoad) && decide (p.filesz ≠ 0)) with
        | mk mem complete =>
          cases complete with
          | false =>
            simp only [copied] at loaded
            cases (Prod.mk.inj loaded).2
          | true =>
            simp only [copied] at loaded copies
            by_cases full : l.pages.length ≥ maxExecPages
            · simp [full] at loaded
            rw [if_neg full] at loaded
            cases allocated : pageAlloc l.vm.pages with
            | none => simp [allocated] at loaded
            | some block =>
              obtain ⟨frames,sp⟩ := block
              simp only [allocated] at loaded
              have fresh : ∀ p ∈ l.pages, p.va ≠ userStackPage := by
                intro p inside same
                have seen : p.va ∈ (Exec.loaded image).flatMap segmentPages := (cleared.visited p.va).mp ⟨p,inside,rfl⟩
                exact execValidateImage_stack valid (same ▸ seen)
              have stacked : Filled vm (l.pages ++ [⟨userStackPage,sp,3⟩]) _ := copies.taken fresh allocated (by decide)
              have last : (⟨userStackPage,sp,3⟩ : LoadPage) ∈ l.pages ++ [⟨userStackPage,sp,3⟩] := by simp
              cases built : buildInitialStack (Function.update mem (sp / pageSize) zeroPage) sp name with
              | none => simp [built] at loaded
              | some top =>
                obtain ⟨m,stack⟩ := top
                simp only [built] at loaded
                have ready := buildInitialStack_filled stacked last built
                cases created : pagingCreateAddressSpace {l.vm with mem := m, pages := frames} with
                | none => simp [created] at loaded
                | some space =>
                  obtain ⟨vm₂,pd⟩ := space
                  simp only [created] at loaded
                  cases mapped : mapPages pd vm₂ (l.pages ++ [⟨userStackPage,sp,3⟩]) with
                  | mk vm₃ all =>
                    cases all with
                    | false => simp [mapped] at loaded
                    | true =>
                      simp only [mapped] at loaded
                      cases loaded
                      exact ⟨_,_,_,ready,composed valid cleared copied stacked built,⟨entry,rfl⟩,created,mapped⟩

end Compose

section Means
variable {image name : List Byte} {vm vm' : Vm} {pages : List LoadPage} {stack : Nat}

theorem Shows.found {pd : Nat} (shows' : Shows vm vm' pd pages) {va page : Nat} {flags : Word}
    (mapped : pagingGetUserPage vm' pd va = some (page,flags)) : va < userLimit ∧ ∃ p ∈ pages, p.va = alignDown va ∧
      pages.find? (fun p => decide (p.va = alignDown va)) = some p ∧ p.leaf = (page,flags) := by
  rw [shows'.lookup va] at mapped
  by_cases inside : va < userLimit
  · rw [if_pos inside] at mapped
    cases found : pages.find? (fun p => decide (p.va = alignDown va)) with
    | none => simp [found] at mapped
    | some p =>
      rw [found] at mapped
      obtain ⟨member,place⟩ := find_va found
      exact ⟨inside,p,member,place,rfl,Option.some.inj mapped⟩
  · rw [if_neg inside] at mapped
    cases mapped

theorem meets_page {p : Phdr} {va : Nat} : p.Meets va ↔ pageOf va ∈ segmentPages p := by
  rw [segmentPages_mem,Phdr.Meets]
  have aligned : pageOf va % pageSize = 0 := Nat.mul_mod_left _ _
  tauto

theorem Composed.pages_iff (composed : Composed image name pages vm.mem stack) (va : Nat) :
    (∃ p ∈ pages, p.va = alignDown va) ↔ (∃ p ∈ loaded image, p.Meets va) ∨ pageOf va = userStackPage := by
  have same : alignDown va = pageOf va := rfl
  rw [composed.visited,same,List.mem_flatMap]
  simp only [meets_page]

theorem stack_page : alignDown userStackPage = userStackPage := rfl

theorem Composed.means (composed : Composed image name pages vm.mem stack) (sited : Sited pages)
    (inside : ∀ p ∈ loaded image, p.vaddr + p.memsz ≤ userLimit) {program : Loaded} (same : program.stack = stack)
    (shows' : Shows vm vm' program.pd pages) : Means image name vm' program := by
  have contents {p : LoadPage} (member : p ∈ pages) {offset : Nat} (low : offset < pageSize) :
      readByte vm'.mem (p.page + offset) = readByte vm.mem (p.page + offset) := by
    have aligned := sited.aligned p member
    have frame : (p.page + offset) / 4096 = p.page / pageSize := by
      simp only [pageSize] at *
      omega
    rw [readByte,readByte,frame,shows'.contents p member]
  obtain ⟨sp,before,last,built⟩ := composed.stack
  have top : pagingGetUserPage vm' program.pd userStackPage = some (LoadPage.leaf ⟨userStackPage,sp,3⟩) := by
    rw [shows'.lookup,if_pos (by decide),stack_page,sited.find last]
    rfl
  have writable : has ((BitVec.ofNat 64 3 &&& pteFlagsMask) ||| ptePresent ||| pteUser) pteWritable = true := by decide
  refine ⟨?_,?_,?_,⟨_,_,top,writable⟩,?_⟩
  · intro va
    rw [← composed.pages_iff va,shows'.lookup va]
    by_cases low : va < userLimit
    · simp [low]
    · rw [if_neg low]
      refine ⟨by simp,?_⟩
      rintro ⟨p,member,place⟩
      exfalso
      rcases (composed.pages_iff va).mp ⟨p,member,place⟩ with ⟨segment,own,meets⟩ | stack
      · have high := inside segment own
        have page := meets.2
        simp only [pageOf,pageSize,userLimit] at *
        omega
      · simp only [pageOf,pageSize,userLimit,userStackPage] at *
        omega
  · intro va page flags mapped other
    obtain ⟨_,p,member,_,found,leaf⟩ := shows'.found mapped
    rw [LoadPage.leaf,Prod.mk.injEq] at leaf
    obtain ⟨rfl,_⟩ := leaf
    rw [contents member (Nat.mod_lt _ (by decide))]
    refine composed.bytes va _ other ?_
    rw [view,found]
    rfl
  · intro va page flags mapped other
    obtain ⟨_,p,member,place,_,leaf⟩ := shows'.found mapped
    rw [LoadPage.leaf,Prod.mk.injEq] at leaf
    obtain ⟨_,rfl⟩ := leaf
    have writes : p.va ∈ writablePages (loaded image) ↔ ∃ p ∈ loaded image, p.Meets va ∧ p.flags / 2 % 2 = 1 := by
      have page : alignDown va = pageOf va := rfl
      rw [place,page]
      simp only [writablePages,Set.mem_ofPred_eq,meets_page]
    rw [← writes]
    rcases composed.flags p member (place ▸ other) with ⟨member,three⟩ | ⟨absent,one⟩
    · rw [three]
      exact iff_of_true (by decide) member
    · rw [one]
      exact iff_of_false (by decide) absent
  · have word (n offset : Nat) (high : offset + 4 ≤ pageSize)
        (stored : ∀ i < 4, readByte vm.mem (sp + (offset + i)) = (bytes32 n).getD i 0) :
        userBytes vm' program.pd (userStackPage + offset) 4 = (bytes32 n).map some := by
      have length : (bytes32 n).length = 4 := rfl
      rw [← length]
      refine userBytes_stack top (by rw [length]; exact high) ?_
      intro i bound
      rw [length] at bound
      rw [contents last (by omega),stored i bound]
    have short := built.short
    have argc : userStackTop - 20 = userStackPage + (pageSize - 20) := rfl
    have argv : userStackTop - 20 + 8 = userStackPage + (pageSize - 12) := rfl
    have null : userStackTop - 20 + 12 = userStackPage + (pageSize - 8) := rfl
    have string : userStackTop - 20 - name.length - 1 = userStackPage + (pageSize - 20 - name.length - 1) := by
      simp only [userStackTop,userStackPage,pageSize]
      omega
    have length : (name ++ [0]).length = name.length + 1 := by simp
    rw [same,built.pointer,argv,null]
    refine ⟨userStackTop - 20 - name.length - 1,?_,word _ _ (by decide) built.argv,word _ _ (by decide) built.null,?_⟩
    · rw [argc]
      exact word _ _ (by decide) built.argc
    rw [string,← length]
    refine userBytes_stack top ?_ ?_
    · rw [length]
      simp only [pageSize]
      omega
    · intro i bound
      rw [length] at bound
      have low : pageSize - 20 - name.length - 1 + i < pageSize := by
        simp only [pageSize]
        omega
      rw [contents last low,built.string i bound]

end Means

theorem loadImage_means {vm vm' : Vm} {ram : RamFs} {name : List Byte} {program : Loaded}
    (loaded : loadImage vm ram name = (vm',some program)) : Means (imageOf ram name) name vm' program := by
  obtain ⟨vm₁,vm₂,pages,filled,composed,⟨entry,valid⟩,created,mapped⟩ := loadImage_composed loaded
  refine composed.means filled.sited ?_ rfl (filled.shows created mapped)
  intro p member
  obtain ⟨header,test⟩ := List.mem_filter.mp member
  rw [Bool.and_eq_true,decide_eq_true_eq] at test
  exact (segmentValid_bounds (elf32Validate_inside (execValidateImage_elf valid) p header test.1)).2.2.2

/-- An image with two segments that share a page; the second one may write to it. -/
def sharedImage : List Byte :=
  [0x7F,0x45,0x4C,0x46,1,1,1,0,0,0,0,0,0,0,0,0] ++
    ([0x30002,1,userBase,52,0,0,0x200034,2,0].flatMap bytes32 ++ [1,0,userBase+0x100,0,8,0x1000,5,0].flatMap bytes32 ++
      [1,4,userBase+0x104,0,2,16,6,0].flatMap bytes32)

def sharedFile : RamFs where
  programs := fun _ => []
  files := fun _ => ⟨[0x74],fun i => sharedImage.getD i 0,sharedImage.length⟩
  count := 1

theorem sharedImage_means : ∃ program, (loadImage blank.vm sharedFile [0x74]).2 = some program ∧
    Means (imageOf sharedFile [0x74]) [0x74] (loadImage blank.vm sharedFile [0x74]).1 program := by
  have loads : (loadImage blank.vm sharedFile [0x74]).2.isSome = true := by decide +kernel
  cases load : loadImage blank.vm sharedFile [0x74] with
  | mk vm result =>
    rw [load] at loads
    obtain ⟨program,rfl⟩ := Option.isSome_iff_exists.mp loads
    exact ⟨program,rfl,loadImage_means load⟩

end LionOS.Exec

import LionOS.Sharing.Meaning

/-! The checks of ELF images and the loader once more, with every access to the image, every
32-bit sum and every array index tested: no test ever fails. -/
namespace LionOS.Exec
open LionOS.Memory LionOS.Physical LionOS.Paging LionOS.Processes LionOS.Files LionOS.Calls

/-- What can go wrong: a read outside the image, a 32-bit value that wraps, a page outside
the user addresses or at the stack, an index outside the page arrays. -/
inductive Fault where
  | read
  | wrapped
  | address
  | stack
  | index
  deriving DecidableEq

abbrev Checked := Except Fault

def guard (fault : Fault) (ok : Bool) : Checked Unit := if ok then pure () else throw fault

def add32 (a b : Nat) : Checked Nat := if a + b < 2^32 then pure (a + b) else throw .wrapped
def sub32 (a b : Nat) : Checked Nat := if b ≤ a then pure (a - b) else throw .wrapped
def mul32 (a b : Nat) : Checked Nat := if a * b < 2^32 then pure (a * b) else throw .wrapped

section Image
variable (image : Nat → Byte) (size : Nat)

def load8 (i : Nat) : Checked Nat := if i < size then pure (image i).toNat else throw .read

def load16 (i : Nat) : Checked Nat := do
  let low ← load8 image size i
  let high ← load8 image size (← add32 i 1)
  pure (low + 2^8 * high)

def load32 (i : Nat) : Checked Nat := do
  let low ← load16 image size i
  let high ← load16 image size (← add32 i 2)
  pure (low + 2^16 * high)

/-- The fields of the header that are used, all of them read at once. -/
def headerChecked : Checked Header := do
  pure ⟨← load16 image size 16,← load16 image size 18,← load32 image size 20,← load32 image size 24,
    ← load32 image size 28,← load16 image size 40,← load16 image size 42,← load16 image size 44⟩

def phdrChecked (h : Header) (i : Nat) : Checked Phdr := do
  let at' ← add32 h.phoff (← mul32 i h.phentsize)
  pure ⟨← load32 image size at',← load32 image size (← add32 at' 4),← load32 image size (← add32 at' 8),
    ← load32 image size (← add32 at' 16),← load32 image size (← add32 at' 20),← load32 image size (← add32 at' 24)⟩

/-- A loop over the program headers, left where a round gives `false`. -/
def forHeaders {σ : Type} (h : Header) (round : σ → Phdr → Checked (σ × Bool)) : List Nat → σ → Checked (σ × Bool)
  | [], s => pure (s,true)
  | i::rest, s => do
    let p ← phdrChecked image size h i
    match ← round s p with
    | (s,false) => pure (s,false)
    | (s,true) => forHeaders h round rest s

def rangeOkChecked (offset length : Nat) : Checked Bool :=
  if offset ≤ size then do
    let rest ← sub32 size offset
    pure (decide (length ≤ rest))
  else pure false

/-- The checks of one segment, which both validators make. -/
def segmentChecked (p : Phdr) : Checked Bool := do
  if p.memsz < p.filesz then pure false
  else if !(← rangeOkChecked size p.offset p.filesz) then pure false
  else if p.vaddr < userBase ∨ p.vaddr ≥ userLimit then pure false
  else if p.memsz > (← sub32 userLimit p.vaddr) then pure false
  else pure (decide (p.flags % 8 ≠ 0))

/-- A round of the loop of `elf32_validate`, with the number of segments to load. -/
def elfRound (count : Nat) (p : Phdr) : Checked (Nat × Bool) :=
  if p.type ≠ ptLoad then pure (count,true)
  else do
    let ok ← segmentChecked size p
    pure (count + 1,ok)

def elf32ValidateChecked : Checked (Option Nat) :=
  if size < headerSize then pure none
  else do
    let ident ← (List.range 6).mapM (load8 image size)
    let h ← headerChecked image size
    if ident ≠ [0x7F,0x45,0x4C,0x46,1,1] then pure none
    else if h.type ≠ 2 ∨ h.machine ≠ 3 ∨ h.version ≠ 1 then pure none
    else if h.ehsize < headerSize ∨ h.phentsize < phdrSize ∨ h.phnum = 0 then pure none
    else if h.phoff > size ∨ h.phentsize > size - h.phoff ∨ h.phnum > (size - h.phoff) / h.phentsize then pure none
    else do
      let (count,ok) ← forHeaders image size h (elfRound size) (List.range h.phnum) 0
      if !ok then pure none
      else if count = 0 ∨ h.entry < userBase ∨ h.entry ≥ userLimit then pure none
      else pure (some h.entry)

/-- `align_up`; `none` is its result -1. -/
def alignUpChecked (x : Nat) : Checked (Option Nat) :=
  if x > 0xFFFFFFFF - (pageSize - 1) then pure none
  else do
    let raised ← add32 x (pageSize - 1)
    pure (some (alignDown raised))

/-- A round of the loop of `exec_validate_image`. -/
def execRound (count : Nat) (p : Phdr) : Checked (Nat × Bool) :=
  if p.type ≠ ptLoad ∨ p.memsz = 0 then pure (count,true)
  else do
    if !(← segmentChecked size p) then pure (count + 1,false)
    else match ← alignUpChecked (← add32 p.vaddr p.memsz) with
      | none => pure (count + 1,false)
      | some last =>
        let first := alignDown p.vaddr
        let length ← sub32 last first
        pure (count + 1,decide (length / pageSize ≤ maxExecPages) &&
          !(decide (first ≤ userStackPage) && decide (userStackPage < last)))

def execValidateImageChecked : Checked (Option Nat) := do
  match ← elf32ValidateChecked image size with
  | none => pure none
  | some entry =>
    let h ← headerChecked image size
    let (count,ok) ← forHeaders image size h (execRound size) (List.range h.phnum) 0
    if !ok || count = 0 || entry < userBase || entry ≥ userLimit then pure none
    else pure (some entry)

/-! ### The loader -/

/-- The arrays `vas`, `pages` and `flags` up to their first `pages.length` entries. -/
def indexed (pages : List LoadPage) : Checked Unit := guard .index (decide (pages.length ≤ maxExecPages))

/-- A page address that the loader computes. -/
def addressed (va : Nat) : Checked Unit := do
  guard .address (decide (userBase ≤ va) && decide (va < userLimit))
  guard .stack (decide (va ≠ userStackPage))

def loadPageChecked (l : Loading) (va : Nat) (writable : Bool) : Checked (Loading × Bool) := do
  addressed va
  indexed l.pages
  match findPage l.pages va with
  | some i =>
    guard .index (decide (i < maxExecPages))
    pure ({l with pages := setFlags l.pages i writable},true)
  | none =>
    if l.pages.length ≥ maxExecPages then pure (l,false)
    else do
      indexed (l.pages ++ [⟨va,0,0⟩])
      match pageAlloc l.vm.pages with
      | none => pure ({l with pages := l.pages ++ [⟨va,0,0⟩]},false)
      | some (pages,page) =>
        let vm := {l.vm with pages,mem := Function.update l.vm.mem (page / pageSize) zeroPage}
        pure (⟨vm,setFlags (l.pages ++ [⟨va,page,1⟩]) l.pages.length writable⟩,true)

/-- The loop over the pages of a segment, of which `count` are left from `va` on. -/
def loadPagesChecked (writable : Bool) : Nat → Nat → Loading → Checked (Loading × Bool)
  | 0, _, l => pure (l,true)
  | count+1, va, l => do
    match ← loadPageChecked l va writable with
    | (l,false) => pure (l,false)
    | (l,true) => loadPagesChecked writable count (← add32 va pageSize) l

def loadRound (l : Loading) (p : Phdr) : Checked (Loading × Bool) :=
  if p.type ≠ ptLoad ∨ p.memsz = 0 then pure (l,true)
  else do
    match ← alignUpChecked (← add32 p.vaddr p.memsz) with
    | none => pure (l,false)
    | some last =>
      let first := alignDown p.vaddr
      let length ← sub32 last first
      loadPagesChecked (decide (p.flags / 2 % 2 = 1)) (length / pageSize) first l

/-- The copy of the bytes `n` to `n + count` of a segment. -/
def copyBytesChecked (pages : List LoadPage) (p : Phdr) : Nat → Nat → Mem → Checked (Mem × Bool)
  | 0, _, m => pure (m,true)
  | count+1, n, m => do
    let va ← add32 p.vaddr n
    addressed (alignDown va)
    indexed pages
    match findPage pages (alignDown va) with
    | none => pure (m,false)
    | some i =>
      guard .index (decide (i < maxExecPages))
      let value ← load8 image size (← add32 p.offset n)
      copyBytesChecked pages p count (n + 1)
        (writeByte m ((pages.map LoadPage.page).getD i 0 + va % pageSize) (BitVec.ofNat 8 value))

def copyRound (pages : List LoadPage) (m : Mem) (p : Phdr) : Checked (Mem × Bool) :=
  if p.type ≠ ptLoad ∨ p.filesz = 0 then pure (m,true) else copyBytesChecked image size pages p p.filesz 0 m

end Image

/-- The addresses of `build_initial_stack` and the places of its stores in the page. -/
def buildInitialStackChecked (m : Mem) (page : Nat) (name : List Byte) : Checked (Option (Mem × Nat)) :=
  if name.length > 32 then pure none
  else do
    let stringVa ← sub32 (← sub32 (← sub32 userStackTop 20) name.length) 1
    let string ← sub32 stringVa userStackPage
    let argv ← sub32 (← sub32 userStackTop 12) userStackPage
    let argc ← sub32 (← sub32 userStackTop 20) userStackPage
    guard .address (decide (string + name.length < pageSize) && decide (argv + 8 ≤ pageSize) && decide (argc + 4 ≤ pageSize))
    pure (buildInitialStack m page name)

def loadFailChecked (vm : Vm) (pages : List LoadPage) : Checked (Vm × Option Loaded) := do
  indexed pages
  pure (loadFail vm pages,none)

def loadImageChecked (vm : Vm) (r : RamFs) (name : List Byte) : Checked (Vm × Option Loaded) :=
  match ramfsData r name with
  | none => pure (vm,none)
  | some image =>
    let size := ramfsSize r name
    if size = 0 then pure (vm,none)
    else do
      match ← execValidateImageChecked image size with
      | none => pure (vm,none)
      | some entry =>
        let h ← headerChecked image size
        match ← forHeaders image size h loadRound (List.range h.phnum) ⟨vm,[]⟩ with
        | (l,false) => loadFailChecked l.vm l.pages
        | (l,true) => match ← forHeaders image size h (copyRound image size l.pages) (List.range h.phnum) l.vm.mem with
          | (mem,false) => loadFailChecked {l.vm with mem} l.pages
          | (mem,true) =>
            let vm := {l.vm with mem}
            if l.pages.length ≥ maxExecPages then loadFailChecked vm l.pages
            else match pageAlloc vm.pages with
              | none => loadFailChecked vm l.pages
              | some (frames,sp) => do
                let pages := l.pages ++ [⟨userStackPage,sp,3⟩]
                indexed pages
                let vm := {vm with pages := frames,mem := Function.update vm.mem (sp / pageSize) zeroPage}
                match ← buildInitialStackChecked vm.mem sp name with
                | none => loadFailChecked vm pages
                | some (mem,stack) => match pagingCreateAddressSpace {vm with mem} with
                  | none => loadFailChecked {vm with mem} pages
                  | some (vm,pd) => match mapPages pd vm pages with
                    | (vm,false) => loadFailChecked (pagingDestroyAddressSpace vm pd) pages
                    | (vm,true) => pure (vm,some ⟨entry,stack,pd,pages⟩)

/-! ### The tests hold -/

/-- The first `size` bytes of an image. -/
def fileBytes (image : Nat → Byte) (size : Nat) : List Byte := (List.range size).map image

theorem fileBytes_length (image : Nat → Byte) (size : Nat) : (fileBytes image size).length = size := by simp [fileBytes]

theorem add32_small {a b : Nat} (small : a + b < 2^32) : add32 a b = pure (a + b) := if_pos small

theorem sub32_below {a b : Nat} (below : b ≤ a) : sub32 a b = pure (a - b) := if_pos below

theorem mul32_small {a b : Nat} (small : a * b < 2^32) : mul32 a b = pure (a * b) := if_pos small

theorem guard_true (fault : Fault) : guard fault true = pure () := rfl

/-- A loop without tests over the program headers. -/
def rounds {σ : Type} (round : σ → Phdr → σ × Bool) : List Phdr → σ → σ × Bool
  | [], s => (s,true)
  | p::rest, s => match round s p with
    | (s,false) => (s,false)
    | (s,true) => rounds round rest s

section Reads
variable {image : Nat → Byte} {size : Nat}

theorem byteAt_file {i : Nat} (inside : i < size) : byteAt (fileBytes image size) i = (image i).toNat := by
  rw [byteAt,List.getD_eq_getElem _ _ (by rw [fileBytes_length]; exact inside)]
  simp only [fileBytes,List.getElem_map,List.getElem_range]

theorem load8_inside {i : Nat} (inside : i < size) : load8 image size i = pure (byteAt (fileBytes image size) i) := by
  rw [byteAt_file inside]
  exact if_pos inside

variable (small : size < 2^32)
include small

theorem load16_inside {i : Nat} (inside : i + 1 < size) : load16 image size i = pure (u16 (fileBytes image size) i) := by
  rw [load16,load8_inside (by omega),pure_bind,add32_small (by omega),pure_bind,load8_inside inside,pure_bind]
  rfl

theorem load32_inside {i : Nat} (inside : i + 3 < size) : load32 image size i = pure (u32 (fileBytes image size) i) := by
  rw [load32,load16_inside small (by omega),pure_bind,add32_small (by omega),pure_bind,load16_inside small (by omega),
    pure_bind]
  rfl

theorem headerChecked_inside (inside : headerSize ≤ size) : headerChecked image size = pure (header (fileBytes image size)) := by
  have bound : 52 ≤ size := inside
  unfold headerChecked
  simp only [load16_inside small (show 16 + 1 < size by omega),load16_inside small (show 18 + 1 < size by omega),
    load32_inside small (show 20 + 3 < size by omega),load32_inside small (show 24 + 3 < size by omega),
    load32_inside small (show 28 + 3 < size by omega),load16_inside small (show 40 + 1 < size by omega),
    load16_inside small (show 42 + 1 < size by omega),load16_inside small (show 44 + 1 < size by omega),pure_bind]
  rfl

end Reads

/-- The program headers lie inside the image, as both validators check first. -/
structure Tabled (size : Nat) (h : Header) : Prop where
  entry : phdrSize ≤ h.phentsize
  start : h.phoff ≤ size
  whole : h.phnum ≤ (size - h.phoff) / h.phentsize

section Headers
variable {image : Nat → Byte} {size : Nat} (small : size < 2^32)

theorem Tabled.inside {h : Header} (tabled : Tabled size h) {i : Nat} (bound : i < h.phnum) :
    h.phoff + i * h.phentsize + phdrSize ≤ size := by
  obtain ⟨entry,start,whole⟩ := tabled
  have all : h.phnum * h.phentsize ≤ size - h.phoff :=
    (Nat.mul_le_mul_right _ whole).trans (Nat.div_mul_le_self _ _)
  have next : (i + 1) * h.phentsize ≤ h.phnum * h.phentsize := Nat.mul_le_mul_right _ bound
  rw [Nat.add_mul,Nat.one_mul] at next
  omega

include small in
theorem phdrChecked_inside (tabled : Tabled size (header (fileBytes image size))) {i : Nat}
    (bound : i < (header (fileBytes image size)).phnum) :
    phdrChecked image size (header (fileBytes image size)) i = pure (phdr (fileBytes image size) i) := by
  have inside := tabled.inside bound
  unfold phdr
  unfold phdrChecked
  generalize header (fileBytes image size) = h at *
  rw [phdrSize] at inside
  dsimp only
  rw [mul32_small (by omega),pure_bind,add32_small (by omega),pure_bind]
  generalize h.phoff + i * h.phentsize = place at *
  simp only [add32_small (show place + 4 < 2^32 by omega),add32_small (show place + 8 < 2^32 by omega),
    add32_small (show place + 16 < 2^32 by omega),add32_small (show place + 20 < 2^32 by omega),
    add32_small (show place + 24 < 2^32 by omega),load32_inside small (show place + 3 < size by omega),
    load32_inside small (show place + 4 + 3 < size by omega),load32_inside small (show place + 8 + 3 < size by omega),
    load32_inside small (show place + 16 + 3 < size by omega),load32_inside small (show place + 20 + 3 < size by omega),
    load32_inside small (show place + 24 + 3 < size by omega),pure_bind]

include small in
/-- A loop whose rounds pass their tests passes all of them. -/
theorem forHeaders_inside {σ : Type} {round : σ → Phdr → Checked (σ × Bool)} {plain : σ → Phdr → σ × Bool}
    (Good : σ → Prop) {indices : List Nat} {s : σ} (tabled : Tabled size (header (fileBytes image size)))
    (bound : ∀ i ∈ indices, i < (header (fileBytes image size)).phnum)
    (step : ∀ i ∈ indices, ∀ s, Good s → round s (phdr (fileBytes image size) i) = pure (plain s (phdr (fileBytes image size) i)) ∧
      Good (plain s (phdr (fileBytes image size) i)).1) (good : Good s) :
    forHeaders image size (header (fileBytes image size)) round indices s =
      pure (rounds plain (indices.map (phdr (fileBytes image size))) s) ∧
      Good (rounds plain (indices.map (phdr (fileBytes image size))) s).1 := by
  induction indices generalizing s with
  | nil => exact ⟨rfl,good⟩
  | cons i rest ih =>
    obtain ⟨here,next⟩ := step i List.mem_cons_self s good
    have header := phdrChecked_inside small tabled (bound i List.mem_cons_self)
    rw [forHeaders,header,pure_bind,here,pure_bind,List.map_cons,rounds]
    cases result : plain s (phdr (fileBytes image size) i) with
    | mk s' ok =>
      rw [result] at next
      cases ok with
      | false => exact ⟨rfl,next⟩
      | true =>
        exact ih (fun j member => bound j (List.mem_cons_of_mem i member))
          (fun j member => step j (List.mem_cons_of_mem i member)) next

end Headers

section Validators
variable {image : Nat → Byte} {size : Nat}

theorem segmentChecked_valid (size : Nat) (p : Phdr) : segmentChecked size p = pure (segmentValid size p) := by
  have range : rangeOkChecked size p.offset p.filesz = pure (rangeOk p.offset p.filesz size) := by
    unfold rangeOkChecked rangeOk
    by_cases low : p.offset ≤ size
    · rw [if_pos low,sub32_below low,pure_bind,decide_eq_true low,Bool.true_and]
    · rw [if_neg low,decide_eq_false low,Bool.false_and]
  unfold segmentChecked segmentValid
  rw [range,pure_bind]
  by_cases larger : p.memsz < p.filesz
  · rw [if_pos larger,decide_eq_false (by omega)]
    rfl
  rw [if_neg larger,decide_eq_true (by omega : p.filesz ≤ p.memsz),Bool.true_and]
  cases rangeOk p.offset p.filesz size with
  | false => rfl
  | true =>
    by_cases outside : p.vaddr < userBase ∨ p.vaddr ≥ userLimit
    · rw [if_neg (by simp),if_pos outside]
      rcases outside with low | high
      · rw [decide_eq_false (by omega : ¬ userBase ≤ p.vaddr)]
        rfl
      · rw [decide_eq_false (by omega : ¬ p.vaddr < userLimit),Bool.and_false]
        rfl
    · rw [if_neg (by simp),if_neg outside,sub32_below (by omega),pure_bind,decide_eq_true (by omega : userBase ≤ p.vaddr),
        decide_eq_true (by omega : p.vaddr < userLimit)]
      by_cases long : p.memsz > userLimit - p.vaddr
      · rw [if_pos long,decide_eq_false (by omega)]
        rfl
      · rw [if_neg long,decide_eq_true (by omega : p.memsz ≤ userLimit - p.vaddr)]
        rfl

/-- A round that counts the segments that are looked at and leaves at the first bad one. -/
def counted (taken ok : Phdr → Bool) (count : Nat) (p : Phdr) : Nat × Bool := if taken p then (count + 1,ok p) else (count,true)

theorem counted_rounds (taken ok : Phdr → Bool) (segments : List Phdr) (count : Nat) :
    (rounds (counted taken ok) segments count).2 = (segments.filter taken).all ok ∧
      ((rounds (counted taken ok) segments count).2 = true →
        (rounds (counted taken ok) segments count).1 = count + (segments.filter taken).length) := by
  induction segments generalizing count with
  | nil => exact ⟨rfl,fun _ => rfl⟩
  | cons p rest ih =>
    rw [rounds,counted]
    by_cases own : taken p = true
    · rw [if_pos own,List.filter_cons_of_pos own,List.all_cons,List.length_cons]
      cases ok p with
      | false => exact ⟨rfl,nofun⟩
      | true =>
        rw [Bool.true_and]
        refine ⟨(ih (count + 1)).1,fun all => ?_⟩
        rw [(ih (count + 1)).2 all]
        omega
    · rw [if_neg own,List.filter_cons_of_neg own]
      exact ih count

theorem elfRound_plain (size count : Nat) (p : Phdr) :
    elfRound size count p = pure (counted (fun p => decide (p.type = ptLoad)) (segmentValid size) count p) := by
  unfold elfRound counted
  by_cases load : p.type = ptLoad
  · rw [if_neg (not_not.mpr load),if_pos (decide_eq_true load),segmentChecked_valid,pure_bind]
  · rw [if_pos load,if_neg (by simpa using load)]

theorem alignUpChecked_small {x : Nat} (small : x ≤ userLimit) : alignUpChecked x = pure (some (alignUp x)) := by
  have bound : x ≤ 3221225472 := small
  have sum : x + (pageSize - 1) = x + pageSize - 1 := (Nat.add_sub_assoc (by decide) x).symm
  have fits : x + (pageSize - 1) < 2^32 := by
    simp only [pageSize]
    omega
  unfold alignUpChecked
  rw [if_neg (by simp only [pageSize]; omega),add32_small fits,pure_bind,sum]
  rfl

theorem alignUp_below {x : Nat} (small : x ≤ userLimit) : x ≤ alignUp x ∧ alignUp x ≤ userLimit := by
  simp only [alignUp,pageSize,userLimit] at *
  omega

theorem execRound_plain (size count : Nat) (p : Phdr) :
    execRound size count p = pure (counted (fun p => decide (p.type = ptLoad) && decide (p.memsz ≠ 0))
      (fun p => segmentValid size p && segmentFits p) count p) := by
  unfold execRound counted
  by_cases skipped : p.type ≠ ptLoad ∨ p.memsz = 0
  · rw [if_pos skipped,if_neg]
    rw [Bool.and_eq_true,decide_eq_true_eq,decide_eq_true_eq]
    omega
  rw [if_neg skipped,if_pos,segmentChecked_valid,pure_bind]
  · dsimp only
    cases valid : segmentValid size p with
    | false => rfl
    | true =>
      obtain ⟨_,_,_,high⟩ := segmentValid_bounds valid
      have sum : p.vaddr + p.memsz < 2^32 := by
        simp only [userLimit] at high
        omega
      have order : alignDown p.vaddr ≤ alignUp (p.vaddr + p.memsz) := by
        simp only [alignDown,alignUp,pageSize]
        omega
      rw [if_neg (by simp),add32_small sum,pure_bind,alignUpChecked_small high,pure_bind]
      dsimp only
      rw [sub32_below order,pure_bind]
      rfl
  · rw [Bool.and_eq_true,decide_eq_true_eq,decide_eq_true_eq]
    omega

theorem ident_checked (inside : headerSize ≤ size) : (List.range 6).mapM (load8 image size) =
    pure ((List.range 6).map (byteAt (fileBytes image size))) := by
  have bound : 52 ≤ size := inside
  have read (i : Nat) (low : i < 6) : load8 image size i = pure (byteAt (fileBytes image size) i) := load8_inside (by omega)
  rw [show List.range 6 = [0,1,2,3,4,5] by decide]
  simp only [List.mapM_cons,List.mapM_nil,read 0 (by omega),read 1 (by omega),read 2 (by omega),read 3 (by omega),
    read 4 (by omega),read 5 (by omega),pure_bind,List.map_cons,List.map_nil]

theorem ident_magic {image : List Byte} (long : 4 ≤ image.length) :
    (List.range 6).map (byteAt image) ≠ [0x7F,0x45,0x4C,0x46,1,1] ↔
      image.take 4 ≠ [0x7F,0x45,0x4C,0x46] ∨ byteAt image 4 ≠ 1 ∨ byteAt image 5 ≠ 1 := by
  have four : (List.range 4).map (byteAt image) = (image.take 4).map BitVec.toNat := by
    refine List.ext_getElem (by simp [long]) ?_
    intro i first second
    rw [List.length_map,List.length_range] at first
    rw [List.getElem_map,List.getElem_map,List.getElem_range,List.getElem_take,byteAt,List.getD_eq_getElem _ _ (by omega)]
  have split : (List.range 6).map (byteAt image) = (List.range 4).map (byteAt image) ++ [byteAt image 4,byteAt image 5] := rfl
  have magic : (List.range 4).map (byteAt image) = [0x7F,0x45,0x4C,0x46] ↔ image.take 4 = [0x7F,0x45,0x4C,0x46] := by
    rw [four,show [0x7F,0x45,0x4C,0x46] = [0x7F#8,0x45#8,0x4C#8,0x46#8].map BitVec.toNat by rfl]
    exact (List.map_injective_iff.mpr fun _ _ same => BitVec.eq_of_toNat_eq same).eq_iff
  have whole : (List.range 4).map (byteAt image) ++ [byteAt image 4,byteAt image 5] = [0x7F,0x45,0x4C,0x46] ++ [1,1] ↔
      (List.range 4).map (byteAt image) = [0x7F,0x45,0x4C,0x46] ∧ byteAt image 4 = 1 ∧ byteAt image 5 = 1 := by
    constructor
    · intro same
      obtain ⟨front,back⟩ := List.append_inj same (by simp)
      simpa [front] using back
    · rintro ⟨front,first,second⟩
      rw [front,first,second]
  have same : [0x7F,0x45,0x4C,0x46,1,1] = [0x7F,0x45,0x4C,0x46] ++ [1,1] := rfl
  rw [split,same,ne_eq,whole,magic]
  tauto

theorem elf32ValidateChecked_valid (small : size < 2^32) :
    elf32ValidateChecked image size = pure (elf32Validate (fileBytes image size)) := by
  unfold elf32ValidateChecked elf32Validate
  rw [fileBytes_length]
  dsimp only
  by_cases short : size < headerSize
  · rw [if_pos short,if_pos short]
  have inside : headerSize ≤ size := by omega
  have long : 4 ≤ (fileBytes image size).length := by
    rw [fileBytes_length]
    simp only [headerSize] at inside
    omega
  rw [if_neg short,if_neg short,ident_checked inside,pure_bind,headerChecked_inside small inside,pure_bind]
  by_cases magic : (List.range 6).map (byteAt (fileBytes image size)) ≠ [0x7F,0x45,0x4C,0x46,1,1]
  · rw [if_pos magic,if_pos ((ident_magic long).mp magic)]
  rw [if_neg magic,if_neg ((ident_magic long).not.mp magic)]
  by_cases kind : (header (fileBytes image size)).type ≠ 2 ∨ (header (fileBytes image size)).machine ≠ 3 ∨
      (header (fileBytes image size)).version ≠ 1
  · rw [if_pos kind,if_pos kind]
  rw [if_neg kind,if_neg kind]
  by_cases sizes : (header (fileBytes image size)).ehsize < headerSize ∨ (header (fileBytes image size)).phentsize < phdrSize ∨
      (header (fileBytes image size)).phnum = 0
  · rw [if_pos sizes,if_pos sizes]
  rw [if_neg sizes,if_neg sizes]
  by_cases table : (header (fileBytes image size)).phoff > size ∨
      (header (fileBytes image size)).phentsize > size - (header (fileBytes image size)).phoff ∨
      (header (fileBytes image size)).phnum > (size - (header (fileBytes image size)).phoff) / (header (fileBytes image size)).phentsize
  · rw [if_pos table,if_pos table]
  rw [if_neg table,if_neg table]
  have tabled : Tabled size (header (fileBytes image size)) := ⟨by omega,by omega,by omega⟩
  obtain ⟨looped,_⟩ := forHeaders_inside small (fun _ => True) (s := 0) tabled
    (fun i member => List.mem_range.mp member) (fun i _ count _ => ⟨elfRound_plain size count _,trivial⟩) trivial
  obtain ⟨valid,count⟩ := counted_rounds (fun p => decide (p.type = ptLoad)) (segmentValid size) (phdrs (fileBytes image size)) 0
  rw [looped,pure_bind,← phdrs]
  cases result : rounds (counted (fun p => decide (p.type = ptLoad)) (segmentValid size)) (phdrs (fileBytes image size)) 0 with
  | mk loads ok =>
    rw [result] at valid count
    dsimp only at valid count ⊢
    rw [← valid]
    cases ok with
    | false => rfl
    | true =>
      have empty : loads = 0 ↔ (phdrs (fileBytes image size)).filter (fun p => decide (p.type = ptLoad)) = [] := by
        rw [count rfl,Nat.zero_add,List.length_eq_zero_iff]
      simp only [Bool.not_true,Bool.false_eq_true,if_false,empty]
      split_ifs <;> rfl

theorem elf32Validate_entry {bytes : List Byte} {entry : Nat} (valid : elf32Validate bytes = some entry) :
    headerSize ≤ bytes.length ∧ Tabled bytes.length (header bytes) ∧ userBase ≤ entry ∧ entry < userLimit := by
  unfold elf32Validate at valid
  dsimp only at valid
  by_cases short : bytes.length < headerSize
  · simp [short] at valid
  rw [if_neg short] at valid
  split_ifs at valid with _ _ sizes table _ bad
  cases valid
  exact ⟨by omega,⟨by omega,by omega,by omega⟩,by omega,by omega⟩

theorem execValidateImageChecked_valid (small : size < 2^32) :
    execValidateImageChecked image size = pure (execValidateImage (fileBytes image size)) := by
  unfold execValidateImageChecked execValidateImage
  rw [elf32ValidateChecked_valid small,pure_bind]
  cases valid : elf32Validate (fileBytes image size) with
  | none => rfl
  | some entry =>
    obtain ⟨inside,tabled,low,high⟩ := elf32Validate_entry valid
    rw [fileBytes_length] at inside tabled
    dsimp only
    rw [headerChecked_inside small inside,pure_bind]
    obtain ⟨looped,_⟩ := forHeaders_inside small (fun _ => True) (s := 0) tabled
      (fun i member => List.mem_range.mp member) (fun i _ count _ => ⟨execRound_plain size count _,trivial⟩) trivial
    obtain ⟨fits,count⟩ := counted_rounds (fun p => decide (p.type = ptLoad) && decide (p.memsz ≠ 0))
      (fun p => segmentValid size p && segmentFits p) (phdrs (fileBytes image size)) 0
    rw [looped,pure_bind,← phdrs,fileBytes_length]
    rw [← loaded] at fits count
    generalize rounds _ (phdrs (fileBytes image size)) 0 = result at *
    obtain ⟨loads,ok⟩ := result
    dsimp only at fits count ⊢
    rw [← fits]
    cases ok with
    | false => rfl
    | true =>
      have empty : loads = 0 ↔ loaded (fileBytes image size) = [] := by
        rw [count rfl,Nat.zero_add,List.length_eq_zero_iff]
      have low' : ¬ entry < userBase := by omega
      have high' : ¬ entry ≥ userLimit := by omega
      by_cases nothing : loaded (fileBytes image size) = []
      · simp [empty,nothing]
      · simp [empty,nothing,low',high']

end Validators

/-! ### The loader inside the bounds -/

/-- A round for the segments that are taken. -/
def chosen {σ : Type} (taken : Phdr → Bool) (round : σ → Phdr → σ × Bool) (s : σ) (p : Phdr) : σ × Bool :=
  if taken p then round s p else (s,true)

theorem rounds_chosen {σ : Type} (taken : Phdr → Bool) (round : σ → Phdr → σ × Bool) (segments : List Phdr) (s : σ) :
    rounds (chosen taken round) segments s = rounds round (segments.filter taken) s := by
  induction segments generalizing s with
  | nil => rfl
  | cons p rest ih =>
    rw [rounds,chosen]
    by_cases own : taken p = true
    · rw [if_pos own,List.filter_cons_of_pos own,rounds]
      cases round s p with
      | mk s' ok => cases ok with
        | false => rfl
        | true => exact ih s'
    · rw [if_neg own,List.filter_cons_of_neg own]
      exact ih s

/-- What the validators have established of a segment that takes up pages. -/
structure Segment (size : Nat) (p : Phdr) : Prop where
  valid : segmentValid size p = true
  fits : segmentFits p = true

theorem execValidateImage_segments {bytes : List Byte} {entry : Nat} (valid : execValidateImage bytes = some entry) :
    ∀ p ∈ phdrs bytes, p.type = ptLoad → p.memsz ≠ 0 → Segment bytes.length p := by
  intro p member load large
  unfold execValidateImage at valid
  rw [execValidateImage_elf valid] at valid
  dsimp only at valid
  split_ifs at valid with checks
  rw [Bool.and_eq_true,List.all_eq_true] at checks
  have own : p ∈ loaded bytes := by
    refine List.mem_filter.mpr ⟨member,?_⟩
    rw [decide_eq_true load,decide_eq_true large]
    rfl
  have segment := checks.1 p own
  rw [Bool.and_eq_true] at segment
  exact ⟨segment.1,segment.2⟩

/-- A page address that passes the tests of the loader. -/
structure Allowed (va : Nat) : Prop where
  low : userBase ≤ va
  high : va < userLimit
  apart : va ≠ userStackPage

theorem Allowed.addressed {va : Nat} (allowed : Allowed va) : addressed va = pure () := by
  unfold Exec.addressed
  rw [decide_eq_true allowed.low,decide_eq_true allowed.high,decide_eq_true allowed.apart]
  rfl

theorem Segment.allowed {size : Nat} {p : Phdr} (segment : Segment size p) {va : Nat} (aligned : va % pageSize = 0)
    (first : alignDown p.vaddr ≤ va) (last : va < alignUp (p.vaddr + p.memsz)) : Allowed va := by
  obtain ⟨_,_,low,high⟩ := segmentValid_bounds segment.valid
  have top := (alignUp_below high).2
  have fits := segment.fits
  simp only [segmentFits,Bool.and_eq_true,Bool.not_eq_true'] at fits
  refine ⟨?_,by omega,?_⟩
  · simp only [alignDown,pageSize,userBase] at *
    omega
  · rintro rfl
    rw [decide_eq_true first,decide_eq_true last] at fits
    simp at fits

section Loader
variable {image : Nat → Byte} {size : Nat}

theorem indexed_short {pages : List LoadPage} (short : pages.length ≤ maxExecPages) : indexed pages = pure () := by
  rw [indexed,decide_eq_true short,guard_true]

theorem loadPageChecked_allowed {l : Loading} {va : Nat} (allowed : Allowed va) (short : l.pages.length ≤ maxExecPages)
    (writable : Bool) : loadPageChecked l va writable = pure (loadPage l va writable) ∧
      (loadPage l va writable).1.pages.length ≤ maxExecPages := by
  unfold loadPageChecked loadPage
  rw [allowed.addressed,pure_bind,indexed_short short,pure_bind]
  cases found : findPage l.pages va with
  | some i =>
    obtain ⟨inside,_⟩ := List.findIdx?_eq_some_iff_getElem.mp found
    dsimp only
    rw [decide_eq_true (inside.trans_le short),guard_true,pure_bind,setFlags_length]
    exact ⟨rfl,short⟩
  | none =>
    dsimp only
    by_cases full : l.pages.length ≥ maxExecPages
    · rw [if_pos full,if_pos full]
      exact ⟨rfl,short⟩
    · have one (q : LoadPage) : (l.pages ++ [q]).length ≤ maxExecPages := by
        rw [List.length_append,List.length_singleton]
        omega
      rw [if_neg full,if_neg full,indexed_short (one _),pure_bind]
      cases allocated : pageAlloc l.vm.pages with
      | none => exact ⟨rfl,one _⟩
      | some block =>
        refine ⟨rfl,?_⟩
        dsimp only
        rw [setFlags_length]
        exact one _

theorem loadPagesChecked_allowed {writable : Bool} {count va : Nat} {l : Loading}
    (allowed : ∀ i < count, Allowed (va + i * pageSize)) (short : l.pages.length ≤ maxExecPages) :
    loadPagesChecked writable count va l = pure (loadPages l writable ((List.range count).map fun i => va + i * pageSize)) ∧
      (loadPages l writable ((List.range count).map fun i => va + i * pageSize)).1.pages.length ≤ maxExecPages := by
  induction count generalizing va l with
  | zero => exact ⟨rfl,short⟩
  | succ count ih =>
    have first : Allowed va := by simpa using allowed 0 (by omega)
    have later : (List.range (count + 1)).map (fun i => va + i * pageSize) =
        va::(List.range count).map fun i => va + pageSize + i * pageSize := by
      rw [List.range_succ_eq_map,List.map_cons,List.map_map,Nat.zero_mul,Nat.add_zero]
      congr 1
      refine List.map_congr_left fun i _ => ?_
      rw [Function.comp_apply,Nat.succ_eq_add_one,Nat.add_mul]
      omega
    obtain ⟨here,next⟩ := loadPageChecked_allowed first short writable
    have high := first.high
    have sum : va + pageSize < 2^32 := by
      simp only [userLimit,pageSize] at *
      omega
    rw [loadPagesChecked,here,pure_bind,later,loadPages]
    cases result : loadPage l va writable with
    | mk l' ok =>
      rw [result] at next
      cases ok with
      | false => exact ⟨rfl,next⟩
      | true =>
        dsimp only at next ⊢
        rw [add32_small sum,pure_bind]
        refine ih (fun i low => ?_) next
        have there := allowed (i + 1) (by omega)
        rwa [show va + (i + 1) * pageSize = va + pageSize + i * pageSize by rw [Nat.add_mul]; omega] at there

def loadPlain (l : Loading) (p : Phdr) : Loading × Bool := loadPages l (decide (p.flags / 2 % 2 = 1)) (segmentPages p)

theorem loadSegments_rounds (l : Loading) (segments : List Phdr) : loadSegments l segments = rounds loadPlain segments l := by
  induction segments generalizing l with
  | nil => rfl
  | cons p rest ih =>
    rw [loadSegments,rounds,loadPlain]
    cases loadPages l (decide (p.flags / 2 % 2 = 1)) (segmentPages p) with
    | mk l' ok => cases ok with
      | false => rfl
      | true => exact ih l'

theorem loadRound_plain {p : Phdr} (segment : p.type = ptLoad → p.memsz ≠ 0 → Segment size p) {l : Loading}
    (short : l.pages.length ≤ maxExecPages) : loadRound l p =
      pure (chosen (fun p => decide (p.type = ptLoad) && decide (p.memsz ≠ 0)) loadPlain l p) ∧
      (chosen (fun p => decide (p.type = ptLoad) && decide (p.memsz ≠ 0)) loadPlain l p).1.pages.length ≤ maxExecPages := by
  unfold loadRound chosen
  by_cases skipped : p.type ≠ ptLoad ∨ p.memsz = 0
  · have other : ¬ (decide (p.type = ptLoad) && decide (p.memsz ≠ 0)) = true := by
      rw [Bool.and_eq_true,decide_eq_true_eq,decide_eq_true_eq]
      omega
    rw [if_pos skipped,if_neg other]
    exact ⟨rfl,short⟩
  · have own : (decide (p.type = ptLoad) && decide (p.memsz ≠ 0)) = true := by
      rw [Bool.and_eq_true,decide_eq_true_eq,decide_eq_true_eq]
      omega
    have known : Segment size p := segment (by omega) (by omega)
    obtain ⟨_,_,_,high⟩ := segmentValid_bounds known.valid
    have sum : p.vaddr + p.memsz < 2^32 := by
      simp only [userLimit] at high
      omega
    have order : alignDown p.vaddr ≤ alignUp (p.vaddr + p.memsz) := by
      simp only [alignDown,alignUp,pageSize]
      omega
    rw [if_neg skipped,if_pos own,add32_small sum,pure_bind,alignUpChecked_small high,pure_bind]
    dsimp only
    rw [sub32_below order,pure_bind]
    refine loadPagesChecked_allowed (fun i low => ?_) short
    have member : alignDown p.vaddr + i * pageSize ∈ segmentPages p := List.mem_map.mpr ⟨i,List.mem_range.mpr low,rfl⟩
    obtain ⟨first,last⟩ := segmentPages_range member
    exact known.allowed (segmentPages_mem.mp member).1 first last

theorem copyBytesChecked_inside {pages : List LoadPage} {p : Phdr} (short : pages.length ≤ maxExecPages) (small : size < 2^32)
    {count n : Nat} {m : Mem} (segment : p.filesz ≠ 0 → Segment size p) (bound : n + count ≤ p.filesz) :
    copyBytesChecked image size pages p count n m =
      pure (copyBytes pages m (p.vaddr + n) (((fileBytes image size).drop (p.offset + n)).take count)) := by
  induction count generalizing n m with
  | zero => rfl
  | succ count ih =>
    have known : Segment size p := segment (by omega)
    obtain ⟨part,file,_,high⟩ := segmentValid_bounds known.valid
    have inside : p.offset + n < size := by omega
    have below : p.offset + n < (fileBytes image size).length := by rwa [fileBytes_length]
    have place : p.vaddr + n < 2^32 := by
      simp only [userLimit] at high
      omega
    have allowed : Allowed (alignDown (p.vaddr + n)) := by
      refine known.allowed (Nat.mul_mod_left _ _) (Nat.mul_le_mul_right _ (Nat.div_le_div_right (by omega))) ?_
      simp only [alignDown,alignUp,pageSize]
      omega
    have byte : BitVec.ofNat 8 (byteAt (fileBytes image size) (p.offset + n)) = (fileBytes image size)[p.offset + n] := by
      rw [byteAt,List.getD_eq_getElem _ _ below,BitVec.ofNat_toNat,BitVec.setWidth_eq]
    rw [copyBytesChecked,add32_small place,pure_bind,allowed.addressed,pure_bind,indexed_short short,pure_bind,
      List.drop_eq_getElem_cons below,List.take_succ_cons,copyBytes]
    cases found : findPage pages (alignDown (p.vaddr + n)) with
    | none => rfl
    | some i =>
      obtain ⟨listed,_⟩ := List.findIdx?_eq_some_iff_getElem.mp found
      dsimp only
      rw [decide_eq_true (listed.trans_le short),guard_true,pure_bind,add32_small (by omega),pure_bind,load8_inside inside,
        pure_bind,byte]
      exact ih (by omega)

def copyPlain (bytes : List Byte) (pages : List LoadPage) (m : Mem) (p : Phdr) : Mem × Bool :=
  copyBytes pages m p.vaddr ((bytes.drop p.offset).take p.filesz)

theorem copySegments_rounds (bytes : List Byte) (pages : List LoadPage) (m : Mem) (segments : List Phdr) :
    copySegments bytes pages m segments = rounds (copyPlain bytes pages) segments m := by
  induction segments generalizing m with
  | nil => rfl
  | cons p rest ih =>
    rw [copySegments,rounds,copyPlain]
    cases copyBytes pages m p.vaddr ((bytes.drop p.offset).take p.filesz) with
    | mk m' ok => cases ok with
      | false => rfl
      | true => exact ih m'

theorem copyRound_plain {pages : List LoadPage} {p : Phdr} (short : pages.length ≤ maxExecPages) (small : size < 2^32)
    (segment : p.type = ptLoad → p.filesz ≠ 0 → Segment size p) (m : Mem) : copyRound image size pages m p =
      pure (chosen (fun p => decide (p.type = ptLoad) && decide (p.filesz ≠ 0)) (copyPlain (fileBytes image size) pages) m p) := by
  unfold copyRound chosen
  by_cases skipped : p.type ≠ ptLoad ∨ p.filesz = 0
  · have other : ¬ (decide (p.type = ptLoad) && decide (p.filesz ≠ 0)) = true := by
      rw [Bool.and_eq_true,decide_eq_true_eq,decide_eq_true_eq]
      omega
    rw [if_pos skipped,if_neg other]
  · have own : (decide (p.type = ptLoad) && decide (p.filesz ≠ 0)) = true := by
      rw [Bool.and_eq_true,decide_eq_true_eq,decide_eq_true_eq]
      omega
    rw [if_neg skipped,if_pos own,copyBytesChecked_inside short small (segment (by omega)) (by omega)]
    rfl

end Loader

theorem buildInitialStackChecked_inside (m : Mem) (page : Nat) (name : List Byte) :
    buildInitialStackChecked m page name = pure (buildInitialStack m page name) := by
  unfold buildInitialStackChecked
  by_cases long : name.length > 32
  · rw [if_pos long,buildInitialStack,if_pos long]
  have top : userStackTop = 3221225472 := rfl
  have base : userStackPage = 3221221376 := rfl
  have size : pageSize = 4096 := rfl
  have tests : (decide (userStackTop - 20 - name.length - 1 - userStackPage + name.length < pageSize) &&
      decide (userStackTop - 12 - userStackPage + 8 ≤ pageSize) && decide (userStackTop - 20 - userStackPage + 4 ≤ pageSize)) = true := by
    simp only [Bool.and_eq_true,decide_eq_true_eq]
    omega
  rw [if_neg long,sub32_below (by omega),pure_bind,sub32_below (by omega),pure_bind,sub32_below (by omega),pure_bind,
    sub32_below (by omega),pure_bind,sub32_below (by omega),pure_bind,sub32_below (by omega),pure_bind,pure_bind,
    sub32_below (by omega),pure_bind,tests,guard_true,pure_bind]

theorem loadFailChecked_short {pages : List LoadPage} (short : pages.length ≤ maxExecPages) (vm : Vm) :
    loadFailChecked vm pages = pure (loadFail vm pages,none) := by
  rw [loadFailChecked,indexed_short short,pure_bind]

theorem loadImageChecked_inside (vm : Vm) (r : RamFs) (name : List Byte) (small : ramfsSize r name < 2^32) :
    loadImageChecked vm r name = pure (loadImage vm r name) := by
  have refused {bytes : List Byte} (same : imageOf r name = bytes) (bad : execValidateImage bytes = none) :
      loadImage vm r name = (vm,none) := by
    unfold loadImage
    simp only [same,bad]
  have nothing : execValidateImage [] = none := by decide
  unfold loadImageChecked
  cases data : ramfsData r name with
  | none =>
    rw [refused (by rw [imageOf,data]) nothing]
  | some image =>
    have whole : imageOf r name = fileBytes image (ramfsSize r name) := by
      rw [imageOf,data]
      rfl
    dsimp only
    by_cases zero : ramfsSize r name = 0
    · rw [if_pos zero,refused (whole.trans (by rw [zero]; rfl)) nothing]
    rw [if_neg zero,execValidateImageChecked_valid small,pure_bind]
    cases valid : execValidateImage (fileBytes image (ramfsSize r name)) with
    | none => rw [refused whole valid]
    | some entry =>
      obtain ⟨inside,tabled,_⟩ := elf32Validate_entry (execValidateImage_elf valid)
      have segments := execValidateImage_segments valid
      rw [fileBytes_length] at inside tabled segments
      have listed (i : Nat) (member : i ∈ List.range (header (fileBytes image (ramfsSize r name))).phnum) :
          phdr (fileBytes image (ramfsSize r name)) i ∈ phdrs (fileBytes image (ramfsSize r name)) := List.mem_map_of_mem member
      have low (i : Nat) (member : i ∈ List.range (header (fileBytes image (ramfsSize r name))).phnum) :=
        List.mem_range.mp member
      obtain ⟨first,short⟩ := forHeaders_inside small (fun l : Loading => l.pages.length ≤ maxExecPages)
        (s := ⟨vm,[]⟩) tabled low (fun i member l few => loadRound_plain (segments _ (listed i member)) few) (Nat.zero_le _)
      rw [← phdrs,rounds_chosen,← loaded,← loadSegments_rounds] at first short
      have copies {pages : List LoadPage} (few : pages.length ≤ maxExecPages) (m : Mem) :
          forHeaders image (ramfsSize r name) (header (fileBytes image (ramfsSize r name)))
              (copyRound image (ramfsSize r name) pages) (List.range (header (fileBytes image (ramfsSize r name))).phnum) m =
            pure (copySegments (fileBytes image (ramfsSize r name)) pages m ((phdrs (fileBytes image (ramfsSize r name))).filter
              fun p => decide (p.type = ptLoad) && decide (p.filesz ≠ 0))) := by
        obtain ⟨second,_⟩ := forHeaders_inside small (fun _ => True) (s := m) tabled low
          (fun i member m _ => ⟨copyRound_plain few small (fun load file => segments _ (listed i member) load (by
            obtain ⟨part,_⟩ := segmentValid_bounds (elf32Validate_inside (execValidateImage_elf valid) _ (listed i member) load)
            omega)) m,trivial⟩) trivial
        rwa [← phdrs,rounds_chosen,← copySegments_rounds] at second
      unfold loadImage
      simp only [whole,valid]
      rw [headerChecked_inside small inside,pure_bind,first,pure_bind]
      clear first
      generalize loadSegments ⟨vm,[]⟩ (loaded (fileBytes image (ramfsSize r name))) = result at *
      obtain ⟨l,ok⟩ := result
      dsimp only at short
      cases ok with
      | false => exact loadFailChecked_short short l.vm
      | true =>
        dsimp only
        rw [copies short,pure_bind]
        generalize copySegments (fileBytes image (ramfsSize r name)) l.pages l.vm.mem _ = copy
        obtain ⟨mem,complete⟩ := copy
        cases complete with
        | false => exact loadFailChecked_short short _
        | true =>
          dsimp only
          by_cases full : l.pages.length ≥ maxExecPages
          · rw [if_pos full,if_pos full]
            exact loadFailChecked_short short _
          rw [if_neg full,if_neg full]
          cases allocated : pageAlloc l.vm.pages with
          | none => exact loadFailChecked_short short _
          | some block =>
            obtain ⟨frames,sp⟩ := block
            have few : (l.pages ++ [(⟨userStackPage,sp,3⟩ : LoadPage)]).length ≤ maxExecPages := by
              rw [List.length_append,List.length_singleton]
              omega
            dsimp only
            rw [indexed_short few,pure_bind,buildInitialStackChecked_inside,pure_bind]
            cases buildInitialStack (Function.update mem (sp / pageSize) zeroPage) sp name with
            | none => exact loadFailChecked_short few _
            | some top =>
              obtain ⟨m,stack⟩ := top
              dsimp only
              cases pagingCreateAddressSpace {l.vm with mem := m, pages := frames} with
              | none => exact loadFailChecked_short few _
              | some space =>
                obtain ⟨vm₂,pd⟩ := space
                dsimp only
                cases mapPages pd vm₂ (l.pages ++ [⟨userStackPage,sp,3⟩]) with
                | mk vm₃ all => cases all with
                  | false => exact loadFailChecked_short few _
                  | true => rfl

/-- The validators read nothing outside the image, and where they accept it, no test of the
loader fails. -/
theorem image_accesses_inside (image : Nat → Byte) (size : Nat) (small : size < 2^32) :
    elf32ValidateChecked image size = pure (elf32Validate (fileBytes image size)) ∧
      execValidateImageChecked image size = pure (execValidateImage (fileBytes image size)) ∧
      ∀ vm r name, ramfsData r name = some image → ramfsSize r name = size →
        loadImageChecked vm r name = pure (loadImage vm r name) := by
  refine ⟨elf32ValidateChecked_valid small,execValidateImageChecked_valid small,?_⟩
  intro vm r name _ same
  exact loadImageChecked_inside vm r name (same ▸ small)

theorem sharedImage_inside :
    execValidateImageChecked (fun i => sharedImage.getD i 0) sharedImage.length = pure (some userBase) ∧
      loadImageChecked blank.vm sharedFile [0x74] = pure (loadImage blank.vm sharedFile [0x74]) := by
  obtain ⟨_,checks,loads⟩ := image_accesses_inside (fun i => sharedImage.getD i 0) sharedImage.length (by decide)
  have accepted : execValidateImage (fileBytes (fun i => sharedImage.getD i 0) sharedImage.length) = some userBase := by
    decide +kernel
  exact ⟨checks.trans (congrArg pure accepted),loads blank.vm sharedFile [0x74] rfl rfl⟩

end LionOS.Exec

import LionOS.Programs.Grep

/-! `cp` and `mv`: a file is read and written in pieces of 512 bytes, and every write of a file is
one of the whole file. -/
namespace LionOS.Programs
open LionOS.Calls LionOS.Files LionOS.Library LionOS.Memory LionOS.Physical LionOS.Processes

/-- The size of the buffer `x`. -/
def copySize : Nat := 512

def copyLoop : Nat → Store → Process → Nat → Nat → Option (Store × Process × Bool)
  | 0, _, _, _, _ => none
  | turns+1, st, p, a, b => match lionFread st p a copySize with
    | (st,p,none) => some (st,p,false)
    | (st,p,some []) => some (st,p,true)
    | (st,p,some bytes) => match lionFwrite st p b bytes with
      | (st,p,none) => some (st,p,false)
      | (st,p,some _) => if bytes.length < copySize then some (st,p,true) else copyLoop turns st p a b

/-- `cp`, the function: whether the copy succeeded. -/
def copyFile (turns : Nat) (st : Store) (p : Process) (s d : List Byte) : Option (Store × Process × Bool) :=
  match lionOpen st p s vfsFRead with
  | (st,p,none) => some (st,p,false)
  | (st,p,some a) => match lionOpen st p d vfsFWrite with
    | (st,p,none) => some (st,lionClose p a,false)
    | (st,p,some b) => match copyLoop turns st p a b with
      | none => none
      | some (st,p,ok) => some (st,lionClose (lionClose p a) b,ok)

/-- A program that has ended: the output and the exit code. -/
structure Ended where
  store : Store
  process : Process
  output : List Byte
  code : Nat

/-- The line that `puts` writes. -/
def putsLine (text : String) : List Byte := ascii text.toList ++ [lineFeed]

/-- `main` of `cp` on the arguments behind the name. -/
def cp (turns : Nat) (st : Store) (p : Process) : List (List Byte) → Option Ended
  | [s,d] => match copyFile turns st p s d with
    | none => none
    | some (st,p,false) => some ⟨st,p,putsLine "cp: copy failed",1⟩
    | some (st,p,true) => some ⟨st,p,[],0⟩
  | _ => some ⟨st,p,putsLine "usage: cp <source> <destination>",1⟩

/-- `main` of `mv`. -/
def mv (turns : Nat) (st : Store) (p : Process) : List (List Byte) → Option Ended
  | [s,d] => match lionOpen st p s vfsFRead with
    | (st,p,none) => some ⟨st,p,putsLine "mv: source not found",1⟩
    | (st,p,some a) => match lionOpen st p d vfsFWrite with
      | (st,p,none) => some ⟨st,lionClose p a,[],1⟩
      | (st,p,some b) => match copyLoop turns st p a b with
        | none => none
        | some (st,p,ok) =>
          let p := lionClose (lionClose p a) b
          match if ok then lionRemove st p s else (st,false) with
          | (st,false) => some ⟨st,p,putsLine "mv: operation failed",1⟩
          | (st,true) => some ⟨st,p,[],0⟩
  | _ => some ⟨st,p,putsLine "usage: mv <source> <destination>",1⟩

/-- What the path of an argument reads. -/
def fileAt (st : Store) (path : List Byte) : Option (List Byte) := (pathNormalize path).bind (contentAt st)

/-- The outcome of a copy that shall leave `rest` under another source: the destination reads the source,
and after a failure the source reads as before. -/
structure Delivers (st : Store) (s d : List Byte) (rest : Option (List Byte)) (e : Ended) : Prop where
  copied : e.code = 0 → ∃ c, fileAt st s = some c ∧ fileAt e.store d = some c
  source : e.code = 0 → pathNormalize s ≠ pathNormalize d → fileAt e.store s = rest
  failed : e.code ≠ 0 → fileAt e.store s = fileAt st s

/-- Two descriptors are free. -/
def TwoFree (fds : FdTable) : Prop := ∃ i j, i < j ∧ j < vfsFdMax ∧ (fds i).used = false ∧ (fds j).used = false

/-- The calls of the copy succeed up to the end of the source. -/
structure Copies (st : Store) (p : Process) (s d src dst c : List Byte) : Prop where
  capable : processHasCapability p capFs = true
  short : s.length < vfsPathMax - 1 ∧ d.length < vfsPathMax - 1
  source : pathNormalize s = some src
  target : pathNormalize d = some dst
  content : contentAt st src = some c
  free : TwoFree p.fds
  placed : placeFor st dst ≠ backendNone
  buffer : c ≠ [] → onDisk (backendFor st src) = true → kmalloc st.heap vfsIoMax ≠ none
  accepted : c ≠ [] → accepts (placeFor st dst) dst = true
  single : c.length ≤ copySize ∨ src = dst

/-- One piece holds the source, and so does the back end; an empty source needs no write. -/
structure Fits (st : Store) (dst c : List Byte) : Prop where
  piece : c.length ≤ copySize
  limit : c.length ≤ fileLimit (onDisk (placeFor st dst))
  empty : c = [] → backendFor st dst = backendNone ∨ contentAt st dst = some []

/-- A copy that succeeds fits. -/
def CopiesWhole (st : Store) (p : Process) (s d : List Byte) : Prop :=
  ∀ src dst c, Copies st p s d src dst c → Fits st dst c

/-- A move that succeeds fits and leaves nothing behind the source; of one file, the same is behind it. -/
def MovesWhole (st : Store) (p : Process) (s d : List Byte) : Prop :=
  ∀ src dst c, Copies st p s d src dst c → programIndex src = none →
    if src = dst then behind st src = some c else Fits st dst c ∧ behind st src = none

/-- The loop on the slots of the two descriptors. -/
def copySlots : Nat → Store → ProcessFd → ProcessFd → Option (Store × Bool)
  | 0, _, _, _ => none
  | turns+1, st, f, g => match readSlot st f copySize with
    | (st,_,none) => some (st,false)
    | (st,_,some []) => some (st,true)
    | (st,f,some bytes) => match writeSlot st g bytes with
      | (st,_,none) => some (st,false)
      | (st,g,some _) => if bytes.length < copySize then some (st,true) else copySlots turns st f g

section Slots
variable {st : Store} {p : Process} {a b : Nat}

theorem copyLoop_slots (turns : Nat) (capable : processHasCapability p capFs = true) (first : a < vfsFdMax)
    (second : b < vfsFdMax) (apart : a ≠ b) :
    (copyLoop turns st p a b).map (fun r => (r.1,processHasCapability r.2.1 capFs,r.2.2)) =
      (copySlots turns st (p.fds a) (p.fds b)).map fun r => (r.1,true,r.2) := by
  induction turns generalizing st p with
  | zero => rfl
  | succ turns ih =>
    unfold copyLoop copySlots
    rw [lionFread_slot capable first (by decide)]
    rcases read : readSlot st (p.fds a) copySize with ⟨st₁,f,_ | _ | ⟨x,rest⟩⟩
    · exact congrArg (fun has => some (st₁,has,false)) capable
    · exact congrArg (fun has => some (st₁,has,true)) capable
    · have short : (x::rest).length ≤ copySize := readSlot_short (congrArg (fun r => r.2.2) read)
      have other := @lionFwrite_slot st₁ (withFd p a f) (x::rest) b capable second (short.trans (by decide))
      dsimp only
      rw [other,withFd_other p f apart.symm]
      rcases writeSlot st₁ (p.fds b) (x::rest) with ⟨st₂,g,_ | n⟩
      · exact congrArg (fun has => some (st₂,has,false)) capable
      · dsimp only
        split
        · exact congrArg (fun has => some (st₂,has,true)) capable
        · have next := @ih st₂ (withFd (withFd p a f) b g) capable
          rw [withFd_own,withFd_other _ _ apart,withFd_own] at next
          exact next

end Slots

section Loop
variable {st : Store} {src dst c : List Byte} {bs b o : Nat}

theorem copySlots_unread (turns : Nat) (g : ProcessFd) (ready : st.disk.disk.faults = [])
    (unread : (readSlot st ⟨true,bs,vfsFRead,o,src⟩ copySize).2.2 = none) :
    ∃ heap, copySlots (turns + 1) st ⟨true,bs,vfsFRead,o,src⟩ g = some ({st with heap},false) := by
  obtain ⟨heap,store⟩ := readSlot_store ready ⟨true,bs,vfsFRead,o,src⟩ copySize
  unfold copySlots
  rcases read : readSlot st ⟨true,bs,vfsFRead,o,src⟩ copySize with ⟨st',f,result⟩
  rw [read] at unread store
  cases unread
  cases store
  exact ⟨heap,rfl⟩

/-- The second turn finds the end of the source, or its write is refused. -/
theorem copySlots_second (turns : Nat) (ready : st.disk.disk.faults = []) (content : fileContent st (onDisk bs) src = some c) :
    ∃ heap, copySlots (turns + 1) st ⟨true,bs,vfsFRead,copySize,src⟩ ⟨true,b,vfsFWrite,copySize,dst⟩ =
      some ({st with heap},decide (c.length ≤ copySize)) := by
  by_cases ended : c.length ≤ copySize
  · obtain ⟨heap,read⟩ := @readSlot_calm st src c bs copySize copySize ready content (by decide)
      fun more => absurd ended (Nat.not_le.mpr more)
    rw [List.drop_of_length_le ended,List.take_nil] at read
    unfold copySlots
    rw [read,decide_eq_true ended]
    exact ⟨heap,rfl⟩
  · have more := Nat.lt_of_not_le ended
    rw [decide_eq_false ended]
    by_cases buffer : onDisk bs = true → kmalloc st.heap vfsIoMax ≠ none
    · obtain ⟨heap,read⟩ := @readSlot_calm st src c bs copySize copySize ready content (by decide) fun _ => buffer
      obtain ⟨x,rest,piece⟩ : ∃ x rest, (c.drop copySize).take copySize = x::rest := by
        refine List.exists_cons_of_ne_nil fun none => ?_
        have length := congrArg List.length none
        rw [List.length_take,List.length_drop,List.length_nil] at length
        unfold copySize at more length
        omega
      unfold copySlots
      rw [read,piece]
      dsimp only
      rw [writeSlot_later (by decide)]
      exact ⟨heap,rfl⟩
    · obtain ⟨disk,full⟩ := Classical.not_imp.mp buffer
      exact copySlots_unread turns _ ready (readSlot_unbuffered ready disk content more (not_not.mp full))

/-- What the loop takes to succeed. -/
structure Passes (st : Store) (bs b : Nat) (src dst c : List Byte) : Prop where
  buffer : c ≠ [] → onDisk bs = true → kmalloc st.heap vfsIoMax ≠ none
  accepted : c ≠ [] → accepts b dst = true
  single : c.length ≤ copySize ∨ src = dst

/-- What the loop does to the files: nothing, or it writes the first piece of the source. -/
structure Looped (st : Store) (bs b : Nat) (src dst c : List Byte) (st' : Store) (ok : Bool) : Prop where
  success : ok = true ↔ Passes st bs b src dst c
  files : (∃ heap, st' = {st with heap}) ∧ (ok = true → c = []) ∨
    Rewritten st dst b (c.take copySize) st' ∧ c ≠ [] ∧ (src = dst → ok = true)

theorem copySlots_written (turns : Nat) {st₁ : Store} (source : Target st src bs) (target : Target st dst b)
    (name : PathName src) (content : fileContent st (onDisk bs) src = some c) (some_ : c ≠ [])
    (buffer : onDisk bs = true → kmalloc st.heap vfsIoMax ≠ none) (accepted : accepts b dst = true)
    (rewritten : Rewritten st dst b (c.take copySize) st₁) :
    ∃ st' ok, (if (c.take copySize).length < copySize then some (st₁,true) else
      copySlots (turns + 1) st₁ ⟨true,bs,vfsFRead,min copySize c.length,src⟩
        ⟨true,b,vfsFWrite,(c.take copySize).length,dst⟩) = some (st',ok) ∧ Looped st bs b src dst c st' ok := by
  rw [List.length_take]
  by_cases small : c.length < copySize
  · have passes : Passes st bs b src dst c := ⟨fun _ => buffer,fun _ => accepted,.inl (Nat.le_of_lt small)⟩
    rw [if_pos (by omega)]
    exact ⟨st₁,true,rfl,iff_of_true rfl passes,.inr ⟨rewritten,some_,fun _ => rfl⟩⟩
  · rw [if_neg (by omega),Nat.min_eq_left (Nat.le_of_not_lt small)]
    by_cases same : src = dst
    · -- The file has been cut down to the piece, so that its end is reached.
      subst same
      obtain rfl : bs = b := source.backend.symm.trans target.backend
      obtain ⟨heap,second⟩ := @copySlots_second st₁ src src _ bs bs turns rewritten.calm.ready rewritten.content
      have piece : (held bs (c.take copySize)).length ≤ copySize := by
        unfold held
        rw [List.length_take,List.length_take]
        omega
      rw [second,decide_eq_true piece]
      exact ⟨_,true,rfl,iff_of_true rfl ⟨fun _ => buffer,fun _ => accepted,.inr rfl⟩,
        .inr ⟨rewritten.reheaped heap,some_,fun _ => rfl⟩⟩
    · have still := (rewritten.others src name same (onDisk bs)).trans content
      obtain ⟨heap,second⟩ := @copySlots_second st₁ src dst c bs b turns rewritten.calm.ready still
      refine ⟨_,_,second,?_,.inr ⟨rewritten.reheaped heap,some_,fun here => absurd here same⟩⟩
      rw [decide_eq_true_iff]
      exact ⟨fun fits => ⟨fun _ => buffer,fun _ => accepted,.inl fits⟩,fun passes => passes.single.resolve_right same⟩

theorem copySlots_outcome (turns : Nat) (calm : Calm st) (ordered : Ordered st.ram) (source : Target st src bs)
    (target : Target st dst b) (name : PathName src) (named : PathName dst)
    (content : fileContent st (onDisk bs) src = some c) :
    ∃ st' ok, copySlots (turns + 2) st ⟨true,bs,vfsFRead,0,src⟩ ⟨true,b,vfsFWrite,0,dst⟩ = some (st',ok) ∧
      Looped st bs b src dst c st' ok := by
  by_cases buffer : c ≠ [] → onDisk bs = true → kmalloc st.heap vfsIoMax ≠ none
  · obtain ⟨heap,read⟩ := @readSlot_calm st src c bs 0 copySize calm.ready content (by decide)
      fun more => buffer (List.ne_nil_of_length_pos more)
    rw [List.drop_zero,Nat.zero_add,Nat.sub_zero] at read
    unfold copySlots
    rw [read]
    cases piece : c.take copySize with
    | nil =>
      have empty : c = [] := (List.take_eq_nil_iff.mp piece).resolve_left (by decide)
      subst empty
      exact ⟨_,true,rfl,iff_of_true rfl ⟨buffer,fun some => absurd rfl some,.inl (Nat.zero_le _)⟩,
        .inl ⟨⟨heap,rfl⟩,fun _ => rfl⟩⟩
    | cons x rest =>
      have some_ : c ≠ [] := by
        rintro rfl
        cases piece
      have short : (x::rest).length ≤ copySize := by
        rw [← piece]
        exact List.length_take_le _ _
      have io : (x::rest).length ≤ vfsIoMax := short.trans (by decide)
      have calm' : Calm {st with heap} := ⟨calm.mounted,calm.ready⟩
      have there : Target {st with heap} dst b := ⟨target.backend,target.present⟩
      dsimp only
      cases accepted : accepts b dst with
      | false =>
        rw [writeSlot_start io (there.refuses accepted)]
        refine ⟨_,false,rfl,iff_of_false Bool.false_ne_true fun passes => ?_,.inl ⟨⟨heap,rfl⟩,nofun⟩⟩
        exact Bool.false_ne_true (accepted.symm.trans (passes.accepted some_))
      | true =>
        obtain ⟨st₁,stored,rewritten⟩ := there.rewritten calm' ordered named accepted (short.trans (by decide))
        have kept : Rewritten st dst b (x::rest) st₁ := ⟨rewritten.calm,rewritten.ordered,rewritten.target,rewritten.content,
          rewritten.others,fun g b' name shown => rewritten.targets g b' name ⟨shown.backend,shown.present⟩,
          fun g b' name shown => rewritten.behind g b' name ⟨shown.backend,shown.present⟩⟩
        rw [← piece] at stored kept ⊢
        rw [writeSlot_start (piece ▸ io) stored]
        exact copySlots_written turns source target name content some_ (buffer some_) accepted kept
  · obtain ⟨some_,full⟩ := Classical.not_imp.mp buffer
    obtain ⟨disk,none⟩ := Classical.not_imp.mp full
    obtain ⟨heap,unread⟩ := copySlots_unread (turns + 1) ⟨true,b,vfsFWrite,0,dst⟩ calm.ready
      (readSlot_unbuffered calm.ready disk content (List.length_pos_of_ne_nil some_) (not_not.mp none))
    exact ⟨_,false,unread,iff_of_false Bool.false_ne_true fun passes => full (passes.buffer some_),.inl ⟨⟨heap,rfl⟩,nofun⟩⟩

end Loop

section Opens
variable {st : Store} {p : Process}

theorem freeFd_some {fds : FdTable} {i : Nat} (free : freeFd fds = some i) : i < vfsFdMax ∧ (fds i).used = false := by
  obtain ⟨bound,unused,_⟩ := find_range.mp free
  exact ⟨bound,by simpa using unused⟩

theorem freeFd_exists {fds : FdTable} {i : Nat} (bound : i < vfsFdMax) (unused : (fds i).used = false) : freeFd fds ≠ none := by
  intro none
  have used := find_range_none.mp none i bound
  rw [unused] at used
  cases used

theorem twoFree_update {fds : FdTable} {i : Nat} {f : ProcessFd} (free : freeFd fds = some i) (used : f.used = true) :
    freeFd (Function.update fds i f) ≠ none ↔ TwoFree fds := by
  obtain ⟨bound,unused⟩ := freeFd_some free
  constructor
  · intro some_
    obtain ⟨j,found⟩ := Option.ne_none_iff_exists'.mp some_
    obtain ⟨bound',unused'⟩ := freeFd_some found
    have other : j ≠ i := by
      rintro rfl
      rw [Function.update_self,used] at unused'
      cases unused'
    rw [Function.update_of_ne other] at unused'
    rcases Nat.lt_or_gt_of_ne other with before | behind
    · exact ⟨j,i,before,bound,unused',unused⟩
    · exact ⟨i,j,behind,bound',unused,unused'⟩
  · rintro ⟨k,l,order,bound',first,second⟩
    by_cases here : k = i
    · refine freeFd_exists bound' ?_
      rw [Function.update_of_ne (here ▸ Nat.ne_of_gt order)]
      exact second
    · refine freeFd_exists (Nat.lt_trans order bound') ?_
      rw [Function.update_of_ne here]
      exact first

/-- The descriptors that the two opens give. -/
def reader (st : Store) (src : List Byte) : ProcessFd := ⟨true,backendFor st src,vfsFRead,0,src⟩
def writer (st : Store) (dst : List Byte) : ProcessFd := ⟨true,placeFor st dst,vfsFWrite,0,dst⟩

theorem lionOpen_reading (st : Store) (p : Process) (s : List Byte) :
    (lionOpen st p s vfsFRead = (st,p,none) ∧ ∀ src, processHasCapability p capFs = true → s.length < vfsPathMax - 1 →
      pathNormalize s = some src → backendFor st src ≠ backendNone → freeFd p.fds = none) ∨
    ∃ src i, processHasCapability p capFs = true ∧ s.length < vfsPathMax - 1 ∧ pathNormalize s = some src ∧
      backendFor st src ≠ backendNone ∧ freeFd p.fds = some i ∧ lionOpen st p s vfsFRead =
        (st,withFd p i (reader st src),some i) := by
  by_cases called : processHasCapability p capFs = false ∨ s.length ≥ vfsPathMax - 1
  · refine .inl ⟨if_pos called,fun src capable short _ _ => ?_⟩
    rcases called with incapable | long
    · exact absurd (incapable.symm.trans capable) Bool.false_ne_true
    · exact absurd long (Nat.not_le.mpr short)
  obtain ⟨capable,short⟩ := not_or.mp called
  have capable' := Bool.not_eq_false _ ▸ capable
  have short' := Nat.lt_of_not_le short
  unfold lionOpen vfsOpenForProcess vfsOpen
  rw [if_neg called]
  cases normal : pathNormalize s with
  | none => exact .inl ⟨rfl,nofun⟩
  | some src =>
    dsimp only
    unfold openSlot
    by_cases absent : backendFor st src = backendNone
    · rw [if_pos ⟨absent,by decide⟩]
      refine .inl ⟨rfl,fun _ _ _ same present => ?_⟩
      cases same
      exact absurd absent present
    · dsimp only
      rw [if_neg fun both => absent both.1,if_neg absent]
      dsimp only
      rw [if_neg absent]
      cases free : freeFd p.fds with
      | none => exact .inl ⟨rfl,fun _ _ _ _ _ => rfl⟩
      | some i => exact .inr ⟨src,i,capable',short',rfl,absent,rfl,rfl⟩

theorem lionOpen_writing (calm : Calm st) (ordered : Ordered st.ram) (capable : processHasCapability p capFs = true) (d : List Byte) :
    (∃ st', lionOpen st p d vfsFWrite = (st',p,none) ∧
      (∀ src, PathName src → backendFor st src ≠ backendNone → contentAt st' src = contentAt st src) ∧
      ∀ dst, d.length < vfsPathMax - 1 → pathNormalize d = some dst → placeFor st dst ≠ backendNone → freeFd p.fds = none) ∨
    ∃ dst st' j, d.length < vfsPathMax - 1 ∧ pathNormalize d = some dst ∧ Opened st dst st' ∧ freeFd p.fds = some j ∧
      lionOpen st p d vfsFWrite =
        (st',withFd p j (writer st dst),some j) := by
  by_cases called : processHasCapability p capFs = false ∨ d.length ≥ vfsPathMax - 1
  · refine .inl ⟨st,if_pos called,fun _ _ _ => rfl,fun dst short _ _ => ?_⟩
    rcases called with incapable | long
    · exact absurd (incapable.symm.trans capable) Bool.false_ne_true
    · exact absurd long (Nat.not_le.mpr short)
  have short := Nat.lt_of_not_le (not_or.mp called).2
  unfold lionOpen vfsOpenForProcess vfsOpen
  rw [if_neg called]
  cases normal : pathNormalize d with
  | none => exact .inl ⟨st,rfl,fun _ _ _ => rfl,nofun⟩
  | some dst =>
    have named := pathName_normal normal
    have kept : ∀ src, PathName src → backendFor st src ≠ backendNone →
        contentAt (forWriting st dst).1 src = contentAt st src := fun src name present => forWriting_kept calm named name present
    dsimp only
    rw [openSlot_writing,forWriting_place calm ordered named]
    by_cases placed : placeFor st dst = backendNone
    · rw [if_pos placed]
      refine .inl ⟨_,rfl,kept,fun _ _ same placed' => ?_⟩
      cases same
      exact absurd placed placed'
    · rw [if_neg placed]
      cases free : freeFd p.fds with
      | none => exact .inl ⟨_,rfl,kept,fun _ _ _ _ => rfl⟩
      | some j =>
        obtain ⟨st',made,opened⟩ := forWriting_opened calm ordered named placed
        rw [made]
        exact .inr ⟨dst,st',j,short,rfl,opened,rfl,rfl⟩

end Opens

/-- What a copy that succeeds leaves. -/
structure Copied (st : Store) (src dst c : List Byte) (st' : Store) : Prop where
  calm : Calm st'
  ordered : Ordered st'.ram
  source : src ≠ dst → contentAt st' src = contentAt st src
  content : contentAt st' dst =
    if c = [] then if backendFor st dst = backendNone then some [] else contentAt st dst
    else some (held (placeFor st dst) (c.take copySize))
  target : ∃ b, Target st' src b
  behind : behind st' src = behind st src

section Copying
variable {st st₁ st' : Store} {p : Process} {s d src dst c : List Byte}

theorem Copies.unique {src' dst' c' : List Byte} (copies : Copies st p s d src dst c) (again : Copies st p s d src' dst' c') :
    src' = src ∧ dst' = dst ∧ c' = c := by
  obtain rfl : src' = src := Option.some_inj.mp (again.source.symm.trans copies.source)
  obtain rfl : dst' = dst := Option.some_inj.mp (again.target.symm.trans copies.target)
  exact ⟨rfl,rfl,Option.some_inj.mp (again.content.symm.trans copies.content)⟩

theorem contentAt_present (content : contentAt st src = some c) : backendFor st src ≠ backendNone := by
  intro absent
  unfold contentAt at content
  rw [if_pos absent] at content
  cases content

theorem Opened.source (opened : Opened st dst st₁) (name : PathName src) (present : backendFor st src ≠ backendNone) (disk : Bool) :
    fileContent st₁ disk src = fileContent st disk src := by
  by_cases same : src = dst
  · subst same
    rw [opened.same present]
  · exact opened.others src name same disk

theorem Looped.copied {ok : Bool} (looped : Looped st₁ (backendFor st src) (placeFor st dst) src dst c st' ok)
    (opened : Opened st dst st₁) (name : PathName src) (present : backendFor st src ≠ backendNone) (success : ok = true) :
    Copied st src dst c st' := by
  have source := @Opened.source st st₁ src dst opened name present
  have shown := opened.targets src _ name ⟨rfl,present⟩
  have before := opened.behind src _ name ⟨rfl,present⟩
  rcases looped.files with ⟨⟨heap,rfl⟩,nothing⟩ | ⟨rewritten,some_,_⟩
  · refine ⟨⟨opened.calm.mounted,opened.calm.ready⟩,opened.ordered,fun _ => contentAt_same source,?_,
      ⟨_,⟨shown.backend,shown.present⟩⟩,before⟩
    rw [if_pos (nothing success)]
    exact opened.content
  · refine ⟨rewritten.calm,rewritten.ordered,fun other => ?_,?_,⟨_,rewritten.targets src _ name shown⟩,
      (rewritten.behind src _ name shown).trans before⟩
    · exact contentAt_same fun disk => (rewritten.others src name other disk).trans (source disk)
    · rw [if_neg some_,contentAt_target rewritten.target,rewritten.content]

theorem Looped.spared (looped : Looped st₁ (backendFor st src) (placeFor st dst) src dst c st' false)
    (opened : Opened st dst st₁) (name : PathName src) (present : backendFor st src ≠ backendNone) :
    contentAt st' src = contentAt st src := by
  have source := @Opened.source st st₁ src dst opened name present
  rcases looped.files with ⟨⟨heap,rfl⟩,_⟩ | ⟨rewritten,_,succeeds⟩
  · exact contentAt_same source
  · have other : src ≠ dst := fun same => Bool.false_ne_true (succeeds same)
    exact contentAt_same fun disk => (rewritten.others src name other disk).trans (source disk)

theorem copyLoop_ends {turns a b : Nat} {ok : Bool} (capable : processHasCapability p capFs = true) (first : a < vfsFdMax)
    (second : b < vfsFdMax) (apart : a ≠ b) (ends : copySlots turns st (p.fds a) (p.fds b) = some (st',ok)) :
    ∃ p', copyLoop turns st p a b = some (st',p',ok) ∧ processHasCapability p' capFs = true := by
  have slots := @copyLoop_slots st p a b turns capable first second apart
  rw [ends] at slots
  obtain ⟨⟨after,p',result⟩,ended,same⟩ := Option.map_eq_some_iff.mp slots
  simp only [Prod.mk.injEq] at same
  obtain ⟨rfl,still,rfl⟩ := same
  exact ⟨p',ended,still⟩

/-- Both files are open. -/
structure Started (st : Store) (p : Process) (s d src dst : List Byte) (i j : Nat) (st₁ : Store) : Prop where
  capable : processHasCapability p capFs = true
  short : s.length < vfsPathMax - 1 ∧ d.length < vfsPathMax - 1
  source : pathNormalize s = some src
  target : pathNormalize d = some dst
  present : backendFor st src ≠ backendNone
  first : freeFd p.fds = some i
  second : freeFd (withFd p i (reader st src)).fds = some j
  opened : Opened st dst st₁

section Started
variable {i j : Nat} (started : Started st p s d src dst i j st₁)
include started

theorem Started.found {src' dst' c' : List Byte} (copies : Copies st p s d src' dst' c') :
    src' = src ∧ dst' = dst ∧ contentAt st src = some c' := by
  obtain rfl : src' = src := Option.some_inj.mp (copies.source.symm.trans started.source)
  obtain rfl : dst' = dst := Option.some_inj.mp (copies.target.symm.trans started.target)
  exact ⟨rfl,rfl,copies.content⟩

theorem Started.passes (found : contentAt st src = some c) : Copies st p s d src dst c ↔
    Passes st₁ (backendFor st src) (placeFor st dst) src dst c := by
  constructor
  · intro copies
    exact ⟨started.opened.heap.symm ▸ copies.buffer,copies.accepted,copies.single⟩
  · intro passes
    have free : freeFd (Function.update p.fds i (reader st src)) ≠ none := by
      have second : freeFd (Function.update p.fds i (reader st src)) = some j := started.second
      rw [second]
      exact Option.some_ne_none j
    exact ⟨started.capable,started.short,started.source,started.target,found,(twoFree_update started.first rfl).mp free,
      started.opened.target.present,started.opened.heap ▸ passes.buffer,passes.accepted,passes.single⟩

theorem Started.loop {turns : Nat} {ok : Bool} (ends : copySlots turns st₁ (reader st src) (writer st dst) = some (st',ok)) :
    ∃ p', copyLoop turns st₁ (withFd (withFd p i (reader st src)) j (writer st dst)) i j = some (st',p',ok) ∧
      processHasCapability p' capFs = true := by
  obtain ⟨bound,_⟩ := freeFd_some started.first
  obtain ⟨bound',unused⟩ := freeFd_some started.second
  have apart : i ≠ j := by
    rintro rfl
    rw [withFd_own] at unused
    cases unused
  refine copyLoop_ends started.capable bound bound' apart ?_
  rw [withFd_own,withFd_other _ _ apart,withFd_own]
  exact ends

theorem Started.outcome (turns : Nat) : ∃ st' p' ok,
    copyLoop (turns + 2) st₁ (withFd (withFd p i (reader st src)) j (writer st dst)) i j = some (st',p',ok) ∧
      processHasCapability p' capFs = true ∧
      (ok = false → contentAt st' src = contentAt st src ∧ ∀ c, ¬Copies st p s d src dst c) ∧
      (ok = true → ∃ c, Copies st p s d src dst c ∧ Copied st src dst c st') := by
  have name := pathName_normal started.source
  have named := pathName_normal started.target
  have created := started.opened
  have shown := created.targets src _ name ⟨rfl,started.present⟩
  have source := @Opened.source st st₁ src dst created name started.present
  have content : fileContent st₁ (onDisk (backendFor st src)) src = contentAt st src := by
    rw [source,contentAt_target ⟨rfl,started.present⟩]
  cases found : contentAt st src with
  | none =>
    rw [found] at content
    obtain ⟨heap,ends⟩ := copySlots_unread (turns + 1) (writer st dst) created.calm.ready
      (readSlot_unreadable created.calm shown content)
    obtain ⟨p',ended,capable⟩ := started.loop ends
    refine ⟨_,p',false,ended,capable,fun _ => ⟨?_,fun c copies => ?_⟩,nofun⟩
    · exact (contentAt_same source).trans found
    · cases found.symm.trans copies.content
  | some c =>
    rw [found] at content
    obtain ⟨st',ok,ends,looped⟩ := copySlots_outcome turns created.calm created.ordered shown created.target name named content
    obtain ⟨p',ended,capable⟩ := started.loop ends
    refine ⟨st',p',ok,ended,capable,?_,fun success => ?_⟩
    · rintro rfl
      refine ⟨(looped.spared created name started.present).trans found,fun c' copies => ?_⟩
      cases found.symm.trans copies.content
      exact Bool.false_ne_true (looped.success.mpr ((started.passes found).mp copies))
    · exact ⟨c,(started.passes found).mpr (looped.success.mp success),looped.copied created name started.present success⟩

end Started

theorem fileAt_normal (normal : pathNormalize s = some src) (st : Store) : fileAt st s = contentAt st src := by
  unfold fileAt
  rw [normal]
  rfl

/-- A copy that runs comes to its end: it succeeds just if its calls do, and otherwise the source is as before. -/
theorem copyFile_outcome (turns : Nat) (calm : Calm st) (ordered : Ordered st.ram) (p : Process) (s d : List Byte) :
    ∃ st' p' ok, copyFile (turns + 2) st p s d = some (st',p',ok) ∧
      (ok = false → fileAt st' s = fileAt st s ∧ ∀ src dst c, ¬Copies st p s d src dst c) ∧
      (ok = true → processHasCapability p' capFs = true ∧ ∃ src dst c, Copies st p s d src dst c ∧ Copied st src dst c st') := by
  unfold copyFile
  rcases lionOpen_reading st p s with ⟨closed,fails⟩ | ⟨src,i,capable,short,normal,present,free,opened⟩
  · rw [closed]
    refine ⟨st,p,false,rfl,fun _ => ⟨rfl,fun src dst c copies => ?_⟩,nofun⟩
    have none := fails src copies.capable copies.short.1 copies.source (contentAt_present copies.content)
    obtain ⟨i,j,order,bound,unused,_⟩ := copies.free
    exact freeFd_exists (Nat.lt_trans order bound) unused none
  rw [opened]
  dsimp only
  have still : processHasCapability (withFd p i (reader st src)) capFs = true := capable
  rcases lionOpen_writing calm ordered still d with ⟨st₁,closed,kept,fails⟩ | ⟨dst,st₁,j,short',normal',created,free',opened'⟩
  · rw [closed]
    refine ⟨st₁,_,false,rfl,fun _ => ⟨?_,fun src' dst c copies => ?_⟩,nofun⟩
    · rw [fileAt_normal normal,fileAt_normal normal]
      exact kept src (pathName_normal normal) present
    · exact (twoFree_update free rfl).mpr copies.free (fails dst copies.short.2 copies.target copies.placed)
  rw [opened']
  dsimp only
  have started : Started st p s d src dst i j st₁ := ⟨capable,⟨short,short'⟩,normal,normal',present,free,free',created⟩
  obtain ⟨st',p',ok,ended,capable',failure,success⟩ := started.outcome turns
  rw [ended]
  refine ⟨st',_,ok,rfl,fun failed => ⟨?_,fun src' dst' c copies => ?_⟩,fun succeeds => ⟨?_,src,dst,success succeeds⟩⟩
  · rw [fileAt_normal normal,fileAt_normal normal]
    exact (failure failed).1
  · obtain ⟨rfl,rfl,_⟩ := started.found copies
    exact (failure failed).2 c copies
  · rw [lionClose_capable,lionClose_capable,capable']

/-- The destination reads the source just if the one write has taken all of it. -/
theorem Copied.whole (copied : Copied st src dst c st') : contentAt st' dst = some c ↔ Fits st dst c := by
  rw [copied.content]
  by_cases empty : c = []
  · subst empty
    rw [if_pos rfl]
    have fits : (backendFor st dst = backendNone ∨ contentAt st dst = some []) ↔ Fits st dst [] :=
      ⟨fun fresh => ⟨Nat.zero_le _,Nat.zero_le _,fun _ => fresh⟩,fun fits => fits.empty rfl⟩
    rw [← fits]
    split
    next absent => exact iff_of_true rfl (.inl absent)
    next present => exact (or_iff_right present).symm
  · rw [if_neg empty,Option.some_inj]
    unfold held
    rw [List.take_take,List.take_eq_self_iff]
    constructor
    · intro small
      exact ⟨small.trans (Nat.min_le_right ..),small.trans (Nat.min_le_left ..),fun none => absurd none empty⟩
    · intro fits
      exact Nat.le_min.mpr ⟨fits.limit,fits.piece⟩

theorem Copies.delivers {rest : Option (List Byte)} {e : Ended} (copies : Copies st p s d src dst c) (success : e.code = 0) :
    Delivers st s d rest e ↔ contentAt e.store dst = some c ∧ (src ≠ dst → contentAt e.store src = rest) := by
  have other : pathNormalize s ≠ pathNormalize d ↔ src ≠ dst := by
    rw [copies.source,copies.target,Ne,Option.some_inj]
  constructor
  · intro delivers
    obtain ⟨c',before,after⟩ := delivers.copied success
    rw [fileAt_normal copies.source,copies.content] at before
    cases before
    rw [fileAt_normal copies.target] at after
    refine ⟨after,fun apart => ?_⟩
    rw [← fileAt_normal copies.source]
    exact delivers.source success (other.mpr apart)
  · rintro ⟨whole,source⟩
    refine ⟨fun _ => ⟨c,?_,?_⟩,fun _ apart => ?_,fun failed => absurd success failed⟩
    · rw [fileAt_normal copies.source,copies.content]
    · rw [fileAt_normal copies.target,whole]
    · rw [fileAt_normal copies.source]
      exact source (other.mp apart)

theorem delivers_failed {rest : Option (List Byte)} {e : Ended} (failed : e.code = 1) (same : fileAt e.store s = fileAt st s) :
    Delivers st s d rest e :=
  ⟨fun success => (Nat.one_ne_zero (failed.symm.trans success)).elim,
    fun success => (Nat.one_ne_zero (failed.symm.trans success)).elim,fun _ => same⟩

theorem cp_delivers (turns : Nat) (calm : Calm st) (ordered : Ordered st.ram) (p : Process) (s d : List Byte) :
    ∃ e, cp (turns + 2) st p [s,d] = some e ∧ (Delivers st s d (fileAt st s) e ↔ CopiesWhole st p s d) := by
  obtain ⟨st',p',ok,ended,failure,success⟩ := copyFile_outcome turns calm ordered p s d
  unfold cp
  dsimp only
  rw [ended]
  cases ok with
  | false =>
    obtain ⟨same,none⟩ := failure rfl
    exact ⟨_,rfl,iff_of_true (delivers_failed rfl same) fun src dst c copies => absurd copies (none src dst c)⟩
  | true =>
    obtain ⟨_,src,dst,c,copies,copied⟩ := success rfl
    refine ⟨_,rfl,(copies.delivers rfl).trans ?_⟩
    dsimp only
    rw [copied.whole,fileAt_normal copies.source]
    constructor
    · rintro ⟨fits,_⟩ src' dst' c' again
      obtain ⟨rfl,rfl,rfl⟩ := copies.unique again
      exact fits
    · intro whole
      exact ⟨whole src dst c copies,copied.source⟩

theorem mv_copy {turns : Nat} {p' : Process} {ok : Bool} (copied : copyFile turns st p s d = some (st',p',ok)) :
    ∃ e, mv turns st p [s,d] = some e ∧ e.store = (if ok then lionRemove st' p' s else (st',false)).1 ∧
      e.code = if (if ok then lionRemove st' p' s else (st',false)).2 then 0 else 1 := by
  unfold copyFile at copied
  unfold mv
  dsimp only
  rcases first : lionOpen st p s vfsFRead with ⟨st₁,p₁,_ | a⟩
  · rw [first] at copied
    cases copied
    exact ⟨_,rfl,rfl,rfl⟩
  rw [first] at copied
  dsimp only at copied ⊢
  rcases second : lionOpen st₁ p₁ d vfsFWrite with ⟨st₂,p₂,_ | b⟩
  · rw [second] at copied
    cases copied
    exact ⟨_,rfl,rfl,rfl⟩
  rw [second] at copied
  dsimp only at copied ⊢
  rcases loop : copyLoop turns st₂ p₂ a b with _ | ⟨st₃,p₃,ok'⟩
  · rw [loop] at copied
    cases copied
  rw [loop] at copied
  cases copied
  dsimp only
  rcases (if ok then lionRemove st' (lionClose (lionClose p₃ a) b) s else (st',false)) with ⟨st₄,_ | _⟩
  · exact ⟨_,rfl,rfl,rfl⟩
  · exact ⟨_,rfl,rfl,rfl⟩

/-- A copy of a program onto itself has nothing to write. -/
theorem Copies.program (copies : Copies st p s d src dst c) (copied : Copied st src dst c st')
    (program : programIndex src ≠ none) : contentAt st' src = contentAt st src := by
  by_cases same : src = dst
  · subst same
    have present := contentAt_present copies.content
    have memory : backendFor st src = backendRamfs := by
      have shown : (ramfsData st.ram src).isSome = true := by
        obtain ⟨i,found⟩ := Option.ne_none_iff_exists'.mp program
        unfold ramfsData
        rw [found]
        rfl
      exact if_pos shown
    have empty : c = [] := by
      by_contra some_
      have accepted := copies.accepted some_
      unfold accepts placeFor at accepted
      rw [if_pos present,memory,if_neg (by decide),Option.isNone_iff_eq_none] at accepted
      exact program accepted
    rw [copied.content,if_pos empty,if_neg present]
  · exact copied.source same

theorem mv_delivers (turns : Nat) (calm : Calm st) (ordered : Ordered st.ram) (p : Process) (s d : List Byte) :
    ∃ e, mv (turns + 2) st p [s,d] = some e ∧ (Delivers st s d none e ↔ MovesWhole st p s d) := by
  obtain ⟨st',p',ok,ended,failure,success⟩ := copyFile_outcome turns calm ordered p s d
  obtain ⟨e,moved,store,code⟩ := mv_copy ended
  refine ⟨e,moved,?_⟩
  cases ok with
  | false =>
    obtain ⟨same,none⟩ := failure rfl
    exact iff_of_true (delivers_failed code (by rw [store]; exact same)) fun src dst c copies => absurd copies (none src dst c)
  | true =>
    obtain ⟨capable,src,dst,c,copies,copied⟩ := success rfl
    have removes : lionRemove st' p' s = vfsRemove st' s :=
      if_neg (not_or.mpr ⟨by rw [capable]; decide,Nat.not_le_of_lt copies.short.1⟩)
    rw [if_pos rfl,removes] at store code
    by_cases program : programIndex src = none
    · obtain ⟨b,target⟩ := copied.target
      obtain ⟨st'',gone,rest⟩ := vfsRemove_behind copied.calm copied.ordered target program copies.source
      rw [gone] at store code
      rw [copies.delivers code,store]
      dsimp only
      rw [rest,copied.behind]
      have condition : MovesWhole st p s d ↔ if src = dst then behind st src = some c else Fits st dst c ∧ behind st src = none := by
        constructor
        · exact fun whole => whole src dst c copies program
        · intro whole src' dst' c' again _
          obtain ⟨rfl,rfl,rfl⟩ := copies.unique again
          exact whole
      rw [condition]
      by_cases same : src = dst
      · subst same
        rw [if_pos rfl,rest,copied.behind]
        exact and_iff_left fun apart => absurd rfl apart
      · have other : contentAt st'' dst = contentAt st' dst := by
          refine contentAt_same fun disk => ?_
          have kept := @vfsRemove_content st' disk dst s copied.calm.mounted copied.calm.ready (pathName_normal copies.target)
            fun normal => absurd (Option.some_inj.mp (copies.source.symm.trans normal)) same
          rw [gone] at kept
          exact kept.2
        rw [if_neg same,other,copied.whole]
        exact and_congr_right fun _ => ⟨fun behind => behind same,fun none _ => none⟩
    · rw [vfsRemove_program program copies.source] at store code
      refine iff_of_true (delivers_failed code ?_) fun src' dst' c' again none => ?_
      · rw [store,fileAt_normal copies.source,fileAt_normal copies.source]
        exact copies.program copied program
      · obtain ⟨rfl,rfl,rfl⟩ := copies.unique again
        exact absurd none program

end Copying

/-- `cp` and `mv` come to their end, and they preserve the data just if the source fits in one write of the
destination and nothing comes up behind a moved source. -/
theorem copy_move_iff (turns : Nat) (st : Store) (p : Process) (s d : List Byte) (calm : Calm st) (ordered : Ordered st.ram) :
    (∃ e, cp (turns + 2) st p [s,d] = some e ∧ (Delivers st s d (fileAt st s) e ↔ CopiesWhole st p s d)) ∧
      ∃ e, mv (turns + 2) st p [s,d] = some e ∧ (Delivers st s d none e ↔ MovesWhole st p s d) :=
  ⟨cp_delivers turns calm ordered p s d,mv_delivers turns calm ordered p s d⟩

/-- A memory file system with a file `a` of one byte and an empty file `b`. -/
def twoFiles : Store :=
  {bareStore with ram := ⟨fun _ => [],fun i => if i = 0 then ⟨letter,fun _ => 1,1⟩ else ⟨[98],fun _ => 0,0⟩,2⟩}

theorem twoFiles_calm : Calm twoFiles := ⟨bareStore_calm.mounted,bareStore_calm.ready⟩

theorem twoFiles_ordered : Ordered twoFiles.ram := by
  have small : ∀ i < 2, (twoFiles.ram.files i).size ≤ ramfsDataMax := by decide
  have distinct : ∀ i < 2, ∀ j < 2, (twoFiles.ram.files i).name = (twoFiles.ram.files j).name → i = j := by decide
  exact ⟨by decide,small,fun i j first second => distinct i first j second⟩

theorem copy_move_iff_letter :
    (∃ e, cp 2 twoFiles grepper [letter,[98]] = some e ∧
      (Delivers twoFiles letter [98] (fileAt twoFiles letter) e ↔ CopiesWhole twoFiles grepper letter [98])) ∧
      ∃ e, mv 2 twoFiles grepper [letter,[98]] = some e ∧
        (Delivers twoFiles letter [98] none e ↔ MovesWhole twoFiles grepper letter [98]) :=
  copy_move_iff 0 twoFiles grepper letter [98] twoFiles_calm twoFiles_ordered

/-- A copy of an empty file exits with 0 and leaves the old content of its destination. -/
theorem empty_copy_skipped : ¬∀ (turns : Nat) (st : Store) (p : Process) (s d : List Byte), Calm st → Ordered st.ram →
    (∀ e, cp (turns + 2) st p [s,d] = some e → Delivers st s d (fileAt st s) e) ∧
      ∀ e, mv (turns + 2) st p [s,d] = some e → Delivers st s d none e := by
  intro all
  obtain ⟨copies,-⟩ := all 0 twoFiles grepper [98] letter twoFiles_calm twoFiles_ordered
  have code : (cp 2 twoFiles grepper [[98],letter]).map Ended.code = some 0 := by decide
  have content : (cp 2 twoFiles grepper [[98],letter]).map (fun e => fileAt e.store letter) = some (some [1]) := by decide
  have source : fileAt twoFiles [98] = some [] := by decide
  obtain ⟨e,ended,success⟩ := Option.map_eq_some_iff.mp code
  obtain ⟨c,before,after⟩ := (copies e ended).copied success
  rw [ended,Option.map_some,after,Option.some_inj] at content
  rw [source,content] at before
  cases before

end LionOS.Programs

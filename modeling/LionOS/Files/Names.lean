import LionOS.Physical
import Mathlib.Data.List.Basic
import Mathlib.Data.List.TakeWhile

/-! File names as the contents of C strings and the normalisation of paths. -/
namespace LionOS.Files
open LionOS.Physical

def vfsPathMax : Nat := 64
def slash : Byte := 47
def dot : Byte := 46
def backslash : Byte := 92

/-- The characters of the string that starts a buffer. -/
def cstring (bytes : List Byte) : List Byte := bytes.takeWhile (· ≠ 0)

/-- The bytes of an ASCII literal. -/
def ascii (text : List Char) : List Byte := text.map fun c => BitVec.ofNat 8 c.toNat

/-- `streq` of the string at a memory address against the characters `b`. -/
def streq : (Nat → Byte) → List Byte → Bool
  | a, [] => a 0 == 0
  | a, c::rest => a 0 == c && streq (fun i => a (i+1)) rest

/-- What `copy_name` leaves in a name of 64 bytes. -/
def copyName (old : Nat → Byte) (name : List Byte) : Nat → Byte := fun i =>
  let kept := name.take 63
  if i < kept.length then kept.getD i 0 else if i = kept.length then 0 else old i

/-- The characters of `dst` without its last component. -/
def popComponent (dst : List Byte) : List Byte :=
  (dst.reverse.dropWhile (· ≠ slash)).tail.reverse

/-- One component of a path: `none` where `path_normalize` returns -1. -/
def addComponent (dst part : List Byte) : Option (List Byte) :=
  if part.length ≥ vfsPathMax then none
  else if part = [dot] then some dst
  else if part = [dot,dot] then some (popComponent dst)
  else if dst = [] then
    if part.length ≥ vfsPathMax then none else some part
  else if dst.length + 1 ≥ vfsPathMax then none
  else if dst.length + 1 + part.length ≥ vfsPathMax then none
  else some (dst ++ slash::part)

/-- The components of a path between its slashes. -/
def components (path : List Byte) : List (List Byte) :=
  (path.splitOn slash).filter (· ≠ [])

def pathNormalize (src : List Byte) : Option (List Byte) :=
  match (components (cstring src)).foldlM addComponent [] with
  | none => none
  | some dst => if dst = [] then none else some dst

theorem streq_iff {a : Nat → Byte} {b : List Byte} :
    streq a b = true ↔ (∀ i, i < b.length → a i = b.getD i 0) ∧ a b.length = 0 := by
  induction b generalizing a with
  | nil => simp [streq]
  | cons c rest ih =>
    simp only [streq,Bool.and_eq_true,beq_iff_eq,ih,List.length_cons]
    constructor
    · rintro ⟨first,later,last⟩
      refine ⟨?_,last⟩
      intro i bound
      cases i with
      | zero => simpa using first
      | succ i => simpa using later i (by omega)
    · rintro ⟨all,last⟩
      refine ⟨by simpa using all 0 (by omega),?_,last⟩
      intro i bound
      simpa using all (i+1) (by omega)

theorem streq_congr {a a' : Nat → Byte} {b : List Byte} (same : ∀ i, i ≤ b.length → a i = a' i) :
    streq a b = streq a' b := by
  rw [Bool.eq_iff_iff,streq_iff,streq_iff,same _ (Nat.le_refl _)]
  constructor
  · rintro ⟨all,last⟩
    exact ⟨fun i bound => (same i (by omega)).symm.trans (all i bound),last⟩
  · rintro ⟨all,last⟩
    exact ⟨fun i bound => (same i (by omega)).trans (all i bound),last⟩

theorem streq_copyName (old : Nat → Byte) {name : List Byte} (short : name.length ≤ 63) :
    streq (copyName old name) name = true := by
  have kept : name.take 63 = name := List.take_of_length_le short
  rw [streq_iff]
  constructor
  · intro i bound
    simp [copyName,kept,bound]
  · simp [copyName,kept]

theorem splitOn_mem {path part : List Byte} (member : part ∈ path.splitOn slash) :
    ∀ c ∈ part, c ∈ path := by
  induction path generalizing part with
  | nil =>
    simp only [List.splitOn_nil,List.mem_singleton] at member
    simp [member]
  | cons x rest ih =>
    rw [List.splitOn_cons_eq_if_modifyHead] at member
    split at member
    · rcases List.mem_cons.mp member with rfl | later
      · simp
      · exact fun c inside => List.mem_cons_of_mem _ (ih later c inside)
    · cases parts : rest.splitOn slash with
      | nil => simp [parts] at member
      | cons head tail =>
        rw [parts] at member ih
        simp only [List.modifyHead_cons,List.mem_cons] at member
        intro c inside
        rcases member with rfl | later
        · rcases List.mem_cons.mp inside with rfl | inside
          · exact List.mem_cons_self
          · exact List.mem_cons_of_mem _ (ih List.mem_cons_self c inside)
        · exact List.mem_cons_of_mem _ (ih (List.mem_cons_of_mem _ later) c inside)

/-- A name in normal form: text of at most 63 characters. -/
structure CleanName (name : List Byte) : Prop where
  text : 0 ∉ name
  short : name.length ≤ 63

theorem popComponent_clean {dst : List Byte} (clean : CleanName dst) : CleanName (popComponent dst) := by
  have part (c : Byte) (member : c ∈ popComponent dst) : c ∈ dst := by
    unfold popComponent at member
    rw [List.mem_reverse] at member
    exact List.mem_reverse.mp ((List.dropWhile_suffix _).mem (List.mem_of_mem_tail member))
  refine ⟨fun zero => clean.text (part 0 zero),?_⟩
  have shorter : (popComponent dst).length ≤ dst.length := by
    unfold popComponent
    rw [List.length_reverse,List.length_tail]
    have dropped : (dst.reverse.dropWhile (· ≠ slash)).length ≤ dst.reverse.length :=
      (List.dropWhile_suffix _).length_le
    rw [List.length_reverse] at dropped
    omega
  exact Nat.le_trans shorter clean.short

theorem addComponent_clean {dst part dst' : List Byte} (clean : CleanName dst) (text : 0 ∉ part)
    (added : addComponent dst part = some dst') : CleanName dst' := by
  unfold addComponent at added
  split at added
  · cases added
  next short =>
    have bound : part.length ≤ 63 := by
      unfold vfsPathMax at short
      omega
    split at added
    · cases added
      exact clean
    split at added
    · cases added
      exact popComponent_clean clean
    split at added
    · cases added
      exact ⟨text,bound⟩
    split at added
    · cases added
    split at added
    · cases added
    next room =>
      cases added
      refine ⟨?_,?_⟩
      · simp only [List.mem_append,List.mem_cons,not_or]
        exact ⟨clean.text,by decide,text⟩
      · unfold vfsPathMax at room
        simp only [List.length_append,List.length_cons]
        omega

theorem pathNormalize_clean {src name : List Byte} (normal : pathNormalize src = some name) :
    CleanName name ∧ name ≠ [] := by
  have folded (parts : List (List Byte)) (texts : ∀ part ∈ parts, 0 ∉ part) (dst dst' : List Byte)
      (clean : CleanName dst) (all : parts.foldlM addComponent dst = some dst') : CleanName dst' := by
    induction parts generalizing dst with
    | nil =>
      cases all
      exact clean
    | cons part rest ih =>
      rw [List.foldlM_cons] at all
      obtain ⟨next,added,all⟩ := Option.bind_eq_some_iff.mp all
      exact ih (fun p member => texts p (List.mem_cons_of_mem _ member)) next
        (addComponent_clean clean (texts part List.mem_cons_self) added) all
  unfold pathNormalize at normal
  split at normal
  · cases normal
  next dst all =>
    split at normal
    · cases normal
    next nonempty =>
      cases normal
      refine ⟨folded _ ?_ [] _ ⟨by simp,by simp⟩ all,nonempty⟩
      intro part member zero
      have inside := splitOn_mem (List.mem_of_mem_filter member) 0 zero
      simpa using List.mem_takeWhile_imp inside

end LionOS.Files

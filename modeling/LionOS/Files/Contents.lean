import LionOS.Files.Layout
import Mathlib.Data.List.GetD

/-! The table as a set of named files: each used entry has the text of a name, its own
extent and a size that fits, and no two have the same name. -/
namespace LionOS.Files
open LionOS.Physical LionOS.Library

/-- The characters of a C string. -/
structure Text where
  chars : List Byte
  ends : 0 ∉ chars

def entryName (e : Entry) : List Byte := cstring ((List.range diskfsNameMax).map e.name)

/-- A file as the calls of LionFS show it: its size and what a read with room for it
gives. -/
def diskFile (d : DiskFs) (name : List Byte) : Option (Nat × Option (List Byte)) :=
  if diskfsExists d name then some (diskfsSize d name,(diskfsRead d name (diskfsSize d name)).2) else none

/-- What the code relies on in a table in memory. -/
structure Orderly (d : DiskFs) : Prop where
  terminated : ∀ i, i < diskfsMaxFiles → (d.entries i).name 0 ≠ 0 → ∃ k, k < diskfsNameMax ∧ (d.entries i).name k = 0
  distinct : ∀ i j, i < diskfsMaxFiles → j < diskfsMaxFiles → i ≠ j → (d.entries i).name 0 ≠ 0 →
    (d.entries j).name 0 ≠ 0 → entryName (d.entries i) ≠ entryName (d.entries j)
  small : ∀ i, i < diskfsMaxFiles → (d.entries i).name 0 ≠ 0 → (d.entries i).size ≤ diskfsMaxFileSize
  own : ∀ i, i < diskfsMaxFiles → (d.entries i).name 0 ≠ 0 →
    (d.entries i).startLba = diskfsDataLba + i * diskfsSectorsPerFile
  count : d.fileCount = liveCount d.entries

structure Named (e : Entry) (name : List Byte) : Prop where
  given : name ≠ []
  text : 0 ∉ name
  short : name.length ≤ 63
  bytes : e.name = fun k => name.getD k 0

theorem getD_nonzero {name : List Byte} (text : 0 ∉ name) {k : Nat} : name.getD k 0 = 0 ↔ name.length ≤ k := by
  refine ⟨?_,List.getD_eq_default _ _⟩
  intro zero
  by_contra inside
  rw [Nat.not_le] at inside
  rw [List.getD_eq_getElem _ _ inside] at zero
  exact text (zero ▸ List.getElem_mem inside)

theorem Named.first {e : Entry} {name : List Byte} (named : Named e name) : e.name 0 ≠ 0 := by
  rw [named.bytes,ne_eq,getD_nonzero named.text,Nat.not_le]
  exact List.length_pos_of_ne_nil named.given

theorem Named.holds {entries : Nat → Entry} {i : Nat} {name g : List Byte} (named : Named (entries i) name)
    (text : 0 ∉ g) : holds entries g i = true ↔ name = g := by
  have bytes {k : Nat} (inside : k ≤ 63) : nameAt entries i k = name.getD k 0 := by
    rw [nameAt_inside entries i (by omega),named.bytes]
  have short := named.short
  rw [Files.holds,Bool.and_eq_true,bne_iff_ne,and_iff_right named.first,streq_iff]
  refine ⟨?_,?_⟩
  · rintro ⟨all,last⟩
    have shorter : g.length ≤ name.length := by
      by_contra longer
      have differs := all name.length (by omega)
      rw [bytes short,(getD_nonzero named.text).mpr (Nat.le_refl _)] at differs
      exact longer ((getD_nonzero text).mp differs.symm)
    rw [bytes (by omega),getD_nonzero named.text] at last
    apply List.ext_getElem (Nat.le_antisymm last shorter)
    intro k left right
    have same := all k right
    rwa [bytes (by omega),List.getD_eq_getElem _ _ left,List.getD_eq_getElem _ _ right] at same
  · rintro rfl
    refine ⟨?_,?_⟩
    · intro k inside
      exact bytes (by omega)
    · rw [bytes short]
      exact (getD_nonzero named.text).mpr (Nat.le_refl _)

theorem Named.entryName {e : Entry} {name : List Byte} (named : Named e name) : entryName e = name := by
  have short := named.short
  have list : (List.range diskfsNameMax).map e.name = name ++ List.replicate (64 - name.length) 0 := by
    rw [named.bytes]
    apply List.ext_getElem
    · simp [diskfsNameMax]
      omega
    · intro k left right
      rw [List.getElem_map,List.getElem_range]
      by_cases inside : k < name.length
      · rw [List.getD_eq_getElem _ _ inside,List.getElem_append_left inside]
      · rw [List.getD_eq_default _ _ (Nat.not_lt.mp inside),List.getElem_append_right (Nat.not_lt.mp inside),
          List.getElem_replicate]
  obtain ⟨m,rest⟩ : ∃ m, 64 - name.length = m + 1 := ⟨63 - name.length,by omega⟩
  have inside : ∀ c ∈ name, decide (c ≠ 0) = true := by
    intro c member
    apply decide_eq_true
    rintro rfl
    exact named.text member
  rw [Files.entryName,list,rest,cstring,List.replicate_succ,List.takeWhile_append_of_pos inside]
  simp

theorem copyName_blank {name : List Byte} (short : name.length ≤ 63) :
    copyName (fun _ => 0) name = fun k => name.getD k 0 := by
  ext1 k
  simp only [copyName,List.take_of_length_le short]
  split
  · rfl
  next outside =>
    rw [List.getD_eq_default _ _ (Nat.not_lt.mp outside),ite_self]

def blankEntry : Entry := ⟨fun _ => 0,0,0⟩

structure FileEntry (i : Nat) (e : Entry) : Prop where
  named : ∃ name, Named e name
  small : e.size ≤ diskfsMaxFileSize
  own : e.startLba = diskfsDataLba + i * diskfsSectorsPerFile

structure Tidy (entries : Nat → Entry) : Prop where
  slots : ∀ i, entries i = blankEntry ∨ i < diskfsMaxFiles ∧ FileEntry i (entries i)
  distinct : ∀ {i j name}, Named (entries i) name → Named (entries j) name → i = j

theorem FileEntry.kept {i : Nat} {e : Entry} (file : FileEntry i e) : kept i e := by
  obtain ⟨⟨name,named⟩,small,own⟩ := file
  exact ⟨named.first,small,own⟩

theorem FileEntry.encoded {i : Nat} {e : Entry} (bound : i < diskfsMaxFiles) (file : FileEntry i e) : Encoded e := by
  obtain ⟨⟨name,named⟩,small,own⟩ := file
  have short := named.short
  unfold diskfsMaxFiles at bound
  unfold diskfsMaxFileSize at small
  unfold diskfsDataLba diskfsSectorsPerFile at own
  refine ⟨?_,by omega,by omega⟩
  intro k outside
  rw [named.bytes]
  exact List.getD_eq_default _ _ (by omega)

theorem blankEntry_encoded : Encoded blankEntry := ⟨fun _ _ => rfl,Nat.two_pow_pos 32,Nat.two_pow_pos 32⟩

theorem entryByte_blank (k : Nat) : entryByte blankEntry k = 0 := by
  have zero (n : Nat) : byte32 0 n = 0 := by
    match n with
    | 0 | 1 | 2 | 3 => rfl
    | n+4 => rfl
  rw [entryByte]
  split
  · rfl
  split
  · exact zero _
  · exact zero _

section Tables
variable {entries : Nat → Entry}

theorem Tidy.file (tidy : Tidy entries) {i : Nat} (live : (entries i).name 0 ≠ 0) :
    i < diskfsMaxFiles ∧ FileEntry i (entries i) := by
  rcases tidy.slots i with blank | file
  · rw [blank] at live
    exact absurd rfl live
  · exact file

theorem Tidy.blank (tidy : Tidy entries) {i : Nat} (free : (entries i).name 0 = 0) : entries i = blankEntry := by
  rcases tidy.slots i with blank | ⟨_,file⟩
  · exact blank
  · exact absurd free file.kept.1

/-- The search for a name finds the entry of that name. -/
theorem Tidy.find (tidy : Tidy entries) {g : List Byte} (text : 0 ∉ g) {i : Nat} :
    diskfsFind entries g = some i ↔ Named (entries i) g := by
  have holds_named {j : Nat} : holds entries g j = true ↔ Named (entries j) g := by
    by_cases live : (entries j).name 0 = 0
    · refine ⟨?_,fun named => absurd live named.first⟩
      intro held
      rw [Files.holds,live] at held
      cases held
    · obtain ⟨_,⟨name,named⟩,_,_⟩ := tidy.file live
      rw [named.holds text]
      refine ⟨fun same => same ▸ named,?_⟩
      intro also
      rw [← named.entryName,also.entryName]
  unfold diskfsFind
  rw [find_range]
  refine ⟨fun found => holds_named.mp found.2.1,?_⟩
  intro named
  refine ⟨(tidy.file named.first).1,holds_named.mpr named,?_⟩
  intro j less
  rw [Bool.eq_false_iff]
  intro held
  have same := tidy.distinct (holds_named.mp held) named
  omega

theorem Tidy.orderly {d : DiskFs} (tidy : Tidy d.entries) (count : d.fileCount = liveCount d.entries) : Orderly d := by
  refine ⟨?_,?_,?_,?_,count⟩
  · intro i _ live
    obtain ⟨_,⟨name,named⟩,_,_⟩ := tidy.file live
    have short := named.short
    refine ⟨name.length,by unfold diskfsNameMax; omega,?_⟩
    rw [named.bytes]
    exact List.getD_eq_default _ _ (Nat.le_refl _)
  · intro i j _ _ other live live' same
    obtain ⟨_,⟨name,named⟩,_,_⟩ := tidy.file live
    obtain ⟨_,⟨name',named'⟩,_,_⟩ := tidy.file live'
    rw [named.entryName,named'.entryName] at same
    subst same
    exact other (tidy.distinct named named')
  · intro i _ live
    exact (tidy.file live).2.small
  · intro i _ live
    exact (tidy.file live).2.own

end Tables

end LionOS.Files

import LionOS.Files.Contents
import LionOS.Library.Simulation
import LionOS.Library.Table

/-! The environment of the C library: `getenv`, `setenv` and `unsetenv` on sixteen entries are a map
from names to values with bounds on its size and on its strings. -/
namespace LionOS.Programs
open LionOS.Files LionOS.Library
open LionOS.Physical (Byte)

def envEntries : Nat := 16
def envNameSize : Nat := 32
def envValueSize : Nat := 96

/-- `strcmp` of a string in memory and the characters of another. -/
def strcmp : (Nat → Byte) → List Byte → Int
  | a, [] => (a 0).toNat
  | a, c::rest => if a 0 ≠ 0 ∧ a 0 = c then strcmp (fun i => a (i+1)) rest else (a 0).toNat - c.toNat

def envNameMatch (a : Nat → Byte) (b : List Byte) : Bool := strcmp a b = 0

/-- `memcpy` of the characters and the zero after them. -/
def copyString (old : Nat → Byte) (text : List Byte) : Nat → Byte := fun i =>
  if i < text.length + 1 then text.getD i 0 else old i

/-- The string in a buffer of `size` bytes. -/
def stringIn (size : Nat) (buffer : Nat → Byte) : List Byte := cstring ((List.range size).map buffer)

structure EnvEntry where
  name : Nat → Byte
  value : Nat → Byte
  used : Bool

abbrev Environment := Nat → EnvEntry

/-- The entry that has the name. -/
def envFind (env : Environment) (name : List Byte) : Option Nat :=
  (List.range envEntries).find? fun i => (env i).used && envNameMatch (env i).name name

def envFree (env : Environment) : Option Nat := (List.range envEntries).find? fun i => !(env i).used

/-- `getenv` with the string that its result points to; a name that is `none` is null. -/
def getenv (env : Environment) : Option (List Byte) → Option (List Byte)
  | none => none
  | some name => (envFind env name).map fun i => stringIn envValueSize (env i).value

def setenv (env : Environment) (name value : Option (List Byte)) (overwrite : Bool) : Environment × Int :=
  match name,value with
  | some name,some value =>
    if name = [] then (env,-1)
    else match envFind env name with
      | some i =>
        if !overwrite then (env,0)
        else if value.length ≥ envValueSize then (env,-1)
        else (Function.update env i {env i with value := copyString (env i).value value},0)
      | none => match envFree env with
        | some i =>
          if name.length ≥ envNameSize ∨ value.length ≥ envValueSize then (env,-1)
          else (Function.update env i ⟨copyString (env i).name name,copyString (env i).value value,true⟩,0)
        | none => (env,-1)
  | _,_ => (env,-1)

def unsetenv (env : Environment) : Option (List Byte) → Environment × Int
  | none => (env,-1)
  | some name => match envFind env name with
    | some i => (Function.update env i {env i with used := false},0)
    | none => (env,-1)

inductive EnvCall
  | getenv (name : Option Text)
  | setenv (name value : Option Text) (overwrite : Bool)
  | unsetenv (name : Option Text)

inductive EnvAnswer
  | string (s : Option (List Byte))
  | status (code : Int)

def environment : Machine Environment EnvCall EnvAnswer
  | env, .getenv name => (env,.string (getenv env (name.map Text.chars)))
  | env, .setenv name value overwrite =>
    let (env,code) := setenv env (name.map Text.chars) (value.map Text.chars) overwrite
    (env,.status code)
  | env, .unsetenv name =>
    let (env,code) := unsetenv env (name.map Text.chars)
    (env,.status code)

/-- The entries before the first call. -/
def emptyEnvironment : Environment := fun _ => ⟨fun _ => 0,fun _ => 0,false⟩

/-- Names and their values. -/
abbrev Vars := Map (List Byte) (List Byte)

def Vars.set (vars : Vars) (name value : List Byte) (overwrite : Bool) : Vars × Int :=
  if name = [] then (vars,-1)
  else if name ∈ vars then
    if !overwrite then (vars,0)
    else if value.length ≥ envValueSize then (vars,-1)
    else (vars.insert name value,0)
  else if vars.keys.card ≥ envEntries ∨ name.length ≥ envNameSize ∨ value.length ≥ envValueSize then (vars,-1)
  else (vars.insert name value,0)

def Vars.unset (vars : Vars) (name : List Byte) : Vars × Int :=
  if name ∈ vars then (vars.erase name,0) else (vars,-1)

/-- What the calls mean. -/
def varMap : Machine Vars EnvCall EnvAnswer
  | vars, .getenv name => (vars,.string (name.bind fun n => vars.lookup n.chars))
  | vars, .setenv (some name) (some value) overwrite =>
    let (vars,code) := vars.set name.chars value.chars overwrite
    (vars,.status code)
  | vars, .setenv _ _ _ => (vars,.status (-1))
  | vars, .unsetenv (some name) =>
    let (vars,code) := vars.unset name.chars
    (vars,.status code)
  | vars, .unsetenv none => (vars,.status (-1))

def entry (env : Environment) (i : Nat) : Option (List Byte × List Byte) :=
  if (env i).used then some (stringIn envNameSize (env i).name,stringIn envValueSize (env i).value) else none

/-- The entries hold the variables, and each string of theirs ends in its buffer. -/
structure Keeps (env : Environment) (vars : Vars) : Prop where
  represents : Represents envEntries (entry env) vars
  name_ends : ∀ i < envEntries, (env i).used → ∃ k < envNameSize, (env i).name k = 0
  value_ends : ∀ i < envEntries, (env i).used → ∃ k < envValueSize, (env i).value k = 0

section Strings
variable {size : Nat} {a old : Nat → Byte} {text : List Byte}

theorem stringIn_succ : stringIn (size + 1) a = if a 0 = 0 then [] else a 0::stringIn size fun i => a (i + 1) := by
  unfold stringIn cstring
  rw [List.range_succ_eq_map,List.map_cons,List.map_map,List.takeWhile_cons]
  by_cases zero : a 0 = 0
  · simp [zero]
  · simp [Function.comp_def]

/-- `strcmp` finds two strings equal when their characters are the same. -/
theorem strcmp_zero (ends : ∃ k < size, a k = 0) (plain : 0 ∉ text) : strcmp a text = 0 ↔ stringIn size a = text := by
  induction text generalizing a size with
  | nil =>
    obtain ⟨k,inside,_⟩ := ends
    obtain ⟨n,rfl⟩ := Nat.exists_eq_succ_of_ne_zero (Nat.ne_zero_of_lt inside)
    rw [strcmp,stringIn_succ]
    by_cases zero : a 0 = 0
    · simp [zero]
    · rw [if_neg zero]
      simpa [BitVec.toNat_eq] using zero
  | cons c rest ih =>
    obtain ⟨k,inside,at_⟩ := ends
    obtain ⟨n,rfl⟩ := Nat.exists_eq_succ_of_ne_zero (Nat.ne_zero_of_lt inside)
    rw [List.mem_cons,not_or] at plain
    rw [strcmp,stringIn_succ]
    by_cases zero : a 0 = 0
    · rw [if_neg (by simp [zero]),if_pos zero]
      have some_ : c.toNat ≠ 0 := by
        simpa [BitVec.toNat_eq,eq_comm] using plain.1
      have nothing : (a 0).toNat = 0 := by rw [zero]; rfl
      simp only [List.nil_eq,reduceCtorEq,iff_false]
      omega
    · rw [if_neg zero]
      by_cases same : a 0 = c
      · rw [if_pos ⟨zero,same⟩,List.cons_eq_cons,and_iff_right same]
        refine ih ?_ plain.2
        cases k with
        | zero => exact absurd at_ zero
        | succ k => exact ⟨k,Nat.lt_of_succ_lt_succ inside,at_⟩
      · rw [if_neg (by simp [same]),List.cons_eq_cons]
        have differ : (a 0).toNat ≠ c.toNat := fun equal => same (BitVec.eq_of_toNat_eq equal)
        simp only [same,false_and,iff_false]
        omega

theorem stringIn_copy (plain : 0 ∉ text) (short : text.length < size) : stringIn size (copyString old text) = text := by
  induction text generalizing old size with
  | nil =>
    obtain ⟨n,rfl⟩ := Nat.exists_eq_succ_of_ne_zero (Nat.ne_zero_of_lt short)
    rw [stringIn_succ]
    exact if_pos rfl
  | cons c rest ih =>
    obtain ⟨n,rfl⟩ := Nat.exists_eq_succ_of_ne_zero (Nat.ne_zero_of_lt short)
    rw [List.mem_cons,not_or] at plain
    have tail : (fun i => copyString old (c::rest) (i + 1)) = copyString (fun i => old (i + 1)) rest := by
      funext i
      simp [copyString]
    rw [stringIn_succ,tail,ih plain.2 (Nat.lt_of_succ_lt_succ short)]
    exact if_neg (Ne.symm plain.1)

theorem copy_ends (short : text.length < size) : ∃ k < size, copyString old text k = 0 := by
  refine ⟨text.length,short,?_⟩
  simp [copyString]

end Strings

section Entries
variable {env : Environment} {vars : Vars} {name value : List Byte} {i : Nat}

theorem entry_some {v : List Byte} (here : entry env i = some (name,v)) :
    (env i).used ∧ stringIn envNameSize (env i).name = name ∧ stringIn envValueSize (env i).value = v := by
  unfold entry at here
  split at here
  · rename_i used
    rw [Option.some_inj,Prod.mk.injEq] at here
    exact ⟨used,here⟩
  · cases here

theorem entry_used (used : (env i).used) :
    entry env i = some (stringIn envNameSize (env i).name,stringIn envValueSize (env i).value) := if_pos used

theorem Keeps.matches (keeps : Keeps env vars) (inside : i < envEntries) (plain : 0 ∉ name) :
    ((env i).used && envNameMatch (env i).name name) = true ↔ (env i).used ∧ stringIn envNameSize (env i).name = name := by
  rw [Bool.and_eq_true,envNameMatch,decide_eq_true_eq]
  exact and_congr_right fun used => strcmp_zero (keeps.name_ends i inside used) plain

/-- The search finds the slot of a variable. -/
theorem Keeps.find_some (keeps : Keeps env vars) (plain : 0 ∉ name) (found : envFind env name = some i) :
    i < envEntries ∧ (env i).used ∧ entry env i = some (name,stringIn envValueSize (env i).value) := by
  obtain ⟨inside,test,_⟩ := find_range.mp found
  obtain ⟨used,same⟩ := (keeps.matches inside plain).mp test
  refine ⟨inside,used,?_⟩
  rw [entry_used used,same]

theorem Keeps.find_none (keeps : Keeps env vars) (plain : 0 ∉ name) (found : envFind env name = none) :
    vars.lookup name = none := by
  rw [keeps.represents.absent]
  intro j inside v here
  obtain ⟨used,same,_⟩ := entry_some here
  have missed := find_range_none.mp found j inside
  rw [(keeps.matches inside plain).mpr ⟨used,same⟩] at missed
  cases missed

theorem Keeps.lookup (keeps : Keeps env vars) (plain : 0 ∉ name) : getenv env (some name) = vars.lookup name := by
  rw [getenv]
  cases found : envFind env name with
  | none => exact (keeps.find_none plain found).symm
  | some i =>
    obtain ⟨inside,_,here⟩ := keeps.find_some plain found
    exact (keeps.represents.present inside here).symm

theorem Keeps.free_none (keeps : Keeps env vars) (free : envFree env = none) : envEntries ≤ vars.keys.card := by
  rw [keeps.represents.full]
  intro j inside
  have used := find_range_none.mp free j inside
  rw [Bool.not_eq_false'] at used
  rw [entry_used used]
  rfl

theorem Keeps.free_some (keeps : Keeps env vars) (free : envFree env = some i) :
    i < envEntries ∧ entry env i = none ∧ vars.keys.card < envEntries := by
  obtain ⟨inside,unused,_⟩ := find_range.mp free
  rw [Bool.not_eq_true'] at unused
  have vacant : entry env i = none := if_neg (by rw [unused]; decide)
  refine ⟨inside,vacant,?_⟩
  rw [← not_le,keeps.represents.full]
  intro all
  have full := all i inside
  rw [vacant] at full
  cases full

theorem entry_update (e : EnvEntry) : ∀ j, j ≠ i → entry (Function.update env i e) j = entry env j := by
  intro j other
  rw [entry,Function.update_of_ne other,entry]

theorem Keeps.update (keeps : Keeps env vars) {vars' : Vars} {e : EnvEntry}
    (represents : Represents envEntries (entry (Function.update env i e)) vars')
    (name_ends : e.used → ∃ k < envNameSize, e.name k = 0) (value_ends : e.used → ∃ k < envValueSize, e.value k = 0) :
    Keeps (Function.update env i e) vars' := by
  refine ⟨represents,?_,?_⟩
  · intro j inside
    by_cases own : j = i
    · subst own
      rwa [Function.update_self]
    · rw [Function.update_of_ne own]
      exact keeps.name_ends j inside
  · intro j inside
    by_cases own : j = i
    · subst own
      rwa [Function.update_self]
    · rw [Function.update_of_ne own]
      exact keeps.value_ends j inside

end Entries

section Calls
variable {env : Environment} {vars : Vars} {name value : List Byte}

theorem setenv_keeps (keeps : Keeps env vars) (plain : 0 ∉ name) (plainValue : 0 ∉ value) (overwrite : Bool) :
    (setenv env (some name) (some value) overwrite).2 = (vars.set name value overwrite).2 ∧
      Keeps (setenv env (some name) (some value) overwrite).1 (vars.set name value overwrite).1 := by
  unfold setenv Vars.set
  dsimp only
  by_cases blank : name = []
  · rw [if_pos blank,if_pos blank]
    exact ⟨rfl,keeps⟩
  rw [if_neg blank,if_neg blank]
  cases found : envFind env name with
  | some i =>
    obtain ⟨inside,used,here⟩ := keeps.find_some plain found
    rw [if_pos (keeps.represents.mem inside here)]
    cases overwrite with
    | false => exact ⟨rfl,keeps⟩
    | true =>
      by_cases long : value.length ≥ envValueSize
      · simp only [Bool.not_true,Bool.false_eq_true,if_false,if_pos long]
        exact ⟨trivial,keeps⟩
      · simp only [Bool.not_true,Bool.false_eq_true,if_false,if_neg long]
        have short := Nat.lt_of_not_le long
        refine ⟨trivial,keeps.update (keeps.represents.replace (entry_update _) inside here ?_) ?_ ?_⟩
        · have same := (entry_some here).2.1
          rw [entry,Function.update_self,if_pos used,stringIn_copy plainValue short,same]
        · exact keeps.name_ends i inside
        · exact fun _ => copy_ends short
  | none =>
    have absent := keeps.find_none plain found
    rw [if_neg (Finmap.lookup_eq_none.mp absent)]
    cases free : envFree env with
    | none =>
      rw [if_pos (.inl (keeps.free_none free))]
      exact ⟨rfl,keeps⟩
    | some i =>
      obtain ⟨inside,vacant,room⟩ := keeps.free_some free
      by_cases long : name.length ≥ envNameSize ∨ value.length ≥ envValueSize
      · simp only [if_pos long,if_pos (Or.inr long)]
        exact ⟨trivial,keeps⟩
      · have fits : ¬ (vars.keys.card ≥ envEntries ∨ name.length ≥ envNameSize ∨ value.length ≥ envValueSize) :=
          not_or.mpr ⟨Nat.not_le.mpr room,long⟩
        simp only [if_neg long,if_neg fits]
        rw [not_or,Nat.not_le,Nat.not_le] at long
        refine ⟨trivial,keeps.update (keeps.represents.insert (entry_update _) inside vacant absent ?_) ?_ ?_⟩
        · rw [entry,Function.update_self,if_pos rfl,stringIn_copy plain long.1,stringIn_copy plainValue long.2]
        · exact fun _ => copy_ends long.1
        · exact fun _ => copy_ends long.2

theorem unsetenv_keeps (keeps : Keeps env vars) (plain : 0 ∉ name) :
    (unsetenv env (some name)).2 = (vars.unset name).2 ∧ Keeps (unsetenv env (some name)).1 (vars.unset name).1 := by
  unfold unsetenv Vars.unset
  dsimp only
  cases found : envFind env name with
  | some i =>
    obtain ⟨inside,used,here⟩ := keeps.find_some plain found
    rw [if_pos (keeps.represents.mem inside here)]
    refine ⟨rfl,keeps.update (keeps.represents.erase (entry_update _) inside here ?_) (by simp) (by simp)⟩
    rw [entry,Function.update_self]
    rfl
  | none =>
    rw [if_neg (Finmap.lookup_eq_none.mp (keeps.find_none plain found))]
    exact ⟨rfl,keeps⟩

end Calls

theorem environment_simulates : Simulates environment varMap (fun _ _ => True) Keeps where
  answer env vars call keeps _ := by
    cases call with
    | getenv name => cases name with
      | none => rfl
      | some name => exact congrArg EnvAnswer.string (keeps.lookup name.ends)
    | setenv name value overwrite => cases name with
      | none => rfl
      | some name => cases value with
        | none => rfl
        | some value => exact congrArg EnvAnswer.status (setenv_keeps keeps name.ends value.ends overwrite).1
    | unsetenv name => cases name with
      | none => rfl
      | some name => exact congrArg EnvAnswer.status (unsetenv_keeps keeps name.ends).1
  next env vars call keeps _ := by
    cases call with
    | getenv name => exact keeps
    | setenv name value overwrite => cases name with
      | none => exact keeps
      | some name => cases value with
        | none => exact keeps
        | some value => exact (setenv_keeps keeps name.ends value.ends overwrite).2
    | unsetenv name => cases name with
      | none => exact keeps
      | some name => exact (unsetenv_keeps keeps name.ends).2

theorem emptyEnvironment_keeps : Keeps emptyEnvironment ∅ where
  represents := represents_empty fun _ _ => rfl
  name_ends _ _ used := by cases used
  value_ends _ _ used := by cases used

/-- Whatever a program does with its environment: every call answers as on the map of its variables. -/
theorem environment_is_map (calls : List EnvCall) :
    answers environment emptyEnvironment calls = answers varMap ∅ calls ∧
      Keeps (run environment.step emptyEnvironment calls) (run varMap.step ∅ calls) :=
  environment_simulates.run emptyEnvironment_keeps (meets_always (fun _ _ => trivial) ∅ calls)

end LionOS.Programs

import Mathlib.Logic.Function.Basic
import LionOS.Files.Names

/-! The IPv4 addresses of a user: the parsers of the browser, of the shell and of `ping`. -/
namespace LionOS.Net
open LionOS.Physical (Byte)
open LionOS.Files (cstring)

def dot : Byte := 46

/-- `digit` of a character. -/
def digit (c : Byte) : Bool := decide (48 ≤ c.toNat) && decide (c.toNat ≤ 57)

/-- `(uint32_t)(c - '0')` of a digit. -/
def digitValue (c : Byte) : BitVec 32 := BitVec.ofNat 32 (c.toNat - 48)

/-- `for (i = 0;; i++)` over the characters of a string and its terminator: none where the body
goes on past the terminator. -/
def characters {σ ρ : Type} (body : σ → Byte → σ ⊕ ρ) : List Byte → σ → Option ρ
  | [], s => (body s 0).getRight?
  | c::rest, s =>
    match body s c with
    | .inl s => characters body rest s
    | .inr result => some result

/-- The variables of the browser's `parse_ipv4`. -/
structure BrowserAddress where
  a : Nat → BitVec 32
  n : Nat
  v : BitVec 32
  have_ : Bool

def browserTurn (s : BrowserAddress) (c : Byte) : BrowserAddress ⊕ Option (BitVec 32) :=
  if digit c then
    let v := s.v * 10 + digitValue c
    if 255 < v then .inr none else .inl { s with v := v,have_ := true }
  else if c = dot ∧ s.have_ ∧ s.n < 3 then
    .inl { a := Function.update s.a s.n s.v,n := s.n + 1,v := 0,have_ := false }
  else if c = 0 ∧ s.have_ ∧ s.n = 3 then .inr (some (s.a 0 <<< 24 ||| s.a 1 <<< 16 ||| s.a 2 <<< 8 ||| s.v))
  else .inr none

/-- `parse_ipv4` of the browser. -/
def browserParseIpv4 (s : List Byte) : Option (Option (BitVec 32)) := characters browserTurn s ⟨fun _ => 0,0,0,false⟩

/-- The variables of the loop that the shell and `ping` both have. -/
structure PartsAddress where
  ip : BitVec 32
  part : BitVec 32
  count : Nat

def partsTurn (s : PartsAddress) (ch : Byte) : PartsAddress ⊕ Option (BitVec 32) :=
  if digit ch then
    let part := s.part * 10 + digitValue ch
    if 255 < part then .inr none else .inl { s with part := part }
  else if ch = dot ∨ ch = 0 then
    if 4 ≤ s.count then .inr none
    else
      let ip := s.ip <<< 8 ||| s.part
      if ch = 0 then .inr (if s.count + 1 = 4 then some ip else none)
      else .inl ⟨ip,0,s.count + 1⟩
  else .inr none

def partsAddress (s : List Byte) : Option (Option (BitVec 32)) :=
  if s.getD 0 0 = 0 then some none else characters partsTurn s ⟨0,0,0⟩

/-- `parse_ipv4` of the shell. -/
def shellParseIpv4 : List Byte → Option (Option (BitVec 32)) := partsAddress

/-- `parse_ip` of `ping`, the shell's loop once more. -/
def pingParseIp : List Byte → Option (Option (BitVec 32)) := partsAddress

/-- What stands between the dots of a string. -/
def octets (s : List Byte) : List (List Byte) := (cstring s).splitOn dot

/-- The value of a row of decimal digits. -/
def decimal (part : List Byte) : Nat := part.foldl (fun v c => v * 10 + (c.toNat - 48)) 0

/-- Only digits, of a value of eight bits; there may be none. -/
def Numeric (part : List Byte) : Prop := (∀ c ∈ part,digit c) ∧ decimal part ≤ 255

instance (part : List Byte) : Decidable (Numeric part) := inferInstanceAs (Decidable (_ ∧ _))

/-- The address of four octets, the first the highest. -/
def address (parts : List (List Byte)) : BitVec 32 := parts.foldl (fun ip part => ip <<< 8 ||| BitVec.ofNat 32 (decimal part)) 0

/-- Four parts between dots, each digits of a value of eight bits. -/
def FourParts (s : List Byte) : Prop := (octets s).length = 4 ∧ ∀ part ∈ octets s,Numeric part

instance (s : List Byte) : Decidable (FourParts s) := inferInstanceAs (Decidable (_ ∧ _))

/-- The address that a dotted decimal string stands for, none for any other string. -/
def dotted (s : List Byte) : Option (BitVec 32) :=
  if FourParts s ∧ [] ∉ octets s then some (address (octets s)) else none

section Reading

theorem octets_nil {s : List Byte} (ends : cstring s = []) : octets s = [[]] := by
  rw [octets,ends]
  exact List.splitOn_nil dot

theorem cstring_zero (rest : List Byte) : cstring (0::rest) = [] := by
  rw [cstring,List.takeWhile_cons_of_neg (by simp)]

theorem cstring_cons {c : Byte} (rest : List Byte) (some : c ≠ 0) : cstring (c::rest) = c::cstring rest := by
  rw [cstring,List.takeWhile_cons_of_pos (by simpa using some)]
  rfl

theorem octets_dot (rest : List Byte) : octets (dot::rest) = []::octets rest := by
  rw [octets,cstring_cons rest (by decide),List.splitOn,List.splitOnP_cons_eq_if_modifyHead,if_pos (by decide)]
  rfl

theorem octets_cons {c : Byte} (rest : List Byte) (some : c ≠ 0) (other : c ≠ dot) :
    octets (c::rest) = (octets rest).modifyHead (List.cons c) := by
  rw [octets,cstring_cons rest some,List.splitOn,List.splitOnP_cons_eq_if_modifyHead,if_neg (by simpa using other)]
  rfl

theorem octets_ne_nil (s : List Byte) : octets s ≠ [] := List.splitOn_ne_nil dot (cstring s)

/-- The digits of a part, read behind a value: none where a value leaves the eight bits or a
character is no digit. -/
def readingFrom (v : BitVec 32) : List Byte → Option (BitVec 32)
  | [] => some v
  | c::rest =>
    if digit c then
      if 255 < v * 10 + digitValue c then none else readingFrom (v * 10 + digitValue c) rest
    else none

/-- The address of the parts still to come. -/
def joining (ip v : BitVec 32) (count : Nat) : List (List Byte) → Option (BitVec 32)
  | [] => none
  | [p] => (readingFrom v p).bind fun x => if count + 1 = 4 then some (ip <<< 8 ||| x) else none
  | p::q::rest => (readingFrom v p).bind fun x => if 4 ≤ count then none else joining (ip <<< 8 ||| x) 0 (count + 1) (q::rest)

theorem joining_full (ip v : BitVec 32) (parts : List (List Byte)) : joining ip v 4 parts = none := by
  match parts with
  | [] => rfl
  | [p] => simp [joining]
  | p::q::rest => simp [joining]

theorem joining_modifyHead (ip v : BitVec 32) (count : Nat) (c : Byte) {parts : List (List Byte)} (some : parts ≠ []) :
    joining ip v count (parts.modifyHead (List.cons c)) =
      if digit c then if 255 < v * 10 + digitValue c then none else joining ip (v * 10 + digitValue c) count parts else none := by
  match parts with
  | [] => exact absurd rfl some
  | [p] =>
    simp only [List.modifyHead_cons,joining,readingFrom]
    split
    · split <;> rfl
    · rfl
  | p::q::rest =>
    simp only [List.modifyHead_cons,joining,readingFrom]
    split
    · split <;> rfl
    · rfl

theorem partsTurn_digit {c : Byte} (is : digit c) (s : PartsAddress) :
    partsTurn s c = if 255 < s.part * 10 + digitValue c then .inr none else .inl { s with part := s.part * 10 + digitValue c } := by
  rw [partsTurn,if_pos is]

theorem partsTurn_dot (s : PartsAddress) :
    partsTurn s dot = if 4 ≤ s.count then .inr none else .inl ⟨s.ip <<< 8 ||| s.part,0,s.count + 1⟩ := by
  rw [partsTurn,if_neg (by decide),if_pos (.inl rfl)]
  rfl

theorem partsTurn_zero (s : PartsAddress) :
    partsTurn s 0 = .inr (if s.count + 1 = 4 then some (s.ip <<< 8 ||| s.part) else none) := by
  rw [partsTurn,if_neg (by decide),if_pos (.inr rfl)]
  split
  next full => rw [if_neg (by omega)]
  · rfl

theorem partsTurn_other {c : Byte} (no : ¬digit c) (inner : c ≠ 0) (within : c ≠ dot) (s : PartsAddress) :
    partsTurn s c = .inr none := by
  rw [partsTurn,if_neg no,if_neg (not_or.mpr ⟨within,inner⟩)]

theorem joining_end (ip v : BitVec 32) (count : Nat) :
    joining ip v count [[]] = if count + 1 = 4 then some (ip <<< 8 ||| v) else none := rfl

theorem joining_dot (ip v : BitVec 32) (count : Nat) {parts : List (List Byte)} (some : parts ≠ []) :
    joining ip v count ([]::parts) = if 4 ≤ count then none else joining (ip <<< 8 ||| v) 0 (count + 1) parts := by
  obtain ⟨q,rest,rfl⟩ := List.exists_cons_of_ne_nil some
  rfl

/-- What the loop of the shell and of `ping` returns from any of its states. -/
theorem parts_run (s : List Byte) (ip part : BitVec 32) (count : Nat) :
    characters partsTurn s ⟨ip,part,count⟩ = some (joining ip part count (octets s)) := by
  induction s generalizing ip part count with
  | nil =>
    rw [characters,partsTurn_zero,octets_nil rfl,joining_end]
    rfl
  | cons c rest ih =>
    rw [characters]
    by_cases zero : c = 0
    · rw [zero,partsTurn_zero,octets_nil (cstring_zero rest),joining_end]
    by_cases within : c = dot
    · rw [within,partsTurn_dot,octets_dot,joining_dot ip part count (octets_ne_nil rest)]
      by_cases full : 4 ≤ count
      · rw [if_pos full,if_pos full]
      · rw [if_neg full,if_neg full]
        exact ih _ _ _
    rw [octets_cons rest zero within,joining_modifyHead ip part count c (octets_ne_nil rest)]
    by_cases is : digit c
    · rw [partsTurn_digit is,if_pos is]
      by_cases large : 255 < part * 10 + digitValue c
      · rw [if_pos large,if_pos large]
      · rw [if_neg large,if_neg large]
        exact ih _ _ _
    · rw [partsTurn_other is zero within,if_neg is]

end Reading

section Values

theorem decimal_mono (part : List Byte) (v : Nat) : v ≤ part.foldl (fun v c => v * 10 + (c.toNat - 48)) v := by
  induction part generalizing v with
  | nil => exact Nat.le_refl v
  | cons c rest ih => exact Nat.le_trans (by omega) (ih (v * 10 + (c.toNat - 48)))

theorem times_ten {v : BitVec 32} {c : Byte} (small : v.toNat ≤ 255) :
    (v * 10 + digitValue c).toNat = v.toNat * 10 + (c.toNat - 48) := by
  have value : (digitValue c).toNat = c.toNat - 48 := by
    rw [digitValue,BitVec.toNat_ofNat,Nat.mod_eq_of_lt (by have := c.isLt; omega)]
  have below := c.isLt
  rw [BitVec.toNat_add,BitVec.toNat_mul,value]
  change (v.toNat * 10 % 2 ^ 32 + (c.toNat - 48)) % 2 ^ 32 = _
  omega

/-- The check after each digit finds what a check of the whole value finds. -/
theorem readingFrom_iff (part : List Byte) {v : BitVec 32} (small : v.toNat ≤ 255) (x : BitVec 32) :
    readingFrom v part = some x ↔ (∀ c ∈ part,digit c) ∧ part.foldl (fun v c => v * 10 + (c.toNat - 48)) v.toNat ≤ 255 ∧
      x.toNat = part.foldl (fun v c => v * 10 + (c.toNat - 48)) v.toNat := by
  induction part generalizing v with
  | nil =>
    rw [readingFrom,Option.some_inj]
    simp only [List.not_mem_nil,false_imp_iff,implies_true,true_and,List.foldl_nil]
    constructor
    · rintro rfl
      exact ⟨small,rfl⟩
    · rintro ⟨_,same⟩
      exact BitVec.eq_of_toNat_eq same.symm
  | cons c rest ih =>
    rw [readingFrom,List.forall_mem_cons,List.foldl_cons]
    by_cases is : digit c
    · have next := @times_ten v c small
      rw [if_pos is]
      by_cases large : 255 < v * 10 + digitValue c
      · have above : 255 < v.toNat * 10 + (c.toNat - 48) := next ▸ BitVec.lt_def.mp large
        have more := decimal_mono rest (v.toNat * 10 + (c.toNat - 48))
        rw [if_pos large]
        constructor
        · nofun
        · rintro ⟨_,bound,_⟩
          omega
      · have within : (v * 10 + digitValue c).toNat ≤ 255 := Nat.le_of_not_lt fun above => large (BitVec.lt_def.mpr above)
        rw [if_neg large,ih within,next]
        simp only [is,true_and]
    · rw [if_neg is]
      simp only [is,Bool.false_eq_true,false_and,reduceCtorEq]

theorem reading_iff (part : List Byte) (x : BitVec 32) :
    readingFrom 0 part = some x ↔ Numeric part ∧ x = BitVec.ofNat 32 (decimal part) := by
  rw [readingFrom_iff part (by decide) x,Numeric,and_assoc]
  refine and_congr_right fun _ => and_congr_right fun bound => ?_
  change decimal part ≤ 255 at bound
  change x.toNat = decimal part ↔ _
  constructor
  · intro same
    exact BitVec.eq_of_toNat_eq (by rw [same,BitVec.toNat_ofNat,Nat.mod_eq_of_lt (by omega)])
  · rintro rfl
    rw [BitVec.toNat_ofNat,Nat.mod_eq_of_lt (by omega)]

/-- Parts are joined exactly if they fill up the four and each is a number of eight bits. -/
theorem joining_iff (parts : List (List Byte)) (some_ : parts ≠ []) (ip x : BitVec 32) (count : Nat) :
    joining ip 0 count parts = some x ↔ (count + parts.length = 4 ∧ ∀ part ∈ parts,Numeric part) ∧
      x = parts.foldl (fun (ip : BitVec 32) part => ip <<< 8 ||| BitVec.ofNat 32 (decimal part)) ip := by
  induction parts generalizing ip count with
  | nil => exact absurd rfl some_
  | cons p rest ih =>
    rw [List.forall_mem_cons,List.foldl_cons]
    match rest with
    | [] =>
      rw [joining,Option.bind_eq_some_iff]
      simp only [reading_iff,List.length_singleton,List.not_mem_nil,false_imp_iff,implies_true,and_true,List.foldl_nil]
      constructor
      · rintro ⟨y,⟨numeric,rfl⟩,result⟩
        by_cases full : count + 1 = 4
        · rw [if_pos full] at result
          exact ⟨⟨full,numeric⟩,(Option.some_inj.mp result).symm⟩
        · rw [if_neg full] at result
          cases result
      · rintro ⟨⟨full,numeric⟩,rfl⟩
        exact ⟨_,⟨numeric,rfl⟩,if_pos full⟩
    | q::more =>
      have later := ih (List.cons_ne_nil q more)
      rw [joining,Option.bind_eq_some_iff]
      simp only [reading_iff]
      constructor
      · rintro ⟨y,⟨numeric,rfl⟩,result⟩
        by_cases full : 4 ≤ count
        · rw [if_pos full] at result
          cases result
        · rw [if_neg full,later] at result
          obtain ⟨⟨total,others⟩,value⟩ := result
          refine ⟨⟨?_,numeric,others⟩,value⟩
          rw [List.length_cons]
          omega
      · rintro ⟨⟨total,numeric,others⟩,value⟩
        rw [List.length_cons,List.length_cons] at total
        refine ⟨_,⟨numeric,rfl⟩,?_⟩
        rw [if_neg (by omega),later]
        exact ⟨⟨by rw [List.length_cons]; omega,others⟩,value⟩

theorem joining_octets (s : List Byte) :
    joining 0 0 0 (octets s) = if FourParts s then some (address (octets s)) else none := by
  apply Option.ext
  intro x
  rw [joining_iff (octets s) (octets_ne_nil s) 0 x 0,Nat.zero_add]
  by_cases four : FourParts s
  · rw [if_pos four,Option.some_inj]
    exact ⟨fun ⟨_,value⟩ => value.symm,fun value => ⟨four,value.symm⟩⟩
  · rw [if_neg four]
    exact ⟨fun ⟨parts,_⟩ => absurd parts four,nofun⟩

/-- The loop of the shell and of `ping` takes every four parts, empty ones as well. -/
theorem partsAddress_eq (s : List Byte) :
    partsAddress s = some (if FourParts s then some (address (octets s)) else none) := by
  rw [partsAddress]
  by_cases empty : s.getD 0 0 = 0
  · have ends : cstring s = [] := by
      match s with
      | [] => rfl
      | c::rest =>
        have zero : c = 0 := empty
        rw [zero,cstring_zero]
    have few : ¬FourParts s := by
      rw [FourParts,octets_nil ends]
      rintro ⟨four,_⟩
      cases four
    rw [if_pos empty,if_neg few]
  · rw [if_neg empty,parts_run,joining_octets]

end Values

section Browser

/-- The first parts of the browser's array as the other two hold them. -/
def packed (a : Nat → BitVec 32) : Nat → BitVec 32
  | 0 => 0
  | n + 1 => packed a n <<< 8 ||| a n

theorem packed_update (a : Nat → BitVec 32) (v : BitVec 32) (k : Nat) {n : Nat} (below : n ≤ k) :
    packed (Function.update a k v) n = packed a n := by
  induction n with
  | zero => rfl
  | succ n ih => rw [packed,packed,ih (by omega),Function.update_of_ne (by omega)]

theorem packed_four (a : Nat → BitVec 32) (v : BitVec 32) :
    a 0 <<< 24 ||| a 1 <<< 16 ||| a 2 <<< 8 ||| v = packed a 3 <<< 8 ||| v := by
  have first : packed a 0 <<< 8 ||| a 0 = a 0 := BitVec.zero_or
  rw [packed,packed,packed,first]
  simp only [BitVec.shiftLeft_or_distrib,← BitVec.shiftLeft_add]

/-- No part is empty; of the first, digits may be read already. -/
def Filled (have_ : Bool) : List (List Byte) → Prop
  | [] => True
  | p::rest => (have_ ∨ p ≠ []) ∧ [] ∉ rest

instance (have_ : Bool) : (parts : List (List Byte)) → Decidable (Filled have_ parts)
  | [] => inferInstanceAs (Decidable True)
  | p::rest => inferInstanceAs (Decidable ((have_ ∨ p ≠ []) ∧ [] ∉ rest))

theorem filled_fresh {parts : List (List Byte)} : Filled false parts ↔ [] ∉ parts := by
  cases parts with
  | nil => simp [Filled]
  | cons p rest => simp [Filled,eq_comm]

theorem filled_dot (have_ : Bool) (parts : List (List Byte)) : Filled have_ ([]::parts) ↔ have_ ∧ Filled false parts := by
  rw [filled_fresh]
  simp [Filled]

theorem filled_modifyHead (have_ : Bool) (c : Byte) (parts : List (List Byte)) :
    Filled have_ (parts.modifyHead (List.cons c)) ↔ Filled true parts := by
  cases parts with
  | nil => rfl
  | cons p rest => simp [Filled]

theorem browserTurn_digit {c : Byte} (is : digit c) (a : Nat → BitVec 32) (n : Nat) (v : BitVec 32) (have_ : Bool) :
    browserTurn ⟨a,n,v,have_⟩ c =
      if 255 < v * 10 + digitValue c then .inr none else .inl ⟨a,n,v * 10 + digitValue c,true⟩ := by
  rw [browserTurn,if_pos is]

theorem browserTurn_dot (a : Nat → BitVec 32) (n : Nat) (v : BitVec 32) (have_ : Bool) :
    browserTurn ⟨a,n,v,have_⟩ dot =
      if have_ ∧ n < 3 then .inl ⟨Function.update a n v,n + 1,0,false⟩ else .inr none := by
  rw [browserTurn,if_neg (by decide)]
  by_cases go : have_ ∧ n < 3
  · rw [if_pos ⟨rfl,go⟩,if_pos go]
  · rw [if_neg (fun ⟨_,go'⟩ => go go'),if_neg (fun ⟨zero,_⟩ => absurd zero (by decide)),if_neg go]

theorem browserTurn_zero (a : Nat → BitVec 32) (n : Nat) (v : BitVec 32) (have_ : Bool) :
    browserTurn ⟨a,n,v,have_⟩ 0 = .inr (if have_ ∧ n = 3 then some (packed a n <<< 8 ||| v) else none) := by
  rw [browserTurn,if_neg (by decide),if_neg (fun ⟨zero,_⟩ => absurd zero (by decide))]
  by_cases full : have_ ∧ n = 3
  · rw [if_pos ⟨rfl,full⟩,if_pos full,packed_four,full.2]
  · rw [if_neg (fun ⟨_,full'⟩ => full full'),if_neg full]

theorem browserTurn_other {c : Byte} (no : ¬digit c) (inner : c ≠ 0) (within : c ≠ dot) (s : BrowserAddress) :
    browserTurn s c = .inr none := by
  rw [browserTurn,if_neg no,if_neg (fun ⟨at_dot,_⟩ => within at_dot),if_neg (fun ⟨zero,_⟩ => inner zero)]

theorem joined_end (a : Nat → BitVec 32) (n : Nat) (v : BitVec 32) (have_ : Bool) :
    (if Filled have_ [[]] then joining (packed a n) v n [[]] else none) =
      if have_ ∧ n = 3 then some (packed a n <<< 8 ||| v) else none := by
  rw [joining_end]
  by_cases filled : have_
  · simp [Filled,filled]
  · simp [Filled,filled]

/-- The loop of the browser reads as the other loop does, but for the empty parts. -/
theorem browser_run (s : List Byte) (a : Nat → BitVec 32) (n : Nat) (v : BitVec 32) (have_ : Bool) (few : n ≤ 3) :
    characters browserTurn s ⟨a,n,v,have_⟩ =
      some (if Filled have_ (octets s) then joining (packed a n) v n (octets s) else none) := by
  induction s generalizing a n v have_ with
  | nil =>
    rw [characters,browserTurn_zero,octets_nil rfl,joined_end]
    rfl
  | cons c rest ih =>
    rw [characters]
    by_cases zero : c = 0
    · rw [zero,browserTurn_zero,octets_nil (cstring_zero rest),joined_end]
    by_cases within : c = dot
    · rw [within,browserTurn_dot,octets_dot,joining_dot (packed a n) v n (octets_ne_nil rest)]
      simp only [filled_dot]
      by_cases filled : have_
      · by_cases room : n < 3
        · rw [if_pos ⟨filled,room⟩,if_neg (by omega : ¬4 ≤ n)]
          have later := ih (Function.update a n v) (n + 1) 0 false (by omega)
          rw [packed,packed_update a v n (Nat.le_refl n),Function.update_self] at later
          simp only [filled,true_and]
          exact later
        · have last : n = 3 := by omega
          rw [if_neg (fun ⟨_,room'⟩ => room room'),last,if_neg (by omega : ¬4 ≤ 3),joining_full,ite_self]
      · rw [if_neg (fun ⟨filled',_⟩ => filled filled'),if_neg (fun ⟨filled',_⟩ => filled filled')]
    rw [octets_cons rest zero within,joining_modifyHead (packed a n) v n c (octets_ne_nil rest)]
    simp only [filled_modifyHead]
    by_cases is : digit c
    · rw [browserTurn_digit is,if_pos is]
      by_cases large : 255 < v * 10 + digitValue c
      · rw [if_pos large,if_pos large,ite_self]
      · rw [if_neg large,if_neg large]
        exact ih a n (v * 10 + digitValue c) true few
    · rw [browserTurn_other is zero within,if_neg is,ite_self]

/-- The browser takes exactly the dotted decimal strings. -/
theorem browserParseIpv4_eq (s : List Byte) : browserParseIpv4 s = some (dotted s) := by
  rw [browserParseIpv4,browser_run s _ 0 0 false (by omega),packed,joining_octets]
  simp only [filled_fresh,dotted]
  by_cases filled : [] ∉ octets s
  · simp only [filled,not_false_eq_true,and_true,if_true]
  · simp only [filled,and_false,if_false]

end Browser

/-- All three parsers take exactly the dotted decimal strings, each with its address. -/
def ParsersAgree (s : List Byte) : Prop :=
  browserParseIpv4 s = some (dotted s) ∧ shellParseIpv4 s = some (dotted s) ∧ pingParseIp s = some (dotted s)

instance (s : List Byte) : Decidable (ParsersAgree s) := inferInstanceAs (Decidable (_ ∧ _ ∧ _))

/-- Four parts of which one is empty are what the shell and `ping` take and the browser does
not. -/
theorem parsers_agree_iff (s : List Byte) : ParsersAgree s ↔ ¬(FourParts s ∧ [] ∈ octets s) := by
  rw [ParsersAgree,browserParseIpv4_eq,shellParseIpv4,pingParseIp,partsAddress_eq,dotted]
  by_cases four : FourParts s
  · by_cases filled : [] ∈ octets s
    · simp [four,filled]
    · simp [four,filled]
  · simp [four]

/-- `"..."` is 0.0.0.0 to the shell and to `ping`. -/
theorem dots_differ : ¬ParsersAgree [dot,dot,dot] ∧ browserParseIpv4 [dot,dot,dot] = some none ∧
    shellParseIpv4 [dot,dot,dot] = some (some 0) ∧ pingParseIp [dot,dot,dot] = some (some 0) := by
  decide +kernel

end LionOS.Net

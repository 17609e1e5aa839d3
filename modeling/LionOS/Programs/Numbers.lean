import LionOS.Diag.Panic
import LionOS.Net.Addresses

/-! Numbers as text: how the C library and the console print them, and that what they print is read
back by `atoi` and by the parsers of addresses. -/
namespace LionOS.Programs
open LionOS.Files (ascii cstring)
open LionOS.Diag (consoleWriteDec)
open LionOS.Net (dot digit browserParseIpv4 shellParseIpv4 pingParseIp octets decimal Numeric address FourParts dotted decimal_mono partsAddress_eq browserParseIpv4_eq)
open LionOS.Physical (Byte)

/-- The loop over `buf` in `print_u32` and in `console_write_dec`: the last digit comes first. -/
def putDigits (base : Nat) : Nat → Nat → List Nat
  | 0,_ => []
  | room+1,value => if value = 0 then [] else value % base::putDigits base room (value / base)

def digits : List Byte := ascii "0123456789abcdef".toList

def printU32 (value : BitVec 32) (base : Nat) : List Byte :=
  if value = 0 then ascii ['0'] else (putDigits base 11 value.toNat).reverse.map fun d => digits.getD d 0

inductive Arg
  | word (v : BitVec 32)
  | string (s : Option (List Byte))

def percent : Byte := 37

/-- What `printf` writes for the character behind a `%`, what it adds to its count, and the arguments
that are left; none where the argument is missing or of another type. -/
def convert (spec : Byte) (args : List Arg) : Option (List Byte × Int × List Arg) :=
  if spec = percent then some ([percent],1,args)
  else if spec = 99 then
    match args with
    | .word v::args => some ([v.setWidth 8],1,args)
    | _ => none
  else if spec = 115 then
    match args with
    | .string s::args =>
      let s := s.getD (ascii "(null)".toList)
      some (s,s.length,args)
    | _ => none
  else if spec = 117 then
    match args with
    | .word v::args => some (printU32 v 10,0,args)
    | _ => none
  else if spec = 100 then
    match args with
    | .word v::args => if v.toInt < 0 then some (45::printU32 (-(v + 1) + 1) 10,1,args) else some (printU32 v 10,0,args)
    | _ => none
  else if spec = 120 then
    match args with
    | .word v::args => some (printU32 v 16,0,args)
    | _ => none
  else some ([percent,spec],2,args)

/-- `printf` of a format: what it writes and what it returns. -/
def printf : List Byte → List Arg → Option (List Byte × Int)
  | [],_ => some ([],0)
  | [c],_ => if c = percent then some ([],0) else some ([c],1)
  | c::spec::rest,args =>
    if c = percent then
      match convert spec args with
      | some (out,n,args) => (printf rest args).map fun later => (out ++ later.1,n + later.2)
      | none => none
    else (printf (spec::rest) args).map fun later => (c::later.1,1 + later.2)

/-- The digits that `atoi` reads behind a value; none where an `int` overflows. -/
def atoiDigits : List Byte → Nat → Option Nat
  | [],value => some value
  | c::rest,value =>
    if digit c then
      let value := value * 10 + (c.toNat - 48)
      if value < 2^31 then atoiDigits rest value else none
    else some value

def atoiSpace (c : Byte) : Bool := c == 32 || c == 9 || c == 10 || c == 13

def atoi : Option (List Byte) → Option Int
  | none => some 0
  | some s =>
    match s.dropWhile atoiSpace with
    | [] => some 0
    | c::rest =>
      if c = 45 then (atoiDigits rest 0).map fun (value : Nat) => (value : Int) * -1
      else (atoiDigits (if c = 43 then rest else c::rest) 0).map fun (value : Nat) => (value : Int) * 1

/-- `print_ip` of `ping`. -/
def printIp (ip : BitVec 32) : Option (List Byte × Int) :=
  printf (ascii "%u.%u.%u.%u".toList)
    [.word ((ip >>> 24) &&& 255),.word ((ip >>> 16) &&& 255),.word ((ip >>> 8) &&& 255),.word (ip &&& 255)]

/-- `print_ipv4` of the shell. -/
def printIpv4 (ip : BitVec 32) : List Byte :=
  consoleWriteDec ((ip >>> 24) &&& 255) ++ dot::consoleWriteDec ((ip >>> 16) &&& 255) ++
    dot::consoleWriteDec ((ip >>> 8) &&& 255) ++ dot::consoleWriteDec (ip &&& 255)

section Digits

theorem ascii_append (s t : List Char) : ascii (s ++ t) = ascii s ++ ascii t := List.map_append

theorem digits_digitChar : ∀ d < 16, digits.getD d 0 = BitVec.ofNat 8 (Nat.digitChar d).toNat := by decide

/-- The digits that are taken off are those of the number where there is room for them. -/
theorem putDigits_eq {base : Nat} (more : 1 < base) (few : base ≤ 16) {room value : Nat} (positive : 0 < value) (fits : value < base ^ room) :
    (putDigits base room value).reverse.map (fun d => digits.getD d 0) = ascii (Nat.toDigits base value) := by
  induction room generalizing value with
  | zero =>
    rw [Nat.pow_zero] at fits
    omega
  | succ room ih =>
    have last := digits_digitChar (value % base) (Nat.lt_of_lt_of_le (Nat.mod_lt value (by omega : 0 < base)) few)
    rw [putDigits,if_neg (by omega),List.reverse_cons,List.map_append,List.map_singleton,last]
    by_cases one : value < base
    · rw [Nat.toDigits_of_lt_base one,Nat.mod_eq_of_lt one,Nat.div_eq_of_lt one]
      cases room with
      | zero => rfl
      | succ room => rfl
    · have above : 0 < value / base := Nat.div_pos (by omega) (by omega)
      have below : value / base < base ^ room := by
        rw [Nat.pow_succ] at fits
        exact Nat.div_lt_of_lt_mul (by rwa [Nat.mul_comm])
      have long := Nat.toDigits_of_base_le more (Nat.le_of_not_lt one)
      rw [ih above below,long,ascii_append]
      rfl

/-- `print_u32` prints the number in its base. -/
theorem printU32_eq (value : BitVec 32) {base : Nat} (ten : 10 ≤ base) (few : base ≤ 16) :
    printU32 value base = ascii (Nat.toDigits base value.toNat) := by
  unfold printU32
  split
  next zero =>
    rw [zero]
    exact congrArg ascii (Nat.toDigits_zero base).symm
  next other =>
    have positive : 0 < value.toNat := Nat.pos_of_ne_zero fun zero => other (BitVec.eq_of_toNat_eq zero)
    refine putDigits_eq (by omega) few positive ?_
    calc value.toNat < 2^32 := value.isLt
      _ ≤ 10^11 := by decide
      _ ≤ base^11 := Nat.pow_le_pow_left ten 11

/-- The loop of `console_write_dec` prints the same digits. -/
theorem consoleWriteDec_eq (value : BitVec 32) : consoleWriteDec value = printU32 value 10 :=
  (printU32_eq value (by decide) (by decide)).symm

theorem toNat_ascii {c : Char} (low : c.isDigit) : (BitVec.ofNat 8 c.toNat).toNat = c.toNat ∧ 48 ≤ c.toNat ∧ c.toNat ≤ 57 := by
  have range : 48 ≤ c.toNat ∧ c.toNat ≤ 57 := by simpa [Char.isDigit,UInt32.le_iff_toNat_le] using low
  exact ⟨by rw [BitVec.toNat_ofNat]; omega,range⟩

theorem digit_printed {n : Nat} {c : Byte} (member : c ∈ ascii (Nat.toDigits 10 n)) : digit c := by
  obtain ⟨d,inside,rfl⟩ := List.mem_map.mp member
  obtain ⟨same,low,high⟩ := toNat_ascii (Nat.isDigit_of_mem_toDigits (by decide) (by decide) inside)
  rw [digit,same,decide_eq_true low,decide_eq_true high]
  rfl

/-- The decimal value of the digits of a number is the number. -/
theorem decimal_printed (n : Nat) : decimal (ascii (Nat.toDigits 10 n)) = n := by
  have reads {text : List Char} (all : ∀ c ∈ text, c.isDigit) (v : Nat) :
      (ascii text).foldl (fun v c => v * 10 + (c.toNat - 48)) v = Nat.ofDigitChars 10 text v := by
    induction text generalizing v with
    | nil => rfl
    | cons c rest ih =>
      obtain ⟨now,later⟩ := List.forall_mem_cons.mp all
      rw [Nat.ofDigitChars_cons,← ih later]
      change (ascii rest).foldl _ (v * 10 + ((BitVec.ofNat 8 c.toNat).toNat - 48)) = _
      rw [(toNat_ascii now).1,Nat.mul_comm]
      rfl
  rw [decimal,reads (fun c member => Nat.isDigit_of_mem_toDigits (by decide) (by decide) member)]
  exact Nat.ofDigitChars_ten_toDigits

end Digits

section Integers

/-- Over digits `atoi` reads their value unless an `int` overflows. -/
theorem atoiDigits_eq {part : List Byte} (all : ∀ c ∈ part, digit c) {value : Nat} (small : value < 2^31) :
    atoiDigits part value =
      if part.foldl (fun v c => v * 10 + (c.toNat - 48)) value < 2^31 then
        some (part.foldl (fun v c => v * 10 + (c.toNat - 48)) value)
      else none := by
  induction part generalizing value with
  | nil => exact (if_pos small).symm
  | cons c rest ih =>
    obtain ⟨now,later⟩ := List.forall_mem_cons.mp all
    rw [atoiDigits,if_pos now,List.foldl_cons]
    dsimp only
    split
    next still => exact ih later still
    next above =>
      have more := decimal_mono rest (value * 10 + (c.toNat - 48))
      rw [if_neg (by omega)]

/-- A row of digits behind no sign. -/
theorem atoi_digits {part : List Byte} (all : ∀ c ∈ part, digit c) (some_ : part ≠ []) :
    atoi (some part) = (atoiDigits part 0).map fun (value : Nat) => (value : Int) := by
  obtain ⟨c,rest,rfl⟩ := List.exists_cons_of_ne_nil some_
  have range := all c List.mem_cons_self
  simp only [digit,Bool.and_eq_true,decide_eq_true_eq] at range
  have other (n : Byte) (low : n.toNat < 48) : c ≠ n := by
    rintro rfl
    omega
  have unequal (n : Byte) (low : n.toNat < 48) : (c == n) = false := beq_eq_false_iff_ne.mpr (other n low)
  have inner : atoiSpace c = false := by
    rw [atoiSpace,unequal 32 (by decide),unequal 9 (by decide),unequal 10 (by decide),unequal 13 (by decide)]
    rfl
  rw [atoi,List.dropWhile_cons_of_neg (by simp [inner])]
  dsimp only
  rw [if_neg (other 45 (by decide)),if_neg (other 43 (by decide))]
  simp only [Int.mul_one]

theorem atoi_minus {part : List Byte} :
    atoi (some (45::part)) = (atoiDigits part 0).map fun (value : Nat) => -(value : Int) := by
  rw [atoi,List.dropWhile_cons_of_neg (by decide)]
  dsimp only
  rw [if_pos rfl]
  simp only [Int.mul_neg,Int.mul_one]

theorem printU32_digits (value : BitVec 32) : (∀ c ∈ printU32 value 10, digit c) ∧ printU32 value 10 ≠ [] ∧
    decimal (printU32 value 10) = value.toNat := by
  rw [printU32_eq value (by decide) (by decide)]
  refine ⟨fun c member => digit_printed member,?_,decimal_printed _⟩
  exact fun none => Nat.toDigits_ne_nil (List.map_eq_nil_iff.mp none)

/-- What `printf` prints of an `int`, `atoi` reads back, but for the least one, which overflows. -/
theorem atoi_printed (v : BitVec 32) :
    (printf (ascii "%d".toList) [.word v]).bind (fun out => atoi (some out.1)) =
      if v = BitVec.intMin 32 then none else some v.toInt := by
  by_cases negative : v.toInt < 0
  · have printed : printf (ascii "%d".toList) [.word v] = some (45::printU32 (-(v + 1) + 1) 10,1) := by
      simp [printf,convert,percent,ascii,negative]
    obtain ⟨all,some_,value⟩ := printU32_digits (-(v + 1) + 1)
    have high : 2^31 ≤ v.toNat := by
      rw [BitVec.toInt_eq_toNat_cond] at negative
      split at negative <;> omega
    have signed : v.toInt = (v.toNat : Int) - 2^32 := by
      rw [BitVec.toInt_eq_toNat_cond,if_neg (by omega)]
      rfl
    have magnitude : (-(v + 1) + 1).toNat = 2^32 - v.toNat := by bv_omega
    have least : v = BitVec.intMin 32 ↔ v.toNat = 2^31 := BitVec.toNat_inj.symm
    rw [decimal,magnitude] at value
    rw [printed,Option.bind_some,atoi_minus,atoiDigits_eq all (by decide),value]
    by_cases over_ : v.toNat = 2^31
    · rw [if_pos (least.mpr over_),over_,if_neg (by decide)]
      rfl
    · rw [if_neg (fun same => over_ (least.mp same)),if_pos (by omega),signed,Option.map_some]
      exact congrArg some (by omega)
  · have printed : printf (ascii "%d".toList) [.word v] = some (printU32 v 10,0) := by
      simp [printf,convert,percent,ascii,negative]
    obtain ⟨all,some_,value⟩ := printU32_digits v
    have low : v.toNat < 2^31 := by
      rw [BitVec.toInt_eq_toNat_cond] at negative
      split at negative <;> omega
    have signed : v.toInt = (v.toNat : Int) := by rw [BitVec.toInt_eq_toNat_cond,if_pos (by omega)]
    have least : v ≠ BitVec.intMin 32 := by
      rintro rfl
      exact absurd low (by decide)
    rw [decimal] at value
    rw [printed,Option.bind_some,atoi_digits all some_,atoiDigits_eq all (by decide),value,if_pos low,if_neg least,signed,
      Option.map_some]

end Integers

section Addresses

theorem cstring_over {part rest : List Byte} (inner : 0 ∉ part) : cstring (part ++ rest) = part ++ cstring rest := by
  unfold cstring
  rw [List.takeWhile_append_of_pos]
  intro c member
  rw [decide_eq_true_eq]
  rintro rfl
  exact inner member

theorem octets_join {part rest : List Byte} (inner : 0 ∉ part) (within : dot ∉ part) :
    octets (part ++ dot::rest) = part::octets rest := by
  have whole : cstring (part ++ dot::rest) = part ++ dot::cstring rest := cstring_over inner
  rw [octets,whole,List.splitOn_append_cons_self_of_not_mem within]
  rfl

theorem octets_last {part : List Byte} (inner : 0 ∉ part) (within : dot ∉ part) : octets part = [part] := by
  have whole : cstring (part ++ []) = part ++ [] := cstring_over inner
  rw [List.append_nil] at whole
  rw [octets,whole,List.splitOn_eq_singleton within]

theorem digits_inner {part : List Byte} (all : ∀ c ∈ part, digit c) : 0 ∉ part ∧ dot ∉ part :=
  ⟨fun member => absurd (all 0 member) (by decide),fun member => absurd (all dot member) (by decide)⟩

theorem getLsbD_lowByte (x : BitVec 32) (j : Nat) : (x &&& 255).getLsbD j = (decide (j < 8) && x.getLsbD j) := by
  have ones : (255 : BitVec 32) = (BitVec.allOnes 8).setWidth 32 := rfl
  rw [ones,BitVec.getLsbD_and,BitVec.getLsbD_setWidth,BitVec.getLsbD_allOnes]
  by_cases low : j < 8
  · simp [low,show j < 32 by omega]
  · simp [low]

theorem lowByte_small (x : BitVec 32) : (x &&& 255).toNat ≤ 255 := by
  rw [BitVec.toNat_and]
  exact Nat.and_le_right

/-- Four bytes put together again. -/
theorem bytes_joined (ip : BitVec 32) :
    (((0 <<< 8 ||| ip >>> 24 &&& 255) <<< 8 ||| ip >>> 16 &&& 255) <<< 8 ||| ip >>> 8 &&& 255) <<< 8 ||| ip &&& 255 = ip := by
  apply BitVec.eq_of_getLsbD_eq
  intro i inside
  simp only [BitVec.getLsbD_or,BitVec.getLsbD_shiftLeft,getLsbD_lowByte,BitVec.getLsbD_ushiftRight]
  rcases (by omega : i < 8 ∨ 8 ≤ i ∧ i < 16 ∨ 16 ≤ i ∧ i < 24 ∨ 24 ≤ i) with place | place | place | place
  · simp [place]
  · simp [show ¬i < 8 by omega,show i - 8 < 8 by omega,show 8 + (i - 8) = i by omega,inside]
  · simp [show ¬i < 8 by omega,show ¬i - 8 < 8 by omega,show i - 8 - 8 < 8 by omega,show i - 8 < 32 by omega,
      show 16 + (i - 8 - 8) = i by omega,inside]
  · simp [show ¬i < 8 by omega,show ¬i - 8 < 8 by omega,show ¬i - 8 - 8 < 8 by omega,show i - 8 - 8 - 8 < 8 by omega,
      show i - 8 < 32 by omega,show i - 8 - 8 < 32 by omega,show 24 + (i - 8 - 8 - 8) = i by omega,inside]

theorem printIp_eq (ip : BitVec 32) : printIp ip = some (printIpv4 ip,3) := by
  simp [printIp,printIpv4,printf,convert,percent,dot,ascii,consoleWriteDec_eq]

theorem octets_printed (ip : BitVec 32) : octets (printIpv4 ip) =
    [printU32 (ip >>> 24 &&& 255) 10,printU32 (ip >>> 16 &&& 255) 10,printU32 (ip >>> 8 &&& 255) 10,printU32 (ip &&& 255) 10] := by
  have clear (value : BitVec 32) := digits_inner (printU32_digits value).1
  simp only [printIpv4,consoleWriteDec_eq,List.append_assoc,List.cons_append]
  rw [octets_join (clear _).1 (clear _).2,octets_join (clear _).1 (clear _).2,octets_join (clear _).1 (clear _).2,
    octets_last (clear _).1 (clear _).2]

/-- An address that the shell or `ping` prints is the same text, and each of the three parsers reads it back. -/
theorem printed_address_parses (ip : BitVec 32) :
    printIp ip = some (printIpv4 ip,3) ∧ browserParseIpv4 (printIpv4 ip) = some (some ip) ∧
      shellParseIpv4 (printIpv4 ip) = some (some ip) ∧ pingParseIp (printIpv4 ip) = some (some ip) := by
  have cut := octets_printed ip
  have numeric (x : BitVec 32) : Numeric (printU32 (x &&& 255) 10) := by
    obtain ⟨all,_,value⟩ := printU32_digits (x &&& 255)
    exact ⟨all,value ▸ lowByte_small x⟩
  have filled (x : BitVec 32) : printU32 x 10 ≠ [] := (printU32_digits x).2.1
  have four : FourParts (printIpv4 ip) := by
    rw [FourParts,cut]
    refine ⟨rfl,?_⟩
    simp only [List.forall_mem_cons,List.not_mem_nil,false_implies,implies_true,and_true]
    exact ⟨numeric _,numeric _,numeric _,numeric _⟩
  have whole : address (octets (printIpv4 ip)) = ip := by
    have part (x : BitVec 32) : BitVec.ofNat 32 (decimal (printU32 x 10)) = x := by
      rw [(printU32_digits x).2.2,BitVec.ofNat_toNat,BitVec.setWidth_eq]
    rw [cut,address]
    simp only [List.foldl_cons,List.foldl_nil,part]
    exact bytes_joined ip
  have none_empty : [] ∉ octets (printIpv4 ip) := by
    rw [cut]
    simp only [List.mem_cons,List.not_mem_nil,or_false,not_or]
    exact ⟨(filled _).symm,(filled _).symm,(filled _).symm,(filled _).symm⟩
  refine ⟨printIp_eq ip,?_,?_,?_⟩
  · rw [browserParseIpv4_eq,dotted,if_pos ⟨four,none_empty⟩,whole]
  · rw [shellParseIpv4,partsAddress_eq,if_pos four,whole]
  · rw [pingParseIp,partsAddress_eq,if_pos four,whole]

end Addresses

end LionOS.Programs

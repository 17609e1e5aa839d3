import LionOS.Library.Walk
import LionOS.Physical

/-! The search for the interrupt endpoint of a USB keyboard or mouse in the configuration
descriptor, with the bytes of the buffer that it reads. -/
namespace LionOS.Usb
open LionOS.Library
open LionOS.Physical (Byte)

/-- `hid_candidate_t` -/
structure HidCandidate where
  interfaceNumber : Byte
  endpointAddress : Byte
  packetSize : BitVec 16
  interval : Byte
  configValue : Byte
  deriving DecidableEq

/-- The statics that `dump_config` fills in. -/
structure Diagnosis where
  interfaceCount : Nat
  endpointCount : Nat
  hidCount : Nat
  hidIface : Byte
  hidSubclass : Byte
  hidProtocol : Byte
  hidEndpoint : Byte
  hidEpType : Byte
  hidPacket : BitVec 16
  hidInterval : Byte
  deriving DecidableEq

section Search
variable (config : Nat → Byte)

/-- The 16 bits that start at a place of the buffer. -/
def configWord (i : Nat) : BitVec 16 := config (i + 1) ++ config i

def lengthAt (i : Nat) : Nat := (config i).toNat

/-- `total`, cut to the size of the buffer. -/
def configTotal : Nat := if (configWord config 2).toNat > 4096 then 4096 else (configWord config 2).toNat

/-- An interrupt endpoint towards the host. -/
def interruptIn (i : Nat) : Bool := config (i + 2) &&& 0x80 != 0 && config (i + 3) &&& 3 == 3

/-- `cur`, `cur_hid` and the statics in the loop of `dump_config`. -/
structure DumpWalk where
  i : Nat
  cur : Byte
  curHid : Bool
  diagnosis : Diagnosis

/-- What the loop notes of an interface; the first HID one is kept. -/
def Diagnosis.noteInterface (d : Diagnosis) (i : Nat) (hid : Bool) : Diagnosis :=
  { d with
    interfaceCount := d.interfaceCount + 1
    hidCount := if hid then d.hidCount + 1 else d.hidCount
    hidIface := if hid && d.hidIface == 0xFF then config (i + 2) else d.hidIface
    hidSubclass := if hid && d.hidIface == 0xFF then config (i + 6) else d.hidSubclass
    hidProtocol := if hid && d.hidIface == 0xFF then config (i + 7) else d.hidProtocol }

/-- What the loop notes of an endpoint; the first interrupt endpoint of a HID interface is kept. -/
def Diagnosis.noteEndpoint (d : Diagnosis) (i : Nat) (hid : Bool) : Diagnosis :=
  let first := hid && d.hidEndpoint == 0 && interruptIn config i
  { d with
    endpointCount := d.endpointCount + 1
    hidEndpoint := if first then config (i + 2) else d.hidEndpoint
    hidEpType := if first then config (i + 3) &&& 3 else d.hidEpType
    hidPacket := if first then configWord config (i + 4) &&& 0x7FF else d.hidPacket
    hidInterval := if first then config (i + 6) else d.hidInterval }

def dumpTurn (total : Nat) (s : DumpWalk) : Turn DumpWalk Nat Diagnosis :=
  if s.i + 2 ≤ total then
    let i := s.i
    let len := lengthAt config i
    let type := config (i + 1)
    if len < 2 ∨ i + len > total then .ends [i,i + 1] s.diagnosis
    else if type = 4 ∧ len ≥ 9 then
      let curHid := config (i + 3) == 0 && config (i + 5) == 3
      .goes [i,i + 1,i + 2,i + 3,i + 5,i + 6,i + 7] ⟨i + len,config (i + 2),curHid,s.diagnosis.noteInterface config i curHid⟩
    else if type = 5 ∧ len ≥ 7 then
      .goes [i,i + 1,i + 2,i + 3,i + 4,i + 5,i + 6] ⟨i + len,s.cur,s.curHid,s.diagnosis.noteEndpoint config i s.curHid⟩
    else .goes [i,i + 1] ⟨i + len,s.cur,s.curHid,s.diagnosis⟩
  else .ends [] s.diagnosis

def dumpConfig (fuel : Nat) : Option (List Nat × Diagnosis) :=
  (loop (dumpTurn config (configTotal config)) fuel ⟨0,0xFF,false,⟨0,0,0,0xFF,0,0,0,0,0,0⟩⟩).map fun r => ([2,3] ++ r.1,r.2)

/-- The protocol that a pass of `find_hid` wants: that of a boot keyboard or mouse, and then 0. -/
def passProtocol (keyboard : Bool) (pass : Nat) : Byte := if pass = 0 then if keyboard then 1 else 2 else 0

/-- The interface at `i` is a HID boot interface of a protocol, in its alternate setting 0. -/
def bootInterface (protocol : Byte) (i : Nat) : Bool :=
  config (i + 3) == 0 && config (i + 5) == 3 && config (i + 6) == 1 && config (i + 7) == protocol

/-- `i`, `sel` and the candidate in the loop of a pass. -/
structure HidWalk where
  i : Nat
  sel : Bool
  c : HidCandidate

def hidTurn (total : Nat) (protocol : Byte) (s : HidWalk) : Turn HidWalk Nat (Bool × HidCandidate) :=
  if s.i + 2 ≤ total then
    let i := s.i
    let len := lengthAt config i
    let type := config (i + 1)
    if len < 2 ∨ i + len > total then .ends [i,i + 1] (false,s.c)
    else if type = 4 ∧ len ≥ 9 then
      let sel := bootInterface config protocol i
      .goes ([i,i + 1,i + 3,i + 5,i + 6,i + 7] ++ if sel then [i + 2] else [])
        ⟨i + len,sel,if sel then { s.c with interfaceNumber := config (i + 2) } else s.c⟩
    else if type = 5 ∧ len ≥ 7 ∧ s.sel then
      let mps := configWord config (i + 4)
      if interruptIn config i && mps &&& 0x7FF != 0 then
        .ends [i,i + 1,i + 2,i + 3,i + 4,i + 5,i + 6] (true,{ s.c with
          endpointAddress := config (i + 2)
          packetSize := mps &&& 0x7FF
          interval := if config (i + 6) ≠ 0 then config (i + 6) else 1 })
      else .goes [i,i + 1,i + 2,i + 3,i + 4,i + 5] { s with i := i + len }
    else .goes [i,i + 1] { s with i := i + len }
  else .ends [] (false,s.c)

/-- What `find_hid` returns and leaves. -/
structure HidSearch where
  returned : Int
  candidate : HidCandidate
  diagnosis : Diagnosis
  deriving DecidableEq

/-- `find_hid` once `read_config_descriptor` has filled the buffer, `c` and `d` what the candidate
and the statics held before. -/
def findHid (keyboard : Bool) (fuel : Nat) (c : HidCandidate) (d : Diagnosis) : Option (List Nat × HidSearch) :=
  if (configWord config 2).toNat < 9 then some ([2,3],⟨-1,c,d⟩)
  else
    (dumpConfig config fuel).bind fun dump =>
      let c : HidCandidate := ⟨0,0,0,0,config 5⟩
      (loop (hidTurn config (configTotal config) (passProtocol keyboard 0)) fuel ⟨0,false,c⟩).bind fun first =>
        if first.2.1 then some ([2,3] ++ dump.1 ++ [5] ++ first.1,⟨0,first.2.2,dump.2⟩)
        else
          (loop (hidTurn config (configTotal config) (passProtocol keyboard 1)) fuel ⟨0,false,first.2.2⟩).map fun second =>
            ([2,3] ++ dump.1 ++ [5] ++ first.1 ++ second.1,⟨if second.2.1 then 0 else -1,second.2.2,dump.2⟩)

end Search

section Prefix
variable {config : Nat → Byte} {total : Nat}

/-- A descriptor starts at `i` and ends within the configuration. -/
def WellFormed (config : Nat → Byte) (total i : Nat) : Prop := i + 2 ≤ total ∧ 2 ≤ lengthAt config i ∧ i + lengthAt config i ≤ total

/-- The descriptors from a place on, up to the first that is not well formed. -/
inductive Descriptors (config : Nat → Byte) (total : Nat) : Nat → List Nat → Prop
  | stops {i : Nat} (ends : ¬WellFormed config total i) : Descriptors config total i []
  | descriptor {i : Nat} {rest : List Nat} (formed : WellFormed config total i)
      (later : Descriptors config total (i + lengthAt config i) rest) : Descriptors config total i (i::rest)

/-- The walk ends, after one descriptor for at least every two bytes. -/
theorem descriptors_exist (config : Nat → Byte) (total i : Nat) :
    ∃ ds,Descriptors config total i ds ∧ 2 * ds.length ≤ total - i := by
  induction left : total - i using Nat.strongRecOn generalizing i with
  | ind left' ih =>
    by_cases formed : WellFormed config total i
    · obtain ⟨inside,long,fits⟩ := formed
      obtain ⟨rest,later,short⟩ := ih (total - (i + lengthAt config i)) (by omega) (i + lengthAt config i) rfl
      exact ⟨i::rest,.descriptor ⟨inside,long,fits⟩ later,by rw [List.length_cons]; omega⟩
    · exact ⟨[],.stops formed,Nat.zero_le _⟩

theorem Descriptors.unique {i : Nat} {ds ds' : List Nat} (found : Descriptors config total i ds)
    (found' : Descriptors config total i ds') : ds' = ds := by
  induction found generalizing ds' with
  | stops ends =>
    cases found' with
    | stops _ => rfl
    | descriptor formed _ => exact absurd formed ends
  | descriptor formed later ih =>
    cases found' with
    | stops ends => exact absurd formed ends
    | descriptor _ later' => rw [ih later']

theorem Descriptors.mem {i k : Nat} {ds : List Nat} (found : Descriptors config total i ds) (member : k ∈ ds) :
    i ≤ k ∧ WellFormed config total k := by
  induction found with
  | stops _ => cases member
  | descriptor formed later ih =>
    rcases List.mem_cons.mp member with rfl | member
    · exact ⟨Nat.le_refl _,formed⟩
    · exact ⟨Nat.le_trans (Nat.le_add_right ..) (ih member).1,(ih member).2⟩

/-- A pass takes descriptor after descriptor. -/
def isInterface (config : Nat → Byte) (i : Nat) : Bool := config (i + 1) == 4 && decide (lengthAt config i ≥ 9)

def isEndpoint (config : Nat → Byte) (i : Nat) : Bool := config (i + 1) == 5 && decide (lengthAt config i ≥ 7)

/-- An interrupt endpoint towards the host with a packet size. -/
def usable (config : Nat → Byte) (e : Nat) : Bool := interruptIn config e && configWord config (e + 4) &&& 0x7FF != 0

def HidCandidate.named (c : HidCandidate) (config : Nat → Byte) (j : Nat) : HidCandidate :=
  { c with interfaceNumber := config (j + 2) }

def HidCandidate.filled (c : HidCandidate) (config : Nat → Byte) (e : Nat) : HidCandidate :=
  { c with
    endpointAddress := config (e + 2)
    packetSize := configWord config (e + 4) &&& 0x7FF
    interval := if config (e + 6) ≠ 0 then config (e + 6) else 1 }

/-- A pass of `find_hid` over a row of descriptors. -/
def scan (config : Nat → Byte) (protocol : Byte) : List Nat → Bool → HidCandidate → Bool × HidCandidate
  | [], _, c => (false,c)
  | i::rest, sel, c =>
    if isInterface config i then
      scan config protocol rest (bootInterface config protocol i) (if bootInterface config protocol i then c.named config i else c)
    else if isEndpoint config i && sel && usable config i then (true,c.filled config i)
    else scan config protocol rest sel c

theorem hidTurn_stops {protocol : Byte} {s : HidWalk} (ends : ¬WellFormed config total s.i) :
    ∃ log,hidTurn config total protocol s = .ends log (false,s.c) ∧ ∀ k ∈ log,k < total := by
  unfold hidTurn
  by_cases inside : s.i + 2 ≤ total
  · rw [if_pos inside]
    dsimp only
    rw [if_pos (by unfold WellFormed at ends; omega)]
    refine ⟨_,rfl,?_⟩
    simp only [List.mem_cons,List.not_mem_nil,or_false,forall_eq_or_imp,forall_eq]
    omega
  · rw [if_neg inside]
    exact ⟨[],rfl,nofun⟩

theorem hidTurn_descriptor {protocol : Byte} {s : HidWalk} (formed : WellFormed config total s.i) :
    ∃ log,(∀ k ∈ log,k < total) ∧ hidTurn config total protocol s =
      if isInterface config s.i then
        .goes log ⟨s.i + lengthAt config s.i,bootInterface config protocol s.i,
          if bootInterface config protocol s.i then s.c.named config s.i else s.c⟩
      else if isEndpoint config s.i && s.sel && usable config s.i then .ends log (true,s.c.filled config s.i)
      else .goes log ⟨s.i + lengthAt config s.i,s.sel,s.c⟩ := by
  obtain ⟨inside,long,fits⟩ := formed
  unfold hidTurn
  rw [if_pos inside]
  dsimp only
  rw [if_neg (by omega)]
  have near (ks : List Nat) (n : Nat) (short : ∀ k ∈ ks,k < s.i + n) (room : n ≤ lengthAt config s.i) : ∀ k ∈ ks,k < total := by
    intro k member
    have below := short k member
    omega
  by_cases interface : config (s.i + 1) = 4 ∧ lengthAt config s.i ≥ 9
  · have is : isInterface config s.i = true := by simp [isInterface,interface]
    refine ⟨[s.i,s.i + 1,s.i + 3,s.i + 5,s.i + 6,s.i + 7] ++ if bootInterface config protocol s.i then [s.i + 2] else [],
      near _ 9 ?_ interface.2,(if_pos interface).trans (if_pos is).symm⟩
    intro k member
    rcases List.mem_append.mp member with member | member
    · simp only [List.mem_cons,List.not_mem_nil,or_false] at member
      omega
    · split at member
      · rw [List.mem_singleton] at member
        omega
      · cases member
  have other : ¬isInterface config s.i = true := by simpa [isInterface] using interface
  rw [if_neg interface]
  by_cases endpoint : config (s.i + 1) = 5 ∧ lengthAt config s.i ≥ 7 ∧ s.sel
  · have is : (isEndpoint config s.i && s.sel) = true := by simp [isEndpoint,endpoint]
    rw [if_pos endpoint]
    by_cases good : usable config s.i = true
    · refine ⟨[s.i,s.i + 1,s.i + 2,s.i + 3,s.i + 4,s.i + 5,s.i + 6],near _ 7 ?_ endpoint.2.1,?_⟩
      rotate_left
      · rw [if_neg other,is,Bool.true_and,if_pos good]
        exact if_pos good
      simp only [List.mem_cons,List.not_mem_nil,or_false,forall_eq_or_imp,forall_eq]
      omega
    · refine ⟨[s.i,s.i + 1,s.i + 2,s.i + 3,s.i + 4,s.i + 5],near _ 7 ?_ endpoint.2.1,?_⟩
      rotate_left
      · rw [if_neg other,is,Bool.true_and,if_neg good]
        exact if_neg good
      simp only [List.mem_cons,List.not_mem_nil,or_false,forall_eq_or_imp,forall_eq]
      omega
  · have none : ¬(isEndpoint config s.i && s.sel && usable config s.i) = true := by
      intro all
      simp only [isEndpoint,Bool.and_eq_true,beq_iff_eq,decide_eq_true_iff] at all
      exact endpoint ⟨all.1.1.1,all.1.1.2,all.1.2⟩
    rw [if_neg endpoint]
    refine ⟨[s.i,s.i + 1],near _ 2 ?_ long,by rw [if_neg other,if_neg none]⟩
    simp only [List.mem_cons,List.not_mem_nil,or_false,forall_eq_or_imp,forall_eq]
    omega

/-- A pass ends, reads inside the configuration and finds what a scan of its descriptors does. -/
theorem Descriptors.hidLoop {protocol : Byte} {i : Nat} {ds : List Nat} (found : Descriptors config total i ds) (sel : Bool)
    (c : HidCandidate) :
    ∃ log,(∀ fuel,ds.length < fuel → loop (hidTurn config total protocol) fuel ⟨i,sel,c⟩ = some (log,scan config protocol ds sel c)) ∧
      ∀ k ∈ log,k < total := by
  induction found generalizing sel c with
  | @stops i ends =>
    obtain ⟨log,turn,inside⟩ := @hidTurn_stops config total protocol ⟨i,sel,c⟩ ends
    refine ⟨log,fun fuel enough => ?_,inside⟩
    obtain ⟨fuel,rfl⟩ := Nat.exists_eq_add_of_lt enough
    rw [loop,turn]
    rfl
  | @descriptor i rest formed later ih =>
    obtain ⟨log,inside,turn⟩ := @hidTurn_descriptor config total protocol ⟨i,sel,c⟩ formed
    have goes (sel' : Bool) (c' : HidCandidate) (next : hidTurn config total protocol ⟨i,sel,c⟩ = .goes log ⟨i + lengthAt config i,sel',c'⟩) :
        ∃ log,(∀ fuel,(i::rest).length < fuel →
          loop (hidTurn config total protocol) fuel ⟨i,sel,c⟩ = some (log,scan config protocol rest sel' c')) ∧ ∀ k ∈ log,k < total := by
      obtain ⟨log',done,inside'⟩ := ih sel' c'
      refine ⟨log ++ log',fun fuel enough => ?_,fun k member => ?_⟩
      · obtain ⟨fuel,rfl⟩ := Nat.exists_eq_add_of_lt enough
        rw [loop,next]
        dsimp only
        rw [done _ (by rw [List.length_cons]; omega)]
        rfl
      · rcases List.mem_append.mp member with member | member
        · exact inside k member
        · exact inside' k member
    rw [scan]
    dsimp only at turn
    by_cases interface : isInterface config i = true
    · rw [if_pos interface] at turn ⊢
      exact goes _ _ turn
    rw [if_neg interface] at turn ⊢
    by_cases taken : (isEndpoint config i && sel && usable config i) = true
    · rw [if_pos taken] at turn ⊢
      refine ⟨log,fun fuel enough => ?_,inside⟩
      obtain ⟨fuel,rfl⟩ := Nat.exists_eq_add_of_lt enough
      rw [loop,turn]
    · rw [if_neg taken] at turn ⊢
      exact goes _ _ turn

end Prefix

section Owners
variable {config : Nat → Byte} {protocol : Byte}

/-- The interface that an endpoint behind some descriptors belongs to: the last one. -/
def owner (config : Nat → Byte) (before : List Nat) : Option Nat := (before.filter (isInterface config)).getLast?

/-- An endpoint of a HID boot interface behind the descriptors `before` is one to take. -/
def Takes (config : Nat → Byte) (protocol : Byte) (before : List Nat) (e j : Nat) : Prop :=
  owner config before = some j ∧ bootInterface config protocol j ∧ isEndpoint config e ∧ usable config e

theorem owner_snoc (before : List Nat) (i : Nat) :
    owner config (before ++ [i]) = if isInterface config i then some i else owner config before := by
  unfold owner
  rw [List.filter_append]
  by_cases interface : isInterface config i = true
  · rw [if_pos interface,List.filter_cons_of_pos interface,List.filter_nil,List.getLast?_append]
    rfl
  · rw [if_neg interface,List.filter_cons_of_neg interface,List.filter_nil,List.append_nil]

/-- The state of a pass behind some descriptors: `sel` says whether the last interface is a wanted
one, and then the candidate has its number. -/
structure Behind (config : Nat → Byte) (protocol : Byte) (before : List Nat) (sel : Bool) (c : HidCandidate) : Prop where
  selected : sel = true ↔ ∃ j,owner config before = some j ∧ bootInterface config protocol j
  number : ∀ j,owner config before = some j → bootInterface config protocol j → c.interfaceNumber = config (j + 2)

theorem Behind.interface {before : List Nat} {i : Nat} (is : isInterface config i) (c : HidCandidate) :
    Behind config protocol (before ++ [i]) (bootInterface config protocol i)
      (if bootInterface config protocol i then c.named config i else c) := by
  have last : owner config (before ++ [i]) = some i := by rw [owner_snoc,if_pos is]
  refine ⟨?_,fun j own boot => ?_⟩
  · rw [last]
    exact ⟨fun boot => ⟨i,rfl,boot⟩,fun ⟨j,own,boot⟩ => by cases own; exact boot⟩
  · rw [last] at own
    cases own
    rw [if_pos boot]
    rfl

theorem Behind.other {before : List Nat} {sel : Bool} {c : HidCandidate} (behind : Behind config protocol before sel c) {i : Nat}
    (no : ¬isInterface config i = true) : Behind config protocol (before ++ [i]) sel c := by
  have same : owner config (before ++ [i]) = owner config before := by rw [owner_snoc,if_neg no]
  refine ⟨?_,fun j own boot => ?_⟩
  · rw [same]
    exact behind.selected
  · rw [same] at own
    exact behind.number j own boot

/-- No descriptor of a row is an endpoint to take. -/
def NoneTaken (config : Nat → Byte) (protocol : Byte) (before ds : List Nat) : Prop :=
  ∀ mid x after j,ds = mid ++ x::after → ¬Takes config protocol (before ++ mid) x j

theorem noneTaken_nil (before : List Nat) : NoneTaken config protocol before [] := by
  intro mid x after j split
  exact absurd split.symm (by simp)

theorem NoneTaken.cons {before rest : List Nat} {i : Nat} (first : ∀ j,¬Takes config protocol before i j)
    (later : NoneTaken config protocol (before ++ [i]) rest) : NoneTaken config protocol before (i::rest) := by
  intro mid x after j split takes
  cases mid with
  | nil =>
    cases split
    rw [List.append_nil] at takes
    exact first j takes
  | cons y mid =>
    cases split
    refine later mid x after j rfl ?_
    rw [List.append_assoc]
    exact takes

/-- What a scan finds: the first endpoint to take, with the number of its interface, or nothing
where there is none. -/
def Found (config : Nat → Byte) (protocol : Byte) (before ds : List Nat) (c : HidCandidate) (r : Bool × HidCandidate) : Prop :=
  if r.1 then ∃ mid e after j,ds = mid ++ e::after ∧ Takes config protocol (before ++ mid) e j ∧
    NoneTaken config protocol before mid ∧ r.2 = (c.named config j).filled config e
  else NoneTaken config protocol before ds ∧ r.2.configValue = c.configValue

theorem Found.cons {before rest : List Nat} {i : Nat} {c c' : HidCandidate} {r : Bool × HidCandidate}
    (first : ∀ j,¬Takes config protocol before i j) (value : c'.configValue = c.configValue)
    (named : ∀ e j,(c'.named config j).filled config e = (c.named config j).filled config e)
    (later : Found config protocol (before ++ [i]) rest c' r) : Found config protocol before (i::rest) c r := by
  unfold Found at later ⊢
  split
  next found =>
    rw [if_pos found] at later
    obtain ⟨mid,e,after,j,rfl,takes,none,result⟩ := later
    refine ⟨i::mid,e,after,j,rfl,?_,none.cons first,result.trans (named e j)⟩
    rw [List.append_assoc] at takes
    exact takes
  next missing =>
    rw [if_neg missing] at later
    exact ⟨later.1.cons first,later.2.trans value⟩

theorem scan_found (ds : List Nat) {before : List Nat} {sel : Bool} {c : HidCandidate} (behind : Behind config protocol before sel c) :
    Found config protocol before ds c (scan config protocol ds sel c) := by
  induction ds generalizing before sel c with
  | nil => exact ⟨noneTaken_nil before,rfl⟩
  | cons i rest ih =>
    rw [scan]
    by_cases interface : isInterface config i = true
    · rw [if_pos interface]
      have no (j : Nat) : ¬Takes config protocol before i j := by
        rintro ⟨_,_,endpoint,_⟩
        simp only [isInterface,isEndpoint,Bool.and_eq_true,beq_iff_eq] at interface endpoint
        exact absurd (interface.1.symm.trans endpoint.1) (by decide)
      refine (ih (Behind.interface interface c)).cons no ?_ ?_
      · split
        · rfl
        · rfl
      · intro e j
        split
        · rfl
        · rfl
    rw [if_neg interface]
    by_cases taken : (isEndpoint config i && sel && usable config i) = true
    · rw [if_pos taken]
      simp only [Bool.and_eq_true] at taken
      obtain ⟨j,own,boot⟩ := behind.selected.mp taken.1.2
      refine ⟨[],i,rest,j,rfl,?_,noneTaken_nil before,?_⟩
      · rw [List.append_nil]
        exact ⟨own,boot,taken.1.1,taken.2⟩
      · have number := behind.number j own boot
        unfold HidCandidate.filled HidCandidate.named
        rw [← number]
    · rw [if_neg taken]
      refine (ih (behind.other interface)).cons ?_ rfl fun _ _ => rfl
      rintro j ⟨own,boot,endpoint,good⟩
      exact taken (by rw [endpoint,good,behind.selected.mpr ⟨j,own,boot⟩]; rfl)

theorem owner_mem {before : List Nat} {j : Nat} (own : owner config before = some j) : j ∈ before ∧ isInterface config j :=
  List.mem_filter.mp (List.mem_of_getLast? own)

end Owners

section Dump
variable {config : Nat → Byte} {total : Nat}

theorem dumpTurn_stops {s : DumpWalk} (ends : ¬WellFormed config total s.i) :
    ∃ log,dumpTurn config total s = .ends log s.diagnosis ∧ ∀ k ∈ log,k < total := by
  unfold dumpTurn
  by_cases inside : s.i + 2 ≤ total
  · rw [if_pos inside]
    dsimp only
    rw [if_pos (by unfold WellFormed at ends; omega)]
    refine ⟨_,rfl,?_⟩
    simp only [List.mem_cons,List.not_mem_nil,or_false,forall_eq_or_imp,forall_eq]
    omega
  · rw [if_neg inside]
    exact ⟨[],rfl,nofun⟩

theorem dumpTurn_descriptor {s : DumpWalk} (formed : WellFormed config total s.i) :
    ∃ log next,dumpTurn config total s = .goes log next ∧ next.i = s.i + lengthAt config s.i ∧ ∀ k ∈ log,k < total := by
  obtain ⟨inside,long,fits⟩ := formed
  unfold dumpTurn
  rw [if_pos inside]
  dsimp only
  rw [if_neg (by omega)]
  split
  next interface =>
    refine ⟨_,_,rfl,rfl,?_⟩
    simp only [List.mem_cons,List.not_mem_nil,or_false,forall_eq_or_imp,forall_eq]
    omega
  split
  next endpoint =>
    refine ⟨_,_,rfl,rfl,?_⟩
    simp only [List.mem_cons,List.not_mem_nil,or_false,forall_eq_or_imp,forall_eq]
    omega
  · refine ⟨_,_,rfl,rfl,?_⟩
    simp only [List.mem_cons,List.not_mem_nil,or_false,forall_eq_or_imp,forall_eq]
    omega

theorem Descriptors.dumpLoop {i : Nat} {ds : List Nat} (found : Descriptors config total i ds) {s : DumpWalk} (place : s.i = i) :
    ∃ log d,(∀ fuel,ds.length < fuel → loop (dumpTurn config total) fuel s = some (log,d)) ∧ ∀ k ∈ log,k < total := by
  induction found generalizing s with
  | stops ends =>
    obtain ⟨log,turn,inside⟩ := @dumpTurn_stops config total s (place ▸ ends)
    refine ⟨log,s.diagnosis,fun fuel enough => ?_,inside⟩
    obtain ⟨fuel,rfl⟩ := Nat.exists_eq_add_of_lt enough
    rw [loop,turn]
  | @descriptor i rest formed later ih =>
    obtain ⟨log,next,turn,on,inside⟩ := @dumpTurn_descriptor config total s (place ▸ formed)
    obtain ⟨log',d,done,inside'⟩ := @ih next (by rw [on,place])
    refine ⟨log ++ log',d,fun fuel enough => ?_,fun k member => ?_⟩
    · obtain ⟨fuel,rfl⟩ := Nat.exists_eq_add_of_lt enough
      rw [loop,turn]
      dsimp only
      rw [done _ (by rw [List.length_cons]; omega)]
      rfl
    · rcases List.mem_append.mp member with member | member
      · exact inside k member
      · exact inside' k member

end Dump

section Result
variable {config : Nat → Byte}

/-- What `find_hid` fills in for an endpoint of an interface. -/
def hidCandidate (config : Nat → Byte) (j e : Nat) : HidCandidate :=
  ⟨config (j + 2),config (e + 2),configWord config (e + 4) &&& 0x7FF,if config (e + 6) ≠ 0 then config (e + 6) else 1,config 5⟩

/-- The descriptor `e` in a row is an endpoint to take, of the interface `j`. -/
def Wanted (config : Nat → Byte) (protocol : Byte) (ds : List Nat) (e j : Nat) : Prop :=
  ∃ before after,ds = before ++ e::after ∧ Takes config protocol before e j

theorem configTotal_le (config : Nat → Byte) : configTotal config ≤ 4096 := by
  unfold configTotal
  split
  · omega
  · omega

/-- An endpoint to take needs an interface descriptor of nine bytes. -/
theorem none_in_short {ds : List Nat} (found : Descriptors config (configTotal config) 0 ds) (short : configTotal config < 9)
    (protocol : Byte) (e j : Nat) : ¬Wanted config protocol ds e j := by
  rintro ⟨before,after,rfl,own,_⟩
  obtain ⟨member,interface⟩ := owner_mem own
  have formed := (found.mem (List.mem_append_left _ member)).2
  simp only [isInterface,Bool.and_eq_true,decide_eq_true_iff] at interface
  have fits := formed.2.2
  omega

theorem NoneTaken.wanted {protocol : Byte} {ds : List Nat} (none : NoneTaken config protocol [] ds) (e j : Nat) :
    ¬Wanted config protocol ds e j :=
  fun ⟨before,after,split,takes⟩ => none before e after j split takes

/-- What a pass over the descriptors of the configuration finds, from a candidate that has only
its configuration value. -/
theorem pass_found (protocol : Byte) (ds : List Nat) (c : HidCandidate) :
    Found config protocol [] ds c (scan config protocol ds false c) := by
  refine scan_found ds ⟨?_,nofun⟩
  exact ⟨nofun,fun ⟨_,own,_⟩ => nomatch own⟩

/-- The search ends, reads inside the buffer and succeeds exactly if there is an endpoint to take;
then it fills in the first one of the first pass that has one. -/
theorem findHid_first (config : Nat → Byte) (keyboard : Bool) (c : HidCandidate) (d : Diagnosis) :
    ∃ log r ds,(∀ fuel,2048 < fuel → findHid config keyboard fuel c d = some (log,r)) ∧ (∀ k ∈ log,k < 4096) ∧
      Descriptors config (configTotal config) 0 ds ∧ (r.returned = 0 ∨ r.returned = -1) ∧
        (r.returned = 0 ↔ ∃ pass < 2,∃ e j,Wanted config (passProtocol keyboard pass) ds e j) ∧
          (r.returned = 0 → ∃ pass < 2,∃ before e after j,ds = before ++ e::after ∧
            Takes config (passProtocol keyboard pass) before e j ∧ NoneTaken config (passProtocol keyboard pass) [] before ∧
              (∀ earlier < pass,∀ e j,¬Wanted config (passProtocol keyboard earlier) ds e j) ∧ r.candidate = hidCandidate config j e) := by
  obtain ⟨ds,found,few⟩ := descriptors_exist config (configTotal config) 0
  have most := configTotal_le config
  by_cases short : (configWord config 2).toNat < 9
  · have none := none_in_short found (by unfold configTotal; split <;> omega)
    refine ⟨[2,3],⟨-1,c,d⟩,ds,fun fuel _ => if_pos short,?_,found,.inr rfl,⟨nofun,?_⟩,nofun⟩
    · simp
    · rintro ⟨pass,_,e,j,wanted⟩
      exact absurd wanted (none _ e j)
  obtain ⟨dumped,note,dump,inDump⟩ := @Descriptors.dumpLoop config _ 0 ds found ⟨0,0xFF,false,⟨0,0,0,0xFF,0,0,0,0,0,0⟩⟩ rfl
  have dumps {fuel : Nat} (enough : 2048 < fuel) : dumpConfig config fuel = some ([2,3] ++ dumped,note) := by
    rw [dumpConfig,dump fuel (by omega)]
    rfl
  obtain ⟨log,first,inFirst⟩ := @Descriptors.hidLoop config _ (passProtocol keyboard 0) 0 ds found false ⟨0,0,0,0,config 5⟩
  have result := @pass_found config (passProtocol keyboard 0) ds ⟨0,0,0,0,config 5⟩
  generalize scan config (passProtocol keyboard 0) ds false ⟨0,0,0,0,config 5⟩ = r at first result
  have heads : ∀ k ∈ [2,3] ++ ([2,3] ++ dumped) ++ [5] ++ log,k < 4096 := by
    intro k member
    simp only [List.mem_append,List.mem_cons,List.not_mem_nil,or_false] at member
    rcases member with ((member | member | member) | member) | member
    · omega
    · omega
    · have := inDump k member
      omega
    · omega
    · have := inFirst k member
      omega
  by_cases hit : r.1 = true
  · unfold Found at result
    rw [if_pos hit] at result
    obtain ⟨before,e,after,j,split,takes,none,filled⟩ := result
    rw [List.nil_append] at takes
    refine ⟨_,⟨0,r.2,note⟩,ds,fun fuel enough => ?_,heads,found,.inl rfl,?_,fun _ => ?_⟩
    · rw [findHid,if_neg short,dumps enough,Option.bind_some]
      dsimp only
      rw [first fuel (by omega),Option.bind_some,if_pos hit]
    · exact ⟨fun _ => ⟨0,by omega,e,j,before,after,split,takes⟩,fun _ => rfl⟩
    · exact ⟨0,by omega,before,e,after,j,split,takes,none,nofun,filled⟩
  · unfold Found at result
    rw [if_neg hit] at result
    obtain ⟨log',second,inSecond⟩ := @Descriptors.hidLoop config _ (passProtocol keyboard 1) 0 ds found false r.2
    have result' := @pass_found config (passProtocol keyboard 1) ds r.2
    generalize scan config (passProtocol keyboard 1) ds false r.2 = r' at second result'
    have reads : ∀ k ∈ [2,3] ++ ([2,3] ++ dumped) ++ [5] ++ log ++ log',k < 4096 := by
      intro k member
      rcases List.mem_append.mp member with member | member
      · exact heads k member
      · have := inSecond k member
        omega
    have runs : ∀ fuel,2048 < fuel → findHid config keyboard fuel c d =
        some ([2,3] ++ ([2,3] ++ dumped) ++ [5] ++ log ++ log',⟨if r'.1 then 0 else -1,r'.2,note⟩) := by
      intro fuel enough
      rw [findHid,if_neg short,dumps enough,Option.bind_some]
      dsimp only
      rw [first fuel (by omega),Option.bind_some,if_neg hit,second fuel (by omega)]
      rfl
    by_cases hit' : r'.1 = true
    · unfold Found at result'
      rw [if_pos hit'] at result'
      obtain ⟨before,e,after,j,split,takes,none,filled⟩ := result'
      rw [List.nil_append] at takes
      rw [hit'] at runs
      refine ⟨_,_,ds,runs,reads,found,.inl rfl,?_,fun _ => ?_⟩
      · exact ⟨fun _ => ⟨1,by omega,e,j,before,after,split,takes⟩,fun _ => rfl⟩
      · refine ⟨1,by omega,before,e,after,j,split,takes,none,fun earlier less => ?_,?_⟩
        · obtain rfl : earlier = 0 := by omega
          exact result.1.wanted
        · refine filled.trans ?_
          unfold hidCandidate HidCandidate.filled HidCandidate.named
          rw [result.2]
    · unfold Found at result'
      rw [if_neg hit'] at result'
      rw [Bool.eq_false_iff.mpr hit'] at runs
      refine ⟨_,_,ds,runs,reads,found,.inr rfl,⟨nofun,?_⟩,nofun⟩
      rintro ⟨pass,below,e,j,wanted⟩
      match pass with
      | 0 => exact absurd wanted (result.1.wanted e j)
      | 1 => exact absurd wanted (result'.1.wanted e j)

/-- The configuration of a boot keyboard: one interface, its HID descriptor and one endpoint. -/
def bootKeyboard : List Byte :=
  [9,2,34,0,1,1,0,0xA0,50, 9,4,0,0,1,3,1,1,0, 9,0x21,0x11,1,0,1,0x22,63,0, 7,5,0x81,3,8,0,10]

example : ((findHid (bootKeyboard.getD · 0) true 9 ⟨0,0,0,0,0⟩ ⟨0,0,0,0,0,0,0,0,0,0⟩).map fun r => (r.2.returned,r.2.candidate)) =
    some (0,⟨0,0x81,8,10,1⟩) := by
  decide +kernel

end Result

end LionOS.Usb

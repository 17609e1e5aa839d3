import LionOS.Files.Names
import LionOS.Library.Run

/-! The log ring of the kernel: calls that record an entry store by store, each of which
interrupt handlers may interrupt with whole calls of their own, and the reads in between. -/
namespace LionOS.Diag
open LionOS.Physical LionOS.Files LionOS.Library

def klogRingCapacity : Nat := 64
def klogMessageMax : Nat := 96

structure LogEntry where
  sequence : Nat
  level : Nat
  message : Nat → Byte

structure LogRing where
  entries : Nat → LogEntry
  logSequence : Nat

def emptyRing : LogRing := ⟨fun _ => ⟨0,0,fun _ => 0⟩,0⟩

/-- The arguments of `kernel_log_ring_record`; a null message is `none`. -/
structure Record where
  level : Nat
  message : Option (List Byte)
  deriving DecidableEq

def Record.char (r : Record) (i : Nat) : Byte :=
  match r.message with
  | none => 0
  | some text => text.getD i 0

/-- How far a call is; behind the first store it has its sequence number. -/
inductive Stage
  | entered
  | counted (sequence : Nat)
  | cleared (sequence : Nat)
  | copying (sequence i : Nat)
  | ended (sequence : Nat)
  | stamped (sequence : Nat)
  deriving DecidableEq

structure RecordCall where
  record : Record
  stage : Stage
  deriving DecidableEq

/-- A store to the entry of a sequence number. -/
def LogRing.store (r : LogRing) (sequence : Nat) (change : LogEntry → LogEntry) : LogRing :=
  {r with entries := Function.update r.entries (sequence % klogRingCapacity) (change (r.entries (sequence % klogRingCapacity)))}

/-- The next store of a call, `none` once it returns. The last stage is that of
`kernel_log_persistence_write`, which leaves the ring alone. -/
def recordStep (r : LogRing) (c : RecordCall) : LogRing × Option RecordCall :=
  match c.stage with
  | .entered =>
    let sequence := (r.logSequence + 1) % 2^32
    ({r with logSequence := sequence},some {c with stage := .counted sequence})
  | .counted sequence => (r.store sequence fun e => {e with sequence := 0},some {c with stage := .cleared sequence})
  | .cleared sequence =>
    (r.store sequence fun e => {e with level := c.record.level},some {c with stage := .copying sequence 0})
  | .copying sequence i =>
    if c.record.char i ≠ 0 ∧ i + 1 < klogMessageMax then
      (r.store sequence fun e => {e with message := Function.update e.message i (c.record.char i)},
        some {c with stage := .copying sequence (i+1)})
    else
      (r.store sequence fun e => {e with message := Function.update e.message i 0},some {c with stage := .ended sequence})
  | .ended sequence => (r.store sequence fun e => {e with sequence},some {c with stage := .stamped sequence})
  | .stamped _ => (r,none)

def kernelLogEntryCount (r : LogRing) : Nat := if r.logSequence > klogRingCapacity then klogRingCapacity else r.logSequence

/-- The characters from `i` on, `room` of them at most. -/
def copyText (message : Nat → Byte) (i : Nat) : Nat → List Byte
  | 0 => []
  | room+1 => if message i = 0 then [] else message i :: copyText message (i+1) room

/-- `kernel_log_read`: the level and the bytes stored to the buffer, `none` for -1; `given` says
that neither pointer is null. The second look at the stamp is that of the first, since no
call is in progress. -/
def kernelLogRead (r : LogRing) (index : Nat) (given : Bool) (capacity : Nat) : Option (Nat × List Byte) :=
  if given = false ∨ capacity = 0 then none
  else if index ≥ kernelLogEntryCount r then none
  else
    let head := r.logSequence
    let sequence := ((if head > klogRingCapacity then head - klogRingCapacity + 1 else 1) + index) % 2^32
    let entry := r.entries (sequence % klogRingCapacity)
    if entry.sequence ≠ sequence then none
    else some (entry.level,copyText entry.message 0 (min capacity klogMessageMax - 1) ++ [0])

/-- The ring and the calls in progress, the innermost first. `issued` are the arguments of
the calls that have a sequence number, in the order of their numbers. -/
structure Logging where
  ring : LogRing
  active : List RecordCall
  issued : List Record

inductive LogEvent
  | call (record : Record)
  | step

/-- A call begins, on top of those in progress, or the innermost makes its next store. -/
def Logging.next (t : Logging) : LogEvent → Logging
  | .call record => {t with active := ⟨record,.entered⟩::t.active}
  | .step => match t.active with
    | [] => t
    | c::rest =>
      let (ring,c') := recordStep t.ring c
      {ring,active := c'.toList ++ rest,issued := if c.stage = .entered then t.issued ++ [c.record] else t.issued}

def startLogging : Logging := ⟨emptyRing,[],[]⟩

def logged (events : List LogEvent) : Logging := run Logging.next startLogging events

/-! ### Texts -/

/-- The message as the ring keeps it. -/
def Record.text (r : Record) : List Byte := (cstring (r.message.getD [])).take (klogMessageMax - 1)

/-- The entry has the level of the record, and its message up to the terminator. -/
structure Shows (r : Record) (e : LogEntry) : Prop where
  level : e.level = r.level
  message : ∃ k < klogMessageMax, (∀ j < k, e.message j = r.char j ∧ r.char j ≠ 0) ∧ e.message k = 0 ∧
    (k + 1 = klogMessageMax ∨ r.char k = 0)

theorem char_eq (r : Record) (i : Nat) : r.char i = (r.message.getD []).getD i 0 := by
  cases message : r.message with
  | none => simp [Record.char,message]
  | some text => simp [Record.char,message]

/-- The characters in front of the first zero, as far as `k`. -/
theorem cstring_take (bytes : List Byte) (k : Nat) (some : ∀ j < k, bytes.getD j 0 ≠ 0) :
    (cstring bytes).take k = (List.range k).map fun j => bytes.getD j 0 := by
  induction bytes generalizing k with
  | nil =>
    cases k with
    | zero => rfl
    | succ k => exact absurd rfl (some 0 (by omega))
  | cons b rest ih =>
    cases k with
    | zero => rfl
    | succ k =>
      have first : b ≠ 0 := some 0 (by omega)
      have later : ∀ j < k, rest.getD j 0 ≠ 0 := fun j below => some (j+1) (by omega)
      rw [cstring,List.takeWhile_cons_of_pos (by simpa using first),List.take_succ_cons,List.range_succ_eq_map,List.map_cons,
        List.map_map]
      exact congrArg (b :: ·) (ih k later)

theorem cstring_ends (bytes : List Byte) {k : Nat} (zero : bytes.getD k 0 = 0) : (cstring bytes).length ≤ k := by
  induction bytes generalizing k with
  | nil => exact Nat.zero_le k
  | cons b rest ih =>
    rw [cstring,List.takeWhile_cons]
    split
    next nonzero =>
      cases k with
      | zero =>
        rw [List.getD_cons_zero] at zero
        simp [zero] at nonzero
      | succ k => exact Nat.succ_le_succ (ih zero)
    next => exact Nat.zero_le k

theorem copyText_until {message : Nat → Byte} {k : Nat} (some : ∀ j < k, message j ≠ 0) (zero : message k = 0)
    (room : Nat) {i : Nat} (inside : i ≤ k) :
    copyText message i room = ((List.range (k - i)).map fun j => message (i + j)).take room := by
  induction room generalizing i with
  | zero => rfl
  | succ room ih =>
    rw [copyText]
    by_cases last : i = k
    · rw [if_pos (by rw [last]; exact zero),last,Nat.sub_self]
      rfl
    · obtain ⟨n,left⟩ : ∃ n, k - i = n + 1 := ⟨k - i - 1,by omega⟩
      rw [if_neg (some i (by omega)),ih (by omega),left,List.range_succ_eq_map,List.map_cons,List.map_map,List.take_succ_cons,
        show k - (i+1) = n by omega,Nat.add_zero]
      congr 2
      apply List.map_congr_left
      intro j _
      simp only [Function.comp_apply,Nat.succ_eq_add_one]
      rw [Nat.add_assoc,Nat.add_comm 1]

/-- What is read of an entry that shows a record. -/
theorem Shows.text {r : Record} {e : LogEntry} (shows : Shows r e) (capacity : Nat) :
    copyText e.message 0 (min capacity klogMessageMax - 1) = r.text.take (capacity - 1) := by
  obtain ⟨k,small,same,zero,last⟩ := shows.message
  have whole : r.text = (List.range k).map e.message := by
    have first : ∀ j < k, (r.message.getD []).getD j 0 ≠ 0 := by
      intro j below
      rw [← char_eq]
      exact (same j below).2
    have chars : (List.range k).map e.message = (cstring (r.message.getD [])).take k := by
      rw [cstring_take _ k first]
      apply List.map_congr_left
      intro j member
      rw [← char_eq]
      exact (same j (List.mem_range.mp member)).1
    rw [chars,Record.text]
    rcases last with full | ended
    · rw [← full,Nat.add_sub_cancel]
    · rw [char_eq] at ended
      have short := cstring_ends _ ended
      rw [List.take_of_length_le short,List.take_of_length_le (by omega)]
  have nonzero : ∀ j < k, e.message j ≠ 0 := by
    intro j below
    rw [(same j below).1]
    exact (same j below).2
  rw [copyText_until nonzero zero _ (Nat.zero_le k),whole,Nat.sub_zero]
  simp only [Nat.zero_add]
  by_cases wide : capacity ≤ klogMessageMax
  · rw [Nat.min_eq_left wide]
  · rw [Nat.min_eq_right (by omega),List.take_of_length_le,List.take_of_length_le]
    · rw [List.length_map,List.length_range]
      omega
    · rw [List.length_map,List.length_range]
      omega

/-! ### Calls within calls -/

def Stage.number : Stage → Option Nat
  | .entered => none
  | .counted q | .cleared q | .copying q _ | .ended q | .stamped q => some q

/-- The number of a call that has not made its last store. -/
def Stage.pending : Stage → Option Nat
  | .entered | .stamped _ => none
  | .counted q | .cleared q | .copying q _ | .ended q => some q

theorem Stage.pending_number {stage : Stage} {q : Nat} (pending : stage.pending = some q) : stage.number = some q := by
  cases stage <;> first | exact pending | cases pending

/-- What a call has written to its entry so far. -/
def Written (c : RecordCall) (e : LogEntry) : Prop :=
  match c.stage with
  | .entered | .counted _ | .cleared _ => True
  | .copying _ i => e.level = c.record.level ∧ i < klogMessageMax ∧ ∀ j < i, e.message j = c.record.char j ∧ c.record.char j ≠ 0
  | .ended _ | .stamped _ => Shows c.record e

/-- The calls in progress and the entries of the last numbers: the entry of a call in
progress is that call's, and one with the stamp of a finished call shows it, unless an
outer call with the same entry has still to write its own stamp. -/
structure Consistent (t : Logging) : Prop where
  counter : t.ring.logSequence = t.issued.length
  numbers : ∀ c ∈ t.active, ∀ q, c.stage.number = some q → 0 < q ∧ t.issued[q-1]? = some c.record
  order : t.active.Pairwise fun a b => ∀ q p, a.stage.number = some q → b.stage.number = some p → p < q
  own : ∀ c ∈ t.active, ∀ q, c.stage.number = some q → t.issued.length < q + klogRingCapacity →
    Written c (t.ring.entries (q % klogRingCapacity))
  done : ∀ q record, 0 < q → t.issued[q-1]? = some record → t.issued.length < q + klogRingCapacity →
    (∀ c ∈ t.active, c.stage.number ≠ some q) → (t.ring.entries (q % klogRingCapacity)).sequence = q →
    Shows record (t.ring.entries (q % klogRingCapacity)) ∨
      ∃ c ∈ t.active, ∃ p, c.stage.pending = some p ∧ p % klogRingCapacity = q % klogRingCapacity

/-- Two of the last numbers have different entries. -/
theorem entries_apart {n p q : Nat} (p_last : p ≤ n) (below : q < p) (q_late : n < q + klogRingCapacity) :
    q % klogRingCapacity ≠ p % klogRingCapacity := by
  simp only [klogRingCapacity] at *
  omega

theorem store_same (r : LogRing) (p : Nat) (change : LogEntry → LogEntry) :
    (r.store p change).entries (p % klogRingCapacity) = change (r.entries (p % klogRingCapacity)) :=
  Function.update_self _ _ _

theorem store_other (r : LogRing) {p q : Nat} (change : LogEntry → LogEntry) (apart : q % klogRingCapacity ≠ p % klogRingCapacity) :
    (r.store p change).entries (q % klogRingCapacity) = r.entries (q % klogRingCapacity) :=
  Function.update_of_ne apart _ _

section Step
variable {t : Logging} {c c' : RecordCall} {rest : List RecordCall}

/-- A store of the innermost call to its own entry. -/
theorem Consistent.store (consistent : Consistent t) (active : t.active = c::rest) {p : Nat} {change : LogEntry → LogEntry}
    (before : c.stage.pending = some p) (after : c'.stage.number = some p) (same : c'.record = c.record)
    (ends : c'.stage.pending = some p ∨ ∀ e, (change e).sequence = p)
    (progress : Written c (t.ring.entries (p % klogRingCapacity)) →
      Written c' (change (t.ring.entries (p % klogRingCapacity)))) :
    Consistent ⟨t.ring.store p change,c'::rest,t.issued⟩ := by
  have number := Stage.pending_number before
  obtain ⟨counter,numbers,order,own,done⟩ := consistent
  have top : c ∈ t.active := by rw [active]; exact List.mem_cons_self
  have inner {d : RecordCall} (member : d ∈ rest) : d ∈ t.active := by rw [active]; exact List.mem_cons_of_mem c member
  rw [active,List.pairwise_cons] at order
  obtain ⟨above,order⟩ := order
  have issued : p ≤ t.issued.length := by
    have inside := (List.getElem?_eq_some_iff.mp (numbers c top p number).2).1
    have positive := (numbers c top p number).1
    omega
  refine ⟨counter,?_,?_,?_,?_⟩
  · intro d member q numbered
    rcases List.mem_cons.mp member with rfl | member
    · rw [after] at numbered
      cases numbered
      rw [same]
      exact numbers c top p number
    · exact numbers d (inner member) q numbered
  · refine List.pairwise_cons.mpr ⟨?_,order⟩
    intro d member q r numbered lower
    rw [after] at numbered
    cases numbered
    exact above d member p r number lower
  · intro d member q numbered late
    rcases List.mem_cons.mp member with rfl | member
    · rw [after] at numbered
      cases numbered
      dsimp only
      rw [store_same]
      exact progress (own c top p number late)
    · have lower := above d member p q number numbered
      dsimp only
      rw [store_other _ _ (entries_apart issued lower late)]
      exact own d (inner member) q numbered late
  · intro q record positive issuedAt late finished stamped
    dsimp only at issuedAt late stamped ⊢
    by_cases shared : q % klogRingCapacity = p % klogRingCapacity
    · rcases ends with pending | own
      · exact .inr ⟨c',List.mem_cons_self,p,pending,shared.symm⟩
      · rw [shared,store_same,own] at stamped
        exact absurd (after.trans (congrArg some stamped)) (finished c' List.mem_cons_self)
    · rw [store_other _ _ shared] at stamped ⊢
      have others : ∀ d ∈ t.active, d.stage.number ≠ some q := by
        intro d member
        rw [active] at member
        rcases List.mem_cons.mp member with rfl | member
        · rw [number]
          rintro ⟨⟩
          exact shared rfl
        · exact finished d (List.mem_cons_of_mem c' member)
      rcases done q record positive issuedAt late others stamped with shows | ⟨d,member,r,pending,place⟩
      · exact .inl shows
      · rw [active] at member
        rcases List.mem_cons.mp member with rfl | member
        · rw [before] at pending
          cases pending
          exact absurd place.symm shared
        · exact .inr ⟨d,List.mem_cons_of_mem c' member,r,pending,place⟩

/-- The innermost call takes its number. -/
theorem Consistent.count (consistent : Consistent t) (active : t.active = c::rest) (entered : c.stage = .entered) :
    Consistent ⟨{t.ring with logSequence := t.issued.length + 1},{c with stage := .counted (t.issued.length + 1)}::rest,
      t.issued ++ [c.record]⟩ := by
  obtain ⟨counter,numbers,order,own,done⟩ := consistent
  have inner {d : RecordCall} (member : d ∈ rest) : d ∈ t.active := by rw [active]; exact List.mem_cons_of_mem c member
  have length : (t.issued ++ [c.record]).length = t.issued.length + 1 := List.length_append
  rw [active,List.pairwise_cons] at order
  have earlier {q : Nat} {record : Record} (issued : t.issued[q-1]? = some record) :
      (t.issued ++ [c.record])[q-1]? = some record := by
    rw [List.getElem?_append_left (List.getElem?_eq_some_iff.mp issued).1]
    exact issued
  refine ⟨length.symm,?_,?_,?_,?_⟩
  · intro d member q numbered
    rcases List.mem_cons.mp member with rfl | member
    · cases numbered
      refine ⟨Nat.succ_pos _,?_⟩
      rw [Nat.add_sub_cancel]
      exact List.getElem?_concat_length
    · obtain ⟨positive,issued⟩ := numbers d (inner member) q numbered
      exact ⟨positive,earlier issued⟩
  · refine List.pairwise_cons.mpr ⟨?_,order.2⟩
    intro d member q r numbered lower
    cases numbered
    obtain ⟨positive,issued⟩ := numbers d (inner member) r lower
    have inside := (List.getElem?_eq_some_iff.mp issued).1
    omega
  · intro d member q numbered late
    dsimp only at late
    rw [length] at late
    rcases List.mem_cons.mp member with rfl | member
    · trivial
    · exact own d (inner member) q numbered (by omega)
  · intro q record positive issued late finished stamped
    dsimp only at issued late
    rw [length] at late
    have old : q - 1 < t.issued.length := by
      have inside := (List.getElem?_eq_some_iff.mp issued).1
      rw [length] at inside
      have other : q ≠ t.issued.length + 1 := by
        rintro rfl
        exact finished _ List.mem_cons_self rfl
      omega
    rw [List.getElem?_append_left old] at issued
    have others : ∀ d ∈ t.active, d.stage.number ≠ some q := by
      intro d member
      rw [active] at member
      rcases List.mem_cons.mp member with rfl | member
      · rw [entered]
        nofun
      · exact finished d (List.mem_cons_of_mem _ member)
    rcases done q record positive issued (by omega) others stamped with shows | ⟨d,member,r,pending,place⟩
    · exact .inl shows
    · rw [active] at member
      rcases List.mem_cons.mp member with rfl | member
      · rw [entered] at pending
        cases pending
      · exact .inr ⟨d,List.mem_cons_of_mem _ member,r,pending,place⟩

/-- The innermost call returns. -/
theorem Consistent.pop (consistent : Consistent t) (active : t.active = c::rest) {p : Nat} (stamped : c.stage = .stamped p) :
    Consistent ⟨t.ring,rest,t.issued⟩ := by
  obtain ⟨counter,numbers,order,own,done⟩ := consistent
  have top : c ∈ t.active := by rw [active]; exact List.mem_cons_self
  have inner {d : RecordCall} (member : d ∈ rest) : d ∈ t.active := by rw [active]; exact List.mem_cons_of_mem c member
  have number : c.stage.number = some p := by rw [stamped]; rfl
  rw [active,List.pairwise_cons] at order
  refine ⟨counter,fun d member => numbers d (inner member),order.2,fun d member => own d (inner member),?_⟩
  intro q record positive issued late finished stamp
  by_cases mine : q = p
  · subst mine
    have whole := own c top q number late
    rw [(numbers c top q number).2] at issued
    cases issued
    simp only [Written,stamped] at whole
    exact .inl whole
  · have others : ∀ d ∈ t.active, d.stage.number ≠ some q := by
      intro d member
      rw [active] at member
      rcases List.mem_cons.mp member with rfl | member
      · rw [number]
        rintro ⟨⟩
        exact mine rfl
      · exact finished d member
    rcases done q record positive issued late others stamp with shows | ⟨d,member,r,pending,place⟩
    · exact .inl shows
    · rw [active] at member
      rcases List.mem_cons.mp member with rfl | member
      · rw [stamped] at pending
        cases pending
      · exact .inr ⟨d,member,r,pending,place⟩

end Step

theorem startLogging_consistent : Consistent startLogging := by
  refine ⟨rfl,nofun,.nil,nofun,?_⟩
  intro q record _ issued
  cases issued

/-- What is copied so far, and where the copy ends. -/
theorem copying_store {c : RecordCall} {e : LogEntry} {p i : Nat} (stage : c.stage = .copying p i) (written : Written c e) :
    (c.record.char i ≠ 0 ∧ i + 1 < klogMessageMax →
      Written {c with stage := .copying p (i+1)} {e with message := Function.update e.message i (c.record.char i)}) ∧
    (¬ (c.record.char i ≠ 0 ∧ i + 1 < klogMessageMax) →
      Written {c with stage := .ended p} {e with message := Function.update e.message i 0}) := by
  simp only [Written,stage] at written
  obtain ⟨level,inside,copied⟩ := written
  constructor
  · rintro ⟨nonzero,room⟩
    refine ⟨level,room,?_⟩
    intro j below
    by_cases last : j = i
    · subst last
      exact ⟨Function.update_self j _ _,nonzero⟩
    · dsimp only
      rw [Function.update_of_ne last]
      exact copied j (by omega)
  · intro stops
    refine ⟨level,i,inside,?_,Function.update_self i _ _,?_⟩
    · intro j below
      dsimp only
      rw [Function.update_of_ne (by omega)]
      exact copied j below
    · by_cases zero : c.record.char i = 0
      · exact .inr zero
      · have full : ¬ i + 1 < klogMessageMax := fun room => stops ⟨zero,room⟩
        exact .inl (by omega)

theorem Consistent.next {t : Logging} (consistent : Consistent t) (event : LogEvent)
    (few : (t.next event).issued.length < 2^32) : Consistent (t.next event) := by
  cases event with
  | call record =>
    obtain ⟨counter,numbers,order,own,done⟩ := consistent
    refine ⟨counter,?_,?_,?_,?_⟩
    · intro c member q numbered
      rcases List.mem_cons.mp member with rfl | member
      · cases numbered
      · exact numbers c member q numbered
    · exact List.pairwise_cons.mpr ⟨nofun,order⟩
    · intro c member q numbered
      rcases List.mem_cons.mp member with rfl | member
      · cases numbered
      · exact own c member q numbered
    · intro q other positive issued late finished stamped
      have others : ∀ c ∈ t.active, c.stage.number ≠ some q := fun c member => finished c (List.mem_cons_of_mem _ member)
      rcases done q other positive issued late others stamped with shows | ⟨c,member,rest⟩
      · exact .inl shows
      · exact .inr ⟨c,List.mem_cons_of_mem _ member,rest⟩
  | step =>
    unfold Logging.next at few ⊢
    cases active : t.active with
    | nil => exact consistent
    | cons c rest =>
      simp only [active] at few ⊢
      cases stage : c.stage with
      | entered =>
        simp only [recordStep,stage,if_true,List.length_append,List.length_singleton] at few ⊢
        rw [consistent.counter,Nat.mod_eq_of_lt few]
        exact consistent.count active stage
      | counted p =>
        simp only [recordStep,stage,reduceCtorEq,if_false]
        exact consistent.store active (by rw [stage]; rfl) rfl rfl (.inl rfl) fun _ => trivial
      | cleared p =>
        simp only [recordStep,stage,reduceCtorEq,if_false]
        refine consistent.store active (by rw [stage]; rfl) rfl rfl (.inl rfl) fun _ => ⟨rfl,by decide,?_⟩
        intro j below
        omega
      | copying p i =>
        simp only [recordStep,stage,reduceCtorEq,if_false]
        by_cases more : c.record.char i ≠ 0 ∧ i + 1 < klogMessageMax
        · rw [if_pos more]
          dsimp only [Option.toList,List.cons_append]
          exact consistent.store active (by rw [stage]; rfl) rfl rfl (.inl rfl) fun written => (copying_store stage written).1 more
        · rw [if_neg more]
          dsimp only [Option.toList,List.cons_append]
          exact consistent.store active (by rw [stage]; rfl) rfl rfl (.inl rfl) fun written => (copying_store stage written).2 more
      | ended p =>
        simp only [recordStep,stage,reduceCtorEq,if_false]
        refine consistent.store active (by rw [stage]; rfl) rfl rfl (.inr fun _ => rfl) fun written => ?_
        simp only [Written,stage] at written
        exact ⟨written.level,written.message⟩
      | stamped p =>
        simp only [recordStep,stage,reduceCtorEq,if_false]
        exact consistent.pop active stage

/-! ### Runs -/

def LogEvent.isCall : LogEvent → Bool
  | .call _ => true
  | .step => false

/-- The numbers given out, and the calls that wait for one. -/
def Logging.begun (t : Logging) : Nat := t.issued.length + t.active.countP fun c => decide (c.stage = .entered)

theorem next_begun (t : Logging) (event : LogEvent) : (t.next event).begun = t.begun + if event.isCall then 1 else 0 := by
  cases event with
  | call record =>
    simp only [Logging.next,Logging.begun,LogEvent.isCall,if_true,List.countP_cons,decide_true]
    omega
  | step =>
    unfold Logging.next
    cases active : t.active with
    | nil => rfl
    | cons c rest =>
      have waits : t.active.countP (fun c => decide (c.stage = .entered)) =
          rest.countP (fun c => decide (c.stage = .entered)) + if c.stage = .entered then 1 else 0 := by
        rw [active,List.countP_cons]
        simp only [decide_eq_true_eq]
      simp only [Logging.begun,waits,LogEvent.isCall,Bool.false_eq_true,if_false,Nat.add_zero]
      cases stage : c.stage with
      | copying p i =>
        simp only [recordStep,stage,reduceCtorEq,if_false]
        split_ifs <;> simp
      | entered =>
        simp [recordStep,stage]
        omega
      | counted p => simp [recordStep,stage]
      | cleared p => simp [recordStep,stage]
      | ended p => simp [recordStep,stage]
      | stamped p => simp [recordStep,stage]

theorem run_consistent {t : Logging} {events : List LogEvent} (consistent : Consistent t)
    (few : t.begun + events.countP LogEvent.isCall < 2^32) : Consistent (run Logging.next t events) := by
  induction events generalizing t with
  | nil => exact consistent
  | cons event rest ih =>
    rw [List.countP_cons] at few
    have begun := next_begun t event
    have issued : (t.next event).issued.length ≤ (t.next event).begun := Nat.le_add_right _ _
    exact ih (consistent.next event (by omega)) (by omega)

/-- No call interrupts another. -/
def Alone (t : Logging) : LogEvent → Prop
  | .call _ => t.active = []
  | .step => True

instance (t : Logging) (event : LogEvent) : Decidable (Alone t event) := by
  cases event <;> delta Alone <;> infer_instance

/-- Without interruptions the call in progress has the last number, and the entries of all
other numbers that are left have their stamps. -/
structure Stamped (t : Logging) : Prop where
  single : t.active = [] ∨ ∃ c, t.active = [c] ∧ ∀ q, c.stage.number = some q → q = t.issued.length
  stamps : ∀ q, 0 < q → q ≤ t.issued.length → t.issued.length < q + klogRingCapacity →
    (∀ c ∈ t.active, c.stage.pending ≠ some q) → (t.ring.entries (q % klogRingCapacity)).sequence = q

theorem Stamped.next {t : Logging} (stamped : Stamped t) (consistent : Consistent t) {event : LogEvent}
    (alone : Alone t event) (few : (t.next event).issued.length < 2^32) : Stamped (t.next event) := by
  obtain ⟨single,stamps⟩ := stamped
  cases event with
  | call record =>
    have idle : t.active = [] := alone
    refine ⟨.inr ⟨⟨record,.entered⟩,?_,nofun⟩,?_⟩
    · simp only [Logging.next,idle]
    · intro q positive issued late finished
      refine stamps q positive issued late fun c member => ?_
      rw [idle] at member
      cases member
  | step =>
    unfold Logging.next at few ⊢
    rcases single with idle | ⟨c,active,last⟩
    · rw [idle] at few ⊢
      exact ⟨.inl idle,stamps⟩
    -- a store of the call to its own entry, which has the last number
    have stores {c' : RecordCall} {p : Nat} (change : LogEntry → LogEntry) (number : c.stage.number = some p)
        (after : c'.stage.number = some p) (ends : c'.stage.pending = some p ∨ ∀ e, (change e).sequence = p) :
        Stamped ⟨t.ring.store p change,[c'],t.issued⟩ := by
      have own := last p number
      refine ⟨.inr ⟨c',rfl,fun q numbered => by rw [after] at numbered; cases numbered; exact own⟩,?_⟩
      intro q positive issued late finished
      by_cases mine : q = p
      · subst mine
        rcases ends with pending | stamp
        · exact absurd pending (finished c' (List.mem_singleton.mpr rfl))
        · dsimp only
          rw [store_same]
          exact stamp _
      · dsimp only at issued late ⊢
        rw [store_other _ _ (entries_apart (Nat.le_of_eq own) (by omega) late)]
        refine stamps q positive issued late fun d member => ?_
        rw [active,List.mem_singleton] at member
        subst member
        intro pending
        rw [Stage.pending_number pending] at number
        cases number
        exact mine rfl
    rw [active] at few ⊢
    cases stage : c.stage with
    | entered =>
      simp only [recordStep,stage,if_true,List.length_append,List.length_singleton] at few ⊢
      rw [consistent.counter,Nat.mod_eq_of_lt few]
      refine ⟨.inr ⟨_,rfl,?_⟩,?_⟩
      · rintro q ⟨⟩
        rw [List.length_append,List.length_singleton]
      · intro q positive issued late finished
        simp only [List.length_append,List.length_singleton] at issued late
        have other : q ≠ t.issued.length + 1 := by
          rintro rfl
          exact finished _ List.mem_cons_self rfl
        refine stamps q positive (by omega) (by omega) fun d member => ?_
        rw [active,List.mem_singleton] at member
        subst member
        rw [stage]
        nofun
    | counted p =>
      simp only [recordStep,stage,reduceCtorEq,if_false]
      exact stores _ (by rw [stage]; rfl) rfl (.inl rfl)
    | cleared p =>
      simp only [recordStep,stage,reduceCtorEq,if_false]
      exact stores _ (by rw [stage]; rfl) rfl (.inl rfl)
    | copying p i =>
      simp only [recordStep,stage,reduceCtorEq,if_false]
      split_ifs
      · dsimp only [Option.toList,List.cons_append,List.nil_append]
        exact stores _ (by rw [stage]; rfl) rfl (.inl rfl)
      · dsimp only [Option.toList,List.cons_append,List.nil_append]
        exact stores _ (by rw [stage]; rfl) rfl (.inl rfl)
    | ended p =>
      simp only [recordStep,stage,reduceCtorEq,if_false]
      exact stores _ (by rw [stage]; rfl) rfl (.inr fun _ => rfl)
    | stamped p =>
      simp only [recordStep,stage,reduceCtorEq,if_false]
      refine ⟨.inl rfl,?_⟩
      intro q positive issued late _
      refine stamps q positive issued late fun d member => ?_
      rw [active,List.mem_singleton] at member
      subst member
      rw [stage]
      nofun

theorem run_stamped {t : Logging} {events : List LogEvent} (stamped : Stamped t) (consistent : Consistent t)
    (alone : Meets Logging.next Alone t events) (few : t.begun + events.countP LogEvent.isCall < 2^32) :
    Stamped (run Logging.next t events) := by
  induction events generalizing t with
  | nil => exact stamped
  | cons event rest ih =>
    rw [List.countP_cons] at few
    have begun := next_begun t event
    have issued : (t.next event).issued.length ≤ (t.next event).begun := Nat.le_add_right _ _
    exact ih (stamped.next consistent alone.1 (by omega)) (consistent.next event (by omega)) alone.2 (by omega)

/-! ### Reads -/

/-- What can be read once `calls` calls have returned: the last 64 of them, oldest first. -/
structure LogReads (t : Logging) (calls : Nat) : Prop where
  issued : t.issued.length = calls
  count : kernelLogEntryCount t.ring = min calls klogRingCapacity
  reads : ∀ index given capacity level bytes, kernelLogRead t.ring index given capacity = some (level,bytes) →
    index < min calls klogRingCapacity ∧
      ∃ record, t.issued[calls - min calls klogRingCapacity + index]? = some record ∧ level = record.level ∧
        bytes = record.text.take (capacity - 1) ++ [0]

section Idle
variable {t : Logging} (consistent : Consistent t) (few : t.issued.length < 2^32)
include consistent

theorem count_issued : kernelLogEntryCount t.ring = min t.issued.length klogRingCapacity := by
  rw [kernelLogEntryCount,consistent.counter]
  split_ifs
  · rw [Nat.min_eq_right (by omega)]
  · rw [Nat.min_eq_left (by omega)]

include few

/-- The sequence number that is read for an index is that of a record. -/
theorem sequence_issued {index : Nat} (inside : index < min t.issued.length klogRingCapacity) :
    ∃ q record, ((if t.ring.logSequence > klogRingCapacity then t.ring.logSequence - klogRingCapacity + 1 else 1) + index) % 2^32 = q ∧
      0 < q ∧ q ≤ t.issued.length ∧ t.issued.length < q + klogRingCapacity ∧ t.issued[q-1]? = some record ∧
      q - 1 = t.issued.length - min t.issued.length klogRingCapacity + index := by
  obtain ⟨q,place⟩ : ∃ q, q = t.issued.length - min t.issued.length klogRingCapacity + index + 1 := ⟨_,rfl⟩
  have bound : q ≤ t.issued.length := by omega
  have inside : q - 1 < t.issued.length := by omega
  refine ⟨q,t.issued[q-1],?_,by omega,bound,by omega,List.getElem?_eq_getElem inside,by omega⟩
  rw [consistent.counter,place]
  split_ifs
  · rw [Nat.mod_eq_of_lt (by omega)]
    omega
  · rw [Nat.mod_eq_of_lt (by omega)]
    omega

theorem idle_reads (idle : t.active = []) : LogReads t t.issued.length := by
  refine ⟨rfl,count_issued consistent,?_⟩
  intro index given capacity level bytes read
  unfold kernelLogRead at read
  split_ifs at read with refused outside
  rw [count_issued consistent] at outside
  have inside : index < min t.issued.length klogRingCapacity := by omega
  obtain ⟨q,record,sequence,positive,_,late,issued,place⟩ := sequence_issued consistent few inside
  simp only [sequence] at read
  split_ifs at read with other
  have nobody : ∀ c ∈ t.active, c.stage.number ≠ some q := by
    rw [idle]
    nofun
  rcases consistent.done q record positive issued late nobody (not_not.mp other) with shows | ⟨c,member,_⟩
  · cases read
    refine ⟨inside,record,by rw [← place]; exact issued,shows.level,?_⟩
    rw [shows.text]
  · rw [idle] at member
    cases member

theorem stamped_reads (stamped : Stamped t) (idle : t.active = []) {index capacity : Nat}
    (inside : index < kernelLogEntryCount t.ring) (room : 0 < capacity) : kernelLogRead t.ring index true capacity ≠ none := by
  unfold kernelLogRead
  rw [if_neg (by simp; omega),if_neg (by omega)]
  rw [count_issued consistent] at inside
  obtain ⟨q,record,sequence,positive,issued,late,_⟩ := sequence_issued consistent few inside
  have stamp := stamped.stamps q positive issued late (by rw [idle]; nofun)
  simp only [sequence]
  rw [if_neg (not_not.mpr stamp)]
  nofun

end Idle

/-- Whatever interrupts the calls, a read gives the level and the text of one call, that of the
number it asks for; and where no call interrupts another, every read gives one. -/
theorem log_entries (events : List LogEvent) (few : events.countP LogEvent.isCall < 2^32)
    (idle : (logged events).active = []) :
    LogReads (logged events) (events.countP LogEvent.isCall) ∧
      (Meets Logging.next Alone startLogging events →
        ∀ index < kernelLogEntryCount (logged events).ring, ∀ capacity > 0,
          kernelLogRead (logged events).ring index true capacity ≠ none) := by
  have begun : startLogging.begun + events.countP LogEvent.isCall < 2^32 := by
    rw [show startLogging.begun = 0 from rfl]
    omega
  have consistent : Consistent (logged events) := run_consistent startLogging_consistent begun
  have total : (logged events).issued.length = events.countP LogEvent.isCall := by
    have sum : ∀ (t : Logging) (events : List LogEvent),
        (run Logging.next t events).begun = t.begun + events.countP LogEvent.isCall := by
      intro t events
      induction events generalizing t with
      | nil => rfl
      | cons event rest ih =>
        rw [run_cons,ih,next_begun,List.countP_cons]
        omega
    have last := sum startLogging events
    rw [show run Logging.next startLogging events = logged events from rfl,Logging.begun,idle,List.countP_nil,
      show startLogging.begun = 0 from rfl] at last
    omega
  have short : (logged events).issued.length < 2^32 := by omega
  refine ⟨?_,fun alone index inside capacity room => ?_⟩
  · rw [← total]
    exact idle_reads consistent short idle
  · have start : Stamped startLogging := ⟨.inl rfl,fun q positive issued => absurd positive (by simp [startLogging] at issued; omega)⟩
    exact stamped_reads consistent short (run_stamped start startLogging_consistent alone begun) idle inside room

/-- A call of level 1 with the message `AB`, interrupted behind its first store by `n` calls
without a message. -/
def interrupted (n : Nat) : List LogEvent :=
  [.call ⟨1,some [0x41,0x42]⟩,.step] ++ (List.replicate n (.call ⟨3,none⟩ :: List.replicate 6 .step)).flatten ++
    List.replicate 7 .step

theorem interrupted_reads : LogReads (logged (interrupted 1)) ((interrupted 1).countP LogEvent.isCall) ∧
    (Meets Logging.next Alone startLogging (interrupted 1) →
      ∀ index < kernelLogEntryCount (logged (interrupted 1)).ring, ∀ capacity > 0,
        kernelLogRead (logged (interrupted 1)).ring index true capacity ≠ none) :=
  log_entries (interrupted 1) (by decide) (by decide)

/-- Sixty-four calls use up the entry of the outer call, whose stamp then hides the last of
them. -/
example : (List.range 64).filter (fun index => (kernelLogRead (logged (interrupted 64)).ring index true 96).isNone) = [63] := by
  decide +kernel

end LionOS.Diag

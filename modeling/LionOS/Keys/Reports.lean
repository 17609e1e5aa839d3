import Mathlib.Data.Finset.Card
import Mathlib.Data.List.Perm.Subperm
import LionOS.Library.Run
import LionOS.Keys.Driver

/-! A USB keyboard with the boot protocol: which keys are down, and what the driver pushes for its
reports. -/
namespace LionOS.Keys
open LionOS.Library
open LionOS.Physical (Byte)
open LionOS.Channels (Keyboard pushChar keyboardGetchar keyboardBufferSize)

/-- The slots of a report show the keys that are down, in any order, or ErrorRollOver if there are
more than six. -/
def Shows (keys : Finset Byte) (slots : List Byte) : Prop :=
  if keys.card ≤ 6 then (slots.filter (· ≠ 0)).Nodup ∧ ∀ key ≠ 0, key ∈ slots ↔ key ∈ keys
  else slots = List.replicate 6 1

/-- A report with the keys that are down. -/
structure Report where
  modifiers : Byte
  reserved : Byte
  keys : Finset Byte
  slots : List Byte
  usages : ∀ key ∈ keys, 4 ≤ key
  six : slots.length = 6
  shows : Shows keys slots

def Report.bytes (r : Report) : List Byte := r.modifiers::r.reserved::r.slots

/-- Each key is pressed in turn: Caps Lock toggles, and a key with a character types it. -/
def typeAll (shift ctrl : Bool) : Bool → List Byte → Bool × List Byte
  | caps,[] => (caps,[])
  | caps,key::rest =>
    if key = 0x39 then typeAll shift ctrl (!caps) rest
    else
      let later := typeAll shift ctrl caps rest
      (later.1,if usageChar shift ctrl caps key ≠ 0 then usageChar shift ctrl caps key::later.2 else later.2)

/-- What a report has done: the keys before it, Caps Lock, the queue, and the characters pushed. -/
structure Entry where
  before : Finset Byte
  report : Report
  capsBefore : Bool
  capsAfter : Bool
  queueBefore : Keyboard
  queueAfter : Keyboard
  pushed : List Byte

/-- In some order each key that is pressed has typed its character or toggled Caps Lock once, and
nothing else is pushed. With room in the queue the characters are in it. -/
structure Entry.Right (e : Entry) : Prop where
  presses : ∃ order : List Byte, order.Nodup ∧ (∀ key, key ∈ order ↔ key ∈ e.report.keys ∧ key ∉ e.before) ∧
    typeAll (shiftIn e.report.modifiers) (ctrlIn e.report.modifiers) e.capsBefore order = (e.capsAfter,e.pushed)
  stored : InRange e.queueBefore → (waiting e.queueBefore).length + e.pushed.length < keyboardBufferSize →
    waiting e.queueAfter = waiting e.queueBefore ++ e.pushed

inductive Event
  | report (r : Report)
  | getchar

/-- The driver, the keys that are down, and what the reports have done. -/
structure Board where
  driver : Driver
  keys : Finset Byte
  log : List Entry

def Board.step (b : Board) : Event → Board
  | .report r =>
    let result := keyboardHandleUsbReport b.driver r.bytes
    ⟨result.1,r.keys,
      b.log ++ [⟨b.keys,r,b.driver.capsLock,result.1.capsLock,b.driver.queue,result.1.queue,result.2⟩]⟩
  | .getchar => {b with driver := {b.driver with
      queue := (keyboardGetchar b.driver.queue).elim b.driver.queue Prod.fst}}

/-- No key is down at first. -/
def Board.init (s : Driver) : Board := ⟨{s with usbPrevKeys := List.replicate 6 0},∅,[]⟩

/-- A key without a character that is not Caps Lock. -/
def Mute (key : Byte) : Prop := key ≠ 0x39 ∧ usbKeyChar key false = 0

/-- No key with a character, nor Caps Lock, is pressed into a rollover, and none is down across
the end of one. -/
structure Calm (b : Board) (event : Event) : Prop where
  into : ∀ r, event = .report r → 6 < r.keys.card → ∀ key ∈ r.keys, key ∉ b.keys → Mute key
  out : ∀ r, event = .report r → r.keys.card ≤ 6 → 6 < b.keys.card → ∀ key ∈ r.keys, key ∈ b.keys → Mute key

section Typing
variable {shift ctrl : Bool}

theorem usbKeyChar_shift : ∀ (key : Byte) (shifted : Bool), usbKeyChar key shifted = 0 ↔ usbKeyChar key false = 0 := by
  decide +kernel

theorem control_real : ∀ c : Byte, lowerCase c = true → c - 97 + 1 ≠ 0 ∧ c ≠ 0 := by decide +kernel

theorem usageChar_zero (shift ctrl caps : Bool) (key : Byte) : usageChar shift ctrl caps key = 0 ↔ usbKeyChar key false = 0 := by
  unfold usageChar
  dsimp only
  rw [← usbKeyChar_shift key (shift ^^ (caps && 0x04 ≤ key && key ≤ 0x1D))]
  generalize usbKeyChar key _ = c
  split
  next control =>
    have real := control_real c (Bool.and_eq_true_iff.mp control).2
    exact iff_of_false real.1 real.2
  next => rfl

theorem capsKey_blank : usbKeyChar 0x39 false = 0 := by decide +kernel

theorem typeAll_filter {caps : Bool} {keys : List Byte} {p : Byte → Bool} (mute : ∀ key ∈ keys, p key = false → Mute key) :
    typeAll shift ctrl caps (keys.filter p) = typeAll shift ctrl caps keys := by
  induction keys generalizing caps with
  | nil => rfl
  | cons key rest ih =>
    have later {caps : Bool} := @ih caps fun other member => mute other (List.mem_cons_of_mem _ member)
    cases kept : p key with
    | true =>
      rw [List.filter_cons_of_pos kept]
      unfold typeAll
      rw [later,later]
    | false =>
      have silent := mute key (List.mem_cons_self ..) kept
      rw [List.filter_cons_of_neg (by rw [kept]; exact Bool.false_ne_true),later]
      symm
      rw [typeAll,if_neg silent.1]
      dsimp only
      rw [if_neg (Decidable.not_not.mpr ((usageChar_zero ..).mpr silent.2))]

theorem typeAll_mute {caps : Bool} {keys : List Byte} (mute : ∀ key ∈ keys, Mute key) :
    typeAll shift ctrl caps keys = (caps,[]) := by
  rw [← @typeAll_filter shift ctrl caps keys (fun _ => false) fun key member _ => mute key member,List.filter_false]
  rfl

theorem typeAll_caps {caps : Bool} {keys : List Byte} (once : keys.Nodup) :
    (typeAll shift ctrl caps keys).1 = (caps ^^ decide (0x39 ∈ keys)) := by
  induction keys generalizing caps with
  | nil => exact (Bool.xor_false _).symm
  | cons key rest ih =>
    obtain ⟨apart,once⟩ := List.nodup_cons.mp once
    unfold typeAll
    split
    next own =>
      rw [own] at apart
      rw [ih once,own,decide_eq_false apart,decide_eq_true (List.mem_cons_self ..),Bool.xor_false,Bool.xor_true]
    next other =>
      refine (ih once).trans ?_
      rw [decide_eq_decide.mpr (List.mem_cons.trans (or_iff_right (Ne.symm other)))]

theorem typeAll_count (caps : Bool) (keys : List Byte) :
    (typeAll shift ctrl caps keys).2.length = keys.countP fun key => usbKeyChar key false != 0 := by
  induction keys generalizing caps with
  | nil => rfl
  | cons key rest ih =>
    unfold typeAll
    rw [List.countP_cons]
    split
    next own =>
      rw [ih,own,capsKey_blank]
      rfl
    next =>
      dsimp only
      split
      next real =>
        rw [List.length_cons,ih,if_pos (bne_iff_ne.mpr (mt (usageChar_zero ..).mpr real))]
      next blank =>
        rw [ih,if_neg]
        · rfl
        · rw [bne_iff_ne,Decidable.not_not]
          exact (usageChar_zero ..).mp (Decidable.not_not.mp blank)

/-- Keys that add nothing to what is typed are mute. -/
theorem mute_of_same {caps : Bool} {order full : List Byte} (once : order.Nodup) (once' : full.Nodup) (sub : order ⊆ full)
    (same : typeAll shift ctrl caps order = typeAll shift ctrl caps full) {key : Byte} (inside : key ∈ full)
    (outside : key ∉ order) : Mute key := by
  constructor
  · rintro rfl
    have toggled := congrArg Prod.fst same
    rw [typeAll_caps once,typeAll_caps once',decide_eq_false outside,decide_eq_true inside] at toggled
    cases caps
    · cases toggled
    · cases toggled
  · by_contra real
    have fewer := (List.subperm_of_subset (List.nodup_cons.mpr ⟨outside,once⟩)
      (List.cons_subset.mpr ⟨inside,sub⟩)).countP_le fun key => usbKeyChar key false != 0
    rw [List.countP_cons,if_pos (bne_iff_ne.mpr real)] at fewer
    have count := congrArg (fun typed => typed.2.length) same
    rw [typeAll_count,typeAll_count] at count
    omega

end Typing

section Handling
variable {shift ctrl : Bool} {prev : List Byte}

/-- The slots that the driver takes for presses. -/
def fresh (prev slots : List Byte) : List Byte := slots.filter fun code => !(code == 0 || prev.contains code)

theorem skipped_iff {code : Byte} : (!(code == 0 || prev.contains code)) = true ↔ ¬(code = 0 ∨ code ∈ prev) := by
  rw [Bool.not_eq_true',← Bool.not_eq_true,Bool.or_eq_true,beq_iff_eq,List.contains_iff_mem]

theorem fresh_old {code : Byte} {rest : List Byte} (old : code = 0 ∨ code ∈ prev) : fresh prev (code::rest) = fresh prev rest :=
  List.filter_cons_of_neg fun new => skipped_iff.mp new old

theorem fresh_new {code : Byte} {rest : List Byte} (new : ¬(code = 0 ∨ code ∈ prev)) :
    fresh prev (code::rest) = code::fresh prev rest :=
  List.filter_cons_of_pos (skipped_iff.mpr new)

theorem usbTurns (slots : List Byte) (s : Driver) (pushed : List Byte) :
    (slots.foldl (usbTurn shift ctrl prev) (s,pushed)).1.capsLock = (typeAll shift ctrl s.capsLock (fresh prev slots)).1 ∧
    (slots.foldl (usbTurn shift ctrl prev) (s,pushed)).1.queue =
      (typeAll shift ctrl s.capsLock (fresh prev slots)).2.foldl pushChar s.queue ∧
    (slots.foldl (usbTurn shift ctrl prev) (s,pushed)).2 = pushed ++ (typeAll shift ctrl s.capsLock (fresh prev slots)).2 := by
  induction slots generalizing s pushed with
  | nil => exact ⟨rfl,rfl,(List.append_nil _).symm⟩
  | cons code rest ih =>
    rw [List.foldl_cons]
    by_cases old : code = 0 ∨ code ∈ prev
    · have turn : usbTurn shift ctrl prev (s,pushed) code = (s,pushed) := if_pos old
      rw [turn,fresh_old old]
      exact ih s pushed
    rw [fresh_new old,typeAll]
    by_cases caps : code = 0x39
    · have turn : usbTurn shift ctrl prev (s,pushed) code = ({s with capsLock := !s.capsLock},pushed) :=
        (if_neg old).trans (if_pos caps)
      rw [turn,if_pos caps]
      exact ih {s with capsLock := !s.capsLock} pushed
    · have turn : usbTurn shift ctrl prev (s,pushed) code = if usageChar shift ctrl s.capsLock code ≠ 0 then
          ({s with queue := pushChar s.queue (usageChar shift ctrl s.capsLock code),inputSeen := true},
            pushed ++ [usageChar shift ctrl s.capsLock code]) else (s,pushed) := (if_neg old).trans (if_neg caps)
      rw [turn,if_neg caps]
      dsimp only
      split
      next real =>
        obtain ⟨toggled,queued,typed⟩ := ih {s with
          queue := pushChar s.queue (usageChar shift ctrl s.capsLock code),inputSeen := true}
          (pushed ++ [usageChar shift ctrl s.capsLock code])
        exact ⟨toggled,queued,typed.trans (List.append_assoc ..)⟩
      next => exact ih s pushed

/-- What a report does. -/
theorem report_spec (s : Driver) (r : Report) :
    (keyboardHandleUsbReport s r.bytes).1.usbPrevKeys = r.slots ∧
    ((keyboardHandleUsbReport s r.bytes).1.capsLock,(keyboardHandleUsbReport s r.bytes).2) =
      typeAll (shiftIn r.modifiers) (ctrlIn r.modifiers) s.capsLock (fresh s.usbPrevKeys r.slots) ∧
    (keyboardHandleUsbReport s r.bytes).1.queue = (keyboardHandleUsbReport s r.bytes).2.foldl pushChar s.queue := by
  have long : ¬r.bytes.length < 8 := by
    unfold Report.bytes
    rw [List.length_cons,List.length_cons,r.six]
    decide
  have slots : (r.bytes.drop 2).take 6 = r.slots := List.take_of_length_le (Nat.le_of_eq r.six)
  unfold keyboardHandleUsbReport
  rw [if_neg long]
  dsimp only
  rw [slots]
  obtain ⟨caps,queue,typed⟩ := @usbTurns (shiftIn r.modifiers) (ctrlIn r.modifiers) s.usbPrevKeys r.slots
    {s with shiftDown := shiftIn r.modifiers,ctrlDown := ctrlIn r.modifiers,altDown := altIn r.modifiers} []
  refine ⟨rfl,Prod.ext caps typed,?_⟩
  exact queue.trans (congrArg (List.foldl pushChar s.queue) typed.symm)

end Handling

section Steps
variable {b : Board}

/-- Between two reports the previous slots show the keys that are down. -/
structure Settled (b : Board) : Prop where
  usages : ∀ key ∈ b.keys, 4 ≤ key
  shows : Shows b.keys b.driver.usbPrevKeys
  right : ∀ entry ∈ b.log, entry.Right

theorem usage_real {key : Byte} (usage : 4 ≤ key) : key ≠ 0 ∧ key ≠ 1 := by
  refine ⟨?_,?_⟩
  · rintro rfl
    exact absurd usage (by decide)
  · rintro rfl
    exact absurd usage (by decide)

theorem mem_fresh {prev slots : List Byte} {key : Byte} : key ∈ fresh prev slots ↔ key ∈ slots ∧ key ≠ 0 ∧ key ∉ prev := by
  unfold fresh
  rw [List.mem_filter,skipped_iff,not_or]

theorem fresh_once {prev slots : List Byte} (once : (slots.filter (· ≠ 0)).Nodup) : (fresh prev slots).Nodup := by
  refine once.sublist ?_
  unfold fresh
  refine List.monotone_filter_right slots fun code new => ?_
  exact decide_eq_true (not_or.mp (skipped_iff.mp new)).1

theorem mute_rollover : Mute 1 := by
  constructor
  · decide
  · decide +kernel

/-- An entry is right if what its slots type is what the presses type in some order. -/
theorem right_iff (r : Report) : Entry.Right
      ⟨b.keys,r,b.driver.capsLock,(keyboardHandleUsbReport b.driver r.bytes).1.capsLock,b.driver.queue,
        (keyboardHandleUsbReport b.driver r.bytes).1.queue,(keyboardHandleUsbReport b.driver r.bytes).2⟩ ↔
    ∃ order : List Byte, order.Nodup ∧ (∀ key, key ∈ order ↔ key ∈ r.keys ∧ key ∉ b.keys) ∧
      typeAll (shiftIn r.modifiers) (ctrlIn r.modifiers) b.driver.capsLock order =
        typeAll (shiftIn r.modifiers) (ctrlIn r.modifiers) b.driver.capsLock (fresh b.driver.usbPrevKeys r.slots) := by
  obtain ⟨_,typed,queue⟩ := report_spec b.driver r
  rw [← typed]
  constructor
  · exact fun right => right.presses
  · intro presses
    refine ⟨presses,fun range room => ?_⟩
    rw [queue]
    exact pushes_stored range room

theorem shows_keys {keys : Finset Byte} {slots : List Byte} (shows : Shows keys slots) (few : keys.card ≤ 6) :
    (slots.filter (· ≠ 0)).Nodup ∧ ∀ key ≠ 0, key ∈ slots ↔ key ∈ keys := by
  unfold Shows at shows
  rwa [if_pos few] at shows

theorem shows_rollover {keys : Finset Byte} {slots : List Byte} (shows : Shows keys slots) (many : 6 < keys.card) :
    slots = List.replicate 6 1 := by
  unfold Shows at shows
  rwa [if_neg (Nat.not_le.mpr many)] at shows

/-- Into a rollover nothing is typed. -/
theorem right_into {r : Report} (many : 6 < r.keys.card) :
    (∃ order : List Byte, order.Nodup ∧ (∀ key, key ∈ order ↔ key ∈ r.keys ∧ key ∉ b.keys) ∧
      typeAll (shiftIn r.modifiers) (ctrlIn r.modifiers) b.driver.capsLock order =
        typeAll (shiftIn r.modifiers) (ctrlIn r.modifiers) b.driver.capsLock (fresh b.driver.usbPrevKeys r.slots)) ↔
    ∀ key ∈ r.keys, key ∉ b.keys → Mute key := by
  have silent : typeAll (shiftIn r.modifiers) (ctrlIn r.modifiers) b.driver.capsLock (fresh b.driver.usbPrevKeys r.slots) =
      (b.driver.capsLock,[]) := by
    apply typeAll_mute
    intro key member
    rw [mem_fresh,shows_rollover r.shows many] at member
    rw [List.eq_of_mem_replicate member.1]
    exact mute_rollover
  rw [silent]
  constructor
  · intro ⟨order,once,pressed,same⟩ key down new
    exact mute_of_same List.nodup_nil once (List.nil_subset order) same.symm ((pressed key).mpr ⟨down,new⟩) List.not_mem_nil
  · intro mute
    refine ⟨(r.keys \ b.keys).toList,Finset.nodup_toList _,fun key => ?_,typeAll_mute fun key member => ?_⟩
    · rw [Finset.mem_toList,Finset.mem_sdiff]
    · rw [Finset.mem_toList,Finset.mem_sdiff] at member
      exact mute key member.1 member.2

/-- Behind a rollover all keys are typed. -/
theorem right_out (settled : Settled b) {r : Report} (few : r.keys.card ≤ 6) (many : 6 < b.keys.card) :
    (∃ order : List Byte, order.Nodup ∧ (∀ key, key ∈ order ↔ key ∈ r.keys ∧ key ∉ b.keys) ∧
      typeAll (shiftIn r.modifiers) (ctrlIn r.modifiers) b.driver.capsLock order =
        typeAll (shiftIn r.modifiers) (ctrlIn r.modifiers) b.driver.capsLock (fresh b.driver.usbPrevKeys r.slots)) ↔
    ∀ key ∈ r.keys, key ∈ b.keys → Mute key := by
  obtain ⟨once,shown⟩ := shows_keys r.shows few
  have all {key : Byte} : key ∈ fresh b.driver.usbPrevKeys r.slots ↔ key ∈ r.keys := by
    rw [mem_fresh,shows_rollover settled.shows many]
    constructor
    · intro ⟨member,real,_⟩
      exact (shown key real).mp member
    · intro member
      obtain ⟨real,other⟩ := usage_real (r.usages key member)
      exact ⟨(shown key real).mpr member,real,fun same => other (List.eq_of_mem_replicate same)⟩
  constructor
  · intro ⟨order,once',pressed,same⟩ key down old
    refine mute_of_same once' (fresh_once once) (fun key member => ?_) same (all.mpr down) fun new => ?_
    · exact all.mpr ((pressed key).mp member).1
    · exact ((pressed key).mp new).2 old
  · intro mute
    refine ⟨(fresh b.driver.usbPrevKeys r.slots).filter fun key => decide (key ∉ b.keys),(fresh_once once).filter _,?_,?_⟩
    · intro key
      rw [List.mem_filter,all,decide_eq_true_iff]
    · apply typeAll_filter
      intro key member old
      exact mute key (all.mp member) (Decidable.not_not.mp (of_decide_eq_false old))

/-- With no rollover the new slots are the presses. -/
theorem right_plain (settled : Settled b) {r : Report} (few : r.keys.card ≤ 6) (few' : b.keys.card ≤ 6) :
    ∃ order : List Byte, order.Nodup ∧ (∀ key, key ∈ order ↔ key ∈ r.keys ∧ key ∉ b.keys) ∧
      typeAll (shiftIn r.modifiers) (ctrlIn r.modifiers) b.driver.capsLock order =
        typeAll (shiftIn r.modifiers) (ctrlIn r.modifiers) b.driver.capsLock (fresh b.driver.usbPrevKeys r.slots) := by
  obtain ⟨once,shown⟩ := shows_keys r.shows few
  obtain ⟨_,before⟩ := shows_keys settled.shows few'
  refine ⟨_,fresh_once once,fun key => ?_,rfl⟩
  rw [mem_fresh]
  constructor
  · intro ⟨member,real,new⟩
    exact ⟨(shown key real).mp member,mt (before key real).mpr new⟩
  · intro ⟨member,new⟩
    have real := (usage_real (r.usages key member)).1
    exact ⟨(shown key real).mpr member,real,mt (before key real).mp new⟩

theorem report_right (settled : Settled b) (r : Report) :
    (∀ entry ∈ (b.step (.report r)).log, entry.Right) ↔ Calm b (.report r) := by
  change (∀ entry ∈ b.log ++ [_],_) ↔ _
  rw [List.forall_mem_append,List.forall_mem_singleton,and_iff_right settled.right,right_iff]
  by_cases many : 6 < r.keys.card
  · rw [right_into many]
    constructor
    · intro mute
      refine ⟨fun other same _ => ?_,fun other same few => ?_⟩
      · cases same
        exact mute
      · cases same
        omega
    · exact fun calm => calm.into r rfl many
  have few := Nat.not_lt.mp many
  by_cases many' : 6 < b.keys.card
  · rw [right_out settled few many']
    constructor
    · intro mute
      refine ⟨fun other same more => ?_,fun other same _ _ => ?_⟩
      · cases same
        exact absurd more many
      · cases same
        exact mute
    · exact fun calm => calm.out r rfl few many'
  · refine iff_of_true (right_plain settled few (Nat.not_lt.mp many')) ⟨fun other same more => ?_,fun other same _ more => ?_⟩
    · cases same
      exact absurd more many
    · exact absurd more many'

theorem step_settled (settled : Settled b) {event : Event} (calm : Calm b event) : Settled (b.step event) := by
  cases event with
  | report r =>
    refine ⟨r.usages,?_,(report_right settled r).mpr calm⟩
    change Shows r.keys (keyboardHandleUsbReport b.driver r.bytes).1.usbPrevKeys
    rw [(report_spec b.driver r).1]
    exact r.shows
  | getchar => exact ⟨settled.usages,settled.shows,settled.right⟩

theorem calm_of_right (settled : Settled b) {event : Event} (right : ∀ entry ∈ (b.step event).log, entry.Right) :
    Calm b event := by
  cases event with
  | report r => exact (report_right settled r).mp right
  | getchar => exact ⟨nofun,nofun⟩

theorem init_settled (s : Driver) : Settled (Board.init s) := by
  refine ⟨nofun,?_,nofun⟩
  have none : (Board.init s).keys.card ≤ 6 := Nat.zero_le 6
  unfold Shows
  rw [if_pos none]
  refine ⟨List.nodup_nil,fun key real => iff_of_false (fun member => ?_) (Finset.notMem_empty key)⟩
  exact real (List.eq_of_mem_replicate member)

end Steps

/-- In every report of a run each press types its character once, and nothing else is pushed, exactly
if the steps of the run are calm. -/
theorem presses_typed_iff (s : Driver) (events : List Event) :
    (∀ past, past <+: events → ∀ entry ∈ (run Board.step (Board.init s) past).log, entry.Right) ↔
      Meets Board.step Calm (Board.init s) events :=
  @throughout_iff _ _ Board.step (fun _ _ => True) Calm Settled (fun b => ∀ entry ∈ b.log, entry.Right)
    (fun _ settled => settled.right) (fun _ _ settled _ calm => step_settled settled calm)
    (fun _ _ settled _ right => calm_of_right settled right) _ _ (init_settled s)
    (meets_always (fun _ _ => trivial) (Board.init s) events)

/-- The key A alone. -/
def keyA : Report where
  modifiers := 0
  reserved := 0
  keys := {4}
  slots := [4,0,0,0,0,0]
  usages := by decide
  six := rfl
  shows := by
    unfold Shows
    decide +kernel

/-- The keys from A to G. -/
def keysAToG : Report where
  modifiers := 0
  reserved := 0
  keys := {4,5,6,7,8,9,10}
  slots := [1,1,1,1,1,1]
  usages := by decide
  six := rfl
  shows := by
    unfold Shows
    decide +kernel

/-- A key that is held through a rollover is typed again. -/
theorem held_retyped :
    ¬∀ entry ∈ (run Board.step (Board.init idleDriver) [.report keyA,.report keysAToG,.report keyA]).log, entry.Right := by
  intro all
  have retyped : ((run Board.step (Board.init idleDriver) [.report keyA,.report keysAToG,.report keyA]).log[2]?).any
      (fun entry => entry.pushed == [0x61] && entry.report.keys ⊆ entry.before) = true := by decide +kernel
  obtain ⟨entry,found,wrong⟩ := (Option.any_eq_true ..).mp retyped
  obtain ⟨order,_,pressed,typed⟩ := (all entry (List.mem_of_getElem? found)).presses
  rw [Bool.and_eq_true,beq_iff_eq,decide_eq_true_iff] at wrong
  have none : order = [] := List.eq_nil_iff_forall_not_mem.mpr fun key member =>
    ((pressed key).mp member).2 (wrong.2 ((pressed key).mp member).1)
  rw [none,wrong.1] at typed
  have pushed := congrArg Prod.snd typed
  cases pushed

end LionOS.Keys

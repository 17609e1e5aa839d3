import LionOS.Library.Run
import LionOS.Usb.Rings

/-! The command ring and the ring of endpoint 0. -/
namespace LionOS.Usb
open LionOS.Library

def trbSetup : BitVec 32 := 2
def trbData : BitVec 32 := 3
def trbStatus : BitVec 32 := 4
def trbAddressDevice : BitVec 32 := 11
def trbResetEp : BitVec 32 := 14
def trbSetDeq : BitVec 32 := 16
def trbNoopCmd : BitVec 32 := 23
def trbBsr : BitVec 32 := 0x200
def trbIdt : BitVec 32 := 0x40
def trbDirIn : BitVec 32 := 0x10000

/-- A ring of one segment: the index and cycle state of the driver and the dequeue pointer
of the controller. `waiting` are the TRBs that were submitted and neither executed nor given
up by setting the dequeue pointer. -/
structure Ring where
  base : Nat
  trbs : Trbs
  index : Nat
  cycle : Bool
  consumer : Consumer
  waiting : List Trb

def Ring.producer (r : Ring) : Producer := ⟨0,r.index,r.cycle⟩

/-- `link_trb` on the zeroed page and the controller at its first TRB. -/
def setupRing (base : Nat) : Ring :=
  ⟨base,linkTrb (fun _ => noTrb) base base true,0,true,⟨base,true⟩,[]⟩

/-- How `cmd_submit` and the setup stage of `ep0_xfer` put a TRB. -/
def Ring.submit (r : Ring) (t : Trb) : Ring :=
  let (trbs,p) := enqueue (fun _ => r.base) 1 r.trbs r.producer t
  {r with trbs,index := p.index,cycle := p.cycle,waiting := r.waiting ++ [t.marked r.cycle]}

/-- How the data stage and the status stage put one. The Link TRB is made anew there. -/
def Ring.submitRelinked (r : Ring) (t : Trb) : Ring :=
  let trbs := putTrb (fun _ => r.base) r.trbs r.producer t
  let waiting := r.waiting ++ [t.marked r.cycle]
  let index := r.index + 1
  if index ≥ ringTrbs - 1 then
    {r with trbs := linkTrb trbs r.base r.base true,index := 0,cycle := !r.cycle,waiting}
  else {r with trbs,index,waiting}

/-- A step of the controller on the ring. -/
def Ring.advance (r : Ring) : Ring × Option Trb :=
  match r.consumer.fetch r.trbs with
  | none => (r,none)
  | some (consumer,none) => ({r with consumer},none)
  | some (consumer,some t) => ({r with consumer,waiting := r.waiting.tail},some t)

/-- The dequeue pointer is set. -/
def Ring.point (r : Ring) (consumer : Consumer) : Ring := {r with consumer,waiting := []}

/-- `&ring[index]` with the cycle state in the lowest bit. -/
def Ring.dequeue (r : Ring) : Nat := trbAt r.base r.index ||| (if r.cycle then 1 else 0)

/-- The bits of a control word that hold the type and the cycle bit. -/
def typeBits : BitVec 32 := 0xFC01

/-- A command as the callers of `cmd_submit` make them: not a Link TRB, and its control bits
leave the type and the cycle bit alone. -/
structure Command where
  kind : BitVec 32
  parameter : Nat
  control : BitVec 32
  small : kind &&& 0x3F = kind
  normal : kind ≠ trbLink
  plain : control &&& typeBits = 0#32

def cmdSubmit (r : Ring) (c : Command) : Ring :=
  r.submit ⟨low c.parameter,high c.parameter,0,(c.kind <<< 10) ||| c.control⟩

theorem slot_plain (slot : BitVec 32) : (slot <<< 24) &&& typeBits = 0#32 := by
  have high : ∀ i : Fin 32, 24 ≤ i.val → typeBits.getLsbD i = false := by decide
  apply BitVec.eq_of_getLsbD_eq
  intro i inside
  rw [BitVec.getLsbD_and,BitVec.getLsbD_shiftLeft,BitVec.getLsbD_zero]
  by_cases low : i < 24
  · simp [low]
  · rw [high ⟨i,inside⟩ (Nat.not_lt.mp low),Bool.and_false]

theorem slot_plain_or {flags : BitVec 32} (plain : flags &&& typeBits = 0#32) (slot : BitVec 32) :
    (flags ||| (slot <<< 24)) &&& typeBits = 0#32 := by
  have parts : (flags ||| (slot <<< 24)) &&& typeBits = (flags &&& typeBits) ||| ((slot <<< 24) &&& typeBits) := by
    ext i
    simp only [BitVec.getElem_and,BitVec.getElem_or,Bool.and_or_distrib_right]
  rw [parts,plain,slot_plain]
  rfl

def noopCommand : Command := ⟨trbNoopCmd,0,0,rfl,by decide,rfl⟩

/-- The first command of `cmd_reset_ep0`. -/
def resetEp0 (slot : BitVec 32) : Command :=
  ⟨trbResetEp,0,(1 <<< 16) ||| (slot <<< 24),rfl,by decide,slot_plain_or rfl slot⟩

/-- Its second command. -/
def setDeqEp0 (r : Ring) (slot : BitVec 32) : Command :=
  ⟨trbSetDeq,r.dequeue,(1 <<< 16) ||| (slot <<< 24),rfl,by decide,slot_plain_or rfl slot⟩

def addressDevice (context : Nat) (slot : BitVec 32) (bsr : Bool) : Command :=
  ⟨trbAddressDevice,context,(if bsr then trbBsr else 0) ||| (slot <<< 24),rfl,by decide,
    slot_plain_or (by cases bsr <;> rfl) slot⟩

/-- The arguments of `ep0_xfer`. -/
structure Request where
  bm : BitVec 8
  req : BitVec 8
  val : BitVec 16
  idx : BitVec 16
  data : Nat
  len : BitVec 16
  inward : Bool

def setupControl (sized inward : Bool) : BitVec 32 :=
  (trbSetup <<< 10) ||| trbIdt ||| (if sized then if inward then 3 <<< 16 else 2 <<< 16 else 0)

def dataControl (inward : Bool) : BitVec 32 :=
  (trbData <<< 10) ||| (if inward then trbDirIn else 0) ||| (if inward then 4 else 0)

def statusControl (inward : Bool) : BitVec 32 :=
  (trbStatus <<< 10) ||| 0x20 ||| (if inward then 0 else trbDirIn)

def setupTrb (q : Request) : Trb :=
  ⟨q.val ++ (q.req ++ q.bm),q.len ++ q.idx,8,setupControl (q.len != 0) q.inward⟩

def dataTrb (q : Request) : Trb :=
  ⟨low q.data,high q.data,q.len.setWidth 32 &&& 0x1FFFF,dataControl q.inward⟩

def statusTrb (q : Request) : Trb := ⟨0,0,0,statusControl q.inward⟩

/-- The rings of the driver. `context` is the dequeue pointer in the input context, and
`moved` says that `ep0_index` and `ep0_cycle` were set back since a dequeue pointer was set. -/
structure Control where
  cmd : Ring
  ep0 : Ring
  context : Nat
  moved : Bool

inductive ControlAct
  | command (c : Command)
  | recover
  | address (context : Nat) (slot : BitVec 32) (bsr : Bool)
  | setDeq (slot : BitVec 32)
  | setup (q : Request)
  | data (q : Request)
  | status (q : Request)
  | rewind
  | execute (ok : Bool)
  | endpoint

/-- The stages that `ep0_xfer` submits. -/
def ep0Xfer (q : Request) : List ControlAct :=
  .setup q::(if q.len ≠ 0 then [.data q] else []) ++ [.status q]

/-- The dequeue pointer of endpoint 0 that a command sets. -/
def Control.target (s : Control) (t : Trb) : Option Consumer :=
  if t.kind = trbSetDeq ∧ (t.control >>> 16) &&& 0x1F = 1 then some ⟨t.pointer,t.lo.getLsbD 0⟩
  else if t.kind = trbAddressDevice then some ⟨s.context / trbSize * trbSize,s.context % 2 == 1⟩
  else none

/-- The controller takes the next step on the command ring; `ok` says whether it accepts the
command. -/
def Control.execute (s : Control) (ok : Bool) : Control :=
  match s.cmd.advance with
  | (cmd,none) => {s with cmd}
  | (cmd,some t) => match s.target t with
    | none => {s with cmd}
    | some consumer => if ok then {s with cmd,ep0 := s.ep0.point consumer,moved := false} else {s with cmd}

/-- `cmd_recover` once the controller has stopped the command ring. -/
def cmdRecover (r : Ring) : Ring :=
  {r with
    cycle := !r.cycle,index := 0
    trbs := linkTrb r.trbs r.base r.base true
    consumer := ⟨r.base,!r.cycle⟩,waiting := []}

def Control.step (s : Control) : ControlAct → Control
  | .command c => {s with cmd := cmdSubmit s.cmd c}
  | .recover => {s with cmd := cmdRecover s.cmd}
  | .address context slot bsr =>
    {s with context := s.ep0.dequeue,cmd := cmdSubmit s.cmd (addressDevice context slot bsr)}
  | .setDeq slot => {s with cmd := cmdSubmit s.cmd (setDeqEp0 s.ep0 slot)}
  | .setup q => {s with ep0 := s.ep0.submit (setupTrb q)}
  | .data q => {s with ep0 := s.ep0.submitRelinked (dataTrb q)}
  | .status q => {s with ep0 := s.ep0.submitRelinked (statusTrb q)}
  | .rewind =>
    {s with ep0 := {s.ep0 with index := 0,cycle := true},moved := s.moved || s.ep0.index != 0 || !s.ep0.cycle}
  | .execute ok => s.execute ok
  | .endpoint => {s with ep0 := s.ep0.advance.1}

def setupControls (cmd ep0 : Nat) : Control := ⟨setupRing cmd,setupRing ep0,ep0 ||| 1,false⟩

theorem command_control {kind control : BitVec 32} (small : kind &&& 0x3F = kind) (plain : control &&& typeBits = 0#32) :
    ((kind <<< 10 ||| control) >>> 10) &&& 0x3F = kind ∧ (kind <<< 10 ||| control).getLsbD 0 = false := by
  have clear : ∀ i, i < 32 → typeBits.getLsbD i → control.getLsbD i = false := by
    intro i inside set
    have bit := congrArg (fun b => BitVec.getLsbD b i) plain
    rw [BitVec.getLsbD_and,set,Bool.and_true,BitVec.getLsbD_zero] at bit
    exact bit
  have types : ∀ i : Fin 6, typeBits.getLsbD (10 + i) := by decide
  have mask : ∀ i : Fin 32, (0x3F : BitVec 32).getLsbD i = decide (i.val < 6) := by decide
  refine ⟨?_,?_⟩
  · apply BitVec.eq_of_getLsbD_eq
    intro i inside
    have kept := congrArg (fun b => BitVec.getLsbD b i) small
    rw [BitVec.getLsbD_and,mask ⟨i,inside⟩] at kept ⊢
    rw [← kept,BitVec.getLsbD_ushiftRight,BitVec.getLsbD_or,BitVec.getLsbD_shiftLeft]
    by_cases low : i < 6
    · rw [clear (10 + i) (by omega) (types ⟨i,low⟩),Nat.add_sub_cancel_left]
      simp [low]
      omega
    · simp [low]
  · rw [BitVec.getLsbD_or,BitVec.getLsbD_shiftLeft,clear 0 (by decide) (by decide)]
    rfl

theorem setupControl_bits : ∀ sized inward, (setupControl sized inward).getLsbD 0 = false ∧
    (setupControl sized inward >>> 10) &&& 0x3F ≠ trbLink := by decide

theorem dataControl_bits : ∀ inward, (dataControl inward).getLsbD 0 = false ∧
    (dataControl inward >>> 10) &&& 0x3F ≠ trbLink := by decide

theorem statusControl_bits : ∀ inward, (statusControl inward).getLsbD 0 = false ∧
    (statusControl inward >>> 10) &&& 0x3F ≠ trbLink := by decide

/-- A TRB that the controller would execute is the first that waits, and while one waits it
executes it after at most one Link TRB. -/
structure Genuine (r : Ring) : Prop where
  genuine : ∀ c t, r.consumer.fetch r.trbs = some (c,some t) → r.waiting.head? = some t
  next : ∀ t rest, r.waiting = t::rest → ∃ c, r.consumer.fetch r.trbs = some (c,some t) ∨
    ∃ c', r.consumer.fetch r.trbs = some (c',none) ∧ c'.fetch r.trbs = some (c,some t)

/-- The slot that the driver goes on to does not carry the cycle bit that it has there, nor
does a Link TRB on the way. -/
def Ring.Clear (r : Ring) : Prop :=
  if r.index + 1 ≥ ringTrbs - 1 then
    (r.trbs (trbAt r.base (ringTrbs - 1))).cycle ≠ r.cycle ∧ (r.trbs (trbAt r.base 0)).cycle ≠ !r.cycle
  else (r.trbs (trbAt r.base (r.index + 1))).cycle ≠ r.cycle

instance (r : Ring) : Decidable r.Clear := by
  delta Ring.Clear
  infer_instance

/-- There is room for one more TRB, and no old one behind it looks new. -/
def Ring.Ready (r : Ring) : Prop := r.waiting.length < ringTrbs - 2 ∧ r.Clear

instance (r : Ring) : Decidable r.Ready := inferInstanceAs (Decidable (r.waiting.length < ringTrbs - 2 ∧ r.Clear))

/-- The controller reads the ring behind a driver that goes on at `p`. -/
def Ring.Attached (r : Ring) (p : Producer) : Prop :=
  ∃ first submitted done written k, Feed (fun _ => r.base) 1 first r.trbs p submitted written ∧
    Follows (fun _ => r.base) 1 first submitted r.consumer done k ∧ r.waiting = submitted.drop done.length

theorem page_placed {base : Nat} (aligned : base % 4096 = 0) (inside : base < 2^64) : Placed (fun _ => base) 1 := by
  refine ⟨by decide,fun _ _ => aligned,fun _ _ => inside,?_⟩
  intro s s' below below' _
  omega

theorem single_segment {base : Nat} {first : Bool} {m : Trbs} {p : Producer} {submitted written : List Trb}
    (feed : Feed (fun _ => base) 1 first m p submitted written) : p.segment = 0 := by
  rw [feed.producer]
  exact Nat.mod_one _

theorem first_segment {p : Producer} (zero : p.segment = 0) : (⟨0,p.index,p.cycle⟩ : Producer) = p := by
  cases p
  cases zero
  rfl

section Ring
variable {r : Ring} (placed : Placed (fun _ => r.base) 1)
include placed

theorem Ring.Attached.genuine {p : Producer} (attached : r.Attached p) : Genuine r := by
  obtain ⟨first,submitted,done,written,k,feed,follows,waiting⟩ := attached
  have faultless := follows.faultless feed placed
  refine ⟨?_,?_⟩
  · intro c t fetched
    rw [waiting,List.head?_drop]
    exact faultless.genuine c t fetched
  · intro t rest same
    rw [waiting] at same
    have left : done.length < submitted.length := by
      have length := congrArg List.length same
      rw [List.length_drop,List.length_cons] at length
      omega
    have head : submitted[done.length] = t := by
      rw [List.drop_eq_getElem_cons left] at same
      exact (List.cons.inj same).1
    rw [← head]
    exact faultless.next left

/-- The driver finds the places ahead as they have to be. -/
theorem Ring.Clear.ahead (clear : r.Clear) {first : Bool} {submitted written : List Trb}
    (feed : Feed (fun _ => r.base) 1 first r.trbs r.producer submitted written) :
    Ahead (fun _ => r.base) 1 first r.trbs submitted.length := by
  have index : r.index = written.length % ringTrbs := congrArg Producer.index feed.producer
  have cycle : r.cycle = placeBit 1 first written.length := congrArg Producer.cycle feed.producer
  have length := feed.length
  have inner := feed.inner
  have one : placeBit 1 first (written.length + 1) = r.cycle := by rw [placeBit_next inner,cycle]
  have rest : (written.length + 1) % ringTrbs = r.index + 1 := by
    unfold ringTrbs at *
    omega
  have there : place (fun _ => r.base) 1 (written.length + 1) = trbAt r.base (r.index + 1) := by
    unfold place
    rw [rest]
  intro j after near
  unfold Ring.Clear at clear
  by_cases wrapped : r.index + 1 ≥ ringTrbs - 1
  · rw [if_pos wrapped] at clear
    have ends : (written.length + 1) % ringTrbs = ringTrbs - 1 := feed.ends wrapped
    rw [← rest,ends] at there
    by_cases link : j = written.length + 1
    · rw [link,there,one]
      exact clear.1
    · have two : j = written.length + 1 + 1 := by
        unfold places ringTrbs at *
        omega
      have turned : placeBit 1 first (written.length + 1 + 1) = _ := placeBit_turn placed.positive ends
      have start : place (fun _ => r.base) 1 (written.length + 1 + 1) = trbAt r.base 0 := by
        rw [place_first ends]
        unfold trbAt
        rw [Nat.zero_mul,Nat.add_zero]
      rw [two,turned,start,one,Nat.mod_one,show (0 + 1 == 1) = true from rfl,Bool.xor_true]
      exact clear.2
  · rw [if_neg wrapped] at clear
    have next : j = written.length + 1 := by
      unfold places ringTrbs at *
      omega
    rw [next,there,one]
    exact clear

/-- The queue behind a TRB that has joined the ring. -/
theorem Ring.Attached.joined {r' : Ring} {first : Bool} {t : Trb} {submitted done written' : List Trb} {k : Nat}
    (feed' : Feed (fun _ => r.base) 1 first r'.trbs r'.producer (submitted ++ [t]) written')
    (follows : Follows (fun _ => r.base) 1 first submitted r.consumer done k)
    (waiting : r.waiting = submitted.drop done.length) (few : r.waiting.length < ringTrbs - 2)
    (base : r'.base = r.base) (consumer : r'.consumer = r.consumer) (joins : r'.waiting = r.waiting ++ [t]) :
    r'.Attached r'.producer := by
  have part := congrArg List.length follows.first_part
  rw [List.length_take] at part
  have room : submitted.length + 1 < done.length + (ringTrbs - 1) := by
    rw [waiting,List.length_drop] at few
    unfold ringTrbs at *
    omega
  refine ⟨first,submitted ++ [t],done,written',k,?_,?_,?_⟩
  · rw [base]
    exact feed'
  · rw [base,consumer]
    exact follows.submit t (follows.room placed.positive room)
  · rw [joins,waiting,List.drop_append_of_le_length (by omega)]

theorem Ring.Attached.submit (attached : r.Attached r.producer) (ready : r.Ready) {t : Trb} (plain : t.cycle = false)
    (normal : t.kind ≠ trbLink) : (r.submit t).Attached (r.submit t).producer := by
  obtain ⟨first,submitted,done,written,k,feed,follows,waiting⟩ := attached
  obtain ⟨written',feed'⟩ := feed.enqueue placed plain normal (ready.2.ahead placed feed)
  have segment := single_segment feed'
  have same : (r.submit t).producer = (enqueue (fun _ => r.base) 1 r.trbs r.producer t).2 :=
    first_segment segment
  rw [← same] at feed'
  exact .joined placed feed' follows waiting ready.1 rfl rfl rfl

theorem Ring.Attached.relinked (attached : r.Attached r.producer) (ready : r.Ready) {t : Trb} (plain : t.cycle = false)
    (normal : t.kind ≠ trbLink) (even : r.index + 1 ≥ ringTrbs - 1 → r.cycle = false) :
    (r.submitRelinked t).Attached (r.submitRelinked t).producer := by
  obtain ⟨first,submitted,done,written,k,feed,follows,waiting⟩ := attached
  have ahead := ready.2.ahead placed feed
  unfold Ring.submitRelinked
  dsimp only
  split
  next wrapped =>
    have link : IsLink (linkTo r.base true) r.base true :=
      linkTo_link true (placed.aligned 0 placed.positive) (placed.inside 0 placed.positive)
    have given : (linkTo r.base true).cycle = r.producer.cycle := by
      rw [linkTo_cycle]
      exact (even wrapped).symm
    exact .joined placed (feed.crossed wrapped placed plain normal ahead given link) follows waiting ready.1 rfl rfl rfl
  next early =>
    exact .joined placed (feed.stayed placed plain normal ahead early) follows waiting ready.1 rfl rfl rfl

theorem Ring.Attached.advance {p : Producer} (attached : r.Attached p) : r.advance.1.Attached p := by
  obtain ⟨first,submitted,done,written,k,feed,follows,waiting⟩ := attached
  unfold Ring.advance
  split
  next => exact ⟨first,submitted,done,written,k,feed,follows,waiting⟩
  next c fetched =>
    have after := (follows.fetch feed placed fetched).1
    rw [Option.toList_none,List.append_nil] at after
    exact ⟨first,submitted,done,written,k + 1,feed,after,waiting⟩
  next c t fetched =>
    have after := (follows.fetch feed placed fetched).1
    refine ⟨first,submitted,done ++ [t],written,k + 1,feed,after,?_⟩
    dsimp only
    rw [waiting,List.tail_drop,List.length_append,List.length_singleton]

omit placed in
/-- The dequeue pointer is set to where the driver goes on. -/
theorem Ring.Attached.point {p : Producer} (attached : r.Attached p) :
    (r.point ⟨trbAt r.base p.index,p.cycle⟩).Attached p := by
  obtain ⟨first,submitted,done,written,k,feed,follows,waiting⟩ := attached
  have here := feed.here
  have cycle : p.cycle = placeBit 1 first written.length := by rw [feed.producer]
  have length := feed.length
  refine ⟨first,submitted,submitted,written,written.length,feed,⟨here,cycle,?_,?_,?_⟩,?_⟩
  · exact Nat.le_of_eq length
  · rw [length]
    exact Nat.le_add_right ..
  · rw [feed.number,List.take_length]
  · exact List.drop_length.symm

/-- Driver and controller begin the ring anew, over what is left in it. -/
theorem Ring.Attached.begin (link : IsLink (r.trbs (trbAt r.base (ringTrbs - 1))) r.base true)
    (clear : (r.trbs (trbAt r.base 0)).cycle ≠ r.cycle) (index : r.index = 0)
    (consumer : r.consumer = ⟨r.base,r.cycle⟩) (none : r.waiting = []) : r.Attached r.producer := by
  refine ⟨r.cycle,[],[],[],0,?_,?_,none⟩
  · have start : r.producer = ⟨0,0,r.cycle⟩ := by rw [Ring.producer,index]
    rw [start]
    refine .begin placed ?_ ?_
    · intro s inside
      have zero : s = 0 := by omega
      rw [zero]
      exact link
    · exact clear
  · rw [consumer]
    exact .start placed

end Ring

/-- A step of the controller leaves what belongs to the driver alone. -/
structure Kept (r r' : Ring) : Prop where
  base : r'.base = r.base
  trbs : r'.trbs = r.trbs
  producer : r'.producer = r.producer

theorem advance_kept (r : Ring) : Kept r r.advance.1 := by
  unfold Ring.advance
  split <;> exact ⟨rfl,rfl,rfl⟩

theorem relinked_base (r : Ring) (t : Trb) : (r.submitRelinked t).base = r.base := by
  unfold Ring.submitRelinked
  dsimp only
  split <;> rfl

/-- The steps that keep the two sides of the rings together. -/
def Control.Allowed (s : Control) : ControlAct → Prop
  | .command _ | .address _ _ _ | .setDeq _ => s.cmd.Ready
  | .recover => (s.cmd.trbs (trbAt s.cmd.base 0)).cycle = s.cmd.cycle
  | .setup _ => s.moved = false ∧ s.ep0.Ready
  | .data _ | .status _ => s.moved = false ∧ s.ep0.Ready ∧ (s.ep0.index + 1 ≥ ringTrbs - 1 → s.ep0.cycle = false)
  | .rewind => s.ep0.index = 0 ∧ s.ep0.cycle = true ∨ (s.ep0.trbs (trbAt s.ep0.base 0)).cycle = false
  | .execute ok => ok = false ∨ s.cmd.advance.2.bind s.target = none ∨
      s.cmd.advance.2.bind s.target = some ⟨trbAt s.ep0.base s.ep0.index,s.ep0.cycle⟩
  | .endpoint => True

instance (s : Control) (act : ControlAct) : Decidable (s.Allowed act) := by
  cases act <;> delta Control.Allowed <;> infer_instance

structure Control.Held (s : Control) : Prop where
  cmd : s.cmd.Attached s.cmd.producer
  ep0 : ∃ p, s.ep0.Attached p ∧ (s.moved = false → p = s.ep0.producer)
  start : s.moved → s.ep0.index = 0 ∧ s.ep0.cycle = true ∧ (s.ep0.trbs (trbAt s.ep0.base 0)).cycle = false
  placed : Placed (fun _ => s.cmd.base) 1
  placed' : Placed (fun _ => s.ep0.base) 1

theorem setupRing_attached {base : Nat} (placed : Placed (fun _ => base) 1) :
    (setupRing base).Attached (setupRing base).producer := by
  have unused : ∀ s, s < 1 → Unused (fun _ => base) 1 s (setupRing base).trbs := by
    intro s inside
    have zero : s = 0 := by omega
    rw [zero]
    have blank : ∀ i, i < ringTrbs - 1 → (fun _ => noTrb : Trbs) (trbAt ((fun _ => base : Nat → Nat) 0) i) = noTrb :=
      fun _ _ => rfl
    exact linkTrb_unused blank
  exact ⟨true,[],[],[],0,.start placed unused,.start placed,rfl⟩

namespace Control.Held
variable {s : Control} (held : s.Held)
include held

theorem submit (c : Command) (ready : s.cmd.Ready) (context : Nat) :
    Held {s with context,cmd := cmdSubmit s.cmd c} := by
  have bits := command_control c.small c.plain
  have attached := held.cmd.submit held.placed ready (t := ⟨low c.parameter,high c.parameter,0,(c.kind <<< 10) ||| c.control⟩)
    bits.2 (fun link => c.normal (bits.1.symm.trans link))
  exact ⟨attached,held.ep0,held.start,held.placed,held.placed'⟩

theorem attached (still : s.moved = false) : s.ep0.Attached s.ep0.producer := by
  obtain ⟨p,attached,same⟩ := held.ep0
  rw [← same still]
  exact attached

theorem stage {r : Ring} (still : s.moved = false) (attached : r.Attached r.producer) (base : r.base = s.ep0.base) :
    Held {s with ep0 := r} := by
  refine ⟨held.cmd,⟨_,attached,fun _ => rfl⟩,?_,held.placed,?_⟩
  · intro moved
    rw [still] at moved
    cases moved
  · dsimp only
    rw [base]
    exact held.placed'

theorem recover (clear : (s.cmd.trbs (trbAt s.cmd.base 0)).cycle = s.cmd.cycle) :
    Held {s with cmd := cmdRecover s.cmd} := by
  refine ⟨?_,held.ep0,held.start,held.placed,held.placed'⟩
  have zero : trbAt s.cmd.base 0 ≠ trbAt s.cmd.base (ringTrbs - 1) := by
    unfold trbAt trbSize ringTrbs
    omega
  refine .begin (r := cmdRecover s.cmd) held.placed ?_ ?_ rfl rfl rfl
  · dsimp only [cmdRecover]
    rw [linkTrb,Function.update_self]
    exact linkTo_link true (held.placed.aligned 0 (by decide)) (held.placed.inside 0 (by decide))
  · dsimp only [cmdRecover]
    rw [linkTrb,Function.update_of_ne zero,clear]
    simp

theorem rewind (clear : s.ep0.index = 0 ∧ s.ep0.cycle = true ∨ (s.ep0.trbs (trbAt s.ep0.base 0)).cycle = false) :
    Held (s.step .rewind) := by
  obtain ⟨p,⟨first,submitted,done,written,k,feed,follows,waiting⟩,same⟩ := held.ep0
  refine ⟨held.cmd,⟨p,⟨first,submitted,done,written,k,feed,follows,waiting⟩,?_⟩,?_,held.placed,held.placed'⟩
  · intro still
    dsimp only [Control.step] at still
    simp only [Bool.or_eq_false_iff,bne_eq_false_iff_eq,Bool.not_eq_false'] at still
    obtain ⟨⟨unmoved,index⟩,cycle⟩ := still
    rw [same unmoved]
    dsimp only [Control.step,Ring.producer]
    rw [index,cycle]
  · intro moved
    dsimp only [Control.step] at moved ⊢
    refine ⟨rfl,rfl,?_⟩
    rcases clear with ⟨index,cycle⟩ | clear
    · rw [index,cycle,bne_self_eq_false,Bool.or_false,Bool.not_true,Bool.or_false] at moved
      exact (held.start moved).2.2
    · exact clear

theorem execute (ok : Bool) (allowed : s.Allowed (.execute ok)) : Held (s.execute ok) := by
  have attached := held.cmd.advance held.placed
  have base : s.cmd.advance.1.base = s.cmd.base ∧ s.cmd.advance.1.producer = s.cmd.producer := by
    unfold Ring.advance
    split <;> exact ⟨rfl,rfl⟩
  unfold Control.Allowed at allowed
  unfold Control.execute
  generalize s.cmd.advance = outcome at *
  obtain ⟨cmd,o⟩ := outcome
  obtain ⟨base,producer⟩ := base
  rw [← producer] at attached
  have placed : Placed (fun _ => cmd.base) 1 := by
    dsimp only at base
    rw [base]
    exact held.placed
  have kept : Held {s with cmd} := ⟨attached,held.ep0,held.start,placed,held.placed'⟩
  cases o with
  | none => exact kept
  | some t =>
    dsimp only
    cases target : s.target t with
    | none => exact kept
    | some consumer =>
      dsimp only
      split_ifs with accepted
      · have there : consumer = ⟨trbAt s.ep0.base s.ep0.index,s.ep0.cycle⟩ := by
          rw [accepted,show (some t).bind s.target = some consumer from target] at allowed
          simpa using allowed
        refine ⟨attached,⟨_,?_,fun _ => rfl⟩,nofun,placed,held.placed'⟩
        cases still : s.moved with
        | false =>
          rw [there]
          exact (held.attached still).point
        | true =>
          obtain ⟨index,cycle,clear⟩ := held.start still
          obtain ⟨p,⟨first,submitted,done,written,k,feed,_⟩,_⟩ := held.ep0
          refine .begin (r := s.ep0.point consumer) held.placed' (feed.links 0 (by decide)) ?_ index ?_ rfl
          · rw [show (s.ep0.point consumer).cycle = true from cycle]
            exact Bool.eq_false_iff.mp clear
          · rw [there,index]
            rfl
      · exact kept

theorem step (act : ControlAct) (allowed : s.Allowed act) : Held (s.step act) := by
  cases act with
  | command c => exact held.submit c allowed s.context
  | recover => exact held.recover allowed
  | address context slot bsr => exact held.submit _ allowed _
  | setDeq slot => exact held.submit _ allowed s.context
  | setup q =>
    have bits := setupControl_bits (q.len != 0) q.inward
    exact held.stage allowed.1 ((held.attached allowed.1).submit held.placed' allowed.2 (t := setupTrb q) bits.1 bits.2) rfl
  | data q =>
    have bits := dataControl_bits q.inward
    have attached := (held.attached allowed.1).relinked held.placed' allowed.2.1 (t := dataTrb q) bits.1 bits.2 allowed.2.2
    exact held.stage allowed.1 attached (relinked_base ..)
  | status q =>
    have bits := statusControl_bits q.inward
    have attached := (held.attached allowed.1).relinked held.placed' allowed.2.1 (t := statusTrb q) bits.1 bits.2 allowed.2.2
    exact held.stage allowed.1 attached (relinked_base ..)
  | rewind => exact held.rewind allowed
  | execute ok => exact held.execute ok allowed
  | endpoint =>
    obtain ⟨p,attached,same⟩ := held.ep0
    have kept := advance_kept s.ep0
    refine ⟨held.cmd,⟨p,attached.advance held.placed',?_⟩,?_,held.placed,?_⟩
    · intro still
      rw [same still]
      exact kept.producer.symm
    · intro moved
      obtain ⟨index,cycle,clear⟩ := held.start moved
      dsimp only [Control.step]
      rw [kept.base,kept.trbs]
      exact ⟨(congrArg Producer.index kept.producer).trans index,(congrArg Producer.cycle kept.producer).trans cycle,clear⟩
    · dsimp only [Control.step]
      rw [kept.base]
      exact held.placed'

end Control.Held

/-- The two rings, in every run of the driver and the controller whose steps are allowed. -/
theorem rings_genuine (cmd ep0 : Nat) (placed : Placed (fun _ => cmd) 1) (placed' : Placed (fun _ => ep0) 1)
    (acts : List ControlAct) (allowed : Meets Control.step Control.Allowed (setupControls cmd ep0) acts) :
    Genuine (run Control.step (setupControls cmd ep0) acts).cmd ∧
      Genuine (run Control.step (setupControls cmd ep0) acts).ep0 := by
  have start : Control.Held (setupControls cmd ep0) :=
    ⟨setupRing_attached placed,⟨_,setupRing_attached placed',fun _ => rfl⟩,nofun,placed,placed'⟩
  have held := Meets.invariant (fun _ act before permitted => before.step act permitted) start allowed
  obtain ⟨p,attached,_⟩ := held.ep0
  exact ⟨held.cmd.genuine held.placed,attached.genuine held.placed'⟩

def descriptorRequest : Request := ⟨0x80,6,0x0100,0,0x20000,8,true⟩

def enumeration : List ControlAct :=
  [.command noopCommand,.execute true,.address 0x30000 1 false,.execute true] ++ ep0Xfer descriptorRequest ++
    [.endpoint,.endpoint,.endpoint,.command (resetEp0 1),.execute false,.setDeq 1,.execute true]

theorem rings_genuine_enumeration : Genuine (run Control.step (setupControls 0x100000 0x101000) enumeration).cmd ∧
    Genuine (run Control.step (setupControls 0x100000 0x101000) enumeration).ep0 :=
  rings_genuine 0x100000 0x101000 (page_placed (by decide) (by decide)) (page_placed (by decide) (by decide))
    enumeration (by decide +kernel)

def recovery : List ControlAct := [.command noopCommand,.recover,.command noopCommand,.execute true]

/-- After `cmd_recover` the controller runs into TRBs that were never written. -/
theorem recovery_stale : ¬Genuine (run Control.step (setupControls 0x100000 0x101000) recovery).cmd := by
  intro genuine
  have stale : (run Control.step (setupControls 0x100000 0x101000) recovery).cmd.consumer.fetch
      (run Control.step (setupControls 0x100000 0x101000) recovery).cmd.trbs = some (⟨0x100020,false⟩,some noTrb) := by
    decide +kernel
  have idle : (run Control.step (setupControls 0x100000 0x101000) recovery).cmd.waiting = [] := by decide +kernel
  have waits := genuine.genuine _ _ stale
  rw [idle] at waits
  cases waits

end LionOS.Usb

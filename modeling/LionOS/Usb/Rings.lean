import LionOS.Library.Laps
import LionOS.Usb.Trb

/-! Rings of one or more segments, each with a Link TRB at its end, and the controller that
reads them behind the driver. -/
namespace LionOS.Usb
open LionOS.Library

/-- Where the driver puts its next TRB, and its cycle state. -/
structure Producer where
  segment : Nat
  index : Nat
  cycle : Bool
  deriving DecidableEq

def zeroPage (m : Trbs) (page : Nat) : Trbs := fun a => if page ≤ a ∧ a < page + 4096 then noTrb else m a

def Trb.marked (t : Trb) (cycle : Bool) : Trb := {t with control := t.control ||| cycleBit cycle}

/-- The driver goes on to the next place and gives the Link TRB away when it crosses it. -/
def crossLink (bases : Nat → Nat) (count : Nat) (m : Trbs) (p : Producer) : Trbs × Producer :=
  let index := p.index + 1
  if index ≥ ringTrbs - 1 then
    let (m,cycle) := advanceLink m (trbAt (bases p.segment) (ringTrbs - 1)) p.cycle
    let segment := p.segment + 1
    (m,⟨if segment ≥ count then 0 else segment,0,cycle⟩)
  else (m,{p with index})

def putTrb (bases : Nat → Nat) (m : Trbs) (p : Producer) (t : Trb) : Trbs :=
  Function.update m (trbAt (bases p.segment) p.index) (t.marked p.cycle)

def enqueue (bases : Nat → Nat) (count : Nat) (m : Trbs) (p : Producer) (t : Trb) : Trbs × Producer :=
  crossLink bases count (putTrb bases m p t) p

/-- The pages of the segments. -/
structure Placed (bases : Nat → Nat) (count : Nat) : Prop where
  positive : 0 < count
  aligned : ∀ s, s < count → bases s % 4096 = 0
  inside : ∀ s, s < count → bases s < 2^64
  apart : ∀ s s', s < count → s' < count → bases s = bases s' → s = s'

/-- The TRB of place `k`, counted over all laps. -/
def place (bases : Nat → Nat) (count k : Nat) : Nat := trbAt (bases (k / ringTrbs % count)) (k % ringTrbs)

def placeBit (count : Nat) (first : Bool) (k : Nat) : Bool := lapBit (count * ringTrbs) first k

variable {bases : Nat → Nat} {count : Nat} {first : Bool} {m : Trbs} {p : Producer} {submitted written : List Trb}

theorem trbAt_inj (placed : Placed bases count) {s s' i i' : Nat} (inside : s < count) (inside' : s' < count)
    (below : i < ringTrbs) (below' : i' < ringTrbs) (same : trbAt (bases s) i = trbAt (bases s') i') :
    s = s' ∧ i = i' := by
  have aligned := placed.aligned s inside
  have aligned' := placed.aligned s' inside'
  unfold trbAt trbSize at same
  unfold ringTrbs at below below'
  exact ⟨placed.apart s s' inside inside' (by omega),by omega⟩

theorem place_mod (k : Nat) : place bases count (k % (count * ringTrbs)) = place bases count k := by
  unfold place
  rw [Nat.mod_mul_left_div_self,Nat.mod_mod,Nat.mod_mod_of_dvd k (Nat.dvd_mul_left ringTrbs count)]

theorem place_inj (placed : Placed bases count) {k j : Nat} (same : place bases count k = place bases count j) :
    k % (count * ringTrbs) = j % (count * ringTrbs) := by
  have segment := fun i => Nat.mod_lt (i / ringTrbs) placed.positive
  have index := fun i => Nat.mod_lt i (by decide : 0 < ringTrbs)
  obtain ⟨segments,indices⟩ := trbAt_inj placed (segment k) (segment j) (index k) (index j) same
  rw [Nat.mul_comm count,Nat.mod_mul,Nat.mod_mul,segments,indices]

theorem placeBit_segment (k : Nat) : placeBit count first k = lapBit count first (k / ringTrbs) := by
  unfold placeBit lapBit
  rw [Nat.mul_comm count,Nat.div_div_eq_div_mul]

theorem placeBit_next {k : Nat} (inner : k % ringTrbs ≠ ringTrbs - 1) :
    placeBit count first (k + 1) = placeBit count first k := by
  rw [placeBit_segment,placeBit_segment]
  unfold ringTrbs at inner ⊢
  congr 1
  omega

theorem place_next {k : Nat} (inner : k % ringTrbs ≠ ringTrbs - 1) :
    place bases count (k + 1) = place bases count k + trbSize := by
  have quotient : (k + 1) / ringTrbs = k / ringTrbs := by
    unfold ringTrbs at *
    omega
  have rest : (k + 1) % ringTrbs = k % ringTrbs + 1 := by
    unfold ringTrbs at *
    omega
  unfold place trbAt
  rw [quotient,rest,Nat.add_mul,Nat.one_mul,Nat.add_assoc]

theorem place_first {k : Nat} (last : k % ringTrbs = ringTrbs - 1) :
    place bases count (k + 1) = bases ((k / ringTrbs % count + 1) % count) := by
  have quotient : (k + 1) / ringTrbs = k / ringTrbs + 1 := by
    unfold ringTrbs at *
    omega
  have rest : (k + 1) % ringTrbs = 0 := by
    unfold ringTrbs at *
    omega
  unfold place trbAt
  rw [quotient,rest,Nat.zero_mul,Nat.add_zero,Nat.mod_add_mod]

theorem place_link {k : Nat} (last : k % ringTrbs = ringTrbs - 1) :
    place bases count k = trbAt (bases (k / ringTrbs % count)) (ringTrbs - 1) := by
  unfold place
  rw [last]

/-- Both sides turn their cycle state over at the end of the last segment. -/
theorem placeBit_turn (positive : 0 < count) {k : Nat} (last : k % ringTrbs = ringTrbs - 1) :
    placeBit count first (k + 1) = (placeBit count first k ^^ (k / ringTrbs % count + 1 == count)) := by
  have quotient : (k + 1) / ringTrbs = k / ringTrbs + 1 := by
    unfold ringTrbs at *
    omega
  have below := Nat.mod_lt (k / ringTrbs) positive
  have next : (lapNext count (k / ringTrbs % count,lapBit count first (k / ringTrbs))).2 =
      lapBit count first (k / ringTrbs + 1) := congrArg Prod.snd (lapNext_write positive _)
  rw [placeBit_segment,placeBit_segment,quotient,← next]
  dsimp only [lapNext]
  by_cases whole : k / ringTrbs % count + 1 = count
  · rw [if_pos (Nat.le_of_eq whole.symm),beq_iff_eq.mpr whole,Bool.xor_true]
  · rw [if_neg (by omega),beq_false_of_ne whole,Bool.xor_false]

theorem update_place (placed : Placed bases count) (k : Nat) (t : Trb) {q : Nat} (inside : q < count * ringTrbs) :
    Function.update m (place bases count k) t (place bases count q) =
      Function.update (fun j => m (place bases count j)) (k % (count * ringTrbs)) t q := by
  by_cases same : q = k % (count * ringTrbs)
  · rw [same,Function.update_self,place_mod,Function.update_self]
  · rw [Function.update_of_ne same,Function.update_of_ne]
    intro equal
    have mods := place_inj placed equal
    rw [Nat.mod_eq_of_lt inside] at mods
    exact same mods

theorem several (positive : 0 < count) : 1 < count * ringTrbs :=
  Nat.lt_of_lt_of_le (by decide) (Nat.le_mul_of_pos_left ringTrbs positive)

/-- The places that the first TRBs take together with the Link TRBs behind them. -/
def places (submitted : Nat) : Nat := submitted + submitted / (ringTrbs - 1)

/-- What the driver has put into a ring. Each of the `written` TRBs is one of those
submitted or a Link TRB that was given away. -/
structure Feed (bases : Nat → Nat) (count : Nat) (first : Bool) (m : Trbs) (p : Producer)
    (submitted written : List Trb) : Prop where
  laps : Laps (count * ringTrbs) Trb.cycle first (fun q => m (place bases count q)) written
  links : ∀ s, s < count → IsLink (m (trbAt (bases s) (ringTrbs - 1))) (bases ((s + 1) % count)) (s + 1 == count)
  length : written.length = places submitted.length
  normal : ∀ k t, written[k]? = some t → k % ringTrbs ≠ ringTrbs - 1 → submitted[k - k / ringTrbs]? = some t
  kinds : ∀ t ∈ submitted, t.kind ≠ trbLink
  producer : p = ⟨written.length / ringTrbs % count,written.length % ringTrbs,placeBit count first written.length⟩

theorem laps_write (laps : Laps (count * ringTrbs) Trb.cycle first (fun q => m (place bases count q)) written)
    (placed : Placed bases count) {t : Trb} (marked : t.cycle = placeBit count first written.length)
    (clear : (m (place bases count (written.length + 1))).cycle ≠ placeBit count first (written.length + 1)) :
    Laps (count * ringTrbs) Trb.cycle first
      (fun q => Function.update m (place bases count written.length) t (place bases count q)) (written ++ [t]) := by
  refine (laps.put (several placed.positive) marked ?_).congr (Nat.mul_pos placed.positive (by decide)) ?_
  · rw [place_mod]
    exact clear
  · intro q inside
    exact (update_place placed _ _ inside).symm

/-- The places up to the next TRB's do not look written under the cycle state there. -/
def Ahead (bases : Nat → Nat) (count : Nat) (first : Bool) (m : Trbs) (submitted : Nat) : Prop :=
  ∀ j, places submitted < j → j ≤ places (submitted + 1) → (m (place bases count j)).cycle ≠ placeBit count first j

theorem marked_cycle {t : Trb} (plain : t.cycle = false) (cycle : Bool) : (t.marked cycle).cycle = cycle := by
  unfold Trb.marked Trb.cycle at *
  dsimp only
  rw [BitVec.getLsbD_or,plain]
  cases cycle <;> rfl

theorem marked_kind (t : Trb) (cycle : Bool) : (t.marked cycle).kind = t.kind := by
  unfold Trb.marked Trb.kind cycleBit
  dsimp only
  ext i
  cases cycle <;> simp

theorem links_put (placed : Placed bases count)
    (links : ∀ s, s < count → IsLink (m (trbAt (bases s) (ringTrbs - 1))) (bases ((s + 1) % count)) (s + 1 == count))
    {k : Nat} (inner : k % ringTrbs ≠ ringTrbs - 1) (t : Trb) : ∀ s, s < count →
      IsLink (Function.update m (place bases count k) t (trbAt (bases s) (ringTrbs - 1)))
        (bases ((s + 1) % count)) (s + 1 == count) := by
  intro s inside
  rw [Function.update_of_ne]
  · exact links s inside
  · intro same
    have index := Nat.mod_lt k (by decide : 0 < ringTrbs)
    exact inner (trbAt_inj placed inside (Nat.mod_lt _ placed.positive) (by decide) index same).2.symm

namespace Feed
variable (feed : Feed bases count first m p submitted written)
include feed

theorem here : trbAt (bases p.segment) p.index = place bases count written.length := by
  rw [feed.producer]
  rfl

theorem inner : written.length % ringTrbs ≠ ringTrbs - 1 := by
  have length := feed.length
  unfold places ringTrbs at *
  omega

theorem number : written.length - written.length / ringTrbs = submitted.length := by
  have length := feed.length
  unfold places ringTrbs at *
  omega

/-- The first half of `enqueue`. -/
theorem put (placed : Placed bases count) {t : Trb} (plain : t.cycle = false)
    (ahead : Ahead bases count first m submitted.length) :
    Laps (count * ringTrbs) Trb.cycle first (fun q => putTrb bases m p t (place bases count q))
      (written ++ [t.marked p.cycle]) := by
  have cycle : p.cycle = placeBit count first written.length := by rw [feed.producer]
  unfold putTrb
  rw [feed.here]
  apply laps_write feed.laps placed
  · rw [marked_cycle plain]
    exact cycle
  · apply ahead
    · rw [feed.length]
      exact Nat.lt_succ_self _
    · rw [feed.length]
      unfold places ringTrbs
      omega

theorem normal_put (t : Trb) {k : Nat} {a : Trb} (found : (written ++ [t])[k]? = some a)
    (inside : k % ringTrbs ≠ ringTrbs - 1) : (submitted ++ [t])[k - k / ringTrbs]? = some a := by
  rcases snoc_found found with old | ⟨rfl,rfl⟩
  · have before := feed.normal k a old inside
    rw [List.getElem?_append_left (List.getElem?_eq_some_iff.mp before).1]
    exact before
  · rw [feed.number,List.getElem?_concat_length]

theorem kinds_put {t : Trb} (plain : t.kind ≠ trbLink) : ∀ a ∈ submitted ++ [t.marked p.cycle], a.kind ≠ trbLink := by
  intro a member
  rcases List.mem_append.mp member with old | new
  · exact feed.kinds a old
  · rw [List.mem_singleton.mp new,marked_kind]
    exact plain

section Wrapped
variable (wrapped : p.index + 1 ≥ ringTrbs - 1)
include wrapped

theorem ends : (written.length + 1) % ringTrbs = ringTrbs - 1 := by
  have index : p.index = written.length % ringTrbs := by rw [feed.producer]
  have inner := feed.inner
  unfold ringTrbs at *
  omega

/-- The driver comes to the Link TRB of its segment. -/
theorem at_end : trbAt (bases p.segment) (ringTrbs - 1) = place bases count (written.length + 1) := by
  have ends := feed.ends wrapped
  have quotient : (written.length + 1) / ringTrbs = written.length / ringTrbs := by
    unfold ringTrbs at *
    omega
  rw [place_link ends,quotient,feed.producer]

/-- Where the driver goes on behind it. -/
theorem turned (positive : 0 < count) :
    (⟨if p.segment + 1 ≥ count then 0 else p.segment + 1,0,if p.segment + 1 == count then !p.cycle else p.cycle⟩ : Producer) =
      ⟨(written.length + 1 + 1) / ringTrbs % count,(written.length + 1 + 1) % ringTrbs,
        placeBit count first (written.length + 1 + 1)⟩ := by
  have ends := feed.ends wrapped
  have quotient : (written.length + 1) / ringTrbs = written.length / ringTrbs := by
    unfold ringTrbs at *
    omega
  have next : (written.length + 1 + 1) / ringTrbs = written.length / ringTrbs + 1 := by
    unfold ringTrbs at *
    omega
  have start : (written.length + 1 + 1) % ringTrbs = 0 := by
    unfold ringTrbs at *
    omega
  have below := Nat.mod_lt (written.length / ringTrbs) positive
  have cycle : placeBit count first (written.length + 1 + 1) = _ := placeBit_turn positive ends
  rw [placeBit_next feed.inner,quotient] at cycle
  have segment := Nat.mod_add_mod (written.length / ringTrbs) count 1
  rw [feed.producer,cycle,next,start,← segment]
  dsimp only
  by_cases whole : written.length / ringTrbs % count + 1 = count
  · rw [if_pos (Nat.le_of_eq whole.symm),beq_iff_eq.mpr whole,if_pos rfl,Bool.xor_true,whole,Nat.mod_self]
  · have short : ¬written.length / ringTrbs % count + 1 ≥ count := by omega
    rw [if_neg short,beq_false_of_ne whole,if_neg Bool.false_ne_true,Bool.xor_false,Nat.mod_eq_of_lt (Nat.not_le.mp short)]

/-- The Link TRB must have looked unwritten before it is given away. -/
theorem unowned (placed : Placed bases count) {t : Trb} (plain : t.cycle = false)
    (ahead : Ahead bases count first m submitted.length) :
    (putTrb bases m p t (trbAt (bases p.segment) (ringTrbs - 1))).cycle ≠ p.cycle := by
  have length : (written ++ [t.marked p.cycle]).length = written.length + 1 := by simp
  have cycle : p.cycle = placeBit count first (written.length + 1) := by rw [placeBit_next feed.inner,feed.producer]
  have clear := (feed.put placed plain ahead).clear
  rw [length,place_mod,← feed.at_end wrapped] at clear
  rw [cycle]
  exact clear

/-- The driver crosses a Link TRB and leaves it with the contents `a`. -/
theorem crossed (placed : Placed bases count) {t a : Trb} (plain : t.cycle = false) (normal : t.kind ≠ trbLink)
    (ahead : Ahead bases count first m submitted.length) (given : a.cycle = p.cycle)
    (link : IsLink a (bases ((p.segment + 1) % count)) (p.segment + 1 == count)) :
    Feed bases count first (Function.update (putTrb bases m p t) (trbAt (bases p.segment) (ringTrbs - 1)) a)
      ⟨if p.segment + 1 ≥ count then 0 else p.segment + 1,0,if p.segment + 1 == count then !p.cycle else p.cycle⟩
      (submitted ++ [t.marked p.cycle]) (written ++ [t.marked p.cycle] ++ [a]) := by
  have length : (written ++ [t.marked p.cycle]).length = written.length + 1 := by simp
  have total := feed.length
  have ends := feed.ends wrapped
  have cycle : p.cycle = placeBit count first (written.length + 1) := by rw [placeBit_next feed.inner,feed.producer]
  have size : 2 < count * ringTrbs := Nat.lt_of_lt_of_le (by decide) (Nat.le_mul_of_pos_left ringTrbs placed.positive)
  refine ⟨?_,?_,?_,?_,feed.kinds_put normal,?_⟩
  · rw [feed.at_end wrapped,← length]
    apply laps_write (feed.put placed plain ahead) placed
    · rw [given,length]
      exact cycle
    · have other : place bases count (written.length + 1 + 1) ≠ place bases count written.length := by
        intro same
        exact laps_apart (by omega : written.length < written.length + 1 + 1) (by omega) (place_inj placed same).symm
      unfold putTrb
      rw [length,feed.here,Function.update_of_ne other]
      apply ahead
      · omega
      · unfold places ringTrbs at *
        omega
  · have links := links_put placed feed.links feed.inner (t.marked p.cycle)
    rw [← feed.here] at links
    intro s inside
    by_cases same : trbAt (bases s) (ringTrbs - 1) = trbAt (bases p.segment) (ringTrbs - 1)
    · have segment : p.segment < count := by
        rw [feed.producer]
        exact Nat.mod_lt _ placed.positive
      rw [same,Function.update_self,(trbAt_inj placed inside segment (by decide) (by decide) same).1]
      exact link
    · rw [Function.update_of_ne same]
      exact links s inside
  · rw [List.length_append,List.length_append,List.length_append,List.length_singleton,List.length_singleton,total]
    unfold places ringTrbs at *
    omega
  · intro k b found inside
    rcases snoc_found found with old | ⟨rfl,rfl⟩
    · exact feed.normal_put _ old inside
    · rw [length] at inside
      exact absurd ends inside
  · rw [List.length_append,List.length_singleton,length]
    exact feed.turned wrapped placed.positive

end Wrapped

/-- The driver goes on to the next slot. -/
theorem stayed (placed : Placed bases count) {t : Trb} (plain : t.cycle = false) (normal : t.kind ≠ trbLink)
    (ahead : Ahead bases count first m submitted.length) (early : ¬p.index + 1 ≥ ringTrbs - 1) :
    Feed bases count first (putTrb bases m p t) {p with index := p.index + 1} (submitted ++ [t.marked p.cycle])
      (written ++ [t.marked p.cycle]) := by
  have length := feed.length
  have index : p.index = written.length % ringTrbs := by rw [feed.producer]
  refine ⟨feed.put placed plain ahead,?_,?_,?_,feed.kinds_put normal,?_⟩
  · unfold putTrb
    rw [feed.here]
    exact links_put placed feed.links feed.inner (t.marked p.cycle)
  · rw [List.length_append,List.length_append,List.length_singleton,length]
    unfold places ringTrbs at *
    omega
  · exact fun k a found inside => feed.normal_put _ found inside
  · have quotient : (written.length + 1) / ringTrbs = written.length / ringTrbs := by
      unfold ringTrbs at *
      omega
    have rest : (written.length + 1) % ringTrbs = written.length % ringTrbs + 1 := by
      unfold ringTrbs at *
      omega
    rw [List.length_append,List.length_singleton,placeBit_next feed.inner,quotient,rest]
    rw [feed.producer]

theorem link_kept (placed : Placed bases count) (t : Trb) :
    IsLink (putTrb bases m p t (trbAt (bases p.segment) (ringTrbs - 1))) (bases ((p.segment + 1) % count))
      (p.segment + 1 == count) := by
  have segment : p.segment < count := by
    rw [feed.producer]
    exact Nat.mod_lt _ placed.positive
  unfold putTrb
  rw [feed.here]
  exact links_put placed feed.links feed.inner _ p.segment segment

/-- What a driver submits joins the ring behind all that it has submitted before. -/
theorem enqueue (placed : Placed bases count) {t : Trb} (plain : t.cycle = false) (normal : t.kind ≠ trbLink)
    (ahead : Ahead bases count first m submitted.length) :
    ∃ written', Feed bases count first (enqueue bases count m p t).1 (enqueue bases count m p t).2
      (submitted ++ [t.marked p.cycle]) written' := by
  have link := feed.link_kept placed t
  unfold Usb.enqueue crossLink
  dsimp only
  by_cases wrapped : p.index + 1 ≥ ringTrbs - 1
  · have unowned := feed.unowned wrapped placed plain ahead
    have given : (putTrb bases m p t (trbAt (bases p.segment) (ringTrbs - 1))).flip.cycle = p.cycle := by
      rw [flip_cycle]
      exact (Bool.eq_not.mpr unowned.symm).symm
    rw [if_pos wrapped]
    dsimp only [advanceLink]
    rw [link.toggles]
    exact ⟨_,feed.crossed wrapped placed plain normal ahead given link.flip⟩
  · rw [if_neg wrapped]
    exact ⟨_,feed.stayed placed plain normal ahead wrapped⟩

/-- What it does not write. -/
theorem enqueue_elsewhere (placed : Placed bases count) (t : Trb) {q : Nat} (inside : q < count * ringTrbs)
    (after : places (submitted.length + 1) ≤ q) :
    (Usb.enqueue bases count m p t).1 (place bases count q) = m (place bases count q) := by
  have length := feed.length
  have near : ∀ k, k < q → place bases count q ≠ place bases count k := by
    intro k before same
    have mods := place_inj placed same
    rw [Nat.mod_eq_of_lt inside,Nat.mod_eq_of_lt (Nat.lt_trans before inside)] at mods
    omega
  have here : putTrb bases m p t (place bases count q) = m (place bases count q) := by
    unfold putTrb
    rw [feed.here,Function.update_of_ne]
    apply near
    unfold places ringTrbs at *
    omega
  unfold Usb.enqueue crossLink
  dsimp only
  by_cases wrapped : p.index + 1 ≥ ringTrbs - 1
  · have ends := feed.ends wrapped
    rw [if_pos wrapped]
    dsimp only [advanceLink]
    rw [feed.at_end wrapped,Function.update_of_ne,here]
    apply near
    unfold places ringTrbs at *
    omega
  · rw [if_neg wrapped]
    exact here

theorem ahead (fresh : Fresh (count * ringTrbs) Trb.cycle first (fun q => m (place bases count q)) written.length)
    (positive : 0 < count) : Ahead bases count first m submitted.length := by
  intro j after near
  have length := feed.length
  have clear := fresh.ahead feed.laps (Nat.mul_pos positive (by decide)) (j := j) (by omega)
    (by
      have size := Nat.le_mul_of_pos_left ringTrbs positive
      unfold places ringTrbs at *
      omega)
  rw [place_mod] at clear
  exact clear

end Feed

/-- The controller has come to place `k` and has executed all that was submitted before. -/
structure Follows (bases : Nat → Nat) (count : Nat) (first : Bool) (submitted : List Trb) (c : Consumer)
    (executed : List Trb) (k : Nat) : Prop where
  pointer : c.pointer = place bases count k
  cycle : c.cycle = placeBit count first k
  behind : k ≤ places submitted.length
  near : places submitted.length ≤ k + count * ringTrbs
  executed : executed = submitted.take (k - k / ringTrbs)

theorem fetch_owned {c c' : Consumer} {o : Option Trb} (fetched : c.fetch m = some (c',o)) :
    (m c.pointer).cycle = c.cycle ∧
    ((m c.pointer).kind = trbLink ∧ c' = ⟨(m c.pointer).pointer,c.cycle ^^ (m c.pointer).toggles⟩ ∧ o = none ∨
      (m c.pointer).kind ≠ trbLink ∧ c' = ⟨c.pointer + trbSize,c.cycle⟩ ∧ o = some (m c.pointer)) := by
  unfold Consumer.fetch at fetched
  dsimp only at fetched
  split_ifs at fetched with unowned link
  · cases fetched
    exact ⟨not_not.mp unowned,.inl ⟨link,rfl,rfl⟩⟩
  · cases fetched
    exact ⟨not_not.mp unowned,.inr ⟨link,rfl,rfl⟩⟩

namespace Follows
variable {c : Consumer} {executed : List Trb} {k : Nat}
variable (follows : Follows bases count first submitted c executed k)
include follows

theorem length : executed.length = k - k / ringTrbs := by
  have behind := follows.behind
  rw [follows.executed,List.length_take]
  unfold places ringTrbs at *
  omega

theorem first_part : executed = submitted.take executed.length := by
  rw [follows.length]
  exact follows.executed

theorem at_place (m : Trbs) : m c.pointer = m (place bases count (k % (count * ringTrbs))) := by
  rw [follows.pointer,place_mod]

/-- The driver may put one more TRB into the ring while the controller is no lap behind. -/
theorem submit (t : Trb) (room : places (submitted.length + 1) ≤ k + count * ringTrbs) :
    Follows bases count first (submitted ++ [t]) c executed k := by
  have behind := follows.behind
  refine ⟨follows.pointer,follows.cycle,?_,?_,?_⟩
  · rw [List.length_append,List.length_singleton]
    unfold places ringTrbs at *
    omega
  · rw [List.length_append,List.length_singleton]
    exact room
  · rw [List.take_append_of_le_length]
    · exact follows.executed
    · unfold places ringTrbs at *
      omega

/-- A ring has room while fewer than 254 TRBs wait in it. -/
theorem room (positive : 0 < count) (few : submitted.length + 1 < executed.length + (ringTrbs - 1)) :
    places (submitted.length + 1) ≤ k + count * ringTrbs := by
  have length := follows.length
  have size := Nat.le_mul_of_pos_left ringTrbs positive
  unfold places ringTrbs at *
  omega

section Feed
variable (feed : Feed bases count first m p submitted written)
include feed

/-- The controller goes on exactly while something that was written is ahead of it. -/
theorem owned : (m c.pointer).cycle = c.cycle ↔ k < written.length := by
  have behind := follows.behind
  have near := follows.near
  rw [← feed.length] at behind near
  rw [follows.at_place m,follows.cycle]
  exact feed.laps.owned behind near

theorem read (left : k < written.length) : written[k]? = some (m c.pointer) := by
  have near := follows.near
  rw [← feed.length] at near
  rw [follows.at_place m]
  exact feed.laps.read left near

/-- Where it stands at a Link TRB the Link TRB has been given to it. -/
theorem at_link (placed : Placed bases count) (last : k % ringTrbs = ringTrbs - 1) :
    k < written.length ∧
      IsLink (m c.pointer) (bases ((k / ringTrbs % count + 1) % count)) (k / ringTrbs % count + 1 == count) := by
  have behind := follows.behind
  have inner := feed.inner
  rw [← feed.length] at behind
  refine ⟨?_,?_⟩
  · rcases Nat.lt_or_eq_of_le behind with left | rfl
    · exact left
    · exact absurd last inner
  · rw [follows.pointer,place_link last]
    exact feed.links _ (Nat.mod_lt _ placed.positive)

/-- Where it stands at another TRB that has been written, this is the next one submitted. -/
theorem at_normal (left : k < written.length) (inner : k % ringTrbs ≠ ringTrbs - 1) :
    submitted[executed.length]? = some (m c.pointer) ∧ (m c.pointer).kind ≠ trbLink := by
  have found := feed.normal k _ (follows.read feed left) inner
  rw [follows.length]
  exact ⟨found,feed.kinds _ (List.mem_of_getElem? found)⟩

theorem cross (placed : Placed bases count) (last : k % ringTrbs = ringTrbs - 1) :
    ∃ c', c.fetch m = some (c',none) ∧ Follows bases count first submitted c' executed (k + 1) := by
  obtain ⟨left,link⟩ := follows.at_link feed placed last
  have owned := (follows.owned feed).mpr left
  refine ⟨⟨(m c.pointer).pointer,c.cycle ^^ (m c.pointer).toggles⟩,?_,?_,?_,?_,?_,?_⟩
  · unfold Consumer.fetch
    rw [if_neg (not_not.mpr owned),if_pos link.kind]
  · rw [place_first last]
    exact link.pointer
  · dsimp only
    rw [placeBit_turn placed.positive last,link.toggles,follows.cycle]
  · rw [← feed.length]
    exact left
  · have near := follows.near
    omega
  · rw [follows.executed]
    congr 1
    unfold ringTrbs at *
    omega

theorem advance (left : k < written.length) (inner : k % ringTrbs ≠ ringTrbs - 1) :
    ∃ c', c.fetch m = some (c',some (m c.pointer)) ∧
      Follows bases count first submitted c' (executed ++ [m c.pointer]) (k + 1) := by
  obtain ⟨next,normal⟩ := follows.at_normal feed left inner
  have owned := (follows.owned feed).mpr left
  have length := follows.length
  refine ⟨⟨c.pointer + trbSize,c.cycle⟩,?_,?_,?_,?_,?_,?_⟩
  · unfold Consumer.fetch
    rw [if_neg (not_not.mpr owned),if_neg normal]
  · rw [place_next inner,follows.pointer]
  · rw [placeBit_next inner]
    exact follows.cycle
  · rw [← feed.length]
    exact left
  · have near := follows.near
    omega
  · have number : k + 1 - (k + 1) / ringTrbs = executed.length + 1 := by
      rw [length]
      unfold ringTrbs at *
      omega
    rw [number,List.take_add_one,next,← follows.first_part]
    rfl

end Feed
end Follows

/-- The controller and a ring: what was executed is a first part of what was submitted, a
TRB that the controller would execute is the next one of these, a Link TRB that it has come
to is its own, and what is left will be executed after at most one Link TRB. -/
structure Faultless (bases : Nat → Nat) (count : Nat) (m : Trbs) (c : Consumer) (submitted executed : List Trb) :
    Prop where
  order : executed = submitted.take executed.length
  genuine : ∀ c' t, c.fetch m = some (c',some t) → submitted[executed.length]? = some t
  link : ∀ s, s < count → c.pointer = trbAt (bases s) (ringTrbs - 1) → (m c.pointer).cycle = c.cycle
  next : ∀ left : executed.length < submitted.length, ∃ c',
    c.fetch m = some (c',some submitted[executed.length]) ∨
    ∃ c'', c.fetch m = some (c'',none) ∧ c''.fetch m = some (c',some submitted[executed.length])

section
variable {c : Consumer} {executed : List Trb} {k : Nat} (follows : Follows bases count first submitted c executed k)
variable (feed : Feed bases count first m p submitted written) (placed : Placed bases count)
include follows feed placed

/-- What a step of the controller does. -/
theorem Follows.fetch {c' : Consumer} {o : Option Trb} (fetched : c.fetch m = some (c',o)) :
    Follows bases count first submitted c' (executed ++ o.toList) (k + 1) ∧
      ∀ t, o = some t → submitted[executed.length]? = some t := by
  have left := (follows.owned feed).mp (fetch_owned fetched).1
  by_cases last : k % ringTrbs = ringTrbs - 1
  · obtain ⟨c'',crossed,after⟩ := follows.cross feed placed last
    rw [crossed] at fetched
    cases fetched
    rw [Option.toList_none,List.append_nil]
    exact ⟨after,nofun⟩
  · obtain ⟨c'',advanced,after⟩ := follows.advance feed left last
    have next := (follows.at_normal feed left last).1
    rw [advanced] at fetched
    cases fetched
    refine ⟨after,?_⟩
    intro t same
    cases same
    exact next

omit placed in
theorem Follows.next_normal (left : executed.length < submitted.length) (inner : k % ringTrbs ≠ ringTrbs - 1) :
    ∃ c', c.fetch m = some (c',some submitted[executed.length]) := by
  have ahead : k < written.length := by
    rw [follows.length] at left
    rw [feed.length]
    unfold places ringTrbs at *
    omega
  obtain ⟨c',advanced,_⟩ := follows.advance feed ahead inner
  have next := (follows.at_normal feed ahead inner).1
  rw [List.getElem?_eq_getElem left] at next
  rw [Option.some.inj next]
  exact ⟨c',advanced⟩

theorem Follows.faultless : Faultless bases count m c submitted executed := by
  refine ⟨follows.first_part,?_,?_,?_⟩
  · intro c' t fetched
    exact (follows.fetch feed placed fetched).2 t rfl
  · intro s inside there
    rw [follows.pointer] at there
    have index := Nat.mod_lt k (by decide : 0 < ringTrbs)
    have last := (trbAt_inj placed (Nat.mod_lt _ placed.positive) inside index (by decide) there).2
    exact (follows.owned feed).mpr (follows.at_link feed placed last).1
  · intro left
    by_cases last : k % ringTrbs = ringTrbs - 1
    · obtain ⟨c'',crossed,after⟩ := follows.cross feed placed last
      have inner : (k + 1) % ringTrbs ≠ ringTrbs - 1 := by
        unfold ringTrbs at *
        omega
      obtain ⟨c',advanced⟩ := after.next_normal feed left inner
      exact ⟨c',.inr ⟨c'',crossed,advanced⟩⟩
    · obtain ⟨c',advanced⟩ := follows.next_normal feed left last
      exact ⟨c',.inl advanced⟩

end

/-- It is the same with everything that was executed before. -/
theorem Faultless.after {c : Consumer} {executed : List Trb} (faultless : Faultless bases count m c submitted executed)
    (past : List Trb) : Faultless bases count m c (past ++ submitted) (past ++ executed) := by
  refine ⟨?_,?_,faultless.link,?_⟩
  · rw [List.length_append,List.take_length_add_append,← faultless.order]
  · intro c' t fetched
    rw [List.length_append,List.getElem?_append_right (Nat.le_add_right ..),Nat.add_sub_cancel_left]
    exact faultless.genuine c' t fetched
  · intro left
    have inside : executed.length < submitted.length := by
      rw [List.length_append,List.length_append] at left
      omega
    have same : (past ++ submitted)[(past ++ executed).length] = submitted[executed.length] := by
      apply Option.some.inj
      rw [← List.getElem?_eq_getElem left,← List.getElem?_eq_getElem inside,List.length_append,
        List.getElem?_append_right (Nat.le_add_right ..),Nat.add_sub_cancel_left]
    rw [same]
    exact faultless.next inside

/-- A segment that nothing has been put into. -/
structure Unused (bases : Nat → Nat) (count : Nat) (s : Nat) (m : Trbs) : Prop where
  blank : ∀ i, i < ringTrbs - 1 → m (trbAt (bases s) i) = noTrb
  link : m (trbAt (bases s) (ringTrbs - 1)) = linkTo (bases ((s + 1) % count)) (s + 1 == count)

theorem place_parts {P : Nat → Prop} (placed : Placed bases count)
    (each : ∀ s, s < count → ∀ i, i < ringTrbs → P (trbAt (bases s) i)) (k : Nat) : P (place bases count k) :=
  each _ (Nat.mod_lt _ placed.positive) _ (Nat.mod_lt k (by decide))

theorem unused_unowned (placed : Placed bases count) (unused : ∀ s, s < count → Unused bases count s m) (k : Nat) :
    (m (place bases count k)).cycle ≠ true := by
  refine place_parts (P := fun a => (m a).cycle ≠ true) placed ?_ k
  intro s inside i below
  by_cases last : i = ringTrbs - 1
  · rw [last,(unused s inside).link,linkTo_cycle]
    exact Bool.false_ne_true
  · rw [(unused s inside).blank i (by omega),noTrb_cycle]
    exact Bool.false_ne_true

/-- A ring that the driver begins at its first TRB. -/
theorem Feed.begin (placed : Placed bases count)
    (links : ∀ s, s < count → IsLink (m (trbAt (bases s) (ringTrbs - 1))) (bases ((s + 1) % count)) (s + 1 == count))
    (clear : (m (place bases count 0)).cycle ≠ first) : Feed bases count first m ⟨0,0,first⟩ [] [] := by
  have start : placeBit count first 0 = first := lapBit_first (Nat.mul_pos placed.positive (by decide))
  refine ⟨.empty clear,links,rfl,nofun,nofun,?_⟩
  rw [List.length_nil,start,Nat.zero_div,Nat.zero_mod,Nat.zero_mod]

theorem Feed.start (placed : Placed bases count) (unused : ∀ s, s < count → Unused bases count s m) :
    Feed bases count true m ⟨0,0,true⟩ [] [] := by
  refine .begin placed ?_ (unused_unowned placed unused 0)
  intro s inside
  have next := Nat.mod_lt (s + 1) placed.positive
  rw [(unused s inside).link]
  exact linkTo_link _ (placed.aligned _ next) (placed.inside _ next)

theorem Follows.start (placed : Placed bases count) : Follows bases count first [] ⟨bases 0,first⟩ [] 0 := by
  refine ⟨?_,(lapBit_first (Nat.mul_pos placed.positive (by decide))).symm,Nat.le_refl _,Nat.zero_le _,rfl⟩
  unfold place trbAt
  rw [Nat.zero_div,Nat.zero_mod,Nat.zero_mod,Nat.zero_mul,Nat.add_zero]

/-- A loop over the segments that works on each of them alone. -/
theorem each_segment {σ : Type} {step : σ → Nat → σ} {P Q : Nat → σ → Prop} {s : σ}
    (own : ∀ s i, i < count → P i s → Q i (step s i))
    (kept : ∀ s i j, i < count → j < count → i ≠ j → Q i s → Q i (step s j))
    (waiting : ∀ s i j, i < count → j < count → i ≠ j → P i s → P i (step s j))
    (start : ∀ i, i < count → P i s) : ∀ i, i < count → Q i ((List.range count).foldl step s) := by
  have part : ∀ n, n ≤ count → (∀ i, i < n → Q i ((List.range n).foldl step s)) ∧
      ∀ i, n ≤ i → i < count → P i ((List.range n).foldl step s) := by
    intro n
    induction n with
    | zero => exact fun _ => ⟨nofun,fun i _ inside => start i inside⟩
    | succ n ih =>
      intro inside
      obtain ⟨done,left⟩ := ih (Nat.le_of_succ_le inside)
      rw [List.range_succ,List.foldl_append]
      refine ⟨?_,?_⟩
      · intro i below
        rcases Nat.lt_succ_iff_lt_or_eq.mp below with earlier | rfl
        · exact kept _ i n (by omega) inside (Nat.ne_of_lt earlier) (done i earlier)
        · exact own _ i inside (left i (Nat.le_refl i) inside)
      · intro i later below
        exact waiting _ i n below inside (by omega) (left i (by omega) below)
  exact (part count (Nat.le_refl count)).1

theorem linkTrb_elsewhere (placed : Placed bases count) {s j i : Nat} (inside : s < count) (other : j < count)
    (apart : s ≠ j) (below : i < ringTrbs) (m : Trbs) (next : Nat) (toggle : Bool) :
    linkTrb m (bases j) next toggle (trbAt (bases s) i) = m (trbAt (bases s) i) := by
  unfold linkTrb
  rw [Function.update_of_ne]
  intro same
  exact apart (trbAt_inj placed inside other below (by decide) same).1

theorem zeroPage_own (m : Trbs) {page i : Nat} (below : i < ringTrbs) : zeroPage m page (trbAt page i) = noTrb := by
  unfold trbAt trbSize ringTrbs at *
  exact if_pos ⟨by omega,by omega⟩

theorem zeroPage_elsewhere (placed : Placed bases count) {s j i : Nat} (inside : s < count) (other : j < count)
    (apart : s ≠ j) (below : i < ringTrbs) (m : Trbs) : zeroPage m (bases j) (trbAt (bases s) i) = m (trbAt (bases s) i) := by
  unfold trbAt trbSize ringTrbs at *
  refine if_neg ?_
  intro same
  have aligned := placed.aligned s inside
  have aligned' := placed.aligned j other
  exact apart (placed.apart s j inside other (by omega))

theorem linkTrb_unused {s : Nat} (blank : ∀ i, i < ringTrbs - 1 → m (trbAt (bases s) i) = noTrb) :
    Unused bases count s (linkTrb m (bases s) (bases ((s + 1) % count)) (s + 1 == count)) := by
  refine ⟨?_,Function.update_self ..⟩
  intro i below
  unfold linkTrb
  rw [Function.update_of_ne]
  · exact blank i below
  · unfold trbAt trbSize ringTrbs at *
    omega

theorem Unused.elsewhere {s : Nat} {m' : Trbs} (unused : Unused bases count s m)
    (same : ∀ i, i < ringTrbs → m' (trbAt (bases s) i) = m (trbAt (bases s) i)) : Unused bases count s m' := by
  refine ⟨?_,?_⟩
  · intro i below
    rw [same i (Nat.lt_trans below (by decide))]
    exact unused.blank i below
  · rw [same _ (by decide)]
    exact unused.link

end LionOS.Usb

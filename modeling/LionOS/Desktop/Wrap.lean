import LionOS.Physical
import Mathlib.Data.List.TakeWhile

/-! The rows of the notepad's text: a row ends at a newline or at the edge of the window. -/
namespace LionOS.Desktop
open LionOS.Physical (Byte)

def lineBuffer : Nat := 120

def bodyWidth (w : BitVec 32) : Nat := if w.toNat > 28 then w.toNat - 28 else 1
def bodyHeight (h : BitVec 32) : Nat := if h.toNat > 64 then h.toNat - 64 else 1

/-- The characters of 12 by 16 pixels that a window takes. -/
def lineColumns (w : BitVec 32) : Nat := (if bodyWidth w > 16 then bodyWidth w - 16 else 1) / 12
def visibleLines (h : BitVec 32) : Nat := if bodyHeight h > 24 then (bodyHeight h - 20) / 16 else 1

/-- The variables of `draw_notepad` and the places of the characters that it has passed to
`text_line` or skipped. -/
structure Sheet where
  lineStart : Nat
  lineNo : Nat
  drawn : List Nat

section Draw
variable (text : List Byte) (columns : Nat)

/-- How far a row goes. -/
def lineEnd (start p : Nat) : Nat :=
  if p < text.length ∧ text[p]? ≠ some 0x0A ∧ p - start < columns then lineEnd start (p + 1) else p
termination_by text.length - p

/-- What is copied to `line`, which has room for 120 characters. -/
def copyLine (stop start n : Nat) : List Nat :=
  if start < stop ∧ n < lineBuffer then start::copyLine stop (start + 1) (n + 1) else []
termination_by stop - start

/-- `text_line` reads the line up to its first zero. -/
def passed (line : List Nat) : List Nat := line.takeWhile fun i => text[i]? ≠ some 0

def drawRow (s : Sheet) : Sheet :=
  let p := lineEnd text columns s.lineStart s.lineStart
  let drawn := s.drawn ++ passed text (copyLine p s.lineStart 0)
  if p < text.length ∧ text[p]? = some 0x0A then ⟨p + 1,s.lineNo + 1,drawn ++ [p]⟩
  else ⟨p,s.lineNo + 1,drawn⟩

theorem drawRow_lineNo (s : Sheet) : (drawRow text columns s).lineNo = s.lineNo + 1 := by
  unfold drawRow
  dsimp only
  split <;> rfl

/-- The loop over the rows; it stops because the window has only so many. -/
def drawRows (lines : Nat) (s : Sheet) : Sheet :=
  if s.lineStart ≤ text.length ∧ s.lineNo < lines then drawRows lines (drawRow text columns s) else s
termination_by lines - s.lineNo
decreasing_by
  rw [drawRow_lineNo]
  omega

end Draw

/-- `draw_notepad` in a window of `w` by `h` pixels. -/
def drawNotepad (w h : BitVec 32) (text : List Byte) : Sheet :=
  drawRows text (lineColumns w) (visibleLines h) ⟨0,0,[]⟩

/-- All the rows are drawn, and every character before the last one's end is shown or skipped once
and in its order. -/
structure Shown (lines : Nat) (text : List Byte) (s : Sheet) : Prop where
  exact : s.drawn = List.range s.lineStart
  inside : s.lineStart ≤ text.length
  whole : s.lineNo = lines

section Rows
variable (columns : Nat)

/-- The first row of a text. -/
def firstRow (text : List Byte) : List Byte := (text.takeWhile (· ≠ 0x0A)).take columns

/-- The text after its first row and the newline that ends it. -/
def afterRow (text : List Byte) : List Byte :=
  match text.drop (firstRow columns text).length with
  | [] => []
  | c::rest => if c = 0x0A then rest else c::rest

def rowsOf : Nat → List Byte → List (List Byte)
  | 0, _ => []
  | lines+1, text => firstRow columns text::rowsOf lines (afterRow columns text)

end Rows

/-- A row that `line` has room for, without a zero. -/
def Short (row : List Byte) : Prop := row.length ≤ lineBuffer ∧ 0 ∉ row

section Row
variable {text : List Byte} {columns : Nat}

theorem firstRow_starts (text : List Byte) : firstRow columns text <+: text :=
  (List.take_prefix _ _).trans (List.takeWhile_prefix _)

theorem lineEnd_eq (start p : Nat) (le : start ≤ p) (inside : p ≤ text.length) :
    lineEnd text columns start p =
      p + (((text.drop p).takeWhile (· ≠ 0x0A)).take (columns - (p - start))).length := by
  fun_induction lineEnd text columns start p with
  | case1 p more ih =>
    obtain ⟨low,letter,room⟩ := more
    have first := List.drop_eq_getElem_cons low
    rw [List.getElem?_eq_getElem low] at letter
    rw [ih (by omega) low,first,List.takeWhile_cons_of_pos (by simpa using letter)]
    rw [show columns - (p - start) = columns - (p + 1 - start) + 1 by omega,List.take_succ_cons,
      List.length_cons]
    omega
  | case2 p done =>
    suffices none : (((text.drop p).takeWhile (· ≠ 0x0A)).take (columns - (p - start))).length = 0 by
      rw [none,Nat.add_zero]
    by_cases low : p < text.length
    · by_cases room : p - start < columns
      · have newline : text[p]? = some 0x0A := by
          by_contra letter
          exact done ⟨low,letter,room⟩
        rw [List.getElem?_eq_getElem low] at newline
        rw [List.drop_eq_getElem_cons low,List.takeWhile_cons_of_neg (by simpa using newline),List.take_nil]
        rfl
      · rw [show columns - (p - start) = 0 by omega,List.take_zero]
        rfl
    · rw [List.drop_eq_nil_of_le (by omega),List.takeWhile_nil,List.take_nil]
      rfl

theorem copyLine_eq (stop start n : Nat) :
    copyLine stop start n = List.range' start (min (stop - start) (lineBuffer - n)) := by
  fun_induction copyLine stop start n with
  | case1 start n more ih =>
    rw [ih]
    rw [show min (stop - start) (lineBuffer - n) = min (stop - (start + 1)) (lineBuffer - (n + 1)) + 1 by omega,
      List.range'_succ]
  | case2 start n done =>
    rw [show min (stop - start) (lineBuffer - n) = 0 by omega,List.range'_zero]

theorem firstRow_get {start j : Nat} (low : j < (firstRow columns (text.drop start)).length) :
    text[start + j]? = (firstRow columns (text.drop start))[j]? := by
  obtain ⟨rest,split⟩ := @firstRow_starts columns (text.drop start)
  rw [← List.getElem?_drop,← split,List.getElem?_append_left low]
  rw [split]

/-- The places of a row that are passed to `text_line`. -/
def shownOf (text : List Byte) (columns start : Nat) : List Nat :=
  passed text (List.range' start (min (firstRow columns (text.drop start)).length lineBuffer))

theorem shownOf_short {start : Nat} (short : Short (firstRow columns (text.drop start))) :
    shownOf text columns start = List.range' start (firstRow columns (text.drop start)).length := by
  unfold shownOf passed
  rw [Nat.min_eq_left short.1,List.takeWhile_eq_self_iff]
  intro i among
  obtain ⟨j,low,rfl⟩ := List.mem_range'.mp among
  rw [Nat.one_mul,firstRow_get low,List.getElem?_eq_getElem low]
  have letter : (firstRow columns (text.drop start))[j] ≠ 0 := fun zero =>
    short.2 (zero ▸ List.getElem_mem low)
  simpa using letter

theorem shownOf_length (start : Nat) :
    (shownOf text columns start).length ≤ (firstRow columns (text.drop start)).length := by
  have front := (List.takeWhile_prefix (l := List.range' start
    (min (firstRow columns (text.drop start)).length lineBuffer)) fun i => text[i]? ≠ some 0).length_le
  rw [List.length_range'] at front
  exact front.trans (Nat.min_le_left _ _)

/-- Of a row that is too long or holds a zero, something is not shown. -/
theorem shownOf_lost {start : Nat} (lost : ¬Short (firstRow columns (text.drop start))) :
    (shownOf text columns start).length < (firstRow columns (text.drop start)).length := by
  refine Nat.lt_of_le_of_ne (shownOf_length start) fun all => lost ?_
  have front := List.takeWhile_prefix (l := List.range' start
    (min (firstRow columns (text.drop start)).length lineBuffer)) fun i => text[i]? ≠ some 0
  have short : (firstRow columns (text.drop start)).length ≤ lineBuffer := by
    have bound := front.length_le
    rw [List.length_range'] at bound
    unfold shownOf passed at all
    omega
  refine ⟨short,fun zero => ?_⟩
  obtain ⟨j,low,zero⟩ := List.mem_iff_getElem.mp zero
  unfold shownOf passed at all
  rw [Nat.min_eq_left short] at all front
  have same := front.eq_of_length (by rw [all,List.length_range'])
  have letter := List.takeWhile_eq_self_iff.mp same (start + j) (List.mem_range'.mpr ⟨j,low,by omega⟩)
  rw [firstRow_get low,List.getElem?_eq_getElem low,zero] at letter
  simp at letter

/-- One row: its places, and that of the newline after it. -/
theorem drawRow_eq (s : Sheet) (inside : s.lineStart ≤ text.length) :
    drawRow text columns s =
      let p := s.lineStart + (firstRow columns (text.drop s.lineStart)).length
      if p < text.length ∧ text[p]? = some 0x0A then
        ⟨p + 1,s.lineNo + 1,s.drawn ++ shownOf text columns s.lineStart ++ [p]⟩
      else ⟨p,s.lineNo + 1,s.drawn ++ shownOf text columns s.lineStart⟩ := by
  have stop : lineEnd text columns s.lineStart s.lineStart =
      s.lineStart + (firstRow columns (text.drop s.lineStart)).length := by
    rw [lineEnd_eq s.lineStart s.lineStart (Nat.le_refl _) inside,Nat.sub_self,Nat.sub_zero]
    rfl
  unfold drawRow
  dsimp only
  rw [stop,copyLine_eq,Nat.add_sub_cancel_left,Nat.sub_zero]
  rfl

theorem afterRow_drop {start p : Nat} (stop : p = start + (firstRow columns (text.drop start)).length) :
    afterRow columns (text.drop start) =
      text.drop (if p < text.length ∧ text[p]? = some 0x0A then p + 1 else p) := by
  unfold afterRow
  rw [List.drop_drop,← stop]
  by_cases low : p < text.length
  · rw [List.drop_eq_getElem_cons low,List.getElem?_eq_getElem low]
    dsimp only
    by_cases newline : text[p] = 0x0A
    · rw [if_pos newline,if_pos ⟨low,congrArg some newline⟩]
    · rw [if_neg newline,if_neg fun both => newline (Option.some.inj both.2),List.drop_eq_getElem_cons low]
  · rw [if_neg fun both => low both.1,List.drop_eq_nil_of_le (Nat.le_of_not_lt low)]

variable {s : Sheet} (inside : s.lineStart ≤ text.length)
include inside

theorem drawRow_after : text.drop (drawRow text columns s).lineStart = afterRow columns (text.drop s.lineStart) := by
  rw [afterRow_drop rfl,drawRow_eq s inside]
  dsimp only
  split <;> rfl

theorem drawRow_inside : (drawRow text columns s).lineStart ≤ text.length := by
  have length := (@firstRow_starts columns (text.drop s.lineStart)).length_le
  rw [List.length_drop] at length
  rw [drawRow_eq s inside]
  dsimp only
  split
  next newline => exact newline.1
  next => dsimp only; omega

theorem drawRow_short (short : Short (firstRow columns (text.drop s.lineStart)))
    (exact : s.drawn = List.range s.lineStart) :
    (drawRow text columns s).drawn = List.range (drawRow text columns s).lineStart := by
  have joined : s.drawn ++ shownOf text columns s.lineStart =
      List.range (s.lineStart + (firstRow columns (text.drop s.lineStart)).length) := by
    rw [shownOf_short short,exact,List.range_eq_range',List.range_eq_range',← List.range'_append_1,Nat.zero_add]
  rw [drawRow_eq s inside,joined]
  dsimp only
  split
  · exact List.range_succ.symm
  · rfl

/-- No row shows more than it goes past, and one that is not short shows less. -/
theorem drawRow_length : (drawRow text columns s).drawn.length + s.lineStart ≤
      s.drawn.length + (drawRow text columns s).lineStart ∧
    (¬Short (firstRow columns (text.drop s.lineStart)) →
      (drawRow text columns s).drawn.length + s.lineStart <
        s.drawn.length + (drawRow text columns s).lineStart) := by
  have length := @shownOf_length text columns s.lineStart
  have lost := @shownOf_lost text columns s.lineStart
  rw [drawRow_eq s inside]
  dsimp only
  split <;> dsimp only
  · simp only [List.length_append,List.length_singleton]
    exact ⟨by omega,fun long => by have := lost long; omega⟩
  · simp only [List.length_append]
    exact ⟨by omega,fun long => by have := lost long; omega⟩

theorem drawRows_lines {lines : Nat} (le : s.lineNo ≤ lines) :
    (drawRows text columns lines s).lineStart ≤ text.length ∧ (drawRows text columns lines s).lineNo = lines := by
  fun_induction drawRows text columns lines s with
  | case1 s more ih =>
    exact ih (drawRow_inside inside) (by rw [drawRow_lineNo]; exact more.2)
  | case2 s done =>
    exact ⟨inside,Nat.le_antisymm le (Nat.le_of_not_lt fun more => done ⟨inside,more⟩)⟩

theorem drawRows_short {lines : Nat} (exact : s.drawn = List.range s.lineStart)
    (short : ∀ row ∈ rowsOf columns (lines - s.lineNo) (text.drop s.lineStart), Short row) :
    (drawRows text columns lines s).drawn = List.range (drawRows text columns lines s).lineStart := by
  fun_induction drawRows text columns lines s with
  | case1 s more ih =>
    rw [show lines - s.lineNo = lines - (s.lineNo + 1) + 1 by omega,rowsOf,List.forall_mem_cons] at short
    refine ih (drawRow_inside inside) (drawRow_short inside short.1 exact) ?_
    rw [drawRow_after inside,drawRow_lineNo]
    exact short.2
  | case2 s done => exact exact

theorem drawRows_length {lines : Nat} : (drawRows text columns lines s).drawn.length + s.lineStart ≤
    s.drawn.length + (drawRows text columns lines s).lineStart := by
  fun_induction drawRows text columns lines s with
  | case1 s more ih =>
    have step := (@drawRow_length text columns _ inside).1
    have rest := ih (drawRow_inside inside)
    omega
  | case2 s done => exact Nat.le_refl _

theorem drawRows_lost {lines : Nat}
    (all : (drawRows text columns lines s).drawn.length + s.lineStart =
      s.drawn.length + (drawRows text columns lines s).lineStart) :
    ∀ row ∈ rowsOf columns (lines - s.lineNo) (text.drop s.lineStart), Short row := by
  fun_induction drawRows text columns lines s with
  | case1 s more ih =>
    obtain ⟨step,lost⟩ := @drawRow_length text columns _ inside
    have rest := @drawRows_length text columns (drawRow text columns s) (drawRow_inside inside) lines
    rw [show lines - s.lineNo = lines - (s.lineNo + 1) + 1 by omega,rowsOf,List.forall_mem_cons]
    refine ⟨by_contra fun long => ?_,?_⟩
    · have := lost long
      omega
    · have later := ih (drawRow_inside inside) (by omega)
      rw [drawRow_after inside,drawRow_lineNo] at later
      exact later
  | case2 s done =>
    rw [show lines - s.lineNo = 0 by omega]
    exact fun row none => by cases none

end Row

section Notepad
variable (w h : BitVec 32) (text : List Byte)

theorem Shown.rows (shown : Shown (visibleLines h) text (drawNotepad w h text)) :
    ∀ row ∈ rowsOf (lineColumns w) (visibleLines h) text, Short row := by
  have rows := @drawRows_lost text (lineColumns w) ⟨0,0,[]⟩ (Nat.zero_le _) (visibleLines h)
  apply rows
  have length := congrArg List.length shown.exact
  rw [List.length_range] at length
  exact length.trans (Nat.zero_add _).symm

/-- The notepad shows its text from the beginning just if every row it has fits the line. -/
theorem drawNotepad_shown_iff : Shown (visibleLines h) text (drawNotepad w h text) ↔
    ∀ row ∈ rowsOf (lineColumns w) (visibleLines h) text, Short row := by
  constructor
  · intro shown
    exact shown.rows
  · intro short
    obtain ⟨inside,whole⟩ := @drawRows_lines text (lineColumns w) ⟨0,0,[]⟩ (Nat.zero_le _)
      (visibleLines h) (Nat.zero_le _)
    exact ⟨drawRows_short (s := ⟨0,0,[]⟩) (Nat.zero_le _) rfl short,inside,whole⟩

end Notepad

/-- A window that is 121 characters wide does not show the last of them. -/
theorem wide_row_cut : ¬∀ (w h : BitVec 32) (text : List Byte),
    Shown (visibleLines h) text (drawNotepad w h text) := by
  intro all
  have rows := (all 1496 100 (List.replicate 121 0x61)).rows
  have short := rows _ List.mem_cons_self
  have row : firstRow (lineColumns 1496) (List.replicate 121 0x61) = List.replicate 121 0x61 := by decide
  rw [row] at short
  exact absurd short.1 (by decide)

end LionOS.Desktop

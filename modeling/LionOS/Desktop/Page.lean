import LionOS.Physical
import Mathlib.Data.List.TakeWhile

/-! How the browser lays out the text of a page in rows of characters. -/
namespace LionOS.Desktop
open LionOS.Physical (Byte)

def wordSize : Nat := 127

/-- A character of the page in a cell of the window; a cell is `CW` pixels wide and `CH` high. -/
structure Put where
  place : Nat
  row : Nat
  col : Nat

/-- `line` on the characters of a word, with their places in the page, from a column on. -/
def line (row : Nat) : Nat → Nat → List (Nat × Byte) → List Put
  | _, 0, _ => []
  | _, _, [] => []
  | col, max+1, (i,c)::rest => if c = 0 then [] else ⟨i,row,col⟩::line row (col + 1) max rest

/-- The number of characters before the first zero. -/
def width (word : List (Nat × Byte)) : Nat := (word.takeWhile fun b => b.2 ≠ 0).length

/-- The difference of two numbers of 32 bits. -/
def sub32 (a b : Nat) : Nat := (a + 2^32 - b) % 2^32

/-- The variables of `draw_page`, what it has put on the screen and the columns that it has taken
from `maxcols`. -/
structure Pen where
  i : Nat
  col : Nat
  row : Nat
  inTag : Bool
  word : List (Nat × Byte)
  puts : List Put
  taken : List Nat

def maxcols (w : BitVec 32) : Nat := if w.toNat > 40 then (w.toNat - 36) / 12 else 1
def maxrows (h : BitVec 32) : Nat := h.toNat / 18

section Draw
variable (cols rows : Nat)

/-- The word from the column of the pen on, as far as the row goes. -/
def Pen.putWord (s : Pen) : Pen :=
  {s with puts := s.puts ++ line s.row s.col (sub32 cols s.col) s.word,taken := s.taken ++ [s.col]}

def drawFeed (s : Pen) : Pen :=
  let s := if s.word ≠ [] then {s with puts := s.puts ++ line s.row 0 cols s.word,word := []} else s
  {s with row := s.row + 1,col := 0}

def drawBlank (s : Pen) : Pen :=
  if s.word = [] then s
  else
    let need := width s.word
    let s := if s.col + need > cols then {s with row := s.row + 1,col := 0} else s
    let s := if s.row < rows then {s.putWord cols with col := s.col + need + 1} else s
    {s with word := []}

def drawLetter (s : Pen) (c : Byte) : Pen :=
  let s := if s.word.length < wordSize then {s with word := s.word ++ [(s.i,c)]} else s
  if s.col + s.word.length ≥ cols then
    let s := if s.row < rows then s.putWord cols else s
    {s with col := 0,word := [],row := s.row + 1}
  else s

/-- What `draw_page` does with a character. -/
def drawChar (s : Pen) (c : Byte) : Pen :=
  if c = 0x3C then {s with inTag := true}
  else if s.inTag then if c = 0x3E then {s with inTag := false} else s
  else if c = 0x0D then s
  else if c = 0x0A then drawFeed cols s
  else if c = 0x20 ∨ c = 0x09 then drawBlank cols rows s
  else drawLetter cols rows s c

/-- The loop over the page. -/
def drawChars (s : Pen) : List Byte → Pen
  | [] => s
  | c::rest => if s.row < rows then drawChars {drawChar cols rows s c with i := s.i + 1} rest else s

end Draw

/-- `draw_page` in a window of `w` by `h` pixels. -/
def drawPage (w h : BitVec 32) (page : List Byte) : Pen :=
  let s := drawChars (maxcols w) (maxrows h) ⟨0,0,0,false,[],[],[]⟩ page
  if s.word ≠ [] ∧ s.row < maxrows h then s.putWord (maxcols w) else s

/-- White space of a page. -/
def blank (c : Byte) : Bool := c == 0x20 || c == 0x09 || c == 0x0A || c == 0x0D

/-- The places of the characters that are outside tags and no white space. -/
def visible : Bool → Nat → List Byte → List Nat
  | _, _, [] => []
  | tag, i, c::rest =>
    if c = 0x3C then visible true (i + 1) rest
    else if tag then visible (c != 0x3E) (i + 1) rest
    else if blank c then visible false (i + 1) rest
    else i::visible false (i + 1) rest

/-- The order of the cells. -/
def Put.Before (p q : Put) : Prop := p.row < q.row ∨ p.row = q.row ∧ p.col < q.col

/-- The characters that are read are in cells of their own, in their order, and they are all those
of the page unless its rows are used up. -/
structure LaidOut (cols rows : Nat) (page : List Byte) (s : Pen) : Prop where
  each : s.puts.map Put.place = visible false 0 (page.take s.i)
  inside : ∀ p ∈ s.puts, p.row < rows ∧ p.col < cols
  ordered : s.puts.Pairwise Put.Before
  exact : ∀ col ∈ s.taken, col ≤ cols
  whole : page.length ≤ s.i ∨ rows ≤ s.row

/-- A typewriter: its row and column, the length of the word that it is in, and whether it is in a
tag. -/
structure Carriage where
  row : Nat
  col : Nat
  word : Nat
  tag : Bool

section Typewriter
variable (cols rows : Nat)

def Carriage.type (t : Carriage) (c : Byte) : Carriage :=
  if c = 0x3C then {t with tag := true}
  else if t.tag then {t with tag := c != 0x3E}
  else if c = 0x0D then t
  else if c = 0x0A then {t with row := t.row + 1,col := 0,word := 0}
  else if c = 0x20 ∨ c = 0x09 then if t.word = 0 then t else {t with col := t.col + 1,word := 0}
  else if t.col + 1 = cols then {t with row := t.row + 1,col := 0,word := 0}
  else {t with col := t.col + 1,word := t.word + 1}

/-- A letter finds a column, no word has more than 127 letters in a row, and at a line feed the word
is the first of its row or has ended. -/
def Carriage.Fits (t : Carriage) (c : Byte) : Prop :=
  c = 0x3C ∨ t.tag = true ∨ c = 0x0D ∨ if c = 0x0A then t.word = 0 ∨ t.word = t.col
    else c = 0x20 ∨ c = 0x09 ∨ t.col < cols ∧ t.word < wordSize ∧ c ≠ 0

/-- The page fits as far as the rows go. -/
def Neat : Carriage → List Byte → Prop
  | _, [] => True
  | t, c::rest => t.row < rows → t.Fits cols c ∧ Neat (t.type cols c) rest

end Typewriter

section Cells
variable {row col max : Nat} {word : List (Nat × Byte)}

theorem line_cells {p : Put} (put : p ∈ line row col max word) :
    p.row = row ∧ col ≤ p.col ∧ p.col < col + max ∧ p.col < col + word.length ∧
      ∃ b ∈ word, b.1 = p.place ∧ b.2 ≠ 0 := by
  induction word generalizing col max with
  | nil => cases max <;> cases put
  | cons b rest ih =>
    cases max with
    | zero => cases put
    | succ max =>
      by_cases zero : b.2 = 0
      · rw [line,if_pos zero] at put
        cases put
      · rw [line,if_neg zero,List.mem_cons] at put
        rw [List.length_cons]
        rcases put with rfl | later
        · exact ⟨rfl,Nat.le_refl _,by simp,by simp,b,by simp,rfl,zero⟩
        · obtain ⟨same,low,high,inside,a,among,place,letter⟩ := ih later
          exact ⟨same,by omega,by omega,by omega,a,by simp [among],place,letter⟩

theorem line_places (letters : ∀ b ∈ word, b.2 ≠ 0) (fits : word.length ≤ max) :
    (line row col max word).map Put.place = word.map Prod.fst := by
  induction word generalizing col max with
  | nil => cases max <;> rfl
  | cons b rest ih =>
    obtain ⟨max,rfl⟩ : ∃ m, max = m + 1 := ⟨max - 1,by rw [List.length_cons] at fits; omega⟩
    rw [line,if_neg (letters b (by simp)),List.map_cons,List.map_cons]
    rw [ih (fun a among => letters a (by simp [among])) (by simpa using fits)]

theorem line_ordered : (line row col max word).Pairwise Put.Before := by
  induction word generalizing col max with
  | nil => cases max <;> exact .nil
  | cons b rest ih =>
    cases max with
    | zero => exact .nil
    | succ max =>
      rw [line]
      split
      · exact .nil
      · refine .cons (fun p put => ?_) ih
        obtain ⟨same,low,-⟩ := line_cells put
        exact .inr ⟨same.symm,low⟩

theorem line_first (some : word ≠ []) (letters : ∀ b ∈ word, b.2 ≠ 0) (room : 0 < max) :
    ∃ p ∈ line row col max word, p.row = row ∧ p.col = col := by
  cases word with
  | nil => exact absurd rfl some
  | cons b rest =>
    obtain ⟨max,rfl⟩ : ∃ m, max = m + 1 := ⟨max - 1,by omega⟩
    rw [line,if_neg (letters b (by simp))]
    exact ⟨_,List.mem_cons_self,rfl,rfl⟩

theorem width_letters (letters : ∀ b ∈ word, b.2 ≠ 0) : width word = word.length := by
  rw [width,List.takeWhile_eq_self_iff.mpr]
  intro b among
  simpa using letters b among

/-- What is on the screen lies inside it, in its order and before a cell. -/
structure Printed (cols rows row col : Nat) (puts : List Put) : Prop where
  inside : ∀ p ∈ puts, p.row < rows ∧ p.col < cols
  ordered : puts.Pairwise Put.Before
  behind : ∀ p ∈ puts, p.row < row ∨ p.row = row ∧ p.col < col

variable {cols rows : Nat} {puts : List Put}

theorem Printed.line (printed : Printed cols rows row col puts) (low : row < rows)
    (fits : col + word.length ≤ cols) :
    Printed cols rows row (col + word.length) (puts ++ line row col max word) where
  inside := by
    intro p put
    rcases List.mem_append.mp put with old | new
    · exact printed.inside p old
    · obtain ⟨same,-,-,high,-⟩ := line_cells new
      exact ⟨same ▸ low,by omega⟩
  ordered := by
    apply List.pairwise_append.mpr ⟨printed.ordered,line_ordered,?_⟩
    intro p old q new
    obtain ⟨same,left,-⟩ := line_cells new
    rcases printed.behind p old with above | ⟨here,before⟩
    · exact .inl (same ▸ above)
    · exact .inr ⟨here.trans same.symm,by omega⟩
  behind := by
    intro p put
    rcases List.mem_append.mp put with old | new
    · rcases printed.behind p old with above | ⟨here,before⟩
      · exact .inl above
      · exact .inr ⟨here,by omega⟩
    · obtain ⟨same,-,-,high,-⟩ := line_cells new
      exact .inr ⟨same,high⟩

theorem Printed.feed (printed : Printed cols rows row col puts) : Printed cols rows (row + 1) 0 puts where
  inside := printed.inside
  ordered := printed.ordered
  behind := by
    intro p put
    rcases printed.behind p put with above | ⟨here,-⟩
    · exact .inl (by omega)
    · exact .inl (by omega)

theorem Printed.right (printed : Printed cols rows row col puts) :
    Printed cols rows row (col + 1) puts where
  inside := printed.inside
  ordered := printed.ordered
  behind := by
    intro p put
    rcases printed.behind p put with above | ⟨here,before⟩
    · exact .inl above
    · exact .inr ⟨here,by omega⟩

end Cells

section Reading

/-- Whether the characters end in a tag. -/
def tagged (tag : Bool) : List Byte → Bool
  | [] => tag
  | c::rest => tagged (if c = 0x3C then true else if tag then c != 0x3E else false) rest

theorem tagged_append (tag : Bool) (a b : List Byte) : tagged tag (a ++ b) = tagged (tagged tag a) b := by
  induction a generalizing tag with
  | nil => rfl
  | cons c rest ih => exact ih _

theorem visible_append (tag : Bool) (i : Nat) (a b : List Byte) :
    visible tag i (a ++ b) = visible tag i a ++ visible (tagged tag a) (i + a.length) b := by
  induction a generalizing tag i with
  | nil => rfl
  | cons c rest ih =>
    have length : i + (c::rest).length = i + 1 + rest.length := by rw [List.length_cons]; omega
    rw [length,List.cons_append,visible,visible,tagged]
    split
    · exact ih true (i + 1)
    · split
      · exact ih _ (i + 1)
      · split
        · exact ih false (i + 1)
        · exact congrArg (i::·) (ih false (i + 1))

theorem visible_lt {tag : Bool} {i j : Nat} {read : List Byte} (among : j ∈ visible tag i read) :
    j < i + read.length := by
  induction read generalizing tag i with
  | nil => cases among
  | cons c rest ih =>
    rw [List.length_cons]
    rw [visible] at among
    split at among
    · exact Nat.lt_of_lt_of_eq (ih among) (by omega)
    · split at among
      · exact Nat.lt_of_lt_of_eq (ih among) (by omega)
      · split at among
        · exact Nat.lt_of_lt_of_eq (ih among) (by omega)
        · rcases List.mem_cons.mp among with rfl | later
          · omega
          · exact Nat.lt_of_lt_of_eq (ih later) (by omega)

end Reading

/-- The pen agrees with the typewriter, and nothing of what was read is missing. -/
structure Follows (cols rows : Nat) (read : List Byte) (s : Pen) (t : Carriage) : Prop where
  count : s.i = read.length
  row : s.row = t.row
  col : s.col + s.word.length = t.col
  word : s.word.length = t.word
  tag : s.inTag = t.tag
  within : s.inTag = tagged false read
  places : s.puts.map Put.place ++ s.word.map Prod.fst = visible false 0 read
  letters : ∀ b ∈ s.word, b.2 ≠ 0
  printed : Printed cols rows s.row s.col s.puts
  pending : s.word ≠ [] → s.row < rows ∧ s.col + s.word.length < cols
  room : s.col ≤ cols
  begun : 0 < s.col → ∃ p ∈ s.puts, p.row = s.row
  exact : ∀ col ∈ s.taken, col ≤ cols

section Step
variable {cols rows : Nat} {read : List Byte} {s : Pen} {t : Carriage} {c : Byte}

theorem sub32_le {a b : Nat} (le : b ≤ a) (small : a < 2^32) : sub32 a b = a - b := by
  unfold sub32
  omega

theorem Follows.put_places (f : Follows cols rows read s t) {row col max : Nat}
    (fits : s.word.length ≤ max) :
    (s.puts ++ line row col max s.word).map Put.place = visible false 0 read := by
  rw [List.map_append,line_places f.letters fits,f.places]

theorem Follows.unread (f : Follows cols rows read s t) {i : Nat}
    (among : i ∈ s.puts.map Put.place ++ s.word.map Prod.fst) : i < s.i := by
  rw [f.places] at among
  have := visible_lt among
  rw [f.count]
  omega

/-- A character that is not put leaves the text as it is. -/
theorem visible_skip (skips : c = 0x3C ∨ tagged false read = true ∨ blank c = true) :
    visible false 0 (read ++ [c]) = visible false 0 read := by
  rw [visible_append]
  suffices none : visible (tagged false read) (0 + read.length) [c] = [] by rw [none,List.append_nil]
  rw [visible]
  split
  · rfl
  next text =>
    split
    · rfl
    next plain =>
      rw [if_pos]
      · rfl
      · rcases skips with bracket | tag | white
        · exact absurd bracket text
        · exact absurd tag plain
        · exact white

theorem visible_letter (text : c ≠ 0x3C) (plain : tagged false read = false) (letter : blank c = false) :
    visible false 0 (read ++ [c]) = visible false 0 read ++ [read.length] := by
  rw [visible_append,visible,if_neg text,plain,if_neg Bool.false_ne_true,letter,if_neg Bool.false_ne_true]
  rw [visible,Nat.zero_add]

theorem tagged_text (text : c ≠ 0x3C) (plain : tagged false read = false) :
    tagged false (read ++ [c]) = false := by
  rw [tagged_append,plain,tagged,tagged,if_neg text,if_neg Bool.false_ne_true]

theorem drawFeed_follows (f : Follows cols rows read s t) (low : s.row < rows)
    (plain : s.inTag = false) (fits : t.word = 0 ∨ t.word = t.col) :
    Follows cols rows (read ++ [0x0A]) {drawFeed cols s with i := s.i + 1}
      {t with row := t.row + 1,col := 0,word := 0} := by
  have text : tagged false read = false := f.within.symm.trans plain
  have white : visible false 0 (read ++ [0x0A]) = visible false 0 read :=
    visible_skip (.inr (.inr rfl))
  have still : tagged false (read ++ [0x0A]) = false := tagged_text (by decide) text
  have count : s.i + 1 = (read ++ [0x0A]).length := by rw [List.length_append,f.count]; rfl
  by_cases none : s.word = []
  · have same : drawFeed cols s = {s with row := s.row + 1,col := 0} := by
      unfold drawFeed
      rw [if_neg (not_not_intro none)]
    rw [same]
    refine ⟨count,congrArg (· + 1) f.row,?_,?_,f.tag,plain.trans still.symm,?_,f.letters,
      f.printed.feed,fun some => absurd none some,Nat.zero_le _,fun right => absurd right (Nat.lt_irrefl 0),f.exact⟩
    · dsimp only
      rw [none]
      rfl
    · dsimp only
      rw [none]
      rfl
    · exact f.places.trans white.symm
  · have start : s.col = 0 := by
      have length := List.length_pos_of_ne_nil none
      rw [← f.word,← f.col] at fits
      omega
    have room := (f.pending none).2
    have same : drawFeed cols s =
        {s with puts := s.puts ++ line s.row 0 cols s.word,word := [],row := s.row + 1,col := 0} := by
      unfold drawFeed
      rw [if_pos none]
    rw [same]
    refine ⟨count,congrArg (· + 1) f.row,rfl,rfl,f.tag,plain.trans still.symm,?_,fun b none => (by cases none),?_,
      fun some => absurd rfl some,Nat.zero_le _,fun right => absurd right (Nat.lt_irrefl 0),f.exact⟩
    · dsimp only
      rw [List.map_nil,List.append_nil,f.put_places (by omega),white]
    · have printed := f.printed
      rw [start] at printed
      exact (printed.line low (by omega)).feed

/-- A word that is put takes columns that are free. -/
theorem Follows.put_printed (f : Follows cols rows read s t) (low : s.row < rows)
    (fits : s.col + s.word.length ≤ cols) :
    Printed cols rows s.row (s.col + s.word.length) (s.putWord cols).puts :=
  f.printed.line low fits

theorem Follows.put_begun (f : Follows cols rows read s t) (small : cols < 2^32)
    (some : s.word ≠ []) (fits : s.col + s.word.length ≤ cols) :
    ∃ p ∈ (s.putWord cols).puts, p.row = s.row := by
  have length := List.length_pos_of_ne_nil some
  obtain ⟨p,put,row,-⟩ := @line_first s.row s.col (sub32 cols s.col) _ some f.letters
    (by rw [sub32_le (by omega) small]; omega)
  exact ⟨p,List.mem_append_right _ put,row⟩

theorem Follows.put_exact (f : Follows cols rows read s t) : ∀ col ∈ (s.putWord cols).taken, col ≤ cols := by
  intro col took
  rcases List.mem_append.mp took with old | new
  · exact f.exact col old
  · rw [List.mem_singleton.mp new]
    exact f.room

theorem drawBlank_follows (f : Follows cols rows read s t) (small : cols < 2^32)
    (plain : s.inTag = false) (white : c = 0x20 ∨ c = 0x09) :
    Follows cols rows (read ++ [c]) {drawBlank cols rows s with i := s.i + 1}
      (if t.word = 0 then t else {t with col := t.col + 1,word := 0}) := by
  have text : tagged false read = false := f.within.symm.trans plain
  have seen : visible false 0 (read ++ [c]) = visible false 0 read := by
    apply visible_skip (.inr (.inr _))
    rcases white with rfl | rfl <;> rfl
  have bracket : c ≠ 0x3C := by rcases white with rfl | rfl <;> decide
  have still : tagged false (read ++ [c]) = false := tagged_text bracket text
  have count : s.i + 1 = (read ++ [c]).length := by rw [List.length_append,f.count]; rfl
  by_cases none : s.word = []
  · have empty : t.word = 0 := by rw [← f.word,none]; rfl
    have same : drawBlank cols rows s = s := by
      unfold drawBlank
      rw [if_pos none]
    rw [same,if_pos empty]
    exact {f with
      count := count
      within := plain.trans still.symm
      places := f.places.trans seen.symm}
  · obtain ⟨low,fits⟩ := f.pending none
    have some : t.word ≠ 0 := by
      have length := List.length_pos_of_ne_nil none
      rw [← f.word]
      omega
    have same : drawBlank cols rows s =
        {s.putWord cols with col := s.col + s.word.length + 1,word := []} := by
      unfold drawBlank
      rw [if_neg none]
      dsimp only
      rw [width_letters f.letters,if_neg (Nat.not_lt_of_le (Nat.le_of_lt fits)),if_pos low]
    rw [same,if_neg some]
    exact {
      count := count
      row := f.row
      col := congrArg (· + 1) f.col
      word := rfl
      tag := f.tag
      within := plain.trans still.symm
      places := by
        dsimp only [Pen.putWord]
        rw [List.map_nil,List.append_nil,seen]
        exact f.put_places (by rw [sub32_le f.room small]; omega)
      letters := fun b none => by cases none
      printed := (f.put_printed low (by omega)).right
      pending := fun some => absurd rfl some
      room := fits
      begun := fun _ => f.put_begun small none (by omega)
      exact := f.put_exact}

theorem Follows.letter (f : Follows cols rows read s t) (plain : s.inTag = false) (text : c ≠ 0x3C)
    (letter : blank c = false) (some : c ≠ 0) :
    (s.puts.map Put.place ++ (s.word ++ [(s.i,c)]).map Prod.fst = visible false 0 (read ++ [c])) ∧
      (∀ b ∈ s.word ++ [(s.i,c)], b.2 ≠ 0) ∧ tagged false (read ++ [c]) = false := by
  have still : tagged false read = false := f.within.symm.trans plain
  refine ⟨?_,?_,tagged_text text still⟩
  · rw [visible_letter text still letter,List.map_append,← List.append_assoc,f.places,f.count]
    rfl
  · intro b among
    rcases List.mem_append.mp among with old | new
    · exact f.letters b old
    · rw [List.mem_singleton.mp new]
      exact some

theorem drawLetter_follows (f : Follows cols rows read s t) (small : cols < 2^32) (low : s.row < rows)
    (plain : s.inTag = false) (text : c ≠ 0x3C) (letter : blank c = false)
    (column : t.col < cols) (short : t.word < wordSize) (some : c ≠ 0) :
    Follows cols rows (read ++ [c]) {drawLetter cols rows s c with i := s.i + 1}
      (if t.col + 1 = cols then {t with row := t.row + 1,col := 0,word := 0}
        else {t with col := t.col + 1,word := t.word + 1}) := by
  obtain ⟨places,letters,still⟩ := f.letter plain text letter some
  have count : s.i + 1 = (read ++ [c]).length := by rw [List.length_append,f.count]; rfl
  have length : (s.word ++ [(s.i,c)]).length = s.word.length + 1 := by rw [List.length_append]; rfl
  have longer : drawLetter cols rows s c =
      if t.col + 1 = cols then
        {({s with word := s.word ++ [(s.i,c)]} : Pen).putWord cols with col := 0,word := [],row := s.row + 1}
      else {s with word := s.word ++ [(s.i,c)]} := by
    have free : s.word.length < wordSize := f.word ▸ short
    unfold drawLetter
    simp only [if_pos free,length,if_pos low,← Nat.add_assoc,f.col]
    by_cases last : t.col + 1 = cols
    · rw [if_pos (Nat.le_of_eq last.symm),if_pos last]
      rfl
    · rw [if_neg (by omega),if_neg last]
  have fits : s.col + (s.word.length + 1) ≤ cols := by
    have := f.col
    omega
  rw [longer]
  split
  next last =>
    exact {
      count := count
      row := congrArg (· + 1) f.row
      col := rfl
      word := rfl
      tag := f.tag
      within := plain.trans still.symm
      places := by
        dsimp only [Pen.putWord]
        rw [List.map_nil,List.append_nil,List.map_append,
          line_places letters (by rw [length,sub32_le f.room small]; omega),places]
      letters := fun b none => by cases none
      printed := (f.printed.line low (by rw [length]; exact fits)).feed
      pending := fun some => absurd rfl some
      room := Nat.zero_le _
      begun := fun right => absurd right (Nat.lt_irrefl 0)
      exact := f.put_exact}
  next more =>
    exact {f with
      count := count
      col := by dsimp only; rw [length,← Nat.add_assoc,f.col]
      word := by dsimp only; rw [length,f.word]
      within := plain.trans still.symm
      places := places
      letters := letters
      pending := fun _ => ⟨low,by
        dsimp only
        rw [length]
        have := f.col
        omega⟩}

theorem drawChar_follows (f : Follows cols rows read s t) (small : cols < 2^32) (low : s.row < rows)
    (fits : t.Fits cols c) :
    Follows cols rows (read ++ [c]) {drawChar cols rows s c with i := s.i + 1} (t.type cols c) := by
  have count : s.i + 1 = (read ++ [c]).length := by rw [List.length_append,f.count]; rfl
  unfold drawChar Carriage.type
  by_cases bracket : c = 0x3C
  · rw [if_pos bracket,if_pos bracket]
    exact {f with
      count := count
      tag := rfl
      within := by rw [tagged_append,bracket]; rfl
      places := f.places.trans (visible_skip (.inl bracket)).symm}
  rw [if_neg bracket,if_neg bracket]
  by_cases tag : s.inTag = true
  · have inside : tagged false read = true := f.within.symm.trans tag
    have ends : tagged false (read ++ [c]) = (c != 0x3E) := by
      rw [tagged_append,inside,tagged,tagged,if_neg bracket,if_pos rfl]
    have seen := f.places.trans (visible_skip (c := c) (.inr (.inl inside))).symm
    rw [if_pos tag,if_pos (f.tag.symm.trans tag)]
    by_cases close : c = 0x3E
    · rw [if_pos close]
      exact {f with
        count := count
        tag := by simp [close]
        within := by rw [ends]; simp [close]
        places := seen}
    · rw [if_neg close]
      have still : s.inTag = (c != 0x3E) := by rw [tag,bne_iff_ne.mpr close]
      exact {f with
        count := count
        tag := still
        within := still.trans ends.symm
        places := seen}
  rw [if_neg tag,if_neg fun inside => tag (f.tag.trans inside)]
  have plain : s.inTag = false := by simpa using tag
  have text : tagged false (read ++ [c]) = false := tagged_text bracket (f.within.symm.trans plain)
  by_cases ret : c = 0x0D
  · rw [if_pos ret,if_pos ret]
    exact {f with
      count := count
      within := plain.trans text.symm
      places := f.places.trans (visible_skip (.inr (.inr (by rw [ret]; rfl)))).symm}
  rw [if_neg ret,if_neg ret]
  have rest : if c = 0x0A then t.word = 0 ∨ t.word = t.col
      else c = 0x20 ∨ c = 0x09 ∨ t.col < cols ∧ t.word < wordSize ∧ c ≠ 0 := by
    rcases fits with bracket' | tag' | ret' | rest
    · exact absurd bracket' bracket
    · exact absurd (f.tag.trans tag') tag
    · exact absurd ret' ret
    · exact rest
  by_cases feed : c = 0x0A
  · subst feed
    rw [if_pos rfl] at rest
    rw [if_pos rfl,if_pos rfl]
    exact drawFeed_follows f low plain rest
  rw [if_neg feed] at rest
  rw [if_neg feed,if_neg feed]
  by_cases white : c = 0x20 ∨ c = 0x09
  · rw [if_pos white,if_pos white]
    exact drawBlank_follows f small plain white
  rw [if_neg white,if_neg white]
  obtain ⟨column,short,some⟩ : t.col < cols ∧ t.word < wordSize ∧ c ≠ 0 := by
    rcases rest with space | tab | letter
    · exact absurd (.inl space) white
    · exact absurd (.inr tab) white
    · exact letter
  have letter : blank c = false := by
    obtain ⟨space,tab⟩ := not_or.mp white
    unfold blank
    rw [beq_false_of_ne space,beq_false_of_ne tab,beq_false_of_ne feed,beq_false_of_ne ret]
    rfl
  exact drawLetter_follows f small low plain bracket letter column short some

end Step

/-- A letter that was read and is not to be put any more. -/
structure Lost (read : List Byte) (s : Pen) (i : Nat) : Prop where
  seen : i ∈ visible false 0 read
  past : i < s.i
  absent : ∀ p ∈ s.puts, p.place ≠ i
  never : ∀ b ∈ s.word, b.1 = i → b.2 = 0

/-- Two characters are out of their order, or one is lost. -/
def Spoilt (read : List Byte) (s : Pen) : Prop := ¬s.puts.Pairwise Put.Before ∨ ∃ i, Lost read s i

/-- What is added on the screen and to the word: the character that is read and the letters of the
word. -/
structure Extends (s after : Pen) : Prop where
  puts : ∃ more, after.puts = s.puts ++ more ∧
    ∀ p ∈ more, p.place = s.i ∨ ∃ b ∈ s.word, b.1 = p.place ∧ b.2 ≠ 0
  word : ∀ b ∈ after.word, b.1 = s.i ∨ b ∈ s.word

section Spoiling
variable {cols rows : Nat} {read : List Byte} {s : Pen} {t : Carriage} {c : Byte}

theorem Extends.still {after : Pen} (puts : after.puts = s.puts)
    (word : ∀ b ∈ after.word, b.1 = s.i ∨ b ∈ s.word) : Extends s after where
  puts := ⟨[],puts.trans (List.append_nil _).symm,fun _ none => by cases none⟩
  word := word

theorem Extends.refl (s : Pen) : Extends s s := .still rfl fun _ among => .inr among

/-- A part of the word, with the character that is read, is put. -/
theorem Extends.put {after : Pen} {row col max : Nat} {word : List (Nat × Byte)}
    (put : after.puts = s.puts ++ line row col max word) (kept : ∀ b ∈ after.word, b.1 = s.i ∨ b ∈ s.word)
    (source : ∀ b ∈ word, b.1 = s.i ∨ b ∈ s.word) : Extends s after where
  puts := by
    refine ⟨_,put,fun p new => ?_⟩
    obtain ⟨-,-,-,-,b,among,place,letter⟩ := line_cells new
    rcases source b among with last | word
    · exact .inl (place ▸ last)
    · exact .inr ⟨b,word,place,letter⟩
  word := kept

theorem drawFeed_extends : Extends s (drawFeed cols s) := by
  unfold drawFeed
  split
  · exact .put rfl (fun _ none => by cases none) fun b word => .inr word
  · exact .still rfl fun b word => .inr word

theorem drawBlank_extends : Extends s (drawBlank cols rows s) := by
  unfold drawBlank
  dsimp only
  split
  · exact .refl s
  · split <;> split
    · exact .put rfl (fun _ none => by cases none) fun b word => .inr word
    · exact .still rfl fun _ none => by cases none
    · exact .put rfl (fun _ none => by cases none) fun b word => .inr word
    · exact .still rfl fun _ none => by cases none

theorem drawLetter_extends : Extends s (drawLetter cols rows s c) := by
  have longer : ∀ b ∈ s.word ++ [(s.i,c)], b.1 = s.i ∨ b ∈ s.word := by
    intro b among
    rcases List.mem_append.mp among with old | new
    · exact .inr old
    · exact .inl (by rw [List.mem_singleton.mp new])
  unfold drawLetter
  dsimp only
  split
  · split
    · split
      · exact .put rfl (fun _ none => by cases none) longer
      · exact .still rfl fun _ none => by cases none
    · exact .still rfl longer
  · split
    · split
      · exact .put rfl (fun _ none => by cases none) fun b word => .inr word
      · exact .still rfl fun _ none => by cases none
    · exact .refl s

theorem drawChar_extends : Extends s (drawChar cols rows s c) := by
  unfold drawChar
  split
  · exact .still rfl fun b word => .inr word
  · split
    · split
      · exact .still rfl fun b word => .inr word
      · exact .refl s
    · split
      · exact .refl s
      · split
        · exact drawFeed_extends
        · split
          · exact drawBlank_extends
          · exact drawLetter_extends

theorem Spoilt.extend {after : Pen} (spoilt : Spoilt read s) (step : Extends s after) (more : List Byte)
    {i : Nat} (le : s.i ≤ i) : Spoilt (read ++ more) {after with i := i} := by
  obtain ⟨new,puts,source⟩ := step.puts
  rcases spoilt with disorder | ⟨j,lost⟩
  · refine .inl fun ordered => disorder ?_
    dsimp only at ordered
    rw [puts] at ordered
    exact (List.pairwise_append.mp ordered).1
  · refine .inr ⟨j,?_,Nat.lt_of_lt_of_le lost.past le,?_,?_⟩
    · rw [visible_append]
      exact List.mem_append_left _ lost.seen
    · intro p put same
      dsimp only at put
      rw [puts] at put
      rcases List.mem_append.mp put with old | late
      · exact lost.absent p old same
      · rcases source p late with last | ⟨b,word,place,letter⟩
        · exact absurd lost.past (by omega)
        · exact letter (lost.never b word (place.trans same))
    · intro b among same
      rcases step.word b among with last | word
      · exact absurd lost.past (by omega)
      · exact lost.never b word same

theorem drawFeed_spoils (f : Follows cols rows read s t) (some : t.word ≠ 0) (later : t.word ≠ t.col) :
    ¬(drawFeed cols s).puts.Pairwise Put.Before := by
  have word : s.word ≠ [] := by
    intro none
    rw [← f.word,none] at some
    exact some rfl
  have right : 0 < s.col := by
    have := f.word
    have := f.col
    omega
  obtain ⟨p,old,above⟩ := f.begun right
  obtain ⟨q,new,row,col⟩ := @line_first s.row 0 cols _ word f.letters
    (by have := f.room; omega)
  unfold drawFeed
  rw [if_pos word]
  intro ordered
  rcases (List.pairwise_append.mp ordered).2.2 p old q new with before | ⟨-,before⟩
  · omega
  · omega

theorem drawLetter_loses (f : Follows cols rows read s t) (small : cols < 2^32)
    (bad : ¬(t.col < cols ∧ t.word < wordSize ∧ c ≠ 0)) :
    (∀ p ∈ (drawLetter cols rows s c).puts, p.place ≠ s.i) ∧
      ∀ b ∈ (drawLetter cols rows s c).word, b.1 = s.i → b.2 = 0 := by
  have old : ∀ p ∈ s.puts, p.place ≠ s.i := by
    intro p put same
    have := f.unread (List.mem_append_left _ (List.mem_map_of_mem put))
    omega
  have earlier : ∀ b ∈ s.word, b.1 ≠ s.i := by
    intro b among same
    have := f.unread (List.mem_append_right _ (List.mem_map_of_mem among))
    omega
  by_cases edge : cols ≤ t.col
  · -- The pen is at the edge, and no column is left for the letter.
    have none : s.word = [] := by
      by_contra some
      have := (f.pending some).2
      have := f.col
      omega
    have here : s.col = cols := by
      have col := f.col
      have room := f.room
      rw [none] at col
      exact Nat.le_antisymm room (by simpa using edge.trans (Nat.le_of_eq col.symm))
    have full : line s.row s.col (sub32 cols s.col) (s.word ++ [(s.i,c)]) = [] := by
      rw [here,sub32_le (Nat.le_refl _) small,Nat.sub_self,line]
    have free : s.word.length < wordSize := by
      rw [none]
      exact Nat.succ_pos 126
    unfold drawLetter
    simp only [if_pos free]
    rw [if_pos (by rw [here]; exact Nat.le_add_right _ _)]
    refine ⟨?_,fun b none => by cases none⟩
    split
    · dsimp only [Pen.putWord]
      rw [full,List.append_nil]
      exact old
    · exact old
  by_cases long : wordSize ≤ t.word
  · have full : ¬s.word.length < wordSize := by
      rw [f.word]
      omega
    have below : ¬s.col + s.word.length ≥ cols := by
      rw [f.col]
      omega
    unfold drawLetter
    simp only [if_neg full,if_neg below]
    exact ⟨old,fun b among same => absurd same (earlier b among)⟩
  · have zero : c = 0 := by
      by_contra some
      exact bad ⟨by omega,by omega,some⟩
    have letters : ∀ b ∈ s.word ++ [(s.i,c)], b.1 = s.i → b.2 = 0 := by
      intro b among same
      rcases List.mem_append.mp among with word | last
      · exact absurd same (earlier b word)
      · rw [List.mem_singleton.mp last]
        exact zero
    have free : s.word.length < wordSize := by
      rw [f.word]
      omega
    unfold drawLetter
    simp only [if_pos free]
    split
    · refine ⟨?_,fun b none => by cases none⟩
      split
      · intro p put same
        rcases List.mem_append.mp put with before | new
        · exact old p before same
        · obtain ⟨-,-,-,-,b,among,place,letter⟩ := line_cells new
          exact letter (letters b among (place.trans same))
      · exact old
    · exact ⟨old,letters⟩

/-- A character that does not fit spoils the screen. -/
theorem drawChar_spoils (f : Follows cols rows read s t) (small : cols < 2^32) (bad : ¬t.Fits cols c) :
    Spoilt (read ++ [c]) {drawChar cols rows s c with i := s.i + 1} := by
  obtain ⟨bracket,bad⟩ := not_or.mp bad
  obtain ⟨tag,bad⟩ := not_or.mp bad
  obtain ⟨ret,bad⟩ := not_or.mp bad
  have inside : ¬s.inTag = true := fun tagged => tag (f.tag.symm.trans tagged)
  have plain : tagged false read = false := f.within.symm.trans (by simpa using inside)
  unfold drawChar
  rw [if_neg bracket,if_neg inside,if_neg ret]
  by_cases feed : c = 0x0A
  · rw [if_pos feed] at bad
    obtain ⟨some,later⟩ := not_or.mp bad
    rw [if_pos feed]
    exact .inl (drawFeed_spoils f some later)
  rw [if_neg feed] at bad
  obtain ⟨space,bad⟩ := not_or.mp bad
  obtain ⟨tab,bad⟩ := not_or.mp bad
  rw [if_neg feed,if_neg (not_or.mpr ⟨space,tab⟩)]
  have letter : blank c = false := by
    unfold blank
    rw [beq_false_of_ne space,beq_false_of_ne tab,beq_false_of_ne feed,beq_false_of_ne ret]
    rfl
  obtain ⟨absent,never⟩ := @drawLetter_loses _ rows _ _ _ _ f small bad
  refine .inr ⟨s.i,?_,Nat.lt_succ_self _,absent,never⟩
  rw [visible_letter bracket plain letter,f.count]
  exact List.mem_append_right _ (List.mem_singleton_self _)

end Spoiling

section Page
variable {cols rows : Nat} {read rest : List Byte} {s : Pen} {t : Carriage}

theorem drawChars_follows (small : cols < 2^32) (f : Follows cols rows read s t)
    (neat : Neat cols rows t rest) :
    ∃ more left carriage, rest = more ++ left ∧
      Follows cols rows (read ++ more) (drawChars cols rows s rest) carriage ∧
      (left = [] ∨ rows ≤ (drawChars cols rows s rest).row) := by
  induction rest generalizing read s t with
  | nil => exact ⟨[],[],t,rfl,(List.append_nil read).symm ▸ f,.inl rfl⟩
  | cons c rest ih =>
    rw [drawChars]
    by_cases low : s.row < rows
    · obtain ⟨fits,neat⟩ := neat (f.row ▸ low)
      obtain ⟨more,left,carriage,split,followed,ended⟩ := ih (drawChar_follows f small low fits) neat
      rw [List.append_assoc,List.singleton_append] at followed
      rw [if_pos low]
      exact ⟨c::more,left,carriage,by rw [split]; rfl,followed,ended⟩
    · rw [if_neg low]
      exact ⟨[],c::rest,t,rfl,(List.append_nil read).symm ▸ f,.inr (by omega)⟩

theorem drawChars_spoilt (spoilt : Spoilt read s) (count : s.i = read.length) :
    ∃ more left, rest = more ++ left ∧ Spoilt (read ++ more) (drawChars cols rows s rest) ∧
      (drawChars cols rows s rest).i = (read ++ more).length := by
  induction rest generalizing read s with
  | nil => exact ⟨[],[],rfl,(List.append_nil read).symm ▸ spoilt,(List.append_nil read).symm ▸ count⟩
  | cons c rest ih =>
    rw [drawChars]
    by_cases low : s.row < rows
    · obtain ⟨more,left,split,spoilt,count⟩ := @ih (read ++ [c]) _
        (spoilt.extend (@drawChar_extends cols rows _ c) [c] (Nat.le_succ _))
        (by rw [List.length_append,← count]; rfl)
      rw [List.append_assoc,List.singleton_append] at spoilt count
      rw [if_pos low]
      exact ⟨c::more,left,by rw [split]; rfl,spoilt,count⟩
    · rw [if_neg low]
      exact ⟨[],c::rest,rfl,(List.append_nil read).symm ▸ spoilt,(List.append_nil read).symm ▸ count⟩

theorem drawChars_spoils (small : cols < 2^32) (f : Follows cols rows read s t)
    (bad : ¬Neat cols rows t rest) :
    ∃ more left, rest = more ++ left ∧ Spoilt (read ++ more) (drawChars cols rows s rest) ∧
      (drawChars cols rows s rest).i = (read ++ more).length := by
  induction rest generalizing read s t with
  | nil => exact absurd trivial bad
  | cons c rest ih =>
    obtain ⟨low,bad⟩ : t.row < rows ∧ ¬(t.Fits cols c ∧ Neat cols rows (t.type cols c) rest) := by
      rw [Neat] at bad
      exact Classical.not_imp.mp bad
    have low := f.row.symm ▸ low
    obtain ⟨more,left,split,spoilt,count⟩ : ∃ more left, rest = more ++ left ∧
        Spoilt (read ++ [c] ++ more) (drawChars cols rows {drawChar cols rows s c with i := s.i + 1} rest) ∧
        (drawChars cols rows {drawChar cols rows s c with i := s.i + 1} rest).i = (read ++ [c] ++ more).length := by
      by_cases fits : t.Fits cols c
      · exact ih (drawChar_follows f small low fits) fun neat => bad ⟨fits,neat⟩
      · apply drawChars_spoilt (drawChar_spoils f small fits)
        rw [List.length_append,← f.count]
        rfl
    rw [List.append_assoc,List.singleton_append] at spoilt count
    rw [drawChars,if_pos low]
    exact ⟨c::more,left,by rw [split]; rfl,spoilt,count⟩

end Page

theorem blank_follows (cols rows : Nat) :
    Follows cols rows [] ⟨0,0,0,false,[],[],[]⟩ ⟨0,0,0,false⟩ where
  count := rfl
  row := rfl
  col := rfl
  word := rfl
  tag := rfl
  within := rfl
  places := rfl
  letters := fun b none => by cases none
  printed := {
    inside := fun p none => by cases none
    ordered := .nil
    behind := fun p none => by cases none}
  pending := fun some => absurd rfl some
  room := Nat.zero_le _
  begun := fun right => absurd right (Nat.lt_irrefl 0)
  exact := fun col none => by cases none

theorem maxcols_small (w : BitVec 32) : maxcols w < 2^32 := by
  have bound := w.isLt
  unfold maxcols
  split <;> omega

theorem lastWord_spoilt {cols rows : Nat} {read : List Byte} {s : Pen} (spoilt : Spoilt read s) :
    Spoilt read (if s.word ≠ [] ∧ s.row < rows then s.putWord cols else s) := by
  split
  · have step : Extends s (s.putWord cols) :=
      .put rfl (fun b word => .inr word) fun b word => .inr word
    rw [← List.append_nil read]
    exact spoilt.extend step [] (Nat.le_refl _)
  · exact spoilt

theorem lastWord_laidOut {cols rows : Nat} {page : List Byte} {s : Pen} {t : Carriage}
    (small : cols < 2^32) (f : Follows cols rows (page.take s.i) s t)
    (ended : page.length ≤ s.i ∨ rows ≤ s.row) :
    LaidOut cols rows page (if s.word ≠ [] ∧ s.row < rows then s.putWord cols else s) := by
  split
  next pending =>
    obtain ⟨low,fits⟩ := f.pending pending.1
    have printed := f.put_printed low (Nat.le_of_lt fits)
    exact {
      each := f.put_places (by rw [sub32_le f.room small]; omega)
      inside := printed.inside
      ordered := printed.ordered
      exact := f.put_exact
      whole := ended}
  next done =>
    have none : s.word = [] := by
      by_contra some
      exact done ⟨some,(f.pending some).1⟩
    have places := f.places
    rw [none,List.map_nil,List.append_nil] at places
    exact {
      each := places
      inside := f.printed.inside
      ordered := f.printed.ordered
      exact := f.exact
      whole := ended}

theorem lastWord_read {cols rows : Nat} {s : Pen} :
    (if s.word ≠ [] ∧ s.row < rows then s.putWord cols else s).i = s.i := by
  split <;> rfl

/-- The page is laid out, as far as the rows go, just where it fits. -/
theorem drawPage_laidOut_iff (w h : BitVec 32) (page : List Byte) :
    LaidOut (maxcols w) (maxrows h) page (drawPage w h page) ↔
      Neat (maxcols w) (maxrows h) ⟨0,0,0,false⟩ page := by
  have small := maxcols_small w
  have start := blank_follows (maxcols w) (maxrows h)
  constructor
  · intro laid
    by_contra bad
    obtain ⟨more,left,rfl,spoilt,count⟩ := drawChars_spoils small start bad
    have each := laid.each
    rcases lastWord_spoilt spoilt with disorder | ⟨i,lost⟩
    · exact disorder laid.ordered
    · have put := lost.seen
      rw [show (drawPage w h (more ++ left)).i = more.length from lastWord_read.trans count,
        List.take_left] at each
      rw [List.nil_append,← each] at put
      obtain ⟨p,put,place⟩ := List.mem_map.mp put
      exact lost.absent p put place
  · intro neat
    obtain ⟨more,left,t,rfl,f,ended⟩ := drawChars_follows small start neat
    have count := f.count
    rw [List.nil_append] at f count
    refine lastWord_laidOut small (t := t) ?_ (ended.imp_left fun none => ?_)
    · rw [count,List.take_left]
      exact f
    · rw [count,none,List.append_nil]

instance : DecidableRel Put.Before := fun p q =>
  inferInstanceAs (Decidable (p.row < q.row ∨ p.row = q.row ∧ p.col < q.col))

/-- Two words on a line that ends in a line feed are put over each other. -/
theorem words_overprinted : ¬∀ (w h : BitVec 32) (page : List Byte),
    LaidOut (maxcols w) (maxrows h) page (drawPage w h page) := by
  intro all
  have laid := all 764 476 [0x61,0x20,0x62,0x0A]
  exact absurd laid.ordered (by decide)

end LionOS.Desktop

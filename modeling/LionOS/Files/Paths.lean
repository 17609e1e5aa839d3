import LionOS.Files.Names

/-! The loop of `path_normalize` over its buffer, and paths as stacks of components. -/
namespace LionOS.Files
open LionOS.Physical

/-- `dst` and `out`. -/
structure Draft where
  dst : Nat → Byte
  out : Nat

def Draft.put (d : Draft) (c : Byte) : Draft := ⟨Function.update d.dst d.out c,d.out + 1⟩

def Draft.terminate (d : Draft) : Draft := {d with dst := Function.update d.dst d.out 0}

/-- The loop that goes back behind the last slash. -/
def slashBefore (dst : Nat → Byte) : Nat → Nat
  | 0 => 0
  | out+1 => if dst out ≠ slash then slashBefore dst out else out + 1

def Draft.pop (d : Draft) : Draft :=
  let out := slashBefore d.dst d.out
  Draft.terminate ⟨d.dst,if out ≠ 0 then out - 1 else out⟩

def Draft.append (d : Draft) (part : List Byte) : Option Draft :=
  if d.out ≠ 0 ∧ d.out + 1 ≥ vfsPathMax then none
  else
    let d := if d.out ≠ 0 then d.put slash else d
    if d.out + part.length ≥ vfsPathMax then none else some (part.foldl Draft.put d).terminate

def Draft.component (d : Draft) (part : List Byte) : Option Draft :=
  if part.length = 1 ∧ part.getD 0 0 = dot then some d
  else if part.length = 2 ∧ part.getD 0 0 = dot ∧ part.getD 1 0 = dot then some d.pop
  else d.append part

/-- What is left of the string where the slashes end. -/
def skipSlashes : List Byte → List Byte
  | [] => []
  | c::rest => if c = slash then skipSlashes rest else c::rest

/-- The loop that counts the characters of a component, and what is left behind it. -/
def countComponent (len : Nat) : List Byte → Option (Nat × List Byte)
  | [] => some (len,[])
  | c::rest =>
    if c = slash then some (len,c::rest)
    else if len + 1 ≥ vfsPathMax then none
    else countComponent (len + 1) rest

theorem skipSlashes_eq (src : List Byte) : skipSlashes src = src.dropWhile (· = slash) := by
  induction src with
  | nil => rfl
  | cons c rest ih =>
    rw [skipSlashes,List.dropWhile_cons]
    split
    · rw [if_pos (decide_eq_true ‹c = slash›)]
      exact ih
    · rw [if_neg (by simpa using ‹¬c = slash›)]

/-- The component at the start of a string, and the string behind it. -/
def firstPart (src : List Byte) : List Byte := src.takeWhile (· ≠ slash)
def behindPart (src : List Byte) : List Byte := src.dropWhile (· ≠ slash)

theorem countComponent_eq (len : Nat) (short : len < vfsPathMax) (src : List Byte) :
    countComponent len src =
      if len + (firstPart src).length < vfsPathMax then some (len + (firstPart src).length,behindPart src) else none := by
  induction src generalizing len with
  | nil => exact (if_pos short).symm
  | cons c rest ih =>
    rw [countComponent,firstPart,behindPart,List.takeWhile_cons,List.dropWhile_cons]
    by_cases slashed : c = slash
    · have stop : decide (c ≠ slash) = false := by simpa using slashed
      rw [if_pos slashed,stop,if_neg Bool.false_ne_true,if_neg Bool.false_ne_true]
      exact (if_pos short).symm
    · have goes : decide (c ≠ slash) = true := by simpa using slashed
      rw [if_neg slashed,goes,if_pos rfl,if_pos rfl,List.length_cons]
      by_cases long : len + 1 ≥ vfsPathMax
      · rw [if_pos long,if_neg (by omega)]
      · rw [if_neg long,ih (len + 1) (by omega)]
        have moved : len + 1 + (firstPart rest).length = len + ((rest.takeWhile fun c => decide (c ≠ slash)).length + 1) := by
          unfold firstPart
          omega
        rw [moved]
        rfl

theorem behindPart_shorter {c : Byte} {rest : List Byte} (plain : c ≠ slash) :
    (behindPart (c::rest)).length < (c::rest).length := by
  unfold behindPart
  rw [List.dropWhile_cons,if_pos (by simpa using plain),List.length_cons]
  exact Nat.lt_succ_of_le (List.dropWhile_suffix _).length_le

theorem skipSlashes_plain {src tail : List Byte} {c : Byte} (skipped : skipSlashes src = c::tail) : c ≠ slash := by
  induction src with
  | nil => cases skipped
  | cons b rest ih =>
    rw [skipSlashes] at skipped
    split at skipped
    · exact ih skipped
    · cases skipped
      assumption

theorem skipSlashes_length (src : List Byte) : (skipSlashes src).length ≤ src.length := by
  rw [skipSlashes_eq]
  exact (List.dropWhile_suffix _).length_le

theorem countComponent_rest {src rest : List Byte} {len : Nat} (counted : countComponent 0 src = some (len,rest)) :
    len = (firstPart src).length ∧ rest = behindPart src ∧ len < vfsPathMax := by
  rw [countComponent_eq 0 (by decide) src,Nat.zero_add] at counted
  split at counted
  · cases counted
    exact ⟨rfl,rfl,‹_›⟩
  · cases counted

/-- The outer loop on what is left of the string. -/
def normalizeLoop (d : Draft) (src : List Byte) : Option Draft :=
  match _skipped : skipSlashes src with
  | [] => some d
  | c::tail => match _counted : countComponent 0 (c::tail) with
    | none => none
    | some (len,rest) => match d.component ((c::tail).take len) with
      | none => none
      | some d => normalizeLoop d rest
termination_by src.length
decreasing_by
  have shorter := @behindPart_shorter c tail (skipSlashes_plain _skipped)
  have least := skipSlashes_length src
  rw [(countComponent_rest _counted).2.1]
  rw [_skipped] at least
  omega

/-- `path_normalize`; `none` is the result -1. -/
def normalizeInto (dst : Nat → Byte) (src : List Byte) : Option Draft :=
  let text := cstring src
  if text = [] then none
  else match normalizeLoop ⟨Function.update dst 0 0,0⟩ text with
    | none => none
    | some d => if d.out ≠ 0 then some d else none

def Draft.text (d : Draft) : List Byte := (List.range d.out).map d.dst

section Text
variable (d : Draft)

theorem text_length : d.text.length = d.out := by
  rw [Draft.text,List.length_map,List.length_range]

theorem text_empty : d.text = [] ↔ d.out = 0 := by
  rw [← List.length_eq_zero_iff,text_length]

theorem text_update (c : Byte) : (List.range d.out).map (Function.update d.dst d.out c) = d.text := by
  refine List.map_congr_left fun i member => ?_
  exact Function.update_of_ne (Nat.ne_of_lt (List.mem_range.mp member)) c d.dst

theorem text_put (c : Byte) : (d.put c).text = d.text ++ [c] := by
  change (List.range (d.out + 1)).map (Function.update d.dst d.out c) = _
  rw [List.range_succ,List.map_append,text_update,List.map_singleton,Function.update_self]

theorem text_terminate : d.terminate.text = d.text := text_update d 0

theorem text_puts (part : List Byte) : (part.foldl Draft.put d).text = d.text ++ part := by
  induction part generalizing d with
  | nil => exact (List.append_nil _).symm
  | cons c rest ih => rw [List.foldl_cons,ih,text_put,List.append_assoc,List.singleton_append]

/-- Going back in the buffer is dropping characters from the end of the text. -/
theorem slashBefore_text (dst : Nat → Byte) (out : Nat) :
    ((List.range out).map dst).reverse.dropWhile (· ≠ slash) = ((List.range (slashBefore dst out)).map dst).reverse := by
  induction out with
  | zero => rfl
  | succ out ih =>
    rw [slashBefore,List.range_succ,List.map_append,List.reverse_append]
    change (dst out::((List.range out).map dst).reverse).dropWhile _ = _
    rw [List.dropWhile_cons]
    by_cases slashed : dst out = slash
    · rw [if_neg (by simpa using slashed),if_neg (not_not.mpr slashed),List.range_succ,List.map_append,List.reverse_append]
      rfl
    · rw [if_pos (by simpa using slashed),if_pos slashed]
      exact ih

theorem text_pop : d.pop.text = popComponent d.text := by
  unfold Draft.pop popComponent
  rw [text_terminate,Draft.text,Draft.text,slashBefore_text]
  cases slashBefore d.dst d.out with
  | zero => rfl
  | succ out =>
    rw [List.range_succ,List.map_append,List.reverse_append]
    exact (List.reverse_reverse _).symm

theorem append_text (part : List Byte) : (d.append part).map Draft.text =
    if d.text = [] then if part.length ≥ vfsPathMax then none else some part
    else if d.text.length + 1 ≥ vfsPathMax then none
    else if d.text.length + 1 + part.length ≥ vfsPathMax then none
    else some (d.text ++ slash::part) := by
  unfold Draft.append
  rw [text_length]
  by_cases empty : d.out = 0
  · have nothing : d.text = [] := (text_empty d).mpr empty
    rw [if_neg fun started => started.1 empty,if_pos nothing,if_neg (not_not.mpr empty)]
    change Option.map _ (if d.out + part.length ≥ vfsPathMax then _ else _) = _
    rw [empty,Nat.zero_add]
    split
    · rfl
    · rw [Option.map_some,text_terminate,text_puts,nothing,List.nil_append]
  · rw [if_neg fun nothing => empty ((text_empty d).mp nothing),if_pos empty]
    by_cases full : d.out + 1 ≥ vfsPathMax
    · rw [if_pos ⟨empty,full⟩,if_pos full]
      rfl
    · rw [if_neg fun started => full started.2,if_neg full]
      change Option.map _ (if d.out + 1 + part.length ≥ vfsPathMax then _ else _) = _
      split
      · rfl
      · rw [Option.map_some,text_terminate,text_puts,text_put,List.append_assoc,List.singleton_append]

/-- A component changes the text as it does in the model over lists. -/
theorem component_text {part : List Byte} (short : part.length < vfsPathMax) :
    (d.component part).map Draft.text = addComponent d.text part := by
  unfold Draft.component addComponent
  rw [if_neg (Nat.not_le.mpr short)]
  match part with
  | [] => exact append_text d []
  | [a] =>
    by_cases single : a = dot
    · rw [if_pos ⟨rfl,single⟩,if_pos (congrArg (fun c => [c]) single)]
      rfl
    · rw [if_neg fun both => single both.2,if_neg fun pair => absurd pair.1 (by decide : ¬1 = 2),
        if_neg fun same => single (List.head_eq_of_cons_eq same),if_neg (by simp)]
      exact append_text d [a]
  | [a,b] =>
    rw [if_neg fun one => absurd one.1 (by decide : ¬2 = 1)]
    by_cases double : a = dot ∧ b = dot
    · obtain ⟨rfl,rfl⟩ := double
      rw [if_pos ⟨rfl,rfl,rfl⟩,if_neg (by simp),if_pos rfl,Option.map_some,text_pop]
    · rw [if_neg fun all => double all.2,if_neg (by simp),if_neg (by simpa using double)]
      exact append_text d [a,b]
  | a::b::c::rest =>
    rw [if_neg (by simp),if_neg (by simp),if_neg (by simp),if_neg (by simp)]
    exact append_text d (a::b::c::rest)

end Text

theorem components_slash (rest : List Byte) : components (slash::rest) = components rest := by
  unfold components
  have split : (slash::rest).splitOn slash = []::rest.splitOn slash := 
    @List.splitOn_append_cons_self_of_not_mem _ [] _ _ slash List.not_mem_nil rest
  rw [split]
  rfl

theorem components_skip (src : List Byte) : components (skipSlashes src) = components src := by
  induction src with
  | nil => rfl
  | cons c rest ih =>
    rw [skipSlashes]
    split
    next slashed => rw [ih,slashed,components_slash]
    next => rfl

theorem components_part {c : Byte} {tail : List Byte} (plain : c ≠ slash) :
    components (c::tail) = firstPart (c::tail)::components (behindPart (c::tail)) := by
  have parts : firstPart (c::tail) ++ behindPart (c::tail) = c::tail := List.takeWhile_append_dropWhile
  have whole : slash ∉ firstPart (c::tail) := fun member => by simpa using List.mem_takeWhile_imp member
  have filled : firstPart (c::tail) ≠ [] := by
    rw [firstPart,List.takeWhile_cons,if_pos (by simpa using plain)]
    exact List.cons_ne_nil _ _
  rcases behind : behindPart (c::tail) with _ | ⟨b,rest⟩
  · have single : components (firstPart (c::tail)) = [firstPart (c::tail)] := by
      rw [components,List.splitOn_eq_singleton whole,List.filter_singleton,decide_eq_true filled]
      rfl
    rw [behind,List.append_nil] at parts
    rw [parts] at single ⊢
    exact single
  · have slashed : b = slash := by
      have stop : (fun c => decide (c ≠ slash)) b = false := by
        have head := List.head?_dropWhile_not (fun c => decide (c ≠ slash)) (c::tail)
        rw [show (c::tail).dropWhile (fun c => decide (c ≠ slash)) = b::rest from behind] at head
        exact head
      simpa using stop
    rw [slashed,components_slash]
    rw [behind,slashed] at parts
    have cut : (c::tail).splitOn slash = firstPart (c::tail)::rest.splitOn slash := by
      conv_lhs => rw [← parts]
      exact List.splitOn_append_cons_self_of_not_mem whole rest
    rw [components,cut,List.filter_cons,if_pos (decide_eq_true filled)]
    rfl

theorem firstPart_take (src : List Byte) : src.take (firstPart src).length = firstPart src := by
  have parts : firstPart src ++ behindPart src = src := List.takeWhile_append_dropWhile
  have cut : (firstPart src ++ behindPart src).take (firstPart src).length = firstPart src := List.take_left
  rwa [parts] at cut

theorem addComponent_long {dst part : List Byte} (long : ¬part.length < vfsPathMax) : addComponent dst part = none :=
  if_pos (Nat.not_lt.mp long)

/-- The loop does to the text what the components of the string say. -/
theorem normalizeLoop_text (d : Draft) (src : List Byte) :
    (normalizeLoop d src).map Draft.text = (components src).foldlM addComponent d.text := by
  fun_induction normalizeLoop d src with
  | case1 d src skipped =>
    rw [← components_skip,skipped,components,List.splitOn_nil]
    rfl
  | case2 d src c tail skipped counted =>
    rw [countComponent_eq 0 (by decide),Nat.zero_add] at counted
    split at counted
    · cases counted
    next long =>
      rw [← components_skip,skipped,components_part (skipSlashes_plain skipped),List.foldlM_cons,addComponent_long long]
      rfl
  | case3 d src c tail skipped len rest counted refused =>
    obtain ⟨counts,_,short⟩ := countComponent_rest counted
    have part := component_text d (counts ▸ short : (firstPart (c::tail)).length < vfsPathMax)
    rw [counts,firstPart_take] at refused
    rw [refused] at part
    rw [← components_skip,skipped,components_part (skipSlashes_plain skipped),List.foldlM_cons,← part]
    rfl
  | case4 d src c tail skipped len rest counted d' made ih =>
    obtain ⟨counts,behind,short⟩ := countComponent_rest counted
    have part := component_text d (counts ▸ short : (firstPart (c::tail)).length < vfsPathMax)
    rw [counts,firstPart_take] at made
    rw [made] at part
    rw [ih,← components_skip src,skipped,components_part (skipSlashes_plain skipped),List.foldlM_cons,← part,behind]
    rfl

/-- `path_normalize` on its buffer computes what the model over lists says. -/
theorem normalizeInto_text (dst : Nat → Byte) (src : List Byte) : (normalizeInto dst src).map Draft.text = pathNormalize src := by
  unfold normalizeInto pathNormalize
  have loop := normalizeLoop_text ⟨Function.update dst 0 0,0⟩ (cstring src)
  change _ = (components (cstring src)).foldlM addComponent [] at loop
  rw [← loop]
  dsimp only
  split
  next empty =>
    rw [empty,normalizeLoop]
    rfl
  · cases normalizeLoop ⟨Function.update dst 0 0,0⟩ (cstring src) with
    | none => rfl
    | some d =>
      simp only [Option.map_some,text_empty]
      by_cases empty : d.out = 0
      · rw [if_pos empty,if_neg (not_not.mpr empty)]
        rfl
      · rw [if_neg empty,if_pos empty]
        rfl

theorem terminate_ends (d : Draft) : d.terminate.dst d.terminate.out = 0 := Function.update_self _ _ _

theorem component_ends {d d' : Draft} {part : List Byte} (ends : d.dst d.out = 0) (made : d.component part = some d') :
    d'.dst d'.out = 0 := by
  unfold Draft.component at made
  split at made
  · cases made
    exact ends
  split at made
  · cases made
    exact terminate_ends _
  unfold Draft.append at made
  split at made
  · cases made
  dsimp only at made
  generalize (if d.out ≠ 0 then d.put slash else d) = e at made
  split at made
  · cases made
  · cases made
    exact terminate_ends _

theorem normalizeLoop_ends {d d' : Draft} {src : List Byte} (ends : d.dst d.out = 0)
    (made : normalizeLoop d src = some d') : d'.dst d'.out = 0 := by
  fun_induction normalizeLoop d src with
  | case1 d src skipped =>
    cases made
    exact ends
  | case2 => cases made
  | case3 => cases made
  | case4 d src c tail skipped len rest counted next added ih => exact ih (component_ends ends added) made

theorem normalizeInto_ends {dst : Nat → Byte} {src : List Byte} {d : Draft} (made : normalizeInto dst src = some d) :
    d.dst d.out = 0 := by
  unfold normalizeInto at made
  dsimp only at made
  split at made
  · cases made
  split at made
  · cases made
  next loop =>
    split at made
    · cases made
      exact normalizeLoop_ends (Function.update_self 0 (0 : Byte) dst) loop
    · cases made

/-! A path names what is left on a stack when its components are taken one after the other. -/

def walk (stack : List (List Byte)) (part : List Byte) : List (List Byte) :=
  if part = [dot,dot] then stack.dropLast else stack ++ [part]

/-- The components that a path takes. -/
def taken (path : List Byte) : List (List Byte) := (path.splitOn slash).filter fun part => part ≠ [] ∧ part ≠ [dot]

def joined (stack : List (List Byte)) : List Byte := [slash].intercalate stack

def canonical (path : List Byte) : List Byte := joined ((taken path).foldl walk [])

/-- Every component and every path on the way is shorter than the buffer. -/
def Roomy (path : List Byte) : Prop :=
  (∀ part ∈ path.splitOn slash, part.length < vfsPathMax) ∧
    ∀ k, (joined (((taken path).take k).foldl walk [])).length < vfsPathMax

/-- A component that names something below. -/
structure Plain (part : List Byte) : Prop where
  filled : part ≠ []
  whole : slash ∉ part
  here : part ≠ [dot]
  up : part ≠ [dot,dot]

theorem joined_snoc {stack : List (List Byte)} (part : List Byte) (filled : stack ≠ []) :
    joined (stack ++ [part]) = joined stack ++ slash::part := by
  unfold joined
  induction stack with
  | nil => exact absurd rfl filled
  | cons first rest ih =>
    rcases rest with _ | ⟨second,rest⟩
    · rw [List.singleton_append,List.intercalate_cons_cons,List.intercalate_singleton,List.intercalate_singleton,
        List.append_assoc,List.singleton_append]
    · rw [List.cons_append,List.cons_append,List.intercalate_cons_cons,List.intercalate_cons_cons]
      have tail := ih (List.cons_ne_nil _ _)
      rw [List.cons_append] at tail
      rw [tail,List.append_assoc,List.append_assoc,List.append_assoc]

theorem joined_empty {stack : List (List Byte)} (plain : ∀ part ∈ stack, Plain part) : joined stack = [] ↔ stack = [] := by
  constructor
  · intro empty
    rcases stack with _ | ⟨first,rest⟩
    · rfl
    · have filled := (plain first List.mem_cons_self).filled
      rcases rest with _ | ⟨second,rest⟩
      · rw [joined,List.intercalate_singleton] at empty
        exact absurd empty filled
      · rw [joined,List.intercalate_cons_cons,List.append_assoc] at empty
        exact absurd (List.append_eq_nil_iff.mp empty).1 filled
  · intro empty
    rw [empty]
    rfl

/-- Dropping the text behind the last slash drops the last component. -/
theorem popComponent_joined {stack : List (List Byte)} (plain : ∀ part ∈ stack, Plain part) :
    popComponent (joined stack) = joined stack.dropLast := by
  rcases List.eq_nil_or_concat stack with rfl | ⟨front,part,rfl⟩
  · rfl
  · rw [List.concat_eq_append] at plain ⊢
    have whole : ∀ c ∈ part.reverse, (decide (c ≠ slash)) = true := by
      intro c member
      have last := (plain part (List.mem_append_right _ List.mem_cons_self)).whole
      exact decide_eq_true fun same => last (same ▸ List.mem_reverse.mp member)
    rw [List.dropLast_concat]
    unfold popComponent
    rcases front with _ | ⟨first,rest⟩
    · rw [List.nil_append,joined,List.intercalate_singleton,List.dropWhile_eq_nil_iff.mpr whole]
      rfl
    · rw [joined_snoc part (List.cons_ne_nil _ _),List.reverse_append,List.reverse_cons,List.append_assoc,
        List.dropWhile_append_of_pos whole,List.singleton_append,List.dropWhile_cons,
        if_neg (by simp)]
      exact List.reverse_reverse _

theorem joined_grows (stack more : List (List Byte)) : (joined stack).length ≤ (joined (stack ++ more)).length := by
  induction more using List.reverseRecOn with
  | nil => rw [List.append_nil]
  | append_singleton more part ih =>
    rw [← List.append_assoc]
    rcases empty : stack ++ more with _ | ⟨first,rest⟩
    · rw [empty] at ih
      exact Nat.le_trans ih (Nat.zero_le _)
    · rw [← empty,joined_snoc part (by rw [empty]; exact List.cons_ne_nil _ _),List.length_append]
      omega

theorem walk_plain {stack : List (List Byte)} {part : List Byte} (plain : ∀ part ∈ stack, Plain part)
    (filled : part ≠ []) (whole : slash ∉ part) (here : part ≠ [dot]) : ∀ other ∈ walk stack part, Plain other := by
  intro other member
  unfold walk at member
  split at member
  · exact plain other (List.dropLast_subset stack member)
  next up =>
    rcases List.mem_append.mp member with old | new
    · exact plain other old
    · have same : other = part := List.mem_singleton.mp new
      exact same ▸ ⟨filled,whole,here,up⟩

/-- A component changes the stack, and the text with it unless it grows too long. -/
theorem addComponent_joined {stack : List (List Byte)} {part : List Byte} (plain : ∀ part ∈ stack, Plain part)
    (room : (joined stack).length < vfsPathMax) (short : part.length < vfsPathMax) (here : part ≠ [dot]) :
    addComponent (joined stack) part =
      if (joined (walk stack part)).length < vfsPathMax then some (joined (walk stack part)) else none := by
  unfold addComponent walk
  rw [if_neg (Nat.not_le.mpr short),if_neg here]
  split
  · have shorter : (joined stack.dropLast).length ≤ (joined stack).length := by
      rcases List.eq_nil_or_concat stack with rfl | ⟨front,last,rfl⟩
      · exact Nat.le_refl _
      · rw [List.concat_eq_append,List.dropLast_concat]
        exact joined_grows front [last]
    rw [popComponent_joined plain,if_pos (Nat.lt_of_le_of_lt shorter room)]
  · by_cases empty : stack = []
    · have single : joined [part] = part := List.intercalate_singleton
      rw [if_pos ((joined_empty plain).mpr empty),if_neg (Nat.not_le.mpr short),empty,List.nil_append,single,if_pos short]
    · rw [if_neg fun none => empty ((joined_empty plain).mp none),joined_snoc part empty,List.length_append,List.length_cons]
      split
      · rw [if_neg (by omega)]
      split
      · rw [if_neg (by omega)]
      · rw [if_pos (by omega)]

/-- The components that count among those of a path. -/
def counting (parts : List (List Byte)) : List (List Byte) := parts.filter fun part => part ≠ [dot]

/-- Every component is short, and so is every path on the way from a stack. -/
def RoomyFrom (stack parts : List (List Byte)) : Prop :=
  (∀ part ∈ parts, part.length < vfsPathMax) ∧
    ∀ k, (joined (((counting parts).take k).foldl walk stack)).length < vfsPathMax

theorem roomyFrom_here {stack parts : List (List Byte)} :
    RoomyFrom stack ([dot]::parts) ↔ RoomyFrom stack parts := by
  unfold RoomyFrom
  rw [List.forall_mem_cons,and_iff_right (by decide : [dot].length < vfsPathMax)]
  rfl

theorem roomyFrom_step {stack parts : List (List Byte)} {part : List Byte} (here : part ≠ [dot]) :
    RoomyFrom stack (part::parts) ↔
      (joined stack).length < vfsPathMax ∧ part.length < vfsPathMax ∧ RoomyFrom (walk stack part) parts := by
  have counts : counting (part::parts) = part::counting parts := List.filter_cons_of_pos (decide_eq_true here)
  unfold RoomyFrom
  rw [List.forall_mem_cons,counts]
  constructor
  · intro ⟨⟨short,shorts⟩,room⟩
    exact ⟨room 0,short,shorts,fun k => room (k + 1)⟩
  · intro ⟨start,short,shorts,room⟩
    refine ⟨⟨short,shorts⟩,fun k => ?_⟩
    cases k with
    | zero => exact start
    | succ k => exact room k

/-- The components change the stack one after the other, as long as there is room. -/
theorem addComponents_joined {stack parts : List (List Byte)} (plain : ∀ part ∈ stack, Plain part)
    (room : (joined stack).length < vfsPathMax) (proper : ∀ part ∈ parts, part ≠ [] ∧ slash ∉ part) :
    (RoomyFrom stack parts → parts.foldlM addComponent (joined stack) = some (joined ((counting parts).foldl walk stack))) ∧
      (¬RoomyFrom stack parts → parts.foldlM addComponent (joined stack) = none) := by
  induction parts generalizing stack with
  | nil =>
    refine ⟨fun _ => rfl,fun wrong => absurd ⟨?_,?_⟩ wrong⟩
    · intro part member
      cases member
    · intro k
      rw [show (counting []).take k = [] from List.take_nil]
      exact room
  | cons part rest ih =>
    obtain ⟨filled,whole⟩ := proper part List.mem_cons_self
    have later : ∀ part ∈ rest, part ≠ [] ∧ slash ∉ part := fun p member => proper p (List.mem_cons_of_mem _ member)
    rw [List.foldlM_cons]
    by_cases here : part = [dot]
    · rw [here,roomyFrom_here]
      exact ih plain room later
    · have counts : counting (part::rest) = part::counting rest := List.filter_cons_of_pos (decide_eq_true here)
      rw [roomyFrom_step here,counts,and_iff_right room]
      by_cases short : part.length < vfsPathMax
      · rw [and_iff_right short,addComponent_joined plain room short here]
        by_cases fits : (joined (walk stack part)).length < vfsPathMax
        · rw [if_pos fits]
          exact ih (walk_plain plain filled whole here) fits later
        · rw [if_neg fits]
          exact ⟨fun roomy => absurd (roomy.2 0) fits,fun _ => rfl⟩
      · rw [addComponent_long short]
        exact ⟨fun roomy => absurd roomy.1 short,fun _ => rfl⟩

theorem taken_counting (path : List Byte) : taken path = counting (components path) := by
  unfold taken counting components
  rw [List.filter_filter]
  refine List.filter_congr fun part _ => ?_
  rw [Bool.and_comm,Bool.decide_and]

theorem roomy_iff (path : List Byte) : Roomy path ↔ RoomyFrom [] (components path) := by
  unfold Roomy RoomyFrom
  rw [taken_counting]
  refine and_congr_left fun _ => ⟨fun short part member => short part (List.mem_of_mem_filter member),fun short part member => ?_⟩
  by_cases empty : part = []
  · rw [empty]
    decide
  · exact short part (List.mem_filter.mpr ⟨member,decide_eq_true empty⟩)

theorem splitOn_whole {path part : List Byte} (member : part ∈ path.splitOn slash) : slash ∉ part := by
  induction path generalizing part with
  | nil =>
    rw [List.splitOn_nil,List.mem_singleton] at member
    rw [member]
    exact List.not_mem_nil
  | cons c rest ih =>
    rw [List.splitOn_cons_eq_if_modifyHead] at member
    split at member
    · rcases List.mem_cons.mp member with rfl | later
      · exact List.not_mem_nil
      · exact ih later
    next plain =>
      rcases parts : rest.splitOn slash with _ | ⟨head,tail⟩
      · rw [parts] at member
        cases member
      · rw [parts,List.modifyHead_cons] at member
        rw [parts] at ih
        rcases List.mem_cons.mp member with rfl | later
        · intro slashed
          rcases List.mem_cons.mp slashed with first | inside
          · exact plain (beq_iff_eq.mpr first.symm)
          · exact ih List.mem_cons_self inside
        · exact ih (List.mem_cons_of_mem _ later)

theorem components_proper {path part : List Byte} (member : part ∈ components path) : part ≠ [] ∧ slash ∉ part := by
  obtain ⟨member,filled⟩ := List.mem_filter.mp member
  exact ⟨of_decide_eq_true filled,splitOn_whole member⟩

/-- The stack of a path holds components that name something. -/
theorem walks_plain {stack parts : List (List Byte)} (plain : ∀ part ∈ stack, Plain part)
    (proper : ∀ part ∈ parts, part ≠ [] ∧ slash ∉ part) : ∀ part ∈ (counting parts).foldl walk stack, Plain part := by
  induction parts generalizing stack with
  | nil => exact plain
  | cons part rest ih =>
    obtain ⟨filled,whole⟩ := proper part List.mem_cons_self
    have later : ∀ part ∈ rest, part ≠ [] ∧ slash ∉ part := fun p member => proper p (List.mem_cons_of_mem _ member)
    by_cases here : part = [dot]
    · rw [here]
      exact ih plain later
    · have counts : counting (part::rest) = part::counting rest := List.filter_cons_of_pos (decide_eq_true here)
      rw [counts]
      exact ih (walk_plain plain filled whole here) later

theorem pathNormalize_canonical {src : List Byte} (filled : canonical (cstring src) ≠ []) (roomy : Roomy (cstring src)) :
    pathNormalize src = some (canonical (cstring src)) := by
  have all := (@addComponents_joined [] _ (List.forall_mem_nil _) (by decide) fun _ member => components_proper member).1
    ((roomy_iff (cstring src)).mp roomy)
  unfold canonical at filled ⊢
  rw [taken_counting] at filled ⊢
  unfold pathNormalize
  rw [show joined [] = [] from rfl] at all
  rw [all]
  exact if_neg filled

theorem pathNormalize_refused {src : List Byte} (wrong : ¬(canonical (cstring src) ≠ [] ∧ Roomy (cstring src))) :
    pathNormalize src = none := by
  have all := @addComponents_joined [] (components (cstring src)) (List.forall_mem_nil _) (by decide)
    fun _ member => components_proper member
  rw [show joined [] = [] from rfl] at all
  unfold pathNormalize
  by_cases roomy : Roomy (cstring src)
  · rw [all.1 ((roomy_iff (cstring src)).mp roomy),← taken_counting]
    exact if_pos (by_contra fun filled => wrong ⟨filled,roomy⟩)
  · rw [all.2 fun inside => roomy ((roomy_iff (cstring src)).mpr inside)]

theorem walks_stack {stack parts : List (List Byte)} (plain : ∀ part ∈ parts, Plain part) :
    parts.foldl walk stack = stack ++ parts := by
  induction parts generalizing stack with
  | nil => exact (List.append_nil stack).symm
  | cons part rest ih =>
    rw [List.foldl_cons,ih fun p member => plain p (List.mem_cons_of_mem _ member),walk,
      if_neg (plain part List.mem_cons_self).up,List.append_assoc,List.singleton_append]

theorem part_length {stack : List (List Byte)} {part : List Byte} (member : part ∈ stack) :
    part.length ≤ (joined stack).length := by
  obtain ⟨front,back,rfl⟩ := List.append_of_mem member
  have here : part.length ≤ (joined (front ++ [part])).length := by
    by_cases empty : front = []
    · rw [empty,List.nil_append,joined,List.intercalate_singleton]
    · rw [joined_snoc part empty,List.length_append,List.length_cons]
      omega
  have more := joined_grows (front ++ [part]) back
  rw [List.append_assoc,List.singleton_append] at more
  exact Nat.le_trans here more

/-- A path that is in normal form names itself. -/
theorem canonical_joined {stack : List (List Byte)} (plain : ∀ part ∈ stack, Plain part) (filled : stack ≠ [])
    (short : (joined stack).length < vfsPathMax) :
    canonical (joined stack) = joined stack ∧ Roomy (joined stack) := by
  have parts : (joined stack).splitOn slash = stack :=
    List.splitOn_intercalate slash (fun part member => (plain part member).whole) filled
  have all : taken (joined stack) = stack := by
    rw [taken,parts]
    refine List.filter_eq_self.mpr fun part member => decide_eq_true ⟨(plain part member).filled,(plain part member).here⟩
  refine ⟨?_,?_,fun k => ?_⟩
  · rw [canonical,all,walks_stack plain,List.nil_append]
  · rw [parts]
    exact fun part member => Nat.lt_of_le_of_lt (part_length member) short
  · rw [all,walks_stack fun part member => plain part (List.mem_of_mem_take member),List.nil_append]
    refine Nat.lt_of_le_of_lt ?_ short
    conv_rhs => rw [← List.take_append_drop k stack]
    exact joined_grows _ _

/-- A name that `path_normalize` makes is left as it is. -/
theorem pathNormalize_again {src name : List Byte} (normal : pathNormalize src = some name) (rest : List Byte) :
    pathNormalize (name ++ 0::rest) = some name := by
  obtain ⟨filled,roomy⟩ : canonical (cstring src) ≠ [] ∧ Roomy (cstring src) := by
    by_contra wrong
    rw [pathNormalize_refused wrong] at normal
    cases normal
  have name_eq : canonical (cstring src) = name :=
    Option.some_inj.mp ((pathNormalize_canonical filled roomy).symm.trans normal)
  have text : cstring (name ++ 0::rest) = name := by
    have plain : ∀ c ∈ name, decide (c ≠ 0) = true := fun c member =>
      decide_eq_true fun zero => (pathNormalize_clean normal).1.text (zero ▸ member)
    unfold cstring
    rw [List.takeWhile_append_of_pos plain,List.takeWhile_cons,if_neg (by simp),List.append_nil]
  have stack := @walks_plain [] (components (cstring src)) (List.forall_mem_nil _) fun _ member => components_proper member
  unfold canonical at filled name_eq
  rw [taken_counting] at filled name_eq
  have started : (counting (components (cstring src))).foldl walk [] ≠ [] := fun empty => filled ((joined_empty stack).mpr empty)
  have short := (pathNormalize_clean normal).1.short
  rw [← name_eq] at text short ⊢
  obtain ⟨same,fits⟩ := canonical_joined stack started (Nat.lt_succ_of_le short)
  have again := @pathNormalize_canonical (joined ((counting (components (cstring src))).foldl walk []) ++ 0::rest)
  rw [text,same] at again
  exact again filled fits

/-- `path_normalize` makes of a string the path that it names, and of that the same again; it
fails on nothing else than the lengths and the root. -/
theorem normalizeInto_canonical (dst : Nat → Byte) (src : List Byte) :
    match normalizeInto dst src with
    | none => ¬(canonical (cstring src) ≠ [] ∧ Roomy (cstring src))
    | some d => (canonical (cstring src) ≠ [] ∧ Roomy (cstring src)) ∧ d.text = canonical (cstring src) ∧ 0 ∉ d.text ∧
      d.out < vfsPathMax ∧ d.dst d.out = 0 ∧ ∀ dst' rest, ∃ d', normalizeInto dst' (d.text ++ 0::rest) = some d' ∧
        d'.text = d.text ∧ d'.dst d'.out = 0 := by
  have model := normalizeInto_text dst src
  rcases made : normalizeInto dst src with _ | d
  · rw [made] at model
    intro ⟨filled,roomy⟩
    rw [pathNormalize_canonical filled roomy] at model
    cases model
  · rw [made,Option.map_some] at model
    have clean := (pathNormalize_clean model.symm).1
    obtain ⟨filled,roomy⟩ : canonical (cstring src) ≠ [] ∧ Roomy (cstring src) := by
      by_contra wrong
      rw [pathNormalize_refused wrong] at model
      cases model
    refine ⟨⟨filled,roomy⟩,?_,clean.text,?_,normalizeInto_ends made,fun dst' rest => ?_⟩
    · rw [pathNormalize_canonical filled roomy] at model
      exact Option.some_inj.mp model
    · rw [← text_length]
      exact Nat.lt_succ_of_le clean.short
    · have again := normalizeInto_text dst' (d.text ++ 0::rest)
      rw [pathNormalize_again model.symm] at again
      obtain ⟨d',made',text⟩ := Option.map_eq_some_iff.mp again
      exact ⟨d',made',text,normalizeInto_ends made'⟩

end LionOS.Files

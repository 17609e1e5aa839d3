import LionOS.Programs.Calls

/-! `grep`: the lines of a file are put together from its reads in a buffer of 256 bytes. -/
namespace LionOS.Programs
open LionOS.Files LionOS.Library LionOS.Memory LionOS.Physical LionOS.Processes

def lineFeed : Byte := 10
/-- The sizes of the buffers `b` and `l`. -/
def readSize : Nat := 512
def lineSize : Nat := 256

/-- The comparison of `strstr` at one place of the haystack. -/
def begins : List Byte → List Byte → Bool
  | _, [] => true
  | [], _::_ => false
  | a::haystack, b::needle => a == b && begins haystack needle

def strstrFrom (needle : List Byte) : List Byte → Option (List Byte)
  | [] => none
  | c::rest => if begins (c::rest) needle then some (c::rest) else strstrFrom needle rest

/-- `strstr` on the characters before the zeros: the haystack from its first match on. -/
def strstr (haystack needle : List Byte) : Option (List Byte) :=
  if needle = [] then some haystack else strstrFrom needle haystack

/-- The first `nline` bytes of `l`, the flag `hit` and the bytes that were put out. -/
structure Search where
  line : List Byte
  hit : Bool
  output : List Byte

/-- The line is ended, searched and put out if it matches. -/
def flush (pattern : List Byte) (s : Search) : Search :=
  if (strstr (cstring s.line) pattern).isSome then ⟨[],true,s.output ++ cstring s.line ++ [lineFeed]⟩
  else {s with line := []}

def searchByte (pattern : List Byte) (s : Search) (c : Byte) : Search :=
  if c = lineFeed ∨ s.line.length + 1 ≥ lineSize then flush pattern s else {s with line := s.line ++ [c]}

/-- What is left of the last line is searched as well. -/
def searchRest (pattern : List Byte) (s : Search) : Search := if s.line ≠ [] then flush pattern s else s

def notFound (path : List Byte) : List Byte := ascii "grep: ".toList ++ path ++ ascii ": not found\n".toList
def usage : List Byte := ascii "usage: grep <pattern> <file>...\n".toList

/-- A call of `one` that has ended: the calls so far, the process, the output and the result. -/
structure Grepped where
  calls : Nat
  process : Process
  output : List Byte
  result : Nat

section Program
variable (world : Nat → Store)

/-- The loop of the reads; `world` gives the state that each call finds. -/
def grepReads (pattern : List Byte) (fd : Nat) : Nat → Nat → Process → Search → Option Grepped
  | 0, _, _, _ => none
  | fuel+1, calls, p, s => match lionFread (world calls) p fd readSize with
    | (_,p,none) => some ⟨calls + 1,lionClose p fd,s.output,2⟩
    | (_,p,some []) =>
      let s := searchRest pattern s
      some ⟨calls + 1,lionClose p fd,s.output,if s.hit then 0 else 1⟩
    | (_,p,some bytes) => grepReads pattern fd fuel (calls + 1) p (bytes.foldl (searchByte pattern) s)

def one (fuel calls : Nat) (p : Process) (pattern path : List Byte) : Option Grepped :=
  match lionOpen (world calls) p path vfsFRead with
  | (_,p,none) => some ⟨calls + 1,p,notFound path,2⟩
  | (_,p,some fd) => grepReads world pattern fd fuel (calls + 1) p ⟨[],false,[]⟩

def grepFiles (fuel : Nat) (pattern : List Byte) : List (List Byte) → Nat → Process → Nat → Option (List Byte × Nat)
  | [], _, _, r => some ([],r)
  | path::paths, calls, p, r => match one world fuel calls p pattern path with
    | none => none
    | some x =>
      let r := if x.result = 0 then 0 else if x.result = 2 then 2 else r
      (grepFiles fuel pattern paths x.calls x.process r).map fun later => (x.output ++ later.1,later.2)

/-- `main` on the arguments behind the name: what is put out and the exit code. -/
def grep (fuel : Nat) (p : Process) : List (List Byte) → Option (List Byte × Nat)
  | pattern::path::paths => grepFiles world fuel pattern (path::paths) 0 p 1
  | _ => some (usage,2)

end Program

/-- The lines of a text; what follows the last line feed is a line if there is anything. -/
def lines : List Byte → List (List Byte)
  | [] => []
  | c::rest =>
    if c = lineFeed then []::lines rest
    else match lines rest with
      | [] => [[c]]
      | line::later => (c::line)::later

/-- The pattern stands in the line clear of the places 255, 511, 767 and so on. -/
def Clear (pattern line : List Byte) : Prop := ∃ i, i % lineSize + pattern.length < lineSize ∧ pattern <+: line.drop i

section Substrings
variable {haystack needle : List Byte}

theorem begins_iff : begins haystack needle = true ↔ needle <+: haystack := by
  induction needle generalizing haystack with
  | nil => exact iff_of_true (by unfold begins; rfl) (List.nil_prefix)
  | cons b needle ih =>
    cases haystack with
    | nil => exact iff_of_false Bool.false_ne_true fun starts => nomatch List.prefix_nil.mp starts
    | cons a haystack =>
      rw [begins,Bool.and_eq_true,beq_iff_eq,ih,List.cons_prefix_cons]
      exact and_congr_left' eq_comm

theorem strstrFrom_within (some : needle ≠ []) : (strstrFrom needle haystack).isSome ↔ needle <:+: haystack := by
  induction haystack with
  | nil =>
    rw [List.infix_nil]
    exact iff_of_false Bool.false_ne_true some
  | cons c rest ih =>
    rw [strstrFrom,List.infix_cons_iff,← begins_iff,← ih]
    split
    next found => exact iff_of_true rfl (.inl found)
    next missed => exact (or_iff_right missed).symm

theorem strstr_within : (strstr haystack needle).isSome ↔ needle <:+: haystack := by
  unfold strstr
  split
  next none =>
    rw [none]
    exact iff_of_true rfl List.nil_infix
  next some => exact strstrFrom_within some

end Substrings

section Lines
variable {pattern line rest : List Byte}

/-- A text without line feeds before another text belongs to its first line. -/
theorem lines_append (single : lineFeed ∉ line) (some : line ≠ []) : lines (line ++ rest) = match lines rest with
    | [] => [line]
    | first::later => (line ++ first)::later := by
  induction line with
  | nil => exact absurd rfl some
  | cons c line ih =>
    rw [List.mem_cons,not_or] at single
    rw [List.cons_append,lines,if_neg (Ne.symm single.1)]
    by_cases last : line = []
    · subst last
      rw [List.nil_append]
      cases lines rest <;> rfl
    · rw [ih single.2 last]
      cases lines rest <;> rfl

theorem lines_feed (single : lineFeed ∉ line) : lines (line ++ lineFeed::rest) = line::lines rest := by
  have next : lines (lineFeed::rest) = []::lines rest := by rw [lines,if_pos rfl]
  by_cases some : line = []
  · rw [some,List.nil_append,next]
  · rw [lines_append single some,next]
    dsimp only
    rw [List.append_nil]

theorem clear_short (short : line.length < lineSize) : Clear pattern line ↔ pattern <:+: line := by
  constructor
  · intro ⟨i,_,starts⟩
    exact List.infix_iff_prefix_suffix.mpr ⟨_,starts,List.drop_suffix i line⟩
  · intro ⟨before,after,split⟩
    have length := congrArg List.length split
    rw [List.length_append,List.length_append] at length
    refine ⟨before.length,?_,?_⟩
    · rw [Nat.mod_eq_of_lt (by omega)]
      omega
    · rw [← split,List.append_assoc,List.drop_left]
      exact List.prefix_append _ _

/-- The 256th byte of a line is not looked at, and what follows is searched like a line. -/
theorem clear_chunk (full : line.length + 1 = lineSize) (c : Byte) :
    Clear pattern (line ++ c::rest) ↔ pattern <:+: line ∨ Clear pattern rest := by
  constructor
  · intro ⟨i,clear,starts⟩
    by_cases early : i < lineSize
    · rw [Nat.mod_eq_of_lt early] at clear
      rw [List.drop_append_of_le_length (by omega)] at starts
      have inside := List.prefix_of_prefix_length_le starts (List.prefix_append (line.drop i) (c::rest))
        (by rw [List.length_drop]; omega)
      exact .inl (List.infix_iff_prefix_suffix.mpr ⟨_,inside,List.drop_suffix i line⟩)
    · have later : (line ++ c::rest).drop i = rest.drop (i - lineSize) := by
        rw [List.drop_append,List.drop_of_length_le (by omega),List.nil_append,
          show i - line.length = (i - lineSize) + 1 by omega,List.drop_succ_cons]
      rw [later] at starts
      refine .inr ⟨i - lineSize,?_,starts⟩
      rwa [← Nat.mod_eq_sub_mod (Nat.le_of_not_lt early)]
  · rintro (found | ⟨i,clear,starts⟩)
    · obtain ⟨i,clear,starts⟩ := (clear_short (by omega)).mpr found
      exact ⟨i,clear,starts.trans ((List.prefix_append line (c::rest)).drop i)⟩
    · refine ⟨lineSize + i,by rwa [Nat.add_mod_left],?_⟩
      rw [List.drop_append,List.drop_of_length_le (by omega),List.nil_append,
        show lineSize + i - line.length = i + 1 by omega,List.drop_succ_cons]
      exact starts

end Lines

section Searching
variable {pattern : List Byte} {s : Search}

theorem cstring_text {text : List Byte} (plain : 0 ∉ text) : cstring text = text := by
  unfold cstring
  exact List.takeWhile_eq_self_iff.mpr fun c member => decide_eq_true fun zero => plain (zero ▸ member)

theorem flush_hit (plain : 0 ∉ s.line) : (flush pattern s).line = [] ∧
    ((flush pattern s).hit = true ↔ s.hit = true ∨ pattern <:+: s.line) := by
  unfold flush
  rw [cstring_text plain]
  split
  next found => exact ⟨rfl,iff_of_true rfl (.inr (strstr_within.mp found))⟩
  next missed => exact ⟨rfl,(or_iff_left (mt strstr_within.mpr missed)).symm⟩

/-- The rest of a file behind what is in the buffer: there is a hit exactly if the pattern stands
clear in some line. -/
theorem search_hit {rest : List Byte} (short : s.line.length < lineSize) (single : lineFeed ∉ s.line) (plain : 0 ∉ s.line)
    (text : 0 ∉ rest) : (searchRest pattern (rest.foldl (searchByte pattern) s)).hit = true ↔
      s.hit = true ∨ ∃ line ∈ lines (s.line ++ rest), Clear pattern line := by
  induction rest generalizing s with
  | nil =>
    rw [List.foldl_nil,searchRest]
    split
    next some =>
      have whole : lines (s.line ++ []) = [s.line] := lines_append single some
      rw [whole,(flush_hit plain).2,← clear_short short]
      simp only [List.mem_singleton,exists_eq_left]
    next none =>
      rw [Decidable.not_not.mp none]
      exact (or_iff_left nofun).symm
  | cons c rest ih =>
    rw [List.mem_cons,not_or] at text
    rw [List.foldl_cons]
    obtain ⟨empty,hit⟩ := @flush_hit pattern s plain
    have fresh : (flush pattern s).line.length < lineSize ∧ lineFeed ∉ (flush pattern s).line ∧ 0 ∉ (flush pattern s).line := by
      rw [empty]
      exact ⟨by decide,nofun,nofun⟩
    have step : searchByte pattern s c =
      if c = lineFeed ∨ s.line.length + 1 ≥ lineSize then flush pattern s else {s with line := s.line ++ [c]} := rfl
    rw [step]
    by_cases ended : c = lineFeed
    · rw [if_pos (.inl ended),ended,lines_feed single]
      refine (ih fresh.1 fresh.2.1 fresh.2.2 text.2).trans ?_
      rw [hit,empty,List.nil_append,List.exists_mem_cons_iff,clear_short short,or_assoc]
    by_cases full : s.line.length + 1 ≥ lineSize
    · rw [if_pos (.inr full)]
      refine (ih fresh.1 fresh.2.1 fresh.2.2 text.2).trans ?_
      have chunk := @clear_chunk pattern s.line
      have none (missing : Clear pattern []) : pattern <:+: s.line := by
        obtain ⟨i,_,starts⟩ := missing
        rw [List.drop_nil,List.prefix_nil] at starts
        rw [starts]
        exact List.nil_infix
      have whole : lineFeed ∉ s.line ++ [c] := by
        rw [List.mem_append,List.mem_singleton,not_or]
        exact ⟨single,Ne.symm ended⟩
      have split := @lines_append (s.line ++ [c]) rest whole (List.append_ne_nil_of_right_ne_nil _ (List.cons_ne_nil c []))
      rw [List.append_assoc,List.singleton_append] at split
      rw [hit,empty,List.nil_append,split,or_assoc]
      refine or_congr_right ?_
      cases lines rest with
      | nil =>
        dsimp only
        simp only [List.mem_singleton,exists_eq_left]
        rw [chunk (by omega) c]
        exact ⟨fun found => found.elim .inl nofun,fun found => .inl (found.elim id none)⟩
      | cons first later =>
        dsimp only
        rw [List.exists_mem_cons_iff,List.exists_mem_cons_iff,List.append_assoc,List.singleton_append,
          chunk (by omega) c,or_assoc]
    · rw [if_neg (not_or.mpr ⟨ended,full⟩)]
      have single' : lineFeed ∉ s.line ++ [c] := by
        rw [List.mem_append,List.mem_singleton,not_or]
        exact ⟨single,Ne.symm ended⟩
      have plain' : 0 ∉ s.line ++ [c] := by
        rw [List.mem_append,List.mem_singleton,not_or]
        exact ⟨plain,text.1⟩
      have short' : (s.line ++ [c]).length < lineSize := by
        rw [List.length_append,List.length_singleton]
        omega
      have grown := @ih {s with line := s.line ++ [c]} short' single' plain' text.2
      rw [grown]
      dsimp only
      rw [List.append_assoc,List.singleton_append]

end Searching

/-- Whatever else happens between the calls, the process can open the file and read it, and its
content stays. -/
structure Served (world : Nat → Store) (p : Process) (src c : List Byte) : Prop where
  capable : processHasCapability p capFs = true
  short : src.length < vfsPathMax - 1
  free : (freeFd p.fds).isSome
  path : ∃ path, pathNormalize src = some path ∧ ∀ call, fileContent (world call) (onDisk (backendFor (world 0) path)) path = some c ∧
    (world call).disk.disk.faults = [] ∧ (onDisk (backendFor (world 0) path) = true → (kmalloc (world call).heap vfsIoMax).isSome)

/-- The descriptor behind a read of a file with the content `c`. -/
def advanced (f : ProcessFd) (c : List Byte) : ProcessFd := {f with offset := f.offset + min readSize (c.length - f.offset)}

section Reading
variable {world : Nat → Store} {p : Process} {path c pattern : List Byte} {disk : Bool} {fd : Nat} {f : ProcessFd} {s : Search}

theorem lionFread_content {st : Store} (capable : processHasCapability p capFs = true) (bound : fd < vfsFdMax)
    (held : p.fds fd = f) (reader : Reader f disk path) (present : fileContent st disk path = some c)
    (ready : st.disk.disk.faults = []) (room : disk = true → (kmalloc st.heap vfsIoMax).isSome) :
    (lionFread st p fd readSize).2 = (withFd p fd (advanced f c),some ((c.drop f.offset).take readSize)) := by
  have read := @readSlot_content st f disk path c readSize reader.onFile reader.readable present ready room (by decide)
  rw [lionFread_slot capable bound (by decide),held,read]
  rfl

/-- The loop comes to the end of the file, and what it has searched is all of it. -/
theorem grepReads_ends (reader : Reader f disk path) (bound : fd < vfsFdMax) (capable : processHasCapability p capFs = true)
    (held : p.fds fd = f) {fuel : Nat} (enough : c.length - f.offset + readSize ≤ fuel * readSize) (calls : Nat)
    (served : ∀ call, fileContent (world call) disk path = some c ∧ (world call).disk.disk.faults = [] ∧
      (disk = true → (kmalloc (world call).heap vfsIoMax).isSome)) :
    ∃ x, grepReads world pattern fd fuel calls p s = some x ∧
      x.result = if (searchRest pattern ((c.drop f.offset).foldl (searchByte pattern) s)).hit then 0 else 1 := by
  induction fuel generalizing p f s calls with
  | zero =>
    have large : readSize = 512 := rfl
    omega
  | succ fuel ih =>
    obtain ⟨present,ready,room⟩ := served calls
    have read := lionFread_content capable bound held reader present ready room
    rcases made : lionFread (world calls) p fd readSize with ⟨st',p',result⟩
    rw [made] at read
    cases read
    unfold grepReads
    rw [made]
    have whole := List.take_append_drop readSize (c.drop f.offset)
    cases chunk : (c.drop f.offset).take readSize with
    | nil =>
      have none : c.drop f.offset = [] := by
        rcases List.take_eq_nil_iff.mp chunk with zero | none
        · exact absurd zero (by decide)
        · exact none
      rw [none]
      exact ⟨_,rfl,rfl⟩
    | cons b bytes =>
      have length := congrArg List.length chunk
      rw [List.length_take,List.length_drop,List.length_cons] at length
      have large : readSize = 512 := rfl
      have fewer : c.length - (f.offset + min readSize (c.length - f.offset)) + readSize ≤ fuel * readSize := by
        have units : fuel * readSize = fuel * 512 := rfl
        rw [Nat.succ_mul] at enough
        omega
      have moved : c.drop (f.offset + min readSize (c.length - f.offset)) = (c.drop f.offset).drop readSize := by
        rw [List.drop_drop]
        by_cases reaches : readSize ≤ c.length - f.offset
        · rw [Nat.min_eq_left reaches]
        · rw [List.drop_of_length_le (by omega),List.drop_of_length_le (by omega)]
      obtain ⟨x,ends,result⟩ := @ih (withFd p fd (advanced f c)) (advanced f c) ((b::bytes).foldl (searchByte pattern) s)
        ⟨reader.onFile,reader.readable⟩ capable (Function.update_self ..) fewer (calls + 1)
      refine ⟨x,ends,result.trans ?_⟩
      unfold advanced
      rw [moved,← chunk,← List.foldl_append,whole]

/-- `grep` on one file ends, and its exit code tells whether the pattern stands clear in a line. -/
theorem grep_code {src : List Byte} (served : Served world p src c) (text : 0 ∉ c) {fuel : Nat} (enough : c.length + readSize ≤ fuel * readSize) :
    ∃ output code, grep world fuel p [pattern,src] = some (output,code) ∧
      (code = 0 ∧ (∃ line ∈ lines c, Clear pattern line) ∨ code = 1 ∧ ¬∃ line ∈ lines c, Clear pattern line) := by
  obtain ⟨capable,short,free,path,normal,content⟩ := served
  obtain ⟨i,free⟩ := Option.isSome_iff_exists.mp free
  have bound : i < vfsFdMax := (find_range.mp free).1
  have found := backendFor_present (content 0).2.1 (content 0).1
  have opened := lionOpen_read capable short free normal found
  have reader : Reader ⟨true,backendFor (world 0) path,vfsFRead,0,path⟩ (onDisk (backendFor (world 0) path)) path :=
    ⟨⟨rfl,rfl,rfl⟩,(rfl : flagged vfsFRead vfsFRead = true)⟩
  obtain ⟨x,ends,result⟩ := @grepReads_ends world (withFd p i ⟨true,backendFor (world 0) path,vfsFRead,0,path⟩) path c pattern _ i _
    ⟨[],false,[]⟩ reader bound capable (Function.update_self ..) fuel enough 1 content
  have hit := @search_hit pattern ⟨[],false,[]⟩ c (by decide) nofun nofun text
  dsimp only at result hit
  rw [List.drop_zero] at result
  rw [List.nil_append,or_iff_right Bool.false_ne_true] at hit
  have first : one world fuel 0 p pattern src = some x := by
    unfold one
    rw [opened]
    exact ends
  have called : grep world fuel p [pattern,src] =
      some (x.output ++ [],if x.result = 0 then 0 else if x.result = 2 then 2 else 1) := by
    unfold grep grepFiles
    dsimp only
    rw [first]
    rfl
  refine ⟨_,_,called,?_⟩
  by_cases found : ∃ line ∈ lines c, Clear pattern line
  · rw [if_pos (hit.mpr found)] at result
    rw [result]
    exact .inl ⟨rfl,found⟩
  · rw [if_neg (mt hit.mp found)] at result
    rw [result]
    exact .inr ⟨rfl,found⟩

end Reading

/-- The exit code tells exactly whether some line has the pattern as a substring. -/
def Exact (world : Nat → Store) (p : Process) (src c pattern : List Byte) : Prop :=
  ∃ least, ∀ fuel, least ≤ fuel → ∃ output code, grep world fuel p [pattern,src] = some (output,code) ∧
    (code = 0 ∧ (∃ line ∈ lines c, pattern <:+: line) ∨ code = 1 ∧ ¬∃ line ∈ lines c, pattern <:+: line)

theorem clear_within {pattern line : List Byte} (clear : Clear pattern line) : pattern <:+: line := by
  obtain ⟨i,_,starts⟩ := clear
  exact List.infix_iff_prefix_suffix.mpr ⟨_,starts,List.drop_suffix i line⟩

/-- `grep` is exact as long as a pattern that stands in a line stands in one clear of the places
where the buffer is flushed. -/
theorem grep_exact_iff {world : Nat → Store} {p : Process} {src c pattern : List Byte} (served : Served world p src c) (text : 0 ∉ c) :
    Exact world p src c pattern ↔ ((∃ line ∈ lines c, pattern <:+: line) → ∃ line ∈ lines c, Clear pattern line) := by
  have infixed : (∃ line ∈ lines c, Clear pattern line) → ∃ line ∈ lines c, pattern <:+: line :=
    fun ⟨line,member,clear⟩ => ⟨line,member,clear_within clear⟩
  have code (fuel : Nat) (enough : c.length + readSize ≤ fuel * readSize) := @grep_code world p c pattern src served text fuel enough
  have many (n : Nat) (above : c.length + 1 ≤ n) : c.length + readSize ≤ n * readSize := by
    have large : readSize = 512 := rfl
    have units : n * readSize = n * 512 := rfl
    omega
  constructor
  · intro ⟨least,exact⟩ found
    obtain ⟨output,code',ended,clear⟩ := code (max least (c.length + 1)) (many _ (Nat.le_max_right ..))
    obtain ⟨output',code'',ended',exact⟩ := exact _ (Nat.le_max_left least (c.length + 1))
    cases ended.symm.trans ended'
    rcases clear with ⟨_,clear⟩ | ⟨one,_⟩
    · exact clear
    · rcases exact with ⟨zero,_⟩ | ⟨_,missing⟩
      · exact nomatch zero.symm.trans one
      · exact absurd found missing
  · intro clears
    refine ⟨c.length + 1,fun fuel above => ?_⟩
    obtain ⟨output,code',ended,clear⟩ := code fuel (many fuel above)
    refine ⟨output,code',ended,clear.imp (And.imp_right infixed) (And.imp_right fun missing found => missing (clears found))⟩

/-- A memory file system with one file, which has no end of line. -/
def holding (name bytes : List Byte) : Store :=
  {bareStore with ram := ⟨fun _ => [],fun _ => ⟨name,fun i => bytes.getD i 0,bytes.length⟩,1⟩}

def grepper : Process := {(default : Process) with capabilities := capFs}

theorem holding_served {bytes : List Byte} : Served (fun _ => holding letter bytes) grepper letter bytes := by
  have program : programIndex letter = none := by decide
  have found : ramfsFind (holding letter bytes).ram letter = some 0 := find_range.mpr ⟨Nat.one_pos,decide_eq_true rfl,nofun⟩
  have content : ramContent (holding letter bytes).ram letter = some bytes :=
    (ramContent_file program found).trans (congrArg some (map_range_eq.mpr ⟨rfl,fun _ _ => rfl⟩))
  have backend : backendFor (holding letter bytes) letter = backendRamfs := by
    unfold backendFor ramfsData
    rw [program,found]
    rfl
  refine ⟨by decide,by decide,by decide,letter,by decide,fun _ => ?_⟩
  rw [backend]
  exact ⟨content,rfl,nofun⟩

theorem grep_exact_iff_letter : Exact (fun _ => holding letter (ascii "ab\nc".toList)) grepper letter (ascii "ab\nc".toList) (ascii ['b']) := by
  refine (grep_exact_iff holding_served (by decide)).mpr fun _ => ⟨ascii ['a','b'],by decide,1,by decide,by decide⟩

/-- A line of 256 bytes with the pattern at its end. -/
def longLine : List Byte := List.replicate 254 97 ++ [98,99]

theorem straddling_missed : Served (fun _ => holding letter longLine) grepper letter longLine ∧ 0 ∉ longLine ∧
    ¬Exact (fun _ => holding letter longLine) grepper letter longLine [98,99] := by
  have among {b : Byte} (member : b ∈ longLine) : b = 97 ∨ b = 98 ∨ b = 99 := by
    rcases List.mem_append.mp member with early | late
    · exact .inl (List.eq_of_mem_replicate early)
    · exact .inr (by simpa using late)
  have text : 0 ∉ longLine := fun member => absurd (among member) (by decide)
  have single : lineFeed ∉ longLine := fun member => absurd (among member) (by decide)
  have split : longLine = (List.replicate 254 97 ++ [98]) ++ [99] := by
    rw [List.append_assoc]
    rfl
  have whole : lines longLine = [longLine] := by
    have alone := @lines_append longLine [] single (by rw [split]; exact List.concat_ne_nil _ _)
    rwa [List.append_nil] at alone
  have missed : ¬Clear [98,99] longLine := by
    rw [split,clear_chunk (by rw [List.length_append,List.length_replicate]; rfl)]
    rintro (found | ⟨i,_,starts⟩)
    · have last := found.subset (List.mem_cons_of_mem _ (List.mem_singleton_self 99))
      rcases List.mem_append.mp last with early | late
      · exact absurd (List.eq_of_mem_replicate early) (by decide)
      · exact absurd (List.mem_singleton.mp late) (by decide)
    · rw [List.drop_nil,List.prefix_nil] at starts
      cases starts
  refine ⟨holding_served,text,fun ⟨least,exact⟩ => ?_⟩
  obtain ⟨output,code,ended,given⟩ := exact (max least 3) (Nat.le_max_left ..)
  have enough : longLine.length + readSize ≤ max least 3 * readSize := by
    have length : longLine.length = 256 := by
      rw [longLine,List.length_append,List.length_replicate]
      rfl
    have units : max least 3 * readSize = max least 3 * 512 := rfl
    have large : readSize = 512 := rfl
    omega
  obtain ⟨output',code',ended',clear⟩ := @grep_code _ grepper longLine [98,99] letter holding_served text _ enough
  cases ended.symm.trans ended'
  have here : ∃ line ∈ lines longLine, [98,99] <:+: line := by
    rw [whole]
    exact ⟨longLine,List.mem_singleton_self _,(List.suffix_append _ _).isInfix⟩
  rcases given with ⟨zero,_⟩ | ⟨_,none⟩
  · rcases clear with ⟨_,line,member,clear⟩ | ⟨one,_⟩
    · rw [whole,List.mem_singleton] at member
      exact missed (member ▸ clear)
    · exact nomatch zero.symm.trans one
  · exact none here

end LionOS.Programs

import LionOS.Files.Vfs

/-! The log file of the kernel: its lines, the calls that append one, and the cut of a full
file. -/
namespace LionOS.Files
open LionOS.Memory LionOS.Physical LionOS.Processes LionOS.Library

def newline : Byte := 10
def klogLineCapacity : Nat := 128
def klogFilePath : List Byte := ascii "/var/log/lionos.log".toList

/-- The path as the file systems store it. -/
def klogName : List Byte := ascii "var/log/lionos.log".toList

def persistentLevelName (level : Nat) : List Byte :=
  ascii (match level with
    | 0 => "DEBUG"
    | 1 => "INFO"
    | 2 => "WARN"
    | 3 => "ERROR"
    | 4 => "PANIC"
    | _ => "UNKNOWN").toList

/-- `format_log_line`; without a message the line is the level alone. -/
def formatLogLine (level : Nat) (message : Option (List Byte)) (capacity : Nat) : List Byte :=
  if capacity < 2 then []
  else
    let tag := (persistentLevelName level).take (capacity - 1)
    let head := if tag.length + 2 < capacity then tag ++ ascii [':',' '] else tag
    let body := head ++ (cstring (message.getD [])).take (capacity - 2 - head.length)
    if body.length + 1 < capacity then body ++ [newline] else body

def logLimit (backend : Nat) : Nat := if backend = backendDiskfs then diskfsMaxFileSize else 256

def ensureLogFile (st : Store) (fds : FdTable) : Store × FdTable × Option VfsStat :=
  match vfsStatPath st klogFilePath with
  | some stat => (st,fds,some stat)
  | none => match vfsOpen st fds klogFilePath (vfsFWrite + vfsFAppend) with
    | (st,fds,none) => (st,fds,none)
    | (st,fds,some fd) => (st,(vfsClose fds fd).1,vfsStatPath st klogFilePath)

/-- The place from which on a full file is kept. -/
def cutStart (bytes : List Byte) (limit : Nat) : Nat :=
  let keep := if limit > 128 then limit - 128 else limit / 2
  let start := if bytes.length > keep then bytes.length - keep else 0
  if start = 0 then 0
  else
    let line := start + ((bytes.drop start).takeWhile (· ≠ newline)).length
    if line < bytes.length then line + 1 else line

/-- The branch of `append_log_file_locked` for a line that does not fit. -/
def rotateLogFile (st : Store) (fds : FdTable) (stat : VfsStat) (length : Nat) : Store × FdTable × Bool :=
  match vfsOpen st fds klogFilePath vfsFRead with
  | (st,fds,none) => (st,fds,false)
  | (st,fds,some fd) =>
    let (st,fds,bytes) := if stat.size ≠ 0 then vfsRead st fds fd stat.size else (st,fds,some [])
    let fds := (vfsClose fds fd).1
    match bytes with
    | none => (st,fds,false)
    | some bytes =>
      let retained := bytes.drop (cutStart bytes (logLimit stat.backend))
      match vfsRemove st klogFilePath with
      | (st,false) => (st,fds,false)
      | (st,true) => match vfsOpen st fds klogFilePath vfsFWrite with
        | (st,fds,none) => (st,fds,false)
        | (st,fds,some fd) =>
          let (st,fds,written) := if retained ≠ [] then vfsWrite st fds fd retained else (st,fds,some 0)
          let fds := (vfsClose fds fd).1
          if written ≠ some retained.length then (st,fds,false)
          else match vfsStatPath st klogFilePath with
            | none => (st,fds,false)
            | some stat => (st,fds,decide (stat.size + length ≤ logLimit stat.backend))

/-- `append_log_file_locked`; the flag is its success. -/
def appendLogFileLocked (st : Store) (fds : FdTable) (line : List Byte) : Store × FdTable × Bool :=
  if line = [] then (st,fds,false)
  else match ensureLogFile st fds with
    | (st,fds,none) => (st,fds,false)
    | (st,fds,some stat) =>
      if line.length > logLimit stat.backend then (st,fds,false)
      else
        let (st,fds,fits) := if stat.size + line.length > logLimit stat.backend
          then rotateLogFile st fds stat line.length else (st,fds,true)
        if fits = false then (st,fds,false)
        else match vfsOpen st fds klogFilePath (vfsFWrite + vfsFAppend) with
          | (st,fds,none) => (st,fds,false)
          | (st,fds,some fd) =>
            let (st,fds,written) := vfsWrite st fds fd line
            (st,(vfsClose fds fd).1,decide (written = some line.length))

/-- The longest end of the bytes that starts behind a newline and is shorter than `keep`. -/
structure Recent (keep : Nat) (bytes kept : List Byte) : Prop where
  lines : kept = [] ∨ ∃ p, bytes = p ++ newline::kept
  short : kept.length < keep
  longest : ∀ p t, bytes = p ++ newline::t → t.length < keep → t.length ≤ kept.length

section Lines
variable {keep limit : Nat} {bytes kept : List Byte}

/-- A line that the kernel logs is neither empty nor too long for any back end. -/
theorem formatLogLine_length (level : Nat) (message : Option (List Byte)) :
    0 < (formatLogLine level message klogLineCapacity).length ∧
      (formatLogLine level message klogLineCapacity).length < klogLineCapacity := by
  have tags : 0 < (persistentLevelName level).length ∧ (persistentLevelName level).length ≤ 7 := by
    unfold persistentLevelName
    split <;> decide
  unfold formatLogLine klogLineCapacity
  dsimp only
  have room : (persistentLevelName level).length + 2 < 128 := by omega
  rw [if_neg (by decide),List.take_of_length_le (by omega),if_pos room]
  generalize head : persistentLevelName level ++ ascii [':',' '] = front
  have length : front.length = (persistentLevelName level).length + 2 := by
    rw [← head,List.length_append]
    rfl
  generalize cstring (message.getD []) = text
  have body : (front ++ text.take (128 - 2 - front.length)).length ≤ 126 := by
    rw [List.length_append,List.length_take]
    omega
  rw [if_pos (by omega),List.length_append,List.length_append,List.length_singleton,List.length_take]
  omega

theorem Recent.unique (recent : Recent keep bytes kept) (none : Recent keep bytes []) : kept = [] := by
  rcases recent.lines with empty | ⟨p,whole⟩
  · exact empty
  · exact List.length_eq_zero_iff.mp (Nat.le_zero.mp (none.longest p kept whole recent.short))

theorem takeWhile_before {α : Type} {q : α → Bool} {x : α} (stop : q x = false) (before behind : List α) :
    ((before ++ x::behind).takeWhile q).length ≤ before.length := by
  induction before with
  | nil => simp [stop]
  | cons y rest ih =>
    rw [List.cons_append,List.takeWhile_cons]
    split
    · exact Nat.succ_le_succ ih
    · exact Nat.zero_le _

/-- The cut of a full file keeps its last lines. -/
theorem cut_recent (wide : limit > 128) (full : limit - 128 < bytes.length) :
    Recent (limit - 128) bytes (bytes.drop (cutStart bytes limit)) := by
  unfold cutStart
  dsimp only
  rw [if_pos wide,if_pos full,if_neg (by omega)]
  generalize begins : bytes.length - (limit - 128) = start
  have shape : (bytes.drop start).takeWhile (· ≠ newline) ++ (bytes.drop start).dropWhile (· ≠ newline) = bytes.drop start :=
    List.takeWhile_append_dropWhile
  -- an end that is short enough starts behind the place at which the search begins
  have behind (p t : List Byte) (whole : bytes = p ++ newline::t) (short : t.length < limit - 128) :
      start + ((bytes.drop start).takeWhile (· ≠ newline)).length + t.length < bytes.length := by
    have total := congrArg List.length whole
    rw [List.length_append,List.length_cons] at total
    have rest : bytes.drop start = p.drop start ++ newline::t := by
      rw [whole,List.drop_append_of_le_length (by omega)]
    have stop := takeWhile_before (q := fun b => decide (b ≠ newline)) (by decide : decide (newline ≠ newline) = false)
      (p.drop start) t
    rw [rest]
    rw [List.length_drop] at stop
    omega
  generalize (bytes.drop start).takeWhile (· ≠ newline) = first at shape behind ⊢
  rcases rest : (bytes.drop start).dropWhile (· ≠ newline) with _ | ⟨b,kept⟩
  · rw [rest,List.append_nil] at shape
    have length := congrArg List.length shape
    rw [List.length_drop] at length
    rw [if_neg (by omega),List.drop_of_length_le (by omega)]
    refine ⟨.inl rfl,by rw [List.length_nil]; omega,fun p t whole short => ?_⟩
    have far := behind p t whole short
    omega
  · have last : b = newline := by
      have head := List.head?_dropWhile_not (fun b => decide (b ≠ newline)) (bytes.drop start)
      rw [rest] at head
      simpa using head
    subst last
    rw [rest] at shape
    have length := congrArg List.length shape
    rw [List.length_append,List.length_cons,List.length_drop] at length
    have split : bytes = (bytes.take start ++ first) ++ newline::kept := by
      rw [List.append_assoc,shape,List.take_append_drop]
    have front : (bytes.take start ++ first ++ [newline]).length = start + first.length + 1 := by
      rw [List.length_append,List.length_append,List.length_take,List.length_singleton]
      omega
    have cut : bytes.drop (start + first.length + 1) = kept := by
      rw [← front]
      conv => lhs; arg 2; rw [split,List.append_cons]
      exact List.drop_left
    rw [if_pos (by omega),cut]
    refine ⟨.inr ⟨_,split⟩,by omega,fun p t whole short => ?_⟩
    have far := behind p t whole short
    omega

end Lines

end LionOS.Files

import LionOS.Channels.Stream
import LionOS.Library.Pool

/-! The handles that `pipe_create` gives out and what the other pipe calls make of them. -/
namespace LionOS.Channels
open LionOS.Physical LionOS.Processes LionOS.Library

inductive TableCall
  | create (ownerPid : Nat)
  | read (s : System) (cpu handle capacity : Nat)
  | write (s : System) (cpu handle : Nat) (data : List Byte)
  | close (s : System) (cpu handle : Nat)

/-- The slot that `pipe_create` takes. -/
def freePipe (pipes : Pipes) : Option Nat := (List.range pipeMax).find? fun i => !(pipes i).used

/-- The pipes and the handles that were given out for each of them when it was created. -/
structure Table where
  pipes : Pipes
  ends : Nat → Nat × Nat

def tableStep (t : Table) : TableCall → Table
  | .create ownerPid =>
    match freePipe t.pipes,pipeCreate t.pipes ownerPid with
    | some i,some (pipes,readEnd,writeEnd) => ⟨pipes,Function.update t.ends i (readEnd,writeEnd)⟩
    | _,_ => t
  | .read s cpu handle capacity => {t with pipes := (pipeRead s t.pipes cpu handle capacity).2.1}
  | .write s cpu handle data => {t with pipes := (pipeWrite s t.pipes cpu handle data).2.1}
  | .close s cpu handle => {t with pipes := (pipeClose s t.pipes cpu handle).2.1}

def bootTable (raw : Pipes) : Table := ⟨pipeInit raw,fun _ => (0,0)⟩

/-- No handle of an open pipe is a handle of another one or the other handle of its own. -/
def Apart (t : Table) : Prop :=
  (∀ i, i < pipeMax → (t.pipes i).used = true → (t.ends i).1 ≠ (t.ends i).2) ∧
  ∀ i j, i < pipeMax → j < pipeMax → i ≠ j → (t.pipes i).used = true → (t.pipes j).used = true →
    (t.ends i).1 ≠ (t.ends j).1 ∧ (t.ends i).1 ≠ (t.ends j).2 ∧ (t.ends i).2 ≠ (t.ends j).2

/-- The pipe calls of process `pid` accept the handles as the two ends of pipe `i`. -/
structure Accepted (pipes : Pipes) (i pid readEnd writeEnd : Nat) : Prop where
  readSide : decode readEnd = some (i,0)
  writeSide : decode writeEnd = some (i,1)
  reads : ∀ s cpu capacity, currentPid s cpu = pid → capacity ≠ 0 →
    (pipeRead s pipes cpu readEnd capacity).2.2 = .error (processSleepOn s cpu (pipeChannel i 0)).2
  writes : ∀ s cpu data, currentPid s cpu = pid → data ≠ [] → data.length ≤ pipeBuffer →
    (pipeWrite s pipes cpu writeEnd data).2.2 = data.length
  closesRead : ∀ s cpu, currentPid s cpu = pid → (pipeClose s pipes cpu readEnd).2.2 = 0
  closesWrite : ∀ s cpu, currentPid s cpu = pid → (pipeClose s pipes cpu writeEnd).2.2 = 0

/-- The new pipe of process `pid` can be used through the handles it was given, and they
are its own. -/
def HandlesWork (t : Table) (pid : Nat) (created : Pipes) (readEnd writeEnd : Nat) : Prop :=
  (∃ i, freePipe t.pipes = some i ∧ Accepted created i pid readEnd writeEnd) ∧ Apart (tableStep t (.create pid))

/-- The handles of an open pipe are the two numbers of its slot. -/
def Numbered (t : Table) : Prop :=
  ∀ i, i < pipeMax → (t.pipes i).used = true → t.ends i = (i * 2,i * 2 + 1)

theorem Numbered.apart {t : Table} (numbered : Numbered t) : Apart t := by
  refine ⟨?_,?_⟩
  · intro i bound used
    rw [numbered i bound used]
    dsimp only
    omega
  · intro i j bound bound' other used used'
    rw [numbered i bound used,numbered j bound' used']
    dsimp only
    omega

theorem pushBytes_used (p : PipeState) (bytes : List Byte) : (pushBytes p bytes).used = p.used := by
  induction bytes generalizing p with
  | nil => rfl
  | cons c rest ih => exact ih {p with data := Function.update p.data p.head c,head := (p.head + 1) % pipeBuffer}

theorem popBytes_used (p : PipeState) (n : Nat) : (popBytes p n).1.used = p.used := by
  induction n generalizing p with
  | zero => rfl
  | succ n ih => exact ih {p with tail := (p.tail + 1) % pipeBuffer}

theorem update_used {pipes : Pipes} {id : Nat} {p : PipeState} (kept : p.used = (pipes id).used) (i : Nat) :
    (Function.update pipes id p i).used = (pipes i).used := by
  by_cases own : i = id
  · subst own
    rwa [Function.update_self]
  · rw [Function.update_of_ne own]

theorem pipeRead_used (s : System) (pipes : Pipes) (cpu handle capacity i : Nat) :
    ((pipeRead s pipes cpu handle capacity).2.1 i).used = (pipes i).used := by
  unfold pipeRead
  split
  · rfl
  dsimp only
  split
  · rfl
  split
  · rfl
  split
  · refine update_used ?_ i
    exact popBytes_used _ _
  split
  · rfl
  · rfl

theorem pipeWriteLoop_used {cpu id fuel done : Nat} {s : System} {pipes : Pipes} {left : List Byte} (i : Nat) :
    ((pipeWriteLoop cpu id fuel s pipes left done).2.1 i).used = (pipes i).used := by
  induction fuel generalizing s pipes left done with
  | zero => rfl
  | succ fuel ih =>
    unfold pipeWriteLoop
    dsimp only
    split
    · rfl
    split
    · split
      · refine update_used ?_ i
        exact pushBytes_used _ _
      · rw [ih]
        refine update_used ?_ i
        exact pushBytes_used _ _
    · rfl

theorem pipeWrite_used (s : System) (pipes : Pipes) (cpu handle : Nat) (data : List Byte) (i : Nat) :
    ((pipeWrite s pipes cpu handle data).2.1 i).used = (pipes i).used := by
  unfold pipeWrite
  split
  · rfl
  split
  · rfl
  · exact pipeWriteLoop_used i

theorem pipeClose_used {s : System} {pipes : Pipes} {cpu handle i : Nat}
    (used : ((pipeClose s pipes cpu handle).2.1 i).used = true) : (pipes i).used = true := by
  unfold pipeClose at used
  split at used
  · exact used
  next id side _ =>
    dsimp only at used
    split at used
    · exact used
    next open' =>
      rw [not_or,Bool.not_eq_false] at open'
      by_cases own : i = id
      · subst own
        exact open'.1
      · dsimp only at used
        rwa [Function.update_of_ne own] at used

theorem pipeCreate_given {pipes created : Pipes} {pid readEnd writeEnd : Nat}
    (given : pipeCreate pipes pid = some (created,readEnd,writeEnd)) :
    ∃ i, freePipe pipes = some i ∧ readEnd = i * 2 ∧ writeEnd = i * 2 + 1 ∧
      created = Function.update pipes i {pipes i with
        used := true,ownerPid := pid,readers := 1,writers := 1,head := 0,tail := 0,count := 0} := by
  unfold pipeCreate at given
  split at given
  · cases given
  split at given
  · cases given
  next i free =>
    cases given
    exact ⟨i,free,rfl,rfl,rfl⟩

theorem numbered_step {t : Table} (numbered : Numbered t) (call : TableCall) : Numbered (tableStep t call) := by
  cases call with
  | create pid =>
    unfold tableStep
    dsimp only
    split
    next i pipes readEnd writeEnd free given =>
      obtain ⟨j,found,rfl,rfl,rfl⟩ := pipeCreate_given given
      rw [free] at found
      cases found
      intro k bound used
      by_cases own : k = i
      · subst own
        exact Function.update_self _ _ _
      · dsimp only at used ⊢
        rw [Function.update_of_ne own] at used ⊢
        exact numbered k bound used
    · exact numbered
  | read s cpu handle capacity =>
    intro i bound used
    exact numbered i bound (by rwa [← pipeRead_used s t.pipes cpu handle capacity])
  | write s cpu handle data =>
    intro i bound used
    exact numbered i bound (by rwa [← pipeWrite_used s t.pipes cpu handle data])
  | close s cpu handle =>
    intro i bound used
    exact numbered i bound (pipeClose_used used)

theorem numbered_run (raw : Pipes) (calls : List TableCall) : Numbered (run tableStep (bootTable raw) calls) := by
  refine @run_invariant _ _ tableStep Numbered (fun _ call held => numbered_step held call) _ calls ?_
  intro i bound used
  dsimp only [bootTable,pipeInit] at used
  rw [if_pos bound] at used
  cases used

theorem decode_handle {i side : Nat} (bound : i < pipeMax) (half : side < 2) :
    decode (i * 2 + side) = if i = 0 then none else some (i,side) := by
  unfold decode
  by_cases zero : i = 0
  · rw [if_pos (by omega),if_pos zero]
  · have slot : (i * 2 + side) / 2 = i := by omega
    have low : (i * 2 + side) % 2 = side := by omega
    rw [slot,low,if_neg (by omega),if_neg zero]

/-- The calls of the owner find a new pipe wherever its handles can be decoded. -/
theorem accepted_new {pipes : Pipes} {i pid readEnd writeEnd : Nat} (readSide : decode readEnd = some (i,0))
    (writeSide : decode writeEnd = some (i,1)) :
    Accepted (Function.update pipes i {pipes i with
      used := true,ownerPid := pid,readers := 1,writers := 1,head := 0,tail := 0,count := 0}) i pid readEnd writeEnd := by
  refine ⟨readSide,writeSide,?_,?_,?_,?_⟩
  · intro s cpu capacity own positive
    simp [pipeRead,readSide,positive,own]
  · intro s cpu data own given short
    have positive : pipeBuffer ≠ 0 := by decide
    have whole : min data.length pipeBuffer = data.length := Nat.min_eq_left short
    simp [pipeWrite,writeSide,given,pipeWriteLoop,own,positive,whole]
  · intro s cpu own
    simp [pipeClose,readSide,own]
  · intro s cpu own
    simp [pipeClose,writeSide,own]

/-- `decode` refuses every handle below 2, so a pipe works exactly when it is not created
in slot 0, which the first `pipe_create` takes. -/
theorem handles_work (raw created : Pipes) (calls : List TableCall) (pid readEnd writeEnd : Nat)
    (given : pipeCreate (run tableStep (bootTable raw) calls).pipes pid = some (created,readEnd,writeEnd)) :
    HandlesWork (run tableStep (bootTable raw) calls) pid created readEnd writeEnd ↔
      ((run tableStep (bootTable raw) calls).pipes 0).used = true := by
  have numbered := numbered_run raw calls
  obtain ⟨i,free,rfl,rfl,rfl⟩ := pipeCreate_given given
  obtain ⟨bound,unused,lower⟩ := find_range.mp free
  refine ⟨?_,?_⟩
  · rintro ⟨⟨j,found,accepted⟩,_⟩
    rw [free] at found
    cases found
    have decoded := accepted.readSide
    have positive : i ≠ 0 := by
      rintro rfl
      exact absurd decoded (by decide)
    have taken := lower 0 (Nat.pos_of_ne_zero positive)
    rwa [Bool.not_eq_false'] at taken
  · intro taken
    have positive : i ≠ 0 := by
      rintro rfl
      rw [taken] at unused
      cases unused
    have readSide := @decode_handle i 0 bound (by decide)
    have writeSide := @decode_handle i 1 bound (by decide)
    rw [if_neg positive] at readSide writeSide
    exact ⟨⟨i,free,accepted_new readSide writeSide⟩,(numbered_step numbered _).apart⟩

theorem handles_work_second : ∃ created, HandlesWork (run tableStep (bootTable fun _ => default) [.create 2]) 3 created 2 3 :=
  ⟨_,(handles_work (fun _ => default) _ [.create 2] 3 2 3 rfl).mpr rfl⟩

/-- The first pipe after `pipe_init` gets the handles 0 and 1, which no call accepts. -/
theorem first_pipe_unusable : ∃ created, pipeCreate (bootTable fun _ => default).pipes 2 = some (created,0,1) ∧
    (∀ s cpu capacity, (pipeRead s created cpu 0 capacity).2.2 = .error (-1)) ∧
    (∀ s cpu data, (pipeWrite s created cpu 1 data).2.2 = -1) ∧
    ¬ HandlesWork (bootTable fun _ => default) 2 created 0 1 := by
  refine ⟨_,rfl,fun _ _ _ => rfl,fun _ _ _ => rfl,?_⟩
  rintro ⟨⟨i,_,accepted⟩,_⟩
  have refused : decode 0 = none := rfl
  rw [accepted.readSide] at refused
  cases refused

end LionOS.Channels

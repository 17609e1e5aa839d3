import LionOS.Channels.Pipe
import LionOS.Library.Ring
import Mathlib.Tactic.IntervalCases

/-! Each pipe as a stream: the bytes that its readers get are those that its writers
were told to have written, in the same order. -/
namespace LionOS.Channels
open LionOS.Physical LionOS.Processes LionOS.Library

/-- A task in a system call. The idle task makes none. -/
structure Caller where
  system : System
  cpu : Nat
  slot : Slot
  running : currentLocal system cpu = some slot
  ordinary : slot ≠ bootstrap
  taken : (system.processes slot).state ≠ .unused

inductive PipeCall
  | read (caller : Caller) (handle capacity : Nat)
  | write (caller : Caller) (handle : Nat) (data : List Byte)
  | close (caller : Caller) (handle : Nat)

/-- The pipes together with the bytes that writes to one of them have acknowledged and
the bytes that reads from it have returned. -/
structure Flow where
  pipes : Pipes
  accepted : List Byte
  delivered : List Byte

def flowStep (id : Nat) (f : Flow) : PipeCall → Flow
  | .read caller handle capacity =>
    let (_,pipes,result) := pipeRead caller.system f.pipes caller.cpu handle capacity
    let bytes := if decode handle = some (id,0) then result.toOption.getD [] else []
    {f with pipes,delivered := f.delivered ++ bytes}
  | .write caller handle data =>
    let (_,pipes,result) := pipeWrite caller.system f.pipes caller.cpu handle data
    let bytes := if decode handle = some (id,1) then data.take result.toNat else []
    {f with pipes,accepted := f.accepted ++ bytes}
  | .close caller handle => {f with pipes := (pipeClose caller.system f.pipes caller.cpu handle).2.1}

def contents (p : PipeState) : List Byte := window pipeBuffer p.data p.tail p.count

/-- The indices of a pipe fit its number of bytes. -/
structure Wound (p : PipeState) : Prop where
  tail : p.tail < pipeBuffer
  head : p.head = (p.tail + p.count) % pipeBuffer
  room : p.count ≤ pipeBuffer

/-- Nothing of a pipe but its bytes differs from `p`. -/
structure SameEnds (p p' : PipeState) : Prop where
  used : p'.used = p.used
  ownerPid : p'.ownerPid = p.ownerPid
  readers : p'.readers = p.readers
  writers : p'.writers = p.writers

theorem SameEnds.trans {p q r : PipeState} (first : SameEnds p q) (second : SameEnds q r) : SameEnds p r :=
  ⟨second.used.trans first.used,second.ownerPid.trans first.ownerPid,
    second.readers.trans first.readers,second.writers.trans first.writers⟩

theorem popBytes_window {p : PipeState} (n : Nat) (tail : p.tail < pipeBuffer) :
    popBytes p n = ({p with tail := (p.tail + n) % pipeBuffer},window pipeBuffer p.data p.tail n) := by
  induction n generalizing p with
  | zero =>
    rw [Nat.add_zero,Nat.mod_eq_of_lt tail]
    rfl
  | succ n ih =>
    have next : (p.tail + 1) % pipeBuffer < pipeBuffer := Nat.mod_lt _ (by unfold pipeBuffer; omega)
    have later := @ih {p with tail := (p.tail + 1) % pipeBuffer} next
    simp only [popBytes,popByte,later,window_pop,Nat.mod_add_mod,Nat.mod_eq_of_lt tail]
    rw [Nat.add_assoc,Nat.add_comm 1 n]

theorem popBytes_wound {p : PipeState} {n : Nat} (wound : Wound p) (enough : n ≤ p.count) :
    (popBytes p n).2.length = n ∧ (popBytes p n).2 ++ contents {(popBytes p n).1 with count := p.count - n} = contents p ∧
      Wound {(popBytes p n).1 with count := p.count - n} ∧ SameEnds p {(popBytes p n).1 with count := p.count - n} := by
  obtain ⟨tail,head,room⟩ := wound
  rw [popBytes_window n tail]
  refine ⟨window_length,?_,⟨?_,?_,?_⟩,⟨rfl,rfl,rfl,rfl⟩⟩
  · simp only [contents,window_mod]
    rw [← window_append,Nat.add_sub_cancel' enough]
  · exact Nat.mod_lt _ (by unfold pipeBuffer; omega)
  · simp only [Nat.mod_add_mod]
    rw [head,Nat.add_assoc,Nat.add_sub_cancel' enough]
  · exact Nat.le_trans (Nat.sub_le _ _) room

theorem pushBytes_count (p : PipeState) (bytes : List Byte) (count : Nat) :
    pushBytes {p with count} bytes = {pushBytes p bytes with count} := by
  induction bytes generalizing p with
  | nil => rfl
  | cons c rest ih => exact ih {p with data := Function.update p.data p.head c,head := (p.head + 1) % pipeBuffer}

theorem pushBytes_kept (p : PipeState) (bytes : List Byte) : (pushBytes p bytes).count = p.count := by
  have counted := congrArg PipeState.count (pushBytes_count p bytes p.count)
  exact counted

theorem pushBytes_wound {p : PipeState} {bytes : List Byte} (wound : Wound p)
    (space : p.count + bytes.length ≤ pipeBuffer) :
    contents {pushBytes p bytes with count := p.count + bytes.length} = contents p ++ bytes ∧
      Wound {pushBytes p bytes with count := p.count + bytes.length} ∧
      SameEnds p {pushBytes p bytes with count := p.count + bytes.length} := by
  induction bytes generalizing p with
  | nil => exact ⟨(List.append_nil _).symm,wound,rfl,rfl,rfl,rfl⟩
  | cons c rest ih =>
    rw [List.length_cons] at space ⊢
    obtain ⟨tail,head,room⟩ := wound
    let r : PipeState := {p with data := Function.update p.data p.head c,head := (p.head + 1) % pipeBuffer}
    let q : PipeState := {r with count := p.count + 1}
    have wound : Wound q := by
      refine ⟨tail,?_,?_⟩
      · change (p.head + 1) % pipeBuffer = (p.tail + (p.count + 1)) % pipeBuffer
        rw [head,Nat.mod_add_mod,Nat.add_assoc]
      · change p.count + 1 ≤ pipeBuffer
        omega
    have pushed : contents q = contents p ++ [c] := by
      have next := @window_push Byte pipeBuffer p.data p.tail p.count c (by omega)
      rw [← head] at next
      exact next
    have later := @ih q wound (by change p.count + 1 + rest.length ≤ pipeBuffer; omega)
    have total : p.count + (rest.length + 1) = q.count + rest.length := by
      change _ = p.count + 1 + rest.length
      omega
    have same : {pushBytes p (c::rest) with count := q.count + rest.length} =
        {pushBytes q rest with count := q.count + rest.length} := by
      have first : pushBytes p (c::rest) = pushBytes r rest := rfl
      have counted : pushBytes q rest = {pushBytes r rest with count := p.count + 1} :=
        pushBytes_count r rest (p.count + 1)
      rw [first,counted]
    rw [total,same]
    obtain ⟨content,wound,ends⟩ := later
    have kept : SameEnds p q := ⟨rfl,rfl,rfl,rfl⟩
    refine ⟨?_,wound,kept.trans ends⟩
    rw [content,pushed,List.append_assoc,List.singleton_append]

theorem wakeup_currentLocal (s : System) (channel cpu : Nat) :
    currentLocal (processWakeup s channel) cpu = currentLocal s cpu := by
  unfold processWakeup
  split <;> rfl

theorem wakeup_unused (s : System) (channel : Nat) (i : Slot) :
    ((processWakeup s channel).processes i).state = .unused ↔ (s.processes i).state = .unused := by
  unfold processWakeup
  split
  · rfl
  · dsimp only
    split
    · rfl
    · unfold wakeOn
      split
      next asleep => simp [asleep.1]
      next => rfl

theorem sleepOn_blocked {s : System} {cpu channel : Nat} {c : Slot} (running : currentLocal s cpu = some c)
    (ordinary : c ≠ bootstrap) (taken : (s.processes c).state ≠ .unused) (nonzero : wrap channel ≠ 0) :
    (processSleepOn s cpu channel).2 = waitBlocked := by
  simp [processSleepOn,running,ordinary,taken,nonzero]

theorem decode_bound {handle id side : Nat} (valid : decode handle = some (id,side)) : id < pipeMax := by
  unfold decode at valid
  split at valid
  · cases valid
  next inside =>
    cases valid
    omega

theorem pipeChannel_nonzero {id side : Nat} (bound : id < pipeMax) (half : side < 2) :
    wrap (pipeChannel id side) ≠ 0 := by
  unfold pipeMax at bound
  interval_cases id <;> interval_cases side <;> decide

/-- What a call has done to the pipe `id`: it has appended `bytes` and nothing else. -/
structure Appends (id : Nat) (pipes pipes' : Pipes) (bytes : List Byte) : Prop where
  content : contents (pipes' id) = contents (pipes id) ++ bytes
  wound : Wound (pipes' id)
  ends : SameEnds (pipes id) (pipes' id)
  others : ∀ j, j ≠ id → pipes' j = pipes j

theorem Appends.nothing {id : Nat} {pipes : Pipes} (wound : Wound (pipes id)) : Appends id pipes pipes [] :=
  ⟨(List.append_nil _).symm,wound,⟨rfl,rfl,rfl,rfl⟩,fun _ _ => rfl⟩

theorem Appends.trans {id : Nat} {pipes₀ pipes₁ pipes₂ : Pipes} {first second : List Byte}
    (before : Appends id pipes₀ pipes₁ first) (after : Appends id pipes₁ pipes₂ second) :
    Appends id pipes₀ pipes₂ (first ++ second) := by
  refine ⟨?_,after.wound,before.ends.trans after.ends,?_⟩
  · rw [after.content,before.content,List.append_assoc]
  · intro j other
    rw [after.others j other,before.others j other]

/-- The loop of a write acknowledges exactly what it has put into the pipe. -/
theorem pipeWriteLoop_appends {cpu id fuel done : Nat} {c : Slot} {s : System} {pipes : Pipes} {left : List Byte}
    (bound : id < pipeMax) (ordinary : c ≠ bootstrap) (enough : left.length < fuel)
    (running : currentLocal s cpu = some c) (taken : (s.processes c).state ≠ .unused) (wound : Wound (pipes id)) :
    ∃ n, (pipeWriteLoop cpu id fuel s pipes left done).2.2.toNat = done + n ∧
      Appends id pipes (pipeWriteLoop cpu id fuel s pipes left done).2.1 (left.take n) := by
  induction fuel generalizing s pipes left done with
  | zero => omega
  | succ fuel ih =>
    unfold pipeWriteLoop
    dsimp only
    split
    · refine ⟨0,?_,.nothing wound⟩
      dsimp only
      split <;> omega
    split
    next space =>
      have room := wound.room
      generalize size : min left.length (pipeBuffer - (pipes id).count) = n
      have taken' : (left.take n).length = n := by
        rw [List.length_take]
        omega
      have round : Appends id pipes (Function.update pipes id
          {pushBytes (pipes id) (left.take n) with count := (pushBytes (pipes id) (left.take n)).count + n})
          (left.take n) := by
        have pushed := @pushBytes_wound (pipes id) (left.take n) wound (by omega)
        rw [taken'] at pushed
        rw [pushBytes_kept]
        obtain ⟨content,wound',ends⟩ := pushed
        refine ⟨by rwa [Function.update_self],by rwa [Function.update_self],by rwa [Function.update_self],?_⟩
        intro j other
        rw [Function.update_of_ne other]
      dsimp only at round
      split
      next finished =>
        refine ⟨n,?_,round⟩
        exact Int.toNat_natCast _
      next more =>
        obtain ⟨m,result,later⟩ := @ih (done + n) (processWakeup s (pipeChannel id 0)) _ (left.drop n)
          (by rw [List.length_drop]; omega) (by rw [wakeup_currentLocal]; exact running)
          (by rw [ne_eq,wakeup_unused]; exact taken) round.wound
        refine ⟨n + m,?_,?_⟩
        · rw [result]
          omega
        · rw [List.take_add]
          exact round.trans later
    next full =>
      have blocked := sleepOn_blocked running ordinary taken (pipeChannel_nonzero bound (by decide : 1 < 2))
      refine ⟨0,?_,.nothing wound⟩
      simp only [blocked,if_pos]
      split
      · omega
      next fresh =>
        rw [not_not.mp fresh]
        rfl

/-- The bytes that a read of the pipe `id` returns are the oldest ones in it. -/
theorem pipeRead_removes {id : Nat} {pipes : Pipes} (wound : Wound (pipes id)) (s : System)
    (cpu handle capacity : Nat) :
    Wound ((pipeRead s pipes cpu handle capacity).2.1 id) ∧
      (if decode handle = some (id,0) then (pipeRead s pipes cpu handle capacity).2.2.toOption.getD [] else []) ++
        contents ((pipeRead s pipes cpu handle capacity).2.1 id) = contents (pipes id) := by
  have unread {e : Int} {s' : System} {pipes' : Pipes} (same : pipes' id = pipes id)
      {result : System × Pipes × Except Int (List Byte)} (shape : result = (s',pipes',.error e)) :
      Wound (result.2.1 id) ∧
        (if decode handle = some (id,0) then result.2.2.toOption.getD [] else []) ++ contents (result.2.1 id) =
          contents (pipes id) := by
    subst shape
    dsimp only [Except.toOption,Option.getD_none]
    rw [same,ite_self,List.nil_append]
    exact ⟨wound,rfl⟩
  unfold pipeRead
  cases target : decode handle with
  | none => exact ⟨wound,rfl⟩
  | some end' =>
    obtain ⟨k,side⟩ := end'
    rw [target] at unread
    dsimp only
    split
    · exact unread rfl rfl
    next valid =>
      rw [not_or,not_not] at valid
      split
      · exact unread rfl rfl
      split
      next given =>
        by_cases own : k = id
        · subst own
          obtain ⟨_,taken,wound',_⟩ :=
            popBytes_wound wound (Nat.min_le_left (pipes k).count capacity)
          dsimp only
          rw [if_pos (by rw [valid.1]),Function.update_self]
          have kept : (popBytes (pipes k) (min (pipes k).count capacity)).1.count = (pipes k).count := by
            rw [popBytes_window _ wound.tail]
          rw [kept]
          exact ⟨wound',taken⟩
        · have other : some (k,side) ≠ some (id,0) := by
            intro same
            cases same
            exact own rfl
          dsimp only
          rw [if_neg other,Function.update_of_ne (Ne.symm own)]
          exact ⟨wound,rfl⟩
      split
      · exact unread rfl rfl
      · exact unread rfl rfl

theorem pipeClose_keeps {id : Nat} {pipes : Pipes} (wound : Wound (pipes id)) (s : System) (cpu handle : Nat) :
    Wound ((pipeClose s pipes cpu handle).2.1 id) ∧
      contents ((pipeClose s pipes cpu handle).2.1 id) = contents (pipes id) := by
  have ends (used : Bool) (readers writers : Nat) : Wound {pipes id with used,readers,writers} ∧
      contents {pipes id with used,readers,writers} = contents (pipes id) :=
    ⟨⟨wound.tail,wound.head,wound.room⟩,rfl⟩
  unfold pipeClose
  split
  · exact ⟨wound,rfl⟩
  next k side _ =>
    dsimp only
    split
    · exact ⟨wound,rfl⟩
    · by_cases own : id = k
      · subst own
        dsimp only
        rw [Function.update_self]
        by_cases half : side ≠ 0
        · rw [if_pos half]
          split
          · exact ends _ _ _
          · exact ends _ _ _
        · rw [if_neg half]
          split
          · exact ends _ _ _
          · exact ends _ _ _
      · dsimp only
        rw [Function.update_of_ne own]
        exact ⟨wound,rfl⟩

theorem pipeWriteLoop_others {cpu k fuel done : Nat} {s : System} {pipes : Pipes} {left : List Byte} {j : Nat}
    (other : j ≠ k) : (pipeWriteLoop cpu k fuel s pipes left done).2.1 j = pipes j := by
  induction fuel generalizing s pipes left done with
  | zero => rfl
  | succ fuel ih =>
    unfold pipeWriteLoop
    dsimp only
    split
    · rfl
    split
    · split
      · exact Function.update_of_ne other _ _
      · rw [ih]
        exact Function.update_of_ne other _ _
    · rfl

/-- The write end `id` of a call takes in exactly what it acknowledges. -/
theorem pipeWrite_adds {id : Nat} {pipes : Pipes} (wound : Wound (pipes id)) (caller : Caller) (handle : Nat)
    (data : List Byte) :
    Wound ((pipeWrite caller.system pipes caller.cpu handle data).2.1 id) ∧
      contents ((pipeWrite caller.system pipes caller.cpu handle data).2.1 id) = contents (pipes id) ++
        if decode handle = some (id,1) then
          data.take (pipeWrite caller.system pipes caller.cpu handle data).2.2.toNat else [] := by
  unfold pipeWrite
  cases target : decode handle with
  | none => exact ⟨wound,(List.append_nil _).symm⟩
  | some end' =>
    obtain ⟨k,side⟩ := end'
    dsimp only
    split
    · refine ⟨wound,?_⟩
      dsimp only
      rw [show (-1 : Int).toNat = 0 from rfl,List.take_zero,ite_self,List.append_nil]
    next valid =>
      rw [not_or] at valid
      by_cases own : k = id
      · subst own
        obtain ⟨n,result,appended⟩ := @pipeWriteLoop_appends caller.cpu k (data.length + 1) 0 caller.slot
          caller.system pipes data (decode_bound target) caller.ordinary (Nat.lt_succ_self _) caller.running
          caller.taken wound
        have half : side = 1 := by
          unfold decode at target
          split at target
          · cases target
          · cases target
            have nonzero := valid.1
            omega
        rw [Nat.zero_add] at result
        rw [if_pos (by rw [half]),result]
        exact ⟨appended.wound,appended.content⟩
      · have other : some (k,side) ≠ some (id,1) := by
          intro same
          cases same
          exact own rfl
        rw [if_neg other,List.append_nil,pipeWriteLoop_others (Ne.symm own)]
        exact ⟨wound,rfl⟩

/-- What was accepted is what was delivered and what is still in the pipe. -/
structure Faithful (id : Nat) (f : Flow) : Prop where
  stream : f.accepted = f.delivered ++ contents (f.pipes id)
  wound : Wound (f.pipes id)

theorem faithful_step {id : Nat} {f : Flow} (faithful : Faithful id f) (call : PipeCall) :
    Faithful id (flowStep id f call) := by
  obtain ⟨stream,wound⟩ := faithful
  cases call with
  | read caller handle capacity =>
    obtain ⟨wound',removed⟩ := pipeRead_removes wound caller.system caller.cpu handle capacity
    refine ⟨?_,wound'⟩
    rw [← removed,← List.append_assoc] at stream
    exact stream
  | write caller handle data =>
    obtain ⟨wound',added⟩ := pipeWrite_adds wound caller handle data
    refine ⟨?_,wound'⟩
    have grown := congrArg (f.delivered ++ ·) added
    rw [← List.append_assoc,← stream] at grown
    exact grown.symm
  | close caller handle =>
    obtain ⟨wound',kept⟩ := pipeClose_keeps wound caller.system caller.cpu handle
    exact ⟨stream.trans (congrArg (f.delivered ++ ·) kept.symm),wound'⟩

theorem faithful_run {id : Nat} {f : Flow} (faithful : Faithful id f) (calls : List PipeCall) :
    Faithful id (run (flowStep id) f calls) :=
  @run_invariant _ _ (flowStep id) (Faithful id) (fun _ call held => faithful_step held call) f calls faithful

theorem pipeCreate_faithful {pipes created : Pipes} {pid readEnd writeEnd : Nat}
    (given : pipeCreate pipes pid = some (created,readEnd,writeEnd)) :
    Faithful (readEnd / 2) ⟨created,[],[]⟩ := by
  unfold pipeCreate at given
  split at given
  · cases given
  split at given
  · cases given
  next i _ =>
    cases given
    rw [Nat.mul_div_cancel i (by decide)]
    refine ⟨?_,?_⟩
    · dsimp only
      rw [Function.update_self]
      rfl
    · dsimp only
      rw [Function.update_self]
      exact ⟨Nat.zero_lt_succ _,rfl,Nat.zero_le _⟩

theorem sleepOn_negative (s : System) (cpu channel : Nat) : (processSleepOn s cpu channel).2 < 0 := by
  unfold processSleepOn
  split
  · exact (by decide : (-1 : Int) < 0)
  split
  · exact (by decide : (-1 : Int) < 0)
  split
  · exact (by decide : (-1 : Int) < 0)
  · exact (by decide : waitBlocked < 0)

/-- The number that `pipe_read` returns. -/
def readResult (result : Except Int (List Byte)) : Int :=
  match result with
  | .ok bytes => bytes.length
  | .error e => e

/-- A read that gives 0 has found its pipe empty and without a writer. -/
theorem pipeRead_end {s : System} {pipes : Pipes} {cpu handle capacity id : Nat} (target : decode handle = some (id,0))
    (wound : Wound (pipes id)) (ended : readResult (pipeRead s pipes cpu handle capacity).2.2 = 0) :
    (pipes id).count = 0 ∧ (pipes id).writers = 0 := by
  unfold pipeRead at ended
  rw [target] at ended
  dsimp only at ended
  split at ended
  · cases ended
  next valid =>
    split at ended
    · cases ended
    split at ended
    next given =>
      obtain ⟨length,_⟩ := popBytes_wound wound (Nat.min_le_left (pipes id).count capacity)
      dsimp only [readResult] at ended
      rw [length] at ended
      omega
    next empty =>
      split at ended
      next closed => exact ⟨not_not.mp empty,closed⟩
      next =>
        have negative := sleepOn_negative s cpu (pipeChannel id 0)
        dsimp only [readResult] at ended
        omega

/-- Whatever is written to, read from and closed of a pipe after its creation: its
readers get the accepted bytes in their order, its indices tell how many are left, and
the end of the stream is reported only behind the last accepted byte. -/
theorem pipe_faithful (pipes created : Pipes) (pid readEnd writeEnd : Nat)
    (given : pipeCreate pipes pid = some (created,readEnd,writeEnd)) (calls : List PipeCall) :
    let id := readEnd / 2
    let f := run (flowStep id) ⟨created,[],[]⟩ calls
    let p := f.pipes id
    f.delivered <+: f.accepted ∧ p.count + f.delivered.length = f.accepted.length ∧ p.count ≤ pipeBuffer ∧
      p.head = (p.tail + p.count) % pipeBuffer ∧
      ∀ (caller : Caller) (handle capacity : Nat), decode handle = some (id,0) →
        readResult (pipeRead caller.system f.pipes caller.cpu handle capacity).2.2 = 0 →
        f.delivered = f.accepted ∧ p.writers = 0 := by
  intro id f p
  obtain ⟨stream,wound⟩ := faithful_run (pipeCreate_faithful given) calls
  refine ⟨⟨_,stream.symm⟩,?_,wound.room,wound.head,?_⟩
  · rw [show f.accepted = f.delivered ++ contents p from stream,List.length_append,contents,window_length]
    omega
  · intro caller handle capacity target ended
    obtain ⟨empty,closed⟩ := pipeRead_end target wound ended
    refine ⟨?_,closed⟩
    rw [show f.accepted = f.delivered ++ contents p from stream,contents,show p.count = 0 from empty]
    exact (List.append_nil _).symm

/-- Pipes of which only the first is in use. -/
def firstTaken : Pipes := fun i => {(default : PipeState) with used := i = 0}

theorem pipe_faithful_second : ∃ created, pipeCreate firstTaken 2 = some (created,2,3) ∧
    ∀ calls, (run (flowStep 1) ⟨created,[],[]⟩ calls).delivered <+: (run (flowStep 1) ⟨created,[],[]⟩ calls).accepted := by
  refine ⟨_,rfl,?_⟩
  intro calls
  exact (pipe_faithful firstTaken _ 2 2 3 rfl calls).1

end LionOS.Channels

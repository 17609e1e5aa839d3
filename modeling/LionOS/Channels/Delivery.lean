import LionOS.Channels.Ipc
import LionOS.Library.Pool
import LionOS.Library.Run

/-! What becomes of the messages that `ipc_send` has accepted. -/
namespace LionOS.Channels
open LionOS.Physical LionOS.Processes LionOS.Library

structure Letter where
  sender : Nat
  receiver : Nat
  bytes : List Byte

/-- A call of `ipc_recv` or, from a processor, of `ipc_recv_blocking`. -/
structure Receive where
  pid : Nat
  capacity : Nat
  blocking : Option (System × Nat)

def Receive.apply (r : Receive) (q : IpcQueue) : IpcQueue × Received :=
  match r.blocking with
  | none => ipcRecv q r.pid r.capacity
  | some (s,cpu) => (ipcRecvBlocking s q cpu r.pid r.capacity).2

inductive MailCall
  | send (s : System) (receiverPid senderPid : Nat) (data : List Byte)
  | receive (r : Receive)
  | pending (receiverPid : Nat)

/-- The queue together with the letters whose `ipc_send` returned their length. -/
structure Mail where
  queue : IpcQueue
  post : Pool Letter

def mailStep (m : Mail) : MailCall → Mail
  | .send s receiverPid senderPid data =>
    let (_,queue,result) := ipcSend s m.queue receiverPid senderPid data
    if result = data.length then
      ⟨queue,m.post.put ((freeMessage m.queue).getD 0) ⟨senderPid,receiverPid,data⟩⟩
    else {m with queue}
  | .receive r =>
    let (queue,result) := r.apply m.queue
    match result with
    | .ok _ => ⟨queue,m.post.take ((findMessage m.queue r.pid).getD 0)⟩
    | .error _ => {m with queue}
  | .pending _ => m

def bootMail (raw : IpcQueue) : Mail := ⟨ipcInit raw,.empty⟩

/-- The number of accepted letters for a process that it has not received. -/
def undelivered (m : Mail) (pid : Nat) : Nat :=
  ((List.range m.post.items.length).filter fun n =>
    decide (n ∉ m.post.taken) && (m.post.items[n]?).any fun letter => decide (letter.receiver = pid)).length

def IpcMessage.letter (m : IpcMessage) : Option Letter :=
  if m.used then some ⟨m.senderPid,m.receiverPid,(List.range m.length).map m.data⟩ else none

def letterAt (q : IpcQueue) (i : Nat) : Option Letter := (q i).letter

theorem letterAt_any (q : IpcQueue) (pid i : Nat) :
    (letterAt q i).any (fun letter => decide (letter.receiver = pid)) =
      ((q i).used && decide ((q i).receiverPid = pid)) := by
  unfold letterAt IpcMessage.letter
  cases (q i).used <;> rfl

theorem letterAt_update (q : IpcQueue) (i : Nat) (m : IpcMessage) (j : Nat) :
    letterAt (Function.update q i m) j = if j = i then m.letter else letterAt q j := by
  unfold letterAt
  by_cases own : j = i
  · subst own
    rw [Function.update_self,if_pos rfl]
  · rw [Function.update_of_ne own,if_neg own]

theorem range_map_getD {data : List Byte} {other : Nat → Byte} :
    (List.range data.length).map (fun j => if j < data.length then data.getD j 0 else other j) = data := by
  apply List.ext_getElem
  · simp
  · intro j inside bound
    simp [bound]

def sentMessage (old : IpcMessage) (receiverPid senderPid : Nat) (data : List Byte) : IpcMessage :=
  ⟨true,senderPid,receiverPid,data.length,fun j => if j < data.length then data.getD j 0 else old.data j⟩

theorem sentMessage_letter (old : IpcMessage) (receiverPid senderPid : Nat) (data : List Byte) :
    (sentMessage old receiverPid senderPid data).letter = some ⟨senderPid,receiverPid,data⟩ := by
  simp only [IpcMessage.letter,sentMessage,if_true]
  rw [range_map_getD]

theorem letterAt_sent (q : IpcQueue) (i receiverPid senderPid : Nat) (data : List Byte) (j : Nat) :
    letterAt (Function.update q i (sentMessage (q i) receiverPid senderPid data)) j =
      if j = i then some ⟨senderPid,receiverPid,data⟩ else letterAt q j := by
  rw [letterAt_update,sentMessage_letter]

theorem takeMessage_queue (q : IpcQueue) (i capacity j : Nat) :
    letterAt (takeMessage q i capacity).1 j = if j = i then none else letterAt q j :=
  letterAt_update q i _ j

theorem takeMessage_letter {q : IpcQueue} {i capacity : Nat} {letter : Letter} (here : letterAt q i = some letter) :
    (takeMessage q i capacity).2 = (letter.bytes.take capacity,letter.sender) := by
  unfold letterAt IpcMessage.letter at here
  split at here
  · cases here
    simp [takeMessage,← List.map_take,List.take_range,Nat.min_comm]
  · cases here

/-- An accepted letter goes to the lowest free slot. -/
theorem ipcSend_cases (s : System) (q : IpcQueue) (receiverPid senderPid : Nat) (data : List Byte) :
    (∃ i, ¬ (receiverPid = 0 ∨ data = [] ∨ data.length > ipcMessageMax) ∧ freeMessage q = some i ∧ (ipcSend s q receiverPid senderPid data).2 =
        (Function.update q i (sentMessage (q i) receiverPid senderPid data),(data.length : Int))) ∨
      (ipcSend s q receiverPid senderPid data).2 = (q,-1) := by
  unfold ipcSend
  split
  · exact .inr rfl
  next valid =>
    split
    · exact .inr rfl
    next i free =>
      exact .inl ⟨i,valid,free,rfl⟩

/-- A receiving call takes the message in the lowest slot for the process or finds
none. -/
theorem receive_cases (r : Receive) (q : IpcQueue) :
    (∃ i, findMessage q r.pid = some i ∧
        r.apply q = ((takeMessage q i r.capacity).1,.ok (takeMessage q i r.capacity).2)) ∨
      ∃ e, r.apply q = (q,.error e) ∧
        (e = ipcRecvEmpty ∨ r.pid ≠ 0 ∧ r.capacity ≠ 0 → findMessage q r.pid = none) := by
  obtain ⟨pid,capacity,blocking⟩ := r
  have invalid {e : Int} (bad : pid = 0 ∨ capacity = 0) (refused : e = -1) :
      e = ipcRecvEmpty ∨ pid ≠ 0 ∧ capacity ≠ 0 → findMessage q pid = none := by
    rintro (empty | ⟨positive,room⟩)
    · rw [refused] at empty
      cases empty
    · rcases bad with zero | zero
      · exact absurd zero positive
      · exact absurd zero room
  cases blocking with
  | none =>
    simp only [Receive.apply,ipcRecv]
    split
    next bad => exact .inr ⟨_,rfl,invalid bad rfl⟩
    split
    next absent => exact .inr ⟨_,rfl,fun _ => absent⟩
    next i found => exact .inl ⟨i,found,rfl⟩
  | some caller =>
    obtain ⟨s,cpu⟩ := caller
    simp only [Receive.apply,ipcRecvBlocking]
    split
    next bad => exact .inr ⟨_,rfl,invalid bad rfl⟩
    split
    next i found => exact .inl ⟨i,found,rfl⟩
    next absent => exact .inr ⟨_,rfl,fun _ => absent⟩

theorem freeMessage_some {q : IpcQueue} {i : Nat} (free : freeMessage q = some i) :
    i < ipcQueueMax ∧ letterAt q i = none := by
  obtain ⟨bound,unused,_⟩ := find_range.mp free
  refine ⟨bound,?_⟩
  rw [Bool.not_eq_true'] at unused
  simp [letterAt,IpcMessage.letter,unused]

theorem findMessage_some {q : IpcQueue} {pid i : Nat} (found : findMessage q pid = some i) :
    i < ipcQueueMax ∧ (∃ letter, letterAt q i = some letter ∧ letter.receiver = pid) ∧
      ∀ j, j < i → ∀ letter, letterAt q j = some letter → letter.receiver ≠ pid := by
  obtain ⟨bound,matched,lower⟩ := find_range.mp found
  refine ⟨bound,?_,?_⟩
  · rw [← letterAt_any,Option.any_eq_true] at matched
    obtain ⟨letter,here,own⟩ := matched
    exact ⟨letter,here,of_decide_eq_true own⟩
  · intro j less letter here own
    have other := lower j less
    rw [← letterAt_any,here,Option.any_some] at other
    exact of_decide_eq_false other own

/-- The queue holds the accepted letters that have not been received. -/
structure Delivering (m : Mail) : Prop where
  tracks : m.post.Tracks ipcQueueMax (letterAt m.queue)
  addressed : ∀ letter ∈ m.post.items, letter.receiver ≠ 0

theorem delivering_step {m : Mail} (delivering : Delivering m) (call : MailCall) : Delivering (mailStep m call) := by
  cases call with
  | send s receiverPid senderPid data =>
    rcases ipcSend_cases s m.queue receiverPid senderPid data with ⟨i,valid,free,result⟩ | refused
    · obtain ⟨bound,vacant⟩ := freeMessage_some free
      simp only [mailStep,result,free,if_true,Option.getD_some]
      refine ⟨delivering.tracks.put bound vacant ?_,?_⟩
      · exact letterAt_sent m.queue i receiverPid senderPid data
      · intro letter member
        rcases List.mem_append.mp member with before | now
        · exact delivering.addressed letter before
        · rw [List.mem_singleton.mp now]
          exact (not_or.mp valid).1
    · have other : (-1 : Int) ≠ data.length := by omega
      simp only [mailStep,refused,if_neg other]
      exact delivering
  | receive r =>
    rcases receive_cases r m.queue with ⟨i,found,result⟩ | ⟨e,result,_⟩
    · obtain ⟨bound,⟨letter,here,_⟩,_⟩ := findMessage_some found
      obtain ⟨n,present,_⟩ := delivering.tracks.slot bound here
      simp only [mailStep,result,found,Option.getD_some]
      refine ⟨delivering.tracks.take bound here (takeMessage_queue m.queue i r.capacity),?_⟩
      rw [Pool.take_present present]
      exact delivering.addressed
    · simp only [mailStep,result]
      exact delivering
  | pending => exact delivering

theorem letterAt_init (raw : IpcQueue) (i : Nat) (bound : i < ipcQueueMax) : letterAt (ipcInit raw) i = none := by
  simp only [ipcInit,letterAt,IpcMessage.letter,if_pos bound]
  rfl

theorem delivering_run (raw : IpcQueue) (calls : List MailCall) : Delivering (run mailStep (bootMail raw) calls) := by
  refine @run_invariant _ _ mailStep Delivering (fun _ call held => delivering_step held call) _ calls ?_
  refine ⟨Pool.tracks_empty (letterAt_init raw),?_⟩
  intro letter member
  cases member

/-- A receiving call delivers one letter for its process that was not delivered
before. -/
theorem Delivering.delivers {m : Mail} (delivering : Delivering m) {r : Receive} {bytes : List Byte} {sender : Nat}
    (result : (r.apply m.queue).2 = .ok (bytes,sender)) :
    ∃ n letter, n ∉ m.post.taken ∧ m.post.items[n]? = some letter ∧ letter.receiver = r.pid ∧
      sender = letter.sender ∧ bytes = letter.bytes.take r.capacity ∧
      (mailStep m (.receive r)).post.taken = m.post.taken ++ [n] := by
  rcases receive_cases r m.queue with ⟨i,found,taken⟩ | ⟨e,refused,_⟩
  · obtain ⟨bound,⟨letter,here,own⟩,_⟩ := findMessage_some found
    obtain ⟨n,present,item⟩ := delivering.tracks.slot bound here
    rw [taken,takeMessage_letter here] at result
    cases result
    refine ⟨n,letter,(delivering.tracks.exact.inside present).2.2,item,own,rfl,rfl,?_⟩
    simp only [mailStep,taken,found,Option.getD_some]
    rw [Pool.take_present present]
  · rw [refused] at result
    cases result

/-- No letter for a process waits while a receiving call of it finds nothing. -/
theorem Delivering.exhausted {m : Mail} (delivering : Delivering m) {pid : Nat} (absent : findMessage m.queue pid = none)
    {n : Nat} {letter : Letter} (item : m.post.items[n]? = some letter) (own : letter.receiver = pid) :
    n ∈ m.post.taken := by
  by_contra kept
  obtain ⟨known,_⟩ := List.getElem?_eq_some_iff.mp item
  obtain ⟨i,present⟩ := delivering.tracks.exact.somewhere known kept
  obtain ⟨bound,_,_⟩ := delivering.tracks.exact.inside present
  have none' := find_range_none.mp absent i bound
  rw [← letterAt_any,← delivering.tracks.held bound,Pool.held,present,Option.bind_some,item,Option.any_some] at none'
  exact of_decide_eq_false none' own

theorem Delivering.pending {m : Mail} (delivering : Delivering m) (pid : Nat) :
    ipcPending m.queue pid = undelivered m pid := by
  have counted := delivering.tracks.exact.count_waiting fun letter => decide (letter.receiver = pid)
  have slots : (List.range ipcQueueMax).filter (fun i => (m.post.held i).any fun letter => decide (letter.receiver = pid)) =
      (List.range ipcQueueMax).filter fun i => (m.queue i).used && decide ((m.queue i).receiverPid = pid) := by
    apply List.filter_congr
    intro i member
    rw [delivering.tracks.held (List.mem_range.mp member),letterAt_any]
  rw [undelivered,← counted,slots,ipcPending]
  split
  next zero =>
    subst zero
    rw [← slots]
    symm
    rw [List.length_eq_zero_iff,List.filter_eq_nil_iff]
    intro i _ addressed
    obtain ⟨letter,here,own⟩ := (Option.any_eq_true _ _).mp addressed
    obtain ⟨n,_,item⟩ := Pool.held_slot here
    exact delivering.addressed letter (List.mem_of_getElem? item) (of_decide_eq_true own)
  · rfl

/-- After any calls: no accepted letter has been received twice; a receiving call gives
the beginning of an accepted letter for its process, with the letter's sender, that was
not received before; it finds nothing only when every letter for the process has been
received; and `ipc_pending` counts those that have not. -/
theorem delivery_exact (raw : IpcQueue) (calls : List MailCall) :
    let m := run mailStep (bootMail raw) calls
    m.post.taken.Nodup ∧
    (∀ (r : Receive) bytes sender, (r.apply m.queue).2 = .ok (bytes,sender) →
      ∃ n letter, n ∉ m.post.taken ∧ m.post.items[n]? = some letter ∧ letter.receiver = r.pid ∧
        sender = letter.sender ∧ bytes = letter.bytes.take r.capacity ∧
        (mailStep m (.receive r)).post.taken = m.post.taken ++ [n]) ∧
    (∀ (r : Receive) e, (r.apply m.queue).2 = .error e → e = ipcRecvEmpty ∨ r.pid ≠ 0 ∧ r.capacity ≠ 0 →
      ∀ n letter, m.post.items[n]? = some letter → letter.receiver = r.pid → n ∈ m.post.taken) ∧
    ∀ pid, ipcPending m.queue pid = undelivered m pid := by
  intro m
  have delivering : Delivering m := delivering_run raw calls
  refine ⟨delivering.tracks.exact.once,?_,?_,delivering.pending⟩
  · intro r bytes sender result
    exact delivering.delivers result
  · intro r e result valid n letter item own
    rcases receive_cases r m.queue with ⟨i,_,taken⟩ | ⟨e',refused,absent⟩
    · rw [taken] at result
      cases result
    · rw [refused] at result
      cases result
      exact delivering.exhausted (absent valid) item own

end LionOS.Channels

import LionOS.Channels.Handles
import LionOS.Channels.Wakeups
import LionOS.Processes.Orphans

/-! Whose pipes and messages are in the tables. A slot is given back by `pipe_close` and by the
receiving calls only, so that it stays when the process that it belongs to ends. -/
namespace LionOS.Channels
open LionOS.Physical LionOS.Processes LionOS.Library

/-- What the system calls check before `ipc_send` and pass to `pipe_create`. -/
def Served (st : Station) : Section → Prop
  | .send receiverPid _ _ => processExists st.system receiverPid = true
  | .pipeCreate ownerPid => ownerPid = currentPid st.system 0
  | _ => True

instance Served.decidable (st : Station) : ∀ sec, Decidable (Served st sec)
  | .send _ _ _ => inferInstanceAs (Decidable (_ = _))
  | .pipeCreate _ => inferInstanceAs (Decidable (_ = _))
  | .recv _ _ | .recvBlocking _ _ | .pipeRead _ _ _ | .pipeWrite _ _ _ | .pipeClose _ _ | .mouseEvent _
  | .mouseRead _ | .process _ | .wakeup _ => isTrue trivial

/-- The pids of the processes that a section ends. -/
def sectionEnds (st : Station) : Section → List Nat
  | .process call => endedBy st.system call
  | _ => []

/-- The station together with the pids of all processes that have ended on it. -/
structure Tenancy where
  station : Station
  ended : List Nat

def Tenancy.step (t : Tenancy) (sec : Section) : Tenancy :=
  ⟨sectionStep t.station sec,sectionEnds t.station sec ++ t.ended⟩

def Tenancy.Served (t : Tenancy) (sec : Section) : Prop := Channels.Served t.station sec

instance Tenancy.Served.decidable (t : Tenancy) (sec : Section) : Decidable (t.Served sec) :=
  Channels.Served.decidable t.station sec

/-- The station after `process_init`, `ipc_init` and `pipe_init`. -/
def bootTenancy (s : System) (idle schedule : Nat) (queue : IpcQueue) (pipes : Pipes) (mouse : Mouse) : Tenancy :=
  ⟨bootStation s idle schedule (ipcInit queue) (pipeInit pipes) mouse,[]⟩

/-- The pid of a process that has not ended. -/
def Running (s : System) (pid : Nat) : Prop :=
  ∃ q, Live s q ∧ (s.processes q).state ≠ .zombie ∧ (s.processes q).isThread = false ∧ (s.processes q).pid = pid

instance Running.decidable (s : System) (pid : Nat) : Decidable (Running s pid) :=
  inferInstanceAs (Decidable (∃ _, _))

/-- A property of the owners of all pipes and of the receivers of all messages. -/
structure Tenants (st : Station) (holds : Nat → Prop) : Prop where
  pipes : ∀ i, i < pipeMax → (st.pipes i).used = true → holds (st.pipes i).ownerPid
  messages : ∀ i, i < ipcQueueMax → (st.queue i).used = true → holds (st.queue i).receiverPid

/-! ### What a section does to the slots -/

def PipeState.tenant (p : PipeState) : Option Nat := if p.used then some p.ownerPid else none

def IpcMessage.tenant (m : IpcMessage) : Option Nat := if m.used then some m.receiverPid else none

/-- Every slot that has a tenant had the same one before. -/
def Keeps {α : Type} (tenant : α → Option Nat) (table table' : Nat → α) : Prop :=
  ∀ i pid, tenant (table' i) = some pid → tenant (table i) = some pid

section Slots
variable {α : Type} {tenant : α → Option Nat} {table : Nat → α}

theorem Keeps.refl : Keeps tenant table table := fun _ _ same => same

theorem Keeps.update {k : Nat} {a : α} (kept : ∀ pid, tenant a = some pid → tenant (table k) = some pid) :
    Keeps tenant table (Function.update table k a) := by
  intro i pid taken
  by_cases own : i = k
  · subst own
    rw [Function.update_self] at taken
    exact kept pid taken
  · rwa [Function.update_of_ne own] at taken

end Slots

section Pipes

theorem pushBytes_tenant (p : PipeState) (bytes : List Byte) : (pushBytes p bytes).tenant = p.tenant := by
  induction bytes generalizing p with
  | nil => rfl
  | cons c rest ih => exact ih {p with data := Function.update p.data p.head c,head := (p.head + 1) % pipeBuffer}

theorem popBytes_tenant (p : PipeState) (n : Nat) : (popBytes p n).1.tenant = p.tenant := by
  induction n generalizing p with
  | zero => rfl
  | succ n ih => exact ih {p with tail := (p.tail + 1) % pipeBuffer}

theorem pipeRead_tenants (s : System) (pipes : Pipes) (cpu handle capacity : Nat) :
    Keeps PipeState.tenant pipes (pipeRead s pipes cpu handle capacity).2.1 := by
  unfold pipeRead
  split
  · exact .refl
  dsimp only
  split
  · exact .refl
  split
  · exact .refl
  split
  · apply Keeps.update
    intro pid taken
    exact (popBytes_tenant _ _).symm.trans taken
  split
  · exact .refl
  · exact .refl

theorem pipeClose_tenants (s : System) (pipes : Pipes) (cpu handle : Nat) :
    Keeps PipeState.tenant pipes (pipeClose s pipes cpu handle).2.1 := by
  unfold pipeClose
  split
  · exact .refl
  dsimp only
  split
  · exact .refl
  next opened =>
    rw [not_or,Bool.not_eq_false] at opened
    apply Keeps.update
    intro pid taken
    unfold PipeState.tenant at taken ⊢
    rw [if_pos opened.1]
    split_ifs at taken
    all_goals exact taken

theorem pipeCreate_tenants {pipes created : Pipes} {ownerPid readEnd writeEnd i pid : Nat}
    (given : pipeCreate pipes ownerPid = some (created,readEnd,writeEnd)) (taken : (created i).tenant = some pid) :
    pid = ownerPid ∧ ownerPid ≠ 0 ∨ (pipes i).tenant = some pid := by
  have positive : ownerPid ≠ 0 := by
    rintro rfl
    simp [pipeCreate] at given
  obtain ⟨k,_,_,_,rfl⟩ := pipeCreate_given given
  by_cases own : i = k
  · rw [own,Function.update_self] at taken
    cases taken
    exact .inl ⟨rfl,positive⟩
  · rw [Function.update_of_ne own] at taken
    exact .inr taken

/-- A pipe that is open after a section has just been created or was open before. -/
theorem section_pipe {st : Station} {sec : Section} {i pid : Nat}
    (taken : ((sectionStep st sec).pipes i).tenant = some pid) :
    sec = .pipeCreate pid ∧ pid ≠ 0 ∨ (st.pipes i).tenant = some pid := by
  have slept (cpu channel : Nat) (bed : Bed) : Keeps PipeState.tenant st.pipes (st.sleep cpu channel bed).pipes := by
    rw [(sleep_amounts st cpu channel bed).2.2.1]
    exact .refl
  have old (kept : Keeps PipeState.tenant st.pipes (sectionStep st sec).pipes) :
      sec = .pipeCreate pid ∧ pid ≠ 0 ∨ (st.pipes i).tenant = some pid := .inr (kept i pid taken)
  cases sec with
  | pipeCreate ownerPid =>
    simp only [sectionStep] at taken
    split at taken
    · exact .inr taken
    next given =>
      rcases pipeCreate_tenants given taken with ⟨rfl,positive⟩ | before
      · exact .inl ⟨rfl,positive⟩
      · exact .inr before
  | pipeRead cpu handle capacity =>
    apply old
    unfold sectionStep
    dsimp only
    split
    · exact .refl
    split
    · exact .refl
    split
    · exact .refl
    split
    · exact pipeRead_tenants _ _ _ _ _
    split
    · exact .refl
    · exact slept _ _ _
  | pipeWrite cpu handle left =>
    apply old
    unfold sectionStep
    dsimp only
    split
    · exact .refl
    split
    · exact .refl
    split
    · exact .refl
    split
    · apply Keeps.update
      intro pid taken
      exact (pushBytes_tenant _ _).symm.trans taken
    · exact slept _ _ _
  | pipeClose cpu handle =>
    apply old
    unfold sectionStep
    dsimp only
    split
    · exact .refl
    · exact pipeClose_tenants _ _ _ _
  | recvBlocking cpu capacity =>
    apply old
    unfold sectionStep
    dsimp only
    split
    · exact .refl
    split
    · exact .refl
    · exact slept _ _ _
  | mouseRead cpu =>
    apply old
    unfold sectionStep
    dsimp only
    split
    · exact .refl
    split
    · exact .refl
    · exact slept _ _ _
  | wakeup channel =>
    apply old
    unfold sectionStep
    dsimp only
    split
    · exact .refl
    · exact .refl
  | send | recv | mouseEvent | process => exact old .refl

end Pipes

section Messages

theorem takeMessage_tenants (q : IpcQueue) (i capacity : Nat) :
    Keeps IpcMessage.tenant q (takeMessage q i capacity).1 := by
  apply Keeps.update
  intro pid taken
  simp [IpcMessage.tenant] at taken

theorem ipcRecv_tenants (q : IpcQueue) (receiverPid capacity : Nat) :
    Keeps IpcMessage.tenant q (ipcRecv q receiverPid capacity).1 := by
  unfold ipcRecv
  split
  · exact .refl
  split
  · exact .refl
  · exact takeMessage_tenants q _ capacity

theorem ipcSend_tenants {s : System} {q : IpcQueue} {receiverPid senderPid i pid : Nat} {data : List Byte}
    (taken : ((ipcSend s q receiverPid senderPid data).2.1 i).tenant = some pid) :
    pid = receiverPid ∧ receiverPid ≠ 0 ∨ (q i).tenant = some pid := by
  rcases ipcSend_cases s q receiverPid senderPid data with ⟨k,valid,_,sent⟩ | refused
  · rw [sent] at taken
    dsimp only at taken
    rw [not_or] at valid
    by_cases own : i = k
    · rw [own,Function.update_self] at taken
      cases taken
      exact .inl ⟨rfl,valid.1⟩
    · rw [Function.update_of_ne own] at taken
      exact .inr taken
  · rw [refused] at taken
    exact .inr taken

/-- A message that is in the queue after a section has just been sent or was there before. -/
theorem section_message {st : Station} {sec : Section} {i pid : Nat}
    (taken : ((sectionStep st sec).queue i).tenant = some pid) :
    (∃ senderPid data, sec = .send pid senderPid data) ∧ pid ≠ 0 ∨ (st.queue i).tenant = some pid := by
  have slept (cpu channel : Nat) (bed : Bed) : Keeps IpcMessage.tenant st.queue (st.sleep cpu channel bed).queue := by
    rw [(sleep_amounts st cpu channel bed).2.1]
    exact .refl
  have old (kept : Keeps IpcMessage.tenant st.queue (sectionStep st sec).queue) :
      (∃ senderPid data, sec = .send pid senderPid data) ∧ pid ≠ 0 ∨ (st.queue i).tenant = some pid :=
    .inr (kept i pid taken)
  cases sec with
  | send receiverPid senderPid data =>
    rcases ipcSend_tenants taken with ⟨rfl,positive⟩ | before
    · exact .inl ⟨⟨senderPid,data,rfl⟩,positive⟩
    · exact .inr before
  | recv receiverPid capacity => exact old (ipcRecv_tenants _ _ _)
  | recvBlocking cpu capacity =>
    apply old
    unfold sectionStep
    dsimp only
    split
    · exact .refl
    split
    · exact takeMessage_tenants st.queue _ capacity
    · exact slept _ _ _
  | pipeCreate ownerPid =>
    apply old
    unfold sectionStep
    dsimp only
    split
    · exact .refl
    · exact .refl
  | pipeRead cpu handle capacity =>
    apply old
    unfold sectionStep
    dsimp only
    split
    · exact .refl
    split
    · exact .refl
    split
    · exact .refl
    split
    · exact .refl
    split
    · exact .refl
    · exact slept _ _ _
  | pipeWrite cpu handle left =>
    apply old
    unfold sectionStep
    dsimp only
    split
    · exact .refl
    split
    · exact .refl
    split
    · exact .refl
    split
    · exact .refl
    · exact slept _ _ _
  | pipeClose cpu handle =>
    apply old
    unfold sectionStep
    dsimp only
    split
    · exact .refl
    · exact .refl
  | mouseRead cpu =>
    apply old
    unfold sectionStep
    dsimp only
    split
    · exact .refl
    split
    · exact .refl
    · exact slept _ _ _
  | wakeup channel =>
    apply old
    unfold sectionStep
    dsimp only
    split
    · exact .refl
    · exact .refl
  | mouseEvent | process => exact old .refl

end Messages

/-! ### The owners and receivers in a run -/

/-- Every pid that was known before is still known. -/
structure Recalls (ended : List Nat) (s : System) (ended' : List Nat) (s' : System) : Prop where
  remembered : Remembered ended' s'
  known : ∀ pid, Known ended s pid → Known ended' s' pid

section Run
variable {ended : List Nat}

theorem Recalls.refl {s : System} (remembered : Remembered ended s) : Recalls ended s ended s :=
  ⟨remembered,fun _ known => known⟩

theorem Recalls.step {s : System} (remembered : Remembered ended s) (call : Call) :
    Recalls ended s (endedBy s call ++ ended) (Processes.step s call) :=
  ⟨remembered.step call,fun _ known => known.step remembered.sound call⟩

/-- A task of any processor goes to sleep as one of the boot CPU does. -/
theorem Recalls.sleepOn {s : System} (remembered : Remembered ended s) (cpu channel : Nat) :
    Recalls ended s ended (processSleepOn s cpu channel).1 := by
  have swapped : Remembered ended {s with currentByCpu := fun _ => currentLocal s cpu} := by
    refine Remembered.congr ?_ remembered ?_ ?_
    all_goals rfl
  have slept := Recalls.step swapped (.sleepOn channel)
  have caller : currentLocal {s with currentByCpu := fun _ => currentLocal s cpu} 0 = currentLocal s cpu :=
    if_pos (by decide)
  simp only [Processes.step,processSleepOn,caller] at slept
  unfold processSleepOn
  split_ifs at slept ⊢
  · exact .refl remembered
  · split
    next => exact .refl remembered
    next c found =>
      simp only [found] at slept
      split_ifs at slept ⊢
      · exact .refl remembered
      · constructor
        · refine Remembered.congr ?_ slept.remembered ?_ ?_
          all_goals rfl
        · intro pid known
          have before : Known ended {s with currentByCpu := fun _ => some c} pid := by
            refine Known.congr ?_ known
            rfl
          refine Known.congr ?_ (slept.known pid before)
          rfl

theorem Recalls.sleep {st : Station} (remembered : Remembered ended st.system) (cpu channel : Nat) (bed : Bed) :
    Recalls ended st.system ended (st.sleep cpu channel bed).system := by
  rw [(sleep_amounts st cpu channel bed).1]
  exact .sleepOn remembered cpu channel

theorem section_recalls {st : Station} (remembered : Remembered ended st.system) (sec : Section) :
    Recalls ended st.system (sectionEnds st sec ++ ended) (sectionStep st sec).system := by
  cases sec with
  | process call => exact .step remembered call
  | wakeup channel =>
    unfold sectionStep
    dsimp only
    split
    · exact .step remembered (.wakeup channel)
    · exact .refl remembered
  | recvBlocking cpu capacity =>
    unfold sectionStep
    dsimp only
    split
    · exact .refl remembered
    split
    · exact .refl remembered
    · exact .sleep remembered _ _ _
  | pipeCreate ownerPid =>
    unfold sectionStep
    dsimp only
    split
    · exact .refl remembered
    · exact .refl remembered
  | pipeRead cpu handle capacity =>
    unfold sectionStep
    dsimp only
    split
    · exact .refl remembered
    split
    · exact .refl remembered
    split
    · exact .refl remembered
    split
    · exact .refl remembered
    split
    · exact .refl remembered
    · exact .sleep remembered _ _ _
  | pipeWrite cpu handle left =>
    unfold sectionStep
    dsimp only
    split
    · exact .refl remembered
    split
    · exact .refl remembered
    split
    · exact .refl remembered
    split
    · exact .refl remembered
    · exact .sleep remembered _ _ _
  | pipeClose cpu handle =>
    unfold sectionStep
    dsimp only
    split
    · exact .refl remembered
    · exact .refl remembered
  | mouseRead cpu =>
    unfold sectionStep
    dsimp only
    split
    · exact .refl remembered
    split
    · exact .refl remembered
    · exact .sleep remembered _ _ _
  | send | recv | mouseEvent => exact .refl remembered

/-- The pid is that of a process that runs, or a process with it has ended. -/
def Tenant (ended : List Nat) (s : System) (pid : Nat) : Prop := pid ∈ ended ∨ Running s pid

/-- What holds of the tables in every run: the pids in them are known. -/
structure Leased (t : Tenancy) : Prop where
  remembered : Remembered t.ended t.station.system
  pipes : ∀ i pid, i < pipeMax → (t.station.pipes i).tenant = some pid → pid ≠ 0 ∧ Known t.ended t.station.system pid
  messages : ∀ i pid, i < ipcQueueMax → (t.station.queue i).tenant = some pid →
    pid ≠ 0 ∧ Known t.ended t.station.system pid

/-- The pid that a process of the boot CPU finds under a pid is known. -/
theorem exists_known {s : System} (remembered : Remembered ended s) {pid : Nat} (found : processExists s pid = true) :
    Known ended s pid := by
  unfold processExists at found
  rw [Bool.and_eq_true,Option.isSome_iff_exists] at found
  obtain ⟨_,q,found⟩ := found
  rw [← (findPid_found found).2]
  exact remembered.record q

theorem current_known {s : System} (remembered : Remembered ended s) (cpu : Nat) :
    Known ended s (currentPid s cpu) := by
  unfold currentPid
  split
  · exact .thread rfl
  · exact remembered.record _

theorem leased_step {t : Tenancy} (leased : Leased t) (sec : Section) (served : t.Served sec) : Leased (t.step sec) := by
  have recalls := section_recalls leased.remembered sec
  refine ⟨recalls.remembered,?_,?_⟩
  · intro i pid bound taken
    rcases section_pipe taken with ⟨rfl,positive⟩ | before
    · refine ⟨positive,recalls.known pid ?_⟩
      have own : pid = currentPid t.station.system 0 := served
      rw [own]
      exact current_known leased.remembered 0
    · obtain ⟨positive,known⟩ := leased.pipes i pid bound before
      exact ⟨positive,recalls.known pid known⟩
  · intro i pid bound taken
    rcases section_message taken with ⟨⟨senderPid,data,rfl⟩,positive⟩ | before
    · exact ⟨positive,recalls.known pid (exists_known leased.remembered served)⟩
    · obtain ⟨positive,known⟩ := leased.messages i pid bound before
      exact ⟨positive,recalls.known pid known⟩

end Run

theorem boot_leased (s : System) (idle schedule : Nat) (queue : IpcQueue) (pipes : Pipes) (mouse : Mouse) :
    Leased (bootTenancy s idle schedule queue pipes mouse) := by
  refine ⟨boot_remembered s idle schedule,?_,?_⟩
  · intro i pid bound taken
    simp [bootTenancy,bootStation,pipeInit,bound,PipeState.tenant] at taken
  · intro i pid bound taken
    simp [bootTenancy,bootStation,ipcInit,bound,IpcMessage.tenant] at taken

theorem known_tenant {ended : List Nat} {s : System} (remembered : Remembered ended s) {pid : Nat}
    (known : pid ≠ 0 ∧ Known ended s pid) : Tenant ended s pid := by
  obtain ⟨positive,known⟩ := known
  cases known with
  | thread zero => exact absurd zero positive
  | kernel one =>
    have sound := remembered.sound
    exact .inr ⟨bootstrap,sound.taken,sound.alive,sound.process,remembered.idle.trans one.symm⟩
  | gone before => exact .inl before
  | alive q runs same => exact .inr ⟨q,runs.live,runs.alive,runs.process,same⟩

/-- The program opens a pipe, writes to its child, kills it and ends. -/
def deserted : List Section :=
  (launch (boot blank 0x1000 0x2000)).map .process ++
    [.pipeCreate 2,.process (.fork zeroFrame),.send 3 2 [7],.process (.kill 3 sigKill),.process (.exit 0)]

end LionOS.Channels

import Mathlib.Data.List.TakeWhile
import LionOS.Net.Http

/-! When `net_http_get` takes its connection for established. -/
namespace LionOS.Net
open LionOS.Library
open LionOS.Physical (Byte)

def synSegment (pid : BitVec 32) : Segment := ⟨httpSeq pid,0,tcpSyn,[]⟩

/-- The connection, and how far the call has come when the SYN is sent and its answer is awaited. -/
def asked (e : Line) (pid targetIp : BitVec 32) (capacity : Nat) (l : Link) : Option (Connection × Link) :=
  if e.ready = false ∨ capacity < 2 then none
  else
    match arpResolve e (if targetIp &&& netNetmask = netPhysIp &&& netNetmask then targetIp else netGatewayIp) l with
    | (_,none) => none
    | (l,some mac) => match e.transmit ⟨targetIp,mac,httpPort pid,80⟩ l (synSegment pid) with
      | (_,false) => none
      | (l,true) => some (⟨targetIp,mac,httpPort pid,80⟩,l)

/-- The segments of the connection among the next polls. -/
def heard (e : Line) (c : Connection) (n : Nat) (l : Link) : List Segment :=
  (List.range n).filterMap fun i => tcpPacket c.targetIp c.localPort c.remotePort (e.polls (l.polled + i) l.sent)

/-- The segment carries both SYN and ACK. -/
def answersSyn (s : Segment) : Bool := s.flags &&& (tcpSyn ||| tcpAck) == tcpSyn ||| tcpAck

def endsWait (s : Segment) : Bool := answersSyn s || sets s.flags tcpRst

/-- The segments that are received until the wait ends. -/
def received (segments : List Segment) : List Segment :=
  segments.takeWhile (fun s => !endsWait s) ++ (segments.find? endsWait).toList

/-- The acknowledgement and the request. -/
def firstSegments (pid ack : BitVec 32) (path : List Byte) : List Segment :=
  [⟨httpSeq pid + 1,ack,tcpAck,[]⟩,⟨httpSeq pid + 1,ack,tcpPsh ||| tcpAck,httpRequest path⟩]

/-- The call fails with no segment sent but the SYN, or the SYN was answered and acknowledged and
what is sent next acknowledges the answer. -/
def Handshake (e : Line) (pid targetIp : BitVec 32) (path : List Byte) (out : Nat → Byte) (capacity : Nat) (ipId : BitVec 16) :
    Prop :=
  let call := netHttpGet e pid targetIp path out capacity ipId
  (call.result = none ∧ ∀ s ∈ call.link.sent, s = synSegment pid) ∨
    ∃ c l, asked e pid targetIp capacity ⟨0,ipId,[],[]⟩ = some (c,l) ∧
      ∃ s ∈ received (heard e c 500000 l), answersSyn s ∧ s.ack = httpSeq pid + 1 ∧
        (call.link.sent.drop 1).take 2 <+: firstSegments pid (s.seq + 1) path

/-- A segment that ends the wait and carries SYN and ACK acknowledges the SYN, and if none ends the
wait the last one carries neither. -/
structure Answered (iss : BitVec 32) (segments : List Segment) : Prop where
  ends : ∀ s, segments.find? endsWait = some s → answersSyn s → s.ack = iss + 1
  last : segments.find? endsWait = none → ∀ s, segments.getLast? = some s → s.flags &&& (tcpSyn ||| tcpAck) = 0

/-- The acknowledgement that the call goes on with. -/
def reply (segments : List Segment) : Option (BitVec 32) :=
  match segments.find? endsWait with
  | some s => if answersSyn s then some (s.seq + 1) else none
  | none => segments.getLast?.bind fun s => if s.flags &&& (tcpSyn ||| tcpAck) = 0 then none else some 0

section Waiting
variable {e : Line} {c : Connection}

theorem heard_succ (n : Nat) (l : Link) : heard e c (n + 1) l =
    (tcpPacket c.targetIp c.localPort c.remotePort (e.polls l.polled l.sent)).toList ++
      heard e c n {l with polled := l.polled + 1} := by
  unfold heard
  rw [List.range_succ_eq_map,List.filterMap_cons,List.filterMap_map]
  have shifted : (fun i => tcpPacket c.targetIp c.localPort c.remotePort (e.polls (l.polled + i) l.sent)) ∘ Nat.succ =
      fun i => tcpPacket c.targetIp c.localPort c.remotePort (e.polls (l.polled + 1 + i) l.sent) := by
    funext i
    rw [Function.comp_apply,Nat.succ_eq_add_one,Nat.add_assoc,Nat.add_comm 1 i]
  rw [shifted,Nat.add_zero]
  cases tcpPacket c.targetIp c.localPort c.remotePort (e.polls l.polled l.sent) with
  | none => rfl
  | some s => rfl

/-- How the wait for the answer ends. -/
theorem synWait_ends (n : Nat) (l : Link) (flags : Byte) :
    ((attempts (synTurn e c) (some 0) n (l,flags)).1.2,(attempts (synTurn e c) (some 0) n (l,flags)).2) =
    match (heard e c n l).find? endsWait with
    | some s => (s.flags,if answersSyn s then some (s.seq + 1) else none)
    | none => (((heard e c n l).getLast?.map Segment.flags).getD flags,some 0) := by
  induction n generalizing l flags with
  | zero => rfl
  | succ n ih =>
    rw [heard_succ,attempts,synTurn]
    dsimp only [Line.rtlPoll]
    cases carried : tcpPacket c.targetIp c.localPort c.remotePort (e.polls l.polled l.sent) with
    | none => exact ih {l with polled := l.polled + 1} flags
    | some s =>
      dsimp only
      rw [Option.toList_some,List.singleton_append,List.find?_cons,List.getLast?_cons]
      by_cases both : s.flags &&& (tcpSyn ||| tcpAck) = tcpSyn ||| tcpAck
      · have opening : answersSyn s = true := beq_iff_eq.mpr both
        rw [if_pos both,endsWait,opening,Bool.true_or]
        dsimp only
        rw [if_pos opening]
      · have other : answersSyn s = false := beq_eq_false_iff_ne.mpr both
        rw [if_neg both,endsWait,other,Bool.false_or]
        cases reset : sets s.flags tcpRst with
        | true =>
          rw [if_pos rfl]
          dsimp only
          rw [other]
          rfl
        | false =>
          rw [if_neg Bool.false_ne_true]
          dsimp only
          rw [ih]
          cases (heard e c n {l with polled := l.polled + 1}).find? endsWait with
          | some _ => rfl
          | none => cases (heard e c n {l with polled := l.polled + 1}).getLast? with
            | some _ => rfl
            | none => rfl

theorem synWait_sent (n : Nat) (l : Link) (flags : Byte) :
    (attempts (synTurn e c) (some 0) n (l,flags)).1.1.sent = l.sent := by
  have each (x : Link × Byte) (before : x.1.sent = l.sent) : (synTurn e c x).1.1.sent = l.sent := by
    unfold synTurn
    dsimp only [Line.rtlPoll]
    split
    · exact before
    · split
      · exact before
      · split
        · exact before
        · exact before
  exact @attempts_invariant _ _ (synTurn e c) (some 0) (fun x => x.1.sent = l.sent) each n (l,flags) rfl

theorem last_reply (last : Option Segment) :
    (if (last.map Segment.flags).getD 0 &&& (tcpSyn ||| tcpAck) = 0 then none else some (0 : BitVec 32)) =
      last.bind fun s => if s.flags &&& (tcpSyn ||| tcpAck) = 0 then none else some 0 := by
  cases last with
  | some s => rfl
  | none => rfl

/-- What the call makes of the wait. -/
theorem synWait_reply (n : Nat) (l : Link) :
    (if (attempts (synTurn e c) (some 0) n (l,0)).1.2 &&& (tcpSyn ||| tcpAck) = 0 then none
      else (attempts (synTurn e c) (some 0) n (l,0)).2) = reply (heard e c n l) := by
  have ended := @synWait_ends e c n l 0
  have flags := congrArg Prod.fst ended
  have answer := congrArg Prod.snd ended
  dsimp only at flags answer
  rw [flags,answer]
  unfold reply
  have clear {flags : Byte} (both : flags &&& (tcpSyn ||| tcpAck) = tcpSyn ||| tcpAck) : flags &&& (tcpSyn ||| tcpAck) ≠ 0 := by
    rw [both]
    decide
  cases (heard e c n l).find? endsWait with
  | some s =>
    dsimp only
    cases both : answersSyn s with
    | true => rw [if_neg (clear (beq_iff_eq.mp both)),if_pos rfl]
    | false =>
      rw [if_neg Bool.false_ne_true]
      split
      · rfl
      · rfl
  | none =>
    exact last_reply _

end Waiting

section Sending
variable {e : Line} {c : Connection} {l : Link}

theorem transmit_appends (s : Segment) (short : s.payload.length ≤ 383) : (e.transmit c l s).1.sent = l.sent ++ [s] := by
  unfold Line.transmit sendTcp
  rw [if_neg]
  · exact rtlTxFrame_sent _
  · unfold ethHdrLen rtlTxSize
    omega

theorem transmit_grows (s : Segment) : l.sent <+: (e.transmit c l s).1.sent := by
  unfold Line.transmit
  split
  · exact List.prefix_rfl
  · rw [rtlTxFrame_sent]
    exact List.prefix_append ..

theorem tcpTurn_grows (wantSeq : BitVec 32) (capacity : Nat) (t : TcpState) :
    t.link.sent <+: (tcpTurn e c wantSeq capacity t).1.link.sent := by
  have acknowledges (s : Segment) : t.link.sent <+: (e.transmit c {t.link with polled := t.link.polled + 1} s).1.sent :=
    @transmit_grows e c {t.link with polled := t.link.polled + 1} s
  unfold tcpTurn
  dsimp only [Line.rtlPoll]
  repeat' split
  all_goals first | exact List.prefix_rfl | exact acknowledges _

theorem tcpWait_grows (wantSeq : BitVec 32) (capacity : Nat) (t : TcpState) :
    t.link.sent <+: (tcpWait e c wantSeq capacity t).1.link.sent :=
  @attempts_invariant _ _ (tcpTurn e c wantSeq capacity) .failed (fun x => t.link.sent <+: x.link.sent)
    (fun x before => before.trans (tcpTurn_grows wantSeq capacity x)) 500000 t List.prefix_rfl

theorem httpRound_grows (capacity : Nat) (p : Page) : p.tcp.link.sent <+: (httpRound e c capacity p).1.tcp.link.sent := by
  have waited := @tcpWait_grows e c p.tcp.nextSeq 1500 p.tcp
  unfold httpRound
  split
  · rcases made : tcpWait e c p.tcp.nextSeq 1500 p.tcp with ⟨tcp,_ | _ | bytes | _⟩
    all_goals rw [made] at waited
    · exact waited
    · exact waited
    · dsimp only
      split
      · exact waited
      · split
        · exact waited
        · exact waited
    · exact waited
  · exact List.prefix_rfl

theorem httpFinish_grows (capacity : Nat) (p : Page) (ended : Ended) :
    p.tcp.link.sent <+: (httpFinish e c capacity (p,ended)).link.sent := by
  cases ended with
  | failed => exact List.prefix_rfl
  | _ => exact @transmit_grows e c p.tcp.link ⟨p.tcp.nextSeq,p.tcp.nextAck,tcpFin ||| tcpAck,[]⟩

end Sending

section Connecting
variable {e : Line} {pid targetIp : BitVec 32} {path : List Byte} {capacity : Nat} {l : Link} {c : Connection}

/-- `net_http_get` from the end of the wait to the request. -/
def afterWait (e : Line) (pid : BitVec 32) (path : List Byte) (c : Connection) :
    (Link × Byte) × Option (BitVec 32) → Link × Option (Connection × TcpState)
  | ((l,_),none) => (l,none)
  | ((l,flags),some ack) =>
    if flags &&& (tcpSyn ||| tcpAck) = 0 then (l,none)
    else
      match e.transmit c l ⟨httpSeq pid + 1,ack,tcpAck,[]⟩ with
      | (l,false) => (l,none)
      | (l,true) =>
        match e.transmit c l ⟨httpSeq pid + 1,ack,tcpPsh ||| tcpAck,httpRequest path⟩ with
        | (l,false) => (l,none)
        | (l,true) => (l,some (c,⟨l,httpSeq pid + 1 + BitVec.ofNat 32 (httpRequest path).length,ack⟩))

theorem asked_sent (fresh : l.sent = []) {l' : Link} (waits : asked e pid targetIp capacity l = some (c,l')) :
    l'.sent = [synSegment pid] := by
  unfold asked at waits
  split at waits
  · cases waits
  next =>
    have resolved := @arpResolve_sent e l (if targetIp &&& netNetmask = netPhysIp &&& netNetmask then targetIp else netGatewayIp)
    split at waits
    · cases waits
    next l₁ mac found =>
      rw [found] at resolved
      split at waits
      · cases waits
      next l₂ sent =>
        cases waits
        have appended := @transmit_appends e ⟨targetIp,mac,httpPort pid,80⟩ l₁ (synSegment pid) (Nat.zero_le _)
        rw [sent] at appended
        rw [appended,resolved.trans fresh]
        rfl

theorem httpConnect_asked {l' : Link} (waits : asked e pid targetIp capacity l = some (c,l')) :
    httpConnect e pid targetIp path l = afterWait e pid path c (attempts (synTurn e c) (some 0) 500000 (l',0)) := by
  unfold asked synSegment at waits
  unfold httpConnect
  dsimp only
  by_cases unable : e.ready = false ∨ capacity < 2
  · rw [if_pos unable] at waits
    cases waits
  rw [if_neg unable] at waits
  rcases found : arpResolve e (if targetIp &&& netNetmask = netPhysIp &&& netNetmask then targetIp else netGatewayIp) l with
    ⟨l₁,_ | mac⟩
  · rw [found] at waits
    cases waits
  rw [found] at waits
  dsimp only at waits ⊢
  rcases sent : e.transmit ⟨targetIp,mac,httpPort pid,80⟩ l₁ ⟨httpSeq pid,0,tcpSyn,[]⟩ with ⟨l₂,_ | _⟩
  · rw [sent] at waits
    cases waits
  · rw [sent] at waits
    cases waits
    rfl

theorem httpConnect_unasked (able : ¬(e.ready = false ∨ capacity < 2)) (fresh : l.sent = [])
    (fails : asked e pid targetIp capacity l = none) :
    (httpConnect e pid targetIp path l).2 = none ∧ ∀ s ∈ (httpConnect e pid targetIp path l).1.sent, s = synSegment pid := by
  unfold asked synSegment at fails
  rw [if_neg able] at fails
  unfold httpConnect
  dsimp only
  have resolved := @arpResolve_sent e l (if targetIp &&& netNetmask = netPhysIp &&& netNetmask then targetIp else netGatewayIp)
  rcases found : arpResolve e (if targetIp &&& netNetmask = netPhysIp &&& netNetmask then targetIp else netGatewayIp) l with
    ⟨l₁,_ | mac⟩
  · rw [found] at resolved
    refine ⟨rfl,?_⟩
    dsimp only at resolved ⊢
    rw [resolved,fresh]
    nofun
  rw [found] at resolved fails
  dsimp only at resolved fails ⊢
  have appended := @transmit_appends e ⟨targetIp,mac,httpPort pid,80⟩ l₁ ⟨httpSeq pid,0,tcpSyn,[]⟩ (Nat.zero_le _)
  rcases sent : e.transmit ⟨targetIp,mac,httpPort pid,80⟩ l₁ ⟨httpSeq pid,0,tcpSyn,[]⟩ with ⟨l₂,_ | _⟩
  · rw [sent] at appended
    refine ⟨rfl,?_⟩
    dsimp only at appended ⊢
    rw [appended,resolved.trans fresh,List.nil_append,List.forall_mem_singleton]
    rfl
  · rw [sent] at fails
    cases fails

theorem afterWait_refused {flags : Byte} {answer : Option (BitVec 32)}
    (refused : (if flags &&& (tcpSyn ||| tcpAck) = 0 then none else answer) = none) :
    afterWait e pid path c ((l,flags),answer) = (l,none) := by
  cases answer with
  | none => rfl
  | some ack =>
    split at refused
    next clear => exact if_pos clear
    next => cases refused

theorem afterWait_accepted {flags : Byte} {answer : Option (BitVec 32)} {ack : BitVec 32}
    (accepted : (if flags &&& (tcpSyn ||| tcpAck) = 0 then none else answer) = some ack) :
    ∃ done, done ≠ [] ∧ done <+: firstSegments pid ack path ∧
      (afterWait e pid path c ((l,flags),answer)).1.sent = l.sent ++ done ∧
      ∀ c' t, (afterWait e pid path c ((l,flags),answer)).2 = some (c',t) →
        done = firstSegments pid ack path ∧ t.link.sent = l.sent ++ done := by
  split at accepted
  · cases accepted
  next set =>
    cases accepted
    unfold afterWait
    dsimp only
    rw [if_neg set]
    have first := @transmit_appends e c l ⟨httpSeq pid + 1,ack,tcpAck,[]⟩ (Nat.zero_le _)
    split
    next l₁ sent =>
      rw [sent] at first
      exact ⟨[⟨httpSeq pid + 1,ack,tcpAck,[]⟩],List.cons_ne_nil _ _,⟨_,rfl⟩,first,nofun⟩
    next l₁ sent =>
      rw [sent] at first
      have second := @transmit_appends e c l₁ ⟨httpSeq pid + 1,ack,tcpPsh ||| tcpAck,httpRequest path⟩ (httpRequest_length path).2
      have both : (e.transmit c l₁ ⟨httpSeq pid + 1,ack,tcpPsh ||| tcpAck,httpRequest path⟩).1.sent =
          l.sent ++ firstSegments pid ack path := by
        rw [second,first,List.append_assoc]
        rfl
      refine ⟨firstSegments pid ack path,List.cons_ne_nil _ _,List.prefix_rfl,?_⟩
      split
      next l₂ sent' =>
        rw [sent'] at both
        exact ⟨both,nofun⟩
      next l₂ sent' =>
        rw [sent'] at both
        refine ⟨both,fun c' t made => ?_⟩
        cases made
        exact ⟨rfl,both⟩

end Connecting

section Answers
variable {segments : List Segment} {iss : BitVec 32}

theorem received_answers {s : Segment} (member : s ∈ received segments) (answers : answersSyn s) :
    segments.find? endsWait = some s := by
  have ends : endsWait s = true := by
    unfold endsWait
    rw [answers]
    rfl
  rcases List.mem_append.mp member with before | last
  · have goes := List.mem_takeWhile_imp before
    rw [ends] at goes
    cases goes
  · exact Option.mem_toList.mp last

theorem reply_found {s : Segment} (found : segments.find? endsWait = some s) (answers : answersSyn s) :
    reply segments = some (s.seq + 1) := by
  unfold reply
  rw [found]
  exact if_pos answers

theorem reply_answers {s : Segment} (member : s ∈ received segments) (answers : answersSyn s) :
    reply segments = some (s.seq + 1) := reply_found (received_answers member answers) answers

/-- The call goes on with an answer to the SYN, or has none that acknowledges it. -/
theorem answered_iff {ack : BitVec 32} (goes : reply segments = some ack) : Answered iss segments ↔
    ∃ s ∈ received segments, answersSyn s ∧ s.ack = iss + 1 ∧ s.seq + 1 = ack := by
  unfold reply at goes
  cases last : segments.find? endsWait with
  | some s =>
    rw [last] at goes
    dsimp only at goes
    split at goes
    next answers =>
      constructor
      · intro answered
        refine ⟨s,List.mem_append_right _ ?_,answers,answered.ends s last answers,Option.some_inj.mp goes⟩
        rw [last]
        exact List.mem_singleton_self s
      · intro ⟨s',member,answers',right,_⟩
        have same := last.symm.trans (received_answers member answers')
        refine ⟨fun s₁ first _ => ?_,fun none => nomatch last.symm.trans none⟩
        cases first.symm.trans last
        cases same
        exact right
    next => cases goes
  | none =>
    rw [last] at goes
    refine iff_of_false (fun answered => ?_) fun ⟨s,member,answers,_⟩ => ?_
    · obtain ⟨s,found,kept⟩ := Option.bind_eq_some_iff.mp goes
      rw [if_pos (answered.last last s found)] at kept
      cases kept
    · exact nomatch last.symm.trans (received_answers member answers)

theorem answered_of_none (stays : reply segments = none) : Answered iss segments := by
  unfold reply at stays
  constructor
  · intro s found answers
    rw [found] at stays
    dsimp only at stays
    rw [if_pos answers] at stays
    cases stays
  · intro none s found
    rw [none] at stays
    dsimp only at stays
    rw [found,Option.bind_some] at stays
    split at stays
    next clear => exact clear
    next => cases stays

theorem firstSegments_other {pid ack : BitVec 32} {path : List Byte} {done : List Segment}
    (begins : done <+: firstSegments pid ack path) {s : Segment} (member : s ∈ done) : s ≠ synSegment pid := by
  have flags : ∀ s ∈ firstSegments pid ack path, s.flags ≠ tcpSyn := by
    unfold firstSegments
    rw [List.forall_mem_cons,List.forall_mem_singleton]
    exact ⟨(by decide : tcpAck ≠ tcpSyn),(by decide : tcpPsh ||| tcpAck ≠ tcpSyn)⟩
  rintro rfl
  exact flags _ (begins.subset member) rfl

end Answers

/-- What a call sends behind the SYN once it goes on. -/
theorem netHttpGet_sends {e : Line} {pid : BitVec 32} {path : List Byte} {out : Nat → Byte} {capacity : Nat} {l : Link}
    {c : Connection} {flags : Byte} {answer : Option (BitVec 32)} {ack : BitVec 32} {syn : Segment} (alone : l.sent = [syn])
    (accepted : (if flags &&& (tcpSyn ||| tcpAck) = 0 then none else answer) = some ack) {call : Fetched}
    (made : call = match afterWait e pid path c ((l,flags),answer) with
      | (l,none) => ⟨none,out,none,l⟩
      | (_,some (c,tcp)) => httpFinish e c capacity (attempts (httpRound e c capacity) .spent 64 ⟨tcp,0,out⟩)) :
    ∃ done, done ≠ [] ∧ done <+: firstSegments pid ack path ∧ (call.link.sent.drop 1).take 2 = done := by
  obtain ⟨done,real,begins,sent,through⟩ := @afterWait_accepted e pid path l c flags answer ack accepted
  rw [alone] at sent through
  have short : done.length ≤ 2 := begins.length_le
  refine ⟨done,real,begins,?_⟩
  rcases ended : afterWait e pid path c ((l,flags),answer) with ⟨l',_ | ⟨c',tcp⟩⟩
  · rw [ended] at made sent
    rw [made]
    dsimp only at sent ⊢
    rw [sent]
    exact List.take_of_length_le short
  · rw [ended] at made
    have made' : call = httpFinish e c' capacity (attempts (httpRound e c' capacity) .spent 64 ⟨tcp,0,out⟩) := made
    obtain ⟨whole,opened⟩ := through c' tcp (by rw [ended])
    have rounds : tcp.link.sent <+: (attempts (httpRound e c' capacity) .spent 64 ⟨tcp,0,out⟩).1.tcp.link.sent :=
      @attempts_invariant _ _ (httpRound e c' capacity) .spent (fun x => tcp.link.sent <+: x.tcp.link.sent)
        (fun x before => before.trans (httpRound_grows capacity x)) 64 ⟨tcp,0,out⟩ List.prefix_rfl
    have finish := rounds.trans (@httpFinish_grows e c' capacity _ (attempts (httpRound e c' capacity) .spent 64 ⟨tcp,0,out⟩).2)
    rw [Prod.mk.eta,← made',opened,whole] at finish
    obtain ⟨later,total⟩ := finish
    rw [← total,whole]
    rfl

section Calls
variable {e : Line} {pid targetIp : BitVec 32} {path : List Byte} {out : Nat → Byte} {capacity : Nat} {ipId : BitVec 16}
variable {c : Connection} {l : Link}

theorem call_connects (able : ¬(e.ready = false ∨ capacity < 2)) : netHttpGet e pid targetIp path out capacity ipId =
    match httpConnect e pid targetIp path ⟨0,ipId,[],[]⟩ with
    | (l,none) => ⟨none,out,none,l⟩
    | (_,some (c,tcp)) => httpFinish e c capacity (attempts (httpRound e c capacity) .spent 64 ⟨tcp,0,out⟩) := if_neg able

theorem asked_able {l' : Link} (waits : asked e pid targetIp capacity l = some (c,l')) : ¬(e.ready = false ∨ capacity < 2) := by
  intro unable
  exact nomatch (if_pos unable).symm.trans waits

theorem call_unasked (fails : asked e pid targetIp capacity ⟨0,ipId,[],[]⟩ = none) :
    (netHttpGet e pid targetIp path out capacity ipId).result = none ∧
      ∀ s ∈ (netHttpGet e pid targetIp path out capacity ipId).link.sent, s = synSegment pid := by
  by_cases able : e.ready = false ∨ capacity < 2
  · have call : netHttpGet e pid targetIp path out capacity ipId = ⟨none,out,none,⟨0,ipId,[],[]⟩⟩ := if_pos able
    rw [call]
    exact ⟨rfl,nofun⟩
  · rw [call_connects able]
    obtain ⟨failed,alone⟩ := @httpConnect_unasked e pid targetIp path capacity ⟨0,ipId,[],[]⟩ able rfl fails
    rcases made : httpConnect e pid targetIp path ⟨0,ipId,[],[]⟩ with ⟨l,_ | found⟩
    · rw [made] at alone
      exact ⟨rfl,alone⟩
    · rw [made] at failed
      cases failed

variable (waits : asked e pid targetIp capacity ⟨0,ipId,[],[]⟩ = some (c,l))
include waits

theorem call_stays (stays : reply (heard e c 500000 l) = none) :
    (netHttpGet e pid targetIp path out capacity ipId).result = none ∧
      ∀ s ∈ (netHttpGet e pid targetIp path out capacity ipId).link.sent, s = synSegment pid := by
  have replied := @synWait_reply e c 500000 l
  have kept := @synWait_sent e c 500000 l 0
  rw [call_connects (asked_able waits),httpConnect_asked waits]
  generalize attempts (synTurn e c) (some 0) 500000 (l,0) = ended at *
  obtain ⟨⟨l',flags⟩,answer⟩ := ended
  rw [stays] at replied
  rw [afterWait_refused replied]
  refine ⟨rfl,?_⟩
  dsimp only at kept ⊢
  rw [kept,asked_sent rfl waits]
  exact List.forall_mem_singleton.mpr rfl

theorem call_goes {ack : BitVec 32} (goes : reply (heard e c 500000 l) = some ack) :
    ((netHttpGet e pid targetIp path out capacity ipId).link.sent.drop 1).take 2 <+: firstSegments pid ack path ∧
      ¬∀ s ∈ (netHttpGet e pid targetIp path out capacity ipId).link.sent, s = synSegment pid := by
  have replied := @synWait_reply e c 500000 l
  have kept := @synWait_sent e c 500000 l 0
  rw [call_connects (asked_able waits),httpConnect_asked waits]
  generalize attempts (synTurn e c) (some 0) 500000 (l,0) = ended at *
  obtain ⟨⟨l',flags⟩,answer⟩ := ended
  rw [goes] at replied
  obtain ⟨done,real,begins,sends⟩ := netHttpGet_sends (kept.trans (asked_sent rfl waits)) replied rfl
  rw [sends]
  refine ⟨begins,fun alone => ?_⟩
  obtain ⟨first,member⟩ := List.exists_mem_of_ne_nil done real
  rw [← sends] at member
  have early := List.mem_of_mem_drop (List.mem_of_mem_take member)
  rw [sends] at member
  exact firstSegments_other begins member (alone first early)

end Calls

/-- A call keeps to the handshake exactly if the answer that it waits for, where it comes to wait
for one, acknowledges the SYN. -/
theorem handshake_iff (e : Line) (pid targetIp : BitVec 32) (path : List Byte) (out : Nat → Byte) (capacity : Nat)
    (ipId : BitVec 16) :
    Handshake e pid targetIp path out capacity ipId ↔
      ∀ c l, asked e pid targetIp capacity ⟨0,ipId,[],[]⟩ = some (c,l) → Answered (httpSeq pid) (heard e c 500000 l) := by
  unfold Handshake
  dsimp only
  cases waits : asked e pid targetIp capacity ⟨0,ipId,[],[]⟩ with
  | none => exact iff_of_true (.inl (call_unasked waits)) nofun
  | some place =>
    obtain ⟨c,l⟩ := place
    have condition : (∀ c' l', some (c,l) = some (c',l') → Answered (httpSeq pid) (heard e c' 500000 l')) ↔
        Answered (httpSeq pid) (heard e c 500000 l) := by
      refine ⟨fun all => all c l rfl,fun answered c' l' one => ?_⟩
      cases one
      exact answered
    rw [condition]
    cases goes : reply (heard e c 500000 l) with
    | none => exact iff_of_true (.inl (call_stays waits goes)) (answered_of_none goes)
    | some ack =>
      obtain ⟨begins,beyond⟩ := @call_goes e pid targetIp path out capacity ipId c l waits ack goes
      rw [answered_iff goes]
      constructor
      · rintro (⟨_,alone⟩ | ⟨c',l₁,one,s,got,answers,right,_⟩)
        · exact absurd alone beyond
        · cases one
          exact ⟨s,got,answers,right,Option.some_inj.mp ((reply_answers got answers).symm.trans goes)⟩
      · intro ⟨s,got,answers,right,same⟩
        rw [← same] at begins
        exact .inr ⟨c,l,rfl,s,got,answers,right,begins⟩

/-- An answer to the SYN of a process with the same port, which a reset follows. -/
def stale : Segment := ⟨1000,httpSeq 0x401 + 1,tcpSyn ||| tcpAck,[]⟩

def staleLine : Line := answering [(asks,stale),(asks,aborting)]

theorem stale_first {c : Connection} {l : Link} (waits : asked staleLine 1 netGatewayIp 16 ⟨0,1,[],[]⟩ = some (c,l)) :
    (heard staleLine c 500000 l).find? endsWait = some stale := by
  have first : (asked staleLine 1 netGatewayIp 16 ⟨0,1,[],[]⟩).all (fun place =>
      tcpPacket place.1.targetIp place.1.localPort place.1.remotePort (staleLine.polls place.2.polled place.2.sent) ==
        some stale) = true := by decide +kernel
  have own : endsWait stale = true := by decide
  rw [waits,Option.all_some,beq_iff_eq] at first
  rw [show (500000 : Nat) = 499999 + 1 from rfl,heard_succ,first,Option.toList_some,List.singleton_append,
    List.find?_cons_of_pos own]

/-- The answer is acknowledged. -/
theorem stale_acknowledged : ¬Handshake staleLine 1 netGatewayIp [47] (fun _ => 255) 16 1 := by
  rintro (⟨_,alone⟩ | ⟨c,l,waits,s,got,answers,right,_⟩)
  · have waits : (asked staleLine 1 netGatewayIp 16 ⟨0,1,[],[]⟩).isSome = true := by decide +kernel
    obtain ⟨⟨c,l⟩,place⟩ := Option.isSome_iff_exists.mp waits
    exact (call_goes place (reply_found (stale_first place) (by decide))).2 alone
  · cases (stale_first waits).symm.trans (received_answers got answers)
    exact absurd right (by decide)

end LionOS.Net

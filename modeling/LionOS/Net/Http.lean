import LionOS.Net.Wire

/-! Pages over a network that delays, duplicates, drops and reorders the frames of a server. -/
namespace LionOS.Net
open LionOS.Library
open LionOS.Physical (Byte)

/-- What a server sends over a connection, and its first sequence number. -/
structure Server where
  stream : List Byte
  isn : BitVec 32

/-- The sequence number of a byte of the stream; the SYN has the first one. -/
def Server.seqAt (v : Server) (p : Nat) : BitVec 32 := v.isn + 1 + BitVec.ofNat 32 p

/-- The driver acknowledged so many bytes of the stream. -/
def Server.Acknowledged (v : Server) (sent : List Segment) (n : Nat) : Prop :=
  n < 2^32 ∧ ∃ s ∈ sent, sets s.flags tcpAck ∧ s.ack = v.seqAt n

/-- The segments that a server may send once the driver sent some: the answer to a SYN; then
bytes of the stream in the window of the driver, with the FIN behind the last one;
acknowledgements, and resets. -/
inductive Server.Sends (v : Server) (sent : List Segment) (s : Segment) : Prop
  | accepts (syn : Segment) (asked : syn ∈ sent) (opening : sets syn.flags tcpSyn) (both : sets s.flags tcpSyn ∧ sets s.flags tcpAck)
      (up : sets s.flags tcpRst = false) (seq : s.seq = v.isn) (ack : s.ack = syn.seq + 1) (empty : s.payload = [])
  | carries (n p : Nat) (known : v.Acknowledged sent n) (acks : sets s.flags tcpAck) (open_ : sets s.flags tcpSyn = false)
      (up : sets s.flags tcpRst = false) (seq : s.seq = v.seqAt p) (bytes : s.payload = (v.stream.drop p).take s.payload.length)
      (window : p + s.payload.length ≤ n + 8192) (last : sets s.flags tcpFin → p + s.payload.length = v.stream.length)
  | acknowledges (n : Nat) (known : v.Acknowledged sent n) (acks : sets s.flags tcpAck) (open_ : sets s.flags tcpSyn = false)
      (more : sets s.flags tcpFin = false) (empty : s.payload = [])
  | resets (down : sets s.flags tcpRst) (open_ : sets s.flags tcpSyn = false)

/-- Each poll gives a whole frame: one that a server sent over the connection, again or late
perhaps, or none of the connection. -/
structure Genuine (e : Line) (v : Server) (targetIp : BitVec 32) (localPort : BitVec 16) : Prop where
  whole : ∀ t sent, (e.polls t sent).length ≤ ethMtu + ethHdrLen
  served : ∀ t sent, tcpPacket targetIp localPort 80 (e.polls t sent) = none ∨
    ∃ w s, e.polls t sent = wire w targetIp netPhysIp ⟨80,localPort⟩ s ∧ v.Sends sent s

/-- A call gives the first bytes of the stream with a zero behind them, and the whole stream,
or what there is room for, where it ends with the FIN. -/
structure Fetched.Right (r : Fetched) (v : Server) (capacity : Nat) : Prop where
  page : ∀ n, r.result = some n → 0 < n → n < capacity ∧ (∀ i, i < n → v.stream[i]? = some (r.out i)) ∧ r.out n = 0
  whole : ∀ n, r.result = some n → r.ended = some .finished → (List.range n).map r.out = v.stream.take (capacity - 1)

/-- The buffer has a zero behind the page, or no page. -/
def Terminated (p : Page) : Prop := p.total = 0 ∨ p.out p.total = 0

instance (p : Page) : Decidable (Terminated p) := inferInstanceAs (Decidable (_ ∨ _))

/-- The segment that the next poll gives. -/
def arrives (e : Line) (c : Connection) (t : TcpState) : Option Segment :=
  tcpPacket c.targetIp c.localPort c.remotePort (e.polls t.link.polled t.link.sent)

/-- The next poll does not cut a page off: a reset ends a page that is terminated, and a FIN
that is taken is the next byte, if there is room for one. -/
def InTurn (e : Line) (c : Connection) (capacity : Nat) (p : Page) (t : TcpState) : Prop :=
  match (tcpTurn e c p.tcp.nextSeq 1500 t).2 with
  | some .failed => Terminated p
  | some .finished => (arrives e c t).map Segment.seq = some t.nextAck ∨ p.total + 1 = capacity
  | _ => True

instance (e : Line) (c : Connection) (capacity : Nat) (p : Page) (t : TcpState) : Decidable (InTurn e c capacity p t) := by
  unfold InTurn
  split <;> infer_instance

/-- A round whose wait ends in order, or with a terminated page. -/
def RoundInOrder (e : Line) (c : Connection) (capacity : Nat) (p : Page) : Prop :=
  p.total < capacity →
    Along (tcpTurn e c p.tcp.nextSeq 1500) (InTurn e c capacity p) (fun _ => Terminated p) 500000 p.tcp

instance (e : Line) (c : Connection) (capacity : Nat) (p : Page) : Decidable (RoundInOrder e c capacity p) :=
  inferInstanceAs (Decidable (_ → _))

/-- Every poll of every round of a call is in order. -/
def InOrder (e : Line) (pid targetIp : BitVec 32) (path : List Byte) (out : Nat → Byte) (capacity : Nat) (ipId : BitVec 16) :
    Prop :=
  match (httpConnect e pid targetIp path ⟨0,ipId,[],[]⟩).2 with
  | none => True
  | some (c,tcp) => Along (httpRound e c capacity) (RoundInOrder e c capacity) (fun _ => True) 64 ⟨tcp,0,out⟩

section Sending
variable {e : Line} {c : Connection} {l : Link} {s : Segment}

theorem rtlTxFrame_sent (frame : List Byte) : (e.rtlTxFrame l frame).1.sent = l.sent := by
  unfold Line.rtlTxFrame
  split <;> rfl

theorem transmit_sent {l' : Link} {ok : Bool} {x : Segment} (made : e.transmit c l s = (l',ok)) (member : x ∈ l'.sent) :
    x ∈ l.sent ∨ x = s := by
  unfold Line.transmit at made
  split at made
  · cases made
    exact .inl member
  next frame _ =>
    have same := @rtlTxFrame_sent e {l with ipId := l.ipId + 1,sent := l.sent ++ [s]} frame
    rw [made] at same
    rw [same,List.mem_append,List.mem_singleton] at member
    exact member

theorem arpResolve_sent (ip : BitVec 32) : (arpResolve e ip l).1.sent = l.sent := by
  have same (l' : Link) : (attempts (arpTurn e ip) none 200000 l').1.sent = l'.sent := by
    have each (x : Link) (before : x.sent = l'.sent) : (arpTurn e ip x).1.sent = l'.sent := before
    exact attempts_invariant each rfl
  have each (x : Link) (before : x.sent = l.sent) : (arpAttempt e ip x).1.sent = l.sent := by
    unfold arpAttempt
    have sent := @rtlTxFrame_sent e x (arpRequest e.rtlMac ip)
    split
    next failed =>
      rw [failed] at sent
      exact sent.trans before
    next after accepted =>
      rw [accepted] at sent
      have later := same after
      split
      next done =>
        rw [done] at later
        exact later.trans (sent.trans before)
      next done =>
        rw [done] at later
        exact later.trans (sent.trans before)
  exact attempts_invariant each rfl

end Sending

section Numbers
variable {v : Server}

theorem seqAt_inj {p q : Nat} (low : p < 2^32) (low' : q < 2^32) (same : v.seqAt p = v.seqAt q) : p = q := by
  have numbers := congrArg BitVec.toNat (add_left_cancel same)
  rw [BitVec.toNat_ofNat,BitVec.toNat_ofNat,Nat.mod_eq_of_lt low,Nat.mod_eq_of_lt low'] at numbers
  exact numbers

theorem seqAt_add (p n : Nat) : v.seqAt p + BitVec.ofNat 32 n = v.seqAt (p + n) := by
  unfold Server.seqAt
  rw [BitVec.ofNat_add,add_assoc]

end Numbers

/-- The request is sent under the sequence numbers behind the SYN. -/
theorem httpRequest_length (path : List Byte) : 4 ≤ (httpRequest path).length ∧ (httpRequest path).length ≤ 383 := by
  have step (request text : List Byte) (least : 4 ≤ request.length) (most : request.length ≤ 383) :
      4 ≤ (addText request text).length ∧ (addText request text).length ≤ 383 := by
    unfold addText
    rw [List.length_append,List.length_take]
    omega
  have first : 4 ≤ (addText [] (ascii ['G','E','T',' '])).length ∧ (addText [] (ascii ['G','E','T',' '])).length ≤ 383 := by
    decide
  have second := step _ (path.takeWhile (· ≠ 0)) first.1 first.2
  have third := step _ (ascii [' ','H','T','T','P','/','1','.','0'] ++ [13,10] ++ ascii ['H','o','s','t',':',' ']) second.1
    second.2
  have fourth := step _ (ascii ['1','0','.','0','.','2','.','1','5']) third.1 third.2
  exact step _ _ fourth.1 fourth.2

/-- The wait is at some byte of the stream: it was acknowledged up to there and no further,
and the request was sent. -/
structure Reading (v : Server) (iss : BitVec 32) (t : TcpState) (total : Nat) : Prop where
  next : t.nextAck = v.seqAt total
  behind : t.nextSeq ≠ iss + 1 ∧ t.nextSeq + 1 ≠ iss + 1
  acks : ∀ s ∈ t.link.sent, sets s.flags tcpAck → ∃ n, n ≤ total ∧ s.ack = v.seqAt n
  syns : ∀ s ∈ t.link.sent, sets s.flags tcpSyn → s.seq = iss

section Turns
variable {e : Line} {v : Server} {c : Connection} {iss : BitVec 32} {t t' : TcpState} {total : Nat}

theorem Genuine.found {targetIp : BitVec 32} {localPort : BitVec 16} (genuine : Genuine e v targetIp localPort) {n : Nat}
    {sent : List Segment} {s : Segment} (carried : tcpPacket targetIp localPort 80 (e.polls n sent) = some s) :
    v.Sends sent s ∧ s.payload.length ≤ 1460 := by
  have whole := genuine.whole n sent
  have short := tcpPacket_short carried
  refine ⟨?_,by unfold ethMtu at whole; omega⟩
  rcases genuine.served n sent with foreign | ⟨w,s',frame,sends⟩
  · rw [foreign] at carried
    cases carried
  · rw [frame] at carried whole
    cases (tcpPacket_wire whole).symm.trans carried
    exact sends

theorem Reading.acknowledged (reading : Reading v iss t total) (small : total < 2^32) {n : Nat}
    (known : v.Acknowledged t.link.sent n) : n ≤ total := by
  obtain ⟨low,s,member,acks,ack⟩ := known
  obtain ⟨m,upto,same⟩ := reading.acks s member acks
  rw [seqAt_inj low (Nat.lt_of_le_of_lt upto small) (ack.symm.trans same)]
  exact upto

/-- The acknowledgement of what was read keeps the wait at its place. -/
theorem Reading.transmit (reading : Reading v iss t total) {n : Nat} (more : total ≤ n) :
    Reading v iss {t with link := (e.transmit c t.link ⟨t.nextSeq,v.seqAt n,tcpAck,[]⟩).1,nextAck := v.seqAt n} n := by
  have sent (s : Segment) (member : s ∈ (e.transmit c t.link ⟨t.nextSeq,v.seqAt n,tcpAck,[]⟩).1.sent) :
      s ∈ t.link.sent ∨ s = ⟨t.nextSeq,v.seqAt n,tcpAck,[]⟩ :=
    @transmit_sent e c t.link ⟨t.nextSeq,v.seqAt n,tcpAck,[]⟩ _ _ s rfl member
  refine ⟨rfl,reading.behind,?_,?_⟩
  · intro s member acks
    rcases sent s member with old | rfl
    · obtain ⟨m,upto,same⟩ := reading.acks s old acks
      exact ⟨m,Nat.le_trans upto more,same⟩
    · exact ⟨n,Nat.le_refl n,rfl⟩
  · intro s member syn
    rcases sent s member with old | rfl
    · exact reading.syns s old syn
    · have clear : sets tcpAck tcpSyn = false := by decide
      exact Bool.noConfusion (clear.symm.trans syn)

/-- What a poll of a wait at some byte of the stream comes to. -/
def Polled (v : Server) (iss : BitVec 32) (e : Line) (c : Connection) (t : TcpState) (total : Nat) (t' : TcpState) :
    Option Waited → Prop
  | none => Reading v iss t' total ∧ t'.nextSeq = t.nextSeq
  | some .failed => True
  | some .opened => False
  | some (.data bytes) => 0 < bytes.length ∧ bytes.length ≤ 1460 ∧
    (∀ j, j < bytes.length → v.stream[total + j]? = bytes[j]?) ∧ Reading v iss t' (total + bytes.length)
  | some .finished => (arrives e c t).map Segment.seq = some t.nextAck ↔ v.stream.length = total

theorem tcpTurn_polled (genuine : Genuine e v c.targetIp c.localPort) (port : c.remotePort = 80)
    (reading : Reading v iss t total) (small : total < 2^31) :
    Polled v iss e c t total (tcpTurn e c t.nextSeq 1500 t).1 (tcpTurn e c t.nextSeq 1500 t).2 := by
  have waits : Reading v iss {t with link := {t.link with polled := t.link.polled + 1}} total :=
    ⟨reading.next,reading.behind,reading.acks,reading.syns⟩
  unfold tcpTurn
  simp only [Line.rtlPoll]
  cases carried : tcpPacket c.targetIp c.localPort c.remotePort (e.polls t.link.polled t.link.sent) with
  | none => exact ⟨waits,rfl⟩
  | some s =>
    obtain ⟨sends,short⟩ := genuine.found (port ▸ carried)
    have arrived : arrives e c t = some s := carried
    dsimp only
    split
    · trivial
    next up =>
      split
      · exact ⟨waits,rfl⟩
      next answers =>
        split
        next syn =>
          -- the answer to the SYN acknowledges less than the request
          cases sends with
          | accepts asked member opening both _ _ ack _ =>
            rw [reading.syns asked member opening] at ack
            apply answers
            rw [ack]
            exact ⟨both.2,reading.behind.1.symm,reading.behind.2.symm⟩
          | carries _ _ _ _ closed => exact Bool.noConfusion (closed.symm.trans syn)
          | acknowledges _ _ _ closed => exact Bool.noConfusion (closed.symm.trans syn)
          | resets down => exact up down
        next syn =>
          split
          next full =>
            split
            · exact ⟨waits,rfl⟩
            next inSeq =>
              cases sends with
              | accepts _ _ _ both => exact (syn both.1).elim
              | acknowledges _ _ _ _ _ empty => exact (full (congrArg List.length empty)).elim
              | resets down => exact (up down).elim
              | carries n p known _ _ _ seq bytes window _ =>
                have upto := reading.acknowledged (by omega) known
                have here : p = total := by
                  refine seqAt_inj (by omega) (by omega) (seq.symm.trans ?_)
                  exact (not_not.mp inSeq).trans reading.next
                subst here
                have all : s.payload.take (if s.payload.length < 1500 then s.payload.length else 1500) = s.payload := by
                  rw [if_pos (by omega),List.take_length]
                rw [all,seq,seqAt_add]
                refine ⟨Nat.pos_of_ne_zero full,short,?_,waits.transmit (Nat.le_add_right ..)⟩
                intro j inside
                rw [bytes,List.getElem?_take_of_lt inside,List.getElem?_drop]
          next empty =>
            split
            next fin =>
              cases sends with
              | accepts _ _ _ both => exact (syn both.1).elim
              | acknowledges _ _ _ _ more => exact Bool.noConfusion (more.symm.trans fin)
              | resets down => exact (up down).elim
              | carries n p known _ _ _ seq _ window last =>
                have upto := reading.acknowledged (by omega) known
                have end_ := last fin
                have place : p = v.stream.length := by omega
                change (arrives e c t).map Segment.seq = some t.nextAck ↔ v.stream.length = total
                rw [arrived,Option.map_some,Option.some.injEq,seq,reading.next,place]
                refine ⟨seqAt_inj (by omega) (by omega),?_⟩
                rintro rfl
                rfl
            next fin => exact ⟨waits,rfl⟩

theorem sets_both : ∀ flags : Byte, flags &&& (tcpSyn ||| tcpAck) = tcpSyn ||| tcpAck ↔ sets flags tcpSyn ∧ sets flags tcpAck := by
  decide +kernel

/-- The wait for the answer to the SYN ends with the sequence number of the first byte, or
without an answer. -/
theorem synTurn_answer (genuine : Genuine e v c.targetIp c.localPort) (port : c.remotePort = 80) {syn : Segment} {l l' : Link}
    {flags : Byte} {ack : BitVec 32} (asks : sets syn.flags tcpAck = false) (alone : ∀ s ∈ l.sent, s = syn)
    (done : attempts (synTurn e c) (some 0) 500000 (l,0) = ((l',flags),some ack))
    (answered : flags &&& (tcpSyn ||| tcpAck) ≠ 0) : ack = v.seqAt 0 ∧ ∀ s ∈ l'.sent, s = syn := by
  have each (n : Nat) (x y : Link × Byte) (result : Option (Option (BitVec 32)))
      (before : x.2 = 0 ∧ ∀ s ∈ x.1.sent, s = syn) (made : synTurn e c x = (y,result)) :
      (∀ s ∈ y.1.sent, s = syn) ∧ (result = none → y.2 = 0) ∧ ∀ ack, result = some (some ack) → ack = v.seqAt 0 := by
    obtain ⟨clear,alone⟩ := before
    unfold synTurn at made
    simp only [Line.rtlPoll] at made
    split at made
    · cases made
      exact ⟨alone,fun _ => clear,nofun⟩
    next s carried =>
      obtain ⟨sends,_⟩ := genuine.found (port ▸ carried)
      have unknown {n : Nat} : ¬v.Acknowledged x.1.sent n := by
        rintro ⟨_,s,member,acks,_⟩
        rw [alone s member,asks] at acks
        cases acks
      split at made
      next both =>
        cases made
        refine ⟨alone,nofun,?_⟩
        rintro _ ⟨⟩
        cases sends with
        | accepts _ _ _ _ _ seq => rw [seq,Server.seqAt,BitVec.ofNat_eq_ofNat,BitVec.add_zero]
        | carries _ _ known => exact (unknown known).elim
        | acknowledges _ known => exact (unknown known).elim
        | resets _ closed => exact Bool.noConfusion (closed.symm.trans ((sets_both _).mp both).1)
      next other =>
        split at made
        · cases made
          exact ⟨alone,nofun,nofun⟩
        next up =>
          cases sends with
          | accepts _ _ _ both => exact (other ((sets_both _).mpr ⟨both.1,both.2⟩)).elim
          | carries _ _ known => exact (unknown known).elim
          | acknowledges _ known => exact (unknown known).elim
          | resets down => exact (up down).elim
  have ended := @attempts_keeps _ _ (synTurn e c) (some 0) (fun _ x => x.2 = 0 ∧ ∀ s ∈ x.1.sent, s = syn)
    (fun r => r.1.2 &&& (tcpSyn ||| tcpAck) ≠ 0 → ∀ ack, r.2 = some ack → ack = v.seqAt 0 ∧ ∀ s ∈ r.1.1.sent, s = syn)
    (fun n x y before made => by
      obtain ⟨alone,clear,_⟩ := each n x y none before made
      exact ⟨clear rfl,alone⟩)
    (fun n x y result before made _ ack found => by
      obtain ⟨alone,_,first⟩ := each n x y (some result) before made
      exact ⟨first ack (congrArg some found),alone⟩)
    (fun x before set => by
      rw [before.1] at set
      exact (set (by decide)).elim) 500000 (l,0) ⟨rfl,alone⟩
  rw [done] at ended
  exact ended answered ack rfl

/-- The request is sent when the wait for the page starts at the first byte. -/
theorem httpConnect_reading {pid targetIp : BitVec 32} {path : List Byte} {l l' : Link} (fresh : l.sent = [])
    (genuine : Genuine e v targetIp (httpPort pid)) (made : httpConnect e pid targetIp path l = (l',some (c,t))) :
    (c.targetIp = targetIp ∧ c.localPort = httpPort pid ∧ c.remotePort = 80) ∧ Reading v (httpSeq pid) t 0 := by
  unfold httpConnect at made
  dsimp only at made
  split at made
  · cases made
  next l₁ mac resolved =>
    have none₁ : l₁.sent = [] := by
      have sent := @arpResolve_sent e l (if targetIp &&& netNetmask = netPhysIp &&& netNetmask then targetIp else netGatewayIp)
      rw [resolved] at sent
      exact sent.trans fresh
    generalize connection : (⟨targetIp,mac,httpPort pid,80⟩ : Connection) = c' at made
    have target : c'.targetIp = targetIp := by rw [← connection]
    have localP : c'.localPort = httpPort pid := by rw [← connection]
    have remote : c'.remotePort = 80 := by rw [← connection]
    split at made
    · cases made
    next l₂ asked =>
      have alone : ∀ s ∈ l₂.sent, s = ⟨httpSeq pid,0,tcpSyn,[]⟩ := by
        intro s member
        rcases transmit_sent asked member with old | same
        · rw [none₁] at old
          cases old
        · exact same
      split at made
      · cases made
      next l₃ flags ack answered =>
        split at made
        · cases made
        next set =>
          have genuine' : Genuine e v c'.targetIp c'.localPort := by
            rw [target,localP]
            exact genuine
          have asks : sets tcpSyn tcpAck = false := by decide
          obtain ⟨first,alone'⟩ := @synTurn_answer e v c' genuine' remote ⟨httpSeq pid,0,tcpSyn,[]⟩ _ _ _ _ asks alone answered set
          subst first
          split at made
          · cases made
          next l₄ acked =>
            split at made
            · cases made
            next l₅ requested =>
              cases made
              have sent (s : Segment) (member : s ∈ l'.sent) : s = ⟨httpSeq pid,0,tcpSyn,[]⟩ ∨
                  (s.ack = v.seqAt 0 ∧ sets s.flags tcpSyn = false) := by
                rcases transmit_sent requested member with old | rfl
                · rcases transmit_sent acked old with older | rfl
                  · exact .inl (alone' s older)
                  · have clear : sets tcpAck tcpSyn = false := by decide
                    exact .inr ⟨rfl,clear⟩
                · have clear : sets (tcpPsh ||| tcpAck) tcpSyn = false := by decide
                  exact .inr ⟨rfl,clear⟩
              obtain ⟨least,most⟩ := httpRequest_length path
              refine ⟨⟨target,localP,remote⟩,rfl,?_,?_,?_⟩
              · dsimp only
                generalize httpSeq pid = x
                generalize (httpRequest path).length = n at least most
                constructor
                · bv_omega
                · bv_omega
              · intro s member acks
                rcases sent s member with rfl | ⟨ack,_⟩
                · exact Bool.noConfusion (asks.symm.trans acks)
                · exact ⟨0,Nat.le_refl 0,ack⟩
              · intro s member syn
                rcases sent s member with rfl | ⟨_,clear⟩
                · rfl
                · exact Bool.noConfusion (clear.symm.trans syn)

end Turns

section Rounds
variable {e : Line} {v : Server} {c : Connection} {iss : BitVec 32} {capacity : Nat} {p : Page}

/-- What a wait gives. -/
def Given (v : Server) (iss : BitVec 32) (total : Nat) : TcpState × Waited → Prop
  | (t,.data bytes) => 0 < bytes.length ∧ bytes.length ≤ 1460 ∧
    (∀ j, j < bytes.length → v.stream[total + j]? = bytes[j]?) ∧ Reading v iss t (total + bytes.length)
  | (_,.opened) => False
  | (_,_) => True

theorem tcpWait_given (genuine : Genuine e v c.targetIp c.localPort) (port : c.remotePort = 80) {t : TcpState} {total : Nat}
    (reading : Reading v iss t total) (small : total < 2^31) : Given v iss total (tcpWait e c t.nextSeq 1500 t) := by
  have each (x y : TcpState) (result : Option Waited) (before : Reading v iss x total ∧ x.nextSeq = t.nextSeq)
      (made : tcpTurn e c t.nextSeq 1500 x = (y,result)) : Polled v iss e c x total y result := by
    have polled := tcpTurn_polled genuine port before.1 small
    rw [before.2,made] at polled
    exact polled
  refine @attempts_keeps _ _ _ _ (fun _ x => Reading v iss x total ∧ x.nextSeq = t.nextSeq) (Given v iss total) ?_ ?_ ?_ _ _
    ⟨reading,rfl⟩
  · intro _ x y before made
    obtain ⟨after,same⟩ := each x y none before made
    exact ⟨after,same.trans before.2⟩
  · intro _ x y result before made
    have polled := each x y (some result) before made
    cases result with
    | failed => trivial
    | opened => exact polled
    | data bytes => exact polled
    | finished => trivial
  · exact fun _ _ => trivial

/-- A wait leaves the page as it should be. -/
def Sound (v : Server) (capacity : Nat) (p : Page) : Waited → Prop
  | .failed => Terminated p
  | .finished => v.stream.length = p.total ∨ p.total + 1 = capacity
  | _ => True

theorem tcpWait_sound (genuine : Genuine e v c.targetIp c.localPort) (port : c.remotePort = 80)
    (reading : Reading v iss p.tcp p.total) (small : p.total < 2^31) :
    Sound v capacity p (tcpWait e c p.tcp.nextSeq 1500 p.tcp).2 ↔
      Along (tcpTurn e c p.tcp.nextSeq 1500) (InTurn e c capacity p) (fun _ => Terminated p) 500000 p.tcp := by
  have each (x y : TcpState) (result : Option Waited) (before : Reading v iss x p.total ∧ x.nextSeq = p.tcp.nextSeq)
      (made : tcpTurn e c p.tcp.nextSeq 1500 x = (y,result)) : Polled v iss e c x p.total y result := by
    have polled := tcpTurn_polled genuine port before.1 small
    rw [before.2,made] at polled
    exact polled
  refine @attempts_iff _ _ _ _ (fun _ x => Reading v iss x p.total ∧ x.nextSeq = p.tcp.nextSeq)
    (fun r => Sound v capacity p r.2) (InTurn e c capacity p) (fun _ => Terminated p) ?_ ?_ (fun _ _ => Iff.rfl) _ _ ⟨reading,rfl⟩
  · intro _ x y before made
    obtain ⟨after,same⟩ := each x y none before made
    refine ⟨⟨after,same.trans before.2⟩,?_⟩
    rw [InTurn,made]
    trivial
  · intro _ x y result before made
    have polled := each x y (some result) before made
    rw [InTurn,made]
    cases result with
    | failed => exact Iff.rfl
    | opened => exact Iff.rfl
    | data bytes => exact Iff.rfl
    | finished =>
      have place : (arrives e c x).map Segment.seq = some x.nextAck ↔ v.stream.length = p.total := polled
      exact or_congr_left place.symm

/-- The bytes that there is room for are stored behind the others. -/
theorem storeBytes_stored {stream bytes : List Byte} {total : Nat} {out : Nat → Byte} (room : total ≤ capacity)
    (before : ∀ i, i < total → stream[i]? = some (out i)) (next : ∀ j, j < bytes.length → stream[total + j]? = bytes[j]?) :
    (storeBytes capacity bytes (total,out)).1 = min (total + bytes.length) capacity ∧
      ∀ i, i < (storeBytes capacity bytes (total,out)).1 → stream[i]? = some ((storeBytes capacity bytes (total,out)).2 i) := by
  induction bytes generalizing total out with
  | nil => exact ⟨(Nat.min_eq_left room).symm,before⟩
  | cons b rest ih =>
    rw [storeBytes]
    split
    next more =>
      have stored (i : Nat) (inside : i < total + 1) : stream[i]? = some (Function.update out total b i) := by
        by_cases last : i = total
        · subst last
          rw [Function.update_self]
          exact next 0 (Nat.zero_lt_succ _)
        · rw [Function.update_of_ne last]
          exact before i (by omega)
      have later (j : Nat) (inside : j < rest.length) : stream[total + 1 + j]? = rest[j]? := by
        have place := next (j + 1) (Nat.succ_lt_succ inside)
        rw [Nat.add_assoc,Nat.add_comm 1 j]
        exact place
      obtain ⟨size,page⟩ := ih more stored later
      refine ⟨?_,page⟩
      rw [size,List.length_cons]
      congr 1
      omega
    next full =>
      refine ⟨?_,before⟩
      rw [List.length_cons]
      omega

/-- The buffer holds the first bytes of the stream. -/
def Copied (v : Server) (p : Page) : Prop := ∀ i, i < p.total → v.stream[i]? = some (p.out i)

theorem Copied.bytes (copied : Copied v p) : p.total ≤ v.stream.length ∧
    (List.range p.total).map p.out = v.stream.take p.total := by
  have short : p.total ≤ v.stream.length := by
    by_contra long
    have last := copied v.stream.length (by omega)
    rw [List.getElem?_eq_none (Nat.le_refl _)] at last
    cases last
  refine ⟨short,?_⟩
  apply List.ext_getElem
  · rw [List.length_map,List.length_range,List.length_take,Nat.min_eq_left short]
  · intro i left right
    rw [List.length_map,List.length_range] at left
    rw [List.getElem_map,List.getElem_range,List.getElem_take]
    have here := copied i left
    rw [List.getElem?_eq_getElem (by omega),Option.some.injEq] at here
    exact here.symm

/-- The end of a call whose last wait did not fail. -/
theorem httpFinish_other {ended : Ended} (other : ended ≠ .failed) : ∃ link, httpFinish e c capacity (p,ended) =
    ⟨some (min p.total (capacity - 1)),Function.update p.out (min p.total (capacity - 1)) 0,some ended,link⟩ := by
  have size : (if p.total ≥ capacity then capacity - 1 else p.total) = min p.total (capacity - 1) := by
    split
    · omega
    · omega
  rw [← size]
  cases ended with
  | failed => exact (other rfl).elim
  | finished => exact ⟨_,rfl⟩
  | full => exact ⟨_,rfl⟩
  | spent => exact ⟨_,rfl⟩

/-- It puts a zero behind the bytes that fit. -/
theorem httpFinish_page {ended : Ended} (enough : 2 ≤ capacity) (copied : Copied v p) (other : ended ≠ .failed) {n : Nat}
    (given : (httpFinish e c capacity (p,ended)).result = some n) : n < capacity ∧
      (∀ i, i < n → v.stream[i]? = some ((httpFinish e c capacity (p,ended)).out i)) ∧
        (httpFinish e c capacity (p,ended)).out n = 0 := by
  obtain ⟨link,same⟩ := @httpFinish_other e c capacity p ended other
  rw [same] at given ⊢
  cases given
  refine ⟨by omega,?_,Function.update_self ..⟩
  intro i less
  dsimp only
  rw [Function.update_of_ne (Nat.ne_of_lt less)]
  exact copied i (by omega)

theorem right_failed (copied : Copied v p) (room : p.total < capacity) :
    (httpFinish e c capacity (p,.failed)).Right v capacity ↔ Terminated p := by
  constructor
  · intro right
    by_cases none : p.total = 0
    · exact .inl none
    · exact .inr (right.page p.total (if_pos none) (Nat.pos_of_ne_zero none)).2.2
  · intro ends
    refine ⟨?_,fun _ _ => nofun⟩
    intro n given positive
    have same : n = p.total := by
      change (if p.total ≠ 0 then some p.total else none) = some n at given
      split at given
      · cases given
        rfl
      · cases given
    subst same
    exact ⟨room,copied,ends.resolve_left (Nat.ne_of_gt positive)⟩

theorem right_finished (enough : 2 ≤ capacity) (copied : Copied v p) (room : p.total < capacity) :
    (httpFinish e c capacity (p,.finished)).Right v capacity ↔ v.stream.length = p.total ∨ p.total + 1 = capacity := by
  obtain ⟨short,bytes⟩ := copied.bytes
  have size : min p.total (capacity - 1) = p.total := Nat.min_eq_left (by omega)
  obtain ⟨link,same⟩ := @httpFinish_other e c capacity p .finished nofun
  have stored : (List.range p.total).map (Function.update p.out p.total 0) = v.stream.take p.total := by
    rw [← bytes]
    apply List.map_congr_left
    intro i member
    exact Function.update_of_ne (Nat.ne_of_lt (List.mem_range.mp member)) _ _
  constructor
  · intro right
    have whole := right.whole p.total
    rw [same,size] at whole
    have page := whole rfl rfl
    rw [stored] at page
    have lengths := congrArg List.length page
    rw [List.length_take,List.length_take] at lengths
    omega
  · intro ends
    have other : Ended.finished ≠ .failed := nofun
    refine ⟨fun n given _ => httpFinish_page enough copied other given,?_⟩
    intro n given _
    rw [same,size] at given ⊢
    cases given
    rw [stored]
    rcases ends with all | last
    · rw [← all,List.take_length,List.take_of_length_le (by omega)]
    · rw [show p.total = capacity - 1 by omega]

theorem right_other {ended : Ended} (enough : 2 ≤ capacity) (copied : Copied v p) (other : ended ≠ .failed)
    (unfinished : ended ≠ .finished) : (httpFinish e c capacity (p,ended)).Right v capacity := by
  refine ⟨fun n given _ => httpFinish_page enough copied other given,?_⟩
  intro n _ done
  obtain ⟨link,same⟩ := @httpFinish_other e c capacity p ended other
  rw [same] at done
  exact absurd (Option.some.inj done) unfinished

/-- The pages that the loop comes to, with so many rounds left. -/
structure Filling (v : Server) (iss : BitVec 32) (capacity rounds : Nat) (p : Page) : Prop where
  reading : Reading v iss p.tcp p.total
  few : p.total + 1460 * rounds ≤ 1460 * 64
  room : p.total < capacity
  copied : Copied v p

theorem httpRound_filling (genuine : Genuine e v c.targetIp c.localPort) (port : c.remotePort = 80) (enough : 2 ≤ capacity)
    {rounds : Nat} (filling : Filling v iss capacity (rounds + 1) p) :
    match httpRound e c capacity p with
    | (p',none) => Filling v iss capacity rounds p' ∧ RoundInOrder e c capacity p
    | (p',some ended) => (httpFinish e c capacity (p',ended)).Right v capacity ↔ RoundInOrder e c capacity p := by
  obtain ⟨reading,few,room,copied⟩ := filling
  have small : p.total < 2^31 := by omega
  have given := tcpWait_given genuine port reading small
  have sound : Sound v capacity p (tcpWait e c p.tcp.nextSeq 1500 p.tcp).2 ↔ RoundInOrder e c capacity p :=
    (tcpWait_sound genuine port reading small).trans ⟨fun along _ => along,fun along => along room⟩
  unfold httpRound
  rw [if_pos room]
  rcases waited : tcpWait e c p.tcp.nextSeq 1500 p.tcp with ⟨tcp,kind⟩
  rw [waited] at given sound
  cases kind with
  | failed => exact (@right_failed e v c capacity {p with tcp} copied room).trans sound
  | opened => exact given.elim
  | finished => exact (@right_finished e v c capacity {p with tcp} enough copied room).trans sound
  | data bytes =>
    obtain ⟨some_,short,next,reading'⟩ := given
    obtain ⟨size,stored⟩ := storeBytes_stored (Nat.le_of_lt room) copied next
    dsimp only
    generalize storeBytes capacity bytes (p.total,p.out) = place at size stored ⊢
    obtain ⟨total,out⟩ := place
    dsimp only at size stored ⊢
    rw [if_neg (Nat.ne_of_gt some_)]
    have ordered := sound.mp trivial
    have after : Copied v ⟨tcp,total,out⟩ := stored
    by_cases full : total ≥ capacity
    · rw [if_pos full]
      have other : Ended.full ≠ .failed ∧ Ended.full ≠ .finished := by decide
      exact iff_of_true (right_other enough after other.1 other.2) ordered
    · rw [if_neg full]
      have all : total = p.total + bytes.length := by omega
      refine ⟨⟨?_,by dsimp only; omega,by dsimp only; omega,after⟩,ordered⟩
      dsimp only
      rw [all]
      exact reading'

end Rounds

instance (e : Line) (pid targetIp : BitVec 32) (path : List Byte) (out : Nat → Byte) (capacity : Nat) (ipId : BitVec 16) :
    Decidable (InOrder e pid targetIp path out capacity ipId) := by
  unfold InOrder
  split <;> infer_instance

/-- Over a genuine network a call is right exactly if its polls are in order: no wait fails
once there are bytes without a zero behind them, and the FIN that is taken is the next byte
of the stream, unless the buffer is full. -/
theorem page_fetched (e : Line) (v : Server) (pid targetIp : BitVec 32) (path : List Byte) (out : Nat → Byte) (capacity : Nat)
    (ipId : BitVec 16) (genuine : Genuine e v targetIp (httpPort pid)) (enough : 2 ≤ capacity) :
    (netHttpGet e pid targetIp path out capacity ipId).Right v capacity ↔
      (e.ready = true → InOrder e pid targetIp path out capacity ipId) := by
  unfold netHttpGet InOrder
  dsimp only
  cases up : e.ready with
  | false =>
    rw [if_pos (.inl rfl)]
    exact iff_of_true ⟨nofun,nofun⟩ nofun
  | true =>
    rw [if_neg (by rintro (down | few); cases down; omega),forall_prop_of_true rfl]
    rcases made : httpConnect e pid targetIp path ⟨0,ipId,[],[]⟩ with ⟨link,_ | ⟨c,tcp⟩⟩
    · exact iff_of_true ⟨nofun,nofun⟩ trivial
    · obtain ⟨⟨target,localP,port⟩,reading⟩ := httpConnect_reading rfl genuine made
      have genuine' : Genuine e v c.targetIp c.localPort := by
        rw [target,localP]
        exact genuine
      have start : Filling v (httpSeq pid) capacity 64 ⟨tcp,0,out⟩ :=
        ⟨reading,by dsimp only; omega,by dsimp only; omega,fun _ less => absurd less (Nat.not_lt_zero _)⟩
      refine @attempts_iff _ _ _ _ (Filling v (httpSeq pid) capacity) (fun r => (httpFinish e c capacity r).Right v capacity)
        (RoundInOrder e c capacity) (fun _ => True) ?_ ?_ ?_ _ _ start
      · intro n p p' filling made
        have step := httpRound_filling genuine' port enough filling
        rw [made] at step
        exact step
      · intro n p p' ended filling made
        have step := httpRound_filling genuine' port enough filling
        rw [made] at step
        exact step
      · intro p filling
        have other : Ended.spent ≠ .failed ∧ Ended.spent ≠ .finished := by decide
        exact iff_of_true (right_other enough filling.copied other.1 other.2) trivial

/-- An envelope without options. -/
def plain : Envelope :=
  ⟨⟨#[0,1,2,3,4,5],rfl⟩,⟨#[6,7,8,9,10,11],rfl⟩,0,0,0,64,0,[],5,rfl,[],5,rfl,0,8192,0,0,[]⟩

/-- The answer of the gateway to the ARP request. -/
def arpReply : List Byte :=
  [0,1,2,3,4,5,6,7,8,9,10,11,8,6,0,1,8,0,6,4,0,2,6,7,8,9,10,11,10,0,2,2,0,1,2,3,4,5,10,0,2,15]

/-- A line on which the polls after the ARP reply give some segments, each once the driver
sent the one beside it. -/
def answering (answers : List (Segment × Segment)) : Line where
  ready := true
  rtlMac := ⟨#[0,1,2,3,4,5],rfl⟩
  polls := fun n sent => match n with
    | 0 => arpReply
    | n+1 => match answers[n]? with
      | none => []
      | some (asked,answer) => if asked ∈ sent then wire plain netGatewayIp netPhysIp ⟨80,httpPort 1⟩ answer else []
  accepts := fun _ => true

def greeting : Server := ⟨[72,105,33,10],1000⟩

/-- The SYN of the driver and its acknowledgement of the answer. -/
def asks : Segment := ⟨httpSeq 1,0,tcpSyn,[]⟩
def opens : Segment := ⟨httpSeq 1 + 1,1001,tcpAck,[]⟩

/-- The sequence number behind the request. -/
def requested : BitVec 32 := httpSeq 1 + 1 + BitVec.ofNat 32 (httpRequest [47]).length

def synAck : Segment := ⟨1000,httpSeq 1 + 1,tcpSyn ||| tcpAck,[]⟩
def firstPart : Segment := ⟨1001,requested,tcpPsh ||| tcpAck,[72,105]⟩
def lastPart : Segment := ⟨1003,requested,tcpPsh ||| tcpAck,[33,10]⟩
def closing : Segment := ⟨1005,requested,tcpFin ||| tcpAck,[]⟩
def aborting : Segment := ⟨1003,requested,tcpRst ||| tcpAck,[]⟩

/-- The server may answer so. -/
def MayAnswer (pair : Segment × Segment) : Prop :=
  pair.2.payload.length ≤ 1460 ∧ ∀ sent, pair.1 ∈ sent → greeting.Sends sent pair.2

theorem answering_genuine {answers : List (Segment × Segment)} (each : ∀ pair ∈ answers, MayAnswer pair) :
    Genuine (answering answers) greeting netGatewayIp (httpPort 1) := by
  have given (n : Nat) (sent : List Segment) : (answering answers).polls n sent = arpReply ∨
      (answering answers).polls n sent = [] ∨ ∃ s : Segment, s.payload.length ≤ 1460 ∧ greeting.Sends sent s ∧
        (answering answers).polls n sent = wire plain netGatewayIp netPhysIp ⟨80,httpPort 1⟩ s := by
    cases n with
    | zero => exact .inl rfl
    | succ n =>
      right
      dsimp only [answering]
      cases found : answers[n]? with
      | none => exact .inl rfl
      | some pair =>
        obtain ⟨short,sends⟩ := each pair (List.mem_of_getElem? found)
        dsimp only
        by_cases member : pair.1 ∈ sent
        · rw [if_pos member]
          exact .inr ⟨pair.2,short,sends sent member,rfl⟩
        · rw [if_neg member]
          exact .inl rfl
  constructor
  · intro n sent
    rcases given n sent with same | same | ⟨s,short,_,same⟩
    · rw [same]
      decide
    · rw [same]
      exact Nat.zero_le _
    · rw [same,wire,List.length_append,List.length_append,List.length_append,List.length_append,ethHeader_length,ip_length,
        tcp_length]
      change 14 + (5 * 4 + (5 * 4 + (s.payload.length + 0))) ≤ 1514
      omega
  · intro n sent
    rcases given n sent with same | same | ⟨s,_,sends,same⟩
    · rw [same]
      exact .inl rfl
    · rw [same]
      exact .inl rfl
    · exact .inr ⟨plain,s,same,sends⟩

theorem synAck_answer : MayAnswer (asks,synAck) :=
  ⟨by decide,fun _ member => .accepts asks member (by decide) (by decide) (by decide) rfl rfl rfl⟩

theorem part_answer {s : Segment} (p : Nat) (short : s.payload.length ≤ 1460) (acks : sets s.flags tcpAck)
    (open_ : sets s.flags tcpSyn = false) (up : sets s.flags tcpRst = false) (seq : s.seq = greeting.seqAt p)
    (bytes : s.payload = (greeting.stream.drop p).take s.payload.length) (window : p + s.payload.length ≤ 8192)
    (last : sets s.flags tcpFin → p + s.payload.length = greeting.stream.length) : MayAnswer (opens,s) := by
  refine ⟨short,fun sent member => .carries 0 p ⟨by decide,opens,member,by decide,by decide⟩ acks open_ up seq bytes ?_ last⟩
  rw [Nat.zero_add]
  exact window

theorem firstPart_answer : MayAnswer (opens,firstPart) :=
  part_answer 0 (by decide) (by decide) (by decide) (by decide) (by decide) (by decide) (by decide) (by decide)

theorem lastPart_answer : MayAnswer (opens,lastPart) :=
  part_answer 2 (by decide) (by decide) (by decide) (by decide) (by decide) (by decide) (by decide) (by decide)

theorem closing_answer : MayAnswer (opens,closing) :=
  part_answer 4 (by decide) (by decide) (by decide) (by decide) (by decide) (by decide) (by decide) (by decide)

theorem aborting_answer : MayAnswer (opens,aborting) := ⟨by decide,fun _ _ => .resets (by decide) (by decide)⟩

/-- The first part comes twice. -/
def orderlyLine : Line := answering [(asks,synAck),(opens,firstPart),(opens,firstPart),(opens,lastPart),(opens,closing)]

theorem page_fetched_greeting : (netHttpGet orderlyLine 1 netGatewayIp [47] (fun _ => 255) 16 1).Right greeting 16 := by
  have genuine : Genuine orderlyLine greeting netGatewayIp (httpPort 1) := by
    apply answering_genuine
    simp only [List.forall_mem_cons,List.not_mem_nil,false_imp_iff,implies_true,and_true]
    exact ⟨synAck_answer,firstPart_answer,firstPart_answer,lastPart_answer,closing_answer⟩
  refine (page_fetched orderlyLine greeting 1 netGatewayIp [47] (fun _ => 255) 16 1 genuine (by decide)).mpr fun _ => ?_
  decide +kernel

/-- The FIN overtakes the last part. -/
def overtaken : Line := answering [(asks,synAck),(opens,firstPart),(opens,closing),(opens,lastPart)]

/-- A reset follows the first part. -/
def aborted : Line := answering [(asks,synAck),(opens,firstPart),(opens,aborting)]

/-- The first call ends with the FIN and half of the page, the second one with a page that no
zero ends. -/
theorem page_cut : (Genuine overtaken greeting netGatewayIp (httpPort 1) ∧
    ¬(netHttpGet overtaken 1 netGatewayIp [47] (fun _ => 255) 16 1).Right greeting 16) ∧
      (Genuine aborted greeting netGatewayIp (httpPort 1) ∧
        ¬(netHttpGet aborted 1 netGatewayIp [47] (fun _ => 255) 16 1).Right greeting 16) := by
  refine ⟨⟨?_,?_⟩,?_,?_⟩
  · apply answering_genuine
    simp only [List.forall_mem_cons,List.not_mem_nil,false_imp_iff,implies_true,and_true]
    exact ⟨synAck_answer,firstPart_answer,closing_answer,lastPart_answer⟩
  · intro right
    have half := right.whole 2 (by decide +kernel) (by decide +kernel)
    exact absurd half (by decide +kernel)
  · apply answering_genuine
    simp only [List.forall_mem_cons,List.not_mem_nil,false_imp_iff,implies_true,and_true]
    exact ⟨synAck_answer,firstPart_answer,aborting_answer⟩
  · intro right
    have ended := (right.page 2 (by decide +kernel) (by decide)).2.2
    exact absurd ended (by decide +kernel)

end LionOS.Net

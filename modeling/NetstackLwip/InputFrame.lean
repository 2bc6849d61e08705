import NetstackLwip.SendRules

namespace NetstackLwip

/-!
# What an arriving segment leaves alone

The acknowledgement part of `tcp_receive` never touches the receive variables,
and the data part touches nothing else but the announced window, the
acknowledgement flags, and the state when a queued FIN comes into sequence.
-/

open FaultState

variable {allowed : Fault → Prop} {world : World}

/-! ## The data -/

/-- What the data part of `tcp_receive` leaves alone; `fin` says whether it has
come to a FIN. -/
structure DataFrame (before : TcpPcb) (fin : Bool) (after : TcpPcb) :
    Prop where
  endpoint : after.toEndpointVars = before.toEndpointVars
  app : after.toAppVars = before.toAppVars
  snd : after.toSndVars = before.toSndVars
  queue : after.toQueueVars = before.toQueueVars
  cong : after.toCongVars = before.toCongVars
  persist : after.toPersistVars = before.toPersistVars
  state :
    after.state = before.state ∨
      before.state = .established ∧ after.state = .closeWait ∧ fin = true
  prio : after.prio = before.prio
  polltmr : after.polltmr = before.polltmr
  tmr : after.tmr = before.tmr
  lasting : after.flags.lasting = before.flags.lasting
  refusedData : after.refusedData = before.refusedData

namespace DataFrame

variable {before middle after : TcpPcb} {early late : Bool}

theorem refl
    (pcb : TcpPcb)
    (fin : Bool) :
    DataFrame pcb fin pcb := by
  constructor
  case state => exact .inl rfl
  all_goals rfl

theorem trans
    (first : DataFrame before early middle)
    (second : DataFrame middle late after)
    (still : early = true → late = true) :
    DataFrame before late after where
  endpoint := second.endpoint.trans first.endpoint
  app := second.app.trans first.app
  snd := second.snd.trans first.snd
  queue := second.queue.trans first.queue
  cong := second.cong.trans first.cong
  persist := second.persist.trans first.persist
  state := by
    rcases second.state with same | ⟨started, arrived, fin⟩
    · rcases first.state with kept | ⟨started, moved, fin⟩
      · exact .inl (same.trans kept)
      · exact .inr ⟨started, same.trans moved, still fin⟩
    · rcases first.state with same | ⟨_, moved, _⟩
      · exact .inr ⟨same ▸ started, arrived, fin⟩
      · rw [moved] at started
        cases started
  prio := second.prio.trans first.prio
  polltmr := second.polltmr.trans first.polltmr
  tmr := second.tmr.trans first.tmr
  lasting := second.lasting.trans first.lasting
  refusedData := second.refusedData.trans first.refusedData

/-- Receive variables, announced window and acknowledgement flags may change
at will. -/
theorem of_rcv
    (pcb : TcpPcb)
    (rcvNxt : SeqNo)
    (rcvWnd : Nat)
    (ooseq : List TcpSeg)
    (ann : AnnVars)
    (delay now fin : Bool) :
    DataFrame pcb fin
      { pcb with
        rcvNxt := rcvNxt
        rcvWnd := rcvWnd
        ooseq := ooseq
        toAnnVars := ann
        flags.ackDelay := delay
        flags.ackNow := now } := by
  constructor
  case state => exact .inl rfl
  all_goals rfl

theorem of_ack
    (frame : AckFrame before after)
    (fin : Bool) :
    DataFrame before fin after where
  endpoint := frame.endpoint
  app := frame.app
  snd := frame.snd
  queue := frame.queue
  cong := frame.cong
  persist := frame.persist
  state := .inl frame.state
  prio := frame.prio
  polltmr := frame.polltmr
  tmr := frame.tmr
  lasting := frame.lasting
  refusedData := congrArg RcvVars.refusedData frame.rcv

end DataFrame

/-- The announced window is all that `tcp_update_rcv_ann_wnd` changes. -/
theorem tcpUpdateRcvAnnWnd_spec
    (pcb : TcpPcb)
    (faults : allowed .newRcvAnnWnd) :
    wp (tcpUpdateRcvAnnWnd pcb)
      (fun result after =>
        after = world ∧
          ∃ wnd, result.2 = { pcb with rcvAnnWnd := wnd })
      allowed world := by
  unfold tcpUpdateRcvAnnWnd
  simp only [wp_ite, wp_bind, wp_ensure, wp_pure]
  exact ⟨fun _ => ⟨trivial, _, rfl⟩, fun _ => ⟨fun _ => ⟨trivial, _, rfl⟩,
    fun _ => ⟨fun _ => ⟨trivial, _, rfl⟩, fun _ => faults⟩⟩⟩

theorem advanceRcv_spec
    (fault : Fault)
    (seg : TcpSeg)
    (pcb : TcpPcb)
    (fits : seg.tcplen ≤ pcb.rcvWnd ∨ allowed fault)
    (faults : allowed .newRcvAnnWnd) :
    wp (advanceRcv fault seg pcb)
      (fun result after =>
        after = world ∧
          seg.tcplen ≤ pcb.rcvWnd ∧
          ∃ wnd,
            result =
              { pcb with
                rcvNxt := seg.endSeq
                rcvWnd := pcb.rcvWnd - seg.tcplen
                rcvAnnWnd := wnd })
      allowed world := by
  unfold advanceRcv
  rw [wp_bind, wp_ensure]
  refine ⟨fun inside => ?_, fun outside => ?_⟩
  · rw [wp_bind]
    refine wp_weaken (tcpUpdateRcvAnnWnd_spec _ faults) ?_
    rintro ⟨_, after⟩ later ⟨rfl, wnd, rfl⟩
    exact ⟨rfl, by simpa using inside, wnd, rfl⟩
  · rcases fits with fits | admitted
    · exact absurd fits (by simpa using outside)
    · exact admitted

section Data

variable
  (faults :
    ∀ fault : Fault,
      fault.origin = .receiveData →
        fault ≠ .insaneOffset → fault ≠ .pbufTooShort → allowed fault)
include faults

theorem drainOoseq_frame
    (queue : List TcpSeg)
    (out : RecvOut)
    (pcb : TcpPcb) :
    wp (drainOoseq queue out pcb)
      (fun result after =>
        DataFrame pcb result.1.gotFin result.2 ∧
          (out.gotFin = true → result.1.gotFin = true) ∧
          after = world)
      allowed world := by
  induction queue generalizing out pcb world with
  | nil =>
      exact ⟨.of_rcv pcb _ _ _ _ _ _ _, id, rfl⟩
  | cons cseg rest inductionHypothesis =>
      unfold drainOoseq
      rw [wp_ite]
      refine ⟨fun _ => ?_, fun _ => ⟨.of_rcv pcb _ _ _ _ _ _ _, id, rfl⟩⟩
      rw [wp_bind]
      refine wp_weaken
        (advanceRcv_spec _ cseg pcb (.inr (faults _ rfl (by simp) (by simp)))
          (faults _ rfl (by simp) (by simp))) ?_
      rintro _ later ⟨rfl, -, wnd, rfl⟩
      refine wp_weaken (inductionHypothesis _ _) ?_
      rintro ⟨result, after⟩ last ⟨frame, mono, rfl⟩
      have grows : (out.take cseg).gotFin = (out.gotFin || cseg.hdr.fin) := rfl
      refine ⟨@DataFrame.trans _ _ _ cseg.hdr.fin _ ?_ frame ?_, ?_, rfl⟩
      · constructor
        case state =>
          simp only
          split
          · rename_i fin
            exact .inr ⟨fin.2, rfl, fin.1⟩
          · exact .inl rfl
        all_goals rfl
      · intro fin
        exact mono (by simp [grows, fin])
      · intro fin
        exact mono (by simp [grows, fin])

/-- The front of the segment that lies before `rcvNxt` is no longer than the
segment. -/
def FrontInside (rcvNxt : SeqNo) (inseg : TcpSeg) : Prop :=
  (rcvNxt - inseg.seqno).toNat < 0xffff ∧
    (rcvNxt - inseg.seqno).toNat ≤ inseg.p.totLen

omit faults in
theorem trimStart_frame
    (trims : Bool)
    (rcvNxt : SeqNo)
    (inseg : TcpSeg)
    (inside :
      trims = true →
        FrontInside rcvNxt inseg ∨
          allowed .insaneOffset ∧ allowed .pbufTooShort) :
    wp (trimStart trims rcvNxt inseg)
      (fun _ after => after = world) allowed world := by
  unfold trimStart trimFront
  simp only [wp_ite, wp_bind, wp_ensure, wp_pure]
  refine ⟨fun trimmed => ?_, fun _ => trivial⟩
  rcases inside trimmed with fits | ⟨insane, short⟩
  · exact ⟨fun _ => ⟨fun _ => trivial,
      fun wrong => absurd fits.2 (of_decide_eq_false wrong)⟩,
      fun wrong => absurd fits.1 (of_decide_eq_false wrong)⟩
  · exact ⟨fun _ => ⟨fun _ => trivial, fun _ => short⟩, fun _ => insane⟩

theorem trimToWnd_frame
    (rcvNxt : SeqNo)
    (rcvWnd : Nat)
    (inseg : TcpSeg) :
    wp (trimToWnd rcvNxt rcvWnd inseg)
      (fun _ after => after = world) allowed world := by
  unfold trimToWnd
  simp only [wp_ite, wp_bind, wp_ensure, wp_pure]
  exact ⟨fun _ => ⟨fun _ => trivial, fun _ => faults _ rfl (by simp) (by simp)⟩,
    fun _ => trivial⟩

theorem mergeOoseq_frame
    (inseg : TcpSeg)
    (ooseq : List TcpSeg) :
    wp (mergeOoseq inseg ooseq)
      (fun _ after => after = world) allowed world := by
  unfold mergeOoseq
  rw [wp_ite]
  refine ⟨fun _ => rfl, fun _ => ?_⟩
  split
  · rfl
  · simp only [wp_ite, wp_bind, wp_ensure, wp_pure]
    exact ⟨fun _ => ⟨fun _ => trivial, fun _ => faults _ rfl (by simp) (by simp)⟩,
      fun _ => trivial⟩

theorem receiveInOrder_frame
    (inseg : TcpSeg)
    (pcb : TcpPcb) :
    wp (receiveInOrder inseg pcb)
      (fun result after =>
        DataFrame pcb result.1.gotFin result.2 ∧ after = world)
      allowed world := by
  unfold receiveInOrder
  rw [wp_bind]
  refine wp_weaken (trimToWnd_frame faults _ _ _) ?_
  rintro cut middle rfl
  rw [wp_bind]
  refine wp_weaken (mergeOoseq_frame faults _ _) ?_
  rintro ⟨merged, queue⟩ later rfl
  rw [wp_bind]
  refine wp_weaken
    (advanceRcv_spec _ merged _ (.inr (faults _ rfl (by simp) (by simp)))
      (faults _ rfl (by simp) (by simp))) ?_
  rintro _ last ⟨rfl, -, wnd, rfl⟩
  rw [wp_bind]
  refine wp_weaken (drainOoseq_frame faults _ _ _) ?_
  rintro ⟨out, after⟩ final ⟨frame, _, rfl⟩
  have started := DataFrame.of_rcv pcb merged.endSeq
    (pcb.rcvWnd - merged.tcplen) queue
    { pcb.toAnnVars with rcvAnnWnd := wnd } pcb.flags.ackDelay
    pcb.flags.ackNow false
  refine ⟨(started.trans frame nofun).trans ?_ id, rfl⟩
  unfold tcpAck
  split <;> exact .of_rcv after _ _ _ _ _ _ _

theorem oosAppend_frame
    (rightEdge : SeqNo)
    (inseg next : TcpSeg) :
    wp (oosAppend rightEdge inseg next)
      (fun _ after => Emits Bare world after) allowed world := by
  unfold oosAppend
  rw [wp_ite]
  refine ⟨fun _ => Emits.refl world, fun _ => ?_⟩
  rw [wp_bind]
  refine wp_weaken (allocate_emits Bare) fun _ after emits => ?_
  simp only [wp_ite, wp_bind, wp_ensure, wp_pure]
  refine ⟨fun _ => ⟨fun _ => ⟨fun _ => emits, fun _ => ?_⟩,
    fun _ => emits⟩, fun _ => emits⟩
  exact faults _ rfl (by simp) (by simp)

omit faults in
theorem oosInsertBefore_frame
    (inseg : TcpSeg)
    (next : List TcpSeg) :
    wp (oosInsertBefore inseg next)
      (fun _ after => Emits Bare world after) allowed world := by
  unfold oosInsertBefore
  rw [wp_bind]
  refine wp_weaken (allocate_emits Bare) fun _ after emits => ?_
  rw [wp_ite]
  exact ⟨fun _ => emits, fun _ => emits⟩

theorem oosPlace_frame
    (rightEdge : SeqNo)
    (inseg : TcpSeg)
    (prev : Option TcpSeg)
    (queue : List TcpSeg) :
    wp (oosPlace rightEdge inseg prev queue)
      (fun _ after => Emits Bare world after) allowed world := by
  induction queue generalizing prev world with
  | nil =>
      unfold oosPlace
      exact Emits.refl world
  | cons next rest inductionHypothesis =>
      unfold oosPlace
      rw [wp_ite]
      refine ⟨fun _ => ?_, fun _ => ?_⟩
      · rw [wp_ite]
        refine ⟨fun _ => ?_, fun _ => Emits.refl world⟩
        rw [wp_bind]
        exact oosInsertBefore_frame inseg _
      cases prev with
      | none =>
          simp only
          rw [wp_ite]
          refine ⟨fun _ => oosInsertBefore_frame inseg _, fun _ => ?_⟩
          rw [wp_ite]
          exact ⟨fun _ => oosAppend_frame faults _ _ _,
            fun _ => inductionHypothesis _⟩
      | some prev =>
          simp only
          rw [wp_ite]
          refine ⟨fun _ => ?_, fun _ => ?_⟩
          · rw [wp_bind]
            refine wp_weaken (allocate_emits Bare) fun _ after emits => ?_
            rw [wp_ite]
            exact ⟨fun _ => emits, fun _ => emits⟩
          rw [wp_ite]
          refine ⟨fun _ => ?_, fun _ => ?_⟩
          · rw [wp_bind]
            exact oosAppend_frame faults _ _ _
          · rw [wp_bind]
            exact inductionHypothesis _

theorem receiveOutOfOrder_frame
    (inseg : TcpSeg)
    (pcb : TcpPcb) :
    wp (receiveOutOfOrder inseg pcb)
      (fun result after =>
        (DataFrame pcb false result ∧
          ∃ queue, result.toRcvVars = { pcb.toRcvVars with ooseq := queue }) ∧
          Emits Bare world after)
      allowed world := by
  unfold receiveOutOfOrder
  have inserted :
      wp (oosInsert (pcb.rcvNxt + BitVec.ofNat 32 pcb.rcvWnd) inseg pcb.ooseq)
        (fun _ after => Emits Bare world after) allowed world := by
    unfold oosInsert
    split
    · rw [wp_bind]
      refine wp_weaken (allocate_emits Bare) fun _ after emits => ?_
      rw [wp_ite]
      exact ⟨fun _ => emits, fun _ => emits⟩
    · exact oosPlace_frame faults _ _ _ _
  rw [wp_bind]
  refine wp_weaken inserted fun queue middle emits => ?_
  rw [wp_bind]
  refine wp_weaken (tcpSendEmptyAck_spec _) ?_
  rintro ⟨_, after⟩ later ⟨frame, sent⟩
  have inserts := DataFrame.of_rcv pcb pcb.rcvNxt pcb.rcvWnd queue
    pcb.toAnnVars pcb.flags.ackDelay pcb.flags.ackNow false
  exact ⟨⟨inserts.trans (.of_ack frame false) id, queue, frame.rcv⟩,
    emits.trans sent⟩

/-- The data part of `tcp_receive` moves the receive variables only, and
ignores the data once the peer's FIN has been taken. -/
theorem tcpReceiveData_frame
    (inseg : TcpSeg)
    (pcb : TcpPcb)
    (inside :
      frontTrims inseg.seqno inseg.tcplen pcb.rcvNxt = true →
        0 < inseg.tcplen →
          FrontInside pcb.rcvNxt inseg ∨
            allowed .insaneOffset ∧ allowed .pbufTooShort) :
    wp (tcpReceiveData inseg pcb)
      (fun result after =>
        DataFrame pcb result.1.gotFin result.2 ∧
          (TcpState.closeWait.code ≤ pcb.state.code →
            result.1 = {} ∧ result.2.toRcvVars = pcb.toRcvVars) ∧
          Emits Bare world after)
      allowed world := by
  have noted (now : Bool) :
      DataFrame pcb false { pcb with flags.ackNow := now } :=
    .of_rcv pcb _ _ _ _ _ _ _
  unfold tcpReceiveData
  rw [wp_ite]
  refine ⟨?_, fun _ => ?_⟩
  · rintro ⟨carries, early⟩
    have notLate :
        TcpState.closeWait.code ≤ pcb.state.code → False := by
      omega
    have started :
        ∃ now,
          (if !frontTrims inseg.seqno inseg.tcplen pcb.rcvNxt &&
              SerialNumber.lt inseg.seqno pcb.rcvNxt then
            { pcb with flags.ackNow := true }
          else
            pcb) = { pcb with flags.ackNow := now } := by
      split
      · exact ⟨true, rfl⟩
      · exact ⟨pcb.flags.ackNow, rfl⟩
    obtain ⟨now, equal⟩ := started
    simp only
    rw [equal, wp_bind]
    refine wp_weaken
      (trimStart_frame _ _ _ fun trims => inside trims carries) ?_
    rintro trimmed middle rfl
    rw [wp_ite]
    refine ⟨fun _ => ?_, fun _ => ?_⟩
    · rw [wp_ite]
      refine ⟨fun _ => ?_, fun _ => ?_⟩
      · refine wp_weaken (receiveInOrder_frame faults _ _) ?_
        rintro ⟨_, after⟩ later ⟨frame, rfl⟩
        exact ⟨(noted now).trans frame nofun, fun late => (notLate late).elim,
          Emits.refl _⟩
      · rw [wp_bind]
        refine wp_weaken (receiveOutOfOrder_frame faults _ _) ?_
        rintro after later ⟨⟨frame, _⟩, emits⟩
        exact ⟨(noted now).trans frame nofun, fun late => (notLate late).elim,
          emits⟩
    · rw [wp_bind]
      refine wp_weaken (tcpSendEmptyAck_spec _) ?_
      rintro ⟨_, after⟩ later ⟨acked, emits⟩
      exact ⟨(noted now).trans (.of_ack acked false) nofun,
        fun late => (notLate late).elim, emits⟩
  · rw [wp_ite]
    exact ⟨fun _ => ⟨noted true, fun _ => ⟨rfl, rfl⟩, Emits.refl _⟩,
      fun _ => ⟨DataFrame.refl pcb false, fun _ => ⟨rfl, rfl⟩, Emits.refl _⟩⟩

end Data

/-! ## The acknowledgement -/

/-- What the acknowledgement part of `tcp_receive` leaves alone. -/
structure JudgeFrame (before after : TcpPcb) : Prop where
  endpoint : after.toEndpointVars = before.toEndpointVars
  app : after.toAppVars = before.toAppVars
  rcv : after.toRcvVars = before.toRcvVars
  persist : after.toPersistVars = before.toPersistVars
  mss : after.mss = before.mss
  sndLbb : after.sndLbb = before.sndLbb
  sndWndMax : after.sndWndMax = before.sndWndMax
  sndNxt : after.sndNxt = before.sndNxt
  state : after.state = before.state
  prio : after.prio = before.prio
  tmr : after.tmr = before.tmr
  lasting : after.flags.lasting = before.flags.lasting

namespace JudgeFrame

variable {before middle after : TcpPcb}

theorem refl (pcb : TcpPcb) : JudgeFrame pcb pcb := by
  constructor <;> rfl

theorem trans
    (first : JudgeFrame before middle)
    (second : JudgeFrame middle after) :
    JudgeFrame before after where
  endpoint := second.endpoint.trans first.endpoint
  app := second.app.trans first.app
  rcv := second.rcv.trans first.rcv
  persist := second.persist.trans first.persist
  mss := second.mss.trans first.mss
  sndLbb := second.sndLbb.trans first.sndLbb
  sndWndMax := second.sndWndMax.trans first.sndWndMax
  sndNxt := second.sndNxt.trans first.sndNxt
  state := second.state.trans first.state
  prio := second.prio.trans first.prio
  tmr := second.tmr.trans first.tmr
  lasting := second.lasting.trans first.lasting

theorem of_ack
    (frame : AckFrame before after) :
    JudgeFrame before after where
  endpoint := frame.endpoint
  app := frame.app
  rcv := frame.rcv
  persist := frame.persist
  mss := congrArg SndVars.mss frame.snd
  sndLbb := congrArg SndVars.sndLbb frame.snd
  sndWndMax := congrArg SndVars.sndWndMax frame.snd
  sndNxt := congrArg QueueVars.sndNxt frame.queue
  state := frame.state
  prio := frame.prio
  tmr := frame.tmr
  lasting := frame.lasting

end JudgeFrame

theorem updateSndWnd_frame
    (packet : Packet)
    (pcb : TcpPcb) :
    JudgeFrame
        { pcb with sndWndMax := (updateSndWnd packet pcb).sndWndMax }
        (updateSndWnd packet pcb) ∧
      (updateSndWnd packet pcb).toQueueVars = pcb.toQueueVars := by
  unfold updateSndWnd
  split
  · refine ⟨?_, rfl⟩
    constructor <;> rfl
  · refine ⟨?_, rfl⟩
    constructor <;> rfl

/-- The packet acknowledges something that was sent and not yet acknowledged. -/
def Packet.AcksNew (packet : Packet) (pcb : TcpPcb) : Prop :=
  packet.flags.ack = true ∧
    SerialNumber.leq packet.ackno pcb.lastack = false ∧
    SerialNumber.between packet.ackno (pcb.lastack + 1) pcb.sndNxt = true

instance (packet : Packet) (pcb : TcpPcb) : Decidable (packet.AcksNew pcb) :=
  inferInstanceAs (Decidable (_ ∧ _ ∧ _))

/-- The send queues when nothing is acknowledged: the first segment in flight
may be up for retransmission. -/
inductive Requeued (before after : TcpPcb) : Prop where
  | same
      (unacked : after.unacked = before.unacked)
      (unsent : after.unsent = before.unsent)
  | rexmit
      (seg : TcpSeg)
      (inFlight : before.unacked = seg :: after.unacked)
      (unsent : after.unsent = insertSorted seg before.unsent)

/-- What a packet does to the send queues. -/
inductive AckQueues
    (packet : Packet)
    (before after : TcpPcb) : Prop where
  | kept
      (old : ¬packet.AcksNew before)
      (queues : Requeued before after)
  | freed
      (new : packet.AcksNew before)
      (unacked :
        after.unacked =
          before.unacked.dropWhile
            fun seg => SerialNumber.leq seg.endSeq packet.ackno)
      (unsent :
        after.unsent =
          before.unsent.dropWhile
            fun seg => SerialNumber.leq seg.endSeq packet.ackno)

theorem Requeued.congr
    {before middle after final : TcpPcb}
    (queues : Requeued middle after)
    (first : middle.toQueueVars = before.toQueueVars)
    (last : final.toQueueVars = after.toQueueVars) :
    Requeued before final := by
  cases queues with
  | same unacked unsent =>
      refine .same ?_ ?_
      · rw [last, unacked, first]
      · rw [last, unsent, first]
  | rexmit seg inFlight unsent =>
      refine .rexmit seg ?_ ?_
      · rw [last, ← inFlight, first]
      · rw [last, unsent, first]

theorem Packet.acksNew_congr
    {packet : Packet}
    {before after : TcpPcb}
    (lastack : after.lastack = before.lastack)
    (sndNxt : after.sndNxt = before.sndNxt) :
    packet.AcksNew after ↔ packet.AcksNew before := by
  unfold Packet.AcksNew
  rw [lastack, sndNxt]

theorem AckQueues.congr
    {packet : Packet}
    {before middle after final : TcpPcb}
    (queues : AckQueues packet middle after)
    (first : middle.toQueueVars = before.toQueueVars)
    (lastack : middle.lastack = before.lastack)
    (last : final.toQueueVars = after.toQueueVars) :
    AckQueues packet before final := by
  have sndNxt : middle.sndNxt = before.sndNxt :=
    congrArg QueueVars.sndNxt first
  cases queues with
  | kept old queues =>
      exact .kept (fun new => old ((Packet.acksNew_congr lastack sndNxt).mpr new))
        (queues.congr first last)
  | freed new unacked unsent =>
      refine .freed ((Packet.acksNew_congr lastack sndNxt).mp new) ?_ ?_
      · rw [last, unacked, first]
      · rw [last, unsent, first]

theorem tcpRexmit_frame
    (pcb : TcpPcb) :
    JudgeFrame pcb (tcpRexmit pcb).2 ∧ Requeued pcb (tcpRexmit pcb).2 := by
  unfold tcpRexmit
  split
  · exact ⟨JudgeFrame.refl pcb, .same rfl rfl⟩
  · rename_i seg rest inFlight
    refine ⟨?_, .rexmit seg inFlight rfl⟩
    constructor <;> rfl

theorem tcpRexmitFast_frame
    (pcb : TcpPcb) :
    JudgeFrame pcb (tcpRexmitFast pcb) ∧ Requeued pcb (tcpRexmitFast pcb) := by
  obtain ⟨moved, queues⟩ := tcpRexmit_frame pcb
  unfold tcpRexmitFast
  split
  · simp only
    split
    · refine ⟨moved.trans ?_, queues.congr rfl rfl⟩
      constructor <;> rfl
    · exact ⟨moved, queues⟩
  · exact ⟨JudgeFrame.refl pcb, .same rfl rfl⟩

theorem noteDupack_frame
    (pcb : TcpPcb) :
    JudgeFrame pcb (noteDupack pcb) := by
  constructor <;> rfl

theorem countDupack_frame
    (packet : Packet)
    (tcplen : Nat)
    (rightWndEdge : SeqNo)
    (pcb : TcpPcb) :
    JudgeFrame pcb (countDupack packet tcplen rightWndEdge pcb) ∧
      Requeued pcb (countDupack packet tcplen rightWndEdge pcb) := by
  unfold countDupack
  split
  · split
    · obtain ⟨frame, queues⟩ := tcpRexmitFast_frame (noteDupack pcb)
      exact ⟨(noteDupack_frame pcb).trans frame, queues.congr rfl rfl⟩
    · exact ⟨noteDupack_frame pcb, .same rfl rfl⟩
  · exact ⟨by constructor <;> rfl, .same rfl rfl⟩

theorem growCwnd_frame
    (acked : Nat)
    (pcb : TcpPcb) :
    JudgeFrame pcb (growCwnd acked pcb) ∧
      (growCwnd acked pcb).toQueueVars = pcb.toQueueVars := by
  unfold growCwnd
  simp only
  split
  · exact ⟨by constructor <;> rfl, rfl⟩
  · split <;> exact ⟨by constructor <;> rfl, rfl⟩

theorem startNewAck_frame
    (ackno : SeqNo)
    (pcb : TcpPcb) :
    JudgeFrame pcb (startNewAck ackno pcb) ∧
      (startNewAck ackno pcb).toQueueVars = pcb.toQueueVars := by
  unfold startNewAck
  obtain ⟨grown, queue⟩ := growCwnd_frame _ _
  refine ⟨JudgeFrame.trans ?_ grown, queue.trans ?_⟩
  · split <;> constructor <;> rfl
  · split <;> rfl

theorem estimateRtt_frame
    (ackno : SeqNo)
    (tcpTicks : BitVec 32)
    (pcb : TcpPcb) :
    JudgeFrame pcb (estimateRtt ackno tcpTicks pcb) ∧
      (estimateRtt ackno tcpTicks pcb).toQueueVars = pcb.toQueueVars := by
  unfold estimateRtt
  split <;> exact ⟨by constructor <;> rfl, rfl⟩

section Ack

variable
  (faults : ∀ fault : Fault, fault.origin = .receiveAck → allowed fault)
include faults

theorem tcpFreeAckedSegments_frame
    (ackno : SeqNo)
    (otherSegs segs : List TcpSeg)
    (sndQueuelen recvAcked : Nat) :
    wp (tcpFreeAckedSegments ackno otherSegs segs sndQueuelen recvAcked)
      (fun result after =>
        after = world ∧
          result.segs =
            segs.dropWhile fun seg => SerialNumber.leq seg.endSeq ackno)
      allowed world := by
  induction segs generalizing sndQueuelen recvAcked with
  | nil =>
      exact ⟨rfl, rfl⟩
  | cons seg rest inductionHypothesis =>
      unfold tcpFreeAckedSegments
      rw [wp_ite]
      refine ⟨fun acked => ?_, fun left => ?_⟩
      · rw [List.dropWhile_cons, if_pos acked]
        simp only [wp_bind, wp_ensure]
        exact ⟨fun _ => ⟨fun _ => inductionHypothesis _ _,
          fun _ => faults _ rfl⟩, fun _ => faults _ rfl⟩
      · rw [List.dropWhile_cons, if_neg left]
        exact ⟨rfl, rfl⟩

/-- An ACK of new data frees the acknowledged front of both queues. -/
theorem ackNewData_spec
    (ackno : SeqNo)
    (pcb : TcpPcb) :
    wp (ackNewData ackno pcb)
      (fun result after =>
        after = world ∧
          JudgeFrame pcb result.2 ∧
          result.2.unacked =
            pcb.unacked.dropWhile
              (fun seg => SerialNumber.leq seg.endSeq ackno) ∧
          result.2.unsent =
            pcb.unsent.dropWhile
              fun seg => SerialNumber.leq seg.endSeq ackno)
      allowed world := by
  unfold ackNewData
  obtain ⟨started, queues⟩ := startNewAck_frame ackno pcb
  rw [wp_bind]
  refine wp_weaken (tcpFreeAckedSegments_frame faults _ _ _ _ _) ?_
  rintro sent middle ⟨rfl, unacked⟩
  rw [wp_bind]
  refine wp_weaken (tcpFreeAckedSegments_frame faults _ _ _ _ _) ?_
  rintro queued later ⟨rfl, unsent⟩
  rw [queues] at unacked unsent
  refine ⟨rfl, started.trans ?_, unacked, unsent⟩
  constructor <;> rfl

theorem judgeAckno_spec
    (packet : Packet)
    (tcplen : Nat)
    (rightWndEdge : SeqNo)
    (pcb : TcpPcb)
    (ack : packet.flags.ack = true) :
    wp (judgeAckno packet tcplen rightWndEdge pcb)
      (fun result after =>
        JudgeFrame pcb result.2 ∧
          AckQueues packet pcb result.2 ∧
          Emits Bare world after)
      allowed world := by
  unfold judgeAckno
  rw [wp_ite]
  refine ⟨fun isOld => ?_, fun notOld => ?_⟩
  · obtain ⟨frame, queues⟩ := countDupack_frame packet tcplen rightWndEdge pcb
    refine ⟨frame, .kept (fun new => ?_) queues, Emits.refl world⟩
    exact absurd isOld (by simp [new.2.1])
  rw [wp_ite]
  refine ⟨fun inRange => ?_, fun outside => ?_⟩
  · refine wp_weaken (ackNewData_spec faults packet.ackno pcb) ?_
    rintro ⟨_, after⟩ later ⟨rfl, frame, unacked, unsent⟩
    exact ⟨frame, .freed ⟨ack, by simpa using notOld, inRange⟩ unacked unsent,
      Emits.refl _⟩
  · rw [wp_bind]
    refine wp_weaken (tcpSendEmptyAck_spec pcb) ?_
    rintro ⟨_, after⟩ later ⟨frame, emits⟩
    refine ⟨.of_ack frame, .kept (fun new => outside new.2.2) ?_, emits⟩
    have same : Requeued pcb pcb := .same rfl rfl
    exact same.congr rfl frame.queue

/-- The acknowledgement part of `tcp_receive`: the largest window is noted,
and the queues change as the acknowledgement number says. -/
theorem tcpReceiveAck_spec
    (packet : Packet)
    (tcplen : Nat)
    (pcb : TcpPcb) :
    wp (tcpReceiveAck packet tcplen pcb)
      (fun result after =>
        JudgeFrame { pcb with sndWndMax := result.2.sndWndMax } result.2 ∧
          result.2.sndWndMax =
            (if packet.flags.ack then
              (updateSndWnd packet pcb).sndWndMax
            else
              pcb.sndWndMax) ∧
          AckQueues packet pcb result.2 ∧
          Emits Bare world after)
      allowed world := by
  unfold tcpReceiveAck
  rw [wp_ite]
  refine ⟨fun ack => ?_, fun bare => ?_⟩
  · obtain ⟨updated, queue⟩ := updateSndWnd_frame packet pcb
    have sameAck : (updateSndWnd packet pcb).lastack = pcb.lastack := by
      unfold updateSndWnd
      split <;> rfl
    rw [wp_bind]
    refine wp_weaken (judgeAckno_spec faults packet tcplen _ _ ack) ?_
    rintro ⟨acked, judged⟩ middle ⟨frame, queues, emits⟩
    rw [wp_bind, wp_get, wp_pure, if_pos ack]
    have estimated :=
      estimateRtt_frame packet.ackno middle.tcpTicks judged
    have wndMax := estimated.1.sndWndMax.trans frame.sndWndMax
    refine ⟨?_, wndMax, queues.congr queue sameAck estimated.2, emits⟩
    rw [wndMax]
    exact (updated.trans frame).trans estimated.1
  · rw [wp_pure, if_neg bare]
    exact ⟨JudgeFrame.refl pcb, rfl,
      .kept (fun new => bare new.1) (.same rfl rfl), Emits.refl world⟩

end Ack

end NetstackLwip

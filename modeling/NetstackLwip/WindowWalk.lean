import NetstackLwip.SilentCalls
import NetstackLwip.StreamRules
import NetstackLwip.WindowEdge

namespace NetstackLwip

/-!
# The announced window through every call

Each function announces what lies inside the receive window and leaves it to
be announced next. `tcp_process` keeps the right edge of the window where it
is; what the application takes moves it to the right afterwards.
-/

open FaultState

variable
  {allowed : Fault → Prop}
  {world : World}
  {cap : Nat → Nat}
  {pcb : TcpPcb}

/-! ## What leaves the window alone -/

theorem QueueFrame.window
    {before after : TcpPcb}
    (frame : QueueFrame before after) :
    SameWindow before after where
  rcvNxt := congrArg RcvVars.rcvNxt frame.rcv
  rcvWnd := congrArg RcvVars.rcvWnd frame.rcv
  ann := frame.ann

theorem updateSndWnd_window
    (packet : Packet)
    (pcb : TcpPcb) :
    SameWindow pcb (updateSndWnd packet pcb) := by
  unfold updateSndWnd
  split <;> exact ⟨rfl, rfl, rfl⟩

theorem tcpRexmit_window
    (pcb : TcpPcb) :
    SameWindow pcb (tcpRexmit pcb).2 := by
  unfold tcpRexmit
  split <;> exact ⟨rfl, rfl, rfl⟩

theorem countDupack_window
    (packet : Packet)
    (tcplen : Nat)
    (rightWndEdge : SeqNo)
    (pcb : TcpPcb) :
    SameWindow pcb (countDupack packet tcplen rightWndEdge pcb) := by
  have noted : SameWindow pcb (noteDupack pcb) := ⟨rfl, rfl, rfl⟩
  have moved := noted.trans (tcpRexmit_window (noteDupack pcb))
  unfold countDupack
  split
  · split
    · unfold tcpRexmitFast
      split
      · simp only
        split
        · exact moved.trans ⟨rfl, rfl, rfl⟩
        · exact moved
      · exact noted
    · exact noted
  · exact ⟨rfl, rfl, rfl⟩

theorem startNewAck_window
    (ackno : SeqNo)
    (pcb : TcpPcb) :
    SameWindow pcb (startNewAck ackno pcb) := by
  unfold startNewAck growCwnd
  simp only
  split <;> split <;> split <;> exact ⟨rfl, rfl, rfl⟩

theorem estimateRtt_window
    (ackno : SeqNo)
    (tcpTicks : BitVec 32)
    (pcb : TcpPcb) :
    SameWindow pcb (estimateRtt ackno tcpTicks pcb) := by
  unfold estimateRtt
  split <;> exact ⟨rfl, rfl, rfl⟩

theorem tcpRexmitRtoPrepare_window
    (pcb : TcpPcb) :
    SameWindow pcb (tcpRexmitRtoPrepare pcb).2 := by
  unfold tcpRexmitRtoPrepare
  split <;> exact ⟨rfl, rfl, rfl⟩

theorem tcpPcbPurge_window
    (pcb : TcpPcb) :
    SameWindow pcb (tcpPcbPurge pcb) := by
  unfold tcpPcbPurge
  split <;> exact ⟨rfl, rfl, rfl⟩

theorem noteActivity_window
    (packet : Packet)
    (tcpTicks : BitVec 32)
    (pcb : TcpPcb) :
    SameWindow pcb (noteActivity packet tcpTicks pcb) :=
  ⟨rfl, rfl, rfl⟩

theorem processRst_window
    (packet : Packet)
    (pcb : TcpPcb) :
    SameWindow pcb (processRst packet pcb).2 := by
  unfold processRst
  split
  · exact ⟨rfl, rfl, rfl⟩
  · split <;> exact ⟨rfl, rfl, rfl⟩

/-! ## `tcp_receive`: the acknowledgement -/

section Calls

variable
  (near : Near cap)
  (others : ∀ fault : Fault, fault ≠ .newRcvAnnWnd → allowed fault)
include others

theorem wp_silent
    {α : Type}
    {computation : Lwip α}
    (silent : Silent world.sent computation) :
    wp computation (fun _ later => later.sent = world.sent) allowed world :=
  wp_mono (silent world rfl) (fun _ _ same => same) others

theorem ofOrigin
    {fault : Fault}
    {origin : FaultOrigin}
    (same : fault.origin = origin)
    (other : origin ≠ .receiveData) :
    allowed fault := by
  refine others fault ?_
  rintro rfl
  exact other same.symm

theorem ackNewData_window
    (ackno : SeqNo)
    (pcb : TcpPcb) :
    wp (ackNewData ackno pcb)
      (fun result later => SameWindow pcb result.2 ∧ later = world)
      allowed world := by
  have started := startNewAck_window ackno pcb
  have faults (fault : Fault) (same : fault.origin = .receiveAck) :
      allowed fault :=
    ofOrigin others same (by decide)
  unfold ackNewData
  rw [wp_bind]
  refine wp_weaken (tcpFreeAckedSegments_frame faults _ _ _ _ _) ?_
  rintro sent _ ⟨rfl, -⟩
  rw [wp_bind]
  refine wp_weaken (tcpFreeAckedSegments_frame faults _ _ _ _ _) ?_
  rintro queued _ ⟨rfl, -⟩
  exact ⟨started.trans ⟨rfl, rfl, rfl⟩, rfl⟩

include near

theorem tcpReceiveAck_announced
    (packet : Packet)
    (tcplen : Nat)
    (announced : Announced cap pcb world.sent) :
    wp (tcpReceiveAck packet tcplen pcb)
      (fun result later => Told cap pcb world.sent result.2 later.sent)
      allowed world := by
  have updated := updateSndWnd_window packet pcb
  have known := announced.congr updated
  have judged :
      wp
        (judgeAckno packet tcplen (BitVec.ofNat 32 pcb.sndWnd + pcb.sndWl2)
          (updateSndWnd packet pcb))
        (fun result later => Told cap pcb world.sent result.2 later.sent)
        allowed world := by
    unfold judgeAckno
    rw [wp_ite]
    refine ⟨fun _ => ?_, fun _ => ?_⟩
    · exact .of_same announced
        (updated.trans (countDupack_window _ _ _ _))
    rw [wp_ite]
    refine ⟨fun _ => ?_, fun _ => ?_⟩
    · refine wp_weaken (ackNewData_window others _ _) ?_
      rintro result _ ⟨same, rfl⟩
      exact .of_same announced (updated.trans same)
    · rw [wp_bind]
      refine wp_weaken (tcpSendEmptyAck_announced near known) ?_
      intro result later told
      rw [wp_pure]
      exact told.before_same updated
  unfold tcpReceiveAck
  rw [wp_ite]
  refine ⟨fun _ => ?_, fun _ => .refl announced⟩
  rw [wp_bind]
  refine wp_weaken judged ?_
  rintro ⟨acked, after⟩ middle told
  rw [wp_bind, wp_get, wp_pure]
  exact told.after_same (estimateRtt_window _ _ _)

omit near others

/-! ## `tcp_receive`: the data -/

/-- The right edge of the receive window has stayed, and what was sent
meanwhile announces no edge beyond it. -/
structure Held
    (cap : Nat → Nat)
    (before : TcpPcb)
    (sent : List Packet)
    (after : TcpPcb)
    (later : List Packet) : Prop where
  announced : Announced cap after later
  rightEdge : after.rightEdge = before.rightEdge
  adds : Adds (Within before.rightEdge) sent later

theorem Told.held
    {before after : TcpPcb}
    {sent later : List Packet}
    (told : Told cap before sent after later) :
    Held cap before sent after later :=
  ⟨told.announced, told.rightEdge, told.adds⟩

theorem Held.trans
    {before middle after : TcpPcb}
    {sent between later : List Packet}
    (first : Held cap before sent middle between)
    (second : Held cap middle between after later) :
    Held cap before sent after later where
  announced := second.announced
  rightEdge := second.rightEdge.trans first.rightEdge
  adds := first.adds.trans (first.rightEdge ▸ second.adds)

theorem Held.of_same
    {before after : TcpPcb}
    {sent : List Packet}
    (announced : Announced cap before sent)
    (same : SameWindow before after) :
    Held cap before sent after sent :=
  (Told.of_same announced same).held

theorem Held.after_same
    {before middle after : TcpPcb}
    {sent later : List Packet}
    (held : Held cap before sent middle later)
    (same : SameWindow middle after) :
    Held cap before sent after later :=
  held.trans (.of_same held.announced same)

theorem dropCovered_seqno
    (inseg : TcpSeg)
    (ooseq : List TcpSeg) :
    (dropCovered inseg ooseq).1.seqno = inseg.seqno := by
  induction ooseq generalizing inseg with
  | nil =>
      rfl
  | cons next rest inductionHypothesis =>
      unfold dropCovered
      split
      · exact inductionHypothesis _
      · rfl

include others

theorem trimToWnd_seqno
    (rcvNxt : SeqNo)
    (rcvWnd : Nat)
    (inseg : TcpSeg) :
    wp (trimToWnd rcvNxt rcvWnd inseg)
      (fun cut later => later = world ∧ cut.seqno = inseg.seqno)
      allowed world := by
  unfold trimToWnd
  simp only [wp_ite, wp_bind, wp_ensure, wp_pure]
  exact ⟨fun _ => ⟨fun _ => ⟨trivial, trivial⟩,
    fun _ => others _ (by decide)⟩, fun _ => ⟨trivial, trivial⟩⟩

theorem mergeOoseq_seqno
    (inseg : TcpSeg)
    (ooseq : List TcpSeg) :
    wp (mergeOoseq inseg ooseq)
      (fun merged later => later = world ∧ merged.1.seqno = inseg.seqno)
      allowed world := by
  have kept := dropCovered_seqno inseg ooseq
  unfold mergeOoseq
  rw [wp_ite]
  refine ⟨fun _ => ⟨rfl, rfl⟩, fun _ => ?_⟩
  split
  · rename_i covering empty
    rw [empty] at kept
    exact ⟨rfl, kept⟩
  · rename_i covering next rest left
    rw [left] at kept
    simp only [wp_ite, wp_bind, wp_ensure, wp_pure]
    exact ⟨fun _ => ⟨fun _ => ⟨trivial, kept⟩,
      fun _ => others _ (by decide)⟩, fun _ => ⟨trivial, kept⟩⟩

include near

/-- `rcv_nxt` moves past a segment that starts there. -/
theorem advanceRcv_announced
    (flat : ∀ wnd other, cap wnd = cap other)
    {fault : Fault}
    (other : fault ≠ .newRcvAnnWnd)
    {seg : TcpSeg}
    (starts : seg.seqno = pcb.rcvNxt)
    (announced : Announced cap pcb world.sent) :
    wp (advanceRcv fault seg pcb)
      (fun result later =>
        Held cap pcb world.sent result later.sent ∧ later = world)
      allowed world := by
  unfold advanceRcv
  rw [wp_bind, wp_ensure]
  refine ⟨fun inside => ?_, fun _ => others _ other⟩
  have fits : seg.tcplen ≤ pcb.rcvWnd := of_decide_eq_true inside
  have slid := announced.toSliding.advance flat starts fits
  rw [wp_bind]
  refine wp_weaken (tcpUpdateRcvAnnWnd_announced near slid) ?_
  rintro ⟨_, after⟩ _ ⟨shown, same, rfl⟩
  refine ⟨⟨shown, ?_, .refl _⟩, rfl⟩
  have moved :
      after.rightEdge =
        seg.endSeq + BitVec.ofNat 32 (pcb.rcvWnd - seg.tcplen) := by
    rw [show after = _ from same]
    rfl
  have top : pcb.rcvWnd ≤ 46720 := announced.wnd
  rw [moved]
  unfold TcpPcb.rightEdge TcpSeg.endSeq
  rw [starts]
  bv_omega

theorem drainOoseq_announced
    (flat : ∀ wnd other, cap wnd = cap other)
    (queue : List TcpSeg)
    (out : RecvOut)
    (announced : Announced cap pcb world.sent) :
    wp (drainOoseq queue out pcb)
      (fun result later => Held cap pcb world.sent result.2 later.sent)
      allowed world := by
  induction queue generalizing out pcb world with
  | nil =>
      unfold drainOoseq
      rw [wp_pure]
      exact .of_same announced ⟨rfl, rfl, rfl⟩
  | cons cseg rest inductionHypothesis =>
      unfold drainOoseq
      rw [wp_ite]
      refine ⟨fun starts => ?_, fun _ => ?_⟩
      case refine_2 =>
        rw [wp_pure]
        exact .of_same announced ⟨rfl, rfl, rfl⟩
      rw [wp_bind]
      refine wp_weaken
        (advanceRcv_announced near others flat (by decide) starts announced) ?_
      rintro moved _ ⟨held, rfl⟩
      have named := held.after_same
        (show SameWindow moved
            { moved with
              state :=
                if cseg.hdr.fin ∧ moved.state = .established then .closeWait
                else moved.state }
          from ⟨rfl, rfl, rfl⟩)
      exact wp_weaken (inductionHypothesis _ named.announced)
        fun _ _ more => named.trans more

theorem receiveInOrder_announced
    (flat : ∀ wnd other, cap wnd = cap other)
    {inseg : TcpSeg}
    (starts : inseg.seqno = pcb.rcvNxt)
    (announced : Announced cap pcb world.sent) :
    wp (receiveInOrder inseg pcb)
      (fun result later => Held cap pcb world.sent result.2 later.sent)
      allowed world := by
  unfold receiveInOrder
  rw [wp_bind]
  refine wp_weaken (trimToWnd_seqno others _ _ _) ?_
  rintro cut _ ⟨rfl, cutStarts⟩
  rw [wp_bind]
  refine wp_weaken (mergeOoseq_seqno others _ _) ?_
  rintro ⟨merged, ooseq⟩ _ ⟨rfl, mergedStarts⟩
  have queued : SameWindow pcb { pcb with ooseq := ooseq } := ⟨rfl, rfl, rfl⟩
  rw [wp_bind]
  refine wp_weaken
    (advanceRcv_announced near others flat (by decide)
      ((mergedStarts.trans cutStarts).trans starts)
      (announced.congr queued)) ?_
  rintro moved _ ⟨held, rfl⟩
  rw [wp_bind]
  refine wp_weaken
    (drainOoseq_announced near others flat _ _ held.announced) ?_
  rintro ⟨out, drained⟩ later more
  have all := (Held.of_same announced queued).trans (held.trans more)
  rw [wp_pure]
  refine all.after_same ?_
  unfold tcpAck
  split <;> exact ⟨rfl, rfl, rfl⟩

theorem receiveOutOfOrder_announced
    (inseg : TcpSeg)
    (announced : Announced cap pcb world.sent) :
    wp (receiveOutOfOrder inseg pcb)
      (fun result later => Told cap pcb world.sent result later.sent)
      allowed world := by
  unfold receiveOutOfOrder
  rw [wp_bind]
  refine wp_weaken (wp_silent others (oosInsert_silent _ _ _)) ?_
  intro ooseq middle same
  have queued : SameWindow pcb { pcb with ooseq := ooseq } := ⟨rfl, rfl, rfl⟩
  rw [wp_bind]
  refine wp_weaken
    (tcpSendEmptyAck_announced near (same ▸ announced.congr queued)) ?_
  rintro ⟨_, after⟩ later told
  rw [same] at told
  exact told.before_same queued

theorem tcpReceiveData_announced
    (flat : ∀ wnd other, cap wnd = cap other)
    (inseg : TcpSeg)
    (announced : Announced cap pcb world.sent) :
    wp (tcpReceiveData inseg pcb)
      (fun result later => Held cap pcb world.sent result.2 later.sent)
      allowed world := by
  have due : SameWindow pcb { pcb with flags.ackNow := true } :=
    ⟨rfl, rfl, rfl⟩
  unfold tcpReceiveData
  rw [wp_ite]
  refine ⟨fun _ => ?_, fun _ => ?_⟩
  · simp only
    generalize equal :
      (if !frontTrims inseg.seqno inseg.tcplen pcb.rcvNxt &&
          SerialNumber.lt inseg.seqno pcb.rcvNxt then
        { pcb with flags.ackNow := true }
      else
        pcb) = noted
    have same : SameWindow pcb noted := by
      rw [← equal]
      split
      · exact due
      · exact .refl pcb
    have known := announced.congr same
    rw [wp_bind]
    refine wp_weaken
      (trimStart_frame _ _ _ fun _ =>
        .inr ⟨others _ (by decide), others _ (by decide)⟩) ?_
    rintro trimmed _ rfl
    rw [wp_ite]
    refine ⟨fun _ => ?_, fun _ => ?_⟩
    · rw [wp_ite]
      refine ⟨fun starts => ?_, fun _ => ?_⟩
      · exact wp_weaken
          (receiveInOrder_announced near others flat starts.symm known)
          fun _ _ held => (Held.of_same announced same).trans held
      · rw [wp_bind]
        refine wp_weaken
          (receiveOutOfOrder_announced near others trimmed known) ?_
        intro after later told
        rw [wp_pure]
        exact (told.before_same same).held
    · rw [wp_bind]
      refine wp_weaken (tcpSendEmptyAck_announced near known) ?_
      rintro ⟨_, after⟩ later told
      rw [wp_pure]
      exact (told.before_same same).held
  · rw [wp_ite]
    refine ⟨fun _ => .of_same announced due, fun _ => ?_⟩
    exact .of_same announced (.refl pcb)

/-! ## Removal -/

omit near others in
/-- The pcb is gone, and what was sent meanwhile announced a part of its
receive window. -/
structure Gone
    (before : TcpPcb)
    (sent later : List Packet) : Prop where
  ordered : EdgesOrdered later
  adds : Adds (Within before.rightEdge) sent later

omit near others in
theorem Held.gone
    {before after : TcpPcb}
    {sent later : List Packet}
    (held : Held cap before sent after later) :
    Gone before sent later :=
  ⟨held.announced.ordered, held.adds⟩

omit near others in
theorem Held.thenGone
    {before middle : TcpPcb}
    {sent between later : List Packet}
    (held : Held cap before sent middle between)
    (gone : Gone middle between later) :
    Gone before sent later where
  ordered := gone.ordered
  adds := held.adds.trans (held.rightEdge ▸ gone.adds)

theorem tcpPcbRemove_announced
    (inInput : Bool)
    (announced : Announced cap pcb world.sent) :
    wp (tcpPcbRemove inInput pcb)
      (fun result later => Told cap pcb world.sent result later.sent)
      allowed world := by
  have purged := tcpPcbPurge_window pcb
  have known := announced.congr purged
  unfold tcpPcbRemove
  rw [wp_bind]
  have flushed :
      wp (flushDelayedAck inInput (tcpPcbPurge pcb))
        (fun result later => Told cap pcb world.sent result later.sent)
        allowed world := by
    unfold flushDelayedAck
    rw [wp_ite]
    refine ⟨fun _ => ?_, fun _ => .of_same announced purged⟩
    have due :
        SameWindow pcb { tcpPcbPurge pcb with flags.ackNow := true } :=
      purged.trans ⟨rfl, rfl, rfl⟩
    rw [wp_bind]
    refine wp_weaken
      (tcpOutput_announced near others inInput (announced.congr due)) ?_
    rintro ⟨_, after⟩ later told
    rw [wp_pure]
    exact told.before_same due
  refine wp_weaken flushed fun after later told => ?_
  rw [wp_bind, wp_ensure]
  exact ⟨fun _ => told.after_same ⟨rfl, rfl, rfl⟩, fun _ => others _ (by decide)⟩

theorem tcpAbandon_announced
    (inInput reset : Bool)
    (announced : Announced cap pcb world.sent) :
    wp (tcpAbandon inInput pcb reset)
      (fun _ later => Gone pcb world.sent later.sent) allowed world := by
  unfold tcpAbandon
  rw [wp_ite]
  refine ⟨fun _ => ?_, fun _ => ?_⟩
  · rw [wp_bind]
    exact wp_weaken (tcpPcbRemove_announced near others inInput announced)
      fun _ _ told => told.held.gone
  · rw [wp_bind]
    refine wp_weaken (tcpPcbRemove_announced near others inInput announced) ?_
    intro removed middle told
    have answered :
        wp (resetPeer reset pcb removed)
          (fun _ later => Told cap pcb world.sent removed later.sent)
          allowed middle := by
      unfold resetPeer
      rw [wp_ite]
      refine ⟨fun _ => ?_, fun _ => told⟩
      exact wp_weaken (tcpRst_announced _ _ _ _ _ _ told.announced)
        fun _ _ more => told.trans more
    rw [wp_bind]
    refine wp_weaken answered fun _ between more => ?_
    refine wp_weaken (wp_silent others (tcpEventErr_silent _ _)) ?_
    intro _ later same
    rw [same]
    exact more.held.gone

/-! ## `tcp_process` -/

omit near others in
/-- The window has been held until the pcb, unless it is gone, is handed on. -/
def HeldOrGone
    (cap : Nat → Nat)
    (before : TcpPcb)
    (sent : List Packet)
    (result : Option (InResult × TcpPcb))
    (later : List Packet) : Prop :=
  match result with
  | some (_, after) => Held cap before sent after later
  | none => Gone before sent later

theorem tcpReceive_announced
    (flat : ∀ wnd other, cap wnd = cap other)
    (packet : Packet)
    (inseg : TcpSeg)
    (announced : Announced cap pcb world.sent) :
    wp (tcpReceive packet inseg pcb)
      (fun result later => Held cap pcb world.sent result.2 later.sent)
      allowed world := by
  unfold tcpReceive
  rw [wp_bind, wp_ensure]
  refine ⟨fun _ => ?_, fun _ => others _ (by decide)⟩
  rw [wp_bind]
  refine wp_weaken (tcpReceiveAck_announced near others packet _ announced) ?_
  rintro ⟨acked, judged⟩ middle told
  rw [wp_bind]
  refine wp_weaken
    (tcpReceiveData_announced near others flat inseg told.announced) ?_
  rintro ⟨recv, after⟩ later held
  exact told.held.trans held

omit near in
theorem tcpEventAccept_window
    (pcb : TcpPcb) :
    wp (tcpEventAccept pcb)
      (fun result later =>
        SameWindow pcb result.2 ∧ later.sent = world.sent)
      allowed world := by
  unfold tcpEventAccept tcpAcceptCb
  split
  · exact ⟨.refl pcb, rfl⟩
  · split
    · exact ⟨.refl pcb, rfl⟩
    · exact others _ (by decide)
    · rw [wp_bind, wp_get, wp_ite]
      refine ⟨fun _ => ?_, fun _ => others _ (by decide)⟩
      exact ⟨⟨rfl, rfl, rfl⟩, rfl⟩

theorem processHandshakeAck_announced
    (flat : ∀ wnd other, cap wnd = cap other)
    (packet : Packet)
    (inseg : TcpSeg)
    (announced : Announced cap pcb world.sent) :
    wp (processHandshakeAck packet inseg pcb)
      (fun result later => HeldOrGone cap pcb world.sent result later.sent)
      allowed world := by
  unfold processHandshakeAck
  rw [wp_bind]
  refine wp_weaken (tcpEventAccept_window others _) ?_
  rintro ⟨err, accepted⟩ middle ⟨taken, sent⟩
  have same : SameWindow pcb accepted :=
    ⟨taken.rcvNxt, taken.rcvWnd, taken.ann⟩
  have known : Announced cap accepted middle.sent :=
    sent ▸ announced.congr same
  have started : Held cap pcb world.sent accepted middle.sent := by
    rw [sent]
    exact .of_same announced same
  rw [wp_ite]
  refine ⟨fun _ => ?_, fun _ => ?_⟩
  · rw [wp_bind]
    exact wp_weaken (tcpAbandon_announced near others true true known)
      fun _ _ gone => started.thenGone gone
  · rw [wp_bind]
    refine wp_weaken
      (tcpReceive_announced near others flat packet inseg known) ?_
    rintro ⟨result, after⟩ later held
    have all := started.trans held
    rw [wp_ite]
    exact ⟨fun _ => all.after_same ⟨rfl, rfl, rfl⟩,
      fun _ => all.after_same ⟨rfl, rfl, rfl⟩⟩

theorem processSynRcvd_announced
    (flat : ∀ wnd other, cap wnd = cap other)
    (packet : Packet)
    (inseg : TcpSeg)
    (announced : Announced cap pcb world.sent) :
    wp (processSynRcvd packet inseg pcb)
      (fun result later => HeldOrGone cap pcb world.sent result later.sent)
      allowed world := by
  have idle : Held cap pcb world.sent pcb world.sent :=
    .of_same announced (.refl pcb)
  unfold processSynRcvd
  rw [wp_ite]
  refine ⟨fun _ => ?_, fun _ => ?_⟩
  · rw [wp_ite]
    refine ⟨fun _ => ?_, fun _ => ?_⟩
    · exact processHandshakeAck_announced near others flat packet inseg
        announced
    · rw [wp_bind]
      exact wp_weaken (tcpRst_announced _ _ _ _ _ _ announced)
        fun _ _ told => told.held
  · rw [wp_ite]
    refine ⟨fun _ => ?_, fun _ => idle⟩
    exact idle.after_same (tcpRexmit_window pcb)

theorem processSynchronized_announced
    (flat : ∀ wnd other, cap wnd = cap other)
    (packet : Packet)
    (inseg : TcpSeg)
    (announced : Announced cap pcb world.sent) :
    wp (processSynchronized packet inseg pcb)
      (fun result later => Held cap pcb world.sent result.2 later.sent)
      allowed world := by
  unfold processSynchronized
  simp only
  rw [wp_bind]
  refine wp_weaken
    (tcpReceive_announced near others flat packet inseg announced) ?_
  rintro ⟨result, after⟩ later held
  have waits (now : Bool) :
      SameWindow after
        (enterTimeWait { after with flags.ackNow := now }) := by
    have purged := tcpPcbPurge_window { after with flags.ackNow := now }
    exact ⟨purged.rcvNxt, purged.rcvWnd, purged.ann⟩
  cases pcb.state with
  | established | closeWait =>
      rw [wp_ite]
      exact ⟨fun _ => held.after_same ⟨rfl, rfl, rfl⟩, fun _ => held⟩
  | finWait1 =>
      simp only [wp_ite]
      exact ⟨fun _ => ⟨fun _ => held.after_same (waits true),
          fun _ => held.after_same ⟨rfl, rfl, rfl⟩⟩,
        fun _ => ⟨fun _ => held.after_same ⟨rfl, rfl, rfl⟩, fun _ => held⟩⟩
  | finWait2 =>
      rw [wp_ite]
      exact ⟨fun _ => held.after_same (waits true), fun _ => held⟩
  | closing =>
      rw [wp_ite]
      exact ⟨fun _ => held.after_same (waits after.flags.ackNow),
        fun _ => held⟩
  | lastAck =>
      rw [wp_ite]
      exact ⟨fun _ => held, fun _ => held⟩
  | closed | synRcvd | timeWait =>
      exact held

/-- `tcp_process` keeps the right edge of the window, and announces none
beyond it. -/
theorem tcpProcess_announced
    (flat : ∀ wnd other, cap wnd = cap other)
    (packet : Packet)
    (inseg : TcpSeg)
    (announced : Announced cap pcb world.sent) :
    wp (tcpProcess packet inseg pcb)
      (fun result later => HeldOrGone cap pcb world.sent result later.sent)
      allowed world := by
  unfold tcpProcess
  rw [wp_ite]
  refine ⟨fun _ => ?_, fun _ => ?_⟩
  · exact Held.of_same announced (processRst_window packet pcb)
  rw [wp_ite]
  refine ⟨fun _ => Held.of_same announced ⟨rfl, rfl, rfl⟩, fun _ => ?_⟩
  have noted := noteActivity_window packet world.tcpTicks pcb
  have known := announced.congr noted
  have started : Held cap pcb world.sent _ world.sent :=
    .of_same announced noted
  have synchronized :
      wp
        (do
          let processed ←
            processSynchronized packet inseg
              (noteActivity packet world.tcpTicks pcb)
          pure (some processed))
        (fun result later => HeldOrGone cap pcb world.sent result later.sent)
        allowed world := by
    rw [wp_bind]
    exact wp_weaken
      (processSynchronized_announced near others flat packet inseg known)
      fun _ _ held => started.trans held
  rw [wp_bind, wp_get]
  simp only
  split
  · refine wp_weaken
      (processSynRcvd_announced near others flat packet inseg known) ?_
    rintro (_ | ⟨result, after⟩) later ended
    · exact started.thenGone ended
    · exact started.trans ended
  · exact started
  · exact started
  · exact synchronized

end Calls

end NetstackLwip

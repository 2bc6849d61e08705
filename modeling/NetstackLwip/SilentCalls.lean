import NetstackLwip.CallbackFrame

namespace NetstackLwip

/-!
# What emits no packet

Queueing, splitting, the out-of-order queue and the callbacks leave the
emitted packets as they are.
-/

open FaultState

/-- The computation emits no packet, and asserts nothing about the announced
window. -/
abbrev Silent {α : Type} (sent : List Packet) (computation : Lwip α) : Prop :=
  Preserves (fun world : World => world.sent = sent)
    (fun fault => fault ≠ .newRcvAnnWnd) computation

variable {sent : List Packet}

theorem allocate_silent : Silent sent allocate :=
  fun _ same => wp_allocate fun _ _ => same

/-! ## Queueing -/

theorem tcpPbufPrealloc_silent
    (length maxLength : Nat)
    (pcb : TcpPcb)
    (more firstSeg : Bool) :
    Silent sent (tcpPbufPrealloc length maxLength pcb more firstSeg) :=
  .bind allocate_silent fun _ => .ite (.pure _) (.pure _)

theorem tcpCreateSegment_silent
    (p : Pbuf)
    (hdr : HdrFlags)
    (seqno : SeqNo)
    (optsMss : Bool) :
    Silent sent (tcpCreateSegment p hdr seqno optsMss) :=
  .bind allocate_silent fun _ => .ite (.pure _) (.pure _)

theorem tcpWriteChecks_silent
    (pcb : TcpPcb)
    (len : Nat) :
    Silent sent (tcpWriteChecks pcb len) := by
  unfold tcpWriteChecks
  refine .ite (.pure _) (.ite (.pure _) (.ite (.pure _) (.ite (.pure _) ?_)))
  exact .ite (.bind (.ensure (by decide)) fun _ => .pure _)
    (.bind (.ensure (by decide)) fun _ => .pure _)

theorem tcpWriteTail_silent
    (pcb : TcpPcb)
    (arg : Bytes)
    (more : Bool) :
    Silent sent (tcpWriteTail pcb arg more) := by
  unfold tcpWriteTail
  split
  · exact .bind (.ensure (by decide)) fun _ => .pure _
  · refine .bind (.ensure (by decide)) fun _ => .bind (.ensure (by decide)) fun _ =>
      .bind (.ensure (by decide)) fun _ => .bind (.ensure (by decide)) fun _ =>
        .ite (.bind (tcpPbufPrealloc_silent _ _ _ _ _) fun room => ?_)
          (.pure _)
    cases room with
    | none => exact .pure _
    | some _ => exact .pure _

theorem tcpWriteSegs_silent
    (pcb : TcpPcb)
    (arg : Bytes)
    (more : Bool)
    (rounds : Nat)
    (built : WriteQueue) :
    Silent sent (tcpWriteSegs pcb arg more rounds built) := by
  induction rounds generalizing built with
  | zero =>
      exact .ite (.pure _) (.pure _)
  | succ rounds inductionHypothesis =>
      unfold tcpWriteSegs
      refine .ite (.bind (tcpPbufPrealloc_silent _ _ _ _ _) fun room => ?_)
        (.pure _)
      cases room with
      | none => exact .pure _
      | some room =>
          refine .ite (.pure _)
            (.bind (tcpCreateSegment_silent _ _ _ _) fun seg => ?_)
          cases seg with
          | none => exact .pure _
          | some seg => exact inductionHypothesis _

theorem tcpWriteMemerr_silent
    (pcb : TcpPcb) :
    Silent sent (tcpWriteMemerr pcb) := by
  unfold tcpWriteMemerr
  exact .ite (.bind (.ensure (by decide)) fun _ => .pure _) (.pure _)

theorem tcpWriteCommit_silent
    (pcb : TcpPcb)
    (arg : Bytes)
    (tail : WriteTail)
    (built : WriteQueue) :
    Silent sent (tcpWriteCommit pcb arg tail built) := by
  unfold tcpWriteCommit
  split
  · exact .bind (.ensure (by decide)) fun _ =>
      .ite (.bind (.ensure (by decide)) fun _ => .pure _) (.pure _)
  · exact .bind (.ensure (by decide)) fun _ =>
      .ite (.bind (.ensure (by decide)) fun _ => .pure _) (.pure _)

theorem tcpWrite_silent
    (pcb : TcpPcb)
    (arg : Bytes)
    (more : Bool) :
    Silent sent (tcpWrite pcb arg more) := by
  unfold tcpWrite
  refine .bind (tcpWriteChecks_silent _ _) fun checked => .ite (.pure _) ?_
  refine .bind (tcpWriteTail_silent _ _ _) fun tail => ?_
  cases tail with
  | none => exact tcpWriteMemerr_silent _
  | some tail =>
      refine .bind (tcpWriteSegs_silent _ _ _ _ _) fun built => ?_
      cases built with
      | none => exact tcpWriteMemerr_silent _
      | some built => exact tcpWriteCommit_silent _ _ _ _

theorem tcpSplitUnsentSeg_silent
    (pcb : TcpPcb)
    (split : Nat) :
    Silent sent (tcpSplitUnsentSeg pcb split) := by
  unfold tcpSplitUnsentSeg
  cases pcb.unsent with
  | nil => exact .pure _
  | cons useg rest =>
      refine .ite (.throw (by decide)) (.ite (.pure _) ?_)
      refine .bind (.ensure (by decide)) fun _ => .bind (.ensure (by decide)) fun _ =>
        .bind allocate_silent fun _ =>
          .ite (.bind (tcpCreateSegment_silent _ _ _ _) fun seg => ?_)
            (.pure _)
      cases seg with
      | none => exact .pure _
      | some _ => exact .bind (.ensure (by decide)) fun _ => .pure _

theorem tcpEnqueueFlags_silent
    (pcb : TcpPcb)
    (hdr : HdrFlags) :
    Silent sent (tcpEnqueueFlags pcb hdr) := by
  unfold tcpEnqueueFlags
  refine .bind allocate_silent fun _ =>
    .ite (.bind (tcpCreateSegment_silent _ _ _ _) fun seg => ?_) (.pure _)
  cases seg with
  | none => exact .pure _
  | some seg => exact .bind (.ensure (by decide)) fun _ => .pure _

theorem tcpSendFin_silent
    (pcb : TcpPcb) :
    Silent sent (tcpSendFin pcb) := by
  unfold tcpSendFin
  split
  · exact .ite (tcpEnqueueFlags_silent _ _) (.pure _)
  · exact tcpEnqueueFlags_silent _ _

/-! ## The out-of-order queue -/

theorem oosAppend_silent
    (rightEdge : SeqNo)
    (inseg next : TcpSeg) :
    Silent sent (oosAppend rightEdge inseg next) := by
  unfold oosAppend
  exact .ite (.pure _) (.bind allocate_silent fun _ =>
    .ite (.ite (.bind (.ensure (by decide)) fun _ => .pure _) (.pure _)) (.pure _))

theorem oosInsertBefore_silent
    (inseg : TcpSeg)
    (next : List TcpSeg) :
    Silent sent (oosInsertBefore inseg next) :=
  .bind allocate_silent fun _ => .ite (.pure _) (.pure _)

theorem oosPlace_silent
    (rightEdge : SeqNo)
    (inseg : TcpSeg)
    (prev : Option TcpSeg)
    (queue : List TcpSeg) :
    Silent sent (oosPlace rightEdge inseg prev queue) := by
  induction queue generalizing prev with
  | nil =>
      unfold oosPlace
      exact .pure _
  | cons next rest inductionHypothesis =>
      unfold oosPlace
      refine .ite (.ite
        (.bind (oosInsertBefore_silent _ _) fun _ => .pure _) (.pure _)) ?_
      cases prev with
      | none =>
          exact .ite (oosInsertBefore_silent _ _)
            (.ite (oosAppend_silent _ _ _) (inductionHypothesis _))
      | some prev =>
          exact .ite
            (.bind allocate_silent fun _ => .ite (.pure _) (.pure _))
            (.ite (.bind (oosAppend_silent _ _ _) fun _ => .pure _)
              (.bind (inductionHypothesis _) fun _ => .pure _))

theorem oosInsert_silent
    (rightEdge : SeqNo)
    (inseg : TcpSeg)
    (queue : List TcpSeg) :
    Silent sent (oosInsert rightEdge inseg queue) := by
  unfold oosInsert
  split
  · exact .bind allocate_silent fun _ => .ite (.pure _) (.pure _)
  · exact oosPlace_silent _ _ _ _

/-! ## Callbacks -/

theorem withContext_silent
    (arg : CallbackArg)
    (change : TcpStream → TcpStream) :
    Silent sent (withContext arg change) := by
  refine .get fun world same => ?_
  split
  · exact .set same
  · exact .throw (by decide)

theorem wakeWriter_silent
    (arg : CallbackArg) :
    Silent sent (wakeWriter arg) :=
  .bind (withContext_silent _ _) fun _ => .modify fun _ same => same

theorem tcpRecvCb_silent
    (arg : CallbackArg)
    (p : Option Pbuf) :
    Silent sent (tcpRecvCb arg p) := by
  unfold tcpRecvCb
  refine .ite (.pure _) ?_
  cases p with
  | none => exact .bind (withContext_silent _ _) fun _ => .pure _
  | some p => exact .bind (withContext_silent _ _) fun _ => .pure _

theorem tcpEventErr_silent
    (errf : Bool)
    (arg : CallbackArg) :
    Silent sent (tcpEventErr errf arg) := by
  unfold tcpEventErr
  exact .ite
    (.bind (withContext_silent _ _) fun _ => wakeWriter_silent _) (.pure _)

theorem tcpEventSent_silent
    (pcb : TcpPcb) :
    Silent sent (tcpEventSent pcb) := by
  unfold tcpEventSent
  exact .ite (.bind (wakeWriter_silent _) fun _ => .pure _) (.pure _)

theorem tcpEventPoll_silent
    (pcb : TcpPcb) :
    Silent sent (tcpEventPoll pcb) := by
  unfold tcpEventPoll
  exact .ite (.bind (wakeWriter_silent _) fun _ => .pure _) (.pure _)

theorem tcpEventClosed_silent
    (pcb : TcpPcb) :
    Silent sent (tcpEventClosed pcb) := by
  unfold tcpEventClosed
  split
  · exact tcpRecvCb_silent _ _
  · exact .pure _
  · exact .throw (by decide)

end NetstackLwip

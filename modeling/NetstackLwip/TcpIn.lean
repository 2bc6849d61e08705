import NetstackLwip.Tcp

namespace NetstackLwip

/-!
# `tcp_in.c`

What a segment does to the pcb it belongs to. The static variables of the
source (`seqno`, `tcplen`, `inseg`, `recv_acked`, `recv_data`, `recv_flags`)
are arguments and results here; `seqno` is always that of `inseg`.
-/

open FaultState

/-- A value stored in an `s16_t`. -/
def toS16 (value : Int) : Int :=
  value.bmod 65536

/-- `TCP_WND_INC`: add, or stay at the largest 16-bit value. -/
def wndInc (wnd inc : Nat) : Nat :=
  if wnd ≤ (wnd + inc) % 65536 then (wnd + inc) % 65536 else 0xffff

/-! ## Options -/

/--
The loop of `tcp_parseopt` from option byte `optidx` on. Every round passes at
least one byte, so the number of option bytes bounds the rounds.
-/
def tcpParseoptFrom (options : Bytes) : Nat → Nat → Nat → Nat
  | 0, _, mss => mss
  | rounds + 1, optidx, mss =>
      if optidx < options.length then
        let byte := fun index => (options.getD index 0).toNat
        if byte optidx = 0 then
          mss
        else if byte optidx = 1 then
          tcpParseoptFrom options rounds (optidx + 1) mss
        else if byte optidx = 2 then
          if byte (optidx + 1) ≠ 4 ∨ options.length < optidx + 4 then
            mss
          else
            let offered := byte (optidx + 2) * 256 + byte (optidx + 3)
            tcpParseoptFrom options rounds (optidx + 4)
              (if tcpMss < offered ∨ offered = 0 then tcpMss else offered)
        else if byte (optidx + 1) < 2 then
          mss
        else
          tcpParseoptFrom options rounds (optidx + byte (optidx + 1)) mss
      else
        mss

/-- `tcp_parseopt`: an MSS option is obeyed on any segment. -/
def tcpParseopt (options : Bytes) (pcb : TcpPcb) : TcpPcb :=
  { pcb with mss := tcpParseoptFrom options options.length 0 pcb.mss }

/-! ## `tcp_receive`: the acknowledgement -/

/-- The send-window update of `tcp_receive`. -/
def updateSndWnd (packet : Packet) (pcb : TcpPcb) : TcpPcb :=
  if SerialNumber.lt pcb.sndWl1 packet.seqno ||
      (pcb.sndWl1 == packet.seqno &&
        SerialNumber.lt pcb.sndWl2 packet.ackno) ||
      (pcb.sndWl2 == packet.ackno &&
        decide (pcb.sndWnd < packet.wnd.toNat)) then
    { pcb with
      sndWnd := packet.wnd.toNat
      sndWndMax := max pcb.sndWndMax packet.wnd.toNat
      sndWl1 := packet.seqno
      sndWl2 := packet.ackno }
  else
    pcb

/-- One more duplicate ACK; from the fourth on each inflates the window. -/
def noteDupack (pcb : TcpPcb) : TcpPcb :=
  let dupacks := if pcb.dupacks < 255 then pcb.dupacks + 1 else pcb.dupacks
  { pcb with
    dupacks
    cwnd := if 3 < dupacks then wndInc pcb.cwnd pcb.mss else pcb.cwnd }

/-- An ACK that acknowledges nothing new: count duplicates, and retransmit at
the third. `rightWndEdge` is the edge before the window update. -/
def countDupack
    (packet : Packet)
    (tcplen : Nat)
    (rightWndEdge : SeqNo)
    (pcb : TcpPcb) :
    TcpPcb :=
  if tcplen = 0 ∧
      pcb.sndWl2 + BitVec.ofNat 32 pcb.sndWnd = rightWndEdge ∧
      0 ≤ pcb.rtime ∧
      pcb.lastack = packet.ackno then
    if 3 ≤ (noteDupack pcb).dupacks then
      tcpRexmitFast (noteDupack pcb)
    else
      noteDupack pcb
  else
    { pcb with dupacks := 0 }

/-- What is left of a queue when the acknowledged segments are freed. -/
structure FreedSegments where
  segs : List TcpSeg
  sndQueuelen : Nat
  recvAcked : Nat
  deriving DecidableEq, Repr

/-- `tcp_free_acked_segments`. -/
def tcpFreeAckedSegments (ackno : SeqNo) (otherSegs : List TcpSeg) :
    List TcpSeg → Nat → Nat → Lwip FreedSegments
  | [], sndQueuelen, recvAcked => pure ⟨[], sndQueuelen, recvAcked⟩
  | seg :: rest, sndQueuelen, recvAcked =>
      if SerialNumber.leq seg.endSeq ackno then do
        ensure (seg.p.clen ≤ sndQueuelen) .queuelenClen
        ensure
          (sndQueuelen - seg.p.clen == 0 || !rest.isEmpty ||
            !otherSegs.isEmpty)
          .receiveQueueLength
        tcpFreeAckedSegments ackno otherSegs rest (sndQueuelen - seg.p.clen)
          ((recvAcked + seg.len) % 65536)
      else
        pure ⟨seg :: rest, sndQueuelen, recvAcked⟩

/-- Congestion control when `acked` new bytes are acknowledged. -/
def growCwnd (acked : Nat) (pcb : TcpPcb) : TcpPcb :=
  if pcb.cwnd < pcb.ssthresh then
    let numSeg := if pcb.flags.rto then 1 else 2
    { pcb with cwnd := wndInc pcb.cwnd (min acked (numSeg * pcb.mss)) }
  else
    let bytesAcked := wndInc pcb.bytesAcked acked
    if pcb.cwnd ≤ bytesAcked then
      { pcb with
        bytesAcked := bytesAcked - pcb.cwnd
        cwnd := wndInc pcb.cwnd pcb.mss }
    else
      { pcb with bytesAcked }

/-- The state kept per ACK of new data, before the queues are cleaned. -/
def startNewAck (ackno : SeqNo) (pcb : TcpPcb) : TcpPcb :=
  let acked := (ackno - pcb.lastack).toNat % 65536
  let pcb :=
    if pcb.flags.infr then
      { pcb with flags.infr := false, cwnd := pcb.ssthresh, bytesAcked := 0 }
    else
      pcb
  growCwnd acked {
    pcb with
    nrtx := 0
    rto := toS16 (pcb.sa / 8 + pcb.sv)
    dupacks := 0
    lastack := ackno }

/-- Whether an ACK ends the retransmission that a time-out began. -/
def rtoOver (pcb : TcpPcb) : Bool :=
  match pcb.unacked, pcb.unsent with
  | [], [] => true
  | [], seg :: _ => SerialNumber.leq pcb.rtoEnd seg.seqno
  | seg :: _, _ => SerialNumber.leq pcb.rtoEnd seg.seqno

/-- The pcb once both queues are cleaned: `queued` counts the bytes of both. -/
def cleanQueues (sent queued : FreedSegments) (pcb : TcpPcb) : TcpPcb :=
  { pcb with
    unacked := sent.segs
    unsent := queued.segs
    sndQueuelen := queued.sndQueuelen
    rtime := if sent.segs.isEmpty then -1 else 0
    polltmr := 0
    unsentOversize := if queued.segs.isEmpty then 0 else pcb.unsentOversize
    sndBuf := (pcb.sndBuf + queued.recvAcked) % 65536 }

/-- The end of a retransmission is noted. -/
def endRto (pcb : TcpPcb) : TcpPcb :=
  { pcb with flags.rto := pcb.flags.rto && !rtoOver pcb }

/-- An ACK of new data: clean both queues and restart the timer. -/
def ackNewData (ackno : SeqNo) (pcb : TcpPcb) : Lwip (Nat × TcpPcb) := do
  let pcb := startNewAck ackno pcb
  let sent ←
    tcpFreeAckedSegments ackno pcb.unsent pcb.unacked pcb.sndQueuelen 0
  -- Retransmission puts segments that were sent back on `unsent`.
  let queued ←
    tcpFreeAckedSegments ackno sent.segs pcb.unsent sent.sndQueuelen
      sent.recvAcked
  pure (queued.recvAcked, endRto (cleanQueues sent queued pcb))

/-- The round-trip estimate of `tcp_receive`. -/
def estimateRtt (ackno : SeqNo) (tcpTicks : BitVec 32) (pcb : TcpPcb) :
    TcpPcb :=
  if pcb.rttest ≠ 0 ∧ SerialNumber.lt pcb.rtseq ackno = true then
    let m := toS16 (tcpTicks - pcb.rttest).toInt
    let m := toS16 (m - pcb.sa / 8)
    let sa := toS16 (pcb.sa + m)
    let m := if m < 0 then toS16 (-m) else m
    let m := toS16 (m - pcb.sv / 4)
    let sv := toS16 (pcb.sv + m)
    { pcb with sa, sv, rto := toS16 (sa / 8 + sv), rttest := 0 }
  else
    pcb

/-- The acknowledgement number is old, new, or out of range; the result is
`recv_acked`. -/
def judgeAckno
    (packet : Packet)
    (tcplen : Nat)
    (rightWndEdge : SeqNo)
    (pcb : TcpPcb) :
    Lwip (Nat × TcpPcb) := do
  if SerialNumber.leq packet.ackno pcb.lastack then
    pure (0, countDupack packet tcplen rightWndEdge pcb)
  else if SerialNumber.between packet.ackno (pcb.lastack + 1) pcb.sndNxt then
    ackNewData packet.ackno pcb
  else do
    let (_, pcb) ← tcpSendEmptyAck pcb
    pure (0, pcb)

/-- The part of `tcp_receive` that looks at the acknowledgement, if there is
one. -/
def tcpReceiveAck
    (packet : Packet)
    (tcplen : Nat)
    (pcb : TcpPcb) :
    Lwip (Nat × TcpPcb) := do
  if packet.flags.ack then do
    let (recvAcked, pcb) ←
      judgeAckno packet tcplen (BitVec.ofNat 32 pcb.sndWnd + pcb.sndWl2)
        (updateSndWnd packet pcb)
    let world ← get
    pure (recvAcked, estimateRtt packet.ackno world.tcpTicks pcb)
  else
    pure (0, pcb)

/-! ## `tcp_receive`: the data -/

/-- The test that sends a segment to the front-trimming branch. -/
def frontTrims (seqno : SeqNo) (tcplen : Nat) (rcvNxt : SeqNo) : Bool :=
  SerialNumber.between rcvNxt (seqno + 1) (seqno + BitVec.ofNat 32 tcplen - 1)

/-- The receive-window test. -/
def inWindow (seqno rcvNxt : SeqNo) (rcvWnd : Nat) : Bool :=
  SerialNumber.between seqno rcvNxt (rcvNxt + BitVec.ofNat 32 rcvWnd - 1)

/-- The front-trimming branch. -/
def trimFront (rcvNxt : SeqNo) (inseg : TcpSeg) : Lwip TcpSeg := do
  let off := (rcvNxt - inseg.seqno).toNat
  ensure (off < 0xffff) .insaneOffset
  ensure (off ≤ inseg.p.totLen) .pbufTooShort
  pure {
    inseg with
    len := inseg.len - off
    p := inseg.p.removeFront off
    seqno := rcvNxt }

/-- The segment as the window test finds it. -/
def trimStart (trims : Bool) (rcvNxt : SeqNo) (inseg : TcpSeg) :
    Lwip TcpSeg :=
  if trims then trimFront rcvNxt inseg else pure inseg

/-- `len` after a segment is cut to `size` sequence numbers that a SYN takes
part of; it is a `u16_t`. -/
def cutLen (inseg : TcpSeg) (size : Nat) : Nat :=
  if inseg.hdr.syn then (size + 65535) % 65536 else size

/-- Trim an in-order segment that overruns the receive window. -/
def trimToWnd (rcvNxt : SeqNo) (rcvWnd : Nat) (inseg : TcpSeg) :
    Lwip TcpSeg := do
  if rcvWnd < inseg.tcplen then do
    let cut := {
      inseg with
      hdr.fin := false
      len := cutLen inseg rcvWnd
      p := inseg.p.realloc (cutLen inseg rcvWnd) }
    ensure (cut.endSeq == rcvNxt + BitVec.ofNat 32 rcvWnd) .notTrimmedToRcvWnd
    pure cut
  else
    pure inseg

/-- Drop the queued segments that an in-order segment covers; it inherits
their FIN. -/
def dropCovered (inseg : TcpSeg) : List TcpSeg → TcpSeg × List TcpSeg
  | [] => (inseg, [])
  | next :: rest =>
      if SerialNumber.geq inseg.endSeq
          (next.seqno + BitVec.ofNat 32 next.len) then
        dropCovered
          { inseg with
            hdr.fin := inseg.hdr.fin || (next.hdr.fin && !inseg.hdr.syn) }
          rest
      else
        (inseg, next :: rest)

/-- Adjust the out-of-order queue to an in-order segment, and trim the segment
where it still overlaps the first queued one. -/
def mergeOoseq (inseg : TcpSeg) (ooseq : List TcpSeg) :
    Lwip (TcpSeg × List TcpSeg) := do
  if inseg.hdr.fin then
    pure (inseg, [])
  else
    match dropCovered inseg ooseq with
    | (inseg, []) => pure (inseg, [])
    | (inseg, next :: rest) =>
        if SerialNumber.gt inseg.endSeq next.seqno then do
          let gap := (next.seqno - inseg.seqno).toNat % 65536
          let cut := {
            inseg with
            len := cutLen inseg gap
            p := inseg.p.realloc (cutLen inseg gap) }
          ensure (cut.endSeq == next.seqno) .notTrimmedToOoseq
          pure (cut, next :: rest)
        else
          pure (inseg, next :: rest)

/-- What `tcp_receive` leaves for `tcp_input`: `recv_data` and `TF_GOT_FIN`. -/
structure RecvOut where
  recvData : Option Pbuf := none
  gotFin : Bool := false
  deriving DecidableEq, Repr

/-- The data of `seg` joins `recv_data`. -/
def RecvOut.take (out : RecvOut) (seg : TcpSeg) : RecvOut where
  recvData :=
    if 0 < seg.p.totLen then
      some ((out.recvData.getD []).cat seg.p)
    else
      out.recvData
  gotFin := out.gotFin || seg.hdr.fin

/-- The receive variables move past `seg`; `fault` is the assertion that
guards the window. -/
def advanceRcv (fault : Fault) (seg : TcpSeg) (pcb : TcpPcb) :
    Lwip TcpPcb := do
  ensure (seg.tcplen ≤ pcb.rcvWnd) fault
  let (_, pcb) ← tcpUpdateRcvAnnWnd {
    pcb with
    rcvNxt := seg.endSeq
    rcvWnd := pcb.rcvWnd - seg.tcplen }
  pure pcb

/-- Hand over the queued segments that have come into sequence. -/
def drainOoseq : List TcpSeg → RecvOut → TcpPcb → Lwip (RecvOut × TcpPcb)
  | [], out, pcb => pure (out, { pcb with ooseq := [] })
  | cseg :: rest, out, pcb =>
      if cseg.seqno = pcb.rcvNxt then do
        let pcb ← advanceRcv .ooseqTcplenRcvWnd cseg pcb
        drainOoseq rest (out.take cseg) {
          pcb with
          state :=
            if cseg.hdr.fin ∧ pcb.state = .established then .closeWait
            else pcb.state }
      else
        pure (out, { pcb with ooseq := cseg :: rest })

/-- `tcp_ack`: every second segment is acknowledged at once. -/
def tcpAck (pcb : TcpPcb) : TcpPcb :=
  if pcb.flags.ackDelay then
    { pcb with flags.ackDelay := false, flags.ackNow := true }
  else
    { pcb with flags.ackDelay := true }

/-- A segment that starts at `rcv_nxt`. -/
def receiveInOrder (inseg : TcpSeg) (pcb : TcpPcb) :
    Lwip (RecvOut × TcpPcb) := do
  let inseg ← trimToWnd pcb.rcvNxt pcb.rcvWnd inseg
  let (inseg, ooseq) ← mergeOoseq inseg pcb.ooseq
  let pcb ← advanceRcv .tcplenRcvWnd inseg { pcb with ooseq }
  let (out, pcb) ← drainOoseq ooseq (RecvOut.take {} inseg) pcb
  pure (out, tcpAck pcb)

/-- The rest of the queue after a segment without FIN is put before it: what
it covers goes, and it gives way to what it only overlaps. -/
def oosCovering (cseg : TcpSeg) : List TcpSeg → List TcpSeg
  | [] => [cseg]
  | next :: rest =>
      if SerialNumber.geq (cseg.seqno + BitVec.ofNat 32 cseg.len)
          (next.seqno + BitVec.ofNat 32 next.len) then
        oosCovering
          { cseg with hdr.fin := cseg.hdr.fin || next.hdr.fin } rest
      else if SerialNumber.gt (cseg.seqno + BitVec.ofNat 32 cseg.len)
          next.seqno then
        let gap := (next.seqno - cseg.seqno).toNat % 65536
        { cseg with len := gap, p := cseg.p.realloc gap } :: next :: rest
      else
        cseg :: next :: rest

/-- `tcp_oos_insert_segment`. -/
def tcpOosInsertSegment (cseg : TcpSeg) (next : List TcpSeg) : List TcpSeg :=
  if cseg.hdr.fin then [cseg] else oosCovering cseg next

/-- Trim the end of a queued segment where `seqno` starts inside it. -/
def trimBefore (seqno : SeqNo) (prev : TcpSeg) : TcpSeg :=
  if SerialNumber.gt (prev.seqno + BitVec.ofNat 32 prev.len) seqno then
    let gap := (seqno - prev.seqno).toNat % 65536
    { prev with len := gap, p := prev.p.realloc gap }
  else
    prev

/-- Append after the last queued segment: the one insertion that cuts the
segment to the receive window. -/
def oosAppend (rightEdge : SeqNo) (inseg next : TcpSeg) :
    Lwip (List TcpSeg) := do
  if next.hdr.fin then
    pure [next]
  else if ← allocate then
    if SerialNumber.gt inseg.endSeq rightEdge then do
      let gap := (rightEdge - inseg.seqno).toNat % 65536
      let cut := {
        inseg with
        hdr.fin := false
        len := gap
        p := inseg.p.realloc gap }
      ensure (cut.endSeq == rightEdge) .notTrimmedToRcvWnd
      pure [trimBefore inseg.seqno next, cut]
    else
      pure [trimBefore inseg.seqno next, inseg]
  else
    pure [next]

/-- Put a copy of the segment before `next`, if memory lasts. -/
def oosInsertBefore (inseg : TcpSeg) (next : List TcpSeg) :
    Lwip (List TcpSeg) := do
  if ← allocate then
    pure (tcpOosInsertSegment inseg next)
  else
    pure next

/-- The walk of `tcp_receive` over the out-of-order queue: `prev` is the
segment just passed, and it heads the result. -/
def oosPlace (rightEdge : SeqNo) (inseg : TcpSeg) :
    Option TcpSeg → List TcpSeg → Lwip (List TcpSeg)
  | prev, [] => pure prev.toList
  | prev, next :: rest =>
      if inseg.seqno = next.seqno then
        if next.len < inseg.len then do
          let queue ← oosInsertBefore inseg (next :: rest)
          pure (prev.toList ++ queue)
        else
          pure (prev.toList ++ next :: rest)
      else
        match prev with
        | none =>
            if SerialNumber.lt inseg.seqno next.seqno then
              oosInsertBefore inseg (next :: rest)
            else if
                rest.isEmpty && SerialNumber.gt inseg.seqno next.seqno then
              oosAppend rightEdge inseg next
            else
              oosPlace rightEdge inseg (some next) rest
        | some prev =>
            if SerialNumber.between inseg.seqno (prev.seqno + 1)
                (next.seqno - 1) then do
              if ← allocate then
                pure (trimBefore inseg.seqno prev ::
                  tcpOosInsertSegment inseg (next :: rest))
              else
                pure (prev :: next :: rest)
            else if
                rest.isEmpty && SerialNumber.gt inseg.seqno next.seqno then do
              let queue ← oosAppend rightEdge inseg next
              pure (prev :: queue)
            else do
              let queue ← oosPlace rightEdge inseg (some next) rest
              pure (prev :: queue)

/-- The out-of-order queue once a segment has been put on it. -/
def oosInsert (rightEdge : SeqNo) (inseg : TcpSeg) :
    List TcpSeg → Lwip (List TcpSeg)
  | [] => do
      if ← allocate then pure [inseg] else pure []
  | next :: rest => oosPlace rightEdge inseg none (next :: rest)

/-- A segment that starts after `rcv_nxt`. -/
def receiveOutOfOrder (inseg : TcpSeg) (pcb : TcpPcb) : Lwip TcpPcb := do
  let ooseq ←
    oosInsert (pcb.rcvNxt + BitVec.ofNat 32 pcb.rcvWnd) inseg pcb.ooseq
  let (_, pcb) ← tcpSendEmptyAck { pcb with ooseq }
  pure pcb

/-- The part of `tcp_receive` that looks at the data. -/
def tcpReceiveData (inseg : TcpSeg) (pcb : TcpPcb) :
    Lwip (RecvOut × TcpPcb) := do
  if 0 < inseg.tcplen ∧ pcb.state.code < TcpState.closeWait.code then do
    let trims := frontTrims inseg.seqno inseg.tcplen pcb.rcvNxt
    let pcb :=
      if !trims && SerialNumber.lt inseg.seqno pcb.rcvNxt then
        { pcb with flags.ackNow := true }
      else
        pcb
    let inseg ← trimStart trims pcb.rcvNxt inseg
    if inWindow inseg.seqno pcb.rcvNxt pcb.rcvWnd then
      if pcb.rcvNxt = inseg.seqno then
        receiveInOrder inseg pcb
      else do
        let pcb ← receiveOutOfOrder inseg pcb
        pure ({}, pcb)
    else do
      let (_, pcb) ← tcpSendEmptyAck pcb
      pure ({}, pcb)
  else if !inWindow inseg.seqno pcb.rcvNxt pcb.rcvWnd then
    pure ({}, { pcb with flags.ackNow := true })
  else
    pure ({}, pcb)

/-- What `tcp_process` leaves for `tcp_input` besides the pcb. -/
structure InResult where
  recvAcked : Nat := 0
  recv : RecvOut := {}
  reset : Bool := false
  closed : Bool := false
  deriving DecidableEq, Repr

/-- `tcp_receive`. -/
def tcpReceive (packet : Packet) (inseg : TcpSeg) (pcb : TcpPcb) :
    Lwip (InResult × TcpPcb) := do
  ensure (TcpState.established.code ≤ pcb.state.code) .receiveWrongState
  let (recvAcked, pcb) ← tcpReceiveAck packet inseg.tcplen pcb
  let (recv, pcb) ← tcpReceiveData inseg pcb
  pure ({ recvAcked, recv }, pcb)

/-! ## `tcp_process` -/

/-- The segment acknowledges everything sent, and nothing waits to be sent. -/
def acksAll (packet : Packet) (pcb : TcpPcb) : Bool :=
  packet.flags.ack && packet.ackno == pcb.sndNxt && pcb.unsent.isEmpty

/-- `tcp_rst` in answer to `packet`. -/
def resetPacket (packet : Packet) (tcplen : Nat) : Lwip Unit :=
  tcpRst packet.ackno (packet.seqno + BitVec.ofNat 32 tcplen)
    packet.destIp packet.srcIp packet.dest packet.src

/-- `TCP_EVENT_ACCEPT`; without a listener the handshake ends unaccepted. -/
def tcpEventAccept (pcb : TcpPcb) : Lwip (Err × TcpPcb) :=
  match pcb.listener with
  | none => pure (.val, pcb)
  | some _ => tcpAcceptCb pcb

/-- An ACK in SYN_RCVD that acknowledges the SYN; no pcb is left when the
connection is not accepted. -/
def processHandshakeAck (packet : Packet) (inseg : TcpSeg) (pcb : TcpPcb) :
    Lwip (Option (InResult × TcpPcb)) := do
  let (err, pcb) ← tcpEventAccept { pcb with state := .established }
  if err ≠ .ok then do
    tcpAbort true pcb
    pure none
  else do
    let (result, pcb) ← tcpReceive packet inseg pcb
    let pcb := { pcb with cwnd := calcInitialCwnd pcb.mss }
    let result := { result with recvAcked := result.recvAcked - 1 }
    if result.recv.gotFin then
      pure (some (result, {
        pcb with flags.ackNow := true, state := .closeWait }))
    else
      pure (some (result, pcb))

/-- `SYN_RCVD` in `tcp_process`. -/
def processSynRcvd (packet : Packet) (inseg : TcpSeg) (pcb : TcpPcb) :
    Lwip (Option (InResult × TcpPcb)) := do
  if packet.flags.ack then
    if SerialNumber.between packet.ackno (pcb.lastack + 1) pcb.sndNxt then
      processHandshakeAck packet inseg pcb
    else do
      resetPacket packet inseg.tcplen
      pure (some ({}, pcb))
  else if packet.flags.syn && packet.seqno == pcb.rcvNxt - 1 then
    pure (some ({}, (tcpRexmit pcb).2))
  else
    pure (some ({}, pcb))

/-- The pcb moves to TIME_WAIT; the caller moves it between the lists. -/
def enterTimeWait (pcb : TcpPcb) : TcpPcb :=
  { tcpPcbPurge pcb with state := .timeWait }

/-- The states after SYN_RCVD in `tcp_process`. -/
def processSynchronized (packet : Packet) (inseg : TcpSeg) (pcb : TcpPcb) :
    Lwip (InResult × TcpPcb) := do
  let before := pcb.state
  let (result, pcb) ← tcpReceive packet inseg pcb
  let acked := { pcb with flags.ackNow := true }
  match before with
  | .established | .closeWait =>
      if result.recv.gotFin then
        pure (result, { acked with state := .closeWait })
      else
        pure (result, pcb)
  | .finWait1 =>
      if result.recv.gotFin then
        if acksAll packet pcb then
          pure (result, enterTimeWait acked)
        else
          pure (result, { acked with state := .closing })
      else if acksAll packet pcb then
        pure (result, { pcb with state := .finWait2 })
      else
        pure (result, pcb)
  | .finWait2 =>
      if result.recv.gotFin then
        pure (result, enterTimeWait acked)
      else
        pure (result, pcb)
  | .closing =>
      if acksAll packet pcb then
        pure (result, enterTimeWait pcb)
      else
        pure (result, pcb)
  | .lastAck =>
      if acksAll packet pcb then
        pure ({ result with closed := true }, pcb)
      else
        pure (result, pcb)
  | _ => pure (result, pcb)

/-- A segment with RST in `tcp_process`. -/
def processRst (packet : Packet) (pcb : TcpPcb) : InResult × TcpPcb :=
  if packet.seqno = pcb.rcvNxt then
    ({ reset := true }, { pcb with flags.ackDelay := false })
  else if SerialNumber.between packet.seqno pcb.rcvNxt
      (pcb.rcvNxt + BitVec.ofNat 32 pcb.rcvWnd) then
    ({}, { pcb with flags.ackNow := true })
  else
    ({}, pcb)

/-- The inactivity timer, the probe counter and the options, which every
segment that is not a reset or a stray SYN updates. -/
def noteActivity (packet : Packet) (tcpTicks : BitVec 32) (pcb : TcpPcb) :
    TcpPcb :=
  tcpParseopt packet.options {
    pcb with
    tmr := if pcb.flags.rxclosed then pcb.tmr else tcpTicks
    persistProbe := 0 }

/-- `tcp_process`: no pcb is left after `ERR_ABRT`. -/
def tcpProcess (packet : Packet) (inseg : TcpSeg) (pcb : TcpPcb) :
    Lwip (Option (InResult × TcpPcb)) := do
  if packet.flags.rst then
    pure (some (processRst packet pcb))
  else if packet.flags.syn ∧ pcb.state ≠ .synRcvd then
    pure (some ({}, { pcb with flags.ackNow := true }))
  else do
    let world ← get
    let pcb := noteActivity packet world.tcpTicks pcb
    match pcb.state with
    | .synRcvd => processSynRcvd packet inseg pcb
    | .closed | .timeWait => pure (some ({}, pcb))
    | _ => do
        let processed ← processSynchronized packet inseg pcb
        pure (some processed)

/-! ## `tcp_input` -/

/-- `inseg` as `tcp_input` sets it up. -/
def inputSeg (packet : Packet) : TcpSeg where
  p := [packet.payload]
  len := packet.payload.length
  seqno := packet.seqno
  hdr := packet.flags

/-- `tcp_input_delayed_close` once `TF_CLOSED` is set. -/
def tcpInputDelayedClose (inInput : Bool) (pcb : TcpPcb) : Lwip Unit := do
  tcpEventErr (pcb.errf && !pcb.flags.rxclosed) pcb.callbackArg
  let _ ← tcpPcbRemove inInput pcb

/-- Hand `recv_data` to the application. -/
def deliverData (recv : RecvOut) (pcb : TcpPcb) : Lwip TcpPcb := do
  match recv.recvData with
  | none => pure pcb
  | some data => do
      ensure pcb.refusedData.isNone .refusedData
      let (err, pcb) ← tcpEventRecv true pcb data
      if err = .ok then
        pure pcb
      else
        pure { pcb with refusedData := some (data, false) }

/-- Hand the FIN to the application, once it has taken all data. -/
def deliverFin (recv : RecvOut) (pcb : TcpPcb) : Lwip TcpPcb := do
  if recv.gotFin then
    match pcb.refusedData with
    | some (data, _) => pure { pcb with refusedData := some (data, true) }
    | none => do
        let pcb := returnFinByte pcb
        let _ ← tcpEventClosed pcb
        pure pcb
  else
    pure pcb

/-- Tell the application that `recvAcked` bytes were acknowledged. -/
def reportSent (recvAcked : Nat) (pcb : TcpPcb) : Lwip Err :=
  if 0 < recvAcked then tcpEventSent pcb else pure .ok

/-- `tcp_input` after `tcp_process`, for a pcb that is still there. -/
def finishInput (result : InResult) (pcb : TcpPcb) :
    Lwip (Option TcpPcb) := do
  if result.reset then do
    tcpEventErr pcb.errf pcb.callbackArg
    let _ ← tcpPcbRemove true pcb
    pure none
  else do
    let _ ← reportSent result.recvAcked pcb
    if result.closed then do
      tcpInputDelayedClose true pcb
      pure none
    else if result.recv.recvData.isSome && pcb.flags.rxclosed then do
      tcpAbort true pcb
      pure none
    else do
      let pcb ← deliverData result.recv pcb
      let pcb ← deliverFin result.recv pcb
      let (_, pcb) ← tcpOutput false pcb
      pure (some pcb)

/-- `tcp_input` once the segment's pcb is found among the active ones. -/
def tcpInputPcb (packet : Packet) (pcb : TcpPcb) : Lwip (Option TcpPcb) := do
  let inseg := inputSeg packet
  let (_, pcb) ← tcpProcessRefusedData false pcb
  if pcb.refusedData.isSome ∧ 0 < inseg.tcplen then
    if pcb.rcvAnnWnd = 0 then do
      let (_, pcb) ← tcpSendEmptyAck pcb
      pure (some pcb)
    else
      pure (some pcb)
  else do
    match ← tcpProcess packet inseg pcb with
    | none => pure none
    | some (result, pcb) => finishInput result pcb

/-- `tcp_timewait_input`. -/
def tcpTimewaitInput (packet : Packet) (pcb : TcpPcb) : Lwip TcpPcb := do
  let tcplen := (inputSeg packet).tcplen
  if packet.flags.rst then
    pure pcb
  else if packet.flags.syn ∧
      SerialNumber.between packet.seqno pcb.rcvNxt
        (pcb.rcvNxt + BitVec.ofNat 32 pcb.rcvWnd) = true then do
    resetPacket packet tcplen
    pure pcb
  else do
    let world ← get
    let pcb :=
      if !packet.flags.syn && packet.flags.fin then
        { pcb with tmr := world.tcpTicks }
      else
        pcb
    if 0 < tcplen then do
      let (_, pcb) ← tcpOutput false { pcb with flags.ackNow := true }
      pure pcb
    else
      pure pcb

/-- The pcb `tcp_listen_input` sets up for a SYN, before its options are
read. -/
def listenPcb (packet : Packet) (arg : CallbackArg) (listener : Nat)
    (iss : SeqNo) (tcpTicks : BitVec 32) : TcpPcb where
  localIp := packet.destIp
  remoteIp := packet.srcIp
  localPort := packet.dest
  remotePort := packet.src
  state := .synRcvd
  rcvNxt := packet.seqno + 1
  rcvAnnRightEdge := packet.seqno + 1
  sndWl2 := iss
  sndNxt := iss
  lastack := iss
  sndLbb := iss
  sndWl1 := packet.seqno - 1
  callbackArg := arg
  listener := some listener
  tmr := tcpTicks

/-- `tcp_listen_input` on a fresh pcb for a SYN; the pcb is abandoned when the
SYN|ACK cannot be queued. -/
def tcpListenInputSyn (packet : Packet) (arg : CallbackArg) (listener : Nat)
    (iss : SeqNo) : Lwip (Option TcpPcb) := do
  let world ← get
  let pcb :=
    tcpParseopt packet.options
      (listenPcb packet arg listener iss world.tcpTicks)
  let pcb := {
    pcb with
    sndWnd := packet.wnd.toNat
    sndWndMax := packet.wnd.toNat
    mss := tcpEffSendMssNetif pcb.mss world.mtu6 pcb.remoteIp }
  let (err, pcb) ← tcpEnqueueFlags pcb { syn := true, ack := true }
  if err ≠ .ok then do
    tcpAbandon false pcb false
    pure none
  else do
    let (_, pcb) ← tcpOutput false pcb
    pure (some pcb)

end NetstackLwip

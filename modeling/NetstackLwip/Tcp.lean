import NetstackLwip.TcpCallbacks
import NetstackLwip.TcpOut

namespace NetstackLwip

/-!
# `tcp.c` without its timers

Opening, closing and removing a pcb, and the receive window. A function that
frees the pcb returns nothing in its place.
-/

open FaultState

/-! ## Receive window -/

/-- `tcp_update_rcv_ann_wnd`: how far the announced edge would move. -/
def tcpUpdateRcvAnnWnd (pcb : TcpPcb) : Lwip (SeqNo × TcpPcb) := do
  let newRightEdge := pcb.rcvNxt + BitVec.ofNat 32 pcb.rcvWnd
  if SerialNumber.geq newRightEdge
      (pcb.rcvAnnRightEdge + BitVec.ofNat 32 (min (tcpWnd / 2) pcb.mss)) then
    pure (newRightEdge - pcb.rcvAnnRightEdge,
      { pcb with rcvAnnWnd := pcb.rcvWnd })
  else if SerialNumber.gt pcb.rcvNxt pcb.rcvAnnRightEdge then
    pure (0, { pcb with rcvAnnWnd := 0 })
  else do
    let newRcvAnnWnd := (pcb.rcvAnnRightEdge - pcb.rcvNxt).toNat
    ensure (newRcvAnnWnd ≤ 0xffff) .newRcvAnnWnd
    pure (0, { pcb with rcvAnnWnd := newRcvAnnWnd })

/-- `pcb->rcv_wnd` after the application has taken `len` bytes. -/
def recvedWnd (rcvWnd len : Nat) : Nat :=
  let grown := (rcvWnd + len) % 65536
  if tcpWnd < grown ∨ grown < rcvWnd then tcpWnd else grown

/-- `tcp_recved`. -/
def tcpRecved (inInput : Bool) (pcb : TcpPcb) (len : Nat) : Lwip TcpPcb := do
  let (wndInflation, pcb) ←
    tcpUpdateRcvAnnWnd { pcb with rcvWnd := recvedWnd pcb.rcvWnd len }
  if tcpWndUpdateThreshold ≤ wndInflation.toNat then do
    let (_, pcb) ← tcpOutput inInput { pcb with flags.ackNow := true }
    pure pcb
  else
    pure pcb

/-- `TCP_EVENT_RECV`: a pcb without a callback takes the data at once. -/
def tcpEventRecv
    (inInput : Bool)
    (pcb : TcpPcb)
    (p : Pbuf) :
    Lwip (Err × TcpPcb) := do
  match pcb.recv with
  | .tcpRecvCb => do
      let err ← tcpRecvCb pcb.callbackArg (some p)
      pure (err, pcb)
  | _ => do
      let pcb ← tcpRecved inInput pcb (p.totLen % 65536)
      pure (.ok, pcb)

/--
`TCP_EVENT_CLOSED`. `tcp_recv_null` would close the pcb here, but it is only
registered until the connection is accepted.
-/
def tcpEventClosed (pcb : TcpPcb) : Lwip Err := do
  match pcb.recv with
  | .tcpRecvCb => tcpRecvCb pcb.callbackArg none
  | .none => pure .ok
  | .tcpRecvNull => throw .closeUnaccepted

/-- `rcv_wnd` takes back the sequence number of an accepted FIN, which no
`tcp_recved` will ever return. -/
def returnFinByte (pcb : TcpPcb) : TcpPcb :=
  if pcb.rcvWnd ≠ tcpWnd then
    { pcb with rcvWnd := (pcb.rcvWnd + 1) % 65536 }
  else
    pcb

/-- `tcp_process_refused_data`. -/
def tcpProcessRefusedData
    (inInput : Bool)
    (pcb : TcpPcb) :
    Lwip (Err × TcpPcb) := do
  match pcb.refusedData with
  | none => pure (.ok, pcb)
  | some (data, fin) => do
      let (err, pcb) ←
        tcpEventRecv inInput { pcb with refusedData := none } data
      if err = .ok then
        if fin then do
          let pcb := returnFinByte pcb
          let _ ← tcpEventClosed pcb
          pure (.ok, pcb)
        else
          pure (.ok, pcb)
      else
        pure (.inprogress, { pcb with refusedData := some (data, fin) })

/-! ## Removal -/

/-- `tcp_pcb_purge`. -/
def tcpPcbPurge (pcb : TcpPcb) : TcpPcb :=
  if pcb.state ≠ .closed ∧ pcb.state ≠ .timeWait then
    { pcb with
      refusedData := none
      ooseq := []
      rtime := -1
      unsent := []
      unacked := []
      unsentOversize := 0 }
  else
    pcb

/-- A delayed acknowledgement goes out before the pcb is removed. -/
def flushDelayedAck (inInput : Bool) (pcb : TcpPcb) : Lwip TcpPcb := do
  if pcb.state ≠ .timeWait ∧ pcb.flags.ackDelay = true then do
    let (_, pcb) ← tcpOutput inInput { pcb with flags.ackNow := true }
    pure pcb
  else
    pure pcb

/-- `tcp_pcb_remove`, the list operation left to the caller. -/
def tcpPcbRemove (inInput : Bool) (pcb : TcpPcb) : Lwip TcpPcb := do
  let pcb ← flushDelayedAck inInput (tcpPcbPurge pcb)
  ensure
    (pcb.unsent.isEmpty && pcb.unacked.isEmpty && pcb.ooseq.isEmpty)
    .segmentsLeaking
  pure { pcb with state := .closed, localPort := 0 }

/-- The RST of `tcp_abandon`: `pcb` gives what was saved before the removal. -/
def resetPeer (reset : Bool) (pcb removed : TcpPcb) : Lwip Unit :=
  if reset then
    tcpRst pcb.sndNxt pcb.rcvNxt removed.localIp removed.remoteIp
      pcb.localPort removed.remotePort
  else
    pure ()

/--
`tcp_abandon`. A pcb in TIME_WAIT is freed without a word to the application;
any other pcb reports `ERR_ABRT` after it is freed.
-/
def tcpAbandon (inInput : Bool) (pcb : TcpPcb) (reset : Bool) : Lwip Unit := do
  if pcb.state = .timeWait then do
    let _ ← tcpPcbRemove inInput pcb
  else do
    let removed ← tcpPcbRemove inInput pcb
    resetPeer reset pcb removed
    tcpEventErr pcb.errf pcb.callbackArg

/-- `tcp_abort`. -/
def tcpAbort (inInput : Bool) (pcb : TcpPcb) : Lwip Unit :=
  tcpAbandon inInput pcb true

/-! ## Closing -/

/-- `tcp_close_shutdown_fin`. -/
def tcpCloseShutdownFin (pcb : TcpPcb) : Lwip (Err × TcpPcb) := do
  let next :=
    match pcb.state with
    | .synRcvd => some TcpState.finWait1
    | .established => some TcpState.finWait1
    | .closeWait => some TcpState.lastAck
    | _ => none
  match next with
  | none => pure (.ok, pcb)
  | some state => do
      let (err, pcb) ← tcpSendFin pcb
      if err = .ok then do
        let (_, pcb) ← tcpOutput false { pcb with state }
        pure (.ok, pcb)
      else if err = .mem then
        pure (.ok, { pcb with flags.closepend := true })
      else
        pure (err, pcb)

/-- `tcp_shutdown` with `shut_rx` 0 and `shut_tx` 1. -/
def tcpShutdownTx (pcb : TcpPcb) : Lwip (Err × TcpPcb) := do
  match pcb.state with
  | .synRcvd => tcpCloseShutdownFin pcb
  | .established => tcpCloseShutdownFin pcb
  | .closeWait => tcpCloseShutdownFin pcb
  | _ => pure (.conn, pcb)

/-- One round of `tcp_handle_closepend`, and of the same step in
`tcp_fasttmr`: try again to queue a FIN for which memory had run out. -/
def retryClosepend (pcb : TcpPcb) : Lwip TcpPcb := do
  if pcb.flags.closepend then do
    let (_, pcb) ←
      tcpCloseShutdownFin { pcb with flags.closepend := false }
    pure pcb
  else
    pure pcb

end NetstackLwip

import NetstackLwip.TcpIn

namespace NetstackLwip

/-!
# The timers of `tcp.c`

What one call of `tcp_slowtmr` or `tcp_fasttmr` does to one pcb. The loops
over the pcb lists restart only when a callback changes a list; the crate's
callbacks never do, so `last_timer` always finds a pcb not yet processed and
is left out.
-/

open FaultState

/-- Whether more than `limit` milliseconds have passed since the pcb was last
active, in slow ticks. -/
def idleLongerThan (tcpTicks tmr : BitVec 32) (limit : Nat) : Bool :=
  decide (limit / tcpSlowInterval < (tcpTicks - tmr).toNat)

/-- The persist timer moves on to its next, longer slot. -/
def nextPersistSlot (pcb : TcpPcb) : TcpPcb :=
  { pcb with
    persistCnt := 0
    persistBackoff :=
      if pcb.persistBackoff < tcpPersistBackoff.length then
        pcb.persistBackoff + 1
      else
        pcb.persistBackoff }

/-- The persist timer goes off: probe a closed window, or send what the window
lets through of the first segment. -/
def persistFires (pcb : TcpPcb) : Lwip TcpPcb := do
  if pcb.sndWnd = 0 then do
    let (err, pcb) ← tcpZeroWindowProbe pcb
    if err = .ok then pure (nextPersistSlot pcb) else pure pcb
  else do
    let (err, pcb) ← tcpSplitUnsentSeg pcb pcb.sndWnd
    if err = .ok then do
      let (err, pcb) ← tcpOutput false pcb
      if err = .ok then pure pcb else pure (nextPersistSlot pcb)
    else
      pure (nextPersistSlot pcb)

/-- The persist branch of `tcp_slowtmr`; the flag says that the pcb has used
up its probes. -/
def persistTick (pcb : TcpPcb) : Lwip (Bool × TcpPcb) := do
  ensure pcb.unacked.isEmpty .persistInFlight
  ensure (!pcb.unsent.isEmpty) .persistEmpty
  if tcpMaxrtx ≤ pcb.persistProbe then
    pure (true, pcb)
  else do
    let backoffCnt := tcpPersistBackoff.getD (pcb.persistBackoff - 1) 0
    let persistCnt :=
      if pcb.persistCnt < backoffCnt then pcb.persistCnt + 1
      else pcb.persistCnt
    let pcb := { pcb with persistCnt }
    if backoffCnt ≤ persistCnt then do
      let pcb ← persistFires pcb
      pure (false, pcb)
    else
      pure (false, pcb)

/-- The congestion state after a retransmission time-out. -/
def backOff (pcb : TcpPcb) : TcpPcb :=
  let shift := tcpBackoff.getD (min pcb.nrtx (tcpBackoff.length - 1)) 0
  { pcb with
    rto := toS16 (min ((pcb.sa / 8 + pcb.sv) * 2 ^ shift) 0x7fff)
    rtime := 0
    ssthresh := max (min pcb.cwnd pcb.sndWnd / 2) (pcb.mss * 2 % 65536)
    cwnd := pcb.mss
    bytesAcked := 0 }

/-- The retransmission branch of `tcp_slowtmr`. -/
def rexmitTick (pcb : TcpPcb) : Lwip TcpPcb := do
  let pcb := {
    pcb with
    rtime :=
      if 0 ≤ pcb.rtime ∧ pcb.rtime < 0x7fff then pcb.rtime + 1
      else pcb.rtime }
  if pcb.rto ≤ pcb.rtime then
    let (err, pcb) := tcpRexmitRtoPrepare pcb
    if err = .ok ∨ (pcb.unacked.isEmpty ∧ !pcb.unsent.isEmpty) then
      tcpRexmitRtoCommit (backOff pcb)
    else
      pure pcb
  else
    pure pcb

/-- The timers that send: the flag asks for the pcb's removal. -/
def sendTick (pcb : TcpPcb) : Lwip (Bool × TcpPcb) := do
  if tcpMaxrtx ≤ pcb.nrtx then
    pure (true, pcb)
  else if 0 < pcb.persistBackoff then
    persistTick pcb
  else do
    let pcb ← rexmitTick pcb
    pure (false, pcb)

/-- The state time-outs of `tcp_slowtmr`. FIN_WAIT_2 has one only once the
receive side is closed as well. -/
def stateTimeout (tcpTicks : BitVec 32) (pcb : TcpPcb) : Bool :=
  match pcb.state with
  | .finWait2 =>
      pcb.flags.rxclosed && idleLongerThan tcpTicks pcb.tmr tcpFinWaitTimeout
  | .synRcvd => idleLongerThan tcpTicks pcb.tmr tcpSynRcvdTimeout
  | .lastAck => idleLongerThan tcpTicks pcb.tmr (2 * tcpMsl)
  | _ => false

/-- Out-of-order data that has waited too long is dropped. -/
def dropStaleOoseq (tcpTicks : BitVec 32) (pcb : TcpPcb) : TcpPcb :=
  if BitVec.ofInt 32 pcb.rto * BitVec.ofNat 32 tcpOoseqTimeout ≤
      tcpTicks - pcb.tmr then
    { pcb with ooseq := [] }
  else
    pcb

/-- The application poll of `tcp_slowtmr`. -/
def pollTick (pcb : TcpPcb) : Lwip TcpPcb := do
  let polltmr := (pcb.polltmr + 1) % 256
  if pcb.pollinterval ≤ polltmr then do
    let pcb := { pcb with polltmr := 0 }
    let _ ← tcpEventPoll pcb
    let (_, pcb) ← tcpOutput false pcb
    pure pcb
  else
    pure { pcb with polltmr }

/-- `tcp_slowtmr` on one active pcb, after `tcp_ticks` has been advanced. -/
def slowtmrPcb (pcb : TcpPcb) : Lwip (Option TcpPcb) := do
  let (pcbRemove, pcb) ← sendTick pcb
  let world ← get
  let pcb := dropStaleOoseq world.tcpTicks pcb
  if pcbRemove || stateTimeout world.tcpTicks pcb then do
    tcpEventErr pcb.errf pcb.callbackArg
    pure none
  else do
    let pcb ← pollTick pcb
    pure (some pcb)

/-- `tcp_slowtmr` on one pcb in TIME_WAIT: it is freed without a word to the
application. -/
def slowtmrTimewait (tcpTicks : BitVec 32) (pcb : TcpPcb) : Option TcpPcb :=
  if idleLongerThan tcpTicks pcb.tmr (2 * tcpMsl) then none else some pcb

/-- The delayed acknowledgement of `tcp_fasttmr`. -/
def delayedAck (pcb : TcpPcb) : Lwip TcpPcb := do
  if pcb.flags.ackDelay then do
    let (_, pcb) ← tcpOutput false { pcb with flags.ackNow := true }
    pure { pcb with flags.ackDelay := false, flags.ackNow := false }
  else
    pure pcb

/-- `tcp_fasttmr` on one active pcb. -/
def fasttmrPcb (pcb : TcpPcb) : Lwip TcpPcb := do
  let pcb ← delayedAck pcb
  let pcb ← retryClosepend pcb
  let (_, pcb) ← tcpProcessRefusedData false pcb
  pure pcb

end NetstackLwip

import NetstackLwip.TcpTypes

namespace NetstackLwip

/-!
# The callbacks of `tcp_stream.rs` and `tcp_listener.rs`

lwIP calls these with `callback_arg`; using an argument whose target has been
dropped is a fault. The read channel is unbounded and its receiver lives in
the same context, so a send fails only once `read_tx` is taken.
-/

open FaultState

/-- `TcpStreamContext::assume_locked` followed by a change of the context. -/
def withContext
    (arg : CallbackArg)
    (change : TcpStream → TcpStream) :
    Lwip Unit := do
  let world ← get
  match arg, world.stream with
  | .stream _, some stream => set { world with stream := some (change stream) }
  | _, _ => throw .danglingArg

/-- `tx.send`. -/
def TcpStream.send (chunk : Bytes) (stream : TcpStream) : TcpStream :=
  if stream.readTx then
    { stream with readRx := stream.readRx ++ [chunk] }
  else
    stream

/-- Wake the stored write waker, if any. -/
def wakeWriter (arg : CallbackArg) : Lwip Unit := do
  withContext arg id
  modify fun world =>
    { world with
      woken :=
        world.woken || (world.stream.map TcpStream.writeWaker).getD false }

/-- `tcp_recv_cb`. -/
def tcpRecvCb (arg : CallbackArg) (p : Option Pbuf) : Lwip Err := do
  if arg = .null then
    pure .conn
  else
    match p with
    | none => do
        withContext arg (TcpStream.send [])
        pure .ok
    | some p => do
        withContext arg fun stream =>
          if p.data.isEmpty then stream else stream.send p.data
        pure .ok

/-- `tcp_sent_cb`. -/
def tcpSentCb (arg : CallbackArg) : Lwip Err := do
  wakeWriter arg
  pure .ok

/-- `tcp_poll_cb`. -/
def tcpPollCb (arg : CallbackArg) : Lwip Err := do
  wakeWriter arg
  pure .ok

/-- What `tcp_err_cb` does to the context. -/
def TcpStream.fail (stream : TcpStream) : TcpStream :=
  { stream with errored := true, readTx := false }

/-- `tcp_err_cb`. -/
def tcpErrCb (arg : CallbackArg) : Lwip Unit := do
  withContext arg TcpStream.fail
  wakeWriter arg

/-- `TCP_EVENT_ERR`. -/
def tcpEventErr (errf : Bool) (arg : CallbackArg) : Lwip Unit :=
  if errf then tcpErrCb arg else pure ()

/-- `TCP_EVENT_SENT`. -/
def tcpEventSent (pcb : TcpPcb) : Lwip Err :=
  if pcb.sent then tcpSentCb pcb.callbackArg else pure .ok

/-- `TCP_EVENT_POLL`. -/
def tcpEventPoll (pcb : TcpPcb) : Lwip Err :=
  if pcb.poll then tcpPollCb pcb.callbackArg else pure .ok

/-- `TcpStream::new` on the pcb in hand: the stream and the pcb it leaves. -/
def newStream (pcbAddr id : Nat) (pcb : TcpPcb) : TcpStream × TcpPcb :=
  ({ srcAddr := ⟨pcb.remoteIp, pcb.remotePort⟩
     destAddr := ⟨pcb.localIp, pcb.localPort⟩
     pcb := pcbAddr },
   { pcb with
     callbackArg := .stream id
     recv := .tcpRecvCb
     sent := true
     errf := true
     poll := true
     pollinterval := 8
     flags.nodelay := true })

/-- `tcp_accept_cb` with `ERR_OK`: the new stream goes to the listener. -/
def tcpAcceptCb (pcb : TcpPcb) : Lwip (Err × TcpPcb) := do
  match pcb.callbackArg with
  | .null => pure (.conn, pcb)
  | .stream _ => throw .danglingArg
  | .listener listener => do
      let world ← get
      if listener ∈ world.listeners then do
        let (stream, pcb) := newStream world.pcbAddr world.nextStream pcb
        set {
          world with
          stream := some stream
          nextStream := world.nextStream + 1
          accepted := world.accepted ++ [(listener, world.nextStream)] }
        pure (.ok, pcb)
      else
        throw .danglingArg

end NetstackLwip

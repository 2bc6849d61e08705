import NetstackLwip.FaultMachine
import NetstackLwip.TcpStream

namespace NetstackLwip

/-!
# One connection and its stream

The machine of a single pcb from the SYN that created it: its packets, the
timers, the calls on its stream, and what `tcp_alloc` may do to it when the
pool is empty. Every event brings its own outcomes for memory allocation,
packet output and the receiver of the channel, so a run covers every failure.
The history records what went in and out, for the properties only; no step
reads it.
-/

open FaultState

/-- What can happen to a connection. -/
inductive Event where
  /-- A segment that `tcp_input` matches to the pcb. -/
  | segment (packet : InPacket)
  | slowtmr
  | fasttmr
  | pollRead (remaining : Nat)
  | pollWrite (buf : Bytes)
  | pollFlush
  | pollShutdown
  | dropStream
  | dropListener
  /-- `tcp_handle_closepend`, for a pool found empty. -/
  | handleClosepend
  /-- `tcp_kill_state` or `tcp_kill_timewait` has chosen this pcb. -/
  | kill

/-- An event with the outcomes the environment gives its calls. -/
structure Label where
  event : Event
  allocs : List Bool := []
  outputs : List Err := []
  recvs : List Bool := []

/-- What a call on the stream has returned. -/
inductive Outcome where
  | silent
  | read (remaining : Nat) (result : PollRead)
  | write (buf : Bytes) (result : PollWrite)
  | unit (result : PollUnit)
  deriving DecidableEq, Repr

/-- What has passed through the connection so far. -/
structure History where
  irs : SeqNo
  iss : SeqNo
  /-- The bytes `poll_write` has accepted. -/
  written : Bytes := []
  /-- Some `tcp_output` called by `poll_write` has failed. -/
  outputFailed : Bool := false
  /-- The bytes `poll_read` has returned. -/
  returned : Bytes := []
  /-- The bytes that `tcp_receive` has taken from the peer, in order. -/
  accepted : Bytes := []
  /-- `tcp_receive` has taken the peer's FIN. -/
  finAccepted : Bool := false
  outcome : Outcome := .silent
  deriving DecidableEq, Repr

/-- A connection: `pcb` is `none` once it is freed. -/
structure Conn where
  world : World
  pcb : Option TcpPcb
  history : History

/-- Store the stream a call has changed. -/
def putStream (stream : TcpStream) : Lwip Unit :=
  modify fun world => { world with stream := some stream }

/-- A call that would use the freed pcb of its stream. What it then does to
the next owner of that memory is not modelled: the run ends here. -/
def useFreed (_ : TcpStream) : Lwip Outcome :=
  throw .danglingPcb

/-- `poll_read` on a stream whose pcb is freed. -/
def readFreed (remaining : Nat) (stream : TcpStream) : Lwip Outcome := do
  let world ← get
  let (result, stream) ← pollReadFreed world.recvs remaining stream
  putStream stream
  pure (.read remaining result)

/-- A call on the stream: nothing happens without one, an errored one answers
`broken`, one whose pcb is freed takes `freed`, and any other uses its pcb. -/
def onStream
    (pcb : Option TcpPcb)
    (broken : Outcome)
    (freed : TcpStream → Lwip Outcome)
    (call : TcpStream → TcpPcb → Lwip (Option TcpPcb × Outcome)) :
    Lwip (Option TcpPcb × Outcome) := do
  let world ← get
  match world.stream with
  | none => pure (pcb, .silent)
  | some stream =>
      if stream.errored then
        pure (pcb, broken)
      else
        match pcb with
        | none => do
            let outcome ← freed stream
            pure (none, outcome)
        | some pcb => call stream pcb

/-- `tcp_kill_state` takes a pcb in LAST_ACK or CLOSING, `tcp_kill_timewait`
one in TIME_WAIT. No pcb has a priority below another's for
`tcp_kill_prio`. -/
def killPcb (pcb : TcpPcb) : Lwip (Option TcpPcb) := do
  match pcb.state with
  | .lastAck => do
      tcpAbandon false pcb false
      pure none
  | .closing => do
      tcpAbandon false pcb false
      pure none
  | .timeWait => do
      tcpAbort false pcb
      pure none
  | _ => pure (some pcb)

/-- What an event does to the pcb. -/
def perform (pcb : Option TcpPcb) : Event → Lwip (Option TcpPcb × Outcome)
  | .segment packet =>
      match pcb with
      | none => pure (none, .silent)
      | some pcb => do
          if pcb.state = .timeWait then do
            let pcb ← tcpTimewaitInput packet.toPacket pcb
            pure (some pcb, .silent)
          else do
            let pcb ← tcpInputPcb packet.toPacket pcb
            pure (pcb, .silent)
  | .slowtmr => do
      modify fun world => { world with tcpTicks := world.tcpTicks + 1 }
      match pcb with
      | none => pure (none, .silent)
      | some pcb => do
          if pcb.state = .timeWait then do
            let world ← get
            pure (slowtmrTimewait world.tcpTicks pcb, .silent)
          else do
            let pcb ← slowtmrPcb pcb
            pure (pcb, .silent)
  | .fasttmr =>
      match pcb with
      | none => pure (none, .silent)
      | some pcb => do
          if pcb.state = .timeWait then
            pure (some pcb, .silent)
          else do
            let pcb ← fasttmrPcb pcb
            pure (some pcb, .silent)
  | .pollRead remaining =>
      onStream pcb (.read remaining .brokenPipe) (readFreed remaining)
        fun stream pcb => do
          let world ← get
          let (result, stream, pcb) ←
            pollReadPcb world.recvs remaining stream pcb
          putStream stream
          pure (some pcb, .read remaining result)
  | .pollWrite buf =>
      onStream pcb (.write buf .brokenPipe) useFreed fun stream pcb => do
        let (result, stream, pcb) ← pollWritePcb buf stream pcb
        putStream stream
        pure (some pcb, .write buf result)
  | .pollFlush =>
      onStream pcb (.unit .brokenPipe) useFreed fun _ pcb => do
        let (result, pcb) ← pollFlushPcb pcb
        pure (some pcb, .unit result)
  | .pollShutdown =>
      onStream pcb (.unit .brokenPipe) useFreed fun stream pcb => do
        let (result, stream, pcb) ← pollShutdownPcb stream pcb
        putStream stream
        pure (some pcb, .unit result)
  | .dropStream => do
      let (pcb, outcome) ←
        onStream pcb .silent useFreed fun stream pcb => do
          let pcb ← dropPcb stream pcb
          pure (pcb, .silent)
      modify fun world => { world with stream := none }
      pure (pcb, outcome)
  | .dropListener => do
      modify fun world => { world with listeners := [] }
      pure (pcb.map fun pcb => { pcb with listener := none }, .silent)
  | .handleClosepend =>
      match pcb with
      | none => pure (none, .silent)
      | some pcb => do
          if pcb.state = .timeWait then
            pure (some pcb, .silent)
          else do
            let pcb ← retryClosepend pcb
            pure (some pcb, .silent)
  | .kill =>
      match pcb with
      | none => pure (none, .silent)
      | some pcb => do
          let pcb ← killPcb pcb
          pure (pcb, .silent)

/-- The world in which an event with these outcomes takes place. -/
def Label.enter (label : Label) (world : World) : World :=
  { world with
    allocs := label.allocs
    outputs := label.outputs
    recvs := label.recvs
    woken := false }

/-- What `tcp_receive` takes from the peer when `packet` is processed. -/
def takenFrom (packet : Packet) (pcb : TcpPcb) (world : World) : RecvOut :=
  match tcpProcess packet (inputSeg packet) pcb world with
  | .ok (some (result, _), _) => result.recv
  | _ => {}

/-- What is taken from the peer by an event. -/
def acceptedBy (pcb : Option TcpPcb) (label : Label) (world : World) :
    RecvOut :=
  match pcb, label.event with
  | some pcb, .segment packet =>
      if pcb.state = .timeWait then
        {}
      else
        takenFrom packet.toPacket pcb (label.enter world)
  | _, _ => {}

/-- The history after an event that returned `outcome`. -/
def History.record
    (history : History)
    (received : RecvOut)
    (outcome : Outcome) :
    History where
  irs := history.irs
  iss := history.iss
  written :=
    match outcome with
    | .write buf (.ready written) => history.written ++ buf.take written
    | _ => history.written
  outputFailed :=
    match outcome with
    | .write _ (.outputError _) => true
    | _ => history.outputFailed
  returned :=
    match outcome with
    | .read _ (.ready bytes) => history.returned ++ bytes
    | _ => history.returned
  accepted := history.accepted ++ (received.recvData.getD []).data
  finAccepted := history.finAccepted || received.gotFin
  outcome := outcome

/-- One event of the connection. -/
def Conn.step (conn : Conn) (label : Label) : Except Fault Conn :=
  match perform conn.pcb label.event (label.enter conn.world) with
  | .ok ((pcb, outcome), world) =>
      .ok {
        world
        pcb
        history :=
          conn.history.record (acceptedBy conn.pcb label conn.world) outcome }
  | .error fault => .error fault

/-- A connection just after the SYN that opened it. -/
def Conn.Initial (conn : Conn) : Prop :=
  ∃ (packet : InPacket) (listener : Nat) (iss : SeqNo) (world : World),
    packet.flags.syn = true ∧
      packet.flags.ack = false ∧
      packet.flags.rst = false ∧
      world.sent = [] ∧
      world.stream = none ∧
      tcpListenInputSyn packet.toPacket (.listener listener) listener iss
          world =
        .ok (conn.pcb, conn.world) ∧
      conn.pcb.isSome = true ∧
      conn.history = { irs := packet.seqno, iss }

/-- The machine of one connection. -/
def connMachine : FaultMachine.Machine Fault Conn Label where
  initial := Conn.Initial
  step := Conn.step

end NetstackLwip

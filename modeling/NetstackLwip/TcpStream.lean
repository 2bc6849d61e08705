import NetstackLwip.TcpTimers

namespace NetstackLwip

/-!
# `tcp_stream.rs`

The poll functions and `Drop` of a `TcpStream`, on the pcb whose address the
stream holds. Each holds the lwIP lock, so it is one atomic step.
-/

open FaultState

/-- What a call of `poll_read` gives its caller: `ready` carries the bytes put
into the buffer. -/
inductive PollRead where
  | pending
  | ready (bytes : Bytes)
  | brokenPipe
  deriving DecidableEq, Repr

/-- What a call of `poll_write` gives its caller: the two errors carry the
messages `netstack tcp_write error` and `netstack tcp_output error`. -/
inductive PollWrite where
  | pending
  | ready (written : Nat)
  | writeError (err : Err)
  | outputError (err : Err)
  | brokenPipe
  deriving DecidableEq, Repr

/-- What `poll_flush` and `poll_shutdown` give their caller. -/
inductive PollUnit where
  | ready
  | interrupted (err : Err)
  | brokenPipe
  deriving DecidableEq, Repr

/-- What `poll_read` answers when `poll_recv` is Pending. -/
def readPending (taken : Bytes) (stream : TcpStream) : PollRead :=
  if !taken.isEmpty || stream.isEof then .ready taken else .pending

/--
The loop of `poll_read` over the chunks in the channel. `recvs` says of each
`poll_recv` whether it looks at the channel: the receiver of `tokio` gives the
chunks in order, and may be Pending though there is one. `taken` is what the
call has put into the buffer so far and `remaining` the room left there; the
stream comes without its channel. `recved` is `tcp_recved` on the pcb of the
stream, the only use of it.
-/
def pollReadLoop {Handle : Type} (recved : Handle → Nat → Lwip Handle) :
    List Bytes → List Bool → Nat → Bytes → TcpStream → Handle →
      Lwip (PollRead × TcpStream × Handle)
  | [], recvs, _, taken, stream, pcb =>
      let result :=
        if recvs.headD true && !stream.readTx then .brokenPipe
        else readPending taken stream
      pure (result, { stream with readRx := [] }, pcb)
  | data :: rest, recvs, remaining, taken, stream, pcb =>
      if !recvs.headD true then
        pure (readPending taken stream,
          { stream with readRx := data :: rest }, pcb)
      else if data.isEmpty then
        pure (.ready taken, { stream with readRx := rest, isEof := true }, pcb)
      else do
        let pcb ← recved pcb (data.length % 65536)
        let toRead := min remaining data.length
        let taken := taken ++ data.take toRead
        if toRead < data.length then
          pure (.ready taken, {
            stream with
            readRx := rest
            writeBuf := stream.writeBuf ++ data.drop toRead }, pcb)
        else
          pollReadLoop recved rest recvs.tail (remaining - toRead) taken stream
            pcb

/-- `poll_read` into a buffer with `remaining` bytes of room, on a stream that
is not `errored`. -/
def pollReadOn
    {Handle : Type}
    (recved : Handle → Nat → Lwip Handle)
    (recvs : List Bool)
    (remaining : Nat)
    (stream : TcpStream)
    (pcb : Handle) :
    Lwip (PollRead × TcpStream × Handle) := do
  if !stream.writeBuf.isEmpty then
    let toRead := min remaining stream.writeBuf.length
    pure (.ready (stream.writeBuf.take toRead),
      { stream with writeBuf := stream.writeBuf.drop toRead }, pcb)
  else
    pollReadLoop recved stream.readRx recvs remaining [] stream pcb

/-- `poll_read` on a stream with its pcb. -/
def pollReadPcb
    (recvs : List Bool)
    (remaining : Nat)
    (stream : TcpStream)
    (pcb : TcpPcb) :
    Lwip (PollRead × TcpStream × TcpPcb) :=
  pollReadOn (tcpRecved false) recvs remaining stream pcb

/-- `poll_read` on a stream whose pcb is freed: bytes from `write_buf`, and the
end of the peer's bytes, are answered without it. -/
def pollReadFreed
    (recvs : List Bool)
    (remaining : Nat)
    (stream : TcpStream) :
    Lwip (PollRead × TcpStream) := do
  let (result, stream, _) ←
    pollReadOn (fun _ _ => throw .danglingPcb) recvs remaining stream ()
  pure (result, stream)

/-- `poll_write`, on a stream that is not `errored`. -/
def pollWritePcb (buf : Bytes) (stream : TcpStream) (pcb : TcpPcb) :
    Lwip (PollWrite × TcpStream × TcpPcb) := do
  let toWrite := min buf.length pcb.sndBuf
  if toWrite = 0 then
    pure (.pending, { stream with writeWaker := true }, pcb)
  else do
    let (err, pcb) ← tcpWrite pcb (buf.take toWrite) false
    if err = .ok then do
      let (err, pcb) ← tcpOutput false pcb
      if err = .ok then
        pure (.ready toWrite, stream, pcb)
      else
        pure (.outputError err, stream, pcb)
    else if err = .mem then
      pure (.pending, { stream with writeWaker := true }, pcb)
    else
      pure (.writeError err, stream, pcb)

/-- `poll_flush`, on a stream that is not `errored`. -/
def pollFlushPcb (pcb : TcpPcb) : Lwip (PollUnit × TcpPcb) := do
  let (err, pcb) ← tcpOutput false pcb
  if err = .ok then pure (.ready, pcb) else pure (.interrupted err, pcb)

/-- `poll_shutdown`, on a stream that is not `errored`. -/
def pollShutdownPcb (stream : TcpStream) (pcb : TcpPcb) :
    Lwip (PollUnit × TcpStream × TcpPcb) := do
  let (err, pcb) ← tcpShutdownTx pcb
  if err = .ok then
    pure (.ready, { stream with closed := true }, pcb)
  else
    pure (.interrupted err, stream, pcb)

/-- `Drop` on a stream that is not `errored`: the pcb forgets the stream, and
is aborted unless `poll_shutdown` has succeeded before. -/
def dropPcb (stream : TcpStream) (pcb : TcpPcb) : Lwip (Option TcpPcb) := do
  let pcb := {
    pcb with
    callbackArg := .null
    recv := .none
    sent := false
    errf := false
    poll := false
    pollinterval := 0 }
  if stream.closed then
    pure (some pcb)
  else do
    tcpAbort false pcb
    pure none

end NetstackLwip

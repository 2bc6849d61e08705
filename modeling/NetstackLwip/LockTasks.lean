import Mathlib.Logic.Function.Basic
import NetstackLwip.FaultMachine

namespace NetstackLwip

/-!
# The crate's operations as tasks

Every public operation as the sequence of what it does with `LWIP_MUTEX`, with
lwIP and with the globals it shares with it, in the order of the source, and a
machine in which any number of tasks run such operations. What an lwIP call
calls back, and with what result it returns, is left open.
-/

open FaultMachine

/-! ## Instructions -/

/-- The functions of lwIP that the crate calls; `pcbFields` is an access to the
fields of a pcb. -/
inductive LwipFn where
  | lwipInit
  | sysCheckTimeouts
  | pbufAlloc
  | pbufAllocReference
  | pbufTake
  | pbufCopyPartial
  | pbufFree
  | inputFn
  | tcpNew
  | tcpBind
  | tcpListen
  | tcpArg
  | tcpAccept
  | tcpClose
  | tcpRecv
  | tcpSent
  | tcpErr
  | tcpPoll
  | tcpRecved
  | tcpWrite
  | tcpOutput
  | tcpShutdown
  | tcpAbort
  | udpNew
  | udpBind
  | udpRecv
  | udpRemove
  | udpSendto
  | pcbFields
  deriving DecidableEq, Repr

/-- What `LWIP_MUTEX` is there to protect. -/
inductive Access where
  | lwip (fn : LwipFn)
  | netifList
  | outputCbPtr
  deriving DecidableEq, Repr

/-- The callbacks that lwIP has been given. The argument of `tcp_accept_cb` is
a listener, which may be closed. -/
inductive Callback where
  | tcpAcceptCb (listener : Nat)
  | tcpRecvCb
  | tcpRecvCbEof
  | tcpSentCb
  | tcpErrCb
  | tcpPollCb
  | udpRecvCb
  | output
  deriving DecidableEq, Repr

/-- What a task does next. -/
inductive Instr where
  /-- `LWIP_MUTEX.lock()`. -/
  | acquire
  /-- The guard is dropped. -/
  | release
  | access (place : Access)
  /-- `unbounded_channel()` of a listener. -/
  | openChannel (listener : Nat)
  /-- `tcp_arg` on the pcb of a listener: its address, or null. -/
  | setArg (listener : Nat) (nonNull : Bool)
  /-- The caller gets its `TcpListener`. -/
  | hand (listener : Nat)
  | callback (callback : Callback)
  /-- `listener.sender.send(stream)`. -/
  | send (listener : Nat)
  /-- A stream is taken from the channel of a listener. -/
  | receive (listener : Nat)
  /-- `Drop` for `TcpStream`. -/
  | dropStream
  /-- The channel of a listener is dropped with what is in it. -/
  | dropChannel (listener : Nat)
  deriving DecidableEq, Repr

/-- A call of an lwIP function. -/
def Instr.lwip (fn : LwipFn) : Instr :=
  .access (.lwip fn)

/-- The task is in lwIP, in one of its callbacks, or at a shared global. -/
def Instr.inside : Instr → Bool
  | access _ => true
  | setArg _ _ => true
  | callback _ => true
  | send _ => true
  | _ => false

/-! ## The source's operations -/

/-- `TcpStream::new`. -/
def tcpStreamNew : List Instr :=
  [.lwip .pcbFields, .lwip .tcpArg, .lwip .tcpRecv, .lwip .tcpSent,
    .lwip .tcpErr, .lwip .tcpPoll, .lwip .pcbFields, .lwip .pcbFields]

/-- `Drop` for `TcpStream`. -/
def dropTcpStream (errored closed : Bool) : List Instr :=
  [.acquire] ++
    (if errored then
      []
    else
      [.lwip .tcpArg, .lwip .tcpRecv, .lwip .tcpSent, .lwip .tcpErr,
          .lwip .tcpPoll] ++
        if closed then [] else [.lwip .tcpAbort]) ++
    [.release]

/-- How `TcpListener::new` ends. -/
inductive ListenerResult where
  | ok
  | bindFailed
  | listenFailed
  deriving DecidableEq, Repr

/-- `TcpListener::new`. -/
def tcpListenerNew (listener : Nat) : ListenerResult → List Instr
  | .bindFailed => [.acquire, .lwip .tcpNew, .lwip .tcpBind, .release]
  | .listenFailed =>
      [.acquire, .lwip .tcpNew, .lwip .tcpBind, .lwip .tcpListen, .release]
  | .ok =>
      [.acquire, .lwip .tcpNew, .lwip .tcpBind, .lwip .tcpListen,
        .openChannel listener, .setArg listener true, .lwip .tcpAccept,
        .release]

/-- `Drop` for `TcpListener`, and then for its fields. -/
def dropTcpListener (listener : Nat) : List Instr :=
  [.acquire, .setArg listener false, .lwip .tcpAccept, .lwip .tcpClose,
    .release, .dropChannel listener]

/-- `Drop` for `UdpSocket`. -/
def dropUdpSocket : List Instr :=
  [.lwip .udpRecv, .lwip .udpRemove]

/-- `UdpSocket::new`; the socket is dropped if `udp_bind` fails. -/
def udpSocketNew (bound : Bool) : List Instr :=
  [.lwip .udpNew, .lwip .udpBind] ++
    if bound then [.lwip .udpRecv] else dropUdpSocket

/-- `NetStack::_new`, which initialises lwIP the first time. -/
def netStackNew' (first : Bool) : List Instr :=
  (if first then [.lwip .lwipInit] else []) ++
    [.access .netifList, .access .netifList, .access .netifList,
      .access .outputCbPtr]

/-- `Drop` for `NetStack`. -/
def dropNetStack : List Instr :=
  [.acquire, .access .outputCbPtr, .release]

/-- `NetStack::new` and `NetStack::with_buffer_size`; what is built already is
dropped if a later part fails. -/
def netStackNew
    (first : Bool)
    (listener : Nat)
    (result : ListenerResult)
    (bound : Bool) : List Instr :=
  netStackNew' first ++ tcpListenerNew listener result ++
    if result = .ok then
      udpSocketNew bound ++
        if bound then
          [.hand listener]
        else
          dropTcpListener listener ++ dropNetStack
    else
      dropNetStack

/-- How `poll_flush` of the Sink goes. -/
inductive FlushResult where
  /-- There is no item, or an empty one. -/
  | idle
  | noBuffer
  | noInput
  | taken
  | refused
  deriving DecidableEq, Repr

/-- `poll_flush` of the Sink. -/
def sinkPollFlush : FlushResult → List Instr
  | .idle => []
  | .noBuffer => [.acquire, .lwip .pbufAlloc, .release]
  | .noInput =>
      [.acquire, .lwip .pbufAlloc, .lwip .pbufTake, .access .netifList,
        .lwip .pbufFree, .release]
  | .taken =>
      [.acquire, .lwip .pbufAlloc, .lwip .pbufTake, .access .netifList,
        .access .netifList, .lwip .inputFn, .release]
  | .refused =>
      [.acquire, .lwip .pbufAlloc, .lwip .pbufTake, .access .netifList,
        .access .netifList, .lwip .inputFn, .lwip .pbufFree, .release]

/-- How `poll_write` goes. -/
inductive WriteResult where
  | errored
  /-- There is nothing to write, or no room. -/
  | noRoom
  | writeFailed
  | written
  deriving DecidableEq, Repr

/-- `poll_write`. -/
def streamPollWrite : WriteResult → List Instr
  | .errored => [.acquire, .release]
  | .noRoom => [.acquire, .lwip .pcbFields, .release]
  | .writeFailed =>
      [.acquire, .lwip .pcbFields, .lwip .tcpWrite, .release]
  | .written =>
      [.acquire, .lwip .pcbFields, .lwip .tcpWrite, .lwip .tcpOutput,
        .release]

/-- A public operation, with the results that decide its course. -/
inductive Operation where
  | netStackNew (first : Bool) (result : ListenerResult) (bound : Bool)
  | dropNetStack
  /-- One round of the timer task. -/
  | timer
  | sinkPollReady (result : FlushResult)
  | sinkPollFlush (result : FlushResult)
  | tcpListenerNew (result : ListenerResult)
  | dropTcpListener (listener : Nat)
  /-- `poll_next` of a listener finds a stream. -/
  | listenerPollNext (listener : Nat)
  | sendTo
  | dropUdpSocket
  /-- `chunks` is how many chunks leave the channel. -/
  | streamPollRead (chunks : Nat)
  | streamPollWrite (result : WriteResult)
  | streamPollFlush (errored : Bool)
  | streamPollShutdown (errored : Bool)
  | dropTcpStream
  /-- `start_send`, `poll_close`, `split`, and a `poll_next` that finds
  nothing or reads a channel of packets. -/
  | other
  deriving DecidableEq, Repr

/-- What an operation does; `listener` is where a `TcpListener` it makes will
be. -/
def Operation.code (listener : Nat) : Operation → List Instr
  | netStackNew first result bound =>
      NetstackLwip.netStackNew first listener result bound
  | dropNetStack => NetstackLwip.dropNetStack
  | timer => [.acquire, .lwip .sysCheckTimeouts, .release]
  | sinkPollReady result => NetstackLwip.sinkPollFlush result
  | sinkPollFlush result => NetstackLwip.sinkPollFlush result
  | tcpListenerNew result =>
      NetstackLwip.tcpListenerNew listener result ++
        if result = .ok then [.hand listener] else []
  | dropTcpListener listener => NetstackLwip.dropTcpListener listener
  | listenerPollNext listener => [.receive listener]
  | sendTo =>
      [.acquire, .lwip .pbufAllocReference, .lwip .udpSendto, .lwip .pbufFree,
        .release]
  | dropUdpSocket => NetstackLwip.dropUdpSocket
  | streamPollRead chunks =>
      [.acquire] ++ List.replicate chunks (.lwip .tcpRecved) ++ [.release]
  | streamPollWrite result => NetstackLwip.streamPollWrite result
  | streamPollFlush errored =>
      [.acquire] ++ (if errored then [] else [.lwip .tcpOutput]) ++ [.release]
  | streamPollShutdown errored =>
      [.acquire] ++ (if errored then [] else [.lwip .tcpShutdown]) ++
        [.release]
  | dropTcpStream => [.dropStream]
  | other => []

/-- What a callback does. A waker only schedules its task. -/
def Callback.code : Callback → List Instr
  | tcpAcceptCb listener => tcpStreamNew ++ [.send listener]
  | tcpRecvCb => [.lwip .pbufCopyPartial, .lwip .pbufFree]
  | udpRecvCb => [.lwip .pbufCopyPartial, .lwip .pbufFree]
  | output => [.lwip .pbufCopyPartial, .access .outputCbPtr]
  | _ => []

/-! ## The machine -/

/-- A listener: whether lwIP has its address, whether its channel is there and
how many streams are in it, and whether it belongs to the caller. -/
structure ListenerBox where
  armed : Bool := false
  receiver : Bool := false
  queued : Nat := 0
  owned : Bool := false
  deriving DecidableEq, Repr

/-- The tasks with what they have left to do, the holder of `LWIP_MUTEX`, and
the listeners. -/
structure Tasks where
  lock : Option Nat := none
  code : Nat → List Instr := fun _ => []
  listener : Nat → ListenerBox := fun _ => {}
  nextListener : Nat := 0

/-- A task starts an operation, or does what is next. `callbacks` is what an
lwIP call calls back, and the flags are those of a stream that is dropped. -/
inductive TaskEvent where
  | start (task : Nat) (operation : Operation)
  | run (task : Nat) (callbacks : List Callback) (errored closed : Bool)
  deriving DecidableEq, Repr

namespace Tasks

/-- The task goes on with `code`. -/
def goOn (tasks : Tasks) (task : Nat) (code : List Instr) : Tasks :=
  { tasks with code := Function.update tasks.code task code }

/-- A listener is changed. -/
def setListener
    (tasks : Tasks)
    (listener : Nat)
    (change : ListenerBox → ListenerBox) : Tasks :=
  { tasks with
    listener :=
      Function.update tasks.listener listener
        (change (tasks.listener listener)) }

/-- An idle task starts an operation. Only the owner of a listener can drop
it. -/
def start (tasks : Tasks) (task : Nat) (operation : Operation) :
    Except Unit Tasks :=
  if tasks.code task = [] then
    match operation with
    | .dropTcpListener listener =>
        if (tasks.listener listener).owned then
          .ok ((tasks.goOn task (dropTcpListener listener)).setListener
            listener fun box => { box with owned := false })
        else
          .error ()
    | _ =>
        .ok {
          tasks.goOn task (operation.code tasks.nextListener) with
          nextListener := tasks.nextListener + 1 }
  else
    .error ()

/-- The callbacks of a call come before the rest. -/
def call (callbacks : List Callback) (rest : List Instr) : List Instr :=
  callbacks.map .callback ++ rest

/-- What a task does when it runs one instruction before `rest`. -/
def execute
    (tasks : Tasks)
    (task : Nat)
    (callbacks : List Callback)
    (errored closed : Bool)
    (rest : List Instr) :
    Instr → Tasks
  | .acquire =>
      -- The spin lock is not re-entrant: a holder spins like all others.
      if tasks.lock = none then
        { tasks.goOn task rest with lock := some task }
      else
        tasks
  | .release => { tasks.goOn task rest with lock := none }
  | .access _ => tasks.goOn task (call callbacks rest)
  | .openChannel listener =>
      (tasks.goOn task rest).setListener listener fun box =>
        { box with receiver := true }
  | .setArg listener nonNull =>
      (tasks.goOn task rest).setListener listener fun box =>
        { box with armed := nonNull }
  | .hand listener =>
      (tasks.goOn task rest).setListener listener fun box =>
        { box with owned := true }
  | .callback (.tcpAcceptCb listener) =>
      -- A null argument ends the callback.
      if (tasks.listener listener).armed then
        tasks.goOn task ((Callback.tcpAcceptCb listener).code ++ rest)
      else
        tasks.goOn task rest
  | .callback callback => tasks.goOn task (callback.code ++ rest)
  | .send listener =>
      if (tasks.listener listener).receiver then
        (tasks.goOn task rest).setListener listener fun box =>
          { box with queued := box.queued + 1 }
      else
        -- The error carries the stream, and is dropped at once.
        tasks.goOn task (.dropStream :: rest)
  | .receive listener =>
      (tasks.goOn task rest).setListener listener fun box =>
        { box with queued := box.queued - 1 }
  | .dropStream =>
      tasks.goOn task (NetstackLwip.dropTcpStream errored closed ++ rest)
  | .dropChannel listener =>
      (tasks.goOn task
          (List.replicate (tasks.listener listener).queued .dropStream ++
            rest)).setListener listener fun box =>
        { box with receiver := false, queued := 0 }

/-- A task without anything left to do cannot run. -/
def step (tasks : Tasks) : TaskEvent → Except Unit Tasks
  | .start task operation => tasks.start task operation
  | .run task callbacks errored closed =>
      match tasks.code task with
      | [] => .error ()
      | instr :: rest =>
          .ok (tasks.execute task callbacks errored closed rest instr)

/-- Nobody is in an operation, and whatever listeners there are belong to their
callers. -/
structure AtRest (tasks : Tasks) : Prop where
  lock : tasks.lock = none
  code : ∀ task, tasks.code task = []
  receiver :
    ∀ listener, (tasks.listener listener).armed = true →
      (tasks.listener listener).receiver = true
  fresh :
    ∀ listener, tasks.nextListener ≤ listener →
      tasks.listener listener = {}

end Tasks

/-- The tasks of a process, from any moment of rest. -/
def taskMachine : Machine Unit Tasks TaskEvent where
  initial := Tasks.AtRest
  step := Tasks.step

end NetstackLwip

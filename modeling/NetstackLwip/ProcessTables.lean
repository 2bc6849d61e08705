import NetstackLwip.ReceiverRules
import NetstackLwip.UdpSockets

namespace NetstackLwip

/-!
# The tables of the process

The pools and lists of pcbs, `OUTPUT_CB_PTR`, and the functions that create and
drop stacks, listeners and sockets over them. A pcb is known by its address. On
the active and the TIME_WAIT list each pcb comes with its connection, which
moves as `Conn.step` says; what is left of a stream once its pcb is freed
touches no table.
-/

open FaultMachine

/-- `MEMP_NUM_TCP_PCB`. -/
def mempNumTcpPcb : Nat := 1024

/-- `MEMP_NUM_TCP_PCB_LISTEN`. -/
def mempNumTcpPcbListen : Nat := 8

/-- The outcomes of the allocations and output calls that one operation makes
for one pcb. -/
structure Chances where
  allocs : List Bool := []
  outputs : List Err := []

/-- An event with these outcomes. -/
def Chances.label (chances : Chances) (event : Event) : Label where
  event := event
  allocs := chances.allocs
  outputs := chances.outputs

/-- A pcb that is bound or listens. -/
structure PortPcb where
  addr : Nat
  localPort : BitVec 16
  deriving DecidableEq, Repr

/-- A pcb on the active or the TIME_WAIT list. `prio` is what `tcp_alloc` has
stored, since nothing calls `tcp_setprio`. -/
structure Link where
  addr : Nat
  prio : Nat
  conn : Conn

namespace Link

/-- `pcb->local_port`. -/
def localPort (link : Link) : BitVec 16 :=
  link.conn.pcb.elim 0 fun pcb => pcb.localPort

/-- Whether `pcb->state` is `state`. -/
def inState (state : TcpState) (link : Link) : Bool :=
  link.conn.pcb.any fun pcb => pcb.state == state

/-- Whether `pcb->listener` is the pcb at `addr`. -/
def ofListener (addr : Nat) (link : Link) : Bool :=
  link.conn.pcb.any fun pcb => pcb.listener == some addr

/-- `tcp_ticks - pcb->tmr`. -/
def inactivity (tcpTicks : BitVec 32) (link : Link) : BitVec 32 :=
  tcpTicks - link.conn.pcb.elim 0 fun pcb => pcb.tmr

end Link

/-- The search of `tcp_kill_state` and of `tcp_kill_timewait`: the pcb that has
been inactive for longest, the last one of several. -/
def oldest (tcpTicks : BitVec 32) :
    List Link → BitVec 32 → Option Link → Option Link
  | [], _, inactive => inactive
  | link :: rest, inactivity, inactive =>
      if inactivity ≤ link.inactivity tcpTicks then
        oldest tcpTicks rest (link.inactivity tcpTicks) (some link)
      else
        oldest tcpTicks rest inactivity inactive

/-- The search of `tcp_kill_prio`. -/
def leastPrio (tcpTicks : BitVec 32) :
    List Link → Nat → BitVec 32 → Option Link → Option Link
  | [], _, _, inactive => inactive
  | link :: rest, mprio, inactivity, inactive =>
      if link.prio < mprio ∨
          link.prio = mprio ∧ inactivity ≤ link.inactivity tcpTicks then
        leastPrio tcpTicks rest link.prio (link.inactivity tcpTicks)
          (some link)
      else
        leastPrio tcpTicks rest mprio inactivity inactive

/-- One event at each connection of a list that has a label. -/
def eventAtEach (label : Link → Option Label) :
    List Link → Except Fault (List Link)
  | [] => .ok []
  | link :: rest => do
      let conn ← (label link).elim (.ok link.conn) link.conn.step
      let rest ← eventAtEach label rest
      pure ({ link with conn } :: rest)

/-- The pools of TCP pcbs, the four lists of `tcp.c`, the UDP side,
`OUTPUT_CB_PTR`, `tcp_port`, `tcp_ticks`, and the stacks that are alive. A
listening pcb belongs to a live `TcpListener`. -/
structure Process where
  tcpPool : List Nat
  listenPool : List Nat
  boundPcbs : List PortPcb := []
  listenPcbs : List PortPcb := []
  activePcbs : List Link := []
  twPcbs : List Link := []
  udp : UdpTable
  outputCbPtr : Nat := 0
  tcpPort : BitVec 16
  tcpTicks : BitVec 32 := 0
  netStacks : List Nat := []

namespace Process

/-! ## Making room for a pcb -/

/-- `memp_malloc(MEMP_TCP_PCB)`. -/
def mallocPcb (process : Process) : Option Nat × Process :=
  match process.tcpPool with
  | [] => (none, process)
  | addr :: rest => (some addr, { process with tcpPool := rest })

/-- `tcp_handle_closepend`. -/
def tcpHandleClosepend
    (retries : Nat → Chances)
    (process : Process) :
    Except Fault Process := do
  let activePcbs ←
    eventAtEach
      (fun link => some ((retries link.addr).label .handleClosepend))
      process.activePcbs
  pure { process with activePcbs }

/-- `tcp_abandon`: the pcb leaves its list for the pool. -/
def tcpAbandonLink
    (link : Link)
    (reset : Bool)
    (kill : Chances)
    (process : Process) :
    Except Fault Process :=
  match link.conn.pcb with
  | none => .ok process
  | some pcb => do
      let _ ←
        tcpAbandon false pcb reset ((kill.label .kill).enter link.conn.world)
      if pcb.state = .timeWait then
        pure { process with
          twPcbs :=
            process.twPcbs.eraseP fun other => other.addr == link.addr
          tcpPool := link.addr :: process.tcpPool }
      else
        pure { process with
          activePcbs :=
            process.activePcbs.eraseP fun other => other.addr == link.addr
          tcpPool := link.addr :: process.tcpPool }

/-- `tcp_kill_timewait`. -/
def tcpKillTimewait
    (kill : Chances)
    (process : Process) :
    Except Fault Process :=
  (oldest process.tcpTicks process.twPcbs 0 none).elim (.ok process)
    fun link => process.tcpAbandonLink link true kill

/-- `tcp_kill_state`. -/
def tcpKillState
    (state : TcpState)
    (kill : Chances)
    (process : Process) :
    Except Fault Process :=
  (oldest process.tcpTicks (process.activePcbs.filter (Link.inState state)) 0
      none).elim (.ok process)
    fun link => process.tcpAbandonLink link false kill

/-- `tcp_kill_prio`. -/
def tcpKillPrio
    (prio : Nat)
    (kill : Chances)
    (process : Process) :
    Except Fault Process :=
  if min tcpPrioMax prio = 0 then
    .ok process
  else
    (leastPrio process.tcpTicks process.activePcbs (min tcpPrioMax prio - 1) 0
        none).elim (.ok process)
      fun link => process.tcpAbandonLink link true kill

/-- Where an allocation has failed, make room and try again. -/
def mallocAfter
    (makeRoom : Process → Except Fault Process)
    (attempt : Option Nat × Process) :
    Except Fault (Option Nat × Process) :=
  match attempt.1 with
  | some _ => .ok attempt
  | none => do
      let process ← makeRoom attempt.2
      pure process.mallocPcb

/-- `tcp_alloc`; `none` is the null pointer. No more than one pcb is killed in
a call, with the outcomes of `kill`. -/
def tcpAlloc
    (prio : Nat)
    (retries : Nat → Chances)
    (kill : Chances)
    (process : Process) :
    Except Fault (Option Nat × Process) := do
  let attempt := process.mallocPcb
  let attempt ←
    mallocAfter
      (fun process => do
        let process ← process.tcpHandleClosepend retries
        process.tcpKillTimewait kill)
      attempt
  let attempt ← mallocAfter (tcpKillState .lastAck kill) attempt
  let attempt ← mallocAfter (tcpKillState .closing kill) attempt
  mallocAfter (tcpKillPrio prio kill) attempt

/-! ## Binding and listening -/

/-- The local ports on the four lists. -/
def tcpPorts (process : Process) : List (BitVec 16) :=
  process.listenPcbs.map PortPcb.localPort ++
    process.boundPcbs.map PortPcb.localPort ++
    process.activePcbs.map Link.localPort ++
    process.twPcbs.map Link.localPort

/-- The step of `tcp_port` in `tcp_new_port`. -/
def nextTcpPort (port : BitVec 16) : BitVec 16 :=
  if port + 1 = 0xffff then 0xc000 else port + 1

/-- `tcp_new_port`: the port and the counter it leaves. -/
def tcpNewPort (process : Process) : BitVec 16 × BitVec 16 :=
  newPort nextTcpPort process.tcpPorts 0x4000 process.tcpPort

/-- `tcp_bind` of a new pcb to any address and port 0, where `LWIP_ERROR`
aborts on a null pcb. -/
def tcpBind
    (process : Process)
    (pcb : Option Nat) :
    Except Fault (Except CreateErr PortPcb × Process) :=
  match pcb with
  | none => .error .bindNull
  | some addr =>
      let (port, tcpPort) := process.tcpNewPort
      if port = 0 then
        .ok (.error .buf, { process with tcpPort })
      else
        .ok (.ok ⟨addr, port⟩, {
          process with
          tcpPort
          boundPcbs := ⟨addr, port⟩ :: process.boundPcbs })

/-- `tcp_listen_with_backlog_and_err` on a bound pcb. -/
def tcpListenWithBacklogAndErr
    (process : Process)
    (pcb : PortPcb) :
    Except CreateErr Nat × Process :=
  match process.listenPool with
  | [] => (.error .mem, process)
  | lpcb :: rest =>
      (.ok lpcb, {
        process with
        listenPool := rest
        boundPcbs :=
          process.boundPcbs.eraseP fun other => other.addr == pcb.addr
        tcpPool := pcb.addr :: process.tcpPool
        listenPcbs := ⟨lpcb, pcb.localPort⟩ :: process.listenPcbs })

/-- `tcp_listen_closed` on one list. -/
def tcpListenClosed (addr : Nat) : List Link → Except Fault (List Link) :=
  eventAtEach fun link =>
    if link.ofListener addr then
      some (Chances.label {} .dropListener)
    else
      none

/-! ## The constructors and drops of the crate -/

/-- `TcpListener::new`. -/
def newListener
    (retries : Nat → Chances)
    (kill : Chances)
    (process : Process) :
    Except Fault (Except CreateErr Nat × Process) := do
  let (tpcb, process) ← process.tcpAlloc tcpPrioNormal retries kill
  let (bound, process) ← process.tcpBind tpcb
  match bound with
  | .error err => pure (.error err, process)
  | .ok pcb => pure (process.tcpListenWithBacklogAndErr pcb)

/-- `Drop` for the `TcpListener` at `addr`: `tcp_close` of a listening pcb. -/
def dropListener (addr : Nat) (process : Process) : Except Fault Process := do
  let activePcbs ← tcpListenClosed addr process.activePcbs
  let twPcbs ← tcpListenClosed addr process.twPcbs
  pure {
    process with
    activePcbs
    twPcbs
    listenPcbs := process.listenPcbs.eraseP fun other => other.addr == addr
    listenPool := addr :: process.listenPool }

/-- `Drop` for `NetStack`. -/
def dropNetStack (stack : Nat) (process : Process) : Process :=
  { process with
    outputCbPtr := 0
    netStacks := process.netStacks.erase stack }

/-- `NetStack::new` and `NetStack::with_buffer_size`, with the address of the
new box: where a later part fails, the parts already built are dropped. -/
def newNetStack
    (stack : Nat)
    (retries : Nat → Chances)
    (kill : Chances)
    (process : Process) :
    Except Fault (Option CreateErr × Process) := do
  let process :=
    { process with outputCbPtr := stack, netStacks := stack :: process.netStacks }
  let (listener, process) ← process.newListener retries kill
  match listener with
  | .error err => pure (some err, process.dropNetStack stack)
  | .ok lpcb => do
      let (err, udp) ← process.udp.newSocket
      match err with
      | none => pure (none, { process with udp })
      | some err => do
          let process ← dropListener lpcb { process with udp }
          pure (some err, process.dropNetStack stack)

/-! ## The connections -/

/-- What becomes of an active pcb after an event. -/
def activeAfter (process : Process) (link : Link) (conn : Conn) : Process :=
  let others := process.activePcbs.eraseP fun other => other.addr == link.addr
  match conn.pcb with
  | none =>
      { process with
        activePcbs := others
        tcpPool := link.addr :: process.tcpPool }
  | some pcb =>
      if pcb.state = .timeWait then
        { process with
          activePcbs := others
          twPcbs := { link with conn } :: process.twPcbs }
      else
        { process with
          activePcbs := process.activePcbs.map fun other =>
            if other.addr = link.addr then { link with conn } else other }

/-- What becomes of a pcb in TIME_WAIT after an event. -/
def twAfter (process : Process) (link : Link) (conn : Conn) : Process :=
  match conn.pcb with
  | none =>
      { process with
        twPcbs := process.twPcbs.eraseP fun other => other.addr == link.addr
        tcpPool := link.addr :: process.tcpPool }
  | some _ =>
      { process with
        twPcbs := process.twPcbs.map fun other =>
          if other.addr = link.addr then { link with conn } else other }

/-- An event at the pcb with an address. -/
def atConnection
    (addr : Nat)
    (label : Label)
    (process : Process) :
    Except Fault Process :=
  match process.activePcbs.find? fun link => link.addr == addr with
  | some link => do
      let conn ← link.conn.step label
      pure (process.activeAfter link conn)
  | none =>
      match process.twPcbs.find? fun link => link.addr == addr with
      | some link => do
          let conn ← link.conn.step label
          pure (process.twAfter link conn)
      | none => .ok process

/-- `tcp_slowtmr` over both lists. -/
def tcpSlowtmr
    (chances : Nat → Chances)
    (process : Process) :
    Except Fault Process :=
  (process.activePcbs ++ process.twPcbs).foldlM
    (fun process link =>
      process.atConnection link.addr
        ((chances link.addr).label .slowtmr))
    { process with tcpTicks := process.tcpTicks + 1 }

/-- `tcp_listen_input` for a SYN at a listening pcb. -/
def tcpListenInput
    (listener : Nat)
    (packet : InPacket)
    (iss : SeqNo)
    (mtu6 : Mtu6)
    (chances : Nat → Chances)
    (retries : Nat → Chances)
    (kill : Chances)
    (process : Process) :
    Except Fault Process := do
  let (npcb, process) ← process.tcpAlloc tcpPrioNormal retries kill
  match npcb with
  | none => pure process
  | some addr => do
      let world : World := {
        tcpTicks := process.tcpTicks
        pcbAddr := addr
        mtu6
        allocs := (chances addr).allocs
        outputs := (chances addr).outputs
        listeners := [listener] }
      let (pcb, world) ←
        tcpListenInputSyn packet.toPacket (.listener listener) listener iss
          world
      match pcb with
      | none => pure { process with tcpPool := addr :: process.tcpPool }
      | some pcb =>
          let conn : Conn := {
            world
            pcb := some pcb
            history := { irs := packet.seqno, iss } }
          pure {
            process with
            activePcbs := ⟨addr, tcpPrioNormal, conn⟩ :: process.activePcbs }

end Process

/-! ## The machine -/

/-- What can happen in the process. `connection` stands for every event that
one connection has to itself. -/
inductive ProcessEvent where
  | newNetStack (stack : Nat)
  | dropNetStack (stack : Nat)
  | dropListener (addr : Nat)
  | udp (event : UdpEvent)
  | listenInput
      (listener : Nat) (packet : InPacket) (iss : SeqNo) (mtu6 : Mtu6)
  | slowtmr
  | connection (addr : Nat) (event : Event)

/-- An event with the outcomes the environment gives its calls: for each pcb,
for each FIN that is tried again in `tcp_alloc`, and for the pcb killed
there. -/
structure ProcessLabel where
  event : ProcessEvent
  chances : Nat → Chances := fun _ => {}
  retries : Nat → Chances := fun _ => {}
  kill : Chances := {}

/-- The events that come to several connections at once, or from `tcp_alloc`,
are not a connection's own. -/
def Event.own : Event → Bool
  | .slowtmr => false
  | .dropListener => false
  | .handleClosepend => false
  | .kill => false
  | _ => true

/-- A SYN that opens a connection. -/
def InPacket.opens (packet : InPacket) : Bool :=
  packet.flags.syn && !packet.flags.ack && !packet.flags.rst

/-- An event that cannot happen, for want of its handle, changes nothing. A
new box is not null, and not where another live one is. -/
def Process.step
    (process : Process)
    (label : ProcessLabel) :
    Except Fault Process :=
  match label.event with
  | .newNetStack stack =>
      if stack = 0 ∨ stack ∈ process.netStacks then
        .ok process
      else do
        let result ← process.newNetStack stack label.retries label.kill
        pure result.2
  | .dropNetStack stack =>
      if stack ∈ process.netStacks then
        .ok (process.dropNetStack stack)
      else
        .ok process
  | .dropListener addr =>
      if addr ∈ process.listenPcbs.map PortPcb.addr then
        process.dropListener addr
      else
        .ok process
  | .udp event =>
      match event, process.udp.step event with
      | .new, _ => .ok process
      | _, .error _ => .ok process
      | _, .ok udp => .ok { process with udp }
  | .listenInput listener packet iss mtu6 =>
      if packet.opens ∧ listener ∈ process.listenPcbs.map PortPcb.addr then
        process.tcpListenInput listener packet iss mtu6 label.chances
          label.retries label.kill
      else
        .ok process
  | .slowtmr => process.tcpSlowtmr label.chances
  | .connection addr event =>
      if event.own then
        process.atConnection addr ((label.chances addr).label event)
      else
        .ok process

/-- After `lwip_init`, which the first `NetStack::new` runs: the pools hold
their elements, wherever they lie, and `tcp_port` is random. -/
structure Process.Initial (process : Process) : Prop where
  tcp : process.tcpPool.length = mempNumTcpPcb
  listen : process.listenPool.length = mempNumTcpPcbListen
  distinct : (process.tcpPool ++ process.listenPool).Nodup
  udp : process.udp.Initial
  range : 0xc000 ≤ process.tcpPort
  fresh :
    process = {
      tcpPool := process.tcpPool
      listenPool := process.listenPool
      udp := process.udp
      tcpPort := process.tcpPort }

/-- The machine of the process. -/
def processMachine : Machine Fault Process ProcessLabel where
  initial := Process.Initial
  step := Process.step

end NetstackLwip

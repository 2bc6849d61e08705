import NetstackLwip.ProcessLists

namespace NetstackLwip

/-!
# A creation that fails

What `NetStack::new` leaves behind when one of its parts cannot be built,
compared with the pools and lists before it.
-/

open FaultMachine

namespace Process

/-! ## What a failed creation undoes -/

/-- The pools and the lists of pcbs with what they hold, in order, and
`OUTPUT_CB_PTR`. -/
structure Tables where
  tcpPool : List Nat
  listenPool : List Nat
  udpPool : List Nat
  bound : List PortPcb
  listening : List PortPcb
  active : List Nat
  timeWait : List Nat
  udpPcbs : List UdpPcb
  outputCbPtr : Nat
  deriving DecidableEq, Repr

/-- The tables of a process. -/
def tables (process : Process) : Tables where
  tcpPool := process.tcpPool
  listenPool := process.listenPool
  udpPool := process.udp.pool
  bound := process.boundPcbs
  listening := process.listenPcbs
  active := process.activePcbs.map Link.addr
  timeWait := process.twPcbs.map Link.addr
  udpPcbs := process.udp.udpPcbs
  outputCbPtr := process.outputCbPtr

/-- The TCP pcbs that are free or belong to a connection. -/
def Tables.tcpPcbs (tables : Tables) : Nat :=
  tables.tcpPool.length + tables.active.length + tables.timeWait.length

theorem tables_tcpPcbs (process : Process) :
    process.tables.tcpPcbs = process.tcpPcbs := by
  simp [Tables.tcpPcbs, tables, Process.tcpPcbs]

end Process

/-- In every reachable state, a creation that returns an error has been refused
its listener: the output is cleared, one TCP pcb is lost, and the tables are
not those before it. -/
theorem failed_creation_never_undone
    {before after : Process}
    {stack : Nat}
    {retries : Nat → Chances}
    {kill : Chances}
    {err : CreateErr}
    (reached : processMachine.Reached before)
    (failed : before.newNetStack stack retries kill = .ok (some err, after)) :
    (err = .buf ∨ err = .mem) ∧
      after.outputCbPtr = 0 ∧
      after.tcpPcbs + 1 = before.tcpPcbs ∧
      after.tables ≠ before.tables := by
  have sound := Process.sound_reached reached
  obtain ⟨cause, cleared, lost⟩ :=
    (Process.newNetStack_cases sound failed).2 err rfl
  refine ⟨cause, cleared, lost, fun same => ?_⟩
  have counted := congrArg Process.Tables.tcpPcbs same
  rw [Process.tables_tcpPcbs, Process.tables_tcpPcbs] at counted
  omega

/-- A process with its pools at some addresses, and a port that `tcp_init` has
drawn. -/
def exampleProcess (tcpPort : BitVec 16) : Process where
  tcpPool := List.range' 1 mempNumTcpPcb
  listenPool := List.range' 1025 mempNumTcpPcbListen
  udp := fourUdpPcbs
  tcpPort := tcpPort

theorem exampleProcess_initial
    {tcpPort : BitVec 16}
    (range : 0xc000 ≤ tcpPort) :
    (exampleProcess tcpPort).Initial where
  tcp := List.length_range'
  listen := List.length_range'
  distinct := by
    have all :
        (exampleProcess tcpPort).tcpPool ++
            (exampleProcess tcpPort).listenPool =
          List.range' 1 1032 := List.range'_append_1
    rw [all]
    exact List.nodup_range'
  udp := fourUdpPcbs_initial
  range := range
  fresh := rfl

/-- Another creation fails, and the processes before and after pass a check. -/
def Process.failsWith
    (check : Process → Process → Bool)
    (process : Process) : Bool :=
  match process.newNetStack 109 (fun _ => {}) {} with
  | .ok (some _, after) => check process after
  | _ => false

theorem exists_failed_creation
    (labels : List ProcessLabel)
    (check : Process → Process → Bool)
    {start : Process}
    (initial : start.Initial)
    (ran :
      (processMachine.runUnder (fun _ _ => true) start labels).any
        (Process.failsWith check) = true) :
    ∃ before after err,
      processMachine.Reached before ∧
        before.newNetStack 109 (fun _ => {}) {} = .ok (some err, after) ∧
        check before after = true := by
  cases last : processMachine.runUnder (fun _ _ => true) start labels with
  | none =>
      simp [last] at ran
  | some before =>
      rw [last, Option.any_some] at ran
      have reached : processMachine.Reached before :=
        .of_run (fun _ _ _ => trivial) (.start initial) last
      unfold Process.failsWith at ran
      split at ran
      · rename_i err after failed
        exact ⟨before, after, err, reached, failed, ran⟩
      · cases ran

/-- The first creation finds no port where `tcp_init` has drawn the last one:
the counter goes on to 0. -/
theorem failed_creation_never_undone_first :
    ∃ before after err,
      processMachine.Reached before ∧
        before.newNetStack 109 (fun _ => {}) {} = .ok (some err, after) ∧
        before.tcpPort = 0xffff ∧
        (err = .buf ∨ err = .mem) ∧
        after.outputCbPtr = 0 ∧
        after.tcpPcbs + 1 = before.tcpPcbs ∧
        after.tables ≠ before.tables := by
  obtain ⟨before, after, err, reached, failed, last⟩ :=
    exists_failed_creation []
      (fun before _ => decide (before.tcpPort = 0xffff))
      (@exampleProcess_initial 0xffff (by decide)) (by decide +kernel)
  exact ⟨before, after, err, reached, failed, of_decide_eq_true last,
    failed_creation_never_undone reached failed⟩

/-- Eight stacks, each of which has its socket dropped, take all listening
pcbs. -/
def eightStacks : List ProcessLabel :=
  (List.range 8).flatMap fun n =>
    [{ event := .newNetStack (101 + n) }, { event := .udp (.dropSocket n) }]

/-- The ninth creation finds no listening pcb, and takes the output away from
the stack that had it and is still there. -/
theorem failed_creation_clears_output :
    ∃ before after err,
      processMachine.Reached before ∧
        before.newNetStack 109 (fun _ => {}) {} = .ok (some err, after) ∧
        before.outputCbPtr = 108 ∧ 108 ∈ after.netStacks ∧
        after.outputCbPtr = 0 ∧ after.tables ≠ before.tables := by
  obtain ⟨before, after, err, reached, failed, lost⟩ :=
    exists_failed_creation eightStacks
      (fun before after =>
        decide (before.outputCbPtr = 108 ∧ 108 ∈ after.netStacks ∧
          after.outputCbPtr = 0))
      (@exampleProcess_initial 0xc000 (by decide)) (by decide +kernel)
  rw [decide_eq_true_iff] at lost
  obtain ⟨held, alive, cleared⟩ := lost
  refine ⟨before, after, err, reached, failed, held, alive, cleared,
    fun same => ?_⟩
  have stored : after.outputCbPtr = before.outputCbPtr :=
    congrArg Process.Tables.outputCbPtr same
  rw [held, cleared] at stored
  cases stored

end NetstackLwip

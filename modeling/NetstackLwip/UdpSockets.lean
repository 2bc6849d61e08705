import Mathlib.Data.List.Nodup
import Mathlib.Data.List.Perm.Subperm
import NetstackLwip.FaultMachine
import NetstackLwip.TcpTypes

namespace NetstackLwip

/-!
# UDP sockets and their pcbs

`udp.rs` over the pool and the list of `udp.c`. A pcb is known by its address;
a `SendHalf` keeps a copy of it, while the `UdpSocket` that owns the pcb moves
into the `RecvHalf`, whose drop gives the pcb back to the pool.
-/

open FaultMachine

/-- `MEMP_NUM_UDP_PCB`. -/
def mempNumUdpPcb : Nat := 4

/-- The errors that the constructors pass on in `Error::LwIP`: `ERR_USE`,
`ERR_BUF` and `ERR_MEM`. -/
inductive CreateErr where
  | inUse
  | buf
  | mem
  deriving DecidableEq, Repr

/-- Search for a local port: `next` steps the counter, and after `rounds`
ports that are in use the search gives up with port 0. The second component is
the counter afterwards. -/
def newPort
    (next : BitVec 16 → BitVec 16)
    (used : List (BitVec 16)) :
    Nat → BitVec 16 → BitVec 16 × BitVec 16
  | 0, port => (0, port)
  | rounds + 1, port =>
      if used.contains (next port) then
        newPort next used rounds (next port)
      else
        (next port, next port)

/-- A `udp_pcb` on `udp_pcbs`: `recvArg` is the socket that `udp_recv` has
registered. -/
structure UdpPcb where
  addr : Nat
  localPort : BitVec 16
  recvArg : Option Nat := none
  deriving DecidableEq, Repr

/-- A live `Pin<Box<UdpSocket>>`, alone or inside a `RecvHalf`. -/
structure UdpBox where
  id : Nat
  pcb : Nat
  split : Bool := false
  deriving DecidableEq, Repr

/-- A live `SendHalf`. Of the two fields only `pcb` is in the source; `socket`
remembers where the half came from. -/
structure SendHalf where
  socket : Nat
  pcb : Nat
  deriving DecidableEq, Repr

/-- The UDP side of the process: the free list of the pool, `udp_pcbs`,
`udp_port` and the handles that are alive, newest first. -/
structure UdpTable where
  pool : List Nat
  udpPcbs : List UdpPcb := []
  udpPort : BitVec 16 := 0xc000
  boxes : List UdpBox := []
  sendHalves : List SendHalf := []
  nextSocket : Nat := 0
  deriving DecidableEq, Repr

namespace UdpTable

/-! ## `udp.c` -/

/-- `udp_new`; 0 is the null pointer. -/
def udpNew (udp : UdpTable) : Nat × UdpTable :=
  match udp.pool with
  | [] => (0, udp)
  | addr :: rest => (addr, { udp with pool := rest })

/-- The step of `udp_port` in `udp_new_port`. -/
def nextUdpPort (port : BitVec 16) : BitVec 16 :=
  if port = 0xffff then 0xc000 else port + 1

/-- `udp_new_port`: the port and the counter it leaves. -/
def udpNewPort (udp : UdpTable) : BitVec 16 × BitVec 16 :=
  newPort nextUdpPort (udp.udpPcbs.map UdpPcb.localPort) 0x4000 udp.udpPort

/-- `udp_bind` to any address and port 0, where `LWIP_ERROR` aborts on a null
pcb. A pcb that is on the list already stays where it is. -/
def udpBind
    (udp : UdpTable)
    (pcb : Nat) :
    Except Fault (Option CreateErr × UdpTable) :=
  if pcb = 0 then
    .error .bindNull
  else if udp.udpNewPort.1 = 0 then
    .ok (some .inUse, { udp with udpPort := udp.udpNewPort.2 })
  else if udp.udpPcbs.any (fun other => other.addr == pcb) then
    .ok (none, {
      udp with
      udpPort := udp.udpNewPort.2
      udpPcbs := udp.udpPcbs.map fun other =>
        if other.addr = pcb then
          { other with localPort := udp.udpNewPort.1 }
        else
          other })
  else
    .ok (none, {
      udp with
      udpPort := udp.udpNewPort.2
      udpPcbs :=
        { addr := pcb, localPort := udp.udpNewPort.1 } :: udp.udpPcbs })

/-- `udp_recv`; what it stores matters on a listed pcb only. -/
def udpRecv (udp : UdpTable) (pcb : Nat) (arg : Option Nat) : UdpTable :=
  if pcb = 0 then
    udp
  else
    { udp with
      udpPcbs := udp.udpPcbs.map fun other =>
        if other.addr = pcb then { other with recvArg := arg } else other }

/-- `udp_remove`. -/
def udpRemove (udp : UdpTable) (pcb : Nat) : UdpTable :=
  if pcb = 0 then
    udp
  else
    { udp with
      udpPcbs := udp.udpPcbs.eraseP fun other => other.addr == pcb
      pool := pcb :: udp.pool }

/-- The registered pcb that `udp_sendto` works on when it is given `pcb`. It
reads the pcb, which has a local port since `UdpSocket::new`, and changes
none. -/
def udpSendto (udp : UdpTable) (pcb : Nat) : Option UdpPcb :=
  udp.udpPcbs.find? fun other => other.addr == pcb

/-! ## `udp.rs` -/

/-- `Drop` for the `UdpSocket` that stores `pcb`. -/
def dropSocket (udp : UdpTable) (pcb : Nat) : UdpTable :=
  (udp.udpRecv pcb none).udpRemove pcb

/-- `UdpSocket::new`: a socket whose pcb cannot be bound is dropped again. -/
def newSocket
    (udp : UdpTable) :
    Except Fault (Option CreateErr × UdpTable) := do
  let (pcb, udp) := udp.udpNew
  let (err, udp) ← udp.udpBind pcb
  match err with
  | some err => pure (some err, udp.dropSocket pcb)
  | none =>
      let udp := udp.udpRecv pcb (some udp.nextSocket)
      pure (none, {
        udp with
        boxes := { id := udp.nextSocket, pcb } :: udp.boxes
        nextSocket := udp.nextSocket + 1 })

/-- `split`. -/
def splitBox (udp : UdpTable) (box : UdpBox) : UdpTable :=
  { udp with
    boxes := udp.boxes.map fun other =>
      if other.id = box.id then { other with split := true } else other
    sendHalves := ⟨box.id, box.pcb⟩ :: udp.sendHalves }

/-- The end of a socket, dropped itself or with its `RecvHalf`. -/
def dropBox (udp : UdpTable) (box : UdpBox) : UdpTable :=
  let udp := udp.dropSocket box.pcb
  { udp with boxes := udp.boxes.filter fun other => other.id != box.id }

end UdpTable

/-- What the owners of the handles can do. -/
inductive UdpEvent where
  | new
  | split (socket : Nat)
  | sendTo (socket : Nat)
  | dropSendHalf (socket : Nat)
  | dropRecvHalf (socket : Nat)
  | dropSocket (socket : Nat)
  deriving DecidableEq, Repr

namespace UdpTable

/-- The box of a socket, as far as it is in the hands its event needs. -/
def findBox (udp : UdpTable) (socket : Nat) (split : Bool) : Option UdpBox :=
  udp.boxes.find? fun box => box.id == socket && box.split == split

/-- The half that came from a socket. -/
def findHalf (udp : UdpTable) (socket : Nat) : Option SendHalf :=
  udp.sendHalves.find? fun half => half.socket == socket

/-- An event needs its handle, and a call that aborts leads nowhere. -/
def step (udp : UdpTable) : UdpEvent → Except Unit UdpTable
  | .new =>
      match udp.newSocket with
      | .error _ => .error ()
      | .ok (_, udp) => .ok udp
  | .split socket =>
      (udp.findBox socket false).elim (.error ()) fun box =>
        .ok (udp.splitBox box)
  | .sendTo socket =>
      (udp.findHalf socket).elim (.error ()) fun _ => .ok udp
  | .dropSendHalf socket =>
      (udp.findHalf socket).elim (.error ()) fun half =>
        .ok { udp with sendHalves := udp.sendHalves.erase half }
  | .dropRecvHalf socket =>
      (udp.findBox socket true).elim (.error ()) fun box =>
        .ok (udp.dropBox box)
  | .dropSocket socket =>
      (udp.findBox socket false).elim (.error ()) fun box =>
        .ok (udp.dropBox box)

/-- After `memp_init` and `udp_init`: the pool holds its elements, wherever
they lie, and `udp_port` is random. -/
structure Initial (udp : UdpTable) : Prop where
  size : udp.pool.length = mempNumUdpPcb
  distinct : udp.pool.Nodup
  notNull : 0 ∉ udp.pool
  fresh : udp = { pool := udp.pool, udpPort := udp.udpPort }

end UdpTable

/-- The machine of the UDP handles. -/
def udpMachine : Machine Unit UdpTable UdpEvent where
  initial := UdpTable.Initial
  step := UdpTable.step

/-! ## Who owns which pcb -/

namespace UdpTable

/-- The addresses of all elements of the pool, free or on the list. -/
def addrs (udp : UdpTable) : List Nat :=
  udp.pool ++ udp.udpPcbs.map UdpPcb.addr

/-- The pcbs on the list belong to the live sockets, one to one, and no
address is in two places. -/
structure Sound (udp : UdpTable) : Prop where
  owners :
    udp.udpPcbs.map (fun pcb => (pcb.recvArg, pcb.addr)) =
      udp.boxes.map fun box => (some box.id, box.pcb)
  size : udp.addrs.length = mempNumUdpPcb
  distinct : udp.addrs.Nodup
  notNull : 0 ∉ udp.addrs
  ids : (udp.boxes.map UdpBox.id).Nodup
  fresh : ∀ box ∈ udp.boxes, box.id < udp.nextSocket
  halves :
    ∀ half ∈ udp.sendHalves,
      half.socket < udp.nextSocket ∧
        ∀ box ∈ udp.boxes, box.id = half.socket → box.pcb = half.pcb

/-- The pcb that a half sends through is registered, and owned by the live
socket that the half came from. -/
def Owns (udp : UdpTable) (half : SendHalf) : Prop :=
  (∃ pcb,
      udp.udpSendto half.pcb = some pcb ∧ pcb.recvArg = some half.socket) ∧
    ∃ box ∈ udp.boxes, box.id = half.socket ∧ box.pcb = half.pcb

/-- The `RecvHalf` that a half was split from is still there. -/
def RecvAlive (udp : UdpTable) (half : SendHalf) : Prop :=
  ∃ box ∈ udp.boxes, box.id = half.socket

theorem sound_initial
    {udp : UdpTable}
    (initial : udp.Initial) :
    udp.Sound := by
  have fresh := initial.fresh
  have size := initial.size
  have distinct := initial.distinct
  have notNull := initial.notNull
  rw [fresh]
  constructor
  case size => simpa [addrs] using size
  case distinct => simpa [addrs] using distinct
  case notNull => simpa [addrs] using notNull
  all_goals simp

/-- A change of the pcbs at an address leaves a list without it alone. -/
theorem map_elsewhere
    {pcbs : List UdpPcb}
    {addr : Nat}
    (absent : addr ∉ pcbs.map UdpPcb.addr)
    (change : UdpPcb → UdpPcb) :
    (pcbs.map fun pcb => if pcb.addr = addr then change pcb else pcb) =
      pcbs := by
  have same :
      (pcbs.map fun pcb => if pcb.addr = addr then change pcb else pcb) =
        pcbs.map id := by
    refine List.map_congr_left fun pcb member => ?_
    rw [if_neg fun there : pcb.addr = addr =>
      absent (there ▸ List.mem_map_of_mem member)]
    rfl
  rw [same, List.map_id]

/-- Where addresses are distinct, `udp_remove` takes out all there is. -/
theorem eraseP_addr
    {pcbs : List UdpPcb}
    (distinct : (pcbs.map UdpPcb.addr).Nodup)
    (addr : Nat) :
    (pcbs.eraseP fun pcb => pcb.addr == addr) =
      pcbs.filter fun pcb => pcb.addr != addr := by
  induction pcbs with
  | nil =>
      rfl
  | cons pcb rest inductionHypothesis =>
      rw [List.map_cons, List.nodup_cons] at distinct
      by_cases here : pcb.addr = addr
      · subst here
        have others : ∀ other ∈ rest, (other.addr != pcb.addr) = true := by
          intro other member
          rw [bne_iff_ne]
          exact fun same => distinct.1 (same ▸ List.mem_map_of_mem member)
        rw [List.eraseP_cons_of_pos (by simp), List.filter_cons_of_neg (by simp),
          List.filter_eq_self.mpr others]
      · rw [List.eraseP_cons_of_neg (by simpa using here),
          List.filter_cons_of_pos (by simpa using here),
          inductionHypothesis distinct.2]

/-- A drop takes the pcb off the list and back to the pool. -/
theorem dropSocket_eq
    {udp : UdpTable}
    (distinct : udp.addrs.Nodup)
    {pcb : Nat}
    (notNull : pcb ≠ 0) :
    udp.dropSocket pcb = {
      udp with
      udpPcbs := udp.udpPcbs.filter fun other => other.addr != pcb
      pool := pcb :: udp.pool } := by
  have listed : (udp.udpPcbs.map UdpPcb.addr).Nodup :=
    (List.nodup_append.mp distinct).2.1
  have addrs :
      (udp.udpRecv pcb none).udpPcbs.map UdpPcb.addr =
        udp.udpPcbs.map UdpPcb.addr := by
    unfold udpRecv
    rw [if_neg notNull, List.map_map]
    refine List.map_congr_left fun other _ => ?_
    simp only [Function.comp_apply]
    split <;> rfl
  have cleared :
      ((udp.udpRecv pcb none).udpPcbs.filter fun other => other.addr != pcb) =
        udp.udpPcbs.filter fun other => other.addr != pcb := by
    unfold udpRecv
    rw [if_neg notNull, List.filter_map]
    have same :
        (udp.udpPcbs.filter
            ((fun other => other.addr != pcb) ∘ fun other =>
              if other.addr = pcb then { other with recvArg := none }
              else other)) =
          udp.udpPcbs.filter fun other => other.addr != pcb := by
      refine List.filter_congr fun other _ => ?_
      simp only [Function.comp_apply]
      split <;> rfl
    rw [same]
    have kept :
        ((udp.udpPcbs.filter fun other => other.addr != pcb).map fun other =>
            if other.addr = pcb then { other with recvArg := none }
            else other) =
          (udp.udpPcbs.filter fun other => other.addr != pcb) :=
      map_elsewhere (by simp [List.mem_map, List.mem_filter]) _
    exact kept
  unfold dropSocket udpRemove
  rw [if_neg notNull, eraseP_addr (addrs ▸ listed), cleared]
  unfold udpRecv
  rw [if_neg notNull]

/-! ## The search for a port -/

theorem nextUdpPort_ne_zero (port : BitVec 16) : nextUdpPort port ≠ 0 := by
  unfold nextUdpPort
  split <;> bv_omega

theorem nextUdpPort_toNat
    (port : BitVec 16) :
    (nextUdpPort port).toNat =
      if port.toNat = 0xffff then 0xc000 else port.toNat + 1 := by
  unfold nextUdpPort
  split <;> split <;> bv_omega

/-- The counter after some of the steps of a search. -/
theorem nextUdpPort_iterate
    (port : BitVec 16)
    {steps : Nat}
    (few : steps ≤ 0x4000) :
    (nextUdpPort^[steps] port).toNat =
      if port.toNat + steps < 0x10000 then
        port.toNat + steps
      else
        port.toNat + steps - 0x4000 := by
  induction steps with
  | zero =>
      have bound := port.isLt
      rw [if_pos (by omega)]
      rfl
  | succ steps inductionHypothesis =>
      have before := inductionHypothesis (by omega)
      have bound := port.isLt
      rw [Function.iterate_succ_apply', nextUdpPort_toNat, before]
      split <;> split <;> split <;> omega

/-- A search that gives up has seen all its ports in use. -/
theorem newPort_zero
    {next : BitVec 16 → BitVec 16}
    {used : List (BitVec 16)}
    (nonzero : ∀ port, next port ≠ 0)
    {rounds : Nat}
    {port : BitVec 16}
    (gaveUp : (newPort next used rounds port).1 = 0)
    {steps : Nat}
    (seen : steps < rounds) :
    next^[steps + 1] port ∈ used := by
  induction rounds generalizing port steps with
  | zero => omega
  | succ rounds inductionHypothesis =>
      unfold newPort at gaveUp
      split at gaveUp
      · rename_i inUse
        cases steps with
        | zero => simpa using inUse
        | succ steps =>
            rw [Function.iterate_succ_apply]
            exact inductionHypothesis gaveUp (by omega)
      · exact absurd gaveUp (nonzero port)

/-- The list is too short to hold all ports. -/
theorem udpNewPort_ne_zero
    {udp : UdpTable}
    (few : udp.udpPcbs.length ≤ mempNumUdpPcb) :
    udp.udpNewPort.1 ≠ 0 := by
  intro gaveUp
  let tried := (List.range 5).map fun steps =>
    nextUdpPort^[steps + 1] udp.udpPort
  have distinct : tried.Nodup := by
    refine List.Nodup.map_on ?_ List.nodup_range
    intro first isFirst second isSecond same
    rw [List.mem_range] at isFirst isSecond
    have values := congrArg BitVec.toNat same
    rw [nextUdpPort_iterate _ (by omega), nextUdpPort_iterate _ (by omega)]
      at values
    split at values <;> split at values <;> omega
  have inUse : tried ⊆ udp.udpPcbs.map UdpPcb.localPort := by
    intro port member
    obtain ⟨steps, isStep, rfl⟩ := List.mem_map.mp member
    rw [List.mem_range] at isStep
    exact newPort_zero nextUdpPort_ne_zero gaveUp (by omega)
  have shorter : 5 ≤ udp.udpPcbs.length := by
    simpa [tried] using (distinct.subperm inUse).length_le
  unfold mempNumUdpPcb at few
  omega

/-! ## What the calls of `udp.rs` do -/

/-- `UdpSocket::new` aborts when the pool is empty. -/
theorem newSocket_empty
    {udp : UdpTable}
    (empty : udp.pool = []) :
    udp.newSocket = .error .bindNull := by
  have null : udp.udpNew = (0, udp) := by
    unfold udpNew
    rw [empty]
  unfold newSocket
  rw [null]
  rfl

/-- The pcb at the head of the pool is none of the others. -/
structure Head (udp : UdpTable) (addr : Nat) (rest : List Nat) : Prop where
  pool : udp.pool = addr :: rest
  notNull : addr ≠ 0
  unlisted : addr ∉ udp.udpPcbs.map UdpPcb.addr
  listed : (udp.udpPcbs.map UdpPcb.addr).Nodup

theorem Head.of_pool
    {udp : UdpTable}
    {addr : Nat}
    {rest : List Nat}
    (distinct : udp.addrs.Nodup)
    (notNull : 0 ∉ udp.addrs)
    (pool : udp.pool = addr :: rest) :
    udp.Head addr rest := by
  unfold addrs at distinct notNull
  rw [pool] at distinct notNull
  have apart := List.nodup_append.mp distinct
  constructor
  · exact pool
  · rintro rfl
    exact notNull (by simp)
  · exact fun member => apart.2.2 addr (by simp) addr member rfl
  · exact apart.2.1

/-- `UdpSocket::new` with a free pcb and a free port. -/
theorem newSocket_ok
    {udp : UdpTable}
    {addr : Nat}
    {rest : List Nat}
    (head : udp.Head addr rest)
    (found : udp.udpNewPort.1 ≠ 0) :
    udp.newSocket =
      .ok (none, {
        udp with
        pool := rest
        udpPort := udp.udpNewPort.2
        udpPcbs :=
          ⟨addr, udp.udpNewPort.1, some udp.nextSocket⟩ :: udp.udpPcbs
        boxes := { id := udp.nextSocket, pcb := addr } :: udp.boxes
        nextSocket := udp.nextSocket + 1 }) := by
  have taken : udp.udpNew = (addr, { udp with pool := rest }) := by
    unfold udpNew
    rw [head.pool]
  have notListed :
      ¬ udp.udpPcbs.any (fun other => other.addr == addr) = true := by
    rw [List.any_eq_true]
    rintro ⟨other, member, same⟩
    rw [beq_iff_eq] at same
    exact head.unlisted (same ▸ List.mem_map_of_mem member)
  have bound :
      ({ udp with pool := rest } : UdpTable).udpBind addr =
        .ok (none, {
          udp with
          pool := rest
          udpPort := udp.udpNewPort.2
          udpPcbs := ⟨addr, udp.udpNewPort.1, none⟩ :: udp.udpPcbs }) := by
    unfold udpBind
    rw [if_neg head.notNull]
    exact (if_neg found).trans (if_neg notListed)
  unfold newSocket
  rw [taken]
  simp only
  rw [bound]
  unfold udpRecv
  simp only [bind, Except.bind]
  rw [if_neg head.notNull]
  simp only [List.map_cons, if_true, map_elsewhere head.unlisted]
  rfl

/-! ## The steps keep the owners -/

/-- A port is always found. -/
theorem Sound.port
    {udp : UdpTable}
    (sound : udp.Sound) :
    udp.udpNewPort.1 ≠ 0 := by
  refine udpNewPort_ne_zero ?_
  have size := sound.size
  unfold addrs at size
  rw [List.length_append, List.length_map] at size
  omega

/-- `UdpSocket::new` succeeds where it does not abort. -/
theorem sound_new
    {udp after : UdpTable}
    {answer : Option CreateErr}
    (sound : udp.Sound)
    (done : udp.newSocket = .ok (answer, after)) :
    answer = none ∧ after.Sound := by
  cases pool : udp.pool with
  | nil =>
      rw [newSocket_empty pool] at done
      cases done
  | cons addr rest =>
      have head := Head.of_pool sound.distinct sound.notNull pool
      rw [newSocket_ok head sound.port] at done
      cases done
      refine ⟨rfl, ?_⟩
      have moved :
          (rest ++ addr :: udp.udpPcbs.map UdpPcb.addr).Perm udp.addrs := by
        unfold addrs
        rw [pool]
        exact List.perm_middle
      constructor
      case owners =>
        simp only [List.map_cons, sound.owners]
      case size =>
        exact moved.length_eq.trans sound.size
      case distinct =>
        exact moved.nodup_iff.mpr sound.distinct
      case notNull =>
        exact fun null => sound.notNull (moved.mem_iff.mp null)
      case ids =>
        simp only [List.map_cons, List.nodup_cons]
        refine ⟨fun member => ?_, sound.ids⟩
        obtain ⟨box, isBox, same⟩ := List.mem_map.mp member
        have older := sound.fresh box isBox
        omega
      case fresh =>
        intro box member
        rcases List.mem_cons.mp member with rfl | old
        · exact Nat.lt_succ_self _
        · exact Nat.lt_succ_of_lt (sound.fresh box old)
      case halves =>
        intro half isHalf
        obtain ⟨older, same⟩ := sound.halves half isHalf
        refine ⟨Nat.lt_succ_of_lt older, fun box member isSocket => ?_⟩
        rcases List.mem_cons.mp member with rfl | old
        · simp only at isSocket
          omega
        · exact same box old isSocket

theorem sound_split
    {udp : UdpTable}
    (sound : udp.Sound)
    {box : UdpBox}
    (isBox : box ∈ udp.boxes) :
    (udp.splitBox box).Sound := by
  have kept (other : UdpBox) :
      (if other.id = box.id then { other with split := true } else other).id =
          other.id ∧
        (if other.id = box.id then { other with split := true }
          else other).pcb = other.pcb := by
    split <;> exact ⟨rfl, rfl⟩
  unfold splitBox
  constructor
  case owners =>
    simp only [sound.owners, List.map_map]
    refine List.map_congr_left fun other _ => ?_
    simp only [Function.comp_apply, kept]
  case size => exact sound.size
  case distinct => exact sound.distinct
  case notNull => exact sound.notNull
  case ids =>
    have same :
        ((udp.boxes.map fun other =>
            if other.id = box.id then { other with split := true }
            else other).map UdpBox.id) = udp.boxes.map UdpBox.id := by
      rw [List.map_map]
      exact List.map_congr_left fun other _ => (kept other).1
    simp only [same]
    exact sound.ids
  case fresh =>
    intro other member
    obtain ⟨old, isOld, rfl⟩ := List.mem_map.mp member
    rw [(kept old).1]
    exact sound.fresh old isOld
  case halves =>
    intro half isHalf
    have fromOld :
        half.socket < udp.nextSocket ∧
          ∀ old ∈ udp.boxes, old.id = half.socket → old.pcb = half.pcb := by
      rcases List.mem_cons.mp isHalf with rfl | older
      · refine ⟨sound.fresh box isBox, fun old isOld same => ?_⟩
        have equal : old = box :=
          List.inj_on_of_nodup_map sound.ids isOld isBox same
        rw [equal]
      · exact sound.halves half older
    refine ⟨fromOld.1, fun other member same => ?_⟩
    obtain ⟨old, isOld, rfl⟩ := List.mem_map.mp member
    rw [(kept old).1] at same
    rw [(kept old).2]
    exact fromOld.2 old isOld same

/-- The pcb that a live socket stores is on the list. -/
theorem Sound.registered
    {udp : UdpTable}
    (sound : udp.Sound)
    {box : UdpBox}
    (isBox : box ∈ udp.boxes) :
    ∃ pcb ∈ udp.udpPcbs, pcb.addr = box.pcb ∧ pcb.recvArg = some box.id := by
  have member :
      (some box.id, box.pcb) ∈
        udp.boxes.map fun other => (some other.id, other.pcb) :=
    List.mem_map_of_mem (f := fun other : UdpBox => (some other.id, other.pcb))
      isBox
  rw [← sound.owners] at member
  obtain ⟨pcb, isPcb, same⟩ := List.mem_map.mp member
  rw [Prod.mk.injEq] at same
  exact ⟨pcb, isPcb, same.2, same.1⟩

theorem sound_dropBox
    {udp : UdpTable}
    (sound : udp.Sound)
    {box : UdpBox}
    (isBox : box ∈ udp.boxes) :
    (udp.dropBox box).Sound := by
  obtain ⟨pcb, isPcb, atPcb, ofBox⟩ := sound.registered isBox
  have listed : (udp.udpPcbs.map UdpPcb.addr).Nodup :=
    (List.nodup_append.mp sound.distinct).2.1
  have notNull : box.pcb ≠ 0 := by
    intro null
    refine sound.notNull (List.mem_append_right _ ?_)
    rw [← null, ← atPcb]
    exact List.mem_map_of_mem isPcb
  have moved :
      (box.pcb :: udp.pool ++
          (udp.udpPcbs.filter fun other => other.addr != box.pcb).map
            UdpPcb.addr).Perm udp.addrs := by
    have erased :
        ((udp.udpPcbs.filter fun other => other.addr != box.pcb).map
            UdpPcb.addr) = (udp.udpPcbs.map UdpPcb.addr).erase box.pcb := by
      rw [listed.erase_eq_filter, List.filter_map]
      rfl
    have back :
        (box.pcb :: (udp.udpPcbs.map UdpPcb.addr).erase box.pcb).Perm
          (udp.udpPcbs.map UdpPcb.addr) :=
      (List.perm_cons_erase (atPcb ▸ List.mem_map_of_mem isPcb)).symm
    rw [erased]
    exact List.perm_middle.symm.trans (back.append_left udp.pool)
  unfold dropBox
  rw [dropSocket_eq sound.distinct notNull]
  constructor
  case owners =>
    have agree :
        ∀ owner ∈ udp.boxes.map fun other => (some other.id, other.pcb),
          (owner.2 != box.pcb) = (owner.1 != some box.id) := by
      intro owner member
      obtain ⟨other, isOther, rfl⟩ := List.mem_map.mp member
      obtain ⟨otherPcb, isOtherPcb, atOther, ofOther⟩ :=
        sound.registered isOther
      rw [Bool.eq_iff_iff, bne_iff_ne, bne_iff_ne]
      refine not_congr ⟨fun samePcb => ?_, fun sameId => ?_⟩
      · have equal : otherPcb = pcb :=
          List.inj_on_of_nodup_map listed isOtherPcb isPcb
            (by rw [atOther, atPcb]; exact samePcb)
        rw [← ofOther, ← ofBox, equal]
      · have equal : other = box :=
          List.inj_on_of_nodup_map sound.ids isOther isBox
            (Option.some.inj sameId)
        rw [equal]
    have pcbs :
        ((udp.udpPcbs.filter fun other => other.addr != box.pcb).map
            fun other => (other.recvArg, other.addr)) =
          (udp.udpPcbs.map fun other => (other.recvArg, other.addr)).filter
            fun owner => owner.2 != box.pcb := by
      rw [List.filter_map]
      rfl
    have boxes :
        ((udp.boxes.filter fun other => other.id != box.id).map
            fun other => (some other.id, other.pcb)) =
          (udp.boxes.map fun other => (some other.id, other.pcb)).filter
            fun owner => owner.1 != some box.id := by
      rw [List.filter_map]
      rfl
    simp only [pcbs, boxes, sound.owners]
    exact List.filter_congr agree
  case size =>
    exact moved.length_eq.trans sound.size
  case distinct =>
    exact moved.nodup_iff.mpr sound.distinct
  case notNull =>
    exact fun null => sound.notNull (moved.mem_iff.mp null)
  case ids =>
    exact sound.ids.sublist (List.filter_sublist.map UdpBox.id)
  case fresh =>
    exact fun other member =>
      sound.fresh other (List.mem_filter.mp member).1
  case halves =>
    intro half isHalf
    obtain ⟨older, same⟩ := sound.halves half isHalf
    exact ⟨older, fun other member => same other (List.mem_filter.mp member).1⟩

theorem sound_step
    {udp after : UdpTable}
    {event : UdpEvent}
    (sound : udp.Sound)
    (taken : udp.step event = .ok after) :
    after.Sound := by
  cases event with
  | new =>
      simp only [step] at taken
      split at taken
      · cases taken
      · rename_i answer udp created
        cases taken
        exact (sound_new sound created).2
  | split socket =>
      simp only [step] at taken
      cases found : udp.findBox socket false with
      | none =>
          rw [found] at taken
          cases taken
      | some box =>
          rw [found] at taken
          cases taken
          exact sound_split sound (List.mem_of_find?_eq_some found)
  | sendTo socket =>
      simp only [step] at taken
      cases found : udp.findHalf socket with
      | none =>
          rw [found] at taken
          cases taken
      | some half =>
          rw [found] at taken
          cases taken
          exact sound
  | dropSendHalf socket =>
      simp only [step] at taken
      cases found : udp.findHalf socket with
      | none =>
          rw [found] at taken
          cases taken
      | some half =>
          rw [found] at taken
          cases taken
          exact ⟨sound.owners, sound.size, sound.distinct, sound.notNull,
            sound.ids, sound.fresh, fun other member =>
              sound.halves other (List.mem_of_mem_erase member)⟩
  | dropRecvHalf socket =>
      simp only [step] at taken
      cases found : udp.findBox socket true with
      | none =>
          rw [found] at taken
          cases taken
      | some box =>
          rw [found] at taken
          cases taken
          exact sound_dropBox sound (List.mem_of_find?_eq_some found)
  | dropSocket socket =>
      simp only [step] at taken
      cases found : udp.findBox socket false with
      | none =>
          rw [found] at taken
          cases taken
      | some box =>
          rw [found] at taken
          cases taken
          exact sound_dropBox sound (List.mem_of_find?_eq_some found)

theorem sound_reached
    {udp : UdpTable}
    (reached : udpMachine.Reached udp) :
    udp.Sound := by
  refine Machine.ReachedUnder.invariant ?_ ?_ reached
  · exact fun _ => sound_initial
  · intro before event after sound _ taken
    exact sound_step sound taken

/-- A half has its pcb exactly as long as its socket is alive. -/
theorem Sound.owns_iff
    {udp : UdpTable}
    (sound : udp.Sound)
    {half : SendHalf}
    (isHalf : half ∈ udp.sendHalves) :
    udp.Owns half ↔ udp.RecvAlive half := by
  constructor
  · rintro ⟨_, box, isBox, same, _⟩
    exact ⟨box, isBox, same⟩
  · rintro ⟨box, isBox, same⟩
    obtain ⟨pcb, isPcb, atPcb, ofBox⟩ := sound.registered isBox
    have copied := (sound.halves half isHalf).2 box isBox same
    have listed : (udp.udpPcbs.map UdpPcb.addr).Nodup :=
      (List.nodup_append.mp sound.distinct).2.1
    refine ⟨⟨pcb, ?_, same ▸ ofBox⟩, box, isBox, same, copied⟩
    unfold udpSendto
    cases found : udp.udpPcbs.find? fun other => other.addr == half.pcb with
    | none =>
        have missed := List.find?_eq_none.mp found pcb isPcb
        rw [beq_iff_eq] at missed
        exact absurd (atPcb.trans copied) missed
    | some other =>
        have there := List.find?_some found
        rw [beq_iff_eq] at there
        rw [List.inj_on_of_nodup_map listed (List.mem_of_find?_eq_some found)
          isPcb (there.trans (atPcb.trans copied).symm)]

end UdpTable

/-- In every run, whatever is split, used and dropped in whatever order: a
`send_to` goes through a registered pcb of the half's own socket exactly if
the `RecvHalf` of the same split has not been dropped. -/
theorem send_to_own_pcb_iff
    {udp : UdpTable}
    (reached : udpMachine.Reached udp)
    {socket : Nat}
    {half : SendHalf}
    (found : udp.findHalf socket = some half) :
    udp.step (.sendTo socket) = .ok udp ∧
      (udp.Owns half ↔ udp.RecvAlive half) := by
  refine ⟨?_, (UdpTable.sound_reached reached).owns_iff
    (List.mem_of_find?_eq_some found)⟩
  simp only [UdpTable.step, found]
  rfl

/-- The process before its first socket, with its pool at four addresses. -/
def fourUdpPcbs : UdpTable where
  pool := [1, 2, 3, 4]

theorem fourUdpPcbs_initial : fourUdpPcbs.Initial where
  size := rfl
  distinct := by decide
  notNull := by decide
  fresh := rfl

/-- Run the machine over events, as long as each has its handle. -/
def udpRun (events : List UdpEvent) : Option UdpTable :=
  udpMachine.runUnder (fun _ _ => true) fourUdpPcbs events

theorem udpRun_reached
    {events : List UdpEvent}
    {udp : UdpTable}
    (ran : udpRun events = some udp) :
    udpMachine.Reached udp :=
  Machine.ReachedUnder.of_run (fun _ _ _ => trivial)
    (.start fourUdpPcbs_initial) ran

/-- Both halves of a socket are alive, and the first one sends. -/
theorem send_to_own_pcb_iff_split :
    ∃ udp, udpRun [.new, .split 0] = some udp ∧
      udp.step (.sendTo 0) = .ok udp ∧
        (udp.Owns ⟨0, 1⟩ ↔ udp.RecvAlive ⟨0, 1⟩) ∧ udp.RecvAlive ⟨0, 1⟩ := by
  have ran :
      udpRun [.new, .split 0] = some {
        pool := [2, 3, 4]
        udpPcbs := [⟨1, 0xc001, some 0⟩]
        udpPort := 0xc001
        boxes := [⟨0, 1, true⟩]
        sendHalves := [⟨0, 1⟩]
        nextSocket := 1 } := by
    decide +kernel
  have found :
      ({ pool := [2, 3, 4]
         udpPcbs := [⟨1, 0xc001, some 0⟩]
         udpPort := 0xc001
         boxes := [⟨0, 1, true⟩]
         sendHalves := [⟨0, 1⟩]
         nextSocket := 1 } : UdpTable).findHalf 0 = some ⟨0, 1⟩ := rfl
  obtain ⟨sends, owns⟩ := send_to_own_pcb_iff (udpRun_reached ran) found
  exact ⟨_, ran, sends, owns, ⟨0, 1, true⟩, by decide, rfl⟩

/-- The `RecvHalf` is dropped and another socket opened: the half that is left
sends through the pcb of that socket. -/
theorem send_half_uses_reused_pcb :
    ∃ udp, udpMachine.Reached udp ∧
      udp.findHalf 0 = some ⟨0, 1⟩ ∧
        udp.step (.sendTo 0) = .ok udp ∧
          udp.udpSendto 1 = some ⟨1, 0xc002, some 1⟩ ∧ ¬ udp.Owns ⟨0, 1⟩ := by
  have ran :
      udpRun [.new, .split 0, .dropRecvHalf 0, .new] = some {
        pool := [2, 3, 4]
        udpPcbs := [⟨1, 0xc002, some 1⟩]
        udpPort := 0xc002
        boxes := [⟨1, 1, false⟩]
        sendHalves := [⟨0, 1⟩]
        nextSocket := 2 } := by
    decide +kernel
  refine ⟨_, udpRun_reached ran, rfl, rfl, rfl, ?_⟩
  rintro ⟨_, box, isBox, same, _⟩
  rw [List.mem_singleton.mp isBox] at same
  cases same

end NetstackLwip

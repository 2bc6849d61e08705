import NetstackLwip.FragmentChain
import NetstackLwip.PacketBuffers

namespace NetstackLwip

/-!
# Data of the IP input path

The state behind `ip_input`: the two reassembly lists and the sockets that
own the `udp_pcbs`. A read is checked against the buffer it is made in; what
lies behind the bytes of a vector is unknown to the code, so `slack` gives it
an arbitrary content, or makes any such read a fault.
-/

open FaultState FragmentChain

/-- `IP_REASS_MAX_PBUFS`. -/
def ipReassMaxPbufs : Nat := 10

/-- `MEMP_NUM_REASSDATA`, for each of the two protocols. -/
def mempNumReassdata : Nat := 5

/-- `IP_REASS_MAXAGE`. -/
def ipReassMaxage : Nat := 15

/-- `IPV6_REASS_MAXAGE`. -/
def ipv6ReassMaxage : Nat := 60

/-- What stops IP input: a read outside the packet, a loop without end, the
difference of pointers into two buffers, a null pointer, or an assertion. -/
inductive IpFault where
  | outsidePacket
  | hang
  | foreignHeader
  | nullPbuf
  | incrementMagnitude
  | fragmentsOverlap
  | sanityCheck
  | prevIsIpr
  | prevNext
  | linkedList
  | notFirst
  | pbufsFreed
  | freedOverflow
  | pbufcountClen
  | fragHeaderFit
  | notValidPbuf
  | noRoomHelper
  | freeHeader
  | reassHeader
  | udpRemoveHeader
  deriving DecidableEq, Repr

/-- `struct ip_reassdata`: `iphdr` is the copy of a fragment's header. -/
structure Ip4Reassdata where
  iphdr : Bytes
  frags : List (Frag PBuf) := []
  datagramLen : Nat := 0
  lastFrag : Bool := false
  timer : Nat
  deriving DecidableEq, Repr

/-- A pointer to an IPv6 header: the buffer it points into, and where. -/
structure Ip6HdrPtr where
  addr : Nat
  off : Nat
  deriving DecidableEq, Repr

/-- `struct ip6_reassdata`. -/
structure Ip6Reassdata where
  frags : List (Frag Chain) := []
  iphdr : Ip6HdrPtr
  src : BitVec 128
  dest : BitVec 128
  origHdr : Bytes := []
  identification : BitVec 32
  datagramLen : Nat := 0
  nexth : UInt8
  timer : Nat
  deriving DecidableEq, Repr

/-- An item of a `UdpSocket`: the data, its source and its destination. -/
abbrev UdpPkt : Type := Bytes × SocketAddr × SocketAddr

/-- A live `UdpSocket`: the bound of its channel and what waits in it. -/
structure UdpSocket where
  capacity : Nat
  queue : List UdpPkt := []
  deriving DecidableEq, Repr

/--
The state of IP input. `sockets` are the owners of `udp_pcbs`, in the order of
that list; `ip6Addrs` are the valid addresses of the netif, which only decide
about solicited-node destinations. `reassembled` records the payload length
and the next header of every packet that `ip6_reass` has returned.
-/
structure IpInput where
  slack : Option (Nat → Nat → UInt8) := none
  ip6Addrs : List (BitVec 128) := []
  datagrams4 : List Ip4Reassdata := []
  pbufcount4 : Nat := 0
  datagrams6 : List Ip6Reassdata := []
  pbufcount6 : Nat := 0
  currentIp6Header : Ip6HdrPtr := ⟨0, 0⟩
  sockets : List UdpSocket := []
  reassembled : List (BitVec 16 × UInt8) := []

/-- The monad of the input functions. -/
abbrev IpM (α : Type) : Type :=
  FaultM IpFault IpInput α

/-! ## Reading a packet -/

/-- The byte at `index` from `payload` on. -/
def readByte (p : PBuf) (index : Nat) : IpM UInt8 := do
  let input ← get
  if p.payload + index < p.mem.length then
    pure (byteAt p.mem (p.payload + index))
  else
    match input.slack with
    | none => throw .outsidePacket
    | some slack => pure (slack p.addr (p.payload + index))

/-- A byte of an option, which has to lie inside the header of `hlen` bytes at
`payload`. -/
def readOption (p : PBuf) (hlen index : Nat) : IpM UInt8 := do
  let input ← get
  if hlen ≤ index ∧ input.slack.isNone then
    throw .outsidePacket
  else
    readByte p index

/-- The 16-bit word at `index`. -/
def readWord (p : PBuf) (index : Nat) : IpM (BitVec 16) := do
  let high ← readByte p index
  let low ← readByte p (index + 1)
  pure (high.toBitVec ++ low.toBitVec)

/-- The 32-bit word at `index`. -/
def readLong (p : PBuf) (index : Nat) : IpM (BitVec 32) := do
  let high ← readWord p index
  let low ← readWord p (index + 2)
  pure (high ++ low)

/-- The 128-bit address at `index`. -/
def readAddr (p : PBuf) (index : Nat) : IpM (BitVec 128) := do
  let first ← readLong p index
  let second ← readLong p (index + 4)
  let third ← readLong p (index + 8)
  let fourth ← readLong p (index + 12)
  pure (first ++ second ++ (third ++ fourth))

section Inside

variable {p : PBuf} {index : Nat} {allowed : IpFault → Prop} {input : IpInput}

theorem wp_readByte
    {post : UInt8 → IpInput → Prop}
    (inside : p.payload + index < p.mem.length) :
    wp (readByte p index) post allowed input ↔
      post (byteAt p.mem (p.payload + index)) input := by
  simp [readByte, inside]

theorem wp_readOption
    {post : UInt8 → IpInput → Prop}
    {hlen : Nat}
    (within : index < hlen)
    (inside : p.payload + index < p.mem.length) :
    wp (readOption p hlen index) post allowed input ↔
      post (byteAt p.mem (p.payload + index)) input := by
  simp [readOption, wp_readByte inside, Nat.not_le.mpr within]

theorem wp_readWord
    {post : BitVec 16 → IpInput → Prop}
    (inside : p.payload + index + 1 < p.mem.length) :
    wp (readWord p index) post allowed input ↔
      post (wordAt p.mem (p.payload + index)) input := by
  simp only [readWord, wp_bind]
  rw [wp_readByte (by omega), wp_readByte (by omega)]
  exact Iff.rfl

theorem wp_readLong
    {post : BitVec 32 → IpInput → Prop}
    (inside : p.payload + index + 3 < p.mem.length) :
    wp (readLong p index) post allowed input ↔
      post (longAt p.mem (p.payload + index)) input := by
  simp only [readLong, wp_bind]
  rw [wp_readWord (by omega), wp_readWord (by omega)]
  exact Iff.rfl

theorem wp_readAddr
    {post : BitVec 128 → IpInput → Prop}
    (inside : p.payload + index + 15 < p.mem.length) :
    wp (readAddr p index) post allowed input ↔
      post (addrAt p.mem (p.payload + index)) input := by
  simp only [readAddr, wp_bind]
  rw [wp_readLong (by omega), wp_readLong (by omega), wp_readLong (by omega),
    wp_readLong (by omega)]
  exact Iff.rfl

end Inside

section Anywhere

variable {p : PBuf} {index : Nat} {allowed : IpFault → Prop} {input : IpInput}

/-- With some memory behind the vector a read returns; inside the packet, what
stands there. -/
theorem wp_readByte_anywhere
    {post : UInt8 → IpInput → Prop}
    (memory : input.slack.isSome)
    (read :
      ∀ byte,
        (p.payload + index < p.mem.length →
          byte = byteAt p.mem (p.payload + index)) →
        post byte input) :
    wp (readByte p index) post allowed input := by
  by_cases inside : p.payload + index < p.mem.length
  · rw [wp_readByte inside]
    exact read _ fun _ => rfl
  · obtain ⟨slack, memory⟩ := Option.isSome_iff_exists.mp memory
    simp only [readByte, wp_bind, wp_get, inside, if_false, memory, wp_pure]
    exact read _ fun outside => absurd outside inside

theorem wp_readWord_anywhere
    {post : BitVec 16 → IpInput → Prop}
    (memory : input.slack.isSome)
    (read :
      ∀ word,
        (p.payload + index + 1 < p.mem.length →
          word = wordAt p.mem (p.payload + index)) →
        post word input) :
    wp (readWord p index) post allowed input := by
  simp only [readWord, wp_bind]
  refine wp_readByte_anywhere memory fun high highAt => ?_
  refine wp_readByte_anywhere memory fun low lowAt => ?_
  refine read _ fun inside => ?_
  rw [highAt (by omega), lowAt (by omega)]
  rfl

theorem wp_readLong_anywhere
    {post : BitVec 32 → IpInput → Prop}
    (memory : input.slack.isSome)
    (read :
      ∀ long,
        (p.payload + index + 3 < p.mem.length →
          long = longAt p.mem (p.payload + index)) →
        post long input) :
    wp (readLong p index) post allowed input := by
  simp only [readLong, wp_bind]
  refine wp_readWord_anywhere memory fun high highAt => ?_
  refine wp_readWord_anywhere memory fun low lowAt => ?_
  refine read _ fun inside => ?_
  rw [highAt (by omega), lowAt (by omega)]
  rfl

end Anywhere

/-! ## Moving `payload` -/

/-- `pbuf_remove_header`. -/
def pbufRemoveHeader (p : Chain) (size : Nat) : IpM Chain := do
  ensure (size ≤ p.head.len) .incrementMagnitude
  pure (p.skip size)

theorem wp_pbufRemoveHeader
    {p : Chain}
    {size : Nat}
    {post : Chain → IpInput → Prop}
    {allowed : IpFault → Prop}
    {input : IpInput}
    (fits : size ≤ p.head.len) :
    wp (pbufRemoveHeader p size) post allowed input ↔
      post (p.skip size) input := by
  simp [pbufRemoveHeader, fits]

/-- `pbuf_header_force`, for a difference that is narrowed to an `s16_t`:
nothing when it fails. -/
def pbufHeaderForce (p : Chain) (difference : Int) : IpM (Option Chain) := do
  let increment := difference.bmod 65536
  if increment < 0 then do
    let p ← pbufRemoveHeader p (-increment).toNat
    pure (some p)
  else
    pure (p.addHeader increment.toNat)

end NetstackLwip

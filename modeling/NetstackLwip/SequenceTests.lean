import NetstackLwip.ReceiverRules

namespace NetstackLwip

/-!
# The sequence tests of `tcp_receive`

Front trimming and the receive window are decided by signed comparisons of
wrapped differences. With a segment of one sequence number, or with a closed
window, the two bounds of a test are the wrong way round, and halfway around
the circle both comparisons hold.
-/

open FaultState

/-- Front trimming is right exactly but for a segment of one sequence number
that starts half of the circle before `rcv_nxt`. -/
theorem frontTrims_iff
    (seqno rcvNxt : SeqNo)
    (tcplen : Nat)
    (positive : 0 < tcplen)
    (small : tcplen ≤ 65536) :
    frontTrims seqno tcplen rcvNxt = true ↔
      (0 < (rcvNxt - seqno).toNat ∧ (rcvNxt - seqno).toNat < tcplen) ∨
        (tcplen = 1 ∧ (rcvNxt - seqno).toNat = 2 ^ 31) := by
  unfold frontTrims SerialNumber.between
  rw [Bool.and_eq_true, SerialNumber.geq_iff, SerialNumber.leq_iff]
  simp only [SerialNumber.distance]
  have lower :
      (rcvNxt - (seqno + 1)).toNat =
        ((rcvNxt - seqno).toNat + (2 ^ 32 - 1)) % 2 ^ 32 := by
    bv_omega
  have upper :
      (rcvNxt - (seqno + BitVec.ofNat 32 tcplen - 1)).toNat =
        ((rcvNxt - seqno).toNat + (2 ^ 32 - (tcplen - 1))) % 2 ^ 32 := by
    bv_omega
  rw [lower, upper]
  have bound := (rcvNxt - seqno).isLt
  omega

/-- The window test is right exactly but for the last number of the half
circle above a closed window. -/
theorem inWindow_iff
    (seqno rcvNxt : SeqNo)
    (rcvWnd : Nat)
    (small : rcvWnd ≤ 65535) :
    inWindow seqno rcvNxt rcvWnd = true ↔
      (seqno - rcvNxt).toNat < rcvWnd ∨
        (rcvWnd = 0 ∧ (seqno - rcvNxt).toNat = 2 ^ 31 - 1) := by
  unfold inWindow SerialNumber.between
  rw [Bool.and_eq_true, SerialNumber.geq_iff, SerialNumber.leq_iff]
  simp only [SerialNumber.distance]
  have upper :
      (seqno - (rcvNxt + BitVec.ofNat 32 rcvWnd - 1)).toNat =
        ((seqno - rcvNxt).toNat + 2 ^ 32 + 1 - rcvWnd) % 2 ^ 32 := by
    bv_omega
  rw [upper]
  have bound := (seqno - rcvNxt).isLt
  omega

/-- The segment enters the front-trimming branch. -/
def EntersFrontTrim (packet : Packet) (pcb : TcpPcb) : Prop :=
  0 < (inputSeg packet).tcplen ∧
    frontTrims packet.seqno (inputSeg packet).tcplen pcb.rcvNxt = true

instance (packet : Packet) (pcb : TcpPcb) :
    Decidable (EntersFrontTrim packet pcb) :=
  inferInstanceAs (Decidable (_ ∧ _))

/-- The sequence number that the window test looks at. -/
def trimmedSeqno (packet : Packet) (pcb : TcpPcb) : SeqNo :=
  if EntersFrontTrim packet pcb then pcb.rcvNxt else packet.seqno

/-- Only a segment that `rcv_nxt` lies inside is trimmed, and the window test
accepts what lies in the window. -/
structure SequenceTestsRight (packet : Packet) (pcb : TcpPcb) : Prop where
  trim :
    EntersFrontTrim packet pcb →
      0 < (pcb.rcvNxt - packet.seqno).toNat ∧
        (pcb.rcvNxt - packet.seqno).toNat < (inputSeg packet).tcplen
  window :
    inWindow (trimmedSeqno packet pcb) pcb.rcvNxt pcb.rcvWnd = true ↔
      (trimmedSeqno packet pcb - pcb.rcvNxt).toNat < pcb.rcvWnd

/-- The segment is not one that a test takes for another, halfway around the
circle. -/
structure NotHalfway (packet : Packet) (pcb : TcpPcb) : Prop where
  trim :
    ¬((inputSeg packet).tcplen = 1 ∧
      (pcb.rcvNxt - packet.seqno).toNat = 2 ^ 31)
  window :
    ¬(pcb.rcvWnd = 0 ∧ (packet.seqno - pcb.rcvNxt).toNat = 2 ^ 31 - 1)

theorem inputSeg_tcplen
    (packet : Packet) :
    packet.payload.length ≤ (inputSeg packet).tcplen ∧
      (inputSeg packet).tcplen ≤ packet.payload.length + 1 := by
  unfold TcpSeg.tcplen inputSeg
  simp only
  split <;> omega

theorem inputSeg_totLen
    (packet : Packet) :
    (inputSeg packet).p.totLen = packet.payload.length := by
  simp [inputSeg, Pbuf.totLen, Pbuf.data]

/-- The tests are right exactly for the segments that are not halfway around
the circle. -/
theorem sequenceTestsRight_iff
    (packet : InPacket)
    (pcb : TcpPcb)
    (wnd : pcb.rcvWnd ≤ tcpWnd) :
    SequenceTestsRight packet.toPacket pcb ↔
      NotHalfway packet.toPacket pcb := by
  have bounds := inputSeg_tcplen packet.toPacket
  have size := packet.payload_le
  have smallWnd : pcb.rcvWnd ≤ 65535 := by
    have value : tcpWnd = 46720 := rfl
    omega
  have trims (positive : 0 < (inputSeg packet.toPacket).tcplen) :=
    frontTrims_iff packet.seqno pcb.rcvNxt (inputSeg packet.toPacket).tcplen
      positive (by omega)
  have window :=
    inWindow_iff (trimmedSeqno packet.toPacket pcb) pcb.rcvNxt pcb.rcvWnd
      smallWnd
  have opposite :
      (packet.seqno - pcb.rcvNxt).toNat =
        (2 ^ 32 - (pcb.rcvNxt - packet.seqno).toNat) % 2 ^ 32 := by
    bv_omega
  constructor
  · intro right
    refine ⟨?_, ?_⟩
    · rintro ⟨single, halfway⟩
      have positive : 0 < (inputSeg packet.toPacket).tcplen := by
        omega
      have trimmed :=
        right.trim ⟨positive, (trims positive).mpr (.inr ⟨single, halfway⟩)⟩
      omega
    · rintro ⟨shut, halfway⟩
      have untrimmed : trimmedSeqno packet.toPacket pcb = packet.seqno := by
        refine if_neg fun enters => ?_
        have inside := right.trim enters
        omega
      have accepted := right.window.mp
        (window.mpr (.inr ⟨shut, by rw [untrimmed]; exact halfway⟩))
      omega
  · intro other
    refine ⟨?_, window.trans ⟨?_, .inl⟩⟩
    · rintro ⟨positive, enters⟩
      rcases (trims positive).mp enters with inside | halfway
      · exact inside
      · exact absurd halfway other.trim
    · rintro (inside | ⟨shut, halfway⟩)
      · exact inside
      · unfold trimmedSeqno at halfway
        split at halfway
        · rw [BitVec.sub_self] at halfway
          cases halfway
        · exact absurd ⟨shut, halfway⟩ other.window

/-- A trimmed segment is as long as what is cut off. -/
theorem SequenceTestsRight.frontInside
    {packet : InPacket}
    {pcb : TcpPcb}
    (right : SequenceTestsRight packet.toPacket pcb)
    (enters : EntersFrontTrim packet.toPacket pcb) :
    FrontInside pcb.rcvNxt (inputSeg packet.toPacket) := by
  have inside := right.trim enters
  have bounds := inputSeg_tcplen packet.toPacket
  have size := packet.payload_le
  unfold FrontInside
  rw [inputSeg_totLen]
  exact ⟨by show (pcb.rcvNxt - packet.seqno).toNat < _; omega,
    by show (pcb.rcvNxt - packet.seqno).toNat ≤ _; omega⟩

/-- In any state the tests of `tcp_receive` are right, and their assertions
hold, exactly if the segment is not read at all or not halfway around the
circle. -/
theorem sequence_tests_right_iff
    {conn : Conn}
    {pcb : TcpPcb}
    (reached : connMachine.Reached conn)
    (current : conn.pcb = some pcb)
    (wnd : pcb.rcvWnd ≤ tcpWnd)
    (packet : InPacket) :
    ((packet.Heeded pcb → SequenceTestsRight packet.toPacket pcb) ∧
        ∀ label fault,
          label.event = .segment packet →
            conn.step label = .error fault →
              fault ≠ .insaneOffset ∧ fault ≠ .pbufTooShort) ↔
      (packet.Heeded pcb → NotHalfway packet.toPacket pcb) := by
  have tests := sequenceTestsRight_iff packet pcb wnd
  refine ⟨fun right heeded => tests.mp (right.1 heeded), fun other =>
    ⟨fun heeded => tests.mpr (other heeded), ?_⟩⟩
  intro label fault event stopped
  obtain ⟨attached, inUse⟩ := attached_of_reached reached current
  have stepped :=
    @Conn.step_receives
      (fun fault => fault ≠ .insaneOffset ∧ fault ≠ .pbufTooShort)
      (fun _ _ _ => True)
      (fun fault other => by
        constructor <;> (rintro rfl; exact other rfl))
      (by decide) conn pcb current attached inUse label (by
        intro segment same _ reaches acked world rcv _
        rw [event] at same
        cases same
        have right := tests.mpr (other reaches.heeded)
        refine wp_weaken (tcpReceiveData_frame ?_ _ acked ?_)
          fun _ _ _ => trivial
        · exact fun fault _ insane short => ⟨insane, short⟩
        · intro trims current
          rw [rcv] at trims ⊢
          exact .inl (right.frontInside ⟨current, trims⟩))
  rw [stopped] at stepped
  exact stepped

/-- The handshake of the example connection. -/
def establishedLabels : List Label :=
  [{ event := .segment (exampleSegment { ack := true } 100 6511 1000 [] []) }]

/-- The next byte in order is tested right. -/
theorem sequence_tests_right_in_order :
    ∃ conn pcb,
      connMachine.Reached conn ∧ conn.pcb = some pcb ∧
        (((exampleSegment { ack := true } 100 6511 1000 [1] []).Heeded pcb →
            SequenceTestsRight
              (exampleSegment { ack := true } 100 6511 1000 [1] []).toPacket
              pcb) ∧
          ∀ label fault,
            label.event =
                .segment
                  (exampleSegment { ack := true } 100 6511 1000 [1] []) →
              conn.step label = .error fault →
                fault ≠ .insaneOffset ∧ fault ≠ .pbufTooShort) := by
  obtain ⟨conn, reached, holds⟩ :=
    exists_reached (exampleSyn 1000 []) 0 6510 exampleWorld establishedLabels
      (fun conn : Conn =>
        conn.pcb.any fun pcb : TcpPcb =>
          decide (pcb.rcvWnd ≤ tcpWnd ∧ pcb.rcvNxt = 100))
      rfl rfl rfl (by decide +kernel)
  obtain ⟨pcb, current, known⟩ := (Option.any_eq_true _ _).mp holds
  obtain ⟨wnd, rcvNxt⟩ := of_decide_eq_true known
  refine ⟨conn, pcb, reached, current,
    (sequence_tests_right_iff reached current wnd _).mpr fun _ => ⟨?_, ?_⟩⟩
  · rw [rcvNxt]
    decide
  · rintro ⟨_, halfway⟩
    rw [rcvNxt] at halfway
    exact absurd halfway (by decide)

/-- One byte half of the circle behind `rcv_nxt` stops the program. -/
theorem sequence_tests_wrong_halfway :
    ∃ conn, connMachine.Reached conn ∧
      (∃ pcb, conn.pcb = some pcb ∧ pcb.state = .established) ∧
        conn.step {
            event :=
              .segment
                (exampleSegment { ack := true } (100 - 0x80000000) 6511 1000
                  [1] []) } =
          .error .insaneOffset := by
  obtain ⟨conn, reached, stops⟩ :=
    exists_reached (exampleSyn 1000 []) 0 6510 exampleWorld establishedLabels
      (fun conn : Conn =>
        (conn.pcb.any fun pcb : TcpPcb => decide (pcb.state = .established)) &&
          conn.faultOf {
              event :=
                .segment
                  (exampleSegment { ack := true } (100 - 0x80000000) 6511 1000
                    [1] []) } ==
            some .insaneOffset)
      rfl rfl rfl (by decide +kernel)
  rw [Bool.and_eq_true] at stops
  refine ⟨conn, reached, ?_, Conn.step_of_faultOf (by simpa using stops.2)⟩
  obtain ⟨pcb, current, established⟩ := (Option.any_eq_true _ _).mp stops.1
  exact ⟨pcb, current, of_decide_eq_true established⟩

end NetstackLwip

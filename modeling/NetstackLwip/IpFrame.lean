import NetstackLwip.IpRuns

namespace NetstackLwip

/-!
# What IP input leaves alone

No step changes the memory behind the vectors or the addresses of the netif,
or takes back a packet that reassembly has returned.
-/

open FaultState FragmentChain

/-- What was there at `start` and still is. -/
structure IpFrame (start input : IpInput) : Prop where
  slack : input.slack = start.slack
  ip6Addrs : input.ip6Addrs = start.ip6Addrs
  reassembled : start.reassembled <+: input.reassembled

theorem IpFrame.refl (input : IpInput) : IpFrame input input :=
  ⟨rfl, rfl, List.prefix_refl _⟩

/-- The computation leaves alone what was there at `start`. -/
abbrev Frames {α : Type} (start : IpInput) (computation : IpM α) : Prop :=
  Preserves (IpFrame start) (fun _ => True) computation

section Reads

variable {start : IpInput} (p : PBuf) (index : Nat)

theorem readByte_frame : Frames start (readByte p index) := by
  unfold readByte
  refine .get fun input _ => .ite (.pure _) ?_
  split
  · exact .throw trivial
  · exact .pure _

theorem readOption_frame (hlen : Nat) :
    Frames start (readOption p hlen index) := by
  unfold readOption
  exact .get fun input _ => .ite (.throw trivial) (readByte_frame p index)

theorem readWord_frame : Frames start (readWord p index) :=
  .bind (readByte_frame _ _) fun _ => .bind (readByte_frame _ _) fun _ => .pure _

theorem readLong_frame : Frames start (readLong p index) :=
  .bind (readWord_frame _ _) fun _ => .bind (readWord_frame _ _) fun _ => .pure _

theorem readAddr_frame : Frames start (readAddr p index) :=
  .bind (readLong_frame _ _) fun _ => .bind (readLong_frame _ _) fun _ =>
    .bind (readLong_frame _ _) fun _ => .bind (readLong_frame _ _) fun _ =>
      .pure _

theorem headerDifference_frame (hdr : Ip6HdrPtr) :
    Frames start (headerDifference p hdr) :=
  .bind (.ensure trivial) fun _ => .pure _

theorem icmp6ParamProblem_frame : Frames start (icmp6ParamProblem p) :=
  .pure _

end Reads

section Chains

variable {start : IpInput} (p : Chain)

theorem pbufRemoveHeader_frame (size : Nat) :
    Frames start (pbufRemoveHeader p size) :=
  .bind (.ensure trivial) fun _ => .pure _

theorem pbufHeaderForce_frame (difference : Int) :
    Frames start (pbufHeaderForce p difference) := by
  unfold pbufHeaderForce
  exact .ite (.bind (pbufRemoveHeader_frame p _) fun _ => .pure _) (.pure _)

theorem udpInput_frame (src dest : IpAddr) :
    Frames start (udpInput src dest p) := by
  unfold udpInput
  refine .ite (.pure _) (.bind (readWord_frame _ _) fun _ =>
    .bind (readWord_frame _ _) fun _ => .get fun input frame => ?_)
  split
  · exact .pure _
  · exact .bind (pbufRemoveHeader_frame p _) fun _ =>
      .set ⟨frame.slack, frame.ip6Addrs, frame.reassembled⟩

end Chains

/-! ## IPv4 reassembly -/

section Ip4

variable {start : IpInput}

theorem countFreed_frame (freed left : Nat) :
    Frames start (countFreed freed left) := by
  induction left generalizing freed with
  | zero => exact .pure _
  | succ left inductionHypothesis =>
      exact .bind (.ensure trivial) fun _ => inductionHypothesis _

theorem ipReassDequeueDatagram_frame (ipr : Nat) (prev : Option Nat) :
    Frames start (ipReassDequeueDatagram ipr prev) := by
  have dequeues :
      Frames start
        (modify fun input : IpInput =>
          { input with datagrams4 := input.datagrams4.eraseIdx ipr }) :=
    .modify fun _ frame => ⟨frame.slack, frame.ip6Addrs, frame.reassembled⟩
  unfold ipReassDequeueDatagram
  exact .ite (.bind (.ensure trivial) fun _ => dequeues) dequeues

theorem ipReassFreeCompleteDatagram_frame (ipr : Nat) (prev : Option Nat) :
    Frames start (ipReassFreeCompleteDatagram ipr prev) := by
  have uncounts (freed : Nat) :
      Frames start
        (modify fun input : IpInput =>
          { input with pbufcount4 := input.pbufcount4 - freed }) :=
    .modify fun _ frame => ⟨frame.slack, frame.ip6Addrs, frame.reassembled⟩
  unfold ipReassFreeCompleteDatagram
  exact .bind (.ensure trivial) fun _ => .bind (.ensure trivial) fun _ =>
    .get fun _ _ => .bind (countFreed_frame _ _) fun freed =>
      .bind (ipReassDequeueDatagram_frame _ _) fun _ => .get fun _ _ =>
        .bind (.ensure trivial) fun _ =>
          .bind (uncounts freed) fun _ => .pure _

theorem ipReassTmrFrom_frame (rounds r : Nat) (prev : Option Nat) :
    Frames start (ipReassTmrFrom rounds r prev) := by
  induction rounds generalizing r prev with
  | zero => exact .pure _
  | succ rounds inductionHypothesis =>
      unfold ipReassTmrFrom
      refine .get fun input frame => ?_
      split
      · exact .pure _
      · refine .ite ?_ ?_
        · exact .bind
            (.set ⟨frame.slack, frame.ip6Addrs, frame.reassembled⟩)
            fun _ => inductionHypothesis _ _
        · exact .bind (ipReassFreeCompleteDatagram_frame _ _) fun _ =>
            inductionHypothesis _ _

theorem ipReassTmr_frame : Frames start ipReassTmr := by
  unfold ipReassTmr
  exact .get fun _ _ => ipReassTmrFrom_frame _ _ _

theorem removeOldestRounds_frame
    (fraghdr : Bytes)
    (pbufsNeeded rounds freed : Nat) :
    Frames start (removeOldestRounds fraghdr pbufsNeeded rounds freed) := by
  induction rounds generalizing freed with
  | zero => exact .throw trivial
  | succ rounds inductionHypothesis =>
      unfold removeOldestRounds
      refine .get fun input _ => ?_
      dsimp only
      split
      · exact .bind (.pure _) fun _ => .ite (inductionHypothesis _) (.pure _)
      · exact .bind (ipReassFreeCompleteDatagram_frame _ _) fun _ =>
          .bind (.pure _) fun _ => .ite (inductionHypothesis _) (.pure _)

theorem ipReassRemoveOldestDatagram_frame (fraghdr : Bytes) (needed : Nat) :
    Frames start (ipReassRemoveOldestDatagram fraghdr needed) := by
  unfold ipReassRemoveOldestDatagram
  exact .get fun _ _ => removeOldestRounds_frame _ _ _ _

theorem roomForFragment_frame (fraghdr : Bytes) :
    Frames start (roomForFragment fraghdr) := by
  unfold roomForFragment
  exact .get fun _ _ =>
    .ite
      (.bind (ipReassRemoveOldestDatagram_frame _ _) fun _ =>
        .get fun _ _ => .pure _)
      (.pure _)

theorem reassdataFree_frame : Frames start reassdataFree := by
  unfold reassdataFree
  exact .get fun _ _ => .pure _

theorem ipReassEnqueueNewDatagram_frame (fraghdr : Bytes) :
    Frames start (ipReassEnqueueNewDatagram fraghdr) := by
  have enqueues :
      Frames start
        (modify fun input : IpInput => {
          input with
          datagrams4 :=
            { iphdr := fraghdr, timer := ipReassMaxage } ::
              input.datagrams4 }) :=
    .modify fun _ frame => ⟨frame.slack, frame.ip6Addrs, frame.reassembled⟩
  have room (free : Bool) :
      Frames start
        (if free = true then do
          modify fun input : IpInput => {
            input with
            datagrams4 :=
              { iphdr := fraghdr, timer := ipReassMaxage } ::
                input.datagrams4 }
          pure true
        else
          pure false) :=
    .ite (.bind enqueues fun _ => .pure _) (.pure _)
  unfold ipReassEnqueueNewDatagram
  refine .bind reassdataFree_frame fun _ => .ite ?_ ?_
  · exact .bind (.pure _) room
  · exact .bind (ipReassRemoveOldestDatagram_frame _ _) fun _ =>
      .ite (.bind reassdataFree_frame room) (.bind (.pure _) room)

theorem findDatagram_frame (fraghdr : Bytes) :
    Frames start (findDatagram fraghdr) := by
  unfold findDatagram
  refine .get fun input _ => ?_
  split
  · exact .bind (ipReassEnqueueNewDatagram_frame _) fun _ =>
      .ite (.pure _) (.pure _)
  · refine .bind (.modify ?_) fun _ => .pure _
    exact fun _ frame => ⟨frame.slack, frame.ip6Addrs, frame.reassembled⟩

theorem validate_frame (ipr : Ip4Reassdata) (p : PBuf) (isLast : Bool) :
    Frames start (ipReassChainFragIntoDatagramAndValidate ipr p isLast) := by
  unfold ipReassChainFragIntoDatagramAndValidate
  refine .ite (.pure _) (.ite (.pure _) ?_)
  split
  · exact .pure _
  · exact .bind (.ensure trivial) fun _ =>
      .ite (.bind (.ensure trivial) fun _ => .pure _) (.pure _)

theorem chainFrags_frame (p : Chain) (rest : List (Frag PBuf)) :
    Frames start (chainFrags p rest) := by
  induction rest generalizing p with
  | nil => exact .pure _
  | cons frag rest inductionHypothesis =>
      exact .bind (pbufRemoveHeader_frame _ _) fun _ => inductionHypothesis _

theorem releaseDatagram_frame (r : Nat) (p : Chain) :
    Frames start (releaseDatagram r p) := by
  unfold releaseDatagram
  exact .bind (ipReassDequeueDatagram_frame _ _) fun _ =>
    .get fun _ frame => .bind (.ensure trivial) fun _ =>
      .bind (.set ⟨frame.slack, frame.ip6Addrs, frame.reassembled⟩) fun _ =>
        .pure _

theorem finishDatagram_frame (r : Nat) (ipr : Ip4Reassdata) :
    Frames start (finishDatagram r ipr) := by
  unfold finishDatagram
  split
  · exact .throw trivial
  · exact .bind (chainFrags_frame _ _) fun _ => releaseDatagram_frame _ _

theorem dropFragment_frame (r : Nat) : Frames start (dropFragment r) := by
  unfold dropFragment
  exact .get fun _ _ =>
    .ite
      (.bind (.ensure trivial) fun _ =>
        .bind (ipReassDequeueDatagram_frame _ _) fun _ => .pure _)
      (.pure _)

theorem enqueueFragment_frame (r : Nat) (p : PBuf) :
    Frames start (enqueueFragment r p) := by
  unfold enqueueFragment
  refine .ite (dropFragment_frame r) (.get fun input _ => ?_)
  split
  · exact .throw trivial
  · refine .bind (validate_frame _ _ _) fun _ =>
      .ite (dropFragment_frame r) (.bind (.modify ?_) fun _ =>
        .ite (finishDatagram_frame _ _) (.pure _))
    exact fun _ frame => ⟨frame.slack, frame.ip6Addrs, frame.reassembled⟩

theorem ip4Reass_frame (p : PBuf) : Frames start (ip4Reass p) := by
  unfold ip4Reass
  refine .ite (.pure _) (.bind (roomForFragment_frame _) fun _ =>
    .ite (.bind (findDatagram_frame _) fun found => ?_) (.pure _))
  cases found with
  | none => exact .pure _
  | some r => exact enqueueFragment_frame _ _

theorem ip4Deliver_frame
    (src dest : BitVec 32)
    (iphdrHlen : Nat)
    (p : Chain) :
    Frames start (ip4Deliver src dest iphdrHlen p) :=
  .bind (readByte_frame _ _) fun _ => .bind (pbufRemoveHeader_frame _ _) fun _ =>
    .ite (.pure _) (.ite (.pure _) (.pure _))

theorem ip4Input_frame (p : PBuf) : Frames start (ip4Input p) := by
  unfold ip4Input
  refine .bind (readByte_frame _ _) fun _ => .ite (.pure _)
    (.bind (readWord_frame _ _) fun _ => .ite (.pure _)
      (.bind (readLong_frame _ _) fun _ => .bind (readLong_frame _ _) fun _ =>
        .ite (.pure _) (.bind (readWord_frame _ _) fun _ =>
          .ite (.bind (ip4Reass_frame _) fun result => ?_)
            (ip4Deliver_frame _ _ _ _))))
  cases result with
  | none => exact .pure _
  | some p => exact ip4Deliver_frame _ _ _ _

end Ip4

/-! ## IPv6 reassembly -/

section Ip6

variable {start : IpInput}

theorem countFreed6_frame (freed : Nat) (frags : List (Frag Chain)) :
    Frames start (countFreed6 freed frags) := by
  induction frags generalizing freed with
  | nil => exact .pure _
  | cons frag rest inductionHypothesis =>
      exact .bind (.ensure trivial) fun _ => inductionHypothesis _

theorem returnFirst_frame (ipr : Ip6Reassdata) :
    Frames start (returnFirst ipr) := by
  unfold returnFirst
  split
  · exact .throw trivial
  · exact .ite
      (.bind (headerDifference_frame _ _) fun _ =>
        .bind (pbufHeaderForce_frame _ _) fun _ => .ensure trivial)
      (.pure _)

theorem ip6ReassFreeCompleteDatagram_frame (ipr : Nat) :
    Frames start (ip6ReassFreeCompleteDatagram ipr) := by
  unfold ip6ReassFreeCompleteDatagram
  refine .get fun input _ => ?_
  split
  · exact .throw trivial
  · refine .bind (returnFirst_frame _) fun _ =>
      .bind (countFreed6_frame _ _) fun _ => .bind (.modify ?_) fun _ =>
        .get fun _ _ => .bind (.ensure trivial) fun _ => .modify ?_
    · exact fun _ frame => ⟨frame.slack, frame.ip6Addrs, frame.reassembled⟩
    · exact fun _ frame => ⟨frame.slack, frame.ip6Addrs, frame.reassembled⟩

theorem ip6ReassTmrFrom_frame (rounds r : Nat) :
    Frames start (ip6ReassTmrFrom rounds r) := by
  induction rounds generalizing r with
  | zero => exact .pure _
  | succ rounds inductionHypothesis =>
      unfold ip6ReassTmrFrom
      refine .get fun input frame => ?_
      split
      · exact .pure _
      · refine .ite ?_ ?_
        · exact .bind
            (.set ⟨frame.slack, frame.ip6Addrs, frame.reassembled⟩)
            fun _ => inductionHypothesis _
        · exact .bind (ip6ReassFreeCompleteDatagram_frame _) fun _ =>
            inductionHypothesis _

theorem ip6ReassTmr_frame : Frames start ip6ReassTmr := by
  unfold ip6ReassTmr
  exact .get fun _ _ => ip6ReassTmrFrom_frame _ _

theorem removeOldestRounds6_frame
    (pbufsNeeded rounds : Nat)
    (ipr : Option Nat) :
    Frames start (removeOldestRounds6 pbufsNeeded rounds ipr) := by
  induction rounds generalizing ipr with
  | zero => exact .throw trivial
  | succ rounds inductionHypothesis =>
      unfold removeOldestRounds6
      refine .get fun input _ => ?_
      split
      · exact .pure _
      · exact .ite (.pure _)
          (.bind (ip6ReassFreeCompleteDatagram_frame _) fun _ =>
            .get fun _ _ => .ite (inductionHypothesis _) (.pure _))

theorem ip6ReassRemoveOldestDatagram_frame (ipr : Option Nat) (needed : Nat) :
    Frames start (ip6ReassRemoveOldestDatagram ipr needed) := by
  unfold ip6ReassRemoveOldestDatagram
  exact .get fun _ _ => removeOldestRounds6_frame _ _ _

theorem ip6ReassdataAlloc_frame (clen : Nat) :
    Frames start (ip6ReassdataAlloc clen) := by
  unfold ip6ReassdataAlloc
  exact .get fun _ _ => .ite (.pure _)
    (.bind (ip6ReassRemoveOldestDatagram_frame _ _) fun _ =>
      .get fun _ _ => .pure _)

theorem findDatagram6_frame (frag : Fragment6) (clen : Nat) :
    Frames start (findDatagram6 frag clen) := by
  unfold findDatagram6
  refine .get fun input _ => ?_
  split
  · exact .pure _
  · refine .bind (ip6ReassdataAlloc_frame _) fun _ =>
      .ite (.bind (.modify ?_) fun _ => .pure _) (.pure _)
    exact fun _ frame => ⟨frame.slack, frame.ip6Addrs, frame.reassembled⟩

theorem roomForFragment6_frame (ipr clen : Nat) :
    Frames start (roomForFragment6 ipr clen) := by
  unfold roomForFragment6
  exact .get fun _ _ => .ite
    (.bind (ip6ReassRemoveOldestDatagram_frame _ _) fun _ =>
      .get fun _ _ => .ite (.pure _) (.pure _))
    (.pure _)

theorem chainFrags6_frame (p : Chain) (rest : List (Frag Chain)) :
    Frames start (chainFrags6 p rest) := by
  induction rest generalizing p with
  | nil => exact .pure _
  | cons frag rest inductionHypothesis =>
      exact .bind (pbufRemoveHeader_frame _ _) fun _ =>
        .bind (pbufRemoveHeader_frame _ _) fun _ => inductionHypothesis _

theorem findFragmentNexth_frame (mem : Bytes) (rounds ptr : Nat) :
    Frames start (findFragmentNexth mem rounds ptr) := by
  induction rounds generalizing ptr with
  | zero => exact .throw trivial
  | succ rounds inductionHypothesis =>
      unfold findFragmentNexth
      exact .ite (.throw trivial) (.ite (.pure _)
        (.ite (.throw trivial) (inductionHypothesis _)))

theorem rebuildHeaders_frame (ipr : Ip6Reassdata) (p : Chain) :
    Frames start (rebuildHeaders ipr p) := by
  unfold rebuildHeaders fragmentNexthAt
  exact .bind (headerDifference_frame _ _) fun _ =>
    .bind (.ite (.pure _) (findFragmentNexth_frame _ _ _)) fun _ => .pure _

theorem finishDatagram6_frame (r : Nat) (ipr : Ip6Reassdata) :
    Frames start (finishDatagram6 r ipr) := by
  unfold finishDatagram6
  split
  · exact .throw trivial
  · refine .bind (chainFrags6_frame _ _) fun _ =>
      .bind (pbufRemoveHeader_frame _ _) fun _ =>
        .bind (rebuildHeaders_frame _ _) fun _ => .bind (.modify ?_) fun _ =>
          .get fun _ frame => .bind (.ensure trivial) fun _ =>
            .bind (.set ⟨frame.slack, frame.ip6Addrs, frame.reassembled⟩)
              fun _ => .bind (pbufHeaderForce_frame _ _) fun moved => ?_
    · exact fun _ frame => ⟨frame.slack, frame.ip6Addrs, frame.reassembled⟩
    · cases moved with
      | none => exact .throw trivial
      | some p => exact .pure _

theorem putHelper_frame (p : Chain) : Frames start (putHelper p) := by
  unfold putHelper
  split
  · exact .throw trivial
  · exact .pure _

theorem enqueueFragment6_frame (frag : Fragment6) (p : Chain) (r : Nat) :
    Frames start (enqueueFragment6 frag p r) := by
  unfold enqueueFragment6
  refine .get fun input _ => ?_
  split
  · exact .throw trivial
  · refine .bind (putHelper_frame _) fun _ => ?_
    dsimp only
    split
    · exact .pure _
    · refine .bind (.ensure trivial) fun _ => .bind (.modify ?_) fun _ =>
        .ite (.bind (finishDatagram6_frame _ _) fun _ => .pure _) (.pure _)
      exact fun _ frame => ⟨frame.slack, frame.ip6Addrs, frame.reassembled⟩

theorem ip6Reass_frame (src dest : BitVec 128) (p : Chain) :
    Frames start (ip6Reass src dest p) := by
  unfold ip6Reass
  refine .bind (.ensure trivial) fun _ => .get fun _ _ =>
    .bind (headerDifference_frame _ _) fun _ =>
      .bind (.ensure trivial) fun _ => .bind (.ensure trivial) fun _ =>
        .ite (.pure _) (.bind (findDatagram6_frame _ _) fun found => ?_)
  cases found with
  | none => exact .pure _
  | some r =>
      refine .bind (roomForFragment6_frame _ _) fun room => ?_
      cases room with
      | none => exact .pure _
      | some r => exact enqueueFragment6_frame _ _ _

/-! ## IPv6 input -/

theorem walkOptions_frame
    (known : List UInt8)
    (multicast : Bool)
    (p : PBuf)
    (hlen rounds optOffset : Nat) :
    Frames start (walkOptions known multicast p hlen rounds optOffset) := by
  induction rounds generalizing optOffset with
  | zero => exact .throw trivial
  | succ rounds inductionHypothesis =>
      unfold walkOptions
      exact .ite
        (.bind (readOption_frame _ _ _) fun _ => .ite (inductionHypothesis _)
          (.ite
            (.bind (readOption_frame _ _ _) fun _ => inductionHypothesis _)
            (.ite (.bind (icmp6ParamProblem_frame _) fun _ => .pure _)
              (.pure _))))
        (.pure _)

theorem optionsHeader_frame
    (known : List UInt8)
    (dest : BitVec 128)
    (walk : Ip6Walk) :
    Frames start (optionsHeader known dest walk) := by
  unfold optionsHeader
  exact .bind (readByte_frame _ _) fun _ => .ite (.pure _)
    (.bind (walkOptions_frame _ _ _ _ _ _) fun _ => .ite
      (.bind (readByte_frame _ _) fun _ =>
        .bind (pbufRemoveHeader_frame _ _) fun _ => .pure _)
      (.pure _))

theorem routingHeader_frame (walk : Ip6Walk) :
    Frames start (routingHeader walk) := by
  unfold routingHeader
  exact .bind (readByte_frame _ _) fun _ => .ite (.pure _)
    (.bind (readByte_frame _ _) fun _ => .bind (readByte_frame _ _) fun _ =>
      .ite (.bind (icmp6ParamProblem_frame _) fun _ => .pure _)
        (.bind (readByte_frame _ _) fun _ =>
          .bind (pbufRemoveHeader_frame _ _) fun _ => .pure _))

theorem fragmentHeader_frame (src dest : BitVec 128) (walk : Ip6Walk) :
    Frames start (fragmentHeader src dest walk) := by
  unfold fragmentHeader
  refine .ite (.pure _) (.bind (readWord_frame _ _) fun _ =>
    .ite (.bind (icmp6ParamProblem_frame _) fun _ => .pure _)
      (.ite
        (.bind (readByte_frame _ _) fun _ =>
          .bind (pbufRemoveHeader_frame _ _) fun _ => .pure _)
        (.bind (ip6Reass_frame _ _ _) fun result => ?_)))
  cases result with
  | none => exact .pure _
  | some p =>
      refine .bind (readWord_frame _ _) fun _ =>
        .bind (readByte_frame _ _) fun _ => .bind (.modify ?_) fun _ =>
          .bind (pbufRemoveHeader_frame _ _) fun _ => .pure _
      exact fun _ frame => ⟨frame.slack, frame.ip6Addrs,
        frame.reassembled.trans (List.prefix_append _ _)⟩

theorem walkHeaders_frame
    (src dest : BitVec 128)
    (rounds : Nat)
    (walk : Ip6Walk) :
    Frames start (walkHeaders src dest rounds walk) := by
  induction rounds generalizing walk with
  | zero => exact .throw trivial
  | succ rounds inductionHypothesis =>
      have one : Frames start (extensionHeader src dest walk) :=
        .ite (optionsHeader_frame _ _ _) (.ite (optionsHeader_frame _ _ _)
          (.ite (routingHeader_frame _) (fragmentHeader_frame _ _ _)))
      unfold walkHeaders
      refine .ite (.bind one fun next => ?_) (.pure _)
      cases next with
      | none => exact .pure _
      | some walk =>
          exact .ite (.bind (icmp6ParamProblem_frame _) fun _ => .pure _)
            (inductionHypothesis _)

theorem ip6Deliver_frame (src dest : BitVec 128) (walk : Ip6Walk) :
    Frames start (ip6Deliver src dest walk) := by
  unfold ip6Deliver showHeaders
  exact .bind (pbufRemoveHeader_frame _ _) fun _ => .ite (.pure _)
    (.ite (.pure _) (.ite (.pure _) (.ite (.pure _)
      (.ite (.bind (icmp6ParamProblem_frame _) fun _ => .pure _) (.pure _)))))

theorem ip6Input_frame (p : PBuf) : Frames start (ip6Input p) := by
  unfold ip6Input
  refine .bind (readLong_frame _ _) fun _ => .ite (.pure _)
    (.bind (readWord_frame _ _) fun _ => .ite (.pure _)
      (.bind (readAddr_frame _ _) fun _ => .bind (readAddr_frame _ _) fun _ =>
        .ite (.pure _) (.bind (.modify ?_) fun _ => .get fun _ _ =>
          .ite (.pure _) (.bind (readByte_frame _ _) fun _ =>
            .bind (pbufRemoveHeader_frame _ _) fun _ =>
              .bind (walkHeaders_frame _ _ _ _) fun result => ?_))))
  · exact fun _ frame => ⟨frame.slack, frame.ip6Addrs, frame.reassembled⟩
  · cases result with
    | none => exact .pure _
    | some walk => exact ip6Deliver_frame _ _ _

/-! ## The sink and the timers -/

theorem sinkInput_frame (addr : Option Nat) (item : Bytes) :
    Frames start (sinkInput addr item) := by
  have received (p : PBuf) : Frames start (netifInput p) := by
    unfold netifInput ipInput
    refine .bind
      (.bind (readByte_frame _ _) fun _ =>
        .ite (ip6Input_frame p) (ip4Input_frame p))
      fun result => ?_
    cases result with
    | none => exact .pure _
    | some up =>
        exact .ite (.bind (udpInput_frame _ _ _) fun _ => .pure _) (.pure _)
  cases addr with
  | none => exact .pure _
  | some addr => exact .ite (.pure _) (received _)

theorem label_frame (label : IpLabel) : Frames start label.run := by
  cases label with
  | item addr vec => exact .bind (sinkInput_frame addr vec) fun _ => .pure _
  | ipReassTmr => exact ipReassTmr_frame
  | ip6ReassTmr => exact ip6ReassTmr_frame

end Ip6

end NetstackLwip

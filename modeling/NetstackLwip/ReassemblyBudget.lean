import NetstackLwip.Ip4Budget
import NetstackLwip.Ip6Budget

namespace NetstackLwip

/-!
# IP input over whole runs

Whatever vectors the sink is given and whenever the timers tick, both
reassemblies stay within their budgets, and IPv4 input never stops.
-/

open FaultState FragmentChain BudgetedPool

/-- What holds of IP input between two steps. -/
structure IpSound (input : IpInput) : Prop where
  held4 : Held4 False input.datagrams4 input.pbufcount4
  held6 : Held6 False input.datagrams6 input.pbufcount6
  channels : ∀ socket ∈ input.sockets, socket.queue.length ≤ socket.capacity

/-- A step has left IP input sound, and the memory behind the vectors alone. -/
structure IpKept (start next : IpInput) : Prop where
  slack : next.slack = start.slack
  sound : IpSound next

theorem IpKept.trans
    {start middle next : IpInput}
    (first : IpKept start middle)
    (second : IpKept middle next) :
    IpKept start next :=
  ⟨second.slack.trans first.slack, second.sound⟩

section Steps

variable {input : IpInput}

theorem IpSound.of_reass4
    {next : IpInput}
    (sound : IpSound input)
    (reass : Reass4 input False next) :
    IpKept input next := by
  have held := reass.held
  have only := reass.only
  generalize next.datagrams4 = datagrams at held only
  generalize next.pbufcount4 = count at held only
  rw [only]
  exact ⟨rfl, held, sound.held6, sound.channels⟩

theorem IpSound.of_input6
    {next : IpInput}
    (sound : IpSound input)
    (changed : Input6 input next) :
    IpKept input next := by
  have held := changed.held
  have only := changed.only
  generalize next.datagrams6 = datagrams at held only
  generalize next.pbufcount6 = count at held only
  rw [only]
  exact ⟨rfl, sound.held4, held, sound.channels⟩

theorem udpInput_kept
    {src dest : IpAddr}
    {p : Chain}
    (sound : IpSound input)
    (readable : input.slack.isSome ∨ p.head.Held) :
    wp (udpInput src dest p) (fun _ next => IpKept input next) noFault input := by
  have hlen : udpHlen = 8 := rfl
  unfold udpInput
  rw [wp_ite]
  refine ⟨fun _ => ⟨rfl, sound⟩, fun header => ?_⟩
  have inside :
      input.slack.isSome ∨ p.head.payload + 3 < p.head.mem.length := by
    refine readable.imp_right fun held => ?_
    have within : p.head.payload + p.head.len ≤ p.head.mem.length := held
    omega
  rw [wp_bind]
  refine wp_readWord_either (inside.imp_right fun _ => by omega) fun srcPort _ => ?_
  rw [wp_bind]
  refine wp_readWord_either inside fun destPort _ => ?_
  rw [wp_bind, wp_get]
  have channels := sound.channels
  cases sockets : input.sockets with
  | nil => exact ⟨rfl, sound⟩
  | cons socket rest =>
      rw [sockets] at channels
      dsimp only
      rw [wp_bind, wp_pbufRemoveHeader (by omega), wp_set]
      refine ⟨rfl, sound.held4, sound.held6, ?_⟩
      intro other member
      rcases List.mem_cons.mp member with isFirst | later
      · rw [isFirst, udpRecvCb]
        split
        · dsimp only
          rw [List.length_append, List.length_singleton]
          omega
        · exact channels socket List.mem_cons_self
      · exact channels other (List.mem_cons_of_mem _ later)

/-- A packet that IP input takes in is taken in by UDP. -/
theorem netifInput_kept
    {allowed : IpFault → Prop}
    {p : PBuf}
    (received :
      wp (ipInput p)
        (fun result next =>
          IpKept input next ∧
            ∀ up, result = some up → next.slack.isSome ∨ up.p.head.Held)
        allowed input) :
    wp (netifInput p) (fun _ next => IpKept input next) allowed input := by
  rw [netifInput, wp_bind]
  refine wp_weaken received ?_
  rintro result next ⟨kept, readable⟩
  cases result with
  | none => exact kept
  | some up =>
      dsimp only
      rw [wp_ite]
      refine ⟨fun _ => ?_, fun _ => kept⟩
      rw [wp_bind]
      exact wp_mono (udpInput_kept kept.sound (readable up rfl))
        (fun _ _ later => kept.trans later) fun _ => False.elim

theorem itemPbuf_bounds (addr : Nat) (item : Bytes) :
    (itemPbuf addr item).Held ∧ (itemPbuf addr item).len < 65536 := by
  have bound := Nat.mod_lt item.length (by decide : 65536 > 0)
  have shorter := Nat.mod_le item.length 65536
  refine ⟨?_, bound⟩
  simp only [PBuf.Held, itemPbuf, List.length_take]
  omega

/-- What `ip4_input` does with an item keeps IP input sound. -/
theorem ip4Input_kept
    {p : PBuf}
    (sound : IpSound input)
    (readable : input.slack.isSome ∨ p.payload + 3 < p.mem.length)
    (bounds : p.Held) :
    wp (ip4Input p)
      (fun result next =>
        IpKept input next ∧
          ∀ up, result = some up → next.slack.isSome ∨ up.p.head.Held)
      noFault input :=
  wp_weaken (ip4Input_held readable bounds sound.held4) fun _ _ input =>
    ⟨sound.of_reass4 input.1, fun up same => .inr (input.2 up same)⟩

theorem sinkInput_kept
    {addr : Option Nat}
    {item : Bytes}
    (sound : IpSound input)
    (memory : input.slack.isSome) :
    wp (sinkInput addr item) (fun _ next => IpKept input next) headerFault input := by
  obtain ⟨bounds, small⟩ := itemPbuf_bounds (addr.getD 0) item
  cases addr with
  | none => exact ⟨rfl, sound⟩
  | some addr =>
      rw [sinkInput, wp_ite]
      refine ⟨fun _ => ⟨rfl, sound⟩, fun _ => netifInput_kept ?_⟩
      rw [ipInput, wp_bind]
      refine wp_readByte_anywhere memory fun version _ => ?_
      rw [wp_ite]
      refine ⟨fun _ => ?_, fun _ => ?_⟩
      · refine wp_weaken (ip6Input_stops memory sound.held6 bounds small) ?_
        intro result next changed
        have kept := sound.of_input6 changed
        exact ⟨kept, fun _ _ => .inl (by rw [kept.slack]; exact memory)⟩
      · exact wp_mono (ip4Input_kept sound (.inl memory) bounds)
          (fun _ _ kept => kept) fun _ => False.elim

/-- A step that is not one of IPv6, with an item that is read inside its
buffer. -/
inductive Ip4Step : IpLabel → Prop where
  | lost
      {vec : Bytes} :
      Ip4Step (.item none vec)
  | item
      {addr : Nat}
      {vec : Bytes} :
      4 ≤ vec.length % 65536 →
      byteAt vec 0 >>> 4 ≠ 6 →
      Ip4Step (.item (some addr) vec)
  | ipReassTmr :
      Ip4Step .ipReassTmr

theorem sinkInput_kept_of_ip4
    {addr : Nat}
    {item : Bytes}
    (sound : IpSound input)
    (long : 4 ≤ item.length % 65536)
    (version : byteAt item 0 >>> 4 ≠ 6) :
    wp (sinkInput (some addr) item) (fun _ next => IpKept input next) noFault input := by
  obtain ⟨bounds, -⟩ := itemPbuf_bounds addr item
  have shorter := Nat.mod_le item.length 65536
  have inside : 3 < (itemPbuf addr item).mem.length := by
    simp only [itemPbuf, List.length_take]
    omega
  have isVersion : byteAt (itemPbuf addr item).mem 0 = byteAt item 0 :=
    byteAt_take (by omega)
  rw [sinkInput, wp_ite]
  refine ⟨fun _ => ⟨rfl, sound⟩, fun _ => netifInput_kept ?_⟩
  rw [ipInput, wp_bind, wp_readByte (by simp only [itemPbuf] at *; omega)]
  rw [if_neg]
  · exact ip4Input_kept sound (.inr (by simp only [itemPbuf] at *; omega)) bounds
  · change ¬byteAt (itemPbuf addr item).mem (0 + 0) >>> 4 = 6
    rw [isVersion]
    exact version

theorem label_kept
    {label : IpLabel}
    (sound : IpSound input)
    (memory : input.slack.isSome) :
    wp label.run (fun _ next => IpKept input next) headerFault input := by
  cases label with
  | item addr vec =>
      rw [IpLabel.run, wp_bind]
      exact sinkInput_kept sound memory
  | ipReassTmr =>
      exact wp_mono (ipReassTmr_held sound.held4)
        (fun _ next reass => sound.of_reass4 reass) fun _ => False.elim
  | ip6ReassTmr =>
      exact wp_weaken (ip6ReassTmr_held sound.held6)
        fun _ next reass => sound.of_input6 (.of_reass reass)

theorem Ip4Step.kept
    {label : IpLabel}
    (ip4 : Ip4Step label)
    (sound : IpSound input) :
    wp label.run (fun _ next => IpKept input next) noFault input := by
  cases ip4 with
  | lost => exact ⟨rfl, sound⟩
  | item long version =>
      rw [IpLabel.run, wp_bind]
      exact sinkInput_kept_of_ip4 sound long version
  | ipReassTmr =>
      exact wp_weaken (ipReassTmr_held sound.held4) fun _ next reass =>
        sound.of_reass4 reass

/-- Every run keeps IP input sound, or stops at a wrong pointer to a header. -/
theorem ipRun_kept
    (labels : List IpLabel)
    (sound : IpSound input)
    (memory : input.slack.isSome) :
    wp (ipRun labels) (fun _ next => IpKept input next) headerFault input := by
  induction labels generalizing input with
  | nil => exact ⟨rfl, sound⟩
  | cons label labels inductionHypothesis =>
      rw [ipRun, wp_bind]
      refine wp_weaken (label_kept sound memory) ?_
      intro _ middle kept
      exact wp_weaken
        (inductionHypothesis kept.sound (by rw [kept.slack]; exact memory))
        fun _ next later => kept.trans later

end Steps

/-! ## The system -/

/-- IP input before the first vector. -/
structure IpInput.Idle (input : IpInput) : Prop where
  datagrams4 : input.datagrams4 = []
  pbufcount4 : input.pbufcount4 = 0
  datagrams6 : input.datagrams6 = []
  pbufcount6 : input.pbufcount6 = 0
  sockets : ∀ socket ∈ input.sockets, socket.queue = []

theorem IpInput.Idle.sound
    {input : IpInput}
    (idle : input.Idle) :
    IpSound input where
  held4 := by
    rw [idle.datagrams4, idle.pbufcount4]
    exact .empty
  held6 := by
    rw [idle.datagrams6, idle.pbufcount6]
    exact .empty
  channels socket member := by
    rw [idle.sockets socket member]
    exact Nat.zero_le _

/--
Both reassemblies are within their budgets: the counts are exact, there are at
most as many buffers and datagrams as allowed, and every datagram has at least
one fragment, its fragments in order and apart, and time left. No channel holds
more than its bound.
-/
structure IpInput.WithinBudget (input : IpInput) : Prop where
  count4 :
    input.pbufcount4 = (input.datagrams4.map fun ipr => ipr.frags.length).sum
  pbufs4 : input.pbufcount4 ≤ ipReassMaxPbufs
  entries4 : input.datagrams4.length ≤ mempNumReassdata
  datagrams4 :
    ∀ ipr ∈ input.datagrams4,
      ipr.frags ≠ [] ∧ Apart ipr.frags ∧ ipr.timer ≤ ipReassMaxage
  count6 :
    input.pbufcount6 =
      (input.datagrams6.map fun ipr =>
        (ipr.frags.map fun frag => frag.buffer.clen).sum).sum
  pbufs6 : input.pbufcount6 ≤ ipReassMaxPbufs
  entries6 : input.datagrams6.length ≤ mempNumReassdata
  datagrams6 :
    ∀ ipr ∈ input.datagrams6,
      ipr.frags ≠ [] ∧ Apart ipr.frags ∧ ipr.timer ≤ ipv6ReassMaxage
  channels : ∀ socket ∈ input.sockets, socket.queue.length ≤ socket.capacity

theorem IpSound.withinBudget
    {input : IpInput}
    (sound : IpSound input) :
    input.WithinBudget where
  count4 := sound.held4.counted
  pbufs4 := sound.held4.budget
  entries4 := sound.held4.pool
  datagrams4 ipr member := by
    have kept := sound.held4.sound ipr member
    obtain ⟨r, found⟩ := List.getElem?_of_mem member
    refine ⟨fun empty => ?_, kept.apart, kept.timer⟩
    exact (sound.held4.paid r ipr found (by rw [empty]; rfl)).2
  count6 := sound.held6.counted
  pbufs6 := sound.held6.budget
  entries6 := sound.held6.pool
  datagrams6 ipr member := by
    have kept := sound.held6.sound ipr member
    obtain ⟨r, found⟩ := List.getElem?_of_mem member
    refine ⟨fun empty => ?_, kept.apart, kept.timer⟩
    exact (sound.held6.paid r ipr found (ipr.clen_eq_zero_iff.mpr empty)).2
  channels := sound.channels

/--
Whatever vectors are given and however the timers tick, both reassemblies are
within their budgets, and only a wrong pointer to an IPv6 header stops input.
-/
theorem ip_input_within_budget
    {start : IpInput}
    (idle : start.Idle)
    (memory : start.slack.isSome)
    (labels : List IpLabel) :
    wp (ipRun labels) (fun _ next => next.WithinBudget) headerFault start :=
  wp_weaken (ipRun_kept labels idle.sound memory) fun _ _ kept =>
    kept.sound.withinBudget

/-- A fragment of an IPv4 datagram with 8 bytes of it, more to follow. -/
def exampleFirstFragment : Bytes :=
  [0x45, 0, 0, 28, 0, 1, 0x20, 0, 64, 17, 0, 0, 10, 0, 0, 1, 10, 0, 0, 2,
    1, 2, 3, 4, 5, 6, 7, 8]

/-- Input before the first vector, with one socket. -/
def exampleIdle : IpInput :=
  { slack := some fun _ _ => 0, sockets := [{ capacity := 1 }] }

theorem exampleIdle_idle : exampleIdle.Idle :=
  ⟨rfl, rfl, rfl, rfl, by simp [exampleIdle]⟩

theorem ip_input_within_budget_fragment :
    wp (ipRun [.item (some 7) exampleFirstFragment, .ipReassTmr, .ip6ReassTmr])
      (fun _ next => next.WithinBudget) headerFault exampleIdle :=
  ip_input_within_budget exampleIdle_idle rfl _

/--
In every state that a run reaches, a step that is not one of IPv6 returns: no
assertion fails, no list or pointer is wrong, no loop fails to end. This holds
whatever lies behind the vector, also if every read there is a fault.
-/
theorem ip4_input_never_stops
    {start next : IpInput}
    {labels : List IpLabel}
    {label : IpLabel}
    (idle : start.Idle)
    (memory : start.slack.isSome)
    (run : ipRun labels start = .ok ((), next))
    (ip4 : Ip4Step label)
    (slack : Option (Nat → Nat → UInt8)) :
    ∃ after, label.run { next with slack } = .ok ((), after) := by
  have kept := wp_returned (ipRun_kept labels idle.sound memory) run
  have sound : IpSound { next with slack } :=
    ⟨kept.sound.held4, kept.sound.held6, kept.sound.channels⟩
  obtain ⟨_, after, returned, -⟩ := wp_total (ip4.kept sound)
  exact ⟨after, returned⟩

theorem ip4_input_never_stops_again :
    ∃ after,
      (IpLabel.item (some 8) exampleFirstFragment).run
          { exampleIdle with slack := none } =
        .ok ((), after) :=
  @ip4_input_never_stops exampleIdle _ [.ipReassTmr] _ exampleIdle_idle rfl rfl
    (.item (by decide) (by decide)) none

end NetstackLwip

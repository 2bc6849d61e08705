import NetstackLwip.FaultMachine
import NetstackLwip.TcpTypes

namespace NetstackLwip

/-!
# The Sink of a `NetStack`

`poll_ready`, `start_send` and `poll_flush` of `stack.rs`. The history records
what each flush has taken out of `sink_buf`, what it handed to the netif input
function, and what it returned; no step reads it.
-/

open FaultMachine

/-- `LWIP_MEM_ALIGN_SIZE` for a `MEM_ALIGNMENT`. -/
def memAlignSize (alignment size : Nat) : Nat :=
  (size + alignment - 1) / alignment * alignment

/--
`pbuf_alloc` for `PBUF_RAW` and `PBUF_RAM`: the length of the buffer. Beside
the heap, the 16-bit sum of the aligned sizes can refuse a length.
-/
def pbufAllocRam (alignment length : Nat) (memory : Bool) : Option Nat :=
  if memAlignSize alignment length % 65536 < memAlignSize alignment length then
    none
  else if memory then
    some length
  else
    none

/-- What a poll function of the Sink returns: the two errors carry the
messages `input error` and `input fn not set`. -/
inductive PollSink where
  | pending
  | ready
  | inputError (err : Err)
  | inputNotSet
  deriving DecidableEq, Repr

/-- A flush that has taken an item. -/
structure Flushed where
  item : Bytes
  handed : Option Bytes
  result : PollSink
  deriving DecidableEq, Repr

/--
`sink_buf` with its history. `ready` says that `poll_ready` has allowed the
next `start_send`, and `wakes` that the last poll has arranged a wake-up of
its task.
-/
structure NetSink where
  sinkBuf : Option Bytes := none
  ready : Bool := false
  wakes : Bool := false
  given : List Bytes := []
  flushes : List Flushed := []
  deriving DecidableEq, Repr

/-- The outcomes that a flush meets: whether the heap has room, and what the
netif input function returns, if there is one. -/
structure SinkEnv where
  memory : Bool := true
  input : Option Err := some .ok
  deriving DecidableEq, Repr

namespace NetSink

/-- What `poll_flush` hands on of an item that is not empty, and what it
returns. -/
def handOver (alignment : Nat) (env : SinkEnv) (item : Bytes) :
    Option Bytes × PollSink :=
  match pbufAllocRam alignment (item.length % 65536) env.memory with
  | none => (none, .pending)
  | some length =>
      match env.input with
      | none => (none, .inputNotSet)
      | some .ok => (some (item.take length), .ready)
      | some err => (some (item.take length), .inputError err)

/-- `poll_flush`. It takes the item out first, and ignores its context. -/
def pollFlush (alignment : Nat) (env : SinkEnv) (sink : NetSink) :
    PollSink × NetSink :=
  match sink.sinkBuf with
  | none => (.ready, { sink with wakes := false })
  | some item =>
      let (handed, result) :=
        if item.isEmpty then (none, .ready) else handOver alignment env item
      (result, {
        sink with
        sinkBuf := none
        wakes := false
        flushes := sink.flushes ++ [⟨item, handed, result⟩] })

/-- `poll_ready`. -/
def pollReady (alignment : Nat) (env : SinkEnv) (sink : NetSink) :
    PollSink × NetSink :=
  let (result, sink) :=
    if sink.sinkBuf.isNone then (.ready, { sink with wakes := false })
    else pollFlush alignment env sink
  (result, { sink with ready := result == .ready })

/-- `start_send`. -/
def startSend (item : Bytes) (sink : NetSink) : NetSink :=
  { sink with
    sinkBuf := some item
    ready := false
    given := sink.given ++ [item] }

end NetSink

/-- The calls on the Sink. -/
inductive SinkEvent where
  | pollReady (env : SinkEnv)
  | startSend (item : Bytes)
  | pollFlush (env : SinkEnv)
  | pollClose

/-- One call. The protocol of a Sink asks for a `poll_ready` that has returned
`Ready(Ok)` before each `start_send`. -/
def NetSink.step (alignment : Nat) (sink : NetSink) :
    SinkEvent → Except Unit NetSink
  | .pollReady env => .ok (sink.pollReady alignment env).2
  | .startSend item =>
      if sink.ready then .ok (sink.startSend item) else .error ()
  | .pollFlush env => .ok (sink.pollFlush alignment env).2
  | .pollClose => .ok sink

/-- The machine of one Sink, for a build with this `MEM_ALIGNMENT`. -/
def sinkMachine (alignment : Nat) : Machine Unit NetSink SinkEvent where
  initial sink := sink = {}
  step := NetSink.step alignment

/-- An item that is not empty has reached the input function with its bytes,
or the flush has said that something went wrong. -/
def Flushed.Delivered (flushed : Flushed) : Prop :=
  flushed.item = [] ∨
    flushed.handed = some flushed.item ∨
      flushed.result = .inputNotSet ∨
        ∃ err, err ≠ .ok ∧ flushed.result = .inputError err

/-- The item that a call of `poll_flush`, from `poll_ready` or not, takes out
of `sink_buf`, with the outcomes it meets. -/
def NetSink.takes (sink : NetSink) : SinkEvent → Option (Bytes × SinkEnv)
  | .pollReady env => sink.sinkBuf.map fun item => (item, env)
  | .pollFlush env => sink.sinkBuf.map fun item => (item, env)
  | _ => none

/-- There is a buffer for the item, and none of its bytes are cut off unless
the input function fails on what is left. -/
def Fits (alignment : Nat) (item : Bytes) (env : SinkEnv) : Prop :=
  item = [] ∨
    (pbufAllocRam alignment (item.length % 65536) env.memory).isSome = true ∧
      (item.length < 65536 ∨ env.input ≠ some .ok)

/-- Every item that the call takes out of `sink_buf` fits. -/
def FlushFits (alignment : Nat) (sink : NetSink) (event : SinkEvent) : Prop :=
  ∀ taken, sink.takes event = some taken → Fits alignment taken.1 taken.2

/-- What the claim asks of a call that has taken an item: it is delivered, and
whenever the call is `Pending` it is still held and a wake-up is arranged. -/
def StepDelivers (before after : NetSink) : Prop :=
  ∀ flushed, after.flushes = before.flushes ++ [flushed] →
    flushed.Delivered ∧
      (flushed.result = .pending →
        after.sinkBuf = some flushed.item ∧ after.wakes = true)

namespace NetSink

/-- The calls of the netif input function, in order. -/
def inputs (sink : NetSink) : List Bytes :=
  sink.flushes.filterMap Flushed.handed

/-- The record of a flush that takes `item`. -/
def flushOf (alignment : Nat) (env : SinkEnv) (item : Bytes) : Flushed where
  item := item
  handed := if item.isEmpty then none else (handOver alignment env item).1
  result := if item.isEmpty then .ready else (handOver alignment env item).2

theorem pollFlush_none
    {alignment : Nat}
    {env : SinkEnv}
    {sink : NetSink}
    (empty : sink.sinkBuf = none) :
    sink.pollFlush alignment env = (.ready, { sink with wakes := false }) := by
  unfold pollFlush
  rw [empty]

theorem pollFlush_some
    {alignment : Nat}
    {env : SinkEnv}
    {sink : NetSink}
    {item : Bytes}
    (full : sink.sinkBuf = some item) :
    sink.pollFlush alignment env =
      ((flushOf alignment env item).result, {
        sink with
        sinkBuf := none
        wakes := false
        flushes := sink.flushes ++ [flushOf alignment env item] }) := by
  unfold pollFlush flushOf
  rw [full]
  by_cases empty : item.isEmpty = true
  · simp only [empty, if_true]
  · simp only [empty, if_false, Bool.false_eq_true]

theorem pollReady_none
    {alignment : Nat}
    {env : SinkEnv}
    {sink : NetSink}
    (empty : sink.sinkBuf = none) :
    sink.pollReady alignment env =
      (.ready, { sink with wakes := false, ready := true }) := by
  unfold pollReady
  rw [empty]
  rfl

theorem pollReady_some
    {alignment : Nat}
    {env : SinkEnv}
    {sink : NetSink}
    {item : Bytes}
    (full : sink.sinkBuf = some item) :
    sink.pollReady alignment env =
      ((sink.pollFlush alignment env).1, {
        (sink.pollFlush alignment env).2 with
        ready := (sink.pollFlush alignment env).1 == .ready }) := by
  unfold pollReady
  rw [full]
  rfl

theorem pbufAllocRam_length
    {alignment length given : Nat}
    {memory : Bool}
    (allocated : pbufAllocRam alignment length memory = some given) :
    given = length := by
  unfold pbufAllocRam at allocated
  split at allocated
  · cases allocated
  · split at allocated
    · exact (Option.some.inj allocated).symm
    · cases allocated

/-- A flush does its duty exactly if its item fits. -/
theorem flushOf_delivered_iff
    {alignment : Nat}
    {env : SinkEnv}
    {item : Bytes} :
    ((flushOf alignment env item).Delivered ∧
        (flushOf alignment env item).result ≠ .pending) ↔
      Fits alignment item env := by
  by_cases empty : item = []
  · subst empty
    exact ⟨fun _ => .inl rfl, fun _ => ⟨.inl rfl, by simp [flushOf]⟩⟩
  have filled : item.isEmpty = false := by
    simpa using empty
  have record :
      flushOf alignment env item =
        ⟨item, (handOver alignment env item).1,
          (handOver alignment env item).2⟩ := by
    simp [flushOf, filled]
  rw [record]
  unfold handOver Fits
  cases allocated : pbufAllocRam alignment (item.length % 65536) env.memory with
  | none =>
      simp [empty]
  | some length =>
      have whole := pbufAllocRam_length allocated
      subst whole
      cases input : env.input with
      | none =>
          simp [Flushed.Delivered]
      | some err =>
          by_cases ok : err = .ok
          · subst ok
            have uncut :
                item.take (item.length % 65536) = item ↔
                  item.length < 65536 := by
              constructor
              · intro same
                have length := congrArg List.length same
                rw [List.length_take] at length
                omega
              · exact fun short => List.take_of_length_le (by omega)
            simp [Flushed.Delivered, empty, uncut]
          · cases err <;> first
              | exact absurd rfl ok
              | simp [Flushed.Delivered]

/-- The items given are those taken, in order, and the one that waits; and
`poll_ready` only allows a new one when none waits. -/
structure Sound (sink : NetSink) : Prop where
  given : sink.given = sink.flushes.map Flushed.item ++ sink.sinkBuf.toList
  ready : sink.ready = true → sink.sinkBuf = none
  empty : ∀ flushed ∈ sink.flushes, flushed.item = [] → flushed.handed = none

theorem sound_pollFlush
    {alignment : Nat}
    {env : SinkEnv}
    {sink : NetSink}
    (sound : sink.Sound) :
    (sink.pollFlush alignment env).2.Sound ∧
      (sink.pollFlush alignment env).2.sinkBuf = none := by
  cases held : sink.sinkBuf with
  | none =>
      rw [pollFlush_none held]
      exact ⟨⟨sound.given, sound.ready, sound.empty⟩, held⟩
  | some item =>
      rw [pollFlush_some held]
      refine ⟨⟨?_, fun _ => rfl, ?_⟩, rfl⟩
      · simp [sound.given, held, flushOf]
      · intro flushed member isEmpty
        rcases List.mem_append.mp member with old | isNew
        · exact sound.empty flushed old isEmpty
        · rw [List.mem_singleton.mp isNew] at isEmpty ⊢
          have empty : item = [] := isEmpty
          simp [flushOf, empty]

theorem sound_step
    {alignment : Nat}
    {sink after : NetSink}
    {event : SinkEvent}
    (sound : sink.Sound)
    (taken : sink.step alignment event = .ok after) :
    after.Sound := by
  cases event with
  | pollReady env =>
      cases taken
      cases held : sink.sinkBuf with
      | none =>
          rw [pollReady_none held]
          exact ⟨sound.given, fun _ => held, sound.empty⟩
      | some item =>
          rw [pollReady_some held]
          have flushed :
              (sink.pollFlush alignment env).2.Sound ∧
                (sink.pollFlush alignment env).2.sinkBuf = none :=
            sound_pollFlush sound
          exact ⟨flushed.1.given, fun _ => flushed.2, flushed.1.empty⟩
  | startSend item =>
      simp only [step] at taken
      split at taken
      · rename_i allowed
        cases taken
        refine ⟨?_, fun ready => ?_, sound.empty⟩
        · simp [startSend, sound.given, sound.ready allowed]
        · cases ready
      · cases taken
  | pollFlush env =>
      cases taken
      exact (sound_pollFlush sound).1
  | pollClose =>
      cases taken
      exact sound

/-- What a call does to the history: nothing, or one more flush, after which
`sink_buf` is empty and no wake-up is arranged. -/
theorem step_flushes
    {alignment : Nat}
    {sink after : NetSink}
    {event : SinkEvent}
    (taken : sink.step alignment event = .ok after) :
    (sink.takes event = none ∧ after.flushes = sink.flushes) ∨
      ∃ item env, sink.takes event = some (item, env) ∧
        after.flushes = sink.flushes ++ [flushOf alignment env item] ∧
          after.sinkBuf = none := by
  cases event with
  | pollReady env =>
      cases taken
      cases held : sink.sinkBuf with
      | none =>
          rw [pollReady_none held]
          exact .inl ⟨by simp [takes, held], rfl⟩
      | some item =>
          rw [pollReady_some held, pollFlush_some held]
          exact .inr ⟨item, env, by simp [takes, held], rfl, rfl⟩
  | startSend item =>
      simp only [step] at taken
      split at taken
      · cases taken
        exact .inl ⟨rfl, rfl⟩
      · cases taken
  | pollFlush env =>
      cases taken
      cases held : sink.sinkBuf with
      | none =>
          rw [pollFlush_none held]
          exact .inl ⟨by simp [takes, held], rfl⟩
      | some item =>
          rw [pollFlush_some held]
          exact .inr ⟨item, env, by simp [takes, held], rfl, rfl⟩
  | pollClose =>
      cases taken
      exact .inl ⟨rfl, rfl⟩

/-- A call does what it should exactly if the item it takes fits. -/
theorem stepDelivers_iff
    {alignment : Nat}
    {sink after : NetSink}
    {event : SinkEvent}
    (taken : sink.step alignment event = .ok after) :
    StepDelivers sink after ↔ FlushFits alignment sink event := by
  rcases step_flushes taken with ⟨idle, same⟩ | ⟨item, env, flushes, more, gone⟩
  · constructor
    · intro _ other isTaken
      rw [idle] at isTaken
      cases isTaken
    · intro _ flushed grown
      rw [same] at grown
      exact absurd grown (by simp)
  · have fits : FlushFits alignment sink event ↔ Fits alignment item env := by
      unfold FlushFits
      rw [flushes]
      simp
    rw [fits, ← flushOf_delivered_iff]
    constructor
    · intro delivers
      obtain ⟨delivered, kept⟩ := delivers _ more
      refine ⟨delivered, fun pending => ?_⟩
      have held := (kept pending).1
      rw [gone] at held
      cases held
    · rintro ⟨delivered, done⟩ flushed grown
      rw [more, List.append_cancel_left_eq, List.cons.injEq] at grown
      rw [← grown.1]
      exact ⟨delivered, fun pending => absurd pending done⟩

/-- Where every flush is answered with success, the input function has seen the
items that are not empty. -/
theorem inputs_of_answered
    {flushes : List Flushed}
    (delivered : ∀ flushed ∈ flushes, flushed.Delivered)
    (empty : ∀ flushed ∈ flushes, flushed.item = [] → flushed.handed = none)
    (answered : ∀ flushed ∈ flushes, flushed.result = .ready) :
    flushes.filterMap Flushed.handed =
      (flushes.map Flushed.item).filter fun item => !item.isEmpty := by
  induction flushes with
  | nil =>
      rfl
  | cons flushed rest inductionHypothesis =>
      have later :=
        inductionHypothesis
          (fun other member => delivered other (List.mem_cons_of_mem _ member))
          (fun other member => empty other (List.mem_cons_of_mem _ member))
          (fun other member => answered other (List.mem_cons_of_mem _ member))
      have first := delivered flushed List.mem_cons_self
      have ready := answered flushed List.mem_cons_self
      by_cases noBytes : flushed.item = []
      · rw [List.filterMap_cons_none (empty flushed List.mem_cons_self noBytes),
          List.map_cons, List.filter_cons_of_neg (by simp [noBytes]), later]
      · have handed : flushed.handed = some flushed.item := by
          rcases first with isEmpty | handed | notSet | ⟨err, _, failed⟩
          · exact absurd isEmpty noBytes
          · exact handed
          · rw [ready] at notSet
            cases notSet
          · rw [ready] at failed
            cases failed
        rw [List.filterMap_cons_some handed, List.map_cons,
          List.filter_cons_of_pos (by simpa using noBytes), later]

end NetSink

/-- As long as every item that is taken fits, all items given to the Sink are
handed to the input function, in order and unchanged, unless their flush
returns an error; and no other call does its duty. -/
theorem sink_delivers
    {alignment : Nat}
    {sink : NetSink}
    (reached : (sinkMachine alignment).ReachedUnder (FlushFits alignment) sink) :
    sink.given = sink.flushes.map Flushed.item ++ sink.sinkBuf.toList ∧
      (∀ flushed ∈ sink.flushes,
        flushed.Delivered ∧ flushed.result ≠ .pending) ∧
      ((∀ flushed ∈ sink.flushes, flushed.result = .ready) →
        sink.inputs =
          (sink.flushes.map Flushed.item).filter fun item => !item.isEmpty) ∧
      ∀ event after, sink.step alignment event = .ok after →
        (StepDelivers sink after ↔ FlushFits alignment sink event) := by
  have known :
      sink.Sound ∧
        ∀ flushed ∈ sink.flushes,
          flushed.Delivered ∧ flushed.result ≠ .pending := by
    refine Machine.ReachedUnder.invariant
      (?_ :
        ∀ first, (sinkMachine alignment).initial first →
          first.Sound ∧
            ∀ flushed ∈ first.flushes,
              flushed.Delivered ∧ flushed.result ≠ .pending)
      ?_ reached
    · rintro _ rfl
      exact ⟨⟨rfl, fun _ => rfl, by simp⟩, by simp⟩
    · rintro before event after ⟨sound, delivered⟩ fits taken
      refine ⟨NetSink.sound_step sound taken, ?_⟩
      rcases NetSink.step_flushes taken with
        ⟨_, same⟩ | ⟨item, env, flushes, more, _⟩
      · rw [same]
        exact delivered
      · rw [more]
        intro flushed member
        rcases List.mem_append.mp member with old | isNew
        · exact delivered flushed old
        · rw [List.mem_singleton.mp isNew]
          exact NetSink.flushOf_delivered_iff.mpr (fits _ flushes)
  refine ⟨known.1.given, known.2, fun answered => ?_,
    fun event after taken => NetSink.stepDelivers_iff taken⟩
  exact NetSink.inputs_of_answered
    (fun flushed member => (known.2 flushed member).1) known.1.empty answered

/-- Two items, the second one empty. -/
theorem sink_delivers_two :
    ∃ sink : NetSink,
      sink.given = [[7], []] ∧ sink.sinkBuf = none ∧ sink.inputs = [[7]] ∧
        (sink.given = sink.flushes.map Flushed.item ++ sink.sinkBuf.toList ∧
          (∀ flushed ∈ sink.flushes,
            flushed.Delivered ∧ flushed.result ≠ .pending) ∧
          ((∀ flushed ∈ sink.flushes, flushed.result = .ready) →
            sink.inputs =
              (sink.flushes.map Flushed.item).filter
                fun item => !item.isEmpty) ∧
          ∀ event after, sink.step 1 event = .ok after →
            (StepDelivers sink after ↔ FlushFits 1 sink event)) := by
  have start : (sinkMachine 1).ReachedUnder (FlushFits 1) {} := .start rfl
  have idle (sink : NetSink) (env : SinkEnv) (empty : sink.sinkBuf = none) :
      FlushFits 1 sink (.pollReady env) := by
    intro taken isTaken
    simp [NetSink.takes, empty] at isTaken
  have first : (sinkMachine 1).ReachedUnder (FlushFits 1) { ready := true } :=
    .next start (idle {} {} rfl) rfl
  have given :
      (sinkMachine 1).ReachedUnder (FlushFits 1)
        { sinkBuf := some [7], given := [[7]] } :=
    .next first (by rintro _ ⟨⟩)
      (show (sinkMachine 1).step _ (.startSend [7]) = _ from rfl)
  have flushed :
      (sinkMachine 1).ReachedUnder (FlushFits 1)
        { ready := true
          given := [[7]]
          flushes := [⟨[7], some [7], .ready⟩] } := by
    refine .next given ?_
      (show (sinkMachine 1).step _ (.pollReady {}) = _ from rfl)
    rintro _ ⟨⟩
    exact .inr ⟨rfl, .inl (by decide)⟩
  have again :
      (sinkMachine 1).ReachedUnder (FlushFits 1)
        { sinkBuf := some []
          given := [[7], []]
          flushes := [⟨[7], some [7], .ready⟩] } :=
    .next flushed (by rintro _ ⟨⟩)
      (show (sinkMachine 1).step _ (.startSend []) = _ from rfl)
  have done :
      (sinkMachine 1).ReachedUnder (FlushFits 1)
        { given := [[7], []]
          flushes := [⟨[7], some [7], .ready⟩, ⟨[], none, .ready⟩] } := by
    refine .next again ?_
      (show (sinkMachine 1).step _ (.pollFlush {}) = _ from rfl)
    rintro _ ⟨⟩
    exact .inl rfl
  exact ⟨_, rfl, rfl, rfl, sink_delivers done⟩

/-- The heap has no room once: the flush is `Pending`, its item is gone, no
wake-up is arranged, and the next flush succeeds without it. -/
theorem sink_drops_item_when_pending :
    ∃ sink : NetSink,
      (sinkMachine 1).Reached sink ∧
        sink.given = [[7]] ∧ sink.flushes = [⟨[7], none, .pending⟩] ∧
          sink.sinkBuf = none ∧ sink.wakes = false ∧ sink.inputs = [] ∧
            (sink.pollFlush 1 {}).1 = .ready ∧
              ¬ ∀ flushed ∈ sink.flushes,
                flushed.Delivered ∧ flushed.result ≠ .pending := by
  have first : (sinkMachine 1).Reached { ready := true } :=
    .next (.start rfl) trivial
      (show (sinkMachine 1).step {} (.pollReady {}) = _ from rfl)
  have given :
      (sinkMachine 1).Reached { sinkBuf := some [7], given := [[7]] } :=
    .next first trivial
      (show (sinkMachine 1).step _ (.startSend [7]) = _ from rfl)
  have flushed :
      (sinkMachine 1).Reached
        { given := [[7]], flushes := [⟨[7], none, .pending⟩] } :=
    .next given trivial
      (show (sinkMachine 1).step _ (.pollFlush { memory := false }) = _ from rfl)
  refine ⟨_, flushed, rfl, rfl, rfl, rfl, rfl, rfl, fun all => ?_⟩
  exact (all _ List.mem_cons_self).2 rfl

end NetstackLwip

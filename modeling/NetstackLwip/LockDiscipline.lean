import NetstackLwip.LockTasks

namespace NetstackLwip

/-!
# The lock discipline

The operations that take `LWIP_MUTEX` are inside lwIP only while they hold it,
and no callback or `Drop` under the lock asks for it again: a stream that
`tcp_accept_cb` sends to its listener always finds the channel, since the
listener clears the argument of its pcb, under the lock, before the channel
goes. `NetStack::_new`, `UdpSocket::new` and `Drop` for `UdpSocket` do not take
the lock.
-/

open FaultMachine

/-! ## The lock along a task's code -/

/-- What one instruction makes of holding the lock; none if it is inside
without the lock, or would take it twice. -/
def Instr.lock (held : Bool) : Instr → Option Bool
  | acquire => if held then none else some true
  | release => if held then some false else none
  | dropStream => if held then none else some false
  | dropChannel _ => if held then none else some false
  | instr => if instr.inside && !held then none else some held

/-- Whether the task holds the lock after its code. -/
def lockAfter (held : Bool) (code : List Instr) : Option Bool :=
  code.foldlM Instr.lock held

@[simp]
theorem lockAfter_nil
    (held : Bool) :
    lockAfter held [] = some held :=
  rfl

@[simp]
theorem lockAfter_cons
    (held : Bool)
    (instr : Instr)
    (rest : List Instr) :
    lockAfter held (instr :: rest) =
      (instr.lock held).bind fun held => lockAfter held rest :=
  rfl

theorem lockAfter_append
    {held middle : Bool}
    {front : List Instr}
    (passed : lockAfter held front = some middle)
    (rest : List Instr) :
    lockAfter held (front ++ rest) = lockAfter middle rest := by
  unfold lockAfter at passed ⊢
  rw [List.foldlM_append, passed]
  rfl

theorem lockAfter_replicate
    (held : Bool)
    (count : Nat)
    {instr : Instr}
    (same : instr.lock held = some held) :
    lockAfter held (List.replicate count instr) = some held := by
  induction count with
  | zero =>
      rfl
  | succ count inductionHypothesis =>
      rw [List.replicate_succ, lockAfter_cons, same]
      exact inductionHypothesis

theorem lockAfter_callbacks
    (callbacks : List Callback) :
    lockAfter true (callbacks.map .callback) = some true := by
  induction callbacks with
  | nil =>
      rfl
  | cons callback rest inductionHypothesis =>
      exact inductionHypothesis

theorem Callback.lockAfter_code
    (callback : Callback) :
    lockAfter true callback.code = some true := by
  cases callback <;> rfl

theorem lockAfter_dropTcpStream
    (errored closed : Bool) :
    lockAfter false (dropTcpStream errored closed) = some false := by
  cases errored <;> cases closed <;> rfl

/-- An operation that takes the lock for what it does in lwIP. -/
def Operation.Guarded : Operation → Prop
  | netStackNew _ _ _ => False
  | dropUdpSocket => False
  | _ => True

theorem Operation.Guarded.lockAfter
    {operation : Operation}
    (guarded : operation.Guarded)
    (listener : Nat) :
    NetstackLwip.lockAfter false (operation.code listener) = some false := by
  cases operation with
  | netStackNew first result bound =>
      exact guarded.elim
  | dropUdpSocket =>
      exact guarded.elim
  | streamPollRead chunks =>
      have reads :
          NetstackLwip.lockAfter true
              (List.replicate chunks (.lwip .tcpRecved)) = some true :=
        lockAfter_replicate true chunks rfl
      have taken :
          NetstackLwip.lockAfter false
              ([.acquire] ++ List.replicate chunks (.lwip .tcpRecved)) =
            some true := reads
      exact lockAfter_append taken [.release]
  | sinkPollReady result =>
      cases result <;> rfl
  | sinkPollFlush result =>
      cases result <;> rfl
  | tcpListenerNew result =>
      cases result <;> rfl
  | streamPollWrite result =>
      cases result <;> rfl
  | streamPollFlush errored =>
      cases errored <;> rfl
  | streamPollShutdown errored =>
      cases errored <;> rfl
  | _ =>
      rfl

/-- Every other operation is in lwIP, or at a global, from its start. -/
theorem Operation.inside_of_not_guarded
    {operation : Operation}
    (bare : ¬operation.Guarded)
    (listener : Nat) :
    ∃ instr rest,
      operation.code listener = instr :: rest ∧ instr.inside = true := by
  cases operation with
  | netStackNew first result bound =>
      cases first
      · exact ⟨_, _, rfl, rfl⟩
      · exact ⟨_, _, rfl, rfl⟩
  | dropUdpSocket =>
      exact ⟨_, _, rfl, rfl⟩
  | _ =>
      exact absurd trivial bare

/-! ## The property -/

/-- The discipline: whoever is inside holds the lock, so that nobody else is,
and nobody waits for a lock he holds. -/
structure Tasks.Disciplined (tasks : Tasks) : Prop where
  inside :
    ∀ task instr rest,
      tasks.code task = instr :: rest → instr.inside = true →
        tasks.lock = some task
  alone :
    ∀ first second instr other rest more,
      tasks.code first = instr :: rest → instr.inside = true →
        tasks.code second = other :: more → other.inside = true →
          first = second
  acquires :
    ∀ task rest,
      tasks.code task = .acquire :: rest → tasks.lock ≠ some task

/-- No operation is started that works without the lock. -/
def StartsGuarded (event : TaskEvent) : Prop :=
  ∀ task operation, event = .start task operation → operation.Guarded

/-- The lock along the code of every task. -/
def Tasks.Locked (tasks : Tasks) : Prop :=
  ∀ task,
    lockAfter (decide (tasks.lock = some task)) (tasks.code task) = some false

theorem Tasks.Locked.disciplined
    {tasks : Tasks}
    (locked : tasks.Locked) :
    tasks.Disciplined := by
  have inside (task : Nat) (instr : Instr) (rest : List Instr)
      (next : tasks.code task = instr :: rest)
      (isInside : instr.inside = true) : tasks.lock = some task := by
    have known := locked task
    rw [next, lockAfter_cons] at known
    by_contra other
    rw [decide_eq_false other] at known
    cases instr <;> simp [Instr.lock, Instr.inside] at known isInside
  refine ⟨inside, ?_, ?_⟩
  · intro first second instr other rest more next isInside further also
    have holder := inside first instr rest next isInside
    exact Option.some.inj
      (holder.symm.trans (inside second other more further also))
  · intro task rest next holds
    have known := locked task
    rw [next, lockAfter_cons, decide_eq_true holds] at known
    cases known

/-! ## Streams sent to a listener -/

/-- The instruction may run between a callback's start and its send. -/
def Instr.passes : Instr → Bool
  | access _ => true
  | callback _ => true
  | send _ => true
  | _ => false

/-- Nothing is sent to a listener. -/
def SendsNothing (code : List Instr) : Prop :=
  ∀ listener, .send listener ∉ code

/-- What is sent is sent before anything else happens. -/
def SendsFirst : List Instr → Prop
  | [] => True
  | instr :: rest =>
      (instr.passes = true ∨ SendsNothing rest) ∧ SendsFirst rest

theorem SendsNothing.first
    {code : List Instr}
    (nothing : SendsNothing code) :
    SendsFirst code := by
  induction code with
  | nil =>
      trivial
  | cons instr rest inductionHypothesis =>
      have behind : SendsNothing rest := fun listener member =>
        nothing listener (List.mem_cons_of_mem _ member)
      exact ⟨.inr behind, inductionHypothesis behind⟩

theorem SendsFirst.append
    {front rest : List Instr}
    (passes : ∀ instr ∈ front, instr.passes = true)
    (behind : SendsFirst rest) :
    SendsFirst (front ++ rest) := by
  induction front with
  | nil =>
      exact behind
  | cons instr front inductionHypothesis =>
      obtain ⟨first, others⟩ := List.forall_mem_cons.mp passes
      exact ⟨.inl first, inductionHypothesis others⟩

theorem Callback.passes_code
    (callback : Callback) :
    ∀ instr ∈ callback.code, instr.passes = true := by
  cases callback <;> simp [code, tcpStreamNew, Instr.lwip, Instr.passes]

/-! ## The code of a listener -/

/-- The listener whose life the instruction is about. -/
def Instr.listener : Instr → Option Nat
  | openChannel listener => some listener
  | setArg listener _ => some listener
  | hand listener => some listener
  | dropChannel listener => some listener
  | _ => none

/-- The task is making or dropping the listener. -/
def Touches (listener : Nat) (code : List Instr) : Prop :=
  ∃ instr ∈ code, instr.listener = some listener

/-- From the given state on, lwIP is given the listener's address only while
its channel is there, and the channel goes only when the address is gone. -/
def ListenerRight (listener : Nat) : Bool → Bool → List Instr → Prop
  | _, _, [] => True
  | armed, receiver, instr :: rest =>
      if instr.listener = some listener then
        match instr with
        | .openChannel _ => ListenerRight listener armed true rest
        | .setArg _ nonNull =>
            (nonNull = true → receiver = true) ∧
              ListenerRight listener nonNull receiver rest
        | .dropChannel _ =>
            armed = false ∧ ListenerRight listener armed false rest
        | _ => ¬Touches listener rest
      else
        ListenerRight listener armed receiver rest

theorem touches_append
    {listener : Nat}
    {front rest : List Instr}
    (neutral : ∀ instr ∈ front, instr.listener = none) :
    Touches listener (front ++ rest) ↔ Touches listener rest := by
  constructor
  · rintro ⟨instr, member, about⟩
    rcases List.mem_append.mp member with member | member
    · rw [neutral instr member] at about
      cases about
    · exact ⟨instr, member, about⟩
  · rintro ⟨instr, member, about⟩
    exact ⟨instr, List.mem_append_right _ member, about⟩

/-- The instruction at the head is about no listener, or about another one. -/
theorem listenerRight_cons
    {listener : Nat}
    {armed receiver : Bool}
    {instr : Instr}
    {rest : List Instr}
    (other : instr.listener ≠ some listener) :
    ListenerRight listener armed receiver (instr :: rest) ↔
      ListenerRight listener armed receiver rest := by
  cases armed <;> cases receiver <;> cases instr <;>
    simp only [ListenerRight, if_neg other]

theorem listenerRight_append
    {listener : Nat}
    {armed receiver : Bool}
    {front rest : List Instr}
    (neutral : ∀ instr ∈ front, instr.listener = none) :
    ListenerRight listener armed receiver (front ++ rest) ↔
      ListenerRight listener armed receiver rest := by
  induction front with
  | nil =>
      exact Iff.rfl
  | cons instr front inductionHypothesis =>
      obtain ⟨first, others⟩ := List.forall_mem_cons.mp neutral
      have other : instr.listener ≠ some listener := by
        rw [first]
        simp
      exact (listenerRight_cons other).trans (inductionHypothesis others)

theorem Touches.cons
    {listener : Nat}
    {rest : List Instr}
    (touches : Touches listener rest)
    (instr : Instr) :
    Touches listener (instr :: rest) := by
  obtain ⟨about, member, same⟩ := touches
  exact ⟨about, List.mem_cons_of_mem _ member, same⟩

/-! ## The invariant -/

/-- What holds of the code that a task has left. -/
structure Coded (tasks : Tasks) (task : Nat) (code : List Instr) : Prop where
  locked : lockAfter (decide (tasks.lock = some task)) code = some false
  sends :
    ∀ listener, .send listener ∈ code →
      (tasks.listener listener).armed = true ∧ tasks.lock = some task
  first : SendsFirst code
  free :
    ∀ listener, Touches listener code →
      listener < tasks.nextListener ∧
        (tasks.listener listener).owned = false
  right :
    ∀ listener, Touches listener code →
      ListenerRight listener (tasks.listener listener).armed
        (tasks.listener listener).receiver code

/-- The invariant of the tasks: the lock is taken and given back in turn, what
is on its way to a listener finds its channel, and a listener is made or
dropped by one task. -/
structure Orderly (tasks : Tasks) : Prop where
  coded : ∀ task, Coded tasks task (tasks.code task)
  receiver :
    ∀ listener, (tasks.listener listener).armed = true →
      (tasks.listener listener).receiver = true
  fresh :
    ∀ listener, tasks.nextListener ≤ listener →
      (tasks.listener listener).owned = false
  single :
    ∀ first second listener,
      Touches listener (tasks.code first) →
        Touches listener (tasks.code second) → first = second

theorem Orderly.disciplined
    {tasks : Tasks}
    (orderly : Orderly tasks) :
    tasks.Disciplined :=
  Tasks.Locked.disciplined fun task => (orderly.coded task).locked

theorem Tasks.AtRest.orderly
    {tasks : Tasks}
    (rest : tasks.AtRest) :
    Orderly tasks := by
  have idle (listener task : Nat) : ¬Touches listener (tasks.code task) := by
    rw [rest.code task]
    rintro ⟨instr, member, -⟩
    cases member
  refine ⟨?_, rest.receiver, ?_, ?_⟩
  · intro task
    refine ⟨?_, ?_, ?_, ?_, ?_⟩
    · rw [rest.code task, rest.lock]
      rfl
    · intro listener member
      rw [rest.code task] at member
      cases member
    · rw [rest.code task]
      trivial
    · intro listener touches
      exact absurd touches (idle listener task)
    · intro listener touches
      exact absurd touches (idle listener task)
  · intro listener beyond
    rw [rest.fresh listener beyond]
  · intro first second listener touches
    exact absurd touches (idle listener first)

/-- The same listener but for what is in its channel. -/
def ListenerBox.Alike (before after : ListenerBox) : Prop :=
  after.armed = before.armed ∧ after.receiver = before.receiver ∧
    after.owned = before.owned

theorem ListenerBox.Alike.refl
    (box : ListenerBox) :
    ListenerBox.Alike box box :=
  ⟨rfl, rfl, rfl⟩

theorem Tasks.setListener_alike
    (tasks : Tasks)
    (listener : Nat)
    (change : ListenerBox → ListenerBox)
    (same :
      (tasks.listener listener).Alike (change (tasks.listener listener)))
    (another : Nat) :
    (tasks.listener another).Alike
      ((tasks.setListener listener change).listener another) := by
  unfold Tasks.setListener
  by_cases here : another = listener
  · subst here
    dsimp only
    rw [Function.update_self]
    exact same
  · dsimp only
    rw [Function.update_of_ne here]
    exact ListenerBox.Alike.refl _

/-- The code of a task while another one makes a step. -/
theorem Coded.frame
    {before after : Tasks}
    {task : Nat}
    {code : List Instr}
    (coded : Coded before task code)
    (lock : after.lock = some task ↔ before.lock = some task)
    (next : before.nextListener ≤ after.nextListener)
    (armed :
      ∀ listener, .send listener ∈ code →
        (before.listener listener).armed = true →
          (after.listener listener).armed = true)
    (alike :
      ∀ listener, Touches listener code →
        (before.listener listener).Alike (after.listener listener)) :
    Coded after task code := by
  refine ⟨?_, ?_, coded.first, ?_, ?_⟩
  · rw [decide_eq_decide.mpr lock]
    exact coded.locked
  · intro listener member
    obtain ⟨earlier, holds⟩ := coded.sends listener member
    exact ⟨armed listener member earlier, lock.mpr holds⟩
  · intro listener touches
    obtain ⟨known, free⟩ := coded.free listener touches
    refine ⟨by omega, ?_⟩
    rw [(alike listener touches).2.2]
    exact free
  · intro listener touches
    obtain ⟨sameArmed, sameReceiver, -⟩ := alike listener touches
    rw [sameArmed, sameReceiver]
    exact coded.right listener touches

/-- A step of one task, by what the others see of it. -/
theorem Orderly.becomes
    {before after : Tasks}
    (orderly : Orderly before)
    (task : Nat)
    {code : List Instr}
    (goesOn : after.code = Function.update before.code task code)
    (next : before.nextListener ≤ after.nextListener)
    (lock :
      ∀ other, other ≠ task →
        (after.lock = some other ↔ before.lock = some other))
    (armed :
      ∀ other, other ≠ task →
        ∀ listener, .send listener ∈ before.code other →
          (before.listener listener).armed = true →
            (after.listener listener).armed = true)
    (alike :
      ∀ other, other ≠ task →
        ∀ listener, Touches listener (before.code other) →
          (before.listener listener).Alike (after.listener listener))
    (coded : Coded after task code)
    (receiver :
      ∀ listener, (after.listener listener).armed = true →
        (after.listener listener).receiver = true)
    (fresh :
      ∀ listener, after.nextListener ≤ listener →
        (after.listener listener).owned = false)
    (touches :
      ∀ other, other ≠ task →
        ∀ listener, Touches listener code →
          ¬Touches listener (before.code other)) :
    Orderly after := by
  have own : after.code task = code := by
    rw [goesOn, Function.update_self]
  have others (other : Nat) (differs : other ≠ task) :
      after.code other = before.code other := by
    rw [goesOn, Function.update_of_ne differs]
  refine ⟨?_, receiver, fresh, ?_⟩
  · intro other
    by_cases same : other = task
    · subst same
      rw [own]
      exact coded
    · rw [others other same]
      exact (orderly.coded other).frame (lock other same) next
        (armed other same) (alike other same)
  · intro first second listener touchesFirst touchesSecond
    by_cases isFirst : first = task
    · by_cases isSecond : second = task
      · rw [isFirst, isSecond]
      · rw [isFirst, own] at touchesFirst
        rw [others second isSecond] at touchesSecond
        exact absurd touchesSecond
          (touches second isSecond listener touchesFirst)
    · rw [others first isFirst] at touchesFirst
      by_cases isSecond : second = task
      · rw [isSecond, own] at touchesSecond
        exact absurd touchesFirst
          (touches first isFirst listener touchesSecond)
      · rw [others second isSecond] at touchesSecond
        exact orderly.single first second listener touchesFirst touchesSecond

/-! ## The steps -/

theorem SendsNothing.append
    {front rest : List Instr}
    (nothing : SendsNothing front)
    (behind : SendsNothing rest) :
    SendsNothing (front ++ rest) := by
  intro listener member
  rcases List.mem_append.mp member with member | member
  · exact nothing listener member
  · exact behind listener member

/-- An instruction that is about no listener makes room for `front`. -/
theorem Orderly.passes
    {before after : Tasks}
    (orderly : Orderly before)
    {task : Nat}
    {instr : Instr}
    {rest : List Instr}
    (front : List Instr)
    (code : before.code task = instr :: rest)
    (about : instr.listener = none)
    (neutral : ∀ instr ∈ front, instr.listener = none)
    (goesOn : after.code = Function.update before.code task (front ++ rest))
    (next : after.nextListener = before.nextListener)
    (alike :
      ∀ listener,
        (before.listener listener).Alike (after.listener listener))
    (lock :
      ∀ other, other ≠ task →
        (after.lock = some other ↔ before.lock = some other))
    (locked :
      lockAfter (decide (after.lock = some task)) (front ++ rest) =
        some false)
    (sends :
      ∀ listener, .send listener ∈ front ++ rest →
        (before.listener listener).armed = true ∧ after.lock = some task)
    (first : SendsFirst (front ++ rest)) :
    Orderly after := by
  have known := orderly.coded task
  rw [code] at known
  have other (listener : Nat) : instr.listener ≠ some listener := by
    rw [about]
    simp
  have behind {listener : Nat} (touches : Touches listener (front ++ rest)) :
      Touches listener (instr :: rest) :=
    ((touches_append neutral).mp touches).cons instr
  refine orderly.becomes task goesOn (by omega) lock ?_ ?_ ?_ ?_ ?_ ?_
  · intro another _ listener _ armed
    rw [(alike listener).1]
    exact armed
  · intro another _ listener _
    exact alike listener
  · refine ⟨locked, ?_, first, ?_, ?_⟩
    · intro listener member
      rw [(alike listener).1]
      exact sends listener member
    · intro listener touches
      rw [(alike listener).2.2, next]
      exact known.free listener (behind touches)
    · intro listener touches
      rw [(alike listener).1, (alike listener).2.1,
        listenerRight_append neutral]
      exact (listenerRight_cons (other listener)).mp
        (known.right listener (behind touches))
  · intro listener armed
    rw [(alike listener).1] at armed
    rw [(alike listener).2.1]
    exact orderly.receiver listener armed
  · intro listener beyond
    rw [(alike listener).2.2]
    exact orderly.fresh listener (by omega)
  · intro another differs listener touches also
    have own : Touches listener (before.code task) := by
      rw [code]
      exact behind touches
    exact differs (orderly.single another task listener also own)

/-- An instruction about a listener changes that listener only. -/
theorem Orderly.tells
    {before : Tasks}
    (orderly : Orderly before)
    {task listener : Nat}
    {instr : Instr}
    {rest : List Instr}
    (front : List Instr)
    (change : ListenerBox → ListenerBox)
    (code : before.code task = instr :: rest)
    (about : instr.listener = some listener)
    (neutral : ∀ instr ∈ front, instr.listener = none)
    (locked :
      lockAfter (decide (before.lock = some task)) (front ++ rest) =
        some false)
    (nothing : SendsNothing (front ++ rest))
    (disarms :
      (before.listener listener).armed = true →
        (change (before.listener listener)).armed = true ∨
          before.lock = some task)
    (receiver :
      (change (before.listener listener)).armed = true →
        (change (before.listener listener)).receiver = true)
    (right :
      Touches listener rest →
        (change (before.listener listener)).owned = false ∧
          ListenerRight listener
            (change (before.listener listener)).armed
            (change (before.listener listener)).receiver rest) :
    Orderly
      ((before.goOn task (front ++ rest)).setListener listener change) := by
  have known := orderly.coded task
  rw [code] at known
  have touched : Touches listener (instr :: rest) :=
    ⟨instr, List.mem_cons_self, about⟩
  have own : Touches listener (before.code task) := by
    rw [code]
    exact touched
  have elsewhere {another : Nat} (differs : another ≠ listener) :
      (Tasks.setListener (before.goOn task (front ++ rest)) listener
          change).listener another = before.listener another :=
    Function.update_of_ne differs _ _
  have here :
      (Tasks.setListener (before.goOn task (front ++ rest)) listener
          change).listener listener = change (before.listener listener) :=
    Function.update_self _ _ _
  have behind {another : Nat} (touches : Touches another (front ++ rest)) :
      Touches another (instr :: rest) :=
    ((touches_append neutral).mp touches).cons instr
  refine orderly.becomes task rfl (Nat.le_refl _) (fun _ _ => Iff.rfl)
    ?_ ?_ ?_ ?_ ?_ ?_
  · intro another differs subject member armed
    by_cases same : subject = listener
    · subst same
      rw [here]
      rcases disarms armed with armed | holds
      · exact armed
      · have holds' := ((orderly.coded another).sends subject member).2
        rw [holds] at holds'
        exact absurd (Option.some.inj holds').symm differs
    · rw [elsewhere same]
      exact armed
  · intro another differs subject touches
    by_cases same : subject = listener
    · subst same
      exact absurd (orderly.single another task subject touches own) differs
    · rw [elsewhere same]
      exact ListenerBox.Alike.refl _
  · refine ⟨locked, ?_, nothing.first, ?_, ?_⟩
    · intro another member
      exact absurd member (nothing another)
    · intro another touches
      refine ⟨(known.free another (behind touches)).1, ?_⟩
      by_cases same : another = listener
      · subst same
        rw [here]
        exact (right ((touches_append neutral).mp touches)).1
      · rw [elsewhere same]
        exact (known.free another (behind touches)).2
    · intro another touches
      rw [listenerRight_append neutral]
      by_cases same : another = listener
      · subst same
        rw [here]
        exact (right ((touches_append neutral).mp touches)).2
      · rw [elsewhere same]
        have other : instr.listener ≠ some another := by
          rw [about]
          exact fun equal => same (Option.some.inj equal).symm
        exact (listenerRight_cons other).mp
          (known.right another (behind touches))
  · intro another armed
    by_cases same : another = listener
    · subst same
      rw [here] at armed ⊢
      exact receiver armed
    · rw [elsewhere same] at armed ⊢
      exact orderly.receiver another armed
  · intro another beyond
    have within : listener < before.nextListener :=
      (known.free listener touched).1
    have same : another ≠ listener := by
      rintro rfl
      exact absurd within (Nat.not_lt.mpr beyond)
    rw [elsewhere same]
    exact orderly.fresh another beyond
  · intro another differs subject touches also
    have own : Touches subject (before.code task) := by
      rw [code]
      exact behind touches
    exact differs (orderly.single another task subject also own)

/-- An instruction under the lock that is about no listener, and after it the
task goes on with `front`. -/
theorem Orderly.goOn
    {tasks : Tasks}
    (orderly : Orderly tasks)
    {task : Nat}
    {instr : Instr}
    {rest : List Instr}
    (front : List Instr)
    (code : tasks.code task = instr :: rest)
    (about : instr.listener = none)
    (passes : ∀ instr ∈ front, instr.passes = true)
    (keeps : Instr.lock true instr = some true)
    (inside : instr.inside = true)
    (locked : lockAfter true front = some true)
    (sends :
      ∀ listener, .send listener ∈ front →
        (tasks.listener listener).armed = true) :
    Orderly (tasks.goOn task (front ++ rest)) := by
  have known := orderly.coded task
  have holds : tasks.lock = some task :=
    orderly.disciplined.inside task instr rest code inside
  have held : decide (tasks.lock = some task) = true := decide_eq_true holds
  rw [code] at known
  refine orderly.passes front code about ?_ rfl rfl
    (fun listener => ListenerBox.Alike.refl _) (fun _ _ => Iff.rfl) ?_ ?_ ?_
  · intro other member
    have passing := passes other member
    cases other <;> first | rfl | cases passing
  · have behind := known.locked
    rw [held, lockAfter_cons, keeps] at behind
    show lockAfter (decide (tasks.lock = some task)) (front ++ rest) = _
    rw [held, lockAfter_append locked]
    exact behind
  · intro listener member
    refine ⟨?_, holds⟩
    rcases List.mem_append.mp member with member | member
    · exact sends listener member
    · exact (known.sends listener (List.mem_cons_of_mem _ member)).1
  · exact SendsFirst.append passes known.first.2

/-- After an instruction that nothing is sent behind. -/
theorem Coded.nothing
    {tasks : Tasks}
    {task : Nat}
    {instr : Instr}
    {rest : List Instr}
    (coded : Coded tasks task (instr :: rest))
    (stops : instr.passes = false) :
    SendsNothing rest := by
  rcases coded.first.1 with passing | nothing
  · rw [stops] at passing
    cases passing
  · exact nothing

theorem sendsNothing_dropTcpStream
    (errored closed : Bool) :
    SendsNothing (dropTcpStream errored closed) := by
  intro listener
  cases errored <;> cases closed <;>
    simp [dropTcpStream, Instr.lwip]

theorem neutral_dropTcpStream
    (errored closed : Bool) :
    ∀ instr ∈ dropTcpStream errored closed, instr.listener = none := by
  cases errored <;> cases closed <;>
    simp [dropTcpStream, Instr.lwip, Instr.listener]

theorem Orderly.execute
    {tasks : Tasks}
    (orderly : Orderly tasks)
    {task : Nat}
    {instr : Instr}
    {rest : List Instr}
    (code : tasks.code task = instr :: rest)
    (callbacks : List Callback)
    (errored closed : Bool) :
    Orderly (tasks.execute task callbacks errored closed rest instr) := by
  have known := orderly.coded task
  rw [code] at known
  have locked := known.locked
  rw [lockAfter_cons] at locked
  cases instr with
  | acquire =>
      simp only [Tasks.execute]
      split
      · rename_i free
        have nothing := known.nothing rfl
        rw [free] at locked
        refine orderly.passes [] code rfl (by simp) rfl rfl
          (fun listener => ListenerBox.Alike.refl _) ?_ ?_ ?_ nothing.first
        · intro other differs
          rw [free]
          constructor
          · rintro ⟨⟩
            exact absurd rfl differs
          · rintro ⟨⟩
        · rw [decide_eq_true rfl]
          exact locked
        · intro listener member
          exact absurd member (nothing listener)
      · exact orderly
  | release =>
      have nothing := known.nothing rfl
      have holds : tasks.lock = some task := by
        by_contra other
        rw [decide_eq_false other] at locked
        cases locked
      rw [decide_eq_true holds] at locked
      refine orderly.passes [] code rfl (by simp) rfl rfl
        (fun listener => ListenerBox.Alike.refl _) ?_ locked ?_ nothing.first
      · intro other differs
        rw [holds]
        constructor
        · rintro ⟨⟩
        · rintro ⟨⟩
          exact absurd rfl differs
      · intro listener member
        exact absurd member (nothing listener)
  | access place =>
      refine orderly.goOn _ code rfl ?_ rfl rfl (lockAfter_callbacks callbacks)
        ?_
      · intro other member
        obtain ⟨callback, -, rfl⟩ := List.mem_map.mp member
        rfl
      · intro listener member
        obtain ⟨callback, -, same⟩ := List.mem_map.mp member
        cases same
  | openChannel listener =>
      simp only [Tasks.execute]
      refine orderly.tells [] _ code rfl (by simp) locked
        (known.nothing rfl) .inl ?_ ?_
      · intro _
        rfl
      · intro touches
        have right := known.right listener ⟨_, List.mem_cons_self, rfl⟩
        simp only [ListenerRight, Instr.listener, if_true] at right
        exact ⟨(known.free listener (touches.cons _)).2, right⟩
  | setArg listener nonNull =>
      have holds :=
        orderly.disciplined.inside task (.setArg listener nonNull) rest code rfl
      have right := known.right listener ⟨_, List.mem_cons_self, rfl⟩
      simp only [ListenerRight, Instr.listener, if_true] at right
      rw [decide_eq_true holds] at locked
      simp only [Tasks.execute]
      refine orderly.tells [] _ code rfl (by simp) ?_
        (known.nothing rfl) (fun _ => .inr holds) right.1 ?_
      · rw [decide_eq_true holds]
        exact locked
      · intro touches
        exact ⟨(known.free listener (touches.cons _)).2, right.2⟩
  | hand listener =>
      have right := known.right listener ⟨_, List.mem_cons_self, rfl⟩
      simp only [ListenerRight, Instr.listener, if_true] at right
      simp only [Tasks.execute]
      refine orderly.tells [] _ code rfl (by simp) locked
        (known.nothing rfl) .inl (orderly.receiver listener) ?_
      intro touches
      exact absurd touches right
  | callback callback =>
      cases callback with
      | tcpAcceptCb listener =>
          simp only [Tasks.execute]
          split
          · rename_i armed
            refine orderly.goOn _ code rfl (Callback.passes_code _) rfl rfl
              (Callback.lockAfter_code _) ?_
            intro other member
            have same : other = listener := by
              simpa [Callback.code, tcpStreamNew, Instr.lwip] using member
            rw [same]
            exact armed
          · exact orderly.goOn [] code rfl (by simp) rfl rfl rfl
              (by simp)
      | _ =>
          refine orderly.goOn _ code rfl (Callback.passes_code _) rfl rfl
            (Callback.lockAfter_code _) ?_
          intro other member
          simp [Callback.code, Instr.lwip] at member
  | send listener =>
      obtain ⟨armed, holds⟩ := known.sends listener List.mem_cons_self
      rw [decide_eq_true holds] at locked
      simp only [Tasks.execute]
      rw [if_pos (orderly.receiver listener armed)]
      refine orderly.passes [] code rfl (by simp) rfl rfl
        (Tasks.setListener_alike (tasks.goOn task rest) listener _ ⟨rfl, rfl, rfl⟩)
        (fun _ _ => Iff.rfl) ?_ ?_ known.first.2
      · show lockAfter (decide (tasks.lock = some task)) rest = _
        rw [decide_eq_true holds]
        exact locked
      · intro another member
        exact known.sends another (List.mem_cons_of_mem _ member)
  | receive listener =>
      simp only [Tasks.execute]
      refine orderly.passes [] code rfl (by simp) rfl rfl
        (Tasks.setListener_alike (tasks.goOn task rest) listener _ ⟨rfl, rfl, rfl⟩)
        (fun _ _ => Iff.rfl) locked ?_ (known.nothing rfl).first
      intro another member
      exact absurd member (known.nothing rfl another)
  | dropStream =>
      have nothing := known.nothing rfl
      have free : decide (tasks.lock = some task) = false := by
        by_contra held
        rw [Bool.not_eq_false] at held
        rw [held] at locked
        cases locked
      rw [free] at locked
      refine orderly.passes _ code rfl (neutral_dropTcpStream errored closed)
        rfl rfl (fun listener => ListenerBox.Alike.refl _)
        (fun _ _ => Iff.rfl) ?_ ?_ ?_
      · show lockAfter (decide (tasks.lock = some task)) _ = _
        rw [free, lockAfter_append (lockAfter_dropTcpStream errored closed)]
        exact locked
      · intro listener member
        exact absurd member
          ((sendsNothing_dropTcpStream errored closed).append nothing
            listener)
      · exact
          ((sendsNothing_dropTcpStream errored closed).append nothing).first
  | dropChannel listener =>
      have nothing := known.nothing rfl
      have right := known.right listener ⟨_, List.mem_cons_self, rfl⟩
      simp only [ListenerRight, Instr.listener, if_true] at right
      have free : decide (tasks.lock = some task) = false := by
        by_contra held
        rw [Bool.not_eq_false] at held
        rw [held] at locked
        cases locked
      rw [free] at locked
      have streams :
          SendsNothing
            (List.replicate (tasks.listener listener).queued
              Instr.dropStream) := by
        intro another member
        cases (List.mem_replicate.mp member).2
      simp only [Tasks.execute]
      refine orderly.tells _ _ code rfl ?_ ?_ (streams.append nothing) .inl ?_ ?_
      · intro instr member
        rw [(List.mem_replicate.mp member).2]
        rfl
      · rw [free, lockAfter_append (lockAfter_replicate false _ rfl)]
        exact locked
      · intro armed
        exact absurd (right.1.symm.trans armed) (by decide)
      · intro touches
        exact ⟨(known.free listener (touches.cons _)).2, right.2⟩

/-! ## Operations start -/

/-- The instruction sends a stream. -/
def Instr.sends : Instr → Bool
  | send _ => true
  | _ => false

theorem sendsNothing_of_all
    {code : List Instr}
    (silent : code.all (fun instr => !instr.sends) = true) :
    SendsNothing code := by
  intro listener member
  have stays := List.all_eq_true.mp silent _ member
  cases stays

theorem Operation.sendsNothing
    (operation : Operation)
    (listener : Nat) :
    SendsNothing (operation.code listener) := by
  cases operation with
  | netStackNew first result bound =>
      refine sendsNothing_of_all ?_
      cases first <;> cases result <;> cases bound <;> rfl
  | sinkPollReady result =>
      refine sendsNothing_of_all ?_
      cases result <;> rfl
  | sinkPollFlush result =>
      refine sendsNothing_of_all ?_
      cases result <;> rfl
  | tcpListenerNew result =>
      refine sendsNothing_of_all ?_
      cases result <;> rfl
  | streamPollWrite result =>
      refine sendsNothing_of_all ?_
      cases result <;> rfl
  | streamPollFlush errored =>
      refine sendsNothing_of_all ?_
      cases errored <;> rfl
  | streamPollShutdown errored =>
      refine sendsNothing_of_all ?_
      cases errored <;> rfl
  | streamPollRead chunks =>
      intro other member
      simp [code, Instr.lwip] at member
  | _ =>
      exact sendsNothing_of_all rfl

theorem not_touches_of_all
    {code : List Instr}
    (free : code.all (fun instr => instr.listener.isNone) = true)
    (listener : Nat) :
    ¬Touches listener code := by
  rintro ⟨instr, member, about⟩
  have neutral := List.all_eq_true.mp free instr member
  rw [about] at neutral
  cases neutral

/-- A guarded operation that starts is about a listener it drops or a new
one. -/
theorem Operation.Guarded.touches
    {operation : Operation}
    (guarded : operation.Guarded)
    (listener : Nat)
    {other : Nat}
    (touches : Touches other (operation.code listener)) :
    operation = .dropTcpListener other ∨
      operation = .tcpListenerNew .ok ∧ other = listener := by
  cases operation with
  | netStackNew first result bound =>
      exact guarded.elim
  | dropTcpListener dropped =>
      obtain ⟨instr, member, about⟩ := touches
      have same : instr.listener = none ∨ instr.listener = some dropped := by
        revert instr
        simp [code, NetstackLwip.dropTcpListener, Instr.lwip, Instr.listener]
      rw [about] at same
      rcases same with impossible | same
      · cases impossible
      · rw [Option.some.inj same]
        exact .inl rfl
  | tcpListenerNew result =>
      cases result with
      | ok =>
          obtain ⟨instr, member, about⟩ := touches
          have same :
              instr.listener = none ∨ instr.listener = some listener := by
            revert instr
            simp [code, NetstackLwip.tcpListenerNew, Instr.lwip,
              Instr.listener]
          rw [about] at same
          rcases same with impossible | same
          · cases impossible
          · exact .inr ⟨rfl, Option.some.inj same⟩
      | bindFailed =>
          exact absurd touches (not_touches_of_all rfl other)
      | listenFailed =>
          exact absurd touches (not_touches_of_all rfl other)
  | sinkPollReady result =>
      refine absurd touches (not_touches_of_all ?_ other)
      cases result <;> rfl
  | sinkPollFlush result =>
      refine absurd touches (not_touches_of_all ?_ other)
      cases result <;> rfl
  | streamPollWrite result =>
      refine absurd touches (not_touches_of_all ?_ other)
      cases result <;> rfl
  | streamPollFlush errored =>
      refine absurd touches (not_touches_of_all ?_ other)
      cases errored <;> rfl
  | streamPollShutdown errored =>
      refine absurd touches (not_touches_of_all ?_ other)
      cases errored <;> rfl
  | streamPollRead chunks =>
      obtain ⟨instr, member, about⟩ := touches
      simp only [code, List.mem_append, List.mem_singleton,
        List.mem_replicate] at member
      rcases member with (rfl | ⟨-, rfl⟩) | rfl <;> cases about
  | _ =>
      exact absurd touches (not_touches_of_all rfl other)

theorem listenerRight_dropTcpListener
    (listener : Nat)
    (armed receiver : Bool) :
    ListenerRight listener armed receiver (dropTcpListener listener) := by
  simp [dropTcpListener, ListenerRight, Instr.lwip, Instr.listener]

theorem listenerRight_tcpListenerNew
    (listener : Nat)
    (armed receiver : Bool) :
    ListenerRight listener armed receiver
      ((Operation.tcpListenerNew .ok).code listener) := by
  simp [Operation.code, tcpListenerNew, ListenerRight, Touches, Instr.lwip,
    Instr.listener]

/-- The lock is free of an idle task. -/
theorem Orderly.idle
    {tasks : Tasks}
    (orderly : Orderly tasks)
    {task : Nat}
    (idle : tasks.code task = []) :
    decide (tasks.lock = some task) = false := by
  have locked := (orderly.coded task).locked
  rw [idle] at locked
  exact Option.some.inj locked

theorem Tasks.start_cases
    {tasks after : Tasks}
    {task : Nat}
    {operation : Operation}
    (started : tasks.start task operation = .ok after) :
    tasks.code task = [] ∧
      ((∃ listener,
          operation = .dropTcpListener listener ∧
            (tasks.listener listener).owned = true ∧
            after =
              (tasks.goOn task (dropTcpListener listener)).setListener
                listener fun box => { box with owned := false }) ∨
        (∀ listener, operation ≠ .dropTcpListener listener) ∧
          after = {
            tasks.goOn task (operation.code tasks.nextListener) with
            nextListener := tasks.nextListener + 1 }) := by
  unfold Tasks.start at started
  split at started
  · rename_i idle
    refine ⟨idle, ?_⟩
    cases operation with
    | dropTcpListener listener =>
        dsimp only at started
        split at started
        · rename_i owned
          exact .inl
            ⟨listener, rfl, owned, (Except.ok.inj started).symm⟩
        · cases started
    | _ =>
        refine .inr ⟨?_, (Except.ok.inj started).symm⟩
        rintro listener ⟨⟩
  · cases started

/-- The task that starts has the code of the operation. -/
theorem Tasks.start_code
    {tasks after : Tasks}
    {task : Nat}
    {operation : Operation}
    (started : tasks.start task operation = .ok after) :
    after.code task = operation.code tasks.nextListener ∧
      after.lock = tasks.lock := by
  obtain ⟨idle, ⟨listener, rfl, owned, rfl⟩ | ⟨others, rfl⟩⟩ :=
    Tasks.start_cases started
  · exact ⟨Function.update_self _ _ _, rfl⟩
  · exact ⟨Function.update_self _ _ _, rfl⟩

theorem Orderly.start
    {tasks after : Tasks}
    {task : Nat}
    {operation : Operation}
    (orderly : Orderly tasks)
    (guarded : operation.Guarded)
    (started : tasks.start task operation = .ok after) :
    Orderly after := by
  obtain ⟨idle, ⟨listener, rfl, owned, rfl⟩ | ⟨others, rfl⟩⟩ :=
    Tasks.start_cases started
  · have free := orderly.idle idle
    have nothing := Operation.sendsNothing (.dropTcpListener listener) 0
    have untouched (another : Nat) :
        ¬Touches listener (tasks.code another) := by
      intro touches
      have known := ((orderly.coded another).free listener touches).2
      rw [owned] at known
      cases known
    have elsewhere {another : Nat} (differs : another ≠ listener) :
        (Tasks.setListener (tasks.goOn task (dropTcpListener listener))
            listener fun box => { box with owned := false }).listener another =
          tasks.listener another :=
      Function.update_of_ne differs _ _
    have here :
        (Tasks.setListener (tasks.goOn task (dropTcpListener listener))
            listener fun box => { box with owned := false }).listener
              listener =
          { tasks.listener listener with owned := false } :=
      Function.update_self _ _ _
    have about {another : Nat}
        (touches : Touches another (dropTcpListener listener)) :
        another = listener := by
      rcases guarded.touches 0 touches with same | ⟨⟨⟩, -⟩
      · cases same
        rfl
    refine orderly.becomes task rfl (Nat.le_refl _) (fun _ _ => Iff.rfl)
      ?_ ?_ ⟨?_, ?_, nothing.first, ?_, ?_⟩ ?_ ?_ ?_
    · intro another _ subject _ armed
      by_cases same : subject = listener
      · subst same
        rw [here]
        exact armed
      · rw [elsewhere same]
        exact armed
    · intro another _ subject touches
      have same : subject ≠ listener := by
        rintro rfl
        exact untouched another touches
      rw [elsewhere same]
      exact ListenerBox.Alike.refl _
    · show lockAfter (decide (tasks.lock = some task)) _ = _
      rw [free]
      exact guarded.lockAfter 0
    · intro another member
      exact absurd member (nothing another)
    · intro another touches
      rw [about touches, here]
      refine ⟨?_, rfl⟩
      by_contra beyond
      have free := orderly.fresh listener (Nat.not_lt.mp beyond)
      rw [owned] at free
      cases free
    · intro another touches
      rw [about touches]
      exact listenerRight_dropTcpListener listener _ _
    · intro another armed
      by_cases same : another = listener
      · subst same
        rw [here] at armed ⊢
        exact orderly.receiver another armed
      · rw [elsewhere same] at armed ⊢
        exact orderly.receiver another armed
    · intro another beyond
      by_cases same : another = listener
      · subst same
        rw [here]
      · rw [elsewhere same]
        exact orderly.fresh another beyond
    · intro another _ subject touches
      rw [about touches]
      exact untouched another
  · have free := orderly.idle idle
    have nothing := operation.sendsNothing tasks.nextListener
    have about {another : Nat}
        (touches : Touches another (operation.code tasks.nextListener)) :
        operation = .tcpListenerNew .ok ∧ another = tasks.nextListener := by
      rcases guarded.touches _ touches with same | made
      · exact absurd same (others another)
      · exact made
    refine orderly.becomes task rfl (Nat.le_succ _) (fun _ _ => Iff.rfl)
      ?_ ?_ ⟨?_, ?_, nothing.first, ?_, ?_⟩ ?_ ?_ ?_
    · intro another _ listener _ armed
      exact armed
    · intro another _ listener _
      exact ListenerBox.Alike.refl _
    · show lockAfter (decide (tasks.lock = some task)) _ = _
      rw [free]
      exact guarded.lockAfter tasks.nextListener
    · intro listener member
      exact absurd member (nothing listener)
    · intro listener touches
      obtain ⟨-, rfl⟩ := about touches
      exact ⟨Nat.lt_succ_self _, orderly.fresh _ (Nat.le_refl _)⟩
    · intro listener touches
      obtain ⟨rfl, rfl⟩ := about touches
      exact listenerRight_tcpListenerNew _ _ _
    · exact orderly.receiver
    · intro listener beyond
      exact orderly.fresh listener (Nat.le_of_succ_le beyond)
    · intro another _ listener touches also
      obtain ⟨-, rfl⟩ := about touches
      exact absurd ((orderly.coded another).free _ also).1
        (Nat.lt_irrefl _)

/-! ## Over whole runs -/

theorem Orderly.step
    {tasks after : Tasks}
    {event : TaskEvent}
    (orderly : Orderly tasks)
    (guarded : StartsGuarded event)
    (taken : tasks.step event = .ok after) :
    Orderly after := by
  cases event with
  | start task operation =>
      exact orderly.start (guarded task operation rfl) taken
  | run task callbacks errored closed =>
      simp only [Tasks.step] at taken
      split at taken
      · cases taken
      · rename_i instr rest code
        cases taken
        exact orderly.execute code callbacks errored closed

theorem orderly_of_reached
    {tasks : Tasks}
    (reached :
      taskMachine.ReachedUnder (fun _ event => StartsGuarded event) tasks) :
    Orderly tasks := by
  refine Machine.ReachedUnder.invariant
    (?_ : ∀ first, taskMachine.initial first → Orderly first) ?_ reached
  · intro first rest
    exact rest.orderly
  · intro before event after orderly guarded taken
    exact orderly.step guarded taken

/-- As long as no task creates a `NetStack` or drops a `UdpSocket`, whoever is
inside holds the lock, alone, and nobody asks for a lock he has; a task that
starts to do so is inside without the lock at once. -/
theorem lock_discipline
    {tasks : Tasks}
    (reached :
      taskMachine.ReachedUnder (fun _ event => StartsGuarded event) tasks) :
    tasks.Disciplined ∧
      ∀ event after,
        tasks.step event = .ok after →
          (after.Disciplined ↔ StartsGuarded event) := by
  have orderly := orderly_of_reached reached
  refine ⟨orderly.disciplined, ?_⟩
  intro event after taken
  constructor
  · rintro disciplined task operation rfl
    by_contra bare
    obtain ⟨instr, rest, code, inside⟩ :=
      Operation.inside_of_not_guarded bare tasks.nextListener
    obtain ⟨goesOn, lock⟩ := Tasks.start_code taken
    have holds :=
      disciplined.inside task instr rest (goesOn.trans code) inside
    obtain ⟨idle, -⟩ := Tasks.start_cases taken
    have free := orderly.idle idle
    rw [← lock, decide_eq_true holds] at free
    cases free
  · intro guarded
    exact (orderly.step guarded taken).disciplined

/-- Nobody is doing anything, and there is nothing to do it with. -/
theorem Tasks.atRest_empty :
    Tasks.AtRest {} := by
  refine ⟨rfl, fun _ => rfl, ?_, fun _ _ => rfl⟩
  rintro listener ⟨⟩

/-- A task runs the timers while another one waits for the lock to write. -/
theorem lock_discipline_waiting :
    ∃ tasks,
      taskMachine.ReachedUnder (fun _ event => StartsGuarded event) tasks ∧
        tasks.lock = some 0 ∧
          tasks.code 1 = streamPollWrite .written ∧
            tasks.Disciplined ∧
              ∀ event after,
                tasks.step event = .ok after →
                  (after.Disciplined ↔ StartsGuarded event) := by
  have rest :
      taskMachine.ReachedUnder (fun _ event => StartsGuarded event) {} :=
    .start Tasks.atRest_empty
  have timer :=
    Machine.ReachedUnder.next rest
      (show StartsGuarded (.start 0 .timer) by rintro _ _ ⟨⟩; trivial)
      (show taskMachine.step {} _ = _ from rfl)
  have locked :=
    Machine.ReachedUnder.next timer
      (show StartsGuarded (.run 0 [] false false) by rintro _ _ ⟨⟩)
      (show taskMachine.step _ _ = _ from rfl)
  have writes :=
    Machine.ReachedUnder.next locked
      (show StartsGuarded (.start 1 (.streamPollWrite .written)) by
        rintro _ _ ⟨⟩; trivial)
      (show taskMachine.step _ _ = _ from rfl)
  exact ⟨_, writes, rfl, rfl, lock_discipline writes⟩

/-- A task drops a `UdpSocket` while another one is in the timers of lwIP. -/
theorem lock_discipline_udp_drop :
    ∃ tasks,
      taskMachine.Reached tasks ∧
        tasks.lock = some 0 ∧
          tasks.code 0 = [.lwip .sysCheckTimeouts, .release] ∧
            tasks.code 1 = [.lwip .udpRecv, .lwip .udpRemove] ∧
              ¬tasks.Disciplined := by
  have rest : taskMachine.Reached {} :=
    .start Tasks.atRest_empty
  have timer :=
    Machine.ReachedUnder.next rest trivial
      (show taskMachine.step {} (.start 0 .timer) = _ from rfl)
  have locked :=
    Machine.ReachedUnder.next timer trivial
      (show taskMachine.step _ (.run 0 [] false false) = _ from rfl)
  have drops :=
    Machine.ReachedUnder.next locked trivial
      (show taskMachine.step _ (.start 1 .dropUdpSocket) = _ from rfl)
  refine ⟨_, drops, rfl, rfl, rfl, ?_⟩
  intro disciplined
  have alone :=
    disciplined.alone 0 1 (.lwip .sysCheckTimeouts) (.lwip .udpRecv)
      [.release] [.lwip .udpRemove] rfl rfl rfl rfl
  cases alone

end NetstackLwip

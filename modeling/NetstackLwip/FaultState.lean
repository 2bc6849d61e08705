import Mathlib.Algebra.Ring.Nat

namespace FaultState

/-!
# Stateful computations that may fault

Imperative code with assertions is a state transformer that either returns a
value with a new state or stops with a fault. `wp` is its weakest
precondition, with one postcondition for normal return and one for the faults
that are allowed, so one rule set serves partial correctness (every fault
allowed), absence of one fault, and absence of all of them.
-/

/-- A computation over the state `σ` that may stop with a fault of type `ε`. -/
abbrev FaultM (ε σ α : Type) : Type :=
  StateT σ (Except ε) α

variable {ε σ α β : Type}

/-- Stop with `fault` unless the condition holds. -/
def ensure
    (condition : Bool)
    (fault : ε) :
    FaultM ε σ Unit :=
  if condition then pure () else throw fault

/--
The weakest precondition of a computation: from `state` it either returns with
`post`, or stops with a fault that `allowed` admits.
-/
def wp
    (computation : FaultM ε σ α)
    (post : α → σ → Prop)
    (allowed : ε → Prop)
    (state : σ) : Prop :=
  match computation state with
  | .ok (value, next) => post value next
  | .error fault => allowed fault

section Rules

variable {post : α → σ → Prop} {allowed : ε → Prop} {state : σ}

@[simp]
theorem wp_pure
    (value : α) :
    wp (pure value : FaultM ε σ α) post allowed state ↔ post value state :=
  Iff.rfl

@[simp]
theorem wp_bind
    (first : FaultM ε σ β)
    (next : β → FaultM ε σ α) :
    wp (first >>= next) post allowed state ↔
      wp first
        (fun value middle => wp (next value) post allowed middle)
        allowed state := by
  cases outcome : first state with
  | ok result =>
      simp [wp, bind, StateT.bind, Except.bind, outcome]
  | error fault =>
      simp [wp, bind, StateT.bind, Except.bind, outcome]

@[simp]
theorem wp_map
    (function : β → α)
    (computation : FaultM ε σ β) :
    wp (function <$> computation) post allowed state ↔
      wp computation
        (fun value next => post (function value) next) allowed state := by
  rw [map_eq_pure_bind, wp_bind]
  rfl

@[simp]
theorem wp_throw
    (fault : ε) :
    wp (throw fault : FaultM ε σ α) post allowed state ↔ allowed fault :=
  Iff.rfl

@[simp]
theorem wp_get
    {post : σ → σ → Prop} :
    wp (get : FaultM ε σ σ) post allowed state ↔ post state state :=
  Iff.rfl

@[simp]
theorem wp_set
    {post : PUnit → σ → Prop}
    (next : σ) :
    wp (set next : FaultM ε σ PUnit) post allowed state ↔ post ⟨⟩ next :=
  Iff.rfl

@[simp]
theorem wp_modify
    {post : PUnit → σ → Prop}
    (change : σ → σ) :
    wp (modify change : FaultM ε σ PUnit) post allowed state ↔
      post ⟨⟩ (change state) :=
  Iff.rfl

@[simp]
theorem wp_modifyGet
    (change : σ → α × σ) :
    wp (modifyGet change : FaultM ε σ α) post allowed state ↔
      post (change state).1 (change state).2 :=
  Iff.rfl

@[simp]
theorem wp_ite
    (condition : Prop)
    [Decidable condition]
    (yes no : FaultM ε σ α) :
    wp (if condition then yes else no) post allowed state ↔
      (condition → wp yes post allowed state) ∧
        (¬condition → wp no post allowed state) := by
  by_cases holds : condition <;> simp [holds]

@[simp]
theorem wp_ensure
    {post : Unit → σ → Prop}
    (condition : Bool)
    (fault : ε) :
    wp (ensure condition fault) post allowed state ↔
      (condition = true → post () state) ∧
        (condition = false → allowed fault) := by
  cases condition <;> simp [ensure]

/-- A stronger postcondition and a smaller set of faults imply weaker ones. -/
theorem wp_mono
    {computation : FaultM ε σ α}
    {strong : α → σ → Prop}
    {fewer : ε → Prop}
    (holds : wp computation strong fewer state)
    (returns : ∀ value next, strong value next → post value next)
    (faults : ∀ fault, fewer fault → allowed fault) :
    wp computation post allowed state := by
  unfold wp at holds ⊢
  cases outcome : computation state with
  | ok result =>
      simp only [outcome] at holds
      exact returns _ _ holds
  | error fault =>
      simp only [outcome] at holds
      exact faults _ holds

/-- The consequence rule for the postcondition alone. -/
theorem wp_weaken
    {computation : FaultM ε σ α}
    {strong : α → σ → Prop}
    (holds : wp computation strong allowed state)
    (returns : ∀ value next, strong value next → post value next) :
    wp computation post allowed state :=
  wp_mono holds returns fun _ admitted => admitted

/-- Two facts about one computation hold together. -/
theorem wp_and
    {computation : FaultM ε σ α}
    {other : α → σ → Prop}
    (first : wp computation post allowed state)
    (second : wp computation other allowed state) :
    wp computation
      (fun value next => post value next ∧ other value next)
      allowed state := by
  unfold wp at first second ⊢
  cases outcome : computation state with
  | ok result =>
      simp only [outcome] at first second
      exact ⟨first, second⟩
  | error fault =>
      simp only [outcome] at first
      exact first

/-- A fact that holds whatever faults there are adds to the postcondition. -/
theorem wp_also
    {computation : FaultM ε σ α}
    {other : α → σ → Prop}
    (first : wp computation post allowed state)
    (second : wp computation other (fun _ => True) state) :
    wp computation
      (fun value next => post value next ∧ other value next)
      allowed state := by
  unfold wp at first second ⊢
  cases outcome : computation state with
  | ok result =>
      simp only [outcome] at first second
      exact ⟨first, second⟩
  | error fault =>
      simp only [outcome] at first
      exact first

/-- The postcondition may mention the outcome itself. -/
theorem wp_outcome
    {computation : FaultM ε σ α}
    (holds : wp computation post allowed state) :
    wp computation
      (fun value next =>
        post value next ∧ computation state = .ok (value, next))
      allowed state := by
  unfold wp at holds ⊢
  cases outcome : computation state with
  | ok result =>
      simp only [outcome] at holds
      exact ⟨holds, rfl⟩
  | error fault =>
      simp only [outcome] at holds
      exact holds

/-- What `wp` says about a run that returned. -/
theorem wp_returned
    {computation : FaultM ε σ α}
    {value : α}
    {next : σ}
    (holds : wp computation post allowed state)
    (outcome : computation state = .ok (value, next)) :
    post value next := by
  simpa only [wp, outcome] using holds

/-- What `wp` says about a run that faulted. -/
theorem wp_faulted
    {computation : FaultM ε σ α}
    {fault : ε}
    (holds : wp computation post allowed state)
    (outcome : computation state = .error fault) :
    allowed fault := by
  simpa only [wp, outcome] using holds

/-- A computation that no fault may stop returns. -/
theorem wp_total
    {computation : FaultM ε σ α}
    (holds : wp computation post (fun _ => False) state) :
    ∃ value next,
      computation state = .ok (value, next) ∧ post value next := by
  unfold wp at holds
  cases outcome : computation state with
  | ok result =>
      simp only [outcome] at holds
      exact ⟨result.1, result.2, rfl, holds⟩
  | error fault =>
      simp only [outcome] at holds

/-- `wp` follows from what every outcome satisfies. -/
theorem wp_of_outcomes
    {computation : FaultM ε σ α}
    (returns :
      ∀ value next, computation state = .ok (value, next) → post value next)
    (faults :
      ∀ fault, computation state = .error fault → allowed fault) :
    wp computation post allowed state := by
  unfold wp
  cases outcome : computation state with
  | ok result =>
      exact returns _ _ outcome
  | error fault =>
      exact faults _ outcome

end Rules

/-! ## What a computation preserves -/

/-- What holds before the computation holds behind it, and it stops only with
an allowed fault. -/
def Preserves
    (holds : σ → Prop)
    (allowed : ε → Prop)
    (computation : FaultM ε σ α) :
    Prop :=
  ∀ state, holds state →
    wp computation (fun _ next => holds next) allowed state

namespace Preserves

variable {holds : σ → Prop} {allowed : ε → Prop}

theorem pure
    (value : α) :
    Preserves holds allowed (Pure.pure value : FaultM ε σ α) :=
  fun _ before => before

theorem throw
    {fault : ε}
    (admitted : allowed fault) :
    Preserves holds allowed (MonadExcept.throw fault : FaultM ε σ α) :=
  fun _ _ => admitted

theorem ensure
    {condition : Bool}
    {fault : ε}
    (admitted : allowed fault) :
    Preserves holds allowed (FaultState.ensure condition fault) := by
  intro state before
  rw [wp_ensure]
  exact ⟨fun _ => before, fun _ => admitted⟩

theorem bind
    {first : FaultM ε σ β}
    {next : β → FaultM ε σ α}
    (firstPreserves : Preserves holds allowed first)
    (nextPreserves : ∀ value, Preserves holds allowed (next value)) :
    Preserves holds allowed (first >>= next) := by
  intro state before
  rw [wp_bind]
  exact wp_weaken (firstPreserves state before) nextPreserves

theorem ite
    {condition : Prop}
    [Decidable condition]
    {yes no : FaultM ε σ α}
    (yesPreserves : Preserves holds allowed yes)
    (noPreserves : Preserves holds allowed no) :
    Preserves holds allowed (if condition then yes else no) := by
  split
  · exact yesPreserves
  · exact noPreserves

/-- The state that is read satisfies what holds. -/
theorem get
    {next : σ → FaultM ε σ α}
    (nextPreserves :
      ∀ state, holds state → Preserves holds allowed (next state)) :
    Preserves holds allowed (MonadState.get >>= next) := by
  intro state before
  rw [wp_bind]
  exact nextPreserves state before state before

theorem set
    {next : σ}
    (after : holds next) :
    Preserves holds allowed (MonadStateOf.set next : FaultM ε σ PUnit) :=
  fun _ _ => after

theorem modify
    {change : σ → σ}
    (after : ∀ state, holds state → holds (change state)) :
    Preserves holds allowed (modify change : FaultM ε σ PUnit) :=
  after

end Preserves

end FaultState

import Mathlib.Algebra.Ring.Nat

namespace FaultMachine

/-!
# Machines whose steps may fault

A machine starts in one of its initial states and takes labelled steps, each
of which yields a next state or stops the machine with a fault. An invariant
is proved once for every reachable state, either of all runs or of the runs
whose steps all meet a side condition.
-/

/-- A machine: its initial states and its deterministic labelled step. -/
structure Machine (ε σ ι : Type) where
  initial : σ → Prop
  step : σ → ι → Except ε σ

namespace Machine

variable {ε σ ι : Type}

/--
`state` is reached by a run whose every step, taken from `before` with
`label`, meets `admitted before label`.
-/
inductive ReachedUnder
    (machine : Machine ε σ ι)
    (admitted : σ → ι → Prop) :
    σ → Prop where
  | start
      {state : σ} :
      machine.initial state →
      ReachedUnder machine admitted state
  | next
      {before after : σ}
      {label : ι} :
      ReachedUnder machine admitted before →
      admitted before label →
      machine.step before label = .ok after →
      ReachedUnder machine admitted after

/-- `state` is reached by some run. -/
def Reached
    (machine : Machine ε σ ι)
    (state : σ) : Prop :=
  machine.ReachedUnder (fun _ _ => True) state

/-- The runs of a machine that continue from `state`. -/
def startedAt
    (machine : Machine ε σ ι)
    (state : σ) : Machine ε σ ι where
  initial first := first = state
  step := machine.step

/-- Run the machine over a list of labels, as long as every step passes a
check and none faults. -/
def runUnder
    (machine : Machine ε σ ι)
    (check : σ → ι → Bool) :
    σ → List ι → Option σ
  | state, [] => some state
  | state, label :: labels =>
      if check state label then
        match machine.step state label with
        | .ok after => machine.runUnder check after labels
        | .error _ => none
      else
        none

/-- What a step preserves, every run under the same side condition has. -/
theorem ReachedUnder.invariant
    {machine : Machine ε σ ι}
    {admitted : σ → ι → Prop}
    {holds : σ → Prop}
    (atStart : ∀ state, machine.initial state → holds state)
    (preserved :
      ∀ before label after,
        holds before →
          admitted before label →
            machine.step before label = .ok after →
              holds after)
    {state : σ}
    (reached : machine.ReachedUnder admitted state) :
    holds state := by
  induction reached with
  | start initial =>
      exact atStart _ initial
  | next _ admits taken inductionHypothesis =>
      exact preserved _ _ _ inductionHypothesis admits taken

/-- A weaker side condition reaches more states. -/
theorem ReachedUnder.mono
    {machine : Machine ε σ ι}
    {strict loose : σ → ι → Prop}
    (weaker : ∀ state label, strict state label → loose state label)
    {state : σ}
    (reached : machine.ReachedUnder strict state) :
    machine.ReachedUnder loose state := by
  induction reached with
  | start initial =>
      exact .start initial
  | next _ admits taken inductionHypothesis =>
      exact .next inductionHypothesis (weaker _ _ admits) taken

/-- A checked run ends in a state that is reached under the checked
condition. -/
theorem ReachedUnder.of_run
    {machine : Machine ε σ ι}
    {admitted : σ → ι → Prop}
    {check : σ → ι → Bool}
    (sound : ∀ state label, check state label = true → admitted state label)
    {labels : List ι}
    {before after : σ}
    (reached : machine.ReachedUnder admitted before)
    (ran : machine.runUnder check before labels = some after) :
    machine.ReachedUnder admitted after := by
  induction labels generalizing before with
  | nil =>
      simp only [runUnder, Option.some.injEq] at ran
      exact ran ▸ reached
  | cons label labels inductionHypothesis =>
      simp only [runUnder] at ran
      split at ran
      · rename_i checked
        split at ran
        · rename_i middle taken
          exact inductionHypothesis
            (.next reached (sound _ _ checked) taken) ran
        · cases ran
      · cases ran

end Machine

end FaultMachine

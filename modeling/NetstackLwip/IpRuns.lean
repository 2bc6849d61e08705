import Mathlib.Data.List.Induction
import Mathlib.Data.List.TakeWhile
import NetstackLwip.UdpIngress

namespace NetstackLwip

/-!
# Runs of IP input

What happens to IP input from outside: the sink is given vectors, each in a
buffer that the allocator finds or does not find, and the two reassembly
timers tick.
-/

open FaultState

/-- A step of a run. -/
inductive IpLabel where
  | item (addr : Option Nat) (vec : Bytes)
  | ipReassTmr
  | ip6ReassTmr
  deriving DecidableEq, Repr

/-- What a step computes. -/
def IpLabel.run : IpLabel → IpM Unit
  | .item addr vec => do
      let _ ← sinkInput addr vec
  | .ipReassTmr => NetstackLwip.ipReassTmr
  | .ip6ReassTmr => NetstackLwip.ip6ReassTmr

/-- A run of IP input. -/
def ipRun : List IpLabel → IpM Unit
  | [] => pure ()
  | label :: labels => do
      label.run
      ipRun labels

section Run

variable {allowed : IpFault → Prop} {input : IpInput}

@[simp]
theorem wp_ipRun_append
    {post : Unit → IpInput → Prop}
    (first second : List IpLabel) :
    wp (ipRun (first ++ second)) post allowed input ↔
      wp (ipRun first) (fun _ next => wp (ipRun second) post allowed next)
        allowed input := by
  induction first generalizing input with
  | nil =>
      exact Iff.rfl
  | cons label labels inductionHypothesis =>
      simp only [List.cons_append, ipRun, wp_bind, inductionHypothesis]

theorem wp_ipRun_singleton
    {post : Unit → IpInput → Prop}
    {label : IpLabel} :
    wp (ipRun [label]) post allowed input ↔
      wp label.run post allowed input := by
  simp [ipRun]

end Run

/-! ## Runs with a given set of vectors -/

/-- A step of a run with nothing but the given vectors and timer ticks. -/
inductive Feeds (vecs : List Bytes) : IpLabel → Prop where
  | item
      {addr : Nat}
      {vec : Bytes} :
      vec ∈ vecs →
      Feeds vecs (.item (some addr) vec)
  | ipReassTmr :
      Feeds vecs .ipReassTmr
  | ip6ReassTmr :
      Feeds vecs .ip6ReassTmr

/-- Every vector has been given to the sink. -/
def AllArrived (vecs : List Bytes) (labels : List IpLabel) : Prop :=
  ∀ vec ∈ vecs, ∃ addr, IpLabel.item addr vec ∈ labels

/-- The vectors have all been given for the first time at some point. -/
theorem exists_first_allArrived
    {vecs : List Bytes}
    {labels : List IpLabel}
    (nonempty : vecs ≠ [])
    (all : AllArrived vecs labels) :
    ∃ front, front <+: labels ∧ AllArrived vecs front ∧
      ¬AllArrived vecs front.dropLast := by
  induction labels using List.reverseRecOn with
  | nil =>
      obtain ⟨vec, member⟩ := List.exists_mem_of_ne_nil vecs nonempty
      obtain ⟨addr, impossible⟩ := all vec member
      cases impossible
  | append_singleton labels label inductionHypothesis =>
      by_cases before : AllArrived vecs labels
      · obtain ⟨front, isPrefix, first⟩ := inductionHypothesis before
        exact ⟨front, isPrefix.trans (List.prefix_append _ _), first⟩
      · refine ⟨labels ++ [label], List.prefix_refl _, all, ?_⟩
        rw [List.dropLast_concat]
        exact before

/-- The step is a tick of a timer. -/
def IpLabel.isTick : IpLabel → Bool
  | .item _ _ => false
  | _ => true

/-- How often a timer has ticked since the first vector was given. -/
def ticksSinceFirst (tick : IpLabel) (labels : List IpLabel) : Nat :=
  (labels.dropWhile IpLabel.isTick).count tick

section Runs

variable {tick : IpLabel} {labels : List IpLabel}

theorem ticksSinceFirst_ticks
    (ticks : ∀ label ∈ labels, label.isTick = true) :
    ticksSinceFirst tick labels = 0 := by
  rw [ticksSinceFirst, List.dropWhile_eq_nil_iff.mpr ticks]
  rfl

theorem ticksSinceFirst_append
    {label : IpLabel}
    (begun : ∃ label ∈ labels, label.isTick = false) :
    ticksSinceFirst tick (labels ++ [label]) =
      ticksSinceFirst tick labels + if label = tick then 1 else 0 := by
  obtain ⟨first, member, item⟩ := begun
  have notAll : labels.dropWhile IpLabel.isTick ≠ [] := by
    intro all
    have tick := List.dropWhile_eq_nil_iff.mp all first member
    rw [item] at tick
    cases tick
  rw [ticksSinceFirst, List.dropWhile_append, if_neg (by simpa using notAll),
    List.count_append, ticksSinceFirst, List.count_singleton]
  simp only [beq_iff_eq]

/-- Only the tick itself is counted. -/
theorem ticksSinceFirst_other
    {label : IpLabel}
    (differ : label ≠ tick) :
    ticksSinceFirst tick (labels ++ [label]) =
      ticksSinceFirst tick labels := by
  by_cases begun : ∃ label ∈ labels, label.isTick = false
  · rw [ticksSinceFirst_append begun, if_neg differ, Nat.add_zero]
  · have ticks : ∀ label ∈ labels, label.isTick = true := by
      intro label member
      cases kind : label.isTick with
      | true => rfl
      | false => exact absurd ⟨label, member, kind⟩ begun
    rw [ticksSinceFirst_ticks ticks, ticksSinceFirst, List.dropWhile_append,
      List.dropWhile_eq_nil_iff.mpr ticks, List.isEmpty_nil, if_pos rfl,
      List.dropWhile_cons]
    split
    · rfl
    · rw [List.count_singleton, if_neg (by simpa using differ)]

theorem ticksSinceFirst_le
    {label : IpLabel} :
    ticksSinceFirst tick labels ≤ ticksSinceFirst tick (labels ++ [label]) := by
  by_cases begun : ∃ label ∈ labels, label.isTick = false
  · rw [ticksSinceFirst_append begun]
    exact Nat.le_add_right _ _
  · rw [ticksSinceFirst_ticks]
    · exact Nat.zero_le _
    · intro label member
      cases kind : label.isTick with
      | true => rfl
      | false => exact absurd ⟨label, member, kind⟩ begun

end Runs

end NetstackLwip

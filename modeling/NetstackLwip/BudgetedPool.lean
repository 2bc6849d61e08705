import Mathlib.Algebra.Ring.Nat
import Mathlib.Data.List.Perm.Basic
import Mathlib.Order.Lattice

namespace BudgetedPool

/-!
# Pools with a budget

Entries from a pool of `slots` share a budget: a counter holds the sum of what
they cost, and it never exceeds `limit`. An entry is put at the front before
anything is charged to it, so while one is being filled the first of them may
cost nothing. What an entry costs and what is sound about it are parameters.
-/

variable {α : Type}

/--
The entries and the counter. `vacant` says whether the first entry may cost
nothing.
-/
structure Pool
    (cost : α → Nat)
    (Sound : α → Prop)
    (limit slots : Nat)
    (vacant : Prop)
    (entries : List α)
    (count : Nat) : Prop where
  sound : ∀ entry ∈ entries, Sound entry
  counted : count = (entries.map cost).sum
  budget : count ≤ limit
  pool : entries.length ≤ slots
  paid :
    ∀ index entry, entries[index]? = some entry → cost entry = 0 →
      index = 0 ∧ vacant

namespace Pool

variable {cost : α → Nat} {Sound : α → Prop} {limit slots : Nat}
  {vacant : Prop} {entries : List α} {count : Nat}

theorem empty : Pool cost Sound limit slots vacant [] 0 where
  sound := by simp
  counted := rfl
  budget := Nat.zero_le _
  pool := Nat.zero_le _
  paid := by simp

theorem weaken
    {weaker : Prop}
    (holds : Pool cost Sound limit slots vacant entries count)
    (implies : vacant → weaker) :
    Pool cost Sound limit slots weaker entries count :=
  { holds with
    paid := fun index entry found free =>
      ⟨(holds.paid index entry found free).1,
        implies (holds.paid index entry found free).2⟩ }

/-- What an entry costs is part of the count, and erasing it takes that off. -/
theorem sum_eraseIdx
    {index : Nat}
    (inside : index < entries.length) :
    cost entries[index] + ((entries.eraseIdx index).map cost).sum =
      (entries.map cost).sum := by
  have perm := (List.getElem_cons_eraseIdx_perm inside).map cost
  have sums := perm.sum_nat
  rwa [List.map_cons, List.sum_cons] at sums

theorem cost_le
    (holds : Pool cost Sound limit slots vacant entries count)
    {index : Nat}
    (inside : index < entries.length) :
    cost entries[index] ≤ count := by
  have sum := @sum_eraseIdx _ cost entries index inside
  have counted := holds.counted
  omega

/-- An entry goes, and what it cost with it. -/
theorem erase
    (holds : Pool cost Sound limit slots vacant entries count)
    {index : Nat}
    (inside : index < entries.length) :
    Pool cost Sound limit slots (vacant ∧ index ≠ 0) (entries.eraseIdx index)
      (count - cost entries[index]) where
  sound entry member := holds.sound entry (List.mem_of_mem_eraseIdx member)
  counted := by
    have sum := @sum_eraseIdx _ cost entries index inside
    have counted := holds.counted
    omega
  budget := Nat.le_trans (Nat.sub_le _ _) holds.budget
  pool := Nat.le_trans (List.length_eraseIdx_le _ _) holds.pool
  paid place entry found free := by
    by_cases before : place < index
    · rw [List.getElem?_eraseIdx_of_lt before] at found
      obtain ⟨front, allowed⟩ := holds.paid place entry found free
      exact ⟨front, allowed, by omega⟩
    · rw [List.getElem?_eraseIdx_of_ge (by omega)] at found
      obtain ⟨front, _⟩ := holds.paid (place + 1) entry found free
      omega

/-- An entry that costs something is charged more. -/
theorem charge
    (holds : Pool cost Sound limit slots vacant entries count)
    {index extra : Nat}
    {entry : α}
    (inside : index < entries.length)
    (filling : vacant → index = 0)
    (sound : Sound entry)
    (charged : cost entry = cost entries[index] + extra)
    (paid : cost entry ≠ 0)
    (room : count + extra ≤ limit) :
    Pool cost Sound limit slots False (entries.set index entry)
      (count + extra) where
  sound other member := by
    rcases List.mem_or_eq_of_mem_set member with kept | same
    · exact holds.sound other kept
    · rw [same]
      exact sound
  counted := by
    have before := @sum_eraseIdx _ cost entries index inside
    have after := ((List.set_perm_cons_eraseIdx inside entry).map cost).sum_nat
    have counted := holds.counted
    rw [List.map_cons, List.sum_cons] at after
    omega
  budget := room
  pool := by
    rw [List.length_set]
    exact holds.pool
  paid place other found free := by
    rw [List.getElem?_set] at found
    by_cases same : index = place
    · rw [if_pos same, if_pos (by omega)] at found
      rw [← Option.some.inj found] at free
      exact absurd free paid
    · rw [if_neg same] at found
      obtain ⟨front, allowed⟩ := holds.paid place other found free
      exact absurd (filling allowed) (by omega)

/-- An entry changes without a change of its cost. -/
theorem replace
    (holds : Pool cost Sound limit slots vacant entries count)
    {index : Nat}
    {entry : α}
    (inside : index < entries.length)
    (sound : Sound entry)
    (charged : cost entry = cost entries[index]) :
    Pool cost Sound limit slots vacant (entries.set index entry) count where
  sound other member := by
    rcases List.mem_or_eq_of_mem_set member with kept | same
    · exact holds.sound other kept
    · rw [same]
      exact sound
  counted := by
    have before := @sum_eraseIdx _ cost entries index inside
    have after := ((List.set_perm_cons_eraseIdx inside entry).map cost).sum_nat
    have counted := holds.counted
    rw [List.map_cons, List.sum_cons] at after
    omega
  budget := holds.budget
  pool := by
    rw [List.length_set]
    exact holds.pool
  paid place other found free := by
    rw [List.getElem?_set] at found
    by_cases same : index = place
    · rw [if_pos same, if_pos (by omega)] at found
      rw [← Option.some.inj found, charged] at free
      exact holds.paid place entries[index]
        (by rw [← same, List.getElem?_eq_getElem inside]) free
    · rw [if_neg same] at found
      exact holds.paid place other found free

/-- An entry is changed in its place, without a change of its cost. -/
theorem modify
    (holds : Pool cost Sound limit slots vacant entries count)
    (index : Nat)
    {change : α → α}
    (sound : ∀ entry, Sound entry → Sound (change entry))
    (charged : ∀ entry, cost (change entry) = cost entry) :
    Pool cost Sound limit slots vacant (entries.modify index change) count := by
  by_cases inside : index < entries.length
  · have isSet : entries.modify index change =
        entries.set index (change entries[index]) := by
      apply List.ext_getElem?
      intro place
      rw [List.getElem?_modify, List.getElem?_set]
      by_cases same : index = place
      · subst same
        simp [inside]
      · simp [same]
    rw [isSet]
    apply holds.replace inside
    · exact sound _ (holds.sound _ (List.getElem_mem inside))
    · exact charged _
  · rw [List.modify_eq_self (by omega)]
    exact holds

/-- A new entry is put at the front. -/
theorem push
    (holds : Pool cost Sound limit slots False entries count)
    {entry : α}
    (sound : Sound entry)
    (free : cost entry = 0)
    (room : entries.length < slots) :
    Pool cost Sound limit slots True (entry :: entries) count where
  sound := List.forall_mem_cons.mpr ⟨sound, holds.sound⟩
  counted := by
    rw [List.map_cons, List.sum_cons, free, Nat.zero_add]
    exact holds.counted
  budget := holds.budget
  pool := room
  paid place other found freeOther := by
    cases place with
    | zero => exact ⟨rfl, trivial⟩
    | succ place =>
        rw [List.getElem?_cons_succ] at found
        exact (holds.paid place other found freeOther).2.elim

/-- Once the entry that may be vacant costs something, none is. -/
theorem settle
    (holds : Pool cost Sound limit slots vacant entries count)
    {index : Nat}
    {entry : α}
    (filling : vacant → index = 0)
    (found : entries[index]? = some entry)
    (paid : cost entry ≠ 0) :
    Pool cost Sound limit slots False entries count :=
  { holds with
    paid := fun place other foundOther free => by
      obtain ⟨front, allowed⟩ := holds.paid place other foundOther free
      rw [front, ← filling allowed, found] at foundOther
      rw [← Option.some.inj foundOther] at free
      exact absurd free paid }

end Pool

end BudgetedPool

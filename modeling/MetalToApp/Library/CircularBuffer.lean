import Mathlib.Data.List.Basic
import Mathlib.Tactic.Common

namespace CircularBuffer
variable {α : Type*}

/-- The places from `first` up to `stop`, in a circle of `n` of them, hold the elements of a
list. One place always stays free, so that equal ends mean an empty list. -/
structure Holds (n : Nat) (slots : Nat → α) (first stop : Nat) (l : List α) : Prop where
  first_lt : first < n
  short : l.length < n
  stop_eq : stop = (first + l.length) % n
  place : ∀ i (inside : i < l.length), slots ((first + i) % n) = l[i]

namespace Holds
variable {n first stop : Nat} {slots slots' : Nat → α} {l : List α} {a : α}

theorem empty (inside : first < n) : Holds n slots first first [] :=
  ⟨inside, by simp only [List.length_nil]; omega, (Nat.mod_eq_of_lt inside).symm, fun _ inside => absurd inside (Nat.not_lt_zero _)⟩

/-- How far an end is from the other, without wrapping twice. -/
theorem wrap {i : Nat} (inside : first < n) (short : i < n) :
    (first + i) % n = if first + i < n then first + i else first + i - n := by
  split
  · exact Nat.mod_eq_of_lt ‹_›
  · rw [Nat.mod_eq_sub_mod (by omega), Nat.mod_eq_of_lt (by omega)]

theorem wrap_inj {i j : Nat} (inside : first < n) (shortI : i < n) (shortJ : j < n) :
    (first + i) % n = (first + j) % n ↔ i = j := by
  rw [wrap inside shortI, wrap inside shortJ]
  split_ifs <;> omega

theorem length_eq (h : Holds n slots first stop l) : (stop + n - first) % n = l.length := by
  have inside := h.first_lt
  have short := h.short
  have stopEq := h.stop_eq
  rw [wrap inside short] at stopEq
  split_ifs at stopEq
  · rw [show stop + n - first = l.length + n by omega, Nat.add_mod_right, Nat.mod_eq_of_lt short]
  · rw [show stop + n - first = l.length by omega, Nat.mod_eq_of_lt short]

theorem empty_iff (h : Holds n slots first stop l) : first = stop ↔ l = [] := by
  have inside := h.first_lt
  have stopEq := h.stop_eq
  rw [wrap inside h.short] at stopEq
  have short := h.short
  rw [← List.length_eq_zero_iff]
  split_ifs at stopEq <;> omega

/-- The next place behind the last element is the first one just when all but one are taken. -/
theorem full_iff (h : Holds n slots first stop l) : (stop + 1) % n = first ↔ l.length + 1 = n := by
  have inside := h.first_lt
  have short := h.short
  have next : (stop + 1) % n = (first + (l.length + 1)) % n := by
    rw [h.stop_eq, Nat.mod_add_mod, Nat.add_assoc]
  rw [next]
  constructor
  · intro same
    by_contra room
    rw [wrap inside (by omega)] at same
    split_ifs at same <;> omega
  · intro full
    rw [full, Nat.add_mod_right, Nat.mod_eq_of_lt inside]

theorem push (h : Holds n slots first stop l) (room : l.length + 1 < n) (here : slots' stop = a)
    (others : ∀ i, i ≠ stop → slots' i = slots i) : Holds n slots' first ((stop + 1) % n) (l ++ [a]) := by
  refine ⟨h.first_lt, by rwa [List.length_append], ?_, fun i inside => ?_⟩
  · rw [h.stop_eq, Nat.mod_add_mod, List.length_append, Nat.add_assoc]
    rfl
  · rw [List.length_append, List.length_singleton] at inside
    by_cases last : i = l.length
    · subst last
      rw [← h.stop_eq, here, List.getElem_concat_length rfl]
    · have before : i < l.length := by omega
      rw [List.getElem_append_left before, ← h.place i before]
      refine others _ ?_
      rw [h.stop_eq, Ne, wrap_inj h.first_lt (by have := h.short; omega) h.short]
      exact last

theorem front (h : Holds n slots first stop (a :: l)) : slots first = a := by
  have element := h.place 0 (Nat.succ_pos _)
  rwa [Nat.add_zero, Nat.mod_eq_of_lt h.first_lt] at element

theorem pop (h : Holds n slots first stop (a :: l)) : Holds n slots ((first + 1) % n) stop l := by
  have short := h.short
  rw [List.length_cons] at short
  refine ⟨Nat.mod_lt _ (by omega), by omega, ?_, fun i inside => ?_⟩
  · rw [h.stop_eq, Nat.mod_add_mod, List.length_cons, Nat.add_right_comm, Nat.add_assoc]
  · have element := h.place (i + 1) (Nat.succ_lt_succ inside)
    rw [Nat.mod_add_mod, Nat.add_right_comm, Nat.add_assoc]
    exact element

end Holds

end CircularBuffer

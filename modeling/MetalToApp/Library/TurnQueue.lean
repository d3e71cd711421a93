import Mathlib.Data.List.Rotate
import Mathlib.Tactic

/-! Turns around a table with `n` seats: whoever wants a turn, in the order of the seats
after the one that had the last turn. -/

namespace TurnQueue

/-- Who waits, the next first, and whose turn was the last. -/
structure Queue where
  waiting : List Nat
  last : Nat

/-- The seats in the order in which they come up after the seat `last`. -/
def seats (n last : Nat) : List Nat := (List.range n).rotate (last + 1)

/-- One turn goes to the first who waits, unless the last turn was his as well. -/
def Queue.turn (q : Queue) : Option Nat × Queue :=
  match q.waiting with
  | [] => (none, q)
  | x :: rest => if x = q.last then (none, q) else (some x, ⟨rest ++ [x], x⟩)

/-- Those who satisfy `p` wait no longer. -/
def Queue.leave (p : Nat → Bool) (q : Queue) : Queue := { q with waiting := q.waiting.filter (! p ·) }

/-- Those who satisfy `p` join, each at his own seat. -/
def Queue.join (n : Nat) (p : Nat → Bool) (q : Queue) : Queue :=
  { q with waiting := (seats n q.last).filter fun x => q.waiting.contains x || p x }

/-- The queue of all those who satisfy `p`. -/
def gather (n : Nat) (p : Nat → Bool) (last : Nat) : Queue := ⟨(seats n last).filter p, last⟩

variable {n : Nat} {p : Nat → Bool} {last x : Nat} {q : Queue}

@[simp] theorem Queue.leave_last : (q.leave p).last = q.last := rfl

@[simp] theorem Queue.join_last : (q.join n p).last = q.last := rfl

@[simp] theorem mem_seats : x ∈ seats n last ↔ x < n := by simp [seats]

theorem seats_nodup : (seats n last).Nodup := List.nodup_rotate.mpr List.nodup_range

theorem seats_mod : seats n (last % n) = seats n last := by
  have wrapped := List.rotate_mod (List.range n) (last % n + 1)
  rw [List.length_range, Nat.mod_add_mod] at wrapped
  rw [seats, seats, ← wrapped]
  simpa using List.rotate_mod (List.range n) (last + 1)

theorem gather_waiting : (gather n p last).waiting = (seats n (gather n p last).last).filter p := rfl

theorem seats_eq_map : seats n last = (List.range n).map fun k => (last + 1 + k) % n := by
  refine List.ext_getElem (by simp [seats]) fun k _ _ => ?_
  simp [seats, List.getElem_rotate, Nat.add_comm]

/-- The seats before a seat `x` go behind it when `x` has had the turn. -/
theorem seats_turn {l₁ l₂ : List Nat} (split : seats n last = l₁ ++ x :: l₂) : seats n x = l₂ ++ l₁ ++ [x] := by
  have short : l₁.length < (seats n last).length := by simp [split]
  have position : x = (l₁.length + (last + 1)) % n := by
    have atX : (seats n last)[l₁.length] = x := by simp [split]
    simpa [seats, List.getElem_rotate] using atX.symm
  have turned : seats n x = (seats n last).rotate (l₁.length + 1) := by
    rw [position, seats_mod, seats, seats, List.rotate_rotate]
    congr 1
    omega
  have whole : l₁ ++ x :: l₂ = (l₁ ++ [x]) ++ l₂ := by simp
  rw [turned, split, whole, show l₁.length + 1 = (l₁ ++ [x]).length by simp, List.rotate_append_length_eq,
    List.append_assoc]

theorem filter_seats_turn {rest : List Nat} (first : (seats n last).filter p = x :: rest) :
    (seats n x).filter p = rest ++ [x] := by
  obtain ⟨l₁, l₂, split, before, atX, after⟩ := List.filter_eq_cons_iff.mp first
  have none : l₁.filter p = [] := List.filter_eq_nil_iff.mpr before
  rw [seats_turn split, List.filter_append, List.filter_append, after, none, List.append_nil]
  simp [atX]

/-- Whoever still waits after a turn is closer to his own. -/
theorem idxOf_seats_turn {y : Nat} {rest : List Nat} (first : (seats n last).filter p = x :: rest) (bound : y < n)
    (waits : p y = true) (other : y ≠ x) : (seats n x).idxOf y < (seats n last).idxOf y := by
  obtain ⟨l₁, l₂, split, before, -, -⟩ := List.filter_eq_cons_iff.mp first
  have notBefore : y ∉ l₁ := fun member => before y member waits
  have behind : y ∈ l₂ := by
    have member : y ∈ seats n last := mem_seats.mpr bound
    simpa [split, notBefore, other] using member
  rw [seats_turn split, split, List.append_assoc, List.idxOf_append_of_mem behind, List.idxOf_append_of_notMem notBefore,
    List.idxOf_cons_ne _ other.symm]
  omega

theorem idxOf_seats {y : Nat} (bound : y < n) (lastBound : last < n) :
    (seats n last).idxOf y = (y + n - (last + 1)) % n := by
  have inside : (y + n - (last + 1)) % n < (seats n last).length := by simpa [seats] using Nat.mod_lt _ (by omega)
  have atY : (seats n last)[(y + n - (last + 1)) % n] = y := by
    simp only [seats_eq_map, List.getElem_map, List.getElem_range, Nat.add_mod_mod]
    rw [show last + 1 + (y + n - (last + 1)) = y + n by omega, Nat.add_mod_right, Nat.mod_eq_of_lt bound]
  have found := List.Nodup.idxOf_getElem seats_nodup _ inside
  rwa [atY] at found

/-- The seat whose turn was the last comes up last. -/
theorem seats_last (bound : last < n) : ∃ l, seats n last = l ++ [last] := by
  obtain ⟨l₁, l₂, split⟩ := List.append_of_mem (mem_seats.mpr bound : last ∈ seats n last)
  exact ⟨l₂ ++ l₁, seats_turn split⟩

/-- Nobody waits twice, and whose turn was the last is behind all others. -/
structure Queue.Seated (q : Queue) : Prop where
  nodup : q.waiting.Nodup
  last_behind : q.last ∈ q.waiting → ∃ l, q.waiting = l ++ [q.last]

theorem gather_seated (p : Nat → Bool) (bound : last < n) : (gather n p last).Seated := by
  refine ⟨seats_nodup.filter p, fun member => ?_⟩
  obtain ⟨l, split⟩ := seats_last bound
  have atLast : p last = true := (List.mem_filter.mp member).2
  exact ⟨l.filter p, by simp [gather, split, atLast]⟩

/-- No turn is taken exactly when nobody waits but the one who had the last turn. -/
theorem Queue.Seated.turn_none_iff (seated : q.Seated) : q.turn.1 = none ↔ ∀ x ∈ q.waiting, x = q.last := by
  unfold turn
  cases first : q.waiting with
  | nil => simp
  | cons y rest =>
    by_cases same : y = q.last
    · obtain ⟨l, split⟩ := seated.last_behind (by rw [first, same]; exact List.mem_cons_self)
      have nodup := seated.nodup
      rw [split, List.nodup_append] at nodup
      -- whoever is first and last in a queue without repetitions is alone in it
      cases l with
      | nil =>
        rw [first, List.nil_append, List.cons.injEq] at split
        simp [same, split.2]
      | cons z l =>
        rw [first, List.cons_append, List.cons.injEq] at split
        exact absurd (split.1.symm.trans same) (nodup.2.2 z List.mem_cons_self _ (List.mem_singleton_self _))
    · simp [same]

theorem Queue.turn_of_none (idle : q.turn.1 = none) : q.turn.2 = q := by
  unfold turn at idle ⊢
  cases first : q.waiting with
  | nil => rfl
  | cons x rest =>
    by_cases same : x = q.last
    · simp [same]
    · simp [first, same] at idle

theorem Queue.waiting_of_turn (turned : q.turn.1 = some x) :
    ∃ rest, q.waiting = x :: rest ∧ q.turn.2 = ⟨rest ++ [x], x⟩ := by
  unfold turn at turned ⊢
  cases first : q.waiting with
  | nil => simp [first] at turned
  | cons y rest =>
    by_cases same : y = q.last
    · simp [first, same] at turned
    · rw [first] at turned
      obtain rfl : y = x := by simpa [same] using turned
      exact ⟨rest, rfl, by simp [same]⟩

theorem Queue.leave_turn_none (seated : q.Seated) (left : (q.leave p).Seated) (idle : q.turn.1 = none) :
    (q.leave p).turn.1 = none := by
  rw [left.turn_none_iff]
  exact fun x member => seated.turn_none_iff.mp idle x (List.mem_of_mem_filter member)

/-- At least two wait, and the first of them did not have the last turn. -/
structure Queue.Busy (q : Queue) : Prop where
  two : 2 ≤ q.waiting.length
  nodup : q.waiting.Nodup
  fresh : q.waiting.head? ≠ some q.last

theorem Queue.Seated.busy (seated : q.Seated) (two : 2 ≤ q.waiting.length) : q.Busy := by
  refine ⟨two, seated.nodup, fun first => ?_⟩
  obtain ⟨y, rest, split⟩ := List.exists_cons_of_length_pos (show 0 < q.waiting.length by omega)
  have same : y = q.last := by simpa [split] using first
  have idle : q.turn.1 = none := by simp [turn, split, same]
  have all := seated.turn_none_iff.mp idle
  have nodup := seated.nodup
  rw [split] at all nodup two
  cases rest with
  | nil => simp at two
  | cons z rest =>
    have other : z = y := (all z (by simp)).trans same.symm
    simp [other] at nodup

/-- A turn of a busy queue goes to its first and sends him to its end. -/
theorem Queue.Busy.turn (busy : q.Busy) :
    q.turn.1 = q.waiting.head? ∧ q.turn.2.waiting = q.waiting.rotate 1 ∧ q.turn.2.Busy := by
  obtain ⟨x, y, rest, split⟩ : ∃ x y rest, q.waiting = x :: y :: rest := by
    match wait : q.waiting with
    | [] | [_] => simpa [wait] using busy.two
    | x :: y :: rest => exact ⟨x, y, rest, rfl⟩
  have fresh : x ≠ q.last := by simpa [split] using busy.fresh
  have nodup := busy.nodup
  rw [split] at nodup
  have turned : q.turn = (some x, ⟨y :: rest ++ [x], x⟩) := by simp [Queue.turn, split, fresh]
  rw [turned, split]
  refine ⟨rfl, rfl, by simp, ?_, ?_⟩
  · exact (List.nodup_rotate (n := 1)).mpr nodup
  · simp only [List.nodup_cons, List.mem_cons, not_or] at nodup
    simpa using fun same => nodup.1.1 same.symm

theorem gather_leave (p r : Nat → Bool) : (gather n p last).leave r = gather n (fun x => p x && ! r x) last := by
  simp [gather, Queue.leave, List.filter_filter, Bool.and_comm]

theorem gather_join (p r : Nat → Bool) : (gather n p last).join n r = gather n (fun x => p x || r x) last := by
  simp only [gather, Queue.join, Queue.mk.injEq, and_true]
  refine List.filter_congr fun x member => ?_
  simp [List.mem_filter, mem_seats.mp member]

/-- A turn in a gathered queue looks at every seat but the one whose turn was the last. -/
theorem gather_turn {p : Nat → Bool} {l : List Nat} (split : seats n last = l ++ [last]) :
    (gather n p last).turn =
      match l.find? p with
      | none => (none, gather n p last)
      | some x => (some x, gather n p x) := by
  have apart : ∀ x ∈ l, x ≠ last := by
    have nodup : (l ++ [last]).Nodup := split ▸ seats_nodup
    exact fun x member => (List.nodup_append.mp nodup).2.2 x member last (List.mem_singleton_self last)
  have waiting : (gather n p last).waiting = l.filter p ++ [last].filter p := by simp [gather, split]
  rw [← List.head?_filter]
  unfold Queue.turn
  cases first : l.filter p with
  | cons x rest =>
    rw [first] at waiting
    have member : x ∈ l := List.mem_of_mem_filter (first ▸ List.mem_cons_self)
    have after : gather n p x = ⟨(rest ++ [last].filter p) ++ [x], x⟩ := by
      rw [gather, filter_seats_turn (waiting.trans (List.cons_append ..))]
    rw [waiting, List.cons_append, List.head?_cons]
    exact (if_neg (apart x member)).trans (congrArg (some x, ·) after.symm)
  | nil =>
    rw [first, List.nil_append] at waiting
    cases atLast : p last with
    | false =>
      have nobody : [last].filter p = [] := by simp [atLast]
      rw [waiting, nobody]
      rfl
    | true =>
      have alone : [last].filter p = [last] := by simp [atLast]
      rw [waiting, alone]
      exact if_pos rfl

end TurnQueue

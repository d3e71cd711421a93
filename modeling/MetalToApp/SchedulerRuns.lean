import MetalToApp.Scheduler

namespace MetalToApp
open ByteMemory

/-- The round-robin slot that `scheduler(0)` chooses, if it gets that far. -/
def chosenSlot (s : Scheduler) : Option Nat := (roundChoice s 0).map Prod.fst

/-- The states the scheduler can reach from `init_scheduler`, with the states in which
`scheduler(0)` was called on the way, in order. `suspend` ends in such a call, made by
the interrupt that `yield` raises. Running tasks may change memory in any way. -/
inductive SchedulerReach (idleLoopTask : Nat) : Scheduler → List Scheduler → Prop
  | init {s} : s.roundSchedule = 0 → SchedulerReach idleLoopTask (initScheduler idleLoopTask s) []
  | schedule {s calls} (priority : Int) (task flags : Nat) :
      SchedulerReach idleLoopTask s calls → -128 ≤ priority → priority ≤ 127 →
      SchedulerReach idleLoopTask (schedule s priority task flags).2 calls
  | suspend {s calls} (task : Nat) : SchedulerReach idleLoopTask s calls →
      SchedulerReach idleLoopTask (scheduler idleLoopTask (clearCanExecute s task) 0).2
        (calls ++ [clearCanExecute s task])
  | resume {s calls} (task : Nat) : SchedulerReach idleLoopTask s calls →
      SchedulerReach idleLoopTask (resume s task) calls
  | call {s calls} : SchedulerReach idleLoopTask s calls →
      SchedulerReach idleLoopTask (scheduler idleLoopTask s 0).2 (calls ++ [s])
  | run {s calls} (m : Memory) : SchedulerReach idleLoopTask s calls →
      SchedulerReach idleLoopTask { s with mem := m } calls

/-- The slot of the most recent round-robin choice. -/
def lastChosen (calls : List Scheduler) : Option Nat := (calls.filterMap chosenSlot).getLast?

/-- Where the next round starts, and which slot it should come to last. -/
def firstTried : Option Nat → Nat
  | none => 0
  | some p => p + 1

def lastTried : Option Nat → Nat
  | none => 127
  | some p => p

/-- The order in which a work-conserving scheduler tries the 256 slots. -/
def selectionOrder (last : Option Nat) : List Nat :=
  List.range 128 ++ (List.range 128).map fun k => 128 + roundPosition (firstTried last) k

def selection (s : Scheduler) (last : Option Nat) : Option Nat := (selectionOrder last).findSome? (executable s)

/-- `scheduler(0)` in state `s` takes the first executable task of the order, and idles
only when there is none. -/
structure SelectsInOrder (idleLoopTask : Nat) (s : Scheduler) (last : Option Nat) : Prop where
  result : (scheduler idleLoopTask s 0).1 = (selection s last).getD idleLoopTask
  negative_keeps_round : (∃ slot < 128, executable s slot ≠ none) →
    (scheduler idleLoopTask s 0).2.roundSchedule = s.roundSchedule
  idle_iff : (scheduler idleLoopTask s 0).1 = idleLoopTask ↔ ∀ slot < 256, executable s slot = none
  current : (scheduler idleLoopTask s 0).2.currentTaskTable 0 = (scheduler idleLoopTask s 0).1

/-- Of all the slots only the one that the round comes to last holds an executable task. -/
def OnlyLastExecutable (s : Scheduler) (last : Option Nat) : Prop :=
  executable s (128 + lastTried last) ≠ none ∧
    ∀ slot < 256, slot ≠ 128 + lastTried last → executable s slot = none

theorem findSome?_range_eq_some {β : Type} {f : Nat → Option β} {n : Nat} {b : β}
    (found : (List.range n).findSome? f = some b) : ∃ k < n, f k = some b ∧ ∀ j < k, f j = none := by
  induction n with
  | zero => simp at found
  | succ n ih =>
    rw [List.range_succ, List.findSome?_append] at found
    cases earlier : (List.range n).findSome? f with
    | some c =>
      rw [earlier, Option.some_or, Option.some.injEq] at found
      subst found
      obtain ⟨k, bound, atK, before⟩ := ih earlier
      exact ⟨k, by omega, atK, before⟩
    | none =>
      rw [earlier, Option.none_or, List.findSome?_singleton] at found
      exact ⟨n, Nat.lt_succ_self n, found,
        fun j bound => List.findSome?_eq_none_iff.mp earlier j (List.mem_range.mpr bound)⟩

section scheduler
variable (idleLoopTask : Nat) (s : Scheduler)

theorem scheduler_roundSchedule :
    (scheduler idleLoopTask s 0).2.roundSchedule =
      match chosenSlot s with
      | some p => p + 1
      | none => s.roundSchedule := by
  unfold scheduler chosenSlot roundChoice
  split
  · rfl
  · cases roundScan s 0 ((s.roundSchedule + 127) % 128) 128 (s.roundSchedule % 128) <;> rfl

variable {s} in
theorem roundSchedule_of_chosen {p : Nat} (chosen : chosenSlot s = some p) :
    (scheduler idleLoopTask s 0).2.roundSchedule = p + 1 := by
  rw [scheduler_roundSchedule, chosen]

variable {s} in
theorem roundSchedule_of_none (chosen : chosenSlot s = none) :
    (scheduler idleLoopTask s 0).2.roundSchedule = s.roundSchedule := by
  rw [scheduler_roundSchedule, chosen]

/-- The slots that one call of `scheduler(0)` really tries. -/
def triedSlots : List Nat := List.range 128 ++ (List.range 127).map fun k => 128 + roundPosition s.roundSchedule k

theorem scheduler_result :
    (scheduler idleLoopTask s 0).1 = ((triedSlots s).findSome? (executable s)).getD idleLoopTask := by
  have negative := negativeScan_eq s (n := 128) le_rfl
  rw [show 128 - 128 = 0 from rfl, ← List.range_eq_range'] at negative
  rw [triedSlots, List.findSome?_append, ← negative, scheduler, roundScan_start]
  cases negativeScan s 0 128 with
  | some task => rfl
  | none =>
    simp only [Option.none_or, List.findSome?_map]
    have forget : (List.range 127).findSome? (executable s ∘ fun k => 128 + roundPosition s.roundSchedule k) =
        ((List.range 127).findSome? fun j => (executable s (128 + roundPosition s.roundSchedule j)).map
          (roundPosition s.roundSchedule j, ·)).map Prod.snd := by
      rw [List.map_findSome?]
      congr 1
      funext k
      simp
    rw [forget]
    cases (List.range 127).findSome? fun j => (executable s (128 + roundPosition s.roundSchedule j)).map
      (roundPosition s.roundSchedule j, ·) <;> rfl

end scheduler

theorem chosenSlot_spec {s : Scheduler} {p : Nat} (chosen : chosenSlot s = some p) :
    ∃ k < 127, p = roundPosition s.roundSchedule k ∧ executable s (128 + p) ≠ none ∧
      ∀ j < k, executable s (128 + roundPosition s.roundSchedule j) = none := by
  obtain ⟨⟨pos, task⟩, choice, rfl⟩ := Option.map_eq_some_iff.mp chosen
  unfold roundChoice at choice
  split at choice
  · cases choice
  · rw [roundScan_start] at choice
    obtain ⟨k, bound, atK, before⟩ := findSome?_range_eq_some choice
    obtain ⟨t, exec, pair⟩ := Option.map_eq_some_iff.mp atK
    obtain ⟨rfl, rfl⟩ := Prod.mk.inj pair
    exact ⟨k, bound, rfl, by simp [exec], fun j below => Option.map_eq_none_iff.mp (before j below)⟩

theorem chosenSlot_lt {s : Scheduler} {p : Nat} (chosen : chosenSlot s = some p) : p < 128 := by
  obtain ⟨k, _, rfl, _⟩ := chosenSlot_spec chosen
  exact Nat.mod_lt _ (by decide)

/-- `round_schedule` remembers exactly where the next round has to start. -/
theorem SchedulerReach.roundSchedule_eq {idleLoopTask : Nat} {s : Scheduler} {calls : List Scheduler}
    (reach : SchedulerReach idleLoopTask s calls) : s.roundSchedule = firstTried (lastChosen calls) := by
  have step {s : Scheduler} {calls : List Scheduler} (before : s.roundSchedule = firstTried (lastChosen calls)) :
      (scheduler idleLoopTask s 0).2.roundSchedule = firstTried (lastChosen (calls ++ [s])) := by
    rw [scheduler_roundSchedule, lastChosen, List.filterMap_append]
    cases chosen : chosenSlot s with
    | some p => simp [chosen, firstTried]
    | none => simpa [chosen, lastChosen] using before
  induction reach with
  | init start => exact start
  | schedule _ _ _ _ _ _ ih => exact ih
  | suspend task _ ih => exact step ih
  | resume task _ ih => exact ih
  | call _ ih => exact step ih
  | run _ _ ih => exact ih

theorem lastChosen_lt {calls : List Scheduler} {p : Nat} (last : lastChosen calls = some p) : p < 128 := by
  have member := List.mem_of_getLast? last
  obtain ⟨s, _, chosen⟩ := List.mem_filterMap.mp member
  exact chosenSlot_lt chosen

theorem lastTried_lt (calls : List Scheduler) : lastTried (lastChosen calls) < 128 := by
  cases last : lastChosen calls with
  | none => decide
  | some p => exact lastChosen_lt last

/-- The tried slots are the whole order except its last slot. -/
theorem selectionOrder_eq {s : Scheduler} {last : Option Nat} (start : s.roundSchedule = firstTried last)
    (bound : lastTried last < 128) : selectionOrder last = triedSlots s ++ [128 + lastTried last] := by
  have final : roundPosition (firstTried last) 127 = lastTried last := by
    cases last with
    | none => rfl
    | some p =>
      simp only [roundPosition, firstTried, lastTried] at bound ⊢
      omega
  have order : ((List.range 128).map fun k => 128 + roundPosition (firstTried last) k) =
      ((List.range 127).map fun k => 128 + roundPosition (firstTried last) k) ++ [128 + lastTried last] := by
    rw [List.range_succ (n := 127), List.map_append, List.map_singleton, final]
  rw [selectionOrder, triedSlots, start, order, List.append_assoc]

theorem mem_triedSlots {s : Scheduler} {last : Option Nat} (start : s.roundSchedule = firstTried last)
    (bound : lastTried last < 128) {slot : Nat} :
    slot ∈ triedSlots s ↔ slot < 256 ∧ slot ≠ 128 + lastTried last := by
  have begins : s.roundSchedule % 128 = (lastTried last + 1) % 128 := by
    cases last <;> simp [start, firstTried, lastTried]
  simp only [triedSlots, List.mem_append, List.mem_range, List.mem_map, roundPosition]
  constructor
  · rintro (below | ⟨k, short, rfl⟩) <;> omega
  · rintro ⟨inRow, away⟩
    by_cases negative : slot < 128
    · exact Or.inl negative
    · refine Or.inr ⟨(slot - 128 + 128 - (lastTried last + 1) % 128) % 128, ?_, ?_⟩ <;> omega

/-- In every reachable state `scheduler(0)` follows the selection order, unless the one
slot that its loop leaves out is the only executable one, or the idle task itself has been
scheduled into the slot whose turn it is. -/
theorem scheduler_workConserving_iff {idleLoopTask : Nat} {s : Scheduler} {calls : List Scheduler}
    (reach : SchedulerReach idleLoopTask s calls) :
    SelectsInOrder idleLoopTask s (lastChosen calls) ↔
      ¬OnlyLastExecutable s (lastChosen calls) ∧ selection s (lastChosen calls) ≠ some idleLoopTask := by
  generalize hLast : lastChosen calls = last
  have start : s.roundSchedule = firstTried last := hLast ▸ reach.roundSchedule_eq
  have bound : lastTried last < 128 := hLast ▸ lastTried_lt calls
  have tried := @mem_triedSlots s last start bound
  have result := scheduler_result idleLoopTask s
  have order : selection s last =
      ((triedSlots s).findSome? (executable s)).or (executable s (128 + lastTried last)) := by
    rw [selection, selectionOrder_eq start bound, List.findSome?_append, List.findSome?_singleton]
  have keeps : (∃ slot < 128, executable s slot ≠ none) →
      (scheduler idleLoopTask s 0).2.roundSchedule = s.roundSchedule := by
    rintro ⟨slot, below, exec⟩
    have negative := negativeScan_eq s (n := 128) le_rfl
    rw [show 128 - 128 = 0 from rfl, ← List.range_eq_range'] at negative
    rw [scheduler_roundSchedule, chosenSlot, roundChoice]
    cases found : negativeScan s 0 128 with
    | some task => rfl
    | none =>
      rw [found] at negative
      exact absurd (List.findSome?_eq_none_iff.mp negative.symm slot (List.mem_range.mpr below)) exec
  cases found : (triedSlots s).findSome? (executable s) with
  | some task =>
    rw [found, Option.some_or] at order
    rw [found, Option.getD_some] at result
    obtain ⟨slot, member, exec⟩ := List.exists_of_findSome?_eq_some found
    obtain ⟨inRow, away⟩ := tried.mp member
    have busy : ¬∀ slot < 256, executable s slot = none := fun all => by simp [all slot inRow] at exec
    have notOnly : ¬OnlyLastExecutable s last := fun only => by simp [only.2 slot inRow away] at exec
    constructor
    · intro selects
      refine ⟨notOnly, fun idle => busy (selects.idle_iff.mp ?_)⟩
      rw [result, Option.some.inj (order.symm.trans idle)]
    · rintro ⟨_, notIdle⟩
      refine ⟨by rw [result, order, Option.getD_some], keeps, ?_, scheduler_current _ _⟩
      refine iff_of_false (fun idle => notIdle ?_) busy
      rw [order, ← result, idle]
  | none =>
    rw [found, Option.none_or] at order
    rw [found, Option.getD_none] at result
    have others : ∀ slot < 256, slot ≠ 128 + lastTried last → executable s slot = none :=
      fun slot inRow away => List.findSome?_eq_none_iff.mp found slot (tried.mpr ⟨inRow, away⟩)
    cases exec : executable s (128 + lastTried last) with
    | some task =>
      have only : OnlyLastExecutable s last := ⟨by simp [exec], others⟩
      refine iff_of_false (fun selects => ?_) fun h => h.1 only
      have idle := selects.idle_iff.mp result (128 + lastTried last) (by omega)
      simp [exec] at idle
    | none =>
      rw [exec] at order
      have all : ∀ slot < 256, executable s slot = none := by
        intro slot inRow
        by_cases last' : slot = 128 + lastTried last
        · rw [last', exec]
        · exact others slot inRow last'
      refine iff_of_true ⟨by rw [result, order, Option.getD_none], keeps, iff_of_true result all,
        scheduler_current _ _⟩ ⟨fun only => only.1 exec, by simp [order]⟩

/-- One executable task at priority 5 and nothing else. -/
def loneTask : Scheduler :=
  (schedule (initScheduler 0xFFFFFFFF81210000 ⟨set (fun _ => 0) 0xFFFF8000014040a0 1, fun _ => 0, fun _ _ => ⟨0, 0⟩, 0⟩) 5
    0xFFFF800001404000 0).2

theorem loneTask_reach : SchedulerReach 0xFFFFFFFF81210000 loneTask [] :=
  (SchedulerReach.init rfl).schedule 5 0xFFFF800001404000 0 (by decide) (by decide)

/-- On its first call the scheduler picks the lone task as it should. -/
theorem scheduler_workConserving_iff_loneTask : SelectsInOrder 0xFFFFFFFF81210000 loneTask none := by
  refine (scheduler_workConserving_iff loneTask_reach).mpr ⟨fun only => only.1 ?_, ?_⟩ <;> decide

/-- On the second call it leaves the task out and idles, although the task is executable. -/
theorem scheduler_starves_loneTask :
    SchedulerReach 0xFFFFFFFF81210000 (scheduler 0xFFFFFFFF81210000 loneTask 0).2 [loneTask] ∧
      lastChosen [loneTask] = some 5 ∧ executable (scheduler 0xFFFFFFFF81210000 loneTask 0).2 (128 + 5) = some 0xFFFF800001404000 ∧
      (scheduler 0xFFFFFFFF81210000 (scheduler 0xFFFFFFFF81210000 loneTask 0).2 0).1 = 0xFFFFFFFF81210000 ∧
      ¬SelectsInOrder 0xFFFFFFFF81210000 (scheduler 0xFFFFFFFF81210000 loneTask 0).2 (lastChosen [loneTask]) := by
  refine ⟨loneTask_reach.call, by decide, by decide, by decide, fun selects => ?_⟩
  have idle := selects.idle_iff.mp (by decide) (128 + 5) (by decide)
  revert idle
  decide

/-- Between two calls nothing but `scheduler` itself writes `round_schedule`. -/
theorem SchedulerReach.calls_linked {idleLoopTask : Nat} {s : Scheduler} {calls : List Scheduler}
    (reach : SchedulerReach idleLoopTask s calls) :
    (∀ t c c', calls[t]? = some c → calls[t + 1]? = some c' →
      c'.roundSchedule = (scheduler idleLoopTask c 0).2.roundSchedule) ∧
    ∀ c, calls.getLast? = some c → s.roundSchedule = (scheduler idleLoopTask c 0).2.roundSchedule := by
  have step {s : Scheduler} {calls : List Scheduler}
      (ih : (∀ t c c', calls[t]? = some c → calls[t + 1]? = some c' →
          c'.roundSchedule = (scheduler idleLoopTask c 0).2.roundSchedule) ∧
        ∀ c, calls.getLast? = some c → s.roundSchedule = (scheduler idleLoopTask c 0).2.roundSchedule) :
      (∀ t c c', (calls ++ [s])[t]? = some c → (calls ++ [s])[t + 1]? = some c' →
          c'.roundSchedule = (scheduler idleLoopTask c 0).2.roundSchedule) ∧
        ∀ c, (calls ++ [s]).getLast? = some c →
          (scheduler idleLoopTask s 0).2.roundSchedule = (scheduler idleLoopTask c 0).2.roundSchedule := by
    constructor
    · intro t c c' atT atNext
      have inside := (List.getElem?_eq_some_iff.mp atNext).1
      rw [List.length_append, List.length_singleton] at inside
      rw [List.getElem?_append_left (by omega)] at atT
      by_cases newest : t + 1 = calls.length
      · rw [newest, List.getElem?_concat_length] at atNext
        cases Option.some.inj atNext
        exact ih.2 c (by rw [List.getLast?_eq_getElem?, ← newest, Nat.add_sub_cancel]; exact atT)
      · rw [List.getElem?_append_left (by omega)] at atNext
        exact ih.1 t c c' atT atNext
    · intro c last
      rw [List.getLast?_concat] at last
      rw [Option.some.inj last]
  induction reach with
  | init _ => simp
  | schedule _ _ _ _ _ _ ih => exact ih
  | suspend task _ ih => exact step ih
  | resume task _ ih => exact ih
  | call _ ih => exact step ih
  | run _ _ ih => exact ih

/-- How many slots a round starting at `start` tries before it comes to slot `q`. -/
def roundDistance (start q : Nat) : Nat := (q + 128 - start) % 128

/-- A choice that passes over a runnable slot `q` brings the next round closer to it. -/
theorem roundDistance_of_chosen {s : Scheduler} {x q : Nat} (start : s.roundSchedule ≤ 128)
    (chosen : chosenSlot s = some x) (row : q < 128) (runnable : executable s (128 + q) ≠ none) (other : x ≠ q) :
    roundDistance s.roundSchedule x < roundDistance s.roundSchedule q ∧
      roundDistance (x + 1) q + roundDistance s.roundSchedule x + 1 = roundDistance s.roundSchedule q := by
  obtain ⟨k, short, rfl, _, before⟩ := chosenSlot_spec chosen
  have notYet : ¬roundDistance s.roundSchedule q < k := by
    intro early
    have atQ : roundPosition s.roundSchedule (roundDistance s.roundSchedule q) = q := by
      unfold roundPosition roundDistance
      omega
    exact runnable (atQ ▸ before _ early)
  unfold roundPosition roundDistance at *
  constructor <;> omega

/-- Two choices of one round-robin slot enclose a choice of every other slot that stays
runnable, whatever negative-priority and idle picks lie in between. -/
theorem roundRobin_bounded_bypass {idleLoopTask : Nat} {s : Scheduler} {calls : List Scheduler}
    (reach : SchedulerReach idleLoopTask s calls) {t₁ t₂ p q : Nat} (before : t₁ < t₂) (different : p ≠ q)
    (row : q < 128) (first : calls[t₁]?.bind chosenSlot = some p) (second : calls[t₂]?.bind chosenSlot = some p)
    (runnable : ∀ t c, t₁ ≤ t → t ≤ t₂ → calls[t]? = some c → executable c (128 + q) ≠ none) :
    ∃ t, t₁ < t ∧ t < t₂ ∧ calls[t]?.bind chosenSlot = some q := by
  by_contra absent
  push Not at absent
  obtain ⟨c₁, at₁, chosen₁⟩ := Option.bind_eq_some_iff.mp first
  obtain ⟨c₂, at₂, chosen₂⟩ := Option.bind_eq_some_iff.mp second
  have bound₁ := chosenSlot_lt chosen₁
  have inside := (List.getElem?_eq_some_iff.mp at₂).1
  obtain ⟨linked, _⟩ := reach.calls_linked
  -- The induction follows the calls after `t₁`; no round start lies past `q` on the way from `p`.
  have closer : ∀ n c, t₁ + 1 + n ≤ t₂ → calls[t₁ + 1 + n]? = some c →
      c.roundSchedule ≤ 128 ∧ roundDistance c.roundSchedule q ≤ roundDistance (p + 1) q := by
    intro n
    induction n with
    | zero =>
      intro c _ atC
      have start := linked t₁ c₁ c at₁ atC
      rw [roundSchedule_of_chosen idleLoopTask chosen₁] at start
      exact ⟨by omega, by rw [start]⟩
    | succ n ih =>
      intro c within atC
      obtain ⟨d, atD⟩ : ∃ d, calls[t₁ + 1 + n]? = some d := ⟨_, List.getElem?_eq_getElem (by omega)⟩
      obtain ⟨range, distance⟩ := ih d (by omega) atD
      have start := linked (t₁ + 1 + n) d c atD atC
      cases chosen : chosenSlot d with
      | none =>
        rw [roundSchedule_of_none idleLoopTask chosen] at start
        exact ⟨start ▸ range, start ▸ distance⟩
      | some x =>
        rw [roundSchedule_of_chosen idleLoopTask chosen] at start
        have other : x ≠ q := by
          rintro rfl
          exact absent (t₁ + 1 + n) (by omega) (by omega) (by rw [atD, Option.bind_some, chosen])
        obtain ⟨_, shorter⟩ := roundDistance_of_chosen range chosen row
          (runnable _ d (by omega) (by omega) atD) other
        have bound := chosenSlot_lt chosen
        exact ⟨by omega, by rw [start]; omega⟩
  obtain ⟨range, distance⟩ := closer (t₂ - (t₁ + 1)) c₂ (by omega) (by rw [show t₁ + 1 + (t₂ - (t₁ + 1)) = t₂ by omega, at₂])
  obtain ⟨_, shorter⟩ := roundDistance_of_chosen range chosen₂ row (runnable t₂ c₂ (by omega) le_rfl at₂) different
  omega

/-- Two executable tasks at the priorities 0 and 1. -/
def twoTasks : Scheduler :=
  (schedule (schedule (initScheduler 0xFFFFFFFF81210000 ⟨set (set (fun _ => 0) 0xFFFF8000014040a0 1) 0xFFFF8000014080a0 1, fun _ => 0,
    fun _ _ => ⟨0, 0⟩, 0⟩) 0 0xFFFF800001404000 0).2 1 0xFFFF800001408000 0).2

/-- They take turns: between two choices of slot 0 lies one of slot 1. -/
theorem roundRobin_bounded_bypass_twoTasks :
    let second := (scheduler 0xFFFFFFFF81210000 twoTasks 0).2
    let third := (scheduler 0xFFFFFFFF81210000 second 0).2
    ∃ t, 0 < t ∧ t < 2 ∧ [twoTasks, second, third][t]?.bind chosenSlot = some 1 := by
  intro second third
  have start : SchedulerReach 0xFFFFFFFF81210000 twoTasks [] :=
    ((SchedulerReach.init rfl).schedule 0 0xFFFF800001404000 0 (by decide) (by decide)).schedule
      1 0xFFFF800001408000 0 (by decide) (by decide)
  refine roundRobin_bounded_bypass (p := 0) start.call.call.call (by decide) (by decide) (by decide)
    (by decide) (by decide) fun t c _ within atT => ?_
  interval_cases t <;> cases atT <;> decide

end MetalToApp

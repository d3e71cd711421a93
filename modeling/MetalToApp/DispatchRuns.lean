import MetalToApp.DispatchOrder

namespace MetalToApp
open ByteMemory X86 TurnQueue

namespace Turns
variable {A : Turns} {idleLoopTask : Nat}

/-- Without an urgent task a turn is one of the queue. -/
theorem turn_of_calm (calm : (List.range 128).find? A.ready = none) :
    A.turn = (A.queue.turn.1.map (128 + ·), { A with queue := A.queue.turn.2 }) := by
  unfold turn
  rw [calm]

theorem log_turns (calm : (List.range 128).find? A.ready = none) (busy : A.queue.Busy) {events : List TurnEvent}
    (only : ∀ event ∈ events, event = .quiet ∨ event = .turn) {k : Nat} (inLog : k < (A.log idleLoopTask events).length) :
    (A.log idleLoopTask events)[k]? =
      (A.queue.waiting[k % A.queue.waiting.length]?).map fun pos => A.table (128 + pos) := by
  induction events generalizing A k with
  | nil => simp [log] at inLog
  | cons event events ih =>
    have rest : ∀ event ∈ events, event = .quiet ∨ event = .turn := fun e member => only e (List.mem_cons_of_mem _ member)
    obtain rfl | rfl := only event List.mem_cons_self
    · exact ih calm busy rest inLog
    · obtain ⟨first, moved, still⟩ := busy.turn
      have length : 0 < A.queue.waiting.length := by have := busy.two; omega
      have after : A.step .turn = { A with queue := A.queue.turn.2 } := by rw [step, turn_of_calm calm]
      simp only [log, List.length_cons] at inLog ⊢
      cases k with
      | zero =>
        obtain ⟨x, others, split⟩ := List.exists_cons_of_length_pos length
        simp [next, turn_of_calm calm, first, split]
      | succ k =>
        rw [List.getElem?_cons_succ]
        rw [after] at inLog ⊢
        have later := ih (A := { A with queue := A.queue.turn.2 }) calm still rest (k := k) (by omega)
        rw [later]
        have wrapped : (k % A.queue.waiting.length + 1) % A.queue.waiting.length = (k + 1) % A.queue.waiting.length := by
          rw [Nat.mod_add_mod]
        simp only [moved, List.length_rotate]
        rw [List.getElem?_rotate (Nat.mod_lt k length), wrapped]

theorem turn_eq_none_iff : A.turn.1 = none ↔ (List.range 128).find? A.ready = none ∧ A.queue.turn.1 = none := by
  unfold turn
  cases (List.range 128).find? A.ready <;> simp

theorem step_last (A : Turns) {event : TurnEvent} (notTurn : event ≠ .turn) :
    (A.step event).queue.last = A.queue.last := by
  cases event with
  | turn => exact absurd rfl notTurn
  | _ => simp [step]

theorem turn_of_none (idle : A.turn.1 = none) : A.turn.2 = A := by
  obtain ⟨calm, none⟩ := turn_eq_none_iff.mp idle
  rw [turn_of_calm calm, Queue.turn_of_none none]

/-- When nobody takes the turn, nobody does after a task has gone to sleep. -/
theorem sleep_turn_none {task : Nat} (seated : A.queue.Seated) (left : (A.step (.sleep task)).queue.Seated)
    (idle : A.turn.1 = none) : (A.step (.sleep task)).turn.1 = none := by
  obtain ⟨calm, none⟩ := turn_eq_none_iff.mp idle
  refine turn_eq_none_iff.mpr ⟨List.find?_eq_none.mpr fun slot member ready => ?_, Queue.leave_turn_none seated left none⟩
  have asleep := List.find?_eq_none.mp calm slot member
  by_cases same : A.table slot = task
  · simp [Turns.ready, step, same] at ready
  · simp only [Turns.ready, step, Function.update_of_ne same] at ready
    exact asleep ready

end Turns

/-- Events that can give a turn to a task that did not want it. -/
def TurnEvent.rouses : TurnEvent → Bool
  | .wake _ => true
  | .place _ _ => true
  | _ => false

namespace Refines
variable {T : TaskArea} {s : Scheduler} {A : Turns}

theorem seated (refines : Refines T s A) : A.queue.Seated := by
  rw [refines.queue]
  exact gather_seated _ (Nat.mod_lt _ (by decide))

theorem waiting_eq (refines : Refines T s A) :
    A.queue.waiting = (seats 128 A.queue.last).filter fun pos => A.ready (128 + pos) := by
  rw [refines.queue]
  exact gather_waiting

/-- Only an awake task gets a turn. -/
theorem awake_of_turn (refines : Refines T s A) {slot : Nat} (turned : A.turn.1 = some slot) : A.ready slot = true := by
  unfold Turns.turn at turned
  cases urgent : (List.range 128).find? A.ready with
  | some first =>
    rw [urgent] at turned
    cases turned
    exact List.find?_some urgent
  | none =>
    rw [urgent] at turned
    obtain ⟨pos, ofQueue, rfl⟩ := Option.map_eq_some_iff.mp turned
    obtain ⟨rest, front, -⟩ := Queue.waiting_of_turn ofQueue
    have member : pos ∈ A.queue.waiting := front ▸ List.mem_cons_self
    rw [refines.waiting_eq, List.mem_filter] at member
    exact member.2

end Refines

/-- A machine can always switch once more. -/
theorem MachineRun.exists_turns (T : TaskArea) (M : Machine) (n : Nat) :
    ∃ log M', MachineRun T M (List.replicate n .turn) log M' ∧ log.length = n := by
  induction n generalizing M with
  | zero => exact ⟨[], M, .nil, rfl⟩
  | succ n ih =>
    obtain ⟨log, M', run, length⟩ := ih (asmReschedule T ⟨0, fun _ => 3, fun _ => 9⟩ M)
    exact ⟨_, M', .turn (.switch _) run, by rw [List.length_cons, length]⟩

/-- The idle task in the kernel image, and two tasks in frames. -/
def threeTaskArea : TaskArea where
  tasks := {0xFFFFFFFF81210000, 0xFFFF800001404000, 0xFFFF800001408000}
  idleLoopTask := twoTaskArea.idleLoopTask
  floor := twoTaskArea.floor
  ist := twoTaskArea.ist
  idle_mem := Or.inl rfl
  apart := by
    rintro t (rfl | rfl | rfl) u (rfl | rfl | rfl) differ <;> simp [Task.size] at differ ⊢
  fits := by
    rintro t (rfl | rfl | rfl) <;> decide
  offStack := by
    rintro t (rfl | rfl | rfl) <;> decide
  deep := twoTaskArea.deep
  istFits := twoTaskArea.istFits

/-- The idle task running, with two user tasks made and scheduled at the priorities 0 and 1. -/
def pairMachine : Machine :=
  let m := makeTask idleMachine.sched.mem 0x1200000 0xFFFF800001404000 0x7FFFFFFFEFF0 0x400000 0x7FFFFFFFEFF0 0x1400000 true
  let m := makeTask m 0x1200000 0xFFFF800001408000 0x7FFFFFFFEFF0 0x400000 0x7FFFFFFFEFF0 0x1410000 true
  let s := { idleMachine.sched with mem := m }
  { idleMachine with sched := (schedule (schedule s 0 0xFFFF800001404000 0).2 1 0xFFFF800001408000 0).2 }

theorem pairMachine_reach : ∃ expected, SwitchReach threeTaskArea pairMachine expected := by
  have start : SwitchReach threeTaskArea idleMachine _ := .start rfl fun _ => rfl
  have made := (start.makeTask 0x1200000 0xFFFF800001404000 0x7FFFFFFFEFF0 0x400000 0x7FFFFFFFEFF0 0x1400000 true
    (Or.inr (Or.inl rfl))).makeTask 0x1200000 0xFFFF800001408000 0x7FFFFFFFEFF0 0x400000 0x7FFFFFFFEFF0 0x1410000 true (Or.inr (Or.inr rfl))
  exact ⟨_, (made.schedule 0 0xFFFF800001404000 0 (by decide) (by decide) (Or.inr (Or.inr (Or.inl rfl)))).schedule
    1 0xFFFF800001408000 0 (by decide) (by decide) (Or.inr (Or.inr (Or.inr rfl)))⟩

theorem readyMachine_reach : ∃ expected, SwitchReach twoTaskArea readyMachine expected :=
  ⟨_, .schedule 5 0xFFFF800001404000 0
    (.makeTask 0x1200000 0xFFFF800001404000 0x7FFFFFFFEFF0 0x400000 0x7FFFFFFFEFF0 0x1400000 true
      (.start (T := twoTaskArea) (M := idleMachine) rfl fun _ => rfl) (Or.inr rfl))
    (by decide) (by decide) (Or.inr (Or.inr rfl))⟩

section runs
variable {T : TaskArea} {M M' : Machine} {events : List TurnEvent} {log : List Nat} {expected : Nat → Context}

/-- As long as the tasks that want a turn stay the same and none of them is urgent, the
switches dispatch them strictly one after the other, over and over. There are two of them at
least, and the order starts behind the slot that was chosen last. -/
theorem roundRobin_cyclic (reach : SwitchReach T M expected) (run : MachineRun T M events log M')
    (only : ∀ event ∈ events, event = .quiet ∨ event = .turn) (calm : ∀ slot < 128, executable M.sched slot = none)
    (two : 2 ≤ (turnsOf M.sched).queue.waiting.length) {k : Nat} (inLog : k < log.length) :
    log[k]? = ((turnsOf M.sched).queue.waiting[k % (turnsOf M.sched).queue.waiting.length]?).map
      fun pos => (M.sched.schedulingVector 0 (128 + pos)).task := by
  have refines := turnsOf_refines T M.sched
  obtain ⟨-, rfl⟩ := run.refines reach refines
  refine Turns.log_turns (List.find?_eq_none.mpr fun slot member ready => ?_) (refines.seated.busy two) only inLog
  have awake := refines.executable_eq reach.inv.entries slot
  rw [calm slot (List.mem_range.mp member), if_pos ready] at awake
  cases awake

set_option maxRecDepth 2000 in
theorem roundRobin_cyclic_pairMachine :
    ∃ log M', MachineRun threeTaskArea pairMachine (List.replicate 5 .turn) log M' ∧ log[4]? = some 0xFFFF800001404000 := by
  obtain ⟨_, reach⟩ := pairMachine_reach
  obtain ⟨log, M', run, length⟩ := MachineRun.exists_turns threeTaskArea pairMachine 5
  have waiting : (turnsOf pairMachine.sched).queue.waiting = [0, 1] := by decide
  refine ⟨log, M', run, ?_⟩
  rw [roundRobin_cyclic reach run (by simp) (by decide) (by rw [waiting]; decide) (by omega), waiting]
  rfl

theorem MachineRun.idle_stays (run : MachineRun T M events log M') (reach : SwitchReach T M expected) {A : Turns}
    (refines : Refines T M.sched A) (idle : A.turn.1 = none) (asleep : ∀ event ∈ events, event.rouses = false) :
    log = List.replicate log.length T.idleLoopTask := by
  induction run generalizing expected A with
  | nil => rfl
  | turn step _ ih =>
    obtain ⟨refines', next⟩ := step.refines reach refines
    have same : A.step .turn = A := Turns.turn_of_none idle
    have rest := ih (reach.step step) (same ▸ refines') idle fun event member => asleep event (List.mem_cons_of_mem _ member)
    have first := next rfl
    rw [Turns.next, idle, Option.map_none, Option.getD_none] at first
    rw [first, List.length_cons, List.replicate_succ, ← rest]
  | @other M event change M' M'' events log notTurn step _ ih =>
    obtain ⟨refines', -⟩ := step.refines reach refines
    have quietened := asleep event List.mem_cons_self
    refine ih (reach.step step) refines' ?_ fun event member => asleep event (List.mem_cons_of_mem _ member)
    cases event with
    | quiet => exact idle
    | turn => exact absurd rfl notTurn
    | sleep task => exact Turns.sleep_turn_none refines.seated refines'.seated idle
    | wake task => cases quietened
    | place slot task => cases quietened

theorem MachineRun.busy_then_idle (run : MachineRun T M events log M') (reach : SwitchReach T M expected) {A : Turns}
    (refines : Refines T M.sched A) (asleep : ∀ event ∈ events, event.rouses = false)
    (unscheduled : ∀ slot, A.table slot ≠ T.idleLoopTask) :
    ∃ busy n, log = busy ++ List.replicate n T.idleLoopTask ∧ T.idleLoopTask ∉ busy := by
  induction run generalizing expected A with
  | nil => exact ⟨[], 0, rfl, List.not_mem_nil⟩
  | turn step rest ih =>
    cases turned : A.turn.1 with
    | none =>
      have idle := (MachineRun.turn step rest).idle_stays reach refines turned asleep
      exact ⟨[], _, idle.trans (List.nil_append _).symm, List.not_mem_nil⟩
    | some slot =>
      obtain ⟨refines', next⟩ := step.refines reach refines
      obtain ⟨busy, n, split, noIdle⟩ := ih (reach.step step) refines'
        (fun event member => asleep event (List.mem_cons_of_mem _ member)) fun slot => by simpa [Turns.step] using unscheduled slot
      have first := next rfl
      rw [Turns.next, turned, Option.map_some, Option.getD_some] at first
      refine ⟨A.table slot :: busy, n, by rw [first, split, List.cons_append], ?_⟩
      simpa [noIdle] using (unscheduled slot).symm
  | @other M event change M' M'' events log notTurn step _ ih =>
    obtain ⟨refines', -⟩ := step.refines reach refines
    have quietened := asleep event List.mem_cons_self
    refine ih (reach.step step) refines' (fun event member => asleep event (List.mem_cons_of_mem _ member)) fun slot => ?_
    cases event with
    | turn => exact absurd rfl notTurn
    | place slot task => cases quietened
    | _ => exact unscheduled slot

/-- Once a switch has found nothing but the idle task, so do all that follow, as long as no
task is resumed, made or scheduled. The idle task itself is in no slot: nothing in the kernel
schedules it. -/
theorem idle_forever (reach : SwitchReach T M expected) (run : MachineRun T M events log M')
    (asleep : ∀ event ∈ events, event.rouses = false)
    (unscheduled : ∀ slot, (M.sched.schedulingVector 0 slot).task ≠ T.idleLoopTask) :
    ∃ busy n, log = busy ++ List.replicate n T.idleLoopTask ∧ T.idleLoopTask ∉ busy :=
  run.busy_then_idle reach (turnsOf_refines T M.sched) asleep unscheduled

/-- The lone task of `readyMachine` has one turn at most. -/
theorem idle_forever_readyMachine :
    ∃ log M', MachineRun twoTaskArea readyMachine (List.replicate 3 .turn) log M' ∧
      ∃ busy n, log = busy ++ List.replicate n 0xFFFFFFFF81210000 ∧ 0xFFFFFFFF81210000 ∉ busy := by
  obtain ⟨_, reach⟩ := readyMachine_reach
  obtain ⟨log, M', run, -⟩ := MachineRun.exists_turns twoTaskArea readyMachine 3
  refine ⟨log, M', run, idle_forever reach run (fun event member => ?_) fun slot => ?_⟩
  · rw [List.eq_of_mem_replicate member]
    rfl
  · simp only [readyMachine, schedule, idleMachine, initScheduler, Function.update_self, twoTaskArea]
    by_cases same : slot = 133 <;> simp [same]

theorem MachineRun.not_dispatched (run : MachineRun T M events log M') (reach : SwitchReach T M expected) {A : Turns}
    (refines : Refines T M.sched A) {task : Nat} (asleep : A.awake task = false) (notIdle : task ≠ T.idleLoopTask)
    (unwoken : .wake task ∉ events) : task ∉ log := by
  induction run generalizing expected A with
  | nil => exact List.not_mem_nil
  | turn step _ ih =>
    obtain ⟨refines', next⟩ := step.refines reach refines
    have rest := ih (reach.step step) refines' (by simpa [Turns.step] using asleep)
      fun member => unwoken (List.mem_cons_of_mem _ member)
    have first : task ≠ A.next T.idleLoopTask := by
      unfold Turns.next
      cases turned : A.turn.1 with
      | none => exact notIdle
      | some slot =>
        change task ≠ A.table slot
        intro same
        have awake := refines.awake_of_turn turned
        rw [Turns.ready, ← same, asleep] at awake
        cases awake
    rw [next rfl]
    simpa using ⟨first, rest⟩
  | @other M event change M' M'' events log notTurn step _ ih =>
    obtain ⟨refines', -⟩ := step.refines reach refines
    refine ih (reach.step step) refines' ?_ fun member => unwoken (List.mem_cons_of_mem _ member)
    cases event with
    | turn => exact absurd rfl notTurn
    | quiet | place slot other => exact asleep
    | sleep other =>
      by_cases same : task = other <;> simp [Turns.step, same, asleep, Function.update_of_ne]
    | wake other =>
      have different : task ≠ other := fun same => unwoken (same ▸ List.mem_cons_self)
      simpa [Turns.step, different] using asleep

/-- A task that has been suspended, or has suspended itself, is never dispatched again unless
it is resumed or made anew. The idle task is left out: it is chosen without a look at its flags,
and nothing in the kernel suspends it. -/
theorem suspended_never_dispatched {task : Nat} (reach : SwitchReach T M expected) (known : task = 0 ∨ task ∈ T.tasks)
    (run : MachineRun T { M with sched := clearCanExecute M.sched task } events log M') :
    let suspended := if task = 0 then M.sched.currentTaskTable 0 else task
    suspended ≠ T.idleLoopTask → .wake suspended ∉ events → suspended ∉ log := by
  intro suspended notIdle unwoken
  have step : MachineStep T M (.sleep suspended) id { M with sched := clearCanExecute M.sched task } := .call (.suspend task known)
  obtain ⟨refines, -⟩ := step.refines reach (turnsOf_refines T M.sched)
  exact run.not_dispatched (reach.step step) refines (by simp [Turns.step]) notIdle unwoken

theorem suspended_never_dispatched_pairMachine :
    ∃ log M', MachineRun threeTaskArea { pairMachine with sched := clearCanExecute pairMachine.sched 0xFFFF800001404000 }
      (List.replicate 4 .turn) log M' ∧ 0xFFFF800001404000 ∉ log := by
  obtain ⟨_, reach⟩ := pairMachine_reach
  obtain ⟨log, M', run, -⟩ := MachineRun.exists_turns threeTaskArea
    { pairMachine with sched := clearCanExecute pairMachine.sched 0xFFFF800001404000 } 4
  exact ⟨log, M', run, suspended_never_dispatched reach (Or.inr (Or.inr (Or.inl rfl))) run (by decide) (by simp)⟩

/-- An awake task whose turn was not the last has its own after all those before it. -/
theorem MachineRun.dispatched (run : MachineRun T M events log M') (reach : SwitchReach T M expected) {A : Turns}
    (refines : Refines T M.sched A) {task pos : Nat} (row : pos < 128) (atPos : A.table (128 + pos) = task)
    (awake : A.awake task = true) (fresh : pos ≠ A.queue.last) (calm : ∀ slot < 128, A.table slot = 0)
    (stays : .sleep task ∉ events) (placed : ∀ slot other, .place slot other ∈ events → 128 ≤ slot ∧ slot ≠ 128 + pos)
    {d : Nat} (distance : (seats 128 A.queue.last).idxOf pos = d) (enough : d < log.length) : task ∈ log.take (d + 1) := by
  induction run generalizing expected A d with
  | nil => simp at enough
  | @turn M change M' M'' events log step _ ih =>
    obtain ⟨refines', next⟩ := step.refines reach refines
    have noneUrgent : (List.range 128).find? A.ready = none := List.find?_eq_none.mpr fun slot member => by
      simp [Turns.ready, calm slot (List.mem_range.mp member), refines.null]
    have waits : pos ∈ A.queue.waiting := by
      rw [refines.waiting_eq, List.mem_filter, mem_seats]
      exact ⟨row, by rw [Turns.ready, atPos, awake]⟩
    have turn := Turns.turn_of_calm noneUrgent
    cases turned : A.queue.turn.1 with
    | none => exact absurd (refines.seated.turn_none_iff.mp turned pos waits) fresh
    | some x =>
      have first := next rfl
      rw [Turns.next, turn, turned, Option.map_some, Option.map_some, Option.getD_some] at first
      rw [List.take_succ_cons, first]
      by_cases now : pos = x
      · rw [← now, atPos]
        exact List.mem_cons_self
      · refine List.mem_cons_of_mem _ ?_
        obtain ⟨rest, front, after⟩ := Queue.waiting_of_turn turned
        have order := refines.waiting_eq.symm.trans front
        have closer := idxOf_seats_turn order row (by rw [Turns.ready, atPos, awake]) now
        have step' : A.step .turn = { A with queue := ⟨rest ++ [x], x⟩ } := by rw [Turns.step, turn, after]
        rw [step'] at refines'
        rw [distance] at closer
        have soon := ih (reach.step step) refines' atPos awake now calm (fun member => stays (List.mem_cons_of_mem _ member))
          (fun slot other member => placed slot other (List.mem_cons_of_mem _ member)) rfl
          (by simp only [List.length_cons] at enough ⊢; omega)
        exact (List.take_prefix_take_left closer).subset soon
  | @other M event change M' M'' events log notTurn step _ ih =>
    obtain ⟨refines', -⟩ := step.refines reach refines
    have slept : .sleep task ∉ events := fun member => stays (List.mem_cons_of_mem _ member)
    have away : ∀ slot other, .place slot other ∈ events → 128 ≤ slot ∧ slot ≠ 128 + pos :=
      fun slot other member => placed slot other (List.mem_cons_of_mem _ member)
    have last := A.step_last notTurn
    rw [← last] at fresh distance
    cases event with
    | turn => exact absurd rfl notTurn
    | quiet => exact ih (reach.step step) refines' atPos awake fresh calm slept away distance enough
    | sleep other =>
      have different : task ≠ other := fun same => stays (same ▸ List.mem_cons_self)
      exact ih (A := A.step (.sleep other)) (reach.step step) refines' atPos
        ((Function.update_of_ne different _ _).trans awake) fresh calm slept away distance enough
    | wake other =>
      refine ih (A := A.step (.wake other)) (reach.step step) refines' atPos ?_ fresh calm slept away distance enough
      by_cases same : task = other <;> simp [Turns.step, same, awake]
    | place slot other =>
      obtain ⟨lower, different⟩ := placed slot other List.mem_cons_self
      refine ih (A := A.step (.place slot other)) (reach.step step) refines' ?_ awake fresh
        (fun urgent below => ?_) slept away distance enough
      · exact (Function.update_of_ne different.symm _ _).trans atPos
      · exact (Function.update_of_ne (by omega) _ _).trans (calm urgent below)

/-- An executable task of a round-robin slot, if its turn was not the very last, is dispatched
as soon as the round has come to its slot. Tasks may be suspended, resumed and scheduled at
the other round-robin slots meanwhile; no slot of negative priority holds one. -/
theorem waiting_dispatched {task pos : Nat} (reach : SwitchReach T M expected) (run : MachineRun T M events log M')
    (row : pos < 128) (runnable : executable M.sched (128 + pos) = some task)
    (fresh : roundDistance (M.sched.roundSchedule % 128) pos ≠ 127)
    (calm : ∀ slot < 128, (M.sched.schedulingVector 0 slot).task = 0) (stays : .sleep task ∉ events)
    (placed : ∀ slot other, .place slot other ∈ events → 128 ≤ slot ∧ slot ≠ 128 + pos)
    (enough : roundDistance (M.sched.roundSchedule % 128) pos < log.length) :
    task ∈ log.take (roundDistance (M.sched.roundSchedule % 128) pos + 1) := by
  have refines := turnsOf_refines T M.sched
  have last : (turnsOf M.sched).queue.last = (M.sched.roundSchedule + 127) % 128 := rfl
  have distance : (seats 128 (turnsOf M.sched).queue.last).idxOf pos = roundDistance (M.sched.roundSchedule % 128) pos := by
    rw [last, idxOf_seats row (Nat.mod_lt _ (by decide)), roundDistance]
    omega
  have ready := refines.executable_eq reach.inv.entries (128 + pos)
  rw [runnable] at ready
  obtain ⟨awake, atPos⟩ : (turnsOf M.sched).ready (128 + pos) = true ∧ task = (turnsOf M.sched).table (128 + pos) := by
    simpa using ready
  refine run.dispatched reach refines row atPos.symm (atPos ▸ awake) ?_ calm stays placed distance enough
  rw [last]
  unfold roundDistance at fresh
  omega

theorem waiting_dispatched_pairMachine :
    ∃ log M', MachineRun threeTaskArea pairMachine (List.replicate 2 .turn) log M' ∧ 0xFFFF800001408000 ∈ log.take 2 := by
  obtain ⟨_, reach⟩ := pairMachine_reach
  obtain ⟨log, M', run, length⟩ := MachineRun.exists_turns threeTaskArea pairMachine 2
  have distance : roundDistance (pairMachine.sched.roundSchedule % 128) 1 = 1 := by decide
  have runnable : executable pairMachine.sched (128 + 1) = some 0xFFFF800001408000 := by decide
  have soon := waiting_dispatched reach run (by decide) runnable (by decide) (by decide) (by simp) (by simp)
    (by omega)
  rw [distance] at soon
  exact ⟨log, M', run, soon⟩

end runs

end MetalToApp

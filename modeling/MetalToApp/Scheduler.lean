import MetalToApp.Task
import Mathlib.Tactic

namespace MetalToApp
open ByteMemory

structure SchedulingEntry where
  flags : Nat
  task : Nat

/-- The kernel memory that holds the task structs, and the scheduler's variables.
A task is named by the address of its struct; address 0 is `NULL`. -/
structure Scheduler where
  mem : Memory
  currentTaskTable : Nat → Nat
  schedulingVector : Nat → Nat → SchedulingEntry
  roundSchedule : Nat

def taskFlags (m : Memory) (task : Nat) : Nat := read64 m (task + Task.taskFlags)

def getIfCanExecute (s : Scheduler) (entry : SchedulingEntry) : Option Nat :=
  if entry.task ≠ 0 ∧ taskFlags s.mem entry.task &&& taskFlagMaskCanExecute = taskFlagMaskCanExecute then
    some entry.task
  else none

/-- The first loop: `n` counts the positions `-n, ..., -1` still to be tried. -/
def negativeScan (s : Scheduler) (cpuId : Nat) : Nat → Option Nat
  | 0 => none
  | n + 1 =>
    match getIfCanExecute s (s.schedulingVector cpuId (128 - (n + 1))) with
    | some task => some task
    | none => negativeScan s cpuId n

/-- The second loop, from `pos` until it comes to `stop`. -/
def roundScan (s : Scheduler) (cpuId stop : Nat) : Nat → Nat → Option (Nat × Nat)
  | 0, _ => none
  | fuel + 1, pos =>
    if pos = stop then none
    else
      match getIfCanExecute s (s.schedulingVector cpuId (128 + pos)) with
      | some task => some (pos, task)
      | none => roundScan s cpuId stop fuel ((pos + 1) % 128)

/-- The position and the task that the second loop chooses, when the first finds none. -/
def roundChoice (s : Scheduler) (cpuId : Nat) : Option (Nat × Nat) :=
  match negativeScan s cpuId 128 with
  | some _ => none
  | none => roundScan s cpuId ((s.roundSchedule + 127) % 128) 128 (s.roundSchedule % 128)

def setCurrentTask (s : Scheduler) (cpuId task : Nat) : Scheduler :=
  { s with currentTaskTable := Function.update s.currentTaskTable cpuId task }

def scheduler (idleLoopTask : Nat) (s : Scheduler) (cpuId : Nat) : Nat × Scheduler :=
  match negativeScan s cpuId 128 with
  | some task => (task, setCurrentTask s cpuId task)
  | none =>
    match roundScan s cpuId ((s.roundSchedule + 127) % 128) 128 (s.roundSchedule % 128) with
    | some (pos, task) => (task, setCurrentTask { s with roundSchedule := pos + 1 } cpuId task)
    | none => (idleLoopTask, setCurrentTask s cpuId idleLoopTask)

section scheduler
variable (idleLoopTask : Nat) (s : Scheduler)

theorem scheduler_current : (scheduler idleLoopTask s 0).2.currentTaskTable 0 = (scheduler idleLoopTask s 0).1 := by
  unfold scheduler
  split
  · simp [setCurrentTask]
  · split <;> simp [setCurrentTask]

/-- A choice touches neither a task struct nor the scheduling vector. -/
theorem scheduler_kept :
    (scheduler idleLoopTask s 0).2.mem = s.mem ∧
      (scheduler idleLoopTask s 0).2.schedulingVector = s.schedulingVector := by
  unfold scheduler
  split
  · exact ⟨rfl, rfl⟩
  · split <;> exact ⟨rfl, rfl⟩

end scheduler

def setTaskFlags (s : Scheduler) (task flags : Nat) : Scheduler :=
  { s with mem := write64 s.mem (task + Task.taskFlags) flags }

/-- What `suspend` does before it yields. The null task stands for the current one. -/
def clearCanExecute (s : Scheduler) (task : Nat) : Scheduler :=
  let task := if task = 0 then s.currentTaskTable 0 else task
  let flags := taskFlags s.mem task ||| taskFlagMaskCanExecute
  setTaskFlags s task (flags ^^^ taskFlagMaskCanExecute)

def resume (s : Scheduler) (task : Nat) : Scheduler :=
  setTaskFlags s task (taskFlags s.mem task ||| taskFlagMaskCanExecute)

def schedule (s : Scheduler) (priority : Int) (task flags : Nat) : SchedulingEntry × Scheduler :=
  let index := (128 + priority).toNat
  let row := Function.update (s.schedulingVector 0) index ⟨flags, task⟩
  (s.schedulingVector 0 index, { s with schedulingVector := Function.update s.schedulingVector 0 row })

def initScheduler (idleLoopTask : Nat) (s : Scheduler) : Scheduler :=
  { s with currentTaskTable := Function.update s.currentTaskTable 0 idleLoopTask }

/-- The task of a slot of CPU 0's row, if it can execute. Slots 0 to 127 have the
negative priorities, slots 128 to 255 the others. -/
def executable (s : Scheduler) (slot : Nat) : Option Nat := getIfCanExecute s (s.schedulingVector 0 slot)

theorem negativeScan_eq (s : Scheduler) {n : Nat} (bound : n ≤ 128) :
    negativeScan s 0 n = (List.range' (128 - n) n).findSome? (executable s) := by
  induction n with
  | zero => rfl
  | succ n ih =>
    have next : 128 - (n + 1) + 1 = 128 - n := by omega
    rw [negativeScan, List.range'_succ, List.findSome?_cons, next, ← ih (by omega), executable]
    cases getIfCanExecute s (s.schedulingVector 0 (128 - (n + 1))) <;> rfl

/-- The round-robin positions that come up `k` steps after `start`. -/
def roundPosition (start k : Nat) : Nat := (start + k) % 128

/-- The second loop tries `n` positions when it stops at the one after them, and it is
back at its stop long before it could use up its fuel. -/
theorem roundScan_eq (s : Scheduler) {fuel n : Nat} (start : Nat) (enough : n < fuel) (short : n < 128) (k : Nat) :
    roundScan s 0 (roundPosition start (k + n)) fuel (roundPosition start k) =
      (List.range' k n).findSome? fun j =>
        (executable s (128 + roundPosition start j)).map (roundPosition start j, ·) := by
  induction n generalizing fuel k with
  | zero =>
    obtain ⟨fuel, rfl⟩ : ∃ f, fuel = f + 1 := ⟨fuel - 1, by omega⟩
    simp [roundScan]
  | succ n ih =>
    obtain ⟨fuel, rfl⟩ : ∃ f, fuel = f + 1 := ⟨fuel - 1, by omega⟩
    have running : roundPosition start k ≠ roundPosition start (k + (n + 1)) := by
      unfold roundPosition
      omega
    have next : (roundPosition start k + 1) % 128 = roundPosition start (k + 1) := by
      unfold roundPosition
      omega
    have stop : roundPosition start (k + (n + 1)) = roundPosition start (k + 1 + n) := by
      rw [show k + (n + 1) = k + 1 + n by omega]
    rw [roundScan, if_neg running, List.range'_succ, List.findSome?_cons, next, stop,
      ih (by omega) (by omega)]
    rw [executable]
    cases getIfCanExecute s (s.schedulingVector 0 (128 + roundPosition start k)) <;> rfl

/-- The second loop tries 127 positions in cyclic order; the 128th is where it stops. -/
theorem roundScan_start (s : Scheduler) :
    roundScan s 0 ((s.roundSchedule + 127) % 128) 128 (s.roundSchedule % 128) =
      (List.range 127).findSome? fun j =>
        (executable s (128 + roundPosition s.roundSchedule j)).map (roundPosition s.roundSchedule j, ·) := by
  have run := roundScan_eq s s.roundSchedule (show 127 < 128 by decide) (by decide) 0
  rw [List.range_eq_range']
  exact run

end MetalToApp

import MetalToApp.RescheduleRuns
import MetalToApp.Library.TurnQueue

namespace MetalToApp
open ByteMemory X86 TurnQueue

/-- What the scheduler is for. A slot holds a task, or 0. The tasks of the first 128 slots go
before all others whenever they are awake; those at the other 128 positions take turns. -/
structure Turns where
  table : Nat → Nat
  awake : Nat → Bool
  queue : Queue

namespace Turns

def ready (A : Turns) (slot : Nat) : Bool := A.awake (A.table slot)

def holds (A : Turns) (task pos : Nat) : Bool := A.table (128 + pos) == task

/-- The slot that has the next turn, if any, and what follows it. -/
def turn (A : Turns) : Option Nat × Turns :=
  match (List.range 128).find? A.ready with
  | some slot => (some slot, A)
  | none => (A.queue.turn.1.map (128 + ·), { A with queue := A.queue.turn.2 })

@[simp] theorem turn_table (A : Turns) : A.turn.2.table = A.table := by
  unfold turn
  split <;> rfl

@[simp] theorem turn_awake (A : Turns) : A.turn.2.awake = A.awake := by
  unfold turn
  split <;> rfl

def step (A : Turns) : TurnEvent → Turns
  | .quiet => A
  | .turn => A.turn.2
  | .sleep task => { A with awake := Function.update A.awake task false, queue := A.queue.leave (A.holds task) }
  | .wake task => { A with awake := Function.update A.awake task true, queue := A.queue.join 128 (A.holds task) }
  | .place slot task =>
    { A with
      table := Function.update A.table slot task
      queue := (A.queue.leave fun pos => 128 + pos == slot).join 128 fun pos => 128 + pos == slot && A.awake task }

/-- The task that a turn goes to. The idle task has those that nobody waits for. -/
def next (idleLoopTask : Nat) (A : Turns) : Nat := (A.turn.1.map A.table).getD idleLoopTask

def run (A : Turns) (events : List TurnEvent) : Turns := events.foldl step A

/-- The tasks that the turns among the events go to, in order. -/
def log (idleLoopTask : Nat) (A : Turns) : List TurnEvent → List Nat
  | [] => []
  | .turn :: events => A.next idleLoopTask :: (A.step .turn).log idleLoopTask events
  | event :: events => (A.step event).log idleLoopTask events

end Turns

def canExecute (m : Memory) (task : Nat) : Bool :=
  taskFlags m task &&& taskFlagMaskCanExecute == taskFlagMaskCanExecute

/-- The turns that the variables of the scheduler stand for. -/
def turnsOf (s : Scheduler) : Turns :=
  let table slot := (s.schedulingVector 0 slot).task
  let awake task := task != 0 && canExecute s.mem task
  ⟨table, awake, gather 128 (fun pos => awake (table (128 + pos))) ((s.roundSchedule + 127) % 128)⟩

/-- A run of the machine: the events, the tasks that its switches dispatched, and its end. -/
inductive MachineRun (T : TaskArea) : Machine → List TurnEvent → List Nat → Machine → Prop
  | nil {M} : MachineRun T M [] [] M
  | turn {M change M' M'' events log} : MachineStep T M .turn change M' → MachineRun T M' events log M'' →
      MachineRun T M (.turn :: events) (M'.sched.currentTaskTable 0 :: log) M''
  | other {M event change M' M'' events log} : event ≠ .turn → MachineStep T M event change M' → MachineRun T M' events log M'' →
      MachineRun T M (event :: events) log M''

theorem MachineRun.reach {T : TaskArea} {M M' : Machine} {events : List TurnEvent} {log : List Nat}
    (run : MachineRun T M events log M') {expected : Nat → Context} (reach : SwitchReach T M expected) :
    ∃ expected', SwitchReach T M' expected' := by
  induction run generalizing expected with
  | nil => exact ⟨expected, reach⟩
  | turn step _ ih => exact ih (reach.step step)
  | other _ step _ ih => exact ih (reach.step step)

/-- The scheduler's variables stand for these turns. -/
structure Refines (T : TaskArea) (s : Scheduler) (A : Turns) : Prop where
  table : A.table = fun slot => (s.schedulingVector 0 slot).task
  awake : ∀ t ∈ T.tasks, A.awake t = canExecute s.mem t
  null : A.awake 0 = false
  queue : A.queue = gather 128 (fun pos => A.ready (128 + pos)) ((s.roundSchedule + 127) % 128)

theorem turnsOf_refines (T : TaskArea) (s : Scheduler) : Refines T s (turnsOf s) := by
  refine ⟨rfl, fun t member => ?_, rfl, rfl⟩
  have positive := (T.fits t member).1
  simp [turnsOf, show t ≠ 0 by omega]

theorem findSome?_guard_eq {α β : Type} (p : α → Bool) (f : α → β) (l : List α) :
    (l.findSome? fun x => if p x then some (f x) else none) = (l.find? p).map f := by
  induction l with
  | nil => rfl
  | cons x l ih => cases holds : p x <;> simp [holds, ih]

namespace Refines
variable {T : TaskArea} {s : Scheduler} {A : Turns}

theorem executable_eq (refines : Refines T s A)
    (entries : ∀ slot, (s.schedulingVector 0 slot).task = 0 ∨ (s.schedulingVector 0 slot).task ∈ T.tasks) (slot : Nat) :
    executable s slot = if A.ready slot then some (A.table slot) else none := by
  simp only [executable, getIfCanExecute, Turns.ready, refines.table]
  obtain null | member := entries slot
  · simp [null, refines.null]
  · have positive := (T.fits _ member).1
    rw [refines.awake _ member, canExecute]
    simp [show (s.schedulingVector 0 slot).task ≠ 0 by omega]

theorem seats_eq (s : Scheduler) : seats 128 ((s.roundSchedule + 127) % 128) =
    (List.range 127).map (roundPosition s.roundSchedule) ++ [(s.roundSchedule + 127) % 128] := by
  have position (k : Nat) : (s.roundSchedule + 127 + 1 + k) % 128 = roundPosition s.roundSchedule k := by
    unfold roundPosition
    omega
  rw [seats_mod, seats_eq_map, List.range_succ (n := 127), List.map_append, List.map_singleton]
  simp only [position]
  rfl

/-- `scheduler(0)` dispatches whose turn it is and remembers whose turn it was. -/
theorem scheduler (refines : Refines T s A)
    (entries : ∀ slot, (s.schedulingVector 0 slot).task = 0 ∨ (s.schedulingVector 0 slot).task ∈ T.tasks) :
    (scheduler T.idleLoopTask s 0).1 = A.next T.idleLoopTask ∧
      A.turn.2.queue = gather 128 (fun pos => A.ready (128 + pos))
        (((MetalToApp.scheduler T.idleLoopTask s 0).2.roundSchedule + 127) % 128) := by
  have negative : negativeScan s 0 128 = ((List.range 128).find? A.ready).map A.table := by
    rw [negativeScan_eq s le_rfl, ← List.range_eq_range', ← findSome?_guard_eq]
    exact congrArg (List.findSome? · _) (funext (refines.executable_eq entries))
  let l := (List.range 127).map (roundPosition s.roundSchedule)
  have round : roundScan s 0 ((s.roundSchedule + 127) % 128) 128 (s.roundSchedule % 128) =
      (l.find? fun pos => A.ready (128 + pos)).map fun pos => (pos, A.table (128 + pos)) := by
    rw [roundScan_start, ← findSome?_guard_eq, List.findSome?_map]
    refine congrArg (List.findSome? · _) (funext fun j => ?_)
    rw [refines.executable_eq entries]
    cases ready : A.ready (128 + roundPosition s.roundSchedule j) <;> simp [ready]
  have queue : A.queue.turn = _ := (congrArg Queue.turn refines.queue).trans (gather_turn (seats_eq s))
  simp only [MetalToApp.scheduler, Turns.next, Turns.turn, negative, round]
  cases urgent : (List.range 128).find? A.ready with
  | some slot => exact ⟨rfl, refines.queue⟩
  | none =>
    simp only [Option.map_none, queue, l]
    cases found : ((List.range 127).map (roundPosition s.roundSchedule)).find? fun pos => A.ready (128 + pos) with
    | none => exact ⟨rfl, rfl⟩
    | some pos =>
      have bound : pos < 128 := by
        obtain ⟨k, -, rfl⟩ := List.mem_map.mp (List.mem_of_find?_eq_some found)
        exact Nat.mod_lt _ (by decide)
      refine ⟨rfl, congrArg (gather 128 _) ?_⟩
      change pos = (pos + 1 + 127) % 128
      omega

/-- Memory outside the flags of the tasks is none of the scheduler's business. -/
theorem memory (refines : Refines T s A) {m : Memory} (same : ∀ t ∈ T.tasks, taskFlags m t = taskFlags s.mem t) :
    Refines T { s with mem := m } A :=
  ⟨refines.table, fun t member => by rw [refines.awake t member, canExecute, canExecute, same t member],
    refines.null, refines.queue⟩

/-- The flags of a task are stored in its own struct. -/
theorem flags (refines : Refines T s A) {m : Memory} {task : Nat} {awake : Bool} (member : task ∈ T.tasks)
    (own : canExecute m task = awake) (others : ∀ t ∈ T.tasks, t ≠ task → taskFlags m t = taskFlags s.mem t)
    {queue : Queue} (atQueue : queue = gather 128 (fun pos => Function.update A.awake task awake (A.table (128 + pos)))
      ((s.roundSchedule + 127) % 128)) :
    Refines T { s with mem := m } { A with awake := Function.update A.awake task awake, queue := queue } := by
  have positive := (T.fits task member).1
  refine ⟨refines.table, fun t other => ?_, ?_, atQueue⟩
  · change Function.update A.awake task awake t = canExecute m t
    by_cases same : t = task
    · rw [same, Function.update_self, own]
    · rw [Function.update_of_ne same, refines.awake t other, canExecute, canExecute, others t other same]
  · exact (Function.update_of_ne positive.ne awake A.awake).trans refines.null

theorem sleep (refines : Refines T s A) {m : Memory} {task : Nat} (member : task ∈ T.tasks)
    (own : canExecute m task = false) (others : ∀ t ∈ T.tasks, t ≠ task → taskFlags m t = taskFlags s.mem t) :
    Refines T { s with mem := m } (A.step (.sleep task)) := by
  refine refines.flags member own others ?_
  rw [refines.queue, gather_leave]
  refine congrArg (gather 128 · _) (funext fun pos => ?_)
  by_cases same : A.table (128 + pos) = task <;> simp [Turns.ready, Turns.holds, same]

theorem wake (refines : Refines T s A) {m : Memory} {task : Nat} (member : task ∈ T.tasks)
    (own : canExecute m task = true) (others : ∀ t ∈ T.tasks, t ≠ task → taskFlags m t = taskFlags s.mem t) :
    Refines T { s with mem := m } (A.step (.wake task)) := by
  refine refines.flags member own others ?_
  rw [refines.queue, gather_join]
  refine congrArg (gather 128 · _) (funext fun pos => ?_)
  by_cases same : A.table (128 + pos) = task <;> simp [Turns.ready, Turns.holds, same]

theorem place (refines : Refines T s A) (priority : Int) (task flags : Nat) :
    Refines T (schedule s priority task flags).2 (A.step (.place (128 + priority).toNat task)) := by
  refine ⟨?_, refines.awake, refines.null, ?_⟩
  · funext slot
    simp only [Turns.step, schedule, Function.update_self, refines.table]
    by_cases same : slot = (128 + priority).toNat
    · simp [same]
    · simp [same]
  · simp only [Turns.step, refines.queue, gather_leave, gather_join]
    refine congrArg (gather 128 · _) (funext fun pos => ?_)
    by_cases same : 128 + pos = (128 + priority).toNat
    · simp [Turns.ready, same]
    · simp [Turns.ready, same, beq_eq_false_iff_ne.mpr same]

end Refines

theorem taskFlags_setTaskFlags {s : Scheduler} {task flags : Nat} (fits : flags < 2 ^ 64) :
    taskFlags (setTaskFlags s task flags).mem task = flags := by
  rw [taskFlags, setTaskFlags]
  exact read64_write64_self fits

theorem taskFlags_lt (m : Memory) (task : Nat) : taskFlags m task < 2 ^ 64 := readLE_lt m 8 _

theorem canExecute_eq_testBit (m : Memory) (task : Nat) : canExecute m task = (taskFlags m task).testBit 0 := by
  rw [canExecute, taskFlagMaskCanExecute, Nat.and_one_is_mod, Nat.testBit_zero]
  rfl

theorem canExecute_clearCanExecute {s : Scheduler} {task : Nat} (nonNull : task ≠ 0) :
    canExecute (clearCanExecute s task).mem task = false := by
  have fits : (taskFlags s.mem task ||| taskFlagMaskCanExecute) ^^^ taskFlagMaskCanExecute < 2 ^ 64 :=
    Nat.xor_lt_two_pow (Nat.or_lt_two_pow (taskFlags_lt s.mem task) (by decide)) (by decide)
  rw [canExecute_eq_testBit, clearCanExecute, if_neg nonNull, taskFlags_setTaskFlags fits, Nat.testBit_xor, Nat.testBit_or,
    show taskFlagMaskCanExecute.testBit 0 = true from rfl, Bool.or_true]
  rfl

theorem canExecute_resume (s : Scheduler) (task : Nat) : canExecute (resume s task).mem task = true := by
  have fits := Nat.or_lt_two_pow (taskFlags_lt s.mem task) (show taskFlagMaskCanExecute < 2 ^ 64 by decide)
  rw [canExecute_eq_testBit, resume, taskFlags_setTaskFlags fits, Nat.testBit_or]
  exact Bool.or_true _

theorem canExecute_makeTask (m : Memory) (k task stack entry arg space : Nat) (userMode : Bool) :
    canExecute (makeTask m k task stack entry arg space userMode) task = true := by
  have flags : taskFlags (makeTask m k task stack entry arg space userMode) task = taskFlagMaskCanExecute := by
    rw [taskFlags, makeTask, read64_write64_disjoint (by simp [Task.taskFlags, Task.addressSpace])]
    exact read64_write64_self (by decide)
  rw [canExecute, flags]
  rfl

/-- The flags of a task lie outside the struct of any other. -/
theorem TaskArea.taskFlags_congr (T : TaskArea) {m m' : Memory} {t task : Nat} (other : t ∈ T.tasks)
    (member : task ∈ T.tasks) (different : t ≠ task)
    (outside : ∀ x, x < task ∨ task + Task.size ≤ x → m' x = m x) : taskFlags m' t = taskFlags m t := by
  refine readLE_congr fun i bound => outside _ ?_
  have apart := T.apart t other task member different
  simp only [Task.taskFlags, Task.size] at *
  omega

theorem iretq_sched (sched : Scheduler) (s : X86.State) :
    (iretq sched s).sched = { sched with mem := (iretq sched s).sched.mem } := rfl

/-- The C function that `asm_reschedule` calls sees the flags of the tasks as they were. -/
theorem asmReschedule_scheduler {T : TaskArea} {M : Machine} (e : CallEffects)
    (current : M.sched.currentTaskTable 0 ∈ T.tasks) :
    ∃ m, (∀ t ∈ T.tasks, taskFlags m t = taskFlags M.sched.mem t) ∧
      (asmReschedule T e M).sched = { (scheduler T.idleLoopTask { M.sched with mem := m } 0).2 with
        mem := (asmReschedule T e M).sched.mem } := by
  let s := loadCurrentTask M.sched
    (run (callAsmGetCpuid e (run (deliverInterrupt T.ist M) rescheduleEntry)) [.mov .rax .rbx])
  have entered : Entered T M s := rescheduleEntry_entered T e M
  obtain ⟨reg, m, saves, rbx, -, -, outside⟩ := rescheduleSave_saved entered current rfl
  let u := run (run s rescheduleSave) [.mov .rbp .rsp, .mov .rbx .rdi]
  have before : u = { s with
      reg := Function.update (Function.update reg .rsp (reg .rbp)) .rdi (reg .rbx), mem := m } := by
    simp only [u]
    rw [saves]
    rfl
  have argument : (u.reg .rdi).toNat = 0 := by simp [before, rbx]
  have uMem : u.mem = m := by rw [before]
  refine ⟨m, fun t member => readLE_congr fun i bound => ?_, ?_⟩
  · have off := T.offStack t member
    have field : t + Task.taskFlags + i < M.sched.currentTaskTable 0 ∨
        M.sched.currentTaskTable 0 + 0xa0 ≤ t + Task.taskFlags + i := by
      by_cases same : t = M.sched.currentTaskTable 0
      · exact Or.inr (by simp only [same, Task.taskFlags]; omega)
      · have apart := T.apart t member _ current same
        simp only [Task.taskFlags, Task.size] at *
        omega
    rw [outside _ field]
    exact entered.outside _ (by simp only [Task.taskFlags, Task.size] at *; omega)
  · have called : (callScheduler T.idleLoopTask T.floor e M.sched u).2 =
        (scheduler T.idleLoopTask { M.sched with mem := m } 0).2 := by simp only [callScheduler, argument, uMem]
    have whole : asmReschedule T e M = iretq (callScheduler T.idleLoopTask T.floor e M.sched u).2
        (run (run (callScheduler T.idleLoopTask T.floor e M.sched u).1 rescheduleRestore) rescheduleLeave) := rfl
    rw [← called, whole]
    exact iretq_sched _ _

theorem SchedulerCall.refines {T : TaskArea} {M M' : Machine} {event : TurnEvent} {A : Turns} (call : SchedulerCall T M event M')
    (current : M.sched.currentTaskTable 0 ∈ T.tasks) (refines : Refines T M.sched A) :
    event ≠ .turn ∧ Refines T M'.sched (A.step event) := by
  cases call with
  | schedule priority task flags _ _ _ => exact ⟨(fun turn => by cases turn), refines.place priority task flags⟩
  | suspend task known =>
    have named : clearCanExecute M.sched task =
        clearCanExecute M.sched (if task = 0 then M.sched.currentTaskTable 0 else task) := by
      by_cases null : task = 0
      · have positive := (T.fits _ current).1
        simp [clearCanExecute, null, positive.ne']
      · rw [if_neg null]
    have member := suspended_mem current known
    generalize (if task = 0 then M.sched.currentTaskTable 0 else task) = asleep at named member ⊢
    have positive := (T.fits _ member).1
    rw [named]
    refine ⟨(fun turn => by cases turn), refines.sleep member (canExecute_clearCanExecute positive.ne') fun t other different => ?_⟩
    refine T.taskFlags_congr other member different fun x away => ?_
    simp only [if_neg positive.ne']
    exact write64_outside (by simp only [Task.taskFlags, Task.size] at *; omega)
  | resume task member =>
    refine ⟨(fun turn => by cases turn), refines.wake member (canExecute_resume _ _) fun t other different => ?_⟩
    exact T.taskFlags_congr other member different fun x away =>
      write64_outside (by simp only [Task.taskFlags, Task.size] at *; omega)

theorem MachineStep.refines {T : TaskArea} {M M' : Machine} {event : TurnEvent} {change : (Nat → Context) → Nat → Context}
    {expected : Nat → Context} {A : Turns} (reach : SwitchReach T M expected) (refines : Refines T M.sched A)
    (step : MachineStep T M event change M') :
    Refines T M'.sched (A.step event) ∧ (event = .turn → M'.sched.currentTaskTable 0 = A.next T.idleLoopTask) := by
  have inv := reach.inv
  cases step with
  | run M' m sched same =>
    refine ⟨?_, fun turn => by cases turn⟩
    rw [sched]
    exact refines.memory fun t member => (same t member).readLE (by decide)
  | call call =>
    obtain ⟨notTurn, after⟩ := call.refines inv.current refines
    exact ⟨after, fun turn => absurd turn notTurn⟩
  | makeTask k task stack entry arg space userMode member =>
    refine ⟨refines.wake member (canExecute_makeTask ..) fun t other different => ?_, fun turn => by cases turn⟩
    exact T.taskFlags_congr other member different fun x away => makeTask_outside away
  | switch e =>
    obtain ⟨m, flags, after⟩ := asmReschedule_scheduler e inv.current
    obtain ⟨next, queue⟩ := (refines.memory flags).scheduler inv.entries
    have switched := inv.switched e
    have kept : ∀ t ∈ T.tasks, taskFlags (asmReschedule T e M).sched.mem t = taskFlags M.sched.mem t :=
      fun t member => readLE_congr fun i bound => switched.outside_task inv.current member (by omega)
        (by simp only [Task.taskFlags, Task.size]; omega) fun _ => by omega
    refine ⟨⟨?_, fun t member => ?_, ?_, ?_⟩, fun _ => ?_⟩
    · rw [switched.vector]
      exact A.turn_table.trans refines.table
    · rw [canExecute, kept t member]
      exact (congrFun A.turn_awake t).trans (refines.awake t member)
    · exact (congrFun A.turn_awake 0).trans refines.null
    · rw [after]
      simp only [Turns.step, Turns.ready, Turns.turn_table, Turns.turn_awake]
      exact queue
    · rw [after, ← next]
      exact scheduler_current ..

/-- The switches of a run dispatch exactly the tasks that the turns go to. -/
theorem MachineRun.refines {T : TaskArea} {M M' : Machine} {events : List TurnEvent} {log : List Nat}
    (run : MachineRun T M events log M') {expected : Nat → Context} (reach : SwitchReach T M expected) {A : Turns}
    (refines : Refines T M.sched A) : Refines T M'.sched (A.run events) ∧ log = A.log T.idleLoopTask events := by
  induction run generalizing expected A with
  | nil => exact ⟨refines, rfl⟩
  | turn step _ ih =>
    obtain ⟨refines', next⟩ := step.refines reach refines
    obtain ⟨final, rest⟩ := ih (reach.step step) refines'
    exact ⟨final, by rw [next rfl, rest]; rfl⟩
  | @other M event change M' M'' events log notTurn step _ ih =>
    obtain ⟨refines', -⟩ := step.refines reach refines
    obtain ⟨final, rest⟩ := ih (reach.step step) refines'
    refine ⟨final, rest.trans ?_⟩
    cases event <;> first | rfl | exact absurd rfl notTurn

theorem Refines.queue_eq {T : TaskArea} {s : Scheduler} {A : Turns} (refines : Refines T s A)
    (entries : ∀ slot, (s.schedulingVector 0 slot).task = 0 ∨ (s.schedulingVector 0 slot).task ∈ T.tasks) :
    (turnsOf s).queue = A.queue := by
  rw [refines.queue]
  refine congrArg (gather 128 · _) (funext fun pos => ?_)
  simp only [Turns.ready, refines.table]
  obtain null | member := entries (128 + pos)
  · simp [null, refines.null]
  · have positive := (T.fits _ member).1
    simp [refines.awake _ member, positive.ne']

/-- In every run the switches dispatch the tasks in the order of the turns: the first awake
one with a negative priority, or else whoever waits first, who then goes to the end. -/
theorem dispatch_follows_turns {T : TaskArea} {M M' : Machine} {events : List TurnEvent} {log : List Nat}
    {expected : Nat → Context} (reach : SwitchReach T M expected) (run : MachineRun T M events log M') :
    log = (turnsOf M.sched).log T.idleLoopTask events ∧
      (turnsOf M'.sched).queue = ((turnsOf M.sched).run events).queue := by
  obtain ⟨refines, same⟩ := run.refines reach (turnsOf_refines T M.sched)
  obtain ⟨_, reach'⟩ := run.reach reach
  exact ⟨same, refines.queue_eq reach'.inv.entries⟩

/-- A switch right after the start of `readyMachine`, when its user task has priority 5. -/
theorem dispatch_follows_turns_readyMachine :
    let M' := asmReschedule twoTaskArea ⟨0, fun _ => 3, fun _ => 9⟩ readyMachine
    [M'.sched.currentTaskTable 0] = (turnsOf readyMachine.sched).log 0xFFFFFFFF81210000 [.turn] ∧
      (turnsOf M'.sched).queue = ((turnsOf readyMachine.sched).run [.turn]).queue :=
  dispatch_follows_turns
    (.schedule 5 0xFFFF800001404000 0
      (.makeTask 0x1200000 0xFFFF800001404000 0x7FFFFFFFEFF0 0x400000 0x7FFFFFFFEFF0 0x1400000 true
        (.start (T := twoTaskArea) (M := idleMachine) rfl fun _ => rfl)
        (Or.inr rfl))
      (by decide) (by decide) (Or.inr (Or.inr rfl)))
    (.turn (.switch _) .nil)

end MetalToApp

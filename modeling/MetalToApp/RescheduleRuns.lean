import MetalToApp.Reschedule
import MetalToApp.SchedulerRuns

namespace MetalToApp
open ByteMemory X86

/-- What a step of the machine means to the scheduler. -/
inductive TurnEvent
  | quiet
  | turn
  | sleep (task : Nat)
  | wake (task : Nat)
  | place (slot task : Nat)

/-- The calls that change the scheduler's variables and the flags of tasks. `suspend` clears a
flag; the switch that it asks for, like that of any `yield`, is a step of its own. -/
inductive SchedulerCall (T : TaskArea) (M : Machine) : TurnEvent → Machine → Prop
  | schedule (priority : Int) (task flags : Nat) : -128 ≤ priority → priority ≤ 127 → task = 0 ∨ task ∈ T.tasks →
      SchedulerCall T M (.place (128 + priority).toNat task)
        { M with sched := (schedule M.sched priority task flags).2 }
  | suspend (task : Nat) : task = 0 ∨ task ∈ T.tasks →
      SchedulerCall T M (.sleep (if task = 0 then M.sched.currentTaskTable 0 else task))
        { M with sched := clearCanExecute M.sched task }
  | resume (task : Nat) : task ∈ T.tasks → SchedulerCall T M (.wake task) { M with sched := resume M.sched task }

/-- A step of the machine, with what it means to the scheduler and how it changes the contexts
that the tasks must come back to. A running task may change its registers at will, and memory
outside the task structs. -/
inductive MachineStep (T : TaskArea) (M : Machine) : TurnEvent → ((Nat → Context) → Nat → Context) → Machine → Prop
  | run (M' : Machine) (m : Memory) : M'.sched = { M.sched with mem := m } →
      (∀ t ∈ T.tasks, Agree M.sched.mem m t Task.size) → MachineStep T M .quiet id M'
  | call {event M'} : SchedulerCall T M event M' → MachineStep T M event id M'
  | makeTask (kernelAddressSpace task stack entry arg addressSpace : Nat) (userMode : Bool) : task ∈ T.tasks →
      MachineStep T M (.wake task)
        (fun expected => Function.update expected task (Context.start M.sched.mem task stack entry arg userMode))
        { M with
          sched := { M.sched with
            mem := makeTask M.sched.mem kernelAddressSpace task stack entry arg addressSpace userMode } }
  | switch (e : CallEffects) :
      MachineStep T M .turn (fun expected => Function.update expected (M.sched.currentTaskTable 0) M.context)
        (asmReschedule T e M)

/-- The machine states that switches can reach after `init_scheduler`, with the context that
each task must come back to: the one it was last switched out with, or the one that
`make_task` set up for it. -/
inductive SwitchReach (T : TaskArea) : Machine → (Nat → Context) → Prop
  | start {M s} : M.sched = initScheduler T.idleLoopTask s → (∀ slot, (s.schedulingVector 0 slot).task = 0) →
      SwitchReach T M (Context.ofTask M.sched.mem)
  | step {M expected event change M'} : SwitchReach T M expected → MachineStep T M event change M' →
      SwitchReach T M' (change expected)

/-- A switch is transparent when the task that comes in finds the context it expects, in its
own address space, and nothing but the saved context of the task that went out is written. -/
structure SwitchTransparent (T : TaskArea) (expected : Nat → Context) (M M' : Machine) : Prop where
  context : M'.context =
    Function.update expected (M.sched.currentTaskTable 0) M.context (M'.sched.currentTaskTable 0)
  cr3 : M'.cr3 = addressSpaceOf M.sched.mem (M'.sched.currentTaskTable 0)
  flags : ∀ t ∈ T.tasks, taskFlags M'.sched.mem t = taskFlags M.sched.mem t
  addressSpace : ∀ t ∈ T.tasks, addressSpaceOf M'.sched.mem t = addressSpaceOf M.sched.mem t
  others : ∀ t ∈ T.tasks, t ≠ M.sched.currentTaskTable 0 → Agree M.sched.mem M'.sched.mem t Task.size

/-- Every task but the current one holds its expected context in its struct. -/
structure SwitchInv (T : TaskArea) (M : Machine) (expected : Nat → Context) : Prop where
  current : M.sched.currentTaskTable 0 ∈ T.tasks
  entries : ∀ slot, (M.sched.schedulingVector 0 slot).task = 0 ∨ (M.sched.schedulingVector 0 slot).task ∈ T.tasks
  saved : ∀ t ∈ T.tasks, t ≠ M.sched.currentTaskTable 0 → Context.ofTask M.sched.mem t = expected t

theorem scheduler_mem_tasks {idleLoopTask : Nat} {s : Scheduler} {tasks : Set Nat} (idle : idleLoopTask ∈ tasks)
    (entries : ∀ slot, (s.schedulingVector 0 slot).task = 0 ∨ (s.schedulingVector 0 slot).task ∈ tasks) :
    (scheduler idleLoopTask s 0).1 ∈ tasks := by
  rw [scheduler_result]
  cases found : (triedSlots s).findSome? (executable s) with
  | none => exact idle
  | some task =>
    obtain ⟨slot, -, runs⟩ := List.exists_of_findSome?_eq_some found
    simp only [executable, getIfCanExecute, Option.ite_none_right_eq_some, Option.some.injEq] at runs
    obtain ⟨⟨nonNull, -⟩, rfl⟩ := runs
    exact (entries slot).resolve_left nonNull

/-- A switch writes to no task struct but that of the task that goes out, and there not past
the saved context. -/
theorem Switched.outside_task {T : TaskArea} {M M' : Machine} (switched : Switched T M M')
    (current : M.sched.currentTaskTable 0 ∈ T.tasks) {t x : Nat} (member : t ∈ T.tasks) (lower : t ≤ x)
    (upper : x < t + Task.size) (past : t = M.sched.currentTaskTable 0 → t + Task.taskFlags ≤ x) :
    M'.sched.mem x = M.sched.mem x := by
  have off := T.offStack t member
  refine switched.outside x ?_ (by omega)
  by_cases same : t = M.sched.currentTaskTable 0
  · exact Or.inr (same ▸ past same)
  · have apart := T.apart t member _ current same
    simp only [Task.taskFlags, Task.size] at *
    omega

namespace SwitchInv
variable {T : TaskArea} {M : Machine} {expected : Nat → Context}

theorem choice (inv : SwitchInv T M expected) (m : Memory) :
    (scheduler T.idleLoopTask { M.sched with mem := m } 0).1 ∈ T.tasks :=
  scheduler_mem_tasks T.idle_mem inv.entries

theorem switched (inv : SwitchInv T M expected) (e : CallEffects) : Switched T M (asmReschedule T e M) :=
  asmReschedule_switched T e M inv.current inv.choice

/-- A change of memory that spares the saved contexts keeps the invariant. -/
theorem memory (inv : SwitchInv T M expected) {M' : Machine} {m : Memory} (sched : M'.sched = { M.sched with mem := m })
    (same : ∀ t ∈ T.tasks, ∀ x, t ≤ x → x < t + Task.taskFlags → m x = M.sched.mem x) : SwitchInv T M' expected := by
  refine ⟨by rw [sched]; exact inv.current, by rw [sched]; exact inv.entries, fun t member other => ?_⟩
  rw [sched] at other ⊢
  rw [← inv.saved t member other]
  exact Context.ofTask_congr (same t member)

/-- Storing the flags of a task spares the saved contexts of all tasks. -/
theorem setTaskFlags (inv : SwitchInv T M expected) {task : Nat} (member : task ∈ T.tasks) (flags : Nat) :
    SwitchInv T { M with sched := setTaskFlags M.sched task flags } expected := by
  refine inv.memory rfl fun t other x lower upper => write64_outside ?_
  simp only [Task.taskFlags] at upper ⊢
  by_cases same : t = task
  · omega
  · have apart := T.apart t other task member same
    simp only [Task.size] at apart
    omega

end SwitchInv

theorem Context.ofTask_makeTask {m : Memory} {k task stack entry arg space : Nat} {userMode : Bool} :
    Context.ofTask (makeTask m k task stack entry arg space userMode) task =
      Context.start m task stack entry arg userMode := by
  have field (a b : Nat) (m : Memory) (v : Nat) (apart : b + 8 ≤ a ∨ a + 8 ≤ b) :
      readWord (write64 m (task + a) v) (task + b) = readWord m (task + b) :=
    readWord_write64_disjoint (by omega)
  simp only [Context.ofTask, Context.start, makeTask, Context.mk.injEq, Task.rip, Task.cs, Task.rflags, Task.ss, Task.rsp,
    Task.rdi, Task.taskFlags, Task.addressSpace]
  refine ⟨funext fun r => ?_, ?_, ?_, ?_, ?_⟩
  · cases r <;> simp (disch := decide) only [Task.reg, Task.rsp, Task.rbp, Task.rax, Task.rbx, Task.rcx, Task.rdx,
      Task.rsi, Task.rdi, Task.r8, Task.r9, Task.r10, Task.r11, Task.r12, Task.r13, Task.r14, Task.r15, field,
      readWord_write64_self, Function.update_self, Function.update_of_ne]
  · simp (disch := decide) only [field, readWord_write64_self]
  · simp (disch := decide) only [field, readWord_write64_self]
    cases userMode <;> rfl
  · simp (disch := decide) only [field, readWord_write64_self]
  · simp (disch := decide) only [field, readWord_write64_self]
    cases userMode <;> rfl

section steps
variable {T : TaskArea} {M M' : Machine} {event : TurnEvent} {change : (Nat → Context) → Nat → Context} {expected : Nat → Context}

/-- The task that a call of `suspend` puts to sleep. -/
theorem suspended_mem {task : Nat} (current : M.sched.currentTaskTable 0 ∈ T.tasks) (known : task = 0 ∨ task ∈ T.tasks) :
    (if task = 0 then M.sched.currentTaskTable 0 else task) ∈ T.tasks := by
  by_cases null : task = 0
  · rw [if_pos null]
    exact current
  · rw [if_neg null]
    exact known.resolve_left null

theorem SchedulerCall.inv (call : SchedulerCall T M event M') (inv : SwitchInv T M expected) : SwitchInv T M' expected := by
  cases call with
  | schedule priority task flags _ _ known =>
    refine ⟨inv.current, fun slot => ?_, inv.saved⟩
    simp only [MetalToApp.schedule, Function.update_self]
    by_cases same : slot = (128 + priority).toNat
    · rw [same, Function.update_self]
      exact known
    · rw [Function.update_of_ne same]
      exact inv.entries slot
  | suspend task known => exact inv.setTaskFlags (suspended_mem inv.current known) _
  | resume task member => exact inv.setTaskFlags member _

theorem MachineStep.inv (step : MachineStep T M event change M') (inv : SwitchInv T M expected) :
    SwitchInv T M' (change expected) := by
  cases step with
  | run M' m sched same =>
    refine inv.memory sched fun t member x lower upper => ?_
    have agree := same t member (x - t) (by simp only [Task.taskFlags, Task.size] at *; omega)
    rwa [Nat.add_sub_cancel' lower] at agree
  | call call => exact call.inv inv
  | makeTask k task stack entry arg space userMode member =>
    refine ⟨inv.current, inv.entries, fun t other notCurrent => ?_⟩
    beta_reduce
    by_cases same : t = task
    · rw [same, Function.update_self]
      exact Context.ofTask_makeTask
    · rw [Function.update_of_ne same, ← inv.saved t other notCurrent]
      refine Context.ofTask_congr fun x lower upper => makeTask_outside ?_
      have apart := T.apart t other task member same
      simp only [Task.taskFlags, Task.size] at *
      omega
  | switch e =>
    have switched := inv.switched e
    refine ⟨switched.next, fun slot => by rw [switched.vector]; exact inv.entries slot, fun t member _ => ?_⟩
    beta_reduce
    by_cases same : t = M.sched.currentTaskTable 0
    · rw [same, Function.update_self]
      exact switched.saved
    · rw [Function.update_of_ne same, ← inv.saved t member same]
      exact Context.ofTask_congr fun x lower upper => switched.outside_task inv.current member lower
        (by simp only [Task.taskFlags, Task.size] at *; omega) fun eq => absurd eq same

theorem SwitchReach.inv (reach : SwitchReach T M expected) : SwitchInv T M expected := by
  induction reach with
  | start init empty =>
    refine ⟨?_, fun slot => Or.inl ?_, fun _ _ _ => rfl⟩
    · rw [init]
      simpa [initScheduler] using T.idle_mem
    · rw [init]
      exact empty slot
  | step _ step ih => exact step.inv ih

namespace SwitchReach

theorem schedule (priority : Int) (task flags : Nat) (reach : SwitchReach T M expected) (lower : -128 ≤ priority)
    (upper : priority ≤ 127) (known : task = 0 ∨ task ∈ T.tasks) :
    SwitchReach T { M with sched := (MetalToApp.schedule M.sched priority task flags).2 } expected :=
  reach.step (.call (.schedule priority task flags lower upper known))

theorem makeTask (k task stack entry arg space : Nat) (userMode : Bool) (reach : SwitchReach T M expected)
    (member : task ∈ T.tasks) :
    SwitchReach T
      { M with sched := { M.sched with mem := MetalToApp.makeTask M.sched.mem k task stack entry arg space userMode } }
      (Function.update expected task (Context.start M.sched.mem task stack entry arg userMode)) :=
  reach.step (.makeTask k task stack entry arg space userMode member)

end SwitchReach

end steps

/-- A context switch is transparent in every run. The code between two switches, and the
registers that the calls may clobber, are arbitrary, but it writes to no task struct. -/
theorem contextSwitch_transparent {T : TaskArea} {M : Machine} {expected : Nat → Context}
    (reach : SwitchReach T M expected) (e : CallEffects) : SwitchTransparent T expected M (asmReschedule T e M) := by
  have inv := reach.inv
  have switched := inv.switched e
  have field {t : Nat} (member : t ∈ T.tasks) {x : Nat} (lower : t + Task.taskFlags ≤ x) (upper : x < t + Task.size) :
      (asmReschedule T e M).sched.mem x = M.sched.mem x :=
    switched.outside_task inv.current member (by omega) upper fun _ => lower
  have addressSpace {t : Nat} (member : t ∈ T.tasks) :
      addressSpaceOf (asmReschedule T e M).sched.mem t = addressSpaceOf M.sched.mem t :=
    readWord_congr fun x lower upper => field member (by simp only [Task.taskFlags, Task.addressSpace] at *; omega)
      (by simp only [Task.size, Task.addressSpace] at *; omega)
  refine ⟨?_, ?_, fun t member => ?_, fun t member => addressSpace member, fun t member other i bound => ?_⟩
  · rw [switched.restored]
    by_cases same : (asmReschedule T e M).sched.currentTaskTable 0 = M.sched.currentTaskTable 0
    · rw [same, Function.update_self, switched.saved]
    · rw [Function.update_of_ne same, ← inv.saved _ switched.next same]
      exact Context.ofTask_congr fun x lower upper => switched.outside_task inv.current switched.next lower
        (by simp only [Task.taskFlags, Task.size] at *; omega) fun eq => absurd eq same
  · rw [switched.cr3, addressSpace switched.next]
  · exact readLE_congr fun i bound => field member (by omega) (by simp only [Task.taskFlags, Task.size]; omega)
  · exact switched.outside_task inv.current member (by omega) (by omega) fun eq => absurd eq other

/-- The idle task in the kernel image, and one task in a frame. -/
def twoTaskArea : TaskArea where
  tasks := {0xFFFFFFFF81210000, 0xFFFF800001404000}
  idleLoopTask := 0xFFFFFFFF81210000
  floor := 0xFFFFFFFF81100000
  ist := 0xFFFFFFFF81200000
  idle_mem := Or.inl rfl
  apart := by
    rintro t (rfl | rfl) u (rfl | rfl) differ <;> simp [Task.size] at differ ⊢
  fits := by
    rintro t (rfl | rfl) <;> decide
  offStack := by
    rintro t (rfl | rfl) <;> decide
  deep := by decide
  istFits := by decide

/-- The idle task running, right after `init_scheduler`, over zeroed memory. -/
def idleMachine : Machine where
  reg _ := 7
  rip := 0xFFFFFFFF80201234
  cs := 8
  rflags := 0x246
  ss := 16
  ds := 16
  cr3 := 0x1200000
  sched := initScheduler 0xFFFFFFFF81210000 ⟨fun _ => 0, fun _ => 0, fun _ _ => ⟨0, 0⟩, 0⟩

/-- The same machine once a user task with entry point 0x400000 has been made and scheduled. -/
def readyMachine : Machine :=
  let m := makeTask idleMachine.sched.mem 0x1200000 0xFFFF800001404000 0x7FFFFFFFEFF0 0x400000 0x7FFFFFFFEFF0 0x1400000 true
  { idleMachine with sched := (schedule { idleMachine.sched with mem := m } 5 0xFFFF800001404000 0).2 }

set_option maxRecDepth 2000 in
theorem contextSwitch_transparent_firstRun :
    SwitchTransparent twoTaskArea
      (Function.update (Context.ofTask idleMachine.sched.mem) 0xFFFF800001404000
        (Context.start idleMachine.sched.mem 0xFFFF800001404000 0x7FFFFFFFEFF0 0x400000 0x7FFFFFFFEFF0 true))
      readyMachine (asmReschedule twoTaskArea ⟨0, fun _ => 3, fun _ => 9⟩ readyMachine) ∧
    (asmReschedule twoTaskArea ⟨0, fun _ => 3, fun _ => 9⟩ readyMachine).rip = 0x400000 :=
  ⟨contextSwitch_transparent
      (.schedule 5 0xFFFF800001404000 0
        (.makeTask 0x1200000 0xFFFF800001404000 0x7FFFFFFFEFF0 0x400000 0x7FFFFFFFEFF0 0x1400000 true
          (.start (T := twoTaskArea) (M := idleMachine) rfl fun _ => rfl) (Or.inr rfl))
        (by decide) (by decide) (Or.inr (Or.inr rfl))) _,
    by decide⟩

end MetalToApp

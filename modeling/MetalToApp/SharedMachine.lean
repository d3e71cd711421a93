import MetalToApp.DispatchOrder
import MetalToApp.Isolation
import MetalToApp.Library.TimeSharing

namespace MetalToApp
open ByteMemory X86 Paging TimeSharing

/-- Physical memory, through the linear window. -/
def Machine.frames (M : Machine) : Memory := fun x => M.sched.mem (linearStart + x)

/-- The byte that user code finds at an address. -/
def userView (m : Memory) (cr3 v : Nat) : Option UInt8 :=
  (walk m cr3 v).bind fun q => if q.user then some (m q.address) else none

/-- What a task has for itself. -/
structure Process where
  context : Context
  view : Nat → Option UInt8

def processOf (M : Machine) (t : Nat) : Process where
  context := if t = M.sched.currentTaskTable 0 then M.context else Context.ofTask M.sched.mem t
  view := userView M.frames (addressSpaceOf M.sched.mem t).toNat

/-- A byte of the linear window that user code can reach. -/
def UserByte (m : Memory) (cr3 x : Nat) : Prop :=
  ∃ v q, walk m cr3 v = some q ∧ q.user = true ∧ x = linearStart + q.address

/-- A byte that belongs to the task `t`: of its struct, of the tables that serve its space, or of
a page that its user code can reach. -/
inductive Owned (m : Memory) (space t x : Nat) : Prop
  | struct : t ≤ x → x < t + Task.size → Owned m space t x
  | table {level f o} : TableAt m space level f → o < 4096 → x = linearStart + f + o → Owned m space t x
  | page {f o} : UserPage m space f → o < 4096 → x = linearStart + f + o → Owned m space t x

/-- A step of the system after the boot. The current task computes in its own space, in user mode
or in a system call, which uses the user's stack; interrupts and system calls may change what
belongs to no task, and call the scheduler's functions. -/
inductive SystemStep (T : TaskArea) (M : Machine) : TurnEvent → Machine → Prop
  | work (M' : Machine) (m : Memory) : M'.sched = { M.sched with mem := m } → M'.cr3 = M.cr3 →
      (∀ x, m x ≠ M.sched.mem x → UserByte M.frames M.cr3.toNat x ∨
        ∀ t ∈ T.tasks, ¬Owned M.frames (addressSpaceOf M.sched.mem t).toNat t x) → SystemStep T M .quiet M'
  | call {event M'} : SchedulerCall T M event M' → SystemStep T M event M'
  | switch (e : CallEffects) : SystemStep T M .turn (asmReschedule T e M)

/-- The runs of the system from `M₀`, with the tasks that the switches dispatched. -/
inductive SystemReach (T : TaskArea) (M₀ : Machine) : List TurnEvent → List Nat → Machine → Prop
  | start : SystemReach T M₀ [] [] M₀
  | turn {events log M M'} : SystemReach T M₀ events log M → SystemStep T M .turn M' →
      SystemReach T M₀ (events ++ [.turn]) (log ++ [M'.sched.currentTaskTable 0]) M'
  | other {events log M event M'} : SystemReach T M₀ events log M → event ≠ .turn → SystemStep T M event M' →
      SystemReach T M₀ (events ++ [event]) log M'

/-- A processor shared by the tasks, as a machine shows it. -/
structure Presents (T : TaskArea) (M : Machine) (w : World Nat Process) : Prop where
  running : w.running = M.sched.currentTaskTable 0
  process : ∀ t ∈ T.tasks, w.process t = processOf M t

/-- A step of its own changes a process as it likes, but for the addresses that it can reach. -/
def Process.Local (p p' : Process) : Prop := ∀ v, (p'.view v).isSome = (p.view v).isSome

/-- Memory divided among the tasks: `space` gives the root table of each. Page tables, user
pages and task structs lie in different frames, and no two spaces share a user page. -/
structure Divided (T : TaskArea) (space : Nat → Nat) (m : Memory) : Prop where
  idle : kernelBase ≤ T.idleLoopTask ∧ kernelBase ≤ T.floor
  structs : ∀ t ∈ T.tasks, t ≠ T.idleLoopTask → ∃ d, t = linearStart + d ∧ d % 4096 = 0 ∧ d + 4096 ≤ 2 ^ 39
  tables : ∀ t ∈ T.tasks, ∀ level f, TableAt m (space t) level f → f + 4096 ≤ 2 ^ 39 ∧ linearStart + f ∉ T.tasks
  pages : ∀ t ∈ T.tasks, ∀ f, UserPage m (space t) f → f + 4096 ≤ 2 ^ 39 ∧ linearStart + f ∉ T.tasks
  noTable : ∀ t ∈ T.tasks, ∀ u ∈ T.tasks, ∀ level f, TableAt m (space t) level f → ¬UserPage m (space u) f
  apart : ∀ t ∈ T.tasks, ∀ u ∈ T.tasks, t ≠ u → ∀ f, UserPage m (space t) f → ¬UserPage m (space u) f

/-- The tables stand as they did in `m₀`, every task keeps its space, and the current one walks its own. -/
structure Sharing (T : TaskArea) (space : Nat → Nat) (m₀ : Memory) (M : Machine) : Prop where
  tables : ∀ t ∈ T.tasks, ∀ level f, TableAt m₀ (space t) level f → Agree m₀ M.frames f 4096
  space : ∀ t ∈ T.tasks, (addressSpaceOf M.sched.mem t).toNat = space t
  cr3 : M.cr3 = addressSpaceOf M.sched.mem (M.sched.currentTaskTable 0)

section sharing
variable {T : TaskArea} {space : Nat → Nat} {m₀ : Memory} {M M' : Machine} {expected : Nat → Context} {pages : Nat → Prop}
  {t f o v : Nat}

theorem linear_below_kernel {x : Nat} (small : x < 2 ^ 39) : linearStart + x < kernelBase := by
  simp only [linearStart, kernelBase]
  omega

/-- A frame below the kernel in which no struct lies is apart from all of them. -/
theorem Divided.offStructs (divided : Divided T space m₀) (aligned : f % 4096 = 0) (bound : f + 4096 ≤ 2 ^ 39)
    (noStruct : linearStart + f ∉ T.tasks) (inside : o < 4096) (member : t ∈ T.tasks) :
    linearStart + f + o < t ∨ t + Task.size ≤ linearStart + f + o := by
  have low := linear_below_kernel (x := f + o) (by omega)
  by_cases idle : t = T.idleLoopTask
  · have high := divided.idle.1
    omega
  · obtain ⟨d, rfl, page, -⟩ := divided.structs t member idle
    have different : d ≠ f := fun same => noStruct (same ▸ member)
    simp only [Task.size]
    omega

/-- The processor translates as it did. -/
theorem Sharing.walk_eq (sharing : Sharing T space m₀ M) (member : t ∈ T.tasks) (v : Nat) :
    walk M.frames (space t) v = walk m₀ (space t) v :=
  walk_congr (sharing.tables t member) v

theorem Sharing.view_eq (sharing : Sharing T space m₀ M) (member : t ∈ T.tasks) (v : Nat) : (processOf M t).view v =
    (walk m₀ (space t) v).bind fun q => if q.user then some (M.frames q.address) else none := by
  rw [← sharing.walk_eq member, ← sharing.space t member]
  rfl

/-- A step that leaves the tables alone, and all user pages but these. -/
structure Writes (T : TaskArea) (space : Nat → Nat) (m₀ : Memory) (pages : Nat → Prop) (M M' : Machine) : Prop where
  tables : ∀ t ∈ T.tasks, ∀ level f, TableAt m₀ (space t) level f → Agree M.frames M'.frames f 4096
  others : ∀ t ∈ T.tasks, ∀ f, UserPage m₀ (space t) f → ¬pages f → Agree M.frames M'.frames f 4096

/-- What is written to task structs and to the kernel's memory is written to no table or page. -/
theorem Divided.writes (divided : Divided T space m₀)
    (kept : ∀ x < kernelBase, (∀ t ∈ T.tasks, x < t ∨ t + Task.size ≤ x) → M'.sched.mem x = M.sched.mem x) :
    Writes T space m₀ (fun _ => False) M M' := by
  have frame {f : Nat} (aligned : f % 4096 = 0) (bound : f + 4096 ≤ 2 ^ 39) (noStruct : linearStart + f ∉ T.tasks) :
      Agree M.frames M'.frames f 4096 := by
    intro o inside
    have low := linear_below_kernel (x := f + o) (by omega)
    refine kept _ low fun t member => ?_
    rw [← Nat.add_assoc]
    exact divided.offStructs aligned bound noStruct inside member
  refine ⟨fun t member level f table => ?_, fun t member f page _ => ?_⟩
  · obtain ⟨bound, noStruct⟩ := divided.tables t member level f table
    exact frame table.aligned bound noStruct
  · obtain ⟨bound, noStruct⟩ := divided.pages t member f page
    exact frame page.aligned bound noStruct

theorem Writes.after (writes : Writes T space m₀ pages M M') (sharing : Sharing T space m₀ M) (member : t ∈ T.tasks) (level f : Nat)
    (table : TableAt m₀ (space t) level f) : Agree m₀ M'.frames f 4096 :=
  fun o inside => (writes.tables t member level f table o inside).trans (sharing.tables t member level f table o inside)

/-- A task of whose pages none is written sees its memory unchanged. -/
theorem Writes.view (writes : Writes T space m₀ pages M M') (sharing : Sharing T space m₀ M) (sharing' : Sharing T space m₀ M')
    (member : t ∈ T.tasks) (others : ∀ f, UserPage m₀ (space t) f → ¬pages f) : (processOf M' t).view = (processOf M t).view := by
  funext v
  rw [sharing.view_eq member, sharing'.view_eq member]
  cases found : walk m₀ (space t) v with
  | none => rfl
  | some q =>
    by_cases user : q.user = true
    · have page := UserPage.of_walk found user
      have same := writes.others t member _ page (others _ page) (q.address % 4096) (Nat.mod_lt _ (by decide))
      rw [Nat.div_add_mod'] at same
      simp only [Option.bind_some, same]
    · simp only [Option.bind_some, user, Bool.false_eq_true, if_false]

/-- What a step may do to its own view: the addresses that can be reached stay the same. -/
theorem Sharing.local (sharing : Sharing T space m₀ M) (sharing' : Sharing T space m₀ M') (member : t ∈ T.tasks) :
    Process.Local (processOf M t) (processOf M' t) := by
  intro v
  rw [sharing.view_eq member, sharing'.view_eq member]
  cases walk m₀ (space t) v with
  | none => rfl
  | some q =>
    simp only [Option.bind_some]
    split <;> rfl

/-- No process is different after a switch. -/
theorem SwitchReach.context (reach : SwitchReach T M expected) (member : t ∈ T.tasks) :
    (processOf M t).context = Function.update expected (M.sched.currentTaskTable 0) M.context t := by
  by_cases current : t = M.sched.currentTaskTable 0
  · rw [processOf, if_pos current, current, Function.update_self]
  · rw [processOf, if_neg current, Function.update_of_ne current]
    exact reach.inv.saved t member current

/-- A change of the flags of a task. -/
theorem Sharing.setTaskFlags (divided : Divided T space m₀) (sharing : Sharing T space m₀ M)
    (current : M.sched.currentTaskTable 0 ∈ T.tasks) {task : Nat} (member : task ∈ T.tasks) (flags : Nat) :
    Sharing T space m₀ { M with sched := setTaskFlags M.sched task flags } ∧
      ∀ t ∈ T.tasks, processOf { M with sched := setTaskFlags M.sched task flags } t = processOf M t := by
  have outside (x : Nat) (away : x < task + Task.taskFlags ∨ task + Task.taskFlags + 8 ≤ x) :
      (MetalToApp.setTaskFlags M.sched task flags).mem x = M.sched.mem x := write64_outside away
  have writes : Writes T space m₀ (fun _ => False) M { M with sched := MetalToApp.setTaskFlags M.sched task flags } :=
    divided.writes fun x _ off => outside x (by
      have away := off task member
      simp only [Task.taskFlags, Task.size] at *
      omega)
  have addressSpace {t : Nat} (other : t ∈ T.tasks) :
      addressSpaceOf (MetalToApp.setTaskFlags M.sched task flags).mem t = addressSpaceOf M.sched.mem t :=
    readWord_congr fun x lower upper => outside x (by
      by_cases same : t = task
      · subst same
        simp only [Task.taskFlags, Task.addressSpace] at *
        omega
      · have apart := T.apart t other task member same
        simp only [Task.taskFlags, Task.addressSpace, Task.size] at *
        omega)
  have context {t : Nat} (other : t ∈ T.tasks) :
      Context.ofTask (MetalToApp.setTaskFlags M.sched task flags).mem t = Context.ofTask M.sched.mem t :=
    Context.ofTask_congr fun x lower upper => outside x (by
      by_cases same : t = task
      · subst same
        omega
      · have apart := T.apart t other task member same
        simp only [Task.taskFlags, Task.size] at *
        omega)
  have after : Sharing T space m₀ { M with sched := MetalToApp.setTaskFlags M.sched task flags } :=
    ⟨fun t other => writes.after sharing other, fun t other => by rw [← sharing.space t other, addressSpace other],
      sharing.cr3.trans (addressSpace current).symm⟩
  refine ⟨after, fun t other => ?_⟩
  have view := writes.view sharing after other fun _ _ => id
  exact congrArg₂ Process.mk (by simp only [context other]; rfl) view

/-- What belongs to a task stays where it was. -/
theorem Sharing.owned_iff (sharing : Sharing T space m₀ M) (member : t ∈ T.tasks) {x : Nat} :
    Owned M.frames (addressSpaceOf M.sched.mem t).toNat t x ↔ Owned m₀ (space t) t x := by
  rw [sharing.space t member]
  have same := sharing.tables t member
  constructor
  · rintro (⟨lower, upper⟩ | ⟨table, inside, place⟩ | ⟨page, inside, place⟩)
    · exact .struct lower upper
    · exact .table ((tableAt_congr same).mp table) inside place
    · exact .page ((userPage_congr same).mp page) inside place
  · rintro (⟨lower, upper⟩ | ⟨table, inside, place⟩ | ⟨page, inside, place⟩)
    · exact .struct lower upper
    · exact .table ((tableAt_congr same).mpr table) inside place
    · exact .page ((userPage_congr same).mpr page) inside place

/-- Work changes what belongs to a task in pages of the current one only. -/
theorem Sharing.confined (sharing : Sharing T space m₀ M) (current : M.sched.currentTaskTable 0 ∈ T.tasks) {m : Memory}
    (confined : ∀ x, m x ≠ M.sched.mem x → UserByte M.frames M.cr3.toNat x ∨
      ∀ t ∈ T.tasks, ¬Owned M.frames (addressSpaceOf M.sched.mem t).toNat t x)
    (member : t ∈ T.tasks) {x : Nat} (owned : Owned m₀ (space t) t x) (changed : m x ≠ M.sched.mem x) :
    ∃ f o, UserPage m₀ (space (M.sched.currentTaskTable 0)) f ∧ o < 4096 ∧ x = linearStart + f + o := by
  obtain ⟨v, q, found, user, rfl⟩ := (confined x changed).resolve_right fun free =>
    free t member ((sharing.owned_iff member).mpr owned)
  rw [sharing.cr3, sharing.space _ current, sharing.walk_eq current] at found
  exact ⟨_, q.address % 4096, UserPage.of_walk found user, Nat.mod_lt _ (by decide), by omega⟩

/-- Work of the current task leaves all task structs alone. -/
theorem Sharing.structs (divided : Divided T space m₀) (sharing : Sharing T space m₀ M)
    (current : M.sched.currentTaskTable 0 ∈ T.tasks) {m : Memory}
    (confined : ∀ x, m x ≠ M.sched.mem x → UserByte M.frames M.cr3.toNat x ∨
      ∀ t ∈ T.tasks, ¬Owned M.frames (addressSpaceOf M.sched.mem t).toNat t x) (member : t ∈ T.tasks) :
    Agree M.sched.mem m t Task.size := by
  intro i inside
  by_contra changed
  obtain ⟨f, o, page, within, place⟩ := sharing.confined current confined member
    (.struct (Nat.le_add_right t i) (Nat.add_lt_add_left inside t)) changed
  obtain ⟨bound, noStruct⟩ := divided.pages _ current f page
  have off := divided.offStructs page.aligned bound noStruct within member
  omega

/-- It writes no table, and no pages but its own. -/
theorem Sharing.writes (divided : Divided T space m₀) (sharing : Sharing T space m₀ M)
    (current : M.sched.currentTaskTable 0 ∈ T.tasks) {m : Memory} (sched : M'.sched = { M.sched with mem := m })
    (confined : ∀ x, m x ≠ M.sched.mem x → UserByte M.frames M.cr3.toNat x ∨
      ∀ t ∈ T.tasks, ¬Owned M.frames (addressSpaceOf M.sched.mem t).toNat t x) :
    Writes T space m₀ (UserPage m₀ (space (M.sched.currentTaskTable 0))) M M' := by
  have memory (x : Nat) : M'.frames x = m (linearStart + x) := by rw [Machine.frames, sched]
  -- A changed byte of an owned frame lies in a page of the current task.
  have mine {t f i : Nat} (aligned : f % 4096 = 0) (inside : i < 4096) (member : t ∈ T.tasks)
      (owned : Owned m₀ (space t) t (linearStart + f + i)) (changed : M'.frames (f + i) ≠ M.frames (f + i)) :
      UserPage m₀ (space (M.sched.currentTaskTable 0)) f := by
    rw [memory, Machine.frames, ← Nat.add_assoc] at changed
    obtain ⟨f', o, page, within, place⟩ := sharing.confined current confined member owned changed
    have aligned' := page.aligned
    have same : f' = f := by omega
    exact same ▸ page
  refine ⟨fun t member level f table i inside => ?_, fun t member f page other i inside => ?_⟩
  · by_contra changed
    exact divided.noTable t member _ current level f table
      (mine table.aligned inside member (.table table inside rfl) changed)
  · by_contra changed
    exact other (mine page.aligned inside member (.page page inside rfl) changed)

/-- What a step of the system does: work changes the process of the current task, and no
other step changes any process. -/
structure StepDone (T : TaskArea) (space : Nat → Nat) (m₀ : Memory) (M : Machine) (event : TurnEvent) (M' : Machine) : Prop where
  machine : ∃ change, MachineStep T M event change M'
  sharing : Sharing T space m₀ M'
  current : event ≠ .turn → M'.sched.currentTaskTable 0 = M.sched.currentTaskTable 0
  kept : ∀ t ∈ T.tasks, event = .quiet → t ≠ M.sched.currentTaskTable 0 → processOf M' t = processOf M t
  all : ∀ t ∈ T.tasks, event ≠ .quiet → processOf M' t = processOf M t

theorem StepDone.reach {event : TurnEvent} (done : StepDone T space m₀ M event M') (reach : SwitchReach T M expected) :
    ∃ expected', SwitchReach T M' expected' := by
  obtain ⟨_, step⟩ := done.machine
  exact ⟨_, reach.step step⟩

theorem SchedulerCall.done {event : TurnEvent} (call : SchedulerCall T M event M') (divided : Divided T space m₀)
    (sharing : Sharing T space m₀ M) (current : M.sched.currentTaskTable 0 ∈ T.tasks) : StepDone T space m₀ M event M' := by
  have machine : ∃ change, MachineStep T M event change M' := ⟨_, .call call⟩
  cases call with
  | schedule priority task flags lower upper known =>
    exact ⟨machine, ⟨sharing.tables, sharing.space, sharing.cr3⟩, fun _ => rfl, fun t member quiet => (by cases quiet),
      fun t member _ => rfl⟩
  | suspend task known =>
    obtain ⟨after, all⟩ := sharing.setTaskFlags divided current (suspended_mem current known)
      ((taskFlags M.sched.mem _ ||| taskFlagMaskCanExecute) ^^^ taskFlagMaskCanExecute)
    exact ⟨machine, after, fun _ => rfl, fun t member quiet => (by cases quiet), fun t other _ => all t other⟩
  | resume task member =>
    obtain ⟨after, all⟩ := sharing.setTaskFlags divided current member (taskFlags M.sched.mem task ||| taskFlagMaskCanExecute)
    exact ⟨machine, after, fun _ => rfl, fun t member quiet => (by cases quiet), fun t other _ => all t other⟩

theorem SystemStep.done {event : TurnEvent} (step : SystemStep T M event M') (divided : Divided T space m₀)
    (sharing : Sharing T space m₀ M) (reach : SwitchReach T M expected) : StepDone T space m₀ M event M' := by
  have inv := reach.inv
  have current := inv.current
  cases step with
  | work M' m sched cr3 confined =>
    have structs {t : Nat} (member : t ∈ T.tasks) : Agree M.sched.mem m t Task.size :=
      sharing.structs divided current confined member
    have writes := sharing.writes divided current sched confined
    have addressSpace {t : Nat} (member : t ∈ T.tasks) : addressSpaceOf M'.sched.mem t = addressSpaceOf M.sched.mem t := by
      rw [sched]
      refine readWord_congr fun x lower upper => ?_
      have same := structs member (x - t) (by simp only [Task.addressSpace, Task.size] at *; omega)
      rwa [Nat.add_sub_cancel' (by omega)] at same
    have same : M'.sched.currentTaskTable = M.sched.currentTaskTable := by rw [sched]
    have after : Sharing T space m₀ M' := by
      refine ⟨fun t member => writes.after sharing member, fun t member => ?_, ?_⟩
      · rw [addressSpace member, sharing.space t member]
      · rw [cr3, sharing.cr3, same, addressSpace current]
    refine ⟨⟨_, .run M' m sched fun t member => structs member⟩, after, fun _ => by rw [same], fun t member _ other => ?_,
      fun _ _ loud => absurd rfl loud⟩
    have view := writes.view sharing after member fun f mine => divided.apart t member _ current other f mine
    have context : Context.ofTask M'.sched.mem t = Context.ofTask M.sched.mem t := by
      rw [sched]
      refine Context.ofTask_congr fun x lower upper => ?_
      have same := structs member (x - t) (by simp only [Task.taskFlags, Task.size] at *; omega)
      rwa [Nat.add_sub_cancel' lower] at same
    refine congrArg₂ Process.mk ?_ view
    simp only [same, if_neg other, context]
  | call call => exact call.done divided sharing current
  | switch e =>
    have switched := inv.switched e
    have transparent := contextSwitch_transparent reach e
    have writes : Writes T space m₀ (fun _ => False) M (asmReschedule T e M) := by
      refine divided.writes fun x low off => switched.outside x ?_ ?_
      · have away := off _ current
        simp only [Task.taskFlags, Task.size] at *
        omega
      · have high := divided.idle.2
        omega
    have after : Sharing T space m₀ (asmReschedule T e M) := by
      refine ⟨fun t member => writes.after sharing member, fun t member => ?_, switched.cr3⟩
      rw [transparent.addressSpace t member, sharing.space t member]
    refine ⟨⟨_, .switch e⟩, after, fun turn => absurd rfl turn, fun t member quiet => (by cases quiet), fun t member _ => ?_⟩
    have view := writes.view sharing after member fun _ _ => id
    have context : (processOf (asmReschedule T e M) t).context = (processOf M t).context := by
      rw [(reach.step (.switch e)).context member, reach.context member]
      by_cases next : t = (asmReschedule T e M).sched.currentTaskTable 0
      · rw [next, Function.update_self, transparent.context]
      · rw [Function.update_of_ne next]
    exact congrArg₂ Process.mk context view

/-- The machine with bytes stored at a physical address. -/
def Machine.store (M : Machine) (p : Nat) (bytes : List UInt8) : Machine :=
  { M with sched := { M.sched with mem := fun x =>
      if linearStart + p ≤ x ∧ x < linearStart + p + bytes.length then (bytes[x - (linearStart + p)]?).getD 0 else M.sched.mem x } }

/-- A process can store to a page that it sees, and finds there what it has stored. -/
theorem Sharing.store (divided : Divided T space m₀) (sharing : Sharing T space m₀ M) (reach : SwitchReach T M expected)
    (bytes : List UInt8) (mapped : ((processOf M (M.sched.currentTaskTable 0)).view v).isSome)
    (inPage : v % 4096 + bytes.length ≤ 4096) : ∃ p, SystemStep T M .quiet (M.store p bytes) ∧
      ∀ k < bytes.length, (processOf (M.store p bytes) (M.sched.currentTaskTable 0)).view (v + k) = bytes[k]? := by
  have current := reach.inv.current
  obtain ⟨c, seen⟩ := Option.isSome_iff_exists.mp mapped
  rw [sharing.view_eq current, Option.bind_eq_some_iff] at seen
  obtain ⟨q, found, reachable⟩ := seen
  have user : q.user = true := by
    by_contra supervisor
    rw [if_neg supervisor] at reachable
    cases reachable
  have step : SystemStep T M .quiet (M.store q.address bytes) := by
    refine .work _ _ rfl rfl fun x changed => Or.inl ?_
    by_cases inside : linearStart + q.address ≤ x ∧ x < linearStart + q.address + bytes.length
    · obtain ⟨k, rfl⟩ := Nat.exists_eq_add_of_le inside.1
      have within := walk_within found (show v % 4096 + k < 4096 by omega)
      rw [← sharing.walk_eq current, ← sharing.space _ current, ← sharing.cr3] at within
      exact ⟨v + k, _, within, user, Nat.add_assoc _ _ _⟩
    · exact absurd (if_neg inside) changed
  refine ⟨q.address, step, fun k inside => ?_⟩
  have within := walk_within found (show v % 4096 + k < 4096 by omega)
  have after := (step.done divided sharing reach).sharing
  rw [after.view_eq current, within, Option.bind_some, if_pos user, Machine.frames, Machine.store]
  simp only [← Nat.add_assoc]
  rw [if_pos (by omega), Nat.add_sub_cancel_left, List.getElem?_eq_getElem inside, Option.getD_some]

theorem MachineRun.append {M₁ : Machine} {events : List TurnEvent} {log log' : List Nat} (run : MachineRun T M₁ events log M)
    {event : TurnEvent} (last : MachineRun T M [event] log' M') : MachineRun T M₁ (events ++ [event]) (log ++ log') M' := by
  induction run with
  | nil => exact last
  | turn step _ ih => exact .turn step (ih last)
  | other notTurn step _ ih => exact .other notTurn step (ih last)

/-- A run from a shared memory leaves it shared, and to the scheduler it is a run of the machine. -/
theorem SystemReach.machine {M₀ : Machine} {events : List TurnEvent} {log : List Nat} (system : SystemReach T M₀ events log M)
    (divided : Divided T space m₀) (sharing : Sharing T space m₀ M₀) (reach : SwitchReach T M₀ expected) :
    Sharing T space m₀ M ∧ (∃ expected, SwitchReach T M expected) ∧ MachineRun T M₀ events log M := by
  induction system with
  | start => exact ⟨sharing, ⟨expected, reach⟩, .nil⟩
  | turn _ step ih =>
    obtain ⟨shared, ⟨_, reached⟩, run⟩ := ih
    have done := step.done divided shared reached
    obtain ⟨_, machine⟩ := done.machine
    exact ⟨done.sharing, ⟨_, reached.step machine⟩, run.append (.turn machine .nil)⟩
  | @other events log M event M' _ notTurn step ih =>
    obtain ⟨shared, ⟨_, reached⟩, run⟩ := ih
    have done := step.done divided shared reached
    obtain ⟨_, machine⟩ := done.machine
    have longer := run.append (.other notTurn machine .nil)
    rw [List.append_nil] at longer
    exact ⟨done.sharing, ⟨_, reached.step machine⟩, longer⟩

/-- In every run from a shared memory the machine shows one processor shared by independent processes. -/
theorem SystemReach.shows {M₀ : Machine} {events : List TurnEvent} {log : List Nat} (system : SystemReach T M₀ events log M)
    (divided : Divided T space m₀) (sharing : Sharing T space m₀ M₀) (reach : SwitchReach T M₀ expected)
    {w₀ : World Nat Process} (shows₀ : Presents T M₀ w₀) : ∃ w, Presents T M w ∧ Run (fun _ => Process.Local) w₀ log w := by
  induction system with
  | start => exact ⟨w₀, shows₀, .start⟩
  | @turn events log M M' before step ih =>
    obtain ⟨w, shown, run⟩ := ih
    obtain ⟨shared, ⟨_, reached⟩, -⟩ := before.machine divided sharing reach
    have done := step.done divided shared reached
    refine ⟨w.turn (M'.sched.currentTaskTable 0), ⟨rfl, fun t member => ?_⟩, run.turn _⟩
    rw [done.all t member (by simp)]
    exact shown.process t member
  | @other events log M event M' before notTurn step ih =>
    obtain ⟨w, shown, run⟩ := ih
    obtain ⟨shared, ⟨_, reached⟩, -⟩ := before.machine divided sharing reach
    have done := step.done divided shared reached
    by_cases works : event = .quiet
    · have current := reached.inv.current
      have change := shared.local done.sharing current
      rw [← shown.process _ current, ← shown.running] at change
      refine ⟨w.work (processOf M' (M.sched.currentTaskTable 0)), ⟨?_, fun t member => ?_⟩, run.work _ (shown.running ▸ change)⟩
      · exact shown.running.trans (done.current notTurn).symm
      · by_cases runs : t = w.running
        · subst runs
          rw [World.work_running, shown.running]
        · rw [World.work_other _ runs, shown.process t member]
          exact (done.kept t member works (shown.running ▸ runs)).symm
    · refine ⟨w, ⟨shown.running.trans (done.current notTurn).symm, fun t member => ?_⟩, run⟩
      rw [done.all t member works]
      exact shown.process t member

end sharing

end MetalToApp

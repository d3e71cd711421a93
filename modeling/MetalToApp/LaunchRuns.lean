import MetalToApp.BootSharing
import MetalToApp.DispatchRuns

namespace MetalToApp
open ByteMemory X86 Paging TurnQueue TimeSharing

namespace Turns
variable {A : Turns} {idleLoopTask slot : Nat} {events : List TurnEvent}

theorem find_ready (A : Turns) (q : Queue) :
    (List.range 128).find? (ready { A with queue := q }) = (List.range 128).find? A.ready := rfl

/-- When nobody takes the turn, the idle task has them all. -/
theorem log_of_none (idle : A.turn.1 = none) (only : ∀ event ∈ events, event = .quiet ∨ event = .turn) :
    A.log idleLoopTask events = List.replicate (A.log idleLoopTask events).length idleLoopTask := by
  induction events with
  | nil => rfl
  | cons event events ih =>
    have rest := ih fun e member => only e (List.mem_cons_of_mem _ member)
    obtain rfl | rfl := only event List.mem_cons_self
    · exact rest
    · have same : A.step .turn = A := turn_of_none idle
      have first : A.next idleLoopTask = idleLoopTask := by rw [next, idle, Option.map_none, Option.getD_none]
      rw [log, same, first, List.length_cons, List.replicate_succ, ← rest]

/-- One turn is taken, and then none. -/
theorem log_once (first : A.turn.1 = some slot) (idle : A.turn.2.turn.1 = none)
    (only : ∀ event ∈ events, event = .quiet ∨ event = .turn) :
    A.log idleLoopTask events = [] ∨ ∃ n, A.log idleLoopTask events = A.table slot :: List.replicate n idleLoopTask := by
  induction events with
  | nil => exact Or.inl rfl
  | cons event events ih =>
    have rest : ∀ event ∈ events, event = .quiet ∨ event = .turn := fun e member => only e (List.mem_cons_of_mem _ member)
    obtain rfl | rfl := only event List.mem_cons_self
    · exact ih rest
    · refine Or.inr ⟨_, congrArg₂ List.cons ?_ (log_of_none idle rest)⟩
      rw [next, first, Option.map_some, Option.getD_some]

end Turns

/-- The task that the switch number `k` dispatches, as long as the processes only compute and
yield. A process that is alone is not dispatched again. -/
def bootTurn (idleLoopTask : Nat) (frames : List Nat) (k : Nat) : Nat :=
  if frames.length = 1 ∧ k ≠ 0 then idleLoopTask
  else ((frames[k % frames.length]?).map (linearStart + ·)).getD idleLoopTask

theorem filter_lt_range {k n : Nat} (bound : k ≤ n) : (List.range n).filter (fun x => decide (x < k)) = List.range k := by
  obtain ⟨d, rfl⟩ := Nat.exists_eq_add_of_le bound
  rw [List.range_add, List.filter_append]
  have low : (List.range k).filter (fun x => decide (x < k)) = List.range k :=
    List.filter_eq_self.mpr fun x member => decide_eq_true (List.mem_range.mp member)
  have high : ((List.range d).map (k + ·)).filter (fun x => decide (x < k)) = [] := by
    refine List.filter_eq_nil_iff.mpr fun x member => ?_
    obtain ⟨y, -, rfl⟩ := List.mem_map.mp member
    simp
  rw [low, high, List.append_nil]

section launch
variable {T : TaskArea} {m : Memory} {a : Nat} {length : Nat → Nat} {frames : List Nat} {M : Machine}

namespace Launch

/-- The launched tasks are ready, and no others. -/
theorem ready (launch : Launch T m a length frames M) (slot : Nat) :
    (turnsOf M.sched).ready slot = decide (128 ≤ slot ∧ slot < 128 + frames.length) := by
  by_cases inside : 128 ≤ slot ∧ slot < 128 + frames.length
  · obtain ⟨i, rfl⟩ := Nat.exists_eq_add_of_le inside.1
    obtain ⟨d, found⟩ : ∃ d, frames[i]? = some d := ⟨_, List.getElem?_eq_getElem (by omega)⟩
    have here : (turnsOf M.sched).table (128 + i) = _ := launch.slots i _ found
    have awake := launch.awake _ (List.mem_of_getElem? found)
    have positive : 0 < linearStart := by decide
    have known : linearStart + d ≠ 0 := by omega
    rw [decide_eq_true inside, Turns.ready, here]
    simp only [turnsOf, awake, Bool.and_true, bne_iff_ne]
    exact known
  · have here : (turnsOf M.sched).table slot = 0 := launch.others slot (by omega)
    rw [decide_eq_false inside, Turns.ready, here]
    rfl

theorem calm (launch : Launch T m a length frames M) : (List.range 128).find? (turnsOf M.sched).ready = none := by
  refine List.find?_eq_none.mpr fun slot member => ?_
  rw [launch.ready, decide_eq_false (by have := List.mem_range.mp member; omega)]
  exact Bool.false_ne_true

/-- They wait for their turns in the order of the modules. -/
theorem queue (launch : Launch T m a length frames M) (few : frames.length ≤ 128) (first : M.sched.roundSchedule = 0) :
    (turnsOf M.sched).queue = ⟨List.range frames.length, 127⟩ := by
  have waiting : (turnsOf M.sched).queue = gather 128 (fun pos => (turnsOf M.sched).ready (128 + pos)) 127 := by
    simp only [turnsOf, first]
    rfl
  have order : seats 128 127 = List.range 128 := by rw [seats, ← List.rotate_mod, List.length_range, Nat.mod_self, List.rotate_zero]
  have filter : (fun pos => (turnsOf M.sched).ready (128 + pos)) = fun pos => decide (pos < frames.length) := by
    funext pos
    rw [launch.ready]
    exact decide_eq_decide.mpr (by omega)
  rw [waiting, filter, gather, order, filter_lt_range few]

/-- The turns of the launched tasks. -/
theorem log_eq (launch : Launch T m a length frames M) (few : frames.length ≤ 128) (first : M.sched.roundSchedule = 0)
    {events : List TurnEvent} (only : ∀ event ∈ events, event = .quiet ∨ event = .turn) {idleLoopTask k : Nat}
    (inLog : k < ((turnsOf M.sched).log idleLoopTask events).length) :
    ((turnsOf M.sched).log idleLoopTask events)[k]? = some (bootTurn idleLoopTask frames k) := by
  have queue := launch.queue few first
  have turn := Turns.turn_of_calm launch.calm
  have slots {i : Nat} (bound : i < frames.length) : (turnsOf M.sched).table (128 + i) = linearStart + frames[i] :=
    launch.slots i _ (List.getElem?_eq_getElem bound)
  rw [queue] at turn
  obtain zero | one | two : frames.length = 0 ∨ frames.length = 1 ∨ 2 ≤ frames.length := by omega
  · have idle : (turnsOf M.sched).turn.1 = none := by rw [turn, zero]; rfl
    rw [Turns.log_of_none idle only] at inLog ⊢
    rw [List.getElem?_replicate, if_pos (by simpa using inLog), bootTurn, if_neg (by omega), List.eq_nil_of_length_eq_zero zero]
    rfl
  · rw [one] at turn
    have idle : (turnsOf M.sched).turn.2.turn.1 = none := by
      rw [turn]
      exact Turns.turn_eq_none_iff.mpr ⟨(Turns.find_ready _ _).trans launch.calm, rfl⟩
    have taken : (turnsOf M.sched).turn.1 = some 128 := by rw [turn]; rfl
    obtain empty | ⟨n, log⟩ := Turns.log_once taken idle only
    · rw [empty] at inLog
      cases inLog
    rw [log] at inLog ⊢
    cases k with
    | zero =>
      have here := slots (show 0 < frames.length by omega)
      rw [Nat.add_zero] at here
      rw [List.getElem?_cons_zero, here, bootTurn, if_neg (by omega), Nat.zero_mod, List.getElem?_eq_getElem (by omega)]
      rfl
    | succ k =>
      rw [List.length_cons, List.length_replicate] at inLog
      rw [List.getElem?_cons_succ, List.getElem?_replicate, if_pos (by omega), bootTurn, if_pos ⟨one, by omega⟩]
  · have seated : (turnsOf M.sched).queue.Seated := (turnsOf_refines T M.sched).seated
    have busy := seated.busy (by rw [queue, List.length_range]; exact two)
    have bound := Nat.mod_lt k (show 0 < frames.length by omega)
    have turns := Turns.log_turns launch.calm busy only inLog
    simp only [queue, List.length_range] at turns
    rw [turns, List.getElem?_range bound, Option.map_some, slots bound, bootTurn, if_neg (by omega), List.getElem?_eq_getElem bound]
    rfl

end Launch

end launch

/-- The first switch after the boot goes to the first module. -/
theorem Launch.first_switch {L : KernelLayout} {frames : StructFrames} {m : Memory} {a : Nat} {length : Nat → Nat} {M : Machine}
    (launch : Launch (L.area frames) m a length frames.1 M) (few : frames.1.length ≤ 128) (first : M.sched.roundSchedule = 0)
    (e : CallEffects) {d : Nat} (found : frames.1[0]? = some d) :
    (asmReschedule (L.area frames) e M).sched.currentTaskTable 0 = linearStart + d := by
  have entries (slot : Nat) : (M.sched.schedulingVector 0 slot).task = 0 ∨
      (M.sched.schedulingVector 0 slot).task ∈ (L.area frames).tasks := by
    by_cases inside : 128 ≤ slot ∧ slot < 128 + frames.1.length
    · obtain ⟨i, rfl⟩ := Nat.exists_eq_add_of_le inside.1
      obtain ⟨d, here⟩ : ∃ d, frames.1[i]? = some d := ⟨_, List.getElem?_eq_getElem (by omega)⟩
      exact Or.inr (Or.inr ⟨_, List.mem_of_getElem? here, launch.slots i _ here⟩)
    · exact Or.inl (launch.others slot (by omega))
  obtain ⟨m, flags, after⟩ := asmReschedule_scheduler (T := L.area frames) e (launch.current ▸ (L.area frames).idle_mem)
  obtain ⟨next, -⟩ := ((turnsOf_refines _ M.sched).memory flags).scheduler entries
  have turn : ((turnsOf M.sched).log L.idleLoopTask [.turn])[0]? = some (bootTurn L.idleLoopTask frames.1 0) :=
    launch.log_eq few first (fun event member => Or.inr (List.mem_singleton.mp member)) Nat.one_pos
  have lone : ¬(frames.1.length = 1 ∧ 0 ≠ 0) := by omega
  rw [bootTurn, if_neg lone, Nat.zero_mod, found] at turn
  rw [after]
  exact (scheduler_current ..).trans (next.trans (Option.some.inj turn))

/-- The frames of the tasks can be read off the scheduler. -/
theorem Launch.unique {T T' : TaskArea} {m : Memory} {a : Nat} {length : Nat → Nat} {frames frames' : StructFrames} {M : Machine}
    (launch : Launch T m a length frames.1 M) (launch' : Launch T' m a length frames'.1 M) : frames = frames' := by
  have count := launch.count.trans launch'.count.symm
  refine Subtype.ext (List.ext_getElem count fun i bound bound' => ?_)
  have here := launch.slots i _ (List.getElem?_eq_getElem bound)
  have here' := launch'.slots i _ (List.getElem?_eq_getElem bound')
  omega

/-- A machine can always come to `idle_loop`, with any memory. -/
theorem Idling.exists (K : KernelImage) (L : KernelLayout) (t : Scheduler) (s : Kernel) : ∃ M, Idling K L t s M := by
  have high := L.idle
  let m := write64 (fun p => s.mem (p - linearStart)) (L.idleLoopTask + Task.addressSpace) K.kernelPml4
  refine ⟨⟨fun _ => 0, 0, 8, 0x246, 16, 16, BitVec.ofNat 64 K.kernelPml4, { t with mem := m }⟩, rfl, fun x bound => ?_, ?_, rfl⟩
  · have low := linear_below_kernel bound
    exact (write64_outside (by omega)).trans (congrArg s.mem (Nat.add_sub_cancel_left _ _))
  · exact readWord_write64_self _ _ _

theorem SystemReach.exists_turns (T : TaskArea) (M : Machine) (n : Nat) :
    ∃ log M', SystemReach T M (List.replicate n .turn) log M' ∧ log.length = n := by
  induction n with
  | zero => exact ⟨[], M, .start, rfl⟩
  | succ n ih =>
    obtain ⟨log, M', system, length⟩ := ih
    rw [List.replicate_succ']
    exact ⟨_, _, system.turn (.switch ⟨0, fun _ => 3, fun _ => 9⟩), by rw [List.length_append, length]; rfl⟩

/-- A boot block with the same program twice, under the names `alice` and `bob`, and with the
code of `syscall_entry_asm` in the kernel. -/
def pairInfo : Memory :=
  imageMemory 0 [(0x201000, 8, 0x8b48d1894c534151), (0x201008, 8, 0xd0ff81208000c504), (0x201010, 6, 0x070f48595b41),
    (0x1b00014, 4, 2), (0x1b00018, 4, 0x1b00200), (0x1b0002c, 4, 24), (0x1b00030, 4, 0x1b00100),
    (0x1b00100, 4, 20), (0x1b00104, 8, 0x100000), (0x1b0010c, 8, 0xff00000), (0x1b00114, 4, 1),
    (0x1b00200, 4, 0x1900000), (0x1b00204, 4, 0x19000b1), (0x1b00208, 4, 0x1b00300),
    (0x1b00210, 4, 0x1900000), (0x1b00214, 4, 0x19000b1), (0x1b00218, 4, 0x1b00340),
    (0x1b00300, 5, 0x6563696c61), (0x1b00340, 3, 0x626f62),
    (0x1900000, 8, 0x00010102464c457f), (0x1900018, 8, 0x400000), (0x1900020, 8, 0x40), (0x1900036, 2, 0x38), (0x1900038, 2, 2),
    (0x1900040, 4, 1), (0x1900048, 8, 0xb0), (0x1900050, 8, 0x400000), (0x1900060, 8, 1), (0x1900068, 8, 1),
    (0x1900078, 4, 1), (0x1900080, 8, 0xb0), (0x1900088, 8, 0x400800), (0x1900098, 8, 1), (0x19000a0, 8, 1), (0x19000b0, 1, 0x41)]

/-- The lengths of the two names. -/
def pairLength (i : Nat) : Nat := if i = 0 then 5 else 3

set_option maxRecDepth 2000 in
theorem pairInfo_count : modsCount pairInfo 0x1b00000 = 2 := by decide

set_option maxRecDepth 2000 in
theorem pairInfo_module : ∀ i < 2, bootModule pairInfo 0x1b00000 i = ⟨0x1900000, 0x19000b1, 0x1b00300 + 0x40 * i⟩ := by
  decide

set_option maxRecDepth 2000 in
theorem pairInfo_fields : ∀ i < 2, (bootModule pairInfo 0x1b00000 i).modStart = 0x1900000 ∧
    (bootModule pairInfo 0x1b00000 i).size = 0xb1 ∧ (bootModule pairInfo 0x1b00000 i).string = 0x1b00300 + 0x40 * i := by
  decide

set_option maxRecDepth 2000 in
theorem pairInfo_name : ∀ i < 2, StringAt pairInfo (0x1b00300 + 0x40 * i) (pairLength i) := by
  have first : StringAt pairInfo 0x1b00300 5 := ⟨by decide, by decide⟩
  have second : StringAt pairInfo 0x1b00340 3 := ⟨by decide, by decide⟩
  intro i bound
  obtain rfl | rfl : i = 0 ∨ i = 1 := by omega
  · exact first
  · exact second

theorem pairLength_le (i : Nat) : pairLength i ≤ 5 := by
  unfold pairLength
  split <;> omega

theorem pairInfo_bootable : ∀ i < 2, Bootable pairInfo 0x1900000 0xb1 (0x1b00300 + 0x40 * i) (pairLength i) := by
  have headers : programHeaderCount pairInfo 0x1900000 = 2 ∧ programHeaderAt pairInfo 0x1900000 0 = ⟨1, 0xb0, 0x400000, 1, 1⟩ ∧
      programHeaderAt pairInfo 0x1900000 1 = ⟨1, 0xb0, 0x400800, 1, 1⟩ ∧ programHeaderOffset pairInfo 0x1900000 = 0x40 ∧
      programHeaderSize pairInfo 0x1900000 = 0x38 := by decide
  have image : WellFormed pairInfo 0x1900000 0xb1 := .ofTwo (by decide) (by decide) headers (by decide) (by decide)
  intro i bound
  have short := pairLength_le i
  exact ⟨image, pairInfo_name i bound, by omega, by omega⟩

set_option maxRecDepth 2000 in
theorem pairInfo_boot : BootInfo smallImage pairInfo 0x1b00000 [moduleRegion] moduleRegion pairLength := by
  have length : readLE pairInfo 4 (0x1b00000 + 44) = 24 := by decide
  have start : readLE pairInfo 4 (0x1b00000 + 48) = 0x1b00100 := by decide
  have entry : mmapInfoAt pairInfo 0x1b00100 = moduleRegion := by decide
  have addr : modsAddr pairInfo 0x1b00000 = 0x1b00200 := by decide
  have low : ∀ t ∈ [smallImage.kernelPml4, smallImage.kernelPagedir, smallImage.kernelPagedirtable, smallImage.kernelLinear],
    t + 4096 ≤ 0x1400000 := by decide
  refine ⟨⟨by decide, ?_, ?_, by decide⟩, rfl, fun x byte t table => Or.inr ((low t table).trans ?_), fun i bound => ?_⟩
  · rw [length, start]
    decide
  · rw [length, start]
    exact .cons entry (by decide) .nil
  · cases byte with
    | info => omega
    | map => omega
    | list => omega
    | @module i _ bound =>
      obtain ⟨start, -⟩ := pairInfo_fields i (pairInfo_count ▸ bound)
      omega
    | @commandLine i _ bound =>
      obtain ⟨-, -, string⟩ := pairInfo_fields i (pairInfo_count ▸ bound)
      omega
  · obtain ⟨start, size, string⟩ := pairInfo_fields i (pairInfo_count ▸ bound)
    rw [start, size, string]
    exact pairInfo_bootable i (pairInfo_count ▸ bound)

theorem pairInfo_clear : ModulesClear smallImage pairInfo 0x1b00000 moduleRegion pairLength := by
  have first : firstFrame smallImage moduleRegion = 0x1400000 := by decide
  have last : lastFrame moduleRegion = 0x10000000 := by decide
  have program : programFrames pairInfo 0x1900000 = 6 := by decide
  have process : processFrames pairInfo 0x1900000 = 11 := by decide
  have before : ∀ i ≤ 2, framesBefore pairInfo 0x1b00000 i = 11 * i := by
    intro i bound
    induction i with
    | zero => rfl
    | succ i ih => rw [framesBefore, ih (by omega), pairInfo_module i (by omega), process, Nat.mul_succ]
  refine ⟨?_, ?_, ?_, fun i bound k inside => ?_, fun i bound k inside => ?_⟩
  · rw [pairInfo_count]
    decide
  · rw [pairInfo_count, before 2 le_rfl, first]
    decide
  · rw [pairInfo_count, before 2 le_rfl, first, last]
    decide
  · rw [pairInfo_count] at bound
    rw [pairInfo_module i bound, program, before i (by omega), first]
    simp only
    omega
  · rw [pairInfo_count] at bound
    rw [pairInfo_module i bound, before (i + 1) (by omega), first]
    simp only
    omega

def smallLayout : KernelLayout where
  idleLoopTask := 0xFFFFFFFF81210000
  floor := 0xFFFFFFFF81100000
  ist := 0xFFFFFFFF81200000
  idle := by decide
  stack := by decide
  apart := by decide

theorem pairInfo_starts : ∃ t s, cstart smallImage smallLayout.idleLoopTask (noTasks pairInfo) ⟨pairInfo, 0, 0, 0⟩
    (kernelBase + 0x1b00000) = .ok (t, s) :=
  (ModulesClear.survives (s := ⟨pairInfo, 0, 0, 0⟩) pairInfo_boot pairInfo_clear).ends

section boot
variable {K : KernelImage} {L : KernelLayout} {s s' : Kernel} {a : Nat} {entries : List MmapInfo} {region : MmapInfo}
  {length : Nat → Nat} {t t' : Scheduler}

/-- A process that has not been dispatched yet is as the boot has left it. -/
theorem SystemReach.fresh {frames : StructFrames} {m m₀ : Memory} {M₀ M : Machine} {space : Nat → Nat} {expected : Nat → Context}
    {events : List TurnEvent} {log : List Nat} {i d : Nat} (system : SystemReach (L.area frames) M₀ events log M)
    (launch : Launch (L.area frames) m a length frames.1 M₀) (divided : Divided (L.area frames) space m₀)
    (sharing : Sharing (L.area frames) space m₀ M₀) (reach : SwitchReach (L.area frames) M₀ expected)
    (found : frames.1[i]? = some d) (fresh : linearStart + d ∉ log) :
    processOf M (linearStart + d) = startProcess m (bootModule m a i) (length i) := by
  have known := List.mem_of_getElem? found
  have shows₀ : Presents (L.area frames) M₀ ⟨M₀.sched.currentTaskTable 0, processOf M₀⟩ := ⟨rfl, fun _ _ => rfl⟩
  obtain ⟨w, shown, ran⟩ := system.shows divided sharing reach shows₀
  have other : linearStart + d ≠ M₀.sched.currentTaskTable 0 := by
    have low := linear_below_kernel (x := d) (by have := frames.2 d known; omega)
    have high : kernelBase ≤ (L.area frames).idleLoopTask := L.idle.1
    rw [launch.current]
    omega
  rw [← shown.process _ (Or.inr ⟨d, known, rfl⟩), ran.untouched other fresh]
  exact launch.process i d found

/-- The switch that dispatches a task lets it go on as it was. -/
theorem SystemReach.dispatches {T : TaskArea} {m₀ : Memory} {M₀ M : Machine} {space : Nat → Nat} {expected : Nat → Context}
    {events : List TurnEvent} {log : List Nat} {task : Nat} (system : SystemReach T M₀ events log M) (divided : Divided T space m₀)
    (sharing : Sharing T space m₀ M₀) (reach : SwitchReach T M₀ expected) (member : task ∈ T.tasks) (e : CallEffects)
    (dispatched : (asmReschedule T e M).sched.currentTaskTable 0 = task) :
    (asmReschedule T e M).context = (processOf M task).context ∧
      userView (asmReschedule T e M).frames (asmReschedule T e M).cr3.toNat = (processOf M task).view := by
  obtain ⟨shared, ⟨_, reached⟩, -⟩ := system.machine divided sharing reach
  have done := (SystemStep.switch (T := T) (M := M) e).done divided shared reached
  have after := done.all task member (by simp)
  have atTask : (asmReschedule T e M).cr3 = addressSpaceOf (asmReschedule T e M).sched.mem task := dispatched ▸ done.sharing.cr3
  have context := congrArg Process.context after
  rw [processOf, if_pos dispatched.symm] at context
  rw [atTask]
  exact ⟨context, congrArg Process.view after⟩

/-- While they only compute and yield, the launched tasks are dispatched in turns. -/
theorem SystemReach.launched {frames : StructFrames} {m m₀ : Memory} {M₀ M : Machine} {space : Nat → Nat} {expected : Nat → Context}
    {events : List TurnEvent} {log : List Nat} (system : SystemReach (L.area frames) M₀ events log M)
    (launch : Launch (L.area frames) m a length frames.1 M₀) (few : frames.1.length ≤ 128) (first : M₀.sched.roundSchedule = 0)
    (divided : Divided (L.area frames) space m₀) (sharing : Sharing (L.area frames) space m₀ M₀)
    (reach : SwitchReach (L.area frames) M₀ expected) (only : ∀ event ∈ events, event = .quiet ∨ event = .turn) :
    log = (List.range log.length).map (bootTurn L.idleLoopTask frames.1) := by
  obtain ⟨-, -, machine⟩ := system.machine divided sharing reach
  obtain ⟨-, turns⟩ := machine.refines reach (turnsOf_refines _ M₀.sched)
  refine List.ext_getElem? fun k => ?_
  by_cases inLog : k < log.length
  · rw [List.getElem?_map, List.getElem?_range inLog, Option.map_some, turns]
    rw [turns] at inLog
    exact launch.log_eq few first only inLog
  · rw [List.getElem?_eq_none (by omega), List.getElem?_eq_none (by rw [List.length_map, List.length_range]; omega)]

/-- From the boot on, the machine is a processor shared by processes that do not see each other,
one for each module, whatever the order in which they compute, yield, sleep and wake. In every
state that it comes to, work changes the process that runs, and there nothing but its registers
and bytes that it can reach; no other step changes any process. The frames of the boot stay clear
of the modules. -/
theorem cstart_shares (boot : BootInfo K s.mem a entries region length) (clear : ModulesClear K s.mem a region length)
    (blank : ∀ slot, (t.schedulingVector 0 slot).task = 0) (run : cstart K L.idleLoopTask t s (kernelBase + a) = .ok (t', s')) :
    ∃ frames : StructFrames, ∀ M₀, Idling K L t' s' M₀ → Launch (L.area frames) s.mem a length frames.1 M₀ ∧
      ∃ w₀ : World Nat Process, Presents (L.area frames) M₀ w₀ ∧ ∀ events log M, SystemReach (L.area frames) M₀ events log M →
        (∃ w, Presents (L.area frames) M w ∧ Run (fun _ => Process.Local) w₀ log w) ∧
        ∀ event M', SystemStep (L.area frames) M event M' → ∀ u ∈ (L.area frames).tasks,
          Process.Local (processOf M u) (processOf M' u) ∧
          (event ≠ .quiet ∨ u ≠ M.sched.currentTaskTable 0 → processOf M' u = processOf M u) := by
  obtain ⟨-, frames, launches⟩ := cstart_launches boot clear blank run
  refine ⟨frames, fun M₀ idling => ?_⟩
  obtain ⟨launch, reach, space, settled, sharing⟩ := launches M₀ idling
  have shows₀ : Presents (L.area frames) M₀ ⟨M₀.sched.currentTaskTable 0, processOf M₀⟩ := ⟨rfl, fun _ _ => rfl⟩
  refine ⟨launch, _, shows₀, fun events log M system => ⟨system.shows settled.divided sharing reach shows₀, ?_⟩⟩
  intro event M' step u member
  obtain ⟨shared, ⟨_, reached⟩, -⟩ := system.machine settled.divided sharing reach
  have done := step.done settled.divided shared reached
  refine ⟨shared.local done.sharing member, fun other => ?_⟩
  by_cases quiet : event = .quiet
  · exact done.kept u member quiet (other.resolve_left fun loud => loud quiet)
  · exact done.all u member quiet

/-- Three switches in a row, and after them any step. -/
theorem cstart_shares_pair : ∃ t s, cstart smallImage smallLayout.idleLoopTask (noTasks pairInfo) ⟨pairInfo, 0, 0, 0⟩
    (kernelBase + 0x1b00000) = .ok (t, s) ∧ ∃ (frames : StructFrames) (M₀ : Machine), Idling smallImage smallLayout t s M₀ ∧
    Launch (smallLayout.area frames) pairInfo 0x1b00000 pairLength frames.1 M₀ ∧
    ∃ log M, SystemReach (smallLayout.area frames) M₀ (List.replicate 3 .turn) log M ∧ log.length = 3 ∧
      (∃ w₀ w, Presents (smallLayout.area frames) M₀ w₀ ∧ Presents (smallLayout.area frames) M w ∧
        Run (fun _ => Process.Local) w₀ log w) ∧
      ∀ event M', SystemStep (smallLayout.area frames) M event M' → ∀ u ∈ (smallLayout.area frames).tasks,
        u ≠ M.sched.currentTaskTable 0 → processOf M' u = processOf M u := by
  obtain ⟨t, s, run⟩ := pairInfo_starts
  obtain ⟨M₀, idling⟩ := Idling.exists smallImage smallLayout t s
  obtain ⟨frames, launches⟩ := cstart_shares (s := ⟨pairInfo, 0, 0, 0⟩) pairInfo_boot pairInfo_clear (fun _ => rfl) run
  obtain ⟨launch, w₀, shows₀, shown⟩ := launches M₀ idling
  obtain ⟨log, M, system, count⟩ := SystemReach.exists_turns (smallLayout.area frames) M₀ 3
  obtain ⟨⟨w, shows, ran⟩, steps⟩ := shown _ log M system
  exact ⟨t, s, run, frames, M₀, idling, launch, log, M, system, count, ⟨w₀, w, shows₀, shows, ran⟩,
    fun event M' step u member other => (steps event M' step u member).2 (Or.inr other)⟩

/-- Whatever the others have done to what is their own, when a process is dispatched for the
first time the processor starts it at the entry point of its image, with its image and its blank
stack before it. The frames of the boot stay clear of the modules. -/
theorem cstart_firstDispatch (boot : BootInfo K s.mem a entries region length) (clear : ModulesClear K s.mem a region length)
    (blank : ∀ slot, (t.schedulingVector 0 slot).task = 0) (run : cstart K L.idleLoopTask t s (kernelBase + a) = .ok (t', s')) :
    ∃ frames : StructFrames, ∀ M₀, Idling K L t' s' M₀ → Launch (L.area frames) s.mem a length frames.1 M₀ ∧
      ∀ events log M e i d, SystemReach (L.area frames) M₀ events log M → frames.1[i]? = some d → linearStart + d ∉ log →
        let M' := asmReschedule (L.area frames) e M
        M'.sched.currentTaskTable 0 = linearStart + d →
          M'.context = Context.process (programEntry s.mem (bootModule s.mem a i).modStart)
            (initrdStackAddr - paddedSize (length i)) ∧
          userView M'.frames M'.cr3.toNat =
            startView s.mem (bootModule s.mem a i).modStart (bootModule s.mem a i).string (length i) := by
  obtain ⟨-, frames, launches⟩ := cstart_launches boot clear blank run
  refine ⟨frames, fun M₀ idling => ?_⟩
  obtain ⟨launch, reach, space, settled, sharing⟩ := launches M₀ idling
  refine ⟨launch, ?_⟩
  intro events log M e i d system found fresh M' dispatched
  have member : linearStart + d ∈ (L.area frames).tasks := Or.inr ⟨d, List.mem_of_getElem? found, rfl⟩
  have start := system.fresh launch settled.divided sharing reach found fresh
  obtain ⟨context, view⟩ := system.dispatches settled.divided sharing reach member e dispatched
  rw [start] at context view
  exact ⟨context, view⟩

/-- The first switch starts the first of the two. -/
theorem cstart_firstDispatch_pair : ∃ t s, cstart smallImage smallLayout.idleLoopTask (noTasks pairInfo) ⟨pairInfo, 0, 0, 0⟩
    (kernelBase + 0x1b00000) = .ok (t, s) ∧ ∃ (frames : StructFrames) (M₀ : Machine), Idling smallImage smallLayout t s M₀ ∧
    let M := asmReschedule (smallLayout.area frames) ⟨0, fun _ => 3, fun _ => 9⟩ M₀
    M.context = Context.process (programEntry pairInfo 0x1900000) (initrdStackAddr - paddedSize 5) ∧
      userView M.frames M.cr3.toNat = startView pairInfo 0x1900000 0x1b00300 5 := by
  obtain ⟨t, s, run⟩ := pairInfo_starts
  obtain ⟨M₀, idling⟩ := Idling.exists smallImage smallLayout t s
  have round := (cstart_launches (s := ⟨pairInfo, 0, 0, 0⟩) pairInfo_boot pairInfo_clear (fun _ => rfl) run).1
  obtain ⟨frames, launches⟩ := cstart_firstDispatch (s := ⟨pairInfo, 0, 0, 0⟩) pairInfo_boot pairInfo_clear (fun _ => rfl) run
  obtain ⟨launch, starts⟩ := launches M₀ idling
  have count := launch.count.trans pairInfo_count
  obtain ⟨d, found⟩ : ∃ d, frames.1[0]? = some d := ⟨_, List.getElem?_eq_getElem (by omega)⟩
  have first : M₀.sched.roundSchedule = 0 := by
    rw [idling.sched]
    exact round
  have started := starts [] [] M₀ ⟨0, fun _ => 3, fun _ => 9⟩ 0 _ .start found List.not_mem_nil
    (launch.first_switch (by omega) first _ found)
  rw [pairInfo_module 0 (by decide)] at started
  exact ⟨t, s, run, frames, M₀, idling, started⟩

/-- The processes take turns in the order of the modules, but one that is alone gets the
processor only once. The frames of the boot stay clear of the modules, and no process sleeps
or wakes another. -/
theorem cstart_order (boot : BootInfo K s.mem a entries region length) (clear : ModulesClear K s.mem a region length)
    (blank : ∀ slot, (t.schedulingVector 0 slot).task = 0) (first : t.roundSchedule = 0)
    (run : cstart K L.idleLoopTask t s (kernelBase + a) = .ok (t', s')) :
    ∃ frames : StructFrames, ∀ M₀, Idling K L t' s' M₀ → Launch (L.area frames) s.mem a length frames.1 M₀ ∧
      ∀ events log M, SystemReach (L.area frames) M₀ events log M → (∀ event ∈ events, event = .quiet ∨ event = .turn) →
        log = (List.range log.length).map (bootTurn L.idleLoopTask frames.1) := by
  obtain ⟨round, frames, launches⟩ := cstart_launches boot clear blank run
  refine ⟨frames, fun M₀ idling => ?_⟩
  obtain ⟨launch, reach, space, settled, sharing⟩ := launches M₀ idling
  refine ⟨launch, fun events log M system only => ?_⟩
  have atStart : M₀.sched.roundSchedule = 0 := by
    rw [idling.sched]
    exact round.trans first
  have few : frames.1.length ≤ 128 := by
    have count := launch.count
    have few := clear.few
    omega
  exact system.launched launch few atStart settled.divided sharing reach only

theorem cstart_order_pair : ∃ t s, cstart smallImage smallLayout.idleLoopTask (noTasks pairInfo) ⟨pairInfo, 0, 0, 0⟩
    (kernelBase + 0x1b00000) = .ok (t, s) ∧ ∃ (frames : StructFrames) (M₀ : Machine), Idling smallImage smallLayout t s M₀ ∧
    ∃ b c M, frames.1 = [b, c] ∧ SystemReach (smallLayout.area frames) M₀ (List.replicate 5 .turn)
      [linearStart + b, linearStart + c, linearStart + b, linearStart + c, linearStart + b] M := by
  obtain ⟨t, s, run⟩ := pairInfo_starts
  obtain ⟨M₀, idling⟩ := Idling.exists smallImage smallLayout t s
  obtain ⟨frames, launches⟩ := cstart_order (s := ⟨pairInfo, 0, 0, 0⟩) pairInfo_boot pairInfo_clear (fun _ => rfl) rfl run
  obtain ⟨launch, order⟩ := launches M₀ idling
  obtain ⟨b, c, two⟩ := List.length_eq_two.mp (launch.count.trans pairInfo_count)
  obtain ⟨log, M, system, count⟩ := SystemReach.exists_turns (smallLayout.area frames) M₀ 5
  have turns := order _ log M system fun event member => Or.inr (List.eq_of_mem_replicate member)
  rw [count, two] at turns
  have listed : log = [linearStart + b, linearStart + c, linearStart + b, linearStart + c, linearStart + b] := by
    rw [turns]
    simp [List.range_succ, bootTurn]
  exact ⟨t, s, run, frames, M₀, idling, b, c, M, two, listed ▸ system⟩

end boot

end MetalToApp

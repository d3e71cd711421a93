import MetalToApp.BootWrites
import MetalToApp.KernelWindows
import MetalToApp.ProcessStart

namespace MetalToApp
open ByteMemory X86 Paging

/-- The boot in front of process `i`: the frames of the task structs made so far, with their
root tables, in the order of the modules. -/
structure Launched (K : KernelImage) (A : Arena) (m : Memory) (a : Nat) (region : MmapInfo) (length : Nat → Nat) (t₀ : Scheduler)
    (i : Nat) (t : Scheduler) (s : Kernel) (processes : List (Nat × Nat)) : Prop where
  inv : ∃ g, ProcessInv K A (withEnd s (linearAddressToPtr A.last)) g processes.reverse ∧
    g.free = frameRange (bumpAt K m a region i) A.last
  count : processes.length = i
  own : ∀ q ∈ processes, q.2 ≠ K.kernelPml4
  distinct : (processes.map Prod.fst).Nodup
  begun : ∀ j q, processes[j]? = some q →
    Begun m (bootModule m a j).modStart (bootModule m a j).string (length j) s.mem q.1 q.2
  slots : ∀ j q, processes[j]? = some q → t.schedulingVector 0 (128 + j) = ⟨0, linearAddressToPtr q.1⟩
  others : ∀ slot, slot < 128 ∨ 128 + i ≤ slot → t.schedulingVector 0 slot = t₀.schedulingVector 0 slot
  rest : t.currentTaskTable = t₀.currentTaskTable ∧ t.roundSchedule = t₀.roundSchedule

section launched
variable {K : KernelImage} {A : Arena} {m m' : Memory} {a b c d i len : Nat} {entries : List MmapInfo} {region : MmapInfo}
  {length : Nat → Nat} {t₀ t t' : Scheduler} {s₀ s s' : Kernel} {infos : List InitrdInfo} {processes : List (Nat × Nat)}

theorem Begun.congr {n : Nat} (boot : Bootable m a len b n) (image : Agree m m' a len) (string : Agree m m' b (n + 1))
    (begun : Begun m' a b n s.mem d c) : Begun m a b n s.mem d c := by
  have header := boot.image.header
  have entry : programEntry m' a = programEntry m a := image.readLE (by omega)
  refine ⟨entry ▸ begun.context, begun.flags, fun v => (begun.view v).trans ?_⟩
  rw [startView, startView, programHeaderCount_congr boot.image image, imagePages_congr boot.image image le_rfl]
  by_cases inLine : initrdStackAddr - paddedSize n ≤ v ∧ v ≤ initrdStackAddr - paddedSize n + n
  · rw [if_pos inLine, if_pos inLine, string _ (by omega)]
  · rw [if_neg inLine, if_neg inLine]

/-- The process of module `i`, made in the arena where the processes are accounted for. -/
theorem Launched.makes {task : Nat} (launched : Launched K A m a region length t₀ i t s processes)
    (front : InFront K m a region infos t₀ s₀ i t s) (front' : InFront K m a region infos t₀ s₀ (i + 1) t' s')
    (boot : BootInfo K m a entries region length) (clear : ModulesClear K m a region length) (bound : i < modsCount m a)
    (run : makeUserspaceProcess K s (bootModule m a i).info.start (bootModule m a i).info.stop (bootModule m a i).info.commandLine =
      .ok (task, s')) (atLast : A.last = bumpAt K m a region (modsCount m a)) :
    ∃ g g' c d n, ProcessInv K A (withEnd s (linearAddressToPtr A.last)) g processes.reverse ∧
      Made K A (withEnd s (linearAddressToPtr A.last)) g (withEnd s' (linearAddressToPtr A.last)) g' c d n ∧
      g'.free = frameRange (bumpAt K m a region (i + 1)) A.last ∧ linearAddressToPtr d = task ∧
      Begun m (bootModule m a i).modStart (bootModule m a i).string (length i) s'.mem d c := by
  have booted := front.booted
  have window := clear.window
  have top : bumpAt K m a region (i + 1) ≤ A.last := atLast ▸ bumpAt_mono bound
  have step : bumpAt K m a region (i + 1) = _ := bumpAt_succ
  have total := processFrames_eq m (bootModule m a i).modStart
  have module : Clear (firstFrame K region) (bumpAt K m a region i + 4096 * programFrames m (bootModule m a i).modStart)
      (bootModule m a i).modStart (bootModule m a i).size := by
    have module := clear.modules i bound
    rwa [Nat.mul_add, ← Nat.add_assoc] at module
  have string : Clear (firstFrame K region) (bumpAt K m a region (i + 1)) (bootModule m a i).string (length i + 1) :=
    clear.commandLines i bound
  have bootable := boot.bootable i bound
  have image := booted.agree (module.mono le_rfl (Nat.le_add_right _ _)) (boot.outside_module bound)
  have line := booted.agree (string.mono le_rfl (bumpAt_mono (Nat.le_succ i))) (boot.outside_commandLine bound)
  obtain ⟨advanced, again⟩ := makeUserspaceProcess_endFree _ _ _ s (task, s') booted.freelist booted.start_le run
  have inArena := again (linearAddressToPtr A.last) (Or.inr (by
    have start : s'.freememStart = linearAddressToPtr (bumpAt K m a region (i + 1)) := front'.booted.start
    have bounded := A.bounded
    show s'.freememStart ≤ _
    rw [start, linearAddressToPtr_of_lt (by omega), linearAddressToPtr_of_lt (by omega)]
    omega))
  obtain ⟨g, inv, free⟩ := launched.inv
  have atProgram : programFrames (withEnd s (linearAddressToPtr A.last)).mem (bootModule m a i).modStart =
      programFrames m (bootModule m a i).modStart := programFrames_congr bootable.image image
  have atProcess : processFrames (withEnd s (linearAddressToPtr A.last)).mem (bootModule m a i).modStart =
      processFrames m (bootModule m a i).modStart := processFrames_congr bootable.image image
  have ordered := booted.ordered
  obtain ⟨w, g', c, d, run', made, begun⟩ := makeUserspaceProcess_begins inv (bootable.congr image line)
    (fun f member k inside => by
      rw [free] at member
      have place := mem_take_frameRange booted.aligned.2 member
      have away := module k inside
      omega)
    (fun f member k inside => by
      rw [free] at member
      have place := mem_take_frameRange booted.aligned.2 member
      have away := string k (by omega)
      omega)
    (by
      rw [free, frameRange_length, atProcess]
      omega) (bootModule m a i).info.stop
  obtain ⟨atTask, rfl⟩ : linearAddressToPtr d = task ∧ w = withEnd s' (linearAddressToPtr A.last) :=
    Prod.mk.inj (Except.ok.inj (run'.symm.trans inArena))
  refine ⟨g, g', c, d, _, inv, made, ?_, atTask, begun.congr bootable image line⟩
  rw [made.rest, free, frameRange_drop, atProcess, step]

/-- A new process behind the others, in the slot behind theirs. -/
theorem Launched.append {g g' : Ghost} {n : Nat} (launched : Launched K A m a region length t₀ i t s processes)
    (inv : ProcessInv K A (withEnd s (linearAddressToPtr A.last)) g processes.reverse)
    (made : Made K A (withEnd s (linearAddressToPtr A.last)) g (withEnd s' (linearAddressToPtr A.last)) g' c d n)
    (free : g'.free = frameRange (bumpAt K m a region (i + 1)) A.last)
    (begun : Begun m (bootModule m a i).modStart (bootModule m a i).string (length i) s'.mem d c) :
    Launched K A m a region length t₀ (i + 1) (schedule t i (linearAddressToPtr d) 0).2 s' (processes ++ [(d, c)]) := by
  have count := launched.count
  have last {j : Nat} {q : Nat × Nat} (found : (processes ++ [(d, c)])[j]? = some q) :
      processes[j]? = some q ∧ j < i ∨ q = (d, c) ∧ j = i := by
    rw [List.getElem?_append] at found
    split at found
    · exact Or.inl ⟨found, by omega⟩
    · rw [List.getElem?_singleton] at found
      split at found
      · exact Or.inr ⟨(Option.some.inj found).symm, by omega⟩
      · cases found
  refine ⟨⟨g', ?_, free⟩, ?_, ?_, ?_, fun j q found => ?_, fun j q found => ?_, fun slot away => ?_, launched.rest⟩
  · rw [List.reverse_append]
    exact inv.made made
  · rw [List.length_append, count, List.length_singleton]
  · refine List.forall_mem_append.mpr ⟨launched.own, List.forall_mem_singleton.mpr fun kernel => ?_⟩
    exact made.fresh ((inv.spaces c).mpr (Or.inl kernel))
  · rw [List.map_append, List.map_singleton, ← List.concat_eq_append, List.nodup_concat]
    refine ⟨fun member => ?_, launched.distinct⟩
    obtain ⟨q, known, same⟩ := List.mem_map.mp member
    exact (inv.task q (List.mem_reverse.mpr known)).1.live (same ▸ made.task.1)
  · rcases last found with ⟨old, -⟩ | ⟨rfl, rfl⟩
    · have kept := Begun.made inv made (List.mem_reverse.mpr (List.mem_of_getElem? old)) (launched.begun j q old)
      exact kept
    · exact begun
  · rw [schedule_slot]
    rcases last found with ⟨old, before⟩ | ⟨rfl, rfl⟩
    · rw [if_neg (by omega)]
      exact launched.slots j q old
    · rw [if_pos ⟨rfl, rfl⟩]
  · rw [schedule_slot, if_neg (by omega)]
    exact launched.others slot (by omega)

/-- The loop makes one more process. -/
theorem Launched.next (launched : Launched K A m a region length t₀ i t s processes)
    (front : InFront K m a region infos t₀ s₀ i t s) (boot : BootInfo K m a entries region length)
    (clear : ModulesClear K m a region length) (bound : i < modsCount m a) (here : infos[i]? = some (bootModule m a i).info)
    (atLast : A.last = bumpAt K m a region (modsCount m a)) :
    ∃ t' s' q, InFront K m a region infos t₀ s₀ (i + 1) t' s' ∧
      Launched K A m a region length t₀ (i + 1) t' s' (processes ++ [q]) := by
  obtain ⟨t', s', front', -⟩ := front.next boot clear bound here
  obtain ⟨info, u, v, task, here', before, run, rfl⟩ := startProcesses_step front'.run
  cases here'.symm.trans here
  cases before.symm.trans front.run
  obtain ⟨g, g', c, d, n, inv, made, free, rfl, begun⟩ := launched.makes front front' boot clear bound run atLast
  exact ⟨_, s', (d, c), front', launched.append inv made free begun⟩

/-- Where the modules are clear of the frames, the loop launches all of them. -/
theorem Launched.run (start : Launched K A m a region length t₀ 0 t₀ s₀ [])
    (front : InFront K m a region (initrdInfos m a) t₀ s₀ 0 t₀ s₀)
    (boot : BootInfo K m a entries region length) (clear : ModulesClear K m a region length)
    (atLast : A.last = bumpAt K m a region (modsCount m a)) (within : i ≤ modsCount m a) :
    ∃ t s processes, InFront K m a region (initrdInfos m a) t₀ s₀ i t s ∧ Launched K A m a region length t₀ i t s processes := by
  induction i with
  | zero => exact ⟨t₀, s₀, [], front, start⟩
  | succ i ih =>
    obtain ⟨t, s, processes, front, launched⟩ := ih (by omega)
    obtain ⟨t', s', q, front', launched'⟩ := launched.next front boot clear within (initrdInfos_at within) atLast
    exact ⟨t', s', _, front', launched'⟩

end launched

section boot
variable {K : KernelImage} {s s' : Kernel} {a : Nat} {entries : List MmapInfo} {region : MmapInfo} {length : Nat → Nat}
  {t t' t₀ u : Scheduler} {infos : List InitrdInfo} {s₀ : Kernel} {i : Nat}

/-- In front of the loop there are no processes. -/
theorem Launched.boot (boot : BootInfo K s.mem a entries region length) (few : modsCount s.mem a ≤ 10)
    (window : bumpAt K s.mem a region (modsCount s.mem a) ≤ 2 ^ 39) (t₀ : Scheduler) :
    ∃ s₀ A, prepareBoot K s (kernelBase + a) = .ok (initrdInfos s.mem a, s₀) ∧ A.last = bumpAt K s.mem a region (modsCount s.mem a) ∧
      InFront K s.mem a region (initrdInfos s.mem a) t₀ s₀ 0 t₀ s₀ ∧ Launched K A s.mem a region length t₀ 0 t₀ s₀ [] := by
  obtain ⟨s₀, prepared, front⟩ := prepareBoot_front boot few
  obtain ⟨m, tables, outside, prepared'⟩ := prepareBoot_eq boot.list
  rw [if_pos few, prepared] at prepared'
  obtain rfl : s₀ = bootAllocator K s m region := (Prod.mk.inj (Except.ok.inj prepared')).2
  have booted := (front t₀).booted
  have start : bumpAt K s.mem a region 0 = firstFrame K region := by
    rw [bumpAt, framesBefore, Nat.mul_zero, Nat.add_zero]
  have aligned : bumpAt K s.mem a region (modsCount s.mem a) % 4096 = 0 := by
    have first := booted.aligned.1
    unfold bumpAt
    omega
  obtain ⟨A, atFirst, atLast⟩ := booted.arena aligned (bumpAt_mono (Nat.zero_le _)) window
  have above := booted.above
  have page := A.last_aligned
  have last : A.last / 4096 * 4096 = A.last := by omega
  have inv := @KernelInv.boot K A { s with mem := m } (max K.freememoryStart region.baseAddr) A.last tables
    (by omega) atFirst.symm last
  refine ⟨_, A, prepared, atLast, front t₀, ⟨Ghost.boot K A, .boot ?_, ?_⟩, rfl, by simp, .nil, by simp, by simp,
    fun _ _ => rfl, rfl, rfl⟩
  · simp only [bootAllocator, initFrameAllocator, last] at inv ⊢
    exact inv
  · rw [Ghost.boot_free, atFirst, start]

/-- The tasks that the loop has scheduled are known to the switches. -/
theorem startProcesses_reach {T : TaskArea} (blank : ∀ slot, (t.schedulingVector 0 slot).task = 0) (few : i ≤ 128)
    (run : startProcesses K infos (initScheduler T.idleLoopTask t) s₀ i = .ok (u, s))
    (member : ∀ j < i, (u.schedulingVector 0 (128 + j)).task ∈ T.tasks) (M : Machine) (m : Memory) :
    SwitchReach T { M with sched := { u with mem := m } } (Context.ofTask m) := by
  induction i generalizing u s with
  | zero =>
    cases run
    exact .start (s := { t with mem := m }) rfl blank
  | succ i ih =>
    obtain ⟨info, u', v, task, -, before, -, rfl⟩ := startProcesses_step run
    have slot (j : Nat) := schedule_slot u' i task 0 0 (128 + j)
    have known : task ∈ T.tasks := by
      have here := member i (by omega)
      rwa [slot, if_pos ⟨rfl, rfl⟩] at here
    have reach := ih (by omega) before fun j bound => by
      have earlier := member j (by omega)
      rwa [slot, if_neg (by omega)] at earlier
    exact reach.schedule i task 0 (by omega) (by omega) (Or.inr known)

end boot

/-- Where the linker has put the idle task and the interrupt stack. -/
structure KernelLayout where
  idleLoopTask : Nat
  floor : Nat
  ist : Nat
  idle : kernelBase ≤ idleLoopTask ∧ idleLoopTask + Task.size < 2 ^ 64
  stack : kernelBase ≤ floor ∧ floor + 72 ≤ ist ∧ ist < 2 ^ 64
  apart : idleLoopTask + Task.size ≤ floor ∨ ist ≤ idleLoopTask

/-- Frames for task structs. -/
def StructFrames : Type := { frames : List Nat // ∀ d ∈ frames, d % 4096 = 0 ∧ d + 4096 ≤ 2 ^ 39 }

/-- The idle task, and the tasks with these frames. -/
def KernelLayout.area (L : KernelLayout) (frames : StructFrames) : TaskArea where
  tasks := { t | t = L.idleLoopTask ∨ ∃ d ∈ frames.1, t = linearStart + d }
  idleLoopTask := L.idleLoopTask
  floor := L.floor
  ist := L.ist
  idle_mem := Or.inl rfl
  apart := by
    have idle := L.idle.1
    rintro t (rfl | ⟨d, member, rfl⟩) u (rfl | ⟨d', member', rfl⟩) differ
    · exact absurd rfl differ
    · have low := linear_below_kernel (x := d' + Task.size) (by have := frames.2 d' member'; simp only [Task.size]; omega)
      omega
    · have low := linear_below_kernel (x := d + Task.size) (by have := frames.2 d member; simp only [Task.size]; omega)
      omega
    · have page := (frames.2 d member).1
      have page' := (frames.2 d' member').1
      simp only [Task.size]
      omega
  fits := by
    have idle := L.idle
    have base : 0 < linearStart ∧ linearStart < kernelBase := by decide
    rintro t (rfl | ⟨d, member, rfl⟩)
    · exact ⟨by omega, idle.2⟩
    · have low := linear_below_kernel (x := d + Task.size) (by have := frames.2 d member; simp only [Task.size]; omega)
      omega
  offStack := by
    have stack := L.stack.1
    rintro t (rfl | ⟨d, member, rfl⟩)
    · exact L.apart
    · have low := linear_below_kernel (x := d + Task.size) (by have := frames.2 d member; simp only [Task.size]; omega)
      omega
  deep := L.stack.2.1
  istFits := L.stack.2.2

/-- CPU 0 comes to `idle_loop` in the kernel's space, with these variables. `init_scheduler` has
given the idle task that space. -/
structure Idling (K : KernelImage) (L : KernelLayout) (t : Scheduler) (s : Kernel) (M : Machine) : Prop where
  sched : M.sched = { t with mem := M.sched.mem }
  memory : ∀ x < 2 ^ 39, M.sched.mem (linearStart + x) = s.mem x
  space : addressSpaceOf M.sched.mem L.idleLoopTask = BitVec.ofNat 64 K.kernelPml4
  cr3 : M.cr3 = BitVec.ofNat 64 K.kernelPml4

/-- A module's process, when nothing has run yet. -/
def startProcess (file : Memory) (q : BootModule) (n : Nat) : Process where
  context := Context.process (programEntry file q.modStart) (initrdStackAddr - paddedSize n)
  view := startView file q.modStart q.string n

/-- What the boot has made of the modules, in the order of the list. -/
structure Launch (T : TaskArea) (m : Memory) (a : Nat) (length : Nat → Nat) (frames : List Nat) (M : Machine) : Prop where
  count : frames.length = modsCount m a
  distinct : frames.Nodup
  current : M.sched.currentTaskTable 0 = T.idleLoopTask
  process : ∀ i d, frames[i]? = some d → processOf M (linearStart + d) = startProcess m (bootModule m a i) (length i)
  awake : ∀ d ∈ frames, canExecute M.sched.mem (linearStart + d) = true
  slots : ∀ i d, frames[i]? = some d → (M.sched.schedulingVector 0 (128 + i)).task = linearStart + d
  others : ∀ slot, slot < 128 ∨ 128 + frames.length ≤ slot → (M.sched.schedulingVector 0 slot).task = 0

section idling
variable {K : KernelImage} {L : KernelLayout} {A : Arena} {g : Ghost} {s : Kernel} {t : Scheduler} {M : Machine} {x d : Nat}

theorem Idling.readLE (idling : Idling K L t s M) {n : Nat} (small : x + n ≤ 2 ^ 39) :
    ByteMemory.readLE M.sched.mem n (linearStart + x) = ByteMemory.readLE s.mem n x := by
  have translated := readLE_translate s.mem n linearStart x
  rw [← translated]
  refine readLE_congr fun i bound => ?_
  rw [Nat.add_assoc, idling.memory _ (by omega), Nat.add_sub_cancel_left]

theorem Idling.readWord (idling : Idling K L t s M) {field : Nat} (inside : field + 8 ≤ 4096) (room : d + 4096 ≤ 2 ^ 39) :
    X86.readWord M.sched.mem (linearStart + d + field) = X86.readWord s.mem (d + field) := by
  rw [X86.readWord, X86.readWord, read64, read64, Nat.add_assoc, idling.readLE (by omega)]

theorem Idling.context (idling : Idling K L t s M) (room : d + 4096 ≤ 2 ^ 39) :
    Context.ofTask M.sched.mem (linearStart + d) = Context.ofTask s.mem d := by
  have regs (r : Reg) : X86.readWord M.sched.mem (linearStart + d + Task.reg r) = X86.readWord s.mem (d + Task.reg r) :=
    idling.readWord (by cases r <;> decide) room
  have word {field : Nat} (inside : field + 8 ≤ 4096) := idling.readWord inside room
  simp only [Context.ofTask, regs, word (show Task.rip + 8 ≤ 4096 by decide), word (show Task.cs + 8 ≤ 4096 by decide),
    word (show Task.rflags + 8 ≤ 4096 by decide), word (show Task.ss + 8 ≤ 4096 by decide)]

end idling

section launches
variable {K : KernelImage} {A : Arena} {L : KernelLayout} {s s' s₀ : Kernel} {a n : Nat} {entries : List MmapInfo} {region : MmapInfo}
  {length : Nat → Nat} {t t' t₀ : Scheduler} {infos : List InitrdInfo} {processes : List (Nat × Nat)} {frames : StructFrames}
  {M : Machine} {m : Memory} {space : Nat → Nat}

theorem Launched.root (launched : Launched K A m a region length t₀ n t s processes) (idling : Idling K L t s M) {q : Nat × Nat}
    (known : q ∈ processes) : (addressSpaceOf M.sched.mem (linearStart + q.1)).toNat = q.2 := by
  obtain ⟨g, inv, -⟩ := launched.inv
  obtain ⟨data, field⟩ := inv.task q (List.mem_reverse.mpr known)
  have here : read64 s.mem (q.1 + Task.addressSpace) = q.2 := field
  have fits : q.2 < 2 ^ 64 := here ▸ readLE_lt s.mem 8 _
  rw [addressSpaceOf, idling.readWord (by decide) data.frame.room, X86.readWord, here, BitVec.toNat_ofNat, Nat.mod_eq_of_lt fits]

/-- The spaces of a machine that comes to `idle_loop`. -/
theorem Launched.divided (launched : Launched K A m a region length t₀ n t s processes) (idling : Idling K L t s M)
    (structs : frames.1 = processes.map Prod.fst) :
    Divided (L.area frames) (fun t => (addressSpaceOf M.sched.mem t).toNat) s.mem := by
  obtain ⟨g, inv, -⟩ := launched.inv
  have image := K.page (t := K.kernelPml4) (by simp)
  refine inv.divided (T := L.area frames) ⟨L.idle.1, L.stack.1⟩ ?_ (fun t => ?_)
    (fun q known => launched.root idling (List.mem_reverse.mp known)) fun q known => launched.own q (List.mem_reverse.mp known)
  · exact (congrArg BitVec.toNat idling.space).trans (Nat.mod_eq_of_lt (by omega))
  · refine or_congr Iff.rfl ⟨fun ⟨d, member, eq⟩ => ?_, fun ⟨q, known, eq⟩ => ⟨q.1, ?_, eq⟩⟩
    · rw [structs] at member
      obtain ⟨q, known, rfl⟩ := List.mem_map.mp member
      exact ⟨q, List.mem_reverse.mpr known, eq⟩
    · rw [structs]
      exact List.mem_map_of_mem (List.mem_reverse.mp known)

/-- Divided memory in which every space has the kernel's fixed windows, and which keeps its
frames above the kernel image. -/
structure Settled (K : KernelImage) (T : TaskArea) (space : Nat → Nat) (m : Memory) : Prop where
  divided : Divided T space m
  windows : ∀ t ∈ T.tasks, ∀ v, KernelHalf v → walk m (space t) v = fixedWalk v
  structs : ∀ t ∈ T.tasks, t ≠ T.idleLoopTask → linearStart + K.freememoryStart ≤ t
  tables : ∀ t ∈ T.tasks, ∀ level f, TableAt m (space t) level f →
    f ∈ [K.kernelPml4, K.kernelPagedir, K.kernelPagedirtable, K.kernelLinear] ∨ K.freememoryStart ≤ f
  pages : ∀ t ∈ T.tasks, ∀ f, UserPage m (space t) f → K.freememoryStart ≤ f

theorem Launched.settled (launched : Launched K A m a region length t₀ n t s processes) (idling : Idling K L t s M)
    (structs : frames.1 = processes.map Prod.fst) :
    Settled K (L.area frames) (fun t => (addressSpaceOf M.sched.mem t).toNat) s.mem := by
  have divided := launched.divided idling structs
  obtain ⟨g, inv, -⟩ := launched.inv
  have above := inv.kernel.above
  have image := K.page (t := K.kernelPml4) (by simp)
  -- Every task has one of the kernel's spaces.
  have isSpace {t : Nat} (member : t ∈ (L.area frames).tasks) : g.spaces (addressSpaceOf M.sched.mem t).toNat := by
    rcases member with rfl | ⟨d, known, rfl⟩
    · have kernel : (addressSpaceOf M.sched.mem L.idleLoopTask).toNat = K.kernelPml4 :=
        (congrArg BitVec.toNat idling.space).trans (Nat.mod_eq_of_lt (by omega))
      rw [kernel]
      exact inv.kernel.kernelRoot
    · rw [structs] at known
      obtain ⟨q, made, rfl⟩ := List.mem_map.mp known
      rw [launched.root idling made]
      exact (inv.spaces _).mpr (Or.inr (List.mem_map_of_mem (List.mem_reverse.mpr made)))
  refine ⟨divided, fun t member v half => ?_, fun t member notIdle => ?_, fun t member level f table => ?_,
    fun t member f page => ?_⟩
  · refine (walk_upper inv.kernel (isSpace member) half.1 half.2).trans ?_
    by_cases dynamic : InDynamic v
    · rw [if_pos dynamic, dynamic_vacant inv.kernel inv.bare dynamic.2, fixedWalk, if_neg (by rw [dynamic.1]; decide),
        if_neg (by rw [dynamic.2]; simp)]
      rfl
    · rw [if_neg dynamic]
  · obtain ⟨d, known, rfl⟩ := member.resolve_left notIdle
    rw [structs] at known
    obtain ⟨q, made, rfl⟩ := List.mem_map.mp known
    have lower := (inv.task q (List.mem_reverse.mpr made)).1.frame.lower
    omega
  · have owned {p : Nat × List Nat} (place : g.owner f = some p) :
        f ∈ [K.kernelPml4, K.kernelPagedir, K.kernelPagedirtable, K.kernelLinear] ∨ K.freememoryStart ≤ f := by
      rcases inv.kernel.table place with rfl | rfl | ⟨frame, -⟩
      · exact Or.inl (by simp)
      · exact Or.inl (by simp)
      · exact Or.inr (above.trans frame.lower)
    rcases tableAt_cases inv.kernel (isSpace member) table with ⟨p, place, -⟩ | upper
    · exact owned place
    · rcases level with _ | _ | _ | level
      · obtain ⟨_, _, place⟩ := upper
        exact owned place
      · rcases upper with rfl | ⟨_, place⟩
        · exact Or.inl (by simp)
        · exact owned place
      · rcases upper with rfl | rfl
        · exact Or.inl (by simp)
        · exact Or.inl (by simp)
      · exact upper.elim
  · have data := (inv.mapped (isSpace member) (inv.maps_of_userPage (isSpace member) page)).1
    exact above.trans data.frame.lower

/-- At `idle_loop` every task finds its tables and its space. -/
theorem Idling.sharing (idling : Idling K L t s M) (divided : Divided (L.area frames) space s.mem)
    (spaces : ∀ t, space t = (addressSpaceOf M.sched.mem t).toNat) (current : t.currentTaskTable 0 = L.idleLoopTask) :
    Sharing (L.area frames) space s.mem M := by
  refine ⟨fun u member level f table o inside => ?_, fun u _ => (spaces u).symm, idling.cr3.trans ?_⟩
  · exact idling.memory _ (by have := (divided.tables u member level f table).1; omega)
  · have here : M.sched.currentTaskTable 0 = L.idleLoopTask := by
      rw [idling.sched]
      exact current
    rw [here, idling.space]

/-- A launched process, as the machine shows it at `idle_loop`. -/
theorem Launched.process (launched : Launched K A m a region length t₀ n t s processes) (idling : Idling K L t s M)
    (divided : Divided (L.area frames) space s.mem) (sharing : Sharing (L.area frames) space s.mem M)
    (current : M.sched.currentTaskTable 0 = L.idleLoopTask) {i : Nat} {q : Nat × Nat} (found : processes[i]? = some q)
    (member : linearStart + q.1 ∈ (L.area frames).tasks) :
    processOf M (linearStart + q.1) = startProcess m (bootModule m a i) (length i) := by
  have known := List.mem_of_getElem? found
  have begun := launched.begun i q found
  obtain ⟨g, inv, -⟩ := launched.inv
  have room := (inv.task q (List.mem_reverse.mpr known)).1.frame.room
  have notIdle : linearStart + q.1 ≠ M.sched.currentTaskTable 0 := by
    have low := linear_below_kernel (x := q.1) (by omega)
    have high := L.idle.1
    omega
  have atSpace : space (linearStart + q.1) = q.2 := (sharing.space _ member).symm.trans (launched.root idling known)
  refine congrArg₂ Process.mk ?_ (funext fun v => ?_)
  · rw [if_neg notIdle, idling.context room]
    exact begun.context
  · refine (sharing.view_eq member v).trans (Eq.trans ?_ (begun.view v))
    rw [atSpace, userView]
    cases found : walk s.mem q.2 v with
    | none => rfl
    | some e =>
      by_cases user : e.user = true
      · have page := (divided.pages _ member _ (atSpace ▸ UserPage.of_walk found user)).1
        have here : M.frames e.address = s.mem e.address := idling.memory _ (by omega)
        rw [Option.bind_some, Option.bind_some, here]
      · simp only [Option.bind_some, user, Bool.false_eq_true, if_false]

/-- The boot launches the modules in frames of their own. -/
theorem cstart_launches (boot : BootInfo K s.mem a entries region length) (clear : ModulesClear K s.mem a region length)
    (blank : ∀ slot, (t.schedulingVector 0 slot).task = 0) (run : cstart K L.idleLoopTask t s (kernelBase + a) = .ok (t', s')) :
    t'.roundSchedule = t.roundSchedule ∧ ∃ frames : StructFrames, ∀ M, Idling K L t' s' M →
      Launch (L.area frames) s.mem a length frames.1 M ∧ SwitchReach (L.area frames) M (Context.ofTask M.sched.mem) ∧
      ∃ space, Settled K (L.area frames) space s'.mem ∧ Sharing (L.area frames) space s'.mem M := by
  obtain ⟨s₀, A, prepared, atLast, front, start⟩ := Launched.boot boot clear.few clear.window (initScheduler L.idleLoopTask t)
  obtain ⟨t₁, s₁, processes, last, launched⟩ := start.run front boot clear atLast le_rfl
  rw [cstart_eq prepared, initrdInfos_length, last.run] at run
  obtain ⟨rfl, rfl⟩ := Prod.mk.inj (Except.ok.inj run)
  obtain ⟨g, inv, -⟩ := launched.inv
  have count := launched.count
  have few := clear.few
  have frame (q : Nat × Nat) (known : q ∈ processes) := (inv.task q (List.mem_reverse.mpr known)).1.frame
  have placed : ∀ d ∈ processes.map Prod.fst, d % 4096 = 0 ∧ d + 4096 ≤ 2 ^ 39 := by
    intro d member
    obtain ⟨q, known, rfl⟩ := List.mem_map.mp member
    exact ⟨(frame q known).aligned, (frame q known).room⟩
  have member {d : Nat} (known : d ∈ processes.map Prod.fst) : linearStart + d ∈ (L.area ⟨_, placed⟩).tasks := Or.inr ⟨d, known, rfl⟩
  have slot {i d : Nat} (found : (processes.map Prod.fst)[i]? = some d) : 
      (t₁.schedulingVector 0 (128 + i)).task = linearStart + d := by
    rw [List.getElem?_map] at found
    obtain ⟨q, here, rfl⟩ := Option.map_eq_some_iff.mp found
    have room := (frame q (List.mem_of_getElem? here)).room
    rw [launched.slots i q here]
    exact linearAddressToPtr_of_lt (by omega)
  refine ⟨launched.rest.2, ⟨_, placed⟩, fun M idling => ?_⟩
  have settled : Settled K (L.area ⟨_, placed⟩) _ s₁.mem := launched.settled idling rfl
  have divided := settled.divided
  have current : t₁.currentTaskTable 0 = L.idleLoopTask := by
    rw [launched.rest.1]
    simp [initScheduler]
  have sharing := idling.sharing divided (fun _ => rfl) current
  have kept : M.sched.currentTaskTable = t₁.currentTaskTable ∧ M.sched.schedulingVector = t₁.schedulingVector := by
    rw [idling.sched]
    exact ⟨rfl, rfl⟩
  have atIdle : M.sched.currentTaskTable 0 = L.idleLoopTask := kept.1 ▸ current
  refine ⟨⟨by rw [List.length_map, count], launched.distinct, atIdle, fun i d found => ?_, fun d known => ?_, fun i d found => ?_,
    fun i away => ?_⟩, ?_, _, settled, sharing⟩
  · have known := List.mem_of_getElem? found
    rw [List.getElem?_map] at found
    obtain ⟨q, here, rfl⟩ := Option.map_eq_some_iff.mp found
    exact launched.process idling divided sharing atIdle here (member known)
  · obtain ⟨q, made, rfl⟩ := List.mem_map.mp known
    obtain ⟨i, here⟩ := List.getElem?_of_mem made
    have flags := (launched.begun i q here).flags
    have room := (frame q made).room
    rw [canExecute, taskFlags, read64, Nat.add_assoc, idling.readLE (by simp only [Task.taskFlags]; omega)]
    exact beq_of_eq (congrArg (· &&& taskFlagMaskCanExecute) flags)
  · rw [kept.2]
    exact slot found
  · rw [List.length_map, count] at away
    rw [kept.2, launched.others i away]
    exact blank i
  · have reach := startProcesses_reach (T := L.area ⟨_, placed⟩) blank (show modsCount s.mem a ≤ 128 by omega) last.run (fun j bound => by
      obtain ⟨d, here⟩ : ∃ d, (processes.map Prod.fst)[j]? = some d :=
        ⟨_, List.getElem?_eq_getElem (by rw [List.length_map]; omega)⟩
      rw [slot here]
      exact member (List.mem_of_getElem? here)) M M.sched.mem
    rwa [← idling.sched] at reach

end launches

end MetalToApp

import MetalToApp.BootRuns

namespace MetalToApp
open ByteMemory Paging

theorem framesBefore_mono (m : Memory) (a : Nat) {i j : Nat} (before : i ≤ j) : framesBefore m a i ≤ framesBefore m a j := by
  induction before with
  | refl => exact le_rfl
  | step _ ih => exact ih.trans (Nat.le_add_right _ _)

section loop
variable {K : KernelImage} {m : Memory} {a i : Nat} {entries : List MmapInfo} {region : MmapInfo} {length : Nat → Nat}
  {infos : List InitrdInfo} {t₀ t t' : Scheduler} {s₀ s s' : Kernel}

/-- The first untaken frame in front of process `i`. -/
def bumpAt (K : KernelImage) (m : Memory) (a : Nat) (region : MmapInfo) (i : Nat) : Nat :=
  firstFrame K region + 4096 * framesBefore m a i

theorem bumpAt_succ : bumpAt K m a region (i + 1) = bumpAt K m a region i + 4096 * processFrames m (bootModule m a i).modStart := by
  rw [bumpAt, bumpAt, framesBefore, Nat.mul_add, Nat.add_assoc]

theorem bumpAt_mono {j : Nat} (before : i ≤ j) : bumpAt K m a region i ≤ bumpAt K m a region j :=
  Nat.add_le_add_left (Nat.mul_le_mul_left 4096 (framesBefore_mono m a before)) _

theorem startProcesses_succ {info : InitrdInfo} (run : startProcesses K infos t₀ s₀ i = .ok (t, s)) (here : infos[i]? = some info) :
    startProcesses K infos t₀ s₀ (i + 1) = makeUserspaceProcess K s info.start info.stop info.commandLine >>= fun q =>
      .ok ((schedule t i q.1 0).2, q.2) := by
  rw [startProcesses_succ_eq, run, Outcome.ok_bind, here]
  rfl

/-- The kernel in front of process `i`. -/
structure InFront (K : KernelImage) (m : Memory) (a : Nat) (region : MmapInfo) (infos : List InitrdInfo) (t₀ : Scheduler)
    (s₀ : Kernel) (i : Nat) (t : Scheduler) (s : Kernel) : Prop where
  run : startProcesses K infos t₀ s₀ i = .ok (t, s)
  booted : Booted K m (firstFrame K region) (bumpAt K m a region i) s
  finish : s.freememEnd = linearAddressToPtr (lastFrame region)

/-- What a module occupies, as far as the kernel reads it, lies outside the kernel's tables. -/
theorem BootInfo.outside_module (boot : BootInfo K m a entries region length) (bound : i < modsCount m a) (k : Nat)
    (inside : k < (bootModule m a i).size) : ∀ t ∈ [K.kernelPml4, K.kernelPagedir, K.kernelPagedirtable, K.kernelLinear],
      (bootModule m a i).modStart + k < t ∨ t + 4096 ≤ (bootModule m a i).modStart + k :=
  boot.outside _ (.module bound inside)

theorem BootInfo.outside_commandLine (boot : BootInfo K m a entries region length) (bound : i < modsCount m a) (k : Nat)
    (inside : k < length i + 1) : ∀ t ∈ [K.kernelPml4, K.kernelPagedir, K.kernelPagedirtable, K.kernelLinear],
      (bootModule m a i).string + k < t ∨ t + 4096 ≤ (bootModule m a i).string + k :=
  boot.outside _ (.commandLine bound (by omega))

theorem BootInfo.lastFrame_lt (boot : BootInfo K m a entries region length) : lastFrame region < 2 ^ 39 := by
  obtain ⟨isEntry, ram, -⟩ := largestRam_spec boot.region
  have below := boot.map.bounded region isEntry ram
  unfold lastFrame
  omega

/-- Where the modules are clear of the frames, the next one is built in time. -/
theorem InFront.next (front : InFront K m a region infos t₀ s₀ i t s) (boot : BootInfo K m a entries region length)
    (clear : ModulesClear K m a region length) (bound : i < modsCount m a) (here : infos[i]? = some (bootModule m a i).info) :
    ∃ t' s', InFront K m a region infos t₀ s₀ (i + 1) t' s' ∧ BuiltInTime K m a length i s s' := by
  obtain ⟨run, booted, finish⟩ := front
  have small := boot.lastFrame_lt
  have window := clear.window
  have enough := clear.enough
  have top : bumpAt K m a region (i + 1) ≤ firstFrame K region + 4096 * framesBefore m a (modsCount m a) := bumpAt_mono bound
  have step : bumpAt K m a region (i + 1) = _ := bumpAt_succ
  have total := processFrames_eq m (bootModule m a i).modStart
  have ordered := booted.ordered
  have aligned := booted.aligned
  have modules (j : Nat) (later : i < j) (inside : j < modsCount m a) :
      Clear (firstFrame K region) (bumpAt K m a region (i + 1)) (bootModule m a j).modStart (bootModule m a j).size := by
    refine (clear.modules j inside).mono le_rfl ?_
    have before : bumpAt K m a region (i + 1) ≤ bumpAt K m a region j := bumpAt_mono later
    rw [Nat.mul_add, ← Nat.add_assoc]
    exact before.trans (Nat.le_add_right _ _)
  have strings (j : Nat) (later : i ≤ j) (inside : j < modsCount m a) :
      Clear (firstFrame K region) (bumpAt K m a region (i + 1)) (bootModule m a j).string (length j + 1) :=
    (clear.commandLines j inside).mono le_rfl (bumpAt_mono (Nat.succ_le_succ later))
  have own : Clear (firstFrame K region) (bumpAt K m a region i + 4096 * programFrames m (bootModule m a i).modStart)
      (bootModule m a i).modStart (bootModule m a i).size := by
    have module := clear.modules i bound
    rwa [Nat.mul_add, ← Nat.add_assoc] at module
  have string := strings i le_rfl bound
  obtain ⟨root, entry, s₁, task, s', cr3, program, start₁, made, booted', finish', space, built⟩ := booted.next
    (boot.bootable i bound) (booted.agree (own.mono le_rfl (Nat.le_add_right _ _)) (boot.outside_module bound))
    (booted.agree (string.mono le_rfl (bumpAt_mono (Nat.le_succ i))) (boot.outside_commandLine bound))
    (own.mono ordered le_rfl) (string.mono ordered step.ge) (by omega) (by
      rw [finish, booted.start, linearAddressToPtr_of_lt (by omega), linearAddressToPtr_of_lt (by omega),
        linearAddressToPtr_of_lt (by omega)]
      omega) (linearAddressToPtr (bootModule m a i).modEnd)
  rw [← step] at booted'
  refine ⟨(schedule t i task 0).2, s', ⟨?_, booted', finish'.trans finish⟩,
    ⟨⟨root, entry, s₁, program, ?_⟩, ⟨task, cr3, made, space, built⟩,
    fun j later inside => ?_, fun j later inside => ?_⟩⟩
  · rw [startProcesses_succ run here]
    exact congrArg (· >>= _) made
  · exact (own.mono ordered le_rfl).spares booted.start start₁ (by omega) (by omega) (by omega)
  · exact ((modules j later inside).mono ordered le_rfl).spares booted.start booted'.start booted'.aligned.2 (by omega) (by omega)
  · exact ((strings j later inside).mono ordered le_rfl).spares booted.start booted'.start booted'.aligned.2 (by omega) (by omega)

/-- A process that is built in time shows that its module was clear of the frames, and leads to
the next one. -/
theorem InFront.back (front : InFront K m a region infos t₀ s₀ i t s) (boot : BootInfo K m a entries region length)
    (bound : i < modsCount m a)
    (module : Clear (firstFrame K region) (bumpAt K m a region i) (bootModule m a i).modStart (bootModule m a i).size)
    (string : Clear (firstFrame K region) (bumpAt K m a region i) (bootModule m a i).string (length i + 1))
    (inTime : BuiltInTime K m a length i s s') (run' : startProcesses K infos t₀ s₀ (i + 1) = .ok (t', s')) :
    InFront K m a region infos t₀ s₀ (i + 1) t' s' ∧
    Clear (firstFrame K region) (bumpAt K m a region i + 4096 * programFrames m (bootModule m a i).modStart)
      (bootModule m a i).modStart (bootModule m a i).size ∧
    Clear (firstFrame K region) (bumpAt K m a region (i + 1)) (bootModule m a i).string (length i + 1) ∧
    (lastFrame region < bumpAt K m a region i ∨ bumpAt K m a region (i + 1) ≤ lastFrame region) := by
  obtain ⟨run, booted, finish⟩ := front
  obtain ⟨⟨root, entry, s₁, program, programSpared⟩, ⟨task, cr3, made, -, -⟩, -, strings⟩ := inTime
  have small := boot.lastFrame_lt
  have image := booted.agree module (boot.outside_module bound)
  have commandLine := booted.agree string (boot.outside_commandLine bound)
  obtain ⟨moduleClear, stringClear, room, missed⟩ := booted.needs (boot.bootable i bound) image program made
    programSpared (strings i le_rfl bound) finish (Nat.mul_mod_left _ _) small
  have step : bumpAt K m a region (i + 1) = _ := bumpAt_succ
  have bounded := booted.bounded
  obtain ⟨_, _, _, task', s'', _, -, -, made', booted', finish', -⟩ := booted.next (boot.bootable i bound) image commandLine
    moduleClear stringClear room (by
      rw [finish, booted.start, linearAddressToPtr_of_lt (by omega), linearAddressToPtr_of_lt (by omega),
        linearAddressToPtr_of_lt (by omega)]
      omega) (linearAddressToPtr (bootModule m a i).modEnd)
  cases made'.symm.trans made
  rw [← step] at booted' stringClear missed
  exact ⟨⟨run', booted', finish'.trans finish⟩, module.append moduleClear, string.append stringClear, missed⟩

end loop

section boot
variable {K : KernelImage} {s : Kernel} {a : Nat} {entries : List MmapInfo} {region : MmapInfo} {length : Nat → Nat}

/-- In front of the loop no frame is taken. -/
theorem Booted.start_of_prepareBoot {m : Memory} (boot : BootList K s.mem a entries region) (tables : KernelTables K m)
    (outside : ∀ x, (∀ t ∈ [K.kernelPml4, K.kernelPagedir, K.kernelPagedirtable, K.kernelLinear], x < t ∨ t + 4096 ≤ x) →
      m x = s.mem x) :
    Booted K s.mem (firstFrame K region) (firstFrame K region) (bootAllocator K s m region) := by
  obtain ⟨isEntry, ram, -⟩ := largestRam_spec boot.region
  have below := boot.map.bounded region isEntry ram
  have image := K.mapped
  have aligned : firstFrame K region % 4096 = 0 := Nat.mul_mod_left _ _
  have bounds : K.freememoryStart ≤ firstFrame K region ∧ firstFrame K region ≤ 2 ^ 39 := by
    simp only [kernelMapped, addrshift2M] at image
    unfold firstFrame
    omega
  have fits : (max K.freememoryStart region.baseAddr + 0xfff) % 2 ^ 64 = max K.freememoryStart region.baseAddr + 0xfff := by
    unfold firstFrame at bounds
    omega
  refine ⟨bounds.1, ⟨aligned, aligned⟩, le_rfl, bounds.2, rfl, ?_, fun x away _ => outside x away, fun A atFirst _ => ?_⟩
  · simp only [bootAllocator, initFrameAllocator, fits]
    rfl
  · have last : A.last / 4096 * 4096 = A.last := by
      have page := A.last_aligned
      omega
    have inv := @KernelInv.boot K A { s with mem := m } (max K.freememoryStart region.baseAddr) A.last tables (by omega)
      atFirst.symm last
    refine ⟨Ghost.boot K A, ?_, by rw [Ghost.boot_free, atFirst]⟩
    simp only [bootAllocator, initFrameAllocator, last] at inv ⊢
    exact inv

/-- The module list, as `setup_initrd` returns it. -/
def initrdInfos (m : Memory) (a : Nat) : List InitrdInfo := (List.range (modsCount m a)).map fun i => (bootModule m a i).info

theorem initrdInfos_length (m : Memory) (a : Nat) : (initrdInfos m a).length = modsCount m a := by
  rw [initrdInfos, List.length_map, List.length_range]

theorem initrdInfos_at {m : Memory} {i : Nat} (bound : i < modsCount m a) :
    (initrdInfos m a)[i]? = some (bootModule m a i).info := by
  rw [initrdInfos, List.getElem?_map, List.getElem?_range bound]
  rfl

/-- With room for the modules, the loop begins with none of its frames taken. -/
theorem prepareBoot_front (boot : BootInfo K s.mem a entries region length) (few : modsCount s.mem a ≤ 10) :
    ∃ s₀, prepareBoot K s (kernelBase + a) = .ok (initrdInfos s.mem a, s₀) ∧
      ∀ t₀, InFront K s.mem a region (initrdInfos s.mem a) t₀ s₀ 0 t₀ s₀ := by
  obtain ⟨m, tables, outside, prepared⟩ := prepareBoot_eq boot.list
  rw [if_pos few] at prepared
  refine ⟨_, prepared, fun t₀ => ⟨rfl, ?_, rfl⟩⟩
  have start : bumpAt K s.mem a region 0 = firstFrame K region := by
    rw [bumpAt, framesBefore, Nat.mul_zero, Nat.add_zero]
  rw [start]
  exact Booted.start_of_prepareBoot boot.list tables outside

theorem few_of_prepareBoot {r : List InitrdInfo × Kernel} (boot : BootInfo K s.mem a entries region length)
    (run : prepareBoot K s (kernelBase + a) = .ok r) : modsCount s.mem a ≤ 10 := by
  obtain ⟨m, -, -, prepared⟩ := prepareBoot_eq boot.list
  by_contra many
  rw [if_neg many, run] at prepared
  cases prepared

end boot

section survival
variable {K : KernelImage} {m : Memory} {a i : Nat} {entries : List MmapInfo} {region : MmapInfo} {length : Nat → Nat}
  {t₀ t t' : Scheduler} {s₀ s s' : Kernel}

/-- Where the modules are clear of the frames, the loop comes to every process. -/
theorem ModulesClear.front (clear : ModulesClear K m a region length) (boot : BootInfo K m a entries region length)
    (start : InFront K m a region (initrdInfos m a) t₀ s₀ 0 t₀ s₀) (within : i ≤ modsCount m a) :
    ∃ t s, InFront K m a region (initrdInfos m a) t₀ s₀ i t s := by
  induction i with
  | zero => exact ⟨t₀, s₀, start⟩
  | succ i ih =>
    obtain ⟨t, s, front⟩ := ih (by omega)
    obtain ⟨t', s', next, -⟩ := front.next boot clear within (initrdInfos_at within)
    exact ⟨t', s', next⟩

theorem ModulesClear.inTime (clear : ModulesClear K m a region length) (boot : BootInfo K m a entries region length)
    (start : InFront K m a region (initrdInfos m a) t₀ s₀ 0 t₀ s₀) (bound : i < modsCount m a)
    (run : startProcesses K (initrdInfos m a) t₀ s₀ i = .ok (t, s))
    (run' : startProcesses K (initrdInfos m a) t₀ s₀ (i + 1) = .ok (t', s')) : BuiltInTime K m a length i s s' := by
  obtain ⟨_, _, front⟩ := clear.front boot start bound.le
  cases front.run.symm.trans run
  obtain ⟨_, _, next, built⟩ := front.next boot clear bound (initrdInfos_at bound)
  cases next.run.symm.trans run'
  exact built

/-- What the first processes show when they are built in time: their modules were clear of the
frames taken until then, and the others are so far. -/
structure ClearUpTo (K : KernelImage) (m : Memory) (a : Nat) (region : MmapInfo) (length : Nat → Nat) (i : Nat) : Prop where
  enough : lastFrame region < firstFrame K region ∨ bumpAt K m a region i ≤ lastFrame region
  modules : ∀ j < i, Clear (firstFrame K region) (bumpAt K m a region j + 4096 * programFrames m (bootModule m a j).modStart)
    (bootModule m a j).modStart (bootModule m a j).size
  commandLines : ∀ j < i, Clear (firstFrame K region) (bumpAt K m a region (j + 1)) (bootModule m a j).string (length j + 1)
  laterModules : ∀ j, i ≤ j → j < modsCount m a →
    Clear (firstFrame K region) (bumpAt K m a region i) (bootModule m a j).modStart (bootModule m a j).size
  laterCommandLines : ∀ j, i ≤ j → j < modsCount m a →
    Clear (firstFrame K region) (bumpAt K m a region i) (bootModule m a j).string (length j + 1)

theorem ClearUpTo.start (K : KernelImage) (m : Memory) (a : Nat) (region : MmapInfo) (length : Nat → Nat) :
    ClearUpTo K m a region length 0 := by
  have none : bumpAt K m a region 0 = firstFrame K region := by
    rw [bumpAt, framesBefore, Nat.mul_zero, Nat.add_zero]
  refine ⟨?_, fun j before => absurd before (Nat.not_lt_zero j), fun j before => absurd before (Nat.not_lt_zero j), ?_, ?_⟩
  · rw [none]
    exact Nat.lt_or_ge _ _
  · intro j _ _ k _
    rw [none]
    exact Nat.lt_or_ge _ _
  · intro j _ _ k _
    rw [none]
    exact Nat.lt_or_ge _ _

/-- The step of the loop, for a process that is built in time. -/
theorem ClearUpTo.next {infos : List InitrdInfo} (upTo : ClearUpTo K m a region length i)
    (front : InFront K m a region infos t₀ s₀ i t s) (boot : BootInfo K m a entries region length) (bound : i < modsCount m a)
    (inTime : BuiltInTime K m a length i s s') (run' : startProcesses K infos t₀ s₀ (i + 1) = .ok (t', s')) :
    InFront K m a region infos t₀ s₀ (i + 1) t' s' ∧ ClearUpTo K m a region length (i + 1) := by
  obtain ⟨front', module, commandLine, missed⟩ := front.back boot bound (upTo.laterModules i le_rfl bound)
    (upTo.laterCommandLines i le_rfl bound) inTime run'
  have start := front.booted.start
  have aligned := front.booted.aligned.2
  have stop := front'.booted.start
  have bounded := front'.booted.bounded
  refine ⟨front', ?_, fun j before => ?_, fun j before => ?_, fun j later inside => ?_, fun j later inside => ?_⟩
  · rcases upTo.enough with short | reached
    · exact Or.inl short
    · exact Or.inr (missed.resolve_left (by omega))
  · rcases Nat.lt_succ_iff_lt_or_eq.mp before with earlier | rfl
    · exact upTo.modules j earlier
    · exact module
  · rcases Nat.lt_succ_iff_lt_or_eq.mp before with earlier | rfl
    · exact upTo.commandLines j earlier
    · exact commandLine
  · exact (upTo.laterModules j (by omega) inside).append
      ((inTime.later j (by omega) inside).clear start stop aligned bounded)
  · exact (upTo.laterCommandLines j (by omega) inside).append
      ((inTime.commandLines j (by omega) inside).clear start stop aligned bounded)

/-- Before the loop ends it has come to each of its iterations. -/
theorem startProcesses_before {infos : List InitrdInfo} {n : Nat} {r : Scheduler × Kernel} (before : i ≤ n)
    (run : startProcesses K infos t₀ s₀ n = .ok r) : ∃ t s, startProcesses K infos t₀ s₀ i = .ok (t, s) := by
  induction before generalizing r with
  | refl => exact ⟨r.1, r.2, run⟩
  | step _ ih =>
    rw [startProcesses_succ_eq] at run
    obtain ⟨q, earlier, -⟩ := Outcome.bind_eq_ok.mp run
    exact ih earlier

theorem ClearUpTo.run {r : Scheduler × Kernel} (boot : BootInfo K m a entries region length)
    (start : InFront K m a region (initrdInfos m a) t₀ s₀ 0 t₀ s₀)
    (ends : startProcesses K (initrdInfos m a) t₀ s₀ (modsCount m a) = .ok r)
    (inTime : ∀ i t s t' s', i < modsCount m a → startProcesses K (initrdInfos m a) t₀ s₀ i = .ok (t, s) →
      startProcesses K (initrdInfos m a) t₀ s₀ (i + 1) = .ok (t', s') → BuiltInTime K m a length i s s')
    (within : i ≤ modsCount m a) :
    (∃ t s, InFront K m a region (initrdInfos m a) t₀ s₀ i t s) ∧ ClearUpTo K m a region length i := by
  induction i with
  | zero => exact ⟨⟨t₀, s₀, start⟩, .start K m a region length⟩
  | succ i ih =>
    obtain ⟨⟨t, s, front⟩, upTo⟩ := ih (by omega)
    obtain ⟨t', s', run'⟩ := startProcesses_before within ends
    obtain ⟨front', upTo'⟩ := upTo.next front boot within (inTime i t s t' s' within front.run run') run'
    exact ⟨⟨t', s', front'⟩, upTo'⟩

end survival

section cstart
variable {K : KernelImage} {idleLoopTask a : Nat} {t : Scheduler} {s : Kernel} {entries : List MmapInfo} {region : MmapInfo}
  {length : Nat → Nat}

theorem cstart_eq {infos : List InitrdInfo} {s₀ : Kernel} (prepared : prepareBoot K s (kernelBase + a) = .ok (infos, s₀)) :
    cstart K idleLoopTask t s (kernelBase + a) = startProcesses K infos (initScheduler idleLoopTask t) s₀ infos.length := by
  rw [cstart_eq_bind, prepared, Outcome.ok_bind]

/-- The boot leaves the memory below its frames alone, the kernel's page tables apart. -/
theorem cstart_kept {t' : Scheduler} {s' : Kernel} (boot : BootInfo K s.mem a entries region length)
    (clear : ModulesClear K s.mem a region length) (run : cstart K idleLoopTask t s (kernelBase + a) = .ok (t', s')) {x : Nat}
    (below : x < firstFrame K region)
    (apart : ∀ t ∈ [K.kernelPml4, K.kernelPagedir, K.kernelPagedirtable, K.kernelLinear], x < t ∨ t + 4096 ≤ x) :
    s'.mem x = s.mem x := by
  obtain ⟨s₀, prepared, front⟩ := prepareBoot_front boot clear.few
  obtain ⟨_, _, last⟩ := clear.front boot (front (initScheduler idleLoopTask t)) le_rfl
  rw [cstart_eq prepared, initrdInfos_length, last.run] at run
  cases run
  exact last.booted.kept x apart (Or.inl below)

theorem ModulesClear.survives (boot : BootInfo K s.mem a entries region length)
    (clear : ModulesClear K s.mem a region length) : Survives K idleLoopTask t s a length := by
  obtain ⟨s₀, prepared, front⟩ := prepareBoot_front boot clear.few
  have start := front (initScheduler idleLoopTask t)
  refine ⟨?_, fun infos s' run => ?_, fun infos s' i t₁ s₁ t₂ s₂ run bound here next => ?_⟩
  · obtain ⟨t', s', last⟩ := clear.front boot start le_rfl
    refine ⟨t', s', ?_⟩
    rw [cstart_eq prepared, initrdInfos_length]
    exact last.run
  · cases prepared.symm.trans run
    rfl
  · cases prepared.symm.trans run
    exact clear.inTime boot start bound here next

theorem Survives.clear (boot : BootInfo K s.mem a entries region length) (survives : Survives K idleLoopTask t s a length) :
    ModulesClear K s.mem a region length := by
  obtain ⟨t', s', ends⟩ := survives.ends
  rw [cstart_eq_bind] at ends
  obtain ⟨_, prepared, -⟩ := Outcome.bind_eq_ok.mp ends
  rw [← cstart_eq_bind] at ends
  have few := few_of_prepareBoot boot prepared
  obtain ⟨s₀, prepared, front⟩ := prepareBoot_front boot few
  rw [cstart_eq prepared, initrdInfos_length] at ends
  obtain ⟨⟨_, _, last⟩, upTo⟩ := ClearUpTo.run boot (front (initScheduler idleLoopTask t)) ends
    (fun i t₁ s₁ t₂ s₂ bound here next => survives.processes _ s₀ i t₁ s₁ t₂ s₂ prepared bound here next) le_rfl
  refine ⟨few, last.booted.bounded, upTo.enough, fun i bound => ?_, fun i bound => upTo.commandLines i bound⟩
  rw [Nat.mul_add, ← Nat.add_assoc]
  exact upTo.modules i bound

/-- The modules survive just where the frames that are taken for the processes are clear of
them. They are programs with command lines shorter than a page, and what the boot loader
has left lies outside the kernel's own tables. -/
theorem cstart_survives_iff (boot : BootInfo K s.mem a entries region length) :
    Survives K idleLoopTask t s a length ↔ ModulesClear K s.mem a region length :=
  ⟨Survives.clear boot, ModulesClear.survives boot⟩

/-- A module that survives does not begin where the frames do. -/
theorem ModulesClear.begins {m : Memory} {i : Nat} (clear : ModulesClear K m a region length) (bound : i < modsCount m a)
    (size : 0 < (bootModule m a i).size) : (bootModule m a i).modStart ≠ firstFrame K region := by
  have here := clear.modules i bound 0 size
  rw [programFrames] at here
  omega

end cstart

/-- A boot block with one RAM region and one module, which is a program of two segments. -/
def moduleInfo (modStart : Nat) : Memory :=
  imageMemory 0 [(0x1b00014, 4, 1), (0x1b00018, 4, 0x1b00200), (0x1b0002c, 4, 24), (0x1b00030, 4, 0x1b00100),
    (0x1b00100, 4, 20), (0x1b00104, 8, 0x100000), (0x1b0010c, 8, 0xff00000), (0x1b00114, 4, 1),
    (0x1b00200, 4, modStart), (0x1b00204, 4, modStart + 0xb1), (0x1b00208, 4, 0x1b00300),
    (modStart + 0x20, 8, 0x40), (modStart + 0x36, 2, 0x38), (modStart + 0x38, 2, 2),
    (modStart + 0x40, 4, 1), (modStart + 0x48, 8, 0xb0), (modStart + 0x50, 8, 0x400000), (modStart + 0x60, 8, 1),
    (modStart + 0x68, 8, 1), (modStart + 0x78, 4, 1), (modStart + 0x80, 8, 0xb0), (modStart + 0x88, 8, 0x400800),
    (modStart + 0x98, 8, 1), (modStart + 0xa0, 8, 1), (modStart + 0xb0, 1, 0x41)]

def moduleRegion : MmapInfo := ⟨20, 0x100000, 0xff00000, 1⟩

/-- What the loader reads in a block of this kind. -/
structure OneModule (m : Memory) (modStart : Nat) : Prop where
  count : modsCount m 0x1b00000 = 1
  addr : modsAddr m 0x1b00000 = 0x1b00200
  mmap : readLE m 4 0x1b0002c = 24 ∧ readLE m 4 0x1b00030 = 0x1b00100 ∧ mmapInfoAt m 0x1b00100 = moduleRegion
  module : bootModule m 0x1b00000 0 = ⟨modStart, modStart + 0xb1, 0x1b00300⟩
  headers : programHeaderCount m modStart = 2 ∧ programHeaderAt m modStart 0 = ⟨1, 0xb0, 0x400000, 1, 1⟩ ∧
    programHeaderAt m modStart 1 = ⟨1, 0xb0, 0x400800, 1, 1⟩ ∧ programHeaderOffset m modStart = 0x40 ∧
    programHeaderSize m modStart = 0x38
  string : m 0x1b00300 = 0

section moduleInfo
variable {m : Memory} {modStart : Nat}

/-- All of the block is RAM above the kernel. -/
theorem OneModule.placed (one : OneModule m modStart) (above : 0x1400000 ≤ modStart) (below : modStart ≤ 0x1a00000) {x : Nat}
    (byte : BootByte m 0x1b00000 (fun _ => 0) x) : 0x1400000 ≤ x ∧ x < 0x10000000 := by
  obtain ⟨count, addr, ⟨length, start, -⟩, module, -, -⟩ := one
  cases byte with
  | info inside => omega
  | map inside =>
    rw [length] at inside
    rw [start]
    omega
  | list inside =>
    rw [count] at inside
    rw [addr]
    omega
  | @module i k bound inside =>
    obtain rfl : i = 0 := by omega
    rw [module, BootModule.size] at inside
    rw [module]
    simp only at inside ⊢
    omega
  | @commandLine i k bound inside =>
    obtain rfl : i = 0 := by omega
    rw [module]
    simp only
    omega

theorem OneModule.boot (one : OneModule m modStart) (above : 0x1400000 ≤ modStart) (below : modStart ≤ 0x1a00000) :
    BootInfo smallImage m 0x1b00000 [moduleRegion] moduleRegion fun _ => 0 := by
  refine ⟨⟨by decide, ?_, ?_, by decide⟩, rfl, fun x byte t table => ?_, fun i bound => ?_⟩
  · rw [one.mmap.1, one.mmap.2.1]
    decide
  · rw [one.mmap.1, one.mmap.2.1]
    exact .cons one.mmap.2.2 (by decide) .nil
  · have high := (one.placed above below byte).1
    have low : ∀ t ∈ [smallImage.kernelPml4, smallImage.kernelPagedir, smallImage.kernelPagedirtable, smallImage.kernelLinear],
      t + 4096 ≤ 0x1400000 := by decide
    exact Or.inr ((low t table).trans high)
  · rw [one.count] at bound
    obtain rfl : i = 0 := by omega
    rw [one.module, BootModule.size, Nat.add_sub_cancel_left]
    have room : modStart + 0xb1 ≤ 2 ^ 39 := by omega
    exact ⟨.ofTwo room (by decide) one.headers (by decide) (by decide), ⟨nofun, one.string⟩, by decide,
      show 0x1b00300 + 0 + 1 ≤ 2 ^ 39 by decide⟩

end moduleInfo

set_option maxRecDepth 2000 in
theorem moduleInfo_beyond : OneModule (moduleInfo 0x1900000) 0x1900000 := by
  constructor <;> decide

set_option maxRecDepth 2000 in
theorem moduleInfo_first : OneModule (moduleInfo 0x1400000) 0x1400000 := by
  constructor <;> decide

def noTasks (m : Memory) : Scheduler := ⟨m, fun _ => 0, fun _ _ => ⟨0, 0⟩, 0⟩

theorem cstart_survives_iff_beyond :
    Survives smallImage 0xFFFFFFFF81210000 (noTasks (moduleInfo 0x1900000)) ⟨moduleInfo 0x1900000, 0, 0, 0⟩ 0x1b00000 fun _ => 0 := by
  have one := moduleInfo_beyond
  have first : firstFrame smallImage moduleRegion = 0x1400000 := by decide
  have last : lastFrame moduleRegion = 0x10000000 := by decide
  have program : programFrames (moduleInfo 0x1900000) 0x1900000 = 6 := by decide
  have process : processFrames (moduleInfo 0x1900000) 0x1900000 = 11 := by decide
  have total : framesBefore (moduleInfo 0x1900000) 0x1b00000 1 = 11 := by
    rw [framesBefore, one.module, process]
    rfl
  refine (cstart_survives_iff (one.boot (by decide) (by decide))).mpr ⟨?_, ?_, ?_, fun i bound k inside => ?_,
    fun i bound k inside => ?_⟩
  · exact one.count.le.trans (by decide)
  · rw [one.count, total, first]
    decide
  · rw [one.count, total, first, last]
    decide
  · rw [one.count] at bound
    obtain rfl : i = 0 := by omega
    rw [one.module, program, first, framesBefore]
    simp only
    omega
  · rw [one.count] at bound
    obtain rfl : i = 0 := by omega
    rw [one.module, total, first]
    simp only
    omega

/-- A module right behind the kernel does not survive: the first frame that is handed out for
its process is the one that it begins in, and loses the program's header. -/
theorem cstart_overwrites_module : BootInfo smallImage (moduleInfo 0x1400000) 0x1b00000 [moduleRegion] moduleRegion (fun _ => 0) ∧
    (∀ x, BootByte (moduleInfo 0x1400000) 0x1b00000 (fun _ => 0) x →
      smallImage.freememoryStart ≤ x ∧ moduleRegion.baseAddr ≤ x ∧ x < moduleRegion.baseAddr + moduleRegion.length) ∧
    (∃ infos s s', prepareBoot smallImage ⟨moduleInfo 0x1400000, 0, 0, 0⟩ (kernelBase + 0x1b00000) = .ok (infos, s) ∧
      programHeaderCount s.mem 0x1400000 = 2 ∧ frameAllocZero s = .ok (0x1400000, s') ∧ programHeaderCount s'.mem 0x1400000 = 0) ∧
    ¬Survives smallImage 0xFFFFFFFF81210000 (noTasks (moduleInfo 0x1400000)) ⟨moduleInfo 0x1400000, 0, 0, 0⟩ 0x1b00000 fun _ => 0 := by
  have one := moduleInfo_first
  have boot := one.boot (by decide) (by decide)
  have tables : ∀ t ∈ [smallImage.kernelPml4, smallImage.kernelPagedir, smallImage.kernelPagedirtable, smallImage.kernelLinear],
    t + 4096 ≤ 0x1400000 := by decide
  refine ⟨boot, fun x byte => ?_, ?_, fun survives => ?_⟩
  · obtain ⟨lower, upper⟩ := one.placed (by decide) (by decide) byte
    exact ⟨lower, le_trans (by decide) lower, upper⟩
  · obtain ⟨s, prepared, front⟩ := prepareBoot_front (s := ⟨moduleInfo 0x1400000, 0, 0, 0⟩) boot (one.count.le.trans (by decide))
    obtain ⟨-, booted, finish⟩ := front (noTasks (moduleInfo 0x1400000))
    have kept : Agree (moduleInfo 0x1400000) s.mem 0x1400000 0xb1 := fun i _ =>
      booted.kept _ (fun t table => Or.inr ((tables t table).trans (Nat.le_add_right _ i))) (Nat.lt_or_ge _ _)
    have start : s.freememStart = linearAddressToPtr 0x1400000 := booted.start
    have more : s.freememStart ≠ s.freememEnd := by
      rw [start, finish, Ne, linearAddressToPtr_inj (by decide) (by decide)]
      decide
    have cleared : Agree (fun _ => 0) (memset s.mem 0x1400000 0 0x1000) 0x1400000 0x1000 := fun i inside => memset_inside 0 inside
    have handed : frameAllocZero s = .ok (0x1400000,
        { s with mem := memset s.mem 0x1400000 0 0x1000, freememStart := (linearAddressToPtr 0x1400000 + 0x1000) % 2 ^ 64 }) := by
      rw [frameAllocZero_untouched booted.freelist more, start, window_linear_zero (by decide) (by decide), Outcome.ok_bind,
        pointerToLinearAddress_linear (by decide) (by decide), Outcome.ok_bind, Outcome.pure_eq_ok]
    have lost : readLE (memset s.mem 0x1400000 0 0x1000) 2 (0x1400000 + 0x38) = readLE (fun _ => 0) 2 (0x1400000 + 0x38) :=
      cleared.readLE (by decide)
    exact ⟨_, s, _, prepared, (kept.readLE (by decide)).trans one.headers.1, handed, lost.trans (by decide)⟩
  · have many : 0 < modsCount (moduleInfo 0x1400000) 0x1b00000 := one.count.ge
    refine (survives.clear boot).begins many ?_ ?_
    · rw [one.module]
      decide
    · rw [one.module]
      decide

end MetalToApp

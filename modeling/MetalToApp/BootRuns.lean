import MetalToApp.Boot

namespace MetalToApp
open ByteMemory Paging

section prepare
variable {K : KernelImage} {s : Kernel} {m m' : Memory} {a : Nat} {entries : List MmapInfo} {region : MmapInfo}
  {length : Nat → Nat}

theorem BootMap.congr (map : BootMap m a entries) (info : Agree m m' a 52)
    (list : Agree m m' (readLE m 4 (a + 48)) (readLE m 4 (a + 44))) : BootMap m' a entries := by
  have addr : readLE m' 4 (a + 48) = readLE m 4 (a + 48) := info.readLE (by decide)
  have size : readLE m' 4 (a + 44) = readLE m 4 (a + 44) := info.readLE (by decide)
  refine ⟨map.info, ?_, ?_, map.bounded⟩
  · rw [addr, size]
    exact map.mapped
  · rw [addr, size]
    refine map.map.congr fun i bound => list i ?_
    omega

theorem modsCount_lt (m : Memory) (a : Nat) : modsCount m a < 2 ^ 32 := readLE_lt m 4 (a + 20)

theorem modsAddr_lt (m : Memory) (a : Nat) : modsAddr m a < 2 ^ 32 := readLE_lt m 4 (a + 24)

/-- Where memory is as the boot loader left it, it holds the same modules. -/
theorem bootModule_congr (info : Agree m m' a 52) (list : Agree m m' (modsAddr m a) (16 * modsCount m a)) :
    modsCount m' a = modsCount m a ∧ modsAddr m' a = modsAddr m a ∧ ∀ i < modsCount m a, bootModule m' a i = bootModule m a i := by
  have count : modsCount m' a = modsCount m a := info.readLE (by decide)
  have addr : modsAddr m' a = modsAddr m a := info.readLE (by decide)
  refine ⟨count, addr, fun i bound => ?_⟩
  have start : readLE m' 4 (modsAddr m a + 16 * i) = readLE m 4 (modsAddr m a + 16 * i) := list.readLE (by omega)
  have stop : readLE m' 4 (modsAddr m a + (16 * i + 4)) = readLE m 4 (modsAddr m a + (16 * i + 4)) := list.readLE (by omega)
  have string : readLE m' 4 (modsAddr m a + (16 * i + 8)) = readLE m 4 (modsAddr m a + (16 * i + 8)) := list.readLE (by omega)
  simp only [bootModule, addr, Nat.add_assoc, start, stop, string]

theorem readModule_eq {i : Nat} (bound : i < 2 ^ 32) :
    readModule s (linearAddressToPtr (modsAddr s.mem a)) i = .ok (bootModule s.mem a i).info := by
  have addr := modsAddr_lt s.mem a
  have start := s.load_linear (a := modsAddr s.mem a) (o := 16 * i) (n := 4) (by omega) (by omega)
  have stop := s.load_linear (a := modsAddr s.mem a) (o := 16 * i + 4) (n := 4) (by omega) (by omega)
  have string := s.load_linear (a := modsAddr s.mem a) (o := 16 * i + 8) (n := 4) (by omega) (by omega)
  simp only [← Nat.add_assoc] at stop string
  rw [readModule, start, Outcome.ok_bind, stop, Outcome.ok_bind, string, Outcome.ok_bind, Outcome.pure_eq_ok]
  rfl

theorem readModules_eq {room n : Nat} (bound : n ≤ 2 ^ 32) :
    readModules s (linearAddressToPtr (modsAddr s.mem a)) room n =
      if n ≤ room then .ok ((List.range n).map fun i => (bootModule s.mem a i).info) else .error .fault := by
  induction n with
  | zero =>
    rw [if_pos (Nat.zero_le room)]
    rfl
  | succ i ih =>
    rw [readModules_succ, ih (by omega)]
    by_cases inside : i < room
    · rw [if_pos (by omega), Outcome.ok_bind, readModule_eq (by omega), Outcome.ok_bind, if_pos inside, if_pos (by omega),
        List.range_succ, List.map_append]
      rfl
    · rw [if_neg (show ¬i + 1 ≤ room by omega)]
      by_cases full : i = room
      · rw [if_pos (by omega), Outcome.ok_bind, readModule_eq (by omega), Outcome.ok_bind, if_neg inside]
      · rw [if_neg (by omega), Outcome.error_bind]

/-- The allocator as `setup_frame_allocator` leaves it, over the memory `m`. -/
def bootAllocator (K : KernelImage) (s : Kernel) (m : Memory) (region : MmapInfo) : Kernel :=
  initFrameAllocator { s with mem := m } (max K.freememoryStart region.baseAddr) (region.baseAddr + region.length)

/-- In front of `setup_initrd` the kernel's tables are filled in, the allocator gets the region,
and the module list can be read as the boot loader left it. -/
theorem bootAllocator_spec (boot : BootList K s.mem a entries region) : ∃ m, KernelTables K m ∧
    (∀ x, (∀ t ∈ [K.kernelPml4, K.kernelPagedir, K.kernelPagedirtable, K.kernelLinear], x < t ∨ t + 4096 ≤ x) →
      m x = s.mem x) ∧
    createKernelAddressSpace K s = .ok (K.kernelPml4, { s with mem := m }) ∧
    setupFrameAllocator K { s with mem := m } (kernelBase + a) = .ok (bootAllocator K s m region) ∧
    (bootAllocator K s m region).load 4 (kernelBase + a + 24) = .ok (modsAddr m a) ∧
    (bootAllocator K s m region).load 4 (kernelBase + a + 20) = .ok (modsCount m a) ∧
    modsCount m a = modsCount s.mem a ∧ ∀ i < modsCount s.mem a, bootModule m a i = bootModule s.mem a i := by
  obtain ⟨m, tables, filled, outside⟩ := createKernelAddressSpace_run K s
  have info : Agree s.mem m a 52 := fun i bound => outside _ (boot.outside _ (Or.inl ⟨i, bound, rfl⟩))
  have map : Agree s.mem m (readLE s.mem 4 (a + 48)) (readLE s.mem 4 (a + 44)) := fun i bound =>
    outside _ (boot.outside _ (Or.inr (Or.inl ⟨i, bound, rfl⟩)))
  have list : Agree s.mem m (modsAddr s.mem a) (16 * modsCount s.mem a) := fun i bound =>
    outside _ (boot.outside _ (Or.inr (Or.inr ⟨i, bound, rfl⟩)))
  obtain ⟨count, -, modules⟩ := bootModule_congr info list
  have inside := boot.map.info
  have load (o : Nat) (low : o + 4 ≤ 52) : (bootAllocator K s m region).load 4 (kernelBase + a + o) = .ok (readLE m 4 (a + o)) := by
    rw [Nat.add_assoc, Kernel.load_kernel _ (by omega)]
    rfl
  exact ⟨m, filled, outside, tables, setupFrameAllocator_eq (boot.map.congr info map) boot.region, load 24 (by decide),
    load 20 (by decide), count, modules⟩

/-- The module list is read as the boot loader left it, if there is room for it. -/
theorem prepareBoot_eq (boot : BootList K s.mem a entries region) : ∃ m, KernelTables K m ∧
    (∀ x, (∀ t ∈ [K.kernelPml4, K.kernelPagedir, K.kernelPagedirtable, K.kernelLinear], x < t ∨ t + 4096 ≤ x) →
      m x = s.mem x) ∧
    prepareBoot K s (kernelBase + a) = if modsCount s.mem a ≤ 10 then
      .ok ((List.range (modsCount s.mem a)).map fun i => (bootModule s.mem a i).info, bootAllocator K s m region)
      else .error .fault := by
  obtain ⟨m, filled, outside, tables, setup, atAddr, atCount, count, modules⟩ := bootAllocator_spec boot
  refine ⟨m, filled, outside, ?_⟩
  have mem : (bootAllocator K s m region).mem = m := rfl
  have small := modsCount_lt s.mem a
  have read := @readModules_eq (bootAllocator K s m region) a 10 (modsCount s.mem a) small.le
  have same : (List.range (modsCount s.mem a)).map (fun i => (bootModule m a i).info) =
      (List.range (modsCount s.mem a)).map fun i => (bootModule s.mem a i).info :=
    List.map_congr_left fun i member => by rw [modules i (List.mem_range.mp member)]
  rw [mem, same] at read
  rw [prepareBoot_eq_bind, tables, Outcome.ok_bind]
  dsimp only
  rw [setup, Outcome.ok_bind, setupInitrd_eq, atCount, Outcome.ok_bind, atAddr, Outcome.ok_bind, count, read]
  split
  · rw [Outcome.ok_bind, Outcome.pure_eq_ok]
  · rw [Outcome.error_bind]

end prepare

/-- The kernel in front of its next process: the frames up to `bump` are taken, and memory
beside them and the kernel's tables is as it was. The bookkeeping holds for every end that the
frames may have. -/
structure Booted (K : KernelImage) (m : Memory) (first bump : Nat) (s : Kernel) : Prop where
  above : K.freememoryStart ≤ first
  aligned : first % 4096 = 0 ∧ bump % 4096 = 0
  ordered : first ≤ bump
  bounded : bump ≤ 2 ^ 39
  freelist : s.freelist = 0
  start : s.freememStart = linearAddressToPtr bump
  kept : ∀ x, (∀ t ∈ [K.kernelPml4, K.kernelPagedir, K.kernelPagedirtable, K.kernelLinear], x < t ∨ t + 4096 ≤ x) →
    x < first ∨ bump ≤ x → s.mem x = m x
  inv : ∀ A : Arena, A.first = first → bump ≤ A.last →
    ∃ g, KernelInv K A (withEnd s (linearAddressToPtr A.last)) g ∧ g.free = frameRange bump A.last

namespace Clear
variable {b e b' e' a n : Nat}

theorem mono (clear : Clear b e a n) (more : b ≤ b') (less : e' ≤ e) : Clear b' e' a n := fun k inside => by
  have here := clear k inside
  omega

theorem append (clear : Clear b e a n) (next : Clear e e' a n) : Clear b e' a n := fun k inside => by
  have here := clear k inside
  have there := next k inside
  omega

end Clear

section process
variable {K : KernelImage} {A : Arena} {m : Memory} {first bump e : Nat} {s s' : Kernel} {a len b length : Nat}

/-- The allocator's variables, when the free list is empty. -/
theorem FreeFrames.start_eq (stack : FreeFrames A s (frameRange bump A.last)) (empty : s.freelist = 0)
    (aligned : bump % 4096 = 0) (room : bump ≤ A.last) : s.freememStart = linearAddressToPtr bump := by
  obtain ⟨listed, next, lists, order⟩ := stack
  obtain rfl := List.map_eq_nil_iff.mp (lists.chain.null_iff.mp empty)
  have count := congrArg List.length order
  rw [List.nil_append, frameRange_length, frameRange_length] at count
  have upper := lists.bump_upper
  have aligned' := lists.bump_aligned
  have last := A.last_aligned
  rw [lists.start, show next = bump by omega]

theorem BuiltFrom.congr {m' : Memory} {cr3 : Nat} (boot : Bootable m a len b length) (built : BuiltFrom m' s.mem a b length cr3)
    (image : Agree m m' a len) (string : Agree m m' b (length + 1)) : BuiltFrom m s.mem a b length cr3 := by
  refine ⟨fun v low elsewhere bytes found => built.program v low elsewhere bytes ?_, fun k inside => ?_⟩
  · rw [programHeaderCount_congr boot.image image, imagePages_congr boot.image image le_rfl, found]
  · rw [built.commandLine k inside, string k (by omega)]

/-- What is clear of the frames taken so far is as it was. -/
theorem Booted.agree (booted : Booted K m first bump s) {n : Nat} (clear : Clear first bump a n)
    (outside : ∀ k < n, ∀ t ∈ [K.kernelPml4, K.kernelPagedir, K.kernelPagedirtable, K.kernelLinear], a + k < t ∨ t + 4096 ≤ a + k) :
    Agree m s.mem a n :=
  fun k inside => booted.kept _ (outside k inside) (clear k inside)

/-- In an arena with frames for it, the next process is built. -/
theorem Booted.runs (booted : Booted K m first bump s) (boot : Bootable m a len b length)
    (image : Agree m s.mem a len) (string : Agree m s.mem b (length + 1))
    (imageClear : Clear bump (bump + 4096 * programFrames m a) a len)
    (stringClear : Clear bump (bump + 4096 * processFrames m a) b (length + 1))
    (atFirst : A.first = first) (room : bump + 4096 * processFrames m a ≤ A.last) (stop : Nat) :
    ∃ root entry s₁ task s' g' cr3,
      loadProgram K (withEnd s (linearAddressToPtr A.last)) (linearAddressToPtr a) stop = .ok (root, entry, s₁) ∧
      FreeFrames A s₁ (frameRange (bump + 4096 * programFrames m a) A.last) ∧
      makeUserspaceProcess K (withEnd s (linearAddressToPtr A.last)) (linearAddressToPtr a) stop (linearAddressToPtr b) =
        .ok (task, s') ∧
      KernelInv K A s' g' ∧ g'.free = frameRange (bump + 4096 * processFrames m a) A.last ∧
      (∀ x, x < bump ∨ bump + 4096 * processFrames m a ≤ x → s'.mem x = s.mem x) ∧
      TaskSpace s' task cr3 ∧ BuiltFrom m s'.mem a b length cr3 := by
  obtain ⟨g, inv, free⟩ := booted.inv A atFirst (by omega)
  have atProgram : programFrames s.mem a = programFrames m a := programFrames_congr boot.image image
  have atProcess : processFrames s.mem a = processFrames m a := processFrames_congr boot.image image
  have count : processFrames s.mem a ≤ g.free.length := by
    rw [free, frameRange_length, atProcess]
    omega
  have imagePlaced : ∀ f ∈ g.free.take (programFrames s.mem a), ∀ k < len, a + k < f ∨ f + 4096 ≤ a + k := by
    intro f member k inside
    rw [free, atProgram] at member
    have place := mem_take_frameRange booted.aligned.2 member
    have here := imageClear k inside
    omega
  have stringPlaced : ∀ f ∈ g.free.take (processFrames s.mem a), ∀ k ≤ length, b + k < f ∨ f + 4096 ≤ b + k := by
    intro f member k inside
    rw [free, atProcess] at member
    have place := mem_take_frameRange booted.aligned.2 member
    have here := stringClear k (by omega)
    omega
  obtain ⟨-, -, root, entry, s₁, s', g', c, d, program, stack, run, made, built⟩ :=
    makeUserspaceProcess_runs inv (boot.congr image string) imagePlaced stringPlaced count stop
  have task := made.task.2.frame.room
  refine ⟨root, entry, s₁, linearAddressToPtr d, s', g', c, program, ?_, run, made.inv, ?_, fun x away => ?_, ?_,
    BuiltFrom.congr boot built image string⟩
  · rw [← frameRange_drop, ← free, ← atProgram]
    exact stack
  · rw [made.rest, free, frameRange_drop]
    exact congrArg (fun n => frameRange (bump + 4096 * n) A.last) atProcess
  · refine made.outside x fun f member => ?_
    rw [free] at member
    have place := mem_take_frameRange booted.aligned.2 member
    have same : processFrames (withEnd s (linearAddressToPtr A.last)).mem a = processFrames m a := atProcess
    rw [same] at place
    omega
  · rw [TaskSpace, ← made.space]
    exact s'.load_linear (by simp only [Task.addressSpace]; omega) (by omega)

theorem Booted.start_le (booted : Booted K m first bump s) : s.freememStart ≤ linearEnd := by
  have bounded := booted.bounded
  rw [booted.start, linearAddressToPtr_of_lt (by omega), linearEnd, addrshift512G]
  omega

/-- The smallest arena in which the frames up to `e` are there. -/
theorem Booted.arena (booted : Booted K m first bump s) (aligned : e % 4096 = 0) (ordered : bump ≤ e) (bounded : e ≤ 2 ^ 39) :
    ∃ A : Arena, A.first = first ∧ A.last = e := by
  have above := booted.above
  have inside := (K.inside K.kernelPml4 List.mem_cons_self).2
  have before := booted.ordered
  exact ⟨⟨first, e, booted.aligned.1, aligned, by omega, by omega, bounded⟩, rfl, rfl⟩

/-- The next process is built in the kernel's own state, whose frames end elsewhere. -/
theorem Booted.next (booted : Booted K m first bump s) (boot : Bootable m a len b length)
    (image : Agree m s.mem a len) (string : Agree m s.mem b (length + 1))
    (imageClear : Clear bump (bump + 4096 * programFrames m a) a len)
    (stringClear : Clear bump (bump + 4096 * processFrames m a) b (length + 1))
    (room : bump + 4096 * processFrames m a ≤ 2 ^ 39)
    (missed : s.freememEnd < s.freememStart ∨ linearAddressToPtr (bump + 4096 * processFrames m a) ≤ s.freememEnd) (stop : Nat) :
    ∃ root entry s₁ task s' cr3, loadProgram K s (linearAddressToPtr a) stop = .ok (root, entry, s₁) ∧
      s₁.freememStart = linearAddressToPtr (bump + 4096 * programFrames m a) ∧
      makeUserspaceProcess K s (linearAddressToPtr a) stop (linearAddressToPtr b) = .ok (task, s') ∧
      Booted K m first (bump + 4096 * processFrames m a) s' ∧ s'.freememEnd = s.freememEnd ∧
      TaskSpace s' task cr3 ∧ BuiltFrom m s'.mem a b length cr3 := by
  have fewer : programFrames m a ≤ processFrames m a := by
    have total := processFrames_eq m a
    omega
  have aligned := booted.aligned
  have above := booted.ordered
  obtain ⟨A, atFirst, atLast⟩ := booted.arena (e := bump + 4096 * processFrames m a) (by omega) (by omega) room
  obtain ⟨root, entry, s₁, task, s', g', cr3, program, stack, run, inv, free, outside, space, built⟩ :=
    booted.runs boot image string imageClear stringClear atFirst atLast.ge stop
  obtain ⟨programAdvanced, programAgain⟩ := loadProgram_endFree (linearAddressToPtr a) stop
    (withEnd s (linearAddressToPtr A.last)) (root, entry, s₁) booted.freelist booted.start_le program
  obtain ⟨advanced, again⟩ := makeUserspaceProcess_endFree (linearAddressToPtr a) stop (linearAddressToPtr b)
    (withEnd s (linearAddressToPtr A.last)) (task, s') booted.freelist booted.start_le run
  have programStart : s₁.freememStart = linearAddressToPtr (bump + 4096 * programFrames m a) :=
    stack.start_eq programAdvanced.freelist (by omega) (by omega)
  have start : s'.freememStart = linearAddressToPtr (bump + 4096 * processFrames m a) := by
    have stack' := inv.stack
    rw [free] at stack'
    exact stack'.start_eq advanced.freelist (by omega) (by omega)
  have ordered : s₁.freememStart ≤ s'.freememStart := by
    rw [programStart, start, linearAddressToPtr_of_lt (by omega), linearAddressToPtr_of_lt (by omega)]
    omega
  have atEnd : withEnd s s.freememEnd = s := rfl
  refine ⟨root, entry, withEnd s₁ s.freememEnd, task, withEnd s' s.freememEnd, cr3, ?_, programStart, ?_, ?_, rfl, space, built⟩
  · exact programAgain s.freememEnd (missed.imp_right fun beyond => ordered.trans (start ▸ beyond))
  · exact again s.freememEnd (missed.imp_right fun beyond => start ▸ beyond)
  · refine ⟨booted.above, by omega, by omega, room, advanced.freelist, start, fun x away place => ?_, fun A' atFirst' room' => ?_⟩
    · have before : s.mem x = m x := booted.kept x away (by omega)
      exact (outside x (by omega)).trans before
    · obtain ⟨_, _, _, task', t, g, _, _, _, run', inv', free', -⟩ :=
        booted.runs boot image string imageClear stringClear atFirst' room' stop
      have bounded := A'.bounded
      have same := again (linearAddressToPtr A'.last) (Or.inr (by
        show s'.freememStart ≤ _
        rw [start, linearAddressToPtr_of_lt (by omega), linearAddressToPtr_of_lt (by omega)]
        omega))
      cases run'.symm.trans same
      exact ⟨g, inv', free'⟩

/-- The frames handed out between two states, as a range of addresses. -/
theorem Spares.clear {top n : Nat} (spares : Spares s s' a n) (start : s.freememStart = linearAddressToPtr bump)
    (stop : s'.freememStart = linearAddressToPtr top) (aligned : bump % 4096 = 0) (bounded : top ≤ 2 ^ 39) : Clear bump top a n := by
  intro k inside
  by_contra taken
  have frame : linearAddressToPtr ((a + k) / 4096 * 4096) = linearStart + (a + k) / 4096 * 4096 :=
    linearAddressToPtr_of_lt (by omega)
  have away := spares ((a + k) / 4096 * 4096) (by omega) (by omega)
    (by rw [start, frame, linearAddressToPtr_of_lt (by omega)]; omega)
    (by rw [stop, frame, linearAddressToPtr_of_lt (by omega)]; omega) k inside
  omega

theorem Clear.spares {top n : Nat} (clear : Clear bump top a n) (start : s.freememStart = linearAddressToPtr bump)
    (stop : s'.freememStart = linearAddressToPtr top) (aligned : top % 4096 = 0) (ordered : bump ≤ top) (bounded : top ≤ 2 ^ 39) :
    Spares s s' a n := by
  intro f small page above below k inside
  rw [start, linearAddressToPtr_of_lt (by omega), linearAddressToPtr_of_lt (by omega)] at above
  rw [stop, linearAddressToPtr_of_lt (by omega), linearAddressToPtr_of_lt (by omega)] at below
  have here := clear k inside
  omega

/-- After the program, more frames are taken. -/
theorem makeUserspaceProcess_advances {start stop commandLine root entry task : Nat} {s₁ : Kernel} (empty : s₁.freelist = 0)
    (bounded : s₁.freememStart ≤ linearEnd) (program : loadProgram K s start stop = .ok (root, entry, s₁))
    (made : makeUserspaceProcess K s start stop commandLine = .ok (task, s')) : s₁.freememStart ≤ s'.freememStart := by
  rw [makeUserspaceProcess, program, Outcome.ok_bind] at made
  obtain ⟨⟨stack, ret, s₂⟩, prepared, made⟩ := Outcome.bind_eq_ok.mp made
  obtain ⟨s₃, started, made⟩ := Outcome.bind_eq_ok.mp made
  cases made
  obtain ⟨first, -⟩ := prepareTask_endFree root s₁ _ empty bounded prepared
  obtain ⟨second, -⟩ := startTask_endFree root entry stack task commandLine s₂ _ first.freelist first.bounded started
  exact first.le.trans second.le

/-- How far the frames go after a computation that has only taken some, and that none of them was at the end. -/
theorem Booted.advance (booted : Booted K m first bump s) (advanced : Advanced s s') :
    ∃ n, s'.freememStart = linearAddressToPtr (bump + 4096 * n) ∧ bump + 4096 * n ≤ 2 ^ 39 ∧
      ∀ i < n, linearAddressToPtr (bump + 4096 * i) ≠ s.freememEnd := by
  have bounded := booted.bounded
  have pointer : s.freememStart = linearStart + bump := booted.start.trans (linearAddressToPtr_of_lt (by omega))
  obtain ⟨n, count, missed⟩ := advanced.count
  have last := advanced.bounded
  rw [pointer] at count missed
  rw [linearEnd, addrshift512G] at last
  refine ⟨n, ?_, by omega, fun i before => ?_⟩
  · rw [count, linearAddressToPtr_of_lt (by omega), Nat.add_assoc]
  · rw [linearAddressToPtr_of_lt (by omega), ← Nat.add_assoc]
    exact missed i before

/-- A program that is loaded has had the frames that it needs: in an arena that ends where it
stopped, too few of them would be a panic. -/
theorem Booted.program_needs {root entry stop : Nat} {s₁ : Kernel} (booted : Booted K m first bump s)
    (boot : Bootable m a len b length) (image : Agree m s.mem a len)
    (program : loadProgram K s (linearAddressToPtr a) stop = .ok (root, entry, s₁)) (spared : Spares s s₁ a len) :
    ∃ n, s₁.freememStart = linearAddressToPtr (bump + 4096 * n) ∧ bump + 4096 * n ≤ 2 ^ 39 ∧ programFrames m a ≤ n ∧
      Clear bump (bump + 4096 * n) a len := by
  have aligned := booted.aligned
  have ordered := booted.ordered
  obtain ⟨advanced, again⟩ := loadProgram_endFree _ stop s (root, entry, s₁) booted.freelist booted.start_le program
  obtain ⟨n, start, room, -⟩ := booted.advance (show Advanced s s₁ from advanced)
  have clear := spared.clear booted.start start aligned.2 room
  refine ⟨n, start, room, ?_, clear⟩
  obtain ⟨A, atFirst, atLast⟩ := booted.arena (e := bump + 4096 * n) (by omega) (by omega) room
  obtain ⟨g, inv, free⟩ := booted.inv A atFirst (by omega)
  have run := again (linearAddressToPtr A.last) (Or.inr (by rw [atLast, ← start]; exact le_rfl))
  have placed : ∀ f ∈ g.free, ∀ k < len, a + k < f ∨ f + 4096 ≤ a + k := by
    intro f member k inside
    rw [free, mem_frameRange aligned.2, atLast] at member
    have here := clear k inside
    omega
  have count : g.free.length = n := by
    rw [free, frameRange_length]
    omega
  by_contra more
  have few : g.free.length < programFrames s.mem a := by
    rw [programFrames_congr boot.image image]
    omega
  obtain ⟨e, short⟩ := loadProgram_short inv (boot.image.congr image) placed few stop
  cases short.symm.trans run

/-- The same for the whole process. -/
theorem Booted.process_needs {root entry task stop : Nat} {s₁ : Kernel} (booted : Booted K m first bump s)
    (boot : Bootable m a len b length) (image : Agree m s.mem a len)
    (program : loadProgram K s (linearAddressToPtr a) stop = .ok (root, entry, s₁)) (spared : Spares s s₁ a len)
    (made : makeUserspaceProcess K s (linearAddressToPtr a) stop (linearAddressToPtr b) = .ok (task, s')) :
    ∃ n, s'.freememStart = linearAddressToPtr (bump + 4096 * n) ∧ bump + 4096 * n ≤ 2 ^ 39 ∧ processFrames m a ≤ n ∧
      ∀ i < n, linearAddressToPtr (bump + 4096 * i) ≠ s.freememEnd := by
  have aligned := booted.aligned
  have ordered := booted.ordered
  have atProgram : programFrames s.mem a = programFrames m a := programFrames_congr boot.image image
  have atProcess : processFrames s.mem a = processFrames m a := processFrames_congr boot.image image
  obtain ⟨n₁, start₁, room₁, fewer₁, clear₁⟩ := booted.program_needs boot image program spared
  obtain ⟨advanced₁, -⟩ := loadProgram_endFree _ stop s (root, entry, s₁) booted.freelist booted.start_le program
  obtain ⟨advanced, again⟩ := makeUserspaceProcess_endFree _ stop _ s (task, s') booted.freelist booted.start_le made
  obtain ⟨n, start, room, missed⟩ := booted.advance (show Advanced s s' from advanced)
  refine ⟨n, start, room, ?_, missed⟩
  have later : s₁.freememStart ≤ s'.freememStart :=
    makeUserspaceProcess_advances advanced₁.freelist advanced₁.bounded program made
  rw [start₁, start, linearAddressToPtr_of_lt (by omega), linearAddressToPtr_of_lt (by omega)] at later
  obtain ⟨A, atFirst, atLast⟩ := booted.arena (e := bump + 4096 * n) (by omega) (by omega) room
  obtain ⟨g, inv, free⟩ := booted.inv A atFirst (by omega)
  have run := again (linearAddressToPtr A.last) (Or.inr (by rw [atLast, ← start]; exact le_rfl))
  have count : g.free.length = n := by
    rw [free, frameRange_length]
    omega
  have placed : ∀ f ∈ g.free.take (programFrames s.mem a), ∀ k < len, a + k < f ∨ f + 4096 ≤ a + k := by
    intro f member k inside
    rw [free, atProgram] at member
    have place := mem_take_frameRange aligned.2 member
    have here := clear₁ k inside
    omega
  have enough := enough_of_makeUserspaceProcess inv (boot.image.congr image) placed (by
    show programFrames s.mem a ≤ g.free.length
    omega) run
  have same : processFrames (withEnd s (linearAddressToPtr A.last)).mem a = processFrames m a := atProcess
  omega

/-- A process that is built in time has had the frames that it needs, and they were clear of
what it is built from. -/
theorem Booted.needs {root entry task stop last : Nat} {s₁ : Kernel} (booted : Booted K m first bump s)
    (boot : Bootable m a len b length) (image : Agree m s.mem a len)
    (program : loadProgram K s (linearAddressToPtr a) stop = .ok (root, entry, s₁))
    (made : makeUserspaceProcess K s (linearAddressToPtr a) stop (linearAddressToPtr b) = .ok (task, s'))
    (imageSpared : Spares s s₁ a len) (stringSpared : Spares s s' b (length + 1))
    (finish : s.freememEnd = linearAddressToPtr last) (atPage : last % 4096 = 0) (small : last < 2 ^ 39) :
    Clear bump (bump + 4096 * programFrames m a) a len ∧ Clear bump (bump + 4096 * processFrames m a) b (length + 1) ∧
      bump + 4096 * processFrames m a ≤ 2 ^ 39 ∧ (last < bump ∨ bump + 4096 * processFrames m a ≤ last) := by
  have aligned := booted.aligned
  obtain ⟨n₁, -, -, fewer₁, clear₁⟩ := booted.program_needs boot image program imageSpared
  obtain ⟨n, start, room, fewer, missed⟩ := booted.process_needs boot image program imageSpared made
  have clear := stringSpared.clear booted.start start aligned.2 room
  refine ⟨clear₁.mono le_rfl (by omega), clear.mono le_rfl (by omega), by omega, ?_⟩
  by_contra inside
  have here := missed ((last - bump) / 4096) (by omega)
  rw [finish, show bump + 4096 * ((last - bump) / 4096) = last by omega] at here
  exact here rfl

end process

end MetalToApp

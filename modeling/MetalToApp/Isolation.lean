import MetalToApp.Userspace

namespace MetalToApp
open ByteMemory Paging

/-- The kernel's states while processes are made, with the tasks made so far. -/
inductive ProcessReach {K : KernelImage} (F : FreeMemory K) : Kernel → List Nat → Prop
  | boot {s s' space} : createKernelAddressSpace K s = .ok (space, s') →
      ProcessReach F (initFrameAllocator s' F.fmStart F.fmEnd) []
  | make {s s' tasks elfStart elfEnd commandLine task} : ProcessReach F s tasks → LowImage K s elfStart →
      ShortCommandLine K s elfStart elfEnd commandLine →
      makeUserspaceProcess K s elfStart elfEnd commandLine = .ok (task, s') → ProcessReach F s' (task :: tasks)

/-- The root table that the processor walks for a task. -/
def TaskSpace (s : Kernel) (task cr3 : Nat) : Prop := s.load64 (task + Task.addressSpace) = .ok cr3

/-- The root tables in use: the kernel's own and those of the tasks. -/
def SpaceInUse (K : KernelImage) (s : Kernel) (tasks : List Nat) (cr3 : Nat) : Prop :=
  cr3 = K.kernelPml4 ∨ ∃ task ∈ tasks, TaskSpace s task cr3

/-- No process can reach another's memory, nor the kernel's bookkeeping. -/
structure Isolated (K : KernelImage) (s : Kernel) (tasks : List Nat) : Prop where
  space : ∀ task ∈ tasks, ∃ cr3, TaskSpace s task cr3
  apart : tasks.Pairwise fun task task' => ∀ cr3 cr3', TaskSpace s task cr3 → TaskSpace s task' cr3' →
    ∀ f, UserPage s.mem cr3 f → ¬UserPage s.mem cr3' f
  tables : ∀ cr3, SpaceInUse K s tasks cr3 → ∀ f, UserPage s.mem cr3 f →
    ∀ cr3', SpaceInUse K s tasks cr3' → ∀ level, ¬TableAt s.mem cr3' level f
  structs : ∀ cr3, SpaceInUse K s tasks cr3 → ∀ f, UserPage s.mem cr3 f →
    ∀ task ∈ tasks, ∃ a, window task Task.size = .ok a ∧ ∀ o < Task.size, (a + o) / 4096 * 4096 ≠ f
  free : ∀ cr3, SpaceInUse K s tasks cr3 → ∀ f, UserPage s.mem cr3 f → ∀ A free, FreeFrames A s free → f ∉ free

section upper
variable {K : KernelImage} {A : Arena} {s : Kernel} {g : Ghost} {r v level t : Nat}

/-- The shared kernel half has user permission in its upper tables, but none on its pages. -/
theorem walk_upper_supervisor (inv : KernelInv K A s g) (bare : g.Bare K) (space : g.spaces r) (high : 2 ^ 64 - 2 ^ 47 ≤ v)
    (bound : v < 2 ^ 64) {q : Translation} (found : walk s.mem r v = some q) : q.user = false := by
  rw [walk_upper inv space high bound] at found
  split at found
  · rename_i dynamic
    rw [dynamic_vacant inv bare dynamic.2] at found
    cases found
  · exact fixedWalk_supervisor found

/-- The tables that serve an address space are its own and those of the kernel half. -/
theorem tableAt_cases (inv : KernelInv K A s g) (space : g.spaces r) (table : TableAt s.mem r level t) :
    (∃ p, g.owner t = some (r, p) ∧ p.length + level = 3) ∨ upperTables K g level t := by
  have page := inv.page (inv.root_owner space)
  induction table with
  | root =>
    rw [frameOf_eq_self page.1 (by omega)]
    exact Or.inl ⟨[], inv.root_owner space, rfl⟩
  | @next level t i _ bound here small ih =>
    rcases ih with ⟨p, owned, depth⟩ | upper
    · by_cases kernel : p = [] ∧ 256 ≤ i
      · obtain ⟨rfl, high⟩ := kernel
        obtain rfl := inv.forest.owner_nil owned
        have two : level = 2 := by
          rw [List.length_nil] at depth
          omega
        rw [inv.upper space high bound] at here ⊢
        subst two
        refine Or.inr (kernelWord_table fun zero => ?_)
        rw [zero] at here
        cases here
      · have slot : (shape K g.spaces).slot r p i := ⟨bound, fun top => by
          rw [if_neg (inv.space_ne space)]
          exact Nat.lt_of_not_le fun high => kernel ⟨top, high⟩⟩
        have below : p.length < (shape K g.spaces).height r := by
          rw [height_of_space inv space]
          omega
        rcases inv.link owned below slot with zero | ⟨c, aligned, room, eq⟩
        · rw [zero] at here
          cases here
        · have child := childTable_entry aligned room eq
          rw [eq, frameOf_entry aligned room]
          exact Or.inl ⟨i :: p, inv.forest.child_owner owned below slot child, by rw [List.length_cons]; omega⟩
    · exact Or.inr (upperTables_closed inv upper bound here small)

/-- No table of any address space is a page of data. -/
theorem not_data_of_tableAt (inv : KernelInv K A s g) (space : g.spaces r) (table : TableAt s.mem r level t) : ¬g.Data A t := by
  intro data
  have owned {x} (place : g.owner t = some x) : False := by
    cases data.notTable.symm.trans place
  have image (member : t ∈ [K.kernelPml4, K.kernelPagedir, K.kernelPagedirtable, K.kernelLinear]) : False :=
    inv.image_not_frame member data.frame
  rcases tableAt_cases inv space table with ⟨p, place, -⟩ | upper
  · exact owned place
  · match level with
    | 0 =>
      obtain ⟨_, _, place⟩ := upper
      exact owned place
    | 1 =>
      rcases upper with rfl | ⟨_, place⟩
      · exact image (by simp)
      · exact owned place
    | 2 =>
      rcases upper with rfl | rfl
      · exact image (by simp)
      · exact image (by simp)

end upper

/-- The page frames that an address space maps in its lower half. -/
def Maps (m : Memory) (r f : Nat) : Prop := ∃ v < 2 ^ 47, ∃ user, pageAt m r (pageKey v) = some (f, user)

/-- The bookkeeping beside the tasks: the frame of each task struct, and the root of its space. -/
structure ProcessInv (K : KernelImage) (A : Arena) (s : Kernel) (g : Ghost) (processes : List (Nat × Nat)) : Prop where
  kernel : KernelInv K A s g
  bare : g.Bare K
  spaces : ∀ r, g.spaces r ↔ r = K.kernelPml4 ∨ r ∈ processes.map Prod.snd
  nodup : (processes.map Prod.snd).Nodup
  task : ∀ q ∈ processes, g.Data A q.1 ∧ read64 s.mem (q.1 + Task.addressSpace) = q.2
  mapped : ∀ {r f}, g.spaces r → Maps s.mem r f → g.Data A f ∧ f ∉ processes.map Prod.fst
  once : ∀ {r r' f}, g.spaces r → g.spaces r' → Maps s.mem r f → Maps s.mem r' f → r = r'

namespace ProcessInv
variable {K : KernelImage} {A : Arena} {s s' : Kernel} {g g' : Ghost} {processes : List (Nat × Nat)} {c d n r f : Nat}

theorem boot (inv : KernelInv K A s (Ghost.boot K A)) : ProcessInv K A s (Ghost.boot K A) [] := by
  have nothing {r f} (space : r = K.kernelPml4) (maps : Maps s.mem r f) : False := by
    obtain ⟨v, low, user, found⟩ := maps
    rw [space, boot_vacant inv (index_three_of_lower low)] at found
    cases found
  refine ⟨inv, fun {t p} place => (owner_boot.mp place).2.2, fun r => ?_, .nil, nofun, ?_, ?_⟩
  · exact (or_iff_left (List.not_mem_nil)).symm
  · exact fun space maps => (nothing space maps).elim
  · exact fun space _ maps _ => (nothing space maps).elim

/-- A further process has its own frames for everything. -/
theorem made (h : ProcessInv K A s g processes) (made : Made K A s g s' g' c d n) :
    ProcessInv K A s' g' ((d, c) :: processes) := by
  have old {r f} (space : g.spaces r) : Maps s'.mem r f ↔ Maps s.mem r f :=
    exists_congr fun v => and_congr_right fun low => exists_congr fun user => by rw [made.pages space v low]
  have new {f} (maps : Maps s'.mem c f) : f ∈ g.free ∧ g'.Data A f ∧ f ≠ d := by
    obtain ⟨v, low, user, found⟩ := maps
    exact made.mapped v low f user found
  refine ⟨made.inv, fun {t p} place => ?_, fun r => ?_, ?_, ?_, fun {r f} space maps => ?_, fun {r r' f} space space' maps maps' => ?_⟩
  · rcases made.trees place with rfl | owned
    · exact absurd rfl (made.inv.space_ne ((made.spaces _).mpr (Or.inl rfl)))
    · exact h.bare owned
  · rw [made.spaces, h.spaces, List.map_cons, List.mem_cons, or_left_comm]
  · rw [List.map_cons]
    exact List.nodup_cons.mpr ⟨fun member => made.fresh ((h.spaces c).mpr (Or.inr member)), h.nodup⟩
  · refine List.forall_mem_cons.mpr ⟨⟨made.task.2, made.space⟩, fun q member => ?_⟩
    obtain ⟨data, field⟩ := h.task q member
    obtain ⟨data', same⟩ := made.data data
    have kept : read64 s'.mem (q.1 + Task.addressSpace) = read64 s.mem (q.1 + Task.addressSpace) :=
      same.readLE (by simp only [Task.addressSpace]; omega)
    exact ⟨data', kept.trans field⟩
  · rw [List.map_cons, List.mem_cons, not_or]
    rcases (made.spaces r).mp space with rfl | space
    · obtain ⟨free, data, different⟩ := new maps
      refine ⟨data, different, fun member => ?_⟩
      obtain ⟨q, known, rfl⟩ := List.mem_map.mp member
      exact (h.task q known).1.live free
    · obtain ⟨data, others⟩ := h.mapped space ((old space).mp maps)
      refine ⟨(made.data data).1, ?_, others⟩
      rintro rfl
      exact data.live made.task.1
  · rcases (made.spaces r).mp space with rfl | space
    · rcases (made.spaces r').mp space' with rfl | space'
      · rfl
      · exact absurd (new maps).1 (h.mapped space' ((old space').mp maps')).1.live
    · rcases (made.spaces r').mp space' with rfl | space'
      · exact absurd (new maps').1 (h.mapped space ((old space).mp maps)).1.live
      · exact h.once space space' ((old space).mp maps) ((old space').mp maps')

theorem page_of_offset {c v : Nat} (aligned : c % 4096 = 0) : (c + v % 4096) / 4096 * 4096 = c := by
  omega

/-- What user code can reach is mapped in the lower half. -/
theorem maps_of_userPage (h : ProcessInv K A s g processes) (space : g.spaces r) (reached : UserPage s.mem r f) :
    Maps s.mem r f := by
  obtain ⟨v, q, found, user, page⟩ := reached
  by_cases low : v < 2 ^ 47
  · have walked := found
    rw [walk_lower h.kernel space low] at walked
    obtain ⟨⟨c, u⟩, mapped, eq⟩ := Option.map_eq_some_iff.mp walked
    have aligned := (h.mapped space ⟨v, low, u, mapped⟩).1.frame.aligned
    refine ⟨v, low, u, ?_⟩
    rw [mapped, ← page, ← eq, page_of_offset aligned]
  · by_cases high : 2 ^ 64 - 2 ^ 47 ≤ v ∧ v < 2 ^ 64
    · rw [walk_upper_supervisor h.kernel h.bare space high.1 high.2 found] at user
      cases user
    · rw [walk, if_neg fun canonical => canonical.elim low high] at found
      cases found

/-- The tasks' pointers lead to their spaces. -/
theorem taskSpace_iff (h : ProcessInv K A s g processes) {q : Nat × Nat} (member : q ∈ processes) {cr3 : Nat} :
    TaskSpace s (linearAddressToPtr q.1) cr3 ↔ cr3 = q.2 := by
  obtain ⟨data, field⟩ := h.task q member
  have room := data.frame.room
  have load : s.load64 (linearAddressToPtr q.1 + Task.addressSpace) = .ok q.2 := by
    rw [← field]
    exact s.load_linear (by simp only [Task.addressSpace]; omega) (by omega)
  rw [TaskSpace, load]
  exact ⟨fun same => (Except.ok.inj same).symm, fun same => same ▸ rfl⟩

theorem space_of_inUse (h : ProcessInv K A s g processes) {cr3 : Nat}
    (inUse : SpaceInUse K s (processes.map fun q => linearAddressToPtr q.1) cr3) : g.spaces cr3 := by
  rcases inUse with rfl | ⟨task, member, space⟩
  · exact h.kernel.kernelRoot
  · obtain ⟨q, known, rfl⟩ := List.mem_map.mp member
    rw [(h.taskSpace_iff known).mp space]
    exact (h.spaces _).mpr (Or.inr (List.mem_map_of_mem known))

theorem isolated (h : ProcessInv K A s g processes) : Isolated K s (processes.map fun q => linearAddressToPtr q.1) where
  space := by
    rintro task member
    obtain ⟨q, known, rfl⟩ := List.mem_map.mp member
    exact ⟨q.2, (h.taskSpace_iff known).mpr rfl⟩
  apart := by
    have spaces (q) (known : q ∈ processes) : g.spaces q.2 := (h.spaces _).mpr (Or.inr (List.mem_map_of_mem known))
    have different : processes.Pairwise fun q q' => q.2 ≠ q'.2 := List.pairwise_map.mp h.nodup
    rw [List.pairwise_map]
    refine different.imp_of_mem fun {q q'} known known' differ cr3 cr3' space space' f reached reached' => differ ?_
    rw [h.taskSpace_iff known] at space
    rw [h.taskSpace_iff known'] at space'
    subst space space'
    exact h.once (spaces q known) (spaces q' known') (h.maps_of_userPage (spaces q known) reached)
      (h.maps_of_userPage (spaces q' known') reached')
  tables := by
    intro cr3 inUse f reached cr3' inUse' level table
    have space := h.space_of_inUse inUse
    exact not_data_of_tableAt h.kernel (h.space_of_inUse inUse') table (h.mapped space (h.maps_of_userPage space reached)).1
  structs := by
    intro cr3 inUse f reached task member
    have space := h.space_of_inUse inUse
    have others := (h.mapped space (h.maps_of_userPage space reached)).2
    obtain ⟨q, known, rfl⟩ := List.mem_map.mp member
    have frame := (h.task q known).1.frame
    have room := frame.room
    have aligned := frame.aligned
    refine ⟨q.1, window_linear_zero (by simp only [Task.size]; omega) (by omega), fun o inside same => ?_⟩
    have here : f = q.1 := by
      simp only [Task.size] at inside
      omega
    exact others (here ▸ List.mem_map_of_mem known)
  free := by
    intro cr3 inUse f reached A' free stack
    have space := h.space_of_inUse inUse
    rw [stack.unique h.kernel.stack]
    exact (h.mapped space (h.maps_of_userPage space reached)).1.live

end ProcessInv

section reach
variable {K : KernelImage} {A : Arena} {F : FreeMemory K} {s s' : Kernel} {g : Ghost} {tasks : List Nat}

/-- The stages of a run of `make_userspace_process` that has returned: a root table `c`, and the
frames `f` of the stack and `d` of the task struct. -/
structure Completed (K : KernelImage) (A : Arena) (s : Kernel) (g : Ghost) (elfStart elfEnd task : Nat) (s' : Kernel) where
  {c f d entry n k : Nat}
  {rest : List Nat}
  {s₁ s₂ s₃ : Kernel}
  {g₂ g₃ : Ghost}
  {pages : Pages}
  created : Created K A s g s₁ c rest
  program : loadProgram K s elfStart elfEnd = .ok (linearAddressToPtr c, entry, s₂)
  loaded : Loaded K A s₁ ({ g with free := rest }.withSpace c) s₂ g₂ c n pages
  prepare : prepareTask s₂ (linearAddressToPtr c) = .ok (f, task, s₃)
  atTask : task = linearAddressToPtr d
  stack : Mapped K A s₂ g₂ s' g₃ c (2 + k) (pageKey stackPage) f
  fresh : d ∈ g₂.free.take (2 + k)
  data : g₃.Data A d
  different : f ≠ d
  field : read64 s'.mem (d + Task.addressSpace) = c
  flags : read64 s'.mem (d + Task.taskFlags) = taskFlagMaskCanExecute

theorem makeUserspaceProcess_completed {elfStart elfEnd commandLine task : Nat} (inv : KernelInv K A s g)
    (low : LowImage K s elfStart) (short : ShortCommandLine K s elfStart elfEnd commandLine)
    (run : makeUserspaceProcess K s elfStart elfEnd commandLine = .ok (task, s')) :
    Nonempty (Completed K A s g elfStart elfEnd task s') := by
  rw [makeUserspaceProcess] at run
  obtain ⟨⟨root, entry, s₂⟩, program, run⟩ := Outcome.bind_eq_ok.mp run
  obtain ⟨⟨stack, ret, s₃⟩, prepare, run⟩ := Outcome.bind_eq_ok.mp run
  obtain ⟨s₄, start, done⟩ := Outcome.bind_eq_ok.mp run
  cases done
  have shortHere := short root entry s₂ stack task s₃ program prepare
  have stages := program
  rw [loadProgram] at stages
  obtain ⟨⟨root', s₁⟩, create, stages⟩ := Outcome.bind_eq_ok.mp stages
  obtain ⟨⟨entry', s₂'⟩, load, done⟩ := Outcome.bind_eq_ok.mp stages
  cases done
  obtain ⟨c, rest, rfl, created⟩ := createAddressSpace_run inv create
  obtain ⟨g₂, n, pages, loaded⟩ := loadElf_run created.inv (Or.inl rfl) (low _ _ create) load
  have space₂ : g₂.spaces c := loaded.spaces ▸ Or.inl rfl
  have page := loaded.inv.page (loaded.inv.root_owner space₂)
  obtain ⟨f, d, t, g₃, prepared, mapped, fresh, data, different⟩ :=
    prepareTask_mapped loaded.inv space₂ (enough_of_prepareTask loaded.inv space₂ prepare)
  cases prepared.symm.trans prepare
  obtain ⟨m, top, outside, rfl⟩ := startTask_run page.2 mapped.data.frame data.frame shortHere start
  exact ⟨⟨created, program, loaded, prepare, rfl, mapped.start space₂ fresh data top entry outside, fresh, data, different,
    makeTask_space _ page.2.1 (by omega), makeTask_flags⟩⟩

theorem Completed.made {elfStart elfEnd task : Nat} (done : Completed K A s g elfStart elfEnd task s') (inv : KernelInv K A s g) :
    Made K A s g s' done.g₃ done.c done.d (1 + (done.n + (2 + done.k))) :=
  done.created.made inv done.loaded done.stack done.fresh done.data done.different done.field

theorem makeUserspaceProcess_made {elfStart elfEnd commandLine task : Nat} (inv : KernelInv K A s g)
    (low : LowImage K s elfStart) (short : ShortCommandLine K s elfStart elfEnd commandLine)
    (run : makeUserspaceProcess K s elfStart elfEnd commandLine = .ok (task, s')) :
    ∃ g' c d n, task = linearAddressToPtr d ∧ Made K A s g s' g' c d n := by
  obtain ⟨done⟩ := makeUserspaceProcess_completed inv low short run
  exact ⟨done.g₃, done.c, done.d, _, done.atTask, done.made inv⟩

theorem ProcessReach.inv (reach : ProcessReach F s tasks) :
    ∃ g processes, tasks = processes.map (fun q => linearAddressToPtr q.1) ∧ ProcessInv K F.arena s g processes := by
  induction reach with
  | @boot s s' space run =>
    obtain ⟨m, made, tables, -⟩ := createKernelAddressSpace_eq K s
    cases made.symm.trans run
    have inv := KernelInv.boot (A := F.arena) (s := { s with mem := m }) tables F.arena_above rfl rfl
    exact ⟨_, [], rfl, .boot inv⟩
  | make _ low short run ih =>
    obtain ⟨g, processes, rfl, h⟩ := ih
    obtain ⟨g', c, d, n, rfl, made⟩ := makeUserspaceProcess_made h.kernel low short run
    exact ⟨g', (d, c) :: processes, rfl, h.made made⟩

/-- From boot on, whatever programs are started, the processes are isolated from each other.
The segments of the programs lie in the lower half, and their command lines are shorter than
a page. -/
theorem processes_isolated (reach : ProcessReach F s tasks) : Isolated K s tasks := by
  obtain ⟨g, processes, rfl, h⟩ := reach.inv
  exact h.isolated

end reach

theorem sharedPageFile_bootable : Bootable sharedPageFile 0x1900000 0xb1 0x1a00000 0 :=
  ⟨sharedPageFile_wellFormed, ⟨nofun, by decide⟩, by decide, by decide⟩

/-- The small kernel before its first process, with a file above its free memory. -/
theorem smallProcessBoot : ∃ s, ProcessReach smallMemory s [] ∧
    KernelInv smallImage smallMemory.arena s (Ghost.boot smallImage smallMemory.arena) ∧
    ∀ x, 0x1800000 ≤ x → s.mem x = sharedPageFile x := by
  obtain ⟨m, made, tables, kept⟩ := createKernelAddressSpace_eq smallImage ⟨sharedPageFile, 0, 0, 0⟩
  refine ⟨_, .boot made, .boot tables smallMemory.arena_above rfl rfl, fun x high => kept x ?_⟩
  show 0x1400000 ≤ x
  omega

theorem smallMemory_free : (Ghost.boot smallImage smallMemory.arena).free.length = 1024 := by
  rw [Ghost.boot_free, frameRange_length]
  rfl

/-- The small kernel starts a program whose image lies above its free memory. -/
theorem sharedPageFile_runs {s : Kernel} {g : Ghost} (inv : KernelInv smallImage smallMemory.arena s g)
    (file : ∀ x, 0x1800000 ≤ x → s.mem x = sharedPageFile x) (enough : 11 ≤ g.free.length) :
    LowImage smallImage s (linearAddressToPtr 0x1900000) ∧
    ShortCommandLine smallImage s (linearAddressToPtr 0x1900000) (linearAddressToPtr 0x19000b1) (linearAddressToPtr 0x1a00000) ∧
    ∃ s' g' c d,
      makeUserspaceProcess smallImage s (linearAddressToPtr 0x1900000) (linearAddressToPtr 0x19000b1)
        (linearAddressToPtr 0x1a00000) = .ok (linearAddressToPtr d, s') ∧
      Made smallImage smallMemory.arena s g s' g' c d 11 ∧ ∀ x, 0x1800000 ≤ x → s'.mem x = sharedPageFile x := by
  have above {n f x : Nat} (member : f ∈ g.free.take n) (high : 0x1800000 ≤ x) : x < f ∨ f + 4096 ≤ x := by
    have upper := (inv.stack.frame (List.mem_of_mem_take member)).upper
    have last : smallMemory.arena.last = 0x1800000 := rfl
    omega
  have image : Agree sharedPageFile s.mem 0x1900000 0xb1 := fun k _ => file _ (by omega)
  have string : Agree sharedPageFile s.mem 0x1a00000 1 := fun k _ => file _ (by omega)
  have frames : processFrames s.mem 0x1900000 = 11 := by
    rw [processFrames_congr sharedPageFile_wellFormed image]
    decide
  obtain ⟨low, short, root, entry, s₂, s', g', c, d, -, -, run, made, -⟩ :=
    makeUserspaceProcess_runs inv (sharedPageFile_bootable.congr image string) (fun f member k _ => above member (by omega))
      (fun f member k _ => above member (by omega)) (by omega) (linearAddressToPtr 0x19000b1)
  rw [frames] at made
  refine ⟨low, short, s', g', c, d, run, made, fun x high => ?_⟩
  rw [made.outside x fun f member => above member high, file x high]

theorem processes_isolated_two : ∃ s task task', ProcessReach smallMemory s [task', task] ∧
    Isolated smallImage s [task', task] := by
  obtain ⟨s, boot, inv, file⟩ := smallProcessBoot
  have free := smallMemory_free
  obtain ⟨low, short, s₁, g₁, c, d, run, made, file₁⟩ := sharedPageFile_runs inv file (by omega)
  have left : g₁.free.length = 1024 - 11 := by rw [made.rest, List.length_drop, free]
  obtain ⟨low₁, short₁, s₂, g₂, c₁, d₁, run₁, -⟩ := sharedPageFile_runs made.inv file₁ (by omega)
  have reach := (boot.make low short run).make low₁ short₁ run₁
  exact ⟨s₂, _, _, reach, processes_isolated reach⟩

end MetalToApp

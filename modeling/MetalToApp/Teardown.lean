import MetalToApp.Isolation
import MetalToApp.Library.Traced

namespace MetalToApp
open ByteMemory Paging

/-- `frame_dealloc`; the address it puts on the freelist is its event. -/
def pushFrame (s : Kernel) (frameAddress : Nat) : Traced Nat Halt Kernel := ([frameAddress], frameDealloc s frameAddress)

/-- `destroy_address_space` has an empty body. -/
def destroyAddressSpace (s : Kernel) (_addressSpace : Nat) : Kernel := s

def cleanup (s : Kernel) (cleanupTask : Nat) : Traced Nat Halt Kernel := do
  let a ← Traced.silent (s.load64 (cleanupTask + Task.addressSpace))
  let addressSpace := linearAddressToPtr a
  let (stack, s) ← Traced.silent (munmap s addressSpace 0x40000000)
  let s := destroyAddressSpace s addressSpace
  let s ← pushFrame s stack
  let task ← Traced.silent (pointerToLinearAddress cleanupTask)
  pushFrame s task

/-- Further processes are created between two states. -/
inductive Creates (K : KernelImage) (s : Kernel) : Kernel → Prop
  | refl : Creates K s s
  | make {t t' elfStart elfEnd commandLine task} : Creates K s t → LowImage K t elfStart →
      ShortCommandLine K t elfStart elfEnd commandLine →
      makeUserspaceProcess K t elfStart elfEnd commandLine = .ok (task, t') → Creates K s t'

/-- The allocator after a teardown, from the states before and after the creation of the
process, before the teardown and after it: what was pushed are frames of the process, among
them those of its stack and its task struct, each once, and as many frames are free as
before the process, but for those of the processes created in between. -/
structure Restored (A : Arena) (s₀ s₁ s₂ s₃ : Kernel) (free₀ free₁ free₂ free₃ pushed : List Nat) (stack task : Nat) : Prop where
  before : FreeFrames A s₀ free₀
  created : FreeFrames A s₁ free₁
  between : FreeFrames A s₂ free₂
  after : FreeFrames A s₃ free₃
  own : ∀ f ∈ pushed, f ∈ free₀ ∧ f ∉ free₁ ∧ f ∉ free₂
  frames : stack ∈ pushed ∧ ∃ d ∈ pushed, task = linearAddressToPtr d
  once : pushed.Nodup
  apart : ∀ f ∈ free₃, f ∈ free₂ ∨ f ∈ pushed
  count : free₃.length + free₁.length = free₀.length + free₂.length

/-- `cleanup` returns and undoes the creation of the process in the allocator. -/
def TeardownRestores (A : Arena) (s₀ s₁ s₂ : Kernel) (stack task : Nat) : Prop :=
  ∃ s₃ free₀ free₁ free₂ free₃, (cleanup s₂ task).result = .ok s₃ ∧
    Restored A s₀ s₁ s₂ s₃ free₀ free₁ free₂ free₃ (cleanup s₂ task).events stack task

section teardown
variable {K : KernelImage} {A : Arena} {s t : Kernel} {g : Ghost} {c d : Nat}

/-- `cleanup` gives back what is mapped at `0x40000000`, and the frame of the task struct. -/
theorem cleanup_events (inv : KernelInv K A s g) (space : g.spaces c) (data : g.Data A d)
    (field : read64 s.mem (d + Task.addressSpace) = c) (run : (cleanup s (linearAddressToPtr d)).result = .ok t) :
    (cleanup s (linearAddressToPtr d)).events = [mappedFrame (pageAt s.mem c (pageKey 0x40000000)), d] := by
  have room := data.frame.room
  have low : index 3 0x40000000 < 256 := by decide
  have atSpace : s.load64 (linearAddressToPtr d + Task.addressSpace) = .ok c := by
    rw [Kernel.load64, Kernel.load_linear _ (by simp only [Task.addressSpace]; omega) (by omega)]
    exact congrArg Except.ok field
  have atTask := pointerToLinearAddress_linear data.frame.pos (show d < 2 ^ 39 by omega)
  simp only [cleanup, atSpace, Traced.silent_ok_bind, destroyAddressSpace] at run ⊢
  rw [Traced.bind_result] at run
  obtain ⟨⟨stack, s₁⟩, unmapped, run⟩ := Outcome.bind_eq_ok.mp run
  rw [Traced.silent_result] at unmapped
  obtain ⟨s₁', g', again, -⟩ := munmap_remapped inv space low (enough_of_munmap inv space low unmapped)
  cases again.symm.trans unmapped
  rw [again, Traced.silent_ok_bind]
  simp only at run ⊢
  rw [Traced.bind_result] at run
  obtain ⟨s₂, pushed, run⟩ := Outcome.bind_eq_ok.mp run
  rw [Traced.bind_events_ok pushed, atTask, Traced.silent_ok_bind]
  rfl

/-- Creating other processes leaves a process's pages and its frames alone. -/
theorem Creates.kept (inv : KernelInv K A s g) (space : g.spaces c) (creates : Creates K s t) :
    ∃ g', KernelInv K A t g' ∧ g'.spaces c ∧ (∀ v < 2 ^ 47, pageAt t.mem c (pageKey v) = pageAt s.mem c (pageKey v)) ∧
      ∀ f, g.Data A f → g'.Data A f ∧ Agree s.mem t.mem f 4096 := by
  induction creates with
  | refl => exact ⟨g, inv, space, fun _ _ => rfl, fun f data => ⟨data, fun _ _ => rfl⟩⟩
  | make _ low short run ih =>
    obtain ⟨g₁, inv₁, space₁, pages, kept⟩ := ih
    obtain ⟨g₂, c', d', n, -, made⟩ := makeUserspaceProcess_made inv₁ low short run
    refine ⟨g₂, made.inv, (made.spaces c).mpr (Or.inr space₁), fun v below => ?_, fun f data => ?_⟩
    · rw [made.pages space₁ v below, pages v below]
    · obtain ⟨data₁, same₁⟩ := kept f data
      obtain ⟨data₂, same₂⟩ := made.data data₁
      exact ⟨data₂, fun o inside => (same₂ o inside).trans (same₁ o inside)⟩

/-- The stack's frame is mapped on the page of the stack only. -/
theorem Completed.stack_page {elfStart elfEnd task v q : Nat} {user : Bool} (done : Completed K A s g elfStart elfEnd task t)
    (below : v < 2 ^ 47) (elsewhere : v / 4096 ≠ stackPage / 4096) (found : pageAt t.mem done.c (pageKey v) = some (q, user)) :
    q ≠ done.f := by
  have space₂ : done.g₂.spaces done.c := done.loaded.spaces ▸ Or.inl rfl
  have key := leafKey_of_space done.loaded.inv space₂ (index_three_of_lower below)
  have before : pageAt t.mem done.c (pageKey v) = pageAt done.s₂.mem done.c (pageKey v) :=
    done.stack.others key fun _ same => elsewhere ((lower_page below (by decide)).mp same)
  rw [before] at found
  obtain ⟨-, data⟩ := done.created.page_origin done.loaded below found
  rintro rfl
  exact data.live (List.mem_of_mem_take done.stack.fresh)

/-- The frame of the stack is not among what `cleanup` gives back. -/
theorem Completed.stack_not_pushed {elfStart elfEnd task : Nat} {s₂ s₃ : Kernel}
    (done : Completed K A s g elfStart elfEnd task t) (inv : KernelInv K A s g) (others : Creates K t s₂)
    (run : (cleanup s₂ task).result = .ok s₃) : done.f ∉ (cleanup s₂ task).events := by
  have made := done.made inv
  obtain ⟨g₂, inv₂, space₂, pages, kept⟩ := others.kept made.inv ((made.spaces done.c).mpr (Or.inl rfl))
  obtain ⟨data, same⟩ := kept done.d done.data
  have field : read64 s₂.mem (done.d + Task.addressSpace) = done.c :=
    (same.readLE (by decide)).trans done.field
  have atTask : cleanup s₂ task = cleanup s₂ (linearAddressToPtr done.d) := congrArg (cleanup s₂) done.atTask
  rw [atTask] at run
  rw [atTask, cleanup_events inv₂ space₂ data field run, pages _ (by decide), List.mem_cons, List.mem_singleton]
  rintro (mapped | task)
  · cases found : pageAt t.mem done.c (pageKey 0x40000000) with
    | none =>
      rw [found] at mapped
      exact absurd mapped done.stack.data.frame.pos.ne'
    | some q =>
      rw [found] at mapped
      exact done.stack_page (by decide) (by decide) found mapped.symm
  · exact done.different task

/-- With the frame of its stack a process never gets its frames back to the allocator. -/
theorem not_teardownRestores {s₀ s₁ s₂ sₚ sₜ : Kernel} {elfStart elfEnd commandLine root entry stack task : Nat}
    (inv : KernelInv K A s₀ g) (low : LowImage K s₀ elfStart) (short : ShortCommandLine K s₀ elfStart elfEnd commandLine)
    (run : makeUserspaceProcess K s₀ elfStart elfEnd commandLine = .ok (task, s₁))
    (program : loadProgram K s₀ elfStart elfEnd = .ok (root, entry, sₚ)) (prepare : prepareTask sₚ root = .ok (stack, task, sₜ))
    (others : Creates K s₁ s₂) : ¬TeardownRestores A s₀ s₁ s₂ stack task := by
  rintro ⟨s₃, free₀, free₁, free₂, free₃, returned, restored⟩
  obtain ⟨done⟩ := makeUserspaceProcess_completed inv low short run
  cases done.program.symm.trans program
  cases done.prepare.symm.trans prepare
  exact done.stack_not_pushed inv others returned restored.frames.1

/-- From boot on, whatever processes are created before and after it, the teardown of a process
does not undo its creation: the frame of its stack is never given back. The segments of its image
lie in the lower half, and its command line is shorter than a page. -/
theorem cleanup_never_restores {F : FreeMemory K} {tasks : List Nat} {s₀ s₁ s₂ sₚ sₜ : Kernel}
    {elfStart elfEnd commandLine root entry stack task : Nat}
    (reach : ProcessReach F s₀ tasks) (low : LowImage K s₀ elfStart) (short : ShortCommandLine K s₀ elfStart elfEnd commandLine)
    (run : makeUserspaceProcess K s₀ elfStart elfEnd commandLine = .ok (task, s₁))
    (program : loadProgram K s₀ elfStart elfEnd = .ok (root, entry, sₚ)) (prepare : prepareTask sₚ root = .ok (stack, task, sₜ))
    (others : Creates K s₁ s₂) : ¬TeardownRestores F.arena s₀ s₁ s₂ stack task := by
  obtain ⟨g, processes, -, inv⟩ := reach.inv
  exact not_teardownRestores inv.kernel low short run program prepare others

end teardown

/-- The small kernel makes a process. -/
theorem smallProcess : ∃ s₀ s₁ sₚ sₜ root entry stack task, ∃ g : Ghost, ProcessReach smallMemory s₀ [] ∧
    KernelInv smallImage smallMemory.arena s₀ g ∧ LowImage smallImage s₀ (linearAddressToPtr 0x1900000) ∧
    ShortCommandLine smallImage s₀ (linearAddressToPtr 0x1900000) (linearAddressToPtr 0x19000b1) (linearAddressToPtr 0x1a00000) ∧
    makeUserspaceProcess smallImage s₀ (linearAddressToPtr 0x1900000) (linearAddressToPtr 0x19000b1) (linearAddressToPtr 0x1a00000) =
      .ok (task, s₁) ∧
    loadProgram smallImage s₀ (linearAddressToPtr 0x1900000) (linearAddressToPtr 0x19000b1) = .ok (root, entry, sₚ) ∧
    prepareTask sₚ root = .ok (stack, task, sₜ) := by
  obtain ⟨s, reach, inv, file⟩ := smallProcessBoot
  have free := smallMemory_free
  obtain ⟨low, short, s', g', c, d, run, -⟩ := sharedPageFile_runs inv file (by omega)
  obtain ⟨done⟩ := makeUserspaceProcess_completed inv low short run
  exact ⟨s, s', done.s₂, done.s₃, _, done.entry, done.f, _, _, reach, inv, low, short, run, done.program, done.prepare⟩

theorem cleanup_never_restores_small : ∃ s₀ s₁ stack task, ProcessReach smallMemory s₀ [] ∧
    ¬TeardownRestores smallMemory.arena s₀ s₁ s₁ stack task := by
  obtain ⟨s₀, s₁, sₚ, sₜ, root, entry, stack, task, g, reach, -, low, short, run, program, prepare⟩ := smallProcess
  exact ⟨s₀, s₁, stack, task, reach, cleanup_never_restores reach low short run program prepare .refl⟩

/-- The first process of the small kernel, torn down at once. -/
theorem smallProcess_not_restored : ∃ s₀ s₁ sₚ sₜ root entry stack task, ProcessReach smallMemory s₀ [] ∧
    makeUserspaceProcess smallImage s₀ (linearAddressToPtr 0x1900000) (linearAddressToPtr 0x19000b1) (linearAddressToPtr 0x1a00000) =
      .ok (task, s₁) ∧
    loadProgram smallImage s₀ (linearAddressToPtr 0x1900000) (linearAddressToPtr 0x19000b1) = .ok (root, entry, sₚ) ∧
    prepareTask sₚ root = .ok (stack, task, sₜ) ∧ ¬TeardownRestores smallMemory.arena s₀ s₁ s₁ stack task := by
  obtain ⟨s₀, s₁, sₚ, sₜ, root, entry, stack, task, g, reach, inv, low, short, run, program, prepare⟩ := smallProcess
  exact ⟨s₀, s₁, sₚ, sₜ, root, entry, stack, task, reach, run, program, prepare,
    not_teardownRestores inv low short run program prepare .refl⟩

end MetalToApp

import MetalToApp.KernelHalf
import MetalToApp.Task

namespace MetalToApp
open ByteMemory Paging

/-- The first two statements of `make_userspace_process`: the address space and the entry point. -/
def loadProgram (K : KernelImage) (s : Kernel) (elfStart elfEnd : Nat) : Outcome (Nat × Nat × Kernel) := do
  let (initrdAddressSpace, s) ← createAddressSpace K s
  let (entry, s) ← loadElf s elfStart elfEnd initrdAddressSpace
  return (initrdAddressSpace, entry, s)

def initrdStackAddr : Nat := 0x7FFFFFFFF000

/-- The frames for the stack and the task struct; the stack is mapped below `initrd_stack_addr`. -/
def prepareTask (s : Kernel) (initrdAddressSpace : Nat) : Outcome (Nat × Nat × Kernel) := do
  let (initrdStack, s) ← frameAllocZero s
  let (ret, s) ← frameAllocZero s
  let s ← mmap s initrdAddressSpace initrdStack (initrdStackAddr - defaultFrameSize) true
  return (initrdStack, linearAddressToPtr ret, s)

/-- The command line is copied to the bottom of the stack, and the task is made to start there. -/
def startTask (K : KernelImage) (s : Kernel) (initrdAddressSpace entry initrdStack ret commandLine : Nat) : Outcome Kernel := do
  let length ← s.strlen commandLine
  let argSize := length % 2 ^ 32
  let paddedArgSize := (argSize / 16 * 16 + 16) % 2 ^ 32
  let s ← s.memcpy (linearAddressToPtr (initrdStack + defaultFrameSize + (2 ^ 64 - paddedArgSize))) commandLine
    ((argSize + 1) % 2 ^ 32)
  let stack := (initrdStackAddr + (2 ^ 64 - paddedArgSize)) % 2 ^ 64
  let addressSpace ← pointerToLinearAddress initrdAddressSpace
  let task ← window ret Task.size
  return { s with mem := makeTask s.mem K.kernelPml4 task stack entry stack addressSpace true }

def makeUserspaceProcess (K : KernelImage) (s : Kernel) (elfStart elfEnd commandLine : Nat) : Outcome (Nat × Kernel) := do
  let (initrdAddressSpace, entry, s) ← loadProgram K s elfStart elfEnd
  let (initrdStack, ret, s) ← prepareTask s initrdAddressSpace
  let s ← startTask K s initrdAddressSpace entry initrdStack ret commandLine
  return (ret, s)

/-- Every header that `load_elf` comes to has its pages in the half below bit 47. -/
def LowImage (K : KernelImage) (s : Kernel) (elfStart : Nat) : Prop :=
  ∀ root s', createAddressSpace K s = .ok (root, s') →
    ∀ header, ComesTo s' elfStart root header → LowPages header.vaddr header.memsz

/-- The command line that is copied to the stack is shorter than a page. -/
def ShortCommandLine (K : KernelImage) (s : Kernel) (elfStart elfEnd commandLine : Nat) : Prop :=
  ∀ root entry s₁ stack task s₂, loadProgram K s elfStart elfEnd = .ok (root, entry, s₁) →
    prepareTask s₁ root = .ok (stack, task, s₂) → ∀ length, s₂.strlen commandLine = .ok length → length < 4096

section prepare
variable {K : KernelImage} {A : Arena} {s s' : Kernel} {g : Ghost} {r : Nat}

/-- The address at which the stack is mapped. -/
def stackPage : Nat := initrdStackAddr - defaultFrameSize

theorem stackPage_top : index 3 stackPage < 256 := by decide

/-- A frame for the stack and one for the task struct have been taken, and the stack is mapped. -/
theorem prepareTask_mapped (inv : KernelInv K A s g) (space : g.spaces r)
    (enough : 2 + missing g r (stations stackPage 3 []) ≤ g.free.length) :
    ∃ f d s' g', prepareTask s (linearAddressToPtr r) = .ok (f, linearAddressToPtr d, s') ∧
      Mapped K A s g s' g' r (2 + missing g r (stations stackPage 3 [])) (pageKey stackPage) f ∧
      d ∈ g.free.take (2 + missing g r (stations stackPage 3 [])) ∧ g'.Data A d ∧ f ≠ d := by
  obtain ⟨f, rest₁, free₁⟩ : ∃ f rest, g.free = f :: rest := List.exists_cons_of_length_pos (by omega)
  have length : g.free.length = rest₁.length + 1 := by rw [free₁, List.length_cons]
  obtain ⟨d, rest, rfl⟩ : ∃ d rest, rest₁ = d :: rest := List.exists_cons_of_length_pos (by omega)
  rw [List.length_cons] at length
  have data₁ := inv.data_of_free free₁
  obtain ⟨s₁, alloc₁, mem₁, inv₁⟩ := inv.frameAllocZero_take free₁
  have data₂ := inv₁.data_of_free rfl
  obtain ⟨s₂, alloc₂, mem₂, inv₂⟩ := inv₁.frameAllocZero_take rfl
  have outside₁ : ∀ x, x < f ∨ f + 4096 ≤ x → s₁.mem x = s.mem x := fun x away => by rw [mem₁, memset_outside 0 away]
  have outside₂ : ∀ x, x < d ∨ d + 4096 ≤ x → s₂.mem x = s₁.mem x := fun x away => by rw [mem₂, memset_outside 0 away]
  have built : Built K A s g s₂ { g with free := rest } r (1 + 1) :=
    (Built.take inv free₁ inv₁.stack outside₁).trans (Built.take inv₁ rfl inv₂.stack outside₂)
  have different : f ≠ d := by
    rintro rfl
    exact data₁.live List.mem_cons_self
  have data : Ghost.Data A { g with free := rest } f :=
    ⟨data₁.frame, fun member => data₁.live (List.mem_cons_of_mem _ member), data₁.notTable⟩
  have same (t : Nat) (x : Nat × List Nat) (place : g.owner t = some x) : Agree s.mem s₂.mem t 4096 := by
    have first := inv.agree_tables data₁.frame data₁.notTable outside₁ place
    have second := inv₁.agree_tables data₂.frame data₂.notTable outside₂ place
    exact fun o inside => (second o inside).trans (first o inside)
  obtain ⟨s', g', map, mapped, kept, -⟩ := built.map inv space stackPage_top rfl same (by simp [free₁]) data
    (show missing g r (stations stackPage 3 []) ≤ rest.length by omega)
  refine ⟨f, d, s', g', ?_, mapped, ?_, (kept d data₂).1, different⟩
  · simp only [prepareTask, alloc₁, alloc₂, Outcome.ok_bind]
    rw [show initrdStackAddr - defaultFrameSize = stackPage from rfl, map, Outcome.ok_bind, Outcome.pure_eq_ok]
  · exact List.take_subset_take_left _ (Nat.le_add_right 2 _) (by simp [free₁])

/-- It has found the frames it needs when it returns. -/
theorem enough_of_prepareTask (inv : KernelInv K A s g) (space : g.spaces r) {q : Nat × Nat × Kernel}
    (run : prepareTask s (linearAddressToPtr r) = .ok q) : 2 + missing g r (stations stackPage 3 []) ≤ g.free.length := by
  rw [prepareTask] at run
  obtain ⟨⟨f, t₁⟩, alloc₁, run⟩ := Outcome.bind_eq_ok.mp run
  obtain ⟨⟨d, t₂⟩, alloc₂, run⟩ := Outcome.bind_eq_ok.mp run
  obtain ⟨t₃, map, -⟩ := Outcome.bind_eq_ok.mp run
  cases free₁ : g.free with
  | nil =>
    rw [FreeFrames.frameAllocZero_nil (free₁ ▸ inv.stack)] at alloc₁
    cases alloc₁
  | cons f' rest₁ =>
    obtain ⟨s₁, first, -, inv₁⟩ := inv.frameAllocZero_take free₁
    cases first.symm.trans alloc₁
    cases rest₁ with
    | nil =>
      rw [FreeFrames.frameAllocZero_nil inv₁.stack] at alloc₂
      cases alloc₂
    | cons d' rest =>
      obtain ⟨s₂, second, -, inv₂⟩ := inv₁.frameAllocZero_take rfl
      cases second.symm.trans alloc₂
      have enough : missing g r (stations stackPage 3 []) ≤ rest.length := enough_of_mmap inv₂ space stackPage_top map
      simp only [List.length_cons]
      omega

/-- The command line and its NUL, rounded up to 16 bytes. -/
def paddedSize (length : Nat) : Nat := length / 16 * 16 + 16

/-- A command line shorter than a page goes to the end of the stack's frame. -/
theorem startTask_eq {f d commandLine length source : Nat} (entry : Nat) (page : 0 < r ∧ r + 4096 ≤ 2 ^ 39) (stack : A.Frame f)
    (task : A.Frame d) (atLength : s.strlen commandLine = .ok length) (short : length < 4096)
    (atSource : window commandLine (length + 1) = .ok source) :
    startTask K s (linearAddressToPtr r) entry f (linearAddressToPtr d) commandLine = .ok { s with
      mem := makeTask (memcpy s.mem (f + 4096 - paddedSize length) source (length + 1)) K.kernelPml4 d
        (initrdStackAddr - paddedSize length) entry (initrdStackAddr - paddedSize length) r true } := by
  have stackRoom := stack.room
  have taskRoom := task.room
  have argSize : length % 2 ^ 32 = length := Nat.mod_eq_of_lt (by omega)
  have padded : (length / 16 * 16 + 16) % 2 ^ 32 = paddedSize length := Nat.mod_eq_of_lt (by omega)
  have copied : (length + 1) % 2 ^ 32 = length + 1 := Nat.mod_eq_of_lt (by omega)
  have size : length < paddedSize length ∧ paddedSize length ≤ 4096 := by
    unfold paddedSize
    omega
  have target : linearAddressToPtr (f + defaultFrameSize + (2 ^ 64 - paddedSize length)) =
      linearAddressToPtr (f + 4096 - paddedSize length) := by
    unfold linearAddressToPtr defaultFrameSize
    omega
  have top : (initrdStackAddr + (2 ^ 64 - paddedSize length)) % 2 ^ 64 = initrdStackAddr - paddedSize length := by
    unfold initrdStackAddr
    omega
  have copy : s.memcpy (linearAddressToPtr (f + 4096 - paddedSize length)) commandLine (length + 1) =
      .ok { s with mem := memcpy s.mem (f + 4096 - paddedSize length) source (length + 1) } := by
    rw [Kernel.memcpy, if_neg (by omega), window_linear_zero (by omega) (by omega), Outcome.ok_bind, atSource, Outcome.ok_bind,
      Outcome.pure_eq_ok]
  have place : window (linearAddressToPtr d) Task.size = .ok d := window_linear_zero (by simp only [Task.size]; omega) (by omega)
  simp only [startTask, atLength, Outcome.ok_bind, argSize, padded, copied, target, copy, top, place,
    pointerToLinearAddress_linear page.1 (show r < 2 ^ 39 by omega), Outcome.pure_eq_ok]

/-- Only the stack's frame and the task struct's are written to start the task. -/
theorem startTask_run {f d entry commandLine : Nat} (page : 0 < r ∧ r + 4096 ≤ 2 ^ 39) (stack : A.Frame f) (task : A.Frame d)
    (short : ∀ length, s.strlen commandLine = .ok length → length < 4096)
    (run : startTask K s (linearAddressToPtr r) entry f (linearAddressToPtr d) commandLine = .ok s') :
    ∃ m top, (∀ x, x < f ∨ f + 4096 ≤ x → m x = s.mem x) ∧
      s' = { s with mem := makeTask m K.kernelPml4 d top entry top r true } := by
  have body := run
  rw [startTask] at body
  obtain ⟨length, atLength, body⟩ := Outcome.bind_eq_ok.mp body
  have bound := short length atLength
  obtain ⟨t, copy, -⟩ := Outcome.bind_eq_ok.mp body
  have copied : (length % 2 ^ 32 + 1) % 2 ^ 32 = length + 1 := by omega
  rw [copied, Kernel.memcpy, if_neg (by omega)] at copy
  obtain ⟨target, -, copy⟩ := Outcome.bind_eq_ok.mp copy
  obtain ⟨source, atSource, -⟩ := Outcome.bind_eq_ok.mp copy
  cases (startTask_eq entry page stack task atLength bound atSource).symm.trans run
  refine ⟨_, _, fun x away => memcpy_outside ?_, rfl⟩
  unfold paddedSize
  omega

end prepare

/-- What `make_userspace_process` has done when it returns: it has taken `n` frames, among
them the root table `c` of a new address space and the frame `d` of the task struct. -/
structure Made (K : KernelImage) (A : Arena) (s : Kernel) (g : Ghost) (s' : Kernel) (g' : Ghost) (c d n : Nat) : Prop where
  inv : KernelInv K A s' g'
  enough : n ≤ g.free.length
  rest : g'.free = g.free.drop n
  outside : ∀ x, (∀ f ∈ g.free.take n, x < f ∨ f + 4096 ≤ x) → s'.mem x = s.mem x
  spaces : ∀ r, g'.spaces r ↔ r = c ∨ g.spaces r
  fresh : ¬g.spaces c
  trees : ∀ {t r p}, g'.owner t = some (r, p) → r = c ∨ g.owner t = some (r, p)
  data : ∀ {f}, g.Data A f → g'.Data A f ∧ Agree s.mem s'.mem f 4096
  pages : ∀ {r}, g.spaces r → ∀ v < 2 ^ 47, pageAt s'.mem r (pageKey v) = pageAt s.mem r (pageKey v)
  mapped : ∀ v < 2 ^ 47, ∀ f user, pageAt s'.mem c (pageKey v) = some (f, user) → f ∈ g.free ∧ g'.Data A f ∧ f ≠ d
  task : d ∈ g.free ∧ g'.Data A d
  space : read64 s'.mem (d + Task.addressSpace) = c

section made
variable {K : KernelImage} {A : Arena} {s s₁ s₂ s₃ s' : Kernel} {g g₂ g₃ : Ghost} {c d f n k : Nat} {rest : List Nat} {pages : Pages}

theorem makeTask_space {m : Memory} {task stack entry arg space : Nat} (k : Nat) {userMode : Bool} (positive : 0 < space)
    (fits : space < 2 ^ 64) :
    read64 (makeTask m k task stack entry arg space userMode) (task + Task.addressSpace) = space := by
  rw [makeTask, read64_write64_self (by rwa [if_neg (by omega)]), if_neg (by omega)]

theorem makeTask_flags {m : Memory} {k task stack entry arg space : Nat} {userMode : Bool} :
    read64 (makeTask m k task stack entry arg space userMode) (task + Task.taskFlags) = taskFlagMaskCanExecute := by
  rw [makeTask, read64_write64_disjoint (by simp only [Task.taskFlags, Task.addressSpace]; omega), read64_write64_self (by decide)]

/-- Starting the task changes no mapping. -/
theorem Mapped.start (mapped : Mapped K A s₂ g₂ s₃ g₃ c k (pageKey stackPage) f) (space : g₂.spaces c)
    (fresh : d ∈ g₂.free.take k) (data : g₃.Data A d) {m : Memory} (top entry : Nat)
    (outside : ∀ x, x < f ∨ f + 4096 ≤ x → m x = s₃.mem x) :
    Mapped K A s₂ g₂ { s₃ with mem := makeTask m K.kernelPml4 d top entry top c true } g₃ c k (pageKey stackPage) f := by
  have writes (x : Nat) (away : x < d ∨ d + 4096 ≤ x) : makeTask m K.kernelPml4 d top entry top c true x = m x :=
    makeTask_outside (by simp only [Task.size]; omega)
  exact (mapped.write space stackPage_top mapped.data mapped.fresh outside).write space stackPage_top data fresh writes

theorem Created.data (created : Created K A s g s₁ c rest) (inv : KernelInv K A s g) (data : g.Data A f) :
    ({ g with free := rest }.withSpace c).Data A f ∧ Agree s.mem s₁.mem f 4096 := by
  have differ : f ≠ c := by
    rintro rfl
    exact data.live (created.free ▸ List.mem_cons_self)
  have aligned := data.frame.aligned
  have aligned' := (inv.data_of_free created.free).frame.aligned
  refine ⟨⟨data.frame, fun member => data.live (created.free ▸ List.mem_cons_of_mem _ member), ?_⟩, fun o inside => ?_⟩
  · exact (Function.update_of_ne differ ..).trans data.notTable
  · exact created.outside _ (by omega)

/-- What the program maps are frames it has taken. -/
theorem Created.page_origin (created : Created K A s g s₁ c rest)
    (loaded : Loaded K A s₁ ({ g with free := rest }.withSpace c) s₂ g₂ c n pages) {v q : Nat} {user : Bool} (low : v < 2 ^ 47)
    (found : pageAt s₂.mem c (pageKey v) = some (q, user)) : q ∈ rest.take n ∧ g₂.Data A q := by
  have key := leafKey_of_space created.inv (Or.inl rfl) (index_three_of_lower low)
  cases program : pages (v / 4096) with
  | none =>
    have empty : pageAt s₂.mem c (pageKey v) = pageAt s₁.mem c (pageKey v) :=
      loaded.others key fun _ w low' same => by rw [← (lower_page low low').mp same, program]
    rw [empty, created.empty v (index_three_of_lower low)] at found
    cases found
  | some b =>
    obtain ⟨q', free, data, page, -⟩ := loaded.page low program
    cases page.symm.trans found
    exact ⟨free, data⟩

/-- The steps of `make_userspace_process`, one after the other. -/
theorem Created.made (created : Created K A s g s₁ c rest) (inv : KernelInv K A s g)
    (loaded : Loaded K A s₁ ({ g with free := rest }.withSpace c) s₂ g₂ c n pages)
    (stack : Mapped K A s₂ g₂ s' g₃ c k (pageKey stackPage) f) (fresh : d ∈ g₂.free.take k) (data : g₃.Data A d)
    (different : f ≠ d) (field : read64 s'.mem (d + Task.addressSpace) = c) : Made K A s g s' g₃ c d (1 + (n + k)) := by
  have space : ({ g with free := rest }.withSpace c).spaces c := Or.inl rfl
  have new : g.owner c = none := (inv.data_of_free created.free).notTable
  have whole := loaded.trans (stack.loaded_as (by decide)) space created.inv
  have first : g.free.take (1 + (n + k)) = c :: rest.take (n + k) := by rw [created.free, Nat.add_comm, List.take_succ_cons]
  have inFree {q : Nat} (member : q ∈ rest) : q ∈ g.free := created.free ▸ List.mem_cons_of_mem _ member
  have taken : d ∈ rest := List.mem_of_mem_take (loaded.take_subset fresh)
  refine ⟨whole.inv, ?_, ?_, fun x away => ?_, fun r => ?_, fun space => ?_, fun {t r p} place => ?_, fun {q} data => ?_,
    fun {r} isSpace v low => ?_, fun v low q user found => ?_, ⟨inFree taken, data⟩, field⟩
  · have enough := whole.enough
    rw [created.free, List.length_cons, Nat.add_comm]
    exact Nat.succ_le_succ enough
  · rw [whole.rest, created.free, Nat.add_comm 1, List.drop_succ_cons]
    rfl
  · rw [first] at away
    have here := created.outside x (away c List.mem_cons_self)
    refine (whole.outside ⟨fun t p place => ?_, fun q member => away q (List.mem_cons_of_mem _ member)⟩).trans here
    obtain ⟨rfl, -⟩ := (created.owner_iff inv).mp place
    exact away t List.mem_cons_self
  · rw [whole.spaces]
    rfl
  · cases new.symm.trans (inv.root_owner space)
  · by_cases vacant : ({ g with free := rest }.withSpace c).owner t = none
    · exact Or.inl (whole.added place vacant).2
    · obtain ⟨x, owned⟩ := Option.ne_none_iff_exists'.mp vacant
      cases (whole.keeps owned).symm.trans place
      rcases Radix.owned_or_added owned with ⟨-, pair⟩ | ⟨-, owned⟩
      · exact Or.inl (Prod.mk.inj pair).1
      · exact Or.inr owned
  · obtain ⟨data₁, same⟩ := created.data inv data
    exact ⟨whole.data data₁, fun o inside => (whole.agree_data created.inv data₁ o inside).trans (same o inside)⟩
  · have key := leafKey_of_space inv isSpace (index_three_of_lower low)
    have before : pageAt s₁.mem r (pageKey v) = pageAt s.mem r (pageKey v) := created.pages key
    rw [← before]
    refine whole.others (key.mono _ fun x known => Or.inr known) fun same => ?_
    cases new.symm.trans (same ▸ inv.root_owner isSpace)
  · have key := leafKey_of_space created.inv space (index_three_of_lower low)
    by_cases here : v / 4096 = stackPage / 4096
    · rw [(lower_page low (by decide)).mpr here, stack.page] at found
      cases found
      exact ⟨inFree (List.mem_of_mem_take (loaded.take_subset stack.fresh)), stack.data, different⟩
    · have key₂ := key
      rw [← loaded.spaces] at key₂
      have before : pageAt s'.mem c (pageKey v) = pageAt s₂.mem c (pageKey v) :=
        stack.others key₂ fun _ same => here ((lower_page low (by decide)).mp same)
      rw [before] at found
      obtain ⟨free, data'⟩ := created.page_origin loaded low found
      refine ⟨inFree (List.mem_of_mem_take free), stack.toBuilt.data data', ?_⟩
      rintro rfl
      exact data'.live (List.mem_of_mem_take fresh)

end made

/-- An image and a command line as `make_userspace_process` can use them. -/
structure Bootable (m : Memory) (a len b length : Nat) : Prop where
  image : WellFormed m a len
  string : StringAt m b length
  short : length < 4096
  room : b + length + 1 ≤ 2 ^ 39

theorem Bootable.congr {m m' : Memory} {a len b length : Nat} (boot : Bootable m a len b length) (image : Agree m m' a len)
    (string : Agree m m' b (length + 1)) : Bootable m' a len b length :=
  ⟨boot.image.congr image, boot.string.congr string, boot.short, boot.room⟩

/-- The frames that `load_elf` and `create_address_space` take for the image. -/
def programFrames (m : Memory) (a : Nat) : Nat := 1 + framesNeeded [[]] (allAddresses m a)

/-- With the pages of the stack and of the task struct, and the stack's tables. -/
def processFrames (m : Memory) (a : Nat) : Nat := 2 + framesNeeded [[]] (allAddresses m a ++ [stackPage])

/-- The process shows the program of the image that `file` holds at `a`, and on its stack the
command line that it holds at `b`. -/
structure BuiltFrom (file m : Memory) (a b length cr3 : Nat) : Prop where
  program : ∀ v < 2 ^ 47, v / 4096 ≠ stackPage / 4096 → ∀ bytes,
    imagePages file a (programHeaderCount file a) (v / 4096) = some bytes → readVirtual m cr3 v = some (bytes (v % 4096))
  commandLine : ∀ k ≤ length, readVirtual m cr3 (initrdStackAddr - paddedSize length + k) = some (file (b + k))

theorem programFrames_congr {m m' : Memory} {a len : Nat} (wf : WellFormed m a len) (same : Agree m m' a len) :
    programFrames m' a = programFrames m a := by
  rw [programFrames, allAddresses_congr wf same, programFrames]

theorem processFrames_congr {m m' : Memory} {a len : Nat} (wf : WellFormed m a len) (same : Agree m m' a len) :
    processFrames m' a = processFrames m a := by
  rw [processFrames, allAddresses_congr wf same, processFrames]

section runs
variable {K : KernelImage} {A : Arena} {s : Kernel} {g : Ghost} {a len b length c : Nat} {rest : List Nat}

theorem processFrames_eq (m : Memory) (a : Nat) : processFrames m a =
    programFrames m a + (2 + (stations stackPage 3 []).countP (· ∉ placesAfter [[]] (allAddresses m a))) := by
  rw [processFrames, programFrames, framesNeeded_append, framesNeeded, framesNeeded]
  omega

theorem loadProgram_loaded (inv : KernelInv K A s g) (wf : WellFormed s.mem a len)
    (placed : ∀ f ∈ g.free.take (programFrames s.mem a), ∀ k < len, a + k < f ∨ f + 4096 ≤ a + k)
    (enough : programFrames s.mem a ≤ g.free.length) (stop : Nat) :
    ∃ c rest s₁ s₂ g₂ entry, createAddressSpace K s = .ok (linearAddressToPtr c, s₁) ∧ Created K A s g s₁ c rest ∧
      loadProgram K s (linearAddressToPtr a) stop = .ok (linearAddressToPtr c, entry, s₂) ∧
      Loaded K A s₁ ({ g with free := rest }.withSpace c) s₂ g₂ c (framesNeeded [[]] (allAddresses s.mem a))
        (imagePages s.mem a (programHeaderCount s.mem a)) ∧
      g₂.Knows c (placesAfter [[]] (allAddresses s.mem a)) ∧
      ∀ header, ComesTo s₁ (linearAddressToPtr a) (linearAddressToPtr c) header → LowPages header.vaddr header.memsz := by
  unfold programFrames at placed enough
  obtain ⟨c, rest, free⟩ : ∃ c rest, g.free = c :: rest := List.exists_cons_of_length_pos (by omega)
  have length : g.free.length = rest.length + 1 := by rw [free, List.length_cons]
  obtain ⟨s₁, create, inv₁, outside, pages, empty⟩ := createAddressSpace_space inv free
  have created : Created K A s g s₁ c rest := ⟨free, inv₁, outside, pages, empty⟩
  have same : Agree s.mem s₁.mem a len := fun k inside => outside _ (placed c (by simp [free, Nat.add_comm 1]) k inside)
  have wf₁ := wf.congr same
  have addresses := allAddresses_congr wf same
  rw [Nat.add_comm] at placed
  have apart (k : Nat) (inside : k < len) := created.apart inv fun f member => placed f member k inside
  rw [← addresses] at apart placed enough
  obtain ⟨s₂, g₂, load, loaded, knows⟩ := created.loadElf inv wf₁ placed (by omega) stop
  refine ⟨c, rest, s₁, s₂, g₂, readLE s₁.mem 8 (a + 0x18), create, created, ?_, ?_, ?_, fun header comes => ?_⟩
  · simp only [loadProgram, create, Outcome.ok_bind, load, Outcome.pure_eq_ok]
  · rw [← addresses, ← imagePages_congr wf same le_rfl, ← programHeaderCount_congr wf same]
    exact loaded
  · rw [← addresses]
    exact knows
  · obtain ⟨i, loadable, rfl⟩ := comesTo_image inv₁ (Or.inl rfl) (created.knows inv) wf₁ apart comes
    exact lowPages_of_lower (wf₁.lower i loadable)

/-- Without the frames for it the program is not loaded. -/
theorem loadProgram_short (inv : KernelInv K A s g) (wf : WellFormed s.mem a len)
    (placed : ∀ f ∈ g.free, ∀ k < len, a + k < f ∨ f + 4096 ≤ a + k) (short : g.free.length < programFrames s.mem a) (stop : Nat) :
    ∃ e, loadProgram K s (linearAddressToPtr a) stop = .error e := by
  cases free : g.free with
  | nil =>
    have none := FreeFrames.frameAllocZero_nil (free ▸ inv.stack)
    exact ⟨_, by rw [loadProgram, createAddressSpace, none, Outcome.error_bind, Outcome.error_bind]⟩
  | cons c rest =>
    obtain ⟨s₁, create, inv₁, outside, pages, empty⟩ := createAddressSpace_space inv free
    have created : Created K A s g s₁ c rest := ⟨free, inv₁, outside, pages, empty⟩
    have same : Agree s.mem s₁.mem a len := fun k inside => outside _ (placed c (by simp [free]) k inside)
    have addresses := allAddresses_congr wf same
    rw [programFrames, ← addresses, free, List.length_cons] at short
    have few : rest.length < framesNeeded [[]] (allAddresses s₁.mem a) := by omega
    have panic : loadElf s₁ (linearAddressToPtr a) stop (linearAddressToPtr c) = .error .panic :=
      (loadElf_loaded created.inv (Or.inl rfl) (created.knows inv) (wf.congr same)
        (fun k inside => created.apart inv fun f member => placed f (List.mem_of_mem_take member) k inside) stop).2
        few
    exact ⟨.panic, by simp only [loadProgram, create, Outcome.ok_bind, panic, Outcome.error_bind]⟩

/-- And what returns has found the frames that it needs. -/
theorem enough_of_makeUserspaceProcess (inv : KernelInv K A s g) (wf : WellFormed s.mem a len)
    (placed : ∀ f ∈ g.free.take (programFrames s.mem a), ∀ k < len, a + k < f ∨ f + 4096 ≤ a + k)
    (enough : programFrames s.mem a ≤ g.free.length) {stop commandLine : Nat} {q : Nat × Kernel}
    (run : makeUserspaceProcess K s (linearAddressToPtr a) stop commandLine = .ok q) : processFrames s.mem a ≤ g.free.length := by
  obtain ⟨c, rest, s₁, s₂, g₂, entry, -, created, program, loaded, knows, -⟩ := loadProgram_loaded inv wf placed enough stop
  have total := processFrames_eq s.mem a
  have space₂ : g₂.spaces c := loaded.spaces ▸ Or.inl rfl
  have free : g.free.length = rest.length + 1 := by rw [created.free, List.length_cons]
  have used : rest.length = _ := loaded.count
  rw [makeUserspaceProcess, program, Outcome.ok_bind] at run
  obtain ⟨p, prepared, -⟩ := Outcome.bind_eq_ok.mp run
  have found := enough_of_prepareTask loaded.inv space₂ prepared
  rw [knows.missing] at found
  rw [programFrames] at total
  omega

/-- The stages of `make_userspace_process` up to the copy of the command line: a root table `c`,
an entry point, and the frames `f` of the stack and `d` of the task struct. -/
structure Stages (K : KernelImage) (A : Arena) (s : Kernel) (g : Ghost) (a stop : Nat) where
  {c f d entry n : Nat}
  {rest : List Nat}
  {s₁ s₂ s₃ : Kernel}
  {g₂ g₃ : Ghost}
  create : createAddressSpace K s = .ok (linearAddressToPtr c, s₁)
  created : Created K A s g s₁ c rest
  program : loadProgram K s (linearAddressToPtr a) stop = .ok (linearAddressToPtr c, entry, s₂)
  loaded : Loaded K A s₁ ({ g with free := rest }.withSpace c) s₂ g₂ c (framesNeeded [[]] (allAddresses s.mem a))
    (imagePages s.mem a (programHeaderCount s.mem a))
  low : ∀ header, ComesTo s₁ (linearAddressToPtr a) (linearAddressToPtr c) header → LowPages header.vaddr header.memsz
  prepare : prepareTask s₂ (linearAddressToPtr c) = .ok (f, linearAddressToPtr d, s₃)
  mapped : Mapped K A s₂ g₂ s₃ g₃ c n (pageKey stackPage) f
  fresh : d ∈ g₂.free.take n
  data : g₃.Data A d
  different : f ≠ d
  total : processFrames s.mem a = 1 + framesNeeded [[]] (allAddresses s.mem a) + n

/-- With enough frames, apart from the image, every stage is reached. -/
theorem exists_stages (inv : KernelInv K A s g) (wf : WellFormed s.mem a len)
    (placed : ∀ f ∈ g.free.take (programFrames s.mem a), ∀ k < len, a + k < f ∨ f + 4096 ≤ a + k)
    (enough : processFrames s.mem a ≤ g.free.length) (stop : Nat) : Nonempty (Stages K A s g a stop) := by
  have total := processFrames_eq s.mem a
  obtain ⟨c, rest, s₁, s₂, g₂, entry, create, created, program, loaded, knows, low⟩ :=
    loadProgram_loaded inv wf placed (by omega) stop
  have free : g.free.length = rest.length + 1 := by rw [created.free, List.length_cons]
  have space₂ : g₂.spaces c := loaded.spaces ▸ Or.inl rfl
  have used : rest.length = _ := loaded.count
  rw [← knows.missing (stations stackPage 3 []), programFrames] at total
  obtain ⟨f, d, s₃, g₃, prepare, mapped, fresh, data, different⟩ := prepareTask_mapped loaded.inv space₂ (by omega)
  exact ⟨⟨create, created, program, loaded, low, prepare, mapped, fresh, data, different, total⟩⟩

namespace Stages
variable {stop : Nat} (S : Stages K A s g a stop)
include S

theorem space : ({ g with free := S.rest }.withSpace S.c).spaces S.c := Or.inl rfl

theorem space₂ : S.g₂.spaces S.c := S.loaded.spaces ▸ S.space

theorem page : S.c % 4096 = 0 ∧ 0 < S.c ∧ S.c + 4096 ≤ 2 ^ 39 :=
  S.loaded.inv.page (S.loaded.inv.root_owner S.space₂)

theorem stack_mem : S.f ∈ g.free.take (processFrames s.mem a) := by
  rw [S.total, Nat.add_assoc, Nat.add_comm 1, S.created.free, List.take_succ_cons]
  exact List.mem_cons_of_mem _ (S.loaded.take_subset S.mapped.fresh)

/-- The memory apart from the frames taken is as before. -/
theorem outside (inv : KernelInv K A s g) {x : Nat}
    (away : ∀ f ∈ g.free.take (processFrames s.mem a), x < f ∨ f + 4096 ≤ x) : S.s₃.mem x = s.mem x := by
  have whole := S.loaded.trans (S.mapped.loaded_as (by decide)) S.space S.created.inv
  have first : S.c ∈ g.free.take (processFrames s.mem a) := by simp [S.created.free, processFrames, Nat.add_comm 2]
  rw [whole.outside (S.created.apart inv fun f member => away f (by rwa [S.total, Nat.add_assoc, Nat.add_comm 1])),
    S.created.outside x (away S.c first)]

/-- Copying the command line and starting the task writes to the frames of the stack and of the
task struct only, so that the process stands as prepared. -/
theorem ready {m : Memory} (top entry : Nat) (outside : ∀ x, x < S.f ∨ S.f + 4096 ≤ x → m x = S.s₃.mem x) :
    Mapped K A S.s₂ S.g₂ { S.s₃ with mem := makeTask m K.kernelPml4 S.d top entry top S.c true } S.g₃ S.c S.n
      (pageKey stackPage) S.f :=
  S.mapped.start S.space₂ S.fresh S.data top entry outside

theorem made (inv : KernelInv K A s g) {m : Memory} (top entry : Nat)
    (outside : ∀ x, x < S.f ∨ S.f + 4096 ≤ x → m x = S.s₃.mem x) :
    Made K A s g { S.s₃ with mem := makeTask m K.kernelPml4 S.d top entry top S.c true } S.g₃ S.c S.d
      (processFrames s.mem a) := by
  have made := S.created.made inv S.loaded (S.ready top entry outside) S.fresh S.data S.different
    (makeTask_space _ S.page.2.1 (by have := S.page; omega))
  rwa [← Nat.add_assoc, ← S.total] at made

/-- A short command line completes the process. -/
theorem run {commandLine source : Nat} (atLength : S.s₃.strlen commandLine = .ok length) (short : length < 4096)
    (atSource : window commandLine (length + 1) = .ok source) :
    makeUserspaceProcess K s (linearAddressToPtr a) stop commandLine = .ok (linearAddressToPtr S.d, { S.s₃ with
      mem := makeTask (memcpy S.s₃.mem (S.f + 4096 - paddedSize length) source (length + 1)) K.kernelPml4 S.d
        (initrdStackAddr - paddedSize length) S.entry (initrdStackAddr - paddedSize length) S.c true }) := by
  have start := startTask_eq (K := K) S.entry S.page.2 S.mapped.data.frame S.data.frame atLength short atSource
  simp only [makeUserspaceProcess, S.program, S.prepare, start, Outcome.ok_bind, Outcome.pure_eq_ok]

theorem copy_outside (short : length < 4096) (source : Nat) {x : Nat} (away : x < S.f ∨ S.f + 4096 ≤ x) :
    memcpy S.s₃.mem (S.f + 4096 - paddedSize length) source (length + 1) x = S.s₃.mem x := by
  refine memcpy_outside ?_
  unfold paddedSize
  omega

/-- The page of the stack is mapped for the user. -/
theorem walkStack {m : Memory} (top entry : Nat) (outside : ∀ x, x < S.f ∨ S.f + 4096 ≤ x → m x = S.s₃.mem x) {o : Nat}
    (inside : o < 4096) : walk (makeTask m K.kernelPml4 S.d top entry top S.c true) S.c (stackPage + o) =
      some ⟨S.f + o, true, true⟩ := by
  have stack := S.ready top entry outside
  have lower : stackPage + o < 2 ^ 47 := by
    simp only [stackPage, initrdStackAddr, defaultFrameSize]
    omega
  have number : (stackPage + o) / 4096 = stackPage / 4096 ∧ (stackPage + o) % 4096 = o := by
    simp only [stackPage, initrdStackAddr, defaultFrameSize]
    omega
  have key : pageKey (stackPage + o) = pageKey stackPage := (lower_page lower (by decide)).mpr number.1
  have walked := walk_lower stack.inv (stack.spaces ▸ S.space₂) lower
  rw [walked, key, stack.page, Option.map_some, number.2]

/-- The process reads on its stack the bytes that were copied there. -/
theorem readStack {m : Memory} (top entry : Nat) (outside : ∀ x, x < S.f ∨ S.f + 4096 ≤ x → m x = S.s₃.mem x) {o : Nat}
    (inside : o < 4096) :
    readVirtual (makeTask m K.kernelPml4 S.d top entry top S.c true) S.c (stackPage + o) = some (m (S.f + o)) := by
  have apart := S.mapped.data.frame.apart S.data.frame S.different
  rw [readVirtual, S.walkStack top entry outside inside, Option.map_some]
  exact congrArg some (makeTask_outside (by simp only [Task.size]; omega))

/-- The command line that was copied is the one at `b`. -/
theorem readCommandLine (short : length < 4096) (kept : Agree s.mem S.s₃.mem b (length + 1))
    (placed : ∀ k ≤ length, b + k < S.f ∨ S.f + 4096 ≤ b + k) (entry : Nat) {k : Nat} (inside : k ≤ length) :
    readVirtual (makeTask (memcpy S.s₃.mem (S.f + 4096 - paddedSize length) b (length + 1)) K.kernelPml4 S.d
      (initrdStackAddr - paddedSize length) entry (initrdStackAddr - paddedSize length) S.c true) S.c
      (initrdStackAddr - paddedSize length + k) = some (s.mem (b + k)) := by
  have size : length < paddedSize length ∧ paddedSize length ≤ 4096 := by
    unfold paddedSize
    omega
  have above : initrdStackAddr - paddedSize length + k = stackPage + (4096 - paddedSize length + k) := by
    simp only [initrdStackAddr, stackPage, defaultFrameSize]
    omega
  have place : S.f + (4096 - paddedSize length + k) = S.f + 4096 - paddedSize length + k := by omega
  have source : S.s₃.mem (b + k) = s.mem (b + k) := kept k (by omega)
  rw [above, S.readStack _ _ (fun x => S.copy_outside short b) (by omega), place, ← source]
  refine congrArg some (memcpy_inside (fun j bound => ?_) (by omega))
  have away := placed j (by omega)
  omega

end Stages

/-- The process is built when its image and its command line lie apart from the frames that
are taken before they are read. -/
theorem makeUserspaceProcess_runs (inv : KernelInv K A s g) (boot : Bootable s.mem a len b length)
    (imagePlaced : ∀ f ∈ g.free.take (programFrames s.mem a), ∀ k < len, a + k < f ∨ f + 4096 ≤ a + k)
    (stringPlaced : ∀ f ∈ g.free.take (processFrames s.mem a), ∀ k ≤ length, b + k < f ∨ f + 4096 ≤ b + k)
    (enough : processFrames s.mem a ≤ g.free.length) (stop : Nat) :
    LowImage K s (linearAddressToPtr a) ∧ ShortCommandLine K s (linearAddressToPtr a) stop (linearAddressToPtr b) ∧
    ∃ root entry s₂ s' g' c d, loadProgram K s (linearAddressToPtr a) stop = .ok (root, entry, s₂) ∧
      FreeFrames A s₂ (g.free.drop (programFrames s.mem a)) ∧
      makeUserspaceProcess K s (linearAddressToPtr a) stop (linearAddressToPtr b) = .ok (linearAddressToPtr d, s') ∧
      Made K A s g s' g' c d (processFrames s.mem a) ∧ BuiltFrom s.mem s'.mem a b length c := by
  obtain ⟨S⟩ := exists_stages inv boot.image imagePlaced enough stop
  -- The command line is still there when it is copied.
  have kept : Agree s.mem S.s₃.mem b (length + 1) := fun k inside =>
    S.outside inv fun f member => stringPlaced f member k (by omega)
  have atLength : S.s₃.strlen (linearAddressToPtr b) = .ok length := S.s₃.strlen_linear (boot.string.congr kept) boot.room
  have atSource : window (linearAddressToPtr b) (length + 1) = .ok b :=
    window_linear_zero (by have := boot.room; omega) (by have := boot.room; omega)
  have outside {x : Nat} := S.copy_outside boot.short b (x := x)
  have ready := S.loaded.trans ((S.ready (initrdStackAddr - paddedSize length) S.entry fun x => outside).loaded_as (by decide))
    S.space S.created.inv
  refine ⟨fun root s₁' create' => ?_, fun root entry' t₂ f' d' t₃ program' prepare' l atLength' => ?_,
    _, S.entry, S.s₂, _, S.g₃, S.c, S.d, S.program, ?_, S.run atLength boot.short atSource,
    S.made inv _ _ fun x => outside, fun v lower elsewhere bytes found => ?_, fun k inside => ?_⟩
  · cases S.create.symm.trans create'
    exact S.low
  · cases S.program.symm.trans program'
    cases S.prepare.symm.trans prepare'
    cases atLength.symm.trans atLength'
    exact boot.short
  · have stacked := S.loaded.inv.stack
    rw [S.loaded.rest] at stacked
    rwa [programFrames, S.created.free, Nat.add_comm, List.drop_succ_cons]
  · refine ready.readVirtual S.space lower ?_
    rw [Pages.overlay, Pages.range, if_neg (by omega), Option.none_or, found]
  · exact S.readCommandLine boot.short kept (fun k inside => stringPlaced S.f S.stack_mem k inside) S.entry inside

end runs

end MetalToApp

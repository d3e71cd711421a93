import MetalToApp.Library.Halting
import MetalToApp.SharedHalf

namespace MetalToApp
open ByteMemory Paging

/-- A 64-bit word as `intptr_t`. -/
def toIntptr (a : Nat) : Int := if a < 2 ^ 63 then a else a - 2 ^ 64

/-- The page that `handle_dynamic_fault` maps; signed division rounds towards zero. -/
def mappingStart (address : Nat) : Nat :=
  ((toIntptr address).tdiv defaultFrameSize * defaultFrameSize % 2 ^ 64).toNat

def handleDynamicFault (K : KernelImage) (s : Kernel) (address : Nat) : Outcome (Bool × Kernel) := do
  if toIntptr address > toIntptr dynamicStart ∧ toIntptr address < 0 then
    let (newPage, s) ← frameAllocZero s
    let s ← mmap s (linearAddressToPtr K.kernelPml4) newPage (mappingStart address) false
    return (false, s)
  return (false, s)

/-- What becomes of the processor in `page_fault`. -/
inductive FaultResult
  | resumed
  | halted
deriving DecidableEq, Repr

/-! The path again, with the state that a panic on it leaves behind. -/

namespace Panicking
open Halting

def frameAllocZero (s : Kernel) : Halting Kernel Halt (Nat × Kernel) := do
  let (frame, s) ← failing s (frameAllocInternal s)
  let s ← failing s (s.memset frame 0 0x1000)
  let a ← failing s (pointerToLinearAddress frame)
  return (a, s)

def nextTable (s : Kernel) (entry : Nat) : Halting Kernel Halt (Option Nat × Kernel) := do
  let e ← failing s (s.load64 entry)
  if big e then return (none, s)
  let s ← if present e then pure s else do
    let (f, s) ← frameAllocZero s
    failing s (fillEntry s entry f true)
  let e ← failing s (s.load64 entry)
  return (some (linearAddressToPtr (e / 4096 * 4096)), s)

def resolveFrom (s : Kernel) : Nat → Nat → Nat → Halting Kernel Halt (Nat × Kernel)
  | 0, table, ptr => return (table + 8 * index 0 ptr, s)
  | level + 1, table, ptr => do
    let entry := table + 8 * index (level + 1) ptr
    match ← nextTable s entry with
    | (none, s) => return (entry, s)
    | (some next, s) => resolveFrom s level next ptr

def mmap (s : Kernel) (pagetableRoot pageStart mappingStart : Nat) (user : Bool) : Halting Kernel Halt Kernel := do
  let (entry, s) ← resolveFrom s 3 pagetableRoot mappingStart
  failing s (fillEntry s entry pageStart user)

def handleDynamicFault (K : KernelImage) (s : Kernel) (address : Nat) : Halting Kernel Halt (Bool × Kernel) := do
  if toIntptr address > toIntptr dynamicStart ∧ toIntptr address < 0 then
    let (newPage, s) ← frameAllocZero s
    let s ← mmap s (linearAddressToPtr K.kernelPml4) newPage (mappingStart address) false
    return (false, s)
  return (false, s)

def pageFault (K : KernelImage) (s : Kernel) (address : Nat) : Halting Kernel Halt (FaultResult × Kernel) := do
  let (handled, s) ← handleDynamicFault K s address
  if handled then return (.resumed, s)
  return (.halted, s)

/-! They are the functions that run. -/

section plain
variable {K : KernelImage} {s : Kernel}

theorem frameAllocZero_plain : plain (frameAllocZero s) = MetalToApp.frameAllocZero s := by
  simp only [frameAllocZero, plain_bind, plain_failing]
  rfl

theorem nextTable_plain {entry : Nat} : plain (nextTable s entry) = MetalToApp.nextTable s entry := by
  rw [nextTable, plain_bind, plain_failing, MetalToApp.nextTable]
  refine bind_congr fun e => ?_
  split
  · rfl
  · split
    · simp only [plain_bind, plain_failing, plain_pure]
      rfl
    · simp only [plain_bind, plain_failing, frameAllocZero_plain]
      rfl

theorem resolveFrom_plain {level table ptr : Nat} :
    plain (resolveFrom s level table ptr) = MetalToApp.resolveFrom s level table ptr := by
  induction level generalizing s table with
  | zero => rfl
  | succ level ih =>
    rw [resolveFrom, plain_bind, nextTable_plain, MetalToApp.resolveFrom]
    refine bind_congr fun q => ?_
    obtain ⟨next, t⟩ := q
    cases next with
    | none => rfl
    | some next => exact ih

theorem mmap_plain {root page start : Nat} {user : Bool} :
    plain (mmap s root page start user) = MetalToApp.mmap s root page start user := by
  rw [mmap, plain_bind, resolveFrom_plain]
  simp only [plain_failing]
  rfl

theorem handleDynamicFault_plain {address : Nat} :
    plain (handleDynamicFault K s address) = MetalToApp.handleDynamicFault K s address := by
  rw [handleDynamicFault, MetalToApp.handleDynamicFault]
  split
  · simp only [plain_bind, frameAllocZero_plain, mmap_plain, plain_pure]
    rfl
  · rfl

end plain

end Panicking

section window
variable {address : Nat}

/-- The comparison of signed pointers picks the addresses above `DYNAMIC_START`. -/
theorem inWindow_iff (bound : address < 2 ^ 64) :
    toIntptr address > toIntptr dynamicStart ∧ toIntptr address < 0 ↔ dynamicStart < address := by
  have start : toIntptr dynamicStart = dynamicStart - 2 ^ 64 := by decide
  rw [start]
  unfold toIntptr
  simp only [dynamicStart, kernelBase, addrshift1G]
  split <;> omega

/-- Within the window the division rounds up to a page, and past the last page to address 0. -/
theorem mappingStart_eq (high : dynamicStart < address) (bound : address < 2 ^ 64) :
    mappingStart address = (2 ^ 64 - (2 ^ 64 - address) / 4096 * 4096) % 2 ^ 64 := by
  have below : toIntptr address = -((2 ^ 64 - address : Nat) : Int) := by
    unfold toIntptr
    simp only [dynamicStart, kernelBase, addrshift1G] at high
    split <;> omega
  have quotient : (toIntptr address).tdiv defaultFrameSize = -(((2 ^ 64 - address) / 4096 : Nat) : Int) := by
    rw [below, Int.neg_tdiv]
    rfl
  rw [mappingStart, quotient, show (defaultFrameSize : Int) = 4096 from rfl]
  simp only [dynamicStart, kernelBase, addrshift1G] at high
  omega

theorem mappingStart_aligned (high : dynamicStart < address) (bound : address < 2 ^ 64) (aligned : address % 4096 = 0) :
    mappingStart address = address := by
  rw [mappingStart_eq high bound]
  omega

theorem mappingStart_unaligned (high : dynamicStart < address) (bound : address < 2 ^ 64) (off : address % 4096 ≠ 0) :
    address / 4096 ≠ mappingStart address / 4096 := by
  rw [mappingStart_eq high bound]
  simp only [dynamicStart, kernelBase, addrshift1G] at high
  omega

theorem mappingStart_paged (high : dynamicStart < address) (bound : address < 2 ^ 64) : PagedAddress (mappingStart address) := by
  rw [mappingStart_eq high bound, PagedAddress]
  simp only [dynamicStart, kernelBase, addrshift1G] at high ⊢
  omega

end window

/-- So many frames are free. -/
def FramesFree (s : Kernel) (n : Nat) : Prop := ∃ A free, FreeFrames A s free ∧ n ≤ free.length

section fault
variable {K : KernelImage} {A : Arena} {F : FreeMemory K} {s s' : Kernel} {g : Ghost} {r v w f address : Nat}
  {live roots rest : List Nat} {dynamic : List Bool}

theorem framesFree_iff (inv : KernelInv K A s g) {n : Nat} : FramesFree s n ↔ n ≤ g.free.length := by
  constructor
  · rintro ⟨A', free, stack, count⟩
    rwa [stack.unique inv.stack] at count
  · exact fun count => ⟨A, g.free, inv.stack, count⟩

/-- Taking a free frame and writing to it changes no translation. -/
theorem walk_take (inv : KernelInv K A s g) (free : g.free = f :: rest) (inv' : KernelInv K A s' { g with free := rest })
    (outside : ∀ x, x < f ∨ f + 4096 ≤ x → s'.mem x = s.mem x) (space : g.spaces r) (w : Nat) :
    walk s'.mem r w = walk s.mem r w := by
  have data := inv.data_of_free free
  have kept : PagesKept K g s s' :=
    pageAt_congr inv inv' rfl rfl fun t x place => inv.agree_tables data.frame data.notTable outside place
  by_cases lower : w < 2 ^ 47
  · rw [walk_lower inv space lower, walk_lower inv' space lower]
    exact congrArg _ (kept (leafKey_of_space inv space (index_three_of_lower lower)))
  · by_cases upper : 2 ^ 64 - 2 ^ 47 ≤ w ∧ w < 2 ^ 64
    · rw [walk_upper inv space upper.1 upper.2, walk_upper inv' space upper.1 upper.2]
      split
      · rename_i inside
        exact congrArg _ (kept (leafKey_dynamic K g inside.2))
      · rfl
    · have outside : ¬Canonical w := fun canonical => canonical.elim lower upper
      rw [walk, walk, if_neg outside, if_neg outside]

theorem tablesMissing_take (inv : KernelInv K A s g) (inv' : KernelInv K A s' { g with free := rest }) (paged : PagedAddress v) :
    tablesMissing s'.mem 3 K.kernelPml4 v = tablesMissing s.mem 3 K.kernelPml4 v := by
  by_cases low : v < 2 ^ 47
  · rw [← tablesMissing_lower inv low, ← tablesMissing_lower inv' low]
    rfl
  · obtain ⟨high, bound⟩ := paged.resolve_left low
    rw [← tablesMissing_dynamic inv high bound, ← tablesMissing_dynamic inv' high bound]
    rfl

/-- What a fault in the window leads to when there are enough frames: a zeroed frame is mapped at
`mappingStart`, and still the result is `false`. -/
structure Served (K : KernelImage) (A : Arena) (s : Kernel) (g : Ghost) (s' : Kernel) (address f : Nat) : Prop where
  member : f ∈ g.free
  zero : ∀ o < 4096, s'.mem (f + o) = 0
  page : walk s'.mem K.kernelPml4 (mappingStart address) = some ⟨f + mappingStart address % 4096, false, true⟩
  others : ∀ {r w}, g.spaces r → w / 4096 ≠ mappingStart address / 4096 → walk s'.mem r w = walk s.mem r w
  taken : ∃ g', KernelInv K A s' g' ∧ g'.free.length < g.free.length

theorem handleDynamicFault_served (inv : KernelInv K A s g) (high : dynamicStart < address) (bound : address < 2 ^ 64)
    (enough : 1 + tablesMissing s.mem 3 K.kernelPml4 (mappingStart address) ≤ g.free.length) :
    ∃ s' f, handleDynamicFault K s address = .ok (false, s') ∧ Served K A s g s' address f := by
  obtain ⟨f, rest, free⟩ : ∃ f rest, g.free = f :: rest := List.exists_cons_of_length_pos (by omega)
  have paged := mappingStart_paged high bound
  have data := inv.data_of_free free
  obtain ⟨s₁, alloc, mem₁, inv₁⟩ := inv.frameAllocZero_take free
  have left : tablesMissing s₁.mem 3 K.kernelPml4 (mappingStart address) ≤ rest.length := by
    rw [tablesMissing_take inv inv₁ paged]
    rw [free, List.length_cons] at enough
    omega
  obtain ⟨s', g', map, remapped⟩ := mmap_kernel false inv₁ paged data.frame.aligned data.frame.room left
  have outside : ∀ x, x < f ∨ f + 4096 ≤ x → s₁.mem x = s.mem x := fun x away => by rw [mem₁, memset_outside 0 away]
  refine ⟨s', f, ?_, free ▸ List.mem_cons_self, fun o inside => ?_, ?_, fun {r w} space differ => ?_, g', remapped.inv, ?_⟩
  · simp only [handleDynamicFault, if_pos ((inWindow_iff bound).mpr high), alloc, Outcome.ok_bind, map, Outcome.pure_eq_ok]
  · rw [remapped.agree_data data o inside, mem₁, memset_inside 0 (by omega)]
  · rw [walk_kernel remapped.inv paged, remapped.page]
    rfl
  · rw [walk_kernel_others inv₁ paged remapped space differ, walk_take inv free inv₁ outside space]
  · obtain ⟨used, taken, -⟩ := remapped.used
    have length := congrArg List.length taken
    rw [List.length_append] at length
    change rest.length = _ at length
    rw [free, List.length_cons]
    omega

theorem handleDynamicFault_panic (inv : KernelInv K A s g) (high : dynamicStart < address) (bound : address < 2 ^ 64)
    (short : g.free.length < 1 + tablesMissing s.mem 3 K.kernelPml4 (mappingStart address)) :
    handleDynamicFault K s address = .error .panic := by
  have window := (inWindow_iff bound).mpr high
  cases free : g.free with
  | nil =>
    have panic := FreeFrames.frameAllocZero_nil (free ▸ inv.stack)
    simp only [handleDynamicFault, if_pos window, panic, Outcome.error_bind]
  | cons f rest =>
    obtain ⟨s₁, alloc, mem₁, inv₁⟩ := inv.frameAllocZero_take free
    have paged := mappingStart_paged high bound
    have left : rest.length < tablesMissing s₁.mem 3 K.kernelPml4 (mappingStart address) := by
      rw [tablesMissing_take inv inv₁ paged]
      rw [free, List.length_cons] at short
      omega
    simp only [handleDynamicFault, if_pos window, alloc, Outcome.ok_bind, mmap_kernel_panic false inv₁ paged left,
      Outcome.error_bind]

theorem handleDynamicFault_outside (bound : address < 2 ^ 64) (low : ¬dynamicStart < address) :
    handleDynamicFault K s address = .ok (false, s) := by
  simp only [handleDynamicFault, if_neg (mt (inWindow_iff bound).mp low), Outcome.pure_eq_ok]

/-- A fault is served by mapping the page it was at. -/
structure FaultServed (K : KernelImage) (s s' : Kernel) (roots : List Nat) (address : Nat) : Prop where
  page : ∃ A free f, FreeFrames A s free ∧ f ∈ free ∧ (∀ o < 4096, s'.mem (f + o) = 0) ∧
    walk s'.mem K.kernelPml4 address = some ⟨f + address % 4096, false, true⟩
  others : ∀ root ∈ roots, ∀ cr3, pointerToLinearAddress root = .ok cr3 → ∀ v, v / 4096 ≠ address / 4096 →
    walk s'.mem cr3 v = walk s.mem cr3 v

theorem faultServed_iff {events : List MapEvent} (h : SpaceInv K A s g live roots events) (high : dynamicStart < address)
    (bound : address < 2 ^ 64) (unmapped : walk s.mem K.kernelPml4 address = none) :
    (∃ handled s', handleDynamicFault K s address = .ok (handled, s') ∧ FaultServed K s s' roots address) ↔
      address % 4096 = 0 ∧ FramesFree s (1 + tablesMissing s.mem 3 K.kernelPml4 address) := by
  rw [framesFree_iff h.kernel]
  constructor
  · rintro ⟨handled, s', run, result⟩
    have enough : 1 + tablesMissing s.mem 3 K.kernelPml4 (mappingStart address) ≤ g.free.length := by
      by_contra short
      rw [handleDynamicFault_panic h.kernel high bound (by omega)] at run
      cases run
    obtain ⟨t, f, done, served⟩ := handleDynamicFault_served h.kernel high bound enough
    cases done.symm.trans run
    have aligned : address % 4096 = 0 := by
      by_contra off
      obtain ⟨_, _, _, _, _, _, found⟩ := result.page
      rw [served.others h.kernel.kernelRoot (mappingStart_unaligned high bound off), unmapped] at found
      cases found
    rw [mappingStart_aligned high bound aligned] at enough
    exact ⟨aligned, enough⟩
  · rintro ⟨aligned, enough⟩
    have here := mappingStart_aligned high bound aligned
    obtain ⟨s', f, run, served⟩ := handleDynamicFault_served h.kernel high bound (by rwa [here])
    have page := served.page
    rw [here] at page
    refine ⟨false, s', run, ⟨A, g.free, f, h.kernel.stack, served.member, served.zero, page⟩, ?_⟩
    intro root member cr3 physical v differ
    obtain ⟨r, rfl, space⟩ := h.space root member
    have table := h.kernel.page (h.kernel.root_owner space)
    cases (pointerToLinearAddress_linear table.2.1 (by omega)).symm.trans physical
    exact served.others space (by rwa [here])

/-- The fault handler maps the page that faulted exactly if the address is that of the page, and there
are frames for the page and for the tables on the way to it. The address lies above
`DYNAMIC_START` and was not mapped. -/
theorem handleDynamicFault_serves_iff (reach : KernelReach F s live roots dynamic) (high : dynamicStart < address)
    (bound : address < 2 ^ 64) (unmapped : walk s.mem K.kernelPml4 address = none) :
    (∃ handled s', handleDynamicFault K s address = .ok (handled, s') ∧ FaultServed K s s' roots address) ↔
      address % 4096 = 0 ∧ FramesFree s (1 + tablesMissing s.mem 3 K.kernelPml4 address) := by
  obtain ⟨g, events, h, -⟩ := reach.inv
  exact faultServed_iff h high bound unmapped

/-! A panic is on the spot where no frame was left. -/

namespace Panicking
open Halting

theorem frameAllocZero_nil (stack : FreeFrames A s []) :
    frameAllocZero s = .error (.panic, s) ∧ frameAllocInternal s = .error .panic := by
  have panic := stack.frameAllocInternal_nil
  refine ⟨?_, panic⟩
  rw [frameAllocZero, panic, failing_error, Halting.error_bind]

theorem nextTable_panic {t i : Nat} {p : List Nat} (inv : KernelInv K A s g) (place : g.owner t = some (r, p))
    (below : p.length < (shape K g.spaces).height r) (slot : (shape K g.spaces).slot r p i)
    (vacant : childTable s.mem t i = none) (exhausted : g.free = []) :
    nextTable s (linearAddressToPtr t + 8 * i) = .error (.panic, s) := by
  have absent : word s.mem t i = 0 := (inv.link place below slot).isEntry.eq_zero (Option.map_eq_none_iff.mp vacant)
  have load : s.load64 (linearAddressToPtr t + 8 * i) = .ok (word s.mem t i) := by
    simp only [Kernel.load64, Kernel.load, inv.entry_window place slot.1, Outcome.ok_bind, Outcome.pure_eq_ok]
  have panic := (frameAllocZero_nil (exhausted ▸ inv.stack)).1
  simp only [nextTable, load, failing_ok, Halting.ok_bind, absent, show big 0 = false from rfl, show present 0 = false from rfl,
    Bool.false_eq_true, if_false, panic, Halting.error_bind]

/-- Resolving goes on taking frames for tables until there is none. -/
theorem resolveFrom_panic {t level : Nat} {p : List Nat} (inv : KernelInv K A s g) (place : g.owner t = some (r, p))
    (depth : p.length + level = (shape K g.spaces).height r)
    (slot : level ≠ 0 → (shape K g.spaces).slot r p (index level v))
    (short : g.free.length < missing g r (stations v level p)) :
    ∃ s', resolveFrom s level (linearAddressToPtr t) v = .error (.panic, s') ∧ frameAllocInternal s' = .error .panic := by
  induction level generalizing s g t p with
  | zero => exact absurd short (Nat.not_lt_zero _)
  | succ level ih =>
    have here := slot (by omega)
    have below : p.length < (shape K g.spaces).height r := by omega
    have next {spaces} : (shape K spaces).slot r (index (level + 1) v :: p) (index level v) := ⟨index_lt _ _, nofun⟩
    simp only [stations] at short
    cases child : childTable s.mem t (index (level + 1) v) with
    | some c =>
      have owned := inv.forest.child_owner place below here child
      rw [missing_cons_of_has ⟨c, owned⟩] at short
      obtain ⟨s', panic, exhausted⟩ := ih inv owned (by simp; omega) (fun _ => next) short
      have step := eq_ok_iff.mpr (nextTable_plain.trans (nextTable_child inv place below here child))
      exact ⟨s', by simp only [resolveFrom, step, Halting.ok_bind, panic], exhausted⟩
    | none =>
      rw [missing_cons_of_not (inv.not_has place child)] at short
      cases free : g.free with
      | nil =>
        refine ⟨s, ?_, (free ▸ inv.stack).frameAllocInternal_nil⟩
        simp only [resolveFrom, nextTable_panic inv place below here child free, Halting.error_bind]
      | cons c rest =>
        obtain ⟨s₁, vacant, grown⟩ := nextTable_vacant inv place below here child free
        have unowned : g.owner c = none := (inv.data_of_free free).notTable
        have same := missing_withTable rest unowned r v level (index (level + 1) v) p
        have length : g.free.length = (g.withTable rest c r (index (level + 1) v :: p)).free.length + 1 := by
          rw [free, List.length_cons]
          rfl
        obtain ⟨s', panic, exhausted⟩ := ih grown.inv (Function.update_self ..)
          (by simp only [List.length_cons]; show _ = (shape K g.spaces).height r; omega) (fun _ => next) (by omega)
        have step := eq_ok_iff.mpr (nextTable_plain.trans vacant)
        exact ⟨s', by simp only [resolveFrom, step, Halting.ok_bind, panic], exhausted⟩

theorem mmap_panic (user : Bool) (inv : KernelInv K A s g) (paged : PagedAddress v)
    (short : g.free.length < tablesMissing s.mem 3 K.kernelPml4 v) :
    ∃ s', mmap s (linearAddressToPtr K.kernelPml4) f v user = .error (.panic, s') ∧ frameAllocInternal s' = .error .panic := by
  by_cases low : v < 2 ^ 47
  · rw [← tablesMissing_lower inv low] at short
    obtain ⟨s', panic, exhausted⟩ := resolveFrom_panic inv (inv.root_owner inv.kernelRoot)
      (by rw [height_of_space inv inv.kernelRoot]; rfl)
      (fun _ => ⟨index_lt _ _, fun _ => by rw [if_neg (inv.space_ne inv.kernelRoot)]; exact index_three_of_lower low⟩) short
    exact ⟨s', by rw [mmap, panic, Halting.error_bind], exhausted⟩
  · obtain ⟨high, bound⟩ := paged.resolve_left low
    rw [← tablesMissing_dynamic inv high bound] at short
    obtain ⟨top, slot⟩ := index_of_dynamic high bound
    have table := K.page (t := K.kernelPagedirtable) (by simp)
    have entry : word s.mem K.kernelPml4 511 = K.kernelPagedirtable + entryBits true :=
      inv.upper inv.kernelRoot (by decide) (by decide)
    have next := nextTable_link (inv.entry_window (inv.root_owner inv.kernelRoot) (show 511 < 512 by decide)) table.1 entry
    have step := eq_ok_iff.mpr (nextTable_plain.trans next)
    obtain ⟨s', panic, exhausted⟩ := resolveFrom_panic inv inv.pagedirtable_owner (if_pos rfl).symm
      (fun _ => ⟨index_lt _ _, fun _ => by rw [if_pos rfl, slot]⟩) short
    refine ⟨s', ?_, exhausted⟩
    rw [mmap, resolveFrom, top]
    simp only [step, Halting.ok_bind, panic, Halting.error_bind]

/-- A fault that there are not enough frames for leaves none behind. -/
theorem pageFault_panic (inv : KernelInv K A s g) (high : dynamicStart < address) (bound : address < 2 ^ 64)
    (short : g.free.length < 1 + tablesMissing s.mem 3 K.kernelPml4 (mappingStart address)) :
    ∃ s', pageFault K s address = .error (.panic, s') ∧ frameAllocInternal s' = .error .panic ∧ (g.free = [] → s' = s) := by
  have window := (inWindow_iff bound).mpr high
  cases free : g.free with
  | nil =>
    obtain ⟨panic, exhausted⟩ := frameAllocZero_nil (free ▸ inv.stack)
    refine ⟨s, ?_, exhausted, fun _ => rfl⟩
    simp only [pageFault, handleDynamicFault, if_pos window, panic, Halting.error_bind]
  | cons f rest =>
    obtain ⟨s₁, alloc, mem₁, inv₁⟩ := inv.frameAllocZero_take free
    have paged := mappingStart_paged high bound
    have left : rest.length < tablesMissing s₁.mem 3 K.kernelPml4 (mappingStart address) := by
      rw [tablesMissing_take inv inv₁ paged]
      rw [free, List.length_cons] at short
      omega
    obtain ⟨s', panic, exhausted⟩ := mmap_panic (f := f) false inv₁ paged left
    have step := eq_ok_iff.mpr (frameAllocZero_plain.trans alloc)
    refine ⟨s', ?_, exhausted, nofun⟩
    simp only [pageFault, handleDynamicFault, if_pos window, step, Halting.ok_bind, panic, Halting.error_bind]

theorem pageFault_eq {handled : Bool} (run : handleDynamicFault K s address = .ok (handled, s')) :
    pageFault K s address = .ok (if handled then .resumed else .halted, s') := by
  rw [pageFault, run]
  cases handled <;> rfl

end Panicking

/-- What `handle_dynamic_fault` reports, and what `page_fault` does with it, agrees with what was
done. The processor halts in `page_fault` itself and in a panic on the way. -/
structure ResultAgrees (K : KernelImage) (s : Kernel) (address : Nat) : Prop where
  unchanged : ∀ s', Panicking.handleDynamicFault K s address = .ok (false, s') → s' = s
  mapped : ∀ handled s', Panicking.handleDynamicFault K s address = .ok (handled, s') →
    (∃ v, walk s'.mem K.kernelPml4 v ≠ walk s.mem K.kernelPml4 v) → handled = true
  resumed : ∀ result s', Panicking.pageFault K s address = .ok (result, s') →
    (∃ v, walk s'.mem K.kernelPml4 v ≠ walk s.mem K.kernelPml4 v) → result = .resumed
  halted : ∀ s', Panicking.pageFault K s address = .ok (.halted, s') → s' = s
  panicked : ∀ e s', Panicking.pageFault K s address = .error (e, s') → s' = s

theorem resultAgrees_iff (inv : KernelInv K A s g) (bound : address < 2 ^ 64) :
    ResultAgrees K s address ↔ ¬(dynamicStart < address ∧ FramesFree s 1) := by
  rw [framesFree_iff inv]
  constructor
  · rintro agrees ⟨high, some⟩
    by_cases enough : 1 + tablesMissing s.mem 3 K.kernelPml4 (mappingStart address) ≤ g.free.length
    · obtain ⟨s', f, run, served⟩ := handleDynamicFault_served inv high bound enough
      obtain ⟨g', inv', less⟩ := served.taken
      have same := agrees.unchanged s' (Halting.eq_ok_iff.mpr (Panicking.handleDynamicFault_plain.trans run))
      subst same
      rw [inv'.stack.unique inv.stack] at less
      exact lt_irrefl _ less
    · -- The frames ran out on the way, and before it there was one.
      obtain ⟨f, rest, free⟩ : ∃ f rest, g.free = f :: rest := List.exists_cons_of_length_pos some
      obtain ⟨s', run, exhausted, -⟩ := Panicking.pageFault_panic inv high bound (by omega)
      rw [agrees.panicked _ s' run] at exhausted
      obtain ⟨_, alloc, -⟩ := (free ▸ inv.stack).frameAllocInternal_cons
      cases alloc.symm.trans exhausted
  · intro outside
    by_cases high : dynamicStart < address
    · have none : g.free = [] := List.length_eq_zero_iff.mp (by
        by_contra some
        exact outside ⟨high, by omega⟩)
      obtain ⟨s', run, -, same⟩ := Panicking.pageFault_panic inv high bound (by rw [none, List.length_nil]; omega)
      obtain rfl := same none
      have fails (handled : Bool) (t : Kernel) : Panicking.handleDynamicFault K s' address ≠ .ok (handled, t) := by
        intro first
        rw [Panicking.pageFault_eq first] at run
        cases run
      refine ⟨fun t first => absurd first (fails _ t), fun handled t first => absurd first (fails _ t),
        fun result t first => ?_, fun t first => ?_, fun e t failed => ?_⟩
      · cases first.symm.trans run
      · cases first.symm.trans run
      · cases failed.symm.trans run
        rfl
    · have first : Panicking.handleDynamicFault K s address = .ok (false, s) :=
        Halting.eq_ok_iff.mpr (Panicking.handleDynamicFault_plain.trans (handleDynamicFault_outside bound high))
      have run := Panicking.pageFault_eq first
      refine ⟨fun t again => ?_, fun handled t again change => ?_, fun result t again change => ?_, fun t again => ?_,
        fun e t failed => ?_⟩
      · cases first.symm.trans again
        rfl
      · cases first.symm.trans again
        exact absurd rfl change.choose_spec
      · cases run.symm.trans again
        exact absurd rfl change.choose_spec
      · cases run.symm.trans again
        rfl
      · cases run.symm.trans failed

/-- The result agrees with the effect exactly if there is no effect: outside the window, or where
no frame is free, so that the allocator panics at once. A panic for want of frames for the
tables comes after a frame has been taken. -/
theorem handleDynamicFault_agrees_iff (reach : KernelReach F s live roots dynamic) (bound : address < 2 ^ 64) :
    ResultAgrees K s address ↔ ¬(dynamicStart < address ∧ FramesFree s 1) := by
  obtain ⟨g, events, h, -⟩ := reach.inv
  exact resultAgrees_iff h.kernel bound

end fault

/-- The small kernel boots with a thousand free frames and nothing in the dynamic window. -/
theorem smallKernel : ∃ s, KernelReach smallMemory s [] [linearAddressToPtr 0x1200000] [] ∧
    SpaceInv smallImage smallMemory.arena s (Ghost.boot smallImage smallMemory.arena) [] [linearAddressToPtr 0x1200000] [] ∧
    (∀ n ≤ 1024, FramesFree s n) ∧
    ∀ v, dynamicStart < v → v < 2 ^ 64 → walk s.mem smallImage.kernelPml4 v = none := by
  obtain ⟨m, made, tables, -⟩ := createKernelAddressSpace_eq smallImage ⟨fun _ => 0, 0, 0, 0⟩
  have h := SpaceInv.boot (F := smallMemory) made
  refine ⟨_, .boot made, h, fun n few => (framesFree_iff h.kernel).mpr ?_, fun v high bound => ?_⟩
  · rw [Ghost.boot_free, frameRange_length]
    exact few
  · have slot := index_of_dynamic high.le bound
    rw [walk_dynamic h.kernel h.kernel.kernelRoot (Or.inr ⟨dynamic_high high.le, bound⟩) slot,
      dynamic_vacant h.kernel (fun {t p} place => (owner_boot.mp place).2.2) slot.2]
    rfl

theorem handleDynamicFault_serves_iff_page : ∃ s, KernelReach smallMemory s [] [linearAddressToPtr 0x1200000] [] ∧
    ((∃ handled s', handleDynamicFault smallImage s 0xFFFFFFFFC0001000 = .ok (handled, s') ∧
        FaultServed smallImage s s' [linearAddressToPtr 0x1200000] 0xFFFFFFFFC0001000) ↔
      0xFFFFFFFFC0001000 % 4096 = 0 ∧
        FramesFree s (1 + tablesMissing s.mem 3 smallImage.kernelPml4 0xFFFFFFFFC0001000)) := by
  obtain ⟨s, reach, -, -, unmapped⟩ := smallKernel
  exact ⟨s, reach, handleDynamicFault_serves_iff reach (by decide) (by decide) (unmapped _ (by decide) (by decide))⟩

/-- A fault one byte into the first page of the window gets the next page mapped. -/
theorem handleDynamicFault_misses_page : ¬ ∀ (K : KernelImage) (F : FreeMemory K) (s : Kernel) (live roots : List Nat)
    (dynamic : List Bool) (address : Nat), KernelReach F s live roots dynamic → FramesFree s 1 → dynamicStart < address →
    address < 2 ^ 64 → walk s.mem K.kernelPml4 address = none →
    ∃ handled s', handleDynamicFault K s address = .ok (handled, s') ∧ FaultServed K s s' roots address := by
  intro serves
  obtain ⟨s, reach, h, free, unmapped⟩ := smallKernel
  have vacant := unmapped 0xFFFFFFFFC0000001 (by decide) (by decide)
  have served := serves _ _ s _ _ _ 0xFFFFFFFFC0000001 reach (free 1 (by decide)) (by decide) (by decide) vacant
  exact absurd ((faultServed_iff h (by decide) (by decide) vacant).mp served).1 (by decide)

theorem handleDynamicFault_agrees_iff_null : ∃ s, KernelReach smallMemory s [] [linearAddressToPtr 0x1200000] [] ∧
    (ResultAgrees smallImage s 0 ↔ ¬(dynamicStart < 0 ∧ FramesFree s 1)) := by
  obtain ⟨s, reach, -⟩ := smallKernel
  exact ⟨s, reach, handleDynamicFault_agrees_iff reach (by decide)⟩

/-- A page of the window is backed with a frame, and the processor is halted all the same. -/
theorem handleDynamicFault_halts_mapped : ¬ ∀ (K : KernelImage) (F : FreeMemory K) (s : Kernel) (live roots : List Nat)
    (dynamic : List Bool) (address : Nat), KernelReach F s live roots dynamic → address < 2 ^ 64 → ResultAgrees K s address := by
  intro agrees
  obtain ⟨s, reach, h, free, -⟩ := smallKernel
  have all := agrees _ _ s _ _ _ 0xFFFFFFFFC0001000 reach (by decide)
  exact (resultAgrees_iff h.kernel (by decide)).mp all ⟨by decide, free 1 (by decide)⟩

end MetalToApp

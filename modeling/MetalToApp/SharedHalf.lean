import MetalToApp.AddressSpaceRuns

namespace MetalToApp
open ByteMemory Paging

/-- What a walk finds in the part of the kernel half that is mapped once and for all. -/
def fixedWalk (v : Nat) : Option Translation :=
  if index 3 v = 256 then some ⟨index 2 v * addrshift1G + v % addrshift1G, false, true⟩
  else if index 3 v = 511 ∧ index 2 v = 510 ∧ index 1 v < 16 then
    some ⟨index 1 v * addrshift2M + v % addrshift2M, false, writable (pagedirWord (index 1 v))⟩
  else none

/-- The address belongs to the dynamic window. -/
def InDynamic (v : Nat) : Prop := index 3 v = 511 ∧ index 2 v = 511

instance : DecidablePred InDynamic := fun _ => inferInstanceAs (Decidable (_ ∧ _))

theorem pagedirWord_page {i : Nat} (small : i < 16) : present (pagedirWord i) = true ∧ big (pagedirWord i) = true ∧
    usermode (pagedirWord i) = false ∧ frameOf (pagedirWord i) = i * addrshift2M := by
  have aligned : i * addrshift2M % 4096 = 0 := by simp only [addrshift2M]; omega
  rw [pagedirWord, if_pos small, present, big, usermode, flag_aligned_add aligned (by decide),
    flag_aligned_add aligned (by decide), flag_aligned_add aligned (by decide),
    frameOf_aligned_add aligned (by split <;> decide) (by simp only [addrshift2M]; omega)]
  refine ⟨?_, ?_, ?_, rfl⟩ <;> split <;> rfl

section walk
variable {K : KernelImage} {A : Arena} {s s' : Kernel} {g g' : Ghost} {r r' v w : Nat} {m : Memory}

theorem walk_top (inv : KernelInv K A s g) (space : g.spaces r) (canonical : Canonical v) :
    walk s.mem r v = walkFrom s.mem 3 r v true true := by
  have page := inv.page (inv.root_owner space)
  rw [walk, if_pos canonical, frameOf_eq_self page.1 (by omega)]

/-- In the last slot of a root table a walk goes on through `kernel_pagedirtable`. -/
theorem walk_pagedirtable (inv : KernelInv K A s g) (space : g.spaces r) (canonical : Canonical v) (top : index 3 v = 511) :
    walk s.mem r v = walkFrom s.mem 2 K.kernelPagedirtable v true true := by
  have table := K.page (t := K.kernelPagedirtable) (by simp)
  have entry : word s.mem r 511 = K.kernelPagedirtable + entryBits true := inv.upper space (by decide) (by decide)
  rw [walk_top inv space canonical, walkFrom, top]
  simp only [entry, present_entry table.1, big_entry table.1, if_true, Bool.false_eq_true, if_false,
    frameOf_entry table.1 table.2.2, usermode_entry table.1, writable_entry table.1, Bool.and_true]

theorem walk_dynamic (inv : KernelInv K A s g) (space : g.spaces r) (canonical : Canonical v) (dynamic : InDynamic v) :
    walk s.mem r v = (pageAt s.mem K.kernelPagedirtable (dynamicKey v)).map fun q => ⟨q.1 + v % 4096, q.2, true⟩ := by
  rw [walk_pagedirtable inv space canonical dynamic.1]
  exact walkFrom_eq_pageAt inv inv.pagedirtable_owner (if_pos rfl).symm
    (fun _ => ⟨index_lt _ _, fun _ => by rw [if_pos rfl, dynamic.2]⟩) (leafKey_dynamic K g dynamic.2)

/-- A walk of the linear window goes through `kernel_linear`. -/
theorem walk_linear (page : r % 4096 = 0 ∧ r + 4096 ≤ 2 ^ 39) (canonical : Canonical v) (slot : index 3 v = 256)
    (root : word m r 256 = K.kernelLinear + entryBits false) :
    walk m r v = walkFrom m 2 K.kernelLinear v false true := by
  have table := K.page (t := K.kernelLinear) (by simp)
  rw [walk, if_pos canonical, frameOf_eq_self page.1 (by omega), walkFrom, slot]
  simp only [root, present_entry table.1, if_true, big_entry table.1, Bool.false_eq_true, if_false,
    frameOf_entry table.1 table.2.2, usermode_entry table.1, writable_entry table.1, Bool.and_self, Bool.and_false]

theorem walk_fixed (inv : KernelInv K A s g) (space : g.spaces r) (high : 2 ^ 64 - 2 ^ 47 ≤ v) (bound : v < 2 ^ 64)
    (fixed : ¬InDynamic v) : walk s.mem r v = fixedWalk v := by
  have canonical : Canonical v := Or.inr ⟨high, bound⟩
  by_cases atLinear : index 3 v = 256
  · have page := inv.page (inv.root_owner space)
    have root : word s.mem r 256 = K.kernelLinear + entryBits false := inv.upper space (by decide) (by decide)
    have below := index_lt 2 v
    have here : present (index 2 v * addrshift1G + 0x83) = true := by
      rw [present, flag_aligned_add (by simp only [addrshift1G]; omega) (by decide)]
      rfl
    have canWrite : writable (index 2 v * addrshift1G + 0x83) = true := by
      rw [writable, flag_aligned_add (by simp only [addrshift1G]; omega) (by decide)]
      rfl
    have base : frameOf (index 2 v * addrshift1G + 0x83) = index 2 v * addrshift1G :=
      frameOf_aligned_add (by simp only [addrshift1G]; omega) (by decide) (by simp only [addrshift1G]; omega)
    rw [walk_linear ⟨page.1, page.2.2⟩ canonical atLinear root, walkFrom, inv.linear _ below, fixedWalk, if_pos atLinear]
    simp only [here, big_linear, if_true, if_neg (show ¬(1 + 1 = 3) by decide), canWrite, base, Bool.false_and, Bool.and_self,
      show 2 ^ (12 + 9 * (1 + 1)) = addrshift1G from rfl, Nat.mul_div_cancel _ (show 0 < addrshift1G by decide)]
  · by_cases atTable : index 3 v = 511
    · have below := index_lt 2 v
      have slot : index 2 v ≠ 511 := fun dynamic => fixed ⟨atTable, dynamic⟩
      have entry := inv.pagedirtable (index 2 v) (by omega)
      rw [walk_pagedirtable inv space canonical atTable, walkFrom, show index (1 + 1) v = index 2 v from rfl, entry,
        fixedWalk, if_neg atLinear]
      by_cases kernel : index 2 v = 510
      · have pagedir := K.page (t := K.kernelPagedir) (by simp)
        simp only [if_pos kernel, present_entry pagedir.1, big_entry pagedir.1, if_true, Bool.false_eq_true, if_false,
          frameOf_entry pagedir.1 pagedir.2.2, usermode_entry pagedir.1, writable_entry pagedir.1, Bool.and_true]
        rw [walkFrom, show index (0 + 1) v = index 1 v from rfl, inv.pagedir _ (index_lt 1 v)]
        by_cases small : index 1 v < 16
        · obtain ⟨here, large, noUser, base⟩ := pagedirWord_page small
          rw [if_pos (show index 3 v = 511 ∧ index 2 v = 510 ∧ index 1 v < 16 from ⟨atTable, kernel, small⟩)]
          simp only [here, large, if_true, if_neg (show ¬(0 + 1 = 3) by decide), noUser, base, Bool.and_false, Bool.true_and,
            show 2 ^ (12 + 9 * (0 + 1)) = addrshift2M from rfl, Nat.mul_div_cancel _ (show 0 < addrshift2M by decide)]
        · rw [if_neg (show ¬(index 3 v = 511 ∧ index 2 v = 510 ∧ index 1 v < 16) from fun fits => small fits.2.2), pagedirWord,
            if_neg small]
          rfl
      · rw [if_neg kernel, if_neg (show ¬(index 3 v = 511 ∧ index 2 v = 510 ∧ index 1 v < 16) from fun fits => kernel fits.2.1)]
        rfl
    · have entry := inv.upper space (index_three_of_upper high bound) (index_lt 3 v)
      rw [kernelWord, if_neg atLinear, if_neg atTable] at entry
      rw [walk_top inv space canonical, walkFrom, entry, fixedWalk, if_neg atLinear,
        if_neg (show ¬(index 3 v = 511 ∧ index 2 v = 510 ∧ index 1 v < 16) from fun fits => atTable fits.1)]
      rfl

/-- The kernel half of every address space: the fixed windows, and the pages of the dynamic one. -/
theorem walk_upper (inv : KernelInv K A s g) (space : g.spaces r) (high : 2 ^ 64 - 2 ^ 47 ≤ v) (bound : v < 2 ^ 64) :
    walk s.mem r v = if InDynamic v then
        (pageAt s.mem K.kernelPagedirtable (dynamicKey v)).map fun q => ⟨q.1 + v % 4096, q.2, true⟩
      else fixedWalk v := by
  by_cases dynamic : InDynamic v
  · rw [if_pos dynamic, walk_dynamic inv space (Or.inr ⟨high, bound⟩) dynamic]
  · rw [if_neg dynamic, walk_fixed inv space high bound dynamic]

/-- Nothing is mapped into the dynamic window. -/
def Ghost.Bare (g : Ghost) (K : KernelImage) : Prop := ∀ {t p}, g.owner t = some (K.kernelPagedirtable, p) → p = []

theorem dynamic_vacant (inv : KernelInv K A s g) (bare : g.Bare K) (slot : index 2 v = 511) :
    pageAt s.mem K.kernelPagedirtable (dynamicKey v) = none := by
  have key := leafKey_dynamic K g slot
  exact inv.forest.lookup_cons_of_vacant _ key.root key.path fun t owned => nomatch bare owned

theorem fixedWalk_supervisor {q : Translation} (found : fixedWalk v = some q) : q.user = false := by
  unfold fixedWalk at found
  split_ifs at found <;> cases found <;> rfl

end walk

/-- How many tables are missing on the way to the entry for an address. -/
def tablesMissing (m : Memory) : Nat → Nat → Nat → Nat
  | 0, _, _ => 0
  | level + 1, table, v =>
    if present (word m table (index (level + 1) v)) then
      tablesMissing m level (frameOf (word m table (index (level + 1) v))) v
    else level + 1

theorem tablesMissing_le (m : Memory) (level table v : Nat) : tablesMissing m level table v ≤ level := by
  induction level generalizing table with
  | zero => exact le_rfl
  | succ level ih =>
    rw [tablesMissing]
    split
    · exact (ih _).trans (Nat.le_succ level)
    · exact le_rfl

section kernelSpace
variable {K : KernelImage} {A : Arena} {s s' : Kernel} {g g' : Ghost} {r t v w f : Nat} {p : List Nat}

theorem missing_none {level : Nat} (none : ∀ q ∈ stations v level p, ¬g.Has r q) : missing g r (stations v level p) = level := by
  have length : (stations v level p).length = level := by
    clear none
    induction level generalizing p with
    | zero => rfl
    | succ level ih => rw [stations, List.length_cons, ih]
  rw [missing, List.countP_eq_length.mpr fun q member => by simpa using none q member, length]

theorem KernelInv.has_of_stations (inv : KernelInv K A s g) {level : Nat} {q : List Nat} (member : q ∈ stations v level p)
    (has : g.Has r q) : g.Has r p := by
  induction level generalizing p with
  | zero => cases member
  | succ level ih =>
    have child : g.Has r (index (level + 1) v :: p) := by
      rcases List.mem_cons.mp member with rfl | deeper
      · exact has
      · exact ih deeper
    obtain ⟨c, owned⟩ := child
    obtain ⟨t, place, -⟩ := inv.forest.owner_child owned
    exact ⟨t, place⟩

/-- The tables missing in memory are those the bookkeeping lacks. -/
theorem missing_eq_tablesMissing {level : Nat} (inv : KernelInv K A s g) (place : g.owner t = some (r, p))
    (depth : p.length + level = (shape K g.spaces).height r)
    (slot : level ≠ 0 → (shape K g.spaces).slot r p (index level v)) :
    missing g r (stations v level p) = tablesMissing s.mem level t v := by
  induction level generalizing t p with
  | zero => rfl
  | succ level ih =>
    have here := slot (by omega)
    have below : p.length < (shape K g.spaces).height r := by omega
    rw [tablesMissing]
    rcases inv.link place below here with zero | ⟨c, aligned, room, eq⟩
    · have vacant := childTable_zero zero
      have hasNot := inv.not_has place vacant
      rw [zero, if_neg (by decide)]
      refine missing_none fun q member has => hasNot ?_
      rcases List.mem_cons.mp member with rfl | deeper
      · exact has
      · exact inv.has_of_stations deeper has
    · have owned := inv.forest.child_owner place below here (childTable_entry aligned room eq)
      rw [eq, if_pos (present_entry aligned), frameOf_entry aligned room, stations, missing_cons_of_has ⟨c, owned⟩]
      exact ih owned (by simp only [List.length_cons]; omega)
        fun _ => ⟨index_lt _ _, fun top => absurd top (List.cons_ne_nil _ _)⟩

/-- The addresses that the kernel's own space maps page by page. -/
def PagedAddress (v : Nat) : Prop := v < 2 ^ 47 ∨ dynamicStart ≤ v ∧ v < 2 ^ 64

/-- The tree that holds the entry for such an address. -/
def kernelTree (K : KernelImage) (v : Nat) : Nat := if v < 2 ^ 47 then K.kernelPml4 else K.kernelPagedirtable

def kernelKey (v : Nat) : List Nat := if v < 2 ^ 47 then pageKey v else dynamicKey v

theorem tablesMissing_lower (inv : KernelInv K A s g) (low : v < 2 ^ 47) :
    missing g K.kernelPml4 (stations v 3 []) = tablesMissing s.mem 3 K.kernelPml4 v :=
  missing_eq_tablesMissing inv (inv.root_owner inv.kernelRoot) (by rw [height_of_space inv inv.kernelRoot]; rfl)
    fun _ => ⟨index_lt _ _, fun _ => by rw [if_neg (inv.space_ne inv.kernelRoot)]; exact index_three_of_lower low⟩

theorem tablesMissing_dynamic (inv : KernelInv K A s g) (high : dynamicStart ≤ v) (bound : v < 2 ^ 64) :
    missing g K.kernelPagedirtable (stations v 2 []) = tablesMissing s.mem 3 K.kernelPml4 v := by
  obtain ⟨top, slot⟩ := index_of_dynamic high bound
  have table := K.page (t := K.kernelPagedirtable) (by simp)
  have entry : word s.mem K.kernelPml4 511 = K.kernelPagedirtable + entryBits true :=
    inv.upper inv.kernelRoot (by decide) (by decide)
  rw [tablesMissing, top, entry, if_pos (present_entry table.1), frameOf_entry table.1 table.2.2]
  exact missing_eq_tablesMissing inv inv.pagedirtable_owner (if_pos rfl).symm
    fun _ => ⟨index_lt _ _, fun _ => by rwa [if_pos rfl]⟩

/-- Mapping a page in the kernel's own space takes the tables that are missing for it. -/
theorem mmap_kernel (user : Bool) (inv : KernelInv K A s g) (paged : PagedAddress v) (aligned : f % 4096 = 0)
    (room : f + 4096 ≤ 2 ^ 39) (enough : tablesMissing s.mem 3 K.kernelPml4 v ≤ g.free.length) :
    ∃ s' g', mmap s (linearAddressToPtr K.kernelPml4) f v user = .ok s' ∧
      Remapped K A s g s' g' (kernelTree K v) (kernelKey v) (some (f, user)) := by
  by_cases low : v < 2 ^ 47
  · rw [← tablesMissing_lower inv low] at enough
    obtain ⟨s', g', run, remapped, -⟩ := mmap_remapped user inv inv.kernelRoot (index_three_of_lower low) aligned room enough
    rw [kernelTree, kernelKey, if_pos low, if_pos low]
    exact ⟨s', g', run, remapped⟩
  · obtain ⟨high, bound⟩ := paged.resolve_left low
    rw [← tablesMissing_dynamic inv high bound] at enough
    obtain ⟨t, s₁, g', resolved, grown, place⟩ := resolvePageentry_dynamic_grown inv inv.kernelRoot high bound enough
    obtain ⟨s', run, remapped⟩ := mmap_of_grown user resolved grown place
      (leafKey_dynamic K g (index_of_dynamic high bound).2) aligned room
    rw [kernelTree, kernelKey, if_neg low, if_neg low]
    exact ⟨s', g', run, remapped⟩

theorem mmap_kernel_panic (user : Bool) (inv : KernelInv K A s g) (paged : PagedAddress v)
    (short : g.free.length < tablesMissing s.mem 3 K.kernelPml4 v) :
    mmap s (linearAddressToPtr K.kernelPml4) f v user = .error .panic := by
  by_cases low : v < 2 ^ 47
  · rw [← tablesMissing_lower inv low] at short
    rw [mmap, resolvePageentry_panic inv inv.kernelRoot (index_three_of_lower low) short, Outcome.error_bind]
  · obtain ⟨high, bound⟩ := paged.resolve_left low
    rw [← tablesMissing_dynamic inv high bound] at short
    have slot := index_of_dynamic high bound
    rw [mmap, resolvePageentry_dynamic inv inv.kernelRoot slot.1, resolveFrom_panic inv inv.pagedirtable_owner (if_pos rfl).symm
      (fun _ => ⟨index_lt _ _, fun _ => by rw [if_pos rfl, slot.2]⟩) short, Outcome.error_bind]

theorem dynamic_high (high : dynamicStart ≤ v) : 2 ^ 64 - 2 ^ 47 ≤ v := by
  simp only [dynamicStart, kernelBase, addrshift1G] at high
  omega

/-- The kernel's own space translates such an address as its entry says. -/
theorem walk_kernel (inv : KernelInv K A s g) (paged : PagedAddress v) :
    walk s.mem K.kernelPml4 v =
      (pageAt s.mem (kernelTree K v) (kernelKey v)).map fun q => ⟨q.1 + v % 4096, q.2, true⟩ := by
  by_cases low : v < 2 ^ 47
  · rw [kernelTree, kernelKey, if_pos low, if_pos low, walk_lower inv inv.kernelRoot low]
  · obtain ⟨high, bound⟩ := paged.resolve_left low
    rw [kernelTree, kernelKey, if_neg low, if_neg low,
      walk_dynamic inv inv.kernelRoot (Or.inr ⟨dynamic_high high, bound⟩) (index_of_dynamic high bound)]

theorem dynamic_page (high : dynamicStart ≤ v) (bound : v < 2 ^ 64) (inside : InDynamic w) (upper : 2 ^ 64 - 2 ^ 47 ≤ w)
    (bound' : w < 2 ^ 64) (same : dynamicKey w = dynamicKey v) : w / 4096 = v / 4096 := by
  simp only [dynamicKey, leafPath, List.cons.injEq, and_true] at same
  simp only [InDynamic, index, Nat.reduceMul, Nat.reduceAdd, Nat.reducePow] at inside same
  simp only [dynamicStart, kernelBase, addrshift1G] at high
  omega

/-- Remapping a page of the kernel's own space changes the translation of no other page, in any space. -/
theorem walk_kernel_others (inv : KernelInv K A s g) (paged : PagedAddress v) {page : Option (Nat × Bool)}
    (remapped : Remapped K A s g s' g' (kernelTree K v) (kernelKey v) page) (space : g.spaces r)
    (differ : w / 4096 ≠ v / 4096) : walk s'.mem r w = walk s.mem r w := by
  have after : g'.spaces r := by rwa [remapped.spaces]
  by_cases lower : w < 2 ^ 47
  · rw [walk_lower inv space lower, walk_lower remapped.inv after lower]
    have same := remapped.others (leafKey_of_space inv space (index_three_of_lower lower)) fun tree key => ?_
    · exact congrArg _ same
    · by_cases low : v < 2 ^ 47
      · rw [kernelKey, if_pos low] at key
        exact differ ((lower_page lower low).mp key)
      · rw [kernelTree, if_neg low] at tree
        exact inv.space_ne space tree
  · by_cases upper : 2 ^ 64 - 2 ^ 47 ≤ w ∧ w < 2 ^ 64
    · rw [walk_upper inv space upper.1 upper.2, walk_upper remapped.inv after upper.1 upper.2]
      split
      · rename_i inside
        have same := remapped.others (leafKey_dynamic K g inside.2) fun tree key => ?_
        · exact congrArg _ same
        · by_cases low : v < 2 ^ 47
          · rw [kernelTree, if_pos low] at tree
            exact inv.space_ne inv.kernelRoot tree.symm
          · obtain ⟨high, bound⟩ := paged.resolve_left low
            rw [kernelKey, if_neg low] at key
            exact differ (dynamic_page high bound inside upper.1 upper.2 key)
      · rfl
    · have outside : ¬Canonical w := fun canonical => canonical.elim lower upper
      rw [walk, walk, if_neg outside, if_neg outside]

end kernelSpace

/-- The kernel's states while address spaces are made and pages are mapped, with the frames that
clients hold, the root pointers they were given, and the user permissions of what was mapped into
the dynamic window. Any page below the end of the linear window may be mapped, by any client. -/
inductive KernelReach {K : KernelImage} (F : FreeMemory K) : Kernel → List Nat → List Nat → List Bool → Prop
  | boot {s s' space} : createKernelAddressSpace K s = .ok (space, s') →
      KernelReach F (initFrameAllocator s' F.fmStart F.fmEnd) [] [linearAddressToPtr space] []
  | alloc {s s' live roots dynamic f} (request : FrameRequest) : KernelReach F s live roots dynamic →
      request.run s = .ok (f, s') → KernelReach F s' (f :: live) roots dynamic
  | dealloc {s s' live roots dynamic f} : KernelReach F s live roots dynamic → f ∈ live →
      frameDealloc s f = .ok s' → KernelReach F s' (live.erase f) roots dynamic
  | write {s live roots dynamic f o} (b : UInt8) : KernelReach F s live roots dynamic → f ∈ live →
      o < 4096 → KernelReach F { s with mem := set s.mem (f + o) b } live roots dynamic
  | create {s s' live roots dynamic root} : KernelReach F s live roots dynamic →
      createAddressSpace K s = .ok (root, s') → KernelReach F s' live (root :: roots) dynamic
  | mmap {s s' live roots dynamic root f v} (user : Bool) : KernelReach F s live roots dynamic →
      root ∈ roots → f % 4096 = 0 → f + 4096 ≤ 2 ^ 39 → v < 2 ^ 47 → mmap s root f v user = .ok s' →
      KernelReach F s' live roots dynamic
  | munmap {s s' live roots dynamic root v f} : KernelReach F s live roots dynamic →
      root ∈ roots → v < 2 ^ 47 → munmap s root v = .ok (f, s') → KernelReach F s' live roots dynamic
  | mmapDynamic {s s' live roots dynamic f v} (user : Bool) : KernelReach F s live roots dynamic →
      f % 4096 = 0 → f + 4096 ≤ 2 ^ 39 → dynamicStart ≤ v → v < 2 ^ 64 →
      mmap s (linearAddressToPtr K.kernelPml4) f v user = .ok s' → KernelReach F s' live roots (user :: dynamic)
  | munmapDynamic {s s' live roots dynamic f v} : KernelReach F s live roots dynamic →
      dynamicStart ≤ v → v < 2 ^ 64 → munmap s (linearAddressToPtr K.kernelPml4) v = .ok (f, s') →
      KernelReach F s' live roots dynamic

/-- All address spaces have the kernel half of the kernel's own, and nothing in it is open to the
user unless it was mapped so into the dynamic window. -/
structure HalfShared (K : KernelImage) (s : Kernel) (roots : List Nat) (dynamic : List Bool) : Prop where
  walk : ∀ root ∈ roots, ∃ cr3, pointerToLinearAddress root = .ok cr3 ∧ ∀ v, 2 ^ 64 - 2 ^ 47 ≤ v → v < 2 ^ 64 →
    Paging.walk s.mem cr3 v = Paging.walk s.mem K.kernelPml4 v
  supervisor : (∀ user ∈ dynamic, user = false) → ∀ root ∈ roots, ∀ cr3, pointerToLinearAddress root = .ok cr3 →
    ∀ v, 2 ^ 64 - 2 ^ 47 ≤ v → v < 2 ^ 64 → ∀ q, Paging.walk s.mem cr3 v = some q → q.user = false

/-- The pages of the dynamic window have one of these user permissions. -/
def DynamicFlags (K : KernelImage) (s : Kernel) (dynamic : List Bool) : Prop :=
  ∀ v, index 2 v = 511 → ∀ f user, pageAt s.mem K.kernelPagedirtable (dynamicKey v) = some (f, user) → user ∈ dynamic

section reach
variable {K : KernelImage} {A : Arena} {F : FreeMemory K} {s s' : Kernel} {g g' : Ghost} {live roots : List Nat}
  {events : List MapEvent} {dynamic : List Bool}

theorem DynamicFlags.kept (flags : DynamicFlags K s dynamic) (kept : PagesKept K g s s') : DynamicFlags K s' dynamic := by
  intro v slot f user found
  exact flags v slot f user ((kept (leafKey_dynamic K g slot)).symm.trans found)

/-- An operation on a page outside the window changes nothing in it. -/
theorem DynamicFlags.lower (flags : DynamicFlags K s dynamic) {r : Nat} {key : List Nat} {page : Option (Nat × Bool)}
    (inv : KernelInv K A s g) (space : g.spaces r) (remapped : Remapped K A s g s' g' r key page) :
    DynamicFlags K s' dynamic := by
  intro v slot f user found
  refine flags v slot f user ((remapped.others (leafKey_dynamic K g slot) fun same => ?_).symm.trans found)
  exact absurd same.symm (inv.space_ne space)

theorem DynamicFlags.remap (flags : DynamicFlags K s dynamic) {w : Nat} {page : Option (Nat × Bool)}
    (remapped : Remapped K A s g s' g' K.kernelPagedirtable (dynamicKey w) page) {dynamic' : List Bool}
    (more : ∀ user ∈ dynamic, user ∈ dynamic') (new : ∀ f user, page = some (f, user) → user ∈ dynamic') :
    DynamicFlags K s' dynamic' := by
  intro v slot f user found
  by_cases here : dynamicKey v = dynamicKey w
  · rw [here, remapped.page] at found
    exact new f user found
  · have same := remapped.others (leafKey_dynamic K g slot) fun _ => here
    exact more user (flags v slot f user (same.symm.trans found))

theorem KernelReach.inv (reach : KernelReach F s live roots dynamic) :
    ∃ g events, SpaceInv K F.arena s g live roots events ∧ DynamicFlags K s dynamic := by
  induction reach with
  | boot run =>
    have h := SpaceInv.boot (F := F) run
    refine ⟨_, [], h, fun v slot f user found => ?_⟩
    rw [dynamic_vacant h.kernel (fun {t p} place => (owner_boot.mp place).2.2) slot] at found
    cases found
  | alloc request _ run ih =>
    obtain ⟨g, events, h, flags⟩ := ih
    obtain ⟨g', h', kept⟩ := h.alloc run
    exact ⟨g', events, h', flags.kept kept⟩
  | dealloc _ member run ih =>
    obtain ⟨g, events, h, flags⟩ := ih
    obtain ⟨g', h', kept⟩ := h.dealloc member run
    exact ⟨g', events, h', flags.kept kept⟩
  | write b _ member inside ih =>
    obtain ⟨g, events, h, flags⟩ := ih
    obtain ⟨h', kept⟩ := h.write member inside b
    exact ⟨g, events, h', flags.kept kept⟩
  | create _ run ih =>
    obtain ⟨g, events, h, flags⟩ := ih
    obtain ⟨g', h', kept⟩ := h.create run
    exact ⟨g', events, h', flags.kept kept⟩
  | @mmap s s' live roots dynamic root f v user _ member aligned room low run ih =>
    obtain ⟨g, events, h, flags⟩ := ih
    obtain ⟨r, g', rfl, space, remapped⟩ := h.mmap_event member aligned room low run
    exact ⟨g', .mmap _ (v / 4096) f user :: events, h.remap space low member rfl rfl remapped, flags.lower h.kernel space remapped⟩
  | @munmap s s' live roots dynamic root v f _ member low run ih =>
    obtain ⟨g, events, h, flags⟩ := ih
    obtain ⟨r, g', rfl, space, -, remapped⟩ := h.munmap_event member low run
    exact ⟨g', .munmap _ (v / 4096) :: events, h.remap space low member rfl rfl remapped, flags.lower h.kernel space remapped⟩
  | mmapDynamic user _ aligned room high bound run ih =>
    obtain ⟨g, events, h, flags⟩ := ih
    obtain ⟨g', remapped⟩ := mmap_dynamic h.kernel h.kernel.kernelRoot high bound aligned room run
    refine ⟨g', events, h.dynamic remapped, flags.remap remapped (fun _ member => List.mem_cons_of_mem _ member) ?_⟩
    rintro f _ ⟨⟩
    exact List.mem_cons_self
  | munmapDynamic _ high bound run ih =>
    obtain ⟨g, events, h, flags⟩ := ih
    obtain ⟨g', remapped⟩ := munmap_dynamic h.kernel h.kernel.kernelRoot high bound run
    exact ⟨g', events, h.dynamic remapped, flags.remap remapped (fun _ member => member) nofun⟩

/-- From boot on, all address spaces agree on the kernel half, whatever is mapped below the
end of the linear window: the lower half of any of them, and the dynamic window of the kernel's
own. -/
theorem kernelHalf_shared (reach : KernelReach F s live roots dynamic) : HalfShared K s roots dynamic := by
  obtain ⟨g, events, h, flags⟩ := reach.inv
  constructor
  case walk =>
    intro root member
    obtain ⟨r, rfl, space⟩ := h.space root member
    have page := h.kernel.page (h.kernel.root_owner space)
    refine ⟨r, pointerToLinearAddress_linear page.2.1 (by omega), fun v high bound => ?_⟩
    rw [walk_upper h.kernel space high bound, walk_upper h.kernel h.kernel.kernelRoot high bound]
  case supervisor =>
    intro none root member cr3 physical v high bound q found
    obtain ⟨r, rfl, space⟩ := h.space root member
    have page := h.kernel.page (h.kernel.root_owner space)
    cases (pointerToLinearAddress_linear page.2.1 (by omega)).symm.trans physical
    rw [walk_upper h.kernel space high bound] at found
    split at found
    · rename_i inside
      obtain ⟨⟨f, user⟩, mapped, rfl⟩ := Option.map_eq_some_iff.mp found
      exact none user (flags v inside.2 f user mapped)
    · exact fixedWalk_supervisor found

end reach

theorem kernelHalf_shared_dynamic : ∃ s root, KernelReach smallMemory s [] [root, linearAddressToPtr 0x1200000] [false] ∧
    HalfShared smallImage s [root, linearAddressToPtr 0x1200000] [false] := by
  obtain ⟨m, made, -, -⟩ := createKernelAddressSpace_eq smallImage ⟨fun _ => 0, 0, 0, 0⟩
  have h := SpaceInv.boot (F := smallMemory) made
  have free := (Ghost.boot_free smallImage smallMemory.arena).trans smallMemory_frames
  obtain ⟨s₁, create, inv₁, -⟩ := createAddressSpace_space h.kernel free
  have few := tablesMissing_le s₁.mem 3 smallImage.kernelPml4 0xFFFFFFFFC0001000
  have enough : 3 ≤ (({ Ghost.boot smallImage smallMemory.arena with free := 0x1401000 :: frameRange 0x1402000 0x1800000 } :
      Ghost).withSpace 0x1400000).free.length := by
    rw [Ghost.withSpace_free, List.length_cons, frameRange_length]
    decide
  obtain ⟨s₂, g₂, map, -⟩ := mmap_kernel (f := 0x1401000) (v := 0xFFFFFFFFC0001000) false inv₁ (Or.inr (by decide)) rfl (by decide)
    (few.trans enough)
  have reach := (KernelReach.boot (F := smallMemory) made).create create |>.mmapDynamic false rfl (by decide) (by decide)
    (by decide) map
  exact ⟨s₂, _, reach, kernelHalf_shared reach⟩

end MetalToApp

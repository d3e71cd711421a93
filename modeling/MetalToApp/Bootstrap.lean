import MetalToApp.KernelWindows

namespace MetalToApp
open ByteMemory Paging

/-- `BOOTLOADER_END` of the linker script. -/
def bootloaderEnd : Nat := 0x200000

/-- Where the linker puts the page tables of `bootstrap.s`; `PDPT2` is another name for `PDPT`. -/
structure BootstrapImage where
  pml4 : Nat
  pdpt : Nat
  pd : Nat
  aligned : ∀ t ∈ [pml4, pdpt, pd], t % 4096 = 0
  inside : ∀ t ∈ [pml4, pdpt, pd], 0x100000 ≤ t ∧ t + 4096 ≤ bootloaderEnd

def bootstrapPml4 (B : BootstrapImage) (i : Nat) : Nat := if i = 0 ∨ i = 511 then B.pdpt + 1 + 2 else 0

def bootstrapPdpt (B : BootstrapImage) (i : Nat) : Nat := if i = 0 ∨ i = 510 then B.pd + 1 + 2 else 0

def bootstrapPd : List Nat :=
  [0x0 * 0x200000 + 1 + 2 + 4 + 0x80, 0x1 * 0x200000 + 1 + 0 + 4 + 0x80, 0x2 * 0x200000 + 1 + 0 + 4 + 0x80,
    0x3 * 0x200000 + 1 + 0 + 4 + 0x80, 0x4 * 0x200000 + 1 + 0 + 4 + 0x80, 0x5 * 0x200000 + 1 + 0 + 4 + 0x80,
    0x6 * 0x200000 + 1 + 0 + 4 + 0x80, 0x7 * 0x200000 + 1 + 0 + 4 + 0x80, 0x8 * 0x200000 + 1 + 2 + 0 + 0x80,
    0x9 * 0x200000 + 1 + 2 + 0 + 0x80, 0xa * 0x200000 + 1 + 2 + 0 + 0x80, 0xb * 0x200000 + 1 + 2 + 0 + 0x80,
    0xc * 0x200000 + 1 + 2 + 0 + 0x80, 0xd * 0x200000 + 1 + 2 + 0 + 0x80, 0xe * 0x200000 + 1 + 2 + 0 + 0x80,
    0xf * 0x200000 + 1 + 2 + 0 + 0x80]

/-- The tables as the boot loader loads them, padded with zeroes to their ends. -/
structure BootstrapTables (B : BootstrapImage) (m : Memory) : Prop where
  pml4 : ∀ i < 512, word m B.pml4 i = bootstrapPml4 B i
  pdpt : ∀ i < 512, word m B.pdpt i = bootstrapPdpt B i
  pd : ∀ i < 512, word m B.pd i = bootstrapPd.getD i 0

/-- Where the first 32M of memory appear until `createKernelAddressSpace` is done. -/
def bootstrapWindows : List Nat := [0, 510 * addrshift1G, 2 ^ 64 - addrshift512G, kernelBase]

/-- The 2M pages 1 to 7, the kernel's code and constants, are read-only. -/
def readOnlyText (a : Nat) : Bool := decide (0x200000 ≤ a ∧ a < 8 * 0x200000)

/-- What a walk through the tables of `bootstrap.s` finds, by the indices. -/
def bootstrapWalk (v : Nat) : Option Translation :=
  if (index 3 v = 0 ∨ index 3 v = 511) ∧ (index 2 v = 0 ∨ index 2 v = 510) ∧ index 1 v < 16 then
    some ⟨index 1 v * addrshift2M + v % addrshift2M, false, writable (bootstrapPd.getD (index 1 v) 0)⟩
  else none

theorem bootstrapPd_page {i : Nat} (small : i < 16) : present (bootstrapPd.getD i 0) = true ∧
    big (bootstrapPd.getD i 0) = true ∧ frameOf (bootstrapPd.getD i 0) = i * addrshift2M ∧
    writable (bootstrapPd.getD i 0) = !decide (1 ≤ i ∧ i < 8) := by
  interval_cases i <;> decide

theorem bootstrapPd_absent {i : Nat} (large : 16 ≤ i) : bootstrapPd.getD i 0 = 0 := by
  rw [List.getD_eq_getElem?_getD, List.getElem?_eq_none large, Option.getD_none]

namespace BootstrapTables
variable {B : BootstrapImage} {m m' : Memory} {v : Nat}

theorem entry {t : Nat} (member : t ∈ [B.pml4, B.pdpt, B.pd]) : t % 4096 = 0 ∧ t < 2 ^ 52 := by
  have inside := B.inside t member
  simp only [bootloaderEnd] at inside
  exact ⟨B.aligned t member, by omega⟩

/-- The entries that point at a table lack the user bit. -/
theorem pointer {t : Nat} (member : t ∈ [B.pml4, B.pdpt, B.pd]) : present (t + 1 + 2) = true ∧ big (t + 1 + 2) = false ∧
    usermode (t + 1 + 2) = false ∧ writable (t + 1 + 2) = true ∧ frameOf (t + 1 + 2) = t := by
  obtain ⟨aligned, bound⟩ := entry member
  rw [Nat.add_assoc, present, big, usermode, writable, flag_aligned_add aligned (by decide),
    flag_aligned_add aligned (by decide), flag_aligned_add aligned (by decide), flag_aligned_add aligned (by decide),
    frameOf_aligned_add aligned (by decide) bound]
  exact ⟨rfl, rfl, rfl, rfl, rfl⟩

theorem walk_eq (tables : BootstrapTables B m) (canonical : Canonical v) : walk m B.pml4 v = bootstrapWalk v := by
  have root := entry (B := B) (t := B.pml4) (by simp)
  have pdpt := pointer (B := B) (t := B.pdpt) (by simp)
  have pd := pointer (B := B) (t := B.pd) (by simp)
  rw [walk, if_pos canonical, frameOf_eq_self root.1 root.2, walkFrom, tables.pml4 _ (index_lt 3 v), bootstrapWalk, bootstrapPml4]
  by_cases top : index 3 v = 0 ∨ index 3 v = 511
  · simp only [if_pos top, pdpt.1, pdpt.2.1, pdpt.2.2.1, pdpt.2.2.2.1, pdpt.2.2.2.2, if_true, Bool.false_eq_true,
      if_false, Bool.and_true, Bool.and_false]
    rw [walkFrom, tables.pdpt _ (index_lt 2 v), bootstrapPdpt]
    by_cases mid : index 2 v = 0 ∨ index 2 v = 510
    · simp only [if_pos mid, pd.1, pd.2.1, pd.2.2.2.1, pd.2.2.2.2, if_true, Bool.false_eq_true, if_false, Bool.and_true,
        Bool.false_and]
      rw [walkFrom, tables.pd _ (index_lt 1 v)]
      by_cases low : index 1 v < 16
      · obtain ⟨isPresent, isBig, frame, -⟩ := bootstrapPd_page low
        have place : index 1 v * addrshift2M / 2 ^ (12 + 9 * (0 + 1)) * 2 ^ (12 + 9 * (0 + 1)) = index 1 v * addrshift2M := by
          simp only [addrshift2M]
          omega
        simp only [isPresent, isBig, frame, if_true, Bool.false_and, Bool.true_and, place, if_pos (And.intro top (And.intro mid low)),
          show ¬(0 + 1 = 3) by decide, if_false]
        rfl
      · rw [bootstrapPd_absent (show 16 ≤ index 1 v by omega)]
        simp [low, present, flag]
    · simp [mid, present, flag]
  · simp [top, present, flag]

end BootstrapTables

/-- The four windows, by the addresses they span. -/
theorem bootstrapWalk_eq_some_iff {v : Nat} {t : Translation} (canonical : Canonical v) :
    bootstrapWalk v = some t ↔ ∃ base ∈ bootstrapWindows, base ≤ v ∧ v < base + kernelMapped ∧
      t = ⟨v - base, false, !readOnlyText (v - base)⟩ := by
  have indices : (index 3 v = 0 ∨ index 3 v = 511) ∧ (index 2 v = 0 ∨ index 2 v = 510) ∧ index 1 v < 16 ↔
      ∃ base ∈ bootstrapWindows, base ≤ v ∧ v < base + kernelMapped := by
    simp only [bootstrapWindows, List.mem_cons, List.not_mem_nil, or_false, exists_eq_or_imp, exists_eq_left, kernelMapped,
      kernelBase, addrshift1G, addrshift2M, addrshift512G, Canonical, index] at canonical ⊢
    omega
  have place {base : Nat} (member : base ∈ bootstrapWindows) (lower : base ≤ v) (upper : v < base + kernelMapped) :
      index 1 v * addrshift2M + v % addrshift2M = v - base ∧
        writable (bootstrapPd.getD (index 1 v) 0) = !readOnlyText (v - base) := by
    have low := (indices.mpr ⟨base, member, lower, upper⟩).2.2
    have offset : index 1 v * addrshift2M + v % addrshift2M = v - base := by
      simp only [bootstrapWindows, List.mem_cons, List.not_mem_nil, or_false, kernelMapped, kernelBase, addrshift1G,
        addrshift2M, addrshift512G, index] at member upper ⊢
      omega
    refine ⟨offset, ?_⟩
    rw [(bootstrapPd_page low).2.2.2, ← offset, readOnlyText]
    refine congrArg Bool.not (decide_eq_decide.mpr ?_)
    simp only [addrshift2M]
    omega
  constructor
  · intro found
    have inside : (index 3 v = 0 ∨ index 3 v = 511) ∧ (index 2 v = 0 ∨ index 2 v = 510) ∧ index 1 v < 16 := by
      by_contra outside
      rw [bootstrapWalk, if_neg outside] at found
      cases found
    obtain ⟨base, member, lower, upper⟩ := indices.mp inside
    rw [bootstrapWalk, if_pos inside, Option.some.injEq, (place member lower upper).1, (place member lower upper).2] at found
    exact ⟨base, member, lower, upper, found.symm⟩
  · rintro ⟨base, member, lower, upper, rfl⟩
    rw [bootstrapWalk, if_pos (indices.mpr ⟨base, member, lower, upper⟩), (place member lower upper).1,
      (place member lower upper).2]

/-- Until the kernel has tables of its own, the processor sees the first 32M of memory in
four places, and user code sees nothing. -/
theorem bootstrap_walk_iff {B : BootstrapImage} {m : Memory} (tables : BootstrapTables B m) {v : Nat} {t : Translation} :
    walk m B.pml4 v = some t ↔ Canonical v ∧ ∃ base ∈ bootstrapWindows, base ≤ v ∧ v < base + kernelMapped ∧
      t = ⟨v - base, false, !readOnlyText (v - base)⟩ := by
  by_cases canonical : Canonical v
  · rw [tables.walk_eq canonical, bootstrapWalk_eq_some_iff canonical]
    exact (and_iff_right canonical).symm
  · rw [walk, if_neg canonical]
    exact iff_of_false (fun found => by cases found) fun inside => canonical inside.1

/-- The kernel's own tables protect the same pages. -/
theorem fixedWalk_kernelMapped {v : Nat} (inside : InKernelMapped v) :
    fixedWalk v = some ⟨v - kernelBase, false, !readOnlyText (v - kernelBase)⟩ := by
  obtain ⟨write, found⟩ := fixedWalk_kernel inside
  have half : KernelHalf v := by
    simp only [KernelHalf, InKernelMapped, kernelBase, kernelMapped, addrshift2M] at inside ⊢
    omega
  have slot := (index_kernelMapped half).mpr inside
  have other : index 3 v ≠ 256 := by omega
  rw [found]
  rw [fixedWalk, if_neg other, if_pos slot, Option.some.injEq, Translation.mk.injEq] at found
  rw [← found.2.2]
  have protection : ∀ i < 16, writable (pagedirWord i) = !decide (1 ≤ i ∧ i < 8) := by decide
  rw [protection _ slot.2.2, ← found.1, readOnlyText]
  refine congrArg (fun w => some (Translation.mk _ false (!w))) (decide_eq_decide.mpr ?_)
  simp only [addrshift2M]
  omega

/-- What loading `kernel_address_space` into `cr3` changes: nothing in the window in which the
kernel runs; elsewhere the linear window takes the place of the other three. -/
structure HandOff (B : BootstrapImage) (K : KernelImage) (m m' : Memory) : Prop where
  before : ∀ v q, walk m B.pml4 v = some q ↔ Canonical v ∧ ∃ base ∈ bootstrapWindows, base ≤ v ∧
    v < base + kernelMapped ∧ q = ⟨v - base, false, !readOnlyText (v - base)⟩
  kept : ∀ v, walk m' B.pml4 v = walk m B.pml4 v
  seamless : ∀ v, InKernelMapped v → ∃ q, walk m' B.pml4 v = some q ∧ walk m' K.kernelPml4 v = some q
  mapped : ∀ v, (walk m' K.kernelPml4 v).isSome ↔ InLinear v ∨ InKernelMapped v
  supervisor : ∀ v q, walk m' K.kernelPml4 v = some q → q.user = false

theorem BootstrapTables.congr {B : BootstrapImage} {m m' : Memory} (tables : BootstrapTables B m)
    (same : ∀ x < bootloaderEnd, m' x = m x) : BootstrapTables B m' := by
  have word {t i : Nat} (member : t ∈ [B.pml4, B.pdpt, B.pd]) (bound : i < 512) : word m' t i = word m t i := by
    have inside := B.inside t member
    exact word_congr (fun o inPage => same _ (by omega)) bound
  constructor
  · exact fun i bound => (word (by simp) bound).trans (tables.pml4 i bound)
  · exact fun i bound => (word (by simp) bound).trans (tables.pdpt i bound)
  · exact fun i bound => (word (by simp) bound).trans (tables.pd i bound)

/-- The kernel's own tables hold nothing for the lower half. -/
theorem KernelTables.walk_lower {K : KernelImage} {m : Memory} (tables : KernelTables K m) {v : Nat} (low : v < 2 ^ 47) :
    walk m K.kernelPml4 v = none := by
  have root := K.page (t := K.kernelPml4) (by simp)
  have slot : index 3 v < 256 := by
    unfold index
    omega
  have canonical : Canonical v := Or.inl low
  rw [walk, if_pos canonical, frameOf_eq_self root.1 (by omega), walkFrom, tables.pml4 _ (index_lt 3 v), if_pos slot]
  simp [present, flag]

/-- `createKernelAddressSpace` hands the processor over from the tables of `bootstrap.s` to
the kernel's own without a change under the running kernel. The tables of `bootstrap.s` are as
it has them, and the kernel's own lie behind them. -/
theorem createKernelAddressSpace_handOff {B : BootstrapImage} (K : KernelImage) (s : Kernel)
    (tables : BootstrapTables B s.mem)
    (behind : ∀ t ∈ [K.kernelPml4, K.kernelPagedir, K.kernelPagedirtable, K.kernelLinear], bootloaderEnd ≤ t) :
    ∃ m, createKernelAddressSpace K s = .ok (K.kernelPml4, { s with mem := m }) ∧ HandOff B K s.mem m := by
  obtain ⟨m, run, kernelTables, outside⟩ := createKernelAddressSpace_run K s
  have still : BootstrapTables B m := tables.congr fun x below => outside x fun t member => Or.inl (by
    have := behind t member
    omega)
  have upper {v : Nat} (half : KernelHalf v) : walk m K.kernelPml4 v = fixedWalk v :=
    KernelTables.walk_eq_fixedWalk (s := { s with mem := m }) kernelTables half
  have found {v : Nat} {q : Translation} (atV : walk m K.kernelPml4 v = some q) : KernelHalf v := by
    by_contra notHigh
    by_cases low : v < 2 ^ 47
    · rw [kernelTables.walk_lower low] at atV
      cases atV
    · rw [walk, if_neg fun canonical => (canonical.elim low notHigh)] at atV
      cases atV
  have linearHalf {v : Nat} (inside : InLinear v) : KernelHalf v := by
    simp only [KernelHalf, InLinear, linearStart, linearEnd, addrshift512G] at inside ⊢
    omega
  have kernelHalf {v : Nat} (inside : InKernelMapped v) : KernelHalf v := by
    simp only [KernelHalf, InKernelMapped, kernelBase, kernelMapped, addrshift2M] at inside ⊢
    omega
  refine ⟨m, run, fun v q => bootstrap_walk_iff tables, fun v => ?_, fun v inside => ?_, fun v => ⟨fun some => ?_, ?_⟩,
    fun v q atV => ?_⟩
  · by_cases canonical : Canonical v
    · rw [still.walk_eq canonical, tables.walk_eq canonical]
    · rw [walk, walk, if_neg canonical, if_neg canonical]
  · refine ⟨⟨v - kernelBase, false, !readOnlyText (v - kernelBase)⟩, ?_, ?_⟩
    · exact (bootstrap_walk_iff still).mpr
        ⟨Or.inr (kernelHalf inside), kernelBase, by simp [bootstrapWindows], inside.1, inside.2, rfl⟩
    · rw [upper (kernelHalf inside), fixedWalk_kernelMapped inside]
  · obtain ⟨q, atV⟩ := Option.isSome_iff_exists.mp some
    by_contra outside
    push Not at outside
    have half := found atV
    rw [upper half, fixedWalk_none half outside.1 outside.2] at atV
    cases atV
  · rintro (linear | kernel)
    · rw [upper (linearHalf linear), fixedWalk_linear linear]
      rfl
    · rw [upper (kernelHalf kernel), fixedWalk_kernelMapped kernel]
      rfl
  · rw [upper (found atV)] at atV
    exact fixedWalk_supervisor atV

/-- The tables one after the other, from 1M on. -/
def smallBootstrap : BootstrapImage := ⟨0x100000, 0x101000, 0x102000, by decide, by decide⟩

def smallBootstrapWord (i : Nat) : Nat :=
  if i < 0x101000 / 8 then bootstrapPml4 smallBootstrap (i - 0x100000 / 8)
  else if i < 0x102000 / 8 then bootstrapPdpt smallBootstrap (i - 0x101000 / 8)
  else bootstrapPd.getD (i - 0x102000 / 8) 0

def smallBootstrapMemory : Memory := fun x => UInt8.ofNat (smallBootstrapWord (x / 8) / 256 ^ (x % 8))

theorem word_smallBootstrap {t i : Nat} (aligned : t % 8 = 0) (fits : smallBootstrapWord (t / 8 + i) < 2 ^ 64) :
    word smallBootstrapMemory t i = smallBootstrapWord (t / 8 + i) := by
  have byte (k : Nat) (small : k < 8) :
      (smallBootstrapMemory (t + 8 * i + k)).toNat = smallBootstrapWord (t / 8 + i) / 256 ^ k % 256 := by
    have place : (t + 8 * i + k) / 8 = t / 8 + i := by omega
    have rest : (t + 8 * i + k) % 8 = k := by omega
    rw [smallBootstrapMemory, place, rest, UInt8.toNat_ofNat']
  have first := byte 0 (by decide)
  simp only [word, read64, readLE, Nat.add_assoc, Nat.reduceAdd, Nat.add_zero] at first ⊢
  simp only [← Nat.add_assoc] at first ⊢
  rw [first, byte 1 (by decide), byte 2 (by decide), byte 3 (by decide), byte 4 (by decide), byte 5 (by decide),
    byte 6 (by decide), byte 7 (by decide)]
  omega

theorem smallBootstrap_tables : BootstrapTables smallBootstrap smallBootstrapMemory := by
  have small : ∀ i < 16, bootstrapPd.getD i 0 < 2 ^ 64 := by decide
  have pdFits (i : Nat) : bootstrapPd.getD i 0 < 2 ^ 64 := by
    by_cases low : i < 16
    · exact small i low
    · rw [bootstrapPd_absent (by omega)]
      decide
  constructor
  · intro i bound
    have atWord : smallBootstrapWord (0x100000 / 8 + i) = bootstrapPml4 smallBootstrap i := by
      rw [smallBootstrapWord, if_pos (by omega), Nat.add_sub_cancel_left]
    have fits : bootstrapPml4 smallBootstrap i < 2 ^ 64 := by
      unfold bootstrapPml4
      split <;> decide
    exact (word_smallBootstrap (by decide) (atWord ▸ fits)).trans atWord
  · intro i bound
    have atWord : smallBootstrapWord (0x101000 / 8 + i) = bootstrapPdpt smallBootstrap i := by
      rw [smallBootstrapWord, if_neg (by omega), if_pos (by omega), Nat.add_sub_cancel_left]
    have fits : bootstrapPdpt smallBootstrap i < 2 ^ 64 := by
      unfold bootstrapPdpt
      split <;> decide
    exact (word_smallBootstrap (by decide) (atWord ▸ fits)).trans atWord
  · intro i bound
    have atWord : smallBootstrapWord (0x102000 / 8 + i) = bootstrapPd.getD i 0 := by
      rw [smallBootstrapWord, if_neg (by omega), if_neg (by omega), Nat.add_sub_cancel_left]
    exact (word_smallBootstrap (by decide) (atWord ▸ pdFits i)).trans atWord

theorem createKernelAddressSpace_handOff_small :
    ∃ m, createKernelAddressSpace smallImage ⟨smallBootstrapMemory, 0, 0, 0⟩ =
        .ok (smallImage.kernelPml4, ⟨m, 0, 0, 0⟩) ∧ HandOff smallBootstrap smallImage smallBootstrapMemory m :=
  createKernelAddressSpace_handOff smallImage ⟨smallBootstrapMemory, 0, 0, 0⟩ smallBootstrap_tables (by decide)

end MetalToApp

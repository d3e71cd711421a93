import MetalToApp.SharedHalf

namespace MetalToApp
open ByteMemory Paging

/-- The kernel half of the address space, as 64-bit addresses. -/
def KernelHalf (v : Nat) : Prop := 2 ^ 64 - 2 ^ 47 ≤ v ∧ v < 2 ^ 64

def InLinear (v : Nat) : Prop := linearStart ≤ v ∧ v < linearEnd

/-- The part of the kernel window that is mapped: its first 32M. -/
def InKernelMapped (v : Nat) : Prop := kernelBase ≤ v ∧ v < kernelBase + kernelMapped

/-- `pointerToLinearAddress` and `linearAddressToPtr` say of kernel pointers what the processor
does with them through the tables at `cr3`. -/
structure WindowsAgree (m : Memory) (cr3 : Nat) : Prop where
  translation : ∀ {v a q}, KernelHalf v → pointerToLinearAddress v = .ok a → walk m cr3 v = some q →
    q.address = a ∧ q.user = false
  mapped : ∀ {v a}, KernelHalf v → pointerToLinearAddress v = .ok a → InLinear v ∨ v < kernelBase + kernelMapped →
    (walk m cr3 v).isSome
  sameFrame : ∀ {v a}, KernelHalf v → pointerToLinearAddress v = .ok a →
    ∃ q, walk m cr3 (linearAddressToPtr a) = some q ∧ q.address = a
  roundTrip : ∀ b, 0 < b → b < 2 ^ 39 → pointerToLinearAddress (linearAddressToPtr b) = .ok b
  absent : ∀ v, KernelHalf v → ¬InLinear v → ¬InKernelMapped v → walk m cr3 v = none

section windows
variable {v a b : Nat} {q : Translation}

theorem index_linear (half : KernelHalf v) : index 3 v = 256 ↔ InLinear v := by
  simp only [KernelHalf, InLinear, linearStart, linearEnd, addrshift512G, index] at half ⊢
  omega

theorem index_kernelMapped (half : KernelHalf v) :
    (index 3 v = 511 ∧ index 2 v = 510 ∧ index 1 v < 16) ↔ InKernelMapped v := by
  simp only [KernelHalf, InKernelMapped, kernelBase, kernelMapped, addrshift2M, index] at half ⊢
  omega

/-- The two windows and what the tables hold for them. -/
theorem fixedWalk_linear (inside : InLinear v) : fixedWalk v = some ⟨v - linearStart, false, true⟩ := by
  have half : KernelHalf v := by
    simp only [KernelHalf, InLinear, linearStart, linearEnd, addrshift512G] at inside ⊢
    omega
  have place : index 2 v * addrshift1G + v % addrshift1G = v - linearStart := by
    simp only [InLinear, linearStart, linearEnd, addrshift512G, addrshift1G, index] at inside ⊢
    omega
  rw [fixedWalk, if_pos ((index_linear half).mpr inside), place]

theorem fixedWalk_kernel (inside : InKernelMapped v) :
    ∃ write, fixedWalk v = some ⟨v - kernelBase, false, write⟩ := by
  have half : KernelHalf v := by
    simp only [KernelHalf, InKernelMapped, kernelBase, kernelMapped, addrshift2M] at inside ⊢
    omega
  have other : ¬InLinear v := by
    simp only [InLinear, InKernelMapped, linearEnd, linearStart, addrshift512G, kernelBase] at inside ⊢
    omega
  have place : index 1 v * addrshift2M + v % addrshift2M = v - kernelBase := by
    simp only [InKernelMapped, kernelBase, kernelMapped, addrshift2M, index] at inside ⊢
    omega
  refine ⟨writable (pagedirWord (index 1 v)), ?_⟩
  rw [fixedWalk, if_neg fun linear => other ((index_linear half).mp linear), if_pos ((index_kernelMapped half).mpr inside),
    place]

theorem fixedWalk_none (half : KernelHalf v) (notLinear : ¬InLinear v) (notKernel : ¬InKernelMapped v) :
    fixedWalk v = none := by
  rw [fixedWalk, if_neg fun linear => notLinear ((index_linear half).mp linear),
    if_neg fun kernel => notKernel ((index_kernelMapped half).mp kernel)]

/-- The software side: which pointers have a linear address. -/
theorem pointerToLinearAddress_eq_ok : pointerToLinearAddress v = .ok a ↔
    kernelBase < v ∧ v < dynamicStart ∧ a = v - kernelBase ∨ linearStart < v ∧ v < linearEnd ∧ a = v - linearStart := by
  have apart : ¬(kernelBase < v ∧ v < linearEnd) := by
    simp only [kernelBase, linearEnd, linearStart, addrshift512G]
    omega
  by_cases kernel : v > kernelBase ∧ v < dynamicStart
  · rw [pointerToLinearAddress, if_pos kernel, Except.ok.injEq]
    constructor
    · exact fun same => Or.inl ⟨kernel.1, kernel.2, same.symm⟩
    · rintro (⟨-, -, same⟩ | ⟨-, below, -⟩)
      · exact same.symm
      · exact absurd ⟨kernel.1, below⟩ apart
  · rw [pointerToLinearAddress, if_neg kernel]
    by_cases linear : v > linearStart ∧ v < linearEnd
    · rw [if_pos linear, Except.ok.injEq]
      constructor
      · exact fun same => Or.inr ⟨linear.1, linear.2, same.symm⟩
      · rintro (⟨lower, upper, -⟩ | ⟨-, -, same⟩)
        · exact absurd ⟨lower, upper⟩ kernel
        · exact same.symm
    · rw [if_neg linear]
      constructor
      · intro same
        cases same
      · rintro (⟨lower, upper, -⟩ | ⟨lower, upper, -⟩)
        · exact absurd ⟨lower, upper⟩ kernel
        · exact absurd ⟨lower, upper⟩ linear

theorem pointerToLinearAddress_lt (returned : pointerToLinearAddress v = .ok a) : a < 2 ^ 39 := by
  rcases pointerToLinearAddress_eq_ok.mp returned with ⟨lower, upper, same⟩ | ⟨lower, upper, same⟩
  · simp only [dynamicStart, addrshift1G] at upper
    omega
  · simp only [linearEnd, addrshift512G] at upper
    omega

/-- Tables whose kernel half is the fixed one agree with the two functions. -/
theorem windowsAgree_of_fixedWalk {m : Memory} {cr3 : Nat} (fixed : ∀ v, KernelHalf v → walk m cr3 v = fixedWalk v) :
    WindowsAgree m cr3 := by
  constructor
  case translation =>
    intro v a q half returned found
    rw [fixed v half] at found
    refine ⟨?_, fixedWalk_supervisor found⟩
    rcases pointerToLinearAddress_eq_ok.mp returned with ⟨lower, upper, same⟩ | ⟨lower, upper, same⟩
    · have notLinear : ¬InLinear v := fun linear => by
        simp only [InLinear, linearEnd, linearStart, addrshift512G, kernelBase] at linear lower
        omega
      have inside : InKernelMapped v := by
        by_contra outside
        cases found.symm.trans (fixedWalk_none half notLinear outside)
      obtain ⟨write, eq⟩ := fixedWalk_kernel inside
      rw [Option.some.inj (found.symm.trans eq), same]
    · rw [Option.some.inj (found.symm.trans (fixedWalk_linear ⟨lower.le, upper⟩)), same]
  case mapped =>
    intro v a half returned place
    rw [fixed v half]
    rcases pointerToLinearAddress_eq_ok.mp returned with ⟨lower, upper, -⟩ | ⟨lower, upper, -⟩
    · rcases place with linear | below
      · rw [fixedWalk_linear linear]
        rfl
      · obtain ⟨write, eq⟩ := fixedWalk_kernel ⟨lower.le, below⟩
        rw [eq]
        rfl
    · rw [fixedWalk_linear ⟨lower.le, upper⟩]
      rfl
  case sameFrame =>
    intro v a half returned
    have bound := pointerToLinearAddress_lt returned
    have inside : InLinear (linearStart + a) := ⟨Nat.le_add_right _ _, by simp only [linearEnd, addrshift512G]; omega⟩
    have half' : KernelHalf (linearStart + a) := by
      simp only [KernelHalf, linearStart]
      omega
    rw [linearAddressToPtr_of_lt (by omega), fixed _ half', fixedWalk_linear inside]
    exact ⟨_, rfl, Nat.add_sub_cancel_left ..⟩
  case roundTrip => exact fun b positive bound => pointerToLinearAddress_linear positive bound
  case absent =>
    intro v half notLinear notKernel
    rw [fixed v half, fixedWalk_none half notLinear notKernel]

end windows

/-- The tables at boot have nothing in the kernel half but the two windows. -/
theorem KernelTables.walk_eq_fixedWalk {K : KernelImage} {s : Kernel} (tables : KernelTables K s.mem) {v : Nat}
    (half : KernelHalf v) : walk s.mem K.kernelPml4 v = fixedWalk v := by
  -- No frame is needed to state the invariant, so that it holds over an arena without any.
  let A : Arena := ⟨kernelMapped, kernelMapped, by decide, by decide, by decide, le_rfl, by decide⟩
  have inv : KernelInv K A (initFrameAllocator s kernelMapped kernelMapped) (Ghost.boot K A) :=
    .boot tables K.mapped (by decide) (by decide)
  rw [show s.mem = (initFrameAllocator s kernelMapped kernelMapped).mem from rfl,
    walk_upper inv inv.kernelRoot half.1 half.2]
  by_cases dynamic : InDynamic v
  · have bare : (Ghost.boot K A).Bare K := fun owned => (owner_boot.mp owned).2.2
    rw [if_pos dynamic, dynamic_vacant inv bare dynamic.2, fixedWalk, if_neg (by rw [dynamic.1]; decide),
      if_neg (by rw [dynamic.2]; simp)]
    rfl
  · rw [if_neg dynamic]

/-- Over the tables that `createKernelAddressSpace` builds, software and hardware translate
the kernel's pointers alike, whatever was in memory before. -/
theorem createKernelAddressSpace_windows (K : KernelImage) (s : Kernel) :
    ∃ m, createKernelAddressSpace K s = .ok (K.kernelPml4, { s with mem := m }) ∧ WindowsAgree m K.kernelPml4 := by
  obtain ⟨m, run, tables, -⟩ := createKernelAddressSpace_run K s
  exact ⟨m, run, windowsAgree_of_fixedWalk fun v half =>
    KernelTables.walk_eq_fixedWalk (s := { s with mem := m }) tables half⟩

end MetalToApp

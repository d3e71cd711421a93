import MetalToApp.Library.Paging

namespace MetalToApp
open ByteMemory Paging

/-- Why a kernel function does not return: it called `panic`, or it touched an
address outside the kernel's windows on physical memory. -/
inductive Halt
  | panic
  | fault
deriving DecidableEq, Repr

abbrev Outcome := Except Halt

namespace Outcome
variable {α β : Type}

theorem bind_eq_ok {x : Outcome α} {f : α → Outcome β} {b : β} :
    x >>= f = .ok b ↔ ∃ a, x = .ok a ∧ f a = .ok b := by
  cases x with
  | error e => exact ⟨nofun, fun ⟨_, h, _⟩ => nomatch h⟩
  | ok a => exact ⟨fun h => ⟨a, rfl, h⟩, fun ⟨_, h, run⟩ => by cases h; exact run⟩

@[simp] theorem ok_bind (a : α) (f : α → Outcome β) : (Except.ok a : Outcome α) >>= f = f a := rfl

@[simp] theorem error_bind (e : Halt) (f : α → Outcome β) :
    (Except.error e : Outcome α) >>= f = .error e := rfl

@[simp] theorem pure_eq_ok (a : α) : (pure a : Outcome α) = .ok a := rfl

end Outcome

def linearStart : Nat := 0xFFFF800000000000
def addrshift2M : Nat := 2 ^ 21
def addrshift1G : Nat := 2 ^ 30
def addrshift512G : Nat := 2 ^ 39
def linearEnd : Nat := linearStart + addrshift512G
def kernelBase : Nat := 0xFFFFFFFF80000000
def dynamicStart : Nat := kernelBase + addrshift1G

def linearAddressToPtr (a : Nat) : Nat := (linearStart + a) % 2 ^ 64

def pointerToLinearAddress (p : Nat) : Outcome Nat :=
  if p > kernelBase ∧ p < dynamicStart then .ok (p - kernelBase)
  else if p > linearStart ∧ p < linearEnd then .ok (p - linearStart)
  else .error .panic

/-- The part of the kernel window that `createKernelAddressSpace` maps: 16 pages of 2M. -/
def kernelMapped : Nat := 0x10 * addrshift2M

/-- Where the `n` bytes at a kernel pointer lie in physical memory. The kernel only
dereferences pointers into its two fixed windows; anything else faults. -/
def window (p : Nat) (n : Nat) : Outcome Nat :=
  if linearStart ≤ p ∧ p + n ≤ linearEnd then .ok (p - linearStart)
  else if kernelBase ≤ p ∧ p + n ≤ kernelBase + kernelMapped then .ok (p - kernelBase)
  else .error .fault

/-- Physical memory and the variables of the frame allocator. -/
structure Kernel where
  mem : Memory
  freememStart : Nat
  freememEnd : Nat
  freelist : Nat

namespace Kernel

/-- Load `n` bytes through a kernel pointer. -/
def load (s : Kernel) (n : Nat) (p : Nat) : Outcome Nat := do
  let a ← window p n
  return readLE s.mem n a

/-- Store `n` bytes through a kernel pointer. -/
def store (s : Kernel) (n : Nat) (p : Nat) (v : Nat) : Outcome Kernel := do
  let a ← window p n
  return { s with mem := writeLE s.mem n a v }

abbrev load64 (s : Kernel) (p : Nat) : Outcome Nat := s.load 8 p
abbrev store64 (s : Kernel) (p : Nat) (v : Nat) : Outcome Kernel := s.store 8 p v

end Kernel

theorem linearAddressToPtr_of_lt {a : Nat} (bound : a < 2 ^ 47) : linearAddressToPtr a = linearStart + a := by
  unfold linearAddressToPtr linearStart
  omega

theorem linearAddressToPtr_ne_zero {a : Nat} (bound : a < 2 ^ 47) : linearAddressToPtr a ≠ 0 := by
  rw [linearAddressToPtr_of_lt bound, linearStart]
  omega

theorem linearAddressToPtr_inj {a b : Nat} (boundA : a < 2 ^ 47) (boundB : b < 2 ^ 47) :
    linearAddressToPtr a = linearAddressToPtr b ↔ a = b := by
  rw [linearAddressToPtr_of_lt boundA, linearAddressToPtr_of_lt boundB]
  omega

theorem pointerToLinearAddress_linear {a : Nat} (positive : 0 < a) (bound : a < 2 ^ 39) :
    pointerToLinearAddress (linearAddressToPtr a) = .ok a := by
  have notKernel : ¬(linearStart + a > kernelBase ∧ linearStart + a < dynamicStart) := by
    simp only [linearStart, kernelBase]
    omega
  have inside : linearStart + a > linearStart ∧ linearStart + a < linearEnd := by
    simp only [linearEnd, addrshift512G]
    omega
  rw [linearAddressToPtr_of_lt (by omega), pointerToLinearAddress, if_neg notKernel, if_pos inside,
    Nat.add_sub_cancel_left]

theorem pointerToLinearAddress_kernel {a : Nat} (positive : 0 < a) (bound : a < 2 ^ 30) :
    pointerToLinearAddress (kernelBase + a) = .ok a := by
  have inside : kernelBase + a > kernelBase ∧ kernelBase + a < dynamicStart := by
    simp only [dynamicStart, addrshift1G]
    omega
  rw [pointerToLinearAddress, if_pos inside, Nat.add_sub_cancel_left]

theorem window_linear {a o n : Nat} (bound : a + o + n ≤ 2 ^ 39) (below : a < 2 ^ 39) :
    window (linearAddressToPtr a + o) n = .ok (a + o) := by
  have inside : linearStart ≤ linearStart + a + o ∧ linearStart + a + o + n ≤ linearEnd := by
    simp only [linearEnd, addrshift512G]
    omega
  rw [linearAddressToPtr_of_lt (by omega), window, if_pos inside, Nat.add_assoc, Nat.add_sub_cancel_left]

theorem window_linear_zero {a n : Nat} (bound : a + n ≤ 2 ^ 39) (below : a < 2 ^ 39) :
    window (linearAddressToPtr a) n = .ok a :=
  window_linear (o := 0) bound below

namespace Kernel

theorem load_linear (s : Kernel) {a o n : Nat} (bound : a + o + n ≤ 2 ^ 39) (below : a < 2 ^ 39) :
    s.load n (linearAddressToPtr a + o) = .ok (readLE s.mem n (a + o)) := by
  rw [load, window_linear bound below]
  rfl

theorem store_linear (s : Kernel) {a o n : Nat} (v : Nat) (bound : a + o + n ≤ 2 ^ 39) (below : a < 2 ^ 39) :
    s.store n (linearAddressToPtr a + o) v = .ok { s with mem := writeLE s.mem n (a + o) v } := by
  rw [store, window_linear bound below]
  rfl

end Kernel

end MetalToApp

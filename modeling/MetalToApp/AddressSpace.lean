import MetalToApp.Frame
import MetalToApp.Library.Paging
import Mathlib.Tactic

namespace MetalToApp
open ByteMemory Paging

/-! The bits of `struct pagetable_entry` that the kernel sets. -/

def presentBit : Nat := 0
def writableBit : Nat := 1
def usermodeBit : Nat := 2
def bigBit : Nat := 7

/-- `e` with its bit `k` set to `value`. -/
def withFlag (e k : Nat) (value : Bool) : Nat := e - (flag e k).toNat * 2 ^ k + value.toNat * 2 ^ k

/-- The assignment of one bit field of the entry at a pointer. -/
def setFlag (s : Kernel) (entry k : Nat) (value : Bool) : Outcome Kernel := do
  let e ← s.load64 entry
  s.store64 entry (withFlag e k value)

/-- Assignments to the bit fields of one entry, one after the other. -/
def setFlags (s : Kernel) (entry : Nat) : List (Nat × Bool) → Outcome Kernel
  | [] => return s
  | (k, value) :: rest => do
    let s ← setFlag s entry k value
    setFlags s entry rest

/-- The kernel fills in an entry by storing its address and then setting bit fields. -/
def assignEntry (s : Kernel) (entry address : Nat) (fields : List (Nat × Bool)) : Outcome Kernel := do
  let s ← s.store64 entry address
  setFlags s entry fields

/-- How an entry is pointed at a page or a table. -/
def fillEntry (s : Kernel) (entry address : Nat) (user : Bool) : Outcome Kernel :=
  assignEntry s entry address [(presentBit, true), (writableBit, true), (usermodeBit, user)]

/-- What `resolve_pageentry` does with the entry of a table above the last one: it stops
at an entry with the `big` bit, and it hangs a zeroed table into an entry that is not
present. The result is the next table, unless the entry is big. -/
def nextTable (s : Kernel) (entry : Nat) : Outcome (Option Nat × Kernel) := do
  let e ← s.load64 entry
  if big e then return (none, s)
  let s ← if present e then pure s else do
    let (f, s) ← frameAllocZero s
    fillEntry s entry f true
  let e ← s.load64 entry
  return (some (linearAddressToPtr (e / 4096 * 4096)), s)

/-- `resolve_pageentry` from a table of the given level; its three steps are alike. -/
def resolveFrom (s : Kernel) : Nat → Nat → Nat → Outcome (Nat × Kernel)
  | 0, table, ptr => return (table + 8 * index 0 ptr, s)
  | level + 1, table, ptr => do
    let entry := table + 8 * index (level + 1) ptr
    match ← nextTable s entry with
    | (none, s) => return (entry, s)
    | (some next, s) => resolveFrom s level next ptr

def resolvePageentry (s : Kernel) (root ptr : Nat) : Outcome (Nat × Kernel) := resolveFrom s 3 root ptr

def mmap (s : Kernel) (pagetableRoot pageStart mappingStart : Nat) (user : Bool) : Outcome Kernel := do
  let (entry, s) ← resolvePageentry s pagetableRoot mappingStart
  fillEntry s entry pageStart user

def munmap (s : Kernel) (pagetableRoot mappingStart : Nat) : Outcome (Nat × Kernel) := do
  let (entry, s) ← resolvePageentry s pagetableRoot mappingStart
  let e ← s.load64 entry
  let s ← setFlag s entry writableBit false
  let s ← setFlag s entry presentBit false
  let s ← s.store64 entry 0
  return (e / 4096 * 4096, s)

/-- Where the linker and the boot loader put the kernel's own page tables and the end of
the kernel, as physical addresses. -/
structure KernelImage where
  kernelPml4 : Nat
  kernelPagedir : Nat
  kernelPagedirtable : Nat
  kernelLinear : Nat
  freememoryStart : Nat
  aligned : ∀ t ∈ [kernelPml4, kernelPagedir, kernelPagedirtable, kernelLinear], t % 4096 = 0
  inside : ∀ t ∈ [kernelPml4, kernelPagedir, kernelPagedirtable, kernelLinear], 0 < t ∧ t + 4096 ≤ freememoryStart
  distinct : [kernelPml4, kernelPagedir, kernelPagedirtable, kernelLinear].Nodup
  mapped : freememoryStart ≤ kernelMapped

/-- A `for` loop over the entries `first, ..., first + n - 1` of a table. -/
def forEntries (first : Nat) (body : Kernel → Nat → Outcome Kernel) (s : Kernel) : Nat → Outcome Kernel
  | 0 => return s
  | n + 1 => do
    let s ← forEntries first body s n
    body s (first + n)

def initAddressSpace (K : KernelImage) (s : Kernel) (rootPagetable : Nat) : Outcome Kernel := do
  let s ← forEntries 0 (fun s i => s.store64 (rootPagetable + 8 * i) 0) s 512
  let s ← assignEntry s (rootPagetable + 8 * 256) (← pointerToLinearAddress (kernelBase + K.kernelLinear))
    [(presentBit, true), (writableBit, true)]
  fillEntry s (rootPagetable + 8 * 511) (← pointerToLinearAddress (kernelBase + K.kernelPagedirtable)) true

/-- The result is `kernel_address_space`, which the processor then uses. -/
def createKernelAddressSpace (K : KernelImage) (s : Kernel) : Outcome (Nat × Kernel) := do
  let kernelAddressSpace ← pointerToLinearAddress (kernelBase + K.kernelPml4)
  let s ← forEntries 0 (fun s i => assignEntry s (kernelBase + K.kernelLinear + 8 * i) (i * addrshift1G)
    [(presentBit, true), (writableBit, true), (bigBit, true)]) s 512
  let s ← forEntries 0 (fun s i => s.store64 (kernelBase + K.kernelPagedirtable + 8 * i) 0) s 512
  let s ← fillEntry s (kernelBase + K.kernelPagedirtable + 8 * 510)
    (← pointerToLinearAddress (kernelBase + K.kernelPagedir)) true
  let s ← forEntries 0 (fun s i => assignEntry s (kernelBase + K.kernelPagedir + 8 * i) (i * addrshift2M)
    [(presentBit, true), (writableBit, false), (bigBit, true), (usermodeBit, false)]) s 0x10
  let s ← forEntries 0x10 (fun s i => s.store64 (kernelBase + K.kernelPagedir + 8 * i) 0) s 0x1f0
  let s ← forEntries 0x08 (fun s i => setFlags s (kernelBase + K.kernelPagedir + 8 * i)
    [(writableBit, true), (usermodeBit, false)]) s 0x08
  let s ← setFlags s (kernelBase + K.kernelPagedir + 8 * 0) [(writableBit, true), (usermodeBit, false)]
  let s ← initAddressSpace K s (kernelBase + K.kernelPml4)
  return (kernelAddressSpace, s)

def createAddressSpace (K : KernelImage) (s : Kernel) : Outcome (Nat × Kernel) := do
  let (f, s) ← frameAllocZero s
  let entry := linearAddressToPtr f
  let s ← initAddressSpace K s entry
  return (entry, s)

/-! What a run of assignments to one entry leaves in memory. -/

section entry
variable {s : Kernel} {p a f c k : Nat}

theorem withFlag_add (aligned : f % 4096 = 0) (low : k < 12) (value : Bool) :
    withFlag (f + c) k value = f + withFlag c k value := by
  have bit : (flag c k).toNat * 2 ^ k ≤ c := by
    by_cases on : flag c k
    · have odd : c / 2 ^ k % 2 = 1 := of_decide_eq_true on
      rw [on, Bool.toNat_true, Nat.one_mul]
      by_contra below
      rw [Nat.div_eq_of_lt (by omega)] at odd
      cases odd
    · simp [on]
  rw [withFlag, withFlag, flag_aligned_add aligned low]
  omega

theorem setFlag_eq (value : Bool) (place : window p 8 = .ok a) :
    setFlag s p k value = .ok { s with mem := write64 s.mem a (withFlag (read64 s.mem a) k value) } := by
  simp only [setFlag, Kernel.load64, Kernel.store64, Kernel.load, Kernel.store, place, Outcome.ok_bind,
    Outcome.pure_eq_ok, read64, write64]

theorem store64_eq (v : Nat) (place : window p 8 = .ok a) :
    s.store64 p v = .ok { s with mem := write64 s.mem a v } := by
  simp only [Kernel.store64, Kernel.store, place, Outcome.ok_bind, Outcome.pure_eq_ok, write64]

/-- The value that a list of assignments makes of an entry's low bits. -/
def fieldBits (c : Nat) (fields : List (Nat × Bool)) : Nat := fields.foldl (fun c q => withFlag c q.1 q.2) c

theorem withFlag_lt (small : c < 4096) (low : k < 12) (value : Bool) : withFlag c k value < 4096 := by
  by_cases on : flag c k
  · cases value
    · simp only [withFlag, on, Bool.toNat_true, Bool.toNat_false]
      omega
    · have bit : 2 ^ k ≤ c := by
        have odd : c / 2 ^ k % 2 = 1 := of_decide_eq_true on
        by_contra below
        rw [Nat.div_eq_of_lt (by omega)] at odd
        cases odd
      simp only [withFlag, on, Bool.toNat_true]
      omega
  · cases value
    · simp only [withFlag, on, Bool.toNat_false]
      omega
    · simp only [withFlag, on, Bool.toNat_true, Bool.toNat_false]
      simp only [flag, decide_eq_true_eq] at on
      interval_cases k <;> omega

/-- Assignments to an entry that holds a page address and some bits. -/
theorem setFlags_eq {m : Memory} {fields : List (Nat × Bool)} (place : window p 8 = .ok a) (aligned : f % 4096 = 0)
    (room : f + 4096 ≤ 2 ^ 64) (small : c < 4096) (low : ∀ q ∈ fields, q.1 < 12) :
    setFlags { s with mem := write64 m a (f + c) } p fields =
      .ok { s with mem := write64 m a (f + fieldBits c fields) } := by
  induction fields generalizing c with
  | nil => rfl
  | cons q rest ih =>
    obtain ⟨k, value⟩ := q
    have bound : k < 12 := low (k, value) List.mem_cons_self
    have step : setFlag { s with mem := write64 m a (f + c) } p k value =
        .ok { s with mem := write64 m a (f + withFlag c k value) } := by
      rw [setFlag_eq value place]
      simp only [read64_write64_self (show f + c < 2 ^ 64 by omega), withFlag_add aligned bound, write64,
        writeLE_writeLE_self]
    rw [setFlags, step, Outcome.ok_bind, ih (withFlag_lt small bound value) fun q member => low q (List.mem_cons_of_mem _ member)]
    rfl

theorem assignEntry_eq (fields : List (Nat × Bool)) (place : window p 8 = .ok a) (aligned : f % 4096 = 0)
    (room : f + 4096 ≤ 2 ^ 64) (low : ∀ q ∈ fields, q.1 < 12) :
    assignEntry s p f fields = .ok { s with mem := write64 s.mem a (f + fieldBits 0 fields) } := by
  have stored : s.store64 p f = .ok { s with mem := write64 s.mem a (f + 0) } := by
    rw [Nat.add_zero]
    exact store64_eq f place
  rw [assignEntry, stored, Outcome.ok_bind, setFlags_eq place aligned room (by decide) low]

/-- The bits of an entry for a page with the given user access. -/
def entryBits (user : Bool) : Nat := 3 + 4 * user.toNat

theorem fillEntry_eq (user : Bool) (place : window p 8 = .ok a) (aligned : f % 4096 = 0) (room : f + 4096 ≤ 2 ^ 64) :
    fillEntry s p f user = .ok { s with mem := write64 s.mem a (f + entryBits user) } := by
  have bits : fieldBits 0 [(presentBit, true), (writableBit, true), (usermodeBit, user)] = entryBits user := by
    cases user <;> rfl
  rw [fillEntry, assignEntry_eq _ place aligned room (by simp [presentBit, writableBit, usermodeBit]), bits]

end entry

end MetalToApp

import MetalToApp.Memory
import MetalToApp.Syscall

namespace MetalToApp
open ByteMemory Paging X86

/-- The 256 words of the table as `load_syscall_table` leaves the zeroed array. -/
def TableLoaded (V : View) (image : SyscallImage) (m : Memory) : Prop :=
  ∀ n < 256, V.load m 8 (image.syscallTable + BitVec.ofNat 64 (8 * n)) =
    some (loadSyscallTable image (fun _ => 0) n).toNat

/-- The code of `syscall_entry_asm` as it was linked. -/
def EntryLoaded (V : View) (image : SyscallImage) (m : Memory) : Prop :=
  V.holds m image.syscallEntryAsm (image.bytes syscallInstrs) = true

/-- The code of a handler as it was linked. -/
def HandlerLoaded (V : View) (image : SyscallImage) (c : SyscallHandler) (m : Memory) : Prop :=
  ∀ v b, image.code c v = some b → (V.physical v).map m = some b

/-- The user's `syscall` ends in a call, through an entry of the table that
`load_syscall_table` filled, of the function in it with the user's six arguments, and the
function is still there. The entry path has no branch that returns to the user without a call. -/
def Dispatched (V : Tables) (image : SyscallImage) (msr : SyscallMsr) (user : Cpu) : Prop :=
  ∃ c called, syscallEntry V image (syscallInstruction msr user) = some called ∧
    syscallSlot image (user.reg .rax) = image.syscallTable + BitVec.ofNat 64 (8 * c.number) ∧
    called.rip = image.address c ∧ HandlerLoaded (V called.mem) image c called.mem ∧
    sysvArguments.map called.reg = syscallArguments.map user.reg

/-- The three pushes below the user's stack pointer go through, each by the tables that the
ones before it have left, and the instructions behind them and the entry of the table are
still there when the processor comes to them. -/
structure EntrySafe (V : Tables) (image : SyscallImage) (user : Cpu) (m₁ m₂ m₃ : Memory) : Prop where
  pushRip : (V user.mem).store user.mem 8 (user.reg .rsp - 8) (user.rip + 2).toNat = some m₁
  second : (V m₁).holds m₁ (image.syscallEntryAsm + 1) (SyscallInstr.pushR11.bytes image) = true
  pushFlags : (V m₁).store m₁ 8 (user.reg .rsp - 16) user.rflags.toNat = some m₂
  others : (V m₂).holds m₂ (image.syscallEntryAsm + 3) (image.bytes callInstrs) = true
  entry : (V m₂).load m₂ 8 (syscallSlot image (user.reg .rax)) =
    (V user.mem).load user.mem 8 (syscallSlot image (user.reg .rax))
  pushReturn : (V m₂).store m₂ 8 (user.reg .rsp - 24) (image.syscallEntryAsm + 16).toNat = some m₃

/-- The pushes are safe, and the handler is still there after them. -/
def PushesSafe (V : Tables) (image : SyscallImage) (c : SyscallHandler) (user : Cpu) : Prop :=
  ∃ m₁ m₂ m₃, EntrySafe V image user m₁ m₂ m₃ ∧ HandlerLoaded (V m₃) image c m₃

variable {V : Tables} {image : SyscallImage} {msr : SyscallMsr} {user called : Cpu} {c : SyscallHandler}
  {m₁ m₂ m₃ : Memory}

/-- The code in pieces: the two pushes, what leads to the call, and the way out. -/
theorem entryLoaded_iff {W : View} {m : Memory} : EntryLoaded W image m ↔
    W.holds m image.syscallEntryAsm (SyscallInstr.pushRcx.bytes image) = true ∧
      W.holds m (image.syscallEntryAsm + 1) (SyscallInstr.pushR11.bytes image) = true ∧
      W.holds m (image.syscallEntryAsm + 3) (image.bytes callInstrs) = true ∧
      W.holds m (image.syscallEntryAsm + 16) (image.bytes exitInstrs) = true := by
  have third : image.syscallEntryAsm + BitVec.ofNat 64 1 + BitVec.ofNat 64 2 = image.syscallEntryAsm + 3 := by bv_omega
  have fourth : image.syscallEntryAsm + 3 + BitVec.ofNat 64 13 = image.syscallEntryAsm + 16 := by bv_omega
  rw [EntryLoaded, syscallInstrs, SyscallImage.bytes_cons, SyscallImage.bytes_cons, SyscallImage.bytes_append,
    View.holds_append, View.holds_append, View.holds_append, Bool.and_eq_true, Bool.and_eq_true, Bool.and_eq_true,
    show (SyscallInstr.pushRcx.bytes image).length = 1 from rfl, show (SyscallInstr.pushR11.bytes image).length = 2 from rfl,
    show (image.bytes callInstrs).length = 13 from rfl, third, fourth]
  rfl

/-- The bytes below the stack pointer that the pushes go to. -/
def PushedAt (W : View) (sp : Word) (x : Nat) : Prop := ∃ i < 24, W.physical (sp - 24 + BitVec.ofNat 64 i) = some x

theorem pushed_part {W : View} {sp : Word} {k i x : Nat} (inside : i < 8) (part : k ≤ 2)
    (place : W.physical (sp - 24 + BitVec.ofNat 64 (8 * k) + BitVec.ofNat 64 i) = some x) : PushedAt W sp x := by
  rw [BitVec.add_assoc, ← BitVec.ofNat_add] at place
  exact ⟨8 * k + i, by omega, place⟩

/-- Pushes that stay away from the code, the entry and the tables are safe. -/
theorem EntrySafe.of_apart (loaded : EntryLoaded (V user.mem) image user.mem)
    (stack : (V user.mem).Storable 24 (user.reg .rsp - 24))
    (views : ∀ m, (∀ x, ¬PushedAt (V user.mem) (user.reg .rsp) x → m x = user.mem x) → V m = V user.mem)
    (code : ∀ k < 22, ∀ p, (V user.mem).physical (image.syscallEntryAsm + BitVec.ofNat 64 k) = some p →
      ¬PushedAt (V user.mem) (user.reg .rsp) p)
    (slot : ∀ k < 8, ∀ p, (V user.mem).physical (syscallSlot image (user.reg .rax) + BitVec.ofNat 64 k) = some p →
      ¬PushedAt (V user.mem) (user.reg .rsp) p) :
    ∃ m₁ m₂ m₃, EntrySafe V image user m₁ m₂ m₃ ∧ (∀ m ∈ [m₁, m₂, m₃], V m = V user.mem) ∧
      ∀ x, ¬PushedAt (V user.mem) (user.reg .rsp) x → m₃ x = user.mem x := by
  let W := V user.mem
  have middle : user.reg .rsp - 24 + BitVec.ofNat 64 8 = user.reg .rsp - 16 := by bv_omega
  have upper : user.reg .rsp - 24 + BitVec.ofNat 64 16 = user.reg .rsp - 8 := by bv_omega
  have low : W.Storable 8 (user.reg .rsp - 24) := (View.Storable.part (n := 8) (k := 16) stack).1
  have next : W.Storable 8 (user.reg .rsp - 16) := by
    rw [← middle]
    exact (View.Storable.part (n := 8) (k := 8) (View.Storable.part (n := 8) (k := 16) stack).2).1
  have high : W.Storable 8 (user.reg .rsp - 8) := by
    rw [← upper]
    exact (View.Storable.part (n := 16) (k := 8) stack).2
  -- One push after the other, each by the same view.
  obtain ⟨m₁, first⟩ := View.store_isSome (m := user.mem) (w := (user.rip + 2).toNat).mpr high
  have same₁ (x : Nat) (away : ¬PushedAt W (user.reg .rsp) x) : m₁ x = user.mem x :=
    View.store_outside first fun i inside place => away (pushed_part (k := 2) inside (by omega)
      (by rw [← upper] at place; exact place))
  obtain ⟨m₂, second⟩ := View.store_isSome (m := m₁) (w := user.rflags.toNat).mpr next
  have same₂ (x : Nat) (away : ¬PushedAt W (user.reg .rsp) x) : m₂ x = user.mem x :=
    (View.store_outside second fun i inside place => away (pushed_part (k := 1) inside (by omega)
      (by rw [← middle] at place; exact place))).trans (same₁ x away)
  obtain ⟨m₃, third⟩ := View.store_isSome (m := m₂) (w := (image.syscallEntryAsm + 16).toNat).mpr low
  have same₃ (x : Nat) (away : ¬PushedAt W (user.reg .rsp) x) : m₃ x = user.mem x :=
    (View.store_outside third fun i inside place => away ⟨i, by omega, place⟩).trans (same₂ x away)
  obtain ⟨-, code₂, others, -⟩ := entryLoaded_iff.mp loaded
  have length : (image.bytes callInstrs).length = 13 := rfl
  have same : ∀ m ∈ [m₁, m₂, m₃], V m = V user.mem :=
    List.forall_mem_cons.mpr ⟨views m₁ same₁,
      List.forall_mem_cons.mpr ⟨views m₂ same₂, List.forall_mem_singleton.mpr (views m₃ same₃)⟩⟩
  refine ⟨m₁, m₂, m₃, ⟨first, ?_, ?_, ?_, ?_, ?_⟩, same, same₃⟩
  · rw [views m₁ same₁, View.holds_congr fun i inside p place => same₁ p ?_]
    · exact code₂
    · have inside : i < 2 := inside
      rw [BitVec.add_assoc, show (1 : Word) = BitVec.ofNat 64 1 from rfl, ← BitVec.ofNat_add] at place
      exact code (1 + i) (by omega) p place
  · rw [views m₁ same₁]
    exact second
  · rw [views m₂ same₂, View.holds_congr fun i inside p place => same₂ p ?_]
    · exact others
    · rw [BitVec.add_assoc, show (3 : Word) = BitVec.ofNat 64 3 from rfl, ← BitVec.ofNat_add] at place
      exact code (3 + i) (by omega) p place
  · rw [views m₂ same₂]
    exact View.load_congr fun i inside p place => same₂ p (slot i inside p place)
  · rw [views m₂ same₂]
    exact third

theorem TableLoaded.entry (table : TableLoaded (V user.mem) image user.mem)
    (number : (user.reg .rax).toNat % 2 ^ 61 = c.number) :
    (V user.mem).load user.mem 8 (syscallSlot image (user.reg .rax)) = some (image.address c).toNat := by
  rw [(syscallSlot_eq_iff c.number_lt).mpr number, table _ c.number_lt, loadSyscallTable_number]

theorem SyscallEntered.arguments (entered : SyscallEntered V image (syscallInstruction msr user) called m₁ m₂) :
    sysvArguments.map called.reg = syscallArguments.map user.reg := by
  have kept : ∀ r, r ≠ .rax → r ≠ .rcx → r ≠ .rsp → r ≠ .r11 → called.reg r = user.reg r := by
    intro r rax rcx rsp r11
    rw [entered.kept r rax rcx rsp]
    simp [syscallInstruction, rcx, r11]
  have rcx : called.reg .rcx = user.reg .r10 := by
    rw [entered.rcx]
    simp [syscallInstruction]
  simp [sysvArguments, syscallArguments, rcx, kept]

/-- `setup_syscall` masks no flag: the trap flag of the user stays set in the kernel. -/
theorem syscallInstruction_trapFlag :
    (syscallInstruction (setupSyscall image msr) user).trapFlag = user.trapFlag := by
  have unmasked : (0xffffffff00000000 : Word).getLsbD 8 = false := by decide
  simp only [Cpu.trapFlag, syscallInstruction, setupSyscall, BitVec.getLsbD_and, BitVec.getLsbD_not, unmasked, Bool.and_false,
    Bool.not_false]
  simp

/-- With safe pushes the kernel calls whatever the indexed word holds. -/
theorem EntrySafe.entered {w : Word} (safe : EntrySafe V image user m₁ m₂ m₃) (loaded : EntryLoaded (V user.mem) image user.mem)
    (untrapped : user.trapFlag = false)
    (word : (V user.mem).load user.mem 8 (syscallSlot image (user.reg .rax)) = some w.toNat) (msr : SyscallMsr) :
    ∃ called, SyscallEntered V image (syscallInstruction (setupSyscall image msr) user) called m₁ m₂ ∧ called.rip = w ∧
      called.mem = m₃ := by
  let s := syscallInstruction (setupSyscall image msr) user
  let regs := ((s.set .rcx (s.reg .r10)).set .rax w).set .rsp (s.reg .rsp - 24)
  refine ⟨{ regs with rip := w, mem := m₃ }, ⟨syscallInstruction_trapFlag.trans untrapped, (entryLoaded_iff.mp loaded).1,
    safe.pushRip, safe.second, safe.pushFlags, safe.others, safe.pushReturn, safe.entry.trans word, ?_, ?_, ?_, ?_, rfl⟩, rfl, rfl⟩
  · simp [regs]
  · simp [regs, s]
  · simp only [regs, s, Cpu.set_reg, reduceIte]
  · intro r
    simp +contextual [regs, s]

/-- The call goes through the entry that was found only if the pushes are safe. -/
theorem SyscallEntered.safe
    (entered : SyscallEntered V image (syscallInstruction (setupSyscall image msr) user) called m₁ m₂)
    (table : TableLoaded (V user.mem) image user.mem) (number : (user.reg .rax).toNat % 2 ^ 61 = c.number)
    (target : called.rip = image.address c) : EntrySafe V image user m₁ m₂ called.mem where
  pushRip := entered.pushRcx
  second := entered.second
  pushFlags := entered.pushR11
  others := entered.others
  entry := by
    rw [table.entry number, ← target]
    exact entered.loaded
  pushReturn := entered.pushReturn

/-- Exactly the registered numbers, up to the three bits that the scaling drops, are
dispatched, and only over a stack whose pushes go through and leave the kernel's code and
tables as they are, and without the trap flag. -/
theorem dispatched_iff (table : TableLoaded (V user.mem) image user.mem)
    (loaded : EntryLoaded (V user.mem) image user.mem) :
    Dispatched V image (setupSyscall image msr) user ↔
      user.trapFlag = false ∧ ∃ c : SyscallHandler, (user.reg .rax).toNat % 2 ^ 61 = c.number ∧ PushesSafe V image c user := by
  constructor
  · rintro ⟨c, called, ran, slot, target, handler, _⟩
    obtain ⟨m₁, m₂, entered⟩ := syscallEntry_eq_some.mp ran
    have number := (syscallSlot_eq_iff c.number_lt).mp slot
    exact ⟨syscallInstruction_trapFlag.symm.trans entered.untrapped, c, number, m₁, m₂, called.mem,
      entered.safe table number target, handler⟩
  · rintro ⟨untrapped, c, number, m₁, m₂, m₃, safe, handler⟩
    obtain ⟨called, entered, target, rfl⟩ := safe.entered loaded untrapped (table.entry number) msr
    exact ⟨c, called, syscallEntry_eq_some.mpr ⟨m₁, m₂, entered⟩, (syscallSlot_eq_iff c.number_lt).mpr number, target,
      handler, entered.arguments⟩

/-- Where the mapped kernel and the stack page of a process lie. -/
def smallPhysical (v : Word) : Option Nat :=
  if kernelBase ≤ v.toNat ∧ v.toNat < kernelBase + kernelMapped then some (v.toNat - kernelBase)
  else if v.toNat / 4096 = 0x7FFFFFFFE then some (0x1408000 + v.toNat % 4096)
  else none

theorem smallPhysical_offset {v : Word} {p : Nat} (found : smallPhysical v = some p) : p % 4096 = v.toNat % 4096 := by
  by_cases kernel : kernelBase ≤ v.toNat ∧ v.toNat < kernelBase + kernelMapped
  · obtain rfl : v.toNat - kernelBase = p := by simpa only [smallPhysical, if_pos kernel, Option.some.injEq] using found
    simp only [kernelBase] at kernel ⊢
    omega
  · rw [smallPhysical, if_neg kernel] at found
    obtain ⟨-, found⟩ := Option.ite_none_right_eq_some.mp found
    cases found
    omega

def smallView : View where
  physical := smallPhysical
  writable _ := true
  offset := smallPhysical_offset

/-- The symbols of the system calls in a small kernel, where every handler is a `ret`. -/
def smallSyscalls : SyscallImage where
  syscallEntryAsm := 0xFFFFFFFF80201000
  syscallTable := 0xFFFFFFFF81208000
  address
    | .syscallExit => 0xFFFFFFFF80201100
    | .syscallAbort => 0xFFFFFFFF80201200
    | .syscallWrite => 0xFFFFFFFF80201300
    | .syscallYield => 0xFFFFFFFF80201400
  code
    | .syscallExit, v => if v = 0xFFFFFFFF80201100 then some 0xC3 else none
    | .syscallAbort, v => if v = 0xFFFFFFFF80201200 then some 0xC3 else none
    | .syscallWrite, v => if v = 0xFFFFFFFF80201300 then some 0xC3 else none
    | .syscallYield, v => if v = 0xFFFFFFFF80201400 then some 0xC3 else none
  operand := by decide

def smallCallMemory : Memory := fun x =>
  if 0x1208000 ≤ x then
    UInt8.ofNat ((loadSyscallTable smallSyscalls (fun _ => 0) ((x - 0x1208000) / 8)).toNat / 256 ^ ((x - 0x1208000) % 8))
  else ((smallSyscalls.bytes syscallInstrs)[x - 0x201000]?).getD 0xC3

theorem smallView_kernel {v : Word} {x : Nat} (place : v.toNat = kernelBase + x) (small : x < kernelMapped) :
    smallView.physical v = some x := by
  have inside : kernelBase ≤ v.toNat ∧ v.toNat < kernelBase + kernelMapped := by omega
  exact (if_pos inside).trans (congrArg some (by omega))

theorem smallView_stack {v : Word} (place : v.toNat / 4096 = 0x7FFFFFFFE) :
    smallView.physical v = some (0x1408000 + v.toNat % 4096) := by
  have low : ¬(kernelBase ≤ v.toNat ∧ v.toNat < kernelBase + kernelMapped) := by
    simp only [kernelBase]
    omega
  exact (if_neg low).trans (if_pos place)

theorem smallTable_loaded : TableLoaded smallView smallSyscalls smallCallMemory := by
  intro n bound
  have base : smallSyscalls.syscallTable = BitVec.ofNat 64 (kernelBase + 0x1208000) := rfl
  have fits : (loadSyscallTable smallSyscalls (fun _ => 0) n).toNat % 256 ^ 8 =
      (loadSyscallTable smallSyscalls (fun _ => 0) n).toNat := Nat.mod_eq_of_lt (BitVec.isLt _)
  have place (i : Nat) (inside : i < 8) :
      (smallSyscalls.syscallTable + BitVec.ofNat 64 (8 * n) + BitVec.ofNat 64 i).toNat = kernelBase + (0x1208000 + 8 * n + i) := by
    simp only [base, kernelBase, BitVec.toNat_add, BitVec.toNat_ofNat]
    omega
  rw [View.load_bytes (w := (loadSyscallTable smallSyscalls (fun _ => 0) n).toNat) fun i inside =>
    ⟨_, smallView_kernel (place i inside) (by simp only [kernelMapped, addrshift2M]; omega), ?_⟩, fits]
  have word : (0x1208000 + 8 * n + i - 0x1208000) / 8 = n := by omega
  have byte : (0x1208000 + 8 * n + i - 0x1208000) % 8 = i := by omega
  rw [smallCallMemory, if_pos (by omega), word, byte]

theorem smallEntry_loaded : EntryLoaded smallView smallSyscalls smallCallMemory :=
  show smallView.holds smallCallMemory 0xFFFFFFFF80201000 (smallSyscalls.bytes syscallInstrs) = true by decide

theorem smallHandler_loaded {m : Memory} (c : SyscallHandler) (same : ∀ x < 0x1400000, m x = smallCallMemory x) :
    HandlerLoaded smallView smallSyscalls c m := by
  intro v b found
  have here : v.toNat - kernelBase < 0x202000 ∧ smallCallMemory (v.toNat - kernelBase) = b ∧
      smallView.physical v = some (v.toNat - kernelBase) := by
    cases c <;>
    · simp only [smallSyscalls, Option.ite_none_right_eq_some, Option.some.injEq] at found
      obtain ⟨rfl, rfl⟩ := found
      decide
  rw [here.2.2, Option.map_some, same _ (by omega), here.2.1]

/-- A user with a number in `rax` and a stack. -/
def smallUser (number : Word) : Cpu where
  reg := Function.update (Function.update (fun _ => 1) .rax number) .rsp 0x7FFFFFFFEFF0
  rip := 0x400000
  rflags := 0x202
  mem := smallCallMemory

/-- The stack lies behind the table and the code. -/
theorem small_safe (user : Cpu) (mem : user.mem = smallCallMemory) (sp : user.reg .rsp = 0x7FFFFFFFEFF0)
    (small : (user.reg .rax).toNat < 256) :
    ∃ m₁ m₂ m₃, EntrySafe (fun _ => smallView) smallSyscalls user m₁ m₂ m₃ ∧ ∀ x < 0x1400000, m₃ x = smallCallMemory x := by
  have slot : (syscallSlot smallSyscalls (user.reg .rax)).toNat = kernelBase + 0x1208000 + (user.reg .rax).toNat * 8 := by
    have table : (0xFFFFFFFF81208000 : Word).toNat = kernelBase + 0x1208000 := rfl
    simp only [syscallSlot, smallSyscalls, BitVec.toNat_add, BitVec.toNat_mul, show (8 : Word).toNat = 8 from rfl, table, kernelBase]
    omega
  have pushed (i : Nat) (inside : i < 24) : (user.reg .rsp - 24 + BitVec.ofNat 64 i).toNat = 0x7FFFFFFFEFD8 + i := by
    rw [sp, BitVec.toNat_add, BitVec.toNat_ofNat, show ((0x7FFFFFFFEFF0 : Word) - 24).toNat = 0x7FFFFFFFEFD8 from rfl]
    omega
  have stack (i : Nat) (inside : i < 24) : smallView.physical (user.reg .rsp - 24 + BitVec.ofNat 64 i) = some (0x1408FD8 + i) := by
    rw [smallView_stack (by have := pushed i inside; omega), pushed i inside]
    exact congrArg some (by omega)
  have low (p : Nat) (below : p < 0x1400000) : ¬PushedAt smallView (user.reg .rsp) p := by
    rintro ⟨i, inside, place⟩
    have same := Option.some.inj ((stack i inside).symm.trans place)
    omega
  have code (k : Nat) (inside : k < 22) (p : Nat)
      (place : smallView.physical (smallSyscalls.syscallEntryAsm + BitVec.ofNat 64 k) = some p) : p < 0x1400000 := by
    have entry : (0xFFFFFFFF80201000 : Word).toNat = kernelBase + 0x201000 := rfl
    have here : (smallSyscalls.syscallEntryAsm + BitVec.ofNat 64 k).toNat = kernelBase + (0x201000 + k) := by
      simp only [smallSyscalls, BitVec.toNat_add, BitVec.toNat_ofNat, entry, kernelBase]
      omega
    have same := Option.some.inj ((smallView_kernel here (by simp only [kernelMapped, addrshift2M]; omega)).symm.trans place)
    omega
  have word (k : Nat) (inside : k < 8) (p : Nat)
      (place : smallView.physical (syscallSlot smallSyscalls (user.reg .rax) + BitVec.ofNat 64 k) = some p) : p < 0x1400000 := by
    have here : (syscallSlot smallSyscalls (user.reg .rax) + BitVec.ofNat 64 k).toNat =
        kernelBase + (0x1208000 + (user.reg .rax).toNat * 8 + k) := by
      rw [BitVec.toNat_add, slot, BitVec.toNat_ofNat]
      simp only [kernelBase]
      omega
    have same := Option.some.inj ((smallView_kernel here (by simp only [kernelMapped, addrshift2M]; omega)).symm.trans place)
    omega
  have loaded : EntryLoaded smallView smallSyscalls user.mem := mem ▸ smallEntry_loaded
  obtain ⟨m₁, m₂, m₃, safe, -, same⟩ := EntrySafe.of_apart (V := fun _ => smallView) loaded
    (fun i inside => ⟨rfl, _, stack i inside⟩) (fun _ _ => rfl)
    (fun k inside p place => low p (code k inside p place)) (fun k inside p place => low p (word k inside p place))
  exact ⟨m₁, m₂, m₃, safe, fun x below => mem ▸ same x (low x below)⟩

theorem dispatched_iff_write :
    Dispatched (fun _ => smallView) smallSyscalls (setupSyscall smallSyscalls ⟨0, 0⟩) (smallUser 4) := by
  have four : ((smallUser 4).reg .rax).toNat % 2 ^ 61 = SyscallHandler.syscallWrite.number := by
    simp [smallUser, SyscallHandler.number]
  obtain ⟨m₁, m₂, m₃, safe, same⟩ := small_safe (smallUser 4) rfl (by simp [smallUser]) (by simp [smallUser])
  have table : TableLoaded smallView smallSyscalls (smallUser 4).mem := smallTable_loaded
  exact (dispatched_iff (V := fun _ => smallView) table smallEntry_loaded).mpr
    ⟨by decide, .syscallWrite, four, m₁, m₂, m₃, safe, smallHandler_loaded _ same⟩

/-- The number 0 makes the kernel call the null entry of the table. -/
theorem not_dispatched_null : TableLoaded smallView smallSyscalls (smallUser 0).mem ∧
    EntryLoaded smallView smallSyscalls (smallUser 0).mem ∧
    (∃ called, syscallEntry (fun _ => smallView) smallSyscalls
      (syscallInstruction (setupSyscall smallSyscalls ⟨0, 0⟩) (smallUser 0)) = some called ∧ called.rip = 0) ∧
    ¬Dispatched (fun _ => smallView) smallSyscalls (setupSyscall smallSyscalls ⟨0, 0⟩) (smallUser 0) := by
  have rax : (smallUser 0).reg .rax = 0 := by simp [smallUser]
  refine ⟨smallTable_loaded, smallEntry_loaded, ?_, ?_⟩
  · have slot : syscallSlot smallSyscalls ((smallUser 0).reg .rax) =
        smallSyscalls.syscallTable + BitVec.ofNat 64 (8 * 0) := (syscallSlot_eq_iff (by omega)).mpr (by rw [rax]; rfl)
    have null : loadSyscallTable smallSyscalls (fun _ => 0) 0 = 0 :=
      loadSyscallTable_other fun c => by cases c <;> nofun
    have word := smallTable_loaded 0 (by omega)
    rw [← slot, null] at word
    obtain ⟨m₁, m₂, m₃, safe, -⟩ := small_safe (smallUser 0) rfl (by simp [smallUser]) (by simp [smallUser])
    obtain ⟨called, entered, target, -⟩ := safe.entered smallEntry_loaded (by decide) word ⟨0, 0⟩
    exact ⟨called, syscallEntry_eq_some.mpr ⟨m₁, m₂, entered⟩, target⟩
  · rintro ⟨c, _, _, slot, _⟩
    have number := (syscallSlot_eq_iff c.number_lt).mp slot
    rw [rax] at number
    cases c <;> cases number

end MetalToApp

import MetalToApp.Library.VirtualMemory
import MetalToApp.Library.X86

namespace MetalToApp
open ByteMemory Paging X86

/-- The functions that `load_syscall_table` registers. -/
inductive SyscallHandler
  | syscallExit | syscallAbort | syscallWrite | syscallYield
deriving DecidableEq, Repr

def SyscallHandler.number : SyscallHandler → Nat
  | .syscallExit => 0x01
  | .syscallAbort => 0x11
  | .syscallWrite => 0x04
  | .syscallYield => 0x99

/-- Where the linker put the symbols of the syscall path, and the code of the handlers with
what they call, byte by byte. The operand of an instruction holds the address of the table. -/
structure SyscallImage where
  syscallEntryAsm : Word
  syscallTable : Word
  address : SyscallHandler → Word
  code : SyscallHandler → Word → Option UInt8
  operand : (syscallTable.setWidth 32).signExtend 64 = syscallTable

def loadSyscallTable (image : SyscallImage) (table : Nat → Word) : Nat → Word :=
  let table := Function.update table 0x01 (image.address .syscallExit)
  let table := Function.update table 0x11 (image.address .syscallAbort)
  let table := Function.update table 0x04 (image.address .syscallWrite)
  Function.update table 0x99 (image.address .syscallYield)

/-- The registers that `syscall` reads besides the general ones. -/
structure SyscallMsr where
  lstar : Word
  sfmask : Word

def setupSyscall (image : SyscallImage) (msr : SyscallMsr) : SyscallMsr where
  lstar := image.syscallEntryAsm
  sfmask := msr.sfmask &&& 0xffffffff00000000

/-- The processor on the way into the kernel and back. -/
@[ext]
structure Cpu where
  reg : Reg → Word
  rip : Word
  rflags : Word
  mem : Memory

namespace Cpu

def set (s : Cpu) (r : Reg) (w : Word) : Cpu := { s with reg := Function.update s.reg r w }

def setMem (s : Cpu) (m : Memory) : Cpu := { s with mem := m }

def mov (s : Cpu) (src dst : Reg) : Cpu := s.set dst (s.reg src)

/-- With the trap flag every instruction ends in a debug exception, which has no gate. -/
def trapFlag (s : Cpu) : Bool := s.rflags.getLsbD 8

/-- The next instruction is the one with these bytes, or it is not the one that the kernel was
linked with. -/
def fetch (V : Tables) (s : Cpu) (bytes : List UInt8) : Option Cpu :=
  if s.trapFlag = false ∧ (V s.mem).holds s.mem s.rip bytes then
    some { s with rip := s.rip + BitVec.ofNat 64 bytes.length }
  else none

/-- A store that faults leaves no next state: the entry path has no handler of its own. -/
def push (V : Tables) (s : Cpu) (w : Word) : Option Cpu := do
  let m ← (V s.mem).store s.mem 8 (s.reg .rsp - 8) w.toNat
  return (s.set .rsp (s.reg .rsp - 8)).setMem m

def pop (V : Tables) (s : Cpu) (dst : Reg) : Option Cpu := do
  let w ← (V s.mem).load s.mem 8 (s.reg .rsp)
  return (s.set .rsp (s.reg .rsp + 8)).set dst (BitVec.ofNat 64 w)

end Cpu

/-- The instructions of `syscall_entry_asm`, as the assembler encodes them. -/
inductive SyscallInstr
  | pushRcx | pushR11 | movR10Rcx | movTableRax | callRax | popR11 | popRcx | sysretq
deriving DecidableEq, Repr

def SyscallInstr.bytes (image : SyscallImage) : SyscallInstr → List UInt8
  | .pushRcx => [0x51]
  | .pushR11 => [0x41, 0x53]
  | .movR10Rcx => [0x4C, 0x89, 0xD1]
  | .movTableRax => [0x48, 0x8B, 0x04, 0xC5] ++ (List.range 4).map fun i => UInt8.ofNat (image.syscallTable.toNat / 256 ^ i)
  | .callRax => [0xFF, 0xD0]
  | .popR11 => [0x41, 0x5B]
  | .popRcx => [0x59]
  | .sysretq => [0x48, 0x0F, 0x07]

def SyscallImage.bytes (image : SyscallImage) (instructions : List SyscallInstr) : List UInt8 :=
  instructions.flatMap (SyscallInstr.bytes image)

/-- The instructions behind the two pushes, up to the call. -/
def callInstrs : List SyscallInstr := [.movR10Rcx, .movTableRax, .callRax]

/-- The instructions behind the call. -/
def exitInstrs : List SyscallInstr := [.popR11, .popRcx, .sysretq]

def syscallInstrs : List SyscallInstr := .pushRcx :: .pushR11 :: (callInstrs ++ exitInstrs)

/-- `syscall` saves `rip` and `rflags` in registers and leaves the stack pointer alone. -/
def syscallInstruction (msr : SyscallMsr) (s : Cpu) : Cpu :=
  { (s.set .rcx (s.rip + 2)).set .r11 s.rflags with
    rip := msr.lstar
    rflags := s.rflags &&& ~~~msr.sfmask }

/-- The operand of `mov syscall_table(,%rax,8), %rax`. -/
def syscallSlot (image : SyscallImage) (rax : Word) : Word := image.syscallTable + rax * 8

/-- `syscall_entry_asm` up to its call. -/
def syscallEntry (V : Tables) (image : SyscallImage) (s : Cpu) : Option Cpu := do
  let s ← s.fetch V (SyscallInstr.pushRcx.bytes image)
  let s ← s.push V (s.reg .rcx)
  let s ← s.fetch V (SyscallInstr.pushR11.bytes image)
  let s ← s.push V (s.reg .r11)
  let s ← s.fetch V (SyscallInstr.movR10Rcx.bytes image)
  let s := s.mov .r10 .rcx
  let s ← s.fetch V (SyscallInstr.movTableRax.bytes image)
  let target ← (V s.mem).load s.mem 8 (syscallSlot image (s.reg .rax))
  let s := s.set .rax (BitVec.ofNat 64 target)
  let s ← s.fetch V (SyscallInstr.callRax.bytes image)
  let s ← s.push V s.rip
  return { s with rip := s.reg .rax }

/-- `sysretq`. The address must be canonical, and only these flags are loaded. -/
def sysretq (s : Cpu) : Option Cpu :=
  if Canonical (s.reg .rcx).toNat then
    some { s with rip := s.reg .rcx, rflags := s.reg .r11 &&& 0x3C7FD7 ||| 2 }
  else none

/-- `syscall_entry_asm` after its call. -/
def syscallExitPath (V : Tables) (image : SyscallImage) (s : Cpu) : Option Cpu := do
  let s ← s.fetch V (SyscallInstr.popR11.bytes image)
  let s ← s.pop V .r11
  let s ← s.fetch V (SyscallInstr.popRcx.bytes image)
  let s ← s.pop V .rcx
  let s ← s.fetch V (SyscallInstr.sysretq.bytes image)
  sysretq s

/-- The registers of the six integer arguments of a C function, in order. -/
def sysvArguments : List Reg := [.rdi, .rsi, .rdx, .rcx, .r8, .r9]

/-- The registers in which the user passes the arguments of a system call. -/
def syscallArguments : List Reg := [.rdi, .rsi, .rdx, .r10, .r8, .r9]

variable {V : Tables} {image : SyscallImage} {msr : SyscallMsr} {s t called : Cpu} {c : SyscallHandler} {w : Word} {r : Reg}
  {bytes : List UInt8}

namespace Cpu

theorem fetch_eq_some : s.fetch V bytes = some t ↔
    (s.trapFlag = false ∧ (V s.mem).holds s.mem s.rip bytes = true) ∧
      { s with rip := s.rip + BitVec.ofNat 64 bytes.length } = t := by
  rw [fetch, Option.ite_none_right_eq_some, Option.some_inj]

theorem push_eq_some : s.push V w = some t ↔
    ∃ m, (V s.mem).store s.mem 8 (s.reg .rsp - 8) w.toNat = some m ∧ (s.set .rsp (s.reg .rsp - 8)).setMem m = t := by
  simp only [push, Option.pure_def, Option.bind_eq_bind, Option.bind_eq_some_iff, Option.some_inj]

theorem pop_eq_some : s.pop V r = some t ↔
    ∃ n, (V s.mem).load s.mem 8 (s.reg .rsp) = some n ∧ (s.set .rsp (s.reg .rsp + 8)).set r (BitVec.ofNat 64 n) = t := by
  simp only [pop, Option.pure_def, Option.bind_eq_bind, Option.bind_eq_some_iff, Option.some_inj]

@[simp] theorem set_reg (r q : Reg) : (s.set r w).reg q = if q = r then w else s.reg q := by
  by_cases same : q = r
  · rw [same, if_pos rfl]
    exact Function.update_self ..
  · rw [if_neg same]
    exact Function.update_of_ne same ..

@[simp] theorem setMem_reg (m : Memory) : (s.setMem m).reg = s.reg := rfl
@[simp] theorem setMem_mem (m : Memory) : (s.setMem m).mem = m := rfl
@[simp] theorem setMem_rip (m : Memory) : (s.setMem m).rip = s.rip := rfl
@[simp] theorem setMem_rflags (m : Memory) : (s.setMem m).rflags = s.rflags := rfl
@[simp] theorem setMem_trapFlag (m : Memory) : (s.setMem m).trapFlag = s.trapFlag := rfl
@[simp] theorem set_mem (r : Reg) : (s.set r w).mem = s.mem := rfl
@[simp] theorem set_rip (r : Reg) : (s.set r w).rip = s.rip := rfl
@[simp] theorem set_rflags (r : Reg) : (s.set r w).rflags = s.rflags := rfl
@[simp] theorem set_trapFlag (r : Reg) : (s.set r w).trapFlag = s.trapFlag := rfl

end Cpu

theorem SyscallImage.bytes_cons (instruction : SyscallInstr) (rest : List SyscallInstr) :
    image.bytes (instruction :: rest) = instruction.bytes image ++ image.bytes rest := rfl

theorem SyscallImage.bytes_nil : image.bytes [] = [] := rfl

theorem SyscallImage.bytes_append (first second : List SyscallInstr) :
    image.bytes (first ++ second) = image.bytes first ++ image.bytes second := List.flatMap_append

theorem SyscallInstr.length_movTableRax : (SyscallInstr.movTableRax.bytes image).length = 8 := rfl

/-- The entry path pushes `rcx` and `r11`, loads the table's word, and calls it with the
return address pushed as well. Each instruction is still there when it is fetched. -/
structure SyscallEntered (V : Tables) (image : SyscallImage) (s called : Cpu) (m₁ m₂ : Memory) : Prop where
  untrapped : s.trapFlag = false
  first : (V s.mem).holds s.mem s.rip (SyscallInstr.pushRcx.bytes image) = true
  pushRcx : (V s.mem).store s.mem 8 (s.reg .rsp - 8) (s.reg .rcx).toNat = some m₁
  second : (V m₁).holds m₁ (s.rip + 1) (SyscallInstr.pushR11.bytes image) = true
  pushR11 : (V m₁).store m₁ 8 (s.reg .rsp - 16) (s.reg .r11).toNat = some m₂
  others : (V m₂).holds m₂ (s.rip + 3) (image.bytes callInstrs) = true
  pushReturn : (V m₂).store m₂ 8 (s.reg .rsp - 24) (s.rip + 16).toNat = some called.mem
  loaded : (V m₂).load m₂ 8 (syscallSlot image (s.reg .rax)) = some called.rip.toNat
  rax : called.reg .rax = called.rip
  rcx : called.reg .rcx = s.reg .r10
  rsp : called.reg .rsp = s.reg .rsp - 24
  kept : ∀ r, r ≠ .rax → r ≠ .rcx → r ≠ .rsp → called.reg r = s.reg r
  rflags : called.rflags = s.rflags

theorem toNat_ofNat_of_load {V : View} {m : Memory} {v : Word} {n : Nat} (loaded : V.load m 8 v = some n) :
    (BitVec.ofNat 64 n).toNat = n := by
  have bound := View.load_lt loaded
  rw [BitVec.toNat_ofNat]
  exact Nat.mod_eq_of_lt (by norm_num at bound ⊢; exact bound)

/-- The three instructions behind the pushes lie one behind the other. -/
theorem holds_callInstrs {V : View} {m : Memory} (v : Word) : V.holds m v (image.bytes callInstrs) = true ↔
    V.holds m v (SyscallInstr.movR10Rcx.bytes image) = true ∧ V.holds m (v + 3) (SyscallInstr.movTableRax.bytes image) = true ∧
      V.holds m (v + 11) (SyscallInstr.callRax.bytes image) = true := by
  have shift : v + BitVec.ofNat 64 3 + BitVec.ofNat 64 8 = v + 11 := by bv_omega
  rw [callInstrs, SyscallImage.bytes_cons, SyscallImage.bytes_cons, SyscallImage.bytes_cons, SyscallImage.bytes_nil,
    List.append_nil, View.holds_append, View.holds_append, Bool.and_eq_true, Bool.and_eq_true,
    SyscallInstr.length_movTableRax, show (SyscallInstr.movR10Rcx.bytes image).length = 3 from rfl, shift]
  rfl

theorem syscallEntry_eq_some :
    syscallEntry V image s = some called ↔ ∃ m₁ m₂, SyscallEntered V image s called m₁ m₂ := by
  have second : s.reg .rsp - 8 - 8 = s.reg .rsp - 16 := by bv_omega
  have third : s.reg .rsp - 16 - 8 = s.reg .rsp - 24 := by bv_omega
  -- Where the instructions lie.
  have at₂ : s.rip + BitVec.ofNat 64 (SyscallInstr.pushRcx.bytes image).length = s.rip + 1 := rfl
  have at₃ : s.rip + 1 + BitVec.ofNat 64 (SyscallInstr.pushR11.bytes image).length = s.rip + 3 := by
    rw [show (SyscallInstr.pushR11.bytes image).length = 2 from rfl]
    bv_omega
  have at₄ : s.rip + 3 + BitVec.ofNat 64 (SyscallInstr.movR10Rcx.bytes image).length = s.rip + 3 + 3 := rfl
  have at₅ : s.rip + 3 + 3 + BitVec.ofNat 64 (SyscallInstr.movTableRax.bytes image).length = s.rip + 3 + 11 := by
    rw [SyscallInstr.length_movTableRax]
    bv_omega
  have at₆ : s.rip + 3 + 11 + BitVec.ofNat 64 (SyscallInstr.callRax.bytes image).length = s.rip + 16 := by
    rw [show (SyscallInstr.callRax.bytes image).length = 2 from rfl]
    bv_omega
  simp only [syscallEntry, Option.pure_def, Option.bind_eq_bind, Option.bind_eq_some_iff, Option.some_inj,
    Cpu.fetch_eq_some, Cpu.push_eq_some, Cpu.mov]
  constructor
  · rintro ⟨_, ⟨⟨untrapped, code₁⟩, rfl⟩, _, ⟨m₁, first, rfl⟩, _, ⟨⟨-, code₂⟩, rfl⟩, _, ⟨m₂, next, rfl⟩,
      _, ⟨⟨-, code₃⟩, rfl⟩, _, ⟨⟨-, code₄⟩, rfl⟩, target, found, _, ⟨⟨-, code₅⟩, rfl⟩, _, ⟨m₃, last, rfl⟩, rfl⟩
    simp only [Cpu.set_reg, Cpu.set_mem, Cpu.setMem_reg, Cpu.setMem_mem, Cpu.set_rip, Cpu.setMem_rip, reduceIte,
      reduceCtorEq, second, third, at₂, at₃, at₄, at₅, at₆] at first code₂ next code₃ code₄ found code₅ last
    refine ⟨m₁, m₂, untrapped, code₁, first, code₂, next, (holds_callInstrs _).mpr ⟨code₃, code₄, code₅⟩, last, ?_, ?_, ?_, ?_,
      ?_, rfl⟩
    · simpa [toNat_ofNat_of_load found] using found
    · simp
    · simp
    · simp only [Cpu.set_reg, Cpu.setMem_reg, reduceIte, reduceCtorEq, second, third]
    · intro r
      simp +contextual
  · rintro ⟨m₁, m₂, h⟩
    obtain ⟨code₃, code₄, code₅⟩ := (holds_callInstrs _).mp h.others
    refine ⟨_, ⟨⟨h.untrapped, h.first⟩, rfl⟩, _, ⟨m₁, h.pushRcx, rfl⟩, _, ⟨⟨h.untrapped, h.second⟩, rfl⟩, _, ⟨m₂, ?_, rfl⟩,
      _, ⟨⟨h.untrapped, ?_⟩, rfl⟩, _, ⟨⟨h.untrapped, ?_⟩, rfl⟩, called.rip.toNat, ?_, _, ⟨⟨h.untrapped, ?_⟩, rfl⟩, _,
      ⟨called.mem, ?_, rfl⟩, ?_⟩
    · simpa only [Cpu.set_reg, Cpu.setMem_reg, Cpu.setMem_mem, reduceIte, reduceCtorEq, second] using h.pushR11
    · simpa only [Cpu.set_rip, Cpu.setMem_rip, Cpu.setMem_mem, at₂, at₃] using code₃
    · simpa only [Cpu.set_rip, Cpu.set_mem, Cpu.setMem_rip, Cpu.setMem_mem, at₂, at₃, at₄] using code₄
    · simpa using h.loaded
    · simpa only [Cpu.set_rip, Cpu.set_mem, Cpu.setMem_rip, Cpu.setMem_mem, at₂, at₃, at₄, at₅] using code₅
    · simpa only [Cpu.set_reg, Cpu.setMem_reg, Cpu.set_mem, Cpu.setMem_mem, Cpu.set_rip, Cpu.setMem_rip, reduceIte,
        reduceCtorEq, second, third, at₂, at₃, at₄, at₅, at₆] using h.pushReturn
    · ext1
      · funext r
        simp only [Cpu.set_reg, Cpu.setMem_reg, reduceIte, reduceCtorEq, second, third]
        cases r <;> simp [h.rax, h.rcx, h.rsp, h.kept]
      · simp
      · simp [h.rflags]
      · simp

theorem loadSyscallTable_number (image : SyscallImage) (table : Nat → Word) (c : SyscallHandler) :
    loadSyscallTable image table c.number = image.address c := by
  cases c <;> simp [loadSyscallTable, SyscallHandler.number]

theorem loadSyscallTable_other {table : Nat → Word} {n : Nat} (other : ∀ c : SyscallHandler, n ≠ c.number) :
    loadSyscallTable image table n = table n := by
  have exit := other .syscallExit
  have abort := other .syscallAbort
  have write := other .syscallWrite
  have yield := other .syscallYield
  simp only [SyscallHandler.number] at exit abort write yield
  simp only [loadSyscallTable, Function.update_of_ne exit, Function.update_of_ne abort, Function.update_of_ne write,
    Function.update_of_ne yield]

theorem SyscallHandler.number_lt (c : SyscallHandler) : c.number < 256 := by
  cases c <;> decide

/-- The scaled index wraps: the upper three bits of `rax` play no part. -/
theorem syscallSlot_eq_iff {rax : Word} {n : Nat} (small : n < 256) :
    syscallSlot image rax = image.syscallTable + BitVec.ofNat 64 (8 * n) ↔ rax.toNat % 2 ^ 61 = n := by
  have eight : (8 : Word).toNat = 8 := rfl
  rw [syscallSlot, BitVec.add_right_inj, ← BitVec.toNat_inj, BitVec.toNat_mul, BitVec.toNat_ofNat, eight]
  omega

end MetalToApp

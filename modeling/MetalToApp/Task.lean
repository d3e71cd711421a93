import MetalToApp.Library.ByteMemory

namespace MetalToApp
open ByteMemory

/-! The fields of `struct task`, by their offsets. -/
namespace Task

def ss : Nat := 0x00
def rsp : Nat := 0x08
def rflags : Nat := 0x10
def cs : Nat := 0x18
def rip : Nat := 0x20
def rbp : Nat := 0x28
def rax : Nat := 0x30
def rbx : Nat := 0x38
def rcx : Nat := 0x40
def rdx : Nat := 0x48
def rsi : Nat := 0x50
def rdi : Nat := 0x58
def r8 : Nat := 0x60
def r9 : Nat := 0x68
def r10 : Nat := 0x70
def r11 : Nat := 0x78
def r12 : Nat := 0x80
def r13 : Nat := 0x88
def r14 : Nat := 0x90
def r15 : Nat := 0x98
def taskFlags : Nat := 0xa0
def addressSpace : Nat := 0xa8

/-- `sizeof (struct task)`. -/
def size : Nat := 0xb0

end Task

def taskFlagMaskCanExecute : Nat := 1

def defaultRflags : Nat := 0x246

/-! `offsetof (struct GDT, ...)`. -/
namespace GDT

def cs64 : Nat := 8
def ds : Nat := 16
def dsu : Nat := 32
def cs64u : Nat := 40

end GDT

/-- `make_task`, on the memory its task struct lies in. It leaves the registers
other than `rdi` as they are there. -/
def makeTask (m : Memory) (kernelAddressSpace task stack entry arg addressSpace : Nat) (userMode : Bool) : Memory :=
  let m := write64 m (task + Task.rip) entry
  let m := write64 m (task + Task.cs) (if userMode then GDT.cs64u + 3 else GDT.cs64)
  let m := write64 m (task + Task.rflags) defaultRflags
  let m := write64 m (task + Task.ss) (if userMode then GDT.dsu + 3 else GDT.ds)
  let m := write64 m (task + Task.rsp) stack
  let m := write64 m (task + Task.rdi) arg
  let m := write64 m (task + Task.taskFlags) taskFlagMaskCanExecute
  write64 m (task + Task.addressSpace) (if addressSpace = 0 then kernelAddressSpace else addressSpace)

theorem makeTask_outside {m : Memory} {k task stack entry arg space x : Nat} {userMode : Bool}
    (outside : x < task ∨ task + Task.size ≤ x) :
    makeTask m k task stack entry arg space userMode x = m x := by
  simp only [Task.size] at outside
  simp only [makeTask, Task.rip, Task.cs, Task.rflags, Task.ss, Task.rsp, Task.rdi, Task.taskFlags,
    Task.addressSpace]
  iterate 8 rw [write64_outside (by omega)]

end MetalToApp

import MetalToApp.Scheduler
import MetalToApp.Library.X86

namespace MetalToApp
open ByteMemory X86

/-- What a task sees of the processor. -/
structure Context where
  reg : Reg → Word
  rip : Word
  cs : Selector
  rflags : Word
  ss : Selector

/-- CPU 0 outside of any interrupt, with the kernel's half of its address space. -/
structure Machine where
  reg : Reg → Word
  rip : Word
  cs : Selector
  rflags : Word
  ss : Selector
  ds : Selector
  cr3 : Word
  sched : Scheduler

def Machine.context (M : Machine) : Context := ⟨M.reg, M.rip, M.cs, M.rflags, M.ss⟩

/-- The field of `struct task` for a general register. -/
def Task.reg : Reg → Nat
  | .rax => Task.rax | .rbx => Task.rbx | .rcx => Task.rcx | .rdx => Task.rdx
  | .rsi => Task.rsi | .rdi => Task.rdi | .rbp => Task.rbp | .rsp => Task.rsp
  | .r8 => Task.r8 | .r9 => Task.r9 | .r10 => Task.r10 | .r11 => Task.r11
  | .r12 => Task.r12 | .r13 => Task.r13 | .r14 => Task.r14 | .r15 => Task.r15

/-- The context that a task struct holds. -/
def Context.ofTask (m : Memory) (task : Nat) : Context where
  reg r := readWord m (task + Task.reg r)
  rip := readWord m (task + Task.rip)
  cs := (readWord m (task + Task.cs)).setWidth 16
  rflags := readWord m (task + Task.rflags)
  ss := (readWord m (task + Task.ss)).setWidth 16

/-- The context that `make_task` sets up over what the struct held before. -/
def Context.start (m : Memory) (task stack entry arg : Nat) (userMode : Bool) : Context where
  reg := Function.update (Function.update (Context.ofTask m task).reg .rsp (BitVec.ofNat 64 stack)) .rdi (BitVec.ofNat 64 arg)
  rip := BitVec.ofNat 64 entry
  cs := if userMode then BitVec.ofNat 16 (GDT.cs64u + 3) else BitVec.ofNat 16 GDT.cs64
  rflags := BitVec.ofNat 64 defaultRflags
  ss := if userMode then BitVec.ofNat 16 (GDT.dsu + 3) else BitVec.ofNat 16 GDT.ds

def addressSpaceOf (m : Memory) (task : Nat) : Word := readWord m (task + Task.addressSpace)

/-- What the calls made by `asm_reschedule` leave unspecified: their return addresses,
the registers that a callee need not preserve, and the stack below the caller's. -/
structure CallEffects where
  returnAddress : Word
  reg : Reg → Word
  stack : Memory

/-- The registers that a C function may change. -/
def callerSaved : List Reg := [.rax, .rcx, .rdx, .rsi, .rdi, .r8, .r9, .r10, .r11]

/-! The straight-line pieces of `asm_reschedule`, between its two calls. -/

def rescheduleEntry : List Instr := [.push .rbp, .mov .rsp .rbp, .push .rax, .push .rbx, .movSs .rax, .movDs .rax]

def rescheduleSave : List Instr :=
  [.lea 0xa0 .rax .rsp,
    .push .r15, .push .r14, .push .r13, .push .r12, .push .r11, .push .r10, .push .r9, .push .r8,
    .push .rdi, .push .rsi, .push .rdx, .push .rcx,
    .load (-0x10) .rbp .rax, .push .rax, .load (-0x8) .rbp .rax, .push .rax,
    .load 0x0 .rbp .rax, .push .rax, .load 0x8 .rbp .rax, .push .rax,
    .load 0x10 .rbp .rax, .push .rax, .load 0x18 .rbp .rax, .push .rax,
    .load 0x20 .rbp .rax, .push .rax, .load 0x28 .rbp .rax, .push .rax]

def rescheduleRestore : List Instr :=
  [.mov .rax .rsp, .load 0xa8 .rax .rbx, .movCr3 .rbx,
    .pop .rbx, .store .rbx 0x28 .rbp, .pop .rbx, .store .rbx 0x20 .rbp,
    .pop .rbx, .store .rbx 0x18 .rbp, .pop .rbx, .store .rbx 0x10 .rbp,
    .pop .rbx, .store .rbx 0x8 .rbp, .pop .rbx, .store .rbx 0x0 .rbp,
    .pop .rax, .pop .rbx, .pop .rcx, .pop .rdx, .pop .rsi, .pop .rdi,
    .pop .r8, .pop .r9, .pop .r10, .pop .r11, .pop .r12, .pop .r13, .pop .r14, .pop .r15]

def rescheduleLeave : List Instr :=
  [.mov .rbp .rsp, .mov .rax .rbp, .load 0x28 .rsp .rax, .movDs .rax, .mov .rbp .rax, .pop .rbp]

/-- Gate 201 switches to the interrupt stack `ist` and pushes the interrupt frame there. A
change of the privilege level loads the null selector. -/
def deliverInterrupt (ist : Nat) (M : Machine) : X86.State :=
  let m := writeWord M.sched.mem (ist - 8) (M.ss.setWidth 64)
  let m := writeWord m (ist - 16) (M.reg .rsp)
  let m := writeWord m (ist - 24) M.rflags
  let m := writeWord m (ist - 32) (M.cs.setWidth 64)
  { reg := Function.update M.reg .rsp (BitVec.ofNat 64 (ist - 40))
    mem := writeWord m (ist - 40) M.rip
    cr3 := M.cr3
    ss := if M.cs &&& 3 = 0 then M.ss else 0
    ds := M.ds }

/-- `asm_get_cpuid` returns 0 and touches the stack only for its return address. -/
def callAsmGetCpuid (e : CallEffects) (s : X86.State) : X86.State :=
  { s with
    reg := Function.update s.reg .rax 0
    mem := writeWord s.mem (s.reg .rsp - 8).toNat e.returnAddress }

/-- `mov (%rax,%rbx, 0x8), %rax` with `current_task_table` in `rax`. -/
def loadCurrentTask (sched : Scheduler) (s : X86.State) : X86.State :=
  { s with reg := Function.update s.reg .rax (BitVec.ofNat 64 (sched.currentTaskTable (s.reg .rbx).toNat)) }

/-- The call of the C function `scheduler`, which may use the stack from `floor` up. -/
def callScheduler (idleLoopTask floor : Nat) (e : CallEffects) (sched : Scheduler) (s : X86.State) :
    X86.State × Scheduler :=
  let (next, sched) := scheduler idleLoopTask { sched with mem := s.mem } (s.reg .rdi).toNat
  let reg r := if r = .rax then BitVec.ofNat 64 next else if r ∈ callerSaved then e.reg r else s.reg r
  let mem x := if floor ≤ x ∧ x < (s.reg .rsp).toNat then e.stack x else s.mem x
  ({ s with reg := reg, mem := mem }, sched)

/-- `iretq`, with the interrupt frame on top of the stack. -/
def iretq (sched : Scheduler) (s : X86.State) : Machine :=
  let sp := (s.reg .rsp).toNat
  { reg := Function.update s.reg .rsp (readWord s.mem (sp + 24))
    rip := readWord s.mem sp
    cs := (readWord s.mem (sp + 8)).setWidth 16
    rflags := readWord s.mem (sp + 16)
    ss := (readWord s.mem (sp + 32)).setWidth 16
    ds := s.ds
    cr3 := s.cr3
    sched := { sched with mem := s.mem } }

/-- The task structs of a run, pairwise apart, and the interrupt stack `[floor, ist)`. -/
structure TaskArea where
  tasks : Set Nat
  idleLoopTask : Nat
  floor : Nat
  ist : Nat
  idle_mem : idleLoopTask ∈ tasks
  apart : ∀ t ∈ tasks, ∀ u ∈ tasks, t ≠ u → t + Task.size ≤ u ∨ u + Task.size ≤ t
  fits : ∀ t ∈ tasks, 0 < t ∧ t + Task.size < 2 ^ 64
  offStack : ∀ t ∈ tasks, t + Task.size ≤ floor ∨ ist ≤ t
  deep : floor + 72 ≤ ist
  istFits : ist < 2 ^ 64

/-- `asm_reschedule`, from the interrupt to the return from it. -/
def asmReschedule (T : TaskArea) (e : CallEffects) (M : Machine) : Machine :=
  let s := run (deliverInterrupt T.ist M) rescheduleEntry
  let s := callAsmGetCpuid e s
  let s := run s [.mov .rax .rbx]
  let s := loadCurrentTask M.sched s
  let s := run s rescheduleSave
  let s := run s [.mov .rbp .rsp, .mov .rbx .rdi]
  let (s, sched) := callScheduler T.idleLoopTask T.floor e M.sched s
  let s := run s rescheduleRestore
  let s := run s rescheduleLeave
  iretq sched s

/-- The 20 words that `asm_reschedule` saves, in the order of `struct task`. -/
def savedWords (m : Memory) (task : Nat) : List Word :=
  [Task.ss, Task.rsp, Task.rflags, Task.cs, Task.rip, Task.rbp, Task.rax, Task.rbx, Task.rcx, Task.rdx,
    Task.rsi, Task.rdi, Task.r8, Task.r9, Task.r10, Task.r11, Task.r12, Task.r13, Task.r14, Task.r15].map
    fun field => readWord m (task + field)

theorem savedWords_at (m : Memory) (task : Nat) : WordsAt m task (savedWords m task) := by
  simp [savedWords, WordsAt, Nat.add_assoc, Task.ss, Task.rsp, Task.rflags, Task.cs, Task.rip, Task.rbp, Task.rax,
    Task.rbx, Task.rcx, Task.rdx, Task.rsi, Task.rdi, Task.r8, Task.r9, Task.r10, Task.r11, Task.r12, Task.r13,
    Task.r14, Task.r15]

variable {T : TaskArea} {M : Machine} {e : CallEffects}

/-- The processor right before the save: the current task in `rax`, the CPU's number in
`rbx`, and the interrupted context in the words at `ist - 64`. -/
structure Entered (T : TaskArea) (M : Machine) (s : X86.State) : Prop where
  rax : s.reg .rax = BitVec.ofNat 64 (M.sched.currentTaskTable 0)
  rbx : s.reg .rbx = 0
  rbp : (s.reg .rbp).toNat = T.ist - 48
  kept : ∀ r, r ≠ .rax → r ≠ .rbx → r ≠ .rbp → r ≠ .rsp → s.reg r = M.reg r
  frame : WordsAt s.mem (T.ist - 64) [M.reg .rbx, M.reg .rax, M.reg .rbp, M.rip, M.cs.setWidth 64, M.rflags,
    M.reg .rsp, M.ss.setWidth 64]
  outside : ∀ x, x < T.floor ∨ T.ist ≤ x → s.mem x = M.sched.mem x

theorem rescheduleEntry_entered (T : TaskArea) (e : CallEffects) (M : Machine) :
    Entered T M (loadCurrentTask M.sched
      (run (callAsmGetCpuid e (run (deliverInterrupt T.ist M) rescheduleEntry)) [.mov .rax .rbx])) := by
  obtain ⟨k, top⟩ : ∃ k, T.ist = k + 72 := ⟨T.ist - 72, by have := T.deep; omega⟩
  have floor : T.floor ≤ k := by have := T.deep; omega
  have fits : k + 72 < 2 ^ 64 := top ▸ T.istFits
  let m := (deliverInterrupt T.ist M).mem
  have delivered : WordsAt m (k + 32) [M.rip, M.cs.setWidth 64, M.rflags, M.reg .rsp, M.ss.setWidth 64] := by
    have empty : WordsAt M.sched.mem (k + 64 + 8) [] := trivial
    simpa only [m, deliverInterrupt, top, Nat.reduceSubDiff] using
      ((((empty.push _).push _).push _).push _).push M.rip
  let ss := (deliverInterrupt T.ist M).ss
  let ax := M.reg .rax &&& ~~~0xffff ||| ss.setWidth 64
  have entry : run (deliverInterrupt T.ist M) rescheduleEntry =
      { reg := Function.update (Function.update (Function.update M.reg .rbp (BitVec.ofNat 64 (k + 24))) .rsp
          (BitVec.ofNat 64 (k + 8))) .rax ax
        mem := writeWord (writeWord (writeWord m (k + 24) (M.reg .rbp)) (k + 16) (M.reg .rax)) (k + 8) (M.reg .rbx)
        cr3 := M.cr3
        ss := ss
        ds := ax.setWidth 16 } := by
    simp only [rescheduleEntry, run_cons]
    rw [exec_push (n := k + 24) .rbp (by simp [deliverInterrupt, top]) (by omega)]
    have rsp : (exec { deliverInterrupt T.ist M with
        reg := Function.update (deliverInterrupt T.ist M).reg .rsp (BitVec.ofNat 64 (k + 24))
        mem := writeWord (deliverInterrupt T.ist M).mem (k + 24) ((deliverInterrupt T.ist M).reg .rbp) }
        (.mov .rsp .rbp)).reg .rsp = BitVec.ofNat 64 (k + 16 + 8) := by simp [exec]
    rw [exec_push (n := k + 16) .rax rsp (by omega), exec_push (n := k + 8) .rbx (by simp) (by omega)]
    simp only [run, List.foldl_nil, exec, deliverInterrupt, ss, ax, m, top]
    congr 1
    · funext r
      cases r <;> simp [Function.update]
  let pushed := writeWord (writeWord (writeWord m (k + 24) (M.reg .rbp)) (k + 16) (M.reg .rax)) (k + 8) (M.reg .rbx)
  have returnCell : (BitVec.ofNat 64 (k + 8) - 8).toNat = k := toNat_sub_eight (by rw [BitVec.toNat_ofNat]; omega)
  have mem : (loadCurrentTask M.sched (run (callAsmGetCpuid e (run (deliverInterrupt T.ist M) rescheduleEntry))
      [.mov .rax .rbx])).mem = writeWord pushed k e.returnAddress := by
    rw [entry]
    change writeWord pushed (BitVec.ofNat 64 (k + 8) - 8).toNat e.returnAddress = _
    rw [returnCell]
  have deliveredOutside : ∀ x, x < k ∨ k + 72 ≤ x → m x = M.sched.mem x := by
    intro x away
    simp only [m, deliverInterrupt, top]
    iterate 5 rw [writeWord_outside (by omega)]
  constructor
  · rw [entry]
    simp [callAsmGetCpuid, loadCurrentTask, run, exec]
  · rw [entry]
    simp [callAsmGetCpuid, loadCurrentTask, run, exec]
  · have value : (k + 24) % 2 ^ 64 = k + 72 - 48 := by omega
    rw [entry, top, ← value]
    simp [callAsmGetCpuid, loadCurrentTask, run, exec]
  · intro r notRax notRbx notRbp notRsp
    rw [entry]
    simp [callAsmGetCpuid, loadCurrentTask, run, exec, notRax, notRbx, notRbp, notRsp]
  · have frame := ((delivered.push (M.reg .rbp)).push (M.reg .rax)).push (M.reg .rbx)
    rw [mem, top]
    exact frame.congr fun x lower _ => writeWord_outside (Or.inr lower)
  · intro x away
    rw [mem, writeWord_outside (by omega)]
    simp only [pushed]
    iterate 3 rw [writeWord_outside (by omega)]
    exact deliveredOutside x (by omega)

/-- The words that a saved context takes up in a task struct. -/
def Context.words (c : Context) : List Word :=
  [c.ss.setWidth 64, c.reg .rsp, c.rflags, c.cs.setWidth 64, c.rip, c.reg .rbp, c.reg .rax, c.reg .rbx, c.reg .rcx,
    c.reg .rdx, c.reg .rsi, c.reg .rdi, c.reg .r8, c.reg .r9, c.reg .r10, c.reg .r11, c.reg .r12, c.reg .r13,
    c.reg .r14, c.reg .r15]

theorem Context.ofTask_eq {m : Memory} {task : Nat} {c : Context} (words : WordsAt m task c.words) :
    Context.ofTask m task = c := by
  simp only [Context.words, WordsAt, Nat.add_assoc, Nat.reduceAdd] at words
  obtain ⟨ss, rsp, rflags, cs, rip, rbp, rax, rbx, rcx, rdx, rsi, rdi, r8, r9, r10, r11, r12, r13, r14, r15, -⟩ := words
  have selector (v : Selector) : (v.setWidth 64).setWidth 16 = v := by
    rw [BitVec.setWidth_setWidth_of_le v (by decide)]; exact BitVec.setWidth_eq v
  obtain ⟨reg, cRip, cCs, cRflags, cSs⟩ := c
  simp only [Context.ofTask, Context.mk.injEq, Task.cs, cs, Task.ss, Nat.add_zero, ss, selector, and_true, true_and]
  refine ⟨funext fun r => ?_, rip, rflags⟩
  cases r <;> simp only [Task.reg, Task.rsp, Task.rbp, Task.rax, Task.rbx, Task.rcx, Task.rdx, Task.rsi, Task.rdi,
    Task.r8, Task.r9, Task.r10, Task.r11, Task.r12, Task.r13, Task.r14, Task.r15, rsp, rbp, rax, rbx, rcx, rdx, rsi,
    rdi, r8, r9, r10, r11, r12, r13, r14, r15]

theorem rescheduleSave_saved {s : X86.State} {task : Nat} (entered : Entered T M s) (member : task ∈ T.tasks)
    (current : M.sched.currentTaskTable 0 = task) :
    ∃ reg m, run s rescheduleSave = { s with reg := reg, mem := m } ∧ reg .rbx = 0 ∧ (reg .rbp).toNat = T.ist - 48 ∧
      WordsAt m task M.context.words ∧ ∀ x, x < task ∨ task + 0xa0 ≤ x → m x = s.mem x := by
  have program : rescheduleSave = .lea 0xa0 .rax .rsp ::
      ([Reg.r15, .r14, .r13, .r12, .r11, .r10, .r9, .r8, .rdi, .rsi, .rdx, .rcx].map Instr.push ++
        copyUp .rbp .rax (-0x10) 8) := rfl
  have fits := (T.fits task member).2
  have off := T.offStack task member
  have deep := T.deep
  have istFits := T.istFits
  simp only [Task.size] at fits off
  have address : (s.reg .rax).toNat = task := by
    rw [entered.rax, current, BitVec.toNat_ofNat]
    omega
  let t := exec s (.lea 0xa0 .rax .rsp)
  have rsp : (t.reg .rsp).toNat = task + 0x40 + 8 * 12 := by
    simp only [t, exec, Function.update_self]
    rw [show (0xa0 : Word) = BitVec.ofNat 64 0xa0 from rfl, toNat_add_of_room (by omega), address]
  obtain ⟨m₁, pushes, words₁, outside₁⟩ := run_pushes (s := t)
    [.r15, .r14, .r13, .r12, .r11, .r10, .r9, .r8, .rdi, .rsi, .rdx, .rcx] (task + 0x40) (by decide) rsp
    (show WordsAt _ _ [] from trivial)
  let u : X86.State := { t with reg := Function.update t.reg .rsp (BitVec.ofNat 64 (task + 0x40)), mem := m₁ }
  have rbp : u.reg .rbp = s.reg .rbp := by simp [u, t, exec]
  have frame : WordsAt u.mem (T.ist - 64) _ := entered.frame.congr fun x lower upper => by
    simp only [List.length_cons, List.length_nil] at upper
    exact outside₁ x (by simp only [List.length_cons, List.length_nil]; omega)
  have source : (u.reg .rbp + -0x10).toNat = T.ist - 64 := by
    rw [rbp, ← BitVec.sub_eq_add_neg, BitVec.toNat_sub, entered.rbp, show BitVec.toNat (0x10 : Word) = 16 from rfl]
    omega
  have rspMid : (u.reg .rsp).toNat = task + 8 * 8 := by
    simp only [u, Function.update_self, BitVec.toNat_ofNat]
    omega
  obtain ⟨m₂, v, copies, words₂, outside₂⟩ := run_copyUp (s := u) (b := task) .rbp .rax
    (by decide) (by decide) (by decide) source
    (by simp only [List.length_cons, List.length_nil]; omega) frame
    (by simp only [List.length_cons, List.length_nil]; omega) rspMid words₁
  refine ⟨Function.update (Function.update u.reg .rax v) .rsp (BitVec.ofNat 64 task), m₂, ?_, ?_, ?_, ?_, ?_⟩
  · rw [program, run_cons, run_append, pushes]
    exact copies
  · simp [u, t, exec, entered.rbx]
  · simpa [u, t, exec] using entered.rbp
  · have kept (r : Reg) (notRax : r ≠ .rax) (notRbx : r ≠ .rbx) (notRbp : r ≠ .rbp) (notRsp : r ≠ .rsp) :
        t.reg r = M.reg r := by
      simpa [t, exec, notRsp] using entered.kept r notRax notRbx notRbp notRsp
    simpa [kept, Context.words, Machine.context] using words₂
  · intro x away
    rw [outside₂ x (by simp only [List.length_cons, List.length_nil]; omega)]
    exact outside₁ x (by simp only [List.length_cons, List.length_nil]; omega)

/-- Leaving with the frame of a context on the interrupt stack and its other general
registers in place. -/
theorem rescheduleLeave_iretq {s : X86.State} {m : Memory} {task base : Nat} (sched : Scheduler)
    (rbp : (s.reg .rbp).toNat = base) (fits : base + 48 < 2 ^ 64)
    (frame : WordsAt s.mem base [readWord m (task + Task.rbp), readWord m (task + Task.rip), readWord m (task + Task.cs),
      readWord m (task + Task.rflags), readWord m (task + Task.rsp), readWord m (task + Task.ss)])
    (kept : ∀ r, r ≠ .rbp → r ≠ .rsp → s.reg r = readWord m (task + Task.reg r)) :
    (iretq sched (run s rescheduleLeave)).context = Context.ofTask m task ∧
      (iretq sched (run s rescheduleLeave)).cr3 = s.cr3 ∧
      (iretq sched (run s rescheduleLeave)).sched = { sched with mem := s.mem } := by
  obtain ⟨atRbp, atRip, atCs, atRflags, atRsp, atSs, -⟩ := frame
  simp only [Nat.add_assoc, Nat.reduceAdd] at atRip atCs atRflags atRsp atSs
  have sp : (s.reg .rbp + 8).toNat = base + 8 := by rw [toNat_add_eight (by omega), rbp]
  have final : run s rescheduleLeave =
      { s with
        reg := Function.update (Function.update s.reg .rsp (s.reg .rbp + 8)) .rbp (readWord s.mem base)
        ds := (readWord s.mem (s.reg .rbp + 0x28).toNat).setWidth 16 } := by
    have rbpCell : readWord s.mem (s.reg .rbp).toNat = readWord s.mem base := by rw [rbp]
    rw [← rbpCell]
    simp only [rescheduleLeave, run, List.foldl, exec]
    congr 1
    funext r
    cases r <;> simp [Function.update]
  rw [final]
  simp only [iretq, Machine.context, Context.ofTask, Context.mk.injEq, Function.update_self, Function.update_of_ne,
    ne_eq, reduceCtorEq, not_false_eq_true, sp, Nat.add_assoc, Nat.reduceAdd, atRip, atCs, atRflags, atRsp, atSs,
    and_true]
  funext r
  cases r <;> simp [atRbp, kept, Task.reg]

theorem rescheduleRestore_restored {s : X86.State} {next : Nat} (sched : Scheduler) (member : next ∈ T.tasks)
    (rax : s.reg .rax = BitVec.ofNat 64 next) (rbp : (s.reg .rbp).toNat = T.ist - 48) :
    let M' := iretq sched (run (run s rescheduleRestore) rescheduleLeave)
    M'.context = Context.ofTask s.mem next ∧ M'.cr3 = addressSpaceOf s.mem next ∧
      ∃ m, M'.sched = { sched with mem := m } ∧ ∀ x, x < T.floor ∨ T.ist ≤ x → m x = s.mem x := by
  have program : rescheduleRestore = [.mov .rax .rsp, .load 0xa8 .rax .rbx, .movCr3 .rbx] ++
      (restoreDown .rbp .rbx 6 ++
        [Reg.rax, .rbx, .rcx, .rdx, .rsi, .rdi, .r8, .r9, .r10, .r11, .r12, .r13, .r14, .r15].map Instr.pop) := rfl
  have fits := (T.fits next member).2
  have off := T.offStack next member
  have deep := T.deep
  have istFits := T.istFits
  simp only [Task.size] at fits off
  have address : (BitVec.ofNat 64 next).toNat = next := by
    rw [BitVec.toNat_ofNat]
    omega
  have space : (BitVec.ofNat 64 next + 0xa8).toNat = next + Task.addressSpace := by
    rw [show (0xa8 : Word) = BitVec.ofNat 64 0xa8 from rfl, toNat_add_of_room (by omega), address]
    rfl
  let w field := readWord s.mem (next + field)
  let low := [w Task.ss, w Task.rsp, w Task.rflags, w Task.cs, w Task.rip, w Task.rbp]
  let high := [w Task.rax, w Task.rbx, w Task.rcx, w Task.rdx, w Task.rsi, w Task.rdi, w Task.r8, w Task.r9,
    w Task.r10, w Task.r11, w Task.r12, w Task.r13, w Task.r14, w Task.r15]
  obtain ⟨wordsLow, wordsHigh⟩ := WordsAt.append.mp (show WordsAt s.mem next (low ++ high) from savedWords_at s.mem next)
  let t := run s [.mov .rax .rsp, .load 0xa8 .rax .rbx, .movCr3 .rbx]
  have rsp : t.reg .rsp = BitVec.ofNat 64 next := by simp [t, run, exec, rax]
  have cr3 : t.cr3 = addressSpaceOf s.mem next := by
    simp only [t, run, List.foldl, exec, Function.update_self, ne_eq, reduceCtorEq, not_false_eq_true,
      Function.update_of_ne, rax, space]
    rfl
  have base : (t.reg .rbp).toNat = T.ist - 48 := by simp [t, run, exec, rbp]
  obtain ⟨m, v, copies, frame, outside⟩ := run_restoreDown (s := t) (b := next) .rbp .rbx
    (by decide) (by decide) (by decide) base (by simp only [low, List.length]; omega) (by rw [rsp, address])
    (by simp only [low, List.length]; omega) wordsLow (by simp only [low, List.length]; omega)
    (show WordsAt _ _ [] from trivial)
  simp only [low, List.length, List.reverse_cons, List.reverse_nil, List.nil_append, List.cons_append,
    List.append_nil] at copies frame outside
  let u : X86.State := { t with
    reg := Function.update (Function.update t.reg .rbx v) .rsp (BitVec.ofNat 64 (next + 48)), mem := m }
  have pops := run_pops (s := u) (b := next + 48)
    [.rax, .rbx, .rcx, .rdx, .rsi, .rdi, .r8, .r9, .r10, .r11, .r12, .r13, .r14, .r15] (by decide)
    (by simp only [u, Function.update_self, BitVec.toNat_ofNat]; omega) (by simp only [List.length]; omega)
    (wordsHigh.congr fun x lower upper => outside x (by simp only [low, high, List.length] at lower upper; omega)) rfl
  rw [program, run_append, run_append, show run s _ = t from rfl, copies]
  let p : X86.State := { u with reg := Function.update (popped u.reg [.rax, .rbx, .rcx, .rdx, .rsi, .rdi, .r8, .r9,
    .r10, .r11, .r12, .r13, .r14, .r15] high) .rsp (BitVec.ofNat 64 (next + 48 + 8 * 14)) }
  have final : run u ([Reg.rax, .rbx, .rcx, .rdx, .rsi, .rdi, .r8, .r9, .r10, .r11, .r12, .r13, .r14, .r15].map
      Instr.pop) = p := pops
  have pRbp : (p.reg .rbp).toNat = T.ist - 48 := by simpa [p, u, high, popped] using base
  obtain ⟨context, space', kernel⟩ := rescheduleLeave_iretq (s := p) (m := s.mem) sched pRbp
    (by omega) frame (by intro r notRbp notRsp; cases r <;> simp [p, high, popped, Task.reg, w] at notRbp notRsp ⊢)
  rw [show run { t with reg := _, mem := m } _ = p from final]
  exact ⟨context, space'.trans cr3, m, kernel, fun x away => outside x (by omega)⟩

/-- What one switch does, in terms of the memory it leaves behind: the interrupted context
lies in the task struct of the task that was current, and the processor runs on with the
context in the struct of the task that is current now. -/
structure Switched (T : TaskArea) (M M' : Machine) : Prop where
  saved : Context.ofTask M'.sched.mem (M.sched.currentTaskTable 0) = M.context
  restored : M'.context = Context.ofTask M'.sched.mem (M'.sched.currentTaskTable 0)
  cr3 : M'.cr3 = addressSpaceOf M'.sched.mem (M'.sched.currentTaskTable 0)
  next : M'.sched.currentTaskTable 0 ∈ T.tasks
  vector : M'.sched.schedulingVector = M.sched.schedulingVector
  outside : ∀ x, (x < M.sched.currentTaskTable 0 ∨ M.sched.currentTaskTable 0 + Task.taskFlags ≤ x) →
    (x < T.floor ∨ T.ist ≤ x) → M'.sched.mem x = M.sched.mem x

theorem Context.ofTask_congr {m m' : Memory} {task : Nat}
    (same : ∀ x, task ≤ x → x < task + Task.taskFlags → m' x = m x) :
    Context.ofTask m' task = Context.ofTask m task := by
  have word (field : Nat) (inside : field + 8 ≤ Task.taskFlags) :
      readWord m' (task + field) = readWord m (task + field) :=
    readWord_congr fun x lower upper => same x (by omega) (by omega)
  have regs (r : Reg) : readWord m' (task + Task.reg r) = readWord m (task + Task.reg r) :=
    word _ (by cases r <;> decide)
  simp only [Context.ofTask, regs, word Task.rip (by decide), word Task.cs (by decide), word Task.rflags (by decide),
    word Task.ss (by decide)]

theorem asmReschedule_switched (T : TaskArea) (e : CallEffects) (M : Machine)
    (current : M.sched.currentTaskTable 0 ∈ T.tasks)
    (choice : ∀ m, (scheduler T.idleLoopTask { M.sched with mem := m } 0).1 ∈ T.tasks) :
    Switched T M (asmReschedule T e M) := by
  let s := loadCurrentTask M.sched
    (run (callAsmGetCpuid e (run (deliverInterrupt T.ist M) rescheduleEntry)) [.mov .rax .rbx])
  have entered : Entered T M s := rescheduleEntry_entered T e M
  obtain ⟨reg, m, saves, rbx, rbp, words, outside⟩ := rescheduleSave_saved entered current rfl
  let u := run (run s rescheduleSave) [.mov .rbp .rsp, .mov .rbx .rdi]
  have before : u = { s with
      reg := Function.update (Function.update reg .rsp (reg .rbp)) .rdi (reg .rbx), mem := m } := by
    simp only [u]
    rw [saves]
    rfl
  have argument : (u.reg .rdi).toNat = 0 := by simp [before, rbx]
  have uMem : u.mem = m := by rw [before]
  have uRbp : (u.reg .rbp).toNat = T.ist - 48 := by simpa [before] using rbp
  have uRsp : (u.reg .rsp).toNat = T.ist - 48 := by simpa [before] using rbp
  let called := scheduler T.idleLoopTask { M.sched with mem := m } 0
  let v := (callScheduler T.idleLoopTask T.floor e M.sched u).1
  have returned : (callScheduler T.idleLoopTask T.floor e M.sched u).2 = called.2 := by
    simp only [callScheduler, argument, uMem, called]
  have rax : v.reg .rax = BitVec.ofNat 64 called.1 := by simp only [v, callScheduler, argument, uMem, called, if_true]
  have vRbp : (v.reg .rbp).toNat = T.ist - 48 := by simpa [v, callScheduler, callerSaved] using uRbp
  have vMem : ∀ x, x < T.floor ∨ T.ist ≤ x → v.mem x = m x := by
    intro x away
    simp only [v, callScheduler, uRsp, uMem]
    exact if_neg (by omega)
  obtain ⟨context, space, final, kernel, apart⟩ := rescheduleRestore_restored called.2 (choice m) rax vRbp
  have whole : asmReschedule T e M = iretq called.2 (run (run v rescheduleRestore) rescheduleLeave) := by
    rw [← returned]
    rfl
  rw [← whole] at context space kernel
  have mem : (asmReschedule T e M).sched.mem = final := by rw [kernel]
  have next : (asmReschedule T e M).sched.currentTaskTable 0 = called.1 := by
    rw [kernel]
    exact scheduler_current ..
  have same : ∀ x, x < T.floor ∨ T.ist ≤ x → final x = m x := fun x away => (apart x away).trans (vMem x away)
  have offStack {task : Nat} (member : task ∈ T.tasks) {x : Nat} (lower : task ≤ x) (upper : x < task + Task.size) :
      x < T.floor ∨ T.ist ≤ x := by
    have := T.offStack task member
    omega
  have kept {task : Nat} (member : task ∈ T.tasks) : Context.ofTask final task = Context.ofTask v.mem task :=
    Context.ofTask_congr fun x lower upper => apart x (offStack member lower (by
      simp only [Task.taskFlags, Task.size] at *; omega))
  refine ⟨?_, ?_, ?_, ?_, ?_, ?_⟩
  · rw [mem, ← Context.ofTask_eq words]
    exact Context.ofTask_congr fun x lower upper => same x (offStack current lower (by
      simp only [Task.taskFlags, Task.size] at *; omega))
  · rw [next, mem, kept (choice m), context]
  · rw [next, mem, space]
    exact (readWord_congr fun x lower upper => apart x (offStack (choice m) (by omega) (by
      simp only [Task.addressSpace, Task.size] at *; omega))).symm
  · rw [next]
    exact choice m
  · rw [kernel]
    exact (scheduler_kept ..).2
  · intro x away off
    rw [mem, same x off, outside x away, entered.outside x off]

end MetalToApp

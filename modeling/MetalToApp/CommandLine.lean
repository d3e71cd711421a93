import MetalToApp.Userspace

namespace MetalToApp
open ByteMemory Paging

/-- The task starts at `sp` on the page of its stack, which the frame `f` backs, with the
string there for it to read, and to build this stack nothing was written but bytes of `f` and the
task struct. -/
structure IntactStart (K : KernelImage) (s₃ s' : Kernel) (f task entry : Nat) (string : Nat → UInt8) (length sp cr3 : Nat) :
    Prop where
  rsp : s'.load64 (task + Task.rsp) = .ok sp
  rdi : s'.load64 (task + Task.rdi) = .ok sp
  space : s'.load64 (task + Task.addressSpace) = .ok cr3
  aligned : sp % 16 = 0
  inside : stackPage ≤ sp ∧ sp < initrdStackAddr
  page : ∀ o < 4096, walk s'.mem cr3 (stackPage + o) = some ⟨f + o, true, true⟩
  reads : ∀ k ≤ length, ∃ q, walk s'.mem cr3 (sp + k) = some q ∧ q.user = true ∧ s'.mem q.address = string k
  writes : ∃ d dest source n, window task Task.size = .ok d ∧ f ≤ dest ∧ dest + n ≤ f + 4096 ∧
    s'.mem = makeTask (memcpy s₃.mem dest source n) K.kernelPml4 d sp entry sp cr3 true

/-- `make_userspace_process` returns a task that starts with the `length` characters at `b`
and their NUL as its command line. -/
def StartsIntact (K : KernelImage) (s : Kernel) (elfStart elfEnd commandLine b length : Nat) : Prop :=
  ∃ root entry s₂ f task s₃ s' sp cr3, loadProgram K s elfStart elfEnd = .ok (root, entry, s₂) ∧
    prepareTask s₂ root = .ok (f, task, s₃) ∧ makeUserspaceProcess K s elfStart elfEnd commandLine = .ok (task, s') ∧
    IntactStart K s₃ s' f task entry (fun k => s.mem (b + k)) length sp cr3

section fields
variable {m : Memory} {k task stack entry arg space : Nat} {userMode : Bool}

theorem makeTask_rsp (fits : stack < 2 ^ 64) :
    read64 (makeTask m k task stack entry arg space userMode) (task + Task.rsp) = stack := by
  rw [makeTask, read64_write64_disjoint (by simp only [Task.rsp, Task.addressSpace]; omega),
    read64_write64_disjoint (by simp only [Task.rsp, Task.taskFlags]; omega),
    read64_write64_disjoint (by simp only [Task.rsp, Task.rdi]; omega), read64_write64_self fits]

theorem makeTask_rdi (fits : arg < 2 ^ 64) : read64 (makeTask m k task stack entry arg space userMode) (task + Task.rdi) = arg := by
  rw [makeTask, read64_write64_disjoint (by simp only [Task.rdi, Task.addressSpace]; omega),
    read64_write64_disjoint (by simp only [Task.rdi, Task.taskFlags]; omega), read64_write64_self fits]

end fields

section start
variable {K : KernelImage} {A : Arena} {s s' : Kernel} {g : Ghost} {a len b length stop : Nat}

/-- The stack pointer of a started task, whatever the length of its command line. -/
theorem startTask_rsp {r f d entry commandLine : Nat} (room : d + 4096 ≤ 2 ^ 39) (atLength : s.strlen commandLine = .ok length)
    (run : startTask K s r entry f (linearAddressToPtr d) commandLine = .ok s') :
    s'.load64 (linearAddressToPtr d + Task.rsp) =
      .ok ((initrdStackAddr + (2 ^ 64 - (length % 2 ^ 32 / 16 * 16 + 16) % 2 ^ 32)) % 2 ^ 64) := by
  have place : window (linearAddressToPtr d) Task.size = .ok d := window_linear_zero (by simp only [Task.size]; omega) (by omega)
  rw [startTask, atLength, Outcome.ok_bind] at run
  obtain ⟨t, -, run⟩ := Outcome.bind_eq_ok.mp run
  obtain ⟨space, -, run⟩ := Outcome.bind_eq_ok.mp run
  rw [place, Outcome.ok_bind] at run
  cases run
  rw [Kernel.load64, Kernel.load_linear _ (by simp only [Task.rsp]; omega) (by omega)]
  exact congrArg Except.ok (makeTask_rsp (Nat.mod_lt _ (by norm_num)))

namespace Stages
variable (S : Stages K A s g a stop)
include S

/-- A short command line arrives as it is. -/
theorem intactStart (short : length < 4096) (kept : Agree s.mem S.s₃.mem b (length + 1))
    (placed : ∀ k ≤ length, b + k < S.f ∨ S.f + 4096 ≤ b + k) :
    IntactStart K S.s₃ { S.s₃ with
      mem := makeTask (memcpy S.s₃.mem (S.f + 4096 - paddedSize length) b (length + 1)) K.kernelPml4 S.d
        (initrdStackAddr - paddedSize length) S.entry (initrdStackAddr - paddedSize length) S.c true } S.f
      (linearAddressToPtr S.d) S.entry (fun k => s.mem (b + k)) length (initrdStackAddr - paddedSize length) S.c := by
  have outside {x : Nat} := S.copy_outside short b (x := x)
  have room := S.data.frame.room
  have page := S.page
  have size : length < paddedSize length ∧ paddedSize length ≤ 4096 ∧ paddedSize length % 16 = 0 := by
    unfold paddedSize
    omega
  have top : stackPage + (4096 - paddedSize length) = initrdStackAddr - paddedSize length := by
    simp only [stackPage, initrdStackAddr, defaultFrameSize]
    omega
  have fits : initrdStackAddr - paddedSize length < 2 ^ 64 := by
    simp only [initrdStackAddr]
    omega
  constructor
  case rsp =>
    rw [Kernel.load64, Kernel.load_linear _ (by simp only [Task.rsp]; omega) (by omega)]
    exact congrArg Except.ok (makeTask_rsp fits)
  case rdi =>
    rw [Kernel.load64, Kernel.load_linear _ (by simp only [Task.rdi]; omega) (by omega)]
    exact congrArg Except.ok (makeTask_rdi fits)
  case space =>
    rw [Kernel.load64, Kernel.load_linear _ (by simp only [Task.addressSpace]; omega) (by omega)]
    exact congrArg Except.ok (makeTask_space _ page.2.1 (by omega))
  case aligned =>
    simp only [initrdStackAddr]
    omega
  case inside =>
    simp only [stackPage, initrdStackAddr, defaultFrameSize]
    omega
  case page => exact fun o inside => S.walkStack _ _ (fun x => outside) inside
  case reads =>
    intro k inside
    have place : initrdStackAddr - paddedSize length + k = stackPage + (4096 - paddedSize length + k) := by omega
    have walked := S.walkStack (initrdStackAddr - paddedSize length) S.entry (fun x => outside)
      (show 4096 - paddedSize length + k < 4096 by omega)
    have read := S.readCommandLine short kept placed S.entry inside
    rw [← place] at walked
    rw [readVirtual, walked, Option.map_some] at read
    exact ⟨_, walked, rfl, Option.some.inj read⟩
  case writes =>
    exact ⟨S.d, S.f + 4096 - paddedSize length, b, length + 1,
      window_linear_zero (by simp only [Task.size]; omega) (by omega), by omega, by omega, rfl⟩

end Stages

variable {b : Nat}

/-- A command line that arrives intact is shorter than a page, and the frames sufficed. -/
theorem StartsIntact.short (inv : KernelInv K A s g) (wf : WellFormed s.mem a len) (string : StringAt s.mem b length)
    (room : b + length + 1 ≤ 2 ^ 39) (imagePlaced : ∀ f ∈ g.free, ∀ k < len, a + k < f ∨ f + 4096 ≤ a + k)
    (stringPlaced : ∀ f ∈ g.free, ∀ k ≤ length, b + k < f ∨ f + 4096 ≤ b + k)
    (starts : StartsIntact K s (linearAddressToPtr a) stop (linearAddressToPtr b) b length) :
    length < 4096 ∧ processFrames s.mem a ≤ g.free.length := by
  obtain ⟨root, entry, s₂, f, task, s₃, s', sp, cr3, program, prepare, run, start⟩ := starts
  have enough : programFrames s.mem a ≤ g.free.length := by
    by_contra few
    obtain ⟨e, failed⟩ := loadProgram_short inv wf imagePlaced (not_le.mp few) stop
    cases program.symm.trans failed
  have placed : ∀ f ∈ g.free.take (programFrames s.mem a), ∀ k < len, a + k < f ∨ f + 4096 ≤ a + k :=
    fun f member => imagePlaced f (List.mem_of_mem_take member)
  have frames := enough_of_makeUserspaceProcess inv wf placed enough run
  refine ⟨?_, frames⟩
  obtain ⟨S⟩ := exists_stages inv wf placed frames stop
  cases S.program.symm.trans program
  cases S.prepare.symm.trans prepare
  have kept : Agree s.mem S.s₃.mem b (length + 1) := fun k inside =>
    S.outside inv fun f member => stringPlaced f (List.mem_of_mem_take member) k (by omega)
  have atLength := S.s₃.strlen_linear (string.congr kept) room
  simp only [makeUserspaceProcess, S.program, S.prepare, Outcome.ok_bind] at run
  obtain ⟨t, started, done⟩ := Outcome.bind_eq_ok.mp run
  cases done
  have top := Except.ok.inj ((startTask_rsp S.data.frame.room atLength started).symm.trans start.rsp)
  obtain ⟨lower, upper⟩ := start.inside
  -- The last byte can be read, so that it lies below the end of the lower half.
  obtain ⟨q, found, -⟩ := start.reads length le_rfl
  have canonical : Canonical (sp + length) := by
    by_contra not
    rw [walk, if_neg not] at found
    cases found
  simp only [Canonical, stackPage, initrdStackAddr, defaultFrameSize] at canonical lower upper top
  omega

/-- A command line arrives intact exactly when it is shorter than a page and the process
finds the frames it needs. The image is a program, and neither it nor the line lies in a frame
that is free. -/
theorem startsIntact_iff (inv : KernelInv K A s g) (wf : WellFormed s.mem a len) (string : StringAt s.mem b length)
    (room : b + length + 1 ≤ 2 ^ 39) (imagePlaced : ∀ f ∈ g.free, ∀ k < len, a + k < f ∨ f + 4096 ≤ a + k)
    (stringPlaced : ∀ f ∈ g.free, ∀ k ≤ length, b + k < f ∨ f + 4096 ≤ b + k) (stop : Nat) :
    StartsIntact K s (linearAddressToPtr a) stop (linearAddressToPtr b) b length ↔
      length < 4096 ∧ processFrames s.mem a ≤ g.free.length := by
  refine ⟨StartsIntact.short inv wf string room imagePlaced stringPlaced, fun ⟨short, frames⟩ => ?_⟩
  obtain ⟨S⟩ := exists_stages inv wf (fun f member => imagePlaced f (List.mem_of_mem_take member)) frames stop
  have kept : Agree s.mem S.s₃.mem b (length + 1) := fun k inside =>
    S.outside inv fun f member => stringPlaced f (List.mem_of_mem_take member) k (by omega)
  have run := S.run (S.s₃.strlen_linear (string.congr kept) room) short (window_linear_zero (by omega) (by omega))
  exact ⟨_, _, _, _, _, _, _, _, _, S.program, S.prepare, run,
    S.intactStart short kept (stringPlaced S.f (List.mem_of_mem_take S.stack_mem))⟩

end start

/-- A file with a line of `n` characters behind its image. -/
def lineFile (n : Nat) : Memory := fun x => if 0x1a00000 ≤ x ∧ x < 0x1a00000 + n then 0x41 else sharedPageFile x

theorem lineFile_string (n : Nat) (blank : sharedPageFile (0x1a00000 + n) = 0) : StringAt (lineFile n) 0x1a00000 n := by
  constructor
  · intro k inside
    rw [lineFile, if_pos (by omega)]
    decide
  · rw [lineFile, if_neg (by omega), blank]

theorem lineFile_image (n : Nat) : Agree sharedPageFile (lineFile n) 0x1900000 0xb1 := fun k inside => if_neg (by omega)

/-- The small kernel boots with this file above its free memory. -/
theorem lineBoot (n : Nat) (blank : sharedPageFile (0x1a00000 + n) = 0) :
    ∃ s, KernelInv smallImage smallMemory.arena s (Ghost.boot smallImage smallMemory.arena) ∧
      WellFormed s.mem 0x1900000 0xb1 ∧ StringAt s.mem 0x1a00000 n ∧ processFrames s.mem 0x1900000 = 11 ∧
      ∀ f ∈ (Ghost.boot smallImage smallMemory.arena).free, f + 4096 ≤ 0x1800000 := by
  obtain ⟨s, -, inv, kept⟩ := smallBoot (lineFile n)
  have image : Agree sharedPageFile s.mem 0x1900000 0xb1 := fun k inside => by
    rw [kept _ (by omega), lineFile_image n k inside]
  have wf := sharedPageFile_wellFormed
  refine ⟨s, inv, wf.congr image, (lineFile_string n blank).congr fun k inside => kept _ (by omega), ?_, fun f member => ?_⟩
  · rw [processFrames_congr wf image]
    decide
  · exact (inv.stack.frame member).upper

/-- A line of twenty characters. -/
theorem startsIntact_line : ∃ s, StringAt s.mem 0x1a00000 20 ∧ StartsIntact smallImage s (linearAddressToPtr 0x1900000)
    (linearAddressToPtr 0x19000b1) (linearAddressToPtr 0x1a00000) 0x1a00000 20 := by
  obtain ⟨s, inv, wf, string, frames, below⟩ := lineBoot 20 (by decide)
  refine ⟨s, string, (startsIntact_iff inv wf string (by decide) (fun f member k _ => ?_) (fun f member k _ => ?_) _).mpr
    ⟨by decide, ?_⟩⟩
  · have last := below f member
    omega
  · have last := below f member
    omega
  · rw [frames, Ghost.boot_free, frameRange_length]
    decide

/-- A command line of exactly a page, without its NUL, does not fit on the stack. -/
theorem startsIntact_page_long : ∃ s, KernelInv smallImage smallMemory.arena s (Ghost.boot smallImage smallMemory.arena) ∧
    WellFormed s.mem 0x1900000 0xb1 ∧ StringAt s.mem 0x1a00000 4096 ∧
    processFrames s.mem 0x1900000 ≤ (Ghost.boot smallImage smallMemory.arena).free.length ∧
    ¬StartsIntact smallImage s (linearAddressToPtr 0x1900000) (linearAddressToPtr 0x19000b1) (linearAddressToPtr 0x1a00000)
      0x1a00000 4096 := by
  obtain ⟨s, inv, wf, string, frames, below⟩ := lineBoot 4096 (by decide)
  refine ⟨s, inv, wf, string, ?_, fun starts => ?_⟩
  · rw [frames, Ghost.boot_free, frameRange_length]
    decide
  have short := (StartsIntact.short inv wf string (by decide) (fun f member k _ => ?_) (fun f member k _ => ?_) starts).1
  · exact absurd short (by decide)
  · have last := below f member
    omega
  · have last := below f member
    omega

end MetalToApp

import MetalToApp.Interrupts
import MetalToApp.RescheduleRuns
import MetalToApp.Syscall

namespace MetalToApp
open ByteMemory BitFields

/-- The segment registers that decide what the processor may do, where it runs, the selectors
that wait in interrupt frames and task structs, and memory with the descriptor tables. -/
structure Ring where
  cs : Nat
  ss : Nat
  rip : Nat
  frames : List (Nat × Nat)
  mem : Memory

/-- The selectors that `make_task` puts into a task struct. -/
def taskSelectors (userMode : Bool) : Nat × Nat :=
  if userMode then (GDT.cs64u + 3, GDT.dsu + 3) else (GDT.cs64, GDT.ds)

theorem taskSelectors_makeTask (m : Memory) (k task stack entry arg space : Nat) (userMode : Bool) :
    let context := Context.ofTask (makeTask m k task stack entry arg space userMode) task
    (context.cs.toNat, context.ss.toNat) = taskSelectors userMode := by
  intro context
  have start : context = Context.start m task stack entry arg userMode := Context.ofTask_makeTask
  rw [start]
  cases userMode <;> rfl

/-- The vectors that there are. -/
def Cause.Vector : Cause → Prop
  | .exception vector _ => vector < 32
  | .software vector => vector < 256

/-- The ways in which the segment registers change: user code that loads selectors, the
entries into the kernel, and the two returns from it. Code of the kernel loads none. A store of
user code, of the kernel or of the entry path of a system call may go anywhere but to the
descriptor tables, and the selectors in frames and task structs are not written over. -/
inductive RingStep (D : DescriptorImage) (star lstar : Nat) : Ring → Ring → Prop
  | user {r} (cs ss rip : Nat) : r.cs % 4 = 3 →
      cs = r.cs ∨ cs % 4 = 3 ∧ Selects Segment.Code r.mem D.gdt GDT.size cs →
      ss = r.ss ∨ ss % 4 = 3 ∧ Selects Segment.Stack r.mem D.gdt GDT.size ss →
      RingStep D star lstar r { r with cs := cs, ss := ss, rip := rip }
  | kernel {r} (rip : Nat) : r.cs % 4 = 0 → RingStep D star lstar r { r with rip := rip }
  | store {r} (m : Memory) : TablesKept D r.mem m → RingStep D star lstar r { r with mem := m }
  | syscall {r} : r.cs % 4 = 3 →
      RingStep D star lstar r { r with cs := (syscallSelectors star).1, ss := (syscallSelectors star).2, rip := lstar }
  | interrupt {r} (cause : Cause) (d : Delivery) : cause.Vector → deliver D r.mem cause = some d →
      RingStep D star lstar r
        { r with cs := d.entry.cs, ss := if r.cs % 4 = 3 then 0 else r.ss, rip := d.entry.rip, frames := (r.cs, r.ss) :: r.frames }
  | sysretq {r} (rip : Nat) : r.cs % 4 = 0 →
      RingStep D star lstar r { r with cs := (sysretSelectors star).1, ss := (sysretSelectors star).2, rip := rip }
  | iretq {r} (frame : Nat × Nat) (rip : Nat) : r.cs % 4 = 0 → frame ∈ r.frames →
      RingStep D star lstar r { r with cs := frame.1, ss := frame.2, rip := rip }
  | makeTask {r} (userMode : Bool) : r.cs % 4 = 0 →
      RingStep D star lstar r { r with frames := taskSelectors userMode :: r.frames }

/-- The selectors of user code, or the code segment of the kernel. -/
def RingOk (cs ss : Nat) : Prop := cs = GDT.cs64u + 3 ∧ ss = GDT.dsu + 3 ∨ cs = GDT.cs64

/-- From the state in which `cstart` has set up the descriptors. -/
inductive RingReach (D : DescriptorImage) (m : Memory) (star lstar : Nat) : Ring → Prop
  | start (rip : Nat) : RingReach D m star lstar ⟨GDT.cs64, GDT.ds, rip, [], m⟩
  | step {r r'} : RingReach D m star lstar r → RingStep D star lstar r r' → RingReach D m star lstar r'

section runs
variable {D : DescriptorImage} {m : Memory} {star lstar : Nat} {r r' : Ring}

/-- Every delivery enters the kernel's code segment at one of its handlers. -/
theorem Delivered.kernel (delivered : Delivered D m) {cause : Cause} {d : Delivery} (vector : cause.Vector)
    (found : deliver D m cause = some d) : d.entry.cs = GDT.cs64 ∧ ∃ h, d.entry.rip = (D.address h).toNat := by
  cases cause with
  | exception v code =>
    obtain ⟨d', found', rip, -, cs, -, -⟩ := delivered.exception v vector code
    cases found.symm.trans found'
    exact ⟨cs, _, rip⟩
  | software v =>
    obtain ⟨d', found', rip, -, cs, -, -⟩ := delivered.software v vector
    cases found.symm.trans found'
    exact ⟨cs, _, rip⟩

theorem RingReach.ready (reach : RingReach D m star lstar r) (ready : DescriptorsReady D m) : DescriptorsReady D r.mem := by
  induction reach with
  | start rip => exact ready
  | step _ step ih =>
    cases step with
    | store m kept => exact ih.congr kept
    | _ => exact ih

/-- What one step makes of the selectors. -/
theorem RingStep.ok (ready : DescriptorsReady D r.mem)
    (syscall : syscallSelectors star = (GDT.cs64, GDT.ds)) (sysret : sysretSelectors star = (GDT.cs64u + 3, GDT.dsu + 3))
    (ok : RingOk r.cs r.ss) (frames : ∀ frame ∈ r.frames, RingOk frame.1 frame.2) (step : RingStep D star lstar r r') :
    RingOk r'.cs r'.ss ∧ ∀ frame ∈ r'.frames, RingOk frame.1 frame.2 := by
  cases step with
  | user cs ss rip level code stack =>
    obtain ⟨isCode, isStack⟩ : r.cs = GDT.cs64u + 3 ∧ r.ss = GDT.dsu + 3 := by
      refine ok.resolve_right fun kernel => ?_
      rw [kernel] at level
      exact absurd level (by decide)
    refine ⟨Or.inl ⟨?_, ?_⟩, frames⟩
    · rcases code with same | ⟨low, selects⟩
      · exact same.trans isCode
      · rcases ready.flat.selects_code.mp selects with rfl | rfl | rfl
        · exact absurd low (by decide)
        · exact absurd low (by decide)
        · rfl
    · rcases stack with same | ⟨low, selects⟩
      · exact same.trans isStack
      · rcases ready.flat.selects_stack.mp selects with rfl | rfl
        · exact absurd low (by decide)
        · rfl
  | kernel rip level => exact ⟨ok, frames⟩
  | store m kept => exact ⟨ok, frames⟩
  | syscall level => exact ⟨Or.inr (by rw [syscall]), frames⟩
  | interrupt cause d vector found =>
    refine ⟨Or.inr (ready.delivered.kernel vector found).1, fun frame member => ?_⟩
    rcases List.mem_cons.mp member with rfl | old
    · exact ok
    · exact frames frame old
  | sysretq rip level => exact ⟨Or.inl (by rw [sysret]; exact ⟨rfl, rfl⟩), frames⟩
  | iretq frame rip level member => exact ⟨frames frame member, frames⟩
  | makeTask userMode level =>
    refine ⟨ok, fun frame member => ?_⟩
    rcases List.mem_cons.mp member with rfl | old
    · cases userMode
      · exact Or.inr rfl
      · exact Or.inl ⟨rfl, rfl⟩
    · exact frames frame old

theorem RingReach.ok (ready : DescriptorsReady D m)
    (syscall : syscallSelectors star = (GDT.cs64, GDT.ds)) (sysret : sysretSelectors star = (GDT.cs64u + 3, GDT.dsu + 3))
    (reach : RingReach D m star lstar r) : RingOk r.cs r.ss ∧ ∀ frame ∈ r.frames, RingOk frame.1 frame.2 := by
  induction reach with
  | start rip => exact ⟨Or.inr rfl, nofun⟩
  | step reach step ih => exact step.ok (reach.ready ready) syscall sysret ih.1 ih.2

end runs

/-- What holds of every run from memory `m` once the descriptors are set up. -/
structure RingsKept (D : DescriptorImage) (m : Memory) (star lstar : Nat) : Prop where
  user : ∀ r, RingReach D m star lstar r → r.cs % 4 = 3 → r.cs = GDT.cs64u + 3 ∧ r.ss = GDT.dsu + 3
  kernel : ∀ r, RingReach D m star lstar r → r.cs % 4 ≠ 3 → r.cs = GDT.cs64
  entries : ∀ r r', RingReach D m star lstar r → RingStep D star lstar r r' → r.cs % 4 = 3 → r'.cs % 4 ≠ 3 →
    r'.rip = lstar ∨ ∃ h, r'.rip = (D.address h).toNat

/-- User code always runs with the two selectors of `make_task`, and it comes into the kernel
only at `syscall_entry_asm` and at the handlers. This is as long as nothing writes to the
descriptor tables or over selectors that were saved: the pushes of a system call can. -/
theorem rings_kept (D : DescriptorImage) (m : Memory) (star : Nat) (image : SyscallImage) (msr : SyscallMsr)
    (clearGdt : ∀ i < GDT.size, m (D.gdt + i) = 0) (clearIdt : ∀ i < 0x1000, m (D.idt + i) = 0) :
    RingsKept D (setupDescriptors D m) (setupStar star) (setupSyscall image msr).lstar.toNat := by
  have ready := setupDescriptors_ready clearGdt clearIdt
  obtain ⟨syscall, sysret⟩ := setupStar_selectors star
  constructor
  · intro r reach level
    refine (reach.ok ready syscall sysret).1.resolve_right fun kernel => ?_
    rw [kernel] at level
    exact absurd level (by decide)
  · intro r reach level
    refine (reach.ok ready syscall sysret).1.resolve_left fun user => level ?_
    rw [user.1]
    decide
  · intro r r' reach step level entered
    cases step with
    | user cs ss rip _ code _ =>
      rcases code with same | low
      · exact absurd (same ▸ level) entered
      · exact absurd low.1 entered
    | kernel rip low => exact absurd level entered
    | store m kept => exact absurd level entered
    | syscall => exact Or.inl rfl
    | interrupt cause d vector found => exact Or.inr ((reach.ready ready).delivered.kernel vector found).2
    | sysretq rip low => omega
    | iretq frame rip low => omega
    | makeTask userMode low => exact absurd level entered

theorem rings_kept_small :
    RingsKept smallDescriptors (setupDescriptors smallDescriptors fun _ => 0) (setupStar 0) 0xFFFFFFFF80201000 :=
  rings_kept smallDescriptors (fun _ => 0) 0
    ⟨0xFFFFFFFF80201000, 0xFFFFFFFF81208000, fun _ => 0xFFFFFFFF80201100, fun _ _ => none, by decide⟩ ⟨0, 0⟩
    (fun _ _ => rfl) fun _ _ => rfl

end MetalToApp

import MetalToApp.Console
import MetalToApp.FrameEnd
import MetalToApp.Isolation
import MetalToApp.Multiboot
import MetalToApp.Scheduler

namespace MetalToApp
open ByteMemory Paging

/-- `struct initrd_info`; `stop` is its field `end`. -/
structure InitrdInfo where
  commandLine : Nat
  start : Nat
  stop : Nat

/-- What the boot does besides building processes: what printing does to memory, a store to an
element of `out_info`, or a store to a slot of a row of `scheduling_vector`. -/
inductive BootEvent
  | console (access : ConsoleAccess)
  | outInfo (i : Nat)
  | schedulingVector (cpuId slot : Nat)

/-- An outcome with what happened up to its end, in order. A store that faults counts as made. -/
abbrev Booting := Traced BootEvent Halt

/-- The bytes behind a pointer of the kernel. -/
def Kernel.message (s : Kernel) (p : Nat) : Message := fun k => (s.load 1 (p + k)).toOption.map UInt8.ofNat

/-- Memory with this text on the screen. -/
def Kernel.under (s : Kernel) (text : Memory) : Kernel :=
  { s with mem := fun x => if vgaBegin ≤ x ∧ x < vgaBegin + 2 * (80 * 25) then text (x - vgaBegin) else s.mem x }

/-- Where the boot prints to: what the kernel finds in memory meanwhile, what a `char*` leads to,
and the two functions of `print.c`. -/
structure Output (σ : Type) where
  memory : σ → Kernel → Kernel
  string : Kernel → Nat → Pointer
  print : σ → Pointer → Booting σ
  println : σ → Pointer → Booting σ

namespace Output
variable {σ : Type}

/-- Nowhere: what the boot does apart from its output. -/
def silent : Output Unit where
  memory _ s := s
  string s p _ := s.message p
  print _ _ := return ()
  println _ _ := return ()

/-- A console beside memory: nothing that the kernel reads lies on the screen. -/
def console : Output Console where
  memory _ s := s
  string s p _ := s.message p
  print c pointer := (c.printFrom pointer).relabel .console
  println c pointer := (c.printlnFrom pointer).relabel .console

/-- The console in video memory, wherever the boot loader has put things. -/
def screen : Output Console where
  memory c s := s.under c.text
  string s p text := (s.under text).message p
  print c pointer := (c.printFrom pointer).relabel .console
  println c pointer := (c.printlnFrom pointer).relabel .console

/-- Calls of `print`, one after the other. -/
def prints (out : Output σ) (c : σ) : List Pointer → Booting σ
  | [] => return c
  | pointer :: rest => do
    let c ← out.print c pointer
    prints out c rest

end Output

/-! The texts of `setup_initrd`. -/

def modCountText : CString := ⟨literal "mod count: ", by decide⟩
def emptyText : CString := ⟨literal "", by decide⟩
def modAddrText : CString := ⟨literal "mod addr:", by decide⟩
def commaText : CString := ⟨literal ", ", by decide⟩
def colonText : CString := ⟨literal " : ", by decide⟩
def openQuoteText : CString := ⟨literal " \"", by decide⟩
def closeQuoteText : CString := ⟨literal "\"", by decide⟩

/-- What the loop in `setup_initrd` reads about one module. -/
def readModule (s : Kernel) (moduleInfo i : Nat) : Outcome InitrdInfo := do
  let modStart ← s.load 4 (moduleInfo + 16 * i)
  let modEnd ← s.load 4 (moduleInfo + 16 * i + 4)
  let string ← s.load 4 (moduleInfo + 16 * i + 8)
  return ⟨linearAddressToPtr string, linearAddressToPtr modStart, linearAddressToPtr modEnd⟩

/-- What it prints about one module behind `mod addr:`, up to the last call. -/
def moduleReport (string : Nat → Pointer) (info : InitrdInfo) : List Pointer :=
  [(hexString (BitVec.ofNat 64 info.start)).pointer, commaText.pointer, (hexString (BitVec.ofNat 64 info.stop)).pointer,
    colonText.pointer, string info.commandLine, colonText.pointer, openQuoteText.pointer, string info.start]

namespace Booting
variable {σ : Type}

def storeInfo (room i : Nat) : Booting Unit := ([.outInfo i], if i < room then .ok () else .error .fault)

def schedule (t : Scheduler) (priority : Int) (task flags : Nat) : Booting Scheduler :=
  ([.schedulingVector 0 (128 + priority).toNat], .ok (MetalToApp.schedule t priority task flags).2)

/-- One iteration of the loop in `setup_initrd`. A store beyond the `room` elements of
`out_info` faults. -/
def readModule (out : Output σ) (c : σ) (s : Kernel) (moduleInfo room i : Nat) : Booting (InitrdInfo × σ) := do
  let c ← out.print c modAddrText.pointer
  let info ← Traced.silent (MetalToApp.readModule (out.memory c s) moduleInfo i)
  let c ← out.prints c (moduleReport (out.string s) info)
  let c ← out.println c closeQuoteText.pointer
  storeInfo room i
  return (info, c)

/-- The first iterations of that loop. -/
def readModules (out : Output σ) (c : σ) (s : Kernel) (moduleInfo room : Nat) : Nat → Booting (List InitrdInfo × σ)
  | 0 => return ([], c)
  | i + 1 => do
    let (infos, c) ← readModules out c s moduleInfo room i
    let (info, c) ← readModule out c s moduleInfo room i
    return (infos ++ [info], c)

def setupInitrd (out : Output σ) (c : σ) (s : Kernel) (multiboot room : Nat) : Booting (List InitrdInfo × σ) := do
  let c ← out.print c modCountText.pointer
  let modsCount ← Traced.silent ((out.memory c s).load 4 (multiboot + 20))
  let c ← out.print c (hexString (BitVec.ofNat 64 modsCount)).pointer
  let c ← out.println c emptyText.pointer
  let modsAddr ← Traced.silent ((out.memory c s).load 4 (multiboot + 24))
  readModules out c s (linearAddressToPtr modsAddr) room modsCount

/-- The first iterations of the loop in `cstart`. -/
def startProcesses (K : KernelImage) (m : List InitrdInfo) (t : Scheduler) (s : Kernel) : Nat → Booting (Scheduler × Kernel)
  | 0 => return (t, s)
  | i + 1 => do
    let (t, s) ← startProcesses K m t s i
    match m[i]? with
    | none => Traced.silent (.error .fault)
    | some info => do
      let (initrdTask, s) ← Traced.silent (makeUserspaceProcess K s info.start info.stop info.commandLine)
      let t ← schedule t i initrdTask 0
      return (t, s)

/-- What `cstart` does to memory before that loop. The descriptor tables and the interrupt and
system call set-up in between are variables of the kernel image. -/
def prepareBoot (out : Output σ) (K : KernelImage) (c : σ) (s : Kernel) (multiboot : Nat) :
    Booting ((List InitrdInfo × Kernel) × σ) := do
  let (_, s) ← Traced.silent (createKernelAddressSpace K s)
  let s ← Traced.silent (setupFrameAllocator K s multiboot)
  let (m, c) ← setupInitrd out c s multiboot 10
  return ((m, s), c)

/-- Up to the call of `idle_loop`. -/
def cstart (out : Output σ) (K : KernelImage) (idleLoopTask : Nat) (c : σ) (t : Scheduler) (s : Kernel) (multiboot : Nat) :
    Booting ((Scheduler × Kernel) × σ) := do
  let ((m, s), c) ← prepareBoot out K c s multiboot
  let booted ← startProcesses K m (initScheduler idleLoopTask t) s m.length
  return (booted, c)

end Booting

/-! The same without output. -/

def readModules (s : Kernel) (moduleInfo room n : Nat) : Outcome (List InitrdInfo) :=
  Prod.fst <$> (Booting.readModules .silent () s moduleInfo room n).result

def setupInitrd (s : Kernel) (multiboot room : Nat) : Outcome (List InitrdInfo) :=
  Prod.fst <$> (Booting.setupInitrd .silent () s multiboot room).result

def startProcesses (K : KernelImage) (m : List InitrdInfo) (t : Scheduler) (s : Kernel) (n : Nat) : Outcome (Scheduler × Kernel) :=
  (Booting.startProcesses K m t s n).result

def prepareBoot (K : KernelImage) (s : Kernel) (multiboot : Nat) : Outcome (List InitrdInfo × Kernel) :=
  Prod.fst <$> (Booting.prepareBoot .silent K () s multiboot).result

def cstart (K : KernelImage) (idleLoopTask : Nat) (t : Scheduler) (s : Kernel) (multiboot : Nat) : Outcome (Scheduler × Kernel) :=
  Prod.fst <$> (Booting.cstart .silent K idleLoopTask () t s multiboot).result

theorem Kernel.message_linear {s : Kernel} {p k : Nat} (room : p + k + 1 ≤ 2 ^ 39) :
    s.message (linearAddressToPtr p) k = some (s.mem (p + k)) := by
  rw [message, s.load_byte room]
  simp [Except.toOption]

section equations
variable {K : KernelImage} {s : Kernel} {t : Scheduler} {m : List InitrdInfo} {moduleInfo multiboot room idleLoopTask i : Nat}

theorem Output.silent_print (c : Unit) (pointer : Pointer) : (silent.print c pointer).result = .ok () := rfl

theorem Output.silent_println (c : Unit) (pointer : Pointer) : (silent.println c pointer).result = .ok () := rfl

theorem Output.silent_prints (c : Unit) (pointers : List Pointer) : (silent.prints c pointers).result = .ok () := by
  induction pointers with
  | nil => rfl
  | cons pointer rest ih => exact ih

theorem Booting.storeInfo_result : (storeInfo room i).result = if i < room then .ok () else .error .fault := rfl

theorem readModules_succ : readModules s moduleInfo room (i + 1) = (do
    let infos ← readModules s moduleInfo room i
    let info ← readModule s moduleInfo i
    if i < room then return infos ++ [info]
    else .error .fault) := by
  simp only [readModules, Booting.readModules, Booting.readModule, Traced.bind_result, Traced.silent_result, Traced.pure_result,
    Output.silent_print, Output.silent_prints, Output.silent_println, Outcome.ok_bind, Booting.storeInfo_result, map_bind,
    bind_map_left, bind_assoc]
  refine bind_congr fun read => bind_congr fun info => ?_
  by_cases inside : i < room
  · rw [if_pos inside, if_pos inside]
    rfl
  · rw [if_neg inside, if_neg inside]
    rfl

theorem setupInitrd_eq : setupInitrd s multiboot room = (do
    let modsCount ← s.load 4 (multiboot + 20)
    let modsAddr ← s.load 4 (multiboot + 24)
    readModules s (linearAddressToPtr modsAddr) room modsCount) := by
  simp only [setupInitrd, Booting.setupInitrd, readModules, Traced.bind_result, Traced.silent_result, map_bind]
  rfl

theorem startProcesses_succ_eq : startProcesses K m t s (i + 1) = (do
    let (t, s) ← startProcesses K m t s i
    match m[i]? with
    | none => .error .fault
    | some info => do
      let (initrdTask, s) ← makeUserspaceProcess K s info.start info.stop info.commandLine
      return ((schedule t i initrdTask 0).2, s)) := by
  simp only [startProcesses, Booting.startProcesses, Traced.bind_result]
  refine bind_congr fun made => ?_
  cases m[i]? with
  | none => rfl
  | some info =>
    simp only [Traced.bind_result, Traced.silent_result]
    rfl

theorem prepareBoot_eq_bind : prepareBoot K s multiboot = (do
    let (_, s) ← createKernelAddressSpace K s
    let s ← setupFrameAllocator K s multiboot
    let m ← setupInitrd s multiboot 10
    return (m, s)) := by
  simp only [prepareBoot, Booting.prepareBoot, setupInitrd, Traced.bind_result, Traced.silent_result, map_bind, bind_map_left]
  rfl

theorem cstart_eq_bind : cstart K idleLoopTask t s multiboot = (do
    let (m, s) ← prepareBoot K s multiboot
    startProcesses K m (initScheduler idleLoopTask t) s m.length) := by
  simp only [cstart, Booting.cstart, prepareBoot, startProcesses, Traced.bind_result, map_bind, bind_map_left]
  refine bind_congr fun prepared => ?_
  cases (Booting.startProcesses K prepared.1.1 (initScheduler idleLoopTask t) prepared.1.2 prepared.1.1.length).result with
  | error e => rfl
  | ok booted => rfl

end equations

/-! The modules, as the boot loader has left them in memory. -/

/-- An element of the module list. -/
structure BootModule where
  modStart : Nat
  modEnd : Nat
  string : Nat
deriving DecidableEq

def modsCount (m : Memory) (a : Nat) : Nat := readLE m 4 (a + 20)
def modsAddr (m : Memory) (a : Nat) : Nat := readLE m 4 (a + 24)

def bootModule (m : Memory) (a i : Nat) : BootModule where
  modStart := readLE m 4 (modsAddr m a + 16 * i)
  modEnd := readLE m 4 (modsAddr m a + 16 * i + 4)
  string := readLE m 4 (modsAddr m a + 16 * i + 8)

def BootModule.size (q : BootModule) : Nat := q.modEnd - q.modStart

def BootModule.info (q : BootModule) : InitrdInfo :=
  ⟨linearAddressToPtr q.string, linearAddressToPtr q.modStart, linearAddressToPtr q.modEnd⟩

/-- The bytes that the boot loader has left for the kernel, when the command lines have these lengths. -/
inductive BootByte (m : Memory) (a : Nat) (length : Nat → Nat) : Nat → Prop
  | info {k} : k < 52 → BootByte m a length (a + k)
  | map {k} : k < readLE m 4 (a + 44) → BootByte m a length (readLE m 4 (a + 48) + k)
  | list {k} : k < 16 * modsCount m a → BootByte m a length (modsAddr m a + k)
  | module {i k} : i < modsCount m a → k < (bootModule m a i).size → BootByte m a length ((bootModule m a i).modStart + k)
  | commandLine {i k} : i < modsCount m a → k ≤ length i → BootByte m a length ((bootModule m a i).string + k)

/-- A boot information block whose modules are programs. What it leads to lies anywhere but in
the kernel's own page tables, and `region` is the memory that the allocator gets. -/
structure BootInfo (K : KernelImage) (m : Memory) (a : Nat) (entries : List MmapInfo) (region : MmapInfo)
    (length : Nat → Nat) : Prop where
  map : BootMap m a entries
  region : largestRam entries = some region
  outside : ∀ x, BootByte m a length x →
    ∀ t ∈ [K.kernelPml4, K.kernelPagedir, K.kernelPagedirtable, K.kernelLinear], x < t ∨ t + 4096 ≤ x
  bootable : ∀ i < modsCount m a,
    Bootable m (bootModule m a i).modStart (bootModule m a i).size (bootModule m a i).string (length i)

/-- A boot information block that the kernel can read, whatever the modules are: the block, its
memory map and its module list lie anywhere but in the kernel's own page tables. -/
structure BootList (K : KernelImage) (m : Memory) (a : Nat) (entries : List MmapInfo) (region : MmapInfo) : Prop where
  map : BootMap m a entries
  region : largestRam entries = some region
  outside : ∀ x, (∃ k < 52, x = a + k) ∨ (∃ k < readLE m 4 (a + 44), x = readLE m 4 (a + 48) + k) ∨
      (∃ k < 16 * modsCount m a, x = modsAddr m a + k) →
    ∀ t ∈ [K.kernelPml4, K.kernelPagedir, K.kernelPagedirtable, K.kernelLinear], x < t ∨ t + 4096 ≤ x

theorem BootInfo.list {K : KernelImage} {m : Memory} {a : Nat} {entries : List MmapInfo} {region : MmapInfo} {length : Nat → Nat}
    (boot : BootInfo K m a entries region length) : BootList K m a entries region := by
  refine ⟨boot.map, boot.region, fun x place => boot.outside x ?_⟩
  rcases place with ⟨k, inside, rfl⟩ | ⟨k, inside, rfl⟩ | ⟨k, inside, rfl⟩
  · exact .info inside
  · exact .map inside
  · exact .list inside

/-- No frame that the allocator hands out between two states overlaps the `n` bytes at `a`.
Nothing is returned to it in between, so these are the frames that its untouched memory has lost. -/
def Spares (s s' : Kernel) (a n : Nat) : Prop :=
  ∀ f < 2 ^ 39, f % 4096 = 0 → s.freememStart ≤ linearAddressToPtr f → linearAddressToPtr f < s'.freememStart →
    ∀ k < n, a + k < f ∨ f + 4096 ≤ a + k

/-- From one state to the next, process `i` has been built from the original bytes of its
module, and no frame was taken from what was still to be read: its own module until that is
loaded, its command line until that is copied, and everything of the later ones. -/
structure BuiltInTime (K : KernelImage) (m : Memory) (a : Nat) (length : Nat → Nat) (i : Nat) (s s' : Kernel) : Prop where
  program : ∃ root entry s₁,
    loadProgram K s (bootModule m a i).info.start (bootModule m a i).info.stop = .ok (root, entry, s₁) ∧
      Spares s s₁ (bootModule m a i).modStart (bootModule m a i).size
  made : ∃ task cr3, makeUserspaceProcess K s (bootModule m a i).info.start (bootModule m a i).info.stop
      (bootModule m a i).info.commandLine = .ok (task, s') ∧ TaskSpace s' task cr3 ∧
    BuiltFrom m s'.mem (bootModule m a i).modStart (bootModule m a i).string (length i) cr3
  later : ∀ j, i < j → j < modsCount m a → Spares s s' (bootModule m a j).modStart (bootModule m a j).size
  commandLines : ∀ j, i ≤ j → j < modsCount m a → Spares s s' (bootModule m a j).string (length j + 1)

/-- `cstart` reads the whole module list before a frame is handed out, comes through its loop,
and builds every process in time. -/
structure Survives (K : KernelImage) (idleLoopTask : Nat) (t : Scheduler) (s : Kernel) (a : Nat) (length : Nat → Nat) : Prop where
  ends : ∃ t' s', cstart K idleLoopTask t s (kernelBase + a) = .ok (t', s')
  list : ∀ infos s', prepareBoot K s (kernelBase + a) = .ok (infos, s') →
    infos = (List.range (modsCount s.mem a)).map fun i => (bootModule s.mem a i).info
  processes : ∀ infos s₀ i t₁ s₁ t₂ s₂, prepareBoot K s (kernelBase + a) = .ok (infos, s₀) → i < modsCount s.mem a →
    startProcesses K infos (initScheduler idleLoopTask t) s₀ i = .ok (t₁, s₁) →
    startProcesses K infos (initScheduler idleLoopTask t) s₀ (i + 1) = .ok (t₂, s₂) → BuiltInTime K s.mem a length i s₁ s₂

/-! When they survive: the frames are taken one after the other from the start of the region. -/

def firstFrame (K : KernelImage) (region : MmapInfo) : Nat := (max K.freememoryStart region.baseAddr + 0xfff) / 4096 * 4096

def lastFrame (region : MmapInfo) : Nat := (region.baseAddr + region.length) / 4096 * 4096

/-- How many frames the first processes take. -/
def framesBefore (m : Memory) (a : Nat) : Nat → Nat
  | 0 => 0
  | i + 1 => framesBefore m a i + processFrames m (bootModule m a i).modStart

/-- None of the `n` bytes at `a` lies between `b` and `e`. -/
def Clear (b e a n : Nat) : Prop := ∀ k < n, a + k < b ∨ e ≤ a + k

/-- There is room for ten modules and frames for all processes, and no module and no command
line lies in the frames that are taken up to the moment when it has been read. -/
structure ModulesClear (K : KernelImage) (m : Memory) (a : Nat) (region : MmapInfo) (length : Nat → Nat) : Prop where
  few : modsCount m a ≤ 10
  window : firstFrame K region + 4096 * framesBefore m a (modsCount m a) ≤ 2 ^ 39
  enough : lastFrame region < firstFrame K region ∨
    firstFrame K region + 4096 * framesBefore m a (modsCount m a) ≤ lastFrame region
  modules : ∀ i < modsCount m a, Clear (firstFrame K region)
    (firstFrame K region + 4096 * (framesBefore m a i + programFrames m (bootModule m a i).modStart))
    (bootModule m a i).modStart (bootModule m a i).size
  commandLines : ∀ i < modsCount m a, Clear (firstFrame K region)
    (firstFrame K region + 4096 * framesBefore m a (i + 1)) (bootModule m a i).string (length i + 1)

end MetalToApp

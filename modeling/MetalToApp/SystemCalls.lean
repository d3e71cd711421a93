import MetalToApp.LaunchRuns
import MetalToApp.Rings
import MetalToApp.SyscallAbi

namespace MetalToApp
open ByteMemory X86 Paging TimeSharing

/-- The processor on the path of a system call, with physical memory. -/
def Machine.cpu (M : Machine) : Cpu := ⟨M.reg, M.rip, M.rflags, M.frames⟩

/-- The translations of the current space, by the tables as they stand. -/
def Machine.view (M : Machine) (writeProtect : Bool) : Tables := fun m => View.ofTables m M.cr3.toNat writeProtect

/-- The machine in user mode again, with the registers and the physical memory that the path has left. -/
def Machine.resumed (M : Machine) (star : Nat) (s : Cpu) : Machine :=
  { M with
    reg := s.reg
    rip := s.rip
    cs := BitVec.ofNat 16 (sysretSelectors star).1
    rflags := s.rflags
    ss := BitVec.ofNat 16 (sysretSelectors star).2
    sched := { M.sched with
      mem := fun x => if linearStart ≤ x ∧ x < linearEnd then s.mem (x - linearStart) else M.sched.mem x } }

/-- A system call, from the `syscall` instruction to the return from it. `code` is what the C
function at an address does. -/
def systemCall (image : SyscallImage) (msr : SyscallMsr) (star : Nat) (code : Word → Cpu → Cpu) (writeProtect : Bool)
    (M : Machine) : Option Machine := do
  let called ← syscallEntry (M.view writeProtect) image (syscallInstruction msr M.cpu)
  let final ← syscallExitPath (M.view writeProtect) image (code called.rip called)
  return M.resumed star final

/-- A C function that conforms to the calling convention. It writes to its caller's pages and to
the memory below the first free frame, where the screen and the kernel's variables are, but not
to the kernel's page tables. -/
structure KeepsApart (K : KernelImage) (M : Machine) (writeProtect : Bool) (image : SyscallImage) (f : Cpu → Cpu) (called : Cpu) :
    Prop where
  conforms : Conforms (M.view writeProtect) image called (f called)
  writes : ∀ x, (f called).mem x ≠ called.mem x → UserByte M.frames M.cr3.toNat (linearStart + x) ∨
    x < K.freememoryStart ∧
      ∀ t ∈ [K.kernelPml4, K.kernelPagedir, K.kernelPagedirtable, K.kernelLinear], x < t ∨ t + 4096 ≤ x

/-- The code of `syscall_entry_asm` lies in the kernel image as it was linked. -/
structure CodeInImage (K : KernelImage) (image : SyscallImage) (writeProtect : Bool) (M : Machine) : Prop where
  lower : kernelBase ≤ image.syscallEntryAsm.toNat
  upper : image.syscallEntryAsm.toNat + 22 ≤ kernelBase + K.freememoryStart
  loaded : EntryLoaded (M.view writeProtect M.frames) image M.frames

section isolation
variable {K : KernelImage} {T : TaskArea} {space : Nat → Nat} {m₀ : Memory} {M : Machine} {image : SyscallImage} {msr : SyscallMsr}
  {code : Word → Cpu → Cpu} {writeProtect : Bool} {w : Word} {t x : Nat}

/-- Nobody owns the memory below the first free frame, the kernel's page tables apart. -/
theorem Settled.unowned (settled : Settled K T space m₀) (member : t ∈ T.tasks) (low : x < K.freememoryStart)
    (away : ∀ t ∈ [K.kernelPml4, K.kernelPagedir, K.kernelPagedirtable, K.kernelLinear], x < t ∨ t + 4096 ≤ x) :
    ¬Owned m₀ (space t) t (linearStart + x) := by
  have mapped : x < 2 ^ 39 := by
    have bound := K.mapped
    simp only [kernelMapped, addrshift2M] at bound
    omega
  rintro (⟨lower, upper⟩ | @⟨level, f, o, table, inside, place⟩ | @⟨f, o, page, inside, place⟩)
  · by_cases idle : t = T.idleLoopTask
    · have below := linear_below_kernel mapped
      have above := settled.divided.idle.1
      omega
    · have above := settled.structs t member idle
      omega
  · rcases settled.tables t member level f table with image | above
    · have apart := away f image
      omega
    · omega
  · have above := settled.pages t member f page
    omega

theorem Sharing.walk_current (sharing : Sharing T space m₀ M) (current : M.sched.currentTaskTable 0 ∈ T.tasks) (v : Nat) :
    walk M.frames M.cr3.toNat v = walk m₀ (space (M.sched.currentTaskTable 0)) v := by
  rw [sharing.cr3, sharing.space _ current, sharing.walk_eq current]

/-- The word that a system call indexes lies in the kernel image. -/
def InImage (K : KernelImage) (image : SyscallImage) (M : Machine) : Prop :=
  kernelBase ≤ (syscallSlot image (M.reg .rax)).toNat ∧
    (syscallSlot image (M.reg .rax)).toNat + 8 ≤ kernelBase + K.freememoryStart

/-- The pushes of a system call go to pages of the process. -/
def OwnStack (writeProtect : Bool) (M : Machine) : Prop :=
  ∀ i < 24, ∃ q, walk M.frames M.cr3.toNat (M.reg .rsp - 24 + BitVec.ofNat 64 i).toNat = some q ∧
    q.user = true ∧ (writeProtect = true → q.writable = true)

/-- The processor reads the kernel image through the kernel window. -/
theorem Settled.window (settled : Settled K T space m₀) (sharing : Sharing T space m₀ M)
    (current : M.sched.currentTaskTable 0 ∈ T.tasks) (writeProtect : Bool) {v : Word} {i : Nat} (lower : kernelBase ≤ v.toNat)
    (upper : v.toNat + i < kernelBase + K.freememoryStart) :
    (M.view writeProtect M.frames).physical (v + BitVec.ofNat 64 i) = some (v.toNat + i - kernelBase) := by
  have mapped := K.mapped
  have fits := v.isLt
  have top : kernelBase + kernelMapped < 2 ^ 64 := by decide
  have place : (v + BitVec.ofNat 64 i).toNat = v.toNat + i := by
    rw [BitVec.toNat_add, BitVec.toNat_ofNat]
    omega
  have half : KernelHalf (v.toNat + i) := by
    have low : 2 ^ 64 - 2 ^ 47 ≤ kernelBase := by decide
    exact ⟨by omega, by omega⟩
  obtain ⟨write, walked⟩ : ∃ write, walk M.frames M.cr3.toNat (v.toNat + i) = some ⟨v.toNat + i - kernelBase, false, write⟩ := by
    rw [sharing.walk_current current, settled.windows _ current _ half]
    exact fixedWalk_kernel ⟨by omega, by omega⟩
  simp only [Machine.view, View.ofTables, place, walked, Option.map_some]

/-- The bytes below the stack pointer can be stored to, in pages that some task sees. -/
def PushesToPages (T : TaskArea) (space : Nat → Nat) (m₀ : Memory) (writeProtect : Bool) (M : Machine) : Prop :=
  ∀ i < 24, (M.view writeProtect M.frames).writable (M.reg .rsp - 24 + BitVec.ofNat 64 i) = true ∧
    ∃ p, (M.view writeProtect M.frames).physical (M.reg .rsp - 24 + BitVec.ofNat 64 i) = some p ∧
      ∃ u ∈ T.tasks, UserPage m₀ (space u) (p / 4096 * 4096)

theorem PushesToPages.owner (pushes : PushesToPages T space m₀ writeProtect M)
    (pushed : PushedAt (M.view writeProtect M.frames) (M.reg .rsp) x) : ∃ u ∈ T.tasks, UserPage m₀ (space u) (x / 4096 * 4096) := by
  obtain ⟨i, inside, place⟩ := pushed
  obtain ⟨-, p, here, owner⟩ := pushes i inside
  obtain rfl := Option.some.inj (here.symm.trans place)
  exact owner

/-- Pushes to pages of tasks change no page table of the task at hand. -/
theorem PushesToPages.views (pushes : PushesToPages T space m₀ writeProtect M) (settled : Settled K T space m₀)
    (sharing : Sharing T space m₀ M) (current : M.sched.currentTaskTable 0 ∈ T.tasks) {m : Memory}
    (same : ∀ x, ¬PushedAt (M.view writeProtect M.frames) (M.reg .rsp) x → m x = M.frames x) :
    M.view writeProtect m = M.view writeProtect M.frames := by
  refine View.ofTables_congr fun v => walk_congr (fun level f table => ?_) v
  have own : TableAt m₀ (space (M.sched.currentTaskTable 0)) level f := by
    rw [sharing.cr3, sharing.space _ current] at table
    exact (tableAt_congr (sharing.tables _ current)).mp table
  intro o inside
  refine same _ fun pushed => ?_
  obtain ⟨u, member, owner⟩ := pushes.owner pushed
  have aligned := own.aligned
  exact settled.divided.noTable _ current u member level f own (by rwa [show (f + o) / 4096 * 4096 = f by omega] at owner)

/-- Pushes to pages of tasks are away from the kernel image. -/
theorem PushesToPages.image_apart (pushes : PushesToPages T space m₀ writeProtect M) (settled : Settled K T space m₀)
    (sharing : Sharing T space m₀ M) (current : M.sched.currentTaskTable 0 ∈ T.tasks) {v : Word} {i p : Nat}
    (lower : kernelBase ≤ v.toNat) (upper : v.toNat + i < kernelBase + K.freememoryStart)
    (place : (M.view writeProtect M.frames).physical (v + BitVec.ofNat 64 i) = some p) :
    ¬PushedAt (M.view writeProtect M.frames) (M.reg .rsp) p := by
  intro pushed
  have same := Option.some.inj ((settled.window sharing current writeProtect lower upper).symm.trans place)
  obtain ⟨u, member, owner⟩ := pushes.owner pushed
  have high := settled.pages u member _ owner
  omega

/-- Pushes to pages of tasks are safe, and leave the way out of the kernel as it was. -/
theorem Settled.entrySafe (settled : Settled K T space m₀) (sharing : Sharing T space m₀ M)
    (current : M.sched.currentTaskTable 0 ∈ T.tasks) (indexed : InImage K image M) (code : CodeInImage K image writeProtect M)
    (pushes : PushesToPages T space m₀ writeProtect M) : ∃ m₁ m₂ m₃, EntrySafe (M.view writeProtect) image M.cpu m₁ m₂ m₃ ∧
      (∀ m ∈ [m₁, m₂, m₃], M.view writeProtect m = M.view writeProtect M.frames) ∧
      (∀ x, ¬PushedAt (M.view writeProtect M.frames) (M.reg .rsp) x → m₃ x = M.frames x) ∧
      (M.view writeProtect m₃).holds m₃ (image.syscallEntryAsm + 16) (image.bytes exitInstrs) = true := by
  have stack : (M.view writeProtect M.frames).Storable 24 (M.reg .rsp - 24) := fun i inside =>
    ⟨(pushes i inside).1, _, (pushes i inside).2.choose_spec.1⟩
  have word := indexed.2
  have upper := code.upper
  obtain ⟨m₁, m₂, m₃, safe, views, outside⟩ : ∃ m₁ m₂ m₃, EntrySafe (M.view writeProtect) image M.cpu m₁ m₂ m₃ ∧
      (∀ m ∈ [m₁, m₂, m₃], M.view writeProtect m = M.view writeProtect M.frames) ∧
      ∀ x, ¬PushedAt (M.view writeProtect M.frames) (M.reg .rsp) x → m₃ x = M.frames x :=
    EntrySafe.of_apart code.loaded stack (fun _ same => pushes.views settled sharing current same)
      (fun k inside p place => pushes.image_apart settled sharing current code.lower (by omega) place)
      (fun k inside p place => pushes.image_apart settled sharing current indexed.1 (by omega) place)
  refine ⟨m₁, m₂, m₃, safe, views, outside, ?_⟩
  rw [views m₃ (by simp)]
  refine (View.holds_congr fun i inside p place => outside p ?_).trans (entryLoaded_iff.mp code.loaded).2.2.2
  have short : i < 6 := inside
  rw [BitVec.add_assoc, show (16 : Word) = BitVec.ofNat 64 16 from rfl, ← BitVec.ofNat_add] at place
  exact pushes.image_apart settled sharing current code.lower (by omega) place

theorem OwnStack.pushes (stack : OwnStack writeProtect M) (sharing : Sharing T space m₀ M)
    (current : M.sched.currentTaskTable 0 ∈ T.tasks) : PushesToPages T space m₀ writeProtect M := by
  intro i inside
  obtain ⟨q, found, user, writable⟩ := stack i inside
  refine ⟨?_, q.address, by simp only [Machine.view, View.ofTables, found, Option.map_some], _, current, ?_⟩
  · cases writeProtect with
    | false => rfl
    | true => simp only [Machine.view, View.ofTables, found, Option.map_some, writable, Option.getD_some, Bool.or_true]
  · have page := UserPage.of_walk found user
    rwa [sharing.cr3, sharing.space _ current, userPage_congr (sharing.tables _ current)] at page

/-- A system call of a process on its own stack returns, and is a step of that process: nothing
of any other changes, whatever the kernel's function does to the screen and the kernel's variables. -/
theorem systemCall_step (settled : Settled K T space m₀) (sharing : Sharing T space m₀ M)
    (current : M.sched.currentTaskTable 0 ∈ T.tasks) (indexed : InImage K image M) (loaded : CodeInImage K image writeProtect M)
    (stack : OwnStack writeProtect M) (untrapped : M.cpu.trapFlag = false)
    (word : (M.view writeProtect M.frames).load M.frames 8 (syscallSlot image (M.reg .rax)) = some w.toNat)
    (apart : ∀ called, syscallEntry (M.view writeProtect) image (syscallInstruction (setupSyscall image msr) M.cpu) = some called →
      KeepsApart K M writeProtect image (code w) called) (next : Canonical (M.rip + 2).toNat) (star : Nat) :
    ∃ M', systemCall image (setupSyscall image msr) (setupStar star) code writeProtect M = some M' ∧ M'.rip = M.rip + 2 ∧
      M'.reg .rsp = M.reg .rsp ∧ (M'.cs.toNat, M'.ss.toNat) = taskSelectors true ∧ SystemStep T M .quiet M' := by
  obtain ⟨m₁, m₂, m₃, safe, views, outside, exit⟩ :=
    settled.entrySafe sharing current indexed loaded (stack.pushes sharing current)
  obtain ⟨called, entered, rfl, rfl⟩ := safe.entered loaded.loaded untrapped word msr
  have apart := apart called (syscallEntry_eq_some.mpr ⟨m₁, m₂, entered⟩)
  obtain ⟨back, flags, rip⟩ := safe.readBack views
  obtain ⟨final, ran, place, -, rsp, mem, -⟩ := entered.returns apart.conforms exit back flags rip next
  have selectors := (setupStar_selectors star).2
  refine ⟨M.resumed (setupStar star) final, ?_, place, rsp, ?_, .work _ _ rfl rfl fun x changed => ?_⟩
  · rw [systemCall, syscallEntry_eq_some.mpr ⟨m₁, m₂, entered⟩]
    simp only [Option.bind_eq_bind, Option.bind_some, ran, Option.pure_def]
  · simp only [Machine.resumed, selectors]
    rfl
  -- A changed byte lies in the linear window.
  split at changed
  · rename_i inside
    obtain ⟨p, rfl⟩ := Nat.exists_eq_add_of_le inside.1
    rw [Nat.add_sub_cancel_left, mem] at changed
    by_cases pushed : called.mem p = M.frames p
    · have wrote : (code called.rip called).mem p ≠ called.mem p := fun same => changed (same.trans pushed)
      rcases apart.writes p wrote with mine | ⟨low, away⟩
      · exact Or.inl mine
      · exact Or.inr fun t member owned => settled.unowned member low away ((sharing.owned_iff member).mp owned)
    · obtain ⟨i, inside, place⟩ : PushedAt (M.view writeProtect M.frames) (M.reg .rsp) p := by
        by_contra away
        exact pushed (outside p away)
      obtain ⟨q, found, user, -⟩ := stack i inside
      simp only [Machine.view, View.ofTables, found, Option.map_some, Option.some.injEq] at place
      exact Or.inl ⟨_, q, found, user, congrArg _ place.symm⟩
  · exact absurd rfl changed

/-- The processor finds physical memory in the linear window, and may write there. -/
theorem Settled.linear (settled : Settled K T space m₀) (sharing : Sharing T space m₀ M)
    (current : M.sched.currentTaskTable 0 ∈ T.tasks) {v : Word} (place : v.toNat = linearStart + x) (small : x < 2 ^ 39) :
    (M.view writeProtect M.frames).physical v = some x ∧ (M.view writeProtect M.frames).writable v = true := by
  have inside : InLinear v.toNat := by
    simp only [InLinear, linearEnd, addrshift512G]
    omega
  have half : KernelHalf v.toNat := by
    have low : 2 ^ 64 - 2 ^ 47 ≤ linearStart := by decide
    exact ⟨low.trans inside.1, v.isLt⟩
  have walked := (sharing.walk_current current v.toNat).trans ((settled.windows _ current _ half).trans (fixedWalk_linear inside))
  rw [place, Nat.add_sub_cancel_left] at walked
  simp only [Machine.view, View.ofTables, place, walked, Option.map_some, Option.getD_some, Bool.or_true, and_self]

/-- With the stack pointer in the linear window the pushes go to the bytes around `p`. -/
theorem Settled.pushed_linear (settled : Settled K T space m₀) (sharing : Sharing T space m₀ M)
    (current : M.sched.currentTaskTable 0 ∈ T.tasks) {p : Nat} (low : 16 ≤ p) (high : p + 8 ≤ 2 ^ 39)
    (rsp : (M.reg .rsp).toNat = linearStart + p + 8) {i : Nat} (inside : i < 24) :
    (M.view writeProtect M.frames).physical (M.reg .rsp - 24 + BitVec.ofNat 64 i) = some (p - 16 + i) ∧
      (M.view writeProtect M.frames).writable (M.reg .rsp - 24 + BitVec.ofNat 64 i) = true := by
  refine settled.linear sharing current ?_ (by omega)
  have top : linearStart + 2 ^ 39 < 2 ^ 64 := by decide
  rw [BitVec.toNat_add, BitVec.toNat_sub, rsp, BitVec.toNat_ofNat, show (24 : Word).toNat = 24 from rfl]
  omega

/-- Bytes of one user page are written without touching a table. -/
theorem Settled.tables_kept (settled : Settled K T space m₀) (sharing : Sharing T space m₀ M) {u f : Nat} {m : Memory}
    (member : u ∈ T.tasks) (page : UserPage m₀ (space u) f) (kept : ∀ x, x < f ∨ f + 4096 ≤ x → m x = M.frames x) (v : Nat) :
    walk m (space u) v = walk M.frames (space u) v := by
  refine walk_congr (fun level t table => ?_) v
  have table := (tableAt_congr (sharing.tables u member)).mp table
  have other : t ≠ f := fun same => settled.divided.noTable u member u member level t table (same ▸ page)
  have aligned := table.aligned
  have aligned' := page.aligned
  exact fun o inside => kept _ (by omega)

/-- With the stack pointer in the linear window, behind a byte that another process can see, the
entry of a system call writes there. -/
theorem systemCall_pushes (settled : Settled K T space m₀) (sharing : Sharing T space m₀ M)
    (current : M.sched.currentTaskTable 0 ∈ T.tasks) (indexed : InImage K image M) (loaded : CodeInImage K image writeProtect M)
    (untrapped : M.cpu.trapFlag = false) {u v : Nat} {q : Translation}
    (member : u ∈ T.tasks) (found : walk M.frames (space u) v = some q) (user : q.user = true)
    (within : 16 ≤ q.address % 4096 ∧ q.address % 4096 + 8 ≤ 4096) (rsp : (M.reg .rsp).toNat = linearStart + q.address + 8)
    (msr : SyscallMsr) : ∃ called,
      syscallEntry (M.view writeProtect) image (syscallInstruction (setupSyscall image msr) M.cpu) = some called ∧
      userView called.mem (space u) v = some (UInt8.ofNat (M.rip + 2).toNat) := by
  have page : UserPage m₀ (space u) (q.address / 4096 * 4096) := by
    rw [← userPage_congr (sharing.tables u member)]
    exact UserPage.of_walk found user
  obtain ⟨room, -⟩ := settled.divided.pages u member _ page
  have stack {i : Nat} (inside : i < 24) :
      (M.view writeProtect M.frames).physical (M.reg .rsp - 24 + BitVec.ofNat 64 i) = some (q.address - 16 + i) ∧
        (M.view writeProtect M.frames).writable (M.reg .rsp - 24 + BitVec.ofNat 64 i) = true :=
    settled.pushed_linear sharing current (by omega) (by omega) rsp inside
  obtain ⟨m₁, m₂, m₃, safe, views, outside, -⟩ := settled.entrySafe sharing current indexed loaded fun i inside =>
    ⟨(stack inside).2, _, (stack inside).1, u, member, by rwa [show (q.address - 16 + i) / 4096 = q.address / 4096 by omega]⟩
  obtain ⟨word, here⟩ := View.load_isSome (V := M.view writeProtect M.frames) (m := M.frames)
    (v := syscallSlot image (M.reg .rax)) (n := 8) fun i inside =>
      ⟨_, settled.window sharing current writeProtect indexed.1 (by have := indexed.2; omega)⟩
  obtain ⟨called, entered, -, rfl⟩ := safe.entered (w := BitVec.ofNat 64 word) loaded.loaded untrapped
    (here.trans (congrArg some (toNat_ofNat_of_load here).symm)) msr
  refine ⟨called, syscallEntry_eq_some.mpr ⟨m₁, m₂, entered⟩, ?_⟩
  -- The address after the instruction lies at the byte, and the tables still lead there.
  obtain ⟨-, -, next⟩ := safe.readBack views
  rw [views _ (by simp)] at next
  have top : M.reg .rsp - 8 = M.reg .rsp - 24 + BitVec.ofNat 64 16 := by bv_omega
  have place : (M.view writeProtect M.frames).physical (M.reg .rsp - 8) = some q.address := by
    rw [top, (stack (by omega)).1]
    exact congrArg some (by omega)
  have byte : called.mem q.address = UInt8.ofNat (M.rip + 2).toNat := View.load_low next place
  have kept (x : Nat) (away : x < q.address / 4096 * 4096 ∨ q.address / 4096 * 4096 + 4096 ≤ x) : called.mem x = M.frames x :=
    outside x fun ⟨i, inside, at_x⟩ => by
      have same := Option.some.inj ((stack inside).1.symm.trans at_x)
      omega
  rw [userView, settled.tables_kept sharing member page kept, found, Option.bind_some, if_pos user, byte]

end isolation

/-- The machine after its first switch. -/
def firstTurn (frames : StructFrames) (M₀ : Machine) : Machine :=
  asmReschedule (smallLayout.area frames) ⟨0, fun _ => 3, fun _ => 9⟩ M₀

/-- What that switch comes to when the two modules have been launched. -/
structure FirstTurn (frames : StructFrames) (M₀ : Machine) : Prop where
  system : ∃ log, SystemReach (smallLayout.area frames) M₀ [.turn] log (firstTurn frames M₀)
  indexed : InImage smallImage smallSyscalls (firstTurn frames M₀)
  loaded : ∀ writeProtect, CodeInImage smallImage smallSyscalls writeProtect (firstTurn frames M₀)
  stack : OwnStack false (firstTurn frames M₀)
  untrapped : (firstTurn frames M₀).cpu.trapFlag = false
  next : Canonical ((firstTurn frames M₀).rip + 2).toNat
  other : ∃ u ∈ (smallLayout.area frames).tasks, u ≠ (firstTurn frames M₀).sched.currentTaskTable 0 ∧
    ∃ q, walk (firstTurn frames M₀).frames (addressSpaceOf (firstTurn frames M₀).sched.mem u).toNat (stackPage + 0x800) =
      some q ∧ q.user = true

/-- A process that sees what it started with has its stack. -/
theorem stack_mapped {m file : Memory} {cr3 a b length v : Nat} (view : userView m cr3 v = startView file a b length v)
    (onStack : v / 4096 = stackPage / 4096) : ∃ q, walk m cr3 v = some q ∧ q.user = true := by
  simp only [startView, if_pos onStack, userView, Option.bind_eq_some_iff, Option.ite_none_right_eq_some] at view
  obtain ⟨q, found, user, -⟩ := view
  exact ⟨q, found, user⟩

/-- A process that is dispatched for the first time has room for a system call on its stack. -/
theorem ownStack_of_start {M : Machine} {file : Memory} {entry a b n : Nat} (room : paddedSize n + 24 ≤ 4096)
    (context : M.context = Context.process entry (initrdStackAddr - paddedSize n))
    (view : userView M.frames M.cr3.toNat = startView file a b n) : OwnStack false M := by
  have rsp : M.reg .rsp = BitVec.ofNat 64 (initrdStackAddr - paddedSize n) := congrFun (congrArg Context.reg context) .rsp
  intro i inside
  have place : (M.reg .rsp - 24 + BitVec.ofNat 64 i).toNat = initrdStackAddr - paddedSize n - 24 + i := by
    rw [rsp, BitVec.toNat_add, BitVec.toNat_sub, BitVec.toNat_ofNat, BitVec.toNat_ofNat, initrdStackAddr,
      show (24 : Word).toNat = 24 from rfl]
    omega
  have onStack : (initrdStackAddr - paddedSize n - 24 + i) / 4096 = stackPage / 4096 := by
    simp only [stackPage, initrdStackAddr, defaultFrameSize]
    omega
  obtain ⟨q, found, user⟩ := stack_mapped (congrFun view _) onStack
  exact ⟨q, place ▸ found, user, fun on => by cases on⟩

theorem rip_of_start {M : Machine} {entry sp : Nat} (context : M.context = Context.process entry sp) :
    M.rip = BitVec.ofNat 64 entry := congrArg Context.rip context

theorem inImage_of_start {M : Machine} {entry sp : Nat} (context : M.context = Context.process entry sp) :
    InImage smallImage smallSyscalls M := by
  have rax : M.reg .rax = 0 := congrFun (congrArg Context.reg context) .rax
  rw [InImage, syscallSlot, rax]
  decide

theorem untrapped_of_start {M : Machine} {entry sp : Nat} (context : M.context = Context.process entry sp) :
    M.cpu.trapFlag = false := by
  have flags : M.rflags = (Context.process entry sp).rflags := congrArg Context.rflags context
  have clear : (BitVec.ofNat 64 defaultRflags).getLsbD 8 = false := by decide
  rw [Cpu.trapFlag, Machine.cpu, flags]
  exact clear

set_option maxRecDepth 2000 in
/-- A kernel image with this code in it. -/
theorem codeInImage_of_bytes {T : TaskArea} {space : Nat → Nat} {m₀ : Memory} {M : Machine} (settled : Settled smallImage T space m₀)
    (sharing : Sharing T space m₀ M) (current : M.sched.currentTaskTable 0 ∈ T.tasks)
    (bytes : ∀ i < 22, M.frames (0x201000 + i) = pairInfo (0x201000 + i)) (writeProtect : Bool) :
    CodeInImage smallImage smallSyscalls writeProtect M := by
  have code : ∀ i < 22, (smallSyscalls.bytes syscallInstrs)[i]? = some (pairInfo (0x201000 + i)) := by decide
  refine ⟨by decide, by decide, View.holds_iff.mpr fun i b found => ?_⟩
  have inside : i < 22 := (List.getElem?_eq_some_iff.mp found).1
  have entry : smallSyscalls.syscallEntryAsm.toNat = kernelBase + 0x201000 := by decide
  have upper : smallSyscalls.syscallEntryAsm.toNat + 22 ≤ kernelBase + smallImage.freememoryStart := by decide
  rw [settled.window sharing current writeProtect (by omega) (by omega), Option.map_some, entry,
    show kernelBase + 0x201000 + i - kernelBase = 0x201000 + i by omega, bytes i inside]
  exact (code i inside).symm.trans found

/-- The boot and the switch leave the kernel's code alone. -/
theorem pairInfo_code {t : Scheduler} {s : Kernel} {frames : StructFrames} {M₀ : Machine} {expected : Nat → Context}
    (run : cstart smallImage smallLayout.idleLoopTask (noTasks pairInfo) ⟨pairInfo, 0, 0, 0⟩ (kernelBase + 0x1b00000) =
      .ok (t, s))
    (idling : Idling smallImage smallLayout t s M₀)
    (launch : Launch (smallLayout.area frames) pairInfo 0x1b00000 pairLength frames.1 M₀)
    (reach : SwitchReach (smallLayout.area frames) M₀ expected) {i : Nat} (inside : i < 22) :
    (firstTurn frames M₀).frames (0x201000 + i) = pairInfo (0x201000 + i) := by
  have switched := reach.inv.switched ⟨0, fun _ => 3, fun _ => 9⟩
  have low : linearStart + (0x201000 + i) < kernelBase := linear_below_kernel (by omega)
  have idle : kernelBase ≤ smallLayout.idleLoopTask ∧ kernelBase ≤ smallLayout.floor := by decide
  have kept : (firstTurn frames M₀).frames (0x201000 + i) = M₀.sched.mem (linearStart + (0x201000 + i)) :=
    switched.outside _ (Or.inl (launch.current ▸ low.trans_le idle.1)) (Or.inl (low.trans_le idle.2))
  have below : 0x201000 + i < firstFrame smallImage moduleRegion := by
    rw [show firstFrame smallImage moduleRegion = 0x1400000 by decide]
    omega
  have tables : ∀ t ∈ [smallImage.kernelPml4, smallImage.kernelPagedir, smallImage.kernelPagedirtable, smallImage.kernelLinear],
      0x201016 ≤ t := by decide
  have same : s.mem (0x201000 + i) = pairInfo (0x201000 + i) := cstart_kept (s := ⟨pairInfo, 0, 0, 0⟩) pairInfo_boot pairInfo_clear
    run below fun t table => Or.inl (by have := tables t table; omega)
  rw [kept, idling.memory _ (by omega), same]

theorem pairInfo_first {t : Scheduler} {s : Kernel} {frames : StructFrames} {M₀ : Machine}
    (run : cstart smallImage smallLayout.idleLoopTask (noTasks pairInfo) ⟨pairInfo, 0, 0, 0⟩ (kernelBase + 0x1b00000) =
      .ok (t, s))
    (idling : Idling smallImage smallLayout t s M₀)
    (launch : Launch (smallLayout.area frames) pairInfo 0x1b00000 pairLength frames.1 M₀) : FirstTurn frames M₀ := by
  obtain ⟨round, frames', launches⟩ := cstart_launches (s := ⟨pairInfo, 0, 0, 0⟩) pairInfo_boot pairInfo_clear (fun _ => rfl) run
  obtain ⟨launch', reach, space, settled, sharing⟩ := launches M₀ idling
  obtain rfl := launch.unique launch'
  have divided := settled.divided
  have count := launch.count.trans pairInfo_count
  obtain ⟨b, isFirst⟩ : ∃ b, frames.1[0]? = some b := ⟨_, List.getElem?_eq_getElem (by omega)⟩
  obtain ⟨c, isSecond⟩ : ∃ c, frames.1[1]? = some c := ⟨_, List.getElem?_eq_getElem (by omega)⟩
  have member {i d : Nat} (found : frames.1[i]? = some d) : linearStart + d ∈ (smallLayout.area frames).tasks :=
    Or.inr ⟨d, List.mem_of_getElem? found, rfl⟩
  have different : c ≠ b := by
    rintro rfl
    have same := (List.getElem?_inj (by omega) launch.distinct).mp (isFirst.trans isSecond.symm)
    omega
  have first : M₀.sched.roundSchedule = 0 := by
    rw [idling.sched]
    exact round
  have current : (firstTurn frames M₀).sched.currentTaskTable 0 = linearStart + b :=
    launch.first_switch (by omega) first _ isFirst
  -- The first process.
  have booted : SystemReach (smallLayout.area frames) M₀ [] [] M₀ := .start
  obtain ⟨context, view⟩ := booted.dispatches divided sharing reach (member isFirst) ⟨0, fun _ => 3, fun _ => 9⟩ current
  have start := booted.fresh launch divided sharing reach isFirst List.not_mem_nil
  rw [pairInfo_module 0 (by decide)] at start
  have context : (firstTurn frames M₀).context =
      Context.process (programEntry pairInfo 0x1900000) (initrdStackAddr - paddedSize 5) :=
    context.trans (congrArg Process.context start)
  have view : userView (firstTurn frames M₀).frames (firstTurn frames M₀).cr3.toNat =
      startView pairInfo 0x1900000 0x1b00300 5 :=
    view.trans (congrArg Process.view start)
  -- The second one has not run.
  have turn : SystemReach (smallLayout.area frames) M₀ [.turn] [(firstTurn frames M₀).sched.currentTaskTable 0]
      (firstTurn frames M₀) := booted.turn (.switch _)
  have fresh := turn.fresh launch divided sharing reach isSecond (by
    rw [current, List.mem_singleton]
    omega)
  rw [pairInfo_module 1 (by decide)] at fresh
  have stack : OwnStack false (firstTurn frames M₀) := ownStack_of_start (by decide) context view
  have indexed : InImage smallImage smallSyscalls (firstTurn frames M₀) := inImage_of_start context
  obtain ⟨shared, ⟨_, reached⟩, -⟩ := turn.machine divided sharing reach
  refine ⟨⟨_, turn⟩, indexed, codeInImage_of_bytes settled shared reached.inv.current
    (fun _ inside => pairInfo_code run idling launch reach inside), stack, untrapped_of_start context, ?_,
    _, member isSecond, ?_, ?_⟩
  · have entry : programEntry pairInfo 0x1900000 = 0x400000 := by decide
    rw [rip_of_start context, entry]
    decide
  · omega
  · have blank : userView _ _ (stackPage + 0x800) = startView pairInfo 0x1900000 0x1b00340 3 (stackPage + 0x800) :=
      congrFun (congrArg Process.view fresh) _
    exact stack_mapped blank (by decide)

section boot
variable {K : KernelImage} {L : KernelLayout} {s s' : Kernel} {a : Nat} {entries : List MmapInfo} {region : MmapInfo}
  {length : Nat → Nat} {t t' : Scheduler}

/-- Whatever has happened since the boot, a system call of a process that has its own stack
returns behind the instruction, and the other processes do not see it. The kernel's code and
its table of handlers are in place, the trap flag is clear and the address behind the
instruction is canonical. -/
theorem cstart_systemCalls (boot : BootInfo K s.mem a entries region length) (clear : ModulesClear K s.mem a region length)
    (blank : ∀ slot, (t.schedulingVector 0 slot).task = 0) (run : cstart K L.idleLoopTask t s (kernelBase + a) = .ok (t', s')) :
    ∃ frames : StructFrames, ∀ M₀, Idling K L t' s' M₀ → Launch (L.area frames) s.mem a length frames.1 M₀ ∧
      ∀ events log M image msr star writeProtect, SystemReach (L.area frames) M₀ events log M → InImage K image M →
        CodeInImage K image writeProtect M → OwnStack writeProtect M → M.cpu.trapFlag = false → Canonical (M.rip + 2).toNat →
        ∃ w : Word, (M.view writeProtect M.frames).load M.frames 8 (syscallSlot image (M.reg .rax)) = some w.toNat ∧
          ∀ code, (∀ called, syscallEntry (M.view writeProtect) image (syscallInstruction (setupSyscall image msr) M.cpu) =
              some called → KeepsApart K M writeProtect image (code w) called) →
            ∃ M', systemCall image (setupSyscall image msr) (setupStar star) code writeProtect M = some M' ∧
              M'.rip = M.rip + 2 ∧ M'.reg .rsp = M.reg .rsp ∧ (M'.cs.toNat, M'.ss.toNat) = taskSelectors true ∧
              SystemReach (L.area frames) M₀ (events ++ [.quiet]) log M' ∧
              ∀ u ∈ (L.area frames).tasks, u ≠ M.sched.currentTaskTable 0 → processOf M' u = processOf M u := by
  obtain ⟨-, frames, launches⟩ := cstart_launches boot clear blank run
  refine ⟨frames, fun M₀ idling => ?_⟩
  obtain ⟨launch, reach, space, settled, sharing⟩ := launches M₀ idling
  refine ⟨launch, fun events log M image msr star writeProtect system indexed loaded stack untrapped next => ?_⟩
  obtain ⟨shared, ⟨_, reached⟩, -⟩ := system.machine settled.divided sharing reach
  have current := reached.inv.current
  obtain ⟨lower, upper⟩ := indexed
  obtain ⟨word, here⟩ := View.load_isSome (V := M.view writeProtect M.frames) (m := M.frames)
    (v := syscallSlot image (M.reg .rax)) (n := 8) fun i inside =>
      ⟨_, settled.window shared current writeProtect lower (i := i) (by omega)⟩
  have whole : (M.view writeProtect M.frames).load M.frames 8 (syscallSlot image (M.reg .rax)) = some (BitVec.ofNat 64 word).toNat :=
    here.trans (congrArg some (toNat_ofNat_of_load here).symm)
  refine ⟨_, whole, fun code apart => ?_⟩
  obtain ⟨M', called, rip, rsp, selectors, step⟩ := systemCall_step settled shared current ⟨lower, upper⟩ loaded stack untrapped
    whole apart next star
  have done := step.done settled.divided shared reached
  exact ⟨M', called, rip, rsp, selectors, system.other (fun turn => by cases turn) step,
    fun u member other => done.kept u member rfl other⟩

/-- The first module's first instruction is a system call. -/
theorem cstart_systemCalls_pair : ∃ t s, cstart smallImage smallLayout.idleLoopTask (noTasks pairInfo) ⟨pairInfo, 0, 0, 0⟩
    (kernelBase + 0x1b00000) = .ok (t, s) ∧ ∃ (frames : StructFrames) (M₀ : Machine), Idling smallImage smallLayout t s M₀ ∧
    ∃ M', systemCall smallSyscalls (setupSyscall smallSyscalls ⟨0, 0⟩) (setupStar 0)
        (fun _ => returnOnly ((firstTurn frames M₀).view false)) false (firstTurn frames M₀) = some M' ∧
      M'.rip = (firstTurn frames M₀).rip + 2 ∧ ∀ u ∈ (smallLayout.area frames).tasks,
        u ≠ (firstTurn frames M₀).sched.currentTaskTable 0 → processOf M' u = processOf (firstTurn frames M₀) u := by
  obtain ⟨t, s, run⟩ := pairInfo_starts
  obtain ⟨M₀, idling⟩ := Idling.exists smallImage smallLayout t s
  obtain ⟨frames, calls⟩ := cstart_systemCalls (s := ⟨pairInfo, 0, 0, 0⟩) pairInfo_boot pairInfo_clear (fun _ => rfl) run
  obtain ⟨launch, all⟩ := calls M₀ idling
  have first := pairInfo_first run idling launch
  obtain ⟨log, system⟩ := first.system
  obtain ⟨w, -, returns⟩ := all _ _ _ smallSyscalls ⟨0, 0⟩ 0 false system first.indexed (first.loaded false) first.stack
    first.untrapped first.next
  obtain ⟨M', called, rip, -, -, -, others⟩ := returns (fun _ => returnOnly ((firstTurn frames M₀).view false)) fun c _ =>
    ⟨returnOnly_conforms _ _ c, fun x changed => absurd rfl changed⟩
  exact ⟨t, s, run, frames, M₀, idling, M', called, rip, others⟩

/-- The machine with the stack pointer behind the byte at a physical address, in the linear
window, and the trap flag clear. -/
def Machine.aimed (M : Machine) (p : Nat) : Machine :=
  { M with
    reg := Function.update M.reg .rsp (BitVec.ofNat 64 (linearStart + p + 8))
    rflags := M.rflags &&& ~~~0x100 }

/-- A process can move its stack pointer into the linear window and make a system call: before the
kernel's function starts, a byte of any page that another process sees has been overwritten. The
process leaves the trap flag clear. -/
theorem cstart_systemCalls_overwrite (boot : BootInfo K s.mem a entries region length)
    (clear : ModulesClear K s.mem a region length)
    (blank : ∀ slot, (t.schedulingVector 0 slot).task = 0) (run : cstart K L.idleLoopTask t s (kernelBase + a) = .ok (t', s')) :
    ∃ frames : StructFrames, ∀ M₀, Idling K L t' s' M₀ → Launch (L.area frames) s.mem a length frames.1 M₀ ∧
      ∀ events log M image msr writeProtect, SystemReach (L.area frames) M₀ events log M → InImage K image M →
        CodeInImage K image writeProtect M → ∀ u v q, u ∈ (L.area frames).tasks →
          walk M.frames (addressSpaceOf M.sched.mem u).toNat v = some q → q.user = true →
          16 ≤ q.address % 4096 ∧ q.address % 4096 + 8 ≤ 4096 →
            SystemReach (L.area frames) M₀ (events ++ [.quiet]) log (M.aimed q.address) ∧
            ∃ called, syscallEntry (M.view writeProtect) image
                (syscallInstruction (setupSyscall image msr) (M.aimed q.address).cpu) = some called ∧
              userView called.mem (addressSpaceOf M.sched.mem u).toNat v = some (UInt8.ofNat (M.rip + 2).toNat) := by
  obtain ⟨-, frames, launches⟩ := cstart_launches boot clear blank run
  refine ⟨frames, fun M₀ idling => ?_⟩
  obtain ⟨launch, reach, space, settled, sharing⟩ := launches M₀ idling
  refine ⟨launch, fun events log M image msr writeProtect system indexed loaded u v q member found user within => ?_⟩
  obtain ⟨shared, ⟨_, reached⟩, -⟩ := system.machine settled.divided sharing reach
  have aim : SystemStep (L.area frames) M .quiet (M.aimed q.address) :=
    .work _ _ rfl rfl fun x changed => absurd rfl changed
  have own := shared.space u member
  rw [own] at found ⊢
  have page : UserPage s'.mem (space u) (q.address / 4096 * 4096) := by
    rw [← userPage_congr (shared.tables u member)]
    exact UserPage.of_walk found user
  obtain ⟨room, -⟩ := settled.divided.pages u member _ page
  have rsp : ((M.aimed q.address).reg .rsp).toNat = linearStart + q.address + 8 := by
    have top : linearStart + 2 ^ 39 + 8 < 2 ^ 64 := by decide
    simp only [Machine.aimed, Function.update_self, BitVec.toNat_ofNat]
    omega
  have aimed := aim.done settled.divided shared reached
  have untrapped : (M.aimed q.address).cpu.trapFlag = false := by
    have clear : (~~~0x100 : Word).getLsbD 8 = false := by decide
    simp only [Cpu.trapFlag, Machine.cpu, Machine.aimed, BitVec.getLsbD_and, clear, Bool.and_false]
  have code : CodeInImage K image writeProtect (M.aimed q.address) := ⟨loaded.lower, loaded.upper, loaded.loaded⟩
  refine ⟨system.other (fun turn => by cases turn) aim, ?_⟩
  exact systemCall_pushes (M := M.aimed q.address) settled aimed.sharing reached.inv.current indexed code untrapped member
    found user within rsp _

theorem cstart_systemCalls_overwrite_pair : ∃ t s, cstart smallImage smallLayout.idleLoopTask (noTasks pairInfo)
    ⟨pairInfo, 0, 0, 0⟩ (kernelBase + 0x1b00000) = .ok (t, s) ∧ ∃ (frames : StructFrames) (M₀ : Machine),
    Idling smallImage smallLayout t s M₀ ∧ ∃ u ∈ (smallLayout.area frames).tasks,
      u ≠ (firstTurn frames M₀).sched.currentTaskTable 0 ∧ ∃ p called,
        syscallEntry ((firstTurn frames M₀).view true) smallSyscalls
          (syscallInstruction (setupSyscall smallSyscalls ⟨0, 0⟩) ((firstTurn frames M₀).aimed p).cpu) = some called ∧
        userView called.mem (addressSpaceOf (firstTurn frames M₀).sched.mem u).toNat (stackPage + 0x800) =
          some (UInt8.ofNat ((firstTurn frames M₀).rip + 2).toNat) := by
  obtain ⟨t, s, run⟩ := pairInfo_starts
  obtain ⟨M₀, idling⟩ := Idling.exists smallImage smallLayout t s
  obtain ⟨frames, attacks⟩ := cstart_systemCalls_overwrite (s := ⟨pairInfo, 0, 0, 0⟩) pairInfo_boot pairInfo_clear (fun _ => rfl) run
  obtain ⟨launch, all⟩ := attacks M₀ idling
  have first := pairInfo_first run idling launch
  obtain ⟨log, system⟩ := first.system
  obtain ⟨u, member, other, q, found, user⟩ := first.other
  have offset : q.address % 4096 = 0x800 := (walkFrom_offset found).trans (by decide)
  obtain ⟨-, called, entered, seen⟩ := all _ _ _ smallSyscalls ⟨0, 0⟩ true system first.indexed (first.loaded true) u _ q member
    found user (by omega)
  exact ⟨t, s, run, frames, M₀, idling, u, member, other, q.address, called, entered, seen⟩

end boot

end MetalToApp

import MetalToApp.SharedMachine

namespace MetalToApp
open ByteMemory X86 Paging

/-- The context in which a process starts. -/
def Context.process (entry sp : Nat) : Context where
  reg r := if r = .rsp ∨ r = .rdi then BitVec.ofNat 64 sp else 0
  rip := BitVec.ofNat 64 entry
  cs := BitVec.ofNat 16 (GDT.cs64u + 3)
  rflags := BitVec.ofNat 64 defaultRflags
  ss := BitVec.ofNat 16 (GDT.dsu + 3)

/-- The entry point in the header of the image at `a`. -/
def programEntry (file : Memory) (a : Nat) : Nat := readLE file 8 (a + 0x18)

/-- What a process can see when it starts: the pages of its image, and a stack that is blank
but for the command line. -/
def startView (file : Memory) (a b length v : Nat) : Option UInt8 :=
  let sp := initrdStackAddr - paddedSize length
  if v / 4096 = stackPage / 4096 then some (if sp ≤ v ∧ v ≤ sp + length then file (b + (v - sp)) else 0)
  else if v < 2 ^ 47 then (imagePages file a (programHeaderCount file a) (v / 4096)).map fun bytes => bytes (v % 4096)
  else none

/-- The process with struct `d` and root table `c`, as it starts. -/
structure Begun (file : Memory) (a b length : Nat) (m : Memory) (d c : Nat) : Prop where
  context : Context.ofTask m d = Context.process (programEntry file a) (initrdStackAddr - paddedSize length)
  flags : read64 m (d + Task.taskFlags) = taskFlagMaskCanExecute
  view : ∀ v, userView m c v = startView file a b length v

section start
variable {K : KernelImage} {A : Arena} {s s' : Kernel} {g g' : Ghost} {r c d f a len b length stop v n : Nat} {pages : Pages}

/-- `make_task` over a blank struct leaves nothing in the registers but what it sets. -/
theorem Context.ofTask_makeTask_blank {m : Memory} {k task entry sp space : Nat} (blank : ∀ o < Task.taskFlags, m (task + o) = 0) :
    Context.ofTask (makeTask m k task sp entry sp space true) task = Context.process entry sp := by
  have zero (field : Nat) (inside : field + 8 ≤ Task.taskFlags) : readWord m (task + field) = 0 := by
    have bytes : read64 m (task + field) = 0 := readLE_zero_bytes fun i bound => by
      rw [Nat.add_assoc]
      exact blank _ (by omega)
    rw [readWord, bytes]
    rfl
  have regs (r : Reg) : (Context.ofTask m task).reg r = 0 := zero _ (by cases r <;> decide)
  rw [Context.ofTask_makeTask, Context.start, Context.process]
  congr 1
  funext r
  by_cases rdi : r = .rdi
  · rw [rdi, Function.update_self, if_pos (Or.inr rfl)]
  · rw [Function.update_of_ne rdi]
    by_cases rsp : r = .rsp
    · rw [rsp, Function.update_self, if_pos (Or.inl rfl)]
    · rw [Function.update_of_ne rsp, regs, if_neg (by simp [rsp, rdi])]

/-- The frames of the stack and of the task struct come zeroed, and the mapping leaves them so. -/
theorem prepareTask_blank (inv : KernelInv K A s g) (space : g.spaces r) (small : d < 2 ^ 39)
    (run : prepareTask s (linearAddressToPtr r) = .ok (f, linearAddressToPtr d, s')) :
    ∀ o < 4096, s'.mem (f + o) = 0 ∧ s'.mem (d + o) = 0 := by
  have enough := enough_of_prepareTask inv space run
  obtain ⟨f', rest₁, free₁⟩ : ∃ f rest, g.free = f :: rest := List.exists_cons_of_length_pos (by omega)
  have count : g.free.length = rest₁.length + 1 := by rw [free₁, List.length_cons]
  obtain ⟨d', rest, rfl⟩ : ∃ d rest, rest₁ = d :: rest := List.exists_cons_of_length_pos (by omega)
  rw [List.length_cons] at count
  have data₁ := inv.data_of_free free₁
  obtain ⟨s₁, alloc₁, mem₁, inv₁⟩ := inv.frameAllocZero_take free₁
  have data₂ := inv₁.data_of_free rfl
  obtain ⟨s₂, alloc₂, mem₂, inv₂⟩ := inv₁.frameAllocZero_take rfl
  have different : f' ≠ d' := by
    rintro rfl
    exact data₁.live List.mem_cons_self
  have data : Ghost.Data A { g with free := rest } f' :=
    ⟨data₁.frame, fun member => data₁.live (List.mem_cons_of_mem _ member), data₁.notTable⟩
  obtain ⟨t, g', map, remapped, -, -⟩ := mmap_remapped true inv₂ space stackPage_top data.frame.aligned data.frame.room
    (show missing g r (stations stackPage 3 []) ≤ rest.length by omega)
  simp only [prepareTask, alloc₁, alloc₂, Outcome.ok_bind] at run
  rw [show initrdStackAddr - defaultFrameSize = stackPage from rfl, map, Outcome.ok_bind] at run
  obtain ⟨rfl, pointer, rfl⟩ : f' = f ∧ linearAddressToPtr d' = linearAddressToPtr d ∧ t = s' := by
    have results := Except.ok.inj run
    simp only [Prod.mk.injEq] at results
    exact results
  have room := data₂.frame.room
  obtain rfl := (linearAddressToPtr_inj (by omega) (by omega)).mp pointer
  have apart := data.frame.apart data₂.frame different
  intro o inside
  have stack : s₂.mem (f' + o) = 0 := by
    rw [mem₂, memset_outside 0 (by omega), mem₁, memset_inside 0 inside]
  have struct : s₂.mem (d' + o) = 0 := by
    rw [mem₂, memset_inside 0 inside]
  exact ⟨(remapped.agree_data data o inside).trans stack, (remapped.agree_data data₂ o inside).trans struct⟩

/-- In a space that was empty the user sees the loaded pages and nothing else. -/
theorem Loaded.userView (loaded : Loaded K A s g s' g' r n pages) (space : g.spaces r) (inv : KernelInv K A s g) (low : v < 2 ^ 47)
    (empty : pageAt s.mem r (pageKey v) = none) :
    MetalToApp.userView s'.mem r v = (pages (v / 4096)).map fun bytes => bytes (v % 4096) := by
  rw [MetalToApp.userView, walk_lower loaded.inv (loaded.spaces ▸ space) low]
  cases found : pages (v / 4096) with
  | none =>
    have vacant := loaded.others (leafKey_of_space inv space (index_three_of_lower low)) fun _ w low' same => by
      rw [← (lower_page low low').mp same, found]
    rw [show pageAt s'.mem r (pageKey v) = none from vacant.trans empty]
    rfl
  | some bytes =>
    obtain ⟨f, -, -, mapped, content⟩ := loaded.page low found
    rw [mapped, Option.map_some, Option.bind_some, if_pos rfl, Option.map_some, content _ (Nat.mod_lt _ (by decide))]

/-- The upper half shows a process nothing. -/
theorem ProcessInv.userView_upper {processes : List (Nat × Nat)} (h : ProcessInv K A s g processes) (space : g.spaces r)
    (high : 2 ^ 47 ≤ v) : userView s.mem r v = none := by
  cases found : walk s.mem r v with
  | none => rw [userView, found, Option.bind_none]
  | some q =>
    have canonical : Canonical v := by
      by_contra not
      rw [walk, if_neg not] at found
      cases found
    have upper := canonical.resolve_left (by omega)
    rw [userView, found, Option.bind_some, walk_upper_supervisor h.kernel h.bare space upper.1 upper.2 found]
    rfl

/-- The task starts at the entry point of its image. -/
theorem Stages.entry_eq (S : Stages K A s g a stop) (inv : KernelInv K A s g) (wf : WellFormed s.mem a len)
    (placed : ∀ f ∈ g.free.take (programFrames s.mem a), ∀ k < len, a + k < f ∨ f + 4096 ≤ a + k)
    (enough : programFrames s.mem a ≤ g.free.length) : S.entry = programEntry s.mem a := by
  unfold programFrames at placed enough
  have free := S.created.free
  have same : Agree s.mem S.s₁.mem a len := fun k inside =>
    S.created.outside _ (placed S.c (by simp [free, Nat.add_comm 1]) k inside)
  have header := wf.header
  have addresses := allAddresses_congr wf same
  rw [Nat.add_comm] at placed enough
  rw [← addresses] at placed enough
  rw [free, List.length_cons] at enough
  obtain ⟨s₂, g₂, load, -⟩ := S.created.loadElf inv (wf.congr same) placed (by omega) stop
  have program := S.program
  simp only [loadProgram, S.create, load, Outcome.ok_bind, Outcome.pure_eq_ok, Except.ok.injEq, Prod.mk.injEq] at program
  exact program.2.1.symm.trans (same.readLE (by omega))

/-- The stack of a new task, byte by byte. -/
theorem Stages.stackByte (S : Stages K A s g a stop) (short : length < 4096) (kept : Agree s.mem S.s₃.mem b (length + 1))
    (placed : ∀ k ≤ length, b + k < S.f ∨ S.f + 4096 ≤ b + k) (blank : ∀ o < 4096, S.s₃.mem (S.f + o) = 0)
    (onStack : v / 4096 = stackPage / 4096) :
    memcpy S.s₃.mem (S.f + 4096 - paddedSize length) b (length + 1) (S.f + v % 4096) =
      if initrdStackAddr - paddedSize length ≤ v ∧ v ≤ initrdStackAddr - paddedSize length + length then
        s.mem (b + (v - (initrdStackAddr - paddedSize length))) else 0 := by
  have size : length < paddedSize length ∧ paddedSize length ≤ 4096 := by
    unfold paddedSize
    omega
  have page : stackPage % 4096 = 0 := by decide
  have top : initrdStackAddr = stackPage + 4096 := by decide
  by_cases inLine : initrdStackAddr - paddedSize length ≤ v ∧ v ≤ initrdStackAddr - paddedSize length + length
  · have here : S.f + v % 4096 = S.f + 4096 - paddedSize length + (v - (initrdStackAddr - paddedSize length)) := by omega
    rw [if_pos inLine, here, memcpy_inside (fun j bound => ?_) (by omega)]
    · exact kept _ (by omega)
    · have away := placed j (by omega)
      omega
  · rw [if_neg inLine, memcpy_outside (by omega)]
    exact blank _ (Nat.mod_lt _ (by decide))

/-- What a process is when `make_userspace_process` has made it. -/
theorem makeUserspaceProcess_begins {processes : List (Nat × Nat)} (h : ProcessInv K A s g processes)
    (boot : Bootable s.mem a len b length)
    (imagePlaced : ∀ f ∈ g.free.take (programFrames s.mem a), ∀ k < len, a + k < f ∨ f + 4096 ≤ a + k)
    (stringPlaced : ∀ f ∈ g.free.take (processFrames s.mem a), ∀ k ≤ length, b + k < f ∨ f + 4096 ≤ b + k)
    (enough : processFrames s.mem a ≤ g.free.length) (stop : Nat) :
    ∃ s' g' c d, makeUserspaceProcess K s (linearAddressToPtr a) stop (linearAddressToPtr b) = .ok (linearAddressToPtr d, s') ∧
      Made K A s g s' g' c d (processFrames s.mem a) ∧ Begun s.mem a b length s'.mem d c := by
  have inv := h.kernel
  obtain ⟨S⟩ := exists_stages inv boot.image imagePlaced enough stop
  have kept : Agree s.mem S.s₃.mem b (length + 1) := fun k inside =>
    S.outside inv fun f member => stringPlaced f member k (by omega)
  have atLength : S.s₃.strlen (linearAddressToPtr b) = .ok length := S.s₃.strlen_linear (boot.string.congr kept) boot.room
  have atSource : window (linearAddressToPtr b) (length + 1) = .ok b :=
    window_linear_zero (by have := boot.room; omega) (by have := boot.room; omega)
  have outside {x : Nat} := S.copy_outside boot.short b (x := x)
  have made := S.made inv (initrdStackAddr - paddedSize length) S.entry fun x => outside
  have room := S.data.frame.room
  have blank := prepareTask_blank S.loaded.inv S.space₂ (by omega) S.prepare
  have apart := S.mapped.data.frame.apart S.data.frame S.different
  have fewer : programFrames s.mem a ≤ g.free.length := by
    have total := processFrames_eq s.mem a
    omega
  refine ⟨_, S.g₃, S.c, S.d, S.run atLength boot.short atSource, made, ?_, makeTask_flags, fun v => ?_⟩
  · rw [← S.entry_eq inv boot.image imagePlaced fewer]
    refine Context.ofTask_makeTask_blank fun o inside => ?_
    simp only [Task.taskFlags] at inside
    rw [outside (by omega)]
    exact (blank o (by omega)).2
  by_cases low : v < 2 ^ 47
  · have loaded := S.loaded.trans ((S.ready (initrdStackAddr - paddedSize length) S.entry fun x => outside).loaded_as (by decide))
      S.space S.created.inv
    rw [loaded.userView S.space S.created.inv low (S.created.empty v (index_three_of_lower low)), startView]
    by_cases onStack : v / 4096 = stackPage / 4096
    · have number : (4096 * (v / 4096) + v % 4096) % 4096 = v % 4096 := by omega
      have offset := Nat.mod_lt v (show 0 < 4096 by decide)
      rw [if_pos onStack, Pages.overlay, Pages.range, if_pos (by omega), Option.some_or, Option.map_some, Option.some.injEq]
      dsimp only
      rw [number, makeTask_outside (by simp only [Task.size]; omega)]
      exact S.stackByte boot.short kept (fun k inside => stringPlaced S.f S.stack_mem k inside) (fun o inside => (blank o inside).1)
        onStack
    · rw [if_neg onStack, if_pos low, Pages.overlay, Pages.range, if_neg (by omega), Option.none_or]
  · have notStack : v / 4096 ≠ stackPage / 4096 := by
      simp only [stackPage, initrdStackAddr, defaultFrameSize]
      omega
    rw [(h.made made).userView_upper ((made.spaces _).mpr (Or.inl rfl)) (not_lt.mp low), startView, if_neg notStack, if_neg low]

/-- A process stays as it is while others are made. -/
theorem Begun.made {processes : List (Nat × Nat)} {file : Memory} {c' d' : Nat} (h : ProcessInv K A s g processes)
    (made : Made K A s g s' g' c' d' n) (member : (d, c) ∈ processes) (begun : Begun file a b length s.mem d c) :
    Begun file a b length s'.mem d c := by
  have space : g.spaces c := (h.spaces c).mpr (Or.inr (List.mem_map_of_mem member))
  have space' : g'.spaces c := (made.spaces c).mpr (Or.inr space)
  obtain ⟨-, struct⟩ := made.data (h.task _ member).1
  refine ⟨(Context.ofTask_congr fun x lower upper => ?_).trans begun.context, (struct.readLE (by decide)).trans begun.flags,
    fun v => (Eq.symm ?_).trans (begun.view v)⟩
  · have same := struct (x - d) (by simp only [Task.taskFlags] at upper; omega)
    rwa [Nat.add_sub_cancel' lower] at same
  by_cases low : v < 2 ^ 47
  · rw [userView, userView, walk_lower h.kernel space low, walk_lower made.inv space' low, made.pages space v low]
    cases found : pageAt s.mem c (pageKey v) with
    | none => rfl
    | some q =>
      obtain ⟨-, same⟩ := made.data (h.mapped space ⟨v, low, q.2, found⟩).1
      simp only [Option.map_some, Option.bind_some, same _ (Nat.mod_lt v (show 0 < 4096 by decide))]
  · rw [h.userView_upper space (not_lt.mp low), (h.made made).userView_upper space' (not_lt.mp low)]

/-- The tables that serve an address space are frames of memory, but none of them is data. -/
theorem KernelInv.tableAt_room (inv : KernelInv K A s g) (space : g.spaces r) {level : Nat} (table : TableAt s.mem r level f) :
    f + 4096 ≤ 2 ^ 39 := by
  rcases tableAt_cases inv space table with ⟨p, place, -⟩ | upper
  · exact (inv.page place).2.2
  · match level with
    | 0 =>
      obtain ⟨_, _, place⟩ := upper
      exact (inv.page place).2.2
    | 1 =>
      rcases upper with rfl | ⟨_, place⟩
      · exact (K.page (by simp)).2.2
      · exact (inv.page place).2.2
    | 2 =>
      rcases upper with rfl | rfl
      · exact (K.page (by simp)).2.2
      · exact (K.page (by simp)).2.2

/-- The spaces of the processes divide memory. -/
theorem ProcessInv.divided {T : TaskArea} {space : Nat → Nat} {processes : List (Nat × Nat)} (h : ProcessInv K A s g processes)
    (idle : kernelBase ≤ T.idleLoopTask ∧ kernelBase ≤ T.floor) (kernel : space T.idleLoopTask = K.kernelPml4)
    (tasks : ∀ t, t ∈ T.tasks ↔ t = T.idleLoopTask ∨ ∃ q ∈ processes, t = linearStart + q.1)
    (spaces : ∀ q ∈ processes, space (linearStart + q.1) = q.2) (own : ∀ q ∈ processes, q.2 ≠ K.kernelPml4) :
    Divided T space s.mem := by
  have isSpace {t : Nat} (member : t ∈ T.tasks) : g.spaces (space t) := by
    rcases (tasks t).mp member with rfl | ⟨q, known, rfl⟩
    · exact kernel ▸ h.kernel.kernelRoot
    · exact spaces q known ▸ (h.spaces _).mpr (Or.inr (List.mem_map_of_mem known))
  -- A frame at which a task lies is the frame of its struct.
  have isStruct {f : Nat} (room : f + 4096 ≤ 2 ^ 39) (member : linearStart + f ∈ T.tasks) : ∃ q ∈ processes, q.1 = f := by
    rcases (tasks _).mp member with same | ⟨q, known, same⟩
    · have low := linear_below_kernel (x := f) (by omega)
      have high := idle.1
      omega
    · exact ⟨q, known, by omega⟩
  have different {t u : Nat} (member : t ∈ T.tasks) (member' : u ∈ T.tasks) (differ : t ≠ u) : space t ≠ space u := by
    intro same
    rcases (tasks t).mp member with rfl | ⟨q, known, rfl⟩
    · rcases (tasks u).mp member' with rfl | ⟨q', known', rfl⟩
      · exact differ rfl
      · exact own q' known' ((spaces q' known').symm.trans (same.symm.trans kernel))
    · rcases (tasks u).mp member' with rfl | ⟨q', known', rfl⟩
      · exact own q known ((spaces q known).symm.trans (same.trans kernel))
      · rw [spaces q known, spaces q' known'] at same
        exact differ (congrArg (linearStart + ·.1) (List.inj_on_of_nodup_map h.nodup known known' same))
  refine ⟨idle, fun t member notIdle => ?_, fun t member level f table => ?_, fun t member f page => ?_,
    fun t member u member' level f table page => ?_, fun t member u member' differ f page page' => ?_⟩
  · obtain ⟨q, known, rfl⟩ := ((tasks t).mp member).resolve_left notIdle
    have frame := (h.task q known).1.frame
    exact ⟨q.1, rfl, frame.aligned, frame.room⟩
  · have room := h.kernel.tableAt_room (isSpace member) table
    refine ⟨room, fun struct => ?_⟩
    obtain ⟨q, known, rfl⟩ := isStruct room struct
    exact not_data_of_tableAt h.kernel (isSpace member) table (h.task q known).1
  · obtain ⟨data, others⟩ := h.mapped (isSpace member) (h.maps_of_userPage (isSpace member) page)
    refine ⟨data.frame.room, fun struct => ?_⟩
    obtain ⟨q, known, rfl⟩ := isStruct data.frame.room struct
    exact others (List.mem_map_of_mem known)
  · exact not_data_of_tableAt h.kernel (isSpace member) table
      (h.mapped (isSpace member') (h.maps_of_userPage (isSpace member') page)).1
  · exact different member member' differ (h.once (isSpace member) (isSpace member')
      (h.maps_of_userPage (isSpace member) page) (h.maps_of_userPage (isSpace member') page'))

end start

end MetalToApp

import MetalToApp.BootSurvival
import MetalToApp.ConsoleRuns

namespace MetalToApp
open ByteMemory Paging

/-- Texts of these lengths stay on the screen, printed one after the other from the cell `cursor` on. -/
def PrintsFit : Nat → List Nat → Prop
  | _, [] => True
  | cursor, n :: rest => (n = 0 ∨ cursor + n ≤ 80 * 25) ∧ PrintsFit ((cursor + n) % (80 * 25)) rest

/-- The cursor behind them. -/
def cursorAfter : Nat → List Nat → Nat
  | cursor, [] => cursor
  | cursor, n :: rest => cursorAfter ((cursor + n) % (80 * 25)) rest

/-- The lengths of what `setup_initrd` prints about a module whose command line and image begin
with texts of these lengths. -/
def moduleLengths (length image : Nat) : List Nat := [9, 18, 2, 18, 3, length, 3, 2, image, 1]

/-- The rows of the first modules stay on the screen, and the cursor behind them. The first one
begins behind the line about their number. -/
inductive RowsFit (m : Memory) (a : Nat) : Nat → Nat → Prop
  | start : RowsFit m a 0 (80 * 2)
  | next {i cursor length image} : RowsFit m a i cursor → StringAt m (bootModule m a i).string length →
      StringAt m (bootModule m a i).modStart image → PrintsFit cursor (moduleLengths length image) →
      RowsFit m a (i + 1) ((cursorAfter cursor (moduleLengths length image) + 79) / 80 * 80)

/-- None of the `n` bytes at a physical address is on the screen. -/
def OffScreen (a n : Nat) : Prop := a + n ≤ vgaBegin ∨ vgaBegin + 2 * (80 * 25) ≤ a

/-- What `setup_initrd` reads lies in memory, not on the screen, and its texts not in the kernel's
own page tables: a screen full of bytes from the address of each text on is enough. -/
structure TextsAway (K : KernelImage) (m : Memory) (a : Nat) : Prop where
  info : OffScreen a 52
  list : OffScreen (modsAddr m a) (16 * modsCount m a)
  texts : ∀ i < modsCount m a, ∀ p ∈ [(bootModule m a i).string, (bootModule m a i).modStart], OffScreen p (80 * 25 + 1) ∧
    ∀ t ∈ [K.kernelPml4, K.kernelPagedir, K.kernelPagedirtable, K.kernelLinear], p + (80 * 25 + 1) ≤ t ∨ t + 4096 ≤ p

/-! What a boot should do with its modules. -/

/-- The scheduler's tasks lie in the frames of the kernel. -/
def withTasks (t : Scheduler) (s : Kernel) : Scheduler := { t with mem := fun p => s.mem (p - linearStart) }

section prints
variable {c c' : Console} {pointer : Pointer} {message : Message} {pointers : List Pointer} {messages : List Message}
  {lengths more : List Nat} {cursor room n : Nat}

end prints

section texts
variable {s : Kernel} {text : Memory} {a p n i count : Nat}

/-- Off the screen memory is as it was. -/
theorem OffScreen.agree (away : OffScreen a n) : Agree s.mem (s.under text).mem a n := fun k inside => if_neg fun on => by
  rcases away with below | above <;> omega

theorem OffScreen.message {k : Nat} (small : p < 2 ^ 32) (away : OffScreen p (80 * 25 + 1)) (inside : k ≤ 80 * 25) :
    (s.under text).message (linearAddressToPtr p) k = s.message (linearAddressToPtr p) k := by
  rw [Kernel.message_linear (by omega), Kernel.message_linear (by omega), away.agree k (by omega)]

theorem OffScreen.steady (small : p < 2 ^ 32) (away : OffScreen p (80 * 25 + 1)) :
    Pointer.Steady (Output.screen.string s (linearAddressToPtr p)) (s.message (linearAddressToPtr p)) := by
  refine ⟨fun text k inside => away.message small inside, fun k inside none => ?_⟩
  rw [Kernel.message_linear (by omega)] at none
  cases none

/-- The list is read as it was. -/
theorem OffScreen.readModule (away : OffScreen (modsAddr s.mem a) (16 * count)) (bound : i < count) (small : count ≤ 2 ^ 32) :
    readModule (s.under text) (linearAddressToPtr (modsAddr s.mem a)) i = .ok (bootModule s.mem a i).info := by
  have addr := modsAddr_lt s.mem a
  have field {o : Nat} (inside : o + 4 ≤ 16) : (s.under text).load 4 (linearAddressToPtr (modsAddr s.mem a) + (16 * i + o)) =
      .ok (readLE s.mem 4 (modsAddr s.mem a + (16 * i + o))) := by
    rw [Kernel.load_linear _ (by omega) (by omega), away.agree.readLE (by omega)]
  have start := field (o := 0) (by decide)
  have stop := field (o := 4) (by decide)
  have string := field (o := 8) (by decide)
  simp only [← Nat.add_assoc, Nat.add_zero] at start stop string
  rw [MetalToApp.readModule, start, Outcome.ok_bind, stop, Outcome.ok_bind, string, Outcome.ok_bind, Outcome.pure_eq_ok]
  rfl

end texts

section module
variable {s : Kernel} {c : Console} {a room i : Nat} {q : BootModule} {length image : Nat}

/-- The texts that are printed about a module. -/
def moduleMessages (s : Kernel) (q : BootModule) : List Message :=
  [(hexString (BitVec.ofNat 64 q.info.start)).message, commaText.message, (hexString (BitVec.ofNat 64 q.info.stop)).message,
    colonText.message, s.message q.info.commandLine, colonText.message, openQuoteText.message, s.message q.info.start]

theorem moduleReport_steady (string : q.string < 2 ^ 32 ∧ OffScreen q.string (80 * 25 + 1))
    (start : q.modStart < 2 ^ 32 ∧ OffScreen q.modStart (80 * 25 + 1)) :
    List.Forall₂ Pointer.Steady (moduleReport (Output.screen.string s) q.info) (moduleMessages s q) :=
  .cons (CString.steady _) (.cons (CString.steady _) (.cons (CString.steady _) (.cons (CString.steady _)
    (.cons (string.2.steady string.1) (.cons (CString.steady _) (.cons (CString.steady _)
      (.cons (start.2.steady start.1) .nil)))))))

end module

section rows
variable {m m' : Memory} {a n cursor : Nat} {lengths : List Nat}

theorem PrintsFit.le (fit : PrintsFit cursor lengths) : ∀ n ∈ lengths, n ≤ 80 * 25 := by
  induction lengths generalizing cursor with
  | nil => exact fun _ => nofun
  | cons n rest ih =>
    obtain ⟨fits, fit⟩ := fit
    exact List.forall_mem_cons.mpr ⟨by omega, ih fit⟩

/-- Texts that leave room in the last row. -/
theorem printsFit_of_sum (room : cursor + lengths.sum < 80 * 25) :
    PrintsFit cursor lengths ∧ cursorAfter cursor lengths = cursor + lengths.sum := by
  induction lengths generalizing cursor with
  | nil => exact ⟨trivial, rfl⟩
  | cons n rest ih =>
    rw [List.sum_cons] at room ⊢
    have here : (cursor + n) % (80 * 25) = cursor + n := Nat.mod_eq_of_lt (by omega)
    obtain ⟨fit, last⟩ := ih (show cursor + n + rest.sum < 80 * 25 by omega)
    exact ⟨⟨Or.inr (by omega), here.symm ▸ fit⟩, by rw [cursorAfter, here, last, Nat.add_assoc]⟩

/-- Rows of less than 80 characters come one below the other. -/
theorem RowsFit.rows {length image : Nat → Nat} (texts : ∀ i < n, StringAt m (bootModule m a i).string (length i) ∧
      StringAt m (bootModule m a i).modStart (image i) ∧ 56 + length i + image i < 80) (few : n ≤ 23) :
    RowsFit m a n (80 * (n + 2)) := by
  induction n with
  | zero => exact .start
  | succ i ih =>
    obtain ⟨first, second, short⟩ := texts i (Nat.lt_succ_self i)
    have before := ih (fun j less => texts j (by omega)) (by omega)
    have sum : (moduleLengths (length i) (image i)).sum = 56 + length i + image i := by
      simp only [moduleLengths, List.sum_cons, List.sum_nil]
      omega
    obtain ⟨fit, cursor⟩ := printsFit_of_sum (show 80 * (i + 2) + (moduleLengths (length i) (image i)).sum < 80 * 25 by omega)
    have last : (cursorAfter (80 * (i + 2)) (moduleLengths (length i) (image i)) + 79) / 80 * 80 = 80 * (i + 1 + 2) := by omega
    exact last ▸ before.next first second fit

theorem RowsFit.congr (rows : RowsFit m a n cursor) (same : ∀ i < n, bootModule m' a i = bootModule m a i ∧
    Agree m m' (bootModule m a i).string (80 * 25 + 1) ∧ Agree m m' (bootModule m a i).modStart (80 * 25 + 1)) :
    RowsFit m' a n cursor := by
  induction rows with
  | start => exact .start
  | @next i cursor length image _ first second fit ih =>
    obtain ⟨module, string, header⟩ := same i (Nat.lt_succ_self i)
    have short := fit.le
    have length_le : length ≤ 80 * 25 := short length (by simp [moduleLengths])
    have image_le : image ≤ 80 * 25 := short image (by simp [moduleLengths])
    refine .next (ih fun j before => same j (by omega)) ?_ ?_ fit
    · rw [module]
      exact first.congr fun k inside => string k (by omega)
    · rw [module]
      exact second.congr fun k inside => header k (by omega)

end rows

section writes
variable {K : KernelImage} {s : Kernel} {t : Scheduler} {c : Console} {text : Memory} {a room n count cursor : Nat}
  {infos : List InitrdInfo} {entries : List MmapInfo} {region : MmapInfo}

/-- A module list off the screen, whose texts are off the screen too. -/
structure ListAway (m : Memory) (a count : Nat) : Prop where
  small : count ≤ 2 ^ 32
  list : OffScreen (modsAddr m a) (16 * count)
  texts : ∀ i < count, OffScreen (bootModule m a i).string (80 * 25 + 1) ∧ OffScreen (bootModule m a i).modStart (80 * 25 + 1)

theorem ListAway.steady (away : ListAway s.mem a count) {i : Nat} (bound : i < count) :
    List.Forall₂ Pointer.Steady (moduleReport (Output.screen.string s) (bootModule s.mem a i).info)
      (moduleMessages s (bootModule s.mem a i)) :=
  moduleReport_steady ⟨readLE_lt s.mem 4 _, (away.texts i bound).1⟩ ⟨readLE_lt s.mem 4 _, (away.texts i bound).2⟩

theorem ListAway.read (away : ListAway s.mem a count) {i : Nat} (bound : i < count) (d : Console) :
    readModule (s.under d.text) (linearAddressToPtr (modsAddr s.mem a)) i = .ok (bootModule s.mem a i).info :=
  away.list.readModule bound away.small

end writes

section slots
variable {K : KernelImage} {A : Arena} {infos : List InitrdInfo} {t₀ t t' : Scheduler} {s₀ s s' : Kernel} {n : Nat} {task : Nat → Nat}

theorem schedule_slot (t : Scheduler) (i task flags cpuId slot : Nat) :
    (schedule t i task flags).2.schedulingVector cpuId slot =
      if cpuId = 0 ∧ slot = 128 + i then ⟨flags, task⟩ else t.schedulingVector cpuId slot := by
  have index : (128 + (i : Int)).toNat = 128 + i := by omega
  simp only [schedule, index]
  by_cases first : cpuId = 0
  · simp [first, Function.update_apply]
  · simp [first]

/-- One more process of the loop. -/
theorem startProcesses_step (run : startProcesses K infos t₀ s₀ (n + 1) = .ok (t', s')) :
    ∃ info t s task, infos[n]? = some info ∧ startProcesses K infos t₀ s₀ n = .ok (t, s) ∧
      makeUserspaceProcess K s info.start info.stop info.commandLine = .ok (task, s') ∧ t' = (schedule t n task 0).2 := by
  have body := run
  rw [startProcesses_succ_eq] at body
  obtain ⟨⟨t, s⟩, before, -⟩ := Outcome.bind_eq_ok.mp body
  cases here : infos[n]? with
  | none =>
    rw [startProcesses_succ_eq, before, Outcome.ok_bind, here] at run
    cases run
  | some info =>
    rw [startProcesses_succ before here] at run
    obtain ⟨⟨task, u⟩, made, done⟩ := Outcome.bind_eq_ok.mp run
    cases done
    exact ⟨info, t, s, task, rfl, before, made, rfl⟩

/-- The task structs made so far lie in frames of their own, and can execute. -/
structure TasksMade (K : KernelImage) (A : Arena) (s : Kernel) (n : Nat) (task : Nat → Nat) : Prop where
  freelist : s.freelist = 0
  start : s.freememStart ≤ linearEnd
  inv : ∃ g, KernelInv K A (withEnd s linearEnd) g ∧ ∀ j < n, ∃ d, g.Data A d ∧ task j = linearAddressToPtr d ∧
    read64 s.mem (d + Task.taskFlags) = taskFlagMaskCanExecute
  distinct : ∀ i j, i < j → j < n → task i ≠ task j

theorem TasksMade.next {start stop commandLine : Nat} (h : TasksMade K A s n task) (low : LowImage K s start)
    (short : ShortCommandLine K s start stop commandLine)
    (made : makeUserspaceProcess K s start stop commandLine = .ok (task n, s')) : TasksMade K A s' (n + 1) task := by
  obtain ⟨advanced, again⟩ := (makeUserspaceProcess_endFree start stop commandLine).beyond h.freelist h.start made
  have stages := made
  rw [makeUserspaceProcess] at stages
  obtain ⟨⟨root, entry, s₁⟩, program, stages⟩ := Outcome.bind_eq_ok.mp stages
  obtain ⟨⟨stack, ret, s₂⟩, prepared, -⟩ := Outcome.bind_eq_ok.mp stages
  obtain ⟨g, inv, tasks⟩ := h.inv
  obtain ⟨done⟩ := makeUserspaceProcess_completed inv (low.beyond h.freelist h.start program)
    (short.beyond h.freelist h.start program prepared) again
  have whole := done.made inv
  have new : task n = linearAddressToPtr done.d := done.atTask
  refine ⟨advanced.freelist, advanced.bounded, ⟨done.g₃, whole.inv, fun j bound => ?_⟩, fun i j before bound => ?_⟩
  · by_cases last : j = n
    · subst last
      exact ⟨done.d, done.data, new, done.flags⟩
    · obtain ⟨d, data, pointer, flags⟩ := tasks j (by omega)
      obtain ⟨data', same⟩ := whole.data data
      exact ⟨d, data', pointer, (same.readLE (by decide)).trans flags⟩
  · by_cases last : j = n
    · subst last
      obtain ⟨d, data, pointer, -⟩ := tasks i before
      have room := data.frame.room
      have room' := done.data.frame.room
      rw [new, pointer, Ne, linearAddressToPtr_inj (by omega) (by omega)]
      rintro rfl
      exact data.live whole.task.1
    · exact h.distinct i j before (by omega)

/-- What the scheduler sees of them. -/
theorem TasksMade.executable (h : TasksMade K A s n task) {slot j : Nat} (bound : j < n)
    (filled : t.schedulingVector 0 slot = ⟨0, task j⟩) : executable (withTasks t s) slot = some (task j) := by
  obtain ⟨g, inv, tasks⟩ := h.inv
  obtain ⟨d, data, pointer, flags⟩ := tasks j bound
  have room := data.frame.room
  have positive : task j ≠ 0 := pointer ▸ linearAddressToPtr_ne_zero (by omega)
  have flags' : taskFlags (withTasks t s).mem (task j) = taskFlagMaskCanExecute := by
    rw [← flags, taskFlags, pointer, linearAddressToPtr_of_lt (by omega), Nat.add_assoc]
    exact readLE_translate s.mem 8 linearStart (d + Task.taskFlags)
  have entry : (withTasks t s).schedulingVector 0 slot = ⟨0, task j⟩ := filled
  rw [MetalToApp.executable, entry, getIfCanExecute, flags', if_pos ⟨positive, rfl⟩]

end slots

section boot
variable {K : KernelImage} {s s₀ : Kernel} {t : Scheduler} {a idleLoopTask : Nat} {infos : List InitrdInfo} {entries : List MmapInfo}
  {region : MmapInfo}

/-- In front of the loop there is no task. -/
theorem TasksMade.boot (boot : BootList K s.mem a entries region) (prepared : prepareBoot K s (kernelBase + a) = .ok (infos, s₀))
    (task : Nat → Nat) : ∃ A, TasksMade K A s₀ 0 task := by
  obtain ⟨m, tables, outside, run⟩ := prepareBoot_eq boot
  rw [prepared] at run
  split at run
  · cases run
    have booted := Booted.start_of_prepareBoot boot tables outside
    have bounded := booted.bounded
    obtain ⟨A, atFirst, atLast⟩ := booted.arena (e := 2 ^ 39) (by decide) bounded le_rfl
    obtain ⟨g, inv, -⟩ := booted.inv A atFirst (by omega)
    have finish : linearAddressToPtr A.last = linearEnd := by
      rw [atLast, linearAddressToPtr_of_lt (by decide)]
      rfl
    rw [finish] at inv
    exact ⟨A, booted.freelist, booted.start_le, ⟨g, inv, nofun⟩, nofun⟩
  · cases run

end boot

/-- What the boot reads in a block whose modules are the bytes from 0x1900000 on, all with the
same command line. -/
structure SameModules (m : Memory) (n modEnd : Nat) : Prop where
  count : modsCount m 0x1b00000 = n
  addr : modsAddr m 0x1b00000 = 0x1b00200
  mmap : readLE m 4 0x1b0002c = 24 ∧ readLE m 4 0x1b00030 = 0x1b00100 ∧ mmapInfoAt m 0x1b00100 = moduleRegion
  modules : ∀ i < n, bootModule m 0x1b00000 i = ⟨0x1900000, modEnd, 0x1b00400⟩

section same
variable {m : Memory} {n modEnd : Nat}

theorem SameModules.boot (same : SameModules m n modEnd) : BootList smallImage m 0x1b00000 [moduleRegion] moduleRegion := by
  obtain ⟨-, addr, ⟨length, start, entry⟩, -⟩ := same
  have low : ∀ t ∈ [smallImage.kernelPml4, smallImage.kernelPagedir, smallImage.kernelPagedirtable, smallImage.kernelLinear],
    t + 4096 ≤ 0x1400000 := by decide
  refine ⟨⟨by decide, ?_, ?_, by decide⟩, rfl, fun x place t table => Or.inr ((low t table).trans ?_)⟩
  · rw [length, start]
    decide
  · rw [length, start]
    exact .cons entry (by decide) .nil
  · rcases place with ⟨k, -, here⟩ | ⟨k, -, here⟩ | ⟨k, -, here⟩
    · omega
    · rw [start] at here
      omega
    · omega

theorem SameModules.away (same : SameModules m n modEnd) : TextsAway smallImage m 0x1b00000 := by
  have low : ∀ t ∈ [smallImage.kernelPml4, smallImage.kernelPagedir, smallImage.kernelPagedirtable, smallImage.kernelLinear],
    t + 4096 ≤ 0x1400000 := by decide
  refine ⟨Or.inr (by decide), Or.inr ?_, fun i bound => ?_⟩
  · rw [same.addr]
    decide
  · have apart {p : Nat} (above : 0x1900000 ≤ p) : OffScreen p (80 * 25 + 1) ∧
        ∀ t ∈ [smallImage.kernelPml4, smallImage.kernelPagedir, smallImage.kernelPagedirtable, smallImage.kernelLinear],
          p + (80 * 25 + 1) ≤ t ∨ t + 4096 ≤ p := by
      have screen : vgaBegin + 2 * (80 * 25) ≤ 0x1900000 := by decide
      exact ⟨Or.inr (by omega), fun t table => Or.inr ((low t table).trans (by omega))⟩
    rw [same.modules i (same.count ▸ bound)]
    exact List.forall_mem_cons.mpr ⟨apart (show 0x1900000 ≤ 0x1b00400 by decide), List.forall_mem_singleton.mpr (apart le_rfl)⟩

end same

end MetalToApp

import MetalToApp.BootWrites
import MetalToApp.ConsoleLog
import MetalToApp.Exceptions
import MetalToApp.LaunchRuns

namespace MetalToApp
open ByteMemory

@[simp] theorem emptyText_chars : emptyText.chars = [] := rfl

/-! One row of text after another. -/

/-- The message is the string, as far as anyone reads it. -/
def CString.At (string : CString) (message : Message) : Prop := ∀ k ≤ string.chars.length, message k = string.message k

theorem CString.at_self (string : CString) : string.At string.message := fun _ _ => rfl

theorem CString.At.terminated {string : CString} {message : Message} (here : string.At message) :
    message.Terminated string.chars.length := by
  obtain ⟨readable, terminated⟩ := string.terminated
  exact ⟨fun k inside => by rw [here k (by omega)]; exact readable k inside, by rw [here _ le_rfl]; exact terminated⟩

/-- The string of the `n` bytes at `a`. -/
def StringAt.string {m : Memory} {a n : Nat} (string : StringAt m a n) : CString where
  chars := (List.range n).map fun k => m (a + k)
  nonzero := by
    intro member
    obtain ⟨k, inside, zero⟩ := List.mem_map.mp member
    exact string.1 k (List.mem_range.mp inside) zero

/-- The kernel reads a string through the linear window. -/
theorem StringAt.at {s : Kernel} {a n : Nat} (string : StringAt s.mem a n) (room : a + n + 1 ≤ 2 ^ 39) :
    string.string.At (s.message (linearAddressToPtr a)) := by
  intro k inside
  have length : string.string.chars.length = n := by simp [StringAt.string]
  rw [length] at inside
  rw [Kernel.message_linear (by omega), CString.message]
  rcases inside.eq_or_lt with rfl | less
  · rw [List.getElem?_append_right (by omega), length, Nat.sub_self, List.getElem?_cons_zero, string.2]
  · rw [List.getElem?_append_left (by omega)]
    simp [StringAt.string, List.getElem?_range less]

section row
variable {c : Console} {message last : Message} {string ending : CString} {texts : List CString} {messages : List Message}

theorem CString.At.shown (here : string.At message) (offset : Nat) (text : Memory) :
    shown message offset string.chars.length text = MetalToApp.shown string.message offset string.chars.length text := by
  funext i
  unfold MetalToApp.shown
  split
  · rw [here _ (by omega)]
  · rfl

theorem Console.print_at (here : string.At message) (room : c.currentOffset + string.chars.length ≤ 80 * 25) :
    (c.print message).result = (c.print string.message).result := by
  rw [(Console.print_whole here.terminated (Or.inr room)).1, (Console.print_whole string.terminated (Or.inr room)).1,
    here.shown]

theorem Console.println_at (here : string.At message) (onScreen : c.currentOffset ≤ 80 * 25) (short : string.chars.length < 80) :
    (c.println message).result = (c.println string.message).result := by
  rw [Console.println_line here.terminated onScreen short, Console.println_line string.terminated onScreen short, here.shown]

/-- The strings one after the other. -/
def CString.concat : List CString → CString
  | [] => emptyText
  | string :: rest => string.append (concat rest)

/-- All the calls print one text. -/
theorem Output.prints_result (here : List.Forall₂ CString.At texts messages)
    (room : c.currentOffset + (CString.concat texts).chars.length ≤ 80 * 25) (start : c.currentOffset < 80 * 25) :
    (console.prints c (messages.map fun message _ => message)).result = (c.print (CString.concat texts).message).result := by
  induction here generalizing c with
  | nil =>
    have empty : (c.currentOffset + 0) % (80 * 25) = c.currentOffset := Nat.mod_eq_of_lt start
    rw [(Console.print_whole (CString.concat []).terminated (Or.inl rfl)).1]
    simp only [CString.concat, emptyText_chars, List.length_nil, shown_zero, empty, List.map_nil, prints, Traced.pure_result]
  | @cons string message texts messages here _ ih =>
    have length : (CString.concat (string :: texts)).chars.length = string.chars.length + (CString.concat texts).chars.length :=
      List.length_append
    have printed := (Console.print_whole (s := c) string.terminated (Or.inr (by omega))).1
    have after := Nat.mod_le (c.currentOffset + string.chars.length) (80 * 25)
    calc (console.prints c ((message :: messages).map fun message _ => message)).result
        = (c.print message).result >>= fun t => (console.prints t (messages.map fun message _ => message)).result :=
          Traced.bind_result
      _ = (c.print string.message).result >>= fun t => (console.prints t (messages.map fun message _ => message)).result := by
          rw [Console.print_at here (by omega)]
      _ = (c.print string.message).result >>= fun t => (t.print (CString.concat texts).message).result := by
          rw [printed, Outcome.ok_bind, Outcome.ok_bind]
          exact ih (by simp only; omega) (Nat.mod_lt _ (by decide))
      _ = (c.print (CString.concat (string :: texts)).message).result :=
          Console.print_print string (CString.concat texts) (length ▸ room)

/-- With a `println` at the end they print one line. -/
theorem Output.prints_println (here : List.Forall₂ CString.At texts messages)
    (room : c.currentOffset + (CString.concat texts).chars.length + ending.chars.length ≤ 80 * 25)
    (start : c.currentOffset < 80 * 25) :
    ((console.prints c (messages.map fun message _ => message)).result >>= fun t => (console.println t ending.pointer).result) =
      (c.println ((CString.concat texts).append ending).message).result := by
  have length : ((CString.concat texts).append ending).chars.length = (CString.concat texts).chars.length + ending.chars.length :=
    List.length_append
  have whole := Console.print_print (s := c) (CString.concat texts) ending (by rw [length]; omega)
  have last (t : Console) : (console.println t ending.pointer).result = (t.println ending.message).result := rfl
  simp only [last, prints_result here (by omega) start, Console.println_result, ← whole, bind_assoc]

end row

/-! The text of `setup_initrd`. -/

/-- The line about the number of modules. -/
def countChars (modsCount : Nat) : List UInt8 := literal "mod count: " ++ printhexBuffer (BitVec.ofNat 64 modsCount)

/-- The line about a module, with its command line and the text that its image begins with. -/
def moduleChars (q : BootModule) (commandLine image : List UInt8) : List UInt8 :=
  literal "mod addr:" ++ printhexBuffer (BitVec.ofNat 64 (linearAddressToPtr q.modStart)) ++ literal ", " ++
    printhexBuffer (BitVec.ofNat 64 (linearAddressToPtr q.modEnd)) ++ literal " : " ++ commandLine ++ literal " : " ++
    literal " \"" ++ image ++ literal "\""

/-- The first `n` bytes at an address. -/
def bytesAt (m : Memory) (a n : Nat) : List UInt8 := (List.range n).map fun k => m (a + k)

/-- All the lines, when command lines and images are texts of these lengths. -/
def bootText (m : Memory) (a : Nat) (length image : Nat → Nat) : List (List UInt8) :=
  countChars (modsCount m a) :: (List.range (modsCount m a)).map fun i =>
    moduleChars (bootModule m a i) (bytesAt m (bootModule m a i).string (length i)) (bytesAt m (bootModule m a i).modStart (image i))

def moduleTexts (q : BootModule) (commandLine image : CString) : List CString :=
  [modAddrText, hexString (BitVec.ofNat 64 (linearAddressToPtr q.modStart)), commaText,
    hexString (BitVec.ofNat 64 (linearAddressToPtr q.modEnd)), colonText, commandLine, colonText, openQuoteText, image]

theorem moduleTexts_chars (q : BootModule) (commandLine image : CString) :
    ((CString.concat (moduleTexts q commandLine image)).append closeQuoteText).chars =
      moduleChars q commandLine.chars image.chars := by
  simp [moduleTexts, CString.concat, CString.append, moduleChars, hexString, modAddrText, commaText, colonText, openQuoteText,
    closeQuoteText]

theorem moduleChars_length (q : BootModule) (commandLine image : List UInt8) :
    (moduleChars q commandLine image).length = 56 + commandLine.length + image.length := by
  simp only [moduleChars, List.length_append, printhexBuffer_length]
  have fixed : (literal "mod addr:").length = 9 ∧ (literal ", ").length = 2 ∧ (literal " : ").length = 3 ∧
      (literal " \"").length = 2 ∧ (literal "\"").length = 1 := by decide
  omega

/-- What stands in front of the command line. -/
def moduleFront (q : BootModule) : List (CString × BitVec 64) :=
  [(modAddrText, BitVec.ofNat 64 (linearAddressToPtr q.modStart)), (commaText, BitVec.ofNat 64 (linearAddressToPtr q.modEnd))]

theorem moduleChars_split (q : BootModule) (commandLine image : List UInt8) : moduleChars q commandLine image =
    reportChars (moduleFront q) ++
      (literal " : " ++ (commandLine ++ (literal " : " ++ (literal " \"" ++ (image ++ literal "\""))))) := by
  simp [moduleChars, reportChars, moduleFront, modAddrText, commaText]

theorem moduleFront_length (q : BootModule) : (reportChars (moduleFront q)).length = 47 := by
  rw [reportChars_length]
  rfl

theorem moduleChars_front (q : BootModule) (commandLine image : List UInt8) :
    (moduleChars q commandLine image).take 47 = reportChars (moduleFront q) := by
  rw [moduleChars_split, List.take_left' (moduleFront_length q)]

theorem readReport_moduleFront (q : BootModule) : readReport [literal "mod addr:", literal ", "] (reportChars (moduleFront q)) =
    some [linearAddressToPtr q.modStart, linearAddressToPtr q.modEnd] := by
  have read := readReport_reportChars (moduleFront q)
  simpa [moduleFront, modAddrText, commaText, linearAddressToPtr] using read

theorem moduleChars_commandLine (q : BootModule) {commandLine : List UInt8} (image : List UInt8) {n : Nat}
    (length : commandLine.length = n) : ((moduleChars q commandLine image).drop 50).take n = commandLine := by
  rw [moduleChars_split, ← List.append_assoc, List.drop_left' (by rw [List.length_append, moduleFront_length]; rfl),
    List.take_left' length]

namespace Booting
variable {c c' : Console} {s : Kernel} {q : BootModule} {a n r room : Nat} {length image : Nat → Nat}

/-- The calls about one module print a line, and the rest of the iteration is as without them. -/
theorem readModule_line {i : Nat} {commandLine image : CString} (read : MetalToApp.readModule s a i = .ok q.info) (onScreen : r < 25)
    (cursor : c.currentOffset = 80 * r) (first : commandLine.At (s.message q.info.commandLine))
    (second : image.At (s.message q.info.start)) (short : 56 + commandLine.chars.length + image.chars.length < 80) :
    ∃ line : Line, line.chars = moduleChars q commandLine.chars image.chars ∧
      (readModule .console c s a room i).result =
        (c.println line.message).result >>= fun c => (storeInfo room i).result >>= fun _ => .ok (q.info, c) := by
  let texts := moduleTexts q commandLine image
  let messages := modAddrText.message :: moduleMessages s q
  have chars : ((CString.concat texts).append closeQuoteText).chars = moduleChars q commandLine.chars image.chars :=
    moduleTexts_chars q commandLine image
  have length : (CString.concat texts).chars.length + closeQuoteText.chars.length =
      56 + commandLine.chars.length + image.chars.length := by
    rw [← moduleChars_length q, ← chars]
    exact List.length_append.symm
  have here : List.Forall₂ CString.At texts messages :=
    .cons (CString.at_self _) (.cons (CString.at_self _) (.cons (CString.at_self _) (.cons (CString.at_self _)
      (.cons (CString.at_self _) (.cons first (.cons (CString.at_self _) (.cons (CString.at_self _) (.cons second .nil))))))))
  refine ⟨⟨(CString.concat texts).append closeQuoteText, ?_⟩, chars, ?_⟩
  · rw [chars, moduleChars_length]
    omega
  · have load (d : Console) : MetalToApp.readModule (Output.console.memory d s) a i = .ok q.info := read
    calc (readModule .console c s a room i).result
        = ((Output.console.prints c (messages.map fun message _ => message)).result >>= fun d =>
            (Output.console.println d closeQuoteText.pointer).result) >>= fun d =>
              (storeInfo room i).result >>= fun _ => .ok (q.info, d) := by
          simp only [readModule, load, Traced.bind_result, Traced.silent_result, Outcome.ok_bind, Traced.pure_result, messages,
            List.map_cons, Output.prints, bind_assoc]
          rfl
      _ = _ := by rw [Output.prints_println here (by omega) (by omega)]

/-- The calls about the number of modules print a line. -/
theorem setupInitrd_line {multiboot modsCount addr : Nat} (atCount : s.load 4 (multiboot + 20) = .ok modsCount)
    (atAddr : s.load 4 (multiboot + 24) = .ok addr) (onScreen : r < 25) (cursor : c.currentOffset = 80 * r) (room : Nat) :
    ∃ line : Line, line.chars = countChars modsCount ∧ (setupInitrd .console c s multiboot room).result =
      (c.println line.message).result >>= fun c =>
        (readModules .console c s (linearAddressToPtr addr) room modsCount).result := by
  let texts : List CString := [modCountText, hexString (BitVec.ofNat 64 modsCount)]
  let messages := texts.map CString.message
  have chars : ((CString.concat texts).append emptyText).chars = countChars modsCount := by
    simp [texts, CString.concat, CString.append, countChars, hexString, modCountText]
  have length : (CString.concat texts).chars.length = 29 := by
    simp [texts, CString.concat, CString.append, hexString, printhexBuffer_length, modCountText, literal]
  have here : List.Forall₂ CString.At texts messages := .cons (CString.at_self _) (.cons (CString.at_self _) .nil)
  refine ⟨⟨(CString.concat texts).append emptyText, ?_⟩, chars, ?_⟩
  · have whole : ((CString.concat texts).append emptyText).chars.length = _ := List.length_append
    rw [whole, length]
    decide
  · have count (d : Console) : (Output.console.memory d s).load 4 (multiboot + 20) = .ok modsCount := atCount
    have list (d : Console) : (Output.console.memory d s).load 4 (multiboot + 24) = .ok addr := atAddr
    calc (setupInitrd .console c s multiboot room).result
        = ((Output.console.prints c (messages.map fun message _ => message)).result >>= fun d =>
            (Output.console.println d emptyText.pointer).result) >>= fun d =>
              (readModules .console d s (linearAddressToPtr addr) room modsCount).result := by
          simp only [setupInitrd, count, list, Traced.bind_result, Traced.silent_result, Outcome.ok_bind, Traced.pure_result,
            messages, texts, List.map_cons, List.map_nil, Output.prints, bind_assoc]
          rfl
      _ = _ := by rw [Output.prints_println here (by rw [length, emptyText_chars, List.length_nil]; omega) (by omega)]

/-- What the modules are to `setup_initrd`: texts that fit into a row. -/
structure Printable (m : Memory) (a : Nat) (length image : Nat → Nat) (i : Nat) : Prop where
  commandLine : StringAt m (bootModule m a i).string (length i)
  header : StringAt m (bootModule m a i).modStart (image i)
  inWindow : (bootModule m a i).string + length i + 1 ≤ 2 ^ 39 ∧ (bootModule m a i).modStart + image i + 1 ≤ 2 ^ 39
  short : 56 + length i + image i < 80

/-- Line by line, down to the last row but one. -/
theorem readModules_lines (printable : ∀ i < n, Printable s.mem a length image i) (bound : n ≤ room) (onScreen : r + n < 25)
    (small : n ≤ 2 ^ 32) (cursor : c.currentOffset = 80 * r) : ∃ lines : List Line, ∃ c',
      (readModules .console c s (linearAddressToPtr (modsAddr s.mem a)) room n).result =
        .ok ((List.range n).map fun i => (bootModule s.mem a i).info, c') ∧
      (lines.map fun line => line.chars) = (List.range n).map (fun i => moduleChars (bootModule s.mem a i)
        (bytesAt s.mem (bootModule s.mem a i).string (length i)) (bytesAt s.mem (bootModule s.mem a i).modStart (image i))) ∧
      c.printLines lines = .ok c' ∧ c'.currentOffset = 80 * (r + n) := by
  induction n with
  | zero => exact ⟨[], c, rfl, rfl, rfl, cursor⟩
  | succ i ih =>
    obtain ⟨lines, c', read, chars, printed, cursor'⟩ := ih (fun j before => printable j (by omega)) (by omega) (by omega)
      (by omega)
    obtain ⟨commandLine, header, inWindow, short⟩ := printable i (Nat.lt_succ_self i)
    have lengths : commandLine.string.chars.length = length i ∧ header.string.chars.length = image i :=
      ⟨by simp [StringAt.string], by simp [StringAt.string]⟩
    have element := readModule_eq (s := s) (a := a) (i := i) (by omega)
    obtain ⟨line, lineChars, step⟩ := readModule_line (c := c') (q := bootModule s.mem a i) element (by omega) cursor'
      (commandLine.at inWindow.1) (header.at inWindow.2) (by omega)
    have lineLength : line.chars.length = 56 + length i + image i := by rw [lineChars, moduleChars_length, lengths.1, lengths.2]
    obtain ⟨d, next, last⟩ : ∃ d, (c'.println line.message).result = .ok d ∧ d.currentOffset = 80 * (r + (i + 1)) := by
      refine ⟨_, Console.println_line line.toCString.terminated (by omega) line.short.2, ?_⟩
      simp only [cursor']
      omega
    refine ⟨lines ++ [line], d, ?_, ?_, ?_, last⟩
    · rw [readModules, Traced.bind_result, read, Outcome.ok_bind, Traced.bind_result, step, next, Outcome.ok_bind,
        storeInfo_result, if_pos (show i < room from bound), List.range_succ, List.map_append, List.map_singleton]
      rfl
    · rw [List.map_append, chars, List.range_succ, List.map_append, List.map_singleton, List.map_singleton, lineChars]
      rfl
    · rw [Console.printLines_append, printed, Outcome.ok_bind, Console.printLines_singleton, next]

/-- What is printed does not change what the functions do. -/
theorem readModules_agrees {infos : List InitrdInfo} {moduleInfo : Nat}
    (run : (readModules .console c s moduleInfo room n).result = .ok (infos, c')) :
    MetalToApp.readModules s moduleInfo room n = .ok infos := by
  induction n generalizing infos c' with
  | zero =>
    cases run
    rfl
  | succ i ih =>
    rw [readModules, Traced.bind_result] at run
    obtain ⟨⟨before, d⟩, read, run⟩ := Outcome.bind_eq_ok.mp run
    simp only [readModule, Traced.bind_result, Traced.silent_result, bind_assoc] at run
    obtain ⟨_, -, run⟩ := Outcome.bind_eq_ok.mp run
    obtain ⟨info, element, run⟩ := Outcome.bind_eq_ok.mp run
    obtain ⟨_, -, run⟩ := Outcome.bind_eq_ok.mp run
    obtain ⟨_, -, run⟩ := Outcome.bind_eq_ok.mp run
    obtain ⟨_, stored, run⟩ := Outcome.bind_eq_ok.mp run
    have element : MetalToApp.readModule s moduleInfo i = .ok info := element
    rw [readModules_succ, ih read, Outcome.ok_bind, element, Outcome.ok_bind]
    rw [storeInfo_result] at stored
    split at stored
    · rename_i inside
      cases run
      rw [if_pos inside]
      rfl
    · cases stored

theorem cstart_agrees {K : KernelImage} {idleLoopTask multiboot : Nat} {t : Scheduler} {r : Scheduler × Kernel}
    (run : (cstart .console K idleLoopTask c t s multiboot).result = .ok (r, c')) :
    MetalToApp.cstart K idleLoopTask t s multiboot = .ok r := by
  simp only [cstart, prepareBoot, setupInitrd, Traced.bind_result, Traced.silent_result, bind_assoc] at run
  obtain ⟨⟨_, s₁⟩, tables, run⟩ := Outcome.bind_eq_ok.mp run
  obtain ⟨s₂, setup, run⟩ := Outcome.bind_eq_ok.mp run
  obtain ⟨_, -, run⟩ := Outcome.bind_eq_ok.mp run
  obtain ⟨count, atCount, run⟩ := Outcome.bind_eq_ok.mp run
  obtain ⟨_, -, run⟩ := Outcome.bind_eq_ok.mp run
  obtain ⟨_, -, run⟩ := Outcome.bind_eq_ok.mp run
  obtain ⟨addr, atAddr, run⟩ := Outcome.bind_eq_ok.mp run
  obtain ⟨⟨infos, d⟩, read, run⟩ := Outcome.bind_eq_ok.mp run
  simp only [Traced.pure_result, Outcome.ok_bind] at run
  obtain ⟨_, started, run⟩ := Outcome.bind_eq_ok.mp run
  cases run
  have atCount : s₂.load 4 (multiboot + 20) = .ok count := atCount
  have atAddr : s₂.load 4 (multiboot + 24) = .ok addr := atAddr
  rw [cstart_eq_bind, prepareBoot_eq_bind, tables, Outcome.ok_bind]
  dsimp only
  rw [setup, Outcome.ok_bind, setupInitrd_eq, atCount, Outcome.ok_bind, atAddr, Outcome.ok_bind, readModules_agrees read]
  exact started

end Booting

/-- The image of a module begins with a text, which fits into a row with all that is printed around it. -/
structure FitsRow (m : Memory) (q : BootModule) (length image : Nat) : Prop where
  header : StringAt m q.modStart image
  inside : image < q.size
  short : 56 + length + image < 80

section boot
variable {K : KernelImage} {s : Kernel} {a k o n : Nat} {entries : List MmapInfo} {region : MmapInfo}
  {length image : Nat → Nat} {text after : Memory} {lines : List (List UInt8)} {chars : List UInt8}

/-- In front of `setup_initrd` the texts are as the boot loader left them. -/
theorem BootInfo.printable {m : Memory} (boot : BootInfo K s.mem a entries region length)
    (outside : ∀ x, (∀ t ∈ [K.kernelPml4, K.kernelPagedir, K.kernelPagedirtable, K.kernelLinear], x < t ∨ t + 4096 ≤ x) →
      m x = s.mem x) (modules : ∀ i < modsCount s.mem a, bootModule m a i = bootModule s.mem a i)
    (rows : ∀ i < modsCount s.mem a, FitsRow s.mem (bootModule s.mem a i) (length i) (image i)) {i : Nat}
    (bound : i < modsCount s.mem a) :
    Booting.Printable m a length image i ∧
      bytesAt m (bootModule s.mem a i).string (length i) = bytesAt s.mem (bootModule s.mem a i).string (length i) ∧
      bytesAt m (bootModule s.mem a i).modStart (image i) = bytesAt s.mem (bootModule s.mem a i).modStart (image i) := by
  obtain ⟨header, inside, short⟩ := rows i bound
  have bootable := boot.bootable i bound
  have start : (bootModule s.mem a i).modStart < 2 ^ 32 := readLE_lt s.mem 4 _
  have commandLine : Agree s.mem m (bootModule s.mem a i).string (length i + 1) := fun k within =>
    outside _ (boot.outside _ (.commandLine bound (Nat.lt_succ_iff.mp within)))
  have front : Agree s.mem m (bootModule s.mem a i).modStart (image i + 1) := fun k within =>
    outside _ (boot.outside _ (.module bound (by omega)))
  have same := modules i bound
  refine ⟨⟨?_, ?_, ?_, short⟩, ?_, ?_⟩
  · rw [same]
    exact bootable.string.congr commandLine
  · rw [same]
    exact header.congr front
  · rw [same]
    have room := bootable.room
    omega
  · exact List.map_congr_left fun k member => commandLine k (by have := List.mem_range.mp member; omega)
  · exact List.map_congr_left fun k member => front k (by have := List.mem_range.mp member; omega)

/-- The boot prints its lines one after the other. -/
theorem cstart_lines (boot : BootInfo K s.mem a entries region length) (clear : ModulesClear K s.mem a region length)
    (rows : ∀ i < modsCount s.mem a, FitsRow s.mem (bootModule s.mem a i) (length i) (image i)) (idleLoopTask : Nat) (text : Memory)
    (t : Scheduler) : ∃ r c, (Booting.cstart .console K idleLoopTask ⟨text, 80⟩ t s (kernelBase + a)).result = .ok (r, c) ∧
      ∃ lines : List Line, (lines.map fun line => line.chars) = bootText s.mem a length image ∧
        Console.printLines ⟨text, 80⟩ lines = .ok c := by
  obtain ⟨m, tables, outside, created, setup, atAddr, atCount, count, modules⟩ := bootAllocator_spec boot.list
  rw [count] at atCount
  have few := clear.few
  obtain ⟨line, lineChars, step⟩ := Booting.setupInitrd_line (c := ⟨text, 80⟩) (r := 1) atCount atAddr (by decide) rfl 10
  obtain ⟨d, next, cursor⟩ : ∃ d, (Console.println ⟨text, 80⟩ line.message).result = .ok d ∧ d.currentOffset = 80 * 2 := by
    have short := line.short
    refine ⟨_, Console.println_line line.toCString.terminated (show 80 ≤ 80 * 25 by decide) line.short.2, ?_⟩
    simp only
    omega
  have printable := fun i bound => boot.printable outside modules rows (i := i) bound
  obtain ⟨lines, c, read, chars, printed, -⟩ := Booting.readModules_lines (c := d) (s := bootAllocator K s m region)
    (r := 2) (fun i bound => (printable i bound).1) few (by omega) (by omega) cursor
  let infos := (List.range (modsCount s.mem a)).map fun i => (bootModule m a i).info
  have read : (Booting.readModules .console d (bootAllocator K s m region) (linearAddressToPtr (modsAddr m a)) 10
      (modsCount s.mem a)).result = .ok (infos, c) := read
  have listed : (Booting.setupInitrd .console ⟨text, 80⟩ (bootAllocator K s m region) (kernelBase + a) 10).result =
      .ok (infos, c) := by rw [step, next, Outcome.ok_bind, read]
  have survives : Survives K idleLoopTask t s a length := clear.survives boot
  obtain ⟨t', s', ends⟩ := survives.ends
  have started : startProcesses K infos (initScheduler idleLoopTask t) (bootAllocator K s m region) infos.length = .ok (t', s') := by
    rw [cstart_eq_bind, prepareBoot_eq_bind, created, Outcome.ok_bind] at ends
    dsimp only at ends
    rw [setup, Outcome.ok_bind, setupInitrd_eq, atCount, Outcome.ok_bind, atAddr, Outcome.ok_bind,
      Booting.readModules_agrees read] at ends
    exact ends
  have started : (Booting.startProcesses K infos (initScheduler idleLoopTask t) (bootAllocator K s m region) infos.length).result =
      .ok (t', s') := started
  refine ⟨(t', s'), c, ?_, line :: lines, ?_, ?_⟩
  · simp only [Booting.cstart, Booting.prepareBoot, Traced.bind_result, Traced.silent_result, created, Outcome.ok_bind, setup,
      listed, Traced.pure_result, started]
  · rw [List.map_cons, lineChars, chars]
    refine congrArg (_ :: ·) (List.map_congr_left fun i member => ?_)
    obtain ⟨-, commandLine, header⟩ := printable i (List.mem_range.mp member)
    simp only [show (bootAllocator K s m region).mem = m from rfl, modules i (List.mem_range.mp member), commandLine, header]
  · rw [Console.printLines, List.foldlM_cons, next]
    exact printed

/-- A part of a row, as long as the lines do not come round. -/
theorem ShowsLines.read (shows : ShowsLines text lines after) (few : lines.length < 25) (found : lines[k]? = some chars)
    (short : chars.length ≤ 80) (inside : o + n ≤ chars.length) :
    screenChars after (80 * (k + 1) + o) n = (chars.drop o).take n := by
  obtain ⟨bound, -⟩ := List.getElem?_eq_some_iff.mp found
  refine List.ext_getElem (by simp [screenChars]; omega) fun j below _ => ?_
  have within : j < n := by simpa [screenChars] using below
  have character := (shows (k + 1) (by omega) (o + j) (by omega)).1
  rw [lastCharacter_of_few few.le bound, found, Option.bind_some, List.getElem?_eq_getElem (by omega), Option.getD_some,
    ← Nat.add_assoc] at character
  simp only [screenChars, List.getElem_map, List.getElem_range, List.getElem_take, List.getElem_drop]
  exact character

/-- The addresses and the command line of a module, read back from its row. -/
theorem ShowsLines.moduleRow {m : Memory} {i : Nat} (shows : ShowsLines text (bootText m a length image) after)
    (few : modsCount m a ≤ 10) (bound : i < modsCount m a) (short : 56 + length i + image i < 80) :
    readReport [literal "mod addr:", literal ", "] (screenChars after (80 * (i + 2)) 47) =
        some [linearAddressToPtr (bootModule m a i).modStart, linearAddressToPtr (bootModule m a i).modEnd] ∧
      screenChars after (80 * (i + 2) + 50) (length i) = bytesAt m (bootModule m a i).string (length i) := by
  let q := bootModule m a i
  let commandLine := bytesAt m q.string (length i)
  let header := bytesAt m q.modStart (image i)
  have lengths : commandLine.length = length i ∧ header.length = image i := by simp [commandLine, header, bytesAt]
  have found : (bootText m a length image)[i + 1]? = some (moduleChars q commandLine header) := by
    rw [bootText, List.getElem?_cons_succ, List.getElem?_map, List.getElem?_range bound]
    rfl
  have whole := moduleChars_length q commandLine header
  have lines : (bootText m a length image).length < 25 := by
    simp only [bootText, List.length_cons, List.length_map, List.length_range]
    omega
  have part {o n : Nat} (inside : o + n ≤ 56 + length i) := shows.read (o := o) (n := n) lines found (by omega) (by omega)
  constructor
  · have front : screenChars after (80 * (i + 2)) 47 = ((moduleChars q commandLine header).drop 0).take 47 :=
      part (o := 0) (by omega)
    rw [front, List.drop_zero, moduleChars_front, readReport_moduleFront]
  · rw [part (by omega), moduleChars_commandLine _ _ lengths.1]

/-- The boot comes to `idle_loop` with a line for the modules and one for each of them on the
screen, from which the addresses and the command lines are read back. The modules are programs
that the frames of the boot stay clear of, and each of their texts fits into its row. -/
theorem cstart_prints (boot : BootInfo K s.mem a entries region length) (clear : ModulesClear K s.mem a region length)
    (rows : ∀ i < modsCount s.mem a, FitsRow s.mem (bootModule s.mem a i) (length i) (image i)) (idleLoopTask : Nat)
    (text : Memory) (t : Scheduler) :
    ∃ r c, (Booting.cstart .console K idleLoopTask ⟨text, 80⟩ t s (kernelBase + a)).result = .ok (r, c) ∧
      cstart K idleLoopTask t s (kernelBase + a) = .ok r ∧ c.currentOffset = 80 * (modsCount s.mem a + 2) ∧
      ShowsLines text (bootText s.mem a length image) c.text ∧
      ∀ i < modsCount s.mem a,
        readReport [literal "mod addr:", literal ", "] (screenChars c.text (80 * (i + 2)) 47) =
          some [linearAddressToPtr (bootModule s.mem a i).modStart, linearAddressToPtr (bootModule s.mem a i).modEnd] ∧
        screenChars c.text (80 * (i + 2) + 50) (length i) = bytesAt s.mem (bootModule s.mem a i).string (length i) := by
  obtain ⟨r, c, run, lines, chars, printed⟩ := cstart_lines boot clear rows idleLoopTask text t
  have few := clear.few
  obtain ⟨c', printed', cursor, shows⟩ := Console.printLines_shows text lines
  cases printed.symm.trans printed'
  rw [chars] at shows
  have number : lines.length = modsCount s.mem a + 1 := by
    have lengths := congrArg List.length chars
    simpa [bootText] using lengths
  refine ⟨r, c, run, Booting.cstart_agrees run, ?_, shows, fun i bound => ?_⟩
  · rw [cursor, number, lineRow]
    omega
  · exact shows.moduleRow few bound (rows i bound).short

theorem pairInfo_rows : ∀ i < modsCount pairInfo 0x1b00000, FitsRow pairInfo (bootModule pairInfo 0x1b00000 i) (pairLength i) 7 := by
  intro i bound
  have magic : StringAt pairInfo 0x1900000 7 := ⟨by decide, by decide⟩
  rw [pairInfo_count] at bound
  rw [pairInfo_module i bound]
  have short := pairLength_le i
  exact ⟨magic, show 7 < 0x19000b1 - 0x1900000 by decide, by omega⟩

theorem cstart_prints_pair : ∃ r c, (Booting.cstart .console smallImage smallLayout.idleLoopTask ⟨fun _ => 0, 80⟩ (noTasks pairInfo)
    ⟨pairInfo, 0, 0, 0⟩ (kernelBase + 0x1b00000)).result = .ok (r, c) ∧ c.currentOffset = 80 * 4 ∧
    readReport [literal "mod addr:", literal ", "] (screenChars c.text (80 * (1 + 2)) 47) =
      some [linearAddressToPtr 0x1900000, linearAddressToPtr 0x19000b1] ∧
    screenChars c.text (80 * (0 + 2) + 50) 5 = literal "alice" ∧ screenChars c.text (80 * (1 + 2) + 50) 3 = literal "bob" := by
  obtain ⟨r, c, run, -, cursor, -, rows⟩ := cstart_prints (s := ⟨pairInfo, 0, 0, 0⟩) pairInfo_boot pairInfo_clear
    pairInfo_rows smallLayout.idleLoopTask (fun _ => 0) (noTasks pairInfo)
  have first := (rows 0 (by rw [pairInfo_count]; decide)).2
  have second := rows 1 (by rw [pairInfo_count]; decide)
  rw [pairInfo_module 0 (by decide)] at first
  rw [pairInfo_module 1 (by decide)] at second
  have alice : bytesAt pairInfo 0x1b00300 5 = literal "alice" := by decide
  have bob : bytesAt pairInfo 0x1b00340 3 = literal "bob" := by decide
  exact ⟨r, c, run, cursor.trans (congrArg (fun n => 80 * (n + 2)) pairInfo_count), second.1, first.trans alice, second.2.trans bob⟩

end boot

end MetalToApp

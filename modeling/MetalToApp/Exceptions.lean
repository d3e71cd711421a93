import MetalToApp.ConsoleRuns
import MetalToApp.Interrupts

namespace MetalToApp
open ByteMemory

namespace Console

/-- Texts, each with a number behind it. -/
def printNumbers (s : Console) : List (CString × BitVec 64) → Traced ConsoleAccess Halt Console
  | [] => return s
  | (text, number) :: rest => do
    let s ← s.print text.message
    let s ← s.printhex number
    printNumbers s rest

/-- What most exception handlers do before they halt. -/
def report (s : Console) (numbers : List (CString × BitVec 64)) : Traced ConsoleAccess Halt Console := do
  let s ← s.printNumbers numbers
  s.println (CString.mk [] List.not_mem_nil).message

end Console

/-! The handlers, up to the `hlt` in which all of them end. -/

def invalidOpcode (s : Console) (rip : BitVec 64) : Traced ConsoleAccess Halt Console :=
  s.report [(⟨literal "Invalid opcode at 0x", by decide⟩, rip)]

def doubleFault (s : Console) : Traced ConsoleAccess Halt Console :=
  s.println (CString.mk (literal "Double fault!") (by decide)).message

def invalidTss (s : Console) (errorCode : BitVec 64) : Traced ConsoleAccess Halt Console :=
  s.report [(⟨literal "Invalid TSS code 0x", by decide⟩, errorCode)]

def segmentNotPresent (s : Console) (errorCode : BitVec 64) : Traced ConsoleAccess Halt Console :=
  s.report [(⟨literal "Segment not present fault code 0x", by decide⟩, errorCode)]

def stackSegmentFault (s : Console) (errorCode : BitVec 64) : Traced ConsoleAccess Halt Console :=
  s.report [(⟨literal "Stack-Segment Fault code 0x", by decide⟩, errorCode)]

def generalProtection (s : Console) (errorCode : BitVec 64) : Traced ConsoleAccess Halt Console :=
  s.report [(⟨literal "General protection fault code 0x", by decide⟩, errorCode)]

/-- `page_fault` after `handle_dynamic_fault` has returned false. -/
def pageFaultReport (s : Console) (errorCode address rip : BitVec 64) : Traced ConsoleAccess Halt Console :=
  s.report [(⟨literal "Page fault code 0x", by decide⟩, errorCode), (⟨literal ", address 0x", by decide⟩, address),
    (⟨literal ", instruction: 0x", by decide⟩, rip)]

def alignmentCheck (s : Console) (errorCode : BitVec 64) : Traced ConsoleAccess Halt Console :=
  s.report [(⟨literal "Alignment check failed code 0x", by decide⟩, errorCode)]

/-- What a handler that reports numbers prints, and the numbers. -/
def Handler.prints (s : Console) (errorCode address rip : BitVec 64) :
    Handler → Option (Traced ConsoleAccess Halt Console × List (BitVec 64))
  | .invalidOpcode => some (MetalToApp.invalidOpcode s rip, [rip])
  | .invalidTss => some (MetalToApp.invalidTss s errorCode, [errorCode])
  | .segmentNotPresent => some (MetalToApp.segmentNotPresent s errorCode, [errorCode])
  | .stackSegmentFault => some (MetalToApp.stackSegmentFault s errorCode, [errorCode])
  | .generalProtection => some (MetalToApp.generalProtection s errorCode, [errorCode])
  | .pageFault => some (pageFaultReport s errorCode address rip, [errorCode, address, rip])
  | .alignmentCheck => some (MetalToApp.alignmentCheck s errorCode, [errorCode])
  | _ => none

/-- The characters of a report. -/
def reportChars (numbers : List (CString × BitVec 64)) : List UInt8 :=
  numbers.flatMap fun entry => entry.1.chars ++ printhexBuffer entry.2

/-- The number that a reader makes of 16 hexadecimal digits. -/
def readDigit (c : UInt8) : Option Nat :=
  if 48 ≤ c.toNat ∧ c.toNat ≤ 57 then some (c.toNat - 48)
  else if 97 ≤ c.toNat ∧ c.toNat ≤ 102 then some (c.toNat - 97 + 10) else none

def readHex (digits : List UInt8) : Option Nat :=
  digits.foldl (fun value c => value.bind fun v => (readDigit c).map (16 * v + ·)) (some 0)

/-- A reader who knows the texts finds the numbers between them. -/
def readReport : List (List UInt8) → List UInt8 → Option (List Nat)
  | [], chars => if chars = [] then some [] else none
  | text :: texts, chars => do
    let rest ← if text.isPrefixOf chars then some (chars.drop text.length) else none
    let digits ← if [48, 120].isPrefixOf rest then some (rest.drop 2) else none
    let number ← readHex (digits.take 16)
    let numbers ← readReport texts (digits.drop 16)
    return number :: numbers

/-- The characters of the screen from a cell on. -/
def screenChars (text : Memory) (cell n : Nat) : List UInt8 := (List.range n).map fun k => text (2 * (cell + k))

theorem readDigit_hexDigit : ∀ nibble < 16, readDigit (hexDigit nibble) = some nibble := by decide

theorem readHex_append_digit {digits : List UInt8} {value nibble : Nat} (read : readHex digits = some value) (small : nibble < 16) :
    readHex (digits ++ [hexDigit nibble]) = some (16 * value + nibble) := by
  rw [readHex, List.foldl_append, ← readHex, read]
  simp [readDigit_hexDigit nibble small]

/-- The first `k` of the digits stand for the number without its last `16 - k` nibbles. -/
theorem readHex_digits (number : BitVec 64) {k : Nat} (bound : k ≤ 16) :
    readHex ((List.range k).map fun n => hexDigit (number.toNat >>> (4 * (15 - n)) &&& 0xf)) =
      some (number.toNat >>> (4 * (16 - k))) := by
  induction k with
  | zero =>
    have small := number.isLt
    have none : number.toNat >>> 64 = 0 := by
      rw [Nat.shiftRight_eq_div_pow]
      omega
    rw [none]
    rfl
  | succ k ih =>
    rw [List.range_succ, List.map_append, List.map_singleton, readHex_append_digit (ih (by omega)) (nibble_lt _ _)]
    have mask (n : Nat) : n &&& 0xf = n % 16 := Nat.and_two_pow_sub_one_eq_mod n 4
    have less : 4 * (16 - k) = 4 * (16 - (k + 1)) + 4 := by omega
    rw [show 15 - k = 16 - (k + 1) by omega, mask, less, Nat.shiftRight_add, Nat.shiftRight_eq_div_pow _ 4]
    congr 1
    omega

/-- What a report says is read back from it. -/
theorem readReport_reportChars (numbers : List (CString × BitVec 64)) :
    readReport (numbers.map fun entry => entry.1.chars) (reportChars numbers) =
      some (numbers.map fun entry => entry.2.toNat) := by
  induction numbers with
  | nil => rfl
  | cons entry numbers ih =>
    obtain ⟨text, number⟩ := entry
    let digits := (List.range 16).map fun n => hexDigit (number.toNat >>> (4 * (15 - n)) &&& 0xf)
    have chars : reportChars ((text, number) :: numbers) = text.chars ++ ([48, 120] ++ (digits ++ reportChars numbers)) := by
      simp [reportChars, printhexBuffer, digits]
    have length : digits.length = 16 := by simp [digits]
    have read : readHex digits = some number.toNat := readHex_digits number le_rfl
    have front (l rest : List UInt8) : l.isPrefixOf (l ++ rest) = true := List.isPrefixOf_iff_prefix.mpr (List.prefix_append l rest)
    simp only [List.map_cons, readReport, chars, front, if_true, List.drop_left, Option.bind_eq_bind, Option.bind_some]
    rw [show (([48, 120] : List UInt8) ++ (digits ++ reportChars numbers)).drop 2 = digits ++ reportChars numbers from rfl,
      List.take_left' length, List.drop_left' length, read, ih]
    rfl

def CString.append (a b : CString) : CString where
  chars := a.chars ++ b.chars
  nonzero := fun member => (List.mem_append.mp member).elim a.nonzero b.nonzero

theorem CString.message_append_left {a b : CString} {k : Nat} (inside : k < a.chars.length) :
    (a.append b).message k = a.message k := by
  rw [message, message, append, List.append_assoc, List.getElem?_append_left inside, List.getElem?_append_left inside]

theorem CString.message_append_right (a b : CString) (k : Nat) : (a.append b).message (a.chars.length + k) = b.message k := by
  rw [message, message, append, List.append_assoc, List.getElem?_append_right (Nat.le_add_right _ _), Nat.add_sub_cancel_left]

/-- A text behind another one is shown behind it. -/
theorem shown_append (a b : CString) (offset : Nat) (text : Memory) :
    shown b.message (offset + a.chars.length) b.chars.length (shown a.message offset a.chars.length text) =
      shown (a.append b).message offset (a.append b).chars.length text := by
  have length : (a.append b).chars.length = a.chars.length + b.chars.length := List.length_append
  funext i
  rw [shown, shown, shown, length]
  by_cases second : 2 * (offset + a.chars.length) ≤ i ∧ i < 2 * (offset + a.chars.length + b.chars.length)
  · have whole : 2 * offset ≤ i ∧ i < 2 * (offset + (a.chars.length + b.chars.length)) := by omega
    rw [if_pos second, if_pos whole]
    have place : i / 2 - offset = a.chars.length + (i / 2 - (offset + a.chars.length)) := by omega
    rw [place, CString.message_append_right]
  · rw [if_neg second]
    by_cases first : 2 * offset ≤ i ∧ i < 2 * (offset + a.chars.length)
    · have whole : 2 * offset ≤ i ∧ i < 2 * (offset + (a.chars.length + b.chars.length)) := by omega
      have inside : i / 2 - offset < a.chars.length := by omega
      rw [if_pos first, if_pos whole, CString.message_append_left inside]
    · rw [if_neg first, if_neg (by omega)]

variable {s : Console}

/-- Two texts printed one after the other are one text, as long as they fit. -/
theorem Console.print_print (a b : CString) (room : s.currentOffset + (a.append b).chars.length ≤ 80 * 25) :
    ((s.print a.message).result >>= fun t => (t.print b.message).result) = (s.print (a.append b).message).result := by
  have length : (a.append b).chars.length = a.chars.length + b.chars.length := List.length_append
  rw [(print_whole a.terminated (Or.inr (by omega))).1, (print_whole (a.append b).terminated (Or.inr room)).1, Outcome.ok_bind]
  by_cases empty : b.chars.length = 0
  · rw [(print_whole b.terminated (Or.inl empty)).1, empty, shown_zero, ← shown_append, empty, shown_zero, length, empty]
    simp
  · have wrapped : (s.currentOffset + a.chars.length) % (80 * 25) = s.currentOffset + a.chars.length := Nat.mod_eq_of_lt (by omega)
    rw [wrapped, (print_whole b.terminated (Or.inr (by simp only; omega))).1, shown_append, length, Nat.add_assoc]

theorem reportChars_nonzero (numbers : List (CString × BitVec 64)) : 0 ∉ reportChars numbers := by
  intro member
  obtain ⟨entry, -, inside⟩ := List.mem_flatMap.mp member
  exact (List.mem_append.mp inside).elim entry.1.nonzero (printhexBuffer_nonzero entry.2)

def reportString (numbers : List (CString × BitVec 64)) : CString := ⟨reportChars numbers, reportChars_nonzero numbers⟩

/-- All the calls of a report print one text. -/
theorem Console.printNumbers_result (numbers : List (CString × BitVec 64))
    (room : s.currentOffset + (reportChars numbers).length ≤ 80 * 25) (start : s.currentOffset < 80 * 25) :
    (s.printNumbers numbers).result = (s.print (reportString numbers).message).result := by
  induction numbers generalizing s with
  | nil =>
    have empty : (s.currentOffset + 0) % (80 * 25) = s.currentOffset := Nat.mod_eq_of_lt start
    rw [(print_whole (reportString []).terminated (Or.inl rfl)).1]
    simp only [reportString, reportChars, List.flatMap_nil, List.length_nil, shown_zero, empty, printNumbers, Traced.pure_result]
  | cons entry numbers ih =>
    obtain ⟨text, number⟩ := entry
    let head := text.append (hexString number)
    have split : reportString ((text, number) :: numbers) = head.append (reportString numbers) := rfl
    have length : (reportChars ((text, number) :: numbers)).length = head.chars.length + (reportChars numbers).length :=
      List.length_append
    have printed := (print_whole (s := s) head.terminated (Or.inr (by omega))).1
    have after := Nat.mod_le (s.currentOffset + head.chars.length) (80 * 25)
    calc (s.printNumbers ((text, number) :: numbers)).result
        = ((s.print text.message).result >>= fun t => (t.print (hexString number).message).result) >>=
            fun u => (u.printNumbers numbers).result := by
          simp only [printNumbers, printhex, Traced.bind_result, bind_assoc]
      _ = (s.print head.message).result >>= fun u => (u.printNumbers numbers).result := by
          rw [print_print text (hexString number) (show s.currentOffset + head.chars.length ≤ 80 * 25 by omega)]
      _ = (s.print head.message).result >>= fun u => (u.print (reportString numbers).message).result := by
          rw [printed, Outcome.ok_bind, Outcome.ok_bind]
          exact ih (by simp only; omega) (Nat.mod_lt _ (by decide))
      _ = (s.print (reportString ((text, number) :: numbers)).message).result := by
          rw [split]
          exact print_print head (reportString numbers) (length ▸ room)

theorem screenChars_shown (string : CString) (cell : Nat) (text : Memory) :
    screenChars (shown string.message cell string.chars.length text) cell string.chars.length = string.chars := by
  refine List.ext_getElem (by simp [screenChars]) fun k inside bound => ?_
  have character := string.terminated.readable k bound
  simp only [screenChars, List.getElem_map, List.getElem_range]
  have cell' : 2 * (cell + k) / 2 - cell = k := by omega
  have here : string.message k = some string.chars[k] := by
    rw [CString.message, List.getElem?_append_left bound, List.getElem?_eq_getElem bound]
  rw [shown, if_pos (by omega), if_pos (by omega), cell', here]
  rfl

/-- What a report of `n` characters leaves behind: the numbers to be read back from the
cursor on, all else as it was, and the cursor at the start of a row. -/
structure Reported (s t : Console) (texts : List (List UInt8)) (numbers : List (BitVec 64)) (n : Nat) : Prop where
  readsBack : readReport texts (screenChars t.text s.currentOffset n) = some (numbers.map BitVec.toNat)
  rest : ∀ i, i < 2 * s.currentOffset ∨ 2 * (s.currentOffset + n) ≤ i → t.text i = s.text i
  row : t.currentOffset % 80 = 0

/-- The cells that texts take with a number behind each of them. -/
def reportLength (texts : List (List UInt8)) : Nat := (texts.map fun text => text.length + 18).sum

theorem reportChars_length (numbers : List (CString × BitVec 64)) :
    (reportChars numbers).length = reportLength (numbers.map fun entry => entry.1.chars) := by
  induction numbers with
  | nil => rfl
  | cons entry numbers ih =>
    rw [reportChars, List.flatMap_cons, List.length_append, ← reportChars, ih, List.length_append, printhexBuffer_length]
    rfl

theorem report_readsBack (numbers : List (CString × BitVec 64)) (some : numbers ≠ [])
    (room : s.currentOffset + reportLength (numbers.map fun entry => entry.1.chars) ≤ 80 * 25) :
    ∃ t, (s.report numbers).result = .ok t ∧ Reported s t (numbers.map fun entry => entry.1.chars)
      (numbers.map fun entry => entry.2) (reportLength (numbers.map fun entry => entry.1.chars)) := by
  rw [← reportChars_length] at room ⊢
  have start : s.currentOffset < 80 * 25 := by
    obtain ⟨entry, rest, rfl⟩ := List.exists_cons_of_ne_nil some
    rw [reportChars, List.flatMap_cons, List.length_append, List.length_append, printhexBuffer_length] at room
    omega
  let empty : CString := ⟨[], List.not_mem_nil⟩
  have printed := Console.printNumbers_result numbers room start
  rw [(Console.print_whole (reportString numbers).terminated (Or.inr room)).1] at printed
  let last := (reportString numbers).chars.length
  let u : Console := ⟨shown (reportString numbers).message s.currentOffset last s.text, (s.currentOffset + last) % (80 * 25)⟩
  have ended := Console.println_whole (s := u) empty.terminated (Or.inl rfl)
  have whole : (s.report numbers).result = (u.println empty.message).result := by
    rw [Console.report, Traced.bind_result, printed]
    rfl
  refine ⟨_, whole.trans ended, ?_, fun i outside => ?_, Nat.mul_mod_left _ _⟩
  · simp only [u, last, empty, List.length_nil, shown_zero]
    rw [show (reportChars numbers).length = (reportString numbers).chars.length from rfl, screenChars_shown]
    exact (readReport_reportChars numbers).trans (by rw [List.map_map]; rfl)
  · simp only [u, last, empty, List.length_nil, shown_zero]
    exact if_neg (by simp only [reportString]; omega)

/-- The texts of the handlers that report numbers. -/
def Handler.texts : Handler → List (List UInt8)
  | .invalidOpcode => [literal "Invalid opcode at 0x"]
  | .invalidTss => [literal "Invalid TSS code 0x"]
  | .segmentNotPresent => [literal "Segment not present fault code 0x"]
  | .stackSegmentFault => [literal "Stack-Segment Fault code 0x"]
  | .generalProtection => [literal "General protection fault code 0x"]
  | .pageFault => [literal "Page fault code 0x", literal ", address 0x", literal ", instruction: 0x"]
  | .alignmentCheck => [literal "Alignment check failed code 0x"]
  | _ => []

/-- All the numbers of an exception can be read off the screen when the handler halts, if
its text fits behind the cursor. The numbers and what was on the screen are arbitrary. -/
theorem exceptions_readBack {h : Handler} {errorCode address rip : BitVec 64} {printed : Traced ConsoleAccess Halt Console}
    {numbers : List (BitVec 64)} (prints : h.prints s errorCode address rip = some (printed, numbers))
    (room : s.currentOffset + reportLength h.texts ≤ 80 * 25) :
    ∃ t, printed.result = .ok t ∧ Reported s t h.texts numbers (reportLength h.texts) := by
  cases h with
  | invalidOpcode =>
    cases prints
    exact report_readsBack [(⟨_, by decide⟩, rip)] (by simp) room
  | invalidTss =>
    cases prints
    exact report_readsBack [(⟨_, by decide⟩, errorCode)] (by simp) room
  | segmentNotPresent =>
    cases prints
    exact report_readsBack [(⟨_, by decide⟩, errorCode)] (by simp) room
  | stackSegmentFault =>
    cases prints
    exact report_readsBack [(⟨_, by decide⟩, errorCode)] (by simp) room
  | generalProtection =>
    cases prints
    exact report_readsBack [(⟨_, by decide⟩, errorCode)] (by simp) room
  | pageFault =>
    cases prints
    exact report_readsBack [(⟨_, by decide⟩, errorCode), (⟨_, by decide⟩, address), (⟨_, by decide⟩, rip)] (by simp) room
  | alignmentCheck =>
    cases prints
    exact report_readsBack [(⟨_, by decide⟩, errorCode)] (by simp) room
  | doubleFault => cases prints
  | irq n => cases prints
  | ihPanic => cases prints
  | asmReschedule => cases prints

theorem exceptions_readBack_small : ∃ t,
    (pageFaultReport ⟨fun _ => 0, 160⟩ 6 0xdeadb000 0x401000).result = .ok t ∧
      Reported ⟨fun _ => 0, 160⟩ t (Handler.texts .pageFault) [6, 0xdeadb000, 0x401000] (reportLength (Handler.texts .pageFault)) :=
  exceptions_readBack (s := ⟨fun _ => 0, 160⟩) (h := .pageFault) rfl (by decide)

end MetalToApp

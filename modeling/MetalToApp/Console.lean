import MetalToApp.Memory
import MetalToApp.Library.Traced

namespace MetalToApp
open ByteMemory

/-- What printing does to memory: it reads `message[index]`, or it writes the byte at
`vga_begin[index]`. -/
inductive ConsoleAccess
  | read (index : Nat)
  | write (index : Nat)
deriving DecidableEq, Repr

/-- The bytes at a `char*` as the kernel can read them; `none` is a page fault. -/
abbrev Message := Nat → Option UInt8

/-- A `char*`: what it gives depends on video memory where it leads into it. -/
abbrev Pointer := Memory → Message

/-- The offset of `vga_begin` in the kernel window. -/
def vgaBegin : Nat := 0xB8000

/-- Video memory from `vga_begin` on, and the cursor. -/
structure Console where
  text : Memory
  currentOffset : Nat

def readMessage (message : Message) (index : Nat) : Traced ConsoleAccess Halt UInt8 :=
  ([.read index], match message index with
    | some c => .ok c
    | none => .error .fault)

/-- The store goes through the kernel window, which ends at 32M. -/
def writeText (text : Memory) (index : Nat) (value : UInt8) : Traced ConsoleAccess Halt Memory :=
  ([.write index], if vgaBegin + index < kernelMapped then .ok (set text index value) else .error .fault)

def cwriteFrom (pointer : Pointer) (screenOffset : Nat) : Nat → Memory → Nat → Traced ConsoleAccess Halt (Memory × Nat)
  | 0, _, _ => Traced.silent (.error .fault)
  | fuel + 1, text, written => do
    let c ← readMessage (pointer text) written
    if c = 0 then return (text, written)
    let text ← writeText text (2 * screenOffset + written * 2) c
    let text ← writeText text (2 * screenOffset + written * 2 + 1) 0xf
    cwriteFrom pointer screenOffset fuel text (written + 1)

/-- A message without a NUL leaves the kernel window before the fuel is used up. -/
def cwrite (text : Memory) (screenOffset : Nat) (pointer : Pointer) : Traced ConsoleAccess Halt (Memory × Nat) :=
  cwriteFrom pointer screenOffset kernelMapped text 0

namespace Console

/-- `print` of any pointer, video memory included. -/
def printFrom (s : Console) (pointer : Pointer) : Traced ConsoleAccess Halt Console := do
  let (text, writtenChars) ← cwrite s.text s.currentOffset pointer
  return { text := text, currentOffset := (s.currentOffset + writtenChars) % (80 * 25) }

def printlnFrom (s : Console) (pointer : Pointer) : Traced ConsoleAccess Halt Console := do
  let s ← s.printFrom pointer
  return { s with currentOffset := (s.currentOffset + 79) / 80 * 80 }

/-- `print` of a string that does not lie in video memory. -/
def print (s : Console) (message : Message) : Traced ConsoleAccess Halt Console := s.printFrom fun _ => message

def println (s : Console) (message : Message) : Traced ConsoleAccess Halt Console := s.printlnFrom fun _ => message

end Console

/-- The message holds `n` characters before its first NUL, all of them readable. -/
structure Message.Terminated (message : Message) (n : Nat) : Prop where
  readable : ∀ k < n, ∃ c, message k = some c ∧ c ≠ 0
  terminated : message n = some 0

/-! Strings of the source, and numbers. -/

/-- A NUL-terminated string of any length, by its characters before the NUL. -/
structure CString where
  chars : List UInt8
  nonzero : 0 ∉ chars

def CString.message (string : CString) : Message := fun k => (string.chars ++ [0])[k]?

def CString.pointer (string : CString) : Pointer := fun _ => string.message

theorem CString.terminated (string : CString) : string.message.Terminated string.chars.length := by
  refine ⟨fun k inside => ⟨string.chars[k], ?_, fun zero => ?_⟩, ?_⟩
  · rw [message, List.getElem?_append_left inside, List.getElem?_eq_getElem inside]
  · exact string.nonzero (zero ▸ List.getElem_mem inside)
  · rw [message, List.getElem?_append_right le_rfl, Nat.sub_self, List.getElem?_cons_zero]

/-- A string literal of the source. -/
def literal (text : String) : List UInt8 := text.toList.map fun c => UInt8.ofNat c.toNat

/-- The character that `printhex` makes of a nibble: `nibbleN + '0'`, or from 10 on
`nibbleN - 10 + 'a'`. -/
def hexDigit (nibble : Nat) : UInt8 :=
  if nibble > 9 then UInt8.ofNat (nibble - 10 + 97) else UInt8.ofNat (nibble + 48)

/-- The buffer of `printhex` before its NUL. -/
def printhexBuffer (number : BitVec 64) : List UInt8 :=
  ([48, 120] : List UInt8) ++ (List.range 16).map fun n => hexDigit (number.toNat >>> (4 * (15 - n)) &&& 0xf)

theorem hexDigit_nonzero : ∀ nibble < 16, hexDigit nibble ≠ 0 := by decide

theorem nibble_lt (n k : Nat) : n >>> k &&& 0xf < 16 := Nat.lt_succ_of_le Nat.and_le_right

theorem printhexBuffer_length (number : BitVec 64) : (printhexBuffer number).length = 18 := by simp [printhexBuffer]

theorem printhexBuffer_nonzero (number : BitVec 64) : 0 ∉ printhexBuffer number := by
  simp only [printhexBuffer, List.mem_append, List.mem_map, not_or, not_exists, not_and]
  exact ⟨by decide, fun n _ zero => hexDigit_nonzero _ (nibble_lt _ _) zero⟩

def hexString (number : BitVec 64) : CString := ⟨printhexBuffer number, printhexBuffer_nonzero number⟩

def Console.printhex (s : Console) (number : BitVec 64) : Traced ConsoleAccess Halt Console := s.print (hexString number).message

/-- Video memory with the first `n` characters of the message from cell `offset` on. -/
def shown (message : Message) (offset n : Nat) (text : Memory) : Memory := fun i =>
  if 2 * offset ≤ i ∧ i < 2 * (offset + n) then
    if i % 2 = 0 then (message (i / 2 - offset)).getD 0 else 0xf
  else text i

/-- Each byte up to position `n` is the message's at the time the loop reads it, with the
characters before it on the screen. -/
def Pointer.Spells (pointer : Pointer) (message : Message) (offset n : Nat) (text : Memory) : Prop :=
  ∀ k ≤ n, pointer (shown message offset k text) k = message k

variable {pointer : Pointer} {message read : Message} {offset fuel k n : Nat} {text last : Memory} {c : UInt8} {s t : Console}

theorem Pointer.spells_const : Pointer.Spells (fun _ => message) message offset n text := fun _ _ => rfl

theorem readMessage_ok (here : message k = some c) : (readMessage message k).result = .ok c := by
  simp only [readMessage, Traced.result, here]

theorem writeText_ok (text : Memory) (value : UInt8) (room : vgaBegin + k < kernelMapped) :
    (writeText text k value).result = .ok (set text k value) := by
  simp only [writeText, Traced.result, if_pos room]

theorem Message.Terminated.unique {m : Nat} (one : message.Terminated n) (other : message.Terminated m) : n = m := by
  rcases Nat.lt_trichotomy n m with less | same | more
  · obtain ⟨c, here, nonzero⟩ := other.readable n less
    cases here.symm.trans one.terminated
    exact absurd rfl nonzero
  · exact same
  · obtain ⟨c, here, nonzero⟩ := one.readable m more
    cases here.symm.trans other.terminated
    exact absurd rfl nonzero

/-- At the NUL the loop stops without touching the screen. -/
theorem cwriteFrom_stop (zero : pointer text k = some 0) :
    cwriteFrom pointer offset (fuel + 1) text k = ([.read k], .ok (text, k)) := by
  simp only [cwriteFrom, readMessage, zero]
  rfl

/-- One character takes one turn, which reads it and writes the two bytes of its cell. -/
theorem cwriteFrom_turn (fuel : Nat) (here : pointer text k = some c) (nonzero : c ≠ 0)
    (room : vgaBegin + (2 * offset + k * 2 + 1) < kernelMapped) :
    let next := set (set text (2 * offset + k * 2) c) (2 * offset + k * 2 + 1) 0xf
    (cwriteFrom pointer offset (fuel + 1) text k).events =
        [.read k, .write (2 * offset + k * 2), .write (2 * offset + k * 2 + 1)] ++
          (cwriteFrom pointer offset fuel next (k + 1)).events ∧
      (cwriteFrom pointer offset (fuel + 1) text k).result = (cwriteFrom pointer offset fuel next (k + 1)).result := by
  have window : vgaBegin + (2 * offset + k * 2) < kernelMapped := by omega
  have first := writeText_ok text c window
  have second := writeText_ok (set text (2 * offset + k * 2) c) 0xf room
  constructor
  · rw [cwriteFrom, Traced.bind_events_ok (readMessage_ok here), if_neg nonzero, Traced.bind_events_ok first,
      Traced.bind_events_ok second]
    rfl
  · rw [cwriteFrom, Traced.bind_result, readMessage_ok here, Outcome.ok_bind, if_neg nonzero, Traced.bind_result, first,
      Outcome.ok_bind, Traced.bind_result, second, Outcome.ok_bind]

@[simp] theorem shown_zero : shown message offset 0 text = text := by
  funext i
  exact if_neg (by omega)

/-- The two stores of one turn add one cell. -/
theorem shown_succ (here : message k = some c) :
    set (set (shown message offset k text) (2 * offset + k * 2) c) (2 * offset + k * 2 + 1) 0xf =
      shown message offset (k + 1) text := by
  funext i
  by_cases colour : i = 2 * offset + k * 2 + 1
  · subst colour
    rw [set_self, shown, if_pos (by omega), if_neg (by omega)]
  rw [set_of_ne colour]
  by_cases character : i = 2 * offset + k * 2
  · subst character
    have cell : (2 * offset + k * 2) / 2 - offset = k := by omega
    rw [set_self, shown, if_pos (by omega), if_pos (by omega), cell, here]
    rfl
  rw [set_of_ne character]
  by_cases old : 2 * offset ≤ i ∧ i < 2 * (offset + k)
  · have still : 2 * offset ≤ i ∧ i < 2 * (offset + (k + 1)) := by omega
    rw [shown, shown, if_pos old, if_pos still]
  · have still : ¬(2 * offset ≤ i ∧ i < 2 * (offset + (k + 1))) := by omega
    rw [shown, shown, if_neg old, if_neg still]

theorem shown_congr (same : ∀ j < k, read j = message j) : shown read offset k text = shown message offset k text := by
  funext i
  unfold shown
  split
  · rw [same _ (by omega)]
  · rfl

/-- A message that fits the window is written out whole. -/
theorem cwriteFrom_whole (text : Memory) (whole : message.Terminated n) (spells : pointer.Spells message offset n text)
    (before : k ≤ n) (enough : n < k + fuel) (room : k = n ∨ vgaBegin + 2 * (offset + n) ≤ kernelMapped) :
    (cwriteFrom pointer offset fuel (shown message offset k text) k).result = .ok (shown message offset n text, n) := by
  induction fuel generalizing k with
  | zero => omega
  | succ fuel ih =>
    rcases before.eq_or_lt with rfl | less
    · rw [cwriteFrom_stop ((spells k le_rfl).trans whole.terminated)]
      rfl
    · obtain ⟨c, here, nonzero⟩ := whole.readable k less
      have window : vgaBegin + (2 * offset + k * 2 + 1) < kernelMapped := by omega
      obtain ⟨-, result⟩ := cwriteFrom_turn fuel ((spells k before).trans here) nonzero window
      rw [shown_succ here] at result
      exact result.trans (ih less (by omega) (by omega))

/-- Every character before the window's end has its cell written. -/
theorem cwriteFrom_writes {j : Nat} (readable : ∀ text, ∀ i ≤ j, ∃ c, pointer text i = some c ∧ c ≠ 0) (before : k ≤ j)
    (enough : j < k + fuel) (room : vgaBegin + 2 * (offset + j) + 1 < kernelMapped) :
    .write (2 * (offset + j)) ∈ (cwriteFrom pointer offset fuel text k).events := by
  induction fuel generalizing k text with
  | zero => omega
  | succ fuel ih =>
    obtain ⟨c, here, nonzero⟩ := readable text k before
    have window : vgaBegin + (2 * offset + k * 2 + 1) < kernelMapped := by omega
    obtain ⟨events, -⟩ := cwriteFrom_turn fuel here nonzero window
    rw [events, List.mem_append]
    rcases before.eq_or_lt with rfl | less
    · left
      have cell : 2 * (offset + k) = 2 * offset + k * 2 := by omega
      rw [cell]
      exact List.mem_cons_of_mem _ List.mem_cons_self
    · exact Or.inr (ih less (by omega))

/-- What a turn that returns has done. -/
theorem cwriteFrom_returns (ends : (cwriteFrom pointer offset (fuel + 1) text k).result = .ok (last, n)) :
    (pointer text k = some 0 ∧ last = text ∧ n = k) ∨
      ∃ c, pointer text k = some c ∧ c ≠ 0 ∧ vgaBegin + (2 * offset + k * 2 + 1) < kernelMapped := by
  rw [cwriteFrom, Traced.bind_result, Outcome.bind_eq_ok] at ends
  obtain ⟨c, here, rest⟩ := ends
  have found : pointer text k = some c := by
    simp only [readMessage, Traced.result] at here
    split at here
    · cases here
      assumption
    · cases here
  by_cases zero : c = 0
  · rw [if_pos zero] at rest
    cases rest
    exact Or.inl ⟨zero ▸ found, rfl, rfl⟩
  · rw [if_neg zero, Traced.bind_result, Outcome.bind_eq_ok] at rest
    obtain ⟨first, -, rest⟩ := rest
    rw [Traced.bind_result, Outcome.bind_eq_ok] at rest
    obtain ⟨second, stored, -⟩ := rest
    refine Or.inr ⟨c, found, zero, ?_⟩
    by_contra outside
    simp only [writeText, Traced.result, if_neg outside] at stored
    cases stored

theorem cwriteFrom_le (ends : (cwriteFrom pointer offset fuel text k).result = .ok (last, n)) : k ≤ n := by
  induction fuel generalizing k text with
  | zero => cases ends
  | succ fuel ih =>
    rcases cwriteFrom_returns ends with ⟨-, -, rfl⟩ | ⟨c, found, nonzero, room⟩
    · exact le_rfl
    · rw [(cwriteFrom_turn fuel found nonzero room).2] at ends
      exact (Nat.le_succ k).trans (ih ends)

/-- A loop that returns has read its message up to the NUL, and has shown it. -/
theorem cwriteFrom_ends (ends : (cwriteFrom pointer offset fuel (shown read offset k text) k).result = .ok (last, n)) :
    ∃ message : Message, (∀ j < k, message j = read j) ∧
      (∀ j, k ≤ j → j < n → ∃ c, message j = some c ∧ c ≠ 0) ∧ message n = some 0 ∧
      (∀ j, k ≤ j → j ≤ n → pointer (shown message offset j text) j = message j) ∧ last = shown message offset n text := by
  induction fuel generalizing k read with
  | zero => cases ends
  | succ fuel ih =>
    rcases cwriteFrom_returns ends with ⟨zero, rfl, rfl⟩ | ⟨c, found, nonzero, room⟩
    · have same : shown (Function.update read n (some 0)) offset n text = shown read offset n text :=
        shown_congr fun j before => Function.update_of_ne before.ne _ _
      refine ⟨Function.update read n (some 0), fun j before => Function.update_of_ne before.ne _ _,
        fun j lower upper => by omega, Function.update_self .., fun j lower upper => ?_, same.symm⟩
      obtain rfl : j = n := by omega
      rw [same, zero, Function.update_self]
    · have here : Function.update read k (some c) k = some c := Function.update_self ..
      have same : shown read offset k text = shown (Function.update read k (some c)) offset k text :=
        shown_congr fun j before => (Function.update_of_ne before.ne _ _).symm
      rw [(cwriteFrom_turn fuel found nonzero room).2, same, shown_succ here] at ends
      obtain ⟨message, old, readable, terminated, spells, shows⟩ := ih ends
      have now : message k = some c := (old k (by omega)).trans here
      refine ⟨message, fun j before => ?_, fun j start upper => ?_, terminated, fun j start upper => ?_, shows⟩
      · exact (old j (by omega)).trans (Function.update_of_ne before.ne _ _)
      · rcases start.eq_or_lt with rfl | less
        · exact ⟨c, now, nonzero⟩
        · exact readable j less upper
      · rcases start.eq_or_lt with rfl | less
        · have still : shown message offset k text = shown read offset k text :=
            shown_congr fun j before => (old j (by omega)).trans (Function.update_of_ne before.ne _ _)
          rw [still, found, now]
        · exact spells j less upper

/-- A loop that returns has read each byte up to the NUL and has stored its cells, no others. -/
theorem cwriteFrom_events (ends : (cwriteFrom pointer offset fuel text k).result = .ok (last, n)) :
    (∀ i, .read i ∈ (cwriteFrom pointer offset fuel text k).events ↔ k ≤ i ∧ i ≤ n) ∧
      ∀ i, .write i ∈ (cwriteFrom pointer offset fuel text k).events ↔ 2 * (offset + k) ≤ i ∧ i < 2 * (offset + n) := by
  induction fuel generalizing k text with
  | zero => cases ends
  | succ fuel ih =>
    rcases cwriteFrom_returns ends with ⟨zero, -, rfl⟩ | ⟨c, found, nonzero, room⟩
    · rw [cwriteFrom_stop zero]
      constructor
      · intro i
        simp only [Traced.events, List.mem_singleton, ConsoleAccess.read.injEq]
        omega
      · intro i
        simp only [Traced.events, List.mem_singleton, reduceCtorEq, false_iff]
        omega
    · obtain ⟨events, result⟩ := cwriteFrom_turn fuel found nonzero room
      rw [result] at ends
      obtain ⟨reads, writes⟩ := ih ends
      have lower := cwriteFrom_le ends
      rw [events]
      constructor <;> intro i
      · rw [List.mem_append, reads i]
        simp only [List.mem_cons, ConsoleAccess.read.injEq, reduceCtorEq, List.not_mem_nil, or_false]
        omega
      · rw [List.mem_append, writes i]
        simp only [List.mem_cons, ConsoleAccess.write.injEq, reduceCtorEq, List.not_mem_nil, or_false, false_or]
        omega

namespace Console

theorem printFrom_result : (s.printFrom pointer).result = (cwrite s.text s.currentOffset pointer).result >>= fun r =>
    .ok { text := r.1, currentOffset := (s.currentOffset + r.2) % (80 * 25) } := by
  rw [printFrom, Traced.bind_result]
  rfl

/-- Moving the cursor writes nothing. -/
theorem printFrom_events : (s.printFrom pointer).events = (cwrite s.text s.currentOffset pointer).events := by
  rcases returned : (cwrite s.text s.currentOffset pointer).result with e | r
  · rw [printFrom, Traced.bind_events_error returned]
  · rw [printFrom, Traced.bind_events_ok returned]
    exact List.append_nil _

theorem printlnFrom_result : (s.printlnFrom pointer).result = (s.printFrom pointer).result >>= fun t =>
    .ok { t with currentOffset := (t.currentOffset + 79) / 80 * 80 } := by
  rw [printlnFrom, Traced.bind_result]
  rfl

theorem printlnFrom_events : (s.printlnFrom pointer).events = (s.printFrom pointer).events := by
  rcases returned : (s.printFrom pointer).result with e | t
  · rw [printlnFrom, Traced.bind_events_error returned]
  · rw [printlnFrom, Traced.bind_events_ok returned]
    exact List.append_nil _

theorem println_result : (s.println message).result = (s.print message).result >>= fun t =>
    .ok { t with currentOffset := (t.currentOffset + 79) / 80 * 80 } := printlnFrom_result

theorem println_events : (s.println message).events = (s.print message).events := printlnFrom_events

/-- What `print` does with a message that fits on the screen. -/
theorem printFrom_whole (whole : message.Terminated n) (spells : pointer.Spells message s.currentOffset n s.text)
    (room : n = 0 ∨ s.currentOffset + n ≤ 80 * 25) :
    (s.printFrom pointer).result = .ok
        { text := shown message s.currentOffset n s.text, currentOffset := (s.currentOffset + n) % (80 * 25) } ∧
      (∀ i, .read i ∈ (s.printFrom pointer).events ↔ i ≤ n) ∧
      ∀ i, .write i ∈ (s.printFrom pointer).events ↔ 2 * s.currentOffset ≤ i ∧ i < 2 * (s.currentOffset + n) := by
  have window : 0 = n ∨ vgaBegin + 2 * (s.currentOffset + n) ≤ kernelMapped := by
    simp only [vgaBegin, kernelMapped, addrshift2M]
    omega
  have enough : n < 0 + kernelMapped := by
    simp only [vgaBegin, kernelMapped, addrshift2M] at window ⊢
    omega
  have result := cwriteFrom_whole s.text whole spells (Nat.zero_le n) enough window
  rw [shown_zero] at result
  obtain ⟨reads, writes⟩ := cwriteFrom_events result
  rw [printFrom_result, printFrom_events, cwrite, result]
  exact ⟨rfl, fun i => (reads i).trans (and_iff_right (Nat.zero_le i)), writes⟩

theorem print_whole (whole : message.Terminated n) (room : n = 0 ∨ s.currentOffset + n ≤ 80 * 25) :
    (s.print message).result = .ok
        { text := shown message s.currentOffset n s.text, currentOffset := (s.currentOffset + n) % (80 * 25) } ∧
      (∀ i, .read i ∈ (s.print message).events ↔ i ≤ n) ∧
      ∀ i, .write i ∈ (s.print message).events ↔ 2 * s.currentOffset ≤ i ∧ i < 2 * (s.currentOffset + n) :=
  printFrom_whole whole Pointer.spells_const room

theorem println_whole (whole : message.Terminated n) (room : n = 0 ∨ s.currentOffset + n ≤ 80 * 25) :
    (s.println message).result = .ok
        { text := shown message s.currentOffset n s.text
          currentOffset := ((s.currentOffset + n) % (80 * 25) + 79) / 80 * 80 } := by
  rw [println_result, (print_whole whole room).1]
  rfl

/-- A text that goes on to the end of the screen is written behind it. -/
theorem printFrom_overrun (start : s.currentOffset ≤ 80 * 25)
    (long : ∀ text i, s.currentOffset + i ≤ 80 * 25 → ∃ c, pointer text i = some c ∧ c ≠ 0) :
    .write (2 * (80 * 25)) ∈ (s.printFrom pointer).events := by
  obtain ⟨j, first⟩ : ∃ j, s.currentOffset + j = 80 * 25 := ⟨80 * 25 - s.currentOffset, by omega⟩
  rw [printFrom_events, cwrite, ← first]
  exact cwriteFrom_writes (fun text i bound => long text i (by omega)) (Nat.zero_le j)
    (by simp only [kernelMapped, addrshift2M]; omega) (by simp only [vgaBegin, kernelMapped, addrshift2M]; omega)

/-- A character that does not fit is written behind the screen. -/
theorem print_overrun (whole : message.Terminated n) (start : s.currentOffset ≤ 80 * 25)
    (long : 80 * 25 < s.currentOffset + n) : .write (2 * (80 * 25)) ∈ (s.print message).events :=
  printFrom_overrun start fun _ i bound => whole.readable i (by omega)

end Console

end MetalToApp

import MetalToApp.ConsoleRuns
import Mathlib.Data.List.Induction

namespace MetalToApp
open ByteMemory

/-- A message of at least one character that leaves room in its row. -/
structure Line extends CString where
  short : 0 < chars.length ∧ chars.length < 80

/-- One `println` after the other. -/
def Console.printLines (s : Console) (lines : List Line) : Outcome Console :=
  lines.foldlM (fun s line => (s.println line.message).result) s

/-- The row of line number `k`. Row 25 is the one right behind the screen. -/
def lineRow (k : Nat) : Nat := k % 25 + 1

/-- The character of the last line that reached a cell. -/
def lastCharacter (lines : List (List UInt8)) (row column : Nat) : Option UInt8 :=
  lines.zipIdx.reverse.findSome? fun (chars, k) => if lineRow k = row then chars[column]? else none

/-- Every cell of the screen shows the last of the lines that reached it. -/
def ShowsLines (text : Memory) (lines : List (List UInt8)) (after : Memory) : Prop :=
  ∀ row < 25, ∀ column < 80,
    after (2 * (80 * row + column)) = (lastCharacter lines row column).getD (text (2 * (80 * row + column))) ∧
    after (2 * (80 * row + column) + 1) = if (lastCharacter lines row column).isSome then 0xf else text (2 * (80 * row + column) + 1)

section log
variable {s t : Console} {message : Message} {n row column k : Nat} {text : Memory} {chars : List UInt8} {texts : List (List UInt8)}
  {lines more : List Line} {line : Line}

theorem Console.printLines_append : s.printLines (lines ++ more) = s.printLines lines >>= fun t => t.printLines more :=
  List.foldlM_append

theorem Console.printLines_singleton : s.printLines [line] = (s.println line.message).result := bind_pure _

/-- A line fits behind any row of the screen, and behind the last. -/
theorem Console.println_line (whole : message.Terminated n) (onScreen : s.currentOffset ≤ 80 * 25) (short : n < 80) :
    (s.println message).result = .ok
      { text := shown message s.currentOffset n s.text
        currentOffset := ((s.currentOffset + n) % (80 * 25) + 79) / 80 * 80 } := by
  have window : vgaBegin + 2 * (s.currentOffset + n) ≤ kernelMapped := by
    simp only [vgaBegin, kernelMapped, addrshift2M]
    omega
  have enough : n < 0 + kernelMapped := by
    simp only [kernelMapped, addrshift2M]
    omega
  have result := cwriteFrom_whole s.text whole Pointer.spells_const (Nat.zero_le n) enough (Or.inr window)
  rw [shown_zero] at result
  rw [println, printlnFrom_result, printFrom_result, cwrite, result]
  rfl

/-- The cursor goes from row to row, and from behind the screen to the second one. -/
theorem lineRow_succ {m : Nat} (short : 0 < m ∧ m < 80) (k : Nat) :
    ((80 * lineRow k + m) % (80 * 25) + 79) / 80 * 80 = 80 * lineRow (k + 1) := by
  unfold lineRow
  omega

theorem lastCharacter_append : lastCharacter (texts ++ [chars]) row column =
    (if lineRow texts.length = row then chars[column]? else none).or (lastCharacter texts row column) := by
  rw [lastCharacter, List.zipIdx_append, List.reverse_append, List.zipIdx_singleton, List.reverse_singleton,
    List.singleton_append, List.findSome?_cons, Nat.zero_add]
  dsimp only
  cases (if lineRow texts.length = row then chars[column]? else none) <;> rfl

/-- Nothing is printed into the first row. -/
theorem lastCharacter_first (texts : List (List UInt8)) (column : Nat) : lastCharacter texts 0 column = none := by
  refine List.findSome?_eq_none_iff.mpr fun x _ => ?_
  exact if_neg (Nat.succ_ne_zero _)

/-- As long as the lines do not come round, each has its row. -/
theorem lastCharacter_of_few (few : texts.length ≤ 25) (inside : k < texts.length) :
    lastCharacter texts (k + 1) column = (texts[k]?).bind fun chars => chars[column]? := by
  induction texts using List.reverseRecOn with
  | nil => exact absurd inside (Nat.not_lt_zero k)
  | append_singleton texts chars ih =>
    rw [List.length_append, List.length_singleton] at few inside
    have own : lineRow texts.length = texts.length + 1 := congrArg (· + 1) (Nat.mod_eq_of_lt (by omega))
    rw [lastCharacter_append, own]
    by_cases last : k = texts.length
    · have later : lastCharacter texts (k + 1) column = none := by
        refine List.findSome?_eq_none_iff.mpr fun x member => if_neg ?_
        obtain ⟨-, before, -⟩ := List.mem_zipIdx (List.mem_reverse.mp member)
        have row : lineRow x.2 = x.2 + 1 := congrArg (· + 1) (Nat.mod_eq_of_lt (by omega))
        omega
      rw [if_pos (by omega), later, Option.or_none, last, List.getElem?_append_right le_rfl, Nat.sub_self,
        List.getElem?_cons_zero, Option.bind_some]
    · rw [if_neg (by omega), Option.none_or, ih (by omega) (by omega), List.getElem?_append_left (by omega)]

/-- A new line in row `r` replaces the characters that it reaches. -/
theorem shown_cell (line : Line) (text : Memory) (r row : Nat) (inRow : column < 80) :
    shown line.message (80 * r) line.chars.length text (2 * (80 * row + column)) =
        (if r = row then line.chars[column]? else none).getD (text (2 * (80 * row + column))) ∧
      shown line.message (80 * r) line.chars.length text (2 * (80 * row + column) + 1) =
        if (if r = row then line.chars[column]? else none).isSome then 0xf else text (2 * (80 * row + column) + 1) := by
  have short := line.short.2
  by_cases here : r = row ∧ column < line.chars.length
  · obtain ⟨rfl, inside⟩ := here
    have cell : 2 * (80 * r + column) / 2 - 80 * r = column := by omega
    have character : line.message column = line.chars[column]? := List.getElem?_append_left inside
    rw [if_pos rfl, List.getElem?_eq_getElem inside]
    constructor
    · rw [shown, if_pos (by omega), if_pos (by omega), cell, character, List.getElem?_eq_getElem inside]
      rfl
    · rw [shown, if_pos (by omega), if_neg (by omega)]
      rfl
  · have none : (if r = row then line.chars[column]? else none) = none := by
      by_cases same : r = row
      · rw [if_pos same, List.getElem?_eq_none (by omega)]
      · rw [if_neg same]
    rw [none]
    exact ⟨by rw [shown, if_neg (by omega)]; rfl, by rw [shown, if_neg (by omega)]; rfl⟩

/-- Lines from the first free row on are printed, and the screen shows them. -/
theorem Console.printLines_shows (text : Memory) (lines : List Line) : ∃ t, printLines ⟨text, 80⟩ lines = .ok t ∧
    t.currentOffset = 80 * lineRow lines.length ∧ ShowsLines text (lines.map fun line => line.chars) t.text := by
  induction lines using List.reverseRecOn with
  | nil => exact ⟨_, rfl, rfl, fun row _ column _ => ⟨rfl, rfl⟩⟩
  | append_singleton lines line ih =>
    obtain ⟨t, printed, cursor, screen⟩ := ih
    have bound : lineRow lines.length ≤ 25 := Nat.mod_lt _ (by decide)
    have next := Console.println_line (s := t) line.toCString.terminated (by omega) line.short.2
    rw [Console.printLines_append, printed, Outcome.ok_bind, Console.printLines_singleton, next]
    refine ⟨_, rfl, ?_, fun row onScreen column inRow => ?_⟩
    · rw [cursor, lineRow_succ line.short, List.length_append, List.length_singleton]
    · obtain ⟨character, colour⟩ := screen row onScreen column inRow
      obtain ⟨newCharacter, newColour⟩ := shown_cell line t.text (lineRow lines.length) row inRow
      dsimp only
      rw [cursor, newCharacter, newColour, List.map_append, List.map_singleton, lastCharacter_append, List.length_map,
        character, colour]
      cases (if lineRow lines.length = row then line.chars[column]? else none) <;> exact ⟨rfl, rfl⟩

/-- After any number of lines each cell of the screen shows the last one that reached it.
The first row stays as it was, and every twenty-fifth line is not on the screen. -/
theorem printLines_screen (text : Memory) (lines : List Line) : ∃ t, Console.printLines ⟨text, 80⟩ lines = .ok t ∧
    t.currentOffset = 80 * lineRow lines.length ∧ ShowsLines text (lines.map fun line => line.chars) t.text ∧
    ∀ i < 160, t.text i = text i := by
  obtain ⟨t, printed, cursor, screen⟩ := Console.printLines_shows text lines
  refine ⟨t, printed, cursor, screen, fun i inside => ?_⟩
  obtain ⟨character, colour⟩ := screen 0 (by decide) (i / 2) (by omega)
  rw [lastCharacter_first, Nat.mul_zero, Nat.zero_add] at character colour
  rcases Nat.mod_two_eq_zero_or_one i with even | odd
  · rw [Nat.mul_div_cancel' (Nat.dvd_of_mod_eq_zero even)] at character
    exact character
  · rw [show 2 * (i / 2) + 1 = i by omega] at colour
    exact colour

end log

end MetalToApp

import MetalToApp.Console

namespace MetalToApp
open ByteMemory

inductive ConsoleCall
  | print (string : CString)
  | println (string : CString)

namespace ConsoleCall

def string : ConsoleCall → CString
  | print string => string
  | println string => string

def run (s : Console) : ConsoleCall → Traced ConsoleAccess Halt Console
  | print string => s.print string.message
  | println string => s.println string.message

def EndsLine : ConsoleCall → Prop
  | print _ => False
  | println _ => True

/-- The text ends on the screen, and a line that is to be ended does not end inside the last row. -/
def Fits (call : ConsoleCall) (cursor : Nat) : Prop :=
  cursor + call.string.chars.length ≤ 80 * 25 ∧
    (call.EndsLine → (cursor + call.string.chars.length) % (80 * 25) ≤ 80 * 24)

end ConsoleCall

/-- An access that leaves the memory behind the 80x25 cells alone. -/
def ConsoleAccess.OnScreen : ConsoleAccess → Prop
  | read _ => True
  | write index => index < 2 * (80 * 25)

/-- The call returns having written on the screen only, and leaves the cursor on it, at the
start of a row if it ends a line. -/
def ConsoleCall.KeepsScreen (call : ConsoleCall) (s t : Console) : Prop :=
  (call.run s).Inside ConsoleAccess.OnScreen ∧ (call.run s).result = .ok t ∧ t.currentOffset < 80 * 25 ∧
    (call.EndsLine → t.currentOffset % 80 = 0)

def StaysOnScreen : Console → List ConsoleCall → Prop
  | _, [] => True
  | s, call :: calls => ∃ t, call.KeepsScreen s t ∧ StaysOnScreen t calls

/-- Every call of the sequence fits at the cursor it finds. -/
def EachFits : Console → List ConsoleCall → Prop
  | _, [] => True
  | s, call :: calls => call.Fits s.currentOffset ∧ ∀ t, (call.run s).result = .ok t → EachFits t calls

variable {s : Console}

/-- Whatever is on the screen, the pointer leads to these bytes as far as the screen reaches,
and does not fault in front of a NUL. -/
structure Pointer.Steady (pointer : Pointer) (message : Message) : Prop where
  same : ∀ text, ∀ k ≤ 80 * 25, pointer text k = message k
  safe : ∀ k ≤ 80 * 25, message k = none → ∃ j < k, message j = some 0

theorem CString.steady (string : CString) : string.pointer.Steady string.message := by
  refine ⟨fun _ _ _ => rfl, fun k _ none => ⟨string.chars.length, ?_, string.terminated.terminated⟩⟩
  simp only [message, List.getElem?_eq_none_iff, List.length_append, List.length_singleton] at none
  omega

/-- One call keeps the screen exactly when it fits. -/
theorem ConsoleCall.keepsScreen_iff (call : ConsoleCall) (start : s.currentOffset < 80 * 25) :
    (∃ t, call.KeepsScreen s t) ↔ call.Fits s.currentOffset := by
  have whole := call.string.terminated
  constructor
  · rintro ⟨t, inside, returned, cursor, column⟩
    have fits : s.currentOffset + call.string.chars.length ≤ 80 * 25 := by
      by_contra long
      have behind := Console.print_overrun whole start.le (not_le.mp long)
      have outside : ¬(ConsoleAccess.write (2 * (80 * 25))).OnScreen := Nat.lt_irrefl _
      cases call with
      | print string => exact outside (inside _ behind)
      | println string => exact outside (inside _ (Console.println_events ▸ behind))
    refine ⟨fits, fun ends => ?_⟩
    cases call with
    | print string => exact ends.elim
    | println string =>
      cases returned.symm.trans (Console.println_whole whole (Or.inr fits))
      simp only at cursor
      omega
  · rintro ⟨fits, ends⟩
    obtain ⟨printed, -, writes⟩ := Console.print_whole whole (Or.inr fits)
    have inside : (s.print call.string.message).Inside ConsoleAccess.OnScreen := by
      intro e member
      cases e with
      | read i => trivial
      | write i => exact ((writes i).mp member).2.trans_le (by omega)
    cases call with
    | print string => exact ⟨_, inside, printed, Nat.mod_lt _ (by omega), fun ends => ends.elim⟩
    | println string =>
      have last := ends trivial
      refine ⟨_, ?_, Console.println_whole whole (Or.inr fits), ?_, ?_⟩
      · intro e member
        exact inside e (Console.println_events ▸ member)
      · simp only
        omega
      · intro _
        exact Nat.mul_mod_left _ _

theorem keeps_iff_fits (start : s.currentOffset < 80 * 25) (calls : List ConsoleCall) :
    StaysOnScreen s calls ↔ EachFits s calls := by
  induction calls generalizing s with
  | nil => exact Iff.rfl
  | cons call calls ih =>
    constructor
    · rintro ⟨t, keeps, rest⟩
      refine ⟨(call.keepsScreen_iff start).mp ⟨t, keeps⟩, fun u returned => ?_⟩
      cases keeps.2.1.symm.trans returned
      exact (ih keeps.2.2.1).mp rest
    · rintro ⟨fits, rest⟩
      obtain ⟨t, keeps⟩ := (call.keepsScreen_iff start).mpr fits
      exact ⟨t, keeps, (ih keeps.2.2.1).mpr (rest t keeps.2.1)⟩

/-- The calls stay on the screen exactly when each of them fits where the ones before it
left the cursor. They start in the second row; the screen and the lengths of the strings are
arbitrary. -/
theorem staysOnScreen_iff (text : Memory) (calls : List ConsoleCall) :
    StaysOnScreen { text := text, currentOffset := 80 } calls ↔
      EachFits { text := text, currentOffset := 80 } calls :=
  keeps_iff_fits (by simp only; omega) calls

/-- One line of 1841 characters from the first cursor ends inside the last row. -/
theorem println_leaves_screen :
    ¬StaysOnScreen { text := fun _ => 0, currentOffset := 80 }
      [.println { chars := List.replicate 1841 65, nonzero := fun zero => absurd (List.eq_of_mem_replicate zero) (by decide) }] := by
  intro ⟨t, keeps, _⟩
  have fits := (ConsoleCall.keepsScreen_iff _ (by simp only; omega)).mp ⟨t, keeps⟩
  have row := fits.2 trivial
  simp only [ConsoleCall.string, List.length_replicate] at row
  omega

end MetalToApp

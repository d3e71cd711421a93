import MetalToApp.Keyboard
import Mathlib.Algebra.Order.Ring.Int
import Mathlib.Data.List.Induction

namespace MetalToApp
open Transducer

/-- What the decoder keeps of the bytes that were fed to it. -/
def bufferAfter (fed : List UInt8) : Nat := (feed processScancode 0 fed).2

/-- The bytes fed so far end with the sequence of an event that has this code. -/
def Arrived (fed : List UInt8) (usbCode : Int) : Prop :=
  ∃ e : KeyEvent, e.usbCode = usbCode ∧ e.encode <:+ fed

/-- Every code that comes out of the decoder stands for a sequence that went in. -/
def InventsNothing (stream : List UInt8) : Prop :=
  ∀ fed scanCode, fed ++ [scanCode] <+: stream →
    ∀ usbCode ∈ (processScancode (bufferAfter fed) scanCode).1, Arrived (fed ++ [scanCode]) usbCode

/-- What the decoder, once it has kept an `E0`, takes for a sequence that it is not: a release with
its `F0` repeated, the release of the left shift of SysRq instead of its press, the press of its
second half instead of the release. -/
inductive Misleading : List UInt8 → Prop
  | breakAgain (n : Nat) {c : UInt8} (found : extendedKey (0xE0 * 256 + c.toNat) ≠ keyNone) :
      Misleading (List.replicate (n + 2) 0xF0 ++ [c])
  | shiftReleased (n : Nat) : Misleading (List.replicate (n + 1) 0xF0 ++ [0x12, 0xE0, 0x7C])
  | sysrqPressed : Misleading [0x7C, 0xE0, 0xF0, 0x12]
  | sysrqBreakAgain (n : Nat) : Misleading (List.replicate (n + 2) 0xF0 ++ [0x7C, 0xE0, 0xF0, 0x12])

def residualAfter (fed : List UInt8) : Residual := (feed Residual.step .empty fed).2

theorem bufferAfter_eq (fed : List UInt8) : bufferAfter fed = (residualAfter fed).buffer := by
  have run := Residual.feed_eq .empty fed
  exact congrArg Prod.snd run

theorem residualAfter_append (fed more : List UInt8) :
    residualAfter (fed ++ more) = (feed Residual.step (residualAfter fed) more).2 := by
  rw [residualAfter, feed_append]
  rfl

theorem bufferAfter_eq_e0 {fed : List UInt8} : bufferAfter fed = 0xE0 ↔ residualAfter fed = .e0 := by
  rw [bufferAfter_eq]
  cases residualAfter fed <;> decide

/-- The decoder had kept just an `E0` before the last bytes that were fed. -/
def SinceE0 (fed since : List UInt8) : Prop :=
  ∃ base, fed = base ++ since ∧ residualAfter base = .e0 ∧ [0xE0] <:+ base

/-- What the bytes fed so far end with, for every residual. -/
def Residual.Explains (r : Residual) (fed : List UInt8) : Prop :=
  match r with
  | empty => True
  | f0 => [0xF0] <:+ fed
  | e0 => [0xE0] <:+ fed
  | e0f0 => ∃ n, SinceE0 fed (List.replicate (n + 1) 0xF0)
  | e012 => ∃ n, SinceE0 fed (List.replicate n 0xF0 ++ [0x12])
  | e07c => ∃ n, SinceE0 fed (List.replicate n 0xF0 ++ [0x7C])
  | e012e0 => ∃ n, SinceE0 fed (List.replicate n 0xF0 ++ [0x12, 0xE0])
  | e07ce0 => ∃ n, SinceE0 fed (List.replicate n 0xF0 ++ [0x7C, 0xE0])
  | e07ce0f0 => ∃ n, SinceE0 fed (List.replicate n 0xF0 ++ [0x7C, 0xE0, 0xF0])
  | e1 => [0xE1] <:+ fed
  | e114 => [0xE1, 0x14] <:+ fed
  | e11477 => [0xE1, 0x14, 0x77] <:+ fed
  | e11477e1 => [0xE1, 0x14, 0x77, 0xE1] <:+ fed
  | e11477e1f0 => [0xE1, 0x14, 0x77, 0xE1, 0xF0] <:+ fed
  | e11477e1f014 => [0xE1, 0x14, 0x77, 0xE1, 0xF0, 0x14] <:+ fed
  | e11477e1f014f0 => [0xE1, 0x14, 0x77, 0xE1, 0xF0, 0x14, 0xF0] <:+ fed

theorem suffix_concat {l fed : List UInt8} {c v : UInt8} (same : c.toNat = v.toNat) (ends : l <:+ fed) :
    l ++ [v] <:+ fed ++ [c] := by
  obtain ⟨before, rfl⟩ := ends
  exact ⟨before, by rw [UInt8.toNat_inj.mp same, List.append_assoc]⟩

theorem SinceE0.first {fed : List UInt8} {c v : UInt8} (same : c.toNat = v.toNat)
    (kept : residualAfter fed = .e0) (ends : [0xE0] <:+ fed) : SinceE0 (fed ++ [c]) [v] :=
  ⟨fed, by rw [UInt8.toNat_inj.mp same], kept, ends⟩

theorem SinceE0.concat {fed since since' : List UInt8} {c v : UInt8} (same : c.toNat = v.toNat)
    (longer : since' = since ++ [v]) (kept : SinceE0 fed since) : SinceE0 (fed ++ [c]) since' := by
  obtain ⟨base, split, ends⟩ := kept
  exact ⟨base, by rw [split, longer, UInt8.toNat_inj.mp same, List.append_assoc], ends⟩

theorem SinceE0.suffix {fed since : List UInt8} (kept : SinceE0 fed since) : [0xE0] ++ since <:+ fed := by
  obtain ⟨base, rfl, -, before, rfl⟩ := kept
  exact ⟨before, by rw [List.append_assoc]⟩

namespace Residual

theorem Explains.step {fed : List UInt8} (c : UInt8) (explained : (residualAfter fed).Explains fed) :
    ((residualAfter fed).step c).2.Explains (fed ++ [c]) := by
  generalize kept : residualAfter fed = r at explained
  cases r with
  | empty | f0 =>
    simp only [Residual.step, next]
    split_ifs with e0 e1 f0
    · exact suffix_concat (v := 0xE0) e0 (List.nil_suffix)
    · exact suffix_concat (v := 0xE1) e1 (List.nil_suffix)
    · exact suffix_concat (v := 0xF0) f0 (List.nil_suffix)
    · trivial
  | e0 =>
    simp only [Residual.step, next]
    split_ifs with f0 print shift
    · exact ⟨0, .first (v := 0xF0) f0 kept explained⟩
    · exact ⟨0, .first (v := 0x7C) print kept explained⟩
    · exact ⟨0, .first (v := 0x12) shift kept explained⟩
    · trivial
  | e0f0 =>
    obtain ⟨n, since⟩ := explained
    simp only [Residual.step, next]
    split_ifs with f0 print shift
    · exact ⟨n + 1, since.concat (v := 0xF0) f0 List.replicate_succ'⟩
    · exact ⟨n + 1, since.concat (v := 0x7C) print rfl⟩
    · exact ⟨n + 1, since.concat (v := 0x12) shift rfl⟩
    · trivial
  | e012 | e07c =>
    obtain ⟨n, since⟩ := explained
    simp only [Residual.step, next]
    split_ifs with e0
    · exact ⟨n, since.concat (v := 0xE0) e0 (by simp)⟩
    · trivial
  | e07ce0 =>
    obtain ⟨n, since⟩ := explained
    simp only [Residual.step, next]
    split_ifs with f0
    · exact ⟨n, since.concat (v := 0xF0) f0 (by simp)⟩
    · trivial
  | e012e0 | e07ce0f0 | e11477e1f014f0 =>
    simp only [Residual.step, next]
    split_ifs <;> trivial
  | e1 | e11477e1f0 =>
    simp only [Residual.step, next]
    split_ifs with same
    · exact suffix_concat (v := 0x14) same explained
    · trivial
  | e114 =>
    simp only [Residual.step, next]
    split_ifs with same
    · exact suffix_concat (v := 0x77) same explained
    · trivial
  | e11477 =>
    simp only [Residual.step, next]
    split_ifs with same
    · exact suffix_concat (v := 0xE1) same explained
    · trivial
  | e11477e1 | e11477e1f014 =>
    simp only [Residual.step, next]
    split_ifs with same
    · exact suffix_concat (v := 0xF0) same explained
    · trivial

theorem explains (fed : List UInt8) : (residualAfter fed).Explains fed := by
  induction fed using List.reverseRecOn with
  | nil => trivial
  | append_singleton fed c ih =>
    rw [residualAfter_append, feed_singleton]
    exact ih.step c

theorem mem_step {r : Residual} {c : UInt8} {usbCode : Int} :
    usbCode ∈ (r.step c).1 ↔ usbCode = (r.next c.toNat).1 ∧ usbCode ≠ 0 := by
  simp [Residual.step]

/-- A code that comes out stands for a sequence that arrived, or for one the decoder mistook. -/
theorem Explains.emits {fed : List UInt8} {c : UInt8} {usbCode : Int}
    (explained : (residualAfter fed).Explains fed) (out : usbCode ∈ ((residualAfter fed).step c).1) :
    Arrived (fed ++ [c]) usbCode ∨ ∃ tail, SinceE0 (fed ++ [c]) tail ∧ Misleading tail := by
  obtain ⟨code, some⟩ := mem_step.mp out
  generalize kept : residualAfter fed = r at explained code
  cases r with
  | empty =>
    simp only [next] at code
    split_ifs at code
    · exact absurd code some
    · exact absurd code some
    · exact absurd code some
    · exact .inl ⟨.press (.singleByte c), code.symm, fed, rfl⟩
  | f0 =>
    simp only [next] at code
    split_ifs at code
    · exact absurd code some
    · exact absurd code some
    · exact absurd code some
    · exact .inl ⟨.release (.singleByte c), code.symm, suffix_concat rfl explained⟩
  | e0 =>
    simp only [next] at code
    split_ifs at code
    · exact absurd code some
    · exact absurd code some
    · exact absurd code some
    · exact .inl ⟨.press (.extended c), code.symm, suffix_concat rfl explained⟩
  | e0f0 =>
    obtain ⟨n, since⟩ := explained
    simp only [next] at code
    split_ifs at code
    · exact absurd code some
    · exact absurd code some
    · exact absurd code some
    · cases n with
      | zero => exact .inl ⟨.release (.extended c), code.symm, suffix_concat rfl since.suffix⟩
      | succ n =>
        refine .inr ⟨_, since.concat rfl rfl, .breakAgain n fun none => some ?_⟩
        rw [code, none]
        rfl
  | e012e0 =>
    obtain ⟨n, since⟩ := explained
    simp only [next] at code
    split_ifs at code with print
    · cases n with
      | zero => exact .inl ⟨.press .sysrq, code.symm, suffix_concat (v := 0x7C) print since.suffix⟩
      | succ n => exact .inr ⟨_, since.concat (v := 0x7C) print (by simp), .shiftReleased n⟩
    · exact absurd code some
  | e07ce0f0 =>
    obtain ⟨n, since⟩ := explained
    simp only [next] at code
    split_ifs at code with shift
    · rcases n with _ | _ | n
      · exact .inr ⟨_, since.concat (v := 0x12) shift rfl, .sysrqPressed⟩
      · exact .inl ⟨.release .sysrq, code.symm, suffix_concat (v := 0x12) shift since.suffix⟩
      · exact .inr ⟨_, since.concat (v := 0x12) shift (by simp), .sysrqBreakAgain n⟩
    · exact absurd code some
  | e11477e1f014f0 =>
    simp only [next] at code
    split_ifs at code with last
    · exact .inl ⟨.pause, code.symm, suffix_concat (v := 0x77) last explained⟩
    · exact absurd code some
  | _ =>
    simp only [next] at code
    split_ifs at code <;> exact absurd code some

end Residual

theorem residualAfter_breaks {fed : List UInt8} (kept : residualAfter fed = .e0) (n : Nat) :
    residualAfter (fed ++ List.replicate (n + 1) 0xF0) = .e0f0 := by
  induction n with
  | zero =>
    rw [residualAfter_append, kept]
    rfl
  | succ n ih =>
    rw [List.replicate_succ', ← List.append_assoc, residualAfter_append, ih]
    rfl

theorem Arrived.released {fed : List UInt8} {usbCode : Int} (arrived : Arrived fed usbCode) (negative : usbCode < 0) :
    ∃ key : Key, key.usbCode = -usbCode ∧ key.releaseBytes.reverse <+: fed.reverse := by
  obtain ⟨e, rfl, ends⟩ := arrived
  cases e with
  | press key =>
    have pos : 0 < key.usbCode := Key.usbCode_pos negative.ne
    exact absurd negative (not_lt.mpr pos.le)
  | release key => exact ⟨key, (neg_neg _).symm, List.reverse_prefix.mpr ends⟩
  | pause => exact absurd negative (by decide)

theorem Arrived.pressed {fed : List UInt8} {usbCode : Int} (arrived : Arrived fed usbCode) (positive : 0 < usbCode)
    (other : usbCode ≠ keyPause) : ∃ key : Key, key.usbCode = usbCode ∧ key.pressBytes.reverse <+: fed.reverse := by
  obtain ⟨e, rfl, ends⟩ := arrived
  cases e with
  | press key => exact ⟨key, rfl, List.reverse_prefix.mpr ends⟩
  | release key =>
    have nonzero : key.usbCode ≠ 0 := fun none => positive.ne' (by simp [KeyEvent.usbCode, none])
    have pos := Key.usbCode_pos nonzero
    exact absurd positive (not_lt.mpr (neg_nonpos.mpr pos.le))
  | pause => exact absurd rfl other

theorem not_arrived_breakAgain {base : List UInt8} {n : Nat} {c : UInt8}
    (found : extendedKey (0xE0 * 256 + c.toNat) ≠ keyNone) :
    ¬ Arrived (base ++ (List.replicate (n + 2) 0xF0 ++ [c])) (-extendedKey (0xE0 * 256 + c.toNat)) := by
  intro arrived
  have pos : 0 < (Key.extended c).usbCode := Key.usbCode_pos found
  obtain ⟨key, code, ends⟩ := arrived.released (Int.neg_neg_of_pos pos)
  rw [neg_neg] at code
  have shape : (base ++ (List.replicate (n + 2) 0xF0 ++ [c])).reverse =
      c :: 0xF0 :: 0xF0 :: (base ++ List.replicate n 0xF0).reverse := by simp [List.replicate_succ']
  rw [shape] at ends
  cases key with
  | singleByte c' =>
    obtain rfl : c' = c := by simpa [Key.releaseBytes] using ends
    exact Key.singleByte_ne_extended found code
  | extended c' => simp [Key.releaseBytes] at ends
  | sysrq => simp [Key.releaseBytes] at ends

theorem not_arrived_shiftReleased {base : List UInt8} {n : Nat} :
    ¬ Arrived (base ++ (List.replicate (n + 1) 0xF0 ++ [0x12, 0xE0, 0x7C])) keySysrq := by
  intro arrived
  obtain ⟨key, code, ends⟩ := arrived.pressed (by decide) (by decide)
  have shape : (base ++ (List.replicate (n + 1) 0xF0 ++ [0x12, 0xE0, 0x7C])).reverse =
      0x7C :: 0xE0 :: 0x12 :: 0xF0 :: (base ++ List.replicate n 0xF0).reverse := by simp [List.replicate_succ']
  rw [shape] at ends
  cases key with
  | singleByte c =>
    obtain rfl : c = 0x7C := by simpa [Key.pressBytes] using ends
    exact absurd code (by decide)
  | extended c =>
    obtain rfl : c = 0x7C := by simpa [Key.pressBytes] using ends
    exact absurd code (by decide)
  | sysrq => simp [Key.pressBytes] at ends

/-- The second half of the release of SysRq does not make up for a first half that is not there. -/
theorem not_arrived_sysrq {fed : List UInt8} (broken : ¬ [0xE0, 0xF0] <:+ fed) :
    ¬ Arrived (fed ++ [0x7C, 0xE0, 0xF0, 0x12]) (-keySysrq) := by
  intro arrived
  obtain ⟨key, code, ends⟩ := arrived.released (by decide)
  rw [neg_neg] at code
  have shape : (fed ++ [0x7C, 0xE0, 0xF0, 0x12]).reverse = 0x12 :: 0xF0 :: 0xE0 :: 0x7C :: fed.reverse := by simp
  rw [shape] at ends
  cases key with
  | singleByte c =>
    obtain rfl : c = 0x12 := by simpa [Key.releaseBytes] using ends
    exact absurd code (by decide)
  | extended c =>
    obtain rfl : c = 0x12 := by simpa [Key.releaseBytes] using ends
    exact absurd code (by decide)
  | sysrq => exact broken (List.reverse_prefix.mp (by simpa [Key.releaseBytes] using ends))

/-- Whatever is misleading makes the decoder report a key that was not reported to it. -/
theorem Misleading.invents {base tail : List UInt8} (kept : residualAfter base = .e0) (misleading : Misleading tail) :
    ∃ fed c usbCode, base ++ tail = fed ++ [c] ∧ usbCode ∈ ((residualAfter fed).step c).1 ∧
      ¬ Arrived (base ++ tail) usbCode := by
  have sysrq {fed : List UInt8} (kept : residualAfter fed = .e0 ∨ residualAfter fed = .e0f0) :
      -keySysrq ∈ ((residualAfter (fed ++ [0x7C, 0xE0, 0xF0])).step 0x12).1 := by
    rw [residualAfter_append]
    rcases kept with kept | kept <;> rw [kept] <;> decide
  cases misleading with
  | @breakAgain n c found =>
    refine ⟨base ++ List.replicate (n + 2) 0xF0, c, _, by rw [List.append_assoc], ?_, not_arrived_breakAgain found⟩
    rw [residualAfter_breaks kept, (Residual.step_extended found).2]
    exact List.mem_singleton_self _
  | shiftReleased n =>
    refine ⟨base ++ List.replicate (n + 1) 0xF0 ++ [0x12, 0xE0], 0x7C, keySysrq, by simp, ?_,
      not_arrived_shiftReleased⟩
    rw [residualAfter_append, residualAfter_breaks kept]
    decide
  | sysrqPressed =>
    refine ⟨base ++ [0x7C, 0xE0, 0xF0], 0x12, -keySysrq, by simp, sysrq (.inl kept), not_arrived_sysrq ?_⟩
    intro ends
    have explained := Residual.explains base
    rw [kept] at explained
    obtain ⟨before, rfl⟩ := explained
    have prefixed := List.reverse_prefix.mpr ends
    simp at prefixed
  | sysrqBreakAgain n =>
    refine ⟨base ++ List.replicate (n + 2) 0xF0 ++ [0x7C, 0xE0, 0xF0], 0x12, -keySysrq, by simp,
      sysrq (.inr (residualAfter_breaks kept _)), ?_⟩
    rw [← List.append_assoc]
    refine not_arrived_sysrq fun ends => ?_
    have prefixed := List.reverse_prefix.mpr ends
    simp [List.replicate_succ'] at prefixed

theorem processScancode_out (fed : List UInt8) (c : UInt8) :
    (processScancode (bufferAfter fed) c).1 = ((residualAfter fed).step c).1 := by
  rw [bufferAfter_eq, Residual.processScancode_eq]

theorem Misleading.not_inventsNothing {base tail stream : List UInt8} (misleading : Misleading tail)
    (kept : bufferAfter base = 0xE0) (streamed : base ++ tail <+: stream) : ¬ InventsNothing stream := by
  intro nothing
  obtain ⟨fed, c, usbCode, split, made, wrong⟩ := misleading.invents (bufferAfter_eq_e0.mp kept)
  rw [split] at streamed wrong
  exact wrong (nothing fed c streamed usbCode (by rwa [processScancode_out]))

/-- The decoder reports only what was reported to it exactly if nothing misleading follows where it
has kept just an `E0`. -/
theorem inventsNothing_iff (stream : List UInt8) :
    InventsNothing stream ↔
      ∀ fed tail, fed ++ tail <+: stream → bufferAfter fed = 0xE0 → ¬ Misleading tail := by
  constructor
  · intro nothing fed tail streamed kept misleading
    exact misleading.not_inventsNothing kept streamed nothing
  · intro never fed c streamed usbCode made
    rw [processScancode_out] at made
    rcases (Residual.explains fed).emits made with arrived | ⟨tail, ⟨base, split, kept, -⟩, misleading⟩
    · exact arrived
    · exact absurd misleading (never base tail (split ▸ streamed) (bufferAfter_eq_e0.mpr kept))

/-- An extended left shift that goes up is taken for the first half of SysRq going down. -/
theorem not_inventsNothing_shiftReleased : ¬ ∀ stream, InventsNothing stream := by
  intro all
  have kept : bufferAfter [0xE0] = 0xE0 := bufferAfter_eq_e0.mpr (by decide)
  exact (Misleading.shiftReleased 0).not_inventsNothing kept (List.prefix_refl _) (all _)

end MetalToApp

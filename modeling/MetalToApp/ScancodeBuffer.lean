import MetalToApp.Keyboard

namespace MetalToApp
open Transducer

/-- The contents with which the loop of `processScancode` calls `ps2Set2ToUsb`. -/
def ps2Calls (codeBuffer : Nat) : List Nat :=
  if (ps2Set2ToUsb codeBuffer).1 = 0 then [codeBuffer]
  else codeBuffer :: ps2Calls (ps2Set2ToUsb codeBuffer).2
termination_by codeBuffer
decreasing_by exact ps2Set2ToUsb_shrinks ‹_›

/-- These are the calls of the loop: their codes are its codes, and the last one leaves its buffer. -/
theorem takeUsbCodes_calls (codeBuffer : Nat) :
    (takeUsbCodes codeBuffer).1 = ((ps2Calls codeBuffer).map fun code => (ps2Set2ToUsb code).1).filter (· ≠ 0) ∧
    ∃ last, (ps2Calls codeBuffer).getLast? = some last ∧ (takeUsbCodes codeBuffer).2 = (ps2Set2ToUsb last).2 := by
  fun_induction ps2Calls codeBuffer with
  | case1 codeBuffer done =>
    rw [takeUsbCodes, if_pos done]
    exact ⟨by simp [done], codeBuffer, rfl, rfl⟩
  | case2 codeBuffer more ih =>
    obtain ⟨codes, last, isLast, buffer⟩ := ih
    rw [takeUsbCodes, if_neg more]
    refine ⟨?_, last, ?_, buffer⟩
    · simp [more, codes]
    · rw [List.getLast?_cons, isLast]
      rfl

/-- A call that produces a code is followed by one on the empty buffer, which is the last. -/
theorem ps2Calls_length (codeBuffer : Nat) : (ps2Calls codeBuffer).length ≤ 2 := by
  have empty : ps2Calls 0 = [0] := by
    have none : ps2Set2ToUsb 0 = (0, 0) := ps2Set2ToUsb_byte (by decide)
    rw [ps2Calls, none, if_pos rfl]
  rw [ps2Calls]
  split
  · exact Nat.le_succ 1
  · next more =>
    rw [ps2Set2ToUsb_used more, empty]
    exact le_rfl

/-- The contents that the decoder keeps between two bytes, and nothing. -/
def keptPrefixes : List Nat :=
  [0, 0xE0, 0xE1, 0xF0, 0xE0F0, 0xE012, 0xE07C, 0xE012E0, 0xE07CE0, 0xE07CE0F0,
    0xE114, 0xE11477, 0xE11477E1, 0xE11477E1F0, 0xE11477E1F014, 0xE11477E1F014F0]

theorem Residual.buffer_mem (r : Residual) : r.buffer ∈ keptPrefixes := by
  cases r <;> decide

/-- After every byte of every stream the buffer is empty or a prefix that is kept on purpose,
which the next shift moves as a whole, and its loop ends after two calls at most. A code is
only ever produced by emptying the buffer. -/
theorem processScancode_buffer (fed : List UInt8) :
    (feed processScancode 0 fed).2 ∈ keptPrefixes ∧ (feed processScancode 0 fed).2 < 2 ^ 56 ∧
    (∀ scanCode : UInt8, (((feed processScancode 0 fed).2 <<< 8) % 2 ^ 64 + scanCode.toNat) % 2 ^ 64 =
        (feed processScancode 0 fed).2 * 256 + scanCode.toNat ∧
      (ps2Calls ((((feed processScancode 0 fed).2 <<< 8) % 2 ^ 64 + scanCode.toNat) % 2 ^ 64)).length ≤ 2) ∧
    ∀ code, (ps2Set2ToUsb code).1 ≠ 0 → (ps2Set2ToUsb code).2 = 0 := by
  have kept : feed processScancode 0 fed = _ := Residual.feed_eq .empty fed
  rw [kept]
  have small := (feed Residual.step .empty fed).2.buffer_lt
  refine ⟨Residual.buffer_mem _, small, fun scanCode => ⟨?_, ps2Calls_length _⟩, fun code => ps2Set2ToUsb_used⟩
  have byte := scanCode.toNat_lt
  rw [Nat.shiftLeft_eq]
  omega

end MetalToApp

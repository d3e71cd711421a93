import MetalToApp.Library.Transducer
import MetalToApp.Scancodes
import Mathlib.Data.List.Nodup

namespace MetalToApp
open Transducer

theorem ps2Set2ToUsb_shrinks {code : Nat} (some : (ps2Set2ToUsb code).1 ≠ 0) :
    (ps2Set2ToUsb code).2 < code := by
  rw [ps2Set2ToUsb_used some]
  rcases Nat.eq_zero_or_pos code with rfl | positive
  · exact absurd (by rw [ps2Set2ToUsb_byte (by decide)]; rfl) some
  · exact positive

/-- The loop of `processScancode`: the codes it passes to `processUsbCode`, and the buffer. -/
def takeUsbCodes (codeBuffer : Nat) : List Int × Nat :=
  if (ps2Set2ToUsb codeBuffer).1 = 0 then ([], (ps2Set2ToUsb codeBuffer).2)
  else
    let (usbCodes, rest) := takeUsbCodes (ps2Set2ToUsb codeBuffer).2
    ((ps2Set2ToUsb codeBuffer).1 :: usbCodes, rest)
termination_by codeBuffer
decreasing_by exact ps2Set2ToUsb_shrinks ‹_›

def processScancode (codeBuffer : Nat) (scanCode : UInt8) : List Int × Nat :=
  takeUsbCodes (((codeBuffer <<< 8) % 2 ^ 64 + scanCode.toNat) % 2 ^ 64)

theorem takeUsbCodes_eq (codeBuffer : Nat) :
    takeUsbCodes codeBuffer =
      ([(ps2Set2ToUsb codeBuffer).1].filter (· ≠ 0), (ps2Set2ToUsb codeBuffer).2) := by
  have empty : takeUsbCodes 0 = ([], 0) := by
    have none : ps2Set2ToUsb 0 = (0, 0) := ps2Set2ToUsb_byte (by decide)
    rw [takeUsbCodes, none, if_pos rfl]
  rw [takeUsbCodes]
  split
  · next none => simp [none]
  · next some => simp [ps2Set2ToUsb_used some, empty, some]

/-- What the decoder can still have in its buffer between two bytes. -/
inductive Residual
  | empty | f0 | e0 | e0f0 | e012 | e07c | e012e0 | e07ce0 | e07ce0f0
  | e1 | e114 | e11477 | e11477e1 | e11477e1f0 | e11477e1f014 | e11477e1f014f0
deriving DecidableEq, Repr

namespace Residual

def buffer : Residual → Nat
  | empty => 0
  | f0 => 0xF0
  | e0 => 0xE0
  | e0f0 => 0xE0F0
  | e012 => 0xE012
  | e07c => 0xE07C
  | e012e0 => 0xE012E0
  | e07ce0 => 0xE07CE0
  | e07ce0f0 => 0xE07CE0F0
  | e1 => 0xE1
  | e114 => 0xE114
  | e11477 => 0xE11477
  | e11477e1 => 0xE11477E1
  | e11477e1f0 => 0xE11477E1F0
  | e11477e1f014 => 0xE11477E1F014
  | e11477e1f014f0 => 0xE11477E1F014F0

/-- The decoder as a machine on residuals: the code (zero for none) and the next residual. -/
def next (r : Residual) (c : Nat) : Int × Residual :=
  match r with
  | empty => if c = 0xE0 then (0, e0) else if c = 0xE1 then (0, e1) else if c = 0xF0 then (0, f0)
    else (singleByteKey c, empty)
  | f0 => if c = 0xE0 then (0, e0) else if c = 0xE1 then (0, e1) else if c = 0xF0 then (0, f0)
    else (-singleByteKey c, empty)
  | e0 => if c = 0xF0 then (0, e0f0) else if c = 0x7C then (0, e07c) else if c = 0x12 then (0, e012)
    else (extendedKey (0xE0 * 256 + c), empty)
  | e0f0 => if c = 0xF0 then (0, e0f0) else if c = 0x7C then (0, e07c) else if c = 0x12 then (0, e012)
    else (-extendedKey (0xE0 * 256 + c), empty)
  | e012 => if c = 0xE0 then (0, e012e0) else (0, empty)
  | e07c => if c = 0xE0 then (0, e07ce0) else (0, empty)
  | e012e0 => if c = 0x7C then (keySysrq, empty) else (0, empty)
  | e07ce0 => if c = 0xF0 then (0, e07ce0f0) else (0, empty)
  | e07ce0f0 => if c = 0x12 then (-keySysrq, empty) else (0, empty)
  | e1 => if c = 0x14 then (0, e114) else (0, empty)
  | e114 => if c = 0x77 then (0, e11477) else (0, empty)
  | e11477 => if c = 0xE1 then (0, e11477e1) else (0, empty)
  | e11477e1 => if c = 0xF0 then (0, e11477e1f0) else (0, empty)
  | e11477e1f0 => if c = 0x14 then (0, e11477e1f014) else (0, empty)
  | e11477e1f014 => if c = 0xF0 then (0, e11477e1f014f0) else (0, empty)
  | e11477e1f014f0 => if c = 0x77 then (keyPause, empty) else (0, empty)

theorem decode (r : Residual) {c : Nat} (byte : c < 256) :
    ps2Set2ToUsb (r.buffer * 256 + c) = ((r.next c).1, (r.next c).2.buffer) := by
  cases r with
  | empty =>
    simp only [buffer, next, Nat.zero_mul, Nat.zero_add, ps2Set2ToUsb_byte byte]
    grind [buffer, keyNone]
  | f0 =>
    simp only [buffer, next, ps2Set2ToUsb_released byte, ps2Set2ToUsb_byte byte]
    grind [buffer, keyNone]
  | e0 =>
    simp only [buffer, next, ps2Set2ToUsb_extended byte]
    grind [buffer, keyNone]
  | e0f0 =>
    simp only [buffer, next, ps2Set2ToUsb_extended_released byte, ps2Set2ToUsb_extended byte]
    grind [buffer, keyNone]
  | _ =>
    rw [ps2Set2ToUsb_chain byte (by decide)]
    simp only [buffer, next]
    grind [buffer, keyNone]

theorem buffer_lt (r : Residual) : r.buffer < 2 ^ 56 := by
  cases r <;> decide

/-- `processScancode` on residuals. -/
def step (r : Residual) (scanCode : UInt8) : List Int × Residual :=
  ([(r.next scanCode.toNat).1].filter (· ≠ 0), (r.next scanCode.toNat).2)

theorem processScancode_eq (r : Residual) (scanCode : UInt8) :
    processScancode r.buffer scanCode = ((r.step scanCode).1, (r.step scanCode).2.buffer) := by
  have byte : scanCode.toNat < 256 := scanCode.toNat_lt
  have bound := r.buffer_lt
  have shifted : ((r.buffer <<< 8) % 2 ^ 64 + scanCode.toNat) % 2 ^ 64 = r.buffer * 256 + scanCode.toNat := by
    rw [Nat.shiftLeft_eq]
    omega
  rw [processScancode, shifted, takeUsbCodes_eq, r.decode byte]
  rfl

theorem feed_eq (r : Residual) (bytes : List UInt8) :
    feed processScancode r.buffer bytes = ((feed step r bytes).1, (feed step r bytes).2.buffer) :=
  feed_map processScancode_eq r bytes

end Residual

/-- A physical key, under the scan code that the tables know it by. -/
inductive Key
  | singleByte (code : UInt8)
  | extended (code : UInt8)
  | sysrq
deriving DecidableEq, Repr

namespace Key

def usbCode : Key → Int
  | singleByte code => singleByteKey code.toNat
  | extended code => extendedKey (0xE0 * 256 + code.toNat)
  | sysrq => keySysrq

def pressBytes : Key → List UInt8
  | singleByte code => [code]
  | extended code => [0xE0, code]
  | sysrq => [0xE0, 0x12, 0xE0, 0x7C]

def releaseBytes : Key → List UInt8
  | singleByte code => [0xF0, code]
  | extended code => [0xE0, 0xF0, code]
  | sysrq => [0xE0, 0xF0, 0x7C, 0xE0, 0xF0, 0x12]

end Key

/-- What a keyboard reports. Pause has no release. -/
inductive KeyEvent
  | press (key : Key)
  | release (key : Key)
  | pause
deriving DecidableEq, Repr

namespace KeyEvent

def usbCode : KeyEvent → Int
  | press key => key.usbCode
  | release key => -key.usbCode
  | pause => keyPause

/-- The set 2 sequence of an event. -/
def encode : KeyEvent → List UInt8
  | press key => key.pressBytes
  | release key => key.releaseBytes
  | pause => [0xE1, 0x14, 0x77, 0xE1, 0xF0, 0x14, 0xF0, 0x77]

/-- The event is of a key that the tables do not map to `KEY_NONE`. -/
def Mapped (e : KeyEvent) : Prop := e.usbCode ≠ keyNone

instance : DecidablePred Mapped := fun e => inferInstanceAs (Decidable (e.usbCode ≠ keyNone))

end KeyEvent

namespace Residual

theorem step_singleByte {c : UInt8} (mapped : singleByteKey c.toNat ≠ 0) :
    empty.step c = ([singleByteKey c.toNat], empty) ∧ f0.step c = ([-singleByteKey c.toNat], empty) := by
  have other : c.toNat ≠ 0xE0 ∧ c.toNat ≠ 0xE1 ∧ c.toNat ≠ 0xF0 := by
    refine ⟨?_, ?_, ?_⟩ <;> intro same <;> exact mapped (by rw [same]; rfl)
  simp [step, next, other, mapped]

theorem step_extended {c : UInt8} (mapped : extendedKey (0xE0 * 256 + c.toNat) ≠ 0) :
    e0.step c = ([extendedKey (0xE0 * 256 + c.toNat)], empty) ∧
      e0f0.step c = ([-extendedKey (0xE0 * 256 + c.toNat)], empty) := by
  have other : c.toNat ≠ 0xF0 ∧ c.toNat ≠ 0x7C ∧ c.toNat ≠ 0x12 := by
    refine ⟨?_, ?_, ?_⟩ <;> intro same <;> exact mapped (by rw [same]; rfl)
  simp only [step, next, other, if_false]
  simp [mapped]

theorem feed_press {key : Key} (mapped : key.usbCode ≠ 0) :
    feed step empty key.pressBytes = ([key.usbCode], empty) := by
  cases key with
  | singleByte c => exact feed_singleton.trans (step_singleByte mapped).1
  | extended c =>
    have first : empty.step 0xE0 = ([], e0) := by decide
    simp only [Key.pressBytes, feed, first, (step_extended mapped).1]
    rfl
  | sysrq => decide

theorem feed_release {key : Key} (mapped : key.usbCode ≠ 0) :
    feed step empty key.releaseBytes = ([-key.usbCode], empty) := by
  cases key with
  | singleByte c =>
    have first : empty.step 0xF0 = ([], f0) := by decide
    simp only [Key.releaseBytes, feed, first, (step_singleByte mapped).2]
    rfl
  | extended c =>
    have first : empty.step 0xE0 = ([], e0) := by decide
    have second : e0.step 0xF0 = ([], e0f0) := by decide
    simp only [Key.releaseBytes, feed, first, second, (step_extended mapped).2]
    rfl
  | sysrq => decide

/-- Every event's sequence is decoded to its code, and nothing of it stays behind. -/
theorem feed_encode {e : KeyEvent} (mapped : e.Mapped) : feed step empty e.encode = ([e.usbCode], empty) := by
  cases e with
  | press key => exact feed_press mapped
  | release key => exact feed_release fun none => mapped (by simp [KeyEvent.usbCode, none, keyNone])
  | pause => decide

theorem feed_events {events : List KeyEvent} (mapped : ∀ e ∈ events, e.Mapped) :
    feed processScancode empty.buffer (events.flatMap KeyEvent.encode) =
      (events.map KeyEvent.usbCode, empty.buffer) := by
  rw [feed_eq, feed_blocks fun e member => feed_encode (mapped e member)]

end Residual

/-- Decoding undoes encoding on every stream of events, of keys that the tables know, and
leaves nothing in the buffer. -/
theorem processScancode_encode {events : List KeyEvent} (mapped : ∀ e ∈ events, e.Mapped) :
    feed processScancode 0 (events.flatMap KeyEvent.encode) = (events.map KeyEvent.usbCode, 0) :=
  Residual.feed_events mapped

theorem processScancode_encode_sysrq :
    let events : List KeyEvent := [.press .sysrq, .release (.extended 0x75), .pause, .release .sysrq]
    feed processScancode 0 (events.flatMap KeyEvent.encode) = (events.map KeyEvent.usbCode, 0) :=
  processScancode_encode (by decide)

namespace Key

/-- Every key that the tables map. -/
def mapped : List Key :=
  ((List.range 256).map fun code => singleByte (UInt8.ofNat code)) ++
    ((List.range 256).map fun code => extended (UInt8.ofNat code)) ++ [sysrq] |>.filter (·.usbCode ≠ 0)

def leftAlt : Key := singleByte 0x11
def letterA : Key := singleByte 0x1C

/-- The table gives left Alt its modifier mask, which is the usage code of A. -/
def altAsA (key : Key) : Key := if key = leftAlt then letterA else key

theorem mem_mapped {key : Key} (found : key.usbCode ≠ 0) : key ∈ mapped := by
  refine List.mem_filter.mpr ⟨?_, by simpa using found⟩
  have byte (code : UInt8) : code.toNat ∈ List.range 256 ∧ UInt8.ofNat code.toNat = code :=
    ⟨List.mem_range.mpr code.toNat_lt, UInt8.ofNat_toNat⟩
  cases key with
  | singleByte code =>
    exact List.mem_append_left _ (List.mem_append_left _ (List.mem_map.mpr ⟨_, (byte code).1, by rw [(byte code).2]⟩))
  | extended code =>
    exact List.mem_append_left _ (List.mem_append_right _ (List.mem_map.mpr ⟨_, (byte code).1, by rw [(byte code).2]⟩))
  | sysrq => exact List.mem_append_right _ (List.mem_singleton.mpr rfl)

set_option maxRecDepth 2000 in
/-- Left Alt apart, no two keys share a code, and none has the code of Pause. -/
theorem codes_nodup : (keyPause :: (mapped.erase leftAlt).map usbCode).Nodup := by decide

set_option maxRecDepth 2000 in
theorem usbCode_pos {key : Key} (found : key.usbCode ≠ 0) : 0 < key.usbCode := by
  have all : ∀ key ∈ mapped, 0 < key.usbCode := by decide
  exact all key (mem_mapped found)

theorem usbCode_altAsA (key : Key) : key.altAsA.usbCode = key.usbCode := by
  unfold altAsA
  split
  · next same =>
    subst same
    rfl
  · rfl

theorem altAsA_mem {key : Key} (found : key.usbCode ≠ 0) : key.altAsA ∈ mapped.erase leftAlt := by
  have away : key.altAsA ≠ leftAlt := by
    unfold altAsA
    split
    · decide
    · assumption
  exact (List.mem_erase_of_ne away).mpr (mem_mapped (by rwa [usbCode_altAsA]))

theorem usbCode_eq_iff {key key' : Key} (found : key.usbCode ≠ 0) (found' : key'.usbCode ≠ 0) :
    key.usbCode = key'.usbCode ↔ key.altAsA = key'.altAsA := by
  constructor
  · intro same
    refine List.inj_on_of_nodup_map (List.nodup_cons.mp codes_nodup).2 (altAsA_mem found) (altAsA_mem found') ?_
    rwa [usbCode_altAsA, usbCode_altAsA]
  · intro same
    rw [← usbCode_altAsA key, same, usbCode_altAsA]

/-- No key of the first table shares its code with one of the second. -/
theorem singleByte_ne_extended {c c' : UInt8} (found : (extended c').usbCode ≠ 0) :
    (singleByte c).usbCode ≠ (extended c').usbCode := by
  intro same
  have alike := (usbCode_eq_iff (by rwa [same]) found).mp same
  rw [altAsA, altAsA, if_neg (show ¬ extended c' = leftAlt by simp [leftAlt])] at alike
  by_cases alt : singleByte c = leftAlt
  · simp [alt, letterA] at alike
  · simp [alt] at alike

theorem usbCode_ne_pause {key : Key} (found : key.usbCode ≠ 0) : key.usbCode ≠ keyPause := by
  intro same
  refine (List.nodup_cons.mp codes_nodup).1 (List.mem_map.mpr ⟨_, altAsA_mem found, ?_⟩)
  rw [usbCode_altAsA, same]

end Key

namespace KeyEvent

def altAsA : KeyEvent → KeyEvent
  | press key => press key.altAsA
  | release key => release key.altAsA
  | pause => pause

theorem usbCode_altAsA (e : KeyEvent) : e.altAsA.usbCode = e.usbCode := by
  cases e <;> simp [altAsA, usbCode, Key.usbCode_altAsA]

theorem usbCode_eq_iff {e e' : KeyEvent} (mapped : e.Mapped) (mapped' : e'.Mapped) :
    e.usbCode = e'.usbCode ↔ e.altAsA = e'.altAsA := by
  have pausePos : (0 : Int) < keyPause := by decide
  refine ⟨fun same => ?_, fun same => by rw [← usbCode_altAsA e, same, usbCode_altAsA]⟩
  have found {key : Key} (some : -key.usbCode ≠ keyNone) : key.usbCode ≠ 0 := fun none => some (by rw [none]; rfl)
  cases e with
  | press key =>
    have pos := Key.usbCode_pos mapped
    cases e' with
    | press key' => exact congrArg press ((Key.usbCode_eq_iff mapped mapped').mp same)
    | release key' =>
      have pos' := Key.usbCode_pos (found mapped')
      simp only [usbCode] at same
      omega
    | pause => exact absurd same (Key.usbCode_ne_pause mapped)
  | release key =>
    have pos := Key.usbCode_pos (found mapped)
    cases e' with
    | press key' =>
      have pos' := Key.usbCode_pos mapped'
      simp only [usbCode] at same
      omega
    | release key' =>
      exact congrArg release ((Key.usbCode_eq_iff (found mapped) (found mapped')).mp (Int.neg_inj.mp same))
    | pause =>
      simp only [usbCode] at same
      omega
  | pause => cases e' with
    | press key' => exact absurd same.symm (Key.usbCode_ne_pause mapped')
    | release key' =>
      have pos' := Key.usbCode_pos (found mapped')
      simp only [usbCode] at same
      omega
    | pause => rfl

theorem map_usbCode_eq_iff {xs ys : List KeyEvent} (mapped : ∀ e ∈ xs, e.Mapped) (mapped' : ∀ e ∈ ys, e.Mapped) :
    xs.map usbCode = ys.map usbCode ↔ xs.map altAsA = ys.map altAsA := by
  induction xs generalizing ys with
  | nil => simp
  | cons x xs ih => cases ys with
    | nil => simp
    | cons y ys =>
      simp only [List.map_cons, List.cons.injEq]
      exact and_congr (usbCode_eq_iff (mapped x List.mem_cons_self) (mapped' y List.mem_cons_self))
        (ih (fun e member => mapped e (List.mem_cons_of_mem x member))
          fun e member => mapped' e (List.mem_cons_of_mem y member))

end KeyEvent

/-- The codes that `processScancode` passes on for the encoding of some events. -/
def decoded (events : List KeyEvent) : List Int :=
  (feed processScancode 0 (events.flatMap KeyEvent.encode)).1

theorem decoded_eq {events : List KeyEvent} (mapped : ∀ e ∈ events, e.Mapped) :
    decoded events = events.map KeyEvent.usbCode :=
  congrArg Prod.fst (Residual.feed_events mapped)

/-- Two histories that differ are told apart exactly if they differ by more than presses and releases
of left Alt in place of those of A. The keys are those that the tables know. -/
theorem decoded_injective_iff {xs ys : List KeyEvent} (mapped : ∀ e ∈ xs, e.Mapped)
    (mapped' : ∀ e ∈ ys, e.Mapped) :
    (decoded xs = decoded ys → xs = ys) ↔ xs = ys ∨ xs.map KeyEvent.altAsA ≠ ys.map KeyEvent.altAsA := by
  have same : decoded xs = decoded ys ↔ xs.map KeyEvent.altAsA = ys.map KeyEvent.altAsA := by
    rw [decoded_eq mapped, decoded_eq mapped', KeyEvent.map_usbCode_eq_iff mapped mapped']
  rw [same]
  tauto

theorem decoded_injective_iff_twoKeys :
    let held : List KeyEvent := [.press .letterA, .release .letterA, .press .sysrq]
    let pressed : List KeyEvent := [.press .leftAlt, .pause]
    (decoded held = decoded pressed → held = pressed) ↔
      held = pressed ∨ held.map KeyEvent.altAsA ≠ pressed.map KeyEvent.altAsA :=
  decoded_injective_iff (by decide) (by decide)

/-- Left Alt and A are the same to whatever is behind the decoder. -/
theorem decoded_leftAlt_eq_letterA :
    ¬ ∀ xs ys : List KeyEvent, (∀ e ∈ xs, e.Mapped) → (∀ e ∈ ys, e.Mapped) →
      decoded xs = decoded ys → xs = ys := by
  intro injective
  have alt : ∀ e ∈ [KeyEvent.press .leftAlt, .release .leftAlt], e.Mapped := by decide
  have letter : ∀ e ∈ [KeyEvent.press .letterA, .release .letterA], e.Mapped := by decide
  have same : decoded [.press .leftAlt, .release .leftAlt] = decoded [.press .letterA, .release .letterA] := by
    rw [decoded_eq alt, decoded_eq letter]
    rfl
  exact absurd (injective _ _ alt letter same) (by decide)

end MetalToApp

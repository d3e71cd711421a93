import Mathlib.Data.Nat.Bitwise

namespace MetalToApp

/-! The codes of `usb_hid_keys.h` that the scancode tables use. -/

def keyNone : Int := 0x00
def keyModLctrl : Int := 0x01
def keyModLshift : Int := 0x02
def keyA : Int := 0x04
def keyModLalt : Int := 0x04
def keyB : Int := 0x05
def keyC : Int := 0x06
def keyD : Int := 0x07
def keyE : Int := 0x08
def keyF : Int := 0x09
def keyG : Int := 0x0a
def keyH : Int := 0x0b
def keyI : Int := 0x0c
def keyJ : Int := 0x0d
def keyK : Int := 0x0e
def keyL : Int := 0x0f
def keyM : Int := 0x10
def keyN : Int := 0x11
def keyO : Int := 0x12
def keyP : Int := 0x13
def keyQ : Int := 0x14
def keyR : Int := 0x15
def keyS : Int := 0x16
def keyT : Int := 0x17
def keyU : Int := 0x18
def keyV : Int := 0x19
def keyW : Int := 0x1a
def keyX : Int := 0x1b
def keyY : Int := 0x1c
def keyZ : Int := 0x1d
def key1 : Int := 0x1e
def key2 : Int := 0x1f
def key3 : Int := 0x20
def key4 : Int := 0x21
def key5 : Int := 0x22
def key6 : Int := 0x23
def key7 : Int := 0x24
def key8 : Int := 0x25
def key9 : Int := 0x26
def key0 : Int := 0x27
def keyEnter : Int := 0x28
def keyEsc : Int := 0x29
def keyBackspace : Int := 0x2a
def keyTab : Int := 0x2b
def keySpace : Int := 0x2c
def keyMinus : Int := 0x2d
def keyEqual : Int := 0x2e
def keyLeftbrace : Int := 0x2f
def keyRightbrace : Int := 0x30
def keyBackslash : Int := 0x31
def keySemicolon : Int := 0x33
def keyApostrophe : Int := 0x34
def keyGrave : Int := 0x35
def keyComma : Int := 0x36
def keyDot : Int := 0x37
def keySlash : Int := 0x38
def keyCapslock : Int := 0x39
def keyF1 : Int := 0x3a
def keyF2 : Int := 0x3b
def keyF3 : Int := 0x3c
def keyF4 : Int := 0x3d
def keyF5 : Int := 0x3e
def keyF6 : Int := 0x3f
def keyF7 : Int := 0x40
def keyF8 : Int := 0x41
def keyF9 : Int := 0x42
def keyF10 : Int := 0x43
def keyF11 : Int := 0x44
def keyF12 : Int := 0x45
def keySysrq : Int := 0x46
def keyScrolllock : Int := 0x47
def keyPause : Int := 0x48
def keyInsert : Int := 0x49
def keyHome : Int := 0x4a
def keyPageup : Int := 0x4b
def keyDelete : Int := 0x4c
def keyEnd : Int := 0x4d
def keyPagedown : Int := 0x4e
def keyRight : Int := 0x4f
def keyLeft : Int := 0x50
def keyDown : Int := 0x51
def keyUp : Int := 0x52
def keyNumlock : Int := 0x53
def keyKpslash : Int := 0x54
def keyKpasterisk : Int := 0x55
def keyKpminus : Int := 0x56
def keyKpplus : Int := 0x57
def keyKpenter : Int := 0x58
def keyKp1 : Int := 0x59
def keyKp2 : Int := 0x5a
def keyKp3 : Int := 0x5b
def keyKp4 : Int := 0x5c
def keyKp5 : Int := 0x5d
def keyKp6 : Int := 0x5e
def keyKp7 : Int := 0x5f
def keyKp8 : Int := 0x60
def keyKp9 : Int := 0x61
def keyKp0 : Int := 0x62
def keyKpdot : Int := 0x63
def keyCompose : Int := 0x65
def keyPower : Int := 0x66
def keyLeftmeta : Int := 0xe3
def keyRightctrl : Int := 0xe4
def keyRightshift : Int := 0xe5
def keyRightalt : Int := 0xe6
def keyRightmeta : Int := 0xe7
def keyMediaPlaypause : Int := 0xe8
def keyMediaStopcd : Int := 0xe9
def keyMediaPrevioussong : Int := 0xea
def keyMediaNextsong : Int := 0xeb
def keyMediaVolumeup : Int := 0xed
def keyMediaVolumedown : Int := 0xee
def keyMediaMute : Int := 0xef
def keyMediaWww : Int := 0xf0
def keyMediaBack : Int := 0xf1
def keyMediaForward : Int := 0xf2
def keyMediaStop : Int := 0xf3
def keyMediaSleep : Int := 0xf8
def keyMediaCoffee : Int := 0xf9
def keyMediaRefresh : Int := 0xfa
def keyMediaCalc : Int := 0xfb

/-- The table for a buffer that holds one byte; every code that is not listed is `KEY_NONE`. -/
def singleByteKey (code : Nat) : Int :=
  match code with
  | 0x01 => keyF9
  | 0x03 => keyF5
  | 0x04 => keyF3
  | 0x05 => keyF1
  | 0x06 => keyF2
  | 0x07 => keyF12
  | 0x09 => keyF10
  | 0x0A => keyF8
  | 0x0B => keyF6
  | 0x0C => keyF4
  | 0x0D => keyTab
  | 0x0E => keyGrave
  | 0x11 => keyModLalt
  | 0x12 => keyModLshift
  | 0x14 => keyModLctrl
  | 0x15 => keyQ
  | 0x16 => key1
  | 0x1A => keyZ
  | 0x1B => keyS
  | 0x1C => keyA
  | 0x1D => keyW
  | 0x1E => key2
  | 0x21 => keyC
  | 0x22 => keyX
  | 0x23 => keyD
  | 0x24 => keyE
  | 0x25 => key4
  | 0x26 => key3
  | 0x29 => keySpace
  | 0x2A => keyV
  | 0x2B => keyF
  | 0x2C => keyT
  | 0x2D => keyR
  | 0x2E => key5
  | 0x31 => keyN
  | 0x32 => keyB
  | 0x33 => keyH
  | 0x34 => keyG
  | 0x35 => keyY
  | 0x36 => key6
  | 0x3A => keyM
  | 0x3B => keyJ
  | 0x3C => keyU
  | 0x3D => key7
  | 0x3E => key8
  | 0x41 => keyComma
  | 0x42 => keyK
  | 0x43 => keyI
  | 0x44 => keyO
  | 0x45 => key0
  | 0x46 => key9
  | 0x49 => keyDot
  | 0x4A => keySlash
  | 0x4B => keyL
  | 0x4C => keySemicolon
  | 0x4D => keyP
  | 0x4E => keyMinus
  | 0x52 => keyApostrophe
  | 0x54 => keyLeftbrace
  | 0x55 => keyEqual
  | 0x58 => keyCapslock
  | 0x59 => keyRightshift
  | 0x5A => keyEnter
  | 0x5B => keyRightbrace
  | 0x5D => keyBackslash
  | 0x66 => keyBackspace
  | 0x69 => keyKp1
  | 0x6B => keyKp4
  | 0x6C => keyKp7
  | 0x70 => keyKp0
  | 0x71 => keyKpdot
  | 0x72 => keyKp2
  | 0x73 => keyKp5
  | 0x74 => keyKp6
  | 0x75 => keyKp8
  | 0x76 => keyEsc
  | 0x77 => keyNumlock
  | 0x78 => keyF11
  | 0x79 => keyKpplus
  | 0x7A => keyKp3
  | 0x7B => keyKpminus
  | 0x7C => keyKpasterisk
  | 0x7D => keyKp9
  | 0x7E => keyScrolllock
  | 0x83 => keyF7
  | _ => keyNone

/-- The table for a buffer that holds `E0` and one more byte; every code that is not listed is
`KEY_NONE`. -/
def extendedKey (code : Nat) : Int :=
  match code with
  | 0xE010 => keyMediaWww
  | 0xE011 => keyRightalt
  | 0xE014 => keyRightctrl
  | 0xE015 => keyMediaPrevioussong
  | 0xE01F => keyLeftmeta
  | 0xE020 => keyMediaRefresh
  | 0xE021 => keyMediaVolumedown
  | 0xE023 => keyMediaMute
  | 0xE027 => keyRightmeta
  | 0xE028 => keyMediaStop
  | 0xE02B => keyMediaCalc
  | 0xE02F => keyCompose
  | 0xE030 => keyMediaForward
  | 0xE032 => keyMediaVolumeup
  | 0xE034 => keyMediaPlaypause
  | 0xE037 => keyPower
  | 0xE038 => keyMediaBack
  | 0xE03B => keyMediaStopcd
  | 0xE03F => keyMediaSleep
  | 0xE04A => keyKpslash
  | 0xE04D => keyMediaNextsong
  | 0xE05A => keyKpenter
  | 0xE05E => keyMediaCoffee
  | 0xE069 => keyEnd
  | 0xE06B => keyLeft
  | 0xE06C => keyHome
  | 0xE070 => keyInsert
  | 0xE071 => keyDelete
  | 0xE072 => keyDown
  | 0xE074 => keyRight
  | 0xE075 => keyUp
  | 0xE07A => keyPagedown
  | 0xE07D => keyPageup
  | _ => keyNone

/-- Decode the buffer: the key code (negative for a release, zero for none yet) and what is
left in the buffer. -/
def ps2Set2ToUsb (code : Nat) : Int × Nat :=
  if code >>> 8 = 0 then
    if code = 0xE0 ∨ code = 0xE1 ∨ code = 0xF0 then (keyNone, code) else (singleByteKey code, 0)
  else if code >>> 8 = 0xE0 then
    if code = 0xE0F0 ∨ code = 0xE07C ∨ code = 0xE012 then (keyNone, code) else (extendedKey code, 0)
  else if code >>> 8 = 0xE0F0 then
    let (usbCode, scancodeBuffer) := ps2Set2ToUsb ((code &&& 0xFF) ||| 0xE000)
    (-usbCode, scancodeBuffer)
  else if code >>> 8 = 0xF0 then
    let (usbCode, scancodeBuffer) := ps2Set2ToUsb (code &&& 0xFF)
    (-usbCode, scancodeBuffer)
  else if code = 0xE012E07C then (keySysrq, 0)
  else if code = 0xE07CE0F012 then (-keySysrq, 0)
  else if code = 0xE11477E1F014F077 then (keyPause, 0)
  else if code = 0xE012E0 ∨ code = 0xE07CE0 ∨ code = 0xE07CE0F0 ∨ code = 0xE114 ∨ code = 0xE11477 ∨
      code = 0xE11477E1 ∨ code = 0xE11477E1F0 ∨ code = 0xE11477E1F014 ∨ code = 0xE11477E1F014F0 then
    (keyNone, code)
  else (keyNone, 0)
termination_by code
decreasing_by
  all_goals
    rw [Nat.shiftRight_eq_div_pow] at *
    have low : code &&& 0xFF ≤ 0xFF := Nat.and_le_right
  · have bound := Nat.or_lt_two_pow (show code &&& 0xFF < 2 ^ 16 by omega) (show 0xE000 < 2 ^ 16 by decide)
    omega
  · omega

theorem shiftRight_byte {r c : Nat} (byte : c < 256) : (r * 256 + c) >>> 8 = r := by
  rw [Nat.shiftRight_eq_div_pow]
  omega

theorem low_byte {r c : Nat} (byte : c < 256) : (r * 256 + c) &&& 0xFF = c := by
  rw [show 0xFF = 2 ^ 8 - 1 by rfl, Nat.and_two_pow_sub_one_eq_mod]
  omega

theorem ps2Set2ToUsb_byte {c : Nat} (byte : c < 256) :
    ps2Set2ToUsb c =
      if c = 0xE0 ∨ c = 0xE1 ∨ c = 0xF0 then (keyNone, c) else (singleByteKey c, 0) := by
  have shift : c >>> 8 = 0 := by simpa using shiftRight_byte (r := 0) byte
  rw [ps2Set2ToUsb, if_pos shift]

theorem ps2Set2ToUsb_extended {c : Nat} (byte : c < 256) :
    ps2Set2ToUsb (0xE0 * 256 + c) =
      if c = 0xF0 ∨ c = 0x7C ∨ c = 0x12 then (keyNone, 0xE0 * 256 + c)
      else (extendedKey (0xE0 * 256 + c), 0) := by
  rw [ps2Set2ToUsb, shiftRight_byte byte, if_neg (by decide), if_pos rfl]
  refine if_congr ?_ rfl rfl
  omega

/-- A release is decoded as the press that is left when its `F0` is dropped. -/
theorem ps2Set2ToUsb_released {c : Nat} (byte : c < 256) :
    ps2Set2ToUsb (0xF0 * 256 + c) = (-(ps2Set2ToUsb c).1, (ps2Set2ToUsb c).2) := by
  rw [ps2Set2ToUsb, shiftRight_byte byte, if_neg (by decide), if_neg (by decide), if_neg (by decide),
    if_pos rfl, low_byte byte]

theorem ps2Set2ToUsb_extended_released {c : Nat} (byte : c < 256) :
    ps2Set2ToUsb (0xE0F0 * 256 + c) =
      (-(ps2Set2ToUsb (0xE0 * 256 + c)).1, (ps2Set2ToUsb (0xE0 * 256 + c)).2) := by
  have base : c ||| 0xE000 = 0xE0 * 256 + c := by
    have split := Nat.two_pow_add_eq_or_of_lt (i := 8) byte 0xE0
    rw [Nat.or_comm]
    simpa [Nat.mul_comm] using split.symm
  rw [ps2Set2ToUsb, shiftRight_byte byte, if_neg (by decide), if_neg (by decide), if_pos rfl,
    low_byte byte, base]

/-- Longer contents are looked up as a whole; only these are known. -/
theorem ps2Set2ToUsb_chain {r c : Nat} (byte : c < 256) (other : r ∉ [0, 0xE0, 0xE0F0, 0xF0]) :
    ps2Set2ToUsb (r * 256 + c) =
      if r = 0xE012E0 ∧ c = 0x7C then (keySysrq, 0)
      else if r = 0xE07CE0F0 ∧ c = 0x12 then (-keySysrq, 0)
      else if r = 0xE11477E1F014F0 ∧ c = 0x77 then (keyPause, 0)
      else if r = 0xE012 ∧ c = 0xE0 ∨ r = 0xE07C ∧ c = 0xE0 ∨ r = 0xE07CE0 ∧ c = 0xF0 ∨
          r = 0xE1 ∧ c = 0x14 ∨ r = 0xE114 ∧ c = 0x77 ∨ r = 0xE11477 ∧ c = 0xE1 ∨
          r = 0xE11477E1 ∧ c = 0xF0 ∨ r = 0xE11477E1F0 ∧ c = 0x14 ∨ r = 0xE11477E1F014 ∧ c = 0xF0 then
        (keyNone, r * 256 + c)
      else (keyNone, 0) := by
  have split (r' c' : Nat) (byte' : c' < 256) : r * 256 + c = r' * 256 + c' ↔ r = r' ∧ c = c' := by omega
  simp only [List.mem_cons, List.not_mem_nil, or_false, not_or] at other
  rw [ps2Set2ToUsb, shiftRight_byte byte, if_neg other.1, if_neg other.2.1, if_neg other.2.2.1,
    if_neg other.2.2.2]
  refine if_congr (split 0xE012E0 0x7C (by decide)) rfl <| if_congr (split 0xE07CE0F0 0x12 (by decide)) rfl <|
    if_congr (split 0xE11477E1F014F0 0x77 (by decide)) rfl <| if_congr ?_ rfl rfl
  exact or_congr (split 0xE012 0xE0 (by decide)) <| or_congr (split 0xE07C 0xE0 (by decide)) <|
    or_congr (split 0xE07CE0 0xF0 (by decide)) <| or_congr (split 0xE1 0x14 (by decide)) <|
    or_congr (split 0xE114 0x77 (by decide)) <| or_congr (split 0xE11477 0xE1 (by decide)) <|
    or_congr (split 0xE11477E1 0xF0 (by decide)) <| or_congr (split 0xE11477E1F0 0x14 (by decide)) <|
    split 0xE11477E1F014 0xF0 (by decide)

/-- A key code is only produced when the buffer is used up. -/
theorem ps2Set2ToUsb_used {code : Nat} (some : (ps2Set2ToUsb code).1 ≠ 0) : (ps2Set2ToUsb code).2 = 0 := by
  fun_induction ps2Set2ToUsb code with
  | case1 | case3 | case10 => exact absurd rfl some
  | case5 code _ _ _ usbCode scancodeBuffer decoded ih | case6 code _ _ _ _ usbCode scancodeBuffer decoded ih =>
    rw [decoded] at ih
    exact ih fun none => some (by simpa using none)
  | case2 | case4 | case7 | case8 | case9 | case11 => rfl

end MetalToApp

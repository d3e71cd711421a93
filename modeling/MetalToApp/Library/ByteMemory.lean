import Mathlib.Data.Nat.ModEq
import Mathlib.Tactic.Ring

namespace ByteMemory

/-- A flat memory of bytes, one for every address. -/
abbrev Memory := Nat → UInt8

def set (m : Memory) (a : Nat) (b : UInt8) : Memory := fun x => if x = a then b else m x

/-- The little-endian number held by the `n` bytes at `a`. -/
def readLE (m : Memory) : Nat → Nat → Nat
  | 0, _ => 0
  | n + 1, a => (m a).toNat + 256 * readLE m n (a + 1)

/-- Little-endian store of the low `n` bytes of `v`; higher bits are dropped. -/
def writeLE (m : Memory) : Nat → Nat → Nat → Memory
  | 0, _, _ => m
  | n + 1, a, v => writeLE (set m a (UInt8.ofNat v)) n (a + 1) (v / 256)

@[simp] theorem set_self (m : Memory) (a : Nat) (b : UInt8) : set m a b a = b := by
  simp [set]

theorem set_of_ne {m : Memory} {a x : Nat} {b : UInt8} (away : x ≠ a) : set m a b x = m x := by
  simp [set, away]

theorem readLE_congr {m m' : Memory} {n a : Nat} (same : ∀ i < n, m' (a + i) = m (a + i)) :
    readLE m' n a = readLE m n a := by
  induction n generalizing a with
  | zero => rfl
  | succ n ih =>
    have head := same 0 (by omega)
    have tail : readLE m' n (a + 1) = readLE m n (a + 1) := by
      refine ih fun i bound => ?_
      have step := same (i + 1) (by omega)
      rwa [show a + (i + 1) = a + 1 + i by omega] at step
    simp only [Nat.add_zero] at head
    simp only [readLE, head, tail]

/-- The memory seen from another base address. -/
theorem readLE_translate (m : Memory) (n base a : Nat) : readLE (fun p => m (p - base)) n (base + a) = readLE m n a := by
  induction n generalizing a with
  | zero => rfl
  | succ n ih =>
    have head : base + a - base = a := Nat.add_sub_cancel_left base a
    simp only [readLE, head, Nat.add_assoc, ih]

theorem readLE_lt (m : Memory) (n a : Nat) : readLE m n a < 256 ^ n := by
  induction n generalizing a with
  | zero => simp [readLE]
  | succ n ih =>
    have head := (m a).toNat_lt
    have tail := ih (a + 1)
    simp only [readLE, Nat.pow_succ]
    omega

theorem readLE_zero_bytes {m : Memory} {n a : Nat} (zero : ∀ i < n, m (a + i) = 0) :
    readLE m n a = 0 := by
  induction n generalizing a with
  | zero => rfl
  | succ n ih =>
    have head := zero 0 (by omega)
    have tail : readLE m n (a + 1) = 0 := by
      refine ih fun i bound => ?_
      have step := zero (i + 1) (by omega)
      rwa [show a + (i + 1) = a + 1 + i by omega] at step
    simp only [Nat.add_zero] at head
    simp [readLE, head, tail]

/-- A store changes only the bytes it covers. -/
theorem writeLE_outside {m : Memory} {n a v x : Nat} (outside : x < a ∨ a + n ≤ x) :
    writeLE m n a v x = m x := by
  induction n generalizing m a v with
  | zero => rfl
  | succ n ih =>
    rw [writeLE, ih (by omega), set_of_ne (by omega)]

theorem readLE_writeLE_self (m : Memory) (n a v : Nat) :
    readLE (writeLE m n a v) n a = v % 256 ^ n := by
  induction n generalizing m a v with
  | zero => simp [readLE, Nat.mod_one]
  | succ n ih =>
    have head : writeLE (set m a (UInt8.ofNat v)) n (a + 1) (v / 256) a = UInt8.ofNat v := by
      rw [writeLE_outside (by omega), set_self]
    have byte : (UInt8.ofNat v).toNat = v % 256 := by simp
    simp only [readLE, writeLE, ih, head, byte]
    rw [Nat.pow_succ, Nat.mul_comm (256 ^ n) 256, Nat.mod_mul]

theorem readLE_writeLE_disjoint {m : Memory} {n k a b v : Nat} (apart : b + k ≤ a ∨ a + n ≤ b) :
    readLE (writeLE m n a v) k b = readLE m k b :=
  readLE_congr fun i bound => writeLE_outside (by omega)

/-- The little-endian word widths of a 64-bit machine. -/
abbrev read64 (m : Memory) (a : Nat) : Nat := readLE m 8 a
abbrev write64 (m : Memory) (a v : Nat) : Memory := writeLE m 8 a v

theorem read64_write64_self {m : Memory} {a v : Nat} (fits : v < 2 ^ 64) :
    read64 (write64 m a v) a = v := by
  rw [read64, write64, readLE_writeLE_self]
  exact Nat.mod_eq_of_lt (by norm_num at fits ⊢; exact fits)

theorem read64_write64_disjoint {m : Memory} {a b v : Nat} (apart : b + 8 ≤ a ∨ a + 8 ≤ b) :
    read64 (write64 m a v) b = read64 m b :=
  readLE_writeLE_disjoint apart

theorem writeLE_inside {m : Memory} {n a v i : Nat} (inside : i < n) :
    writeLE m n a v (a + i) = UInt8.ofNat (v / 256 ^ i) := by
  induction n generalizing m a v i with
  | zero => omega
  | succ n ih =>
    cases i with
    | zero => rw [writeLE, writeLE_outside (by omega), Nat.add_zero, set_self, Nat.pow_zero, Nat.div_one]
    | succ i =>
      have next : a + (i + 1) = a + 1 + i := by omega
      rw [writeLE, next, ih (by omega), Nat.div_div_eq_div_mul, Nat.pow_succ, Nat.mul_comm (256 ^ i)]

/-- The later of two stores to one place is the one that counts. -/
theorem writeLE_writeLE_self (m : Memory) (n a v w : Nat) : writeLE (writeLE m n a v) n a w = writeLE m n a w := by
  funext x
  by_cases inside : a ≤ x ∧ x < a + n
  · obtain ⟨i, rfl⟩ : ∃ i, x = a + i := ⟨x - a, by omega⟩
    rw [writeLE_inside (by omega), writeLE_inside (by omega)]
  · rw [writeLE_outside (by omega), writeLE_outside (by omega), writeLE_outside (by omega)]

theorem write64_outside {m : Memory} {a v x : Nat} (outside : x < a ∨ a + 8 ≤ x) : write64 m a v x = m x :=
  writeLE_outside outside

/-- `base` starts a run of bytes that two memories agree on. -/
def Agree (m m' : Memory) (base n : Nat) : Prop := ∀ i < n, m' (base + i) = m (base + i)

namespace Agree

theorem readLE {m m' : Memory} {base n k o : Nat} (agree : Agree m m' base n) (inside : o + k ≤ n) :
    ByteMemory.readLE m' k (base + o) = ByteMemory.readLE m k (base + o) := by
  refine readLE_congr fun i bound => ?_
  rw [Nat.add_assoc]
  exact agree (o + i) (by omega)

end Agree

end ByteMemory

import MetalToApp.Memory

namespace MetalToApp
open ByteMemory

def memset (m : Memory) (memory : Nat) (value : UInt8) : Nat → Memory
  | 0 => m
  | size + 1 => set (memset m memory value size) (memory + size) value

def memcpy (m : Memory) (dest src : Nat) : Nat → Memory
  | 0 => m
  | n + 1 =>
    let copied := memcpy m dest src n
    set copied (dest + n) (copied (src + n))

theorem memset_inside {m : Memory} {a size o : Nat} (value : UInt8) (inside : o < size) :
    memset m a value size (a + o) = value := by
  induction size with
  | zero => omega
  | succ size ih =>
    by_cases last : o = size
    · subst last
      exact set_self _ _ _
    · rw [memset, set_of_ne (by omega), ih (by omega)]

theorem memset_outside {m : Memory} {a size x : Nat} (value : UInt8) (outside : x < a ∨ a + size ≤ x) :
    memset m a value size x = m x := by
  induction size with
  | zero => rfl
  | succ size ih => rw [memset, set_of_ne (by omega), ih (by omega)]

theorem memcpy_outside {m : Memory} {dest src n x : Nat} (outside : x < dest ∨ dest + n ≤ x) :
    memcpy m dest src n x = m x := by
  induction n with
  | zero => rfl
  | succ n ih => rw [memcpy, set_of_ne (by omega), ih (by omega)]

/-- The loop copies the bytes as they were before it, as long as it does not write its source. -/
theorem memcpy_inside {m : Memory} {dest src n o : Nat} (apart : ∀ j < n, src + j < dest ∨ dest + n ≤ src + j)
    (inside : o < n) : memcpy m dest src n (dest + o) = m (src + o) := by
  induction n with
  | zero => omega
  | succ n ih =>
    by_cases last : o = n
    · subst last
      have source := apart o inside
      rw [memcpy, set_self, memcpy_outside (by omega)]
    · rw [memcpy, set_of_ne (by omega)]
      refine ih (fun j bound => ?_) (by omega)
      have source := apart j (by omega)
      omega

/-- A NUL-terminated string of `length` characters lies at `a`. -/
def StringAt (m : Memory) (a length : Nat) : Prop := (∀ k < length, m (a + k) ≠ 0) ∧ m (a + length) = 0

theorem StringAt.congr {m m' : Memory} {a length : Nat} (string : StringAt m a length) (same : Agree m m' a (length + 1)) :
    StringAt m' a length :=
  ⟨fun k inside => by rw [same k (by omega)]; exact string.1 k inside, by rw [same length (by omega)]; exact string.2⟩

namespace Kernel

def memset (s : Kernel) (memory : Nat) (value : UInt8) (size : Nat) : Outcome Kernel := do
  let a ← window memory size
  return { s with mem := MetalToApp.memset s.mem a value size }

/-- An empty copy touches no memory, so it succeeds at any pointers. -/
def memcpy (s : Kernel) (dest src n : Nat) : Outcome Kernel := do
  if n = 0 then return s
  let target ← window dest n
  let source ← window src n
  return { s with mem := MetalToApp.memcpy s.mem target source n }

def strlenFrom (s : Kernel) (str : Nat) : Nat → Nat → Outcome Nat
  | 0, _ => .error .fault
  | fuel + 1, len => do
    let c ← s.load 1 (str + len)
    if c = 0 then return len
    strlenFrom s str fuel (len + 1)

/-- A string without a NUL leaves its window within 512G steps. -/
def strlen (s : Kernel) (str : Nat) : Outcome Nat := strlenFrom s str addrshift512G 0

theorem memset_linear (s : Kernel) {a size : Nat} (value : UInt8) (bound : a + size ≤ 2 ^ 39) (below : a < 2 ^ 39) :
    s.memset (linearAddressToPtr a) value size =
      .ok { s with mem := MetalToApp.memset s.mem a value size } := by
  rw [memset, window_linear_zero bound below]
  rfl

theorem load_byte (s : Kernel) {a k : Nat} (bound : a + k + 1 ≤ 2 ^ 39) :
    s.load 1 (linearAddressToPtr a + k) = .ok (s.mem (a + k)).toNat := by
  rw [s.load_linear (by omega) (by omega)]
  rfl

theorem strlenFrom_linear (s : Kernel) {a length fuel k : Nat} (string : StringAt s.mem a length) (room : a + length + 1 ≤ 2 ^ 39)
    (before : k ≤ length) (enough : length < k + fuel) : s.strlenFrom (linearAddressToPtr a) fuel k = .ok length := by
  induction fuel generalizing k with
  | zero => omega
  | succ fuel ih =>
    rw [strlenFrom, s.load_byte (by omega), Outcome.ok_bind]
    by_cases last : k = length
    · rw [last, string.2, if_pos (show (0 : UInt8).toNat = 0 from rfl), Outcome.pure_eq_ok]
    · have character : (s.mem (a + k)).toNat ≠ 0 := fun zero => string.1 k (by omega) (UInt8.toNat_inj.mp zero)
      rw [if_neg character]
      exact ih (by omega) (by omega)

theorem strlen_linear (s : Kernel) {a length : Nat} (string : StringAt s.mem a length) (room : a + length + 1 ≤ 2 ^ 39) :
    s.strlen (linearAddressToPtr a) = .ok length :=
  s.strlenFrom_linear string room (Nat.zero_le _) (by simp only [addrshift512G]; omega)

end Kernel

end MetalToApp

import MetalToApp.Library.ByteMemory

namespace BitFields
open ByteMemory

/-- The bits of a number from `offset` on, `width` of them. -/
def field (n offset width : Nat) : Nat := n / 2 ^ offset % 2 ^ width

/-- Bits below a field, the new contents of the field, and the bits above. -/
def withField (n offset width v : Nat) : Nat :=
  n % 2 ^ offset + 2 ^ offset * (v % 2 ^ width + 2 ^ width * (n / 2 ^ (offset + width)))

section
variable {n o w p k v : Nat}

theorem field_withField_self : field (withField n o w v) o w = v % 2 ^ w := by
  have below : n % 2 ^ o < 2 ^ o := Nat.mod_lt _ (Nat.two_pow_pos o)
  rw [field, withField, Nat.add_mul_div_left _ _ (Nat.two_pow_pos o), Nat.div_eq_of_lt below, Nat.zero_add,
    Nat.add_mul_mod_self_left, Nat.mod_mod]

theorem withField_div : withField n o w v / 2 ^ (o + w) = n / 2 ^ (o + w) := by
  have below : n % 2 ^ o < 2 ^ o := Nat.mod_lt _ (Nat.two_pow_pos o)
  have inside : v % 2 ^ w < 2 ^ w := Nat.mod_lt _ (Nat.two_pow_pos w)
  rw [Nat.pow_add, ← Nat.div_div_eq_div_mul, withField, Nat.add_mul_div_left _ _ (Nat.two_pow_pos o),
    Nat.div_eq_of_lt below, Nat.zero_add, Nat.add_mul_div_left _ _ (Nat.two_pow_pos w), Nat.div_eq_of_lt inside,
    Nat.zero_add, Nat.pow_add]

theorem withField_mod : withField n o w v % 2 ^ o = n % 2 ^ o := by
  rw [withField, Nat.add_mul_mod_self_left, Nat.mod_mod]

/-- A field is what its number holds below its end. -/
theorem field_mod (inside : p + k ≤ o) : field (n % 2 ^ o) p k = field n p k := by
  rw [field, field, ← Nat.mod_mul_right_div_self, ← Nat.mod_mul_right_div_self, ← Nat.pow_add,
    Nat.mod_mod_of_dvd _ (Nat.pow_dvd_pow 2 inside)]

theorem field_div (above : o ≤ p) : field (n / 2 ^ o) (p - o) k = field n p k := by
  rw [field, field, Nat.div_div_eq_div_mul, ← Nat.pow_add, Nat.add_sub_cancel' above]

/-- Another field is as it was. -/
theorem field_withField_apart (apart : p + k ≤ o ∨ o + w ≤ p) : field (withField n o w v) p k = field n p k := by
  rcases apart with before | after
  · rw [← field_mod before, withField_mod, field_mod before]
  · rw [← field_div after, withField_div, field_div after]

theorem withField_lt {b : Nat} (small : n < 2 ^ b) (inside : o + w ≤ b) : withField n o w v < 2 ^ b := by
  have top : withField n o w v / 2 ^ (o + w) < 2 ^ (b - (o + w)) := by
    rw [withField_div]
    refine Nat.div_lt_of_lt_mul ?_
    rwa [← Nat.pow_add, Nat.add_sub_cancel' inside]
  have all := Nat.lt_mul_of_div_lt top (Nat.two_pow_pos _)
  rwa [← Nat.pow_add, Nat.sub_add_cancel inside] at all

theorem field_field (inside : p + k ≤ w) : field (field n o w) p k = field n (o + p) k := by
  rw [show field n o w = n / 2 ^ o % 2 ^ w from rfl, field_mod inside, ← field_div (Nat.le_add_right o p),
    Nat.add_sub_cancel_left]

theorem field_zero : field 0 o w = 0 := by
  rw [field, Nat.zero_div, Nat.zero_mod]

end

/-- Assign a bit-field of the structure whose `size` bytes are at `a`. -/
def assignField (m : Memory) (a size offset width v : Nat) : Memory :=
  writeLE m size a (withField (readLE m size a) offset width v)

section
variable {m : Memory} {a n o w v x : Nat}

theorem assignField_outside (outside : x < a ∨ a + n ≤ x) : assignField m a n o w v x = m x :=
  writeLE_outside outside

theorem readLE_assignField (inside : o + w ≤ 8 * n) :
    readLE (assignField m a n o w v) n a = withField (readLE m n a) o w v := by
  have bytes (k : Nat) : 256 ^ k = 2 ^ (8 * k) := by
    rw [Nat.pow_mul]
  have small := readLE_lt m n a
  rw [bytes] at small
  rw [assignField, readLE_writeLE_self, bytes, Nat.mod_eq_of_lt (withField_lt small inside)]

/-- Some of the bytes of a number, as a field of it. -/
theorem readLE_field {i k : Nat} (inside : i + k ≤ n) : readLE m k (a + i) = field (readLE m n a) (8 * i) (8 * k) := by
  induction i generalizing a n with
  | zero =>
    rw [Nat.mul_zero, field, Nat.pow_zero, Nat.div_one, Nat.add_zero]
    induction k generalizing a n with
    | zero => rw [Nat.mul_zero, Nat.pow_zero, Nat.mod_one, readLE]
    | succ k ih =>
      obtain ⟨n, rfl⟩ : ∃ j, n = j + 1 := ⟨n - 1, by omega⟩
      have byte := (m a).toNat_lt
      have rest : ((m a).toNat + 256 * readLE m n (a + 1)) / 2 ^ 8 = readLE m n (a + 1) := by omega
      have low : ((m a).toNat + 256 * readLE m n (a + 1)) % 2 ^ 8 = (m a).toNat := by omega
      rw [readLE, readLE, ih (show 0 + k ≤ n by omega), Nat.mul_succ, Nat.add_comm (8 * k), Nat.pow_add, Nat.mod_mul, rest, low]
  | succ i ih =>
    obtain ⟨n, rfl⟩ : ∃ j, n = j + 1 := ⟨n - 1, by omega⟩
    have byte := (m a).toNat_lt
    have rest : readLE m (n + 1) a / 2 ^ 8 = readLE m n (a + 1) := by
      rw [readLE]
      omega
    rw [show a + (i + 1) = a + 1 + i by omega, ih (show i + k ≤ n by omega), ← rest, ← field_div (show 8 ≤ 8 * (i + 1) by omega),
      show 8 * (i + 1) - 8 = 8 * i by omega]

end

end BitFields

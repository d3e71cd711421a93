import MetalToApp.Library.Paging

namespace Paging
open ByteMemory

abbrev Address := BitVec 64

/-- The translations that the processor uses for its own accesses: where a byte of the
virtual memory lies, and which bytes may be stored to. -/
structure View where
  physical : Address → Option Nat
  writable : Address → Bool
  offset : ∀ {v p}, physical v = some p → p % 4096 = v.toNat % 4096

namespace View

/-- Little-endian load of `n` bytes, each through its own translation. -/
def load (V : View) (m : Memory) : Nat → Address → Option Nat
  | 0, _ => some 0
  | n + 1, v => do
    let p ← V.physical v
    let high ← V.load m n (v + 1)
    return (m p).toNat + 256 * high

/-- Little-endian store of the low `n` bytes of `w`. -/
def store (V : View) (m : Memory) : Nat → Address → Nat → Option Memory
  | 0, _, _ => some m
  | n + 1, v, w =>
    if V.writable v then do
      let p ← V.physical v
      V.store (set m p (UInt8.ofNat w)) n (v + 1) (w / 256)
    else none

variable {V : View} {m m' : Memory} {n k w p x : Nat} {v a b : Address}

theorem toNat_add_offset (v : Address) (i : Nat) : (v + BitVec.ofNat 64 i).toNat % 4096 = (v.toNat + i) % 4096 := by
  rw [BitVec.toNat_add, BitVec.toNat_ofNat]
  omega

theorem add_one_add (v : Address) (i : Nat) : v + 1 + BitVec.ofNat 64 i = v + BitVec.ofNat 64 (i + 1) := by
  rw [BitVec.ofNat_add, BitVec.add_assoc, BitVec.add_comm (BitVec.ofNat 64 i)]
  rfl

theorem load_succ : V.load m (n + 1) v = some w ↔
    ∃ p high, V.physical v = some p ∧ V.load m n (v + 1) = some high ∧ (m p).toNat + 256 * high = w := by
  simp only [load, Option.pure_def, Option.bind_eq_bind, Option.bind_eq_some_iff, Option.some_inj, exists_and_left]

theorem load_lt (loaded : V.load m n v = some w) : w < 256 ^ n := by
  induction n generalizing v w with
  | zero =>
    cases loaded
    simp
  | succ n ih =>
    obtain ⟨p, high, _, rest, rfl⟩ := load_succ.mp loaded
    have tail := ih rest
    have head := (m p).toNat_lt
    rw [Nat.pow_succ]
    omega

theorem store_succ : V.store m (n + 1) v w = some m' ↔
    ∃ p, V.writable v = true ∧ V.physical v = some p ∧
      V.store (set m p (UInt8.ofNat w)) n (v + 1) (w / 256) = some m' := by
  simp only [store, Option.bind_eq_bind]
  split
  · simp_all only [Option.bind_eq_some_iff, true_and]
  · simp_all

/-- The lowest byte of a loaded number. -/
theorem load_low (loaded : V.load m (n + 1) v = some w) (place : V.physical v = some p) : m p = UInt8.ofNat w := by
  obtain ⟨q, high, here, -, rfl⟩ := load_succ.mp loaded
  obtain rfl := Option.some.inj (here.symm.trans place)
  refine UInt8.toNat_inj.mp ?_
  have bound := (m q).toNat_lt
  rw [UInt8.toNat_ofNat']
  omega

/-- A store changes only the bytes that it translates. -/
theorem store_outside (stored : V.store m n v w = some m')
    (outside : ∀ i < n, V.physical (v + BitVec.ofNat 64 i) ≠ some x) : m' x = m x := by
  induction n generalizing m v w with
  | zero =>
    cases stored
    rfl
  | succ n ih =>
    obtain ⟨p, _, place, rest⟩ := store_succ.mp stored
    have head : x ≠ p := fun same => outside 0 (by omega) (by rw [same]; simpa using place)
    rw [ih rest fun i bound => by rw [add_one_add]; exact outside (i + 1) (by omega), set_of_ne head]

theorem load_congr (same : ∀ i < n, ∀ p, V.physical (v + BitVec.ofNat 64 i) = some p → m' p = m p) :
    V.load m' n v = V.load m n v := by
  induction n generalizing v with
  | zero => rfl
  | succ n ih =>
    have tail : V.load m' n (v + 1) = V.load m n (v + 1) :=
      ih fun i bound p place => same (i + 1) (by omega) p (by rwa [add_one_add] at place)
    simp only [load, tail]
    cases place : V.physical v with
    | none => rfl
    | some p =>
      have head := same 0 (by omega) p (by simpa using place)
      simp only [Option.bind_eq_bind, Option.bind_some, head]

/-- A load of bytes that a store does not reach is the load before it. -/
theorem load_store_apart (stored : V.store m k a w = some m')
    (apart : ∀ i < n, ∀ j < k, ∀ p, V.physical (b + BitVec.ofNat 64 i) = some p →
      V.physical (a + BitVec.ofNat 64 j) ≠ some p) : V.load m' n b = V.load m n b :=
  load_congr fun i bound p place => store_outside stored fun j inside => apart i bound j inside p place

/-- Bytes less than a page away are apart, however the pages are mapped. -/
theorem apart_of_near {i j : Nat} (near : (b.toNat + i) % 4096 ≠ (a.toNat + j) % 4096)
    (place : V.physical (b + BitVec.ofNat 64 i) = some p) : V.physical (a + BitVec.ofNat 64 j) ≠ some p := by
  intro other
  have first := V.offset place
  have second := V.offset other
  rw [toNat_add_offset] at first second
  exact near (first.symm.trans second)

/-- A load fails only on bytes that are not mapped. -/
theorem load_isSome (mapped : ∀ i < n, ∃ p, V.physical (v + BitVec.ofNat 64 i) = some p) : ∃ w, V.load m n v = some w := by
  induction n generalizing v with
  | zero => exact ⟨0, rfl⟩
  | succ n ih =>
    obtain ⟨p, place⟩ := mapped 0 (by omega)
    obtain ⟨high, rest⟩ := ih fun i bound => by
      rw [add_one_add]
      exact mapped (i + 1) (by omega)
    exact ⟨_, load_succ.mpr ⟨p, high, by simpa using place, rest, rfl⟩⟩

/-- The load of a number whose little-endian bytes lie in place. -/
theorem load_bytes (bytes : ∀ i < n, ∃ p, V.physical (v + BitVec.ofNat 64 i) = some p ∧ m p = UInt8.ofNat (w / 256 ^ i)) :
    V.load m n v = some (w % 256 ^ n) := by
  induction n generalizing v w with
  | zero => simp [load, Nat.mod_one]
  | succ n ih =>
    obtain ⟨p, place, byte⟩ := bytes 0 (by omega)
    have rest : V.load m n (v + 1) = some (w / 256 % 256 ^ n) := ih fun i bound => by
      obtain ⟨q, next, value⟩ := bytes (i + 1) (by omega)
      refine ⟨q, by rwa [add_one_add], ?_⟩
      rw [value, Nat.pow_succ, Nat.mul_comm, Nat.div_div_eq_div_mul]
    have low : (UInt8.ofNat (w / 256 ^ 0)).toNat = w % 256 := by simp
    refine load_succ.mpr ⟨p, _, by simpa using place, rest, ?_⟩
    rw [byte, low, Nat.pow_succ, Nat.mul_comm (256 ^ n) 256, Nat.mod_mul]

/-- What was stored is what is loaded from there. -/
theorem load_store_self (stored : V.store m n v w = some m') (small : n ≤ 4096) :
    V.load m' n v = some (w % 256 ^ n) := by
  induction n generalizing m v w with
  | zero => simp [load, Nat.mod_one]
  | succ n ih =>
    obtain ⟨p, _, place, rest⟩ := store_succ.mp stored
    have byte : m' p = UInt8.ofNat w := by
      rw [store_outside rest fun i bound => ?_, set_self]
      rw [add_one_add]
      refine apart_of_near (b := v) (i := 0) (by omega) (by simpa using place)
    refine load_succ.mpr ⟨p, _, place, ih rest (by omega), ?_⟩
    have low : (UInt8.ofNat w).toNat = w % 256 := by simp
    rw [byte, low, Nat.pow_succ, Nat.mul_comm (256 ^ n) 256, Nat.mod_mul]

/-- The bytes of `code` lie from `v` up. -/
def holds (V : View) (m : Memory) : Address → List UInt8 → Bool
  | _, [] => true
  | v, b :: code => (V.physical v).map m == some b && V.holds m (v + 1) code

theorem holds_iff {code : List UInt8} : V.holds m v code = true ↔
    ∀ i b, code[i]? = some b → (V.physical (v + BitVec.ofNat 64 i)).map m = some b := by
  induction code generalizing v with
  | nil => exact ⟨fun _ i b found => (by cases found), fun _ => rfl⟩
  | cons b code ih =>
    rw [holds, Bool.and_eq_true, beq_iff_eq, ih]
    constructor
    · rintro ⟨head, tail⟩ i c found
      cases i with
      | zero =>
        cases found
        simpa using head
      | succ i =>
        rw [← add_one_add]
        exact tail i c found
    · intro all
      refine ⟨by simpa using all 0 b rfl, fun i c found => ?_⟩
      rw [add_one_add]
      exact all (i + 1) c found

theorem holds_append {first second : List UInt8} : V.holds m v (first ++ second) =
    (V.holds m v first && V.holds m (v + BitVec.ofNat 64 first.length) second) := by
  induction first generalizing v with
  | nil => simp [holds]
  | cons b first ih => rw [List.cons_append, holds, ih, holds, Bool.and_assoc, add_one_add, List.length_cons]

theorem holds_congr {code : List UInt8}
    (same : ∀ i < code.length, ∀ p, V.physical (v + BitVec.ofNat 64 i) = some p → m' p = m p) :
    V.holds m' v code = V.holds m v code := by
  induction code generalizing v with
  | nil => rfl
  | cons b code ih =>
    have tail := ih (v := v + 1) fun i bound p place => same (i + 1) (by simpa using bound) p (by rwa [add_one_add] at place)
    have head : (V.physical v).map m' = (V.physical v).map m := by
      cases place : V.physical v with
      | none => rfl
      | some p => exact congrArg some (same 0 (by simp) p (by simpa using place))
    rw [holds, holds, tail, head]

/-- The `n` bytes from `v` up can be stored to. -/
def Storable (V : View) (n : Nat) (v : Address) : Prop :=
  ∀ i < n, V.writable (v + BitVec.ofNat 64 i) = true ∧ ∃ p, V.physical (v + BitVec.ofNat 64 i) = some p

theorem storable_succ : V.Storable (n + 1) v ↔
    (V.writable v = true ∧ ∃ p, V.physical v = some p) ∧ V.Storable n (v + 1) := by
  constructor
  · intro all
    refine ⟨by simpa using all 0 (by omega), fun i bound => ?_⟩
    rw [add_one_add]
    exact all (i + 1) (by omega)
  · rintro ⟨head, tail⟩ i bound
    cases i with
    | zero => simpa using head
    | succ i =>
      rw [← add_one_add]
      exact tail i (by omega)

/-- A store fails only on bytes that cannot be stored to. -/
theorem store_isSome : (∃ m', V.store m n v w = some m') ↔ V.Storable n v := by
  induction n generalizing m v w with
  | zero => exact ⟨fun _ i bound => absurd bound (Nat.not_lt_zero i), fun _ => ⟨m, rfl⟩⟩
  | succ n ih =>
    rw [storable_succ]
    constructor
    · rintro ⟨m', stored⟩
      obtain ⟨p, writable, place, rest⟩ := store_succ.mp stored
      exact ⟨⟨writable, p, place⟩, ih.mp ⟨m', rest⟩⟩
    · rintro ⟨⟨writable, p, place⟩, tail⟩
      obtain ⟨m', rest⟩ := (ih (m := set m p (UInt8.ofNat w)) (w := w / 256)).mpr tail
      exact ⟨m', store_succ.mpr ⟨p, writable, place, rest⟩⟩

theorem Storable.part (all : V.Storable (n + k) v) : V.Storable n v ∧ V.Storable k (v + BitVec.ofNat 64 n) := by
  refine ⟨fun i bound => all i (by omega), fun i bound => ?_⟩
  rw [BitVec.add_assoc, ← BitVec.ofNat_add]
  exact all (n + i) (by omega)

/-- The view through the page tables at `cr3`. Without write protection the processor
also stores to pages that are not writable. -/
def ofTables (m : Memory) (cr3 : Nat) (writeProtect : Bool) : View where
  physical v := (walk m cr3 v.toNat).map Translation.address
  writable v := !writeProtect || ((walk m cr3 v.toNat).map Translation.writable).getD false
  offset found := by
    obtain ⟨q, walked, rfl⟩ := Option.map_eq_some_iff.mp found
    unfold walk at walked
    split at walked
    · exact walkFrom_offset walked
    · cases walked

/-- Tables that translate alike give one view. -/
theorem ofTables_congr {cr3 : Nat} {writeProtect : Bool} (same : ∀ v, walk m' cr3 v = walk m cr3 v) :
    ofTables m' cr3 writeProtect = ofTables m cr3 writeProtect := by
  simp only [ofTables, same]

end View

/-- The translations by the tables in memory, as memory stands. -/
abbrev Tables := Memory → View

end Paging

import MetalToApp.Library.ByteMemory
import Mathlib.Tactic.IntervalCases

namespace Paging
open ByteMemory

/-- Bit `k` of a page-table entry. -/
def flag (e k : Nat) : Bool := decide (e / 2 ^ k % 2 = 1)

abbrev present (e : Nat) : Bool := flag e 0
abbrev writable (e : Nat) : Bool := flag e 1
abbrev usermode (e : Nat) : Bool := flag e 2
abbrev big (e : Nat) : Bool := flag e 7

/-- The physical address field, bits 12 to 51. -/
def frameOf (e : Nat) : Nat := e / 4096 % 2 ^ 40 * 4096

/-- Nine address bits select the entry at each level; level 0 is the last table. -/
def index (level v : Nat) : Nat := v / 2 ^ (12 + 9 * level) % 512

/-- The entry `i` of the table at `table`. -/
abbrev word (m : Memory) (table i : Nat) : Nat := read64 m (table + 8 * i)

structure Translation where
  address : Nat
  user : Bool
  writable : Bool
deriving DecidableEq, Repr

/-- The processor's table walk from a table of the given level down. Permissions
are the conjunction over the levels. A set `big` bit ends the walk with a large page,
except in the top table, where the bit is reserved and the access faults. -/
def walkFrom (m : Memory) : Nat → Nat → Nat → Bool → Bool → Option Translation
  | 0, table, v, u, w =>
    let e := word m table (index 0 v)
    if present e then some ⟨frameOf e + v % 4096, u && usermode e, w && writable e⟩ else none
  | level + 1, table, v, u, w =>
    let e := word m table (index (level + 1) v)
    if present e then
      if big e then
        if level + 1 = 3 then none
        else
          let size := 2 ^ (12 + 9 * (level + 1))
          some ⟨frameOf e / size * size + v % size, u && usermode e, w && writable e⟩
      else walkFrom m level (frameOf e) v (u && usermode e) (w && writable e)
    else none

/-- Bits 48 to 63 repeat bit 47. -/
def Canonical (v : Nat) : Prop := v < 2 ^ 47 ∨ 2 ^ 64 - 2 ^ 47 ≤ v ∧ v < 2 ^ 64

instance : DecidablePred Canonical := fun _ => inferInstanceAs (Decidable (_ ∨ _))

def walk (m : Memory) (cr3 v : Nat) : Option Translation :=
  if Canonical v then walkFrom m 3 (frameOf cr3) v true true else none

/-- A page of physical memory that user code can reach through the tables at `cr3`. -/
def UserPage (m : Memory) (cr3 f : Nat) : Prop :=
  ∃ v t, walk m cr3 v = some t ∧ t.user = true ∧ t.address / 4096 * 4096 = f

/-- The tables that serve the walks from `cr3`, with their levels. -/
inductive TableAt (m : Memory) (cr3 : Nat) : Nat → Nat → Prop
  | root : TableAt m cr3 3 (frameOf cr3)
  | next {level t i} : TableAt m cr3 (level + 1) t → i < 512 → present (word m t i) → big (word m t i) = false →
      TableAt m cr3 level (frameOf (word m t i))

theorem index_lt (level v : Nat) : index level v < 512 := Nat.mod_lt _ (by decide)

/-- A walk keeps the place within the page. -/
theorem walkFrom_offset {level t v : Nat} {u write : Bool} {q : Translation}
    (found : walkFrom m level t v u write = some q) : q.address % 4096 = v % 4096 := by
  induction level generalizing t u write with
  | zero =>
    simp only [walkFrom] at found
    split at found
    · cases found
      simp only [frameOf]
      omega
    · cases found
  | succ level ih =>
    simp only [walkFrom] at found
    split at found
    · split at found
      · split at found
        · cases found
        · cases found
          have size : 2 ^ (12 + 9 * (level + 1)) = 4096 * 2 ^ (9 * (level + 1)) := by rw [Nat.pow_add]
          simp only [size, Nat.add_mod, Nat.mul_left_comm _ 4096, Nat.mul_mod_right, Nat.zero_add, Nat.mod_mul_right_mod,
            Nat.mod_mod]
      · exact ih found
    · cases found

theorem index_within {v k : Nat} (inPage : v % 4096 + k < 4096) (level : Nat) : index level (v + k) = index level v := by
  have page : (v + k) / 4096 = v / 4096 := by omega
  rw [index, index, Nat.pow_add, ← Nat.div_div_eq_div_mul, ← Nat.div_div_eq_div_mul, show 2 ^ 12 = 4096 from rfl, page]

/-- A walk to a byte takes the bytes behind it in its page along. -/
theorem walkFrom_within {level t v k : Nat} {u write : Bool} {q : Translation} (found : walkFrom m level t v u write = some q)
    (inPage : v % 4096 + k < 4096) : walkFrom m level t (v + k) u write = some { q with address := q.address + k } := by
  induction level generalizing t u write with
  | zero =>
    simp only [walkFrom, index_within inPage] at found ⊢
    split at found
    · rename_i here
      cases found
      rw [if_pos here, show (v + k) % 4096 = v % 4096 + k by omega, Nat.add_assoc]
    · cases found
  | succ level ih =>
    simp only [walkFrom, index_within inPage] at found ⊢
    split at found
    · rename_i here
      rw [if_pos here]
      split at found
      · rename_i large
        rw [if_pos large]
        split at found
        · cases found
        · rename_i inner
          cases found
          have size : 2 ^ (12 + 9 * (level + 1)) = 4096 * 2 ^ (9 * (level + 1)) := by rw [Nat.pow_add]
          have place : (v + k) % 2 ^ (12 + 9 * (level + 1)) = v % 2 ^ (12 + 9 * (level + 1)) + k := by
            rw [size, Nat.mod_mul, Nat.mod_mul, show (v + k) / 4096 = v / 4096 by omega, show (v + k) % 4096 = v % 4096 + k by omega]
            omega
          rw [if_neg inner, place, Nat.add_assoc]
      · rename_i small
        rw [if_neg small]
        exact ih found
    · cases found

theorem walk_within {cr3 v k : Nat} {q : Translation} (found : walk m cr3 v = some q) (inPage : v % 4096 + k < 4096) :
    walk m cr3 (v + k) = some { q with address := q.address + k } := by
  rw [walk] at found ⊢
  split at found
  · rename_i canonical
    have same : Canonical (v + k) := by
      unfold Canonical at *
      omega
    rw [if_pos same]
    exact walkFrom_within found inPage
  · cases found
theorem flag_aligned_add {f c k : Nat} (aligned : f % 4096 = 0) (low : k < 12) :
    flag (f + c) k = flag c k := by
  obtain ⟨q, rfl⟩ := Nat.dvd_of_mod_eq_zero aligned
  unfold flag
  interval_cases k <;> congr 2 <;> omega

theorem frameOf_aligned_add {f c : Nat} (aligned : f % 4096 = 0) (small : c < 4096)
    (bound : f < 2 ^ 52) : frameOf (f + c) = f := by
  unfold frameOf
  omega

theorem frameOf_eq_self {f : Nat} (aligned : f % 4096 = 0) (bound : f < 2 ^ 52) : frameOf f = f :=
  frameOf_aligned_add (c := 0) aligned (by decide) bound

theorem word_congr {m m' : Memory} {table i : Nat} (same : Agree m m' table 4096) (bound : i < 512) :
    word m' table i = word m table i :=
  same.readLE (by omega)

theorem word_write64_mod (m : Memory) (table i v : Nat) : word (write64 m (table + 8 * i) v) table i = v % 2 ^ 64 := by
  rw [word, read64, write64, readLE_writeLE_self]
  norm_num

theorem word_write64_self {m : Memory} {table i v : Nat} (fits : v < 2 ^ 64) :
    word (write64 m (table + 8 * i) v) table i = v :=
  read64_write64_self fits

/-- Storing an entry changes no other entry of any table. -/
theorem word_write64_of_ne {m : Memory} {table table' i j v : Nat} (aligned : table % 4096 = 0)
    (aligned' : table' % 4096 = 0) (bound : i < 512) (bound' : j < 512) (different : table' = table → j ≠ i) :
    word (write64 m (table + 8 * i) v) table' j = word m table' j := by
  refine read64_write64_disjoint ?_
  by_cases same : table' = table
  · have := different same
    omega
  · omega

/-- Rewriting one page of memory changes no entry of another. -/
theorem word_outside {m m' : Memory} {t q i : Nat} (aligned : t % 4096 = 0) (aligned' : q % 4096 = 0)
    (different : q ≠ t) (bound : i < 512) (outside : ∀ x, x < t ∨ t + 4096 ≤ x → m' x = m x) :
    word m' q i = word m q i :=
  word_congr (fun o inside => outside _ (by omega)) bound

/-- Walks agree when the memories agree on every table a walk can enter. -/
theorem walkFrom_congr {m m' : Memory} (tables : Nat → Nat → Prop)
    (same : ∀ level t i, tables level t → i < 512 → word m' t i = word m t i)
    (closed : ∀ level t i, tables (level + 1) t → i < 512 → present (word m t i) →
      big (word m t i) = false → tables level (frameOf (word m t i)))
    {level t : Nat} (inside : tables level t) (v : Nat) (u w : Bool) :
    walkFrom m' level t v u w = walkFrom m level t v u w := by
  induction level generalizing t u w with
  | zero => simp only [walkFrom, same 0 t _ inside (index_lt 0 v)]
  | succ level ih =>
    have entry := same (level + 1) t _ inside (index_lt (level + 1) v)
    simp only [walkFrom, entry]
    split
    · rename_i isPresent
      split
      · rfl
      · rename_i notBig
        exact ih (closed level t _ inside (index_lt _ _) isPresent (by simpa using notBig)) _ _
    · rfl

/-- A page of user memory is where some walk ends. -/
theorem UserPage.of_walk {m : Memory} {cr3 v : Nat} {q : Translation} (found : walk m cr3 v = some q) (user : q.user = true) :
    UserPage m cr3 (q.address / 4096 * 4096) :=
  ⟨v, q, found, user, rfl⟩

theorem UserPage.aligned {m : Memory} {cr3 f : Nat} (page : UserPage m cr3 f) : f % 4096 = 0 := by
  obtain ⟨v, q, -, -, rfl⟩ := page
  exact Nat.mul_mod_left _ _

theorem TableAt.aligned {m : Memory} {cr3 level t : Nat} (table : TableAt m cr3 level t) : t % 4096 = 0 := by
  cases table with
  | root => exact Nat.mul_mod_left _ _
  | next => exact Nat.mul_mod_left _ _

/-- Walks from a root agree when its tables do. -/
theorem walk_congr {m m' : Memory} {cr3 : Nat} (same : ∀ level t, TableAt m cr3 level t → Agree m m' t 4096) (v : Nat) :
    walk m' cr3 v = walk m cr3 v := by
  unfold walk
  split
  · exact walkFrom_congr (TableAt m cr3) (fun level t i table bound => word_congr (same level t table) bound)
      (fun level t i table bound isPresent small => .next table bound isPresent small) .root v true true
  · rfl

/-- A memory with the same tables at a root has them in the same places. -/
theorem tableAt_congr {m m' : Memory} {cr3 level t : Nat} (same : ∀ level t, TableAt m cr3 level t → Agree m m' t 4096) :
    TableAt m' cr3 level t ↔ TableAt m cr3 level t := by
  constructor
  · intro table
    induction table with
    | root => exact .root
    | @next level t i _ bound isPresent small ih =>
      have entry : word m' t i = word m t i := word_congr (same _ t ih) bound
      rw [entry] at isPresent small ⊢
      exact .next ih bound isPresent small
  · intro table
    induction table with
    | root => exact .root
    | @next level t i above bound isPresent small ih =>
      have entry : word m' t i = word m t i := word_congr (same _ t above) bound
      rw [← entry] at isPresent small ⊢
      exact .next ih bound isPresent small

theorem userPage_congr {m m' : Memory} {cr3 f : Nat} (same : ∀ level t, TableAt m cr3 level t → Agree m m' t 4096) :
    UserPage m' cr3 f ↔ UserPage m cr3 f := by
  simp only [UserPage, walk_congr same]

end Paging

import MetalToApp.Descriptors
import MetalToApp.Task

namespace MetalToApp
open ByteMemory BitFields

/-! `struct gdt_segment_descriptor`. -/

namespace GdtSegmentDescriptor

def limitLow : Member := ⟨0, 16⟩
def baseLow : Member := ⟨16, 16⟩
def type : Member := ⟨40, 4⟩
def descriptorType : Member := ⟨44, 1⟩
def dpl : Member := ⟨45, 2⟩
def present : Member := ⟨47, 1⟩
def limitHigh : Member := ⟨48, 4⟩
def available : Member := ⟨52, 1⟩
def longMode : Member := ⟨53, 1⟩
def operationSize : Member := ⟨54, 1⟩
def granularity : Member := ⟨55, 1⟩
def baseHigh : Member := ⟨56, 8⟩

end GdtSegmentDescriptor

/-- Assignment to a member of an 8-byte structure. -/
def Member.assign8 (q : Member) (m : Memory) (a v : Nat) : Memory := assignField m a 8 q.offset q.width v

inductive GdtSegmentType
  | dataRw
  | codeXr
deriving DecidableEq, Repr

def GdtSegmentType.value : GdtSegmentType → Nat
  | dataRw => 2
  | codeXr => 10

/-- `gdt_segment_type_code_x`, the bit that all code segments have. -/
def gdtSegmentTypeCodeX : Nat := 8

/-- The middle of the base is left as it is. -/
def initSegmentDescriptor (m : Memory) (desc : Nat) (type : GdtSegmentType) (privilegeLevel : Nat) : Memory :=
  let m := GdtSegmentDescriptor.baseHigh.assign8 m desc 0
  let m := GdtSegmentDescriptor.baseLow.assign8 m desc 0
  let m := GdtSegmentDescriptor.limitHigh.assign8 m desc (2 ^ 32 - 1)
  let m := GdtSegmentDescriptor.limitLow.assign8 m desc (2 ^ 32 - 1)
  let m := GdtSegmentDescriptor.type.assign8 m desc type.value
  let m := GdtSegmentDescriptor.descriptorType.assign8 m desc 1
  let m := GdtSegmentDescriptor.dpl.assign8 m desc privilegeLevel
  let m := GdtSegmentDescriptor.present.assign8 m desc 1
  let m := GdtSegmentDescriptor.operationSize.assign8 m desc (if type.value &&& gdtSegmentTypeCodeX = 0 then 1 else 0)
  let m := GdtSegmentDescriptor.granularity.assign8 m desc 1
  let m := GdtSegmentDescriptor.longMode.assign8 m desc (if type.value &&& gdtSegmentTypeCodeX = 0 then 0 else 1)
  GdtSegmentDescriptor.available.assign8 m desc 0

namespace GDT

def cs32u : Nat := 24
def tss : Nat := 48

/-- `sizeof (struct GDT)`. -/
def size : Nat := 64

end GDT

def initGdt (m : Memory) (gdt : Nat) (tss : BitVec 64) : Memory :=
  let m := write64 m gdt 0
  let m := initSegmentDescriptor m (gdt + GDT.cs64) .codeXr 0
  let m := initSegmentDescriptor m (gdt + GDT.ds) .dataRw 0
  let m := initSegmentDescriptor m (gdt + GDT.cs32u) .codeXr 0
  let m := GdtSegmentDescriptor.longMode.assign8 m (gdt + GDT.cs32u) 0
  let m := GdtSegmentDescriptor.operationSize.assign8 m (gdt + GDT.cs32u) 1
  let m := initSegmentDescriptor m (gdt + GDT.dsu) .dataRw 3
  let m := initSegmentDescriptor m (gdt + GDT.cs64u) .codeXr 3
  initTssDescriptor m (gdt + GDT.tss) tss

/-! How the processor reads a segment descriptor, and which selectors it accepts. -/

structure Segment where
  base : Nat
  limit : Nat
  type : Nat
  descriptorType : Nat
  dpl : Nat
  present : Nat
  longMode : Nat
  operationSize : Nat
  granularity : Nat
deriving DecidableEq

def decodeSegment (m : Memory) (a : Nat) : Segment :=
  let n := readLE m 8 a
  { base := field n 16 16 + 2 ^ 16 * field n 32 8 + 2 ^ 24 * field n 56 8
    limit := field n 0 16 + 2 ^ 16 * field n 48 4
    type := field n 40 4
    descriptorType := field n 44 1
    dpl := field n 45 2
    present := field n 47 1
    longMode := field n 53 1
    operationSize := field n 54 1
    granularity := field n 55 1 }

/-- The flat segments of `init_gdt`. -/
def flatSegment (type : GdtSegmentType) (level : Nat) : Segment where
  base := 0
  limit := 2 ^ 20 - 1
  type := type.value
  descriptorType := 1
  dpl := level
  present := 1
  longMode := if type = .codeXr then 1 else 0
  operationSize := if type = .codeXr then 0 else 1
  granularity := 1

/-- A code segment that the processor may run at this level. -/
def Segment.Code (s : Segment) (level : Nat) : Prop :=
  s.present = 1 ∧ s.descriptorType = 1 ∧ s.type / 8 = 1 ∧ if s.type / 4 % 2 = 1 then s.dpl ≤ level else s.dpl = level

/-- A writable data segment that `ss` may hold at this level. -/
def Segment.Stack (s : Segment) (level : Nat) : Prop :=
  s.present = 1 ∧ s.descriptorType = 1 ∧ s.type / 8 = 0 ∧ s.type / 2 % 2 = 1 ∧ s.dpl = level

/-- The selector names a descriptor inside the table that fits the level that it asks for. -/
def Selects (kind : Segment → Nat → Prop) (m : Memory) (gdt limit selector : Nat) : Prop :=
  selector / 8 ≠ 0 ∧ selector / 4 % 2 = 0 ∧ 8 * (selector / 8) + 7 ≤ limit ∧
    kind (decodeSegment m (gdt + 8 * (selector / 8))) (selector % 4)

section descriptors
variable {m : Memory} {a x : Nat}

theorem Member.readLE_assign8 (q : Member) (v : Nat) (inside : q.offset + q.width ≤ 64) :
    readLE (q.assign8 m a v) 8 a = withField (readLE m 8 a) q.offset q.width v :=
  readLE_assignField inside

theorem Member.assign8_outside (q : Member) {v : Nat} (outside : x < a ∨ a + 8 ≤ x) : q.assign8 m a v x = m x :=
  assignField_outside outside

theorem initSegmentDescriptor_outside {type : GdtSegmentType} {level : Nat} (outside : x < a ∨ a + 8 ≤ x) :
    initSegmentDescriptor m a type level x = m x := by
  simp only [initSegmentDescriptor, Member.assign8_outside _ outside]

theorem initTssDescriptor_outside {tss : BitVec 64} (outside : x < a ∨ a + 16 ≤ x) :
    initTssDescriptor m a tss x = m x := by
  simp only [initTssDescriptor, Member.assign_outside _ outside]

theorem decodeSegment_congr {m' : Memory} (same : Agree m m' a 8) : decodeSegment m' a = decodeSegment m a := by
  have number : readLE m' 8 a = readLE m 8 a := readLE_congr same
  simp only [decodeSegment, number]

theorem decodeSegment_initSegmentDescriptor (type : GdtSegmentType) {level : Nat} (ring : level < 4) (clear : m (a + 4) = 0) :
    decodeSegment (initSegmentDescriptor m a type level) a =
      flatSegment type level := by
  have middle : field (readLE m 8 a) 32 8 = 0 := by
    have byte : readLE m 1 (a + 4) = field (readLE m 8 a) 32 8 := readLE_field (by decide)
    rw [← byte]
    simp [readLE, clear]
  have kind : type.value % 2 ^ 4 = type.value := by cases type <;> rfl
  have privilege : level % 2 ^ 2 = level := Nat.mod_eq_of_lt ring
  simp (disch := decide) only [decodeSegment, initSegmentDescriptor, Member.readLE_assign8, GdtSegmentDescriptor.limitLow,
    GdtSegmentDescriptor.baseLow, GdtSegmentDescriptor.type, GdtSegmentDescriptor.descriptorType, GdtSegmentDescriptor.dpl,
    GdtSegmentDescriptor.present, GdtSegmentDescriptor.limitHigh, GdtSegmentDescriptor.available,
    GdtSegmentDescriptor.longMode, GdtSegmentDescriptor.operationSize, GdtSegmentDescriptor.granularity,
    GdtSegmentDescriptor.baseHigh, field_withField_self, field_withField_apart, middle, kind, privilege]
  cases type <;> rfl

/-- What the changes to `CS32U` make of its descriptor. -/
theorem decodeSegment_cs32u : decodeSegment
    (GdtSegmentDescriptor.operationSize.assign8 (GdtSegmentDescriptor.longMode.assign8 m a 0) a 1) a =
      { decodeSegment m a with longMode := 0, operationSize := 1 } := by
  simp (disch := decide) only [decodeSegment, Member.readLE_assign8, GdtSegmentDescriptor.longMode,
    GdtSegmentDescriptor.operationSize, field_withField_self, field_withField_apart]
  rfl

/-- The two halves of a system segment descriptor are not taken for segments. -/
theorem decodeSegment_initTssDescriptor (tss : BitVec 64) :
    (decodeSegment (initTssDescriptor m a tss) a).descriptorType = 0 ∧
      (decodeSegment (initTssDescriptor m a tss) (a + 8)).descriptorType = 0 := by
  have low : readLE (initTssDescriptor m a tss) 8 a = field (readLE (initTssDescriptor m a tss) 16 a) 0 64 :=
    readLE_field (i := 0) (by decide)
  have high : readLE (initTssDescriptor m a tss) 8 (a + 8) = field (readLE (initTssDescriptor m a tss) 16 a) 64 64 :=
    readLE_field (i := 8) (k := 8) (by decide)
  have reserved (n : Nat) : field n (64 + 44) 1 = field (field n 96 32) 12 1 := by
    rw [field_field (by decide)]
  constructor
  · simp only [decodeSegment, low]
    rw [field_field (by decide)]
    simp (disch := decide) only [initTssDescriptor, Member.readLE_assign, GdtTssDescriptor.limitLow,
      GdtTssDescriptor.baseLow, GdtTssDescriptor.baseMid, GdtTssDescriptor.type, GdtTssDescriptor.descriptorType,
      GdtTssDescriptor.dpl, GdtTssDescriptor.present, GdtTssDescriptor.limitHigh, GdtTssDescriptor.longMode,
      GdtTssDescriptor.operationSize, GdtTssDescriptor.granularity, GdtTssDescriptor.baseHigh, GdtTssDescriptor.baseOver,
      GdtTssDescriptor.reserved, Nat.zero_add, field_withField_self, field_withField_apart]
    rfl
  · simp only [decodeSegment, high]
    rw [field_field (by decide), reserved]
    simp (disch := decide) only [initTssDescriptor, Member.readLE_assign, GdtTssDescriptor.reserved, field_withField_self]
    rfl

/-- The table as the processor reads it. -/
structure FlatGdt (m : Memory) (gdt : Nat) : Prop where
  cs64 : decodeSegment m (gdt + GDT.cs64) = flatSegment .codeXr 0
  ds : decodeSegment m (gdt + GDT.ds) = flatSegment .dataRw 0
  cs32u : decodeSegment m (gdt + GDT.cs32u) = { flatSegment .codeXr 0 with longMode := 0, operationSize := 1 }
  dsu : decodeSegment m (gdt + GDT.dsu) = flatSegment .dataRw 3
  cs64u : decodeSegment m (gdt + GDT.cs64u) = flatSegment .codeXr 3
  tss : (decodeSegment m (gdt + GDT.tss)).descriptorType = 0 ∧ (decodeSegment m (gdt + GDT.tss + 8)).descriptorType = 0

theorem initGdt_flat {gdt : Nat} (tss : BitVec 64) (clear : ∀ i < GDT.size, m (gdt + i) = 0) :
    FlatGdt (initGdt m gdt tss) gdt := by
  have away {a b : Nat} {m : Memory} {type : GdtSegmentType} {level : Nat} (apart : a + 8 ≤ b ∨ b + 8 ≤ a) :
      decodeSegment (initSegmentDescriptor m b type level) a = decodeSegment m a :=
    decodeSegment_congr fun i inside => initSegmentDescriptor_outside (by omega)
  have awayMember {a b v : Nat} {m : Memory} {q : Member} (apart : a + 8 ≤ b ∨ b + 8 ≤ a) :
      decodeSegment (q.assign8 m b v) a = decodeSegment m a :=
    decodeSegment_congr fun i inside => q.assign8_outside (by omega)
  have awayTss {a b : Nat} {m : Memory} (apart : a + 8 ≤ b ∨ b + 16 ≤ a) :
      decodeSegment (initTssDescriptor m b tss) a = decodeSegment m a :=
    decodeSegment_congr fun i inside => initTssDescriptor_outside (by omega)
  simp only [GDT.size] at clear
  constructor <;> simp only [initGdt, GDT.cs64, GDT.ds, GDT.cs32u, GDT.dsu, GDT.cs64u, GDT.tss]
  case tss => exact decodeSegment_initTssDescriptor tss
  all_goals
    simp (disch := omega) only [away, awayMember, awayTss, decodeSegment_cs32u]
    rw [decodeSegment_initSegmentDescriptor _ (by decide)]
    simp (disch := omega) only [initSegmentDescriptor_outside, Member.assign8_outside, write64_outside, Nat.add_assoc, clear]

theorem FlatGdt.congr {m' : Memory} {gdt : Nat} (flat : FlatGdt m gdt) (same : Agree m m' gdt GDT.size) : FlatGdt m' gdt := by
  have slot {o : Nat} (inside : o + 8 ≤ GDT.size) : decodeSegment m' (gdt + o) = decodeSegment m (gdt + o) :=
    decodeSegment_congr fun i small => by
      rw [Nat.add_assoc]
      exact same (o + i) (by omega)
  constructor
  · exact (slot (by decide)).trans flat.cs64
  · exact (slot (by decide)).trans flat.ds
  · exact (slot (by decide)).trans flat.cs32u
  · exact (slot (by decide)).trans flat.dsu
  · exact (slot (by decide)).trans flat.cs64u
  · have last : decodeSegment m' (gdt + GDT.tss + 8) = decodeSegment m (gdt + GDT.tss + 8) := by
      rw [Nat.add_assoc]
      exact slot (by decide)
    rw [slot (by decide), last]
    exact flat.tss

theorem code_flatSegment {type : GdtSegmentType} {own level : Nat} :
    (flatSegment type own).Code level ↔ type = .codeXr ∧ own = level := by
  cases type <;> simp [Segment.Code, flatSegment, GdtSegmentType.value]

theorem stack_flatSegment {type : GdtSegmentType} {own level : Nat} :
    (flatSegment type own).Stack level ↔ type = .dataRw ∧ own = level := by
  cases type <;> simp [Segment.Stack, flatSegment, GdtSegmentType.value]

/-- What the five segments and the null and system descriptors leave to choose from. -/
theorem FlatGdt.selects_iff {gdt selector : Nat} (flat : FlatGdt m gdt) {kind : Segment → Nat → Prop}
    (segment : ∀ s level, kind s level → s.descriptorType = 1) : Selects kind m gdt GDT.size selector ↔
      selector < GDT.tss ∧ selector / 4 % 2 = 0 ∧ ∃ s, kind s (selector % 4) ∧
        (selector / 8 = 1 ∧ s = flatSegment .codeXr 0 ∨ selector / 8 = 2 ∧ s = flatSegment .dataRw 0 ∨
          selector / 8 = 3 ∧ s = { flatSegment .codeXr 0 with longMode := 0, operationSize := 1 } ∨
          selector / 8 = 4 ∧ s = flatSegment .dataRw 3 ∨ selector / 8 = 5 ∧ s = flatSegment .codeXr 3) := by
  obtain ⟨cs64, ds, cs32u, dsu, cs64u, low, high⟩ := flat
  simp only [GDT.cs64, GDT.ds, GDT.cs32u, GDT.dsu, GDT.cs64u, GDT.tss, Nat.add_assoc, Nat.reduceAdd] at *
  unfold Selects
  generalize level : selector % 4 = level
  generalize index : selector / 8 = i
  simp only [GDT.size]
  constructor
  · rintro ⟨nonNull, global, inside, fits⟩
    have small : i ≤ 7 := by omega
    have kept := segment _ _ fits
    interval_cases i <;> simp_all <;> omega
  · rintro ⟨below, global, s, fits, place⟩
    rcases place with ⟨rfl, rfl⟩ | ⟨rfl, rfl⟩ | ⟨rfl, rfl⟩ | ⟨rfl, rfl⟩ | ⟨rfl, rfl⟩ <;> simp_all

/-- One code segment at each level, and a 32-bit one for the kernel alone. -/
theorem FlatGdt.selects_code {gdt selector : Nat} (flat : FlatGdt m gdt) : Selects Segment.Code m gdt GDT.size selector ↔
    selector = GDT.cs64 ∨ selector = GDT.cs32u ∨ selector = GDT.cs64u + 3 := by
  rw [flat.selects_iff fun _ _ fits => fits.2.1]
  have narrow {level : Nat} : Segment.Code { flatSegment .codeXr 0 with longMode := 0, operationSize := 1 } level ↔
      0 = level := by simp [Segment.Code, flatSegment, GdtSegmentType.value]
  simp only [GDT.tss, GDT.cs64, GDT.cs32u, GDT.cs64u]
  constructor
  · rintro ⟨-, global, s, fits, place⟩
    rcases place with ⟨index, rfl⟩ | ⟨-, rfl⟩ | ⟨index, rfl⟩ | ⟨-, rfl⟩ | ⟨index, rfl⟩
    · have := (code_flatSegment.mp fits).2
      omega
    · exact absurd (code_flatSegment.mp fits).1 nofun
    · have := narrow.mp fits
      omega
    · exact absurd (code_flatSegment.mp fits).1 nofun
    · have := (code_flatSegment.mp fits).2
      omega
  · rintro (rfl | rfl | rfl)
    · exact ⟨by decide, by decide, _, code_flatSegment.mpr ⟨rfl, rfl⟩, Or.inl ⟨rfl, rfl⟩⟩
    · exact ⟨by decide, by decide, _, narrow.mpr rfl, Or.inr (Or.inr (Or.inl ⟨rfl, rfl⟩))⟩
    · exact ⟨by decide, by decide, _, code_flatSegment.mpr ⟨rfl, rfl⟩, Or.inr (Or.inr (Or.inr (Or.inr ⟨rfl, rfl⟩)))⟩

theorem FlatGdt.selects_stack {gdt selector : Nat} (flat : FlatGdt m gdt) : Selects Segment.Stack m gdt GDT.size selector ↔
    selector = GDT.ds ∨ selector = GDT.dsu + 3 := by
  rw [flat.selects_iff fun _ _ fits => fits.2.1]
  simp only [GDT.tss, GDT.ds, GDT.dsu]
  constructor
  · rintro ⟨-, global, s, fits, place⟩
    rcases place with ⟨-, rfl⟩ | ⟨index, rfl⟩ | ⟨-, rfl⟩ | ⟨index, rfl⟩ | ⟨-, rfl⟩
    · exact absurd (stack_flatSegment.mp fits).1 nofun
    · have := (stack_flatSegment.mp fits).2
      omega
    · exact absurd fits.2.2.1 (by decide)
    · have := (stack_flatSegment.mp fits).2
      omega
    · exact absurd (stack_flatSegment.mp fits).1 nofun
  · rintro (rfl | rfl)
    · exact ⟨by decide, by decide, _, stack_flatSegment.mpr ⟨rfl, rfl⟩, Or.inr (Or.inl ⟨rfl, rfl⟩)⟩
    · exact ⟨by decide, by decide, _, stack_flatSegment.mpr ⟨rfl, rfl⟩, Or.inr (Or.inr (Or.inr (Or.inl ⟨rfl, rfl⟩)))⟩

end descriptors

/-! The selectors that `syscall` and `sysretq` load come from `STAR`, not from a descriptor. -/

/-- What `setup_syscall` writes to `STAR` over what is there. -/
def setupStar (star : Nat) : Nat :=
  let value := 0 + (GDT.cs32u &&& 0xffff)
  let value := value <<< 16
  let value := value + (GDT.cs64 &&& 0xffff)
  let value := value <<< 32
  value + (star &&& 0xffffffff)

/-- `cs` and `ss` after `syscall`. -/
def syscallSelectors (star : Nat) : Nat × Nat := (field star 32 16 / 4 * 4, field star 32 16 + 8)

/-- `cs` and `ss` after `sysretq`. -/
def sysretSelectors (star : Nat) : Nat × Nat := (field star 48 16 + 16 ||| 3, field star 48 16 + 8 ||| 3)

theorem setupStar_selectors (star : Nat) :
    syscallSelectors (setupStar star) = (GDT.cs64, GDT.ds) ∧
      sysretSelectors (setupStar star) = (GDT.cs64u + 3, GDT.dsu + 3) := by
  have low : star &&& 0xffffffff = star % 2 ^ 32 := Nat.and_two_pow_sub_one_eq_mod star 32
  have value : setupStar star = 24 * 2 ^ 48 + 8 * 2 ^ 32 + star % 2 ^ 32 := by
    rw [setupStar, low]
    simp [GDT.cs32u, GDT.cs64]
  have cs : field (setupStar star) 32 16 = 8 := by
    rw [value, field]
    omega
  have csUser : field (setupStar star) 48 16 = 24 := by
    rw [value, field]
    omega
  rw [syscallSelectors, sysretSelectors, cs, csUser]
  decide

end MetalToApp

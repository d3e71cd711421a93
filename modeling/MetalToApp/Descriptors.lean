import MetalToApp.Klib
import MetalToApp.Library.BitFields

namespace MetalToApp
open ByteMemory BitFields

/-- A bit-field of a structure: its first bit and its width. -/
structure Member where
  offset : Nat
  width : Nat

/-- Assignment to a member of a 16-byte structure. -/
def Member.assign (q : Member) (m : Memory) (a v : Nat) : Memory := assignField m a 16 q.offset q.width v

/-! `struct idt_entry`; each member follows the one before it. -/

namespace IdtEntry

def offsetLo : Member := ⟨0, 16⟩
def segmentSel : Member := ⟨16, 16⟩
def ist : Member := ⟨32, 3⟩
def type : Member := ⟨40, 4⟩
def dpl : Member := ⟨45, 2⟩
def present : Member := ⟨47, 1⟩
def offsetMid : Member := ⟨48, 16⟩
def offsetHigh : Member := ⟨64, 32⟩

end IdtEntry

inductive GateType
  | interruptGate
  | trapGate
deriving DecidableEq, Repr

def GateType.value : GateType → Nat
  | interruptGate => 14
  | trapGate => 15

/-- The offset of `CS64` in `struct GDT`. -/
def cs64 : Nat := 8

/-- `idt` is the address of the table. -/
def loadInterruptFn (idt : Nat) (m : Memory) (fnAddr : BitVec 64) (entryNo : Nat) (type : GateType) : Memory :=
  let entry := idt + 16 * entryNo
  let m := memset m entry 0 16
  let offset := fnAddr.toNat
  let m := IdtEntry.offsetLo.assign m entry (offset &&& 0xffff)
  let m := IdtEntry.offsetMid.assign m entry ((offset >>> 16) &&& 0xffff)
  let m := IdtEntry.offsetHigh.assign m entry ((offset >>> 32) &&& 0xffffffff)
  let m := IdtEntry.type.assign m entry type.value
  let m := IdtEntry.segmentSel.assign m entry cs64
  let m := IdtEntry.ist.assign m entry 1
  let m := IdtEntry.dpl.assign m entry 3
  IdtEntry.present.assign m entry 1

/-! `struct gdt_tss_descriptor`. -/

namespace GdtTssDescriptor

def limitLow : Member := ⟨0, 16⟩
def baseLow : Member := ⟨16, 16⟩
def baseMid : Member := ⟨32, 8⟩
def type : Member := ⟨40, 4⟩
def descriptorType : Member := ⟨44, 1⟩
def dpl : Member := ⟨45, 2⟩
def present : Member := ⟨47, 1⟩
def limitHigh : Member := ⟨48, 4⟩
def longMode : Member := ⟨53, 1⟩
def operationSize : Member := ⟨54, 1⟩
def granularity : Member := ⟨55, 1⟩
def baseHigh : Member := ⟨56, 8⟩
def baseOver : Member := ⟨64, 32⟩
def reserved : Member := ⟨96, 32⟩

end GdtTssDescriptor

def initTssDescriptor (m : Memory) (descriptor : Nat) (tssBasePtr : BitVec 64) : Memory :=
  let tssBase := tssBasePtr.toNat
  let m := GdtTssDescriptor.limitLow.assign m descriptor 100
  let m := GdtTssDescriptor.baseLow.assign m descriptor (tssBase &&& 0xffff)
  let m := GdtTssDescriptor.baseMid.assign m descriptor ((tssBase >>> 16) &&& 0xff)
  let m := GdtTssDescriptor.type.assign m descriptor 9
  let m := GdtTssDescriptor.descriptorType.assign m descriptor 0
  let m := GdtTssDescriptor.dpl.assign m descriptor 0
  let m := GdtTssDescriptor.present.assign m descriptor 1
  let m := GdtTssDescriptor.limitHigh.assign m descriptor 0
  let m := GdtTssDescriptor.longMode.assign m descriptor 0
  let m := GdtTssDescriptor.operationSize.assign m descriptor 0
  let m := GdtTssDescriptor.granularity.assign m descriptor 0
  let m := GdtTssDescriptor.baseHigh.assign m descriptor ((tssBase >>> 24) &&& 0xff)
  let m := GdtTssDescriptor.baseOver.assign m descriptor (tssBase >>> 32)
  GdtTssDescriptor.reserved.assign m descriptor 0

/-! How the processor reads these bytes. -/

/-- A gate of the interrupt descriptor table. -/
structure Gate where
  offset : Nat
  selector : Nat
  ist : Nat
  type : Nat
  dpl : Nat
  present : Nat
  reserved : List Nat
deriving DecidableEq

def decodeGate (m : Memory) (a : Nat) : Gate where
  offset := readLE m 2 a + 2 ^ 16 * readLE m 2 (a + 6) + 2 ^ 32 * readLE m 4 (a + 8)
  selector := readLE m 2 (a + 2)
  ist := field (readLE m 1 (a + 4)) 0 3
  type := field (readLE m 1 (a + 5)) 0 4
  dpl := field (readLE m 1 (a + 5)) 5 2
  present := field (readLE m 1 (a + 5)) 7 1
  reserved := [field (readLE m 1 (a + 4)) 3 5, field (readLE m 1 (a + 5)) 4 1, readLE m 4 (a + 12)]

/-- The base of a system segment descriptor of 16 bytes. -/
def decodeBase (m : Memory) (a : Nat) : Nat :=
  readLE m 2 (a + 2) + 2 ^ 16 * readLE m 1 (a + 4) + 2 ^ 24 * readLE m 1 (a + 7) + 2 ^ 32 * readLE m 4 (a + 8)

section decode
variable {m : Memory} {a : Nat}

/-- The gate in terms of the 128-bit number that its bytes make up. -/
theorem decodeGate_eq (m : Memory) (a : Nat) : decodeGate m a =
    { offset := field (readLE m 16 a) 0 16 + 2 ^ 16 * field (readLE m 16 a) 48 16 + 2 ^ 32 * field (readLE m 16 a) 64 32
      selector := field (readLE m 16 a) 16 16
      ist := field (readLE m 16 a) 32 3
      type := field (readLE m 16 a) 40 4
      dpl := field (readLE m 16 a) 45 2
      present := field (readLE m 16 a) 47 1
      reserved := [field (readLE m 16 a) 35 5, field (readLE m 16 a) 44 1, field (readLE m 16 a) 96 32] } := by
  have part (i k : Nat) (inside : i + k ≤ 16) : readLE m k (a + i) = field (readLE m 16 a) (8 * i) (8 * k) := readLE_field inside
  have low : readLE m 2 a = field (readLE m 16 a) 0 16 := part 0 2 (by decide)
  rw [decodeGate, low, part 6 2 (by decide), part 8 4 (by decide), part 2 2 (by decide), part 4 1 (by decide), part 5 1 (by decide),
    part 12 4 (by decide), field_field (by decide), field_field (by decide), field_field (by decide), field_field (by decide),
    field_field (by decide), field_field (by decide)]

theorem decodeBase_eq (m : Memory) (a : Nat) : decodeBase m a = field (readLE m 16 a) 16 16 +
    2 ^ 16 * field (readLE m 16 a) 32 8 + 2 ^ 24 * field (readLE m 16 a) 56 8 + 2 ^ 32 * field (readLE m 16 a) 64 32 := by
  have part (i k : Nat) (inside : i + k ≤ 16) : readLE m k (a + i) = field (readLE m 16 a) (8 * i) (8 * k) := readLE_field inside
  rw [decodeBase, part 2 2 (by decide), part 4 1 (by decide), part 7 1 (by decide), part 8 4 (by decide)]

theorem Member.readLE_assign (q : Member) (v : Nat) (inside : q.offset + q.width ≤ 128) :
    readLE (q.assign m a v) 16 a = withField (readLE m 16 a) q.offset q.width v :=
  readLE_assignField inside

theorem Member.assign_outside (q : Member) {v x : Nat} (outside : x < a ∨ a + 16 ≤ x) : q.assign m a v x = m x :=
  assignField_outside outside

end decode

theorem loadInterruptFn_outside {idt entryNo x : Nat} (m : Memory) (fnAddr : BitVec 64) (type : GateType)
    (outside : x < idt + 16 * entryNo ∨ idt + 16 * entryNo + 16 ≤ x) : loadInterruptFn idt m fnAddr entryNo type x = m x := by
  simp only [loadInterruptFn, Member.assign_outside _ outside]
  exact memset_outside 0 outside

/-- The slices of an address make it up again. -/
theorem offset_slices (p : BitVec 64) : (p.toNat &&& 0xffff) % 2 ^ 16 + 2 ^ 16 * ((p.toNat >>> 16 &&& 0xffff) % 2 ^ 16) +
    2 ^ 32 * ((p.toNat >>> 32 &&& 0xffffffff) % 2 ^ 32) = p.toNat := by
  have bound := p.isLt
  rw [show 0xffff = 2 ^ 16 - 1 by rfl, show 0xffffffff = 2 ^ 32 - 1 by rfl, Nat.and_two_pow_sub_one_eq_mod,
    Nat.and_two_pow_sub_one_eq_mod, Nat.and_two_pow_sub_one_eq_mod, Nat.shiftRight_eq_div_pow, Nat.shiftRight_eq_div_pow]
  omega

theorem base_slices (p : BitVec 64) : (p.toNat &&& 0xffff) % 2 ^ 16 + 2 ^ 16 * ((p.toNat >>> 16 &&& 0xff) % 2 ^ 8) +
    2 ^ 24 * ((p.toNat >>> 24 &&& 0xff) % 2 ^ 8) + 2 ^ 32 * (p.toNat >>> 32 % 2 ^ 32) = p.toNat := by
  have bound := p.isLt
  rw [show 0xffff = 2 ^ 16 - 1 by rfl, show 0xff = 2 ^ 8 - 1 by rfl, Nat.and_two_pow_sub_one_eq_mod, Nat.and_two_pow_sub_one_eq_mod,
    Nat.and_two_pow_sub_one_eq_mod, Nat.shiftRight_eq_div_pow, Nat.shiftRight_eq_div_pow, Nat.shiftRight_eq_div_pow]
  omega

/-- What is written to a slot is read back by the processor. -/
theorem decodeGate_loadInterruptFn (idt entryNo : Nat) (m : Memory) (fnAddr : BitVec 64) (type : GateType) :
    decodeGate (loadInterruptFn idt m fnAddr entryNo type) (idt + 16 * entryNo) =
      ⟨fnAddr.toNat, cs64, 1, type.value, 3, 1, [0, 0, 0]⟩ := by
  have cleared : readLE (memset m (idt + 16 * entryNo) 0 16) 16 (idt + 16 * entryNo) = 0 :=
    readLE_zero_bytes fun i inside => memset_inside 0 inside
  have kind : type.value % 2 ^ 4 = type.value := by cases type <;> rfl
  rw [decodeGate_eq]
  simp (disch := decide) only [loadInterruptFn, Member.readLE_assign, cleared, IdtEntry.offsetLo,
    IdtEntry.offsetMid, IdtEntry.offsetHigh, IdtEntry.type, IdtEntry.segmentSel, IdtEntry.ist, IdtEntry.dpl, IdtEntry.present, field_withField_self, field_withField_apart, field_zero, offset_slices, kind]
  rfl

theorem decodeBase_initTssDescriptor (m : Memory) (descriptor : Nat) (tssBasePtr : BitVec 64) :
    decodeBase (initTssDescriptor m descriptor tssBasePtr) descriptor = tssBasePtr.toNat := by
  rw [decodeBase_eq]
  simp (disch := decide) only [initTssDescriptor, Member.readLE_assign, GdtTssDescriptor.limitLow,
    GdtTssDescriptor.baseLow, GdtTssDescriptor.baseMid, GdtTssDescriptor.type, GdtTssDescriptor.descriptorType, GdtTssDescriptor.dpl, GdtTssDescriptor.present, GdtTssDescriptor.limitHigh,
    GdtTssDescriptor.longMode, GdtTssDescriptor.operationSize, GdtTssDescriptor.granularity, GdtTssDescriptor.baseHigh,
    GdtTssDescriptor.baseOver, GdtTssDescriptor.reserved, field_withField_self, field_withField_apart]
  exact base_slices tssBasePtr

/-- Every gate and every TSS descriptor is decoded to what it was made from, whatever was in
memory, and the other slots keep theirs. -/
theorem descriptors_decode (m : Memory) :
    (∀ (idt : Nat) (fnAddr : BitVec 64) (entryNo : Fin 256) (type : GateType),
      decodeGate (loadInterruptFn idt m fnAddr entryNo type) (idt + 16 * entryNo) =
        ⟨fnAddr.toNat, cs64, 1, type.value, 3, 1, [0, 0, 0]⟩ ∧
      ∀ other : Fin 256, other ≠ entryNo →
        Agree m (loadInterruptFn idt m fnAddr entryNo type) (idt + 16 * other) 16) ∧
    ∀ (descriptor : Nat) (tssBasePtr : BitVec 64),
      decodeBase (initTssDescriptor m descriptor tssBasePtr) descriptor = tssBasePtr.toNat := by
  refine ⟨fun idt fnAddr entryNo type => ⟨decodeGate_loadInterruptFn idt entryNo m fnAddr type, fun other different k inside => ?_⟩,
    fun descriptor tssBasePtr => decodeBase_initTssDescriptor m descriptor tssBasePtr⟩
  refine loadInterruptFn_outside m fnAddr type ?_
  have apart : other.val ≠ entryNo.val := fun same => different (Fin.ext same)
  omega

end MetalToApp

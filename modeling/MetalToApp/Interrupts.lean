import MetalToApp.Segments

namespace MetalToApp
open ByteMemory BitFields

/-- The functions that gates of the interrupt descriptor table lead to. -/
inductive Handler
  | invalidOpcode | doubleFault | invalidTss | segmentNotPresent | stackSegmentFault | generalProtection | pageFault
  | alignmentCheck
  | irq (n : Nat)
  | ihPanic
  | asmReschedule
deriving DecidableEq, Repr

/-- Whether the function takes the error code as its second parameter. -/
def Handler.takesErrorCode : Handler → Bool
  | doubleFault | invalidTss | segmentNotPresent | stackSegmentFault | generalProtection | pageFault | alignmentCheck =>
    true
  | _ => false

def exceptionHandlers : List (Nat × Handler) :=
  [(6, .invalidOpcode), (8, .doubleFault), (10, .invalidTss), (11, .segmentNotPresent), (12, .stackSegmentFault),
    (13, .generalProtection), (14, .pageFault), (17, .alignmentCheck)]

def interruptHandlers : List (Nat × Handler) :=
  [(0x20, .irq 0), (0x21, .irq 1), (0x23, .irq 3), (0x24, .irq 4), (0x25, .irq 5), (0x26, .irq 6), (0x27, .irq 7),
    (0x28, .irq 8), (0x29, .irq 9), (0x2a, .irq 10), (0x2b, .irq 11), (0x2c, .irq 12), (0x2d, .irq 13), (0x2e, .irq 14),
    (0x2f, .irq 15), (200, .ihPanic)]

/-- Where the linker put the descriptor tables, the task state segment, the kernel's stack
and the handlers. -/
structure DescriptorImage where
  gdt : Nat
  tss : BitVec 64
  idt : Nat
  stackBottom : Nat
  address : Handler → BitVec 64
  apartTss : gdt + GDT.size ≤ tss.toNat ∨ tss.toNat + 100 ≤ gdt
  apartIdt : gdt + GDT.size ≤ idt ∨ idt + 0x1000 ≤ gdt
  apartTssIdt : tss.toNat + 100 ≤ idt ∨ idt + 0x1000 ≤ tss.toNat
  stackFits : stackBottom < 2 ^ 64

/-- One call of `load_interrupt_fn` for each entry of a list. -/
def loadHandlers (D : DescriptorImage) (type : GateType) (m : Memory) (handlers : List (Nat × Handler)) : Memory :=
  handlers.foldl (fun m entry => loadInterruptFn D.idt m (D.address entry.2) entry.1 type) m

def loadExceptions (D : DescriptorImage) (m : Memory) : Memory := loadHandlers D .interruptGate m exceptionHandlers

def loadInterrupts (D : DescriptorImage) (m : Memory) : Memory := loadHandlers D .interruptGate m interruptHandlers

/-- The gate that `init_scheduler` loads. -/
def loadReschedule (D : DescriptorImage) (m : Memory) : Memory := loadHandlers D .trapGate m [(201, .asmReschedule)]

/-- `sizeof (tss)` is 100; the first entry of its interrupt stack table is at 36. -/
def initTss (m : Memory) (tss : Nat) : Memory := memset m tss 0 100

def loadTss (m : Memory) (tss stackBottom : Nat) : Memory := write64 m (tss + 36) stackBottom

/-- What `cstart` does to the descriptors, in its order. -/
def setupDescriptors (D : DescriptorImage) (m : Memory) : Memory :=
  let m := initGdt m D.gdt D.tss
  let m := initTss m D.tss.toNat
  let m := loadTss m D.tss.toNat D.stackBottom
  let m := loadExceptions D m
  let m := loadInterrupts D m
  loadReschedule D m

/-- All the gates that are loaded, with their types, the last ones first. -/
def gateTable : List (Nat × Handler × GateType) :=
  (201, .asmReschedule, .trapGate) ::
    (interruptHandlers ++ exceptionHandlers).map fun entry => (entry.1, entry.2, .interruptGate)

/-! How the processor delivers an interrupt. -/

/-- Where it goes on, on which stack, and who may call the gate with `int`. -/
structure InterruptEntry where
  rip : Nat
  cs : Nat
  rsp : Nat
  dpl : Nat
  keepsIf : Bool
deriving DecidableEq

/-- Delivery through gate `vector`. Every gate of the kernel has an interrupt stack. -/
def interruptEntry (D : DescriptorImage) (m : Memory) (vector : Nat) : Option InterruptEntry :=
  let gate := decodeGate m (D.idt + 16 * vector)
  if gate.present = 1 ∧ (gate.type = 14 ∨ gate.type = 15) ∧ gate.ist ≠ 0 then
    some
      { rip := gate.offset
        cs := gate.selector
        rsp := read64 m (decodeBase m (D.gdt + GDT.tss) + 28 + 8 * gate.ist)
        dpl := gate.dpl
        keepsIf := gate.type = 15 }
  else none

/-- The exceptions with which the processor pushes an error code. -/
def pushesErrorCode (vector : Nat) : Bool := vector ∈ [8, 10, 11, 12, 13, 14, 17, 21, 29, 30]

/-- A second exception while one of these is delivered makes a double fault. -/
def contributory (vector : Nat) : Bool := vector ∈ [0, 10, 11, 12, 13, 14]

/-- The lowest bit of an error code: clear for `int3` and `into`, which are instructions of the
program as `int` is. -/
def externalEvent (vector : Nat) : Nat := if vector ∈ [3, 4] then 0 else 1

structure Delivery where
  entry : InterruptEntry
  errorCode : Option Nat
deriving DecidableEq

/-- What calls for a handler: an exception, or `int` in user code. -/
inductive Cause
  | exception (vector code : Nat)
  | software (vector : Nat)

def raise (D : DescriptorImage) (m : Memory) (vector code : Nat) : Option Delivery :=
  (interruptEntry D m vector).map fun entry => ⟨entry, if pushesErrorCode vector then some code else none⟩

/-- A gate that is not present raises exception 11 with its number, or a double fault. Without
a gate for that either the processor shuts down. -/
def deliver (D : DescriptorImage) (m : Memory) : Cause → Option Delivery
  | .exception vector code =>
    (raise D m vector code).or
      (if contributory vector then raise D m 8 0
        else (raise D m 11 (8 * vector + 2 + externalEvent vector)).or (raise D m 8 0))
  | .software vector =>
    match interruptEntry D m vector with
    | some entry => if 3 ≤ entry.dpl then some ⟨entry, none⟩ else (raise D m 13 (8 * vector + 2)).or (raise D m 8 0)
    | none => (raise D m 11 (8 * vector + 2)).or (raise D m 8 0)

variable {D : DescriptorImage} {m : Memory} {x : Nat}

theorem decodeGate_congr {m m' : Memory} {a : Nat} (same : Agree m m' a 16) : decodeGate m' a = decodeGate m a := by
  rw [decodeGate_eq, decodeGate_eq, readLE_congr same]

theorem decodeBase_congr {m m' : Memory} {a : Nat} (same : Agree m m' a 16) : decodeBase m' a = decodeBase m a := by
  rw [decodeBase_eq, decodeBase_eq, readLE_congr same]

theorem loadHandlers_outside {type : GateType} {handlers : List (Nat × Handler)} (inTable : ∀ entry ∈ handlers, entry.1 < 256)
    (outside : x < D.idt ∨ D.idt + 0x1000 ≤ x) : loadHandlers D type m handlers x = m x := by
  induction handlers generalizing m with
  | nil => rfl
  | cons entry handlers ih =>
    have bound := inTable entry List.mem_cons_self
    rw [loadHandlers, List.foldl_cons, ← loadHandlers, ih fun other member => inTable other (List.mem_cons_of_mem _ member)]
    exact loadInterruptFn_outside _ _ _ (by omega)

/-- The gate that the table has for a handler. -/
def gateOf (D : DescriptorImage) : Option (Handler × GateType) → Gate
  | some (h, type) => ⟨(D.address h).toNat, cs64, 1, type.value, 3, 1, [0, 0, 0]⟩
  | none => ⟨0, 0, 0, 0, 0, 0, [0, 0, 0]⟩

/-- Each gate is that of the entry with its number, if there is one. -/
theorem decodeGate_loadHandlers (m : Memory) (type : GateType) (handlers : List (Nat × Handler))
    (distinct : (handlers.map Prod.fst).Nodup) (vector : Nat) :
    decodeGate (loadHandlers D type m handlers) (D.idt + 16 * vector) =
      match handlers.lookup vector with
      | some h => gateOf D (some (h, type))
      | none => decodeGate m (D.idt + 16 * vector) := by
  induction handlers generalizing m with
  | nil => rfl
  | cons entry handlers ih =>
    obtain ⟨number, h⟩ := entry
    rw [List.map_cons, List.nodup_cons] at distinct
    rw [loadHandlers, List.foldl_cons, ← loadHandlers, ih _ distinct.2]
    by_cases same : vector = number
    · subst same
      have absent : handlers.lookup vector = none := by
        rw [List.lookup_eq_none_iff]
        intro entry member
        rw [bne_iff_ne]
        rintro rfl
        exact distinct.1 (List.mem_map.mpr ⟨entry, member, rfl⟩)
      rw [absent, List.lookup_cons_self]
      exact decodeGate_loadInterruptFn ..
    · have other : decodeGate (loadInterruptFn D.idt m (D.address h) number type) (D.idt + 16 * vector) =
          decodeGate m (D.idt + 16 * vector) :=
        decodeGate_congr fun i inside => loadInterruptFn_outside _ _ _ (by omega)
      rw [other, List.lookup_cons, beq_eq_false_iff_ne.mpr same]

/-- The descriptors as the processor reads them once `cstart` has set them up. -/
structure DescriptorsReady (D : DescriptorImage) (m : Memory) : Prop where
  flat : FlatGdt m D.gdt
  tss : decodeBase m (D.gdt + GDT.tss) = D.tss.toNat
  ist : read64 m (D.tss.toNat + 36) = D.stackBottom
  gate : ∀ vector < 256, decodeGate m (D.idt + 16 * vector) = gateOf D (gateTable.lookup vector)

/-- Descriptors that are not written to stay as they are. -/
def TablesKept (D : DescriptorImage) (m m' : Memory) : Prop :=
  Agree m m' D.gdt GDT.size ∧ Agree m m' D.tss.toNat 100 ∧ Agree m m' D.idt 0x1000

theorem DescriptorsReady.congr {m' : Memory} (ready : DescriptorsReady D m) (kept : TablesKept D m m') : DescriptorsReady D m' := by
  obtain ⟨gdt, tss, idt⟩ := kept
  have stack : read64 m' (D.tss.toNat + 36) = read64 m (D.tss.toNat + 36) := tss.readLE (by decide)
  refine ⟨ready.flat.congr gdt, ?_, stack.trans ready.ist, fun vector bound => ?_⟩
  · rw [← ready.tss]
    refine decodeBase_congr fun i inside => ?_
    rw [Nat.add_assoc]
    exact gdt _ (by simp only [GDT.size, GDT.tss]; omega)
  · rw [← ready.gate vector bound]
    refine decodeGate_congr fun i inside => ?_
    rw [Nat.add_assoc]
    exact idt _ (by omega)

theorem initGdt_outside {gdt : Nat} {tss : BitVec 64} (outside : x < gdt ∨ gdt + GDT.size ≤ x) : initGdt m gdt tss x = m x := by
  simp only [GDT.size] at outside
  simp (disch := omega) only [initGdt, GDT.cs64, GDT.ds, GDT.cs32u, GDT.dsu, GDT.cs64u, GDT.tss, initTssDescriptor_outside,
    initSegmentDescriptor_outside, Member.assign8_outside, write64_outside]

theorem lookup_gates (handlers : List (Nat × Handler)) (type : GateType) (vector : Nat) :
    (handlers.map fun entry => (entry.1, entry.2, type)).lookup vector = (handlers.lookup vector).map (·, type) := by
  induction handlers with
  | nil => rfl
  | cons entry handlers ih =>
    rw [List.map_cons, List.lookup_cons, List.lookup_cons, ih]
    cases vector == entry.1 <;> rfl

/-- The three lists of gates one after the other. -/
theorem gateTable_lookup (vector : Nat) : gateTable.lookup vector =
    if vector = 201 then some (.asmReschedule, .trapGate)
    else ((interruptHandlers.lookup vector).map (·, GateType.interruptGate)).or
      ((exceptionHandlers.lookup vector).map (·, GateType.interruptGate)) := by
  rw [gateTable, List.lookup_cons, lookup_gates, List.lookup_append]
  by_cases last : vector = 201
  · rw [last]
    rfl
  · rw [beq_eq_false_iff_ne.mpr last, if_neg last]
    cases interruptHandlers.lookup vector <;> rfl

theorem setupDescriptors_ready (clearGdt : ∀ i < GDT.size, m (D.gdt + i) = 0) (clearIdt : ∀ i < 0x1000, m (D.idt + i) = 0) :
    DescriptorsReady D (setupDescriptors D m) := by
  obtain ⟨apartTss, apartIdt, apartTssIdt, stackFits⟩ :=
    And.intro D.apartTss (And.intro D.apartIdt (And.intro D.apartTssIdt D.stackFits))
  simp only [GDT.size] at apartTss apartIdt
  let m₁ := initGdt m D.gdt D.tss
  let m₂ := initTss m₁ D.tss.toNat
  let m₃ := loadTss m₂ D.tss.toNat D.stackBottom
  let m₄ := loadExceptions D m₃
  let m₅ := loadInterrupts D m₄
  have offIdt {x : Nat} (outside : x < D.idt ∨ D.idt + 0x1000 ≤ x) : setupDescriptors D m x = m₃ x := by
    calc setupDescriptors D m x = m₅ x := loadHandlers_outside (by decide) outside
      _ = m₄ x := loadHandlers_outside (by decide) outside
      _ = m₃ x := loadHandlers_outside (by decide) outside
  have offTss {x : Nat} (outside : x < D.tss.toNat ∨ D.tss.toNat + 100 ≤ x) : m₃ x = m₁ x := by
    calc m₃ x = m₂ x := write64_outside (by omega)
      _ = m₁ x := memset_outside 0 outside
  have inGdt {x : Nat} (lower : D.gdt ≤ x) (upper : x < D.gdt + 64) : setupDescriptors D m x = m₁ x :=
    (offIdt (by omega)).trans (offTss (by omega))
  refine ⟨?_, ?_, ?_, fun vector bound => ?_⟩
  · exact (initGdt_flat D.tss clearGdt).congr fun i inside => inGdt (by omega) (by simp only [GDT.size] at inside; omega)
  · rw [← decodeBase_initTssDescriptor _ (D.gdt + GDT.tss) D.tss]
    exact decodeBase_congr fun i inside => inGdt (by omega) (by simp only [GDT.tss]; omega)
  · have same : read64 (setupDescriptors D m) (D.tss.toNat + 36) = read64 m₃ (D.tss.toNat + 36) :=
      readLE_congr fun i inside => offIdt (by omega)
    rw [same]
    exact read64_write64_self stackFits
  · have untouched : decodeGate m₃ (D.idt + 16 * vector) = gateOf D none := by
      have zero : readLE m₃ 16 (D.idt + 16 * vector) = 0 := readLE_zero_bytes fun i inside => by
        rw [offTss (by omega), show m₁ _ = m _ from initGdt_outside (by simp only [GDT.size]; omega), Nat.add_assoc]
        exact clearIdt _ (by omega)
      rw [decodeGate_eq, zero]
      simp only [field_zero]
      rfl
    have final := decodeGate_loadHandlers (D := D) m₅ .trapGate [(201, .asmReschedule)] (by decide) vector
    have second := decodeGate_loadHandlers (D := D) m₄ .interruptGate interruptHandlers (by decide) vector
    have first := decodeGate_loadHandlers (D := D) m₃ .interruptGate exceptionHandlers (by decide) vector
    rw [gateTable_lookup]
    refine final.trans ?_
    by_cases last : vector = 201
    · rw [last]
      rfl
    · rw [List.lookup_cons, beq_eq_false_iff_ne.mpr last, if_neg last]
      refine second.trans ?_
      cases interruptHandlers.lookup vector with
      | some h => rfl
      | none =>
        refine first.trans ?_
        cases exceptionHandlers.lookup vector with
        | some h => rfl
        | none => exact untouched

/-- Where a gate of the table leads. -/
def entryOf (D : DescriptorImage) (gate : Handler × GateType) : InterruptEntry where
  rip := (D.address gate.1).toNat
  cs := GDT.cs64
  rsp := D.stackBottom
  dpl := 3
  keepsIf := gate.2 = .trapGate

namespace DescriptorsReady

theorem interruptEntry_eq (ready : DescriptorsReady D m) {vector : Nat} (bound : vector < 256) :
    interruptEntry D m vector = (gateTable.lookup vector).map (entryOf D) := by
  rw [interruptEntry, ready.gate vector bound, ready.tss]
  cases gateTable.lookup vector with
  | none => rfl
  | some gate =>
    obtain ⟨h, type⟩ := gate
    simp only [gateOf, Option.map_some, entryOf, ← ready.ist]
    cases type <;> rfl

theorem raise_eq (ready : DescriptorsReady D m) {vector : Nat} (bound : vector < 256) (code : Nat) :
    raise D m vector code = (gateTable.lookup vector).map fun gate =>
      ⟨entryOf D gate, if pushesErrorCode vector then some code else none⟩ := by
  rw [raise, ready.interruptEntry_eq bound, Option.map_map]
  rfl

end DescriptorsReady

/-- The handler that an exception ends in, and the error code that it finds. -/
def exceptionHandler (vector code : Nat) : Handler × Option Nat :=
  match exceptionHandlers.lookup vector with
  | some h => (h, if pushesErrorCode vector then some code else none)
  | none =>
    if contributory vector then (.doubleFault, some 0)
    else (.segmentNotPresent, some (8 * vector + 2 + externalEvent vector))

/-- The handler that `int` ends in. -/
def softwareHandler (vector : Nat) : Handler × Option Nat :=
  match gateTable.lookup vector with
  | some (h, _) => (h, none)
  | none => (.segmentNotPresent, some (8 * vector + 2))

/-- Every interrupt ends in a handler, on the kernel's stack and in its code segment. A
handler finds an error code when it takes one, unless user code calls one of these with `int`. -/
structure Delivered (D : DescriptorImage) (m : Memory) : Prop where
  exception : ∀ vector < 32, ∀ code, ∃ d, deliver D m (.exception vector code) = some d ∧
    d.entry.rip = (D.address (exceptionHandler vector code).1).toNat ∧ d.errorCode = (exceptionHandler vector code).2 ∧
    d.entry.cs = GDT.cs64 ∧ d.entry.rsp = D.stackBottom ∧
    (d.errorCode.isSome ↔ (exceptionHandler vector code).1.takesErrorCode)
  software : ∀ vector < 256, ∃ d, deliver D m (.software vector) = some d ∧
    d.entry.rip = (D.address (softwareHandler vector).1).toNat ∧ d.errorCode = (softwareHandler vector).2 ∧
    d.entry.cs = GDT.cs64 ∧ d.entry.rsp = D.stackBottom ∧
    ((d.errorCode.isSome ↔ (softwareHandler vector).1.takesErrorCode) ↔ vector ∉ [8, 10, 11, 12, 13, 14, 17])

theorem exceptions_lookup : ∀ vector < 32,
    gateTable.lookup vector = (exceptionHandlers.lookup vector).map (·, GateType.interruptGate) := by decide

/-- The handlers of the exceptions take an error code when the processor pushes one. -/
theorem exceptions_errorCode : ∀ vector < 32,
    (exceptionHandlers.lookup vector).all (fun h => h.takesErrorCode == pushesErrorCode vector) = true := by decide

set_option maxRecDepth 2000 in
theorem gates_errorCode : ∀ vector < 256, (match gateTable.lookup vector with
    | some gate => gate.1.takesErrorCode == decide (vector ∈ [8, 10, 11, 12, 13, 14, 17])
    | none => decide (vector ∉ [8, 10, 11, 12, 13, 14, 17])) = true := by decide

theorem DescriptorsReady.delivered {m' : Memory} (ready : DescriptorsReady D m') : Delivered D m' := by
  have fallback (code : Nat) : raise D m' 11 code = some ⟨entryOf D (.segmentNotPresent, .interruptGate), some code⟩ :=
    ready.raise_eq (by decide) code
  have double : raise D m' 8 0 = some ⟨entryOf D (.doubleFault, .interruptGate), some 0⟩ := ready.raise_eq (by decide) 0
  constructor
  · intro vector bound code
    have gates := exceptions_lookup vector bound
    have direct := ready.raise_eq (show vector < 256 by omega) code
    rw [gates] at direct
    simp only [deliver, exceptionHandler, direct]
    cases found : exceptionHandlers.lookup vector with
    | some h =>
      have agree := exceptions_errorCode vector bound
      rw [found] at agree
      refine ⟨_, rfl, rfl, rfl, rfl, rfl, ?_⟩
      cases takes : h.takesErrorCode <;> simp_all
    | none =>
      cases second : contributory vector with
      | true => exact ⟨_, double, rfl, rfl, rfl, rfl, by simp [Handler.takesErrorCode]⟩
      | false =>
        have absent := fallback (8 * vector + 2 + externalEvent vector)
        refine ⟨⟨entryOf D (.segmentNotPresent, .interruptGate), some (8 * vector + 2 + externalEvent vector)⟩, ?_, rfl, rfl, rfl,
          rfl, ?_⟩
        · rw [absent]
          rfl
        · simp [Handler.takesErrorCode]
  · intro vector bound
    simp only [deliver, softwareHandler, ready.interruptEntry_eq bound]
    cases found : gateTable.lookup vector with
    | some gate =>
      have agree := gates_errorCode vector bound
      rw [found] at agree
      refine ⟨_, rfl, rfl, rfl, rfl, rfl, ?_⟩
      simp_all
    | none =>
      have absent := gates_errorCode vector bound
      rw [found] at absent
      have notPresent := fallback (8 * vector + 2)
      refine ⟨⟨entryOf D (.segmentNotPresent, .interruptGate), some (8 * vector + 2)⟩, ?_, rfl, rfl, rfl, rfl, ?_⟩
      · rw [Option.map_none, notPresent]
        rfl
      · simp_all [Handler.takesErrorCode]

/-- The tables in zeroed memory, a page apart. -/
def smallDescriptors : DescriptorImage where
  gdt := 0xFFFFFFFF8120A000
  tss := 0xFFFFFFFF8120B000
  idt := 0xFFFFFFFF8120C000
  stackBottom := kernelBase + 0x1200000
  address h :=
    match h with
    | .irq n => BitVec.ofNat 64 (0xFFFFFFFF80202000 + 16 * n)
    | .asmReschedule => 0xFFFFFFFF80203000
    | _ => 0xFFFFFFFF80204000
  apartTss := by decide
  apartIdt := by decide
  apartTssIdt := by decide
  stackFits := by decide

end MetalToApp

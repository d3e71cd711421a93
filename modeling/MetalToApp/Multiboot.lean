import MetalToApp.ElfImage
import MetalToApp.FrameRuns

namespace MetalToApp
open ByteMemory

/-- The condition under which `setup_frame_allocator` takes an entry for the biggest one. A
null pointer stands for none. -/
def isBiggest (s : Kernel) (mmapEntry mmapBiggestMap : Nat) : Outcome Bool := do
  let type ← s.load 4 (mmapEntry + 20)
  if type ≠ 1 then return false
  if mmapBiggestMap = 0 then return true
  let length ← s.load 8 (mmapEntry + 12)
  let biggestLength ← s.load 8 (mmapBiggestMap + 12)
  return length > biggestLength

/-- The loop over the memory map. -/
def biggestMap (s : Kernel) (mmapEndb mmapStartb mmapBiggestMap : Nat) : Outcome Nat :=
  if mmapStartb < mmapEndb then do
    let bigger ← isBiggest s mmapStartb mmapBiggestMap
    let size ← s.load 4 mmapStartb
    -- A pointer that wraps leaves both windows, and the next access faults.
    if 2 ^ 64 ≤ mmapStartb + (size + 4) then .error .fault
    else biggestMap s mmapEndb (mmapStartb + (size + 4)) (if bigger then mmapStartb else mmapBiggestMap)
  else return mmapBiggestMap
termination_by mmapEndb - mmapStartb

def setupFrameAllocator (K : KernelImage) (s : Kernel) (multiboot : Nat) : Outcome Kernel := do
  let mmapAddr ← s.load 4 (multiboot + 48)
  let mmapStartb := (mmapAddr + kernelBase) % 2 ^ 64
  let mmapLength ← s.load 4 (multiboot + 44)
  let mmapEndb := (mmapStartb + mmapLength) % 2 ^ 64
  let mmapBiggestMap ← biggestMap s mmapEndb mmapStartb 0
  let baseAddr ← s.load 8 (mmapBiggestMap + 4)
  let bigareaStart := if baseAddr > K.freememoryStart then baseAddr else K.freememoryStart
  let length ← s.load 8 (mmapBiggestMap + 12)
  return initFrameAllocator s bigareaStart ((baseAddr + length) % 2 ^ 64)

/-! What the boot loader has left in memory. -/

structure MmapInfo where
  size : Nat
  baseAddr : Nat
  length : Nat
  type : Nat
deriving DecidableEq

def mmapInfoAt (m : Memory) (a : Nat) : MmapInfo where
  size := readLE m 4 a
  baseAddr := readLE m 8 (a + 4)
  length := readLE m 8 (a + 12)
  type := readLE m 4 (a + 20)

/-- The entries that lie one after the other from `a` to `stop`. The size of an entry does
not count the size field itself. -/
inductive MemoryMap (m : Memory) (stop : Nat) : Nat → List MmapInfo → Prop
  | nil : MemoryMap m stop stop []
  | cons {a entry entries} : mmapInfoAt m a = entry → 20 ≤ entry.size →
      MemoryMap m stop (a + (entry.size + 4)) entries → MemoryMap m stop a (entry :: entries)

/-- The region of an entry is RAM that the frame lies in. -/
structure MmapInfo.Holds (entry : MmapInfo) (f : Nat) : Prop where
  ram : entry.type = 1
  lower : entry.baseAddr ≤ f
  upper : f + 4096 ≤ entry.baseAddr + entry.length

/-- The multiboot information at the physical address `a` describes this memory map. -/
structure BootMap (m : Memory) (a : Nat) (entries : List MmapInfo) : Prop where
  info : a + 52 ≤ kernelMapped
  mapped : readLE m 4 (a + 48) + readLE m 4 (a + 44) ≤ kernelMapped
  map : MemoryMap m (readLE m 4 (a + 48) + readLE m 4 (a + 44)) (readLE m 4 (a + 48)) entries
  bounded : ∀ entry ∈ entries, entry.type = 1 → entry.baseAddr + entry.length < 2 ^ 39

/-- The first one of the longest RAM regions. -/
def largestRam (entries : List MmapInfo) : Option MmapInfo :=
  (entries.filter fun entry => entry.type = 1).argmax MmapInfo.length

/-- Some frame above the kernel is RAM. -/
def HasFrame (K : KernelImage) (entries : List MmapInfo) : Prop :=
  ∃ entry ∈ entries, ∃ f, f % 4096 = 0 ∧ K.freememoryStart ≤ f ∧ entry.Holds f

/-- Whatever is allocated, returned and written from a state on, every frame that a request
returns is RAM above the kernel. -/
def OnlyRam (K : KernelImage) (entries : List MmapInfo) (init : Kernel) : Prop :=
  ∀ s live, FrameReach init s live → ∀ (request : FrameRequest) f s', request.run s = .ok (f, s') →
    K.freememoryStart ≤ f ∧ ∃ entry ∈ entries, entry.Holds f

section map
variable {s : Kernel} {m m' : Memory} {a n stop b biggest : Nat} {entry : MmapInfo} {before entries : List MmapInfo}

theorem window_kernel (bound : a + n ≤ kernelMapped) : window (kernelBase + a) n = .ok a := by
  have high : ¬(linearStart ≤ kernelBase + a ∧ kernelBase + a + n ≤ linearEnd) := by
    simp only [linearStart, linearEnd, addrshift512G, kernelBase]
    omega
  rw [window, if_neg high, if_pos ⟨Nat.le_add_right _ _, by omega⟩, Nat.add_sub_cancel_left]

theorem Kernel.load_kernel (s : Kernel) (bound : a + n ≤ kernelMapped) :
    s.load n (kernelBase + a) = .ok (readLE s.mem n a) := by
  rw [Kernel.load, window_kernel bound]
  rfl

theorem mmapInfoAt_congr (same : Agree m m' a 24) : mmapInfoAt m' a = mmapInfoAt m a := by
  simp only [mmapInfoAt, same.readLE (o := 4) (k := 8) (by decide), same.readLE (o := 12) (k := 8) (by decide),
    same.readLE (o := 20) (k := 4) (by decide), show readLE m' 4 a = readLE m 4 a from same.readLE (o := 0) (by decide)]

theorem MemoryMap.le (map : MemoryMap m stop a entries) : a ≤ stop := by
  induction map with
  | nil => exact le_rfl
  | cons _ _ _ ih => omega

theorem MemoryMap.congr (map : MemoryMap m stop a entries) (same : Agree m m' a (stop - a)) : MemoryMap m' stop a entries := by
  induction map with
  | nil => exact .nil
  | @cons a entry entries here size next ih =>
    have inside := next.le
    refine .cons ?_ size (ih fun i bound => ?_)
    · rw [← here]
      exact mmapInfoAt_congr fun i bound => same i (by omega)
    · rw [Nat.add_assoc]
      exact same _ (by omega)

/-- A pointer of the loop and the entry that it stands for. -/
def Designates (m : Memory) (p : Nat) : Option MmapInfo → Prop
  | none => p = 0
  | some entry => ∃ a, p = kernelBase + a ∧ a + 24 ≤ kernelMapped ∧ mmapInfoAt m a = entry

theorem largestRam_append (before : List MmapInfo) (entry : MmapInfo) : largestRam (before ++ [entry]) =
    if entry.type = 1 ∧ ∀ best ∈ largestRam before, best.length < entry.length then some entry else largestRam before := by
  unfold largestRam
  by_cases ram : entry.type = 1
  · rw [List.filter_append, List.filter_cons_of_pos (by simpa using ram), List.filter_nil, List.argmax_concat]
    cases (before.filter fun entry => entry.type = 1).argmax MmapInfo.length with
    | none => simp [ram]
    | some best => simp [ram]
  · rw [List.filter_append, List.filter_cons_of_neg (by simpa using ram), List.filter_nil, List.append_nil,
      if_neg fun both => ram both.1]

theorem isBiggest_eq (inside : a + 24 ≤ kernelMapped) (best : Designates s.mem biggest (largestRam before)) :
    isBiggest s (kernelBase + a) biggest = .ok (decide ((mmapInfoAt s.mem a).type = 1 ∧
      ∀ best ∈ largestRam before, best.length < (mmapInfoAt s.mem a).length)) := by
  have type := s.load_kernel (a := a + 20) (n := 4) (by omega)
  have length := s.load_kernel (a := a + 12) (n := 8) (by omega)
  rw [← Nat.add_assoc] at type length
  rw [isBiggest, type, Outcome.ok_bind]
  by_cases ram : (mmapInfoAt s.mem a).type = 1
  · have same : readLE s.mem 4 (a + 20) = 1 := ram
    cases largest : largestRam before with
    | none =>
      rw [largest] at best
      have null : biggest = 0 := best
      simp [same, null, ram]
    | some entry =>
      rw [largest] at best
      obtain ⟨b, rfl, within, rfl⟩ := best
      have other := s.load_kernel (a := b + 12) (n := 8) (by omega)
      rw [← Nat.add_assoc] at other
      have pointer : kernelBase + b ≠ 0 := by
        rw [kernelBase]
        omega
      simp only [same, ne_eq, not_true_eq_false, if_false, pointer, length, other, Outcome.ok_bind, Outcome.pure_eq_ok, ram]
      simp [mmapInfoAt]
  · have other : readLE s.mem 4 (a + 20) ≠ 1 := ram
    simp [other, ram]

/-- The loop ends with the first one of the longest RAM regions. -/
theorem biggestMap_eq (map : MemoryMap s.mem stop a entries) (mapped : stop ≤ kernelMapped)
    (best : Designates s.mem biggest (largestRam before)) :
    ∃ biggest', biggestMap s (kernelBase + stop) (kernelBase + a) biggest = .ok biggest' ∧
      Designates s.mem biggest' (largestRam (before ++ entries)) := by
  induction map generalizing before biggest with
  | nil =>
    refine ⟨biggest, ?_, by rwa [List.append_nil]⟩
    rw [biggestMap, if_neg (lt_irrefl _), Outcome.pure_eq_ok]
  | @cons a entry entries here size next ih =>
    have inside := next.le
    have top : kernelBase + kernelMapped < 2 ^ 64 := by decide
    have sizeField : s.load 4 (kernelBase + a) = .ok entry.size := by
      rw [s.load_kernel (by omega), ← here]
      rfl
    have step := isBiggest_eq (a := a) (by omega) best
    rw [here] at step
    have following : Designates s.mem (if decide (entry.type = 1 ∧ ∀ best ∈ largestRam before, best.length < entry.length) then
        kernelBase + a else biggest) (largestRam (before ++ [entry])) := by
      rw [largestRam_append]
      by_cases bigger : entry.type = 1 ∧ ∀ best ∈ largestRam before, best.length < entry.length
      · rw [if_pos bigger, if_pos (decide_eq_true bigger)]
        exact ⟨a, rfl, by omega, here⟩
      · rw [if_neg bigger, if_neg (by simpa using bigger)]
        exact best
    obtain ⟨biggest', run, designated⟩ := ih following
    refine ⟨biggest', ?_, by rwa [List.append_assoc] at designated⟩
    rw [biggestMap, if_pos (by omega), step, Outcome.ok_bind, sizeField, Outcome.ok_bind, if_neg (by omega), ← run, Nat.add_assoc]

/-- What the allocator gets is the longest RAM region from the kernel's end on. -/
theorem setupFrameAllocator_eq {K : KernelImage} (map : BootMap s.mem a entries) (largest : largestRam entries = some entry) :
    setupFrameAllocator K s (kernelBase + a) =
      .ok (initFrameAllocator s (max K.freememoryStart entry.baseAddr) (entry.baseAddr + entry.length)) := by
  obtain ⟨info, mapped, list, bounded⟩ := map
  have top : kernelBase + kernelMapped < 2 ^ 64 := by decide
  have addr := s.load_kernel (a := a + 48) (n := 4) (by omega)
  have length := s.load_kernel (a := a + 44) (n := 4) (by omega)
  rw [← Nat.add_assoc] at addr length
  have none : Designates s.mem 0 (largestRam []) := rfl
  obtain ⟨biggest, loop, designated⟩ := biggestMap_eq list mapped none
  rw [List.nil_append, largest] at designated
  obtain ⟨b, rfl, inside, rfl⟩ := designated
  have ram := List.mem_filter.mp (List.argmax_mem (show _ ∈ largestRam entries from largest))
  have below := bounded _ ram.1 (by simpa using ram.2)
  have start : (readLE s.mem 4 (a + 48) + kernelBase) % 2 ^ 64 = kernelBase + readLE s.mem 4 (a + 48) := by omega
  have stop : (kernelBase + readLE s.mem 4 (a + 48) + readLE s.mem 4 (a + 44)) % 2 ^ 64 =
      kernelBase + (readLE s.mem 4 (a + 48) + readLE s.mem 4 (a + 44)) := by omega
  have baseAddr : s.load 8 (kernelBase + b + 4) = .ok (mmapInfoAt s.mem b).baseAddr := s.load_kernel (a := b + 4) (by omega)
  have regionLength : s.load 8 (kernelBase + b + 12) = .ok (mmapInfoAt s.mem b).length := s.load_kernel (a := b + 12) (by omega)
  have larger : (if (mmapInfoAt s.mem b).baseAddr > K.freememoryStart then (mmapInfoAt s.mem b).baseAddr
      else K.freememoryStart) = max K.freememoryStart (mmapInfoAt s.mem b).baseAddr := by
    rw [max_def]
    split <;> split <;> omega
  rw [setupFrameAllocator, addr, Outcome.ok_bind, length, Outcome.ok_bind, start, stop]
  dsimp only
  rw [loop, Outcome.ok_bind, baseAddr, Outcome.ok_bind, regionLength, Outcome.ok_bind, larger, Nat.mod_eq_of_lt (by omega),
    Outcome.pure_eq_ok]

end map

section allocation
variable {K : KernelImage} {s init : Kernel} {a first last : Nat} {entry : MmapInfo} {entries : List MmapInfo}

/-- Without a free list, a request takes the frame at the start of the untouched memory,
unless that is the end. -/
theorem frameAlloc_untouched (empty : s.freelist = 0) (start : s.freememStart = linearAddressToPtr first)
    (finish : s.freememEnd = linearAddressToPtr last) (differ : first ≠ last) (positive : 0 < first) (room : first < 2 ^ 39)
    (bounded : last ≤ 2 ^ 39) :
    frameAlloc s = .ok (first, { s with freememStart := linearAddressToPtr (first + 4096) }) := by
  have notEnd : s.freememStart ≠ s.freememEnd := by
    rwa [start, finish, Ne, linearAddressToPtr_inj (by omega) (by omega)]
  have next : (linearAddressToPtr first + 0x1000) % 2 ^ 64 = linearAddressToPtr (first + 4096) := by
    unfold linearAddressToPtr
    omega
  have frame : frameAllocInternal s =
      .ok (linearAddressToPtr first, { s with freememStart := linearAddressToPtr (first + 4096) }) := by
    simp only [frameAllocInternal, empty, ne_eq, not_true_eq_false, if_false, notEnd, Outcome.pure_eq_ok]
    rw [start, next]
  simp only [frameAlloc, frame, Outcome.ok_bind, pointerToLinearAddress_linear positive room, Outcome.pure_eq_ok]

/-- An allocator whose memory starts beyond its end never gets to the end. -/
theorem FrameReach.overrun (empty : init.freelist = 0) (start : init.freememStart = linearAddressToPtr first)
    (finish : init.freememEnd = linearAddressToPtr last) (past : last < first) {k : Nat} (room : first + 4096 * k ≤ 2 ^ 39) :
    ∃ s live, FrameReach init s live ∧ s.freelist = 0 ∧ s.freememStart = linearAddressToPtr (first + 4096 * k) ∧
      s.freememEnd = linearAddressToPtr last := by
  induction k with
  | zero => exact ⟨init, [], .start, empty, start, finish⟩
  | succ k ih =>
    obtain ⟨s, live, reach, noList, atFrame, finish⟩ := ih (by omega)
    have run := frameAlloc_untouched noList atFrame finish (by omega) (by omega) (by omega) (by omega)
    exact ⟨_, _, reach.alloc .frameAlloc run, noList, congrArg linearAddressToPtr (by omega), finish⟩

theorem largestRam_spec (largest : largestRam entries = some entry) :
    entry ∈ entries ∧ entry.type = 1 ∧ ∀ other ∈ entries, other.type = 1 → other.length ≤ entry.length := by
  have member : entry ∈ (entries.filter fun entry => entry.type = 1).argmax MmapInfo.length := largest
  have ram := List.mem_filter.mp (List.argmax_mem member)
  exact ⟨ram.1, by simpa using ram.2, fun other isEntry isRam =>
    List.le_of_mem_argmax (List.mem_filter.mpr ⟨isEntry, by simpa using isRam⟩) member⟩

theorem HasFrame.largest (usable : HasFrame K entries) : ∃ entry, largestRam entries = some entry := by
  obtain ⟨entry, isEntry, f, -, -, holds⟩ := usable
  refine Option.ne_none_iff_exists'.mp fun none => ?_
  have empty := List.argmax_eq_none.mp none
  exact List.filter_eq_nil_iff.mp empty entry isEntry (by simpa using holds.ram)

/-- An allocator that starts at or after the kernel's end, in a RAM region that it ends with,
hands out the frames of that region. -/
theorem initFrameAllocator_onlyRam {start stop : Nat} (isEntry : entry ∈ entries) (ram : entry.type = 1)
    (positive : 0 < start) (aboveKernel : K.freememoryStart ≤ start) (aboveBase : entry.baseAddr ≤ start)
    (within : stop ≤ entry.baseAddr + entry.length) (bounded : stop < 2 ^ 39)
    (atFirst : (start + 0xfff) / 4096 * 4096 = first) (atLast : stop / 4096 * 4096 = last) (ordered : first ≤ last) :
    OnlyRam K entries (initFrameAllocator s start stop) := by
  intro t live reach request f t' run
  let A : Arena := ⟨first, last, by omega, by omega, by omega, ordered, by omega⟩
  obtain ⟨free, accounted⟩ := reach.accounted (FreeFrames.initFrameAllocator A atFirst atLast)
  obtain ⟨-, lower, upper, -⟩ := accounted.kept.handed_out request f t' run
  have fromFirst : first ≤ f := lower
  have toLast : f + 4096 ≤ last := upper
  exact ⟨by omega, entry, isEntry, ram, by omega, by omega⟩

/-- One that starts beyond its end comes to frames that no region holds. -/
theorem initFrameAllocator_notOnlyRam {start stop : Nat}
    (bounded : ∀ entry ∈ entries, entry.type = 1 → entry.baseAddr + entry.length < 2 ^ 39) (small : start ≤ 2 ^ 39 - 4096)
    (atFirst : (start + 0xfff) / 4096 * 4096 = first) (atLast : stop / 4096 * 4096 = last) (past : last < first) :
    ¬OnlyRam K entries (initFrameAllocator s start stop) := by
  intro only
  have fits : (start + 0xfff) % 2 ^ 64 = start + 0xfff := Nat.mod_eq_of_lt (by omega)
  have atStart : (initFrameAllocator s start stop).freememStart = linearAddressToPtr first := by
    simp only [initFrameAllocator, fits, atFirst]
  have atEnd : (initFrameAllocator s start stop).freememEnd = linearAddressToPtr last := by
    simp only [initFrameAllocator, atLast]
  -- The last frame of the linear window is in no region.
  obtain ⟨k, count⟩ : ∃ k, first + 4096 * k = 2 ^ 39 - 4096 := ⟨(2 ^ 39 - 4096 - first) / 4096, by omega⟩
  obtain ⟨t, live, reach, empty, bump, finish⟩ := FrameReach.overrun rfl atStart atEnd past (k := k) (by omega)
  have run := frameAlloc_untouched empty bump finish (by omega) (by omega) (by omega) (by omega)
  obtain ⟨-, entry, isEntry, holds⟩ := only t live reach .frameAlloc _ _ run
  have below := bounded entry isEntry holds.ram
  have upper := holds.upper
  omega

/-- Only RAM is handed out just when the longest RAM region reaches up to a frame boundary
that is not below the kernel's end: otherwise the allocator starts beyond the end of its memory.
The map lies where the kernel can read it, and some frame above the kernel is RAM. -/
theorem setupFrameAllocator_onlyRam_iff (map : BootMap s.mem a entries) (usable : HasFrame K entries) :
    ∃ s', setupFrameAllocator K s (kernelBase + a) = .ok s' ∧ (OnlyRam K entries s' ↔ ∃ entry ∈ largestRam entries,
      ∃ x, x % 4096 = 0 ∧ K.freememoryStart ≤ x ∧ entry.baseAddr ≤ x ∧ x ≤ entry.baseAddr + entry.length) := by
  obtain ⟨entry, largest⟩ := usable.largest
  obtain ⟨isEntry, ram, longest⟩ := largestRam_spec largest
  refine ⟨_, setupFrameAllocator_eq map largest, ?_⟩
  obtain ⟨other, isOther, f, aligned, above, holds⟩ := usable
  have below := map.bounded entry isEntry ram
  have below' := map.bounded other isOther holds.ram
  have longer := longest other isOther holds.ram
  have lower := holds.lower
  have upper := holds.upper
  have positive : 0 < K.freememoryStart := by
    have inside := K.inside K.kernelPml4 List.mem_cons_self
    omega
  simp only [largest, Option.mem_some, exists_eq_left']
  constructor
  · intro only
    by_contra none
    refine initFrameAllocator_notOnlyRam map.bounded (by omega) rfl rfl ?_ only
    by_contra ordered
    exact none ⟨(max K.freememoryStart entry.baseAddr + 0xfff) / 4096 * 4096, by omega, by omega, by omega, by omega⟩
  · rintro ⟨x, boundary, aboveKernel, aboveBase, inside⟩
    exact initFrameAllocator_onlyRam isEntry ram (by omega) (le_max_left _ _) (le_max_right _ _) le_rfl below rfl rfl
      (by omega)

end allocation

/-- A machine whose longest RAM region ends below the kernel's end, before a reserved one. -/
def lowRamMap : List MmapInfo := [⟨20, 0x100000, 0x12f0000, 1⟩, ⟨20, 0x13f0000, 0x110000, 2⟩, ⟨20, 0x1500000, 0x200000, 1⟩]

def lowRamInfo : Memory :=
  imageMemory 0x1600000 [(44, 4, 72), (48, 4, 0x1600100),
    (0x100, 4, 20), (0x104, 8, 0x100000), (0x10c, 8, 0x12f0000), (0x114, 4, 1),
    (0x118, 4, 20), (0x11c, 8, 0x13f0000), (0x124, 8, 0x110000), (0x12c, 4, 2),
    (0x130, 4, 20), (0x134, 8, 0x1500000), (0x13c, 8, 0x200000), (0x144, 4, 1)]

theorem lowRamInfo_map : MemoryMap lowRamInfo 0x1600148 0x1600100 lowRamMap := by
  refine .cons (by decide) (by decide) (.cons (by decide) (by decide) (.cons (by decide) (by decide) ?_))
  exact .nil

/-- What the boot loader leaves above the kernel is there when the memory map is read. -/
theorem lowRamInfo_boot : ∃ root s, createKernelAddressSpace smallImage ⟨lowRamInfo, 0, 0, 0⟩ = .ok (root, s) ∧
    BootMap s.mem 0x1600000 lowRamMap ∧ HasFrame smallImage lowRamMap := by
  obtain ⟨m, made, -, kept⟩ := createKernelAddressSpace_eq smallImage ⟨lowRamInfo, 0, 0, 0⟩
  have same : Agree lowRamInfo m 0x1600000 0x148 := fun i _ => kept _ (by simp only [smallImage]; omega)
  have length : readLE m 4 (0x1600000 + 44) = 72 := (same.readLE (by decide)).trans (by decide)
  have addr : readLE m 4 (0x1600000 + 48) = 0x1600100 := (same.readLE (by decide)).trans (by decide)
  refine ⟨_, _, made, ⟨by decide, ?_, ?_, by decide⟩, ?_⟩
  · rw [length, addr]
    decide
  · rw [length, addr]
    exact lowRamInfo_map.congr fun i bound => by
      have byte := same (0x100 + i) (by omega)
      rwa [← Nat.add_assoc] at byte
  · exact ⟨⟨20, 0x1500000, 0x200000, 1⟩, by decide, 0x1500000, by decide, by decide, rfl, by decide, by decide⟩

theorem setupFrameAllocator_onlyRam_iff_lowRam : ∃ s s', setupFrameAllocator smallImage s (kernelBase + 0x1600000) = .ok s' ∧
    (OnlyRam smallImage lowRamMap s' ↔ ∃ entry ∈ largestRam lowRamMap, ∃ x, x % 4096 = 0 ∧ smallImage.freememoryStart ≤ x ∧
      entry.baseAddr ≤ x ∧ x ≤ entry.baseAddr + entry.length) := by
  obtain ⟨root, s, -, map, usable⟩ := lowRamInfo_boot
  exact ⟨s, setupFrameAllocator_onlyRam_iff map usable⟩

/-- The first frame that it hands out lies in the reserved region. -/
theorem setupFrameAllocator_reserved : ∃ root s s' t, createKernelAddressSpace smallImage ⟨lowRamInfo, 0, 0, 0⟩ = .ok (root, s) ∧
    BootMap s.mem 0x1600000 lowRamMap ∧ HasFrame smallImage lowRamMap ∧
    setupFrameAllocator smallImage s (kernelBase + 0x1600000) = .ok s' ∧ frameAlloc s' = .ok (0x1400000, t) ∧
    (∀ entry ∈ lowRamMap, ¬entry.Holds 0x1400000) ∧ ¬OnlyRam smallImage lowRamMap s' := by
  obtain ⟨root, s, made, map, usable⟩ := lowRamInfo_boot
  have setup := setupFrameAllocator_eq (K := smallImage) map (show largestRam lowRamMap = some ⟨20, 0x100000, 0x12f0000, 1⟩ from rfl)
  have alloc := @frameAlloc_untouched (initFrameAllocator s (max smallImage.freememoryStart 0x100000) (0x100000 + 0x12f0000))
    0x1400000 0x13f0000 rfl rfl rfl (by decide) (by decide) (by decide) (by decide)
  have outside : ∀ entry ∈ lowRamMap, ¬entry.Holds 0x1400000 := by
    intro entry member holds
    obtain ⟨ram, lower, upper⟩ := holds
    fin_cases member
    · exact absurd upper (by decide)
    · exact absurd ram (by decide)
    · exact absurd lower (by decide)
  refine ⟨root, s, _, _, made, map, usable, setup, alloc, outside, fun only => ?_⟩
  obtain ⟨-, entry, member, holds⟩ := only _ [] .start .frameAlloc _ _ alloc
  exact outside entry member holds

end MetalToApp

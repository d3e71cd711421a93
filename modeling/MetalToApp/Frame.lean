import MetalToApp.Klib
import MetalToApp.Library.Chain
import Mathlib.Tactic

namespace MetalToApp
open ByteMemory Chain

def defaultFrameSize : Nat := 0x1000

def initFrameAllocator (s : Kernel) (fmStart fmEnd : Nat) : Kernel :=
  { s with
    freememStart := linearAddressToPtr ((fmStart + 0xfff) % 2 ^ 64 / 0x1000 * 0x1000)
    freememEnd := linearAddressToPtr (fmEnd / 0x1000 * 0x1000)
    freelist := 0 }

/-- The first word of a free frame is its `nextFreePage` pointer. -/
def frameAllocInternal (s : Kernel) : Outcome (Nat × Kernel) := do
  if s.freelist ≠ 0 then
    let next ← s.load64 s.freelist
    return (s.freelist, { s with freelist := next })
  if s.freememStart = s.freememEnd then .error .panic
  else return (s.freememStart, { s with freememStart := (s.freememStart + 0x1000) % 2 ^ 64 })

def frameAlloc (s : Kernel) : Outcome (Nat × Kernel) := do
  let (frame, s) ← frameAllocInternal s
  let a ← pointerToLinearAddress frame
  return (a, s)

def frameAllocZero (s : Kernel) : Outcome (Nat × Kernel) := do
  let (frame, s) ← frameAllocInternal s
  let s ← s.memset frame 0 0x1000
  let a ← pointerToLinearAddress frame
  return (a, s)

def frameDealloc (s : Kernel) (frameAddress : Nat) : Outcome Kernel := do
  let freePage := linearAddressToPtr frameAddress
  let s ← s.store64 freePage s.freelist
  return { s with freelist := freePage }

/-- The page-aligned stretch of physical memory an allocator is responsible for. -/
structure Arena where
  first : Nat
  last : Nat
  first_aligned : first % 4096 = 0
  last_aligned : last % 4096 = 0
  positive : 0 < first
  ordered : first ≤ last
  bounded : last ≤ 2 ^ 39

/-- `f` is the address of a whole frame of the arena. -/
structure Arena.Frame (A : Arena) (f : Nat) : Prop where
  aligned : f % 4096 = 0
  lower : A.first ≤ f
  upper : f + 4096 ≤ A.last

namespace Arena.Frame
variable {A : Arena} {f g : Nat}

theorem pos (h : A.Frame f) : 0 < f := A.positive.trans_le h.lower

theorem room (h : A.Frame f) : f + 4096 ≤ 2 ^ 39 := h.upper.trans A.bounded

/-- Different frames do not overlap. -/
theorem apart (h : A.Frame f) (h' : A.Frame g) (different : f ≠ g) : f + 4096 ≤ g ∨ g + 4096 ≤ f := by
  have := h.aligned
  have := h'.aligned
  omega

end Arena.Frame

/-- The frames from `b` up to `e`, in address order. -/
def frameRange (b e : Nat) : List Nat := (List.range ((e - b) / 4096)).map fun k => b + 4096 * k

theorem mem_frameRange {b e f : Nat} (aligned : b % 4096 = 0) :
    f ∈ frameRange b e ↔ f % 4096 = 0 ∧ b ≤ f ∧ f + 4096 ≤ e := by
  simp only [frameRange, List.mem_map, List.mem_range]
  constructor
  · rintro ⟨k, bound, rfl⟩
    omega
  · rintro ⟨atPage, lower, upper⟩
    exact ⟨(f - b) / 4096, by omega, by omega⟩

theorem frameRange_cons {b e : Nat} (room : b + 4096 ≤ e) :
    frameRange b e = b :: frameRange (b + 4096) e := by
  have count : (e - b) / 4096 = (e - (b + 4096)) / 4096 + 1 := by omega
  simp only [frameRange, count, List.range_succ_eq_map, List.map_cons, List.map_map, Nat.mul_zero, Nat.add_zero]
  congr 1
  refine List.map_congr_left fun k _ => ?_
  simp only [Function.comp_apply]
  omega

theorem frameRange_nodup (b e : Nat) : (frameRange b e).Nodup :=
  List.nodup_range.map fun k k' same => by omega

theorem frameRange_length (b e : Nat) : (frameRange b e).length = (e - b) / 4096 := by
  simp [frameRange]

theorem frameRange_drop (b e n : Nat) : (frameRange b e).drop n = frameRange (b + 4096 * n) e := by
  refine List.ext_getElem ?_ fun i _ _ => ?_
  · rw [List.length_drop, frameRange_length, frameRange_length]
    omega
  · simp only [frameRange, List.getElem_drop, List.getElem_map, List.getElem_range]
    omega

theorem mem_take_frameRange {b e f n : Nat} (aligned : b % 4096 = 0) (member : f ∈ (frameRange b e).take n) :
    f % 4096 = 0 ∧ b ≤ f ∧ f + 4096 ≤ b + 4096 * n := by
  obtain ⟨i, bound, rfl⟩ := List.mem_take_iff_getElem.mp member
  simp only [frameRange, List.getElem_map, List.getElem_range]
  omega

/-- The `nextFreePage` link of the free frame at a pointer. -/
def nextFreePage (m : Memory) (p : Nat) : Nat := read64 m (p - linearStart)

/-- The allocator's variables describe the free list `listed`, threaded through the
first words of its frames, and the untouched frames from `bump` to the arena's end. -/
structure FrameLists (A : Arena) (s : Kernel) (listed : List Nat) (bump : Nat) : Prop where
  chain : Linked 0 (nextFreePage s.mem) s.freelist (listed.map linearAddressToPtr)
  listed_frame : ∀ f ∈ listed, A.Frame f
  listed_below : ∀ f ∈ listed, f < bump
  listed_nodup : listed.Nodup
  start : s.freememStart = linearAddressToPtr bump
  finish : s.freememEnd = linearAddressToPtr A.last
  bump_aligned : bump % 4096 = 0
  bump_lower : A.first ≤ bump
  bump_upper : bump ≤ A.last

/-- The abstract allocator is a stack: `free` lists the free frames in the order in
which they will be handed out. -/
def FreeFrames (A : Arena) (s : Kernel) (free : List Nat) : Prop :=
  ∃ listed bump, FrameLists A s listed bump ∧ free = listed ++ frameRange bump A.last

namespace FrameLists
variable {A : Arena} {s : Kernel} {listed : List Nat} {bump : Nat}

theorem bump_frame (lists : FrameLists A s listed bump) {f : Nat} (member : f ∈ frameRange bump A.last) :
    A.Frame f := by
  obtain ⟨aligned, lower, upper⟩ := (mem_frameRange lists.bump_aligned).mp member
  exact ⟨aligned, lists.bump_lower.trans lower, upper⟩

theorem frame (lists : FrameLists A s listed bump) {f : Nat} (member : f ∈ listed ++ frameRange bump A.last) :
    A.Frame f :=
  (List.mem_append.mp member).elim (lists.listed_frame f) lists.bump_frame

theorem nodup (lists : FrameLists A s listed bump) : (listed ++ frameRange bump A.last).Nodup := by
  refine List.nodup_append.mpr ⟨lists.listed_nodup, frameRange_nodup _ _, ?_⟩
  rintro f inList g inRange rfl
  have below := lists.listed_below f inList
  have above := (mem_frameRange lists.bump_aligned).mp inRange
  omega

theorem congr (lists : FrameLists A s listed bump) {t : Kernel} (start : t.freememStart = s.freememStart)
    (finish : t.freememEnd = s.freememEnd) (freelist : t.freelist = s.freelist)
    (same : ∀ f ∈ listed, Agree s.mem t.mem f 4096) : FrameLists A t listed bump where
  chain := by
    rw [freelist]
    refine lists.chain.congr fun p member => ?_
    obtain ⟨f, inList, rfl⟩ := List.mem_map.mp member
    have room := (lists.listed_frame f inList).room
    rw [nextFreePage, nextFreePage, linearAddressToPtr_of_lt (by omega), Nat.add_sub_cancel_left]
    exact (same f inList).readLE (o := 0) (by decide)
  listed_frame := lists.listed_frame
  listed_below := lists.listed_below
  listed_nodup := lists.listed_nodup
  start := start.trans lists.start
  finish := finish.trans lists.finish
  bump_aligned := lists.bump_aligned
  bump_lower := lists.bump_lower
  bump_upper := lists.bump_upper

end FrameLists

namespace FreeFrames
variable {A : Arena} {s : Kernel} {free : List Nat}

theorem frame (h : FreeFrames A s free) {f : Nat} (member : f ∈ free) : A.Frame f := by
  obtain ⟨listed, bump, lists, rfl⟩ := h
  exact lists.frame member

theorem nodup (h : FreeFrames A s free) : free.Nodup := by
  obtain ⟨listed, bump, lists, rfl⟩ := h
  exact lists.nodup

/-- Memory outside the free frames may change freely. -/
theorem congr (h : FreeFrames A s free) {t : Kernel} (start : t.freememStart = s.freememStart)
    (finish : t.freememEnd = s.freememEnd) (freelist : t.freelist = s.freelist)
    (same : ∀ f ∈ free, Agree s.mem t.mem f 4096) : FreeFrames A t free := by
  obtain ⟨listed, bump, lists, rfl⟩ := h
  exact ⟨listed, bump, lists.congr start finish freelist
    fun f member => same f (List.mem_append_left _ member), rfl⟩

theorem congr_mem (h : FreeFrames A s free) {m : Memory} (same : ∀ f ∈ free, Agree s.mem m f 4096) :
    FreeFrames A { s with mem := m } free :=
  h.congr rfl rfl rfl same

/-- Allocation pops the next free frame. -/
theorem frameAllocInternal_cons {f : Nat} (h : FreeFrames A s (f :: free)) :
    ∃ s', frameAllocInternal s = .ok (linearAddressToPtr f, s') ∧ FreeFrames A s' free ∧ s'.mem = s.mem := by
  have frame := h.frame List.mem_cons_self
  have room := frame.room
  obtain ⟨listed, bump, lists, order⟩ := h
  cases listed with
  | nil =>
    have empty : s.freelist = 0 := Linked.nil_iff.mp (by simpa using lists.chain)
    have inRange : f ∈ frameRange bump A.last := by
      rw [show frameRange bump A.last = f :: free from order.symm]
      exact List.mem_cons_self
    have space := (mem_frameRange lists.bump_aligned).mp inRange
    have upper := lists.bump_upper
    have bounded := A.bounded
    rw [List.nil_append, frameRange_cons (by omega)] at order
    obtain ⟨rfl, rfl⟩ := List.cons.inj order
    have unequal : s.freememStart ≠ s.freememEnd := by
      rw [lists.start, lists.finish, Ne, linearAddressToPtr_inj (by omega) (by omega)]
      omega
    have step : (linearAddressToPtr f + 0x1000) % 2 ^ 64 = linearAddressToPtr (f + 4096) := by
      unfold linearAddressToPtr
      omega
    refine ⟨{ s with freememStart := linearAddressToPtr (f + 4096) }, ?_, ?_, rfl⟩
    · simp only [frameAllocInternal, empty, ne_eq, not_true_eq_false, if_false, unequal, Outcome.pure_eq_ok]
      rw [lists.start, step]
    · refine ⟨[], f + 4096, ⟨?_, by simp, by simp, .nil, rfl, lists.finish, ?_, ?_, by omega⟩,
        (List.nil_append _).symm⟩
      · simpa [empty] using lists.chain
      · have := lists.bump_aligned
        omega
      · have := lists.bump_lower
        omega
  | cons g rest =>
    obtain ⟨rfl, rfl⟩ := List.cons.inj order
    obtain ⟨head, tail⟩ := lists.chain.pop
    have nonzero := linearAddressToPtr_ne_zero (a := f) (by omega)
    have load : s.load64 (linearAddressToPtr f) = .ok (nextFreePage s.mem (linearAddressToPtr f)) := by
      have run := s.load_linear (a := f) (o := 0) (n := 8) (by omega) (by omega)
      simp only [Nat.add_zero] at run
      rw [Kernel.load64, run, nextFreePage, linearAddressToPtr_of_lt (by omega), Nat.add_sub_cancel_left]
    refine ⟨{ s with freelist := nextFreePage s.mem (linearAddressToPtr f) }, ?_, ?_, rfl⟩
    · simp only [frameAllocInternal, head, ne_eq, nonzero, not_false_eq_true, if_true, load, Outcome.ok_bind,
        Outcome.pure_eq_ok]
    · exact ⟨rest, bump, ⟨tail, fun a member => lists.listed_frame a (List.mem_cons_of_mem _ member),
        fun a member => lists.listed_below a (List.mem_cons_of_mem _ member), lists.listed_nodup.of_cons,
        lists.start, lists.finish, lists.bump_aligned, lists.bump_lower, lists.bump_upper⟩, rfl⟩

theorem frameAllocInternal_nil (h : FreeFrames A s []) : frameAllocInternal s = .error .panic := by
  obtain ⟨listed, bump, lists, order⟩ := h
  obtain ⟨rfl, range⟩ := List.append_eq_nil_iff.mp order.symm
  have empty : s.freelist = 0 := Linked.nil_iff.mp (by simpa using lists.chain)
  have full : bump = A.last := by
    by_contra different
    have := lists.bump_aligned
    have := lists.bump_upper
    have := A.last_aligned
    rw [frameRange_cons (by omega)] at range
    cases range
  have exhausted : s.freememStart = s.freememEnd := by rw [lists.start, lists.finish, full]
  simp [frameAllocInternal, empty, exhausted]

theorem frameAlloc_cons {f : Nat} (h : FreeFrames A s (f :: free)) :
    ∃ s', frameAlloc s = .ok (f, s') ∧ FreeFrames A s' free ∧ s'.mem = s.mem := by
  have frame := h.frame List.mem_cons_self
  obtain ⟨s', run, rest, mem⟩ := h.frameAllocInternal_cons
  refine ⟨s', ?_, rest, mem⟩
  have room := frame.room
  simp only [frameAlloc, run, Outcome.ok_bind, pointerToLinearAddress_linear frame.pos (by omega), Outcome.pure_eq_ok]

theorem frameAllocZero_cons {f : Nat} (h : FreeFrames A s (f :: free)) :
    ∃ s', frameAllocZero s = .ok (f, s') ∧ FreeFrames A s' free ∧ s'.mem = memset s.mem f 0 4096 := by
  have frame := h.frame List.mem_cons_self
  have room := frame.room
  obtain ⟨next, run, rest, mem⟩ := h.frameAllocInternal_cons
  refine ⟨{ next with mem := memset s.mem f 0 4096 }, ?_, ?_, rfl⟩
  · simp only [frameAllocZero, run, Outcome.ok_bind, next.memset_linear 0 room (by omega),
      pointerToLinearAddress_linear frame.pos (by omega), Outcome.pure_eq_ok, mem]
  · refine rest.congr_mem fun g member => ?_
    have different : f ≠ g := fun same => (List.nodup_cons.mp h.nodup).1 (same ▸ member)
    have separate := frame.apart (rest.frame member) different
    intro i bound
    rw [memset_outside 0 (by omega), mem]

theorem frameAlloc_nil (h : FreeFrames A s []) : frameAlloc s = .error .panic := by
  rw [frameAlloc, h.frameAllocInternal_nil, Outcome.error_bind]

theorem frameAllocZero_nil (h : FreeFrames A s []) : frameAllocZero s = .error .panic := by
  rw [frameAllocZero, h.frameAllocInternal_nil, Outcome.error_bind]

/-- Deallocation pushes: the frame's first word becomes the link to the old list. -/
theorem frameDealloc_push {f : Nat} (h : FreeFrames A s free) (frame : A.Frame f) (live : f ∉ free) :
    frameDealloc s f = .ok { s with mem := write64 s.mem f s.freelist, freelist := linearAddressToPtr f } ∧
      FreeFrames A { s with mem := write64 s.mem f s.freelist, freelist := linearAddressToPtr f } (f :: free) := by
  have room := frame.room
  have store := s.store_linear (a := f) (o := 0) (n := 8) s.freelist (by omega) (by omega)
  simp only [Nat.add_zero] at store
  refine ⟨by simp only [frameDealloc, Kernel.store64, store, Outcome.ok_bind, Outcome.pure_eq_ok], ?_⟩
  obtain ⟨listed, bump, lists, rfl⟩ := h
  have unlisted : f ∉ listed := fun member => live (List.mem_append_left _ member)
  have below : f < bump := by
    by_contra above
    exact live (List.mem_append_right _ ((mem_frameRange lists.bump_aligned).mpr
      ⟨frame.aligned, by omega, frame.upper⟩))
  -- The list head is a pointer the allocator stored itself, so it fits a word.
  have fits : s.freelist < 2 ^ 64 := by
    cases listed with
    | nil =>
      have empty : s.freelist = 0 := Linked.nil_iff.mp (by simpa using lists.chain)
      rw [empty]
      decide
    | cons g rest => rw [lists.chain.pop.1]; exact Nat.mod_lt _ (by decide)
  have away : ∀ g ∈ listed, Agree s.mem (write64 s.mem f s.freelist) g 4096 := by
    intro g member i bound
    have separate := frame.apart (lists.listed_frame g member) (fun same => unlisted (same ▸ member))
    exact writeLE_outside (by omega)
  refine ⟨f :: listed, bump, ⟨?_, ?_, ?_, List.nodup_cons.mpr ⟨unlisted, lists.listed_nodup⟩, lists.start,
    lists.finish, lists.bump_aligned, lists.bump_lower, lists.bump_upper⟩, rfl⟩
  · have moved := (lists.congr (t := { s with mem := write64 s.mem f s.freelist }) rfl rfl rfl away).chain
    refine .cons (linearAddressToPtr_ne_zero (by omega)) ?_
    have link : nextFreePage (write64 s.mem f s.freelist) (linearAddressToPtr f) = s.freelist := by
      rw [nextFreePage, linearAddressToPtr_of_lt (by omega), Nat.add_sub_cancel_left, read64_write64_self fits]
    rw [link]
    exact moved
  · exact List.forall_mem_cons.mpr ⟨frame, lists.listed_frame⟩
  · exact List.forall_mem_cons.mpr ⟨below, lists.listed_below⟩

/-- The allocator's variables determine the free frames and their order. -/
theorem unique {A' : Arena} {free' : List Nat} (h : FreeFrames A s free) (h' : FreeFrames A' s free') : free = free' := by
  obtain ⟨listed, bump, lists, rfl⟩ := h
  obtain ⟨listed', bump', lists', rfl⟩ := h'
  have bounds := lists.bump_upper.trans A.bounded
  have bounds' := lists'.bump_upper.trans A'.bounded
  have sameLast : A.last = A'.last :=
    (linearAddressToPtr_inj (by have := A.bounded; omega) (by have := A'.bounded; omega)).mp
      (lists.finish.symm.trans lists'.finish)
  have sameBump : bump = bump' :=
    (linearAddressToPtr_inj (by omega) (by omega)).mp (lists.start.symm.trans lists'.start)
  have samePtrs := lists.chain.unique lists'.chain
  have recover {B : Arena} {fs : List Nat} (frames : ∀ f ∈ fs, B.Frame f) :
      (fs.map linearAddressToPtr).map (· - linearStart) = fs := by
    rw [List.map_map]
    refine (List.map_congr_left fun f member => ?_).trans fs.map_id
    have room := (frames f member).room
    rw [Function.comp_apply, linearAddressToPtr_of_lt (by omega), Nat.add_sub_cancel_left, id]
  have sameList : listed = listed' := by
    rw [← recover lists.listed_frame, samePtrs, recover lists'.listed_frame]
  rw [sameLast, sameBump, sameList]

/-- The freshly initialised allocator owns every whole frame of its range. -/
theorem initFrameAllocator {s : Kernel} (A : Arena) {fmStart fmEnd : Nat}
    (first : (fmStart + 0xfff) / 4096 * 4096 = A.first) (last : fmEnd / 4096 * 4096 = A.last) :
    FreeFrames A (MetalToApp.initFrameAllocator s fmStart fmEnd) (frameRange A.first A.last) := by
  have bounded := A.bounded
  have ordered := A.ordered
  have fits : (fmStart + 0xfff) % 2 ^ 64 = fmStart + 0xfff := Nat.mod_eq_of_lt (by omega)
  refine ⟨[], A.first, ⟨.nil, by simp, by simp, .nil, ?_, ?_, A.first_aligned, le_rfl, ordered⟩, rfl⟩
  · simp only [MetalToApp.initFrameAllocator, fits, first]
  · simp only [MetalToApp.initFrameAllocator, last]

end FreeFrames

end MetalToApp

import MetalToApp.FileReads

namespace MetalToApp
open ByteMemory Paging

/-- The frames that mapping the given pages takes: one for each, and one for each table that
the tree does not have. -/
noncomputable def framesFor (g : Ghost) (r : Nat) (pages : List Nat) : Nat :=
  pages.length + {q | ¬g.Has r q ∧ ∃ v ∈ pages, q ∈ stations v 3 []}.ncard

/-- The test in `copy_section` for a page that fills up wraps: it copies all of `filesz` bytes at once. -/
def ProgramHeader.Wraps (header : ProgramHeader) : Prop :=
  MoreToCopy header.memsz ∧ 2 ^ 64 ≤ header.filesz + header.vaddr % 0x1000

/-- The loader comes to program header `i`: the frames have sufficed up to there, and no
segment before it has faulted. -/
def ComesToHeader (g : Ghost) (r : Nat) (m : Memory) (a i : Nat) : Prop :=
  framesFor g r (imageAddresses m a i) ≤ g.free.length ∧
    ∀ k < i, (programHeaderAt m a k).headerType = 1 → ¬(programHeaderAt m a k).Wraps

/-- The loader comes to the copy of byte `j` of the segment that header `i` describes: to the
page for it, or, where the test wraps, to that place in the one copy over the first frame. -/
def ComesToByte (g : Ghost) (r : Nat) (m : Memory) (a i j : Nat) : Prop :=
  let header := programHeaderAt m a i
  let before := imageAddresses m a i
  let pages := segmentPages header.vaddr header.memsz
  j < header.filesz ∧
    if 2 ^ 64 ≤ header.filesz + header.vaddr % 0x1000 then
      MoreToCopy header.memsz ∧ framesFor g r (before ++ pages.take 1) ≤ g.free.length ∧
        g.free.getD (framesFor g r before) 0 + header.vaddr % 0x1000 + j ≤ 2 ^ 39
    else
      (header.vaddr % 0x1000 + j) / 0x1000 < pages.length ∧
        framesFor g r (before ++ pages.take ((header.vaddr % 0x1000 + j) / 0x1000 + 1)) ≤ g.free.length

/-- The file's `len` bytes hold all that the loader comes to: the fields of the ELF header
that it reads, its program headers, and the bytes of its loadable segments. -/
structure FileHolds (g : Ghost) (r : Nat) (m : Memory) (a len : Nat) : Prop where
  header : 0x3a ≤ len
  headers : ∀ i < programHeaderCount m a, ComesToHeader g r m a i →
    programHeaderOffset m a + programHeaderSize m a * i + 0x30 ≤ len
  segments : ∀ i, Loadable m a i → ComesToHeader g r m a i → ∀ j, ComesToByte g r m a i j →
    (programHeaderAt m a i).off + j < len

/-- Every byte that the loader reads through its pointers into the file lies in the file. -/
def ReadsInside (s : Kernel) (start stop space : Nat) : Prop :=
  ∀ p ∈ (Reading.loadElf s start stop space).events, start ≤ p ∧ p < stop

section header
variable {s : Kernel} {a len p : Nat}

theorem load_inFile {n : Nat} (room : a + len ≤ 2 ^ 39) (above : linearStart + a ≤ p) (below : p + n ≤ linearStart + a + len) :
    s.load n p = .ok (readLE s.mem n (p - linearStart)) := by
  rw [Kernel.load, window, if_pos ⟨by omega, by rw [linearEnd, addrshift512G]; omega⟩]
  rfl

/-- A field of a structure that starts inside the file, and what is done with it. -/
theorem inside_field {β : Type} {f : Nat → Reading β} {o n : Nat} (room : a + len ≤ 2 ^ 39) (above : linearStart + a ≤ p)
    (small : p + o < 2 ^ 64) (positive : 0 < n) (narrow : n ≤ 8) :
    Traced.Inside (InFile a len) (Reading.load s n (p + o) >>= f) ↔
      p + o + n ≤ linearStart + a + len ∧ Traced.Inside (InFile a len) (f (readLE s.mem n (p + o - linearStart))) := by
  have place : Traced.Inside (InFile a len) (Reading.load s n (p + o)) ↔ p + o + n ≤ linearStart + a + len := by
    rw [inside_load room positive narrow, Nat.mod_eq_of_lt small]
    exact and_iff_right (by omega)
  constructor
  · intro all
    have below := place.mp (Traced.inside_bind.mp all).1
    have run : (Reading.load s n (p + o)).result = .ok (readLE s.mem n (p + o - linearStart)) :=
      load_inFile room (by omega) below
    exact ⟨below, ((Traced.inside_bind_ok run).mp all).2⟩
  · rintro ⟨below, rest⟩
    have run : (Reading.load s n (p + o)).result = .ok (readLE s.mem n (p + o - linearStart)) :=
      load_inFile room (by omega) below
    exact (Traced.inside_bind_ok run).mpr ⟨place.mpr below, rest⟩

/-- The five fields of a program header lie in the file just when it does up to the last of them. -/
theorem readProgramHeader_inside (room : a + len ≤ 2 ^ 39) (small : p < 2 ^ 64) :
    Traced.Inside (InFile a len) (Reading.readProgramHeader s p) ↔ linearStart + a ≤ p ∧ p + 0x30 ≤ linearStart + a + len := by
  have top : linearStart + 2 ^ 39 + 0x30 < 2 ^ 64 := by decide
  by_cases first : linearStart + a ≤ p ∧ p + 4 ≤ linearStart + a + len
  · obtain ⟨above, below⟩ := first
    rw [Reading.readProgramHeader, inside_field room above (by omega) (by decide) (by decide),
      inside_field room above (by omega) (by decide) (by decide), inside_field room above (by omega) (by decide) (by decide),
      inside_field room above (by omega) (by decide) (by decide), inside_field room above (by omega) (by decide) (by decide)]
    simp only [Traced.inside_pure, and_true]
    omega
  · refine ⟨fun all => ?_, fun inside => absurd inside (by omega)⟩
    have field := (inside_load room (by decide) (by decide)).mp (Traced.inside_bind.mp all).1
    omega

end header

section segments
variable {K : KernelImage} {A : Arena} {s s' : Kernel} {g g' : Ghost} {m : Memory} {r a len n i j : Nat}
  {known : List (List Nat)}

theorem framesFor_eq (knows : g.Knows r known) (pages : List Nat) : framesFor g r pages = framesNeeded known pages := by
  have places : {q | ¬g.Has r q ∧ ∃ v ∈ pages, q ∈ stations v 3 []} =
      ((pages.flatMap fun v => stations v 3 []).toFinset \ known.toFinset : Finset _) := by
    ext q
    simp only [Set.mem_ofPred_eq, knows q, Finset.coe_sdiff, Set.mem_sdiff, Finset.mem_coe, List.mem_toFinset, List.mem_flatMap]
    exact and_comm
  rw [framesFor, places, Set.ncard_coe_finset, framesNeeded_eq]

/-- The loader comes to the same bytes seen from the state in front of the segment. -/
theorem comesToByte_iff (knows : g.Knows r known)
    (built : Built K A s g s' g' r (framesNeeded known (imageAddresses m a i))) :
    ComesToByte g r m a i j ↔ Copies g' (placesAfter known (imageAddresses m a i)) (programHeaderAt m a i).vaddr
      (programHeaderAt m a i).memsz (programHeaderAt m a i).filesz j := by
  have used := built.count
  have frame : g'.free.getD 0 0 = g.free.getD (framesNeeded known (imageAddresses m a i)) 0 := by
    rw [built.rest, List.getD_eq_getElem?_getD, List.getD_eq_getElem?_getD, List.getElem?_drop, Nat.add_zero]
  have enough (l : List Nat) : framesNeeded known (imageAddresses m a i ++ l) ≤ g.free.length ↔
      framesNeeded (placesAfter known (imageAddresses m a i)) l ≤ g'.free.length := by
    rw [framesNeeded_append]
    omega
  simp only [ComesToByte, Copies, framesFor_eq knows, enough, frame]

/-- What the file has to hold for the loader's first iterations. -/
def HoldsUpTo (g : Ghost) (r : Nat) (m : Memory) (a len n : Nat) : Prop :=
  ∀ i < n, ComesToHeader g r m a i → programHeaderOffset m a + programHeaderSize m a * i + 0x30 ≤ len ∧
    ((programHeaderAt m a i).headerType = 1 → ∀ j, ComesToByte g r m a i j → (programHeaderAt m a i).off + j < len)

/-- The loader comes to the first header in any case. -/
theorem comesToHeader_zero (g : Ghost) (r : Nat) (m : Memory) (a : Nat) : ComesToHeader g r m a 0 := by
  refine ⟨?_, fun k before => absurd before (Nat.not_lt_zero k)⟩
  simp [framesFor, imageAddresses]

theorem comesToHeader_succ (knows : g.Knows r known) : ComesToHeader g r m a (i + 1) ↔ ComesToHeader g r m a i ∧
    ((programHeaderAt m a i).headerType = 1 → ¬(programHeaderAt m a i).Wraps ∧
      framesNeeded known (imageAddresses m a i ++
        segmentPages (programHeaderAt m a i).vaddr (programHeaderAt m a i).memsz) ≤ g.free.length) := by
  simp only [ComesToHeader, framesFor_eq knows, imageAddresses]
  by_cases loadable : (programHeaderAt m a i).headerType = 1
  · rw [if_pos loadable]
    constructor
    · rintro ⟨enough, unwrapped⟩
      refine ⟨⟨?_, fun k before => unwrapped k (by omega)⟩, fun _ => ⟨unwrapped i (Nat.lt_succ_self i) loadable, enough⟩⟩
      rw [framesNeeded_append] at enough
      omega
    · rintro ⟨⟨-, unwrapped⟩, last⟩
      refine ⟨(last loadable).2, fun k before => ?_⟩
      by_cases earlier : k < i
      · exact unwrapped k earlier
      · have same : k = i := by omega
        exact same ▸ fun _ => (last loadable).1
  · rw [if_neg loadable, List.append_nil]
    constructor
    · rintro ⟨enough, unwrapped⟩
      exact ⟨⟨enough, fun k before => unwrapped k (by omega)⟩, fun isLoadable => absurd isLoadable loadable⟩
    · rintro ⟨⟨enough, unwrapped⟩, -⟩
      refine ⟨enough, fun k before => ?_⟩
      by_cases earlier : k < i
      · exact unwrapped k earlier
      · have same : k = i := by omega
        exact same ▸ fun isLoadable => absurd isLoadable loadable

theorem holdsUpTo_succ : HoldsUpTo g r m a len (i + 1) ↔ HoldsUpTo g r m a len i ∧
    (ComesToHeader g r m a i → programHeaderOffset m a + programHeaderSize m a * i + 0x30 ≤ len ∧
      ((programHeaderAt m a i).headerType = 1 → ∀ j, ComesToByte g r m a i j → (programHeaderAt m a i).off + j < len)) := by
  constructor
  · exact fun all => ⟨fun k before => all k (by omega), all i (Nat.lt_succ_self i)⟩
  · rintro ⟨before, last⟩ k bound
    by_cases earlier : k < i
    · exact before k earlier
    · have same : k = i := by omega
      exact same ▸ last

/-- The file lies in the linear window, apart from what the loader writes. The pages that the
loader gets a frame for lie in the lower half: it may run out of frames long before the end
of a segment. -/
structure FilePlaced (g : Ghost) (r : Nat) (m : Memory) (a len : Nat) : Prop where
  room : a + len ≤ 2 ^ 39
  apart : ∀ k < len, g.Apart r g.free.length (a + k)
  low : ∀ i, Loadable m a i → ComesToHeader g r m a i → programHeaderOffset m a + programHeaderSize m a * i + 0x30 ≤ len →
    let header := programHeaderAt m a i
    ∀ k page, (segmentPages header.vaddr header.memsz)[k]? = some page → (header.Wraps → k = 0) →
      framesFor g r (imageAddresses m a i ++ (segmentPages header.vaddr header.memsz).take k) < g.free.length →
        page / 2 ^ 47 % 2 = 0

/-- Seen from the state in front of a segment. -/
theorem FilePlaced.lowReached (placed : FilePlaced g r m a len) (knows : g.Knows r known)
    (built : Built K A s g s' g' r (framesNeeded known (imageAddresses m a i))) (loadable : Loadable m a i)
    (comes : ComesToHeader g r m a i) (inside : programHeaderOffset m a + programHeaderSize m a * i + 0x30 ≤ len) :
    LowReached g'.free.length (placesAfter known (imageAddresses m a i)) (programHeaderAt m a i).vaddr
      (programHeaderAt m a i).memsz (programHeaderAt m a i).filesz := by
  intro k page found first enough
  have used := built.count
  refine placed.low i loadable comes inside k page found (fun wraps => first wraps.2) ?_
  rw [framesFor_eq knows, framesNeeded_append]
  omega

theorem Built.agree_file {k : Nat} (built : Built K A s g s' g' r k) (placed : FilePlaced g r m a len) :
    Agree s.mem s'.mem a len :=
  fun o inside => built.outside ((placed.apart o inside).mono built.enough)

/-- A program header inside the file is read as the file has it. -/
theorem readProgramHeader_placed (placed : FilePlaced g r s.mem a len) {k : Nat} (built : Built K A s g s' g' r k)
    (inside : programHeaderOffset s.mem a + programHeaderSize s.mem a * i + 0x30 ≤ len) :
    readProgramHeader s' ((linearAddressToPtr a + programHeaderOffset s.mem a + programHeaderSize s.mem a * i) % 2 ^ 64) =
      .ok (programHeaderAt s.mem a i) := by
  have room := placed.room
  have same : Agree s.mem s'.mem (a + programHeaderOffset s.mem a + programHeaderSize s.mem a * i) 0x30 := by
    intro o bound
    have byte := built.agree_file placed (programHeaderOffset s.mem a + programHeaderSize s.mem a * i + o) (by omega)
    rwa [← Nat.add_assoc, ← Nat.add_assoc] at byte
  rw [programHeader_pointer, readProgramHeader_linear (by omega), headerAt_congr same]
  rfl

theorem programHeaderOffset_lt (m : Memory) (a : Nat) : programHeaderOffset m a < 2 ^ 64 := readLE_lt m 8 (a + 0x20)

theorem programHeaderSize_lt (m : Memory) (a : Nat) : programHeaderSize m a < 2 ^ 16 := readLE_lt m 2 (a + 0x36)

theorem programHeaderCount_lt (m : Memory) (a : Nat) : programHeaderCount m a < 2 ^ 16 := readLE_lt m 2 (a + 0x38)

/-- The pointer to a header that the loader comes to does not wrap back into the file. -/
theorem programHeader_place (room : a + len ≤ 2 ^ 39) (bound : i < programHeaderCount m a)
    (first : i = 0 ∨ programHeaderOffset m a + 0x30 ≤ len) {p : Nat}
    (pointer : p = (linearAddressToPtr a + programHeaderOffset m a + programHeaderSize m a * i) % 2 ^ 64) :
    linearStart + a ≤ p ∧ p + 0x30 ≤ linearStart + a + len ↔
      programHeaderOffset m a + programHeaderSize m a * i + 0x30 ≤ len := by
  have offset := programHeaderOffset_lt m a
  have steps : programHeaderSize m a * i < 2 ^ 16 * 2 ^ 16 :=
    Nat.mul_lt_mul'' (programHeaderSize_lt m a) (bound.trans (programHeaderCount_lt m a))
  have top : linearStart + 2 ^ 39 + 2 ^ 39 < 2 ^ 64 := by decide
  rw [linearAddressToPtr_of_lt (by omega)] at pointer
  rcases first with rfl | first
  · rw [Nat.mul_zero] at pointer ⊢
    omega
  · omega

/-- One iteration reads inside the file just when the file holds the header and what is
copied of the segment. -/
theorem loadSegment_inside (knows : g.Knows r known) (space : g.spaces r) (placed : FilePlaced g r s.mem a len)
    (built : Built K A s g s' g' r (framesNeeded known (imageAddresses s.mem a i)))
    (knows' : g'.Knows r (placesAfter known (imageAddresses s.mem a i))) (bound : i < programHeaderCount s.mem a)
    (comes : ComesToHeader g r s.mem a i) (first : i = 0 ∨ programHeaderOffset s.mem a + 0x30 ≤ len) :
    (Traced.Inside (InFile a len) (Reading.loadSegment s' (linearAddressToPtr r) (linearAddressToPtr a)
        ((linearAddressToPtr a + programHeaderOffset s.mem a + programHeaderSize s.mem a * i) % 2 ^ 64)) ↔
      programHeaderOffset s.mem a + programHeaderSize s.mem a * i + 0x30 ≤ len ∧
        ((programHeaderAt s.mem a i).headerType = 1 → ∀ j, ComesToByte g r s.mem a i j →
          (programHeaderAt s.mem a i).off + j < len)) := by
  have room := placed.room
  obtain ⟨p, pointer⟩ : ∃ p, p = (linearAddressToPtr a + programHeaderOffset s.mem a + programHeaderSize s.mem a * i) % 2 ^ 64 :=
    ⟨_, rfl⟩
  have small : p < 2 ^ 64 := pointer ▸ Nat.mod_lt _ (by decide)
  have place := programHeader_place room bound first pointer
  by_cases inside : programHeaderOffset s.mem a + programHeaderSize s.mem a * i + 0x30 ≤ len
  · have read : (Reading.readProgramHeader s' p).result = .ok (programHeaderAt s.mem a i) := by
      rw [Reading.readProgramHeader_result, pointer]
      exact readProgramHeader_placed placed built inside
    rw [← pointer, Reading.loadSegment, Traced.inside_bind_ok read, readProgramHeader_inside room small, place]
    refine and_congr_right fun _ => ?_
    by_cases loadable : (programHeaderAt s.mem a i).headerType = 1
    · have low := placed.lowReached knows built ⟨bound, loadable⟩ comes inside
      have vaddr : (programHeaderAt s.mem a i).vaddr < 2 ^ 64 := readLE_lt _ 8 _
      have filesz : (programHeaderAt s.mem a i).filesz < 2 ^ 64 := readLE_lt _ 8 _
      have off : (programHeaderAt s.mem a i).off < 2 ^ 64 := readLE_lt _ 8 _
      rw [if_pos loadable, copySection_inside_iff built.inv (built.spaces ▸ space) knows' room vaddr filesz low,
        inFile_offset_iff room off fun j copied => copied.zero]
      exact ⟨fun all _ j comes => all j ((comesToByte_iff knows built).mp comes),
        fun all j copied => all loadable j ((comesToByte_iff knows built).mpr copied)⟩
    · rw [if_neg loadable]
      exact ⟨fun _ isLoadable => absurd isLoadable loadable, fun _ => Traced.inside_pure _⟩
  · refine ⟨fun all => absurd ?_ inside, fun both => absurd both.1 inside⟩
    rw [← pointer] at all
    exact place.mp ((readProgramHeader_inside room small).mp (Traced.inside_bind.mp all).1)

/-- And then it returns when the test does not wrap and the frames suffice. -/
theorem loadSegment_outcome (knows : g.Knows r known) (space : g.spaces r)
    (placed : FilePlaced g r s.mem a len) (built : Built K A s g s' g' r (framesNeeded known (imageAddresses s.mem a i)))
    (knows' : g'.Knows r (placesAfter known (imageAddresses s.mem a i))) (bound : i < programHeaderCount s.mem a)
    (comes : ComesToHeader g r s.mem a i) (first : i = 0 ∨ programHeaderOffset s.mem a + 0x30 ≤ len)
    (holds : programHeaderOffset s.mem a + programHeaderSize s.mem a * i + 0x30 ≤ len ∧
      ((programHeaderAt s.mem a i).headerType = 1 → ∀ j, ComesToByte g r s.mem a i j → (programHeaderAt s.mem a i).off + j < len)) :
    (((programHeaderAt s.mem a i).headerType = 1 → ¬(programHeaderAt s.mem a i).Wraps ∧
        framesNeeded known (imageAddresses s.mem a i ++
          segmentPages (programHeaderAt s.mem a i).vaddr (programHeaderAt s.mem a i).memsz) ≤ g.free.length) →
      ∃ s'' g'', loadSegment s' (linearAddressToPtr r) (linearAddressToPtr a)
          ((linearAddressToPtr a + programHeaderOffset s.mem a + programHeaderSize s.mem a * i) % 2 ^ 64) = .ok s'' ∧
        Built K A s g s'' g'' r (framesNeeded known (imageAddresses s.mem a (i + 1))) ∧
        g''.Knows r (placesAfter known (imageAddresses s.mem a (i + 1)))) ∧
    (¬((programHeaderAt s.mem a i).headerType = 1 → ¬(programHeaderAt s.mem a i).Wraps ∧
        framesNeeded known (imageAddresses s.mem a i ++
          segmentPages (programHeaderAt s.mem a i).vaddr (programHeaderAt s.mem a i).memsz) ≤ g.free.length) →
      ∃ e, loadSegment s' (linearAddressToPtr r) (linearAddressToPtr a)
          ((linearAddressToPtr a + programHeaderOffset s.mem a + programHeaderSize s.mem a * i) % 2 ^ 64) = .error e) := by
  have read := readProgramHeader_placed placed built holds.1
  have inside := (loadSegment_inside knows space placed built knows' bound comes first).mpr holds
  have used := built.count
  have result : (Reading.readProgramHeader s' ((linearAddressToPtr a + programHeaderOffset s.mem a +
      programHeaderSize s.mem a * i) % 2 ^ 64)).result = .ok (programHeaderAt s.mem a i) := by
    rw [Reading.readProgramHeader_result, read]
  rw [Reading.loadSegment, Traced.inside_bind_ok result] at inside
  rw [loadSegment, read, Outcome.ok_bind, imageAddresses]
  by_cases loadable : (programHeaderAt s.mem a i).headerType = 1
  · rw [if_pos loadable] at inside ⊢
    simp only [if_pos loadable, framesNeeded_append, placesAfter_append]
    have vaddr : (programHeaderAt s.mem a i).vaddr < 2 ^ 64 := readLE_lt _ 8 _
    have filesz : (programHeaderAt s.mem a i).filesz < 2 ^ 64 := readLE_lt _ 8 _
    obtain ⟨returns, fails⟩ := copySection_outcome built.inv (built.spaces ▸ space) knows' placed.room vaddr filesz
      (placed.lowReached knows built ⟨bound, loadable⟩ comes holds.1) inside.2
    refine ⟨fun next => ?_, fun never => fails ?_⟩
    · obtain ⟨unwrapped, enough⟩ := next loadable
      obtain ⟨s'', g'', run, built', knows''⟩ := returns unwrapped (by omega)
      exact ⟨s'', g'', run, built.trans built', knows''⟩
    · by_contra both
      rw [not_or, not_lt] at both
      exact never fun _ => ⟨both.1, by omega⟩
  · simp only [if_neg loadable, List.append_nil]
    exact ⟨fun _ => ⟨s', g', rfl, built, knows'⟩, fun never => absurd (fun isLoadable => absurd isLoadable loadable) never⟩

/-- The run of the loader so far, when it has read inside the file only. -/
theorem loadSegments_inside (inv : KernelInv K A s g) (space : g.spaces r) (knows : g.Knows r known)
    (placed : FilePlaced g r s.mem a len) (bound : n ≤ programHeaderCount s.mem a) :
    (Traced.Inside (InFile a len) (Reading.loadSegments s (linearAddressToPtr r) (linearAddressToPtr a)
        (programHeaderOffset s.mem a) (programHeaderSize s.mem a) n) ↔ HoldsUpTo g r s.mem a len n) ∧
    (HoldsUpTo g r s.mem a len n →
      (ComesToHeader g r s.mem a n → ∃ s' g', loadSegments s (linearAddressToPtr r) (linearAddressToPtr a)
          (programHeaderOffset s.mem a) (programHeaderSize s.mem a) n = .ok s' ∧
        Built K A s g s' g' r (framesNeeded known (imageAddresses s.mem a n)) ∧
        g'.Knows r (placesAfter known (imageAddresses s.mem a n))) ∧
      (¬ComesToHeader g r s.mem a n → ∃ e, loadSegments s (linearAddressToPtr r) (linearAddressToPtr a)
          (programHeaderOffset s.mem a) (programHeaderSize s.mem a) n = .error e)) := by
  induction n with
  | zero =>
    refine ⟨⟨fun _ i bound => absurd bound (Nat.not_lt_zero i), fun _ => Traced.inside_pure s⟩,
      fun _ => ⟨fun _ => ?_, fun never => ?_⟩⟩
    · exact ⟨s, g, rfl, .refl inv, knows⟩
    · exact absurd (comesToHeader_zero g r s.mem a) never
  | succ i ih =>
    obtain ⟨reads, runs⟩ := ih (by omega)
    have result := Reading.loadSegments_result s (linearAddressToPtr r) (linearAddressToPtr a) (programHeaderOffset s.mem a)
      (programHeaderSize s.mem a) i
    have first (holds : HoldsUpTo g r s.mem a len i) : i = 0 ∨ programHeaderOffset s.mem a + 0x30 ≤ len :=
      (Nat.eq_zero_or_pos i).imp_right fun positive => by
        simpa using (holds 0 positive (comesToHeader_zero g r s.mem a)).1
    rw [holdsUpTo_succ, Reading.loadSegments, Traced.inside_bind, reads]
    by_cases comes : ComesToHeader g r s.mem a i
    · refine ⟨and_congr_right fun holds => ?_, fun both => ?_⟩
      · obtain ⟨s', g', run, built, knows'⟩ := (runs holds).1 comes
        rw [result, run]
        refine Iff.trans ⟨fun all => all s' rfl, fun here t same => ?_⟩
          ((loadSegment_inside knows space placed built knows' (by omega) comes (first holds)).trans
            ⟨fun here _ => here, fun all => all comes⟩)
        cases same
        exact here
      · obtain ⟨holds, last⟩ := both
        obtain ⟨s', g', run, built, knows'⟩ := (runs holds).1 comes
        obtain ⟨ends, stops⟩ := loadSegment_outcome knows space placed built knows' (by omega) comes (first holds) (last comes)
        rw [comesToHeader_succ knows, loadSegments, run, Outcome.ok_bind]
        exact ⟨fun next => ends next.2, fun never => stops fun all => never ⟨comes, all⟩⟩
    · refine ⟨and_congr_right fun holds => ?_, fun both => ⟨fun next => ?_, fun _ => ?_⟩⟩
      · obtain ⟨e, failed⟩ := (runs holds).2 comes
        rw [result, failed]
        exact ⟨fun _ here => absurd here comes, fun _ t impossible => by cases impossible⟩
      · exact absurd ((comesToHeader_succ knows).mp next).1 comes
      · obtain ⟨e, failed⟩ := (runs both.1).2 comes
        exact ⟨e, by rw [loadSegments, failed, Outcome.error_bind]⟩

/-- The program headers and the segments, in one condition. -/
theorem fileHolds_iff : FileHolds g r m a len ↔ 0x3a ≤ len ∧ HoldsUpTo g r m a len (programHeaderCount m a) := by
  constructor
  · rintro ⟨header, headers, segments⟩
    exact ⟨header, fun i bound comes => ⟨headers i bound comes, fun loadable => segments i ⟨bound, loadable⟩ comes⟩⟩
  · rintro ⟨header, holds⟩
    exact ⟨header, fun i bound comes => (holds i bound comes).1,
      fun i loadable comes => (holds i loadable.1 comes).2 loadable.2⟩

/-- The loader never compares anything with the end of the file: it reads inside just when
the file holds all that the loader comes to. The file lies apart from the free frames and from
the tables and frames of the space, and the pages that get a frame lie in the lower half. -/
theorem loadElf_readsInside_iff (inv : KernelInv K A s g) (space : g.spaces r) (placed : FilePlaced g r s.mem a len) :
    ReadsInside s (linearAddressToPtr a) (linearAddressToPtr (a + len)) (linearAddressToPtr r) ↔ FileHolds g r s.mem a len := by
  obtain ⟨known, knows⟩ := inv.knows r
  have room := placed.room
  have start : linearAddressToPtr a = linearStart + a := linearAddressToPtr_of_lt (by omega)
  have top : linearStart + 2 ^ 39 + 0x3a < 2 ^ 64 := by decide
  have field (o : Nat) : linearAddressToPtr a + o - linearStart = a + o := by omega
  have segments : Traced.Inside (InFile a len) (Reading.loadSegments s (linearAddressToPtr r) (linearAddressToPtr a)
      (programHeaderOffset s.mem a) (programHeaderSize s.mem a) (programHeaderCount s.mem a) >>= fun s' =>
        (return (readLE s.mem 8 (a + 0x18), s') : Reading (Nat × Kernel))) ↔
      HoldsUpTo g r s.mem a len (programHeaderCount s.mem a) :=
    Traced.inside_bind.trans ((and_iff_left fun _ _ => Traced.inside_pure _).trans
      (loadSegments_inside inv space knows placed le_rfl).1)
  have reads : Traced.Inside (InFile a len) (Reading.loadElf s (linearAddressToPtr a) (linearAddressToPtr (a + len))
      (linearAddressToPtr r)) ↔ 0x3a ≤ len ∧ HoldsUpTo g r s.mem a len (programHeaderCount s.mem a) := by
    have above : linearStart + a ≤ linearAddressToPtr a := by omega
    rw [Reading.loadElf, inside_field room above (by omega) (by decide) (by decide),
      inside_field room above (by omega) (by decide) (by decide), inside_field room above (by omega) (by decide) (by decide),
      inside_field room above (by omega) (by decide) (by decide), field, field, field, field]
    refine Iff.trans ?_ (and_congr_right fun _ => segments)
    constructor
    · rintro ⟨-, -, -, last, rest⟩
      exact ⟨by omega, rest⟩
    · rintro ⟨header, rest⟩
      exact ⟨by omega, by omega, by omega, by omega, rest⟩
  exact reads.trans fileHolds_iff.symm

end segments

/-- A program with two segments, in a file that holds them. -/
theorem loadElf_readsInside_iff_sharedPage : ∃ s, KernelInv smallImage smallMemory.arena s (Ghost.boot smallImage smallMemory.arena) ∧
    (ReadsInside s (linearAddressToPtr 0x1900000) (linearAddressToPtr 0x19000b1) (linearAddressToPtr 0x1200000) ↔
      FileHolds (Ghost.boot smallImage smallMemory.arena) 0x1200000 s.mem 0x1900000 0xb1) := by
  obtain ⟨s, -, inv, file⟩ := smallBoot sharedPageFile
  have same : Agree sharedPageFile s.mem 0x1900000 0xb1 := fun k inside => file _ (by omega)
  have wf := sharedPageFile_wellFormed.congr same
  refine ⟨s, inv, loadElf_readsInside_iff inv inv.kernelRoot ⟨wf.room, fun k _ => sharedPageFile_apart inv _ k,
    fun i loadable _ _ _ page found _ _ => lowPages_of_lower (wf.lower i loadable) page (List.mem_of_getElem? found)⟩⟩

/-- Of a file of one byte it reads the fields of an ELF header. -/
theorem loadElf_reads_beyond_byte : ∃ s, SpaceReach smallMemory s [] [linearAddressToPtr 0x1200000] [] ∧
    FilePlaced (Ghost.boot smallImage smallMemory.arena) 0x1200000 s.mem 0x1900000 1 ∧
    ¬ReadsInside s (linearAddressToPtr 0x1900000) (linearAddressToPtr 0x1900001) (linearAddressToPtr 0x1200000) := by
  obtain ⟨s, reach, inv, file⟩ := smallBoot sharedPageFile
  refine ⟨s, reach, ⟨by decide, fun k _ => sharedPageFile_apart inv _ k, fun i _ _ inside => absurd inside (by omega)⟩,
    fun inside => ?_⟩
  have entry : Traced.Inside (InFile 0x1900000 1) (Reading.load s 8 (linearAddressToPtr 0x1900000 + 0x18)) :=
    (Traced.inside_bind.mp inside).1
  exact absurd ((inside_load (by decide) (by decide) (by decide)).mp entry).2 (by decide)

end MetalToApp

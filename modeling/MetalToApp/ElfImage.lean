import MetalToApp.AddressSpaceRuns
import MetalToApp.Loading

namespace MetalToApp
open ByteMemory Paging

/-! The ELF image whose first byte is at the physical address `a`. -/

def programHeaderOffset (m : Memory) (a : Nat) : Nat := readLE m 8 (a + 0x20)
def programHeaderSize (m : Memory) (a : Nat) : Nat := readLE m 2 (a + 0x36)
def programHeaderCount (m : Memory) (a : Nat) : Nat := readLE m 2 (a + 0x38)

def headerAt (m : Memory) (a : Nat) : ProgramHeader where
  headerType := readLE m 4 a
  off := readLE m 8 (a + 0x8)
  vaddr := readLE m 8 (a + 0x10)
  filesz := readLE m 8 (a + 0x20)
  memsz := readLE m 8 (a + 0x28)

def programHeaderAt (m : Memory) (a i : Nat) : ProgramHeader :=
  headerAt m (a + programHeaderOffset m a + programHeaderSize m a * i)

/-- Program header `i` is there and describes a loadable segment. -/
def Loadable (m : Memory) (a i : Nat) : Prop :=
  i < programHeaderCount m a ∧ (programHeaderAt m a i).headerType = 1

instance (m : Memory) (a i : Nat) : Decidable (Loadable m a i) := inferInstanceAs (Decidable (_ ∧ _))

/-- The image's `len` bytes hold its headers and the bytes of its loadable segments, which
lie in the lower half of the address space. -/
structure WellFormed (m : Memory) (a len : Nat) : Prop where
  room : a + len ≤ 2 ^ 39
  header : 0x3a ≤ len
  headers : ∀ i < programHeaderCount m a, programHeaderOffset m a + programHeaderSize m a * i + 0x30 ≤ len
  file : ∀ i, Loadable m a i → (programHeaderAt m a i).off + (programHeaderAt m a i).filesz ≤ len
  fits : ∀ i, Loadable m a i → (programHeaderAt m a i).filesz ≤ (programHeaderAt m a i).memsz
  lower : ∀ i, Loadable m a i → (programHeaderAt m a i).vaddr + (programHeaderAt m a i).memsz ≤ 2 ^ 47

/-- The segments' bytes, by their addresses. -/
def segmentByteAt (m : Memory) (a i : Nat) : Nat → UInt8 :=
  segmentByte m (a + (programHeaderAt m a i).off) (programHeaderAt m a i).vaddr (programHeaderAt m a i).filesz

/-- The pages of the loadable segments among the first headers, the later ones over the
earlier. -/
def imagePages (m : Memory) (a : Nat) : Nat → Pages
  | 0 => fun _ => none
  | i + 1 =>
    let header := programHeaderAt m a i
    if header.headerType = 1 then
      (Pages.range (header.vaddr / 4096) (pageCount header.vaddr header.memsz) (segmentByteAt m a i)).overlay (imagePages m a i)
    else imagePages m a i

/-- The addresses at which these pages are mapped, in the loader's order. -/
def imageAddresses (m : Memory) (a : Nat) : Nat → List Nat
  | 0 => []
  | i + 1 =>
    let header := programHeaderAt m a i
    imageAddresses m a i ++ if header.headerType = 1 then segmentPages header.vaddr header.memsz else []

/-- All pages that the image takes, in the loader's order. -/
def allAddresses (m : Memory) (a : Nat) : List Nat := imageAddresses m a (programHeaderCount m a)

section image
variable {K : KernelImage} {A : Arena} {s s' : Kernel} {g : Ghost} {m m' : Memory} {r a len : Nat}
  {known : List (List Nat)}

theorem readProgramHeader_linear {b : Nat} (room : b + 0x30 ≤ 2 ^ 39) :
    readProgramHeader s (linearAddressToPtr b) = .ok (headerAt s.mem b) := by
  rw [readProgramHeader, s.load_linear (by omega) (by omega), Outcome.ok_bind, s.load_linear (by omega) (by omega),
    Outcome.ok_bind, s.load_linear (by omega) (by omega), Outcome.ok_bind, s.load_linear (by omega) (by omega),
    Outcome.ok_bind, s.load_linear (by omega) (by omega), Outcome.ok_bind, Outcome.pure_eq_ok]
  rfl

/-- The pointer that the loop forms to a program header. -/
theorem programHeader_pointer (a offset size i : Nat) :
    (linearAddressToPtr a + offset + size * i) % 2 ^ 64 = linearAddressToPtr (a + offset + size * i) := by
  unfold linearAddressToPtr
  omega

theorem headerAt_congr {b : Nat} (same : Agree m m' b 0x30) : headerAt m' b = headerAt m b := by
  simp only [headerAt, same.readLE (o := 0x8) (k := 8) (by decide), same.readLE (o := 0x10) (k := 8) (by decide),
    same.readLE (o := 0x20) (k := 8) (by decide), same.readLE (o := 0x28) (k := 8) (by decide),
    show readLE m' 4 b = readLE m 4 b from same.readLE (o := 0) (by decide)]

theorem programHeader_agree (wf : WellFormed m a len) (same : Agree m m' a len) {i : Nat}
    (bound : i < programHeaderCount m a) :
    Agree m m' (a + programHeaderOffset m a + programHeaderSize m a * i) 0x30 := by
  intro o inside
  have place := wf.headers i bound
  have byte := same (programHeaderOffset m a + programHeaderSize m a * i + o) (by omega)
  rwa [← Nat.add_assoc, ← Nat.add_assoc] at byte

theorem programHeaderCount_congr (wf : WellFormed m a len) (same : Agree m m' a len) :
    programHeaderCount m' a = programHeaderCount m a :=
  same.readLE (by have := wf.header; omega)

theorem programHeaderAt_congr (wf : WellFormed m a len) (same : Agree m m' a len) {i : Nat} (bound : i < programHeaderCount m a) :
    programHeaderAt m' a i = programHeaderAt m a i := by
  have header := wf.header
  have offset : programHeaderOffset m' a = programHeaderOffset m a := same.readLE (by omega)
  have size : programHeaderSize m' a = programHeaderSize m a := same.readLE (by omega)
  rw [programHeaderAt, programHeaderAt, offset, size, headerAt_congr (programHeader_agree wf same bound)]

theorem loadable_congr (wf : WellFormed m a len) (same : Agree m m' a len) {i : Nat} : Loadable m' a i ↔ Loadable m a i := by
  rw [Loadable, Loadable, programHeaderCount_congr wf same]
  exact and_congr_right fun bound => by rw [programHeaderAt_congr wf same bound]

/-- An image that has not been written to is well formed still. -/
theorem WellFormed.congr (wf : WellFormed m a len) (same : Agree m m' a len) : WellFormed m' a len := by
  have header := wf.header
  have offset : programHeaderOffset m' a = programHeaderOffset m a := same.readLE (by omega)
  have size : programHeaderSize m' a = programHeaderSize m a := same.readLE (by omega)
  refine ⟨wf.room, header, fun i bound => ?_, fun i loadable => ?_, fun i loadable => ?_, fun i loadable => ?_⟩
  · rw [programHeaderCount_congr wf same] at bound
    rw [offset, size]
    exact wf.headers i bound
  · rw [loadable_congr wf same] at loadable
    rw [programHeaderAt_congr wf same loadable.1]
    exact wf.file i loadable
  · rw [loadable_congr wf same] at loadable
    rw [programHeaderAt_congr wf same loadable.1]
    exact wf.fits i loadable
  · rw [loadable_congr wf same] at loadable
    rw [programHeaderAt_congr wf same loadable.1]
    exact wf.lower i loadable

theorem imageAddresses_congr (wf : WellFormed m a len) (same : Agree m m' a len) {n : Nat} (bound : n ≤ programHeaderCount m a) :
    imageAddresses m' a n = imageAddresses m a n := by
  induction n with
  | zero => rfl
  | succ i ih => rw [imageAddresses, imageAddresses, ih (by omega), programHeaderAt_congr wf same (by omega)]

theorem segmentByteAt_congr (wf : WellFormed m a len) (same : Agree m m' a len) {i : Nat} (loadable : Loadable m a i) :
    segmentByteAt m' a i = segmentByteAt m a i := by
  have file := wf.file i loadable
  rw [segmentByteAt, programHeaderAt_congr wf same loadable.1]
  exact funext fun x => segmentByte_congr (fun k inside => by
    rw [Nat.add_assoc]
    exact same _ (by omega)) x

theorem imagePages_congr (wf : WellFormed m a len) (same : Agree m m' a len) {n : Nat} (bound : n ≤ programHeaderCount m a) :
    imagePages m' a n = imagePages m a n := by
  induction n with
  | zero => rfl
  | succ i ih =>
    rw [imagePages, imagePages, ih (by omega), programHeaderAt_congr wf same (by omega)]
    by_cases loadable : (programHeaderAt m a i).headerType = 1
    · simp only [loadable, if_true, segmentByteAt_congr wf same ⟨by omega, loadable⟩]
    · simp only [loadable, if_false]

/-- The first headers need no more frames than all of them. -/
theorem framesNeeded_mono (known : List (List Nat)) {i n : Nat} (before : i ≤ n) :
    framesNeeded known (imageAddresses m a i) ≤ framesNeeded known (imageAddresses m a n) := by
  induction before with
  | refl => exact le_rfl
  | step _ ih =>
    rw [imageAddresses, framesNeeded_append]
    exact ih.trans (Nat.le_add_right _ _)

/-- A program header that the loop has not overwritten is read as it was. -/
theorem readProgramHeader_image (wf : WellFormed s.mem a len) (same : Agree s.mem s'.mem a len) {i : Nat}
    (bound : i < programHeaderCount s.mem a) :
    readProgramHeader s' ((linearAddressToPtr a + programHeaderOffset s.mem a + programHeaderSize s.mem a * i) % 2 ^ 64) =
      .ok (programHeaderAt s.mem a i) := by
  have room := wf.room
  have place := wf.headers i bound
  rw [programHeader_pointer, readProgramHeader_linear (by omega), headerAt_congr (programHeader_agree wf same bound)]
  rfl

/-- A further iteration of the loop loads the segment of a header that is as it was. -/
theorem loadSegments_next (wf : WellFormed s.mem a len) {i : Nat} (bound : i < programHeaderCount s.mem a) {space : Nat}
    {t : Kernel}
    (run : loadSegments s space (linearAddressToPtr a) (programHeaderOffset s.mem a) (programHeaderSize s.mem a) i = .ok t)
    (same : Agree s.mem t.mem a len) :
    loadSegments s space (linearAddressToPtr a) (programHeaderOffset s.mem a) (programHeaderSize s.mem a) (i + 1) =
      if (programHeaderAt s.mem a i).headerType = 1 then
        copySection t space (programHeaderAt s.mem a i).vaddr (linearAddressToPtr (a + (programHeaderAt s.mem a i).off))
          (programHeaderAt s.mem a i).memsz (programHeaderAt s.mem a i).filesz
      else .ok t := by
  simp only [loadSegments, run, Outcome.ok_bind, loadSegment, readProgramHeader_image wf same bound, Outcome.pure_eq_ok]
  split
  · rename_i loadable
    have room := wf.room
    have file := wf.file i ⟨bound, loadable⟩
    have source : (linearAddressToPtr a + (programHeaderAt s.mem a i).off) % 2 ^ 64 =
        linearAddressToPtr (a + (programHeaderAt s.mem a i).off) := by
      unfold linearAddressToPtr
      omega
    rw [source]
  · rfl

/-- The loop over the headers puts the segments into the address space one over the other,
or panics for want of frames, as long as the frames it takes lie apart from the image. -/
theorem loadSegments_loaded (inv : KernelInv K A s g) (space : g.spaces r) (knows : g.Knows r known)
    (wf : WellFormed s.mem a len) {budget : Nat} (apart : ∀ k < len, g.Apart r budget (a + k)) {n : Nat}
    (bound : n ≤ programHeaderCount s.mem a) (within : framesNeeded known (imageAddresses s.mem a n) ≤ budget) :
    (framesNeeded known (imageAddresses s.mem a n) ≤ g.free.length →
      ∃ s' g', loadSegments s (linearAddressToPtr r) (linearAddressToPtr a) (programHeaderOffset s.mem a)
          (programHeaderSize s.mem a) n = .ok s' ∧
        Loaded K A s g s' g' r (framesNeeded known (imageAddresses s.mem a n)) (imagePages s.mem a n) ∧
        g'.Knows r (placesAfter known (imageAddresses s.mem a n))) ∧
    (g.free.length < framesNeeded known (imageAddresses s.mem a n) →
      loadSegments s (linearAddressToPtr r) (linearAddressToPtr a) (programHeaderOffset s.mem a)
        (programHeaderSize s.mem a) n = .error .panic) := by
  induction n with
  | zero => exact ⟨fun _ => ⟨s, g, rfl, .refl inv, knows⟩, fun short => absurd short (Nat.not_lt_zero _)⟩
  | succ i ih =>
    have total := framesNeeded_append known (imageAddresses s.mem a i)
      (if (programHeaderAt s.mem a i).headerType = 1 then
        segmentPages (programHeaderAt s.mem a i).vaddr (programHeaderAt s.mem a i).memsz else [])
    rw [imageAddresses, total] at within
    rw [imageAddresses, total, placesAfter_append]
    obtain ⟨enough, short⟩ := ih (by omega) (by omega)
    by_cases first : framesNeeded known (imageAddresses s.mem a i) ≤ g.free.length
    · obtain ⟨s₁, g₁, run, loaded, knows₁⟩ := enough first
      have used := loaded.count
      have same : Agree s.mem s₁.mem a len := fun k inside => loaded.outside ((apart k inside).mono (by omega))
      rw [loadSegments_next wf (by omega) run same]
      by_cases loadable : (programHeaderAt s.mem a i).headerType = 1
      · have isLoadable : Loadable s.mem a i := ⟨by omega, loadable⟩
        have room := wf.room
        have file := wf.file i isLoadable
        have bytes : segmentByte s₁.mem (a + (programHeaderAt s.mem a i).off) (programHeaderAt s.mem a i).vaddr
            (programHeaderAt s.mem a i).filesz = segmentByteAt s.mem a i := by
          rw [← segmentByteAt_congr wf same isLoadable, segmentByteAt, programHeaderAt_congr wf same isLoadable.1]
        obtain ⟨enough', short'⟩ := copySection_loaded loaded.inv (loaded.spaces ▸ space) knows₁ (wf.lower i isLoadable)
          (wf.fits i isLoadable) (show a + (programHeaderAt s.mem a i).off + _ ≤ 2 ^ 39 by omega)
        simp only [loadable, if_true, imagePages] at within ⊢
        refine ⟨fun whole => ?_, fun whole => short' (by omega)⟩
        obtain ⟨s', g', run', knows', -, more⟩ := enough' (by omega)
        have loaded' := more fun k inside => by
          rw [Nat.add_assoc]
          exact loaded.apart ((apart _ (by omega)).mono within)
        rw [bytes] at loaded'
        exact ⟨s', g', run', loaded.trans loaded' space inv, knows'⟩
      · simp only [loadable, if_false, imagePages, framesNeeded, placesAfter]
        exact ⟨fun _ => ⟨s₁, g₁, rfl, loaded, knows₁⟩, fun whole => by omega⟩
    · rw [loadSegments, short (by omega), Outcome.error_bind]
      exact ⟨fun whole => by omega, fun _ => rfl⟩

/-- The loader comes to the loadable headers of the image, and to nothing else. -/
theorem comesTo_image (inv : KernelInv K A s g) (space : g.spaces r) (knows : g.Knows r known) (wf : WellFormed s.mem a len)
    (apart : ∀ k < len, g.Apart r (framesNeeded known (allAddresses s.mem a)) (a + k)) {header : ProgramHeader}
    (comes : ComesTo s (linearAddressToPtr a) (linearAddressToPtr r) header) :
    ∃ i, Loadable s.mem a i ∧ header = programHeaderAt s.mem a i := by
  obtain ⟨offset, size, count, i, t, atOffset, atSize, atCount, bound, run, read, loadable⟩ := comes
  have room := wf.room
  have inside := wf.header
  cases (s.load_linear (show a + 0x20 + 8 ≤ 2 ^ 39 by omega) (by omega)).symm.trans atOffset
  cases (s.load_linear (show a + 0x36 + 2 ≤ 2 ^ 39 by omega) (by omega)).symm.trans atSize
  cases (s.load_linear (show a + 0x38 + 2 ≤ 2 ^ 39 by omega) (by omega)).symm.trans atCount
  obtain ⟨enough, short⟩ := loadSegments_loaded inv space knows wf apart bound.le (framesNeeded_mono known (bound.le))
  by_cases whole : framesNeeded known (imageAddresses s.mem a i) ≤ g.free.length
  · obtain ⟨t', g', run', loaded, -⟩ := enough whole
    cases run'.symm.trans run
    have same : Agree s.mem t.mem a len := fun k within =>
      loaded.outside ((apart k within).mono (framesNeeded_mono known bound.le))
    cases (readProgramHeader_image wf same bound).symm.trans read
    exact ⟨i, ⟨bound, loadable⟩, rfl⟩
  · cases (short (by omega)).symm.trans run

theorem lowPages_of_lower {vaddr memsz : Nat} (lower : vaddr + memsz ≤ 2 ^ 47) : LowPages vaddr memsz := by
  intro page member
  obtain ⟨k, inRange, rfl⟩ := List.mem_map.mp member
  rw [List.mem_range, pageCount] at inRange
  split at inRange
  · omega
  · cases inRange

theorem loadElf_linear (room : a + 0x3a ≤ 2 ^ 39) (stop space : Nat) :
    loadElf s (linearAddressToPtr a) stop space = (do
      let s' ← loadSegments s space (linearAddressToPtr a) (programHeaderOffset s.mem a) (programHeaderSize s.mem a)
        (programHeaderCount s.mem a)
      return (readLE s.mem 8 (a + 0x18), s')) := by
  rw [loadElf, s.load_linear (by omega) (by omega), Outcome.ok_bind, s.load_linear (by omega) (by omega), Outcome.ok_bind,
    s.load_linear (by omega) (by omega), Outcome.ok_bind, s.load_linear (by omega) (by omega), Outcome.ok_bind]
  rfl

theorem allAddresses_congr (wf : WellFormed m a len) (same : Agree m m' a len) : allAddresses m' a = allAddresses m a := by
  rw [allAddresses, programHeaderCount_congr wf same, imageAddresses_congr wf same le_rfl, allAddresses]

/-- `load_elf` puts the whole image into the address space, or panics for want of frames. -/
theorem loadElf_loaded (inv : KernelInv K A s g) (space : g.spaces r) (knows : g.Knows r known)
    (wf : WellFormed s.mem a len) (apart : ∀ k < len, g.Apart r (framesNeeded known (allAddresses s.mem a)) (a + k)) (stop : Nat) :
    (framesNeeded known (allAddresses s.mem a) ≤ g.free.length →
      ∃ s' g', loadElf s (linearAddressToPtr a) stop (linearAddressToPtr r) = .ok (readLE s.mem 8 (a + 0x18), s') ∧
        Loaded K A s g s' g' r (framesNeeded known (allAddresses s.mem a)) (imagePages s.mem a (programHeaderCount s.mem a)) ∧
        g'.Knows r (placesAfter known (allAddresses s.mem a))) ∧
    (g.free.length < framesNeeded known (allAddresses s.mem a) →
      loadElf s (linearAddressToPtr a) stop (linearAddressToPtr r) = .error .panic) := by
  obtain ⟨enough, short⟩ := loadSegments_loaded inv space knows wf apart le_rfl le_rfl
  have room := wf.room
  have header := wf.header
  rw [loadElf_linear (by omega)]
  constructor
  · intro whole
    obtain ⟨s', g', run, rest⟩ := enough whole
    refine ⟨s', g', ?_, rest⟩
    rw [run, Outcome.ok_bind, Outcome.pure_eq_ok]
  · intro whole
    rw [short whole, Outcome.error_bind]

end image

/-- The segment with this header has a byte in page `p`. -/
def ProgramHeader.Touches (header : ProgramHeader) (p : Nat) : Prop :=
  ∃ x, header.vaddr ≤ x ∧ x < header.vaddr + header.memsz ∧ x / 4096 = p

theorem ProgramHeader.touches_iff {header : ProgramHeader} {p : Nat} (lower : header.vaddr + header.memsz ≤ 2 ^ 47) :
    header.Touches p ↔ header.vaddr / 4096 ≤ p ∧ p < header.vaddr / 4096 + pageCount header.vaddr header.memsz := by
  unfold pageCount
  constructor
  · rintro ⟨x, above, below, rfl⟩
    rw [if_pos ⟨by omega, by omega⟩]
    omega
  · rintro ⟨above, below⟩
    split at below
    · rename_i more
      have positive := more.1
      exact ⟨max header.vaddr (4096 * p), by omega, by omega, by omega⟩
    · omega

section described
variable {m : Memory} {a len n i p : Nat}

/-- A page shows the last of the segments that touch it. -/
theorem imagePages_touched (wf : WellFormed m a len) (bound : n ≤ programHeaderCount m a) (inside : i < n)
    (loadable : Loadable m a i) (touches : (programHeaderAt m a i).Touches p) :
    ∃ j, i ≤ j ∧ Loadable m a j ∧ (programHeaderAt m a j).Touches p ∧
      imagePages m a n p = some fun o => segmentByteAt m a j (4096 * p + o) := by
  induction n with
  | zero => omega
  | succ n ih =>
    by_cases last : Loadable m a n ∧ (programHeaderAt m a n).Touches p
    · obtain ⟨isLoadable, here⟩ := last
      refine ⟨n, by omega, isLoadable, here, ?_⟩
      rw [imagePages, if_pos isLoadable.2, Pages.overlay, Pages.range,
        if_pos ((ProgramHeader.touches_iff (wf.lower n isLoadable)).mp here), Option.some_or]
    · have earlier : i < n := by
        refine Nat.lt_of_le_of_ne (by omega) ?_
        rintro rfl
        exact last ⟨loadable, touches⟩
      obtain ⟨j, above, isLoadable, here, page⟩ := ih (by omega) earlier
      refine ⟨j, above, isLoadable, here, ?_⟩
      rw [imagePages]
      split
      · rename_i type
        have atLast : Loadable m a n := ⟨by omega, type⟩
        rw [Pages.overlay, Pages.range, if_neg fun inRange => last ⟨atLast,
          (ProgramHeader.touches_iff (wf.lower n atLast)).mpr inRange⟩, Option.none_or, page]
      · exact page

end described

/-- The byte at a virtual address. -/
def readVirtual (m : Memory) (cr3 v : Nat) : Option UInt8 := (walk m cr3 v).map fun t => m t.address

/-- The address space shows the loadable segments of the image: the bytes of the file, and
zeros after them. -/
def ShowsImage (file m : Memory) (a cr3 : Nat) : Prop :=
  ∀ i, Loadable file a i → ∀ k < (programHeaderAt file a i).memsz,
    readVirtual m cr3 ((programHeaderAt file a i).vaddr + k) =
      some (if k < (programHeaderAt file a i).filesz then file (a + (programHeaderAt file a i).off + k) else 0)

/-- No two loadable segments share a byte. -/
def SegmentsDisjoint (m : Memory) (a : Nat) : Prop :=
  ∀ i j, i ≠ j → Loadable m a i → Loadable m a j → ∀ x,
    (programHeaderAt m a i).vaddr ≤ x → x < (programHeaderAt m a i).vaddr + (programHeaderAt m a i).memsz →
    ¬((programHeaderAt m a j).vaddr ≤ x ∧ x < (programHeaderAt m a j).vaddr + (programHeaderAt m a j).memsz)

/-- In a page that two segments touch, the earlier has no bytes of the file but zeros. -/
def SharedPagesZero (m : Memory) (a : Nat) : Prop :=
  ∀ i j, i < j → Loadable m a i → Loadable m a j → ∀ k < (programHeaderAt m a i).filesz,
    (programHeaderAt m a j).Touches (((programHeaderAt m a i).vaddr + k) / 4096) →
    m (a + (programHeaderAt m a i).off + k) = 0

theorem SegmentsDisjoint.congr {m m' : Memory} {a len : Nat} (disjoint : SegmentsDisjoint m a) (wf : WellFormed m a len)
    (same : Agree m m' a len) : SegmentsDisjoint m' a := by
  intro i j different loadable loadable' x above below
  rw [loadable_congr wf same] at loadable loadable'
  rw [programHeaderAt_congr wf same loadable.1] at above below
  rw [programHeaderAt_congr wf same loadable'.1]
  exact disjoint i j different loadable loadable' x above below

section shows
variable {K : KernelImage} {A : Arena} {s s' : Kernel} {g g' : Ghost} {r n a len v : Nat} {pages : Pages}

theorem Loaded.readVirtual (loaded : Loaded K A s g s' g' r n pages) (space : g.spaces r) (low : v < 2 ^ 47)
    {b : Nat → UInt8} (found : pages (v / 4096) = some b) : MetalToApp.readVirtual s'.mem r v = some (b (v % 4096)) := by
  obtain ⟨f, -, -, mapped, bytes⟩ := loaded.page low found
  rw [MetalToApp.readVirtual, walk_lower loaded.inv (loaded.spaces ▸ space) low, mapped, Option.map_some, Option.map_some,
    bytes _ (Nat.mod_lt _ (by decide))]

theorem segmentByteAt_own {m : Memory} (i k : Nat) : segmentByteAt m a i ((programHeaderAt m a i).vaddr + k) =
    if k < (programHeaderAt m a i).filesz then m (a + (programHeaderAt m a i).off + k) else 0 := by
  rw [segmentByteAt, segmentByte, Nat.add_sub_cancel_left]
  by_cases inFile : k < (programHeaderAt m a i).filesz
  · rw [if_pos inFile, if_pos (by omega)]
  · rw [if_neg inFile, if_neg (by omega)]

/-- The loaded image is as described just when no segment has lost bytes to a later one. -/
theorem Loaded.showsImage_iff (loaded : Loaded K A s g s' g' r n (imagePages s.mem a (programHeaderCount s.mem a)))
    (space : g.spaces r) (wf : WellFormed s.mem a len) (disjoint : SegmentsDisjoint s.mem a) :
    ShowsImage s.mem s'.mem a r ↔ SharedPagesZero s.mem a := by
  -- What a page shows of a segment comes from that segment or from a later one.
  have shown {i k} (loadable : Loadable s.mem a i) (inside : k < (programHeaderAt s.mem a i).memsz) {j : Nat}
      (isLoadable : Loadable s.mem a j)
      (touches : (programHeaderAt s.mem a j).Touches (((programHeaderAt s.mem a i).vaddr + k) / 4096)) :
      ∃ j', j ≤ j' ∧ Loadable s.mem a j' ∧
        (programHeaderAt s.mem a j').Touches (((programHeaderAt s.mem a i).vaddr + k) / 4096) ∧
        MetalToApp.readVirtual s'.mem r ((programHeaderAt s.mem a i).vaddr + k) =
          some (segmentByteAt s.mem a j' ((programHeaderAt s.mem a i).vaddr + k)) := by
    have lower := wf.lower i loadable
    obtain ⟨j', later, loadable', touches', page⟩ := imagePages_touched wf le_rfl isLoadable.1 isLoadable touches
    have read := loaded.readVirtual space (by omega) page
    rw [Nat.div_add_mod] at read
    exact ⟨j', later, loadable', touches', read⟩
  have elsewhere {i j k} (loadable : Loadable s.mem a i) (inside : k < (programHeaderAt s.mem a i).memsz)
      (isLoadable : Loadable s.mem a j) (later : i ≠ j) :
      segmentByteAt s.mem a j ((programHeaderAt s.mem a i).vaddr + k) = 0 := by
    have fits := wf.fits j isLoadable
    have apart := disjoint i j later loadable isLoadable ((programHeaderAt s.mem a i).vaddr + k) (by omega) (by omega)
    rw [segmentByteAt, segmentByte, if_neg (by omega)]
  constructor
  · intro shows i j later loadable isLoadable k inFile touches
    have inside := inFile.trans_le (wf.fits i loadable)
    obtain ⟨j', above, loadable', -, read⟩ := shown loadable inside isLoadable touches
    rw [shows i loadable k inside, if_pos inFile, elsewhere loadable inside loadable' (by omega)] at read
    exact Option.some.inj read
  · intro zero i loadable k inside
    obtain ⟨j, above, isLoadable, touches, read⟩ := shown loadable inside loadable ⟨_, by omega, by omega, rfl⟩
    rw [read]
    by_cases own : j = i
    · rw [own, segmentByteAt_own]
    · rw [elsewhere loadable inside isLoadable (Ne.symm own)]
      by_cases inFile : k < (programHeaderAt s.mem a i).filesz
      · rw [if_pos inFile, zero i j (by omega) loadable isLoadable k inFile touches]
      · rw [if_neg inFile]

end shows

/-- Loading an image into a fresh address space. -/
theorem Created.loadElf {K : KernelImage} {A : Arena} {s₀ s : Kernel} {g : Ghost} {c a len : Nat} {rest : List Nat}
    (made : Created K A s₀ g s c rest) (inv : KernelInv K A s₀ g) (wf : WellFormed s.mem a len)
    (placed : ∀ f ∈ g.free.take (framesNeeded [[]] (allAddresses s.mem a) + 1), ∀ k < len, a + k < f ∨ f + 4096 ≤ a + k)
    (enough : framesNeeded [[]] (allAddresses s.mem a) ≤ rest.length) (stop : Nat) :
    ∃ s' g', MetalToApp.loadElf s (linearAddressToPtr a) stop (linearAddressToPtr c) = .ok (readLE s.mem 8 (a + 0x18), s') ∧
      Loaded K A s ({ g with free := rest }.withSpace c) s' g' c (framesNeeded [[]] (allAddresses s.mem a))
        (imagePages s.mem a (programHeaderCount s.mem a)) ∧
      g'.Knows c (placesAfter [[]] (allAddresses s.mem a)) := by
  exact (loadElf_loaded made.inv (Or.inl rfl) (made.knows inv) wf
    (fun k inside => made.apart inv fun f member => placed f member k inside) stop).1 enough

/-- Loading an image into an address space that was just created, in any run. -/
theorem SpaceReach.loadElf {K : KernelImage} {F : FreeMemory K} {A : Arena} {a len root : Nat} {s₀ s : Kernel}
    {live roots free : List Nat} {events : List MapEvent} (reach : SpaceReach F s₀ live roots events)
    (frames : FreeFrames A s₀ free) (created : createAddressSpace K s₀ = .ok (root, s)) (wf : WellFormed s.mem a len)
    (placed : ∀ f ∈ free, ∀ k < len, a + k < f ∨ f + 4096 ≤ a + k)
    (enough : 1 + framesNeeded [[]] (allAddresses s.mem a) ≤ free.length) (stop : Nat) :
    ∃ c s' g g', pointerToLinearAddress root = .ok c ∧ g.spaces c ∧
      MetalToApp.loadElf s (linearAddressToPtr a) stop root = .ok (readLE s.mem 8 (a + 0x18), s') ∧
      Loaded K F.arena s g s' g' c (framesNeeded [[]] (allAddresses s.mem a))
        (imagePages s.mem a (programHeaderCount s.mem a)) := by
  obtain ⟨g, h⟩ := reach.inv
  cases frames.unique h.kernel.stack
  obtain ⟨c, rest, rfl, made⟩ := createAddressSpace_run h.kernel created
  have page := made.inv.page (made.inv.root_owner (Or.inl rfl))
  rw [made.free, List.length_cons] at enough
  obtain ⟨s', g', run, loaded, -⟩ := made.loadElf h.kernel wf (fun f member => placed f (List.mem_of_mem_take member)) (by omega) stop
  exact ⟨c, s', _, g', pointerToLinearAddress_linear page.2.1 (by omega), Or.inl rfl, run, loaded⟩

/-- What `load_elf` leaves in a fresh address space shows the image just when no two of its
segments meet in a page to which the earlier one brings more than zeros. -/
theorem loadElf_showsImage_iff {K : KernelImage} {F : FreeMemory K} {A : Arena} {a len root : Nat} {s₀ s : Kernel}
    {live roots free : List Nat} {events : List MapEvent} (reach : SpaceReach F s₀ live roots events)
    (frames : FreeFrames A s₀ free) (created : createAddressSpace K s₀ = .ok (root, s)) (wf : WellFormed s.mem a len)
    (disjoint : SegmentsDisjoint s.mem a) (placed : ∀ f ∈ free, ∀ k < len, a + k < f ∨ f + 4096 ≤ a + k)
    (enough : 1 + framesNeeded [[]] (allAddresses s.mem a) ≤ free.length) :
    ∃ cr3 s', pointerToLinearAddress root = .ok cr3 ∧
      loadElf s (linearAddressToPtr a) (linearAddressToPtr (a + len)) root = .ok (readLE s.mem 8 (a + 0x18), s') ∧
      (ShowsImage s.mem s'.mem a cr3 ↔ SharedPagesZero s.mem a) := by
  obtain ⟨c, s', g, g', physical, space, run, loaded⟩ :=
    reach.loadElf frames created wf placed enough (linearAddressToPtr (a + len))
  exact ⟨c, s', physical, run, loaded.showsImage_iff space wf disjoint⟩

/-- A memory that is zero but for these little-endian fields, given by offset, width and value. -/
def imageMemory (a : Nat) (fields : List (Nat × Nat × Nat)) : Memory :=
  fields.foldl (fun m q => writeLE m q.2.1 (a + q.1) q.2.2) fun _ => 0

/-- An image of two segments, of one byte each, that lie in one page. -/
def sharedPageFile : Memory :=
  imageMemory 0x1900000 [(0x20, 8, 0x40), (0x36, 2, 0x38), (0x38, 2, 2),
    (0x40, 4, 1), (0x48, 8, 0xb0), (0x50, 8, 0x400000), (0x60, 8, 1), (0x68, 8, 1),
    (0x78, 4, 1), (0x80, 8, 0xb0), (0x88, 8, 0x400800), (0x98, 8, 1), (0xa0, 8, 1), (0xb0, 1, 0x41)]

theorem sharedPageFile_headers : programHeaderCount sharedPageFile 0x1900000 = 2 ∧
    programHeaderAt sharedPageFile 0x1900000 0 = ⟨1, 0xb0, 0x400000, 1, 1⟩ ∧
    programHeaderAt sharedPageFile 0x1900000 1 = ⟨1, 0xb0, 0x400800, 1, 1⟩ ∧
    programHeaderOffset sharedPageFile 0x1900000 = 0x40 ∧ programHeaderSize sharedPageFile 0x1900000 = 0x38 := by
  decide

theorem sharedPageFile_loadable {i : Nat} (loadable : Loadable sharedPageFile 0x1900000 i) : i = 0 ∨ i = 1 := by
  have bound := loadable.1
  rw [sharedPageFile_headers.1] at bound
  omega

theorem WellFormed.ofTwo {m : Memory} {a len : Nat} {p q : ProgramHeader} (room : a + len ≤ 2 ^ 39) (header : 0xb0 ≤ len)
    (headers : programHeaderCount m a = 2 ∧ programHeaderAt m a 0 = p ∧ programHeaderAt m a 1 = q ∧
      programHeaderOffset m a = 0x40 ∧ programHeaderSize m a = 0x38)
    (first : p.off + p.filesz ≤ len ∧ p.filesz ≤ p.memsz ∧ p.vaddr + p.memsz ≤ 2 ^ 47)
    (second : q.off + q.filesz ≤ len ∧ q.filesz ≤ q.memsz ∧ q.vaddr + q.memsz ≤ 2 ^ 47) : WellFormed m a len := by
  obtain ⟨count, rfl, rfl, offset, size⟩ := headers
  have either {i : Nat} (loadable : Loadable m a i) : i = 0 ∨ i = 1 := by
    have bound := loadable.1
    omega
  refine ⟨room, by omega, fun i bound => ?_, fun i loadable => ?_, fun i loadable => ?_, fun i loadable => ?_⟩
  · rw [offset, size]
    omega
  · rcases either loadable with rfl | rfl
    · exact first.1
    · exact second.1
  · rcases either loadable with rfl | rfl
    · exact first.2.1
    · exact second.2.1
  · rcases either loadable with rfl | rfl
    · exact first.2.2
    · exact second.2.2

theorem sharedPageFile_wellFormed : WellFormed sharedPageFile 0x1900000 0xb1 :=
  .ofTwo (by decide) (by decide) sharedPageFile_headers (by decide) (by decide)

theorem sharedPageFile_disjoint : SegmentsDisjoint sharedPageFile 0x1900000 := by
  obtain ⟨-, first, second, -⟩ := sharedPageFile_headers
  intro i j different loadable loadable' x above below
  obtain rfl | rfl := sharedPageFile_loadable loadable <;> obtain rfl | rfl := sharedPageFile_loadable loadable'
  · exact absurd rfl different
  · rw [first] at above below
    rw [second]
    show ¬(0x400800 ≤ x ∧ x < 0x400801)
    exact fun both => absurd (both.1.trans_lt below) (by decide)
  · rw [second] at above below
    rw [first]
    show ¬(0x400000 ≤ x ∧ x < 0x400001)
    exact fun both => absurd (above.trans_lt both.2) (by decide)
  · exact absurd rfl different

/-- The small kernel with this file in memory and a fresh address space. -/
theorem sharedPageFile_setup : ∃ s₀ s root free,
    SpaceReach smallMemory s₀ [] [linearAddressToPtr 0x1200000] [] ∧ FreeFrames smallMemory.arena s₀ free ∧
    createAddressSpace smallImage s₀ = .ok (root, s) ∧ WellFormed s.mem 0x1900000 0xb1 ∧ SegmentsDisjoint s.mem 0x1900000 ∧
    (∀ f ∈ free, ∀ k < 0xb1, 0x1900000 + k < f ∨ f + 4096 ≤ 0x1900000 + k) ∧
    1 + framesNeeded [[]] (allAddresses s.mem 0x1900000) ≤ free.length ∧ ¬SharedPagesZero s.mem 0x1900000 := by
  obtain ⟨s₀, reach, inv, kept⟩ := smallBoot sharedPageFile
  have free := (Ghost.boot_free smallImage smallMemory.arena).trans smallMemory_frames
  obtain ⟨s, created, made, outside, -⟩ := createAddressSpace_space inv free
  have same : Agree sharedPageFile s.mem 0x1900000 0xb1 := fun k inside => by rw [outside _ (by omega), kept _ (by omega)]
  have wf := sharedPageFile_wellFormed
  obtain ⟨count, first, second, -⟩ := sharedPageFile_headers
  have atFirst := (programHeaderAt_congr wf same (show 0 < _ by rw [count]; decide)).trans first
  have atSecond := (programHeaderAt_congr wf same (show 1 < _ by rw [count]; decide)).trans second
  refine ⟨s₀, s, _, _, reach, inv.stack, created, wf.congr same, ?_, ?_, ?_, ?_⟩
  · exact sharedPageFile_disjoint.congr wf same
  · intro f member k inside
    have upper := (inv.stack.frame member).upper
    have last : smallMemory.arena.last = 0x1800000 := rfl
    omega
  · rw [allAddresses_congr wf same, show framesNeeded [[]] (allAddresses sharedPageFile 0x1900000) = 5 by decide,
      Ghost.boot_free, frameRange_length]
    decide
  · intro zero
    have lost := zero 0 1 (by decide) ((loadable_congr wf same).mpr (by decide))
      ((loadable_congr wf same).mpr (by decide)) 0
    rw [atFirst, atSecond] at lost
    have byte := lost (by decide) ⟨0x400800, by decide, by decide, by decide⟩
    rw [show s.mem (0x1900000 + 0xb0 + 0) = sharedPageFile 0x19000b0 from same 0xb0 (by decide)] at byte
    exact absurd byte (by decide)

theorem loadElf_showsImage_iff_sharedPage : ∃ s₀ s root cr3 s', SpaceReach smallMemory s₀ [] [linearAddressToPtr 0x1200000] [] ∧
    createAddressSpace smallImage s₀ = .ok (root, s) ∧ pointerToLinearAddress root = .ok cr3 ∧
    loadElf s (linearAddressToPtr 0x1900000) (linearAddressToPtr 0x19000b1) root =
      .ok (readLE s.mem 8 0x1900018, s') ∧
    (ShowsImage s.mem s'.mem 0x1900000 cr3 ↔ SharedPagesZero s.mem 0x1900000) := by
  obtain ⟨s₀, s, root, free, reach, frames, created, wf, disjoint, placed, enough, -⟩ := sharedPageFile_setup
  obtain ⟨cr3, s', physical, run, shows⟩ := loadElf_showsImage_iff reach frames created wf disjoint placed enough
  exact ⟨s₀, s, root, cr3, s', reach, created, physical, run, shows⟩

/-- The second segment takes a fresh frame for the page, and the first one's byte is lost. -/
theorem loadElf_loses_sharedPage : ∃ s₀ s root free cr3 s',
    SpaceReach smallMemory s₀ [] [linearAddressToPtr 0x1200000] [] ∧ FreeFrames smallMemory.arena s₀ free ∧
    createAddressSpace smallImage s₀ = .ok (root, s) ∧ WellFormed s.mem 0x1900000 0xb1 ∧ SegmentsDisjoint s.mem 0x1900000 ∧
    (∀ f ∈ free, ∀ k < 0xb1, 0x1900000 + k < f ∨ f + 4096 ≤ 0x1900000 + k) ∧
    1 + framesNeeded [[]] (allAddresses s.mem 0x1900000) ≤ free.length ∧ pointerToLinearAddress root = .ok cr3 ∧
    loadElf s (linearAddressToPtr 0x1900000) (linearAddressToPtr 0x19000b1) root = .ok (readLE s.mem 8 0x1900018, s') ∧
    ¬ShowsImage s.mem s'.mem 0x1900000 cr3 := by
  obtain ⟨s₀, s, root, free, reach, frames, created, wf, disjoint, placed, enough, lost⟩ := sharedPageFile_setup
  obtain ⟨c, s', g, g', physical, space, run, loaded⟩ :=
    reach.loadElf frames created wf placed enough (linearAddressToPtr 0x19000b1)
  exact ⟨s₀, s, root, free, c, s', reach, frames, created, wf, disjoint, placed, enough, physical, run,
    fun shows => lost ((loaded.showsImage_iff space wf disjoint).mp shows)⟩

end MetalToApp

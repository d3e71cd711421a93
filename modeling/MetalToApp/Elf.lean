import MetalToApp.Mapping

namespace MetalToApp
open ByteMemory Paging

/-- How many of the `filesz` bytes that are left go into a page from `destOffset` on. -/
def toCopy (filesz destOffset : Nat) : Nat :=
  if (filesz + destOffset) % 2 ^ 64 > 0x1000 then 0x1000 - destOffset else filesz

/-- The body of the loop in `copy_section`, with `section_start` and `filesz` as it leaves
them. Never more than `filesz` bytes are copied, so the subtraction does not wrap. -/
def copyPage (s : Kernel) (memorySpace vaddr sectionStart filesz : Nat) : Outcome (Nat × Nat × Kernel) := do
  let destOffset := vaddr % 0x1000
  let alignedDest := vaddr - destOffset
  let (newFrame, s) ← frameAllocZero s
  let s ← mmap s memorySpace newFrame alignedDest true
  if toCopy filesz destOffset > 0 then
    let s ← s.memcpy (linearAddressToPtr (newFrame + destOffset)) sectionStart (toCopy filesz destOffset)
    return ((sectionStart + toCopy filesz destOffset) % 2 ^ 64, filesz - toCopy filesz destOffset, s)
  return (sectionStart, filesz, s)

def nextPage (vaddr : Nat) : Nat := (vaddr - vaddr % 0x1000 + 0x1000) % 2 ^ 64

/-- `memsz` for the next page, as a 64-bit pattern. -/
def memszLeft (vaddr memsz : Nat) : Nat := (memsz + vaddr % 0x1000 + (2 ^ 64 - 0x1000)) % 2 ^ 64

/-- `memsz > 0` for a `ptrdiff_t`. -/
def MoreToCopy (memsz : Nat) : Prop := 0 < memsz ∧ memsz < 2 ^ 63

instance : DecidablePred MoreToCopy := fun _ => inferInstanceAs (Decidable (_ ∧ _))

theorem memszLeft_decreases {vaddr memsz : Nat} (more : MoreToCopy memsz) :
    (if memszLeft vaddr memsz < 2 ^ 63 then memszLeft vaddr memsz else 0) < if memsz < 2 ^ 63 then memsz else 0 := by
  obtain ⟨positive, signed⟩ := more
  rw [if_pos signed]
  unfold memszLeft
  split <;> omega

def copySection (s : Kernel) (memorySpace vaddr sectionStart memsz filesz : Nat) : Outcome Kernel := do
  if MoreToCopy memsz then
    let (sectionStart, filesz, s) ← copyPage s memorySpace vaddr sectionStart filesz
    copySection s memorySpace (nextPage vaddr) sectionStart (memszLeft vaddr memsz) filesz
  else return s
termination_by if memsz < 2 ^ 63 then memsz else 0
decreasing_by exact memszLeft_decreases ‹_›

/-- The fields of a program header that the loader reads. -/
structure ProgramHeader where
  headerType : Nat
  off : Nat
  vaddr : Nat
  filesz : Nat
  memsz : Nat
deriving DecidableEq

def readProgramHeader (s : Kernel) (programHeader : Nat) : Outcome ProgramHeader := do
  let headerType ← s.load 4 (programHeader + 0x0)
  let off ← s.load 8 (programHeader + 0x8)
  let vaddr ← s.load 8 (programHeader + 0x10)
  let filesz ← s.load 8 (programHeader + 0x20)
  let memsz ← s.load 8 (programHeader + 0x28)
  return ⟨headerType, off, vaddr, filesz, memsz⟩

/-- The body of the loop over the program headers. -/
def loadSegment (s : Kernel) (memorySpace start programHeader : Nat) : Outcome Kernel := do
  let header ← readProgramHeader s programHeader
  if header.headerType = 1 then
    copySection s memorySpace header.vaddr ((start + header.off) % 2 ^ 64) header.memsz header.filesz
  else return s

/-- The first iterations of the loop. -/
def loadSegments (s : Kernel) (memorySpace start programHeaderOffset programHeaderSize : Nat) : Nat → Outcome Kernel
  | 0 => return s
  | i + 1 => do
    let s ← loadSegments s memorySpace start programHeaderOffset programHeaderSize i
    loadSegment s memorySpace start ((start + programHeaderOffset + programHeaderSize * i) % 2 ^ 64)

/-- The result is the program's entry point. -/
def loadElf (s : Kernel) (start _end memorySpace : Nat) : Outcome (Nat × Kernel) := do
  let entry ← s.load 8 (start + 0x18)
  let programHeaderOffset ← s.load 8 (start + 0x20)
  let programHeaderSize ← s.load 2 (start + 0x36)
  let programHeaderCount ← s.load 2 (start + 0x38)
  let s ← loadSegments s memorySpace start programHeaderOffset programHeaderSize programHeaderCount
  return (entry, s)

/-! The pages that one segment takes. -/

def pageCount (vaddr memsz : Nat) : Nat :=
  if MoreToCopy memsz then (vaddr % 0x1000 + memsz + 0xfff) / 0x1000 else 0

/-- The addresses at which `copy_section` maps pages, in its order. -/
def segmentPages (vaddr memsz : Nat) : List Nat :=
  (List.range (pageCount vaddr memsz)).map fun k => (vaddr - vaddr % 0x1000 + 0x1000 * k) % 2 ^ 64

/-- All these pages have addresses whose bit 47 is clear. -/
def LowPages (vaddr memsz : Nat) : Prop := ∀ page ∈ segmentPages vaddr memsz, page / 2 ^ 47 % 2 = 0

/-- The loop of `load_elf` comes to a loadable segment with this header. -/
def ComesTo (s : Kernel) (start memorySpace : Nat) (header : ProgramHeader) : Prop :=
  ∃ programHeaderOffset programHeaderSize programHeaderCount i s',
    s.load 8 (start + 0x20) = .ok programHeaderOffset ∧ s.load 2 (start + 0x36) = .ok programHeaderSize ∧
    s.load 2 (start + 0x38) = .ok programHeaderCount ∧ i < programHeaderCount ∧
    loadSegments s memorySpace start programHeaderOffset programHeaderSize i = .ok s' ∧
    readProgramHeader s' ((start + programHeaderOffset + programHeaderSize * i) % 2 ^ 64) = .ok header ∧
    header.headerType = 1

section copy
variable {s s' : Kernel} {space vaddr src memsz filesz : Nat}

theorem copySection_done (done : ¬MoreToCopy memsz) : copySection s space vaddr src memsz filesz = .ok s := by
  rw [copySection, if_neg done]
  rfl

theorem copySection_next (more : MoreToCopy memsz) {src' filesz' : Nat}
    (page : copyPage s space vaddr src filesz = .ok (src', filesz', s')) :
    copySection s space vaddr src memsz filesz =
      copySection s' space (nextPage vaddr) src' (memszLeft vaddr memsz) filesz' := by
  rw [copySection, if_pos more, page, Outcome.ok_bind]

theorem copySection_error (more : MoreToCopy memsz) {e : Halt}
    (page : copyPage s space vaddr src filesz = .error e) :
    copySection s space vaddr src memsz filesz = .error e := by
  rw [copySection, if_pos more, page, Outcome.error_bind]

theorem segmentPages_done (done : ¬MoreToCopy memsz) : segmentPages vaddr memsz = [] := by
  rw [segmentPages, pageCount, if_neg done]
  rfl

theorem pageCount_next (more : MoreToCopy memsz) :
    pageCount vaddr memsz = pageCount (nextPage vaddr) (memszLeft vaddr memsz) + 1 := by
  obtain ⟨positive, signed⟩ := more
  have aligned : nextPage vaddr % 0x1000 = 0 := by
    unfold nextPage
    omega
  rw [pageCount, if_pos ⟨positive, signed⟩, pageCount, aligned]
  by_cases rest : 0x1000 < vaddr % 0x1000 + memsz
  · have left : memszLeft vaddr memsz = memsz + vaddr % 0x1000 - 0x1000 := by
      unfold memszLeft
      omega
    rw [left, if_pos ⟨by omega, by omega⟩]
    omega
  · have stop : ¬MoreToCopy (memszLeft vaddr memsz) := by
      rintro ⟨someLeft, small⟩
      unfold memszLeft at someLeft small
      omega
    rw [if_neg stop]
    omega

/-- Induction over the pages of a segment. -/
theorem segment_induction {motive : Nat → Nat → Prop} (done : ∀ vaddr memsz, ¬MoreToCopy memsz → motive vaddr memsz)
    (page : ∀ vaddr memsz, MoreToCopy memsz → motive (nextPage vaddr) (memszLeft vaddr memsz) → motive vaddr memsz)
    (vaddr memsz : Nat) : motive vaddr memsz := by
  induction count : pageCount vaddr memsz generalizing vaddr memsz with
  | zero =>
    refine done vaddr memsz fun more => ?_
    rw [pageCount_next more] at count
    omega
  | succ n ih =>
    by_cases more : MoreToCopy memsz
    · rw [pageCount_next more] at count
      exact page vaddr memsz more (ih _ _ (by omega))
    · exact done vaddr memsz more

theorem segmentPages_next (bound : vaddr < 2 ^ 64) (more : MoreToCopy memsz) :
    segmentPages vaddr memsz =
      (vaddr - vaddr % 0x1000) :: segmentPages (nextPage vaddr) (memszLeft vaddr memsz) := by
  simp only [segmentPages, pageCount_next more, List.range_succ_eq_map, List.map_cons, List.map_map, List.cons.injEq]
  refine ⟨by omega, List.map_congr_left fun k _ => ?_⟩
  simp only [Function.comp_apply, nextPage]
  omega

/-- What each page keeps, the whole loop keeps. -/
theorem copySection_rule {P : Kernel → Prop} (bound : vaddr < 2 ^ 64)
    (step : ∀ s v src filesz src' filesz' s', v - v % 0x1000 ∈ segmentPages vaddr memsz → P s →
      copyPage s space v src filesz = .ok (src', filesz', s') → P s')
    (start : P s) (run : copySection s space vaddr src memsz filesz = .ok s') : P s' := by
  induction s, vaddr, src, memsz, filesz using copySection.induct with
  | case1 s vaddr src memsz filesz more ih =>
    cases page : copyPage s space vaddr src filesz with
    | error e =>
      rw [copySection_error more page] at run
      cases run
    | ok q =>
      obtain ⟨src', filesz', s₁⟩ := q
      rw [copySection_next more page] at run
      rw [segmentPages_next bound more] at step
      exact ih src' filesz' s₁ (Nat.mod_lt _ (by decide))
        (fun s v src filesz src' filesz' s' member => step s v src filesz src' filesz' s' (List.mem_cons_of_mem _ member))
        (step s vaddr src filesz src' filesz' s₁ List.mem_cons_self start page) run
  | case2 s vaddr src memsz filesz done =>
    rw [copySection_done done] at run
    cases run
    exact start

theorem index_three_iff (v : Nat) : index 3 v < 256 ↔ v / 2 ^ 47 % 2 = 0 := by
  unfold index
  omega

theorem load_lt {n p v : Nat} (run : s.load n p = .ok v) : v < 256 ^ n := by
  obtain ⟨a, -, eq⟩ := Outcome.bind_eq_ok.mp run
  cases eq
  exact readLE_lt _ _ _

theorem vaddr_lt {p : Nat} {header : ProgramHeader} (run : readProgramHeader s p = .ok header) : header.vaddr < 2 ^ 64 := by
  rw [readProgramHeader] at run
  obtain ⟨_, -, run⟩ := Outcome.bind_eq_ok.mp run
  obtain ⟨_, -, run⟩ := Outcome.bind_eq_ok.mp run
  obtain ⟨vaddr, load, run⟩ := Outcome.bind_eq_ok.mp run
  obtain ⟨_, -, run⟩ := Outcome.bind_eq_ok.mp run
  obtain ⟨_, -, run⟩ := Outcome.bind_eq_ok.mp run
  cases run
  have bound := load_lt load
  norm_num at bound
  exact bound

/-- What the loading of each page keeps, `load_elf` keeps, if it comes to low segments only. -/
theorem loadElf_rule {P : Kernel → Prop} {start stop entry : Nat}
    (low : ∀ header, ComesTo s start space header → LowPages header.vaddr header.memsz)
    (step : ∀ s v src filesz src' filesz' s', index 3 v < 256 → P s →
      copyPage s space v src filesz = .ok (src', filesz', s') → P s')
    (here : P s) (run : loadElf s start stop space = .ok (entry, s')) : P s' := by
  rw [loadElf] at run
  obtain ⟨_, -, run⟩ := Outcome.bind_eq_ok.mp run
  obtain ⟨offset, atOffset, run⟩ := Outcome.bind_eq_ok.mp run
  obtain ⟨size, atSize, run⟩ := Outcome.bind_eq_ok.mp run
  obtain ⟨count, atCount, run⟩ := Outcome.bind_eq_ok.mp run
  obtain ⟨t, segments, done⟩ := Outcome.bind_eq_ok.mp run
  cases done
  have upTo : ∀ n ≤ count, ∀ t, loadSegments s space start offset size n = .ok t → P t := by
    intro n
    induction n with
    | zero =>
      intro _ t loaded
      cases loaded
      exact here
    | succ i ih =>
      intro bound t loaded
      obtain ⟨before, first, segment⟩ := Outcome.bind_eq_ok.mp loaded
      have kept := ih (by omega) before first
      obtain ⟨header, atHeader, body⟩ := Outcome.bind_eq_ok.mp segment
      split at body
      · rename_i loadable
        have lowPages := low header ⟨offset, size, count, i, before, atOffset, atSize, atCount, by omega, first, atHeader, loadable⟩
        refine copySection_rule (vaddr_lt atHeader) (fun s v src filesz src' filesz' s' member => ?_) kept body
        have page := lowPages _ member
        exact step s v src filesz src' filesz' s' ((index_three_iff v).mpr (by omega))
      · cases body
        exact kept
  exact upTo count le_rfl _ segments

end copy

end MetalToApp

import MetalToApp.Library.Traced
import MetalToApp.Elf

namespace MetalToApp
open ByteMemory Paging

/-- An outcome with the addresses of the file's bytes that were read, in order. An access
that faults counts as read. -/
abbrev Reading := Traced Nat Halt

def readBytes (p n : Nat) : List Nat := (List.range n).map fun i => (p + i) % 2 ^ 64

/-- The bytes that the loop of `memcpy` reads, up to a fault of a load or of a store. -/
def memcpyReads (dest src : Nat) : Nat → List Nat
  | 0 => []
  | n + 1 =>
    src :: match window src 1, window dest 1 with
      | .ok _, .ok _ => memcpyReads (dest + 1) (src + 1) n
      | _, _ => []

namespace Reading

/-- A load through a pointer into the file. -/
def load (s : Kernel) (n p : Nat) : Reading Nat := (readBytes p n, s.load n p)

/-- A copy out of the file. -/
def memcpy (s : Kernel) (dest src n : Nat) : Reading Kernel := (memcpyReads dest src n, s.memcpy dest src n)

/-! The loader again, with its reads. -/

def copyPage (s : Kernel) (memorySpace vaddr sectionStart filesz : Nat) : Reading (Nat × Nat × Kernel) := do
  let destOffset := vaddr % 0x1000
  let alignedDest := vaddr - destOffset
  let (newFrame, s) ← Traced.silent (frameAllocZero s)
  let s ← Traced.silent (mmap s memorySpace newFrame alignedDest true)
  if toCopy filesz destOffset > 0 then
    let s ← memcpy s (linearAddressToPtr (newFrame + destOffset)) sectionStart (toCopy filesz destOffset)
    return ((sectionStart + toCopy filesz destOffset) % 2 ^ 64, filesz - toCopy filesz destOffset, s)
  return (sectionStart, filesz, s)

def copySection (s : Kernel) (memorySpace vaddr sectionStart memsz filesz : Nat) : Reading Kernel := do
  if MoreToCopy memsz then
    let (sectionStart, filesz, s) ← copyPage s memorySpace vaddr sectionStart filesz
    copySection s memorySpace (nextPage vaddr) sectionStart (memszLeft vaddr memsz) filesz
  else return s
termination_by if memsz < 2 ^ 63 then memsz else 0
decreasing_by exact memszLeft_decreases ‹_›

def readProgramHeader (s : Kernel) (programHeader : Nat) : Reading ProgramHeader := do
  let headerType ← load s 4 (programHeader + 0x0)
  let off ← load s 8 (programHeader + 0x8)
  let vaddr ← load s 8 (programHeader + 0x10)
  let filesz ← load s 8 (programHeader + 0x20)
  let memsz ← load s 8 (programHeader + 0x28)
  return ⟨headerType, off, vaddr, filesz, memsz⟩

def loadSegment (s : Kernel) (memorySpace start programHeader : Nat) : Reading Kernel := do
  let header ← readProgramHeader s programHeader
  if header.headerType = 1 then
    copySection s memorySpace header.vaddr ((start + header.off) % 2 ^ 64) header.memsz header.filesz
  else return s

def loadSegments (s : Kernel) (memorySpace start programHeaderOffset programHeaderSize : Nat) : Nat → Reading Kernel
  | 0 => return s
  | i + 1 => do
    let s ← loadSegments s memorySpace start programHeaderOffset programHeaderSize i
    loadSegment s memorySpace start ((start + programHeaderOffset + programHeaderSize * i) % 2 ^ 64)

def loadElf (s : Kernel) (start _end memorySpace : Nat) : Reading (Nat × Kernel) := do
  let entry ← load s 8 (start + 0x18)
  let programHeaderOffset ← load s 8 (start + 0x20)
  let programHeaderSize ← load s 2 (start + 0x36)
  let programHeaderCount ← load s 2 (start + 0x38)
  let s ← loadSegments s memorySpace start programHeaderOffset programHeaderSize programHeaderCount
  return (entry, s)

/-! Without their reads they are the functions that the loader runs. -/

@[simp] theorem load_events (s : Kernel) (n p : Nat) : (load s n p).events = readBytes p n := rfl
@[simp] theorem load_result (s : Kernel) (n p : Nat) : (load s n p).result = s.load n p := rfl
@[simp] theorem memcpy_result (s : Kernel) (dest src n : Nat) : (memcpy s dest src n).result = s.memcpy dest src n := rfl

theorem copyPage_result (s : Kernel) (space vaddr src filesz : Nat) :
    (copyPage s space vaddr src filesz).result = MetalToApp.copyPage s space vaddr src filesz := by
  simp only [copyPage, MetalToApp.copyPage, Traced.bind_result, Traced.silent_result]
  refine bind_congr fun q => bind_congr fun s => ?_
  split
  · simp only [Traced.bind_result, memcpy_result, Traced.pure_result]
    rfl
  · rfl

theorem copySection_done {s : Kernel} {space vaddr src memsz filesz : Nat} (done : ¬MoreToCopy memsz) :
    copySection s space vaddr src memsz filesz = pure s := by
  rw [copySection, if_neg done]

theorem copySection_more {s : Kernel} {space vaddr src memsz filesz : Nat} (more : MoreToCopy memsz) :
    copySection s space vaddr src memsz filesz = copyPage s space vaddr src filesz >>= fun q =>
      copySection q.2.2 space (nextPage vaddr) q.1 (memszLeft vaddr memsz) q.2.1 := by
  rw [copySection, if_pos more]

theorem copySection_result (s : Kernel) (space vaddr src memsz filesz : Nat) :
    (copySection s space vaddr src memsz filesz).result = MetalToApp.copySection s space vaddr src memsz filesz := by
  induction s, vaddr, src, memsz, filesz using MetalToApp.copySection.induct with
  | case1 s vaddr src memsz filesz more ih =>
    rw [copySection_more more, Traced.bind_result, copyPage_result]
    cases page : MetalToApp.copyPage s space vaddr src filesz with
    | error e => rw [MetalToApp.copySection_error more page, Outcome.error_bind]
    | ok q => rw [MetalToApp.copySection_next more page, Outcome.ok_bind, ih]
  | case2 s vaddr src memsz filesz done =>
    rw [copySection_done done, MetalToApp.copySection_done done, Traced.pure_result]

theorem readProgramHeader_result (s : Kernel) (p : Nat) :
    (readProgramHeader s p).result = MetalToApp.readProgramHeader s p := by
  simp only [readProgramHeader, MetalToApp.readProgramHeader, Traced.bind_result, load_result, Traced.pure_result]
  rfl

theorem loadSegment_result (s : Kernel) (space start p : Nat) :
    (loadSegment s space start p).result = MetalToApp.loadSegment s space start p := by
  simp only [loadSegment, MetalToApp.loadSegment, Traced.bind_result, readProgramHeader_result]
  refine bind_congr fun header => ?_
  split
  · exact copySection_result ..
  · rfl

theorem loadSegments_result (s : Kernel) (space start offset size n : Nat) :
    (loadSegments s space start offset size n).result = MetalToApp.loadSegments s space start offset size n := by
  induction n with
  | zero => rfl
  | succ i ih =>
    rw [loadSegments, MetalToApp.loadSegments, Traced.bind_result, ih]
    exact bind_congr fun s => loadSegment_result ..

/-- The instrumented loader is the loader. -/
theorem loadElf_result (s : Kernel) (start stop space : Nat) :
    (loadElf s start stop space).result = MetalToApp.loadElf s start stop space := by
  simp only [loadElf, MetalToApp.loadElf, Traced.bind_result, load_result, loadSegments_result, Traced.pure_result]
  rfl

end Reading

/-! Which bytes a function reads when it returns. -/

theorem readBytes_append (p n k : Nat) : readBytes p (n + k) = readBytes p n ++ readBytes ((p + n) % 2 ^ 64) k := by
  simp only [readBytes, List.range_add, List.map_append, List.map_map, List.append_cancel_left_eq]
  refine List.map_congr_left fun i _ => ?_
  simp only [Function.comp_apply]
  omega

theorem readBytes_congr {p q n : Nat} (same : p % 2 ^ 64 = q % 2 ^ 64) : readBytes p n = readBytes q n :=
  List.map_congr_left fun i _ => by omega

theorem window_byte {p n a i : Nat} (inside : window p n = .ok a) (bound : i < n) : window (p + i) 1 = .ok (a + i) := by
  unfold window at inside ⊢
  split at inside
  · rename_i linear
    have place := Except.ok.inj inside
    rw [if_pos ⟨by omega, by omega⟩]
    exact congrArg Except.ok (by omega)
  · split at inside
    · rename_i notLinear kernel
      have place := Except.ok.inj inside
      have above : ¬(linearStart ≤ p + i ∧ p + i + 1 ≤ linearEnd) := by
        simp only [linearStart, linearEnd, addrshift512G, kernelBase] at notLinear kernel ⊢
        omega
      rw [if_neg above, if_pos ⟨by omega, by omega⟩]
      exact congrArg Except.ok (by omega)
    · cases inside

theorem window_bounds {p n a : Nat} (inside : window p n = .ok a) : 2 ^ 63 ≤ p ∧ p + n < 2 ^ 64 := by
  unfold window at inside
  split at inside
  · simp only [linearStart, linearEnd, addrshift512G] at *
    omega
  · split at inside
    · simp only [kernelBase, kernelMapped, addrshift2M] at *
      omega
    · cases inside

/-- A copy between windows reads its whole source. -/
theorem memcpyReads_windows {dest src n : Nat} (source : ∀ i < n, ∃ a, window (src + i) 1 = .ok a)
    (target : ∀ i < n, ∃ a, window (dest + i) 1 = .ok a) : memcpyReads dest src n = readBytes src n := by
  induction n generalizing dest src with
  | zero => rfl
  | succ n ih =>
    obtain ⟨a, atSource⟩ := source 0 (by omega)
    obtain ⟨b, atTarget⟩ := target 0 (by omega)
    have small := (window_bounds atSource).2
    simp only [Nat.add_zero] at atSource atTarget small
    have rest := @ih (dest + 1) (src + 1)
      (fun i bound => by rw [Nat.add_assoc, Nat.add_comm 1]; exact source (i + 1) (by omega))
      (fun i bound => by rw [Nat.add_assoc, Nat.add_comm 1]; exact target (i + 1) (by omega))
    have head : readBytes src 1 = [src] := by
      have below : src % 2 ^ 64 = src := by omega
      simp only [readBytes, List.range_one, List.map_cons, List.map_nil, Nat.add_zero, below]
    rw [memcpyReads, atSource, atTarget, Nat.add_comm n, readBytes_append, head, Nat.mod_eq_of_lt small, ← rest]
    rfl

theorem memcpy_reads {s s' : Kernel} {dest src n : Nat} (run : s.memcpy dest src n = .ok s') :
    memcpyReads dest src n = readBytes src n := by
  unfold Kernel.memcpy at run
  split at run
  · rename_i zero
    subst zero
    rfl
  · obtain ⟨a, target, run⟩ := Outcome.bind_eq_ok.mp run
    obtain ⟨b, source, -⟩ := Outcome.bind_eq_ok.mp run
    exact memcpyReads_windows (fun i bound => ⟨_, window_byte source bound⟩) fun i bound => ⟨_, window_byte target bound⟩

section run
variable {s s' : Kernel} {space vaddr src memsz filesz src' filesz' : Nat}

theorem toCopy_of_lt {off : Nat} (inside : off < 0x1000) (small : toCopy filesz off < 2 ^ 63) :
    toCopy filesz off = min filesz (0x1000 - off) := by
  rw [toCopy] at small ⊢
  by_cases beyond : (filesz + off) % 2 ^ 64 > 0x1000
  · rw [if_pos beyond]
    omega
  · rw [if_neg beyond] at small ⊢
    omega

theorem memcpy_small {dest n : Nat} (run : s.memcpy dest src n = .ok s') : n < 2 ^ 63 := by
  unfold Kernel.memcpy at run
  split at run
  · omega
  · obtain ⟨a, target, -⟩ := Outcome.bind_eq_ok.mp run
    have bounds := window_bounds target
    omega

/-- A page that could be filled took what is left of the file's bytes, or what fits. -/
theorem copyPage_ok (run : copyPage s space vaddr src filesz = .ok (src', filesz', s')) :
    toCopy filesz (vaddr % 0x1000) = min filesz (0x1000 - vaddr % 0x1000) ∧
      src' % 2 ^ 64 = (src + toCopy filesz (vaddr % 0x1000)) % 2 ^ 64 ∧
      filesz' = filesz - toCopy filesz (vaddr % 0x1000) ∧
      (Reading.copyPage s space vaddr src filesz).events = readBytes src (toCopy filesz (vaddr % 0x1000)) := by
  have inside : vaddr % 0x1000 < 0x1000 := Nat.mod_lt _ (by decide)
  obtain ⟨⟨c, t⟩, alloc, rest⟩ := Outcome.bind_eq_ok.mp run
  obtain ⟨u, map, body⟩ := Outcome.bind_eq_ok.mp rest
  have first : (Traced.silent (frameAllocZero s) : Reading _).result = .ok (c, t) := alloc
  have second : (Traced.silent (mmap t space c (vaddr - vaddr % 0x1000) true) : Reading _).result = .ok u := map
  rw [Reading.copyPage, Traced.bind_events_ok first, Traced.bind_events_ok second, Traced.silent_events, Traced.silent_events,
    List.nil_append, List.nil_append]
  by_cases more : toCopy filesz (vaddr % 0x1000) > 0
  · rw [if_pos more] at body ⊢
    obtain ⟨w, copy, done⟩ := Outcome.bind_eq_ok.mp body
    cases done
    refine ⟨toCopy_of_lt inside (memcpy_small copy), Nat.mod_mod _ _, rfl, ?_⟩
    have third : (Reading.memcpy u (linearAddressToPtr (c + vaddr % 0x1000)) src (toCopy filesz (vaddr % 0x1000))).result =
        .ok s' := copy
    rw [Traced.bind_events_ok third]
    exact (List.append_nil _).trans (memcpy_reads copy)
  · rw [if_neg more] at body ⊢
    cases body
    have none : toCopy filesz (vaddr % 0x1000) = 0 := by omega
    rw [none]
    refine ⟨?_, rfl, rfl, rfl⟩
    rw [← none]
    exact toCopy_of_lt inside (by omega)

/-- A loop that returns has read a run of bytes: those of the file, as far as the pages go. -/
theorem copySection_reads (run : copySection s space vaddr src memsz filesz = .ok s') :
    (Reading.copySection s space vaddr src memsz filesz).events =
      readBytes src (min filesz (0x1000 * pageCount vaddr memsz - vaddr % 0x1000)) := by
  induction s, vaddr, src, memsz, filesz using copySection.induct with
  | case1 s vaddr src memsz filesz more ih =>
    cases page : copyPage s space vaddr src filesz with
    | error e =>
      rw [copySection_error more page] at run
      cases run
    | ok q =>
      obtain ⟨src', filesz', s₁⟩ := q
      rw [copySection_next more page] at run
      obtain ⟨amount, next, left, reads⟩ := copyPage_ok page
      have aligned : nextPage vaddr % 0x1000 = 0 := by
        unfold nextPage
        omega
      have result := (Reading.copyPage_result s space vaddr src filesz).trans page
      rw [Reading.copySection_more more, Traced.bind_events_ok result, ih src' filesz' s₁ run, reads, aligned,
        pageCount_next more]
      have total : min filesz (0x1000 * (pageCount (nextPage vaddr) (memszLeft vaddr memsz) + 1) - vaddr % 0x1000) =
          toCopy filesz (vaddr % 0x1000) +
            min filesz' (0x1000 * pageCount (nextPage vaddr) (memszLeft vaddr memsz) - 0) := by omega
      rw [total, readBytes_append]
      exact congrArg _ (readBytes_congr (next.trans (Nat.mod_mod _ _).symm))
  | case2 s vaddr src memsz filesz done =>
    rw [Reading.copySection_done done, pageCount, if_neg done]
    simp [readBytes]

end run

end MetalToApp

import MetalToApp.ElfImage
import MetalToApp.SharedHalf

namespace MetalToApp
open ByteMemory Paging

/-- Every address of the kernel half is translated as before in each of the address spaces,
with the same permissions, and none has become accessible to the user. -/
structure KernelHalfKept (s s' : Kernel) (roots : List Nat) : Prop where
  walk : ∀ root ∈ roots, ∀ cr3, pointerToLinearAddress root = .ok cr3 → ∀ v, 2 ^ 64 - 2 ^ 47 ≤ v → v < 2 ^ 64 →
    Paging.walk s'.mem cr3 v = Paging.walk s.mem cr3 v
  user : ∀ root ∈ roots, ∀ cr3, pointerToLinearAddress root = .ok cr3 → ∀ v, 2 ^ 64 - 2 ^ 47 ≤ v → v < 2 ^ 64 →
    ∀ t, Paging.walk s'.mem cr3 v = some t → t.user = true → ∃ t', Paging.walk s.mem cr3 v = some t' ∧ t'.user = true

/-- The tables are indexed by the low 48 bits of an address. -/
theorem mmap_mod (s : Kernel) (root f v : Nat) (user : Bool) : mmap s root f (v % 2 ^ 48) user = mmap s root f v user := by
  have same (level : Nat) (upper : level < 4) : index level (v % 2 ^ 48) = index level v := by
    unfold index
    interval_cases level <;> omega
  simp only [mmap, resolvePageentry, resolveFrom, same 3 (by decide), same 2 (by decide), same 1 (by decide), same 0 (by decide)]

section reach
variable {K : KernelImage} {F : FreeMemory K} {s s' : Kernel} {live roots : List Nat} {events : List MapEvent}
  {root f off n src vaddr filesz : Nat}

/-- Copying into a frame is writing its bytes one after the other. -/
theorem SpaceReach.memcpy (reach : SpaceReach F s live roots events) (member : f ∈ live) (inside : off + n ≤ 4096) :
    SpaceReach F { s with mem := MetalToApp.memcpy s.mem (f + off) src n } live roots events := by
  induction n with
  | zero => exact reach
  | succ n ih =>
    have last := (ih (by omega)).write (o := off + n) (MetalToApp.memcpy s.mem (f + off) src n (src + n)) member (by omega)
    rwa [← Nat.add_assoc] at last

/-- An iteration of `copy_section` is made of steps that the clients may take. -/
theorem SpaceReach.copyPage {src' filesz' : Nat} (reach : SpaceReach F s live roots events) (member : root ∈ roots)
    (top : index 3 vaddr < 256) (run : MetalToApp.copyPage s root vaddr src filesz = .ok (src', filesz', s')) :
    ∃ live' events', SpaceReach F s' live' roots events' := by
  rw [MetalToApp.copyPage] at run
  obtain ⟨⟨c, s₁⟩, alloc, rest⟩ := Outcome.bind_eq_ok.mp run
  obtain ⟨s₂, map, copy⟩ := Outcome.bind_eq_ok.mp rest
  have below := (index_three_iff vaddr).mp top
  have mapped := (reach.alloc .frameAllocZero alloc).mmap true member List.mem_cons_self (by omega)
    ((mmap_mod s₁ root c (vaddr - vaddr % 0x1000) true).trans map)
  obtain ⟨g, h⟩ := mapped.inv
  have frame := (h.data c List.mem_cons_self).frame
  split at copy
  · rename_i more
    obtain ⟨s₃, copied, done⟩ := Outcome.bind_eq_ok.mp copy
    cases done
    rw [Kernel.memcpy, if_neg (by omega)] at copied
    obtain ⟨target, atTarget, rest⟩ := Outcome.bind_eq_ok.mp copied
    obtain ⟨source, -, eq⟩ := Outcome.bind_eq_ok.mp rest
    cases eq
    obtain ⟨rfl, inside⟩ := toCopy_inside frame.room atTarget
    exact ⟨_, _, mapped.memcpy List.mem_cons_self inside⟩
  · cases copy
    exact ⟨_, _, mapped⟩

/-- A load whose segments all lie below bit 47 leaves the kernel half of every address space
alone, and is itself made of the clients' steps. This is in every state reached from the boot,
and of the segments only those matter that the loader comes to. -/
theorem loadElf_keeps_kernelHalf {start stop entry : Nat} (reach : SpaceReach F s live roots events) (member : root ∈ roots)
    (low : ∀ header, ComesTo s start root header → LowPages header.vaddr header.memsz)
    (run : loadElf s start stop root = .ok (entry, s')) :
    (∃ live' events', SpaceReach F s' live' roots events') ∧ KernelHalfKept s s' roots := by
  refine ⟨loadElf_rule (P := fun t => ∃ live events, SpaceReach F t live roots events) low ?_ ⟨live, events, reach⟩ run, ?_⟩
  · rintro t v src filesz src' filesz' t' top ⟨live, events, reach⟩ page
    exact reach.copyPage member top page
  · obtain ⟨g, h⟩ := reach.inv
    obtain ⟨r, rfl, space⟩ := h.space root member
    obtain ⟨g', n, pages, loaded⟩ := loadElf_run h.kernel space low run
    have same : ∀ root ∈ roots, ∀ cr3, pointerToLinearAddress root = .ok cr3 → ∀ v, 2 ^ 64 - 2 ^ 47 ≤ v → v < 2 ^ 64 →
        walk s'.mem cr3 v = walk s.mem cr3 v := by
      intro root' member' cr3 physical v high bound
      obtain ⟨r', rfl, space'⟩ := h.space root' member'
      have page := h.kernel.page (h.kernel.root_owner space')
      cases (pointerToLinearAddress_linear page.2.1 (by omega)).symm.trans physical
      exact walk_upper_congr h.kernel loaded.inv space' (loaded.spaces ▸ space')
        (fun t p place => loaded.agree h.kernel place (h.kernel.space_ne space).symm) high bound
    refine ⟨same, fun root' member' cr3 physical v high bound t found user => ⟨t, ?_, user⟩⟩
    rw [← same root' member' cr3 physical v high bound, found]

end reach

theorem loadElf_keeps_kernelHalf_sharedPage : ∃ s root entry s',
    SpaceReach smallMemory s [] [root, linearAddressToPtr 0x1200000] [] ∧
    loadElf s (linearAddressToPtr 0x1900000) (linearAddressToPtr 0x19000b1) root = .ok (entry, s') ∧
    (∃ live' events', SpaceReach smallMemory s' live' [root, linearAddressToPtr 0x1200000] events') ∧
    KernelHalfKept s s' [root, linearAddressToPtr 0x1200000] := by
  obtain ⟨s₀, s, root, free, reach, frames, created, wf, disjoint, placed, enough, -⟩ := sharedPageFile_setup
  obtain ⟨g, h⟩ := reach.inv
  cases frames.unique h.kernel.stack
  obtain ⟨c, rest, rfl, made⟩ := createAddressSpace_run h.kernel created
  rw [made.free, List.length_cons] at enough
  obtain ⟨s', g', run, -⟩ := made.loadElf h.kernel wf (fun f member => placed f (List.mem_of_mem_take member)) (by omega)
    (linearAddressToPtr 0x19000b1)
  have reach' := reach.create created
  refine ⟨s, _, _, s', reach', run, loadElf_keeps_kernelHalf reach' List.mem_cons_self (fun header comes => ?_) run⟩
  obtain ⟨i, loadable, rfl⟩ := comesTo_image made.inv (Or.inl rfl) (made.knows h.kernel) wf
    (fun k inside => made.apart h.kernel fun f member => placed f (List.mem_of_mem_take member) k inside) comes
  exact lowPages_of_lower (wf.lower i loadable)

section linear
variable {K : KernelImage} {A : Arena} {s : Kernel} {g : Ghost} {m : Memory} {r f v : Nat}

/-- Mapping an address of the linear window overwrites the large page that holds it. -/
theorem mmap_linear (inv : KernelInv K A s g) (space : g.spaces r) (slot : index 3 v = 256) (aligned : f % 4096 = 0)
    (room : f + 4096 ≤ 2 ^ 39) (user : Bool) : mmap s (linearAddressToPtr r) f v user =
      .ok { s with mem := write64 s.mem (K.kernelLinear + 8 * index 2 v) (f + entryBits user) } := by
  have page := K.page (t := K.kernelLinear) (by simp)
  have below := index_lt 2 v
  have root : word s.mem r 256 = K.kernelLinear + entryBits false := inv.upper space (by decide) (by decide)
  have next := nextTable_link (inv.entry_window (inv.root_owner space) (show 256 < 512 by decide)) page.1 root
  have entry := window_linear (a := K.kernelLinear) (o := 8 * index 2 v) (n := 8) (by omega) (by omega)
  have large : big (word s.mem K.kernelLinear (index 2 v)) = true := by
    rw [inv.linear _ below]
    exact big_linear _
  have stop := nextTable_big (s := s) entry large
  have resolved : resolvePageentry s (linearAddressToPtr r) v = .ok (linearAddressToPtr K.kernelLinear + 8 * index 2 v, s) := by
    rw [resolvePageentry, resolveFrom, slot]
    simp only [next, Outcome.ok_bind]
    rw [resolveFrom, stop]
    rfl
  simp only [mmap, resolved, Outcome.ok_bind, fillEntry_eq user entry aligned (show f + 4096 ≤ 2 ^ 64 by omega)]

/-- Once an entry of `kernel_linear` points at a fresh page, the addresses it served are gone. -/
theorem walk_linear_overwritten {c : Nat} {rest : List Nat} (inv : KernelInv K A s g) (space : g.spaces r) (free : g.free = c :: rest)
    (canonical : Canonical v) (slot : index 3 v = 256) (user : Bool) :
    walk s.mem r v ≠ none ∧
      walk (write64 (memset s.mem c 0 4096) (K.kernelLinear + 8 * index 2 v) (c + entryBits user)) r v = none := by
  have table := K.page (t := K.kernelLinear) (by simp)
  have page := inv.page (inv.root_owner space)
  have data := inv.data_of_free free
  have frame := data.frame
  have aligned := frame.aligned
  have room := frame.room
  have small := entryBits_lt user
  have below := index_lt 2 v
  have root : word s.mem r 256 = K.kernelLinear + entryBits false := inv.upper space (by decide) (by decide)
  obtain ⟨rootAligned, rootApart⟩ := inv.ne_data frame data.notTable (Or.inl (by simp [inv.root_owner space]) : g.owner r ≠ none ∨ _)
  obtain ⟨-, linearApart⟩ := inv.ne_data frame data.notTable (Or.inr (Or.inl rfl) : g.owner K.kernelLinear ≠ none ∨ _)
  have rootNe : r ≠ K.kernelLinear := inv.ne_linear (inv.root_owner space)
  constructor
  · rw [walk_linear ⟨page.1, page.2.2⟩ canonical slot root, walkFrom, inv.linear _ below]
    have here : present (index 2 v * addrshift1G + 0x83) = true := by
      rw [present, flag_aligned_add (by simp only [addrshift1G]; omega) (by decide)]
      rfl
    simp only [here, if_true, big_linear, if_neg (show ¬(1 + 1 = 3) by decide)]
    exact Option.some_ne_none _
  · let m := memset s.mem c 0 4096
    have root' : word (write64 m (K.kernelLinear + 8 * index 2 v) (c + entryBits user)) r 256 = K.kernelLinear + entryBits false := by
      rw [word_write64_of_ne table.1 page.1 below (by decide) fun same => absurd same rootNe, ← root]
      exact word_outside aligned page.1 rootApart (by decide) fun x away => memset_outside 0 away
    rw [walk_linear ⟨page.1, page.2.2⟩ canonical slot root', walkFrom]
    have entry : word (write64 m (K.kernelLinear + 8 * index 2 v) (c + entryBits user)) K.kernelLinear (index 2 v) =
        c + entryBits user := word_write64_self (by omega)
    have empty : word (write64 m (K.kernelLinear + 8 * index 2 v) (c + entryBits user)) c (index 1 v) = 0 := by
      rw [word_write64_of_ne table.1 aligned below (index_lt _ _) fun same => absurd same (Ne.symm linearApart)]
      exact readLE_zero_bytes fun o inside => by
        have bound := index_lt 1 v
        rw [Nat.add_assoc]
        exact memset_inside 0 (by omega)
    simp only [entry, present_entry aligned, big_entry aligned, if_true, Bool.false_eq_true, if_false,
      frameOf_entry aligned room, walkFrom, empty]
    rfl

end linear

/-- An image with one segment, whose address is that of the last GiB of the linear window. -/
def linearWindowFile : Memory :=
  imageMemory 0x1900000 [(0x20, 8, 0x40), (0x36, 2, 0x38), (0x38, 2, 1),
    (0x40, 4, 1), (0x48, 8, 0x78), (0x50, 8, 0xFFFF807FC0000000), (0x60, 8, 0), (0x68, 8, 1)]

theorem linearWindowFile_headers : readLE linearWindowFile 8 0x1900018 = 0 ∧ programHeaderCount linearWindowFile 0x1900000 = 1 ∧
    headerAt linearWindowFile 0x1900040 = ⟨1, 0x78, 0xFFFF807FC0000000, 0, 1⟩ ∧
    programHeaderOffset linearWindowFile 0x1900000 = 0x40 ∧ programHeaderSize linearWindowFile 0x1900000 = 0x38 := by
  decide

/-- Loading it takes one frame and maps it over the last GiB of physical memory. -/
theorem linearWindowFile_load {K : KernelImage} {A : Arena} {s : Kernel} {g : Ghost} {r c : Nat} {rest : List Nat}
    (inv : KernelInv K A s g) (space : g.spaces r) (free : g.free = c :: rest)
    (file : Agree linearWindowFile s.mem 0x1900000 0x78) (stop : Nat) :
    ∃ s', loadElf s (linearAddressToPtr 0x1900000) stop (linearAddressToPtr r) = .ok (0, s') ∧
      s'.mem = write64 (memset s.mem c 0 4096) (K.kernelLinear + 8 * 511) (c + entryBits true) := by
  obtain ⟨entry, count, header, offset, size⟩ := linearWindowFile_headers
  have atEntry : readLE s.mem 8 0x1900018 = 0 := (file.readLE (o := 0x18) (by decide)).trans entry
  have atCount : programHeaderCount s.mem 0x1900000 = 1 := (file.readLE (o := 0x38) (by decide)).trans count
  have atOffset : programHeaderOffset s.mem 0x1900000 = 0x40 := (file.readLE (o := 0x20) (by decide)).trans offset
  have atSize : programHeaderSize s.mem 0x1900000 = 0x38 := (file.readLE (o := 0x36) (by decide)).trans size
  have same : Agree linearWindowFile s.mem 0x1900040 0x30 := by
    intro k inside
    have byte := file (0x40 + k) (by omega)
    rwa [← Nat.add_assoc] at byte
  have read := readProgramHeader_linear (s := s) (b := 0x1900040) (by decide)
  rw [headerAt_congr same, header] at read
  have frame := (inv.data_of_free free).frame
  obtain ⟨s₁, alloc, mem₁, inv₁⟩ := inv.frameAllocZero_take free
  have map := mmap_linear (v := 0xFFFF807FC0000000) inv₁ space (by decide) frame.aligned frame.room true
  have page : copyPage s (linearAddressToPtr r) 0xFFFF807FC0000000 (linearAddressToPtr 0x1900078) 0 =
      .ok (linearAddressToPtr 0x1900078, 0, { s₁ with mem := write64 s₁.mem (K.kernelLinear + 8 * 511) (c + entryBits true) }) := by
    simp only [copyPage, alloc, Outcome.ok_bind]
    rw [show 0xFFFF807FC0000000 - 0xFFFF807FC0000000 % 0x1000 = 0xFFFF807FC0000000 from rfl, map]
    rfl
  have more : MoreToCopy 1 := by decide
  have segment := (copySection_next more page).trans (copySection_done (by decide))
  refine ⟨{ s₁ with mem := write64 s₁.mem (K.kernelLinear + 8 * 511) (c + entryBits true) }, ?_, by rw [mem₁]⟩
  have pointer : (linearAddressToPtr 0x1900000 + 0x40 + 0x38 * 0) % 2 ^ 64 = linearAddressToPtr 0x1900040 := by decide
  have source : (linearAddressToPtr 0x1900000 + 0x78) % 2 ^ 64 = linearAddressToPtr 0x1900078 := by decide
  rw [loadElf_linear (by decide), atCount, atOffset, atSize, atEntry]
  simp only [loadSegments, loadSegment, Outcome.pure_eq_ok, Outcome.ok_bind, pointer, read, if_true, source, segment]

/-- The load above changes what the kernel sees there: it now walks into the program's own page. -/
theorem loadElf_overwrites_linearWindow : ∃ s root entry s',
    SpaceReach smallMemory s [] [root, linearAddressToPtr 0x1200000] [] ∧
    loadElf s (linearAddressToPtr 0x1900000) (linearAddressToPtr 0x1900078) root = .ok (entry, s') ∧
    ¬KernelHalfKept s s' [root, linearAddressToPtr 0x1200000] := by
  obtain ⟨s₀, reach, inv₀, kept⟩ := smallBoot linearWindowFile
  have free := (Ghost.boot_free smallImage smallMemory.arena).trans smallMemory_frames
  obtain ⟨s, created, inv, outside, -⟩ := createAddressSpace_space inv₀ free
  have file : Agree linearWindowFile s.mem 0x1900000 0x78 := fun k inside => by rw [outside _ (by omega), kept _ (by omega)]
  obtain ⟨s', run, mem⟩ := linearWindowFile_load inv (Or.inl rfl) rfl file (linearAddressToPtr 0x1900078)
  refine ⟨s, _, _, s', reach.create created, run, fun kept => ?_⟩
  obtain ⟨mapped, gone⟩ := walk_linear_overwritten (v := 0xFFFF807FC0000000) inv (Or.inl rfl) rfl (by decide) (by decide) true
  have same := kept.walk _ List.mem_cons_self 0x1400000 (pointerToLinearAddress_linear (by decide) (by decide)) 0xFFFF807FC0000000
    (by decide) (by decide)
  rw [mem] at same
  exact mapped (same.symm.trans gone)

end MetalToApp

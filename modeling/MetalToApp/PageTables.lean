import MetalToApp.AddressSpace
import MetalToApp.Library.Radix

namespace MetalToApp
open ByteMemory Paging

/-- The page or table an entry points at, with the user access it grants. -/
def entryPage (e : Nat) : Option (Nat × Bool) := if present e then some (frameOf e, usermode e) else none

/-- The contents of the page tables in memory, as a radix tree sees them. -/
def leafPage (m : Memory) (t i : Nat) : Option (Nat × Bool) := entryPage (word m t i)
def childTable (m : Memory) (t i : Nat) : Option Nat := (leafPage m t i).map Prod.fst

/-- An entry as `fillEntry` or `munmap` leaves it. -/
def IsEntry (e : Nat) : Prop := e = 0 ∨ ∃ f user, f % 4096 = 0 ∧ f + 4096 ≤ 2 ^ 39 ∧ e = f + entryBits user

/-- An entry that leads to a further table, or to nothing. -/
def IsLink (e : Nat) : Prop := e = 0 ∨ ∃ f, f % 4096 = 0 ∧ f + 4096 ≤ 2 ^ 39 ∧ e = f + entryBits true

section entry
variable {f e : Nat} {user : Bool}

theorem flag_entry (aligned : f % 4096 = 0) {k : Nat} (low : k < 12) : flag (f + entryBits user) k = flag (entryBits user) k :=
  flag_aligned_add aligned low

theorem present_entry (aligned : f % 4096 = 0) : present (f + entryBits user) = true := by
  rw [present, flag_entry aligned (by decide)]
  cases user <;> rfl

theorem writable_entry (aligned : f % 4096 = 0) : writable (f + entryBits user) = true := by
  rw [writable, flag_entry aligned (by decide)]
  cases user <;> rfl

theorem usermode_entry (aligned : f % 4096 = 0) : usermode (f + entryBits user) = user := by
  rw [usermode, flag_entry aligned (by decide)]
  cases user <;> rfl

theorem big_entry (aligned : f % 4096 = 0) : big (f + entryBits user) = false := by
  rw [big, flag_entry aligned (by decide)]
  cases user <;> rfl

theorem entryBits_lt (user : Bool) : entryBits user < 4096 := by
  cases user <;> decide

theorem frameOf_entry (aligned : f % 4096 = 0) (room : f + 4096 ≤ 2 ^ 39) : frameOf (f + entryBits user) = f :=
  frameOf_aligned_add aligned (entryBits_lt user) (by omega)

theorem entryPage_entry (aligned : f % 4096 = 0) (room : f + 4096 ≤ 2 ^ 39) :
    entryPage (f + entryBits user) = some (f, user) := by
  rw [entryPage, present_entry aligned, if_pos rfl, frameOf_entry aligned room, usermode_entry aligned]

theorem entryPage_zero : entryPage 0 = none := rfl

theorem childTable_zero {m : Memory} {t i : Nat} (zero : word m t i = 0) : childTable m t i = none := by
  rw [childTable, leafPage, zero]
  rfl

theorem childTable_entry {m : Memory} {t i : Nat} (aligned : f % 4096 = 0) (room : f + 4096 ≤ 2 ^ 39)
    (entry : word m t i = f + entryBits user) : childTable m t i = some f := by
  rw [childTable, leafPage, entry, entryPage_entry aligned room]
  rfl

theorem childTable_congr {m m' : Memory} {t i : Nat} (same : word m' t i = word m t i) : childTable m' t i = childTable m t i := by
  rw [childTable, childTable, leafPage, leafPage, same]

theorem IsLink.isEntry (link : IsLink e) : IsEntry e := by
  rcases link with rfl | ⟨f, aligned, room, rfl⟩
  · exact Or.inl rfl
  · exact Or.inr ⟨f, true, aligned, room, rfl⟩

/-- An entry whose `present` bit is clear is zero. -/
theorem IsEntry.eq_zero (entry : IsEntry e) (absent : entryPage e = none) : e = 0 := by
  rcases entry with rfl | ⟨f, user, aligned, room, rfl⟩
  · rfl
  · rw [entryPage_entry aligned room] at absent
    cases absent

end entry

/-- Bookkeeping over a kernel state: the free frames in the order of their allocation, the
roots of the address spaces made so far, and the place of each page table in its tree. -/
structure Ghost where
  free : List Nat
  spaces : Nat → Prop
  owner : Nat → Option (Nat × List Nat)

/-- An address space's tree has its tables for the lower half; what hangs in slot 511 of
`kernel_pagedirtable`, the dynamic window, is a tree of its own. -/
def shape (K : KernelImage) (spaces : Nat → Prop) : Radix.Shape Nat Nat where
  isRoot r := spaces r ∨ r = K.kernelPagedirtable
  height r := if r = K.kernelPagedirtable then 2 else 3
  slot r p i := i < 512 ∧ (p = [] → if r = K.kernelPagedirtable then i = 511 else i < 256)

/-- The entries of the upper half of every root table. -/
def kernelWord (K : KernelImage) (i : Nat) : Nat :=
  if i = 256 then K.kernelLinear + 3 else if i = 511 then K.kernelPagedirtable + entryBits true else 0

/-- The entries of `kernel_pagedir`: 16 pages of 2M, of which the code is read-only. -/
def pagedirWord (i : Nat) : Nat :=
  if i < 16 then i * addrshift2M + (if i = 0 ∨ 8 ≤ i then 0x83 else 0x81) else 0

/-- A page of client data: a frame of the arena that is neither free nor a page table. -/
structure Ghost.Data (A : Arena) (g : Ghost) (f : Nat) : Prop where
  frame : A.Frame f
  live : f ∉ g.free
  notTable : g.owner f = none

/-- The kernel's memory holds one forest of page tables next to the allocator's frames and
the fixed tables of the kernel image. -/
structure KernelInv (K : KernelImage) (A : Arena) (s : Kernel) (g : Ghost) : Prop where
  above : K.freememoryStart ≤ A.first
  stack : FreeFrames A s g.free
  forest : Radix.Forest (shape K g.spaces) (childTable s.mem) g.owner
  kernelRoot : g.spaces K.kernelPml4
  space_ne : ∀ {r}, g.spaces r → r ≠ K.kernelPagedirtable
  table : ∀ {t x}, g.owner t = some x → t = K.kernelPml4 ∨ t = K.kernelPagedirtable ∨ A.Frame t ∧ t ∉ g.free
  link : ∀ {t r p i}, g.owner t = some (r, p) → p.length < (shape K g.spaces).height r →
    (shape K g.spaces).slot r p i → IsLink (word s.mem t i)
  leaf : ∀ {t r p i}, g.owner t = some (r, p) → p.length = (shape K g.spaces).height r → i < 512 →
    IsEntry (word s.mem t i)
  upper : ∀ {r i}, g.spaces r → 256 ≤ i → i < 512 → word s.mem r i = kernelWord K i
  linear : ∀ i < 512, word s.mem K.kernelLinear i = i * addrshift1G + 0x83
  pagedirtable : ∀ i < 511, word s.mem K.kernelPagedirtable i = if i = 510 then K.kernelPagedir + entryBits true else 0
  pagedir : ∀ i < 512, word s.mem K.kernelPagedir i = pagedirWord i

/-- An entry that the kernel image sets up, and that belongs to no tree. -/
def FixedEntry (K : KernelImage) (spaces : Nat → Prop) (t i : Nat) : Prop :=
  spaces t ∧ 256 ≤ i ∨ t = K.kernelLinear ∨ t = K.kernelPagedirtable ∧ i < 511 ∨ t = K.kernelPagedir

/-- These entries have the words that they were given. -/
structure FixedWords (K : KernelImage) (spaces : Nat → Prop) (m : Memory) : Prop where
  upper : ∀ {r i}, spaces r → 256 ≤ i → i < 512 → word m r i = kernelWord K i
  linear : ∀ i < 512, word m K.kernelLinear i = i * addrshift1G + 0x83
  pagedirtable : ∀ i < 511, word m K.kernelPagedirtable i = if i = 510 then K.kernelPagedir + entryBits true else 0
  pagedir : ∀ i < 512, word m K.kernelPagedir i = pagedirWord i

theorem FixedWords.congr {K : KernelImage} {spaces : Nat → Prop} {m m' : Memory} (fixed : FixedWords K spaces m)
    (same : ∀ t i, i < 512 → FixedEntry K spaces t i → word m' t i = word m t i) : FixedWords K spaces m' where
  upper space lower upper := (same _ _ upper (Or.inl ⟨space, lower⟩)).trans (fixed.upper space lower upper)
  linear i bound := (same _ i bound (Or.inr (Or.inl rfl))).trans (fixed.linear i bound)
  pagedirtable i bound :=
    (same _ i (Nat.lt_succ_of_lt bound) (Or.inr (Or.inr (Or.inl ⟨rfl, bound⟩)))).trans (fixed.pagedirtable i bound)
  pagedir i bound := (same _ i bound (Or.inr (Or.inr (Or.inr rfl)))).trans (fixed.pagedir i bound)

theorem KernelImage.page (K : KernelImage) {t : Nat}
    (member : t ∈ [K.kernelPml4, K.kernelPagedir, K.kernelPagedirtable, K.kernelLinear]) :
    t % 4096 = 0 ∧ 0 < t ∧ t + 4096 ≤ 2 ^ 39 := by
  have inside := K.inside t member
  have mapped := K.mapped
  simp only [kernelMapped, addrshift2M] at mapped
  exact ⟨K.aligned t member, inside.1, by omega⟩

namespace KernelInv
variable {K : KernelImage} {A : Arena} {s s' : Kernel} {g : Ghost} {t r i c : Nat} {p : List Nat} {x : Nat × List Nat}

theorem image_not_frame (inv : KernelInv K A s g)
    (member : t ∈ [K.kernelPml4, K.kernelPagedir, K.kernelPagedirtable, K.kernelLinear]) : ¬A.Frame t := by
  intro frame
  have inside := K.inside t member
  have above := inv.above
  have lower := frame.lower
  omega

theorem page (inv : KernelInv K A s g) (place : g.owner t = some x) : t % 4096 = 0 ∧ 0 < t ∧ t + 4096 ≤ 2 ^ 39 := by
  rcases inv.table place with rfl | rfl | ⟨frame, _⟩
  · exact K.page (by simp)
  · exact K.page (by simp)
  · exact ⟨frame.aligned, frame.pos, frame.room⟩

theorem not_free (inv : KernelInv K A s g) (place : g.owner t = some x) : t ∉ g.free := by
  intro free
  rcases inv.table place with rfl | rfl | ⟨_, live⟩
  · exact inv.image_not_frame (by simp) (inv.stack.frame free)
  · exact inv.image_not_frame (by simp) (inv.stack.frame free)
  · exact live free

/-- A page of the kernel's image that is not one of its roots is no table. -/
theorem ne_image (inv : KernelInv K A s g) (place : g.owner t = some x) {f : Nat}
    (member : f ∈ [K.kernelPml4, K.kernelPagedir, K.kernelPagedirtable, K.kernelLinear]) (notPml4 : f ≠ K.kernelPml4)
    (notTable : f ≠ K.kernelPagedirtable) : t ≠ f := by
  rintro rfl
  rcases inv.table place with same | same | ⟨frame, _⟩
  · exact notPml4 same
  · exact notTable same
  · exact inv.image_not_frame member frame

theorem ne_linear (inv : KernelInv K A s g) (place : g.owner t = some x) : t ≠ K.kernelLinear := by
  have distinct := K.distinct
  simp only [List.nodup_cons, List.mem_cons, not_or] at distinct
  exact inv.ne_image place (by simp) (Ne.symm distinct.1.2.2.1) (Ne.symm distinct.2.2.1.1)

theorem ne_pagedir (inv : KernelInv K A s g) (place : g.owner t = some x) : t ≠ K.kernelPagedir := by
  have distinct := K.distinct
  simp only [List.nodup_cons, List.mem_cons, not_or] at distinct
  exact inv.ne_image place (by simp) (Ne.symm distinct.1.1) distinct.2.1.1

theorem root_owner (inv : KernelInv K A s g) (space : g.spaces r) : g.owner r = some (r, []) :=
  inv.forest.root_owner (Or.inl space)

theorem pagedirtable_owner (inv : KernelInv K A s g) :
    g.owner K.kernelPagedirtable = some (K.kernelPagedirtable, []) :=
  inv.forest.root_owner (Or.inr rfl)

theorem fixed (inv : KernelInv K A s g) : FixedWords K g.spaces s.mem := ⟨inv.upper, inv.linear, inv.pagedirtable, inv.pagedir⟩

/-- A fixed entry is one of a table that is known. -/
theorem known_of_fixed (inv : KernelInv K A s g) (fixed : FixedEntry K g.spaces t i) :
    g.owner t ≠ none ∨ t = K.kernelLinear ∨ t = K.kernelPagedir := by
  rcases fixed with ⟨space, -⟩ | linear | ⟨rfl, -⟩ | pagedir
  · exact Or.inl (by simp [inv.root_owner space])
  · exact Or.inr (Or.inl linear)
  · exact Or.inl (by simp [inv.pagedirtable_owner])
  · exact Or.inr (Or.inr pagedir)

theorem page_of_fixed (inv : KernelInv K A s g) (fixed : FixedEntry K g.spaces t i) : t % 4096 = 0 := by
  rcases inv.known_of_fixed fixed with owned | rfl | rfl
  · obtain ⟨x, place⟩ := Option.ne_none_iff_exists'.mp owned
    exact (inv.page place).1
  · exact (K.page (by simp)).1
  · exact (K.page (by simp)).1

/-- The invariant looks only at the tables, so the allocator and the rest of memory may
change together. -/
theorem restack (inv : KernelInv K A s g) {free : List Nat} (stack : FreeFrames A s' free)
    (live : ∀ t x, g.owner t = some x → t ∉ free)
    (same : ∀ t, g.owner t ≠ none ∨ t = K.kernelLinear ∨ t = K.kernelPagedir → Agree s.mem s'.mem t 4096) :
    KernelInv K A s' { g with free := free } := by
  have words {t x i} (place : g.owner t = some x) (bound : i < 512) : word s'.mem t i = word s.mem t i :=
    word_congr (same t (Or.inl (by simp [place]))) bound
  have fixed := inv.fixed.congr fun t i bound fixed => word_congr (same t (inv.known_of_fixed fixed)) bound
  refine ⟨inv.above, stack, ?_, inv.kernelRoot, inv.space_ne, ?_, ?_, ?_, fixed.upper, fixed.linear, fixed.pagedirtable, fixed.pagedir⟩
  · exact inv.forest.congr fun t r p i place _ slot => childTable_congr (words place slot.1)
  · intro t x place
    exact (inv.table place).imp_right (Or.imp_right fun ⟨frame, _⟩ => ⟨frame, live t x place⟩)
  · intro t r p i place below slot
    rw [words place slot.1]
    exact inv.link place below slot
  · intro t r p i place depth bound
    rw [words place bound]
    exact inv.leaf place depth bound

/-- A frame off the top of the free list is a page of data. -/
theorem data_of_free (inv : KernelInv K A s g) {rest : List Nat} (free : g.free = c :: rest) :
    Ghost.Data A { g with free := rest } c where
  frame := inv.stack.frame (free ▸ List.mem_cons_self)
  live := (List.nodup_cons.mp (free ▸ inv.stack.nodup)).1
  notTable := by
    by_contra owned
    obtain ⟨x, place⟩ := Option.ne_none_iff_exists'.mp owned
    exact inv.not_free place (free ▸ List.mem_cons_self)

/-- The tables are apart from every page of data. -/
theorem ne_data (inv : KernelInv K A s g) (frame : A.Frame c) (unowned : g.owner c = none)
    (table : g.owner t ≠ none ∨ t = K.kernelLinear ∨ t = K.kernelPagedir) : t % 4096 = 0 ∧ t ≠ c := by
  rcases table with owned | rfl | rfl
  · obtain ⟨x, place⟩ := Option.ne_none_iff_exists'.mp owned
    exact ⟨(inv.page place).1, Radix.ne_of_owned unowned place⟩
  · exact ⟨(K.page (by simp)).1, fun same => inv.image_not_frame (by simp) (same ▸ frame)⟩
  · exact ⟨(K.page (by simp)).1, fun same => inv.image_not_frame (by simp) (same ▸ frame)⟩

/-- Taking a frame, and writing to nothing else, keeps the invariant. -/
theorem take (inv : KernelInv K A s g) {rest : List Nat} (free : g.free = c :: rest) (stack : FreeFrames A s' rest)
    (outside : ∀ x, x < c ∨ c + 4096 ≤ x → s'.mem x = s.mem x) : KernelInv K A s' { g with free := rest } := by
  have data := inv.data_of_free free
  refine inv.restack stack (fun t x owned member => inv.not_free owned (free ▸ List.mem_cons_of_mem _ member)) ?_
  intro t table o inside
  have apart := inv.ne_data data.frame data.notTable table
  have := data.frame.aligned
  exact outside _ (by omega)

theorem frameAllocZero_take (inv : KernelInv K A s g) {rest : List Nat} (free : g.free = c :: rest) :
    ∃ s', frameAllocZero s = .ok (c, s') ∧ s'.mem = memset s.mem c 0 4096 ∧
      KernelInv K A s' { g with free := rest } := by
  obtain ⟨s', run, stack, mem⟩ := FreeFrames.frameAllocZero_cons (free ▸ inv.stack)
  exact ⟨s', run, mem, inv.take free stack fun x away => by rw [mem, memset_outside 0 away]⟩

/-- Giving a page of data back, which writes to that page alone. -/
theorem frameDealloc_give (inv : KernelInv K A s g) (data : g.Data A c) :
    ∃ s', frameDealloc s c = .ok s' ∧ (∀ x, x < c ∨ c + 4096 ≤ x → s'.mem x = s.mem x) ∧
      KernelInv K A s' { g with free := c :: g.free } := by
  obtain ⟨run, stack⟩ := inv.stack.frameDealloc_push data.frame data.live
  have outside : ∀ x, x < c ∨ c + 4096 ≤ x → write64 s.mem c s.freelist x = s.mem x :=
    fun x away => write64_outside (by omega)
  refine ⟨_, run, outside, inv.restack stack (fun t x owned member => ?_) fun t table o inside => ?_⟩
  · rcases List.mem_cons.mp member with rfl | old
    · exact Radix.ne_of_owned data.notTable owned rfl
    · exact inv.not_free owned old
  · have apart := inv.ne_data data.frame data.notTable table
    have := data.frame.aligned
    exact outside _ (by omega)

/-- Writes to a page of data keep the invariant. -/
theorem write_data (inv : KernelInv K A s g) (data : g.Data A c) {m : Memory}
    (outside : ∀ x, x < c ∨ c + 4096 ≤ x → m x = s.mem x) : KernelInv K A { s with mem := m } g := by
  have aligned := data.frame.aligned
  refine inv.restack (inv.stack.congr_mem fun f member o inside => ?_) (fun t x owned => inv.not_free owned)
    fun t table o inside => ?_
  · have apart := (inv.stack.frame member).apart data.frame fun same => data.live (same ▸ member)
    exact outside _ (by omega)
  · have apart := inv.ne_data data.frame data.notTable table
    exact outside _ (by omega)

/-- When memory changes in one page of data only, all tables agree. -/
theorem agree_tables (inv : KernelInv K A s g) (frame : A.Frame c) (unowned : g.owner c = none) {m : Memory}
    (outside : ∀ x, x < c ∨ c + 4096 ≤ x → m x = s.mem x) (place : g.owner t = some x) : Agree s.mem m t 4096 := by
  have apart := inv.ne_data frame unowned (Or.inl (by simp [place]) : g.owner t ≠ none ∨ _)
  have aligned := frame.aligned
  exact fun o inside => outside _ (by omega)

/-- Storing into a table leaves every other page of memory as it is. -/
theorem agree_store (inv : KernelInv K A s g) (place : g.owner t = some x) (bound : i < 512) (v : Nat) {q : Nat}
    (aligned : q % 4096 = 0) (different : q ≠ t) : Agree s.mem (write64 s.mem (t + 8 * i) v) q 4096 := by
  intro o inside
  have page := inv.page place
  exact write64_outside (by omega)

theorem stack_store (inv : KernelInv K A s g) (place : g.owner t = some x) (bound : i < 512) (v : Nat) :
    FreeFrames A { s with mem := write64 s.mem (t + 8 * i) v } g.free :=
  inv.stack.congr_mem fun _ member => inv.agree_store place bound v (inv.stack.frame member).aligned fun same =>
    inv.not_free place (same ▸ member)

/-- A slot of a tree is in no entry of the kernel half that the invariant fixes. -/
theorem slot_not_upper (inv : KernelInv K A s g) (place : g.owner t = some (r, p))
    (slot : (shape K g.spaces).slot r p i) (space : g.spaces t) : i < 256 := by
  obtain ⟨rfl, rfl⟩ := Prod.mk.inj (Option.some.inj (place.symm.trans (inv.root_owner space)))
  have top := slot.2 rfl
  rwa [if_neg (inv.space_ne space)] at top

theorem slot_not_fixed (inv : KernelInv K A s g) (place : g.owner t = some (r, p)) (slot : (shape K g.spaces).slot r p i) :
    ¬FixedEntry K g.spaces t i := by
  rintro (⟨space, high⟩ | rfl | ⟨rfl, low⟩ | rfl)
  · have := inv.slot_not_upper place slot space
    omega
  · exact inv.ne_linear place rfl
  · obtain ⟨rfl, rfl⟩ := Prod.mk.inj (Option.some.inj (place.symm.trans inv.pagedirtable_owner))
    have top := slot.2 rfl
    rw [if_pos rfl] at top
    omega
  · exact inv.ne_pagedir place rfl

/-- No root is a last table. -/
theorem not_root_of_depth (inv : KernelInv K A s g) (place : g.owner t = some (r, p))
    (depth : p.length = (shape K g.spaces).height r) : ¬(shape K g.spaces).isRoot t := by
  intro isRoot
  obtain ⟨rfl, rfl⟩ := Prod.mk.inj (Option.some.inj (place.symm.trans (inv.forest.root_owner isRoot)))
  change 0 = if r = K.kernelPagedirtable then 2 else 3 at depth
  split at depth <;> cases depth

theorem leaf_not_fixed (inv : KernelInv K A s g) (place : g.owner t = some (r, p))
    (depth : p.length = (shape K g.spaces).height r) : ¬FixedEntry K g.spaces t i := by
  rintro (⟨space, -⟩ | rfl | ⟨rfl, -⟩ | rfl)
  · exact inv.not_root_of_depth place depth (Or.inl space)
  · exact inv.ne_linear place rfl
  · exact inv.not_root_of_depth place depth (Or.inr rfl)
  · exact inv.ne_pagedir place rfl

/-- Hanging a zeroed page into a vacant link makes it a table. -/
theorem addLink (inv : KernelInv K A s g) (place : g.owner t = some (r, p))
    (below : p.length < (shape K g.spaces).height r) (slot : (shape K g.spaces).slot r p i)
    (vacant : word s.mem t i = 0) (data : g.Data A c) (zero : ∀ j < 512, word s.mem c j = 0) :
    KernelInv K A { s with mem := write64 s.mem (t + 8 * i) (c + entryBits true) }
      { g with owner := Function.update g.owner c (some (r, i :: p)) } := by
  have tPage := inv.page place
  have room := data.frame.room
  have aligned := data.frame.aligned
  have small : c + entryBits true < 2 ^ 64 := by
    have := entryBits_lt true
    omega
  let m := write64 s.mem (t + 8 * i) (c + entryBits true)
  have here : word m t i = c + entryBits true := word_write64_self small
  have apart {t' j} (aligned' : t' % 4096 = 0) (bound : j < 512) (different : t' = t → j ≠ i) :
      word m t' j = word s.mem t' j := word_write64_of_ne tPage.1 aligned' slot.1 bound different
  have tNe : t ≠ c := Radix.ne_of_owned data.notTable place
  have bare {j} (bound : j < 512) : word m c j = 0 := by
    rw [apart aligned bound fun same => absurd same.symm tNe, zero j bound]
  have split {t' r' p'} (owned : Function.update g.owner c (some (r, i :: p)) t' = some (r', p')) :
      t' = c ∧ r' = r ∧ p' = i :: p ∨ t' ≠ c ∧ g.owner t' = some (r', p') :=
    (Radix.owned_or_added owned).imp_left fun ⟨eq, pair⟩ => ⟨eq, Prod.mk.inj pair⟩
  have fixed : FixedWords K g.spaces m := inv.fixed.congr fun t' j bound fixed =>
    apart (inv.page_of_fixed fixed) bound fun eq jEq => inv.slot_not_fixed place slot (eq ▸ jEq ▸ fixed)
  refine ⟨inv.above, inv.stack_store place slot.1 _, ?_, inv.kernelRoot, inv.space_ne, ?_, ?_, ?_, fixed.upper, fixed.linear,
    fixed.pagedirtable, fixed.pagedir⟩
  · refine inv.forest.grow place below slot ?_ data.notTable ?_ (fun j slot' => ?_) fun t' r' p' j owned _ slot' differ => ?_
    · exact childTable_zero vacant
    · exact childTable_entry aligned room here
    · exact childTable_zero (bare slot'.1)
    · exact childTable_congr (apart (inv.page owned).1 slot'.1 fun same => differ.resolve_left fun ne => ne same)
  · intro t' x owned
    rcases split (show _ = some (x.1, x.2) from owned) with ⟨rfl, _⟩ | ⟨_, old⟩
    · exact Or.inr (Or.inr ⟨data.frame, data.live⟩)
    · exact inv.table old
  · intro t' r' p' j owned below' slot'
    rcases split owned with ⟨rfl, _⟩ | ⟨_, old⟩
    · exact Or.inl (bare slot'.1)
    · by_cases same : t' = t ∧ j = i
      · obtain ⟨rfl, rfl⟩ := same
        exact Or.inr ⟨c, aligned, room, here⟩
      · show IsLink (word m t' j)
        rw [apart (inv.page old).1 slot'.1 fun eq jEq => same ⟨eq, jEq⟩]
        exact inv.link old below' slot'
  · intro t' r' p' j owned depth bound
    rcases split owned with ⟨rfl, _⟩ | ⟨_, old⟩
    · exact Or.inl (bare bound)
    · have differ : t' ≠ t := by
        rintro rfl
        obtain ⟨rfl, rfl⟩ := Prod.mk.inj (Option.some.inj (old.symm.trans place))
        exact absurd depth below.ne
      show IsEntry (word m t' j)
      rw [apart (inv.page old).1 bound fun eq => absurd eq differ]
      exact inv.leaf old depth bound

/-- An entry of a last table may be set freely. -/
theorem setLeaf (inv : KernelInv K A s g) (place : g.owner t = some (r, p))
    (depth : p.length = (shape K g.spaces).height r) (bound : i < 512) {v : Nat} (entry : IsEntry v) (fits : v < 2 ^ 64) :
    KernelInv K A { s with mem := write64 s.mem (t + 8 * i) v } g := by
  have tPage := inv.page place
  let m := write64 s.mem (t + 8 * i) v
  have apart {t' j} (aligned' : t' % 4096 = 0) (bound' : j < 512) (different : t' = t → j ≠ i) :
      word m t' j = word s.mem t' j := word_write64_of_ne tPage.1 aligned' bound bound' different
  have inner {t' r' p'} (owned : g.owner t' = some (r', p')) (below : p'.length < (shape K g.spaces).height r') :
      t' ≠ t := by
    rintro rfl
    obtain ⟨rfl, rfl⟩ := Prod.mk.inj (Option.some.inj (owned.symm.trans place))
    exact absurd depth below.ne
  have fixed : FixedWords K g.spaces m := inv.fixed.congr fun t' j bound' fixed =>
    apart (inv.page_of_fixed fixed) bound' fun eq => absurd (eq ▸ fixed) (inv.leaf_not_fixed place depth)
  refine ⟨inv.above, inv.stack_store place bound _, ?_, inv.kernelRoot, inv.space_ne, inv.table, ?_, ?_, fixed.upper, fixed.linear,
    fixed.pagedirtable, fixed.pagedir⟩
  · refine inv.forest.congr fun t' r' p' j owned below slot => ?_
    exact childTable_congr (apart (inv.page owned).1 slot.1 fun same => absurd same (inner owned below))
  · intro t' r' p' j owned below slot
    show IsLink (word m t' j)
    rw [apart (inv.page owned).1 slot.1 fun same => absurd same (inner owned below)]
    exact inv.link owned below slot
  · intro t' r' p' j owned depth' bound'
    by_cases same : t' = t ∧ j = i
    · obtain ⟨rfl, rfl⟩ := same
      show IsEntry (word m t' j)
      rw [word_write64_self fits]
      exact entry
    · show IsEntry (word m t' j)
      rw [apart (inv.page owned).1 bound' fun eq jEq => same ⟨eq, jEq⟩]
      exact inv.leaf owned depth' bound'

/-- Only the entry stored into changes, over all tables there may be. -/
theorem word_store (inv : KernelInv K A s g) (place : g.owner t = some x) (bound : i < 512) {v t' j : Nat}
    (aligned : t' % 4096 = 0) (bound' : j < 512) (different : t' = t → j ≠ i) :
    word (write64 s.mem (t + 8 * i) v) t' j = word s.mem t' j :=
  word_write64_of_ne (inv.page place).1 aligned bound bound' different

theorem entry_window (inv : KernelInv K A s g) (place : g.owner t = some x) (bound : i < 512) :
    window (linearAddressToPtr t + 8 * i) 8 = .ok (t + 8 * i) := by
  have page := inv.page place
  exact window_linear (by omega) (by omega)

end KernelInv

/-- The page mapped under a key of table indices, the last table's index first. -/
def pageAt (m : Memory) (r : Nat) (key : List Nat) : Option (Nat × Bool) :=
  Radix.lookup (childTable m) (leafPage m) r key

/-- A key that leads to an entry of a last table. -/
structure LeafKey (K : KernelImage) (spaces : Nat → Prop) (r : Nat) (p : List Nat) (i : Nat) : Prop where
  root : (shape K spaces).isRoot r
  path : (shape K spaces).Path r p
  depth : p.length = (shape K spaces).height r
  bound : i < 512

/-- Which paths a tree has does not depend on the other trees. -/
theorem path_shape {K : KernelImage} {spaces spaces' : Nat → Prop} {r : Nat} {p : List Nat}
    (path : (shape K spaces).Path r p) : (shape K spaces').Path r p := by
  induction p with
  | nil => trivial
  | cons i p ih => exact ⟨path.1, path.2.1, ih path.2.2⟩

theorem LeafKey.mono {K : KernelImage} {spaces : Nat → Prop} {r i : Nat} {p : List Nat}
    (key : LeafKey K spaces r p i) (spaces' : Nat → Prop) (more : ∀ r, spaces r → spaces' r) : LeafKey K spaces' r p i where
  root := key.root.imp_left (more r)
  path := path_shape key.path
  depth := key.depth
  bound := key.bound

def Ghost.Has (g : Ghost) (r : Nat) (p : List Nat) : Prop := ∃ t, g.owner t = some (r, p)

/-- The tree of `r` has got further tables, taken from the free frames in their order, and
memory has changed only in the tables of this tree. -/
structure Extended (K : KernelImage) (A : Arena) (s : Kernel) (g : Ghost) (s' : Kernel) (g' : Ghost) (r : Nat) : Prop where
  inv : KernelInv K A s' g'
  spaces : g'.spaces = g.spaces
  used : ∃ used, g.free = used ++ g'.free ∧ ∀ f, f ∈ used ↔ g.owner f = none ∧ g'.owner f ≠ none
  keeps : ∀ {t x}, g.owner t = some x → g'.owner t = some x
  added : ∀ {t x}, g'.owner t = some x → g.owner t = none → x.1 = r
  outside : ∀ x, (∀ t p, g'.owner t = some (r, p) → x < t ∨ t + 4096 ≤ x) → s'.mem x = s.mem x

/-- Growth leaves every page mapped as before. -/
structure Grown (K : KernelImage) (A : Arena) (s : Kernel) (g : Ghost) (s' : Kernel) (g' : Ghost) (r : Nat) : Prop
    extends Extended K A s g s' g' r where
  pages : ∀ {r' p i}, LeafKey K g.spaces r' p i → pageAt s'.mem r' (i :: p) = pageAt s.mem r' (i :: p)

namespace Extended
variable {K : KernelImage} {A : Arena} {s s' s'' : Kernel} {g g' g'' : Ghost} {r : Nat}

theorem refl (inv : KernelInv K A s g) : Extended K A s g s g r where
  inv := inv
  spaces := rfl
  used := ⟨[], rfl, fun f => by simp⟩
  keeps := id
  added := fun place vacant => by simp [vacant] at place
  outside := fun _ _ => rfl

theorem trans (first : Extended K A s g s' g' r) (second : Extended K A s' g' s'' g'' r) :
    Extended K A s g s'' g'' r where
  inv := second.inv
  spaces := second.spaces.trans first.spaces
  used := by
    obtain ⟨a, freeA, newA⟩ := first.used
    obtain ⟨b, freeB, newB⟩ := second.used
    refine ⟨a ++ b, by rw [freeA, freeB, List.append_assoc], fun f => ?_⟩
    rw [List.mem_append, newA, newB]
    constructor
    · rintro (⟨vacant, owned⟩ | ⟨vacant, owned⟩)
      · obtain ⟨x, place⟩ := Option.ne_none_iff_exists'.mp owned
        exact ⟨vacant, by simp [second.keeps place]⟩
      · refine ⟨?_, owned⟩
        by_contra old
        obtain ⟨x, place⟩ := Option.ne_none_iff_exists'.mp old
        simp [first.keeps place] at vacant
    · rintro ⟨vacant, owned⟩
      by_cases mid : g'.owner f = none
      · exact Or.inr ⟨mid, owned⟩
      · exact Or.inl ⟨vacant, mid⟩
  keeps := fun place => second.keeps (first.keeps place)
  added := by
    intro t x place vacant
    by_cases mid : g'.owner t = none
    · exact second.added place mid
    · obtain ⟨y, place'⟩ := Option.ne_none_iff_exists'.mp mid
      cases (second.keeps place').symm.trans place
      exact first.added place' vacant
  outside := by
    intro x away
    rw [second.outside x away]
    exact first.outside x fun t p place => away t p (second.keeps place)

/-- The tables of the other trees keep their contents. -/
theorem agree (extended : Extended K A s g s' g' r) {t r' : Nat} {p : List Nat} (place : g.owner t = some (r', p))
    (other : r' ≠ r) : Agree s.mem s'.mem t 4096 := by
  intro o inside
  refine extended.outside _ fun t' p' owned => ?_
  have place' := extended.keeps place
  have page := extended.inv.page place'
  have page' := extended.inv.page owned
  have differ : t ≠ t' := by
    rintro rfl
    exact other (Prod.mk.inj (Option.some.inj (place'.symm.trans owned))).1
  omega

/-- Data stays data while a tree grows. -/
theorem data (extended : Extended K A s g s' g' r) {f : Nat} (data : g.Data A f) : g'.Data A f := by
  obtain ⟨used, free, new⟩ := extended.used
  refine ⟨data.frame, fun member => data.live (free ▸ List.mem_append_right _ member), ?_⟩
  by_contra owned
  exact data.live (free ▸ List.mem_append_left _ ((new f).mpr ⟨data.notTable, owned⟩))

/-- Data keeps its bytes while a tree grows. -/
theorem agree_data (extended : Extended K A s g s' g' r) {f : Nat} (data : g.Data A f) : Agree s.mem s'.mem f 4096 := by
  intro o inside
  refine extended.outside _ fun t p owned => ?_
  have page := extended.inv.page owned
  have differ := Radix.ne_of_owned (extended.data data).notTable owned
  have aligned := data.frame.aligned
  omega

end Extended

namespace Grown
variable {K : KernelImage} {A : Arena} {s s' s'' : Kernel} {g g' g'' : Ghost} {r : Nat}

theorem refl (inv : KernelInv K A s g) : Grown K A s g s g r := ⟨.refl inv, fun _ => rfl⟩

theorem trans (first : Grown K A s g s' g' r) (second : Grown K A s' g' s'' g'' r) : Grown K A s g s'' g'' r :=
  ⟨first.toExtended.trans second.toExtended,
    fun key => (second.pages (by rw [first.spaces]; exact key)).trans (first.pages key)⟩

end Grown

section resolve
variable {K : KernelImage} {A : Arena} {s s' : Kernel} {g : Ghost} {t r i c : Nat} {p : List Nat}

theorem frameOf_table {e f : Nat} {user : Bool} (aligned : f % 4096 = 0) (eq : e = f + entryBits user) : e / 4096 * 4096 = f := by
  have small := entryBits_lt user
  omega

theorem nextTable_link {q a f : Nat} {user : Bool} (at_entry : window q 8 = .ok a) (aligned : f % 4096 = 0)
    (entry : read64 s.mem a = f + entryBits user) : nextTable s q = .ok (some (linearAddressToPtr f), s) := by
  have load : s.load64 q = .ok (f + entryBits user) := by
    rw [Kernel.load64, Kernel.load, at_entry, ← entry]
    rfl
  simp only [nextTable, load, Outcome.ok_bind, big_entry aligned, present_entry aligned, if_true,
    Outcome.pure_eq_ok, frameOf_table aligned rfl, Bool.false_eq_true, if_false]

/-- The walk stops above a large page. -/
theorem nextTable_big {q a : Nat} (at_entry : window q 8 = .ok a) (large : big (read64 s.mem a) = true) :
    nextTable s q = .ok (none, s) := by
  have load : s.load64 q = .ok (read64 s.mem a) := by
    rw [Kernel.load64, Kernel.load, at_entry]
    rfl
  simp only [nextTable, load, Outcome.ok_bind, large, if_true, Outcome.pure_eq_ok]

/-- A link that is there is followed. -/
theorem nextTable_child (inv : KernelInv K A s g) (place : g.owner t = some (r, p))
    (below : p.length < (shape K g.spaces).height r) (slot : (shape K g.spaces).slot r p i)
    (child : childTable s.mem t i = some c) :
    nextTable s (linearAddressToPtr t + 8 * i) = .ok (some (linearAddressToPtr c), s) := by
  rcases inv.link place below slot with zero | ⟨f, aligned, room, eq⟩
  · cases (childTable_zero zero).symm.trans child
  · cases (childTable_entry aligned room eq).symm.trans child
    exact nextTable_link (inv.entry_window place slot.1) aligned eq

/-- The bookkeeping after the next free frame has become a table. -/
def Ghost.withTable (g : Ghost) (rest : List Nat) (c r : Nat) (p : List Nat) : Ghost :=
  { g with free := rest, owner := Function.update g.owner c (some (r, p)) }

theorem Ghost.has_withTable {g : Ghost} {rest : List Nat} (unowned : g.owner c = none) (q : List Nat) :
    (g.withTable rest c r p).Has r q ↔ g.Has r q ∨ q = p := by
  constructor
  · rintro ⟨t, owned⟩
    rcases Radix.owned_or_added owned with ⟨-, pair⟩ | ⟨-, owned⟩
    · exact Or.inr (Prod.mk.inj pair).2
    · exact Or.inl ⟨t, owned⟩
  · rintro (⟨t, owned⟩ | rfl)
    · exact ⟨t, Radix.owned_update unowned owned⟩
    · exact ⟨c, Function.update_self ..⟩

/-- A link that is missing takes the next free frame. -/
theorem nextTable_vacant (inv : KernelInv K A s g) (place : g.owner t = some (r, p))
    (below : p.length < (shape K g.spaces).height r) (slot : (shape K g.spaces).slot r p i)
    (vacant : childTable s.mem t i = none) {rest : List Nat} (free : g.free = c :: rest) :
    ∃ s', nextTable s (linearAddressToPtr t + 8 * i) = .ok (some (linearAddressToPtr c), s') ∧
      Grown K A s g s' (g.withTable rest c r (i :: p)) r := by
  have tPage := inv.page place
  have absent : word s.mem t i = 0 := (inv.link place below slot).isEntry.eq_zero (Option.map_eq_none_iff.mp vacant)
  have data := inv.data_of_free free
  have frame := data.frame
  have unowned : g.owner c = none := data.notTable
  obtain ⟨s₁, alloc, mem₁, inv₁⟩ := inv.frameAllocZero_take free
  -- Zeroing the new frame touches no table.
  have clear {q} (aligned : q % 4096 = 0) (different : q ≠ c) : Agree s.mem s₁.mem q 4096 := by
    intro o inside
    have := frame.aligned
    rw [mem₁, memset_outside 0 (by omega)]
  have differ {t' x} (owned : g.owner t' = some x) : t' ≠ c := Radix.ne_of_owned unowned owned
  have zero : ∀ j < 512, word s₁.mem c j = 0 := fun j bound => readLE_zero_bytes fun o inside => by
    rw [mem₁, Nat.add_assoc]
    exact memset_inside 0 (by omega)
  have vacant₁ : word s₁.mem t i = 0 := by rw [word_congr (clear tPage.1 (differ place)) slot.1, absent]
  have inv₂ := inv₁.addLink place below slot vacant₁ data zero
  have fits : c + entryBits true < 2 ^ 64 := by
    have := entryBits_lt true
    have := frame.room
    omega
  have load (s : Kernel) : s.load64 (linearAddressToPtr t + 8 * i) = .ok (word s.mem t i) := by
    simp only [Kernel.load64, Kernel.load, inv.entry_window place slot.1, Outcome.ok_bind, Outcome.pure_eq_ok]
  refine ⟨{ s₁ with mem := write64 s₁.mem (t + 8 * i) (c + entryBits true) }, ?_,
    ⟨inv₂, rfl, ⟨[c], free, fun f => ?_⟩, Radix.owned_update unowned, fun owned old => ?_, fun x away => ?_⟩,
    fun {r' p' j} key => ?_⟩
  · have room := frame.room
    simp only [nextTable, load, Outcome.ok_bind, absent, show big 0 = false from rfl, show present 0 = false from rfl,
      Bool.false_eq_true, if_false, alloc, fillEntry_eq true (inv.entry_window place slot.1) frame.aligned (by omega),
      Outcome.pure_eq_ok, word_write64_self fits, frameOf_table frame.aligned rfl]
  · rw [List.mem_singleton]
    constructor
    · rintro rfl
      exact ⟨unowned, by simp [Ghost.withTable]⟩
    · rintro ⟨old, owned⟩
      by_contra other
      exact owned ((Function.update_of_ne other ..).trans old)
  · rcases Radix.owned_or_added owned with ⟨-, rfl⟩ | ⟨-, owned⟩
    · rfl
    · cases old.symm.trans owned
  · have offT := away t p (Radix.owned_update unowned place)
    have offC := away c (i :: p) (Function.update_self ..)
    have := slot.1
    show write64 s₁.mem (t + 8 * i) (c + entryBits true) x = s.mem x
    rw [write64_outside (by omega), mem₁, memset_outside 0 (by omega)]
  · refine inv.forest.lookup_eq_of_extends inv₂.forest j key.root key.path key.root key.path (fun t' owned => ?_)
      fun t' owned old => ?_
    · have notT : t' ≠ t := by
        rintro rfl
        obtain ⟨rfl, rfl⟩ := Prod.mk.inj (Option.some.inj (owned.symm.trans place))
        exact absurd key.depth below.ne
      refine ⟨Radix.owned_update unowned owned, ?_⟩
      rw [leafPage, leafPage, inv₁.word_store place slot.1 (inv.page owned).1 key.bound fun same => absurd same notT,
        word_congr (clear (inv.page owned).1 (differ owned)) key.bound]
    · rcases Radix.owned_or_added owned with ⟨rfl, -⟩ | ⟨-, owned⟩
      · rw [leafPage, inv₁.word_store place slot.1 frame.aligned key.bound fun same => absurd same.symm (differ place),
          zero j key.bound, entryPage_zero]
      · exact absurd owned old

theorem nextTable_panic (inv : KernelInv K A s g) (place : g.owner t = some (r, p))
    (below : p.length < (shape K g.spaces).height r) (slot : (shape K g.spaces).slot r p i)
    (vacant : childTable s.mem t i = none) (exhausted : g.free = []) :
    nextTable s (linearAddressToPtr t + 8 * i) = .error .panic := by
  have absent : word s.mem t i = 0 := (inv.link place below slot).isEntry.eq_zero (Option.map_eq_none_iff.mp vacant)
  have load : s.load64 (linearAddressToPtr t + 8 * i) = .ok (word s.mem t i) := by
    simp only [Kernel.load64, Kernel.load, inv.entry_window place slot.1, Outcome.ok_bind, Outcome.pure_eq_ok]
  have panic := FreeFrames.frameAllocZero_nil (exhausted ▸ inv.stack)
  simp only [nextTable, load, Outcome.ok_bind, absent, show big 0 = false from rfl, show present 0 = false from rfl,
    Bool.false_eq_true, if_false, panic, Outcome.error_bind]

/-- The tables that a walk passes below a table at path `p`, and the last of them. -/
def stations (v : Nat) : Nat → List Nat → List (List Nat)
  | 0, _ => []
  | level + 1, p => (index (level + 1) v :: p) :: stations v level (index (level + 1) v :: p)

def leafPath (v : Nat) : Nat → List Nat → List Nat
  | 0, p => p
  | level + 1, p => leafPath v level (index (level + 1) v :: p)

open Classical in
/-- How many of the given places of a tree have no table yet. -/
noncomputable def missing (g : Ghost) (r : Nat) (places : List (List Nat)) : Nat :=
  places.countP fun p => ¬g.Has r p

theorem length_lt_of_mem_stations {v level : Nat} {p q : List Nat} (member : q ∈ stations v level p) :
    p.length < q.length := by
  induction level generalizing p with
  | zero => cases member
  | succ level ih =>
    rcases List.mem_cons.mp member with rfl | deeper
    · exact Nat.lt_succ_self _
    · exact (Nat.lt_succ_self _).trans (ih deeper)

theorem missing_cons_of_has {g : Ghost} {places : List (List Nat)} (has : g.Has r p) :
    missing g r (p :: places) = missing g r places := by
  simp [missing, has]

theorem missing_cons_of_not {g : Ghost} {places : List (List Nat)} (vacant : ¬g.Has r p) :
    missing g r (p :: places) = missing g r places + 1 := by
  simp [missing, vacant]

theorem missing_congr {g g' : Ghost} {places : List (List Nat)} (same : ∀ q ∈ places, g'.Has r q ↔ g.Has r q) :
    missing g' r places = missing g r places :=
  List.countP_congr fun q member => by simp [same q member]

/-- A table that is new at a path fills no place further down. -/
theorem missing_withTable (rest : List Nat) (unowned : g.owner c = none) (r v level i : Nat) (p : List Nat) :
    missing (g.withTable rest c r (i :: p)) r (stations v level (i :: p)) = missing g r (stations v level (i :: p)) :=
  missing_congr fun q member => by
    have longer := length_lt_of_mem_stations member
    rw [Ghost.has_withTable unowned, or_iff_left fun eq => by simp [eq] at longer]

/-- A place whose link is missing has no table. -/
theorem KernelInv.not_has (inv : KernelInv K A s g) (place : g.owner t = some (r, p))
    (vacant : childTable s.mem t i = none) : ¬g.Has r (i :: p) := by
  rintro ⟨c, owned⟩
  obtain ⟨t', place', -, link⟩ := inv.forest.owner_child owned
  rw [inv.forest.node_unique place' place, vacant] at link
  cases link

/-- Resolving takes exactly the tables that are missing on the way, and ends at the entry
for the page. -/
theorem resolveFrom_grown {v level : Nat} (inv : KernelInv K A s g) (place : g.owner t = some (r, p))
    (depth : p.length + level = (shape K g.spaces).height r)
    (slot : level ≠ 0 → (shape K g.spaces).slot r p (index level v))
    (enough : missing g r (stations v level p) ≤ g.free.length) :
    ∃ t' s' g', resolveFrom s level (linearAddressToPtr t) v = .ok (linearAddressToPtr t' + 8 * index 0 v, s') ∧
      Grown K A s g s' g' r ∧ g'.owner t' = some (r, leafPath v level p) ∧
      g.free.length = g'.free.length + missing g r (stations v level p) ∧
      ∀ q, g'.Has r q ↔ g.Has r q ∨ q ∈ stations v level p := by
  induction level generalizing s g t p with
  | zero => exact ⟨t, s, g, rfl, .refl inv, place, rfl, fun q => by simp [stations]⟩
  | succ level ih =>
    have here := slot (by omega)
    have below : p.length < (shape K g.spaces).height r := by omega
    have next {spaces} : (shape K spaces).slot r (index (level + 1) v :: p) (index level v) :=
      ⟨index_lt _ _, nofun⟩
    simp only [stations] at enough ⊢
    cases child : childTable s.mem t (index (level + 1) v) with
    | some c =>
      have owned := inv.forest.child_owner place below here child
      have has : g.Has r (index (level + 1) v :: p) := ⟨c, owned⟩
      rw [missing_cons_of_has has] at enough ⊢
      obtain ⟨t', s', g', run, grown, last, count, places⟩ := ih inv owned (by simp; omega) (fun _ => next) enough
      refine ⟨t', s', g', ?_, grown, last, count, fun q => ?_⟩
      · simp only [resolveFrom, nextTable_child inv place below here child, Outcome.ok_bind, run]
      · rw [places, List.mem_cons]
        constructor
        · exact Or.imp_right Or.inr
        · rintro (old | rfl | deeper)
          · exact Or.inl old
          · exact Or.inl has
          · exact Or.inr deeper
    | none =>
      have hasNot := inv.not_has place child
      rw [missing_cons_of_not hasNot] at enough ⊢
      obtain ⟨c, rest, free⟩ : ∃ c rest, g.free = c :: rest := List.exists_cons_of_length_pos (by omega)
      obtain ⟨s₁, step, grown₁⟩ := nextTable_vacant inv place below here child free
      let g₁ := g.withTable rest c r (index (level + 1) v :: p)
      have unowned : g.owner c = none := (inv.data_of_free free).notTable
      have same : missing g₁ r (stations v level (index (level + 1) v :: p)) = _ :=
        missing_withTable rest unowned r v level (index (level + 1) v) p
      have length : g.free.length = g₁.free.length + 1 := by
        rw [free, List.length_cons]
        rfl
      obtain ⟨t', s', g', run, grown, last, count, places⟩ := ih grown₁.inv (Function.update_self ..)
        (by simp only [List.length_cons]; show _ = (shape K g.spaces).height r; omega) (fun _ => next)
        (show missing g₁ r _ ≤ g₁.free.length by omega)
      refine ⟨t', s', g', ?_, grown₁.trans grown, last, ?_, fun q => ?_⟩
      · simp only [resolveFrom, step, Outcome.ok_bind, run]
      · rw [show g'.free.length + (missing g r _ + 1) = g'.free.length + missing g r _ + 1 from rfl, ← same, ← count, length]
      · rw [places, Ghost.has_withTable unowned, List.mem_cons, or_assoc]

/-- Resolving panics when more tables are missing than frames are free. -/
theorem resolveFrom_panic {v level : Nat} (inv : KernelInv K A s g) (place : g.owner t = some (r, p))
    (depth : p.length + level = (shape K g.spaces).height r)
    (slot : level ≠ 0 → (shape K g.spaces).slot r p (index level v))
    (short : g.free.length < missing g r (stations v level p)) :
    resolveFrom s level (linearAddressToPtr t) v = .error .panic := by
  induction level generalizing s g t p with
  | zero => exact absurd short (Nat.not_lt_zero _)
  | succ level ih =>
    have here := slot (by omega)
    have below : p.length < (shape K g.spaces).height r := by omega
    have next {spaces} : (shape K spaces).slot r (index (level + 1) v :: p) (index level v) :=
      ⟨index_lt _ _, nofun⟩
    simp only [stations] at short
    cases child : childTable s.mem t (index (level + 1) v) with
    | some c =>
      have owned := inv.forest.child_owner place below here child
      rw [missing_cons_of_has ⟨c, owned⟩] at short
      simp only [resolveFrom, nextTable_child inv place below here child, Outcome.ok_bind,
        ih inv owned (by simp; omega) (fun _ => next) short]
    | none =>
      rw [missing_cons_of_not (inv.not_has place child)] at short
      cases free : g.free with
      | nil => simp only [resolveFrom, nextTable_panic inv place below here child free, Outcome.error_bind]
      | cons c rest =>
        obtain ⟨s₁, step, grown⟩ := nextTable_vacant inv place below here child free
        have unowned : g.owner c = none := (inv.data_of_free free).notTable
        have same := missing_withTable rest unowned r v level (index (level + 1) v) p
        have length : g.free.length = (g.withTable rest c r (index (level + 1) v :: p)).free.length + 1 := by
          rw [free, List.length_cons]
          rfl
        have panic := ih grown.inv (Function.update_self ..)
          (by simp only [List.length_cons]; show _ = (shape K g.spaces).height r; omega) (fun _ => next) (by omega)
        simp only [resolveFrom, step, Outcome.ok_bind, panic]

end resolve

end MetalToApp

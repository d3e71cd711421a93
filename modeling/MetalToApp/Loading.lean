import MetalToApp.Elf
import MetalToApp.Walk

namespace MetalToApp
open ByteMemory Paging

/-- The byte at `x` is neither in a table of the tree of `r` nor in one of the next `n`
frames that the allocator will hand out. -/
structure Ghost.Apart (g : Ghost) (r n x : Nat) : Prop where
  table : ∀ t p, g.owner t = some (r, p) → x < t ∨ t + 4096 ≤ x
  free : ∀ f ∈ g.free.take n, x < f ∨ f + 4096 ≤ x

theorem Ghost.Apart.mono {g : Ghost} {r n k x : Nat} (apart : g.Apart r n x) (fewer : k ≤ n) : g.Apart r k x where
  table := apart.table
  free := fun f member => apart.free f (List.take_subset_take_left _ fewer member)

/-- The next `n` free frames have been taken for tables in the tree of `r` and for data, and
nothing has been written but these frames and the tables of this tree. -/
structure Built (K : KernelImage) (A : Arena) (s : Kernel) (g : Ghost) (s' : Kernel) (g' : Ghost) (r n : Nat) : Prop where
  inv : KernelInv K A s' g'
  spaces : g'.spaces = g.spaces
  enough : n ≤ g.free.length
  rest : g'.free = g.free.drop n
  keeps : ∀ {t x}, g.owner t = some x → g'.owner t = some x
  added : ∀ {t x}, g'.owner t = some x → g.owner t = none → t ∈ g.free.take n ∧ x.1 = r
  outside : ∀ {x}, g.Apart r n x → s'.mem x = s.mem x

theorem Extended.built {K : KernelImage} {A : Arena} {s s' : Kernel} {g g' : Ghost} {r n : Nat}
    (extended : Extended K A s g s' g' r) (count : g.free.length = g'.free.length + n) : Built K A s g s' g' r n := by
  obtain ⟨used, free, new⟩ := extended.used
  have length : used.length = n := by
    rw [free, List.length_append] at count
    omega
  have fresh {t x} (place : g'.owner t = some x) (vacant : g.owner t = none) : t ∈ g.free.take n := by
    rw [free, ← length, List.take_left]
    exact (new t).mpr ⟨vacant, by simp [place]⟩
  refine ⟨extended.inv, extended.spaces, by omega, ?_, extended.keeps,
    fun place vacant => ⟨fresh place vacant, extended.added place vacant⟩, fun {x} apart => ?_⟩
  · rw [free, ← length, List.drop_left]
  · refine extended.outside x fun t p place => ?_
    by_cases vacant : g.owner t = none
    · exact apart.free t (fresh place vacant)
    · obtain ⟨y, old⟩ := Option.ne_none_iff_exists'.mp vacant
      cases (extended.keeps old).symm.trans place
      exact apart.table t p old

namespace Built
variable {K : KernelImage} {A : Arena} {s s' s'' : Kernel} {g g' g'' : Ghost} {r c x n k : Nat}

theorem refl (inv : KernelInv K A s g) : Built K A s g s g r 0 where
  inv := inv
  spaces := rfl
  enough := Nat.zero_le _
  rest := rfl
  keeps := id
  added := fun place vacant => by simp [vacant] at place
  outside := fun _ => rfl

theorem count (built : Built K A s g s' g' r n) : g.free.length = g'.free.length + n := by
  have enough := built.enough
  rw [built.rest, List.length_drop]
  omega

theorem free_subset (built : Built K A s g s' g' r n) {f : Nat} (member : f ∈ g'.free) : f ∈ g.free :=
  List.mem_of_mem_drop (built.rest ▸ member)

/-- The frames taken later are the next ones in order. -/
theorem take_subset (built : Built K A s g s' g' r n) {f : Nat} (member : f ∈ g'.free.take k) : f ∈ g.free.take (n + k) := by
  rw [built.rest, List.take_drop] at member
  exact List.mem_of_mem_drop member

theorem apart (built : Built K A s g s' g' r n) (apart : g.Apart r (n + k) x) : g'.Apart r k x where
  table := by
    intro t p place
    by_cases vacant : g.owner t = none
    · exact (apart.mono (Nat.le_add_right n k)).free t (built.added place vacant).1
    · obtain ⟨y, old⟩ := Option.ne_none_iff_exists'.mp vacant
      cases (built.keeps old).symm.trans place
      exact apart.table t p old
  free := fun f member => apart.free f (built.take_subset member)

theorem trans (first : Built K A s g s' g' r n) (second : Built K A s' g' s'' g'' r k) :
    Built K A s g s'' g'' r (n + k) where
  inv := second.inv
  spaces := second.spaces.trans first.spaces
  enough := by
    have whole := first.count
    have part := second.enough
    omega
  rest := by rw [second.rest, first.rest, List.drop_drop]
  keeps := fun place => second.keeps (first.keeps place)
  added := by
    intro t x place vacant
    by_cases mid : g'.owner t = none
    · obtain ⟨free, tree⟩ := second.added place mid
      exact ⟨first.take_subset free, tree⟩
    · obtain ⟨y, place'⟩ := Option.ne_none_iff_exists'.mp mid
      cases (second.keeps place').symm.trans place
      obtain ⟨free, tree⟩ := first.added place' vacant
      exact ⟨List.take_subset_take_left _ (Nat.le_add_right n k) free, tree⟩
  outside := fun away => (second.outside (first.apart away)).trans (first.outside (away.mono (Nat.le_add_right n k)))

/-- Data stays data. -/
theorem data (built : Built K A s g s' g' r n) {f : Nat} (data : g.Data A f) : g'.Data A f := by
  refine ⟨data.frame, fun member => data.live (built.free_subset member), ?_⟩
  by_contra owned
  obtain ⟨x, place⟩ := Option.ne_none_iff_exists'.mp owned
  exact data.live (List.mem_of_mem_take (built.added place data.notTable).1)

theorem apart_data (inv : KernelInv K A s g) {f o : Nat} (data : g.Data A f) (inside : o < 4096) :
    g.Apart r n (f + o) where
  table := fun t p place => by
    have apart := inv.ne_data data.frame data.notTable (Or.inl (by simp [place]) : g.owner t ≠ none ∨ _)
    have aligned := data.frame.aligned
    omega
  free := fun q member => by
    have free := List.mem_of_mem_take member
    have apart := (inv.stack.frame free).apart data.frame fun same => data.live (same ▸ free)
    omega

/-- Data keeps its bytes. -/
theorem agree_data (built : Built K A s g s' g' r n) (inv : KernelInv K A s g) {f : Nat} (data : g.Data A f) :
    Agree s.mem s'.mem f 4096 := fun _ inside => built.outside (apart_data inv data inside)

/-- The tables of the other trees keep their contents. -/
theorem agree (built : Built K A s g s' g' r n) (inv : KernelInv K A s g) {t r' : Nat} {p : List Nat}
    (place : g.owner t = some (r', p)) (other : r' ≠ r) : Agree s.mem s'.mem t 4096 := by
  intro o inside
  have page := inv.page place
  refine built.outside ⟨fun t' p' place' => ?_, fun f member => ?_⟩
  · have page' := inv.page place'
    have differ : t ≠ t' := by
      rintro rfl
      exact other (Prod.mk.inj (Option.some.inj (place.symm.trans place'))).1
    omega
  · have free := List.mem_of_mem_take member
    have aligned := (inv.stack.frame free).aligned
    have differ : t ≠ f := by
      rintro rfl
      exact inv.not_free place free
    omega

/-- Taking the next free frame for data. -/
theorem take (inv : KernelInv K A s g) {rest : List Nat} (free : g.free = c :: rest) (stack : FreeFrames A s' rest)
    (outside : ∀ x, x < c ∨ c + 4096 ≤ x → s'.mem x = s.mem x) : Built K A s g s' { g with free := rest } r 1 where
  inv := inv.take free stack outside
  spaces := rfl
  enough := by
    rw [free, List.length_cons]
    omega
  rest := by
    rw [free]
    rfl
  keeps := id
  added := fun place vacant => by simp [vacant] at place
  outside := fun apart => outside _ (apart.free c (by simp [free]))

/-- Writing to a page of data that was free before. -/
theorem write (built : Built K A s g s' g' r n) (data : g'.Data A c) (fresh : c ∈ g.free.take n) {m : Memory}
    (outside : ∀ x, x < c ∨ c + 4096 ≤ x → m x = s'.mem x) : Built K A s g { s' with mem := m } g' r n where
  inv := built.inv.write_data data outside
  spaces := built.spaces
  enough := built.enough
  rest := built.rest
  keeps := built.keeps
  added := built.added
  outside := fun apart => (outside _ (apart.free c fresh)).trans (built.outside apart)

end Built

/-- Pages with contents, by their numbers. -/
def Pages : Type := Nat → Option (Nat → UInt8)

/-- Later pages lie over earlier ones. -/
def Pages.overlay (later earlier : Pages) : Pages := fun p => (later p).or (earlier p)

/-- The pages have been put into the address space `r`, each in a frame that was free. -/
structure Loaded (K : KernelImage) (A : Arena) (s : Kernel) (g : Ghost) (s' : Kernel) (g' : Ghost) (r : Nat)
    (n : Nat) (pages : Pages) : Prop extends Built K A s g s' g' r n where
  page : ∀ {v b}, v < 2 ^ 47 → pages (v / 4096) = some b → ∃ f ∈ g.free.take n, g'.Data A f ∧
    pageAt s'.mem r (pageKey v) = some (f, true) ∧ ∀ o < 4096, s'.mem (f + o) = b o
  others : ∀ {r' p i}, LeafKey K g.spaces r' p i →
    (r' = r → ∀ v < 2 ^ 47, i :: p = pageKey v → pages (v / 4096) = none) →
    pageAt s'.mem r' (i :: p) = pageAt s.mem r' (i :: p)

namespace Loaded
variable {K : KernelImage} {A : Arena} {s s' s'' : Kernel} {g g' g'' : Ghost} {r n k : Nat} {pages later : Pages}

theorem refl (inv : KernelInv K A s g) : Loaded K A s g s g r 0 fun _ => none where
  toBuilt := .refl inv
  page := fun _ found => nomatch found
  others := fun _ _ => rfl

theorem trans (first : Loaded K A s g s' g' r n pages) (second : Loaded K A s' g' s'' g'' r k later) (space : g.spaces r)
    (inv : KernelInv K A s g) : Loaded K A s g s'' g'' r (n + k) (later.overlay pages) where
  toBuilt := first.toBuilt.trans second.toBuilt
  page := by
    intro v b low found
    rw [Pages.overlay, Option.or_eq_some_iff] at found
    rcases found with found | ⟨untouched, found⟩
    · obtain ⟨f, free, rest⟩ := second.page low found
      exact ⟨f, first.take_subset free, rest⟩
    · obtain ⟨f, free, data, mapped, bytes⟩ := first.page low found
      have key := leafKey_of_space inv space (index_three_of_lower low)
      rw [← first.spaces] at key
      refine ⟨f, List.take_subset_take_left _ (Nat.le_add_right n k) free, second.data data, ?_, fun o inside => ?_⟩
      · rw [← mapped]
        refine second.others key fun _ w low' same => ?_
        have samePage := pageKey_eq_iff.mp same
        rw [← untouched]
        congr 1
        omega
      · rw [← bytes o inside]
        exact second.agree_data first.inv data o inside
  others := by
    intro r' p i key away
    have key' := key
    rw [← first.spaces] at key'
    rw [second.others key' fun same v low eq => (Option.or_eq_none_iff.mp (away same v low eq)).1]
    exact first.others key fun same v low eq => (Option.or_eq_none_iff.mp (away same v low eq)).2

end Loaded

/-- Consecutive pages that hold the bytes given by their addresses. -/
def Pages.range (first count : Nat) (byte : Nat → UInt8) : Pages :=
  fun p => if first ≤ p ∧ p < first + count then some fun o => byte (4096 * p + o) else none

theorem Pages.range_zero (first : Nat) (byte : Nat → UInt8) : range first 0 byte = fun _ => none :=
  funext fun p => if_neg (by omega)

theorem Pages.range_overlay {first n : Nat} {byte byte' : Nat → UInt8} (same : ∀ x, 4096 * (first + 1) ≤ x → byte' x = byte x) :
    (range (first + 1) n byte').overlay (range first 1 byte) = range first (n + 1) byte := by
  funext p
  by_cases later : first + 1 ≤ p ∧ p < first + 1 + n
  · have bytes : (fun o => byte' (4096 * p + o)) = fun o => byte (4096 * p + o) :=
      funext fun o => same _ (by omega)
    rw [overlay, range, if_pos later, Option.some_or, bytes, range, if_pos (by omega)]
  · rw [overlay, range, if_neg later, Option.none_or, range, range]
    by_cases here : p = first
    · rw [if_pos (by omega), if_pos (by omega)]
    · rw [if_neg (by omega), if_neg (by omega)]

/-- A segment's bytes in memory: `filesz` bytes of the file, and zeros after them. -/
def segmentByte (m : Memory) (src vaddr filesz x : Nat) : UInt8 :=
  if vaddr ≤ x ∧ x < vaddr + filesz then m (src + (x - vaddr)) else 0

theorem segmentByte_congr {m m' : Memory} {src vaddr filesz : Nat} (same : ∀ k < filesz, m' (src + k) = m (src + k)) (x : Nat) :
    segmentByte m' src vaddr filesz x = segmentByte m src vaddr filesz x := by
  unfold segmentByte
  split
  · exact same _ (by omega)
  · rfl

theorem segmentByte_next {vaddr filesz x : Nat} (m : Memory) (src : Nat) (beyond : vaddr - vaddr % 0x1000 + 0x1000 ≤ x) :
    segmentByte m (src + min filesz (4096 - vaddr % 0x1000)) (vaddr - vaddr % 0x1000 + 0x1000)
      (filesz - min filesz (4096 - vaddr % 0x1000)) x = segmentByte m src vaddr filesz x := by
  unfold segmentByte
  by_cases inside : vaddr ≤ x ∧ x < vaddr + filesz
  · have source : src + min filesz (4096 - vaddr % 0x1000) + (x - (vaddr - vaddr % 0x1000 + 0x1000)) = src + (x - vaddr) := by
      omega
    rw [if_pos inside, if_pos (by omega), source]
  · rw [if_neg inside, if_neg (by omega)]

/-- The frames that mapping the given pages takes when the tables at `known` are there. -/
def framesNeeded (known : List (List Nat)) : List Nat → Nat
  | [] => 0
  | v :: rest => 1 + (stations v 3 []).countP (· ∉ known) + framesNeeded (stations v 3 [] ++ known) rest

/-- The places of the tables after that. -/
def placesAfter (known : List (List Nat)) : List Nat → List (List Nat)
  | [] => known
  | v :: rest => placesAfter (stations v 3 [] ++ known) rest

theorem placesAfter_append (known : List (List Nat)) (a b : List Nat) :
    placesAfter known (a ++ b) = placesAfter (placesAfter known a) b := by
  induction a generalizing known with
  | nil => rfl
  | cons v rest ih => exact ih _

theorem framesNeeded_append (known : List (List Nat)) (a b : List Nat) :
    framesNeeded known (a ++ b) = framesNeeded known a + framesNeeded (placesAfter known a) b := by
  induction a generalizing known with
  | nil => exact (Nat.zero_add _).symm
  | cons v rest ih => rw [List.cons_append, framesNeeded, ih, framesNeeded, placesAfter, ← Nat.add_assoc]

/-- The bookkeeping has a table at just these places of the tree. -/
def Ghost.Knows (g : Ghost) (r : Nat) (known : List (List Nat)) : Prop := ∀ q, g.Has r q ↔ q ∈ known

theorem Ghost.Knows.missing {g : Ghost} {r : Nat} {known : List (List Nat)} (knows : g.Knows r known)
    (places : List (List Nat)) : MetalToApp.missing g r places = places.countP (· ∉ known) :=
  List.countP_congr fun q _ => by simp [knows q]

section created
variable {K : KernelImage} {A : Arena} {s s' : Kernel} {g : Ghost} {c x : Nat} {rest : List Nat}

theorem Created.knows (made : Created K A s g s' c rest) (inv : KernelInv K A s g) :
    ({ g with free := rest }.withSpace c).Knows c [[]] := by
  intro q
  rw [List.mem_singleton]
  exact ⟨fun ⟨t, owned⟩ => ((made.owner_iff inv).mp owned).2, fun eq => ⟨c, (made.owner_iff inv).mpr ⟨rfl, eq⟩⟩⟩

/-- What the next frames do not hold is apart from a new space and what it takes. -/
theorem Created.apart (made : Created K A s g s' c rest) (inv : KernelInv K A s g)
    {n : Nat} (away : ∀ f ∈ g.free.take (n + 1), x < f ∨ f + 4096 ≤ x) :
    ({ g with free := rest }.withSpace c).Apart c n x where
  table := fun t p owned => by
    rw [((made.owner_iff inv).mp owned).1]
    exact away c (by simp [made.free])
  free := fun f member => away f (by
    rw [made.free, List.take_succ_cons]
    exact List.mem_cons_of_mem _ member)

end created

section page
variable {K : KernelImage} {A : Arena} {s s' : Kernel} {g : Ghost} {r n vaddr src memsz filesz : Nat}
  {known : List (List Nat)}

theorem toCopy_eq {off : Nat} (inside : off < 4096) (small : filesz < 2 ^ 63) :
    toCopy filesz off = min filesz (4096 - off) := by
  unfold toCopy
  split <;> omega

theorem pageKey_aligned (vaddr : Nat) : pageKey (vaddr - vaddr % 0x1000) = pageKey vaddr :=
  pageKey_eq_iff.mpr (by omega)

/-- A fresh frame has been mapped for the user under a key. -/
structure Mapped (K : KernelImage) (A : Arena) (s : Kernel) (g : Ghost) (s' : Kernel) (g' : Ghost) (r n : Nat)
    (key : List Nat) (c : Nat) : Prop extends Built K A s g s' g' r n where
  fresh : c ∈ g.free.take n
  data : g'.Data A c
  page : pageAt s'.mem r key = some (c, true)
  others : ∀ {r' p i}, LeafKey K g.spaces r' p i → (r' = r → i :: p ≠ key) →
    pageAt s'.mem r' (i :: p) = pageAt s.mem r' (i :: p)

/-- Writing to a page of data that was free before, such as the page itself. -/
theorem Mapped.write {c d v : Nat} {g' : Ghost} (mapped : Mapped K A s g s' g' r n (pageKey v) c) (space : g.spaces r)
    (top : index 3 v < 256) (data : g'.Data A d) (fresh : d ∈ g.free.take n) {m : Memory}
    (outside : ∀ x, x < d ∨ d + 4096 ≤ x → m x = s'.mem x) : Mapped K A s g { s' with mem := m } g' r n (pageKey v) c where
  toBuilt := mapped.toBuilt.write data fresh outside
  fresh := mapped.fresh
  data := mapped.data
  page := by
    rw [← mapped.page]
    exact pageAt_write_data mapped.inv data outside (leafKey_of_space mapped.inv (mapped.spaces ▸ space) top)
  others := by
    intro r' p i key away
    rw [← mapped.others key away]
    rw [← mapped.spaces] at key
    exact pageAt_write_data mapped.inv data outside key

theorem Mapped.loaded {c v : Nat} {g' : Ghost} {byte : Nat → UInt8} (mapped : Mapped K A s g s' g' r n (pageKey v) c)
    (low : v < 2 ^ 47) (bytes : ∀ o < 4096, s'.mem (c + o) = byte (4096 * (v / 4096) + o)) :
    Loaded K A s g s' g' r n (.range (v / 4096) 1 byte) where
  toBuilt := mapped.toBuilt
  page := by
    intro w b low' found
    rw [Pages.range] at found
    split at found
    · cases found
      have number : w / 4096 = v / 4096 := by omega
      refine ⟨c, mapped.fresh, mapped.data, ?_, fun o inside => ?_⟩
      · rw [pageKey_eq_iff.mpr (by omega : w / 4096 % 2 ^ 36 = v / 4096 % 2 ^ 36), mapped.page]
      · rw [bytes o inside, number]
    · cases found
  others := by
    intro r' p i key away
    refine mapped.others key fun same eq => ?_
    have untouched := away same v low eq
    rw [Pages.range, if_pos (by omega)] at untouched
    cases untouched

/-- Whatever the page holds, it is loaded. -/
theorem Mapped.loaded_as {c v : Nat} {g' : Ghost} (mapped : Mapped K A s g s' g' r n (pageKey v) c) (low : v < 2 ^ 47) :
    Loaded K A s g s' g' r n (.range (v / 4096) 1 fun x => s'.mem (c + x % 4096)) :=
  mapped.loaded low fun o inside => by
    congr 2
    omega

/-- A frame that has just been taken can be mapped. -/
theorem Built.map {s₁ : Kernel} {g₁ : Ghost} {c v : Nat} (built : Built K A s g s₁ g₁ r n) (inv : KernelInv K A s g)
    (space : g.spaces r) (top : index 3 v < 256) (owner : g₁.owner = g.owner)
    (same : ∀ t x, g.owner t = some x → Agree s.mem s₁.mem t 4096) (fresh : c ∈ g.free.take n) (data : g₁.Data A c)
    (enough : missing g r (stations v 3 []) ≤ g₁.free.length) :
    ∃ s' g', mmap s₁ (linearAddressToPtr r) c v true = .ok s' ∧
      Mapped K A s g s' g' r (n + missing g r (stations v 3 [])) (pageKey v) c ∧
      (∀ f, g₁.Data A f → g'.Data A f ∧ Agree s₁.mem s'.mem f 4096) ∧
      ∀ q, g'.Has r q ↔ g.Has r q ∨ q ∈ stations v 3 [] := by
  have has (q : List Nat) : g₁.Has r q ↔ g.Has r q := by rw [Ghost.Has, Ghost.Has, owner]
  have count : missing g₁ r (stations v 3 []) = missing g r (stations v 3 []) := missing_congr fun q _ => has q
  rw [← count] at enough ⊢
  obtain ⟨s', g', map, remapped, used, places⟩ := mmap_remapped true built.inv (built.spaces ▸ space) top data.frame.aligned
    data.frame.room enough
  have grown := remapped.toExtended.built used
  refine ⟨s', g', map, ⟨built.trans grown, List.take_subset_take_left _ (Nat.le_add_right _ _) fresh, remapped.data data,
    remapped.page, fun {r' p i} key away => ?_⟩, fun f data => ⟨remapped.data data, remapped.agree_data data⟩,
    fun q => by rw [places, has]⟩
  have key' := key
  rw [← built.spaces] at key'
  rw [remapped.others key' away]
  exact pageAt_congr inv built.inv built.spaces owner same key

/-- The frame that the next allocation yields can be mapped. -/
theorem mapZeroed {v : Nat} (inv : KernelInv K A s g) (space : g.spaces r) (top : index 3 v < 256)
    (enough : 1 + missing g r (stations v 3 []) ≤ g.free.length) :
    ∃ c s₁ s₂ g', g.free.head? = some c ∧ frameAllocZero s = .ok (c, s₁) ∧ mmap s₁ (linearAddressToPtr r) c v true = .ok s₂ ∧
      Mapped K A s g s₂ g' r (1 + missing g r (stations v 3 [])) (pageKey v) c ∧ (∀ o < 4096, s₂.mem (c + o) = 0) ∧
      ∀ q, g'.Has r q ↔ g.Has r q ∨ q ∈ stations v 3 [] := by
  obtain ⟨c, rest, free⟩ : ∃ c rest, g.free = c :: rest := List.exists_cons_of_length_pos (by omega)
  have length : g.free.length = rest.length + 1 := by rw [free, List.length_cons]
  have data := inv.data_of_free free
  obtain ⟨s₁, alloc, mem₁, inv₁⟩ := inv.frameAllocZero_take free
  have outside : ∀ x, x < c ∨ c + 4096 ≤ x → s₁.mem x = s.mem x := fun x away => by rw [mem₁, memset_outside 0 away]
  obtain ⟨s₂, g', map, mapped, kept, places⟩ := (Built.take inv free inv₁.stack outside).map inv space top rfl
    (fun t x place => inv.agree_tables data.frame data.notTable outside place) (by simp [free]) data
    (show missing g r (stations v 3 []) ≤ rest.length by omega)
  refine ⟨c, s₁, s₂, g', by rw [free, List.head?_cons], alloc, map, mapped, fun o inside => ?_, places⟩
  rw [(kept c data).2 o inside, mem₁, memset_inside 0 inside]

/-- One iteration of the loop puts one page into the address space. The page shows the file's
bytes if these lie apart from the frames it takes. -/
theorem copyPage_loaded (inv : KernelInv K A s g) (space : g.spaces r) (knows : g.Knows r known)
    (low : vaddr < 2 ^ 47) (small : filesz < 2 ^ 63) (room : src + filesz ≤ 2 ^ 39)
    (enough : framesNeeded known [vaddr - vaddr % 0x1000] ≤ g.free.length) :
    ∃ s' g', copyPage s (linearAddressToPtr r) vaddr (linearAddressToPtr src) filesz =
        .ok (linearAddressToPtr (src + toCopy filesz (vaddr % 0x1000)), filesz - toCopy filesz (vaddr % 0x1000), s') ∧
      g'.Knows r (placesAfter known [vaddr - vaddr % 0x1000]) ∧
      (∃ pages, Loaded K A s g s' g' r (framesNeeded known [vaddr - vaddr % 0x1000]) pages) ∧
      ((∀ k < filesz, g.Apart r (framesNeeded known [vaddr - vaddr % 0x1000]) (src + k)) →
        Loaded K A s g s' g' r (framesNeeded known [vaddr - vaddr % 0x1000])
          (.range (vaddr / 4096) 1 (segmentByte s.mem src vaddr filesz))) := by
  have value := toCopy_eq (Nat.mod_lt vaddr (by decide)) small
  obtain ⟨v, aligned⟩ : ∃ v, v = vaddr - vaddr % 0x1000 := ⟨_, rfl⟩
  obtain ⟨n, amount⟩ : ∃ n, n = toCopy filesz (vaddr % 0x1000) := ⟨_, rfl⟩
  have number : vaddr / 4096 = v / 4096 := by omega
  have top : index 3 v < 256 := index_three_of_lower (by omega)
  rw [← aligned] at enough ⊢
  rw [← amount] at value ⊢
  simp only [framesNeeded, placesAfter, Nat.add_zero] at enough ⊢
  rw [← knows.missing] at enough ⊢
  obtain ⟨c, s₁, s₂, g', -, alloc, map, mapped, zero, places⟩ := mapZeroed inv space top enough
  have room' := mapped.data.frame.room
  let m := memcpy s₂.mem (c + vaddr % 0x1000) src n
  have outside : ∀ x, x < c ∨ c + 4096 ≤ x → m x = s₂.mem x := fun x away => memcpy_outside (by omega)
  have run : copyPage s (linearAddressToPtr r) vaddr (linearAddressToPtr src) filesz =
      .ok (linearAddressToPtr (src + n), filesz - n, { s₂ with mem := m }) := by
    simp only [copyPage, alloc, Outcome.ok_bind, ← aligned, ← amount]
    rw [map, Outcome.ok_bind]
    by_cases more : n > 0
    · have target : window (linearAddressToPtr (c + vaddr % 0x1000)) n = .ok (c + vaddr % 0x1000) :=
        window_linear_zero (by omega) (by omega)
      have source : window (linearAddressToPtr src) n = .ok src := window_linear_zero (by omega) (by omega)
      have next : (linearAddressToPtr src + n) % 2 ^ 64 = linearAddressToPtr (src + n) := by
        unfold linearAddressToPtr
        omega
      rw [if_pos more, Kernel.memcpy, if_neg (by omega), target, Outcome.ok_bind, source, Outcome.ok_bind, Outcome.pure_eq_ok,
        Outcome.ok_bind, next, Outcome.pure_eq_ok]
    · have none : n = 0 := by omega
      rw [if_neg more]
      simp only [m, none, Nat.add_zero, Nat.sub_zero, memcpy, Outcome.pure_eq_ok]
  have written := mapped.write space top mapped.data mapped.fresh outside
  have low' : v < 2 ^ 47 := by omega
  rw [number]
  refine ⟨_, g', run, fun q => ?_, ⟨_, written.loaded_as low'⟩, fun apart => written.loaded low' fun o inside => ?_⟩
  · rw [places, List.mem_append, ← knows q, or_comm]
  · have page : 4096 * (v / 4096) = v := by omega
    show m (c + o) = segmentByte s.mem src vaddr filesz (4096 * (v / 4096) + o)
    rw [segmentByte, page]
    by_cases copied : vaddr % 0x1000 ≤ o ∧ o < vaddr % 0x1000 + n
    · have source : v + o - vaddr = o - vaddr % 0x1000 := by omega
      have target : c + o = c + vaddr % 0x1000 + (o - vaddr % 0x1000) := by omega
      rw [if_pos (by omega), source, ← mapped.outside (apart (o - vaddr % 0x1000) (by omega)), target]
      refine memcpy_inside (fun j bound => ?_) (by omega)
      have := (apart j (by omega)).free c mapped.fresh
      omega
    · rw [if_neg (by omega), ← zero o inside]
      exact memcpy_outside (by omega)

theorem copyPage_panic (inv : KernelInv K A s g) (space : g.spaces r) (knows : g.Knows r known)
    (top : g.free ≠ [] → index 3 (vaddr - vaddr % 0x1000) < 256)
    (short : g.free.length < framesNeeded known [vaddr - vaddr % 0x1000]) (src : Nat) :
    copyPage s (linearAddressToPtr r) vaddr src filesz = .error .panic := by
  simp only [framesNeeded, Nat.add_zero] at short
  rw [← knows.missing] at short
  cases free : g.free with
  | nil =>
    have panic := FreeFrames.frameAllocZero_nil (free ▸ inv.stack)
    simp only [copyPage, panic, Outcome.error_bind]
  | cons c rest =>
    obtain ⟨s₁, alloc, -, inv₁⟩ := inv.frameAllocZero_take free
    have panic := resolvePageentry_panic (v := vaddr - vaddr % 0x1000) inv₁ space
      (top (by simp only [free, ne_eq, reduceCtorEq, not_false_eq_true])) (by
      show rest.length < missing g r _
      rw [free, List.length_cons] at short
      omega)
    simp only [copyPage, alloc, Outcome.ok_bind]
    rw [mmap, panic, Outcome.error_bind, Outcome.error_bind]

/-- What follows on the next page are the bytes that the file had there from the start. -/
theorem Built.segmentByte {s₁ : Kernel} {g₁ : Ghost} {k x : Nat} (built : Built K A s g s₁ g₁ r n)
    (apart : ∀ j < filesz, g.Apart r n (src + j)) (next : nextPage vaddr = vaddr - vaddr % 0x1000 + 0x1000)
    (value : k = min filesz (4096 - vaddr % 0x1000)) (beyond : 4096 * (vaddr / 4096 + 1) ≤ x) :
    segmentByte s₁.mem (src + k) (nextPage vaddr) (filesz - k) x = segmentByte s.mem src vaddr filesz x := by
  rw [segmentByte_congr (m := s.mem) (fun j inside => ?_) x, value, next, segmentByte_next _ _ (by omega)]
  rw [Nat.add_assoc]
  exact built.outside (apart (k + j) (by omega))

/-- The loop of `copy_section` puts the whole segment into the address space, or panics for
want of frames. How many it takes does not depend on the bytes it copies. -/
theorem copySection_loaded (inv : KernelInv K A s g) (space : g.spaces r) (knows : g.Knows r known)
    (lower : vaddr + memsz ≤ 2 ^ 47) (fits : filesz ≤ memsz) (room : src + filesz ≤ 2 ^ 39) :
    (framesNeeded known (segmentPages vaddr memsz) ≤ g.free.length →
      ∃ s' g', copySection s (linearAddressToPtr r) vaddr (linearAddressToPtr src) memsz filesz = .ok s' ∧
        g'.Knows r (placesAfter known (segmentPages vaddr memsz)) ∧
        (∃ pages, Loaded K A s g s' g' r (framesNeeded known (segmentPages vaddr memsz)) pages) ∧
        ((∀ k < filesz, g.Apart r (framesNeeded known (segmentPages vaddr memsz)) (src + k)) →
          Loaded K A s g s' g' r (framesNeeded known (segmentPages vaddr memsz))
            (.range (vaddr / 4096) (pageCount vaddr memsz) (segmentByte s.mem src vaddr filesz)))) ∧
    (g.free.length < framesNeeded known (segmentPages vaddr memsz) →
      copySection s (linearAddressToPtr r) vaddr (linearAddressToPtr src) memsz filesz = .error .panic) := by
  induction vaddr, memsz using segment_induction generalizing s g known src filesz with
  | done vaddr memsz done =>
    rw [segmentPages_done done, copySection_done done, pageCount, if_neg done, Pages.range_zero]
    exact ⟨fun _ => ⟨s, g, rfl, knows, ⟨_, .refl inv⟩, fun _ => .refl inv⟩, fun short => absurd short (Nat.not_lt_zero _)⟩
  | page vaddr memsz more ih =>
    have positive := more.1
    have split := framesNeeded_append known [vaddr - vaddr % 0x1000] (segmentPages (nextPage vaddr) (memszLeft vaddr memsz))
    have value := toCopy_eq (Nat.mod_lt vaddr (by decide)) (show filesz < 2 ^ 63 by omega)
    have next : nextPage vaddr = vaddr - vaddr % 0x1000 + 0x1000 := by
      unfold nextPage
      omega
    rw [pageCount_next more, segmentPages_next (by omega) more,
      show ∀ l : List Nat, (vaddr - vaddr % 0x1000) :: l = [_] ++ l from fun _ => rfl, split, placesAfter_append]
    by_cases first : framesNeeded known [vaddr - vaddr % 0x1000] ≤ g.free.length
    · obtain ⟨s₁, g₁, page, knows₁, ⟨pages₁, built₁⟩, loaded₁⟩ :=
        copyPage_loaded inv space knows (by omega) (by omega) room first
      have used := built₁.count
      rw [copySection_next more page]
      obtain ⟨k, amount⟩ : ∃ k, k = toCopy filesz (vaddr % 0x1000) := ⟨_, rfl⟩
      rw [← amount] at value ⊢
      have number : nextPage vaddr / 4096 = vaddr / 4096 + 1 := by omega
      by_cases rest : MoreToCopy (memszLeft vaddr memsz)
      · have left : memszLeft vaddr memsz = memsz + vaddr % 0x1000 - 0x1000 := by
          have positive := rest.1
          have signed := rest.2
          unfold memszLeft at positive signed ⊢
          omega
        obtain ⟨enough, short⟩ := ih built₁.inv (built₁.spaces ▸ space) knows₁
          (show nextPage vaddr + memszLeft vaddr memsz ≤ 2 ^ 47 by omega)
          (show filesz - k ≤ memszLeft vaddr memsz by omega) (show src + k + (filesz - k) ≤ 2 ^ 39 by omega)
        refine ⟨fun total => ?_, fun total => short (by omega)⟩
        obtain ⟨s', g', run, knows', ⟨pages', built'⟩, loaded'⟩ := enough (by omega)
        refine ⟨s', g', run, knows', ⟨_, built₁.trans built' space inv⟩, fun apart => ?_⟩
        have here (j : Nat) (inside : j < filesz) : g.Apart r (framesNeeded known [vaddr - vaddr % 0x1000]) (src + j) :=
          (apart j inside).mono (Nat.le_add_right _ _)
        have bytes (x : Nat) (beyond : 4096 * (vaddr / 4096 + 1) ≤ x) :
            segmentByte s₁.mem (src + k) (nextPage vaddr) (filesz - k) x = segmentByte s.mem src vaddr filesz x :=
          built₁.segmentByte here next value beyond
        have both := (loaded₁ here).trans (loaded' fun j inside => by
          rw [Nat.add_assoc]
          exact built₁.apart (apart (k + j) (by omega))) space inv
        rwa [number, Pages.range_overlay bytes] at both
      · rw [segmentPages_done rest, copySection_done rest, pageCount, if_neg rest]
        exact ⟨fun _ => ⟨s₁, g₁, rfl, knows₁, ⟨_, built₁⟩, loaded₁⟩, fun short => absurd (show _ < _ from short) (by
          rw [framesNeeded]
          omega)⟩
    · have panic : copyPage s (linearAddressToPtr r) vaddr (linearAddressToPtr src) filesz = _ :=
        copyPage_panic inv space knows (fun _ => index_three_of_lower (by omega)) (Nat.lt_of_not_le first) (linearAddressToPtr src)
      rw [copySection_error more panic]
      exact ⟨fun enough => by omega, fun _ => rfl⟩

/-- A copy that stays inside the kernel's windows cannot leave the new page. -/
theorem toCopy_inside {c : Nat} (room : c + 4096 ≤ 2 ^ 39) {a : Nat}
    (reached : window (linearAddressToPtr (c + vaddr % 0x1000)) (toCopy filesz (vaddr % 0x1000)) = .ok a) :
    a = c + vaddr % 0x1000 ∧ vaddr % 0x1000 + toCopy filesz (vaddr % 0x1000) ≤ 4096 := by
  rw [linearAddressToPtr_of_lt (by omega), window] at reached
  split at reached
  · rename_i linear
    have place := Except.ok.inj reached
    have bound := linear.2
    simp only [linearEnd, addrshift512G] at bound
    refine ⟨by omega, ?_⟩
    unfold toCopy at bound ⊢
    by_cases more : (filesz + vaddr % 0x1000) % 2 ^ 64 > 0x1000
    · rw [if_pos more]
      omega
    · rw [if_neg more] at bound ⊢
      omega
  · split at reached
    · rename_i kernel
      have below := kernel.1
      simp only [kernelBase, linearStart] at below
      omega
    · cases reached

/-- An iteration that returns has found the frames it needs. -/
theorem enough_of_copyPage {q : Nat × Nat × Kernel} (inv : KernelInv K A s g) (space : g.spaces r) (top : index 3 vaddr < 256)
    (run : copyPage s (linearAddressToPtr r) vaddr src filesz = .ok q) :
    1 + missing g r (stations (vaddr - vaddr % 0x1000) 3 []) ≤ g.free.length := by
  rw [copyPage] at run
  obtain ⟨⟨c, t⟩, alloc, rest⟩ := Outcome.bind_eq_ok.mp run
  obtain ⟨t', map, -⟩ := Outcome.bind_eq_ok.mp rest
  cases free : g.free with
  | nil =>
    rw [FreeFrames.frameAllocZero_nil (free ▸ inv.stack)] at alloc
    cases alloc
  | cons c' rest =>
    obtain ⟨s₁, alloc', -, inv₁⟩ := inv.frameAllocZero_take free
    cases alloc'.symm.trans alloc
    have top' : index 3 (vaddr - vaddr % 0x1000) < 256 := by
      unfold index at top ⊢
      omega
    have enough := enough_of_mmap inv₁ space top' map
    rw [List.length_cons, Nat.add_comm]
    exact Nat.succ_le_succ enough

/-- Whatever is copied, an iteration that returns has mapped one fresh frame. -/
theorem copyPage_run {src' filesz' : Nat} (inv : KernelInv K A s g) (space : g.spaces r) (top : index 3 vaddr < 256)
    (run : copyPage s (linearAddressToPtr r) vaddr src filesz = .ok (src', filesz', s')) :
    ∃ g' n c, Mapped K A s g s' g' r n (pageKey vaddr) c := by
  have top' : index 3 (vaddr - vaddr % 0x1000) < 256 := by
    unfold index at top ⊢
    omega
  obtain ⟨c, s₁, s₂, g', -, alloc, map, mapped, -⟩ := mapZeroed inv space top' (enough_of_copyPage inv space top run)
  simp only [copyPage, alloc, Outcome.ok_bind] at run
  rw [map, Outcome.ok_bind] at run
  split at run
  · rename_i more
    obtain ⟨s₃, copy, done⟩ := Outcome.bind_eq_ok.mp run
    cases done
    rw [Kernel.memcpy, if_neg (by omega)] at copy
    obtain ⟨target, atTarget, rest⟩ := Outcome.bind_eq_ok.mp copy
    obtain ⟨source, -, eq⟩ := Outcome.bind_eq_ok.mp rest
    cases eq
    obtain ⟨place, inside⟩ := toCopy_inside mapped.data.frame.room atTarget
    rw [← pageKey_aligned]
    exact ⟨g', _, c, mapped.write space top' mapped.data mapped.fresh fun x away => memcpy_outside (by omega)⟩
  · cases run
    rw [← pageKey_aligned]
    exact ⟨g', _, c, mapped⟩

/-- A load that returns has put some pages into the address space. -/
theorem loadElf_run {start stop entry : Nat} (inv : KernelInv K A s g) (space : g.spaces r)
    (low : ∀ header, ComesTo s start (linearAddressToPtr r) header → LowPages header.vaddr header.memsz)
    (run : loadElf s start stop (linearAddressToPtr r) = .ok (entry, s')) : ∃ g' n pages, Loaded K A s g s' g' r n pages := by
  refine loadElf_rule (P := fun t => ∃ g' n pages, Loaded K A s g t g' r n pages) low ?_ ⟨g, _, _, .refl inv⟩ run
  rintro t v src filesz src' filesz' t' top ⟨g₁, n, pages, loaded⟩ page
  obtain ⟨g₂, k, c, mapped⟩ := copyPage_run loaded.inv (loaded.spaces ▸ space) top page
  have key : pageKey v = pageKey (v % 2 ^ 48) := pageKey_eq_iff.mpr (by omega)
  have below := (index_three_iff v).mp top
  rw [key] at mapped
  exact ⟨g₂, _, _, loaded.trans (mapped.loaded_as (by omega)) space inv⟩

end page

end MetalToApp

import MetalToApp.PageTables

namespace MetalToApp
open ByteMemory Paging

/-- The table indices of an address, the last table's first. -/
def pageKey (v : Nat) : List Nat := index 0 v :: leafPath v 3 []

theorem pageKey_eq_iff {v w : Nat} : pageKey v = pageKey w ↔ v / 4096 % 2 ^ 36 = w / 4096 % 2 ^ 36 := by
  simp only [pageKey, leafPath, index, List.cons.injEq, and_true]
  omega

/-- One entry of an address space is redirected, for which its tree may have grown. -/
structure Remapped (K : KernelImage) (A : Arena) (s : Kernel) (g : Ghost) (s' : Kernel) (g' : Ghost) (r : Nat)
    (key : List Nat) (page : Option (Nat × Bool)) : Prop extends Extended K A s g s' g' r where
  page : pageAt s'.mem r key = page
  others : ∀ {r' p i}, LeafKey K g.spaces r' p i → (r' = r → i :: p ≠ key) →
    pageAt s'.mem r' (i :: p) = pageAt s.mem r' (i :: p)

section mapping
variable {K : KernelImage} {A : Arena} {s s' : Kernel} {g g' : Ghost} {t r i c f v : Nat} {p : List Nat}

theorem Grown.remap (grown : Grown K A s g s' g' r) (place : g'.owner t = some (r, p))
    (depth : p.length = (shape K g'.spaces).height r) (key : LeafKey K g'.spaces r p i) {e : Nat} (entry : IsEntry e)
    (fits : e < 2 ^ 64) :
    Remapped K A s g { s' with mem := write64 s'.mem (t + 8 * i) e } g' r (i :: p) (entryPage e) := by
  have inv := grown.inv.setLeaf place depth key.bound entry fits
  have page := grown.inv.page place
  refine ⟨⟨inv, grown.spaces, grown.used, grown.keeps, grown.added, fun x away => ?_⟩, ?_, fun {r' p' i'} key' differ => ?_⟩
  · have := away t p place
    have := key.bound
    rw [← grown.outside x away]
    exact write64_outside (by omega)
  · show Radix.lookup _ _ r (i :: p) = _
    rw [inv.forest.lookup_cons_of_owner i key.root key.path place, leafPage, word_write64_self fits]
  · rw [← grown.pages key']
    rw [← grown.spaces] at key'
    refine grown.inv.forest.lookup_eq_of_extends inv.forest i' key'.root key'.path key'.root key'.path
      (fun t' owned => ⟨owned, ?_⟩) fun t' owned vacant => absurd owned vacant
    rw [leafPage, leafPage, grown.inv.word_store place key.bound (grown.inv.page owned).1 key'.bound]
    rintro rfl rfl
    obtain ⟨rfl, rfl⟩ := Prod.mk.inj (Option.some.inj (owned.symm.trans place))
    exact differ rfl rfl

theorem height_of_space (inv : KernelInv K A s g) (space : g.spaces r) : (shape K g.spaces).height r = 3 :=
  if_neg (inv.space_ne space)

/-- The places of the tables that a walk of `v` passes in an address space. -/
theorem leafKey_of_space (inv : KernelInv K A s g) (space : g.spaces r) (low : index 3 v < 256) :
    LeafKey K g.spaces r (leafPath v 3 []) (index 0 v) := by
  have height := height_of_space inv space
  refine ⟨Or.inl space, ?_, ?_, index_lt _ _⟩
  · refine ⟨?_, ⟨index_lt _ _, nofun⟩, ?_, ⟨index_lt _ _, nofun⟩, ?_, ⟨index_lt _ _, fun _ => ?_⟩, trivial⟩
    · rw [height]
      exact Nat.lt_succ_self 2
    · rw [height]
      exact Nat.lt_add_of_pos_right Nat.two_pos
    · rw [height]
      exact Nat.succ_pos 2
    · rwa [if_neg (inv.space_ne space)]
  · rw [height]
    rfl

theorem resolvePageentry_grown (inv : KernelInv K A s g) (space : g.spaces r) (low : index 3 v < 256)
    (enough : missing g r (stations v 3 []) ≤ g.free.length) :
    ∃ t s' g', resolvePageentry s (linearAddressToPtr r) v = .ok (linearAddressToPtr t + 8 * index 0 v, s') ∧
      Grown K A s g s' g' r ∧ g'.owner t = some (r, leafPath v 3 []) ∧
      g.free.length = g'.free.length + missing g r (stations v 3 []) ∧
      ∀ q, g'.Has r q ↔ g.Has r q ∨ q ∈ stations v 3 [] :=
  resolveFrom_grown inv (inv.root_owner space) (by rw [height_of_space inv space]; rfl)
    (fun _ => ⟨index_lt _ _, fun _ => by rwa [if_neg (inv.space_ne space)]⟩) enough

theorem isEntry_page (aligned : f % 4096 = 0) (room : f + 4096 ≤ 2 ^ 39) (user : Bool) : IsEntry (f + entryBits user) :=
  Or.inr ⟨f, user, aligned, room, rfl⟩

/-- Mapping a page into a tree in which the entry for it has been resolved. -/
theorem mmap_of_grown (user : Bool) {root : Nat}
    (run : resolvePageentry s root v = .ok (linearAddressToPtr t + 8 * index 0 v, s')) (grown : Grown K A s g s' g' r)
    (place : g'.owner t = some (r, p)) (key : LeafKey K g.spaces r p (index 0 v)) (aligned : f % 4096 = 0)
    (room : f + 4096 ≤ 2 ^ 39) :
    ∃ s'', mmap s root f v user = .ok s'' ∧ Remapped K A s g s'' g' r (index 0 v :: p) (some (f, user)) := by
  rw [← grown.spaces] at key
  have small := entryBits_lt user
  have remapped := grown.remap place key.depth key (isEntry_page aligned room user) (by omega)
  rw [entryPage_entry aligned room] at remapped
  refine ⟨_, ?_, remapped⟩
  simp only [mmap, run, Outcome.ok_bind,
    fillEntry_eq user (grown.inv.entry_window place key.bound) aligned (by omega)]

/-- What `munmap` returns for the page mapped so far. -/
def mappedFrame (page : Option (Nat × Bool)) : Nat := (page.map Prod.fst).getD 0

theorem munmap_of_grown {root : Nat} (run : resolvePageentry s root v = .ok (linearAddressToPtr t + 8 * index 0 v, s'))
    (grown : Grown K A s g s' g' r) (place : g'.owner t = some (r, p)) (oldKey : LeafKey K g.spaces r p (index 0 v)) :
    ∃ s'', munmap s root v = .ok (mappedFrame (pageAt s.mem r (index 0 v :: p)), s'') ∧
      Remapped K A s g s'' g' r (index 0 v :: p) none := by
  have key := oldKey
  rw [← grown.spaces] at key
  have window := grown.inv.entry_window place key.bound
  have entry := grown.inv.leaf place key.depth key.bound
  have page : pageAt s.mem r (index 0 v :: p) = entryPage (word s'.mem t (index 0 v)) := by
    rw [← grown.pages oldKey]
    exact grown.inv.forest.lookup_cons_of_owner _ key.root key.path place
  have value : word s'.mem t (index 0 v) / 4096 * 4096 = mappedFrame (entryPage (word s'.mem t (index 0 v))) := by
    rcases entry with zero | ⟨f, user, aligned, room, eq⟩
    · rw [zero]
      rfl
    · rw [eq, entryPage_entry aligned room]
      have := entryBits_lt user
      show (f + entryBits user) / 4096 * 4096 = f
      omega
  refine ⟨_, ?_, grown.remap place key.depth key (Or.inl rfl) (by decide)⟩
  have load : s'.load64 (linearAddressToPtr t + 8 * index 0 v) = .ok (word s'.mem t (index 0 v)) := by
    simp only [Kernel.load64, Kernel.load, window, Outcome.ok_bind, Outcome.pure_eq_ok]
  simp only [munmap, run, Outcome.ok_bind, load, setFlag_eq _ window, store64_eq _ window, Outcome.pure_eq_ok, page,
    value, write64, writeLE_writeLE_self]

theorem mmap_remapped (user : Bool) (inv : KernelInv K A s g) (space : g.spaces r) (low : index 3 v < 256)
    (aligned : f % 4096 = 0) (room : f + 4096 ≤ 2 ^ 39) (enough : missing g r (stations v 3 []) ≤ g.free.length) :
    ∃ s' g', mmap s (linearAddressToPtr r) f v user = .ok s' ∧
      Remapped K A s g s' g' r (pageKey v) (some (f, user)) ∧
      g.free.length = g'.free.length + missing g r (stations v 3 []) ∧
      ∀ q, g'.Has r q ↔ g.Has r q ∨ q ∈ stations v 3 [] := by
  obtain ⟨t, s₁, g', run, grown, place, count, places⟩ := resolvePageentry_grown inv space low enough
  obtain ⟨s', done, remapped⟩ := mmap_of_grown user run grown place (leafKey_of_space inv space low) aligned room
  exact ⟨s', g', done, remapped, count, places⟩

theorem munmap_remapped (inv : KernelInv K A s g) (space : g.spaces r) (low : index 3 v < 256)
    (enough : missing g r (stations v 3 []) ≤ g.free.length) :
    ∃ s' g', munmap s (linearAddressToPtr r) v = .ok (mappedFrame (pageAt s.mem r (pageKey v)), s') ∧
      Remapped K A s g s' g' r (pageKey v) none ∧
      g.free.length = g'.free.length + missing g r (stations v 3 []) ∧
      ∀ q, g'.Has r q ↔ g.Has r q ∨ q ∈ stations v 3 [] := by
  obtain ⟨t, s₁, g', run, grown, place, count, places⟩ := resolvePageentry_grown inv space low enough
  obtain ⟨s', done, remapped⟩ := munmap_of_grown run grown place (leafKey_of_space inv space low)
  exact ⟨s', g', done, remapped, count, places⟩

theorem resolvePageentry_panic (inv : KernelInv K A s g) (space : g.spaces r) (low : index 3 v < 256)
    (short : g.free.length < missing g r (stations v 3 [])) :
    resolvePageentry s (linearAddressToPtr r) v = .error .panic :=
  resolveFrom_panic inv (inv.root_owner space) (by rw [height_of_space inv space]; rfl)
    (fun _ => ⟨index_lt _ _, fun _ => by rwa [if_neg (inv.space_ne space)]⟩) short

/-- An `mmap` that returns has found the frames it needs. -/
theorem enough_of_mmap (inv : KernelInv K A s g) (space : g.spaces r) (low : index 3 v < 256)
    (run : mmap s (linearAddressToPtr r) f v user = .ok s') : missing g r (stations v 3 []) ≤ g.free.length := by
  by_contra short
  rw [mmap, resolvePageentry_panic inv space low (by omega)] at run
  cases run

theorem enough_of_munmap (inv : KernelInv K A s g) (space : g.spaces r) (low : index 3 v < 256)
    (run : munmap s (linearAddressToPtr r) v = .ok (f, s')) : missing g r (stations v 3 []) ≤ g.free.length := by
  by_contra short
  rw [munmap, resolvePageentry_panic inv space low (by omega)] at run
  cases run

/-- Three frames are always enough. -/
theorem missing_le (g : Ghost) (r v : Nat) : missing g r (stations v 3 []) ≤ 3 := List.countP_le_length

/-- The table indices of an address of the dynamic window, below `kernel_pagedirtable`. -/
def dynamicKey (v : Nat) : List Nat := index 0 v :: leafPath v 2 []

theorem index_of_dynamic (high : dynamicStart ≤ v) (bound : v < 2 ^ 64) : index 3 v = 511 ∧ index 2 v = 511 := by
  simp only [dynamicStart, kernelBase, addrshift1G] at high
  unfold index
  omega

theorem leafKey_dynamic (K : KernelImage) (g : Ghost) (slot : index 2 v = 511) :
    LeafKey K g.spaces K.kernelPagedirtable (leafPath v 2 []) (index 0 v) := by
  have height : (shape K g.spaces).height K.kernelPagedirtable = 2 := if_pos rfl
  refine ⟨Or.inr rfl, ⟨?_, ⟨index_lt _ _, nofun⟩, ?_, ⟨index_lt _ _, fun _ => ?_⟩, trivial⟩, ?_, index_lt _ _⟩
  · rw [height]
    exact Nat.lt_succ_self 1
  · rw [height]
    exact Nat.succ_pos 1
  · rwa [if_pos rfl]
  · rw [height]
    rfl

/-- All root tables lead to `kernel_pagedirtable` in the last slot. -/
theorem resolvePageentry_dynamic (inv : KernelInv K A s g) (space : g.spaces r) (slot : index 3 v = 511) :
    resolvePageentry s (linearAddressToPtr r) v = resolveFrom s 2 (linearAddressToPtr K.kernelPagedirtable) v := by
  have table := K.page (t := K.kernelPagedirtable) (by simp)
  have entry : word s.mem r 511 = K.kernelPagedirtable + entryBits true := inv.upper space (by decide) (by decide)
  have next := nextTable_link (inv.entry_window (inv.root_owner space) (show 511 < 512 by decide)) table.1 entry
  rw [resolvePageentry, resolveFrom, slot]
  simp only [next, Outcome.ok_bind]

theorem resolvePageentry_dynamic_grown (inv : KernelInv K A s g) (space : g.spaces r) (high : dynamicStart ≤ v)
    (bound : v < 2 ^ 64) (enough : missing g K.kernelPagedirtable (stations v 2 []) ≤ g.free.length) :
    ∃ t s' g', resolvePageentry s (linearAddressToPtr r) v = .ok (linearAddressToPtr t + 8 * index 0 v, s') ∧
      Grown K A s g s' g' K.kernelPagedirtable ∧ g'.owner t = some (K.kernelPagedirtable, leafPath v 2 []) := by
  obtain ⟨top, slot⟩ := index_of_dynamic high bound
  have depth : ([] : List Nat).length + 2 = (shape K g.spaces).height K.kernelPagedirtable := (if_pos rfl).symm
  obtain ⟨t, s', g', run, grown, place, -⟩ := resolveFrom_grown inv inv.pagedirtable_owner depth
    (fun _ => ⟨index_lt _ _, fun _ => by rwa [if_pos rfl]⟩) enough
  exact ⟨t, s', g', (resolvePageentry_dynamic inv space top).trans run, grown, place⟩

theorem enough_of_dynamic (inv : KernelInv K A s g) (space : g.spaces r) (high : dynamicStart ≤ v) (bound : v < 2 ^ 64)
    {e : Nat} (run : resolvePageentry s (linearAddressToPtr r) v = .ok (e, s')) :
    missing g K.kernelPagedirtable (stations v 2 []) ≤ g.free.length := by
  obtain ⟨top, slot⟩ := index_of_dynamic high bound
  by_contra short
  rw [resolvePageentry_dynamic inv space top, resolveFrom_panic inv inv.pagedirtable_owner (if_pos rfl).symm
    (fun _ => ⟨index_lt _ _, fun _ => by rwa [if_pos rfl]⟩) (by omega)] at run
  cases run

theorem mmap_dynamic (inv : KernelInv K A s g) (space : g.spaces r) (high : dynamicStart ≤ v) (bound : v < 2 ^ 64)
    (aligned : f % 4096 = 0) (room : f + 4096 ≤ 2 ^ 39) {user : Bool}
    (run : mmap s (linearAddressToPtr r) f v user = .ok s') :
    ∃ g', Remapped K A s g s' g' K.kernelPagedirtable (dynamicKey v) (some (f, user)) := by
  obtain ⟨⟨e, s₁⟩, resolved, -⟩ := Outcome.bind_eq_ok.mp run
  obtain ⟨t, s₁, g', resolved, grown, place⟩ := resolvePageentry_dynamic_grown inv space high bound
    (enough_of_dynamic inv space high bound resolved)
  obtain ⟨s'', done, remapped⟩ := mmap_of_grown user resolved grown place
    (leafKey_dynamic K g (index_of_dynamic high bound).2) aligned room
  cases done.symm.trans run
  exact ⟨g', remapped⟩

theorem munmap_dynamic (inv : KernelInv K A s g) (space : g.spaces r) (high : dynamicStart ≤ v) (bound : v < 2 ^ 64)
    (run : munmap s (linearAddressToPtr r) v = .ok (f, s')) :
    ∃ g', Remapped K A s g s' g' K.kernelPagedirtable (dynamicKey v) none := by
  obtain ⟨⟨e, s₁⟩, resolved, -⟩ := Outcome.bind_eq_ok.mp run
  obtain ⟨t, s₁, g', resolved, grown, place⟩ := resolvePageentry_dynamic_grown inv space high bound
    (enough_of_dynamic inv space high bound resolved)
  obtain ⟨s'', done, remapped⟩ := munmap_of_grown resolved grown place
    (leafKey_dynamic K g (index_of_dynamic high bound).2)
  cases done.symm.trans run
  exact ⟨g', remapped⟩

/-- Pages stay mapped while the tables stay in place and keep their contents. -/
theorem pageAt_congr (inv : KernelInv K A s g) (inv' : KernelInv K A s' g') (spaces : g'.spaces = g.spaces)
    (owner : g'.owner = g.owner) (same : ∀ t x, g.owner t = some x → Agree s.mem s'.mem t 4096)
    (key : LeafKey K g.spaces r p i) : pageAt s'.mem r (i :: p) = pageAt s.mem r (i :: p) := by
  have key' := key
  rw [← spaces] at key'
  refine inv.forest.lookup_eq_of_extends inv'.forest i key.root key.path key'.root key'.path (fun t owned => ?_)
    fun t owned vacant => absurd (owner ▸ owned) vacant
  exact ⟨owner ▸ owned, by rw [leafPage, leafPage, word_congr (same t _ owned) key.bound]⟩

/-- Writes to a page of data unmap nothing. -/
theorem pageAt_write_data (inv : KernelInv K A s g) (data : g.Data A c) {m : Memory}
    (outside : ∀ x, x < c ∨ c + 4096 ≤ x → m x = s.mem x) (key : LeafKey K g.spaces r p i) :
    pageAt m r (i :: p) = pageAt s.mem r (i :: p) := by
  have same (t : Nat) (y : Nat × List Nat) (place : g.owner t = some y) : Agree s.mem m t 4096 :=
    inv.agree_tables data.frame data.notTable outside place
  have kept := pageAt_congr inv (inv.write_data data outside) rfl rfl same key
  exact kept

end mapping

end MetalToApp

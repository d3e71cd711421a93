import MetalToApp.KernelSpace

namespace MetalToApp
open ByteMemory Paging

section walk
variable {K : KernelImage} {A : Arena} {s s' : Kernel} {g g' : Ghost} {t r v level : Nat} {p : List Nat}

/-- A table below a missing one is missing too. -/
theorem KernelInv.has_of_leafPath (inv : KernelInv K A s g) (has : g.Has r (leafPath v level p)) : g.Has r p := by
  induction level generalizing p with
  | zero => exact has
  | succ level ih =>
    obtain ⟨c, owned⟩ := ih has
    obtain ⟨t, place, -⟩ := inv.forest.owner_child owned
    exact ⟨t, place⟩

/-- The processor's walk below a table of a tree finds the page mapped there. -/
theorem walkFrom_eq_pageAt (inv : KernelInv K A s g) (place : g.owner t = some (r, p))
    (depth : p.length + level = (shape K g.spaces).height r)
    (slot : level ≠ 0 → (shape K g.spaces).slot r p (index level v))
    (key : LeafKey K g.spaces r (leafPath v level p) (index 0 v)) :
    walkFrom s.mem level t v true true =
      (pageAt s.mem r (index 0 v :: leafPath v level p)).map fun q => ⟨q.1 + v % 4096, q.2, true⟩ := by
  induction level generalizing t p with
  | zero =>
    have found : pageAt s.mem r (index 0 v :: leafPath v 0 p) = leafPage s.mem t (index 0 v) :=
      inv.forest.lookup_cons_of_owner _ key.root key.path place
    rw [found, leafPage]
    rcases inv.leaf place key.depth key.bound with zero | ⟨f, user, aligned, room, eq⟩
    · simp only [walkFrom, zero]
      rfl
    · simp only [walkFrom, eq, present_entry aligned, if_true, frameOf_entry aligned room, usermode_entry aligned,
        writable_entry aligned, entryPage_entry aligned room, Bool.true_and, Option.map_some]
  | succ level ih =>
    have here := slot (by omega)
    have below : p.length < (shape K g.spaces).height r := by omega
    rcases inv.link place below here with zero | ⟨c, aligned, room, eq⟩
    · have vacant := childTable_zero zero
      have missing : pageAt s.mem r (index 0 v :: leafPath v (level + 1) p) = none :=
        inv.forest.lookup_cons_of_vacant _ key.root key.path fun t' owned =>
          inv.not_has place vacant (inv.has_of_leafPath ⟨t', owned⟩)
      rw [missing]
      simp only [walkFrom, zero]
      rfl
    · have owned := inv.forest.child_owner place below here (childTable_entry aligned room eq)
      have rest := ih owned (by simp only [List.length_cons]; omega)
        (fun _ => ⟨index_lt _ _, fun top => absurd top (List.cons_ne_nil _ _)⟩) key
      simp only [walkFrom, eq, present_entry aligned, if_true, big_entry aligned, Bool.false_eq_true, if_false,
        frameOf_entry aligned room, usermode_entry aligned, writable_entry aligned, Bool.true_and]
      exact rest

theorem index_three_of_lower (low : v < 2 ^ 47) : index 3 v < 256 := by
  unfold index
  omega

theorem index_three_of_upper (high : 2 ^ 64 - 2 ^ 47 ≤ v) (bound : v < 2 ^ 64) : 256 ≤ index 3 v := by
  unfold index
  omega

/-- A walk of the lower half yields the page that the address space maps there. -/
theorem walk_lower (inv : KernelInv K A s g) (space : g.spaces r) (low : v < 2 ^ 47) :
    walk s.mem r v = (pageAt s.mem r (pageKey v)).map fun q => ⟨q.1 + v % 4096, q.2, true⟩ := by
  have root := inv.root_owner space
  have page := inv.page root
  have top := index_three_of_lower low
  rw [walk, if_pos (show Canonical v from Or.inl low), frameOf_eq_self page.1 (by omega)]
  exact walkFrom_eq_pageAt inv root (by rw [height_of_space inv space]; rfl)
    (fun _ => ⟨index_lt _ _, fun _ => by rwa [if_neg (inv.space_ne space)]⟩) (leafKey_of_space inv space top)

/-- The tables that walks of the upper half can enter. -/
def upperTables (K : KernelImage) (g : Ghost) : Nat → Nat → Prop
  | 2, t => t = K.kernelLinear ∨ t = K.kernelPagedirtable
  | 1, t => t = K.kernelPagedir ∨ ∃ i, g.owner t = some (K.kernelPagedirtable, [i])
  | 0, t => ∃ i j, g.owner t = some (K.kernelPagedirtable, [i, j])
  | _, _ => False

theorem big_linear (i : Nat) : big (i * addrshift1G + 0x83) = true := by
  rw [big, flag_aligned_add (by simp only [addrshift1G]; omega) (by decide)]
  rfl

theorem big_pagedir {i : Nat} (here : present (pagedirWord i)) : big (pagedirWord i) = true := by
  have aligned : i * addrshift2M % 4096 = 0 := by simp only [addrshift2M]; omega
  unfold pagedirWord at here ⊢
  split at here
  · rename_i small
    rw [if_pos small, big, flag_aligned_add aligned (by decide)]
    split <;> rfl
  · cases here

/-- From the dynamic window's tables a link leads to a further one of them. -/
theorem upperTables_link (inv : KernelInv K A s g) {i : Nat} (place : g.owner t = some (K.kernelPagedirtable, p))
    (below : p.length < 2) (slot : (shape K g.spaces).slot K.kernelPagedirtable p i)
    (here : present (word s.mem t i)) :
    g.owner (frameOf (word s.mem t i)) = some (K.kernelPagedirtable, i :: p) := by
  have height : (shape K g.spaces).height K.kernelPagedirtable = 2 := if_pos rfl
  rcases inv.link place (by omega) slot with zero | ⟨c, aligned, room, eq⟩
  · rw [zero] at here
    cases here
  · rw [eq, frameOf_entry aligned room]
    exact inv.forest.child_owner place (by omega) slot (childTable_entry aligned room eq)

theorem upperTables_closed (inv : KernelInv K A s g) {level t i : Nat} (table : upperTables K g (level + 1) t)
    (bound : i < 512) (here : present (word s.mem t i)) (notBig : big (word s.mem t i) = false) :
    upperTables K g level (frameOf (word s.mem t i)) := by
  match level with
  | 0 =>
    rcases table with rfl | ⟨j, place⟩
    · rw [inv.pagedir i bound] at here notBig
      rw [big_pagedir here] at notBig
      cases notBig
    · exact ⟨i, j, upperTables_link inv place (Nat.lt_succ_self 1) ⟨bound, nofun⟩ here⟩
  | 1 =>
    rcases table with rfl | rfl
    · rw [inv.linear i bound, big_linear] at notBig
      cases notBig
    · by_cases last : i = 511
      · exact Or.inr ⟨i, upperTables_link inv inv.pagedirtable_owner (by decide) ⟨bound, fun _ => by rwa [if_pos rfl]⟩ here⟩
      · have entry := inv.pagedirtable i (by omega)
        by_cases kernel : i = 510
        · have page := K.page (t := K.kernelPagedir) (by simp)
          rw [if_pos kernel] at entry
          rw [entry, frameOf_entry page.1 page.2.2]
          exact Or.inl rfl
        · rw [entry, if_neg kernel] at here
          cases here

/-- The entries of a root table's upper half lead to these tables. -/
theorem kernelWord_table {i : Nat} (here : kernelWord K i ≠ 0) : upperTables K g 2 (frameOf (kernelWord K i)) := by
  unfold kernelWord at here ⊢
  split at here
  · rename_i atLinear
    have linear := K.page (t := K.kernelLinear) (by simp)
    rw [if_pos atLinear]
    exact Or.inl (frameOf_aligned_add linear.1 (by decide) (by omega))
  · split at here
    · rename_i notLinear atTable
      have dynamic := K.page (t := K.kernelPagedirtable) (by simp)
      rw [if_neg notLinear, if_pos atTable]
      exact Or.inr (frameOf_entry dynamic.1 dynamic.2.2)
    · exact absurd rfl here

theorem upperTables_same (inv : KernelInv K A s g) (inv' : KernelInv K A s' g')
    (same : ∀ t p, g.owner t = some (K.kernelPagedirtable, p) → Agree s.mem s'.mem t 4096) {level t i : Nat}
    (table : upperTables K g level t) (bound : i < 512) : word s'.mem t i = word s.mem t i := by
  match level with
  | 0 =>
    obtain ⟨_, _, place⟩ := table
    exact word_congr (same _ _ place) bound
  | 1 =>
    rcases table with rfl | ⟨_, place⟩
    · rw [inv.pagedir i bound, inv'.pagedir i bound]
    · exact word_congr (same _ _ place) bound
  | 2 =>
    rcases table with rfl | rfl
    · rw [inv.linear i bound, inv'.linear i bound]
    · exact word_congr (same _ _ inv.pagedirtable_owner) bound

/-- The upper half is the same in all address spaces, and stays so while nobody maps into
the dynamic window. -/
theorem walk_upper_congr (inv : KernelInv K A s g) (inv' : KernelInv K A s' g') {r' : Nat} (space : g.spaces r)
    (space' : g'.spaces r') (same : ∀ t p, g.owner t = some (K.kernelPagedirtable, p) → Agree s.mem s'.mem t 4096)
    (high : 2 ^ 64 - 2 ^ 47 ≤ v) (bound : v < 2 ^ 64) : walk s'.mem r' v = walk s.mem r v := by
  have page := inv.page (inv.root_owner space)
  have page' := inv'.page (inv'.root_owner space')
  have top := index_three_of_upper high bound
  have entry := inv.upper space top (index_lt 3 v)
  have entry' := inv'.upper space' top (index_lt 3 v)
  have below (t : Nat) (table : upperTables K g 2 t) (u w : Bool) : walkFrom s'.mem 2 t v u w = walkFrom s.mem 2 t v u w :=
    walkFrom_congr (upperTables K g) (fun level t i table bound => upperTables_same inv inv' same table bound)
      (fun level t i table bound => upperTables_closed inv table bound) table v u w
  have canonical : Canonical v := Or.inr ⟨high, bound⟩
  rw [walk, walk, if_pos canonical, if_pos canonical, frameOf_eq_self page.1 (by omega), frameOf_eq_self page'.1 (by omega)]
  have first (m : Memory) (root : Nat) : walkFrom m 3 root v true true =
      if present (word m root (index 3 v)) then
        if big (word m root (index 3 v)) then none
        else walkFrom m 2 (frameOf (word m root (index 3 v))) v (usermode (word m root (index 3 v)))
          (writable (word m root (index 3 v)))
      else none := rfl
  rw [first, first, entry, entry']
  by_cases absent : kernelWord K (index 3 v) = 0
  · simp only [absent, show present 0 = false from rfl, Bool.false_eq_true, if_false]
  · rw [below _ (kernelWord_table absent)]

end walk

end MetalToApp

import MetalToApp.ElfImage
import MetalToApp.Reading
import MetalToApp.SharedHalf

namespace MetalToApp
open ByteMemory Paging

/-- The numbers of the pages that hold a byte of the range. -/
def touchedPages (vaddr memsz : Nat) : Set Nat := {p | ∃ i < memsz, (vaddr + i) / 4096 = p}

/-- The places of the tables that the walks to the range pass and the tree does not have. -/
def missingTables (g : Ghost) (r vaddr memsz : Nat) : Set (List Nat) :=
  {q | ¬g.Has r q ∧ ∃ i < memsz, q ∈ stations (vaddr + i) 3 []}

/-- One data frame for each page of the range, and one frame for each missing table. -/
noncomputable def sectionFrames (g : Ghost) (r vaddr memsz : Nat) : Nat :=
  (touchedPages vaddr memsz).ncard + (missingTables g r vaddr memsz).ncard

section count
variable {K : KernelImage} {A : Arena} {s : Kernel} {g : Ghost} {r vaddr memsz v w : Nat} {known : List (List Nat)}

theorem touchedPages_eq (lower : vaddr + memsz ≤ 2 ^ 47) :
    touchedPages vaddr memsz = Set.Ico (vaddr / 4096) (vaddr / 4096 + pageCount vaddr memsz) := by
  ext p
  have touches := @ProgramHeader.touches_iff ⟨1, 0, vaddr, 0, memsz⟩ p lower
  rw [Set.mem_Ico, ← touches]
  constructor
  · rintro ⟨i, bound, page⟩
    exact ⟨vaddr + i, Nat.le_add_right _ _, Nat.add_lt_add_left bound _, page⟩
  · rintro ⟨x, above, below, page⟩
    simp only at above below
    exact ⟨x - vaddr, by omega, by rwa [Nat.add_sub_cancel' above]⟩

theorem touchedPages_ncard (lower : vaddr + memsz ≤ 2 ^ 47) : (touchedPages vaddr memsz).ncard = pageCount vaddr memsz := by
  rw [touchedPages_eq lower, ← Finset.coe_Ico, Set.ncard_coe_finset, Nat.card_Ico, Nat.add_sub_cancel_left]

/-- The loop maps just the pages of the range. -/
theorem mem_segmentPages {page : Nat} (lower : vaddr + memsz ≤ 2 ^ 47) :
    page ∈ segmentPages vaddr memsz ↔ page % 4096 = 0 ∧ page / 4096 ∈ touchedPages vaddr memsz := by
  have below : pageCount vaddr memsz ≤ (vaddr % 4096 + memsz + 0xfff) / 4096 := by
    unfold pageCount
    split <;> omega
  rw [touchedPages_eq lower, Set.mem_Ico, segmentPages, List.mem_map]
  constructor
  · rintro ⟨k, inRange, rfl⟩
    rw [List.mem_range] at inRange
    omega
  · rintro ⟨aligned, above, inRange⟩
    exact ⟨page / 4096 - vaddr / 4096, List.mem_range.mpr (by omega), by omega⟩

/-- The tables on a walk depend on the page only. -/
theorem stations_congr (same : v / 4096 = w / 4096) (level : Nat) (p : List Nat) : stations v level p = stations w level p := by
  induction level generalizing p with
  | zero => rfl
  | succ level ih =>
    have index_eq : index (level + 1) v = index (level + 1) w := by
      have split : (2 : Nat) ^ (12 + 9 * (level + 1)) = 4096 * 2 ^ (9 * (level + 1)) := by rw [Nat.pow_add]
      rw [index, index, split, ← Nat.div_div_eq_div_mul, ← Nat.div_div_eq_div_mul, same]
    rw [stations, stations, index_eq, ih]

theorem stations_nodup (v level : Nat) (p : List Nat) : (stations v level p).Nodup := by
  induction level generalizing p with
  | zero => exact List.nodup_nil
  | succ level ih =>
    refine List.nodup_cons.mpr ⟨fun member => ?_, ih _⟩
    exact absurd (length_lt_of_mem_stations member) (lt_irrefl _)

/-- How many frames a list of pages takes: one for each, and one for each new table. -/
theorem framesNeeded_eq (known : List (List Nat)) (pages : List Nat) : framesNeeded known pages =
    pages.length + ((pages.flatMap fun v => stations v 3 []).toFinset \ known.toFinset).card := by
  induction pages generalizing known with
  | nil => simp [framesNeeded]
  | cons v rest ih =>
    have new : ((stations v 3 []).toFinset \ known.toFinset).card = (stations v 3 []).countP (· ∉ known) := by
      have filter : (stations v 3 []).toFinset \ known.toFinset = ((stations v 3 []).filter (· ∉ known)).toFinset := by
        ext q
        simp
      rw [filter, List.toFinset_card_of_nodup ((stations_nodup v 3 []).filter _), List.countP_eq_length_filter]
    have split : ((v :: rest).flatMap fun v => stations v 3 []).toFinset \ known.toFinset =
        ((stations v 3 []).toFinset \ known.toFinset) ∪
          ((rest.flatMap fun v => stations v 3 []).toFinset \ (stations v 3 [] ++ known).toFinset) := by
      ext q
      simp only [List.flatMap_cons, List.toFinset_append, Finset.mem_sdiff, Finset.mem_union, List.mem_toFinset]
      tauto
    have apart : Disjoint ((stations v 3 []).toFinset \ known.toFinset)
        ((rest.flatMap fun v => stations v 3 []).toFinset \ (stations v 3 [] ++ known).toFinset) :=
      Finset.disjoint_left.mpr fun q first second => by
        simp only [List.toFinset_append, Finset.mem_sdiff, Finset.mem_union, List.mem_toFinset] at first second
        exact second.2 (Or.inl first.1)
    rw [split, Finset.card_union_of_disjoint apart, new, framesNeeded, ih, List.length_cons]
    omega

theorem framesNeeded_le (known : List (List Nat)) (pages : List Nat) : framesNeeded known pages ≤ 4 * pages.length := by
  induction pages generalizing known with
  | nil => exact le_rfl
  | cons v rest ih =>
    have few : (stations v 3 []).countP (· ∉ known) ≤ 3 := List.countP_le_length
    have later := ih (stations v 3 [] ++ known)
    rw [framesNeeded, List.length_cons]
    omega

/-- The tables of a tree can be listed. -/
theorem KernelInv.knows (inv : KernelInv K A s g) (r : Nat) : ∃ known, g.Knows r known := by
  have finite : {q | g.Has r q}.Finite := by
    refine ((Set.finite_Iio (2 ^ 39)).image fun t => ((g.owner t).getD (0, [])).2).subset ?_
    rintro q ⟨t, place⟩
    have page := inv.page place
    exact ⟨t, by rw [Set.mem_Iio]; omega, by simp [place]⟩
  exact ⟨finite.toFinset.toList, fun q => by simp⟩

theorem stations_segmentPages {q : List Nat} (lower : vaddr + memsz ≤ 2 ^ 47) :
    (∃ page ∈ segmentPages vaddr memsz, q ∈ stations page 3 []) ↔ ∃ i < memsz, q ∈ stations (vaddr + i) 3 [] := by
  constructor
  · rintro ⟨page, inRange, member⟩
    obtain ⟨_, i, bound, same⟩ := (mem_segmentPages lower).mp inRange
    exact ⟨i, bound, by rwa [stations_congr same]⟩
  · rintro ⟨i, bound, member⟩
    refine ⟨(vaddr + i) / 4096 * 4096, (mem_segmentPages lower).mpr ⟨by omega, i, bound, by omega⟩, ?_⟩
    rwa [stations_congr (show (vaddr + i) / 4096 * 4096 / 4096 = (vaddr + i) / 4096 by omega)]

theorem missingTables_eq (knows : g.Knows r known) (lower : vaddr + memsz ≤ 2 ^ 47) : missingTables g r vaddr memsz =
    ((segmentPages vaddr memsz).flatMap fun v => stations v 3 []).toFinset \ known.toFinset := by
  ext q
  simp only [missingTables, Set.mem_ofPred_eq, knows q, Finset.coe_sdiff, Set.mem_sdiff, Finset.mem_coe, List.mem_toFinset,
    List.mem_flatMap]
  exact and_comm.trans (and_congr_left fun _ => (stations_segmentPages lower).symm)

theorem sectionFrames_eq (knows : g.Knows r known) (lower : vaddr + memsz ≤ 2 ^ 47) :
    sectionFrames g r vaddr memsz = framesNeeded known (segmentPages vaddr memsz) := by
  rw [sectionFrames, touchedPages_ncard lower, missingTables_eq knows lower, framesNeeded_eq, Set.ncard_coe_finset,
    segmentPages, List.length_map, List.length_range]

end count

/-- The segment is in the address space, in fresh frames, and nothing else has changed there. -/
structure LaidOut (K : KernelImage) (A : Arena) (s : Kernel) (g : Ghost) (s' : Kernel) (g' : Ghost)
    (r vaddr src memsz filesz : Nat) : Prop where
  inv : KernelInv K A s' g'
  spaces : g'.spaces = g.spaces
  bytes : ∀ i < memsz, readVirtual s'.mem r (vaddr + i) = some (if i < filesz then s.mem (src + i) else 0)
  rest : ∀ v, v / 4096 ∈ touchedPages vaddr memsz → v < vaddr ∨ vaddr + memsz ≤ v → readVirtual s'.mem r v = some 0
  mapped : ∀ v, v / 4096 ∈ touchedPages vaddr memsz → ∃ f ∈ g.free.take (sectionFrames g r vaddr memsz), g'.Data A f ∧
    walk s'.mem r v = some ⟨f + v % 4096, true, true⟩
  free : g'.free = g.free.drop (sectionFrames g r vaddr memsz)
  tables : ∀ q, g'.Has r q ↔ g.Has r q ∨ q ∈ missingTables g r vaddr memsz
  others : ∀ v, v / 4096 ∉ touchedPages vaddr memsz → walk s'.mem r v = walk s.mem r v

section layout
variable {K : KernelImage} {A : Arena} {s s' : Kernel} {g g' : Ghost} {r n vaddr src memsz filesz v : Nat}
  {known : List (List Nat)} {pages : Pages}

theorem mem_placesAfter {pages : List Nat} {q : List Nat} :
    q ∈ placesAfter known pages ↔ q ∈ known ∨ ∃ v ∈ pages, q ∈ stations v 3 [] := by
  induction pages generalizing known with
  | nil => simp [placesAfter]
  | cons v rest ih =>
    simp only [placesAfter, ih, List.mem_append, List.mem_cons, exists_eq_or_imp]
    tauto

/-- Loading leaves the translation of every page alone that it does not put in. -/
theorem Loaded.walk_others (loaded : Loaded K A s g s' g' r n pages) (inv : KernelInv K A s g) (space : g.spaces r)
    (away : v < 2 ^ 47 → pages (v / 4096) = none) : walk s'.mem r v = walk s.mem r v := by
  have space' : g'.spaces r := loaded.spaces ▸ space
  by_cases low : v < 2 ^ 47
  · have page : pageAt s'.mem r (pageKey v) = pageAt s.mem r (pageKey v) := by
      refine loaded.others (leafKey_of_space inv space (index_three_of_lower low)) fun _ w low' same => ?_
      have number := pageKey_eq_iff.mp same
      rw [show w / 4096 = v / 4096 by omega]
      exact away low
    rw [walk_lower loaded.inv space' low, walk_lower inv space low, page]
  · by_cases high : 2 ^ 64 - 2 ^ 47 ≤ v ∧ v < 2 ^ 64
    · rw [walk_upper loaded.inv space' high.1 high.2, walk_upper inv space high.1 high.2]
      by_cases dynamic : InDynamic v
      · have page : pageAt s'.mem K.kernelPagedirtable (dynamicKey v) = pageAt s.mem K.kernelPagedirtable (dynamicKey v) :=
          loaded.others (leafKey_dynamic K g dynamic.2) fun same => absurd same.symm (inv.space_ne space)
        rw [if_pos dynamic, if_pos dynamic, page]
      · rw [if_neg dynamic, if_neg dynamic]
    · have outside : ¬Canonical v := fun canonical => canonical.elim low high
      rw [walk, walk, if_neg outside, if_neg outside]

/-- `copy_section` lays out a segment in the lower half exactly: the loop ends, every byte of
the pages is the file's or zero, the frames are counted, just the segment's bytes of the file
are read, each once and in order, and no other translation changes. -/
theorem copySection_exact (inv : KernelInv K A s g) (space : g.spaces r) (lower : vaddr + memsz ≤ 2 ^ 47)
    (fits : filesz ≤ memsz) (room : src + filesz ≤ 2 ^ 39) (enough : sectionFrames g r vaddr memsz ≤ g.free.length)
    (apart : ∀ i < filesz, g.Apart r (sectionFrames g r vaddr memsz) (src + i)) :
    ∃ s' g', copySection s (linearAddressToPtr r) vaddr (linearAddressToPtr src) memsz filesz = .ok s' ∧
      LaidOut K A s g s' g' r vaddr src memsz filesz ∧
      (Reading.copySection s (linearAddressToPtr r) vaddr (linearAddressToPtr src) memsz filesz).events =
        (List.range filesz).map fun i => linearAddressToPtr (src + i) := by
  obtain ⟨known, knows⟩ := inv.knows r
  have count := sectionFrames_eq knows lower
  have touched := touchedPages_eq lower
  rw [count] at enough apart
  obtain ⟨s', g', run, knows', -, laid⟩ := (copySection_loaded inv space knows lower fits room).1 enough
  have loaded := laid apart
  have space' : g'.spaces r := loaded.spaces ▸ space
  have isTouched {v : Nat} (page : v / 4096 ∈ touchedPages vaddr memsz) : v < 2 ^ 47 ∧
      Pages.range (vaddr / 4096) (pageCount vaddr memsz) (segmentByte s.mem src vaddr filesz) (v / 4096) =
        some fun o => segmentByte s.mem src vaddr filesz (4096 * (v / 4096) + o) := by
    have inRange := page
    obtain ⟨i, bound, same⟩ := page
    rw [touched, Set.mem_Ico] at inRange
    exact ⟨by omega, if_pos inRange⟩
  have shown {v : Nat} (page : v / 4096 ∈ touchedPages vaddr memsz) :
      readVirtual s'.mem r v = some (segmentByte s.mem src vaddr filesz v) := by
    obtain ⟨low, found⟩ := isTouched page
    rw [loaded.readVirtual space low found, Nat.div_add_mod]
  refine ⟨s', g', run, ?_, ?_⟩
  · refine ⟨loaded.inv, loaded.spaces, fun i bound => ?_, fun v page outside => ?_, fun v page => ?_, ?_, fun q => ?_,
      fun v away => ?_⟩
    · rw [shown ⟨i, bound, rfl⟩, segmentByte, Nat.add_sub_cancel_left]
      exact congrArg some (if_congr (by omega) rfl rfl)
    · rw [shown page, segmentByte, if_neg (by omega)]
    · obtain ⟨low, found⟩ := isTouched page
      obtain ⟨f, fresh, data, mapped, -⟩ := loaded.page low found
      refine ⟨f, count ▸ fresh, data, ?_⟩
      rw [walk_lower loaded.inv space' low, mapped, Option.map_some]
    · rw [loaded.rest, count]
    · rw [knows', mem_placesAfter, ← knows, stations_segmentPages lower, missingTables, Set.mem_ofPred_eq]
      tauto
    · refine loaded.walk_others inv space fun _ => if_neg ?_
      rwa [touched, Set.mem_Ico] at away
  · have whole : min filesz (0x1000 * pageCount vaddr memsz - vaddr % 0x1000) = filesz := by
      unfold pageCount
      split_ifs with more
      · omega
      · have empty : memsz = 0 := by
          by_contra some
          exact more ⟨by omega, by omega⟩
        omega
    rw [copySection_reads run, whole]
    refine List.map_congr_left fun i inside => ?_
    have bound := List.mem_range.mp inside
    rw [linearAddressToPtr_of_lt (by omega), linearAddressToPtr_of_lt (by omega), linearStart]
    omega

end layout

theorem sharedPageFile_apart {s : Kernel} (inv : KernelInv smallImage smallMemory.arena s (Ghost.boot smallImage smallMemory.arena))
    (n k : Nat) : (Ghost.boot smallImage smallMemory.arena).Apart 0x1200000 n (0x1900000 + k) := by
  refine ⟨fun t p owned => ?_, fun f member => ?_⟩
  · obtain ⟨rfl | rfl, -, -⟩ := owner_boot.mp owned
    · simp only [smallImage]
      omega
    · simp only [smallImage]
      omega
  · have upper := (inv.stack.frame (List.mem_of_mem_take member)).upper
    have last : smallMemory.arena.last = 0x1800000 := rfl
    omega

/-- Four bytes over a page boundary, three of them from the file. -/
theorem copySection_exact_boundary : ∃ s s' g', KernelInv smallImage smallMemory.arena s (Ghost.boot smallImage smallMemory.arena) ∧
    copySection s (linearAddressToPtr 0x1200000) 0x400ffe (linearAddressToPtr 0x1900000) 4 3 = .ok s' ∧
    LaidOut smallImage smallMemory.arena s (Ghost.boot smallImage smallMemory.arena) s' g' 0x1200000 0x400ffe 0x1900000 4 3 := by
  obtain ⟨s, -, inv, -⟩ := smallBoot sharedPageFile
  have free : (Ghost.boot smallImage smallMemory.arena).free.length = 1024 := by rw [Ghost.boot_free, frameRange_length]; rfl
  have enough : sectionFrames (Ghost.boot smallImage smallMemory.arena) 0x1200000 0x400ffe 4 ≤
      (Ghost.boot smallImage smallMemory.arena).free.length := by
    obtain ⟨known, knows⟩ := inv.knows 0x1200000
    have few := framesNeeded_le known (segmentPages 0x400ffe 4)
    have two : (segmentPages 0x400ffe 4).length = 2 := by decide
    rw [sectionFrames_eq knows (by decide), free]
    omega
  obtain ⟨s', g', run, laid, -⟩ := copySection_exact inv inv.kernelRoot (show 0x400ffe + 4 ≤ 2 ^ 47 by decide)
    (show 3 ≤ 4 by decide) (show 0x1900000 + 3 ≤ 2 ^ 39 by decide) enough fun i _ => sharedPageFile_apart inv _ i
  exact ⟨s, s', g', inv, run, laid⟩

end MetalToApp

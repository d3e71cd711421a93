import MetalToApp.SectionLayout

namespace MetalToApp
open ByteMemory Paging

section inside
variable {s : Kernel} {a len n p d o src : Nat}

/-- The pointers into a file of `len` bytes at the physical address `a`. -/
def InFile (a len p : Nat) : Prop := linearAddressToPtr a ≤ p ∧ p < linearAddressToPtr (a + len)

theorem inFile_iff (room : a + len ≤ 2 ^ 39) : InFile a len p ↔ linearStart + a ≤ p ∧ p < linearStart + a + len := by
  rw [InFile, linearAddressToPtr_of_lt (by omega), linearAddressToPtr_of_lt (by omega), Nat.add_assoc]

theorem InFile.window (room : a + len ≤ 2 ^ 39) (inside : InFile a len p) : window p 1 = .ok (p - linearStart) := by
  obtain ⟨above, below⟩ := (inFile_iff room).mp inside
  rw [MetalToApp.window, if_pos ⟨by omega, by rw [linearEnd, addrshift512G]; omega⟩]

/-- A load reads inside the file just when its place does not go over an end. -/
theorem inside_load (room : a + len ≤ 2 ^ 39) (positive : 0 < n) (small : n ≤ 8) :
    Traced.Inside (InFile a len) (Reading.load s n p) ↔ linearStart + a ≤ p % 2 ^ 64 ∧ p % 2 ^ 64 + n ≤ linearStart + a + len := by
  have bytes : Traced.Inside (InFile a len) (Reading.load s n p) ↔ ∀ i < n, InFile a len ((p + i) % 2 ^ 64) := by
    simp only [Traced.Inside, Reading.load_events, readBytes, List.forall_mem_map, List.mem_range]
  simp only [bytes, inFile_iff room]
  have top : linearStart + 2 ^ 39 < 2 ^ 64 := by decide
  constructor
  · intro all
    have first := all 0 positive
    have last := all (n - 1) (by omega)
    by_cases wraps : p % 2 ^ 64 + n ≤ 2 ^ 64
    · omega
    · have zero := all (2 ^ 64 - p % 2 ^ 64) (by omega)
      have start : 0 < linearStart := by decide
      omega
  · rintro ⟨above, below⟩ i bound
    omega

/-- A copy to physical memory reads until its source leaves the file or its target the window. -/
theorem inside_memcpy (room : a + len ≤ 2 ^ 39) (below : d ≤ 2 ^ 39) :
    (∀ p ∈ memcpyReads (linearStart + d) src n, InFile a len p) ↔ ∀ j < n, d + j ≤ 2 ^ 39 → InFile a len (src + j) := by
  induction n generalizing d src with
  | zero => exact ⟨fun _ j bound => absurd bound (Nat.not_lt_zero j), fun _ => nofun⟩
  | succ n ih =>
    constructor
    · intro all j bound reached
      have first := all src List.mem_cons_self
      cases j with
      | zero => exact first
      | succ j =>
        have target : window (linearStart + d) 1 = .ok d := by
          rw [window, if_pos ⟨by omega, by rw [linearEnd, addrshift512G]; omega⟩, Nat.add_sub_cancel_left]
        rw [memcpyReads, first.window room, target] at all
        have rest := (@ih (d + 1) (src + 1) (by omega)).mp
          (fun p member => all p (List.mem_cons_of_mem _ member)) j (by omega) (by omega)
        rwa [Nat.add_assoc, Nat.add_comm 1] at rest
    · intro all p member
      have first : InFile a len src := all 0 (by omega) below
      rw [memcpyReads, first.window room] at member
      rcases List.mem_cons.mp member with rfl | later
      · exact first
      · by_cases last : d = 2 ^ 39
        · have full : window (linearStart + d) 1 = .error .fault := by
            rw [last]
            rfl
          rw [full] at later
          cases later
        · have target : window (linearStart + d) 1 = .ok d := by
            rw [window, if_pos ⟨by omega, by rw [linearEnd, addrshift512G]; omega⟩, Nat.add_sub_cancel_left]
          rw [target] at later
          refine (@ih (d + 1) (src + 1) (by omega)).mpr (fun j bound reached => ?_) p later
          rw [Nat.add_assoc, Nat.add_comm 1]
          exact all (j + 1) (by omega) (by omega)

end inside

section loop
variable {K : KernelImage} {A : Arena} {s s' : Kernel} {g : Ghost} {r a len vaddr src memsz filesz : Nat}
  {known : List (List Nat)}

/-- With the frames for it, an iteration comes to its copy, over the first free frame. -/
theorem copyPage_starts (inv : KernelInv K A s g) (space : g.spaces r) (knows : g.Knows r known)
    (top : index 3 (vaddr - vaddr % 0x1000) < 256)
    (enough : framesNeeded known [vaddr - vaddr % 0x1000] ≤ g.free.length) :
    ∃ c t g', g.free.head? = some c ∧ c ∈ g.free.take (framesNeeded known [vaddr - vaddr % 0x1000]) ∧ g'.Data A c ∧
      Built K A s g t g' r (framesNeeded known [vaddr - vaddr % 0x1000]) ∧
      g'.Knows r (placesAfter known [vaddr - vaddr % 0x1000]) ∧
      ∀ src filesz, Reading.copyPage s (linearAddressToPtr r) vaddr src filesz =
        if toCopy filesz (vaddr % 0x1000) > 0 then
          Reading.memcpy t (linearAddressToPtr (c + vaddr % 0x1000)) src (toCopy filesz (vaddr % 0x1000)) >>= fun t =>
            pure ((src + toCopy filesz (vaddr % 0x1000)) % 2 ^ 64, filesz - toCopy filesz (vaddr % 0x1000), t)
        else pure (src, filesz, t) := by
  simp only [framesNeeded, placesAfter, Nat.add_zero] at enough ⊢
  rw [← knows.missing] at enough ⊢
  obtain ⟨c, s₁, s₂, g', first, alloc, map, mapped, -, places⟩ := mapZeroed inv space top enough
  refine ⟨c, s₂, g', first, mapped.fresh, mapped.data, mapped.toBuilt, fun q => ?_, fun src filesz => ?_⟩
  · rw [places, List.mem_append, ← knows q, or_comm]
  · rw [Reading.copyPage, alloc, Traced.silent_ok_bind]
    simp only [map, Traced.silent_ok_bind]

/-- Without them it reads nothing. -/
theorem copyPage_short (inv : KernelInv K A s g) (space : g.spaces r) (knows : g.Knows r known)
    (top : g.free ≠ [] → index 3 (vaddr - vaddr % 0x1000) < 256)
    (short : g.free.length < framesNeeded known [vaddr - vaddr % 0x1000]) (src filesz : Nat) (P : Nat → Prop) :
    Traced.Inside P (Reading.copyPage s (linearAddressToPtr r) vaddr src filesz) := by
  -- An empty copy would get past the allocation and the mapping.
  have panic : copyPage s (linearAddressToPtr r) vaddr src 0 = .error .panic := copyPage_panic inv space knows top short src
  have empty : toCopy 0 (vaddr % 0x1000) = 0 := by
    rw [toCopy, if_neg (by omega)]
  refine Traced.inside_bind.mpr ⟨Traced.inside_silent _, fun q alloc => ?_⟩
  refine Traced.inside_bind.mpr ⟨Traced.inside_silent _, fun t map => ?_⟩
  simp only [Traced.silent_result] at alloc map
  simp only [copyPage, alloc, Outcome.ok_bind, map, empty, lt_irrefl, if_false, Outcome.pure_eq_ok] at panic
  cases panic

/-- With the frames for it, an iteration reads the bytes of its copy. A copy that stays in the
page and in the file succeeds. -/
theorem copyPage_inside (inv : KernelInv K A s g) (space : g.spaces r) (knows : g.Knows r known) (room : a + len ≤ 2 ^ 39)
    (top : index 3 (vaddr - vaddr % 0x1000) < 256) (enough : framesNeeded known [vaddr - vaddr % 0x1000] ≤ g.free.length)
    (src filesz : Nat) :
    (Traced.Inside (InFile a len) (Reading.copyPage s (linearAddressToPtr r) vaddr src filesz) ↔
      ∀ j < toCopy filesz (vaddr % 0x1000), g.free.getD 0 0 + vaddr % 0x1000 + j ≤ 2 ^ 39 → InFile a len (src + j)) ∧
    (vaddr % 0x1000 + toCopy filesz (vaddr % 0x1000) ≤ 4096 →
      (∀ j < toCopy filesz (vaddr % 0x1000), InFile a len (src + j)) →
      ∃ s' g', copyPage s (linearAddressToPtr r) vaddr src filesz =
          .ok (src + toCopy filesz (vaddr % 0x1000), filesz - toCopy filesz (vaddr % 0x1000), s') ∧
        Built K A s g s' g' r (framesNeeded known [vaddr - vaddr % 0x1000]) ∧
        g'.Knows r (placesAfter known [vaddr - vaddr % 0x1000])) ∧
    g.free.getD 0 0 + 4096 ≤ 2 ^ 39 := by
  obtain ⟨c, t, g', first, fresh, data, built, knows', starts⟩ := copyPage_starts inv space knows top enough
  have frame : g.free.getD 0 0 = c := by
    rw [List.getD_eq_getElem?_getD, ← List.head?_eq_getElem?, first, Option.getD_some]
  have room' := data.frame.room
  have target : linearAddressToPtr (c + vaddr % 0x1000) = linearStart + (c + vaddr % 0x1000) :=
    linearAddressToPtr_of_lt (by omega)
  rw [frame]
  refine ⟨?_, fun within inside => ?_, room'⟩
  · rw [starts]
    by_cases more : toCopy filesz (vaddr % 0x1000) > 0
    · rw [if_pos more, Traced.inside_bind, target]
      refine (and_iff_left fun _ _ => Traced.inside_pure _).trans ?_
      exact inside_memcpy room (show c + vaddr % 0x1000 ≤ 2 ^ 39 by omega)
    · rw [if_neg more]
      exact ⟨fun _ j bound => by omega, fun _ => Traced.inside_pure _⟩
  · have page := (Reading.copyPage_result s (linearAddressToPtr r) vaddr src filesz).symm
    rw [starts] at page
    by_cases more : toCopy filesz (vaddr % 0x1000) > 0
    · have low := ((inFile_iff room).mp (inside 0 more)).1
      have high := ((inFile_iff room).mp (inside (toCopy filesz (vaddr % 0x1000) - 1) (by omega))).2
      have source : window src (toCopy filesz (vaddr % 0x1000)) = .ok (src - linearStart) := by
        rw [window, if_pos ⟨by omega, by rw [linearEnd, addrshift512G]; omega⟩]
      have dest : window (linearAddressToPtr (c + vaddr % 0x1000)) (toCopy filesz (vaddr % 0x1000)) = .ok (c + vaddr % 0x1000) :=
        window_linear_zero (by omega) (by omega)
      have top : linearStart + 2 ^ 39 < 2 ^ 64 := by decide
      have next : (src + toCopy filesz (vaddr % 0x1000)) % 2 ^ 64 = src + toCopy filesz (vaddr % 0x1000) := by omega
      rw [if_pos more, Traced.bind_result, Reading.memcpy_result, Kernel.memcpy, if_neg (by omega), dest, Outcome.ok_bind,
        source, Outcome.ok_bind, Outcome.pure_eq_ok, Outcome.ok_bind, next] at page
      exact ⟨_, g', page, built.write data fresh fun x away => memcpy_outside (by omega), knows'⟩
    · have none : toCopy filesz (vaddr % 0x1000) = 0 := by omega
      rw [if_neg more] at page
      rw [none]
      exact ⟨t, g', page, built, knows'⟩

/-- The bytes of a segment that lie on pages which so many free frames suffice for are in the file. -/
def PagesInside (a len : Nat) (known : List (List Nat)) (free vaddr src memsz filesz : Nat) : Prop :=
  ∀ j < filesz, (vaddr % 0x1000 + j) / 0x1000 < (segmentPages vaddr memsz).length →
    framesNeeded known ((segmentPages vaddr memsz).take ((vaddr % 0x1000 + j) / 0x1000 + 1)) ≤ free → InFile a len (src + j)

theorem pagesInside_done (done : ¬MoreToCopy memsz) (free : Nat) : PagesInside a len known free vaddr src memsz filesz := by
  intro j _ page
  rw [segmentPages_done done] at page
  exact absurd page (Nat.not_lt_zero _)

theorem pagesInside_short {free : Nat} (bound : vaddr < 2 ^ 64) (more : MoreToCopy memsz)
    (short : free < framesNeeded known [vaddr - vaddr % 0x1000]) : PagesInside a len known free vaddr src memsz filesz := by
  intro j _ _ enough
  rw [segmentPages_next bound more, List.take_succ_cons, ← List.singleton_append, framesNeeded_append] at enough
  omega

/-- The bytes of the first page, and then those of the others. -/
theorem pagesInside_next {free : Nat} (bound : vaddr < 2 ^ 64) (more : MoreToCopy memsz) (fits : filesz + vaddr % 0x1000 < 2 ^ 64)
    (first : framesNeeded known [vaddr - vaddr % 0x1000] ≤ free) :
    PagesInside a len known free vaddr src memsz filesz ↔ (∀ j < toCopy filesz (vaddr % 0x1000), InFile a len (src + j)) ∧
      PagesInside a len (placesAfter known [vaddr - vaddr % 0x1000]) (free - framesNeeded known [vaddr - vaddr % 0x1000])
        (nextPage vaddr) (src + toCopy filesz (vaddr % 0x1000)) (memszLeft vaddr memsz) (filesz - toCopy filesz (vaddr % 0x1000)) := by
  have pages := segmentPages_next bound more
  have aligned : nextPage vaddr % 0x1000 = 0 := by
    unfold nextPage
    omega
  have inside : vaddr % 0x1000 < 0x1000 := Nat.mod_lt _ (by decide)
  have amount : toCopy filesz (vaddr % 0x1000) = min filesz (0x1000 - vaddr % 0x1000) := by
    unfold toCopy
    split <;> omega
  have length : (segmentPages vaddr memsz).length = (segmentPages (nextPage vaddr) (memszLeft vaddr memsz)).length + 1 := by
    rw [pages, List.length_cons]
  have taken (k : Nat) : framesNeeded known ((segmentPages vaddr memsz).take (k + 1)) =
      framesNeeded known [vaddr - vaddr % 0x1000] + framesNeeded (placesAfter known [vaddr - vaddr % 0x1000])
        ((segmentPages (nextPage vaddr) (memszLeft vaddr memsz)).take k) := by
    rw [pages, List.take_succ_cons, ← List.singleton_append, framesNeeded_append]
  constructor
  · refine fun all => ⟨fun j bound => ?_, fun j inFile inRange enough => ?_⟩
    · have zero : (vaddr % 0x1000 + j) / 0x1000 = 0 := by omega
      refine all j (by omega) (by omega) ?_
      rw [zero, taken, List.take_zero]
      exact first
    · have number : (vaddr % 0x1000 + (toCopy filesz (vaddr % 0x1000) + j)) / 0x1000 =
          (nextPage vaddr % 0x1000 + j) / 0x1000 + 1 := by omega
      have byte := all (toCopy filesz (vaddr % 0x1000) + j) (by omega) (by omega) (by
        rw [number, taken]
        omega)
      rwa [Nat.add_assoc]
  · rintro ⟨here, later⟩ j inFile inRange enough
    by_cases now : j < toCopy filesz (vaddr % 0x1000)
    · exact here j now
    · obtain ⟨j', rfl⟩ : ∃ j', j = toCopy filesz (vaddr % 0x1000) + j' := ⟨j - toCopy filesz (vaddr % 0x1000), by omega⟩
      have number : (vaddr % 0x1000 + (toCopy filesz (vaddr % 0x1000) + j')) / 0x1000 =
          (nextPage vaddr % 0x1000 + j') / 0x1000 + 1 := by omega
      rw [number, taken] at enough
      have byte := later j' (by omega) (by omega) (by omega)
      rwa [← Nat.add_assoc]

/-- Once the first page's bytes are in the file, the rest of the loop decides. -/
theorem copyPage_inside_bind {β : Type} {F : Nat × Nat × Kernel → Traced Nat Halt β} (inv : KernelInv K A s g) (space : g.spaces r)
    (knows : g.Knows r known) (room : a + len ≤ 2 ^ 39) (top : index 3 (vaddr - vaddr % 0x1000) < 256)
    (enough : framesNeeded known [vaddr - vaddr % 0x1000] ≤ g.free.length) (fits : filesz + vaddr % 0x1000 < 2 ^ 64) :
    (Traced.Inside (InFile a len) (Reading.copyPage s (linearAddressToPtr r) vaddr src filesz >>= F) →
      ∀ j < toCopy filesz (vaddr % 0x1000), InFile a len (src + j)) ∧
    ((∀ j < toCopy filesz (vaddr % 0x1000), InFile a len (src + j)) → ∃ s₁ g₁,
      copyPage s (linearAddressToPtr r) vaddr src filesz =
        .ok (src + toCopy filesz (vaddr % 0x1000), filesz - toCopy filesz (vaddr % 0x1000), s₁) ∧
      Built K A s g s₁ g₁ r (framesNeeded known [vaddr - vaddr % 0x1000]) ∧
      g₁.Knows r (placesAfter known [vaddr - vaddr % 0x1000]) ∧
      (Traced.Inside (InFile a len) (Reading.copyPage s (linearAddressToPtr r) vaddr src filesz >>= F) ↔
        Traced.Inside (InFile a len) (F (src + toCopy filesz (vaddr % 0x1000), filesz - toCopy filesz (vaddr % 0x1000), s₁)))) := by
  obtain ⟨reads, copies, room'⟩ := copyPage_inside inv space knows room top enough src filesz
  have inside : vaddr % 0x1000 < 0x1000 := Nat.mod_lt _ (by decide)
  have within : vaddr % 0x1000 + toCopy filesz (vaddr % 0x1000) ≤ 0x1000 := by
    unfold toCopy
    split <;> omega
  have page : Traced.Inside (InFile a len) (Reading.copyPage s (linearAddressToPtr r) vaddr src filesz) ↔
      ∀ j < toCopy filesz (vaddr % 0x1000), InFile a len (src + j) :=
    reads.trans ⟨fun all j bound => all j bound (by omega), fun all j bound _ => all j bound⟩
  refine ⟨fun all => page.mp (Traced.inside_bind.mp all).1, fun here => ?_⟩
  obtain ⟨s₁, g₁, run, built, knows₁⟩ := copies within here
  have result := (Reading.copyPage_result s (linearAddressToPtr r) vaddr src filesz).trans run
  exact ⟨s₁, g₁, run, built, knows₁, (Traced.inside_bind_ok result).trans (and_iff_right (page.mpr here))⟩

theorem Built.left {g' : Ghost} {n : Nat} (built : Built K A s g s' g' r n) : g'.free.length = g.free.length - n := by
  have used := built.count
  omega

/-- The pages that the copy of a segment gets a frame for lie in the lower half. Where the test
wraps it does not come to a second page. -/
def LowReached (free : Nat) (known : List (List Nat)) (vaddr memsz filesz : Nat) : Prop :=
  ∀ k page, (segmentPages vaddr memsz)[k]? = some page → (2 ^ 64 ≤ filesz + vaddr % 0x1000 → k = 0) →
    framesNeeded known ((segmentPages vaddr memsz).take k) < free → page / 2 ^ 47 % 2 = 0

theorem LowReached.first {free : Nat} (low : LowReached free known vaddr memsz filesz) (bound : vaddr < 2 ^ 64)
    (more : MoreToCopy memsz) (some : 0 < free) : index 3 (vaddr - vaddr % 0x1000) < 256 := by
  refine (index_three_iff _).mpr (low 0 _ ?_ (fun _ => rfl) some)
  rw [segmentPages_next bound more, List.getElem?_cons_zero]

theorem LowReached.rest {free : Nat} (low : LowReached free known vaddr memsz filesz) (filesz' : Nat) (bound : vaddr < 2 ^ 64)
    (more : MoreToCopy memsz) (fits : filesz + vaddr % 0x1000 < 2 ^ 64)
    (first : framesNeeded known [vaddr - vaddr % 0x1000] ≤ free) :
    LowReached (free - framesNeeded known [vaddr - vaddr % 0x1000]) (placesAfter known [vaddr - vaddr % 0x1000])
      (nextPage vaddr) (memszLeft vaddr memsz) filesz' := by
  intro k page found _ enough
  refine low (k + 1) page ?_ (fun wraps => by omega) ?_
  · rw [segmentPages_next bound more, List.getElem?_cons_succ]
    exact found
  · rw [segmentPages_next bound more, List.take_succ_cons, ← List.singleton_append, framesNeeded_append]
    omega

/-- A segment whose test does not wrap is copied page by page: the bytes read are those of the
pages that there are frames for. -/
theorem copySection_inside (inv : KernelInv K A s g) (space : g.spaces r) (knows : g.Knows r known) (room : a + len ≤ 2 ^ 39)
    (bound : vaddr < 2 ^ 64) (low : LowReached g.free.length known vaddr memsz filesz)
    (fits : filesz + vaddr % 0x1000 < 2 ^ 64) :
    (Traced.Inside (InFile a len) (Reading.copySection s (linearAddressToPtr r) vaddr src memsz filesz) ↔
      PagesInside a len known g.free.length vaddr src memsz filesz) ∧
    (PagesInside a len known g.free.length vaddr src memsz filesz →
      (framesNeeded known (segmentPages vaddr memsz) ≤ g.free.length →
        ∃ s' g', copySection s (linearAddressToPtr r) vaddr src memsz filesz = .ok s' ∧
          Built K A s g s' g' r (framesNeeded known (segmentPages vaddr memsz)) ∧
          g'.Knows r (placesAfter known (segmentPages vaddr memsz))) ∧
      (g.free.length < framesNeeded known (segmentPages vaddr memsz) →
        ∃ e, copySection s (linearAddressToPtr r) vaddr src memsz filesz = .error e)) := by
  induction vaddr, memsz using segment_induction generalizing s g known src filesz with
  | done vaddr memsz done =>
    refine ⟨⟨fun _ => pagesInside_done done _, fun _ => ?_⟩, fun _ => ?_⟩
    · rw [Reading.copySection_done done]
      exact Traced.inside_pure s
    · rw [segmentPages_done done, copySection_done done]
      exact ⟨fun _ => ⟨s, g, rfl, .refl inv, knows⟩, fun short => absurd short (Nat.not_lt_zero _)⟩
  | page vaddr memsz more ih =>
    have whole : segmentPages vaddr memsz = [vaddr - vaddr % 0x1000] ++ segmentPages (nextPage vaddr) (memszLeft vaddr memsz) := by
      rw [List.singleton_append, segmentPages_next bound more]
    have top := low.first bound more
    rw [Reading.copySection_more more]
    by_cases first : framesNeeded known [vaddr - vaddr % 0x1000] ≤ g.free.length
    · have positive : 0 < framesNeeded known [vaddr - vaddr % 0x1000] := by
        rw [framesNeeded]
        omega
      have top := top (by omega)
      have low' := low.rest (filesz - toCopy filesz (vaddr % 0x1000)) bound more fits first
      obtain ⟨page, after⟩ := copyPage_inside_bind inv space knows room top first fits
      have small : nextPage vaddr < 2 ^ 64 := Nat.mod_lt _ (by decide)
      have aligned : nextPage vaddr % 0x1000 = 0 := by
        unfold nextPage
        omega
      have fits' : filesz - toCopy filesz (vaddr % 0x1000) + nextPage vaddr % 0x1000 < 2 ^ 64 := by omega
      rw [pagesInside_next bound more fits first]
      refine ⟨⟨fun all => ⟨page all, ?_⟩, fun both => ?_⟩, fun both => ?_⟩
      · obtain ⟨s₁, g₁, -, built, knows₁, rest⟩ := after (page all)
        have left := built.left
        exact left ▸ (ih built.inv (built.spaces ▸ space) knows₁ small (left ▸ low') fits').1.mp (rest.mp all)
      · obtain ⟨s₁, g₁, -, built, knows₁, rest⟩ := after both.1
        have left := built.left
        exact rest.mpr ((ih built.inv (built.spaces ▸ space) knows₁ small (left ▸ low') fits').1.mpr (left ▸ both.2))
      · obtain ⟨s₁, g₁, run, built, knows₁, -⟩ := after both.1
        have used := built.count
        have left := built.left
        obtain ⟨enough', short'⟩ := (ih built.inv (built.spaces ▸ space) knows₁ small (left ▸ low') fits').2 (left ▸ both.2)
        rw [copySection_next more run, whole, framesNeeded_append, placesAfter_append]
        refine ⟨fun enough => ?_, fun short => short' (by omega)⟩
        obtain ⟨s', g', run', built', knows'⟩ := enough' (by omega)
        exact ⟨s', g', run', built.trans built', knows'⟩
    · have short := Nat.lt_of_not_le first
      have top : g.free ≠ [] → index 3 (vaddr - vaddr % 0x1000) < 256 := fun some => top (List.length_pos_iff.mpr some)
      have panic : copyPage s (linearAddressToPtr r) vaddr src filesz = .error .panic :=
        copyPage_panic inv space knows top short src
      have result := (Reading.copyPage_result s (linearAddressToPtr r) vaddr src filesz).trans panic
      rw [Traced.inside_bind_error result, copySection_error more panic, whole, framesNeeded_append]
      refine ⟨⟨fun _ => pagesInside_short bound more short, fun _ => ?_⟩, fun _ => ⟨fun enough => ?_, fun _ => ⟨_, rfl⟩⟩⟩
      · exact copyPage_short inv space knows top short src filesz (InFile a len)
      · omega

/-- Where the test wraps, the first page copies all that the window of the frame allows, and faults. -/
theorem copySection_wraps (inv : KernelInv K A s g) (space : g.spaces r) (knows : g.Knows r known) (room : a + len ≤ 2 ^ 39)
    (bound : vaddr < 2 ^ 64) (small : filesz < 2 ^ 64) (low : LowReached g.free.length known vaddr memsz filesz)
    (more : MoreToCopy memsz) (wraps : 2 ^ 64 ≤ filesz + vaddr % 0x1000) :
    (Traced.Inside (InFile a len) (Reading.copySection s (linearAddressToPtr r) vaddr src memsz filesz) ↔
      ∀ j < filesz, framesNeeded known ((segmentPages vaddr memsz).take 1) ≤ g.free.length →
        g.free.getD 0 0 + vaddr % 0x1000 + j ≤ 2 ^ 39 → InFile a len (src + j)) ∧
    ∃ e, copySection s (linearAddressToPtr r) vaddr src memsz filesz = .error e := by
  have amount : toCopy filesz (vaddr % 0x1000) = filesz := by
    rw [toCopy, if_neg (by omega)]
  have pages := segmentPages_next bound more
  have top := low.first bound more
  obtain ⟨e, failed⟩ : ∃ e, copyPage s (linearAddressToPtr r) vaddr src filesz = .error e := by
    cases page : copyPage s (linearAddressToPtr r) vaddr src filesz with
    | error e => exact ⟨e, rfl⟩
    | ok q =>
      have fits := (copyPage_ok page).1
      omega
  have result := (Reading.copyPage_result s (linearAddressToPtr r) vaddr src filesz).trans failed
  refine ⟨?_, e, copySection_error more failed⟩
  rw [Reading.copySection_more more, Traced.inside_bind_error result, pages, List.take_succ_cons, List.take_zero]
  by_cases first : framesNeeded known [vaddr - vaddr % 0x1000] ≤ g.free.length
  · have positive : 0 < framesNeeded known [vaddr - vaddr % 0x1000] := by
      rw [framesNeeded]
      omega
    have reads := (copyPage_inside inv space knows room (top (by omega)) first src filesz).1
    rw [amount] at reads
    exact reads.trans ⟨fun all j inFile _ => all j inFile, fun all j inFile => all j inFile first⟩
  · exact ⟨fun _ j _ enough => absurd enough first,
      fun _ => copyPage_short inv space knows (fun some => top (List.length_pos_iff.mpr some)) (Nat.lt_of_not_le first) src filesz _⟩

theorem framesNeeded_start (known : List (List Nat)) {l l' : List Nat} (before : l <+: l') :
    framesNeeded known l ≤ framesNeeded known l' := by
  obtain ⟨rest, rfl⟩ := before
  rw [framesNeeded_append]
  exact Nat.le_add_right _ _

/-- Byte `j` of a segment is copied when the frames suffice for its page or, where the test
wraps, for the first page. -/
def Copies (g : Ghost) (known : List (List Nat)) (vaddr memsz filesz j : Nat) : Prop :=
  j < filesz ∧
    if 2 ^ 64 ≤ filesz + vaddr % 0x1000 then
      MoreToCopy memsz ∧ framesNeeded known ((segmentPages vaddr memsz).take 1) ≤ g.free.length ∧
        g.free.getD 0 0 + vaddr % 0x1000 + j ≤ 2 ^ 39
    else
      (vaddr % 0x1000 + j) / 0x1000 < (segmentPages vaddr memsz).length ∧
        framesNeeded known ((segmentPages vaddr memsz).take ((vaddr % 0x1000 + j) / 0x1000 + 1)) ≤ g.free.length

theorem copySection_inside_iff (inv : KernelInv K A s g) (space : g.spaces r) (knows : g.Knows r known) (room : a + len ≤ 2 ^ 39)
    (bound : vaddr < 2 ^ 64) (small : filesz < 2 ^ 64) (low : LowReached g.free.length known vaddr memsz filesz) :
    Traced.Inside (InFile a len) (Reading.copySection s (linearAddressToPtr r) vaddr src memsz filesz) ↔
      ∀ j, Copies g known vaddr memsz filesz j → InFile a len (src + j) := by
  by_cases wraps : 2 ^ 64 ≤ filesz + vaddr % 0x1000
  · simp only [Copies, if_pos wraps]
    by_cases more : MoreToCopy memsz
    · rw [(copySection_wraps inv space knows room bound small low more wraps).1]
      exact ⟨fun all j copied => all j copied.1 copied.2.2.1 copied.2.2.2,
        fun all j inFile enough reached => all j ⟨inFile, more, enough, reached⟩⟩
    · rw [Reading.copySection_done more]
      exact ⟨fun _ j copied => absurd copied.2.1 more, fun _ => Traced.inside_pure s⟩
  · simp only [Copies, if_neg wraps]
    rw [(copySection_inside inv space knows room bound low (by omega)).1]
    exact ⟨fun all j copied => all j copied.1 copied.2.1 copied.2.2,
      fun all j inFile inRange enough => all j ⟨inFile, inRange, enough⟩⟩

/-- The bytes that are copied are the first ones of the segment. -/
theorem Copies.zero {j : Nat} (copied : Copies g known vaddr memsz filesz j) : Copies g known vaddr memsz filesz 0 := by
  obtain ⟨inFile, rest⟩ := copied
  refine ⟨by omega, ?_⟩
  by_cases wraps : 2 ^ 64 ≤ filesz + vaddr % 0x1000
  · rw [if_pos wraps] at rest ⊢
    exact ⟨rest.1, rest.2.1, by have reached := rest.2.2; omega⟩
  · rw [if_neg wraps] at rest ⊢
    have zero : (vaddr % 0x1000 + 0) / 0x1000 = 0 := by omega
    have before : (segmentPages vaddr memsz).take (0 + 1) <+:
        (segmentPages vaddr memsz).take ((vaddr % 0x1000 + j) / 0x1000 + 1) := List.take_prefix_take_left (by omega)
    rw [zero]
    exact ⟨by omega, (framesNeeded_start known before).trans rest.2⟩

/-- Where the first byte is among those that are copied, they lie in the file just when their
offsets do. -/
theorem inFile_offset_iff {D : Nat → Prop} {off : Nat} (room : a + len ≤ 2 ^ 39) (small : off < 2 ^ 64)
    (first : ∀ j, D j → D 0) :
    (∀ j, D j → InFile a len ((linearAddressToPtr a + off) % 2 ^ 64 + j)) ↔ ∀ j, D j → off + j < len := by
  have start : linearAddressToPtr a = linearStart + a := linearAddressToPtr_of_lt (by omega)
  have top : linearStart + 2 ^ 39 < 2 ^ 64 := by decide
  simp only [inFile_iff room, start]
  constructor
  · intro all j member
    have here := all j member
    have zero := all 0 (first j member)
    omega
  · intro all j member
    have here := all j member
    have zero := all 0 (first j member)
    omega

/-- The loop over a segment that it has read inside the file returns when the test does not
wrap and the frames suffice. -/
theorem copySection_outcome (inv : KernelInv K A s g) (space : g.spaces r) (knows : g.Knows r known) (room : a + len ≤ 2 ^ 39)
    (bound : vaddr < 2 ^ 64) (small : filesz < 2 ^ 64) (low : LowReached g.free.length known vaddr memsz filesz)
    (inside : Traced.Inside (InFile a len) (Reading.copySection s (linearAddressToPtr r) vaddr src memsz filesz)) :
    (¬(MoreToCopy memsz ∧ 2 ^ 64 ≤ filesz + vaddr % 0x1000) → framesNeeded known (segmentPages vaddr memsz) ≤ g.free.length →
      ∃ s' g', copySection s (linearAddressToPtr r) vaddr src memsz filesz = .ok s' ∧
        Built K A s g s' g' r (framesNeeded known (segmentPages vaddr memsz)) ∧
        g'.Knows r (placesAfter known (segmentPages vaddr memsz))) ∧
    (MoreToCopy memsz ∧ 2 ^ 64 ≤ filesz + vaddr % 0x1000 ∨ g.free.length < framesNeeded known (segmentPages vaddr memsz) →
      ∃ e, copySection s (linearAddressToPtr r) vaddr src memsz filesz = .error e) := by
  by_cases wraps : 2 ^ 64 ≤ filesz + vaddr % 0x1000
  · by_cases more : MoreToCopy memsz
    · exact ⟨fun unwrapped => absurd ⟨more, wraps⟩ unwrapped,
        fun _ => (copySection_wraps inv space knows room bound small low more wraps).2⟩
    · rw [segmentPages_done more, copySection_done more]
      refine ⟨fun _ _ => ⟨s, g, rfl, .refl inv, knows⟩, fun stops => ?_⟩
      rcases stops with both | short
      · exact absurd both.1 more
      · exact absurd short (Nat.not_lt_zero _)
  · have fits : filesz + vaddr % 0x1000 < 2 ^ 64 := by omega
    obtain ⟨reads, runs⟩ := copySection_inside inv space knows room bound low fits
    obtain ⟨enough, short⟩ := runs (reads.mp inside)
    exact ⟨fun _ => enough, fun stops => short (stops.resolve_left fun both => wraps both.2)⟩

end loop

end MetalToApp

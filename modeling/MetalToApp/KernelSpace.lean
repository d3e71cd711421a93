import MetalToApp.Mapping

namespace MetalToApp
open ByteMemory Paging

/-- A pointer to a page table that the kernel can reach entry by entry. -/
def TablePtr (p t : Nat) : Prop := ∀ i < 512, window (p + 8 * i) 8 = .ok (t + 8 * i)

section pointers
variable {t : Nat}

theorem tablePtr_linear (room : t + 4096 ≤ 2 ^ 39) : TablePtr (linearAddressToPtr t) t :=
  fun i bound => window_linear (by omega) (by omega)

theorem tablePtr_kernel (K : KernelImage)
    (member : t ∈ [K.kernelPml4, K.kernelPagedir, K.kernelPagedirtable, K.kernelLinear]) :
    TablePtr (kernelBase + t) t := by
  intro i bound
  have inside := K.inside t member
  have mapped := K.mapped
  have above : ¬(linearStart ≤ kernelBase + t + 8 * i ∧ kernelBase + t + 8 * i + 8 ≤ linearEnd) := by
    simp only [linearStart, linearEnd, addrshift512G, kernelBase]
    omega
  have here : kernelBase ≤ kernelBase + t + 8 * i ∧ kernelBase + t + 8 * i + 8 ≤ kernelBase + kernelMapped := by omega
  rw [window, if_neg above, if_pos here, Nat.add_assoc, Nat.add_sub_cancel_left]

theorem pointerToLinearAddress_image (K : KernelImage)
    (member : t ∈ [K.kernelPml4, K.kernelPagedir, K.kernelPagedirtable, K.kernelLinear]) :
    pointerToLinearAddress (kernelBase + t) = .ok t := by
  have inside := K.inside t member
  have mapped := K.mapped
  simp only [kernelMapped, addrshift2M] at mapped
  exact pointerToLinearAddress_kernel inside.1 (by omega)

end pointers

/-- A loop that rewrites each of its entries on its own rewrites just these. -/
theorem forEntries_eq {s : Kernel} {t : Nat} (body : Kernel → Nat → Outcome Kernel) (first n : Nat) (aligned : t % 4096 = 0)
    (bound : first + n ≤ 512) (value : Nat → Nat → Nat)
    (step : ∀ s i, first ≤ i → i < first + n →
      body s i = .ok { s with mem := write64 s.mem (t + 8 * i) (value i (word s.mem t i)) }) :
    ∃ m, forEntries first body s n = .ok { s with mem := m } ∧
      (∀ i < 512, word m t i = if first ≤ i ∧ i < first + n then value i (word s.mem t i) % 2 ^ 64 else word s.mem t i) ∧
      ∀ x, x < t ∨ t + 4096 ≤ x → m x = s.mem x := by
  induction n with
  | zero => exact ⟨s.mem, rfl, fun i _ => (if_neg (by omega)).symm, fun _ _ => rfl⟩
  | succ n ih =>
    obtain ⟨m, run, words, outside⟩ := ih (by omega) fun s i lower upper => step s i lower (by omega)
    have last := step { s with mem := m } (first + n) (by omega) (by omega)
    refine ⟨write64 m (t + 8 * (first + n)) (value (first + n) (word m t (first + n))), ?_, fun i inside => ?_,
      fun x away => ?_⟩
    · simp only [forEntries, run, Outcome.ok_bind, last]
    · by_cases here : i = first + n
      · subst here
        rw [if_pos (by omega), word_write64_mod, words _ inside, if_neg (by omega)]
      · rw [word_write64_of_ne aligned aligned (by omega) inside fun _ => here, words i inside]
        by_cases done : first ≤ i ∧ i < first + n
        · rw [if_pos done, if_pos (by omega)]
        · rw [if_neg done, if_neg (by omega)]
    · rw [write64_outside (by omega), outside x away]

section init
variable {K : KernelImage} {s : Kernel} {p t : Nat}

/-- `init_address_space` clears the lower half of a root table and shares the upper. -/
theorem initAddressSpace_eq (K : KernelImage) (s : Kernel) (place : TablePtr p t) (aligned : t % 4096 = 0) :
    ∃ m, initAddressSpace K s p = .ok { s with mem := m } ∧
      (∀ i < 512, word m t i = if i < 256 then 0 else kernelWord K i) ∧
      ∀ x, x < t ∨ t + 4096 ≤ x → m x = s.mem x := by
  obtain ⟨cleared, loop, zero, outside⟩ := forEntries_eq (s := s) (fun s i => s.store64 (p + 8 * i) 0) 0 512
    aligned (by decide) (fun _ _ => 0) fun s i _ upper => store64_eq 0 (place i (by omega))
  have linear := K.page (t := K.kernelLinear) (by simp)
  have linearEntry := assignEntry_eq (s := { s with mem := cleared }) [(presentBit, true), (writableBit, true)]
    (place 256 (by decide)) linear.1 (by omega) (by simp [presentBit, writableBit])
  have table := K.page (t := K.kernelPagedirtable) (by simp)
  have shared := fillEntry_eq (s := { s with mem := write64 cleared (t + 8 * 256) (K.kernelLinear + 3) }) true
    (place 511 (by decide)) table.1 (by omega)
  refine ⟨write64 (write64 cleared (t + 8 * 256) (K.kernelLinear + 3)) (t + 8 * 511)
    (K.kernelPagedirtable + entryBits true), ?_, fun i bound => ?_, fun x away => ?_⟩
  · simp only [initAddressSpace, loop, Outcome.ok_bind, pointerToLinearAddress_image K (t := K.kernelLinear) (by simp),
      pointerToLinearAddress_image K (t := K.kernelPagedirtable) (by simp), linearEntry,
      show fieldBits 0 [(presentBit, true), (writableBit, true)] = 3 from rfl, shared]
  · have fits : K.kernelPagedirtable + entryBits true < 2 ^ 64 := by
      have := entryBits_lt true
      omega
    by_cases last : i = 511
    · subst last
      rw [word_write64_self fits]
      rfl
    · rw [word_write64_of_ne aligned aligned (by decide) bound fun _ => last]
      by_cases mid : i = 256
      · subst mid
        rw [word_write64_self (by omega)]
        rfl
      · rw [word_write64_of_ne aligned aligned (by decide) bound fun _ => mid, zero i bound, kernelWord, if_neg mid,
          if_neg last, ite_self, if_pos (by omega), Nat.zero_mod]
  · rw [write64_outside (by omega), write64_outside (by omega), outside x away]

end init

/-- The tables that `createKernelAddressSpace` fills in. -/
structure KernelTables (K : KernelImage) (m : Memory) : Prop where
  pml4 : ∀ i < 512, word m K.kernelPml4 i = if i < 256 then 0 else kernelWord K i
  linear : ∀ i < 512, word m K.kernelLinear i = i * addrshift1G + 0x83
  pagedirtable : ∀ i < 512, word m K.kernelPagedirtable i = if i = 510 then K.kernelPagedir + entryBits true else 0
  pagedir : ∀ i < 512, word m K.kernelPagedir i = pagedirWord i

/-- What making an entry of `kernel_pagedir` writable does to its word. -/
def writableWord (w : Nat) : Nat := withFlag (withFlag w writableBit true % 2 ^ 64) usermodeBit false

theorem makeWritable_eq {s : Kernel} {p t i : Nat} (place : window p 8 = .ok (t + 8 * i)) :
    setFlags s p [(writableBit, true), (usermodeBit, false)] =
      .ok { s with mem := write64 s.mem (t + 8 * i) (writableWord (word s.mem t i)) } := by
  have written (m : Memory) (v : Nat) : read64 (write64 m (t + 8 * i) v) (t + 8 * i) = v % 2 ^ 64 :=
    word_write64_mod m t i v
  simp only [setFlags, setFlag_eq _ place, Outcome.ok_bind, Outcome.pure_eq_ok, written, write64, writeLE_writeLE_self,
    writableWord]

theorem writableWord_add {f : Nat} (aligned : f % 4096 = 0) (room : f + 4096 ≤ 2 ^ 64) :
    writableWord (f + 0x81) = f + 0x83 := by
  rw [writableWord, withFlag_add aligned (by decide), show withFlag 0x81 writableBit true = 0x83 from rfl,
    Nat.mod_eq_of_lt (by omega), withFlag_add aligned (by decide)]
  rfl

section stages
variable (K : KernelImage) (s : Kernel)

theorem linearEntries_eq : ∃ m,
    forEntries 0 (fun s i => assignEntry s (kernelBase + K.kernelLinear + 8 * i) (i * addrshift1G)
      [(presentBit, true), (writableBit, true), (bigBit, true)]) s 512 = .ok { s with mem := m } ∧
    (∀ i < 512, word m K.kernelLinear i = i * addrshift1G + 0x83) ∧
    ∀ x, x < K.kernelLinear ∨ K.kernelLinear + 4096 ≤ x → m x = s.mem x := by
  have place := tablePtr_kernel K (t := K.kernelLinear) (by simp)
  obtain ⟨m, run, words, outside⟩ := forEntries_eq (s := s) (fun s i =>
      assignEntry s (kernelBase + K.kernelLinear + 8 * i) (i * addrshift1G)
        [(presentBit, true), (writableBit, true), (bigBit, true)]) 0 512 (K.page (by simp)).1 (by decide)
      (fun i _ => i * addrshift1G + 0x83) fun s i _ upper =>
    assignEntry_eq _ (place i (by omega)) (by simp only [addrshift1G]; omega) (by simp only [addrshift1G]; omega)
      (by simp [presentBit, writableBit, bigBit])
  refine ⟨m, run, fun i bound => ?_, outside⟩
  rw [words i bound, if_pos (by omega)]
  simp only [addrshift1G]
  omega

theorem pagedirtableEntries_eq : ∃ s₁ m,
    forEntries 0 (fun s i => s.store64 (kernelBase + K.kernelPagedirtable + 8 * i) 0) s 512 = .ok s₁ ∧
    fillEntry s₁ (kernelBase + K.kernelPagedirtable + 8 * 510) K.kernelPagedir true = .ok { s with mem := m } ∧
    (∀ i < 512, word m K.kernelPagedirtable i = if i = 510 then K.kernelPagedir + entryBits true else 0) ∧
    ∀ x, x < K.kernelPagedirtable ∨ K.kernelPagedirtable + 4096 ≤ x → m x = s.mem x := by
  have pagedir := K.page (t := K.kernelPagedir) (by simp)
  have table := K.page (t := K.kernelPagedirtable) (by simp)
  have place := tablePtr_kernel K (t := K.kernelPagedirtable) (by simp)
  obtain ⟨cleared, run, words, outside⟩ := forEntries_eq (s := s)
    (fun s i => s.store64 (kernelBase + K.kernelPagedirtable + 8 * i) 0) 0 512
    table.1 (by decide) (fun _ _ => 0) fun s i _ upper => store64_eq 0 (place i (by omega))
  have entry := fillEntry_eq (s := { s with mem := cleared }) true (place 510 (by decide)) pagedir.1 (by omega)
  refine ⟨_, _, run, entry, fun i bound => ?_, fun x away => ?_⟩
  · by_cases here : i = 510
    · rw [here, if_pos rfl, word_write64_self]
      have := entryBits_lt true
      omega
    · rw [if_neg here, word_write64_of_ne table.1 table.1 (by decide) bound fun _ => here, words i bound,
        if_pos (by omega), Nat.zero_mod]
  · exact (write64_outside (by omega)).trans (outside x away)

theorem writableWord_pagedir {i : Nat} (small : i < 16) : writableWord (i * addrshift2M + 0x81) % 2 ^ 64 = i * addrshift2M + 0x83 := by
  rw [writableWord_add (by simp only [addrshift2M]; omega) (by simp only [addrshift2M]; omega)]
  simp only [addrshift2M]
  omega

/-- Sixteen pages of the image, of which the first one and the last eight become writable. -/
theorem pagedirEntries_eq : ∃ s₁ s₂ s₃ m,
    forEntries 0 (fun s i => assignEntry s (kernelBase + K.kernelPagedir + 8 * i) (i * addrshift2M)
      [(presentBit, true), (writableBit, false), (bigBit, true), (usermodeBit, false)]) s 0x10 = .ok s₁ ∧
    forEntries 0x10 (fun s i => s.store64 (kernelBase + K.kernelPagedir + 8 * i) 0) s₁ 0x1f0 = .ok s₂ ∧
    forEntries 0x08 (fun s i => setFlags s (kernelBase + K.kernelPagedir + 8 * i)
      [(writableBit, true), (usermodeBit, false)]) s₂ 0x08 = .ok s₃ ∧
    setFlags s₃ (kernelBase + K.kernelPagedir + 8 * 0) [(writableBit, true), (usermodeBit, false)] = .ok { s with mem := m } ∧
    (∀ i < 512, word m K.kernelPagedir i = pagedirWord i) ∧
    ∀ x, x < K.kernelPagedir ∨ K.kernelPagedir + 4096 ≤ x → m x = s.mem x := by
  have aligned := (K.page (t := K.kernelPagedir) (by simp)).1
  have place := tablePtr_kernel K (t := K.kernelPagedir) (by simp)
  obtain ⟨m₁, run₁, words₁, outside₁⟩ := forEntries_eq (s := s) (fun s i =>
      assignEntry s (kernelBase + K.kernelPagedir + 8 * i) (i * addrshift2M)
        [(presentBit, true), (writableBit, false), (bigBit, true), (usermodeBit, false)]) 0 0x10 aligned (by decide)
      (fun i _ => i * addrshift2M + 0x81) fun s i _ upper =>
    assignEntry_eq _ (place i (by omega)) (by simp only [addrshift2M]; omega) (by simp only [addrshift2M]; omega)
      (by simp [presentBit, writableBit, bigBit, usermodeBit])
  obtain ⟨m₂, run₂, words₂, outside₂⟩ := forEntries_eq (s := { s with mem := m₁ })
    (fun s i => s.store64 (kernelBase + K.kernelPagedir + 8 * i) 0) 0x10 0x1f0
    aligned (by decide) (fun _ _ => 0) fun s i _ upper => store64_eq 0 (place i (by omega))
  obtain ⟨m₃, run₃, words₃, outside₃⟩ := forEntries_eq (s := { s with mem := m₂ })
    (fun s i => setFlags s (kernelBase + K.kernelPagedir + 8 * i) [(writableBit, true), (usermodeBit, false)]) 8 8
    aligned (by decide) (fun _ w => writableWord w) fun s i _ upper => makeWritable_eq (place i (by omega))
  have first := makeWritable_eq (s := { s with mem := m₃ }) (place 0 (by decide))
  refine ⟨_, _, _, _, run₁, run₂, run₃, first, fun i bound => ?_, fun x away => ?_⟩
  · have page (i : Nat) (small : i < 16) : word m₂ K.kernelPagedir i = i * addrshift2M + 0x81 := by
      rw [words₂ i (by omega), if_neg (by omega), words₁ i (by omega), if_pos (by omega)]
      simp only [addrshift2M]
      omega
    have late : word m₃ K.kernelPagedir i =
        if 8 ≤ i ∧ i < 16 then i * addrshift2M + 0x83 else word m₂ K.kernelPagedir i := by
      rw [words₃ i bound]
      split
      · rw [page i (by omega), writableWord_pagedir (by omega)]
      · rfl
    by_cases zero : i = 0
    · subst zero
      rw [if_neg (by decide), page 0 (by decide)] at late
      have value : writableWord (0 * addrshift2M + 0x81) % 2 ^ 64 = _ := writableWord_pagedir (by decide)
      rw [word_write64_mod, late, value]
      rfl
    · rw [word_write64_of_ne aligned aligned (by decide) bound fun _ => zero, late, pagedirWord]
      by_cases small : i < 16
      · rw [if_pos small, page i small]
        by_cases high : 8 ≤ i
        · rw [if_pos ⟨high, small⟩, if_pos (Or.inr high)]
        · rw [if_neg fun late => high late.1, if_neg (by omega)]
      · rw [if_neg small, if_neg (by omega), words₂ i bound, if_pos (by omega), Nat.zero_mod]
  · calc write64 m₃ (K.kernelPagedir + 8 * 0) _ x = m₃ x := write64_outside (by omega)
      _ = m₂ x := outside₃ x away
      _ = m₁ x := outside₂ x away
      _ = s.mem x := outside₁ x away

/-- Only the kernel's own tables are written. -/
theorem createKernelAddressSpace_run : ∃ m,
    createKernelAddressSpace K s = .ok (K.kernelPml4, { s with mem := m }) ∧ KernelTables K m ∧
      ∀ x, (∀ t ∈ [K.kernelPml4, K.kernelPagedir, K.kernelPagedirtable, K.kernelLinear], x < t ∨ t + 4096 ≤ x) →
        m x = s.mem x := by
  have pml4 := K.page (t := K.kernelPml4) (by simp)
  have linear := K.page (t := K.kernelLinear) (by simp)
  have pagedir := K.page (t := K.kernelPagedir) (by simp)
  have table := K.page (t := K.kernelPagedirtable) (by simp)
  have distinct := K.distinct
  simp only [List.nodup_cons, List.mem_cons, List.not_mem_nil, or_false, not_or, not_false_eq_true, List.nodup_nil,
    and_true] at distinct
  obtain ⟨⟨pml4Pagedir, pml4Table, pml4Linear⟩, ⟨pagedirTable, pagedirLinear⟩, tableLinear⟩ := distinct
  obtain ⟨m₁, run₁, words₁, outside₁⟩ := linearEntries_eq K s
  obtain ⟨s₂, m₂, run₂, entry, words₂, outside₂⟩ := pagedirtableEntries_eq K { s with mem := m₁ }
  obtain ⟨s₃, s₄, s₅, m₃, run₃, run₄, run₅, first, words₃, outside₃⟩ := pagedirEntries_eq K { s with mem := m₂ }
  obtain ⟨m, run, words, outside⟩ := initAddressSpace_eq K { s with mem := m₃ } (tablePtr_kernel K (by simp)) pml4.1
  refine ⟨m, ?_, ⟨words, fun i bound => ?_, fun i bound => ?_, fun i bound => ?_⟩, fun x away => ?_⟩
  · rw [createKernelAddressSpace, pointerToLinearAddress_image K (by simp), Outcome.ok_bind, run₁, Outcome.ok_bind, run₂,
      Outcome.ok_bind, pointerToLinearAddress_image K (by simp), Outcome.ok_bind, entry, Outcome.ok_bind, run₃,
      Outcome.ok_bind, run₄, Outcome.ok_bind, run₅, Outcome.ok_bind, first, Outcome.ok_bind, run, Outcome.ok_bind,
      Outcome.pure_eq_ok]
  · rw [word_outside pml4.1 linear.1 (Ne.symm pml4Linear) bound outside,
      word_outside pagedir.1 linear.1 (Ne.symm pagedirLinear) bound outside₃,
      word_outside table.1 linear.1 (Ne.symm tableLinear) bound outside₂, words₁ i bound]
  · rw [word_outside pml4.1 table.1 (Ne.symm pml4Table) bound outside,
      word_outside pagedir.1 table.1 (Ne.symm pagedirTable) bound outside₃, words₂ i bound]
  · rw [word_outside pml4.1 pagedir.1 (Ne.symm pml4Pagedir) bound outside, words₃ i bound]
  · calc m x = m₃ x := outside x (away K.kernelPml4 (by simp))
      _ = m₂ x := outside₃ x (away K.kernelPagedir (by simp))
      _ = m₁ x := outside₂ x (away K.kernelPagedirtable (by simp))
      _ = s.mem x := outside₁ x (away K.kernelLinear (by simp))

end stages

theorem createKernelAddressSpace_eq (K : KernelImage) (s : Kernel) :
    ∃ m, createKernelAddressSpace K s = .ok (K.kernelPml4, { s with mem := m }) ∧ KernelTables K m ∧
      ∀ x, K.freememoryStart ≤ x → m x = s.mem x := by
  obtain ⟨m, run, tables, outside⟩ := createKernelAddressSpace_run K s
  refine ⟨m, run, tables, fun x above => outside x fun t member => Or.inr ?_⟩
  exact (K.inside t member).2.trans above

/-- The bookkeeping after `create_address_space` has made `c` a root. -/
def Ghost.withSpace (g : Ghost) (c : Nat) : Ghost :=
  { g with spaces := fun x => x = c ∨ g.spaces x, owner := Function.update g.owner c (some (c, [])) }

@[simp] theorem Ghost.withSpace_free (g : Ghost) (c : Nat) : (g.withSpace c).free = g.free := rfl

section space
variable {K : KernelImage} {A : Arena} {s : Kernel} {g : Ghost} {c r i : Nat} {p : List Nat} {m : Memory}

theorem shape_withSpace (K : KernelImage) (g : Ghost) (c : Nat) :
    shape K (g.withSpace c).spaces = { shape K g.spaces with isRoot := fun x => x = c ∨ (shape K g.spaces).isRoot x } := by
  simp only [shape, Ghost.withSpace, or_assoc]

theorem KernelInv.withSpace (inv : KernelInv K A s g) (data : g.Data A c)
    (words : ∀ i < 512, word m c i = if i < 256 then 0 else kernelWord K i)
    (outside : ∀ x, x < c ∨ c + 4096 ≤ x → m x = s.mem x) : KernelInv K A { s with mem := m } (g.withSpace c) := by
  have aligned := data.frame.aligned
  have clear {q} (aligned' : q % 4096 = 0) (different : q ≠ c) : Agree s.mem m q 4096 := fun o inside =>
    outside _ (by omega)
  have differ {t x} (owned : g.owner t = some x) : t ≠ c := Radix.ne_of_owned data.notTable owned
  have kept {t x j} (owned : g.owner t = some x) (bound : j < 512) : word m t j = word s.mem t j :=
    word_congr (clear (inv.page owned).1 (differ owned)) bound
  have image {t} (member : t ∈ [K.kernelPml4, K.kernelPagedir, K.kernelPagedirtable, K.kernelLinear]) : t ≠ c :=
    fun same => inv.image_not_frame member (same ▸ data.frame)
  have notDynamic : c ≠ K.kernelPagedirtable := (image (by simp)).symm
  have low {j} (slot : (shape K g.spaces).slot c [] j) : word m c j = 0 := by
    have top := slot.2 rfl
    rw [if_neg notDynamic] at top
    rw [words j slot.1, if_pos top]
  have split {t r p} (owned : (g.withSpace c).owner t = some (r, p)) : t = c ∧ r = c ∧ p = [] ∨ g.owner t = some (r, p) :=
    (Radix.owned_or_added owned).imp (fun ⟨eq, pair⟩ => ⟨eq, Prod.mk.inj pair⟩) And.right
  have fixed : FixedWords K g.spaces m := inv.fixed.congr fun t j bound fixed => by
    have table := inv.ne_data data.frame data.notTable (inv.known_of_fixed fixed)
    exact word_congr (clear table.1 table.2) bound
  refine ⟨inv.above, ?_, ?_, Or.inr inv.kernelRoot, ?_, ?_, ?_, ?_, ?_, fixed.linear, fixed.pagedirtable, fixed.pagedir⟩
  · exact inv.stack.congr_mem fun f member => clear (inv.stack.frame member).aligned fun same => data.live (same ▸ member)
  · rw [shape_withSpace]
    refine inv.forest.plant data.notTable (fun j slot => ?_) fun t r p j owned _ slot => ?_
    · exact childTable_zero (low slot)
    · exact childTable_congr (kept owned slot.1)
  · rintro r (rfl | space)
    · exact notDynamic
    · exact inv.space_ne space
  · rintro t ⟨r, p⟩ owned
    rcases split owned with ⟨rfl, -⟩ | owned
    · exact Or.inr (Or.inr ⟨data.frame, data.live⟩)
    · exact inv.table owned
  · intro t r p j owned below slot
    show IsLink (word m t j)
    rcases split owned with ⟨rfl, rfl, rfl⟩ | owned
    · exact Or.inl (low slot)
    · rw [kept owned slot.1]
      exact inv.link owned below slot
  · intro t r p j owned depth bound
    show IsEntry (word m t j)
    rcases split owned with ⟨-, atRoot, top⟩ | owned
    · rw [atRoot, top] at depth
      change 0 = if c = K.kernelPagedirtable then 2 else 3 at depth
      split at depth <;> cases depth
    · rw [kept owned bound]
      exact inv.leaf owned depth bound
  · rintro r j (rfl | space) lower upper
    · show word m r j = _
      rw [words j upper, if_neg (by omega)]
    · exact fixed.upper space lower upper

/-- `create_address_space` makes the next free frame the root of an empty address space. -/
theorem createAddressSpace_space (inv : KernelInv K A s g) {rest : List Nat} (free : g.free = c :: rest) :
    ∃ s', createAddressSpace K s = .ok (linearAddressToPtr c, s') ∧
      KernelInv K A s' ({ g with free := rest }.withSpace c) ∧
      (∀ x, x < c ∨ c + 4096 ≤ x → s'.mem x = s.mem x) ∧
      (∀ {r p i}, LeafKey K g.spaces r p i → pageAt s'.mem r (i :: p) = pageAt s.mem r (i :: p)) ∧
      ∀ v, index 3 v < 256 → pageAt s'.mem c (pageKey v) = none := by
  have data := inv.data_of_free free
  have frame := data.frame
  have room := frame.room
  obtain ⟨s₁, alloc, mem₁, inv₁⟩ := inv.frameAllocZero_take free
  obtain ⟨m, init, words, outside⟩ := initAddressSpace_eq K s₁ (tablePtr_linear room) frame.aligned
  have made := inv₁.withSpace data words outside
  have unchanged : ∀ x, x < c ∨ c + 4096 ≤ x → m x = s.mem x := fun x away => by
    rw [outside x away, mem₁, memset_outside 0 away]
  refine ⟨{ s₁ with mem := m }, ?_, made, unchanged, fun {r p i} key => ?_, fun v low => ?_⟩
  · simp only [createAddressSpace, alloc, Outcome.ok_bind, init, Outcome.pure_eq_ok]
  · have key' := key.mono ({ g with free := rest }.withSpace c).spaces fun r space => Or.inr space
    refine inv.forest.lookup_eq_of_extends made.forest i key.root key.path key'.root key'.path (fun t owned => ?_)
      fun t owned old => ?_
    · have differ := Radix.ne_of_owned data.notTable owned
      refine ⟨Radix.owned_update data.notTable owned, ?_⟩
      have page := inv.page owned
      have aligned := frame.aligned
      rw [leafPage, leafPage, word_congr (m := s.mem) (fun o inside => unchanged _ (by omega)) key.bound]
    · rcases Radix.owned_or_added owned with ⟨-, pair⟩ | ⟨-, owned⟩
      · have depth := key.depth
        obtain ⟨rfl, rfl⟩ := Prod.mk.inj pair
        change 0 = if r = K.kernelPagedirtable then 2 else 3 at depth
        split at depth <;> cases depth
      · exact absurd owned old
  · have key := leafKey_of_space made (Or.inl rfl) low
    refine made.forest.lookup_cons_of_vacant _ key.root key.path fun t owned => ?_
    rcases Radix.owned_or_added owned with ⟨-, pair⟩ | ⟨-, owned⟩
    · cases (Prod.mk.inj pair).2
    · have root := inv₁.forest.root_owner (inv₁.forest.owner_root owned)
      cases data.notTable.symm.trans root

/-- What `create_address_space` has done when it returns. -/
structure Created (K : KernelImage) (A : Arena) (s : Kernel) (g : Ghost) (s' : Kernel) (c : Nat) (rest : List Nat) : Prop where
  free : g.free = c :: rest
  inv : KernelInv K A s' ({ g with free := rest }.withSpace c)
  outside : ∀ x, x < c ∨ c + 4096 ≤ x → s'.mem x = s.mem x
  pages : ∀ {r p i}, LeafKey K g.spaces r p i → pageAt s'.mem r (i :: p) = pageAt s.mem r (i :: p)
  empty : ∀ v, index 3 v < 256 → pageAt s'.mem c (pageKey v) = none

theorem createAddressSpace_run {s' : Kernel} {root : Nat} (inv : KernelInv K A s g)
    (run : createAddressSpace K s = .ok (root, s')) : ∃ c rest, root = linearAddressToPtr c ∧ Created K A s g s' c rest := by
  cases free : g.free with
  | nil =>
    rw [createAddressSpace, FreeFrames.frameAllocZero_nil (free ▸ inv.stack)] at run
    cases run
  | cons c rest =>
    obtain ⟨t, made, inv', outside, pages, empty⟩ := createAddressSpace_space inv free
    cases made.symm.trans run
    exact ⟨c, rest, rfl, free, inv', outside, pages, empty⟩

/-- A new space has its root table only. -/
theorem Created.owner_iff {s' : Kernel} {rest : List Nat} (made : Created K A s g s' c rest) (inv : KernelInv K A s g)
    {t : Nat} {p : List Nat} : ({ g with free := rest }.withSpace c).owner t = some (c, p) ↔ t = c ∧ p = [] := by
  constructor
  · intro owned
    rcases Radix.owned_or_added owned with ⟨rfl, pair⟩ | ⟨-, old⟩
    · exact ⟨rfl, (Prod.mk.inj pair).2⟩
    · have root := inv.forest.root_owner (inv.forest.owner_root old)
      cases (inv.data_of_free made.free).notTable.symm.trans root
  · rintro ⟨rfl, rfl⟩
    exact Function.update_self ..

end space

/-- The bookkeeping at boot: every frame free, and two trees that are bare roots. -/
def Ghost.boot (K : KernelImage) (A : Arena) : Ghost where
  free := frameRange A.first A.last
  spaces := (· = K.kernelPml4)
  owner t := if t = K.kernelPml4 ∨ t = K.kernelPagedirtable then some (t, []) else none

theorem owner_boot {K : KernelImage} {A : Arena} {t r : Nat} {p : List Nat} :
    (Ghost.boot K A).owner t = some (r, p) ↔ (t = K.kernelPml4 ∨ t = K.kernelPagedirtable) ∧ r = t ∧ p = [] := by
  simp only [Ghost.boot]
  split
  · rename_i root
    simp only [root, true_and, Option.some.injEq, Prod.mk.injEq]
    exact ⟨fun ⟨a, b⟩ => ⟨a.symm, b.symm⟩, fun ⟨a, b⟩ => ⟨a.symm, b.symm⟩⟩
  · rename_i root
    simp [root]

theorem Ghost.boot_free (K : KernelImage) (A : Arena) : (Ghost.boot K A).free = frameRange A.first A.last := rfl

/-- The kernel is in order once its tables are filled in and the allocator is set up. -/
theorem KernelInv.boot {K : KernelImage} {A : Arena} {s : Kernel} {fmStart fmEnd : Nat} (tables : KernelTables K s.mem)
    (above : K.freememoryStart ≤ A.first) (first : (fmStart + 0xfff) / 4096 * 4096 = A.first)
    (last : fmEnd / 4096 * 4096 = A.last) :
    KernelInv K A (initFrameAllocator s fmStart fmEnd) (Ghost.boot K A) := by
  have different : K.kernelPml4 ≠ K.kernelPagedirtable := by
    have distinct := K.distinct
    intro same
    simp [same] at distinct
  have root {t r p i} (owned : (Ghost.boot K A).owner t = some (r, p)) (slot : (shape K (Ghost.boot K A).spaces).slot r p i) :
      word s.mem t i = 0 := by
    obtain ⟨rfl | rfl, rfl, rfl⟩ := owner_boot.mp owned
    · have top := slot.2 rfl
      rw [if_neg different] at top
      rw [tables.pml4 i slot.1, if_pos top]
    · have top := slot.2 rfl
      rw [if_pos rfl] at top
      rw [top, tables.pagedirtable 511 (by decide), if_neg (by decide)]
  have short {t r p} (owned : (Ghost.boot K A).owner t = some (r, p)) : p.length < (shape K (Ghost.boot K A).spaces).height r := by
    obtain ⟨-, rfl, rfl⟩ := owner_boot.mp owned
    simp only [shape, List.length_nil]
    split <;> decide
  refine ⟨above, .initFrameAllocator A first last, ?_, rfl, ?_, ?_, ?_, ?_, ?_, tables.linear, ?_, tables.pagedir⟩
  · constructor
    case root_owner =>
      intro r isRoot
      exact owner_boot.mpr ⟨isRoot, rfl, rfl⟩
    case owner_root =>
      intro t r p owned
      obtain ⟨place, rfl, -⟩ := owner_boot.mp owned
      exact place
    case owner_nil =>
      intro t r owned
      exact (owner_boot.mp owned).2.1.symm
    case owner_height => exact fun owned => (short owned).le
    case child_owner =>
      intro t r p i c owned _ slot link
      cases (childTable_zero (root owned slot)).symm.trans link
    case owner_child =>
      intro c r i p owned
      cases (owner_boot.mp owned).2.2
  · rintro r rfl
    exact different
  · rintro t ⟨r, p⟩ owned
    exact (owner_boot.mp owned).1.imp_right Or.inl
  · intro t r p i owned _ slot
    exact Or.inl (root owned slot)
  · intro t r p i owned depth
    exact absurd depth (short owned).ne
  · rintro r i rfl lower upper
    show word s.mem _ i = _
    rw [tables.pml4 i upper, if_neg (by omega)]
  · intro i bound
    exact tables.pagedirtable i (by omega)

/-- No space has a lower half at first. -/
theorem boot_vacant {K : KernelImage} {A : Arena} {s : Kernel} {v : Nat} (inv : KernelInv K A s (Ghost.boot K A))
    (low : index 3 v < 256) : pageAt s.mem K.kernelPml4 (pageKey v) = none := by
  have key := leafKey_of_space inv inv.kernelRoot low
  refine inv.forest.lookup_cons_of_vacant _ key.root key.path fun t owned => ?_
  cases (owner_boot.mp owned).2.2

end MetalToApp

import MetalToApp.Userspace

namespace MetalToApp
open ByteMemory Paging

/-- The results of kernel functions: there is the kernel's state in them, and the end of its
untouched frames can be set. -/
class CarriesKernel (β : Type) where
  kernel : β → Kernel
  withEnd : β → Nat → β

export CarriesKernel (kernel withEnd)

instance : CarriesKernel Kernel where
  kernel s := s
  withEnd s e := { s with freememEnd := e }

instance {α β : Type} [CarriesKernel β] : CarriesKernel (α × β) where
  kernel q := kernel q.2
  withEnd q e := (q.1, withEnd q.2 e)

/-- Frames have been handed out between two states, all of them from the untouched ones. -/
structure Advanced (s t : Kernel) : Prop where
  freelist : t.freelist = 0
  finish : t.freememEnd = s.freememEnd
  bounded : t.freememStart ≤ linearEnd
  count : ∃ n, t.freememStart = s.freememStart + 4096 * n ∧ ∀ i < n, s.freememStart + 4096 * i ≠ s.freememEnd

/-- A computation that succeeds does so wherever the end of the untouched frames is, as long
as it does not come to that end. -/
def EndFree {β γ : Type} [CarriesKernel β] [CarriesKernel γ] (F : β → Outcome γ) : Prop :=
  ∀ r q, (kernel r).freelist = 0 → (kernel r).freememStart ≤ linearEnd → F r = .ok q → Advanced (kernel r) (kernel q) ∧
    ∀ e, e < (kernel r).freememStart ∨ (kernel q).freememStart ≤ e → F (withEnd r e) = .ok (withEnd q e)

namespace Advanced
variable {s t u : Kernel}

theorem le (h : Advanced s t) : s.freememStart ≤ t.freememStart := by
  obtain ⟨n, eq, -⟩ := h.count
  omega

theorem trans (h : Advanced s t) (h' : Advanced t u) : Advanced s u := by
  refine ⟨h'.freelist, h'.finish.trans h.finish, h'.bounded, ?_⟩
  obtain ⟨n, eq, missed⟩ := h.count
  obtain ⟨k, eq', missed'⟩ := h'.count
  refine ⟨n + k, by omega, fun i bound => ?_⟩
  by_cases earlier : i < n
  · exact missed i earlier
  · have here := missed' (i - n) (by omega)
    rw [h.finish, eq] at here
    have place : s.freememStart + 4096 * n + 4096 * (i - n) = s.freememStart + 4096 * i := by omega
    rwa [place] at here

end Advanced

namespace EndFree
variable {α β γ δ : Type} [CarriesKernel β] [CarriesKernel γ] [CarriesKernel δ]

theorem ok {f : β → γ} (freelist : ∀ r, (kernel (f r)).freelist = (kernel r).freelist)
    (start : ∀ r, (kernel (f r)).freememStart = (kernel r).freememStart)
    (finish : ∀ r, (kernel (f r)).freememEnd = (kernel r).freememEnd)
    (moved : ∀ r e, f (withEnd r e) = withEnd (f r) e) : EndFree fun r => (Except.ok (f r) : Outcome γ) := by
  intro r q empty bounded run
  cases run
  refine ⟨⟨(freelist r).trans empty, finish r, (start r).trans_le bounded, 0, start r, nofun⟩, fun e _ => ?_⟩
  exact congrArg Except.ok (moved r e)

/-- What the state does not tell is read alike. -/
theorem read {x : β → Outcome α} {G : α → β → Outcome γ} (alike : ∀ r e, x (withEnd r e) = x r)
    (rest : ∀ a, EndFree (G a)) : EndFree fun r => x r >>= fun a => G a r := by
  intro r q empty bounded run
  obtain ⟨a, found, body⟩ := Outcome.bind_eq_ok.mp run
  obtain ⟨advanced, again⟩ := rest a r q empty bounded body
  refine ⟨advanced, fun e outside => ?_⟩
  simp only [alike, found, Outcome.ok_bind]
  exact again e outside

theorem bind {F : β → Outcome γ} {G : γ → Outcome δ} (first : EndFree F) (rest : EndFree G) :
    EndFree fun r => F r >>= G := by
  intro r q empty bounded run
  obtain ⟨p, head, body⟩ := Outcome.bind_eq_ok.mp run
  obtain ⟨advanced, again⟩ := first r p empty bounded head
  obtain ⟨advanced', again'⟩ := rest p q advanced.freelist advanced.bounded body
  refine ⟨advanced.trans advanced', fun e outside => ?_⟩
  have before := advanced.le
  have after := advanced'.le
  simp only [again e (by omega), Outcome.ok_bind]
  exact again' e (by omega)

theorem pair {G : α × β → Outcome γ} (each : ∀ a, EndFree fun r => G (a, r)) : EndFree G :=
  fun r => each r.1 r.2

theorem ite {c : Prop} [Decidable c] {F G : β → Outcome γ} (yes : EndFree F) (no : EndFree G) :
    EndFree fun r => if c then F r else G r := by
  split
  · exact yes
  · exact no

/-- A computation that succeeds does so in a memory that goes on to the end of the window. -/
theorem beyond {F : β → Outcome γ} {r : β} {q : γ} (free : EndFree F) (empty : (kernel r).freelist = 0)
    (bounded : (kernel r).freememStart ≤ linearEnd) (run : F r = .ok q) :
    Advanced (kernel r) (kernel q) ∧ F (withEnd r linearEnd) = .ok (withEnd q linearEnd) := by
  obtain ⟨advanced, again⟩ := free r q empty bounded run
  exact ⟨advanced, again linearEnd (Or.inr advanced.bounded)⟩

end EndFree

section functions
variable {K : KernelImage}

theorem frameAllocZero_untouched {s : Kernel} (empty : s.freelist = 0) (more : s.freememStart ≠ s.freememEnd) :
    frameAllocZero s = do
      let a ← window s.freememStart 0x1000
      let f ← pointerToLinearAddress s.freememStart
      return (f, { s with
        mem := memset s.mem a 0 0x1000
        freememStart := (s.freememStart + 0x1000) % 2 ^ 64 }) := by
  rw [frameAllocZero, frameAllocInternal, if_neg (by simpa using empty), if_neg more, Outcome.pure_eq_ok, Outcome.ok_bind]
  cases place : window s.freememStart 0x1000 <;> simp only [Kernel.memset, place] <;> rfl

/-- Only the allocator looks at the end, and only to see that it is not there. -/
theorem frameAllocZero_endFree : EndFree frameAllocZero := by
  rintro s ⟨f, t⟩ empty bounded run
  simp only [kernel] at empty bounded
  by_cases last : s.freememStart = s.freememEnd
  · rw [frameAllocZero, frameAllocInternal, if_neg (by simpa using empty), if_pos last, Outcome.error_bind] at run
    cases run
  · rw [frameAllocZero_untouched empty last] at run
    obtain ⟨a, place, run⟩ := Outcome.bind_eq_ok.mp run
    obtain ⟨b, address, run⟩ := Outcome.bind_eq_ok.mp run
    cases run
    have room : s.freememStart + 0x1000 ≤ linearEnd := by
      rw [window] at place
      split at place
      · rename_i inside
        exact inside.2
      · split at place
        · rename_i inside
          have apart : linearEnd < kernelBase := by decide
          omega
        · cases place
    have small : linearEnd < 2 ^ 64 := by decide
    have next : (s.freememStart + 0x1000) % 2 ^ 64 = s.freememStart + 4096 := Nat.mod_eq_of_lt (by omega)
    refine ⟨⟨empty, rfl, by simp only [kernel]; omega, 1, next, fun i bound => ?_⟩, fun e outside => ?_⟩
    · have first : i = 0 := by omega
      rwa [first]
    · simp only [kernel] at outside
      have more : (withEnd s e).freememStart ≠ (withEnd s e).freememEnd := by
        simp only [withEnd]
        omega
      rw [frameAllocZero_untouched (s := withEnd s e) empty more]
      simp only [withEnd, place, address, Outcome.ok_bind, Outcome.pure_eq_ok]

/-- A function that changes the memory alone. -/
theorem EndFree.write {m : Kernel → Memory} (alike : ∀ s e, m (withEnd s e) = m s) :
    EndFree fun s : Kernel => (Except.ok { s with mem := m s } : Outcome Kernel) :=
  .ok (fun _ => rfl) (fun _ => rfl) (fun _ => rfl) fun s e => by rw [alike]; rfl

theorem store_endFree (n p v : Nat) : EndFree fun s : Kernel => s.store n p v :=
  .read (fun _ _ => rfl) fun _ => .write fun _ _ => rfl

theorem setFlag_endFree (p k : Nat) (value : Bool) : EndFree fun s : Kernel => setFlag s p k value :=
  .read (fun _ _ => rfl) fun _ => store_endFree 8 p _

theorem setFlags_endFree (p : Nat) (fields : List (Nat × Bool)) : EndFree fun s : Kernel => setFlags s p fields := by
  induction fields with
  | nil => exact .ok (fun _ => rfl) (fun _ => rfl) (fun _ => rfl) fun _ _ => rfl
  | cons field rest ih => exact (setFlag_endFree p field.1 field.2).bind ih

theorem assignEntry_endFree (p a : Nat) (fields : List (Nat × Bool)) : EndFree fun s : Kernel => assignEntry s p a fields :=
  (store_endFree 8 p a).bind (setFlags_endFree p fields)

theorem fillEntry_endFree (p a : Nat) (user : Bool) : EndFree fun s : Kernel => fillEntry s p a user :=
  assignEntry_endFree p a _

theorem EndFree.result {α : Type} (a : α) : EndFree fun s : Kernel => (pure (a, s) : Outcome (α × Kernel)) :=
  .ok (fun _ => rfl) (fun _ => rfl) (fun _ => rfl) fun _ _ => rfl

theorem nextTable_endFree (p : Nat) : EndFree fun s : Kernel => nextTable s p := by
  have again : EndFree fun s : Kernel => s.load64 p >>= fun e => pure (some (linearAddressToPtr (e / 4096 * 4096)), s) :=
    .read (fun _ _ => rfl) fun e => .result _
  refine .read (fun _ _ => rfl) fun e => .ite (.result none) (.ite again ?_)
  exact .bind frameAllocZero_endFree (.pair fun f => (fillEntry_endFree p f true).bind again)

theorem resolveFrom_endFree (level table ptr : Nat) : EndFree fun s : Kernel => resolveFrom s level table ptr := by
  induction level generalizing table with
  | zero => exact .result _
  | succ level ih =>
    refine (nextTable_endFree _).bind (.pair fun next => ?_)
    cases next with
    | none => exact .result _
    | some next => exact ih next

theorem mmap_endFree (root f v : Nat) (user : Bool) : EndFree fun s : Kernel => mmap s root f v user :=
  (resolveFrom_endFree 3 root v).bind (.pair fun p => fillEntry_endFree p f user)

theorem forEntries_endFree {first : Nat} {body : Kernel → Nat → Outcome Kernel} (each : ∀ i, EndFree fun s : Kernel => body s i)
    (n : Nat) : EndFree fun s : Kernel => forEntries first body s n := by
  induction n with
  | zero => exact .ok (fun _ => rfl) (fun _ => rfl) (fun _ => rfl) fun _ _ => rfl
  | succ n ih => exact ih.bind (each _)

theorem initAddressSpace_endFree (p : Nat) : EndFree fun s : Kernel => initAddressSpace K s p := by
  refine (forEntries_endFree (fun i => store_endFree 8 _ 0) 512).bind ?_
  refine .read (fun _ _ => rfl) fun a => (assignEntry_endFree _ a _).bind ?_
  exact .read (fun _ _ => rfl) fun b => fillEntry_endFree _ b true

theorem createAddressSpace_endFree : EndFree (createAddressSpace K) :=
  .bind frameAllocZero_endFree (.pair fun _ => (initAddressSpace_endFree _).bind (.result _))

theorem memcpy_endFree (dest src n : Nat) : EndFree fun s : Kernel => s.memcpy dest src n := by
  refine .ite (.ok (fun _ => rfl) (fun _ => rfl) (fun _ => rfl) fun _ _ => rfl) ?_
  exact .read (fun _ _ => rfl) fun _ => .read (fun _ _ => rfl) fun _ => .write fun _ _ => rfl

theorem copyPage_endFree (space vaddr src filesz : Nat) : EndFree fun s : Kernel => copyPage s space vaddr src filesz := by
  refine .bind frameAllocZero_endFree (.pair fun f => (mmap_endFree space f _ true).bind (.ite ?_ ?_))
  · exact (memcpy_endFree _ src _).bind (.ok (fun _ => rfl) (fun _ => rfl) (fun _ => rfl) fun _ _ => rfl)
  · exact .ok (fun _ => rfl) (fun _ => rfl) (fun _ => rfl) fun _ _ => rfl

theorem copySection_endFree (space vaddr src memsz filesz : Nat) :
    EndFree fun s : Kernel => copySection s space vaddr src memsz filesz := by
  induction left : (if memsz < 2 ^ 63 then memsz else 0) using Nat.strong_induction_on generalizing vaddr src memsz filesz with
  | _ left ih =>
    by_cases more : MoreToCopy memsz
    · have step : (fun s : Kernel => copySection s space vaddr src memsz filesz) = fun s : Kernel =>
          copyPage s space vaddr src filesz >>= fun q =>
            copySection q.2.2 space (nextPage vaddr) q.1 (memszLeft vaddr memsz) q.2.1 := by
        funext s
        rw [copySection, if_pos more]
      rw [step]
      refine (copyPage_endFree space vaddr src filesz).bind (.pair fun src' => .pair fun filesz' => ?_)
      exact ih _ (left ▸ memszLeft_decreases more) (nextPage vaddr) src' (memszLeft vaddr memsz) filesz' rfl
    · simp only [copySection_done more]
      exact .ok (fun _ => rfl) (fun _ => rfl) (fun _ => rfl) fun _ _ => rfl

theorem loadSegment_endFree (space start p : Nat) : EndFree fun s : Kernel => loadSegment s space start p := by
  refine .read (fun _ _ => rfl) fun header => .ite (copySection_endFree space _ _ _ _) ?_
  exact .ok (fun _ => rfl) (fun _ => rfl) (fun _ => rfl) fun _ _ => rfl

theorem loadSegments_endFree (space start offset size n : Nat) :
    EndFree fun s : Kernel => loadSegments s space start offset size n := by
  induction n with
  | zero => exact .ok (fun _ => rfl) (fun _ => rfl) (fun _ => rfl) fun _ _ => rfl
  | succ n ih => exact ih.bind (loadSegment_endFree space start _)

theorem loadElf_endFree (start stop space : Nat) : EndFree fun s : Kernel => loadElf s start stop space := by
  refine .read (fun _ _ => rfl) fun entry => .read (fun _ _ => rfl) fun offset => .read (fun _ _ => rfl) fun size =>
    .read (fun _ _ => rfl) fun count => ?_
  exact (loadSegments_endFree space start offset size count).bind (.result entry)

theorem loadProgram_endFree (start stop : Nat) : EndFree fun s : Kernel => loadProgram K s start stop :=
  .bind createAddressSpace_endFree (.pair fun space => (loadElf_endFree start stop space).bind
    (.pair fun _ => .ok (fun _ => rfl) (fun _ => rfl) (fun _ => rfl) fun _ _ => rfl))

theorem prepareTask_endFree (space : Nat) : EndFree fun s : Kernel => prepareTask s space :=
  .bind frameAllocZero_endFree (.pair fun stack => .bind frameAllocZero_endFree (.pair fun _ =>
    (mmap_endFree space stack _ true).bind (.ok (fun _ => rfl) (fun _ => rfl) (fun _ => rfl) fun _ _ => rfl)))

theorem strlenFrom_withEnd (s : Kernel) (e p fuel k : Nat) : (withEnd s e).strlenFrom p fuel k = s.strlenFrom p fuel k := by
  induction fuel generalizing k with
  | zero => rfl
  | succ fuel ih =>
    simp only [Kernel.strlenFrom, ih]
    rfl

theorem startTask_endFree (space entry stack ret commandLine : Nat) :
    EndFree fun s : Kernel => startTask K s space entry stack ret commandLine := by
  refine .read (fun s e => strlenFrom_withEnd s e commandLine _ 0) fun length => (memcpy_endFree _ commandLine _).bind ?_
  exact .read (fun _ _ => rfl) fun space => .read (fun _ _ => rfl) fun task => .write fun _ _ => rfl

/-- A process is made alike wherever the end of the memory is. -/
theorem makeUserspaceProcess_endFree (start stop commandLine : Nat) :
    EndFree fun s : Kernel => makeUserspaceProcess K s start stop commandLine :=
  (loadProgram_endFree start stop).bind (.pair fun space => .pair fun entry =>
    (prepareTask_endFree space).bind (.pair fun stack => .pair fun ret =>
      (startTask_endFree space entry stack ret commandLine).bind (.result ret)))

/-- A loop over the segments that returns has come to each of them. -/
theorem loadSegments_prefix {space start offset size i n : Nat} {s t : Kernel} (within : i ≤ n)
    (run : loadSegments s space start offset size n = .ok t) : ∃ u, loadSegments s space start offset size i = .ok u := by
  induction within generalizing t with
  | refl => exact ⟨t, run⟩
  | step _ ih =>
    rw [loadSegments] at run
    obtain ⟨u, before, -⟩ := Outcome.bind_eq_ok.mp run
    exact ih before

section beyond
variable {s s₁ s₂ : Kernel} {start stop commandLine root entry stack task : Nat}

/-- The segments that the loader comes to are the same ones there. -/
theorem LowImage.beyond (low : LowImage K s start) (empty : s.freelist = 0) (bounded : s.freememStart ≤ linearEnd)
    (program : loadProgram K s start stop = .ok (root, entry, s₁)) : LowImage K (withEnd s linearEnd) start := by
  rintro root' t create header ⟨offset, size, count, i, u, atOffset, atSize, atCount, bound, segments, atHeader, loadable⟩
  rw [loadProgram] at program
  obtain ⟨⟨root, s'⟩, created, program⟩ := Outcome.bind_eq_ok.mp program
  obtain ⟨⟨entry, s''⟩, loaded, -⟩ := Outcome.bind_eq_ok.mp program
  obtain ⟨advanced, again⟩ := EndFree.beyond createAddressSpace_endFree empty bounded created
  cases again.symm.trans create
  rw [loadElf] at loaded
  obtain ⟨entry', -, loaded⟩ := Outcome.bind_eq_ok.mp loaded
  obtain ⟨offset', atOffset', loaded⟩ := Outcome.bind_eq_ok.mp loaded
  obtain ⟨size', atSize', loaded⟩ := Outcome.bind_eq_ok.mp loaded
  obtain ⟨count', atCount', loaded⟩ := Outcome.bind_eq_ok.mp loaded
  obtain ⟨s₃, all, -⟩ := Outcome.bind_eq_ok.mp loaded
  cases atOffset'.symm.trans atOffset
  cases atSize'.symm.trans atSize
  cases atCount'.symm.trans atCount
  obtain ⟨v, segments'⟩ := loadSegments_prefix bound.le all
  obtain ⟨-, same⟩ := (loadSegments_endFree root start offset size i).beyond advanced.freelist advanced.bounded segments'
  cases same.symm.trans segments
  exact low root s' created header ⟨offset, size, count, i, v, atOffset, atSize, atCount, bound, segments', atHeader, loadable⟩

theorem ShortCommandLine.beyond (short : ShortCommandLine K s start stop commandLine) (empty : s.freelist = 0)
    (bounded : s.freememStart ≤ linearEnd) (program : loadProgram K s start stop = .ok (root, entry, s₁))
    (prepared : prepareTask s₁ root = .ok (stack, task, s₂)) : ShortCommandLine K (withEnd s linearEnd) start stop commandLine := by
  intro root' entry' t stack' task' u program' prepared' length atLength
  obtain ⟨advanced, again⟩ := (loadProgram_endFree start stop).beyond empty bounded program
  cases again.symm.trans program'
  obtain ⟨-, again⟩ := (prepareTask_endFree root).beyond advanced.freelist advanced.bounded prepared
  cases again.symm.trans prepared'
  exact short root entry s₁ stack task s₂ program prepared length
    ((strlenFrom_withEnd s₂ linearEnd commandLine _ 0).symm.trans atLength)

end beyond

end functions

end MetalToApp

import MetalToApp.FrameRuns
import MetalToApp.Walk

namespace MetalToApp
open ByteMemory Paging

/-- An operation on the page with the given number, in the space with the given root pointer. -/
inductive MapEvent
  | mmap (root page frame : Nat) (user : Bool)
  | munmap (root page : Nat)

def MapEvent.root : MapEvent → Nat
  | mmap root _ _ _ => root
  | munmap root _ => root

def MapEvent.page : MapEvent → Nat
  | mmap _ page _ _ => page
  | munmap _ page => page

def MapEvent.result : MapEvent → Option (Nat × Bool)
  | mmap _ _ frame user => some (frame, user)
  | munmap _ _ => none

/-- What the most recent operation on a page made of it; the latest event comes first. -/
def lastMapping : List MapEvent → Nat → Nat → Option (Nat × Bool)
  | [], _, _ => none
  | e :: earlier, root, page => if e.root = root ∧ e.page = page then e.result else lastMapping earlier root page

/-- A range for `init_frame_allocator` that lies above the kernel, inside the linear
window, and holds its rounded ends in order. -/
structure FreeMemory (K : KernelImage) where
  fmStart : Nat
  fmEnd : Nat
  above : K.freememoryStart ≤ fmStart
  bounded : fmEnd ≤ 2 ^ 39
  ordered : (fmStart + 0xfff) / 4096 * 4096 ≤ fmEnd / 4096 * 4096

/-- The arena that the allocator makes of it. -/
def FreeMemory.arena {K : KernelImage} (F : FreeMemory K) : Arena where
  first := (F.fmStart + 0xfff) / 4096 * 4096
  last := F.fmEnd / 4096 * 4096
  first_aligned := Nat.mul_mod_left _ _
  last_aligned := Nat.mul_mod_left _ _
  positive := by
    have inside := K.inside K.kernelPml4 (by simp)
    have above := F.above
    omega
  ordered := F.ordered
  bounded := (Nat.div_mul_le_self _ _).trans F.bounded

theorem FreeMemory.arena_above {K : KernelImage} (F : FreeMemory K) : K.freememoryStart ≤ F.arena.first := by
  have lower := F.above
  show K.freememoryStart ≤ (F.fmStart + 0xfff) / 4096 * 4096
  omega

/-- The kernel's states while clients make address spaces and map pages in them, with the
frames that the clients hold, the root pointers they were given and the mapping operations
so far. A client maps only frames that it holds and may write to them. It maps them in the
lower half of its spaces; into the dynamic window only the kernel's own space is mapped. -/
inductive SpaceReach {K : KernelImage} (F : FreeMemory K) : Kernel → List Nat → List Nat → List MapEvent → Prop
  | boot {s s' space} : createKernelAddressSpace K s = .ok (space, s') →
      SpaceReach F (initFrameAllocator s' F.fmStart F.fmEnd) [] [linearAddressToPtr space] []
  | alloc {s s' live roots events f} (request : FrameRequest) : SpaceReach F s live roots events →
      request.run s = .ok (f, s') → SpaceReach F s' (f :: live) roots events
  | dealloc {s s' live roots events f} : SpaceReach F s live roots events → f ∈ live →
      frameDealloc s f = .ok s' → SpaceReach F s' (live.erase f) roots events
  | write {s live roots events f o} (b : UInt8) : SpaceReach F s live roots events → f ∈ live →
      o < 4096 → SpaceReach F { s with mem := set s.mem (f + o) b } live roots events
  | create {s s' live roots events root} : SpaceReach F s live roots events →
      createAddressSpace K s = .ok (root, s') → SpaceReach F s' live (root :: roots) events
  | mmap {s s' live roots events root f v} (user : Bool) : SpaceReach F s live roots events →
      root ∈ roots → f ∈ live → v < 2 ^ 47 → mmap s root f v user = .ok s' →
      SpaceReach F s' live roots (.mmap root (v / 4096) f user :: events)
  | munmap {s s' live roots events root v f} : SpaceReach F s live roots events →
      root ∈ roots → v < 2 ^ 47 → munmap s root v = .ok (f, s') →
      SpaceReach F s' live roots (.munmap root (v / 4096) :: events)
  | mmapDynamic {s s' live roots events f v} (user : Bool) : SpaceReach F s live roots events →
      f ∈ live → dynamicStart ≤ v → v < 2 ^ 64 → mmap s (linearAddressToPtr K.kernelPml4) f v user = .ok s' →
      SpaceReach F s' live roots events
  | munmapDynamic {s s' live roots events f v} : SpaceReach F s live roots events →
      dynamicStart ≤ v → v < 2 ^ 64 → munmap s (linearAddressToPtr K.kernelPml4) v = .ok (f, s') →
      SpaceReach F s' live roots events

/-- The page tables in memory refine the map that the operations describe. -/
structure TablesRefine (s : Kernel) (live roots : List Nat) (events : List MapEvent) : Prop where
  walk : ∀ root ∈ roots, ∃ cr3, pointerToLinearAddress root = .ok cr3 ∧ ∀ v < 2 ^ 47,
    Paging.walk s.mem cr3 v = (lastMapping events root (v / 4096)).map fun q => ⟨q.1 + v % 4096, q.2, true⟩
  munmap_result : ∀ root ∈ roots, ∀ v < 2 ^ 47, ∀ f s', munmap s root v = .ok (f, s') →
    f = mappedFrame (lastMapping events root (v / 4096))
  others : ∀ root ∈ roots, ∀ v < 2 ^ 47, ∀ s', (∃ f, munmap s root v = .ok (f, s')) ∨
      (∃ f ∈ live, ∃ user, mmap s root f v user = .ok s') →
    ∀ root' ∈ roots, ∀ cr3, pointerToLinearAddress root' = .ok cr3 → ∀ v', (root' = root → v' / 4096 ≠ v / 4096) →
      Paging.walk s'.mem cr3 v' = Paging.walk s.mem cr3 v'
  returns : ∀ A free, FreeFrames A s free → 3 ≤ free.length → ∀ root ∈ roots, ∀ v < 2 ^ 47,
    (∃ f s', munmap s root v = .ok (f, s')) ∧ ∀ f ∈ live, ∀ user, ∃ s', mmap s root f v user = .ok s'

/-- The bookkeeping agrees with what the clients have been told. -/
structure SpaceInv (K : KernelImage) (A : Arena) (s : Kernel) (g : Ghost) (live roots : List Nat) (events : List MapEvent) :
    Prop where
  kernel : KernelInv K A s g
  data : ∀ f ∈ live, g.Data A f
  nodup : live.Nodup
  space : ∀ root ∈ roots, ∃ r, root = linearAddressToPtr r ∧ g.spaces r
  known : ∀ e ∈ events, e.root ∈ roots
  pages : ∀ r, g.spaces r → linearAddressToPtr r ∈ roots → ∀ v < 2 ^ 47,
    pageAt s.mem r (pageKey v) = lastMapping events (linearAddressToPtr r) (v / 4096)

theorem lastMapping_of_unknown {events : List MapEvent} {roots : List Nat} {root page : Nat}
    (known : ∀ e ∈ events, e.root ∈ roots) (new : root ∉ roots) : lastMapping events root page = none := by
  induction events with
  | nil => rfl
  | cons e earlier ih =>
    have other : ¬(e.root = root ∧ e.page = page) := fun same => new (same.1 ▸ known e List.mem_cons_self)
    rw [lastMapping, if_neg other]
    exact ih fun e member => known e (List.mem_cons_of_mem _ member)

theorem lower_page {v w : Nat} (low : v < 2 ^ 47) (low' : w < 2 ^ 47) : pageKey v = pageKey w ↔ v / 4096 = w / 4096 := by
  rw [pageKey_eq_iff]
  omega

/-- Every page that is mapped stays mapped. -/
def PagesKept (K : KernelImage) (g : Ghost) (s s' : Kernel) : Prop :=
  ∀ {r p i}, LeafKey K g.spaces r p i → pageAt s'.mem r (i :: p) = pageAt s.mem r (i :: p)

namespace SpaceInv
variable {K : KernelImage} {A : Arena} {s s' : Kernel} {g g' : Ghost} {live roots : List Nat} {events : List MapEvent}

theorem ptr_inj (inv : KernelInv K A s g) {r r' : Nat} (space : g.spaces r) (space' : g.spaces r')
    (same : linearAddressToPtr r = linearAddressToPtr r') : r = r' := by
  have page := inv.page (inv.root_owner space)
  have page' := inv.page (inv.root_owner space')
  exact (linearAddressToPtr_inj (by omega) (by omega)).mp same

/-- A step of the allocator or of a client's program leaves all mappings alone. -/
theorem steady (h : SpaceInv K A s g live roots events) (inv : KernelInv K A s' g') (spaces : g'.spaces = g.spaces)
    (owner : g'.owner = g.owner) (same : ∀ t x, g.owner t = some x → Agree s.mem s'.mem t 4096) {live' : List Nat}
    (data : ∀ f ∈ live', g'.Data A f) (nodup : live'.Nodup) :
    SpaceInv K A s' g' live' roots events ∧ PagesKept K g s s' := by
  have kept : PagesKept K g s s' := pageAt_congr h.kernel inv spaces owner same
  refine ⟨⟨inv, data, nodup, by rw [spaces]; exact h.space, h.known, fun r space member v low => ?_⟩, kept⟩
  rw [spaces] at space
  rw [← h.pages r space member v low]
  exact kept (leafKey_of_space h.kernel space (index_three_of_lower low))

theorem alloc (h : SpaceInv K A s g live roots events) {request : FrameRequest} {f : Nat}
    (run : request.run s = .ok (f, s')) : ∃ g', SpaceInv K A s' g' (f :: live) roots events ∧ PagesKept K g s s' := by
  cases free : g.free with
  | nil =>
    rw [FreeFrames.request_nil (free ▸ h.kernel.stack) request] at run
    cases run
  | cons c rest =>
    obtain ⟨t, alloc, stack, outside⟩ := FreeFrames.request_cons (free ▸ h.kernel.stack) request
    cases alloc.symm.trans run
    have data := h.kernel.data_of_free free
    refine ⟨{ g with free := rest }, h.steady (h.kernel.take free stack outside) rfl rfl
      (fun t x place => h.kernel.agree_tables data.frame data.notTable outside place) ?_ ?_⟩
    · refine List.forall_mem_cons.mpr ⟨data, fun q member => ?_⟩
      have old := h.data q member
      exact ⟨old.frame, fun free' => old.live (free ▸ List.mem_cons_of_mem _ free'), old.notTable⟩
    · exact List.nodup_cons.mpr ⟨fun member => (h.data _ member).live (free ▸ List.mem_cons_self), h.nodup⟩

theorem dealloc (h : SpaceInv K A s g live roots events) {f : Nat} (member : f ∈ live)
    (run : frameDealloc s f = .ok s') : ∃ g', SpaceInv K A s' g' (live.erase f) roots events ∧ PagesKept K g s s' := by
  have data := h.data f member
  obtain ⟨t, give, outside, inv⟩ := h.kernel.frameDealloc_give data
  cases give.symm.trans run
  refine ⟨_, h.steady inv rfl rfl (fun t x place => h.kernel.agree_tables data.frame data.notTable outside place)
    (fun q inRest => ?_) (h.nodup.erase f)⟩
  obtain ⟨different, old⟩ := (h.nodup.mem_erase_iff).mp inRest
  have rest := h.data q old
  exact ⟨rest.frame, fun free => (List.mem_cons.mp free).elim different rest.live, rest.notTable⟩

theorem write (h : SpaceInv K A s g live roots events) {f o : Nat} (member : f ∈ live) (inside : o < 4096) (b : UInt8) :
    SpaceInv K A { s with mem := set s.mem (f + o) b } g live roots events ∧
      PagesKept K g s { s with mem := set s.mem (f + o) b } := by
  have data := h.data f member
  have outside : ∀ x, x < f ∨ f + 4096 ≤ x → set s.mem (f + o) b x = s.mem x :=
    fun x away => set_of_ne (by omega)
  exact h.steady (h.kernel.write_data data outside) rfl rfl
    (fun t x place => h.kernel.agree_tables data.frame data.notTable outside place) h.data h.nodup

theorem create (h : SpaceInv K A s g live roots events) {root : Nat} (run : createAddressSpace K s = .ok (root, s')) :
    ∃ g', SpaceInv K A s' g' live (root :: roots) events ∧ PagesKept K g s s' := by
  obtain ⟨c, rest, rfl, made⟩ := createAddressSpace_run h.kernel run
  have data := h.kernel.data_of_free made.free
  have new {r} (space : g.spaces r) : r ≠ c := Radix.ne_of_owned data.notTable (h.kernel.root_owner space)
  have fresh : linearAddressToPtr c ∉ roots := by
    intro member
    obtain ⟨r, same, space⟩ := h.space _ member
    exact new space (ptr_inj made.inv (Or.inr space) (Or.inl rfl) same.symm)
  refine ⟨_, ⟨made.inv, fun f member => ?_, h.nodup, ?_, fun e member => List.mem_cons_of_mem _ (h.known e member), ?_⟩,
    made.pages⟩
  · have old := h.data f member
    have differ : f ≠ c := by
      rintro rfl
      exact old.live (made.free ▸ List.mem_cons_self)
    exact ⟨old.frame, fun inRest => old.live (made.free ▸ List.mem_cons_of_mem _ inRest),
      (Function.update_of_ne differ ..).trans old.notTable⟩
  · refine List.forall_mem_cons.mpr ⟨⟨c, rfl, Or.inl rfl⟩, fun x member => ?_⟩
    obtain ⟨r, same, space⟩ := h.space x member
    exact ⟨r, same, Or.inr space⟩
  · rintro r (rfl | space) member v low
    · rw [made.empty v (index_three_of_lower low), lastMapping_of_unknown h.known fresh]
    · have key := leafKey_of_space h.kernel space (index_three_of_lower low)
      rw [← h.pages r space ?_ v low]
      · exact made.pages key
      · rcases List.mem_cons.mp member with same | old
        · exact absurd (ptr_inj made.inv (Or.inr space) (Or.inl rfl) same) (new space)
        · exact old

/-- An operation on a page is recorded by its event. -/
theorem remap (h : SpaceInv K A s g live roots events) {r v : Nat} {e : MapEvent} (space : g.spaces r) (low : v < 2 ^ 47)
    (member : linearAddressToPtr r ∈ roots) (root : e.root = linearAddressToPtr r) (page : e.page = v / 4096)
    (remapped : Remapped K A s g s' g' r (pageKey v) e.result) : SpaceInv K A s' g' live roots (e :: events) where
  kernel := remapped.inv
  data := fun f isLive => remapped.data (h.data f isLive)
  nodup := h.nodup
  space := by
    rw [remapped.spaces]
    exact h.space
  known := List.forall_mem_cons.mpr ⟨root ▸ member, h.known⟩
  pages := by
    intro r' space' member' w low'
    rw [remapped.spaces] at space'
    rw [lastMapping, root, page]
    by_cases here : linearAddressToPtr r = linearAddressToPtr r' ∧ v / 4096 = w / 4096
    · obtain ⟨same, samePage⟩ := here
      cases ptr_inj h.kernel space space' same
      rw [if_pos ⟨rfl, samePage⟩, ← (lower_page low low').mpr samePage]
      exact remapped.page
    · rw [if_neg here, ← h.pages r' space' member' w low']
      refine remapped.others (leafKey_of_space h.kernel space' (index_three_of_lower low')) ?_
      rintro rfl same
      exact here ⟨rfl, ((lower_page low' low).mp same).symm⟩

/-- Pages of the dynamic window are in no address space's own part. -/
theorem dynamic (h : SpaceInv K A s g live roots events) {key : List Nat} {page : Option (Nat × Bool)}
    (remapped : Remapped K A s g s' g' K.kernelPagedirtable key page) : SpaceInv K A s' g' live roots events where
  kernel := remapped.inv
  data := fun f isLive => remapped.data (h.data f isLive)
  nodup := h.nodup
  space := by
    rw [remapped.spaces]
    exact h.space
  known := h.known
  pages := by
    intro r space member v low
    rw [remapped.spaces] at space
    rw [← h.pages r space member v low]
    exact remapped.others (leafKey_of_space h.kernel space (index_three_of_lower low)) fun same =>
      absurd same (h.kernel.space_ne space)

theorem mmap_event (h : SpaceInv K A s g live roots events) {root v f : Nat} {user : Bool} (member : root ∈ roots)
    (aligned : f % 4096 = 0) (room : f + 4096 ≤ 2 ^ 39) (low : v < 2 ^ 47) (run : mmap s root f v user = .ok s') :
    ∃ r g', root = linearAddressToPtr r ∧ g.spaces r ∧ Remapped K A s g s' g' r (pageKey v) (some (f, user)) := by
  obtain ⟨r, rfl, space⟩ := h.space root member
  have top := index_three_of_lower low
  obtain ⟨t, g', done, remapped, -⟩ := mmap_remapped user h.kernel space top aligned room
    (enough_of_mmap h.kernel space top run)
  cases done.symm.trans run
  exact ⟨r, g', rfl, space, remapped⟩

theorem munmap_event (h : SpaceInv K A s g live roots events) {root v f : Nat} (member : root ∈ roots)
    (low : v < 2 ^ 47) (run : munmap s root v = .ok (f, s')) :
    ∃ r g', root = linearAddressToPtr r ∧ g.spaces r ∧ f = mappedFrame (lastMapping events root (v / 4096)) ∧
      Remapped K A s g s' g' r (pageKey v) none := by
  obtain ⟨r, rfl, space⟩ := h.space root member
  have top := index_three_of_lower low
  obtain ⟨t, g', done, remapped, -⟩ := munmap_remapped h.kernel space top (enough_of_munmap h.kernel space top run)
  cases done.symm.trans run
  exact ⟨r, g', rfl, space, by rw [h.pages r space member v low], remapped⟩

/-- A walk in one of the clients' spaces does not see an operation on another page. -/
theorem walk_others (h : SpaceInv K A s g live roots events) {r r' v w : Nat} {page : Option (Nat × Bool)}
    (remapped : Remapped K A s g s' g' r (pageKey v) page) (space : g.spaces r) (space' : g.spaces r')
    (low : v < 2 ^ 47) (differ : r' = r → w / 4096 ≠ v / 4096) : walk s'.mem r' w = walk s.mem r' w := by
  have after : g'.spaces r' := by rwa [remapped.spaces]
  by_cases lower : w < 2 ^ 47
  · have same : pageAt s'.mem r' (pageKey w) = pageAt s.mem r' (pageKey w) :=
      remapped.others (leafKey_of_space h.kernel space' (index_three_of_lower lower))
        fun same key => differ same ((lower_page lower low).mp key)
    rw [walk_lower h.kernel space' lower, walk_lower remapped.inv after lower, same]
  · by_cases upper : 2 ^ 64 - 2 ^ 47 ≤ w ∧ w < 2 ^ 64
    · exact walk_upper_congr h.kernel remapped.inv space' after
        (fun t p place => remapped.agree place (h.kernel.space_ne space).symm) upper.1 upper.2
    · have outside : ¬Canonical w := by
        rintro (low' | high)
        · exact lower low'
        · exact upper high
      rw [Paging.walk, Paging.walk, if_neg outside, if_neg outside]

theorem refine (h : SpaceInv K A s g live roots events) : TablesRefine s live roots events where
  walk := by
    intro root member
    obtain ⟨r, rfl, space⟩ := h.space root member
    have page := h.kernel.page (h.kernel.root_owner space)
    refine ⟨r, pointerToLinearAddress_linear page.2.1 (by omega), fun v low => ?_⟩
    rw [walk_lower h.kernel space low, h.pages r space member v low]
  munmap_result := by
    intro root member v low f s' run
    obtain ⟨r, g', -, -, result, -⟩ := h.munmap_event member low run
    exact result
  others := by
    intro root member v low s' operation root' member' cr3 phys w differ
    obtain ⟨r', rfl, space'⟩ := h.space root' member'
    have page := h.kernel.page (h.kernel.root_owner space')
    cases (pointerToLinearAddress_linear page.2.1 (by omega)).symm.trans phys
    rcases operation with ⟨f, run⟩ | ⟨f, isLive, user, run⟩
    · obtain ⟨r, g', rfl, space, -, remapped⟩ := h.munmap_event member low run
      exact h.walk_others remapped space space' low fun same => differ (same ▸ rfl)
    · have frame := (h.data f isLive).frame
      obtain ⟨r, g', rfl, space, remapped⟩ := h.mmap_event member frame.aligned frame.room low run
      exact h.walk_others remapped space space' low fun same => differ (same ▸ rfl)
  returns := by
    intro A' free stack enough root member v low
    obtain ⟨r, rfl, space⟩ := h.space root member
    cases stack.unique h.kernel.stack
    have top := index_three_of_lower low
    have missing := (missing_le g r v).trans enough
    obtain ⟨s', g', run, -⟩ := munmap_remapped h.kernel space top missing
    refine ⟨⟨_, s', run⟩, fun f isLive user => ?_⟩
    have frame := (h.data f isLive).frame
    obtain ⟨s', g', run, -⟩ := mmap_remapped user h.kernel space top frame.aligned frame.room missing
    exact ⟨s', run⟩

theorem boot {F : FreeMemory K} {space : Nat} (run : createKernelAddressSpace K s = .ok (space, s')) :
    SpaceInv K F.arena (initFrameAllocator s' F.fmStart F.fmEnd) (Ghost.boot K F.arena) [] [linearAddressToPtr space] [] := by
  obtain ⟨m, made, tables, -⟩ := createKernelAddressSpace_eq K s
  cases made.symm.trans run
  have inv := KernelInv.boot (A := F.arena) (s := { s with mem := m }) tables F.arena_above rfl rfl
  refine ⟨inv, by simp, .nil, ?_, by simp, ?_⟩
  · exact List.forall_mem_singleton.mpr ⟨K.kernelPml4, rfl, rfl⟩
  · rintro r rfl _ v low
    exact boot_vacant inv (index_three_of_lower low)

end SpaceInv

theorem SpaceReach.inv {K : KernelImage} {F : FreeMemory K} {s : Kernel} {live roots : List Nat} {events : List MapEvent}
    (reach : SpaceReach F s live roots events) : ∃ g, SpaceInv K F.arena s g live roots events := by
  induction reach with
  | boot run => exact ⟨_, .boot run⟩
  | alloc request _ run ih =>
    obtain ⟨g, h⟩ := ih
    obtain ⟨g', h', -⟩ := h.alloc run
    exact ⟨g', h'⟩
  | dealloc _ member run ih =>
    obtain ⟨g, h⟩ := ih
    obtain ⟨g', h', -⟩ := h.dealloc member run
    exact ⟨g', h'⟩
  | write b _ member inside ih =>
    obtain ⟨g, h⟩ := ih
    exact ⟨g, (h.write member inside b).1⟩
  | create _ run ih =>
    obtain ⟨g, h⟩ := ih
    obtain ⟨g', h', -⟩ := h.create run
    exact ⟨g', h'⟩
  | mmap user _ member isLive low run ih =>
    obtain ⟨g, h⟩ := ih
    have frame := (h.data _ isLive).frame
    obtain ⟨r, g', rfl, space, remapped⟩ := h.mmap_event member frame.aligned frame.room low run
    exact ⟨g', h.remap space low member rfl rfl remapped⟩
  | munmap _ member low run ih =>
    obtain ⟨g, h⟩ := ih
    obtain ⟨r, g', rfl, space, -, remapped⟩ := h.munmap_event member low run
    exact ⟨g', h.remap space low member rfl rfl remapped⟩
  | mmapDynamic user _ isLive high bound run ih =>
    obtain ⟨g, h⟩ := ih
    have frame := (h.data _ isLive).frame
    obtain ⟨g', remapped⟩ := mmap_dynamic h.kernel h.kernel.kernelRoot high bound frame.aligned frame.room run
    exact ⟨g', h.dynamic remapped⟩
  | munmapDynamic _ high bound run ih =>
    obtain ⟨g, h⟩ := ih
    obtain ⟨g', remapped⟩ := munmap_dynamic h.kernel h.kernel.kernelRoot high bound run
    exact ⟨g', h.dynamic remapped⟩

/-- From boot on, the page tables of every address space refine the finite map that the
clients' operations describe. The clients map only frames that they hold, in the lower half,
and write to nothing else. -/
theorem pageTables_refine_map {K : KernelImage} {F : FreeMemory K} {s : Kernel} {live roots : List Nat}
    {events : List MapEvent} (reach : SpaceReach F s live roots events) : TablesRefine s live roots events := by
  obtain ⟨g, h⟩ := reach.inv
  exact h.refine

/-- A kernel as the linker script lays it out: its data lies behind the first 18 MiB, and memory
is free from 20 MiB on. -/
def smallImage : KernelImage where
  kernelPml4 := 0x1200000
  kernelPagedir := 0x1201000
  kernelPagedirtable := 0x1202000
  kernelLinear := 0x1203000
  freememoryStart := 0x1400000
  aligned := by decide
  inside := by decide
  distinct := by decide
  mapped := by decide

def smallMemory : FreeMemory smallImage := ⟨0x1400000, 0x1800000, le_rfl, by decide, by decide⟩

theorem smallMemory_frames :
    frameRange smallMemory.arena.first smallMemory.arena.last = 0x1400000 :: 0x1401000 :: frameRange 0x1402000 0x1800000 := by
  rw [show smallMemory.arena.first = 0x1400000 from rfl, show smallMemory.arena.last = 0x1800000 from rfl,
    frameRange_cons (by decide), frameRange_cons (by decide)]

/-- The small kernel boots, whatever is in memory. -/
theorem smallBoot (file : Memory) : ∃ s, SpaceReach smallMemory s [] [linearAddressToPtr 0x1200000] [] ∧
    KernelInv smallImage smallMemory.arena s (Ghost.boot smallImage smallMemory.arena) ∧ ∀ x, 0x1400000 ≤ x → s.mem x = file x := by
  obtain ⟨m, made, tables, kept⟩ := createKernelAddressSpace_eq smallImage ⟨file, 0, 0, 0⟩
  exact ⟨_, .boot made, .boot tables le_rfl rfl rfl, kept⟩

theorem pageTables_refine_map_mapped : ∃ s root,
    SpaceReach smallMemory s [0x1400000] [root, linearAddressToPtr 0x1200000] [.mmap root 1 0x1400000 true] ∧
      TablesRefine s [0x1400000] [root, linearAddressToPtr 0x1200000] [.mmap root 1 0x1400000 true] := by
  obtain ⟨s, boot, inv, -⟩ := smallBoot fun _ => 0
  have free := (Ghost.boot_free smallImage smallMemory.arena).trans smallMemory_frames
  have booted := inv.stack
  rw [free] at booted
  obtain ⟨s₁, alloc, stack, outside⟩ := booted.request_cons .frameAllocZero
  have inv₁ := inv.take free stack outside
  obtain ⟨s₂, create, inv₂, -⟩ := createAddressSpace_space inv₁ rfl
  have enough : 3 ≤ (({ Ghost.boot smallImage smallMemory.arena with free := frameRange 0x1402000 0x1800000 } : Ghost).withSpace
      0x1401000).free.length := by
    rw [Ghost.withSpace_free, frameRange_length]
    decide
  obtain ⟨s₃, g₃, map, -⟩ := mmap_remapped (v := 0x1000) (f := 0x1400000) true inv₂ (Or.inl rfl) (by decide) rfl
    (by decide) ((missing_le _ _ _).trans enough)
  have reach := (boot.alloc .frameAllocZero alloc).create create |>.mmap true List.mem_cons_self List.mem_cons_self
    (by decide) map
  exact ⟨s₃, _, reach, pageTables_refine_map reach⟩

end MetalToApp

import MetalToApp.Frame

namespace MetalToApp
open ByteMemory Chain

/-- The two ways to ask the allocator for a frame. -/
inductive FrameRequest
  | frameAlloc
  | frameAllocZero

def FrameRequest.run : FrameRequest → Kernel → Outcome (Nat × Kernel)
  | frameAlloc => MetalToApp.frameAlloc
  | frameAllocZero => MetalToApp.frameAllocZero

/-- The states an allocator can reach from `init`, with the frames that are live there:
handed out and not returned. The owner of a live frame may write any of its bytes. -/
inductive FrameReach (init : Kernel) : Kernel → List Nat → Prop
  | start : FrameReach init init []
  | alloc {s s' live f} (request : FrameRequest) :
      FrameReach init s live → request.run s = .ok (f, s') → FrameReach init s' (f :: live)
  | dealloc {s s' live f} :
      FrameReach init s live → f ∈ live → frameDealloc s f = .ok s' → FrameReach init s' (live.erase f)
  | write {s live f o} (b : UInt8) :
      FrameReach init s live → f ∈ live → o < 4096 →
      FrameReach init { s with mem := set s.mem (f + o) b } live

/-- What an allocator over the frames from `first` to `last` owes its clients. -/
structure FramesKept (first last : Nat) (s : Kernel) (live : List Nat) : Prop where
  /-- The free list is finite, and with the live and the untouched frames it makes up the arena. -/
  partition : ∃ listed bump, Linked 0 (nextFreePage s.mem) s.freelist (listed.map linearAddressToPtr) ∧
    s.freememStart = linearAddressToPtr bump ∧ s.freememEnd = linearAddressToPtr last ∧
    (live ++ listed ++ frameRange bump last).Perm (frameRange first last)
  handed_out : ∀ (request : FrameRequest) f s', request.run s = .ok (f, s') →
    f % 4096 = 0 ∧ first ≤ f ∧ f + 4096 ≤ last ∧ f ∉ live
  zeroed : ∀ f s', frameAllocZero s = .ok (f, s') → ∀ o < 4096, s'.mem (f + o) = 0
  alloc_frame : ∀ (request : FrameRequest) f s', request.run s = .ok (f, s') →
    ∀ g ∈ live, Agree s.mem s'.mem g 4096
  dealloc_frame : ∀ f ∈ live, ∃ s', frameDealloc s f = .ok s' ∧ ∀ g ∈ live, g ≠ f → Agree s.mem s'.mem g 4096
  exhausted : ∀ request : FrameRequest,
    request.run s = .error .panic ↔ ∀ f ∈ frameRange first last, f ∈ live
  available : ∀ request : FrameRequest,
    request.run s ≠ .error .panic → ∃ f s', request.run s = .ok (f, s')

namespace FreeFrames
variable {A : Arena} {s : Kernel} {free : List Nat}

/-- Either request pops the same frame; only the bytes of that frame may change. -/
theorem request_cons {f : Nat} (h : FreeFrames A s (f :: free)) (request : FrameRequest) :
    ∃ s', request.run s = .ok (f, s') ∧ FreeFrames A s' free ∧
      ∀ x, x < f ∨ f + 4096 ≤ x → s'.mem x = s.mem x := by
  cases request with
  | frameAlloc =>
    obtain ⟨s', run, rest, mem⟩ := h.frameAlloc_cons
    exact ⟨s', run, rest, fun x _ => by rw [mem]⟩
  | frameAllocZero =>
    obtain ⟨s', run, rest, mem⟩ := h.frameAllocZero_cons
    exact ⟨s', run, rest, fun x outside => by rw [mem, memset_outside 0 outside]⟩

theorem request_nil (h : FreeFrames A s []) (request : FrameRequest) : request.run s = .error .panic := by
  cases request with
  | frameAlloc => exact h.frameAlloc_nil
  | frameAllocZero => exact h.frameAllocZero_nil

end FreeFrames

/-- The live frames and the free frames are the arena, each frame once. -/
structure FramesAccounted (A : Arena) (s : Kernel) (live free : List Nat) : Prop where
  stack : FreeFrames A s free
  whole : (live ++ free).Perm (frameRange A.first A.last)

namespace FramesAccounted
variable {A : Arena} {s s' : Kernel} {live free : List Nat} {f : Nat}

theorem frame (h : FramesAccounted A s live free) (member : f ∈ live ++ free) : A.Frame f := by
  obtain ⟨aligned, lower, upper⟩ := (mem_frameRange A.first_aligned).mp (h.whole.mem_iff.mp member)
  exact ⟨aligned, lower, upper⟩

theorem live_not_free (h : FramesAccounted A s live free) (isLive : f ∈ live) : f ∉ free := by
  have nodup := h.whole.nodup_iff.mpr (frameRange_nodup _ _)
  exact fun isFree => (List.nodup_append.mp nodup).2.2 f isLive f isFree rfl

theorem separate (h : FramesAccounted A s live free) {g : Nat} (isLive : f ∈ live) (isFree : g ∈ free) :
    f + 4096 ≤ g ∨ g + 4096 ≤ f :=
  (h.frame (List.mem_append_left _ isLive)).apart (h.frame (List.mem_append_right _ isFree))
    fun same => h.live_not_free isLive (same ▸ isFree)

theorem alloc (h : FramesAccounted A s live free) {request : FrameRequest} (run : request.run s = .ok (f, s')) :
    ∃ rest, free = f :: rest ∧ FramesAccounted A s' (f :: live) rest := by
  cases free with
  | nil =>
    rw [h.stack.request_nil request] at run
    cases run
  | cons g rest =>
    obtain ⟨t, popped, stack, _⟩ := h.stack.request_cons request
    cases popped.symm.trans run
    exact ⟨rest, rfl, stack, (List.perm_middle.symm.trans h.whole)⟩

theorem dealloc (h : FramesAccounted A s live free) (isLive : f ∈ live) (run : frameDealloc s f = .ok s') :
    FramesAccounted A s' (live.erase f) (f :: free) := by
  obtain ⟨pushed, stack⟩ := h.stack.frameDealloc_push (h.frame (List.mem_append_left _ isLive))
    (h.live_not_free isLive)
  cases pushed.symm.trans run
  refine ⟨stack, ?_⟩
  have moved : (live.erase f ++ f :: free).Perm (f :: live.erase f ++ free) := List.perm_middle
  exact (moved.trans ((List.perm_cons_erase isLive).symm.append_right free)).trans h.whole

theorem write (h : FramesAccounted A s live free) {o : Nat} (b : UInt8) (isLive : f ∈ live) (inside : o < 4096) :
    FramesAccounted A { s with mem := set s.mem (f + o) b } live free := by
  refine ⟨h.stack.congr_mem fun g member i bound => ?_, h.whole⟩
  have apart := h.separate isLive member
  exact set_of_ne (by omega)

/-- An accounted allocator keeps every promise to its clients. -/
theorem kept (h : FramesAccounted A s live free) : FramesKept A.first A.last s live where
  partition := by
    obtain ⟨listed, bump, lists, rfl⟩ := h.stack
    exact ⟨listed, bump, lists.chain, lists.start, lists.finish, by simpa only [List.append_assoc] using h.whole⟩
  handed_out := by
    intro request f s' run
    obtain ⟨rest, rfl, next⟩ := h.alloc run
    have frame := h.frame (List.mem_append_right _ List.mem_cons_self)
    exact ⟨frame.aligned, frame.lower, frame.upper, fun isLive => h.live_not_free isLive List.mem_cons_self⟩
  zeroed := by
    intro f s' run o inside
    obtain ⟨rest, rfl, next⟩ := h.alloc (show FrameRequest.frameAllocZero.run _ = .ok (f, s') from run)
    obtain ⟨t, popped, _, mem⟩ := h.stack.frameAllocZero_cons
    cases popped.symm.trans run
    rw [mem, memset_inside 0 inside]
  alloc_frame := by
    intro request f s' run g isLive i bound
    obtain ⟨rest, rfl, next⟩ := h.alloc run
    obtain ⟨t, popped, _, unchanged⟩ := h.stack.request_cons request
    cases popped.symm.trans run
    have apart := h.separate isLive List.mem_cons_self
    exact unchanged _ (by omega)
  dealloc_frame := by
    intro f isLive
    have frame := h.frame (List.mem_append_left _ isLive)
    obtain ⟨pushed, _⟩ := h.stack.frameDealloc_push frame (h.live_not_free isLive)
    refine ⟨_, pushed, fun g isLive' different i bound => ?_⟩
    have apart := frame.apart (h.frame (List.mem_append_left _ isLive')) different.symm
    exact writeLE_outside (by omega)
  exhausted := by
    intro request
    constructor
    · intro halt f inArena
      cases free with
      | nil => simpa using h.whole.mem_iff.mpr inArena
      | cons g rest =>
        obtain ⟨t, popped, _⟩ := h.stack.request_cons request
        rw [popped] at halt
        cases halt
    · intro allLive
      cases free with
      | nil => exact h.stack.request_nil request
      | cons g rest =>
        have inArena := h.whole.mem_iff.mp (List.mem_append_right live List.mem_cons_self)
        exact absurd List.mem_cons_self (h.live_not_free (allLive g inArena))
  available := by
    intro request goes
    cases free with
    | nil => exact absurd (h.stack.request_nil request) goes
    | cons g rest =>
      obtain ⟨t, popped, _⟩ := h.stack.request_cons request
      exact ⟨g, t, popped⟩

end FramesAccounted

/-- Every reachable state of the allocator accounts for every frame. -/
theorem FrameReach.accounted {A : Arena} {init s : Kernel} {live : List Nat} (reach : FrameReach init s live)
    (fresh : FreeFrames A init (frameRange A.first A.last)) : ∃ free, FramesAccounted A s live free := by
  induction reach with
  | start => exact ⟨_, fresh, List.Perm.refl _⟩
  | alloc request _ run ih =>
    obtain ⟨free, h⟩ := ih
    obtain ⟨rest, _, next⟩ := h.alloc run
    exact ⟨rest, next⟩
  | dealloc _ isLive run ih =>
    obtain ⟨free, h⟩ := ih
    exact ⟨_, h.dealloc isLive run⟩
  | write b _ isLive inside ih =>
    obtain ⟨free, h⟩ := ih
    exact ⟨free, h.write b isLive inside⟩

/-- From `init_frame_allocator` on, whatever is allocated, returned and written, no
frame is lost or handed out twice. The arena is `[s, e)` rounded inwards to frames. -/
theorem frames_neither_lost_nor_duplicated {k t : Kernel} {s e : Nat} {live : List Nat} (positive : 0 < s)
    (bounded : e ≤ 2 ^ 39) (ordered : (s + 0xfff) / 4096 * 4096 ≤ e / 4096 * 4096)
    (reach : FrameReach (initFrameAllocator k s e) t live) :
    FramesKept ((s + 0xfff) / 4096 * 4096) (e / 4096 * 4096) t live := by
  let A : Arena := ⟨(s + 0xfff) / 4096 * 4096, e / 4096 * 4096, Nat.mul_mod_left _ _, Nat.mul_mod_left _ _,
    by omega, ordered, (Nat.div_mul_le_self _ _).trans bounded⟩
  obtain ⟨free, accounted⟩ := reach.accounted (A := A) (FreeFrames.initFrameAllocator A rfl rfl)
  exact accounted.kept

/-- The first frame of a two-frame arena is live after one allocation. -/
theorem frames_neither_lost_nor_duplicated_two :
    ∃ t live, FrameReach (initFrameAllocator ⟨fun _ => 0, 0, 0, 0⟩ 0x1400000 0x1402fff) t live ∧
      FramesKept 0x1400000 0x1402000 t live := by
  let A : Arena := ⟨0x1400000, 0x1402000, by decide, by decide, by decide, by decide, by decide⟩
  have fresh := FreeFrames.initFrameAllocator (s := ⟨fun _ => 0, 0, 0, 0⟩) A
    (show (0x1400000 + 0xfff) / 4096 * 4096 = A.first by norm_num [A]) (show 0x1402fff / 4096 * 4096 = A.last by norm_num [A])
  rw [frameRange_cons (by decide)] at fresh
  obtain ⟨t, run, _⟩ := fresh.frameAllocZero_cons
  have reach := FrameReach.start.alloc .frameAllocZero run
  have kept := frames_neither_lost_nor_duplicated (by decide) (by decide) (by decide) reach
  norm_num at kept
  exact ⟨t, _, reach, kept⟩

end MetalToApp

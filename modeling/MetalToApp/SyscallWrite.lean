import MetalToApp.Console
import MetalToApp.Syscall

namespace MetalToApp
open ByteMemory X86

/-- What a byte behind a user pointer is: a byte that the console never stores to, or the
one at `vga_begin[index]`. -/
inductive BufferByte
  | elsewhere (value : UInt8)
  | video (index : Nat)

/-- The bytes behind user pointers; `none` is a page fault. -/
abbrev UserBytes := Word → Option BufferByte

def BufferByte.read (text : Memory) : BufferByte → UInt8
  | elsewhere value => value
  | video index => text index

def UserBytes.pointer (user : UserBytes) (buffer : Word) : Pointer := fun text i =>
  (user (buffer + BitVec.ofNat 64 i)).map (·.read text)

def syscallWrite (s : Console) (user : UserBytes) (_fd buffer _len : Word) :
    Traced ConsoleAccess Halt (Word × Console) := do
  let s ← s.printlnFrom (user.pointer buffer)
  return (0, s)

/-- The text of a `write` call: `n` of the `len` bytes, up to the first NUL among them. -/
structure WriteText (message : Message) (len n : Nat) : Prop where
  inside : n ≤ len
  readable : ∀ k < n, ∃ c, message k = some c ∧ c ≠ 0
  stop : n < len → message n = some 0

/-- Cell `cursor + k` of the screen shows character `k` for the `n` characters, and the cells
around them are as they were. -/
structure Shows (message : Message) (cursor n : Nat) (before after : Memory) : Prop where
  onScreen : ∀ k < n, cursor + k < 80 * 25
  characters : ∀ k < n, message k = some (after (2 * (cursor + k)))
  rest : ∀ cell < 80 * 25, cell < cursor ∨ cursor + n ≤ cell → after (2 * cell) = before (2 * cell)

/-- The call returns, has read nothing but bytes of the buffer, shows the text that was in it
when it was called, and has stored the cells of this text, no others. -/
structure HonoursLength (s : Console) (user : UserBytes) (fd buffer len : Word) : Prop where
  reads : ∀ i, .read i ∈ (syscallWrite s user fd buffer len).events → i < len.toNat
  text : ∃ t n, (syscallWrite s user fd buffer len).result = .ok (0, t) ∧
    WriteText (user.pointer buffer s.text) len.toNat n ∧ Shows (user.pointer buffer s.text) s.currentOffset n s.text t.text ∧
    ∀ i, .write i ∈ (syscallWrite s user fd buffer len).events ↔ 2 * s.currentOffset ≤ i ∧ i < 2 * (s.currentOffset + n)

/-- No character changes a byte that the loop has yet to read: where byte `k` of the buffer is
a byte of the cell that an earlier character goes to, it is what the cell is to hold. -/
def Undisturbed (user : UserBytes) (buffer : Word) (text : Memory) (cursor n : Nat) : Prop :=
  ∀ k ≤ n, ∀ j < k,
    (user (buffer + BitVec.ofNat 64 k) = some (.video (2 * (cursor + j))) →
      user.pointer buffer text k = user.pointer buffer text j) ∧
    (user (buffer + BitVec.ofNat 64 k) = some (.video (2 * (cursor + j) + 1)) → user.pointer buffer text k = some 0xf)

variable {s t : Console} {user : UserBytes} {fd buffer len : Word} {text : Memory} {message : Message} {cursor n m : Nat}

theorem UserBytes.pointer_video {k i : Nat} (here : user (buffer + BitVec.ofNat 64 k) = some (.video i)) (text : Memory) :
    user.pointer buffer text k = some (text i) := by
  simp only [pointer, here, Option.map_some, BufferByte.read]

theorem UserBytes.pointer_elsewhere {k : Nat} {c : UInt8} (here : user (buffer + BitVec.ofNat 64 k) = some (.elsewhere c))
    (text : Memory) : user.pointer buffer text k = some c := by
  simp only [pointer, here, Option.map_some, BufferByte.read]

theorem UserBytes.pointer_none {k : Nat} (here : user (buffer + BitVec.ofNat 64 k) = none) (text : Memory) :
    user.pointer buffer text k = none := by
  simp only [pointer, here, Option.map_none]

/-- The loop reads the text as it was at the call exactly when no character disturbs it. -/
theorem spells_iff_undisturbed (whole : (user.pointer buffer text).Terminated n) :
    (user.pointer buffer).Spells (user.pointer buffer text) cursor n text ↔ Undisturbed user buffer text cursor n := by
  have character {k j : Nat} (inside : k ≤ n) (before : j < k) : ∃ c, user.pointer buffer text j = some c ∧
      shown (user.pointer buffer text) cursor k text (2 * (cursor + j)) = c := by
    obtain ⟨c, here, -⟩ := whole.readable j (by omega)
    have cell : 2 * (cursor + j) / 2 - cursor = j := by omega
    refine ⟨c, here, ?_⟩
    rw [shown, if_pos (by omega), if_pos (by omega), cell, here]
    rfl
  have colour {k j : Nat} (before : j < k) :
      shown (user.pointer buffer text) cursor k text (2 * (cursor + j) + 1) = 0xf := by
    rw [shown, if_pos (by omega), if_neg (by omega)]
  constructor
  · intro spells k inside j before
    refine ⟨fun here => ?_, fun here => ?_⟩
    · obtain ⟨c, letter, cell⟩ := character inside before
      rw [← spells k inside, user.pointer_video here, cell, letter]
    · rw [← spells k inside, user.pointer_video here, colour before]
  · intro undisturbed k inside
    rcases here : user (buffer + BitVec.ofNat 64 k) with _ | value | i
    · rw [user.pointer_none here, user.pointer_none here]
    · rw [user.pointer_elsewhere here, user.pointer_elsewhere here]
    · by_cases cell : 2 * cursor ≤ i ∧ i < 2 * (cursor + k)
      · obtain ⟨j, before, place⟩ : ∃ j < k, i = 2 * (cursor + j) ∨ i = 2 * (cursor + j) + 1 :=
          ⟨i / 2 - cursor, by omega, by omega⟩
        rcases place with rfl | rfl
        · obtain ⟨c, letter, shows⟩ := character inside before
          rw [(undisturbed k inside j before).1 here, letter, user.pointer_video here, shows]
        · rw [(undisturbed k inside j before).2 here, user.pointer_video here, colour before]
      · rw [user.pointer_video here, user.pointer_video here, shown, if_neg cell]

theorem syscallWrite_result : (syscallWrite s user fd buffer len).result =
    (s.printlnFrom (user.pointer buffer)).result >>= fun t => .ok (0, t) := by
  rw [syscallWrite, Traced.bind_result]
  rfl

theorem syscallWrite_events : (syscallWrite s user fd buffer len).events = (s.printFrom (user.pointer buffer)).events := by
  rw [← Console.printlnFrom_events]
  rcases returned : (s.printlnFrom (user.pointer buffer)).result with e | t
  · rw [syscallWrite, Traced.bind_events_error returned]
  · rw [syscallWrite, Traced.bind_events_ok returned]
    exact List.append_nil _

theorem shown_character {k offset : Nat} {text : Memory} (inside : k < n) :
    shown message offset n text (2 * (offset + k)) = (message k).getD 0 := by
  have cell : 2 * (offset + k) / 2 - offset = k := by omega
  rw [shown, if_pos (by omega), if_pos (by omega), cell]

theorem shown_shows {offset : Nat} {text : Memory} (whole : message.Terminated n) (room : n = 0 ∨ offset + n ≤ 80 * 25) :
    Shows message offset n text (shown message offset n text) := by
  refine ⟨fun k below => by omega, fun k below => ?_, fun cell _ outside => if_neg (by omega)⟩
  obtain ⟨c, here, -⟩ := whole.readable k below
  rw [shown_character below, here]
  rfl

/-- A call that returns has shown some text, reading each byte of it while it was shown. -/
theorem syscallWrite_ends {w : Word} (returned : (syscallWrite s user fd buffer len).result = .ok (w, t)) :
    ∃ message : Message, ∃ k, message.Terminated k ∧ (user.pointer buffer).Spells message s.currentOffset k s.text ∧
      t.text = shown message s.currentOffset k s.text ∧ .read k ∈ (syscallWrite s user fd buffer len).events ∧
      ∀ i, .write i ∈ (syscallWrite s user fd buffer len).events ↔ 2 * s.currentOffset ≤ i ∧ i < 2 * (s.currentOffset + k) := by
  rw [syscallWrite_result, Console.printlnFrom_result, Console.printFrom_result] at returned
  obtain ⟨u, returned, last⟩ := Outcome.bind_eq_ok.mp returned
  obtain ⟨v, returned, line⟩ := Outcome.bind_eq_ok.mp returned
  obtain ⟨⟨memory, k⟩, returned, printed⟩ := Outcome.bind_eq_ok.mp returned
  obtain ⟨reads, writes⟩ := cwriteFrom_events returned
  have start : shown (fun _ => none) s.currentOffset 0 s.text = s.text := shown_zero
  rw [cwrite, ← start] at returned
  obtain ⟨message, -, readable, terminated, spells, shows⟩ := cwriteFrom_ends returned
  cases last
  cases line
  cases printed
  rw [syscallWrite_events, Console.printFrom_events]
  exact ⟨message, k, ⟨fun j below => readable j (Nat.zero_le j) below, terminated⟩,
    fun j inside => spells j (Nat.zero_le j) inside, shows, (reads k).mpr ⟨Nat.zero_le k, le_rfl⟩, writes⟩

/-- Two ranges of cells with the same stores are of one length. -/
theorem cells_unique {p q : Nat}
    (same : ∀ i, (2 * cursor ≤ i ∧ i < 2 * (cursor + p)) ↔ (2 * cursor ≤ i ∧ i < 2 * (cursor + q))) :
    p = q := by
  have one := same (2 * (cursor + p))
  have other := same (2 * (cursor + q))
  omega

/-- A call that keeps to its length has found a NUL inside it, where it was from the start. -/
theorem HonoursLength.terminated (honours : HonoursLength s user fd buffer len) :
    ∃ k < len.toNat, (user.pointer buffer s.text).Terminated k ∧ (k = 0 ∨ s.currentOffset + k ≤ 80 * 25) ∧
      Undisturbed user buffer s.text s.currentOffset k := by
  obtain ⟨t, n, returned, text, screen, cells⟩ := honours.text
  obtain ⟨message, k, whole, spells, shows, event, stores⟩ := syscallWrite_ends returned
  have inside := honours.reads k event
  obtain rfl : n = k := cells_unique fun i => (cells i).symm.trans (stores i)
  have whole' : (user.pointer buffer s.text).Terminated n := ⟨text.readable, text.stop inside⟩
  -- what the loop has read is what the screen shows, which is the text as it was at the call
  have same : ∀ j ≤ n, message j = user.pointer buffer s.text j := by
    intro j upper
    rcases upper.eq_or_lt with rfl | less
    · rw [whole.terminated, whole'.terminated]
    · obtain ⟨c, here, -⟩ := whole.readable j less
      rw [screen.characters j less, shows, shown_character less, here]
      rfl
  refine ⟨n, inside, whole', ?_, (spells_iff_undisturbed whole').mp fun j upper => ?_⟩
  · rcases Nat.eq_zero_or_pos n with zero | positive
    · exact Or.inl zero
    · have last := screen.onScreen (n - 1) (by omega)
      exact Or.inr (by omega)
  · rw [← shown_congr fun i before => same i (by omega), spells j upper, same j upper]

theorem honours_of_terminated {k : Nat} (inside : k < len.toNat) (whole : (user.pointer buffer s.text).Terminated k)
    (room : k = 0 ∨ s.currentOffset + k ≤ 80 * 25) (undisturbed : Undisturbed user buffer s.text s.currentOffset k) :
    HonoursLength s user fd buffer len := by
  obtain ⟨printed, reads, writes⟩ := Console.printFrom_whole whole ((spells_iff_undisturbed whole).mpr undisturbed) room
  have returned : (syscallWrite s user fd buffer len).result = .ok (0,
      { text := shown (user.pointer buffer s.text) s.currentOffset k s.text
        currentOffset := ((s.currentOffset + k) % (80 * 25) + 79) / 80 * 80 }) := by
    rw [syscallWrite_result, Console.printlnFrom_result, printed, Outcome.ok_bind, Outcome.ok_bind]
  refine ⟨fun i event => ?_, _, k, returned, ⟨inside.le, whole.readable, fun _ => whole.terminated⟩,
    shown_shows whole (by omega), fun i => ?_⟩
  · rw [syscallWrite_events] at event
    exact ((reads i).mp event).trans_lt inside
  · rw [syscallWrite_events]
    exact writes i

/-- `write` honours its length exactly when a NUL ends the text before the buffer ends, with
every byte up to it readable, the text fits on the screen, and no character that is shown
changes a byte of the buffer that is read after it. -/
theorem syscallWrite_honours_iff (s : Console) (user : UserBytes) (fd buffer len : Word) :
    HonoursLength s user fd buffer len ↔
      ∃ k < len.toNat, (user.pointer buffer s.text).Terminated k ∧ (k = 0 ∨ s.currentOffset + k ≤ 80 * 25) ∧
        Undisturbed user buffer s.text s.currentOffset k :=
  ⟨HonoursLength.terminated, fun ⟨_, inside, whole, room, undisturbed⟩ => honours_of_terminated inside whole room undisturbed⟩

/-- One byte of a longer text: the byte behind the buffer is read and shown as well. -/
theorem syscallWrite_reads_on :
    ¬HonoursLength { text := fun _ => 0, currentOffset := 80 }
      (fun a => some (.elsewhere (if a = 0x1000 then 65 else if a = 0x1001 then 66 else 0))) 1 0x1000 1 := by
  intro honours
  obtain ⟨k, inside, whole, -⟩ := honours.terminated
  have first : k = 0 := by
    have one : (1 : Word).toNat = 1 := rfl
    omega
  subst first
  exact absurd whole.terminated (by decide)

end MetalToApp

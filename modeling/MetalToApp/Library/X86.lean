import MetalToApp.Library.ByteMemory
import Mathlib.Logic.Function.Basic
import Mathlib.Tactic

namespace X86
open ByteMemory

abbrev Word := BitVec 64
abbrev Selector := BitVec 16

inductive Reg
  | rax | rbx | rcx | rdx | rsi | rdi | rbp | rsp | r8 | r9 | r10 | r11 | r12 | r13 | r14 | r15
deriving DecidableEq, Repr

structure State where
  reg : Reg → Word
  mem : Memory
  cr3 : Word
  ss : Selector
  ds : Selector

/-- Moves between registers and memory, with the operands in AT&T order. -/
inductive Instr
  | push (src : Reg)
  | pop (dst : Reg)
  | mov (src dst : Reg)
  | load (disp : Word) (base dst : Reg)
  | store (src : Reg) (disp : Word) (base : Reg)
  | lea (disp : Word) (base dst : Reg)
  | movSs (dst : Reg)
  | movDs (src : Reg)
  | movCr3 (src : Reg)

def readWord (m : Memory) (a : Nat) : Word := BitVec.ofNat 64 (read64 m a)
def writeWord (m : Memory) (a : Nat) (v : Word) : Memory := write64 m a v.toNat

/-- One instruction. `movSs` replaces the low 16 bits of its operand only. -/
def exec (s : State) : Instr → State
  | .push src =>
    let sp := s.reg .rsp - 8
    { s with reg := Function.update s.reg .rsp sp, mem := writeWord s.mem sp.toNat (s.reg src) }
  | .pop dst =>
    let v := readWord s.mem (s.reg .rsp).toNat
    { s with reg := Function.update (Function.update s.reg .rsp (s.reg .rsp + 8)) dst v }
  | .mov src dst => { s with reg := Function.update s.reg dst (s.reg src) }
  | .load disp base dst =>
    { s with reg := Function.update s.reg dst (readWord s.mem (s.reg base + disp).toNat) }
  | .store src disp base => { s with mem := writeWord s.mem (s.reg base + disp).toNat (s.reg src) }
  | .lea disp base dst => { s with reg := Function.update s.reg dst (s.reg base + disp) }
  | .movSs dst => { s with reg := Function.update s.reg dst (s.reg dst &&& ~~~0xffff ||| s.ss.setWidth 64) }
  | .movDs src => { s with ds := (s.reg src).setWidth 16 }
  | .movCr3 src => { s with cr3 := s.reg src }

def run (s : State) (program : List Instr) : State := program.foldl exec s

theorem run_append (s : State) (first second : List Instr) :
    run s (first ++ second) = run (run s first) second := List.foldl_append ..

theorem run_cons (s : State) (i : Instr) (rest : List Instr) : run s (i :: rest) = run (exec s i) rest := rfl

theorem readWord_writeWord_self (m : Memory) (a : Nat) (v : Word) : readWord (writeWord m a v) a = v := by
  rw [readWord, writeWord, read64_write64_self v.isLt, BitVec.ofNat_toNat, BitVec.setWidth_eq]

theorem readWord_congr {m m' : Memory} {a : Nat} (same : ∀ x, a ≤ x → x < a + 8 → m' x = m x) :
    readWord m' a = readWord m a := by
  have words : read64 m' a = read64 m a := readLE_congr fun i bound => same (a + i) (by omega) (by omega)
  rw [readWord, readWord, words]

theorem readWord_write64_self (m : Memory) (a v : Nat) : readWord (write64 m a v) a = BitVec.ofNat 64 v := by
  rw [readWord, read64, write64, readLE_writeLE_self]
  apply BitVec.eq_of_toNat_eq
  simp only [BitVec.toNat_ofNat]
  norm_num

theorem readWord_write64_disjoint {m : Memory} {a b v : Nat} (apart : b + 8 ≤ a ∨ a + 8 ≤ b) :
    readWord (write64 m a v) b = readWord m b := by
  rw [readWord, readWord, read64_write64_disjoint apart]

theorem writeWord_outside {m : Memory} {a x : Nat} {v : Word} (outside : x < a ∨ a + 8 ≤ x) :
    writeWord m a v x = m x := write64_outside outside

/-- Consecutive words of memory, from `a` upwards. -/
def WordsAt (m : Memory) (a : Nat) : List Word → Prop
  | [] => True
  | v :: vs => readWord m a = v ∧ WordsAt m (a + 8) vs

namespace WordsAt
variable {m m' : Memory} {a : Nat} {v : Word} {vs ws : List Word}

theorem congr (h : WordsAt m a vs) (same : ∀ x, a ≤ x → x < a + 8 * vs.length → m' x = m x) : WordsAt m' a vs := by
  induction vs generalizing a with
  | nil => trivial
  | cons v vs ih =>
    rw [List.length_cons] at same
    refine ⟨?_, ih h.2 fun x lower upper => same x (by omega) (by omega)⟩
    rw [readWord_congr fun x lower upper => same x lower (by omega), h.1]

theorem append : WordsAt m a (vs ++ ws) ↔ WordsAt m a vs ∧ WordsAt m (a + 8 * vs.length) ws := by
  induction vs generalizing a with
  | nil => simp [WordsAt]
  | cons v vs ih =>
    have shift : a + 8 + 8 * vs.length = a + 8 * (v :: vs).length := by simp only [List.length_cons]; omega
    simp only [List.cons_append, WordsAt, ih, shift, and_assoc]

/-- Storing a word just below a block extends the block. -/
theorem push (h : WordsAt m (a + 8) vs) (v : Word) : WordsAt (writeWord m a v) a (v :: vs) :=
  ⟨readWord_writeWord_self m a v, h.congr fun _ lower _ => writeWord_outside (Or.inr lower)⟩

end WordsAt

theorem toNat_sub_eight {w : Word} {n : Nat} (h : w.toNat = n + 8) : (w - 8).toNat = n := by
  have bound := w.isLt
  rw [BitVec.toNat_sub, h, show BitVec.toNat (8 : Word) = 8 from rfl]
  omega

theorem toNat_add_eight {w : Word} (room : w.toNat + 8 < 2 ^ 64) : (w + 8).toNat = w.toNat + 8 := by
  rw [BitVec.toNat_add, show BitVec.toNat (8 : Word) = 8 from rfl]
  omega

theorem toNat_add_of_room {w : Word} {n : Nat} (room : w.toNat + n < 2 ^ 64) :
    (w + BitVec.ofNat 64 n).toNat = w.toNat + n := by
  rw [BitVec.toNat_add, BitVec.toNat_ofNat]
  omega

theorem exec_push {s : State} {n : Nat} (r : Reg) (sp : s.reg .rsp = BitVec.ofNat 64 (n + 8)) (fits : n < 2 ^ 64) :
    exec s (.push r) =
      { s with reg := Function.update s.reg .rsp (BitVec.ofNat 64 n), mem := writeWord s.mem n (s.reg r) } := by
  have next : s.reg .rsp - 8 = BitVec.ofNat 64 n := by
    rw [sp, BitVec.ofNat_add]
    exact BitVec.add_sub_cancel ..
  have address : (BitVec.ofNat 64 n).toNat = n := by rw [BitVec.toNat_ofNat]; exact Nat.mod_eq_of_lt fits
  simp only [exec, next, address]

/-- A row of pushes lays the registers down in a block that ends where the stack was. -/
theorem run_pushes {s : State} (regs : List Reg) (base : Nat) {vs : List Word} (noRsp : Reg.rsp ∉ regs)
    (sp : (s.reg .rsp).toNat = base + 8 * regs.length) (above : WordsAt s.mem (base + 8 * regs.length) vs) :
    ∃ m, run s (regs.map .push) =
        { s with reg := Function.update s.reg .rsp (BitVec.ofNat 64 base), mem := m } ∧
      WordsAt m base ((regs.map s.reg).reverse ++ vs) ∧
      ∀ x, x < base ∨ base + 8 * regs.length ≤ x → m x = s.mem x := by
  induction regs generalizing s vs with
  | nil =>
    refine ⟨s.mem, ?_, above, fun _ _ => rfl⟩
    have same : BitVec.ofNat 64 base = s.reg .rsp := by
      rw [← show (s.reg .rsp).toNat = base from sp, BitVec.ofNat_toNat, BitVec.setWidth_eq]
    rw [same, Function.update_eq_self]
    rfl
  | cons r rest ih =>
    simp only [List.length_cons] at sp above ⊢
    have top : (s.reg .rsp - 8).toNat = base + 8 * rest.length := toNat_sub_eight (by omega)
    have regNe : r ≠ .rsp := fun same => noRsp (same ▸ List.mem_cons_self)
    have pushed := (show WordsAt s.mem (base + 8 * rest.length + 8) vs from above).push (s.reg r)
    have mem : (exec s (.push r)).mem = writeWord s.mem (base + 8 * rest.length) (s.reg r) := by
      simp only [exec, top]
    obtain ⟨m, final, words, outside⟩ := ih (s := exec s (.push r)) (fun member => noRsp (List.mem_cons_of_mem _ member))
      (by simpa only [exec, Function.update_self] using top) (by rw [mem]; exact pushed)
    refine ⟨m, ?_, ?_, fun x away => ?_⟩
    · rw [List.map_cons, run_cons, final]
      simp [exec]
    · have kept : rest.map (exec s (.push r)).reg = rest.map s.reg :=
        List.map_congr_left fun q member => by
          have qNe : q ≠ .rsp := fun same => noRsp (same ▸ List.mem_cons_of_mem _ member)
          simp [exec, qNe]
      simpa [kept] using words
    · rw [outside x (by omega)]
      simp only [exec, top]
      exact writeWord_outside (by omega)

/-- What a register pair keeps of an earlier round on the same pair. -/
theorem update_pair {reg : Reg → Word} {scratch : Reg} {v w x y : Word} (scratchNe : scratch ≠ .rsp) :
    Function.update (Function.update (Function.update (Function.update reg scratch w) .rsp x) scratch v) .rsp y =
      Function.update (Function.update reg scratch v) .rsp y := by
  rw [Function.update_comm scratchNe, Function.update_idem, Function.update_comm scratchNe.symm, Function.update_idem]

/-- Pushing consecutive words through a scratch register, the lowest first. -/
def copyUp (base scratch : Reg) (disp : Word) : Nat → List Instr
  | 0 => []
  | n + 1 => .load disp base scratch :: .push scratch :: copyUp base scratch (disp + 8) n

theorem run_copyUp {s : State} (base scratch : Reg) {disp : Word} {a b : Nat} {vs ws : List Word}
    (baseNe : base ≠ .rsp) (scratchNe : scratch ≠ .rsp) (different : scratch ≠ base)
    (source : (s.reg base + disp).toNat = a) (room : a + 8 * ws.length < 2 ^ 64) (words : WordsAt s.mem a ws)
    (apart : a + 8 * ws.length ≤ b ∨ b + 8 * ws.length ≤ a)
    (sp : (s.reg .rsp).toNat = b + 8 * ws.length) (above : WordsAt s.mem (b + 8 * ws.length) vs) :
    ∃ m v, run s (copyUp base scratch disp ws.length) =
        { s with reg := Function.update (Function.update s.reg scratch v) .rsp (BitVec.ofNat 64 b), mem := m } ∧
      WordsAt m b (ws.reverse ++ vs) ∧ ∀ x, x < b ∨ b + 8 * ws.length ≤ x → m x = s.mem x := by
  induction ws generalizing s disp a vs with
  | nil =>
    refine ⟨s.mem, s.reg scratch, ?_, above, fun _ _ => rfl⟩
    have same : BitVec.ofNat 64 b = s.reg .rsp := by
      rw [← show (s.reg .rsp).toNat = b from sp, BitVec.ofNat_toNat, BitVec.setWidth_eq]
    rw [same, Function.update_eq_self, Function.update_eq_self]
    rfl
  | cons w ws ih =>
    simp only [List.length_cons] at sp above room apart ⊢
    have top : (s.reg .rsp - 8).toNat = b + 8 * ws.length := toNat_sub_eight (by omega)
    have value : readWord s.mem (s.reg base + disp).toNat = w := by rw [source]; exact words.1
    let t := exec (exec s (.load disp base scratch)) (.push scratch)
    have regs : t.reg = Function.update (Function.update s.reg scratch w) .rsp (s.reg .rsp - 8) := by
      simp only [t, exec, value, Function.update_of_ne scratchNe.symm]
    have mem : t.mem = writeWord s.mem (b + 8 * ws.length) w := by
      simp only [t, exec, value, Function.update_of_ne scratchNe.symm, Function.update_self, top]
    have next : (t.reg base + (disp + 8)).toNat = a + 8 := by
      rw [regs, Function.update_of_ne baseNe, Function.update_of_ne different.symm, ← BitVec.add_assoc,
        toNat_add_eight (by omega), source]
    obtain ⟨m, v, final, laid, outside⟩ := ih (s := t) (a := a + 8) next (by omega)
      (by rw [mem]; exact words.2.congr fun x lower upper => writeWord_outside (by omega)) (by omega)
      (by rw [regs, Function.update_self, top])
      (by rw [mem]; exact WordsAt.push above w)
    refine ⟨m, v, ?_, by simpa using laid, fun x away => ?_⟩
    · rw [copyUp, run_cons, run_cons, show exec (exec s (.load disp base scratch)) (.push scratch) = t from rfl, final,
        regs, update_pair scratchNe]
      rfl
    · rw [outside x (by omega), mem, writeWord_outside (by omega)]

/-- Popping words into a block below a base register, the highest cell first. -/
def restoreDown (base scratch : Reg) : Nat → List Instr
  | 0 => []
  | n + 1 => .pop scratch :: .store scratch (BitVec.ofNat 64 (8 * n)) base :: restoreDown base scratch n

theorem run_restoreDown {s : State} (base scratch : Reg) {a b : Nat} {vs ws : List Word}
    (baseNe : base ≠ .rsp) (scratchNe : scratch ≠ .rsp) (different : scratch ≠ base)
    (target : (s.reg base).toNat = a) (room : a + 8 * ws.length < 2 ^ 64) (sp : (s.reg .rsp).toNat = b)
    (stackRoom : b + 8 * ws.length < 2 ^ 64) (words : WordsAt s.mem b ws)
    (apart : a + 8 * ws.length ≤ b ∨ b + 8 * ws.length ≤ a) (above : WordsAt s.mem (a + 8 * ws.length) vs) :
    ∃ m v, run s (restoreDown base scratch ws.length) =
        { s with
          reg := Function.update (Function.update s.reg scratch v) .rsp (BitVec.ofNat 64 (b + 8 * ws.length)), mem := m } ∧
      WordsAt m a (ws.reverse ++ vs) ∧ ∀ x, x < a ∨ a + 8 * ws.length ≤ x → m x = s.mem x := by
  induction ws generalizing s b vs with
  | nil =>
    refine ⟨s.mem, s.reg scratch, ?_, above, fun _ _ => rfl⟩
    have same : BitVec.ofNat 64 (b + 8 * ([] : List Word).length) = s.reg .rsp := by
      rw [← sp, List.length_nil, Nat.mul_zero, Nat.add_zero, BitVec.ofNat_toNat, BitVec.setWidth_eq]
    rw [same, Function.update_eq_self, Function.update_eq_self]
    rfl
  | cons w ws ih =>
    simp only [List.length_cons] at room stackRoom apart above ⊢
    have value : readWord s.mem (s.reg .rsp).toNat = w := by rw [sp]; exact words.1
    have cell : (s.reg base + BitVec.ofNat 64 (8 * ws.length)).toNat = a + 8 * ws.length := by
      rw [toNat_add_of_room (by omega), target]
    let t := exec (exec s (.pop scratch)) (.store scratch (BitVec.ofNat 64 (8 * ws.length)) base)
    have regs : t.reg = Function.update (Function.update s.reg .rsp (s.reg .rsp + 8)) scratch w := by
      simp [t, exec, value]
    have mem : t.mem = writeWord s.mem (a + 8 * ws.length) w := by
      simp [t, exec, value, baseNe, different.symm, cell]
    have next : (t.reg .rsp).toNat = b + 8 := by
      rw [regs, Function.update_of_ne scratchNe.symm, Function.update_self, toNat_add_eight (by omega), sp]
    obtain ⟨m, v, final, laid, outside⟩ := ih (s := t) (b := b + 8)
      (by rw [regs, Function.update_of_ne different.symm, Function.update_of_ne baseNe, target]) (by omega) next (by omega)
      (by rw [mem]; exact words.2.congr fun x lower upper => writeWord_outside (by omega)) (by omega)
      (by rw [mem]; exact WordsAt.push above w)
    refine ⟨m, v, ?_, by simpa using laid, fun x away => ?_⟩
    · have ends : b + 8 + 8 * ws.length = b + 8 * (ws.length + 1) := by omega
      rw [restoreDown, run_cons, run_cons, show exec (exec s (.pop scratch)) _ = t from rfl, final, ends, regs,
        Function.update_comm scratchNe.symm, update_pair scratchNe]
      rfl
    · rw [outside x (by omega), mem, writeWord_outside (by omega)]

/-- The registers after popping the words `vs` into the registers `rs`. -/
def popped (reg : Reg → Word) : List Reg → List Word → Reg → Word
  | r :: rs, v :: vs => popped (Function.update reg r v) rs vs
  | _, _ => reg

theorem popped_update_rsp {rs : List Reg} {vs : List Word} {reg : Reg → Word} {w : Word} (noRsp : Reg.rsp ∉ rs) :
    popped (Function.update reg .rsp w) rs vs = Function.update (popped reg rs vs) .rsp w := by
  induction rs generalizing reg vs with
  | nil => rfl
  | cons r rs ih =>
    cases vs with
    | nil => rfl
    | cons v vs =>
      have rNe : r ≠ .rsp := fun same => noRsp (same ▸ List.mem_cons_self)
      rw [popped, Function.update_comm rNe.symm, ih fun member => noRsp (List.mem_cons_of_mem _ member), popped]

theorem run_pops {s : State} (regs : List Reg) {b : Nat} {vs : List Word} (noRsp : Reg.rsp ∉ regs)
    (sp : (s.reg .rsp).toNat = b) (room : b + 8 * regs.length < 2 ^ 64) (words : WordsAt s.mem b vs)
    (count : vs.length = regs.length) :
    run s (regs.map .pop) =
      { s with reg := Function.update (popped s.reg regs vs) .rsp (BitVec.ofNat 64 (b + 8 * regs.length)) } := by
  induction regs generalizing s b vs with
  | nil =>
    cases List.length_eq_zero_iff.mp count
    have same : BitVec.ofNat 64 (b + 8 * ([] : List Reg).length) = s.reg .rsp := by
      rw [← sp, List.length_nil, Nat.mul_zero, Nat.add_zero, BitVec.ofNat_toNat, BitVec.setWidth_eq]
    rw [same, popped, Function.update_eq_self]
    · rfl
    · simp
  | cons r rest ih =>
    obtain ⟨v, vs, rfl⟩ : ∃ v ws, vs = v :: ws := List.exists_cons_of_length_eq_add_one count
    simp only [List.length_cons, Nat.add_right_cancel_iff] at count room ⊢
    have rNe : r ≠ .rsp := fun same => noRsp (same ▸ List.mem_cons_self)
    have restNe : Reg.rsp ∉ rest := fun member => noRsp (List.mem_cons_of_mem _ member)
    have value : readWord s.mem (s.reg .rsp).toNat = v := by rw [sp]; exact words.1
    have next : ((exec s (.pop r)).reg .rsp).toNat = b + 8 := by
      simp only [exec]
      rw [Function.update_of_ne rNe.symm, Function.update_self, toNat_add_eight (by omega), sp]
    rw [List.map_cons, run_cons, ih restNe next (by omega) words.2 count]
    have ends : b + 8 + 8 * rest.length = b + 8 * (rest.length + 1) := by omega
    simp only [exec, value, ends, popped]
    rw [Function.update_comm rNe.symm, popped_update_rsp restNe, Function.update_idem]

end X86

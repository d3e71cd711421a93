import MetalToApp.SyscallDispatch

namespace MetalToApp
open ByteMemory Paging X86

/-- The registers that a C function keeps for its caller, besides the stack pointer. -/
def calleeSaved : List Reg := [.rbx, .rbp, .r12, .r13, .r14, .r15]

/-- What a C function does from its first instruction to after its return, by the calling
convention: it returns to the address on top of the stack, keeps its caller's registers and
the two words above, sets no trap flag and leaves its caller's code alone. -/
structure Conforms (V : Tables) (image : SyscallImage) (s t : Cpu) : Prop where
  calleeSaved : ∀ r ∈ calleeSaved, t.reg r = s.reg r
  rsp : t.reg .rsp = s.reg .rsp + 8
  rip : ∀ w : Word, (V s.mem).load s.mem 8 (s.reg .rsp) = some w.toNat → t.rip = w
  flags : (V t.mem).load t.mem 8 (s.reg .rsp + 8) = (V s.mem).load s.mem 8 (s.reg .rsp + 8)
  next : (V t.mem).load t.mem 8 (s.reg .rsp + 16) = (V s.mem).load s.mem 8 (s.reg .rsp + 16)
  untrapped : s.trapFlag = false → t.trapFlag = false
  exit : (V t.mem).holds t.mem (image.syscallEntryAsm + 16) (image.bytes exitInstrs) =
    (V s.mem).holds s.mem (image.syscallEntryAsm + 16) (image.bytes exitInstrs)

/-- The handler conforms wherever its code has not been written over. -/
def CallingConvention (V : Tables) (image : SyscallImage) (c : SyscallHandler) (f : Cpu → Cpu) : Prop :=
  ∀ s, HandlerLoaded (V s.mem) image c s.mem → Conforms V image s (f s)

/-! The `asm` statement of the user's `syscall`: its operands, and what it tells the compiler
that it changes. -/

def asmOutputs : List Reg := [.rax, .rcx]
def asmClobbers : List Reg := [.r8, .r9, .r10, .r11]

/-- The operands before the statement. The compiler picks the registers of `arg4` and `arg5`,
none of them a clobber. -/
structure AsmOperands (s : Cpu) (syscallNumber arg0 arg1 arg2 arg3 arg4 arg5 : Word) (fifth sixth : Reg) : Prop where
  rax : s.reg .rax = syscallNumber
  rcx : s.reg .rcx = arg3
  rdi : s.reg .rdi = arg0
  rsi : s.reg .rsi = arg1
  rdx : s.reg .rdx = arg2
  fifthValue : s.reg fifth = arg4
  sixthValue : s.reg sixth = arg5
  fifthFree : fifth ∉ asmClobbers
  sixthFree : sixth ∉ asmClobbers

/-- The three moves of the statement, up to its `syscall`. -/
def asmMoves (fifth sixth : Reg) (s : Cpu) : Cpu := ((s.mov .rcx .r10).mov fifth .r8).mov sixth .r9

/-- From the statement through the kernel and back. `code` is what the C function at an
address does; the result holds the state at its first instruction and the final one. -/
def syscallRound (V : Tables) (image : SyscallImage) (msr : SyscallMsr) (code : Word → Cpu → Cpu) (fifth sixth : Reg)
    (s : Cpu) : Option (Cpu × Cpu) := do
  let called ← syscallEntry V image (syscallInstruction msr (asmMoves fifth sixth s))
  let final ← syscallExitPath V image (code called.rip called)
  return (called, final)

/-- User mode before the statement: the instruction after `syscall` has a canonical address,
and the flags are those that the processor can return to. -/
structure UserState (s : Cpu) : Prop where
  next : Canonical (s.rip + 2).toNat
  rflags : s.rflags &&& 0x3C7FD7 ||| 2 = s.rflags

/-- Both sides agree on the call: the handler and its return address, arguments, result, place,
flags, stack pointer and the registers that the statement does not mention as changed. -/
def AbiAgrees (V : Tables) (image : SyscallImage) (msr : SyscallMsr) (code : Word → Cpu → Cpu) (fifth sixth : Reg)
    (c : SyscallHandler) (args : List Word) (s : Cpu) : Prop :=
  ∃ called final, syscallRound V image msr code fifth sixth s = some (called, final) ∧
    called.rip = image.address c ∧ HandlerLoaded (V called.mem) image c called.mem ∧
    (V called.mem).load called.mem 8 (called.reg .rsp) = some (image.syscallEntryAsm + 16).toNat ∧
    sysvArguments.map called.reg = args ∧
    final.reg .rax = (code (image.address c) called).reg .rax ∧ final.rip = s.rip + 2 ∧ final.rflags = s.rflags ∧
    final.reg .rsp = s.reg .rsp ∧ ∀ r ∉ asmOutputs ++ asmClobbers, final.reg r = s.reg r

/-- The function returns with the registers of its first three arguments as they were. -/
def KeepsArguments (V : Tables) (image : SyscallImage) (msr : SyscallMsr) (f : Cpu → Cpu) (user : Cpu) : Prop :=
  ∀ called, syscallEntry V image (syscallInstruction msr user) = some called →
    ∀ r ∈ [Reg.rdi, .rsi, .rdx], (f called).reg r = called.reg r

/-- After the pushes the processor reads them back, the flags as far as `sysretq` loads them,
and the code behind the call is still there. -/
structure ReturnSafe (V : Tables) (image : SyscallImage) (user : Cpu) (m : Memory) : Prop where
  exit : (V m).holds m (image.syscallEntryAsm + 16) (image.bytes exitInstrs) = true
  back : (V m).load m 8 (user.reg .rsp - 24) = some (image.syscallEntryAsm + 16).toNat
  flags : ∃ w : Word, (V m).load m 8 (user.reg .rsp - 16) = some w.toNat ∧ w &&& 0x3C7FD7 ||| 2 = user.rflags
  next : (V m).load m 8 (user.reg .rsp - 8) = some (user.rip + 2).toNat

/-- The pushes are safe for the call and for the return. -/
def RoundSafe (V : Tables) (image : SyscallImage) (c : SyscallHandler) (user : Cpu) : Prop :=
  ∃ m₁ m₂ m₃, EntrySafe V image user m₁ m₂ m₃ ∧ HandlerLoaded (V m₃) image c m₃ ∧ ReturnSafe V image user m₃

section call
variable {V : Tables} {image : SyscallImage} {msr : SyscallMsr} {s t user called final : Cpu} {m₁ m₂ m₃ : Memory} {w rip : Word}

theorem load_store_word {W : View} {m m' : Memory} {v : Word} (stored : W.store m 8 v w.toNat = some m') :
    W.load m' 8 v = some w.toNat := by
  rw [View.load_store_self stored (by omega)]
  exact congrArg some (Nat.mod_eq_of_lt w.isLt)

/-- A push leaves the words above it on the stack alone. -/
theorem load_push {W : View} {m m' : Memory} {sp a : Word} {n : Nat} (stored : W.store m 8 a w.toNat = some m')
    (above : sp = a + BitVec.ofNat 64 n) (low : 8 ≤ n) (high : n ≤ 4088) : W.load m' 8 sp = W.load m 8 sp := by
  refine View.load_store_apart stored fun i inside j below p place => View.apart_of_near ?_ place
  rw [above, BitVec.toNat_add, BitVec.toNat_ofNat]
  omega

/-- Pushes that change no translation are read back. -/
theorem EntrySafe.readBack (safe : EntrySafe V image user m₁ m₂ m₃) (views : ∀ m ∈ [m₁, m₂, m₃], V m = V user.mem) :
    (V m₃).load m₃ 8 (user.reg .rsp - 24) = some (image.syscallEntryAsm + 16).toNat ∧
      (V m₃).load m₃ 8 (user.reg .rsp - 16) = some user.rflags.toNat ∧
      (V m₃).load m₃ 8 (user.reg .rsp - 8) = some (user.rip + 2).toNat := by
  have first : V m₁ = V user.mem := views m₁ (by simp)
  have second : V m₂ = V user.mem := views m₂ (by simp)
  have third : V m₃ = V user.mem := views m₃ (by simp)
  have pushFlags := safe.pushFlags
  have pushReturn := safe.pushReturn
  rw [first] at pushFlags
  rw [second] at pushReturn
  refine ⟨third ▸ load_store_word pushReturn, ?_, ?_⟩
  · rw [third, load_push (n := 8) pushReturn (by bv_omega) (by omega) (by omega)]
    exact load_store_word pushFlags
  · rw [third, load_push (n := 16) pushReturn (by bv_omega) (by omega) (by omega),
      load_push (n := 8) pushFlags (by bv_omega) (by omega) (by omega)]
    exact load_store_word safe.pushRip

theorem EntrySafe.returnSafe (safe : EntrySafe V image user m₁ m₂ m₃) (views : ∀ m ∈ [m₁, m₂, m₃], V m = V user.mem)
    (exit : (V m₃).holds m₃ (image.syscallEntryAsm + 16) (image.bytes exitInstrs) = true)
    (rflags : user.rflags &&& 0x3C7FD7 ||| 2 = user.rflags) : ReturnSafe V image user m₃ := by
  obtain ⟨back, flags, next⟩ := safe.readBack views
  exact ⟨exit, back, ⟨user.rflags, flags, rflags⟩, next⟩

/-- The three instructions behind the call lie one behind the other. -/
theorem holds_exitInstrs {W : View} {m : Memory} (v : Word) : W.holds m v (image.bytes exitInstrs) = true ↔
    W.holds m v (SyscallInstr.popR11.bytes image) = true ∧ W.holds m (v + 2) (SyscallInstr.popRcx.bytes image) = true ∧
      W.holds m (v + 3) (SyscallInstr.sysretq.bytes image) = true := by
  have shift : v + BitVec.ofNat 64 2 + BitVec.ofNat 64 1 = v + 3 := by bv_omega
  rw [exitInstrs, SyscallImage.bytes_cons, SyscallImage.bytes_cons, SyscallImage.bytes_cons, SyscallImage.bytes_nil,
    List.append_nil, View.holds_append, View.holds_append, Bool.and_eq_true, Bool.and_eq_true,
    show (SyscallInstr.popR11.bytes image).length = 2 from rfl, show (SyscallInstr.popRcx.bytes image).length = 1 from rfl, shift]
  rfl

/-- The way out pops the flags and the address to return to. -/
structure SyscallLeft (V : Tables) (image : SyscallImage) (t final : Cpu) (w v : Word) : Prop where
  untrapped : t.trapFlag = false
  code : (V t.mem).holds t.mem t.rip (image.bytes exitInstrs) = true
  flags : (V t.mem).load t.mem 8 (t.reg .rsp) = some w.toNat
  next : (V t.mem).load t.mem 8 (t.reg .rsp + 8) = some v.toNat
  canonical : Canonical v.toNat
  rip : final.rip = v
  rflags : final.rflags = w &&& 0x3C7FD7 ||| 2
  rcx : final.reg .rcx = v
  r11 : final.reg .r11 = w
  rsp : final.reg .rsp = t.reg .rsp + 16
  kept : ∀ r, r ≠ .rcx → r ≠ .r11 → r ≠ .rsp → final.reg r = t.reg r
  mem : final.mem = t.mem

theorem syscallExitPath_eq_some :
    syscallExitPath V image t = some final ↔ ∃ w rip, SyscallLeft V image t final w rip := by
  have at₂ : t.rip + BitVec.ofNat 64 (SyscallInstr.popR11.bytes image).length = t.rip + 2 := rfl
  have at₃ : t.rip + 2 + BitVec.ofNat 64 (SyscallInstr.popRcx.bytes image).length = t.rip + 3 := by
    rw [show (SyscallInstr.popRcx.bytes image).length = 1 from rfl]
    bv_omega
  have top : t.reg .rsp + 8 + 8 = t.reg .rsp + 16 := by bv_omega
  simp only [syscallExitPath, sysretq, Option.bind_eq_bind, Option.bind_eq_some_iff, Option.ite_none_right_eq_some,
    Option.some.injEq, Cpu.fetch_eq_some, Cpu.pop_eq_some]
  constructor
  · rintro ⟨_, ⟨⟨untrapped, code₁⟩, rfl⟩, _, ⟨w, flags, rfl⟩, _, ⟨⟨-, code₂⟩, rfl⟩, _, ⟨rip, next, rfl⟩,
      _, ⟨⟨-, code₃⟩, rfl⟩, canonical, rfl⟩
    simp only [Cpu.set_reg, Cpu.set_mem, Cpu.set_rip, reduceIte, reduceCtorEq, at₂, at₃] at flags code₂ next code₃ canonical
    refine ⟨BitVec.ofNat 64 w, BitVec.ofNat 64 rip, untrapped, (holds_exitInstrs _).mpr ⟨code₁, code₂, code₃⟩, ?_, ?_,
      canonical, ?_, ?_, ?_, ?_, ?_, ?_, rfl⟩
    · rw [toNat_ofNat_of_load flags]
      exact flags
    · rw [toNat_ofNat_of_load next]
      exact next
    · simp
    · simp
    · simp
    · simp
    · simp only [Cpu.set_reg, reduceIte, reduceCtorEq, top]
    · intro r rcx r11 rsp
      simp [rcx, r11, rsp]
  · rintro ⟨w, rip, left⟩
    obtain ⟨code₁, code₂, code₃⟩ := (holds_exitInstrs _).mp left.code
    refine ⟨_, ⟨⟨left.untrapped, code₁⟩, rfl⟩, _, ⟨w.toNat, left.flags, rfl⟩, _, ⟨⟨left.untrapped, ?_⟩, rfl⟩,
      _, ⟨rip.toNat, ?_, rfl⟩, _, ⟨⟨left.untrapped, ?_⟩, rfl⟩, ?_, ?_⟩
    · simpa only [Cpu.set_mem, Cpu.set_rip, at₂] using code₂
    · simpa only [Cpu.set_reg, Cpu.set_mem, reduceIte, reduceCtorEq] using left.next
    · simpa only [Cpu.set_mem, Cpu.set_rip, at₂, at₃] using code₃
    · simpa using left.canonical
    · ext1
      · funext r
        simp only [Cpu.set_reg, reduceIte, reduceCtorEq, top]
        cases r <;> simp [left.rcx, left.r11, left.rsp, left.kept]
      · simp [left.rip]
      · simp [left.rflags]
      · simp [left.mem]

/-- The way out over a stack with the flags and the address to return to. -/
theorem syscallExitPath_returns (untrapped : t.trapFlag = false)
    (code : (V t.mem).holds t.mem t.rip (image.bytes exitInstrs) = true)
    (flags : (V t.mem).load t.mem 8 (t.reg .rsp) = some w.toNat)
    (next : (V t.mem).load t.mem 8 (t.reg .rsp + 8) = some rip.toNat) (canonical : Canonical rip.toNat) :
    ∃ final, syscallExitPath V image t = some final ∧ SyscallLeft V image t final w rip := by
  let regs := ((t.set .r11 w).set .rcx rip).set .rsp (t.reg .rsp + 16)
  have left : SyscallLeft V image t { regs with rip := rip, rflags := w &&& 0x3C7FD7 ||| 2 } w rip := by
    refine ⟨untrapped, code, flags, next, canonical, rfl, rfl, ?_, ?_, ?_, ?_, rfl⟩
    · simp [regs]
    · simp [regs]
    · simp only [regs, Cpu.set_reg, reduceIte]
    · intro r
      simp +contextual [regs]
  exact ⟨_, syscallExitPath_eq_some.mpr ⟨w, rip, left⟩, left⟩

theorem syscallRound_eq_some {code : Word → Cpu → Cpu} {fifth sixth : Reg} :
    syscallRound V image msr code fifth sixth s = some (called, final) ↔
      syscallEntry V image (syscallInstruction msr (asmMoves fifth sixth s)) = some called ∧
        syscallExitPath V image (code called.rip called) = some final := by
  simp only [syscallRound, Option.pure_def, Option.bind_eq_bind, Option.bind_eq_some_iff, Option.some_inj, Prod.mk.injEq]
  constructor
  · rintro ⟨_, entry, _, exit, rfl, rfl⟩
    exact ⟨entry, exit⟩
  · rintro ⟨entry, exit⟩
    exact ⟨called, entry, final, exit, rfl, rfl⟩

/-- The moves of the statement write its clobbers only. -/
theorem asmMoves_reg {fifth sixth r : Reg} (kept : r ∉ asmClobbers) : (asmMoves fifth sixth s).reg r = s.reg r := by
  simp only [asmClobbers, List.mem_cons, List.not_mem_nil, or_false, not_or] at kept
  simp [asmMoves, Cpu.mov, kept]

end call

section agreement
variable {V : Tables} {image : SyscallImage} {msr : SyscallMsr} {code : Word → Cpu → Cpu} {s user called final : Cpu}
  {c : SyscallHandler} {arg0 arg1 arg2 arg3 arg4 arg5 : Word} {fifth sixth : Reg} {m₁ m₂ m₃ : Memory}

/-- Before `syscall` the arguments lie where the kernel expects them. -/
theorem AsmOperands.arguments {number : Word} (operands : AsmOperands s number arg0 arg1 arg2 arg3 arg4 arg5 fifth sixth) :
    syscallArguments.map (asmMoves fifth sixth s).reg = [arg0, arg1, arg2, arg3, arg4, arg5] := by
  have fifthFree := operands.fifthFree
  have sixthFree := operands.sixthFree
  simp only [asmClobbers, List.mem_cons, List.not_mem_nil, or_false, not_or] at fifthFree sixthFree
  simp [syscallArguments, asmMoves, Cpu.mov, fifthFree, sixthFree, operands.rdi, operands.rsi, operands.rdx, operands.rcx,
    operands.fifthValue, operands.sixthValue]

theorem AsmOperands.registered {number : Word} (operands : AsmOperands s number arg0 arg1 arg2 arg3 arg4 arg5 fifth sixth)
    (small : number = BitVec.ofNat 64 c.number) :
    ((asmMoves fifth sixth s).reg .rax).toNat % 2 ^ 61 = c.number := by
  have bound := c.number_lt
  rw [asmMoves_reg (by decide), operands.rax, small, BitVec.toNat_ofNat]
  omega

/-- A register that is neither an output nor a clobber of the statement reaches the handler as it was. -/
theorem SyscallEntered.kept_user
    (entered : SyscallEntered V image (syscallInstruction msr (asmMoves fifth sixth s)) called m₁ m₂) {r : Reg}
    (listed : r ∉ asmOutputs ++ asmClobbers) (rsp : r ≠ .rsp) : called.reg r = s.reg r := by
  have moves : (asmMoves fifth sixth s).reg r = s.reg r :=
    asmMoves_reg fun member => listed (List.mem_append_right _ member)
  simp only [asmOutputs, asmClobbers, List.cons_append, List.nil_append, List.mem_cons, List.not_mem_nil, or_false,
    not_or] at listed
  rw [entered.kept r listed.1 listed.2.1 rsp]
  simp [syscallInstruction, listed, moves]

/-- What a handler by the calling convention leaves of the registers that the statement does
not list: all but those of the first three arguments. -/
theorem Conforms.kept {t : Cpu} (conforms : Conforms V image s t) {r : Reg} (listed : r ∉ asmOutputs ++ asmClobbers)
    (rsp : r ≠ .rsp) (argument : r ∉ [Reg.rdi, .rsi, .rdx]) : t.reg r = s.reg r := by
  refine conforms.calleeSaved r ?_
  cases r <;> first | decide | exact absurd (by decide) listed | exact absurd rfl rsp | exact absurd (by decide) argument

/-- The stack behind a conforming function: the pushes of the entry path, seen from the caller. -/
theorem SyscallEntered.returned {t : Cpu} (entered : SyscallEntered V image (syscallInstruction msr user) called m₁ m₂)
    (conforms : Conforms V image called t) : t.reg .rsp = user.reg .rsp - 16 ∧ t.reg .rsp + 8 = user.reg .rsp - 8 ∧
      (V t.mem).load t.mem 8 (t.reg .rsp) = (V called.mem).load called.mem 8 (user.reg .rsp - 16) ∧
      (V t.mem).load t.mem 8 (t.reg .rsp + 8) = (V called.mem).load called.mem 8 (user.reg .rsp - 8) := by
  have pushed : called.reg .rsp = user.reg .rsp - 24 := entered.rsp
  have first : called.reg .rsp + 8 = user.reg .rsp - 16 := by
    rw [pushed]
    bv_omega
  have second : called.reg .rsp + 16 = user.reg .rsp - 8 := by
    rw [pushed]
    bv_omega
  have stack : t.reg .rsp = user.reg .rsp - 16 := conforms.rsp.trans first
  have above : t.reg .rsp + 8 = user.reg .rsp - 8 := by
    rw [stack]
    bv_omega
  refine ⟨stack, above, ?_, ?_⟩
  · rw [stack, ← first]
    exact conforms.flags
  · rw [above, ← second]
    exact conforms.next

/-- A call that has come back to the user has found its pushes and the code behind the call in place. -/
theorem SyscallEntered.returnSafe {t : Cpu} {w rip : Word}
    (entered : SyscallEntered V image (syscallInstruction msr user) called m₁ m₂) (conforms : Conforms V image called t)
    (back : (V called.mem).load called.mem 8 (called.reg .rsp) = some (image.syscallEntryAsm + 16).toNat)
    (left : SyscallLeft V image t final w rip) (place : final.rip = user.rip + 2) (flags : final.rflags = user.rflags) :
    ReturnSafe V image user called.mem := by
  obtain ⟨-, -, popped, next⟩ := entered.returned conforms
  have pushed : called.reg .rsp = user.reg .rsp - 24 := entered.rsp
  refine ⟨?_, pushed ▸ back, ⟨w, popped.symm.trans left.flags, left.rflags.symm.trans flags⟩, ?_⟩
  · rw [← conforms.exit, ← conforms.rip _ back]
    exact left.code
  · rw [← next, left.next, ← left.rip, place]

/-- Over pushes that are read back a conforming function returns to the user. -/
theorem SyscallEntered.returns {t : Cpu} {w : Word} (entered : SyscallEntered V image (syscallInstruction msr user) called m₁ m₂)
    (conforms : Conforms V image called t)
    (exit : (V called.mem).holds called.mem (image.syscallEntryAsm + 16) (image.bytes exitInstrs) = true)
    (back : (V called.mem).load called.mem 8 (user.reg .rsp - 24) = some (image.syscallEntryAsm + 16).toNat)
    (flags : (V called.mem).load called.mem 8 (user.reg .rsp - 16) = some w.toNat)
    (next : (V called.mem).load called.mem 8 (user.reg .rsp - 8) = some (user.rip + 2).toNat)
    (canonical : Canonical (user.rip + 2).toNat) : ∃ final, syscallExitPath V image t = some final ∧ final.rip = user.rip + 2 ∧
      final.rflags = w &&& 0x3C7FD7 ||| 2 ∧ final.reg .rsp = user.reg .rsp ∧ final.mem = t.mem ∧
      ∀ r, r ≠ .rcx → r ≠ .r11 → r ≠ .rsp → final.reg r = t.reg r := by
  obtain ⟨stack, -, poppedFlags, poppedNext⟩ := entered.returned conforms
  have pushed : called.reg .rsp = user.reg .rsp - 24 := entered.rsp
  have place : t.rip = image.syscallEntryAsm + 16 := conforms.rip _ (pushed ▸ back)
  have untrapped : called.trapFlag = false := by
    rw [Cpu.trapFlag, entered.rflags]
    exact entered.untrapped
  obtain ⟨final, ran, left⟩ := syscallExitPath_returns (conforms.untrapped untrapped)
    (by rw [place, conforms.exit]; exact exit) (poppedFlags.trans flags) (poppedNext.trans next) canonical
  refine ⟨final, ran, left.rip, left.rflags, ?_, left.mem, left.kept⟩
  rw [left.rsp, stack]
  bv_omega

/-- The two sides of the interface agree exactly on handlers that leave their first three
argument registers alone, over a stack whose pushes go through, leave the kernel's code and
tables as they are and are read back, and without the trap flag. The handler conforms to the
calling convention, and table and code lie where the boot has left them. -/
theorem abiAgrees_iff (table : TableLoaded (V s.mem) image s.mem) (loaded : EntryLoaded (V s.mem) image s.mem)
    (convention : CallingConvention V image c (code (image.address c))) (user : UserState s)
    (operands : AsmOperands s (BitVec.ofNat 64 c.number) arg0 arg1 arg2 arg3 arg4 arg5 fifth sixth) :
    AbiAgrees V image (setupSyscall image msr) code fifth sixth c [arg0, arg1, arg2, arg3, arg4, arg5] s ↔
      s.trapFlag = false ∧ RoundSafe V image c (asmMoves fifth sixth s) ∧
        KeepsArguments V image (setupSyscall image msr) (code (image.address c)) (asmMoves fifth sixth s) := by
  have number := operands.registered rfl
  constructor
  · rintro ⟨called, final, ran, target, handler, back, -, -, place, flags, -, kept⟩
    obtain ⟨entry, exit⟩ := syscallRound_eq_some.mp ran
    obtain ⟨m₁, m₂, entered⟩ := syscallEntry_eq_some.mp entry
    obtain ⟨w, rip, left⟩ := syscallExitPath_eq_some.mp exit
    rw [target] at left
    have conforms := convention called handler
    refine ⟨syscallInstruction_trapFlag.symm.trans entered.untrapped, ⟨m₁, m₂, called.mem, entered.safe table number target,
      handler, entered.returnSafe conforms back left place flags⟩, fun other same r member => ?_⟩
    cases entry.symm.trans same
    have free : r ∉ asmOutputs ++ asmClobbers ∧ r ≠ .rcx ∧ r ≠ .r11 ∧ r ≠ .rsp := by
      fin_cases member <;> decide
    rw [← left.kept r free.2.1 free.2.2.1 free.2.2.2, kept r free.1, entered.kept_user free.1 free.2.2.2]
  · rintro ⟨untrapped, ⟨m₁, m₂, m₃, safe, handler, returnSafe⟩, keeps⟩
    obtain ⟨called, entered, target, rfl⟩ := safe.entered loaded untrapped (TableLoaded.entry table number) msr
    have entry := syscallEntry_eq_some.mpr ⟨m₁, m₂, entered⟩
    have conforms := convention called handler
    obtain ⟨w, flagsBack, loads⟩ := returnSafe.flags
    obtain ⟨final, exit, place, flags, stack, -, kept⟩ :=
      entered.returns conforms returnSafe.exit returnSafe.back flagsBack returnSafe.next user.next
    have pushed : called.reg .rsp = (asmMoves fifth sixth s).reg .rsp - 24 := entered.rsp
    have restored : final.reg .rsp = s.reg .rsp := stack.trans (asmMoves_reg (by decide))
    refine ⟨called, final, syscallRound_eq_some.mpr ⟨entry, by rw [target]; exact exit⟩, target, handler,
      pushed ▸ returnSafe.back, entered.arguments.trans operands.arguments, kept .rax nofun nofun nofun, place, flags.trans loads,
      restored, fun r listed => ?_⟩
    by_cases rsp : r = .rsp
    · rw [rsp, restored]
    · have rcx : r ≠ .rcx := fun same => listed (same ▸ by decide)
      have r11 : r ≠ .r11 := fun same => listed (same ▸ by decide)
      rw [kept r rcx r11 rsp, ← entered.kept_user listed rsp]
      by_cases argument : r ∈ [Reg.rdi, .rsi, .rdx]
      · exact keeps called entry r argument
      · exact conforms.kept listed rsp argument

/-- A function that only returns. -/
def returnOnly (V : Tables) (s : Cpu) : Cpu :=
  { s.set .rsp (s.reg .rsp + 8) with rip := BitVec.ofNat 64 (((V s.mem).load s.mem 8 (s.reg .rsp)).getD 0) }

/-- A function that uses the register of its first argument. -/
def clearRdi (V : Tables) (s : Cpu) : Cpu := (returnOnly V s).set .rdi 0

theorem returnOnly_conforms (V : Tables) (image : SyscallImage) (s : Cpu) : Conforms V image s (returnOnly V s) where
  calleeSaved r member := by
    have other : r ≠ .rsp := by fin_cases member <;> decide
    simp [returnOnly, other]
  rsp := by simp [returnOnly]
  rip w found := by simp [returnOnly, found]
  flags := rfl
  next := rfl
  untrapped clear := clear
  exit := rfl

theorem clearRdi_convention (V : Tables) (image : SyscallImage) (c : SyscallHandler) :
    CallingConvention V image c (clearRdi V) := fun s _ =>
  { returnOnly_conforms V image s with
    calleeSaved := fun r member => by
      have other : r ≠ .rsp ∧ r ≠ .rdi := by fin_cases member <;> decide
      simp [clearRdi, returnOnly, other]
    rsp := by simp [clearRdi, returnOnly] }

theorem smallUser_operands (number : Word) : AsmOperands (smallUser number) number 1 1 1 1 1 1 .rbx .rbp := by
  constructor <;> first | decide | simp [smallUser]

theorem smallUser_state (number : Word) : UserState (smallUser number) where
  next := show Canonical (0x400000 + 2 : Word).toNat by decide
  rflags := show (0x202 : Word) &&& 0x3C7FD7 ||| 2 = 0x202 by decide

theorem abiAgrees_iff_yield : AbiAgrees (fun _ => smallView) smallSyscalls (setupSyscall smallSyscalls ⟨0, 0⟩)
    (fun _ => returnOnly fun _ => smallView) .rbx .rbp .syscallYield [1, 1, 1, 1, 1, 1] (smallUser 0x99) := by
  have table : TableLoaded smallView smallSyscalls (smallUser 0x99).mem := smallTable_loaded
  have agree := @abiAgrees_iff (fun _ => smallView) smallSyscalls ⟨0, 0⟩ (fun _ => returnOnly fun _ => smallView) (smallUser 0x99)
    .syscallYield 1 1 1 1 1 1 .rbx .rbp table smallEntry_loaded (fun s _ => returnOnly_conforms _ _ s) (smallUser_state _)
    (smallUser_operands _)
  refine agree.mpr ⟨by decide, ?_, ?_⟩
  · obtain ⟨m₁, m₂, m₃, safe, same⟩ := small_safe (asmMoves .rbx .rbp (smallUser 0x99)) rfl
      (by rw [asmMoves_reg (by decide)]; simp [smallUser]) (by rw [asmMoves_reg (by decide)]; simp [smallUser])
    have exit : smallView.holds m₃ (smallSyscalls.syscallEntryAsm + 16) (smallSyscalls.bytes exitInstrs) = true := by
      refine (View.holds_congr fun i inside p place => same p ?_).trans (entryLoaded_iff.mp smallEntry_loaded).2.2.2
      have short : i < 6 := inside
      have here : ((0xFFFFFFFF80201010 : Word) + BitVec.ofNat 64 i).toNat = kernelBase + (0x201010 + i) := by
        rw [BitVec.toNat_add, BitVec.toNat_ofNat, show (0xFFFFFFFF80201010 : Word).toNat = kernelBase + 0x201010 from rfl]
        simp only [kernelBase]
        omega
      have same := Option.some.inj ((smallView_kernel here (by simp only [kernelMapped, addrshift2M]; omega)).symm.trans place)
      omega
    refine ⟨m₁, m₂, m₃, safe, smallHandler_loaded _ same, safe.returnSafe (fun _ _ => rfl) exit ?_⟩
    exact show (0x202 : Word) &&& 0x3C7FD7 ||| 2 = 0x202 by decide
  · intro called _ r member
    have other : r ≠ .rsp := by fin_cases member <;> decide
    simp [returnOnly, other]

/-- A conforming handler that uses `rdi` for itself: the statement does not list `rdi` as
changed, and the user finds 0 in it. -/
theorem not_abiAgrees_clearRdi : CallingConvention (fun _ => smallView) smallSyscalls .syscallYield (clearRdi fun _ => smallView) ∧
    TableLoaded smallView smallSyscalls (smallUser 0x99).mem ∧ EntryLoaded smallView smallSyscalls (smallUser 0x99).mem ∧
    UserState (smallUser 0x99) ∧
    AsmOperands (smallUser 0x99) (BitVec.ofNat 64 SyscallHandler.syscallYield.number) 1 1 1 1 1 1 .rbx .rbp ∧
    ¬AbiAgrees (fun _ => smallView) smallSyscalls (setupSyscall smallSyscalls ⟨0, 0⟩) (fun _ => clearRdi fun _ => smallView)
      .rbx .rbp .syscallYield [1, 1, 1, 1, 1, 1] (smallUser 0x99) := by
  refine ⟨clearRdi_convention _ _ _, smallTable_loaded, smallEntry_loaded, smallUser_state _, smallUser_operands _, ?_⟩
  rintro ⟨called, final, ran, -, -, -, -, -, -, -, -, kept⟩
  obtain ⟨-, exit⟩ := syscallRound_eq_some.mp ran
  obtain ⟨w, rip, left⟩ := syscallExitPath_eq_some.mp exit
  have cleared : final.reg .rdi = 0 := by
    rw [left.kept .rdi nofun nofun nofun]
    simp [clearRdi]
  have user : final.reg .rdi = 1 := by
    rw [kept .rdi (by decide)]
    simp [smallUser]
  rw [cleared] at user
  cases user

end agreement

end MetalToApp

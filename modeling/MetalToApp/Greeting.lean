import MetalToApp.BootLog
import MetalToApp.SyscallWrite

namespace MetalToApp
open ByteMemory X86 Paging

/-! The program `testelf`. -/

/-- `buf` as it is initialised. -/
def initialBuf : List UInt8 := literal "hello my name is " ++ List.replicate 15 0

/-- One turn of the loop that fills it. The `j--` has no effect. -/
def fillBuf (cmdline : Message) (buf : List UInt8) (i : Nat) : Option (List UInt8) := do
  let j := i - 17
  let c ← cmdline j
  let buf := buf.set i c
  if c = 0 then return buf.set i 0x20
  return buf

/-- What `_start` has in `buf` when it comes to its second loop. -/
def testelfStart (cmdline : Message) : Option (List UInt8) := do
  let buf ← (List.range' 17 14).foldlM (fillBuf cmdline) initialBuf
  return buf.set 31 0

/-- The line that it prints from then on. -/
def greeting (name : List UInt8) : List UInt8 :=
  literal "hello my name is " ++ (List.range 14).map fun j => (name[j]?).getD 0x20

section program
variable {cmdline : Message} {name : List UInt8} {k n : Nat} {m : Memory} {a b : Nat}

theorem greeting_length (name : List UInt8) : (greeting name).length = 31 := by
  simp [greeting, literal]

theorem greeting_nonzero (nonzero : 0 ∉ name) : 0 ∉ greeting name := by
  intro member
  rcases List.mem_append.mp member with inLiteral | inName
  · exact absurd inLiteral (by decide)
  · obtain ⟨j, -, zero⟩ := List.mem_map.mp inName
    cases here : name[j]? with
    | none =>
      rw [here] at zero
      exact absurd zero (by decide)
    | some c =>
      rw [here] at zero
      exact nonzero (zero ▸ List.mem_of_getElem? here)

/-- After `k` turns `k` characters of the name stand in the buffer. -/
theorem fillBuf_loop (nonzero : 0 ∉ name) (line : ∀ j < 14, cmdline j = some ((name[j]?).getD 0)) (bound : k ≤ 14) :
    (List.range' 17 k).foldlM (fillBuf cmdline) initialBuf =
      some (literal "hello my name is " ++ (List.range k).map (fun j => (name[j]?).getD 0x20) ++ List.replicate (15 - k) 0) := by
  induction k with
  | zero => rfl
  | succ k ih =>
    let front := literal "hello my name is " ++ (List.range k).map fun j => (name[j]?).getD 0x20
    let rest : List UInt8 := List.replicate (14 - k) 0
    have length : front.length = 17 + k := by
      rw [List.length_append, List.length_map, List.length_range]
      rfl
    have before : List.replicate (15 - k) (0 : UInt8) = 0 :: rest := by
      rw [show 15 - k = 14 - k + 1 by omega, List.replicate_succ]
    have put (c d : UInt8) : (front ++ c :: rest).set (17 + k) d = front ++ d :: rest := by
      rw [List.set_append_right _ _ (by omega), length, Nat.sub_self, List.set_cons_zero]
    have turn : fillBuf cmdline (front ++ 0 :: rest) (17 + k) = some (front ++ (name[k]?).getD 0x20 :: rest) := by
      simp only [fillBuf, Nat.add_sub_cancel_left, line k (by omega), Option.bind_eq_bind, Option.bind_some, put]
      cases here : name[k]? with
      | none => rfl
      | some c =>
        have character : c ≠ 0 := fun zero => nonzero (zero ▸ List.mem_of_getElem? here)
        simp only [Option.getD_some, if_neg character]
        rfl
    rw [List.range'_concat, List.foldlM_append, ih (by omega), Nat.one_mul, before]
    simp only [Option.bind_eq_bind, Option.bind_some, List.foldlM_cons, List.foldlM_nil]
    rw [turn, List.range_succ, List.map_append, List.map_singleton, Option.bind_some, show 15 - (k + 1) = 14 - k by omega]
    simp only [front, rest, List.append_assoc, List.singleton_append]
    rfl

/-- Where the command line is followed by NULs, `_start` fills the buffer with its greeting. -/
theorem testelfStart_eq (nonzero : 0 ∉ name) (line : ∀ j < 14, cmdline j = some ((name[j]?).getD 0)) :
    testelfStart cmdline = some (greeting name ++ [0]) := by
  rw [testelfStart, fillBuf_loop nonzero line le_rfl]
  simp only [Option.bind_eq_bind, Option.bind_some, Option.pure_def, Option.some.injEq]
  rw [← greeting, show 15 - 14 = 1 from rfl, List.replicate_one, List.set_append_right _ _ (greeting_length name).le,
    greeting_length, Nat.sub_self, List.set_cons_zero]

theorem bytesAt_nonzero (string : StringAt m b n) : 0 ∉ bytesAt m b n := string.string.nonzero

/-- The command line on the stack, and the NULs behind it. -/
theorem startView_commandLine {j : Nat} (string : StringAt m b n) (short : n < 4096) (inside : j < 14) :
    startView m a b n (initrdStackAddr - paddedSize n + j) = some (((bytesAt m b n)[j]?).getD 0) := by
  have onStack : (initrdStackAddr - paddedSize n + j) / 4096 = stackPage / 4096 := by
    simp only [stackPage, initrdStackAddr, defaultFrameSize, paddedSize]
    omega
  rw [startView, if_pos onStack, Nat.add_sub_cancel_left]
  congr 1
  rcases Nat.lt_trichotomy j n with before | rfl | after
  · rw [if_pos (by omega), bytesAt, List.getElem?_map, List.getElem?_range before]
    rfl
  · rw [if_pos (by omega), string.2, List.getElem?_eq_none (by simp [bytesAt])]
    rfl
  · rw [if_neg (by omega), List.getElem?_eq_none (by simp [bytesAt]; omega)]
    rfl

end program

/-- The bytes that a process finds behind a pointer. -/
def Process.message (p : Process) (pointer : Word) : Message := fun i => p.view (pointer + BitVec.ofNat 64 i).toNat

/-- The frames of a process lie behind the kernel, video memory in front of it. -/
def Process.bytes (p : Process) : UserBytes := fun v => (p.view v.toNat).map .elsewhere

theorem Process.pointer_bytes (p : Process) (buffer : Word) : p.bytes.pointer buffer = fun _ => p.message buffer := by
  funext text i
  simp only [UserBytes.pointer, bytes, message, Option.map_map]
  exact congrFun Option.map_id _

/-- A machine in which all the modules are `testelf`: the modules that have filled their buffers,
and the writes so far, by the numbers of the modules. -/
structure Hello where
  machine : Machine
  console : Console
  ready : List Nat
  written : List Nat

/-- The steps of such a machine, when module `i` has its buffer at `buf i`. A module first fills
its buffer, and from then on leaves it alone and writes it out; the `yield` after each
`write` and all else that happens is a step of the system. -/
inductive HelloStep (T : TaskArea) (frames : List Nat) (buf : Nat → Word) (h : Hello) : Hello → Prop
  | system {event} (M : Machine) : SystemStep T h.machine event M →
      (∀ i d, frames[i]? = some d → event = .quiet → h.machine.sched.currentTaskTable 0 = linearStart + d →
        if i ∈ h.ready then ∀ k < 32, (processOf M (linearStart + d)).message (buf i) k =
          (processOf h.machine (linearStart + d)).message (buf i) k
        else processOf M (linearStart + d) = processOf h.machine (linearStart + d)) →
      HelloStep T frames buf h { h with machine := M }
  | fill {i d filled} (M : Machine) : frames[i]? = some d → h.machine.sched.currentTaskTable 0 = linearStart + d → i ∉ h.ready →
      testelfStart ((processOf h.machine (linearStart + d)).message (h.machine.reg .rdi)) = some filled →
      SystemStep T h.machine .quiet M →
      (∀ k < 32, (processOf M (linearStart + d)).message (buf i) k = filled[k]?) →
      HelloStep T frames buf h { h with machine := M, ready := i :: h.ready }
  | write {i d w} (c : Console) : frames[i]? = some d → h.machine.sched.currentTaskTable 0 = linearStart + d → i ∈ h.ready →
      (syscallWrite h.console (processOf h.machine (linearStart + d)).bytes 1 (buf i) 31).result = .ok (w, c) →
      HelloStep T frames buf h { h with console := c, written := h.written ++ [i] }

/-- The name of module `i`. -/
def moduleName (m : Memory) (a : Nat) (length : Nat → Nat) (i : Nat) : List UInt8 :=
  bytesAt m (bootModule m a i).string (length i)

/-- The modules are as they were launched or have their greetings in their buffers, and the
console got the lines in front and the greetings that were written. -/
structure Greeted (T : TaskArea) (space : Nat → Nat) (m₀ m : Memory) (a : Nat) (length : Nat → Nat) (frames : List Nat)
    (buf : Nat → Word) (text : Memory) (front : List (List UInt8)) (h : Hello) : Prop where
  sharing : Sharing T space m₀ h.machine
  reach : ∃ expected, SwitchReach T h.machine expected
  fresh : ∀ i d, frames[i]? = some d → i ∉ h.ready →
    processOf h.machine (linearStart + d) = startProcess m (bootModule m a i) (length i)
  filled : ∀ i d, frames[i]? = some d → i ∈ h.ready → ∀ k < 32, (processOf h.machine (linearStart + d)).message (buf i) k =
    (greeting (moduleName m a length i) ++ [0])[k]?
  printed : ∃ lines : List Line,
    (lines.map fun line => line.chars) = front ++ h.written.map (fun i => greeting (moduleName m a length i)) ∧
    Console.printLines ⟨text, 80⟩ lines = .ok h.console

section system
variable {T : TaskArea} {space : Nat → Nat} {m₀ m : Memory} {a : Nat} {length : Nat → Nat} {frames : List Nat} {buf : Nat → Word}
  {text : Memory} {front : List (List UInt8)} {c : Console} {h h' : Hello} {i d k : Nat} {message : Message} {string : CString}

/-- A module that gets the processor for the first time finds its name. -/
theorem Greeted.fills (greeted : Greeted T space m₀ m a length frames buf text front h) (found : frames[i]? = some d)
    (string : StringAt m (bootModule m a i).string (length i)) (short : length i < 4096)
    (current : h.machine.sched.currentTaskTable 0 = linearStart + d) (fresh : i ∉ h.ready) :
    testelfStart ((processOf h.machine (linearStart + d)).message (h.machine.reg .rdi)) =
      some (greeting (moduleName m a length i) ++ [0]) := by
  have start := greeted.fresh i d found fresh
  have context : h.machine.context = Context.process (programEntry m (bootModule m a i).modStart)
      (initrdStackAddr - paddedSize (length i)) := by
    have own := congrArg Process.context start
    rwa [processOf, if_pos current.symm] at own
  have rdi : h.machine.reg .rdi = BitVec.ofNat 64 (initrdStackAddr - paddedSize (length i)) :=
    congrFun (congrArg Context.reg context) .rdi
  refine testelfStart_eq (bytesAt_nonzero string) fun j inside => ?_
  have place : (h.machine.reg .rdi + BitVec.ofNat 64 j).toNat = initrdStackAddr - paddedSize (length i) + j := by
    rw [rdi, BitVec.toNat_add, BitVec.toNat_ofNat, BitVec.toNat_ofNat, initrdStackAddr]
    omega
  rw [Process.message, place, start]
  exact startView_commandLine string short inside

/-- Every `write` prints the greeting of its module. -/
theorem Greeted.writes (greeted : Greeted T space m₀ m a length frames buf text front h) (found : frames[i]? = some d)
    (string : StringAt m (bootModule m a i).string (length i)) (ready : i ∈ h.ready) :
    ∃ c, (syscallWrite h.console (processOf h.machine (linearStart + d)).bytes 1 (buf i) 31).result = .ok (0, c) ∧
      ∃ line : Line, line.chars = greeting (moduleName m a length i) ∧ h.console.printLines [line] = .ok c := by
  let name := moduleName m a length i
  obtain ⟨lines, -, printed⟩ := greeted.printed
  obtain ⟨_, printed', cursor, -⟩ := Console.printLines_shows text lines
  cases printed.symm.trans printed'
  have onScreen : h.console.currentOffset ≤ 80 * 25 := by
    rw [cursor, lineRow]
    omega
  let line : Line := ⟨⟨greeting name, greeting_nonzero (bytesAt_nonzero string)⟩, by
    rw [greeting_length]
    decide⟩
  have number : line.chars.length = 31 := greeting_length name
  have here : line.At ((processOf h.machine (linearStart + d)).message (buf i)) := fun k inside =>
    greeted.filled i d found ready k (by omega)
  obtain ⟨c, next⟩ : ∃ c, (h.console.println line.message).result = .ok c :=
    ⟨_, Console.println_line line.toCString.terminated onScreen line.short.2⟩
  refine ⟨c, ?_, line, rfl, Console.printLines_singleton.trans next⟩
  rw [syscallWrite_result, Process.pointer_bytes, ← Console.println, Console.println_at here onScreen line.short.2, next,
    Outcome.ok_bind]

theorem Greeted.step (greeted : Greeted T space m₀ m a length frames buf text front h) (divided : Divided T space m₀)
    (tasks : ∀ d ∈ frames, linearStart + d ∈ T.tasks) (distinct : frames.Nodup)
    (strings : ∀ i d, frames[i]? = some d → StringAt m (bootModule m a i).string (length i) ∧ length i < 4096)
    (step : HelloStep T frames buf h h') : Greeted T space m₀ m a length frames buf text front h' := by
  obtain ⟨_, reached⟩ := greeted.reach
  cases step with
  | @system event M taken own =>
    have done := taken.done divided greeted.sharing reached
    -- A process that has not taken the step itself is as it was.
    have other {i d : Nat} (found : frames[i]? = some d)
        (notOwn : ¬(event = .quiet ∧ h.machine.sched.currentTaskTable 0 = linearStart + d)) :
        processOf M (linearStart + d) = processOf h.machine (linearStart + d) := by
      have member := tasks d (List.mem_of_getElem? found)
      by_cases quiet : event = .quiet
      · exact done.kept _ member quiet fun same => notOwn ⟨quiet, same.symm⟩
      · exact done.all _ member quiet
    refine ⟨done.sharing, done.reach reached, fun i d found fresh => ?_, fun i d found ready k inside => ?_,
      greeted.printed⟩
    · rw [← greeted.fresh i d found fresh]
      by_cases mine : event = .quiet ∧ h.machine.sched.currentTaskTable 0 = linearStart + d
      · have still := own i d found mine.1 mine.2
        rwa [if_neg fresh] at still
      · exact other found mine
    · rw [← greeted.filled i d found ready k inside]
      by_cases mine : event = .quiet ∧ h.machine.sched.currentTaskTable 0 = linearStart + d
      · have still := own i d found mine.1 mine.2
        rw [if_pos ready] at still
        exact still k inside
      · simp only [other found mine]
  | @fill i d filled M found current fresh fills taken result =>
    have done := taken.done divided greeted.sharing reached
    obtain ⟨string, short⟩ := strings i d found
    obtain rfl := Option.some.inj ((greeted.fills found string short current fresh).symm.trans fills)
    have other {j e : Nat} (found' : frames[j]? = some e) (different : j ≠ i) :
        processOf M (linearStart + e) = processOf h.machine (linearStart + e) := by
      refine done.kept _ (tasks e (List.mem_of_getElem? found')) rfl fun same => different ?_
      obtain rfl : e = d := by omega
      obtain ⟨inside, -⟩ := List.getElem?_eq_some_iff.mp found'
      exact (List.getElem?_inj inside distinct).mp (found'.trans found.symm)
    refine ⟨done.sharing, done.reach reached, fun j e found' fresh' => ?_, fun j e found' ready k inside => ?_,
      greeted.printed⟩
    · have different : j ≠ i := fun same => fresh' (same ▸ List.mem_cons_self)
      rw [other found' different]
      exact greeted.fresh j e found' fun member => fresh' (List.mem_cons_of_mem _ member)
    · by_cases same : j = i
      · subst same
        obtain rfl := Option.some.inj (found.symm.trans found')
        exact result k inside
      · simp only [other found' same]
        exact greeted.filled j e found' ((List.mem_cons.mp ready).resolve_left same) k inside
  | @write i d w c found current ready wrote =>
    obtain ⟨c', wrote', line, chars, next⟩ := greeted.writes found (strings i d found).1 ready
    obtain ⟨-, rfl⟩ := Prod.mk.inj (Except.ok.inj (wrote.symm.trans wrote'))
    obtain ⟨lines, texts, printed⟩ := greeted.printed
    refine ⟨greeted.sharing, greeted.reach, greeted.fresh, greeted.filled, lines ++ [line], ?_, ?_⟩
    · rw [List.map_append, texts, List.map_singleton, chars, List.map_append, List.append_assoc]
      rfl
    · rw [Console.printLines_append, printed, Outcome.ok_bind, next]

theorem Greeted.run (greeted : Greeted T space m₀ m a length frames buf text front h) (divided : Divided T space m₀)
    (tasks : ∀ d ∈ frames, linearStart + d ∈ T.tasks) (distinct : frames.Nodup)
    (strings : ∀ i d, frames[i]? = some d → StringAt m (bootModule m a i).string (length i) ∧ length i < 4096)
    (run : Relation.ReflTransGen (HelloStep T frames buf) h h') : Greeted T space m₀ m a length frames buf text front h' := by
  induction run with
  | refl => exact greeted
  | tail _ step ih => exact ih.step divided tasks distinct strings step

end system

section boot
variable {K : KernelImage} {L : KernelLayout} {s s' : Kernel} {a : Nat} {entries : List MmapInfo} {region : MmapInfo}
  {length image : Nat → Nat} {t t' : Scheduler} {text : Memory} {c : Console}

/-- From the boot on, whenever a module has the processor it finds its name or writes its greeting,
and the screen shows the lines of the boot and the greetings that were written, in whatever
order they came: in each row the last line that reached it. The frames of the boot stay clear
of the modules, and each of their texts fits into its row. -/
theorem cstart_greets (boot : BootInfo K s.mem a entries region length) (clear : ModulesClear K s.mem a region length)
    (blank : ∀ slot, (t.schedulingVector 0 slot).task = 0)
    (rows : ∀ i < modsCount s.mem a, FitsRow s.mem (bootModule s.mem a i) (length i) (image i))
    (run : (Booting.cstart .console K L.idleLoopTask ⟨text, 80⟩ t s (kernelBase + a)).result = .ok ((t', s'), c)) :
    ∃ frames : StructFrames, ∀ M₀, Idling K L t' s' M₀ → Launch (L.area frames) s.mem a length frames.1 M₀ ∧
      ∀ buf h, Relation.ReflTransGen (HelloStep (L.area frames) frames.1 buf) ⟨M₀, c, [], []⟩ h →
        (∀ i d, frames.1[i]? = some d → h.machine.sched.currentTaskTable 0 = linearStart + d →
          (i ∉ h.ready → testelfStart ((processOf h.machine (linearStart + d)).message (h.machine.reg .rdi)) =
            some (greeting (moduleName s.mem a length i) ++ [0])) ∧
          (i ∈ h.ready → ∃ c,
            (syscallWrite h.console (processOf h.machine (linearStart + d)).bytes 1 (buf i) 31).result = .ok (0, c))) ∧
        ShowsLines text (bootText s.mem a length image ++ h.written.map fun i => greeting (moduleName s.mem a length i))
          h.console.text := by
  obtain ⟨-, frames, launches⟩ := cstart_launches boot clear blank (Booting.cstart_agrees run)
  obtain ⟨_, _, run', lines, chars, printed⟩ := cstart_lines boot clear rows L.idleLoopTask text t
  obtain ⟨-, rfl⟩ := Prod.mk.inj (Except.ok.inj (run.symm.trans run'))
  refine ⟨frames, fun M₀ idling => ?_⟩
  obtain ⟨launch, reach, space, settled, sharing⟩ := launches M₀ idling
  refine ⟨launch, fun buf h steps => ?_⟩
  have start : Greeted (L.area frames) space s'.mem s.mem a length frames.1 buf text (bootText s.mem a length image)
      ⟨M₀, c, [], []⟩ :=
    ⟨sharing, ⟨_, reach⟩, fun i d found _ => launch.process i d found, fun i d _ none => absurd none List.not_mem_nil,
      lines, chars.trans (List.append_nil _).symm, printed⟩
  have strings (i d : Nat) (found : frames.1[i]? = some d) :
      StringAt s.mem (bootModule s.mem a i).string (length i) ∧ length i < 4096 := by
    obtain ⟨bound, -⟩ := List.getElem?_eq_some_iff.mp found
    have bootable := boot.bootable i (launch.count ▸ bound)
    exact ⟨bootable.string, bootable.short⟩
  have greeted := start.run settled.divided (fun d known => Or.inr ⟨d, known, rfl⟩) launch.distinct strings steps
  refine ⟨fun i d found current => ⟨greeted.fills found (strings i d found).1 (strings i d found).2 current, fun ready => ?_⟩, ?_⟩
  · obtain ⟨c, wrote, -⟩ := greeted.writes found (strings i d found).1 ready
    exact ⟨c, wrote⟩
  · obtain ⟨lines', texts, printed'⟩ := greeted.printed
    obtain ⟨_, again, -, shows⟩ := Console.printLines_shows text lines'
    cases printed'.symm.trans again
    exact texts ▸ shows

/-- The buffers lie in the stack pages. -/
def pairBuf (_ : Nat) : Word := BitVec.ofNat 64 (stackPage + 0x800)

theorem Process.message_pairBuf (p : Process) (i : Nat) {k : Nat} (inside : k < 32) :
    p.message (pairBuf i) k = p.view (stackPage + 0x800 + k) := by
  have place : (pairBuf i + BitVec.ofNat 64 k).toNat = stackPage + 0x800 + k := by
    rw [pairBuf, BitVec.toNat_add, BitVec.toNat_ofNat, BitVec.toNat_ofNat, stackPage, initrdStackAddr, defaultFrameSize]
    omega
  rw [Process.message, place]

/-- A process that has come to the end of its first loop, and sees its stack page, has its greeting there. -/
theorem Sharing.fills {T : TaskArea} {space : Nat → Nat} {m₀ : Memory} {M : Machine} {expected : Nat → Context} {frames : List Nat}
    {i d : Nat} {bytes : List UInt8} {ready written : List Nat} (divided : Divided T space m₀) (sharing : Sharing T space m₀ M)
    (reach : SwitchReach T M expected) (found : frames[i]? = some d) (current : M.sched.currentTaskTable 0 = linearStart + d)
    (fresh : i ∉ ready) (fills : testelfStart ((processOf M (linearStart + d)).message (M.reg .rdi)) = some bytes)
    (length : bytes.length = 32) (mapped : ((processOf M (linearStart + d)).view (stackPage + 0x800)).isSome) :
    ∃ M', SystemStep T M .quiet M' ∧ M'.sched.currentTaskTable 0 = linearStart + d ∧
      HelloStep T frames pairBuf ⟨M, c, ready, written⟩ ⟨M', c, i :: ready, written⟩ := by
  obtain ⟨p, step, stored⟩ := sharing.store divided reach bytes (current ▸ mapped) (by rw [length]; decide)
  refine ⟨_, step, current, .fill _ found current fresh fills step fun k inside => ?_⟩
  rw [Process.message_pairBuf _ _ inside, ← current]
  exact stored k (length ▸ inside)

theorem pairInfo_bootText_length : (bootText pairInfo 0x1b00000 pairLength (fun _ => 7)).length = 3 := by
  rw [bootText, List.length_cons, List.length_map, List.length_range, pairInfo_count]

set_option maxRecDepth 2000 in
theorem pairInfo_alice : greeting (moduleName pairInfo 0x1b00000 pairLength 0) = literal "hello my name is alice         " := by
  decide

set_option maxRecDepth 2000 in
theorem pairInfo_bob : greeting (moduleName pairInfo 0x1b00000 pairLength 1) = literal "hello my name is bob           " := by
  decide

/-- A switch to the first module, which fills its buffer and writes it out, and a switch to the
second one. -/
theorem cstart_greets_pair : ∃ t s c,
    (Booting.cstart .console smallImage smallLayout.idleLoopTask ⟨fun _ => 0, 80⟩ (noTasks pairInfo) ⟨pairInfo, 0, 0, 0⟩
      (kernelBase + 0x1b00000)).result = .ok ((t, s), c) ∧
    ∃ (frames : StructFrames) (M₀ : Machine) (b : Nat) (h : Hello),
    Idling smallImage smallLayout t s M₀ ∧ frames.1[1]? = some b ∧
    Relation.ReflTransGen (HelloStep (smallLayout.area frames) frames.1 pairBuf) ⟨M₀, c, [], []⟩ h ∧ h.written = [0] ∧
    screenChars h.console.text (80 * 4) 31 = literal "hello my name is alice         " ∧
    h.machine.sched.currentTaskTable 0 = linearStart + b ∧
    testelfStart ((processOf h.machine (linearStart + b)).message (h.machine.reg .rdi)) =
      some (literal "hello my name is bob           " ++ [0]) := by
  obtain ⟨⟨t, s⟩, c, run, -⟩ := cstart_lines (s := ⟨pairInfo, 0, 0, 0⟩) pairInfo_boot pairInfo_clear pairInfo_rows
    smallLayout.idleLoopTask (fun _ => 0) (noTasks pairInfo)
  obtain ⟨M₀, idling⟩ := Idling.exists smallImage smallLayout t s
  obtain ⟨round, frames', launches⟩ := cstart_launches (s := ⟨pairInfo, 0, 0, 0⟩) pairInfo_boot pairInfo_clear (fun _ => rfl)
    (Booting.cstart_agrees run)
  obtain ⟨frames, greets⟩ := cstart_greets (s := ⟨pairInfo, 0, 0, 0⟩) pairInfo_boot pairInfo_clear (fun _ => rfl) pairInfo_rows run
  obtain ⟨launch, all⟩ := greets M₀ idling
  obtain ⟨launch', reach, space, settled, sharing⟩ := launches M₀ idling
  obtain rfl := launch.unique launch'
  have divided := settled.divided
  obtain ⟨d, b, two⟩ := List.length_eq_two.mp (launch.count.trans pairInfo_count)
  have isFirst : frames.1[0]? = some d := by rw [two]; rfl
  have isSecond : frames.1[1]? = some b := by rw [two]; rfl
  have first : M₀.sched.roundSchedule = 0 := by
    rw [idling.sched]
    exact round
  have few : frames.1.length ≤ 128 := (congrArg List.length two).le.trans (show 2 ≤ 128 by decide)
  let e : CallEffects := ⟨0, fun _ => 3, fun _ => 9⟩
  let T := smallLayout.area frames
  -- The switch to the first module.
  let M₁ := asmReschedule T e M₀
  have current₁ : M₁.sched.currentTaskTable 0 = linearStart + d := launch.first_switch few first e isFirst
  have system₁ : SystemReach T M₀ [.turn] [M₁.sched.currentTaskTable 0] M₁ := SystemReach.start.turn (.switch e)
  have booted : SystemReach T M₀ [] [] M₀ := .start
  obtain ⟨-, view₁⟩ := booted.dispatches divided sharing reach (Or.inr ⟨d, List.mem_of_getElem? isFirst, rfl⟩) e current₁
  obtain ⟨shared₁, ⟨_, reached₁⟩, -⟩ := system₁.machine divided sharing reach
  have atFirst : HelloStep T frames.1 pairBuf ⟨M₀, c, [], []⟩ ⟨M₁, c, [], []⟩ :=
    .system _ (.switch e) fun i d _ quiet => by cases quiet
  obtain ⟨goes₁, -⟩ := all pairBuf _ (.single atFirst)
  have fills := (goes₁ 0 d isFirst current₁).1 List.not_mem_nil
  -- It stores its greeting in its stack page.
  have mapped : ((processOf M₁ (linearStart + d)).view (stackPage + 0x800)).isSome := by
    have own : (processOf M₁ (linearStart + d)).view = (processOf M₀ (linearStart + d)).view := by
      rw [← view₁, ← current₁, processOf, shared₁.cr3]
    have onStack : (stackPage + 0x800) / 4096 = stackPage / 4096 := by decide
    rw [own, launch.process 0 d isFirst]
    simp only [startProcess, startView, if_pos onStack, Option.isSome_some]
  obtain ⟨M₂, step, current₂, filled⟩ := shared₁.fills divided reached₁ isFirst current₁ List.not_mem_nil fills
    (by rw [List.length_append, greeting_length]; rfl) mapped
  have system₂ : SystemReach T M₀ [.turn, .quiet] [M₁.sched.currentTaskTable 0] M₂ := system₁.other (fun turn => by cases turn) step
  have atSecond := Relation.ReflTransGen.tail (.single atFirst) filled
  -- It writes it out.
  obtain ⟨goes₂, -⟩ := all pairBuf _ atSecond
  obtain ⟨c', wrote⟩ := (goes₂ 0 d isFirst current₂).2 List.mem_cons_self
  have printed : HelloStep T frames.1 pairBuf ⟨M₂, c, [0], []⟩ ⟨M₂, c', [0], [0]⟩ :=
    .write c' isFirst current₂ List.mem_cons_self wrote
  -- The switch to the second one.
  let M₃ := asmReschedule T e M₂
  have system₃ : SystemReach T M₀ [.turn, .quiet, .turn] [M₁.sched.currentTaskTable 0, M₃.sched.currentTaskTable 0] M₃ :=
    system₂.turn (.switch e)
  have turns := system₃.launched launch few first divided sharing reach (by simp)
  have current₃ : M₃.sched.currentTaskTable 0 = linearStart + b := by
    have second := (List.cons.inj (List.cons.inj turns).2).1
    rw [second, two]
    rfl
  have last : HelloStep T frames.1 pairBuf ⟨M₂, c', [0], [0]⟩ ⟨M₃, c', [0], [0]⟩ :=
    .system _ (.switch e) fun i d _ quiet => by cases quiet
  have steps := (atSecond.tail printed).tail last
  obtain ⟨goes₃, shows⟩ := all pairBuf _ steps
  have name := (goes₃ 1 b isSecond current₃).1 (by simp)
  have row : (bootText pairInfo 0x1b00000 pairLength (fun _ => 7) ++
      [greeting (moduleName pairInfo 0x1b00000 pairLength 0)])[3]? = some (literal "hello my name is alice         ") := by
    rw [List.getElem?_append_right pairInfo_bootText_length.le, pairInfo_bootText_length, pairInfo_alice]
    rfl
  refine ⟨t, s, c, run, frames, M₀, b, _, idling, isSecond, steps, rfl, ?_, current₃, pairInfo_bob ▸ name⟩
  exact shows.read (k := 3) (o := 0) (by simp [pairInfo_bootText_length]) row (by decide) (by decide)

end boot

end MetalToApp

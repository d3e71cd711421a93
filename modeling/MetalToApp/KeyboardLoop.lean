import MetalToApp.CommandQueue
import MetalToApp.Keyboard
import MetalToApp.Library.GuardedRuns

namespace MetalToApp
open Transducer

/-- A byte in the controller's output buffer: a scancode byte, or the keyboard's answer to a byte
that it was sent. The loop sees the value alone. -/
inductive KeyboardByte
  | scanCode (value : UInt8)
  | answer (acknowledged : Bool)
deriving DecidableEq

def KeyboardByte.value : KeyboardByte → UInt8
  | scanCode value => value
  | answer acknowledged => if acknowledged then 0xfa else 0xfe

/-- Where the loop stands in `keyboard_test_loop`: in front of its next access to a port or to
the queue. -/
inductive LoopPoint
  | scanStatus
  | scanCode
  | queueLength
  | queueFront
  | inputStatus (byte : UInt8) (rest : List UInt8)
  | inputByte (byte : UInt8) (rest : List UInt8)
  | resultStatus
  | result
  | queuePop
  | stopped (result : UInt8)
  | halted
deriving DecidableEq

/-- The loop's variables, the command queue, and the keyboard with its controller. The last five
fields are what has happened so far. -/
structure LoopState where
  point : LoopPoint
  queue : CommandQueue
  codeBuffer : Nat
  usbCodes : List Int
  /-- the byte in the controller's input buffer -/
  input : Option UInt8
  /-- what the keyboard has got and not answered yet -/
  received : List UInt8
  output : List KeyboardByte
  emitted : List UInt8
  processed : List KeyboardByte
  acknowledged : List UInt8
  pushed : List KeyboardCommand
  popped : List KeyboardCommand

namespace LoopState

/-- After `initps2`. -/
def initial : LoopState where
  point := .scanStatus
  queue := .initial
  codeBuffer := 0
  usbCodes := []
  input := none
  received := []
  output := []
  emitted := []
  processed := []
  acknowledged := []
  pushed := []
  popped := []

/-- `inb(0x64)`, as far as the loop looks at it. -/
def status (s : LoopState) : UInt8 := (if s.output = [] then 0 else 1) ||| (if s.input = none then 0 else 2)

/-- `processScancode` on a byte that was read. -/
def process (s : LoopState) (b : KeyboardByte) : LoopState :=
  { s with
    codeBuffer := (processScancode s.codeBuffer b.value).2
    usbCodes := s.usbCodes ++ (processScancode s.codeBuffer b.value).1
    processed := s.processed ++ [b] }

/-- One access of the loop. A port that has no byte is never read. -/
def loop (s : LoopState) : Option LoopState :=
  match s.point with
  | .scanStatus => some { s with point := if 1 &&& s.status ≠ 0 then .scanCode else .queueLength }
  | .scanCode =>
    match s.output with
    | [] => none
    | b :: rest => some (process { s with point := .scanStatus, output := rest } b)
  | .queueLength => some { s with point := if kbdCommandQueueLength s.queue = 0 then .scanStatus else .queueFront }
  | .queueFront =>
    match kbdCommandQueueFront s.queue with
    | .error _ => some { s with point := .halted }
    | .ok cmd => some { s with point := .inputStatus cmd.command (cmd.data.toList.take cmd.dataLength.toNat) }
  | .inputStatus byte rest => some (if 2 &&& s.status ≠ 0 then s else { s with point := .inputByte byte rest })
  | .inputByte byte rest => some { s with
      input := some byte
      point := match rest with
        | [] => .resultStatus
        | byte :: rest => .inputStatus byte rest }
  | .resultStatus => some (if 1 &&& s.status = 0 then s else { s with point := .result })
  | .result =>
    match s.output with
    | [] => none
    | b :: rest => some { s with
        output := rest
        point := if b.value = 0xfa then .queuePop else if b.value = 0xfe then .scanStatus else .stopped b.value }
  | .queuePop =>
    match kbdCommandQueueFront s.queue, kbdCommandQueuePop s.queue with
    | .ok cmd, .ok queue => some { s with point := .scanStatus, queue := queue, popped := s.popped ++ [cmd] }
    | _, _ => some { s with point := .halted }
  | .stopped _ => none
  | .halted => none

end LoopState

/-- What can happen next: an access of the loop, a scancode byte from the keyboard, the keyboard
taking the byte that was sent to it, its answer to the oldest byte it has, and a push from outside
the loop of a command with no more data than its array holds. -/
inductive LoopAction
  | loop
  | press (scanCode : UInt8)
  | take
  | answer (acknowledged : Bool)
  | push (cmd : KeyboardCommand)

def LoopState.next (s : LoopState) : LoopAction → Option LoopState
  | .loop => s.loop
  | .press scanCode => some { s with output := s.output ++ [.scanCode scanCode], emitted := s.emitted ++ [scanCode] }
  | .take =>
    match s.input with
    | none => none
    | some byte => some { s with input := none, received := s.received ++ [byte] }
  | .answer acknowledged =>
    match s.received with
    | [] => none
    | byte :: rest => some { s with
        received := rest
        output := s.output ++ [.answer acknowledged]
        acknowledged := if acknowledged then s.acknowledged ++ [byte] else s.acknowledged }
  | .push cmd =>
    if 2 < cmd.dataLength then none
    else
      match kbdCommandQueuePush s.queue cmd with
      | .error _ => none
      | .ok queue => some { s with queue := queue, pushed := s.pushed ++ [cmd] }

/-- The bytes that a command sends. -/
def KeyboardCommand.bytes (cmd : KeyboardCommand) : List UInt8 := cmd.command :: cmd.data.toList.take cmd.dataLength.toNat

def scanCodeBytes (bytes : List KeyboardByte) : List UInt8 :=
  bytes.filterMap fun
    | .scanCode value => some value
    | .answer _ => none

/-- Every byte has reached its consumer so far, or waits for it: the scancode bytes that were
emitted have been processed, in order, but for those in the output buffer, and nothing else has;
the commands that were pushed have been popped, in order, but for those in the queue, each after
all of its bytes were acknowledged; and the loop goes on. -/
structure LoopState.Delivers (s : LoopState) : Prop where
  scanCodes : s.emitted = scanCodeBytes s.processed ++ scanCodeBytes s.output
  noAnswer : ∀ acknowledged, .answer acknowledged ∉ s.processed
  decoded : feed processScancode 0 (s.processed.map KeyboardByte.value) = (s.usbCodes, s.codeBuffer)
  commands : ∃ pending, s.queue.Pending pending ∧ s.pushed = s.popped ++ pending
  acknowledged : (s.popped.flatMap KeyboardCommand.bytes).Sublist s.acknowledged
  running : ∃ s', s.loop = some s'

/-! When they do. -/

/-- The loop is between its choice of a command and the answer to it. -/
def LoopPoint.commanding : LoopPoint → Bool
  | .queueFront | .inputStatus _ _ | .inputByte _ _ | .resultStatus | .result => true
  | _ => false

/-- No scancode byte comes when a command is being sent and its answer is not in the output
buffer, none has come between the last look at the status and the choice of a command, and
commands have no data. -/
def LoopState.Timely (s : LoopState) : LoopAction → Prop
  | .press _ => s.point.commanding → ∃ acknowledged, .answer acknowledged ∈ s.output
  | .loop => s.point = .queueLength → kbdCommandQueueLength s.queue ≠ 0 → s.output = []
  | .push cmd => cmd.dataLength = 0
  | .take => True
  | .answer _ => True

instance (s : LoopState) : ∀ a, Decidable (s.Timely a)
  | .press _ => inferInstanceAs (Decidable (s.point.commanding → ∃ acknowledged, .answer acknowledged ∈ s.output))
  | .loop => inferInstanceAs (Decidable (s.point = .queueLength → kbdCommandQueueLength s.queue ≠ 0 → s.output = []))
  | .push cmd => inferInstanceAs (Decidable (cmd.dataLength = 0))
  | .take => inferInstanceAs (Decidable True)
  | .answer _ => inferInstanceAs (Decidable True)

/-- There are only scancode bytes in the buffer. -/
def OnlyScanCodes (bytes : List KeyboardByte) : Prop := ∀ acknowledged, .answer acknowledged ∉ bytes

namespace LoopState

def poppedBytes (s : LoopState) : List UInt8 := s.popped.flatMap KeyboardCommand.bytes

/-- Nothing but scancode bytes is under way between the loop and the keyboard. -/
structure Idle (s : LoopState) (acknowledged : List UInt8) : Prop where
  input : s.input = none
  received : s.received = []
  output : OnlyScanCodes s.output
  acknowledged : s.acknowledged = acknowledged

/-- A byte has been sent: it is in the input buffer, or the keyboard has it, or its answer is in
front of the output buffer. -/
inductive Sent (s : LoopState) (byte : UInt8) : Prop
  | input : s.input = some byte → s.received = [] → s.output = [] → s.acknowledged = s.poppedBytes → Sent s byte
  | received : s.input = none → s.received = [byte] → s.output = [] → s.acknowledged = s.poppedBytes → Sent s byte
  | answered (acknowledged rest) : s.input = none → s.received = [] → s.output = .answer acknowledged :: rest → OnlyScanCodes rest →
      s.acknowledged = s.poppedBytes ++ (if acknowledged then [byte] else []) → Sent s byte

/-- What is under way when the loop is at a point of its code. -/
def Channel (s : LoopState) (pending : List KeyboardCommand) : LoopPoint → Prop
  | .scanStatus => s.Idle s.poppedBytes
  | .scanCode => s.Idle s.poppedBytes ∧ s.output ≠ []
  | .queueLength => s.Idle s.poppedBytes
  | .queueFront => s.Idle s.poppedBytes ∧ s.output = [] ∧ ∃ cmd later, pending = cmd :: later
  | .inputStatus byte rest => s.Idle s.poppedBytes ∧ s.output = [] ∧ ∃ cmd later, pending = cmd :: later ∧ cmd.bytes = byte :: rest
  | .inputByte byte rest => s.Idle s.poppedBytes ∧ s.output = [] ∧ ∃ cmd later, pending = cmd :: later ∧ cmd.bytes = byte :: rest
  | .resultStatus => ∃ cmd later, pending = cmd :: later ∧ s.Sent cmd.command
  | .result => (∃ cmd later, pending = cmd :: later ∧ s.Sent cmd.command) ∧ s.output ≠ []
  | .queuePop => ∃ cmd later, pending = cmd :: later ∧ s.Idle (s.poppedBytes ++ cmd.bytes)
  | .stopped _ => False
  | .halted => False

/-- The bookkeeping of a timely run. -/
structure Inv (s : LoopState) (pending : List KeyboardCommand) : Prop where
  queue : s.queue.Pending pending
  commands : s.pushed = s.popped ++ pending
  short : ∀ cmd ∈ pending, cmd.dataLength = 0
  scanCodes : s.emitted = scanCodeBytes s.processed ++ scanCodeBytes s.output
  noAnswer : OnlyScanCodes s.processed
  decoded : feed processScancode 0 (s.processed.map KeyboardByte.value) = (s.usbCodes, s.codeBuffer)
  channel : s.Channel pending s.point

end LoopState

section bytes
variable {before after : List KeyboardByte} {value : UInt8} {acknowledged : Bool}

@[simp] theorem scanCodeBytes_append : scanCodeBytes (before ++ after) = scanCodeBytes before ++ scanCodeBytes after :=
  List.filterMap_append

@[simp] theorem scanCodeBytes_scanCode : scanCodeBytes (.scanCode value :: after) = value :: scanCodeBytes after := rfl

@[simp] theorem scanCodeBytes_answer : scanCodeBytes (.answer acknowledged :: after) = scanCodeBytes after := rfl

@[simp] theorem scanCodeBytes_nil : scanCodeBytes [] = [] := rfl

theorem OnlyScanCodes.nil : OnlyScanCodes [] := fun _ => List.not_mem_nil

theorem OnlyScanCodes.append (only : OnlyScanCodes before) : OnlyScanCodes (before ++ [.scanCode value]) := by
  intro acknowledged member
  rcases List.mem_append.mp member with earlier | last
  · exact only acknowledged earlier
  · cases List.mem_singleton.mp last

theorem OnlyScanCodes.cons_iff {b : KeyboardByte} :
    OnlyScanCodes (b :: after) ↔ (∃ value, b = .scanCode value) ∧ OnlyScanCodes after := by
  cases b with
  | scanCode value => simp [OnlyScanCodes]
  | answer acknowledged =>
    refine ⟨fun only => absurd List.mem_cons_self (only acknowledged), ?_⟩
    rintro ⟨⟨value, scanCode⟩, -⟩
    cases scanCode

theorem KeyboardCommand.bytes_of_short {cmd : KeyboardCommand} (short : cmd.dataLength = 0) : cmd.bytes = [cmd.command] := by
  rw [bytes, short]
  rfl

end bytes

namespace LoopState
variable {s s' : LoopState} {pending pending' : List KeyboardCommand} {value : UInt8} {acknowledged : Bool} {cmd : KeyboardCommand}

theorem Inv.initial : LoopState.initial.Inv [] :=
  ⟨.initial, rfl, nofun, rfl, .nil, rfl, ⟨rfl, rfl, .nil, rfl⟩⟩

/-- What happens while the loop stays where it is. -/
theorem Channel.imp {point : LoopPoint} (channel : s.Channel pending point) (popped : s'.poppedBytes = s.poppedBytes)
    (front : ∀ {cmd later}, pending = cmd :: later → ∃ later', pending' = cmd :: later')
    (idle : ∀ {bytes}, s.Idle bytes → s'.Idle bytes) (sent : point.commanding → ∀ {byte}, s.Sent byte → s'.Sent byte)
    (more : s.output ≠ [] → s'.output ≠ []) (empty : point.commanding → ∀ {bytes}, s.Idle bytes → s.output = [] → s'.output = []) :
    s'.Channel pending' point := by
  cases point with
  | scanStatus => exact (popped ▸ idle channel : s'.Idle s'.poppedBytes)
  | scanCode => exact ⟨popped ▸ idle channel.1, more channel.2⟩
  | queueLength => exact (popped ▸ idle channel : s'.Idle s'.poppedBytes)
  | queueFront =>
    obtain ⟨here, output, cmd, later, head⟩ := channel
    exact ⟨popped ▸ idle here, empty rfl here output, cmd, front head⟩
  | inputStatus byte rest =>
    obtain ⟨here, output, cmd, later, head, bytes⟩ := channel
    obtain ⟨later', head'⟩ := front head
    exact ⟨popped ▸ idle here, empty rfl here output, cmd, later', head', bytes⟩
  | inputByte byte rest =>
    obtain ⟨here, output, cmd, later, head, bytes⟩ := channel
    obtain ⟨later', head'⟩ := front head
    exact ⟨popped ▸ idle here, empty rfl here output, cmd, later', head', bytes⟩
  | resultStatus =>
    obtain ⟨cmd, later, head, here⟩ := channel
    obtain ⟨later', head'⟩ := front head
    exact ⟨cmd, later', head', sent rfl here⟩
  | result =>
    obtain ⟨⟨cmd, later, head, here⟩, some⟩ := channel
    obtain ⟨later', head'⟩ := front head
    exact ⟨⟨cmd, later', head', sent rfl here⟩, more some⟩
  | queuePop =>
    obtain ⟨cmd, later, head, here⟩ := channel
    obtain ⟨later', head'⟩ := front head
    exact ⟨cmd, later', head', popped ▸ idle here⟩
  | stopped result => exact channel
  | halted => exact channel

/-- A scancode byte goes behind what is in the output buffer. -/
theorem Inv.press (inv : s.Inv pending) (timely : s.Timely (.press value)) (run : s.next (.press value) = some s') :
    s'.Inv pending := by
  cases run
  obtain ⟨queue, commands, short, codes, noAnswer, decoded, channel⟩ := inv
  refine ⟨queue, commands, short, by simp [codes], noAnswer, decoded, ?_⟩
  refine channel.imp rfl (fun head => ⟨_, head⟩) (fun idle => ?_) (fun commanding byte sent => ?_)
    (fun _ => List.append_ne_nil_of_right_ne_nil _ (List.cons_ne_nil _ _)) (fun commanding _ _ output => ?_)
  · exact ⟨idle.input, idle.received, idle.output.append, idle.acknowledged⟩
  · obtain ⟨acknowledged, answer⟩ := timely commanding
    have some := List.ne_nil_of_mem answer
    cases sent with
    | input _ _ output => exact absurd output some
    | received _ _ output => exact absurd output some
    | answered a rest input received output only bytes =>
      exact .answered a (rest ++ [.scanCode value]) input received (by simp [output]) only.append bytes
  · obtain ⟨acknowledged, answer⟩ := timely commanding
    exact absurd output (List.ne_nil_of_mem answer)

/-- The keyboard takes a byte that was sent. -/
theorem Inv.take (inv : s.Inv pending) (run : s.next .take = some s') : s'.Inv pending := by
  obtain ⟨queue, commands, short, codes, noAnswer, decoded, channel⟩ := inv
  rw [next] at run
  cases full : s.input with
  | none =>
    rw [full] at run
    cases run
  | some byte =>
    rw [full] at run
    cases run
    refine ⟨queue, commands, short, codes, noAnswer, decoded, ?_⟩
    refine channel.imp rfl (fun head => ⟨_, head⟩) (fun idle => ?_) (fun _ byte' sent => ?_) (fun more => more)
      (fun _ _ _ output => output)
    · cases full.symm.trans idle.input
    · cases sent with
      | input input received output bytes =>
        cases full.symm.trans input
        exact .received rfl (by simp [received]) output bytes
      | received input => cases full.symm.trans input
      | answered _ _ input => cases full.symm.trans input

/-- Its answer comes alone, as the loop has read everything else before it sent the byte. -/
theorem Inv.answer (inv : s.Inv pending) (run : s.next (.answer acknowledged) = some s') : s'.Inv pending := by
  obtain ⟨queue, commands, short, codes, noAnswer, decoded, channel⟩ := inv
  rw [next] at run
  cases got : s.received with
  | nil =>
    rw [got] at run
    cases run
  | cons byte rest =>
    rw [got] at run
    cases run
    refine ⟨queue, commands, short, by simp [codes], noAnswer, decoded, ?_⟩
    have idle {bytes} (idle : s.Idle bytes) : False := by
      cases got.symm.trans idle.received
    refine channel.imp rfl (fun head => ⟨_, head⟩) (fun here => (idle here).elim) (fun _ byte' sent => ?_)
      (fun _ => List.append_ne_nil_of_right_ne_nil _ (List.cons_ne_nil _ _)) (fun _ _ here _ => (idle here).elim)
    · cases sent with
      | input _ received => cases got.symm.trans received
      | received input received output bytes =>
        cases got.symm.trans received
        refine .answered acknowledged [] input rfl (by simp [output]) .nil ?_
        cases acknowledged <;> simp [bytes, poppedBytes]
      | answered _ _ _ received => cases got.symm.trans received

theorem Inv.push (inv : s.Inv pending) (timely : s.Timely (.push cmd)) (run : s.next (.push cmd) = some s') :
    s'.Inv (pending ++ [cmd]) := by
  obtain ⟨queue, commands, short, codes, noAnswer, decoded, channel⟩ := inv
  rw [next] at run
  have room : pending.length < 15 := by
    by_contra full
    have all : pending.length = 15 := by
      have most := queue.length_le
      omega
    rw [queue.push_full all] at run
    split at run <;> cases run
  obtain ⟨queue', pushed, pending'⟩ := queue.push room
  rw [pushed] at run
  split at run
  · cases run
  · cases run
    refine ⟨pending', by simp [commands], fun c member => ?_, codes, noAnswer, decoded, ?_⟩
    · rcases List.mem_append.mp member with earlier | last
      · exact short c earlier
      · exact List.mem_singleton.mp last ▸ timely
    · refine channel.imp rfl (fun head => ⟨_, by rw [head]; rfl⟩)
        (fun idle => ⟨idle.input, idle.received, idle.output, idle.acknowledged⟩) (fun _ byte sent => ?_)
        (fun more => more) (fun _ _ _ output => output)
      cases sent with
      | input input received output bytes => exact .input input received output bytes
      | received input received output bytes => exact .received input received output bytes
      | answered a rest input received output only bytes => exact .answered a rest input received output only bytes

/-! The loop itself. -/

theorem status_output : 1 &&& s.status = 0 ↔ s.output = [] := by
  unfold status
  by_cases output : s.output = [] <;> by_cases input : s.input = none <;> simp only [output, input, if_true, if_false] <;> decide

theorem status_input : 2 &&& s.status = 0 ↔ s.input = none := by
  unfold status
  by_cases output : s.output = [] <;> by_cases input : s.input = none <;> simp only [output, input, if_true, if_false] <;> decide

theorem loop_scanStatus (point : s.point = .scanStatus) :
    s.loop = some { s with point := if s.output = [] then .queueLength else .scanCode } := by
  rw [loop, point]
  by_cases output : s.output = []
  · simp only [status_output.mpr output, output, ne_eq, not_true_eq_false, if_true, if_false]
  · simp only [mt status_output.mp output, output, ne_eq, not_false_eq_true, if_true, if_false]

theorem loop_scanCode {b : KeyboardByte} {rest : List KeyboardByte} (point : s.point = .scanCode) (output : s.output = b :: rest) :
    s.loop = some (process { s with point := .scanStatus, output := rest } b) := by
  simp only [loop, point, output]

theorem loop_queueLength (point : s.point = .queueLength) :
    s.loop = some { s with point := if kbdCommandQueueLength s.queue = 0 then .scanStatus else .queueFront } := by
  simp only [loop, point]

theorem loop_queueFront (point : s.point = .queueFront) (front : kbdCommandQueueFront s.queue = .ok cmd) :
    s.loop = some { s with point := .inputStatus cmd.command (cmd.data.toList.take cmd.dataLength.toNat) } := by
  simp only [loop, point, front]

theorem loop_inputStatus {byte : UInt8} {rest : List UInt8} (point : s.point = .inputStatus byte rest) (input : s.input = none) :
    s.loop = some { s with point := .inputByte byte rest } := by
  simp only [loop, point, status_input.mpr input, ne_eq, not_true_eq_false, if_false]

/-- The last byte of a command. -/
theorem loop_inputByte {byte : UInt8} (point : s.point = .inputByte byte []) :
    s.loop = some { s with input := some byte, point := .resultStatus } := by
  simp only [loop, point]

theorem loop_resultStatus (point : s.point = .resultStatus) :
    s.loop = some { s with point := if s.output = [] then .resultStatus else .result } := by
  by_cases output : s.output = []
  · simp only [loop, point, status_output.mpr output, if_true]
    rw [if_pos output, ← point]
  · simp only [loop, point, mt status_output.mp output, output, if_false]

theorem loop_result {rest : List KeyboardByte} (point : s.point = .result) (output : s.output = .answer acknowledged :: rest) :
    s.loop = some { s with output := rest, point := if acknowledged then .queuePop else .scanStatus } := by
  cases acknowledged <;> simp only [loop, point, output] <;> rfl

theorem loop_queuePop {queue : CommandQueue} (point : s.point = .queuePop) (front : kbdCommandQueueFront s.queue = .ok cmd)
    (popped : kbdCommandQueuePop s.queue = .ok queue) :
    s.loop = some { s with point := .scanStatus, queue := queue, popped := s.popped ++ [cmd] } := by
  simp only [loop, point, front, popped]

/-- The loop comes to another point of its code without having done anything. -/
theorem Inv.move {point : LoopPoint} (inv : s.Inv pending) (channel : s.Channel pending point) :
    Inv { s with point := point } pending := by
  refine ⟨inv.queue, inv.commands, inv.short, inv.scanCodes, inv.noAnswer, inv.decoded, ?_⟩
  refine channel.imp rfl (fun head => ⟨_, head⟩) (fun idle => ⟨idle.input, idle.received, idle.output, idle.acknowledged⟩)
    (fun _ byte sent => ?_) (fun more => more) (fun _ _ _ output => output)
  cases sent with
  | input input received output bytes => exact .input input received output bytes
  | received input received output bytes => exact .received input received output bytes
  | answered a rest input received output only bytes => exact .answered a rest input received output only bytes

/-- What the drain takes is a scancode byte. -/
theorem Inv.scanCode (inv : s.Inv pending) (point : s.point = .scanCode) : ∃ s', s.loop = some s' ∧ s'.Inv pending := by
  obtain ⟨queue, commands, short, codes, noAnswer, decoded, channel⟩ := inv
  rw [point] at channel
  obtain ⟨idle, more⟩ := channel
  obtain ⟨b, rest, output⟩ := List.exists_cons_of_ne_nil more
  have all := idle.output
  rw [output] at all
  obtain ⟨⟨value, rfl⟩, only⟩ := OnlyScanCodes.cons_iff.mp all
  refine ⟨_, loop_scanCode point output, queue, commands, short, ?_, noAnswer.append, ?_, ?_⟩
  · simp [process, codes, output]
  · simp [process, feed_append, decoded]
  · exact ⟨idle.input, idle.received, only, idle.acknowledged⟩

/-- The loop goes on to a command with nothing in the output buffer, or back to the drain. -/
theorem Inv.queueLength (inv : s.Inv pending) (point : s.point = .queueLength) (timely : s.Timely .loop) :
    ∃ s', s.loop = some s' ∧ s'.Inv pending := by
  have channel := inv.channel
  rw [point] at channel
  refine ⟨_, loop_queueLength point, inv.move ?_⟩
  split
  · exact channel
  · next some =>
    have more : pending ≠ [] := by
      rintro rfl
      exact some (UInt8.toNat_inj.mp inv.queue.length_eq)
    obtain ⟨cmd, later, head⟩ := List.exists_cons_of_ne_nil more
    exact ⟨channel, timely point some, cmd, later, head⟩

/-- The bytes of a command are its first byte alone. -/
theorem Inv.single (inv : s.Inv pending) {later : List KeyboardCommand} (head : pending = cmd :: later) : cmd.bytes = [cmd.command] :=
  KeyboardCommand.bytes_of_short (inv.short cmd (head ▸ List.mem_cons_self))

theorem Inv.inputByte {byte : UInt8} {rest : List UInt8} (inv : s.Inv pending) (point : s.point = .inputByte byte rest) :
    ∃ s', s.loop = some s' ∧ s'.Inv pending := by
  have channel := inv.channel
  rw [point] at channel
  obtain ⟨idle, output, cmd, later, head, bytes⟩ := channel
  cases (inv.single head).symm.trans bytes
  refine ⟨_, loop_inputByte point, inv.queue, inv.commands, inv.short, inv.scanCodes, inv.noAnswer, inv.decoded, ?_⟩
  exact ⟨cmd, later, head, .input rfl idle.received output idle.acknowledged⟩

/-- What it takes for the result is the answer to the command. -/
theorem Inv.result (inv : s.Inv pending) (point : s.point = .result) : ∃ s', s.loop = some s' ∧ s'.Inv pending := by
  have channel := inv.channel
  rw [point] at channel
  obtain ⟨⟨cmd, later, head, sent⟩, more⟩ := channel
  cases sent with
  | input _ _ output => exact absurd output more
  | received _ _ output => exact absurd output more
  | answered a rest input received output only bytes =>
    have codes := inv.scanCodes
    rw [output, scanCodeBytes_answer] at codes
    refine ⟨_, loop_result point output, inv.queue, inv.commands, inv.short, codes, inv.noAnswer, inv.decoded, ?_⟩
    cases a with
    | true => exact ⟨cmd, later, head, input, received, only, by rw [inv.single head]; exact bytes⟩
    | false => exact ⟨input, received, only, by rw [bytes]; exact List.append_nil _⟩

theorem Inv.queuePop (inv : s.Inv pending) (point : s.point = .queuePop) : ∃ s' pending', s.loop = some s' ∧ s'.Inv pending' := by
  obtain ⟨queue, commands, short, codes, noAnswer, decoded, channel⟩ := inv
  rw [point] at channel
  obtain ⟨cmd, later, rfl, idle⟩ := channel
  obtain ⟨queue', popped, pending'⟩ := queue.pop
  refine ⟨_, later, loop_queuePop point queue.front popped, pending', by simp [commands],
    fun c member => short c (List.mem_cons_of_mem _ member), codes, noAnswer, decoded, ?_⟩
  refine ⟨idle.input, idle.received, idle.output, idle.acknowledged.trans ?_⟩
  simp [poppedBytes]

/-- Every access of the loop keeps the bookkeeping. -/
theorem Inv.loop (inv : s.Inv pending) (timely : s.Timely .loop) : ∃ s' pending', s.loop = some s' ∧ s'.Inv pending' := by
  have channel := inv.channel
  cases point : s.point with
  | scanStatus =>
    rw [point] at channel
    refine ⟨_, pending, loop_scanStatus point, inv.move ?_⟩
    split
    · exact channel
    · next more => exact ⟨channel, more⟩
  | scanCode =>
    obtain ⟨s', run, inv'⟩ := inv.scanCode point
    exact ⟨s', pending, run, inv'⟩
  | queueLength =>
    obtain ⟨s', run, inv'⟩ := inv.queueLength point timely
    exact ⟨s', pending, run, inv'⟩
  | queueFront =>
    rw [point] at channel
    obtain ⟨idle, output, cmd, later, rfl⟩ := channel
    exact ⟨_, _, loop_queueFront point inv.queue.front, inv.move ⟨idle, output, cmd, later, rfl, rfl⟩⟩
  | inputStatus byte rest =>
    rw [point] at channel
    exact ⟨_, pending, loop_inputStatus point channel.1.input, inv.move channel⟩
  | inputByte byte rest =>
    obtain ⟨s', run, inv'⟩ := inv.inputByte point
    exact ⟨s', pending, run, inv'⟩
  | resultStatus =>
    rw [point] at channel
    refine ⟨_, pending, loop_resultStatus point, inv.move ?_⟩
    split
    · exact channel
    · next more => exact ⟨channel, more⟩
  | result =>
    obtain ⟨s', run, inv'⟩ := inv.result point
    exact ⟨s', pending, run, inv'⟩
  | queuePop => exact inv.queuePop point
  | stopped result =>
    rw [point] at channel
    exact channel.elim
  | halted =>
    rw [point] at channel
    exact channel.elim

/-- The bytes of the commands that were popped are the first ones that were acknowledged. -/
theorem Channel.sublist {point : LoopPoint} (channel : s.Channel pending point) : s.poppedBytes.Sublist s.acknowledged := by
  have idle {more} (idle : s.Idle (s.poppedBytes ++ more)) : s.poppedBytes.Sublist s.acknowledged := by
    rw [idle.acknowledged]
    exact List.sublist_append_left _ _
  have none (idle' : s.Idle s.poppedBytes) : s.poppedBytes.Sublist s.acknowledged := by
    rw [idle'.acknowledged]
  have sent {byte} (sent : s.Sent byte) : s.poppedBytes.Sublist s.acknowledged := by
    cases sent with
    | input _ _ _ bytes => rw [bytes]
    | received _ _ _ bytes => rw [bytes]
    | answered _ _ _ _ _ _ bytes =>
      rw [bytes]
      exact List.sublist_append_left _ _
  cases point with
  | scanStatus => exact none channel
  | scanCode => exact none channel.1
  | queueLength => exact none channel
  | queueFront => exact none channel.1
  | inputStatus byte rest => exact none channel.1
  | inputByte byte rest => exact none channel.1
  | resultStatus =>
    obtain ⟨cmd, later, head, here⟩ := channel
    exact sent here
  | result =>
    obtain ⟨⟨cmd, later, head, here⟩, -⟩ := channel
    exact sent here
  | queuePop =>
    obtain ⟨cmd, later, head, here⟩ := channel
    exact idle here
  | stopped result => exact channel.elim
  | halted => exact channel.elim

/-- The loop never waits for a byte that is not there, and never stops. -/
theorem Inv.running (inv : s.Inv pending) : ∃ s', s.loop = some s' := by
  by_cases point : s.point = .queueLength
  · exact ⟨_, loop_queueLength point⟩
  · obtain ⟨s', -, run, -⟩ := inv.loop fun here => absurd here point
    exact ⟨s', run⟩

theorem Inv.delivers (inv : s.Inv pending) : s.Delivers :=
  ⟨inv.scanCodes, inv.noAnswer, inv.decoded, ⟨pending, inv.queue, inv.commands⟩, inv.channel.sublist, inv.running⟩

theorem Inv.next {a : LoopAction} (inv : s.Inv pending) (timely : s.Timely a) (run : s.next a = some s') :
    ∃ pending', s'.Inv pending' := by
  cases a with
  | loop =>
    obtain ⟨t, pending', here, inv'⟩ := inv.loop timely
    cases here.symm.trans run
    exact ⟨pending', inv'⟩
  | press value => exact ⟨pending, inv.press timely run⟩
  | take => exact ⟨pending, inv.take run⟩
  | answer acknowledged => exact ⟨pending, inv.answer run⟩
  | push cmd => exact ⟨_, inv.push timely run⟩

/-- In a timely run, every byte reaches its consumer in every state: no key comes between a
command and its answer, none has come unseen when a command is chosen, and the commands have no
data. -/
theorem keyboardLoop_delivers (reach : GuardedReach next Timely .initial s) : s.Delivers := by
  obtain ⟨pending, inv⟩ := reach.invariant (P := fun s => ∃ pending, s.Inv pending) ⟨[], .initial⟩
    fun ⟨_, inv⟩ timely run => inv.next timely run
  exact inv.delivers

end LoopState

/-- The command that makes the keyboard report its keys. -/
def enableScanning : KeyboardCommand := ⟨0xf4, 0, Vector.replicate 2 0⟩

/-- The command is sent and acknowledged, and a key is pressed before the loop sees the answer. -/
def timelyKey : List LoopAction :=
  [.push enableScanning, .loop, .loop, .loop, .loop, .loop, .take, .answer true, .press 0x1c,
    .loop, .loop, .loop, .loop, .loop]

theorem keyboardLoop_delivers_timelyKey :
    ∃ s : LoopState, s.popped = [enableScanning] ∧ s.processed = [.scanCode 0x1c] ∧ s.Delivers := by
  have ends : (GuardedReach.follow LoopState.next LoopState.Timely .initial timelyKey).map (fun s => (s.popped, s.processed)) =
    some ([enableScanning], [.scanCode 0x1c]) := by decide
  obtain ⟨s, run, history⟩ := Option.map_eq_some_iff.mp ends
  obtain ⟨popped, processed⟩ := Prod.mk.inj history
  exact ⟨s, popped, processed, LoopState.keyboardLoop_delivers (GuardedReach.start.of_follow run)⟩

/-- The key is pressed before the keyboard gets the command. -/
def lateKey : List LoopAction :=
  [.push enableScanning, .loop, .loop, .loop, .loop, .loop, .press 0x1c, .loop, .loop]

/-- Set the keyboard's lights, with one byte of data. -/
def setLights : KeyboardCommand := ⟨0xed, 1, #v[7, 0]⟩

/-- The command and its data are sent and acknowledged, and no key is pressed. -/
def twoAnswers : List LoopAction :=
  [.push setLights, .loop, .loop, .loop, .loop, .loop, .take, .answer true, .loop, .loop, .take, .answer true,
    .loop, .loop, .loop, .loop, .loop]

/-- With a key pressed at the wrong moment the loop stops, and the second answer to a command with
data is taken for a scancode byte. -/
theorem keyboardLoop_not_delivers :
    (∃ s : LoopState, GuardedReach.follow LoopState.next (fun _ _ => True) .initial lateKey = some s ∧
      s.point = .stopped 0x1c ∧ ¬s.Delivers) ∧
    ∃ s : LoopState, GuardedReach.follow LoopState.next (fun _ _ => True) .initial twoAnswers = some s ∧
      .answer true ∈ s.processed ∧ ¬s.Delivers := by
  constructor
  · have ends : (GuardedReach.follow LoopState.next (fun _ _ => True) .initial lateKey).map LoopState.point =
      some (.stopped 0x1c) := by decide
    obtain ⟨s, run, stopped⟩ := Option.map_eq_some_iff.mp ends
    refine ⟨s, run, stopped, fun delivers => ?_⟩
    obtain ⟨s', here⟩ := delivers.running
    rw [LoopState.loop, stopped] at here
    cases here
  · have ends : (GuardedReach.follow LoopState.next (fun _ _ => True) .initial twoAnswers).map LoopState.processed =
      some [.answer true] := by decide
    obtain ⟨s, run, processed⟩ := Option.map_eq_some_iff.mp ends
    have member : .answer true ∈ s.processed := processed ▸ List.mem_cons_self
    exact ⟨s, run, member, fun delivers => delivers.noAnswer true member⟩

end MetalToApp

import MetalToApp.Library.CircularBuffer
import MetalToApp.Library.Transducer

namespace MetalToApp
open CircularBuffer Transducer

structure KeyboardCommand where
  command : UInt8
  dataLength : UInt8
  data : Vector UInt8 2
deriving DecidableEq

/-- `kbdCommandQueue` with `kbdCommandQueueBegin` and `kbdCommandQueueEnd`. Every access to the
array is inside it. -/
structure CommandQueue where
  slots : Vector KeyboardCommand 16
  first : UInt8
  stop : UInt8
  first_lt : first.toNat < 16
  stop_lt : stop.toNat < 16

/-- Why an operation of the queue does not go on: a `panic`, or the `hlt` in front of an empty
queue. -/
inductive QueueHalt
  | panic
  | hlt
deriving DecidableEq, Repr

/-- The static variables before the first push. -/
def CommandQueue.initial : CommandQueue where
  slots := Vector.replicate 16 ⟨0, 0, #v[0, 0]⟩
  first := 0
  stop := 0
  first_lt := by decide
  stop_lt := by decide

theorem toNat_mod_sixteen (n : Nat) : (UInt8.ofNat (n % 16)).toNat = n % 16 := by
  rw [UInt8.toNat_ofNat']
  omega

def kbdCommandQueuePush (q : CommandQueue) (cmd : KeyboardCommand) : Except QueueHalt CommandQueue :=
  let nextEnd := UInt8.ofNat ((q.stop.toNat + 1) % 16)
  if nextEnd = q.first then .error .panic
  else .ok { q with
    slots := q.slots.set q.stop.toNat cmd q.stop_lt
    stop := nextEnd
    stop_lt := by rw [toNat_mod_sixteen]; omega }

def kbdCommandQueueFront (q : CommandQueue) : Except QueueHalt KeyboardCommand :=
  if q.first = q.stop then .error .hlt
  else .ok (q.slots.get ⟨q.first.toNat, q.first_lt⟩)

def kbdCommandQueuePop (q : CommandQueue) : Except QueueHalt CommandQueue :=
  if q.first = q.stop then .error .hlt
  else .ok { q with
    first := (q.first + 1) % 16
    first_lt := by rw [UInt8.toNat_mod]; exact Nat.mod_lt _ (by decide) }

def kbdCommandQueueLength (q : CommandQueue) : UInt8 := UInt8.ofNat ((q.stop.toNat + 16 - q.first.toNat) % 16)

/-- The commands that are pending in a queue, the oldest one first. -/
def CommandQueue.Pending (q : CommandQueue) (commands : List KeyboardCommand) : Prop :=
  Holds 16 (fun i => q.slots[i]?) q.first.toNat q.stop.toNat (commands.map some)

namespace CommandQueue.Pending
variable {q : CommandQueue} {commands : List KeyboardCommand} {cmd : KeyboardCommand}

theorem initial : CommandQueue.initial.Pending [] := Holds.empty (by decide)

theorem length_le (pending : q.Pending commands) : commands.length ≤ 15 := by
  have short := Holds.short pending
  rw [List.length_map] at short
  omega

theorem length_eq (pending : q.Pending commands) : (kbdCommandQueueLength q).toNat = commands.length := by
  have length := Holds.length_eq pending
  rw [List.length_map] at length
  rw [kbdCommandQueueLength, toNat_mod_sixteen, length]

theorem empty_iff (pending : q.Pending commands) : q.first = q.stop ↔ commands = [] := by
  rw [← UInt8.toNat_inj, Holds.empty_iff pending, List.map_eq_nil_iff]

theorem push (pending : q.Pending commands) (room : commands.length < 15) :
    ∃ q', kbdCommandQueuePush q cmd = .ok q' ∧ q'.Pending (commands ++ [cmd]) := by
  have notFull : (q.stop.toNat + 1) % 16 ≠ q.first.toNat := by
    rw [Ne, Holds.full_iff pending, List.length_map]
    omega
  have next : UInt8.ofNat ((q.stop.toNat + 1) % 16) ≠ q.first := by
    rwa [Ne, ← UInt8.toNat_inj, toNat_mod_sixteen]
  have written : ∀ i, i ≠ q.stop.toNat → (q.slots.set q.stop.toNat cmd q.stop_lt)[i]? = q.slots[i]? :=
    fun i other => by simp [other.symm]
  refine ⟨_, if_neg next, ?_⟩
  rw [Pending, toNat_mod_sixteen, List.map_append]
  exact Holds.push pending (by rw [List.length_map]; omega) (by simp) written

theorem push_full (pending : q.Pending commands) (full : commands.length = 15) :
    kbdCommandQueuePush q cmd = .error .panic := by
  have last : (q.stop.toNat + 1) % 16 = q.first.toNat := by
    rw [Holds.full_iff pending, List.length_map, full]
  refine if_pos ?_
  rw [← UInt8.toNat_inj, toNat_mod_sixteen, last]

theorem front (pending : q.Pending (cmd :: commands)) : kbdCommandQueueFront q = .ok cmd := by
  have more : q.first ≠ q.stop := fun same => List.cons_ne_nil _ _ (pending.empty_iff.mp same)
  have place : q.slots[q.first.toNat]? = some cmd := Holds.front pending
  rw [Vector.getElem?_eq_getElem q.first_lt] at place
  rw [kbdCommandQueueFront, if_neg more]
  exact congrArg Except.ok (Option.some_inj.mp place)

theorem pop (pending : q.Pending (cmd :: commands)) : ∃ q', kbdCommandQueuePop q = .ok q' ∧ q'.Pending commands := by
  have more : q.first ≠ q.stop := fun same => List.cons_ne_nil _ _ (pending.empty_iff.mp same)
  have first : ((q.first + 1) % 16).toNat = (q.first.toNat + 1) % 16 := by
    have inside := q.first_lt
    rw [UInt8.toNat_mod, UInt8.toNat_add]
    simp only [UInt8.reduceToNat]
    omega
  refine ⟨_, if_neg more, ?_⟩
  rw [Pending, first]
  exact Holds.pop pending

theorem none (pending : q.Pending []) : kbdCommandQueueFront q = .error .hlt ∧ kbdCommandQueuePop q = .error .hlt :=
  ⟨if_pos (pending.empty_iff.mpr rfl), if_pos (pending.empty_iff.mpr rfl)⟩

end CommandQueue.Pending

/-! Runs of the queue. -/

inductive QueueRequest
  | push (cmd : KeyboardCommand)
  | front
  | pop
  | length
deriving DecidableEq

inductive QueueAnswer
  | done
  | command (cmd : KeyboardCommand)
  | length (n : Nat)
  | halted (halt : QueueHalt)
deriving DecidableEq

/-- One request. Where it halts, the queue is as it was. -/
def CommandQueue.answer (q : CommandQueue) : QueueRequest → List QueueAnswer × CommandQueue
  | .push cmd =>
    match kbdCommandQueuePush q cmd with
    | .ok q' => ([.done], q')
    | .error halt => ([.halted halt], q)
  | .front =>
    match kbdCommandQueueFront q with
    | .ok cmd => ([.command cmd], q)
    | .error halt => ([.halted halt], q)
  | .pop =>
    match kbdCommandQueuePop q with
    | .ok q' => ([.done], q')
    | .error halt => ([.halted halt], q)
  | .length => ([.length (kbdCommandQueueLength q).toNat], q)

/-- What the queue is for: at most fifteen commands that leave it in the order in which they came. -/
structure Fifo where
  popped : List KeyboardCommand
  pending : List KeyboardCommand
  short : pending.length ≤ 15

namespace Fifo

def empty : Fifo := ⟨[], [], Nat.zero_le _⟩

def answer (f : Fifo) : QueueRequest → List QueueAnswer × Fifo
  | .push cmd =>
    if room : f.pending.length < 15 then
      ([.done], ⟨f.popped, f.pending ++ [cmd], by rw [List.length_append]; exact room⟩)
    else ([.halted .panic], f)
  | .front =>
    match f.pending with
    | [] => ([.halted .hlt], f)
    | cmd :: _ => ([.command cmd], f)
  | .pop =>
    match f with
    | ⟨_, [], _⟩ => ([.halted .hlt], f)
    | ⟨popped, cmd :: pending, short⟩ => ([.done], ⟨popped ++ [cmd], pending, Nat.le_of_succ_le short⟩)
  | .length => ([.length f.pending.length], f)

end Fifo

/-- The commands that were pushed without a panic. -/
def accepted (requests : List QueueRequest) (answers : List QueueAnswer) : List KeyboardCommand :=
  (requests.zip answers).filterMap fun
    | (.push cmd, .done) => some cmd
    | _ => none

/-- The ring answers a request as the list does. -/
theorem CommandQueue.Pending.answer {q : CommandQueue} {f : Fifo} (request : QueueRequest) (pending : q.Pending f.pending) :
    (q.answer request).1 = (f.answer request).1 ∧ (q.answer request).2.Pending (f.answer request).2.pending := by
  obtain ⟨popped, commands, short⟩ := f
  cases request with
  | push cmd =>
    by_cases room : commands.length < 15
    · obtain ⟨q', pushed, pending'⟩ : ∃ q', kbdCommandQueuePush q cmd = .ok q' ∧ q'.Pending (commands ++ [cmd]) := pending.push room
      simp only [CommandQueue.answer, Fifo.answer, pushed, room, dif_pos]
      exact ⟨trivial, pending'⟩
    · have all : commands.length = 15 := by omega
      have full : kbdCommandQueuePush q cmd = .error .panic := pending.push_full all
      simp only [CommandQueue.answer, Fifo.answer, full, room, dif_neg, not_false_eq_true]
      exact ⟨trivial, pending⟩
  | front =>
    cases commands with
    | nil =>
      simp only [CommandQueue.answer, Fifo.answer, pending.none.1]
      exact ⟨trivial, pending⟩
    | cons cmd commands =>
      simp only [CommandQueue.answer, Fifo.answer, pending.front]
      exact ⟨trivial, pending⟩
  | pop =>
    cases commands with
    | nil =>
      simp only [CommandQueue.answer, Fifo.answer, pending.none.2]
      exact ⟨trivial, pending⟩
    | cons cmd commands =>
      obtain ⟨q', popped, pending'⟩ := pending.pop
      simp only [CommandQueue.answer, Fifo.answer, popped]
      exact ⟨trivial, pending'⟩
  | length => exact ⟨congrArg (fun n => [QueueAnswer.length n]) pending.length_eq, pending⟩

/-- Nothing is lost or doubled: what was accepted has been popped in this order, or is pending. -/
theorem Fifo.feed_accepted (f : Fifo) (requests : List QueueRequest) :
    f.popped ++ f.pending ++ accepted requests (feed Fifo.answer f requests).1 =
      (feed Fifo.answer f requests).2.popped ++ (feed Fifo.answer f requests).2.pending := by
  induction requests generalizing f with
  | nil => exact List.append_nil _
  | cons request rest ih =>
    have next := ih (f.answer request).2
    obtain ⟨popped, commands, short⟩ := f
    cases request with
    | push cmd =>
      by_cases room : commands.length < 15
      · simp only [Fifo.answer, room, dif_pos] at next
        simp only [feed, Fifo.answer, room, dif_pos, ← next]
        simp [accepted]
      · simp only [Fifo.answer, room, dif_neg, not_false_eq_true] at next
        simp only [feed, Fifo.answer, room, dif_neg, not_false_eq_true, ← next]
        simp [accepted]
    | front =>
      cases commands with
      | nil => exact next
      | cons cmd commands => exact next
    | pop =>
      cases commands with
      | nil => exact next
      | cons cmd commands =>
        rw [List.append_cons]
        exact next
    | length => exact next

/-- Over every sequence of requests the ring answers as a first-in first-out list of fifteen
commands: the front is the oldest pending command, the length their number, and a push
panics, and changes nothing, just when fifteen are pending. -/
theorem commandQueue_fifo (requests : List QueueRequest) :
    (feed CommandQueue.answer .initial requests).1 = (feed Fifo.answer .empty requests).1 ∧
    (feed CommandQueue.answer .initial requests).2.Pending (feed Fifo.answer .empty requests).2.pending ∧
    accepted requests (feed CommandQueue.answer .initial requests).1 =
      (feed Fifo.answer .empty requests).2.popped ++ (feed Fifo.answer .empty requests).2.pending := by
  obtain ⟨answers, pending⟩ := feed_related (R := fun (q : CommandQueue) (f : Fifo) => q.Pending f.pending)
    (fun _ _ request pending => pending.answer request)
    (show CommandQueue.initial.Pending Fifo.empty.pending from .initial) requests
  refine ⟨answers, pending, ?_⟩
  rw [answers]
  exact Fifo.feed_accepted .empty requests

end MetalToApp

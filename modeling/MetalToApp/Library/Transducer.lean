import Mathlib.Data.List.Basic

namespace Transducer
variable {Q Q' I O E : Type*}

/-- Feed inputs to a machine that answers each of them with some outputs and a new state. -/
def feed (step : Q → I → List O × Q) (q : Q) : List I → List O × Q
  | [] => ([], q)
  | i :: rest => ((step q i).1 ++ (feed step (step q i).2 rest).1, (feed step (step q i).2 rest).2)

section
variable {step : Q → I → List O × Q} {q : Q}

@[simp] theorem feed_nil : feed step q [] = ([], q) := rfl

@[simp] theorem feed_singleton {i : I} : feed step q [i] = step q i := by
  simp [feed]

theorem feed_append {before after : List I} :
    feed step q (before ++ after) =
      ((feed step q before).1 ++ (feed step (feed step q before).2 after).1,
        (feed step (feed step q before).2 after).2) := by
  induction before generalizing q with
  | nil => simp
  | cons i rest ih => simp only [List.cons_append, feed, ih, List.append_assoc]

/-- If every block answers with one output and leads from the idle state back to it, then so does
every sequence of blocks, block by block. -/
theorem feed_blocks {block : E → List I} {answer : E → O} {events : List E}
    (one : ∀ e ∈ events, feed step q (block e) = ([answer e], q)) :
    feed step q (events.flatMap block) = (events.map answer, q) := by
  induction events with
  | nil => rfl
  | cons e rest ih =>
    rw [List.flatMap_cons, feed_append, one e List.mem_cons_self,
      ih fun e' member => one e' (List.mem_cons_of_mem e member)]
    rfl

end

/-- A machine whose steps follow another's through a map of states gives the same answers. -/
theorem feed_map {step : Q → I → List O × Q} {step' : Q' → I → List O × Q'} {embed : Q' → Q}
    (follows : ∀ q i, step (embed q) i = ((step' q i).1, embed (step' q i).2)) (q : Q') (inputs : List I) :
    feed step (embed q) inputs = ((feed step' q inputs).1, embed (feed step' q inputs).2) := by
  induction inputs generalizing q with
  | nil => rfl
  | cons i rest ih => simp only [feed, follows, ih]

/-- Two machines that answer alike in related states, and keep them related, do so over every sequence. -/
theorem feed_related {step : Q → I → List O × Q} {step' : Q' → I → List O × Q'} {R : Q → Q' → Prop} {q : Q} {q' : Q'}
    (follows : ∀ q q' i, R q q' → (step q i).1 = (step' q' i).1 ∧ R (step q i).2 (step' q' i).2) (related : R q q')
    (inputs : List I) :
    (feed step q inputs).1 = (feed step' q' inputs).1 ∧ R (feed step q inputs).2 (feed step' q' inputs).2 := by
  induction inputs generalizing q q' with
  | nil => exact ⟨rfl, related⟩
  | cons i rest ih =>
    obtain ⟨answer, next⟩ := follows q q' i related
    obtain ⟨answers, last⟩ := ih next
    exact ⟨congrArg₂ (· ++ ·) answer answers, last⟩

end Transducer

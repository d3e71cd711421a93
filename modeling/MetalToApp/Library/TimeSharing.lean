import Mathlib.Logic.Function.Basic

/-! Processes that take turns on one processor, each with a state of its own. -/

namespace TimeSharing

/-- Which process has the processor, and the state of each. -/
structure World (ι V : Type) where
  running : ι
  process : ι → V

variable {ι V : Type} [DecidableEq ι]

namespace World

/-- The running process takes a step. -/
def work (w : World ι V) (v : V) : World ι V := { w with process := Function.update w.process w.running v }

def turn (w : World ι V) (i : ι) : World ι V := { w with running := i }

theorem work_running (w : World ι V) (v : V) : (w.work v).process w.running = v := Function.update_self ..

theorem work_other {w : World ι V} {i : ι} (v : V) (other : i ≠ w.running) : (w.work v).process i = w.process i :=
  Function.update_of_ne other ..

end World

/-- The runs from `w₀` in which each process takes the steps that `Local` allows it, with the
processes that the turns went to. -/
inductive Run (Local : ι → V → V → Prop) (w₀ : World ι V) : List ι → World ι V → Prop
  | start : Run Local w₀ [] w₀
  | work {log w} (v : V) : Run Local w₀ log w → Local w.running (w.process w.running) v → Run Local w₀ log (w.work v)
  | turn {log w} (i : ι) : Run Local w₀ log w → Run Local w₀ (log ++ [i]) (w.turn i)

namespace Run
variable {Local : ι → V → V → Prop} {w₀ w : World ι V} {log : List ι} {i : ι}

theorem running_mem (run : Run Local w₀ log w) : w.running = w₀.running ∨ w.running ∈ log := by
  induction run with
  | start => exact Or.inl rfl
  | work _ _ _ ih => exact ih
  | turn i _ _ => exact Or.inr (List.mem_append_right _ List.mem_cons_self)

/-- Until its first turn a process is as it was. -/
theorem untouched (run : Run Local w₀ log w) (other : i ≠ w₀.running) (out : i ∉ log) : w.process i = w₀.process i := by
  induction run with
  | start => rfl
  | @work log w v before _ ih =>
    have runs : i ≠ w.running := by
      rintro rfl
      exact before.running_mem.elim other out
    rw [World.work_other v runs]
    exact ih out
  | turn _ _ ih => exact ih fun member => out (List.mem_append_left _ member)

end Run

end TimeSharing

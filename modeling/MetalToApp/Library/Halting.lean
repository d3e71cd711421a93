import Mathlib.Tactic.Common

/-! Computations that say in which state they failed. -/

/-- A fallible computation; a failure comes with the state that it left behind. -/
abbrev Halting (σ ε α : Type) : Type := Except (ε × σ) α

namespace Halting
variable {σ ε α β : Type}

/-- A computation that changes nothing before it fails. -/
def failing (s : σ) (x : Except ε α) : Halting σ ε α := x.mapError fun e => (e, s)

/-- The computation without the states of its failures. -/
def plain (x : Halting σ ε α) : Except ε α := x.mapError Prod.fst

variable {s : σ} {x : Halting σ ε α} {y : Except ε α} {f : α → Halting σ ε β} {a : α} {e : ε}

@[simp] theorem plain_failing (s : σ) (y : Except ε α) : plain (failing s y) = y := by cases y <;> rfl

@[simp] theorem plain_pure (a : α) : plain (pure a : Halting σ ε α) = .ok a := rfl

@[simp] theorem plain_bind (x : Halting σ ε α) (f : α → Halting σ ε β) : plain (x >>= f) = plain x >>= fun a => plain (f a) := by
  cases x <;> rfl

@[simp] theorem ok_bind (a : α) (f : α → Halting σ ε β) : (Except.ok a : Halting σ ε α) >>= f = f a := rfl

@[simp] theorem error_bind (q : ε × σ) (f : α → Halting σ ε β) : (Except.error q : Halting σ ε α) >>= f = .error q := rfl

@[simp] theorem failing_ok (s : σ) (a : α) : failing s (.ok a : Except ε α) = .ok a := rfl

@[simp] theorem failing_error (s : σ) (e : ε) : failing s (.error e : Except ε α) = .error (e, s) := rfl

/-- Both succeed alike. -/
theorem eq_ok_iff : x = .ok a ↔ plain x = .ok a := by
  cases x <;> simp [plain, Except.mapError]

end Halting

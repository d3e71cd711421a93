import Mathlib.Tactic.Common

/-- A computation that may fail, with the events it caused up to its end. -/
def Traced (ω ε α : Type) : Type := List ω × Except ε α

namespace Traced
variable {ω ε α β : Type}

-- Definitions rather than projections, so that nothing unfolds a loop to find its events.
def events (x : Traced ω ε α) : List ω := Prod.fst x
def result (x : Traced ω ε α) : Except ε α := Prod.snd x

instance : Monad (Traced ω ε) where
  pure a := ([], .ok a)
  bind x f :=
    match x.result with
    | .ok a => (x.events ++ (f a).events, (f a).result)
    | .error e => (x.events, .error e)

/-- A computation that causes no event. -/
def silent (x : Except ε α) : Traced ω ε α := ([], x)

/-- The same computation, with other names for its events. -/
def relabel {ω' : Type} (g : ω → ω') (x : Traced ω ε α) : Traced ω' ε α := (x.events.map g, x.result)

variable {ω' : Type} {x : Traced ω ε α} {f : α → Traced ω ε β} {P : ω → Prop} {Q : ω' → Prop} {g : ω → ω'} {a : α} {e : ε}

@[simp] theorem pure_result (a : α) : (pure a : Traced ω ε α).result = .ok a := rfl
@[simp] theorem pure_events (a : α) : (pure a : Traced ω ε α).events = [] := rfl
@[simp] theorem silent_result (x : Except ε α) : (silent x : Traced ω ε α).result = x := rfl
@[simp] theorem silent_events (x : Except ε α) : (silent x : Traced ω ε α).events = [] := rfl
@[simp] theorem relabel_result : (x.relabel g).result = x.result := rfl
@[simp] theorem relabel_events : (x.relabel g).events = x.events.map g := rfl

/-- Forgetting the events leaves the plain computation. -/
@[simp] theorem bind_result : (x >>= f).result = x.result >>= fun a => (f a).result := by
  obtain ⟨events, result⟩ := x
  cases result <;> rfl

theorem bind_events_ok (ok : x.result = .ok a) : (x >>= f).events = x.events ++ (f a).events := by
  obtain ⟨events, result⟩ := x
  cases ok
  rfl

theorem bind_events_error (failed : x.result = .error e) : (x >>= f).events = x.events := by
  obtain ⟨events, result⟩ := x
  cases failed
  rfl

theorem silent_ok_bind (a : α) (f : α → Traced ω ε β) : silent (.ok a) >>= f = f a := rfl

/-- All events satisfy `P`. -/
def Inside (P : ω → Prop) (x : Traced ω ε α) : Prop := ∀ a ∈ x.events, P a

@[simp] theorem inside_pure (a : α) : Inside P (pure a : Traced ω ε α) := nofun

@[simp] theorem inside_silent (x : Except ε α) : Inside P (silent x : Traced ω ε α) := nofun

/-- What follows a computation counts as far as the computation succeeds. -/
theorem inside_bind : Inside P (x >>= f) ↔ Inside P x ∧ ∀ a, x.result = .ok a → Inside P (f a) := by
  obtain ⟨events, result⟩ := x
  cases result with
  | error e => exact ⟨fun all => ⟨all, nofun⟩, fun both => both.1⟩
  | ok a =>
    constructor
    · intro all
      refine ⟨fun e member => all e (List.mem_append_left _ member), fun b same e member => ?_⟩
      cases same
      exact all e (List.mem_append_right _ member)
    · rintro ⟨first, rest⟩ e member
      rcases List.mem_append.mp member with before | after
      · exact first e before
      · exact rest a rfl e after

theorem inside_bind_ok (ok : x.result = .ok a) : Inside P (x >>= f) ↔ Inside P x ∧ Inside P (f a) := by
  refine inside_bind.trans (and_congr_right fun _ => ⟨fun all => all a ok, fun here b same => ?_⟩)
  cases ok.symm.trans same
  exact here

theorem inside_bind_error (failed : x.result = .error e) : Inside P (x >>= f) ↔ Inside P x :=
  inside_bind.trans ⟨fun both => both.1, fun here => ⟨here, fun a same => by cases failed.symm.trans same⟩⟩

end Traced

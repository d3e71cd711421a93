import Mathlib.Data.List.Basic

namespace Chain
variable {α : Type*}

/-- A singly linked list: `Linked null next p l` says that following `next` from `p`
visits exactly the cells of `l`, in order, and then reaches `null`. -/
inductive Linked (null : α) (next : α → α) : α → List α → Prop
  | nil : Linked null next null []
  | cons {p l} : p ≠ null → Linked null next (next p) l → Linked null next p (p :: l)

namespace Linked
variable {null p : α} {next next' : α → α} {l l' : List α}

theorem nil_iff : Linked null next p [] ↔ p = null := by
  constructor
  · intro h
    cases h
    rfl
  · rintro rfl
    exact .nil

theorem null_iff (h : Linked null next p l) : p = null ↔ l = [] := by
  cases h with
  | nil => simp
  | cons away => simp [away]

/-- A chain depends only on the links of its own cells. -/
theorem congr (h : Linked null next p l) (same : ∀ a ∈ l, next' a = next a) :
    Linked null next' p l := by
  induction h with
  | nil => exact .nil
  | @cons p l away _ ih =>
    refine .cons away ?_
    rw [same p List.mem_cons_self]
    exact ih fun a member => same a (List.mem_cons_of_mem _ member)

theorem unique (h : Linked null next p l) (h' : Linked null next p l') : l = l' := by
  induction h generalizing l' with
  | nil => cases h' with
    | nil => rfl
    | cons away => exact absurd rfl away
  | cons away _ ih => cases h' with
    | nil => exact absurd rfl away
    | cons _ rest => rw [ih rest]

theorem pop {a : α} (h : Linked null next p (a :: l)) : p = a ∧ Linked null next (next a) l := by
  cases h with
  | cons _ rest => exact ⟨rfl, rest⟩

end Linked

end Chain

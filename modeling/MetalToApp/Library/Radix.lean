import Mathlib.Logic.Function.Basic
import Mathlib.Tactic

namespace Radix
variable {α ι β : Type*}

/-- What a family of radix trees over shared storage consists of: the roots, the
number of link levels below each root, and the slots of a node that belong to its
tree. Paths are written from the node back to the root. -/
structure Shape (α ι : Type*) where
  isRoot : α → Prop
  height : α → Nat
  slot : α → List ι → ι → Prop

/-- A path all of whose slots belong to the tree and whose links fit its height. -/
def Shape.Path (G : Shape α ι) (r : α) : List ι → Prop
  | [] => True
  | i :: p => p.length < G.height r ∧ G.slot r p i ∧ G.Path r p

/-- Follow the links of a path from the root. -/
def descend (child : α → ι → Option α) (r : α) : List ι → Option α
  | [] => some r
  | i :: p => (descend child r p).bind fun t => child t i

/-- The content stored under a key, whose first index selects inside a last node. -/
def lookup (child : α → ι → Option α) (content : α → ι → Option β) (r : α) : List ι → Option β
  | [] => none
  | i :: p => (descend child r p).bind fun t => content t i

/-- Every node has one place: `owner` names the tree and the path of each node, the
links agree with it, and so no two places share a node. -/
structure Forest (G : Shape α ι) (child : α → ι → Option α) (owner : α → Option (α × List ι)) : Prop where
  root_owner : ∀ {r}, G.isRoot r → owner r = some (r, [])
  owner_root : ∀ {t r p}, owner t = some (r, p) → G.isRoot r
  owner_nil : ∀ {t r}, owner t = some (r, []) → t = r
  owner_height : ∀ {t r p}, owner t = some (r, p) → p.length ≤ G.height r
  child_owner : ∀ {t r p i c}, owner t = some (r, p) → p.length < G.height r → G.slot r p i →
    child t i = some c → owner c = some (r, i :: p)
  owner_child : ∀ {c r i p}, owner c = some (r, i :: p) →
    ∃ t, owner t = some (r, p) ∧ G.slot r p i ∧ child t i = some c

section addition
variable [DecidableEq α] {owner : α → Option β} {t c : α} {x y : β}

omit [DecidableEq α] in
theorem ne_of_owned (fresh : owner c = none) (owned : owner t = some x) : t ≠ c := by
  rintro rfl
  cases fresh.symm.trans owned

/-- What is owned after a node has been added was owned before, or is the new node. -/
theorem owned_or_added (owned : Function.update owner c (some y) t = some x) :
    t = c ∧ x = y ∨ t ≠ c ∧ owner t = some x := by
  by_cases new : t = c
  · subst new
    rw [Function.update_self] at owned
    exact Or.inl ⟨rfl, (Option.some.inj owned).symm⟩
  · rw [Function.update_of_ne new] at owned
    exact Or.inr ⟨new, owned⟩

theorem owned_update (fresh : owner c = none) (owned : owner t = some x) :
    Function.update owner c (some y) t = some x := by
  rw [Function.update_of_ne (ne_of_owned fresh owned), owned]

end addition

namespace Forest
variable {G : Shape α ι} {child child' : α → ι → Option α} {owner : α → Option (α × List ι)}

theorem node_unique (forest : Forest G child owner) {t t' r : α} {p : List ι}
    (first : owner t = some (r, p)) (second : owner t' = some (r, p)) : t = t' := by
  induction p generalizing t t' with
  | nil => rw [forest.owner_nil first, forest.owner_nil second]
  | cons i p ih =>
    obtain ⟨a, atA, _, linkA⟩ := forest.owner_child first
    obtain ⟨b, atB, _, linkB⟩ := forest.owner_child second
    have same := ih atA atB
    subst same
    exact Option.some.inj (linkA.symm.trans linkB)

theorem descend_eq_some_iff (forest : Forest G child owner) {r t : α} {p : List ι}
    (root : G.isRoot r) (path : G.Path r p) : descend child r p = some t ↔ owner t = some (r, p) := by
  induction p generalizing t with
  | nil =>
    constructor
    · intro start
      cases Option.some.inj start
      exact forest.root_owner root
    · intro place
      rw [forest.owner_nil place, descend]
  | cons i p ih =>
    obtain ⟨below, slot, rest⟩ := path
    constructor
    · intro run
      obtain ⟨parent, atParent, link⟩ := Option.bind_eq_some_iff.mp run
      exact forest.child_owner ((ih rest).mp atParent) below slot link
    · intro place
      obtain ⟨parent, atParent, _, link⟩ := forest.owner_child place
      exact Option.bind_eq_some_iff.mpr ⟨parent, (ih rest).mpr atParent, link⟩

theorem descend_eq_none_iff (forest : Forest G child owner) {r : α} {p : List ι}
    (root : G.isRoot r) (path : G.Path r p) : descend child r p = none ↔ ∀ t, owner t ≠ some (r, p) := by
  rw [Option.eq_none_iff_forall_not_mem]
  exact forall_congr' fun t => not_congr (forest.descend_eq_some_iff root path)

/-- Changing only what lies outside the link slots leaves the forest as it is. -/
theorem congr (forest : Forest G child owner)
    (same : ∀ t r p i, owner t = some (r, p) → p.length < G.height r → G.slot r p i →
      child' t i = child t i) : Forest G child' owner where
  root_owner := forest.root_owner
  owner_root := forest.owner_root
  owner_nil := forest.owner_nil
  owner_height := forest.owner_height
  child_owner := fun place below slot link =>
    forest.child_owner place below slot ((same _ _ _ _ place below slot).symm.trans link)
  owner_child := by
    intro c r i p place
    obtain ⟨t, atT, slot, link⟩ := forest.owner_child place
    have below : p.length < G.height r := forest.owner_height place
    exact ⟨t, atT, slot, (same t r p i atT below slot).trans link⟩

section grow
variable [DecidableEq α] {t r c : α} {p : List ι} {i : ι}

/-- Hanging a fresh node without links into a vacant slot gives a forest again. -/
theorem grow (forest : Forest G child owner) (place : owner t = some (r, p))
    (below : p.length < G.height r) (slot : G.slot r p i) (vacant : child t i = none)
    (fresh : owner c = none) (linked : child' t i = some c)
    (bare : ∀ j, G.slot r (i :: p) j → child' c j = none)
    (same : ∀ t' r' p' j, owner t' = some (r', p') → p'.length < G.height r' → G.slot r' p' j →
      (t' ≠ t ∨ j ≠ i) → child' t' j = child t' j) :
    Forest G child' (Function.update owner c (some (r, i :: p))) := by
  have split {t' r' p'} (h : Function.update owner c (some (r, i :: p)) t' = some (r', p')) :
      t' = c ∧ r' = r ∧ p' = i :: p ∨ owner t' = some (r', p') :=
    (owned_or_added h).imp (fun ⟨eq, pair⟩ => ⟨eq, Prod.mk.inj pair⟩) And.right
  have keep {t' x} (h : owner t' = some x) : Function.update owner c (some (r, i :: p)) t' = some x :=
    owned_update fresh h
  constructor
  case root_owner => exact fun root => keep (forest.root_owner root)
  case owner_root =>
    intro t' r' p' h
    rcases split h with ⟨_, rfl, _⟩ | h
    · exact forest.owner_root place
    · exact forest.owner_root h
  case owner_nil =>
    intro t' r' h
    rcases split h with ⟨_, _, impossible⟩ | h
    · cases impossible
    · exact forest.owner_nil h
  case owner_height =>
    intro t' r' p' h
    rcases split h with ⟨_, rfl, rfl⟩ | h
    · exact below
    · exact forest.owner_height h
  case child_owner =>
    intro t' r' p' j d h below' slot' link
    rcases split h with ⟨rfl, rfl, rfl⟩ | atOld
    · simp [bare j slot'] at link
    · by_cases here : t' = t ∧ j = i
      · obtain ⟨rfl, rfl⟩ := here
        cases Option.some.inj (atOld.symm.trans place)
        cases Option.some.inj (linked.symm.trans link)
        exact Function.update_self ..
      · rw [same t' r' p' j atOld below' slot' (by tauto)] at link
        exact keep (forest.child_owner atOld below' slot' link)
  case owner_child =>
    intro d r' j p' h
    rcases split h with ⟨rfl, rfl, eq⟩ | h
    · cases eq
      exact ⟨t, keep place, slot, linked⟩
    · obtain ⟨t', atT, slot', link⟩ := forest.owner_child h
      have away : t' ≠ t ∨ j ≠ i := by
        by_contra here
        push Not at here
        obtain ⟨rfl, rfl⟩ := here
        simp [vacant] at link
      exact ⟨t', keep atT, slot', (same t' r' p' j atT (forest.owner_height h) slot' away).trans link⟩

/-- A further tree starts from a fresh node without links. -/
theorem plant (forest : Forest G child owner) (fresh : owner c = none) (bare : ∀ j, G.slot c [] j → child' c j = none)
    (same : ∀ t r p i, owner t = some (r, p) → p.length < G.height r → G.slot r p i →
      child' t i = child t i) :
    Forest { G with isRoot := fun x => x = c ∨ G.isRoot x } child' (Function.update owner c (some (c, []))) := by
  have split {t' r' p'} (h : Function.update owner c (some (c, [])) t' = some (r', p')) :
      t' = c ∧ r' = c ∧ p' = [] ∨ owner t' = some (r', p') :=
    (owned_or_added h).imp (fun ⟨eq, pair⟩ => ⟨eq, Prod.mk.inj pair⟩) And.right
  have keep {t' x} (h : owner t' = some x) : Function.update owner c (some (c, [])) t' = some x :=
    owned_update fresh h
  constructor
  case root_owner =>
    rintro r' (rfl | root)
    · exact Function.update_self ..
    · exact keep (forest.root_owner root)
  case owner_root =>
    intro t' r' p' h
    rcases split h with ⟨_, rfl, _⟩ | h
    · exact Or.inl rfl
    · exact Or.inr (forest.owner_root h)
  case owner_nil =>
    intro t' r' h
    rcases split h with ⟨rfl, rfl, _⟩ | h
    · rfl
    · exact forest.owner_nil h
  case owner_height =>
    intro t' r' p' h
    rcases split h with ⟨_, _, rfl⟩ | h
    · exact Nat.zero_le _
    · exact forest.owner_height h
  case child_owner =>
    intro t' r' p' j d h below slot link
    rcases split h with ⟨rfl, rfl, rfl⟩ | h
    · simp [bare j slot] at link
    · rw [same t' r' p' j h below slot] at link
      exact keep (forest.child_owner h below slot link)
  case owner_child =>
    intro d r' j p' h
    rcases split h with ⟨_, _, impossible⟩ | h
    · cases impossible
    · obtain ⟨t', atT, slot, link⟩ := forest.owner_child h
      exact ⟨t', keep atT, slot, (same t' r' p' j atT (forest.owner_height h) slot).trans link⟩

end grow

section lookup
variable {content content' : α → ι → Option β}

/-- A lookup is decided by the node that owns the rest of the key. -/
theorem lookup_cons_of_owner (forest : Forest G child owner) {r t : α} {p : List ι} (i : ι)
    (root : G.isRoot r) (path : G.Path r p) (place : owner t = some (r, p)) :
    lookup child content r (i :: p) = content t i := by
  rw [lookup, (forest.descend_eq_some_iff root path).mpr place, Option.bind_some]

theorem lookup_cons_of_vacant (forest : Forest G child owner) {r : α} {p : List ι} (i : ι)
    (root : G.isRoot r) (path : G.Path r p) (vacant : ∀ t, owner t ≠ some (r, p)) :
    lookup child content r (i :: p) = none := by
  rw [lookup, (forest.descend_eq_none_iff root path).mpr vacant, Option.bind_none]

/-- Two forests in which each old node keeps its place and content and each new node
is empty hold the same contents. -/
theorem lookup_eq_of_extends {G' : Shape α ι} {owner' : α → Option (α × List ι)} (forest : Forest G child owner)
    (forest' : Forest G' child' owner') {r : α} {p : List ι} (i : ι) (root : G.isRoot r) (path : G.Path r p)
    (root' : G'.isRoot r) (path' : G'.Path r p)
    (extend : ∀ t, owner t = some (r, p) → owner' t = some (r, p) ∧ content' t i = content t i)
    (new : ∀ t, owner' t = some (r, p) → owner t ≠ some (r, p) → content' t i = none) :
    lookup child' content' r (i :: p) = lookup child content r (i :: p) := by
  by_cases found : ∃ t, owner t = some (r, p)
  · obtain ⟨t, place⟩ := found
    obtain ⟨place', same⟩ := extend t place
    rw [forest.lookup_cons_of_owner i root path place, forest'.lookup_cons_of_owner i root' path' place', same]
  · push Not at found
    rw [forest.lookup_cons_of_vacant i root path found]
    by_cases added : ∃ t, owner' t = some (r, p)
    · obtain ⟨t, place'⟩ := added
      rw [forest'.lookup_cons_of_owner i root' path' place', new t place' (found t)]
    · push Not at added
      exact forest'.lookup_cons_of_vacant i root' path' added

end lookup

end Forest

end Radix

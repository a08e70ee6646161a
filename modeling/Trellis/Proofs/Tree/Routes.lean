import Trellis.Tree.Basic

/-!
# Nodes and routes of a tree

The labels of a tree are listed in pre-order, and its routes, which run from the root to a leaf, in
pre-order of the leaves.  Both lists keep their order when the labels are changed (`preorder_map`,
`routes_map`), and a route goes through nodes of its tree (`mem_preorder_of_routes`).  Two trees are
alike when they have one shape and their labels stand in a relation place by place; for a relation
that determines the second label there is one tree alike at most (`alike_iff`).
-/

namespace Trellis

/-- The way from a root to a leaf: the labels above the leaf, the root first, and the leaf. -/
structure Route (α : Type u) where
  above : List α
  leaf : α
  deriving DecidableEq

namespace Route

variable {α : Type u}

/-- The route below one more node. -/
def under (a : α) (r : Route α) : Route α := ⟨a :: r.above, r.leaf⟩

/-- Every label of a route, the root first. -/
def labels (r : Route α) : List α := r.above ++ [r.leaf]

theorem labels_under (a : α) (r : Route α) : (r.under a).labels = a :: r.labels := rfl

end Route

namespace Tree

section Lists

variable {α : Type u}

mutual

/-- The routes of a tree, those through one child before those through the next. -/
def routes : Tree α → List (Route α)
  | node a [] => [⟨[], a⟩]
  | node a (t :: ts) => (routesAll (t :: ts)).map (Route.under a)

def routesAll : List (Tree α) → List (Route α)
  | [] => []
  | t :: ts => routes t ++ routesAll ts

end

end Lists

section Labels

variable {α β : Type}

mutual

/-- The labels of a tree, every node before its children. -/
def preorder : Tree α → List α
  | node a ts => a :: preorderAll ts

def preorderAll : List (Tree α) → List α
  | [] => []
  | t :: ts => preorder t ++ preorderAll ts

end

mutual

/-- The tree of the same shape with other labels. -/
def map (f : α → β) : Tree α → Tree β
  | node a ts => node (f a) (mapAll f ts)

def mapAll (f : α → β) : List (Tree α) → List (Tree β)
  | [] => []
  | t :: ts => map f t :: mapAll f ts

end

mutual

/-- Two trees of one shape, child by child in order, with related labels in each place. -/
def Alike (R : α → β → Prop) : Tree α → Tree β → Prop
  | node a ts, node b us => R a b ∧ AlikeAll R ts us

def AlikeAll (R : α → β → Prop) : List (Tree α) → List (Tree β) → Prop
  | [], [] => True
  | t :: ts, u :: us => Alike R t u ∧ AlikeAll R ts us
  | _, _ => False

end

end Labels

end Tree

/-! ## Other labels -/

namespace Route

variable {α β : Type}

/-- The route with other labels. -/
def map (f : α → β) (r : Route α) : Route β := ⟨r.above.map f, f r.leaf⟩

theorem labels_map (f : α → β) (r : Route α) : (r.map f).labels = r.labels.map f := by
  simp [labels, map]

end Route

namespace Tree

variable {α β : Type}

mutual

theorem preorder_map (f : α → β) : (t : Tree α) → (t.map f).preorder = t.preorder.map f
  | node a ts => by rw [map, preorder, preorder, List.map_cons, preorderAll_mapAll]

theorem preorderAll_mapAll (f : α → β) :
    (ts : List (Tree α)) → preorderAll (mapAll f ts) = (preorderAll ts).map f
  | [] => rfl
  | t :: ts => by
    rw [mapAll, preorderAll, preorderAll, List.map_append, preorder_map, preorderAll_mapAll]

end

mutual

theorem routes_map (f : α → β) : (t : Tree α) → (t.map f).routes = t.routes.map (Route.map f)
  | node a [] => rfl
  | node a (t :: ts) => by
    have below := routesAll_mapAll f (t :: ts)
    have under : Route.under (f a) ∘ Route.map f = Route.map f ∘ Route.under a := rfl
    rw [mapAll] at below
    rw [map, mapAll, routes, routes, below, List.map_map, List.map_map, under]

theorem routesAll_mapAll (f : α → β) :
    (ts : List (Tree α)) → routesAll (mapAll f ts) = (routesAll ts).map (Route.map f)
  | [] => rfl
  | t :: ts => by
    rw [mapAll, routesAll, routesAll, List.map_append, routes_map, routesAll_mapAll]

end

/-! ## Trees alike -/

section Alike

variable {R : α → β → Prop} {P : α → Prop} {f : α → β}

mutual

/-- Where a label stands in relation to one label at most, a tree is alike to one tree at most. -/
theorem alike_iff (single : ∀ a b, R a b ↔ P a ∧ b = f a) : (t : Tree α) → (u : Tree β) →
    (t.Alike R u ↔ (∀ a ∈ t.preorder, P a) ∧ u = t.map f)
  | node a ts, node b us => by
    rw [Alike, single, alikeAll_iff single ts us, preorder, List.forall_mem_cons, map, node.injEq,
      and_and_and_comm]

theorem alikeAll_iff (single : ∀ a b, R a b ↔ P a ∧ b = f a) :
    (ts : List (Tree α)) → (us : List (Tree β)) →
    (AlikeAll R ts us ↔ (∀ a ∈ preorderAll ts, P a) ∧ us = mapAll f ts)
  | [], [] => by simp [AlikeAll, preorderAll, mapAll]
  | [], _ :: _ => by simp [AlikeAll, mapAll]
  | _ :: _, [] => by simp [AlikeAll, mapAll]
  | t :: ts, u :: us => by
    rw [AlikeAll, alike_iff single t u, alikeAll_iff single ts us, preorderAll,
      List.forall_mem_append, mapAll, List.cons.injEq, and_and_and_comm]

end

end Alike

/-! ## The nodes on a route -/

mutual

/-- A route goes through nodes of the tree. -/
theorem mem_preorder_of_routes : (t : Tree α) → {r : Route α} → r ∈ t.routes →
    ∀ a ∈ r.labels, a ∈ t.preorder
  | node a [], r, hr => by
    cases List.mem_singleton.1 hr
    exact fun b hb => hb
  | node a (t :: ts), r, hr => by
    obtain ⟨below, hbelow, rfl⟩ := List.mem_map.1 hr
    have rest := mem_preorderAll_of_routesAll (t :: ts) hbelow
    rw [Route.labels_under, preorder]
    intro b hb
    rcases List.mem_cons.1 hb with rfl | hb
    · exact List.mem_cons_self
    · exact List.mem_cons_of_mem _ (rest b hb)

theorem mem_preorderAll_of_routesAll : (ts : List (Tree α)) → {r : Route α} → r ∈ routesAll ts →
    ∀ a ∈ r.labels, a ∈ preorderAll ts
  | [], r, hr => by cases hr
  | t :: ts, r, hr => by
    rw [routesAll, List.mem_append] at hr
    intro a ha
    rw [preorderAll, List.mem_append]
    rcases hr with here | later
    · exact .inl (mem_preorder_of_routes t here a ha)
    · exact .inr (mem_preorderAll_of_routesAll ts later a ha)

end

end Tree

end Trellis

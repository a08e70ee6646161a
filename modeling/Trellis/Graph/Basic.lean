import Trellis.Action

/-!
# Action graphs

A graph is a list of actions; the first one is where generation starts.  Beside the list stands an
index from each uid to the position of its first occurrence, which `push` keeps up to date, so a
repeated uid never hides the action that had it first.  That the index is the one of these actions
is part of the type.
-/

namespace Trellis

/-- Positions by uid, in the order in which the uids were first seen. -/
structure Index where
  entries : List (String × Nat)
  deriving DecidableEq, Repr

namespace Index

def empty : Index := ⟨[]⟩

/-- The position of a uid. -/
def find? (i : Index) (uid : String) : Option Nat := i.entries.lookup uid

/-- A uid with its position, unless it has one. -/
def insertNew (i : Index) (uid : String) (position : Nat) : Index :=
  match i.find? uid with
  | some _ => i
  | none => ⟨i.entries ++ [(uid, position)]⟩

/-- Uids with their positions, the first of which is given. -/
def addFrom (i : Index) (position : Nat) : List String → Index
  | [] => i
  | uid :: rest => (i.insertNew uid position).addFrom (position + 1) rest

/-- The index of a list of uids. -/
def ofUids (uids : List String) : Index := empty.addFrom 0 uids

theorem addFrom_snoc (i : Index) (position : Nat) (uids : List String) (uid : String) :
    i.addFrom position (uids ++ [uid])
      = (i.addFrom position uids).insertNew uid (position + uids.length) := by
  induction uids generalizing i position with
  | nil => rfl
  | cons u us ih =>
    rw [List.cons_append, addFrom, addFrom, ih, List.length_cons]
    congr 1
    omega

theorem ofUids_snoc (uids : List String) (uid : String) :
    ofUids (uids ++ [uid]) = (ofUids uids).insertNew uid uids.length := by
  rw [ofUids, ofUids, addFrom_snoc, Nat.zero_add]

end Index

structure Graph where
  actions : List Action
  index : Index
  index_eq : index = Index.ofUids (actions.map Action.uid)
  deriving DecidableEq

namespace Graph

/-- The graph without actions. -/
def empty : Graph := ⟨[], .empty, rfl⟩

/-- One more action at the end. -/
def push (g : Graph) (a : Action) : Graph where
  actions := g.actions ++ [a]
  index := g.index.insertNew a.uid g.actions.length
  index_eq := by
    rw [List.map_append, List.map_singleton, Index.ofUids_snoc, List.length_map, g.index_eq]

/-- The graph of some actions, checked for nothing. -/
def ofActions (actions : List Action) : Graph := actions.foldl push empty

/-- The first action with a uid. -/
def get? (g : Graph) (uid : String) : Option Action :=
  (g.index.find? uid).bind fun position => g.actions[position]?

/-- Some action has this uid. -/
def contains (g : Graph) (uid : String) : Bool := (g.index.find? uid).isSome

/-- The action that generation starts from. -/
def entry? (g : Graph) : Option Action := g.actions.head?

def size (g : Graph) : Nat := g.actions.length

def isEmpty (g : Graph) : Bool := g.actions.isEmpty

/-- Every single continuation of a choice written out. -/
def normalize (g : Graph) : Graph where
  actions := g.actions.map fun a => { a with successors := a.broadcast }
  index := g.index
  index_eq := by rw [List.map_map]; exact g.index_eq

theorem ofActions_nil : ofActions [] = empty := rfl

theorem ofActions_snoc (actions : List Action) (a : Action) :
    ofActions (actions ++ [a]) = (ofActions actions).push a := by
  simp [ofActions, List.foldl_append]

theorem actions_push (g : Graph) (a : Action) : (g.push a).actions = g.actions ++ [a] := rfl

theorem ext_actions {g h : Graph} (e : g.actions = h.actions) : g = h := by
  obtain ⟨actions, index, hg⟩ := g
  obtain ⟨_, _, hh⟩ := h
  subst e
  subst hg
  subst hh
  rfl

end Graph

end Trellis

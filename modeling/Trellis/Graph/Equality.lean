import Trellis.Graph.Basic

/-!
# Equal graphs

Two graphs are equal when their actions are, one by one, and their indexes have the same entries.
Options are compared as numbers are: the two zeros are equal, and what is not a number equals
nothing, so that a graph with such an option does not equal itself.
-/

namespace Trellis

namespace Completion

/-- Every field is equal, the numbers as numbers. -/
def same (c c' : Completion) : Bool :=
  c.length == c'.length && c.stop == c'.stop && c.threshold == c'.threshold
    && c.width == c'.width && c.beams == c'.beams && c.ahead == c'.ahead
    && c.diversity == c'.diversity && c.repetition == c'.repetition

end Completion

namespace Task

def same : Task → Task → Bool
  | text literal evaluate, text literal' evaluate' => literal == literal' && evaluate == evaluate'
  | choose choices threshold width, choose choices' threshold' width' =>
    choices == choices' && threshold == threshold' && width == width'
  | complete c, complete c' => c.same c'
  | _, _ => false

-- What is not a number does not equal itself, and the two zeros are equal.
example : (choose [] (some (0.0 / 0.0)) none).same (choose [] (some (0.0 / 0.0)) none) = false := by
  decide +kernel
example : (choose [] (some 0.0) none).same (choose [] (some (-0.0)) none) = true := by
  decide +kernel

end Task

namespace Action

def same (a b : Action) : Bool :=
  a.uid == b.uid && a.successors == b.successors && a.task.same b.task

end Action

namespace Index

/-- As many entries, and each of them found in the other index. -/
def same (i j : Index) : Bool :=
  i.entries.length == j.entries.length
    && i.entries.all fun (uid, position) => j.find? uid == some position

end Index

namespace Graph

/-- The same actions in the same order. -/
def sameActions (g h : Graph) : Bool := g.actions.isEqv h.actions Action.same

def same (g h : Graph) : Bool := g.sameActions h && g.index.same h.index

end Graph

end Trellis

import CallCycle.Digraph.Sweep

/-!
# Strongly connected components

Two passes.  The first goes through the graph depth first and lists the vertices by when they are
left, the last one first; so a vertex comes before all that it reaches, except where those reach it
as well.  The second takes the vertices in that order, and each one that is not yet in a component
gathers all vertices outside the earlier components that lead to it.
-/

namespace CallCycle.Digraph

open Std

/-- A step of the first pass that is still to do. -/
inductive Step (α : Type) where
  | enter (v : α)
  | leave (v : α)

/-- Lists the vertices by when they are left, the last one first, in front of `left`. -/
def leavingOrder {α : Type} [Ord α] [TransOrd α] (succ : α → List α) (unseen : TreeSet α)
    (steps : List (Step α)) (left : List α) : List α :=
  match steps with
  | [] => left
  | .leave v :: steps => leavingOrder succ unseen steps (v :: left)
  | .enter v :: steps =>
    if v ∈ unseen then
      leavingOrder succ (unseen.erase v) ((succ v).map .enter ++ .leave v :: steps) left
    else leavingOrder succ unseen steps left
termination_by (unseen.size, steps.length)
decreasing_by
  -- one step fewer
  · exact Prod.Lex.right _ (by simp)
  -- one unseen vertex fewer, whatever steps come in
  · next h =>
    have := size_meet (unseen, []) v
    simp only [meet, TreeSet.contains_iff_mem.2 h, if_true, List.length_cons,
      List.length_nil] at this
    exact Prod.Lex.left _ _ (by omega)
  -- one step fewer
  · exact Prod.Lex.right _ (by simp)

/-- Divides the unseen vertices: each of `order`, unless it was met before, gathers those that lead
    to it. -/
def gather {α : Type} [Ord α] [TransOrd α] (pred : α → List α) :
    (order : List α) → (unseen : TreeSet α) → List (List α)
  | [], _ => []
  | v :: order, unseen =>
    if v ∈ unseen then
      (reach pred unseen v).2 :: gather pred order (reach pred unseen v).1
    else gather pred order unseen

/-- The strongly connected components of a graph. -/
def components {α : Type} [Ord α] [TransOrd α] (succ pred : α → List α) (vertices : List α) :
    List (List α) :=
  let all := TreeSet.ofList vertices
  gather pred (leavingOrder succ all (vertices.map .enter) []) all

end CallCycle.Digraph

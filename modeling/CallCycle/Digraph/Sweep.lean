import Std.Data.TreeMap
import Std.Data.TreeSet

/-!
# Sweeping a directed graph

A directed graph is given by the successors of each vertex.  `sweep` follows edges from a frontier
and moves every vertex it meets out of the set of unseen vertices, until no unseen vertex is left
that an edge leads to.  Each vertex enters the frontier at most once, so the unseen vertices and
the frontier together become fewer with every step.
-/

namespace CallCycle.Digraph

open Std

variable {α : Type} [Ord α]

/-- The successors of each vertex, from a list of edges.  The last edge comes first. -/
def adjacency (edges : List (α × α)) : TreeMap α (List α) :=
  edges.foldl (fun m (a, b) => m.insert a (b :: m.getD a [])) ∅

/-- Takes a vertex out of the unseen ones and into the fresh ones, unless it was seen before. -/
def meet (state : TreeSet α × List α) (v : α) : TreeSet α × List α :=
  if state.1.contains v then (state.1.erase v, v :: state.2) else state

/-- Takes all of `vs` out of the unseen ones; the result has the fresh ones among them. -/
def meetAll (unseen : TreeSet α) (vs : List α) : TreeSet α × List α :=
  vs.foldl meet (unseen, [])

/-- A `meet` keeps the number of unseen and fresh vertices together. -/
theorem size_meet [TransOrd α] (state : TreeSet α × List α) (v : α) :
    (meet state v).1.size + (meet state v).2.length = state.1.size + state.2.length := by
  unfold meet
  split
  · next h =>
    -- a set with `v` in it is not empty, so that erasing takes one away
    have hpos : 0 < state.1.size := by
      rcases Nat.eq_zero_or_pos state.1.size with h0 | h0
      · have hempty : state.1.isEmpty = true := by simp [TreeSet.isEmpty_eq_size_eq_zero, h0]
        have := TreeSet.contains_of_isEmpty (a := v) hempty
        simp [this] at h
      · exact h0
    simp only [TreeSet.size_erase, h, if_true, List.length_cons]
    omega
  · rfl

/-- No vertex gets lost: the fresh vertices are as many as the unseen ones became fewer. -/
theorem size_meetAll [TransOrd α] (unseen : TreeSet α) (vs : List α) :
    (meetAll unseen vs).1.size + (meetAll unseen vs).2.length = unseen.size := by
  -- the fold starts from any state
  suffices h : ∀ state : TreeSet α × List α,
      (vs.foldl meet state).1.size + (vs.foldl meet state).2.length =
        state.1.size + state.2.length by
    simpa [meetAll] using h (unseen, [])
  induction vs with
  | nil => intro state; rfl
  | cons v vs ih => intro state; rw [List.foldl_cons, ih, size_meet]

/-- Follows the edges from `frontier` to unseen vertices.  The result has the vertices that stay
    unseen, and those met, in front of `found`. -/
def sweep [TransOrd α] (succ : α → List α) (unseen : TreeSet α) (frontier found : List α) :
    TreeSet α × List α :=
  match frontier with
  | [] => (unseen, found)
  | v :: frontier =>
    sweep succ (meetAll unseen (succ v)).1 ((meetAll unseen (succ v)).2 ++ frontier)
      ((meetAll unseen (succ v)).2 ++ found)
termination_by unseen.size + frontier.length
decreasing_by
  -- what `meetAll` takes out of `unseen` it puts in front, and `v` is gone
  have := size_meetAll unseen (succ v)
  simp only [List.length_append, List.length_cons]
  omega

/-- The vertices of `all` that can be reached from `v` by one edge or more. -/
def successors [TransOrd α] (succ : α → List α) (all : TreeSet α) (v : α) : List α :=
  (sweep succ all [v] []).2

/-- The vertices of `all` that can be reached from `v` by any number of edges, and those that
    cannot.  The vertex itself counts as reached. -/
def reach [TransOrd α] (succ : α → List α) (all : TreeSet α) (v : α) :
    TreeSet α × List α :=
  sweep succ (all.erase v) [v] [v]

end CallCycle.Digraph

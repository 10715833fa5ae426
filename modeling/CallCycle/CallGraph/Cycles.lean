import CallCycle.CallGraph.Basic
import CallCycle.Digraph.Components

/-!
# Recursive methods

A method is recursive if a chain of edges leads from it back to itself.  Recursive methods come in
components, whose members reach each other: the strongly connected components with more than one
member, and the single vertices that have an edge to themselves.
-/

namespace CallCycle

/-- The recursive methods of a graph. -/
structure CycleSet where
  /-- All recursive methods, in increasing order. -/
  members : List Key
  /-- The components, each in increasing order, and themselves in increasing order. -/
  components : List (List Key)
  deriving DecidableEq, Repr

namespace CycleSet

/-- Whether there is no recursive method. -/
def isEmpty (c : CycleSet) : Bool := c.members.isEmpty

/-- The number of recursive methods. -/
def size (c : CycleSet) : Nat := c.members.length

/-- Whether a method is recursive. -/
def contains (c : CycleSet) (k : Key) : Bool := c.members.contains k

end CycleSet

namespace CallGraph

/-- The sources of the edges to each vertex. -/
def sources (g : CallGraph) : Std.TreeMap Key (List Key) :=
  Digraph.adjacency (g.edgeList.map fun e => (e.target, e.source))

/-- Whether the members of a strongly connected component are recursive. -/
def isRecursive (g : CallGraph) : List Key → Bool
  | [] => false
  -- alone in its component: only a call of itself makes it recursive
  | [k] => g.hasEdge k k
  | _ => true

/-- The components of recursive methods. -/
def cycleComponents (g : CallGraph) : List (List Key) :=
  -- worked out once, as the second pass asks for every vertex
  let sources := g.sources
  let components := Digraph.components g.succ (fun k => sources.getD k []) g.vertexList
  let recursive := components.filter g.isRecursive
  (recursive.map sorted).mergeSort fun a b => (compare a b).isLE

/-- The recursive methods of a graph. -/
def cycles (g : CallGraph) : CycleSet :=
  let components := g.cycleComponents
  { members := distinct components.flatten, components }

/-- Whether any method is recursive. -/
def hasCycle (g : CallGraph) : Bool :=
  !g.cycles.isEmpty

end CallGraph

end CallCycle

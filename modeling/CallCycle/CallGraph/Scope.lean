import CallCycle.CallGraph.Basic
import CallCycle.Digraph.Sweep

/-!
# The scope of a method

What a method can reach, itself included, and the part of a call graph that lies there.  Looking
for recursion in that part only keeps recursion elsewhere out of the answer.
-/

namespace CallCycle

open Std

/-- A method that is not a vertex of the graph. -/
structure UnknownVertex where
  key : Key
  deriving DecidableEq, Repr

/-- The wording of the error. -/
def UnknownVertex.message (e : UnknownVertex) : String :=
  "Unknown vertex: " ++ e.key.display ++ " is not declared or called in the analyzed source"

namespace CallGraph

/-- The vertices that can be reached from a vertex, itself included. -/
def scope (g : CallGraph) (start : Key) : List Key :=
  (Digraph.reach g.succ g.vertexSet start).2

/-- The vertices that can be reached from a vertex, in increasing order. -/
def reachableFrom (g : CallGraph) (start : Key) : Except UnknownVertex (List Key) :=
  if g.contains start then .ok (sorted (g.scope start)) else .error ⟨start⟩

/-- The part of a graph that lies in a set of vertices, in the same order. -/
def restrict (g : CallGraph) (inside : Key → Bool) : CallGraph :=
  let part := (g.vertexList.filter inside).foldl addVertex empty
  -- the ends are there already, so that this adds no vertex
  let part := (g.edgeList.filter fun e => inside e.source && inside e.target).foldl withEdge part
  (g.skippedList.filter fun c => inside c.caller).foldl addSkipped part

/-- The part of a graph that can be reached from a vertex. -/
def extract (g : CallGraph) (start : Key) : Except UnknownVertex CallGraph :=
  if g.contains start then
    let inside := TreeSet.ofList (g.scope start)
    .ok (g.restrict inside.contains)
  else .error ⟨start⟩

end CallGraph

end CallCycle

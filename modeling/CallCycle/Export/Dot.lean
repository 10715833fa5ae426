import CallCycle.CallGraph.Cycles

/-!
# Drawing call graphs

A graph in the DOT language: a line for each vertex, in order, then a line for each edge, those of
calls in order and after them, dashed, those of dispatch, by the positions of their ends.  With a
set of recursive methods to mark, its members are red, and so are the edges between members.
-/

namespace CallCycle.Dot

open Std

/-- A text inside a label: quotes and backslashes are escaped, and a line ends flush left. -/
def escapeLabel (label : String) : List Char :=
  label.toList.flatMap fun
    | '"' => ['\\', '"']
    | '\\' => ['\\', '\\']
    | '\n' => ['\\', 'l']
    | c => [c]

/-- What a drawn vertex or edge looks like. -/
structure Attributes where
  red : Bool
  dashed : Bool := false
  deriving DecidableEq, Repr

/-- The line of a vertex. -/
def vertexLine (i : Nat) (label : String) (a : Attributes) : String :=
  "    " ++ toString i ++ " [ label = \"" ++ String.ofList (escapeLabel label) ++ "\" " ++
    (if a.red then "color = red fontcolor = red " else "") ++ "]\n"

/-- The line of an edge. -/
def edgeLine (i j : Nat) (a : Attributes) : String :=
  "    " ++ toString i ++ " -> " ++ toString j ++ " [ " ++
    (if a.dashed then "style = dashed " else "") ++ (if a.red then "color = red " else "") ++ "]\n"

/-- A drawn edge: the positions of its ends, and what it looks like. -/
structure Arrow where
  source : Nat
  target : Nat
  attributes : Attributes
  deriving DecidableEq, Repr

/-- Whether an arrow may stand in front of another: by source, then target. -/
def Arrow.le (a b : Arrow) : Bool :=
  a.source < b.source || (a.source == b.source && a.target ≤ b.target)

/-- The arrow of an edge, where `marked` are the recursive methods to mark. -/
def arrow (g : CallGraph) (marked : TreeSet Key) (e : Edge) : Arrow where
  source := (g.indexOf? e.source).getD 0
  target := (g.indexOf? e.target).getD 0
  attributes :=
    { red := marked.contains e.source && marked.contains e.target
      dashed := e.kind = .dispatches }

/-- The arrows of a graph: calls in the order of their edges, then dispatch by the positions of the
    ends.  In `edgeList` calls and dispatch may be mixed, and the order of dispatch among itself is
    arbitrary, so that the arrows are not in the order in which their edges were added. -/
def arrows (g : CallGraph) (marked : TreeSet Key) : List Arrow :=
  let all := g.edgeList.map (arrow g marked)
  -- dashed arrows are those of dispatch
  all.filter (!·.attributes.dashed) ++ (all.filter (·.attributes.dashed)).mergeSort Arrow.le

/-- The drawing of a graph, where `marked` are the recursive methods to mark. -/
def render (g : CallGraph) (marked : List Key) : String :=
  let marked := TreeSet.ofList marked
  "digraph \x7b\n" ++
    String.join (g.vertexList.zipIdx.map fun (k, i) =>
      vertexLine i k.display { red := marked.contains k }) ++
    String.join ((arrows g marked).map fun a => edgeLine a.source a.target a.attributes) ++
    "\x7d\n"

end CallCycle.Dot

namespace CallCycle.CallGraph

/-- The drawing of a graph, with its recursive methods marked or not. -/
def toDot (g : CallGraph) (highlight : Bool) : String :=
  Dot.render g (if highlight then g.cycles.members else [])

end CallCycle.CallGraph

import CallCycle.CallGraph.Json

/-!
# Snapshots of call graphs

A snapshot lists the vertices and edges of a graph by their display texts, in increasing order, so
that it does not depend on the order in which they came; edges with the same texts keep their
order.
-/

namespace CallCycle

open Json

/-- An edge by the display texts of its ends. -/
structure EdgeRow where
  source : String
  target : String
  kind : EdgeKind
  deriving DecidableEq, Repr

/-- Edges by the display texts of their ends. -/
def EdgeRow.codec : Codec EdgeRow :=
  .record "GraphEdge"
    (.cons { name := "source", codec := .string } <|
      .cons { name := "target", codec := .string } <|
        .cons { name := "kind", codec := EdgeKind.codec } .nil)
    (fun (source, target, kind, _) => ⟨source, target, kind⟩)
    (fun e => (e.source, e.target, e.kind, ()))

/-- The label of an edge, which is its kind. -/
structure EdgeLabel where
  kind : EdgeKind
  deriving DecidableEq, Repr

/-- Labels of edges. -/
def EdgeLabel.codec : Codec EdgeLabel :=
  .record "CallEdge" (.cons { name := "kind", codec := EdgeKind.codec } .nil)
    (fun (kind, _) => ⟨kind⟩) (fun e => (e.kind, ()))

/-- The parts of a graph in increasing order. -/
structure Snapshot where
  stats : CallGraph.Stats
  vertices : List String
  edges : List EdgeRow
  unresolved : List SkippedCall
  deriving DecidableEq, Repr

namespace EdgeRow

/-- The row of an edge. -/
def ofEdge (e : Edge) : EdgeRow :=
  ⟨e.source.display, e.target.display, e.kind⟩

/-- Whether a row may stand in front of another: by source, then target. -/
def le (a b : EdgeRow) : Bool :=
  ((compare a.source b.source).then (compare a.target b.target)).isLE

end EdgeRow

namespace CallGraph

/-- The edges by the display texts of their ends, in increasing order. -/
def edgeRows (g : CallGraph) : List EdgeRow :=
  (g.edgeList.map EdgeRow.ofEdge).mergeSort EdgeRow.le

/-- The snapshot of a graph. -/
def snapshot (g : CallGraph) : Snapshot where
  stats := g.stats
  vertices := (g.vertexList.map Key.display).mergeSort fun a b => (compare a b).isLE
  edges := g.edgeRows
  unresolved := g.skippedList

end CallGraph

/-- A snapshot as a value. -/
def Snapshot.toValue (s : Snapshot) : Value :=
  .object [("stats", CallGraph.Stats.codec.toValue s.stats),
    ("vertices", (Codec.list Codec.string).toValue s.vertices),
    ("edges", (Codec.list EdgeRow.codec).toValue s.edges),
    ("unresolved", (Codec.list SkippedCall.codec).toValue s.unresolved)]

/-- The snapshot of a graph as indented JSON. -/
def CallGraph.toJson (g : CallGraph) : String :=
  g.snapshot.toValue.prettyText

end CallCycle

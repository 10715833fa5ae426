import CallCycle.CallGraph.Cycles
import CallCycle.Key.Json
import CallCycle.Record.Json

/-!
# Parts of call graphs as JSON
-/

namespace CallCycle

open Json

/-- Kinds of edges. -/
def EdgeKind.codec : Codec EdgeKind :=
  .choice [("calls", .calls), ("dispatches", .dispatches)] EdgeKind.display

/-- Skipped calls.  Reason and line are written even when they are not known. -/
def SkippedCall.codec : Codec SkippedCall :=
  .record "SkippedCall"
    (.cons { name := "caller", codec := Key.codec } <|
      .cons { name := "expression", codec := .string } <|
        .cons { name := "reason", codec := .nullable .string,
                absent := some none, absentInList := none } <|
          .cons { name := "line", codec := .nullable lineCodec,
                  absent := some none, absentInList := none } .nil)
    (fun (caller, expression, reason, line, _) => ⟨caller, expression, reason, line⟩)
    (fun c => (c.caller, c.expression, c.reason, c.line, ()))

/-- The counts of a graph. -/
def CallGraph.Stats.codec : Codec CallGraph.Stats :=
  .record "GraphStats"
    (.cons { name := "vertex_count", codec := .counter } <|
      .cons { name := "edge_count", codec := .counter } <|
        .cons { name := "dispatch_edges", codec := .counter } <|
          .cons { name := "self_loops", codec := .counter } <|
            .cons { name := "unresolved_calls", codec := .counter } .nil)
    (fun (vertices, edges, dispatch, loops, unresolved, _) =>
      ⟨vertices, edges, dispatch, loops, unresolved⟩)
    (fun s => (s.vertexCount, s.edgeCount, s.dispatchEdges, s.selfLoops, s.unresolvedCalls, ()))

/-- A set of recursive methods as a value. -/
def CycleSet.toValue (c : CycleSet) : Value :=
  .object [("members", (Codec.list Key.codec).toValue c.members),
    ("components", (Codec.list (Codec.list Key.codec)).toValue c.components)]

end CallCycle

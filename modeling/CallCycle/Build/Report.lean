import CallCycle.Json.Row

/-!
# The report of a build
-/

namespace CallCycle.Build

open Json

/-- What went into a graph, in numbers. -/
structure Report where
  /-- Records taken. -/
  records : Nat := 0
  /-- Records whose declaration had come before. -/
  mergedDeclarations : Nat := 0
  /-- Records whose declaration is left out. -/
  excludedDeclarations : Nat := 0
  /-- Calls that have an edge. -/
  resolvedCalls : Nat := 0
  /-- Calls whose target is not known. -/
  unresolvedCalls : Nat := 0
  /-- Calls whose target is left out. -/
  excludedCalls : Nat := 0
  /-- Edges to methods that override a target. -/
  dispatchEdges : Nat := 0
  deriving DecidableEq, Repr

/-- Reports. -/
def Report.codec : Codec Report :=
  .record "BuildReport"
    (.cons { name := "records", codec := .counter } <|
      .cons { name := "merged_declarations", codec := .counter } <|
        .cons { name := "excluded_declarations", codec := .counter } <|
          .cons { name := "resolved_calls", codec := .counter } <|
            .cons { name := "unresolved_calls", codec := .counter } <|
              .cons { name := "excluded_calls", codec := .counter } <|
                .cons { name := "dispatch_edges", codec := .counter } .nil)
    (fun (records, merged, excluded, resolved, unresolved, excludedCalls, dispatch, _) =>
      ⟨records, merged, excluded, resolved, unresolved, excludedCalls, dispatch⟩)
    (fun r => (r.records, r.mergedDeclarations, r.excludedDeclarations, r.resolvedCalls,
      r.unresolvedCalls, r.excludedCalls, r.dispatchEdges, ()))

end CallCycle.Build

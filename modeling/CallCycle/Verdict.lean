import CallCycle.CallGraph.Cycles
import CallCycle.CallGraph.Json
import CallCycle.CallGraph.Scope

/-!
# Verdicts

An analysis finds the recursive methods of a graph, or of what a start method can reach.  Held
against an expectation it passes or fails, and a failure says what was found.  A start method that
the graph does not have is an error, and not a failure.
-/

namespace CallCycle

open Json

/-- What a check expects to find. -/
inductive Expectation where
  | noRecursion
  | recursion
  deriving DecidableEq, Repr

/-- How a check can fail. -/
inductive DiagnosticKind where
  /-- Recursion was found where none was allowed. -/
  | unwantedRecursion
  /-- No recursion was found where some was required. -/
  | missingRecursion
  deriving DecidableEq, Repr

/-- Expectations. -/
def Expectation.codec : Codec Expectation :=
  .choice [("no_recursion", .noRecursion), ("recursion", .recursion)] fun
    | .noRecursion => "no_recursion"
    | .recursion => "recursion"

/-- Kinds of failures. -/
def DiagnosticKind.codec : Codec DiagnosticKind :=
  .choice [("no_recursion_assertion_failed", .unwantedRecursion),
    ("recursion_assertion_failed", .missingRecursion)] fun
    | .unwantedRecursion => "no_recursion_assertion_failed"
    | .missingRecursion => "recursion_assertion_failed"

/-- What is found in a graph, or in the scope of a start method. -/
structure Analysis where
  start : Option Key
  cycles : CycleSet
  /-- The skipped calls in scope. -/
  unresolved : List SkippedCall
  vertexCount : Nat
  edgeCount : Nat
  deriving DecidableEq, Repr

/-- Why a check failed. -/
structure Diagnostic where
  kind : DiagnosticKind
  start : Option Key
  cycles : CycleSet
  unresolved : List SkippedCall
  deriving DecidableEq, Repr

namespace Diagnostic

/-- The recursive methods that a failure names. -/
def implicated (d : Diagnostic) : List Key := d.cycles.members

/-- The wording of a failure.  Where recursion is missing, the skipped calls are listed, as they
    may hide it. -/
def message (d : Diagnostic) : String :=
  match d.kind with
  | .unwantedRecursion =>
    "Unwanted recursion found:\n" ++ ", ".intercalate (d.cycles.members.map Key.display)
  | .missingRecursion =>
    "Wanted recursion not found:\nNo recursive call detected" ++
      (match d.start with
        | some start => " starting from " ++ start.display
        | none => "") ++
      if d.unresolved.isEmpty then ""
      else
        "\nNote: " ++ toString d.unresolved.length ++
          " unresolved call(s) were skipped and may hide recursion:" ++
          String.join (d.unresolved.map fun c => "\n  " ++ c.display)

/-- A failure as a value. -/
def toValue (d : Diagnostic) : Value :=
  .object [("kind", DiagnosticKind.codec.toValue d.kind),
    ("start", (Codec.nullable Key.codec).toValue d.start),
    ("cycles", d.cycles.toValue),
    ("unresolved", (Codec.list SkippedCall.codec).toValue d.unresolved)]

end Diagnostic

namespace Analysis

/-- What is found in a whole graph. -/
def ofGraph (start : Option Key) (g : CallGraph) : Analysis where
  start := start
  cycles := g.cycles
  unresolved := g.skippedList
  vertexCount := g.vertexCount
  edgeCount := g.edgeCount

/-- Holds an analysis against an expectation. -/
def verdict (a : Analysis) (expectation : Expectation) : Except Diagnostic Unit :=
  match expectation, a.cycles.isEmpty with
  -- recursion is there and is not wanted, or the other way round
  | .noRecursion, false => .error ⟨.unwantedRecursion, a.start, a.cycles, a.unresolved⟩
  | .recursion, true => .error ⟨.missingRecursion, a.start, a.cycles, a.unresolved⟩
  | _, _ => .ok ()

/-- An analysis as a value. -/
def toValue (a : Analysis) : Value :=
  .object [("start", (Codec.nullable Key.codec).toValue a.start),
    ("cycles", a.cycles.toValue),
    ("unresolved", (Codec.list SkippedCall.codec).toValue a.unresolved),
    ("vertex_count", .nat a.vertexCount),
    ("edge_count", .nat a.edgeCount)]

end Analysis

namespace CallGraph

/-- The part of a graph to analyse: all of it, or the scope of a start method. -/
def part (g : CallGraph) : (start : Option Key) → Except UnknownVertex CallGraph
  | none => .ok g
  | some start => g.extract start

/-- Analyses a graph, or the scope of a start method. -/
def analyze (g : CallGraph) (start : Option Key) : Except UnknownVertex Analysis :=
  (g.part start).map (.ofGraph start)

/-- Why a graph does not meet an expectation. -/
inductive CheckError where
  | failed (d : Diagnostic)
  | unknownStart (e : UnknownVertex)
  deriving DecidableEq, Repr

/-- Whether a check failed, and was not kept from being made. -/
def CheckError.isFailure : CheckError → Bool
  | failed _ => true
  | unknownStart _ => false

/-- The wording of an error. -/
def CheckError.message : CheckError → String
  | failed d => d.message
  | unknownStart e => e.message

/-- Checks that a graph, or the scope of a start method, meets an expectation. -/
def check (g : CallGraph) (start : Option Key) (expectation : Expectation) :
    Except CheckError Unit :=
  match g.analyze start with
  | .error e => .error (.unknownStart e)
  | .ok a =>
    match a.verdict expectation with
    | .error d => .error (.failed d)
    | .ok _ => .ok ()

end CallGraph

end CallCycle

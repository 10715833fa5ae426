import CallCycle.Build.Config
import CallCycle.Build.Report
import CallCycle.CallGraph.Basic
import CallCycle.Digraph.Sweep
import CallCycle.Record.Basic

/-!
# Building a call graph

Records are added one by one: each declaration and each resolved call becomes a vertex and an edge.
A method may be declared after the calls that it answers, so the edges from virtual calls to the
methods that override their target are added last, when all records are known.

A record with a problem is refused before anything of it is added.  `addRecord` and `addRecords`
pass the builder on in either case, beside the error if there is one.
-/

namespace CallCycle.Build

open Std

/-- A graph under construction. -/
structure Builder where
  rules : Rules
  policy : Policy
  /-- The methods to leave out. -/
  excluded : List Key
  graph : CallGraph
  /-- The methods declared so far. -/
  declared : TreeSet Key
  /-- Pairs of an overridden method and the method that overrides it, the last one first. -/
  overrides : List (Key × Key)
  /-- Callers and targets of virtual calls, the last one first. -/
  virtualCalls : List (Key × Key)
  report : Report

namespace Builder

/-- A builder to which nothing was added. -/
def start (rules : Rules) (policy : Policy) (excluded : List Key) : Builder where
  rules := rules
  policy := policy
  excluded := excluded
  graph := .empty
  declared := ∅
  overrides := []
  virtualCalls := []
  report := {}

/-- A builder with the given settings. -/
def ofConfig (config : Config) : Except Key.Malformed Builder :=
  config.excluded.map (start config.rules config.policy)

/-! ## Adding records -/

/-- The key of the method that a call reaches. -/
def callee (b : Builder) (call : ResolvedCall) : Key :=
  Key.ofParts b.rules call.target.owner call.target.name call.signatureTypes

/-- Adds a call in the body of `caller`. -/
def addCall (caller : Key) (b : Builder) : CallSite → Builder
  | .resolved call =>
    let target := b.callee call
    if target ∈ b.excluded then
      { b with report.excludedCalls := b.report.excludedCalls + 1 }
    else { b with
      graph := b.graph.withEdge ⟨caller, target, .calls⟩
      virtualCalls :=
        if call.dispatch = .virtual then (caller, target) :: b.virtualCalls else b.virtualCalls
      report.resolvedCalls := b.report.resolvedCalls + 1 }
  | .unresolved call => { b with
      graph := b.graph.addSkipped ⟨caller, call.expression, call.reason, call.line⟩
      report.unresolvedCalls := b.report.unresolvedCalls + 1 }

/-- Adds a method that `caller` overrides, unless it is left out. -/
def addOverride (caller : Key) (b : Builder) (base : Symbol) : Builder :=
  let base := Key.ofSymbol b.rules base
  if base ∈ b.excluded then b else { b with overrides := (base, caller) :: b.overrides }

/-- Adds the declaration of a method. -/
def declare (caller : Key) (b : Builder) : Builder :=
  { b with
    graph := b.graph.addVertex caller
    declared := b.declared.insert caller
    report.mergedDeclarations :=
      b.report.mergedDeclarations + if b.declared.contains caller then 1 else 0 }

/-- Adds a record that has no problem. -/
def add (b : Builder) (r : Record) : Builder :=
  let caller := Key.ofSymbol b.rules r.declaration
  -- counted in any case, also if its declaration is left out
  let b := { b with report.records := b.report.records + 1 }
  if caller ∈ b.excluded then
    { b with report.excludedDeclarations := b.report.excludedDeclarations + 1 }
  else
    r.calls.foldl (addCall caller) (r.overrides.foldl (addOverride caller) (b.declare caller))

/-- Adds a record, or refuses it.  The record is checked first, and counted and added only then. -/
def addRecord (b : Builder) (r : Record) : Builder × Except Record.Malformed Unit :=
  match r.check with
  -- nothing was touched so far
  | .error e => (b, .error e)
  | .ok () => (b.add r, .ok ())

/-- Adds records up to the first that is refused, and stops there with the builder that it left. -/
def addRecords (b : Builder) : List Record → Builder × Except Record.Malformed Unit
  | [] => (b, .ok ())
  | r :: rs =>
    match b.addRecord r with
    | (b, .ok ()) => addRecords b rs
    -- what was added before stays
    | (b, .error e) => (b, .error e)

/-! ## Dispatch -/

/-- All methods that override `base`, directly or through others, in increasing order, where
    `direct` has the methods that override each method directly. -/
def implementations (direct : TreeMap Key (List Key)) (base : Key) : List Key :=
  CallGraph.distinct <|
    Digraph.successors (direct.getD · []) (TreeSet.ofList direct.values.flatten) base

/-- The pairs of an overridden method and another method that overrides it. -/
def properOverrides (b : Builder) : List (Key × Key) :=
  b.overrides.filter fun (base, implementation) => base ≠ implementation

/-- The edges from virtual calls to the methods that override their target. -/
def dispatchEdges (b : Builder) : List Edge :=
  match b.policy with
  | .staticTarget => []
  | .fanOut =>
    let direct := Digraph.adjacency b.properOverrides
    -- first call first
    b.virtualCalls.reverse.flatMap fun (caller, target) =>
      (implementations direct target).map fun k => ⟨caller, k, .dispatches⟩

/-- Adds the edge of a dispatch, and counts it if there was no edge with its ends. -/
def addDispatch (b : Builder) (e : Edge) : Builder :=
  let (graph, added) := b.graph.addEdge e
  { b with
    graph
    report.dispatchEdges := b.report.dispatchEdges + if added then 1 else 0 }

/-- Adds the edges of all dispatches, one after the other. -/
def resolveDispatch (b : Builder) : Builder :=
  b.dispatchEdges.foldl addDispatch b

/-- The finished graph, and what went into it. -/
def finish (b : Builder) : CallGraph × Report :=
  (b.resolveDispatch.graph, b.resolveDispatch.report)

end Builder

/-- Why a graph cannot be built. -/
inductive Error where
  | exclusion (e : Key.Malformed)
  | record (e : Record.Malformed)
  deriving DecidableEq, Repr

/-- The wording of an error. -/
def Error.message : Error → String
  | exclusion e => e.message
  | record e => e.message

/-- Builds a graph from all records. -/
def build (config : Config) (records : List Record) : Except Error (CallGraph × Report) :=
  match Builder.ofConfig config with
  | .error e => .error (.exclusion e)
  | .ok b =>
    match b.addRecords records with
    | (b, .ok ()) => .ok b.finish
    | (_, .error e) => .error (.record e)

end CallCycle.Build

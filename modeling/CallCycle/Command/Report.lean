import CallCycle.Command.Line
import CallCycle.Command.Submission
import CallCycle.Export.Dot
import CallCycle.Export.Snapshot

/-!
# Reports

What each command prints about the contents of the files that it was given, and how it ends.
-/

namespace CallCycle.Command

open Json

/-- How a command ends. -/
inductive Ending where
  | passed
  /-- A check did not find what it expects. -/
  | failed
  | failure (e : Failure)
  /-- The command line was not well formed. -/
  | usage

/-- The number that a command ends with. -/
def Ending.exitCode : Ending → Nat
  | passed => 0
  | failed => 1
  | failure _ => 2
  | usage => 2

/-- What a command prints, and how it ends. -/
structure Outcome where
  stdout : String := ""
  ending : Ending := .passed

/-- The outcome of a command that only prints. -/
def Outcome.ofText : Except Failure String → Outcome
  | .ok text => { stdout := text }
  | .error e => { ending := .failure e }

/-! ## Checks -/

/-- What came of checking a file. -/
inductive Finding where
  | passed (a : Analysis)
  | failed (d : Diagnostic) (a : Analysis)
  | failure (e : Failure)

/-- A file and what came of checking it. -/
structure CheckReport where
  file : String
  finding : Finding

/-- Checks the content of a file. -/
def checkContent (config : Build.Config) (start : Option String) (expectation : Expectation)
    (file : String) (content : Content) : CheckReport where
  file := file
  finding :=
    match analyzeContent config start file content with
    | .error e => .failure e
    | .ok a =>
      match a.verdict expectation with
      | .ok _ => .passed a
      | .error d => .failed d a

namespace CheckReport

/-- Whether the check found what it expects. -/
def isPassed (r : CheckReport) : Bool :=
  r.finding matches .passed _

/-- Whether the check did not find what it expects. -/
def isFailed (r : CheckReport) : Bool :=
  r.finding matches .failed _ _

/-- Whether the file could not be checked. -/
def isError (r : CheckReport) : Bool :=
  r.finding matches .failure _

/-- What there is to say about a file. -/
def message? (r : CheckReport) : Option String :=
  match r.finding with
  | .passed _ => none
  | .failed d _ => some d.message
  | .failure e => some e.message

/-- The lines about a file. -/
def text (r : CheckReport) : String :=
  (match r.finding with
    | .passed _ => "✓ "
    | .failed _ _ => "✗ "
    | .failure _ => "⚠ ") ++ r.file ++ "\n" ++
  String.join ((Text.linesOf (r.message?.getD "")).map fun line => "    " ++ line ++ "\n")

/-- A report as a value. -/
def toValue (r : CheckReport) : Value :=
  .object <| [("file", .string r.file)] ++
    match r.finding with
    | .passed a => [("status", .string "passed"), ("analysis", a.toValue)]
    | .failed d a =>
      [("status", .string "failed"), ("message", .string d.message), ("analysis", a.toValue)]
    | .failure e => [("status", .string "error"), ("message", .string e.message)]

end CheckReport

/-- The lines about all files, and how many of them passed and failed. -/
def checkText (reports : List CheckReport) : String :=
  String.join (reports.map CheckReport.text) ++ "\n" ++
    toString (reports.countP CheckReport.isPassed) ++ " passed, " ++
    toString (reports.countP CheckReport.isFailed) ++ " failed\n"

/-- How a check of several files ends. -/
def checkEnding (reports : List CheckReport) : Ending :=
  if reports.any CheckReport.isError then
    -- a file that could not be checked counts more than one that failed
    .failure (.unchecked (reports.countP CheckReport.isError))
  else if reports.any CheckReport.isFailed then .failed
  else .passed

/-- The outcome of a check.  The paths of the files are texts here.  Where a path is no text, so
    that it has no JSON form, a check that prints JSON would print nothing and end with 2. -/
def checkOutcome (json : Bool) (reports : List CheckReport) : Outcome where
  stdout :=
    if json then (Value.list (reports.map CheckReport.toValue)).prettyText ++ "\n"
    else checkText reports
  ending := checkEnding reports

/-! ## Cycles -/

/-- The lines about a component. -/
def componentText (number : Nat) (component : List Key) : String :=
  "  Cycle " ++ toString number ++ "\n" ++
    String.join (component.map fun key => "    " ++ key.display ++ "\n")

/-- The lines about all components. -/
def cyclesText (c : CycleSet) : String :=
  if c.isEmpty then "✓ No recursion found\n"
  else
    "Found " ++ toString c.size ++ " recursive methods in " ++ toString c.components.length ++
      " cycles:\n\n" ++
      String.join (c.components.mapIdx fun i component => componentText (i + 1) component)

/-- What is printed about recursive methods: an indented value, or lines. -/
def cyclesPrinted (json : Bool) (c : CycleSet) : String :=
  if json then c.toValue.prettyText ++ "\n" else cyclesText c

/-- What is printed about the recursive methods in a file. -/
def cyclesReport (json : Bool) (config : Build.Config) (start : Option String) (file : String)
    (content : Content) : Except Failure String :=
  match analyzeContent config start file content with
  | .error e => .error e
  | .ok a => .ok (cyclesPrinted json a.cycles)

/-! ## Export -/

/-- A graph in a format. -/
def drawing (format : Format) (highlight : Bool) (g : CallGraph) : String :=
  match format with
  | .dot => g.toDot highlight
  | .json => g.toJson

/-- The graph in a file, or the part that a start method can reach, in a format. -/
def drawContent (format : Format) (highlight : Bool) (config : Build.Config)
    (start : Option String) (file : String) (content : Content) : Except Failure String :=
  match Submission.ofContent config start file content with
  | .error e => .error e
  | .ok s =>
    match s.part with
    | .error e => .error e
    | .ok g => .ok (drawing format highlight g)

/-! ## Status -/

/-- How many skipped calls are listed. -/
def listedCalls : Nat := 10

/-- The lines about the skipped calls. -/
def skippedText (calls : List SkippedCall) : String :=
  if calls.isEmpty then "\n✓ Every call was resolved\n"
  else
    "\n⚠ " ++ toString calls.length ++ " unresolved calls were skipped:\n" ++
      String.join ((calls.take listedCalls).map fun c => "  " ++ c.display ++ "\n") ++
      if calls.length > listedCalls then
        "  ... and " ++ toString (calls.length - listedCalls) ++ " more\n"
      else ""

/-- The numbers of a graph and of its build. -/
def statusText (s : Submission) : String :=
  let stats := s.graph.stats
  let report := s.report
  "Recursa Status\n" ++ String.ofList (List.replicate 40 '═') ++ "\n\n" ++
    "  Records: " ++ toString report.records ++ "\n" ++
    "  Methods: " ++ toString stats.vertexCount ++ "\n" ++
    "  Edges: " ++ toString stats.edgeCount ++ " (" ++ toString stats.dispatchEdges ++
      " dispatch)\n" ++
    "  Self-calls: " ++ toString stats.selfLoops ++ "\n" ++
    "  Merged duplicates: " ++ toString report.mergedDeclarations ++ "\n" ++
    "  Excluded: " ++ toString report.excludedDeclarations ++ " declarations, " ++
      toString report.excludedCalls ++ " calls\n" ++
    skippedText s.graph.skippedList

/-- What is printed about the graph in a file. -/
def statusReport (config : Build.Config) (file : String) (content : Content) :
    Except Failure String :=
  match Submission.ofContent config none file content with
  | .error e => .error e
  | .ok s => .ok (statusText s)

end CallCycle.Command

import CallCycle.Build.Builder
import CallCycle.Files.Basic
import CallCycle.Verdict

/-!
# Submissions

A file of records, built into a graph of its own, together with the method to start from.  What is
wrong with a submission is found in this order: the file cannot be read, it does not hold records,
the settings exclude something that is no method, a record is malformed, the start is no method, and
last the start is not in the graph.
-/

namespace CallCycle.Command

/-- Why a command ends without an answer. -/
inductive Failure where
  | file (e : FileError)
  | configUnreadable (path : String) (e : FileError)
  | configInvalid (path : String) (f : Json.Fault)
  | recordsUnreadable (path : String) (e : FileError)
  | recordsInvalid (path : String) (f : Json.Fault)
  | build (e : Build.Error)
  | start (e : Key.Malformed)
  | unknownStart (e : UnknownVertex)
  /-- Some files could not be checked. -/
  | unchecked (count : Nat)

/-- The wording of a failure. -/
def Failure.message : Failure → String
  | file e => e.message
  | configUnreadable path e => "Failed to read config " ++ path ++ ": " ++ e.message
  | configInvalid path f => "Invalid config " ++ path ++ ": " ++ f.message
  | recordsUnreadable path e => "Failed to read " ++ path ++ ": " ++ e.message
  | recordsInvalid path f => "Invalid record JSON in " ++ path ++ ": " ++ f.message
  | build e => e.message
  | start e => e.message
  | unknownStart e => e.message
  | unchecked count => toString count ++ " file(s) could not be checked"

/-- What came of reading a file. -/
abbrev Content := Except FileError String

/-- The settings in a file. -/
def readConfig (path : String) : Content → Except Failure Build.Config
  | .error e => .error (.configUnreadable path e)
  | .ok text =>
    match Build.Config.codec.readText text with
    | .error f => .error (.configInvalid path f)
    | .ok config => .ok config

/-- The records in a file. -/
def readRecords (path : String) : Content → Except Failure (List Record)
  | .error e => .error (.recordsUnreadable path e)
  | .ok text =>
    match Record.readAll text with
    | .error f => .error (.recordsInvalid path f)
    | .ok records => .ok records

/-- The key of a start method, by the same rules as those of the records. -/
def readStart (rules : Rules) : (start : Option String) → Except Failure (Option Key)
  | none => .ok none
  | some text =>
    match Key.parseCanonical rules text with
    | .error e => .error (.start e)
    | .ok key => .ok (some key)

/-- A file of records, built. -/
structure Submission where
  graph : CallGraph
  report : Build.Report
  start : Option Key

namespace Submission

/-- Builds the content of a file. -/
def ofContent (config : Build.Config) (start : Option String) (path : String) (content : Content) :
    Except Failure Submission :=
  match readRecords path content with
  | .error e => .error e
  | .ok records =>
    match Build.build config records with
    | .error e => .error (.build e)
    | .ok (graph, report) =>
      match readStart config.rules start with
      | .error e => .error e
      | .ok start => .ok ⟨graph, report, start⟩

/-- The part of the graph that is asked about. -/
def part (s : Submission) : Except Failure CallGraph :=
  match s.graph.part s.start with
  | .error e => .error (.unknownStart e)
  | .ok g => .ok g

end Submission

/-- Analyses the content of a file. -/
def analyzeContent (config : Build.Config) (start : Option String) (path : String)
    (content : Content) : Except Failure Analysis :=
  match Submission.ofContent config start path content with
  | .error e => .error e
  | .ok s =>
    match s.graph.analyze s.start with
    | .error e => .error (.unknownStart e)
    | .ok a => .ok a

end CallCycle.Command

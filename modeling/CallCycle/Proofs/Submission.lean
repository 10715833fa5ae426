import CallCycle.Command.Report
import CallCycle.Proofs.Exclusion
import CallCycle.Proofs.Verdict

/-!
# What a command asks about

All commands build the records of a file into a graph and ask about the part of it that is in scope.
Either there is such a part, or one of six things hinders it; checks and lists of recursive methods
come from an analysis of that part, and drawings from the part itself, so they are hindered by the
same things.

## Key results

- `asked_eq_ok_iff`, `analyzeContent_eq`, `drawContent_eq`: one graph behind all commands
- `hindered_iff`: a command is hindered iff there is no graph to ask about
- `verdict_ofGraph_iff`: a check passes unless the graph contradicts the expectation
- `exitCode_eq_two_iff`, `exitCode_of_asksAbout`: how the check of one file ends
-/

namespace CallCycle

namespace CallGraph

/-- The recursive methods of a graph, or that there are none, contradict an expectation. -/
def Contradicts (p : CallGraph) : Expectation → Prop
  | .noRecursion => ∃ m, p.OnCycle m
  | .recursion => ¬ ∃ m, p.OnCycle m

end CallGraph

namespace Command

open Build

/-- Why nothing can be said about the content of a file: it cannot be read; it does not hold
    records; a method to leave out, or the start, is no method; a record is malformed; or the start
    is not in the graph. -/
inductive Hindered (config : Build.Config) (start : Option String) (content : Content) : Prop where
  | unreadable {e : FileError} (hcontent : content = .error e)
  | notRecords {text : String} {f : Json.Fault} (hcontent : content = .ok text)
      (hread : Record.readAll text = .error f)
  | exclusion {symbol : String} {e : Key.Malformed} (hmem : symbol ∈ config.exclude)
      (hparse : Key.parse symbol = .error e)
  | start {symbol : String} {e : Key.Malformed} (hstart : start = some symbol)
      (hparse : Key.parse symbol = .error e)
  | record {text : String} {records : List Record} {r : Record} {e : Record.Malformed}
      (hcontent : content = .ok text) (hread : Record.readAll text = .ok records)
      (hmem : r ∈ records) (hcheck : r.check = .error e)
  | unknownStart {text : String} {records : List Record} {g : CallGraph} {report : Build.Report}
      {symbol : String} {key : Key} (hcontent : content = .ok text)
      (hread : Record.readAll text = .ok records)
      (hbuild : build config records = .ok (g, report)) (hstart : start = some symbol)
      (hparse : Key.parse symbol = .ok key) (hkey : key.canonicalized config.rules ∉ g.vertexList)

/-- A command asks about the graph `p`: it is built from the records in a file, and where a start is
    given, it is the part that the start can reach. -/
def AsksAbout (config : Build.Config) (start : Option String) (content : Content)
    (p : CallGraph) : Prop :=
  ∃ text records g report, content = .ok text ∧ Record.readAll text = .ok records ∧
    build config records = .ok (g, report) ∧
      (start = none ∧ g = p ∨ ∃ symbol key, start = some symbol ∧ Key.parse symbol = .ok key ∧
        g.extract (key.canonicalized config.rules) = .ok p)

/-- The start and the graph that a command asks about. -/
def asked (config : Build.Config) (start : Option String) (path : String) (content : Content) :
    Except Failure (Option Key × CallGraph) :=
  match Submission.ofContent config start path content with
  | .error e => .error e
  | .ok s => s.part.map fun p => (s.start, p)

variable {config : Build.Config} {start : Option String} {path : String} {content : Content}
  {p : CallGraph}

/-! ## One graph behind all commands -/

/-- `analyzeContent` looks at the graph that is asked about. -/
theorem analyzeContent_eq :
    analyzeContent config start path content =
      (asked config start path content).map fun found => .ofGraph found.1 found.2 := by
  rw [analyzeContent, asked]
  cases Submission.ofContent config start path content with
  | error e => rfl
  | ok s =>
    simp only [CallGraph.analyze, Submission.part]
    cases s.graph.part s.start <;> rfl

/-- `drawContent` shows the graph that is asked about. -/
theorem drawContent_eq {format : Format} {highlight : Bool} :
    drawContent format highlight config start path content =
      (asked config start path content).map fun found => drawing format highlight found.2 := by
  rw [drawContent, asked]
  cases Submission.ofContent config start path content with
  | error e => rfl
  | ok s =>
    simp only
    cases s.part <;> rfl

/-- `readRecords` gives the records that the text of a file is read as. -/
theorem readRecords_eq_ok_iff {records : List Record} :
    readRecords path content = .ok records ↔
      ∃ text, content = .ok text ∧ Record.readAll text = .ok records := by
  cases content with
  | error e => simp [readRecords]
  | ok text => cases hread : Record.readAll text <;> simp [readRecords, hread]

/-- `Submission.ofContent` reads the records, builds the graph and reads the start. -/
theorem ofContent_eq_ok_iff {s : Submission} :
    Submission.ofContent config start path content = .ok s ↔
      ∃ text records, content = .ok text ∧ Record.readAll text = .ok records ∧
        build config records = .ok (s.graph, s.report) ∧
          readStart config.rules start = .ok s.start := by
  constructor
  · intro h
    -- each of the three steps has succeeded
    rw [Submission.ofContent] at h
    split at h
    · cases h
    next records hrecords =>
    split at h
    · cases h
    next g report hbuild =>
    split at h
    · cases h
    next key hstart =>
    cases h
    obtain ⟨text, hcontent, hread⟩ := readRecords_eq_ok_iff.1 hrecords
    exact ⟨text, records, hcontent, hread, hbuild, hstart⟩
  · rintro ⟨text, records, hcontent, hread, hbuild, hstart⟩
    have hrecords : readRecords path content = .ok records :=
      readRecords_eq_ok_iff.2 ⟨text, hcontent, hread⟩
    simp only [Submission.ofContent, hrecords, hbuild, hstart]

/-- `Submission.part` is the part of the graph for the start. -/
theorem part_eq_ok_iff {s : Submission} :
    s.part = .ok p ↔ s.graph.part s.start = .ok p := by
  rw [Submission.part]
  cases s.graph.part s.start <;> simp

/-- `asked` gives the start of the submission, and the part for it. -/
theorem asked_eq_ok_iff {key : Option Key} :
    asked config start path content = .ok (key, p) ↔
      ∃ s, Submission.ofContent config start path content = .ok s ∧ s.part = .ok p ∧
        s.start = key := by
  rw [asked]
  cases Submission.ofContent config start path content with
  | error e => simp
  | ok s => cases hpart : s.part <;> simp [Except.map, hpart, and_comm]

/-- `readStart` reads a start by the rules of the records, and `part` cuts the graph down to what it
    reaches. -/
theorem readStart_part_iff {g : CallGraph} :
    (∃ key, readStart config.rules start = .ok key ∧ g.part key = .ok p) ↔
      start = none ∧ g = p ∨ ∃ symbol key, start = some symbol ∧ Key.parse symbol = .ok key ∧
        g.extract (key.canonicalized config.rules) = .ok p := by
  cases start with
  | none => simp [readStart, CallGraph.part]
  | some symbol =>
    cases hparse : Key.parse symbol with
    | error e => simp [readStart, Key.parseCanonical, hparse, Except.map]
    | ok key => simp [readStart, Key.parseCanonical, hparse, Except.map, CallGraph.part]

/-- A command `AsksAbout` a graph iff it is `asked`. -/
theorem asksAbout_iff (path : String) :
    AsksAbout config start content p ↔ ∃ key, asked config start path content = .ok (key, p) := by
  simp only [asked_eq_ok_iff, ofContent_eq_ok_iff, part_eq_ok_iff, AsksAbout,
    ← readStart_part_iff]
  constructor
  · rintro ⟨text, records, g, report, hcontent, hread, hbuild, key, hstart, hpart⟩
    exact ⟨key, ⟨g, report, key⟩, ⟨text, records, hcontent, hread, hbuild, hstart⟩, hpart, rfl⟩
  · rintro ⟨key, ⟨g, report, _⟩, ⟨text, records, hcontent, hread, hbuild, hstart⟩, hpart, rfl⟩
    exact ⟨text, records, g, report, hcontent, hread, hbuild, _, hstart, hpart⟩

/-- A command `AsksAbout` one graph at most. -/
theorem AsksAbout.unique {p' : CallGraph} (h : AsksAbout config start content p)
    (h' : AsksAbout config start content p') : p = p' := by
  obtain ⟨key, hasked⟩ := (asksAbout_iff "").1 h
  obtain ⟨key', hasked'⟩ := (asksAbout_iff "").1 h'
  rw [hasked, Except.ok.injEq, Prod.mk.injEq] at hasked'
  exact hasked'.2

/-! ## What hinders a command -/

/-- `build` gives a graph iff all methods to leave out are methods and no record is malformed. -/
theorem exists_build_iff_parse {records : List Record} :
    (∃ out, build config records = .ok out) ↔
      (∀ symbol ∈ config.exclude, ∃ key, Key.parse symbol = .ok key) ∧
        ∀ r ∈ records, r.check = .ok () := by
  -- whether a text is a method does not depend on the rules
  have hparse : ∀ symbol, (∃ key, Key.parseCanonical config.rules symbol = .ok key) ↔
      ∃ key, Key.parse symbol = .ok key := by
    intro symbol
    cases h : Key.parse symbol <;> simp [Key.parseCanonical, h, Except.map]
  simp only [exists_build_iff, Config.excluded, exists_parseKeys_iff, hparse]

/-- A command that is `Hindered` asks about no graph. -/
theorem Hindered.not_asksAbout (h : Hindered config start content) :
    ¬ AsksAbout config start content p := by
  rintro ⟨text, records, g, report, rfl, hread, hbuild, hscope⟩
  -- each of the six contradicts one step on the way to the graph
  obtain ⟨hexclude, hvalid⟩ := exists_build_iff_parse.1 ⟨_, hbuild⟩
  cases h with
  | unreadable hcontent => cases hcontent
  | notRecords hcontent hfault =>
    cases hcontent
    rw [hread] at hfault
    cases hfault
  | exclusion hmem hparse =>
    obtain ⟨key, hkey⟩ := hexclude _ hmem
    rw [hparse] at hkey
    cases hkey
  | start hstart hparse =>
    subst hstart
    obtain ⟨hnone, -⟩ | ⟨symbol, key, hsome, hkey, -⟩ := hscope
    · cases hnone
    · cases hsome
      rw [hparse] at hkey
      cases hkey
  | record hcontent hread' hmem hcheck =>
    cases hcontent
    rw [hread, Except.ok.injEq] at hread'
    subst hread'
    rw [hvalid _ hmem] at hcheck
    cases hcheck
  | unknownStart hcontent hread' hbuild' hstart hparse hkey =>
    cases hcontent
    rw [hread, Except.ok.injEq] at hread'
    subst hread'
    rw [hbuild, Except.ok.injEq, Prod.mk.injEq] at hbuild'
    obtain ⟨rfl, -⟩ := hbuild'
    subst hstart
    obtain ⟨hnone, -⟩ | ⟨symbol, key, hsome, hkey', hextract⟩ := hscope
    · cases hnone
    · cases hsome
      rw [hparse, Except.ok.injEq] at hkey'
      subst hkey'
      rw [CallGraph.extract_of_notMem hkey] at hextract
      cases hextract

/-- A command is `Hindered`, or there is a graph to ask about. -/
theorem hindered_or_asksAbout (config : Build.Config) (start : Option String) (content : Content) :
    Hindered config start content ∨ ∃ p, AsksAbout config start content p := by
  -- the first step that fails is what hinders the command
  cases content with
  | error e => exact .inl (.unreadable rfl)
  | ok text =>
  cases hread : Record.readAll text with
  | error f => exact .inl (.notRecords rfl hread)
  | ok records =>
  cases hbuild : build config records with
  | error e =>
    left
    -- without an exclusion or a record at fault the graph would have been built
    by_contra hnone
    have hsuccess : ∃ out, build config records = .ok out := by
      refine exists_build_iff_parse.2 ⟨fun symbol hmem => ?_, fun r hmem => ?_⟩
      · cases hparse : Key.parse symbol with
        | error e => exact absurd (.exclusion hmem hparse) hnone
        | ok key => exact ⟨key, rfl⟩
      · cases hcheck : r.check with
        | error e => exact absurd (.record rfl hread hmem hcheck) hnone
        | ok u => rfl
    obtain ⟨out, hout⟩ := hsuccess
    rw [hbuild] at hout
    cases hout
  | ok out =>
  obtain ⟨g, report⟩ := out
  cases start with
  | none => exact .inr ⟨g, text, records, g, report, rfl, hread, hbuild, .inl ⟨rfl, rfl⟩⟩
  | some symbol =>
  cases hparse : Key.parse symbol with
  | error e => exact .inl (.start rfl hparse)
  | ok key =>
  by_cases hkey : key.canonicalized config.rules ∈ g.vertexList
  · exact .inr ⟨_, text, records, g, report, rfl, hread, hbuild,
      .inr ⟨symbol, key, rfl, hparse, CallGraph.extract_eq_restrict hkey⟩⟩
  · exact .inl (.unknownStart rfl hread hbuild rfl hparse hkey)

/-- A command is `Hindered` iff there is no graph to ask about. -/
theorem hindered_iff : Hindered config start content ↔ ∀ p, ¬ AsksAbout config start content p := by
  refine ⟨fun h p => h.not_asksAbout, fun hnone => ?_⟩
  rcases hindered_or_asksAbout config start content with h | ⟨p, hp⟩
  · exact h
  · exact absurd hp (hnone p)

/-- A command is `Hindered` iff nothing is `asked`. -/
theorem hindered_iff_asked (path : String) :
    Hindered config start content ↔ ∃ e, asked config start path content = .error e := by
  simp only [hindered_iff, asksAbout_iff path]
  cases asked config start path content with
  | error e => simp
  | ok found => exact ⟨fun hnone => absurd ⟨found.1, rfl⟩ (hnone found.2), nofun⟩

/-! ## Verdicts -/

/-- `verdict` lets an analysis pass unless the graph contradicts the expectation. -/
theorem verdict_ofGraph_iff {key : Option Key} {expectation : Expectation} :
    (Analysis.ofGraph key p).verdict expectation = .ok () ↔ ¬ p.Contradicts expectation := by
  cases expectation with
  | noRecursion =>
    rw [Analysis.verdict_noRecursion_iff, CallGraph.Contradicts, not_exists]
    exact CallGraph.isEmpty_cycles_iff
  | recursion =>
    rw [Analysis.verdict_recursion_iff, CallGraph.Contradicts, not_not, ← not_forall_not]
    exact not_congr CallGraph.isEmpty_cycles_iff

/-- The number that a check of one file ends with. -/
def CheckReport.exitCode (r : CheckReport) : Nat :=
  match r.finding with
  | .passed _ => 0
  | .failed _ _ => 1
  | .failure _ => 2

variable {expectation : Expectation}

/-- `checkContent` ends with an error iff the check is `Hindered`. -/
theorem exitCode_eq_two_iff :
    (checkContent config start expectation path content).exitCode = 2 ↔
      Hindered config start content := by
  rw [hindered_iff_asked path, CheckReport.exitCode, checkContent, analyzeContent_eq]
  cases asked config start path content with
  | error e => simp [Except.map]
  | ok found =>
    simp only [Except.map]
    cases (Analysis.ofGraph found.1 found.2).verdict expectation <;> simp

/-- Where nothing hinders it, `checkContent` fails if the graph that it asks about contradicts the
    expectation, and passes otherwise. -/
theorem exitCode_of_asksAbout (h : AsksAbout config start content p) :
    ((checkContent config start expectation path content).exitCode = 1 ↔
      p.Contradicts expectation) ∧
    ((checkContent config start expectation path content).exitCode = 0 ↔
      ¬ p.Contradicts expectation) := by
  obtain ⟨key, hasked⟩ := (asksAbout_iff path).1 h
  rw [CheckReport.exitCode, checkContent, analyzeContent_eq, hasked, Except.map]
  cases hverdict : (Analysis.ofGraph key p).verdict expectation with
  | ok u => simp [verdict_ofGraph_iff.1 hverdict, hverdict]
  | error d =>
    -- an analysis that does not pass is contradicted
    have hcontradicts : p.Contradicts expectation := by
      by_contra hnot
      rw [verdict_ofGraph_iff.2 hnot] at hverdict
      cases hverdict
    simp [hcontradicts, hverdict]

end Command

end CallCycle

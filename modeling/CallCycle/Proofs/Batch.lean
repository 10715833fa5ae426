import CallCycle.Command.Run
import CallCycle.Files.Tree
import CallCycle.Proofs.Printed
import CallCycle.Proofs.Submission

/-!
# Checking many files

Each file is checked on its own: the report about it is the same in any company, and so is what is
printed about it; the whole ends as badly as the worst of the checks.

## Key results

- `run_loadConfig`, `run_mapM_read`: settings and files are read, and nothing is written
- `runIn_check`: the reports of a check
- `exitCode_checkEnding_cons`: one more file
- `checkText_eq`: the lines about the files, and how many of them passed and failed
- `check_batch`: a check of many files, and of one
-/

namespace CallCycle.Command

variable {t : FileTree}

/-! ## Questions in a file tree -/

/-- `present` is asked of the tree. -/
@[simp] theorem run_present (path : String) :
    (Files.present path : StateM FileTree Bool).run t = pure (t.present path, t) := rfl

/-- `read` is asked of the tree. -/
@[simp] theorem run_read (path : String) :
    (Files.read path : StateM FileTree Content).run t = pure (t.read path, t) := rfl

/-- `loadConfig` writes nothing. -/
theorem run_loadConfig (settings : Option String) :
    ((loadConfig settings : StateM FileTree (Except Failure Build.Config)).run t).2 = t := by
  cases settings with
  | some path => rfl
  | none =>
    simp only [loadConfig, StateT.run_bind, run_present, pure_bind]
    split <;> rfl

/-- `read` gives the files one after the other from the same tree. -/
theorem run_mapM_read {α : Type} (f : String → Content → α) (files : List String) :
    (files.mapM fun file => do return f file (← Files.read file) : StateM FileTree (List α)).run t =
      pure (files.map fun file => f file (t.read file), t) := by
  induction files with
  | nil => rfl
  | cons file files ih =>
    simp only [List.mapM_cons, StateT.run_bind, run_read, StateT.run_pure, pure_bind, ih,
      List.map_cons]

/-- What comes of a question in a file tree, and the tree afterwards. -/
def Query.runIn (q : Query) (verbose : Bool) (settings : Option String) (t : FileTree) :
    Outcome × FileTree :=
  (execute ⟨verbose, settings, .query q⟩ : StateM FileTree Outcome).run t

/-- `runIn` answers the question if there are settings. -/
theorem runIn_of_config {q : Query} {verbose : Bool} {settings : Option String}
    {config : Build.Config}
    (h : ((loadConfig settings : StateM FileTree (Except Failure Build.Config)).run t).1 =
      .ok config) :
    q.runIn verbose settings t = (answer config q : StateM FileTree Outcome).run t := by
  -- the settings are read, and the tree stays as it is
  have hload : (loadConfig settings : StateM FileTree (Except Failure Build.Config)).run t =
      pure (.ok config, t) := Prod.ext h (run_loadConfig settings)
  simp only [Query.runIn, execute, StateT.run_bind, hload, pure_bind]

/-- `runIn` fails if there are no settings. -/
theorem runIn_of_error {q : Query} {verbose : Bool} {settings : Option String} {e : Failure}
    (h : ((loadConfig settings : StateM FileTree (Except Failure Build.Config)).run t).1 =
      .error e) :
    q.runIn verbose settings t = ({ ending := .failure e }, t) := by
  have hload : (loadConfig settings : StateM FileTree (Except Failure Build.Config)).run t =
      pure (.error e, t) := Prod.ext h (run_loadConfig settings)
  simp only [Query.runIn, execute, StateT.run_bind, hload, pure_bind]
  rfl

/-- `answer` makes a report about each file. -/
theorem run_answer_check (config : Build.Config) (files : List String) (start : Option String)
    (expectation : Expectation) (json : Bool) :
    (answer config (.check files start expectation json) : StateM FileTree Outcome).run t =
      (checkOutcome json (files.map fun file =>
        checkContent config start expectation file (t.read file)), t) := by
  have hread := run_mapM_read (t := t) (checkContent config start expectation) files
  simp only [answer, StateT.run_bind, hread, pure_bind]
  rfl

/-! ## How a check ends -/

/-- `checkEnding` looks for files that could not be checked first, and then for those that
    failed. -/
theorem exitCode_checkEnding (rs : List CheckReport) :
    (checkEnding rs).exitCode =
      if rs.any CheckReport.isError then 2 else if rs.any CheckReport.isFailed then 1 else 0 := by
  rw [checkEnding]
  split
  · rfl
  · split <;> rfl

/-- `checkEnding` is no better with one more file, and worse only if that file's own end is
    worse. -/
theorem exitCode_checkEnding_cons (r : CheckReport) (rs : List CheckReport) :
    (checkEnding (r :: rs)).exitCode = max r.exitCode (checkEnding rs).exitCode := by
  obtain ⟨file, finding⟩ := r
  simp only [exitCode_checkEnding, List.any_cons, CheckReport.exitCode]
  -- a file that passed changes nothing, one that failed is only surpassed by an error
  cases finding with
  | passed a => simp [CheckReport.isError, CheckReport.isFailed]
  | failed d a =>
    simp only [CheckReport.isError, CheckReport.isFailed, Bool.false_or, Bool.true_or, if_true]
    split
    · rfl
    · split <;> rfl
  | failure e =>
    simp only [CheckReport.isError, Bool.true_or, if_true]
    split
    · rfl
    · split <;> rfl

/-- `checkEnding` of one file is its own end. -/
theorem exitCode_checkEnding_singleton (r : CheckReport) :
    (checkEnding [r]).exitCode = r.exitCode := by
  rw [exitCode_checkEnding_cons]
  exact Nat.max_zero _

/-- `checkEnding` is as bad as the worst of the reports. -/
theorem max?_exitCode {rs : List CheckReport} (h : rs ≠ []) :
    (rs.map CheckReport.exitCode).max? = some (checkEnding rs).exitCode := by
  induction rs with
  | nil => exact absurd rfl h
  | cons r rs ih =>
    rw [exitCode_checkEnding_cons, List.map_cons, List.max?_cons]
    -- the last file is its own maximum
    cases rs with
    | nil => simp [checkEnding, Ending.exitCode]
    | cons r' rs =>
      rw [ih (by simp)]
      rfl

/-! ## What a check prints -/

/-- `isPassed` holds of a report iff the check of its file alone ends with 0. -/
theorem isPassed_eq (r : CheckReport) : r.isPassed = decide (r.exitCode = 0) := by
  obtain ⟨file, finding⟩ := r
  cases finding <;> rfl

/-- `isFailed` holds of a report iff the check of its file alone ends with 1. -/
theorem isFailed_eq (r : CheckReport) : r.isFailed = decide (r.exitCode = 1) := by
  obtain ⟨file, finding⟩ := r
  cases finding <;> rfl

/-- `checkText` has the lines about each file in order, and counts the checks by how they end. -/
theorem checkText_eq (rs : List CheckReport) :
    checkText rs = String.join (rs.map CheckReport.text) ++ "\n" ++
      toString (rs.countP fun r => r.exitCode = 0) ++ " passed, " ++
      toString (rs.countP fun r => r.exitCode = 1) ++ " failed\n" := by
  simp only [checkText, ← isPassed_eq, ← isFailed_eq]

section

variable {settings : Option String} {config : Build.Config}
  (hconfig : ((loadConfig settings : StateM FileTree (Except Failure Build.Config)).run t).1 =
    .ok config)

include hconfig

/-- `runIn` of a check, from the reports about the files. -/
theorem runIn_check {verbose : Bool} {files : List String} {start : Option String}
    {expectation : Expectation} {json : Bool} :
    (Query.check files start expectation json).runIn verbose settings t =
      (checkOutcome json (files.map fun file =>
        checkContent config start expectation file (t.read file)), t) :=
  (runIn_of_config hconfig).trans (run_answer_check config files start expectation json)

/-- `runIn` of a check of one file ends as the report about it says. -/
theorem exitCode_runIn_check {verbose : Bool} {file : String} {start : Option String}
    {expectation : Expectation} {json : Bool} :
    ((Query.check [file] start expectation json).runIn verbose settings t).1.ending.exitCode =
      (checkContent config start expectation file (t.read file)).exitCode := by
  rw [runIn_check hconfig]
  exact exitCode_checkEnding_singleton _

end

/-- A `Query.check` of many files is one of each of them.  The reports are, in order, those of the
    checks of the single files.  What is printed are the lines about the single files in order, and
    how many of the single checks end with 0 and with 1; or a list of the same items that the checks
    of the single files print.  The end is the worst of theirs.  A single file ends with 2 iff it is
    `Hindered`, else with 1 iff the graph that it asks about `Contradicts` the expectation, and else
    with 0.  Nothing is written. -/
theorem check_batch {settings : Option String} {config : Build.Config}
    (hconfig : ((loadConfig settings : StateM FileTree (Except Failure Build.Config)).run t).1 =
      .ok config)
    (verbose : Bool) {files : List String} (hfiles : files ≠ []) (start : Option String)
    (expectation : Expectation) (json : Bool) :
    let check files := (Query.check files start expectation json).runIn verbose settings t
    let exitCode files := (check files).1.ending.exitCode
    let report file := checkContent config start expectation file (t.read file)
    check files = (checkOutcome json (files.map report), t) ∧
    (∀ file ∈ files, check [file] = (checkOutcome json [report file], t)) ∧
    (json = false → ∀ files, (check files).1.stdout =
      String.join (files.map fun file => (report file).text) ++ "\n" ++
        toString (files.countP fun file => exitCode [file] = 0) ++ " passed, " ++
        toString (files.countP fun file => exitCode [file] = 1) ++ " failed\n") ∧
    (json = true → ∃ item : String → Json.Item, ∀ files,
      Json.itemsOf (check files).1.stdout.toList = [.list (files.map item) .closed]) ∧
    (files.map fun file => exitCode [file]).max? = some (exitCode files) ∧
    ∀ file ∈ files,
      (exitCode [file] = 2 ↔ Hindered config start (t.read file)) ∧
      (¬ Hindered config start (t.read file) → ∃ p, AsksAbout config start (t.read file) p ∧
        (exitCode [file] = 1 ↔ p.Contradicts expectation) ∧
        (exitCode [file] = 0 ↔ ¬ p.Contradicts expectation)) := by
  intro check exitCode report
  -- the end of a check of one file is in its report
  have halone : ∀ file, exitCode [file] = (report file).exitCode :=
    fun file => exitCode_runIn_check hconfig
  have hall : exitCode files = (checkEnding (files.map report)).exitCode := by
    simp only [exitCode, check, runIn_check hconfig]
    rfl
  -- what is printed comes from the reports, whichever files they are about
  have hprinted : ∀ files, (check files).1.stdout = (checkOutcome json (files.map report)).stdout :=
    fun files => congrArg (·.1.stdout) (runIn_check hconfig)
  refine ⟨runIn_check hconfig, fun file _ => runIn_check hconfig, fun hjson files => ?_,
    fun hjson => ⟨fun file => (report file).toValue.item, fun files => ?_⟩, ?_,
    fun file _ => ⟨?_, ?_⟩⟩
  · rw [hprinted, hjson]
    simp only [halone]
    refine (checkText_eq _).trans ?_
    rw [List.map_map, List.countP_map, List.countP_map]
    rfl
  · rw [hprinted, hjson, itemsOf_checkOutcome, List.map_map]
    rfl
  · have hmax := max?_exitCode (show files.map report ≠ [] by simpa using hfiles)
    rw [List.map_map] at hmax
    simp only [halone, hall]
    exact hmax
  · rw [halone]
    exact exitCode_eq_two_iff
  · intro hnone
    obtain ⟨p, hp⟩ := (hindered_or_asksAbout config start (t.read file)).resolve_left hnone
    rw [halone]
    exact ⟨p, hp, exitCode_of_asksAbout hp⟩

/-! ## A file with a loop -/

/-- A method that calls itself. -/
def loopRecords : List Record :=
  [{ declaration := ⟨"Loop", "turn", ["int"]⟩
     calls := [.resolved { target := ⟨"Loop", "turn", ["int"]⟩ }] }]

/-- A folder with that method in a file. -/
def loopTree : FileTree :=
  (FileTree.empty "/work").put ["loop.json"] (.text (Record.writeAll loopRecords))

/-- `loadConfig` without a file of settings gives the default settings. -/
theorem loadConfig_loopTree :
    ((loadConfig none : StateM FileTree (Except Failure Build.Config)).run loopTree).1 = .ok {} :=
  rfl

/-- The file of `loopTree` asks about a graph with one recursive method. -/
theorem asksAbout_loop :
    ∃ p, AsksAbout {} none (loopTree.read "loop.json") p ∧
      ∀ k, p.OnCycle k ↔ k = ⟨"Loop", "turn", ["int"]⟩ := by
  have hread : Record.readAll (Record.writeAll loopRecords) = .ok loopRecords := by
    rw [Record.readAll_writeAll]
    exact Json.Codec.readText_writeText (Json.Codec.agrees_list Record.agrees_codec)
      (Json.Codec.lawful_list (Record.lawful_codec 121)) loopRecords
  have hvalid : ∀ r ∈ loopRecords, r.check = .ok () := by decide
  have hexcluded : ({} : Build.Config).excluded = .ok [] := rfl
  obtain ⟨g, report, hbuild⟩ := Build.exists_build hexcluded hvalid
  -- the records are few, so the graph is computed
  have hcomputed : (Build.build {} loopRecords).map (·.1.edgeList) =
      .ok [⟨⟨"Loop", "turn", ["int"]⟩, ⟨"Loop", "turn", ["int"]⟩, .calls⟩] := by
    decide +kernel
  have hedges : g.edgeList = [⟨⟨"Loop", "turn", ["int"]⟩, ⟨"Loop", "turn", ["int"]⟩, .calls⟩] := by
    simpa [hbuild, Except.map] using hcomputed
  -- there is one edge, from the method to itself
  have hadj : ∀ a b, g.Adj a b ↔ ⟨"Loop", "turn", ["int"]⟩ = a ∧ ⟨"Loop", "turn", ["int"]⟩ = b := by
    simp [CallGraph.adj_iff, hedges]
  refine ⟨g, ⟨_, loopRecords, g, report, rfl, hread, hbuild, .inl ⟨rfl, rfl⟩⟩, fun k => ?_⟩
  constructor
  · intro hk
    obtain ⟨b, hstep, -⟩ := Relation.TransGen.head'_iff.1 hk
    exact ((hadj k b).1 hstep).1.symm
  · rintro rfl
    exact .single ((hadj _ _).2 ⟨rfl, rfl⟩)

/-- In `loopTree`, the file with recursion fails, and one that is not there hinders the check of
    both.  What is printed about both ends with a line about the one that failed. -/
theorem check_batch_loop :
    let check files := ((Query.check files none .noRecursion false).runIn false none loopTree).1
    let exitCode files := (check files).ending.exitCode
    exitCode ["loop.json"] = 1 ∧ exitCode ["lost.json"] = 2 ∧
      exitCode ["loop.json", "lost.json"] = 2 ∧
      ∃ lines, (check ["loop.json", "lost.json"]).stdout = lines ++ "\n0 passed, 1 failed\n" := by
  intro check exitCode
  obtain ⟨-, -, hprinted, -, hmax, hfile⟩ := check_batch loadConfig_loopTree false
    (show ["loop.json", "lost.json"] ≠ [] by decide) none .noRecursion false
  obtain ⟨p, hp, hcycle⟩ := asksAbout_loop
  -- the method that calls itself contradicts the expectation
  have hloop : exitCode ["loop.json"] = 1 := by
    obtain ⟨-, hasks⟩ := hfile "loop.json" (by decide)
    obtain ⟨p', hp', hone, -⟩ := hasks fun hindered => hindered.not_asksAbout hp
    rw [hp'.unique hp] at hone
    exact hone.2 ⟨_, (hcycle _).2 rfl⟩
  have hlost : exitCode ["lost.json"] = 2 :=
    (hfile "lost.json" (by decide)).1.2 (.unreadable rfl)
  have hboth : [exitCode ["loop.json"], exitCode ["lost.json"]].max? =
    some (exitCode ["loop.json", "lost.json"]) := hmax
  rw [hloop, hlost] at hboth
  -- one of the two files failed, and none passed
  have hcount : ∀ n, (["loop.json", "lost.json"].countP fun file => exitCode [file] = n) =
      [1, 2].countP (· = n) := by
    intro n
    simp only [List.countP_cons, List.countP_nil, hloop, hlost]
  have hlines := hprinted rfl ["loop.json", "lost.json"]
  rw [show List.countP _ _ = _ from hcount 0, show List.countP _ _ = _ from hcount 1] at hlines
  simp only [String.append_assoc] at hlines
  exact ⟨hloop, hlost, (Option.some.inj hboth).symm, _, hlines⟩

end CallCycle.Command

import CallCycle.Proofs.Batch
import CallCycle.Proofs.Drawing

/-!
# Commands agree

A check that no recursion is there, the list of recursive methods and the drawings of a file come
from one graph.  They are hindered by the same things, and otherwise tell the same about it.

## Key results

- `runIn_cycles`, `runIn_draw`: lists and drawings, from the graph that is asked about
- `Dot.mem_members_iff_showsRed`: the recursive methods are red
- `finding_of_asked`, `checkContent_of_asked`: what a check tells about the graph
- `checkText_of_asked`: the lines that a check prints about the graph
- `commands_agree`: all commands together
-/

namespace CallCycle

/-- `toDot` shows the recursive methods in red, and no others, if they are marked. -/
theorem Dot.mem_members_iff_showsRed {p : CallGraph} {k : Key} :
    k ∈ p.cycles.members ↔
      ∃ i, p.vertexList[i]? = some k ∧ showsRed (p.toDot true) i = true := by
  constructor
  · intro hk
    have hvertex : k ∈ p.vertexList := (CallGraph.mem_members_iff.1 hk).mem_vertexList
    obtain ⟨i, hi⟩ := List.mem_iff_getElem?.1 hvertex
    exact ⟨i, hi, (showsRed_render_iff hi).2 hk⟩
  · rintro ⟨i, hi, hred⟩
    exact (showsRed_render_iff hi).1 hred

namespace Command

open Json

variable {t : FileTree} {config : Build.Config} {start : Option String}

/-! ## Lists and drawings -/

/-- `cyclesReport` is about the graph that is asked about. -/
theorem cyclesReport_eq {json : Bool} {path : String} {content : Content} :
    cyclesReport json config start path content =
      (asked config start path content).map fun found => cyclesPrinted json found.2.cycles := by
  rw [cyclesReport, analyzeContent_eq]
  cases asked config start path content <;> rfl

/-- `ofText` ends with an error iff there is nothing to print. -/
theorem exitCode_ofText_map {α : Type} {x : Except Failure α} {f : α → String} :
    (Outcome.ofText (x.map f)).ending.exitCode = 2 ↔ ∃ e, x = .error e := by
  cases x <;> simp [Except.map, Outcome.ofText, Ending.exitCode]

section

variable {settings : Option String} {verbose highlight json : Bool} {file : String}
  {format : Format}
  (hconfig : ((loadConfig settings : StateM FileTree (Except Failure Build.Config)).run t).1 =
    .ok config)

include hconfig

/-- `runIn` of a list gives the recursive methods of the graph that is asked about. -/
theorem runIn_cycles :
    (Query.cycles file start json).runIn verbose settings t =
      (.ofText ((asked config start file (t.read file)).map fun found =>
        cyclesPrinted json found.2.cycles), t) := by
  rw [runIn_of_config hconfig, ← cyclesReport_eq]
  rfl

/-- `runIn` of a drawing that is printed shows the graph that is asked about. -/
theorem runIn_draw :
    (Query.draw file none format start highlight).runIn verbose settings t =
      (.ofText ((asked config start file (t.read file)).map fun found =>
        drawing format highlight found.2), t) := by
  rw [runIn_of_config hconfig, ← drawContent_eq]
  simp only [answer, StateT.run_bind, run_read, pure_bind]
  cases drawContent format highlight config start file (t.read file) <;> rfl

variable {key : Option Key} {p : CallGraph}
  (hasked : asked config start file (t.read file) = .ok (key, p))

include hasked in
/-- `runIn` of a list prints the recursive methods of the graph, where there is one to ask about. -/
theorem runIn_cycles_of_asked :
    (Query.cycles file start json).runIn verbose settings t =
      ({ stdout := cyclesPrinted json p.cycles }, t) := by
  rw [runIn_cycles hconfig, hasked]
  rfl

include hasked in
/-- `runIn` of a drawing prints the graph, where there is one to ask about. -/
theorem runIn_draw_of_asked :
    (Query.draw file none format start highlight).runIn verbose settings t =
      ({ stdout := drawing format highlight p }, t) := by
  rw [runIn_draw hconfig, hasked]
  rfl

/-- `runIn` of a list ends with an error iff it is hindered. -/
theorem exitCode_runIn_cycles :
    ((Query.cycles file start json).runIn verbose settings t).1.ending.exitCode = 2 ↔
      Hindered config start (t.read file) := by
  rw [runIn_cycles hconfig, exitCode_ofText_map, hindered_iff_asked file]

/-- `runIn` of a drawing ends with an error iff it is hindered. -/
theorem exitCode_runIn_draw :
    ((Query.draw file none format start highlight).runIn verbose settings t).1.ending.exitCode = 2 ↔
      Hindered config start (t.read file) := by
  rw [runIn_draw hconfig, exitCode_ofText_map, hindered_iff_asked file]

end

/-! ## Checks -/

section

variable {path : String} {content : Content} {key : Option Key} {p : CallGraph}
  (h : asked config start path content = .ok (key, p))

include h

/-- `checkContent` for no recursion passes iff the graph that is asked about has no recursive
    method, and otherwise fails with all of them. -/
theorem finding_of_asked :
    (checkContent config start .noRecursion path content).finding =
      if p.cycles.members = [] then .passed (.ofGraph key p)
      else .failed ⟨.unwantedRecursion, key, p.cycles, p.skippedList⟩ (.ofGraph key p) := by
  have hanalyze : analyzeContent config start path content = .ok (.ofGraph key p) := by
    rw [analyzeContent_eq, h]
    rfl
  -- the verdict looks at whether there is any recursive method
  cases hempty : p.cycles.isEmpty with
  | true =>
    have hverdict : (Analysis.ofGraph key p).verdict .noRecursion = .ok () :=
      Analysis.verdict_noRecursion_iff.2 hempty
    simp [checkContent, hanalyze, hverdict, List.isEmpty_iff.1 hempty]
  | false =>
    have hverdict : (Analysis.ofGraph key p).verdict .noRecursion =
        .error ⟨.unwantedRecursion, key, p.cycles, p.skippedList⟩ := by
      simp [Analysis.verdict, Analysis.ofGraph, hempty]
    simp [checkContent, hanalyze, hverdict, List.isEmpty_eq_false_iff.1 hempty]

/-- `checkContent` for no recursion analyses the graph that is asked about.  It fails iff the graph
    has recursive methods, and names them. -/
theorem checkContent_of_asked :
    let report := checkContent config start .noRecursion path content
    report.analysis? = some (.ofGraph key p) ∧
    (report.exitCode = 1 ↔ p.cycles.members ≠ []) ∧
    (p.cycles.members ≠ [] → report.message? = some
      ("Unwanted recursion found:\n" ++ ", ".intercalate (p.cycles.members.map Key.display))) := by
  intro report
  have hfinding : report.finding = _ := finding_of_asked h
  by_cases hmembers : p.cycles.members = []
  · rw [if_pos hmembers] at hfinding
    simp [CheckReport.analysis?, CheckReport.exitCode, hfinding, hmembers]
  · rw [if_neg hmembers] at hfinding
    simp [CheckReport.analysis?, CheckReport.exitCode, CheckReport.message?, Diagnostic.message,
      hfinding, hmembers]

/-- The lines that `checkText` prints about a check: one for a graph without recursive methods, and
    otherwise two more, of which the last names the recursive methods in order. -/
theorem checkText_of_asked :
    let text := checkText [checkContent config start .noRecursion path content]
    (p.cycles.members = [] → text = "✓ " ++ path ++ "\n\n1 passed, 0 failed\n") ∧
    (p.cycles.members ≠ [] → (∀ k ∈ p.cycles.members, '\n' ∉ k.display.toList) →
      text = "✗ " ++ path ++ "\n    Unwanted recursion found:\n    " ++
        ", ".intercalate (p.cycles.members.map Key.display) ++ "\n\n0 passed, 1 failed\n") := by
  intro text
  have hfinding := finding_of_asked h
  refine ⟨fun hmembers => ?_, fun hmembers hfeed => ?_⟩
  · rw [if_pos hmembers] at hfinding
    exact checkText_of_passed hfinding
  · rw [if_neg hmembers] at hfinding
    -- no name breaks the line of names
    have htext := checkText_of_failed hfinding
    rw [linesOf_unwanted rfl hmembers hfeed] at htext
    refine htext.trans ?_
    simp only [List.map_cons, List.map_nil, String.join_cons, String.join_nil, String.append_assoc]
    rfl

end

/-! ## All commands -/

/-- A check that no recursion is there, the list of recursive methods and the printed drawings of a
    file agree, whatever the files and the settings are.  They end with an error together.
    Otherwise, the check fails iff the list has a member, and names the members in order; they are
    what the drawing shows in red; and the analysis of the check counts as many vertices and edges
    as the snapshot.

    All of this is read from what is printed.  The JSON form of the list is read as the set `c`.
    Its lines say that there is no recursion iff `c` is empty; if no name has a line feed, they name
    exactly the members of `c`, and the lines of the check name them in order.  The JSON form of the
    check has the message, and the same counts as the JSON form of the drawing. -/
theorem commands_agree (t : FileTree) (verbose : Bool) (settings : Option String) (file : String)
    (start : Option String) :
    let outcome (q : Query) := (q.runIn verbose settings t).1
    let check json := outcome (.check [file] start .noRecursion json)
    let cycles json := outcome (.cycles file start json)
    let draw format highlight := outcome (.draw file none format start highlight)
    (∀ json json' format highlight,
      ((check json).ending.exitCode = 2 ↔ (cycles json').ending.exitCode = 2) ∧
      ((check json).ending.exitCode = 2 ↔ (draw format highlight).ending.exitCode = 2)) ∧
    ((cycles false).ending.exitCode ≠ 2 →
      ∃ (report : CheckReport) (a : Analysis) (c : CycleSet) (p : CallGraph),
        (∀ json, check json = checkOutcome json [report]) ∧ report.analysis? = some a ∧
        (∀ json, cycles json = { stdout := cyclesPrinted json c }) ∧
        (∀ format highlight, draw format highlight = { stdout := drawing format highlight p }) ∧
        (∀ json, (check json).ending.exitCode = 1 ↔ c.members ≠ []) ∧
        (c.members ≠ [] → report.message? = some
          ("Unwanted recursion found:\n" ++ ", ".intercalate (c.members.map Key.display))) ∧
        (∀ k, k ∈ c.members ↔ ∃ i, p.vertexList[i]? = some k ∧
          Dot.showsRed (draw .dot true).stdout i = true) ∧
        a.vertexCount = p.snapshot.stats.vertexCount ∧
        a.edgeCount = p.snapshot.stats.edgeCount ∧
        -- the list of recursive methods, as JSON and line by line
        CycleSet.codec.readText (cycles true).stdout = .ok c ∧
        ((cycles false).stdout = "✓ No recursion found\n" ↔ c.members = []) ∧
        ((∀ k ∈ c.members, '\n' ∉ k.display.toList) → ∀ name,
          "    " ++ name ∈ Text.linesOf (cycles false).stdout ↔
            ∃ k ∈ c.members, k.display = name) ∧
        -- the check, line by line and as JSON
        (c.members = [] → (check false).stdout = "✓ " ++ file ++ "\n\n1 passed, 0 failed\n") ∧
        (c.members ≠ [] → (∀ k ∈ c.members, '\n' ∉ k.display.toList) →
          (check false).stdout = "✗ " ++ file ++ "\n    Unwanted recursion found:\n    " ++
            ", ".intercalate (c.members.map Key.display) ++ "\n\n0 passed, 1 failed\n") ∧
        (onlyItem? (check true).stdout >>= Item.element? 0 >>= Item.member? "message" >>=
          Item.text?) = report.message? ∧
        (onlyItem? (check true).stdout >>= Item.element? 0 >>= Item.member? "analysis" >>=
          Item.counts?) = some (a.vertexCount, a.edgeCount) ∧
        -- the drawing as JSON
        ∀ highlight, (onlyItem? (draw .json highlight).stdout >>= Item.member? "stats" >>=
          Item.counts?) = some (a.vertexCount, a.edgeCount)) := by
  intro outcome check cycles draw
  cases hconfig : ((loadConfig settings : StateM FileTree (Except Failure Build.Config)).run t).1
    with
  | error e =>
    -- without settings no command says anything
    have htwo : ∀ q, (outcome q).ending.exitCode = 2 := by
      intro q
      simp only [outcome, runIn_of_error hconfig]
      rfl
    exact ⟨fun json json' format highlight =>
      ⟨iff_of_true (htwo _) (htwo _), iff_of_true (htwo _) (htwo _)⟩,
      fun hcycles => absurd (htwo _) hcycles⟩
  | ok config =>
  have hcode : ∀ json, (check json).ending.exitCode =
      (checkContent config start .noRecursion file (t.read file)).exitCode :=
    fun json => exitCode_runIn_check hconfig
  constructor
  · intro json json' format highlight
    rw [hcode, exitCode_eq_two_iff]
    exact ⟨(exitCode_runIn_cycles hconfig).symm, (exitCode_runIn_draw hconfig).symm⟩
  · intro hsuccess
    -- an error would have hindered the list as well
    cases hasked : asked config start file (t.read file) with
    | error e =>
      have hhindered := (hindered_iff_asked file).2 ⟨e, hasked⟩
      exact absurd ((exitCode_runIn_cycles hconfig).2 hhindered) hsuccess
    | ok found =>
      obtain ⟨key, p⟩ := found
      obtain ⟨hanalysis, hfails, hmessage⟩ := checkContent_of_asked hasked
      have hcheck : ∀ json, check json = checkOutcome json
          [checkContent config start .noRecursion file (t.read file)] :=
        fun json => congrArg Prod.fst (runIn_check hconfig)
      have hcycles : ∀ json, cycles json = { stdout := cyclesPrinted json p.cycles } :=
        fun json => congrArg Prod.fst (runIn_cycles_of_asked hconfig hasked)
      have hdraw : ∀ format highlight,
          draw format highlight = { stdout := drawing format highlight p } :=
        fun format highlight => congrArg Prod.fst (runIn_draw_of_asked hconfig hasked)
      obtain ⟨hpassed, hfailed⟩ := checkText_of_asked hasked
      refine ⟨_, .ofGraph key p, p.cycles, p, hcheck, hanalysis, hcycles, hdraw, fun json => ?_,
        hmessage, fun k => ?_, rfl, rfl, ?_, ?_, fun hfeed name => ?_, fun hmembers => ?_,
        fun hmembers hfeed => ?_, ?_, ?_, fun highlight => ?_⟩
      · rw [hcode]
        exact hfails
      · rw [hdraw]
        exact Dot.mem_members_iff_showsRed
      · rw [hcycles]
        exact readText_cyclesPrinted p.cycles
      · rw [hcycles]
        exact cyclesText_eq_none_iff
      · rw [hcycles]
        exact mem_linesOf_cyclesText_iff hfeed
      · rw [hcheck]
        exact hpassed hmembers
      · rw [hcheck]
        exact hfailed hmembers hfeed
      · rw [hcheck]
        exact message?_checkOutcome _
      · rw [hcheck]
        exact counts?_checkOutcome hanalysis
      · rw [hdraw]
        exact counts?_drawing highlight p

/-- On `loopTree` the check fails, the list names the method that calls itself, and the drawing
    shows a vertex in red. -/
theorem commands_agree_loop :
    let outcome (q : Query) := (q.runIn false none loopTree).1
    (∀ json, (outcome (.check ["loop.json"] none .noRecursion json)).ending.exitCode = 1) ∧
      (∃ i, Dot.showsRed (outcome (.draw "loop.json" none .dot none true)).stdout i = true) ∧
      "    Loop.turn(int)" ∈ Text.linesOf (outcome (.cycles "loop.json" none false)).stdout := by
  intro outcome
  obtain ⟨q, hq, hcycle⟩ := asksAbout_loop
  have hcode : ∀ json,
      (outcome (.check ["loop.json"] none .noRecursion json)).ending.exitCode = 1 := by
    intro json
    rw [exitCode_runIn_check loadConfig_loopTree]
    exact (exitCode_of_asksAbout hq).1.2 ⟨_, (hcycle _).2 rfl⟩
  obtain ⟨herror, hagree⟩ := commands_agree loopTree false none "loop.json" none
  -- the check ended with a failure, so the list did not end with an error
  have hcycles : (outcome (.cycles "loop.json" none false)).ending.exitCode ≠ 2 := by
    intro htwo
    have hcheck := (herror true false .dot true).1.2 htwo
    exact absurd ((hcode true).symm.trans hcheck) (by decide)
  obtain ⟨report, a, c, p, -, -, -, -, hfails, -, hred, -, -, hread, -, hnames, -⟩ := hagree hcycles
  obtain ⟨k, hk⟩ := List.exists_mem_of_ne_nil _ ((hfails true).1 (hcode true))
  obtain ⟨i, -, hi⟩ := (hred k).1 hk
  -- the list that is read is that of the graph with the loop
  have hset : c = q.cycles := by
    obtain ⟨key, hasked⟩ := (asksAbout_iff "loop.json").1 hq
    simp only [runIn_cycles loadConfig_loopTree, hasked] at hread
    exact Except.ok.inj (hread.symm.trans (readText_cyclesPrinted q.cycles))
  have hmember : ∀ k, k ∈ c.members ↔ k = ⟨"Loop", "turn", ["int"]⟩ := by
    intro k
    rw [hset, CallGraph.mem_members_iff, hcycle]
  refine ⟨hcode, ⟨i, hi⟩, (hnames (fun k hk => ?_) "Loop.turn(int)").2 ⟨_, (hmember _).2 rfl, ?_⟩⟩
  · rw [(hmember k).1 hk]
    decide
  · decide

end Command

end CallCycle

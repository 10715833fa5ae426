import CallCycle.Proofs.Build
import CallCycle.Proofs.Extraction
import CallCycle.Verdict

/-!
# Verdicts are sound and complete

A check of a graph passes according to whether some vertex in scope lies on a cycle.  For a graph
that was built from records, this is whether the records have a chain of calls that leads back to
where it began.

## Key results

- `exists_part`: the part of a graph to analyse has the cycles in scope
- `check_noRecursion_iff`, `check_recursion_iff`: when a check of a graph passes
- `check_build_iff`: when a check of a graph that was built passes, in terms of the records
-/

namespace CallCycle

open Relation

namespace Analysis

/-- `verdict` lets an analysis pass in which recursion is not allowed iff none was found. -/
theorem verdict_noRecursion_iff {a : Analysis} :
    a.verdict .noRecursion = .ok () ↔ a.cycles.isEmpty = true := by
  cases h : a.cycles.isEmpty <;> simp [verdict, h]

/-- `verdict` lets an analysis pass in which recursion is required iff some was found. -/
theorem verdict_recursion_iff {a : Analysis} :
    a.verdict .recursion = .ok () ↔ ¬ a.cycles.isEmpty = true := by
  cases h : a.cycles.isEmpty <;> simp [verdict, h]

end Analysis

namespace CallGraph

variable {g : CallGraph} {start : Option Key}

/-- `part` gives a part of a graph to analyse, whose cycles are those in scope. -/
theorem exists_part (hstart : ∀ s ∈ start, s ∈ g.vertexList) :
    ∃ p, g.part start = .ok p ∧
      ∀ m, p.OnCycle m ↔ (∀ s ∈ start, g.Reaches s m) ∧ g.OnCycle m := by
  cases start with
  | none => exact ⟨g, rfl, by simp⟩
  | some s =>
    refine ⟨_, extract_eq_restrict (hstart s rfl), fun m => ?_⟩
    -- a cycle that is reached is reached as a whole
    rw [onCycle_restrict fun k => decide_eq_true_iff, and_comm]
    simp

/-- `check` holds the cycle set of the part to analyse against the expectation. -/
theorem check_eq_ok_iff {p : CallGraph} (hpart : g.part start = .ok p)
    (expectation : Expectation) :
    g.check start expectation = .ok () ↔
      (Analysis.ofGraph start p).verdict expectation = .ok () := by
  simp only [check, analyze, hpart, Except.map]
  cases (Analysis.ofGraph start p).verdict expectation <;> simp

/-- `check` for no recursion passes iff no vertex in scope lies on a cycle. -/
theorem check_noRecursion_iff (hstart : ∀ s ∈ start, s ∈ g.vertexList) :
    g.check start .noRecursion = .ok () ↔
      ¬ ∃ m, (∀ s ∈ start, g.Reaches s m) ∧ g.OnCycle m := by
  obtain ⟨p, hpart, hcycle⟩ := exists_part hstart
  rw [check_eq_ok_iff hpart, Analysis.verdict_noRecursion_iff, Analysis.ofGraph,
    isEmpty_cycles_iff, not_exists]
  exact forall_congr' fun m => not_congr (hcycle m)

/-- `check` for recursion passes iff some vertex in scope lies on a cycle. -/
theorem check_recursion_iff (hstart : ∀ s ∈ start, s ∈ g.vertexList) :
    g.check start .recursion = .ok () ↔
      ∃ m, (∀ s ∈ start, g.Reaches s m) ∧ g.OnCycle m := by
  obtain ⟨p, hpart, hcycle⟩ := exists_part hstart
  rw [check_eq_ok_iff hpart, Analysis.verdict_recursion_iff, Analysis.ofGraph,
    isEmpty_cycles_iff, not_forall_not]
  exact exists_congr hcycle

end CallGraph

namespace Build

variable {config : Config} {records : List Record} {g : CallGraph} {report : Report}
  {start : Option Key}

/-- `check` is sound and complete: whatever the settings and the records are, the built graph passes
    the check for no recursion iff no method in scope `Recurs` in the records, by a chain of calls
    back to itself, and passes the check for recursion iff some method does. -/
theorem check_build_iff (h : build config records = .ok (g, report))
    (hstart : ∀ s ∈ start, s ∈ g.vertexList) :
    (g.check start .noRecursion = .ok () ↔ ¬ ∃ m, config.Recurs records start m) ∧
      (g.check start .recursion = .ok () ↔ ∃ m, config.Recurs records start m) := by
  -- the edges of the graph are the calls of the records
  have hrecurs : ∀ m, ((∀ s ∈ start, g.Reaches s m) ∧ g.OnCycle m) ↔
      config.Recurs records start m := by
    intro m
    rw [Config.Recurs, ← adj_of_build h]
    rfl
  constructor
  · rw [CallGraph.check_noRecursion_iff hstart, exists_congr hrecurs]
  · rw [CallGraph.check_recursion_iff hstart, exists_congr hrecurs]

/-- Showing a shape of `shapeRecords` recurs through a circle, but a shape that is not known to be
    one calls nothing. -/
theorem check_build_shapes : ∃ g report, build shapeConfig shapeRecords = .ok (g, report) ∧
    g.check none .recursion = .ok () ∧
    g.check (some ⟨"Shape", "draw", []⟩) .noRecursion = .ok () := by
  obtain ⟨g, report, h⟩ := build_shapes
  refine ⟨g, report, h, ?_, ?_⟩
  -- the circle shows itself again
  · have hback : shapeConfig.Calls shapeRecords ⟨"Circle", "draw", []⟩
        ⟨"Screen", "show", ["Shape"]⟩ :=
      Config.mk_mem_callEdges.1 (by decide +kernel)
    refine (check_build_iff h (by simp)).2.2 ⟨⟨"Screen", "show", ["Shape"]⟩, by simp, ?_⟩
    exact .tail (.single (.inr ⟨rfl, dispatches_shapes⟩)) (.inl hback)
  · have hmem : ∀ s ∈ some (⟨"Shape", "draw", []⟩ : Key), s ∈ g.vertexList := by
      intro s hs
      rw [mem_vertexList_of_build h, ← Option.some.inj hs]
      decide +kernel
    refine (check_build_iff h hmem).1.2 ?_
    rintro ⟨m, hreach, hcycle⟩
    have hsources : ∀ e ∈ shapeConfig.callEdges shapeRecords,
        e.source ≠ ⟨"Shape", "draw", []⟩ := by decide +kernel
    -- nothing leads on from a shape
    have hquiet : ∀ t, ¬ shapeConfig.Leads shapeRecords ⟨"Shape", "draw", []⟩ t := by
      intro t hleads
      obtain ⟨u, hcalls⟩ := hleads.exists_calls
      exact hsources _ (Config.mk_mem_callEdges.2 hcalls) rfl
    obtain rfl | ⟨t, hleads, -⟩ := (hreach _ rfl).cases_head
    · obtain ⟨t, hleads, -⟩ := TransGen.head'_iff.1 hcycle
      exact hquiet t hleads
    · exact hquiet t hleads

end Build

end CallCycle

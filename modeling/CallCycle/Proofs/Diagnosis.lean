import CallCycle.Proofs.Verdict

/-!
# What a failed check tells

Of the two checks that can be made of a graph, one passes and the other fails, unless the start
method is not known.  The failed one names the recursive methods in scope and the skipped calls
there.  Scopes fit together: a graph has no recursion iff none of its methods reaches any.

## Key results

- `check_of_notMem`: a start method that is not known
- `skippedList_of_part`: the skipped calls in scope
- `exists_check_failed`: one check passes, and the other fails
- `check_noRecursion_none_iff`: the whole graph and the scopes of its methods
- `check_complementary`: all of it together
-/

namespace CallCycle.CallGraph

/-- A method is in scope unless there is a start method that does not reach it. -/
def InScope (g : CallGraph) (start : Option Key) (k : Key) : Prop :=
  ∀ s ∈ start, g.Reaches s k

instance (g : CallGraph) (start : Option Key) (k : Key) : Decidable (g.InScope start k) :=
  inferInstanceAs (Decidable (∀ s ∈ start, g.Reaches s k))

variable {g p : CallGraph} {start : Option Key}

/-! ## Start methods -/

/-- `check` gives an error if the start method is not known. -/
theorem check_of_notMem {s : Key} (h : s ∉ g.vertexList) (expectation : Expectation) :
    g.check (some s) expectation = .error (.unknownStart ⟨s⟩) := by
  rw [check, analyze, part, extract_of_notMem h]
  rfl

/-- `part` has the skipped calls of methods in scope, in order. -/
theorem skippedList_of_part (h : g.part start = .ok p) :
    p.skippedList = g.skippedList.filter fun c => g.InScope start c.caller := by
  cases start with
  | none =>
    cases h
    simp [InScope]
  | some s =>
    -- the start is a vertex, as there is a part for it
    by_cases hs : s ∈ g.vertexList
    · rw [part, extract_eq_restrict hs, Except.ok.injEq] at h
      rw [← h, skippedList_restrict]
      simp [InScope]
    · rw [part, extract_of_notMem hs] at h
      cases h

/-! ## One check passes, and the other fails -/

/-- `check` passes for one expectation, and what is found in the part to analyse is what its failure
    for the other one tells. -/
theorem exists_check_failed (h : g.part start = .ok p) :
    ∃ passed failed d, passed ≠ failed ∧ g.check start passed = .ok () ∧
      g.check start failed = .error (.failed d) ∧ d.cycles = p.cycles ∧
      d.unresolved = p.skippedList ∧ (failed = .noRecursion ↔ p.cycles.isEmpty = false) := by
  have hanalyze : g.analyze start = .ok (.ofGraph start p) := by
    rw [analyze, h]
    rfl
  -- the expectation that is met depends on whether anything was found
  cases hempty : p.cycles.isEmpty with
  | true =>
    have hverdict : (Analysis.ofGraph start p).verdict .recursion =
        .error ⟨.missingRecursion, start, p.cycles, p.skippedList⟩ := by
      simp [Analysis.verdict, Analysis.ofGraph, hempty]
    refine ⟨.noRecursion, .recursion, ⟨.missingRecursion, start, p.cycles, p.skippedList⟩,
      by decide, ?_, ?_, rfl, rfl, by decide⟩
    · exact (check_eq_ok_iff h _).2 (Analysis.verdict_noRecursion_iff.2 hempty)
    · simp only [check, hanalyze, hverdict]
  | false =>
    have hverdict : (Analysis.ofGraph start p).verdict .noRecursion =
        .error ⟨.unwantedRecursion, start, p.cycles, p.skippedList⟩ := by
      simp [Analysis.verdict, Analysis.ofGraph, hempty]
    refine ⟨.recursion, .noRecursion, ⟨.unwantedRecursion, start, p.cycles, p.skippedList⟩,
      by decide, ?_, ?_, rfl, rfl, by decide⟩
    · refine (check_eq_ok_iff h _).2 (Analysis.verdict_recursion_iff.2 ?_)
      rw [Analysis.ofGraph, hempty]
      decide
    · simp only [check, hanalyze, hverdict]

/-- `check` finds no recursion in a graph iff it finds none in the scope of any of its methods. -/
theorem check_noRecursion_none_iff :
    g.check none .noRecursion = .ok () ↔
      ∀ k ∈ g.vertexList, g.check (some k) .noRecursion = .ok () := by
  rw [check_noRecursion_iff (by simp)]
  constructor
  · intro h k hk
    rw [check_noRecursion_iff (by simpa using hk)]
    rintro ⟨m, -, hcycle⟩
    exact h ⟨m, by simp, hcycle⟩
  · -- a method on a cycle is in its own scope
    rintro h ⟨m, -, hcycle⟩
    have hm := h m hcycle.mem_vertexList
    rw [check_noRecursion_iff (by simpa using hcycle.mem_vertexList)] at hm
    refine hm ⟨m, ?_, hcycle⟩
    intro s hs
    cases hs
    exact .refl

/-- The two ways to `check` a graph are complementary and agree on what is `InScope`.  With a start
    method that is not known neither check is made, which is no failure.  Otherwise one of them
    passes and the other fails: that for no recursion iff a method in scope lies on a cycle.  The
    failure names exactly the methods in scope that lie on a cycle, in increasing order, and has the
    skipped calls of the methods in scope, in their order.  And a graph has no recursion iff there
    is none in the scope of any method. -/
theorem check_complementary (g : CallGraph) (start : Option Key) :
    (∀ s, start = some s → s ∉ g.vertexList → ∀ expectation, ∃ e : CheckError,
      g.check start expectation = .error e ∧ e = .unknownStart ⟨s⟩ ∧ e.isFailure = false) ∧
    ((∀ s, start = some s → s ∈ g.vertexList) →
      ∃ passed failed d, passed ≠ failed ∧ g.check start passed = .ok () ∧
        g.check start failed = .error (.failed d) ∧ (CheckError.failed d).isFailure = true ∧
        (failed = .noRecursion ↔ ∃ k, g.InScope start k ∧ g.OnCycle k) ∧
        (∀ k, k ∈ d.implicated ↔ k ∈ g.vertexList ∧ g.InScope start k ∧ g.OnCycle k) ∧
        Increasing d.implicated ∧
        d.unresolved = g.skippedList.filter fun c => g.InScope start c.caller) ∧
    (g.check none .noRecursion = .ok () ↔
      ∀ k ∈ g.vertexList, g.check (some k) .noRecursion = .ok ()) := by
  refine ⟨?_, fun hstart => ?_, check_noRecursion_none_iff⟩
  · rintro s rfl hs expectation
    exact ⟨_, check_of_notMem hs expectation, rfl, rfl⟩
  · -- the failure tells what is in the part to analyse, which is what is in scope
    obtain ⟨p, hpart, hcycle⟩ := exists_part hstart
    obtain ⟨passed, failed, d, hne, hpassed, hfailed, hcycles, hunresolved, hexpected⟩ :=
      exists_check_failed hpart
    refine ⟨passed, failed, d, hne, hpassed, hfailed, rfl, ?_, fun k => ?_, ?_, ?_⟩
    · rw [hexpected, ← Bool.not_eq_true, isEmpty_cycles_iff, not_forall_not]
      exact exists_congr hcycle
    -- a method on a cycle is a vertex
    · rw [Diagnostic.implicated, hcycles, mem_members_iff, hcycle]
      exact ⟨fun h => ⟨h.2.mem_vertexList, h⟩, And.right⟩
    · rw [Diagnostic.implicated, hcycles]
      exact p.increasing_members
    · rw [hunresolved, skippedList_of_part hpart]

/-- In `relayGraph`, from one of the two methods that call each other, the check for no recursion
    fails, and the failure leaves out the loop and what it skips.  A method that is not known is no
    failure. -/
theorem check_complementary_relayGraph :
    relayGraph.check (some ⟨"Main", "stop", []⟩) .recursion =
        .error (.unknownStart ⟨⟨"Main", "stop", []⟩⟩) ∧
      relayGraph.check (some ⟨"Pong", "send", []⟩) .recursion = .ok () ∧
      ∃ d, relayGraph.check (some ⟨"Pong", "send", []⟩) .noRecursion = .error (.failed d) ∧
        ⟨"Ping", "send", []⟩ ∈ d.implicated ∧ ⟨"Main", "loop", []⟩ ∉ d.implicated ∧
        d.unresolved = [⟨⟨"Pong", "send", []⟩, "log()", none, some 7⟩] := by
  have hstop : (⟨"Main", "stop", []⟩ : Key) ∉ relayGraph.vertexList := by decide +kernel
  have hpong : (⟨"Pong", "send", []⟩ : Key) ∈ relayGraph.vertexList := by decide +kernel
  have hcall : relayGraph.Adj ⟨"Ping", "send", []⟩ ⟨"Pong", "send", []⟩ :=
    hasEdge_iff.1 (by decide +kernel)
  have hback : relayGraph.Reaches ⟨"Pong", "send", []⟩ ⟨"Ping", "send", []⟩ := by decide +kernel
  have hscope : relayGraph.InScope (some ⟨"Pong", "send", []⟩) ⟨"Ping", "send", []⟩ := by
    decide +kernel
  -- the two methods call each other
  have hcycle : relayGraph.OnCycle ⟨"Ping", "send", []⟩ := .head' hcall hback
  obtain ⟨e, he, rfl, -⟩ :=
    (check_complementary relayGraph (some ⟨"Main", "stop", []⟩)).1 _ rfl hstop .recursion
  obtain ⟨passed, failed, d, hne, hpassed, hfailed, -, hexpected, himplicated, -, hunresolved⟩ :=
    (check_complementary relayGraph (some ⟨"Pong", "send", []⟩)).2.1
      (fun s hs => Option.some.inj hs ▸ hpong)
  have hno : failed = .noRecursion := hexpected.2 ⟨_, hscope, hcycle⟩
  -- the check that passes is the other one
  have hyes : passed = .recursion := by
    cases passed with
    | recursion => rfl
    | noRecursion => exact absurd hno.symm hne
  subst hno hyes
  refine ⟨he, hpassed, d, hfailed, (himplicated _).2 ⟨?_, hscope, hcycle⟩, fun hloop => ?_, ?_⟩
  · exact hcycle.mem_vertexList
  · exact absurd ((himplicated _).1 hloop).2.1 (by decide +kernel)
  · rw [hunresolved]
    decide +kernel

end CallCycle.CallGraph

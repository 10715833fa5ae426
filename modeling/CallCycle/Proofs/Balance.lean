import CallCycle.Proofs.Account
import CallCycle.Proofs.Cycles
import Mathlib.Data.Finset.Card

/-!
# The report of a build accounts for everything

No record, call or edge is lost or counted twice: the counters of a report add up to the records, to
the calls of the methods that are kept, and to the edges of the graph.

## Key results

- `Config.length_eq_declarations`: a record is left out, or declares a method that is kept
- `Config.length_sites`: a call is resolved, skipped or left out
- `edgeCount_of_build`: an edge is that of a call, or of a dispatch
- `report_balances`: the counters of a report
-/

namespace CallCycle.Build

/-! ## Records and calls -/

namespace Config

/-- A record is one that `leavesOut` drops, or one of the `declarations`. -/
theorem length_eq_declarations (config : Config) (records : List Record) :
    records.length = records.countP (fun r => config.leavesOut (config.declared r)) +
      (config.declarations records).length := by
  rw [declarations, List.length_map, kept, ← List.countP_eq_length_filter]
  rw [List.length_eq_countP_add_countP (fun r => config.leavesOut (config.declared r))]
  simp

/-- A call site is `reached?`, `skipped?` or left out, and only one of these. -/
theorem length_site (config : Config) (c : Key) (site : CallSite) :
    (config.reached? site).toList.length + (skipped? c site).toList.length +
      (if config.leavesOutCall site then 1 else 0) = 1 := by
  cases site with
  | unresolved call => rfl
  | resolved call =>
    rw [reached?, keep?, leavesOutCall, skipped?]
    cases config.leavesOut (config.called call) <;> rfl

/-- The call sites of a method. -/
theorem length_calls (config : Config) (c : Key) (sites : List CallSite) :
    (sites.filterMap config.reached?).length + (sites.filterMap (skipped? c)).length +
      sites.countP config.leavesOutCall = sites.length := by
  induction sites with
  | nil => rfl
  | cons site sites ih =>
    -- the first call site adds one on both sides
    have hsite := config.length_site c site
    simp only [List.filterMap_eq_flatMap_toList, List.flatMap_cons, List.length_append,
      List.countP_cons, List.length_cons] at ih ⊢
    omega

/-- The call sites of all methods that are kept: each makes an edge in `callEdges`, is in `skipped`,
    or reaches a method that is left out. -/
theorem length_sites (config : Config) (records : List Record) :
    (config.callEdges records).length + (config.skipped records).length +
      (config.sites records).countP config.leavesOutCall = (config.sites records).length := by
  rw [callEdges, skipped, sites]
  induction config.kept records with
  | nil => rfl
  | cons r rs ih =>
    -- the sum over the records, one at a time
    have hcalls := config.length_calls (config.declared r) r.calls
    simp only [List.flatMap_cons, List.length_append, List.length_map, List.countP_append]
    omega

end Config

/-! ## Edges -/

/-- The elements of a list as a set are as many as its first occurrences. -/
theorem card_toFinset {α : Type} [DecidableEq α] (xs : List α) :
    xs.toFinset.card = xs.eraseDups.length := by
  have hsame : xs.toFinset = xs.eraseDups.toFinset := by
    ext a
    rw [List.mem_toFinset, List.mem_toFinset, List.mem_eraseDups]
  rw [hsame, List.toFinset_card_of_nodup (nodup_eraseDups xs)]

variable {config : Config} {records : List Record} {g : CallGraph} {report : Report}

/-- The edges in `callEdges` are told apart by their ends. -/
theorem card_ends_callEdges :
    ((config.callEdges records).map Edge.ends).toFinset.card =
      (config.callEdges records).eraseDups.length := by
  have himage : ((config.callEdges records).map Edge.ends).toFinset =
      (config.callEdges records).toFinset.image Edge.ends := by
    ext p
    simp
  have hkind : ∀ e ∈ (config.callEdges records).toFinset, e.kind = .calls :=
    fun e he => (Config.mem_callEdges.1 (List.mem_toFinset.1 he)).1
  rw [himage, Finset.card_image_of_injOn, card_toFinset]
  -- edges of one kind with the same ends are equal
  intro a ha b hb hends
  have hkinds : a.kind = b.kind := (hkind a ha).trans (hkind b hb).symm
  cases a
  cases b
  simp_all [Edge.ends]

/-- The edges that are no dispatches are the calls, each of them once. -/
theorem countP_calls_of_build (h : build config records = .ok (g, report)) :
    g.edgeList.countP (·.kind ≠ .dispatches) = (config.callEdges records).eraseDups.length := by
  have hperm : (g.edgeList.filter (·.kind ≠ .dispatches)).Perm
      (config.callEdges records).eraseDups := by
    -- neither list has repetitions, so only their elements are compared
    refine (List.perm_ext_iff_of_nodup (g.nodup_edgeList.filter _) (nodup_eraseDups _)).2
      fun e => ?_
    rw [List.mem_filter, mem_edgeList_of_build h, List.mem_eraseDups, Config.mem_callEdges]
    cases e.kind <;> simp
  rw [List.countP_eq_length_filter, hperm.length_eq]

/-- `edgeCount` of a built graph is the number of its dispatches and of the different
    `callEdges`. -/
theorem edgeCount_of_build (h : build config records = .ok (g, report)) :
    g.edgeCount = g.stats.dispatchEdges + (config.callEdges records).eraseDups.length := by
  rw [← countP_calls_of_build h, ← CallGraph.length_edgeList,
    List.length_eq_countP_add_countP (·.kind = .dispatches)]
  simp [CallGraph.stats]

/-- The `Report` of `build` accounts for everything.  Settings whose exclusions can be read and
    records without a problem give a graph and a report.  Its `records` are those left out, those
    whose method had been declared before, and one for each method declared; its calls are the call
    sites of the methods that are kept; its `unresolvedCalls` and its `dispatchEdges` are those of
    the graph; and the graph has no other edges than these and one for each pair of methods with a
    resolved call. -/
theorem report_balances {excluded : List Key} (hexcluded : config.excluded = .ok excluded)
    (hvalid : ∀ r ∈ records, r.check = .ok ()) :
    ∃ g report, build config records = .ok (g, report) ∧
      report.records = records.length ∧
      report.records = report.excludedDeclarations + report.mergedDeclarations +
        (config.declarations records).toFinset.card ∧
      report.resolvedCalls + report.unresolvedCalls + report.excludedCalls =
        (config.sites records).length ∧
      report.unresolvedCalls = g.skippedList.length ∧
      report.dispatchEdges = g.stats.dispatchEdges ∧
      report.resolvedCalls = (config.callEdges records).length ∧
      g.edgeCount = report.dispatchEdges +
        ((config.callEdges records).map Edge.ends).toFinset.card := by
  obtain ⟨g, report, h⟩ := exists_build hexcluded hvalid
  have hdispatch : g.edgeCount - (config.callEdges records).eraseDups.length =
      g.stats.dispatchEdges := by
    rw [edgeCount_of_build h]
    omega
  have hreport : report =
      { config.account records with dispatchEdges := g.stats.dispatchEdges } := by
    rw [report_of_build h, hdispatch]
  refine ⟨g, report, h, ?_⟩
  rw [hreport, card_ends_callEdges, card_toFinset, skippedList_of_build h]
  refine ⟨rfl, ?_, config.length_sites records, rfl, rfl, rfl, edgeCount_of_build h⟩
  -- the methods declared are the records that are kept, less the repetitions
  have hrecords := config.length_eq_declarations records
  have hle := length_eraseDups_le (config.declarations records)
  simp only [Config.account]
  omega

/-- A square is a shape too.  The log is declared as well, and the screen is declared again: it
    draws circles without asking which shape they are, and writes to the log. -/
def loggedShapes : List Record :=
  shapeRecords ++
    [{ declaration := ⟨"Square", "draw", []⟩
       overrides := [⟨"Shape", "draw", []⟩] },
     { declaration := ⟨"Log", "write", ["String"]⟩
       calls := [.unresolved { expression := "open()" }] },
     { declaration := ⟨"Screen", "show", ["Shape"]⟩
       calls := [.resolved { target := ⟨"Circle", "draw", []⟩ },
                 .resolved { target := ⟨"Shape", "draw", []⟩ },
                 .resolved { target := ⟨"Log", "write", ["String"]⟩ }] }]

/-- In `loggedShapes` the screen is dispatched to two shapes, one of which it calls as well. -/
theorem dispatches_loggedShapes :
    shapeConfig.Dispatches loggedShapes ⟨"Screen", "show", ["Shape"]⟩ ⟨"Circle", "draw", []⟩ ∧
      shapeConfig.Dispatches loggedShapes ⟨"Screen", "show", ["Shape"]⟩ ⟨"Square", "draw", []⟩ ∧
      shapeConfig.Calls loggedShapes ⟨"Screen", "show", ["Shape"]⟩ ⟨"Circle", "draw", []⟩ := by
  have hcall : shapeConfig.CallsVirtually loggedShapes ⟨"Screen", "show", ["Shape"]⟩
      ⟨"Shape", "draw", []⟩ :=
    Config.mem_virtualCalls.1 (by decide +kernel)
  refine ⟨⟨_, hcall, .single ?_⟩, ⟨_, hcall, .single ?_⟩,
    Config.mk_mem_callEdges.1 (by decide +kernel)⟩
  · exact Config.mem_overridePairs.1 ⟨by decide +kernel, by decide⟩
  · exact Config.mem_overridePairs.1 ⟨by decide +kernel, by decide⟩

/-- Of the five `loggedShapes` one is left out and one declares the screen again.  Of seven calls,
    the call of the shape comes twice.  The screen is dispatched to the circle and to the square,
    but the circle it calls as well, so that one dispatch makes an edge and is counted. -/
theorem report_balances_shapes : ∃ g report, build shapeConfig loggedShapes = .ok (g, report) ∧
    report.records = 5 ∧ report.excludedDeclarations + report.mergedDeclarations = 2 ∧
    report.resolvedCalls + report.unresolvedCalls + report.excludedCalls = 7 ∧
    report.resolvedCalls = 4 ∧ report.dispatchEdges = 1 ∧ g.edgeCount = 4 ∧
    shapeConfig.Dispatches loggedShapes ⟨"Screen", "show", ["Shape"]⟩ ⟨"Circle", "draw", []⟩ ∧
    ⟨⟨"Screen", "show", ["Shape"]⟩, ⟨"Circle", "draw", []⟩, .calls⟩ ∈ g.edgeList ∧
    ⟨⟨"Screen", "show", ["Shape"]⟩, ⟨"Square", "draw", []⟩, .dispatches⟩ ∈ g.edgeList := by
  have hexcluded : shapeConfig.excluded = .ok [⟨"Log", "write", ["String"]⟩] := by decide +kernel
  have hvalid : ∀ r ∈ loggedShapes, r.check = .ok () := by decide +kernel
  obtain ⟨g, report, h, hrecords, hdeclared, hsites, -, -, hresolved, hedges⟩ :=
    report_balances hexcluded hvalid
  have hmethods : (shapeConfig.declarations loggedShapes).toFinset.card = 3 := by decide +kernel
  have hcalls : (shapeConfig.sites loggedShapes).length = 7 := by decide +kernel
  have hedge : (shapeConfig.callEdges loggedShapes).length = 4 := by decide +kernel
  have hpairs : ((shapeConfig.callEdges loggedShapes).map Edge.ends).toFinset.card = 3 := by
    decide +kernel
  have hlength : loggedShapes.length = 5 := rfl
  -- the build itself tells how often the dispatch pass counted
  -- the counter of the build itself, which the theorem says is that of the graph
  have hcount : (build shapeConfig loggedShapes).map (·.2.dispatchEdges) = .ok 1 := by
    decide +kernel
  have hone : report.dispatchEdges = 1 := by simpa [h, Except.map] using hcount
  obtain ⟨hdispatched, hsquare, hcircle⟩ := dispatches_loggedShapes
  have hnoCall : ¬ shapeConfig.Calls loggedShapes ⟨"Screen", "show", ["Shape"]⟩
      ⟨"Square", "draw", []⟩ := by
    rw [← Config.mk_mem_callEdges]
    decide +kernel
  refine ⟨g, report, h, by omega, by omega, by omega, by omega, hone, by omega, hdispatched, ?_, ?_⟩
  · exact (mem_edgeList_of_build h).2 (.inl ⟨rfl, hcircle⟩)
  · exact (mem_edgeList_of_build h).2 (.inr ⟨rfl, rfl, hnoCall, hsquare⟩)

end CallCycle.Build

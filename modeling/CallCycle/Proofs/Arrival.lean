import CallCycle.Proofs.Account
import CallCycle.Proofs.Growth

/-!
# The order in which records arrive

Records may be given in another order, with their parts in another order, repeated, or with the
parts of one record spread over several; they have the same facts, and so the same graph.  The
dispatch pass may take the virtual calls and the override pairs in any order as well.

## Key results

- `Rearranged.mem_facts_iff`: rearranged records have the same facts
- `Reordered.account_eq`, `Reordered.skipped_perm`: what stays the same if nothing is repeated
- `Runs.exists_build`: the order of the dispatch pass does not matter
- `runs_rearranged`: the order in which records arrive does not matter
-/

namespace CallCycle

open Std Relation

/-! ## Graphs with the same parts -/

namespace CallGraph

variable {g g' : CallGraph}

/-- Graphs with the same vertices list `vertexSet` in the same way. -/
theorem vertexSet_toList_congr (h : ∀ k, k ∈ g.vertexList ↔ k ∈ g'.vertexList) :
    g.vertexSet.toList = g'.vertexSet.toList :=
  (increasing_distinct g.vertexList).ext (increasing_distinct g'.vertexList)
    fun k => mem_distinct.trans ((h k).trans mem_distinct.symm)

section Edges

variable (h : ∀ e, e ∈ g.edgeList ↔ e ∈ g'.edgeList)

include h

/-- Graphs with the same edges have the same `Adj`. -/
theorem adj_congr : g.Adj = g'.Adj := by
  funext a b
  simp only [adj_iff, h]

/-- Graphs with the same edges have the same `edgeSet`. -/
theorem edgeSet_congr : g.edgeSet = g'.edgeSet := by
  let : Ord (Key × Key) := lexOrd
  -- increasing lists with the same elements are equal
  refine g.increasing_edgeSet.ext g'.increasing_edgeSet fun p => ?_
  rw [edgeSet, edgeSet, List.mem_mergeSort, List.mem_mergeSort, List.mem_map, List.mem_map]
  simp only [h]

/-- Graphs with the same edges have the same `edgeCount`, as none of them occurs twice. -/
theorem edgeCount_congr : g.edgeCount = g'.edgeCount := by
  rw [← length_edgeList, ← length_edgeList]
  exact ((List.perm_ext_iff_of_nodup g.nodup_edgeList g'.nodup_edgeList).2 h).length_eq

end Edges

end CallGraph

namespace Build

/-! ## Rearranging records -/

/-- Two records that say the same about a method, with their parts in another order. -/
structure Permuted (r r' : Record) : Prop where
  declaration : r'.declaration = r.declaration
  overrides : r.overrides.Perm r'.overrides
  calls : r.calls.Perm r'.calls

/-- The same records in another order, with their parts in another order. -/
inductive Reordered : List Record → List Record → Prop where
  | records {rs rs' : List Record} (h : rs.Perm rs') : Reordered rs rs'
  | parts {r r' : Record} (h : Permuted r r') (rs : List Record) : Reordered (r :: rs) (r' :: rs)
  | trans {rs rs' rs'' : List Record} (h : Reordered rs rs') (h' : Reordered rs' rs'') :
      Reordered rs rs''

/-- The same records in any order, repeated or not, and with the overridden methods and the calls of
    a record in one record or in several with the same declaration. -/
inductive Rearranged : List Record → List Record → Prop where
  | reordered {rs rs' : List Record} (h : Reordered rs rs') : Rearranged rs rs'
  | repeated (r : Record) (rs : List Record) : Rearranged (r :: rs) (r :: r :: rs)
  | split (d : Symbol) (os os' : List Symbol) (cs cs' : List CallSite) (rs : List Record) :
      Rearranged (⟨d, os ++ os', cs ++ cs'⟩ :: rs) (⟨d, os, cs⟩ :: ⟨d, os', cs'⟩ :: rs)
  | symm {rs rs' : List Record} (h : Rearranged rs rs') : Rearranged rs' rs
  | trans {rs rs' rs'' : List Record} (h : Rearranged rs rs') (h' : Rearranged rs' rs'') :
      Rearranged rs rs''

variable {config : Config} {records records' : List Record}

/-- A function of records that follows the order of their parts gives the same elements for records
    in another order. -/
theorem Reordered.flatMap_perm {α : Type} {f : Record → List α}
    (hf : ∀ r r', Permuted r r' → (f r).Perm (f r')) (h : Reordered records records') :
    (records.flatMap f).Perm (records'.flatMap f) := by
  induction h with
  | records h => exact h.flatMap_right f
  -- only the first record differs
  | parts h rs => exact (hf _ _ h).append_right _
  | trans _ _ ih ih' => exact ih.trans ih'

/-- `recordFacts` follows the order of the parts of a record. -/
theorem Permuted.recordFacts_perm {r r' : Record} (h : Permuted r r') :
    (recordFacts r).Perm (recordFacts r') := by
  rw [recordFacts, recordFacts, h.declaration]
  exact ((h.overrides.map _).append (h.calls.map _)).cons _

/-- `Rearranged` records have the same `facts`. -/
theorem Rearranged.mem_facts_iff (h : Rearranged records records') (f : Fact) :
    f ∈ facts records ↔ f ∈ facts records' := by
  induction h with
  | reordered h => exact (h.flatMap_perm fun _ _ => Permuted.recordFacts_perm).mem_iff
  | repeated r rs => simp [facts]
  | split d os os' cs cs' rs =>
    -- the declaration occurs twice, and the other parts once
    simp only [facts, recordFacts, List.flatMap_cons, List.mem_append, List.mem_cons,
      List.map_append]
    tauto
  | symm _ ih => exact ih.symm
  | trans _ _ ih ih' => exact ih.trans ih'

/-- Whether a fact has no problem. -/
def Fact.Sound : Fact → Prop
  | .declares d => d.problem? = none
  | .overrides _ base => base.problem? = none
  | .calls _ site => Record.callProblem? site = none

/-- `check` accepts records iff none of their facts has a problem. -/
theorem check_eq_ok_iff_facts :
    (∀ r ∈ records, r.check = .ok ()) ↔ ∀ f ∈ facts records, f.Sound := by
  -- one record, part by part
  have hcheck : ∀ r : Record, r.check = .ok () ↔ ∀ f ∈ recordFacts r, f.Sound := by
    intro r
    rw [Record.check_eq_ok_iff]
    simp [Record.problem?, recordFacts, Fact.Sound, or_imp, forall_and]
  simp only [hcheck, facts, List.mem_flatMap]
  constructor
  · rintro h f ⟨r, hr, hf⟩
    exact h r hr f hf
  · intro h r hr f hf
    exact h f ⟨r, hr, hf⟩

/-- `check` accepts `Rearranged` records iff it accepts the records. -/
theorem Rearranged.check_iff (h : Rearranged records records') :
    (∀ r ∈ records, r.check = .ok ()) ↔ ∀ r ∈ records', r.check = .ok () := by
  rw [check_eq_ok_iff_facts, check_eq_ok_iff_facts]
  exact forall_congr' fun f => imp_congr_left (h.mem_facts_iff f)

/-! ## Counting reordered records -/

/-- `Permuted` records declare the same method. -/
theorem Permuted.declared_eq {r r' : Record} (h : Permuted r r') :
    config.declared r' = config.declared r := by
  rw [Config.declared, Config.declared, h.declaration]

/-- Of `Reordered` records the same ones are `kept`. -/
theorem Reordered.kept (h : Reordered records records') :
    Reordered (config.kept records) (config.kept records') := by
  induction h with
  | records h => exact .records (h.filter _)
  | parts h rs =>
    -- both declare the same method, so that both are left out or none of them is
    simp only [Config.kept, List.filter_cons, h.declared_eq]
    split
    · exact .parts h _
    · exact .records (.refl _)
  | trans _ _ ih ih' => exact ih.trans ih'

/-- `Reordered` records declare the same methods, each as often. -/
theorem Reordered.map_declared_perm (h : Reordered records records') :
    (records.map config.declared).Perm (records'.map config.declared) := by
  rw [List.map_eq_flatMap, List.map_eq_flatMap]
  refine h.flatMap_perm fun r r' hr => ?_
  rw [hr.declared_eq]

/-- `Reordered` records have the same calls, each as often. -/
theorem Reordered.callEdges_perm (h : Reordered records records') :
    (config.callEdges records).Perm (config.callEdges records') := by
  refine h.kept.flatMap_perm fun r r' hr => ?_
  rw [hr.declared_eq]
  exact (hr.calls.filterMap _).map _

/-- `Reordered` records have the same skipped calls, each as often. -/
theorem Reordered.skipped_perm (h : Reordered records records') :
    (config.skipped records).Perm (config.skipped records') := by
  refine h.kept.flatMap_perm fun r r' hr => ?_
  rw [hr.declared_eq]
  exact hr.calls.filterMap _

/-- `Reordered` records have the same call sites, each as often. -/
theorem Reordered.sites_perm (h : Reordered records records') :
    (config.sites records).Perm (config.sites records') :=
  h.kept.flatMap_perm fun _ _ hr => hr.calls

/-- `Reordered` records have the same `account`. -/
theorem Reordered.account_eq (h : Reordered records records') :
    config.account records = config.account records' := by
  have hdeclared : (records.map config.declared).Perm (records'.map config.declared) :=
    h.map_declared_perm
  have hdeclarations : (config.declarations records).Perm (config.declarations records') :=
    h.kept.map_declared_perm
  -- the same methods are declared, so as many are different
  have hdifferent : (config.declarations records).eraseDups.length =
      (config.declarations records').eraseDups.length :=
    length_eraseDups_congr fun _ => hdeclarations.mem_iff
  have hlength : records.length = records'.length := by
    simpa using hdeclared.length_eq
  have hout : records.countP (fun r => config.leavesOut (config.declared r)) =
      records'.countP (fun r => config.leavesOut (config.declared r)) := by
    have hcount := hdeclared.countP_eq config.leavesOut
    rwa [List.countP_map, List.countP_map] at hcount
  rw [Config.account, Config.account, hlength, hdeclarations.length_eq, hdifferent, hout,
    h.callEdges_perm.length_eq, h.skipped_perm.length_eq, h.sites_perm.countP_eq]

/-! ## The order of the dispatch pass -/

/-- A builder `b'` that has the override pairs and the virtual calls of `b` in any order, repeated
    or not, and is the same in all else that matters to the dispatch pass. -/
structure Shuffled (b b' : Builder) : Prop where
  policy : b'.policy = b.policy
  graph : b'.graph = b.graph
  report : b'.report = b.report
  overrides : ∀ p, p ∈ b'.overrides ↔ p ∈ b.overrides
  virtualCalls : ∀ p, p ∈ b'.virtualCalls ↔ p ∈ b.virtualCalls

/-- A builder is `Shuffled` to itself. -/
theorem Shuffled.refl (b : Builder) : Shuffled b b :=
  ⟨rfl, rfl, rfl, fun _ => .rfl, fun _ => .rfl⟩

/-- A build may end with this graph and report, if the dispatch pass goes through override pairs and
    virtual calls in some order. -/
def Runs (config : Config) (records : List Record) (out : CallGraph × Report) : Prop :=
  ∃ start b b', Builder.ofConfig config = .ok start ∧ start.addRecords records = (b, .ok ()) ∧
    Shuffled b b' ∧ b'.finish = out

/-- `build` itself goes through them in the order in which they came. -/
theorem runs_of_build {out : CallGraph × Report} (h : build config records = .ok out) :
    Runs config records out := by
  obtain ⟨start, b, hstart, hadd, hfinish, -⟩ := told_of_build h
  exact ⟨start, b, b, hstart, hadd, .refl b, hfinish⟩

/-- `Shuffled` builders have the same `dispatchEdges`, in whatever order. -/
theorem Shuffled.mem_dispatchEdges_iff {b b' : Builder} (h : Shuffled b b') {e : Edge} :
    e ∈ b'.dispatchEdges ↔ e ∈ b.dispatchEdges := by
  -- membership is all that `mem_dispatchEdges` asks for
  have hproper : ∀ p, p ∈ b'.properOverrides ↔ p ∈ b.properOverrides := by
    intro p
    rw [Builder.properOverrides, Builder.properOverrides, List.mem_filter, List.mem_filter,
      h.overrides]
  simp only [Builder.mem_dispatchEdges, h.policy, h.virtualCalls, hproper]

section Shuffled

variable {b b' : Builder} (h : Shuffled b b')

include h

/-- `Shuffled` builders `finish` with the same edges. -/
theorem Shuffled.mem_edgeList_finish_iff {e : Edge} :
    e ∈ b'.finish.1.edgeList ↔ e ∈ b.finish.1.edgeList := by
  rw [Builder.mem_edgeList_finish, Builder.mem_edgeList_finish, h.mem_dispatchEdges_iff, h.graph]

/-- `Shuffled` builders `finish` with the same report, as the graphs have as many edges. -/
theorem Shuffled.report_finish : b'.finish.2 = b.finish.2 := by
  have hcount : b'.finish.1.edgeCount = b.finish.1.edgeCount :=
    CallGraph.edgeCount_congr fun e => h.mem_edgeList_finish_iff
  rw [b'.finish_snd, b.finish_snd, hcount, h.report, h.graph]

/-- `finish` adds no vertex, in whatever order it goes. -/
theorem Shuffled.vertexList_finish (htold : Told config records b) :
    b'.finish.1.vertexList = b.finish.1.vertexList := by
  rw [htold.vertexList_finish, ← h.graph, b'.finish_fst]
  refine CallGraph.vertexList_foldl_withEdge fun e he => ?_
  -- a dispatch leads from a method that occurs to one that does
  have hdispatches := (htold.mem_dispatchEdges_iff.1 (h.mem_dispatchEdges_iff.1 he)).2.2
  rw [h.graph, htold.vertices, List.mem_eraseDups, List.mem_eraseDups]
  exact hdispatches.mem_occurrences

end Shuffled

/-- The order of the dispatch pass has no effect but on the order of the edges that it adds. -/
theorem Runs.exists_build {g : CallGraph} {report : Report} (h : Runs config records (g, report)) :
    ∃ g₀, build config records = .ok (g₀, report) ∧ g.vertexList = g₀.vertexList ∧
      (∀ e, e ∈ g.edgeList ↔ e ∈ g₀.edgeList) ∧ g.skippedList = g₀.skippedList := by
  obtain ⟨start, b, b', hstart, hadd, hshuffled, hfinish⟩ := h
  have htold := told_of_addRecords hstart hadd
  have hg : b'.finish.1 = g := congrArg Prod.fst hfinish
  have hreport : b'.finish.2 = report := congrArg Prod.snd hfinish
  rw [← hg, ← hreport]
  -- the builder before the pairs were shuffled gives the graph of the build
  refine ⟨b.finish.1, ?_, hshuffled.vertexList_finish htold,
    fun e => hshuffled.mem_edgeList_finish_iff, ?_⟩
  · rw [hshuffled.report_finish]
    simp only [build, hstart, hadd]
  · rw [b'.finish_fst, b.finish_fst, CallGraph.skippedList_foldl_withEdge,
      CallGraph.skippedList_foldl_withEdge, hshuffled.graph]

/-! ## The order of arrival -/

section Congr

variable {g g' : CallGraph} {report report' : Report}
  (hfacts : ∀ f, f ∈ facts records ↔ f ∈ facts records')
  (h : build config records = .ok (g, report)) (h' : build config records' = .ok (g', report'))

include hfacts h h'

/-- Records with the same facts give graphs with the same vertices. -/
theorem mem_vertexList_congr (k : Key) : k ∈ g.vertexList ↔ k ∈ g'.vertexList := by
  have hw := Config.Widens.refl config
  have hsub : facts records ⊆ facts records' := fun f => (hfacts f).1
  have hsub' : facts records' ⊆ facts records := fun f => (hfacts f).2
  rw [mem_vertexList_of_build h, mem_vertexList_of_build h']
  exact ⟨Config.occurrences_mono hw hsub, Config.occurrences_mono hw hsub'⟩

/-- Records with the same facts give graphs with the same edges, of the same kinds. -/
theorem mem_edgeList_congr (e : Edge) : e ∈ g.edgeList ↔ e ∈ g'.edgeList := by
  have hw := Config.Widens.refl config
  have hsub : facts records ⊆ facts records' := fun f => (hfacts f).1
  have hsub' : facts records' ⊆ facts records := fun f => (hfacts f).2
  have hcalls : ∀ c t, config.Calls records c t ↔ config.Calls records' c t :=
    fun c t => ⟨fun hc => hc.mono hw hsub, fun hc => hc.mono hw hsub'⟩
  have hdispatches : ∀ c i, config.Dispatches records c i ↔ config.Dispatches records' c i :=
    fun c i => ⟨fun hd => hd.mono hw hsub, fun hd => hd.mono hw hsub'⟩
  rw [mem_edgeList_of_build h, mem_edgeList_of_build h', hcalls, hdispatches]

end Congr

/-- What `Runs` gives depends only on what the records say, and not on how they arrive or on the
    order in which the dispatch pass goes.  `Rearranged` records give a graph if the records do; its
    vertices, its edges with their kinds and its `cycles` are the same.  If the records are only
    `Reordered`, the reports are equal, and the skipped calls are the same up to their order. -/
theorem runs_rearranged (h : Rearranged records records') :
    ((∃ out, build config records = .ok out) ↔ ∃ out, build config records' = .ok out) ∧
    ∀ g report g' report', Runs config records (g, report) → Runs config records' (g', report') →
      g.vertexSet.toList = g'.vertexSet.toList ∧
      g.edgeSet = g'.edgeSet ∧ (∀ e, e ∈ g.edgeList ↔ e ∈ g'.edgeList) ∧
      g.cycles = g'.cycles ∧
      (Reordered records records' → report = report' ∧ g.skippedList.Perm g'.skippedList) := by
  refine ⟨by rw [exists_build_iff, exists_build_iff, h.check_iff], ?_⟩
  intro g report g' report' hrun hrun'
  -- both runs have the parts of the graphs that are built in the order of arrival
  obtain ⟨g₀, hbuild, hvertices, hedges, hskipped⟩ := hrun.exists_build
  obtain ⟨g₀', hbuild', hvertices', hedges', hskipped'⟩ := hrun'.exists_build
  have hfacts := h.mem_facts_iff
  have hvertex : ∀ k, k ∈ g.vertexList ↔ k ∈ g'.vertexList := by
    rw [hvertices, hvertices']
    exact mem_vertexList_congr hfacts hbuild hbuild'
  have hbuilt : ∀ e, e ∈ g₀.edgeList ↔ e ∈ g₀'.edgeList := mem_edgeList_congr hfacts hbuild hbuild'
  have hedge : ∀ e, e ∈ g.edgeList ↔ e ∈ g'.edgeList := by
    intro e
    rw [hedges, hedges', hbuilt]
  refine ⟨CallGraph.vertexSet_toList_congr hvertex, CallGraph.edgeSet_congr hedge, hedge,
    CallGraph.cycles_congr (CallGraph.adj_congr hedge), fun hreordered => ⟨?_, ?_⟩⟩
  -- as many records, calls and edges, counted by the same account
  · have hcalls : (config.callEdges records).eraseDups.length =
        (config.callEdges records').eraseDups.length :=
      length_eraseDups_congr fun _ => hreordered.callEdges_perm.mem_iff
    rw [report_of_build hbuild, report_of_build hbuild', hreordered.account_eq, hcalls,
      CallGraph.edgeCount_congr hbuilt]
  · rw [hskipped, hskipped', skippedList_of_build hbuild, skippedList_of_build hbuild']
    exact hreordered.skipped_perm

/-- The circle comes first, and the calls of the screen are spread over two records. -/
def spreadShapes : List Record :=
  [{ declaration := ⟨"Circle", "draw", []⟩
     overrides := [⟨"Shape", "draw", []⟩]
     calls := [.resolved { target := ⟨"Screen", "show", ["Circle"]⟩
                           declaredParams := some ["Shape"] }] },
   { declaration := ⟨"Screen", "show", ["Shape"]⟩
     calls := [.resolved { target := ⟨"Shape", "draw", []⟩ }] },
   { declaration := ⟨"Screen", "show", ["Shape"]⟩
     calls := [.resolved { target := ⟨"Log", "write", ["String"]⟩ },
               .unresolved { expression := "flush()" }] }]

/-- These are the shapes, rearranged. -/
theorem rearranged_spreadShapes : Rearranged shapeRecords spreadShapes := by
  -- the first record is split, and the circle goes to the front
  have hsplit := Rearranged.split ⟨"Screen", "show", ["Shape"]⟩ [] []
    [.resolved { target := ⟨"Shape", "draw", []⟩ }]
    [.resolved { target := ⟨"Log", "write", ["String"]⟩ }, .unresolved { expression := "flush()" }]
    shapeRecords.tail
  exact .trans hsplit (.reordered (.records (by decide)))

/-- The circle comes first, and the calls of the screen stand in reverse. -/
def turnedShapes : List Record :=
  shapeRecords.reverse.map fun r => { r with calls := r.calls.reverse }

/-- These are the shapes, reordered. -/
theorem reordered_turnedShapes : Reordered shapeRecords turnedShapes := by
  -- the calls of the first record are turned, and the circle goes to the front
  have hparts : ∀ r : Record, Permuted r { r with calls := r.calls.reverse } :=
    fun r => ⟨rfl, .refl _, r.calls.reverse_perm.symm⟩
  exact .trans (.parts (hparts _) shapeRecords.tail) (.records (by decide))

/-- The virtual calls of a builder in reverse are those of the builder in another order. -/
theorem Shuffled.reverse (b : Builder) :
    Shuffled b { b with virtualCalls := b.virtualCalls.reverse } :=
  ⟨rfl, rfl, rfl, fun _ => .rfl, fun _ => List.mem_reverse⟩

/-- Spread over more records, `shapeRecords` give the same edges and cycles.  With records, calls
    and the virtual calls of the dispatch pass in reverse, they give the same report as well. -/
theorem runs_rearranged_shapes :
    ∃ g report g₁ report₁ start b, build shapeConfig shapeRecords = .ok (g, report) ∧
      build shapeConfig spreadShapes = .ok (g₁, report₁) ∧
      g.edgeSet = g₁.edgeSet ∧ g.cycles = g₁.cycles ∧
      Builder.ofConfig shapeConfig = .ok start ∧ start.addRecords turnedShapes = (b, .ok ()) ∧
      b.virtualCalls.reverse ≠ b.virtualCalls ∧
      ∃ g₂, { b with virtualCalls := b.virtualCalls.reverse }.finish = (g₂, report) ∧
        g.edgeSet = g₂.edgeSet ∧ g.cycles = g₂.cycles := by
  obtain ⟨hexists, hspread⟩ := runs_rearranged rearranged_spreadShapes
  obtain ⟨hexists', hturned⟩ := runs_rearranged (.reordered reordered_turnedShapes)
  obtain ⟨g, report, hbuild⟩ := build_shapes
  obtain ⟨⟨g₁, report₁⟩, hbuild₁⟩ := hexists.1 ⟨_, hbuild⟩
  obtain ⟨⟨g₂, report₂⟩, hbuild₂⟩ := hexists'.1 ⟨_, hbuild⟩
  obtain ⟨-, hedges, -, hcycles, -⟩ :=
    hspread _ _ _ _ (runs_of_build hbuild) (runs_of_build hbuild₁)
  -- before the dispatch pass there are two different virtual calls, so their order can be turned
  obtain ⟨start, b, hstart, hadd, -, htold⟩ := told_of_build hbuild₂
  have hvirtual : b.virtualCalls.reverse = shapeConfig.virtualCalls turnedShapes :=
    htold.virtualCalls
  have hdifferent : b.virtualCalls.reverse ≠ b.virtualCalls := by
    rw [← List.reverse_reverse b.virtualCalls, hvirtual]
    decide +kernel
  obtain ⟨⟨g₃, report₃⟩, hfinish⟩ :
      ∃ out, { b with virtualCalls := b.virtualCalls.reverse }.finish = out := ⟨_, rfl⟩
  obtain ⟨-, hedges', -, hcycles', hreport⟩ :=
    hturned _ _ _ _ (runs_of_build hbuild) ⟨_, _, _, hstart, hadd, .reverse b, hfinish⟩
  rw [← (hreport reordered_turnedShapes).1] at hfinish
  exact ⟨g, report, g₁, report₁, start, b, hbuild, hbuild₁, hedges, hcycles, hstart, hadd,
    hdifferent, g₃, hfinish, hedges', hcycles'⟩

end Build

end CallCycle

import CallCycle.Proofs.Build
import CallCycle.Proofs.Extraction

/-!
# What holds of every call graph, and along every run

A call graph keeps its vertices and edges several times over: as lists, with an index of positions,
and with the targets of each vertex.  All of these views agree.  Operations on a graph only add to
it, so that positions and edges never change; the operations of a builder are runs of such
operations, and a builder skips calls of methods that are vertices only.

## Key results

- `consistent`: the views of a graph agree
- `Step.extends`, `Run.extends`: an operation, and a run of operations, keep what is there
- `Build.Builder.run_add`, `Build.Builder.run_finish`: a builder runs operations on its graph
- `Build.Produced.caller_mem`: the callers of skipped calls are vertices
- `representation_invariant`: all of it together
-/

namespace CallCycle

open Std Relation

namespace CallGraph

/-! ## Views -/

/-- The views of a graph agree: positions, vertices, ends of edges, callees and callers. -/
structure Consistent (g : CallGraph) : Prop where
  /-- A key has a position iff it stands there. -/
  indexOf?_iff : ∀ k i, g.indexOf? k = some i ↔ g.get? i = some k
  /-- The positions are the numbers below the number of vertices. -/
  position_iff : ∀ i, (∃ k, g.get? i = some k) ↔ i < g.vertexCount
  /-- The keys with a position are the vertices. -/
  vertex_iff : ∀ k, (∃ i, g.indexOf? k = some i) ↔ k ∈ g.vertexSet
  ends_mem : ∀ e ∈ g.edgeList, e.source ∈ g.vertexSet ∧ e.target ∈ g.vertexSet
  ends_nodup : (g.edgeList.map Edge.ends).Nodup
  vertexCount_eq : g.vertexCount = g.vertexSet.size
  edgeCount_eq : g.edgeCount = g.edgeSet.length
  increasing_edgeSet : @Increasing (Key × Key) lexOrd g.edgeSet
  edge_iff : ∀ a b, (∃ e ∈ g.edgeList, e.source = a ∧ e.target = b) ↔ (a, b) ∈ g.edgeSet
  hasEdge_iff : ∀ a b, g.hasEdge a b = true ↔ (a, b) ∈ g.edgeSet
  callees_iff : ∀ a b, b ∈ g.callees a ↔ (a, b) ∈ g.edgeSet
  callers_iff : ∀ a b, a ∈ g.callers b ↔ (a, b) ∈ g.edgeSet
  increasing_callees : ∀ k, Increasing (g.callees k)
  increasing_callers : ∀ k, Increasing (g.callers k)

/-- `vertexSet` has the vertices of `vertexList`. -/
theorem mem_vertexSet_iff {g : CallGraph} {k : Key} : k ∈ g.vertexSet ↔ k ∈ g.vertexList :=
  Digraph.mem_ofList_iff

/-- `edgeSet` has the ends of the edges. -/
theorem mem_edgeSet_iff {g : CallGraph} {a b : Key} : (a, b) ∈ g.edgeSet ↔ g.Adj a b := by
  rw [edgeSet, List.mem_mergeSort]
  rfl

/-- `indexOf?` and `get?` are inverse to each other. -/
theorem indexOf?_eq_some_iff {g : CallGraph} {k : Key} {i : Nat} :
    g.indexOf? k = some i ↔ g.get? i = some k :=
  g.index_iff k i

/-- `neighbors` is in strictly increasing order if an edge is known by its two sides: no two edges
    have the same ends, so no key is found twice. -/
theorem increasing_neighbors (g : CallGraph) {near far : Edge → Key}
    (hends : ∀ e e', near e = near e' → far e = far e' → e.ends = e'.ends) (k : Key) :
    Increasing (g.neighbors near far k) := by
  refine increasing_sorted ((g.nodup_edgeList.filter _).map_on fun e he e' he' hfar => ?_)
  simp only [List.mem_filter, decide_eq_true_eq] at he he'
  -- two edges with the same far side have the same ends, so they are one edge
  have hnear : near e = near e' := he.2.trans he'.2.symm
  exact List.inj_on_of_nodup_map g.nodup_ends he.1 he'.1 (hends e e' hnear hfar)

/-- `vertexSet` has as many keys as there are vertices. -/
theorem size_vertexSet (g : CallGraph) : g.vertexSet.size = g.vertexCount := by
  -- both count the same keys, once each
  have hperm : g.vertexSet.toList.Perm g.vertexList := by
    refine (List.perm_ext_iff_of_nodup (increasing_distinct g.vertexList).nodup
      g.nodup_vertexList).2 fun k => ?_
    exact mem_distinct
  rw [← TreeSet.length_toList, hperm.length_eq, length_vertexList]

/-- The views of every graph agree. -/
theorem consistent (g : CallGraph) : g.Consistent where
  indexOf?_iff _ _ := indexOf?_eq_some_iff
  -- a position is one below the length of the list
  position_iff i := by
    rw [get?, ← length_vertexList]
    constructor
    · intro ⟨k, hk⟩
      exact (List.getElem?_eq_some_iff.1 hk).1
    · intro hi
      exact ⟨_, List.getElem?_eq_getElem hi⟩
  vertex_iff k := by
    simp only [indexOf?_eq_some_iff, get?, mem_vertexSet_iff]
    exact List.mem_iff_getElem?.symm
  ends_mem e he := by
    rw [mem_vertexSet_iff, mem_vertexSet_iff]
    exact mem_vertexList_of_mem_edgeList he
  ends_nodup := g.nodup_ends
  vertexCount_eq := g.size_vertexSet.symm
  edgeCount_eq := by rw [edgeSet, List.length_mergeSort, List.length_map, length_edgeList]
  increasing_edgeSet := g.increasing_edgeSet
  edge_iff a b := adj_iff.symm.trans mem_edgeSet_iff.symm
  hasEdge_iff a b := CallGraph.hasEdge_iff.trans mem_edgeSet_iff.symm
  callees_iff a b := mem_callees_iff.trans mem_edgeSet_iff.symm
  callers_iff a b := mem_callers_iff.trans mem_edgeSet_iff.symm
  increasing_callees := g.increasing_neighbors fun _ _ hs ht => Prod.ext hs ht
  increasing_callers := g.increasing_neighbors fun _ _ ht hs => Prod.ext hs ht

/-! ## Runs -/

/-- An operation on a graph: `addVertex`, `addEdge`, `link` between the vertices at two positions,
    and `addSkipped`. -/
inductive Step : CallGraph → CallGraph → Prop
  | addVertex (g : CallGraph) (k : Key) : Step g (g.addVertex k)
  | withEdge (g : CallGraph) (e : Edge) : Step g (g.withEdge e)
  | link (g : CallGraph) {i j : Nat} {a b : Key} (ha : g.get? i = some a) (hb : g.get? j = some b)
      (kind : EdgeKind) :
      Step g (g.link ⟨a, b, kind⟩ (List.mem_of_getElem? ha) (List.mem_of_getElem? hb)).1
  | addSkipped (g : CallGraph) (c : SkippedCall) : Step g (g.addSkipped c)

/-- Any number of operations on a graph, one after the other. -/
def Run : CallGraph → CallGraph → Prop := ReflTransGen Step

/-- A graph that has all that another one has, in the same order and in front of what is new. -/
structure Extends (g g' : CallGraph) : Prop where
  vertices : g.vertexList <+: g'.vertexList
  edges : g.edgeList <+: g'.edgeList
  skipped : g.skippedList <+: g'.skippedList

/-- A graph `Extends` itself. -/
theorem Extends.refl (g : CallGraph) : g.Extends g :=
  ⟨List.prefix_refl _, List.prefix_refl _, List.prefix_refl _⟩

/-- `Extends` is passed on from one graph to the next. -/
theorem Extends.trans {g g' g'' : CallGraph} (h : g.Extends g') (h' : g'.Extends g'') :
    g.Extends g'' :=
  ⟨h.vertices.trans h'.vertices, h.edges.trans h'.edges, h.skipped.trans h'.skipped⟩

/-- `addVertex` keeps what is there. -/
theorem extends_addVertex (g : CallGraph) (k : Key) : g.Extends (g.addVertex k) := by
  refine ⟨?_, by simp, by simp⟩
  rw [vertexList_addVertex]
  split <;> simp

/-- `link` keeps what is there. -/
theorem extends_link (g : CallGraph) (e : Edge) (hs ht) : g.Extends (g.link e hs ht).1 := by
  refine ⟨by simp [vertexList_link], ?_, by simp [skippedList_link]⟩
  rw [edgeList_link]
  split <;> simp

/-- Every operation keeps what is there, case by case. -/
theorem Step.extends {g g' : CallGraph} (h : Step g g') : g.Extends g' := by
  cases h with
  | addVertex k => exact extends_addVertex g k
  | withEdge e =>
    -- the two ends come first, then the edge between them
    have hends := (extends_addVertex g e.source).trans (extends_addVertex _ e.target)
    exact hends.trans (extends_link _ e _ _)
  | link ha hb kind => exact extends_link g _ _ _
  | addSkipped c => exact ⟨List.prefix_refl _, List.prefix_refl _, by simp⟩

/-- A `Run` of operations keeps all that is there, at its place. -/
theorem Run.extends {g g' : CallGraph} (h : Run g g') : g.Extends g' := by
  induction h with
  | refl => exact .refl g
  | tail _ hstep ih => exact ih.trans hstep.extends

/-- A graph that extends another has its vertices at the same positions. -/
theorem Extends.indexOf? {g g' : CallGraph} (h : g.Extends g') {k : Key} {i : Nat}
    (hk : g.indexOf? k = some i) : g'.indexOf? k = some i := by
  rw [indexOf?_eq_some_iff, get?] at hk ⊢
  have hlt : i < g.vertexList.length := (List.getElem?_eq_some_iff.1 hk).1
  -- new vertices stand behind the old ones
  obtain ⟨added, hadded⟩ := h.vertices
  rw [← hadded, List.getElem?_append_left hlt, hk]

/-- An edge with the ends of one that was there before is that edge. -/
theorem Extends.edge_eq {g g' : CallGraph} (h : g.Extends g') {e e' : Edge} (he : e ∈ g.edgeList)
    (he' : e' ∈ g'.edgeList) (hends : e'.ends = e.ends) : e' = e :=
  List.inj_on_of_nodup_map g'.nodup_ends he' (h.edges.subset he) hends

/-- Folding over a list with one operation for each element is a `Run`. -/
theorem Run.foldl {α : Type} {f : CallGraph → α → CallGraph} (hf : ∀ g a, Step g (f g a))
    (g : CallGraph) (as : List α) : Run g (as.foldl f g) := by
  induction as generalizing g with
  | nil => exact .refl
  | cons a as ih => exact .head (hf g a) (ih _)

end CallGraph

namespace Build

open CallGraph

/-! ## The runs of a builder -/

namespace Builder

/-- `addCall` runs at most one operation. -/
theorem run_addCall (c : Key) (b : Builder) (site : CallSite) :
    Run b.graph (b.addCall c site).graph := by
  cases site with
  | resolved call =>
    simp only [addCall]
    split
    -- the target is left out
    · exact .refl
    · exact .single (.withEdge _ _)
  | unresolved call => exact .single (.addSkipped _ _)

/-- The calls of a record are a run. -/
theorem run_foldl_addCall (c : Key) (b : Builder) (sites : List CallSite) :
    Run b.graph (sites.foldl (addCall c) b).graph := by
  induction sites generalizing b with
  | nil => exact .refl
  | cons site sites ih => exact (run_addCall c b site).trans (ih _)

/-- `addOverride` leaves the graph as it is. -/
theorem graph_foldl_addOverride (c : Key) (b : Builder) (bases : List Symbol) :
    (bases.foldl (addOverride c) b).graph = b.graph := by
  induction bases generalizing b with
  | nil => rfl
  | cons base bases ih =>
    have hstep : (b.addOverride c base).graph = b.graph := by
      simp only [addOverride]
      split <;> rfl
    rw [List.foldl_cons, ih, hstep]

/-- `add` is a run. -/
theorem run_add (b : Builder) (r : Record) : Run b.graph (b.add r).graph := by
  simp only [add]
  split
  · exact .refl
  · -- the vertex comes first, then the calls; overridden methods leave the graph as it is
    refine .trans (.single (.addVertex _ (Key.ofSymbol b.rules r.declaration))) ?_
    refine .trans ?_ (run_foldl_addCall _ _ _)
    rw [graph_foldl_addOverride]
    exact .refl

/-- `addRecord` is a run, which is empty for a record that is refused. -/
theorem run_addRecord (b : Builder) (r : Record) : Run b.graph (b.addRecord r).1.graph := by
  rw [addRecord]
  split
  · exact .refl
  · exact run_add b r

/-- `finish` runs one operation for each dispatch. -/
theorem run_finish (b : Builder) : Run b.graph b.finish.1 := by
  rw [finish_fst]
  exact Run.foldl Step.withEdge b.graph b.dispatchEdges

end Builder

/-! ## Callers of skipped calls -/

/-- The callers of all skipped calls are vertices. -/
def CallersKnown (g : CallGraph) : Prop :=
  ∀ c ∈ g.skippedList, c.caller ∈ g.vertexList

/-- More vertices do no harm. -/
theorem CallersKnown.extends {g g' : CallGraph} (h : CallersKnown g) (hext : g.Extends g')
    (hskipped : g'.skippedList = g.skippedList) : CallersKnown g' := by
  intro c hc
  rw [hskipped] at hc
  exact hext.vertices.subset (h c hc)

/-- `addCall` skips calls of the method it is told, which has to be a vertex. -/
theorem CallersKnown.addCall {b : Builder} (h : CallersKnown b.graph) {c : Key}
    (hc : c ∈ b.graph.vertexList) (site : CallSite) : CallersKnown (b.addCall c site).graph := by
  cases site with
  | resolved call =>
    simp only [Builder.addCall]
    split
    · exact h
    · exact h.extends (Step.withEdge _ _).extends (skippedList_withEdge _ _)
  | unresolved call =>
    intro s hs
    simp only [Builder.addCall, skippedList_addSkipped, List.mem_append, List.mem_singleton] at hs
    -- a call that was skipped before, or the new one
    rcases hs with hs | rfl
    · exact h s hs
    · exact hc

/-- The calls of a record keep `CallersKnown`. -/
theorem CallersKnown.foldl_addCall {b : Builder} (h : CallersKnown b.graph) {c : Key}
    (hc : c ∈ b.graph.vertexList) (sites : List CallSite) :
    CallersKnown (sites.foldl (Builder.addCall c) b).graph := by
  induction sites generalizing b with
  | nil => exact h
  | cons site sites ih =>
    exact ih (h.addCall hc site) ((Builder.run_addCall c b site).extends.vertices.subset hc)

/-- `add` keeps `CallersKnown`, since the declared method is a vertex before its calls come. -/
theorem CallersKnown.add {b : Builder} (h : CallersKnown b.graph) (r : Record) :
    CallersKnown (b.add r).graph := by
  simp only [Builder.add]
  split
  · exact h
  · have hdeclared : CallersKnown (b.graph.addVertex (Key.ofSymbol b.rules r.declaration)) :=
      h.extends (extends_addVertex _ _) (skippedList_addVertex _ _)
    -- the overridden methods leave the graph as it is
    apply CallersKnown.foldl_addCall
    · rw [Builder.graph_foldl_addOverride]
      exact hdeclared
    · rw [Builder.graph_foldl_addOverride]
      simp [Builder.declare]

/-- `finish` skips no call. -/
theorem CallersKnown.finish {b : Builder} (h : CallersKnown b.graph) :
    CallersKnown b.finish.1 := by
  refine h.extends b.run_finish.extends ?_
  rw [Builder.finish_fst, skippedList_foldl_withEdge]

/-- `extract` keeps the callers of the skipped calls that it keeps. -/
theorem CallersKnown.extract {g part : CallGraph} (h : CallersKnown g) {start : Key}
    (hpart : g.extract start = .ok part) : CallersKnown part := by
  have hstart : start ∈ g.vertexList := by
    by_contra hstart
    rw [extract_of_notMem hstart] at hpart
    exact nomatch hpart
  rw [extract_eq_restrict hstart, Except.ok.injEq] at hpart
  intro c hc
  rw [← hpart, skippedList_restrict, List.mem_filter] at hc
  rw [← hpart, vertexList_restrict, List.mem_filter]
  -- a skipped call is kept iff its caller is
  exact ⟨h c hc.1, hc.2⟩

/-! ## Graphs that a builder gives -/

/-- A builder to which records were added, or which refused them. -/
inductive Builder.Reached : Builder → Prop
  | start (rules : Rules) (policy : Policy) (excluded : List Key) :
      Reached (.start rules policy excluded)
  | addRecord {b : Builder} (h : b.Reached) (r : Record) : Reached (b.addRecord r).1

/-- The graph of a builder at any time, or a part that was extracted from such a graph. -/
inductive Produced : CallGraph → Prop
  | graph {b : Builder} (h : b.Reached) : Produced b.graph
  | finish {b : Builder} (h : b.Reached) : Produced b.finish.1
  | extract {g part : CallGraph} {start : Key} (h : Produced g)
      (hpart : g.extract start = .ok part) : Produced part

/-- `CallersKnown` holds of every builder that was reached, by induction on its records. -/
theorem Builder.Reached.callersKnown {b : Builder} (h : b.Reached) : CallersKnown b.graph := by
  induction h with
  | start => exact nofun
  | addRecord _ r ih =>
    rw [Builder.addRecord]
    split
    -- a refused record leaves the graph as it is
    · exact ih
    · exact ih.add r

/-- The callers of the skipped calls of a `Produced` graph are vertices. -/
theorem Produced.caller_mem {g : CallGraph} (h : Produced g) :
    ∀ c ∈ g.skippedList, c.caller ∈ g.vertexSet := by
  have hknown : CallersKnown g := by
    induction h with
    | graph h => exact h.callersKnown
    | finish h => exact h.callersKnown.finish
    | extract _ hpart ih => exact ih.extract hpart
  intro c hc
  exact mem_vertexSet_iff.2 (hknown c hc)

/-- `addRecords` reaches the builder that it gives, whether it stops early or not. -/
theorem reached_addRecords {b : Builder} (h : b.Reached) (records : List Record) :
    (b.addRecords records).1.Reached := by
  induction records generalizing b with
  | nil => exact h
  | cons r records ih =>
    have hr := h.addRecord r
    rw [Builder.addRecords]
    cases hadd : b.addRecord r with
    | mk b₁ outcome =>
      rw [hadd] at hr
      cases outcome with
      -- the batch stops here
      | error e => exact hr
      | ok u => exact ih hr

/-- `build` gives a `Produced` graph. -/
theorem produced_of_build {config : Config} {records : List Record} {g : CallGraph}
    {report : Report} (h : build config records = .ok (g, report)) : Produced g := by
  obtain ⟨start, b, hstart, hadd, hfinish, -⟩ := told_of_build h
  obtain ⟨excluded, -, rfl⟩ := ofConfig_eq_ok_iff.1 hstart
  have hreached := reached_addRecords (.start config.rules config.policy excluded) records
  rw [hadd] at hreached
  have hg : b.finish.1 = g := congrArg Prod.fst hfinish
  exact hg ▸ .finish hreached

end Build

/-! ## All together -/

namespace CallGraph

/-- What holds of every call graph.  It is `Consistent`: positions and vertices, and edges, callees
    and callers, tell the same.  Along a `Run` of operations, among them those of a builder, the
    vertices and edges that are there stay where they are, positions stay the same, and so do the
    kinds of edges.  Where a graph is `Produced` by a builder, or was extracted from such a graph,
    the callers of its skipped calls are vertices. -/
theorem representation_invariant :
    (∀ g : CallGraph, g.Consistent) ∧
    (∀ g g' : CallGraph, Run g g' →
      g.Extends g' ∧ (∀ k i, g.indexOf? k = some i → g'.indexOf? k = some i) ∧
      ∀ e ∈ g.edgeList, ∀ e' ∈ g'.edgeList, e'.ends = e.ends → e'.kind = e.kind) ∧
    (∀ (b : Build.Builder) (r : Record), Run b.graph (b.addRecord r).1.graph) ∧
    (∀ b : Build.Builder, Run b.graph b.finish.1) ∧
    ∀ g : CallGraph, Build.Produced g → ∀ c ∈ g.skippedList, c.caller ∈ g.vertexSet := by
  refine ⟨consistent, fun g g' hrun => ?_, Build.Builder.run_addRecord,
    Build.Builder.run_finish, fun g => Build.Produced.caller_mem⟩
  have hext := hrun.extends
  refine ⟨hext, fun k i => hext.indexOf?, fun e he e' he' hends => ?_⟩
  rw [hext.edge_eq he he' hends]

/-- A method that stands at a position of `relayGraph` still does after a new edge, and an edge of
    another kind between the same methods changes nothing.  What a screen skips belongs to a
    vertex. -/
theorem representation_invariant_relayGraph :
    relayGraph.get? 1 = some ⟨"Ping", "send", []⟩ ∧
    (relayGraph.withEdge ⟨⟨"Pong", "send", []⟩, ⟨"Ping", "send", []⟩, .dispatches⟩).indexOf?
      ⟨"Ping", "send", []⟩ = some 1 ∧
    ∃ g report part, Build.build Build.shapeConfig Build.shapeRecords = .ok (g, report) ∧
      g.extract ⟨"Screen", "show", ["Shape"]⟩ = .ok part ∧
      ∀ c ∈ part.skippedList, c.caller ∈ part.vertexSet := by
  obtain ⟨hviews, hruns, -, -, hcallers⟩ := representation_invariant
  have hget : relayGraph.get? 1 = some ⟨"Ping", "send", []⟩ := by decide +kernel
  refine ⟨hget, ?_, ?_⟩
  · have hindex := ((hviews relayGraph).indexOf?_iff _ _).2 hget
    exact (hruns _ _ (.single (.withEdge relayGraph _))).2.1 _ _ hindex
  · obtain ⟨g, report, hbuild⟩ := Build.build_shapes
    have hscreen : ⟨"Screen", "show", ["Shape"]⟩ ∈ g.vertexList := by
      rw [Build.mem_vertexList_of_build hbuild]
      decide +kernel
    refine ⟨g, report, _, hbuild, extract_eq_restrict hscreen, ?_⟩
    exact hcallers _ ((Build.produced_of_build hbuild).extract (extract_eq_restrict hscreen))

end CallGraph

end CallCycle

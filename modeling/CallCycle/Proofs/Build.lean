import CallCycle.Build.Builder
import CallCycle.Proofs.CallGraph
import CallCycle.Proofs.Records

/-!
# The graph that is built is the one that the records describe

`Holds` ties the state of a builder to lists of what it was told.  Each operation of the builder is
one step, which makes these lists longer; a record is a run of such steps, and so are all records.
The dispatch pass then follows the override pairs.

## Key results

- `Holds.declare`, `Holds.addOverride`, `Holds.addCall`: the steps of the builder
- `Holds.add`, `Told.foldl_add`: a record, and all records
- `mem_implementations_iff`: implementations are the transitive closure of the override pairs
- `Told.vertexList_finish`, `Told.mem_edgeList_finish_iff`: the dispatch pass
- `build_eq_ok_iff`: when a graph is built
- `build_exact`: what graph is built
-/

namespace CallCycle.Build

open Std Relation

/-! ## Methods left out -/

/-- `parseKeys` gives the keys that `Key.parseCanonical` reads, one for each text. -/
theorem mem_parseKeys_iff {rules : Rules} {texts : List String} {ks : List Key}
    (h : parseKeys rules texts = .ok ks) {k : Key} :
    k ∈ ks ↔ ∃ text ∈ texts, Key.parseCanonical rules text = .ok k := by
  induction texts generalizing ks with
  | nil =>
    cases h
    simp
  | cons text texts ih =>
    simp only [parseKeys, bind, Except.bind] at h
    cases hkey : Key.parseCanonical rules text with
    -- one text that cannot be read spoils all
    | error e => simp [hkey] at h
    | ok key =>
      cases hkeys : parseKeys rules texts with
      | error e => simp [hkey, hkeys] at h
      | ok keys =>
        simp only [hkey, hkeys, Except.ok.injEq] at h
        subst h
        simp [ih hkeys, hkey, eq_comm]

/-- The keys in `excluded` are those that `leavesOut` tells. -/
theorem mem_excluded_iff {config : Config} {ks : List Key} (h : config.excluded = .ok ks)
    {k : Key} : k ∈ ks ↔ config.leavesOut k = true := by
  rw [mem_parseKeys_iff h, Config.leavesOut, List.any_eq_true]
  refine exists_congr fun text => and_congr_right fun _ => ?_
  cases Key.parseCanonical config.rules text with
  | ok key => simp
  | error e => simp

/-! ## Vertices and edges by first occurrence -/

/-- One more element is new, or changes nothing about the first occurrences. -/
theorem eraseDups_snoc {α : Type} [DecidableEq α] (xs : List α) (x : α) :
    (xs ++ [x]).eraseDups = if x ∈ xs then xs.eraseDups else xs.eraseDups ++ [x] := by
  rw [List.eraseDups_append]
  by_cases hx : x ∈ xs <;> simp [hx, List.removeAll, List.eraseDups_cons]

/-- `addVertex` keeps the vertices in the order of their first occurrence. -/
theorem vertexList_addVertex_eraseDups {g : CallGraph} {ks : List Key}
    (h : g.vertexList = ks.eraseDups) (k : Key) :
    (g.addVertex k).vertexList = (ks ++ [k]).eraseDups := by
  rw [CallGraph.vertexList_addVertex, eraseDups_snoc, h]
  simp only [List.mem_eraseDups]

/-- `withEdge` from a vertex adds its target as one more occurrence. -/
theorem vertexList_withEdge_eraseDups {g : CallGraph} {ks : List Key}
    (h : g.vertexList = ks.eraseDups) {e : Edge} (he : e.source ∈ ks) :
    (g.withEdge e).vertexList = (ks ++ [e.target]).eraseDups := by
  have hsource : (g.addVertex e.source).vertexList = ks.eraseDups := by
    rw [vertexList_addVertex_eraseDups h, eraseDups_snoc, if_pos he]
  rw [CallGraph.vertexList_withEdge]
  exact vertexList_addVertex_eraseDups hsource e.target

/-- `withEdge` keeps edges of one kind in the order of their first occurrence. -/
theorem edgeList_withEdge_eraseDups {g : CallGraph} {es : List Edge} {e : Edge}
    (h : g.edgeList = es.eraseDups) (hkind : ∀ x ∈ es, x.kind = e.kind) :
    (g.withEdge e).edgeList = (es ++ [e]).eraseDups := by
  -- all edges so far are of one kind, so the ends tell them apart
  have hends : e.ends ∈ g.edgeList.map Edge.ends ↔ e ∈ es := by
    simp only [h, List.mem_map, List.mem_eraseDups]
    constructor
    · rintro ⟨x, hx, hends⟩
      have hk := hkind x hx
      cases x; cases e
      simp_all [Edge.ends]
    · exact fun he => ⟨e, he, rfl⟩
  rw [CallGraph.edgeList_withEdge, eraseDups_snoc, h]
  simp only [← h, hends]

/-! ## The steps of a builder -/

/-- A builder with the given settings was told of the methods `ks`, the calls `es`, the skipped
    calls `cs`, the override pairs `ov` and the virtual calls `vc`, in that order and with
    repetition. -/
structure Holds (config : Config) (ks : List Key) (es : List Edge) (cs : List SkippedCall)
    (ov vc : List (Key × Key)) (b : Builder) : Prop where
  rules : b.rules = config.rules
  policy : b.policy = config.policy
  excluded : ∀ k, k ∈ b.excluded ↔ config.leavesOut k = true
  vertices : b.graph.vertexList = ks.eraseDups
  edges : b.graph.edgeList = es.eraseDups
  kinds : ∀ e ∈ es, e.kind = .calls
  skipped : b.graph.skippedList = cs
  overrides : b.overrides.reverse = ov
  virtualCalls : b.virtualCalls.reverse = vc

namespace Holds

variable {config : Config} {ks : List Key} {es : List Edge} {cs : List SkippedCall}
  {ov vc : List (Key × Key)} {b : Builder} {c : Key}

/-- `Holds` at the `start` of a builder, which was told nothing. -/
theorem start {excluded : List Key} (h : config.excluded = .ok excluded) :
    Holds config [] [] [] [] [] (.start config.rules config.policy excluded) :=
  ⟨rfl, rfl, fun _ => mem_excluded_iff h, rfl, rfl, nofun, rfl, rfl, rfl⟩

/-- `Holds` says nothing about the report. -/
theorem congr_report (h : Holds config ks es cs ov vc b) (report : Report) :
    Holds config ks es cs ov vc { b with report } :=
  ⟨h.rules, h.policy, h.excluded, h.vertices, h.edges, h.kinds, h.skipped, h.overrides,
    h.virtualCalls⟩

/-- `declare` tells a builder of one more method. -/
theorem declare (h : Holds config ks es cs ov vc b) (c : Key) :
    Holds config (ks ++ [c]) es cs ov vc (b.declare c) where
  rules := h.rules
  policy := h.policy
  excluded := h.excluded
  vertices := vertexList_addVertex_eraseDups h.vertices c
  edges := (CallGraph.edgeList_addVertex _ _).trans h.edges
  kinds := h.kinds
  skipped := (CallGraph.skippedList_addVertex _ _).trans h.skipped
  overrides := h.overrides
  virtualCalls := h.virtualCalls

/-- A key is in `excluded` iff `keep?` does not keep it. -/
theorem mem_excluded_iff_keep? (h : Holds config ks es cs ov vc b) {k : Key} :
    k ∈ b.excluded ↔ config.keep? k = none := by
  rw [h.excluded, Config.keep?]
  split <;> simp_all

/-- What is not in `excluded` is kept by `keep?`. -/
theorem keep?_of_notMem (h : Holds config ks es cs ov vc b) {k : Key} (hk : k ∉ b.excluded) :
    config.keep? k = some k := by
  rw [h.excluded, Bool.not_eq_true] at hk
  simp [Config.keep?, hk]

/-- `addOverride` tells a builder of one more override pair, unless the method is left out. -/
theorem addOverride (h : Holds config ks es cs ov vc b) (c : Key) (s : Symbol) :
    Holds config ks es cs
      (ov ++ (config.keep? (Key.ofSymbol config.rules s)).toList.map fun base => (base, c)) vc
      (b.addOverride c s) := by
  simp only [Builder.addOverride, h.rules]
  split
  -- a method that is left out makes no pair
  · next hout =>
    rw [h.mem_excluded_iff_keep?.1 hout, Option.toList_none, List.map_nil, List.append_nil]
    exact h
  · next hkeep =>
    rw [h.keep?_of_notMem hkeep]
    refine ⟨rfl, h.policy, h.excluded, h.vertices, h.edges, h.kinds, h.skipped, ?_,
      h.virtualCalls⟩
    simp [h.overrides]

/-- `addCall` tells a builder of what a call site has: a method reached, a call, a virtual call, or
    a skipped call. -/
theorem addCall (h : Holds config ks es cs ov vc b) (hc : c ∈ ks) (site : CallSite) :
    Holds config (ks ++ (config.reached? site).toList)
      (es ++ (config.reached? site).toList.map fun t => ⟨c, t, .calls⟩)
      (cs ++ (Config.skipped? c site).toList) ov
      (vc ++ (config.reachedVirtually? site).toList.map fun t => (c, t))
      (b.addCall c site) := by
  cases site with
  | unresolved call =>
    simp only [Config.reached?, Config.reachedVirtually?, Option.toList_none, List.map_nil,
      List.append_nil]
    refine ⟨h.rules, h.policy, h.excluded, h.vertices, h.edges, h.kinds, ?_, h.overrides,
      h.virtualCalls⟩
    simp [Builder.addCall, h.skipped, Config.skipped?]
  | resolved call =>
    have hcallee : b.callee call = config.called call := by
      rw [Builder.callee, h.rules, Config.called]
    simp only [Builder.addCall, hcallee, Config.reached?, Config.reachedVirtually?,
      Config.skipped?, Option.toList_none, List.append_nil]
    -- a call of a method that is left out is counted, which does not matter here
    by_cases hout : config.called call ∈ b.excluded
    · simp only [hout, if_true, h.mem_excluded_iff_keep?.1 hout, ite_self, Option.toList_none,
        List.map_nil, List.append_nil]
      exact h.congr_report _
    · simp only [hout, if_false, h.keep?_of_notMem hout, Option.toList_some, List.map_cons,
        List.map_nil]
      refine ⟨h.rules, h.policy, h.excluded, ?_, ?_, ?_, ?_, h.overrides, ?_⟩
      -- the caller was declared before, so that only the target may be new
      · exact vertexList_withEdge_eraseDups h.vertices hc
      · exact edgeList_withEdge_eraseDups h.edges h.kinds
      · intro e he
        rcases List.mem_append.1 he with he | he
        · exact h.kinds e he
        · rw [List.mem_singleton.1 he]
      · exact (CallGraph.skippedList_withEdge _ _).trans h.skipped
      · split <;> simp [h.virtualCalls]

/-! ## Records -/

/-- `Holds` after `addOverride` for all overridden methods of a record. -/
theorem foldl_addOverride (h : Holds config ks es cs ov vc b) (c : Key) (ss : List Symbol) :
    Holds config ks es cs
      (ov ++ (ss.filterMap fun s => config.keep? (Key.ofSymbol config.rules s)).map
        fun base => (base, c)) vc
      (ss.foldl (Builder.addOverride c) b) := by
  induction ss generalizing b ov with
  | nil => simpa using h
  | cons s ss ih =>
    have hrest := ih (h.addOverride c s)
    rw [List.append_assoc, ← List.map_append] at hrest
    simpa only [List.foldl_cons, List.filterMap_eq_flatMap_toList, List.flatMap_cons] using hrest

/-- `Holds` after `addCall` for all call sites of a record. -/
theorem foldl_addCall (h : Holds config ks es cs ov vc b) (hc : c ∈ ks) (sites : List CallSite) :
    Holds config (ks ++ sites.filterMap config.reached?)
      (es ++ (sites.filterMap config.reached?).map fun t => ⟨c, t, .calls⟩)
      (cs ++ sites.filterMap (Config.skipped? c)) ov
      (vc ++ (sites.filterMap config.reachedVirtually?).map fun t => (c, t))
      (sites.foldl (Builder.addCall c) b) := by
  induction sites generalizing b ks es cs vc with
  | nil => simpa using h
  | cons site sites ih =>
    -- the caller stays known as methods are added
    have hrest := ih (h.addCall hc site) (List.mem_append_left _ hc)
    simp only [List.append_assoc, ← List.map_append] at hrest
    simpa only [List.foldl_cons, List.filterMap_eq_flatMap_toList, List.flatMap_cons] using hrest

/-- `add` tells a builder what one record says. -/
theorem add (h : Holds config ks es cs ov vc b) (r : Record) :
    Holds config (ks ++ config.occurrences [r]) (es ++ config.callEdges [r])
      (cs ++ config.skipped [r]) (ov ++ config.overridePairs [r])
      (vc ++ config.virtualCalls [r]) (b.add r) := by
  have hkey : Key.ofSymbol b.rules r.declaration = config.declared r := by
    rw [h.rules, Config.declared]
  simp only [Builder.add, hkey, h.excluded]
  -- a record of a method that is left out says nothing
  by_cases hout : config.leavesOut (config.declared r) = true
  · have hkept : config.kept [r] = [] := by simp [Config.kept, hout]
    simp only [Config.occurrences, Config.callEdges, Config.skipped, Config.overridePairs,
      Config.virtualCalls, hkept, List.flatMap_nil, List.append_nil, if_pos hout]
    exact h.congr_report _
  · have hkept : config.kept [r] = [r] := by simpa [Config.kept] using hout
    have hmem : config.declared r ∈ ks ++ [config.declared r] := by simp
    -- the record is counted and its method declared, and then come its parts
    have hdecl := (h.congr_report { b.report with records := b.report.records + 1 }).declare
      (config.declared r)
    have hrun := (hdecl.foldl_addOverride (config.declared r) r.overrides).foldl_addCall hmem
      r.calls
    simpa [Config.occurrences, Config.callEdges, Config.skipped, Config.overridePairs,
      Config.virtualCalls, hkept, hout] using hrun

end Holds

/-- A builder with the given settings was told what the records say. -/
def Told (config : Config) (records : List Record) (b : Builder) : Prop :=
  Holds config (config.occurrences records) (config.callEdges records) (config.skipped records)
    (config.overridePairs records) (config.virtualCalls records) b

/-- `Told` with one more record. -/
theorem Told.add {config : Config} {records : List Record} {b : Builder}
    (h : Told config records b) (r : Record) : Told config (records ++ [r]) (b.add r) := by
  have hadd := Holds.add h r
  -- all lists are those of single records, one behind the other
  simpa only [Told, Config.occurrences, Config.callEdges, Config.skipped, Config.overridePairs,
    Config.virtualCalls, Config.kept, List.filter_append, List.flatMap_append] using hadd

/-- `addRecords` takes all records iff none of them has a problem. -/
theorem addRecords_eq_ok_iff {b b' : Builder} {records : List Record} :
    b.addRecords records = (b', .ok ()) ↔
      (∀ r ∈ records, r.check = .ok ()) ∧ b' = records.foldl Builder.add b := by
  induction records generalizing b with
  | nil => simp [Builder.addRecords, eq_comm]
  | cons r records ih =>
    cases hcheck : r.check with
    | error e => simp [Builder.addRecords, Builder.addRecord, hcheck]
    | ok u => simp [Builder.addRecords, Builder.addRecord, hcheck, ih]

/-- `Told` with any number of records more. -/
theorem Told.foldl_add {config : Config} {records rest : List Record} {b : Builder}
    (h : Told config records b) : Told config (records ++ rest) (rest.foldl Builder.add b) := by
  induction rest generalizing records b with
  | nil => simpa using h
  | cons r rest ih => simpa using ih (h.add r)

/-! ## Dispatch -/

/-- What a map has at some key is among its values. -/
theorem mem_values_of_getElem? {m : TreeMap Key (List Key)} {k : Key} {ks : List Key}
    (h : m[k]? = some ks) : ks ∈ m.values := by
  -- values are collected by a fold over the tree, as pairs are
  have hvalues : m.values = m.toList.map Prod.snd := by
    rw [List.map_eq_foldr]
    exact TreeMap.foldr_eq_foldr_toList
  rw [hvalues]
  exact List.mem_map.2 ⟨(k, ks), TreeMap.mem_toList_iff_getElem?_eq_some.2 h, rfl⟩

/-- What stands in a list of a map is among its values. -/
theorem mem_ofList_values {direct : TreeMap Key (List Key)} {a b : Key}
    (h : b ∈ direct.getD a []) : b ∈ TreeSet.ofList direct.values.flatten := by
  rw [Digraph.mem_ofList_iff, List.mem_flatten]
  rw [TreeMap.getD_eq_getD_getElem?] at h
  -- a key that is not there has an empty list
  cases hget : direct[a]? with
  | none => simp [hget] at h
  | some ks =>
    rw [hget, Option.getD_some] at h
    exact ⟨ks, mem_values_of_getElem? hget, h⟩

/-- `implementations` has the methods at the end of a chain of direct ones. -/
theorem mem_implementations_iff_transGen {direct : TreeMap Key (List Key)} {base k : Key} :
    k ∈ Builder.implementations direct base ↔
      TransGen (Digraph.Arrow (direct.getD · [])) base k := by
  rw [Builder.implementations, CallGraph.mem_distinct, Digraph.mem_successors_iff,
    Digraph.into_eq_arrow fun _ _ => mem_ofList_values]

/-- `implementations` has the methods at the end of a chain of override pairs. -/
theorem mem_implementations_iff {pairs : List (Key × Key)} {base k : Key} :
    k ∈ Builder.implementations (Digraph.adjacency pairs) base ↔
      TransGen (fun a b => (a, b) ∈ pairs) base k := by
  have harrow : Digraph.Arrow ((Digraph.adjacency pairs).getD · []) =
      fun a b => (a, b) ∈ pairs := by
    funext a b
    exact propext Digraph.mem_adjacency
  rw [mem_implementations_iff_transGen, harrow]

/-- `dispatchEdges` leads from a virtual call to every method at the end of a chain of override
    pairs from its target. -/
theorem Builder.mem_dispatchEdges {b : Builder} {e : Edge} :
    e ∈ b.dispatchEdges ↔ e.kind = .dispatches ∧ b.policy = .fanOut ∧
      ∃ t, (e.source, t) ∈ b.virtualCalls ∧
        TransGen (fun x y => (x, y) ∈ b.properOverrides) t e.target := by
  rw [Builder.dispatchEdges]
  cases b.policy with
  -- no dispatch at all
  | staticTarget => simp
  | fanOut =>
    simp only [List.mem_flatMap, List.mem_reverse, List.mem_map, mem_implementations_iff,
      Prod.exists, true_and]
    constructor
    · rintro ⟨c, t, hcall, i, hchain, rfl⟩
      exact ⟨rfl, t, hcall, hchain⟩
    · obtain ⟨c, i, kind⟩ := e
      rintro ⟨rfl, t, hcall, hchain⟩
      exact ⟨c, t, hcall, i, hchain, rfl⟩

namespace Builder

/-- `addDispatch` adds one edge to the graph. -/
@[simp] theorem graph_addDispatch (b : Builder) (e : Edge) :
    (b.addDispatch e).graph = b.graph.withEdge e := rfl

/-- `addDispatch` counts as many edges as it adds: one if there was none with its ends. -/
theorem dispatchEdges_addDispatch (b : Builder) (e : Edge) : ∃ new,
    (b.addDispatch e).report.dispatchEdges = b.report.dispatchEdges + new ∧
      (b.addDispatch e).graph.edgeCount = b.graph.edgeCount + new :=
  ⟨if (b.graph.addEdge e).2 then 1 else 0, rfl, CallGraph.edgeCount_withEdge _ _⟩

/-- A run of `addDispatch` adds its edges to the graph, one after the other. -/
theorem graph_foldl_addDispatch (b : Builder) (es : List Edge) :
    (es.foldl addDispatch b).graph = es.foldl CallGraph.withEdge b.graph := by
  induction es generalizing b with
  | nil => rfl
  | cons e es ih => rw [List.foldl_cons, ih, graph_addDispatch, List.foldl_cons]

/-- A run of `addDispatch` counts as many edges as it adds, by induction on the edges. -/
theorem dispatchEdges_foldl_addDispatch (b : Builder) (es : List Edge) : ∃ new,
    (es.foldl addDispatch b).report.dispatchEdges = b.report.dispatchEdges + new ∧
      (es.foldl addDispatch b).graph.edgeCount = b.graph.edgeCount + new := by
  induction es generalizing b with
  | nil => exact ⟨0, rfl, rfl⟩
  | cons e es ih =>
    -- what the first edge adds and what the others add come together
    obtain ⟨first, hcount, hedges⟩ := b.dispatchEdges_addDispatch e
    obtain ⟨rest, hcount', hedges'⟩ := ih (b.addDispatch e)
    refine ⟨first + rest, ?_, ?_⟩
    · rw [List.foldl_cons, hcount', hcount, Nat.add_assoc]
    · rw [List.foldl_cons, hedges', hedges, Nat.add_assoc]

/-- A run of `addDispatch` changes no other number of the report. -/
theorem report_foldl_addDispatch (b : Builder) (es : List Edge) :
    (es.foldl addDispatch b).report =
      { b.report with dispatchEdges := (es.foldl addDispatch b).report.dispatchEdges } := by
  induction es generalizing b with
  | nil => rfl
  | cons e es ih =>
    -- the counter of the first edge is written over by that of all
    rw [List.foldl_cons, ih]
    rfl

/-- `finish` adds the edges of all dispatches to the graph. -/
theorem finish_fst (b : Builder) :
    b.finish.1 = b.dispatchEdges.foldl CallGraph.withEdge b.graph :=
  b.graph_foldl_addDispatch _

/-- `finish` counts the edges that the finished graph has more, and changes no other number. -/
theorem finish_snd (b : Builder) :
    b.finish.2 = { b.report with
      dispatchEdges :=
        b.report.dispatchEdges + (b.finish.1.edgeCount - b.graph.edgeCount) } := by
  obtain ⟨new, hcount, hedges⟩ := b.dispatchEdges_foldl_addDispatch b.dispatchEdges
  have hnew : b.finish.1.edgeCount - b.graph.edgeCount = new := by
    rw [finish, resolveDispatch, hedges, Nat.add_sub_cancel_left]
  rw [hnew, ← hcount]
  exact b.report_foldl_addDispatch _

end Builder

/-- `finish` adds the edges of dispatches whose ends have no edge yet. -/
theorem Builder.mem_edgeList_finish {b : Builder} {e : Edge} :
    e ∈ b.finish.1.edgeList ↔
      e ∈ b.graph.edgeList ∨ e ∈ b.dispatchEdges ∧ e.ends ∉ b.graph.edgeList.map Edge.ends := by
  have hkind : ∀ e ∈ b.dispatchEdges, e.kind = .dispatches :=
    fun e he => (Builder.mem_dispatchEdges.1 he).1
  rw [Builder.finish_fst]
  exact CallGraph.mem_edgeList_foldl_withEdge hkind

namespace Told

variable {config : Config} {records : List Record} {b : Builder}

/-- `properOverrides` are the pairs of the relation `Overridden`. -/
theorem mem_properOverrides_iff (h : Told config records b) {base d : Key} :
    (base, d) ∈ b.properOverrides ↔ config.Overridden records base d := by
  rw [← Config.mem_overridePairs, ← h.overrides, List.mem_reverse]
  simp [Builder.properOverrides]

/-- `dispatchEdges` are those of the relation `Dispatches`, if virtual calls fan out. -/
theorem mem_dispatchEdges_iff (h : Told config records b) {e : Edge} :
    e ∈ b.dispatchEdges ↔ e.kind = .dispatches ∧ config.policy = .fanOut ∧
      config.Dispatches records e.source e.target := by
  -- what the builder keeps is what the records say
  have hover : (fun x y => (x, y) ∈ b.properOverrides) = config.Overridden records := by
    funext x y
    exact propext h.mem_properOverrides_iff
  have hcall : ∀ c t, (c, t) ∈ b.virtualCalls ↔ config.CallsVirtually records c t := by
    intro c t
    rw [← Config.mem_virtualCalls, ← h.virtualCalls, List.mem_reverse]
  simp only [Builder.mem_dispatchEdges, h.policy, hcall, hover, Config.Dispatches]

/-- `finish` adds no vertex. -/
theorem vertexList_finish (h : Told config records b) :
    b.finish.1.vertexList = b.graph.vertexList := by
  rw [Builder.finish_fst]
  refine CallGraph.vertexList_foldl_withEdge fun e he => ?_
  -- the caller occurs because it calls, and the target because it is declared
  have hends := (h.mem_dispatchEdges_iff.1 he).2.2.mem_occurrences
  simpa only [h.vertices, List.mem_eraseDups] using hends

/-- `finish` adds no skipped call, so that they are those of the records. -/
theorem skippedList_finish (h : Told config records b) :
    b.finish.1.skippedList = config.skipped records := by
  rw [Builder.finish_fst, CallGraph.skippedList_foldl_withEdge, h.skipped]

/-- Before `finish`, the ends of the edges are those of the relation `Calls`. -/
theorem mem_ends_iff (h : Told config records b) {c t : Key} :
    (c, t) ∈ b.graph.edgeList.map Edge.ends ↔ config.Calls records c t := by
  simp only [h.edges, List.mem_map, List.mem_eraseDups, Config.mem_callEdges]
  constructor
  · rintro ⟨e, ⟨-, hcalls⟩, hends⟩
    rw [Edge.ends, Prod.mk.injEq] at hends
    rwa [hends.1, hends.2] at hcalls
  · exact fun hcalls => ⟨⟨c, t, .calls⟩, ⟨rfl, hcalls⟩, rfl⟩

/-- After `finish`, the edges are the calls, and the dispatches that are no calls. -/
theorem mem_edgeList_finish_iff (h : Told config records b) {e : Edge} :
    e ∈ b.finish.1.edgeList ↔
      e.kind = .calls ∧ config.Calls records e.source e.target ∨
        e.kind = .dispatches ∧ config.policy = .fanOut ∧ ¬ config.Calls records e.source e.target ∧
          config.Dispatches records e.source e.target := by
  rw [Builder.mem_edgeList_finish, h.mem_dispatchEdges_iff, Edge.ends, h.mem_ends_iff, h.edges,
    List.mem_eraseDups, Config.mem_callEdges]
  tauto

/-- After `finish`, the graph leads where the records lead. -/
theorem adj_finish (h : Told config records b) : b.finish.1.Adj = config.Leads records := by
  funext c t
  simp only [CallGraph.adj_iff, h.mem_edgeList_finish_iff, Config.Leads, eq_iff_iff]
  constructor
  · rintro ⟨e, ⟨-, hcalls⟩ | ⟨-, hpolicy, -, hdispatches⟩, rfl, rfl⟩
    · exact .inl hcalls
    · exact .inr ⟨hpolicy, hdispatches⟩
  · intro hleads
    -- a dispatch that is a call as well has an edge of the other kind
    by_cases hcalls : config.Calls records c t
    · exact ⟨⟨c, t, .calls⟩, .inl ⟨rfl, hcalls⟩, rfl, rfl⟩
    · obtain ⟨hpolicy, hdispatches⟩ := hleads.resolve_left hcalls
      exact ⟨⟨c, t, .dispatches⟩, .inr ⟨rfl, hpolicy, hcalls, hdispatches⟩, rfl, rfl⟩

end Told

/-! ## Building -/

variable {config : Config} {records : List Record} {g : CallGraph} {report : Report}

/-- `build` gives a graph iff the methods to leave out can be read and no record has a problem. -/
theorem build_eq_ok_iff :
    build config records = .ok (g, report) ↔ ∃ excluded, config.excluded = .ok excluded ∧
      (∀ r ∈ records, r.check = .ok ()) ∧
      (records.foldl Builder.add (.start config.rules config.policy excluded)).finish =
        (g, report) := by
  cases hexcluded : config.excluded with
  | error e => simp [build, Builder.ofConfig, hexcluded, Except.map]
  | ok excluded =>
    simp only [build, Builder.ofConfig, hexcluded, Except.map, Except.ok.injEq, exists_eq_left']
    split
    · next b hadd =>
      obtain ⟨hcheck, rfl⟩ := addRecords_eq_ok_iff.1 hadd
      exact ⟨fun h => ⟨hcheck, Except.ok.inj h⟩, fun h => congrArg Except.ok h.2⟩
    -- a record was refused, so that one has a problem
    · next b e hadd =>
      refine ⟨nofun, fun ⟨hcheck, _⟩ => ?_⟩
      rw [addRecords_eq_ok_iff.2 ⟨hcheck, rfl⟩] at hadd
      cases hadd

/-- `build` gives a graph for settings whose exclusions can be read and records without a
    problem. -/
theorem exists_build {excluded : List Key} (hexcluded : config.excluded = .ok excluded)
    (hvalid : ∀ r ∈ records, r.check = .ok ()) :
    ∃ g report, build config records = .ok (g, report) :=
  ⟨_, _, build_eq_ok_iff.2 ⟨excluded, hexcluded, hvalid, rfl⟩⟩

/-- Whether `build` gives a graph depends on the exclusions and on each record alone. -/
theorem exists_build_iff :
    (∃ out, build config records = .ok out) ↔
      (∃ excluded, config.excluded = .ok excluded) ∧ ∀ r ∈ records, r.check = .ok () := by
  constructor
  · rintro ⟨⟨g, report⟩, hbuild⟩
    obtain ⟨excluded, hexcluded, hvalid, -⟩ := build_eq_ok_iff.1 hbuild
    exact ⟨⟨excluded, hexcluded⟩, hvalid⟩
  · rintro ⟨⟨excluded, hexcluded⟩, hvalid⟩
    obtain ⟨g, report, hbuild⟩ := exists_build hexcluded hvalid
    exact ⟨_, hbuild⟩

/-- `ofConfig` gives a builder at its `start` iff the methods to leave out can be read. -/
theorem ofConfig_eq_ok_iff {start : Builder} :
    Builder.ofConfig config = .ok start ↔
      ∃ excluded, config.excluded = .ok excluded ∧
        start = .start config.rules config.policy excluded := by
  rw [Builder.ofConfig]
  cases config.excluded with
  | error e => simp [Except.map]
  | ok excluded => simp [Except.map, eq_comm]

/-- A builder to which records were added was told what they say. -/
theorem told_of_addRecords {start b : Builder} (hstart : Builder.ofConfig config = .ok start)
    (hadd : start.addRecords records = (b, .ok ())) : Told config records b := by
  obtain ⟨excluded, hexcluded, rfl⟩ := ofConfig_eq_ok_iff.1 hstart
  obtain ⟨-, rfl⟩ := addRecords_eq_ok_iff.1 hadd
  have htold : Told config [] (.start config.rules config.policy excluded) :=
    Holds.start hexcluded
  simpa using htold.foldl_add

/-- `build` ends in a builder that was `Told` what the records say. -/
theorem told_of_build (h : build config records = .ok (g, report)) :
    ∃ start b, Builder.ofConfig config = .ok start ∧ start.addRecords records = (b, .ok ()) ∧
      b.finish = (g, report) ∧ Told config records b := by
  obtain ⟨excluded, hexcluded, hcheck, hfinish⟩ := build_eq_ok_iff.1 h
  have hstart := ofConfig_eq_ok_iff.2 ⟨excluded, hexcluded, rfl⟩
  -- the builder at the end is the fold over all records
  have hadd : (Builder.start config.rules config.policy excluded).addRecords records =
      (_, .ok ()) :=
    addRecords_eq_ok_iff.2 ⟨hcheck, rfl⟩
  exact ⟨_, _, hstart, hadd, hfinish, told_of_addRecords hstart hadd⟩

/-- After `build`, the vertices are the methods that occur, in the order in which they do. -/
theorem vertexList_of_build (h : build config records = .ok (g, report)) :
    g.vertexList = (config.occurrences records).eraseDups := by
  obtain ⟨_, b, -, -, hfinish, htold⟩ := told_of_build h
  have hvertices := htold.vertexList_finish
  rwa [hfinish, htold.vertices] at hvertices

/-- After `build`, a method is a vertex iff it occurs. -/
theorem mem_vertexList_of_build (h : build config records = .ok (g, report)) {k : Key} :
    k ∈ g.vertexList ↔ k ∈ config.occurrences records := by
  rw [vertexList_of_build h, List.mem_eraseDups]

/-- After `build`, the edges are the calls, and the dispatches that are no calls. -/
theorem mem_edgeList_of_build (h : build config records = .ok (g, report)) {e : Edge} :
    e ∈ g.edgeList ↔
      e.kind = .calls ∧ config.Calls records e.source e.target ∨
        e.kind = .dispatches ∧ config.policy = .fanOut ∧ ¬ config.Calls records e.source e.target ∧
          config.Dispatches records e.source e.target := by
  obtain ⟨_, b, -, -, hfinish, htold⟩ := told_of_build h
  have hedges : e ∈ b.finish.1.edgeList ↔ _ := htold.mem_edgeList_finish_iff
  rwa [hfinish] at hedges

/-- After `build`, the skipped calls are those of the records, in their order. -/
theorem skippedList_of_build (h : build config records = .ok (g, report)) :
    g.skippedList = config.skipped records := by
  obtain ⟨_, b, -, -, hfinish, htold⟩ := told_of_build h
  have hskipped := htold.skippedList_finish
  rwa [hfinish] at hskipped

/-- After `build`, the graph leads where the records lead. -/
theorem adj_of_build (h : build config records = .ok (g, report)) :
    g.Adj = config.Leads records := by
  obtain ⟨_, b, -, -, hfinish, htold⟩ := told_of_build h
  have hadj := htold.adj_finish
  rwa [hfinish] at hadj

/-- `build` gives the graph that the records describe: its vertices are the `occurrences`, in the
    order of the first one of each, and are known before the dispatch pass; its edges are `Calls`,
    and under fan-out those of `Dispatches` that are no calls, one for each pair; its skipped calls
    are those of the records, in their order. -/
theorem build_exact (h : build config records = .ok (g, report)) :
    (g.vertexList = (config.occurrences records).eraseDups ∧ g.vertexList.Nodup ∧
      ∃ start b, Builder.ofConfig config = .ok start ∧ start.addRecords records = (b, .ok ()) ∧
        b.finish = (g, report) ∧ b.graph.vertexList = g.vertexList) ∧
    (∀ c t, ⟨c, t, .calls⟩ ∈ g.edgeList ↔ config.Calls records c t) ∧
    (∀ c i, ⟨c, i, .dispatches⟩ ∈ g.edgeList ↔
      config.policy = .fanOut ∧ ¬ config.Calls records c i ∧ config.Dispatches records c i) ∧
    (g.edgeList.map Edge.ends).Nodup ∧
    g.skippedList = config.skipped records := by
  obtain ⟨start, b, hstart, hadd, hfinish, htold⟩ := told_of_build h
  -- the graph is that of the builder before dispatch, with the edges of dispatch
  have hg : b.finish.1 = g := congrArg Prod.fst hfinish
  have hvertices : b.graph.vertexList = g.vertexList := by rw [← hg, htold.vertexList_finish]
  have hedges : ∀ e : Edge, e ∈ g.edgeList ↔ _ := fun e => hg ▸ htold.mem_edgeList_finish_iff
  refine ⟨⟨?_, g.nodup_vertexList, start, b, hstart, hadd, hfinish, hvertices⟩, fun c t => ?_,
    fun c i => ?_, g.nodup_ends, ?_⟩
  · rw [← hvertices, htold.vertices]
  · simp [hedges]
  · simp [hedges]
  · rw [← hg, htold.skippedList_finish]

/-- A screen draws the shapes it shows, and a circle shows itself when it is drawn. -/
def shapeRecords : List Record :=
  [{ declaration := ⟨"Screen", "show", ["Shape"]⟩
     calls := [.resolved { target := ⟨"Shape", "draw", []⟩ },
               .resolved { target := ⟨"Log", "write", ["String"]⟩ },
               .unresolved { expression := "flush()" }] },
   { declaration := ⟨"Circle", "draw", []⟩
     overrides := [⟨"Shape", "draw", []⟩]
     calls := [.resolved { target := ⟨"Screen", "show", ["Circle"]⟩
                           declaredParams := some ["Shape"] }] }]

/-- Virtual calls fan out, and the log is left out. -/
def shapeConfig : Config := { exclude := ["Log.write(String)"] }

/-- These settings and records give a graph. -/
theorem build_shapes : ∃ g report, build shapeConfig shapeRecords = .ok (g, report) := by
  have hexcluded : shapeConfig.excluded = .ok [⟨"Log", "write", ["String"]⟩] := by decide +kernel
  have hcheck : ∀ r ∈ shapeRecords, r.check = .ok () := by decide
  exact exists_build hexcluded hcheck

/-- Showing a shape may draw a circle. -/
theorem dispatches_shapes :
    shapeConfig.Dispatches shapeRecords ⟨"Screen", "show", ["Shape"]⟩ ⟨"Circle", "draw", []⟩ := by
  refine ⟨⟨"Shape", "draw", []⟩, Config.mem_virtualCalls.1 (by decide +kernel), .single ?_⟩
  exact Config.mem_overridePairs.1 ⟨by decide +kernel, by decide⟩

/-- In the graph of `shapeRecords`, the dispatch of the screen to the circle is an edge, and the log
    is no vertex. -/
theorem build_exact_shapes : ∃ g report, build shapeConfig shapeRecords = .ok (g, report) ∧
    g.vertexList =
      [⟨"Screen", "show", ["Shape"]⟩, ⟨"Shape", "draw", []⟩, ⟨"Circle", "draw", []⟩] ∧
    ⟨⟨"Screen", "show", ["Shape"]⟩, ⟨"Circle", "draw", []⟩, .dispatches⟩ ∈ g.edgeList ∧
    g.skippedList = [⟨⟨"Screen", "show", ["Shape"]⟩, "flush()", none, none⟩] := by
  obtain ⟨g, report, h⟩ := build_shapes
  obtain ⟨⟨hvertices, -⟩, -, hdispatches, -, hskipped⟩ := build_exact h
  refine ⟨g, report, h, ?_, ?_, ?_⟩
  · rw [hvertices]
    decide +kernel
  -- the circle is not called by the screen itself
  · have hcalls : ¬ shapeConfig.Calls shapeRecords ⟨"Screen", "show", ["Shape"]⟩
        ⟨"Circle", "draw", []⟩ := by
      rw [← Config.mk_mem_callEdges]
      decide +kernel
    exact (hdispatches _ _).2 ⟨rfl, hcalls, dispatches_shapes⟩
  · rw [hskipped]
    decide +kernel

end CallCycle.Build

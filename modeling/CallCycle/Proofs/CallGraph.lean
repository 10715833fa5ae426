import CallCycle.CallGraph.Scope
import CallCycle.Proofs.Reachability
import Mathlib.Data.List.Nodup

/-!
# Walks in a call graph, and what adding many parts does

The edges of a call graph are read off `edgeList`; `Reaches` and `OnCycle` are walks along them.
Adding a list of vertices, edges or skipped calls to a graph is described through its views, and
the scope of a method and the part of the graph that lies there by walks.

## Key results

- `arrow_succ`: the search follows the edges of `edgeList`
- `vertexList_foldl_addVertex`, `edgeList_foldl_withEdge`: adding many vertices or edges
- `vertexList_restrict`, `edgeList_restrict`, `skippedList_restrict`: a part of a graph
- `mem_scope_iff`, `extract_of_mem`: the scope of a method is what it reaches
- `transGen_adj_restrict`: the walks in a scope
-/

namespace CallCycle.CallGraph

open Std Relation

/-- An edge leads from `a` to `b`. -/
def Adj (g : CallGraph) (a b : Key) : Prop := (a, b) ∈ g.edgeList.map Edge.ends

/-- A walk of any length leads from `a` to `b`. -/
def Reaches (g : CallGraph) (a b : Key) : Prop := ReflTransGen g.Adj a b

/-- A walk of one edge or more leads from `k` back to it. -/
def OnCycle (g : CallGraph) (k : Key) : Prop := TransGen g.Adj k k

/-- `Adj` by an edge with the given ends. -/
theorem adj_iff {g : CallGraph} {a b : Key} :
    g.Adj a b ↔ ∃ e ∈ g.edgeList, e.source = a ∧ e.target = b := by
  simp [Adj, Edge.ends]

/-- The search by `succ` follows the edges of `edgeList`. -/
theorem arrow_succ (g : CallGraph) : Digraph.Arrow g.succ = g.Adj := by
  funext a b
  exact propext mem_succ_iff

/-- The ends of an edge are in `vertexList`. -/
theorem mem_vertexList_of_mem_edgeList {g : CallGraph} {e : Edge} (h : e ∈ g.edgeList) :
    e.source ∈ g.vertexList ∧ e.target ∈ g.vertexList := by
  have := g.ends_mem e (List.mem_reverse.1 h)
  exact ⟨mem_index_iff.1 this.1, mem_index_iff.1 this.2⟩

/-- `Adj` is a relation between vertices. -/
theorem Adj.mem_vertexList {g : CallGraph} {a b : Key} (h : g.Adj a b) :
    a ∈ g.vertexList ∧ b ∈ g.vertexList := by
  obtain ⟨e, he, rfl, rfl⟩ := adj_iff.1 h
  exact mem_vertexList_of_mem_edgeList he

/-- What is `OnCycle` is a vertex. -/
theorem OnCycle.mem_vertexList {g : CallGraph} {k : Key} (h : g.OnCycle k) :
    k ∈ g.vertexList := by
  obtain ⟨b, hkb, -⟩ := TransGen.head'_iff.1 h
  exact hkb.mem_vertexList.1

/-- What a vertex `Reaches` is a vertex. -/
theorem Reaches.mem_vertexList {g : CallGraph} {a b : Key} (h : g.Reaches a b)
    (ha : a ∈ g.vertexList) : b ∈ g.vertexList := by
  rcases h.cases_tail with rfl | ⟨c, -, hcb⟩
  · exact ha
  · exact hcb.mem_vertexList.2

/-- `vertexList` has every vertex once. -/
theorem nodup_vertexList (g : CallGraph) : g.vertexList.Nodup := by
  rw [List.nodup_iff_pairwise_ne, List.pairwise_iff_getElem]
  intro i j hi hj hij heq
  -- `index` knows one position for the vertex at both places
  have hposI := (g.index_iff _ i).2 (List.getElem?_eq_getElem hi)
  have hposJ := (g.index_iff _ j).2 (List.getElem?_eq_getElem hj)
  rw [heq, hposJ, Option.some.injEq] at hposI
  omega

/-- `edgeList` has no two edges with the same ends. -/
theorem nodup_ends (g : CallGraph) : (g.edgeList.map Edge.ends).Nodup := by
  rw [edgeList, List.map_reverse, List.nodup_reverse]
  exact g.ends_nodup

/-! ## Adding many parts -/

/-- `addVertex` puts vertices that are new and different behind the others. -/
theorem vertexList_foldl_addVertex {g : CallGraph} {ks : List Key}
    (h : (g.vertexList ++ ks).Nodup) :
    (ks.foldl addVertex g).vertexList = g.vertexList ++ ks := by
  induction ks generalizing g with
  | nil => simp
  | cons k ks ih =>
    -- the first one is new, and then the others are behind it
    have hk : k ∉ g.vertexList := fun hmem =>
      (List.nodup_append.1 h).2.2 k hmem k List.mem_cons_self rfl
    have hadd : (g.addVertex k).vertexList = g.vertexList ++ [k] := by
      rw [vertexList_addVertex, if_neg hk]
    rw [List.foldl_cons, ih] <;> rw [hadd] <;> simp [h]

/-- Any number of `addVertex` add no edge. -/
@[simp] theorem edgeList_foldl_addVertex (g : CallGraph) (ks : List Key) :
    (ks.foldl addVertex g).edgeList = g.edgeList := by
  induction ks generalizing g with
  | nil => rfl
  | cons k ks ih => rw [List.foldl_cons, ih, edgeList_addVertex]

/-- Any number of `addVertex` add no skipped call. -/
@[simp] theorem skippedList_foldl_addVertex (g : CallGraph) (ks : List Key) :
    (ks.foldl addVertex g).skippedList = g.skippedList := by
  induction ks generalizing g with
  | nil => rfl
  | cons k ks ih => rw [List.foldl_cons, ih, skippedList_addVertex]

/-- `withEdge` between vertices adds no vertex. -/
theorem vertexList_withEdge_of_mem {g : CallGraph} {e : Edge} (hs : e.source ∈ g.vertexList)
    (ht : e.target ∈ g.vertexList) : (g.withEdge e).vertexList = g.vertexList := by
  have hsource : (g.addVertex e.source).vertexList = g.vertexList := by
    rw [vertexList_addVertex, if_pos hs]
  rw [vertexList_withEdge, vertexList_addVertex, hsource, if_pos ht]

/-- Any number of `withEdge` between vertices add no vertex. -/
theorem vertexList_foldl_withEdge {g : CallGraph} {es : List Edge}
    (h : ∀ e ∈ es, e.source ∈ g.vertexList ∧ e.target ∈ g.vertexList) :
    (es.foldl withEdge g).vertexList = g.vertexList := by
  induction es generalizing g with
  | nil => rfl
  | cons e es ih =>
    obtain ⟨hs, ht⟩ := h e List.mem_cons_self
    have hadd := vertexList_withEdge_of_mem hs ht
    rw [List.foldl_cons, ih, hadd]
    intro e' he'
    rw [hadd]
    exact h e' (List.mem_cons_of_mem _ he')

/-- Any number of `withEdge` add no skipped call. -/
@[simp] theorem skippedList_foldl_withEdge (g : CallGraph) (es : List Edge) :
    (es.foldl withEdge g).skippedList = g.skippedList := by
  induction es generalizing g with
  | nil => rfl
  | cons e es ih => rw [List.foldl_cons, ih, skippedList_withEdge]

/-- `withEdge` puts edges whose ends are new and different behind the others. -/
theorem edgeList_foldl_withEdge {g : CallGraph} {es : List Edge}
    (h : ((g.edgeList ++ es).map Edge.ends).Nodup) :
    (es.foldl withEdge g).edgeList = g.edgeList ++ es := by
  induction es generalizing g with
  | nil => simp
  | cons e es ih =>
    -- the first one has new ends, and then the others are behind it
    have he : e.ends ∉ g.edgeList.map Edge.ends := fun hmem => by
      rw [List.map_append, List.map_cons] at h
      exact (List.nodup_append.1 h).2.2 _ hmem _ List.mem_cons_self rfl
    have hadd : (g.withEdge e).edgeList = g.edgeList ++ [e] := by
      rw [edgeList_withEdge, if_neg he]
    rw [List.foldl_cons, ih] <;> rw [hadd]
    · simp
    · simpa using h

/-- Of edges of one kind `withEdge` adds those with new ends, each once. -/
theorem mem_edgeList_foldl_withEdge {g : CallGraph} {es : List Edge} {kind : EdgeKind}
    (hkind : ∀ e ∈ es, e.kind = kind) {e : Edge} :
    e ∈ (es.foldl withEdge g).edgeList ↔
      e ∈ g.edgeList ∨ e ∈ es ∧ e.ends ∉ g.edgeList.map Edge.ends := by
  induction es generalizing g with
  | nil => simp
  | cons x es ih =>
    rw [List.foldl_cons, ih fun e he => hkind e (List.mem_cons_of_mem _ he), edgeList_withEdge]
    -- of one kind, edges with the same ends are the same
    have hsame : ∀ e ∈ es, e.ends = x.ends → e = x := by
      intro e he hends
      have hke := hkind e (List.mem_cons_of_mem _ he)
      have hkx := hkind x List.mem_cons_self
      cases e; cases x
      simp_all [Edge.ends]
    -- `x` is left out, or is the first edge with its ends
    by_cases hx : x.ends ∈ g.edgeList.map Edge.ends
    · rw [if_pos hx, List.mem_cons]
      refine or_congr_right ⟨fun h => ⟨.inr h.1, h.2⟩, ?_⟩
      rintro ⟨rfl | he, hnew⟩
      · exact absurd hx hnew
      · exact ⟨he, hnew⟩
    · rw [if_neg hx]
      simp only [List.map_append, List.map_cons, List.map_nil, List.mem_append,
        List.mem_singleton, List.mem_cons (l := es), not_or]
      constructor
      · rintro ((he | rfl) | ⟨he, hnew, -⟩)
        · exact .inl he
        · exact .inr ⟨.inl rfl, hx⟩
        · exact .inr ⟨.inr he, hnew⟩
      · rintro (he | ⟨rfl | he, hnew⟩)
        · exact .inl (.inl he)
        · exact .inl (.inr rfl)
        · by_cases hends : e.ends = x.ends
          · exact .inl (.inr (hsame e he hends))
          · exact .inr ⟨he, hnew, hends⟩

/-- Any number of `addSkipped` put the calls behind the others, and change nothing else. -/
theorem foldl_addSkipped_views (g : CallGraph) (cs : List SkippedCall) :
    (cs.foldl addSkipped g).vertexList = g.vertexList ∧
      (cs.foldl addSkipped g).edgeList = g.edgeList ∧
      (cs.foldl addSkipped g).skippedList = g.skippedList ++ cs := by
  induction cs generalizing g with
  | nil => simp
  | cons c cs ih =>
    obtain ⟨hv, he, hs⟩ := ih (g.addSkipped c)
    exact ⟨hv, he, by rw [List.foldl_cons, hs, skippedList_addSkipped, List.append_assoc]; rfl⟩

/-! ## A part of a graph -/

section Restrict

variable (g : CallGraph) (inside : Key → Bool)

/-- The vertices of a part, before edges are added. -/
private theorem vertexList_restrict_vertices :
    ((g.vertexList.filter inside).foldl addVertex empty).vertexList =
      g.vertexList.filter inside := by
  have hnd : (empty.vertexList ++ g.vertexList.filter inside).Nodup :=
    g.nodup_vertexList.filter inside
  rw [vertexList_foldl_addVertex hnd]
  rfl

/-- `restrict` keeps the vertices that lie inside. -/
theorem vertexList_restrict : (g.restrict inside).vertexList = g.vertexList.filter inside := by
  rw [restrict, (foldl_addSkipped_views _ _).1, vertexList_foldl_withEdge,
    vertexList_restrict_vertices]
  -- the ends of the edges that are kept are there already
  intro e he
  obtain ⟨hmem, hin⟩ := List.mem_filter.1 he
  have hends := mem_vertexList_of_mem_edgeList hmem
  rw [Bool.and_eq_true] at hin
  rw [vertexList_restrict_vertices]
  exact ⟨List.mem_filter.2 ⟨hends.1, hin.1⟩, List.mem_filter.2 ⟨hends.2, hin.2⟩⟩

/-- `restrict` keeps the edges with both ends inside. -/
theorem edgeList_restrict : (g.restrict inside).edgeList =
    g.edgeList.filter fun e => inside e.source && inside e.target := by
  rw [restrict, (foldl_addSkipped_views _ _).2.1, edgeList_foldl_withEdge,
    edgeList_foldl_addVertex]
  · rfl
  · rw [edgeList_foldl_addVertex]
    -- no two edges of the graph have the same ends, so none is left out
    exact g.nodup_ends.sublist (List.filter_sublist.map _)

/-- `restrict` keeps the skipped calls with the caller inside. -/
theorem skippedList_restrict : (g.restrict inside).skippedList =
    g.skippedList.filter fun c => inside c.caller := by
  rw [restrict, (foldl_addSkipped_views _ _).2.2, skippedList_foldl_withEdge,
    skippedList_foldl_addVertex]
  rfl

/-- `Adj` after `restrict`: both ends have to lie inside. -/
theorem adj_restrict {a b : Key} :
    (g.restrict inside).Adj a b ↔ g.Adj a b ∧ inside a = true ∧ inside b = true := by
  simp only [adj_iff, edgeList_restrict, List.mem_filter, Bool.and_eq_true]
  constructor
  · rintro ⟨e, ⟨he, hin⟩, rfl, rfl⟩
    exact ⟨⟨e, he, rfl, rfl⟩, hin⟩
  · rintro ⟨⟨e, he, rfl, rfl⟩, hin⟩
    exact ⟨e, ⟨he, hin⟩, rfl, rfl⟩

end Restrict

/-! ## The scope of a method -/

/-- The `scope` of a method is what it `Reaches`. -/
theorem mem_scope_iff {g : CallGraph} {start k : Key} : k ∈ g.scope start ↔ g.Reaches start k := by
  -- edges lead to vertices only, so that the sweep is not restricted
  have hsucc : ∀ a b, b ∈ g.succ a → b ∈ g.vertexSet := by
    intro a b hb
    have hab : g.Adj a b := mem_succ_iff.1 hb
    exact Digraph.mem_ofList_iff.2 hab.mem_vertexList.2
  rw [scope, Digraph.mem_reach_snd, Digraph.into_eq_arrow hsucc, arrow_succ]
  rfl

/-- `extract` gives the part of a graph that lies in the scope of a vertex. -/
theorem extract_of_mem {g : CallGraph} {start : Key} (h : start ∈ g.vertexList) :
    ∃ inside : Key → Bool, (∀ k, inside k = true ↔ g.Reaches start k) ∧
      g.extract start = .ok (g.restrict inside) := by
  refine ⟨(TreeSet.ofList (g.scope start)).contains, fun k => ?_, ?_⟩
  · rw [TreeSet.contains_iff_mem, Digraph.mem_ofList_iff, mem_scope_iff]
  · rw [extract, if_pos (contains_iff.2 h)]

/-- `extract` refuses a method that is no vertex. -/
theorem extract_of_notMem {g : CallGraph} {start : Key} (h : start ∉ g.vertexList) :
    g.extract start = .error ⟨start⟩ := by
  rw [extract, if_neg (fun hcon => h (contains_iff.1 hcon))]

/-- A walk from a vertex in scope stays there, so that `restrict` keeps it. -/
theorem transGen_adj_restrict {g : CallGraph} {start : Key} {inside : Key → Bool}
    (hin : ∀ k, inside k = true ↔ g.Reaches start k) {a b : Key} :
    TransGen (g.restrict inside).Adj a b ↔ TransGen g.Adj a b ∧ g.Reaches start a := by
  constructor
  · intro h
    refine ⟨TransGen.mono (fun _ _ hxy => ((adj_restrict g inside).1 hxy).1) _ _ h, ?_⟩
    obtain ⟨c, hac, -⟩ := TransGen.head'_iff.1 h
    exact (hin a).1 ((adj_restrict g inside).1 hac).2.1
  · rintro ⟨h, ha⟩
    -- what is reached is inside, and so is what it leads to
    have hstep : ∀ x y, g.Reaches start x → g.Adj x y → (g.restrict inside).Adj x y :=
      fun x y hx hxy => (adj_restrict g inside).2 ⟨hxy, (hin x).2 hx, (hin y).2 (hx.tail hxy)⟩
    induction h with
    | single hab => exact .single (hstep _ _ ha hab)
    | tail hac hcb ih => exact ih.tail (hstep _ _ (ha.trans hac.to_reflTransGen) hcb)

end CallCycle.CallGraph

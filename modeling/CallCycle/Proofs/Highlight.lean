import CallCycle.Proofs.Drawing
import CallCycle.Proofs.Extraction

/-!
# What highlighting marks

A drawing with the recursive methods marked shows in red the vertices on cycles and the edges
between them.  Every edge on a cycle is one of these.  So is every edge that leads from one
component of recursive methods to another, although no walk leads back from its target.

## Key results

- `component_eq_iff`: when two recursive methods belong to one component
- `bridges_iff`: the edges between components, by walks
- `toDot_highlight_iff`: the red and the dashed parts of a drawing
-/

namespace CallCycle.CallGraph

open Relation

variable {g : CallGraph} {e : Edge}

/-! ## Edges between components -/

/-- An edge leads from one component of recursive methods to another. -/
def Bridges (g : CallGraph) (e : Edge) : Prop :=
  ∃ ks ∈ g.cycles.components, ∃ ls ∈ g.cycles.components,
    e.source ∈ ks ∧ e.target ∈ ls ∧ ks ≠ ls

/-- Two recursive methods belong to one component of `cycles` iff each reaches the other. -/
theorem component_eq_iff {ks ls : List Key} {a b : Key} (hks : ks ∈ g.cycles.components)
    (hls : ls ∈ g.cycles.components) (ha : a ∈ ks) (hb : b ∈ ls) :
    ks = ls ↔ g.Reaches a b ∧ g.Reaches b a := by
  obtain ⟨hincK, m, -, hmemK⟩ := mem_cycleComponents_iff.1 hks
  obtain ⟨hincL, n, -, hmemL⟩ := mem_cycleComponents_iff.1 hls
  obtain ⟨hma, ham⟩ := (hmemK a).1 ha
  obtain ⟨hnb, hbn⟩ := (hmemL b).1 hb
  constructor
  · rintro rfl
    obtain ⟨hmb, hbm⟩ := (hmemK b).1 hb
    exact ⟨ham.trans hmb, hbm.trans hma⟩
  · rintro ⟨hab, hba⟩
    -- the methods that the components were found from reach each other through `a` and `b`
    have hmn : g.Reaches m n := (hma.trans hab).trans hbn
    have hnm : g.Reaches n m := (hnb.trans hba).trans ham
    refine hincK.ext hincL fun k => ?_
    rw [hmemK, hmemL]
    constructor
    · rintro ⟨hmk, hkm⟩
      exact ⟨hnm.trans hmk, hkm.trans hmn⟩
    · rintro ⟨hnk, hkn⟩
      exact ⟨hmn.trans hnk, hkn.trans hnm⟩

/-- The ends of an edge are `Adj`. -/
theorem adj_of_mem_edgeList (he : e ∈ g.edgeList) : g.Adj e.source e.target :=
  adj_iff.2 ⟨e, he, rfl, rfl⟩

/-- Both ends of an edge on a cycle are `OnCycle`. -/
theorem onCycle_ends (he : e ∈ g.edgeList) (hback : g.Reaches e.target e.source) :
    g.OnCycle e.source ∧ g.OnCycle e.target :=
  ⟨.head' (adj_of_mem_edgeList he) hback, .tail' hback (adj_of_mem_edgeList he)⟩

/-- An edge `Bridges` components iff both ends lie on cycles, but not the edge. -/
theorem bridges_iff (he : e ∈ g.edgeList) :
    g.Bridges e ↔
      (g.OnCycle e.source ∧ g.OnCycle e.target) ∧ ¬ g.Reaches e.target e.source := by
  have hforth : g.Reaches e.source e.target := .single (adj_of_mem_edgeList he)
  constructor
  · -- a walk back from the target would make one component of the two
    rintro ⟨ks, hks, ls, hls, hsource, htarget, hne⟩
    refine ⟨⟨mem_members_iff.1 (mem_members_iff_exists.2 ⟨ks, hks, hsource⟩),
      mem_members_iff.1 (mem_members_iff_exists.2 ⟨ls, hls, htarget⟩)⟩, fun hback => hne ?_⟩
    exact (component_eq_iff hks hls hsource htarget).2 ⟨hforth, hback⟩
  · rintro ⟨⟨honSource, honTarget⟩, hback⟩
    obtain ⟨ks, hks, hsource⟩ := mem_members_iff_exists.1 (mem_members_iff.2 honSource)
    obtain ⟨ls, hls, htarget⟩ := mem_members_iff_exists.1 (mem_members_iff.2 honTarget)
    refine ⟨ks, hks, ls, hls, hsource, htarget, fun heq => hback ?_⟩
    exact ((component_eq_iff hks hls hsource htarget).1 heq).2

/-- Both ends of an edge lie on cycles iff the edge does or it `Bridges` components. -/
theorem onCycle_ends_iff (he : e ∈ g.edgeList) :
    g.OnCycle e.source ∧ g.OnCycle e.target ↔ g.Reaches e.target e.source ∨ g.Bridges e := by
  rw [bridges_iff he]
  constructor
  · intro hends
    -- whether a walk leads back from the target decides between the two
    by_cases hback : g.Reaches e.target e.source
    · exact .inl hback
    · exact .inr ⟨hends, hback⟩
  · rintro (hback | ⟨hends, -⟩)
    · exact onCycle_ends he hback
    · exact hends

/-! ## The drawing -/

section Drawing

variable {i j : Nat}

/-- `toDot` shows the vertices on cycles in red. -/
theorem showsRed_toDot_iff {k : Key} (hk : g.vertexList[i]? = some k) :
    Dot.showsRed (g.toDot true) i = true ↔ g.OnCycle k :=
  (Dot.showsRed_render_iff hk).trans mem_members_iff

/-- `toDot` shows the edges between vertices on cycles in red. -/
theorem showsRedEdge_toDot_iff (he : e ∈ g.edgeList) (hi : g.vertexList[i]? = some e.source)
    (hj : g.vertexList[j]? = some e.target) :
    Dot.showsRedEdge (g.toDot true) i j = true ↔ g.OnCycle e.source ∧ g.OnCycle e.target :=
  (Dot.showsRedEdge_render_iff he hi hj).trans (and_congr mem_members_iff mem_members_iff)

end Drawing

/-- Where `toDot` marks the recursive methods, the red vertices are those `OnCycle`, and the dashed
    edges those of dispatch.  An edge is red iff it lies on a cycle, so that a walk leads back from
    its target, or it `Bridges` components.  The latter are the edges whose colour does not tell
    whether they lie on a cycle. -/
theorem toDot_highlight_iff (g : CallGraph) :
    (∀ i k, g.vertexList[i]? = some k →
      (Dot.showsRed (g.toDot true) i = true ↔ g.OnCycle k)) ∧
    ∀ e ∈ g.edgeList, ∀ i j,
      g.vertexList[i]? = some e.source → g.vertexList[j]? = some e.target →
      (Dot.showsRedEdge (g.toDot true) i j = true ↔
        g.Reaches e.target e.source ∨ g.Bridges e) ∧
      ((Dot.showsRedEdge (g.toDot true) i j = true ↔ g.Reaches e.target e.source) ↔
        ¬ g.Bridges e) ∧
      (Dot.showsDashedEdge (g.toDot true) i j = true ↔ e.kind = .dispatches) := by
  refine ⟨fun i k hk => showsRed_toDot_iff hk, fun e he i j hi hj => ?_⟩
  -- the colour is that of both ends
  have hred : Dot.showsRedEdge (g.toDot true) i j = true ↔
      g.Reaches e.target e.source ∨ g.Bridges e :=
    (showsRedEdge_toDot_iff he hi hj).trans (onCycle_ends_iff he)
  refine ⟨hred, ?_, Dot.showsDashedEdge_render_iff he hi hj⟩
  rw [hred]
  constructor
  -- an edge between components is red, although no walk leads back
  · intro hexact hbridges
    exact ((bridges_iff he).1 hbridges).2 (hexact.1 (.inr hbridges))
  · intro hbridges
    exact or_iff_left hbridges

/-- Of the two methods of `relayGraph` that call each other, one is reached by dispatch: that edge
    is both red and dashed. -/
theorem toDot_highlight_relayGraph :
    Dot.showsRed (relayGraph.toDot true) 0 = true ∧
      Dot.showsRedEdge (relayGraph.toDot true) 1 2 = true ∧
      Dot.showsDashedEdge (relayGraph.toDot true) 1 2 = true := by
  obtain ⟨hvertex, hedge⟩ := toDot_highlight_iff relayGraph
  have hloop : relayGraph.OnCycle ⟨"Main", "loop", []⟩ :=
    .single (hasEdge_iff.1 (by decide +kernel))
  have hback : relayGraph.Reaches ⟨"Pong", "send", []⟩ ⟨"Ping", "send", []⟩ := by decide +kernel
  obtain ⟨hred, -, hdashed⟩ :=
    hedge ⟨⟨"Ping", "send", []⟩, ⟨"Pong", "send", []⟩, .dispatches⟩ (by decide +kernel) 1 2
      (by decide +kernel) (by decide +kernel)
  exact ⟨(hvertex 0 _ (by decide +kernel)).2 hloop, hred.2 (.inl hback), hdashed.2 rfl⟩

/-- Not every red edge lies on a cycle: the call from the loop of `relayGraph` is red, and nothing
    leads back. -/
theorem not_forall_showsRedEdge_iff :
    ¬ ∀ g : CallGraph, ∀ e ∈ g.edgeList, ∀ i j,
      g.vertexList[i]? = some e.source → g.vertexList[j]? = some e.target →
      (Dot.showsRedEdge (g.toDot true) i j = true ↔ g.Reaches e.target e.source) := by
  intro hall
  let e : Edge := ⟨⟨"Main", "loop", []⟩, ⟨"Ping", "send", []⟩, .calls⟩
  have he : e ∈ relayGraph.edgeList := by decide +kernel
  have hi : relayGraph.vertexList[0]? = some e.source := by decide +kernel
  have hj : relayGraph.vertexList[1]? = some e.target := by decide +kernel
  have hsource : relayGraph.OnCycle e.source := .single (hasEdge_iff.1 (by decide +kernel))
  -- the two methods behind the edge call each other
  have htarget : relayGraph.OnCycle e.target := by
    have hcall : relayGraph.Adj ⟨"Ping", "send", []⟩ ⟨"Pong", "send", []⟩ :=
      hasEdge_iff.1 (by decide +kernel)
    have hback : relayGraph.Reaches ⟨"Pong", "send", []⟩ ⟨"Ping", "send", []⟩ := by decide +kernel
    exact .head' hcall hback
  have hred := (showsRedEdge_toDot_iff he hi hj).2 ⟨hsource, htarget⟩
  exact absurd ((hall relayGraph e he 0 1 hi hj).1 hred) (by decide +kernel)

end CallCycle.CallGraph

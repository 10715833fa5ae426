import CallCycle.Proofs.Cycles

/-!
# The part of a graph that a method reaches

Extraction keeps the vertices that the start method reaches, the edges between them and their
skipped calls, all in the order of the graph.  No walk leaves this part, so each component of
recursive methods lies in it or outside of it as a whole.

## Key results

- `extract_eq_restrict`: extraction keeps what the start method reaches
- `extract_exact`: the views of the extracted part, and when there is none
- `reaches_restrict`, `onCycle_restrict`: walks and cycles in a part that is closed under walks
- `cycles_extract`: the recursive methods of the extracted part
- `extract_extract`: extraction from an extracted part
-/

namespace CallCycle.CallGraph

open Std Relation

/-- Whether a walk leads from `a` to `b` is found by the sweep that gives the scope of `a`. -/
instance decidableReaches (g : CallGraph) (a b : Key) : Decidable (g.Reaches a b) :=
  decidable_of_iff (b ∈ g.scope a) mem_scope_iff

variable {g : CallGraph} {start : Key}

/-! ## The extracted part -/

/-- `extract` is `restrict` to what the start method `Reaches`. -/
theorem extract_eq_restrict (h : start ∈ g.vertexList) :
    g.extract start = .ok (g.restrict fun k => g.Reaches start k) := by
  obtain ⟨inside, hinside, hextract⟩ := extract_of_mem h
  have heq : inside = fun k => decide (g.Reaches start k) := by
    funext k
    rw [Bool.eq_iff_iff, hinside, decide_eq_true_iff]
  rw [hextract, heq]

/-- `extract` fails only for a method that is no vertex. -/
theorem extract_eq_error_iff : g.extract start = .error ⟨start⟩ ↔ start ∉ g.vertexList := by
  refine ⟨fun herror hmem => ?_, extract_of_notMem⟩
  rw [extract_eq_restrict hmem] at herror
  exact nomatch herror

/-- `restrict` to what a vertex reaches has that as its vertices, since these are vertices and the
    start reaches itself. -/
theorem mem_vertexList_restrict_iff (h : start ∈ g.vertexList) {k : Key} :
    k ∈ (g.restrict fun k => g.Reaches start k).vertexList ↔ g.Reaches start k := by
  rw [vertexList_restrict, List.mem_filter, decide_eq_true_iff]
  exact and_iff_right_of_imp fun hk => hk.mem_vertexList h

/-- `extract` gives exactly the induced part.  It fails iff the start method is no vertex.
    Otherwise the vertices of the part are those that the start method reaches, among them itself;
    vertices, edges with their kinds, and skipped calls are those of the graph that lie there, in
    the order of the graph; and `reachableFrom` lists the same vertices in increasing order. -/
theorem extract_exact (g : CallGraph) (start : Key) :
    (g.extract start = .error ⟨start⟩ ↔ start ∉ g.vertexList) ∧
    (start ∈ g.vertexList → ∃ part ks,
      g.extract start = .ok part ∧ g.reachableFrom start = .ok ks ∧
      start ∈ part.vertexList ∧
      (∀ k, k ∈ part.vertexList ↔ g.Reaches start k) ∧
      part.vertexList = g.vertexList.filter (fun k => g.Reaches start k) ∧
      part.edgeList =
        g.edgeList.filter (fun e => g.Reaches start e.source ∧ g.Reaches start e.target) ∧
      part.skippedList = g.skippedList.filter (fun c => g.Reaches start c.caller) ∧
      (∀ k, k ∈ ks ↔ k ∈ part.vertexList) ∧ Increasing ks) := by
  refine ⟨extract_eq_error_iff, fun h => ?_⟩
  have hmem : ∀ k, k ∈ (g.restrict fun k => g.Reaches start k).vertexList ↔ g.Reaches start k :=
    fun k => mem_vertexList_restrict_iff h
  refine ⟨_, sorted (g.scope start), extract_eq_restrict h, ?_, (hmem start).2 .refl, hmem,
    vertexList_restrict _ _, ?_, skippedList_restrict _ _, fun k => ?_,
    increasing_sorted (Digraph.nodup_reach _ _ _)⟩
  · rw [reachableFrom, if_pos (contains_iff.2 h)]
  -- both ends are decided together or one by one
  · simp only [edgeList_restrict, Bool.decide_and]
  · rw [mem_sorted, mem_scope_iff, hmem]

/-- A loop that calls one of two methods which call each other. -/
def relayGraph : CallGraph :=
  let edges : List Edge :=
    [⟨⟨"Main", "loop", []⟩, ⟨"Main", "loop", []⟩, .calls⟩,
     ⟨⟨"Main", "loop", []⟩, ⟨"Ping", "send", []⟩, .calls⟩,
     ⟨⟨"Ping", "send", []⟩, ⟨"Pong", "send", []⟩, .dispatches⟩,
     ⟨⟨"Pong", "send", []⟩, ⟨"Ping", "send", []⟩, .calls⟩]
  let skipped : List SkippedCall :=
    [⟨⟨"Main", "loop", []⟩, "wait()", none, none⟩, ⟨⟨"Pong", "send", []⟩, "log()", none, some 7⟩]
  skipped.foldl addSkipped (edges.foldl withEdge empty)

/-- From one of the two methods of `relayGraph` that call each other the loop cannot be reached. -/
theorem extract_relayGraph :
    relayGraph.extract ⟨"Main", "stop", []⟩ = .error ⟨⟨"Main", "stop", []⟩⟩ ∧
    ∃ part ks, relayGraph.extract ⟨"Pong", "send", []⟩ = .ok part ∧
      relayGraph.reachableFrom ⟨"Pong", "send", []⟩ = .ok ks ∧
      part.vertexList = [⟨"Ping", "send", []⟩, ⟨"Pong", "send", []⟩] ∧
      part.edgeList.map Edge.kind = [.dispatches, .calls] ∧
      part.skippedList = [⟨⟨"Pong", "send", []⟩, "log()", none, some 7⟩] ∧
      Increasing ks := by
  have hstop : (⟨"Main", "stop", []⟩ : Key) ∉ relayGraph.vertexList := by decide +kernel
  have hpong : (⟨"Pong", "send", []⟩ : Key) ∈ relayGraph.vertexList := by decide +kernel
  obtain ⟨part, ks, hpart, hks, -, -, hvertices, hedges, hskipped, -, hinc⟩ :=
    (extract_exact relayGraph _).2 hpong
  refine ⟨(extract_exact relayGraph _).1.2 hstop, part, ks, hpart, hks, ?_, ?_, ?_, hinc⟩
  · rw [hvertices]
    decide +kernel
  · rw [hedges]
    decide +kernel
  · rw [hskipped]
    decide +kernel

/-! ## Cycles in the extracted part -/

section Closed

variable {inside : Key → Bool} (hin : ∀ k, inside k = true ↔ g.Reaches start k)

include hin

/-- From a vertex in scope, `restrict` keeps what it reaches. -/
theorem reaches_restrict {a b : Key} (ha : g.Reaches start a) :
    (g.restrict inside).Reaches a b ↔ g.Reaches a b := by
  rw [Reaches, Reaches, reflTransGen_iff_eq_or_transGen, reflTransGen_iff_eq_or_transGen,
    transGen_adj_restrict hin]
  exact or_congr_right (and_iff_left ha)

/-- A vertex is `OnCycle` in the part iff it is so in the graph and in scope. -/
theorem onCycle_restrict {k : Key} :
    (g.restrict inside).OnCycle k ↔ g.OnCycle k ∧ g.Reaches start k :=
  transGen_adj_restrict hin

/-- `cycleComponents` of the part are those of the graph that meet the scope. -/
theorem mem_cycleComponents_restrict {ks : List Key} :
    ks ∈ (g.restrict inside).cycleComponents ↔
      ks ∈ g.cycleComponents ∧ ∃ k ∈ ks, g.Reaches start k := by
  -- a class with a member in scope is the same in the part and in the graph
  have hclass : ∀ m, g.Reaches start m → ∀ k,
      ((g.restrict inside).Reaches m k ∧ (g.restrict inside).Reaches k m ↔
        g.Reaches m k ∧ g.Reaches k m) := by
    intro m hm k
    rw [reaches_restrict hin hm]
    exact and_congr_right fun hmk => reaches_restrict hin (hm.trans hmk)
  simp only [mem_cycleComponents_iff, onCycle_restrict hin]
  constructor
  · rintro ⟨hinc, m, ⟨hcycle, hm⟩, hks⟩
    have hks' : ∀ k, k ∈ ks ↔ g.Reaches m k ∧ g.Reaches k m :=
      fun k => (hks k).trans (hclass m hm k)
    exact ⟨⟨hinc, m, hcycle, hks'⟩, m, (hks' m).2 ⟨.refl, .refl⟩, hm⟩
  · rintro ⟨⟨hinc, m, hcycle, hks⟩, k, hk, hreach⟩
    -- the member in scope reaches all others, so that they are in scope as well
    have hm : g.Reaches start m := hreach.trans ((hks k).1 hk).2
    exact ⟨hinc, m, ⟨hcycle, hm⟩, fun k => (hks k).trans (hclass m hm k).symm⟩

end Closed

/-- `extract` restricts `cycles` exactly: the members of the extracted part are those of the graph
    that the start method reaches, and its components are those of the graph with such a member,
    whole and in the same order. -/
theorem cycles_extract (h : start ∈ g.vertexList) :
    ∃ part, g.extract start = .ok part ∧
      part.cycles.members = g.cycles.members.filter (fun k => g.Reaches start k) ∧
      part.cycles.components =
        g.cycles.components.filter (fun ks => ∃ k ∈ ks, g.Reaches start k) := by
  have hin : ∀ k, decide (g.Reaches start k) = true ↔ g.Reaches start k :=
    fun k => decide_eq_true_iff
  refine ⟨_, extract_eq_restrict h, ?_, ?_⟩
  -- both sides are increasing, so it is enough that they have the same elements
  · have hmembers : Increasing (g.cycles.members.filter fun k => g.Reaches start k) :=
      g.increasing_members.filter _
    refine (increasing_members _).ext hmembers fun k => ?_
    rw [List.mem_filter, decide_eq_true_iff, mem_members_iff, mem_members_iff]
    exact onCycle_restrict hin
  · have hcomponents :
        Increasing (g.cycles.components.filter fun ks => ∃ k ∈ ks, g.Reaches start k) :=
      g.increasing_cycleComponents.filter _
    refine (increasing_cycleComponents _).ext hcomponents fun ks => ?_
    rw [List.mem_filter, decide_eq_true_iff]
    exact mem_cycleComponents_restrict hin

/-- The loop of `relayGraph` is recursive, but not in the part that one of the two methods
    reaches. -/
theorem cycles_extract_relayGraph :
    ⟨"Main", "loop", []⟩ ∈ relayGraph.cycles.members ∧
    ∃ part, relayGraph.extract ⟨"Pong", "send", []⟩ = .ok part ∧
      ⟨"Main", "loop", []⟩ ∉ part.cycles.members ∧ ⟨"Pong", "send", []⟩ ∈ part.cycles.members := by
  have hpong : (⟨"Pong", "send", []⟩ : Key) ∈ relayGraph.vertexList := by decide +kernel
  obtain ⟨part, hpart, hmembers, -⟩ := cycles_extract hpong
  refine ⟨mem_members_iff.2 (.single (hasEdge_iff.1 (by decide +kernel))), part, hpart, ?_, ?_⟩
  · rw [hmembers, List.mem_filter, decide_eq_true_iff]
    exact fun hloop => absurd hloop.2 (by decide +kernel)
  · rw [hmembers, List.mem_filter, decide_eq_true_iff]
    have hcall : relayGraph.Adj ⟨"Pong", "send", []⟩ ⟨"Ping", "send", []⟩ :=
      hasEdge_iff.1 (by decide +kernel)
    -- the two methods call each other
    have hback : relayGraph.Reaches ⟨"Ping", "send", []⟩ ⟨"Pong", "send", []⟩ := by decide +kernel
    exact ⟨mem_members_iff.2 (.head' hcall hback), .refl⟩

/-! ## Extraction from an extracted part -/

/-- `restrict` depends only on what lies inside. -/
theorem restrict_congr {g g' : CallGraph} {inside : Key → Bool}
    (hvertices : g.vertexList.filter inside = g'.vertexList.filter inside)
    (hedges : (g.edgeList.filter fun e => inside e.source && inside e.target) =
      g'.edgeList.filter fun e => inside e.source && inside e.target)
    (hskipped : (g.skippedList.filter fun c => inside c.caller) =
      g'.skippedList.filter fun c => inside c.caller) :
    g.restrict inside = g'.restrict inside := by
  rw [restrict, restrict, hvertices, hedges, hskipped]

/-- `restrict` to less, twice, is `restrict` once, with the order of the graph. -/
theorem restrict_restrict {outer inner : Key → Bool} (h : ∀ k, inner k = true → outer k = true) :
    (g.restrict outer).restrict inner = g.restrict inner := by
  have hand : ∀ k, (inner k && outer k) = inner k := by
    intro k
    rw [Bool.and_eq_left_iff_imp]
    exact h k
  apply restrict_congr
  · simp only [vertexList_restrict, List.filter_filter, hand]
  -- an edge that lies inside lies in both
  · have hands : ∀ a b, ((inner a && inner b) && (outer a && outer b)) = (inner a && inner b) := by
      intro a b
      rw [Bool.and_eq_left_iff_imp, Bool.and_eq_true, Bool.and_eq_true]
      exact And.imp (h a) (h b)
    simp only [edgeList_restrict, List.filter_filter, hands]
  · simp only [skippedList_restrict, List.filter_filter, hand]

/-- `extract` from an extracted part.  A method that the start method reaches has the same part
    there as in the whole graph, and any other method is no vertex of it.  So extracting twice from
    one method is the same as extracting once. -/
theorem extract_extract (h : start ∈ g.vertexList) :
    ∃ part, g.extract start = .ok part ∧
      (∀ k, g.Reaches start k → ∃ inner, part.extract k = .ok inner ∧ g.extract k = .ok inner) ∧
      (∀ k, ¬ g.Reaches start k → part.extract k = .error ⟨k⟩) ∧
      part.extract start = .ok part := by
  have hin : ∀ k, decide (g.Reaches start k) = true ↔ g.Reaches start k :=
    fun k => decide_eq_true_iff
  have hmem : ∀ k, k ∈ (g.restrict fun k => g.Reaches start k).vertexList ↔ g.Reaches start k :=
    fun k => mem_vertexList_restrict_iff h
  have hnested : ∀ k, g.Reaches start k →
      (g.restrict fun k => g.Reaches start k).extract k = g.extract k := by
    intro k hk
    -- from a vertex in scope the same vertices are reached, all of them in scope
    have hreaches : ∀ l, (g.restrict fun k => g.Reaches start k).Reaches k l ↔ g.Reaches k l :=
      fun l => reaches_restrict hin hk
    rw [extract_eq_restrict ((hmem k).2 hk), extract_eq_restrict (hk.mem_vertexList h)]
    simp only [hreaches]
    rw [restrict_restrict]
    intro l hl
    have hkl : g.Reaches k l := decide_eq_true_iff.1 hl
    exact (hin l).2 (hk.trans hkl)
  refine ⟨_, extract_eq_restrict h, fun k hk => ?_, fun k hk => ?_, ?_⟩
  · rw [hnested k hk]
    exact ⟨_, extract_eq_restrict (hk.mem_vertexList h), extract_eq_restrict (hk.mem_vertexList h)⟩
  · exact extract_of_notMem (mt (hmem k).1 hk)
  · rw [hnested start .refl, extract_eq_restrict h]

/-- The part of the loop of `relayGraph` has the same part of one of the two methods as the whole
    graph, and from that part the loop cannot be reached. -/
theorem extract_extract_relayGraph :
    ∃ outer inner, relayGraph.extract ⟨"Main", "loop", []⟩ = .ok outer ∧
      outer.extract ⟨"Pong", "send", []⟩ = .ok inner ∧
      relayGraph.extract ⟨"Pong", "send", []⟩ = .ok inner ∧
      inner.extract ⟨"Main", "loop", []⟩ = .error ⟨⟨"Main", "loop", []⟩⟩ := by
  have hloop : (⟨"Main", "loop", []⟩ : Key) ∈ relayGraph.vertexList := by decide +kernel
  have hpong : (⟨"Pong", "send", []⟩ : Key) ∈ relayGraph.vertexList := by decide +kernel
  obtain ⟨outer, houter, hnested, -, -⟩ := extract_extract hloop
  obtain ⟨inner, hinner, hpart⟩ := hnested ⟨"Pong", "send", []⟩ (by decide +kernel)
  obtain ⟨inner', hpart', -, hunknown, -⟩ := extract_extract hpong
  rw [hpart, Except.ok.injEq] at hpart'
  subst hpart'
  exact ⟨outer, inner, houter, hinner, hpart, hunknown _ (by decide +kernel)⟩

end CallCycle.CallGraph

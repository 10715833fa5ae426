import CallCycle.Export.Snapshot
import CallCycle.Proofs.Extraction

/-!
# Snapshots are canonical

A snapshot has every vertex and every edge of its graph, once each and in order, with counts that
are those of its lists.  Edges whose ends have the same texts stay in the order in which they came.

Where no two vertices have the same text there are no such edges, and the order in which vertices
and edges came to the graph cannot be told from its JSON text.

## Key results

- `filter_mergeSort`: sorting keeps the order of elements that compare equal
- `countP_selfLoop`: a vertex with an edge to itself has one such edge
- `describes_snapshot`: the lists and counts of a snapshot
- `snapshot_congr`: graphs with the same parts have the same snapshot
- `toJson_canonical`: both, for the JSON text
-/

namespace CallCycle

open Std

/-! ## The order of texts and rows -/

/-- `compare` is the order of texts. -/
theorem isLE_compare_iff {a b : String} : (compare a b).isLE = true ↔ a ≤ b :=
  isLE_compareOfLessAndEq String.le_antisymm String.not_le String.le_total

/-- Texts are in order one way or the other. -/
theorem isLE_compare_total (a b : String) :
    ((compare a b).isLE || (compare b a).isLE) = true := by
  rw [Bool.or_eq_true, isLE_compare_iff, isLE_compare_iff]
  exact String.le_total a b

namespace EdgeRow

variable {a b c : EdgeRow}

/-- `EdgeRow.le` is the order by source, then target. -/
theorem le_iff :
    a.le b = true ↔ a.source < b.source ∨ a.source = b.source ∧ a.target ≤ b.target := by
  have hlt : compare a.source b.source = .lt ↔ a.source < b.source := compareOfLessAndEq_eq_lt
  rw [le, Ordering.isLE_then_iff_or, hlt, Std.compare_eq_iff_eq, isLE_compare_iff]

/-- `EdgeRow.le` holds one way or the other. -/
theorem le_total (a b : EdgeRow) : (a.le b || b.le a) = true := by
  rw [Bool.or_eq_true, le_iff, le_iff]
  by_cases hsource : a.source = b.source
  · exact (String.le_total a.target b.target).imp (fun h => .inr ⟨hsource, h⟩)
      fun h => .inr ⟨hsource.symm, h⟩
  · by_cases hlt : a.source < b.source
    · exact .inl (.inl hlt)
    · -- two texts that differ are in order one way or the other
      have hle : b.source ≤ a.source := String.not_lt.1 hlt
      refine .inr (.inl (String.not_le.1 fun hge => hsource ?_))
      exact String.le_antisymm hge hle

/-- `EdgeRow.le` is transitive. -/
theorem le_trans (hab : a.le b = true) (hbc : b.le c = true) : a.le c = true := by
  -- one of the two steps goes to a later source, or neither does
  rw [le_iff] at hab hbc ⊢
  rcases hab with hab | ⟨hab, hab'⟩
  · rcases hbc with hbc | ⟨hbc, -⟩
    · exact .inl (String.lt_trans hab hbc)
    · exact .inl (hbc ▸ hab)
  · rcases hbc with hbc | ⟨hbc, hbc'⟩
    · exact .inl (hab ▸ hbc)
    · exact .inr ⟨hab.trans hbc, String.le_trans hab' hbc'⟩

/-- Rows that are in order both ways have the same texts. -/
theorem eq_and_eq_of_le (hab : a.le b = true) (hba : b.le a = true) :
    a.source = b.source ∧ a.target = b.target := by
  rw [le_iff] at hab hba
  rcases hab with hab | ⟨hab, hab'⟩
  · rcases hba with hba | ⟨hba, -⟩
    · exact absurd (String.lt_trans hab hba) (String.lt_irrefl _)
    · exact absurd (hba ▸ hab) (String.lt_irrefl _)
  · rcases hba with hba | ⟨-, hba'⟩
    · exact absurd (hab ▸ hba) (String.lt_irrefl _)
    · exact ⟨hab, String.le_antisymm hab' hba'⟩

end EdgeRow

/-- `mergeSort` keeps the order of elements that may stand in any order. -/
theorem filter_mergeSort {α : Type} {le : α → α → Bool}
    (trans : ∀ a b c, le a b = true → le b c = true → le a c = true)
    (total : ∀ a b, (le a b || le b a) = true) {p : α → Bool}
    (hp : ∀ a b, p a = true → p b = true → le a b = true) (xs : List α) :
    (xs.mergeSort le).filter p = xs.filter p := by
  have hpairwise : (xs.filter p).Pairwise fun a b => le a b = true := by
    apply List.pairwise_of_forall_mem_list
    intro a ha b hb
    exact hp a b (List.mem_filter.1 ha).2 (List.mem_filter.1 hb).2
  -- they are a part of the sorted list in their order, and that list has no more of them
  have hsub := (List.sublist_mergeSort trans total hpairwise List.filter_sublist).filter p
  simp only [List.filter_filter, Bool.and_self] at hsub
  have hlength := ((List.mergeSort_perm xs le).filter p).length_eq
  exact (hsub.eq_of_length hlength.symm).symm

namespace CallGraph

variable {g g' : CallGraph}

/-! ## Counting edges -/

/-- The sources of edges from a vertex to itself are the vertices that have one. -/
theorem mem_filter_selfLoop {k : Key} :
    k ∈ (g.edgeList.filter fun e => e.source = e.target).map Edge.source ↔
      k ∈ g.vertexList.filter fun k => g.hasEdge k k := by
  rw [List.mem_map, List.mem_filter, hasEdge_iff]
  constructor
  · rintro ⟨e, he, rfl⟩
    obtain ⟨he, hloop⟩ := List.mem_filter.1 he
    have hends : e.ends = (e.source, e.source) := by
      rw [Edge.ends, ← of_decide_eq_true hloop]
    exact ⟨(mem_vertexList_of_mem_edgeList he).1, hends ▸ List.mem_map_of_mem he⟩
  · rintro ⟨-, hloop⟩
    obtain ⟨e, he, hends⟩ := List.mem_map.1 hloop
    obtain ⟨hsource, htarget⟩ := Prod.mk.inj hends
    exact ⟨e, List.mem_filter.2 ⟨he, by simp [hsource, htarget]⟩, hsource⟩

/-- A vertex that `hasEdge` to itself has one such edge. -/
theorem countP_selfLoop (g : CallGraph) :
    g.edgeList.countP (fun e => e.source = e.target) =
      g.vertexList.countP fun k => g.hasEdge k k := by
  have hnodup : ((g.edgeList.filter fun e => e.source = e.target).map Edge.source).Nodup := by
    -- the source of an edge from a vertex to itself tells both its ends
    apply List.Nodup.of_map (fun k => (k, k))
    have hends : ((g.edgeList.filter fun e => e.source = e.target).map Edge.source).map
        (fun k => (k, k)) = (g.edgeList.filter fun e => e.source = e.target).map Edge.ends := by
      rw [List.map_map]
      apply List.map_congr_left
      intro e he
      show (e.source, e.source) = (e.source, e.target)
      rw [← of_decide_eq_true (List.mem_filter.1 he).2]
    rw [hends]
    exact g.nodup_ends.sublist (List.filter_sublist.map _)
  -- both lists have the same vertices, each of them once
  have hperm := (List.perm_ext_iff_of_nodup hnodup (g.nodup_vertexList.filter _)).2
    fun k => mem_filter_selfLoop
  rw [List.countP_eq_length_filter, List.countP_eq_length_filter, ← hperm.length_eq,
    List.length_map]

end CallGraph

/-! ## What a snapshot has -/

/-- A snapshot has all vertices and edges of a graph by their texts, in order, and counts them. -/
structure Snapshot.Describes (s : Snapshot) (g : CallGraph) : Prop where
  vertices_perm : s.vertices.Perm (g.vertexList.map Key.display)
  vertices_sorted : s.vertices.Pairwise (· ≤ ·)
  edges_perm : s.edges.Perm (g.edgeList.map EdgeRow.ofEdge)
  edges_sorted : s.edges.Pairwise fun a b =>
    a.source < b.source ∨ a.source = b.source ∧ a.target ≤ b.target
  /-- Edges whose ends have the same texts are in the order in which they came. -/
  edges_stable : ∀ source target : String,
    (s.edges.filter fun e => e.source = source ∧ e.target = target) =
      (g.edgeList.map EdgeRow.ofEdge).filter fun e => e.source = source ∧ e.target = target
  unresolved_eq : s.unresolved = g.skippedList
  vertexCount_eq : s.stats.vertexCount = s.vertices.length
  edgeCount_eq : s.stats.edgeCount = s.edges.length
  dispatchEdges_eq : s.stats.dispatchEdges = s.edges.countP (·.kind = .dispatches)
  selfLoops_eq : s.stats.selfLoops = g.vertexList.countP fun k => g.hasEdge k k
  unresolvedCalls_eq : s.stats.unresolvedCalls = s.unresolved.length

namespace CallGraph

variable {g g' : CallGraph}

/-- `edgeRows` has the row of each edge. -/
theorem edgeRows_perm (g : CallGraph) : g.edgeRows.Perm (g.edgeList.map EdgeRow.ofEdge) :=
  List.mergeSort_perm _ _

/-- `edgeRows` is in order. -/
theorem edgeRows_pairwise (g : CallGraph) : g.edgeRows.Pairwise fun a b => a.le b = true := by
  apply List.pairwise_mergeSort
  · intro a b c
    exact EdgeRow.le_trans
  · exact EdgeRow.le_total

/-- `snapshot` describes its graph. -/
theorem describes_snapshot (g : CallGraph) : g.snapshot.Describes g where
  vertices_perm := List.mergeSort_perm _ _
  vertices_sorted := by
    have hsorted : g.snapshot.vertices.Pairwise fun a b => (compare a b).isLE = true := by
      apply List.pairwise_mergeSort
      · intro a b c
        exact TransOrd.isLE_trans
      · exact isLE_compare_total
    exact hsorted.imp isLE_compare_iff.1
  edges_perm := g.edgeRows_perm
  edges_sorted := g.edgeRows_pairwise.imp EdgeRow.le_iff.1
  edges_stable source target := by
    -- rows with the same texts may stand in any order
    have htrans : ∀ a b c : EdgeRow, a.le b = true → b.le c = true → a.le c = true :=
      fun _ _ _ => EdgeRow.le_trans
    apply filter_mergeSort htrans EdgeRow.le_total
    intro a b ha hb
    obtain ⟨hsource, htarget⟩ := of_decide_eq_true ha
    obtain ⟨hsource', htarget'⟩ := of_decide_eq_true hb
    rw [EdgeRow.le_iff, htarget, htarget']
    exact .inr ⟨hsource.trans hsource'.symm, String.le_refl target⟩
  unresolved_eq := rfl
  vertexCount_eq := by
    show g.vertexCount = (List.mergeSort _ _).length
    rw [List.length_mergeSort, List.length_map, length_vertexList]
  edgeCount_eq := by
    show g.edgeCount = g.edgeRows.length
    rw [g.edgeRows_perm.length_eq, List.length_map, length_edgeList]
  dispatchEdges_eq := by
    show g.edgeList.countP _ = g.edgeRows.countP _
    rw [g.edgeRows_perm.countP_eq, List.countP_map]
    rfl
  selfLoops_eq := g.countP_selfLoop
  unresolvedCalls_eq := by
    show g.skippedStack.length = g.skippedList.length
    rw [skippedList, List.length_reverse]

/-! ## Graphs with the same parts -/

/-- Two edges whose ends have the same texts are the same, if texts tell vertices apart. -/
theorem eq_of_display_eq
    (hdisplay : ∀ a ∈ g.vertexList, ∀ b ∈ g.vertexList, a.display = b.display → a = b)
    {e e' : Edge} (he : e ∈ g.edgeList) (he' : e' ∈ g.edgeList)
    (hsource : e.source.display = e'.source.display)
    (htarget : e.target.display = e'.target.display) : e = e' := by
  obtain ⟨hes, het⟩ := mem_vertexList_of_mem_edgeList he
  obtain ⟨hes', het'⟩ := mem_vertexList_of_mem_edgeList he'
  have hends : e.ends = e'.ends :=
    Prod.ext (hdisplay _ hes _ hes' hsource) (hdisplay _ het _ het' htarget)
  exact List.inj_on_of_nodup_map g.nodup_ends he he' hends

/-- `snapshot` is the same for graphs with the same vertices, edges and skipped calls, if texts tell
    vertices apart. -/
theorem snapshot_congr (hvertices : ∀ k, k ∈ g'.vertexList ↔ k ∈ g.vertexList)
    (hedges : ∀ e, e ∈ g'.edgeList ↔ e ∈ g.edgeList) (hskipped : g'.skippedList = g.skippedList)
    (hdisplay : ∀ a ∈ g.vertexList, ∀ b ∈ g.vertexList, a.display = b.display → a = b) :
    g'.snapshot = g.snapshot := by
  have hs := g.describes_snapshot
  have hs' := g'.describes_snapshot
  have hvertexPerm : g'.vertexList.Perm g.vertexList :=
    (List.perm_ext_iff_of_nodup g'.nodup_vertexList g.nodup_vertexList).2 hvertices
  have hedgePerm : g'.edgeList.Perm g.edgeList :=
    (List.perm_ext_iff_of_nodup g'.nodup_edgeList g.nodup_edgeList).2 hedges
  -- both lists are sorted, and have the same texts
  have hvertexTexts : g'.snapshot.vertices = g.snapshot.vertices := by
    refine List.Perm.eq_of_pairwise (fun a b _ _ => String.le_antisymm) hs'.vertices_sorted
      hs.vertices_sorted ?_
    exact hs'.vertices_perm.trans ((hvertexPerm.map _).trans hs.vertices_perm.symm)
  have hrows : g'.edgeRows = g.edgeRows := by
    refine List.Perm.eq_of_pairwise ?_ g'.edgeRows_pairwise g.edgeRows_pairwise
      (g'.edgeRows_perm.trans ((hedgePerm.map _).trans g.edgeRows_perm.symm))
    -- rows that could change places come from one edge
    intro a b ha hb hab hba
    obtain ⟨e, he, rfl⟩ := List.mem_map.1 (g'.edgeRows_perm.mem_iff.1 ha)
    obtain ⟨e', he', rfl⟩ := List.mem_map.1 (g.edgeRows_perm.mem_iff.1 hb)
    obtain ⟨hsource, htarget⟩ := EdgeRow.eq_and_eq_of_le hab hba
    rw [eq_of_display_eq hdisplay ((hedges e).1 he) he' hsource htarget]
  -- counts do not depend on the order
  have hstats : g'.stats = g.stats := by
    show Stats.mk _ _ _ _ _ = Stats.mk _ _ _ _ _
    rw [← length_vertexList, ← length_vertexList, ← length_edgeList, ← length_edgeList,
      hvertexPerm.length_eq, hedgePerm.length_eq, hedgePerm.countP_eq, hedgePerm.countP_eq]
    have hlength := congrArg List.length hskipped
    rw [skippedList, skippedList, List.length_reverse, List.length_reverse] at hlength
    rw [hlength]
  show Snapshot.mk _ _ _ _ = Snapshot.mk _ _ _ _
  rw [hstats, hrows, hskipped]
  exact congrArg (Snapshot.mk g.stats · g.edgeRows g.skippedList) hvertexTexts

/-- `snapshot` of a graph lists all vertices and edges in order and counts them.  `toJson` is the
    same for all graphs with the same vertices, edges and skipped calls, whatever the order in which
    they came, if no two vertices have the same text. -/
theorem toJson_canonical (g : CallGraph) :
    g.snapshot.Describes g ∧
      ∀ g' : CallGraph, (∀ k, k ∈ g'.vertexList ↔ k ∈ g.vertexList) →
        (∀ e, e ∈ g'.edgeList ↔ e ∈ g.edgeList) → g'.skippedList = g.skippedList →
        (∀ a ∈ g.vertexList, ∀ b ∈ g.vertexList, a.display = b.display → a = b) →
        g'.toJson = g.toJson := by
  refine ⟨g.describes_snapshot, ?_⟩
  intro g' hvertices hedges hskipped hdisplay
  rw [toJson, snapshot_congr hvertices hedges hskipped hdisplay, ← toJson]

/-- The edges of `relayGraph` came the other way round. -/
def relayBack : CallGraph :=
  relayGraph.skippedList.foldl addSkipped (relayGraph.edgeList.reverse.foldl withEdge empty)

/-- The vertices of `relayBack` are in another order, which its JSON text does not show. -/
theorem toJson_canonical_relayBack :
    relayBack.vertexList ≠ relayGraph.vertexList ∧ relayBack.toJson = relayGraph.toJson := by
  have hvertices : relayBack.vertexList.Perm relayGraph.vertexList := by decide +kernel
  have hedges : relayBack.edgeList.Perm relayGraph.edgeList := by decide +kernel
  refine ⟨by decide +kernel, ?_⟩
  exact (toJson_canonical relayGraph).2 relayBack (fun k => hvertices.mem_iff)
    (fun e => hedges.mem_iff) (by decide +kernel) (by decide +kernel)

end CallGraph

end CallCycle

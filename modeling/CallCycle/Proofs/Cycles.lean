import CallCycle.CallGraph.Cycles
import CallCycle.Proofs.CallGraph
import CallCycle.Proofs.Components

/-!
# Recursive methods are those on a cycle

The cycle set of a call graph has exactly the vertices that lie on a cycle, and its components are
their classes of mutual reachability, in order.

## Key results

- `isRecursive_iff`: a strongly connected component is kept iff its members lie on cycles
- `mem_cycleComponents_iff`, `increasing_cycleComponents`: the components
- `mem_members_iff`: the members
- `cycles_exact`: all of it together
-/

namespace CallCycle

open Std Relation

/-! ## Increasing lists -/

/-- Every element of a list is less than all that follow it. -/
def Increasing {α : Type} [Ord α] (xs : List α) : Prop :=
  xs.Pairwise fun a b => compare a b = .lt

section Increasing

variable {α : Type} [Ord α] [TransOrd α]

/-- An increasing list has no repetition. -/
theorem Increasing.nodup {xs : List α} (h : Increasing xs) : xs.Nodup := by
  refine List.Pairwise.imp ?_ h
  rintro a b hab rfl
  rw [compare_self] at hab
  exact nomatch hab

/-- Two increasing lists with the same elements are equal. -/
theorem Increasing.ext {xs ys : List α} (hx : Increasing xs) (hy : Increasing ys)
    (h : ∀ a, a ∈ xs ↔ a ∈ ys) : xs = ys := by
  have hperm : xs.Perm ys := (List.perm_ext_iff_of_nodup hx.nodup hy.nodup).2 h
  refine List.Perm.eq_of_pairwise (fun a b _ _ hab hba => ?_) hx hy hperm
  exact absurd hba (OrientedCmp.not_lt_of_lt hab)

/-- Sorting a list without repetition gives an increasing one. -/
theorem increasing_mergeSort [LawfulEqOrd α] {xs : List α} (h : xs.Nodup) :
    Increasing (xs.mergeSort fun a b => (compare a b).isLE) := by
  have hle : (xs.mergeSort fun a b => (compare a b).isLE).Pairwise
      fun a b => (compare a b).isLE = true := by
    -- sorting asks for an order that is transitive and total
    apply List.pairwise_mergeSort
    · intro a b c hab hbc
      exact TransOrd.isLE_trans hab hbc
    · intro a b
      rw [Bool.or_eq_true]
      refine Decidable.or_iff_not_imp_left.2 fun hab => ?_
      exact Ordering.isLE_of_eq_lt (OrientedCmp.lt_of_not_isLE hab)
  have hne := (List.mergeSort_perm xs fun a b => (compare a b).isLE).nodup_iff.2 h
  refine (hle.and hne).imp ?_
  -- less or equal, and not equal
  rintro a b ⟨hab, hne⟩
  have hne' : compare a b ≠ .eq := fun heq => hne (LawfulEqOrd.eq_of_compare heq)
  exact Ordering.isLE_iff_eq_lt_or_eq_eq.1 hab |>.resolve_right hne'

end Increasing

namespace CallGraph

/-- `sorted` gives an increasing list if no key stands there twice. -/
theorem increasing_sorted {ks : List Key} (h : ks.Nodup) : Increasing (sorted ks) :=
  increasing_mergeSort h

/-- `distinct` gives an increasing list. -/
theorem increasing_distinct (ks : List Key) : Increasing (distinct ks) :=
  TreeSet.ordered_toList

/-- No edge stands in `edgeList` twice. -/
theorem nodup_edgeList (g : CallGraph) : g.edgeList.Nodup :=
  g.nodup_ends.of_map _

/-- `edgeSet` lists the ends of the edges in strictly increasing order. -/
theorem increasing_edgeSet (g : CallGraph) : @Increasing (Key × Key) lexOrd g.edgeSet :=
  letI : Ord (Key × Key) := lexOrd
  increasing_mergeSort g.nodup_ends

/-! ## Components -/

/-- The strongly connected components of a graph. -/
def classes (g : CallGraph) : List (List Key) :=
  Digraph.components g.succ (fun k => g.sources.getD k []) g.vertexList

/-- `classes` are the classes of mutual reachability. -/
theorem classes_spec (g : CallGraph) : Digraph.Classes g.succ (· ∈ g.vertexList) g.classes := by
  refine Digraph.components_spec (fun a b hb => ?_) fun a b => ?_
  · have hab : g.Adj a b := mem_succ_iff.1 hb
    exact hab.mem_vertexList.2
  -- the predecessors are the edges turned round
  · rw [sources, Digraph.mem_adjacency, mem_succ_iff]
    simp [Edge.ends, and_comm]

/-- `Digraph.Mutual` along `succ` is mutual reachability in the graph. -/
theorem mutual_iff {g : CallGraph} {a b : Key} :
    Digraph.Mutual g.succ a b ↔ g.Reaches a b ∧ g.Reaches b a := by
  rw [Digraph.Mutual, arrow_succ]
  rfl

/-- `isRecursive` keeps a strongly connected component iff its members lie on cycles. -/
theorem isRecursive_iff {g : CallGraph} {c : List Key} (hc : c ∈ g.classes) {k : Key}
    (hk : k ∈ c) : g.isRecursive c = true ↔ g.OnCycle k := by
  have hmem := (g.classes_spec).mem_iff c hc k hk
  have hnd := (g.classes_spec).nodup c hc
  -- a component of one vertex, and one of several
  match c, hk with
  | [a], hk =>
    obtain rfl := List.mem_singleton.1 hk
    rw [isRecursive, hasEdge_iff]
    constructor
    · exact fun h => .single h
    · intro h
      -- the first vertex of the cycle belongs to the component, so it is `k`
      obtain ⟨b, hkb, hbk⟩ := TransGen.head'_iff.1 h
      have hb : b ∈ [k] := (hmem b).2 (mutual_iff.2 ⟨.single hkb, hbk⟩)
      rwa [List.mem_singleton.1 hb] at hkb
  | a :: b :: c, hk =>
    simp only [isRecursive, true_iff]
    -- some other vertex of the component can be reached and reaches back
    obtain ⟨x, hx, hxk⟩ : ∃ x ∈ a :: b :: c, x ≠ k := by
      by_cases ha : a = k
      · subst ha
        refine ⟨b, by simp, ?_⟩
        rintro rfl
        simp at hnd
      · exact ⟨a, by simp, ha⟩
    obtain ⟨hkx, hxk'⟩ := mutual_iff.1 ((hmem x).1 hx)
    rcases reflTransGen_iff_eq_or_transGen.1 hkx with heq | hkx
    · exact absurd heq hxk
    · exact hkx.trans_left hxk'

/-- `cycleComponents` are the sorted classes of the vertices on cycles. -/
theorem mem_cycleComponents_iff {g : CallGraph} {ks : List Key} :
    ks ∈ g.cycleComponents ↔ Increasing ks ∧
      ∃ m, g.OnCycle m ∧ ∀ k, k ∈ ks ↔ g.Reaches m k ∧ g.Reaches k m := by
  have hspec := g.classes_spec
  have hlist : ks ∈ g.cycleComponents ↔
      ∃ c ∈ g.classes, g.isRecursive c = true ∧ sorted c = ks := by
    simp only [cycleComponents, List.mem_mergeSort, List.mem_map, List.mem_filter, and_assoc]
    rfl
  rw [hlist]
  constructor
  · rintro ⟨c, hc, hrec, rfl⟩
    -- any member of a class stands for it
    obtain ⟨m, hm⟩ := List.exists_mem_of_ne_nil c (hspec.nonempty c hc)
    refine ⟨increasing_sorted (hspec.nodup c hc), m, (isRecursive_iff hc hm).1 hrec, fun k => ?_⟩
    rw [mem_sorted, hspec.mem_iff c hc m hm, mutual_iff]
  · rintro ⟨hinc, m, hm, hmem⟩
    obtain ⟨c, hc, hmc⟩ := hspec.cover m hm.mem_vertexList
    refine ⟨c, hc, (isRecursive_iff hc hmc).2 hm, ?_⟩
    -- two increasing lists of one class are equal
    refine (increasing_sorted (hspec.nodup c hc)).ext hinc fun k => ?_
    rw [mem_sorted, hspec.mem_iff c hc m hmc, mutual_iff, hmem]

/-- `cycleComponents` is in strictly increasing order: classes that share no vertex differ. -/
theorem increasing_cycleComponents (g : CallGraph) : Increasing g.cycleComponents := by
  have hspec := g.classes_spec
  refine increasing_mergeSort ?_
  rw [List.nodup_iff_pairwise_ne, List.pairwise_map]
  refine List.Pairwise.filter _ (hspec.disjoint.imp_of_mem ?_)
  intro c d hc hd hdis heq
  -- equal classes would share a vertex
  obtain ⟨k, hk⟩ := List.exists_mem_of_ne_nil c (hspec.nonempty c hc)
  refine hdis k hk ?_
  rwa [← mem_sorted, ← heq, mem_sorted]

/-! ## Members -/

/-- The members of `cycles` are those of its components. -/
theorem mem_members_iff_exists {g : CallGraph} {k : Key} :
    k ∈ g.cycles.members ↔ ∃ ks ∈ g.cycles.components, k ∈ ks := by
  simp [cycles, mem_distinct]

/-- The members of `cycles` are in strictly increasing order. -/
theorem increasing_members (g : CallGraph) : Increasing g.cycles.members :=
  increasing_distinct _

/-- The members of `cycles` are the vertices on cycles. -/
theorem mem_members_iff {g : CallGraph} {k : Key} : k ∈ g.cycles.members ↔ g.OnCycle k := by
  rw [mem_members_iff_exists]
  constructor
  · rintro ⟨ks, hks, hk⟩
    obtain ⟨-, m, hm, hmem⟩ := mem_cycleComponents_iff.1 hks
    obtain ⟨hmk, hkm⟩ := (hmem k).1 hk
    -- to `m`, round the cycle, and back
    exact (TransGen.trans_right hkm hm).trans_left hmk
  · intro h
    obtain ⟨c, hc, hkc⟩ := g.classes_spec.cover k h.mem_vertexList
    have hinc := increasing_sorted (g.classes_spec.nodup c hc)
    refine ⟨sorted c, mem_cycleComponents_iff.2 ⟨hinc, k, h, fun x => ?_⟩, mem_sorted.2 hkc⟩
    rw [mem_sorted, g.classes_spec.mem_iff c hc k hkc, mutual_iff]

/-- `cycles` is empty iff no vertex lies on a cycle. -/
theorem isEmpty_cycles_iff {g : CallGraph} : g.cycles.isEmpty = true ↔ ∀ k, ¬ g.OnCycle k := by
  rw [CycleSet.isEmpty, List.isEmpty_iff, List.eq_nil_iff_forall_not_mem]
  exact forall_congr' fun k => not_congr mem_members_iff

/-- The members of `cycles` stay members in a graph with more edges. -/
theorem mem_members_mono {g g' : CallGraph} (h : ∀ a b, g.Adj a b → g'.Adj a b) {k : Key}
    (hk : k ∈ g.cycles.members) : k ∈ g'.cycles.members := by
  rw [mem_members_iff] at hk ⊢
  exact TransGen.mono h _ _ hk

/-- `cycles` depends only on which vertices have an edge between them. -/
theorem cycles_congr {g g' : CallGraph} (h : g.Adj = g'.Adj) : g.cycles = g'.cycles := by
  have hcomponents : g.cycleComponents = g'.cycleComponents := by
    refine g.increasing_cycleComponents.ext g'.increasing_cycleComponents fun ks => ?_
    simp only [mem_cycleComponents_iff, OnCycle, Reaches, h]
  rw [cycles, cycles, hcomponents]

/-- `cycles` is exact.  Its members are the vertices from which a walk of one edge
    or more leads back, in increasing order.  Its components are their classes of mutual
    reachability, each in increasing order and themselves in increasing order, and two members are
    in one component iff each reaches the other. -/
theorem cycles_exact (g : CallGraph) :
    (∀ k, k ∈ g.cycles.members ↔ k ∈ g.vertexList ∧ g.OnCycle k) ∧
      Increasing g.cycles.members ∧
      (∀ ks, ks ∈ g.cycles.components ↔
        Increasing ks ∧ ∃ m ∈ g.cycles.members, ∀ k, k ∈ ks ↔ g.Reaches m k ∧ g.Reaches k m) ∧
      Increasing g.cycles.components ∧
      (∀ a b, (∃ ks ∈ g.cycles.components, a ∈ ks ∧ b ∈ ks) ↔
        a ∈ g.cycles.members ∧ b ∈ g.cycles.members ∧ g.Reaches a b ∧ g.Reaches b a) ∧
      ∀ k, k ∈ g.cycles.members ↔ ∃ ks ∈ g.cycles.components, k ∈ ks := by
  have hcomp : ∀ ks, ks ∈ g.cycles.components ↔
      Increasing ks ∧ ∃ m ∈ g.cycles.members, ∀ k, k ∈ ks ↔ g.Reaches m k ∧ g.Reaches k m := by
    intro ks
    simp only [mem_members_iff]
    exact mem_cycleComponents_iff
  refine ⟨fun k => ?_, g.increasing_members, hcomp, g.increasing_cycleComponents, ?_,
    fun k => mem_members_iff_exists⟩
  · rw [mem_members_iff]
    exact ⟨fun h => ⟨h.mem_vertexList, h⟩, And.right⟩
  · intro a b
    constructor
    -- the way from one member to another leads through `m`
    · rintro ⟨ks, hks, hak, hbk⟩
      obtain ⟨-, m, -, hmem⟩ := (hcomp ks).1 hks
      obtain ⟨hma, ham⟩ := (hmem a).1 hak
      obtain ⟨hmb, hbm⟩ := (hmem b).1 hbk
      exact ⟨mem_members_iff_exists.2 ⟨ks, hks, hak⟩, mem_members_iff_exists.2 ⟨ks, hks, hbk⟩,
        ham.trans hmb, hbm.trans hma⟩
    · rintro ⟨ha, -, hab, hba⟩
      obtain ⟨ks, hks, hak⟩ := mem_members_iff_exists.1 ha
      obtain ⟨-, m, -, hmem⟩ := (hcomp ks).1 hks
      obtain ⟨hma, ham⟩ := (hmem a).1 hak
      exact ⟨ks, hks, hak, (hmem b).2 ⟨hma.trans hab, hba.trans ham⟩⟩

end CallGraph

end CallCycle

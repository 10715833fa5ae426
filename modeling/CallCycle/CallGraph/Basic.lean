import CallCycle.Key.Basic
import Std.Data.TreeMap
import Std.Data.TreeSet

/-!
# Call graphs

A call graph has keys as vertices and, from one vertex to another, at most one edge, which tells
why the one reaches the other.  Vertices and edges keep the order in which they came, and nothing
is ever removed.  Calls that lead nowhere because their target is not known are kept beside.

The views `vertexList` and `edgeList` are what the operations are described by:

* `vertexList_addVertex`, `edgeList_addVertex`
* `vertexList_withEdge`, `edgeList_withEdge`, and `addEdge_snd_iff` for whether an edge was added
* `mem_callees_iff`, `mem_callers_iff`, `hasEdge_iff`
-/

namespace CallCycle

open Std

/-- Why a method reaches another. -/
inductive EdgeKind where
  /-- It calls the other. -/
  | calls
  /-- It calls a method that the other overrides. -/
  | dispatches
  deriving DecidableEq, Repr

/-- The name of a kind of edge. -/
def EdgeKind.display : EdgeKind → String
  | calls => "calls"
  | dispatches => "dispatches"

/-- An edge of a call graph. -/
structure Edge where
  source : Key
  target : Key
  kind : EdgeKind
  deriving DecidableEq, Repr

/-- The ends of an edge. -/
def Edge.ends (e : Edge) : Key × Key :=
  (e.source, e.target)

/-- A call that has no edge because its target is not known. -/
structure SkippedCall where
  caller : Key
  expression : String
  reason : Option String
  line : Option UInt32
  deriving DecidableEq, Repr

/-- The text of a skipped call, with its line and reason if they are known. -/
def SkippedCall.display (c : SkippedCall) : String :=
  "`" ++ c.expression ++ "` in " ++ c.caller.display ++
    (match c.line with
      | some line => " (line " ++ toString line.toNat ++ ")"
      | none => "") ++
    (match c.reason with
      | some reason => ": " ++ reason
      | none => "")

/-- A directed graph of methods and calls. -/
structure CallGraph where
  /-- The vertices, the last one first. -/
  vertexStack : List Key
  /-- The position of each vertex. -/
  index : TreeMap Key Nat
  /-- The edges, the last one first. -/
  edgeStack : List Edge
  /-- The targets of the edges from each vertex. -/
  targets : TreeMap Key (TreeSet Key)
  /-- The calls that have no edge, the last one first. -/
  skippedStack : List SkippedCall
  /-- A key has a position iff it stands there. -/
  index_iff : ∀ (k : Key) (i : Nat), index[k]? = some i ↔ vertexStack.reverse[i]? = some k
  /-- Every vertex has a position. -/
  index_size : index.size = vertexStack.length
  /-- The ends of an edge are vertices. -/
  ends_mem : ∀ e ∈ edgeStack, e.source ∈ index ∧ e.target ∈ index
  /-- The targets are those of the edges. -/
  targets_iff : ∀ (a b : Key), b ∈ targets.getD a ∅ ↔ (a, b) ∈ edgeStack.map Edge.ends
  /-- No two edges have the same ends. -/
  ends_nodup : (edgeStack.map Edge.ends).Nodup

namespace CallGraph

/-- The graph without vertices. -/
def empty : CallGraph where
  vertexStack := []
  index := ∅
  edgeStack := []
  targets := ∅
  skippedStack := []
  index_iff := by simp
  index_size := by simp
  ends_mem := by simp
  targets_iff := by simp
  ends_nodup := by simp

/-! ## Looking up -/

/-- The vertices, in the order in which they came. -/
def vertexList (g : CallGraph) : List Key := g.vertexStack.reverse

/-- The edges, in the order in which they came. -/
def edgeList (g : CallGraph) : List Edge := g.edgeStack.reverse

/-- The calls that have no edge, in the order in which they came. -/
def skippedList (g : CallGraph) : List SkippedCall := g.skippedStack.reverse

/-- Whether a key is a vertex. -/
def contains (g : CallGraph) (k : Key) : Bool := g.index.contains k

/-- The position of a vertex. -/
def indexOf? (g : CallGraph) (k : Key) : Option Nat := g.index[k]?

/-- The vertex at a position. -/
def get? (g : CallGraph) (i : Nat) : Option Key := g.vertexList[i]?

/-- The vertex with a number.  Numbers of vertices have 32 bits, so the lowest 32 bits tell the
    position. -/
def numbered? (g : CallGraph) (n : Nat) : Option Key := g.get? (n % 0x100000000)

/-- Below 2 to the 32, `numbered?` looks up the position itself. -/
theorem numbered?_of_lt (g : CallGraph) {n : Nat} (h : n < 0x100000000) :
    g.numbered? n = g.get? n := by
  rw [numbered?, Nat.mod_eq_of_lt h]

/-- The targets of the edges from a vertex, as a set. -/
def targetSet (g : CallGraph) (k : Key) : TreeSet Key := g.targets.getD k ∅

/-- The targets of the edges from a vertex. -/
def succ (g : CallGraph) (k : Key) : List Key := (g.targetSet k).toList

/-- Whether there is an edge from `a` to `b`. -/
def hasEdge (g : CallGraph) (a b : Key) : Bool := (g.targetSet a).contains b

/-- The number of vertices. -/
def vertexCount (g : CallGraph) : Nat := g.index.size

/-- The number of edges. -/
def edgeCount (g : CallGraph) : Nat := g.edgeStack.length

/-- Keys in order.  Nothing is removed: a key that stands there twice still does. -/
def sorted (ks : List Key) : List Key := ks.mergeSort fun a b => (compare a b).isLE

/-- The set of some keys, listed in order: each key once. -/
def distinct (ks : List Key) : List Key := (TreeSet.ofList ks).toList

/-- The vertices on the side `far` of the edges that have `k` on the side `near`, in order. -/
def neighbors (g : CallGraph) (near far : Edge → Key) (k : Key) : List Key :=
  sorted ((g.edgeList.filter (near · = k)).map far)

/-- The vertices that a key has an edge to, in order. -/
def callees (g : CallGraph) : Key → List Key := g.neighbors Edge.source Edge.target

/-- The vertices that have an edge to a key, in order. -/
def callers (g : CallGraph) : Key → List Key := g.neighbors Edge.target Edge.source

/-- The ends of the edges, in increasing order. -/
def edgeSet (g : CallGraph) : List (Key × Key) :=
  (g.edgeList.map Edge.ends).mergeSort fun a b =>
    ((compare a.1 b.1).then (compare a.2 b.2)).isLE

/-- The vertices as a set. -/
def vertexSet (g : CallGraph) : TreeSet Key :=
  TreeSet.ofList g.vertexList

/-- The keys of `index` are the vertices. -/
theorem mem_index_iff {g : CallGraph} {k : Key} : k ∈ g.index ↔ k ∈ g.vertexList := by
  constructor
  · intro h
    have hi := (g.index_iff k g.index[k]).1 (by simp [TreeMap.getElem?_eq_some_getElem h])
    exact List.mem_of_getElem? hi
  · intro h
    obtain ⟨i, hi⟩ := List.getElem?_of_mem h
    have := (g.index_iff k i).2 hi
    rw [TreeMap.mem_iff_isSome_getElem?, this]
    rfl

/-- `contains` asks for a key in `vertexList`. -/
@[simp] theorem contains_iff {g : CallGraph} {k : Key} :
    g.contains k = true ↔ k ∈ g.vertexList := by
  simp [contains, mem_index_iff]

/-- `vertexCount` is the length of `vertexList`. -/
@[simp] theorem length_vertexList (g : CallGraph) : g.vertexList.length = g.vertexCount := by
  simp [vertexList, vertexCount, g.index_size]

/-- `edgeCount` is the length of `edgeList`. -/
@[simp] theorem length_edgeList (g : CallGraph) : g.edgeList.length = g.edgeCount := by
  simp [edgeList, edgeCount]

/-- `targetSet` has the targets of the edges in `edgeList`. -/
theorem mem_targetSet_iff {g : CallGraph} {a b : Key} :
    b ∈ g.targetSet a ↔ (a, b) ∈ g.edgeList.map Edge.ends := by
  rw [targetSet, g.targets_iff]
  simp [edgeList]

/-- `succ` lists the targets of the edges in `edgeList`. -/
@[simp] theorem mem_succ_iff {g : CallGraph} {a b : Key} :
    b ∈ g.succ a ↔ (a, b) ∈ g.edgeList.map Edge.ends := by
  rw [succ, TreeSet.mem_toList, mem_targetSet_iff]

/-- `hasEdge` asks for the two ends in `edgeList`. -/
@[simp] theorem hasEdge_iff {g : CallGraph} {a b : Key} :
    g.hasEdge a b = true ↔ (a, b) ∈ g.edgeList.map Edge.ends := by
  rw [hasEdge, TreeSet.contains_iff_mem, mem_targetSet_iff]

/-- `sorted` keeps the elements of a list. -/
theorem mem_sorted {ks : List Key} {k : Key} : k ∈ sorted ks ↔ k ∈ ks :=
  List.mem_mergeSort

/-- `distinct` keeps the elements of a list. -/
theorem mem_distinct {ks : List Key} {k : Key} : k ∈ distinct ks ↔ k ∈ ks := by
  simp [distinct, TreeSet.mem_toList, TreeSet.mem_ofList]

/-- `neighbors` has the far sides of the edges whose near side is the key. -/
theorem mem_neighbors_iff {g : CallGraph} {near far : Edge → Key} {a k : Key} :
    a ∈ g.neighbors near far k ↔ ∃ e ∈ g.edgeList, near e = k ∧ far e = a := by
  simp [neighbors, mem_sorted, and_assoc]

/-- `callees` has the targets of the edges from a vertex. -/
theorem mem_callees_iff {g : CallGraph} {a b : Key} :
    b ∈ g.callees a ↔ (a, b) ∈ g.edgeList.map Edge.ends := by
  rw [callees, mem_neighbors_iff]
  simp [Edge.ends]

/-- `callers` has the sources of the edges to a vertex. -/
theorem mem_callers_iff {g : CallGraph} {a b : Key} :
    a ∈ g.callers b ↔ (a, b) ∈ g.edgeList.map Edge.ends := by
  rw [callers, mem_neighbors_iff]
  simp [Edge.ends, and_comm]

/-! ## Adding -/

/-- Adds a vertex, unless it is there. -/
def addVertex (g : CallGraph) (k : Key) : CallGraph :=
  if h : k ∈ g.index then g
  else { g with
    vertexStack := k :: g.vertexStack
    index := g.index.insert k g.index.size
    index_iff := by
      intro a i
      -- `k` stands nowhere yet, and the next free position is the number of vertices
      have hk : ∀ i, g.vertexStack.reverse[i]? ≠ some k := fun i hi =>
        h (by rw [TreeMap.mem_iff_isSome_getElem?, (g.index_iff k i).2 hi]; rfl)
      have hlen : g.vertexStack.reverse.length = g.index.size := by simp [g.index_size]
      rw [TreeMap.getElem?_insert, List.reverse_cons]
      -- the new vertex is looked up, or another one
      by_cases ha : k = a
      · subst ha
        simp only [compare_self, if_true, Option.some.injEq]
        constructor
        · rintro rfl
          simp [← hlen]
        · intro hi
          -- an earlier position has another key, and behind the new one there is nothing
          rcases Nat.lt_or_ge i g.vertexStack.reverse.length with hlt | hge
          · rw [List.getElem?_append_left hlt] at hi
            exact absurd hi (hk i)
          · rw [List.getElem?_append_right hge, List.getElem?_eq_some_iff] at hi
            obtain ⟨hi, _⟩ := hi
            simp only [List.length_singleton] at hi
            omega
      · have hne : compare k a ≠ .eq := by simpa using ha
        simp only [hne, if_false, g.index_iff]
        -- at earlier positions nothing changed, and at the new one is `k`
        rcases Nat.lt_or_ge i g.vertexStack.reverse.length with hlt | hge
        · rw [List.getElem?_append_left hlt]
        · rw [List.getElem?_append_right hge, List.getElem?_eq_none hge]
          simp only [reduceCtorEq, false_iff]
          intro hi
          exact ha (List.mem_singleton.1 (List.mem_of_getElem? hi)).symm
    index_size := by
      simp [TreeMap.size_insert, h, g.index_size]
    ends_mem := by
      intro e he
      have := g.ends_mem e he
      simp [TreeMap.mem_insert, this] }

/-- `addVertex` puts a new vertex behind the others. -/
theorem vertexList_addVertex (g : CallGraph) (k : Key) :
    (g.addVertex k).vertexList =
      if k ∈ g.vertexList then g.vertexList else g.vertexList ++ [k] := by
  simp only [addVertex, ← mem_index_iff]
  split <;> simp [vertexList]

/-- `addVertex` adds no edge. -/
@[simp] theorem edgeList_addVertex (g : CallGraph) (k : Key) :
    (g.addVertex k).edgeList = g.edgeList := by
  simp only [addVertex]
  split <;> simp [edgeList]

/-- `addVertex` adds no skipped call. -/
@[simp] theorem skippedList_addVertex (g : CallGraph) (k : Key) :
    (g.addVertex k).skippedList = g.skippedList := by
  simp only [addVertex]
  split <;> simp [skippedList]

/-- After `addVertex` the vertices are those from before and the new one. -/
@[simp] theorem mem_vertexList_addVertex {g : CallGraph} {a k : Key} :
    a ∈ (g.addVertex k).vertexList ↔ a ∈ g.vertexList ∨ a = k := by
  rw [vertexList_addVertex]
  split
  · next h => exact ⟨Or.inl, fun h' => h'.elim id fun h' => h' ▸ h⟩
  · simp

/-- Adds an edge between vertices, unless there is one with the same ends, and tells whether the
    edge was added. -/
def link (g : CallGraph) (e : Edge) (hs : e.source ∈ g.vertexList) (ht : e.target ∈ g.vertexList) :
    CallGraph × Bool :=
  if h : g.hasEdge e.source e.target = true then (g, false)
  else ({ g with
    edgeStack := e :: g.edgeStack
    targets := g.targets.insert e.source ((g.targetSet e.source).insert e.target)
    ends_mem := by
      intro a ha
      rcases List.mem_cons.1 ha with rfl | ha
      · exact ⟨mem_index_iff.2 hs, mem_index_iff.2 ht⟩
      · exact g.ends_mem a ha
    targets_iff := by
      intro a b
      simp only [TreeMap.getD_insert, List.map_cons, List.mem_cons]
      -- only the targets of the source change
      by_cases ha : e.source = a
      · subst ha
        simp only [compare_self, if_true, TreeSet.mem_insert, targetSet, g.targets_iff, Edge.ends,
          Prod.mk.injEq, true_and, Std.compare_eq_iff_eq]
        exact or_congr eq_comm Iff.rfl
      · have hne : compare e.source a ≠ .eq := by simpa using ha
        simp only [hne, if_false, g.targets_iff, Edge.ends, Prod.mk.injEq, Ne.symm ha, false_and,
          false_or]
    ends_nodup := by
      rw [List.map_cons, List.nodup_cons]
      -- an edge with the same ends would have been found
      refine ⟨fun hmem => h (hasEdge_iff.2 ?_), g.ends_nodup⟩
      simpa [edgeList, Edge.ends] using hmem }, true)

/-- `link` adds no vertex. -/
theorem vertexList_link (g : CallGraph) (e : Edge) (hs ht) :
    (g.link e hs ht).1.vertexList = g.vertexList := by
  simp only [link]
  split <;> simp [vertexList]

/-- `link` puts an edge with new ends behind the others. -/
theorem edgeList_link (g : CallGraph) (e : Edge) (hs ht) :
    (g.link e hs ht).1.edgeList =
      if g.hasEdge e.source e.target then g.edgeList else g.edgeList ++ [e] := by
  simp only [link]
  split <;> simp_all [edgeList]

/-- `link` adds no skipped call. -/
theorem skippedList_link (g : CallGraph) (e : Edge) (hs ht) :
    (g.link e hs ht).1.skippedList = g.skippedList := by
  simp only [link]
  split <;> rfl

/-- `link` tells that the edge was added iff there was none with its ends. -/
theorem link_snd (g : CallGraph) (e : Edge) (hs ht) :
    (g.link e hs ht).2 = !g.hasEdge e.source e.target := by
  simp only [link]
  split <;> simp_all

/-- Adds an edge and its ends, and tells whether the edge was added.  Where there is an edge with
    the same ends, it stays. -/
def addEdge (g : CallGraph) (e : Edge) : CallGraph × Bool :=
  ((g.addVertex e.source).addVertex e.target).link e (by simp) (by simp)

/-- The graph to which an edge and its ends were added. -/
def withEdge (g : CallGraph) (e : Edge) : CallGraph := (g.addEdge e).1

/-- `addEdge` tells that the edge was added iff there was none with its ends. -/
theorem addEdge_snd_iff {g : CallGraph} {e : Edge} :
    (g.addEdge e).2 = true ↔ e.ends ∉ g.edgeList.map Edge.ends := by
  rw [addEdge, link_snd, Bool.not_eq_true', ← Bool.not_eq_true, hasEdge_iff, edgeList_addVertex,
    edgeList_addVertex]
  rfl

/-- `withEdge` adds the ends of the edge as vertices. -/
theorem vertexList_withEdge (g : CallGraph) (e : Edge) :
    (g.withEdge e).vertexList = ((g.addVertex e.source).addVertex e.target).vertexList := by
  rw [withEdge, addEdge, vertexList_link]

/-- `withEdge` puts an edge with new ends behind the others. -/
theorem edgeList_withEdge (g : CallGraph) (e : Edge) :
    (g.withEdge e).edgeList =
      if e.ends ∈ g.edgeList.map Edge.ends then g.edgeList else g.edgeList ++ [e] := by
  -- new vertices bring no edges, so that the same edge is looked for
  have h : ((g.addVertex e.source).addVertex e.target).hasEdge e.source e.target = true ↔
      e.ends ∈ g.edgeList.map Edge.ends := by
    rw [hasEdge_iff, edgeList_addVertex, edgeList_addVertex]; rfl
  simp only [withEdge, addEdge, edgeList_link, h, edgeList_addVertex]

/-- `withEdge` adds no skipped call. -/
@[simp] theorem skippedList_withEdge (g : CallGraph) (e : Edge) :
    (g.withEdge e).skippedList = g.skippedList := by
  rw [withEdge, addEdge, skippedList_link, skippedList_addVertex, skippedList_addVertex]

/-- A graph has one edge more iff `addEdge` tells so. -/
theorem edgeCount_withEdge (g : CallGraph) (e : Edge) :
    (g.withEdge e).edgeCount = g.edgeCount + if (g.addEdge e).2 then 1 else 0 := by
  rw [← length_edgeList, edgeList_withEdge]
  by_cases h : e.ends ∈ g.edgeList.map Edge.ends
  · simp [h, addEdge_snd_iff]
  · simp [h, addEdge_snd_iff]

/-- Adds a call that has no edge. -/
def addSkipped (g : CallGraph) (c : SkippedCall) : CallGraph :=
  { g with skippedStack := c :: g.skippedStack }

/-- `addSkipped` adds no vertex. -/
@[simp] theorem vertexList_addSkipped (g : CallGraph) (c : SkippedCall) :
    (g.addSkipped c).vertexList = g.vertexList := rfl

/-- `addSkipped` adds no edge. -/
@[simp] theorem edgeList_addSkipped (g : CallGraph) (c : SkippedCall) :
    (g.addSkipped c).edgeList = g.edgeList := rfl

/-- `addSkipped` puts the call behind the others. -/
@[simp] theorem skippedList_addSkipped (g : CallGraph) (c : SkippedCall) :
    (g.addSkipped c).skippedList = g.skippedList ++ [c] := by
  simp [addSkipped, skippedList]

/-! ## Counting -/

/-- What a call graph has, in numbers. -/
structure Stats where
  vertexCount : Nat
  edgeCount : Nat
  dispatchEdges : Nat
  selfLoops : Nat
  unresolvedCalls : Nat
  deriving DecidableEq, Repr

/-- Counts the parts of a graph. -/
def stats (g : CallGraph) : Stats where
  vertexCount := g.vertexCount
  edgeCount := g.edgeCount
  dispatchEdges := g.edgeList.countP (·.kind = .dispatches)
  selfLoops := g.edgeList.countP fun e => e.source = e.target
  unresolvedCalls := g.skippedStack.length

end CallGraph

end CallCycle

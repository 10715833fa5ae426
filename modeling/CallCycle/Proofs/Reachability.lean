import CallCycle.Digraph.Sweep
import Mathlib.Logic.Relation

/-!
# What a sweep reaches

A sweep meets exactly the vertices at the end of a walk from its frontier whose edges all lead to
unseen vertices, each of them once, and leaves exactly the others unseen.

## Key results

- `mem_sweep_snd`, `mem_sweep_fst`: the vertices met, and those that stay unseen
- `nodup_sweep`: no vertex is met twice
- `mem_successors_iff`, `mem_reach_snd`, `mem_reach_fst`: the same for one start vertex
- `mem_adjacency`: the successors in an adjacency map are those of the edges
-/

namespace CallCycle.Digraph

open Std Relation

/-- There is an edge from `a` to `b`. -/
def Arrow {α : Type} (succ : α → List α) (a b : α) : Prop := b ∈ succ a

variable {α : Type} [Ord α]

/-- There is an edge from `a` to the unseen vertex `b`. -/
def Into (succ : α → List α) (unseen : TreeSet α) (a b : α) : Prop :=
  b ∈ succ a ∧ b ∈ unseen

/-- A walk of one edge or more leads from the frontier through unseen vertices to `w`. -/
def Swept (succ : α → List α) (unseen : TreeSet α) (frontier : List α) (w : α) : Prop :=
  ∃ v ∈ frontier, TransGen (Into succ unseen) v w

/-- A walk `Into` a set of vertices is one into any larger set. -/
theorem transGen_into_mono {succ : α → List α} {s t : TreeSet α} (h : ∀ v, v ∈ s → v ∈ t)
    {a b : α} (hab : TransGen (Into succ s) a b) : TransGen (Into succ t) a b :=
  TransGen.mono (fun _ _ hxy => ⟨hxy.1, h _ hxy.2⟩) _ _ hab

/-- Where every edge leads into the set, `Into` is `Arrow`: walks are not restricted. -/
theorem into_eq_arrow {succ : α → List α} {s : TreeSet α} (h : ∀ a b, b ∈ succ a → b ∈ s) :
    Into succ s = Arrow succ := by
  funext a b
  exact propext ⟨And.left, fun hb => ⟨hb, h a b hb⟩⟩

variable [TransOrd α] [LawfulEqOrd α]

/-! ## Meeting vertices -/

/-- `erase` takes out one vertex. -/
theorem mem_erase_iff {s : TreeSet α} {v w : α} : w ∈ s.erase v ↔ w ≠ v ∧ w ∈ s := by
  rw [TreeSet.mem_erase, ne_eq, Std.compare_eq_iff_eq, ne_comm, ne_eq]

/-- `ofList` has the vertices of the list. -/
theorem mem_ofList_iff {vs : List α} {v : α} : v ∈ TreeSet.ofList vs ↔ v ∈ vs := by
  classical
  rw [TreeSet.mem_ofList, List.contains_iff_mem]

/-- The vertices that stay unseen when `meet` goes through a list. -/
private theorem mem_foldl_meet_fst {vs : List α} {state : TreeSet α × List α} {w : α} :
    w ∈ (vs.foldl meet state).1 ↔ w ∈ state.1 ∧ w ∉ vs := by
  induction vs generalizing state with
  | nil => simp
  | cons v vs ih =>
    rw [List.foldl_cons, ih, List.mem_cons, not_or, ← and_assoc]
    refine and_congr_left fun _ => ?_
    unfold meet
    split
    · rw [mem_erase_iff, and_comm]
    -- `v` was seen before, so that no unseen vertex is `v`
    · next h =>
      refine ⟨fun hw => ⟨hw, ?_⟩, And.left⟩
      rintro rfl
      exact h (TreeSet.contains_iff_mem.2 hw)

/-- The fresh vertices when `meet` goes through a list: those from before, and what is unseen and in
    the list. -/
private theorem mem_foldl_meet_snd {vs : List α} {state : TreeSet α × List α} {w : α} :
    w ∈ (vs.foldl meet state).2 ↔ w ∈ state.2 ∨ w ∈ state.1 ∧ w ∈ vs := by
  induction vs generalizing state with
  | nil => simp
  | cons v vs ih =>
    rw [List.foldl_cons, ih, List.mem_cons]
    unfold meet
    split
    -- `v` is fresh now
    · next h =>
      have hv : v ∈ state.1 := TreeSet.contains_iff_mem.1 h
      simp only [List.mem_cons, mem_erase_iff]
      by_cases hw : w = v
      · subst hw; simp [hv]
      · simp [hw]
    -- `v` was seen before, and nothing changes
    · next h =>
      have hv : v ∉ state.1 := fun hv => h (TreeSet.contains_iff_mem.2 hv)
      refine or_congr_right ⟨fun hw => ⟨hw.1, .inr hw.2⟩, ?_⟩
      rintro ⟨hw, rfl | hws⟩
      · exact absurd hw hv
      · exact ⟨hw, hws⟩

/-- `meet` takes no vertex out twice, as fresh vertices are no longer unseen. -/
private theorem nodup_foldl_meet {vs : List α} {state : TreeSet α × List α}
    (hnd : state.2.Nodup) (hdis : ∀ v ∈ state.2, v ∉ state.1) :
    (vs.foldl meet state).2.Nodup := by
  induction vs generalizing state with
  | nil => exact hnd
  | cons v vs ih =>
    rw [List.foldl_cons]
    unfold meet
    split
    · next h =>
      have hv : v ∈ state.1 := TreeSet.contains_iff_mem.1 h
      -- fresh vertices are not unseen, which the next step needs again
      refine ih (List.nodup_cons.2 ⟨fun hmem => hdis v hmem hv, hnd⟩) ?_
      intro w hw hin
      rw [mem_erase_iff] at hin
      rcases List.mem_cons.1 hw with rfl | hw
      · exact hin.1 rfl
      · exact hdis w hw hin.2
    · exact ih hnd hdis

/-- `meetAll` leaves the vertices unseen that are not in the list. -/
theorem mem_meetAll_fst {unseen : TreeSet α} {vs : List α} {w : α} :
    w ∈ (meetAll unseen vs).1 ↔ w ∈ unseen ∧ w ∉ vs :=
  mem_foldl_meet_fst

/-- `meetAll` has the unseen vertices of the list as fresh ones. -/
theorem mem_meetAll_snd {unseen : TreeSet α} {vs : List α} {w : α} :
    w ∈ (meetAll unseen vs).2 ↔ w ∈ unseen ∧ w ∈ vs := by
  simp [meetAll, mem_foldl_meet_snd]

/-- `meetAll` lists every fresh vertex once. -/
theorem nodup_meetAll (unseen : TreeSet α) (vs : List α) : (meetAll unseen vs).2.Nodup :=
  nodup_foldl_meet (by simp) (by simp)

/-! ## Sweeping -/

/-- One step of a sweep: what can be met from `v` and the frontier is what `v` leads to, and what
    can be met from there and the rest of the frontier without passing these vertices again. -/
theorem swept_cons_iff {succ : α → List α} {unseen : TreeSet α} {v w : α} {frontier : List α} :
    Swept succ unseen (v :: frontier) w ↔
      w ∈ (meetAll unseen (succ v)).2 ∨
        Swept succ (meetAll unseen (succ v)).1 ((meetAll unseen (succ v)).2 ++ frontier) w := by
  constructor
  · rintro ⟨u, hu, hwalk⟩
    -- along the walk: a vertex is either fresh, or met through the rest
    have hstep : ∀ b c, c ∈ succ b → c ∈ unseen →
        (b ∈ (meetAll unseen (succ v)).2 ++ frontier ∨
          Swept succ (meetAll unseen (succ v)).1 ((meetAll unseen (succ v)).2 ++ frontier) b) →
        c ∈ (meetAll unseen (succ v)).2 ∨
          Swept succ (meetAll unseen (succ v)).1 ((meetAll unseen (succ v)).2 ++ frontier) c := by
      intro b c hbc hc hb
      by_cases hfresh : c ∈ succ v
      · exact .inl (mem_meetAll_snd.2 ⟨hc, hfresh⟩)
      · have hinto : Into succ (meetAll unseen (succ v)).1 b c :=
          ⟨hbc, mem_meetAll_fst.2 ⟨hc, hfresh⟩⟩
        rcases hb with hb | ⟨a, ha, hab⟩
        · exact .inr ⟨b, hb, .single hinto⟩
        · exact .inr ⟨a, ha, hab.tail hinto⟩
    -- the walk starts in `v`, whose successors are fresh, or in the rest of the frontier
    induction hwalk with
    | single huc =>
      rcases List.mem_cons.1 hu with rfl | hu
      · exact .inl (mem_meetAll_snd.2 ⟨huc.2, huc.1⟩)
      · exact hstep u _ huc.1 huc.2 (.inl (List.mem_append_right _ hu))
    | tail _ hbc ih =>
      refine hstep _ _ hbc.1 hbc.2 ?_
      exact ih.imp (List.mem_append_left _) id
  -- back: every fresh vertex is one edge away from `v`
  · have hmono : ∀ x, x ∈ (meetAll unseen (succ v)).1 → x ∈ unseen :=
      fun x hx => (mem_meetAll_fst.1 hx).1
    have hhead : ∀ x ∈ (meetAll unseen (succ v)).2, Into succ unseen v x :=
      fun x hx => (mem_meetAll_snd.1 hx).symm
    rintro (hw | ⟨u, hu, hwalk⟩)
    · exact ⟨v, List.mem_cons_self, .single (hhead w hw)⟩
    · have hwalk' := transGen_into_mono hmono hwalk
      rcases List.mem_append.1 hu with hu | hu
      · exact ⟨v, List.mem_cons_self, .head (hhead u hu) hwalk'⟩
      · exact ⟨u, List.mem_cons_of_mem _ hu, hwalk'⟩

/-- A `sweep` meets the vertices that a walk leads to from its frontier. -/
theorem mem_sweep_snd {succ : α → List α} {unseen : TreeSet α} {frontier found : List α} {w : α} :
    w ∈ (sweep succ unseen frontier found).2 ↔ w ∈ found ∨ Swept succ unseen frontier w := by
  fun_induction sweep succ unseen frontier found with
  | case1 unseen found => simp [Swept]
  | case2 unseen found v frontier ih =>
    rw [ih, List.mem_append, swept_cons_iff, or_comm (b := w ∈ found), or_assoc]

/-- A `sweep` leaves the vertices unseen that no walk leads to. -/
theorem mem_sweep_fst {succ : α → List α} {unseen : TreeSet α} {frontier found : List α} {w : α} :
    w ∈ (sweep succ unseen frontier found).1 ↔ w ∈ unseen ∧ ¬ Swept succ unseen frontier w := by
  fun_induction sweep succ unseen frontier found with
  | case1 unseen found => simp [Swept]
  | case2 unseen found v frontier ih =>
    rw [ih, swept_cons_iff, not_or, mem_meetAll_fst, mem_meetAll_snd]
    constructor
    · rintro ⟨⟨hw, hnew⟩, hrest⟩
      exact ⟨hw, fun h => hnew h.2, hrest⟩
    · rintro ⟨hw, hnew, hrest⟩
      exact ⟨⟨hw, fun h => hnew ⟨hw, h⟩⟩, hrest⟩

/-- A `sweep` meets no vertex twice. -/
theorem nodup_sweep {succ : α → List α} {unseen : TreeSet α} {frontier found : List α}
    (hnd : found.Nodup) (hdis : ∀ v ∈ found, v ∉ unseen) :
    (sweep succ unseen frontier found).2.Nodup := by
  fun_induction sweep succ unseen frontier found with
  | case1 unseen found => exact hnd
  | case2 unseen found v frontier ih =>
    refine ih ?_ ?_
    -- what is met now was unseen, and what was found before was not
    · refine List.nodup_append.2 ⟨nodup_meetAll _ _, hnd, ?_⟩
      rintro a ha b hb rfl
      exact hdis a hb (mem_meetAll_snd.1 ha).1
    · intro w hw hin
      rw [mem_meetAll_fst] at hin
      -- neither the fresh vertices nor those found before stay unseen
      rcases List.mem_append.1 hw with hw | hw
      · exact hin.2 (mem_meetAll_snd.1 hw).2
      · exact hdis w hw hin.1

/-! ## One start vertex -/

/-- `successors` has the vertices at the end of a walk of one edge or more. -/
theorem mem_successors_iff {succ : α → List α} {all : TreeSet α} {v w : α} :
    w ∈ successors succ all v ↔ TransGen (Into succ all) v w := by
  simp [successors, mem_sweep_snd, Swept]

/-- A walk of any length need not come back to its start. -/
private theorem reflTransGen_into_iff {succ : α → List α} {all : TreeSet α} {v w : α} :
    ReflTransGen (Into succ all) v w ↔ w = v ∨ TransGen (Into succ (all.erase v)) v w := by
  constructor
  · intro h
    induction h with
    | refl => exact .inl rfl
    | @tail b c _ hbc ih =>
      -- where the walk comes back, what follows starts anew
      by_cases hc : c = v
      · exact .inl hc
      · have hinto : Into succ (all.erase v) b c := ⟨hbc.1, mem_erase_iff.2 ⟨hc, hbc.2⟩⟩
        rcases ih with rfl | hb
        · exact .inr (.single hinto)
        · exact .inr (hb.tail hinto)
  · rintro (rfl | h)
    · exact .refl
    · exact (transGen_into_mono (fun x hx => (mem_erase_iff.1 hx).2) h).to_reflTransGen

/-- `reach` has the vertices at the end of a walk of any length. -/
theorem mem_reach_snd {succ : α → List α} {all : TreeSet α} {v w : α} :
    w ∈ (reach succ all v).2 ↔ ReflTransGen (Into succ all) v w := by
  simp [reach, mem_sweep_snd, Swept, reflTransGen_into_iff]

/-- `reach` leaves the vertices that no walk leads to. -/
theorem mem_reach_fst {succ : α → List α} {all : TreeSet α} {v w : α} :
    w ∈ (reach succ all v).1 ↔ w ∈ all ∧ ¬ ReflTransGen (Into succ all) v w := by
  rw [reach, mem_sweep_fst, mem_erase_iff, reflTransGen_into_iff, not_or]
  simp only [Swept, List.mem_singleton, exists_eq_left]
  constructor
  · rintro ⟨⟨hne, hw⟩, hwalk⟩
    exact ⟨hw, hne, hwalk⟩
  · rintro ⟨hw, hne, hwalk⟩
    exact ⟨⟨hne, hw⟩, hwalk⟩

/-- `reach` lists every vertex once, also the start. -/
theorem nodup_reach (succ : α → List α) (all : TreeSet α) (v : α) :
    (reach succ all v).2.Nodup := by
  refine nodup_sweep (by simp) ?_
  intro w hw hin
  exact (mem_erase_iff.1 hin).1 (List.mem_singleton.1 hw)

/-! ## Adjacency -/

/-- Going through the edges adds to each vertex the targets of its own. -/
private theorem mem_foldl_adjacency {edges : List (α × α)} {m : TreeMap α (List α)} {a b : α} :
    b ∈ (edges.foldl (fun m (a, b) => m.insert a (b :: m.getD a [])) m).getD a [] ↔
      b ∈ m.getD a [] ∨ (a, b) ∈ edges := by
  induction edges generalizing m with
  | nil => simp
  | cons e edges ih =>
    obtain ⟨x, y⟩ := e
    rw [List.foldl_cons, ih, TreeMap.getD_insert, List.mem_cons, Prod.mk.injEq]
    -- only the list of the source grows
    by_cases hx : x = a
    · subst hx
      simp only [compare_self, if_true, List.mem_cons, true_and]
      rw [or_comm (a := b = y), or_assoc]
    · have hne : compare x a ≠ .eq := by simpa using hx
      simp [hne, Ne.symm hx]

/-- The successors in an `adjacency` map are those of the edges. -/
theorem mem_adjacency {edges : List (α × α)} {a b : α} :
    b ∈ (adjacency edges).getD a [] ↔ (a, b) ∈ edges := by
  simp [adjacency, mem_foldl_adjacency]

end CallCycle.Digraph

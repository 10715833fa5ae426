import CallCycle.Digraph.Components
import CallCycle.Proofs.Reachability

/-!
# The two passes find the strongly connected components

The first pass is described by an invariant of its state, `FirstPass`.  A vertex is *open* while
the step of leaving it is still to do; the open vertices form a chain, in which each reaches all
that is to do before it is left.  When a vertex is left, all it leads to has been seen, so whatever
it reaches was left earlier, unless it reaches an open vertex, which then reaches it as well.  So
in the final order a vertex reaches only later vertices, or is mutually reachable with an earlier
one.  The second pass needs no more than that.

## Key results

- `mem_or_exists_mutual`: where a walk from a vertex that is left can go
- `FirstPass.skip`, `FirstPass.enter`, `FirstPass.leave`: the three steps of the first pass
- `leavingOrder_spec`: what is true of the order in which vertices are left
- `Classes.cons`: the class of a vertex in front of the others
- `gather_spec`: the second pass gathers one class after the other
- `components_spec`: the components are the classes of mutual reachability
-/

namespace CallCycle.Digraph

open Std Relation

/-! ## Mutual reachability -/

section Mutual

variable {α : Type} {succ : α → List α} {a b c : α}

/-- Walks of any length lead from `a` to `b` and back. -/
def Mutual (succ : α → List α) (a b : α) : Prop :=
  ReflTransGen (Arrow succ) a b ∧ ReflTransGen (Arrow succ) b a

/-- A vertex belongs together with itself. -/
theorem Mutual.refl (a : α) : Mutual succ a a := ⟨.refl, .refl⟩

/-- Belonging together goes both ways. -/
theorem Mutual.symm (h : Mutual succ a b) : Mutual succ b a := ⟨h.2, h.1⟩

/-- Belonging together passes on. -/
theorem Mutual.trans (hab : Mutual succ a b) (hbc : Mutual succ b c) : Mutual succ a c :=
  ⟨hab.1.trans hbc.1, hbc.2.trans hab.2⟩

/-- Where successors have been left or are open, and open vertices reach `v`, a walk from `v` stays
    among the vertices that were left, or comes to an open vertex that belongs together with `v`. -/
theorem mem_or_exists_mutual {openVertices left : List α} {v w : α}
    (hv : v ∈ left) (hsucc : ∀ b ∈ left, ∀ c ∈ succ b, c ∈ openVertices ++ left)
    (hback : ∀ c ∈ openVertices, ReflTransGen (Arrow succ) c v)
    (hw : ReflTransGen (Arrow succ) v w) :
    w ∈ left ∨ ∃ u ∈ openVertices, Mutual succ v u := by
  -- follow the walk until it comes to a vertex that was not left
  induction hw with
  | refl => exact .inl hv
  | @tail b c hvb hbc ih =>
    rcases ih with hb | hopen
    · rcases List.mem_append.1 (hsucc b hb c hbc) with hc | hc
      · exact .inr ⟨c, hc, hvb.tail hbc, hback c hc⟩
      · exact .inl hc
    · exact .inr hopen

end Mutual

/-! ## The first pass -/

section Steps

variable {α : Type}

/-- The vertex of a step. -/
def Step.vertex : Step α → α
  | .enter v => v
  | .leave v => v

/-- The vertex that a step leaves, if it leaves one. -/
def Step.leaving? : Step α → Option α
  | .enter _ => none
  | .leave v => some v

/-- The vertices that are still to be left. -/
def opened (steps : List (Step α)) : List α := steps.filterMap Step.leaving?

/-- The vertex that is left next is `opened`. -/
@[simp] theorem opened_leave (v : α) (steps : List (Step α)) :
    opened (.leave v :: steps) = v :: opened steps := rfl

/-- Steps that enter a vertex leave none `opened`. -/
@[simp] theorem opened_map_enter (vs : List α) (steps : List (Step α)) :
    opened (vs.map .enter ++ steps) = opened steps := by
  induction vs with
  | nil => rfl
  | cons v vs ih => exact ih

/-- A vertex is `opened` iff leaving it is still to do. -/
theorem mem_opened {steps : List (Step α)} {v : α} : v ∈ opened steps ↔ .leave v ∈ steps := by
  simp only [opened, List.mem_filterMap]
  constructor
  · rintro ⟨s, hs, hv⟩
    cases s with
    | enter w => exact nomatch hv
    | leave w => cases hv; exact hs
  · exact fun h => ⟨_, h, rfl⟩

/-- Another first step can be dropped in front of a pending one. -/
private theorem pending_tail {s : Step α} {steps : List (Step α)} {v w : α}
    (h : [.enter w, .leave v].Sublist (s :: steps)) (hs : s ≠ .enter w) :
    [.enter w, .leave v].Sublist steps := by
  cases h with
  | cons _ h => exact h
  | cons_cons => exact absurd rfl hs

end Steps

section FirstPass

variable {α : Type} [Ord α]

/-- What holds between any two steps of the first pass, where `all` has the vertices of the
    graph. -/
structure FirstPass (succ : α → List α) (all unseen : TreeSet α) (steps : List (Step α))
    (left : List α) : Prop where
  /-- The vertices seen so far are those that are open and those that were left. -/
  seen_iff : ∀ v, v ∈ opened steps ++ left ↔ v ∈ all ∧ v ∉ unseen
  /-- No vertex is opened or left twice. -/
  nodup : (opened steps ++ left).Nodup
  /-- Every unseen vertex is still to be entered. -/
  cover : ∀ v ∈ unseen, .enter v ∈ steps
  /-- An unseen successor of an open vertex is to be entered before that vertex is left. -/
  pending : ∀ v ∈ opened steps, ∀ w ∈ succ v, w ∈ unseen → [.enter w, .leave v].Sublist steps
  /-- What is to do before an open vertex is left concerns vertices that it reaches. -/
  chain : steps.Pairwise fun s t => ∀ v, t = .leave v → ReflTransGen (Arrow succ) v s.vertex
  /-- The successors of a vertex that was left have been seen. -/
  closed : ∀ v ∈ left, ∀ w ∈ succ v, w ∉ unseen
  /-- What a vertex reaches was left before it, unless the vertex belongs together with one that
      was left after it or is still open. -/
  order : ∀ later v earlier, left = later ++ v :: earlier → ∀ w, ReflTransGen (Arrow succ) v w →
    w ∈ v :: earlier ∨ ∃ u, (u ∈ opened steps ∨ u ∈ later) ∧ Mutual succ v u

/-- `FirstPass` holds at the start, when all is unseen and to be entered. -/
theorem FirstPass.start (succ : α → List α) {all : TreeSet α} {vertices : List α}
    (h : ∀ v, v ∈ all → v ∈ vertices) : FirstPass succ all all (vertices.map .enter) [] := by
  have hopen : opened (vertices.map Step.enter) = [] := by
    simpa [opened] using opened_map_enter vertices ([] : List (Step α))
  refine ⟨?_, ?_, ?_, ?_, ?_, ?_, ?_⟩
  · intro v; simp [hopen]
  · simp [hopen]
  · exact fun v hv => List.mem_map_of_mem (h v hv)
  · intro v hv; simp [hopen] at hv
  -- no vertex is to be left yet
  · refine List.pairwise_of_forall_mem_list fun s hs t ht v hv => ?_
    obtain ⟨w, _, rfl⟩ := List.mem_map.1 ht
    exact nomatch hv
  · simp
  · simp

/-- A vertex that has been seen is not entered again, and `FirstPass` holds without the step. -/
theorem FirstPass.skip {succ : α → List α} {all unseen : TreeSet α} {v : α}
    {steps : List (Step α)} {left : List α}
    (h : FirstPass succ all unseen (.enter v :: steps) left) (hv : v ∉ unseen) :
    FirstPass succ all unseen steps left := by
  refine ⟨h.seen_iff, h.nodup, ?_, ?_, (List.pairwise_cons.1 h.chain).2, h.closed, h.order⟩
  · intro w hw
    rcases List.mem_cons.1 (h.cover w hw) with heq | hmem
    · cases heq; exact absurd hw hv
    · exact hmem
  · intro u hu w hw hin
    refine pending_tail (h.pending u hu w hw hin) ?_
    rintro ⟨⟩
    exact hv hin

/-- Leaving a vertex: all it leads to has been seen, so a walk from it stays among the vertices
    that were left, or comes to an open vertex, which reaches it in turn. -/
theorem FirstPass.leave {succ : α → List α} {all unseen : TreeSet α} {v : α}
    {steps : List (Step α)} {left : List α} (hsucc : ∀ a b, b ∈ succ a → b ∈ all)
    (h : FirstPass succ all unseen (.leave v :: steps) left) :
    FirstPass succ all unseen steps (v :: left) := by
  -- the vertex goes from the open ones to those that were left
  have hperm : (opened steps ++ v :: left).Perm (opened (.leave v :: steps) ++ left) :=
    List.perm_middle
  have hnd : v ∉ opened steps := fun hmem => by
    have := (List.nodup_cons.1 h.nodup).1
    exact this (List.mem_append_left _ hmem)
  obtain ⟨hhead, htail⟩ := List.pairwise_cons.1 h.chain
  -- an unseen successor would be waiting in front of this step
  have hclosed : ∀ u ∈ v :: left, ∀ w ∈ succ u, w ∉ unseen := by
    intro u hu w hw hin
    rcases List.mem_cons.1 hu with rfl | hu
    · have hsub := pending_tail (h.pending u (by simp) w hw hin) nofun
      exact hnd (mem_opened.2 (hsub.subset (by simp)))
    · exact h.closed u hu w hw hin
  refine ⟨fun w => hperm.mem_iff.trans (h.seen_iff w), hperm.nodup_iff.2 h.nodup, ?_, ?_, htail,
    hclosed, ?_⟩
  · intro w hw
    rcases List.mem_cons.1 (h.cover w hw) with heq | hmem
    · exact nomatch heq
    · exact hmem
  · intro u hu w hw hin
    exact pending_tail (h.pending u (List.mem_cons_of_mem _ hu) w hw hin) nofun
  · intro later u earlier hleft w hw
    rcases List.cons_eq_append_iff.1 hleft with ⟨rfl, heq⟩ | ⟨later', rfl, hleft'⟩
    · -- `u` is the vertex that is left now, and nothing was left after it
      obtain ⟨rfl, rfl⟩ := List.cons.inj heq
      have hseen : ∀ b ∈ u :: earlier, ∀ c ∈ succ b, c ∈ opened steps ++ u :: earlier :=
        fun b hb c hc => hperm.mem_iff.2 ((h.seen_iff c).2 ⟨hsucc b c hc, hclosed b hb c hc⟩)
      have hback : ∀ c ∈ opened steps, ReflTransGen (Arrow succ) c u :=
        fun c hc => hhead _ (mem_opened.1 hc) c rfl
      refine (mem_or_exists_mutual List.mem_cons_self hseen hback hw).imp_right ?_
      rintro ⟨x, hx, hmut⟩
      exact ⟨x, .inl hx, hmut⟩
    · -- `u` was left before; the vertex that was open for it may be the one that is left now
      refine (h.order later' u earlier hleft' w hw).imp_right ?_
      rintro ⟨x, hx | hx, hmut⟩
      · rcases List.mem_cons.1 hx with rfl | hx
        · exact ⟨x, .inr List.mem_cons_self, hmut⟩
        · exact ⟨x, .inl hx, hmut⟩
      · exact ⟨x, .inr (List.mem_cons_of_mem _ hx), hmut⟩

variable [TransOrd α] [LawfulEqOrd α]

/-- Entering a vertex opens it and has its successors entered before it is left; `FirstPass` holds
    again. -/
theorem FirstPass.enter {succ : α → List α} {all unseen : TreeSet α} {v : α}
    {steps : List (Step α)} {left : List α}
    (h : FirstPass succ all unseen (.enter v :: steps) left) (hv : v ∈ unseen)
    (hall : v ∈ all) :
    FirstPass succ all (unseen.erase v) ((succ v).map .enter ++ .leave v :: steps) left := by
  -- an unseen vertex is neither open nor left
  have hfresh : v ∉ opened steps ++ left := fun hmem => ((h.seen_iff v).1 hmem).2 hv
  refine ⟨?_, ?_, ?_, ?_, ?_, ?_, ?_⟩
  · intro w
    rw [opened_map_enter, opened_leave, List.cons_append, List.mem_cons, mem_erase_iff]
    by_cases hw : w = v
    · subst hw; simp [hall]
    · rw [show w ∈ opened steps ++ left ↔ _ from h.seen_iff w]
      simp [hw]
  · rw [opened_map_enter, opened_leave, List.cons_append, List.nodup_cons]
    exact ⟨hfresh, h.nodup⟩
  · intro w hw
    rw [mem_erase_iff] at hw
    rcases List.mem_cons.1 (h.cover w hw.2) with heq | hmem
    · cases heq; exact absurd rfl hw.1
    · exact List.mem_append_right _ (List.mem_cons_of_mem _ hmem)
  · -- the successors of `v` are put in front of leaving `v`; those of other vertices were waiting
    intro u hu w hw hin
    rw [mem_erase_iff] at hin
    rw [opened_map_enter, opened_leave, List.mem_cons] at hu
    rcases hu with rfl | hu
    · have hpre : [Step.enter w].Sublist ((succ u).map .enter) :=
        List.singleton_sublist.2 (List.mem_map_of_mem hw)
      have hpost : [Step.leave u].Sublist (.leave u :: steps) :=
        List.singleton_sublist.2 List.mem_cons_self
      exact hpre.append hpost
    · have hsub : [.enter w, .leave u].Sublist steps := by
        refine pending_tail (h.pending u hu w hw hin.2) ?_
        rintro ⟨⟩
        exact hin.1 rfl
      exact hsub.trans ((List.sublist_cons_self _ _).trans (List.sublist_append_right _ _))
  · obtain ⟨hhead, htail⟩ := List.pairwise_cons.1 h.chain
    refine List.pairwise_append.2 ⟨?_, List.pairwise_cons.2 ⟨hhead, htail⟩, ?_⟩
    · refine List.pairwise_of_forall_mem_list fun s hs t ht u hu => ?_
      obtain ⟨w, _, rfl⟩ := List.mem_map.1 ht
      exact nomatch hu
    · intro s hs t ht u hu
      obtain ⟨w, hw, rfl⟩ := List.mem_map.1 hs
      -- every open vertex reaches `v`, so it reaches the successors of `v`
      have huv : ReflTransGen (Arrow succ) u v := by
        rcases List.mem_cons.1 ht with rfl | ht
        · cases hu; exact .refl
        · exact hhead t ht u hu
      exact huv.tail hw
  · exact fun u hu w hw hin => h.closed u hu w hw (mem_erase_iff.1 hin).2
  · intro later u earlier hleft w hw
    refine (h.order later u earlier hleft w hw).imp_right ?_
    rintro ⟨x, hx, hmut⟩
    refine ⟨x, hx.imp_left fun hx => ?_, hmut⟩
    rw [opened_map_enter, opened_leave]
    exact List.mem_cons_of_mem _ hx

/-- `FirstPass` holds in every state of `leavingOrder`, and so in one with nothing left to do. -/
theorem FirstPass.run {succ : α → List α} {all unseen : TreeSet α} {steps : List (Step α)}
    {left : List α} (hsucc : ∀ a b, b ∈ succ a → b ∈ all)
    (hsub : ∀ v, v ∈ unseen → v ∈ all) (h : FirstPass succ all unseen steps left) :
    ∃ rest, FirstPass succ all rest [] (leavingOrder succ unseen steps left) := by
  fun_induction leavingOrder succ unseen steps left with
  | case1 unseen left => exact ⟨unseen, h⟩
  -- one case for each step: leave, enter, skip
  | case2 unseen left v steps ih => exact ih hsub (h.leave hsucc)
  | case3 unseen left v steps hv ih =>
    exact ih (fun w hw => hsub w (mem_erase_iff.1 hw).2) (h.enter hv (hsub v hv))
  | case4 unseen left v steps hv ih => exact ih hsub (h.skip hv)

/-- In `order`, every vertex reaches only itself and later ones, unless it belongs together with
    an earlier one. -/
def ReachesLater (succ : α → List α) (order : List α) : Prop :=
  ∀ before v after, order = before ++ v :: after → ∀ w, ReflTransGen (Arrow succ) v w →
    w ∈ v :: after ∨ ∃ u ∈ before, Mutual succ v u

/-- `leavingOrder` has the vertices by when they are left, the last one first: each of them occurs
    once, and reaches only itself and later ones, unless it belongs together with an earlier one. -/
theorem leavingOrder_spec {succ : α → List α} {vertices order : List α}
    (hsucc : ∀ a b, b ∈ succ a → b ∈ vertices)
    (horder : order = leavingOrder succ (.ofList vertices) (vertices.map .enter) []) :
    order.Nodup ∧ (∀ v, v ∈ order ↔ v ∈ vertices) ∧ ReachesLater succ order := by
  obtain ⟨rest, h⟩ := (FirstPass.start succ fun v hv => mem_ofList_iff.1 hv).run
    (fun a b hb => mem_ofList_iff.2 (hsucc a b hb)) (fun _ hv => hv)
  rw [← horder] at h
  -- what is unseen would still be to enter, and nothing is
  have hrest : ∀ v, v ∉ rest := fun v hv => nomatch h.cover v hv
  refine ⟨h.nodup, fun v => ?_, fun before v after hsplit w hw => ?_⟩
  · have hseen := h.seen_iff v
    simpa [opened, mem_ofList_iff, hrest] using hseen
  · have hlater := h.order before v after hsplit w hw
    simpa [opened] using hlater

end FirstPass

/-! ## The second pass -/

section SecondPass

variable {α : Type} {succ pred : α → List α}

/-- Where `u` comes after `v` and reaches it, some vertex up to `v` belongs together with `u`: the
    first one of the class of `u`. -/
theorem exists_mutual_of_reaches_earlier {before after : List α} {v u : α}
    (horder : ReachesLater succ (before ++ v :: after)) (hnd : (before ++ v :: after).Nodup)
    (hu : u ∈ before ++ v :: after) (huv : ReflTransGen (Arrow succ) u v) :
    ∃ w, (w ∈ before ∨ w = v) ∧ Mutual succ u w := by
  classical
  -- the first vertex in the order that belongs together with `u`
  obtain ⟨x, hx⟩ : ∃ x, (before ++ v :: after).find? (fun x => Mutual succ u x) = some x := by
    rw [← Option.isSome_iff_exists, List.find?_isSome]
    exact ⟨u, hu, by simpa using Mutual.refl u⟩
  obtain ⟨hux, bs, as, hsplit, hfirst⟩ := List.find?_eq_some_iff_append.1 hx
  have hux : Mutual succ u x := by simpa using hux
  have hfirst : ∀ y ∈ bs, ¬ Mutual succ u y := by simpa using hfirst
  refine ⟨x, ?_, hux⟩
  rcases horder bs x as hsplit v (hux.2.trans huv) with hv | ⟨y, hy, hxy⟩
  · rcases List.append_eq_append_iff.1 hsplit with ⟨c, hbs, hc⟩ | ⟨c, hbefore, hc⟩
    · -- `x` comes at `v` or after it, but `v` is not in front of `x`
      cases c with
      | nil => exact .inr (List.cons.inj hc).1.symm
      | cons y c =>
        obtain ⟨rfl, -⟩ := List.cons.inj hc
        rw [hsplit, hbs] at hnd
        exact absurd rfl ((List.nodup_append.1 hnd).2.2 v (by simp) v hv)
    -- `x` comes before `v`
    · cases c with
      | nil => exact .inr (List.cons.inj hc).1
      | cons y c =>
        obtain ⟨rfl, -⟩ := List.cons.inj hc
        exact .inl (by simp [hbefore])
  -- an earlier one of its class would have been found instead
  · exact absurd (hux.trans hxy) (hfirst y hy)

/-- `classes` has the classes of mutual reachability of the vertices in `inside`, each of them
    once. -/
structure Classes (succ : α → List α) (inside : α → Prop) (classes : List (List α)) : Prop where
  nonempty : ∀ c ∈ classes, c ≠ []
  nodup : ∀ c ∈ classes, c.Nodup
  subset : ∀ c ∈ classes, ∀ a ∈ c, inside a
  mem_iff : ∀ c ∈ classes, ∀ a ∈ c, ∀ b, b ∈ c ↔ Mutual succ a b
  cover : ∀ v, inside v → ∃ c ∈ classes, v ∈ c
  disjoint : classes.Pairwise fun c d => ∀ a ∈ c, a ∉ d

/-- Where there is no vertex, there are no classes. -/
theorem Classes.nil {inside : α → Prop} (h : ∀ v, ¬ inside v) : Classes succ inside [] :=
  ⟨by simp, by simp, by simp, by simp, fun v hv => absurd hv (h v), .nil⟩

/-- The class of a vertex is put in front of the classes of the other vertices. -/
theorem Classes.cons {inside rest : α → Prop} {c : List α} {classes : List (List α)} {v : α}
    (h : Classes succ rest classes) (hnd : c.Nodup) (hclass : ∀ w, w ∈ c ↔ Mutual succ v w)
    (hwhole : ∀ w, Mutual succ v w → inside w)
    (hrest : ∀ w, rest w ↔ inside w ∧ ¬ Mutual succ v w) :
    Classes succ inside (c :: classes) := by
  refine ⟨?_, ?_, ?_, ?_, ?_, ?_⟩
  · rintro d (_ | ⟨_, hd⟩)
    · exact List.ne_nil_of_mem ((hclass v).2 (Mutual.refl v))
    · exact h.nonempty d hd
  · rintro d (_ | ⟨_, hd⟩)
    · exact hnd
    · exact h.nodup d hd
  · rintro d (_ | ⟨_, hd⟩) a ha
    · exact hwhole a ((hclass a).1 ha)
    · exact ((hrest a).1 (h.subset d hd a ha)).1
  -- within one class, being in it and belonging together are the same
  · rintro d (_ | ⟨_, hd⟩) a ha b
    · have hva := (hclass a).1 ha
      rw [hclass]
      exact ⟨hva.symm.trans, hva.trans⟩
    · exact h.mem_iff d hd a ha b
  · intro w hw
    by_cases hvw : Mutual succ v w
    · exact ⟨c, List.mem_cons_self, (hclass w).2 hvw⟩
    · obtain ⟨d, hd, hwd⟩ := h.cover w ((hrest w).2 ⟨hw, hvw⟩)
      exact ⟨d, List.mem_cons_of_mem _ hd, hwd⟩
  · -- what is in another class is outside the class of `v`
    refine List.pairwise_cons.2 ⟨fun d hd w hw hwd => ?_, h.disjoint⟩
    exact ((hrest w).1 (h.subset d hd w hwd)).2 ((hclass w).1 hw)

variable [Ord α] [TransOrd α] [LawfulEqOrd α]

/-- Where the unseen vertices are made of whole classes and are all listed from `v` on, `v` gathers
    its class. -/
theorem mem_reach_iff_mutual {before after : List α} {unseen : TreeSet α} {v w : α}
    (hpred : ∀ a b, a ∈ pred b ↔ b ∈ succ a) (horder : ReachesLater succ (before ++ v :: after))
    (hnd : (before ++ v :: after).Nodup) (hv : v ∈ unseen)
    (hlisted : ∀ x, x ∈ unseen → x ∈ v :: after)
    (hwhole : ∀ x, x ∈ unseen → ∀ y, Mutual succ x y → y ∈ unseen) :
    w ∈ (reach pred unseen v).2 ↔ Mutual succ v w := by
  rw [mem_reach_snd]
  constructor
  · intro h
    have hw : w ∈ unseen := by
      cases h with
      | refl => exact hv
      | tail _ hbw => exact hbw.2
    -- a walk against the edges, read from its end
    have hwv : ReflTransGen (Arrow succ) w v := by
      clear hw
      induction h with
      | refl => exact .refl
      | tail _ hbc ih => exact .head ((hpred _ _).1 hbc.1) ih
    obtain ⟨x, hx | rfl, hmut⟩ := exists_mutual_of_reaches_earlier horder hnd
      (List.mem_append_right _ (hlisted w hw)) hwv
    · -- the vertices in front of `v` have been seen
      exact absurd rfl ((List.nodup_append.1 hnd).2.2 x hx x (hlisted x (hwhole w hw x hmut)))
    · exact hmut.symm
  · rintro ⟨hvw, hwv⟩
    -- back along the walk from `w` to `v`, whose vertices all belong to the class
    induction hwv using ReflTransGen.head_induction_on with
    | refl => exact .refl
    | @head a b hab hbv ih =>
      have hinto : Into pred unseen b a :=
        ⟨(hpred a b).2 hab, hwhole v hv a ⟨hvw, .head hab hbv⟩⟩
      exact (ih (hvw.tail hab)).tail hinto

/-- The second pass, `gather`, has the classes of the unseen vertices, where these are whole classes
    and are all listed. -/
theorem gather_spec (before : List α) {order : List α} {unseen : TreeSet α}
    (hpred : ∀ a b, a ∈ pred b ↔ b ∈ succ a) (horder : ReachesLater succ (before ++ order))
    (hnd : (before ++ order).Nodup) (hlisted : ∀ x, x ∈ unseen → x ∈ order)
    (hwhole : ∀ x, x ∈ unseen → ∀ y, Mutual succ x y → y ∈ unseen) :
    Classes succ (· ∈ unseen) (gather pred order unseen) := by
  induction order generalizing before unseen with
  | nil =>
    rw [gather]
    exact .nil fun x hx => nomatch hlisted x hx
  | cons v order ih =>
    -- `v` moves to the vertices in front
    have hassoc : before ++ v :: order = (before ++ [v]) ++ order := by simp
    unfold gather
    split
    · next hv =>
      have hclass : ∀ w, w ∈ (reach pred unseen v).2 ↔ Mutual succ v w := fun w =>
        mem_reach_iff_mutual hpred horder hnd hv hlisted hwhole
      have hrest : ∀ w, w ∈ (reach pred unseen v).1 ↔ w ∈ unseen ∧ ¬ Mutual succ v w := fun w => by
        rw [mem_reach_fst, ← mem_reach_snd, hclass]
      have hgather : Classes succ (· ∈ (reach pred unseen v).1)
          (gather pred order (reach pred unseen v).1) := by
        -- taking out a whole class leaves whole classes
        refine ih (before ++ [v]) (hassoc ▸ horder) (hassoc ▸ hnd) ?_ ?_
        · intro x hx
          obtain ⟨hx, hxv⟩ := (hrest x).1 hx
          rcases List.mem_cons.1 (hlisted x hx) with rfl | hmem
          · exact absurd (Mutual.refl x) hxv
          · exact hmem
        · intro x hx y hxy
          obtain ⟨hx, hxv⟩ := (hrest x).1 hx
          exact (hrest y).2 ⟨hwhole x hx y hxy, fun hvy => hxv (hvy.trans hxy.symm)⟩
      exact hgather.cons (nodup_reach pred unseen v) hclass (hwhole v hv) hrest
    · next hv =>
      -- `v` was gathered before, with an earlier vertex
      refine ih (before ++ [v]) (hassoc ▸ horder) (hassoc ▸ hnd) ?_ hwhole
      intro x hx
      rcases List.mem_cons.1 (hlisted x hx) with rfl | hmem
      · exact absurd hx hv
      · exact hmem

end SecondPass

/-- `components` has the classes of mutual reachability of the vertices. -/
theorem components_spec {α : Type} [Ord α] [TransOrd α] [LawfulEqOrd α] {succ pred : α → List α}
    {vertices : List α} (hsucc : ∀ a b, b ∈ succ a → b ∈ vertices)
    (hpred : ∀ a b, a ∈ pred b ↔ b ∈ succ a) :
    Classes succ (· ∈ vertices) (components succ pred vertices) := by
  obtain ⟨hnd, hmem, horder⟩ := leavingOrder_spec hsucc rfl
  -- a walk from a vertex ends in one
  have hwhole : ∀ x, x ∈ TreeSet.ofList vertices → ∀ y, Mutual succ x y →
      y ∈ TreeSet.ofList vertices := by
    intro x hx y hxy
    rcases hxy.1.cases_tail with rfl | ⟨z, -, hzy⟩
    · exact hx
    · exact mem_ofList_iff.2 (hsucc z y hzy)
  have hgather := gather_spec [] hpred horder hnd
    (fun x hx => (hmem x).2 (mem_ofList_iff.1 hx)) hwhole
  simp only [mem_ofList_iff] at hgather
  exact hgather

end CallCycle.Digraph

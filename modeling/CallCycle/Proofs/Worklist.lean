import CallCycle.Proofs.Build
import CallCycle.Proofs.Cycles
import Mathlib.Logic.Function.Iterate

/-!
# The worklist behind implementations

The methods that override a method, directly or through others, are found by a loop over a
worklist: the key on top of the stack is taken off, and the keys in its list that were not found
before are found and put on the stack.  Nothing in the loop bounds the number of its rounds.

Each key that is found is put on the stack once, and every round takes one key off, so the loop ends
after as many rounds as there are keys to be found, and one more for the key it starts with.  It
keeps step with the sweep that `Builder.implementations` is defined by: what the sweep has not seen
is what the loop has not found.

## Key results

- `Tracks.step`: a round of the loop and a step of the sweep
- `Tracks.run`: the loop ends when the sweep does
- `Worklist.stack_iterate_eq_nil_iff`, `Worklist.toList_found_iterate`: when it ends, and what it
  has found then
- `implementations_closure`: the loop ends with the transitive closure
-/

namespace CallCycle.Build

open Std Relation

/-- The state of the loop: the keys found so far, and those among them that are still to be
    followed, the last one first. -/
structure Worklist where
  found : TreeSet Key
  stack : List Key

namespace Worklist

/-- Nothing is found, and `base` is to be followed. -/
def start (base : Key) : Worklist :=
  ⟨∅, [base]⟩

/-- Finds a key and puts it on the stack, unless it was found before. -/
def find (w : Worklist) (k : Key) : Worklist :=
  if w.found.contains k then w else ⟨w.found.insert k, k :: w.stack⟩

/-- A round of the loop.  With nothing on the stack, the loop has ended. -/
def step (direct : TreeMap Key (List Key)) (w : Worklist) : Worklist :=
  match w.stack with
  | [] => w
  | k :: stack => (direct.getD k []).foldl find ⟨w.found, stack⟩

end Worklist

/-! ## Keeping step -/

/-- A worklist is where a sweep is that started with all keys of `all` unseen. -/
structure Tracks (all : TreeSet Key) (w : Worklist) (unseen : TreeSet Key) (frontier : List Key) :
    Prop where
  stack_eq : w.stack = frontier
  mem_all : ∀ k ∈ w.found, k ∈ all
  mem_unseen_iff : ∀ k, k ∈ unseen ↔ k ∈ all ∧ k ∉ w.found

namespace Tracks

variable {all unseen : TreeSet Key} {w : Worklist} {frontier rest : List Key}

/-- The loop at its `start` is where the sweep starts. -/
theorem start (all : TreeSet Key) (base : Key) : Tracks all (.start base) all [base] where
  stack_eq := rfl
  mem_all k hk := absurd hk TreeSet.not_mem_emptyc
  mem_unseen_iff k := by simp [Worklist.start]

/-- `Worklist.find` finds a key iff the sweep meets it with `Digraph.meet`. -/
theorem find {state : TreeSet Key × List Key} (h : Tracks all w state.1 (state.2 ++ rest)) {k : Key}
    (hk : k ∈ all) :
    Tracks all (w.find k) (Digraph.meet state k).1 ((Digraph.meet state k).2 ++ rest) := by
  -- unseen means not found, as `k` is one of all keys
  have hseen : state.1.contains k = true ↔ ¬ w.found.contains k = true := by
    rw [TreeSet.contains_iff_mem, TreeSet.contains_iff_mem, h.mem_unseen_iff]
    simp [hk]
  unfold Worklist.find Digraph.meet
  by_cases hfound : w.found.contains k = true
  · rw [if_pos hfound, if_neg (fun hmem => hseen.1 hmem hfound)]
    exact h
  · rw [if_neg hfound, if_pos (hseen.2 hfound)]
    refine ⟨?_, fun i hi => ?_, fun i => ?_⟩
    · show k :: w.stack = k :: state.2 ++ rest
      rw [h.stack_eq]
      rfl
    · rw [TreeSet.mem_insert, Std.compare_eq_iff_eq] at hi
      rcases hi with rfl | hi
      · exact hk
      · exact h.mem_all i hi
    · rw [Digraph.mem_erase_iff, h.mem_unseen_iff, TreeSet.mem_insert, Std.compare_eq_iff_eq,
        not_or, ne_comm]
      exact and_left_comm

/-- `Worklist.find` for a whole list keeps step with `Digraph.meet`. -/
theorem foldl_find {ks : List Key} (hks : ∀ k ∈ ks, k ∈ all) {state : TreeSet Key × List Key}
    (h : Tracks all w state.1 (state.2 ++ rest)) :
    Tracks all (ks.foldl Worklist.find w) (ks.foldl Digraph.meet state).1
      ((ks.foldl Digraph.meet state).2 ++ rest) := by
  induction ks generalizing w state with
  | nil => exact h
  | cons k ks ih =>
    obtain ⟨hk, hks⟩ := List.forall_mem_cons.1 hks
    exact ih hks (h.find hk)

variable {direct : TreeMap Key (List Key)}

/-- A round of the loop, `Worklist.step`, is a step of the sweep. -/
theorem step (hall : ∀ a b, b ∈ direct.getD a [] → b ∈ all) {v : Key}
    (h : Tracks all w unseen (v :: frontier)) :
    Tracks all (w.step direct) (Digraph.meetAll unseen (direct.getD v [])).1
      ((Digraph.meetAll unseen (direct.getD v [])).2 ++ frontier) := by
  -- the sweep collects fresh vertices apart, where the loop puts them on its stack at once
  let fresh : TreeSet Key × List Key := (unseen, [])
  have hpopped : Tracks all ⟨w.found, frontier⟩ fresh.1 (fresh.2 ++ frontier) :=
    ⟨rfl, h.mem_all, h.mem_unseen_iff⟩
  unfold Worklist.step
  rw [h.stack_eq]
  exact hpopped.foldl_find (hall v)

/-- The loop ends when the sweep does, and not before.  Every round takes one key off the stack, and
    what is put on it is what the sweep adds to `found`. -/
theorem run (hall : ∀ a b, b ∈ direct.getD a [] → b ∈ all) (found : List Key)
    (h : Tracks all w unseen frontier) :
    ∃ n, n + found.length =
        (Digraph.sweep (direct.getD · []) unseen frontier found).2.length + frontier.length ∧
      Tracks all ((Worklist.step direct)^[n] w)
        (Digraph.sweep (direct.getD · []) unseen frontier found).1 [] ∧
      ∀ m < n, ((Worklist.step direct)^[m] w).stack ≠ [] := by
  fun_induction Digraph.sweep (direct.getD · []) unseen frontier found generalizing w with
  | case1 unseen found => exact ⟨0, by simp, h, by simp⟩
  | case2 unseen found v frontier ih =>
    -- the other rounds, from where the first one ends
    obtain ⟨n, hcount, hend, hbefore⟩ := ih (h.step hall)
    simp only [List.length_append] at hcount
    refine ⟨n + 1, ?_, hend, fun m hm => ?_⟩
    · rw [List.length_cons]
      omega
    · cases m with
      | zero =>
        rw [Function.iterate_zero_apply, h.stack_eq]
        exact List.cons_ne_nil v frontier
      | succ m => exact hbefore m (by omega)

end Tracks

/-! ## The whole loop -/

namespace Worklist

variable {direct : TreeMap Key (List Key)}

/-- A `step` with nothing on the stack changes nothing. -/
theorem step_of_stack_eq_nil {w : Worklist} (h : w.stack = []) : w.step direct = w := by
  unfold step
  rw [h]

/-- Any number of `step` with nothing on the stack change nothing. -/
theorem iterate_of_stack_eq_nil {w : Worklist} (h : w.stack = []) (n : Nat) :
    (step direct)^[n] w = w :=
  Function.iterate_fixed (step_of_stack_eq_nil h) n

/-- The loop from `base` finds the implementations of `base`, and ends after one round more than
    there are. -/
theorem run_start (direct : TreeMap Key (List Key)) (base : Key) :
    ((step direct)^[(Builder.implementations direct base).length + 1] (start base)).stack = [] ∧
      ((step direct)^[(Builder.implementations direct base).length + 1] (start base)).found.toList =
        Builder.implementations direct base ∧
      ∀ m ≤ (Builder.implementations direct base).length,
        ((step direct)^[m] (start base)).stack ≠ [] := by
  let all := TreeSet.ofList direct.values.flatten
  have hall : ∀ a b, b ∈ direct.getD a [] → b ∈ all := fun _ _ => mem_ofList_values
  obtain ⟨n, hcount, hend, hbefore⟩ := (Tracks.start all base).run hall []
  -- the implementations are what the sweep has met, in order
  have hmet : ∀ k, k ∈ Builder.implementations direct base ↔
      k ∈ Digraph.successors (direct.getD · []) all base := fun k => CallGraph.mem_distinct
  have hincreasing : Increasing (Builder.implementations direct base) :=
    CallGraph.increasing_distinct _
  -- each key that is met is followed once, and so is `base`
  have hn : n = (Builder.implementations direct base).length + 1 := by
    have hnodup : (Digraph.successors (direct.getD · []) all base).Nodup :=
      Digraph.nodup_sweep List.nodup_nil (by simp)
    have hperm := (List.perm_ext_iff_of_nodup hincreasing.nodup hnodup).2 hmet
    rw [hperm.length_eq]
    simpa [Digraph.successors] using hcount
  have hfound : ∀ k, k ∈ ((step direct)^[n] (start base)).found ↔
      k ∈ Builder.implementations direct base := by
    intro k
    have hunseen := hend.mem_unseen_iff k
    have hseen : k ∈ Builder.implementations direct base ↔
        Digraph.Swept (direct.getD · []) all [base] k := by
      rw [hmet, Digraph.successors, Digraph.mem_sweep_snd]
      simp
    -- the last step of a chain leads to a key that stands in a list
    have hinside : k ∈ Builder.implementations direct base → k ∈ all := by
      rw [mem_implementations_iff_transGen]
      intro hchain
      cases hchain with
      | single hlast => exact hall _ _ hlast
      | tail _ hlast => exact hall _ _ hlast
    rw [Digraph.mem_sweep_fst, ← hseen] at hunseen
    have hmem := hend.mem_all k
    tauto
  subst hn
  refine ⟨hend.stack_eq, ?_, fun m hm => hbefore m (by omega)⟩
  apply Increasing.ext TreeSet.ordered_toList hincreasing
  intro k
  rw [TreeSet.mem_toList]
  exact hfound k

/-- The loop has ended once there were more rounds than there are implementations. -/
theorem stack_iterate_eq_nil_iff {base : Key} {n : Nat} :
    ((step direct)^[n] (start base)).stack = [] ↔
      (Builder.implementations direct base).length < n := by
  obtain ⟨hend, -, hbefore⟩ := run_start direct base
  by_cases hn : n ≤ (Builder.implementations direct base).length
  · exact iff_of_false (hbefore n hn) (by omega)
  -- once the stack is empty it stays so
  · obtain ⟨m, rfl⟩ : ∃ m, n = m + ((Builder.implementations direct base).length + 1) :=
      ⟨n - ((Builder.implementations direct base).length + 1), by omega⟩
    rw [Function.iterate_add_apply, iterate_of_stack_eq_nil hend]
    exact iff_of_true hend (by omega)

/-- When the loop has ended, it has found the implementations. -/
theorem toList_found_iterate {base : Key} {n : Nat}
    (h : ((step direct)^[n] (start base)).stack = []) :
    ((step direct)^[n] (start base)).found.toList = Builder.implementations direct base := by
  obtain ⟨hend, hfound, -⟩ := run_start direct base
  have hn := stack_iterate_eq_nil_iff.1 h
  obtain ⟨m, rfl⟩ : ∃ m, n = m + ((Builder.implementations direct base).length + 1) :=
    ⟨n - ((Builder.implementations direct base).length + 1), by omega⟩
  rw [Function.iterate_add_apply, iterate_of_stack_eq_nil hend, hfound]

end Worklist

/-- `implementations` depends only on which keys stand in which list. -/
theorem implementations_congr {direct direct' : TreeMap Key (List Key)}
    (h : ∀ a b, b ∈ direct'.getD a [] ↔ b ∈ direct.getD a []) (base : Key) :
    Builder.implementations direct' base = Builder.implementations direct base := by
  have harrow : Digraph.Arrow (direct'.getD · []) = Digraph.Arrow (direct.getD · []) := by
    funext a b
    exact propext (h a b)
  apply Increasing.ext (CallGraph.increasing_distinct _) (CallGraph.increasing_distinct _)
  intro k
  exact mem_implementations_iff_transGen.trans (harrow ▸ mem_implementations_iff_transGen.symm)

/-- The loop over the worklist ends, whatever cycles and repetitions the lists have: after exactly
    one round more than there are implementations.  What it has found then are the keys at the end
    of a chain of one or more entries from `base`, in order; `base` is one of them iff it lies on a
    cycle.  The order and the multiplicity of the entries make no difference. -/
theorem implementations_closure (direct : TreeMap Key (List Key)) (base : Key) :
    (∀ n, ((Worklist.step direct)^[n] (.start base)).stack = [] ↔
      (Builder.implementations direct base).length < n) ∧
    (∀ n, ((Worklist.step direct)^[n] (.start base)).stack = [] →
      ((Worklist.step direct)^[n] (.start base)).found.toList =
        Builder.implementations direct base) ∧
    (∀ i, i ∈ Builder.implementations direct base ↔
      TransGen (fun a b => b ∈ direct.getD a []) base i) ∧
    Increasing (Builder.implementations direct base) ∧
    ∀ direct' : TreeMap Key (List Key),
      (∀ a b, b ∈ direct'.getD a [] ↔ b ∈ direct.getD a []) →
      Builder.implementations direct' base = Builder.implementations direct base :=
  ⟨fun _ => Worklist.stack_iterate_eq_nil_iff, fun _ => Worklist.toList_found_iterate,
    fun _ => mem_implementations_iff_transGen, CallGraph.increasing_distinct _,
    fun _ h => implementations_congr h base⟩

/-- Pairs of an overridden method and one that overrides it, with a cycle, a method that overrides
    itself and a repetition. -/
def windingPairs : List (Key × Key) :=
  [(⟨"Base", "step", []⟩, ⟨"Mid", "step", []⟩), (⟨"Mid", "step", []⟩, ⟨"Base", "step", []⟩),
    (⟨"Mid", "step", []⟩, ⟨"Leaf", "step", []⟩), (⟨"Leaf", "step", []⟩, ⟨"Leaf", "step", []⟩),
    (⟨"Base", "step", []⟩, ⟨"Mid", "step", []⟩)]

/-- On the cycle of `windingPairs` all three methods are found, in four rounds, whichever way the
    pairs are given. -/
theorem implementations_closure_winding :
    ((Worklist.step (Digraph.adjacency windingPairs))^[3]
        (.start ⟨"Base", "step", []⟩)).stack ≠ [] ∧
      ((Worklist.step (Digraph.adjacency windingPairs))^[4]
        (.start ⟨"Base", "step", []⟩)).found.toList =
        [⟨"Base", "step", []⟩, ⟨"Leaf", "step", []⟩, ⟨"Mid", "step", []⟩] ∧
      Builder.implementations (Digraph.adjacency (windingPairs ++ windingPairs.reverse))
        ⟨"Base", "step", []⟩ =
        [⟨"Base", "step", []⟩, ⟨"Leaf", "step", []⟩, ⟨"Mid", "step", []⟩] := by
  obtain ⟨hends, hfound, -, -, hcongr⟩ :=
    implementations_closure (Digraph.adjacency windingPairs) ⟨"Base", "step", []⟩
  have hall : Builder.implementations (Digraph.adjacency windingPairs) ⟨"Base", "step", []⟩ =
      [⟨"Base", "step", []⟩, ⟨"Leaf", "step", []⟩, ⟨"Mid", "step", []⟩] := by
    decide +kernel
  refine ⟨fun hend => ?_, ?_, ?_⟩
  · have hthree := (hends 3).1 hend
    rw [hall] at hthree
    exact absurd hthree (by decide)
  · rw [hfound 4 ((hends 4).2 (by rw [hall]; decide)), hall]
  · rw [hcongr _ fun a b => ?_, hall]
    -- the pairs, and once more in reverse
    rw [Digraph.mem_adjacency, Digraph.mem_adjacency, List.mem_append, List.mem_reverse, or_self]

end CallCycle.Build

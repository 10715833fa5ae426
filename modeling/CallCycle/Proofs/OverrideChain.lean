import CallCycle.Proofs.Build

/-!
# Chains of overrides past a method that is left out

A virtual call may run any method at the end of a chain of overrides from its target.  The builder
takes no override pair from the record of a method that is left out, so such a method cuts the
chains through it: a method behind the cut is reached only if it is called directly, or over a chain
that is whole.

## Key results

- `Config.overridesKept_chain_iff`: whole chains are those that the dispatch pass follows
- `Config.exists_leavesOut_of_chain`: a chain that is not whole passes a method left out
- `dispatch_iff_whole_chain`: when a virtual call has an edge to the end of a chain
- `dispatch_lost`: a chain that is cut, and the edge that is missing
-/

namespace CallCycle.Build

open Relation

namespace Config

/-- Some record declares `d` as overriding `base`, whether they are left out or not. -/
def Overrides (config : Config) (records : List Record) (base d : Key) : Prop :=
  ∃ r ∈ records, config.declared r = d ∧ ∃ s ∈ r.overrides, Key.ofSymbol config.rules s = base

/-- Some record declares `d` as overriding `base`, and neither of them is left out. -/
def OverridesKept (config : Config) (records : List Record) (base d : Key) : Prop :=
  config.leavesOut base = false ∧ config.leavesOut d = false ∧ config.Overrides records base d

variable {config : Config} {records : List Record} {t i : Key}

/-- `Overridden` is `OverridesKept` between different methods. -/
theorem overridden_iff_overridesKept {base d : Key} :
    config.Overridden records base d ↔ base ≠ d ∧ config.OverridesKept records base d := by
  constructor
  · rintro ⟨hbase, hd, hne, hrecord⟩
    exact ⟨hne, hbase, hd, hrecord⟩
  · rintro ⟨hne, hbase, hd, hrecord⟩
    exact ⟨hbase, hd, hne, hrecord⟩

/-- A chain of `OverridesKept` is one of `Overridden`: a method that overrides itself adds nothing
    to a chain but the method where it starts. -/
theorem overridesKept_chain_iff (hne : t ≠ i) :
    TransGen (config.OverridesKept records) t i ↔ TransGen (config.Overridden records) t i := by
  constructor
  · intro hchain
    -- a chain from `t` that stays at `t` is allowed on the way
    suffices h : t = i ∨ TransGen (config.Overridden records) t i from h.resolve_left hne
    clear hne
    induction hchain with
    | @single d hover =>
      by_cases hself : t = d
      · exact .inl hself
      · exact .inr (.single (overridden_iff_overridesKept.2 ⟨hself, hover⟩))
    | @tail d e _ hover ih =>
      -- a step from a method to itself is left away
      by_cases hself : d = e
      · exact hself ▸ ih
      · have hlast := overridden_iff_overridesKept.2 ⟨hself, hover⟩
        rcases ih with rfl | hchain
        · exact .inr (.single hlast)
        · exact .inr (hchain.tail hlast)
  · exact TransGen.mono (fun _ _ hover => (overridden_iff_overridesKept.1 hover).2) _ _

/-- A chain between methods that are kept is whole, or a method on it is left out. -/
theorem exists_leavesOut_of_chain (ht : config.leavesOut t = false)
    (hi : config.leavesOut i = false) (hchain : TransGen (config.Overrides records) t i) :
    TransGen (config.OverridesKept records) t i ∨
      ∃ d, config.leavesOut d = true ∧ TransGen (config.Overrides records) t d ∧
        TransGen (config.Overrides records) d i := by
  induction hchain with
  | single hover => exact .inl (.single ⟨ht, hi, hover⟩)
  | @tail d e hchain hover ih =>
    -- the method before the last step is where the chain may be cut
    cases hd : config.leavesOut d with
    | true => exact .inr ⟨d, hd, hchain, .single hover⟩
    | false =>
      rcases ih hd with hwhole | ⟨x, hx, hfront, hback⟩
      · exact .inl (hwhole.tail ⟨hd, hi, hover⟩)
      · exact .inr ⟨x, hx, hfront, hback.tail hover⟩

/-- `Leads` where virtual calls fan out: to what a method calls, and from its virtual calls over
    whole chains of overrides. -/
theorem leads_iff_whole_chain (hpolicy : config.policy = .fanOut) {c : Key} :
    config.Leads records c i ↔ config.Calls records c i ∨
      ∃ u, config.CallsVirtually records c u ∧ TransGen (config.OverridesKept records) u i := by
  simp only [Leads, Dispatches, hpolicy, true_and]
  constructor
  · rintro (hcalls | ⟨u, hvirtual, hchain⟩)
    · exact .inl hcalls
    · refine .inr ⟨u, hvirtual, ?_⟩
      exact TransGen.mono (fun _ _ hover => (overridden_iff_overridesKept.1 hover).2) _ _ hchain
  · rintro (hcalls | ⟨u, hvirtual, hchain⟩)
    · exact .inl hcalls
    · -- a chain back to the target of the call ends where the call leads anyway
      by_cases hself : u = i
      · exact .inl (hself ▸ hvirtual.calls)
      · exact .inr ⟨u, hvirtual, (overridesKept_chain_iff hself).1 hchain⟩

end Config

/-- When a dispatch shows.  Let `c` call `t` virtually, and let a chain of overrides lead from `t`
    to `i`, over whatever methods, where `c`, `t` and `i` are not left out.  There is an edge from
    `c` to `i` exactly if `c` also calls `i`, or has a virtual call from whose target a chain leads
    to `i` on which nothing is left out.  So where the edge is missing, a method on the chain from
    `t` is left out. -/
theorem dispatch_iff_whole_chain {config : Config} {records : List Record} {excluded : List Key}
    (hexcluded : config.excluded = .ok excluded) (hvalid : ∀ r ∈ records, r.check = .ok ())
    (hpolicy : config.policy = .fanOut) :
    ∃ g report, build config records = .ok (g, report) ∧
      ∀ c t i, config.CallsVirtually records c t → config.leavesOut i = false →
        TransGen (config.Overrides records) t i →
          (g.hasEdge c i = true ↔ config.Calls records c i ∨
            ∃ u, config.CallsVirtually records c u ∧
              TransGen (config.OverridesKept records) u i) ∧
          (g.hasEdge c i = false → ∃ d, config.leavesOut d = true ∧
            TransGen (config.Overrides records) t d ∧ TransGen (config.Overrides records) d i) := by
  obtain ⟨g, report, hbuild⟩ := exists_build hexcluded hvalid
  refine ⟨g, report, hbuild, fun c t i hvirtual hi hchain => ?_⟩
  have hedge : g.hasEdge c i = true ↔ config.Calls records c i ∨
      ∃ u, config.CallsVirtually records c u ∧ TransGen (config.OverridesKept records) u i := by
    rw [CallGraph.hasEdge_iff, ← Config.leads_iff_whole_chain hpolicy, ← adj_of_build hbuild]
    rfl
  refine ⟨hedge, fun hmissing => ?_⟩
  have ht : config.leavesOut t = false := by
    obtain ⟨call, ⟨-, hout, -⟩, rfl, -⟩ := hvirtual
    exact hout
  -- a whole chain would give the edge
  rcases Config.exists_leavesOut_of_chain ht hi hchain with hwhole | hcut
  · rw [hedge.2 (.inr ⟨t, hvirtual, hwhole⟩)] at hmissing
    cases hmissing
  · exact hcut

/-! ## A chain that is cut -/

/-- A client runs steps.  A step overrides another, and a third step overrides `bases` and runs the
    client again. -/
def stepRecords (bases : List Symbol) : List Record :=
  [{ declaration := ⟨"Client", "run", []⟩
     calls := [.resolved { target := ⟨"Base", "step", []⟩ }] },
   { declaration := ⟨"Mid", "step", []⟩
     overrides := [⟨"Base", "step", []⟩] },
   { declaration := ⟨"Leaf", "step", []⟩
     overrides := bases
     calls := [.resolved { target := ⟨"Client", "run", []⟩ }] }]

/-- The step in the middle is left out. -/
def stepConfig : Config := { exclude := ["Mid.step()"] }

/-- The method that these settings leave out. -/
theorem excluded_stepConfig : stepConfig.excluded = .ok [⟨"Mid", "step", []⟩] := by decide +kernel

/-- What the client calls, whatever the last step overrides. -/
theorem callsVirtually_steps {bases : List Symbol} :
    stepConfig.CallsVirtually (stepRecords bases) ⟨"Client", "run", []⟩ ⟨"Base", "step", []⟩ := by
  refine ⟨{ target := ⟨"Base", "step", []⟩ }, ⟨by decide +kernel, by decide +kernel, ?_⟩,
    by decide +kernel, rfl⟩
  exact ⟨_, .head _, by decide +kernel, .head _⟩

/-- The last step overrides the first one through the one in the middle. -/
theorem overrides_steps {bases : List Symbol} (h : ⟨"Mid", "step", []⟩ ∈ bases) :
    TransGen (stepConfig.Overrides (stepRecords bases)) ⟨"Base", "step", []⟩
      ⟨"Leaf", "step", []⟩ := by
  have hleaf : Key.ofSymbol stepConfig.rules ⟨"Leaf", "step", []⟩ = ⟨"Leaf", "step", []⟩ := by
    decide +kernel
  have hfirst : stepConfig.Overrides (stepRecords bases) ⟨"Base", "step", []⟩
      ⟨"Mid", "step", []⟩ :=
    ⟨_, .tail _ (.head _), by decide +kernel, _, .head _, by decide +kernel⟩
  have hlast : stepConfig.Overrides (stepRecords bases) ⟨"Mid", "step", []⟩
      ⟨"Leaf", "step", []⟩ :=
    ⟨_, .tail _ (.tail _ (.head _)), hleaf, _, h, by decide +kernel⟩
  -- two steps, one for each record
  exact .tail (.single hfirst) hlast

/-- The edge shows for `stepRecords` where the last step also overrides the first one directly. -/
theorem dispatch_iff_whole_chain_steps :
    ∃ g report, build stepConfig (stepRecords [⟨"Mid", "step", []⟩, ⟨"Base", "step", []⟩]) =
        .ok (g, report) ∧
      g.hasEdge ⟨"Client", "run", []⟩ ⟨"Leaf", "step", []⟩ = true := by
  have hvalid : ∀ r ∈ stepRecords [⟨"Mid", "step", []⟩, ⟨"Base", "step", []⟩],
      r.check = .ok () := by decide
  obtain ⟨g, report, hbuild, hedge⟩ := dispatch_iff_whole_chain excluded_stepConfig hvalid rfl
  refine ⟨g, report, hbuild, ?_⟩
  have hdirect : stepConfig.Overridden (stepRecords [⟨"Mid", "step", []⟩, ⟨"Base", "step", []⟩])
      ⟨"Base", "step", []⟩ ⟨"Leaf", "step", []⟩ :=
    Config.mem_overridePairs.1 ⟨by decide +kernel, by decide⟩
  have hwhole := (Config.overridden_iff_overridesKept.1 hdirect).2
  have hiff := (hedge _ _ _ callsVirtually_steps (by decide +kernel) (overrides_steps (.head _))).1
  exact hiff.2 (.inr ⟨_, callsVirtually_steps, .single hwhole⟩)

/-- A dispatch in `stepRecords` between methods that are not left out does not show: the client may
    run the last step, but the chain of overrides to it is cut. -/
theorem dispatch_lost :
    stepConfig.policy = .fanOut ∧ stepConfig.excluded = .ok [⟨"Mid", "step", []⟩] ∧
    (∀ r ∈ stepRecords [⟨"Mid", "step", []⟩], r.check = .ok ()) ∧
    stepConfig.CallsVirtually (stepRecords [⟨"Mid", "step", []⟩]) ⟨"Client", "run", []⟩
      ⟨"Base", "step", []⟩ ∧
    stepConfig.leavesOut ⟨"Leaf", "step", []⟩ = false ∧
    TransGen (stepConfig.Overrides (stepRecords [⟨"Mid", "step", []⟩])) ⟨"Base", "step", []⟩
      ⟨"Leaf", "step", []⟩ ∧
    ∃ g report, build stepConfig (stepRecords [⟨"Mid", "step", []⟩]) = .ok (g, report) ∧
      g.hasEdge ⟨"Client", "run", []⟩ ⟨"Leaf", "step", []⟩ = false := by
  have hvalid : ∀ r ∈ stepRecords [⟨"Mid", "step", []⟩], r.check = .ok () := by decide
  obtain ⟨g, report, hbuild⟩ := exists_build excluded_stepConfig hvalid
  refine ⟨rfl, excluded_stepConfig, hvalid, callsVirtually_steps, by decide +kernel,
    overrides_steps (.head _), g, report, hbuild, ?_⟩
  have hcalls : ¬ stepConfig.Calls (stepRecords [⟨"Mid", "step", []⟩]) ⟨"Client", "run", []⟩
      ⟨"Leaf", "step", []⟩ := by
    rw [← Config.mk_mem_callEdges]
    decide +kernel
  -- nothing is left of the chain: one pair was declared by the method left out, one names it
  have hpairs : stepConfig.overridePairs (stepRecords [⟨"Mid", "step", []⟩]) = [] := by
    decide +kernel
  have hnone : ∀ a b, ¬ stepConfig.Overridden (stepRecords [⟨"Mid", "step", []⟩]) a b := by
    intro a b hover
    have hmem := (Config.mem_overridePairs.2 hover).1
    rw [hpairs] at hmem
    cases hmem
  rw [← Bool.not_eq_true, CallGraph.hasEdge_iff]
  intro hadj
  have hleads : stepConfig.Leads (stepRecords [⟨"Mid", "step", []⟩]) ⟨"Client", "run", []⟩
      ⟨"Leaf", "step", []⟩ := adj_of_build hbuild ▸ hadj
  -- neither a call nor any chain is there
  obtain hcall | ⟨-, u, -, hchain⟩ := hleads
  · exact hcalls hcall
  · obtain ⟨_, hover, -⟩ := TransGen.head'_iff.1 hchain
    exact hnone _ _ hover

end CallCycle.Build

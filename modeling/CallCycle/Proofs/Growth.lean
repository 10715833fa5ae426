import CallCycle.Proofs.Build
import CallCycle.Proofs.Cycles

/-!
# More records, fewer exclusions, wider dispatch

What records say falls into single facts: a method is declared, it overrides another one, it has a
call site.  The relations between methods are made of such facts, so they grow with the set of
facts, and also with settings that leave out less.  The built graph grows with them.

## Key results

- `mem_facts_declares`, `mem_facts_overrides`, `mem_facts_calls`: the facts of records
- `Config.Calls.mono`, `Config.Dispatches.mono`, `Config.Leads.mono`: relations grow
- `Config.occurrences_mono`: methods that occur do so with more facts
- `build_mono`: the built graph and its recursive methods grow
-/

namespace CallCycle.Build

open Std Relation

/-! ## Facts -/

/-- A single thing that a record says about the method it declares. -/
inductive Fact where
  | declares (d : Symbol)
  | overrides (d base : Symbol)
  | calls (d : Symbol) (site : CallSite)
  deriving DecidableEq

/-- The facts of one record. -/
def recordFacts (r : Record) : List Fact :=
  .declares r.declaration ::
    (r.overrides.map (.overrides r.declaration) ++ r.calls.map (.calls r.declaration))

/-- The facts of some records. -/
def facts (records : List Record) : List Fact := records.flatMap recordFacts

section Facts

variable {records : List Record} {d : Symbol}

/-- `facts` has the declarations of the records. -/
theorem mem_facts_declares :
    .declares d ∈ facts records ↔ ∃ r ∈ records, r.declaration = d := by
  simp [facts, recordFacts, eq_comm]

/-- `facts` has the overridden methods of the records. -/
theorem mem_facts_overrides {base : Symbol} :
    .overrides d base ∈ facts records ↔
      ∃ r ∈ records, r.declaration = d ∧ base ∈ r.overrides := by
  simp [facts, recordFacts, and_comm]

/-- `facts` has the call sites of the records. -/
theorem mem_facts_calls {site : CallSite} :
    .calls d site ∈ facts records ↔ ∃ r ∈ records, r.declaration = d ∧ site ∈ r.calls := by
  simp [facts, recordFacts, and_comm]

/-- Records that occur among others have their `facts` among those of these. -/
theorem facts_subset {records records' : List Record} (h : ∀ r ∈ records, r ∈ records') :
    facts records ⊆ facts records' := by
  intro f hf
  obtain ⟨r, hr, hfr⟩ := List.mem_flatMap.1 hf
  exact List.mem_flatMap.2 ⟨r, h r hr, hfr⟩

end Facts

namespace Config

/-! ## Settings that keep more -/

/-- Settings with the same canonical forms that leave out no more methods, and fan out if the
    others do. -/
structure Widens (config config' : Config) : Prop where
  rules : config'.rules = config.rules
  keeps : ∀ k, config.leavesOut k = false → config'.leavesOut k = false
  fanOut : config.policy = .fanOut → config'.policy = .fanOut

/-- Settings `Widens` themselves. -/
theorem Widens.refl (config : Config) : config.Widens config :=
  ⟨rfl, fun _ => id, id⟩

variable {config config' : Config} {records records' : List Record}

/-- `Widens`, from the lists of keys that the settings leave out. -/
theorem Widens.of_excluded {excluded excluded' : List Key} (hrules : config'.rules = config.rules)
    (hexcluded : config.excluded = .ok excluded) (hexcluded' : config'.excluded = .ok excluded')
    (hkeys : ∀ k ∈ excluded', k ∈ excluded)
    (hpolicy : config.policy = config'.policy ∨
      config.policy = .staticTarget ∧ config'.policy = .fanOut) : config.Widens config' := by
  refine ⟨hrules, fun k hk => ?_, fun hfan => ?_⟩
  · rw [← Bool.not_eq_true, ← mem_excluded_iff hexcluded] at hk
    rw [← Bool.not_eq_true, ← mem_excluded_iff hexcluded']
    exact fun hk' => hk (hkeys k hk')
  -- fan-out is kept, or switched on
  · obtain heq | ⟨hstatic, -⟩ := hpolicy
    · rw [← heq, hfan]
    · rw [hstatic] at hfan
      exact nomatch hfan

/-- `called` depends on the canonical forms only. -/
theorem Widens.called_eq (hw : config.Widens config') (call : ResolvedCall) :
    config'.called call = config.called call := by
  rw [called, called, hw.rules]

/-- `declared` depends on the canonical forms and on the symbol that is declared. -/
theorem Widens.declared_eq (hw : config.Widens config') {r r' : Record}
    (h : r'.declaration = r.declaration) : config'.declared r' = config.declared r := by
  rw [declared, declared, hw.rules, h]

/-! ## Growing relations -/

section Mono

variable (hw : config.Widens config') (hfacts : facts records ⊆ facts records')

include hw hfacts

/-- A call that is made is made with more facts and under wider settings. -/
theorem Makes.mono {c : Key} {call : ResolvedCall} (h : config.Makes records c call) :
    config'.Makes records' c call := by
  obtain ⟨hc, ht, r, hr, rfl, hsite⟩ := h
  -- the same call site stands in a record of the others
  obtain ⟨r', hr', hdecl, hsite'⟩ :=
    mem_facts_calls.1 (hfacts (mem_facts_calls.2 ⟨r, hr, rfl, hsite⟩))
  refine ⟨hw.keeps _ hc, ?_, r', hr', hw.declared_eq hdecl, hsite'⟩
  rw [hw.called_eq]
  exact hw.keeps _ ht

/-- `Calls` grows with the facts and with the settings. -/
theorem Calls.mono {c t : Key} (h : config.Calls records c t) : config'.Calls records' c t := by
  obtain ⟨call, hmakes, rfl⟩ := h
  exact ⟨call, hmakes.mono hw hfacts, hw.called_eq call⟩

/-- `CallsVirtually` grows with the facts and with the settings. -/
theorem CallsVirtually.mono {c t : Key} (h : config.CallsVirtually records c t) :
    config'.CallsVirtually records' c t := by
  obtain ⟨call, hmakes, rfl, hvirtual⟩ := h
  exact ⟨call, hmakes.mono hw hfacts, hw.called_eq call, hvirtual⟩

/-- `Overridden` grows with the facts and with the settings. -/
theorem Overridden.mono {base d : Key} (h : config.Overridden records base d) :
    config'.Overridden records' base d := by
  obtain ⟨hbase, hd, hne, r, hr, rfl, s, hs, rfl⟩ := h
  -- the same overridden method stands in a record of the others
  obtain ⟨r', hr', hdecl, hs'⟩ :=
    mem_facts_overrides.1 (hfacts (mem_facts_overrides.2 ⟨r, hr, rfl, hs⟩))
  refine ⟨hw.keeps _ hbase, hw.keeps _ hd, hne, r', hr', hw.declared_eq hdecl, s, hs', ?_⟩
  rw [hw.rules]

/-- `Dispatches` grows with the facts and with the settings: so do the call and the chain. -/
theorem Dispatches.mono {c i : Key} (h : config.Dispatches records c i) :
    config'.Dispatches records' c i := by
  obtain ⟨t, hcall, hchain⟩ := h
  exact ⟨t, hcall.mono hw hfacts, TransGen.mono (fun _ _ hxy => hxy.mono hw hfacts) _ _ hchain⟩

/-- `Leads` grows with the facts and with the settings. -/
theorem Leads.mono {c t : Key} (h : config.Leads records c t) : config'.Leads records' c t := by
  obtain hcalls | ⟨hpolicy, hdispatches⟩ := h
  · exact .inl (hcalls.mono hw hfacts)
  · exact .inr ⟨hw.fanOut hpolicy, hdispatches.mono hw hfacts⟩

/-- `occurrences` grows with the facts and with the settings. -/
theorem occurrences_mono {k : Key} (h : k ∈ config.occurrences records) :
    k ∈ config'.occurrences records' := by
  rw [mem_occurrences] at h ⊢
  -- declared, or called
  obtain ⟨hkept, r, hr, rfl⟩ | ⟨c, hcalls⟩ := h
  · obtain ⟨r', hr', hdecl⟩ := mem_facts_declares.1 (hfacts (mem_facts_declares.2 ⟨r, hr, rfl⟩))
    exact .inl ⟨hw.keeps _ hkept, r', hr', hw.declared_eq hdecl⟩
  · exact .inr ⟨c, hcalls.mono hw hfacts⟩

end Mono

end Config

/-! ## Growing graphs -/

/-- `build` is monotone.  Add records, remove exclusions, switch fan-out on: the built graph loses
    no vertex, no edge and no recursive method.  The dispatch policy alone changes nothing about the
    list of vertices. -/
theorem build_mono {config config' : Config} {records records' : List Record}
    {excluded excluded' : List Key} (hrules : config'.rules = config.rules)
    (hexcluded : config.excluded = .ok excluded) (hexcluded' : config'.excluded = .ok excluded')
    (hkeys : ∀ k ∈ excluded', k ∈ excluded)
    (hpolicy : config.policy = config'.policy ∨
      config.policy = .staticTarget ∧ config'.policy = .fanOut)
    (hrecords : ∀ r ∈ records, r ∈ records') (hvalid : ∀ r ∈ records', r.check = .ok ()) :
    ∃ g report g' report', build config records = .ok (g, report) ∧
      build config' records' = .ok (g', report') ∧
      (∀ k, k ∈ g.vertexSet → k ∈ g'.vertexSet) ∧
      (∀ e, e ∈ g.edgeSet → e ∈ g'.edgeSet) ∧
      (∀ k, k ∈ g.cycles.members → k ∈ g'.cycles.members) ∧
      ∀ policy, ∃ g₁ report₁, build { config with policy } records = .ok (g₁, report₁) ∧
        g₁.vertexList = g.vertexList := by
  have hvalid₁ : ∀ r ∈ records, r.check = .ok () := fun r hr => hvalid r (hrecords r hr)
  obtain ⟨g, report, hbuild⟩ := exists_build hexcluded hvalid₁
  obtain ⟨g', report', hbuild'⟩ := exists_build hexcluded' hvalid
  have hw := Config.Widens.of_excluded hrules hexcluded hexcluded' hkeys hpolicy
  have hfacts := facts_subset hrecords
  -- the graphs lead where the records lead, and these lead further
  have hadj : ∀ a b, g.Adj a b → g'.Adj a b := by
    intro a b hab
    rw [adj_of_build hbuild] at hab
    rw [adj_of_build hbuild']
    exact hab.mono hw hfacts
  refine ⟨g, report, g', report', hbuild, hbuild', fun k hk => ?_, fun e he => ?_,
    fun k hk => CallGraph.mem_members_mono hadj hk, fun policy => ?_⟩
  · rw [CallGraph.vertexSet, Digraph.mem_ofList_iff, mem_vertexList_of_build hbuild] at hk
    rw [CallGraph.vertexSet, Digraph.mem_ofList_iff, mem_vertexList_of_build hbuild']
    exact Config.occurrences_mono hw hfacts hk
  · rw [CallGraph.edgeSet, List.mem_mergeSort] at he ⊢
    exact hadj _ _ he
  · have hexcluded₁ : { config with policy }.excluded = .ok excluded := hexcluded
    obtain ⟨g₁, report₁, hbuild₁⟩ := exists_build hexcluded₁ hvalid₁
    refine ⟨g₁, report₁, hbuild₁, ?_⟩
    -- which methods occur does not depend on the policy
    rw [vertexList_of_build hbuild₁, vertexList_of_build hbuild]
    rfl

/-- Virtual calls do not fan out, and the log is left out. -/
def quietConfig : Config := { shapeConfig with policy := .staticTarget }

/-- What a screen of `shapeRecords` calls under these settings, it calls without them, and when
    circles are known. -/
theorem build_mono_shapes :
    ∃ g report g' report', build quietConfig (shapeRecords.take 1) = .ok (g, report) ∧
      build {} shapeRecords = .ok (g', report') ∧
      (⟨"Screen", "show", ["Shape"]⟩, ⟨"Shape", "draw", []⟩) ∈ g.edgeSet ∧
      (⟨"Screen", "show", ["Shape"]⟩, ⟨"Shape", "draw", []⟩) ∈ g'.edgeSet := by
  have hrules : ({} : Config).rules = quietConfig.rules := rfl
  have hexcluded : quietConfig.excluded = .ok [⟨"Log", "write", ["String"]⟩] := by decide +kernel
  have hnone : ({} : Config).excluded = .ok [] := rfl
  have hrecords : ∀ r ∈ shapeRecords.take 1, r ∈ shapeRecords := fun r hr => List.mem_of_mem_take hr
  have hvalid : ∀ r ∈ shapeRecords, r.check = .ok () := by decide
  obtain ⟨g, report, g', report', hbuild, hbuild', -, hedges, -, -⟩ :=
    build_mono hrules hexcluded hnone (by simp) (.inr ⟨rfl, rfl⟩) hrecords hvalid
  -- the first of the two graphs has the edge
  have hedge : (⟨"Screen", "show", ["Shape"]⟩, ⟨"Shape", "draw", []⟩) ∈ g.edgeSet := by
    have hadj : g.Adj ⟨"Screen", "show", ["Shape"]⟩ ⟨"Shape", "draw", []⟩ := by
      rw [adj_of_build hbuild]
      exact .inl (Config.mk_mem_callEdges.1 (by decide +kernel))
    rw [CallGraph.edgeSet, List.mem_mergeSort]
    exact hadj
  exact ⟨g, report, g', report', hbuild, hbuild', hedge, hedges _ hedge⟩

end CallCycle.Build

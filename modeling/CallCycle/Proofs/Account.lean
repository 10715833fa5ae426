import CallCycle.Proofs.Build
import Mathlib.Data.List.Induction

/-!
# The report of a build, read off the records

`Config.account` says what a report has to tell about records before the dispatch pass.  `Counted`
ties the report of a builder to it; each record that is added keeps it.

## Key results

- `Config.account_concat`: the account of one more record
- `Follows.report_foldl_addCall`: what the call sites of a record add to a report
- `Counted.add`, `Counted.foldl_add`: a record, and all records
- `report_of_build`: the report of a build
-/

namespace CallCycle.Build

open Std

/-! ## The account of records -/

namespace Config

/-- Whether a call site is known to reach a method that is left out. -/
def leavesOutCall (config : Config) : CallSite → Bool
  | .resolved call => config.leavesOut (config.called call)
  | .unresolved _ => false

/-- The methods declared and not left out, with repetition. -/
def declarations (config : Config) (records : List Record) : List Key :=
  (config.kept records).map config.declared

/-- The call sites of the methods that are not left out. -/
def sites (config : Config) (records : List Record) : List CallSite :=
  (config.kept records).flatMap Record.calls

/-- What went into a graph before the dispatch pass. -/
def account (config : Config) (records : List Record) : Report where
  records := records.length
  mergedDeclarations :=
    (config.declarations records).length - (config.declarations records).eraseDups.length
  excludedDeclarations := records.countP fun r => config.leavesOut (config.declared r)
  resolvedCalls := (config.callEdges records).length
  unresolvedCalls := (config.skipped records).length
  excludedCalls := (config.sites records).countP config.leavesOutCall

end Config

/-! ### Different elements -/

/-- A list has no more different elements than elements. -/
theorem length_eraseDups_le {α : Type} [DecidableEq α] (xs : List α) :
    xs.eraseDups.length ≤ xs.length := by
  induction xs using List.reverseRecOn with
  | nil => simp
  | append_singleton xs x ih =>
    rw [eraseDups_snoc]
    split <;> simp only [List.length_append, List.length_singleton] <;> omega

/-- First occurrences are different. -/
theorem nodup_eraseDups {α : Type} [DecidableEq α] (xs : List α) : xs.eraseDups.Nodup := by
  induction xs using List.reverseRecOn with
  | nil => simp
  | append_singleton xs x ih =>
    rw [eraseDups_snoc]
    split
    · exact ih
    · next hx =>
      refine ih.append (List.nodup_singleton x) ?_
      rw [List.disjoint_singleton, List.mem_eraseDups]
      exact hx

/-- How many different elements a list has depends only on what its elements are. -/
theorem length_eraseDups_congr {α : Type} [DecidableEq α] {xs ys : List α}
    (h : ∀ a, a ∈ xs ↔ a ∈ ys) : xs.eraseDups.length = ys.eraseDups.length := by
  have hmem : ∀ a, a ∈ xs.eraseDups ↔ a ∈ ys.eraseDups := by
    intro a
    rw [List.mem_eraseDups, List.mem_eraseDups, h]
  -- two lists of different elements with the same elements are as long
  have hperm := (List.perm_ext_iff_of_nodup (nodup_eraseDups xs) (nodup_eraseDups ys)).2 hmem
  exact hperm.length_eq

/-! ### One more record -/

/-- A report with more calls. -/
def Report.addCalls (report : Report) (resolved unresolved excluded : Nat) : Report :=
  { report with
    resolvedCalls := report.resolvedCalls + resolved
    unresolvedCalls := report.unresolvedCalls + unresolved
    excludedCalls := report.excludedCalls + excluded }

/-- Calls added twice are added together. -/
theorem Report.addCalls_addCalls (report : Report) (r u x r' u' x' : Nat) :
    (report.addCalls r u x).addCalls r' u' x' = report.addCalls (r + r') (u + u') (x + x') := by
  simp only [addCalls, Nat.add_assoc]

namespace Config

variable {config : Config} {records : List Record} {r : Record}

/-- `kept` with one more record of a method that is kept. -/
theorem kept_concat (hkeep : config.leavesOut (config.declared r) = false) :
    config.kept (records ++ [r]) = config.kept records ++ [r] := by
  simp [kept, hkeep]

/-- `declarations` with one more record of a method that is kept. -/
theorem declarations_concat (hkeep : config.leavesOut (config.declared r) = false) :
    config.declarations (records ++ [r]) = config.declarations records ++ [config.declared r] := by
  simp [declarations, kept_concat hkeep]

/-- The `account` of one more record of a method that is kept: its declaration is new or had come
    before, and its calls are added. -/
theorem account_concat (hkeep : config.leavesOut (config.declared r) = false) :
    config.account (records ++ [r]) =
      Report.addCalls
        { config.account records with
          records := (config.account records).records + 1
          mergedDeclarations := (config.account records).mergedDeclarations +
            if config.declared r ∈ config.declarations records then 1 else 0 }
        (r.calls.filterMap config.reached?).length
        (r.calls.filterMap (skipped? (config.declared r))).length
        (r.calls.countP config.leavesOutCall) := by
  simp only [account, Report.addCalls, Report.mk.injEq, and_true]
  -- all counters but that of merged declarations are lengths of lists
  refine ⟨by simp, ?_, by simp [hkeep], by simp [callEdges, kept_concat hkeep],
    by simp [skipped, kept_concat hkeep], by simp [sites, kept_concat hkeep]⟩
  -- a declaration that had come before makes one more record, and no more methods
  have hle := length_eraseDups_le (config.declarations records)
  rw [declarations_concat hkeep, eraseDups_snoc, List.length_append, List.length_singleton]
  split
  · omega
  · rw [List.length_append, List.length_singleton]
    omega

end Config

/-! ## Counting call sites -/

/-- `addCall` changes neither the settings nor the methods declared. -/
theorem addCall_frame (c : Key) (b : Builder) (site : CallSite) :
    (b.addCall c site).rules = b.rules ∧ (b.addCall c site).excluded = b.excluded ∧
      (b.addCall c site).declared = b.declared := by
  cases site with
  | unresolved call => exact ⟨rfl, rfl, rfl⟩
  | resolved call =>
    simp only [Builder.addCall]
    split <;> exact ⟨rfl, rfl, rfl⟩

/-- Any number of `addCall` change neither the settings nor the methods declared. -/
theorem foldl_addCall_frame (c : Key) (b : Builder) (sites : List CallSite) :
    (sites.foldl (Builder.addCall c) b).rules = b.rules ∧
      (sites.foldl (Builder.addCall c) b).excluded = b.excluded ∧
      (sites.foldl (Builder.addCall c) b).declared = b.declared := by
  induction sites generalizing b with
  | nil => exact ⟨rfl, rfl, rfl⟩
  | cons site sites ih =>
    obtain ⟨hrules, hexcluded, hdeclared⟩ := addCall_frame c b site
    obtain ⟨hrules', hexcluded', hdeclared'⟩ := ih (b.addCall c site)
    exact ⟨hrules'.trans hrules, hexcluded'.trans hexcluded, hdeclared'.trans hdeclared⟩

/-- `addOverride` changes override pairs only. -/
theorem foldl_addOverride_frame (c : Key) (b : Builder) (bases : List Symbol) :
    (bases.foldl (Builder.addOverride c) b).rules = b.rules ∧
      (bases.foldl (Builder.addOverride c) b).excluded = b.excluded ∧
      (bases.foldl (Builder.addOverride c) b).declared = b.declared ∧
      (bases.foldl (Builder.addOverride c) b).report = b.report := by
  induction bases generalizing b with
  | nil => exact ⟨rfl, rfl, rfl, rfl⟩
  | cons base bases ih =>
    -- the first overridden method makes a pair or is left out
    simp only [List.foldl_cons, Builder.addOverride]
    split
    · exact ih b
    · exact ih _

/-- A builder has the canonical forms and leaves out the methods that the settings ask for. -/
structure Follows (config : Config) (b : Builder) : Prop where
  rules : b.rules = config.rules
  excluded : ∀ k, k ∈ b.excluded ↔ config.leavesOut k = true

namespace Follows

variable {config : Config} {b b' : Builder}

/-- `Follows` says something about the settings only. -/
theorem congr (h : Follows config b) (hrules : b'.rules = b.rules)
    (hexcluded : b'.excluded = b.excluded) : Follows config b' := by
  refine ⟨hrules.trans h.rules, fun k => ?_⟩
  rw [hexcluded, h.excluded]

/-- The key that a builder gives to a declaration is `declared`. -/
theorem declared_eq (h : Follows config b) (r : Record) :
    Key.ofSymbol b.rules r.declaration = config.declared r := by
  rw [h.rules, Config.declared]

/-- The key that a builder gives to the target of a call is `called`. -/
theorem callee_eq (h : Follows config b) (call : ResolvedCall) :
    b.callee call = config.called call := by
  rw [Builder.callee, h.rules, Config.called]

/-- What `addCall` adds to a report: one call in one of its three counters. -/
theorem report_addCall (h : Follows config b) (c : Key) (site : CallSite) :
    (b.addCall c site).report = b.report.addCalls (config.reached? site).toList.length
      (Config.skipped? c site).toList.length (if config.leavesOutCall site then 1 else 0) := by
  cases site with
  | unresolved call => rfl
  | resolved call =>
    simp only [Builder.addCall, h.callee_eq, h.excluded, Config.reached?, Config.keep?,
      Config.leavesOutCall, Config.skipped?]
    -- a resolved call is counted as resolved or as left out
    by_cases hout : config.leavesOut (config.called call) = true <;> simp [hout, Report.addCalls]

/-- What `addCall` for all call sites of a record adds to a report. -/
theorem report_foldl_addCall (h : Follows config b) (c : Key) (sites : List CallSite) :
    (sites.foldl (Builder.addCall c) b).report =
      b.report.addCalls (sites.filterMap config.reached?).length
        (sites.filterMap (Config.skipped? c)).length (sites.countP config.leavesOutCall) := by
  induction sites generalizing b with
  | nil => rfl
  | cons site sites ih =>
    obtain ⟨hrules, hexcluded, -⟩ := addCall_frame c b site
    rw [List.foldl_cons, ih (h.congr hrules hexcluded), h.report_addCall, Report.addCalls_addCalls]
    simp only [List.filterMap_eq_flatMap_toList, List.flatMap_cons, List.length_append,
      List.countP_cons, Nat.add_comm (List.countP _ _)]

end Follows

/-! ## Counting records -/

/-- `add` counts a record of a method that is kept before its calls. -/
theorem exists_add_eq_foldl {b : Builder} {r : Record} {c : Key}
    (hc : Key.ofSymbol b.rules r.declaration = c) (hkeep : c ∉ b.excluded) :
    ∃ b₁, b.add r = r.calls.foldl (Builder.addCall c) b₁ ∧ b₁.rules = b.rules ∧
      b₁.excluded = b.excluded ∧ b₁.declared = b.declared.insert c ∧
      b₁.report = { b.report with
        records := b.report.records + 1
        mergedDeclarations :=
          b.report.mergedDeclarations + if b.declared.contains c then 1 else 0 } := by
  have hframe := foldl_addOverride_frame c
    (Builder.declare c { b with report.records := b.report.records + 1 }) r.overrides
  refine ⟨r.overrides.foldl (Builder.addOverride c)
    (Builder.declare c { b with report.records := b.report.records + 1 }), ?_, hframe⟩
  simp only [Builder.add, hc, if_neg hkeep]

/-- A builder with the given settings has counted the records. -/
structure Counted (config : Config) (records : List Record) (b : Builder) : Prop
    extends Follows config b where
  declared : ∀ k, k ∈ b.declared ↔ k ∈ config.declarations records
  report : b.report = config.account records

namespace Counted

variable {config : Config} {records : List Record} {b : Builder} {r : Record}

/-- `Counted` at the `start` of a builder. -/
theorem start {excluded : List Key} (h : config.excluded = .ok excluded) :
    Counted config [] (.start config.rules config.policy excluded) where
  rules := rfl
  excluded := fun _ => mem_excluded_iff h
  declared := fun k => by simp [Builder.start, Config.declarations, Config.kept]
  report := rfl

/-- `Counted` after a record of a method that is left out. -/
theorem add_of_leavesOut (h : Counted config records b)
    (hout : config.leavesOut (config.declared r) = true) :
    Counted config (records ++ [r]) (b.add r) := by
  -- the record is counted, and no list becomes longer
  have hkept : config.kept (records ++ [r]) = config.kept records := by
    simp [Config.kept, hout]
  simp only [Builder.add, h.declared_eq, h.excluded, hout, if_true]
  refine ⟨h.toFollows.congr rfl rfl, fun k => ?_, ?_⟩
  · rw [h.declared, Config.declarations, Config.declarations, hkept]
  · simp [h.report, Config.account, Config.declarations, Config.callEdges, Config.skipped,
      Config.sites, hkept, hout]

/-- `Counted` after a record of a method that is kept. -/
theorem add_of_kept (h : Counted config records b)
    (hkeep : config.leavesOut (config.declared r) = false) :
    Counted config (records ++ [r]) (b.add r) := by
  have hnotMem : config.declared r ∉ b.excluded := by simp [h.excluded, hkeep]
  -- a declaration is merged iff its method was declared before
  have hcontains : b.declared.contains (config.declared r) = true ↔
      config.declared r ∈ config.declarations records := by
    rw [TreeSet.contains_iff_mem, h.declared]
  -- the declaration is counted first, and then the calls
  obtain ⟨b₁, hadd, hrules, hexcluded, hdeclared, hreport⟩ :=
    exists_add_eq_foldl (h.declared_eq r) hnotMem
  have hfollows : Follows config b₁ := h.toFollows.congr hrules hexcluded
  obtain ⟨hrules', hexcluded', hdeclared'⟩ := foldl_addCall_frame (config.declared r) b₁ r.calls
  rw [hadd]
  refine ⟨hfollows.congr hrules' hexcluded', fun k => ?_, ?_⟩
  · rw [hdeclared', hdeclared, TreeSet.mem_insert, h.declared, Config.declarations_concat hkeep,
      List.mem_append, List.mem_singleton, Std.compare_eq_iff_eq, or_comm, eq_comm]
  · rw [hfollows.report_foldl_addCall, hreport, h.report, Config.account_concat hkeep]
    simp only [hcontains]

/-- `Counted` after any record. -/
theorem add (h : Counted config records b) (r : Record) :
    Counted config (records ++ [r]) (b.add r) := by
  cases hout : config.leavesOut (config.declared r) with
  | true => exact h.add_of_leavesOut hout
  | false => exact h.add_of_kept hout

/-- `Counted` after all records. -/
theorem foldl_add (h : Counted config records b) (rest : List Record) :
    Counted config (records ++ rest) (rest.foldl Builder.add b) := by
  induction rest generalizing records b with
  | nil => simpa using h
  | cons r rest ih => simpa using ih (h.add r)

end Counted

/-- A builder to which records were added has counted them. -/
theorem counted_of_addRecords {config : Config} {records : List Record} {start b : Builder}
    (hstart : Builder.ofConfig config = .ok start) (hadd : start.addRecords records = (b, .ok ())) :
    Counted config records b := by
  obtain ⟨excluded, hexcluded, rfl⟩ := ofConfig_eq_ok_iff.1 hstart
  obtain ⟨-, rfl⟩ := addRecords_eq_ok_iff.1 hadd
  exact (Counted.start hexcluded).foldl_add records

/-- The report of a build: the account of the records, and the edges that the dispatch pass added to
    those of the calls. -/
theorem report_of_build {config : Config} {records : List Record} {g : CallGraph} {report : Report}
    (h : build config records = .ok (g, report)) :
    report = { config.account records with
      dispatchEdges := g.edgeCount - (config.callEdges records).eraseDups.length } := by
  obtain ⟨start, b, hstart, hadd, hfinish, htold⟩ := told_of_build h
  have hcalls : b.graph.edgeCount = (config.callEdges records).eraseDups.length := by
    rw [← CallGraph.length_edgeList, htold.edges]
  have hg : b.finish.1 = g := congrArg Prod.fst hfinish
  have hreport : b.finish.2 = report := congrArg Prod.snd hfinish
  rw [← hreport, b.finish_snd, hg, (counted_of_addRecords hstart hadd).report, hcalls]
  -- before the dispatch pass no dispatch was counted
  exact congrArg (fun n => { config.account records with dispatchEdges := n }) (Nat.zero_add _)

end CallCycle.Build

import CallCycle.Build.Config
import CallCycle.CallGraph.Basic
import CallCycle.Record.Basic
import Mathlib.Logic.Relation

/-!
# What records say

The graph that records describe under given settings, without a builder: the methods that occur
and the calls between them are read off the records directly.

* `Config.Calls`: a method calls another
* `Config.Dispatches`: a method calls another that a third one overrides, directly or not
* `Config.Leads`: the call relation, with dispatch where the settings ask for it
* `Config.Recurs`: a method in scope is on a cycle of the call relation
* `Config.occurrences`, `Config.skipped`: methods and unresolved calls in the order of the records
-/

namespace CallCycle.Build.Config

open Relation

/-- Whether a method is left out. -/
def leavesOut (config : Config) (k : Key) : Bool :=
  config.exclude.any fun text =>
    match Key.parseCanonical config.rules text with
    | .ok key => key = k
    | .error _ => false

/-- The method that a record declares. -/
def declared (config : Config) (r : Record) : Key :=
  Key.ofSymbol config.rules r.declaration

/-- The method that a resolved call reaches. -/
def called (config : Config) (call : ResolvedCall) : Key :=
  Key.ofParts config.rules call.target.owner call.target.name call.signatureTypes

/-! ## Relations between methods -/

/-- Some record declares `c` with `call` in its body, and neither `c` nor the method called is left
    out. -/
def Makes (config : Config) (records : List Record) (c : Key) (call : ResolvedCall) : Prop :=
  config.leavesOut c = false ∧ config.leavesOut (config.called call) = false ∧
    ∃ r ∈ records, config.declared r = c ∧ .resolved call ∈ r.calls

/-- Some record has a call from `c` to `t`. -/
def Calls (config : Config) (records : List Record) (c t : Key) : Prop :=
  ∃ call, config.Makes records c call ∧ config.called call = t

/-- Some record has a virtual call from `c` to `t`. -/
def CallsVirtually (config : Config) (records : List Record) (c t : Key) : Prop :=
  ∃ call, config.Makes records c call ∧ config.called call = t ∧ call.dispatch = .virtual

/-- Some record declares `d` as overriding `base`, which is another method, and neither of them is
    left out. -/
def Overridden (config : Config) (records : List Record) (base d : Key) : Prop :=
  config.leavesOut base = false ∧ config.leavesOut d = false ∧ base ≠ d ∧
    ∃ r ∈ records, config.declared r = d ∧ ∃ s ∈ r.overrides, Key.ofSymbol config.rules s = base

/-- Some record has a virtual call from `c` to a method that `i` overrides, directly or through
    others. -/
def Dispatches (config : Config) (records : List Record) (c i : Key) : Prop :=
  ∃ t, config.CallsVirtually records c t ∧ TransGen (config.Overridden records) t i

/-- The call relation: calls, and also dispatches if virtual calls fan out. -/
def Leads (config : Config) (records : List Record) (c t : Key) : Prop :=
  config.Calls records c t ∨ config.policy = .fanOut ∧ config.Dispatches records c t

/-- A chain of calls leads from `m` back to `m`, and `m` is the start method, if there is one, or is
    reached from it. -/
def Recurs (config : Config) (records : List Record) (start : Option Key) (m : Key) : Prop :=
  (∀ s ∈ start, ReflTransGen (config.Leads records) s m) ∧ TransGen (config.Leads records) m m

/-! ## Lists in the order of the records -/

/-- The records whose method is not left out. -/
def kept (config : Config) (records : List Record) : List Record :=
  records.filter fun r => !config.leavesOut (config.declared r)

/-- A method, unless it is left out. -/
def keep? (config : Config) (k : Key) : Option Key :=
  if config.leavesOut k then none else some k

/-- The method reached from a call site, if it is known and not left out. -/
def reached? (config : Config) : CallSite → Option Key
  | .resolved call => config.keep? (config.called call)
  | .unresolved _ => none

/-- The method reached from a virtual call site, if it is known and not left out. -/
def reachedVirtually? (config : Config) : CallSite → Option Key
  | .resolved call => if call.dispatch = .virtual then config.keep? (config.called call) else none
  | .unresolved _ => none

/-- The skipped call of a call site in the body of `c`, if its target is not known. -/
def skipped? (c : Key) : CallSite → Option SkippedCall
  | .resolved _ => none
  | .unresolved call => some ⟨c, call.expression, call.reason, call.line⟩

/-- The methods that occur, with repetition: each declaration, and behind it the targets of its
    calls. -/
def occurrences (config : Config) (records : List Record) : List Key :=
  (config.kept records).flatMap fun r => config.declared r :: r.calls.filterMap config.reached?

/-- The calls whose target is not known. -/
def skipped (config : Config) (records : List Record) : List SkippedCall :=
  (config.kept records).flatMap fun r => r.calls.filterMap (skipped? (config.declared r))

/-- The calls whose target is known, as edges, with repetition. -/
def callEdges (config : Config) (records : List Record) : List Edge :=
  (config.kept records).flatMap fun r =>
    (r.calls.filterMap config.reached?).map fun t => ⟨config.declared r, t, .calls⟩

/-- The virtual calls whose target is known, with repetition. -/
def virtualCalls (config : Config) (records : List Record) : List (Key × Key) :=
  (config.kept records).flatMap fun r =>
    (r.calls.filterMap config.reachedVirtually?).map fun t => (config.declared r, t)

/-- The overridden methods with the methods that override them, with repetition. -/
def overridePairs (config : Config) (records : List Record) : List (Key × Key) :=
  (config.kept records).flatMap fun r =>
    (r.overrides.filterMap fun s => config.keep? (Key.ofSymbol config.rules s)).map
      fun base => (base, config.declared r)

/-! ## Lists and relations agree -/

variable {config : Config} {records : List Record}

/-- `kept` has the records whose method is not left out. -/
theorem mem_kept {r : Record} :
    r ∈ config.kept records ↔ r ∈ records ∧ config.leavesOut (config.declared r) = false := by
  simp [kept]

/-- `keep?` gives the method itself, unless it is left out. -/
theorem keep?_eq_some_iff {k k' : Key} :
    config.keep? k = some k' ↔ config.leavesOut k = false ∧ k = k' := by
  simp only [keep?]
  split <;> simp_all

/-- `reached?` gives the target of a resolved call, unless it is left out. -/
theorem reached?_eq_some_iff {site : CallSite} {t : Key} :
    config.reached? site = some t ↔ ∃ call, site = .resolved call ∧
      config.leavesOut (config.called call) = false ∧ config.called call = t := by
  cases site with
  | resolved call => simp [reached?, keep?_eq_some_iff]
  | unresolved call => simp [reached?]

/-- `reachedVirtually?` gives the target of a virtual call, unless it is left out. -/
theorem reachedVirtually?_eq_some_iff {site : CallSite} {t : Key} :
    config.reachedVirtually? site = some t ↔ ∃ call, site = .resolved call ∧
      config.leavesOut (config.called call) = false ∧ config.called call = t ∧
        call.dispatch = .virtual := by
  cases site with
  | resolved call =>
    simp only [reachedVirtually?]
    split <;> simp_all [keep?_eq_some_iff]
  | unresolved call => simp [reachedVirtually?]

/-- The edges in `callEdges` are those of the relation `Calls`. -/
theorem mem_callEdges {e : Edge} :
    e ∈ config.callEdges records ↔ e.kind = .calls ∧ config.Calls records e.source e.target := by
  simp only [callEdges, List.mem_flatMap, mem_kept, List.mem_map, List.mem_filterMap,
    reached?_eq_some_iff, Calls, Makes]
  constructor
  · rintro ⟨r, ⟨hr, hkept⟩, t, ⟨site, hsite, call, rfl, hout, rfl⟩, rfl⟩
    exact ⟨rfl, call, ⟨hkept, hout, r, hr, rfl, hsite⟩, rfl⟩
  -- the record of the call is not left out, so that it is gone through
  · obtain ⟨c, t, kind⟩ := e
    rintro ⟨rfl, call, ⟨hkept, hout, r, hr, rfl, hsite⟩, rfl⟩
    exact ⟨r, ⟨hr, hkept⟩, _, ⟨_, hsite, call, rfl, hout, rfl⟩, rfl⟩

/-- There is an edge in `callEdges` iff its source `Calls` its target. -/
theorem mk_mem_callEdges {c t : Key} :
    ⟨c, t, .calls⟩ ∈ config.callEdges records ↔ config.Calls records c t := by
  rw [mem_callEdges]
  exact and_iff_right rfl

/-- The pairs in `virtualCalls` are those of the relation `CallsVirtually`. -/
theorem mem_virtualCalls {c t : Key} :
    (c, t) ∈ config.virtualCalls records ↔ config.CallsVirtually records c t := by
  simp only [virtualCalls, List.mem_flatMap, mem_kept, List.mem_map, List.mem_filterMap,
    reachedVirtually?_eq_some_iff, CallsVirtually, Makes, Prod.mk.injEq]
  constructor
  · rintro ⟨r, ⟨hr, hkept⟩, _, ⟨site, hsite, call, rfl, hout, rfl, hvirtual⟩, rfl, rfl⟩
    exact ⟨call, ⟨hkept, hout, r, hr, rfl, hsite⟩, rfl, hvirtual⟩
  · rintro ⟨call, ⟨hkept, hout, r, hr, rfl, hsite⟩, rfl, hvirtual⟩
    exact ⟨r, ⟨hr, hkept⟩, _, ⟨_, hsite, call, rfl, hout, rfl, hvirtual⟩, rfl, rfl⟩

/-- The pairs of different methods in `overridePairs` are those of the relation `Overridden`. -/
theorem mem_overridePairs {base d : Key} :
    (base, d) ∈ config.overridePairs records ∧ base ≠ d ↔ config.Overridden records base d := by
  simp only [overridePairs, List.mem_flatMap, mem_kept, List.mem_map, List.mem_filterMap,
    keep?_eq_some_iff, Overridden, Prod.mk.injEq]
  constructor
  · rintro ⟨⟨r, ⟨hr, hkept⟩, _, ⟨s, hs, hout, rfl⟩, rfl, rfl⟩, hne⟩
    exact ⟨hout, hkept, hne, r, hr, rfl, s, hs, rfl⟩
  · rintro ⟨hout, hkept, hne, r, hr, rfl, s, hs, rfl⟩
    exact ⟨⟨r, ⟨hr, hkept⟩, _, ⟨s, hs, hout, rfl⟩, rfl, rfl⟩, hne⟩

/-- `occurrences` has the methods that are declared and those that are called. -/
theorem mem_occurrences {k : Key} :
    k ∈ config.occurrences records ↔
      config.leavesOut k = false ∧ (∃ r ∈ records, config.declared r = k) ∨
        ∃ c, config.Calls records c k := by
  simp only [occurrences, List.mem_flatMap, mem_kept, List.mem_cons, List.mem_filterMap,
    reached?_eq_some_iff, Calls, Makes]
  constructor
  -- a method stands there as a declaration or as a target
  · rintro ⟨r, ⟨hr, hkept⟩, rfl | ⟨site, hsite, call, rfl, hout, rfl⟩⟩
    · exact .inl ⟨hkept, r, hr, rfl⟩
    · exact .inr ⟨_, call, ⟨hkept, hout, r, hr, rfl, hsite⟩, rfl⟩
  · rintro (⟨hkept, r, hr, rfl⟩ | ⟨_, call, ⟨hkept, hout, r, hr, rfl, hsite⟩, rfl⟩)
    · exact ⟨r, ⟨hr, hkept⟩, .inl rfl⟩
    · exact ⟨r, ⟨hr, hkept⟩, .inr ⟨_, hsite, call, rfl, hout, rfl⟩⟩

/-- Both ends of a call are in `occurrences`. -/
theorem Calls.mem_occurrences {c t : Key} (h : config.Calls records c t) :
    c ∈ config.occurrences records ∧ t ∈ config.occurrences records := by
  refine ⟨?_, Config.mem_occurrences.2 (.inr ⟨c, h⟩)⟩
  -- the caller is declared by the record of the call
  obtain ⟨call, ⟨hkept, -, r, hr, rfl, -⟩, -⟩ := h
  exact Config.mem_occurrences.2 (.inl ⟨hkept, r, hr, rfl⟩)

/-- A virtual call is a call. -/
theorem CallsVirtually.calls {c t : Key} (h : config.CallsVirtually records c t) :
    config.Calls records c t := by
  obtain ⟨call, hmakes, hcalled, -⟩ := h
  exact ⟨call, hmakes, hcalled⟩

/-- Both ends of a dispatch are in `occurrences`: it leads from a caller to a declared method. -/
theorem Dispatches.mem_occurrences {c i : Key} (h : config.Dispatches records c i) :
    c ∈ config.occurrences records ∧ i ∈ config.occurrences records := by
  obtain ⟨t, hcall, hchain⟩ := h
  refine ⟨hcall.calls.mem_occurrences.1, Config.mem_occurrences.2 (.inl ?_)⟩
  -- the last step of the chain is an override by `i`
  obtain ⟨_, -, -, hout, -, r, hr, hdecl, -⟩ := TransGen.tail'_iff.1 hchain
  exact ⟨hout, r, hr, hdecl⟩

/-- Only a caller leads anywhere: dispatch starts with a call as well. -/
theorem Leads.exists_calls {c t : Key} (h : config.Leads records c t) :
    ∃ u, config.Calls records c u := by
  obtain hcalls | ⟨-, u, hvirtual, -⟩ := h
  · exact ⟨t, hcalls⟩
  · exact ⟨u, hvirtual.calls⟩

end CallCycle.Build.Config

import CallCycle.Command.Submission
import CallCycle.Proofs.Arrival
import CallCycle.Proofs.KeyText

/-!
# Leaving a method out, and starting from it

A method is named by a text where it is to be left out of a graph, and where an analysis starts from
it; in the records it is named by a symbol.  The text of a symbol names the same method.  To leave
it out is to take its declarations and its calls out of the records: the methods that override it
are no longer reached through it, since it is neither called nor declared.

## Key results

- `Config.Excludes.kept_eq`, `Config.Excludes.calls_iff`: what is left of the records
- `Config.Excludes.overridden_chain_iff`: chains of overrides without the method left out
- `Config.Excludes.graph_eq`: the graph without the method
- `Symbol.display_identifies`: the text of a symbol names the method of the symbol
-/

namespace CallCycle

open Relation

namespace Build

/-! ## Records without a method -/

/-- Whether a call site calls the method `k`. -/
def callsMethod (rules : Rules) (k : Key) : CallSite → Bool
  | .resolved call =>
    Key.ofParts rules call.target.owner call.target.name call.signatureTypes = k
  | .unresolved _ => false

/-- A record without the calls of the method `k`. -/
def withoutCalls (rules : Rules) (k : Key) (r : Record) : Record :=
  { r with calls := r.calls.filter fun site => !callsMethod rules k site }

/-- Records without the declarations and the calls of the method `k`. -/
def without (rules : Rules) (k : Key) (records : List Record) : List Record :=
  (records.filter fun r => Key.ofSymbol rules r.declaration ≠ k).map (withoutCalls rules k)

/-- `without` keeps the records of other methods, less some calls. -/
theorem mem_without {rules : Rules} {k : Key} {records : List Record} {r' : Record} :
    r' ∈ without rules k records ↔
      ∃ r ∈ records, Key.ofSymbol rules r.declaration ≠ k ∧ withoutCalls rules k r = r' := by
  simp [without, and_assoc]

/-- `withoutCalls` keeps a resolved call iff it calls another method. -/
theorem resolved_mem_withoutCalls {rules : Rules} {k : Key} {r : Record} {call : ResolvedCall} :
    .resolved call ∈ (withoutCalls rules k r).calls ↔ .resolved call ∈ r.calls ∧
      Key.ofParts rules call.target.owner call.target.name call.signatureTypes ≠ k := by
  simp [withoutCalls, callsMethod]

/-- `without` makes no record malformed. -/
theorem check_without {rules : Rules} {k : Key} {records : List Record}
    (h : ∀ r ∈ records, r.check = .ok ()) : ∀ r ∈ without rules k records, r.check = .ok () := by
  rw [check_eq_ok_iff_facts] at h ⊢
  intro f hf
  refine h f ?_
  -- nothing is said that was not said before
  obtain ⟨r', hr', hf⟩ := List.mem_flatMap.1 hf
  obtain ⟨r, hr, -, rfl⟩ := mem_without.1 hr'
  refine List.mem_flatMap.2 ⟨r, hr, ?_⟩
  simp only [recordFacts, withoutCalls, List.mem_cons, List.mem_append, List.mem_map,
    List.mem_filter] at hf ⊢
  rcases hf with hf | hf | ⟨site, ⟨hsite, -⟩, hf⟩
  · exact .inl hf
  · exact .inr (.inl hf)
  · exact .inr (.inr ⟨site, hsite, hf⟩)

/-! ## Settings that leave out one method more -/

/-- Settings that leave out `k`, and otherwise the methods that other settings leave out. -/
structure Config.Excludes (config config' : Config) (k : Key) : Prop where
  rules : config'.rules = config.rules
  policy : config'.policy = config.policy
  leavesOut : ∀ x, config'.leavesOut x = true ↔ x = k ∨ config.leavesOut x = true

namespace Config.Excludes

variable {config config' : Config} {k : Key} {records : List Record}
  (h : config.Excludes config' k)

include h

/-- A method is kept iff it is another one, and was kept before. -/
theorem leavesOut_eq_false_iff {x : Key} :
    config'.leavesOut x = false ↔ x ≠ k ∧ config.leavesOut x = false := by
  rw [← Bool.not_eq_true, h.leavesOut, not_or, Bool.not_eq_true]

/-- `declared` is the same, as the canonical forms are. -/
theorem declared_eq (r : Record) : config'.declared r = config.declared r := by
  rw [declared, declared, h.rules]

/-- `called` is the same, as the canonical forms are. -/
theorem called_eq (call : ResolvedCall) : config'.called call = config.called call := by
  rw [called, called, h.rules]

/-- `keep?` gives nothing for the method left out, and else what it gave before. -/
theorem keep?_eq (x : Key) :
    config'.keep? x = if x = k then none else config.keep? x := by
  -- the method itself, or another one
  by_cases hx : x = k
  · have hout := (h.leavesOut x).2 (.inl hx)
    rw [keep?, hout, if_pos hx, if_pos rfl]
  · have hout : config'.leavesOut x = config.leavesOut x := by
      rw [Bool.eq_iff_iff, h.leavesOut, or_iff_right hx]
    simp [keep?, hout, hx]

/-- `reached?` gives nothing for a call of the method left out, and else what it gave before. -/
theorem reached?_eq (site : CallSite) :
    config'.reached? site =
      if callsMethod config.rules k site = true then none else config.reached? site := by
  cases site with
  | resolved call =>
    simp only [reached?, h.called_eq, h.keep?_eq, callsMethod, decide_eq_true_eq]
    rfl
  | unresolved call => simp [reached?]

/-- `kept` has the records of other methods, without the calls of the method. -/
theorem kept_eq (records : List Record) :
    config.kept (without config.rules k records) =
      (config'.kept records).map (withoutCalls config.rules k) := by
  -- taking calls out changes no declaration
  have hdeclared : ∀ r, config.declared (withoutCalls config.rules k r) = config.declared r :=
    fun _ => rfl
  simp only [kept, without, List.filter_map, List.filter_filter, Function.comp_def, hdeclared,
    h.declared_eq]
  refine congrArg _ (List.filter_congr fun r _ => ?_)
  rw [Bool.eq_iff_iff]
  simp only [Bool.and_eq_true, Bool.not_eq_true', h.leavesOut_eq_false_iff, decide_eq_true_eq]
  exact and_comm

/-- A record without the calls of the method reaches what is still reached. -/
theorem filterMap_reached? (r : Record) :
    (withoutCalls config.rules k r).calls.filterMap config.reached? =
      r.calls.filterMap config'.reached? := by
  rw [withoutCalls, List.filterMap_filter]
  -- the calls that are taken out are those that reach nothing now
  refine List.filterMap_congr fun site _ => ?_
  rw [h.reached?_eq]
  cases callsMethod config.rules k site <;> simp

/-- `occurrences` are those of the records without the method. -/
theorem occurrences_eq (records : List Record) :
    config'.occurrences records = config.occurrences (without config.rules k records) := by
  simp only [occurrences, h.kept_eq, List.flatMap_map]
  refine List.flatMap_congr fun r _ => ?_
  rw [h.filterMap_reached?, h.declared_eq]
  rfl

/-- `skipped` are those of the records without the method. -/
theorem skipped_eq (records : List Record) :
    config'.skipped records = config.skipped (without config.rules k records) := by
  simp only [skipped, h.kept_eq, List.flatMap_map]
  refine List.flatMap_congr fun r _ => ?_
  rw [h.declared_eq, withoutCalls, List.filterMap_filter]
  refine List.filterMap_congr fun site _ => ?_
  -- a call whose target is not known calls no method that could be left out
  cases site with
  | resolved call => simp [skipped?]
  | unresolved call => simp [skipped?, callsMethod, declared]

/-- `Makes` is that of the records without the method. -/
theorem makes_iff {c : Key} {call : ResolvedCall} :
    config'.Makes records c call ↔
      config.Makes (without config.rules k records) c call := by
  simp only [Makes, h.leavesOut_eq_false_iff, h.called_eq, h.declared_eq, mem_without]
  constructor
  -- caller and target are other methods, so that the call is still there
  · rintro ⟨⟨hck, hc⟩, ⟨htk, ht⟩, r, hr, rfl, hsite⟩
    exact ⟨hc, ht, _, ⟨r, hr, hck, rfl⟩, rfl, resolved_mem_withoutCalls.2 ⟨hsite, htk⟩⟩
  · rintro ⟨hc, ht, _, ⟨r, hr, hck, rfl⟩, rfl, hsite⟩
    obtain ⟨hsite, htk⟩ := resolved_mem_withoutCalls.1 hsite
    exact ⟨⟨hck, hc⟩, ⟨htk, ht⟩, r, hr, rfl, hsite⟩

/-- `Calls` is that of the records without the method. -/
theorem calls_iff {c t : Key} :
    config'.Calls records c t ↔ config.Calls (without config.rules k records) c t := by
  simp only [Calls, h.makes_iff, h.called_eq]

/-- `CallsVirtually` is that of the records without the method. -/
theorem callsVirtually_iff {c t : Key} :
    config'.CallsVirtually records c t ↔
      config.CallsVirtually (without config.rules k records) c t := by
  simp only [CallsVirtually, h.makes_iff, h.called_eq]

/-- `Overridden` is that of the records without the method, less what overrides it: nothing declares
    the method, but some records may still say that they override it. -/
theorem overridden_iff {base d : Key} :
    config'.Overridden records base d ↔
      base ≠ k ∧ config.Overridden (without config.rules k records) base d := by
  simp only [Overridden, h.leavesOut_eq_false_iff, h.declared_eq, h.rules, mem_without]
  constructor
  · rintro ⟨⟨hbk, hb⟩, ⟨hdk, hd⟩, hne, r, hr, rfl, s, hs, rfl⟩
    exact ⟨hbk, hb, hd, hne, _, ⟨r, hr, hdk, rfl⟩, rfl, s, hs, rfl⟩
  · rintro ⟨hbk, hb, hd, hne, _, ⟨r, hr, hdk, rfl⟩, rfl, s, hs, rfl⟩
    exact ⟨⟨hbk, hb⟩, ⟨hdk, hd⟩, hne, r, hr, rfl, s, hs, rfl⟩

/-- No chain of `Overridden` from another method comes to the method left out. -/
theorem overridden_chain_iff {base d : Key} (hbase : base ≠ k) :
    TransGen (config'.Overridden records) base d ↔
      TransGen (config.Overridden (without config.rules k records)) base d := by
  constructor
  · exact TransGen.mono (fun _ _ hover => (h.overridden_iff.1 hover).2) _ _
  · intro hchain
    -- what overrides something is declared, and so is not `k`
    have hne : ∀ {x y}, config.Overridden (without config.rules k records) x y → y ≠ k := by
      rintro x y ⟨-, -, -, r', hr', rfl, -⟩
      obtain ⟨r, -, hrk, rfl⟩ := mem_without.1 hr'
      exact hrk
    induction hchain with
    | single hover => exact .single (h.overridden_iff.2 ⟨hbase, hover⟩)
    | tail hchain hover ih =>
      obtain ⟨_, -, hlast⟩ := TransGen.tail'_iff.1 hchain
      exact ih.tail (h.overridden_iff.2 ⟨hne hlast, hover⟩)

/-- `Dispatches` is that of the records without the method. -/
theorem dispatches_iff {c i : Key} :
    config'.Dispatches records c i ↔
      config.Dispatches (without config.rules k records) c i := by
  simp only [Dispatches, h.callsVirtually_iff]
  refine exists_congr fun t => and_congr_right fun hcall => h.overridden_chain_iff ?_
  -- the method left out is not called
  obtain ⟨call, ⟨-, -, r', hr', -, hsite⟩, rfl, -⟩ := hcall
  obtain ⟨r, -, -, rfl⟩ := mem_without.1 hr'
  exact (resolved_mem_withoutCalls.1 hsite).2

/-- To leave a method out is to take its declarations and its calls out of the records. -/
theorem graph_eq {g g' : CallGraph} {report report' : Report}
    (hbuild : build config' records = .ok (g, report))
    (hbuild' : build config (without config.rules k records) = .ok (g', report')) :
    g.vertexList = g'.vertexList ∧ (∀ e, e ∈ g.edgeList ↔ e ∈ g'.edgeList) ∧
      g.skippedList = g'.skippedList := by
  refine ⟨?_, fun e => ?_, ?_⟩
  · rw [vertexList_of_build hbuild, vertexList_of_build hbuild', h.occurrences_eq]
  · rw [mem_edgeList_of_build hbuild, mem_edgeList_of_build hbuild', h.policy, h.calls_iff,
      h.dispatches_iff]
  · rw [skippedList_of_build hbuild, skippedList_of_build hbuild', h.skipped_eq]

end Config.Excludes

/-! ## Texts of methods to leave out -/

/-- `parseKeys` reads some texts iff it reads each of them. -/
theorem exists_parseKeys_iff {rules : Rules} {texts : List String} :
    (∃ ks, parseKeys rules texts = .ok ks) ↔
      ∀ text ∈ texts, ∃ k, Key.parseCanonical rules text = .ok k := by
  induction texts with
  | nil => simp [parseKeys]
  | cons text texts ih =>
    rw [List.forall_mem_cons, ← ih]
    cases hkey : Key.parseCanonical rules text with
    | error e => simp [parseKeys, hkey, bind, Except.bind]
    | ok k =>
      cases hkeys : parseKeys rules texts with
      | error e => simp [parseKeys, hkey, hkeys, bind, Except.bind]
      | ok ks => simp [parseKeys, hkey, hkeys, bind, Except.bind]

/-- A text that names a method leaves out that method. -/
theorem excludes_of_parseCanonical {rules : Rules} {text : String} {k : Key}
    (h : Key.parseCanonical rules text = .ok k) (policy : Policy) (before after : List String) :
    Config.Excludes { rules, policy, exclude := before ++ after }
      { rules, policy, exclude := before ++ text :: after } k where
  rules := rfl
  policy := rfl
  leavesOut x := by
    simp only [Config.leavesOut, List.any_append, List.any_cons, h, Bool.or_eq_true,
      decide_eq_true_eq, eq_comm (a := k)]
    tauto

/-- One more text that names a method can be left out. -/
theorem exists_excluded_insert {rules : Rules} {text : String} {k : Key}
    (h : Key.parseCanonical rules text = .ok k) {policy : Policy} {before after : List String}
    {ks : List Key}
    (hks : ({ rules, policy, exclude := before ++ after } : Config).excluded = .ok ks) :
    ∃ ks', ({ rules, policy, exclude := before ++ text :: after } : Config).excluded = .ok ks' := by
  have hread : ∀ t ∈ before ++ after, ∃ x, Key.parseCanonical rules t = .ok x :=
    exists_parseKeys_iff.1 ⟨ks, hks⟩
  refine exists_parseKeys_iff.2 fun t ht => ?_
  -- the new text can be read, and so could the others
  rcases List.mem_append.1 ht with ht | ht
  · exact hread t (List.mem_append_left _ ht)
  · rcases List.mem_cons.1 ht with rfl | ht
    · exact ⟨k, h⟩
    · exact hread t (List.mem_append_right _ ht)

end Build

/-! ## Texts of symbols -/

namespace Symbol

open Build Command

/-- `display` of a symbol names the method of the symbol.  It can be read, and in canonical form it
    is the key of the symbol.  Where it is listed among the methods to leave out, `build` gives the
    graph of the records `without` the declarations and the calls of that method.  Where it is given
    as the start of an analysis, the analysis starts from that method. -/
theorem display_identifies {s : Symbol} (h : s.Readable) (rules : Rules) :
    (∃ k, Key.parse s.display = .ok k ∧ k.canonicalized rules = Key.ofSymbol rules s) ∧
    (∀ (policy : Policy) (before after : List String) (records : List Record),
      (∃ ks, ({ rules, policy, exclude := before ++ after } : Config).excluded = .ok ks) →
      (∀ r ∈ records, r.check = .ok ()) →
      ∃ g report g' report',
        build { rules, policy, exclude := before ++ s.display :: after } records =
          .ok (g, report) ∧
        build { rules, policy, exclude := before ++ after }
          (without rules (Key.ofSymbol rules s) records) = .ok (g', report') ∧
        g.vertexList = g'.vertexList ∧ (∀ e, e ∈ g.edgeList ↔ e ∈ g'.edgeList) ∧
        g.skippedList = g'.skippedList) ∧
    ∀ (config : Config), config.rules = rules → ∀ (path : String) (content : Content),
      Submission.ofContent config (some s.display) path content =
        (Submission.ofContent config none path content).map fun submission =>
          { submission with start := some (Key.ofSymbol rules s) } := by
  have hread := Key.parseCanonical_display h rules
  refine ⟨⟨_, Key.parse_display h, Key.canonicalized_trimmed rules _ _ _⟩, ?_, ?_⟩
  -- the text is one more method to leave out
  · intro policy before after records ⟨ks, hks⟩ hvalid
    obtain ⟨ks', hks'⟩ := exists_excluded_insert hread hks
    obtain ⟨g, report, hbuild⟩ := exists_build hks' hvalid
    have hvalid' : ∀ r ∈ without rules (Key.ofSymbol rules s) records, r.check = .ok () :=
      check_without hvalid
    obtain ⟨g', report', hbuild'⟩ := exists_build hks hvalid'
    have hexcludes := excludes_of_parseCanonical hread policy before after
    exact ⟨g, report, g', report', hbuild, hbuild', hexcludes.graph_eq hbuild hbuild'⟩
  -- only the start of the submission differs
  · rintro config rfl path content
    have hstart : readStart config.rules (some s.display) =
        .ok (some (Key.ofSymbol config.rules s)) := by
      simp only [readStart, hread]
    simp only [Submission.ofContent, hstart]
    split
    · rfl
    · split <;> rfl

/-- A cache whose methods are spelled in several ways, and a program that fills it. -/
def cacheRecords : List Record :=
  [{ declaration := ⟨"Cache", "fill", ["Map<K,List<V>>", "int"]⟩
     calls := [.resolved { target := ⟨"Cache", "fill", ["java.util.Map", "int"]⟩ }] },
   { declaration := ⟨"App", "main", []⟩
     calls := [.resolved { target := ⟨"Cache", "fill", ["Map<String, List<Integer>>", "int"]⟩ },
       .resolved { target := ⟨"App", "main", []⟩ }] }]

/-- Without the method that fills the cache, the program is left with the call of itself. -/
theorem display_identifies_cache :
    Symbol.Readable ⟨"Cache", "fill", ["Map<K, List<V>>", "int "]⟩ ∧
    ∃ g report, build { rules := { stripQualifiers := true }
                        exclude := ["Cache.fill(Map<K, List<V>>, int )"] } cacheRecords =
        .ok (g, report) ∧
      g.vertexList = [⟨"App", "main", []⟩] ∧
      ⟨⟨"App", "main", []⟩, ⟨"App", "main", []⟩, .calls⟩ ∈ g.edgeList := by
  have hreadable : Symbol.Readable ⟨"Cache", "fill", ["Map<K, List<V>>", "int "]⟩ := by
    constructor <;> decide +kernel
  have hvalid : ∀ r ∈ cacheRecords, r.check = .ok () := by decide
  obtain ⟨-, hexclude, -⟩ := display_identifies hreadable { stripQualifiers := true }
  obtain ⟨g, report, g', report', hbuild, hbuild', hvertices, hedges, -⟩ :=
    hexclude .fanOut [] [] cacheRecords ⟨[], rfl⟩ hvalid
  have hdisplay : Symbol.display ⟨"Cache", "fill", ["Map<K, List<V>>", "int "]⟩ =
      "Cache.fill(Map<K, List<V>>, int )" := by decide +kernel
  rw [hdisplay] at hbuild
  have hkey : Key.ofSymbol { stripQualifiers := true }
      ⟨"Cache", "fill", ["Map<K, List<V>>", "int "]⟩ = ⟨"Cache", "fill", ["Map", "int"]⟩ := by
    decide +kernel
  have hleft : without { stripQualifiers := true } ⟨"Cache", "fill", ["Map", "int"]⟩ cacheRecords =
      [{ declaration := ⟨"App", "main", []⟩
         calls := [.resolved { target := ⟨"App", "main", []⟩ }] }] := by
    decide +kernel
  rw [hkey, hleft] at hbuild'
  refine ⟨hreadable, g, report, hbuild, ?_, ?_⟩
  · rw [hvertices, vertexList_of_build hbuild']
    decide +kernel
  · rw [hedges, mem_edgeList_of_build hbuild']
    exact .inl ⟨rfl, Config.mk_mem_callEdges.1 (by decide +kernel)⟩

end Symbol

end CallCycle

import CallCycle.Proofs.Build
import CallCycle.Proofs.Canonical
import CallCycle.Proofs.Cycles

/-!
# Coarser canonical forms

Rules that strip qualifiers or replace boxing classes make more descriptors alike.  What they make
of a descriptor can be read off its form under the finer rules, so that a map on keys leads from one
graph to the other.  Methods may fall together on the way, and with them a method and one that it
overrides; then the call of the one is a call of the other.

## Key results

- `mapNames_mapNames`: rewriting names twice is rewriting them once
- `finish_finish`: the last steps of coarser rules take in those of finer ones
- `Coarser.ofParts_eq`: the key under coarser rules, from the key under finer ones
- `Config.Recasts.leads`: where calls lead under coarser rules
- `build_coarsen`: the graph under coarser rules
-/

namespace CallCycle

open Std Relation

/-- Rules that take the same steps as others, and possibly strip qualifiers or replace boxing
    classes where these do not. -/
structure Rules.Coarser (rules rules' : Rules) : Prop where
  eraseGenerics : rules'.eraseGenerics = rules.eraseGenerics
  stripQualifiers : rules.stripQualifiers = true → rules'.stripQualifiers = true
  unboxPrimitives : rules.unboxPrimitives = true → rules'.unboxPrimitives = true

namespace Descriptor

open Text

/-! ## Rewriting names twice -/

/-- `mapNamesFrom` after `mapNamesFrom` rewrites each run once, with both functions. -/
theorem mapNamesFrom_mapNamesFrom {f g : List Char → List Char}
    (hf : ∀ name : List Char, (∀ c ∈ name, isNameChar c = true) →
      ∀ c ∈ f name, isNameChar c = true)
    {run : List Char} (hrun : ∀ c ∈ run, isNameChar c = true) (text : List Char) :
    mapNamesFrom g [] (mapNamesFrom f run text) = mapNamesFrom (g ∘ f) run text := by
  induction text generalizing run with
  | nil =>
    -- the last run, which nothing follows
    have hname := hf run.reverse (by simpa using hrun)
    have happ := mapNamesFrom_append hname g [] []
    simpa [mapNamesFrom] using happ
  | cons c text ih =>
    by_cases hc : isNameChar c = true
    · have hrun' : ∀ d ∈ c :: run, isNameChar d = true := by
        intro d hd
        rcases List.mem_cons.1 hd with rfl | hd
        · exact hc
        · exact hrun d hd
      simp only [mapNamesFrom, hc, if_true]
      exact ih hrun'
    · -- the run ends here on both sides, and what it is rewritten to is a run as well
      have hname := hf run.reverse (by simpa using hrun)
      simp only [mapNamesFrom, hc, if_false, Bool.false_eq_true]
      rw [mapNamesFrom_append hname, mapNamesFrom, if_neg hc, ih (by simp)]
      simp

/-- `mapNames` twice is `mapNames` once, if names are rewritten to names. -/
theorem mapNames_mapNames {f g : List Char → List Char}
    (hf : ∀ name : List Char, (∀ c ∈ name, isNameChar c = true) →
      ∀ c ∈ f name, isNameChar c = true) (text : List Char) :
    mapNames g (mapNames f text) = mapNames (g ∘ f) text :=
  mapNamesFrom_mapNamesFrom hf (by simp) text

/-! ## Reducing names twice -/

/-- `afterLast` has no separator. -/
theorem notMem_afterLast (sep : Char) (xs : List Char) : sep ∉ afterLast sep xs := by
  intro hmem
  rw [afterLast, List.mem_reverse] at hmem
  have hall := List.all_eq_true.1 (List.all_takeWhile (p := (· ≠ sep)) (l := xs.reverse)) sep hmem
  simp at hall

/-- `dropImplicitPackage` leaves a name as it is, or leaves a name without dots behind the
    package. -/
theorem dropImplicitPackage_eq (name : List Char) :
    dropImplicitPackage name = name ∨
      '.' ∉ dropImplicitPackage name ∧ name = implicitPackage ++ dropImplicitPackage name := by
  rw [dropImplicitPackage]
  split
  · next simple hdrop =>
    split
    -- a class in a package below, or nothing behind the package
    · exact .inl rfl
    · next hsimple =>
      have hdot : '.' ∉ simple := by
        intro hmem
        simp [hmem] at hsimple
      exact .inr ⟨hdot, dropFront?_eq_some_iff.1 hdrop⟩
  · exact .inl rfl

/-- `simpleName` changes a simple name no more. -/
theorem simpleName_simpleName (name : List Char) :
    simpleName (simpleName name) = simpleName name :=
  afterLast_of_notMem (notMem_afterLast '.' name)

/-- `simpleName` does not see whether `dropImplicitPackage` came before. -/
theorem simpleName_dropImplicitPackage (name : List Char) :
    simpleName (dropImplicitPackage name) = simpleName name := by
  rcases dropImplicitPackage_eq name with heq | ⟨-, heq⟩
  · rw [heq]
  · -- the package ends with a dot, so that the last part is what follows it
    have hsplit : name = ['j', 'a', 'v', 'a', '.', 'l', 'a', 'n', 'g'] ++
        '.' :: dropImplicitPackage name := heq
    conv => rhs; rw [hsplit]
    rw [simpleName, simpleName, afterLast_append_cons]

/-- `dropImplicitPackage` drops the package once. -/
theorem dropImplicitPackage_dropImplicitPackage (name : List Char) :
    dropImplicitPackage (dropImplicitPackage name) = dropImplicitPackage name := by
  rcases dropImplicitPackage_eq (dropImplicitPackage name) with heq | ⟨-, hagain⟩
  · exact heq
  · rcases dropImplicitPackage_eq name with heq | ⟨hdot, -⟩
    · rw [heq, heq]
    · -- what is left has no dot, so that the package cannot stand in front of it
      rw [hagain] at hdot
      exact absurd (List.mem_append_left _ (by decide)) hdot

/-- What becomes of a dotted name under the rules. -/
def reduceName (rules : Rules) : List Char → List Char :=
  if rules.stripQualifiers then simpleName else dropImplicitPackage

/-- `reduceName` makes names of names. -/
theorem isNameChar_of_mem_reduceName (rules : Rules) {name : List Char}
    (hname : ∀ c ∈ name, isNameChar c = true) :
    ∀ c ∈ reduceName rules name, isNameChar c = true := by
  intro c hc
  refine hname c ?_
  rw [reduceName] at hc
  -- either way the characters are those of the name
  split at hc
  · rw [simpleName, afterLast, List.mem_reverse] at hc
    exact List.mem_reverse.1 ((List.takeWhile_sublist _).subset hc)
  · rcases dropImplicitPackage_eq name with heq | ⟨-, heq⟩
    · rwa [heq] at hc
    · rw [heq]
      exact List.mem_append_right _ hc

/-- `reduceName` under coarser rules comes to the same, whether finer rules have reduced the name
    before or not. -/
theorem reduceName_reduceName {rules rules' : Rules} (h : rules.Coarser rules')
    (name : List Char) : reduceName rules' (reduceName rules name) = reduceName rules' name := by
  cases hstrip' : rules'.stripQualifiers with
  | true =>
    cases hstrip : rules.stripQualifiers with
    | true => simp [reduceName, hstrip, hstrip', simpleName_simpleName]
    | false => simp [reduceName, hstrip, hstrip', simpleName_dropImplicitPackage]
  | false =>
    -- finer rules strip no more than coarser ones
    have hstrip : rules.stripQualifiers = false := by
      rw [← Bool.not_eq_true]
      intro hstrip
      rw [h.stripQualifiers hstrip] at hstrip'
      exact nomatch hstrip'
    simp [reduceName, hstrip, hstrip', dropImplicitPackage_dropImplicitPackage]

/-- All names of a text reduced under coarser rules, whether finer rules have reduced them before or
    not. -/
theorem mapNames_reduceName {rules rules' : Rules} (h : rules.Coarser rules')
    (text : List Char) :
    mapNames (reduceName rules') (mapNames (reduceName rules) text) =
      mapNames (reduceName rules') text := by
  have hcomp : reduceName rules' ∘ reduceName rules = reduceName rules' :=
    funext (reduceName_reduceName h)
  rw [mapNames_mapNames fun _ => isNameChar_of_mem_reduceName rules, hcomp]

/-! ## The last steps -/

/-- The last steps of canonicalization: names are reduced, and a boxing class is replaced. -/
def finish (rules : Rules) (text : List Char) : List Char :=
  let text := mapNames (reduceName rules) text
  if rules.unboxPrimitives then (unboxed? text).getD text else text

/-- `canonical` by its first steps and by `finish`. -/
theorem canonical_eq_finish (rules : Rules) (text : List Char) :
    canonical rules text = finish rules
      (if rules.eraseGenerics then eraseArguments 0 (normalize text) else normalize text) := rfl

/-- `unboxed?` knows the names of boxing classes, with and without their package. -/
theorem exists_of_unboxed? {text keyword : List Char} (h : unboxed? text = some keyword) :
    ∃ p : Primitive, keyword = p.keyword.toList ∧
      (text = p.box.toList ∨ text = implicitPackage ++ p.box.toList) := by
  rw [unboxed?, Option.map_eq_some_iff] at h
  obtain ⟨p, hp, rfl⟩ := h
  have hbox : p.box = String.ofList ((dropFront? implicitPackage text).getD text) := by
    simpa using List.find?_some hp
  refine ⟨p, rfl, ?_⟩
  rw [hbox, String.toList_ofList]
  cases hdrop : dropFront? implicitPackage text with
  | none => exact .inl rfl
  | some simple => exact .inr (dropFront?_eq_some_iff.1 hdrop)

/-- `finish` makes the same of a boxing class and of the primitive type that it boxes, where boxing
    classes are replaced. -/
theorem finish_unboxed {rules : Rules} (hunbox : rules.unboxPrimitives = true)
    {text keyword : List Char} (h : unboxed? text = some keyword) :
    finish rules keyword = finish rules text := by
  obtain ⟨p, rfl, rfl | rfl⟩ := exists_of_unboxed? h
  -- the eight classes one by one, without their package and with it
  · cases hstrip : rules.stripQualifiers <;>
      simp only [finish, reduceName, hunbox, hstrip, if_true, Bool.false_eq_true, if_false] <;>
      cases p <;> decide +kernel
  · cases hstrip : rules.stripQualifiers <;>
      simp only [finish, reduceName, hunbox, hstrip, if_true, Bool.false_eq_true, if_false] <;>
      cases p <;> decide +kernel

/-- `finish` under coarser rules comes to the same, whether it was taken under finer rules before or
    not. -/
theorem finish_finish {rules rules' : Rules} (h : rules.Coarser rules') (text : List Char) :
    finish rules' (finish rules text) = finish rules' text := by
  have hreduce : finish rules' (mapNames (reduceName rules) text) = finish rules' text := by
    simp only [finish, mapNames_reduceName h]
  cases hunbox : rules.unboxPrimitives with
  | false => simpa [finish, hunbox] using hreduce
  | true =>
    -- the finer rules replace a boxing class, or leave the text
    cases hclass : unboxed? (mapNames (reduceName rules) text) with
    | none => simpa [finish, hunbox, hclass] using hreduce
    | some keyword =>
      have hlast : finish rules text = keyword := by simp [finish, hunbox, hclass]
      rw [hlast, finish_unboxed (h.unboxPrimitives hunbox) hclass, hreduce]

end Descriptor

/-! ## Keys -/

/-- What coarser rules make of a descriptor that is in canonical form under finer ones. -/
def Rules.recast (rules : Rules) (descriptor : String) : String :=
  String.ofList (Descriptor.finish rules descriptor.toList)

/-- A key with its parameter types rewritten. -/
def Key.mapParams (f : String → String) (k : Key) : Key :=
  { k with params := k.params.map f }

namespace Rules.Coarser

variable {rules rules' : Rules} (h : rules.Coarser rules')

include h

/-- The `descriptor` under coarser rules is the one under finer rules, recast. -/
theorem descriptor_eq (text : String) :
    rules'.descriptor text = rules'.recast (rules.descriptor text) := by
  rw [Rules.recast, Rules.descriptor, Rules.descriptor, String.toList_ofList,
    Descriptor.canonical_eq_finish, Descriptor.canonical_eq_finish, Descriptor.finish_finish h,
    h.eraseGenerics]

/-- `Key.ofParts` under coarser rules is the key under finer ones with its parameter types
    rewritten. -/
theorem ofParts_eq (owner name : String) (types : List String) :
    Key.ofParts rules' owner name types =
      (Key.ofParts rules owner name types).mapParams rules'.recast := by
  have hparams : types.map rules'.descriptor =
      (types.map rules.descriptor).map rules'.recast := by
    rw [List.map_map]
    exact List.map_congr_left fun text _ => h.descriptor_eq text
  simp only [Key.ofParts, Key.mapParams, hparams]
  rfl

end Rules.Coarser

namespace Build

/-! ## Relations between recast methods -/

/-- Settings whose keys are those of others sent through `f`.  They leave out no method that these
    keep, and have the same policy. -/
structure Config.Recasts (f : Key → Key) (config config' : Config) : Prop where
  ofParts : ∀ owner name types,
    Key.ofParts config'.rules owner name types = f (Key.ofParts config.rules owner name types)
  keeps : ∀ k, config.leavesOut k = false → config'.leavesOut (f k) = false
  policy : config'.policy = config.policy

namespace Config.Recasts

variable {f : Key → Key} {config config' : Config} {records : List Record}
  (h : config.Recasts f config')

include h

/-- `declared` goes through `f`. -/
theorem declared_eq (r : Record) : config'.declared r = f (config.declared r) :=
  h.ofParts _ _ _

/-- `called` goes through `f`. -/
theorem called_eq (call : ResolvedCall) : config'.called call = f (config.called call) :=
  h.ofParts _ _ _

/-- `Makes` goes through `f` for the caller. -/
theorem makes {c : Key} {call : ResolvedCall} (hmakes : config.Makes records c call) :
    config'.Makes records (f c) call := by
  obtain ⟨hc, ht, r, hr, rfl, hsite⟩ := hmakes
  have hout := h.keeps _ ht
  rw [← h.called_eq] at hout
  exact ⟨h.keeps _ hc, hout, r, hr, h.declared_eq r, hsite⟩

/-- `Calls` goes through `f` at both ends. -/
theorem calls {c t : Key} (hcalls : config.Calls records c t) :
    config'.Calls records (f c) (f t) := by
  obtain ⟨call, hmakes, rfl⟩ := hcalls
  exact ⟨call, h.makes hmakes, h.called_eq call⟩

/-- `CallsVirtually` goes through `f` at both ends. -/
theorem callsVirtually {c t : Key} (hcalls : config.CallsVirtually records c t) :
    config'.CallsVirtually records (f c) (f t) := by
  obtain ⟨call, hmakes, rfl, hvirtual⟩ := hcalls
  exact ⟨call, h.makes hmakes, h.called_eq call, hvirtual⟩

/-- `Overridden` goes through `f`, but for a method and one that it overrides that fall together. -/
theorem overridden {base d : Key} (hover : config.Overridden records base d) :
    f base = f d ∨ config'.Overridden records (f base) (f d) := by
  obtain ⟨hbase, hd, -, r, hr, rfl, s, hs, rfl⟩ := hover
  -- they fall together, or are still different
  by_cases heq : f (Key.ofSymbol config.rules s) = f (config.declared r)
  · exact .inl heq
  · exact .inr ⟨h.keeps _ hbase, h.keeps _ hd, heq, r, hr, h.declared_eq r, s, hs, h.ofParts _ _ _⟩

/-- All methods of a chain of overrides may fall together. -/
theorem overridden_chain {base d : Key} (hchain : TransGen (config.Overridden records) base d) :
    f base = f d ∨ TransGen (config'.Overridden records) (f base) (f d) := by
  induction hchain with
  | single hover => exact (h.overridden hover).imp_right .single
  | tail _ hover ih =>
    -- each step is lost or stays
    rcases ih with heq | hchain <;> rcases h.overridden hover with heq' | hover'
    · exact .inl (heq.trans heq')
    · exact .inr (.single (heq ▸ hover'))
    · exact .inr (heq' ▸ hchain)
    · exact .inr (hchain.tail hover')

/-- Where the methods of a dispatch fall together, the call itself leads there. -/
theorem dispatches {c i : Key} (hdispatches : config.Dispatches records c i) :
    config'.Calls records (f c) (f i) ∨ config'.Dispatches records (f c) (f i) := by
  obtain ⟨t, hvirtual, hchain⟩ := hdispatches
  rcases h.overridden_chain hchain with heq | hchain'
  · exact .inl (heq ▸ h.calls hvirtual.calls)
  · exact .inr ⟨f t, h.callsVirtually hvirtual, hchain'⟩

/-- `Leads` goes through `f` at both ends: a method leads where it led before. -/
theorem leads {c t : Key} (hleads : config.Leads records c t) :
    config'.Leads records (f c) (f t) := by
  rcases hleads with hcalls | ⟨hpolicy, hdispatches⟩
  · exact .inl (h.calls hcalls)
  · have hpolicy' : config'.policy = .fanOut := by rw [h.policy, hpolicy]
    exact (h.dispatches hdispatches).imp_right fun hdispatches' => ⟨hpolicy', hdispatches'⟩

/-- If no method is left out, `occurrences` are those from before, sent through `f`. -/
theorem mem_occurrences_iff (hall : ∀ k, config.leavesOut k = false) {k' : Key} :
    k' ∈ config'.occurrences records ↔ ∃ k ∈ config.occurrences records, f k = k' := by
  simp only [mem_occurrences]
  constructor
  -- the record is the same, and so is its method before `f`
  · rintro (⟨-, r, hr, rfl⟩ | ⟨_, call, ⟨-, -, r, hr, -, hsite⟩, rfl⟩)
    · exact ⟨config.declared r, .inl ⟨hall _, r, hr, rfl⟩, (h.declared_eq r).symm⟩
    · have hmakes : config.Makes records (config.declared r) call :=
        ⟨hall _, hall _, r, hr, rfl, hsite⟩
      exact ⟨config.called call, .inr ⟨_, call, hmakes, rfl⟩, (h.called_eq call).symm⟩
  · rintro ⟨k, ⟨hkept, r, hr, rfl⟩ | ⟨c, hcalls⟩, rfl⟩
    · exact .inl ⟨h.keeps _ hkept, r, hr, h.declared_eq r⟩
    · exact .inr ⟨f c, h.calls hcalls⟩

end Config.Recasts

/-! ## Graphs -/

/-- Without exclusions nothing is left out. -/
theorem Config.leavesOut_of_exclude_eq_nil {config : Config} (h : config.exclude = []) (k : Key) :
    config.leavesOut k = false := by
  simp [leavesOut, h]

/-- Coarser rules recast all keys, if nothing is left out. -/
theorem recasts_of_coarser {rules rules' : Rules} (h : rules.Coarser rules') (policy : Policy) :
    Config.Recasts (Key.mapParams rules'.recast) { rules, policy } { rules := rules', policy } where
  ofParts := h.ofParts_eq
  keeps k _ := Config.leavesOut_of_exclude_eq_nil rfl (k.mapParams rules'.recast)
  policy := rfl

/-- `Coarser` rules hide no recursion.  Some way to rewrite parameter types sends the key of every
    symbol under the finer rules to its key under the coarser ones.  For all records without a
    problem, it sends the vertices that `build` gives under the finer rules onto those under the
    coarser ones, edges to edges, and recursive methods to recursive methods. -/
theorem build_coarsen {rules rules' : Rules} (h : rules.Coarser rules') :
    ∃ rewrite : String → String,
      (∀ s, Key.ofSymbol rules' s = (Key.ofSymbol rules s).mapParams rewrite) ∧
      ∀ (policy : Policy) (records : List Record), (∀ r ∈ records, r.check = .ok ()) →
        ∃ g report g' report',
          build { rules, policy, exclude := [] } records = .ok (g, report) ∧
          build { rules := rules', policy, exclude := [] } records = .ok (g', report') ∧
          (∀ k', k' ∈ g'.vertexSet ↔ ∃ k ∈ g.vertexSet, k.mapParams rewrite = k') ∧
          (∀ a b, (a, b) ∈ g.edgeSet → (a.mapParams rewrite, b.mapParams rewrite) ∈ g'.edgeSet) ∧
          ∀ k, k ∈ g.cycles.members → k.mapParams rewrite ∈ g'.cycles.members := by
  refine ⟨rules'.recast, fun s => h.ofParts_eq _ _ _, fun policy records hvalid => ?_⟩
  have hrecasts := recasts_of_coarser h policy
  have hnone : ({ rules, policy } : Config).excluded = .ok [] := rfl
  have hnone' : ({ rules := rules', policy } : Config).excluded = .ok [] := rfl
  obtain ⟨g, report, hbuild⟩ := exists_build hnone hvalid
  obtain ⟨g', report', hbuild'⟩ := exists_build hnone' hvalid
  -- an edge goes to an edge, and so a cycle to a cycle
  have hadj : ∀ a b, g.Adj a b →
      g'.Adj (a.mapParams rules'.recast) (b.mapParams rules'.recast) := by
    intro a b hab
    rw [adj_of_build hbuild] at hab
    rw [adj_of_build hbuild']
    exact hrecasts.leads hab
  refine ⟨g, report, g', report', hbuild, hbuild', fun k' => ?_, fun a b hab => ?_, fun k hk => ?_⟩
  · simp only [CallGraph.vertexSet, Digraph.mem_ofList_iff, mem_vertexList_of_build hbuild,
      mem_vertexList_of_build hbuild']
    exact hrecasts.mem_occurrences_iff (Config.leavesOut_of_exclude_eq_nil rfl)
  · rw [CallGraph.edgeSet, List.mem_mergeSort] at hab ⊢
    exact hadj a b hab
  · rw [CallGraph.mem_members_iff] at hk ⊢
    exact TransGen.lift _ hadj _ _ hk

/-- A method for boxed numbers overrides the one for plain numbers, and calls it. -/
def boxRecords : List Record :=
  [{ declaration := ⟨"Box", "put", ["java.lang.Integer"]⟩
     overrides := [⟨"Box", "put", ["int"]⟩]
     calls := [.resolved { target := ⟨"Box", "put", ["int"]⟩ }] }]

/-- In `boxRecords` the method for boxed numbers calls itself through dispatch.  Where the two
    methods fall together, there is no override any more, but the method still calls itself. -/
theorem build_coarsen_boxes :
    ∃ g report g' report', build {} boxRecords = .ok (g, report) ∧
      build { rules := { unboxPrimitives := true } } boxRecords = .ok (g', report') ∧
      ⟨"Box", "put", ["Integer"]⟩ ∈ g.cycles.members ∧
      ⟨"Box", "put", ["int"]⟩ ∈ g'.cycles.members := by
  have hcoarser : ({} : Rules).Coarser { unboxPrimitives := true } := ⟨rfl, id, nofun⟩
  have hvalid : ∀ r ∈ boxRecords, r.check = .ok () := by decide
  obtain ⟨rewrite, hkeys, hbuilds⟩ := build_coarsen hcoarser
  obtain ⟨g, report, g', report', hbuild, hbuild', -, -, hmembers⟩ := hbuilds .fanOut _ hvalid
  have hmember : (⟨"Box", "put", ["Integer"]⟩ : Key) ∈ g.cycles.members := by
    have hvirtual : ({} : Config).CallsVirtually boxRecords ⟨"Box", "put", ["Integer"]⟩
        ⟨"Box", "put", ["int"]⟩ := Config.mem_virtualCalls.1 (by decide +kernel)
    have hover : ({} : Config).Overridden boxRecords ⟨"Box", "put", ["int"]⟩
        ⟨"Box", "put", ["Integer"]⟩ :=
      Config.mem_overridePairs.1 ⟨by decide +kernel, by decide⟩
    rw [CallGraph.mem_members_iff, CallGraph.OnCycle, adj_of_build hbuild]
    exact .single (.inr ⟨rfl, _, hvirtual, .single hover⟩)
  refine ⟨g, report, g', report', hbuild, hbuild', hmember, ?_⟩
  -- the rewriting is known on the keys of symbols
  have hkey : (⟨"Box", "put", ["int"]⟩ : Key) =
      (⟨"Box", "put", ["Integer"]⟩ : Key).mapParams rewrite := by
    have hsymbol := hkeys ⟨"Box", "put", ["Integer"]⟩
    have hfine : Key.ofSymbol {} ⟨"Box", "put", ["Integer"]⟩ = ⟨"Box", "put", ["Integer"]⟩ := by
      decide +kernel
    have hcoarse : Key.ofSymbol { unboxPrimitives := true } ⟨"Box", "put", ["Integer"]⟩ =
        ⟨"Box", "put", ["int"]⟩ := by decide +kernel
    rwa [hfine, hcoarse] at hsymbol
  rw [hkey]
  exact hmembers _ hmember

end Build

end CallCycle

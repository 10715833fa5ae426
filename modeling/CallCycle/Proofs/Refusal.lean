import CallCycle.Proofs.Build
import CallCycle.Proofs.Spacing

/-!
# Records that are refused

A record is refused if some part of it that names a method is blank.  It is refused as a whole:
`Builder.addRecord` passes on the builder as it was, whichever part is blank and whether or not the
declaration is one to leave out.  So a run in which some records are refused ends like a run over
the other records, and a batch that stops at a refused record ends like the batch of those before
it.

## Key results

- `Record.problem?_eq_some_iff`: the problem of a record is its first one
- `Record.exists_check_eq_error_iff`: a record is refused iff it has a blank part
- `Builder.addRecord_fst_of_error`: a refused record leaves the builder as it was
- `Builder.offerAll_eq_foldl`, `Builder.addRecords_of_error`: runs and batches with refused records
- `Builder.refuses_atomically`: all of this, for every builder
-/

namespace CallCycle

open Text

/-! ## Blank parts -/

/-- `isBlankText` by the characters of the text. -/
theorem Text.isBlankText_iff {s : String} : isBlankText s = true ↔ Blank s.toList :=
  List.all_eq_true

/-- `isBlankText` fails iff some character is not blank. -/
theorem Text.isBlankText_eq_false_iff {s : String} : isBlankText s = false ↔ ¬ Blank s.toList := by
  rw [← isBlankText_iff, Bool.not_eq_true]

namespace Symbol

/-- Some part of a symbol is blank. -/
inductive HasBlank (s : Symbol) : Prop where
  | owner (h : Blank s.owner.toList)
  | name (h : Blank s.name.toList)
  | type {t : String} (hmem : t ∈ s.types) (h : Blank t.toList)

/-- The first problem of a symbol, looking at the owner, then at the name, then at the types. -/
inductive FirstProblem (s : Symbol) : Problem → Prop where
  | owner (h : Blank s.owner.toList) : FirstProblem s .blankOwner
  | name (howner : ¬ Blank s.owner.toList) (h : Blank s.name.toList) : FirstProblem s .blankName
  | type {t : String} (howner : ¬ Blank s.owner.toList) (hname : ¬ Blank s.name.toList)
      (hmem : t ∈ s.types) (h : Blank t.toList) : FirstProblem s .blankType

variable {s : Symbol}

/-- Whether some type is blank. -/
theorem any_isBlankText_iff {types : List String} :
    types.any isBlankText = true ↔ ∃ t ∈ types, Blank t.toList := by
  simp only [List.any_eq_true, isBlankText_iff]

/-- `Symbol.problem?` is the first problem of a symbol. -/
theorem problem?_eq_some_iff {p : Problem} : s.problem? = some p ↔ s.FirstProblem p := by
  rw [problem?]
  constructor
  · -- each check that is passed rules out one of the problems before it
    intro h
    split at h
    · next howner =>
      cases h
      exact .owner (isBlankText_iff.1 howner)
    · next howner =>
      have howner := mt isBlankText_iff.2 howner
      split at h
      · next hname =>
        cases h
        exact .name howner (isBlankText_iff.1 hname)
      · next hname =>
        split at h
        · next htype =>
          obtain ⟨t, hmem, ht⟩ := any_isBlankText_iff.1 htype
          cases h
          exact .type howner (mt isBlankText_iff.2 hname) hmem ht
        · cases h
  · intro h
    cases h with
    | owner h => rw [if_pos (isBlankText_iff.2 h)]
    | name howner h => rw [if_neg (mt isBlankText_iff.1 howner), if_pos (isBlankText_iff.2 h)]
    | type howner hname hmem h =>
      rw [if_neg (mt isBlankText_iff.1 howner), if_neg (mt isBlankText_iff.1 hname),
        if_pos (any_isBlankText_iff.2 ⟨_, hmem, h⟩)]

/-- `Symbol.problem?` finds nothing iff no part of the symbol is blank. -/
theorem problem?_eq_none_iff_not_hasBlank : s.problem? = none ↔ ¬ s.HasBlank := by
  simp only [problem?_eq_none_iff, isBlankText_eq_false_iff]
  constructor
  · rintro ⟨howner, hname, htypes⟩ hblank
    cases hblank with
    | owner h => exact howner h
    | name h => exact hname h
    | type hmem h => exact htypes _ hmem h
  · intro h
    exact ⟨fun howner => h (.owner howner), fun hname => h (.name hname),
      fun t hmem ht => h (.type hmem ht)⟩

end Symbol

namespace CallSite

/-- Some part of a call site that names a method is blank. -/
inductive HasBlank : CallSite → Prop where
  | target {call : ResolvedCall} (h : call.target.HasBlank) : HasBlank (.resolved call)
  | declaredParam {call : ResolvedCall} {params : List String} {t : String}
      (hparams : call.declaredParams = some params) (hmem : t ∈ params) (h : Blank t.toList) :
      HasBlank (.resolved call)

/-- The first problem of a call site, looking at the target, then at the parameter types of the
    declaration that was selected. -/
inductive FirstProblem : CallSite → Record.Problem → Prop where
  | target {call : ResolvedCall} {p : Symbol.Problem} (h : call.target.FirstProblem p) :
      FirstProblem (.resolved call) (.call call.target p)
  | declaredParam {call : ResolvedCall} {params : List String} {t : String}
      (htarget : ¬ call.target.HasBlank) (hparams : call.declaredParams = some params)
      (hmem : t ∈ params) (h : Blank t.toList) :
      FirstProblem (.resolved call) (.declaredParams call.target)

variable {site : CallSite}

/-- Whether some declared parameter type is blank; without any there is none. -/
theorem any_declaredParams_iff {call : ResolvedCall} :
    (call.declaredParams.getD []).any isBlankText = true ↔
      ∃ params, call.declaredParams = some params ∧ ∃ t ∈ params, Blank t.toList := by
  rw [Symbol.any_isBlankText_iff]
  cases call.declaredParams <;> simp

/-- `Record.callProblem?` is the first problem of a call site. -/
theorem callProblem?_eq_some_iff {p : Record.Problem} :
    Record.callProblem? site = some p ↔ site.FirstProblem p := by
  constructor
  · intro h
    cases site with
    | unresolved call => cases h
    | resolved call =>
      rw [Record.callProblem?] at h
      split at h
      -- the target comes first
      · next problem hproblem =>
        cases h
        exact .target (Symbol.problem?_eq_some_iff.1 hproblem)
      -- the target is fine, so that the declared parameters are looked at
      · next hproblem =>
        split at h
        · next hany =>
          obtain ⟨params, hparams, t, hmem, ht⟩ := any_declaredParams_iff.1 hany
          cases h
          exact .declaredParam (Symbol.problem?_eq_none_iff_not_hasBlank.1 hproblem) hparams hmem ht
        · cases h
  · intro h
    cases h with
    | target h => simp only [Record.callProblem?, Symbol.problem?_eq_some_iff.2 h]
    | declaredParam htarget hparams hmem h =>
      have hany := any_declaredParams_iff.2 ⟨_, hparams, _, hmem, h⟩
      simp only [Record.callProblem?, Symbol.problem?_eq_none_iff_not_hasBlank.2 htarget,
        if_pos hany]

/-- `Record.callProblem?` finds nothing iff no part of the call site is blank. -/
theorem callProblem?_eq_none_iff : Record.callProblem? site = none ↔ ¬ site.HasBlank := by
  cases site with
  | unresolved call =>
    -- nothing is asked of a call whose target is not known
    refine iff_of_true rfl ?_
    intro h
    cases h
  | resolved call =>
    -- the two ways in which a resolved call is blank are the two checks
    have hiff : HasBlank (.resolved call) ↔
        call.target.HasBlank ∨ (call.declaredParams.getD []).any isBlankText = true := by
      rw [any_declaredParams_iff]
      constructor
      · intro h
        cases h with
        | target h => exact .inl h
        | declaredParam hparams hmem h => exact .inr ⟨_, hparams, _, hmem, h⟩
      · rintro (h | ⟨params, hparams, t, hmem, h⟩)
        · exact .target h
        · exact .declaredParam hparams hmem h
    rw [hiff, not_or, ← Symbol.problem?_eq_none_iff_not_hasBlank, Record.callProblem?]
    cases call.target.problem? with
    | some problem => simp
    | none => simp

end CallSite

namespace Record

/-- Some part of a record that names a method is blank. -/
inductive HasBlank (r : Record) : Prop where
  | declaration (h : r.declaration.HasBlank)
  | override {base : Symbol} (hmem : base ∈ r.overrides) (h : base.HasBlank)
  | call {site : CallSite} (hmem : site ∈ r.calls) (h : site.HasBlank)

/-- The first problem of a record, looking at the declaration, then at what it overrides, then at
    its calls. -/
inductive FirstProblem (r : Record) : Problem → Prop where
  | declaration {p : Symbol.Problem} (h : r.declaration.FirstProblem p) :
      FirstProblem r (.declaration p)
  | override {before after : List Symbol} {base : Symbol} {p : Symbol.Problem}
      (hdeclaration : ¬ r.declaration.HasBlank) (hoverrides : r.overrides = before ++ base :: after)
      (hbefore : ∀ s ∈ before, ¬ s.HasBlank) (h : base.FirstProblem p) :
      FirstProblem r (.override base p)
  | call {before after : List CallSite} {site : CallSite} {p : Problem}
      (hdeclaration : ¬ r.declaration.HasBlank) (hoverrides : ∀ s ∈ r.overrides, ¬ s.HasBlank)
      (hcalls : r.calls = before ++ site :: after) (hbefore : ∀ c ∈ before, ¬ c.HasBlank)
      (h : site.FirstProblem p) : FirstProblem r p

variable {r : Record}

/-- `Record.problem?` is the first problem of a record. -/
theorem problem?_eq_some_iff {p : Problem} : r.problem? = some p ↔ r.FirstProblem p := by
  simp only [problem?, Option.or_eq_some_iff, Option.map_eq_some_iff, Option.map_eq_none_iff,
    List.findSome?_eq_some_iff, List.findSome?_eq_none_iff, Symbol.problem?_eq_some_iff,
    Symbol.problem?_eq_none_iff_not_hasBlank, CallSite.callProblem?_eq_some_iff,
    CallSite.callProblem?_eq_none_iff]
  constructor
  -- the checks come in the order of the constructors
  · rintro (⟨p, hp, rfl⟩ | ⟨hdeclaration, hrest⟩)
    · exact .declaration hp
    rcases hrest with ⟨before, base, after, hsplit, ⟨p, hp, rfl⟩, hbefore⟩ | ⟨hoverrides, hrest⟩
    · exact .override hdeclaration hsplit hbefore hp
    · obtain ⟨before, site, after, hsplit, hp, hbefore⟩ := hrest
      exact .call hdeclaration hoverrides hsplit hbefore hp
  · intro h
    cases h with
    | declaration h => exact .inl ⟨_, h, rfl⟩
    | override hdeclaration hsplit hbefore h =>
      exact .inr ⟨hdeclaration, .inl ⟨_, _, _, hsplit, ⟨_, h, rfl⟩, hbefore⟩⟩
    | call hdeclaration hoverrides hsplit hbefore h =>
      exact .inr ⟨hdeclaration, .inr ⟨hoverrides, _, _, _, hsplit, h, hbefore⟩⟩

/-- `Record.problem?` finds nothing iff no part of the record is blank. -/
theorem problem?_eq_none_iff_not_hasBlank : r.problem? = none ↔ ¬ r.HasBlank := by
  simp only [problem?, Option.or_eq_none_iff, Option.map_eq_none_iff, List.findSome?_eq_none_iff,
    Symbol.problem?_eq_none_iff_not_hasBlank, CallSite.callProblem?_eq_none_iff]
  constructor
  · rintro ⟨hdeclaration, hoverrides, hcalls⟩ hblank
    cases hblank with
    | declaration h => exact hdeclaration h
    | override hmem h => exact hoverrides _ hmem h
    | call hmem h => exact hcalls _ hmem h
  · intro h
    exact ⟨fun hdeclaration => h (.declaration hdeclaration),
      fun base hmem hbase => h (.override hmem hbase), fun site hmem hsite => h (.call hmem hsite)⟩

instance (r : Record) : Decidable r.HasBlank :=
  decidable_of_iff (r.problem? ≠ none) <| by rw [Ne, problem?_eq_none_iff_not_hasBlank, not_not]

/-- The error of `check` names the declaration and its first problem. -/
theorem check_eq_error_iff {e : Malformed} :
    r.check = .error e ↔ ∃ p, r.FirstProblem p ∧ e = ⟨r.declaration, p⟩ := by
  simp only [check, ← problem?_eq_some_iff]
  cases r.problem? with
  | none => simp
  | some problem => simp [eq_comm]

/-- `check` accepts a record iff no part of it is blank. -/
theorem check_eq_ok_iff_not_hasBlank : r.check = .ok () ↔ ¬ r.HasBlank := by
  rw [check_eq_ok_iff, problem?_eq_none_iff_not_hasBlank]

/-- `check` refuses a record iff some part of it is blank. -/
theorem exists_check_eq_error_iff : (∃ e, r.check = .error e) ↔ r.HasBlank := by
  rw [← not_iff_not, ← check_eq_ok_iff_not_hasBlank]
  cases r.check <;> simp

end Record

/-! ## Refusals -/

namespace Build.Builder

variable {b : Builder} {r : Record} {e : Record.Malformed}

/-- `addRecord` fails with the error of `Record.check`. -/
theorem addRecord_snd (b : Builder) (r : Record) : (b.addRecord r).2 = r.check := by
  rw [addRecord]
  split
  · next e hcheck => rw [hcheck]
  · next hcheck => rw [hcheck]

/-- A record that `addRecord` refuses leaves the builder as it was. -/
theorem addRecord_fst_of_error (h : (b.addRecord r).2 = .error e) : (b.addRecord r).1 = b := by
  rw [addRecord_snd] at h
  rw [addRecord, h]

/-- `addRecord` with a blank part: the same builder, beside the error. -/
theorem addRecord_of_error (b : Builder) (h : r.check = .error e) :
    b.addRecord r = (b, .error e) := by
  have hsnd : (b.addRecord r).2 = .error e := (b.addRecord_snd r).trans h
  exact Prod.ext (addRecord_fst_of_error hsnd) hsnd

/-- `addRecord` without a blank part adds the record. -/
theorem addRecord_of_not_hasBlank (b : Builder) (h : ¬ r.HasBlank) :
    b.addRecord r = (b.add r, .ok ()) := by
  rw [addRecord, Record.check_eq_ok_iff_not_hasBlank.2 h]

/-- The builder when a record was offered to it, and taken or refused. -/
def offer (b : Builder) (r : Record) : Builder :=
  (b.addRecord r).1

/-- The builder when records were offered to it one by one. -/
def offerAll (b : Builder) (records : List Record) : Builder :=
  records.foldl offer b

/-- An `offer` that is refused changes nothing. -/
theorem offer_of_hasBlank (b : Builder) (h : r.HasBlank) : b.offer r = b := by
  obtain ⟨e, he⟩ := Record.exists_check_eq_error_iff.2 h
  rw [offer, addRecord_of_error b he]

/-- An `offer` that is taken adds the record. -/
theorem offer_of_not_hasBlank (b : Builder) (h : ¬ r.HasBlank) : b.offer r = b.add r := by
  rw [offer, addRecord_of_not_hasBlank b h]

/-- Refused records leave no trace in the run of `offerAll`. -/
theorem offerAll_eq_foldl (b : Builder) (records : List Record) :
    b.offerAll records = (records.filter (¬ ·.HasBlank)).foldl add b := by
  rw [offerAll]
  induction records generalizing b with
  | nil => rfl
  | cons r records ih =>
    -- refused, and the builder stays; or taken, and it grows
    by_cases h : r.HasBlank
    · rw [List.foldl_cons, offer_of_hasBlank b h, List.filter_cons_of_neg (by simpa using h)]
      exact ih b
    · rw [List.foldl_cons, offer_of_not_hasBlank b h, List.filter_cons_of_pos (by simpa using h)]
      exact ih (b.add r)

/-- `addRecords` takes a batch without refused records as a whole. -/
theorem addRecords_filter (b : Builder) (records : List Record) :
    b.addRecords (records.filter (¬ ·.HasBlank)) = (b.offerAll records, .ok ()) := by
  refine addRecords_eq_ok_iff.2 ⟨fun r hr => ?_, b.offerAll_eq_foldl records⟩
  exact Record.check_eq_ok_iff_not_hasBlank.2 (by simpa using (List.mem_filter.1 hr).2)

/-- `addRecords` stops at the first refused record. -/
theorem addRecords_of_error (b : Builder) {before : List Record} (after : List Record)
    (hbefore : ∀ s ∈ before, ¬ s.HasBlank) (h : r.check = .error e) :
    b.addRecords (before ++ r :: after) = (b.offerAll before, .error e) := by
  rw [offerAll]
  -- the builder grows along `before`, so that the induction is over all builders
  induction before generalizing b with
  | nil => rw [List.nil_append, addRecords, addRecord_of_error b h, List.foldl_nil]
  | cons s before ih =>
    obtain ⟨hs, hbefore⟩ := List.forall_mem_cons.1 hbefore
    rw [List.cons_append, addRecords, addRecord_of_not_hasBlank b hs, List.foldl_cons,
      offer_of_not_hasBlank b hs]
    exact ih (b.add s) hbefore

/-- `addRecord` fails exactly if the record has a blank part.  Then the builder that it passes on is
    the one that it was given, in all its parts, and the error names the first problem.  So offering
    records one by one ends in the same builder, hence the same finished graph and report, as
    offering those without a blank part, of which none is refused; and `addRecords` stops with the
    builder that the records before the first one with a blank part gave. -/
theorem refuses_atomically (b : Builder) :
    (∀ r, ((∃ e, (b.addRecord r).2 = .error e) ↔ ∃ e, r.check = .error e) ∧
        ((∃ e, r.check = .error e) ↔ r.HasBlank)) ∧
      (∀ r e, (b.addRecord r).2 = .error e →
        (b.addRecord r).1 = b ∧ ∃ p, r.FirstProblem p ∧ e = ⟨r.declaration, p⟩) ∧
      (∀ records, b.offerAll records = b.offerAll (records.filter (¬ ·.HasBlank)) ∧
        b.addRecords (records.filter (¬ ·.HasBlank)) = (b.offerAll records, .ok ())) ∧
      ∀ before r after, (∀ s ∈ before, ¬ s.HasBlank) → r.HasBlank →
        ∃ e, r.check = .error e ∧
          b.addRecords (before ++ r :: after) = (b.offerAll before, .error e) := by
  refine ⟨fun r => ⟨?_, Record.exists_check_eq_error_iff⟩,
    fun r e h => ⟨addRecord_fst_of_error h, ?_⟩,
    fun records => ⟨?_, b.addRecords_filter records⟩, fun before r after hbefore hblank => ?_⟩
  · simp only [addRecord_snd]
  · rw [addRecord_snd] at h
    exact Record.check_eq_error_iff.1 h
  -- filtering twice is filtering once
  · rw [offerAll_eq_foldl, offerAll_eq_foldl, List.filter_filter]
    simp
  · obtain ⟨e, he⟩ := Record.exists_check_eq_error_iff.2 hblank
    exact ⟨e, he, b.addRecords_of_error after hbefore he⟩

/-- A builder that leaves out one method. -/
def stepless : Builder :=
  start {} .fanOut [⟨"Step", "go", ["int"]⟩]

/-- A method that calls the one that is left out. -/
def soundRecord : Record where
  declaration := ⟨"Main", "run", []⟩
  calls := [.resolved { target := ⟨"Step", "go", ["int"]⟩ }]

/-- The declaration of the method that is left out, with a blank name among the methods it overrides
    and a blank parameter type in a call. -/
def blankRecord : Record where
  declaration := ⟨"Step", "go", ["int"]⟩
  overrides := [⟨"Base", "go", ["int"]⟩, ⟨"Root", " ", []⟩]
  calls := [.resolved { target := ⟨"Main", "run", []⟩, declaredParams := some ["int", ""] }]

/-- `addRecord` refuses the record for the blank name, which leaves no trace between two that are
    taken. -/
theorem refuses_atomically_stepless :
    (stepless.addRecord blankRecord).1 = stepless ∧
      (stepless.addRecord blankRecord).2 =
        .error ⟨blankRecord.declaration, .override ⟨"Root", " ", []⟩ .blankName⟩ ∧
      stepless.addRecords [soundRecord, soundRecord] =
        (stepless.offerAll [soundRecord, blankRecord, soundRecord], .ok ()) ∧
      stepless.addRecords [soundRecord, blankRecord, soundRecord] =
        (stepless.offerAll [soundRecord],
          .error ⟨blankRecord.declaration, .override ⟨"Root", " ", []⟩ .blankName⟩) := by
  obtain ⟨-, hrefused, hrun, hbatch⟩ := stepless.refuses_atomically
  -- the blank name comes before the blank parameter type
  have hcheck : blankRecord.check =
      .error ⟨blankRecord.declaration, .override ⟨"Root", " ", []⟩ .blankName⟩ := by
    decide +kernel
  have herror := (stepless.addRecord_snd blankRecord).trans hcheck
  have hfilter : [soundRecord, blankRecord, soundRecord].filter (¬ ·.HasBlank) =
      [soundRecord, soundRecord] := by
    decide +kernel
  have hsound : ∀ s ∈ [soundRecord], ¬ s.HasBlank := by decide +kernel
  refine ⟨(hrefused _ _ herror).1, herror, ?_, ?_⟩
  · rw [← hfilter]
    exact (hrun _).2
  · obtain ⟨e, he, hstop⟩ :=
      hbatch [soundRecord] blankRecord [soundRecord] hsound (by decide +kernel)
    rw [hcheck] at he
    cases he
    exact hstop

end Build.Builder

end CallCycle

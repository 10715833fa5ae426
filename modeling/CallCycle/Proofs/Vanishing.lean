import CallCycle.Proofs.FixedForm
import CallCycle.Proofs.Refusal

/-!
# Names that vanish

A record is refused if an owner, a name or a type is blank as it is written.  The key of a method is
made of canonical forms, and canonicalization can leave nothing of a text that is not blank: type
arguments are dropped together with all that stands behind a bracket that is never closed, and a
dotted name that ends with a dot has an empty last part.

These are all the ways in which a part of a key can be empty.

## Key results

- `eraseArguments_tightenAfter_eq_nil_iff`: dropping type arguments before and after tightening
- `finish_eq_nil_iff`: when the last steps leave nothing
- `canonicalOwner_eq_nil_iff`, `canonical_eq_nil_iff`: when nothing is left of an owner or a type
- `Builder.Derives.empty_iff`: which parts of a key are empty
-/

namespace CallCycle

namespace Descriptor

open Text

/-! ## Dropping type arguments -/

/-- A text is `Blank` iff its first character and the rest are. -/
theorem blank_cons_iff {c : Char} {cs : List Char} :
    Blank (c :: cs) ↔ isBlank c = true ∧ Blank cs :=
  List.forall_mem_cons

/-- `eraseArguments` keeps a character that is no angle bracket where no bracket is open. -/
theorem eraseArguments_cons {c : Char} (hopen : c ≠ '<') (hclose : c ≠ '>') (depth : Nat)
    (cs : List Char) : eraseArguments depth (c :: cs) =
      if depth = 0 then c :: eraseArguments depth cs else eraseArguments depth cs := by
  rw [eraseArguments, if_neg hopen, if_neg hclose]

/-- `eraseArguments` leaves nothing of a tightened text iff it leaves only blanks of the text
    itself.  A gap is kept only in front of a character that is kept where the gap is. -/
theorem eraseArguments_tightenAfter_eq_nil_iff (depth : Nat) (last : Option Char) (gap : Bool)
    (cs : List Char) :
    eraseArguments depth (tightenAfter last gap cs) = [] ↔ Blank (eraseArguments depth cs) := by
  induction cs generalizing depth last gap with
  | nil => simp [tightenAfter, eraseArguments, Blank.nil]
  | cons c cs ih =>
    -- brackets are punctuation, behind which tightening starts afresh
    by_cases hopen : c = '<'
    · subst hopen
      have hpunctuation := tightenAfter_punctuation .nil (c := '<') rfl last gap cs
      rw [List.nil_append] at hpunctuation
      rw [hpunctuation, eraseArguments, if_pos rfl, eraseArguments, if_pos rfl]
      exact ih (depth + 1) none false
    by_cases hclose : c = '>'
    · subst hclose
      have hpunctuation := tightenAfter_punctuation .nil (c := '>') rfl last gap cs
      rw [List.nil_append] at hpunctuation
      rw [hpunctuation, eraseArguments, if_neg hopen, if_pos rfl, eraseArguments, if_neg hopen,
        if_pos rfl]
      exact ih (depth - 1) none false
    rw [eraseArguments_cons hopen hclose, tightenAfter]
    -- a blank is lost on the left, and blank on the right
    by_cases hc : isBlank c = true
    · rw [if_pos hc, ih]
      split
      · rw [blank_cons_iff]
        exact ⟨fun h => ⟨hc, h⟩, And.right⟩
      · rfl
    · rw [if_neg hc]
      by_cases hdepth : depth = 0
      · -- the character stays on both sides
        rw [if_pos hdepth, blank_cons_iff]
        refine iff_of_false ?_ fun h => hc h.1
        split
        · rw [eraseArguments_cons (by decide) (by decide), if_pos hdepth]
          exact List.cons_ne_nil _ _
        · rw [eraseArguments_cons hopen hclose, if_pos hdepth]
          exact List.cons_ne_nil _ _
      · rw [if_neg hdepth]
        split
        · rw [eraseArguments_cons (by decide) (by decide), if_neg hdepth,
            eraseArguments_cons hopen hclose, if_neg hdepth]
          exact ih depth (some c) false
        · rw [eraseArguments_cons hopen hclose, if_neg hdepth]
          exact ih depth (some c) false

/-- `tightenAfter` leaves nothing of blanks only. -/
theorem tightenAfter_eq_nil_iff (last : Option Char) (gap : Bool) (cs : List Char) :
    tightenAfter last gap cs = [] ↔ Blank cs := by
  refine ⟨fun h => ?_, fun h => tightenAfter_blanks h last gap⟩
  induction cs generalizing gap with
  | nil => exact .nil
  | cons c cs ih =>
    rw [tightenAfter] at h
    split at h
    · next hc => exact blank_cons_iff.2 ⟨hc, ih true h⟩
    · split at h <;> cases h

/-- `eraseArguments` and `dotNested` can be swapped, as neither `$` nor a dot is a bracket. -/
theorem eraseArguments_dotNested (depth : Nat) (cs : List Char) :
    eraseArguments depth (dotNested cs) = dotNested (eraseArguments depth cs) := by
  induction cs generalizing depth with
  | nil => rfl
  | cons c cs ih =>
    -- `$` and the dot in its place are kept or dropped alike
    by_cases hdollar : c = '$'
    · subst hdollar
      have hdots : dotNested ('$' :: cs) = '.' :: dotNested cs := rfl
      rw [hdots, eraseArguments_cons (by decide) (by decide),
        eraseArguments_cons (by decide) (by decide), ih]
      split <;> rfl
    · have hsame : ∀ ds, dotNested (c :: ds) = c :: dotNested ds := fun ds => by
        simp [dotNested, hdollar]
      rw [hsame]
      simp only [eraseArguments, ih]
      split
      · rfl
      · split
        · rfl
        · split
          · rw [hsame]
          · rfl

/-- `eraseArguments` keeps dots at the end where it would keep the brackets of `arrayOfVariadic`. -/
theorem eraseArguments_arrayOfVariadic_eq_nil_iff (depth : Nat) (cs : List Char) :
    eraseArguments depth (arrayOfVariadic cs) = [] ↔ eraseArguments depth cs = [] := by
  rw [arrayOfVariadic]
  split
  · next element hdrop =>
    rw [dropBack?_eq_some_iff.1 hdrop]
    clear hdrop
    -- what is kept of the element type is the same on both sides, and so is the depth at its end
    induction element generalizing depth with
    | nil => by_cases hdepth : depth = 0 <;> simp [eraseArguments, hdepth]
    | cons c element ih =>
      simp only [List.cons_append, eraseArguments]
      split
      · exact ih (depth + 1)
      · split
        · exact ih (depth - 1)
        · split
          · simp
          · exact ih depth
  · rfl

/-- `arrayOfVariadic` leaves nothing of nothing only. -/
theorem arrayOfVariadic_eq_nil_iff {cs : List Char} : arrayOfVariadic cs = [] ↔ cs = [] := by
  rw [arrayOfVariadic]
  split
  · next element hdrop => simp [dropBack?_eq_some_iff.1 hdrop]
  · rfl

/-! ## Owners -/

/-- `canonicalOwner` leaves nothing of an owner iff it has only blanks beside its type arguments. -/
theorem canonicalOwner_eq_nil_iff (text : List Char) :
    canonicalOwner text = [] ↔ Blank (eraseArguments 0 text) := by
  rw [canonicalOwner, eraseArguments_dotNested, dotNested, List.map_eq_nil_iff, tighten_trim]
  exact eraseArguments_tightenAfter_eq_nil_iff 0 none false text

/-! ## Types -/

/-- A type as it is written in source, where a binary array name is decoded. -/
def sourceText (text : List Char) : List Char :=
  (ofBinaryArray? (trim text)).getD (trim text)

/-- `normalize` takes the steps for source text after decoding a binary array name. -/
theorem normalize_eq_sourceText (text : List Char) :
    normalize text = dotNested (arrayOfVariadic (tighten (sourceText text))) := rfl

/-- `sourceText` leaves something of what is not blank, as a binary array name stands for a type
    with brackets. -/
theorem not_blank_sourceText {text : List Char} (h : ¬ Blank text) : ¬ Blank (sourceText text) := by
  intro hblank
  rw [sourceText] at hblank
  cases hbinary : ofBinaryArray? (trim text) with
  | none =>
    rw [hbinary, Option.getD_none] at hblank
    have htrim : trim text = [] := by
      rw [← trim_trim, trim_eq_nil_iff, List.all_eq_true]
      exact hblank
    exact h (List.all_eq_true.1 (trim_eq_nil_iff.1 htrim))
  | some type =>
    -- there is a bracket at the end
    obtain ⟨-, front, rfl⟩ := getLast?_of_ofBinaryArray? hbinary
    rw [hbinary, Option.getD_some] at hblank
    exact absurd (hblank ']' (by simp)) (by decide)

/-- Nothing is left of a type before names are reduced iff it has only blanks beside the type
    arguments that are dropped. -/
theorem dropArguments_normalize_eq_nil_iff (rules : Rules) (text : List Char) :
    dropArguments rules (normalize text) = [] ↔ Blank (dropArguments rules (sourceText text)) := by
  rw [normalize_eq_sourceText]
  cases herase : rules.eraseGenerics with
  | true =>
    simp only [dropArguments, herase, if_true]
    rw [eraseArguments_dotNested, dotNested, List.map_eq_nil_iff,
      eraseArguments_arrayOfVariadic_eq_nil_iff]
    exact eraseArguments_tightenAfter_eq_nil_iff 0 none false _
  | false =>
    simp only [dropArguments, herase, Bool.false_eq_true, if_false]
    rw [dotNested, List.map_eq_nil_iff, arrayOfVariadic_eq_nil_iff]
    exact tightenAfter_eq_nil_iff none false _

/-- `reduceName` leaves nothing of a name only if it strips qualifiers and the name ends with a
    dot. -/
theorem reduceName_eq_nil_iff {rules : Rules} {name : List Char} :
    reduceName rules name = [] ↔
      name = [] ∨ rules.stripQualifiers = true ∧ name.getLast? = some '.' := by
  rcases List.eq_nil_or_concat' name with rfl | ⟨front, e, rfl⟩
  · simp [reduceName_nil]
  · have hcons : front ++ [e] ≠ [] := by simp
    rw [List.getLast?_concat, Option.some.injEq]
    by_cases he : e = '.'
    · subst he
      rw [reduceName]
      split
      · next hstrip => simp [simpleName, afterLast, hstrip]
      · next hstrip =>
        refine iff_of_false (fun hnil => ?_) (by simp [hstrip])
        rcases dropImplicitPackage_eq (front ++ ['.']) with heq | ⟨-, heq⟩
        · exact hcons (heq ▸ hnil)
        · -- the package alone is kept as it is
          rw [hnil, List.append_nil] at heq
          rw [heq] at hnil
          exact absurd hnil (by decide)
    · obtain ⟨out, hout⟩ := exists_reduceName_concat rules he front
      rw [hout]
      simp [he]

/-- `mapNames` leaves nothing of a text whose names are reduced iff it is empty or a name of which
    nothing is left. -/
theorem mapNames_reduceName_eq_nil_iff {rules : Rules} {cs : List Char} :
    mapNames (reduceName rules) cs = [] ↔
      cs = [] ∨ rules.stripQualifiers = true ∧ (∀ c ∈ cs, isNameChar c = true) ∧
        cs.getLast? = some '.' := by
  by_cases hname : ∀ c ∈ cs, isNameChar c = true
  -- the whole text is one run of name characters
  · have hmap : mapNames (reduceName rules) cs = reduceName rules cs := by
      have happ := mapNamesFrom_append hname (reduceName rules) [] []
      simpa [mapNames, mapNamesFrom] using happ
    rw [hmap, reduceName_eq_nil_iff, and_iff_right hname]
  · -- a character that is in no name stays
    refine iff_of_false (fun hnil => ?_) ?_
    · push Not at hname
      obtain ⟨c, hc, hother⟩ := hname
      have hmem := mem_mapNamesFrom (f := reduceName rules) (Bool.not_eq_true _ ▸ hother) [] hc
      rw [← mapNames, hnil] at hmem
      cases hmem
    · rintro (rfl | ⟨-, hall, -⟩)
      · exact hname (by simp)
      · exact hname hall

/-- `finish` leaves nothing of a text iff it is empty, or qualifiers are stripped and it is a name
    that ends with a dot. -/
theorem finish_eq_nil_iff {rules : Rules} {cs : List Char} :
    finish rules cs = [] ↔
      cs = [] ∨ rules.stripQualifiers = true ∧ (∀ c ∈ cs, isNameChar c = true) ∧
        cs.getLast? = some '.' := by
  rw [← mapNames_reduceName_eq_nil_iff]
  simp only [finish]
  split
  · cases hclass : unboxed? (mapNames (reduceName rules) cs) with
    | none => rfl
    | some keyword =>
      -- neither a boxing class nor a primitive type has an empty name
      obtain ⟨p, rfl, hbox | hbox⟩ := exists_of_unboxed? hclass <;>
        rw [hbox] <;> cases p <;> decide
  · rfl

/-- A type of which nothing is left, although it is not blank: it has only blanks beside its type
    arguments and these are dropped, or what is left without them is a name that ends with a dot and
    qualifiers are stripped. -/
def Vanishes (rules : Rules) (text : List Char) : Prop :=
  rules.eraseGenerics = true ∧ Blank (eraseArguments 0 (sourceText text)) ∨
    rules.stripQualifiers = true ∧
      (∀ c ∈ dropArguments rules (normalize text), isNameChar c = true) ∧
      (dropArguments rules (normalize text)).getLast? = some '.'

instance (rules : Rules) (text : List Char) : Decidable (Vanishes rules text) :=
  have : Decidable (Blank (eraseArguments 0 (sourceText text))) := List.decidableBAll _ _
  have : Decidable (∀ c ∈ dropArguments rules (normalize text), isNameChar c = true) :=
    List.decidableBAll _ _
  inferInstanceAs (Decidable (_ ∨ _))

/-- `canonical` leaves nothing of a type that is not blank iff it `Vanishes`. -/
theorem canonical_eq_nil_iff (rules : Rules) {text : List Char} (h : ¬ Blank text) :
    canonical rules text = [] ↔ Vanishes rules text := by
  rw [canonical_eq, finish_eq_nil_iff, dropArguments_normalize_eq_nil_iff, Vanishes]
  -- where type arguments stay, there is always something before the last steps
  refine or_congr_left ?_
  cases herase : rules.eraseGenerics with
  | true => simp [dropArguments, herase]
  | false =>
    have hblank := not_blank_sourceText h
    simp [dropArguments, herase, hblank]

end Descriptor

/-! ## Keys of records -/

namespace Build.Builder

open Text Descriptor

/-- The keys that a builder derives from a record, and the methods they are derived from: the
    declaration, what it overrides, and the targets of resolved calls with the types that identify
    them. -/
inductive Derives (b : Builder) (r : Record) : Symbol → Key → Prop where
  | declaration : Derives b r r.declaration (.ofSymbol b.rules r.declaration)
  | override {base : Symbol} (h : base ∈ r.overrides) : Derives b r base (.ofSymbol b.rules base)
  | call {call : ResolvedCall} (h : .resolved call ∈ r.calls) :
      Derives b r { call.target with types := call.signatureTypes } (b.callee call)

variable {b : Builder} {r : Record} {s : Symbol} {k : Key}

/-- The key of `Derives` is that of the method. -/
theorem Derives.ofSymbol_eq (h : b.Derives r s k) : Key.ofSymbol b.rules s = k := by
  cases h <;> rfl

/-- A method from which a key `Derives` has no blank part if the record is checked. -/
theorem Derives.not_hasBlank (h : b.Derives r s k) (hcheck : r.check = .ok ()) :
    ¬ s.HasBlank := by
  have hrecord := Record.check_eq_ok_iff_not_hasBlank.1 hcheck
  cases h with
  | declaration => exact fun hblank => hrecord (.declaration hblank)
  | override hmem => exact fun hblank => hrecord (.override hmem hblank)
  | @call call hmem =>
    intro hblank
    refine hrecord (.call hmem ?_)
    cases hblank with
    | owner h => exact .target (.owner h)
    | name h => exact .target (.name h)
    | @type t ht h =>
      -- the types are those of the declaration if the call has any, or else its own
      have ht : t ∈ call.declaredParams.getD call.target.types := ht
      cases hparams : call.declaredParams with
      | none =>
        rw [hparams] at ht
        exact .target (.type ht h)
      | some params =>
        rw [hparams] at ht
        exact .declaredParam hparams ht h

/-- A key that `Derives` from a checked record has a name.  Its owner is empty exactly if the owner
    of the method has only blanks beside its type arguments, and one of its parameter types is empty
    exactly if one of the types of the method `Vanishes`. -/
theorem Derives.empty_iff (h : b.Derives r s k) (hcheck : r.check = .ok ()) :
    k.name ≠ "" ∧ (k.owner = "" ↔ Blank (eraseArguments 0 s.owner.toList)) ∧
      ("" ∈ k.params ↔ ∃ t ∈ s.types, Vanishes b.rules t.toList) := by
  have hblank := h.not_hasBlank hcheck
  obtain rfl := h.ofSymbol_eq
  have hempty : ∀ cs : List Char, String.ofList cs = "" ↔ cs = [] := fun cs => by
    rw [← String.toList_inj, String.toList_ofList, String.toList_empty]
  refine ⟨fun hname => ?_, ?_, ?_⟩
  · have htrim : trim s.name.toList = [] := (hempty _).1 hname
    exact hblank (.name (List.all_eq_true.1 (trim_eq_nil_iff.1 htrim)))
  · exact (hempty _).trans (canonicalOwner_eq_nil_iff s.owner.toList)
  · show "" ∈ s.types.map b.rules.descriptor ↔ _
    rw [List.mem_map]
    refine exists_congr fun t => and_congr_right fun ht => ?_
    exact (hempty _).trans (canonical_eq_nil_iff b.rules fun htype => hblank (.type ht htype))

/-- A class whose name ends with `$`, as a type of a call. -/
def noneRecord : Record where
  declaration := ⟨"app.Box<T>", "put", ["List<T>..."]⟩
  calls := [.resolved { target := ⟨"app.Box", "get", []⟩, declaredParams := some ["scala.None$"] }]

/-- The type in `noneRecord` stays, but where qualifiers are stripped nothing is left of it. -/
theorem Derives.empty_iff_none :
    noneRecord.check = .ok () ∧
      ∃ call, .resolved call ∈ noneRecord.calls ∧
        "" ∉ ((start {} .fanOut []).callee call).params ∧
        "" ∈ ((start { stripQualifiers := true } .fanOut []).callee call).params := by
  have hcheck : noneRecord.check = .ok () := by decide +kernel
  refine ⟨hcheck, _, List.mem_cons_self, ?_, ?_⟩
  · have hderives : (start {} .fanOut []).Derives noneRecord _ _ := .call List.mem_cons_self
    rw [(hderives.empty_iff hcheck).2.2]
    decide +kernel
  · have hderives : (start { stripQualifiers := true } .fanOut []).Derives noneRecord _ _ :=
      .call List.mem_cons_self
    rw [(hderives.empty_iff hcheck).2.2]
    decide +kernel

/-- A key that `Derives` from a checked record need not be without empty parts.  A type made of type
    arguments only leaves an empty parameter type, and the key looks like that of a method without
    parameters; an owner made of type arguments only leaves an empty owner. -/
theorem not_forall_derives_ne_empty :
    (¬ ∀ (b : Builder) (r : Record) (s : Symbol) (k : Key), r.check = .ok () → b.Derives r s k →
      k.owner ≠ "" ∧ k.name ≠ "" ∧ "" ∉ k.params) ∧
    Record.check { declaration := ⟨"app.A", "f", ["<T>"]⟩ } = .ok () ∧
    Key.ofSymbol {} ⟨"app.A", "f", ["<T>"]⟩ = ⟨"app.A", "f", [""]⟩ ∧
    Key.display ⟨"app.A", "f", [""]⟩ = Key.display ⟨"app.A", "f", []⟩ ∧
    Record.check { declaration := ⟨"<T>", "f", []⟩ } = .ok () ∧
    Key.ofSymbol {} ⟨"<T>", "f", []⟩ = ⟨"", "f", []⟩ := by
  have hcheck : Record.check { declaration := ⟨"app.A", "f", ["<T>"]⟩ } = .ok () := by
    decide +kernel
  have hkey : Key.ofSymbol {} ⟨"app.A", "f", ["<T>"]⟩ = ⟨"app.A", "f", [""]⟩ := by decide +kernel
  refine ⟨fun h => ?_, hcheck, hkey, by decide +kernel, by decide +kernel, by decide +kernel⟩
  have hparams := (h (start {} .fanOut []) _ _ _ hcheck .declaration).2.2
  exact hparams (by decide +kernel)

end Build.Builder

end CallCycle

import CallCycle.Proofs.Coarsening
import CallCycle.Proofs.TightText

/-!
# Canonical forms that are canonical

A canonical form is read again where a key is given as a text.  It need not stay the same then: the
steps are taken once and in a fixed order, and a later step can leave a text that an earlier one
would change.  Writing `.` for `$` can bring blanks next to a dot, or three dots to the end, and so
can dropping type arguments and qualifiers; where blanks are dropped after `[`, a binary array name
comes out.

These are all the ways in which a canonical form can fail to be canonical.

## Key results

- `Reduced.canonical_eq_self`: a settled text that has nothing left to drop is canonical
- `Reduced.settled`: such a text is settled if it is its own canonical form
- `canonical_canonical_iff`, `canonicalOwner_canonicalOwner_iff`: which canonical forms stay
- `canonicalized_ofSymbol_iff`: which keys stay
-/

namespace CallCycle

namespace Descriptor

open Text
open scoped List

/-- A descriptor that is read as it stands: it is tight, and neither a binary array name nor a
    variable number of arguments. -/
structure Settled (text : List Char) : Prop where
  tight : IsTight text
  notBinary : ofBinaryArray? text = none
  notVariadic : ¬ ['.', '.', '.'] <:+ text

/-- `Settled` as a conjunction, each part of which can be decided. -/
theorem settled_iff {text : List Char} :
    Settled text ↔ IsTight text ∧ ofBinaryArray? text = none ∧ ¬ ['.', '.', '.'] <:+ text :=
  ⟨fun h => ⟨h.tight, h.notBinary, h.notVariadic⟩, fun h => ⟨h.1, h.2.1, h.2.2⟩⟩

instance (text : List Char) : Decidable (Settled text) :=
  decidable_of_iff' _ settled_iff

/-! ## What the steps leave -/

/-- `tightenAfter` writes no character that was not there, but for spaces. -/
theorem mem_tightenAfter {last : Option Char} {gap : Bool} {cs : List Char} {c : Char}
    (h : c ∈ tightenAfter last gap cs) : c = ' ' ∨ c ∈ cs := by
  induction cs generalizing last gap with
  | nil => simp [tightenAfter] at h
  | cons d cs ih =>
    -- a blank is passed, and another character is written with or without a space
    rw [tightenAfter] at h
    split at h
    · exact (ih h).imp_right (List.mem_cons_of_mem d)
    · split at h
      · rcases List.mem_cons.1 h with rfl | h
        · exact .inl rfl
        · rcases List.mem_cons.1 h with rfl | h
          · exact .inr List.mem_cons_self
          · exact (ih h).imp_right (List.mem_cons_of_mem d)
      · rcases List.mem_cons.1 h with rfl | h
        · exact .inr List.mem_cons_self
        · exact (ih h).imp_right (List.mem_cons_of_mem d)

/-- Where all blanks are spaces, `tightenAfter` only drops some of them. -/
theorem tightenAfter_sublist (last : Option Char) (gap : Bool) {cs : List Char}
    (h : ∀ c ∈ cs, isBlank c = true → c = ' ') :
    tightenAfter last gap cs <+ if gap then ' ' :: cs else cs := by
  induction cs generalizing last gap with
  | nil => simp [tightenAfter]
  | cons c cs ih =>
    have hcs : ∀ d ∈ cs, isBlank d = true → d = ' ' :=
      fun d hd => h d (List.mem_cons_of_mem c hd)
    rw [tightenAfter]
    split
    · -- the space that is written for a gap is one of the blanks that were passed
      next hc =>
      have hspace : c = ' ' := h c List.mem_cons_self hc
      have hrest : tightenAfter last true cs <+ ' ' :: cs := ih last true hcs
      cases gap with
      | false => simpa [hspace] using hrest
      | true => simpa [hspace] using hrest.cons ' '
    · have hrest : tightenAfter (some c) false cs <+ cs := ih (some c) false hcs
      split
      · next hgap =>
        rw [Bool.and_eq_true] at hgap
        rw [if_pos hgap.1]
        exact (hrest.cons_cons c).cons_cons ' '
      · cases gap with
        | false => exact hrest.cons_cons c
        | true => exact (hrest.cons_cons c).cons ' '

/-- `arrayOfVariadic` leaves a text that does not end with three dots. -/
theorem arrayOfVariadic_of_not_suffix {cs : List Char} (h : ¬ ['.', '.', '.'] <:+ cs) :
    arrayOfVariadic cs = cs := by
  rw [arrayOfVariadic]
  split
  · next element hdrop =>
    exact absurd ⟨element, (dropBack?_eq_some_iff.1 hdrop).symm⟩ h
  · rfl

/-- `arrayOfVariadic` makes a text that ends with three dots shorter. -/
theorem length_arrayOfVariadic_of_suffix {cs : List Char} (h : ['.', '.', '.'] <:+ cs) :
    (arrayOfVariadic cs).length < cs.length := by
  obtain ⟨element, rfl⟩ := h
  rw [arrayOfVariadic_dots]
  simp

/-- `dotNested` leaves no `$`. -/
theorem dollar_notMem_dotNested (cs : List Char) : '$' ∉ dotNested cs := by
  intro hmem
  obtain ⟨c, -, hc⟩ := List.mem_map.1 hmem
  split at hc
  · cases hc
  · next hne => exact hne hc

/-- `dotNested` leaves a text without `$`. -/
theorem dotNested_eq_self {cs : List Char} (h : '$' ∉ cs) : dotNested cs = cs := by
  rw [dotNested, List.map_congr_left (g := id), List.map_id]
  intro c hc
  refine if_neg ?_
  rintro rfl
  exact h hc

/-- `dotNested` writes no character that was not there, but for dots. -/
theorem mem_of_mem_dotNested {cs : List Char} {c : Char} (h : c ∈ dotNested cs) :
    c = '.' ∨ c ∈ cs := by
  obtain ⟨d, hd, hc⟩ := List.mem_map.1 h
  split at hc
  · exact .inl hc.symm
  · exact .inr (hc ▸ hd)

/-- `eraseArguments` only drops characters. -/
theorem eraseArguments_sublist (depth : Nat) (cs : List Char) : eraseArguments depth cs <+ cs := by
  induction cs generalizing depth with
  | nil => exact .slnil
  | cons c cs ih =>
    rw [eraseArguments]
    split
    · exact (ih _).cons c
    · split
      · exact (ih _).cons c
      · split
        · exact (ih _).cons_cons c
        · exact (ih _).cons c

/-- `eraseArguments` leaves a text without angle brackets. -/
theorem eraseArguments_eq_self {cs : List Char} (hopen : '<' ∉ cs) (hclose : '>' ∉ cs) :
    eraseArguments 0 cs = cs := by
  induction cs with
  | nil => rfl
  | cons c cs ih =>
    rw [List.mem_cons, not_or] at hopen hclose
    rw [eraseArguments, if_neg (Ne.symm hopen.1), if_neg (Ne.symm hclose.1), if_pos rfl,
      ih hopen.2 hclose.2]

/-- `eraseArguments` leaves no angle brackets. -/
theorem notMem_eraseArguments (depth : Nat) (cs : List Char) :
    '<' ∉ eraseArguments depth cs ∧ '>' ∉ eraseArguments depth cs := by
  induction cs generalizing depth with
  | nil => simp [eraseArguments]
  | cons c cs ih =>
    rw [eraseArguments]
    split
    · exact ih _
    · next hopen =>
      split
      · exact ih _
      · next hclose =>
        split
        · simp [Ne.symm hopen, Ne.symm hclose, ih]
        · exact ih _

/-- `reduceName` only drops characters. -/
theorem reduceName_sublist (rules : Rules) (name : List Char) : reduceName rules name <+ name := by
  rw [reduceName]
  split
  -- the simple name is an end of the name
  · rw [simpleName, afterLast, ← List.reverse_sublist, List.reverse_reverse]
    exact List.takeWhile_sublist _
  · rcases dropImplicitPackage_eq name with heq | ⟨-, heq⟩
    · rw [heq]
    · conv => rhs; rw [heq]
      exact List.sublist_append_right _ _

/-- `mapNamesFrom` only drops characters if `f` does so. -/
theorem mapNamesFrom_sublist {f : List Char → List Char} (hf : ∀ name, f name <+ name)
    (run cs : List Char) : mapNamesFrom f run cs <+ run.reverse ++ cs := by
  induction cs generalizing run with
  | nil => simpa [mapNamesFrom] using hf run.reverse
  | cons c cs ih =>
    rw [mapNamesFrom]
    split
    · simpa using ih (c :: run)
    · exact (hf run.reverse).append ((ih []).cons_cons c)

/-- Reducing the names of a text only drops characters. -/
theorem mapNames_sublist (rules : Rules) (cs : List Char) :
    mapNames (reduceName rules) cs <+ cs :=
  mapNamesFrom_sublist (reduceName_sublist rules) [] cs

/-! ## The last character -/

/-- `tightenAfter` leaves a last character that is not blank. -/
theorem exists_tightenAfter_concat {e : Char} (he : isBlank e = false) (last : Option Char)
    (gap : Bool) (cs : List Char) : ∃ front, tightenAfter last gap (cs ++ [e]) = front ++ [e] := by
  induction cs generalizing last gap with
  | nil =>
    simp only [List.nil_append, tightenAfter, he, Bool.false_eq_true, if_false]
    split
    · exact ⟨[' '], rfl⟩
    · exact ⟨[], rfl⟩
  | cons c cs ih =>
    rw [List.cons_append, tightenAfter]
    split
    · exact ih last true
    · obtain ⟨front, hfront⟩ := ih (some c) false
      rw [hfront]
      split
      · exact ⟨' ' :: c :: front, rfl⟩
      · exact ⟨c :: front, rfl⟩

/-- `trim` leaves a last character that is not blank. -/
theorem exists_trim_concat {e : Char} (he : isBlank e = false) (cs : List Char) :
    ∃ front, trim (cs ++ [e]) = front ++ [e] := by
  -- what is dropped in front does not reach the last character
  have hstart : ∃ front, trimStart (cs ++ [e]) = front ++ [e] := by
    rw [trimStart, List.dropWhile_append]
    split
    · exact ⟨[], by simp [he]⟩
    · exact ⟨_, rfl⟩
  obtain ⟨front, hfront⟩ := hstart
  exact ⟨front, by rw [trim, hfront, trimEnd_concat he]⟩

/-- `reduceName` makes no name of nothing. -/
theorem reduceName_nil (rules : Rules) : reduceName rules [] = [] :=
  List.sublist_nil.1 (reduceName_sublist rules [])

/-- `reduceName` leaves the last character of a name that does not end with a dot. -/
theorem exists_reduceName_concat (rules : Rules) {e : Char} (he : e ≠ '.') (name : List Char) :
    ∃ front, reduceName rules (name ++ [e]) = front ++ [e] := by
  rw [reduceName]
  split
  -- the simple name is what is taken from the end
  · refine ⟨(name.reverse.takeWhile (· ≠ '.')).reverse, ?_⟩
    rw [simpleName, afterLast, List.reverse_append, List.reverse_singleton, List.singleton_append,
      List.takeWhile_cons_of_pos (by simpa using he), List.reverse_cons]
  · rcases dropImplicitPackage_eq (name ++ [e]) with heq | ⟨-, heq⟩
    · exact ⟨name, heq⟩
    · rcases List.eq_nil_or_concat' (dropImplicitPackage (name ++ [e])) with hnil | ⟨front, d, hd⟩
      · -- the package alone ends with a dot
        rw [hnil, List.append_nil] at heq
        have hlast : some e = some '.' := by
          rw [← List.getLast?_concat (l := name), heq]
          rfl
        exact absurd (Option.some.inj hlast) he
      · rw [hd, ← List.append_assoc] at heq
        obtain ⟨-, hed⟩ := List.append_inj' heq rfl
        exact ⟨front, by rw [hd, hed]⟩

/-- `mapNamesFrom` leaves the last character of a text that does not end with a dot, when it reduces
    names. -/
theorem exists_mapNamesFrom_concat (rules : Rules) {e : Char} (he : e ≠ '.') (run cs : List Char) :
    ∃ front, mapNamesFrom (reduceName rules) run (cs ++ [e]) = front ++ [e] := by
  induction cs generalizing run with
  | nil =>
    by_cases hname : isNameChar e = true
    · simpa [mapNamesFrom, hname] using exists_reduceName_concat rules he run.reverse
    · exact ⟨reduceName rules run.reverse, by simp [mapNamesFrom, hname, reduceName_nil]⟩
  | cons c cs ih =>
    rw [List.cons_append, mapNamesFrom]
    split
    · exact ih (c :: run)
    · obtain ⟨front, hfront⟩ := ih []
      exact ⟨reduceName rules run.reverse ++ c :: front, by rw [hfront]; simp⟩

/-- The name of a boxing class is made of name characters. -/
theorem isNameChar_of_mem_box (p : Primitive) : ∀ c ∈ p.box.toList, isNameChar c = true :=
  List.all_eq_true.1 (by cases p <;> decide)

/-- `unboxed?` knows names only. -/
theorem unboxed?_eq_none {text : List Char} {c : Char} (h : c ∈ text) (hc : isNameChar c = false) :
    unboxed? text = none := by
  cases hclass : unboxed? text with
  | none => rfl
  | some keyword =>
    have hpackage : ∀ d ∈ implicitPackage, isNameChar d = true :=
      List.all_eq_true.1 (by decide)
    have hname : isNameChar c = true := by
      obtain ⟨p, -, rfl | rfl⟩ := exists_of_unboxed? hclass
      · exact isNameChar_of_mem_box p c h
      · rcases List.mem_append.1 h with h | h
        · exact hpackage c h
        · exact isNameChar_of_mem_box p c h
    rw [hc] at hname
    cases hname

/-- `mapNamesFrom` keeps the characters between names. -/
theorem mem_mapNamesFrom {f : List Char → List Char} {c : Char} (hc : isNameChar c = false)
    (run : List Char) {cs : List Char} (h : c ∈ cs) : c ∈ mapNamesFrom f run cs := by
  induction cs generalizing run with
  | nil => cases h
  | cons d cs ih =>
    rw [mapNamesFrom]
    split
    · next hd =>
      -- `d` belongs to a name, so it is not the one that is looked for
      have hne : c ≠ d := by
        rintro rfl
        rw [hc] at hd
        cases hd
      exact ih (d :: run) ((List.mem_cons.1 h).resolve_left hne)
    · rcases List.mem_cons.1 h with rfl | h
      · simp
      · exact List.mem_append_right _ (List.mem_cons_of_mem _ (ih [] h))

/-- `finish` only reduces names in a text that is more than a name. -/
theorem finish_eq_mapNames (rules : Rules) {cs : List Char} {c : Char} (h : c ∈ cs)
    (hc : isNameChar c = false) : finish rules cs = mapNames (reduceName rules) cs := by
  have hmem : c ∈ mapNames (reduceName rules) cs := mem_mapNamesFrom hc [] h
  simp [finish, unboxed?_eq_none hmem hc]

/-! ## Binary array names -/

/-- `ofBinaryElement?` reads a letter, or a class name between `L` and `;`. -/
theorem exists_of_ofBinaryElement? {element base : List Char}
    (h : ofBinaryElement? element = some base) :
    (∃ p : Primitive, element = [p.letter] ∧ base = p.keyword.toList) ∨
      ∃ name, element = 'L' :: name ++ [';'] ∧
        base = name.map fun c => if c = '/' then '.' else c := by
  unfold ofBinaryElement? at h
  split at h
  · next c =>
    obtain ⟨p, hp, rfl⟩ := Option.map_eq_some_iff.1 h
    have hletter : p.letter = c := by simpa using List.find?_some hp
    exact .inl ⟨p, by rw [hletter], rfl⟩
  · simp only [Option.bind_eq_bind, Option.bind_eq_some_iff] at h
    obtain ⟨rest, hrest, name, hname, h⟩ := h
    split at h
    · cases h
    · cases h
      refine .inr ⟨name, ?_, rfl⟩
      rw [dropFront?_eq_some_iff.1 hrest, dropBack?_eq_some_iff.1 hname]
      rfl

/-- `ofBinaryArray?` reads an element type behind opening brackets. -/
theorem exists_of_ofBinaryArray? {text type : List Char} (h : ofBinaryArray? text = some type) :
    ∃ k element base, 0 < k ∧ text = List.replicate k '[' ++ element ∧
      ofBinaryElement? element = some base ∧ type = base ++ brackets k := by
  rw [ofBinaryArray?] at h
  split at h
  · cases h
  · next hpos =>
    obtain ⟨base, hbase, rfl⟩ := Option.map_eq_some_iff.1 h
    refine ⟨_, _, base, Nat.pos_of_ne_zero hpos, ?_, hbase, rfl⟩
    -- the characters that were counted are brackets
    have htake : text.takeWhile (· = '[') =
        List.replicate (text.takeWhile (· = '[')).length '[' := by
      refine List.eq_replicate_iff.2 ⟨rfl, fun c hc => ?_⟩
      simpa using List.all_eq_true.1 List.all_takeWhile c hc
    rw [← htake, List.takeWhile_append_dropWhile]

/-- A binary array name does not end as the type does that it stands for. -/
theorem getLast?_of_ofBinaryArray? {text type : List Char} (h : ofBinaryArray? text = some type) :
    text.getLast? ≠ some ']' ∧ ∃ front, type = front ++ [']'] := by
  obtain ⟨k, element, base, hk, rfl, hbase, rfl⟩ := exists_of_ofBinaryArray? h
  constructor
  · rcases exists_of_ofBinaryElement? hbase with ⟨p, rfl, -⟩ | ⟨name, rfl, -⟩
    · rw [List.getLast?_concat]
      cases p <;> decide
    · rw [← List.append_assoc, List.getLast?_concat]
      decide
  · obtain ⟨j, rfl⟩ := Nat.exists_eq_add_one_of_ne_zero (Nat.ne_of_gt hk)
    refine ⟨base ++ (brackets j ++ ['[']), ?_⟩
    simp [brackets, List.replicate_succ']

/-- The type that a binary array name stands for has no angle bracket that the name does not
    have. -/
theorem mem_of_mem_ofBinaryArray? {text type : List Char} (h : ofBinaryArray? text = some type)
    {c : Char} (hc : c ∈ type) (hangle : c = '<' ∨ c = '>') : c ∈ text := by
  obtain ⟨k, element, base, -, rfl, hbase, rfl⟩ := exists_of_ofBinaryArray? h
  have hmem : c ∈ base := by
    refine (List.mem_append.1 hc).resolve_right fun hbracket => ?_
    rcases eq_of_mem_brackets hbracket with rfl | rfl <;> simp at hangle
  rcases exists_of_ofBinaryElement? hbase with ⟨p, -, rfl⟩ | ⟨name, rfl, rfl⟩
  · have hkeyword : '<' ∉ p.keyword.toList ∧ '>' ∉ p.keyword.toList := by cases p <;> decide
    rcases hangle with rfl | rfl
    · exact absurd hmem hkeyword.1
    · exact absurd hmem hkeyword.2
  · obtain ⟨d, hd, hdc⟩ := List.mem_map.1 hmem
    split at hdc
    · rcases hangle with rfl | rfl <;> simp at hdc
    · subst hdc
      simp [hd]

/-! ## The last steps -/

/-- `finish` only drops characters, or gives a primitive type for a boxing class, whose name is
    longer. -/
theorem finish_cases (rules : Rules) (cs : List Char) :
    finish rules cs <+ cs ∨
      ∃ p : Primitive, finish rules cs = p.keyword.toList ∧ p.keyword.length ≤ cs.length := by
  have hsub := mapNames_sublist rules cs
  rw [finish]
  split
  · cases hclass : unboxed? (mapNames (reduceName rules) cs) with
    | none => exact .inl hsub
    | some keyword =>
      obtain ⟨p, rfl, hbox⟩ := exists_of_unboxed? hclass
      refine .inr ⟨p, rfl, Nat.le_trans ?_ hsub.length_le⟩
      -- no keyword is longer than the name of its class
      have hlength : p.keyword.length ≤ p.box.toList.length := by cases p <;> decide
      rcases hbox with hbox | hbox
      · rw [hbox]
        exact hlength
      · rw [hbox, List.length_append]
        omega
  · exact .inl hsub

/-- `finish` does not make a text longer. -/
theorem length_finish_le (rules : Rules) (cs : List Char) :
    (finish rules cs).length ≤ cs.length := by
  rcases finish_cases rules cs with hsub | ⟨p, hp, hlength⟩
  · exact hsub.length_le
  · rw [hp, String.length_toList]
    exact hlength

/-- The keyword of a primitive type is made of segment characters. -/
theorem isSegmentChar_of_mem_keyword (p : Primitive) :
    ∀ c ∈ p.keyword.toList, isSegmentChar c = true :=
  List.all_eq_true.1 (by cases p <;> decide)

/-- `finish` writes no character that was not there, but for those of primitive types. -/
theorem mem_of_mem_finish {rules : Rules} {cs : List Char} {c : Char} (h : c ∈ finish rules cs)
    (hc : isSegmentChar c = false) : c ∈ cs := by
  rcases finish_cases rules cs with hsub | ⟨p, hp, -⟩
  · exact hsub.subset h
  · rw [hp] at h
    rw [isSegmentChar_of_mem_keyword p c h] at hc
    cases hc

/-- Drops type arguments, if the rules say so. -/
def dropArguments (rules : Rules) (text : List Char) : List Char :=
  if rules.eraseGenerics then eraseArguments 0 text else text

/-- `canonical` in three steps. -/
theorem canonical_eq (rules : Rules) (text : List Char) :
    canonical rules text = finish rules (dropArguments rules (normalize text)) := rfl

/-- `dropArguments` only drops characters. -/
theorem dropArguments_sublist (rules : Rules) (cs : List Char) : dropArguments rules cs <+ cs := by
  rw [dropArguments]
  split
  · exact eraseArguments_sublist 0 cs
  · exact .refl cs

/-- `dropArguments` leaves a text without angle brackets, or every text if the rules say so. -/
theorem dropArguments_eq_self {rules : Rules} {cs : List Char}
    (h : rules.eraseGenerics = true → '<' ∉ cs ∧ '>' ∉ cs) : dropArguments rules cs = cs := by
  rw [dropArguments]
  split
  · next herase => exact eraseArguments_eq_self (h herase).1 (h herase).2
  · rfl

/-- `normalize` of a text that is no binary array name only takes the steps for source text. -/
theorem normalize_eq {text : List Char} (h : ofBinaryArray? (trim text) = none) :
    normalize text = dotNested (arrayOfVariadic (tighten text)) := by
  simp only [normalize, h, Option.getD_none, tighten_trim]

/-! ## Texts that are read again -/

/-- A text in which nothing is left to drop: nested types have dots, there are no type arguments if
    the rules drop them, names are reduced and boxing classes replaced. -/
structure Reduced (rules : Rules) (text : List Char) : Prop where
  spaces : ∀ c ∈ text, isBlank c = true → c = ' '
  dollar : '$' ∉ text
  angles : rules.eraseGenerics = true → '<' ∉ text ∧ '>' ∉ text
  finish_eq : finish rules text = text

/-- `arrayOfVariadic` writes no character that was not there, but for brackets. -/
theorem mem_arrayOfVariadic {cs : List Char} {c : Char} (h : c ∈ arrayOfVariadic cs) :
    c ∈ cs ∨ c = '[' ∨ c = ']' := by
  rw [arrayOfVariadic] at h
  split at h
  · next element hdrop =>
    rw [dropBack?_eq_some_iff.1 hdrop]
    rcases List.mem_append.1 h with h | h
    · exact .inl (List.mem_append_left _ h)
    · simpa using Or.inr h
  · exact .inl h

/-- `normalize` writes no character that was not there, but for spaces, dots and brackets. -/
theorem mem_of_mem_normalize {text : List Char} {c : Char} (h : c ∈ normalize text) :
    c ∈ (ofBinaryArray? (trim text)).getD (trim text) ∨ c ∈ [' ', '.', '[', ']'] := by
  rcases mem_of_mem_dotNested h with rfl | h
  · exact .inr (by decide)
  rcases mem_arrayOfVariadic h with h | rfl | rfl
  · rcases mem_tightenAfter h with rfl | h
    · exact .inr (by decide)
    · exact .inl h
  · exact .inr (by decide)
  · exact .inr (by decide)

/-- `normalize` leaves no blanks but spaces. -/
theorem spaces_normalize (text : List Char) :
    ∀ c ∈ normalize text, isBlank c = true → c = ' ' := by
  intro c hc hblank
  rcases mem_of_mem_dotNested hc with rfl | hc
  · exact absurd hblank (by decide)
  · rcases mem_arrayOfVariadic hc with hc | rfl | rfl
    · exact (isTight_tighten _).spaces c hc hblank
    · exact absurd hblank (by decide)
    · exact absurd hblank (by decide)

/-- `canonical` leaves nothing to drop. -/
theorem reduced_canonical (rules : Rules) (text : List Char) :
    Reduced rules (canonical rules text) := by
  -- what is not part of a keyword was there before the last steps
  have hmem : ∀ {c}, c ∈ canonical rules text → isSegmentChar c = false →
      c ∈ dropArguments rules (normalize text) := fun hc => mem_of_mem_finish hc
  have hsub := dropArguments_sublist rules (normalize text)
  refine ⟨fun c hc hblank => ?_, fun hdollar => ?_, fun herase => ?_, ?_⟩
  · have hsegment : isSegmentChar c = false := by simp [isSegmentChar, hblank]
    exact spaces_normalize text c (hsub.subset (hmem hc hsegment)) hblank
  · exact dollar_notMem_dotNested _ (hsub.subset (hmem hdollar (by decide)))
  · obtain ⟨hopen, hclose⟩ := notMem_eraseArguments 0 (normalize text)
    rw [dropArguments, if_pos herase] at hmem
    exact ⟨fun h => hopen (hmem h (by decide)), fun h => hclose (hmem h (by decide))⟩
  · exact finish_finish ⟨rfl, id, id⟩ _

namespace Reduced

variable {rules : Rules} {text : List Char}

/-- `canonical` leaves a settled text in which nothing is left to drop. -/
theorem canonical_eq_self (h : Reduced rules text) (hsettled : Settled text) :
    canonical rules text = text := by
  -- no step before the last ones has anything to do
  have hnormalize : normalize text = text := by
    simp only [normalize, hsettled.tight.trimmed.trim_eq, hsettled.notBinary, Option.getD_none,
      hsettled.tight.tighten_eq, arrayOfVariadic_of_not_suffix hsettled.notVariadic]
    exact dotNested_eq_self h.dollar
  rw [canonical_eq, hnormalize, dropArguments_eq_self h.angles, h.finish_eq]

/-- A binary array name is not its own canonical form, which ends with a bracket. -/
theorem ofBinaryArray?_eq_none (h : Reduced rules text) (heq : canonical rules text = text) :
    ofBinaryArray? (trim text) = none := by
  cases hbinary : ofBinaryArray? (trim text) with
  | none => rfl
  | some type =>
    obtain ⟨hlast, front, rfl⟩ := getLast?_of_ofBinaryArray? hbinary
    obtain ⟨tight, htight⟩ := exists_tightenAfter_concat (e := ']') (by decide) none false front
    have hnormalize : normalize text = dotNested tight ++ [']'] := by
      have hvariadic : arrayOfVariadic (tight ++ [']']) = tight ++ [']'] :=
        arrayOfVariadic_of_getLast? List.getLast?_concat (by decide)
      simp only [normalize, hbinary, Option.getD_some, tighten, htight, hvariadic, dotNested_append]
      rfl
    -- there are no angle brackets, so that dropping type arguments does not reach the end
    have hangle : ∀ c, c = '<' ∨ c = '>' → c ∉ text → c ∉ normalize text := by
      intro c hc hnot hmem
      have hmark : c ∉ [' ', '.', '[', ']'] := by rcases hc with rfl | rfl <;> decide
      have htype := (mem_of_mem_normalize hmem).resolve_right hmark
      rw [hbinary, Option.getD_some] at htype
      exact hnot (mem_of_mem_trim (mem_of_mem_ofBinaryArray? hbinary htype hc))
    have hdrop : dropArguments rules (normalize text) = dotNested tight ++ [']'] := by
      rw [dropArguments_eq_self fun herase => ⟨hangle '<' (.inl rfl) (h.angles herase).1,
        hangle '>' (.inr rfl) (h.angles herase).2⟩, hnormalize]
    -- the bracket at the end is left by the last steps, but the name does not end with one
    obtain ⟨out, hout⟩ := exists_mapNamesFrom_concat rules (e := ']') (by decide) []
      (dotNested tight)
    rw [canonical_eq, hdrop, finish_eq_mapNames rules (c := ']') (by simp) (by decide), mapNames,
      hout] at heq
    obtain ⟨out', htrim⟩ := exists_trim_concat (e := ']') (by decide) out
    rw [heq] at htrim
    rw [htrim, List.getLast?_concat] at hlast
    exact absurd rfl hlast

/-- A text in which nothing is left to drop is `Settled` if it is its own canonical form. -/
theorem settled (h : Reduced rules text) (heq : canonical rules text = text) : Settled text := by
  have hbinary := h.ofBinaryArray?_eq_none heq
  have hnormalize := normalize_eq hbinary
  have hsub : tighten text <+ text := tightenAfter_sublist none false h.spaces
  -- no step makes the text longer, so that none of them makes it shorter
  have hlength : text.length ≤ (arrayOfVariadic (tighten text)).length := by
    calc text.length = (finish rules (dropArguments rules (normalize text))).length := by
          rw [← canonical_eq, heq]
      _ ≤ (dropArguments rules (normalize text)).length := length_finish_le rules _
      _ ≤ (normalize text).length := (dropArguments_sublist rules _).length_le
      _ = (arrayOfVariadic (tighten text)).length := by rw [hnormalize, dotNested, List.length_map]
  -- three dots would become two brackets
  have hvariadic : ¬ ['.', '.', '.'] <:+ tighten text := by
    intro hdots
    have hlt := length_arrayOfVariadic_of_suffix hdots
    have hle := hsub.length_le
    omega
  rw [arrayOfVariadic_of_not_suffix hvariadic] at hlength
  -- neither has tightening dropped anything
  have htight : tighten text = text := hsub.eq_of_length_le hlength
  have htext : IsTight text := tighten_eq_self_iff.1 htight
  rw [htight] at hvariadic
  rw [htext.trimmed.trim_eq] at hbinary
  exact ⟨htext, hbinary, hvariadic⟩

end Reduced

/-- `canonical` leaves a canonical form iff it is settled. -/
theorem canonical_canonical_iff (rules : Rules) (text : List Char) :
    canonical rules (canonical rules text) = canonical rules text ↔
      Settled (canonical rules text) :=
  ⟨(reduced_canonical rules text).settled, (reduced_canonical rules text).canonical_eq_self⟩

/-! ## Owners -/

/-- `canonicalOwner` leaves the canonical form of an owner iff it is tight. -/
theorem canonicalOwner_canonicalOwner_iff (text : List Char) :
    canonicalOwner (canonicalOwner text) = canonicalOwner text ↔ IsTight (canonicalOwner text) := by
  -- the steps have left neither `$` nor blanks other than spaces
  have hdollar : '$' ∉ canonicalOwner text := fun hmem =>
    dollar_notMem_dotNested _ ((eraseArguments_sublist 0 _).subset hmem)
  have hspaces : ∀ c ∈ canonicalOwner text, isBlank c = true → c = ' ' := by
    intro c hc hblank
    rcases mem_of_mem_dotNested ((eraseArguments_sublist 0 _).subset hc) with rfl | hc
    · exact absurd hblank (by decide)
    · exact (isTight_tighten _).spaces c hc hblank
  constructor
  · -- as for types, no step makes the text longer
    intro heq
    have hsub : tighten (canonicalOwner text) <+ canonicalOwner text :=
      tightenAfter_sublist none false hspaces
    have hlength : (canonicalOwner text).length ≤ (tighten (canonicalOwner text)).length := by
      calc (canonicalOwner text).length = (canonicalOwner (canonicalOwner text)).length := by
            rw [heq]
        _ ≤ (dotNested (tighten (trim (canonicalOwner text)))).length :=
            (eraseArguments_sublist 0 _).length_le
        _ = (tighten (canonicalOwner text)).length := by
            rw [dotNested, List.length_map, tighten_trim]
    exact tighten_eq_self_iff.1 (hsub.eq_of_length_le hlength)
  · intro htight
    obtain ⟨hopen, hclose⟩ := notMem_eraseArguments 0 (dotNested (tighten (trim text)))
    rw [canonicalOwner, tighten_trim, htight.tighten_eq, dotNested_eq_self hdollar]
    exact eraseArguments_eq_self hopen hclose

end Descriptor

namespace Key

open Descriptor

/-- `Rules.owner` leaves what it gave iff that is tight. -/
theorem owner_owner_iff (rules : Rules) (text : String) :
    rules.owner (rules.owner text) = rules.owner text ↔ IsTight (rules.owner text).toList := by
  simp only [Rules.owner, String.toList_ofList, String.ofList_inj]
  exact canonicalOwner_canonicalOwner_iff text.toList

/-- `Rules.descriptor` leaves what it gave iff that is settled. -/
theorem descriptor_descriptor_iff (rules : Rules) (text : String) :
    rules.descriptor (rules.descriptor text) = rules.descriptor text ↔
      Settled (rules.descriptor text).toList := by
  simp only [Rules.descriptor, String.toList_ofList, String.ofList_inj]
  exact canonical_canonical_iff rules text.toList

/-- `canonicalized` leaves a key iff its owner is tight and its parameter types are settled. -/
theorem canonicalized_ofParts_iff (rules : Rules) (owner name : String) (types : List String) :
    (ofParts rules owner name types).canonicalized rules = ofParts rules owner name types ↔
      IsTight (rules.owner owner).toList ∧
        ∀ t ∈ types, Settled (rules.descriptor t).toList := by
  -- trimming the name again does nothing
  have hname : Text.trimmed (Text.trimmed name) = Text.trimmed name := by
    simp only [Text.trimmed, String.toList_ofList, Text.trim_trim]
  simp only [canonicalized, ofParts, hname, Key.mk.injEq, true_and, owner_owner_iff, List.map_map,
    List.map_inj_left, Function.comp_apply, descriptor_descriptor_iff]

/-- The key of a symbol is its own canonical form exactly if its owner is tight and each of its
    parameter types is tight, no binary array name and without a final `...`. -/
theorem canonicalized_ofSymbol_iff (rules : Rules) (s : Symbol) :
    (ofSymbol rules s).canonicalized rules = ofSymbol rules s ↔
      IsTight (ofSymbol rules s).owner.toList ∧
        ∀ p ∈ (ofSymbol rules s).params, Settled p.toList := by
  rw [ofSymbol, canonicalized_ofParts_iff]
  simp only [ofParts, List.forall_mem_map]

/-- `canonicalized` leaves a key whose canonical form took all steps.  Under other rules, a name
    that ends with a dot leaves a blank at the end of its type, and the key does not stay. -/
theorem canonicalized_ofSymbol_iff_rows :
    (ofSymbol {} ⟨" app.Table$Row<K> ", " put ", ["java.util.Map < K , V >", "[[Lapp/Cell;",
      "int ..."]⟩).canonicalized {} = ⟨"app.Table.Row", "put", ["java.util.Map", "app.Cell[][]",
        "int[]"]⟩ ∧
    (ofSymbol { stripQualifiers := true } ⟨"app.Table", "put", ["? a."]⟩).canonicalized
      { stripQualifiers := true } ≠ ofSymbol { stripQualifiers := true }
        ⟨"app.Table", "put", ["? a."]⟩ := by
  constructor
  · have hkey : ofSymbol {} ⟨" app.Table$Row<K> ", " put ", ["java.util.Map < K , V >",
        "[[Lapp/Cell;", "int ..."]⟩ = ⟨"app.Table.Row", "put", ["java.util.Map", "app.Cell[][]",
          "int[]"]⟩ := by decide +kernel
    -- the parts of this key are short enough to be decided
    rw [← hkey, canonicalized_ofSymbol_iff, hkey]
    decide +kernel
  · rw [Ne, canonicalized_ofSymbol_iff]
    decide +kernel

/-- `canonicalized` does not leave every key.  A blank next to `$` is next to a dot afterwards, a
    blank in a binary array name hides the name only once, and a variable number of arguments comes
    to the end when the type arguments behind it are dropped. -/
theorem not_forall_canonicalized_eq :
    (¬ ∀ (rules : Rules) (s : Symbol),
      (ofSymbol rules s).canonicalized rules = ofSymbol rules s) ∧
    ofSymbol {} ⟨"app.Outer $ Inner", "f", ["[ I", "T...<U>"]⟩ =
      ⟨"app.Outer . Inner", "f", ["[I", "T..."]⟩ ∧
    (ofSymbol {} ⟨"app.Outer $ Inner", "f", ["[ I", "T...<U>"]⟩).canonicalized {} =
      ⟨"app.Outer.Inner", "f", ["int[]", "T[]"]⟩ := by
  have hkey : ofSymbol {} ⟨"app.Outer $ Inner", "f", ["[ I", "T...<U>"]⟩ =
      ⟨"app.Outer . Inner", "f", ["[I", "T..."]⟩ := by decide +kernel
  have hagain : (ofSymbol {} ⟨"app.Outer $ Inner", "f", ["[ I", "T...<U>"]⟩).canonicalized {} =
      ⟨"app.Outer.Inner", "f", ["int[]", "T[]"]⟩ := by decide +kernel
  refine ⟨fun h => ?_, hkey, hagain⟩
  have heq := h {} ⟨"app.Outer $ Inner", "f", ["[ I", "T...<U>"]⟩
  rw [hagain, hkey] at heq
  revert heq
  decide +kernel

end Key

end CallCycle

import CallCycle.Proofs.Spelling

/-!
# One canonical descriptor for all spellings of a type

Where type arguments are erased, a descriptor depends on the type only, and not on how it is
spelled.  `JavaType.canonicalText` says what the descriptor is.

## Key results

- `mapNames_brackets`: in a descriptor without type arguments there is one name
- `simpleName_dotted`, `dropImplicitPackage_dotted`: what becomes of the name
- `unboxed?_keptName`: when a type is a boxing class
- `descriptor_eq_canonicalText`: the descriptor of every spelling
-/

namespace CallCycle.Descriptor

open Text

/-! ## Canonical texts -/

/-- The first segment of the package that needs no import. -/
def Segment.java : Segment := ⟨['j', 'a', 'v', 'a'], by decide, by decide⟩

/-- The second segment of the package that needs no import. -/
def Segment.lang : Segment := ⟨['l', 'a', 'n', 'g'], by decide, by decide⟩

namespace JavaType

/-- The name of a type as far as it is kept: the last segment if qualifiers are stripped or are
    those of the package that needs no import, and otherwise the dotted name. -/
def keptName (rules : Rules) (t : JavaType) : List Char :=
  if rules.stripQualifiers = true ∨ t.qualifiers = [.java, .lang] then t.simple.chars
  else dotted t.qualifiers t.simple

/-- The canonical descriptor of a type: the name that is kept and a pair of brackets for each array
    dimension.  If boxing classes are replaced, one without array dimensions is the primitive type
    that it boxes. -/
def canonicalText (rules : Rules) (t : JavaType) : List Char :=
  if rules.unboxPrimitives = true ∧ t.dims = 0 then
    ((Primitive.ofBox? (String.ofList (t.keptName rules))).map (·.keyword.toList)).getD
      (t.keptName rules)
  else t.keptName rules ++ brackets t.dims

end JavaType

/-! ## Dotted names -/

/-- A `Segment` has no dot. -/
theorem notMem_dot (s : Segment) : '.' ∉ s.chars := s.notMem (by decide)

/-- A `dotted` name has the characters of names. -/
theorem isNameChar_of_mem_dotted {qs : List Segment} {s : Segment} :
    ∀ c ∈ dotted qs s, isNameChar c = true := by
  induction qs with
  | nil => exact fun c hc => s.isNameChar hc
  | cons q qs ih =>
    intro c hc
    -- in the first segment, the dot behind it, or the rest
    rcases List.mem_append.1 hc with hc | hc
    · exact q.isNameChar hc
    · rcases List.mem_cons.1 hc with rfl | hc
      · decide
      · exact ih c hc

/-- `afterLast` does not look in front of the last separator. -/
theorem afterLast_append_cons (xs ys : List Char) (c : Char) :
    afterLast c (xs ++ c :: ys) = afterLast c ys := by
  -- from the end, the text is taken up to the separator at the latest
  have hstop : ∀ zs : List Char,
      (zs ++ c :: xs.reverse).takeWhile (· ≠ c) = zs.takeWhile (· ≠ c) := by
    intro zs
    induction zs with
    | nil => simp
    | cons z zs ih => simp only [List.cons_append, List.takeWhile_cons, ih]
  rw [afterLast, List.reverse_append, List.reverse_cons, List.append_assoc, List.singleton_append,
    hstop, afterLast]

/-- `afterLast` of a text without the separator is the text. -/
theorem afterLast_of_notMem {xs : List Char} {c : Char} (h : c ∉ xs) : afterLast c xs = xs := by
  have hall : ∀ x ∈ xs.reverse, decide (x ≠ c) = true := by
    intro x hx
    rw [decide_eq_true_eq]
    rintro rfl
    exact h (List.mem_reverse.1 hx)
  rw [afterLast, ← List.append_nil xs.reverse, List.takeWhile_append_of_pos hall]
  simp

/-- `simpleName` of a dotted name is its last segment. -/
theorem simpleName_dotted (qs : List Segment) (s : Segment) :
    simpleName (dotted qs s) = s.chars := by
  induction qs with
  | nil => exact afterLast_of_notMem (notMem_dot s)
  | cons q qs ih =>
    rw [dotted, simpleName, afterLast_append_cons]
    exact ih

/-- The first dot of a text can be at one place only. -/
theorem append_dot_inj {xs ys as bs : List Char} (hx : '.' ∉ xs) (hy : '.' ∉ ys)
    (h : xs ++ '.' :: as = ys ++ '.' :: bs) : xs = ys ∧ as = bs := by
  induction xs generalizing ys with
  | nil =>
    cases ys with
    | nil => exact ⟨rfl, List.tail_eq_of_cons_eq h⟩
    | cons y ys =>
      rw [List.nil_append, List.cons_append, List.cons.injEq] at h
      exact absurd (h.1 ▸ List.mem_cons_self) hy
  -- the first characters are the same, as neither is the dot
  | cons x xs ih =>
    cases ys with
    | nil =>
      rw [List.nil_append, List.cons_append, List.cons.injEq] at h
      exact absurd (h.1 ▸ List.mem_cons_self) hx
    | cons y ys =>
      rw [List.cons_append, List.cons_append, List.cons.injEq] at h
      obtain ⟨rfl, has⟩ := ih (fun hmem => hx (List.mem_cons_of_mem _ hmem))
        (fun hmem => hy (List.mem_cons_of_mem _ hmem)) h.2
      exact ⟨by rw [h.1], has⟩

/-- A dotted name that begins with a segment and a dot has that segment as its first qualifier. -/
theorem exists_of_dotted_eq {qs : List Segment} {s q : Segment} {rest : List Char}
    (h : dotted qs s = q.chars ++ '.' :: rest) : ∃ qs', qs = q :: qs' ∧ dotted qs' s = rest := by
  cases qs with
  | nil =>
    -- a segment alone has no dot
    have hdot : '.' ∈ s.chars := by
      rw [dotted] at h
      simp [h]
    exact absurd hdot (notMem_dot s)
  | cons r qs =>
    obtain ⟨hchars, hrest⟩ := append_dot_inj (notMem_dot r) (notMem_dot q) h
    have hr : r = q := by
      cases r; cases q
      simpa using hchars
    exact ⟨qs, by rw [hr], hrest⟩

/-- What `dropFront?` leaves behind the implicit package is the last segment of a name that stands
    directly in it, or else still has a dot. -/
theorem dropFront?_dotted {qs : List Segment} {s : Segment} {rest : List Char}
    (h : dropFront? implicitPackage (dotted qs s) = some rest) :
    qs = [.java, .lang] ∧ rest = s.chars ∨ qs ≠ [.java, .lang] ∧ '.' ∈ rest := by
  have hsplit : dotted qs s = Segment.java.chars ++ '.' :: (Segment.lang.chars ++ '.' :: rest) := by
    rw [dropFront?_eq_some_iff.1 h]
    rfl
  -- segment by segment, as dots divide them in one way only
  obtain ⟨qs₁, rfl, hjava⟩ := exists_of_dotted_eq hsplit
  obtain ⟨qs₂, rfl, hlang⟩ := exists_of_dotted_eq hjava
  cases qs₂ with
  | nil => exact .inl ⟨rfl, hlang.symm⟩
  | cons q qs₂ => exact .inr ⟨by simp, by rw [← hlang, dotted]; simp⟩

/-- `dropImplicitPackage` drops the package from the names that stand directly in it, and from no
    others. -/
theorem dropImplicitPackage_dotted (qs : List Segment) (s : Segment) :
    dropImplicitPackage (dotted qs s) =
      if qs = [.java, .lang] then s.chars else dotted qs s := by
  rw [dropImplicitPackage]
  cases hdrop : dropFront? implicitPackage (dotted qs s) with
  | some rest =>
    obtain ⟨hqs, rfl⟩ | ⟨hqs, hdot⟩ := dropFront?_dotted hdrop
    · simp [hqs, s.ne_nil, notMem_dot s]
    · simp [hqs, hdot]
  | none =>
    -- the package would have been found
    have hqs : qs ≠ [.java, .lang] := by
      rintro rfl
      have hsome : dropFront? implicitPackage (dotted [.java, .lang] s) = some s.chars :=
        dropFront?_eq_some_iff.2 rfl
      rw [hdrop] at hsome
      exact nomatch hsome
    simp [hqs]

/-! ## Names in descriptors -/

/-- `mapNamesFrom` takes name characters into the current run. -/
theorem mapNamesFrom_append {w : List Char} (hw : ∀ c ∈ w, isNameChar c = true)
    (f : List Char → List Char) (run rest : List Char) :
    mapNamesFrom f run (w ++ rest) = mapNamesFrom f (w.reverse ++ run) rest := by
  induction w generalizing run with
  | nil => rfl
  | cons c w ih =>
    rw [List.cons_append, mapNamesFrom, if_pos (hw c List.mem_cons_self),
      ih (fun d hd => hw d (List.mem_cons_of_mem _ hd)), List.reverse_cons, List.append_assoc]
    rfl

/-- `mapNamesFrom` ends its run at brackets, between which there is no name. -/
theorem mapNamesFrom_brackets {f : List Char → List Char} (hf : f [] = []) (run : List Char)
    (k : Nat) : mapNamesFrom f run (brackets k) = f run.reverse ++ brackets k := by
  induction k generalizing run with
  | zero => exact (List.append_nil _).symm
  | succ k ih =>
    have hopen : isNameChar '[' = false := by decide
    have hclose : isNameChar ']' = false := by decide
    simp [brackets_succ, mapNamesFrom, hopen, hclose, ih, hf]

/-- `mapNames` finds one name in a name with array dimensions. -/
theorem mapNames_brackets {f : List Char → List Char} (hf : f [] = []) {w : List Char}
    (hw : ∀ c ∈ w, isNameChar c = true) (k : Nat) :
    mapNames f (w ++ brackets k) = f w ++ brackets k := by
  rw [mapNames, mapNamesFrom_append hw, mapNamesFrom_brackets hf, List.append_nil,
    List.reverse_reverse]

/-- `keptName` is what the rules make of the dotted name. -/
theorem mapNames_dotted (rules : Rules) (t : JavaType) :
    mapNames (if rules.stripQualifiers then simpleName else dropImplicitPackage)
      (dotted t.qualifiers t.simple ++ brackets t.dims) =
        t.keptName rules ++ brackets t.dims := by
  cases hstrip : rules.stripQualifiers with
  | true =>
    rw [if_pos rfl, mapNames_brackets rfl isNameChar_of_mem_dotted, simpleName_dotted]
    simp [JavaType.keptName, hstrip]
  | false =>
    rw [if_neg (by decide), mapNames_brackets rfl isNameChar_of_mem_dotted,
      dropImplicitPackage_dotted]
    simp [JavaType.keptName, hstrip]

/-! ## Boxing classes -/

/-- `ofBox?` knows no text with a character that no boxing class has. -/
theorem ofBox?_eq_none {text : List Char} {c : Char} (hc : c ∈ text)
    (hbox : ∀ p : Primitive, c ∉ p.box.toList) : Primitive.ofBox? (String.ofList text) = none := by
  cases h : Primitive.ofBox? (String.ofList text) with
  | none => rfl
  | some p =>
    have hp : p.box = String.ofList text := by simpa using List.find?_some h
    have hmem : c ∈ p.box.toList := by rwa [hp, String.toList_ofList]
    exact absurd hmem (hbox p)

/-- The name of a boxing class has neither dots nor brackets. -/
theorem notMem_box (p : Primitive) : '.' ∉ p.box.toList ∧ ']' ∉ p.box.toList := by
  cases p <;> decide

/-- `unboxed?` asks for the name of a boxing class, unless the name stands directly in the implicit
    package. -/
theorem unboxed?_eq_ofBox? {text : List Char}
    (h : ∀ rest, dropFront? implicitPackage text = some rest → '.' ∈ rest) :
    unboxed? text = (Primitive.ofBox? (String.ofList text)).map (·.keyword.toList) := by
  rw [unboxed?]
  cases hdrop : dropFront? implicitPackage text with
  | none => rfl
  | some rest =>
    have hrest : '.' ∈ rest := h rest hdrop
    have htext : '.' ∈ text := by
      rw [dropFront?_eq_some_iff.1 hdrop]
      exact List.mem_append_right _ hrest
    have hbox : ∀ p : Primitive, '.' ∉ p.box.toList := fun p => (notMem_box p).1
    rw [Option.getD_some, ofBox?_eq_none hrest hbox, ofBox?_eq_none htext hbox]

/-- `unboxed?` of the name that is kept, which never stands directly in the implicit package. -/
theorem unboxed?_keptName (rules : Rules) (t : JavaType) :
    unboxed? (t.keptName rules) =
      (Primitive.ofBox? (String.ofList (t.keptName rules))).map (·.keyword.toList) := by
  refine unboxed?_eq_ofBox? fun rest hdrop => ?_
  rw [JavaType.keptName] at hdrop
  split at hdrop
  · -- a segment has no dot, so that no package is in front of it
    have hdot : '.' ∈ t.simple.chars := by
      rw [dropFront?_eq_some_iff.1 hdrop]
      exact List.mem_append_left _ (by decide)
    exact absurd hdot (notMem_dot t.simple)
  · next hkeep =>
    obtain ⟨hqs, -⟩ | ⟨-, hdot⟩ := dropFront?_dotted hdrop
    · exact absurd (.inr hqs) hkeep
    · exact hdot

/-- `unboxed?` of an array is nothing. -/
theorem unboxed?_brackets (name : List Char) {k : Nat} (hk : k ≠ 0) :
    unboxed? (name ++ brackets k) = none := by
  have hbracket : ']' ∈ name ++ brackets k := by
    obtain ⟨j, rfl⟩ := Nat.exists_eq_add_one_of_ne_zero hk
    simp [brackets_succ]
  -- with or without the package in front, the bracket is there
  have hsimple : ']' ∈ (dropFront? implicitPackage (name ++ brackets k)).getD
      (name ++ brackets k) := by
    cases hdrop : dropFront? implicitPackage (name ++ brackets k) with
    | none => exact hbracket
    | some rest =>
      rw [dropFront?_eq_some_iff.1 hdrop] at hbracket
      exact (List.mem_append.1 hbracket).resolve_left (by decide)
  rw [unboxed?, ofBox?_eq_none hsimple fun p => (notMem_box p).2, Option.map_none]

/-! ## Descriptors -/

/-- The last step of `canonical` gives `canonicalText`. -/
theorem unboxed?_getD (rules : Rules) (t : JavaType) :
    (if rules.unboxPrimitives then
        (unboxed? (t.keptName rules ++ brackets t.dims)).getD (t.keptName rules ++ brackets t.dims)
      else t.keptName rules ++ brackets t.dims) = t.canonicalText rules := by
  rw [JavaType.canonicalText]
  cases hunbox : rules.unboxPrimitives with
  | false => simp
  | true =>
    by_cases hdims : t.dims = 0
    · have hnil : brackets 0 = [] := rfl
      simp [hdims, hnil, unboxed?_keptName]
    · simp [hdims, unboxed?_brackets]

/-- Where type arguments are erased, `descriptor` of every text that `Spells` a type is the
    `canonicalText` of the type. -/
theorem descriptor_eq_canonicalText {rules : Rules} (herase : rules.eraseGenerics = true)
    {t : JavaType} {text : String} (h : t.Spells text.toList) :
    rules.descriptor text = String.ofList (t.canonicalText rules) := by
  rw [Rules.descriptor, canonical, if_pos herase, h.eraseArguments_normalize, mapNames_dotted,
    unboxed?_getD]

/-- An array of arrays of a nested type. -/
def mapEntry : JavaType where
  qualifiers := [.java, ⟨['u', 't', 'i', 'l'], by decide, by decide⟩,
    ⟨['M', 'a', 'p'], by decide, by decide⟩]
  simple := ⟨['E', 'n', 't', 'r', 'y'], by decide, by decide⟩
  dims := 2

/-- `descriptor` of a spelling with blanks, type arguments, a nested type and a variable number of
    arguments. -/
theorem descriptor_mapEntry :
    mapEntry.Spells "\tjava . util.Map <K,V<T>> $Entry [ ] . .. ".toList ∧
      ({} : Rules).descriptor "\tjava . util.Map <K,V<T>> $Entry [ ] . .. " =
        "java.util.Map.Entry[][]" := by
  have hspace : Blank [' '] := .singleton (by decide)
  have hargs : Balanced ['K', ',', 'V', '<', 'T', '>'] :=
    .cons (by decide) (by decide) <| .cons (by decide) (by decide) <|
      .cons (by decide) (by decide) <| .nest (.cons (by decide) (by decide) .nil) .nil
  -- one segment after the other, each with its arguments and separator
  have hname : SourceName mapEntry.qualifiers mapEntry.simple
      "java . util.Map <K,V<T>> $Entry".toList :=
    .qualified .absent (.dot hspace hspace) <|
      .qualified .absent (.dot Blank.nil Blank.nil) <|
        .qualified (.angled hspace hargs hspace) .dollar <|
          .simple .absent
  have hdims : SourceDims mapEntry.dims " [ ] . ..".toList :=
    .bracketed hspace hspace <|
      .variadic hspace hspace Blank.nil
  have htext : "\tjava . util.Map <K,V<T>> $Entry [ ] . .. ".toList =
      ['\t'] ++ "java . util.Map <K,V<T>> $Entry".toList ++ " [ ] . ..".toList ++ [' '] := by
    decide
  have hspells : mapEntry.Spells "\tjava . util.Map <K,V<T>> $Entry [ ] . .. ".toList := by
    rw [htext]
    exact .source (.singleton (by decide)) hname hdims hspace
  refine ⟨hspells, ?_⟩
  rw [descriptor_eq_canonicalText rfl hspells]
  decide +kernel

/-- A `dotted` name spells a type. -/
theorem spells_dotted (qs : List Segment) (s : Segment) :
    JavaType.Spells ⟨qs, s, 0⟩ (dotted qs s) := by
  -- no blanks, no arguments, and dots between the segments
  have hname : SourceName qs s (dotted qs s) := by
    induction qs with
    | nil => simpa [dotted] using SourceName.simple (s := s) .absent
    | cons q qs ih =>
      simpa [dotted] using
        SourceName.qualified (q := q) .absent (.dot Blank.nil Blank.nil) ih
  simpa using JavaType.Spells.source (t := ⟨qs, s, 0⟩) Blank.nil hname .scalar Blank.nil

/-- `descriptor` is not always the last segment: qualifiers that are not stripped stay, and boxing
    classes are replaced. -/
theorem not_descriptor_eq_simple :
    (¬ ∀ (t : JavaType) (text : String), t.Spells text.toList →
      ({} : Rules).descriptor text = String.ofList (t.simple.chars ++ brackets t.dims)) ∧
    ¬ ∀ (t : JavaType) (text : String), t.Spells text.toList →
      ({ stripQualifiers := true, unboxPrimitives := true } : Rules).descriptor text =
        String.ofList (t.simple.chars ++ brackets t.dims) := by
  constructor
  · intro h
    have hlast := h _ "java.util.Date" <|
      spells_dotted [.java, ⟨['u', 't', 'i', 'l'], by decide, by decide⟩]
        ⟨['D', 'a', 't', 'e'], by decide, by decide⟩
    revert hlast
    decide +kernel
  · intro h
    have hlast := h _ "Integer" <|
      spells_dotted [] ⟨['I', 'n', 't', 'e', 'g', 'e', 'r'], by decide, by decide⟩
    revert hlast
    decide +kernel

end CallCycle.Descriptor

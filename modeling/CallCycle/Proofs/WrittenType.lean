import CallCycle.Proofs.FixedForm

/-!
# Types as resolvers write them

Resolvers write types as source text or as binary array names, with blanks next to the punctuation
of both.  Where type arguments are erased, all ways to write a type have one canonical form, except
that a binary array name with a blank behind an opening bracket is not recognized.  In both cases
the canonical form is a text that can stand in a parameter list.

## Key results

- `JavaType.Written.canonical_eq`: without such gaps, all ways to write a type have one canonical
  form
- `exists_canonicalText_eq`, `settled_dotted_brackets`: that form is read as it stands
- `exists_canonical_eq`: what is left of a binary array name with a gap
- `isPlainParameter_canonical`: a canonical form is read as one parameter
-/

namespace CallCycle

namespace Descriptor

open Text

/-! ## Written types -/

/-- The opening brackets of a binary array name.  Where `gaps` is set, blanks may follow each of
    them. -/
inductive Openings (gaps : Bool) : Nat → List Char → Prop
  | nil : Openings gaps 0 []
  | cons {k : Nat} {ws text : List Char} (hws : Blank ws) (hgaps : gaps = false → ws = [])
      (htext : Openings gaps k text) : Openings gaps (k + 1) ('[' :: ws ++ text)

/-- A class name in a binary array name, with blanks around its slashes and dots. -/
inductive ClassName : List Segment → Segment → List Char → Prop
  | simple {s : Segment} : ClassName [] s s.chars
  | qualified {q s : Segment} {qs : List Segment} {sep : Char} {ws ws' name : List Char}
      (hsep : sep = '/' ∨ sep = '.') (hws : Blank ws) (hws' : Blank ws')
      (hname : ClassName qs s name) :
      ClassName (q :: qs) s (q.chars ++ (ws ++ sep :: ws') ++ name)
  | nested {q s : Segment} {qs : List Segment} {name : List Char} (hname : ClassName qs s name) :
      ClassName (q :: qs) s (q.chars ++ ['$'] ++ name)

/-- An element type in a binary array name: the letter of a primitive type, or a class name. -/
inductive Element (t : JavaType) : List Char → Prop
  | letter (p : Primitive) (hqualifiers : t.qualifiers = [])
      (hsimple : t.simple.chars = p.keyword.toList) : Element t [p.letter]
  | named {name ws : List Char} (hname : ClassName t.qualifiers t.simple name) (hws : Blank ws) :
      Element t ('L' :: (name ++ ws) ++ [';'])

/-- The ways to write a type: those of `JavaType.Spells`, and binary array names with blanks in
    them. -/
inductive JavaType.Written (gaps : Bool) (t : JavaType) : List Char → Prop
  | spelled {text : List Char} (h : t.Spells text) : t.Written gaps text
  | binary {ws opening element ws' : List Char} (hpos : 0 < t.dims) (hws : Blank ws)
      (hopening : Openings gaps t.dims opening) (helement : Element t element) (hws' : Blank ws') :
      t.Written gaps (ws ++ (opening ++ element) ++ ws')

/-- The ways to write the name of an owning type. -/
inductive OwnerName : List Char → Prop
  | mk {qs : List Segment} {s : Segment} {ws name ws' : List Char} (hws : Blank ws)
      (hname : SourceName qs s name) (hws' : Blank ws') : OwnerName (ws ++ name ++ ws')

/-- No word character is blank. -/
theorem isWordChar_of_isBlank {c : Char} (h : isBlank c = true) : isWordChar c = false := by
  -- there are few blanks, and none of them is in the table of word characters
  have hpoints : ∀ n ∈ [9, 10, 11, 12, 13, 0x20, 0x85, 0xA0, 0x1680, 0x2000, 0x2001, 0x2002, 0x2003,
      0x2004, 0x2005, 0x2006, 0x2007, 0x2008, 0x2009, 0x200A, 0x2028, 0x2029, 0x202F, 0x205F,
      0x3000], isWordChar (Char.ofNat n) = false := by decide +kernel
  have hpoint := hpoints c.toNat
  rw [Char.ofNat_toNat] at hpoint
  refine hpoint ?_
  simp only [isBlank, Bool.or_eq_true, Bool.and_eq_true, decide_eq_true_eq, beq_iff_eq] at h
  simp only [List.mem_cons, List.not_mem_nil, or_false]
  omega

/-- Word characters and underscores make a segment. -/
def Segment.ofWord (chars : List Char) (hne : chars ≠ [])
    (h : (chars.all fun c => isWordChar c || c == '_') = true) : Segment where
  chars := chars
  ne_nil := hne
  segmentChars := List.all_eq_true.2 fun c hc => by
    have hword := List.all_eq_true.1 h c hc
    have hblank : isBlank c = false := by
      rw [Bool.eq_false_iff]
      intro hblank
      rw [isWordChar_of_isBlank hblank, Bool.false_or, beq_iff_eq] at hword
      subst hword
      exact absurd hblank (by decide)
    rw [isSegmentChar, hword, hblank]
    rfl

/-! ## Binary array names -/

/-- No segment character is blank. -/
theorem isBlank_of_isSegmentChar {c : Char} (h : isSegmentChar c = true) : isBlank c = false := by
  rw [isSegmentChar, Bool.and_eq_true, Bool.not_eq_true'] at h
  exact h.2

namespace Openings

variable {gaps : Bool} {k : Nat} {text : List Char}

/-- `Openings` without gaps are brackets only. -/
theorem eq_replicate (h : Openings false k text) : text = List.replicate k '[' := by
  induction h with
  | nil => rfl
  | cons _ hgaps _ ih => rw [hgaps rfl, ih, List.replicate_succ, List.singleton_append]

/-- Either the brackets have no gap, or some of them come first and then a blank. -/
theorem eq_replicate_or (h : Openings gaps k text) :
    text = List.replicate k '[' ∨
      ∃ j c rest, 0 < j ∧ isBlank c = true ∧ text = List.replicate j '[' ++ c :: rest := by
  induction h with
  | nil => exact .inl rfl
  | @cons k ws text hws _ _ ih =>
    -- the first gap is behind this bracket or behind a later one
    cases ws with
    | cons c ws => exact .inr ⟨1, c, ws ++ text, Nat.one_pos, hws.head, rfl⟩
    | nil =>
      rcases ih with rfl | ⟨j, c, rest, -, hc, rfl⟩
      · exact .inl List.replicate_succ.symm
      · exact .inr ⟨j + 1, c, rest, Nat.succ_pos j, hc, rfl⟩

/-- Brackets only are `Openings`, whether gaps are allowed or not. -/
theorem replicate : {k : Nat} → Openings gaps k (List.replicate k '[')
  | 0 => .nil
  | _ + 1 => .cons Blank.nil (fun _ => rfl) replicate

/-- `Openings` are made of brackets and blanks. -/
theorem mem (h : Openings gaps k text) : ∀ c ∈ text, c = '[' ∨ isBlank c = true := by
  induction h with
  | nil => simp
  | cons hws _ _ ih =>
    intro c hc
    rcases List.mem_append.1 hc with hc | hc
    · exact (List.mem_cons.1 hc).imp_right (hws c)
    · exact ih c hc

/-- `Openings` begin with a bracket. -/
theorem exists_cons (h : Openings gaps k text) (hk : 0 < k) : ∃ rest, text = '[' :: rest := by
  cases h with
  | nil => cases hk
  | cons _ _ _ => exact ⟨_, rfl⟩

end Openings

/-- A text without slashes stays when slashes become dots. -/
theorem map_slash {cs : List Char} (h : '/' ∉ cs) :
    (cs.map fun c => if c = '/' then '.' else c) = cs := by
  refine (List.map_congr_left fun c hc => if_neg ?_).trans (List.map_id _)
  rintro rfl
  exact h hc

/-- A `ClassName` is a `SourceName` when its slashes are dots. -/
theorem ClassName.sourceName {qs : List Segment} {s : Segment} {name : List Char}
    (h : ClassName qs s name) :
    SourceName qs s (name.map fun c => if c = '/' then '.' else c) := by
  -- slashes are separators only, never part of a segment
  have hsegment : ∀ r : Segment, (r.chars.map fun c => if c = '/' then '.' else c) = r.chars :=
    fun r => map_slash (r.notMem (by decide))
  induction h with
  | @simple s => simpa [hsegment] using SourceName.simple (s := s) .absent
  | @qualified q s qs sep ws ws' name hsep hws hws' _ ih =>
    have hdot : (if sep = '/' then '.' else sep) = '.' := by rcases hsep with rfl | rfl <;> rfl
    simpa [hsegment, map_slash (hws.notMem (by decide)), map_slash (hws'.notMem (by decide)), hdot]
      using SourceName.qualified (q := q) .absent (.dot hws hws') ih
  | @nested q s qs name _ ih =>
    simpa [hsegment] using SourceName.qualified (q := q) .absent .dollar ih

/-- `brackets` behind blanks are array dimensions in source text. -/
theorem sourceDims_brackets {ws : List Char} (hws : Blank ws) {k : Nat} (hk : 0 < k) :
    SourceDims k (ws ++ brackets k) := by
  have htight : ∀ j, SourceDims j (brackets j) := by
    intro j
    induction j with
    | zero => exact .scalar
    | succ j ih =>
      rw [brackets_succ]
      exact .bracketed Blank.nil Blank.nil ih
  obtain ⟨j, rfl⟩ := Nat.exists_eq_add_one_of_ne_zero (Nat.ne_of_gt hk)
  rw [brackets_succ]
  simpa using SourceDims.bracketed hws Blank.nil (htight j)

namespace Element

variable {t : JavaType} {element : List Char}

/-- An element type begins with a letter, and ends with a letter or a semicolon. -/
theorem exists_ends (h : Element t element) :
    (∃ c rest, element = c :: rest ∧ isSegmentChar c = true) ∧
      ∃ front e, element = front ++ [e] ∧ (isSegmentChar e = true ∨ e = ';') := by
  cases h with
  | letter p _ _ =>
    have hletter : isSegmentChar p.letter = true := by cases p <;> decide
    exact ⟨⟨_, [], rfl, hletter⟩, [], _, rfl, .inl hletter⟩
  | named _ _ => exact ⟨⟨'L', _, rfl, by decide⟩, _, ';', rfl, .inr rfl⟩

/-- The type that an element type stands for, with brackets behind it, is written as in source
    text. -/
theorem exists_spells (h : Element t element) (hpos : 0 < t.dims) :
    ∃ base, ofBinaryElement? element = some base ∧ t.Spells (base ++ brackets t.dims) ∧
      ∃ c cs, base = c :: cs ∧ isBlank c = false ∧ c ≠ '[' := by
  -- letters and class names are both read as names in source text
  have hsource : ∀ {name ws : List Char}, SourceName t.qualifiers t.simple name → Blank ws →
      t.Spells (name ++ ws ++ brackets t.dims) ∧
        ∃ c cs, name ++ ws = c :: cs ∧ isBlank c = false ∧ c ≠ '[' := by
    intro name ws hname hws
    constructor
    · simpa using JavaType.Spells.source Blank.nil hname (sourceDims_brackets hws hpos) Blank.nil
    · obtain ⟨c, cs, rfl, hc, hne⟩ := hname.exists_cons
      exact ⟨c, cs ++ ws, rfl, hc, hne⟩
  cases h with
  | letter p hqualifiers hsimple =>
    have hname : SourceName t.qualifiers t.simple t.simple.chars := by
      rw [hqualifiers]
      simpa using SourceName.simple (s := t.simple) .absent
    obtain ⟨hspells, hfirst⟩ := hsource hname Blank.nil
    rw [List.append_nil] at hspells hfirst
    refine ⟨t.simple.chars, ?_, hspells, hfirst⟩
    rw [ofBinaryElement?, Primitive.ofLetter?_letter, Option.map_some, hsimple]
  | @named name ws hname hws =>
    obtain ⟨hspells, hfirst⟩ := hsource hname.sourceName hws
    -- the reader of class names asks for at least one character
    have hne : name ++ ws ≠ [] := by
      obtain ⟨c, cs, hcons, -⟩ := hfirst
      rintro hnil
      simp [List.append_eq_nil_iff.1 hnil] at hcons
    refine ⟨_, ?_, hspells, hfirst⟩
    rw [List.cons_append, ofBinaryElement?_class hne, List.map_append,
      map_slash (hws.notMem (by decide))]

/-- The characters of an element type. -/
theorem mem (h : Element t element) :
    ∀ c ∈ element, isSegmentChar c = true ∨ isBlank c = true ∨ c ∈ ['/', '.', '$', ';'] := by
  cases h with
  | letter p _ _ =>
    have hletter : isSegmentChar p.letter = true := by cases p <;> decide
    intro c hc
    rw [List.mem_singleton.1 hc]
    exact .inl hletter
  | @named name ws hname hws =>
    -- class names, segment by segment
    have hclass : ∀ {qs s name}, ClassName qs s name →
        ∀ c ∈ name, isSegmentChar c = true ∨ isBlank c = true ∨ c ∈ ['/', '.', '$', ';'] := by
      intro qs s name h
      induction h with
      | @simple s => exact fun c hc => .inl (s.isSegmentChar_of_mem hc)
      | @qualified q _ _ sep ws ws' _ hsep hws hws' _ ih =>
        intro c hc
        simp only [List.mem_append, List.mem_cons] at hc
        rcases hc with (hc | hc | rfl | hc) | hc
        · exact .inl (q.isSegmentChar_of_mem hc)
        · exact .inr (.inl (hws c hc))
        · exact .inr (.inr (by rcases hsep with rfl | rfl <;> decide))
        · exact .inr (.inl (hws' c hc))
        · exact ih c hc
      | @nested q _ _ _ _ ih =>
        intro c hc
        simp only [List.mem_append, List.mem_singleton] at hc
        rcases hc with (hc | rfl) | hc
        · exact .inl (q.isSegmentChar_of_mem hc)
        · exact .inr (.inr (by decide))
        · exact ih c hc
    intro c hc
    simp only [List.cons_append, List.mem_cons, List.mem_append, List.not_mem_nil, or_false] at hc
    rcases hc with rfl | (hc | hc) | rfl
    · exact .inl (by decide)
    · exact hclass hname c hc
    · exact .inr (.inl (hws c hc))
    · exact .inr (.inr (by decide))

end Element

/-- `ofBinaryArray?` does not recognize a name with a gap. -/
theorem ofBinaryArray?_of_gap {j : Nat} (hj : 0 < j) {c : Char} (hc : isBlank c = true)
    (rest : List Char) : ofBinaryArray? (List.replicate j '[' ++ c :: rest) = none := by
  have hne : c ≠ '[' := by
    rintro rfl
    exact absurd hc (by decide)
  rw [ofBinaryArray?_replicate hj hne, Option.map_eq_none_iff]
  cases h : ofBinaryElement? (c :: rest) with
  | none => rfl
  | some base =>
    -- an element type begins with a letter
    rcases exists_of_ofBinaryElement? h with ⟨p, heq, -⟩ | ⟨name, heq, -⟩
    · obtain ⟨rfl, -⟩ := List.cons.inj heq
      have hletter : isBlank p.letter = false := by cases p <;> decide
      rw [hletter] at hc
      cases hc
    · obtain ⟨rfl, -⟩ := List.cons.inj heq
      exact absurd hc (by decide)

/-- `normalize` makes the same of a binary array name and of the source text it stands for. -/
theorem normalize_eq_of_ofBinaryArray? {text type : List Char}
    (h : ofBinaryArray? (trim text) = some type) (htype : ofBinaryArray? (trim type) = none) :
    normalize text = normalize type := by
  simp only [normalize, h, htype, Option.getD_some, Option.getD_none, tighten_trim]

namespace JavaType.Written

variable {t : JavaType} {gaps : Bool} {text : List Char}

/-- A binary array name begins with a bracket, and ends with a letter or a semicolon. -/
theorem exists_binary_eq {opening element : List Char} (hpos : 0 < t.dims)
    (hopening : Openings gaps t.dims opening) (helement : Element t element) :
    ∃ cs e, opening ++ element = '[' :: cs ++ [e] ∧ (isSegmentChar e = true ∨ e = ';') := by
  obtain ⟨rest, rfl⟩ := hopening.exists_cons hpos
  obtain ⟨-, front, e, rfl, he⟩ := helement.exists_ends
  exact ⟨rest ++ front, e, by simp, he⟩

/-- `trim` drops the blanks around a binary array name with gaps. -/
theorem trim_binary {ws opening element ws' : List Char} (hpos : 0 < t.dims) (hws : Blank ws)
    (hopening : Openings gaps t.dims opening) (helement : Element t element) (hws' : Blank ws') :
    trim (ws ++ (opening ++ element) ++ ws') = opening ++ element := by
  obtain ⟨cs, e, hends, he⟩ := exists_binary_eq hpos hopening helement
  have hblank : isBlank e = false := by
    rcases he with he | rfl
    · exact isBlank_of_isSegmentChar he
    · decide
  rw [hends]
  exact trim_blanks hws hws' (by decide) hblank

/-- A binary array name has no characters with a meaning in a parameter list. -/
theorem notMem_binary {ws opening element ws' : List Char} (hws : Blank ws)
    (hopening : Openings gaps t.dims opening) (helement : Element t element) (hws' : Blank ws') :
    ∀ c ∈ ['(', ')', ',', '<', '>'], c ∉ ws ++ (opening ++ element) ++ ws' := by
  intro c hc hmem
  have hplain : c = '[' ∨ isSegmentChar c = true ∨ isBlank c = true ∨
      c ∈ ['/', '.', '$', ';'] := by
    simp only [List.mem_append] at hmem
    rcases hmem with (hmem | hmem | hmem) | hmem
    · exact .inr (.inr (.inl (hws c hmem)))
    · exact (hopening.mem c hmem).imp_right fun h => .inr (.inl h)
    · exact .inr (helement.mem c hmem)
    · exact .inr (.inr (.inl (hws' c hmem)))
  simp only [List.mem_cons, List.not_mem_nil, or_false] at hc
  rcases hc with rfl | rfl | rfl | rfl | rfl <;> exact absurd hplain (by decide)

/-- Without gaps behind opening brackets, `normalize` and `eraseArguments` make one text of all ways
    to write a type. -/
theorem eraseArguments_normalize (h : t.Written false text) :
    eraseArguments 0 (normalize text) = dotted t.qualifiers t.simple ++ brackets t.dims := by
  cases h with
  | spelled h => exact h.eraseArguments_normalize
  | @binary ws opening element ws' hpos hws hopening helement hws' =>
    have htrim := trim_binary hpos hws hopening helement hws'
    obtain ⟨base, hbase, hspells, c, cs, rfl, hc, hne⟩ := helement.exists_spells hpos
    obtain ⟨⟨d, rest, rfl, hd⟩, -⟩ := helement.exists_ends
    -- the element type does not begin with one more bracket
    have hd' : d ≠ '[' := by
      rintro rfl
      exact absurd hd (by decide)
    rw [hopening.eq_replicate] at htrim
    have hbinary := ofBinaryArray?_replicate hpos hd' rest
    rw [← htrim, hbase, Option.map_some] at hbinary
    -- what the name stands for is source text, and no binary array name again
    have hsource : ofBinaryArray? (trim (c :: cs ++ brackets t.dims)) = none := by
      obtain ⟨ds, hds⟩ := exists_trim_cons Blank.nil hc (cs ++ brackets t.dims)
      rw [List.nil_append] at hds
      rw [List.cons_append, hds]
      exact ofBinaryArray?_cons hne ds
    rw [← hopening.eq_replicate] at hbinary
    rw [normalize_eq_of_ofBinaryArray? hbinary hsource, hspells.eraseArguments_normalize]

/-- Without gaps behind opening brackets, `canonical` gives the canonical text of the type for every
    way to write it. -/
theorem canonical_eq (h : t.Written false text) {rules : Rules}
    (herase : rules.eraseGenerics = true) : canonical rules text = t.canonicalText rules := by
  rw [canonical, if_pos herase, h.eraseArguments_normalize, mapNames_dotted, unboxed?_getD]

end JavaType.Written

/-! ## Canonical texts -/

/-- A `dotted` name is made of segment characters and dots. -/
theorem mem_dotted {qs : List Segment} {s : Segment} :
    ∀ c ∈ dotted qs s, isSegmentChar c = true ∨ c = '.' := by
  induction qs with
  | nil => exact fun c hc => .inl (s.isSegmentChar_of_mem hc)
  | cons q qs ih =>
    intro c hc
    rcases List.mem_append.1 hc with hc | hc
    · exact .inl (q.isSegmentChar_of_mem hc)
    · rcases List.mem_cons.1 hc with rfl | hc
      · exact .inr rfl
      · exact ih c hc

/-- A `dotted` name has no blanks. -/
theorem isBlank_of_mem_dotted {qs : List Segment} {s : Segment} {c : Char} (h : c ∈ dotted qs s) :
    isBlank c = false := by
  rcases mem_dotted c h with hc | rfl
  · exact isBlank_of_isSegmentChar hc
  · decide

/-- A `dotted` name begins with a segment character. -/
theorem exists_dotted_cons (qs : List Segment) (s : Segment) :
    ∃ c cs, dotted qs s = c :: cs ∧ isSegmentChar c = true := by
  -- a segment is not empty, so what comes behind it does not matter
  have hsegment : ∀ (r : Segment) (rest : List Char),
      ∃ c cs, r.chars ++ rest = c :: cs ∧ isSegmentChar c = true := by
    intro r rest
    obtain ⟨c, cs, hchars, -⟩ := r.exists_cons
    refine ⟨c, cs ++ rest, by rw [hchars, List.cons_append], ?_⟩
    exact r.isSegmentChar_of_mem (hchars ▸ List.mem_cons_self)
  cases qs with
  | nil => simpa [dotted] using hsegment s []
  | cons q qs => exact hsegment q _

/-- A `dotted` name does not end with a dot. -/
theorem exists_getLast?_dotted (qs : List Segment) (s : Segment) :
    ∃ e, (dotted qs s).getLast? = some e ∧ e ≠ '.' := by
  induction qs with
  | nil => exact s.exists_getLast
  | cons q qs ih =>
    obtain ⟨e, hlast, he⟩ := ih
    exact ⟨e, by simp [dotted, List.getLast?_cons, hlast], he⟩

/-- `canonicalText` is a dotted name with brackets. -/
theorem exists_canonicalText_eq (rules : Rules) (t : JavaType) :
    ∃ qs s k, t.canonicalText rules = dotted qs s ++ brackets k := by
  have hkept : ∃ qs, t.keptName rules = dotted qs t.simple := by
    rw [JavaType.keptName]
    split
    · exact ⟨[], rfl⟩
    · exact ⟨t.qualifiers, rfl⟩
  obtain ⟨qs, hqs⟩ := hkept
  rw [JavaType.canonicalText]
  split
  · cases Primitive.ofBox? (String.ofList (t.keptName rules)) with
    | none => exact ⟨qs, t.simple, 0, by rw [hqs]; simp [brackets]⟩
    | some p =>
      -- the keyword of a primitive type is a name of one segment
      have hkeyword : p.keyword.toList ≠ [] := by cases p <;> decide
      refine ⟨[], ⟨p.keyword.toList, hkeyword, ?_⟩, 0, by simp [brackets, dotted]⟩
      exact List.all_eq_true.2 (isSegmentChar_of_mem_keyword p)
  · exact ⟨qs, t.simple, t.dims, by rw [hqs]⟩

/-- A dotted name with brackets is read as it stands. -/
theorem settled_dotted_brackets (qs : List Segment) (s : Segment) (k : Nat) :
    Settled (dotted qs s ++ brackets k) where
  tight := isTight_word fun c hc => by
    rcases List.mem_append.1 hc with hc | hc
    · exact isBlank_of_mem_dotted hc
    · rcases eq_of_mem_brackets hc with rfl | rfl <;> decide
  notBinary := by
    obtain ⟨c, cs, hcons, hc⟩ := exists_dotted_cons qs s
    rw [hcons, List.cons_append]
    refine ofBinaryArray?_cons ?_ _
    rintro rfl
    exact absurd hc (by decide)
  notVariadic := by
    rintro ⟨front, hfront⟩
    -- it would end with a dot, but it ends with a bracket or as its last segment does
    have hdot : (dotted qs s ++ brackets k).getLast? = some '.' := by
      rw [← hfront]
      simp
    obtain ⟨e, hlast, he⟩ := exists_getLast?_dotted qs s
    rcases Nat.eq_zero_or_pos k with rfl | hk
    · simp [brackets, hlast, he] at hdot
    · rw [List.getLast?_append, getLast?_brackets hk] at hdot
      simp at hdot

/-- `canonicalOwner` gives a dotted name for an owning type. -/
theorem OwnerName.exists_canonicalOwner_eq {text : List Char} (h : OwnerName text) :
    ∃ qs s, canonicalOwner text = dotted qs s := by
  obtain @⟨qs, s, ws, name, ws', hws, hname, hws'⟩ := h
  -- blanks behind the name leave nothing
  have hrest : ∀ last, tightenAfter last false ws' = [] :=
    fun last => tightenAfter_blanks hws' last false
  have hbehind : ∀ last, tightenAfter last false ws' = tighten ws' := by
    intro last
    rw [tighten, hrest, hrest]
  obtain ⟨name', herases, -, htighten⟩ := hname.exists_tighten hbehind
  refine ⟨qs, s, ?_⟩
  rw [canonicalOwner, tighten_trim, List.append_assoc, tighten_blanks hws, htighten, tighten, hrest]
  simpa [eraseArguments] using herases []

/-! ## Binary array names with gaps -/

/-- `normalize` writes no character into source text that was not there, but for spaces, dots and
    brackets. -/
theorem mem_of_mem_normalize_of_none {text : List Char}
    (hbinary : ofBinaryArray? (trim text) = none) {c : Char} (h : c ∈ normalize text) :
    c ∈ text ∨ c ∈ [' ', '.', '[', ']'] := by
  have hmem := mem_of_mem_normalize h
  rw [hbinary, Option.getD_none] at hmem
  exact hmem.imp_left mem_of_mem_trim

/-- A text without angle brackets that is no binary array name keeps an opening bracket in front,
    and the character at its end. -/
theorem exists_canonical_eq (rules : Rules) {text cs : List Char} {e : Char}
    (hbinary : ofBinaryArray? (trim text) = none) (hopen : '<' ∉ text) (hclose : '>' ∉ text)
    (htrim : trim text = '[' :: cs ++ [e]) (hblank : isBlank e = false) (hdot : e ≠ '.')
    (hdollar : e ≠ '$') : ∃ ds, canonical rules text = '[' :: ds ++ [e] := by
  -- follow the first and the last character through the steps
  obtain ⟨tight, htight⟩ := exists_tightenAfter_concat hblank none false cs
  have htighten : tighten text = '[' :: tight ++ [e] := by
    have hfirst := tightenAfter_punctuation Blank.nil (c := '[') (by decide) none false (cs ++ [e])
    rw [tighten, htight] at hfirst
    rw [← tighten_trim, htrim]
    exact hfirst
  have hnormalize : normalize text = '[' :: dotNested tight ++ [e] := by
    have hlast : dotNested [e] = [e] := dotNested_eq_self (by simpa using Ne.symm hdollar)
    rw [normalize_eq hbinary, htighten, arrayOfVariadic_of_getLast? List.getLast?_concat hdot,
      dotNested_append, hlast]
    rfl
  -- no angle brackets come up on the way
  have hdrop : dropArguments rules (normalize text) = normalize text := by
    refine dropArguments_eq_self fun _ => ⟨fun hmem => ?_, fun hmem => ?_⟩
    · exact hopen ((mem_of_mem_normalize_of_none hbinary hmem).resolve_right (by decide))
    · exact hclose ((mem_of_mem_normalize_of_none hbinary hmem).resolve_right (by decide))
  obtain ⟨ds, hds⟩ := exists_mapNamesFrom_concat rules hdot [] (dotNested tight)
  refine ⟨ds, ?_⟩
  rw [Descriptor.canonical_eq, hdrop, hnormalize,
    finish_eq_mapNames rules (c := '[') (by simp) (by decide), mapNames, List.cons_append,
    mapNamesFrom, if_neg (by decide), hds, List.reverse_nil, reduceName_nil]
  rfl

end Descriptor

namespace Key

open Text Descriptor

/-- A text without parentheses, commas and angle brackets is a whole parameter. -/
theorem isParameter_of_notMem {text : List Char}
    (h : ∀ c ∈ ['(', ')', ',', '<', '>'], c ∉ text) : IsParameter text where
  noOpening := h '(' (by decide)
  noClosing := h ')' (by decide)
  closes before hpre := by
    have hclose : before.count '>' = 0 :=
      List.count_eq_zero.2 fun hmem => h '>' (by decide) (hpre.subset hmem)
    omega
  commas before hpre := absurd (hpre.subset (by simp)) (h ',' (by decide))
  closed := by
    rw [List.count_eq_zero.2 (h '<' (by decide)), List.count_eq_zero.2 (h '>' (by decide))]

/-- A text that is read as one parameter, and as it stands. -/
def IsPlainParameter (text : List Char) : Prop :=
  text ≠ [] ∧ IsTrimmed text ∧ IsParameter text

/-- A dotted name with brackets is a plain parameter. -/
theorem isPlainParameter_dotted_brackets (qs : List Segment) (s : Segment) (k : Nat) :
    IsPlainParameter (dotted qs s ++ brackets k) := by
  refine ⟨?_, (settled_dotted_brackets qs s k).tight.trimmed, isParameter_of_notMem ?_⟩
  · obtain ⟨c, cs, hcons, -⟩ := exists_dotted_cons qs s
    simp [hcons]
  · intro c hc hmem
    have hplain : isSegmentChar c = true ∨ c = '.' ∨ c = '[' ∨ c = ']' := by
      rcases List.mem_append.1 hmem with hmem | hmem
      · exact (mem_dotted c hmem).imp_right .inl
      · exact .inr (.inr (eq_of_mem_brackets hmem))
    simp only [List.mem_cons, List.not_mem_nil, or_false] at hc
    rcases hc with rfl | rfl | rfl | rfl | rfl <;> exact absurd hplain (by decide)

/-- A binary array name with a gap is not recognized, so that only its names are reduced. -/
theorem isPlainParameter_of_gap (rules : Rules) {text cs : List Char} {e : Char}
    (hbinary : ofBinaryArray? (trim text) = none)
    (hmarks : ∀ c ∈ ['(', ')', ',', '<', '>'], c ∉ text) (htrim : trim text = '[' :: cs ++ [e])
    (he : isSegmentChar e = true ∨ e = ';') : IsPlainParameter (canonical rules text) := by
  -- the end of the name is left by every step
  have hend : isBlank e = false ∧ e ≠ '.' ∧ e ≠ '$' := by
    rcases he with he | rfl
    · refine ⟨isBlank_of_isSegmentChar he, ?_, ?_⟩ <;> rintro rfl <;> exact absurd he (by decide)
    · decide
  obtain ⟨ds, hds⟩ := exists_canonical_eq rules hbinary (hmarks '<' (by decide))
    (hmarks '>' (by decide)) htrim hend.1 hend.2.1 hend.2.2
  refine ⟨by simp [hds], ?_, isParameter_of_notMem fun c hc hmem => ?_⟩
  · rw [hds]
    constructor
    · rintro c ⟨rfl⟩
      decide
    · rw [List.getLast?_concat]
      rintro c ⟨rfl⟩
      exact hend.1
  -- marks are neither part of keywords nor written by the steps
  · have hc' : isSegmentChar c = false ∧ c ∉ [' ', '.', '[', ']'] := by
      simp only [List.mem_cons, List.not_mem_nil, or_false] at hc
      rcases hc with rfl | rfl | rfl | rfl | rfl <;> decide
    have hfinish := mem_of_mem_finish hmem hc'.1
    have hnormalize := (dropArguments_sublist rules _).subset hfinish
    exact hmarks c hc ((mem_of_mem_normalize_of_none hbinary hnormalize).resolve_right hc'.2)

/-- `canonical` gives a plain parameter, however the type is written. -/
theorem isPlainParameter_canonical {t : JavaType} {gaps : Bool} {text : List Char}
    (h : t.Written gaps text) {rules : Rules} (herase : rules.eraseGenerics = true) :
    IsPlainParameter (canonical rules text) := by
  -- without gaps, the canonical form is that of the type
  have hclose : ∀ {text}, t.Written false text → IsPlainParameter (canonical rules text) := by
    intro text h
    obtain ⟨qs, s, k, htext⟩ := exists_canonicalText_eq rules t
    rw [h.canonical_eq herase, htext]
    exact isPlainParameter_dotted_brackets qs s k
  cases h with
  | spelled h => exact hclose (.spelled h)
  | @binary ws opening element ws' hpos hws hopening helement hws' =>
    rcases hopening.eq_replicate_or with rfl | ⟨j, c, rest, hj, hc, hgap⟩
    · exact hclose (.binary hpos hws .replicate helement hws')
    -- behind a gap the name is not recognized
    have htrim := JavaType.Written.trim_binary hpos hws hopening helement hws'
    have hbinary : ofBinaryArray? (trim (ws ++ (opening ++ element) ++ ws')) = none := by
      rw [htrim, hgap, List.append_assoc]
      exact ofBinaryArray?_of_gap hj hc _
    obtain ⟨cs, e, hends, he⟩ := JavaType.Written.exists_binary_eq hpos hopening helement
    exact isPlainParameter_of_gap rules hbinary
      (JavaType.Written.notMem_binary hws hopening helement hws') (htrim.trans hends) he

end Key

end CallCycle

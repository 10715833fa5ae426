import CallCycle.Descriptor.Canonical
import CallCycle.Proofs.Spacing

/-!
# Spellings of a type

A type is a dotted name with a number of array dimensions.  `JavaType.Spells` lists the ways to
write it: as source text does, with blanks, type arguments, `$` between nested types and a final
`...` where it likes, or as a binary array name.

Normalization and the erasure of type arguments bring all of them to one text.

## Key results

- `SourceName.exists_tighten`: what tightening makes of a name in source text
- `SourceDims.arrayOfVariadic_tighten`: what becomes of array dimensions in source text
- `normalize_of_binary`: what becomes of a binary array name
- `JavaType.Spells.eraseArguments_normalize`: all spellings of a type end at one text
-/

namespace CallCycle.Descriptor

open Text

/-! ## Types -/

/-- The characters of a name between two dots. -/
def isSegmentChar (c : Char) : Bool :=
  (isWordChar c || c == '_') && !isBlank c

/-- A name between two dots. -/
structure Segment where
  chars : List Char
  ne_nil : chars ≠ []
  segmentChars : chars.all isSegmentChar = true
  deriving DecidableEq

/-- A type, by its name and the number of its array dimensions. -/
structure JavaType where
  /-- What stands in front of the last segment of the name. -/
  qualifiers : List Segment
  /-- The last segment of the name. -/
  simple : Segment
  dims : Nat

/-- A name with a dot between its segments. -/
def dotted : (qualifiers : List Segment) → (simple : Segment) → List Char
  | [], s => s.chars
  | q :: qs, s => q.chars ++ '.' :: dotted qs s

/-! ## Spellings -/

/-- A text in which every angle bracket has its partner. -/
inductive Balanced : List Char → Prop
  | nil : Balanced []
  | cons {c : Char} {text : List Char} (hopen : c ≠ '<') (hclose : c ≠ '>')
      (htext : Balanced text) : Balanced (c :: text)
  | nest {inner text : List Char} (hinner : Balanced inner) (htext : Balanced text) :
      Balanced ('<' :: inner ++ '>' :: text)

/-- Type arguments, or nothing. -/
inductive Arguments : List Char → Prop
  | absent : Arguments []
  | angled {ws inner ws' : List Char} (hws : Blank ws) (hinner : Balanced inner)
      (hws' : Blank ws') : Arguments (ws ++ '<' :: inner ++ '>' :: ws')

/-- What stands between two segments in source text. -/
inductive Separator : List Char → Prop
  | dot {ws ws' : List Char} (hws : Blank ws) (hws' : Blank ws') : Separator (ws ++ '.' :: ws')
  | dollar : Separator ['$']

/-- A name in source text. -/
inductive SourceName : List Segment → Segment → List Char → Prop
  | simple {s : Segment} {args : List Char} (hargs : Arguments args) :
      SourceName [] s (s.chars ++ args)
  | qualified {q s : Segment} {qs : List Segment} {args sep name : List Char}
      (hargs : Arguments args) (hsep : Separator sep) (hname : SourceName qs s name) :
      SourceName (q :: qs) s (q.chars ++ args ++ sep ++ name)

/-- Array dimensions in source text.  The last may be written as a variable number of arguments. -/
inductive SourceDims : Nat → List Char → Prop
  | scalar : SourceDims 0 []
  | bracketed {k : Nat} {ws ws' dims : List Char} (hws : Blank ws) (hws' : Blank ws')
      (hdims : SourceDims k dims) : SourceDims (k + 1) (ws ++ '[' :: ws' ++ ']' :: dims)
  | variadic {ws ws' ws'' : List Char} (hws : Blank ws) (hws' : Blank ws') (hws'' : Blank ws'') :
      SourceDims 1 (ws ++ '.' :: ws' ++ '.' :: ws'' ++ ['.'])

/-- A name in a binary array name. -/
inductive BinaryName : List Segment → Segment → List Char → Prop
  | simple {s : Segment} : BinaryName [] s s.chars
  | qualified {q s : Segment} {qs : List Segment} {sep : Char} {name : List Char}
      (hsep : sep ∈ ['/', '.', '$']) (hname : BinaryName qs s name) :
      BinaryName (q :: qs) s (q.chars ++ sep :: name)

/-- The ways to write a type. -/
inductive JavaType.Spells (t : JavaType) : List Char → Prop
  | source {ws name dims ws' : List Char} (hws : Blank ws)
      (hname : SourceName t.qualifiers t.simple name) (hdims : SourceDims t.dims dims)
      (hws' : Blank ws') : t.Spells (ws ++ name ++ dims ++ ws')
  | binaryClass {ws name ws' : List Char} (hpos : 0 < t.dims) (hws : Blank ws)
      (hname : BinaryName t.qualifiers t.simple name) (hws' : Blank ws') :
      t.Spells (ws ++ (List.replicate t.dims '[' ++ 'L' :: name ++ [';']) ++ ws')
  | binaryPrimitive {ws ws' : List Char} (p : Primitive) (hpos : 0 < t.dims)
      (hqualifiers : t.qualifiers = []) (hsimple : t.simple.chars = p.keyword.toList)
      (hws : Blank ws) (hws' : Blank ws') :
      t.Spells (ws ++ (List.replicate t.dims '[' ++ [p.letter]) ++ ws')

/-! ## Segments -/

namespace Segment

variable (s : Segment)

/-- The characters of a segment are `isSegmentChar`. -/
theorem isSegmentChar_of_mem {c : Char} (hc : c ∈ s.chars) : isSegmentChar c = true :=
  List.all_eq_true.1 s.segmentChars c hc

/-- Other characters are not in a segment. -/
theorem notMem {c : Char} (h : isSegmentChar c = false) : c ∉ s.chars := by
  intro hc
  rw [s.isSegmentChar_of_mem hc] at h
  exact nomatch h

/-- A segment has no blanks. -/
theorem isBlank_eq_false {c : Char} (hc : c ∈ s.chars) : isBlank c = false := by
  have hseg := s.isSegmentChar_of_mem hc
  rw [isSegmentChar, Bool.and_eq_true, Bool.not_eq_true'] at hseg
  exact hseg.2

/-- The characters of a segment are `isNameChar`. -/
theorem isNameChar {c : Char} (hc : c ∈ s.chars) : isNameChar c = true := by
  have hseg := s.isSegmentChar_of_mem hc
  rw [isSegmentChar, Bool.and_eq_true] at hseg
  rw [Descriptor.isNameChar, hseg.1, Bool.true_or]

/-- A segment begins with a character that is not blank. -/
theorem exists_cons : ∃ c cs, s.chars = c :: cs ∧ isBlank c = false := by
  obtain ⟨c, cs, hchars⟩ := List.exists_cons_of_ne_nil s.ne_nil
  exact ⟨c, cs, hchars, s.isBlank_eq_false (hchars ▸ List.mem_cons_self)⟩

/-- A segment does not end with a dot. -/
theorem exists_getLast : ∃ e, s.chars.getLast? = some e ∧ e ≠ '.' := by
  refine ⟨s.chars.getLast s.ne_nil, List.getLast?_eq_some_getLast s.ne_nil, ?_⟩
  intro hdot
  exact s.notMem (c := '.') (by decide) (hdot ▸ List.getLast_mem s.ne_nil)

end Segment

/-! ## Brackets -/

/-- One pair of `brackets` more. -/
theorem brackets_succ (k : Nat) : brackets (k + 1) = '[' :: ']' :: brackets k := by
  simp [brackets, List.replicate_succ]

/-- `brackets` has no other characters. -/
theorem eq_of_mem_brackets {k : Nat} {c : Char} (hc : c ∈ brackets k) : c = '[' ∨ c = ']' := by
  simp only [brackets, List.mem_flatten, List.mem_replicate] at hc
  obtain ⟨_, ⟨-, rfl⟩, hc⟩ := hc
  simpa using hc

/-- `brackets` ends with a closing one. -/
theorem getLast?_brackets {k : Nat} (hk : 0 < k) : (brackets k).getLast? = some ']' := by
  obtain ⟨j, rfl⟩ := Nat.exists_eq_add_one_of_ne_zero (Nat.ne_of_gt hk)
  rw [brackets, List.replicate_succ', List.flatten_append]
  simp

/-- `dotNested` leaves brackets as they are. -/
theorem dotNested_brackets (k : Nat) : dotNested (brackets k) = brackets k := by
  induction k with
  | zero => rfl
  | succ k ih =>
    rw [brackets_succ]
    simpa [dotNested] using ih

/-! ## Erasing type arguments -/

/-- Writing dots for `$` and erasing type arguments turns `text` into `out`, whatever follows. -/
def Erases (text out : List Char) : Prop :=
  ∀ rest, eraseArguments 0 (dotNested text ++ rest) = out ++ eraseArguments 0 rest

/-- `dotNested` goes character by character. -/
theorem dotNested_append (xs ys : List Char) :
    dotNested (xs ++ ys) = dotNested xs ++ dotNested ys :=
  List.map_append

namespace Erases

/-- `Erases` of nothing is nothing. -/
theorem nil : Erases [] [] := fun _ => rfl

/-- `Erases` goes piece by piece. -/
theorem append {xs ys out out' : List Char} (hx : Erases xs out) (hy : Erases ys out') :
    Erases (xs ++ ys) (out ++ out') := by
  intro rest
  rw [dotNested_append, List.append_assoc, hx, hy, List.append_assoc]

/-- `Erases` leaves a character other than an angle bracket, as a dot if it is `$`. -/
theorem singleton {c : Char} (hopen : c ≠ '<') (hclose : c ≠ '>') :
    Erases [c] [if c = '$' then '.' else c] := by
  intro rest
  by_cases hc : c = '$'
  · simp [dotNested, eraseArguments, hc]
  · simp [dotNested, eraseArguments, hc, hopen, hclose]

/-- `Erases` leaves a text without angle brackets and `$` as it is. -/
theorem word {w : List Char} (hw : ∀ c ∈ w, c ≠ '<' ∧ c ≠ '>' ∧ c ≠ '$') : Erases w w := by
  induction w with
  | nil => exact nil
  | cons c w ih =>
    obtain ⟨hopen, hclose, hdollar⟩ := hw c List.mem_cons_self
    have hc := singleton hopen hclose
    rw [if_neg hdollar] at hc
    exact hc.append (ih fun d hd => hw d (List.mem_cons_of_mem _ hd))

/-- `Erases` leaves a segment as it is. -/
theorem segment (s : Segment) : Erases s.chars s.chars := by
  refine word fun c hc => ⟨?_, ?_, ?_⟩ <;> rintro rfl
  · exact s.notMem (by decide) hc
  · exact s.notMem (by decide) hc
  · exact s.notMem (by decide) hc

/-- `Erases` leaves brackets as they are. -/
theorem brackets (k : Nat) : Erases (brackets k) (brackets k) := by
  refine word fun c hc => ?_
  rcases eq_of_mem_brackets hc with rfl | rfl <;> decide

end Erases

namespace Balanced

/-- `dotNested` keeps a text `Balanced`, as it writes no angle bracket. -/
theorem dotNested {text : List Char} (h : Balanced text) : Balanced (dotNested text) := by
  induction h with
  | nil => exact .nil
  | @cons c text hopen hclose _ ih =>
    -- a character that is no bracket is none as a dot either
    have hc : ∀ d ≠ '.', c ≠ d → (if c = '$' then '.' else c) ≠ d := by
      intro d hdot hne
      split
      · exact hdot.symm
      · exact hne
    exact .cons (hc '<' (by decide) hopen) (hc '>' (by decide) hclose) ih
  | nest _ _ ihinner ihtext =>
    simpa [Descriptor.dotNested] using Balanced.nest ihinner ihtext

/-- `eraseArguments` drops a balanced text inside angle brackets. -/
theorem eraseArguments {text : List Char} (h : Balanced text) (depth : Nat) (rest : List Char) :
    eraseArguments (depth + 1) (text ++ rest) = eraseArguments (depth + 1) rest := by
  induction h generalizing depth rest with
  | nil => rfl
  | cons hopen hclose _ ih => simp [Descriptor.eraseArguments, hopen, hclose, ih]
  | nest _ _ ihinner ihtext => simp [Descriptor.eraseArguments, ihinner, ihtext]

/-- `Erases` leaves nothing of a balanced text between angle brackets. -/
theorem erases {inner : List Char} (h : Balanced inner) : Erases ('<' :: inner ++ ['>']) [] := by
  intro rest
  have hinner := h.dotNested.eraseArguments 0 ('>' :: rest)
  simpa [Descriptor.dotNested, Descriptor.eraseArguments] using hinner

/-- `tightenAfter` keeps a text balanced up to a closing bracket, after which it starts afresh. -/
theorem exists_tightenAfter {text : List Char} (h : Balanced text) (last : Option Char)
    (gap : Bool) (rest : List Char) :
    ∃ inner, Balanced inner ∧
      tightenAfter last gap (text ++ '>' :: rest) = inner ++ '>' :: tighten rest := by
  induction h generalizing last gap rest with
  | nil => exact ⟨[], .nil, tightenAfter_punctuation Blank.nil (by decide) last gap rest⟩
  | @cons c text hopen hclose _ ih =>
    -- a blank is passed, and any other character is written
    by_cases hc : isBlank c = true
    · obtain ⟨inner, hinner, heq⟩ := ih last true rest
      refine ⟨inner, hinner, ?_⟩
      rw [List.cons_append, tightenAfter_blank_cons hc, heq]
    · obtain ⟨inner, hinner, heq⟩ := ih (some c) false rest
      simp only [List.cons_append, tightenAfter, if_neg hc, heq]
      -- a gap that is kept adds a space, which is no bracket
      split
      · exact ⟨' ' :: c :: inner, .cons (by decide) (by decide) (.cons hopen hclose hinner), rfl⟩
      · exact ⟨c :: inner, .cons hopen hclose hinner, rfl⟩
  | @nest inner text _ _ ihinner ihtext =>
    -- behind the inner brackets tightening starts afresh, and inside them as well
    obtain ⟨text', htext', heqtext⟩ := ihtext none false rest
    obtain ⟨inner', hinner', heqinner⟩ := ihinner none false (text ++ '>' :: rest)
    refine ⟨'<' :: inner' ++ '>' :: text', .nest hinner' htext', ?_⟩
    have hopen := tightenAfter_punctuation Blank.nil (c := '<') (by decide) last gap
      (inner ++ '>' :: (text ++ '>' :: rest))
    simp only [List.nil_append, tighten, heqinner, heqtext] at hopen
    simpa [tighten] using hopen

end Balanced

/-! ## Names in source text -/

/-- Tightened type arguments are erased.  What follows them is tightened after some character. -/
theorem Arguments.exists_tightenAfter {args : List Char} (h : Arguments args)
    (last : Option Char) (rest : List Char) :
    ∃ args' last', Erases args' [] ∧ (∀ e ∈ args'.getLast?, e ≠ '.') ∧
      tightenAfter last false (args ++ rest) = args' ++ tightenAfter last' false rest := by
  cases h with
  | absent => exact ⟨[], last, .nil, nofun, rfl⟩
  | @angled ws inner ws' hws hinner hws' =>
    obtain ⟨inner', hinner', heq⟩ := hinner.exists_tightenAfter none false (ws' ++ rest)
    refine ⟨'<' :: inner' ++ ['>'], none, hinner'.erases, ?_, ?_⟩
    · intro e he
      rw [List.getLast?_concat, Option.mem_some_iff] at he
      rw [← he]
      decide
    -- from the opening bracket on, nothing in front matters
    have hopen := tightenAfter_punctuation hws (c := '<') (by decide) last false
      (inner ++ '>' :: (ws' ++ rest))
    rw [tighten, heq, tighten_blanks hws'] at hopen
    simpa [tighten] using hopen

/-- A separator becomes a dot.  What follows it is tightened by itself. -/
theorem Separator.exists_tightenAfter {sep : List Char} (h : Separator sep) {c : Char}
    (hc : isBlank c = false) (last : Option Char) (cs : List Char) :
    ∃ d, Erases [d] ['.'] ∧
      tightenAfter last false (sep ++ c :: cs) = d :: tighten (c :: cs) := by
  cases h with
  | @dot ws ws' hws hws' =>
    refine ⟨'.', Erases.singleton (c := '.') (by decide) (by decide), ?_⟩
    have hdot := tightenAfter_punctuation hws (c := '.') (by decide) last false (ws' ++ c :: cs)
    rw [tighten_blanks hws'] at hdot
    simpa using hdot
  | dollar =>
    refine ⟨'$', Erases.singleton (c := '$') (by decide) (by decide), ?_⟩
    rw [List.singleton_append, tightenAfter_cons (by decide), tighten, tightenAfter_cons hc,
      tightenAfter_cons hc]

namespace SourceName

variable {qs : List Segment} {s : Segment} {text : List Char}

/-- A name begins with a character that is not blank, and not a bracket. -/
theorem exists_cons (h : SourceName qs s text) :
    ∃ c cs, text = c :: cs ∧ isBlank c = false ∧ c ≠ '[' := by
  -- whatever comes behind its first segment
  have hsegment : ∀ (r : Segment) (rest : List Char),
      ∃ c cs, r.chars ++ rest = c :: cs ∧ isBlank c = false ∧ c ≠ '[' := by
    intro r rest
    obtain ⟨c, cs, hchars, hc⟩ := r.exists_cons
    refine ⟨c, cs ++ rest, by rw [hchars, List.cons_append], hc, ?_⟩
    rintro rfl
    exact r.notMem (c := '[') (by decide) (hchars ▸ List.mem_cons_self)
  cases h with
  | simple hargs => exact hsegment s _
  | @qualified q _ _ args sep name hargs hsep hname =>
    simpa using hsegment q (args ++ (sep ++ name))

/-- Tightening a name gives a text that is erased to the dotted name, if the text behind the name
    is tightened by itself. -/
theorem exists_tighten (h : SourceName qs s text) {rest : List Char}
    (hrest : ∀ last, tightenAfter last false rest = tighten rest) :
    ∃ name, Erases name (dotted qs s) ∧ (∃ e, name.getLast? = some e ∧ e ≠ '.') ∧
      tighten (text ++ rest) = name ++ tighten rest := by
  induction h with
  | @simple s args hargs =>
    -- the segment stays, and its arguments are erased
    obtain ⟨args', last, herases, hdot, heq⟩ :=
      hargs.exists_tightenAfter (s.chars.getLast?.or none) rest
    refine ⟨s.chars ++ args', ?_, ?_, ?_⟩
    · simpa [dotted] using (Erases.segment s).append herases
    · obtain ⟨e, hlast, hne⟩ := s.exists_getLast
      cases hargs' : args'.getLast? with
      | none => exact ⟨e, by simp [hargs', hlast], hne⟩
      | some e' => exact ⟨e', by simp [hargs'], hdot e' hargs'⟩
    · rw [List.append_assoc, tighten, tightenAfter_word fun c hc => s.isBlank_eq_false hc, heq,
        hrest, List.append_assoc]
  | @qualified q s qs args sep text hargs hsep hname ih =>
    -- from the right: the rest of the name, then the separator, then the arguments
    obtain ⟨name, hname', ⟨e, hlast, hne⟩, heqname⟩ := ih
    obtain ⟨c, cs, rfl, hc, -⟩ := hname.exists_cons
    obtain ⟨args', last, herases, -, heqargs⟩ :=
      hargs.exists_tightenAfter (q.chars.getLast?.or none) (sep ++ c :: (cs ++ rest))
    obtain ⟨d, hd, heqsep⟩ := hsep.exists_tightenAfter hc last (cs ++ rest)
    refine ⟨q.chars ++ args' ++ d :: name, ?_, ⟨e, by simp [List.getLast?_cons, hlast], hne⟩, ?_⟩
    · simpa [dotted] using ((Erases.segment q).append herases).append (hd.append hname')
    · have hword := tightenAfter_word (fun c hc => q.isBlank_eq_false hc) none
        (args ++ (sep ++ c :: (cs ++ rest)))
      rw [heqargs, heqsep, ← List.cons_append, heqname] at hword
      simpa [tighten] using hword

end SourceName

/-! ## Array dimensions -/

/-- `arrayOfVariadic` leaves a text that does not end with a dot. -/
theorem arrayOfVariadic_of_getLast? {text : List Char} {e : Char} (hlast : text.getLast? = some e)
    (he : e ≠ '.') : arrayOfVariadic text = text := by
  rw [arrayOfVariadic]
  split
  · next element hdrop =>
    rw [dropBack?_eq_some_iff.1 hdrop] at hlast
    simp only [List.getLast?_append, List.getLast?_cons_cons, List.getLast?_singleton,
      Option.some_or, Option.some.injEq] at hlast
    exact absurd hlast.symm he
  · rfl

/-- `arrayOfVariadic` writes three dots at the end as brackets. -/
theorem arrayOfVariadic_dots (text : List Char) :
    arrayOfVariadic (text ++ ['.', '.', '.']) = text ++ ['[', ']'] := by
  rw [arrayOfVariadic, dropBack?_eq_some_iff.2 rfl]

namespace SourceDims

variable {k : Nat} {dims ws : List Char}

/-- Array dimensions are tightened by themselves. -/
theorem tightenAfter_eq_tighten (h : SourceDims k dims) (hws : Blank ws) (last : Option Char) :
    tightenAfter last false (dims ++ ws) = tighten (dims ++ ws) := by
  -- dimensions begin with punctuation, after which nothing carries over
  have hpunctuation : ∀ (blanks : List Char) (c : Char) (cs : List Char), Blank blanks →
      isPunctuation c = true →
      tightenAfter last false (blanks ++ c :: cs) = tighten (blanks ++ c :: cs) := by
    intro blanks c cs hblanks hc
    rw [tighten, tightenAfter_punctuation hblanks hc, tightenAfter_punctuation hblanks hc]
  cases h with
  | scalar => rw [List.nil_append, tighten, tightenAfter_blanks hws, tightenAfter_blanks hws]
  | bracketed hblanks _ _ => simpa using hpunctuation _ '[' _ hblanks (by decide)
  | variadic hblanks _ _ => simpa using hpunctuation _ '.' _ hblanks (by decide)

/-- Behind a name, array dimensions become brackets. -/
theorem arrayOfVariadic_tighten (h : SourceDims k dims) (hws : Blank ws) {name : List Char}
    (hname : ∃ e, name.getLast? = some e ∧ e ≠ '.') :
    arrayOfVariadic (name ++ tighten (dims ++ ws)) = name ++ brackets k := by
  -- each pair of brackets moves to the name, which goes on not to end with a dot
  induction h generalizing name with
  | scalar =>
    obtain ⟨e, hlast, he⟩ := hname
    have hnil : tighten ws = [] := tightenAfter_blanks hws none false
    rw [List.nil_append, hnil, List.append_nil, arrayOfVariadic_of_getLast? hlast he]
    simp [brackets]
  | @bracketed k ws₁ ws₂ dims hws₁ hws₂ _ ih =>
    -- the blanks around the two brackets are gone
    have htight : tighten (ws₁ ++ '[' :: ws₂ ++ ']' :: dims ++ ws) =
        '[' :: ']' :: tighten (dims ++ ws) := by
      have hopen := tightenAfter_punctuation hws₁ (c := '[') (by decide) none false
        (ws₂ ++ ']' :: (dims ++ ws))
      rw [tighten, tightenAfter_punctuation hws₂ (by decide)] at hopen
      simpa [tighten] using hopen
    have hname' : ∃ e, (name ++ ['[', ']']).getLast? = some e ∧ e ≠ '.' :=
      ⟨']', by simp, by decide⟩
    have hrest := ih hname'
    rw [htight, brackets_succ]
    simpa using hrest
  | @variadic ws₁ ws₂ ws₃ hws₁ hws₂ hws₃ =>
    -- the blanks around the three dots are gone
    have htight : tighten (ws₁ ++ '.' :: ws₂ ++ '.' :: ws₃ ++ ['.'] ++ ws) = ['.', '.', '.'] := by
      have hdots := tightenAfter_punctuation hws₁ (c := '.') (by decide) none false
        (ws₂ ++ '.' :: (ws₃ ++ '.' :: ws))
      rw [tighten, tightenAfter_punctuation hws₂ (by decide), tighten,
        tightenAfter_punctuation hws₃ (by decide), tighten, tightenAfter_blanks hws] at hdots
      simpa [tighten] using hdots
    rw [htight, arrayOfVariadic_dots]
    rfl

end SourceDims

/-! ## Binary array names -/

/-- `ofBinaryArray?` asks for a bracket in front. -/
theorem ofBinaryArray?_cons {c : Char} (h : c ≠ '[') (cs : List Char) :
    ofBinaryArray? (c :: cs) = none := by
  simp [ofBinaryArray?, h]

/-- `ofBinaryArray?` counts the brackets in front and reads the element behind them. -/
theorem ofBinaryArray?_replicate {k : Nat} (hk : 0 < k) {c : Char} (hc : c ≠ '[')
    (cs : List Char) : ofBinaryArray? (List.replicate k '[' ++ c :: cs) =
      (ofBinaryElement? (c :: cs)).map (· ++ brackets k) := by
  -- the brackets in front are exactly `k`
  have hall : ∀ d ∈ List.replicate k '[', decide (d = '[') = true := by simp
  have htake : ((List.replicate k '[' ++ c :: cs).takeWhile (· = '[')).length = k := by
    rw [List.takeWhile_append_of_pos hall]
    simp [hc]
  have hdrop : (List.replicate k '[' ++ c :: cs).dropWhile (· = '[') = c :: cs := by
    rw [List.dropWhile_append_of_pos hall]
    simp [hc]
  obtain ⟨j, rfl⟩ := Nat.exists_eq_add_one_of_ne_zero (Nat.ne_of_gt hk)
  simp only [ofBinaryArray?, htake, hdrop]

/-- `ofBinaryElement?` reads a class name between `L` and `;`. -/
theorem ofBinaryElement?_class {name : List Char} (h : name ≠ []) :
    ofBinaryElement? ('L' :: (name ++ [';'])) =
      some (name.map fun c => if c = '/' then '.' else c) := by
  have hback : dropBack? [';'] (name ++ [';']) = some name := dropBack?_eq_some_iff.2 rfl
  obtain ⟨c, cs, hcons⟩ := List.exists_cons_of_ne_nil (List.append_ne_nil_of_left_ne_nil h [';'])
  rw [hcons] at hback
  simp [ofBinaryElement?, hcons, dropFront?, hback, h]

/-- `trim` drops the blanks around a binary array name. -/
theorem trim_binary {k : Nat} (hk : 0 < k) {ws ws' cs : List Char} (hws : Blank ws)
    (hws' : Blank ws') {e : Char} (he : isBlank e = false) :
    trim (ws ++ (List.replicate k '[' ++ cs ++ [e]) ++ ws') =
      List.replicate k '[' ++ cs ++ [e] := by
  obtain ⟨j, rfl⟩ := Nat.exists_eq_add_one_of_ne_zero (Nat.ne_of_gt hk)
  rw [List.replicate_succ, List.cons_append]
  exact trim_blanks hws hws' (by decide) he

/-- `normalize` reads a binary array name at once, and then only its nested types change. -/
theorem normalize_of_binary {text base : List Char} {k : Nat} (hk : 0 < k)
    (hbase : ∀ c ∈ base, isBlank c = false)
    (h : ofBinaryArray? (trim text) = some (base ++ brackets k)) :
    normalize text = dotNested base ++ brackets k := by
  have hblank : ∀ c ∈ base ++ brackets k, isBlank c = false := by
    intro c hc
    rcases List.mem_append.1 hc with hc | hc
    · exact hbase c hc
    · rcases eq_of_mem_brackets hc with rfl | rfl <;> decide
  -- an array name does not end with dots
  have hlast : (base ++ brackets k).getLast? = some ']' := by
    rw [List.getLast?_append, getLast?_brackets hk, Option.some_or]
  simp only [normalize, h, Option.getD_some]
  rw [tighten_word hblank, arrayOfVariadic_of_getLast? hlast (by decide), dotNested_append,
    dotNested_brackets]

namespace BinaryName

variable {qs : List Segment} {s : Segment} {name : List Char}

/-- A name in a binary array name is not empty. -/
theorem ne_nil (h : BinaryName qs s name) : name ≠ [] := by
  cases h with
  | simple => exact s.ne_nil
  | qualified _ _ => simp

/-- A name in a binary array name has no blanks. -/
theorem isBlank_eq_false (h : BinaryName qs s name) : ∀ c ∈ name, isBlank c = false := by
  induction h with
  | simple => exact fun c hc => Segment.isBlank_eq_false _ hc
  | @qualified q s qs sep name hsep _ ih =>
    intro c hc
    -- in the first segment, the separator, or the rest
    rcases List.mem_append.1 hc with hc | hc
    · exact q.isBlank_eq_false hc
    · rcases List.mem_cons.1 hc with rfl | hc
      · simp only [List.mem_cons, List.not_mem_nil, or_false] at hsep
        rcases hsep with rfl | rfl | rfl <;> decide
      · exact ih c hc

/-- A name is erased to the dotted name when its slashes are dots. -/
theorem erases (h : BinaryName qs s name) :
    Erases (name.map fun c => if c = '/' then '.' else c) (dotted qs s) := by
  -- a segment has no slashes to be turned
  have hsegment : ∀ r : Segment, (r.chars.map fun c => if c = '/' then '.' else c) = r.chars := by
    intro r
    refine (List.map_congr_left fun c hc => if_neg ?_).trans (List.map_id _)
    rintro rfl
    exact r.notMem (by decide) hc
  induction h with
  | simple =>
    rw [hsegment, dotted]
    exact Erases.segment _
  | @qualified q s qs sep name hsep _ ih =>
    -- each of the three separators ends as a dot
    have hdot : Erases [if sep = '/' then '.' else sep] ['.'] := by
      simp only [List.mem_cons, List.not_mem_nil, or_false] at hsep
      rcases hsep with rfl | rfl | rfl
      · exact Erases.singleton (c := '.') (by decide) (by decide)
      · exact Erases.singleton (c := '.') (by decide) (by decide)
      · exact Erases.singleton (c := '$') (by decide) (by decide)
    rw [List.map_append, List.map_cons, hsegment, dotted]
    exact (Erases.segment q).append (hdot.append ih)

end BinaryName

/-! ## All spellings -/

namespace JavaType.Spells

variable {t : JavaType} {text : List Char}

/-- Normalization leaves brackets and a text that is erased to the dotted name. -/
theorem exists_normalize (h : t.Spells text) :
    ∃ name, Erases name (dotted t.qualifiers t.simple) ∧
      normalize text = dotNested name ++ brackets t.dims := by
  cases h with
  | @source ws name dims ws' hws hname hdims hws' =>
    obtain ⟨name', herases, hlast, htight⟩ :=
      hname.exists_tighten fun last => hdims.tightenAfter_eq_tighten hws' last
    refine ⟨name', herases, ?_⟩
    -- the first character belongs to a segment, so the text is no binary array name
    obtain ⟨c, cs, rfl, hc, hbracket⟩ := hname.exists_cons
    obtain ⟨rest, htrim⟩ := exists_trim_cons hws hc (cs ++ (dims ++ ws'))
    have hnone : ofBinaryArray? (trim (ws ++ (c :: cs) ++ dims ++ ws')) = none := by
      simp only [List.append_assoc, List.cons_append, htrim]
      exact ofBinaryArray?_cons hbracket rest
    have htighten : tighten (ws ++ (c :: cs) ++ dims ++ ws') = name' ++ tighten (dims ++ ws') := by
      rw [List.append_assoc, List.append_assoc, tighten_blanks hws, htight]
    simp only [normalize, hnone, Option.getD_none]
    rw [tighten_trim, htighten, hdims.arrayOfVariadic_tighten hws' hlast, dotNested_append,
      dotNested_brackets]
  | @binaryClass ws name ws' hpos hws hname hws' =>
    refine ⟨_, hname.erases, normalize_of_binary hpos ?_ ?_⟩
    · intro c hc
      obtain ⟨d, hd, rfl⟩ := List.mem_map.1 hc
      split
      · decide
      · exact hname.isBlank_eq_false d hd
    · rw [trim_binary hpos hws hws' (by decide), List.append_assoc, List.cons_append,
        ofBinaryArray?_replicate hpos (by decide), ofBinaryElement?_class hname.ne_nil,
        Option.map_some]
  | @binaryPrimitive ws ws' p hpos hqualifiers hsimple hws hws' =>
    -- a letter is neither blank nor a bracket
    have hletter : isBlank p.letter = false ∧ p.letter ≠ '[' := by cases p <;> decide
    have helement : ofBinaryElement? [p.letter] = some t.simple.chars := by
      rw [ofBinaryElement?, Primitive.ofLetter?_letter, Option.map_some, hsimple]
    refine ⟨t.simple.chars, ?_, normalize_of_binary hpos ?_ ?_⟩
    · rw [hqualifiers, dotted]
      exact Erases.segment t.simple
    · exact fun c hc => t.simple.isBlank_eq_false hc
    · have htrim : trim (ws ++ (List.replicate t.dims '[' ++ [] ++ [p.letter]) ++ ws') = _ :=
        trim_binary hpos hws hws' hletter.1
      rw [List.append_nil] at htrim
      rw [htrim, ofBinaryArray?_replicate hpos hletter.2, helement, Option.map_some]

/-- Without type arguments, all spellings of a type are one text. -/
theorem eraseArguments_normalize (h : t.Spells text) :
    eraseArguments 0 (normalize text) = dotted t.qualifiers t.simple ++ brackets t.dims := by
  obtain ⟨name, herases, hnormalize⟩ := h.exists_normalize
  have hbrackets := Erases.brackets t.dims []
  rw [dotNested_brackets, List.append_nil] at hbrackets
  rw [hnormalize, herases, hbrackets, eraseArguments, List.append_nil]

end JavaType.Spells

end CallCycle.Descriptor

import CallCycle.Key.Parse
import CallCycle.Proofs.Spacing
import Mathlib.Data.List.DropRight

/-!
# Texts of methods

The text `Owner.name(T1, T2)` of a symbol can be read as a key if no part of it is mistaken for
another: the owner has no parenthesis, the name neither a parenthesis nor a dot, and each type is a
whole parameter, with all brackets closed and no comma outside of them.  The parts come back
trimmed, which makes no difference to the canonical form.

## Key results

- `splitFirst?_eq_some_iff`, `splitLast?_of_notMem`: where a text is cut
- `splitFrom_parameter`: no parameter is cut
- `splitFrom_intercalate`: a parameter list is cut between its parameters
- `parse_display`: what is read from the text of a symbol
- `canonicalized_trimmed`: trimming makes no difference to the canonical form
-/

namespace CallCycle

namespace Text

/-! ## Cutting -/

section Cutting

variable {α : Type} [DecidableEq α] {sep : α} {xs before after : List α}

/-- What is taken up to the first separator, and what is left from it on. -/
theorem takeWhile_ne_append (h : sep ∉ before) (after : List α) :
    (before ++ sep :: after).takeWhile (· ≠ sep) = before ∧
      (before ++ sep :: after).dropWhile (· ≠ sep) = sep :: after := by
  have hall : ∀ x ∈ before, decide (x ≠ sep) = true := by
    intro x hx
    rw [decide_eq_true_eq]
    rintro rfl
    exact h hx
  rw [List.takeWhile_append_of_pos hall, List.dropWhile_append_of_pos hall]
  simp

/-- `splitFirst?` cuts a text at the first separator, and nowhere else. -/
theorem splitFirst?_eq_some_iff :
    splitFirst? sep xs = some (before, after) ↔ xs = before ++ sep :: after ∧ sep ∉ before := by
  constructor
  · intro h
    rw [splitFirst?] at h
    split at h
    · cases h
    · next x rest hdrop =>
      simp only [Option.some.injEq, Prod.mk.injEq] at h
      obtain ⟨rfl, rfl⟩ := h
      -- the first character that is not taken is the separator
      have hx : x = sep := by
        have hhead := List.head?_dropWhile_not (fun y : α => decide (y ≠ sep)) xs
        rw [hdrop] at hhead
        simpa using hhead
      refine ⟨?_, fun hmem => ?_⟩
      · rw [← hx, ← hdrop, hx, List.takeWhile_append_dropWhile]
      · have hne := List.all_eq_true.1 List.all_takeWhile sep hmem
        simp at hne
  · rintro ⟨rfl, h⟩
    obtain ⟨htake, hdrop⟩ := takeWhile_ne_append h after
    rw [splitFirst?, hdrop, htake]

/-- `splitLast?` cuts a text at the last separator. -/
theorem splitLast?_of_notMem (h : sep ∉ after) (before : List α) :
    splitLast? sep (before ++ sep :: after) = some (before, after) := by
  -- seen from the end, the last separator is the first one
  have hrev : (before ++ sep :: after).reverse = after.reverse ++ sep :: before.reverse := by simp
  obtain ⟨htake, hdrop⟩ := takeWhile_ne_append (mt List.mem_reverse.1 h) before.reverse
  rw [splitLast?, afterLast, hrev, hdrop, htake]
  simp

end Cutting

/-! ## Trimming -/

/-- `trimStart` does not reach behind a character that is not blank. -/
theorem trimStart_append {cs : List Char} (h : cs.all isBlank = false) (rest : List Char) :
    trimStart (cs ++ rest) = trimStart cs ++ rest := by
  have hne : cs.dropWhile isBlank ≠ [] := by
    rw [Ne, List.dropWhile_eq_nil_iff]
    intro hall
    rw [List.all_eq_true.2 hall] at h
    exact nomatch h
  rw [trimStart, List.dropWhile_append, if_neg (by simpa using hne), trimStart]

/-- `trimStart` leaves what it gave. -/
theorem trimStart_trimStart (cs : List Char) : trimStart (trimStart cs) = trimStart cs :=
  List.dropWhile_idempotent _ _

/-- `trimEnd` leaves what it gave. -/
theorem trimEnd_trimEnd (cs : List Char) : trimEnd (trimEnd cs) = trimEnd cs := by
  rw [trimEnd, trimEnd, List.reverse_reverse]
  exact congrArg _ (List.dropWhile_idempotent _ _)

/-- `trimStart` does nothing that `trim` does not. -/
theorem trim_trimStart (cs : List Char) : trim (trimStart cs) = trim cs := by
  rw [trim, trimStart_trimStart, trim]

/-- `trim` leaves what it gave: trimming a text at its end and in front comes to the same in either
    order. -/
theorem trim_trim (cs : List Char) : trim (trim cs) = trim cs := by
  by_cases h : trimStart cs = []
  · have hnil : trim cs = [] := by rw [trim, h]; rfl
    rw [hnil]
    rfl
  · -- the first character is not blank, and it stays in front
    obtain ⟨c, rest, hcons⟩ := List.exists_cons_of_ne_nil h
    have hc : isBlank c = false := by
      have hhead := List.head?_dropWhile_not isBlank cs
      rw [show cs.dropWhile isBlank = c :: rest from hcons] at hhead
      simpa using hhead
    rw [trim, trim, hcons, trimEnd_cons hc, trimStart_cons hc, ← trimEnd_cons hc, trimEnd_trimEnd]

/-- `trim` leaves nothing of blanks only. -/
theorem trim_eq_nil_iff {cs : List Char} : trim cs = [] ↔ cs.all isBlank = true := by
  rw [trim, trimEnd, List.reverse_eq_nil_iff, List.dropWhile_eq_nil_iff, List.all_eq_true]
  constructor
  · intro h
    -- what is left in front has only blanks, of which nothing is left
    have hnil : trimStart (trimStart cs) = [] := by
      rw [trimStart, List.dropWhile_eq_nil_iff]
      exact fun c hc => h c (List.mem_reverse.2 hc)
    rw [trimStart_trimStart, trimStart, List.dropWhile_eq_nil_iff] at hnil
    exact hnil
  · intro h c hc
    exact h c ((List.dropWhile_sublist _).subset (List.mem_reverse.1 hc))

/-- `trim` drops a blank in front. -/
theorem trim_blank_cons {c : Char} (h : isBlank c = true) (cs : List Char) :
    trim (c :: cs) = trim cs := by
  rw [trim, trim, trimStart, List.dropWhile_cons_of_pos h, trimStart]

end Text

namespace Key

open Text

/-! ## Parameters -/

/-- A text that stands in a parameter list where `depth` brackets are open: it has no parenthesis,
    closes no bracket that is not open, and has no comma where none is open. -/
structure Inside (depth : Nat) (text : List Char) : Prop where
  noOpening : '(' ∉ text
  noClosing : ')' ∉ text
  closes : ∀ before, before <+: text → before.count '>' ≤ depth + before.count '<'
  commas : ∀ before, before ++ [','] <+: text → before.count '>' < depth + before.count '<'

/-- A whole parameter: all brackets that are opened are closed. -/
structure IsParameter (text : List Char) : Prop extends Inside 0 text where
  closed : text.count '<' = text.count '>'

/-- The number of open brackets behind a character. -/
def depthAfter (depth : Nat) (c : Char) : Nat :=
  if c = '<' then depth + 1 else if c = '>' then depth - 1 else depth

/-- What is counted behind a character, where `depthAfter` brackets are open, and what is counted
    from it on. -/
theorem depthAfter_add_count {depth : Nat} {c : Char} (h : c = '>' → 0 < depth)
    (before : List Char) :
    depth + (c :: before).count '<' + before.count '>' =
      depthAfter depth c + before.count '<' + (c :: before).count '>' := by
  -- a bracket counts on one side, and changes the depth on the other
  by_cases hopen : c = '<'
  · subst hopen
    have hother : ('<' :: before).count '>' = before.count '>' := by simp
    simp only [List.count_cons_self, hother, depthAfter, if_true]
    omega
  · by_cases hclose : c = '>'
    · subst hclose
      have hother : ('>' :: before).count '<' = before.count '<' := by simp
      have hpos := h rfl
      simp only [List.count_cons_self, hother, depthAfter, if_neg hopen, if_true]
      omega
    · simp only [depthAfter, if_neg hopen, if_neg hclose, List.count_cons_of_ne hopen,
        List.count_cons_of_ne hclose]

/-- Whether a text is `Inside` is known from its first character and the rest. -/
theorem Inside.cons_iff {depth : Nat} {c : Char} {cs : List Char} :
    Inside depth (c :: cs) ↔
      c ≠ '(' ∧ c ≠ ')' ∧ (c = '>' → 0 < depth) ∧ (c = ',' → 0 < depth) ∧
        Inside (depthAfter depth c) cs := by
  constructor
  · intro h
    -- the text up to this character closes no more than is open
    have hclose : c = '>' → 0 < depth := by
      rintro rfl
      have hle := h.closes ['>'] (by simp)
      simp at hle
      omega
    refine ⟨fun heq => h.noOpening (by simp [heq]), fun heq => h.noClosing (by simp [heq]), hclose,
      ?_, ⟨fun hmem => h.noOpening (List.mem_cons_of_mem _ hmem),
        fun hmem => h.noClosing (List.mem_cons_of_mem _ hmem), fun before hpre => ?_,
        fun before hpre => ?_⟩⟩
    · rintro rfl
      simpa using h.commas [] (by simp)
    · have hle := h.closes (c :: before) (List.cons_prefix_cons.2 ⟨rfl, hpre⟩)
      have := depthAfter_add_count hclose before
      omega
    · have hlt := h.commas (c :: before) (List.cons_prefix_cons.2 ⟨rfl, hpre⟩)
      have := depthAfter_add_count hclose before
      omega
  · rintro ⟨hopen, hclosing, hclose, hcomma, h⟩
    -- each text in front is empty or begins with `c`
    refine ⟨?_, ?_, fun before hpre => ?_, fun before hpre => ?_⟩
    · simp [Ne.symm hopen, h.noOpening]
    · simp [Ne.symm hclosing, h.noClosing]
    · cases before with
      | nil => simp
      | cons d before =>
        obtain ⟨rfl, hpre'⟩ := List.cons_prefix_cons.1 hpre
        have hle := h.closes before hpre'
        have := depthAfter_add_count hclose before
        omega
    · cases before with
      | nil =>
        obtain ⟨rfl, -⟩ := List.cons_prefix_cons.1 hpre
        simpa using hcomma rfl
      | cons d before =>
        rw [List.cons_append] at hpre
        obtain ⟨rfl, hpre'⟩ := List.cons_prefix_cons.1 hpre
        have hlt := h.commas before hpre'
        have := depthAfter_add_count hclose before
        omega

/-- The empty text is `Inside` at every depth. -/
theorem Inside.nil (depth : Nat) : Inside depth [] := by
  refine ⟨nofun, nofun, fun before hpre => ?_, fun before hpre => ?_⟩
  · rw [List.prefix_nil.1 hpre]
    exact Nat.zero_le _
  · exact absurd (List.prefix_nil.1 hpre) (by simp)

instance Inside.decidable : (depth : Nat) → (text : List Char) → Decidable (Inside depth text)
  | depth, [] => isTrue (.nil depth)
  | depth, c :: cs =>
    have := decidable (depthAfter depth c) cs
    decidable_of_iff' _ Inside.cons_iff

/-- `IsParameter` as a conjunction, each part of which can be decided. -/
theorem isParameter_iff {text : List Char} :
    IsParameter text ↔ Inside 0 text ∧ text.count '<' = text.count '>' :=
  ⟨fun h => ⟨h.toInside, h.closed⟩, fun h => ⟨h.1, h.2⟩⟩

instance (text : List Char) : Decidable (IsParameter text) :=
  decidable_of_iff' _ isParameter_iff

/-- A space in front does not matter to a parameter. -/
theorem IsParameter.space_cons {text : List Char} (h : IsParameter text) :
    IsParameter (' ' :: text) := by
  have hinside : Inside 0 (' ' :: text) :=
    Inside.cons_iff.2 ⟨by decide, by decide, by simp, by simp, h.toInside⟩
  exact ⟨hinside, by simpa using h.closed⟩

/-! ## Parameter lists -/

/-- `splitFrom` takes a character at which it does not cut into the current piece. -/
theorem splitFrom_cons {depth : Nat} {c : Char} (hopen : c ≠ '(') (hclosing : c ≠ ')')
    (hclose : c = '>' → 0 < depth) (hcomma : c = ',' → 0 < depth) (piece cs : List Char) :
    splitFrom depth piece (c :: cs) = splitFrom (depthAfter depth c) (c :: piece) cs := by
  rw [splitFrom, if_neg (by simp [hopen, hclosing]), depthAfter]
  -- opening bracket, closing bracket, or any other character
  by_cases hlt : c = '<'
  · rw [if_pos hlt, if_pos hlt]
  · rw [if_neg hlt, if_neg hlt]
    by_cases hgt : c = '>'
    · have hpos := hclose hgt
      rw [if_pos hgt, if_pos hgt, if_neg (by omega)]
    · have hkeep : ¬ (c = ',' ∧ depth = 0) := by
        rintro ⟨heq, hzero⟩
        have hpos := hcomma heq
        omega
      rw [if_neg hgt, if_neg hgt, if_neg hkeep]

/-- `splitFrom` takes a text that is `Inside` into the current piece as a whole. -/
theorem splitFrom_inside {depth : Nat} {text : List Char} (h : Inside depth text)
    (piece rest : List Char) :
    ∃ depth', depth + text.count '<' = depth' + text.count '>' ∧
      splitFrom depth piece (text ++ rest) = splitFrom depth' (text.reverse ++ piece) rest := by
  induction text generalizing depth piece with
  | nil => exact ⟨depth, rfl, rfl⟩
  | cons c cs ih =>
    obtain ⟨hopen, hclosing, hclose, hcomma, hrest⟩ := Inside.cons_iff.1 h
    obtain ⟨depth', hdepth, heq⟩ := ih hrest (c :: piece)
    refine ⟨depth', ?_, ?_⟩
    · have hcount := depthAfter_add_count hclose cs
      omega
    · rw [List.cons_append, splitFrom_cons hopen hclosing hclose hcomma, heq]
      simp

/-- `splitFrom` takes a parameter into the current piece, and no bracket is open behind it. -/
theorem splitFrom_parameter {text : List Char} (h : IsParameter text) (piece rest : List Char) :
    splitFrom 0 piece (text ++ rest) = splitFrom 0 (text.reverse ++ piece) rest := by
  obtain ⟨depth, hdepth, heq⟩ := splitFrom_inside h.toInside piece rest
  have hclosed := h.closed
  have hzero : depth = 0 := by omega
  rw [heq, hzero]

/-- `splitFrom` cuts a parameter list between its parameters. -/
theorem splitFrom_intercalate {p : List Char} {ps : List (List Char)}
    (h : ∀ q ∈ p :: ps, IsParameter q) :
    splitFrom 0 [] ([','].intercalate (p :: ps)) = .ok (p :: ps) := by
  induction ps generalizing p with
  | nil =>
    have hlast := splitFrom_parameter (h p List.mem_cons_self) [] []
    simpa [splitFrom] using hlast
  | cons q ps ih =>
    -- the first parameter is a piece, up to the comma behind it
    have hfirst := splitFrom_parameter (h p List.mem_cons_self) []
      (',' :: [','].intercalate (q :: ps))
    have hrest := ih fun r hr => h r (List.mem_cons_of_mem _ hr)
    rw [List.intercalate_cons_cons, List.append_assoc, List.singleton_append, hfirst]
    simp [splitFrom, hrest, Except.map]

/-- Commas with a space behind them are commas, and the spaces belong to the parameters. -/
theorem intercalate_comma_space (t : List Char) (ts : List (List Char)) :
    [',', ' '].intercalate (t :: ts) = [','].intercalate (t :: ts.map (' ' :: ·)) := by
  induction ts generalizing t with
  | nil => rfl
  | cons u ts ih =>
    -- the space moves into the piece behind the comma
    have hspace : ∀ us : List (List Char), [','].intercalate ((' ' :: u) :: us) =
        ' ' :: [','].intercalate (u :: us) := by
      intro us
      cases us with
      | nil => rfl
      | cons v us => simp [List.intercalate_cons_cons]
    rw [List.intercalate_cons_cons, ih, List.map_cons, List.intercalate_cons_cons, hspace]
    simp

/-- `parseParameters` gives the parameters of a list, trimmed. -/
theorem parseParameters_intercalate {types : List (List Char)}
    (h : ∀ t ∈ types, t.all isBlank = false ∧ IsParameter t) :
    parseParameters ([',', ' '].intercalate types) = .ok (types.map trim) := by
  cases types with
  | nil => rfl
  | cons t ts =>
    obtain ⟨hblank, -⟩ := h t List.mem_cons_self
    -- the list is not blank, as its first type is not
    have hinner : ([',', ' '].intercalate (t :: ts)).all isBlank = false := by
      cases ts with
      | nil => simpa using hblank
      | cons u ts => simp only [List.intercalate_cons_cons, List.all_append, hblank, Bool.false_and]
    have hsplit : splitFrom 0 [] ([',', ' '].intercalate (t :: ts)) =
        .ok (t :: ts.map (' ' :: ·)) := by
      rw [intercalate_comma_space]
      refine splitFrom_intercalate fun q hq => ?_
      rcases List.mem_cons.1 hq with rfl | hq
      · exact (h q List.mem_cons_self).2
      · obtain ⟨u, hu, rfl⟩ := List.mem_map.1 hq
        exact (h u (List.mem_cons_of_mem _ hu)).2.space_cons
    -- the spaces that belong to the pieces are trimmed
    have htrim : (t :: ts.map (' ' :: ·)).map trim = (t :: ts).map trim := by
      have hspace : ∀ u : List Char, trim (' ' :: u) = trim u := trim_blank_cons (by decide)
      simp [hspace]
    have hfull : ((t :: ts).map trim).any List.isEmpty = false := by
      rw [List.any_eq_false]
      intro u hu
      obtain ⟨v, hv, rfl⟩ := List.mem_map.1 hu
      rw [List.isEmpty_iff, trim_eq_nil_iff, (h v hv).1]
      decide
    simp only [parseParameters, hinner, hsplit, bind, Except.bind, htrim, hfull, Bool.false_eq_true,
      if_false]

/-! ## Texts of symbols -/

/-- `parseParts` finds the parts of a signature, trimmed. -/
theorem parseParts_signature {owner name : List Char} {types : List (List Char)}
    (howner : owner.all isBlank = false) (hownerOpening : '(' ∉ owner)
    (hname : name.all isBlank = false) (hnameDot : '.' ∉ name) (hnameOpening : '(' ∉ name)
    (htypes : ∀ t ∈ types, t.all isBlank = false ∧ IsParameter t) :
    parseParts (owner ++ '.' :: name ++ '(' :: [',', ' '].intercalate types ++ [')']) =
      .ok (trim owner, trim name, types.map trim) := by
  -- only blanks in front of the owner are dropped from the text
  have htrim : trim (owner ++ '.' :: name ++ '(' :: [',', ' '].intercalate types ++ [')']) =
      (trimStart owner ++ '.' :: name) ++ '(' :: ([',', ' '].intercalate types ++ [')']) := by
    have hstart := trimStart_append howner
      ('.' :: name ++ '(' :: [',', ' '].intercalate types ++ [')'])
    have hend := trimEnd_concat (c := ')') (by decide)
      (trimStart owner ++ '.' :: name ++ '(' :: [',', ' '].intercalate types)
    simp only [List.append_assoc, List.cons_append] at hstart hend ⊢
    rw [trim, hstart, hend]
  have hopening : '(' ∉ trimStart owner ++ '.' :: name := by
    have hsub : '(' ∉ trimStart owner :=
      fun hmem => hownerOpening ((List.dropWhile_sublist _).subset hmem)
    simp [hsub, hnameOpening]
  -- then the text is cut at the first parenthesis, its end and the last dot
  have hfirst := splitFirst?_eq_some_iff.2 ⟨htrim, hopening⟩
  have hback : dropBack? [')'] ([',', ' '].intercalate types ++ [')']) =
      some ([',', ' '].intercalate types) := dropBack?_eq_some_iff.2 rfl
  have hlast := splitLast?_of_notMem hnameDot (trimStart owner)
  have hownerTrim : (trim owner).isEmpty = false := by
    rw [← Bool.not_eq_true, List.isEmpty_iff, trim_eq_nil_iff, howner]
    decide
  have hnameTrim : (trim name).isEmpty = false := by
    rw [← Bool.not_eq_true, List.isEmpty_iff, trim_eq_nil_iff, hname]
    decide
  simp only [parseParts, hfirst, hback, hlast, trim_trimStart, hownerTrim, hnameTrim,
    parseParameters_intercalate htypes, Except.map, Bool.false_eq_true, if_false]

end Key

/-- A symbol whose text can be read: the owner and the name are not blank and have no opening
    parenthesis, the name has no dot, and each type is a parameter that is not blank. -/
structure Symbol.Readable (s : Symbol) : Prop where
  owner : Text.isBlankText s.owner = false
  ownerOpening : '(' ∉ s.owner.toList
  name : Text.isBlankText s.name = false
  nameDot : '.' ∉ s.name.toList
  nameOpening : '(' ∉ s.name.toList
  types : ∀ t ∈ s.types, Text.isBlankText t = false ∧ Key.IsParameter t.toList

namespace Key

/-- The characters of `signatureText`. -/
theorem toList_signatureText (owner name : String) (types : List String) :
    (signatureText owner name types).toList =
      owner.toList ++ '.' :: name.toList ++
        '(' :: [',', ' '].intercalate (types.map String.toList) ++ [')'] := by
  simp [signatureText, String.toList_intercalate]

/-- `parse` reads the text of a symbol as its parts, trimmed. -/
theorem parse_display {s : Symbol} (h : s.Readable) :
    parse s.display =
      .ok ⟨Text.trimmed s.owner, Text.trimmed s.name, s.types.map Text.trimmed⟩ := by
  -- the conditions on types are conditions on their characters
  have htypes : ∀ t ∈ s.types.map String.toList,
      t.all Text.isBlank = false ∧ IsParameter t := by
    intro t ht
    obtain ⟨u, hu, rfl⟩ := List.mem_map.1 ht
    exact h.types u hu
  have hparts := parseParts_signature h.owner h.ownerOpening h.name h.nameDot h.nameOpening htypes
  rw [← toList_signatureText] at hparts
  simp only [parse, Symbol.display, hparts, Text.trimmed, List.map_map]
  rfl

/-- `trimmed` does nothing that `Rules.descriptor` does not. -/
theorem descriptor_trimmed (rules : Rules) (text : String) :
    rules.descriptor (Text.trimmed text) = rules.descriptor text := by
  simp only [Rules.descriptor, Text.trimmed, String.toList_ofList, Descriptor.canonical,
    Descriptor.normalize, Text.trim_trim]

/-- `trimmed` does nothing that `Rules.owner` does not. -/
theorem owner_trimmed (rules : Rules) (text : String) :
    rules.owner (Text.trimmed text) = rules.owner text := by
  simp only [Rules.owner, Text.trimmed, String.toList_ofList, Descriptor.canonicalOwner,
    Text.trim_trim]

/-- `trimmed` makes no difference to the canonical form. -/
theorem canonicalized_trimmed (rules : Rules) (owner name : String) (types : List String) :
    canonicalized rules ⟨Text.trimmed owner, Text.trimmed name, types.map Text.trimmed⟩ =
      ofParts rules owner name types := by
  have hname : Text.trimmed (Text.trimmed name) = Text.trimmed name := by
    simp only [Text.trimmed, String.toList_ofList, Text.trim_trim]
  simp only [canonicalized, ofParts, owner_trimmed, hname, List.map_map, Key.mk.injEq, true_and]
  exact List.map_congr_left fun text _ => descriptor_trimmed rules text

/-- `parseCanonical` reads the text of a symbol as the key of the symbol. -/
theorem parseCanonical_display {s : Symbol} (h : s.Readable) (rules : Rules) :
    parseCanonical rules s.display = .ok (ofSymbol rules s) := by
  rw [parseCanonical, parse_display h, Except.map, canonicalized_trimmed, ofSymbol]

end Key

end CallCycle

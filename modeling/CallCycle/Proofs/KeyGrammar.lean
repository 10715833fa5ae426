import CallCycle.Proofs.KeyText

/-!
# What is read as a key

A text that is read as a key has an owner, a name and a parameter list, and the parts of the key are
those of the text without the blanks around them.  This makes the key well formed: its own text is
read as the same key again, which holds of no other key.

## Key results

- `splitFrom_eq_ok_iff`: a parameter list is cut into whole parameters
- `parseParts_eq_ok_iff`: the parts of a text that is read as a key
- `WellFormed.of_parse`: what is read is well formed
- `parse_display_iff_wellFormed`: exactly the well-formed keys are read back from their texts
-/

namespace CallCycle

namespace Text

/-! ## Trimmed texts -/

/-- A text without a blank at either end. -/
def IsTrimmed (cs : List Char) : Prop :=
  (∀ c ∈ cs.head?, isBlank c = false) ∧ ∀ c ∈ cs.getLast?, isBlank c = false

/-- `trim` leaves no blank at either end. -/
theorem isTrimmed_trim (cs : List Char) : IsTrimmed (trim cs) := by
  constructor
  · intro c hc
    cases hstart : trimStart cs with
    | nil =>
      rw [trim, hstart] at hc
      cases hc
    | cons d rest =>
      -- the first character that is left is not blank, and stays at the other end
      have hd : isBlank d = false := by
        have hhead := List.head?_dropWhile_not isBlank cs
        rw [show cs.dropWhile isBlank = d :: rest from hstart] at hhead
        simpa using hhead
      rw [trim, hstart, trimEnd_cons hd, List.head?_cons, Option.mem_some_iff] at hc
      exact hc ▸ hd
  · intro c hc
    rw [trim, trimEnd, List.getLast?_reverse] at hc
    have hhead := List.head?_dropWhile_not isBlank (trimStart cs).reverse
    rw [Option.mem_def.1 hc] at hhead
    simpa using hhead

/-- `trim` leaves a trimmed text. -/
theorem IsTrimmed.trim_eq {cs : List Char} (h : IsTrimmed cs) : trim cs = cs := by
  obtain ⟨hhead, hlast⟩ := h
  cases cs with
  | nil => rfl
  | cons c rest =>
    have hc : isBlank c = false := hhead c rfl
    -- neither its first nor its last character is blank
    obtain ⟨init, e, heq⟩ := (List.eq_nil_or_concat' (c :: rest)).resolve_left (by simp)
    have he : isBlank e = false := by
      apply hlast e
      rw [heq, List.getLast?_concat]
      rfl
    rw [trim, trimStart_cons hc, heq, trimEnd_concat he]

/-- `trim` leaves exactly the trimmed texts. -/
theorem trim_eq_self_iff {cs : List Char} : trim cs = cs ↔ IsTrimmed cs :=
  ⟨fun h => h ▸ isTrimmed_trim cs, IsTrimmed.trim_eq⟩

instance (cs : List Char) : Decidable (IsTrimmed cs) :=
  decidable_of_iff _ trim_eq_self_iff

/-- `trim` takes blanks away at both ends. -/
theorem exists_append_trim_append (cs : List Char) :
    ∃ ws ws', Blank ws ∧ Blank ws' ∧ cs = ws ++ (trim cs ++ ws') := by
  obtain ⟨ws', hws', hend⟩ := exists_trimEnd_append (trimStart cs)
  refine ⟨cs.takeWhile isBlank, ws', List.all_eq_true.1 List.all_takeWhile, hws', ?_⟩
  rw [trim, ← hend, trimStart, List.takeWhile_append_dropWhile]

/-- `trim` writes no character. -/
theorem mem_of_mem_trim {c : Char} {cs : List Char} (h : c ∈ trim cs) : c ∈ cs := by
  obtain ⟨ws, ws', -, -, heq⟩ := exists_append_trim_append cs
  rw [heq]
  exact List.mem_append_right _ (List.mem_append_left _ h)

/-- A `Blank` text has no other characters. -/
theorem Blank.notMem {ws : List Char} (h : Blank ws) {c : Char} (hc : isBlank c = false) :
    c ∉ ws := by
  intro hmem
  rw [h c hmem] at hc
  cases hc

/-- `splitLast?` cuts a text at the last separator, and nowhere else. -/
theorem splitLast?_eq_some_iff {α : Type} [DecidableEq α] {sep : α} {xs before after : List α} :
    splitLast? sep xs = some (before, after) ↔ xs = before ++ sep :: after ∧ sep ∉ after := by
  constructor
  · intro h
    rw [splitLast?] at h
    split at h
    · cases h
    · next x rest hdrop =>
      simp only [Option.some.injEq, Prod.mk.injEq] at h
      obtain ⟨rfl, rfl⟩ := h
      -- seen from the end, the last separator is the first one
      have hfirst : splitFirst? sep xs.reverse =
          some (xs.reverse.takeWhile (· ≠ sep), rest) := by rw [splitFirst?, hdrop]
      obtain ⟨heq, hnot⟩ := splitFirst?_eq_some_iff.1 hfirst
      have hrev := congrArg List.reverse heq
      rw [List.reverse_reverse] at hrev
      constructor
      · rw [List.reverse_append, List.reverse_cons, List.append_assoc] at hrev
        exact hrev
      · rw [afterLast, List.mem_reverse]
        exact hnot
  · rintro ⟨rfl, h⟩
    exact splitLast?_of_notMem h before

end Text

namespace Key

open Text

/-! ## Parameters -/

/-- `depthAfter` does not count blanks. -/
theorem depthAfter_of_isBlank {c : Char} (h : isBlank c = true) (depth : Nat) :
    depthAfter depth c = depth := by
  have hopen : c ≠ '<' := by rintro rfl; exact absurd h (by decide)
  have hclose : c ≠ '>' := by rintro rfl; exact absurd h (by decide)
  rw [depthAfter, if_neg hopen, if_neg hclose]

/-- The front of a text that is `Inside` is so too. -/
theorem Inside.of_append {depth : Nat} {text rest : List Char} (h : Inside depth (text ++ rest)) :
    Inside depth text where
  noOpening hmem := h.noOpening (List.mem_append_left _ hmem)
  noClosing hmem := h.noClosing (List.mem_append_left _ hmem)
  closes before hpre := h.closes before (hpre.trans (List.prefix_append _ _))
  commas before hpre := h.commas before (hpre.trans (List.prefix_append _ _))

/-- A text that is `Inside` is so without the blanks in front of it. -/
theorem Inside.of_blanks {depth : Nat} {ws text : List Char} (hws : Blank ws)
    (h : Inside depth (ws ++ text)) : Inside depth text := by
  induction ws with
  | nil => exact h
  | cons c ws ih =>
    obtain ⟨-, -, -, -, hrest⟩ := Inside.cons_iff.1 h
    rw [depthAfter_of_isBlank hws.head] at hrest
    exact ih hws.tail hrest

/-- `trim` leaves a parameter of a parameter. -/
theorem IsParameter.trim {text : List Char} (h : IsParameter text) :
    IsParameter (Text.trim text) := by
  obtain ⟨ws, ws', hws, hws', heq⟩ := exists_append_trim_append text
  have hinside := h.toInside
  have hclosed := h.closed
  rw [heq] at hinside hclosed
  refine ⟨(hinside.of_blanks hws).of_append, ?_⟩
  -- blanks have no brackets to be counted
  have hcount : ∀ {c}, isBlank c = false → ws.count c = 0 ∧ ws'.count c = 0 := fun hc =>
    ⟨List.count_eq_zero.2 (hws.notMem hc), List.count_eq_zero.2 (hws'.notMem hc)⟩
  obtain ⟨hopen, hopen'⟩ := hcount (show isBlank '<' = false by decide)
  obtain ⟨hclose, hclose'⟩ := hcount (show isBlank '>' = false by decide)
  simp only [List.count_append] at hclosed
  omega

/-! ## Parameter lists -/

/-- What `splitFrom` cuts a parameter list into, where `depth` brackets are open and `piece` has
    been read of the first parameter. -/
theorem exists_of_splitFrom_eq_ok {depth : Nat} {piece cs : List Char} {qs : List (List Char)}
    (h : splitFrom depth piece cs = .ok qs) :
    ∃ p ps, qs = (piece.reverse ++ p) :: ps ∧ cs = [','].intercalate (p :: ps) ∧
      Inside depth p ∧ depth + p.count '<' = p.count '>' ∧ ∀ q ∈ ps, IsParameter q := by
  induction cs generalizing depth piece qs with
  | nil =>
    rw [splitFrom] at h
    split at h
    · next hzero =>
      cases h
      exact ⟨[], [], by simp, rfl, .nil depth, by simp [hzero], by simp⟩
    · cases h
  | cons c cs ih =>
    -- one case for each branch of the scanner
    by_cases hparen : c = '(' ∨ c = ')'
    · rw [splitFrom, if_pos hparen] at h
      cases h
    by_cases hcut : c = ',' ∧ depth = 0
    · -- the first parameter ends here, and another one begins
      obtain ⟨rfl, rfl⟩ := hcut
      simp only [splitFrom, Char.reduceEq, or_self, if_false, and_self, if_true] at h
      cases hrest : splitFrom 0 [] cs with
      | error e => simp [hrest, Except.map] at h
      | ok rs =>
        obtain ⟨p, ps, rfl, rfl, hinside, hclosed, hparams⟩ := ih hrest
        simp only [hrest, Except.map, Except.ok.injEq] at h
        subst h
        refine ⟨[], p :: ps, by simp, by simp [List.intercalate_cons_cons], .nil 0, rfl, ?_⟩
        intro q hq
        rcases List.mem_cons.1 hq with rfl | hq
        · exact ⟨hinside, by omega⟩
        · exact hparams q hq
    -- a bracket is closed that was never opened
    by_cases hstray : c = '>' ∧ depth = 0
    · obtain ⟨rfl, rfl⟩ := hstray
      simp [splitFrom] at h
    · -- the character belongs to the first parameter
      have hclose : c = '>' → 0 < depth := fun heq =>
        Nat.pos_of_ne_zero fun hzero => hstray ⟨heq, hzero⟩
      have hcomma : c = ',' → 0 < depth := fun heq =>
        Nat.pos_of_ne_zero fun hzero => hcut ⟨heq, hzero⟩
      obtain ⟨hopen, hclosing⟩ := not_or.1 hparen
      rw [splitFrom_cons hopen hclosing hclose hcomma] at h
      obtain ⟨p, ps, rfl, rfl, hinside, hclosed, hparams⟩ := ih h
      refine ⟨c :: p, ps, by simp, ?_, Inside.cons_iff.2 ⟨hopen, hclosing, hclose, hcomma, hinside⟩,
        ?_, hparams⟩
      · cases ps with
        | nil => simp
        | cons q ps => simp [List.intercalate_cons_cons]
      · have hcount := depthAfter_add_count hclose p
        omega

/-- `splitFrom` cuts a parameter list into the parameters that it joins. -/
theorem splitFrom_eq_ok_iff {cs : List Char} {qs : List (List Char)} :
    splitFrom 0 [] cs = .ok qs ↔
      qs ≠ [] ∧ cs = [','].intercalate qs ∧ ∀ q ∈ qs, IsParameter q := by
  constructor
  · intro h
    obtain ⟨p, ps, rfl, rfl, hinside, hclosed, hparams⟩ := exists_of_splitFrom_eq_ok h
    refine ⟨by simp, rfl, fun q hq => ?_⟩
    rcases List.mem_cons.1 hq with rfl | hq
    · exact ⟨hinside, by simpa using hclosed⟩
    · exact hparams q hq
  · rintro ⟨hne, rfl, hparams⟩
    obtain ⟨p, ps, rfl⟩ := List.exists_cons_of_ne_nil hne
    exact splitFrom_intercalate hparams

/-- `parseParameters` gives the pieces between the commas of a parameter list that is not blank,
    trimmed. -/
theorem parseParameters_eq_ok_iff {inner : List Char} {params : List (List Char)} :
    parseParameters inner = .ok params ↔
      inner.all isBlank = true ∧ params = [] ∨
        inner.all isBlank = false ∧ ∃ pieces, pieces ≠ [] ∧ inner = [','].intercalate pieces ∧
          (∀ q ∈ pieces, IsParameter q) ∧ pieces.map trim = params ∧ ∀ p ∈ params, p ≠ [] := by
  cases hblank : inner.all isBlank with
  | true => simp [parseParameters, hblank, eq_comm]
  | false =>
    simp only [parseParameters, hblank, Bool.false_eq_true, if_false, false_and, false_or, true_and]
    constructor
    · intro h
      cases hsplit : splitFrom 0 [] inner with
      | error e => simp [hsplit, bind, Except.bind] at h
      | ok pieces =>
        simp only [hsplit, bind, Except.bind] at h
        split at h
        · cases h
        · next hfull =>
          cases h
          obtain ⟨hne, hinner, hparams⟩ := splitFrom_eq_ok_iff.1 hsplit
          refine ⟨pieces, hne, hinner, hparams, rfl, fun p hp hnil => hfull ?_⟩
          exact List.any_eq_true.2 ⟨p, hp, List.isEmpty_iff.2 hnil⟩
    · rintro ⟨pieces, hne, hinner, hparams, rfl, hfull⟩
      -- no piece is empty once it is trimmed
      have hany : (pieces.map trim).any List.isEmpty = false := by
        rw [List.any_eq_false]
        exact fun p hp hnil => hfull p hp (List.isEmpty_iff.1 hnil)
      simp [splitFrom_eq_ok_iff.2 ⟨hne, hinner, hparams⟩, bind, Except.bind, hany]

/-! ## Keys -/

/-- The parts that `parseParts` finds in a text: up to the first opening parenthesis the last dot
    divides owner and name, and the rest is a parameter list with its closing parenthesis. -/
theorem parseParts_eq_ok_iff {text owner name : List Char} {params : List (List Char)} :
    parseParts text = .ok (owner, name, params) ↔
      ∃ front back inner, trim text = (front ++ '.' :: back) ++ '(' :: (inner ++ [')']) ∧
        '(' ∉ front ++ '.' :: back ∧ '.' ∉ back ∧ owner = trim front ∧ name = trim back ∧
        owner ≠ [] ∧ name ≠ [] ∧ parseParameters inner = .ok params := by
  constructor
  · intro h
    -- each step that can fail has not
    rw [parseParts] at h
    split at h
    · cases h
    next head rest hfirst =>
    split at h
    · cases h
    next inner hback =>
    split at h
    · cases h
    next front back hlast =>
    split at h
    · cases h
    next howner =>
    split at h
    · cases h
    next hname =>
    cases hparams : parseParameters inner with
    | error e => simp [hparams, Except.map] at h
    | ok ps =>
      simp only [hparams, Except.map, Except.ok.injEq, Prod.mk.injEq] at h
      obtain ⟨rfl, rfl, rfl⟩ := h
      obtain ⟨htext, hopening⟩ := splitFirst?_eq_some_iff.1 hfirst
      obtain ⟨rfl, hdot⟩ := splitLast?_eq_some_iff.1 hlast
      rw [dropBack?_eq_some_iff.1 hback] at htext
      rw [List.isEmpty_iff] at howner hname
      exact ⟨front, back, inner, htext, hopening, hdot, rfl, rfl, howner, hname, hparams⟩
  · rintro ⟨front, back, inner, htext, hopening, hdot, rfl, rfl, howner, hname, hparams⟩
    have hfirst := splitFirst?_eq_some_iff.2 ⟨htext, hopening⟩
    have hback : dropBack? [')'] (inner ++ [')']) = some inner := dropBack?_eq_some_iff.2 rfl
    have hlast := splitLast?_of_notMem hdot front
    rw [Ne, ← List.isEmpty_iff, Bool.not_eq_true] at howner hname
    simp only [parseParts, hfirst, hback, hlast, howner, hname, hparams, Except.map,
      Bool.false_eq_true, if_false]

/-- A text that is a part of a key: it is not empty, and has no blank at either end. -/
def IsPart (text : String) : Prop :=
  text ≠ "" ∧ IsTrimmed text.toList

instance (text : String) : Decidable (IsPart text) :=
  inferInstanceAs (Decidable (_ ∧ _))

/-- What is left of a text by `trim` is a part, if it is anything. -/
theorem isPart_ofList {cs : List Char} (hne : trim cs ≠ []) : IsPart (String.ofList (trim cs)) := by
  refine ⟨fun hnil => hne ?_, ?_⟩
  · have hlist := congrArg String.toList hnil
    rwa [String.toList_ofList] at hlist
  · rw [String.toList_ofList]
    exact isTrimmed_trim cs

/-- `trimmed` leaves a part. -/
theorem IsPart.trimmed_eq {text : String} (h : IsPart text) : trimmed text = text := by
  rw [trimmed, h.2.trim_eq, String.ofList_toList]

/-- A part is not blank. -/
theorem IsPart.isBlankText_eq_false {text : String} (h : IsPart text) :
    isBlankText text = false := by
  rw [isBlankText, ← Bool.not_eq_true, ← trim_eq_nil_iff, h.2.trim_eq]
  exact fun hnil => h.1 (String.toList_eq_nil_iff.1 hnil)

/-- A key that is read back from its text: owner and name have no opening parenthesis, the name has
    no dot, and each parameter type is a whole parameter. -/
structure WellFormed (k : Key) : Prop where
  owner : IsPart k.owner
  ownerOpening : '(' ∉ k.owner.toList
  name : IsPart k.name
  nameDot : '.' ∉ k.name.toList
  nameOpening : '(' ∉ k.name.toList
  params : ∀ p ∈ k.params, IsPart p ∧ IsParameter p.toList

/-- `WellFormed` as a conjunction, each part of which can be decided. -/
theorem wellFormed_iff {k : Key} :
    k.WellFormed ↔ (IsPart k.owner ∧ '(' ∉ k.owner.toList) ∧
      (IsPart k.name ∧ '.' ∉ k.name.toList ∧ '(' ∉ k.name.toList) ∧
        ∀ p ∈ k.params, IsPart p ∧ IsParameter p.toList := by
  constructor
  · exact fun h => ⟨⟨h.owner, h.ownerOpening⟩, ⟨h.name, h.nameDot, h.nameOpening⟩, h.params⟩
  · rintro ⟨⟨howner, hopening⟩, ⟨hname, hdot, hnameOpening⟩, hparams⟩
    exact ⟨howner, hopening, hname, hdot, hnameOpening, hparams⟩

instance (k : Key) : Decidable k.WellFormed :=
  decidable_of_iff' _ wellFormed_iff

/-- `parse` reads the text of a well-formed key as that key. -/
theorem WellFormed.parse_display {k : Key} (h : k.WellFormed) : parse k.display = .ok k := by
  have hreadable : Symbol.Readable ⟨k.owner, k.name, k.params⟩ :=
    { owner := h.owner.isBlankText_eq_false
      ownerOpening := h.ownerOpening
      name := h.name.isBlankText_eq_false
      nameDot := h.nameDot
      nameOpening := h.nameOpening
      types := fun p hp => ⟨(h.params p hp).1.isBlankText_eq_false, (h.params p hp).2⟩ }
  -- the parts of the key are trimmed already
  have hparams : k.params.map trimmed = k.params := by
    rw [List.map_congr_left (g := id) fun p hp => (h.params p hp).1.trimmed_eq, List.map_id]
  have hread := Key.parse_display hreadable
  rw [h.owner.trimmed_eq, h.name.trimmed_eq, hparams] at hread
  exact hread

/-- `parse` gives well-formed keys. -/
theorem WellFormed.of_parse {text : String} {k : Key} (h : parse text = .ok k) : k.WellFormed := by
  rw [parse] at h
  split at h
  · next owner name params hparts =>
    cases h
    obtain ⟨front, back, inner, -, hopening, hdot, rfl, rfl, howner, hname, hinner⟩ :=
      parseParts_eq_ok_iff.1 hparts
    -- what is trimmed has no character that was not there
    rw [List.mem_append, List.mem_cons, not_or, not_or] at hopening
    refine ⟨isPart_ofList howner, ?_, isPart_ofList hname, ?_, ?_, ?_⟩
    · rw [String.toList_ofList]
      exact fun hmem => hopening.1 (mem_of_mem_trim hmem)
    · rw [String.toList_ofList]
      exact fun hmem => hdot (mem_of_mem_trim hmem)
    · rw [String.toList_ofList]
      exact fun hmem => hopening.2.2 (mem_of_mem_trim hmem)
    · intro p hp
      obtain ⟨param, hparam, rfl⟩ := List.mem_map.1 hp
      rcases parseParameters_eq_ok_iff.1 hinner with
        ⟨-, rfl⟩ | ⟨-, pieces, -, -, hwhole, rfl, hfull⟩
      · cases hparam
      · have hne := hfull param hparam
        obtain ⟨piece, hpiece, rfl⟩ := List.mem_map.1 hparam
        refine ⟨isPart_ofList hne, ?_⟩
        rw [String.toList_ofList]
        exact (hwhole piece hpiece).trim
  · cases h

/-- `WellFormed` keys are exactly the keys that `parse` reads back from their texts.  Whatever text
    a key is read from, the key is well formed, so that its text is read as the same key again; and
    no two well-formed keys have the same text. -/
theorem parse_display_iff_wellFormed :
    (∀ k : Key, parse k.display = .ok k ↔ k.WellFormed) ∧
    (∀ (text : String) (k : Key), parse text = .ok k →
      k.WellFormed ∧ parse k.display = .ok k) ∧
    ∀ k k' : Key, k.WellFormed → k'.WellFormed → k.display = k'.display → k = k' := by
  refine ⟨fun k => ⟨WellFormed.of_parse, WellFormed.parse_display⟩, fun text k h => ?_,
    fun k k' h h' hdisplay => ?_⟩
  · have hk := WellFormed.of_parse h
    exact ⟨hk, hk.parse_display⟩
  -- both keys are read from the same text
  · have hread := h.parse_display
    rw [hdisplay, h'.parse_display] at hread
    exact (Except.ok.inj hread).symm

/-- `parse` reads a text with blanks in many places as a key whose text has none of them; the same
    text for other parts is not read back. -/
theorem parse_display_iff_wellFormed_put :
    (∃ k : Key, parse " app.Map .put ( Entry<K, V> ,int ) " = .ok k ∧
      k.display = "app.Map.put(Entry<K, V>, int)" ∧ parse k.display = .ok k) ∧
    parse (Key.display ⟨"app.Map", "put", ["Entry<K", "V>", "int"]⟩) ≠
      .ok ⟨"app.Map", "put", ["Entry<K", "V>", "int"]⟩ := by
  obtain ⟨hiff, hread, -⟩ := parse_display_iff_wellFormed
  constructor
  · have hparse : parse " app.Map .put ( Entry<K, V> ,int ) " =
        .ok ⟨"app.Map", "put", ["Entry<K, V>", "int"]⟩ := by decide +kernel
    exact ⟨_, hparse, by decide +kernel, (hread _ _ hparse).2⟩
  · rw [Ne, hiff]
    decide +kernel

end Key

end CallCycle

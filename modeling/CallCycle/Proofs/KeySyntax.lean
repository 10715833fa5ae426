import CallCycle.Proofs.KeyGrammar

/-!
# The grammar of keys

Which texts denote which keys, said without the reader: owner and name stand in front of the first
parenthesis, with the last dot in front of it between them, and the types in the parentheses are
cut at the commas that no angle bracket encloses.  Blanks around each part do not count.

The reader takes exactly the texts that denote a key, and gives the key that they denote.  It
refuses all others, and the error has the text as it was given.

## Key results

- `parseParameters_eq_ok_iff_lists`: the types that are read from a parameter list
- `parse_eq_ok_iff`: the key that is read from a text
- `parse_iff_denotes`: what is read, and what is refused
-/

namespace CallCycle.Key

open Text

/-! ## The grammar -/

/-- A parameter list, and the types that it lists.  A blank one lists none; any other is made of
    whole parameters with commas between them, and each of these is a type with blanks around it. -/
inductive Lists : (inner : List Char) → (types : List String) → Prop
  | none {inner : List Char} (hblank : Blank inner) : Lists inner []
  | some {pieces : List (List Char)} (hne : pieces ≠ []) (hwhole : ∀ q ∈ pieces, IsParameter q)
      (hfull : ∀ q ∈ pieces, trim q ≠ []) :
      Lists ([','].intercalate pieces) (pieces.map fun q => String.ofList (trim q))

/-- A text denotes a key: without the blanks around it, it is the owner, a dot, the name and a
    parameter list in parentheses.  Owner and name have no opening parenthesis, the name has no dot,
    and neither of them is blank. -/
def Denotes (text : String) (k : Key) : Prop :=
  ∃ front back inner : List Char,
    trim text.toList = front ++ '.' :: back ++ '(' :: inner ++ [')'] ∧
      '(' ∉ front ∧ '(' ∉ back ∧ '.' ∉ back ∧
      k.owner = String.ofList (trim front) ∧ k.owner ≠ "" ∧
      k.name = String.ofList (trim back) ∧ k.name ≠ "" ∧ Lists inner k.params

/-! ## What is read -/

/-- A text of characters is empty iff there are none. -/
theorem ofList_ne_empty_iff {cs : List Char} : String.ofList cs ≠ "" ↔ cs ≠ [] := by
  rw [Ne, ← String.toList_inj, String.toList_ofList]
  rfl

/-- `parseParameters` gives the types that a parameter list `Lists`. -/
theorem parseParameters_eq_ok_iff_lists {inner : List Char} {types : List String} :
    (∃ params, parseParameters inner = .ok params ∧ params.map String.ofList = types) ↔
      Lists inner types := by
  constructor
  · rintro ⟨params, hparams, rfl⟩
    rcases parseParameters_eq_ok_iff.1 hparams with
      ⟨hblank, rfl⟩ | ⟨-, pieces, hne, rfl, hwhole, rfl, hfull⟩
    · exact .none (List.all_eq_true.1 hblank)
    · rw [List.map_map]
      exact .some hne hwhole fun q hq => hfull _ (List.mem_map_of_mem hq)
  · intro h
    cases h with
    | none hblank =>
      exact ⟨[], parseParameters_eq_ok_iff.2 (.inl ⟨List.all_eq_true.2 hblank, rfl⟩), rfl⟩
    | @some pieces hne hwhole hfull =>
      have hfull' : ∀ p ∈ pieces.map trim, p ≠ [] := by
        intro p hp
        obtain ⟨q, hq, rfl⟩ := List.mem_map.1 hp
        exact hfull q hq
      -- a list of types is not blank, since its first piece is not
      have hblank : ([','].intercalate pieces).all isBlank = false := by
        obtain ⟨p, ps, rfl⟩ := List.exists_cons_of_ne_nil hne
        have hp : p.all isBlank = false := by
          rw [← Bool.not_eq_true, ← trim_eq_nil_iff]
          exact hfull p List.mem_cons_self
        cases ps with
        | nil => simpa using hp
        | cons q ps => simp only [List.intercalate_cons_cons, List.all_append, hp, Bool.false_and]
      refine ⟨pieces.map trim, ?_, by rw [List.map_map]; rfl⟩
      exact parseParameters_eq_ok_iff.2 (.inr ⟨hblank, pieces, hne, rfl, hwhole, rfl, hfull'⟩)

/-- `parse` gives the key that is made of the parts that `parseParts` finds. -/
theorem parse_eq_ok_iff_parts {text : String} {k : Key} :
    parse text = .ok k ↔ ∃ owner name params,
      parseParts text.toList = .ok (owner, name, params) ∧ k.owner = String.ofList owner ∧
        k.name = String.ofList name ∧ params.map String.ofList = k.params := by
  rw [parse]
  constructor
  · intro h
    split at h
    · next owner name params hparts =>
      cases h
      exact ⟨owner, name, params, hparts, rfl, rfl, rfl⟩
    · cases h
  · rintro ⟨owner, name, params, hparts, howner, hname, hparams⟩
    rw [hparts]
    cases k
    simp_all

/-- `parse` gives the key that a text `Denotes`. -/
theorem parse_eq_ok_iff {text : String} {k : Key} : parse text = .ok k ↔ Denotes text k := by
  rw [parse_eq_ok_iff_parts]
  constructor
  · rintro ⟨owner, name, params, hparts, howner, hname, hparams⟩
    obtain ⟨front, back, inner, htext, hopening, hdot, rfl, rfl, hownerNe, hnameNe, hinner⟩ :=
      parseParts_eq_ok_iff.1 hparts
    -- the parenthesis is missing on both sides of the dot
    rw [List.mem_append, List.mem_cons, not_or, not_or] at hopening
    refine ⟨front, back, inner, by simpa using htext, hopening.1, hopening.2.2, hdot, howner, ?_,
      hname, ?_, parseParameters_eq_ok_iff_lists.1 ⟨params, hinner, hparams⟩⟩
    · rw [howner, ofList_ne_empty_iff]
      exact hownerNe
    · rw [hname, ofList_ne_empty_iff]
      exact hnameNe
  · rintro ⟨front, back, inner, htext, hfront, hback, hdot, howner, hownerNe, hname, hnameNe,
      hlists⟩
    obtain ⟨params, hinner, hparams⟩ := parseParameters_eq_ok_iff_lists.2 hlists
    rw [howner, ofList_ne_empty_iff] at hownerNe
    rw [hname, ofList_ne_empty_iff] at hnameNe
    have hopening : '(' ∉ front ++ '.' :: back := by simp [hfront, hback]
    -- the reader finds the parts that the grammar names
    have hparts : parseParts text.toList = .ok (trim front, trim back, params) :=
      parseParts_eq_ok_iff.2 ⟨front, back, inner, by simpa using htext, hopening, hdot, rfl, rfl,
        hownerNe, hnameNe, hinner⟩
    exact ⟨trim front, trim back, params, hparts, howner, hname, hparams⟩

/-- The error of `parse` has the text that is refused. -/
theorem text_of_parse_eq_error {text : String} {e : Malformed} (h : parse text = .error e) :
    e.text = text := by
  rw [parse] at h
  split at h
  · cases h
  · cases h
    rfl

/-- `parse` reads a text as a key iff the text `Denotes` that key, and refuses it, with an error
    that has the text as it was given, iff it denotes none. -/
theorem parse_iff_denotes (text : String) :
    (∀ k, parse text = .ok k ↔ Denotes text k) ∧
    ((∃ problem, parse text = .error ⟨text, problem⟩) ↔ ∀ k, ¬ Denotes text k) := by
  refine ⟨fun k => parse_eq_ok_iff, ?_⟩
  -- a text that is refused is read as no key
  simp only [← parse_eq_ok_iff]
  cases h : parse text with
  | ok k => simp
  | error e =>
    obtain ⟨text', problem⟩ := e
    obtain rfl : text' = text := text_of_parse_eq_error h
    simp

/-- `Denotes` with blanks around all parts, and a comma inside angle brackets; and angle brackets
    that close before they open. -/
theorem parse_iff_denotes_put :
    Denotes " app.Map .put ( Entry<K, V> ,int ) " ⟨"app.Map", "put", ["Entry<K, V>", "int"]⟩ ∧
    ∀ k, ¬ Denotes "app.Map.put(Entry>K, V<)" k := by
  constructor
  · rw [← (parse_iff_denotes _).1]
    decide +kernel
  · rw [← (parse_iff_denotes _).2]
    exact ⟨.unbalancedBrackets, by decide +kernel⟩

end CallCycle.Key

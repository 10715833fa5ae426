import CallCycle.Json.Value
import CallCycle.Proofs.Lexing

/-!
# Values that were written

A value has tokens, and it has an item.  Its text, `Value.compact` or `Value.prettyAt`, is cut into
its tokens, and its tokens are put together to its item.  This holds of the values that
`Value.Integral` describes: their numbers are integers.  What is taken in from the item is the value
again if `Value.Fits` holds as well: its integers have 64 bits, and it has no more nested brackets
than there is room for.

## Key results

- `Value.Integral.renders`, `Value.Integral.renders_pretty`: a text has the tokens of its value
- `Value.Integral.assembles`: the tokens of a value make the item of the value
- `Value.Integral.skip_item`, `Value.Fits.value_item`: what is made of the item of a value
- `itemsOf_of_spaced`: the items of a text that has the tokens of several values
- `itemsOf_prettyText`: the only item of a text over indented lines
-/

namespace CallCycle.Json

namespace Value

/-! ## Tokens and items of values -/

/-- The word of a truth value. -/
def wordOf (b : Bool) : Word :=
  if b then .true else .false

mutual

/-- The tokens of a value. -/
def tokens : Value → List Token
  | .null => [.word .null none]
  | .bool b => [.word (wordOf b) none]
  | .number n => [.number n.lexeme]
  | .string s => [.quoted (.plain s)]
  | .list vs => .openList :: elementTokens vs ++ [.closeList]
  | .object ms => .openObject :: memberTokens ms ++ [.closeObject]

/-- The tokens of the elements of a list. -/
def elementTokens : List Value → List Token
  | [] => []
  | [v] => v.tokens
  | v :: vs => v.tokens ++ .comma :: elementTokens vs

/-- The tokens of the members of an object. -/
def memberTokens : List (String × Value) → List Token
  | [] => []
  | [(key, v)] => .quoted (.plain key) :: .colon :: v.tokens
  | (key, v) :: ms => .quoted (.plain key) :: .colon :: v.tokens ++ .comma :: memberTokens ms

end

mutual

/-- The item of a value. -/
def item : Value → Item
  | .null => .word .null none
  | .bool b => .word (wordOf b) none
  | .number n => .number n.lexeme
  | .string s => .quoted (.plain s)
  | .list vs => .list (elementItems vs) .closed
  | .object ms => .object (memberItems ms) .closed

/-- The items of the elements of a list. -/
def elementItems : List Value → List Item
  | [] => []
  | v :: vs => v.item :: elementItems vs

/-- The items of the members of an object. -/
def memberItems : List (String × Value) → List Member
  | [] => []
  | (key, v) :: ms => .entry (.plain key) v.item :: memberItems ms

end

/-- `elementItems` takes the item of each element. -/
theorem elementItems_eq_map (vs : List Value) : elementItems vs = vs.map item := by
  induction vs with
  | nil => rfl
  | cons v vs ih => rw [elementItems, ih, List.map_cons]

/-- A value whose numbers are integers. -/
inductive Integral : Value → Prop where
  | null : Integral .null
  | bool (b : Bool) : Integral (.bool b)
  | int (i : Int) : Integral (.number (.int i))
  | string (s : String) : Integral (.string s)
  | list {vs : List Value} (h : ∀ v ∈ vs, Integral v) : Integral (.list vs)
  | object {ms : List (String × Value)} (h : ∀ m ∈ ms, Integral m.2) : Integral (.object ms)

/-- A value whose numbers are integers of 64 bits, and that has at most `room` nested brackets. -/
inductive Fits : Nat → Value → Prop where
  | null {room : Nat} : Fits room .null
  | bool {room : Nat} (b : Bool) : Fits room (.bool b)
  | int {room : Nat} {i : Int} (hlow : -0x8000000000000000 ≤ i)
      (hhigh : i < 0x10000000000000000) : Fits room (.number (.int i))
  | string {room : Nat} (s : String) : Fits room (.string s)
  | list {room : Nat} {vs : List Value} (h : ∀ v ∈ vs, Fits room v) : Fits (room + 1) (.list vs)
  | object {room : Nat} {ms : List (String × Value)} (h : ∀ m ∈ ms, Fits room m.2) :
      Fits (room + 1) (.object ms)

/-- The numbers of a value that `Fits` are integers. -/
theorem Fits.integral {room : Nat} {v : Value} (h : v.Fits room) : v.Integral := by
  induction h with
  | null => exact .null
  | bool b => exact .bool b
  | @int _ i _ _ => exact .int i
  | string s => exact .string s
  | list _ ih => exact .list ih
  | object _ ih => exact .object ih

/-! ## Texts -/

/-- A text has the tokens of a value, whatever stands behind it. -/
def Renders (v : Value) (text : List Char) : Prop :=
  ∀ {ts : List Token} {rest : List Char}, Spaced ts rest → EndsNumber rest →
    Spaced (v.tokens ++ ts) (text ++ rest)

/-- Punctuation stands in front of a text. -/
theorem spaced_punctuation {c : Char} {t : Token} (h : punctuation? c = some t)
    {ts : List Token} {rest : List Char} (hrest : Spaced ts rest) :
    Spaced (t :: ts) (c :: rest) ∧ EndsNumber (c :: rest) := by
  unfold punctuation? at h
  split at h
  -- none of the six characters goes on with a number
  all_goals cases h
  all_goals exact ⟨.token (.punctuation rfl) trivial hrest, by simp [EndsNumber, Char.isDigit]⟩

/-- A quoted key and a colon stand in front of a text. -/
theorem spaced_key (key : String) {ts : List Token} {rest : List Char} (hrest : Spaced ts rest) :
    Spaced (.quoted (.plain key) :: .colon :: ts) (writeQuoted key ++ ':' :: rest) :=
  .token (.written key) trivial (spaced_punctuation rfl hrest).1

/-- `compactElements` has the tokens of the elements. -/
theorem spaced_elements {vs : List Value} (hvs : ∀ v ∈ vs, v.Renders v.compact) {ts : List Token}
    {rest : List Char} (hrest : Spaced ts rest) (hends : EndsNumber rest) :
    Spaced (elementTokens vs ++ ts) (compactElements vs ++ rest) := by
  induction vs with
  | nil => exact hrest
  | cons v vs ih =>
    obtain ⟨hv, hvs⟩ := List.forall_mem_cons.1 hvs
    cases vs with
    | nil => exact hv hrest hends
    | cons w vs =>
      -- the comma ends a number in front of it
      obtain ⟨hcomma, hends⟩ := spaced_punctuation (c := ',') rfl (ih hvs)
      simpa [elementTokens, compactElements] using hv hcomma hends

/-- `compactMembers` has the tokens of the members. -/
theorem spaced_members {ms : List (String × Value)} (hms : ∀ m ∈ ms, m.2.Renders m.2.compact)
    {ts : List Token} {rest : List Char} (hrest : Spaced ts rest) (hends : EndsNumber rest) :
    Spaced (memberTokens ms ++ ts) (compactMembers ms ++ rest) := by
  induction ms with
  | nil => exact hrest
  | cons m ms ih =>
    obtain ⟨key, v⟩ := m
    obtain ⟨hv, hms⟩ := List.forall_mem_cons.1 hms
    cases ms with
    | nil => simpa [memberTokens, compactMembers] using spaced_key key (hv hrest hends)
    | cons m ms =>
      obtain ⟨hcomma, hends⟩ := spaced_punctuation (c := ',') rfl (ih hms)
      simpa [memberTokens, compactMembers] using spaced_key key (hv hcomma hends)

/-- `compact` has the tokens of the value. -/
theorem Integral.renders {v : Value} (h : v.Integral) : v.Renders v.compact := by
  intro ts rest hrest hends
  induction h generalizing ts rest with
  | null => exact .token (.word .null) trivial hrest
  | bool b => exact .token (.word (wordOf b)) trivial hrest
  | int i => exact .token (.int i) hends hrest
  | string s => exact .token (.written s) trivial hrest
  | list _ ih =>
    -- the closing bracket ends a number that stands last
    obtain ⟨hclose, hends⟩ := spaced_punctuation (c := ']') rfl hrest
    have helements := spaced_elements (fun v hv => ih v hv) hclose hends
    simpa [tokens, compact] using (spaced_punctuation (c := '[') rfl helements).1
  | object _ ih =>
    obtain ⟨hclose, hends⟩ := spaced_punctuation (c := '\x7d') rfl hrest
    have hmembers := spaced_members (fun m hm => ih m hm) hclose hends
    simpa [tokens, compact] using (spaced_punctuation (c := '\x7b') rfl hmembers).1

/-! ## Texts over indented lines -/

/-- `newLine` is white space: it adds no token, and ends a number in front of it. -/
theorem spaced_newLine (depth : Nat) {ts : List Token} {rest : List Char} (h : Spaced ts rest) :
    Spaced ts (newLine depth ++ rest) ∧ EndsNumber (newLine depth ++ rest) := by
  -- a line feed, and then any number of spaces
  have hspaces : ∀ n, Spaced ts (List.replicate n ' ' ++ rest) := by
    intro n
    induction n with
    | zero => exact h
    | succ n ih => exact .space (by decide) ih
  exact ⟨.space (by decide) (hspaces _), by simp [newLine, EndsNumber, Char.isDigit]⟩

/-- `prettyElements` has the tokens of the elements. -/
theorem spaced_prettyElements {depth : Nat} {vs : List Value}
    (hvs : ∀ v ∈ vs, v.Renders (v.prettyAt depth)) {ts : List Token} {rest : List Char}
    (hrest : Spaced ts rest) (hends : EndsNumber rest) :
    Spaced (elementTokens vs ++ ts) (prettyElements depth vs ++ rest) := by
  induction vs with
  | nil => exact hrest
  | cons v vs ih =>
    obtain ⟨hv, hvs⟩ := List.forall_mem_cons.1 hvs
    cases vs with
    | nil =>
      simpa [elementTokens, prettyElements] using (spaced_newLine depth (hv hrest hends)).1
    | cons w vs =>
      -- each element stands behind a new line, and a comma in front of the next
      obtain ⟨hcomma, hends⟩ := spaced_punctuation (c := ',') rfl (ih hvs)
      simpa [elementTokens, prettyElements] using (spaced_newLine depth (hv hcomma hends)).1

/-- `prettyMembers` has the tokens of the members. -/
theorem spaced_prettyMembers {depth : Nat} {ms : List (String × Value)}
    (hms : ∀ m ∈ ms, m.2.Renders (m.2.prettyAt depth)) {ts : List Token} {rest : List Char}
    (hrest : Spaced ts rest) (hends : EndsNumber rest) :
    Spaced (memberTokens ms ++ ts) (prettyMembers depth ms ++ rest) := by
  -- behind the colon stands a blank
  have hmember : ∀ (key : String) {ts rest}, Spaced ts rest →
      Spaced (.quoted (.plain key) :: .colon :: ts)
        (newLine depth ++ (writeQuoted key ++ ':' :: ' ' :: rest)) :=
    fun key _ _ h => (spaced_newLine depth (spaced_key key (.space (by decide) h))).1
  induction ms with
  | nil => exact hrest
  | cons m ms ih =>
    obtain ⟨key, v⟩ := m
    obtain ⟨hv, hms⟩ := List.forall_mem_cons.1 hms
    cases ms with
    | nil => simpa [memberTokens, prettyMembers] using hmember key (hv hrest hends)
    | cons m ms =>
      obtain ⟨hcomma, hends⟩ := spaced_punctuation (c := ',') rfl (ih hms)
      simpa [memberTokens, prettyMembers] using hmember key (hv hcomma hends)

/-- `prettyAt` has the tokens of the value, at any depth. -/
theorem Integral.renders_pretty {v : Value} (h : v.Integral) (depth : Nat) :
    v.Renders (v.prettyAt depth) := by
  intro ts rest hrest hends
  induction h generalizing depth ts rest with
  | null => exact .token (.word .null) trivial hrest
  | bool b => exact .token (.word (wordOf b)) trivial hrest
  | int i => exact .token (.int i) hends hrest
  | string s => exact .token (.written s) trivial hrest
  | @list vs _ ih =>
    -- the closing bracket stands on a line of its own, unless nothing is between the brackets
    have hclose := (spaced_punctuation (c := ']') rfl hrest).1
    cases vs with
    | nil => exact (spaced_punctuation (c := '[') rfl hclose).1
    | cons v vs =>
      obtain ⟨hline, hends⟩ := spaced_newLine depth hclose
      have helements := spaced_prettyElements (fun v hv => ih v hv (depth + 1)) hline hends
      simpa [tokens, prettyAt] using (spaced_punctuation (c := '[') rfl helements).1
  | @object ms _ ih =>
    have hclose := (spaced_punctuation (c := '\x7d') rfl hrest).1
    cases ms with
    | nil => exact (spaced_punctuation (c := '\x7b') rfl hclose).1
    | cons m ms =>
      obtain ⟨hline, hends⟩ := spaced_newLine depth hclose
      have hmembers := spaced_prettyMembers (fun m hm => ih m hm (depth + 1)) hline hends
      simpa [tokens, prettyAt] using (spaced_punctuation (c := '\x7b') rfl hmembers).1

/-! ## Items -/

/-- The tokens of a value make the item of the value, wherever they stand. -/
def Assembles (v : Value) : Prop :=
  ∀ (frames : List Frame) (pieces : List Piece) (ts : List Token),
    assemble frames pieces (v.tokens ++ ts) = assemble frames (.item v.item :: pieces) ts

/-- The pieces between the brackets of a list. -/
def elementPieces : List Value → List Piece
  | [] => []
  | [v] => [.item v.item]
  | v :: vs => .item v.item :: .comma :: elementPieces vs

/-- The pieces between the brackets of an object. -/
def memberPieces : List (String × Value) → List Piece
  | [] => []
  | [(key, v)] => [.item (.quoted (.plain key)), .colon, .item v.item]
  | (key, v) :: ms =>
    .item (.quoted (.plain key)) :: .colon :: .item v.item :: .comma :: memberPieces ms

/-- `assemble` makes the pieces of the elements of a list from their tokens. -/
theorem assemble_elements {vs : List Value} (h : ∀ v ∈ vs, v.Assembles) (frames : List Frame)
    (pieces : List Piece) (ts : List Token) :
    assemble frames pieces (elementTokens vs ++ ts) =
      assemble frames ((elementPieces vs).reverse ++ pieces) ts := by
  induction vs generalizing pieces with
  | nil => rfl
  | cons v vs ih =>
    obtain ⟨hv, hvs⟩ := List.forall_mem_cons.1 h
    cases vs with
    | nil => exact hv frames pieces ts
    | cons w vs =>
      simp only [elementTokens, elementPieces, List.append_assoc, hv _, List.cons_append, assemble,
        ih hvs, List.reverse_cons, List.nil_append]

/-- `assemble` makes the pieces of the members of an object from their tokens. -/
theorem assemble_members {ms : List (String × Value)} (h : ∀ m ∈ ms, m.2.Assembles)
    (frames : List Frame) (pieces : List Piece) (ts : List Token) :
    assemble frames pieces (memberTokens ms ++ ts) =
      assemble frames ((memberPieces ms).reverse ++ pieces) ts := by
  induction ms generalizing pieces with
  | nil => rfl
  | cons m ms ih =>
    obtain ⟨key, v⟩ := m
    obtain ⟨hv, hms⟩ := List.forall_mem_cons.1 h
    have hv : v.Assembles := hv
    cases ms with
    -- the pieces are taken one by one, and stand in reverse
    | nil => exact hv frames (.colon :: .item (.quoted (.plain key)) :: pieces) ts
    | cons m ms =>
      simp only [memberTokens, memberPieces, List.append_assoc, hv _, List.cons_append, assemble,
        ih hms, List.reverse_cons, List.nil_append]

/-- `moreElements` finds the elements behind a comma. -/
theorem moreElements_elementPieces (v : Value) (vs : List Value) :
    moreElements true (.comma :: elementPieces (v :: vs)) = (elementItems (v :: vs), .closed) := by
  induction vs generalizing v with
  | nil => rfl
  | cons w vs ih =>
    -- one step finds the next element and its comma
    have hpieces : elementPieces (v :: w :: vs) =
        .item v.item :: .comma :: elementPieces (w :: vs) := by simp [elementPieces]
    rw [hpieces, moreElements, ih]
    rfl

/-- `listOf` finds the elements of a list. -/
theorem listOf_elementPieces (vs : List Value) :
    listOf true (elementPieces vs) = .list (elementItems vs) .closed := by
  match vs with
  | [] => rfl
  | [v] => rfl
  | v :: w :: vs =>
    simp only [elementPieces, listOf, moreElements_elementPieces]
    rfl

/-- `membersOf` finds the members, at the start or behind a comma. -/
theorem membersOf_memberPieces (afterComma : Bool) (m : String × Value)
    (ms : List (String × Value)) :
    membersOf true afterComma (memberPieces (m :: ms)) = (memberItems (m :: ms), .closed) := by
  induction ms generalizing m afterComma with
  | nil => rfl
  | cons n ms ih =>
    have hpieces : memberPieces (m :: n :: ms) =
        .item (.quoted (.plain m.1)) :: .colon :: .item m.2.item :: .comma ::
          memberPieces (n :: ms) := by simp [memberPieces]
    rw [hpieces, membersOf, ih]
    rfl

/-- `objectOf` finds the members of an object. -/
theorem objectOf_memberPieces (ms : List (String × Value)) :
    objectOf true (memberPieces ms) = .object (memberItems ms) .closed := by
  cases ms with
  | nil => rfl
  | cons m ms => rw [objectOf, membersOf_memberPieces]

/-- `assemble` makes the item of a value from its tokens. -/
theorem Integral.assembles {v : Value} (h : v.Integral) : v.Assembles := by
  intro frames pieces ts
  induction h generalizing frames pieces ts with
  | null => rfl
  | bool b => rfl
  | int => rfl
  | string s => rfl
  | list _ ih =>
    simp only [tokens, List.cons_append, List.append_assoc, assemble]
    -- between the brackets a frame is open, which the closing one ends
    rw [assemble_elements (fun v hv => ih v hv)]
    simp [assemble, listOf_elementPieces, item]
  | object _ ih =>
    simp only [tokens, List.cons_append, List.append_assoc, assemble]
    rw [assemble_members (fun m hm => ih m hm)]
    simp [assemble, objectOf_memberPieces, item]

/-! ## What is made of an item -/

/-- `skipAll` passes over elements that can be passed over. -/
theorem skipAll_elementItems {vs : List Value} (h : ∀ v ∈ vs, v.item.skip = .ok ()) :
    skipAll (elementItems vs) = .ok () := by
  induction vs with
  | nil => rfl
  | cons v vs ih =>
    obtain ⟨hv, hvs⟩ := List.forall_mem_cons.1 h
    rw [elementItems, skipAll, hv, ih hvs]
    rfl

/-- `skipMembers` passes over members that can be passed over. -/
theorem skipMembers_memberItems {ms : List (String × Value)}
    (h : ∀ m ∈ ms, m.2.item.skip = .ok ()) : skipMembers (memberItems ms) = .ok () := by
  induction ms with
  | nil => rfl
  | cons m ms ih =>
    obtain ⟨hm, hms⟩ := List.forall_mem_cons.1 h
    rw [memberItems, skipMembers, Member.skip, hm, ih hms]
    rfl

/-- `Item.skip` passes over the item of a value. -/
theorem Integral.skip_item {v : Value} (h : v.Integral) : v.item.skip = .ok () := by
  induction h with
  | null => rfl
  | bool b => rfl
  | int i => exact skip_lexeme_int i
  | string s => rfl
  | list _ ih =>
    rw [item, Item.skip, skipAll_elementItems ih]
    rfl
  | object _ ih =>
    rw [item, Item.skip, skipMembers_memberItems ih]
    rfl

/-- `valuesOf` takes elements in if each of them can be taken in. -/
theorem valuesOf_elementItems {room : Nat} {vs : List Value}
    (h : ∀ v ∈ vs, v.item.value room = .ok v) : valuesOf room (elementItems vs) = .ok vs := by
  induction vs with
  | nil => rfl
  | cons v vs ih =>
    obtain ⟨hv, hvs⟩ := List.forall_mem_cons.1 h
    rw [elementItems, valuesOf, hv, ih hvs]
    rfl

/-- `entriesOf` takes members in if each of them can be taken in. -/
theorem entriesOf_memberItems {room : Nat} {ms : List (String × Value)}
    (h : ∀ m ∈ ms, m.2.item.value room = .ok m.2) : entriesOf room (memberItems ms) = .ok ms := by
  induction ms with
  | nil => rfl
  | cons m ms ih =>
    obtain ⟨hm, hms⟩ := List.forall_mem_cons.1 h
    rw [memberItems, entriesOf, Member.value, hm, ih hms]
    rfl

/-- `Item.value` takes the item of a value in as that value. -/
theorem Fits.value_item {room : Nat} {v : Value} (h : v.Fits room) :
    v.item.value room = .ok v := by
  induction h with
  | null => rfl
  | bool b => cases b <;> rfl
  | int hlow hhigh =>
    rw [item, Item.value, value_lexeme_int hlow hhigh]
    rfl
  | string s => rfl
  | list _ ih =>
    rw [item, Item.value, valuesOf_elementItems ih]
    rfl
  | object _ ih =>
    rw [item, Item.value, entriesOf_memberItems ih]
    rfl

end Value

/-! ## Texts of several values -/

/-- `assemble` makes the items of several values from their tokens. -/
theorem assemble_flatMap {vs : List Value} (hvs : ∀ v ∈ vs, v.Integral)
    (pieces : List Piece) :
    assemble [] pieces (vs.flatMap Value.tokens) =
      pieces.reverse ++ vs.map fun v => .item v.item := by
  induction vs generalizing pieces with
  | nil => simp [assemble, unwind]
  | cons v vs ih =>
    obtain ⟨hv, hvs⟩ := List.forall_mem_cons.1 hvs
    -- no bracket is open between two values
    rw [List.flatMap_cons, hv.assembles, ih hvs, List.reverse_cons, List.append_assoc]
    rfl

/-- `itemsOf` finds the items of several values in a text that has their tokens. -/
theorem itemsOf_of_spaced {vs : List Value} (hvs : ∀ v ∈ vs, v.Integral) {text : List Char}
    (h : Spaced (vs.flatMap Value.tokens) text) : itemsOf text = vs.map Value.item := by
  rw [itemsOf, tokens_of_spaced h, assemble_flatMap hvs, List.reverse_nil, List.nil_append,
    List.map_map]
  rfl

/-- `prettyText` has the tokens of its value, also with a line feed behind it. -/
theorem spaced_prettyText {v : Value} (hv : v.Integral) :
    Spaced v.tokens v.prettyText.toList ∧ Spaced v.tokens (v.prettyText ++ "\n").toList := by
  have hnil := hv.renders_pretty 0 .nil EndsNumber.nil
  -- a line feed is white space, and goes on with no number
  have hfeed := hv.renders_pretty 0 (.space (c := '\n') (by decide) .nil)
    (by simp [EndsNumber, Char.isDigit])
  rw [List.append_nil] at hnil hfeed
  simp only [Value.prettyText, String.toList_append, String.toList_ofList, String.reduceToList]
  exact ⟨by simpa using hnil, hfeed⟩

/-- `itemsOf` finds one item in `prettyText`, that of its value. -/
theorem itemsOf_prettyText {v : Value} (hv : v.Integral) :
    itemsOf v.prettyText.toList = [v.item] ∧ itemsOf (v.prettyText ++ "\n").toList = [v.item] := by
  have honly : ∀ w ∈ [v], w.Integral := by simpa using hv
  obtain ⟨hnil, hfeed⟩ := spaced_prettyText hv
  exact ⟨itemsOf_of_spaced honly (by rwa [List.flatMap_singleton]),
    itemsOf_of_spaced honly (by rwa [List.flatMap_singleton])⟩

end CallCycle.Json

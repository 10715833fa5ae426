import CallCycle.Json.Token
import Mathlib.Data.List.TakeWhile

/-!
# Tokens that were written

A text is cut back into the tokens that it was put together from.  Strings may have any characters,
and these may stand for themselves or be escaped; `Spells` has all the ways.  Numbers are integers,
and what follows one must not read as more of it; those of 64 bits have the value that they were
written from.  White space may stand in front of tokens and behind them.

## Key results

- `spells_flatMap`: a string is spelled as it is written
- `scanQuoted_of_spells`: a string is scanned however it is spelled
- `scanNumber_int`, `value_lexeme_int`: an integer is scanned as it was written
- `tokens_lexeme`: one token in front of a text
- `tokens_of_spaced`: all tokens of a text
-/

namespace CallCycle.Json

/-! ## Strings -/

/-- `hexValue?` reads the digits that are written. -/
theorem hexValue?_digitChar : ∀ n < 16, hexValue? (Nat.digitChar n) = some n := by
  decide

/-- Four digits in base sixteen, and the code unit that they stand for. -/
inductive Hex : List Char → Nat → Prop where
  | mk {a b c d : Char} {i j k l : Nat} (ha : hexValue? a = some i) (hb : hexValue? b = some j)
      (hc : hexValue? c = some k) (hd : hexValue? d = some l) :
      Hex [a, b, c, d] (((i * 16 + j) * 16 + k) * 16 + l)

/-- What stands behind a backslash, and the character that it stands for. -/
inductive Escape : List Char → Char → Prop where
  | letter {l c : Char} (h : escaped? l = some c) : Escape [l] c
  | unit {digits : List Char} {n : Nat} (h : Hex digits n) (hleading : isLeading n = false)
      (htrailing : isTrailing n = false) : Escape ('u' :: digits) (Char.ofNat n)
  | pair {digits digits' : List Char} {n m : Nat} (h : Hex digits n) (h' : Hex digits' m)
      (hleading : isLeading n = true) (htrailing : isTrailing m = true) :
      Escape ('u' :: digits ++ '\\' :: 'u' :: digits') (pairedChar n m)

/-- What stands between the quotes of a string, and the characters of the string. -/
inductive Spells : List Char → List Char → Prop where
  | nil : Spells [] []
  | self {c : Char} {body cs : List Char} (hquote : c ≠ '"') (hbackslash : c ≠ '\\')
      (hcontrol : ¬ c.toNat < 0x20) (h : Spells body cs) : Spells (c :: body) (c :: cs)
  | escape {escape : List Char} {c : Char} {body cs : List Char} (hc : Escape escape c)
      (h : Spells body cs) : Spells ('\\' :: escape ++ body) (c :: cs)

/-- `readHex` reads four digits. -/
theorem Hex.readHex {digits : List Char} {n : Nat} (h : Hex digits n) (rest : List Char) :
    readHex (digits ++ rest) = .ok (n, rest) := by
  cases h with
  | mk ha hb hc hd => simp only [List.cons_append, List.nil_append, Json.readHex, ha, hb, hc, hd]

/-- The escape of a control character has two zeros and two digits. -/
theorem hex_digitChar {n : Nat} (h : n < 0x20) :
    Hex ['0', '0', Nat.digitChar (n / 16), Nat.digitChar (n % 16)] n := by
  have hzero : hexValue? '0' = some 0 := by decide
  have hhigh := hexValue?_digitChar (n / 16) (by omega)
  have hlow := hexValue?_digitChar (n % 16) (by omega)
  have hsum : ((0 * 16 + 0) * 16 + n / 16) * 16 + n % 16 = n := by omega
  simpa only [hsum] using Hex.mk hzero hzero hhigh hlow

/-- No code unit is both halves of a pair. -/
theorem isTrailing_eq_false {n : Nat} (h : isLeading n = true) : isTrailing n = false := by
  simp only [isLeading, isTrailing, Bool.and_eq_true, decide_eq_true_eq, Bool.and_eq_false_iff,
    decide_eq_false_iff_not] at h ⊢
  omega

/-- `escaped?` knows no `u`, which announces a code unit. -/
theorem ne_u_of_escaped? {l c : Char} (h : escaped? l = some c) : l ≠ 'u' := by
  rintro rfl
  cases h

/-- `readEscape` reads an escape as the character that it stands for. -/
theorem Escape.readEscape {escape : List Char} {c : Char} (h : Escape escape c)
    (rest : List Char) : readEscape (escape ++ rest) = .ok (c, rest) := by
  cases h with
  | letter h =>
    have hl := ne_u_of_escaped? h
    simp [Json.readEscape, h]
  | unit h hleading htrailing =>
    simp [Json.readEscape, h.readHex, hleading, htrailing, bind, Except.bind]
  | pair h h' hleading htrailing =>
    simp [Json.readEscape, readTrailing, h.readHex, h'.readHex, hleading, htrailing,
      isTrailing_eq_false hleading, bind, Except.bind]

/-- `skipQuoted` passes over what `skipEscape` passes over. -/
theorem skipQuoted_escape {escape rest : List Char} (h : skipEscape escape = .ok rest) :
    skipQuoted ('\\' :: escape) = skipQuoted rest := by
  rw [skipQuoted, if_neg (by decide), if_pos rfl]
  split
  · next hfault => simp [h] at hfault
  · next rest' hok =>
    obtain rfl : rest = rest' := by simpa [h] using hok
    rfl

/-- `skipQuoted` passes over an escape, the halves of a pair one by one. -/
theorem Escape.skipQuoted {escape : List Char} {c : Char} (h : Escape escape c)
    (rest : List Char) : skipQuoted ('\\' :: escape ++ rest) = skipQuoted rest := by
  -- a code unit is passed over whichever half it is
  have hunit : ∀ {digits : List Char} {n : Nat} (rest : List Char), Hex digits n →
      skipEscape ('u' :: digits ++ rest) = .ok rest := by
    intro digits n rest hdigits
    simp [skipEscape, hdigits.readHex, Except.map]
  cases h with
  | letter h =>
    have hl := ne_u_of_escaped? h
    exact skipQuoted_escape (by simp [skipEscape, h])
  | unit h _ _ => exact skipQuoted_escape (hunit rest h)
  | pair h h' _ _ =>
    rw [List.cons_append, List.append_assoc, skipQuoted_escape (hunit _ h)]
    exact skipQuoted_escape (hunit rest h')

/-- `readQuoted` decodes what is between the quotes, and leaves what follows the closing one. -/
theorem Spells.readQuoted {body cs : List Char} (h : Spells body cs) (rest : List Char) :
    readQuoted (body ++ '"' :: rest) = .ok (cs, rest) := by
  induction h with
  | nil => simp [Json.readQuoted]
  | self hquote hbackslash hcontrol _ ih =>
    rw [List.cons_append, Json.readQuoted, if_neg hquote, if_neg hbackslash, if_neg hcontrol, ih]
    rfl
  | @escape escape c body cs hc _ ih =>
    have hread := hc.readEscape (body ++ '"' :: rest)
    rw [List.append_assoc, List.cons_append, Json.readQuoted, if_neg (by decide), if_pos rfl]
    split
    · next hfault => simp [hread] at hfault
    · next c' rest' hok =>
      obtain ⟨rfl, rfl⟩ : c = c' ∧ body ++ '"' :: rest = rest' := by simpa [hread] using hok
      rw [ih]
      rfl

/-- `skipQuoted` passes over what is between the quotes, and leaves what follows the closing one. -/
theorem Spells.skipQuoted {body cs : List Char} (h : Spells body cs) (rest : List Char) :
    skipQuoted (body ++ '"' :: rest) = .ok rest := by
  induction h with
  | nil => simp [Json.skipQuoted]
  | self hquote hbackslash hcontrol _ ih =>
    rw [List.cons_append, Json.skipQuoted, if_neg hquote, if_neg hbackslash, if_neg hcontrol, ih]
  | escape hc _ ih => rw [List.append_assoc, hc.skipQuoted, ih]

/-- `escapeChar` leaves a character as it is, or writes an escape that stands for it. -/
theorem escapeChar_cases (c : Char) :
    (c ≠ '"' ∧ c ≠ '\\' ∧ ¬ c.toNat < 0x20 ∧ escapeChar c = [c]) ∨
      ∃ escape, escapeChar c = '\\' :: escape ∧ Escape escape c := by
  unfold escapeChar
  split
  case h_8 hquote hbackslash _ _ _ _ _ =>
    -- control characters without a letter are written as code units, which are no halves
    by_cases hcontrol : c.toNat < 0x20
    · rw [if_pos hcontrol]
      have hleading : isLeading c.toNat = false := by simp [isLeading]; omega
      have htrailing : isTrailing c.toNat = false := by simp [isTrailing]; omega
      have hunit := Escape.unit (hex_digitChar hcontrol) hleading htrailing
      rw [Char.ofNat_toNat] at hunit
      exact .inr ⟨_, rfl, hunit⟩
    · rw [if_neg hcontrol]
      exact .inl ⟨hquote, hbackslash, hcontrol, rfl⟩
  -- each of the other escapes is a letter
  all_goals exact .inr ⟨_, rfl, .letter rfl⟩

/-- `escapeChar` spells a string, character by character. -/
theorem spells_flatMap (cs : List Char) : Spells (cs.flatMap escapeChar) cs := by
  induction cs with
  | nil => exact .nil
  | cons c cs ih =>
    rw [List.flatMap_cons]
    obtain ⟨hquote, hbackslash, hcontrol, hself⟩ | ⟨escape, hescape, hc⟩ := escapeChar_cases c
    · rw [hself]
      exact .self hquote hbackslash hcontrol ih
    · rw [hescape]
      exact .escape hc ih

/-- What is scanned where a string without faults stands. -/
def QuotedLexeme.plain (s : String) : QuotedLexeme :=
  ⟨.ok s, .ok ()⟩

/-- `scanQuoted` scans a string behind its opening quote, however it is spelled. -/
theorem scanQuoted_of_spells {body : List Char} {s : String} (h : Spells body s.toList)
    (rest : List Char) : scanQuoted (body ++ '"' :: rest) = (.plain s, rest) := by
  simp only [scanQuoted, h.readQuoted, h.skipQuoted, Except.map, String.ofList_toList]
  rfl

/-! ## Integers -/

/-- A text that does not go on with a number. -/
def EndsNumber (rest : List Char) : Prop :=
  ∀ c ∈ rest.head?, c.isDigit = false ∧ c ≠ '.' ∧ c ≠ 'e' ∧ c ≠ 'E'

/-- Nothing does not go on with a number. -/
theorem EndsNumber.nil : EndsNumber [] := by
  simp [EndsNumber]

/-- A number starts with a digit. -/
theorem toDigits_eq_cons (n : Nat) :
    ∃ d digits, Nat.toDigits 10 n = d :: digits ∧ d.isDigit = true := by
  cases hdigits : Nat.toDigits 10 n with
  | nil => exact absurd hdigits Nat.toDigits_ne_nil
  | cons d digits =>
    have hd : d ∈ Nat.toDigits 10 n := by simp [hdigits]
    exact ⟨d, digits, rfl, Nat.isDigit_of_mem_toDigits (by omega) (by omega) hd⟩

/-- A number that starts with zero has no other digit. -/
theorem eq_nil_of_toDigits_eq {n : Nat} {digits : List Char}
    (h : Nat.toDigits 10 n = '0' :: digits) : digits = [] := by
  induction n using Nat.strongRecOn generalizing digits with
  | ind n ih =>
    rw [Nat.toDigits_eq_if (by omega)] at h
    split at h
    · exact (List.cons.inj h).2.symm
    · next hn =>
      exfalso
      -- the digits in front of the last are those of a number above zero
      obtain ⟨d, front, hfront, -⟩ := toDigits_eq_cons (n / 10)
      rw [hfront, List.cons_append] at h
      rw [(List.cons.inj h).1] at hfront
      have hvalue := Nat.ofDigitChars_toDigits (b := 10) (n := n / 10) (by omega) (by omega)
      rw [hfront, ih (n / 10) (by omega) hfront] at hvalue
      have hzero : Nat.ofDigitChars 10 ['0'] 0 = 0 := by decide
      omega

/-- The digits of a number are taken, and what follows is left. -/
theorem takeWhile_toDigits (n : Nat) {rest : List Char} (h : EndsNumber rest) :
    (Nat.toDigits 10 n ++ rest).takeWhile Char.isDigit = Nat.toDigits 10 n ∧
      (Nat.toDigits 10 n ++ rest).dropWhile Char.isDigit = rest := by
  have hdigits : ∀ c ∈ Nat.toDigits 10 n, c.isDigit = true := fun c hc =>
    Nat.isDigit_of_mem_toDigits (by omega) (by omega) hc
  rw [List.takeWhile_append_of_pos hdigits, List.dropWhile_append_of_pos hdigits]
  -- the number ends with the text or at another character
  cases rest with
  | nil => simp
  | cons c rest =>
    have hc : c.isDigit = false := (h c rfl).1
    simp [hc]

/-- `scanMagnitude` scans the digits of a number, and neither a fraction nor an exponent. -/
theorem scanMagnitude_toDigits (negative : Bool) (n : Nat) {rest : List Char}
    (h : EndsNumber rest) :
    scanMagnitude negative (Nat.toDigits 10 n ++ rest) =
      (.complete ⟨negative, Nat.toDigits 10 n, none, none⟩, rest) := by
  obtain ⟨htake, hdrop⟩ := takeWhile_toDigits n h
  -- what follows the digits is neither a fraction nor an exponent
  have hexponent : ∀ text, scanExponent? text rest = (.complete text, rest) := by
    intro text
    unfold scanExponent?
    split
    · exact absurd rfl (h 'e' rfl).2.2.1
    · exact absurd rfl (h 'E' rfl).2.2.2
    · rfl
  have hfraction : ∀ text, scanFraction? text rest = (.complete text, rest) := by
    intro text
    unfold scanFraction?
    split
    · exact absurd rfl (h '.' rfl).2.1
    · exact hexponent text
  unfold scanMagnitude
  rw [htake, hdrop]
  split
  · next hnil => exact absurd hnil Nat.toDigits_ne_nil
  · next hzero => exact absurd (eq_nil_of_toDigits_eq hzero) (List.cons_ne_nil _ _)
  · exact hfraction _

/-- What is scanned where a number stands. -/
def Number.lexeme (n : Number) : NumberLexeme :=
  (scanNumber n.text).1

/-- `scanNumber` scans the sign of an integer and its digits. -/
theorem scanNumber_text (i : Int) {rest : List Char} (h : EndsNumber rest) :
    scanNumber ((Number.int i).text ++ rest) =
      (.complete ⟨i < 0, Nat.toDigits 10 i.natAbs, none, none⟩, rest) := by
  have hmagnitude := scanMagnitude_toDigits (decide (i < 0)) i.natAbs h
  rw [Number.text]
  split
  · next hneg =>
    rw [← hmagnitude, decide_eq_true hneg]
    rfl
  · next hneg =>
    rw [← hmagnitude, decide_eq_false hneg]
    obtain ⟨d, digits, hdigits, hd⟩ := toDigits_eq_cons i.natAbs
    unfold scanNumber
    split
    · -- a sign is no digit
      next hsign =>
      rw [hdigits, List.cons_append] at hsign
      rw [(List.cons.inj hsign).1] at hd
      exact absurd hd (by decide)
    · rfl

/-- `lexeme` of an integer is its sign and its digits. -/
theorem lexeme_int (i : Int) : (Number.int i).lexeme =
    .complete ⟨i < 0, Nat.toDigits 10 i.natAbs, none, none⟩ := by
  have hscan := scanNumber_text i EndsNumber.nil
  rw [List.append_nil] at hscan
  rw [Number.lexeme, hscan]

/-- `scanNumber` scans an integer as it was written. -/
theorem scanNumber_int (i : Int) {rest : List Char} (h : EndsNumber rest) :
    scanNumber ((Number.int i).text ++ rest) = ((Number.int i).lexeme, rest) := by
  rw [scanNumber_text i h, lexeme_int]

/-- `skip` passes over an integer. -/
theorem skip_lexeme_int (i : Int) : (Number.int i).lexeme.skip = .ok () := by
  rw [lexeme_int]
  rfl

/-- `natOfDigits` only adds. -/
theorem le_natOfDigits (n : Nat) (digits : List Char) : n ≤ natOfDigits n digits := by
  induction digits generalizing n with
  | nil => exact Nat.le_refl n
  | cons c digits ih =>
    have hn := ih (n * 10 + digitValue c)
    rw [natOfDigits] at hn ⊢
    rw [List.foldl_cons]
    omega

/-- `takeDigits` takes all digits if the number they stand for fits. -/
theorem takeDigits_of_lt {n : Nat} {digits : List Char}
    (h : natOfDigits n digits < 0x10000000000000000) :
    takeDigits n digits = (natOfDigits n digits, 0) := by
  induction digits generalizing n with
  | nil => rfl
  | cons c digits ih =>
    have hn : natOfDigits (n * 10 + digitValue c) digits < 0x10000000000000000 := h
    have hle := le_natOfDigits (n * 10 + digitValue c) digits
    rw [takeDigits, if_pos (by omega), ih hn]
    rfl

/-- `natOfDigits` reads the digits that are written. -/
theorem natOfDigits_toDigits (n : Nat) : natOfDigits 0 (Nat.toDigits 10 n) = n := by
  have hvalue := Nat.ofDigitChars_toDigits (b := 10) (n := n) (by omega) (by omega)
  simpa only [natOfDigits, digitValue, Nat.ofDigitChars_eq_foldl, Nat.mul_comm 10] using hvalue

/-- `value` of an integer of 64 bits is what it was written from. -/
theorem value_lexeme_int {i : Int} (hlow : -0x8000000000000000 ≤ i)
    (hhigh : i < 0x10000000000000000) : (Number.int i).lexeme.value = .ok (.int i) := by
  -- the number fits, so that no digit is left
  have htake : takeDigits 0 (Nat.toDigits 10 i.natAbs) = (i.natAbs, 0) := by
    rw [takeDigits_of_lt (by rw [natOfDigits_toDigits]; omega), natOfDigits_toDigits]
  rw [lexeme_int, NumberLexeme.value, NumberText.value]
  simp only [htake, if_true, decide_eq_true_eq]
  split
  · next hneg =>
    -- only zero is no integer behind a sign
    rw [if_pos (by omega)]
    congr 2
    omega
  · congr 2
    omega

/-! ## Tokens -/

/-- How a token is written. -/
inductive Token.Lexeme : Token → List Char → Prop where
  | punctuation {t : Token} {c : Char} (h : punctuation? c = some t) : Lexeme t [c]
  | word (w : Word) : Lexeme (.word w none) w.letters
  | int (i : Int) : Lexeme (.number (Number.int i).lexeme) (Number.int i).text
  | quoted {s : String} {body : List Char} (h : Spells body s.toList) :
      Lexeme (.quoted (.plain s)) ('"' :: body ++ ['"'])

/-- `writeQuoted` writes a `Lexeme` of a string. -/
theorem Token.Lexeme.written (s : String) : Lexeme (.quoted (.plain s)) (writeQuoted s) :=
  .quoted (spells_flatMap s.toList)

/-- Whether a text can follow a token. -/
def Token.Before : Token → List Char → Prop
  | .number _, rest => EndsNumber rest
  | _, _ => True

/-- `isSpace` knows four characters. -/
theorem isSpace_iff {c : Char} :
    isSpace c = true ↔ c = ' ' ∨ c = '\n' ∨ c = '\t' ∨ c = '\r' := by
  simp only [isSpace, Bool.or_eq_true, beq_iff_eq, or_assoc]

/-- `scanLetters` finds all letters of a word. -/
theorem scanLetters_append (letters rest : List Char) :
    scanLetters letters (letters ++ rest) = (none, rest) := by
  induction letters with
  | nil => rfl
  | cons a letters ih => rw [List.cons_append, scanLetters, if_pos rfl, ih]

/-- Punctuation is no white space. -/
theorem punctuation?_eq_some {c : Char} {t : Token} (h : punctuation? c = some t) :
    isSpace c = false := by
  unfold punctuation? at h
  split at h <;> first | rfl | cases h

/-- The first character of an integer tells that a number follows. -/
theorem text_int_eq_cons (i : Int) : ∃ c cs, (Number.int i).text = c :: cs ∧
    (c = '-' ∨ c.isDigit = true) := by
  rw [Number.text]
  split
  · exact ⟨_, _, rfl, .inl rfl⟩
  · obtain ⟨d, digits, hdigits, hd⟩ := toDigits_eq_cons i.natAbs
    exact ⟨d, digits, hdigits, .inr hd⟩

/-- `scanToken` scans a number if a sign or a digit comes first. -/
theorem scanToken_number {c : Char} (h : c = '-' ∨ c.isDigit = true) (cs : List Char) :
    isSpace c = false ∧ scanToken c cs =
      (.number (scanNumber (c :: cs)).1, (scanNumber (c :: cs)).2) := by
  -- the first character is of none of the other kinds
  have hspace : isSpace c = false := by
    rw [← Bool.not_eq_true, isSpace_iff]
    rintro (rfl | rfl | rfl | rfl) <;> revert h <;> decide
  have hpunctuation : punctuation? c = none := by
    unfold punctuation?
    split
    case h_7 => rfl
    all_goals revert h; decide
  have hquote : c ≠ '"' := by
    rintro rfl
    simp at h
  refine ⟨hspace, ?_⟩
  rw [scanToken, hpunctuation]
  simp only [if_neg hquote, if_pos h]

/-- `tokens` begins with what `scanToken` finds. -/
theorem tokens_cons {c : Char} {cs rest : List Char} {t : Token} (hspace : isSpace c = false)
    (h : scanToken c cs = (t, rest)) : tokens (c :: cs) = t :: tokens rest := by
  rw [tokens, if_neg (by simp [hspace]), h]

/-- `tokens` of a text begins with the token in front of it. -/
theorem tokens_lexeme {t : Token} {word rest : List Char} (hword : t.Lexeme word)
    (hrest : t.Before rest) : tokens (word ++ rest) = t :: tokens rest := by
  cases hword with
  | punctuation h =>
    refine tokens_cons (punctuation?_eq_some h) ?_
    simp [scanToken, h]
  | word w =>
    -- the first letter tells which word it is
    have hletters : scanLetters (w.letters.drop 1) (w.letters.drop 1 ++ rest) = (none, rest) :=
      scanLetters_append _ rest
    cases w
    all_goals
      refine tokens_cons rfl ?_
      simp only [Word.letters, List.drop_succ_cons, List.drop_zero, List.cons_append,
        List.nil_append] at hletters ⊢
      simp [scanToken, punctuation?, wordOf?, Word.letters, hletters]
  | int i =>
    obtain ⟨c, cs, htext, hc⟩ := text_int_eq_cons i
    -- the first character tells that a number follows, and the rest does not go on with it
    obtain ⟨hspace, htoken⟩ := scanToken_number hc (cs ++ rest)
    have hscan := scanNumber_int i hrest
    rw [htext, List.cons_append] at hscan ⊢
    refine tokens_cons hspace ?_
    rw [htoken, hscan]
  | quoted h =>
    have hscan := scanQuoted_of_spells h rest
    rw [List.cons_append, List.cons_append, List.append_assoc, List.singleton_append]
    refine tokens_cons rfl ?_
    simp [scanToken, punctuation?, hscan]

/-- A text that has the given tokens, with white space anywhere between them. -/
inductive Spaced : List Token → List Char → Prop where
  | nil : Spaced [] []
  | space {ts : List Token} {c : Char} {text : List Char} (hc : isSpace c = true)
      (h : Spaced ts text) : Spaced ts (c :: text)
  | token {t : Token} {ts : List Token} {word text : List Char} (hword : t.Lexeme word)
      (htext : t.Before text) (h : Spaced ts text) : Spaced (t :: ts) (word ++ text)

/-- `tokens` cuts a text into the tokens that it was put together from. -/
theorem tokens_of_spaced {ts : List Token} {text : List Char} (h : Spaced ts text) :
    tokens text = ts := by
  induction h with
  | nil => rw [tokens]
  | space hc _ ih => rw [tokens, if_pos hc, ih]
  | token hword htext _ ih => rw [tokens_lexeme hword htext, ih]

end CallCycle.Json

import CallCycle.Json.Number
import CallCycle.Json.Quoted

/-!
# Tokens

A JSON text is cut into tokens before anything is asked of it, so that white space plays no part
afterwards.  A word, number or string that does not end as it should is still a token, which says
what is wrong with it to those who ask for it; it is the last one.
-/

namespace CallCycle.Json

/-- The words of JSON. -/
inductive Word where
  | null | true | false
  deriving DecidableEq, Repr

/-- The letters of a word. -/
def Word.letters : Word → List Char
  | .null => ['n', 'u', 'l', 'l']
  | .true => ['t', 'r', 'u', 'e']
  | .false => ['f', 'a', 'l', 's', 'e']

/-- A token.  `stray` is any character that starts none of the others. -/
inductive Token where
  | openList | closeList
  | openObject | closeObject
  | comma | colon
  | word (w : Word) (fault : Option Fault)
  | number (n : NumberLexeme)
  | quoted (q : QuotedLexeme)
  | stray

/-- The white space of JSON. -/
def isSpace (c : Char) : Bool :=
  c == ' ' || c == '\n' || c == '\t' || c == '\r'

/-- Scans the letters of a word, of which the first is known. -/
def scanLetters : (letters cs : List Char) → Option Fault × List Char
  | [], cs => (none, cs)
  | _ :: _, [] => (some (.truncated .value), [])
  | a :: letters, c :: cs =>
    if a = c then scanLetters letters cs else (some (.malformed .expectedWord), [])

/-- The word that starts with a given letter. -/
def wordOf? : Char → Option Word
  | 'n' => some .null
  | 't' => some .true
  | 'f' => some .false
  | _ => none

/-- The punctuation that a character is. -/
def punctuation? : Char → Option Token
  | '[' => some .openList
  | ']' => some .closeList
  | '\x7b' => some .openObject
  | '\x7d' => some .closeObject
  | ',' => some .comma
  | ':' => some .colon
  | _ => none

/-- The token that starts with the character `c`, which is not white space, and what follows it. -/
def scanToken (c : Char) (cs : List Char) : Token × List Char :=
  match punctuation? c with
  | some token => (token, cs)
  | none =>
    if c = '"' then
      let (q, rest) := scanQuoted cs
      (.quoted q, rest)
    else if c = '-' ∨ c.isDigit then
      let (n, rest) := scanNumber (c :: cs)
      (.number n, rest)
    else
      match wordOf? c with
      | some w =>
        let (fault, rest) := scanLetters (w.letters.drop 1) cs
        (.word w fault, rest)
      | none => (.stray, cs)

/-- `scanLetters` leaves no more than it was given. -/
theorem length_scanLetters_le (letters cs : List Char) :
    (scanLetters letters cs).2.length ≤ cs.length := by
  induction letters generalizing cs with
  | nil => simp [scanLetters]
  | cons a letters ih =>
    cases cs with
    | nil => simp [scanLetters]
    | cons c cs =>
      by_cases h : a = c
      · subst h; simpa [scanLetters] using Nat.le_succ_of_le (ih cs)
      · simp [scanLetters, h]

/-- `scanToken` leaves no more than it was given behind the first character. -/
theorem length_scanToken_le (c : Char) (cs : List Char) :
    (scanToken c cs).2.length ≤ cs.length := by
  unfold scanToken
  split
  · simp
  · split
    -- a string, behind its quote
    · exact length_scanQuoted_le cs
    · split
      -- a number, with its first character
      · next h => exact Nat.le_of_lt_succ (length_scanNumber_lt h cs)
      · split
        -- a word, behind its first letter
        · exact length_scanLetters_le _ cs
        · simp

/-- The tokens of a text. -/
def tokens (cs : List Char) : List Token :=
  match cs with
  | [] => []
  | c :: cs =>
    if isSpace c then tokens cs
    else (scanToken c cs).1 :: tokens (scanToken c cs).2
termination_by cs.length
decreasing_by
  · simp
  · exact Nat.lt_succ_of_le (length_scanToken_le c cs)

end CallCycle.Json

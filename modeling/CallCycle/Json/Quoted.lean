import CallCycle.Json.Fault

/-!
# Quoted strings

The body of a string runs to the next double quote.  A string that is asked for is decoded by
`readQuoted`, which also checks that surrogates stand in pairs; one that is not asked for is passed
over by `skipQuoted`, which does not.  `writeQuoted` is the other way round: it escapes the double
quote, the backslash and the control characters, and nothing else.
-/

namespace CallCycle.Json

/-! ## Escapes -/

/-- The value of a digit in base sixteen. -/
def hexValue? (c : Char) : Option Nat :=
  if c.isDigit then some (c.toNat - '0'.toNat)
  else if 'a' ≤ c ∧ c ≤ 'f' then some (c.toNat - 'a'.toNat + 10)
  else if 'A' ≤ c ∧ c ≤ 'F' then some (c.toNat - 'A'.toNat + 10)
  else none

/-- The character that a letter behind a backslash stands for. -/
def escaped? : Char → Option Char
  | '"' => some '"'
  | '\\' => some '\\'
  | '/' => some '/'
  | 'b' => some '\x08'
  | 'f' => some '\x0c'
  | 'n' => some '\n'
  | 'r' => some '\r'
  | 't' => some '\t'
  | _ => none

/-- The number of bytes of a text. -/
def byteCount (cs : List Char) : Nat :=
  cs.foldl (fun n c => n + c.utf8Size) 0

/-- Reads four digits in base sixteen.  The text ends too early if fewer than four bytes are
    left. -/
def readHex : List Char → Except Fault (Nat × List Char)
  | a :: b :: c :: d :: cs =>
    match hexValue? a, hexValue? b, hexValue? c, hexValue? d with
    | some a, some b, some c, some d => .ok (((a * 16 + b) * 16 + c) * 16 + d, cs)
    | _, _, _, _ => .error (.malformed .invalidEscape)
  | cs =>
    if byteCount cs < 4 then .error (.truncated .string)
    else .error (.malformed .invalidEscape)

/-- Whether a code unit is the first of a surrogate pair. -/
def isLeading (n : Nat) : Bool := 0xD800 ≤ n && n ≤ 0xDBFF

/-- Whether a code unit is the second of a surrogate pair. -/
def isTrailing (n : Nat) : Bool := 0xDC00 ≤ n && n ≤ 0xDFFF

/-- The character that a surrogate pair stands for. -/
def pairedChar (leading trailing : Nat) : Char :=
  Char.ofNat ((leading - 0xD800) * 0x400 + (trailing - 0xDC00) + 0x10000)

/-- Reads the second half of a surrogate pair whose first half is `n`. -/
def readTrailing (n : Nat) : List Char → Except Fault (Char × List Char)
  | [] => .error (.truncated .string)
  | ['\\'] => .error (.truncated .string)
  | '\\' :: 'u' :: cs => do
    let (m, cs) ← readHex cs
    if isTrailing m then .ok (pairedChar n m, cs)
    else .error (.malformed .loneSurrogate)
  | _ => .error (.malformed .endOfEscape)

/-- Reads what follows a backslash. -/
def readEscape : List Char → Except Fault (Char × List Char)
  | [] => .error (.truncated .string)
  | 'u' :: cs => do
    let (n, cs) ← readHex cs
    if isTrailing n then .error (.malformed .loneSurrogate)
    else if isLeading n then readTrailing n cs
    else .ok (Char.ofNat n, cs)
  | c :: cs =>
    match escaped? c with
    | some c => .ok (c, cs)
    | none => .error (.malformed .invalidEscape)

/-- Passes over what follows a backslash. -/
def skipEscape : List Char → Except Fault (List Char)
  | [] => .error (.truncated .string)
  | 'u' :: cs => (readHex cs).map (·.2)
  | c :: cs => if (escaped? c).isSome then .ok cs else .error (.malformed .invalidEscape)

/-- `readHex` takes some characters. -/
theorem length_readHex_lt {cs : List Char} {n : Nat} {rest : List Char}
    (h : readHex cs = .ok (n, rest)) : rest.length < cs.length := by
  unfold readHex at h
  split at h
  · split at h
    · cases h; simp; omega
    · cases h
  · split at h <;> cases h

/-- `readTrailing` takes some characters. -/
theorem length_readTrailing_lt {cs : List Char} {n : Nat} {c : Char} {rest : List Char}
    (h : readTrailing n cs = .ok (c, rest)) : rest.length < cs.length := by
  unfold readTrailing at h
  split at h
  · cases h
  · cases h
  -- a backslash, the `u` and four digits
  · next cs =>
    cases hx : readHex cs with
    | error e => simp [hx, bind, Except.bind] at h
    | ok p =>
      obtain ⟨m, cs'⟩ := p
      simp only [hx, bind, Except.bind] at h
      have := length_readHex_lt hx
      split at h
      · simp only [Except.ok.injEq, Prod.mk.injEq] at h
        obtain ⟨_, rfl⟩ := h
        simp; omega
      · cases h
  · cases h

/-- `readEscape` takes some characters. -/
theorem length_readEscape_lt {cs : List Char} {c : Char} {rest : List Char}
    (h : readEscape cs = .ok (c, rest)) : rest.length < cs.length := by
  unfold readEscape at h
  split at h
  · cases h
  -- the code of a character, alone or as the first of a pair
  · next cs =>
    cases hx : readHex cs with
    | error e => simp [hx, bind, Except.bind] at h
    | ok p =>
      obtain ⟨m, cs'⟩ := p
      simp only [hx, bind, Except.bind] at h
      have := length_readHex_lt hx
      split at h
      · cases h
      · split at h
        · have := length_readTrailing_lt h; simp; omega
        · cases h; simp; omega
  -- one of the short escapes
  · split at h
    · cases h; simp
    · cases h

/-- `skipEscape` takes some characters. -/
theorem length_skipEscape_lt {cs rest : List Char} (h : skipEscape cs = .ok rest) :
    rest.length < cs.length := by
  unfold skipEscape at h
  split at h
  · cases h
  -- the code of a character
  · next cs =>
    cases hx : readHex cs with
    | error e => simp [hx, Except.map] at h
    | ok p =>
      simp only [hx, Except.map] at h
      cases h
      obtain ⟨n, rest⟩ := p
      have := length_readHex_lt hx
      simp; omega
  · split at h
    · cases h; simp
    · cases h

/-! ## Bodies -/

/-- Decodes the body of a string; the result has what follows the closing quote. -/
def readQuoted (cs : List Char) : Except Fault (List Char × List Char) :=
  match cs with
  | [] => .error (.truncated .string)
  | c :: cs =>
    if c = '"' then .ok ([], cs)
    else if c = '\\' then
      match _h : readEscape cs with
      | .error fault => .error fault
      | .ok (c, rest) => (readQuoted rest).map fun (body, rest) => (c :: body, rest)
    else if c.toNat < 0x20 then .error (.malformed .controlCharacter)
    else (readQuoted cs).map fun (body, rest) => (c :: body, rest)
termination_by cs.length
decreasing_by
  · have := length_readEscape_lt _h; simp; omega
  · simp

/-- Passes over the body of a string; the result is what follows the closing quote. -/
def skipQuoted (cs : List Char) : Except Fault (List Char) :=
  match cs with
  | [] => .error (.truncated .string)
  | c :: cs =>
    if c = '"' then .ok cs
    else if c = '\\' then
      match _h : skipEscape cs with
      | .error fault => .error fault
      | .ok rest => skipQuoted rest
    else if c.toNat < 0x20 then .error (.malformed .controlCharacter)
    else skipQuoted cs
termination_by cs.length
decreasing_by
  · have := length_skipEscape_lt _h; simp; omega
  · simp

/-- `skipQuoted` takes some characters, at least the closing quote. -/
theorem length_skipQuoted_lt {cs rest : List Char} (h : skipQuoted cs = .ok rest) :
    rest.length < cs.length := by
  fun_induction skipQuoted cs with
  | case1 => cases h
  | case2 => cases h; simp
  | case3 => cases h
  | case4 cs rest hs _ ih => have := ih h; have := length_skipEscape_lt hs; simp; omega
  | case5 => cases h
  | case6 c cs _ _ _ ih => have := ih h; simp; omega

/-- What was scanned where a string stands. -/
structure QuotedLexeme where
  /-- The decoded body, for a string that is asked for. -/
  text : Except Fault String
  /-- Whether the string can be passed over. -/
  skip : Except Fault Unit

/-- Scans a string behind its opening quote.  Nothing follows a string that does not end. -/
def scanQuoted (cs : List Char) : QuotedLexeme × List Char :=
  -- both are worked out, for it is not known yet whether the string is asked for
  let text := (readQuoted cs).map fun (body, _) => String.ofList body
  match skipQuoted cs with
  | .ok rest => (⟨text, .ok ()⟩, rest)
  | .error fault => (⟨text, .error fault⟩, [])

/-- `scanQuoted` leaves no more than it was given. -/
theorem length_scanQuoted_le (cs : List Char) : (scanQuoted cs).2.length ≤ cs.length := by
  unfold scanQuoted
  cases h : skipQuoted cs with
  | ok rest => exact Nat.le_of_lt (length_skipQuoted_lt h)
  | error => simp

/-! ## Writing -/

/-- How a character stands in a string. -/
def escapeChar (c : Char) : List Char :=
  match c with
  | '"' => ['\\', '"']
  | '\\' => ['\\', '\\']
  | '\x08' => ['\\', 'b']
  | '\t' => ['\\', 't']
  | '\n' => ['\\', 'n']
  | '\x0c' => ['\\', 'f']
  | '\r' => ['\\', 'r']
  | c =>
    if c.toNat < 0x20 then
      ['\\', 'u', '0', '0', Nat.digitChar (c.toNat / 16), Nat.digitChar (c.toNat % 16)]
    else [c]

/-- A string with its quotes. -/
def writeQuoted (s : String) : List Char :=
  '"' :: s.toList.flatMap escapeChar ++ ['"']

end CallCycle.Json

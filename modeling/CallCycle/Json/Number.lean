import CallCycle.Json.Fault

/-!
# Number literals

A number literal is scanned once, into its parts; a literal that breaks off keeps only whether the
text ended there.  What a complete literal stands for is decided by `NumberText.value`:

* without fraction and exponent it is an integer if it fits into 64 bits, unsigned or, with a minus
  sign, signed; `-0` is not;
* otherwise it is a floating point number.  Its digits are taken into a 64-bit significand as long
  as they fit, those of the fraction anew after those of the whole part; the rest only shift the
  exponent.  The significand is then rounded and scaled.
-/

namespace CallCycle.Json

/-- The parts of a number literal. -/
structure NumberText where
  negative : Bool
  whole : List Char
  fraction : Option (List Char)
  /-- Whether the exponent is negative, and its digits. -/
  exponent : Option (Bool × List Char)
  deriving DecidableEq, Repr

/-- What was scanned where a number stands. -/
inductive NumberLexeme where
  | complete (text : NumberText)
  | broken (atEnd : Bool)
  deriving DecidableEq, Repr

/-! ## Scanning -/

/-- Scans the exponent behind its mark. -/
def scanExponent (text : NumberText) (cs : List Char) : NumberLexeme × List Char :=
  let (negative, cs) :=
    match cs with
    | '+' :: cs => (false, cs)
    | '-' :: cs => (true, cs)
    | cs => (false, cs)
  match cs.takeWhile Char.isDigit with
  | [] => (.broken cs.isEmpty, [])
  | digits => (.complete { text with exponent := some (negative, digits) },
      cs.dropWhile Char.isDigit)

/-- Scans an exponent, if there is one. -/
def scanExponent? (text : NumberText) : List Char → NumberLexeme × List Char
  | 'e' :: cs => scanExponent text cs
  | 'E' :: cs => scanExponent text cs
  | cs => (.complete text, cs)

/-- Scans what follows the whole part. -/
def scanFraction? (text : NumberText) : List Char → NumberLexeme × List Char
  | '.' :: cs =>
    match cs.takeWhile Char.isDigit with
    | [] => (.broken cs.isEmpty, [])
    | digits => scanExponent? { text with fraction := some digits } (cs.dropWhile Char.isDigit)
  | cs => scanExponent? text cs

/-- Scans a number behind its sign. -/
def scanMagnitude (negative : Bool) (cs : List Char) : NumberLexeme × List Char :=
  match cs.takeWhile Char.isDigit with
  | [] => (.broken cs.isEmpty, [])
  -- no zero in front of other digits
  | '0' :: _ :: _ => (.broken false, [])
  | digits => scanFraction? ⟨negative, digits, none, none⟩ (cs.dropWhile Char.isDigit)

/-- Scans a number. -/
def scanNumber : List Char → NumberLexeme × List Char
  | '-' :: cs => scanMagnitude true cs
  | cs => scanMagnitude false cs

/-! ## Values -/

/-- The value of a digit. -/
def digitValue (c : Char) : Nat :=
  c.toNat - '0'.toNat

/-- The natural number that digits stand for, continued from `n`. -/
def natOfDigits (n : Nat) (digits : List Char) : Nat :=
  digits.foldl (fun n c => n * 10 + digitValue c) n

/-- Takes digits into a significand as long as it fits into 64 bits; the result has the number of
    digits left over. -/
def takeDigits (n : Nat) : List Char → Nat × Nat
  | [] => (n, 0)
  | c :: cs =>
    if n * 10 + digitValue c < 0x10000000000000000 then takeDigits (n * 10 + digitValue c) cs
    else (n, cs.length + 1)

/-- The floating point number that a significand and a decimal exponent stand for. -/
def floatOf (negative : Bool) (significand : Nat) (exponent : Int) : Except Fault Number :=
  match Binary64.ofDecimal? significand exponent with
  | some magnitude => .ok (.float negative magnitude)
  | none => .error (.malformed .numberOutOfRange)

/-- What a complete number literal stands for. -/
def NumberText.value (text : NumberText) : Except Fault Number :=
  let (significand, left) := takeDigits 0 text.whole
  match text.fraction, text.exponent with
  | none, none =>
    if left = 0 then
      -- `-0` and what is below the least integer of 64 bits become floating point numbers
      if text.negative then
        if 0 < significand ∧ significand ≤ 0x8000000000000000 then .ok (.int (-significand))
        else floatOf true significand 0
      else .ok (.int significand)
    else floatOf text.negative significand left
  | fraction, exponent =>
    let fraction := fraction.getD []
    let (significand, dropped) := takeDigits significand fraction
    let taken := fraction.length - dropped
    let shift : Int :=
      match exponent with
      | none => 0
      | some (true, digits) => -(natOfDigits 0 digits : Int)
      | some (false, digits) => natOfDigits 0 digits
    floatOf text.negative significand ((left : Int) - taken + shift)

/-- The value of a number that is asked for. -/
def NumberLexeme.value : NumberLexeme → Except Fault Number
  | .complete text => text.value
  | .broken true => .error (.truncated .value)
  | .broken false => .error (.malformed .invalidNumber)

/-- Passes over a number that is not asked for. -/
def NumberLexeme.skip : NumberLexeme → Except Fault Unit
  | .complete _ => .ok ()
  | .broken _ => .error (.malformed .invalidNumber)

/-! ## Length of the rest -/

/-- What `dropWhile` leaves is no longer than the text. -/
theorem length_dropWhile_le (p : Char → Bool) (cs : List Char) :
    (cs.dropWhile p).length ≤ cs.length :=
  (List.dropWhile_suffix p).length_le

/-- `scanExponent` leaves no more than it was given. -/
theorem length_scanExponent_le (text : NumberText) (cs : List Char) :
    (scanExponent text cs).2.length ≤ cs.length := by
  simp only [scanExponent]
  split <;> split <;> simp_all <;>
    exact Nat.le_trans (length_dropWhile_le _ _) (by simp)

/-- `scanExponent?` leaves no more than it was given. -/
theorem length_scanExponent?_le (text : NumberText) (cs : List Char) :
    (scanExponent? text cs).2.length ≤ cs.length := by
  unfold scanExponent?
  split
  · exact Nat.le_trans (length_scanExponent_le _ _) (by simp)
  · exact Nat.le_trans (length_scanExponent_le _ _) (by simp)
  · simp

/-- `scanFraction?` leaves no more than it was given. -/
theorem length_scanFraction?_le (text : NumberText) (cs : List Char) :
    (scanFraction? text cs).2.length ≤ cs.length := by
  unfold scanFraction?
  split
  · split
    · simp
    · exact Nat.le_trans (length_scanExponent?_le _ _)
        (Nat.le_trans (length_dropWhile_le _ _) (by simp))
  · exact length_scanExponent?_le _ _

/-- `scanMagnitude` leaves no more than it was given. -/
theorem length_scanMagnitude_le (negative : Bool) (cs : List Char) :
    (scanMagnitude negative cs).2.length ≤ cs.length := by
  unfold scanMagnitude
  split
  · simp
  · simp
  · exact Nat.le_trans (length_scanFraction?_le _ _) (length_dropWhile_le _ _)

/-- `scanNumber` takes at least its first character, a sign or a digit. -/
theorem length_scanNumber_lt {c : Char} (h : c = '-' ∨ c.isDigit = true) (cs : List Char) :
    (scanNumber (c :: cs)).2.length < (c :: cs).length := by
  unfold scanNumber
  split
  -- the sign is taken
  · next heq =>
    cases heq
    exact Nat.lt_succ_of_le (length_scanMagnitude_le _ _)
  -- the first digit is taken with those behind it
  · next hne =>
    have hd : c.isDigit = true := by
      rcases h with rfl | h
      · exact absurd rfl (hne cs)
      · exact h
    simp only [scanMagnitude, List.takeWhile_cons, hd, if_true]
    split
    · simp
    · simp
    · refine Nat.lt_of_le_of_lt (length_scanFraction?_le _ _) ?_
      simp only [List.dropWhile_cons, hd, if_true, List.length_cons]
      exact Nat.lt_succ_of_le (length_dropWhile_le _ _)

end CallCycle.Json

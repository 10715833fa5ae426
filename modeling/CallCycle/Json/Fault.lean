import CallCycle.Number.Decimal
import CallCycle.Text.Quote

/-!
# Faults of JSON texts

Reading stops at the first fault.  A fault is of one of three kinds: the text ends too early, the
text is not JSON, or the text is JSON of another shape than was asked for.  `Fault.message` holds
all wording.
-/

namespace CallCycle.Json

/-- What is being read where a text ends too early. -/
inductive Region where
  | value | list | object | string
  deriving DecidableEq, Repr

/-- How a text breaks the grammar. -/
inductive Malformation where
  | expectedValue
  | expectedWord
  | expectedColon
  | expectedCommaOrBracket
  | expectedCommaOrBrace
  | trailingComma
  | trailingCharacters
  | keyNotString
  | invalidNumber
  | numberOutOfRange
  | invalidEscape
  | loneSurrogate
  | endOfEscape
  | controlCharacter
  | tooDeep
  deriving DecidableEq, Repr

/-- A number: an integer of 64 bits, with or without sign, or else a floating point number. -/
inductive Number where
  | int (i : Int)
  | float (negative : Bool) (magnitude : Binary64)
  deriving DecidableEq, Repr

/-- What stands where something else was asked for. -/
inductive Found where
  | null
  | bool (b : Bool)
  | number (n : Number)
  | string (s : String)
  | list
  | object
  deriving DecidableEq, Repr

/-- How a well-formed text differs in shape from what was asked for. -/
inductive Mismatch where
  | type (found : Found) (expected : String)
  | value (found : Found) (expected : String)
  | length (n : Nat) (expected : String)
  | missingField (name : String)
  | duplicateField (name : String)
  | unknownVariant (name : String) (variants : List String)
  deriving DecidableEq, Repr

/-- Why a text cannot be read. -/
inductive Fault where
  | truncated (region : Region)
  | malformed (how : Malformation)
  | mismatch (how : Mismatch)
  deriving DecidableEq, Repr

/-- Numbers are positional from `10 ^ (-5)` up to, but without, `10 ^ 16`, and always have a point
    or an exponent; an exponent has a sign and no zero in front. -/
def numberLayout : DecimalLayout where
  lowest := -5
  limit := 16
  keepsPoint := true
  mark := ['e']
  signsPlus := true

/-- The text of a number. -/
def Number.text : Number → List Char
  | .int i => if i < 0 then '-' :: Nat.toDigits 10 i.natAbs else Nat.toDigits 10 i.natAbs
  | .float negative magnitude => numberLayout.text negative magnitude

/-- A text between back quotes. -/
def ticked (s : String) : String :=
  "`" ++ s ++ "`"

/-- The wording of what was found. -/
def Found.message : Found → String
  | .null => "null"
  | .bool b => "boolean " ++ ticked (if b then "true" else "false")
  | .number (.int i) => "integer " ++ ticked (String.ofList (Number.int i).text)
  | .number x => "floating point " ++ ticked (String.ofList x.text)
  | .string s => "string " ++ Text.quote s
  | .list => "sequence"
  | .object => "map"

/-- The wording of a choice between names. -/
def oneOf : List String → String
  | [] => "there are no variants"
  | [a] => ticked a
  | [a, b] => ticked a ++ " or " ++ ticked b
  | names => "one of " ++ ", ".intercalate (names.map ticked)

/-- The wording of the region in which a text ends. -/
def Region.message : Region → String
  | .value => "a value"
  | .list => "a list"
  | .object => "an object"
  | .string => "a string"

/-- The wording of a break of the grammar. -/
def Malformation.message : Malformation → String
  | .expectedValue => "expected value"
  | .expectedWord => "expected ident"
  | .expectedColon => "expected `:`"
  | .expectedCommaOrBracket => "expected `,` or `]`"
  | .expectedCommaOrBrace => "expected `,` or `\x7d`"
  | .trailingComma => "trailing comma"
  | .trailingCharacters => "trailing characters"
  | .keyNotString => "key must be a string"
  | .invalidNumber => "invalid number"
  | .numberOutOfRange => "number out of range"
  | .invalidEscape => "invalid escape"
  | .loneSurrogate => "lone leading surrogate in hex escape"
  | .endOfEscape => "unexpected end of hex escape"
  | .controlCharacter => "control character (\\u0000-\\u001F) found while parsing a string"
  | .tooDeep => "recursion limit exceeded"

/-- The wording of a difference in shape. -/
def Mismatch.message : Mismatch → String
  | .type found expected => "invalid type: " ++ found.message ++ ", expected " ++ expected
  | .value found expected => "invalid value: " ++ found.message ++ ", expected " ++ expected
  | .length n expected => "invalid length " ++ toString n ++ ", expected " ++ expected
  | .missingField name => "missing field " ++ ticked name
  | .duplicateField name => "duplicate field " ++ ticked name
  | .unknownVariant name variants =>
    "unknown variant " ++ ticked name ++ ", expected " ++ oneOf variants

/-- The wording of a fault. -/
def Fault.message : Fault → String
  | .truncated region => "EOF while parsing " ++ region.message
  | .malformed how => how.message
  | .mismatch how => how.message

end CallCycle.Json

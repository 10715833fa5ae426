import CallCycle.Json.Item

/-!
# Values

A JSON value, with its members in the order of the text.  `Item.value` takes an item in as a value
before it is known what is asked for; it counts nested brackets, and refuses more than its room.
`Value.compact` and `Value.prettyAt` write a value, without white space or over indented lines.
-/

namespace CallCycle.Json

/-- A JSON value. -/
inductive Value where
  | null
  | bool (b : Bool)
  | number (n : Number)
  | string (s : String)
  | list (elements : List Value)
  | object (members : List (String × Value))

namespace Value

/-- A natural number as a value. -/
def nat (n : Nat) : Value :=
  .number (.int n)

/-- What is found where a value stands. -/
def found : Value → Found
  | .null => .null
  | .bool b => .bool b
  | .number n => .number n
  | .string s => .string s
  | .list _ => .list
  | .object _ => .object

end Value

/-! ## Taking items in -/

/-- The value of a word. -/
def Word.value : Word → Value
  | .null => .null
  | .true => .bool Bool.true
  | .false => .bool Bool.false

/-- The fault of opening one bracket more than there is room for. -/
def tooDeep : Fault :=
  .malformed .tooDeep

mutual

/-- Takes an item in as a value, with room for `room` nested brackets. -/
def Item.value (room : Nat) : Item → Except Fault Value
  | .stray => .error (.malformed .expectedValue)
  | .word w fault => do
    raise fault
    .ok w.value
  | .number n => n.value.map .number
  | .quoted q => q.text.map .string
  | .list elements ending =>
    match room with
    | 0 => .error tooDeep
    | room + 1 => do
      let values ← valuesOf room elements
      raise ending.listFault?
      .ok (.list values)
  | .object members ending =>
    match room with
    | 0 => .error tooDeep
    | room + 1 => do
      let entries ← entriesOf room members
      raise ending.objectFault?
      .ok (.object entries)

/-- Takes the elements of a list in. -/
def valuesOf (room : Nat) : List Item → Except Fault (List Value)
  | [] => .ok []
  | item :: items => do
    let value ← item.value room
    let values ← valuesOf room items
    .ok (value :: values)

/-- Takes the members of an object in. -/
def entriesOf (room : Nat) : List Member → Except Fault (List (String × Value))
  | [] => .ok []
  | member :: members => do
    let entry ← member.value room
    let entries ← entriesOf room members
    .ok (entry :: entries)

/-- Takes a member of an object in. -/
def Member.value (room : Nat) : Member → Except Fault (String × Value)
  | .entry key item => do
    let key ← key.text
    let value ← item.value room
    .ok (key, value)
  | .cut key fault => do
    let _ ← key.text
    .error fault

end

/-! ## Writing -/

namespace Value

mutual

/-- The text of a value without white space. -/
def compact : Value → List Char
  | .null => Word.null.letters
  | .bool b => (if b then Word.true else Word.false).letters
  | .number n => n.text
  | .string s => writeQuoted s
  | .list elements => '[' :: compactElements elements ++ [']']
  | .object members => '\x7b' :: compactMembers members ++ ['\x7d']

/-- The elements of a list, divided by commas. -/
def compactElements : List Value → List Char
  | [] => []
  | [v] => v.compact
  | v :: vs => v.compact ++ ',' :: compactElements vs

/-- The members of an object, divided by commas. -/
def compactMembers : List (String × Value) → List Char
  | [] => []
  | [(key, v)] => writeQuoted key ++ ':' :: v.compact
  | (key, v) :: members => writeQuoted key ++ ':' :: v.compact ++ ',' :: compactMembers members

end

/-- A new line with `depth` steps of indentation. -/
def newLine (depth : Nat) : List Char :=
  '\n' :: List.replicate (2 * depth) ' '

mutual

/-- The text of a value over several lines, which are indented by `depth` steps and more. -/
def prettyAt (depth : Nat) : Value → List Char
  | .null => Word.null.letters
  | .bool b => (if b then Word.true else Word.false).letters
  | .number n => n.text
  | .string s => writeQuoted s
  | .list [] => ['[', ']']
  | .list (v :: vs) =>
    '[' :: prettyElements (depth + 1) (v :: vs) ++ newLine depth ++ [']']
  | .object [] => ['\x7b', '\x7d']
  | .object (m :: ms) =>
    '\x7b' :: prettyMembers (depth + 1) (m :: ms) ++ newLine depth ++ ['\x7d']

/-- The elements of a list, each on a line of its own. -/
def prettyElements (depth : Nat) : List Value → List Char
  | [] => []
  | [v] => newLine depth ++ v.prettyAt depth
  | v :: vs => newLine depth ++ v.prettyAt depth ++ ',' :: prettyElements depth vs

/-- The members of an object, each on a line of its own. -/
def prettyMembers (depth : Nat) : List (String × Value) → List Char
  | [] => []
  | [(key, v)] => newLine depth ++ writeQuoted key ++ ':' :: ' ' :: v.prettyAt depth
  | (key, v) :: members =>
    newLine depth ++ writeQuoted key ++ ':' :: ' ' :: v.prettyAt depth ++
      ',' :: prettyMembers depth members

end

/-- The text of a value without white space, as a string. -/
def compactText (v : Value) : String :=
  String.ofList v.compact

/-- The text of a value over indented lines, as a string. -/
def prettyText (v : Value) : String :=
  String.ofList (v.prettyAt 0)

end Value

end CallCycle.Json

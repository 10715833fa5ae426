import CallCycle.Json.Value

/-!
# Codecs

A codec ties a type to its JSON form: how it is read from an item of a text, how it is read from a
value that was taken in before, and how it is written.  The two ways of reading differ only in
their faults.

This module has the codecs of texts, truth values, numbers, lists, values that may be null, and
choices between names.  `Json.Row` has those of structures.
-/

namespace CallCycle.Json

/-- How a type is read from and written to JSON. -/
structure Codec (α : Type) where
  /-- Reads an item, with room for a number of nested brackets. -/
  read : (room : Nat) → Item → Except Fault α
  /-- Reads a value that was taken in before. -/
  ofValue : Value → Except Fault α
  /-- Writes. -/
  toValue : α → Value

namespace Codec

/-- Opens a bracket, if there is room for it. -/
def enter {α : Type} (room : Nat) (inside : Nat → Except Fault α) : Except Fault α :=
  match room with
  | 0 => .error tooDeep
  | room + 1 => inside room

/-! ## Plain values -/

/-- Texts. -/
def string : Codec String where
  read _
    | .quoted q => q.text
    | item => .error (item.mismatch "a string")
  ofValue
    | .string s => .ok s
    | v => .error (.mismatch (.type v.found "a string"))
  toValue := .string

/-- Truth values. -/
def flag : Codec Bool where
  read _
    | .word .true none => .ok true
    | .word .false none => .ok false
    | item => .error (item.mismatch "a boolean")
  ofValue
    | .bool b => .ok b
    | v => .error (.mismatch (.type v.found "a boolean"))
  toValue := .bool

/-- The natural number that a number is, if it is below `limit`. -/
def natOf (limit : Nat) (label : String) : Number → Except Fault Nat
  | .int i =>
    if 0 ≤ i ∧ i < limit then .ok i.toNat
    else .error (.mismatch (.value (.number (.int i)) label))
  | n => .error (.mismatch (.type (.number n) label))

/-- Natural numbers below `limit`. -/
def nat (limit : Nat) (label : String) : Codec Nat where
  read _
    | .number n => n.value.bind (natOf limit label)
    | item => .error (item.mismatch label)
  ofValue
    | .number n => natOf limit label n
    | v => .error (.mismatch (.type v.found label))
  toValue := .nat

/-- Line numbers have 32 bits. -/
def lineNumber : Codec Nat :=
  nat 0x100000000 "u32"

/-- Counters have 64 bits. -/
def counter : Codec Nat :=
  nat 0x10000000000000000 "usize"

/-! ## Lists and null -/

/-- Reads all elements in order. -/
def readAll {β α : Type} (f : β → Except Fault α) : List β → Except Fault (List α)
  | [] => .ok []
  | x :: xs => do
    let a ← f x
    let as ← readAll f xs
    .ok (a :: as)

/-- Lists. -/
def list {α : Type} (c : Codec α) : Codec (List α) where
  read room
    | .list elements ending => enter room fun room => do
      let as ← readAll (c.read room) elements
      -- the elements come first in the text
      raise ending.listFault?
      .ok as
    | item => .error (item.mismatch "a sequence")
  ofValue
    | .list values => readAll c.ofValue values
    | v => .error (.mismatch (.type v.found "a sequence"))
  toValue as := .list (as.map c.toValue)

/-- Values that may be null. -/
def nullable {α : Type} (c : Codec α) : Codec (Option α) where
  read room
    | .word .null fault => (raise fault).map fun _ => none
    | item => (c.read room item).map some
  ofValue
    | .null => .ok none
    | v => (c.ofValue v).map some
  toValue
    | none => .null
    | some a => c.toValue a

/-! ## Choices between names -/

/-- The alternative with a given name. -/
def choose {α : Type} (cases : List (String × α)) (name : String) : Except Fault α :=
  match cases.find? (·.1 == name) with
  | some (_, a) => .ok a
  | none => .error (.mismatch (.unknownVariant name (cases.map (·.1))))

/-- Reads the name of an alternative. -/
def readName {α : Type} (cases : List (String × α)) : Item → Except Fault α
  | .quoted q => q.text.bind (choose cases)
  | item => .error (item.mismatch "variant identifier")

/-- Reads null. -/
def readNull : Item → Except Fault Unit
  | .word .null fault => raise fault
  | item => .error (item.mismatch "unit")

/-- The fault behind the only member of an object. -/
def soleFault? : List Member → Ending → Option Fault
  | [], .closed => none
  | [], .unclosed => some (.truncated .object)
  | _, _ => some (.malformed .expectedValue)

/-- Reads an alternative written as an object with one member, whose value is null. -/
def readSole {α : Type} (cases : List (String × α)) : List Member → Ending → Except Fault α
  | .entry key item :: members, ending => do
    let a ← key.text.bind (choose cases)
    readNull item
    raise (soleFault? members ending)
    .ok a
  -- the name is a fault before what is missing behind it
  | .cut key fault :: _, _ => do
    let _ ← key.text.bind (choose cases)
    .error fault
  | [], .noKey => .error (.malformed .keyNotString)
  | [], .unclosed => .error (.truncated .object)
  | [], _ => .error (.malformed .expectedValue)

/-- Null that was taken in before.  An empty object will do as well. -/
def nullOf : Value → Except Fault Unit
  | .null => .ok ()
  | .object [] => .ok ()
  | v => .error (.mismatch (.type v.found "unit"))

/-- A choice between names: a text, or an object whose only member has that name and is null. -/
def choice {α : Type} (cases : List (String × α)) (name : α → String) : Codec α where
  read room
    | .quoted q => q.text.bind (choose cases)
    | .object members ending => enter room fun _ => readSole cases members ending
    | _ => .error (.malformed .expectedValue)
  ofValue
    | .string s => choose cases s
    -- the name is looked at before its value
    | .object [(key, v)] => do
      let a ← choose cases key
      nullOf v
      .ok a
    | .object _ => .error (.mismatch (.value .object "map with a single key"))
    | v => .error (.mismatch (.type v.found "string or map"))
  toValue a := .string (name a)

/-- A codec for a type with the same values. -/
def map {α β : Type} (c : Codec α) (f : α → β) (g : β → α) : Codec β where
  read room item := (c.read room item).map f
  ofValue v := (c.ofValue v).map f
  toValue b := c.toValue (g b)

/-! ## Texts -/

/-- How many brackets may be open at a time. -/
def maxDepth : Nat := 127

/-- Reads a text that has one value. -/
def readText {α : Type} (c : Codec α) (text : String) : Except Fault α :=
  match itemsOf text.toList with
  | [] => .error (.truncated .value)
  | item :: items => do
    let a ← c.read maxDepth item
    -- what follows is a fault only once the value itself was read
    if items.isEmpty then .ok a else .error (.malformed .trailingCharacters)

/-- Reads a text that has any number of values, one after the other. -/
def readStream {α : Type} (c : Codec α) (text : String) : Except Fault (List α) :=
  readAll (c.read maxDepth) (itemsOf text.toList)

/-- Writes a text without white space. -/
def writeText {α : Type} (c : Codec α) (a : α) : String :=
  (c.toValue a).compactText

end Codec

end CallCycle.Json

/-!
# Primitive types

The eight primitive types, the letter each has in a binary array name, and the class that boxes
it.
-/

namespace CallCycle

/-- A primitive type. -/
inductive Primitive where
  | boolean | byte | char | short | int | long | float | double
  deriving DecidableEq, Repr

namespace Primitive

/-- The keyword of the type. -/
def keyword : Primitive → String
  | boolean => "boolean"
  | byte => "byte"
  | char => "char"
  | short => "short"
  | int => "int"
  | long => "long"
  | float => "float"
  | double => "double"

/-- The letter of the type in a binary array name. -/
def letter : Primitive → Char
  | boolean => 'Z'
  | byte => 'B'
  | char => 'C'
  | short => 'S'
  | int => 'I'
  | long => 'J'
  | float => 'F'
  | double => 'D'

/-- The simple name of the class that boxes the type. -/
def box : Primitive → String
  | boolean => "Boolean"
  | byte => "Byte"
  | char => "Character"
  | short => "Short"
  | int => "Integer"
  | long => "Long"
  | float => "Float"
  | double => "Double"

/-- All primitive types. -/
def all : List Primitive :=
  [boolean, byte, char, short, int, long, float, double]

/-- The type with a given letter. -/
def ofLetter? (c : Char) : Option Primitive :=
  all.find? (·.letter == c)

/-- The type that a class of a given simple name boxes. -/
def ofBox? (name : String) : Option Primitive :=
  all.find? (·.box == name)

/-- `ofLetter?` finds a type by its `letter`, so that no two types share one. -/
@[simp] theorem ofLetter?_letter (p : Primitive) : ofLetter? p.letter = some p := by
  cases p <;> rfl

/-- `ofBox?` finds a type by its `box`, so that no two types share one. -/
@[simp] theorem ofBox?_box (p : Primitive) : ofBox? p.box = some p := by
  cases p <;> rfl

end Primitive

end CallCycle

import CallCycle.Descriptor.Primitive
import CallCycle.Descriptor.Spacing
import CallCycle.Text.Affix
import CallCycle.Text.WordChar

/-!
# Canonical descriptors

A declaration spells its parameter types as the source does (`List<String>`, `int...`), a call
site as the resolver does (`java.util.List<java.lang.String>`, `[I`).  Both spellings go through
`canonical`, so that a method and a call of it end at the same text:

* a binary array name becomes its element type followed by `[]`;
* spacing is tightened, a final `...` becomes `[]`, and `$` between nested types becomes `.`;
* type arguments are dropped, if the rules say so;
* every dotted name is reduced to its last part, if the rules say so, or else loses the package
  that is always imported;
* a boxing class becomes the primitive type it boxes, if the rules say so.

The owner of a method goes through `canonicalOwner`, which keeps its qualifiers and always drops
type arguments.
-/

namespace CallCycle

/-- Which of the optional steps of canonicalization are taken. -/
structure Rules where
  /-- Drop type arguments: `List<String>` becomes `List`. -/
  eraseGenerics : Bool := true
  /-- Reduce qualified names to their last part: `java.util.Date` becomes `Date`. -/
  stripQualifiers : Bool := false
  /-- Replace boxing classes by primitive types: `Integer` becomes `int`. -/
  unboxPrimitives : Bool := false
  deriving DecidableEq, Repr

namespace Descriptor

open Text

/-! ## Binary array names -/

/-- The element type of a binary array name: the letter of a primitive type, or a class name
    between `L` and `;` whose packages may be divided by `/`. -/
def ofBinaryElement? (element : List Char) : Option (List Char) :=
  match element with
  | [c] => (Primitive.ofLetter? c).map (·.keyword.toList)
  | _ => do
    let name ← dropBack? [';'] (← dropFront? ['L'] element)
    if name.isEmpty then none else some (name.map fun c => if c = '/' then '.' else c)

/-- `n` pairs of brackets. -/
def brackets (n : Nat) : List Char :=
  (List.replicate n ['[', ']']).flatten

/-- The type that a binary array name such as `[[I` or `[Lp.C;` stands for. -/
def ofBinaryArray? (text : List Char) : Option (List Char) :=
  match (text.takeWhile (· = '[')).length with
  -- no array name
  | 0 => none
  | dims => (ofBinaryElement? (text.dropWhile (· = '['))).map (· ++ brackets dims)

/-! ## Steps -/

/-- Writes a variable number of arguments as an array. -/
def arrayOfVariadic (text : List Char) : List Char :=
  match dropBack? ['.', '.', '.'] text with
  | some element => element ++ ['[', ']']
  | none => text

/-- Writes the separator of nested types as a dot. -/
def dotNested (text : List Char) : List Char :=
  text.map fun c => if c = '$' then '.' else c

/-- Drops what stands between angle brackets, and the brackets, where `depth` brackets are open.
    A closing bracket that closes nothing is dropped as well. -/
def eraseArguments (depth : Nat) : List Char → List Char
  | [] => []
  | c :: cs =>
    if c = '<' then eraseArguments (depth + 1) cs
    else if c = '>' then eraseArguments (depth - 1) cs
    else if depth = 0 then c :: eraseArguments depth cs
    else eraseArguments depth cs

/-! ## Names -/

/-- The characters that dotted names are made of. -/
def isNameChar (c : Char) : Bool :=
  isWordChar c || c == '_' || c == '.'

/-- Applies `f` to every maximal run of name characters, where `run` is the current one, reversed.
    Between two other characters there is an empty run. -/
def mapNamesFrom (f : List Char → List Char) (run : List Char) : List Char → List Char
  | [] => f run.reverse
  | c :: cs =>
    if isNameChar c then mapNamesFrom f (c :: run) cs
    else f run.reverse ++ c :: mapNamesFrom f [] cs

/-- Applies `f` to every dotted name. -/
def mapNames (f : List Char → List Char) (text : List Char) : List Char :=
  mapNamesFrom f [] text

/-- The last part of a dotted name. -/
def simpleName (name : List Char) : List Char :=
  afterLast '.' name

/-- The package whose classes need no import, with its final dot. -/
def implicitPackage : List Char :=
  ['j', 'a', 'v', 'a', '.', 'l', 'a', 'n', 'g', '.']

/-- Drops the implicit package from the name of a class that stands directly in it. -/
def dropImplicitPackage (name : List Char) : List Char :=
  match dropFront? implicitPackage name with
  -- a class in a package below it keeps its package
  | some simple => if simple.isEmpty || simple.contains '.' then name else simple
  | none => name

/-- The primitive type that a class boxes, with or without its package. -/
def unboxed? (text : List Char) : Option (List Char) :=
  let simple := (dropFront? implicitPackage text).getD text
  (Primitive.ofBox? (String.ofList simple)).map (·.keyword.toList)

/-! ## Canonical forms -/

/-- The descriptor of `text` before any of the optional steps. -/
def normalize (text : List Char) : List Char :=
  let text := trim text
  -- dots are known only when the text is tight: `int . . .` is an array as well
  dotNested (arrayOfVariadic (tighten ((ofBinaryArray? text).getD text)))

/-- The canonical form of a type descriptor. -/
def canonical (rules : Rules) (text : List Char) : List Char :=
  let text := normalize text
  let text := if rules.eraseGenerics then eraseArguments 0 text else text
  let text := mapNames (if rules.stripQualifiers then simpleName else dropImplicitPackage) text
  -- the whole text is looked at, so that arrays of boxing classes stay
  if rules.unboxPrimitives then (unboxed? text).getD text else text

/-- The canonical form of the name of an owning type. -/
def canonicalOwner (text : List Char) : List Char :=
  eraseArguments 0 (dotNested (tighten (trim text)))

end Descriptor

namespace Rules

/-- The canonical form of a type descriptor under these rules. -/
def descriptor (rules : Rules) (text : String) : String :=
  String.ofList (Descriptor.canonical rules text.toList)

/-- The canonical form of the name of an owning type, which is the same under all rules. -/
def owner (_ : Rules) (text : String) : String :=
  String.ofList (Descriptor.canonicalOwner text.toList)

end Rules

end CallCycle

import CallCycle.Text.Blank

/-!
# Symbols

A symbol is a method as the resolver names it: the owning type, the member name and the types of
its parameters, or of the arguments at a call site, in whatever spelling the resolver uses.
-/

namespace CallCycle

/-- The text `Owner.name(T1, T2)`. -/
def signatureText (owner name : String) (types : List String) : String :=
  owner ++ "." ++ name ++ "(" ++ ", ".intercalate types ++ ")"

/-- A declaration or call target as the resolver names it. -/
structure Symbol where
  /-- Qualified name of the owning type. -/
  owner : String
  /-- Member name. -/
  name : String
  /-- Types of the parameters, or of the arguments at a call site. -/
  types : List String := []
  deriving DecidableEq, Repr

namespace Symbol

/-- The text `Owner.name(T1, T2)` of a symbol. -/
def display (s : Symbol) : String :=
  signatureText s.owner s.name s.types

/-- What can be wrong with a symbol. -/
inductive Problem where
  | blankOwner
  | blankName
  | blankType
  deriving DecidableEq, Repr

/-- The wording of a problem. -/
def Problem.message : Problem → String
  | blankOwner => "owner is empty"
  | blankName => "member name is empty"
  | blankType => "empty type descriptor"

/-- The first problem of a symbol, if it has any. -/
def problem? (s : Symbol) : Option Problem :=
  if Text.isBlankText s.owner then some .blankOwner
  else if Text.isBlankText s.name then some .blankName
  else if s.types.any Text.isBlankText then some .blankType
  else none

/-- `problem?` finds nothing iff no part of the symbol is blank. -/
theorem problem?_eq_none_iff {s : Symbol} :
    s.problem? = none ↔ Text.isBlankText s.owner = false ∧ Text.isBlankText s.name = false ∧
      ∀ t ∈ s.types, Text.isBlankText t = false := by
  simp only [problem?]
  split
  · simp_all
  · split
    · simp_all
    · split <;> simp_all

end Symbol

end CallCycle

import CallCycle.Descriptor.Canonical
import CallCycle.Symbol
import Std.Data.TreeMap

/-!
# Keys

A key is the identity of a method: owner, member name and canonical parameter types.  Two symbols
that spell the same method differently have the same key.

Keys are ordered by owner, then name, then parameter list; texts are compared by code point, and a
list comes before its extensions.
-/

namespace CallCycle

/-- The identity of a method. -/
structure Key where
  /-- Owning type. -/
  owner : String
  /-- Member name. -/
  name : String
  /-- Canonical parameter types. -/
  params : List String
  deriving DecidableEq, Repr

namespace Key

/-- Compares by owner, then name, then parameter list. -/
instance : Ord Key where
  compare a b :=
    (compare a.owner b.owner).then
      ((compare a.name b.name).then (compare a.params b.params))

/-- `compare` on keys is lexicographic. -/
theorem compare_def (a b : Key) : compare a b =
    (compare a.owner b.owner).then
      ((compare a.name b.name).then (compare a.params b.params)) := rfl

instance : Std.TransOrd Key :=
  inferInstanceAs (Std.TransCmp (compareLex (compareOn Key.owner)
    (compareLex (compareOn Key.name) (compareOn Key.params))))

instance : Std.LawfulEqOrd Key where
  eq_of_compare {a b} h := by
    simp only [compare_def, Ordering.then_eq_eq, Std.LawfulEqOrd.compare_eq_iff_eq] at h
    cases a; cases b; simp_all

/-- The text `Owner.name(T1, T2)` of a key. -/
def display (k : Key) : String :=
  signatureText k.owner k.name k.params

/-- The text `Owner.name` of a key. -/
def qualifiedName (k : Key) : String :=
  k.owner ++ "." ++ k.name

/-- The key of a method with the given owner, member name and types. -/
def ofParts (rules : Rules) (owner name : String) (types : List String) : Key where
  owner := rules.owner owner
  name := Text.trimmed name
  params := types.map rules.descriptor

/-- The key of a symbol. -/
def ofSymbol (rules : Rules) (s : Symbol) : Key :=
  ofParts rules s.owner s.name s.types

/-- The key of the method that `k` names when its parts are read as spellings. -/
def canonicalized (rules : Rules) (k : Key) : Key :=
  ofParts rules k.owner k.name k.params

end Key

end CallCycle

import CallCycle.Key.Basic

/-!
# Reading keys

`Key.parse` reads the text `Owner.name(T1, T2)`: everything up to the first parenthesis is the
qualified name, whose last dot divides owner and member name; the rest, without a final
parenthesis, is the parameter list, divided at the commas outside angle brackets.  Blanks around
each part are dropped, and no part may be empty.
-/

namespace CallCycle.Key

open Text

/-- Why a text is not a key. -/
inductive Problem where
  | noParameterList
  | unclosedParameterList
  | noOwner
  | emptyOwner
  | emptyName
  | strayParenthesis
  | unbalancedBrackets
  | emptyParameter
  deriving DecidableEq, Repr

/-- The wording of a problem. -/
def Problem.message : Problem → String
  | noParameterList => "missing parameter list"
  | unclosedParameterList => "parameter list is not closed"
  | noOwner => "missing owning type"
  | emptyOwner => "owner is empty"
  | emptyName => "member name is empty"
  | strayParenthesis => "unexpected parenthesis in parameter list"
  | unbalancedBrackets => "unbalanced generic brackets"
  | emptyParameter => "empty parameter type"

/-- A text that is not a key, and why. -/
structure Malformed where
  text : String
  problem : Problem
  deriving DecidableEq, Repr

/-- The wording of the error. -/
def Malformed.message (e : Malformed) : String :=
  "Malformed symbol `" ++ e.text ++ "`: " ++ e.problem.message

/-- Divides a parameter list at the commas outside angle brackets, where `depth` brackets are open
    and `piece` is the current piece, reversed.  The count has no limit; below 2^31 characters a
    signed count of 32 bits would give the same. -/
def splitFrom (depth : Nat) (piece : List Char) :
    List Char → Except Problem (List (List Char))
  | [] => if depth = 0 then .ok [piece.reverse] else .error .unbalancedBrackets
  | c :: cs =>
    if c = '(' ∨ c = ')' then .error .strayParenthesis
    else if c = '<' then splitFrom (depth + 1) (c :: piece) cs
    else if c = '>' then
      if depth = 0 then .error .unbalancedBrackets else splitFrom (depth - 1) (c :: piece) cs
    else if c = ',' ∧ depth = 0 then
      (splitFrom 0 [] cs).map (piece.reverse :: ·)
    else splitFrom depth (c :: piece) cs

/-- The parameter types of a parameter list. -/
def parseParameters (inner : List Char) : Except Problem (List (List Char)) :=
  -- a blank list has no parameters, rather than one that is empty
  if inner.all isBlank then .ok []
  else do
    let pieces ← splitFrom 0 [] inner
    let params := pieces.map trim
    if params.any List.isEmpty then .error .emptyParameter else .ok params

/-- The owner, name and parameter types of a key text. -/
def parseParts (text : List Char) :
    Except Problem (List Char × List Char × List (List Char)) :=
  match splitFirst? '(' (trim text) with
  | none => .error .noParameterList
  | some (head, rest) =>
    match dropBack? [')'] rest with
    | none => .error .unclosedParameterList
    | some inner =>
      match splitLast? '.' head with
      | none => .error .noOwner
      -- the parts of the name are looked at before the parameters
      | some (owner, name) =>
        if (trim owner).isEmpty then .error .emptyOwner
        else if (trim name).isEmpty then .error .emptyName
        else (parseParameters inner).map fun params => (trim owner, trim name, params)

/-- Reads a key.  Its parts are taken as they stand; `Key.canonicalized` brings them into canonical
    form. -/
def parse (text : String) : Except Malformed Key :=
  match parseParts text.toList with
  | .ok (owner, name, params) =>
    .ok ⟨String.ofList owner, String.ofList name, params.map String.ofList⟩
  | .error problem => .error ⟨text, problem⟩

/-- Reads a key and brings it into canonical form. -/
def parseCanonical (rules : Rules) (text : String) : Except Malformed Key :=
  (parse text).map (canonicalized rules)

end CallCycle.Key

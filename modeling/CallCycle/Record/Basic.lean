import CallCycle.Symbol

/-!
# Records

A record is what the resolver says about one declaration: the method, the methods it overrides and
the calls in its body, resolved or not.  `Record.check` finds the first thing wrong with a record.
-/

namespace CallCycle

/-- How a resolved call binds to its target at run time. -/
inductive Dispatch where
  /-- Any override of the target may run. -/
  | virtual
  /-- Exactly the target runs: calls of `super`, constructors, private and static methods. -/
  | special
  deriving DecidableEq, Repr

/-- A call whose target is known. -/
structure ResolvedCall where
  /-- The target, with the types of the arguments. -/
  target : Symbol
  /-- The parameter types of the declaration that was selected.  They say more than the types of
      the arguments, which may have been widened. -/
  declaredParams : Option (List String) := none
  dispatch : Dispatch := .virtual
  line : Option UInt32 := none
  deriving DecidableEq, Repr

/-- The types that identify the method called. -/
def ResolvedCall.signatureTypes (call : ResolvedCall) : List String :=
  call.declaredParams.getD call.target.types

/-- A call whose target is not known. -/
structure UnresolvedCall where
  /-- Source text of the call. -/
  expression : String
  reason : Option String := none
  line : Option UInt32 := none
  deriving DecidableEq, Repr

/-- A call in the body of a declaration. -/
inductive CallSite where
  | resolved (call : ResolvedCall)
  | unresolved (call : UnresolvedCall)
  deriving DecidableEq, Repr

/-- A declaration, what it overrides, and the calls in its body. -/
structure Record where
  declaration : Symbol
  overrides : List Symbol := []
  calls : List CallSite := []
  deriving DecidableEq, Repr

namespace Record

/-! ## Adding parts -/

/-- Adds a call site. -/
def withCallSite (r : Record) (call : CallSite) : Record :=
  { r with calls := r.calls ++ [call] }

/-- Adds a virtual call. -/
def withCall (r : Record) (target : Symbol) : Record :=
  r.withCallSite (.resolved { target })

/-- Adds a call that binds to exactly its target. -/
def withSpecialCall (r : Record) (target : Symbol) : Record :=
  r.withCallSite (.resolved { target, dispatch := .special })

/-- Adds a call whose target is not known. -/
def withUnresolvedCall (r : Record) (expression : String) (reason : Option String) : Record :=
  r.withCallSite (.unresolved { expression, reason })

/-- Adds an overridden method. -/
def withOverride (r : Record) (base : Symbol) : Record :=
  { r with overrides := r.overrides ++ [base] }

/-! ## Checking -/

/-- What can be wrong with a record. -/
inductive Problem where
  | declaration (problem : Symbol.Problem)
  | override (base : Symbol) (problem : Symbol.Problem)
  | call (target : Symbol) (problem : Symbol.Problem)
  | declaredParams (target : Symbol)
  deriving DecidableEq, Repr

/-- The wording of a problem. -/
def Problem.message : Problem → String
  | declaration problem => problem.message
  | override base problem => "override `" ++ base.display ++ "`: " ++ problem.message
  | call target problem => "call to `" ++ target.display ++ "`: " ++ problem.message
  | declaredParams target => "call to `" ++ target.display ++ "`: empty declared parameter type"

/-- A record that says something wrong, by its declaration, and what. -/
structure Malformed where
  declaration : Symbol
  problem : Problem
  deriving DecidableEq, Repr

/-- The wording of the error. -/
def Malformed.message (e : Malformed) : String :=
  "Malformed record for `" ++ e.declaration.display ++ "`: " ++ e.problem.message

/-- The problem of a call site, if it has one. -/
def callProblem? : CallSite → Option Problem
  | .unresolved _ => none
  | .resolved call =>
    match call.target.problem? with
    | some problem => some (.call call.target problem)
    | none =>
      if (call.declaredParams.getD []).any Text.isBlankText then
        some (.declaredParams call.target)
      else none

/-- The first problem of a record, looking at the declaration, then at what it overrides, then at
    its calls. -/
def problem? (r : Record) : Option Problem :=
  (r.declaration.problem?.map .declaration).or <|
    (r.overrides.findSome? fun base => base.problem?.map (.override base)).or <|
      r.calls.findSome? callProblem?

/-- Accepts a record that has no problem. -/
def check (r : Record) : Except Malformed Unit :=
  match r.problem? with
  | none => .ok ()
  | some problem => .error ⟨r.declaration, problem⟩

/-- `check` accepts a record iff `problem?` finds nothing. -/
theorem check_eq_ok_iff {r : Record} : r.check = .ok () ↔ r.problem? = none := by
  rw [check]
  split <;> simp_all

end Record

end CallCycle

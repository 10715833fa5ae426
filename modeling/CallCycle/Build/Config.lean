import CallCycle.Descriptor.Json
import CallCycle.Key.Parse

/-!
# Settings of a build

How descriptors are brought into canonical form, whether calls fan out to the methods that override
their target, and which methods are left out.
-/

namespace CallCycle.Build

open Json

/-- What a virtual call reaches. -/
inductive Policy where
  /-- The target only. -/
  | staticTarget
  /-- The target and all methods that override it. -/
  | fanOut
  deriving DecidableEq, Repr

/-- The settings of a build. -/
structure Config where
  rules : Rules := {}
  policy : Policy := .fanOut
  /-- The methods to leave out, as `Owner.name(T1, T2)`. -/
  exclude : List String := []
  deriving DecidableEq, Repr

/-- What virtual calls reach. -/
def Policy.codec : Codec Policy :=
  .choice [("static_target", .staticTarget), ("fan_out", .fanOut)] fun
    | .staticTarget => "static_target"
    | .fanOut => "fan_out"

/-- Settings.  Each of them has its default when it is absent. -/
def Config.codec : Codec Config :=
  .record "BuildConfig"
    (.cons { name := "canonicalization", codec := Rules.codec,
             absent := some ({} : Config).rules } <|
      .cons { name := "dispatch", codec := Policy.codec,
              absent := some ({} : Config).policy } <|
        .cons { name := "exclude", codec := .list .string,
                absent := some ({} : Config).exclude } .nil)
    (fun (rules, policy, exclude, _) => ⟨rules, policy, exclude⟩)
    (fun c => (c.rules, c.policy, c.exclude, ()))

/-- Reads the keys of some methods; the first text that is no key is an error. -/
def parseKeys (rules : Rules) : List String → Except Key.Malformed (List Key)
  | [] => .ok []
  | text :: texts => do
    let key ← Key.parseCanonical rules text
    let keys ← parseKeys rules texts
    .ok (key :: keys)

/-- The keys of the methods to leave out. -/
def Config.excluded (config : Config) : Except Key.Malformed (List Key) :=
  parseKeys config.rules config.exclude

end CallCycle.Build

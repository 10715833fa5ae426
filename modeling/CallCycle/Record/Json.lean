import CallCycle.Json.Row
import CallCycle.Record.Basic
import CallCycle.Text.Blank

/-!
# Records as JSON

The codecs of symbols, call sites and records, and `Record.readAll`, which reads the output of a
resolver: a list of records, or records one after the other.
-/

namespace CallCycle

open Json

/-- Line numbers. -/
def lineCodec : Codec UInt32 :=
  Codec.lineNumber.map UInt32.ofNat UInt32.toNat

/-- Symbols. -/
def Symbol.codec : Codec Symbol :=
  .record "ResolvedSymbol"
    (.cons { name := "owner", codec := .string } <|
      .cons { name := "name", codec := .string } <|
        .cons { name := "types", codec := .list .string, absent := some [] } .nil)
    (fun (owner, name, types, _) => ⟨owner, name, types⟩)
    (fun s => (s.owner, s.name, s.types, ()))

/-- How calls bind. -/
def Dispatch.codec : Codec Dispatch :=
  .choice [("virtual", .virtual), ("special", .special)] fun
    | .virtual => "virtual"
    | .special => "special"

/-- The fields of a call whose target is known. -/
def ResolvedCall.codec : Codec ResolvedCall :=
  .record "ResolvedCall"
    (.cons { name := "target", codec := Symbol.codec } <|
      .cons { name := "declared_params", codec := .nullable (.list .string),
              absent := some none, omits := Option.isNone } <|
        .cons { name := "dispatch", codec := Dispatch.codec,
                absent := some .virtual, omits := (· == .virtual) } <|
          .cons { name := "line", codec := .nullable lineCodec,
                  absent := some none, omits := Option.isNone } .nil)
    (fun (target, declaredParams, dispatch, line, _) => ⟨target, declaredParams, dispatch, line⟩)
    (fun c => (c.target, c.declaredParams, c.dispatch, c.line, ()))

/-- The fields of a call whose target is not known. -/
def UnresolvedCall.codec : Codec UnresolvedCall :=
  .record "UnresolvedCall"
    (.cons { name := "expression", codec := .string } <|
      .cons { name := "reason", codec := .nullable .string,
              absent := some none, omits := Option.isNone } <|
        .cons { name := "line", codec := .nullable lineCodec,
                absent := some none, omits := Option.isNone } .nil)
    (fun (expression, reason, line, _) => ⟨expression, reason, line⟩)
    (fun c => (c.expression, c.reason, c.line, ()))

/-- The members that a value has as an object. -/
def Json.Value.members : Value → List (String × Value)
  | .object members => members
  | _ => []

/-- Call sites, told apart by their status. -/
def CallSite.codec : Codec CallSite :=
  .tagged "status" "CallSite"
    [("resolved", fun v => (ResolvedCall.codec.ofValue v).map .resolved),
      ("unresolved", fun v => (UnresolvedCall.codec.ofValue v).map .unresolved)]
    fun
      | .resolved call => ("resolved", (ResolvedCall.codec.toValue call).members)
      | .unresolved call => ("unresolved", (UnresolvedCall.codec.toValue call).members)

/-- Records. -/
def Record.codec : Codec Record :=
  .record "DeclarationRecord"
    (.cons { name := "declaration", codec := Symbol.codec } <|
      .cons { name := "overrides", codec := .list Symbol.codec,
              absent := some [], omits := List.isEmpty } <|
        .cons { name := "calls", codec := .list CallSite.codec, absent := some [] } .nil)
    (fun (declaration, overrides, calls, _) => ⟨declaration, overrides, calls⟩)
    (fun r => (r.declaration, r.overrides, r.calls, ()))

namespace Record

/-- Reads the records of a text, which is a list if the first character that is not blank opens
    one, and else any number of records one after the other. -/
def readAll (text : String) : Except Fault (List Record) :=
  match Text.trimStart text.toList with
  | '[' :: _ => (Codec.list codec).readText text
  | _ => codec.readStream text

/-- Writes records as a list. -/
def writeAll (records : List Record) : String :=
  (Codec.list codec).writeText records

end Record

end CallCycle

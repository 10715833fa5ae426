import CallCycle.Json.Row
import CallCycle.Key.Basic

/-!
# Keys as JSON
-/

namespace CallCycle

open Json

/-- Keys.  None of the parts may be absent. -/
def Key.codec : Codec Key :=
  .record "VertexKey"
    (.cons { name := "owner", codec := .string } <|
      .cons { name := "name", codec := .string } <|
        .cons { name := "params", codec := .list .string } .nil)
    (fun (owner, name, params, _) => ⟨owner, name, params⟩)
    (fun k => (k.owner, k.name, k.params, ()))

end CallCycle

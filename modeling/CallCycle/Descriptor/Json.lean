import CallCycle.Descriptor.Canonical
import CallCycle.Json.Row

/-!
# Rules as JSON
-/

namespace CallCycle

open Json

/-- Rules.  Each of them has its default when it is absent. -/
def Rules.codec : Codec Rules :=
  .record "CanonicalizationConfig"
    (.cons { name := "erase_generics", codec := .flag,
             absent := some ({} : Rules).eraseGenerics } <|
      .cons { name := "strip_qualifiers", codec := .flag,
              absent := some ({} : Rules).stripQualifiers } <|
        .cons { name := "unbox_primitives", codec := .flag,
                absent := some ({} : Rules).unboxPrimitives } .nil)
    (fun (erase, strip, unbox, _) => ⟨erase, strip, unbox⟩)
    (fun r => (r.eraseGenerics, r.stripQualifiers, r.unboxPrimitives, ()))

end CallCycle

import CallCycle.Json.Codec

/-!
# Codecs of structures

A structure is a row of named fields.  It is written as an object; it is read from an object, in
any order and among unknown members, or from a list of its fields in the order of the row.  A field
may have a value for when it is absent, and may be left out when it is written.

An alternative of structures is an object with a member that tells them apart, or a list that
starts with it.  It is taken in as a value first, and decoded once the tag is known.
-/

namespace CallCycle.Json

/-- A named field of a structure. -/
structure Field (α : Type) where
  name : String
  codec : Codec α
  /-- The value of the field when it is absent from an object. -/
  absent : Option α := none
  /-- The value of the field when it is absent from a list. -/
  absentInList : Option α := absent
  /-- Whether a value is left out when it is written. -/
  omits : α → Bool := fun _ => false

/-- A row of fields.  `σ` has a slot for the value of each field, `ρ` has the values. -/
inductive Row : (σ ρ : Type) → Type 1 where
  | nil : Row Unit Unit
  | cons {α σ ρ : Type} (field : Field α) (rest : Row σ ρ) : Row (Option α × σ) (α × ρ)

namespace Row

/-- The number of fields. -/
def width {σ ρ : Type} : Row σ ρ → Nat
  | nil => 0
  | cons _ rest => rest.width + 1

/-- All slots empty. -/
def empty {σ ρ : Type} : Row σ ρ → σ
  | nil => ()
  | cons _ rest => (none, rest.empty)

/-- Fills the slot of the field with a given name; `none` if there is no such field.  A slot is
    filled once. -/
def fill {σ ρ : Type} (read : {α : Type} → Codec α → Except Fault α) (key : String) :
    Row σ ρ → σ → Option (Except Fault σ)
  | nil, _ => none
  | cons field rest, (slot, slots) =>
    if key = field.name then
      match slot with
      -- the value is not looked at
      | some _ => some (.error (.mismatch (.duplicateField key)))
      | none => some ((read field.codec).map fun a => (some a, slots))
    else (fill read key rest slots).map (·.map fun slots => (slot, slots))

/-- The values of the slots.  The first empty slot of a field that may not be absent is a fault. -/
def finish {σ ρ : Type} : Row σ ρ → σ → Except Fault ρ
  | nil, _ => .ok ()
  | cons field rest, (slot, slots) =>
    -- what was read counts before the default
    match slot.or field.absent with
    | some a => (rest.finish slots).map (a, ·)
    | none => .error (.mismatch (.missingField field.name))

/-- Reads the fields from a list, from position `n` on; the result has the elements left over.
    `atEnd` is the fault at the end of the list, and `expected` names the structure. -/
def readList {β σ ρ : Type} (read : {α : Type} → Codec α → β → Except Fault α)
    (atEnd : Option Fault) (expected : String) (n : Nat) :
    Row σ ρ → List β → Except Fault (ρ × List β)
  | nil, xs => .ok ((), xs)
  | cons field rest, x :: xs => do
    let a ← read field.codec x
    let (values, xs) ← readList read atEnd expected (n + 1) rest xs
    .ok ((a, values), xs)
  | cons field rest, [] => do
    -- the list is asked for more than it has, and may break off there
    raise atEnd
    match field.absentInList with
    | none => .error (.mismatch (.length n expected))
    | some a =>
      let (values, xs) ← readList read atEnd expected (n + 1) rest []
      .ok ((a, values), xs)

/-- The members of an object with the given values. -/
def entries {σ ρ : Type} : Row σ ρ → ρ → List (String × Value)
  | nil, _ => []
  | cons field rest, (a, values) =>
    if field.omits a then rest.entries values
    else (field.name, field.codec.toValue a) :: rest.entries values

/-- Reads the members of an object into the slots. -/
def readMembers {σ ρ : Type} (row : Row σ ρ) (room : Nat) : σ → List Member → Except Fault σ
  | slots, [] => .ok slots
  | slots, .entry key item :: members => do
    let name ← key.text
    match row.fill (fun c => c.read room item) name slots with
    | some result => do
      let slots ← result
      readMembers row room slots members
    -- an unknown member is passed over
    | none => do
      item.skip
      readMembers row room slots members
  | slots, .cut key fault :: _ => do
    let name ← key.text
    -- a key that was met before is a fault already
    match row.fill (fun _ => .error fault) name slots with
    | some result => result
    | none => .error fault

/-- Reads the members of an object that was taken in before into the slots. -/
def fillAll {σ ρ : Type} (row : Row σ ρ) : σ → List (String × Value) → Except Fault σ
  | slots, [] => .ok slots
  | slots, (name, v) :: entries =>
    match row.fill (fun c => c.ofValue v) name slots with
    | some result => do
      let slots ← result
      fillAll row slots entries
    | none => fillAll row slots entries

end Row

namespace Codec

/-- A number of elements. -/
def elements (n : Nat) : String :=
  toString n ++ (if n = 1 then " element" else " elements")

/-- A structure of the given name whose fields are a row. -/
def record {α σ ρ : Type} (name : String) (row : Row σ ρ) (make : ρ → α) (parts : α → ρ) :
    Codec α where
  read room
    | .list items ending => enter room fun room => do
      let (values, rest) ← row.readList (fun c item => c.read room item) ending.listFault?
        ("struct " ++ name ++ " with " ++ elements row.width) 0 items
      -- all fields are filled; only the bracket may follow
      if rest.isEmpty then raise ending.surplusFault?
      else raise (some (.malformed .trailingCharacters))
      .ok (make values)
    | .object members ending => enter room fun room => do
      let slots ← row.readMembers room row.empty members
      raise ending.objectFault?
      (row.finish slots).map make
    | item => .error (item.mismatch ("struct " ++ name))
  ofValue
    | .list vs => do
      let (values, rest) ← row.readList (fun c v => c.ofValue v) none
        ("struct " ++ name ++ " with " ++ elements row.width) 0 vs
      if rest.isEmpty then .ok (make values)
      else .error (.mismatch (.length vs.length (elements row.width ++ " in sequence")))
    | .object entries => do
      let slots ← row.fillAll row.empty entries
      (row.finish slots).map make
    | v => .error (.mismatch (.type v.found ("struct " ++ name)))
  toValue a := .object (row.entries (parts a))

/-! ## Alternatives of structures -/

/-- What is known of an alternative while its members are taken in: the tag, if it was met, and the
    other members, reversed. -/
abbrev Gathered (α : Type) := Option α × List (String × Value)

/-- Takes the members of an object in, and looks out for the tag. -/
def gather {α : Type} (tag : String) (cases : List (String × α)) (room : Nat) :
    Gathered α → List Member → Except Fault (Gathered α)
  | known, [] => .ok known
  | (found, others), .entry key item :: members => do
    let name ← key.text
    if name = tag then
      match found with
      | some _ => .error (.mismatch (.duplicateField tag))
      | none => do
        let a ← readName cases item
        gather tag cases room (some a, others) members
    else do
      -- which field it is for is not known before the tag
      let v ← item.value room
      gather tag cases room (found, (name, v) :: others) members
  | (found, _), .cut key fault :: _ => do
    let name ← key.text
    if name = tag ∧ found.isSome then .error (.mismatch (.duplicateField tag))
    else .error fault

/-- Looks out for the tag among members that were taken in before. -/
def gatherValues {α : Type} (tag : String) (cases : List (String × α)) :
    Gathered α → List (String × Value) → Except Fault (Gathered α)
  | known, [] => .ok known
  | (found, others), (name, v) :: entries =>
    if name = tag then
      match found, v with
      | some _, _ => .error (.mismatch (.duplicateField tag))
      | none, .string s => do
        let a ← choose cases s
        gatherValues tag cases (some a, others) entries
      | none, v => .error (.mismatch (.type v.found "variant identifier"))
    else gatherValues tag cases (found, (name, v) :: others) entries

/-- Decodes an alternative whose members were gathered. -/
def ofGathered {α : Type} (tag : String) :
    Gathered (Value → Except Fault α) → Except Fault α
  | (some decode, others) => decode (.object others.reverse)
  | (none, _) => .error (.mismatch (.missingField tag))

/-- An alternative of structures that `tag` tells apart.  Each case has a name and reads a value
    without the tag; `write` gives the name and the other members. -/
def tagged {α : Type} (tag name : String) (cases : List (String × (Value → Except Fault α)))
    (write : α → String × List (String × Value)) : Codec α where
  read room
    | .list [] ending => enter room fun _ => do
      raise ending.listFault?
      .error (.mismatch (.missingField tag))
    | .list (item :: items) ending => enter room fun room => do
      let decode ← readName cases item
      -- the elements behind the tag, in the order of the row
      let values ← valuesOf room items
      raise ending.listFault?
      decode (.list values)
    | .object members ending => enter room fun room => do
      let known ← gather tag cases room (none, []) members
      raise ending.objectFault?
      ofGathered tag known
    | item => .error (item.mismatch ("internally tagged enum " ++ name))
  ofValue
    | .list [] => .error (.mismatch (.missingField tag))
    | .list (.string s :: values) => do
      let decode ← choose cases s
      decode (.list values)
    | .list (v :: _) => .error (.mismatch (.type v.found "variant identifier"))
    | .object entries => do
      let known ← gatherValues tag cases (none, []) entries
      ofGathered tag known
    | v => .error (.mismatch (.type v.found ("internally tagged enum " ++ name)))
  toValue a :=
    let (case, entries) := write a
    .object ((tag, .string case) :: entries)

end Codec

end CallCycle.Json

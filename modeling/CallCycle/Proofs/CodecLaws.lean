import CallCycle.Json.Row
import CallCycle.Proofs.Rendering

/-!
# Laws of codecs

A codec has two laws.  `Codec.Agrees`: what is read from a value is also read from the item of the
value, so that it makes no difference whether a text was taken in before.  `Codec.Lawful`: what was
written is read.  Both laws are kept by lists, rows and alternatives of structures.

A row is read from the members of an object by their names.  `Row.Holds` says of members in any
order, among others of other names, which values they have for the fields of the row.

## Key results

- `Row.Holds.fillAll`: which values are read from the members of an object
- `Codec.agrees_list`, `Codec.agrees_record`, `Codec.agrees_tagged`: reading from items
- `Codec.lawful_list`, `Codec.lawful_record`, `Codec.lawful_tagged`: reading what was written
- `Codec.readText_of_spaced`, `Codec.readStream_of_spaced`: reading texts
- `Codec.readText_writeText`, `Codec.readText_prettyText`: reading texts that were written
-/

namespace CallCycle.Json

variable {α β σ ρ : Type}

/-! ## Steps of reading -/

/-- A sequence of steps succeeds iff both do. -/
theorem bind_eq_ok_iff {x : Except Fault α} {f : α → Except Fault β} {b : β} :
    x >>= f = .ok b ↔ ∃ a, x = .ok a ∧ f a = .ok b := by
  cases x <;> simp [bind, Except.bind]

/-- A result is changed iff there is one. -/
theorem map_eq_ok_iff {x : Except Fault α} {f : α → β} {b : β} :
    x.map f = .ok b ↔ ∃ a, x = .ok a ∧ f a = b := by
  cases x <;> simp [Except.map]

namespace Codec

/-- What is read from a value is also read from the item of the value. -/
def Agrees (c : Codec α) : Prop :=
  ∀ {room : Nat} {v : Value} {a : α}, v.Fits room → c.ofValue v = .ok a →
    c.read room v.item = .ok a

/-- What was written is read, and has at most `room` nested brackets. -/
structure Lawful (c : Codec α) (room : Nat) : Prop where
  ofValue_toValue : ∀ a, c.ofValue (c.toValue a) = .ok a
  fits : ∀ a, (c.toValue a).Fits room

/-! ## Plain values, lists and null -/

/-- `string` reads the same from values and from items. -/
theorem agrees_string : string.Agrees := by
  intro room v a hv h
  cases hv <;> first | exact h | cases h

/-- `string` reads what was written. -/
theorem lawful_string (room : Nat) : string.Lawful room where
  ofValue_toValue _ := rfl
  fits s := .string s

/-- `nat` reads numbers below its limit. -/
theorem ofValue_nat {limit n : Nat} (h : n < limit) (label : String) :
    (nat limit label).ofValue (.nat n) = .ok n := by
  have hrange : (0 : Int) ≤ n ∧ (n : Int) < limit := by omega
  simp only [nat, Value.nat, natOf, if_pos hrange, Int.toNat_natCast]

/-- `readAll` reads the first and the others. -/
theorem readAll_cons_eq_ok_iff {f : β → Except Fault α} {x : β} {xs : List β} {as : List α} :
    readAll f (x :: xs) = .ok as ↔
      ∃ a, f x = .ok a ∧ ∃ as', readAll f xs = .ok as' ∧ a :: as' = as := by
  simp only [readAll, bind_eq_ok_iff, Except.ok.injEq]

/-- `readAll` reads the same from values and from items if the codec does. -/
theorem Agrees.readAll {c : Codec α} (hc : c.Agrees) {room : Nat} {vs : List Value} {as : List α}
    (hvs : ∀ v ∈ vs, v.Fits room) (h : readAll c.ofValue vs = .ok as) :
    readAll (c.read room) (Value.elementItems vs) = .ok as := by
  induction vs generalizing as with
  | nil => exact h
  | cons v vs ih =>
    obtain ⟨hv, hvs⟩ := List.forall_mem_cons.1 hvs
    obtain ⟨a, ha, as', has, rfl⟩ := readAll_cons_eq_ok_iff.1 h
    exact readAll_cons_eq_ok_iff.2 ⟨a, hc hv ha, as', ih hvs has, rfl⟩

/-- `readAll` reads what was written one by one. -/
theorem readAll_map {c : Codec α} {room : Nat} (hc : c.Lawful room) (as : List α) :
    readAll c.ofValue (as.map c.toValue) = .ok as := by
  induction as with
  | nil => rfl
  | cons a as ih => exact readAll_cons_eq_ok_iff.2 ⟨a, hc.ofValue_toValue a, as, ih, rfl⟩

/-- `list` reads the same from values and from items if its elements do. -/
theorem agrees_list {c : Codec α} (hc : c.Agrees) : c.list.Agrees := by
  intro room v as hv h
  cases hv with
  | list hvs =>
    have hread := hc.readAll hvs h
    simp only [Value.item, list, enter, hread]
    rfl
  | _ => cases h

/-- `list` reads what was written, with one more bracket around it. -/
theorem lawful_list {c : Codec α} {room : Nat} (hc : c.Lawful room) :
    c.list.Lawful (room + 1) where
  ofValue_toValue as := readAll_map hc as
  fits as := by
    refine .list fun v hv => ?_
    obtain ⟨a, -, rfl⟩ := List.mem_map.1 hv
    exact hc.fits a

/-- `map` reads what was written if the codec reads those of its values that are written. -/
theorem lawful_map {c : Codec α} {f : α → β} {g : β → α} {room : Nat}
    (hread : ∀ b, c.ofValue (c.toValue (g b)) = .ok (g b))
    (hfits : ∀ b, (c.toValue (g b)).Fits room) (hfg : ∀ b, f (g b) = b) :
    (c.map f g).Lawful room where
  ofValue_toValue b := by
    simp only [map, hread, Except.map, hfg]
  fits := hfits

/-- `nullable` reads what was written if null is not written for anything else. -/
theorem lawful_nullable {c : Codec α} {room : Nat} (hc : c.Lawful room)
    (hnull : ∀ a, c.toValue a ≠ .null) : c.nullable.Lawful room where
  ofValue_toValue
    | none => rfl
    | some a => by
      have ha := hc.ofValue_toValue a
      simp only [nullable]
      split
      · next h => exact absurd h (hnull a)
      · rw [ha]
        rfl
  fits
    | none => .null
    | some a => hc.fits a

/-- `choice` reads what was written if each name is found. -/
theorem lawful_choice {cases : List (String × α)} {name : α → String}
    (h : ∀ a, choose cases (name a) = .ok a) (room : Nat) :
    (choice cases name).Lawful room where
  ofValue_toValue := h
  fits a := .string (name a)

end Codec

/-! ## Rows -/

namespace Row

/-- The names of the fields. -/
def names {σ ρ : Type} : Row σ ρ → List String
  | nil => []
  | cons field rest => field.name :: rest.names

/-- What the codecs of a row read from values they read from items. -/
def Agrees {σ ρ : Type} : Row σ ρ → Prop
  | nil => True
  | cons field rest => field.codec.Agrees ∧ rest.Agrees

/-- `fill` passes over the members that have no field. -/
theorem fill_eq_none_iff {read : {α : Type} → Codec α → Except Fault α} {key : String}
    {row : Row σ ρ} {slots : σ} : row.fill read key slots = none ↔ key ∉ row.names := by
  induction row with
  | nil => simp [fill, names]
  | cons field rest ih =>
    obtain ⟨slot, slots⟩ := slots
    -- a slot that is filled already gives a fault, which is not to pass over
    by_cases hkey : key = field.name
    · cases slot <;> simp [fill, names, hkey]
    · simp [fill, names, hkey, ih]

/-- A member of an object that was taken in before is read into its slot, or passed over. -/
def fillOne (row : Row σ ρ) (slots : σ) (m : String × Value) : Except Fault σ :=
  (row.fill (fun c => c.ofValue m.2) m.1 slots).getD (.ok slots)

/-- `fillAll` goes member by member. -/
theorem fillAll_cons_eq_ok_iff {row : Row σ ρ} {slots out : σ} {m : String × Value}
    {ms : List (String × Value)} :
    row.fillAll slots (m :: ms) = .ok out ↔
      ∃ slots', row.fillOne slots m = .ok slots' ∧ row.fillAll slots' ms = .ok out := by
  obtain ⟨name, v⟩ := m
  rw [fillAll, fillOne]
  cases row.fill (fun c => c.ofValue v) name slots with
  | none => simp
  | some result => simp [bind_eq_ok_iff]

/-- `fillOne` leaves the slots for a member that has no field. -/
theorem fillOne_of_notMem {row : Row σ ρ} {m : String × Value} (h : m.1 ∉ row.names)
    (slots : σ) : row.fillOne slots m = .ok slots := by
  rw [fillOne, fill_eq_none_iff.2 h, Option.getD_none]

/-- `fillOne` reads a member into the slot of its name. -/
theorem fillOne_self (field : Field α) (rest : Row σ ρ) (slots : σ) (v : Value) :
    (cons field rest).fillOne (none, slots) (field.name, v) =
      (field.codec.ofValue v).map fun a => (some a, slots) := by
  simp [fillOne, fill]

/-- `fillOne` passes a member of another name to the other fields. -/
theorem fillOne_of_ne {field : Field α} {m : String × Value} (h : m.1 ≠ field.name)
    (rest : Row σ ρ) (slot : Option α) (slots : σ) :
    (cons field rest).fillOne (slot, slots) m =
      (rest.fillOne slots m).map fun slots => (slot, slots) := by
  simp only [fillOne, fill, if_neg h]
  cases rest.fill (fun c => c.ofValue m.2) m.1 slots <;> rfl

end Row

/-- What a field is in an object: the only member of its name, or its value when it is absent. -/
def Field.Holds (field : Field α) (ms : List (String × Value)) (a : α) : Prop :=
  (∃ v, (ms.filter fun m => m.1 = field.name) = [(field.name, v)] ∧
      field.codec.ofValue v = .ok a) ∨
    (ms.filter fun m => m.1 = field.name) = [] ∧ field.absent = some a

namespace Row

/-- What the fields of a row are in an object. -/
def Holds {σ ρ : Type} : Row σ ρ → List (String × Value) → ρ → Prop
  | nil, _, _ => True
  | cons field rest, ms, (a, values) => field.Holds ms a ∧ rest.Holds ms values

/-- `fillAll` leaves a slot if all members have other names. -/
theorem fillAll_of_absent {field : Field α} {rest : Row σ ρ} {ms : List (String × Value)}
    (hms : (ms.filter fun m => m.1 = field.name) = []) (slot : Option α) {slots slots' : σ}
    (h : rest.fillAll slots ms = .ok slots') :
    (cons field rest).fillAll (slot, slots) ms = .ok (slot, slots') := by
  induction ms generalizing slots with
  | nil =>
    cases h
    rfl
  | cons m ms ih =>
    -- the member goes to the other fields
    have hm : m.1 ≠ field.name := by
      simpa using List.filter_eq_nil_iff.1 hms m List.mem_cons_self
    rw [List.filter_cons_of_neg (by simpa using hm)] at hms
    obtain ⟨slots₁, hone, hall⟩ := fillAll_cons_eq_ok_iff.1 h
    refine fillAll_cons_eq_ok_iff.2 ⟨(slot, slots₁), ?_, ih hms hall⟩
    rw [fillOne_of_ne hm, hone]
    rfl

/-- `fillAll` reads the only member of a name into the slot of that name. -/
theorem fillAll_of_present {field : Field α} {rest : Row σ ρ} {ms : List (String × Value)}
    {v : Value} (hms : (ms.filter fun m => m.1 = field.name) = [(field.name, v)]) {a : α}
    (ha : field.codec.ofValue v = .ok a) (hname : field.name ∉ rest.names) {slots slots' : σ}
    (h : rest.fillAll slots ms = .ok slots') :
    (cons field rest).fillAll (none, slots) ms = .ok (some a, slots') := by
  induction ms generalizing slots with
  | nil => cases hms
  | cons m ms ih =>
    obtain ⟨slots₁, hone, hall⟩ := fillAll_cons_eq_ok_iff.1 h
    by_cases hm : m.1 = field.name
    · rw [List.filter_cons_of_pos (by simpa using hm), List.cons.injEq] at hms
      obtain ⟨rfl, hms⟩ := hms
      -- the other fields do not have that name
      rw [fillOne_of_notMem hname, Except.ok.injEq] at hone
      subst hone
      refine fillAll_cons_eq_ok_iff.2 ⟨(some a, slots), ?_, fillAll_of_absent hms _ hall⟩
      rw [fillOne_self, ha]
      rfl
    · rw [List.filter_cons_of_neg (by simpa using hm)] at hms
      refine fillAll_cons_eq_ok_iff.2 ⟨(none, slots₁), ?_, ih hms hall⟩
      rw [fillOne_of_ne hm, hone]
      rfl

/-- `fillAll` of a row without fields does nothing. -/
theorem fillAll_nil (ms : List (String × Value)) : nil.fillAll () ms = .ok () := by
  induction ms with
  | nil => rfl
  | cons m ms ih => exact fillAll_cons_eq_ok_iff.2 ⟨(), rfl, ih⟩

/-- `fillAll` and `finish` give the values that a row `Holds` in an object. -/
theorem Holds.fillAll {row : Row σ ρ} {ms : List (String × Value)} {values : ρ}
    (h : row.Holds ms values) (hnames : row.names.Nodup) :
    ∃ slots, row.fillAll row.empty ms = .ok slots ∧ row.finish slots = .ok values := by
  induction row with
  | nil => exact ⟨(), fillAll_nil ms, rfl⟩
  | cons field rest ih =>
    obtain ⟨a, values⟩ := values
    obtain ⟨hfield, hrest⟩ := h
    obtain ⟨hname, hnames⟩ := List.nodup_cons.1 hnames
    -- the other fields have been read; the first one adds its slot
    obtain ⟨slots, hfill, hfinish⟩ := ih hrest hnames
    obtain ⟨v, hmember, ha⟩ | ⟨hmember, habsent⟩ := hfield
    · refine ⟨(some a, slots), fillAll_of_present hmember ha hname hfill, ?_⟩
      simp [finish, hfinish, Except.map]
    · refine ⟨(none, slots), fillAll_of_absent hmember none hfill, ?_⟩
      simp [finish, habsent, hfinish, Except.map]

/-! ## Rows read from items -/

/-- `fill` reads the same from a value and from its item. -/
theorem Agrees.fill {row : Row σ ρ} (hrow : row.Agrees) {room : Nat} {v : Value}
    (hv : v.Fits room) {key : String} {slots slots' : σ}
    (h : row.fill (fun c => c.ofValue v) key slots = some (.ok slots')) :
    row.fill (fun c => c.read room v.item) key slots = some (.ok slots') := by
  induction row with
  | nil => cases h
  | cons field rest ih =>
    obtain ⟨hfield, hrest⟩ := hrow
    obtain ⟨slot, slots⟩ := slots
    -- the codec of this field reads it, or that of a later one
    by_cases hkey : key = field.name
    · cases slot with
      | some a => simp [Row.fill, hkey] at h
      | none =>
        simp only [Row.fill, if_pos hkey, Option.some.injEq, map_eq_ok_iff] at h ⊢
        obtain ⟨a, ha, hslots⟩ := h
        exact ⟨a, hfield hv ha, hslots⟩
    · simp only [Row.fill, if_neg hkey, Option.map_eq_some_iff, map_eq_ok_iff] at h ⊢
      obtain ⟨result, hresult, slots₁, rfl, hslots⟩ := h
      exact ⟨_, ih hrest hresult, slots₁, rfl, hslots⟩

/-- `readMembers` reads from items what `fillAll` reads from values. -/
theorem Agrees.readMembers {row : Row σ ρ} (hrow : row.Agrees) {room : Nat}
    {ms : List (String × Value)} (hms : ∀ m ∈ ms, m.2.Fits room) {slots slots' : σ}
    (h : row.fillAll slots ms = .ok slots') :
    row.readMembers room slots (Value.memberItems ms) = .ok slots' := by
  induction ms generalizing slots with
  | nil => exact h
  | cons m ms ih =>
    obtain ⟨name, v⟩ := m
    obtain ⟨hv, hms⟩ := List.forall_mem_cons.1 hms
    simp only [fillAll, Value.memberItems, Row.readMembers, QuotedLexeme.plain] at h ⊢
    cases hfill : row.fill (fun c => c.ofValue v) name slots with
    | none =>
      -- nobody asks for a member of another name
      have hread : row.fill (fun c => c.read room v.item) name slots = none :=
        fill_eq_none_iff.2 (fill_eq_none_iff.1 hfill)
      rw [hfill] at h
      refine bind_eq_ok_iff.2 ⟨name, rfl, ?_⟩
      rw [hread]
      exact bind_eq_ok_iff.2 ⟨(), hv.integral.skip_item, ih hms h⟩
    | some result =>
      rw [hfill] at h
      obtain ⟨slots₁, rfl, hall⟩ := bind_eq_ok_iff.1 h
      refine bind_eq_ok_iff.2 ⟨name, rfl, ?_⟩
      rw [hrow.fill hv hfill]
      exact bind_eq_ok_iff.2 ⟨slots₁, rfl, ih hms hall⟩

/-- `readList` reads the same from values and from items, and leaves the same ones. -/
theorem Agrees.readList {row : Row σ ρ} (hrow : row.Agrees) {room : Nat} {expected : String}
    {n : Nat} {vs left : List Value} (hvs : ∀ v ∈ vs, v.Fits room) {values : ρ}
    (h : row.readList (fun c v => c.ofValue v) none expected n vs = .ok (values, left)) :
    row.readList (fun c item => c.read room item) none expected n (Value.elementItems vs) =
      .ok (values, Value.elementItems left) := by
  induction row generalizing n vs with
  | nil =>
    simp only [Row.readList, Except.ok.injEq, Prod.mk.injEq] at h ⊢
    exact ⟨h.1, congrArg _ h.2⟩
  | cons field rest ih =>
    obtain ⟨hfield, hrest⟩ := hrow
    cases vs with
    | nil =>
      simp only [Row.readList, Value.elementItems, bind_eq_ok_iff] at h ⊢
      obtain ⟨u, hu, h⟩ := h
      refine ⟨u, hu, ?_⟩
      -- the list is at its end, and the field has a value without one or there is a fault
      cases habsent : field.absentInList with
      | none => simp [habsent] at h
      | some a =>
        simp only [habsent, bind_eq_ok_iff] at h ⊢
        obtain ⟨⟨values', left'⟩, htail, h⟩ := h
        cases h
        exact ⟨_, ih hrest hvs htail, rfl⟩
    | cons v vs =>
      obtain ⟨hv, hvs⟩ := List.forall_mem_cons.1 hvs
      simp only [Row.readList, Value.elementItems, bind_eq_ok_iff] at h ⊢
      obtain ⟨a, ha, ⟨values', left'⟩, htail, h⟩ := h
      cases h
      exact ⟨a, hfield hv ha, _, ih hrest hvs htail, rfl⟩

end Row

/-! ## What was written -/

/-- A field that is left out has its value when it is absent. -/
structure Field.Lawful (field : Field α) (room : Nat) : Prop where
  codec : field.codec.Lawful room
  absent_of_omits : ∀ a, field.omits a = true → field.absent = some a

/-- A field that is always written. -/
theorem Field.lawful_of_written {field : Field α} {room : Nat}
    (hcodec : field.codec.Lawful room) (hwritten : ∀ a, field.omits a = false) :
    field.Lawful room where
  codec := hcodec
  absent_of_omits a homits := by simp [hwritten a] at homits

/-- A field that is left out when it is null. -/
theorem Field.lawful_of_isNone {name : String} {codec : Codec α} {room : Nat}
    (hcodec : codec.Lawful room) (hnull : ∀ a, codec.toValue a ≠ .null) :
    Field.Lawful { name, codec := codec.nullable, absent := some none, omits := Option.isNone }
      room where
  codec := Codec.lawful_nullable hcodec hnull
  absent_of_omits a homits := by rw [Option.isNone_iff_eq_none.1 homits]

namespace Row

/-- The fields of a row are lawful and have different names. -/
def Lawful {σ ρ : Type} (room : Nat) : Row σ ρ → Prop
  | nil => True
  | cons field rest => field.Lawful room ∧ field.name ∉ rest.names ∧ rest.Lawful room

/-- The fields of a `Lawful` row have different names. -/
theorem Lawful.nodup_names {room : Nat} {row : Row σ ρ} (h : row.Lawful room) :
    row.names.Nodup := by
  induction row with
  | nil => exact List.nodup_nil
  | cons field rest ih => exact List.nodup_cons.2 ⟨h.2.1, ih h.2.2⟩

/-- `entries` writes members of the names of fields. -/
theorem mem_names_of_mem_entries {row : Row σ ρ} {values : ρ} {m : String × Value}
    (h : m ∈ row.entries values) : m.1 ∈ row.names := by
  induction row with
  | nil => cases h
  | cons field rest ih =>
    obtain ⟨a, values⟩ := values
    rw [entries] at h
    split at h
    · exact List.mem_cons_of_mem _ (ih h)
    · rcases List.mem_cons.1 h with rfl | h
      · exact List.mem_cons_self
      · exact List.mem_cons_of_mem _ (ih h)

/-- What `entries` writes has at most `room` nested brackets. -/
theorem Lawful.fits {room : Nat} {row : Row σ ρ} (h : row.Lawful room) {values : ρ}
    {m : String × Value} (hm : m ∈ row.entries values) : m.2.Fits room := by
  induction row with
  | nil => cases hm
  | cons field rest ih =>
    obtain ⟨a, values⟩ := values
    obtain ⟨hfield, -, hrest⟩ := h
    rw [entries] at hm
    split at hm
    · exact ih hrest hm
    · rcases List.mem_cons.1 hm with rfl | hm
      · exact hfield.codec.fits a
      · exact ih hrest hm

/-- What a row `Holds` does not depend on members of other names. -/
theorem Holds.cons {row : Row σ ρ} {ms : List (String × Value)} {values : ρ}
    (h : row.Holds ms values) {m : String × Value} (hm : m.1 ∉ row.names) :
    row.Holds (m :: ms) values := by
  induction row with
  | nil => trivial
  | cons field rest ih =>
    obtain ⟨a, values⟩ := values
    obtain ⟨hne, hm⟩ := not_or.1 (mt List.mem_cons.2 hm)
    refine ⟨?_, ih h.2 hm⟩
    have hfilter := List.filter_cons_of_neg (p := fun m : String × Value => m.1 = field.name)
      (a := m) (l := ms) (by simpa using hne)
    simpa only [Field.Holds, hfilter] using h.1

/-- `entries` writes members in which the row `Holds` the values that they are written from. -/
theorem Lawful.holds {room : Nat} {row : Row σ ρ} (h : row.Lawful room) (values : ρ) :
    row.Holds (row.entries values) values := by
  induction row with
  | nil => trivial
  | cons field rest ih =>
    obtain ⟨a, values⟩ := values
    obtain ⟨hfield, hname, hrest⟩ := h
    -- the other fields write members of other names
    have hother : ((rest.entries values).filter fun m => m.1 = field.name) = [] := by
      refine List.filter_eq_nil_iff.2 fun m hm hkey => hname ?_
      rw [← of_decide_eq_true hkey]
      exact mem_names_of_mem_entries hm
    rw [entries]
    split
    · next homits => exact ⟨.inr ⟨hother, hfield.absent_of_omits a homits⟩, ih hrest values⟩
    · refine ⟨.inl ⟨_, ?_, hfield.codec.ofValue_toValue a⟩, (ih hrest values).cons hname⟩
      rw [List.filter_cons_of_pos (by simp), hother]

end Row

namespace Codec

/-! ## Structures -/

/-- `record` reads the same from values and from items if its fields do. -/
theorem agrees_record {row : Row σ ρ} (hrow : row.Agrees) (name : String) (make : ρ → α)
    (parts : α → ρ) : (record name row make parts).Agrees := by
  intro room v a hv h
  cases hv with
  | object hms =>
    simp only [record, bind_eq_ok_iff] at h
    obtain ⟨slots, hfill, hfinish⟩ := h
    have hread := hrow.readMembers hms hfill
    simp only [record, Value.item, enter, hread]
    exact hfinish
  -- a structure may be read from a list as well
  | list hvs =>
    simp only [record, bind_eq_ok_iff] at h
    obtain ⟨⟨values, left⟩, hlist, h⟩ := h
    have hread := hrow.readList hvs hlist
    simp only [record, Value.item, enter, Ending.listFault?, hread]
    -- nothing may be left of the list
    cases left with
    | nil => exact h
    | cons v left => simp at h
  | _ => cases h

/-- `record` reads an object in which the row `Holds` values as the structure that is made of
    them. -/
theorem ofValue_record {row : Row σ ρ} {ms : List (String × Value)} {values : ρ}
    (h : row.Holds ms values) (hnames : row.names.Nodup) (name : String) (make : ρ → α)
    (parts : α → ρ) : (record name row make parts).ofValue (.object ms) = .ok (make values) := by
  obtain ⟨slots, hfill, hfinish⟩ := h.fillAll hnames
  simp only [record, hfill, bind, Except.bind, hfinish, Except.map]

/-- `record` reads what was written, with one more bracket around it. -/
theorem lawful_record {row : Row σ ρ} {room : Nat} (hrow : row.Lawful room) (name : String)
    {make : ρ → α} {parts : α → ρ} (hparts : ∀ a, make (parts a) = a) :
    (record name row make parts).Lawful (room + 1) where
  ofValue_toValue a := by
    have hvalue := ofValue_record (hrow.holds (parts a)) hrow.nodup_names name make parts
    rwa [hparts] at hvalue
  fits a := .object fun _ hm => hrow.fits hm

/-! ## Alternatives of structures -/

/-- `gather` finds in items what `gatherValues` finds in values. -/
theorem gather_of_gatherValues {tag : String} {cases : List (String × α)} {room : Nat}
    {ms : List (String × Value)} (hms : ∀ m ∈ ms, m.2.Fits room) {known known' : Gathered α}
    (h : gatherValues tag cases known ms = .ok known') :
    gather tag cases room known (Value.memberItems ms) = .ok known' := by
  induction ms generalizing known with
  | nil => exact h
  | cons m ms ih =>
    obtain ⟨name, v⟩ := m
    obtain ⟨found, others⟩ := known
    obtain ⟨hv, htail⟩ := List.forall_mem_cons.1 hms
    simp only [gatherValues, gather, Value.memberItems, QuotedLexeme.plain] at h ⊢
    refine bind_eq_ok_iff.2 ⟨name, rfl, ?_⟩
    split at h
    · next hname =>
      rw [if_pos hname]
      split at h
      · cases h
      · obtain ⟨a, ha, h⟩ := bind_eq_ok_iff.1 h
        exact bind_eq_ok_iff.2 ⟨a, ha, ih htail h⟩
      · cases h
    · next hname =>
      rw [if_neg hname]
      exact bind_eq_ok_iff.2 ⟨v, hv.value_item, ih htail h⟩

/-- `tagged` reads the same from values and from items, as the alternatives are read from values in
    any case. -/
theorem agrees_tagged (tag name : String) (cases : List (String × (Value → Except Fault α)))
    (write : α → String × List (String × Value)) : (tagged tag name cases write).Agrees := by
  intro room v a hv h
  cases hv with
  | object hms =>
    simp only [tagged, bind_eq_ok_iff] at h
    obtain ⟨known, hgather, hdecode⟩ := h
    have hread := gather_of_gatherValues hms hgather
    simp only [tagged, Value.item, enter, hread]
    exact hdecode
  -- an alternative may be read from a list, with the tag in front
  | @list _ vs hvs =>
    cases vs with
    | nil => cases h
    | cons v vs =>
      cases v with
      | string s =>
        obtain ⟨decode, hchoose, hdecode⟩ := bind_eq_ok_iff.1 h
        have hvalues := Value.valuesOf_elementItems fun v hv =>
          (hvs v (List.mem_cons_of_mem _ hv)).value_item
        refine bind_eq_ok_iff.2 ⟨decode, hchoose, ?_⟩
        exact bind_eq_ok_iff.2 ⟨vs, hvalues, hdecode⟩
      | _ => cases h
  | _ => cases h

/-- `gatherValues` gathers members of other names than the tag in order. -/
theorem gatherValues_of_notMem {tag : String} {cases : List (String × α)} {found : Option α}
    {ms : List (String × Value)} (hms : ∀ m ∈ ms, m.1 ≠ tag) (others : List (String × Value)) :
    gatherValues tag cases (found, others) ms = .ok (found, ms.reverse ++ others) := by
  induction ms generalizing others with
  | nil => rfl
  | cons m ms ih =>
    obtain ⟨hm, hms⟩ := List.forall_mem_cons.1 hms
    simp only [gatherValues, if_neg hm, ih hms, List.reverse_cons, List.append_assoc]
    rfl

/-- `tagged` reads what was written if each alternative does and none of them writes the tag. -/
theorem lawful_tagged {tag : String} {cases : List (String × (Value → Except Fault α))}
    {write : α → String × List (String × Value)} {room : Nat}
    (hcase : ∀ a, ∃ decode, choose cases (write a).1 = .ok decode ∧
      decode (.object (write a).2) = .ok a)
    (htag : ∀ a, ∀ m ∈ (write a).2, m.1 ≠ tag) (hfits : ∀ a, ∀ m ∈ (write a).2, m.2.Fits room)
    (name : String) : (tagged tag name cases write).Lawful (room + 1) where
  ofValue_toValue a := by
    obtain ⟨decode, hchoose, hdecode⟩ := hcase a
    -- the tag is met first, and the other members are gathered in reverse
    have hgather : gatherValues tag cases (some decode, []) (write a).2 =
        .ok (some decode, (write a).2.reverse ++ []) := gatherValues_of_notMem (htag a) []
    simp only [tagged, gatherValues, if_true, hchoose, bind, Except.bind, hgather, ofGathered,
      List.append_nil, List.reverse_reverse]
    exact hdecode
  fits a := .object <| List.forall_mem_cons.2 ⟨.string _, hfits a⟩

/-! ## Texts -/

/-- `readText` reads a text with the tokens of a value as what is read from the value. -/
theorem readText_of_spaced {c : Codec α} (hc : c.Agrees) {v : Value} (hv : v.Fits maxDepth)
    {a : α} (ha : c.ofValue v = .ok a) {text : String} (h : Spaced v.tokens text.toList) :
    c.readText text = .ok a := by
  have hitems : itemsOf text.toList = [v].map Value.item :=
    itemsOf_of_spaced (by simpa using hv.integral) (by rwa [List.flatMap_singleton])
  rw [readText, hitems]
  exact bind_eq_ok_iff.2 ⟨a, hc hv ha, rfl⟩

/-- `readText` reads what `writeText` wrote. -/
theorem readText_writeText {c : Codec α} (hc : c.Agrees) (hlawful : c.Lawful maxDepth) (a : α) :
    c.readText (c.writeText a) = .ok a := by
  have hfits := hlawful.fits a
  have hspaced : Spaced (c.toValue a).tokens (c.writeText a).toList := by
    simpa [writeText, Value.compactText] using hfits.integral.renders .nil EndsNumber.nil
  exact readText_of_spaced hc hfits (hlawful.ofValue_toValue a) hspaced

/-- `readText` reads a value that is printed over indented lines as what is read from the value. -/
theorem readText_prettyText {c : Codec α} (hc : c.Agrees) {v : Value} (hv : v.Fits maxDepth)
    {a : α} (ha : c.ofValue v = .ok a) : c.readText (v.prettyText ++ "\n") = .ok a :=
  readText_of_spaced hc hv ha (spaced_prettyText hv.integral).2

/-- `readStream` reads a text with the tokens of several values as what is read from them in
    order. -/
theorem readStream_of_spaced {c : Codec α} (hc : c.Agrees) {vs : List Value}
    (hvs : ∀ v ∈ vs, v.Fits maxDepth) {as : List α} (has : readAll c.ofValue vs = .ok as)
    {text : String} (h : Spaced (vs.flatMap Value.tokens) text.toList) :
    c.readStream text = .ok as := by
  have hitems := itemsOf_of_spaced (fun v hv => (hvs v hv).integral) h
  rw [readStream, hitems, ← Value.elementItems_eq_map]
  exact hc.readAll hvs has

end Codec

end CallCycle.Json

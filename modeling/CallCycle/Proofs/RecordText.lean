import CallCycle.Proofs.CodecLaws
import CallCycle.Record.Json

/-!
# Texts of records

Records that were written are read, as a list or one after the other with white space anywhere
between them.  The codecs of records obey the laws of codecs: what is left out is what is taken for
absent, no two fields have the same name, and the status of a call site is no field of a call.

## Key results

- `lawful_lineCodec`, `Symbol.lawful_codec`, `CallSite.lawful_codec`, `Record.lawful_codec`: what
  was written is read
- `Symbol.agrees_codec`, `CallSite.agrees_codec`, `Record.agrees_codec`: reading from items
- `Record.Strewn.spaced`: the tokens of records that stand one after the other
- `Record.readAll_written`: reading records in both layouts
-/

namespace CallCycle

open Json

/-! ## Codecs -/

/-- `lineCodec` reads what was written. -/
theorem lawful_lineCodec (room : Nat) : lineCodec.Lawful room := by
  refine Codec.lawful_map (fun line => ?_) (fun line => ?_) fun line => UInt32.ofNat_toNat
  · exact Codec.ofValue_nat line.toNat_lt _
  -- a line has 32 bits
  · have hline := line.toNat_lt
    exact .int (by omega) (by omega)

/-- `Symbol.codec` reads what was written. -/
theorem Symbol.lawful_codec (room : Nat) : Symbol.codec.Lawful (room + 2) := by
  have htext : Codec.string.Lawful (room + 1) := Codec.lawful_string _
  have htexts : Codec.string.list.Lawful (room + 1) :=
    Codec.lawful_list (Codec.lawful_string room)
  refine Codec.lawful_record ?_ _ fun _ => rfl
  refine ⟨Field.lawful_of_written htext fun _ => rfl, by decide, ?_⟩
  refine ⟨Field.lawful_of_written htext fun _ => rfl, by decide, ?_⟩
  exact ⟨Field.lawful_of_written htexts fun _ => rfl, by decide, trivial⟩

/-- `Symbol.codec` reads the same from values and from items. -/
theorem Symbol.agrees_codec : Symbol.codec.Agrees := by
  refine Codec.agrees_record ?_ _ _ _
  exact ⟨Codec.agrees_string, Codec.agrees_string, Codec.agrees_list Codec.agrees_string, trivial⟩

/-- `Dispatch.codec` reads what was written. -/
theorem Dispatch.lawful_codec (room : Nat) : Dispatch.codec.Lawful room := by
  refine Codec.lawful_choice (fun a => ?_) room
  cases a <;> rfl

/-- `ResolvedCall.codec` reads what was written. -/
theorem ResolvedCall.lawful_codec (room : Nat) : ResolvedCall.codec.Lawful (room + 3) := by
  have htexts : Codec.string.list.Lawful (room + 2) :=
    Codec.lawful_list (Codec.lawful_string _)
  -- the way of dispatch is left out if it is the virtual one
  have hdispatch : ∀ a : Dispatch, (a == .virtual) = true → some Dispatch.virtual = some a :=
    fun a ha => by rw [eq_of_beq ha]
  refine Codec.lawful_record ?_ _ fun _ => rfl
  refine ⟨Field.lawful_of_written (Symbol.lawful_codec room) fun _ => rfl, by decide, ?_⟩
  refine ⟨Field.lawful_of_isNone htexts nofun, by decide, ?_⟩
  refine ⟨⟨Dispatch.lawful_codec _, hdispatch⟩, by decide, ?_⟩
  exact ⟨Field.lawful_of_isNone (lawful_lineCodec _) nofun, by decide, trivial⟩

/-- `UnresolvedCall.codec` reads what was written. -/
theorem UnresolvedCall.lawful_codec (room : Nat) : UnresolvedCall.codec.Lawful (room + 1) := by
  have htext : Codec.string.Lawful room := Codec.lawful_string _
  refine Codec.lawful_record ?_ _ fun _ => rfl
  refine ⟨Field.lawful_of_written htext fun _ => rfl, by decide, ?_⟩
  refine ⟨Field.lawful_of_isNone htext nofun, by decide, ?_⟩
  exact ⟨Field.lawful_of_isNone (lawful_lineCodec _) nofun, by decide, trivial⟩

/-- `CallSite.codec` reads what was written, since the status of a call site is no field of a
    call. -/
theorem CallSite.lawful_codec (room : Nat) : CallSite.codec.Lawful (room + 3) := by
  have hresolved := ResolvedCall.lawful_codec room
  have hunresolved := UnresolvedCall.lawful_codec (room + 2)
  refine Codec.lawful_tagged (fun a => ?_) (fun a m hm => ?_) (fun a m hm => ?_) _
  · cases a with
    | resolved call =>
      exact ⟨_, rfl, map_eq_ok_iff.2 ⟨call, hresolved.ofValue_toValue call, rfl⟩⟩
    | unresolved call =>
      exact ⟨_, rfl, map_eq_ok_iff.2 ⟨call, hunresolved.ofValue_toValue call, rfl⟩⟩
  -- the names that are written are those of the fields
  · rintro htag
    cases a with
    | resolved call =>
      have hname : m.1 ∈ ["target", "declared_params", "dispatch", "line"] :=
        Row.mem_names_of_mem_entries hm
      rw [htag] at hname
      exact absurd hname (by decide)
    | unresolved call =>
      have hname : m.1 ∈ ["expression", "reason", "line"] := Row.mem_names_of_mem_entries hm
      rw [htag] at hname
      exact absurd hname (by decide)
  · cases a with
    | resolved call =>
      cases hresolved.fits call with
      | object hms => exact hms m hm
    | unresolved call =>
      cases hunresolved.fits call with
      | object hms => exact hms m hm

/-- `CallSite.codec` reads the same from values and from items. -/
theorem CallSite.agrees_codec : CallSite.codec.Agrees :=
  Codec.agrees_tagged _ _ _ _

namespace Record

/-- `Record.codec` reads what was written. -/
theorem lawful_codec (room : Nat) : codec.Lawful (room + 5) := by
  have hsymbol : Symbol.codec.Lawful (room + 4) := Symbol.lawful_codec _
  have hsymbols : Symbol.codec.list.Lawful (room + 4) := Codec.lawful_list (Symbol.lawful_codec _)
  have hcalls : CallSite.codec.list.Lawful (room + 4) := Codec.lawful_list (CallSite.lawful_codec _)
  -- what is left out is what is taken for absent
  have hempty : ∀ overrides : List Symbol, overrides.isEmpty = true → some [] = some overrides :=
    fun overrides h => by rw [List.isEmpty_iff.1 h]
  refine Codec.lawful_record ?_ _ fun _ => rfl
  refine ⟨Field.lawful_of_written hsymbol fun _ => rfl, by decide, ?_⟩
  refine ⟨⟨hsymbols, hempty⟩, by decide, ?_⟩
  exact ⟨Field.lawful_of_written hcalls fun _ => rfl, by decide, trivial⟩

/-- `Record.codec` reads the same from values and from items. -/
theorem agrees_codec : codec.Agrees := by
  refine Codec.agrees_record ?_ _ _ _
  exact ⟨Symbol.agrees_codec, Codec.agrees_list Symbol.agrees_codec,
    Codec.agrees_list CallSite.agrees_codec, trivial⟩

/-! ## Layouts -/

/-- A text of records that stand one after the other, with white space in front, between and behind,
    or with none. -/
inductive Strewn : List Record → List Char → Prop where
  | nil : Strewn [] []
  | space {records : List Record} {c : Char} {text : List Char} (hc : isSpace c = true)
      (h : Strewn records text) : Strewn records (c :: text)
  | record {records : List Record} {text : List Char} (r : Record) (h : Strewn records text) :
      Strewn (r :: records) ((codec.writeText r).toList ++ text)

/-- The characters of `writeText` are those of `compact`. -/
theorem toList_writeText (r : Record) : (codec.writeText r).toList = (codec.toValue r).compact :=
  String.toList_ofList

/-- `compact` of a record starts with a bracket. -/
theorem compact_toValue (r : Record) : ∃ text, (codec.toValue r).compact = '\x7b' :: text :=
  ⟨_, rfl⟩

/-- `isBlank` knows all white space of JSON. -/
theorem isBlank_of_isSpace {c : Char} (h : isSpace c = true) : Text.isBlank c = true := by
  rcases isSpace_iff.1 h with rfl | rfl | rfl | rfl <;> decide

/-- A `Strewn` text does not go on with a number. -/
theorem Strewn.endsNumber {records : List Record} {text : List Char} (h : Strewn records text) :
    EndsNumber text := by
  cases h with
  | nil => exact EndsNumber.nil
  | space hc _ =>
    rcases isSpace_iff.1 hc with rfl | rfl | rfl | rfl <;> simp [EndsNumber, Char.isDigit]
  | record r _ =>
    -- the next record begins with a bracket
    obtain ⟨tail, htail⟩ := compact_toValue r
    rw [toList_writeText, htail]
    simp [EndsNumber, Char.isDigit]

/-- A `Strewn` text has the tokens of its records in order. -/
theorem Strewn.spaced {records : List Record} {text : List Char} (h : Strewn records text) :
    Spaced ((records.map codec.toValue).flatMap Value.tokens) text := by
  induction h with
  | nil => exact .nil
  | space hc _ ih => exact .space hc ih
  | record r htail ih =>
    have hfits := (lawful_codec 0).fits r
    rw [toList_writeText, List.map_cons, List.flatMap_cons]
    exact hfits.integral.renders ih htail.endsNumber

/-- A `Strewn` text is not taken for a list. -/
theorem Strewn.trimStart_ne {records : List Record} {text : List Char} (h : Strewn records text)
    (tail : List Char) : Text.trimStart text ≠ '[' :: tail := by
  induction h with
  | nil => simp [Text.trimStart]
  | space hc _ ih => rwa [Text.trimStart, List.dropWhile_cons_of_pos (isBlank_of_isSpace hc)]
  | record r _ _ =>
    obtain ⟨rest, hrest⟩ := compact_toValue r
    rw [toList_writeText, hrest, Text.trimStart, List.cons_append,
      List.dropWhile_cons_of_neg (by decide)]
    simp

/-- `readAll` takes what `writeAll` writes for a list. -/
theorem readAll_writeAll (records : List Record) :
    readAll (writeAll records) = (Codec.list codec).readText (writeAll records) := by
  have htext : ∃ text, (writeAll records).toList = '[' :: text := by
    rw [writeAll, Codec.writeText, Value.compactText, String.toList_ofList]
    exact ⟨_, rfl⟩
  obtain ⟨text, htext⟩ := htext
  have htrim : Text.trimStart (writeAll records).toList = '[' :: text := by
    rw [htext, Text.trimStart, List.dropWhile_cons_of_neg (by decide)]
  simp only [readAll, htrim]

/-- `readAll` reads records that were written.  They may be written as a list, or one after the
    other with any white space in front, between and behind, or with none. -/
theorem readAll_written (records : List Record) :
    readAll (writeAll records) = .ok records ∧
      ∀ text : String, Strewn records text.toList → readAll text = .ok records := by
  constructor
  · -- a list has one bracket more than its records
    rw [readAll_writeAll]
    exact Codec.readText_writeText (Codec.agrees_list agrees_codec)
      (Codec.lawful_list (lawful_codec 121)) records
  · intro text htext
    -- each record has its own brackets only
    have hlawful : codec.Lawful Codec.maxDepth := lawful_codec 122
    have hfits : ∀ v ∈ records.map codec.toValue, v.Fits Codec.maxDepth := by
      intro v hv
      obtain ⟨r, -, rfl⟩ := List.mem_map.1 hv
      exact hlawful.fits r
    have hstream : codec.readStream text = .ok records :=
      Codec.readStream_of_spaced agrees_codec hfits (Codec.readAll_map hlawful records)
        htext.spaced
    rw [readAll]
    split
    · next hlist => exact absurd hlist (htext.trimStart_ne _)
    · exact hstream

/-- A record with characters that are escaped, an empty list of parameter types and an empty
    reason. -/
def oddRecord : Record where
  declaration := ⟨"Quote\"\\", "line\nbreak", ["\x01", "Ünï"]⟩
  calls :=
    [.resolved { target := ⟨"Quote", "end", []⟩, declaredParams := some [], dispatch := .special
                 line := some 0xFFFFFFFF },
     .unresolved { expression := "", reason := some "" }]

/-- Two copies of `oddRecord` without white space between them. -/
theorem readAll_written_odd :
    readAll ("\r\n" ++ codec.writeText oddRecord ++ codec.writeText oddRecord ++ "\t ") =
      .ok [oddRecord, oddRecord] := by
  -- the records are not looked into
  have hstrewn : ∀ r : Record, Strewn [r, r]
      ("\r\n" ++ codec.writeText r ++ codec.writeText r ++ "\t ").toList := by
    intro r
    simp only [String.toList_append, List.append_assoc, String.reduceToList, List.cons_append,
      List.nil_append]
    exact .space rfl (.space rfl (.record r (.record r (.space rfl (.space rfl .nil)))))
  exact (readAll_written [oddRecord, oddRecord]).2 _ (hstrewn oddRecord)

end Record

end CallCycle

import CallCycle.Proofs.Submission
import CallCycle.Proofs.WrittenType

/-!
# Vertices as entry points

A graph shows its vertices as texts, and a text can be given as the start of an analysis.  Where
the records spell their methods as source text and their types as source text or binary array names,
and type arguments are erased, the text of a vertex is read as a method, and as that vertex exactly
if all its parameter types are settled.  Only a blank behind an opening bracket of a binary array
name can leave a type that is not: the name is not recognized in the records, but it is in the text
of the vertex, where the blank is gone.

## Key results

- `Symbol.Written.wellFormed`: the key of a method is read back from its text
- `Symbol.Written.readStart_display_iff`: when the text of a key is read as that key
- `readStart_vertex_iff`: which vertices can be given as a start
- `readStart_vertex_unknown`: a vertex whose text names a method that is not in the graph
-/

namespace CallCycle

/-! ## Written methods -/

namespace Symbol

open Descriptor

/-- A method that is written as in source text, with the types of its parameters as source text or
    binary array names.  Where `gaps` is set, blanks may follow the brackets of the latter. -/
structure Written (gaps : Bool) (s : Symbol) : Prop where
  owner : OwnerName s.owner.toList
  name : Text.isBlankText s.name = false
  nameDot : '.' ∉ s.name.toList
  nameOpening : '(' ∉ s.name.toList
  types : ∀ text ∈ s.types, ∃ t : JavaType, t.Written gaps text.toList

namespace Written

variable {gaps : Bool} {s : Symbol} {rules : Rules}

/-- The owner of the key of a written method is a `dotted` name. -/
theorem exists_owner_eq (h : s.Written gaps) (rules : Rules) :
    ∃ qs simple, (Key.ofSymbol rules s).owner.toList = dotted qs simple := by
  obtain ⟨qs, simple, howner⟩ := h.owner.exists_canonicalOwner_eq
  exact ⟨qs, simple, by rw [Key.ofSymbol, Key.ofParts, Rules.owner, String.toList_ofList, howner]⟩

/-- The owner of the key of a written method is `IsTight`. -/
theorem isTight_owner (h : s.Written gaps) (rules : Rules) :
    IsTight (Key.ofSymbol rules s).owner.toList := by
  obtain ⟨qs, simple, howner⟩ := h.exists_owner_eq rules
  rw [howner]
  exact isTight_word fun c hc => isBlank_of_mem_dotted hc

/-- The name of a key has no character that the method does not have. -/
theorem mem_of_mem_name {c : Char} (h : c ∈ (Key.ofSymbol rules s).name.toList) :
    c ∈ s.name.toList := by
  rw [Key.ofSymbol, Key.ofParts, Text.trimmed, String.toList_ofList] at h
  exact Text.mem_of_mem_trim h

/-- The key of a written method is `WellFormed`, and so is read back from its text. -/
theorem wellFormed (h : s.Written gaps) (herase : rules.eraseGenerics = true) :
    (Key.ofSymbol rules s).WellFormed where
  owner := by
    obtain ⟨qs, simple, howner⟩ := h.exists_owner_eq rules
    obtain ⟨c, cs, hcons, -⟩ := exists_dotted_cons qs simple
    refine ⟨fun hnil => ?_, (h.isTight_owner rules).trimmed⟩
    rw [hnil, hcons] at howner
    cases howner
  ownerOpening := by
    obtain ⟨qs, simple, howner⟩ := h.exists_owner_eq rules
    rw [howner]
    intro hmem
    exact absurd (mem_dotted _ hmem) (by decide)
  name := Key.isPart_ofList fun hnil => by
    have hblank := h.name
    rw [Text.isBlankText, Text.trim_eq_nil_iff.1 hnil] at hblank
    cases hblank
  nameDot hmem := h.nameDot (mem_of_mem_name hmem)
  nameOpening hmem := h.nameOpening (mem_of_mem_name hmem)
  params := by
    intro p hp
    obtain ⟨text, htext, rfl⟩ := List.mem_map.1 hp
    -- the canonical form of a type is read as one parameter
    obtain ⟨t, ht⟩ := h.types text htext
    obtain ⟨hne, htrimmed, hparameter⟩ := Key.isPlainParameter_canonical ht herase
    rw [Rules.descriptor]
    refine ⟨⟨fun hnil => hne ?_, ?_⟩, ?_⟩
    · simpa using congrArg String.toList hnil
    · rwa [String.toList_ofList]
    · rwa [String.toList_ofList]

/-- Without gaps behind opening brackets, the parameter types of a key are `Settled`. -/
theorem settled (h : s.Written false) (herase : rules.eraseGenerics = true) :
    ∀ p ∈ (Key.ofSymbol rules s).params, Settled p.toList := by
  intro p hp
  obtain ⟨text, htext, rfl⟩ := List.mem_map.1 hp
  obtain ⟨t, ht⟩ := h.types text htext
  -- the canonical form is a dotted name with brackets
  obtain ⟨qs, simple, k, hcanonical⟩ := exists_canonicalText_eq rules t
  rw [Rules.descriptor, String.toList_ofList, ht.canonical_eq herase, hcanonical]
  exact settled_dotted_brackets qs simple k

/-- `readStart` reads the text of a key as that key exactly if its parameter types are `Settled`. -/
theorem readStart_display_iff (h : s.Written gaps) (herase : rules.eraseGenerics = true) :
    Command.readStart rules (some (Key.ofSymbol rules s).display) =
        .ok (some (Key.ofSymbol rules s)) ↔
      ∀ p ∈ (Key.ofSymbol rules s).params, Settled p.toList := by
  -- the text is read as the key, whose parts are then taken as spellings once more
  have hread : Command.readStart rules (some (Key.ofSymbol rules s).display) =
      .ok (some ((Key.ofSymbol rules s).canonicalized rules)) := by
    rw [Command.readStart, Key.parseCanonical, (h.wellFormed herase).parse_display]
    rfl
  rw [hread, Except.ok.injEq, Option.some.injEq, Key.ofSymbol, Key.canonicalized_ofParts_iff]
  simp only [Key.ofParts, List.forall_mem_map]
  exact and_iff_right (h.isTight_owner rules)

end Written

end Symbol

namespace Record

/-- A record all of whose methods are written in these ways. -/
structure Written (gaps : Bool) (r : Record) : Prop where
  declaration : r.declaration.Written gaps
  overrides : ∀ base ∈ r.overrides, base.Written gaps
  targets : ∀ call, .resolved call ∈ r.calls → call.target.Written gaps
  declaredParams : ∀ call, .resolved call ∈ r.calls → ∀ text ∈ call.declaredParams.getD [],
    ∃ t : Descriptor.JavaType, t.Written gaps text.toList

/-- `signatureTypes` of a call are written like its target. -/
theorem Written.signature {gaps : Bool} {r : Record} (h : r.Written gaps) {call : ResolvedCall}
    (hcall : .resolved call ∈ r.calls) :
    Symbol.Written gaps { call.target with types := call.signatureTypes } := by
  have htarget := h.targets call hcall
  refine { htarget with types := fun text htext => ?_ }
  rw [ResolvedCall.signatureTypes] at htext
  -- the types are those of the declaration if the call has any
  cases hparams : call.declaredParams with
  | none =>
    rw [hparams] at htext
    exact htarget.types text htext
  | some params =>
    rw [hparams] at htext
    exact h.declaredParams call hcall text (by rwa [hparams])

end Record

namespace Command

open Build Descriptor

variable {config : Build.Config} {records : List Record}

/-- Each of the `occurrences` is the key of a written method. -/
theorem exists_written_of_mem_occurrences {gaps : Bool} (hwritten : ∀ r ∈ records, r.Written gaps)
    {k : Key} (hk : k ∈ config.occurrences records) :
    ∃ s : Symbol, s.Written gaps ∧ Key.ofSymbol config.rules s = k := by
  -- a method occurs as a declaration, or as what a call of a record names
  rcases Config.mem_occurrences.1 hk with ⟨-, r, hr, rfl⟩ | ⟨_, call, ⟨-, -, r, hr, -, hcall⟩, rfl⟩
  · exact ⟨r.declaration, (hwritten r hr).declaration, rfl⟩
  · exact ⟨_, (hwritten r hr).signature hcall, rfl⟩

/-- `readStart` reads the text of a vertex as that vertex exactly if each of its parameter types is
    `Settled`, which is so where no blank follows an opening bracket of a binary array name. -/
theorem readStart_vertex_iff {gaps : Bool} (herase : config.rules.eraseGenerics = true)
    (hwritten : ∀ r ∈ records, r.Written gaps) {g : CallGraph} {report : Build.Report}
    (hbuild : build config records = .ok (g, report)) {k : Key} (hk : k ∈ g.vertexList) :
    (readStart config.rules (some k.display) = .ok (some k) ↔ ∀ p ∈ k.params, Settled p.toList) ∧
      (gaps = false → ∃ a, readStart config.rules (some k.display) = .ok (some k) ∧
        g.analyze (some k) = .ok a) := by
  obtain ⟨s, hs, hkey⟩ :=
    exists_written_of_mem_occurrences hwritten ((mem_vertexList_of_build hbuild).1 hk)
  have hread := hs.readStart_display_iff herase
  rw [hkey] at hread
  refine ⟨hread, ?_⟩
  rintro rfl
  have hsettled := hs.settled herase
  rw [hkey] at hsettled
  -- the start is a vertex, so that there is a part of the graph for it
  have hstart : ∀ t ∈ some k, t ∈ g.vertexList := by
    rintro t ⟨rfl⟩
    exact hk
  obtain ⟨p, hpart, -⟩ := CallGraph.exists_part hstart
  have hanalyze : g.analyze (some k) = .ok (.ofGraph (some k) p) := by
    rw [CallGraph.analyze, hpart]
    rfl
  exact ⟨_, hread.2 hsettled, hanalyze⟩

/-- A method as a resolver may write it, with blanks around punctuation. -/
def swapSymbol : Symbol := ⟨"app . Box<T>", "swap", ["[Ljava/lang. String;", "int [ ]..."]⟩

/-- Each part of `swapSymbol` with the way in which it is written. -/
theorem written_swapSymbol : swapSymbol.Written false where
  owner := by
    have hname : SourceName [.ofWord "app".toList (by decide) (by decide)]
        (.ofWord "Box".toList (by decide) (by decide)) "app . Box<T>".toList :=
      .qualified .absent (.dot (.singleton (c := ' ') rfl) (.singleton (c := ' ') rfl))
        (.simple (.angled .nil (.cons (c := 'T') (by decide) (by decide) .nil) .nil))
    exact .mk .nil hname .nil
  name := by decide
  nameDot := by decide
  nameOpening := by decide
  types := by
    have hclass : ClassName [.java, .lang] (.ofWord "String".toList (by decide) (by decide))
        "java/lang. String".toList :=
      .qualified (.inl rfl) .nil .nil
        (.qualified (.inr rfl) .nil (.singleton (c := ' ') rfl) .simple)
    -- the array of strings is a binary array name
    have helement : Element ⟨_, _, 1⟩ ('L' :: ("java/lang. String".toList ++ []) ++ [';']) :=
      .named hclass .nil
    have hstrings : JavaType.Written false _ "[Ljava/lang. String;".toList :=
      .binary Nat.one_pos .nil .replicate helement .nil
    have hname : SourceName [] (.ofWord "int".toList (by decide) (by decide)) "int".toList :=
      .simple .absent
    -- the array of arrays is source text, with a variable number of arguments
    have hdims : SourceDims 2 " [ ]...".toList :=
      .bracketed (.singleton (c := ' ') rfl) (.singleton (c := ' ') rfl) (.variadic .nil .nil .nil)
    have hspells := JavaType.Spells.source (t := ⟨_, _, 2⟩) .nil hname hdims .nil
    have hints : JavaType.Written false _ "int [ ]...".toList := .spelled hspells
    exact List.forall_mem_cons.2 ⟨⟨_, hstrings⟩, List.forall_mem_singleton.2 ⟨_, hints⟩⟩

/-- The vertex of `swapSymbol` can be given as a start, as it is shown. -/
theorem readStart_vertex_iff_swap :
    ∃ g report a, build {} [{ declaration := swapSymbol }] = .ok (g, report) ∧
      readStart {} (some "app.Box.swap(String[], int[][])") =
        .ok (some ⟨"app.Box", "swap", ["String[]", "int[][]"]⟩) ∧
      g.analyze (some ⟨"app.Box", "swap", ["String[]", "int[][]"]⟩) = .ok a := by
  have hwritten : ∀ r ∈ [({ declaration := swapSymbol } : Record)], r.Written false := by
    refine List.forall_mem_singleton.2 ⟨written_swapSymbol, ?_, ?_, ?_⟩ <;> simp
  have hexcluded : Config.excluded {} = .ok [] := rfl
  have hvalid : ∀ r ∈ [({ declaration := swapSymbol } : Record)], r.check = .ok () := by
    decide +kernel
  obtain ⟨g, report, hbuild⟩ := exists_build hexcluded hvalid
  have hk : ⟨"app.Box", "swap", ["String[]", "int[][]"]⟩ ∈ g.vertexList := by
    rw [mem_vertexList_of_build hbuild]
    decide +kernel
  obtain ⟨a, hread, hanalyze⟩ := (readStart_vertex_iff rfl hwritten hbuild hk).2 rfl
  exact ⟨g, report, a, hbuild, hread, hanalyze⟩

/-- A method of an array, whose name in the binary form has a gap. -/
def gapRecord : Record where
  declaration := ⟨"app.A", "f", ["[ I"]⟩

/-- The gap in `gapRecord` is behind the opening bracket. -/
theorem written_gapRecord : gapRecord.Written true where
  declaration :=
    { owner := by
        have hname : SourceName [.ofWord "app".toList (by decide) (by decide)]
            (.ofWord "A".toList (by decide) (by decide)) "app.A".toList :=
          .qualified .absent (.dot .nil .nil) (.simple .absent)
        exact .mk .nil hname .nil
      name := by decide
      nameDot := by decide
      nameOpening := by decide
      types := by
        have hopening : Openings true 1 "[ ".toList :=
          .cons (.singleton (c := ' ') rfl) (by simp) .nil
        have helement : Element ⟨[], .ofWord "int".toList (by decide) (by decide), 1⟩ "I".toList :=
          .letter .int rfl rfl
        have hints : JavaType.Written true _ "[ I".toList :=
          .binary Nat.one_pos .nil hopening helement .nil
        exact List.forall_mem_singleton.2 ⟨_, hints⟩ }
  overrides := by simp [gapRecord]
  targets := by simp [gapRecord]
  declaredParams := by simp [gapRecord]

/-- The vertex of `gapRecord` cannot be given as a start: as it is shown, its text names a method
    that is not in the graph. -/
theorem readStart_vertex_unknown :
    gapRecord.Written true ∧ ∃ g report, build {} [gapRecord] = .ok (g, report) ∧
      ⟨"app.A", "f", ["[I"]⟩ ∈ g.vertexList ∧
      readStart {} (some (Key.display ⟨"app.A", "f", ["[I"]⟩)) =
        .ok (some ⟨"app.A", "f", ["int[]"]⟩) ∧
      g.analyze (some ⟨"app.A", "f", ["int[]"]⟩) = .error ⟨⟨"app.A", "f", ["int[]"]⟩⟩ := by
  have hexcluded : Config.excluded {} = .ok [] := rfl
  have hvalid : ∀ r ∈ [gapRecord], r.check = .ok () := by decide +kernel
  obtain ⟨g, report, hbuild⟩ := exists_build hexcluded hvalid
  have hparse : Key.parseCanonical {} (Key.display ⟨"app.A", "f", ["[I"]⟩) =
      .ok ⟨"app.A", "f", ["int[]"]⟩ := by decide +kernel
  refine ⟨written_gapRecord, g, report, hbuild, ?_, by rw [readStart, hparse], ?_⟩
  · rw [mem_vertexList_of_build hbuild]
    decide +kernel
  -- the text names a method that no record has
  · have hunknown : ⟨"app.A", "f", ["int[]"]⟩ ∉ g.vertexList := by
      rw [mem_vertexList_of_build hbuild]
      decide +kernel
    rw [CallGraph.analyze, CallGraph.part, CallGraph.extract_eq_error_iff.2 hunknown]
    rfl

end Command

end CallCycle

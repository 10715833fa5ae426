import CallCycle.Command.Report
import CallCycle.Proofs.Cycles
import CallCycle.Proofs.Drawing
import CallCycle.Proofs.RecordText

/-!
# What is read from what is printed

Commands print values over indented lines, and lists of recursive methods line by line.  This module
reads the output again.  A value is found in its text by `itemsOf`, and its parts are found by their
names and positions; numbers are read from their digits, so that no limit applies to them.  A set of
recursive methods is read by a codec of its own.

## Key results

- `Json.onlyItem?_prettyText`: the item of a printed value
- `Json.Item.member?_item`, `Json.Item.text?_item`, `Json.Item.count?_item`: its parts
- `Command.message?_checkOutcome`, `Command.counts?_checkOutcome`, `Command.counts?_drawing`: what
  is found in the output of a check and of a drawing
- `Command.readText_cyclesPrinted`: a set of recursive methods that was printed is read
- `Command.cyclesText_eq_none_iff`, `Command.mem_linesOf_cyclesText_iff`: what the lines about
  recursive methods say
- `Command.linesOf_unwanted`: the lines of a failure
-/

namespace CallCycle

/-! ## Parts of a printed value -/

namespace Json

/-- The item of a text that has one item. -/
def onlyItem? (text : String) : Option Item :=
  match itemsOf text.toList with
  | [item] => some item
  | _ => none

/-- The item of a member, if it has the given name. -/
def Member.named? (name : String) : Member → Option Item
  | .entry key item =>
    match key.text with
    | .ok text => if text = name then some item else none
    | .error _ => none
  | .cut _ _ => none

namespace Item

/-- The item of the first member with the given name. -/
def member? (name : String) : Item → Option Item
  | .object members .closed => members.findSome? (Member.named? name)
  | _ => none

/-- The element at a position of a list. -/
def element? (i : Nat) : Item → Option Item
  | .list elements .closed => elements[i]?
  | _ => none

/-- The text that an item is. -/
def text? : Item → Option String
  | .quoted q => q.text.toOption
  | _ => none

/-- The natural number that the digits of an item stand for. -/
def count? : Item → Option Nat
  | .number (.complete ⟨false, digits, none, none⟩) => some (natOfDigits 0 digits)
  | _ => none

/-- The numbers of vertices and of edges that an object has. -/
def counts? (item : Item) : Option (Nat × Nat) := do
  let vertices ← item.member? "vertex_count" >>= count?
  let edges ← item.member? "edge_count" >>= count?
  return (vertices, edges)

end Item

/-- `onlyItem?` finds the item of a value that was printed, also with a line feed behind it. -/
theorem onlyItem?_prettyText {v : Value} (hv : v.Integral) :
    onlyItem? v.prettyText = some v.item ∧ onlyItem? (v.prettyText ++ "\n") = some v.item := by
  obtain ⟨hplain, hfeed⟩ := itemsOf_prettyText hv
  rw [onlyItem?, onlyItem?, hplain, hfeed]
  exact ⟨rfl, rfl⟩

namespace Item

/-- `member?` finds the value that an object has for a name. -/
theorem member?_item (name : String) (ms : List (String × Value)) :
    (Value.object ms).item.member? name = (ms.lookup name).map Value.item := by
  rw [Value.item, member?]
  induction ms with
  | nil => rfl
  | cons m ms ih =>
    obtain ⟨key, v⟩ := m
    rw [Value.memberItems, List.findSome?_cons, List.lookup_cons, ih]
    -- the first member of the name is taken in both
    by_cases hkey : key = name
    · simp [Member.named?, QuotedLexeme.plain, hkey]
    · have hne : (name == key) = false := by simpa using Ne.symm hkey
      simp [Member.named?, QuotedLexeme.plain, hkey, hne]

/-- `text?` finds a text. -/
theorem text?_item (s : String) : (Value.string s).item.text? = some s := rfl

/-- `count?` finds a natural number, however large. -/
theorem count?_item (n : Nat) : (Value.nat n).item.count? = some n := by
  -- there is no sign in front of the digits
  have hsign : decide ((n : Int) < 0) = false := by simp
  simp only [Value.nat, Value.item, lexeme_int, hsign, count?, Int.natAbs_natCast,
    natOfDigits_toDigits]

end Item

end Json

open Json

/-! ## Values that are printed -/

/-- What is written of a `Key` is read. -/
theorem Key.lawful_codec (room : Nat) : Key.codec.Lawful (room + 2) := by
  have htext : Codec.string.Lawful (room + 1) := Codec.lawful_string _
  have htexts : Codec.string.list.Lawful (room + 1) :=
    Codec.lawful_list (Codec.lawful_string room)
  refine Codec.lawful_record ?_ _ fun _ => rfl
  refine ⟨Field.lawful_of_written htext fun _ => rfl, by decide, ?_⟩
  refine ⟨Field.lawful_of_written htext fun _ => rfl, by decide, ?_⟩
  exact ⟨Field.lawful_of_written htexts fun _ => rfl, by decide, trivial⟩

/-- What is read of a `Key` from a value is read from its item. -/
theorem Key.agrees_codec : Key.codec.Agrees := by
  refine Codec.agrees_record ?_ _ _ _
  exact ⟨Codec.agrees_string, Codec.agrees_string, Codec.agrees_list Codec.agrees_string, trivial⟩

/-- What is written of a `SkippedCall` is read. -/
theorem SkippedCall.lawful_codec (room : Nat) : SkippedCall.codec.Lawful (room + 3) := by
  have htext : Codec.string.Lawful (room + 2) := Codec.lawful_string _
  have hreason := Codec.lawful_nullable htext nofun
  have hline := Codec.lawful_nullable (lawful_lineCodec (room + 2)) nofun
  refine Codec.lawful_record ?_ _ fun _ => rfl
  refine ⟨Field.lawful_of_written (Key.lawful_codec room) fun _ => rfl, by decide, ?_⟩
  refine ⟨Field.lawful_of_written htext fun _ => rfl, by decide, ?_⟩
  refine ⟨Field.lawful_of_written hreason fun _ => rfl, by decide, ?_⟩
  exact ⟨Field.lawful_of_written hline fun _ => rfl, by decide, trivial⟩

/-- What is written of an `EdgeRow` is read. -/
theorem EdgeRow.lawful_codec (room : Nat) : EdgeRow.codec.Lawful (room + 1) := by
  have htext : Codec.string.Lawful room := Codec.lawful_string _
  have hkind : EdgeKind.codec.Lawful room := by
    refine Codec.lawful_choice (fun kind => ?_) room
    cases kind <;> rfl
  refine Codec.lawful_record ?_ _ fun _ => rfl
  refine ⟨Field.lawful_of_written htext fun _ => rfl, by decide, ?_⟩
  refine ⟨Field.lawful_of_written htext fun _ => rfl, by decide, ?_⟩
  exact ⟨Field.lawful_of_written hkind fun _ => rfl, by decide, trivial⟩

/-- Sets of recursive methods, for reading what `CycleSet.toValue` writes. -/
def CycleSet.codec : Codec CycleSet :=
  .record "CycleSet"
    (.cons { name := "members", codec := .list Key.codec } <|
      .cons { name := "components", codec := .list (.list Key.codec) } .nil)
    (fun (members, components, _) => ⟨members, components⟩)
    (fun c => (c.members, c.components, ()))

/-- What is written of a `CycleSet` is read. -/
theorem CycleSet.lawful_codec (room : Nat) : CycleSet.codec.Lawful (room + 5) := by
  have hkeys : (Codec.list Key.codec).Lawful (room + 4) :=
    Codec.lawful_list (Key.lawful_codec (room + 1))
  have hlists : (Codec.list (Codec.list Key.codec)).Lawful (room + 4) :=
    Codec.lawful_list (Codec.lawful_list (Key.lawful_codec room))
  refine Codec.lawful_record ?_ _ fun _ => rfl
  refine ⟨Field.lawful_of_written hkeys fun _ => rfl, by decide, ?_⟩
  exact ⟨Field.lawful_of_written hlists fun _ => rfl, by decide, trivial⟩

/-- What is read of a `CycleSet` from a value is read from its item. -/
theorem CycleSet.agrees_codec : CycleSet.codec.Agrees := by
  refine Codec.agrees_record ?_ _ _ _
  exact ⟨Codec.agrees_list Key.agrees_codec,
    Codec.agrees_list (Codec.agrees_list Key.agrees_codec), trivial⟩

/-- `CycleSet.toValue` writes what `CycleSet.codec` writes. -/
theorem CycleSet.toValue_codec (c : CycleSet) : CycleSet.codec.toValue c = c.toValue := rfl

/-- The value of a `CycleSet` has no numbers at all. -/
theorem CycleSet.integral_toValue (c : CycleSet) : c.toValue.Integral :=
  ((CycleSet.lawful_codec 0).fits c).integral

/-- The value of an `Analysis` has integers for numbers. -/
theorem Analysis.integral_toValue (a : Analysis) : a.toValue.Integral := by
  -- the parts that have a codec fit, and the two counts are integers
  have hstart := ((Codec.lawful_nullable (Key.lawful_codec 0) nofun).fits a.start).integral
  have hunresolved := ((Codec.lawful_list (SkippedCall.lawful_codec 0)).fits a.unresolved).integral
  refine .object ?_
  simp only [List.forall_mem_cons, List.not_mem_nil, false_implies, implies_true, and_true]
  exact ⟨hstart, a.cycles.integral_toValue, hunresolved, .int _, .int _⟩

/-- The value of a `Snapshot` has integers for numbers. -/
theorem Snapshot.integral_toValue (s : Snapshot) : s.toValue.Integral := by
  have hvertices := ((Codec.lawful_list (Codec.lawful_string 0)).fits s.vertices).integral
  have hedges := ((Codec.lawful_list (EdgeRow.lawful_codec 0)).fits s.edges).integral
  have hunresolved := ((Codec.lawful_list (SkippedCall.lawful_codec 0)).fits s.unresolved).integral
  have hstats : (CallGraph.Stats.codec.toValue s.stats).Integral := by
    refine .object fun m hm => ?_
    -- each of the counts is written as a number
    simp only [Codec.counter, Codec.nat, Row.entries, Bool.false_eq_true, if_false, List.mem_cons,
      List.not_mem_nil, or_false] at hm
    rcases hm with rfl | rfl | rfl | rfl | rfl <;> exact .int _
  refine .object ?_
  simp only [List.forall_mem_cons, List.not_mem_nil, false_implies, implies_true, and_true]
  exact ⟨hstats, hvertices, hedges, hunresolved⟩

/-- `counts?` finds the counts of an `Analysis`. -/
theorem Analysis.counts?_item (a : Analysis) :
    a.toValue.item.counts? = some (a.vertexCount, a.edgeCount) := by
  simp [Item.counts?, Analysis.toValue, Item.member?_item, List.lookup_cons, Item.count?_item]

/-- `counts?` finds the counts of a `Snapshot` in its statistics. -/
theorem Snapshot.counts?_item (s : Snapshot) :
    (s.toValue.item.member? "stats" >>= Item.counts?) =
      some (s.stats.vertexCount, s.stats.edgeCount) := by
  simp [Item.counts?, Snapshot.toValue, CallGraph.Stats.codec, Codec.record, Row.entries,
    Codec.counter, Codec.nat, Item.member?_item, List.lookup_cons, Item.count?_item]

namespace Command

/-- The analysis that a report holds, unless the file could not be checked. -/
def CheckReport.analysis? (r : CheckReport) : Option Analysis :=
  match r.finding with
  | .passed a => some a
  | .failed _ a => some a
  | .failure _ => none

/-- `member?` finds the analysis that a printed report holds. -/
theorem CheckReport.member?_analysis {r : CheckReport} {a : Analysis} (h : r.analysis? = some a) :
    r.toValue.item.member? "analysis" = some a.toValue.item := by
  obtain ⟨file, finding⟩ := r
  -- a report has an analysis unless there was an error
  cases finding with
  | passed b =>
    obtain rfl : b = a := by simpa [CheckReport.analysis?] using h
    simp [CheckReport.toValue, Item.member?_item, List.lookup_cons]
  | failed d b =>
    obtain rfl : b = a := by simpa [CheckReport.analysis?] using h
    simp [CheckReport.toValue, Item.member?_item, List.lookup_cons]
  | failure e => simp [CheckReport.analysis?] at h

/-- `member?` finds the message of a printed report. -/
theorem CheckReport.member?_message (r : CheckReport) :
    (r.toValue.item.member? "message" >>= Item.text?) = r.message? := by
  obtain ⟨file, finding⟩ := r
  cases finding <;>
    simp [CheckReport.toValue, CheckReport.message?, Item.member?_item, List.lookup_cons,
      Item.text?_item]

/-- The value of a `CheckReport` has integers for numbers. -/
theorem CheckReport.integral_toValue (r : CheckReport) : r.toValue.Integral := by
  refine .object ?_
  cases r.finding with
  | passed a =>
    simp only [List.cons_append, List.nil_append, List.forall_mem_cons, List.not_mem_nil,
      false_implies, implies_true, and_true]
    exact ⟨.string _, .string _, a.integral_toValue⟩
  | failed d a =>
    simp only [List.cons_append, List.nil_append, List.forall_mem_cons, List.not_mem_nil,
      false_implies, implies_true, and_true]
    exact ⟨.string _, .string _, .string _, a.integral_toValue⟩
  | failure e =>
    simp only [List.cons_append, List.nil_append, List.forall_mem_cons, List.not_mem_nil,
      false_implies, implies_true, and_true]
    exact ⟨.string _, .string _, .string _⟩

/-- `checkOutcome` prints a list with the value of each report. -/
theorem itemsOf_checkOutcome (reports : List CheckReport) :
    itemsOf (checkOutcome true reports).stdout.toList =
      [.list (reports.map fun r => r.toValue.item) .closed] := by
  -- the values of the reports have integers for numbers
  have hreports : (Value.list (reports.map CheckReport.toValue)).Integral := by
    refine .list fun v hv => ?_
    obtain ⟨r, -, rfl⟩ := List.mem_map.1 hv
    exact r.integral_toValue
  rw [checkOutcome, if_pos rfl, (itemsOf_prettyText hreports).2, Value.item,
    Value.elementItems_eq_map, List.map_map]
  rfl

/-- `element?` finds the only report of a check of one file. -/
theorem element?_checkOutcome (r : CheckReport) :
    (onlyItem? (checkOutcome true [r]).stdout >>= Item.element? 0) = some r.toValue.item := by
  rw [onlyItem?, itemsOf_checkOutcome]
  rfl

/-- `checkOutcome` prints the message of the only report. -/
theorem message?_checkOutcome (r : CheckReport) :
    (onlyItem? (checkOutcome true [r]).stdout >>= Item.element? 0 >>= Item.member? "message" >>=
      Item.text?) = r.message? := by
  rw [element?_checkOutcome]
  exact r.member?_message

/-- `checkOutcome` prints the counts of the analysis of the only report. -/
theorem counts?_checkOutcome {r : CheckReport} {a : Analysis} (h : r.analysis? = some a) :
    (onlyItem? (checkOutcome true [r]).stdout >>= Item.element? 0 >>= Item.member? "analysis" >>=
      Item.counts?) = some (a.vertexCount, a.edgeCount) := by
  rw [element?_checkOutcome]
  simp only [Option.bind_eq_bind, Option.bind_some, CheckReport.member?_analysis h]
  exact a.counts?_item

/-- `drawing` prints the counts of the graph in its JSON form. -/
theorem counts?_drawing (highlight : Bool) (p : CallGraph) :
    (onlyItem? (drawing .json highlight p) >>= Item.member? "stats" >>= Item.counts?) =
      some (p.vertexCount, p.edgeCount) := by
  have hitem := (onlyItem?_prettyText p.snapshot.integral_toValue).1
  simp only [drawing, CallGraph.toJson, hitem]
  exact p.snapshot.counts?_item

/-! ## Recursive methods -/

/-- `cyclesPrinted` prints a value that is read as the set of recursive methods. -/
theorem readText_cyclesPrinted (c : CycleSet) :
    CycleSet.codec.readText (cyclesPrinted true c) = .ok c := by
  have hfits := (CycleSet.lawful_codec 122).fits c
  have hread := (CycleSet.lawful_codec 122).ofValue_toValue c
  rw [CycleSet.toValue_codec] at hfits hread
  exact Codec.readText_prettyText CycleSet.agrees_codec hfits hread

/-- The lines about a component. -/
def componentLines (number : Nat) (component : List Key) : List String :=
  ("  Cycle " ++ toString number) :: component.map fun key => "    " ++ key.display

/-- The lines about recursive methods. -/
def cyclesLines (c : CycleSet) : List String :=
  ("Found " ++ toString c.size ++ " recursive methods in " ++ toString c.components.length ++
    " cycles:") :: "" ::
    (c.components.mapIdx fun i component => componentLines (i + 1) component).flatten

/-- `componentText` is its lines, each with a line feed behind it. -/
theorem toList_componentText (number : Nat) (component : List Key) :
    (componentText number component).toList =
      ((componentLines number component).map String.toList).flatMap (· ++ ['\n']) := by
  simp [componentText, componentLines, String.toList_join, List.flatMap_map, Function.comp_def]

/-- `cyclesText` is its lines, each with a line feed behind it. -/
theorem toList_cyclesText {c : CycleSet} (h : c.isEmpty = false) :
    (cyclesText c).toList = ((cyclesLines c).map String.toList).flatMap (· ++ ['\n']) := by
  -- the texts of the components are put together line by line
  have hcomponents : (c.components.mapIdx fun i component =>
      componentText (i + 1) component).flatMap String.toList =
      ((c.components.mapIdx fun i component => componentLines (i + 1) component).flatten.map
        String.toList).flatMap (· ++ ['\n']) := by
    simp only [List.mapIdx_eq_zipIdx_map, List.flatMap_map, List.flatten_eq_flatMap,
      List.flatMap_assoc, toList_componentText, id_eq]
  simp [cyclesText, h, cyclesLines, String.toList_join, hcomponents]

/-- A text without line feeds and carriage returns is a line. -/
theorem isLine_of_notMem {line : List Char} (hfeed : '\n' ∉ line) (hreturn : '\r' ∉ line) :
    Text.IsLine line :=
  ⟨hfeed, fun hlast => hreturn (List.mem_of_getLast? hlast)⟩

/-- `display` without a line feed is a line, since it ends with a parenthesis. -/
theorem isLine_display {k : Key} (h : '\n' ∉ k.display.toList) :
    Text.IsLine ("    " ++ k.display).toList := by
  -- the parenthesis that closes the parameter list is at the end
  have hend : ∃ front, ("    " ++ k.display).toList = front ++ [')'] :=
    ⟨_, by rw [Key.display, signatureText, ← String.append_assoc, String.toList_append]; rfl⟩
  refine ⟨by simpa using h, ?_⟩
  obtain ⟨front, hend⟩ := hend
  rw [hend, List.getLast?_concat]
  decide

/-- `cyclesLines` are lines if no display text has a line feed. -/
theorem isLine_cyclesLines {c : CycleSet}
    (h : ∀ ks ∈ c.components, ∀ k ∈ ks, '\n' ∉ k.display.toList) :
    ∀ line ∈ (cyclesLines c).map String.toList, Text.IsLine line := by
  -- numbers have digits only
  have hnumber : ∀ {d : Char}, d.isDigit = false → ∀ n, d ∉ Nat.toDigits 10 n := by
    intro d hd n
    simpa using Dot.notMem_toString hd n
  have hfeed : ∀ n, '\n' ∉ Nat.toDigits 10 n := hnumber (by decide)
  have hreturn : ∀ n, '\r' ∉ Nat.toDigits 10 n := hnumber (by decide)
  intro chars hchars
  obtain ⟨line, hline, rfl⟩ := List.mem_map.1 hchars
  simp only [cyclesLines, List.mem_cons, List.mem_flatten, List.mem_mapIdx] at hline
  -- the first line, the empty one, or one of a component
  rcases hline with rfl | rfl | ⟨lines, ⟨i, hi, rfl⟩, hline⟩
  · exact isLine_of_notMem (by simp [hfeed]) (by simp [hreturn])
  · exact isLine_of_notMem (by simp) (by simp)
  · rcases List.mem_cons.1 hline with rfl | hline
    · exact isLine_of_notMem (by simp [hfeed]) (by simp [hreturn])
    · obtain ⟨k, hk, rfl⟩ := List.mem_map.1 hline
      exact isLine_display (h _ (List.getElem_mem hi) k hk)

/-- `cyclesText` has the lines that it was put together from. -/
theorem linesOf_cyclesText {c : CycleSet} (hempty : c.isEmpty = false)
    (h : ∀ ks ∈ c.components, ∀ k ∈ ks, '\n' ∉ k.display.toList) :
    Text.linesOf (cyclesText c) = cyclesLines c := by
  have hlines := Text.lines_flatMap (isLine_cyclesLines h) []
  rw [List.append_nil] at hlines
  rw [Text.linesOf, toList_cyclesText hempty, hlines]
  simp [Text.lines, Function.comp_def]

/-- A line that is indented by four blanks names a method; no other line of `cyclesLines` begins
    like that. -/
theorem mem_cyclesLines_iff {c : CycleSet} {name : String} :
    "    " ++ name ∈ cyclesLines c ↔ ∃ ks ∈ c.components, ∃ k ∈ ks, k.display = name := by
  -- behind the same four blanks stands the same text
  have hcancel : ∀ text : String, "    " ++ name = "    " ++ text ↔ text = name := by
    intro text
    rw [← String.toList_inj, String.toList_append, String.toList_append, List.append_cancel_left_eq,
      String.toList_inj, eq_comm]
  -- the other lines have a letter where this one has a blank
  have hhead : ∀ text : String, "    " ++ name ≠ "Found " ++ text := by
    intro text heq
    simpa using congrArg String.toList heq
  have hcycle : ∀ text : String, "    " ++ name ≠ "  Cycle " ++ text := by
    intro text heq
    simpa using congrArg String.toList heq
  have hblank : "    " ++ name ≠ "" := by
    intro heq
    simpa using congrArg String.toList heq
  simp only [cyclesLines, componentLines, List.mem_cons, List.mem_flatten, List.mem_mapIdx,
    String.append_assoc, hhead, hblank, false_or]
  constructor
  · rintro ⟨lines, ⟨i, hi, rfl⟩, hline⟩
    obtain ⟨k, hk, heq⟩ := List.mem_map.1 ((List.mem_cons.1 hline).resolve_left (hcycle _))
    exact ⟨_, List.getElem_mem hi, k, hk, (hcancel _).1 heq.symm⟩
  · rintro ⟨ks, hks, k, hk, hname⟩
    obtain ⟨i, hi, rfl⟩ := List.getElem_of_mem hks
    refine ⟨_, ⟨i, hi, rfl⟩, List.mem_cons_of_mem _ (List.mem_map.2 ⟨k, hk, ?_⟩)⟩
    exact ((hcancel _).2 hname).symm

/-- `cyclesText` says that there is no recursion iff there is no recursive method. -/
theorem cyclesText_eq_none_iff {c : CycleSet} :
    cyclesText c = "✓ No recursion found\n" ↔ c.members = [] := by
  rw [← List.isEmpty_iff]
  cases hempty : c.members.isEmpty with
  | true => simp [cyclesText, CycleSet.isEmpty, hempty]
  | false =>
    simp only [Bool.false_eq_true, iff_false]
    -- the texts differ in their first character
    intro heq
    simpa [cyclesText, CycleSet.isEmpty, hempty] using congrArg String.toList heq

/-- The lines of `cyclesText` name exactly the recursive methods of a graph, if no display text of
    theirs has a line feed. -/
theorem mem_linesOf_cyclesText_iff {g : CallGraph}
    (h : ∀ k ∈ g.cycles.members, '\n' ∉ k.display.toList) {name : String} :
    "    " ++ name ∈ Text.linesOf (cyclesText g.cycles) ↔
      ∃ k ∈ g.cycles.members, k.display = name := by
  cases hempty : g.cycles.isEmpty with
  | true =>
    have hmembers : g.cycles.members = [] := List.isEmpty_iff.1 hempty
    -- the only line is not indented
    have hline : Text.linesOf "✓ No recursion found\n" = ["✓ No recursion found"] := by
      decide +kernel
    rw [cyclesText_eq_none_iff.2 hmembers, hmembers, hline]
    simp [← String.toList_inj]
  | false =>
    have hlines := linesOf_cyclesText hempty fun ks hks k hk =>
      h k (CallGraph.mem_members_iff_exists.2 ⟨ks, hks, hk⟩)
    rw [hlines, mem_cyclesLines_iff]
    constructor
    · rintro ⟨ks, hks, k, hk, hname⟩
      exact ⟨k, CallGraph.mem_members_iff_exists.2 ⟨ks, hks, hk⟩, hname⟩
    · rintro ⟨k, hk, hname⟩
      obtain ⟨ks, hks, hk⟩ := CallGraph.mem_members_iff_exists.1 hk
      exact ⟨ks, hks, k, hk, hname⟩

/-! ## Failures -/

/-- No character of a list of texts is a line feed if none of the texts has one. -/
theorem feed_notMem_intercalate {texts : List String} (h : ∀ s ∈ texts, '\n' ∉ s.toList) :
    '\n' ∉ (", ".intercalate texts).toList := by
  induction texts with
  | nil => simp
  | cons s texts ih =>
    obtain ⟨hs, htexts⟩ := List.forall_mem_cons.1 h
    cases texts with
    | nil => simpa using hs
    | cons s' texts =>
      have hrest := ih htexts
      rw [String.intercalate_cons_cons]
      simp only [String.toList_append, List.mem_append, not_or]
      exact ⟨⟨hs, by decide⟩, hrest⟩

/-- `linesOf` finds a text without line feeds behind the first line. -/
theorem linesOf_two {first rest : String} (hfirst : Text.IsLine first.toList)
    (hrest : '\n' ∉ rest.toList) (hne : rest ≠ "") :
    Text.linesOf (first ++ "\n" ++ rest) = [first, rest] := by
  -- what stands behind the last line feed is a line if it is not empty
  have hlines : Text.lines [] rest.toList = [rest.toList] := by
    have happend := Text.lines_append hrest [] []
    rw [List.append_nil, List.append_nil] at happend
    have hne' : rest.toList ≠ [] := by simpa using hne
    rw [happend, Text.lines.eq_2 _ (by simpa using hne'), List.reverse_reverse]
  have hlist : ∀ l ∈ [first.toList], Text.IsLine l := by simpa using hfirst
  have hall := Text.lines_flatMap hlist rest.toList
  rw [hlines] at hall
  rw [Text.linesOf, String.toList_append, String.toList_append]
  simpa using congrArg (List.map String.ofList) hall

/-- `Diagnostic.message` for unwanted recursion has two lines, of which the second names the
    recursive methods. -/
theorem linesOf_unwanted {d : Diagnostic} (hkind : d.kind = .unwantedRecursion)
    (hmembers : d.cycles.members ≠ []) (hfeed : ∀ k ∈ d.cycles.members, '\n' ∉ k.display.toList) :
    Text.linesOf d.message =
      ["Unwanted recursion found:", ", ".intercalate (d.cycles.members.map Key.display)] := by
  -- neither a name nor a comma breaks the line
  have hnames : '\n' ∉ (", ".intercalate (d.cycles.members.map Key.display)).toList :=
    feed_notMem_intercalate (by simpa using hfeed)
  -- there is a name, and it has a parenthesis
  have hsome : ", ".intercalate (d.cycles.members.map Key.display) ≠ "" := by
    obtain ⟨k, ks, hcons⟩ := List.exists_cons_of_ne_nil hmembers
    intro hnone
    have htext := congrArg String.toList hnone
    rw [hcons] at htext
    cases ks <;> simp [String.intercalate_cons_cons, Key.display, signatureText] at htext
  have hfirst : "Unwanted recursion found:\n" = "Unwanted recursion found:" ++ "\n" := by decide
  have hline : Text.IsLine "Unwanted recursion found:".toList :=
    isLine_of_notMem (by simp) (by simp)
  simp only [Diagnostic.message, hkind, hfirst]
  exact linesOf_two hline hnames hsome

/-- What `checkText` prints about a single check that passed. -/
theorem checkText_of_passed {r : CheckReport} {a : Analysis} (h : r.finding = .passed a) :
    checkText [r] = "✓ " ++ r.file ++ "\n\n1 passed, 0 failed\n" := by
  obtain ⟨file, finding⟩ := r
  obtain rfl : finding = .passed a := h
  -- there is no message to be indented
  have htext : CheckReport.text ⟨file, .passed a⟩ = "✓ " ++ file ++ "\n" := by
    simp [CheckReport.text, CheckReport.message?, show Text.linesOf "" = [] from rfl]
  have hpassed : [⟨file, .passed a⟩].countP CheckReport.isPassed = 1 := rfl
  have hfailed : [⟨file, .passed a⟩].countP CheckReport.isFailed = 0 := rfl
  simp only [checkText, List.map_cons, List.map_nil, htext, hpassed, hfailed, String.join_cons,
    String.join_nil, String.empty_append, String.append_assoc]
  rfl

/-- What `checkText` prints about a single check that failed: its message, indented. -/
theorem checkText_of_failed {r : CheckReport} {d : Diagnostic} {a : Analysis}
    (h : r.finding = .failed d a) :
    checkText [r] = "✗ " ++ r.file ++ "\n" ++
      String.join ((Text.linesOf d.message).map fun line => "    " ++ line ++ "\n") ++
      "\n0 passed, 1 failed\n" := by
  obtain ⟨file, finding⟩ := r
  obtain rfl : finding = .failed d a := h
  have hpassed : [⟨file, .failed d a⟩].countP CheckReport.isPassed = 0 := rfl
  have hfailed : [⟨file, .failed d a⟩].countP CheckReport.isFailed = 1 := rfl
  simp only [checkText, List.map_cons, List.map_nil, CheckReport.text, CheckReport.message?,
    Option.getD_some, hpassed, hfailed, String.join_cons, String.join_nil, String.empty_append,
    String.append_assoc]
  rfl

end Command

end CallCycle

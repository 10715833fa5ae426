import CallCycle.Export.Dot
import CallCycle.Proofs.CallGraph
import CallCycle.Proofs.KeyText

/-!
# What a drawing shows

A drawing is read line by line.  No label breaks a line, so behind the first line stands a line for
each vertex, in order, and the end of that line tells whether the vertex is red.  The line of an
edge is found by the positions of its ends, which no other line begins with; what follows them tells
whether the edge is dashed, and the end whether it is red.

## Key results

- `Text.lines_flatMap`: lines that were put together are found again
- `Dot.edgeFront_prefix_edgeRow_iff`, `Dot.not_edgeFront_prefix_vertexRow`: the lines of edges
- `Dot.lines_render`: the lines of a drawing
- `Dot.showsRed_render_iff`: the vertices shown in red are those that are marked
- `Dot.showsRedEdge_render_iff`, `Dot.showsDashedEdge_render_iff`: how edges are shown
-/

namespace CallCycle

namespace Text

/-! ## Lines -/

/-- A line that is found again: it has no line feed, and no carriage return at its end. -/
structure IsLine (line : List Char) : Prop where
  noFeed : '\n' ∉ line
  noReturn : line.getLast? ≠ some '\r'

/-- `lines` takes characters into the current line. -/
theorem lines_append {front : List Char} (h : '\n' ∉ front) (line rest : List Char) :
    lines line (front ++ rest) = lines (front.reverse ++ line) rest := by
  induction front generalizing line with
  | nil => rfl
  | cons c front ih =>
    have hc : c ≠ '\n' := fun heq => h (heq ▸ List.mem_cons_self)
    have hrest := ih (fun hmem => h (List.mem_cons_of_mem _ hmem)) (c :: line)
    rw [List.cons_append, lines, hrest]
    · simp
    · exact hc

/-- `lines` ends a line at a line feed. -/
theorem lines_feed {line : List Char} (h : line.head? ≠ some '\r') (rest : List Char) :
    lines line ('\n' :: rest) = line.reverse :: lines [] rest := by
  rw [lines]
  intro line' heq
  exact h (by rw [heq]; rfl)

/-- `lines` finds lines that were put together, each with a line feed behind it, in front of
    whatever follows. -/
theorem lines_flatMap {ls : List (List Char)} (h : ∀ l ∈ ls, IsLine l) (rest : List Char) :
    lines [] (ls.flatMap (· ++ ['\n']) ++ rest) = ls ++ lines [] rest := by
  induction ls with
  | nil => rfl
  | cons l ls ih =>
    obtain ⟨hfeed, hreturn⟩ := h l List.mem_cons_self
    have hrest := ih fun l' hl' => h l' (List.mem_cons_of_mem _ hl')
    -- the last character of the line is no carriage return
    have hhead : (l.reverse ++ []).head? ≠ some '\r' := by
      rwa [List.append_nil, List.head?_reverse]
    rw [List.flatMap_cons, List.append_assoc, List.append_assoc, lines_append hfeed,
      List.singleton_append, lines_feed hhead, hrest, List.append_nil, List.reverse_reverse,
      List.cons_append]

end Text

namespace Dot

open Text

/-! ## Lines of vertices -/

/-- `escapeLabel` does not break a line. -/
theorem feed_notMem_escapeLabel (label : String) : '\n' ∉ escapeLabel label := by
  intro hmem
  obtain ⟨c, -, hc⟩ := List.mem_flatMap.1 hmem
  split at hc
  · exact absurd hc (by decide)
  · exact absurd hc (by decide)
  · exact absurd hc (by decide)
  · next hfeed => exact hfeed (List.mem_singleton.1 hc).symm

/-- A number is written in digits. -/
theorem notMem_toString {c : Char} (h : c.isDigit = false) (n : Nat) : c ∉ (toString n).toList := by
  intro hmem
  rw [Nat.toString_eq_repr, Nat.toList_repr] at hmem
  have hdigit := Nat.isDigit_of_mem_toDigits (by omega) (by omega) hmem
  rw [h] at hdigit
  exact absurd hdigit (by decide)

/-- The line of a vertex up to its attributes. -/
def vertexFront (i : Nat) (label : String) : List Char :=
  "    ".toList ++ ((toString i).toList ++ (" [ label = \"".toList ++ escapeLabel label))

/-- The end of the line of a red vertex. -/
def redEnd : String := "color = red fontcolor = red ]"

/-- The line of a vertex, without the line feed. -/
def vertexRow (i : Nat) (label : String) (a : Attributes) : List Char :=
  vertexFront i label ++ ("\" ".toList ++ (if a.red then redEnd else "]").toList)

/-- `vertexLine` is a row and a line feed. -/
theorem toList_vertexLine (i : Nat) (label : String) (a : Attributes) :
    (vertexLine i label a).toList = vertexRow i label a ++ ['\n'] := by
  have hend : (if a.red then "color = red fontcolor = red " else "").toList ++ "]\n".toList =
      (if a.red then redEnd else "]").toList ++ ['\n'] := by
    cases a.red <;> decide
  simp only [vertexLine, vertexRow, vertexFront, String.toList_append, String.toList_ofList,
    List.append_assoc, hend]

/-- `vertexRow` is one line. -/
theorem isLine_vertexRow (i : Nat) (label : String) (a : Attributes) :
    IsLine (vertexRow i label a) := by
  constructor
  -- the label is escaped, and the position has digits only
  · have hfront : '\n' ∉ vertexFront i label := by
      simp only [vertexFront, List.mem_append, not_or]
      exact ⟨by decide, notMem_toString rfl i, by decide, feed_notMem_escapeLabel label⟩
    have hend : '\n' ∉ (if a.red then redEnd else "]").toList := by cases a.red <;> decide
    simp only [vertexRow, List.mem_append, not_or]
    exact ⟨hfront, by decide, hend⟩
  -- with or without colour, the line ends with a bracket
  · have hlast : (if a.red then redEnd else "]").toList.getLast? = some ']' := by
      cases a.red <;> decide
    simp only [vertexRow, List.getLast?_append, hlast, Option.some_or]
    decide

/-- The end of `vertexRow` tells whether the vertex is red. -/
theorem redEnd_suffix_vertexRow_iff {i : Nat} {label : String} {a : Attributes} :
    redEnd.toList <:+ vertexRow i label a ↔ a.red = true := by
  cases hred : a.red with
  | true =>
    simp only [vertexRow, hred, if_true, ← List.append_assoc]
    exact iff_of_true (List.suffix_append _ _) trivial
  | false =>
    -- the line ends with a quote, a space and a bracket, and the end of a red one does not
    refine iff_of_false (fun hsuffix => ?_) (by decide)
    have hquote : "\" ".toList ++ "]".toList <:+ vertexRow i label a := by
      simp only [vertexRow, hred, Bool.false_eq_true, if_false]
      exact List.suffix_append _ _
    have hshort := List.suffix_of_suffix_length_le hquote hsuffix (by decide)
    exact absurd hshort (by decide)

/-! ## Lines of edges -/

/-- The line of an edge up to its attributes. -/
def edgeFront (i j : Nat) : List Char :=
  "    ".toList ++ ((toString i).toList ++ (" -> ".toList ++ ((toString j).toList ++ " [ ".toList)))

/-- What follows in the line of a dashed edge. -/
def dashedStart : String := "style = dashed "

/-- The end of the line of a red edge. -/
def redEdgeEnd : String := "color = red ]"

/-- The line of an edge, without the line feed. -/
def edgeRow (i j : Nat) (a : Attributes) : List Char :=
  edgeFront i j ++
    ((if a.dashed then dashedStart else "").toList ++ (if a.red then redEdgeEnd else "]").toList)

/-- `edgeLine` is a row and a line feed. -/
theorem toList_edgeLine (i j : Nat) (a : Attributes) :
    (edgeLine i j a).toList = edgeRow i j a ++ ['\n'] := by
  have hend : (if a.red then "color = red " else "").toList ++ "]\n".toList =
      (if a.red then redEdgeEnd else "]").toList ++ ['\n'] := by
    cases a.red <;> decide
  simp only [edgeLine, edgeRow, edgeFront, dashedStart, String.toList_append, List.append_assoc,
    hend]

/-- `edgeRow` is one line. -/
theorem isLine_edgeRow (i j : Nat) (a : Attributes) : IsLine (edgeRow i j a) := by
  constructor
  · have hfront : '\n' ∉ edgeFront i j := by
      simp only [edgeFront, List.mem_append, not_or]
      exact ⟨by decide, notMem_toString rfl i, by decide, notMem_toString rfl j, by decide⟩
    have hdashed : '\n' ∉ (if a.dashed then dashedStart else "").toList := by
      cases a.dashed <;> decide
    have hend : '\n' ∉ (if a.red then redEdgeEnd else "]").toList := by cases a.red <;> decide
    simp only [edgeRow, List.mem_append, not_or]
    exact ⟨hfront, hdashed, hend⟩
  · have hlast : (if a.red then redEdgeEnd else "]").toList.getLast? = some ']' := by
      cases a.red <;> decide
    simp only [edgeRow, List.getLast?_append, hlast, Option.some_or]
    decide

/-- The end of `edgeRow` tells whether the edge is red. -/
theorem redEdgeEnd_suffix_edgeRow_iff {i j : Nat} {a : Attributes} :
    redEdgeEnd.toList <:+ edgeRow i j a ↔ a.red = true := by
  cases hred : a.red with
  | true =>
    simp only [edgeRow, hred, if_true, ← List.append_assoc]
    exact iff_of_true (List.suffix_append _ _) trivial
  | false =>
    refine iff_of_false (fun hsuffix => ?_) (by decide)
    -- the line ends with the bracket that opens the attributes, or with the dashes
    cases hdashed : a.dashed with
    | true =>
      have hdashes : dashedStart.toList ++ "]".toList <:+ edgeRow i j a := by
        simp only [edgeRow, hred, hdashed, if_true, Bool.false_eq_true, if_false]
        exact List.suffix_append _ _
      exact absurd (List.suffix_of_suffix_length_le hsuffix hdashes (by decide)) (by decide)
    | false =>
      have hbracket : " [ ".toList ++ "]".toList <:+ edgeRow i j a := by
        refine ⟨"    ".toList ++ ((toString i).toList ++ (" -> ".toList ++
          (toString j).toList)), ?_⟩
        simp [edgeRow, edgeFront, hred, hdashed]
      exact absurd (List.suffix_of_suffix_length_le hbracket hsuffix (by decide)) (by decide)

/-- What follows the positions in `edgeRow` tells whether the edge is dashed. -/
theorem dashedStart_prefix_edgeRow_iff {i j : Nat} {a : Attributes} :
    edgeFront i j ++ dashedStart.toList <+: edgeRow i j a ↔ a.dashed = true := by
  rw [edgeRow, List.prefix_append_right_inj]
  cases a.dashed with
  | true => exact iff_of_true (List.prefix_append _ _) rfl
  | false => cases a.red <;> decide

/-- Numbers that are written alike are the same. -/
theorem eq_of_toList_toString {i j : Nat} (h : (toString i).toList = (toString j).toList) :
    i = j := by
  -- a number can be read back from its digits
  have hvalue : ∀ n, Nat.ofDigitChars 10 (toString n).toList 0 = n := by
    intro n
    rw [Nat.toString_eq_repr, Nat.toList_repr]
    exact Nat.ofDigitChars_toDigits (by omega) (by omega)
  rw [← hvalue i, h, hvalue]

/-- A number ends at the first space behind it. -/
theorem eq_and_prefix_of_toString {i j : Nat} {as bs : List Char}
    (h : (toString i).toList ++ ' ' :: as <+: (toString j).toList ++ ' ' :: bs) :
    i = j ∧ as <+: bs := by
  obtain ⟨rest, hrest⟩ := h
  rw [List.append_assoc, List.cons_append] at hrest
  -- both numbers are what stands in front of the first space
  have hi := splitFirst?_eq_some_iff.2 ⟨hrest.symm, notMem_toString rfl i⟩
  have hj : splitFirst? ' ' ((toString j).toList ++ ' ' :: bs) = some ((toString j).toList, bs) :=
    splitFirst?_eq_some_iff.2 ⟨rfl, notMem_toString rfl j⟩
  rw [hi, Option.some.injEq, Prod.mk.injEq] at hj
  exact ⟨eq_of_toList_toString hj.1, rest, hj.2⟩

/-- `edgeRow` begins with its own positions only. -/
theorem edgeFront_prefix_edgeRow_iff {i j i' j' : Nat} {a : Attributes} :
    edgeFront i j <+: edgeRow i' j' a ↔ i = i' ∧ j = j' := by
  -- a space ends each of the two positions
  have harrow : " -> ".toList = ' ' :: "-> ".toList := by decide
  have hbracket : " [ ".toList = ' ' :: "[ ".toList := by decide
  constructor
  · intro h
    simp only [edgeRow, edgeFront, harrow, hbracket, List.append_assoc, List.cons_append,
      List.prefix_append_right_inj] at h
    obtain ⟨hi, hrest⟩ := eq_and_prefix_of_toString h
    rw [List.prefix_append_right_inj] at hrest
    exact ⟨hi, (eq_and_prefix_of_toString hrest).1⟩
  · rintro ⟨rfl, rfl⟩
    exact List.prefix_append _ _

/-- `vertexRow` is not taken for the line of an edge. -/
theorem not_edgeFront_prefix_vertexRow {i j k : Nat} {label : String} {a : Attributes} :
    ¬ edgeFront i j <+: vertexRow k label a := by
  have harrow : " -> ".toList = ' ' :: '-' :: "> ".toList := by decide
  have hlabel : " [ label = \"".toList = ' ' :: '[' :: " label = \"".toList := by decide
  intro h
  simp only [vertexRow, vertexFront, edgeFront, harrow, hlabel, List.append_assoc, List.cons_append,
    List.prefix_append_right_inj] at h
  -- behind the position stands an arrow, and not the bracket of a vertex
  obtain ⟨-, hrest⟩ := eq_and_prefix_of_toString h
  exact absurd (List.cons_prefix_cons.1 hrest).1 (by decide)

/-! ## Drawings -/

/-- The lines of the vertices of a graph. -/
def vertexRows (g : CallGraph) (marked : List Key) : List (List Char) :=
  g.vertexList.zipIdx.map fun v =>
    vertexRow v.2 v.1.display { red := (Std.TreeSet.ofList marked).contains v.1 }

/-- The lines of the edges of a graph. -/
def edgeRows (g : CallGraph) (marked : List Key) : List (List Char) :=
  (arrows g (.ofList marked)).map fun a => edgeRow a.source a.target a.attributes

/-- All lines of a drawing. -/
def rows (g : CallGraph) (marked : List Key) : List (List Char) :=
  "digraph \x7b".toList :: (vertexRows g marked ++ (edgeRows g marked ++ ["\x7d".toList]))

/-- `render` is its rows, each with a line feed behind it. -/
theorem toList_render (g : CallGraph) (marked : List Key) :
    (render g marked).toList = (rows g marked).flatMap (· ++ ['\n']) := by
  have hhead : "digraph \x7b\n".toList = "digraph \x7b".toList ++ ['\n'] := by decide
  have hlast : "\x7d\n".toList = "\x7d".toList ++ ['\n'] := by decide
  simp only [render, String.toList_append, String.toList_join, List.flatMap_map, rows, vertexRows,
    edgeRows, toList_vertexLine, toList_edgeLine, List.flatMap_cons, List.flatMap_append, hhead,
    hlast, List.append_assoc, List.flatMap_nil, List.append_nil]

/-- Each of the `rows` is one line. -/
theorem isLine_of_mem_rows {g : CallGraph} {marked : List Key} {line : List Char}
    (h : line ∈ rows g marked) : IsLine line := by
  simp only [rows, vertexRows, edgeRows, List.mem_cons, List.mem_append, List.mem_map,
    List.not_mem_nil, or_false] at h
  obtain rfl | ⟨v, -, rfl⟩ | ⟨a, -, rfl⟩ | rfl := h
  · exact ⟨by decide, by decide⟩
  · exact isLine_vertexRow _ _ _
  · exact isLine_edgeRow _ _ _
  · exact ⟨by decide, by decide⟩

/-- `lines` finds the rows of a drawing: behind the first one those of the vertices, in order, and
    then those of the edges. -/
theorem lines_render (g : CallGraph) (marked : List Key) :
    lines [] (render g marked).toList = rows g marked := by
  have hlines : ∀ l ∈ rows g marked, IsLine l := fun l hl => isLine_of_mem_rows hl
  rw [toList_render, ← List.append_nil (List.flatMap _ _), lines_flatMap hlines, lines,
    List.append_nil]

/-- Whether a drawing shows the vertex at a position in red.  The lines of the vertices stand behind
    the first line. -/
def showsRed (drawing : String) (i : Nat) : Bool :=
  (linesOf drawing)[i + 1]?.any fun line => redEnd.toList.isSuffixOf line.toList

/-- `render` shows those vertices in red that are marked. -/
theorem showsRed_render_iff {g : CallGraph} {marked : List Key} {i : Nat} {k : Key}
    (h : g.vertexList[i]? = some k) : showsRed (render g marked) i = true ↔ k ∈ marked := by
  -- the row of the vertex is at its position
  have hrow : (vertexRows g marked)[i]? =
      some (vertexRow i k.display { red := (Std.TreeSet.ofList marked).contains k }) := by
    simp [vertexRows, h]
  have hlt : i < (vertexRows g marked).length := (List.getElem?_eq_some_iff.1 hrow).1
  -- and one line further on in the drawing
  have hline : (linesOf (render g marked))[i + 1]? =
      some (String.ofList
        (vertexRow i k.display { red := (Std.TreeSet.ofList marked).contains k })) := by
    rw [linesOf, lines_render, List.getElem?_map, rows, List.getElem?_cons_succ,
      List.getElem?_append_left hlt, hrow]
    rfl
  rw [showsRed, hline, Option.any_some, String.toList_ofList, List.isSuffixOf_iff_suffix,
    redEnd_suffix_vertexRow_iff]
  simp

/-! ## Edges in drawings -/

/-- Whether some line of a drawing is that of an edge between two positions and passes a test. -/
def showsEdge (drawing : String) (i j : Nat) (test : List Char → Bool) : Bool :=
  (linesOf drawing).any fun line => (edgeFront i j).isPrefixOf line.toList && test line.toList

/-- Whether a drawing shows the edge between two positions in red. -/
def showsRedEdge (drawing : String) (i j : Nat) : Bool :=
  showsEdge drawing i j fun line => redEdgeEnd.toList.isSuffixOf line

/-- Whether a drawing shows the edge between two positions with dashes. -/
def showsDashedEdge (drawing : String) (i j : Nat) : Bool :=
  showsEdge drawing i j fun line => (edgeFront i j ++ dashedStart.toList).isPrefixOf line

section Edge

variable {g : CallGraph} {marked : List Key} {e : Edge} {i j : Nat}

/-- `arrows` are those of the edges. -/
theorem mem_arrows_iff {marked : Std.TreeSet Key} {a : Arrow} :
    a ∈ arrows g marked ↔ ∃ e ∈ g.edgeList, arrow g marked e = a := by
  simp only [arrows, List.mem_append, List.mem_mergeSort, List.mem_filter, List.mem_map,
    Bool.not_eq_true']
  cases a.attributes.dashed <;> simp

/-- `indexOf?` is the position of a vertex. -/
theorem indexOf?_getD {k : Key} (h : g.vertexList[i]? = some k) : (g.indexOf? k).getD 0 = i := by
  have hindex : g.indexOf? k = some i := (g.index_iff k i).2 h
  rw [hindex, Option.getD_some]

/-- At `indexOf?` stands the vertex. -/
theorem getElem?_indexOf? {k : Key} (h : k ∈ g.vertexList) :
    g.vertexList[(g.indexOf? k).getD 0]? = some k := by
  obtain ⟨i, hi⟩ := List.getElem?_of_mem h
  rw [indexOf?_getD hi]
  exact hi

variable (he : e ∈ g.edgeList) (hi : g.vertexList[i]? = some e.source)
  (hj : g.vertexList[j]? = some e.target)

include he hi hj

/-- No other edge has the same positions. -/
theorem eq_of_arrow_eq {marked : Std.TreeSet Key} {e' : Edge} (he' : e' ∈ g.edgeList)
    (hsource : i = (arrow g marked e').source) (htarget : j = (arrow g marked e').target) :
    e' = e := by
  obtain ⟨hsource', htarget'⟩ := CallGraph.mem_vertexList_of_mem_edgeList he'
  have hi' : g.vertexList[i]? = some e'.source := hsource ▸ getElem?_indexOf? hsource'
  have hj' : g.vertexList[j]? = some e'.target := htarget ▸ getElem?_indexOf? htarget'
  -- the positions are those of one pair of vertices, and there is one edge between these
  have hends : e'.ends = e.ends := by
    rw [hi, Option.some.injEq] at hi'
    rw [hj, Option.some.injEq] at hj'
    rw [Edge.ends, Edge.ends, hi', hj']
  exact List.inj_on_of_nodup_map g.nodup_ends he' he hends

/-- The line of an edge is the one that begins with the positions of its ends. -/
theorem mem_rows_edge_iff {line : List Char} :
    line ∈ rows g marked ∧ edgeFront i j <+: line ↔
      line = edgeRow i j (arrow g (.ofList marked) e).attributes := by
  constructor
  · rintro ⟨hmem, hfront⟩
    -- the first and the last line are not indented, and that of a vertex has no arrow
    have hblank : "    ".toList <+: line := (List.prefix_append _ _).trans hfront
    simp only [rows, vertexRows, edgeRows, List.mem_cons, List.mem_append, List.mem_map,
      List.not_mem_nil, or_false] at hmem
    obtain rfl | ⟨v, -, rfl⟩ | ⟨a, ha, rfl⟩ | rfl := hmem
    · exact absurd hblank (by decide)
    · exact absurd hfront not_edgeFront_prefix_vertexRow
    · obtain ⟨e', he', rfl⟩ := mem_arrows_iff.1 ha
      obtain ⟨hsource, htarget⟩ := edgeFront_prefix_edgeRow_iff.1 hfront
      obtain rfl := eq_of_arrow_eq he hi hj he' hsource htarget
      rw [← hsource, ← htarget]
    · exact absurd hblank (by decide)
  · rintro rfl
    refine ⟨?_, List.prefix_append _ _⟩
    have hrow : edgeRow i j (arrow g (.ofList marked) e).attributes ∈ edgeRows g marked := by
      refine List.mem_map.2 ⟨_, mem_arrows_iff.2 ⟨e, he, rfl⟩, ?_⟩
      rw [arrow, indexOf?_getD hi, indexOf?_getD hj]
    exact List.mem_cons_of_mem _ (List.mem_append_right _ (List.mem_append_left _ hrow))

/-- An edge passes a test iff its line does. -/
theorem showsEdge_render_iff {test : List Char → Bool} :
    showsEdge (render g marked) i j test = true ↔
      test (edgeRow i j (arrow g (.ofList marked) e).attributes) = true := by
  -- there is exactly one line to look at
  have hline : ∀ line, line ∈ rows g marked ∧ edgeFront i j <+: line ↔
      line = edgeRow i j (arrow g (.ofList marked) e).attributes :=
    fun line => mem_rows_edge_iff he hi hj
  rw [showsEdge, linesOf, lines_render, List.any_map, List.any_eq_true]
  simp only [Function.comp_apply, String.toList_ofList, Bool.and_eq_true,
    List.isPrefixOf_iff_prefix]
  constructor
  · rintro ⟨line, hmem, hfront, htest⟩
    rwa [← (hline line).1 ⟨hmem, hfront⟩]
  · intro htest
    obtain ⟨hmem, hfront⟩ := (hline _).2 rfl
    exact ⟨_, hmem, hfront, htest⟩

/-- `render` shows those edges in red that are between vertices that are marked. -/
theorem showsRedEdge_render_iff :
    showsRedEdge (render g marked) i j = true ↔ e.source ∈ marked ∧ e.target ∈ marked := by
  rw [showsRedEdge, showsEdge_render_iff he hi hj, List.isSuffixOf_iff_suffix,
    redEdgeEnd_suffix_edgeRow_iff]
  simp [arrow]

/-- `render` shows those edges with dashes that are of dispatch. -/
theorem showsDashedEdge_render_iff :
    showsDashedEdge (render g marked) i j = true ↔ e.kind = .dispatches := by
  rw [showsDashedEdge, showsEdge_render_iff he hi hj, List.isPrefixOf_iff_prefix,
    dashedStart_prefix_edgeRow_iff]
  simp [arrow]

end Edge

end Dot

end CallCycle

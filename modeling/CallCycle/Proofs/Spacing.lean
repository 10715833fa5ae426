import CallCycle.Descriptor.Spacing

/-!
# Blanks around and inside descriptors

How trimming and tightening act on a text that is given in pieces.  After punctuation, and at the
beginning, tightening starts afresh, so that the pieces of a text between punctuation can be looked
at one by one.

## Key results

- `trim_blanks`, `exists_trim_cons`: trimming a text with blanks at its ends
- `tightenAfter_punctuation`: punctuation swallows the blanks before it, and nothing carries over
- `tightenAfter_word`: a text without blanks stays as it is
- `tighten_trim`: trimming does nothing that tightening does not
-/

namespace CallCycle

namespace Text

/-- A text of blanks only. -/
def Blank (ws : List Char) : Prop :=
  ∀ c ∈ ws, isBlank c = true

/-- The empty text is `Blank`. -/
theorem Blank.nil : Blank [] := nofun

/-- A blank character is a `Blank` text. -/
theorem Blank.singleton {c : Char} (h : isBlank c = true) : Blank [c] := by
  simpa [Blank] using h

/-- The first character of a `Blank` text is blank. -/
theorem Blank.head {c : Char} {ws : List Char} (h : Blank (c :: ws)) : isBlank c = true :=
  h c List.mem_cons_self

/-- A `Blank` text is so without its first character. -/
theorem Blank.tail {c : Char} {ws : List Char} (h : Blank (c :: ws)) : Blank ws :=
  fun d hd => h d (List.mem_cons_of_mem c hd)

/-! ## Trimming -/

/-- `trimStart` drops blanks in front. -/
theorem trimStart_blanks {ws : List Char} (h : Blank ws) (cs : List Char) :
    trimStart (ws ++ cs) = trimStart cs :=
  List.dropWhile_append_of_pos h

/-- `trimStart` leaves a text that starts with another character. -/
theorem trimStart_cons {c : Char} (h : isBlank c = false) (cs : List Char) :
    trimStart (c :: cs) = c :: cs :=
  List.dropWhile_cons_of_neg (by simp [h])

/-- `trimEnd` drops blanks at the end. -/
theorem trimEnd_blanks {ws : List Char} (h : Blank ws) (cs : List Char) :
    trimEnd (cs ++ ws) = trimEnd cs := by
  have hrev : ∀ c ∈ ws.reverse, isBlank c = true := fun c hc => h c (List.mem_reverse.1 hc)
  rw [trimEnd, List.reverse_append, List.dropWhile_append_of_pos hrev, trimEnd]

/-- `trimEnd` leaves a first character that is not blank. -/
theorem trimEnd_cons {c : Char} (h : isBlank c = false) (cs : List Char) :
    trimEnd (c :: cs) = c :: trimEnd cs := by
  rw [trimEnd, trimEnd, List.reverse_cons, List.dropWhile_append]
  split
  -- what follows are blanks, and all of it goes
  · next hnil => simp [List.isEmpty_iff.1 hnil, h]
  · simp

/-- `trimEnd` leaves a text that ends with another character. -/
theorem trimEnd_concat {c : Char} (h : isBlank c = false) (cs : List Char) :
    trimEnd (cs ++ [c]) = cs ++ [c] := by
  rw [trimEnd, List.reverse_append, List.reverse_singleton, List.singleton_append,
    List.dropWhile_cons_of_neg (by simp [h]), List.reverse_cons, List.reverse_reverse]

/-- `trim` drops the blanks at the ends of a text that begins and ends with other characters. -/
theorem trim_blanks {ws ws' cs : List Char} {c e : Char} (hws : Blank ws) (hws' : Blank ws')
    (hc : isBlank c = false) (he : isBlank e = false) :
    trim (ws ++ (c :: cs ++ [e]) ++ ws') = c :: cs ++ [e] := by
  rw [trim, List.append_assoc, trimStart_blanks hws, List.cons_append, List.cons_append,
    trimStart_cons hc, ← List.cons_append, trimEnd_blanks hws', ← List.cons_append,
    trimEnd_concat he]

/-- `trim` leaves the first character that is not blank where it is. -/
theorem exists_trim_cons {ws : List Char} {c : Char} (hws : Blank ws) (hc : isBlank c = false)
    (cs : List Char) : ∃ ds, trim (ws ++ c :: cs) = c :: ds := by
  refine ⟨trimEnd cs, ?_⟩
  rw [trim, trimStart_blanks hws, trimStart_cons hc, trimEnd_cons hc]

/-- What `trimEnd` drops are blanks at the end. -/
theorem exists_trimEnd_append (cs : List Char) : ∃ ws, Blank ws ∧ cs = trimEnd cs ++ ws := by
  refine ⟨(cs.reverse.takeWhile isBlank).reverse, fun c hc => ?_, ?_⟩
  · exact List.all_eq_true.1 List.all_takeWhile c (List.mem_reverse.1 hc)
  · rw [trimEnd, ← List.reverse_append, List.takeWhile_append_dropWhile, List.reverse_reverse]

end Text

namespace Descriptor

open Text

/-! ## Tightening -/

/-- Punctuation is not blank. -/
theorem isBlank_of_isPunctuation {c : Char} (h : isPunctuation c = true) : isBlank c = false := by
  simp only [isPunctuation, Bool.or_eq_true, beq_iff_eq] at h
  rcases h with (((((rfl | rfl) | rfl) | rfl) | rfl) | rfl) | rfl <;> decide

/-- `tightenAfter` passes a blank, and remembers the gap. -/
theorem tightenAfter_blank_cons {c : Char} (h : isBlank c = true) (last : Option Char)
    (gap : Bool) (cs : List Char) :
    tightenAfter last gap (c :: cs) = tightenAfter last true cs := by
  rw [tightenAfter, if_pos h]

/-- `tightenAfter` writes a character that is not blank and to which no gap leads as it is. -/
theorem tightenAfter_cons {c : Char} (h : isBlank c = false) (last : Option Char)
    (cs : List Char) :
    tightenAfter last false (c :: cs) = c :: tightenAfter (some c) false cs := by
  simp [tightenAfter, h]

/-- `tightenAfter` does not count gaps after punctuation and at the beginning. -/
theorem tightenAfter_eq_tighten {last : Option Char} (h : ∀ a ∈ last, isPunctuation a = true)
    (gap : Bool) (cs : List Char) : tightenAfter last gap cs = tighten cs := by
  have hgap : ∀ c, last.any (keepsGap · c) = false := by
    intro c
    cases last with
    | none => rfl
    | some a => simp [keepsGap, h a rfl]
  rw [tighten]
  -- both sides pass the same blanks, and may differ in the gap they have seen
  generalize false = gap'
  induction cs generalizing gap gap' with
  | nil => rfl
  | cons c cs ih =>
    by_cases hc : isBlank c = true
    · rw [tightenAfter_blank_cons hc, tightenAfter_blank_cons hc]
      exact ih true true
    · simp [tightenAfter, hc, hgap]

/-- `tightenAfter` makes nothing of blanks. -/
theorem tightenAfter_blanks {ws : List Char} (h : Blank ws) (last : Option Char) (gap : Bool) :
    tightenAfter last gap ws = [] := by
  induction ws generalizing gap with
  | nil => rfl
  | cons c ws ih =>
    rw [tightenAfter_blank_cons h.head]
    exact ih h.tail true

/-- `tightenAfter` drops blanks at the end. -/
theorem tightenAfter_append_blanks {ws : List Char} (h : Blank ws) (last : Option Char)
    (gap : Bool) (cs : List Char) :
    tightenAfter last gap (cs ++ ws) = tightenAfter last gap cs := by
  induction cs generalizing last gap with
  | nil => exact tightenAfter_blanks h last gap
  | cons c cs ih => simp only [List.cons_append, tightenAfter, ih]

/-- `tightenAfter` swallows the blanks before punctuation, and tightens what follows by itself. -/
theorem tightenAfter_punctuation {ws : List Char} (hws : Blank ws) {c : Char}
    (hc : isPunctuation c = true) (last : Option Char) (gap : Bool) (cs : List Char) :
    tightenAfter last gap (ws ++ c :: cs) = c :: tighten cs := by
  induction ws generalizing gap with
  | nil =>
    -- no gap is kept next to punctuation, on either side
    have hrest : tightenAfter (some c) false cs = tighten cs :=
      tightenAfter_eq_tighten (by simpa using hc) false cs
    simp [tightenAfter, isBlank_of_isPunctuation hc, keepsGap, hc, hrest]
  | cons w ws ih =>
    rw [List.cons_append, tightenAfter_blank_cons hws.head]
    exact ih hws.tail true

/-- `tightenAfter` leaves a text without blanks as it is, and tightens what follows after its last
    character. -/
theorem tightenAfter_word {w : List Char} (hw : ∀ c ∈ w, isBlank c = false) (last : Option Char)
    (cs : List Char) :
    tightenAfter last false (w ++ cs) = w ++ tightenAfter (w.getLast?.or last) false cs := by
  induction w generalizing last with
  | nil => rfl
  | cons c w ih =>
    rw [List.cons_append, tightenAfter_cons (hw c List.mem_cons_self),
      ih (fun d hd => hw d (List.mem_cons_of_mem _ hd)), List.cons_append, List.getLast?_cons]
    cases w.getLast? <;> rfl

/-- `tighten` leaves a text without blanks as it is. -/
theorem tighten_word {w : List Char} (hw : ∀ c ∈ w, isBlank c = false) : tighten w = w := by
  simpa [tighten, tightenAfter] using tightenAfter_word hw none []

/-- `tighten` drops blanks in front. -/
theorem tighten_blanks {ws : List Char} (h : Blank ws) (cs : List Char) :
    tighten (ws ++ cs) = tighten cs := by
  induction ws with
  | nil => rfl
  | cons c ws ih =>
    have hskip : tighten (c :: (ws ++ cs)) = tighten (ws ++ cs) := by
      rw [tighten, tightenAfter_blank_cons h.head]
      exact tightenAfter_eq_tighten (by simp) true _
    rw [List.cons_append, hskip]
    exact ih h.tail

/-- `trim` does nothing that `tighten` does not. -/
theorem tighten_trim (cs : List Char) : tighten (trim cs) = tighten cs := by
  have hstart : tighten (trimStart cs) = tighten cs := by
    have hblank : Blank (cs.takeWhile isBlank) := List.all_eq_true.1 List.all_takeWhile
    rw [trimStart, ← tighten_blanks hblank, List.takeWhile_append_dropWhile]
  -- what is trimmed at the end is put back, which changes nothing
  obtain ⟨ws, hws, happ⟩ := exists_trimEnd_append (trimStart cs)
  calc tighten (trim cs)
      = tighten (trimEnd (trimStart cs) ++ ws) :=
        (tightenAfter_append_blanks hws none false _).symm
    _ = tighten (trimStart cs) := by rw [← happ]
    _ = tighten cs := hstart

end Descriptor

end CallCycle

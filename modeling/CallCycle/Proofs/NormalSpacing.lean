import CallCycle.Proofs.TightText

/-!
# The normal form of spacing

A text is its characters that are not blank, and between each two neighbours among them a gap: the
blanks that stand there, if any.  Tightening keeps the characters and writes each gap anew, as one
space if there are blanks in it and no punctuation beside it, and as nothing otherwise.  As the
blanks at the ends are dropped, nothing else is left of a text: two texts are tightened to the same
one iff they have the same characters and are parted in the same places.

Tightening passes over the text once.  The same is reached in two passes, where the first one puts
the words of the text together with single spaces, and the second one looks at the neighbours of
each space.

## Key results

- `IsTrimmed.eq_of_gap`: characters and gaps make up a text
- `gap_tighten_iff`: what becomes of the gaps of a text
- `tighten_eq_tighten_iff`: which texts are tightened to the same one
- `tighten_eq_dropIdle_collapse`: tightening in two passes
- `tighten_normalForm`: tightening gives the normal form of spacing
-/

namespace CallCycle

namespace Text

/-! ## Characters and gaps -/

/-- The characters of a text that are not blank, in order. -/
def nonblank (cs : List Char) : List Char :=
  cs.filter (!isBlank ·)

/-- `nonblank` goes character by character. -/
@[simp]
theorem nonblank_append (cs ds : List Char) :
    nonblank (cs ++ ds) = nonblank cs ++ nonblank ds :=
  List.filter_append cs ds

/-- `nonblank` drops a blank. -/
theorem nonblank_blank_cons {c : Char} (h : isBlank c = true) (cs : List Char) :
    nonblank (c :: cs) = nonblank cs :=
  List.filter_cons_of_neg (by simp [h])

/-- `nonblank` keeps another character. -/
theorem nonblank_cons {c : Char} (h : isBlank c = false) (cs : List Char) :
    nonblank (c :: cs) = c :: nonblank cs :=
  List.filter_cons_of_pos (by simp [h])

/-- `nonblank` leaves nothing of blanks only. -/
theorem nonblank_eq_nil_iff {cs : List Char} : nonblank cs = [] ↔ Blank cs := by
  simp [nonblank, Blank]

/-- In the text `cs`, the blanks `ws` and nothing else stand between the characters `a` and `b`,
    which are not blank themselves, and `i` more characters that are not blank stand before `a`. -/
structure Gap (cs : List Char) (i : Nat) (a : Char) (ws : List Char) (b : Char) : Prop where
  left : isBlank a = false
  blank : Blank ws
  right : isBlank b = false
  eq_append : ∃ front back, cs = front ++ a :: (ws ++ b :: back) ∧ (nonblank front).length = i

/-- A text is cut in one way only at the character, not blank, that has a given number of such
    characters before it. -/
theorem cut_unique {front front' back back' : List Char} {a a' : Char} (ha : isBlank a = false)
    (ha' : isBlank a' = false) (h : front ++ a :: back = front' ++ a' :: back')
    (hlen : (nonblank front).length = (nonblank front').length) :
    front = front' ∧ a = a' ∧ back = back' := by
  induction front generalizing front' with
  | nil =>
    cases front' with
    | nil => simpa using h
    | cons c front' =>
      -- `a` would be among the characters before `a'`, and there are none
      obtain ⟨rfl, -⟩ := List.cons.inj h
      rw [nonblank_cons ha] at hlen
      cases hlen
  | cons c front ih =>
    cases front' with
    | nil =>
      obtain ⟨rfl, -⟩ := List.cons.inj h
      rw [nonblank_cons ha'] at hlen
      cases hlen
    | cons d front' =>
      obtain ⟨rfl, hrest⟩ := List.cons.inj h
      have hlen' : (nonblank front).length = (nonblank front').length := by
        by_cases hc : isBlank c = true
        · rwa [nonblank_blank_cons hc, nonblank_blank_cons hc] at hlen
        · rw [Bool.not_eq_true] at hc
          rw [nonblank_cons hc, nonblank_cons hc] at hlen
          exact Nat.succ.inj hlen
      obtain ⟨rfl, rfl, rfl⟩ := ih hrest hlen'
      exact ⟨rfl, rfl, rfl⟩

/-- A text can be cut at each of its characters that are not blank. -/
theorem exists_cut {cs : List Char} {i : Nat} (h : i < (nonblank cs).length) :
    ∃ front a back, cs = front ++ a :: back ∧ isBlank a = false ∧
      (nonblank front).length = i := by
  induction cs generalizing i with
  | nil => cases h
  | cons c cs ih =>
    -- a blank does not count, and another character is the next one
    by_cases hc : isBlank c = true
    · rw [nonblank_blank_cons hc] at h
      obtain ⟨front, a, back, rfl, ha, hlen⟩ := ih h
      exact ⟨c :: front, a, back, rfl, ha, by rw [nonblank_blank_cons hc, hlen]⟩
    · rw [Bool.not_eq_true] at hc
      rw [nonblank_cons hc, List.length_cons] at h
      cases i with
      | zero => exact ⟨[], c, cs, rfl, hc, rfl⟩
      | succ i =>
        obtain ⟨front, a, back, rfl, ha, hlen⟩ := ih (Nat.lt_of_succ_lt_succ h)
        exact ⟨c :: front, a, back, rfl, ha, by rw [nonblank_cons hc, List.length_cons, hlen]⟩

/-- A text that is not blank begins with blanks and a character that is none. -/
theorem exists_blanks_cons {cs : List Char} (h : ¬ Blank cs) :
    ∃ ws b back, cs = ws ++ b :: back ∧ Blank ws ∧ isBlank b = false := by
  rw [← nonblank_eq_nil_iff] at h
  obtain ⟨ws, b, back, heq, hb, hlen⟩ := exists_cut (List.length_pos_iff.2 h)
  exact ⟨ws, b, back, heq, nonblank_eq_nil_iff.1 (List.length_eq_zero_iff.1 hlen), hb⟩

/-- Induction over a text from gap to gap: it is blank, or blanks, a character that is not blank,
    and another text. -/
@[elab_as_elim]
theorem gap_induction {motive : List Char → Prop} (blank : ∀ ws, Blank ws → motive ws)
    (next : ∀ ws b back, Blank ws → isBlank b = false → motive back → motive (ws ++ b :: back))
    (cs : List Char) : motive cs := by
  by_cases hblank : Blank cs
  · exact blank cs hblank
  · obtain ⟨ws, b, back, rfl, hws, hb⟩ := exists_blanks_cons hblank
    exact next ws b back hws hb (gap_induction blank next back)
termination_by cs.length
decreasing_by
  subst_vars
  simp only [List.length_append, List.length_cons]
  omega

namespace Gap

variable {cs ws ws' : List Char} {i : Nat} {a a' b b' : Char}

/-- There is one `Gap` at each place. -/
theorem unique (h : Gap cs i a ws b) (h' : Gap cs i a' ws' b') : a = a' ∧ ws = ws' ∧ b = b' := by
  obtain ⟨front, back, rfl, rfl⟩ := h.eq_append
  obtain ⟨front', back', heq, hlen⟩ := h'.eq_append
  obtain ⟨-, rfl, hrest⟩ := cut_unique h.left h'.left heq hlen.symm
  -- behind `a`, the next character is cut off with only blanks before it
  have hnone : (nonblank ws).length = (nonblank ws').length := by
    rw [nonblank_eq_nil_iff.2 h.blank, nonblank_eq_nil_iff.2 h'.blank]
  obtain ⟨rfl, rfl, -⟩ := cut_unique h.right h'.right hrest hnone
  exact ⟨rfl, rfl, rfl⟩

/-- The characters beside a gap are neighbours among those that are not blank. -/
theorem getElem?_nonblank (h : Gap cs i a ws b) :
    (nonblank cs)[i]? = some a ∧ (nonblank cs)[i + 1]? = some b := by
  obtain ⟨front, back, rfl, rfl⟩ := h.eq_append
  have hall : nonblank (front ++ a :: (ws ++ b :: back)) =
      nonblank front ++ a :: b :: nonblank back := by
    rw [nonblank_append, nonblank_cons h.left, nonblank_append, nonblank_eq_nil_iff.2 h.blank,
      nonblank_cons h.right, List.nil_append]
  simp [hall]

/-- A `Gap` has a character behind it. -/
theorem lt_length (h : Gap cs i a ws b) : i + 1 < (nonblank cs).length :=
  (List.getElem?_eq_some_iff.1 h.getElem?_nonblank.2).1

end Gap

/-- Each two neighbours among the characters that are not blank have a `Gap` between them. -/
theorem exists_gap {cs : List Char} {i : Nat} (h : i + 1 < (nonblank cs).length) :
    ∃ a ws b, Gap cs i a ws b := by
  obtain ⟨front, a, rest, rfl, ha, rfl⟩ := exists_cut (Nat.lt_of_succ_lt h)
  -- one more character is to come
  have hrest : ¬ Blank rest := by
    intro hblank
    rw [nonblank_append, nonblank_cons ha, nonblank_eq_nil_iff.2 hblank] at h
    simp at h
  obtain ⟨ws, b, back, rfl, hws, hb⟩ := exists_blanks_cons hrest
  exact ⟨a, ws, b, ha, hws, hb, front, back, rfl, rfl⟩

/-- Gaps stay as they are when something is put before them. -/
theorem gap_append_left_iff {front cs ws : List Char} {i : Nat} {a b : Char} :
    Gap (front ++ cs) ((nonblank front).length + i) a ws b ↔ Gap cs i a ws b := by
  have hput : ∀ {c vs d}, Gap cs i c vs d →
      Gap (front ++ cs) ((nonblank front).length + i) c vs d := by
    rintro c vs d ⟨hc, hvs, hd, front', back, rfl, rfl⟩
    exact ⟨hc, hvs, hd, front ++ front', back, by simp, by simp⟩
  refine ⟨fun h => ?_, hput⟩
  -- there is a gap at this place of `cs`, and it can be no other one
  have hlt : i + 1 < (nonblank cs).length := by
    have hlt := h.lt_length
    rw [nonblank_append, List.length_append] at hlt
    omega
  obtain ⟨c, vs, d, hgap⟩ := exists_gap hlt
  obtain ⟨rfl, rfl, rfl⟩ := h.unique (hput hgap)
  exact hgap

/-! ## Texts with the same characters and gaps -/

/-- The end of a text that does not end with a blank. -/
theorem ends_of_append (front : List Char) {cs : List Char}
    (h : ∀ e ∈ (front ++ cs).getLast?, isBlank e = false) :
    ∀ e ∈ cs.getLast?, isBlank e = false := by
  intro e he
  apply h e
  rw [List.getLast?_append, Option.mem_def.1 he]
  rfl

/-- A blank text that does not end with a blank is empty. -/
theorem Blank.eq_nil {ws : List Char} (h : Blank ws)
    (hends : ∀ e ∈ ws.getLast?, isBlank e = false) : ws = [] := by
  cases hlast : ws.getLast? with
  | none => exact List.getLast?_eq_none_iff.1 hlast
  | some e =>
    -- its last character would be blank
    have hblank := h e (List.mem_of_getLast? hlast)
    rw [hends e hlast] at hblank
    cases hblank

/-- What follows a character is made up by its characters and the gaps, unless it ends with a
    blank. -/
theorem eq_of_gap_cons {a : Char} (ha : isBlank a = false) {cs ds : List Char}
    (hcs : ∀ e ∈ cs.getLast?, isBlank e = false) (hds : ∀ e ∈ ds.getLast?, isBlank e = false)
    (hsame : nonblank cs = nonblank ds)
    (hgap : ∀ i c ws d, Gap (a :: cs) i c ws d → Gap (a :: ds) i c ws d) : cs = ds := by
  induction cs using gap_induction generalizing a ds with
  | blank cs hblank =>
    rw [nonblank_eq_nil_iff.2 hblank, eq_comm, nonblank_eq_nil_iff] at hsame
    rw [hblank.eq_nil hcs, hsame.eq_nil hds]
  | next ws b back hws hb ih =>
    -- the first gap is the same on both sides, which leaves what comes after it
    have hfirst : Gap (a :: (ws ++ b :: back)) 0 a ws b := ⟨ha, hws, hb, [], back, rfl, rfl⟩
    obtain ⟨front, back', heq, hlen⟩ := (hgap 0 a ws b hfirst).eq_append
    obtain ⟨-, -, rfl⟩ := cut_unique ha ha (show [] ++ a :: ds = _ from heq) hlen.symm
    have hback : back = back' := by
      refine ih hb (ends_of_append [b] (ends_of_append ws hcs))
        (ends_of_append [b] (ends_of_append ws hds)) ?_ fun i c vs d hrest => ?_
      · simpa [nonblank_cons hb] using hsame
      · have hshift : ∀ back, Gap (a :: ws ++ b :: back) ((nonblank (a :: ws)).length + i) c vs d ↔
            Gap (b :: back) i c vs d := fun _ => gap_append_left_iff
        exact (hshift back').1 (hgap _ c vs d ((hshift back).2 hrest))
    rw [hback]

/-- A text without blanks at its ends is made up by its characters and its gaps. -/
theorem IsTrimmed.eq_of_gap {cs ds : List Char} (hcs : IsTrimmed cs) (hds : IsTrimmed ds)
    (hsame : nonblank cs = nonblank ds)
    (hgap : ∀ i a ws b, Gap cs i a ws b → Gap ds i a ws b) : cs = ds := by
  cases cs with
  | nil =>
    have hblank : Blank ds := nonblank_eq_nil_iff.1 hsame.symm
    rw [hblank.eq_nil hds.2]
  | cons a cs =>
    -- nothing is blank in front, so both texts begin with the same character
    have ha : isBlank a = false := hcs.1 a rfl
    cases ds with
    | nil =>
      rw [nonblank_cons ha] at hsame
      cases hsame
    | cons d ds =>
      rw [nonblank_cons ha, nonblank_cons (hds.1 d rfl)] at hsame
      obtain ⟨rfl, hrest⟩ := List.cons.inj hsame
      rw [eq_of_gap_cons ha (ends_of_append [a] hcs.2) (ends_of_append [a] hds.2) hrest hgap]

/-! ## Words -/

/-- The words of a text: the pieces between blanks, less the empty ones. -/
def words (cs : List Char) : List (List Char) :=
  (cs.splitOnP isBlank).filter (!·.isEmpty)

/-- The words of a text, with one space between each two of them. -/
def collapse (cs : List Char) : List Char :=
  [' '].intercalate (words cs)

/-- `words` does not see blanks in front. -/
theorem words_blanks {ws : List Char} (h : Blank ws) (cs : List Char) :
    words (ws ++ cs) = words cs := by
  induction ws with
  | nil => rfl
  | cons w ws ih =>
    rw [← ih h.tail]
    simp [words, List.splitOnP_cons_eq_if_modifyHead, h.head]

/-- `words` finds none in blanks only. -/
theorem words_eq_nil {ws : List Char} (h : Blank ws) : words ws = [] := by
  have hnone := words_blanks h []
  rwa [List.append_nil] at hnone

/-- `words` ends a word at a blank. -/
theorem words_cons_blank {a c : Char} (ha : isBlank a = false) (hc : isBlank c = true)
    (cs : List Char) : words (a :: c :: cs) = [a] :: words cs := by
  simp [words, List.splitOnP_cons_eq_if_modifyHead, ha, hc]

/-- `words` takes a character in front of a word as part of it. -/
theorem exists_words_cons {b : Char} (hb : isBlank b = false) (cs : List Char) :
    ∃ w vs, words (b :: cs) = (b :: w) :: vs ∧
      ∀ a, isBlank a = false → words (a :: b :: cs) = (a :: b :: w) :: vs := by
  -- the first piece may be empty, but there is one
  obtain ⟨w, vs, hpieces⟩ := List.exists_cons_of_ne_nil (List.splitOnP_ne_nil isBlank cs)
  refine ⟨w, vs.filter (!·.isEmpty), ?_, fun a ha => ?_⟩
  · simp [words, List.splitOnP_cons_eq_if_modifyHead, hb, hpieces]
  · simp [words, List.splitOnP_cons_eq_if_modifyHead, ha, hb, hpieces]

/-- `collapse` leaves a first character that is not blank. -/
theorem exists_collapse_cons {b : Char} (hb : isBlank b = false) (cs : List Char) :
    ∃ rest, collapse (b :: cs) = b :: rest := by
  obtain ⟨w, vs, hwords, -⟩ := exists_words_cons hb cs
  rw [collapse, hwords]
  cases vs with
  | nil => exact ⟨w, List.intercalate_singleton⟩
  | cons v vs =>
    rw [List.intercalate_cons_cons, List.cons_append, List.cons_append]
    exact ⟨_, rfl⟩

/-- `collapse` drops blanks at the end. -/
theorem collapse_cons_blanks {a : Char} (ha : isBlank a = false) {ws : List Char} (hws : Blank ws) :
    collapse (a :: ws) = [a] := by
  cases ws with
  | nil => simp [collapse, words, List.splitOnP_cons_eq_if_modifyHead, ha]
  | cons w ws =>
    rw [collapse, words_cons_blank ha hws.head, words_eq_nil hws.tail]
    exact List.intercalate_singleton

/-- `collapse` makes one space of each gap that has blanks. -/
theorem collapse_cons_gap {a b : Char} {ws : List Char} (ha : isBlank a = false) (hws : Blank ws)
    (hb : isBlank b = false) (back : List Char) :
    collapse (a :: (ws ++ b :: back)) =
      a :: ((if ws = [] then [] else [' ']) ++ collapse (b :: back)) := by
  obtain ⟨w, vs, hwords, hlonger⟩ := exists_words_cons hb back
  cases ws with
  | nil =>
    rw [List.nil_append, collapse, hlonger a ha, collapse, hwords]
    cases vs with
    | nil => simp
    | cons v vs => simp [List.intercalate_cons_cons]
  | cons c ws =>
    rw [List.cons_append, collapse, words_cons_blank ha hws.head, words_blanks hws.tail, collapse,
      hwords]
    simp [List.intercalate_cons_cons]

end Text

namespace Descriptor

open Text

/-! ## What becomes of gaps -/

/-- `tightenAfter` keeps the characters that are not blank. -/
theorem nonblank_tightenAfter (last : Option Char) (gap : Bool) (cs : List Char) :
    nonblank (tightenAfter last gap cs) = nonblank cs := by
  induction cs generalizing last gap with
  | nil => rfl
  | cons c cs ih =>
    -- what is added or lost is blank
    by_cases hc : isBlank c = true
    · rw [tightenAfter_blank_cons hc, nonblank_blank_cons hc, ih]
    · rw [Bool.not_eq_true] at hc
      simp only [tightenAfter, hc, Bool.false_eq_true, if_false]
      split
      · rw [nonblank_blank_cons (by decide), nonblank_cons hc, nonblank_cons hc, ih]
      · rw [nonblank_cons hc, nonblank_cons hc, ih]

/-- `tighten` keeps the characters that are not blank. -/
theorem nonblank_tighten (cs : List Char) : nonblank (tighten cs) = nonblank cs :=
  nonblank_tightenAfter none false cs

/-- What is left of the blanks `ws` between `a` and `b`. -/
def keptGap (a : Char) (ws : List Char) (b : Char) : List Char :=
  if ws ≠ [] ∧ keepsGap a b = true then [' '] else []

/-- `keptGap` makes nothing of no blanks. -/
theorem keptGap_nil (a b : Char) : keptGap a [] b = [] := by
  simp [keptGap]

/-- `keptGap` does not look at which blanks they are. -/
theorem keptGap_cons (a b w : Char) (ws : List Char) :
    keptGap a (w :: ws) b = if keepsGap a b then [' '] else [] := by
  simp [keptGap]

/-- `keptGap` is nothing or a space. -/
theorem keptGap_eq_nil_or (a : Char) (ws : List Char) (b : Char) :
    keptGap a ws b = [] ∨ keptGap a ws b = [' '] := by
  unfold keptGap
  split
  · exact .inr rfl
  · exact .inl rfl

/-- `keptGap` is a space iff there are blanks and no punctuation beside them. -/
theorem keptGap_eq_space_iff {a b : Char} {ws : List Char} :
    keptGap a ws b = [' '] ↔ ws ≠ [] ∧ isPunctuation a = false ∧ isPunctuation b = false := by
  simp [keptGap, keepsGap]

/-- `keptGap` is known if it is known whether it is a space. -/
theorem keptGap_congr {a b : Char} {ws vs : List Char}
    (h : keptGap a ws b = [' '] ↔ keptGap a vs b = [' ']) : keptGap a ws b = keptGap a vs b := by
  rcases keptGap_eq_nil_or a ws b with hws | hws
  · rcases keptGap_eq_nil_or a vs b with hvs | hvs
    · rw [hws, hvs]
    · rw [h.2 hvs, hvs]
  · rw [hws, h.1 hws]

/-- `tightenAfter` does not count blanks once it has passed one. -/
theorem tightenAfter_passed {ws : List Char} (hws : Blank ws) {b : Char} (hb : isBlank b = false)
    (a : Char) (back : List Char) :
    tightenAfter (some a) true (ws ++ b :: back) =
      (if keepsGap a b then [' '] else []) ++ b :: tightenAfter (some b) false back := by
  induction ws with
  | nil =>
    simp only [List.nil_append, tightenAfter, hb, Bool.false_eq_true, if_false, Bool.true_and,
      Option.any_some]
    split
    · rfl
    · rfl
  | cons w ws ih =>
    -- a gap that is remembered is remembered once
    rw [List.cons_append, tightenAfter_blank_cons hws.head]
    exact ih hws.tail

/-- `tightenAfter` writes each gap as it is kept. -/
theorem tightenAfter_gap {ws : List Char} (hws : Blank ws) {b : Char} (hb : isBlank b = false)
    (a : Char) (back : List Char) :
    tightenAfter (some a) false (ws ++ b :: back) =
      keptGap a ws b ++ b :: tightenAfter (some b) false back := by
  cases ws with
  | nil => rw [List.nil_append, tightenAfter_cons hb, keptGap_nil, List.nil_append]
  | cons w ws =>
    rw [List.cons_append, tightenAfter_blank_cons hws.head, tightenAfter_passed hws.tail hb,
      keptGap_cons]

/-- `tightenAfter` keeps a character that is not blank, and tightens what follows after it. -/
theorem exists_tightenAfter_append {a : Char} (ha : isBlank a = false) (last : Option Char)
    (gap : Bool) (front back : List Char) :
    ∃ front', tightenAfter last gap (front ++ a :: back) =
      front' ++ a :: tightenAfter (some a) false back := by
  induction front generalizing last gap with
  | nil =>
    simp only [List.nil_append, tightenAfter, ha, Bool.false_eq_true, if_false]
    split
    · exact ⟨[' '], rfl⟩
    · exact ⟨[], rfl⟩
  | cons c front ih =>
    simp only [List.cons_append, tightenAfter]
    split
    · exact ih last true
    · obtain ⟨front', heq⟩ := ih (some c) false
      rw [heq]
      split
      · exact ⟨' ' :: c :: front', rfl⟩
      · exact ⟨c :: front', rfl⟩

/-- `tighten` leaves a gap between the same characters, as a space or as nothing. -/
theorem gap_tighten {cs ws : List Char} {i : Nat} {a b : Char} (h : Gap cs i a ws b) :
    Gap (tighten cs) i a (keptGap a ws b) b := by
  obtain ⟨front, back, rfl, rfl⟩ := h.eq_append
  obtain ⟨front', heq⟩ := exists_tightenAfter_append h.left none false front (ws ++ b :: back)
  -- nothing but blanks gets lost before `a`, so that its number stays
  have hfront : nonblank front' = nonblank front := by
    have hall := nonblank_tightenAfter none false (front ++ a :: (ws ++ b :: back))
    rw [heq, nonblank_append, nonblank_append, nonblank_cons h.left, nonblank_cons h.left,
      nonblank_tightenAfter] at hall
    exact List.append_cancel_right hall
  refine ⟨h.left, ?_, h.right, front', tightenAfter (some b) false back, ?_, by rw [hfront]⟩
  · rcases keptGap_eq_nil_or a ws b with hkept | hkept
    · exact hkept ▸ .nil
    · exact hkept ▸ .singleton (by decide)
  · rw [tighten, heq, tightenAfter_gap h.blank h.right]

/-- The gaps that `tighten` leaves are those of the text, each as it is kept. -/
theorem gap_tighten_iff {cs us : List Char} {i : Nat} {a b : Char} :
    Gap (tighten cs) i a us b ↔ ∃ ws, Gap cs i a ws b ∧ us = keptGap a ws b := by
  constructor
  · intro h
    have hlt := h.lt_length
    rw [nonblank_tighten] at hlt
    -- the text has a gap at this place, and what becomes of it is this one
    obtain ⟨c, ws, d, hgap⟩ := exists_gap hlt
    obtain ⟨rfl, hus, rfl⟩ := h.unique (gap_tighten hgap)
    exact ⟨ws, hgap, hus⟩
  · rintro ⟨ws, hgap, rfl⟩
    exact gap_tighten hgap

/-- `tighten` leaves a space where there are blanks and no punctuation beside them. -/
theorem gap_tighten_space_iff {cs : List Char} {i : Nat} {a b : Char} :
    Gap (tighten cs) i a [' '] b ↔
      (∃ ws, ws ≠ [] ∧ Gap cs i a ws b) ∧ isPunctuation a = false ∧ isPunctuation b = false := by
  rw [gap_tighten_iff]
  constructor
  · rintro ⟨ws, hgap, hkept⟩
    obtain ⟨hne, hsides⟩ := keptGap_eq_space_iff.1 hkept.symm
    exact ⟨⟨ws, hne, hgap⟩, hsides⟩
  · rintro ⟨⟨ws, hne, hgap⟩, hsides⟩
    exact ⟨ws, hgap, (keptGap_eq_space_iff.2 ⟨hne, hsides⟩).symm⟩

/-! ## Texts that are tightened to the same one -/

/-- Blanks stand between two characters of `cs` that are not punctuation, the first of which has
    `i` characters before it that are not blank. -/
def Parted (cs : List Char) (i : Nat) : Prop :=
  ∃ a b, (∃ ws, ws ≠ [] ∧ Gap cs i a ws b) ∧ isPunctuation a = false ∧ isPunctuation b = false

/-- A text is `Parted` where `tighten` leaves a space. -/
theorem parted_iff {cs : List Char} {i : Nat} :
    Parted cs i ↔ ∃ a b, Gap (tighten cs) i a [' '] b := by
  simp only [Parted, gap_tighten_space_iff]

/-- A text is `Parted` at a gap that is kept. -/
theorem parted_iff_of_gap {cs ws : List Char} {i : Nat} {a b : Char} (h : Gap cs i a ws b) :
    Parted cs i ↔ keptGap a ws b = [' '] := by
  rw [parted_iff]
  constructor
  · rintro ⟨c, d, hspace⟩
    exact ((gap_tighten h).unique hspace).2.1
  · intro hkept
    exact ⟨a, b, hkept ▸ gap_tighten h⟩

/-- `tighten` gives the same for two texts iff they have the same characters and are `Parted` in the
    same places. -/
theorem tighten_eq_tighten_iff {cs ds : List Char} :
    tighten cs = tighten ds ↔ nonblank cs = nonblank ds ∧ ∀ i, Parted cs i ↔ Parted ds i := by
  constructor
  · intro h
    refine ⟨?_, fun i => ?_⟩
    · rw [← nonblank_tighten cs, h, nonblank_tighten]
    · rw [parted_iff, parted_iff, h]
  · rintro ⟨hsame, hparted⟩
    refine (isTight_tighten cs).trimmed.eq_of_gap (isTight_tighten ds).trimmed ?_ ?_
    · rw [nonblank_tighten, nonblank_tighten, hsame]
    · intro i a us b hgap
      obtain ⟨ws, hcs, rfl⟩ := gap_tighten_iff.1 hgap
      obtain ⟨c, vs, d, hds⟩ := exists_gap (hsame ▸ hcs.lt_length)
      -- the same two characters stand beside the gap in both texts
      obtain ⟨hleft, hright⟩ := hcs.getElem?_nonblank
      rw [hsame, hds.getElem?_nonblank.1, Option.some.injEq] at hleft
      rw [hsame, hds.getElem?_nonblank.2, Option.some.injEq] at hright
      subst hleft hright
      have hspace := hparted i
      rw [parted_iff_of_gap hcs, parted_iff_of_gap hds] at hspace
      rw [keptGap_congr hspace]
      exact gap_tighten hds

/-! ## Tightening in two passes -/

/-- Whether `c`, which stands at the place `i` of `cs`, is a space at an end of the text or next to
    punctuation. -/
def isIdle (cs : List Char) (i : Nat) (c : Char) : Bool :=
  c == ' ' &&
    ((if i = 0 then none else cs[i - 1]?).all isPunctuation || cs[i + 1]?.all isPunctuation)

/-- Drops the spaces at the ends and next to punctuation. -/
def dropIdle (cs : List Char) : List Char :=
  (cs.zipIdx.filter fun p => !isIdle cs p.2 p.1).map Prod.fst

/-- What the second pass keeps of `rest` when it has come to the end of `front`. -/
def dropIdleFrom (front rest : List Char) : List Char :=
  ((rest.zipIdx front.length).filter fun p => !isIdle (front ++ rest) p.2 p.1).map Prod.fst

/-- `dropIdleFrom` at the end of the text. -/
theorem dropIdleFrom_nil (front : List Char) : dropIdleFrom front [] = [] :=
  rfl

/-- `isIdle` looks at the characters on both sides. -/
theorem isIdle_append (front rest : List Char) (c : Char) :
    isIdle (front ++ c :: rest) front.length c =
      (c == ' ' && (front.getLast?.all isPunctuation || rest.head?.all isPunctuation)) := by
  have hnext : (front ++ c :: rest)[front.length + 1]? = rest.head? := by
    rw [List.getElem?_append_right (by omega), Nat.add_sub_cancel_left, List.head?_eq_getElem?,
      List.getElem?_cons_succ]
  have hlast : (if front.length = 0 then none else (front ++ c :: rest)[front.length - 1]?) =
      front.getLast? := by
    -- the empty text has no last character, and its end has no place before it
    split
    · next hzero => rw [List.length_eq_zero_iff.1 hzero, List.getLast?_nil]
    · rw [List.getElem?_append_left (by omega), List.getLast?_eq_getElem?]
  rw [isIdle, hnext, hlast]

/-- `dropIdleFrom` drops or keeps one character. -/
theorem dropIdleFrom_cons (front rest : List Char) (c : Char) :
    dropIdleFrom front (c :: rest) =
      if c == ' ' && (front.getLast?.all isPunctuation || rest.head?.all isPunctuation) then
        dropIdleFrom (front ++ [c]) rest
      else c :: dropIdleFrom (front ++ [c]) rest := by
  rw [← isIdle_append front rest c]
  -- `front ++ [c]` and `rest` make up the same text, cut one place further on
  simp only [dropIdleFrom, List.zipIdx_cons, List.length_append, List.length_singleton,
    List.append_assoc, List.singleton_append, List.filter_cons]
  cases isIdle (front ++ c :: rest) front.length c with
  | false => rfl
  | true => rfl

/-- `dropIdleFrom` keeps a character that is not blank. -/
theorem dropIdleFrom_nonblank_cons {a : Char} (ha : isBlank a = false) (front rest : List Char) :
    dropIdleFrom front (a :: rest) = a :: dropIdleFrom (front ++ [a]) rest := by
  -- it is no space, so it is never idle
  have hspace : (a == ' ') = false := by
    rw [beq_eq_false_iff_ne]
    rintro rfl
    cases ha
  rw [dropIdleFrom_cons, hspace]
  rfl

/-- `dropIdleFrom` keeps a space as `tightenAfter` keeps a gap. -/
theorem dropIdleFrom_space_cons (front rest : List Char) (a b : Char) :
    dropIdleFrom (front ++ [a]) (' ' :: b :: rest) =
      (if keepsGap a b then [' '] else []) ++ dropIdleFrom (front ++ [a, ' ']) (b :: rest) := by
  rw [dropIdleFrom_cons]
  cases ha : isPunctuation a <;> cases hb : isPunctuation b <;> simp [keepsGap, ha, hb]

/-- From a character on, `dropIdleFrom` makes of the collapsed text what `tightenAfter` makes of the
    text. -/
theorem dropIdleFrom_collapse {a : Char} (ha : isBlank a = false) (front cs : List Char) :
    dropIdleFrom front (collapse (a :: cs)) = a :: tightenAfter (some a) false cs := by
  induction cs using gap_induction generalizing a front with
  | blank ws hws =>
    rw [collapse_cons_blanks ha hws, tightenAfter_blanks hws, dropIdleFrom_nonblank_cons ha,
      dropIdleFrom_nil]
  | next ws b back hws hb ih =>
    rw [collapse_cons_gap ha hws hb, tightenAfter_gap hws hb, dropIdleFrom_nonblank_cons ha]
    cases ws with
    | nil => rw [if_pos rfl, List.nil_append, ih hb, keptGap_nil, List.nil_append]
    | cons w ws =>
      -- the space is kept or not by looking at `b`, so the collapsed text is opened up to there
      obtain ⟨rest, hrest⟩ := exists_collapse_cons hb back
      rw [if_neg (List.cons_ne_nil w ws), List.singleton_append, hrest, dropIdleFrom_space_cons,
        ← hrest, ih hb, keptGap_cons]

/-- `tighten` is `collapse` and then `dropIdle`. -/
theorem tighten_eq_dropIdle_collapse (cs : List Char) : tighten cs = dropIdle (collapse cs) := by
  by_cases hblank : Blank cs
  · rw [collapse, words_eq_nil hblank, tighten, tightenAfter_blanks hblank]
    rfl
  -- both drop the blanks in front
  · obtain ⟨ws, b, back, rfl, hws, hb⟩ := exists_blanks_cons hblank
    calc tighten (ws ++ b :: back)
        = tighten (b :: back) := tighten_blanks hws _
      _ = b :: tightenAfter (some b) false back := tightenAfter_cons hb none back
      _ = dropIdle (collapse (b :: back)) := (dropIdleFrom_collapse hb [] back).symm
      _ = dropIdle (collapse (ws ++ b :: back)) := by rw [collapse, collapse, words_blanks hws]

/-! ## The normal form -/

/-- `tighten` gives the normal form of spacing, in one pass or in two.  It keeps the characters that
    are not blank, and what it leaves is `IsTight`: the only blanks are spaces, none of them at an
    end, next to another one or next to punctuation.  A space stands between two neighbours among
    the characters iff there were blanks between them and neither is punctuation.  So two texts are
    tightened to the same one iff they have the same characters and are `Parted` in the same places,
    and tightening again changes nothing. -/
theorem tighten_normalForm (cs : List Char) :
    tighten cs = dropIdle (collapse cs) ∧
    nonblank (tighten cs) = nonblank cs ∧
    IsTight (tighten cs) ∧
    (∀ i a b, Gap (tighten cs) i a [' '] b ↔
      (∃ ws, ws ≠ [] ∧ Gap cs i a ws b) ∧ isPunctuation a = false ∧ isPunctuation b = false) ∧
    (∀ ds, tighten cs = tighten ds ↔
      nonblank cs = nonblank ds ∧ ∀ i, Parted cs i ↔ Parted ds i) ∧
    tighten (tighten cs) = tighten cs :=
  ⟨tighten_eq_dropIdle_collapse cs, nonblank_tighten cs, isTight_tighten cs,
    fun _ _ _ => gap_tighten_space_iff, fun _ => tighten_eq_tighten_iff,
    (isTight_tighten cs).tighten_eq⟩

example : tighten "\tMap < String ,\u3000? extends \n Number > ".toList =
    "Map<String,? extends Number>".toList := by
  decide

end Descriptor

end CallCycle

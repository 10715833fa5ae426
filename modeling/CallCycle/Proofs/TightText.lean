import CallCycle.Proofs.KeyGrammar
import Mathlib.Data.List.Chain

/-!
# Tight texts

What tightening leaves of a text: blanks are single spaces, and each of them stands between two
characters that are neither blank nor punctuation.  Tightening has exactly these texts as its
results, and changes nothing in them.

## Key results

- `isTight_tighten`: what is tightened is tight
- `IsTight.tighten_eq`: what is tight stays as it is
- `tighten_eq_self_iff`: the texts that tightening leaves alone
-/

namespace CallCycle.Descriptor

open Text

/-! ## Tight texts -/

/-- Whether `c` is neither blank nor punctuation. -/
def isSolid (c : Char) : Bool :=
  !isBlank c && !isPunctuation c

/-- What can stand next to each other in a tight text: beside a blank, a character that is neither
    blank nor punctuation. -/
def Adjoins (a b : Char) : Prop :=
  (isBlank a = true → isSolid b = true) ∧ (isBlank b = true → isSolid a = true)

instance (a b : Char) : Decidable (Adjoins a b) :=
  inferInstanceAs (Decidable (_ ∧ _))

/-- A text whose only blanks are spaces, none of them at either end, next to another one or next to
    punctuation. -/
structure IsTight (cs : List Char) : Prop where
  trimmed : IsTrimmed cs
  spaces : ∀ c ∈ cs, isBlank c = true → c = ' '
  gaps : cs.IsChain Adjoins

/-- `IsTight` as a conjunction, each part of which can be decided. -/
theorem isTight_iff {cs : List Char} :
    IsTight cs ↔ IsTrimmed cs ∧ (∀ c ∈ cs, isBlank c = true → c = ' ') ∧ cs.IsChain Adjoins :=
  ⟨fun h => ⟨h.trimmed, h.spaces, h.gaps⟩, fun h => ⟨h.1, h.2.1, h.2.2⟩⟩

instance (cs : List Char) : Decidable (IsTight cs) :=
  have : Decidable (∀ c ∈ cs, isBlank c = true → c = ' ') := List.decidableBAll _ cs
  decidable_of_iff' _ isTight_iff

/-- No solid character is blank. -/
theorem isBlank_of_isSolid {c : Char} (h : isSolid c = true) : isBlank c = false := by
  rw [isSolid, Bool.and_eq_true, Bool.not_eq_true'] at h
  exact h.1

/-- Characters that are not blank can stand next to each other. -/
theorem adjoins_of_solid {a b : Char} (ha : isBlank a = false) (hb : isBlank b = false) :
    Adjoins a b := by
  simp [Adjoins, ha, hb]

/-- A text without blanks is `IsTight`. -/
theorem isTight_word {w : List Char} (hw : ∀ c ∈ w, isBlank c = false) : IsTight w where
  trimmed := ⟨fun c hc => hw c (List.mem_of_mem_head? hc),
    fun c hc => hw c (List.mem_of_getLast? hc)⟩
  spaces c hc hblank := by
    rw [hw c hc] at hblank
    cases hblank
  gaps := by
    induction w with
    | nil => exact .nil
    | cons a w ih =>
      cases w with
      | nil => exact .singleton a
      | cons b w =>
        -- each two neighbours are not blank
        have hab := adjoins_of_solid (hw a (by simp)) (hw b (by simp))
        exact .cons_cons hab (ih fun c hc => hw c (List.mem_cons_of_mem a hc))

/-! ## What follows a character -/

/-- A text that continues a tight one whose last character is `last`. -/
structure TightAfter (last : Option Char) (cs : List Char) : Prop where
  spaces : ∀ c ∈ cs, isBlank c = true → c = ' '
  gaps : (last.toList ++ cs).IsChain Adjoins
  ends : ∀ e ∈ cs.getLast?, isBlank e = false

namespace TightAfter

variable {last : Option Char} {a c : Char} {cs : List Char}

/-- Nothing continues every text. -/
theorem nil (last : Option Char) : TightAfter last [] := by
  refine ⟨by simp, ?_, by simp⟩
  cases last with
  | none => exact .nil
  | some a => exact .singleton a

/-- The first character passes to the text in front. -/
theorem tail (h : TightAfter last (c :: cs)) : TightAfter (some c) cs where
  spaces d hd hblank := h.spaces d (List.mem_cons_of_mem c hd) hblank
  gaps := h.gaps.right_of_append
  ends e he := by
    apply h.ends e
    rw [List.getLast?_cons, Option.mem_def.1 he]
    rfl

/-- A character that is not blank can come in front. -/
theorem cons (hlast : ∀ a ∈ last, isBlank a = false) (hc : isBlank c = false)
    (h : TightAfter (some c) cs) : TightAfter last (c :: cs) where
  spaces d hd hblank := by
    rcases List.mem_cons.1 hd with rfl | hd
    · rw [hc] at hblank
      cases hblank
    · exact h.spaces d hd hblank
  gaps := by
    cases last with
    | none => exact h.gaps
    | some a => exact .cons_cons (adjoins_of_solid (hlast a rfl) hc) h.gaps
  ends e he := by
    -- the last character is `c` itself, or that of the rest
    cases hcs : cs.getLast? with
    | none => simp_all
    | some d =>
      rw [List.getLast?_cons, hcs, Option.getD_some, Option.mem_some_iff] at he
      exact h.ends e (he ▸ hcs)

/-- A space can come between solid characters. -/
theorem space_cons (ha : isSolid a = true) (hc : isSolid c = true)
    (h : TightAfter (some c) cs) : TightAfter (some a) (' ' :: c :: cs) := by
  have hcons : TightAfter none (c :: cs) := h.cons (by simp) (isBlank_of_isSolid hc)
  refine ⟨fun d hd hblank => ?_, ?_, fun e he => ?_⟩
  · rcases List.mem_cons.1 hd with rfl | hd
    · rfl
    · exact hcons.spaces d hd hblank
  -- the space has a solid character on both sides
  · have hleft : Adjoins a ' ' :=
      ⟨fun hblank => by simp [isBlank_of_isSolid ha] at hblank, fun _ => ha⟩
    have hright : Adjoins ' ' c :=
      ⟨fun _ => hc, fun hblank => by simp [isBlank_of_isSolid hc] at hblank⟩
    exact .cons_cons hleft (.cons_cons hright h.gaps)
  · rw [List.getLast?_cons_cons] at he
    exact hcons.ends e he

end TightAfter

/-- What `tightenAfter` gives continues the text in front of it. -/
theorem tightAfter_tightenAfter {last : Option Char} (hlast : ∀ a ∈ last, isBlank a = false)
    (gap : Bool) (cs : List Char) : TightAfter last (tightenAfter last gap cs) := by
  induction cs generalizing last gap with
  | nil => exact .nil last
  | cons c cs ih =>
    by_cases hc : isBlank c = true
    · rw [tightenAfter_blank_cons hc]
      exact ih hlast true
    · rw [Bool.not_eq_true] at hc
      have hrest : TightAfter (some c) (tightenAfter (some c) false cs) :=
        ih (by simpa using hc) false
      simp only [tightenAfter, hc, Bool.false_eq_true, if_false]
      split
      · -- the gap is kept, so that there is a character in front of it
        next hgap =>
        cases last with
        | none => simp at hgap
        | some a =>
          simp only [Option.any_some, Bool.and_eq_true, keepsGap, Bool.not_eq_true'] at hgap
          obtain ⟨-, ha, hc'⟩ := hgap
          exact hrest.space_cons (by simp [isSolid, hlast a rfl, ha]) (by simp [isSolid, hc, hc'])
      · exact hrest.cons hlast hc

/-- `tightenAfter` leaves what continues a tight text, where `gap` tells whether its first space has
    been passed. -/
theorem tightenAfter_eq_of_tightAfter {last : Option Char} (gap : Bool) {cs : List Char}
    (h : TightAfter last (if gap then ' ' :: cs else cs))
    (hhead : last = none → ∀ c ∈ (if gap then ' ' :: cs else cs).head?, isBlank c = false) :
    tightenAfter last gap cs = if gap then ' ' :: cs else cs := by
  induction cs generalizing last gap with
  | nil =>
    cases gap with
    | false => rfl
    -- the text would end with a space
    | true => exact absurd (h.ends ' ' rfl) (by decide)
  | cons c cs ih =>
    cases gap with
    | true =>
      -- a space has been passed, and the characters around it are solid
      cases last with
      | none => exact absurd (hhead rfl ' ' rfl) (by decide)
      | some a =>
        have hgaps : (a :: ' ' :: c :: cs).IsChain Adjoins := h.gaps
        obtain ⟨⟨-, ha⟩, hright⟩ := List.isChain_cons_cons.1 hgaps
        obtain ⟨⟨hc, -⟩, -⟩ := List.isChain_cons_cons.1 hright
        have hsolid : isSolid a = true ∧ isSolid c = true := ⟨ha (by decide), hc (by decide)⟩
        have hrest : tightenAfter (some c) false cs = cs := ih false h.tail.tail (by simp)
        simp only [isSolid, Bool.and_eq_true, Bool.not_eq_true'] at hsolid
        simp [tightenAfter, keepsGap, hsolid, hrest]
    | false =>
      by_cases hc : isBlank c = true
      -- the only blank is a space, which is remembered as a gap
      · have hspace : c = ' ' := h.spaces c List.mem_cons_self hc
        subst hspace
        rw [tightenAfter_blank_cons hc]
        exact ih true h hhead
      · rw [Bool.not_eq_true] at hc
        have hrest : tightenAfter (some c) false cs = cs := ih false h.tail (by simp)
        rw [tightenAfter_cons hc, hrest]
        rfl

/-! ## Tightening -/

/-- `tighten` gives tight texts. -/
theorem isTight_tighten (cs : List Char) : IsTight (tighten cs) := by
  have h : TightAfter none (tighten cs) := tightAfter_tightenAfter (by simp) false cs
  refine ⟨⟨?_, h.ends⟩, h.spaces, h.gaps⟩
  -- what comes first has nothing in front of it to keep a gap from
  induction cs with
  | nil => simp [tighten, tightenAfter]
  | cons c cs ih =>
    by_cases hc : isBlank c = true
    · have hskip := tighten_blanks (.singleton hc) cs
      rw [List.singleton_append] at hskip
      rw [hskip] at h ⊢
      exact ih h
    · rw [Bool.not_eq_true] at hc
      rw [tighten, tightenAfter_cons hc]
      simpa using hc

/-- `tighten` leaves a tight text. -/
theorem IsTight.tighten_eq {cs : List Char} (h : IsTight cs) : tighten cs = cs :=
  tightenAfter_eq_of_tightAfter false ⟨h.spaces, h.gaps, h.trimmed.2⟩
    fun _ => h.trimmed.1

/-- `tighten` leaves exactly the tight texts. -/
theorem tighten_eq_self_iff {cs : List Char} : tighten cs = cs ↔ IsTight cs :=
  ⟨fun h => h ▸ isTight_tighten cs, IsTight.tighten_eq⟩

end CallCycle.Descriptor

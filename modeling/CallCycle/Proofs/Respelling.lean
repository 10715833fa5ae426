import CallCycle.Proofs.RecordText
import Mathlib.Data.List.Forall2
import Mathlib.Logic.Relation

/-!
# Respelled records

The members of an object may be put in another order; members of unknown names may be added; a
member may be left out, or added, if it has the value that is taken for it when it is absent.
`Leeway` says for an object which names are known, which members may be left out and which values
may themselves be respelled, and `Leeway.Step` is one such change.  No step changes what is read.

A structure is read member by member, while an alternative of structures is taken in as a whole and
read once its tag is known.  Both are read by names only: `ofValue_record_eq_ok_iff` and
`ofValue_tagged_eq_ok_iff` say what is read in terms of the members of each name, and the steps are
followed through these.

## Key results

- `Codec.ofValue_record_eq_ok_iff`, `Codec.ofValue_tagged_eq_ok_iff`: what is read from an object
- `Row.Holds.step`: one step keeps the values of a row
- `Leeway.Step.filter`: one step seen without the tag
- `Codec.ofValue_record_respelled`, `Codec.ofValue_tagged_respelled`: any number of steps
- `Record.readAll_respelled`: reading the text of a respelled record
-/

namespace CallCycle.Json

open Relation

variable {α σ ρ : Type}

/-! ## What is read from an object -/

namespace Row

/-- What `fillAll` does to the first slot of a row: nothing, or the only member of its name fills
    it. -/
theorem fillAll_cons_cases {field : Field α} {rest : Row σ ρ} (hname : field.name ∉ rest.names)
    {ms : List (String × Value)} {slot slot' : Option α} {slots slots' : σ}
    (h : (cons field rest).fillAll (slot, slots) ms = .ok (slot', slots')) :
    rest.fillAll slots ms = .ok slots' ∧
      ((ms.filter fun m => m.1 = field.name) = [] ∧ slot' = slot ∨
        ∃ v a, (ms.filter fun m => m.1 = field.name) = [(field.name, v)] ∧ slot = none ∧
          field.codec.ofValue v = .ok a ∧ slot' = some a) := by
  induction ms generalizing slot slots with
  | nil =>
    cases h
    exact ⟨rfl, .inl ⟨rfl, rfl⟩⟩
  | cons m ms ih =>
    obtain ⟨⟨slot₁, slots₁⟩, hone, hall⟩ := fillAll_cons_eq_ok_iff.1 h
    obtain ⟨hrest, hslot⟩ := ih hall
    -- the member is for this slot, or passed on to the others
    by_cases hm : m.1 = field.name
    · obtain ⟨name, v⟩ := m
      obtain rfl : name = field.name := hm
      rw [List.filter_cons_of_pos (by simp)]
      cases slot with
      | some a => simp [fillOne, fill] at hone
      | none =>
        rw [fillOne_self, map_eq_ok_iff] at hone
        obtain ⟨a, ha, hfilled⟩ := hone
        cases hfilled
        refine ⟨fillAll_cons_eq_ok_iff.2 ⟨slots, fillOne_of_notMem hname slots, hrest⟩, .inr ?_⟩
        -- a filled slot stays as it is
        obtain ⟨hnone, rfl⟩ | ⟨_, _, _, hempty, _⟩ := hslot
        · exact ⟨v, a, by rw [hnone], rfl, ha, rfl⟩
        · cases hempty
    · rw [List.filter_cons_of_neg (by simpa using hm)]
      rw [fillOne_of_ne hm, map_eq_ok_iff] at hone
      obtain ⟨slots₂, hslots, hpassed⟩ := hone
      cases hpassed
      exact ⟨fillAll_cons_eq_ok_iff.2 ⟨_, hslots, hrest⟩, hslot⟩

/-- The values that `fillAll` and `finish` give are those that the row `Holds`. -/
theorem holds_of_fillAll {row : Row σ ρ} (hnames : row.names.Nodup) {ms : List (String × Value)}
    {slots : σ} {values : ρ} (hfill : row.fillAll row.empty ms = .ok slots)
    (hfinish : row.finish slots = .ok values) : row.Holds ms values := by
  induction row with
  | nil => trivial
  | cons field rest ih =>
    obtain ⟨hname, hnames⟩ := List.nodup_cons.1 hnames
    obtain ⟨slot, slots⟩ := slots
    obtain ⟨a, values⟩ := values
    obtain ⟨hrest, hslot⟩ := fillAll_cons_cases hname hfill
    -- a slot that is not filled takes the value of an absent field
    obtain ⟨hor, htail⟩ : slot.or field.absent = some a ∧ rest.finish slots = .ok values := by
      rw [finish] at hfinish
      split at hfinish
      · next b hb =>
        obtain ⟨values', hvalues, heq⟩ := map_eq_ok_iff.1 hfinish
        cases heq
        exact ⟨hb, hvalues⟩
      · cases hfinish
    refine ⟨?_, ih hnames hrest htail⟩
    obtain ⟨hnone, rfl⟩ | ⟨v, b, hsole, -, hb, rfl⟩ := hslot
    · exact .inr ⟨hnone, hor⟩
    · cases hor
      exact .inl ⟨v, hsole, hb⟩

end Row

namespace Codec

/-- `record` reads a structure from an object exactly if it is made of values that the row `Holds`
    in it. -/
theorem ofValue_record_eq_ok_iff {row : Row σ ρ} (hnames : row.names.Nodup) {name : String}
    {make : ρ → α} {parts : α → ρ} {ms : List (String × Value)} {a : α} :
    (record name row make parts).ofValue (.object ms) = .ok a ↔
      ∃ values, row.Holds ms values ∧ make values = a := by
  constructor
  · intro h
    obtain ⟨slots, hfill, hmake⟩ := bind_eq_ok_iff.1 h
    obtain ⟨values, hfinish, rfl⟩ := map_eq_ok_iff.1 hmake
    exact ⟨values, Row.holds_of_fillAll hnames hfill hfinish, rfl⟩
  · rintro ⟨values, hholds, rfl⟩
    exact ofValue_record hholds hnames name make parts

/-- `gatherValues` gives a fault if the tag comes again once it is known. -/
theorem gatherValues_some_eq_ok_iff {tag : String} {cases : List (String × α)} {a : α}
    {others : List (String × Value)} {ms : List (String × Value)} {known : Gathered α} :
    gatherValues tag cases (some a, others) ms = .ok known ↔
      (ms.filter fun m => m.1 = tag) = [] ∧ known = (some a, ms.reverse ++ others) := by
  constructor
  · intro h
    -- a second tag is a fault
    have hms : ∀ m ∈ ms, m.1 ≠ tag := by
      induction ms generalizing others with
      | nil => simp
      | cons m ms ih =>
        obtain ⟨name, v⟩ := m
        by_cases hname : name = tag
        · simp [gatherValues, hname] at h
        · rw [gatherValues, if_neg hname] at h
          exact List.forall_mem_cons.2 ⟨hname, ih h⟩
    rw [gatherValues_of_notMem hms] at h
    cases h
    exact ⟨by simpa using hms, rfl⟩
  · rintro ⟨hms, rfl⟩
    exact gatherValues_of_notMem (by simpa using hms) others

/-- `gatherValues` finds the tag as the only member of its name, and gathers the other members in
    order. -/
theorem gatherValues_none_eq_ok_iff {tag : String} {cases : List (String × α)} {a : α}
    {others others' : List (String × Value)} {ms : List (String × Value)} :
    gatherValues tag cases (none, others) ms = .ok (some a, others') ↔
      ∃ s, (ms.filter fun m => m.1 = tag) = [(tag, .string s)] ∧ choose cases s = .ok a ∧
        others' = (ms.filter fun m => m.1 ≠ tag).reverse ++ others := by
  induction ms generalizing others with
  | nil => simp [gatherValues]
  | cons m ms ih =>
    obtain ⟨name, v⟩ := m
    by_cases hname : name = tag
    · subst hname
      rw [List.filter_cons_of_pos (by simp), List.filter_cons_of_neg (by simp)]
      -- nothing but a text is a tag
      cases v with
      | string s =>
        simp only [gatherValues, if_true, bind_eq_ok_iff, gatherValues_some_eq_ok_iff]
        constructor
        · rintro ⟨b, hb, hnone, heq⟩
          cases heq
          have hall : (ms.filter fun m => m.1 ≠ name) = ms := by simpa using hnone
          exact ⟨s, by rw [hnone], hb, by rw [hall]⟩
        · rintro ⟨s', htag, hs, rfl⟩
          obtain ⟨heq, hnone⟩ := List.cons.inj htag
          cases heq
          have hall : (ms.filter fun m => m.1 ≠ name) = ms := by simpa using hnone
          exact ⟨a, hs, hnone, by rw [hall]⟩
      | _ => simp [gatherValues]
    · rw [List.filter_cons_of_neg (by simpa using hname),
        List.filter_cons_of_pos (by simpa using hname)]
      simp only [gatherValues, if_neg hname, ih, List.reverse_cons, List.append_assoc,
        List.singleton_append]

/-- `tagged` reads an alternative from an object exactly if the only member with the name of the tag
    tells how to read the other members. -/
theorem ofValue_tagged_eq_ok_iff {tag name : String}
    {cases : List (String × (Value → Except Fault α))} {write : α → String × List (String × Value)}
    {ms : List (String × Value)} {a : α} :
    (tagged tag name cases write).ofValue (.object ms) = .ok a ↔
      ∃ s decode, (ms.filter fun m => m.1 = tag) = [(tag, .string s)] ∧
        choose cases s = .ok decode ∧ decode (.object (ms.filter fun m => m.1 ≠ tag)) = .ok a := by
  constructor
  · intro h
    obtain ⟨⟨found, others⟩, hgather, hdecode⟩ := bind_eq_ok_iff.1 h
    cases found with
    | none => cases hdecode
    | some decode =>
      obtain ⟨s, htag, hs, rfl⟩ := gatherValues_none_eq_ok_iff.1 hgather
      refine ⟨s, decode, htag, hs, ?_⟩
      simpa [ofGathered] using hdecode
  · rintro ⟨s, decode, htag, hs, hdecode⟩
    refine bind_eq_ok_iff.2 ⟨_, gatherValues_none_eq_ok_iff.2 ⟨s, htag, hs, rfl⟩, ?_⟩
    simpa [ofGathered] using hdecode

end Codec

/-! ## Steps -/

/-- What may be changed in an object without a change of meaning: members of unknown names may be
    added, members with the value that is taken for them when they are absent may be left out or
    added, and values may be respelled inside. -/
structure Leeway where
  known : List String
  defaults : List (String × Value)
  Inside : String → Value → Value → Prop

namespace Leeway

/-- One change in the members of an object. -/
inductive Step (l : Leeway) : List (String × Value) → List (String × Value) → Prop where
  | permute {ms ms' : List (String × Value)} (h : ms.Perm ms') : Step l ms ms'
  | unknown {m : String × Value} {ms : List (String × Value)} (h : m.1 ∉ l.known) :
      Step l ms (m :: ms)
  | writeOut {m : String × Value} {ms : List (String × Value)} (hm : m ∈ l.defaults)
      (habsent : ∀ n ∈ ms, n.1 ≠ m.1) : Step l ms (m :: ms)
  | leaveOut {m : String × Value} {ms : List (String × Value)} (hm : m ∈ l.defaults) :
      Step l (m :: ms) ms
  | inside {name : String} {v v' : Value} {ms : List (String × Value)} (h : l.Inside name v v') :
      Step l ((name, v) :: ms) ((name, v') :: ms)

/-- Any number of changes in the members of an object. -/
def Respelled (l : Leeway) : List (String × Value) → List (String × Value) → Prop :=
  ReflTransGen l.Step

/-- A name whose members may be moved, and nothing else. -/
structure Fixes (l : Leeway) (tag : String) : Prop where
  known : tag ∈ l.known
  default : ∀ m ∈ l.defaults, m.1 ≠ tag
  inside : ∀ v v', ¬ l.Inside tag v v'

/-- One `Step`, seen apart from the members of a name that may only be moved. -/
theorem Step.filter {l : Leeway} {tag : String} (htag : l.Fixes tag)
    {ms ms' : List (String × Value)} (h : l.Step ms ms') :
    (ms.filter fun m => m.1 = tag).Perm (ms'.filter fun m => m.1 = tag) ∧
      l.Step (ms.filter fun m => m.1 ≠ tag) (ms'.filter fun m => m.1 ≠ tag) := by
  cases h with
  | permute h => exact ⟨h.filter _, .permute (h.filter _)⟩
  | @unknown m ms h =>
    have hm : m.1 ≠ tag := by
      rintro rfl
      exact h htag.known
    rw [List.filter_cons_of_neg (by simpa using hm), List.filter_cons_of_pos (by simpa using hm)]
    exact ⟨.refl _, .unknown h⟩
  | @writeOut m ms h habsent =>
    have hm := htag.default m h
    rw [List.filter_cons_of_neg (by simpa using hm), List.filter_cons_of_pos (by simpa using hm)]
    exact ⟨.refl _, .writeOut h fun n hn => habsent n (List.mem_filter.1 hn).1⟩
  | @leaveOut m ms h =>
    have hm := htag.default m h
    rw [List.filter_cons_of_neg (by simpa using hm), List.filter_cons_of_pos (by simpa using hm)]
    exact ⟨.refl _, .leaveOut h⟩
  | @inside name v v' ms h =>
    have hm : name ≠ tag := by
      rintro rfl
      exact htag.inside v v' h
    simp only [List.filter_cons, decide_eq_true_eq, if_neg hm, if_pos hm]
    exact ⟨.refl _, .inside h⟩

/-- Any number of steps, seen apart from the members of a name that may only be moved. -/
theorem Respelled.filter {l : Leeway} {tag : String} (htag : l.Fixes tag)
    {ms ms' : List (String × Value)} (h : l.Respelled ms ms') :
    (ms.filter fun m => m.1 = tag).Perm (ms'.filter fun m => m.1 = tag) ∧
      l.Respelled (ms.filter fun m => m.1 ≠ tag) (ms'.filter fun m => m.1 ≠ tag) := by
  induction h with
  | refl => exact ⟨.refl _, .refl⟩
  | tail _ hstep ih =>
    obtain ⟨hperm, hrest⟩ := hstep.filter htag
    exact ⟨ih.1.trans hperm, ih.2.tail hrest⟩

end Leeway

/-- What is read stays the same when a value is replaced by a related one. -/
def Codec.Keeps (c : Codec α) (R : Value → Value → Prop) : Prop :=
  ∀ v v' a, R v v' → c.ofValue v = .ok a → c.ofValue v' = .ok a

/-- A field for which a leeway is safe: its name is known, what may be left out is what is taken for
    it when it is absent, and respelling inside keeps what is read. -/
structure Field.Allows (field : Field α) (l : Leeway) : Prop where
  known : field.name ∈ l.known
  default : ∀ v, (field.name, v) ∈ l.defaults → ∃ a, field.absent = some a ∧
    field.codec.ofValue v = .ok a
  inside : field.codec.Keeps (l.Inside field.name)

/-- A field that may not be left out. -/
theorem Field.allows_of_required {field : Field α} {l : Leeway} (hknown : field.name ∈ l.known)
    (hdefault : ∀ v, (field.name, v) ∉ l.defaults)
    (hinside : field.codec.Keeps (l.Inside field.name)) : field.Allows l where
  known := hknown
  default v hv := absurd hv (hdefault v)
  inside := hinside

/-- A field that may be left out if it has one value. -/
theorem Field.allows_of_absent {field : Field α} {l : Leeway} (v : Value)
    (hknown : field.name ∈ l.known) (hdefault : ∀ w, (field.name, w) ∈ l.defaults → w = v)
    {a : α} (habsent : field.absent = some a) (hv : field.codec.ofValue v = .ok a)
    (hinside : field.codec.Keeps (l.Inside field.name)) : field.Allows l where
  known := hknown
  default w hw := ⟨a, habsent, hdefault w hw ▸ hv⟩
  inside := hinside

/-- What a field `Holds` is kept by one `Step`. -/
theorem Field.Holds.step {field : Field α} {l : Leeway} (hfield : field.Allows l)
    {ms ms' : List (String × Value)} (hstep : l.Step ms ms') {a : α} (h : field.Holds ms a) :
    field.Holds ms' a := by
  unfold Field.Holds at h ⊢
  cases hstep with
  | permute hperm =>
    -- at most one member has the name, so there is no order among those
    have hfilter := hperm.filter fun m => decide (m.1 = field.name)
    obtain ⟨v, hsole, ha⟩ | ⟨hnone, habsent⟩ := h
    · rw [hsole, List.singleton_perm] at hfilter
      exact .inl ⟨v, hfilter.symm, ha⟩
    · rw [hnone, List.nil_perm] at hfilter
      exact .inr ⟨hfilter, habsent⟩
  | @unknown m ms hm =>
    -- the name of the field is known
    have hne : m.1 ≠ field.name := fun heq => hm (heq ▸ hfield.known)
    rwa [List.filter_cons_of_neg (by simpa using hne)]
  | @writeOut m ms hm habsent =>
    by_cases hname : m.1 = field.name
    · obtain ⟨name, v⟩ := m
      obtain rfl : name = field.name := hname
      -- what is written out was absent, and has the value that was taken for it
      have hnone : (ms.filter fun m => m.1 = field.name) = [] := by simpa using habsent
      obtain ⟨b, hb, hvalue⟩ := hfield.default v hm
      rw [List.filter_cons_of_pos (by simp), hnone]
      obtain ⟨w, hsole, -⟩ | ⟨-, ha⟩ := h
      · simp [hnone] at hsole
      · obtain rfl : b = a := Option.some.inj (hb.symm.trans ha)
        exact .inl ⟨v, rfl, hvalue⟩
    · rwa [List.filter_cons_of_neg (by simpa using hname)]
  | @leaveOut m ms hm =>
    by_cases hname : m.1 = field.name
    · obtain ⟨name, v⟩ := m
      obtain rfl : name = field.name := hname
      obtain ⟨b, hb, hvalue⟩ := hfield.default v hm
      rw [List.filter_cons_of_pos (by simp)] at h
      obtain ⟨w, hsole, ha⟩ | ⟨hnone, -⟩ := h
      -- it was the only member of its name
      · obtain ⟨heq, hnone⟩ := List.cons.inj hsole
        cases heq
        rw [hvalue, Except.ok.injEq] at ha
        exact .inr ⟨hnone, ha ▸ hb⟩
      · cases hnone
    · rwa [List.filter_cons_of_neg (by simpa using hname)] at h
  | @inside name v v' ms hinside =>
    by_cases hname : name = field.name
    · subst hname
      rw [List.filter_cons_of_pos (by simp)] at h ⊢
      obtain ⟨w, hsole, ha⟩ | ⟨hnone, -⟩ := h
      · obtain ⟨heq, hnone⟩ := List.cons.inj hsole
        cases heq
        exact .inl ⟨v', by rw [hnone], hfield.inside v v' a hinside ha⟩
      · cases hnone
    · rw [List.filter_cons_of_neg (by simpa using hname)] at h ⊢
      exact h

namespace Row

/-- A row for whose fields a leeway is safe. -/
def Allows {σ ρ : Type} : Row σ ρ → Leeway → Prop
  | nil, _ => True
  | cons field rest, l => field.Allows l ∧ rest.Allows l

/-- What a row `Holds` is kept by one `Step`. -/
theorem Holds.step {row : Row σ ρ} {l : Leeway} (hrow : row.Allows l)
    {ms ms' : List (String × Value)} (hstep : l.Step ms ms') {values : ρ}
    (h : row.Holds ms values) : row.Holds ms' values := by
  induction row with
  | nil => trivial
  | cons field rest ih =>
    obtain ⟨a, values⟩ := values
    exact ⟨h.1.step hrow.1 hstep, ih hrow.2 h.2⟩

/-- What a row `Holds` is kept by any number of steps. -/
theorem Holds.respelled {row : Row σ ρ} {l : Leeway} (hrow : row.Allows l)
    {ms ms' : List (String × Value)} (h : l.Respelled ms ms') {values : ρ}
    (hvalues : row.Holds ms values) : row.Holds ms' values := by
  induction h with
  | refl => exact hvalues
  | tail _ hstep ih => exact ih.step hrow hstep

end Row

namespace Codec

/-- `record` reads the same structure after changes for which there is leeway. -/
theorem ofValue_record_respelled {row : Row σ ρ} {l : Leeway} (hrow : row.Allows l)
    (hnames : row.names.Nodup) {name : String} {make : ρ → α} {parts : α → ρ}
    {ms ms' : List (String × Value)} (h : l.Respelled ms ms') {a : α}
    (ha : (record name row make parts).ofValue (.object ms) = .ok a) :
    (record name row make parts).ofValue (.object ms') = .ok a := by
  obtain ⟨values, hvalues, rfl⟩ := (ofValue_record_eq_ok_iff hnames).1 ha
  exact (ofValue_record_eq_ok_iff hnames).2 ⟨values, hvalues.respelled hrow h, rfl⟩

/-- `tagged` reads the same after changes for which the alternative that is named has leeway. -/
theorem ofValue_tagged_respelled {tag name : String}
    {cases : List (String × (Value → Except Fault α))} {write : α → String × List (String × Value)}
    {l : Leeway} (hfixes : l.Fixes tag) {s : String} {decode : Value → Except Fault α}
    (hs : choose cases s = .ok decode)
    (hdecode : ∀ ms ms' a, l.Respelled ms ms' → decode (.object ms) = .ok a →
      decode (.object ms') = .ok a)
    {ms ms' : List (String × Value)} (htag : (tag, .string s) ∈ ms) (h : l.Respelled ms ms') {a : α}
    (ha : (tagged tag name cases write).ofValue (.object ms) = .ok a) :
    (tagged tag name cases write).ofValue (.object ms') = .ok a := by
  obtain ⟨s', decode', hsole, hs', hothers⟩ := ofValue_tagged_eq_ok_iff.1 ha
  -- the tag that is read is the one that is there
  obtain rfl : s = s' := by
    have hmem : (tag, Value.string s) ∈ ms.filter fun m => m.1 = tag :=
      List.mem_filter.2 ⟨htag, by simp⟩
    rw [hsole] at hmem
    simpa using hmem
  obtain rfl : decode = decode' := Except.ok.inj (hs.symm.trans hs')
  -- the tag stays, and the others are changed as there is leeway
  obtain ⟨hperm, hrest⟩ := h.filter hfixes
  rw [hsole, List.singleton_perm] at hperm
  exact ofValue_tagged_eq_ok_iff.2 ⟨s, decode, hperm.symm, hs, hdecode _ _ a hrest hothers⟩

end Codec

/-- A list whose elements are replaced by related ones. -/
inductive Value.Elementwise (R : Value → Value → Prop) : Value → Value → Prop where
  | list {vs vs' : List Value} (h : List.Forall₂ R vs vs') : Elementwise R (.list vs) (.list vs')

namespace Codec

/-- `Keeps` holds of fewer changes. -/
theorem Keeps.mono {c : Codec α} {R R' : Value → Value → Prop} (hc : c.Keeps R)
    (h : ∀ v v', R' v v' → R v v') : c.Keeps R' :=
  fun v v' a hv ha => hc v v' a (h v v' hv) ha

/-- `Keeps` holds of no changes. -/
theorem keeps_of_not (c : Codec α) {R : Value → Value → Prop} (h : ∀ v v', ¬ R v v') :
    c.Keeps R :=
  fun v v' _ hv _ => absurd hv (h v v')

/-- `list` keeps what is read when its elements do. -/
theorem Keeps.list {c : Codec α} {R : Value → Value → Prop} (hc : c.Keeps R) :
    c.list.Keeps (Value.Elementwise R) := by
  rintro _ _ as ⟨hvs⟩ has
  change readAll c.ofValue _ = .ok as at has ⊢
  induction hvs generalizing as with
  | nil => exact has
  | cons hv _ ih =>
    obtain ⟨a, ha, as', has', rfl⟩ := readAll_cons_eq_ok_iff.1 has
    exact readAll_cons_eq_ok_iff.2 ⟨a, hc _ _ a hv ha, as', ih as' has', rfl⟩

end Codec

end CallCycle.Json

namespace CallCycle

open Json

/-! ## Symbols -/

/-- What may be changed in a symbol. -/
def Symbol.leeway : Leeway where
  known := ["owner", "name", "types"]
  defaults := [("types", .list [])]
  Inside _ _ _ := False

/-- A symbol that was respelled. -/
inductive Symbol.Respelled : Value → Value → Prop where
  | object {ms ms' : List (String × Value)} (h : Symbol.leeway.Respelled ms ms') :
      Symbol.Respelled (.object ms) (.object ms')

/-- `Symbol.codec` reads the same from a symbol that was respelled. -/
theorem Symbol.keeps_codec : Symbol.codec.Keeps Symbol.Respelled := by
  rintro _ _ s ⟨h⟩ hs
  -- nothing is changed inside the members of a symbol
  have hplain : ∀ {α : Type} (c : Codec α) (name : String), c.Keeps (leeway.Inside name) :=
    fun c _ => c.keeps_of_not fun _ _ hv => hv
  refine Codec.ofValue_record_respelled ?_ (by decide) h hs
  refine ⟨?_, ?_, ?_, trivial⟩
  · exact Field.allows_of_required (by decide) (by simp [leeway]) (hplain _ _)
  · exact Field.allows_of_required (by decide) (by simp [leeway]) (hplain _ _)
  · exact Field.allows_of_absent (.list []) (by decide) (by simp [leeway]) rfl rfl (hplain _ _)

/-! ## Call sites -/

/-- What may be changed in a call site whose target is known. -/
def ResolvedCall.leeway : Leeway where
  known := ["status", "target", "declared_params", "dispatch", "line"]
  defaults := [("declared_params", .null), ("dispatch", .string "virtual"), ("line", .null)]
  Inside name v v' := name = "target" ∧ Symbol.Respelled v v'

/-- What may be changed in a call site whose target is not known. -/
def UnresolvedCall.leeway : Leeway where
  known := ["status", "expression", "reason", "line"]
  defaults := [("reason", .null), ("line", .null)]
  Inside _ _ _ := False

/-- A call site that was respelled.  Its status tells what may be changed. -/
inductive CallSite.Respelled : Value → Value → Prop where
  | resolved {ms ms' : List (String × Value)} (hstatus : ("status", .string "resolved") ∈ ms)
      (h : ResolvedCall.leeway.Respelled ms ms') : CallSite.Respelled (.object ms) (.object ms')
  | unresolved {ms ms' : List (String × Value)} (hstatus : ("status", .string "unresolved") ∈ ms)
      (h : UnresolvedCall.leeway.Respelled ms ms') : CallSite.Respelled (.object ms) (.object ms')

/-- `ResolvedCall.codec` reads the same from a call that was respelled. -/
theorem ResolvedCall.ofValue_respelled {ms ms' : List (String × Value)}
    (h : ResolvedCall.leeway.Respelled ms ms') {call : ResolvedCall}
    (hcall : ResolvedCall.codec.ofValue (.object ms) = .ok call) :
    ResolvedCall.codec.ofValue (.object ms') = .ok call := by
  -- only the target is changed inside
  have hplain : ∀ {α : Type} (c : Codec α) {name : String}, name ≠ "target" →
      c.Keeps (leeway.Inside name) :=
    fun c _ hname => c.keeps_of_not fun _ _ hv => hname hv.1
  refine Codec.ofValue_record_respelled ?_ (by decide) h hcall
  refine ⟨?_, ?_, ?_, ?_, trivial⟩
  · exact Field.allows_of_required (by decide) (by simp [leeway])
      (Symbol.keeps_codec.mono fun _ _ hv => hv.2)
  · exact Field.allows_of_absent .null (by decide) (by simp [leeway]) rfl rfl (hplain _ (by decide))
  · exact Field.allows_of_absent (.string "virtual") (by decide) (by simp [leeway]) rfl rfl
      (hplain _ (by decide))
  · exact Field.allows_of_absent .null (by decide) (by simp [leeway]) rfl rfl (hplain _ (by decide))

/-- `UnresolvedCall.codec` reads the same from a call that was respelled. -/
theorem UnresolvedCall.ofValue_respelled {ms ms' : List (String × Value)}
    (h : UnresolvedCall.leeway.Respelled ms ms') {call : UnresolvedCall}
    (hcall : UnresolvedCall.codec.ofValue (.object ms) = .ok call) :
    UnresolvedCall.codec.ofValue (.object ms') = .ok call := by
  have hplain : ∀ {α : Type} (c : Codec α) (name : String), c.Keeps (leeway.Inside name) :=
    fun c _ => c.keeps_of_not fun _ _ hv => hv
  refine Codec.ofValue_record_respelled ?_ (by decide) h hcall
  refine ⟨?_, ?_, ?_, trivial⟩
  · exact Field.allows_of_required (by decide) (by simp [leeway]) (hplain _ _)
  · exact Field.allows_of_absent .null (by decide) (by simp [leeway]) rfl rfl (hplain _ _)
  · exact Field.allows_of_absent .null (by decide) (by simp [leeway]) rfl rfl (hplain _ _)

/-- The status of a resolved call may only be moved. -/
theorem ResolvedCall.fixes_status : ResolvedCall.leeway.Fixes "status" where
  known := by decide
  default := by simp [leeway]
  inside _ _ hv := absurd hv.1 (by decide)

/-- The status of an unresolved call may only be moved. -/
theorem UnresolvedCall.fixes_status : UnresolvedCall.leeway.Fixes "status" where
  known := by decide
  default := by simp [leeway]
  inside _ _ hv := hv

/-- `CallSite.codec` reads the same from a call site that was respelled. -/
theorem CallSite.keeps_codec : CallSite.codec.Keeps CallSite.Respelled := by
  intro v v' site h hsite
  cases h with
  | resolved hstatus h =>
    refine Codec.ofValue_tagged_respelled ResolvedCall.fixes_status rfl ?_ hstatus h hsite
    intro ms ms' a hms ha
    obtain ⟨call, hcall, rfl⟩ := map_eq_ok_iff.1 ha
    exact map_eq_ok_iff.2 ⟨call, ResolvedCall.ofValue_respelled hms hcall, rfl⟩
  | unresolved hstatus h =>
    refine Codec.ofValue_tagged_respelled UnresolvedCall.fixes_status rfl ?_ hstatus h hsite
    intro ms ms' a hms ha
    obtain ⟨call, hcall, rfl⟩ := map_eq_ok_iff.1 ha
    exact map_eq_ok_iff.2 ⟨call, UnresolvedCall.ofValue_respelled hms hcall, rfl⟩

/-! ## Records -/

namespace Record

/-- What may be changed in a record. -/
def leeway : Leeway where
  known := ["declaration", "overrides", "calls"]
  defaults := [("overrides", .list []), ("calls", .list [])]
  Inside name v v' :=
    name = "declaration" ∧ Symbol.Respelled v v' ∨
      name = "overrides" ∧ v.Elementwise Symbol.Respelled v' ∨
      name = "calls" ∧ v.Elementwise CallSite.Respelled v'

/-- A record that was respelled. -/
inductive Respelled : Value → Value → Prop where
  | object {ms ms' : List (String × Value)} (h : leeway.Respelled ms ms') :
      Respelled (.object ms) (.object ms')

/-- `Record.codec` reads the same from a record that was respelled. -/
theorem keeps_codec : codec.Keeps Respelled := by
  rintro _ _ r ⟨h⟩ hr
  refine Codec.ofValue_record_respelled ?_ (by decide) h hr
  refine ⟨?_, ?_, ?_, trivial⟩
  · exact Field.allows_of_required (by decide) (by simp [leeway])
      (Symbol.keeps_codec.mono fun _ _ hv => by simpa [leeway] using hv)
  · exact Field.allows_of_absent (.list []) (by decide) (by simp [leeway]) rfl rfl
      (Symbol.keeps_codec.list.mono fun _ _ hv => by simpa [leeway] using hv)
  · exact Field.allows_of_absent (.list []) (by decide) (by simp [leeway]) rfl rfl
      (CallSite.keeps_codec.list.mono fun _ _ hv => by simpa [leeway] using hv)

/-- A text that starts with an object is not taken for a list by `readAll`. -/
theorem trimStart_ne_of_spaced {ts : List Token} {text : List Char} (h : Spaced ts text)
    {ts' : List Token} (hts : ts = .openObject :: ts') (tail : List Char) :
    Text.trimStart text ≠ '[' :: tail := by
  induction h with
  | nil => cases hts
  | space hc _ ih =>
    rw [Text.trimStart, List.dropWhile_cons_of_pos (isBlank_of_isSpace hc)]
    exact ih hts
  | token hword _ _ _ =>
    obtain ⟨rfl, rfl⟩ := List.cons.inj hts
    cases hword with
    | @punctuation _ c hc =>
      obtain rfl : c = '\x7b' := by
        unfold punctuation? at hc
        split at hc <;> first | rfl | cases hc
      rw [Text.trimStart, List.singleton_append, List.dropWhile_cons_of_neg (by decide)]
      simp

/-- `readAll` reads a record from every text that has the tokens of a respelling of what is written
    for it, with white space anywhere between them. -/
theorem readAll_respelled (r : Record) {v : Value} (h : Respelled (codec.toValue r) v)
    (hfits : v.Fits Codec.maxDepth) {text : String} (htext : Spaced v.tokens text.toList) :
    readAll text = .ok [r] := by
  have hvalue : codec.ofValue v = .ok r :=
    keeps_codec _ v r h ((lawful_codec 0).ofValue_toValue r)
  have hvalues : Codec.readAll codec.ofValue [v] = .ok [r] :=
    Codec.readAll_cons_eq_ok_iff.2 ⟨r, hvalue, [], rfl, rfl⟩
  -- the value is one of a stream
  have hstream : codec.readStream text = .ok [r] :=
    Codec.readStream_of_spaced agrees_codec (by simpa using hfits) hvalues (by simpa using htext)
  obtain ⟨hms⟩ := h
  rw [readAll]
  split
  · next hlist => exact absurd hlist (trimStart_ne_of_spaced htext rfl _)
  · exact hstream

/-- A record with one call, in the order and with the members that are written. -/
def relay : Record where
  declaration := ⟨"A", "f", ["int"]⟩
  calls := [.resolved { target := ⟨"A", "g", []⟩ }]

/-- The call of `relay`, with its status behind everything else, its line written out and the types
    of its target left out. -/
def relayCall : Value :=
  .object [("line", .null), ("target", .object [("name", .string "g"), ("owner", .string "A")]),
    ("status", .string "resolved")]

/-- The members of `relay` in another order, with one of an unknown name between them. -/
def relayMembers : List (String × Value) :=
  [("note", .list [.nat 7, .object []]), ("calls", .list [relayCall]),
    ("declaration", Symbol.codec.toValue relay.declaration)]

/-- The steps from what is written of `relay` to `relayMembers`. -/
theorem respelled_relay : Respelled (codec.toValue relay) (.object relayMembers) := by
  -- the types of the target are left out
  have htarget : Symbol.Respelled (Symbol.codec.toValue ⟨"A", "g", []⟩)
      (.object [("name", .string "g"), ("owner", .string "A")]) :=
    .object (.head (.permute (List.reverse_perm _).symm) (.single (.leaveOut (.head _))))
  -- the line of the call is written out
  have hcall : CallSite.Respelled
      (CallSite.codec.toValue (.resolved { target := ⟨"A", "g", []⟩ })) relayCall := by
    refine .resolved (.head _) (.head (.permute (List.reverse_perm _).symm) ?_)
    refine .head (.inside ⟨rfl, htarget⟩) (.single (.writeOut ?_ ?_))
    · simp [ResolvedCall.leeway]
    · simp
  refine .object (.head (.permute (List.reverse_perm _).symm) ?_)
  refine .head (.inside (.inr (.inr ⟨rfl, .list (.cons hcall .nil)⟩))) (.single (.unknown ?_))
  decide

/-- The members have few brackets, and the only number is small. -/
theorem fits_relayMembers : ∀ m ∈ relayMembers, m.2.Fits 126 := by
  have hnote : Value.Fits 126 (.list [.nat 7, .object []]) :=
    .list (by simpa using ⟨.int (by decide) (by decide), .object (by simp)⟩)
  have htarget : Value.Fits 124 (.object [("name", .string "g"), ("owner", .string "A")]) :=
    .object (by simpa using ⟨.string _, .string _⟩)
  have hcall : relayCall.Fits 125 :=
    .object (by simpa using ⟨.null, htarget, .string _⟩)
  have hcalls : Value.Fits 126 (.list [relayCall]) := .list (by simpa using hcall)
  simpa [relayMembers] using
    ⟨hnote, hcalls, (Symbol.lawful_codec 124).fits relay.declaration⟩

/-- A text of the members of `relay`.  A letter of the unknown name is escaped, and white space
    stands in some places. -/
def relayText : String :=
  "\n\x7b \"\\u006eote\" :[7,\x7b\x7d]\t,\"calls\":[\x7b\"line\":null," ++
    "\"target\":\x7b\"name\":\"g\",\"owner\":\"A\"\x7d,\"status\":\"resolved\"\x7d]," ++
    "\"declaration\":\x7b\"owner\":\"A\",\"name\":\"f\",\"types\":[\"int\"]\x7d\x7d\r\n"

/-- The tokens of `relayText`, one after the other. -/
theorem spaced_relayText : Spaced (Value.object relayMembers).tokens relayText.toList := by
  -- the text is cut where it is not what would be written
  have htext : relayText.toList =
      '\n' :: '\x7b' :: ' ' :: ('"' :: ['\\', 'u', '0', '0', '6', 'e', 'o', 't', 'e'] ++ ['"'] ++
        (' ' :: ':' :: ((Value.list [.nat 7, .object []]).compact ++
          ('\t' :: ',' :: (Value.compactMembers relayMembers.tail ++ ['\x7d', '\r', '\n']))))) := by
    decide +kernel
  -- the first letter of the name is escaped
  have hname : Spells ['\\', 'u', '0', '0', '6', 'e', 'o', 't', 'e'] "note".toList := by
    have hunit : Hex ['0', '0', '6', 'e'] (((0 * 16 + 0) * 16 + 6) * 16 + 14) :=
      .mk rfl rfl rfl rfl
    have hletter : Escape ['u', '0', '0', '6', 'e'] 'n' := .unit hunit rfl rfl
    have hself : Spells ['o', 't', 'e'] ['o', 't', 'e'] := spells_flatMap ['o', 't', 'e']
    exact .escape hletter hself
  have hnumber : ∀ {c : Char} {rest : List Char}, (c = '\t' ∨ c = '\x7d') →
      EndsNumber (c :: rest) := by
    rintro c rest (rfl | rfl) <;> simp [EndsNumber, Char.isDigit]
  obtain ⟨hnote, hothers⟩ := List.forall_mem_cons.1 fits_relayMembers
  have hend : Spaced [.closeObject] ['\x7d', '\r', '\n'] :=
    .token (.punctuation rfl) trivial (.space rfl (.space rfl .nil))
  have hmembers := Value.spaced_members (fun m hm => (hothers m hm).integral.renders) hend
    (hnumber (.inr rfl))
  have hcomma := (Value.spaced_punctuation (c := ',') rfl hmembers).1
  have hvalue := hnote.integral.renders (.space (c := '\t') rfl hcomma) (hnumber (.inl rfl))
  rw [htext]
  exact .space rfl (.token (.punctuation rfl) trivial (.space rfl (.token (.quoted hname) trivial
    (.space rfl (.token (.punctuation rfl) trivial hvalue)))))

/-- `relayText` is read as `relay`. -/
theorem readAll_respelled_relay : readAll relayText = .ok [relay] :=
  readAll_respelled relay respelled_relay (.object fits_relayMembers) spaced_relayText

end Record

end CallCycle

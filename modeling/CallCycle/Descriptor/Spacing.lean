import CallCycle.Text.Blank

/-!
# Spacing in descriptors

The white space of a type descriptor means nothing next to punctuation, and elsewhere any amount
of it means a single space: `Map < String , ? extends  Number >` is
`Map<String,? extends Number>`.
-/

namespace CallCycle.Descriptor

open Text

/-- The characters that stand in a descriptor without spaces around them. -/
def isPunctuation (c : Char) : Bool :=
  c == '<' || c == '>' || c == '[' || c == ']' || c == ',' || c == '.' || c == '&'

/-- Whether a gap between the characters `a` and `b` is kept, as one space. -/
def keepsGap (a b : Char) : Bool :=
  !isPunctuation a && !isPunctuation b

/-- Tightens the text that follows the character `last`, where `gap` tells whether blanks have
    been passed since. -/
def tightenAfter (last : Option Char) (gap : Bool) : List Char → List Char
  | [] => []
  | c :: cs =>
    if isBlank c then tightenAfter last true cs
    -- nothing stands in front of the first character, and then no gap is kept
    else if gap && last.any (keepsGap · c) then ' ' :: c :: tightenAfter (some c) false cs
    else c :: tightenAfter (some c) false cs

/-- Drops the blanks at both ends and next to punctuation, and writes all other gaps as one
    space. -/
def tighten (cs : List Char) : List Char :=
  tightenAfter none false cs

end CallCycle.Descriptor

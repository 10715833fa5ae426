/-!
# Blank characters

The white space that surrounds names, descriptors and record texts is the Unicode property
`White_Space`: the ASCII controls from tab to carriage return, the space, and the separators of
the other scripts.  Zero-width characters and the byte order mark are not blank.

Texts are handled as `List Char`; the functions on `String` are their images.
-/

namespace CallCycle.Text

/-- Whether `c` has the Unicode property `White_Space`. -/
def isBlank (c : Char) : Bool :=
  let n := c.toNat
  (9 ≤ n && n ≤ 13) || n == 0x20 || n == 0x85 || n == 0xA0 || n == 0x1680 ||
    (0x2000 ≤ n && n ≤ 0x200A) || n == 0x2028 || n == 0x2029 || n == 0x202F || n == 0x205F ||
    n == 0x3000

/-- Removes the blanks in front. -/
def trimStart (cs : List Char) : List Char :=
  cs.dropWhile isBlank

/-- Removes the blanks at the end. -/
def trimEnd (cs : List Char) : List Char :=
  (cs.reverse.dropWhile isBlank).reverse

/-- Removes the blanks at both ends. -/
def trim (cs : List Char) : List Char :=
  trimEnd (trimStart cs)

/-- Removes the blanks at both ends of a string. -/
def trimmed (s : String) : String :=
  String.ofList (trim s.toList)

/-- Whether a string has no character other than blanks. -/
def isBlankText (s : String) : Bool :=
  s.toList.all isBlank

end CallCycle.Text

import CallCycle.Json.Token

/-!
# Items

An item is what stands where a value may stand, as far as the text goes.  A list or object that
breaks off, or has something out of place, keeps what comes before, and its `Ending` says how it
ends; so the first fault in the order of the text can be found by whoever asks for the item, and
depends on what is asked for.

`Item.skip` passes over an item that nobody asks for.
-/

namespace CallCycle.Json

/-- How a list or an object ends: with its bracket or without, either of them possibly behind a
    comma, at something other than a comma, or at something other than a key. -/
inductive Ending where
  | closed
  | unclosed
  | commaClosed
  | commaUnclosed
  | misplaced
  | noKey
  deriving DecidableEq, Repr

mutual

/-- What stands where a value may stand.  `stray` is anything that starts no value. -/
inductive Item where
  | stray
  | word (w : Word) (fault : Option Fault)
  | number (n : NumberLexeme)
  | quoted (q : QuotedLexeme)
  | list (elements : List Item) (ending : Ending)
  | object (members : List Member) (ending : Ending)

/-- A member of an object: a key with its item, or a key cut off from what should follow it. -/
inductive Member where
  | entry (key : QuotedLexeme) (item : Item)
  | cut (key : QuotedLexeme) (fault : Fault)

end

/-! ## Building -/

/-- What stands between brackets: an item or a separator. -/
inductive Piece where
  | item (i : Item)
  | comma
  | colon

/-- A separator is no value. -/
def Piece.toItem : Piece → Item
  | .item i => i
  | .comma => .stray
  | .colon => .stray

/-- How the pieces between brackets end when nothing is out of place. -/
def Ending.plain (closed afterComma : Bool) : Ending :=
  match closed, afterComma with
  | true, false => .closed
  | false, false => .unclosed
  | true, true => .commaClosed
  | false, true => .commaUnclosed

/-- The elements behind the first one. -/
def moreElements (closed : Bool) : List Piece → List Item × Ending
  | [] => ([], .plain closed false)
  | [.comma] => ([], .plain closed true)
  | .comma :: p :: ps =>
    let (items, ending) := moreElements closed ps
    (p.toItem :: items, ending)
  -- no comma between two elements
  | _ :: _ => ([], .misplaced)

/-- The list of the given pieces, with or without its closing bracket. -/
def listOf (closed : Bool) : List Piece → Item
  | [] => .list [] (.plain closed false)
  | p :: ps =>
    let (items, ending) := moreElements closed ps
    .list (p.toItem :: items) ending

/-- The members of the given pieces, which stand at the start or behind a comma. -/
def membersOf (closed afterComma : Bool) : List Piece → List Member × Ending
  | [] => ([], .plain closed afterComma)
  -- a key and nothing behind it
  | [.item (.quoted key)] =>
    ([.cut key (if closed then .malformed .expectedColon else .truncated .object)], .closed)
  -- a key and a colon
  | [.item (.quoted key), .colon] =>
    ([.cut key (if closed then .malformed .expectedValue else .truncated .value)], .closed)
  -- a member at the end, or followed by another, or by something out of place
  | [.item (.quoted key), .colon, p] => ([.entry key p.toItem], .plain closed false)
  | .item (.quoted key) :: .colon :: p :: .comma :: ps =>
    let (members, ending) := membersOf closed true ps
    (.entry key p.toItem :: members, ending)
  | .item (.quoted key) :: .colon :: p :: _ :: _ => ([.entry key p.toItem], .misplaced)
  | .item (.quoted key) :: _ :: _ => ([.cut key (.malformed .expectedColon)], .closed)
  | _ :: _ => ([], .noKey)

/-- The object of the given pieces, with or without its closing bracket. -/
def objectOf (closed : Bool) (ps : List Piece) : Item :=
  let (members, ending) := membersOf closed false ps
  .object members ending

/-- Which brackets are open. -/
inductive Bracket where
  | list | object
  deriving DecidableEq, Repr

/-- The item between brackets. -/
def Bracket.item (closed : Bool) (ps : List Piece) : Bracket → Item
  | .list => listOf closed ps
  | .object => objectOf closed ps

/-- An open bracket and the pieces in front of it, reversed. -/
structure Frame where
  bracket : Bracket
  before : List Piece

/-- The pieces of a text that ends inside `frames` behind `pieces`, which are reversed. -/
def unwind (frames : List Frame) (pieces : List Piece) : List Piece :=
  match frames with
  | [] => pieces.reverse
  | f :: frames => unwind frames (.item (f.bracket.item false pieces.reverse) :: f.before)

/-- The pieces of a text, where `frames` are open and `pieces`, reversed, stand behind the last of
    them.  A closing bracket that does not fit ends the text. -/
def assemble (frames : List Frame) (pieces : List Piece) : List Token → List Piece
  | [] => unwind frames pieces
  | .openList :: ts => assemble (⟨.list, pieces⟩ :: frames) [] ts
  | .openObject :: ts => assemble (⟨.object, pieces⟩ :: frames) [] ts
  | .closeList :: ts =>
    match frames with
    | ⟨.list, before⟩ :: frames =>
      assemble frames (.item (listOf true pieces.reverse) :: before) ts
    -- nothing behind it can be reached
    | _ => unwind frames (.item .stray :: pieces)
  | .closeObject :: ts =>
    match frames with
    | ⟨.object, before⟩ :: frames =>
      assemble frames (.item (objectOf true pieces.reverse) :: before) ts
    | _ => unwind frames (.item .stray :: pieces)
  | .comma :: ts => assemble frames (.comma :: pieces) ts
  | .colon :: ts => assemble frames (.colon :: pieces) ts
  | .word w fault :: ts => assemble frames (.item (.word w fault) :: pieces) ts
  | .number n :: ts => assemble frames (.item (.number n) :: pieces) ts
  | .quoted q :: ts => assemble frames (.item (.quoted q) :: pieces) ts
  | .stray :: ts => assemble frames (.item .stray :: pieces) ts

/-- The items that stand one after the other in a text. -/
def itemsOf (cs : List Char) : List Item :=
  (assemble [] [] (tokens cs)).map Piece.toItem

/-! ## Faults -/

/-- Raises a fault, if there is one. -/
def raise : Option Fault → Except Fault Unit
  | none => .ok ()
  | some fault => .error fault

/-- The fault at the end of a list that is asked for. -/
def Ending.listFault? : Ending → Option Fault
  | .closed => none
  | .unclosed => some (.truncated .list)
  | .commaClosed => some (.malformed .trailingComma)
  | .commaUnclosed => some (.truncated .value)
  | .misplaced | .noKey => some (.malformed .expectedCommaOrBracket)

/-- The fault behind the last element that a list is asked for. -/
def Ending.surplusFault? : Ending → Option Fault
  | .closed => none
  | .unclosed => some (.truncated .list)
  | .commaClosed => some (.malformed .trailingComma)
  | .commaUnclosed | .misplaced | .noKey => some (.malformed .trailingCharacters)

/-- The fault at the end of an object that is asked for. -/
def Ending.objectFault? : Ending → Option Fault
  | .closed => none
  | .unclosed => some (.truncated .object)
  | .commaClosed => some (.malformed .trailingComma)
  | .commaUnclosed => some (.truncated .value)
  | .misplaced => some (.malformed .expectedCommaOrBrace)
  | .noKey => some (.malformed .keyNotString)

/-- The fault at the end of a list that is passed over. -/
def Ending.skipListFault? : Ending → Option Fault
  | .closed => none
  | .unclosed => some (.truncated .list)
  | .commaClosed => some (.malformed .expectedValue)
  | .commaUnclosed => some (.truncated .value)
  | .misplaced | .noKey => some (.malformed .expectedCommaOrBracket)

/-- The fault at the end of an object that is passed over. -/
def Ending.skipObjectFault? : Ending → Option Fault
  | .closed => none
  | .unclosed | .commaUnclosed => some (.truncated .object)
  | .misplaced => some (.malformed .expectedCommaOrBrace)
  | .commaClosed | .noKey => some (.malformed .keyNotString)

/-- What is found where a word stands. -/
def Word.found : Word → Found
  | .null => .null
  | .true => .bool Bool.true
  | .false => .bool Bool.false

/-- The fault of an item that stands where something else is asked for.  Lists and objects are not
    looked into. -/
def Item.mismatch (expected : String) : Item → Fault
  | .stray => .malformed .expectedValue
  | .word w none => .mismatch (.type w.found expected)
  | .word _ (some fault) => fault
  | .number n =>
    match n.value with
    | .ok n => .mismatch (.type (.number n) expected)
    | .error fault => fault
  | .quoted q =>
    match q.text with
    | .ok s => .mismatch (.type (.string s) expected)
    | .error fault => fault
  | .list _ _ => .mismatch (.type .list expected)
  | .object _ _ => .mismatch (.type .object expected)

/-! ## Skipping -/

mutual

/-- Passes over an item that nobody asks for. -/
def Item.skip : Item → Except Fault Unit
  | .stray => .error (.malformed .expectedValue)
  | .word _ fault => raise fault
  | .number n => n.skip
  | .quoted q => q.skip
  | .list elements ending => do
    skipAll elements
    raise ending.skipListFault?
  | .object members ending => do
    skipMembers members
    raise ending.skipObjectFault?

/-- Passes over the elements of a list. -/
def skipAll : List Item → Except Fault Unit
  | [] => .ok ()
  | item :: items => do
    item.skip
    skipAll items

/-- Passes over the members of an object. -/
def skipMembers : List Member → Except Fault Unit
  | [] => .ok ()
  | member :: members => do
    member.skip
    skipMembers members

/-- Passes over a member of an object. -/
def Member.skip : Member → Except Fault Unit
  | .entry key item => do
    key.skip
    item.skip
  | .cut key fault => do
    key.skip
    .error fault

end

end CallCycle.Json

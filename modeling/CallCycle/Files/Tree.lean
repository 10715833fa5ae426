import CallCycle.Files.Basic
import Std.Data.TreeMap

/-!
# File trees

A value that stands for the files around a working folder: what there is at each place.  A path is
followed name by name, and every name but the last has to lead to a folder.  The folders above the
working folder are there, and hold nothing else that is known.
-/

namespace CallCycle

open Std

/-- What there is at a place. -/
inductive Entry where
  | text (content : String)
  /-- A file whose bytes are no text. -/
  | binary (bytes : ByteArray)
  | folder

/-- A file with some bytes. -/
def Entry.ofBytes (bytes : ByteArray) : Entry :=
  match String.fromUTF8? bytes with
  | some content => .text content
  | none => .binary bytes

/-- A place is given by the names on the way to it from the working folder.  The way starts with
    `..` for each folder that it goes up, or with `/` if it starts at the root. -/
abbrev Place := List String

/-- All there is around a working folder. -/
structure FileTree where
  /-- The full name of the working folder. -/
  home : String
  /-- What there is, apart from the working folder and those above it. -/
  entries : TreeMap Place Entry

namespace FileTree

/-- A working folder with nothing in it. -/
def empty (home : String) : FileTree := ⟨home, ∅⟩

/-- What there is at a place. -/
def entry? (t : FileTree) (place : Place) : Option Entry :=
  -- the working folder and those above it
  if place.all (· = "..") || place = ["/"] then some .folder else t.entries[place]?

/-- Puts an entry at a place. -/
def put (t : FileTree) (place : Place) (e : Entry) : FileTree :=
  { t with entries := t.entries.insert place e }

/-! ## Following paths -/

/-- The place that a name leads to from a folder. -/
def step (place : Place) (name : String) : Place :=
  if name = "." then place
  else if name = ".." then
    match place.getLast? with
    -- there is nothing above the root
    | some "/" => place
    | some ".." | none => place ++ [".."]
    | some _ => place.dropLast
  else place ++ [name]

/-- The error of looking into something that is not a folder. -/
def folderError? (t : FileTree) (place : Place) : Option FileError :=
  match t.entry? place with
  | some .folder => none
  | some _ => some .notFolder
  | none => some .notFound

/-- Follows names from a place.  There may be nothing where the last one leads. -/
def walk (t : FileTree) (place : Place) : (names : List String) → Except FileError Place
  | [] => .ok place
  | name :: names =>
    match t.folderError? place with
    | some e => .error e
    | none => t.walk (step place name) names

/-- Where a path starts. -/
def startOf (path : String) : Place :=
  if isRooted path then ["/"] else []

/-- Follows a path.  After a slash at its end there has to be a folder. -/
def locate (t : FileTree) (path : String) : Except FileError Place :=
  -- a last step to `.` looks into what is there
  t.walk (startOf path) (if isSlashed path then namesOf path ++ ["."] else namesOf path)

/-- The folder that the last name of a path is in. -/
def enclosing (t : FileTree) (path : String) : Except FileError Place :=
  match t.walk (startOf path) (namesOf path).dropLast with
  | .error e => .error e
  | .ok place =>
    match t.folderError? place with
    | some e => .error e
    | none => .ok place

/-! ## What programs ask for -/

/-- Whether there is anything at a path. -/
def present (t : FileTree) (path : String) : Bool :=
  match t.locate path with
  | .ok place => (t.entry? place).isSome
  | .error _ => false

/-- Whether there is a folder at a path. -/
def isFolder (t : FileTree) (path : String) : Bool :=
  match t.locate path with
  | .ok place => (t.folderError? place).isNone
  | .error _ => false

/-- The text of a file. -/
def read (t : FileTree) (path : String) : Except FileError String :=
  match t.locate path with
  | .error e => .error e
  | .ok place =>
    match t.entry? place with
    | some (.text content) => .ok content
    | some (.binary _) => .error .notText
    | some .folder => .error .isFolder
    | none => .error .notFound

/-- Whether a name stands for a folder wherever it is. -/
def isDots (name : String) : Bool :=
  name = "." || name = ".."

/-- Gives a text to the file at a path, in a folder that is there. -/
def write (t : FileTree) (path text : String) : Except FileError FileTree :=
  match (namesOf path).getLast?, t.enclosing path with
  | none, _ => .error .isFolder
  | some _, .error e => .error e
  | some name, .ok folder =>
    if isSlashed path || isDots name then .error .isFolder
    else
      match t.entry? (folder ++ [name]) with
      -- anything else at that place is written over
      | some .folder => .error .isFolder
      | _ => .ok (t.put (folder ++ [name]) (.text text))

/-- Makes a folder where there is nothing, in a folder that is there. -/
def makeFolder (t : FileTree) (path : String) : Except FileError FileTree :=
  match (namesOf path).getLast?, t.enclosing path with
  | none, _ => .error .alreadyThere
  | some _, .error e => .error e
  | some name, .ok folder =>
    if isDots name || (t.entry? (folder ++ [name])).isSome then .error .alreadyThere
    else .ok (t.put (folder ++ [name]) .folder)

/-- Goes on with a changed tree, or with the same one after an error. -/
def change (t : FileTree) : Except FileError FileTree → Except FileError Unit × FileTree
  | .ok changed => (.ok (), changed)
  | .error e => (.error e, t)

instance : Files (StateM FileTree) where
  home := fun t => (t.home, t)
  present path := fun t => (t.present path, t)
  read path := fun t => (t.read path, t)
  write path text := fun t => t.change (t.write path text)
  isFolder path := fun t => (t.isFolder path, t)
  makeFolder path := fun t => t.change (t.makeFolder path)

/-! ## Filling and comparing -/

/-- Puts a folder at a place where there is nothing. -/
def ensureFolder (t : FileTree) (place : Place) : FileTree :=
  if (t.entry? place).isSome then t else t.put place .folder

/-- Puts an entry where a path leads, with the folders on the way to it. -/
def add (t : FileTree) (path : String) (e : Entry) : FileTree :=
  let names := namesOf path
  let way := (List.range names.length).map fun n => (names.take n).foldl step (startOf path)
  (way.foldl ensureFolder t).put (names.foldl step (startOf path)) e

/-- Whether a place lies in the working folder or in a folder below it. -/
def isBelow (place : Place) : Bool :=
  place.head? ≠ some ".." && place.head? ≠ some "/"

/-- The texts at or below the working folder that are in a later tree and not in an earlier one,
    with their paths. -/
def written (earlier later : FileTree) : List (String × String) :=
  (later.entries.toList.filter (isBelow ·.1)).filterMap fun (place, e) =>
    match e, earlier.entries[place]? with
    | .text new, some (.text old) =>
      if new = old then none else some ("/".intercalate place, new)
    | .text new, _ => some ("/".intercalate place, new)
    | _, _ => none

end FileTree

end CallCycle

import CallCycle.Text.Affix

/-!
# Files

What a command asks of the files around it, and how that can go wrong.  Commands are written
against the class `Files`, so that they run on the files of a machine as well as on a value that
stands for them.
-/

namespace CallCycle

/-- Why nothing came of a request. -/
inductive FileError where
  | notFound
  | alreadyThere
  | notFolder
  | isFolder
  /-- The bytes of a file are no text. -/
  | notText
  | other (message : String)
  deriving DecidableEq, Repr

/-- The wording of an error. -/
def FileError.message : FileError → String
  | notFound => "No such file or directory (os error 2)"
  | alreadyThere => "File exists (os error 17)"
  | notFolder => "Not a directory (os error 20)"
  | isFolder => "Is a directory (os error 21)"
  | notText => "stream did not contain valid UTF-8"
  | other message => message

/-- A world with files.  Paths are relative to the working folder, or start with a slash. -/
class Files (m : Type → Type) where
  /-- The full name of the working folder. -/
  home : m String
  /-- Whether there is a file or a folder at a path. -/
  present : (path : String) → m Bool
  /-- The text of a file. -/
  read : (path : String) → m (Except FileError String)
  /-- Makes a file with a text, or gives the text to a file that is there. -/
  write : (path text : String) → m (Except FileError Unit)
  /-- Whether there is a folder at a path. -/
  isFolder : (path : String) → m Bool
  /-- Makes a folder where there is nothing, in a folder that is there. -/
  makeFolder : (path : String) → m (Except FileError Unit)

/-! ## Paths -/

/-- The names in a path, between its slashes. -/
def namesOf (path : String) : List String :=
  ((Text.pieces '/' path.toList).filter (· ≠ [])).map String.ofList

/-- Whether a path starts at the root. -/
def isRooted (path : String) : Bool :=
  path.toList.head? = some '/'

/-- Whether a path ends with a slash. -/
def isSlashed (path : String) : Bool :=
  path.toList.getLast? = some '/'

/-- The path to a name in a folder. -/
def inFolder (folder name : String) : String :=
  if isSlashed folder then folder ++ name else folder ++ "/" ++ name

/-- A path and those of the folders on its way, the longest first. -/
def wayTo (path : String) : List String :=
  let names := namesOf path
  let start := if isRooted path then "/" else ""
  (List.range names.length).reverse.map fun i => start ++ "/".intercalate (names.take (i + 1))

/-! ## Making folders -/

variable {m : Type → Type} [Monad m] [Files m]

/-- Does no harm if a folder could not be made because it is there. -/
def settle (path : String) : (made : Except FileError Unit) → m (Except FileError Unit)
  | .ok _ => return .ok ()
  | .error e => do
    if ← Files.isFolder path then return .ok ()
    return .error e

/-- Makes the first of some folders, each of which lies in the next one.  If a folder is not there
    to make another one in, it is made first. -/
def makeFirst : (paths : List String) → m (Except FileError Unit)
  | [] => return .ok ()
  | path :: paths => do
    match ← Files.makeFolder path with
    -- the folder around it is missing
    | .error .notFound =>
      match ← makeFirst paths with
      | .error e => return .error e
      | .ok _ => settle path (← Files.makeFolder path)
    | made => settle path made

/-- Makes a folder, and the folders on the way to it. -/
def makeFolders (path : String) : m (Except FileError Unit) :=
  makeFirst (wayTo path)

end CallCycle

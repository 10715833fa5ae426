import CallCycle.Command.Run

/-!
# The program

Runs a command line on the files of the machine.
-/

namespace CallCycle

/-- Tells the errors of the machine apart. -/
def FileError.ofError : IO.Error → FileError
  | .noFileOrDirectory .. => .notFound
  | .alreadyExists .. => .alreadyThere
  | .inappropriateType _ code _ => if code = 20 || code = -20 then .notFolder else .isFolder
  | e => .other (toString e)

/-- Runs an action and returns its error. -/
def attempt {α : Type} (action : IO α) : IO (Except FileError α) := do
  try return .ok (← action)
  catch e => return .error (.ofError e)

instance : Files IO where
  home := return toString (← IO.currentDir)
  present path := do ((← IO.currentDir) / path).pathExists
  read path := do
    match ← attempt (IO.FS.readBinFile path) with
    | .error e => return .error e
    | .ok bytes =>
      match String.fromUTF8? bytes with
      | some text => return .ok text
      | none => return .error .notText
  write path text := attempt (IO.FS.writeFile path text)
  isFolder path := do ((← IO.currentDir) / path).isDir
  makeFolder path := attempt (IO.FS.createDir path)

end CallCycle

open CallCycle in
/-- Runs the command line: prints to standard output, and errors to standard error. -/
def main (args : List String) : IO UInt32 := do
  let outcome : Command.Outcome ← Command.run args
  IO.print outcome.stdout
  (← IO.getStdout).flush
  match outcome.ending with
  | .failure e => IO.eprintln ("error: " ++ e.message)
  | .usage => IO.eprint Command.helpText
  | _ => pure ()
  return outcome.ending.exitCode.toUInt32

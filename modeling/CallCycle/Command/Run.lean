import CallCycle.Command.Report

/-!
# Running commands

Commands in a world with files.  A command reads its settings first: those of the file that the
command line names, or else those in the working folder, or else the defaults.
-/

namespace CallCycle.Command

variable {m : Type → Type} [Monad m] [Files m]

/-- The folder that holds the settings. -/
def configFolder : String := ".recursa"

/-- The file in that folder. -/
def configFile : String := "config.json"

/-- The settings of a command. -/
def loadConfig : (explicit : Option String) → m (Except Failure Build.Config)
  | some path => do return readConfig path (← Files.read path)
  | none => do
    let path := inFolder configFolder configFile
    if ← Files.present path then
      -- a fault names the file by its full path
      return readConfig (inFolder (← Files.home) path) (← Files.read path)
    else return .ok {}

/-- Puts the default settings into a folder, unless there are settings. -/
def setUp (path : String) : m Outcome := do
  let folder := inFolder path configFolder
  let file := inFolder folder configFile
  -- settings that are there are never written over
  if ← Files.present file then return { stdout := "✓ Already initialized\n" }
  match ← makeFolders folder with
  | .error e => return { ending := .failure (.file e) }
  | .ok _ =>
    match ← Files.write file (Build.Config.codec.toValue {}).prettyText with
    | .error e => return { ending := .failure (.file e) }
    | .ok _ =>
      return { stdout := "✓ Initialized Recursa in " ++ path ++
        "\n  Run recursa check <records.json> to check your resolver output\n" }

/-- Prints a text, or writes it to a file. -/
def deliver (output : Option String) (text : String) : m Outcome := do
  match output with
  | none => return { stdout := text }
  | some path =>
    match ← Files.write path text with
    | .error e => return { ending := .failure (.file e) }
    | .ok _ => return { stdout := "✓ Exported to " ++ path ++ "\n" }

/-- Answers a question. -/
def answer (config : Build.Config) : Query → m Outcome
  | .check files start expectation json => do
    let reports ← files.mapM fun file => do
      return checkContent config start expectation file (← Files.read file)
    return checkOutcome json reports
  | .cycles file start json => do
    return .ofText (cyclesReport json config start file (← Files.read file))
  | .draw file output format start highlight => do
    match drawContent format highlight config start file (← Files.read file) with
    | .error e => return { ending := .failure e }
    | .ok text => deliver output text
  | .status file => do
    return .ofText (statusReport config file (← Files.read file))

/-- Runs a command. -/
def execute (i : Invocation) : m Outcome := do
  match i.request with
  | .setUp path => setUp path
  | .query q =>
    match ← loadConfig i.config with
    | .error e => return { ending := .failure e }
    | .ok config => answer config q

/-- What is printed when the version is asked for. -/
def versionText : String := "recursa 0.1.0\n"

/-- What is printed when help is asked for. -/
def helpText : String :=
  "Recursion checks over resolved call graphs\n\n" ++
    "Usage: recursa [OPTIONS] <COMMAND>\n\nCommands:\n" ++
    String.join (verbs.map fun verb => "  " ++ verb.name ++ "\n")

/-- Runs a command line. -/
def run (args : List String) : m Outcome :=
  match parse args with
  | .error .usage => return { ending := .usage }
  | .error .version => return { stdout := versionText }
  | .error .help => return { stdout := helpText }
  | .ok i => execute i

end CallCycle.Command

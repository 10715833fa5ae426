import CallCycle.Text.Affix
import CallCycle.Verdict

/-!
# Command lines

A command line names a command and gives it switches and words.  A switch has a long name after
two dashes and may have a short one of one letter after a dash; some take a value, which stands
behind `=`, right behind the short name, or in the next argument.  Switches and words come in any
order, and all that follows a lone `--` are words.  The switches that all commands have may stand
in front of the command as well; what is given behind it counts more.

`parse` reads arguments from the left, so what stands first decides where two things are wrong or
where help is asked for.
-/

namespace CallCycle.Command

/-- The formats of an exported graph. -/
inductive Format where
  | dot
  | json
  deriving DecidableEq, Repr

/-- A question about files of records. -/
inductive Query where
  | check (files : List String) (start : Option String) (expectation : Expectation) (json : Bool)
  | cycles (file : String) (start : Option String) (json : Bool)
  | draw (file : String) (output : Option String) (format : Format) (start : Option String)
      (highlight : Bool)
  | status (file : String)
  deriving DecidableEq, Repr

/-- What a command line asks for. -/
inductive Request where
  /-- Put default settings into a folder. -/
  | setUp (path : String)
  | query (q : Query)
  deriving DecidableEq, Repr

/-- A command line. -/
structure Invocation where
  verbose : Bool
  /-- The file with the settings. -/
  config : Option String
  request : Request
  deriving DecidableEq, Repr

/-- Why no command is run. -/
inductive Stop where
  /-- The command line is not well formed. -/
  | usage
  /-- The version was asked for. -/
  | version
  /-- Help was asked for. -/
  | help
  deriving DecidableEq, Repr

/-! ## Switches -/

/-- The switches of all commands. -/
inductive Switch where
  | verbose
  | config
  | start
  | expect
  | json
  | output
  | format
  | highlight
  | version
  | help
  deriving DecidableEq, Repr

namespace Switch

/-- The name of a switch, as it follows two dashes. -/
def long : Switch → String
  | verbose => "verbose"
  | config => "config"
  | start => "start"
  | expect => "expect"
  | json => "json"
  | output => "output"
  | format => "format"
  | highlight => "highlight"
  | version => "version"
  | help => "help"

/-- The letter of a switch, as it follows a dash. -/
def short? : Switch → Option Char
  | verbose => some 'v'
  | config => some 'c'
  | start => some 's'
  | expect => some 'e'
  | json => none
  | output => some 'o'
  | format => some 'f'
  | highlight => none
  | version => some 'V'
  | help => some 'h'

/-- Whether a switch takes a value. -/
def takesValue : Switch → Bool
  | config | start | expect | output | format => true
  | verbose | json | highlight | version | help => false

/-- Whether a switch takes this value. -/
def accepts (value : String) : Switch → Bool
  | start => true
  | config | output => value ≠ ""
  | expect => value = "none" || value = "recursion"
  | format => value = "dot" || value = "json"
  | verbose | json | highlight | version | help => false

end Switch

/-- What may stand in front of a command, or behind it. -/
structure Level where
  switches : List Switch
  /-- How many words there may be. -/
  most : Option Nat

/-- What was given at a level. -/
structure Given where
  switches : List (Switch × String) := []
  words : List String := []

namespace Given

/-- Whether a switch was given. -/
def has (g : Given) (s : Switch) : Bool :=
  g.switches.any (·.1 = s)

/-- The value of a switch. -/
def value? (g : Given) (s : Switch) : Option String :=
  (g.switches.find? (·.1 = s)).map (·.2)

end Given

/-! ## Arguments -/

/-- A thing that an argument says. -/
inductive Mark where
  | on (s : Switch)
  | set (s : Switch) (value : String)
  /-- The next argument is the value of a switch. -/
  | expects (s : Switch)
  | unknown
  deriving DecidableEq, Repr

/-- What an argument says behind two dashes. -/
def marksOfLong (switches : List Switch) (text : List Char) : List Mark :=
  let (name, value?) := match Text.splitFirst? '=' text with
    | some (name, value) => (name, some (String.ofList value))
    | none => (text, none)
  match switches.find? (·.long.toList = name), value? with
  | none, _ => [.unknown]
  | some s, some value => if s.takesValue then [.set s value] else [.unknown]
  | some s, none => if s.takesValue then [.expects s] else [.on s]

/-- What an argument says behind one dash.  Letters of switches without a value may stand together,
    and one with a value behind them. -/
def marksOfShort (switches : List Switch) : (letters : List Char) → List Mark
  | [] => []
  | c :: rest =>
    match switches.find? (·.short? = some c) with
    | none => [.unknown]
    | some s =>
      if s.takesValue then
        match rest with
        | [] => [.expects s]
        -- `-s=x` and `-sx` are the same
        | '=' :: value => [.set s (String.ofList value)]
        | value => [.set s (String.ofList value)]
      else .on s :: marksOfShort switches rest

/-- What an argument says about switches; nothing if it is a word. -/
def marks? (switches : List Switch) (arg : String) : Option (List Mark) :=
  match arg.toList with
  | '-' :: '-' :: text => some (marksOfLong switches text)
  -- a lone dash is a word
  | ['-'] => none
  | '-' :: letters => some (marksOfShort switches letters)
  | _ => none

/-- Takes in a switch.  Each may be given once. -/
def Given.add (g : Given) (s : Switch) (value : String) : Except Stop Given :=
  if g.has s then .error .usage else .ok { g with switches := g.switches ++ [(s, value)] }

/-- Takes in what an argument says. -/
def Given.mark (g : Given) : Mark → Except Stop Given
  | .on .version => .error .version
  | .on .help => .error .help
  | .on s => g.add s ""
  | .set s value => if s.accepts value then g.add s value else .error .usage
  | .expects _ => .ok g
  | .unknown => .error .usage

/-- Takes in a word. -/
def Given.word (level : Level) (g : Given) (word : String) : Except Stop Given :=
  if word = "" || level.most = some g.words.length then .error .usage
  else .ok { g with words := g.words ++ [word] }

/-- The switch whose value the next argument is. -/
def pending? (marks : List Mark) : Option Switch :=
  match marks.getLast? with
  | some (.expects s) => some s
  | _ => none

/-- Reads arguments, the first of which is the value of the switch `pending`.  With `upToWord` the
    first word ends it, and is returned with what follows. -/
def readArgs (level : Level) (upToWord : Bool) :
    (args : List String) → (pending : Option Switch) → Given → Except Stop (Given × List String)
  | [], none, g => .ok (g, [])
  | [], some _, _ => .error .usage
  | arg :: args, some s, g =>
    -- a switch is no value of another one
    if (marks? level.switches arg).isSome then .error .usage
    else
      match g.mark (.set s arg) with
      | .error e => .error e
      | .ok g => readArgs level upToWord args none g
  | arg :: args, none, g =>
    -- all that follows are words
    if arg = "--" then (args.foldlM (Given.word level) g).map (·, [])
    else
      match marks? level.switches arg with
      | none =>
        -- the name of the command
        if upToWord then .ok (g, arg :: args)
        else
          match g.word level arg with
          | .error e => .error e
          | .ok g => readArgs level upToWord args none g
      | some marks =>
        match marks.foldlM Given.mark g with
        | .error e => .error e
        | .ok g => readArgs level upToWord args (pending? marks) g

/-! ## Commands -/

/-- The switches that all commands have. -/
def everywhere : List Switch := [.verbose, .config, .help]

/-- What may stand in front of a command. -/
def root : Level := ⟨.version :: everywhere, some 0⟩

/-- A command: what may stand behind its name, and what it is then. -/
structure Verb where
  name : String
  level : Level
  /-- The request, if there are enough words. -/
  request? : Given → Option Request

/-- All commands. -/
def verbs : List Verb :=
  [{ name := "init"
     level := ⟨everywhere, some 1⟩
     request? := fun g => some (.setUp (g.words.head?.getD ".")) },
   { name := "check"
     level := ⟨[.start, .expect, .json] ++ everywhere, none⟩
     request? := fun g =>
      let expectation : Expectation :=
        if g.value? .expect = some "recursion" then .recursion else .noRecursion
      if g.words = [] then none
      else some <| .query (.check g.words (g.value? .start) expectation (g.has .json)) },
   { name := "cycles"
     level := ⟨[.start, .json] ++ everywhere, some 1⟩
     request? := fun g => g.words.head?.map fun file =>
      .query (.cycles file (g.value? .start) (g.has .json)) },
   { name := "export"
     level := ⟨[.output, .format, .start, .highlight] ++ everywhere, some 1⟩
     request? := fun g =>
      let format : Format := if g.value? .format = some "json" then .json else .dot
      g.words.head?.map fun file =>
        .query (.draw file (g.value? .output) format (g.value? .start) (g.has .highlight)) },
   { name := "status"
     level := ⟨everywhere, some 1⟩
     request? := fun g => g.words.head?.map fun file => .query (.status file) }]

/-- The command with a name. -/
def verb? (name : String) : Option Verb :=
  verbs.find? (·.name = name)

/-- Reads what stands behind the name of a command. -/
def parseTask (front : Given) (verb : Verb) (args : List String) : Except Stop Invocation :=
  match readArgs verb.level false args none {} with
  | .error e => .error e
  | .ok (g, _) =>
    match verb.request? g with
    | none => .error .usage
    | some request =>
      .ok {
        verbose := front.has .verbose || g.has .verbose
        -- what stands behind the command counts more
        config := (g.value? .config).or (front.value? .config)
        request }

/-- Reads a command line. -/
def parse (args : List String) : Except Stop Invocation :=
  match readArgs root true args none {} with
  | .error e => .error e
  | .ok (_, []) => .error .usage
  | .ok (front, name :: args) =>
    match verb? name with
    | some verb => parseTask front verb args
    | none =>
      -- `help` and `help check`, unless something else follows
      if name = "help" && (args = [] || args.length = 1 && (verb? (args.headD "")).isSome) then
        .error .help
      else .error .usage

end CallCycle.Command

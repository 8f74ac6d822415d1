import CallSite.Config
import CallSite.JsonText

/-!
# The command line

What the program does for its arguments. Files are read through a given function, and the outcome
is the text to print and the exit code, so that all of it is a pure function.
-/

namespace CallSite.CommandLine

inductive Action where
  | select (json : Bool)
  | emit
  | run
deriving DecidableEq, Repr

structure Command where
  config : Option String
  action : Action
  file : String
  site : Option String
deriving DecidableEq, Repr

/-! ## Arguments -/

/-- The arguments read so far. The options that may stand on either side of the action, and once
on each, are those of the side being read; `outerConfig` keeps what came before the action. -/
structure Progress where
  config : Option String := none
  verbose : Bool := false
  outerConfig : Option String := none
  action : Option Action := none
  json : Bool := false
  site : Option String := none
  file : Option String := none

/-- How reading the arguments ends without a command. -/
inductive Refusal where
  | usage
  | help
  | version
deriving DecidableEq, Repr

def actionOf? : String → Option Action
  | "select" => some (.select false)
  | "emit" => some .emit
  | "run" => some .run
  | _ => none

/-- A path option or argument, which is not empty. -/
def pathOf (text : String) : Except Refusal String :=
  if text.isEmpty then .error .usage else .ok text

def setConfig (p : Progress) (path : String) : Except Refusal Progress := do
  if p.config.isSome then throw .usage
  return { p with config := some (← pathOf path) }

def setSite (p : Progress) (name : String) : Except Refusal Progress :=
  if p.action.isNone || p.site.isSome then .error .usage else .ok { p with site := some name }

/-- The action begins a new side of the arguments. -/
def setAction (p : Progress) (action : Action) : Progress :=
  { p with action := some action, outerConfig := p.config, config := none, verbose := false }

/-- The file, which follows the action. -/
def setFile (p : Progress) (word : String) : Except Refusal Progress := do
  if p.action.isNone || p.file.isSome then throw .usage
  return { p with file := some (← pathOf word) }

/-- A long option without a value. -/
def setFlag (p : Progress) (flag : String) : Except Refusal Progress :=
  match flag with
  | "--verbose" => if p.verbose then .error .usage else .ok { p with verbose := true }
  | "--json" =>
    if p.action = some (.select false) && !p.json then .ok { p with json := true }
    else .error .usage
  | "--help" => .error .help
  | "--version" => .error (if p.action.isNone then .version else .usage)
  | _ => .error .usage

/-- Each short option ends the reading, so that only the first letter of a group matters. -/
def shortFlag (p : Progress) : Char → Refusal
  | 'h' => .help
  | 'V' => if p.action.isNone then .version else .usage
  | _ => .usage

/-- The help on one action, or on all. -/
def helpRefusal : List String → Refusal
  | [] => .help
  | [word] => if word = "help" || (actionOf? word).isSome then .help else .usage
  | _ => .usage

/-- `--name=value` as its two parts. -/
def splitValue (argument : String) : String × Option String :=
  let chars := argument.toList
  match chars.dropWhile (· ≠ '=') with
  | [] => (argument, none)
  | _ :: value => (String.ofList (chars.takeWhile (· ≠ '=')), some (String.ofList value))

/-- The word looks like an option. A single dash does not. -/
def isOption (word : String) : Bool := ['-'].isPrefixOf word.toList && word != "-"

/-- One option that holds its value, if it has one. -/
def setOption (p : Progress) (argument : String) : Except Refusal Progress :=
  match argument.toList with
  | '-' :: '-' :: _ =>
    match splitValue argument with
    | ("--config", some value) => setConfig p value
    | ("--site", some value) => setSite p value
    | (_, some _) => .error .usage
    | (flag, none) => setFlag p flag
  | _ :: letter :: _ => .error (shortFlag p letter)
  | _ => .error .usage

/-- After a lone `--` every word is the file. -/
def readAll (p : Progress) : List String → Except Refusal Progress
  | [] => .ok p
  | "--" :: words => words.foldlM setFile p
  | "--config" :: value :: rest => do
    if isOption value then throw .usage
    readAll (← setConfig p value) rest
  | "--site" :: value :: rest => do
    if isOption value then throw .usage
    readAll (← setSite p value) rest
  | argument :: rest => do
    if isOption argument then readAll (← setOption p argument) rest
    else if p.action.isSome then readAll (← setFile p argument) rest
    else
      match actionOf? argument with
      | some action => readAll (setAction p action) rest
      | none => throw (if argument = "help" then helpRefusal rest else .usage)

/-- The command that the arguments give. Of a setting given on both sides the inner one counts. -/
def read (args : List String) : Except Refusal Command := do
  let p ← readAll {} args
  match p.action, p.file with
  | some action, some file =>
    let action := if action = .select false then .select p.json else action
    return { config := p.config <|> p.outerConfig, action, file, site := p.site }
  | _, _ => throw .usage

/-! ## Commands -/

structure Outcome where
  code : UInt32
  /-- Lines for the standard output, each ended by a line feed. -/
  output : List String
  errors : List String
deriving DecidableEq, Repr

/-- The lines that report an error in plain text. Errors with a span are drawn elsewhere. -/
def reportLines (e : CompileError) : List String :=
  match e with
  | .access _ _ _ => []
  | .internal _ _ => []
  | .hierarchy _ => ["error[hierarchy]: " ++ e.detail]
  | .config path _ => ["error[config]: " ++ e.detail, "  --> " ++ path]
  | .fixture path _ => ["error[fixture]: " ++ e.detail, "  --> " ++ path]

/-- End with an error. -/
def failed (output : List String) (e : CompileError) : Outcome := ⟨1, output, reportLines e⟩

def loadConfig (readFile : String → Option String) : Option String → Except CompileError Config
  | none => .ok .standard
  | some path =>
    match readFile path with
    | some text => Config.parse text path
    | none => .error (.config path .unreadable)

def loadFixture (readFile : String → Option String) (path : String) : Except CompileError Fixture :=
  match readFile path with
  | some text => Fixture.parse text path
  | none => .error (.fixture path .unreadable)

/-- One line of the listing of selections. -/
def selectionLine (s : Selection) : String :=
  s.site ++ ": " ++ s.rule ++ " -> " ++ s.strategy ++
    match s.target with
    | some target => " (" ++ target ++ ")"
    | none => ""

def selectAll (f : Fixture) (options : Options) (json : Bool) (sites : List FixtureSite) :
    Outcome :=
  let found := sites.map fun site => f.select site options
  ⟨0, if json then [JsonText.selections found] else found.map selectionLine, []⟩

/-- List the code of the sites, up to the first that cannot be compiled. -/
def emitAll (f : Fixture) (options : Options) :
    List FixtureSite → (reported : Nat) → Outcome
  | [], reported =>
    if reported = 0 then ⟨0, [], []⟩
    else ⟨1, [], [toString reported ++ " error(s) reported"]⟩
  | site :: sites, reported =>
    match f.emit site options with
    | .error e => failed [] e
    | .ok emitted =>
      let rest := emitAll f options sites (reported + emitted.diagnostics.length)
      let selection := emitted.selection
      let title := "== " ++ site.name ++ " (" ++ selection.rule ++ " -> " ++ selection.strategy ++
        "): " ++ emitted.result
      { rest with
        output := title :: Instruction.listing emitted.code :: rest.output
        errors := emitted.diagnostics.flatMap reportLines ++ rest.errors }

/-- Run the sites, up to the first that fails. -/
def runAll (f : Fixture) (options : Options) : List FixtureSite → Outcome
  | [] => ⟨0, [], []⟩
  | site :: sites =>
    match f.run site options with
    | .error (.compile e) => failed [] e
    | .error (.machine e) =>
      ⟨1, [], ["error [" ++ site.name ++ "]: runtime error: " ++ e.message]⟩
    | .ok (emitted, text) =>
      let rest := runAll f options sites
      { rest with
        output := (site.name ++ " = " ++ text) :: rest.output
        errors := emitted.diagnostics.flatMap reportLines ++ rest.errors }

/-- The sites a command is about. -/
def chosenSites (f : Fixture) : Option String → Option (List FixtureSite)
  | none => some f.sites
  | some name => (f.site? name).map fun site => [site]

def execute (readFile : String → Option String) (command : Command) : Outcome :=
  match loadConfig readFile command.config with
  | .error e => failed [] e
  | .ok config =>
    match loadFixture readFile command.file with
    | .error e => failed [] e
    | .ok f =>
      match chosenSites f command.site with
      | none =>
        let name := command.site.getD ""
        ⟨1, [], ["error: no site named '" ++ name ++ "' in " ++ f.path]⟩
      | some sites =>
        match command.action with
        | .select json => selectAll f config.options json sites
        | .emit => emitAll f config.options sites 0
        | .run => runAll f config.options sites

/-- The files that a command reads. -/
def Command.files (command : Command) : List String := command.config.toList ++ [command.file]

/-- What the program does for its arguments. -/
def run (args : List String) (readFile : String → Option String) : Outcome :=
  match read args with
  | .ok command => execute readFile command
  | .error .usage => ⟨2, [], []⟩
  | .error .help => ⟨0, [], []⟩
  | .error .version => ⟨0, ["sitegen 0.1.0"], []⟩

/-- The text for the standard output. -/
def Outcome.text (o : Outcome) : String := String.join (o.output.map (· ++ "\n"))

end CallSite.CommandLine

import JsxProvenance.CommandLine.Grammar

/-!
The commands of the program, their options, and their help texts.
-/

namespace JsxProvenance.CommandLine

/-- What to annotate, and how. -/
structure AnnotateCommand where
  file : String := ""
  config : Option String := none
  native : Bool := false
  annotateFragments : Bool := false
  ignore : List String := []
  legacy : Bool := false
  inPlace : Bool := false
  deriving DecidableEq, Repr, Inhabited

/-- What to do. -/
inductive Command where
  | annotate (command : AnnotateCommand)
  | components (file : String)
  deriving DecidableEq, Repr, Inhabited

/-- A command line that was understood. -/
structure Invocation where
  verbose : Bool
  command : Option Command
  deriving DecidableEq, Repr, Inhabited

def textOfLines (lines : List String) : String :=
  String.join (lines.map (· ++ "\n"))

def programName : String := "component-annotate"

def commandNames : List String := ["annotate", "components"]

def mainUsage : String :=
  textOfLines
    ["usage: component-annotate [-h] [--version] [-v] \x7bannotate,components\x7d ..."]

def mainHelp : String :=
  mainUsage
    ++ textOfLines
      [
        "",
        "Annotate JSX with component tracking attributes",
        "",
        "positional arguments:",
        "  \x7bannotate,components\x7d",
        "                        Commands",
        "    annotate            Annotate a file",
        "    components          List components in a file",
        "",
        "options:",
        "  -h, --help            show this help message and exit",
        "  --version             show program's version number and exit",
        "  -v, --verbose         Debug logging",
        "",
        "Examples:",
        "    component-annotate annotate src/App.tsx",
        "    component-annotate annotate src/App.tsx --inplace --ignore Tab.Group",
        "    component-annotate components src/App.tsx"
      ]

def versionText : String := textOfLines ["component-annotate 0.1.0"]

def annotateUsage : String :=
  textOfLines
    [
      "usage: component-annotate annotate [-h] [-c CONFIG] [--native]",
      "                                   [--annotate-fragments] [--ignore NAME]",
      "                                   [--legacy] [-i]",
      "                                   file"
    ]

def annotateHelp : String :=
  annotateUsage
    ++ textOfLines
      [
        "",
        "positional arguments:",
        "  file                  Source file (.js, .jsx, .ts, .tsx)",
        "",
        "options:",
        "  -h, --help            show this help message and exit",
        "  -c CONFIG, --config CONFIG",
        "                        YAML options file",
        "  --native              Use camelCase attribute names",
        "  --annotate-fragments  Give the first child of a root fragment the component",
        "                        name",
        "  --ignore NAME         Component or element name to leave unannotated",
        "  --legacy              Use the legacy traversal policy",
        "  -i, --inplace         Modify in place"
      ]

def componentsUsage : String :=
  textOfLines ["usage: component-annotate components [-h] file"]

def componentsHelp : String :=
  componentsUsage
    ++ textOfLines
      [
        "",
        "positional arguments:",
        "  file        Source file (.js, .jsx, .ts, .tsx)",
        "",
        "options:",
        "  -h, --help  show this help message and exit"
      ]

def helpOption {α : Type} (text : String) : OptionForm α :=
  ⟨["-h", "--help"], .showText text⟩

/-- The command lines of the program. The value tells whether everything is logged. -/
def mainGrammar : Grammar Bool where
  program := programName
  usage := mainUsage
  operands := .rest
  options :=
    [
      helpOption mainHelp,
      ⟨["--version"], .showText versionText⟩,
      ⟨["-v", "--verbose"], .mark fun _ => true⟩
    ]

/-- The command lines of the annotation of a file. -/
def annotateGrammar : Grammar AnnotateCommand where
  program := programName ++ " annotate"
  usage := annotateUsage
  operands := .one
  options :=
    [
      helpOption annotateHelp,
      ⟨["-c", "--config"], .take fun value c => { c with config := some value }⟩,
      ⟨["--native"], .mark fun c => { c with native := true }⟩,
      ⟨["--annotate-fragments"], .mark fun c => { c with annotateFragments := true }⟩,
      ⟨["--ignore"], .take fun value c => { c with ignore := c.ignore ++ [value] }⟩,
      ⟨["--legacy"], .mark fun c => { c with legacy := true }⟩,
      ⟨["-i", "--inplace"], .mark fun c => { c with inPlace := true }⟩
    ]

def componentsGrammar : Grammar Unit where
  program := programName ++ " components"
  usage := componentsUsage
  operands := .one
  options := [helpOption componentsHelp]

/-- Reads the line of a command that needs one file. -/
def Grammar.readFile {α : Type} (g : Grammar α) (values : α) (line : List String)
    : Except Stop (String × Reading α) := do
  let reading ← g.read values line
  match reading.operands with
  | file :: _ => return (file, reading)
  | [] => .error (g.misuse (.missing "file"))

/-- Reads the line of a command, and gives the words that have no place in it. -/
def Command.read (name : String) (line : List String) : Except Stop (Command × List String) :=
  match name with
  | "annotate" => do
      let (file, reading) ← annotateGrammar.readFile {} line
      return (.annotate { reading.values with file }, reading.extras)
  | "components" => do
      let (file, reading) ← componentsGrammar.readFile () line
      return (.components file, reading.extras)
  | other => .error (mainGrammar.misuse (.unknownCommand other commandNames))

/-- Reads a command line. Words that have no place are a misuse of the program as a whole. -/
def Invocation.read (line : List String) : Except Stop Invocation := do
  let reading ← mainGrammar.read false line
  let (command, extras) ← match reading.operands with
    | [] => pure (none, [])
    | name :: rest => do
        let (command, extras) ← Command.read name rest
        pure (some command, extras)
  let unplaced := reading.extras ++ extras
  if unplaced.isEmpty then return ⟨reading.values, command⟩
  else .error (mainGrammar.misuse (.unrecognized unplaced))

end JsxProvenance.CommandLine

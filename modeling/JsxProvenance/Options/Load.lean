import JsxProvenance.Files.Tree
import JsxProvenance.Options.Environment
import JsxProvenance.Options.Settings
import JsxProvenance.Yaml.Read

/-!
Options from a file and the environment. A file that is named has to be there; otherwise the first
of the usual files that is there is read, and none of them needs to be.
-/

namespace JsxProvenance

/-- Why no settings can be loaded. -/
inductive LoadFault where
  | notFound (path : Path)
  | unreadable (path : Path) (fault : FileFault)
  /-- It cannot even be said whether the file is there. -/
  | unreachable (path : Path) (fault : FileFault)
  | notText (fault : Utf8.Broken)
  | malformed (path : Path)
  | literal (fault : Yaml.LiteralFault)
  | noMapping (path : Path)
  | options (fault : OptionsFault)
  deriving Repr, Inhabited

namespace LoadFault

/-- The text of a fault that is found in a file of options. -/
def inFile (place problem : String) : String :=
  "Config error in " ++ place ++ ": " ++ problem

def message : LoadFault → String
  | notFound path => inFile path.text "file not found"
  | unreadable path fault => inFile path.text (fault.message path)
  | unreachable path fault => fault.message path
  | notText fault => fault.message
  | malformed path => inFile path.text "<yaml>"
  | literal fault => fault.message
  | noMapping path => inFile path.text "top level must be a mapping"
  | options .numberTooLong => OptionsFault.numberTooLong.message
  | options fault => inFile "<options>" fault.message

end LoadFault

/-- What reads the text of a file of options as a value. -/
abbrev OptionsReader : Type :=
  List Char → Except Yaml.Fault Value

/-- The options of a run, and the file they come from, if there is one. -/
structure LoadedOptions where
  source : Option Path := none
  options : Entries := []
  deriving Repr, Inhabited

namespace LoadedOptions

/-- The text with every line end as a line feed. -/
def unifyLineEnds : List Char → List Char
  | [] => []
  | '\r' :: '\n' :: rest => '\n' :: unifyLineEnds rest
  | c :: rest => (if c = '\r' then '\n' else c) :: unifyLineEnds rest

/-- The options that a reader finds in the text of a file. A value that counts as nothing gives
none. -/
def ofText (read : OptionsReader) (path : Path) (text : List Char) : Except LoadFault Entries :=
  match read (unifyLineEnds text) with
  | .error .malformed => .error (.malformed path)
  | .error (.literal fault) => .error (.literal fault)
  | .ok (.map options) => .ok options
  | .ok value => if value.isNothing then .ok [] else .error (.noMapping path)

/-- The number of bytes that are read at once. -/
def portion : Nat := 8192

def ofFile (read : OptionsReader) (files : FileTree) (path : Path) : Except LoadFault Entries :=
  match files.read path with
  | .error .nullInName => .error (.unreachable path .nullInName)
  | .error fault => .error (.unreadable path fault)
  | .ok bytes =>
      match Utf8.decode bytes with
      | .error fault => .error (.notText (fault.inPortion portion bytes))
      | .ok text => ofText read path text

def isThere (files : FileTree) (path : Path) : Except LoadFault Bool :=
  (files.isThere path).mapError (.unreachable path)

def firstThere (files : FileTree) : List Path → Except LoadFault (Option Path)
  | [] => .ok none
  | path :: rest => do
      if ← isThere files path then return some path else firstThere files rest

/-- The file to read: the one that is named, or else the first of the usual ones. -/
def sourceOf (files : FileTree) (usual : List Path) (named : Option Path)
    : Except LoadFault (Option Path) :=
  match named with
  | some path => do
      if ← isThere files path then return some path else .error (.notFound path)
  | none => firstThere files usual

/-- Loads the options of a run with a reader. The environment counts before the file. -/
def loadBy (read : OptionsReader) (files : FileTree) (environment : Environment)
    (usual : List Path) (named : Option Path)
    : Except LoadFault LoadedOptions := do
  let source ← sourceOf files usual named
  let options ← match source with
    | some path => ofFile read files path
    | none => pure []
  return { source, options := environment.override options }

/-- Loads the options of a run from files in YAML. -/
def load (files : FileTree) (environment : Environment) (usual : List Path) (named : Option Path)
    : Except LoadFault LoadedOptions :=
  loadBy Yaml.read files environment usual named

/-- The log of loading the options and reading them. -/
def log (l : LoadedOptions) : List Log.Line :=
  (l.source.map fun path =>
      (⟨.debug, .options, "Loaded options from " ++ path.text⟩ : Log.Line)).toList
    ++ l.options.log

def settings (l : LoadedOptions) : Except LoadFault Settings :=
  (Settings.ofOptions l.options).mapError .options

end LoadedOptions
end JsxProvenance

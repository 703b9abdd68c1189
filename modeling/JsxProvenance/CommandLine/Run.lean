import JsxProvenance.CommandLine.Command
import JsxProvenance.Files.Annotate
import JsxProvenance.Options.Load

/-!
Runs of the program: what a command line prints, writes and returns, given the files and the
environment. Files are only written after everything else has gone well.
-/

namespace JsxProvenance.CommandLine

/-- What a run finds. -/
structure Surroundings where
  files : FileTree
  environment : Environment := {}
  /-- The usual files of options. -/
  optionFiles : List Path := []
  deriving Repr, Inhabited

/-- What a run does. -/
structure Outcome where
  exitCode : Nat := 0
  output : List UInt8 := []
  errorOutput : String := ""
  written : List (Path × List UInt8) := []
  deriving DecidableEq, Repr, Inhabited

namespace Outcome

def printing (text : String) : Outcome where
  output := Utf8.bytes text

def failure (message : String) : Outcome where
  exitCode := 1
  errorOutput := message ++ "\n"

def logging (o : Outcome) (verbose : Bool) (lines : List Log.Line) : Outcome :=
  { o with errorOutput := Log.printed verbose lines ++ o.errorOutput }

def filesAfter (o : Outcome) (files : FileTree) : FileTree :=
  files.writeAll o.written

end Outcome

/-- What is shown when reading the command line ended early. -/
def Stop.outcome : Stop → Outcome
  | shown text => .printing text
  | misuse program usage problem =>
      {
        exitCode := 2
        errorOutput := usage ++ program ++ ": error: " ++ problem.message ++ "\n"
      }

namespace AnnotateCommand

/-- The file of options that is named. The empty name is none. -/
def optionFile (c : AnnotateCommand) : Option Path :=
  (c.config.filter (!·.isEmpty)).map Path.parse

/-- The settings with the options of the command line on top. -/
def adjust (c : AnnotateCommand) (s : Settings) : Settings :=
  { s with
    alternateNames := s.alternateNames || c.native
    annotateFragments := s.annotateFragments || c.annotateFragments
    ignoredComponents := s.ignoredComponents ++ c.ignore
    policy := if c.legacy then .legacy else s.policy
  }

def finish (c : AnnotateCommand) (a : AnnotatedSource) : Outcome :=
  if c.inPlace then
    { Outcome.printing ("Annotated: " ++ c.file ++ " (" ++ a.report.summary ++ ")\n") with
      written := a.writtenBack (Path.parse c.file)
    }
  else { output := a.code }

/-- Runs the annotation of a file with the settings that were loaded. -/
def runWith (c : AnnotateCommand) (files : FileTree) (verbose : Bool)
    : Except LoadFault Settings → Outcome
  | .error fault => .failure ("Error: " ++ fault.message)
  | .ok settings =>
      match files.annotate (c.adjust settings) (Path.parse c.file) with
      | .error fault => .failure ("Error: " ++ fault.message)
      | .ok annotated => (c.finish annotated).logging verbose annotated.log

def run (c : AnnotateCommand) (around : Surroundings) (verbose : Bool) : Outcome :=
  match LoadedOptions.load around.files around.environment around.optionFiles c.optionFile with
  | .error fault => .failure ("Error: " ++ fault.message)
  | .ok loaded =>
      (c.runWith around.files verbose loaded.settings).logging verbose loaded.log

end AnnotateCommand

def listedName (c : Component) : String :=
  if c.name.isEmpty then "<anonymous>" else c.name

def listedLine (c : Component) : String :=
  "  " ++ listedName c ++ " (" ++ c.kind.word ++ ", line " ++ toString c.line ++ "): "
    ++ ", ".intercalate (c.roots.map (·.node.label))

def componentList (cs : List Component) : String :=
  if cs.isEmpty then textOfLines ["No components found"]
  else
    textOfLines (cs.map listedLine ++ ["", toString cs.length ++ " components found"])

/-- Runs the list of the components of a file. -/
def listComponents (around : Surroundings) (verbose : Bool) (file : String) : Outcome :=
  match around.files.program (Path.parse file) with
  | .error fault => .failure ("Parse error: " ++ fault.message)
  | .ok (program, log) =>
      (Outcome.printing
          (componentList (discover program none knownIncompatiblePackages))).logging verbose
        (log ++ discoverLog program none knownIncompatiblePackages)

/-- Runs a command. Without one, the help is shown. -/
def Invocation.run (i : Invocation) (around : Surroundings) : Outcome :=
  match i.command with
  | none => .printing mainHelp
  | some (.annotate c) => c.run around i.verbose
  | some (.components file) => listComponents around i.verbose file

def run (around : Surroundings) (line : List String) : Outcome :=
  match Invocation.read line with
  | .ok invocation => invocation.run around
  | .error stop => stop.outcome

def pathsRead (optionFiles : List Path) (line : List String) : List Path :=
  match Invocation.read line with
  | .ok ⟨_, some (.annotate c)⟩ =>
      Path.parse c.file :: (c.optionFile.map fun path => [path]).getD optionFiles
  | .ok ⟨_, some (.components file)⟩ => [Path.parse file]
  | _ => []

end JsxProvenance.CommandLine

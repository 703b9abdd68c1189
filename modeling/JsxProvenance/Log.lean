/-!
Log lines, as data: what a run reports besides its answer.
-/

namespace JsxProvenance.Log

/-- How much a line matters. -/
inductive Level where
  | debug
  | info
  | warning
  deriving DecidableEq, Repr, Inhabited

def Level.label : Level → String
  | debug => "DEBUG"
  | info => "INFO"
  | warning => "WARNING"

/-- The part of a run that a line is about. -/
inductive Topic where
  | options
  | aliases
  | components
  | annotating
  | source
  deriving DecidableEq, Repr, Inhabited

def Topic.label : Topic → String
  | options => "component_annotate.config"
  | aliases => "component_annotate.annotate.aliases"
  | components => "component_annotate.annotate.components"
  | annotating => "component_annotate.annotate.pipeline"
  | source => "component_annotate.parser.tsx"

/-- One line of a log. -/
structure Line where
  level : Level
  topic : Topic
  text : String
  deriving DecidableEq, Repr, Inhabited

def Line.printed (l : Line) : String :=
  l.level.label ++ " " ++ l.topic.label ++ ": " ++ l.text ++ "\n"

/-- Whether a line is printed. Only warnings are, unless everything is asked for. -/
def Line.isShown (verbose : Bool) (l : Line) : Bool :=
  verbose || l.level == .warning

def printed (verbose : Bool) (lines : List Line) : String :=
  String.join ((lines.filter (·.isShown verbose)).map Line.printed)

def warnings (lines : List Line) : List String :=
  (lines.filter (·.level == .warning)).map (·.text)

end JsxProvenance.Log

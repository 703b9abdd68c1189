import JsxProvenance.Annotation.Log
import JsxProvenance.Cst.ToAst
import JsxProvenance.Splice
import JsxProvenance.Tsx.Grammar.Modules

/-!
The program of a source text, and the annotation of source text.
-/

namespace JsxProvenance

open Ast

namespace Tsx

/-- The tree of a source text, and whether the text follows the grammar. Text outside of the
grammar gives a tree in which nothing is found. -/
def treeOf (bytes : List UInt8) : Cst × Bool :=
  match parse? bytes with
  | some tree => (tree, true)
  | none => (errorTree bytes, false)

def program (filename : String) (bytes : List UInt8) : Program :=
  (treeOf bytes).1.toProgram filename bytes

def readingLog (filename : String) (followsGrammar : Bool) : List Log.Line :=
  if followsGrammar then []
  else
    [
      ⟨.debug, .source,
        filename ++ ": syntax errors present, continuing with recovered tree"⟩
    ]

end Tsx

/-- The name of a text that comes from no file. -/
def unnamedFile : String := "<unknown>"

/-- How a text that comes from no file is called in the log. -/
def unnamedSource : String := "<source>"

/-- A file name, if it is given and not empty. -/
def givenName (filename : Option String) : Option String :=
  filename.filter (· != "")

/-- An annotated source text. -/
structure AnnotatedSource where
  code : List UInt8
  report : Report
  log : List Log.Line
  deriving Repr, Inhabited

/-- Annotates source text. The source file name is that of the file, whatever the settings say. -/
def annotateSource (settings : Settings) (filename : Option String) (bytes : List UInt8)
    : Except Fault AnnotatedSource := do
  let name := (givenName filename).getD unnamedFile
  let (tree, followsGrammar) := Tsx.treeOf bytes
  let program := tree.toProgram name bytes
  let (annotated, report) ← program.annotate (settings.forFile filename) filename
  return {
    code := annotated.render
    report
    log :=
      Tsx.readingLog name followsGrammar ++ report.log program filename
        ++ [report.closingLine ((givenName filename).getD unnamedSource)]
  }

end JsxProvenance

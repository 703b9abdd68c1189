import JsxProvenance.Files.Tree
import JsxProvenance.Tsx.Source

/-!
The annotation of files. A file is written back only if attributes were added.
-/

namespace JsxProvenance

open Ast

/-- Why a file is not annotated. -/
inductive SourceFault where
  | unreadable (path : Path) (fault : FileFault)
  | unfit (fault : Fault)
  deriving Repr, Inhabited

def SourceFault.message : SourceFault → String
  | unreadable path .nullInName => FileFault.nullInName.message path
  | unreadable path fault => "Parse error in " ++ path.text ++ ": " ++ fault.message path
  | unfit fault => fault.message

namespace FileTree

def readSource (files : FileTree) (path : Path) : Except SourceFault (List UInt8) :=
  (files.read path).mapError (.unreadable path)

/-- The program of a file, and the log of reading it. -/
def program (files : FileTree) (path : Path) : Except SourceFault (Program × List Log.Line) := do
  let bytes ← files.readSource path
  let (tree, followsGrammar) := Tsx.treeOf bytes
  return (tree.toProgram path.text bytes, Tsx.readingLog path.text followsGrammar)

def annotate (files : FileTree) (settings : Settings) (path : Path)
    : Except SourceFault AnnotatedSource := do
  let bytes ← files.readSource path
  (annotateSource settings (some path.text) bytes).mapError .unfit

end FileTree

def AnnotatedSource.writtenBack (a : AnnotatedSource) (path : Path) : List (Path × List UInt8) :=
  if a.report.attributesAdded == 0 then [] else [(path, a.code)]

end JsxProvenance

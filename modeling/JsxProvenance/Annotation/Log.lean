import JsxProvenance.Annotation
import JsxProvenance.Log
import JsxProvenance.Text.Quoted
import JsxProvenance.Text.Sorted

/-!
What is logged about the components, the aliases and the annotation of a program.
-/

namespace JsxProvenance

open Ast

/-- The line about a file that is left alone. -/
def skippedLine (topic : Log.Topic) (path : String) : Log.Line :=
  ⟨.debug, topic, "Skipping " ++ path ++ ": inside a known incompatible package"⟩

/-- The line about a definition that renders nothing that can be annotated. -/
def rootlessLine (c : Component) : Log.Line :=
  ⟨.debug, .components, c.name ++ ": no JSX root found, not annotated"⟩

/-- The lines about the definitions without a root. -/
def rootlessLog (p : Program) : List Log.Line :=
  ((definitions p).filter (·.roots.isEmpty)).map rootlessLine

/-- The log of looking for the components to annotate in a file. -/
def discoverLog (p : Program) (path : Option String) (packages : List String) : List Log.Line :=
  if isKnownIncompatible (some (path.getD p.filename)) packages then
    [skippedLine .components (path.getD p.filename)]
  else rootlessLog p

/-- Names as a log shows them: sorted, each in quotes. -/
def shownNames (names : List String) : String :=
  Quoted.bracketed ((sortedTexts names).map Quoted.text)

/-- The log of the aliases of a file. The default namespace alone is not worth a line. -/
def Aliases.log (a : Aliases) (filename : String) : List Log.Line :=
  if a.fragments.isEmpty && a.namespaces.length ≤ 1 then []
  else
    [
      ⟨.debug, .aliases,
        filename ++ ": fragment aliases " ++ shownNames a.fragments ++ ", namespace aliases "
          ++ shownNames a.namespaces⟩
    ]

/-- The line about an annotated component. -/
def ComponentReport.line (c : ComponentReport) : Log.Line :=
  ⟨.debug, .annotating,
    c.name ++ ": " ++ toString c.added ++ " attributes on " ++ toString c.roots ++ " roots"⟩

/-- The log of an annotation with such a report. -/
def Report.log (r : Report) (p : Program) (path : Option String) : List Log.Line :=
  if r.skipped then [skippedLine .annotating (path.getD p.filename)]
  else
    let aliases :=
      match Aliases.collect p with
      | .ok a => a.log p.filename
      | .error _ => []
    rootlessLog p ++ aliases ++ r.details.map ComponentReport.line

/-- The line that closes the annotation of a source text. -/
def Report.closingLine (r : Report) (filename : String) : Log.Line :=
  ⟨.info, .annotating, filename ++ ": " ++ r.summary⟩

end JsxProvenance

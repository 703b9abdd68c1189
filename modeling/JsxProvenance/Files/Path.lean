import JsxProvenance.Text.Split

/-!
File paths in their shortest spelling: no empty names and no single dots. Two dots stay, since
only the files can tell where they lead.
-/

namespace JsxProvenance

/-- A file path. -/
structure Path where
  /-- The slashes that the path starts with: none, one, or exactly two, which mean more than one. -/
  root : String := ""
  names : List String := []
  deriving DecidableEq, Repr, Inhabited

namespace Path

/-- The root of a path that starts with so many slashes. -/
def rootOf (slashes : Nat) : String :=
  match slashes with
  | 0 => ""
  | 2 => "//"
  | _ => "/"

def isName (part : List Char) : Bool :=
  part != [] && part != ['.']

def parse (text : String) : Path where
  root := rootOf (text.toList.takeWhile (· == '/')).length
  names := ((splitAtChar '/' text.toList).filter isName).map String.ofList

/-- The text of a path. The path of no names is the folder itself. -/
def text (p : Path) : String :=
  let spelled := p.root ++ "/".intercalate p.names
  if spelled.isEmpty then "." else spelled

end Path
end JsxProvenance

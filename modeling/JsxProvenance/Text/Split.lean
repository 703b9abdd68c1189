/-!
Texts taken apart at a separator, and the search for one text in another.
-/

namespace JsxProvenance

def lastSegment (separator : Char) (path : List Char) : List Char :=
  (path.reverse.takeWhile (· != separator)).reverse

/-- The parts of a text between the separators. There is one part more than separators. -/
def splitAtChar (separator : Char) : List Char → List (List Char)
  | [] => [[]]
  | c :: rest =>
      if c == separator then
        [] :: splitAtChar separator rest
      else
        match splitAtChar separator rest with
        | [] => [[c]]
        | part :: parts => (c :: part) :: parts

/-- Whether the first text stands somewhere in the second. -/
def occursIn (part : List Char) : List Char → Bool
  | [] => part.isEmpty
  | c :: rest => part.isPrefixOf (c :: rest) || occursIn part rest

end JsxProvenance

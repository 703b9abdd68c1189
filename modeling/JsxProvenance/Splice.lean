import JsxProvenance.Ast.Walk
import JsxProvenance.Attribute.Written
import JsxProvenance.Text.SourceText

/-!
The text of an annotated program: its source with the inserted attributes put in, and every other
byte as it was.
-/

namespace JsxProvenance

open Ast

/-- A piece of text to put in at a byte offset. -/
structure Splice where
  offset : Nat
  text : List UInt8
  deriving DecidableEq, Repr, Inhabited

namespace Splice

/-- The text of an inserted attribute, none for all else. -/
def attributeText? : Node → Option (List UInt8)
  | .leaf _ (.jsxAttribute name value true) => some (Utf8.encode (writtenAttribute name value))
  | _ => none

/-- The splices of one node: the inserted attributes of an element that has an offset. -/
def ofNode : Node → List Splice
  | .element _ _ attrs _ _ (some offset) =>
      (attrs.filterMap attributeText?).map fun text => ⟨offset, text⟩
  | _ => []

/-- Puts a splice before the first of those that do not lie before it. -/
def insertSorted (s : Splice) : List Splice → List Splice
  | [] => [s]
  | t :: rest => if s.offset ≤ t.offset then s :: t :: rest else t :: insertSorted s rest

/-- The splices by offset. Those of one offset keep their order. -/
def sorted : List Splice → List Splice
  | [] => []
  | s :: rest => insertSorted s (sorted rest)

/-- Puts splices, which are sorted, into the bytes that start at a position. An offset beyond the
end is the end. -/
def applySorted (position : Nat) (source : List UInt8) : List Splice → List UInt8
  | [] => source
  | s :: rest =>
      source.take (s.offset - position) ++ s.text
        ++ applySorted s.offset (source.drop (s.offset - position)) rest

end Splice

/-- The splices of a program in walk order. -/
def Ast.Program.splices (p : Program) : List Splice :=
  p.walk.flatMap fun place => Splice.ofNode place.node

/-- The text of a program with its inserted attributes. -/
def Ast.Program.renderText (p : Program) : List Sign :=
  SourceText.decode (Splice.applySorted 0 p.source (Splice.sorted p.splices))

/-- The bytes of a program with its inserted attributes. -/
def Ast.Program.render (p : Program) : List UInt8 :=
  SourceText.encode p.renderText

end JsxProvenance

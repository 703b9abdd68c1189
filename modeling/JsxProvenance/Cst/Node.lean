import JsxProvenance.Ast.Node
import JsxProvenance.Text.Utf8

/-!
Concrete syntax trees, as a grammar makes them: every node has a kind, a range of bytes, and
sometimes the name of the field it fills in its parent. Tokens without a name of their own are
marked, and comments can stand anywhere.
-/

namespace JsxProvenance

/-- A node of a concrete syntax tree. -/
inductive Cst where
  | node (kind : String) (field : Option String) (named : Bool) (start stop : Nat)
      (children : List Cst)
  deriving Repr, Inhabited

namespace Cst

/-- What the node is. -/
def kind : Cst → String
  | node k _ _ _ _ _ => k

/-- The field that the node fills in its parent. -/
def field : Cst → Option String
  | node _ f _ _ _ _ => f

/-- Whether the node is more than an anonymous token. -/
def named : Cst → Bool
  | node _ _ b _ _ _ => b

/-- The offset of the first byte. -/
def start : Cst → Nat
  | node _ _ _ s _ _ => s

/-- The offset after the last byte. -/
def stop : Cst → Nat
  | node _ _ _ _ e _ => e

/-- The nodes below, in order. -/
def children : Cst → List Cst
  | node _ _ _ _ _ cs => cs

/-- Whether a node is part of the structure: named, and no comment. -/
def isStructural (n : Cst) : Bool :=
  n.named && n.kind != "comment"

/-- The children that are part of the structure. -/
def parts (n : Cst) : List Cst :=
  n.children.filter isStructural

/-- The first child that fills a field. -/
def field? (n : Cst) (name : String) : Option Cst :=
  n.children.find? (·.field == some name)

/-- The text of a node. Bytes that are no text are replaced. -/
def text (source : List UInt8) (n : Cst) : String :=
  Utf8.lossyText ((source.drop n.start).take (n.stop - n.start))

/-- The text of a field, empty if nothing fills it. -/
def fieldText (source : List UInt8) (n : Cst) (name : String) : String :=
  ((n.field? name).map (text source)).getD ""

/-- The text between the quotes of a string, and the whole text of any other node. -/
def stringValue (source : List UInt8) (n : Cst) : String :=
  let whole := (n.text source).toList
  match n.kind, whole, whole.reverse with
  | "string", first :: second :: rest, last :: _ =>
      if first = last ∧ (first = '\'' ∨ first = '"') then
        String.ofList (second :: rest).dropLast
      else String.ofList whole
  | _, _, _ => String.ofList whole

end Cst

/-- The position after some of the bytes, from the position of the first of them. -/
def Position.after (p : Position) : Nat → List UInt8 → Position
  | 0, _ => p
  | _, [] => p
  | count + 1, b :: rest =>
      Position.after (if b = 10 then ⟨p.line + 1, 1⟩ else ⟨p.line, p.column + 1⟩) count rest

/-- The position of a node's first byte. -/
def Cst.position (source : List UInt8) (n : Cst) : Position :=
  Position.after ⟨1, 1⟩ n.start source

end JsxProvenance

import JsxProvenance.Ast.Node

/-!
Addresses of nodes in a tree. A step names one part of a node, and an address is a list of steps
from the root. The attributes of an element have steps of their own kind, so appending attributes
moves no other node.
-/

namespace JsxProvenance.Ast

/-- One part of a node. -/
inductive Step where
  | part (index : Nat)
  | attribute (index : Nat)
  | child (index : Nat)
  deriving DecidableEq, Repr, Inhabited

/-- The way from a root to a node below it. -/
abbrev Address := List Step

namespace Node

/-- The node one step below, if there is such a part. -/
def step? : Node → Step → Option Node
  | wrap _ _ part, .part 0 => some part
  | declarator _ binding _, .part 0 => some binding
  | declarator _ _ init, .part 1 => some init
  | conditional _ test _ _, .part 0 => some test
  | conditional _ _ consequent _, .part 1 => some consequent
  | conditional _ _ _ alternate, .part 2 => some alternate
  | group _ _ parts, .part i => parts[i]?
  | element _ name _ _ _ _, .part 0 => some name
  | element _ _ attrs _ _ _, .attribute i => attrs[i]?
  | element _ _ _ children _ _, .child i => children[i]?
  | _, _ => none

/-- The node at an address. -/
def get? (n : Node) : Address → Option Node
  | [] => some n
  | s :: rest => (n.step? s).bind (get? · rest)

/-- Changes the node one step below. Where there is no such part nothing changes. -/
def modifyStep (f : Node → Node) : Step → Node → Node
  | .part 0, wrap p form part => wrap p form (f part)
  | .part 0, declarator p binding init => declarator p (f binding) init
  | .part 1, declarator p binding init => declarator p binding (f init)
  | .part 0, conditional p test consequent alternate =>
      conditional p (f test) consequent alternate
  | .part 1, conditional p test consequent alternate =>
      conditional p test (f consequent) alternate
  | .part 2, conditional p test consequent alternate =>
      conditional p test consequent (f alternate)
  | .part i, group p form parts => group p form (parts.modify i f)
  | .part 0, element p name attrs children sc off => element p (f name) attrs children sc off
  | .attribute i, element p name attrs children sc off =>
      element p name (attrs.modify i f) children sc off
  | .child i, element p name attrs children sc off =>
      element p name attrs (children.modify i f) sc off
  | _, n => n

/-- Changes the node at an address. Where there is no such node nothing changes. -/
def modifyAt (f : Node → Node) : Address → Node → Node
  | [] => f
  | s :: rest => modifyStep (modifyAt f rest) s

/-- The parts of a node in field order, each with the step that leads to it. -/
def slots : Node → List (Step × Node)
  | wrap _ _ part => [(.part 0, part)]
  | declarator _ binding init => [(.part 0, binding), (.part 1, init)]
  | conditional _ test consequent alternate =>
      [(.part 0, test), (.part 1, consequent), (.part 2, alternate)]
  | group _ _ parts => parts.mapIdx fun i n => (.part i, n)
  | element _ name attrs children _ _ =>
      (.part 0, name)
        :: (attrs.mapIdx fun i n => (.attribute i, n))
        ++ children.mapIdx fun i n => (.child i, n)
  | _ => []

end Node

/-- Changes the node at an address of the program's tree. The root itself never changes. -/
def Program.modifyAt (f : Node → Node) (p : Program) : Address → Program
  | .part i :: rest => { p with body := p.body.modify i (Node.modifyAt f rest) }
  | _ => p

/-- A node together with its address. -/
structure Place where
  address : Address
  node : Node
  deriving Repr, Inhabited

namespace Place

/-- The parts of a node in field order. -/
def slots (p : Place) : List Place :=
  p.node.slots.map fun (s, n) => ⟨p.address ++ [s], n⟩

/-- The parts of a node that are syntax, in field order. -/
def children (p : Place) : List Place :=
  p.slots.filter (·.node.isSyntax)

/-- The numbered part of a node, absent where it has no such part. -/
def part (p : Place) (i : Nat) : Place :=
  ⟨p.address ++ [.part i], (p.node.step? (.part i)).getD .absent⟩

end Place

/-- The root of the program's tree. -/
def Program.toPlace (p : Program) : Place :=
  ⟨[], p.toNode⟩

end JsxProvenance.Ast

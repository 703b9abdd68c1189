import JsxProvenance.Yaml.Tag
import JsxProvenance.Yaml.Tokens

/-!
The nodes of a document. An alias stands for the node that has the anchor, so documents become
plain trees.
-/

namespace JsxProvenance.Yaml

/-- A node. -/
inductive Node where
  | scalar (tag : Tag) (text : String)
  | sequence (tag : Tag) (items : List Node)
  | mapping (tag : Tag) (entries : List (Node × Node))
  deriving Repr, Inhabited

/-- The state of reading nodes: the tokens that are left, what the anchors stand for, and what the
handles of tags stand for. -/
structure Reading where
  tokens : List Token
  /-- The anchors so far. One whose node is still being read stands for nothing. -/
  anchors : List (String × Option Node) := []
  handles : List (String × String) := []

/-- A reader of nodes. It fails where the tokens make no document. -/
abbrev Reader := StateT Reading Option

/-- Where a node stands. After a key in a block mapping, a sequence need not be indented. -/
inductive NodePlace where
  | block
  | afterKey
  | flow
  deriving DecidableEq, Repr

namespace Reader

def peek : Reader Token := do
  return (← get).tokens.head?.getD .streamEnd

def skip : Reader Unit :=
  modify fun s => { s with tokens := s.tokens.tail }

/-- Takes a token if it is the next one. -/
def accept (t : Token) : Reader Bool := do
  if (← peek) == t then
    skip
    return true
  else return false

def expect (t : Token) : Reader Unit := do
  if ← accept t then pure () else failure

/-- Whether the next token is one of a list. -/
def ahead (ts : List Token) : Reader Bool := do
  return ts.contains (← peek)

/-- Repeats a step until it gives nothing, at most once for each token and once more. -/
def collect {α : Type} (step : Reader (Option α)) : Reader (List α) := do
  let rec go : Nat → Reader (List α)
    | 0 => pure []
    | fuel + 1 => do
        match ← step with
        | some a => return a :: (← go fuel)
        | none => return []
  go ((← get).tokens.length + 1)

def emptyNode : Node :=
  .scalar (Tag.ofPlain "") ""

/-- What is written in front of a node: an anchor and a tag, in any order. -/
structure Properties where
  anchor : Option String := none
  tag : Option (Option String × String) := none

/-- Takes an anchor if it is the next token. -/
def anchor? : Reader (Option String) := do
  match ← peek with
  | .anchor name =>
      skip
      return some name
  | _ => return none

/-- Takes a tag if it is the next token. -/
def tag? : Reader (Option (Option String × String)) := do
  match ← peek with
  | .tag handle suffix =>
      skip
      return some (handle, suffix)
  | _ => return none

def properties : Reader Properties := do
  match ← anchor? with
  | some name => return ⟨some name, ← tag?⟩
  | none =>
      let tag ← tag?
      return ⟨← anchor?, tag⟩

/-- The full name of a tag. A handle must be known. -/
def tagName (tag : Option String × String) : Reader String := do
  match tag with
  | (none, suffix) => return suffix
  | (some handle, suffix) =>
      match (← get).handles.lookup handle with
      | some start => return start ++ suffix
      | none => failure

/-- The tag of a scalar. A plain one has it by its form, and so has one whose tag says nothing. -/
def scalarTag (name : Option String) (style : Style) (text : String) : Tag :=
  match name with
  | some "!" => Tag.ofPlain text
  | some n => Tag.ofName n
  | none => if style == .plain then Tag.ofPlain text else .text

def collectionTag (name : Option String) (standard : Tag) : Tag :=
  match name with
  | some "!" => standard
  | some n => Tag.ofName n
  | none => standard

/-- The items of a block sequence, up to a token that does not belong to it. -/
def blockItems (node : NodePlace → Reader Node) (stops : List Token) : Reader (List Node) :=
  collect do
    if ← accept .blockEntry then
      if ← ahead (.blockEntry :: stops) then return some emptyNode
      else return some (← node .block)
    else return none

/-- The entries of a block mapping. A key or a value can be missing. -/
def blockEntries (node : NodePlace → Reader Node) : Reader (List (Node × Node)) :=
  collect do
    let stops : List Token := [.key, .value, .blockEnd]
    let part : Reader Node := do
      if ← ahead stops then return emptyNode else node .afterKey
    if ← accept .key then
      let key ← part
      let value ← if ← accept .value then part else pure emptyNode
      return some (key, value)
    else if ← accept .value then return some (emptyNode, ← part)
    else return none

/-- The value after a key in a flow collection, which can be missing. -/
def flowValue (node : NodePlace → Reader Node) (closing : Token) : Reader Node := do
  if ← accept .value then
    if ← ahead [.flowEntry, closing] then return emptyNode else node .flow
  else return emptyNode

/-- A key and its value in a flow collection, after the mark of the key. -/
def flowPair (node : NodePlace → Reader Node) (closing : Token) : Reader (Node × Node) := do
  let key ← if ← ahead [.value, .flowEntry, closing] then pure emptyNode else node .flow
  return (key, ← flowValue node closing)

/-- One item of a flow sequence. A pair is a mapping of its own. -/
def flowItem (node : NodePlace → Reader Node) : Reader Node := do
  if ← accept .key then
    let pair ← flowPair node .flowSequenceEnd
    return .mapping .mapping [pair]
  else node .flow

def flowEntry (node : NodePlace → Reader Node) : Reader (Node × Node) := do
  if ← accept .key then flowPair node .flowMappingEnd
  else return (← node .flow, emptyNode)

/-- The items of a flow collection up to its end. A comma can stand after the last one. -/
def flowItems {α : Type} (closing : Token) (item : Reader α) : Reader (List α) := do
  let items ← collect do
    if (← peek) == closing then return none
    else
      let a ← item
      if (← peek) != closing then expect .flowEntry
      return some a
  expect closing
  return items

def content (node : NodePlace → Reader Node) (place : NodePlace) (name : Option String)
    (hasProperties : Bool) : Reader Node := do
  let sequenceTag := collectionTag name .sequence
  let mappingTag := collectionTag name .mapping
  match ← peek with
  | .scalar style text =>
      skip
      return .scalar (scalarTag name style text) text
  | .flowSequenceStart =>
      skip
      return .sequence sequenceTag (← flowItems .flowSequenceEnd (flowItem node))
  | .flowMappingStart =>
      skip
      return .mapping mappingTag (← flowItems .flowMappingEnd (flowEntry node))
  | token =>
      if token == .blockEntry && place == .afterKey then
        return .sequence sequenceTag (← blockItems node [.key, .value, .blockEnd])
      else if token == .blockSequenceStart && place != .flow then
        skip
        let items ← blockItems node [.blockEnd]
        expect .blockEnd
        return .sequence sequenceTag items
      else if token == .blockMappingStart && place != .flow then
        skip
        let entries ← blockEntries node
        expect .blockEnd
        return .mapping mappingTag entries
      else if hasProperties then return .scalar (scalarTag name .plain "") ""
      else failure

/-- A node, with readers for the nodes inside of it. -/
def nodeWith (node : NodePlace → Reader Node) (place : NodePlace) : Reader Node := do
  match ← peek with
  | .reference name =>
      skip
      match (← get).anchors.lookup name with
      | some (some n) => return n
      | _ => failure
  | _ =>
      let p ← properties
      let name ← p.tag.mapM tagName
      match p.anchor with
      | none => content node place name p.tag.isSome
      | some anchor =>
          let s ← get
          if (s.anchors.lookup anchor).isSome then failure
          else
            set { s with anchors := (anchor, none) :: s.anchors }
            let n ← content node place name true
            modify fun s => { s with anchors := (anchor, some n) :: s.anchors }
            return n

/-- A node that is nested no deeper than a bound. -/
def nodeTo : Nat → NodePlace → Reader Node
  | 0, _ => failure
  | depth + 1, place => nodeWith (nodeTo depth) place

/-- What the handles of tags stand for if no directive says otherwise. -/
def standardHandles : List (String × String) :=
  [("!", "!"), ("!!", tagNamespace)]

/-- The directives in front of a document. Each version and each handle is stated once. -/
def directives : Reader (List (String × String)) := do
  let found ← collect do
    match ← peek with
    | .directive d =>
        skip
        return some d
    | _ => return none
  let versions := found.filterMap fun
    | .version major _ => some major
    | _ => none
  let handles := found.filterMap fun
    | .tag handle start => some (handle, start)
    | _ => none
  if versions.length ≤ 1 && versions.all (· == 1) && (handles.map (·.1)).Nodup then
    return handles ++ standardHandles
  else failure

/-- The only document of a stream, none if the stream is empty. -/
def document? : Reader (Option Node) := do
  let depth := (← get).tokens.length
  let implicit ← match ← peek with
    | .directive _ => pure false
    | t => pure (t != .documentStart && t != .streamEnd)
  let node ←
    if implicit then
      modify fun s => { s with handles := standardHandles }
      some <$> nodeTo depth .block
    else
      let _ ← collect (do if ← accept .documentEnd then return some () else return none)
      if (← peek) == .streamEnd then pure none
      else
        let handles ← directives
        modify fun s => { s with handles }
        expect .documentStart
        match ← peek with
        | .directive _ => pure (some emptyNode)
        | t =>
            if t == .documentStart || t == .documentEnd || t == .streamEnd then
              pure (some emptyNode)
            else some <$> nodeTo depth .block
  let _ ← collect (do if ← accept .documentEnd then return some () else return none)
  expect .streamEnd
  return node

end Reader

/-- The document of a text, if it is YAML with at most one document. -/
def document? (text : List Char) : Option (Option Node) := do
  let tokens ← tokens? text
  let result ← Reader.document?.run { tokens }
  return result.1

end JsxProvenance.Yaml

import Ramlify.Yaml.ScalarType
import Ramlify.Yaml.Token

/-!
# Nodes

The tokens of a text make up a graph of nodes: scalars, sequences and mappings. A node may be named
by an anchor, and an alias stands for the node of that name, so that a node can occur in several
places and even within itself.
-/

namespace Ramlify.Yaml

/-- The types of nodes. -/
inductive NodeType where
  | null
  | bool
  | int
  | float
  | binary
  | timestamp
  | orderedMap
  | pairs
  | set
  | text
  | sequence
  | mapping
  | merge
  | value
  | unknown
  deriving DecidableEq, Repr

namespace NodeType

/-- The beginning of the tags of the known types. -/
def tagStart : String := "tag:yaml.org,2002:"

def named : Entries String NodeType :=
  [("null", null), ("bool", bool), ("int", int), ("float", float), ("binary", binary),
   ("timestamp", timestamp), ("omap", orderedMap), ("pairs", pairs), ("set", set), ("str", text),
   ("seq", sequence), ("map", mapping), ("merge", merge), ("value", value)]

def ofTag (tag : String) : NodeType :=
  match (named.find? fun entry => tagStart ++ entry.1 == tag) with
  | some entry => entry.2
  | none => unknown

def ofScalar : ScalarType → NodeType
  | .bool => bool
  | .float => float
  | .int => int
  | .merge => merge
  | .null => null
  | .timestamp => timestamp
  | .value => value
  | .mark => unknown
  | .text => text

/-- The type that a text has by its form. -/
def ofPlain (cs : List Char) : NodeType := ofScalar (ScalarType.ofPlain cs)

end NodeType

/-- What a node holds. Other nodes are given by their numbers. -/
inductive NodeBody where
  | scalar (text : List Char)
  | sequence (items : List Nat)
  | mapping (entries : List (Nat × Nat))
  deriving Repr

/-- A node. -/
structure Node where
  type : NodeType
  body : NodeBody
  deriving Repr

abbrev Graph := Array Node

/-- The node that stands for nothing. -/
def Node.nothing : Node := { type := .null, body := .scalar [] }

def Graph.node (graph : Graph) (id : Nat) : Node := graph.getD id Node.nothing

/-- The state in which nodes are made from tokens. -/
structure Composer where
  tokens : List Token
  /-- What is wrong with the text after the last token. -/
  fault : Fault
  graph : Graph := #[]
  anchors : Entries String Nat := []
  handles : Entries String String := []

abbrev Composing (α : Type) := StateT Composer Reading α

namespace Composing

def malformed {α : Type} : Composing α := throw .malformed

def peek : Composing Token := do
  match (← get).tokens with
  | [] => throw (← get).fault
  | token :: _ => return token

def advance : Composing Unit := modify fun s => { s with tokens := s.tokens.drop 1 }

/-- Passes over the next token if it is the given one. -/
def accept (token : Token) : Composing Bool := do
  if (← peek) = token then
    advance
    return true
  else return false

def add (node : Node) : Composing Nat := do
  let id := (← get).graph.size
  modify fun s => { s with graph := s.graph.push node }
  return id

/-- Adds a node for a value that is left out. -/
def addNothing : Composing Nat := add Node.nothing

def setBody (id : Nat) (body : NodeBody) : Composing Unit :=
  modify fun s => { s with graph := s.graph.modify id fun node => { node with body } }

/-! ## Properties of nodes -/

/-- The anchor and the tag of a node. -/
structure Properties where
  anchor : Option String := none
  tag : Option TagText := none

def readAnchor : Composing (Option String) := do
  match ← peek with
  | .anchor name =>
    advance
    return some name
  | _ => return none

def readTag : Composing (Option TagText) := do
  match ← peek with
  | .tag tag =>
    advance
    return some tag
  | _ => return none

/-- Reads the anchor and the tag of a node in any order. -/
def readProperties : Composing Properties := do
  match ← readAnchor with
  | some name => return { anchor := some name, tag := ← readTag }
  | none =>
    match ← readTag with
    | some tag => return { anchor := ← readAnchor, tag := some tag }
    | none => return {}

/-- A tag in full. -/
def expand (tag : TagText) : Composing String := do
  match tag.handle with
  | none => return tag.suffix
  | some handle =>
    match Entries.get? (← get).handles handle with
    | some start => return start ++ tag.suffix
    | none => malformed

def fullTag (properties : Properties) : Composing (Option String) := do
  match properties.tag with
  | none => return none
  | some tag => return some (← expand tag)

/-- The type of a sequence or a mapping. -/
def typeOf (tag : Option String) (usual : NodeType) : NodeType :=
  match tag with
  | none => usual
  | some tag => if tag = "!" then usual else NodeType.ofTag tag

def scalarType (tag : Option String) (text : List Char) (plain : Bool) : NodeType :=
  match tag with
  | none => if plain then NodeType.ofPlain text else .text
  | some tag => if tag = "!" then NodeType.ofPlain text else NodeType.ofTag tag

/-- Names a node. A name is given once. -/
def name (anchor : Option String) (id : Nat) : Composing Unit := do
  match anchor with
  | none => return
  | some anchor =>
    if Entries.has (← get).anchors anchor then malformed
    modify fun s => { s with anchors := Entries.put s.anchors anchor id }

def addNamed (anchor : Option String) (node : Node) : Composing Nat := do
  let id ← add node
  name anchor id
  return id

def resolve (name : String) : Composing Nat := do
  match Entries.get? (← get).anchors name with
  | some id => return id
  | none => malformed

/-! ## Nodes -/

/-- The kinds of places where a node may stand. -/
inductive Place where
  /-- Within brackets. -/
  | flow
  /-- In a block. -/
  | block
  /-- As a key or a value of a block mapping, where items need not be indented. -/
  | entry
  deriving DecidableEq, Repr

/-- Whether a value is left out before a token of a block mapping. -/
def endsEntry (token : Token) : Bool :=
  token = .key || token = .value || token = .blockEnd

mutual

def node : Nat → Place → Composing Nat
  | 0, _ => malformed
  | fuel + 1, place => do
    match ← peek with
    | .alias name =>
      advance
      resolve name
    | _ =>
      let properties ← readProperties
      content fuel place properties.anchor (← fullTag properties)

def content : Nat → Place → Option String → Option String → Composing Nat
  | 0, _, _, _ => malformed
  | fuel + 1, place, anchor, tag => do
    let token ← peek
    if token = .blockEntry ∧ place = .entry then
      let id ← addNamed anchor { type := typeOf tag .sequence, body := .sequence [] }
      setBody id (.sequence (← looseItems fuel))
      return id
    match token with
    | .scalar text plain =>
      advance
      addNamed anchor { type := scalarType tag text plain, body := .scalar text }
    | .flowSequenceStart =>
      advance
      let id ← addNamed anchor { type := typeOf tag .sequence, body := .sequence [] }
      setBody id (.sequence (← flowItems fuel true))
      return id
    | .flowMappingStart =>
      advance
      let id ← addNamed anchor { type := typeOf tag .mapping, body := .mapping [] }
      setBody id (.mapping (← flowEntries fuel true))
      return id
    | .blockSequenceStart =>
      if place = .flow then emptyContent anchor tag
      else
        advance
        let id ← addNamed anchor { type := typeOf tag .sequence, body := .sequence [] }
        setBody id (.sequence (← blockItems fuel))
        return id
    | .blockMappingStart =>
      if place = .flow then emptyContent anchor tag
      else
        advance
        let id ← addNamed anchor { type := typeOf tag .mapping, body := .mapping [] }
        setBody id (.mapping (← blockEntries fuel))
        return id
    | _ => emptyContent anchor tag
where
  /-- A node with an anchor or a tag may be empty. -/
  emptyContent (anchor tag : Option String) : Composing Nat :=
    if anchor.isSome || tag.isSome then
      addNamed anchor { type := scalarType tag [] true, body := .scalar [] }
    else malformed

/-- Reads the items of a block sequence. -/
def blockItems : Nat → Composing (List Nat)
  | 0 => malformed
  | fuel + 1 => do
    if ← accept .blockEnd then return []
    if ← accept .blockEntry then
      let token ← peek
      let item ← if token = .blockEntry || token = .blockEnd then addNothing
        else node fuel .block
      return item :: (← blockItems fuel)
    malformed

/-- Reads the items of a block sequence that is not indented. -/
def looseItems : Nat → Composing (List Nat)
  | 0 => malformed
  | fuel + 1 => do
    if ← accept .blockEntry then
      let token ← peek
      let item ← if token = .blockEntry || endsEntry token then addNothing
        else node fuel .block
      return item :: (← looseItems fuel)
    return []

/-- Reads the entries of a block mapping. -/
def blockEntries : Nat → Composing (List (Nat × Nat))
  | 0 => malformed
  | fuel + 1 => do
    if ← accept .blockEnd then return []
    if ← accept .key then
      let key ← blockPart fuel
      let value ← if ← accept .value then blockPart fuel else addNothing
      return (key, value) :: (← blockEntries fuel)
    malformed

/-- Reads a key or a value of a block mapping. -/
def blockPart : Nat → Composing Nat
  | 0 => malformed
  | fuel + 1 => do
    if endsEntry (← peek) then addNothing else node fuel .entry

/-- Reads the items of a sequence in brackets. An entry of a mapping may stand for an item. -/
def flowItems : Nat → Bool → Composing (List Nat)
  | 0, _ => malformed
  | fuel + 1, first => do
    if ← accept .flowSequenceEnd then return []
    if !first then
      if !(← accept .flowEntry) then malformed
      if ← accept .flowSequenceEnd then return []
    let item ← if ← accept .key then
        let id ← add { type := .mapping, body := .mapping [] }
        setBody id (.mapping [← flowEntry fuel .flowSequenceEnd])
        pure id
      else node fuel .flow
    return item :: (← flowItems fuel false)

/-- Reads the entries of a mapping in brackets. A node on its own is a key. -/
def flowEntries : Nat → Bool → Composing (List (Nat × Nat))
  | 0, _ => malformed
  | fuel + 1, first => do
    if ← accept .flowMappingEnd then return []
    if !first then
      if !(← accept .flowEntry) then malformed
      if ← accept .flowMappingEnd then return []
    let entry ← if ← accept .key then flowEntry fuel .flowMappingEnd
      else do
        let key ← node fuel .flow
        pure (key, ← addNothing)
    return entry :: (← flowEntries fuel false)

/-- Reads the key and the value of an entry in brackets, before a comma or the closing bracket. -/
def flowEntry : Nat → Token → Composing (Nat × Nat)
  | 0, _ => malformed
  | fuel + 1, closing => do
    let token ← peek
    let key ← if token = .value || token = .flowEntry || token = closing then addNothing
      else node fuel .flow
    if ← accept .value then
      let token ← peek
      let value ← if token = .flowEntry || token = closing then addNothing else node fuel .flow
      return (key, value)
    return (key, ← addNothing)

end

/-! ## Documents -/

/-- The handles that need no directive. -/
def usualHandles : Entries String String := [("!", "!"), ("!!", NodeType.tagStart)]

/-- Reads the directives before a document. The version is given once at most, and so is each
handle. -/
def directives : Nat → Bool → Entries String String → Composing (Entries String String)
  | 0, _, _ => malformed
  | fuel + 1, hasVersion, handles => do
    match ← peek with
    | .directive directive =>
      advance
      match directive with
      | .version major =>
        if hasVersion || major ≠ 1 then malformed else directives fuel true handles
      | .handle handle start =>
        if Entries.has handles handle then malformed
        else directives fuel hasVersion (Entries.put handles handle start)
      | .other => directives fuel hasVersion handles
    | _ => return handles

/-- Passes over the marks at the end of a document. -/
def documentEnds : Nat → Composing Unit
  | 0 => malformed
  | fuel + 1 => do if ← accept .documentEnd then documentEnds fuel

/-- Whether a document is left empty before a token. -/
def endsDocument (token : Token) : Bool :=
  match token with
  | .directive _ => true
  | token => token = .documentStart || token = .documentEnd || token = .streamEnd

/-- Reads a document that begins with a mark. -/
def markedDocument (fuel : Nat) : Composing Nat := do
  let handles ← directives fuel false []
  if !(← accept .documentStart) then malformed
  let usual := usualHandles.filter fun entry => !Entries.has handles entry.1
  modify fun s => { s with handles := handles ++ usual }
  if endsDocument (← peek) then addNothing else node fuel .block

/-- What comes after the only document of a text: its end, or else the directives of another
document, which is one too many. -/
def afterDocument (fuel : Nat) : Composing Unit := do
  documentEnds fuel
  if (← peek) = .streamEnd then return
  let _ ← directives fuel false []
  malformed

/-- Reads the only document of a text, if there is one. -/
def document (fuel : Nat) : Composing (Option Nat) := do
  let first ← peek
  if first = .streamEnd then return none
  let root ← if first = .documentEnd || !endsDocument first then do
      modify fun s => { s with handles := usualHandles }
      node fuel .block
    else markedDocument fuel
  afterDocument fuel
  return some root

end Composing

/-- The nodes of a text, and the number of the outermost one. -/
structure Document where
  graph : Graph
  root : Nat

/-- The document that a text is. An empty text stands for nothing. -/
def Document.ofChars (cs : List Char) : Reading Document := do
  let read := Tokens.ofChars cs
  let fuel := 4 * read.tokens.length + 8
  match ← (Composing.document fuel).run { tokens := read.tokens, fault := read.fault } with
  | (some root, s) => return { graph := s.graph, root }
  | (none, _) => return { graph := #[Node.nothing], root := 0 }

end Ramlify.Yaml

import Ramlify.Text.Base64
import Ramlify.Yaml.Node
import Ramlify.Yaml.Number

/-!
# Contents

What the nodes of a document stand for. Collections are filled in the order in which they are met,
the outer ones before the inner ones, so that a node may occur within itself; the first fault
counts. The entries of a mapping that are merged into another one come before its own.
-/

namespace Ramlify.Yaml

/-- What a node stands for. Other nodes are given by their numbers. -/
inductive Content where
  /-- A value that is neither a text nor a collection. -/
  | plain
  | text (text : String)
  | list (items : List Nat)
  | pairs
  | set (items : List Nat)
  | map (entries : List (Nat × Nat))
  deriving Repr

/-- Collections cannot be keys. -/
def Content.isKey : Content → Bool
  | plain => true
  | text _ => true
  | _ => false

/-- The state in which contents are made. -/
structure Builder where
  graph : Graph
  /-- The contents made so far, by node. -/
  contents : Entries Nat Content := []
  /-- The collections that are still to be filled. -/
  waiting : List Nat := []

abbrev Building (α : Type) := StateT Builder Reading α

namespace Building

def malformed {α : Type} : Building α := throw .malformed

def node (id : Nat) : Building Node := do return (← get).graph.node id

def setContent (id : Nat) (content : Content) : Building Unit :=
  modify fun s => { s with contents := Entries.put s.contents id content }

/-! ## Scalars -/

/-- The text of a scalar. A mapping stands for the value under the key `=`, if it has one. It may be
that value itself: more steps than there are nodes have no end
(`scalarText_eq_endless_iff`). -/
def scalarText (graph : Graph) : Nat → Nat → Reading (List Char)
  | 0, _ => .error (.misuse .endless)
  | fuel + 1, id =>
    match (graph.node id).body with
    | .scalar text => .ok text
    | .sequence _ => .error .malformed
    | .mapping entries =>
      match entries.find? fun entry => (graph.node entry.1).type = .value with
      | some entry => scalarText graph fuel entry.2
      | none => .error .malformed

/-- The words for truth values, in small letters. -/
def truthWords : List String := ["yes", "no", "true", "false", "on", "off"]

def requireTruth (text : List Char) : Reading Unit :=
  if String.ofList (text.map Char.toLower) ∈ truthWords then .ok () else .error (.misuse .word)

/-- Accepts the text of a date or a time. -/
def requireTimestamp (text : List Char) : Reading Unit :=
  match Timestamp.parse? (ScalarType.dropLineEnd text) with
  | none => .error (.misuse .operation)
  | some time => if time.isValid then .ok () else .error (.misuse .content)

/-- Accepts a date or a time, which has to be a scalar itself. -/
def requireTimestampNode (body : NodeBody) (text : List Char) : Reading Unit :=
  match body with
  | .scalar _ => requireTimestamp text
  | _ => .error (.misuse .type)

def requireBinary (text : List Char) : Reading Unit :=
  if (text.all fun c => c.toNat < 128) && Text.isBase64 text then .ok () else .error .malformed

/-- The types whose values are made of the texts of scalars. -/
def scalarTypes : List NodeType := [.null, .bool, .int, .float, .binary, .timestamp, .text]

/-- The content of a scalar of some type. -/
def scalarContent (type : NodeType) (body : NodeBody) (text : List Char) : Reading Content := do
  match type with
  | .null => return .plain
  | .bool => requireTruth text
  | .int => requireWhole text
  | .float => requireFloat text
  | .timestamp => requireTimestampNode body text
  | .binary => requireBinary text
  | .text => return .text (String.ofList text)
  | _ => .error .malformed
  return .plain

/-- The content of a node that is no collection. A type that no value is made of is a fault before a
text is looked for, which might have no end. -/
def scalarOf (graph : Graph) (id : Nat) : Reading Content :=
  let node := graph.node id
  if node.type ∈ scalarTypes then do
    scalarContent node.type node.body (← scalarText graph (graph.size + 1) id)
  else .error .malformed

/-! ## Making contents -/

def emptyOf? : NodeType → Option Content
  | .orderedMap => some .pairs
  | .pairs => some .pairs
  | .set => some (.set [])
  | .sequence => some (.list [])
  | .mapping => some (.map [])
  | _ => none

/-- Makes the content of a node, unless that was done. A collection is empty at first. -/
def make (id : Nat) : Building Content := do
  let s ← get
  match Entries.get? s.contents id with
  | some content => return content
  | none =>
    let node ← node id
    let content ← match emptyOf? node.type with
      | some content => do
        modify fun s => { s with waiting := s.waiting ++ [id] }
        pure content
      | none => scalarOf s.graph id
    setContent id content
    return content

/-! ## Merging -/

def entriesOf (id : Nat) : Building (List (Nat × Nat)) := do
  match (← node id).body with
  | .mapping entries => return entries
  | _ => malformed

def setEntries (id : Nat) (entries : List (Nat × Nat)) : Building Unit :=
  modify fun s => { s with
    graph := s.graph.modify id fun node => { node with body := .mapping entries } }

/-- Takes a key of a mapping as a text, if it is the key `=`. -/
def keyAsText (id : Nat) : Building Unit :=
  modify fun s => { s with
    graph := s.graph.modify id fun node =>
      if node.type = .value then { node with type := .text } else node }

/-- The first entry whose value is to be merged, with the entries before and after it. -/
def splitMerge? (graph : Graph) :
    List (Nat × Nat) → Option (List (Nat × Nat) × Nat × List (Nat × Nat))
  | [] => none
  | entry :: rest =>
    if (graph.node entry.1).type = .merge then some ([], entry.2, rest)
    else
      (splitMerge? graph rest).map fun found => (entry :: found.1, found.2.1, found.2.2)

mutual

/-- Merges into a mapping the entries of those that it names. -/
def flatten : Nat → Nat → Building Unit
  | 0, _ => malformed
  | fuel + 1, id => mergeFrom fuel id []
termination_by structural fuel => fuel

/-- Merges the remaining mappings, after some entries were merged. -/
def mergeFrom : Nat → Nat → List (Nat × Nat) → Building Unit
  | 0, _, _ => malformed
  | fuel + 1, id, merged => do
    let entries ← entriesOf id
    match splitMerge? (← get).graph entries with
    | none =>
      for entry in entries do keyAsText entry.1
      setEntries id (merged ++ entries)
    | some (before, source, after) =>
      setEntries id (before ++ after)
      let found ← sourceEntries fuel source
      mergeFrom fuel id (merged ++ found)
termination_by structural fuel => fuel

/-- The entries of a mapping to be merged, or of those in a sequence, the last one first. -/
def sourceEntries : Nat → Nat → Building (List (Nat × Nat))
  | 0, _ => malformed
  | fuel + 1, source => do
    match (← node source).body with
    | .mapping _ =>
      flatten fuel source
      entriesOf source
    | .sequence items =>
      let parts ← items.mapM fun part => partEntries fuel part
      return parts.reverse.flatten
    | .scalar _ => malformed
termination_by structural fuel => fuel

/-- The entries of a mapping in a sequence of those to be merged. -/
def partEntries : Nat → Nat → Building (List (Nat × Nat))
  | 0, _ => malformed
  | fuel + 1, part => do
    let _ ← entriesOf part
    flatten fuel part
    entriesOf part
termination_by structural fuel => fuel

end

/-- The number of entries to be merged. -/
def mergeCount (graph : Graph) : Nat :=
  (graph.toList.filter fun node => node.type = .merge).length

/-- The number of entries in all mappings. -/
def entryCount (graph : Graph) : Nat :=
  (graph.toList.flatMap fun node => match node.body with
    | .mapping entries => entries
    | _ => []).length

/-! ## Filling collections -/

/-- Makes the contents of the entries of a mapping. -/
def makeEntries (id : Nat) : Building (List (Nat × Nat)) := do
  let _ ← entriesOf id
  let graph := (← get).graph
  flatten (4 * (mergeCount graph * entryCount graph + 1)) id
  let entries ← entriesOf id
  for entry in entries do
    if !(← make entry.1).isKey then malformed
    let _ ← make entry.2
  return entries

def makePair (id : Nat) : Building Unit := do
  match (← node id).body with
  | .mapping [(key, value)] =>
    let _ ← make key
    let _ ← make value
  | _ => malformed

def itemsOf (id : Nat) : Building (List Nat) := do
  match (← node id).body with
  | .sequence items => return items
  | _ => malformed

def fill (id : Nat) : Building Unit := do
  match (← node id).type with
  | .sequence =>
    let items ← itemsOf id
    for item in items do let _ ← make item
    setContent id (.list items)
  | .mapping => setContent id (.map (← makeEntries id))
  | .set => setContent id (.set ((← makeEntries id).map (·.1)))
  | _ => for item in ← itemsOf id do makePair item

/-- Fills all collections that wait. Each node is filled once. -/
def fillAll : Nat → Building Unit
  | 0 => malformed
  | fuel + 1 => do
    match (← get).waiting with
    | [] => return
    | id :: waiting =>
      modify fun s => { s with waiting }
      fill id
      fillAll fuel

def makeAll (document : Document) : Building Unit := do
  let _ ← make document.root
  fillAll (document.graph.size + 1)

end Building

/-- The contents of the nodes of a document. -/
def Document.contents (document : Document) : Reading (Entries Nat Content) := do
  let (_, s) ← (Building.makeAll document).run { graph := document.graph }
  return s.contents

/-! ## Outlines -/

/-- The content of a node as a value, given the values of the nodes within it. Values that are
neither texts nor collections are shown as null, and only the members with texts as names are
shown. -/
def outlineOver (contents : Entries Nat Content) (inner : List Nat → List Value) (id : Nat) :
    Value :=
  match (Entries.get? contents id).getD .plain with
  | .plain => .null
  | .text text => .str text
  | .pairs => .list []
  | .list items => .list (inner items)
  | .set items => .list (inner items)
  | .map entries =>
    .obj (Entries.ofList (entries.filterMap fun entry =>
      match Entries.get? contents entry.1 with
      | some (.text name) => some (name, (inner [entry.2]).headD .null)
      | _ => none))

/-- The content of a node as a value, to a depth. Deeper collections are shown empty. -/
def outline (contents : Entries Nat Content) : Nat → Nat → Value
  | 0 => outlineOver contents fun _ => []
  | depth + 1 => outlineOver contents fun items => items.map (outline contents depth)

/-- The outline of the document that a text is. -/
def outlineOf (depth : Nat) (text : String) : Reading Value := do
  let document ← Document.ofChars text.toList
  return outline (← document.contents) depth document.root

end Ramlify.Yaml

import TriangleTam.Yaml.Fault
import TriangleTam.Yaml.Lexer

/-!
# Documents

A document is a tree of scalars, sequences and mappings. Only the first document of a text is read,
and only as far as to its end. An anchor names a node; an alias stands for the node that last had
its name, even from inside that node, so what it stands for is kept beside the tree.
-/

namespace TriangleTam.Yaml

/-- A node of a document. Lines count from zero; a scalar without a tag has an empty one, and other
nodes keep none. -/
inductive Node where
  /-- A scalar; an implicit one is written plainly or not at all. -/
  | scalar (line : Nat) (tag : String) (implicit : Bool) (text : String)
  | sequence (line : Nat) (items : List Node)
  | mapping (line : Nat) (entries : List (Node × Node))
  /-- An alias, with the name it is written with, a number of its own, and the number of the node it
  stands for. -/
  | reference (line : Nat) (name : String) (number target : Nat)

namespace Node

/-- The line the node starts in. -/
def line : Node → Nat
  | scalar line .. | sequence line .. | mapping line .. | reference line .. => line

/-- What stands where a node is left out. -/
def empty (line : Nat) : Node := scalar line "" true ""

end Node

/-- A document. -/
structure Document where
  root : Node
  /-- The nodes with an anchor, by their numbers. -/
  anchored : List (Nat × Node)
  /-- The numbers of the aliases. -/
  references : List Nat

/-- The node with an anchor that has the given number. -/
def Document.node? (d : Document) (number : Nat) : Option Node :=
  d.anchored.lookup number

/-- A document in the middle of being read. -/
structure Reading where
  tokens : List Token
  /-- The fault that ends the tokens. -/
  fault : Option Fault
  /-- What the handles of tags stand for. -/
  handles : List (String × String) := []
  /-- The numbers of the nodes that the anchors name, last one first. -/
  anchors : List (String × Nat) := []
  /-- The nodes with an anchor that are read to their end. -/
  anchored : List (Nat × Node) := []
  references : List Nat := []

/-- A step in reading a document. -/
abbrev Step := StateT Reading (Except Fault)

namespace Step

/-- The next token. -/
def peek : Step Token := do
  let r ← get
  match r.tokens, r.fault with
  | t :: _, _ => return t
  | [], some f => throw f
  | [], none => throw (.problem .textEnd none)

/-- Goes on behind the next token. -/
def skip : Step Unit :=
  modify fun r => { r with tokens := r.tokens.tail }

/-- Finds something wrong in a line. -/
def fail {α : Type} (p : Problem) (context line : Nat) : Step α :=
  throw (.grammatical p context line)

/-- The number of whatever starts here: how many tokens are left. -/
def number : Step Nat := do
  return (← get).tokens.length

/-- Reads a node. From its start on, also inside it, the anchor names it. -/
def anchoring (anchor : Option String) (read : Step Node) : Step Node := do
  match anchor with
  | none => read
  | some name =>
    let n ← number
    modify fun r => { r with anchors := (name, n) :: r.anchors }
    let node ← read
    modify fun r => { r with anchored := (n, node) :: r.anchored }
    return node

/-- An alias that stands for the node that last had the name. -/
def reference (line : Nat) (name : String) : Step Node := do
  match (← get).anchors.lookup name with
  | none => throw (.unknownAnchor name)
  | some target =>
    let n ← number
    modify fun r => { r with references := n :: r.references }
    return .reference line name n target

/-- What the handle and the suffix of a tag stand for. -/
def resolveTag (context line : Nat) (handle suffix : String) : Step String := do
  if handle = "" then return suffix
  match (← get).handles.lookup handle with
  | some stem =>
    if stem ++ suffix = "" then fail .handleUnknown context line else return stem ++ suffix
  | none => fail .handleUnknown context line

/-- What can be said before a node: its anchor and its tag, in either order. -/
structure Properties where
  anchor : Option String := none
  /-- The line of the tag, its handle and its suffix. -/
  tag : Option (Nat × String × String) := none

/-- Reads an anchor or tag, if it is not yet there. -/
def property (p : Properties) : Step Properties := do
  let t ← peek
  match t.kind, p.anchor, p.tag with
  | .anchor n, none, _ => skip; return { p with anchor := some n }
  | .tag handle suffix, _, none => skip; return { p with tag := some (t.line, handle, suffix) }
  | _, _, _ => return p

/-- Reads what can be said before a node. -/
def properties : Step Properties := do
  property (← property {})

/-- Whether a node is left out before a token in a block mapping. -/
def endsBlockPart : Kind → Bool
  | .key | .value | .blockEnd => true
  | _ => false

mutual

/-- Reads a node; `block` says that it may be a block, and `flat` that it may be a sequence that is
not further in. -/
def node (block flat : Bool) : (fuel : Nat) → Step Node
  | 0 => throw (.problem .textEnd none)
  | fuel + 1 => do
    let t ← peek
    match t.kind with
    | .reference name => skip; reference t.line name
    | _ =>
      let p ← properties
      let content ← peek
      let tag ← match p.tag with
        | some (line, handle, suffix) => resolveTag t.line line handle suffix
        | none => pure ""
      let sequence (items : Step (List Node)) : Step Node :=
        anchoring p.anchor do return .sequence t.line (← items)
      let mapping (entries : Step (List (Node × Node))) : Step Node :=
        anchoring p.anchor do return .mapping t.line (← entries)
      let scalar (implicit : Bool) (text : String) : Step Node :=
        anchoring p.anchor do return .scalar t.line tag implicit text
      match content.kind, block with
      | .blockEntry, _ =>
        if flat then sequence (flatItems fuel)
        else if p.anchor.isSome || tag ≠ "" then scalar (tag == "") ""
        else fail .noContent t.line content.line
      | .scalar text plain, _ =>
        skip
        scalar ((tag == "" && plain) || tag == "!") text
      | .flowSequenceStart, _ => skip; sequence (flowItems content.line true fuel)
      | .flowMappingStart, _ => skip; mapping (flowEntries content.line true fuel)
      | .blockSequenceStart, true => skip; sequence (blockItems content.line fuel)
      | .blockMappingStart, true => skip; mapping (blockEntries content.line fuel)
      | _, _ =>
        if p.anchor.isSome || tag ≠ "" then scalar (tag == "") ""
        else fail .noContent t.line content.line
termination_by structural fuel => fuel

/-- Reads the items of a block sequence, through its end. -/
def blockItems (context : Nat) : (fuel : Nat) → Step (List Node)
  | 0 => throw (.problem .textEnd none)
  | fuel + 1 => do
    let t ← peek
    match t.kind with
    | .blockEntry =>
      skip
      let n ← match (← peek).kind with
        | .blockEntry | .blockEnd => pure (Node.empty t.line)
        | _ => node true false fuel
      return n :: (← blockItems context fuel)
    | .blockEnd => skip; return []
    | _ => fail .noDash context t.line
termination_by structural fuel => fuel

/-- Reads the items of a sequence that is not further in than the mapping it belongs to. -/
def flatItems : (fuel : Nat) → Step (List Node)
  | 0 => throw (.problem .textEnd none)
  | fuel + 1 => do
    let t ← peek
    match t.kind with
    | .blockEntry =>
      skip
      let next := (← peek).kind
      let n ← if next = .blockEntry || endsBlockPart next then pure (Node.empty t.line)
        else node true false fuel
      return n :: (← flatItems fuel)
    | _ => return []
termination_by structural fuel => fuel

/-- Reads the entries of a block mapping, through its end. -/
def blockEntries (context : Nat) : (fuel : Nat) → Step (List (Node × Node))
  | 0 => throw (.problem .textEnd none)
  | fuel + 1 => do
    let t ← peek
    match t.kind with
    | .key =>
      skip
      let k ← if endsBlockPart (← peek).kind then pure (Node.empty t.line)
        else node true true fuel
      let colon ← peek
      let v ←
        if colon.kind = .value then do
          skip
          if endsBlockPart (← peek).kind then pure (Node.empty colon.line)
          else node true true fuel
        else pure (Node.empty colon.line)
      return (k, v) :: (← blockEntries context fuel)
    | .blockEnd => skip; return []
    | _ => fail .noKey context t.line
termination_by structural fuel => fuel

/-- Reads the items of a sequence in brackets, through its end. -/
def flowItems (context : Nat) (first : Bool) : (fuel : Nat) → Step (List Node)
  | 0 => throw (.problem .textEnd none)
  | fuel + 1 => do
    let t ← peek
    if t.kind = .flowSequenceEnd then
      skip
      return []
    if !first then
      if t.kind = .flowEntry then skip else fail .noSequenceEnd context t.line
    let t ← peek
    match t.kind with
    | .flowSequenceEnd => skip; return []
    | .key =>
      skip
      let pair ← flowPair fuel
      return .mapping t.line [pair] :: (← flowItems context false fuel)
    | _ =>
      let n ← node false false fuel
      return n :: (← flowItems context false fuel)
termination_by structural fuel => fuel

/-- Reads a key and a value that are an item of a sequence in brackets. A token that stands where
the key is left out is skipped. -/
def flowPair : (fuel : Nat) → Step (Node × Node)
  | 0 => throw (.problem .textEnd none)
  | fuel + 1 => do
    let t ← peek
    let k ← match t.kind with
      | .value | .flowEntry | .flowSequenceEnd => do
        skip
        pure (Node.empty t.line)
      | _ => node false false fuel
    let colon ← peek
    if colon.kind = .value then
      skip
      match (← peek).kind with
      | .flowEntry | .flowSequenceEnd => return (k, .empty colon.line)
      | _ => return (k, ← node false false fuel)
    else return (k, .empty colon.line)
termination_by structural fuel => fuel

/-- Reads the entries of a mapping in brackets, through its end. -/
def flowEntries (context : Nat) (first : Bool) : (fuel : Nat) → Step (List (Node × Node))
  | 0 => throw (.problem .textEnd none)
  | fuel + 1 => do
    let t ← peek
    if t.kind = .flowMappingEnd then
      skip
      return []
    if !first then
      if t.kind = .flowEntry then skip else fail .noMappingEnd context t.line
    let t ← peek
    match t.kind with
    | .flowMappingEnd => skip; return []
    | .key =>
      skip
      let t ← peek
      let k ← match t.kind with
        | .value | .flowEntry | .flowMappingEnd => pure (Node.empty t.line)
        | _ => node false false fuel
      let v ← flowValue fuel
      return (k, v) :: (← flowEntries context false fuel)
    | _ =>
      let k ← node false false fuel
      let v := Node.empty (← peek).line
      return (k, v) :: (← flowEntries context false fuel)
termination_by structural fuel => fuel

/-- Reads the value of an entry of a mapping in brackets. -/
def flowValue : (fuel : Nat) → Step Node
  | 0 => throw (.problem .textEnd none)
  | fuel + 1 => do
    let colon ← peek
    if colon.kind = .value then
      skip
      let t ← peek
      match t.kind with
      | .flowEntry | .flowMappingEnd => return .empty t.line
      | _ => node false false fuel
    else return .empty colon.line
termination_by structural fuel => fuel

end

/-- The handles that are always there. -/
def standardHandles : List (String × String) :=
  [("!", "!"), ("!!", "tag:yaml.org,2002:")]

/-- Reads the directives before a document; `versioned` says that the version was told. -/
def directives (versioned : Bool) : (fuel : Nat) → Step Unit
  | 0 => throw (.problem .textEnd none)
  | fuel + 1 => do
    let t ← peek
    match t.kind with
    | .version major minor =>
      if versioned then fail .versionTwice 0 t.line
      if major ≠ 1 ∨ minor ≠ 1 then fail .versionOther 0 t.line
      skip
      directives true fuel
    | .tagHandle handle stem =>
      if ((← get).handles.lookup handle).isSome then fail .handleTwice 0 t.line
      modify fun r => { r with handles := r.handles ++ [(handle, stem)] }
      skip
      directives versioned fuel
    | _ => modify fun r => { r with handles := r.handles ++ standardHandles }

/-- Reads a document that does not start with a mark. -/
def bareDocument (fuel : Nat) : Step Node := do
  modify fun r => { r with handles := standardHandles }
  node true false fuel

/-- Reads a document that starts with a mark, and perhaps with directives before it. -/
def markedDocument (fuel : Nat) : Step Node := do
  directives false fuel
  let t ← peek
  if t.kind ≠ .documentStart then fail .noDocumentStart 0 t.line
  skip
  let t ← peek
  match t.kind with
  | .version .. | .tagHandle .. | .documentStart | .documentEnd | .streamEnd =>
    return .empty t.line
  | _ => node true false fuel

/-- Reads the first document, if there is one. -/
def document (fuel : Nat) : Step (Option Node) := do
  let n ← match (← peek).kind with
    | .streamEnd => return none
    | .version .. | .tagHandle .. | .documentStart => markedDocument fuel
    | _ => bareDocument fuel
  let _ ← peek
  return some n

end Step

/-- The first document of a text, if there is one. -/
def read (text : String) : Except Fault (Option Document) := do
  let (ts, fault) := tokens text.toList
  let (root?, r) ← (Step.document (2 * ts.length + 4)).run { tokens := ts, fault := fault }
  return root?.map fun n => ⟨n, r.anchored, r.references⟩

end TriangleTam.Yaml

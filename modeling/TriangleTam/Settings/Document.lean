import TriangleTam.Settings
import TriangleTam.Text.Glyph
import TriangleTam.Yaml.Node
import TriangleTam.Yaml.Tag

/-!
# Settings in documents

Settings are read from a document that is a mapping. Each of its keys is a setting and occurs once;
what the document does not mention keeps its value. All values of the wrong type are reported, and
whatever else is wrong ends the reading. So does an alias that is met while what it stands for is
taken over, and a document most of which is read through aliases.
-/

namespace TriangleTam.Settings

/-- What a value is read into. -/
inductive Target where
  | int
  | bool
  | name
  | settings

/-- How a target is called. -/
def Target.label : Target → String
  | int => "int"
  | bool => "bool"
  | name => "string"
  | settings => "config.Config"

/-- A part of a document that is not what it should be. Lines count from zero. -/
inductive Mistake where
  | wrongType (line : Nat) (tag text : String) (target : Target)
  | unknownField (line : Nat) (name : String)
  | repeatedField (line : Nat) (name : String)

namespace Mistake

/-- The start of a text that is too long to be shown: seven bytes of it. -/
def shorten (text : String) : String :=
  if 10 < text.utf8ByteSize then
    Text.Glyph.spell (Text.Glyph.decode (text.toUTF8.toList.take 7)) ++ "..."
  else text

/-- What is said about a mistake. Behind the tag of a sequence or mapping the text is not set off. -/
def message : Mistake → String
  | wrongType line tag text target =>
    let shown :=
      if tag = Yaml.Tag.standard "seq" ∨ tag = Yaml.Tag.standard "map" then text
      else " \x60" ++ shorten text ++ "\x60"
    "line " ++ toString (line + 1) ++ ": cannot unmarshal " ++ Yaml.Tag.short tag ++ shown ++ " into "
      ++ target.label
  | unknownField line name =>
    "line " ++ toString (line + 1) ++ ": field " ++ name ++ " not found in type "
      ++ Target.settings.label
  | repeatedField line name =>
    "line " ++ toString (line + 1) ++ ": field " ++ name ++ " already set in type "
      ++ Target.settings.label

end Mistake

/-- Why no settings can be read from a text. -/
inductive DocumentError where
  | fault (f : Yaml.Fault)
  | tag (e : Yaml.TagError)
  | mergeNoMapping
  | selfContained (anchor : String)
  | excessive
  | mistakes (ms : List Mistake)

/-- What is said about a text that holds no settings. -/
def DocumentError.message : DocumentError → String
  | fault f => "yaml: " ++ f.message
  | tag e => "yaml: " ++ e.message
  | mergeNoMapping => "yaml: map merge requires map or sequence of maps as the value"
  | selfContained anchor => "yaml: anchor '" ++ anchor ++ "' value contains itself"
  | excessive => "yaml: document contains excessive aliasing"
  | mistakes ms => "yaml: unmarshal errors:\n  " ++ "\n  ".intercalate (ms.map (·.message))

/-- The settings read so far, and what was met on the way. -/
structure Progress where
  settings : Settings
  /-- The mistakes found, last one first. -/
  mistakes : List Mistake := []
  /-- How many nodes were read. -/
  nodes : Nat := 0
  /-- How many of them were read through an alias. -/
  aliased : Nat := 0

/-- Whether too many of `nodes` nodes were read through aliases: up to 400000 nodes 99 of a hundred
may be, from 4000000 nodes on ten of a hundred, and in between the share goes down evenly. A few are
never too many. -/
def isExcessive (nodes aliased : Nat) : Bool :=
  let low := 400000
  let high := 4000000
  let beyond := min (nodes - low) (high - low)
  decide (100 < aliased) && decide (1000 < nodes)
    && decide (nodes * (99 * (high - low) - 89 * beyond) < 100 * aliased * (high - low))

namespace Progress

/-- Notes a mistake. -/
def mistake (p : Progress) (m : Mistake) : Progress :=
  { p with mistakes := m :: p.mistakes }

/-- Notes that a sequence or mapping stands where something else should. -/
def wrong (p : Progress) (line : Nat) (found : String) (target : Target) : Progress :=
  p.mistake (.wrongType line (Yaml.Tag.standard found) "" target)

/-- Counts a node. -/
def visit (p : Progress) (aliased : Bool) : Except DocumentError Progress :=
  let p := { p with nodes := p.nodes + 1, aliased := p.aliased + aliased.toNat }
  if isExcessive p.nodes p.aliased then .error .excessive else .ok p

/-- Counts a node that is read for itself, and the one it stands for if it is an alias; gives that
one. -/
def reach (d : Yaml.Document) (p : Progress) (aliased : Bool) (n : Yaml.Node) :
    Except DocumentError (Yaml.Node × Progress) := do
  let p ← p.visit aliased
  match n with
  | .reference line _ _ target =>
    let p ← p.visit true
    return ((d.node? target).getD (.empty line), p)
  | n => return (n, p)

end Progress

/-- Settings without any value. -/
def blank : Settings := ⟨false, 0, false, 0⟩

/-- The whole number a scalar is read as. A fraction is cut off, and a number below all others of 64
bits, or just above them, becomes the least of them. -/
def wholeNumber? : Yaml.Scalar → Option Int
  | .int n => if n ≤ Text.maxInt64 then some n else none
  | .float (.whole n) =>
    if Text.maxInt64 + 1 < n then none
    else if n < Text.minInt64 ∨ Text.maxInt64 < n then some Text.minInt64
    else some n
  | .float (.infinite true) => some Text.minInt64
  | _ => none

/-- The meaning of a scalar. -/
def meaning (tag : String) (implicit : Bool) (text : String) :
    Except DocumentError (String × Yaml.Scalar) :=
  (Yaml.resolve tag implicit text).mapError .tag

/-- Reads a scalar with `value?`; nothing at all becomes `zero`. -/
def readScalar {α : Type} (want : Target) (value? : Yaml.Scalar → Option α) (zero : α)
    (set : Settings → α → Settings) (p : Progress) (line : Nat) (tag : String) (implicit : Bool)
    (text : String) : Except DocumentError Progress := do
  let (found, s) ← meaning tag implicit text
  match s, value? s with
  | .null, _ => return { p with settings := set p.settings zero }
  | _, some a => return { p with settings := set p.settings a }
  | _, none => return p.mistake (.wrongType line (if tag = "" then found else tag) text want)

/-- Reads a node that has no parts. -/
def readValue {α : Type} (want : Target) (value? : Yaml.Scalar → Option α) (zero : α)
    (set : Settings → α → Settings) (p : Progress) : Yaml.Node → Except DocumentError Progress
  | .scalar line tag implicit text => readScalar want value? zero set p line tag implicit text
  | .sequence line _ => .ok (p.wrong line "seq" want)
  | .mapping line _ => .ok (p.wrong line "map" want)
  | .reference .. => .ok p

/-- Reads a whole number. -/
def readInt (set : Settings → Int → Settings) (p : Progress) (n : Yaml.Node) :
    Except DocumentError Progress :=
  readValue .int wholeNumber? 0 set p n

/-- Reads a truth value. -/
def readBool (set : Settings → Bool → Settings) (p : Progress) (n : Yaml.Node) :
    Except DocumentError Progress :=
  readValue .bool (fun | .bool b => some b | _ => none) false set p n

/-- How the setting with a name is read. -/
def field? (name : String) : Option (Progress → Yaml.Node → Except DocumentError Progress) :=
  match name with
  | "lenient" => some (readBool fun s b => { s with lenient := b })
  | "maxErrors" => some (readInt fun s n => { s with maxErrors := n })
  | "listing" => some (readBool fun s b => { s with listing := b })
  | "verbose" => some (readInt fun s n => { s with verbose := n })
  | _ => none

/-- The name a key stands for. -/
def keyName (p : Progress) : Yaml.Node → Except DocumentError (Option String × Progress)
  | .scalar _ tag implicit text => do
    match (← meaning tag implicit text).2 with
    | .null => return (some "", p)
    | .binary bytes => return (some (Text.Glyph.spell (Text.Glyph.decode bytes)), p)
    | _ => return (some text, p)
  | .sequence line _ => .ok (none, p.wrong line "seq" .name)
  | .mapping line _ => .ok (none, p.wrong line "map" .name)
  | .reference .. => .ok (none, p)

/-- Whether a key says that other mappings are taken over. -/
def isMerge : Yaml.Node → Bool
  | .scalar _ tag implicit text => text == "<<" && (implicit || tag == Yaml.Tag.standard "merge")
  | _ => false

/-- Reads an entry of a mapping that takes nothing over; `done` are the settings that were named
before. -/
def readEntry (d : Yaml.Document) (aliased : Bool) (done : List String) (p : Progress)
    (key value : Yaml.Node) : Except DocumentError (List String × Progress) := do
  let (k, p) ← p.reach d aliased key
  match ← keyName p k with
  | (none, p) => return (done, p)
  | (some name, p) =>
    match field? name with
    | none => return (done, p.mistake (.unknownField key.line name))
    | some read =>
      if done.contains name then return (done, p.mistake (.repeatedField key.line name))
      else
        let (v, p) ← p.reach d aliased value
        return (name :: done, ← read p v)

/-- Without one of its members a list is shorter. -/
theorem length_erase_lt {numbers : List Nat} {n : Nat} (h : n ∈ numbers) :
    (numbers.erase n).length < numbers.length := by
  have := List.length_erase_of_mem h
  have := List.length_pos_of_mem h
  omega

mutual

/-- Reads the entries of a mapping. Only the aliases in `free` can be followed. -/
def readEntries (d : Yaml.Document) (free : List Nat) (aliased : Bool) (done : List String)
    (p : Progress) : List (Yaml.Node × Yaml.Node) → Except DocumentError Progress
  | [] => .ok p
  | (k, v) :: rest => do
    if isMerge k then
      let p ← readMerge d free aliased p v
      readEntries d free aliased done p rest
    else
      let (done, p) ← readEntry d aliased done p k v
      readEntries d free aliased done p rest
termination_by entries => (free.length, sizeOf entries, 0)

/-- Takes over a mapping, or several of them. -/
def readMerge (d : Yaml.Document) (free : List Nat) (aliased : Bool) (p : Progress) :
    Yaml.Node → Except DocumentError Progress
  | .sequence _ items => readMerges d free aliased p items
  | n => readMapping d free aliased p n
termination_by n => (free.length, sizeOf n, 1)

/-- Takes over mappings, the last one first. -/
def readMerges (d : Yaml.Document) (free : List Nat) (aliased : Bool) (p : Progress) :
    List Yaml.Node → Except DocumentError Progress
  | [] => .ok p
  | n :: rest => do
    let p ← readMerges d free aliased p rest
    readMapping d free aliased p n
termination_by items => (free.length, sizeOf items, 0)

/-- Takes over a mapping. An alias is not followed once more inside what it stands for. -/
def readMapping (d : Yaml.Document) (free : List Nat) (aliased : Bool) (p : Progress) :
    Yaml.Node → Except DocumentError Progress
  | .mapping _ entries => do
    let p ← p.visit aliased
    readEntries d free aliased [] p entries
  | .reference _ name number target =>
    match d.node? target with
    | some (.mapping _ entries) => do
      let p ← p.visit aliased
      if h : number ∈ free then
        have : (free.erase number).length < free.length := length_erase_lt h
        let p ← p.visit true
        readEntries d (free.erase number) true [] p entries
      else throw (.selfContained name)
    | _ => .error .mergeNoMapping
  | _ => .error .mergeNoMapping
termination_by n => (free.length, sizeOf n, 0)

end

/-- Reads settings. Nothing at all leaves no setting its value. -/
def readRoot (d : Yaml.Document) (p : Progress) : Except DocumentError Progress := do
  let (n, p) ← p.reach d false d.root
  match n with
  | .mapping _ entries => readEntries d d.references false [] p entries
  | n => readValue .settings (fun _ => none) () (fun _ _ => blank) p n

/-- The settings in a text, where those it does not mention are as in `start`. -/
def ofText (start : Settings) (text : String) : Except DocumentError Settings := do
  match ← (Yaml.read text).mapError .fault with
  | none => return start
  | some d =>
    let p ← Progress.visit { settings := start } false
    let p ← readRoot d p
    if p.mistakes.isEmpty then return p.settings else throw (.mistakes p.mistakes.reverse)

end TriangleTam.Settings

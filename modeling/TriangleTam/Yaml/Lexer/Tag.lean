import TriangleTam.Text.Glyph
import TriangleTam.Yaml.Cursor
import TriangleTam.Yaml.Fault
import TriangleTam.Yaml.Scalar
import TriangleTam.Yaml.Token

/-!
# Names, tags and directives

Anchors and aliases have names; tags have a handle and a suffix, which may hold escaped octets; a
directive says which version of the format a document has, or what a handle stands for.
-/

namespace TriangleTam.Yaml

/-- Whether a character can stand in a name. -/
def isNameChar (c : Char) : Bool :=
  c.isAlphanum || c == '_' || c == '-'

/-- Whether a character can stand in a tag. -/
def isTagChar (c : Char) : Bool :=
  isNameChar c || [';', '/', '?', ':', '@', '&', '=', '+', '$', ',', '.', '%', '!', '~', '*', '\'',
    '(', ')', '[', ']'].contains c

/-- The name at the front, and the place behind it. -/
def takeName (c : Cursor) : List Char × Cursor :=
  let name := c.takeWhile isNameChar
  (name, c.skip name.length)

/-- Reads the name of an anchor or alias after its mark. -/
def anchorName (c : Cursor) : Except Fault (String × Cursor) :=
  let (name, c) := takeName c
  let ended := endsWord c.text
    || c.char?.any (['?', ':', ',', ']', '\x7d', '%', '@', '\x60'].contains ·)
  if name.isEmpty || !ended then .error (.lexical .anchorName c.mark.line)
  else .ok (String.ofList name, c)

/-- The octet escaped at the front, and what is behind it. -/
def octet? (c : Cursor) : Option (Nat × Cursor) :=
  match c.text with
  | .char '%' :: .char a :: .char b :: _ => do
    let hi ← Text.digit? 16 a
    let lo ← Text.digit? 16 b
    return (hi * 16 + lo, c.skip 3)
  | _ => none

/-- Reads `n` octets that go on with a character. -/
def trailingOctets : Nat → Cursor → Except Fault (List UInt8 × Cursor)
  | 0, c => .ok ([], c)
  | n + 1, c =>
    match octet? c with
    | none => .error (.lexical .octetMissing c.mark.line)
    | some (o, c') =>
      if o / 64 = 2 then do
        let (os, c') ← trailingOctets n c'
        return (UInt8.ofNat o :: os, c')
      else .error (.lexical .octetTrailing c.mark.line)

/-- Reads a character that is written as escaped octets. The first of them says how many there are;
if they are the encoding of no character, each of them is an undecodable one. -/
def escapedChar (c : Cursor) : Except Fault (List Char × Cursor) := do
  match octet? c with
  | none => throw (.lexical .octetMissing c.mark.line)
  | some (o, c') =>
    let (os, c') ←
      if o < 0x80 then pure ([], c')
      else if o / 32 = 6 then trailingOctets 1 c'
      else if o / 16 = 14 then trailingOctets 2 c'
      else if o / 8 = 30 then trailingOctets 3 c'
      else throw (.lexical .octetLeading c.mark.line)
    return ((Text.Glyph.decode (UInt8.ofNat o :: os)).map Text.Glyph.toChar, c')

/-- Reads the characters of a tag; `fuel` bounds their number. -/
def tagChars : (fuel : Nat) → Cursor → Except Fault (List Char × Cursor)
  | 0, c => .ok ([], c)
  | fuel + 1, c =>
    match c.char? with
    | some d =>
      if d = '%' then do
        let (e, c) ← escapedChar c
        let (es, c) ← tagChars fuel c
        return (e ++ es, c)
      else if isTagChar d then do
        let (es, c) ← tagChars fuel c.next
        return (d :: es, c)
      else .ok ([], c)
    | none => .ok ([], c)

/-- Reads the rest of a tag of which `head` was read before. -/
def tagRest (head : List Char) (c : Cursor) : Except Fault (String × Cursor) := do
  let (cs, c') ← tagChars c.text.length c
  if head.isEmpty && cs.isEmpty then throw (.lexical .tagEmpty c'.mark.line)
  else return (String.ofList (head.drop 1 ++ cs), c')

/-- Reads a mark, a name, and a second mark if there is one. -/
def tagHandle (c : Cursor) : Except Fault (List Char × Cursor) :=
  if c.char? = some '!' then
    let (name, c) := takeName c.next
    if c.char? = some '!' then .ok ('!' :: name ++ ['!'], c.next) else .ok ('!' :: name, c)
  else .error (.lexical .tagMark c.mark.line)

/-- Reads a tag: its handle and its suffix. -/
def tag (c : Cursor) : Except Fault (Kind × Cursor) := do
  let (kind, c) ←
    if c.next.char? = some '<' then do
      let (suffix, c) ← tagRest [] (c.skip 2)
      if c.char? = some '>' then pure (Kind.tag "" suffix, c.next)
      else throw (.lexical .tagClose c.mark.line)
    else do
      let (handle, c) ← tagHandle c
      if 1 < handle.length ∧ handle.getLast? = some '!' then
        let (suffix, c) ← tagRest [] c
        pure (Kind.tag (String.ofList handle) suffix, c)
      else
        let (suffix, c) ← tagRest handle c
        pure (if suffix = "" then Kind.tag "" "!" else Kind.tag "!" suffix, c)
  if endsWord c.text then return (kind, c)
  else throw (.lexical .tagEnd c.mark.line)

/-- Reads a number of a version. -/
def versionNumber (c : Cursor) : Except Fault (Nat × Cursor) :=
  let ds := c.takeWhile Char.isDigit
  if ds.isEmpty then .error (.lexical .versionMissing c.mark.line)
  else if 2 < ds.length then .error (.lexical .versionLong c.mark.line)
  else .ok ((Text.digitsValue? 0 ds).getD 0, c.skip ds.length)

/-- Reads what a directive says about the version. -/
def versionDirective (c : Cursor) : Except Fault (Kind × Cursor) := do
  let (major, c) ← versionNumber (c.skipWhile Atom.isBlank)
  if c.char? = some '.' then
    let (minor, c) ← versionNumber c.next
    return (.version major minor, c)
  else throw (.lexical .versionDot c.mark.line)

/-- Reads what a directive says about a handle. -/
def handleDirective (c : Cursor) : Except Fault (Kind × Cursor) := do
  let (handle, c) ← tagHandle (c.skipWhile Atom.isBlank)
  if handle ≠ ['!'] ∧ handle.getLast? ≠ some '!' then throw (.lexical .tagMark c.mark.line)
  if !(c.text.head?.any Atom.isBlank) then throw (.lexical .tagBlank c.mark.line)
  let (stem, c) ← tagRest [] (c.skipWhile Atom.isBlank)
  if endsWord c.text then return (.tagHandle (String.ofList handle) stem, c)
  else throw (.lexical .tagEnd c.mark.line)

/-- Reads a directive after its mark, through the end of its line. -/
def directive (c : Cursor) : Except Fault (Kind × Cursor) := do
  let (name, c) := takeName c
  if name.isEmpty then throw (.lexical .directiveMissing c.mark.line)
  if !endsWord c.text then throw (.lexical .directiveChar c.mark.line)
  let (kind, c) ←
    match String.ofList name with
    | "YAML" => versionDirective c
    | "TAG" => handleDirective c
    | _ => throw (.lexical .directiveUnknown c.mark.line)
  let c := c.skipComment
  if endsLine c.text then return (kind, c.next)
  else throw (.lexical .lineEnd c.mark.line)

end TriangleTam.Yaml

import TriangleTam.Check.Expr

/-!
# Checking declarations

Declarations are checked one after the other. Each gets its storage and is bound in the frame that
is being filled; the value of a constant is checked before its name is bound.
-/

namespace TriangleTam.Check

open Checked (report reach)

/-- The declarations of one `let`, as far as they are checked. -/
structure Block where
  /-- The frame that is being filled. -/
  frame : Frame Meaning
  /-- The number of words in use. -/
  offset : Nat

/-- What stays the same while the declarations of one `let` are checked. -/
structure Site where
  outer : Chain Meaning
  distance : Int
  /-- The number of `let`s around, this one included. -/
  level : Nat

/-- What names mean behind the declarations checked so far. -/
def Site.env (site : Site) (block : Block) : Env :=
  ⟨block.frame :: site.outer, site.distance⟩

/-- Binds a name to an entity and notes that on the name. A name that is taken keeps its meaning,
and a missing name is not bound. -/
def declare (block : Block) (id : Ident) (e : Entity) : Checked (Ident × Block) :=
  if id.name = "" then pure (id, block)
  else
    match block.frame.insert id.name (some (.entity e)) with
    | (some existing, _) => do
      report id.pos (.duplicate id.name existing.namePos)
      return (id, block)
    | (none, frame) =>
      pure ({ id with meaning := some (.entity e) }, { block with frame := frame })

/-- Gives storage of `size` words to an entity. -/
def allocate (site : Site) (block : Block) (kind : Storage.Kind) (size : Nat) :
    Checked (Storage × Block) := do
  let offset := block.offset + size
  reach offset
  return ({ kind := kind, level := site.level, offset := block.offset, size := size },
    { block with offset := offset })

/-- The value of a checked expression that is known while compiling: a literal, or the name of a
constant with a known value. -/
def knownValue? : Expr → Option Int
  | .int _ _ lit => lit.intValue?
  | .char _ _ lit => some (lit.charValue?.getD 0)
  | .name _ _ id =>
    match id.meaning with
    | some m =>
      if m.isConstant then
        (m.storage?.filter (·.kind == .knownValue)).map (·.value)
      else none
    | none => none
  | _ => none

/-- The type a name stands for. -/
def typeNamed (env : Env) (id : Ident) : Checked (Ident × Ty) := do
  let (id, m) ← env.resolve id
  match m with
  | none => return (id, .any)
  | some (.builtin (.type t)) => return (id, t)
  | some m =>
    report id.pos (.notType id.name (sortOf m))
    return (id, .any)

/-- Gives storage to a constant: none in memory if its value is known. -/
def constStorage (site : Site) (block : Block) (value : Expr) (t : Ty) :
    Checked (Storage × Block) :=
  match knownValue? value with
  | some v =>
    pure ({ kind := .knownValue, level := site.level, size := t.size, value := v }, block)
  | none => allocate site block .unknownValue t.size

mutual

/-- Checks a declaration. -/
def decl (site : Site) (block : Block) : Decl → Checked (Decl × Block)
  | .const pos _ _ name x => do
    let (x, t) ← value (site.env block) x
    let (storage, block) ← constStorage site block x t
    let (id, block) ← declare block name
      ⟨.const, name.name, pos, name.pos, some t, some storage⟩
    return (.const pos (some t) (some storage) id x, block)
  | .var pos _ _ name typeName => do
    let (typeName, t) ← typeNamed (site.env block) typeName
    let (storage, block) ← allocate site block .knownAddress t.size
    let (id, block) ← declare block name ⟨.var, name.name, pos, name.pos, some t, some storage⟩
    return (.var pos (some t) (some storage) id typeName, block)
  | .seq pos ds => do
    let (ds, block) ← decls site block ds
    return (.seq pos ds, block)
  | .bad pos => pure (.bad pos, block)
  | .builtin b => do
    report Pos.none (.misplacedDecl b.nodeName)
    return (.builtin b, block)

/-- Checks declarations one after the other. -/
def decls (site : Site) (block : Block) : List Decl → Checked (List Decl × Block)
  | [] => pure ([], block)
  | d :: ds => do
    let (d, block) ← decl site block d
    let (ds, block) ← decls site block ds
    return (d :: ds, block)

end

end TriangleTam.Check

/-!
# Primitive routines of the abstract machine

Arithmetic, comparison and input and output are routines that the machine provides. A routine is
called at its displacement from the base of the primitives.
-/

namespace TriangleTam.Machine

/-- A primitive routine, in the order of their displacements. `none` takes the place before the
first one. -/
inductive Primitive where
  | none | id | not | and | or | succ | pred | neg | add | sub | mult | div | mod
  | lt | le | ge | gt | eq | ne | eol | eof | get | put | geteol | puteol | getint | putint
  | new | dispose
deriving DecidableEq, Repr

namespace Primitive

/-- Every routine, at the index of its displacement. -/
def all : List Primitive :=
  [none, id, not, and, or, succ, pred, neg, add, sub, mult, div, mod, lt, le, ge, gt, eq, ne,
    eol, eof, get, put, geteol, puteol, getint, putint, new, dispose]

/-- The offset of the routine from the base of the primitives. -/
def displacement : Primitive → Nat
  | none => 0 | id => 1 | not => 2 | and => 3 | or => 4 | succ => 5 | pred => 6 | neg => 7
  | add => 8 | sub => 9 | mult => 10 | div => 11 | mod => 12 | lt => 13 | le => 14 | ge => 15
  | gt => 16 | eq => 17 | ne => 18 | eol => 19 | eof => 20 | get => 21 | put => 22
  | geteol => 23 | puteol => 24 | getint => 25 | putint => 26 | new => 27 | dispose => 28

/-- How the routine is called in listings. -/
def name : Primitive → String
  | none => "none" | id => "id" | not => "not" | and => "and" | or => "or" | succ => "succ"
  | pred => "pred" | neg => "neg" | add => "add" | sub => "sub" | mult => "mult" | div => "div"
  | mod => "mod" | lt => "lt" | le => "le" | ge => "ge" | gt => "gt" | eq => "eq" | ne => "ne"
  | eol => "eol" | eof => "eof" | get => "get" | put => "put" | geteol => "geteol"
  | puteol => "puteol" | getint => "getint" | putint => "putint" | new => "new"
  | dispose => "dispose"

/-- The routine with a given displacement; `none` counts as one here. -/
def ofCode? (code : Int) : Option Primitive :=
  if code < 0 then Option.none else all[code.toNat]?

/-- The routine that can be called at a displacement. -/
def at? (d : Int) : Option Primitive :=
  if d ≤ 0 then Option.none else all[d.toNat]?

/-- The name of the routine with a given displacement, or of none. -/
def nameOfCode (code : Int) : String :=
  match ofCode? code with
  | some p => p.name
  | Option.none => "prim?"

/-- Whether the routine takes the size of its operands as one more operand: the tests for equality
compare values of any size. -/
def needsSize : Primitive → Bool
  | eq | ne => true
  | _ => false

theorem all_displacement (p : Primitive) : all[p.displacement]? = some p := by
  cases p <;> rfl

end Primitive

end TriangleTam.Machine

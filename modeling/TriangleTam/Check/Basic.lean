import TriangleTam.Check.Error
import TriangleTam.Check.Suggest
import TriangleTam.Environment
import TriangleTam.Tree

/-!
# Checking: what is collected on the way

Checking goes through the tree once and gives back the tree with its annotations. On the way it
collects what it finds wrong, the frames it opens, and how many words of storage are in use at most.
-/

namespace TriangleTam.Check

/-- What checking a part of a program collects. -/
structure Trace where
  reports : List (Report Error) := []
  /-- The frames opened, each with those inside it. -/
  scopes : List (ScopeTree Meaning) := []
  /-- The largest number of words in use after storage was given to a declaration. -/
  peak : Nat := 0

namespace Trace

/-- What is collected first, then what is collected after it. -/
def append (s t : Trace) : Trace :=
  ⟨s.reports ++ t.reports, s.scopes ++ t.scopes, max s.peak t.peak⟩

end Trace

/-- A result and what was collected on the way to it. -/
structure Checked (α : Type) where
  value : α
  trace : Trace := {}

namespace Checked

variable {α β : Type}

instance : Monad Checked where
  pure a := ⟨a, {}⟩
  bind x f := ⟨(f x.value).value, x.trace.append (f x.value).trace⟩

/-- Finds something wrong. -/
def report (pos : Pos) (e : Error) : Checked Unit :=
  ⟨(), { reports := [⟨pos, e⟩] }⟩

/-- Finds something wrong if `c` holds. -/
def reportIf (c : Bool) (pos : Pos) (e : Error) : Checked Unit :=
  if c then report pos e else pure ()

/-- Notes that `words` words are in use. -/
def reach (words : Nat) : Checked Unit :=
  ⟨(), { peak := words }⟩

/-- Puts the frames that were opened inside `frame`, which was opened at `site`. -/
def within (site : Pos) (frame : Frame Meaning) (x : Checked α) : Checked α :=
  ⟨x.value, { x.trace with scopes := [.node site frame x.trace.scopes] }⟩

@[simp] theorem value_pure (a : α) : (pure a : Checked α).value = a := rfl

@[simp] theorem trace_pure (a : α) : (pure a : Checked α).trace = {} := rfl

@[simp] theorem value_bind (x : Checked α) (f : α → Checked β) :
    (x >>= f).value = (f x.value).value := rfl

@[simp] theorem trace_bind (x : Checked α) (f : α → Checked β) :
    (x >>= f).trace = x.trace.append (f x.value).trace := rfl

end Checked

/-- What names mean at some place of a program. -/
structure Env where
  chain : Chain Meaning
  /-- How far a suggested name may be from an undeclared one. -/
  distance : Int

namespace Env

/-- What a name means here. -/
def lookup? (env : Env) (name : String) : Option Meaning :=
  Chain.lookup? env.chain name

/-- Looks up a name and notes on it what it means. An empty name stands for one that is missing,
which was reported when the text was parsed. -/
def resolve (env : Env) (id : Ident) : Checked (Ident × Option Meaning) :=
  if id.name = "" then pure (id, none)
  else
    match env.lookup? id.name with
    | some m => pure ({ id with meaning := some m }, some m)
    | none => do
      Checked.report id.pos (.undeclared id.name (suggest env.distance env.chain id.name))
      return (id, none)

end Env

/-- The sort of declaration a name has. -/
def sortOf (m : Meaning) : String :=
  m.signature.kind

end TriangleTam.Check

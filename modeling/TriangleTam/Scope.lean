import TriangleTam.Pos

/-!
# Scopes

A frame binds names to declarations. A chain of frames, innermost first, is what a name is looked
up in: inner declarations shadow outer ones. Main statement: `mem_visible_iff`, the names visible
in a chain are those bound in one of its frames.
-/

namespace TriangleTam

/-- The names bound in one scope. A name may be bound to nothing: it is taken, but means
nothing. -/
structure Frame (δ : Type) where
  comment : String
  bindings : List (String × Option δ) := []
deriving Repr

namespace Frame

variable {δ : Type}

/-- The declaration a name is bound to in this frame. -/
def lookup? (f : Frame δ) (name : String) : Option δ :=
  (f.bindings.lookup name).join

/-- Binds a name. A name that is bound to a declaration stays bound to it, and that declaration is
returned. -/
def insert (f : Frame δ) (name : String) (d : Option δ) : Option δ × Frame δ :=
  match f.lookup? name with
  | some existing => (some existing, f)
  | none => (none, { f with bindings := f.bindings.filter (·.1 ≠ name) ++ [(name, d)] })

/-- The names bound in this frame, in alphabetical order. -/
def names (f : Frame δ) : List String :=
  (f.bindings.map (·.1)).mergeSort fun a b => decide (a ≤ b)

/-- The number of names bound in this frame. -/
def size (f : Frame δ) : Nat :=
  f.bindings.length

end Frame

/-- Nested frames, innermost first. -/
abbrev Chain (δ : Type) := List (Frame δ)

namespace Chain

variable {δ : Type}

/-- The innermost declaration of a name, and the chain from the frame it was found in outward. -/
def find? (name : String) : Chain δ → Option (δ × Chain δ)
  | [] => none
  | f :: outer =>
    match f.lookup? name with
    | some d => some (d, f :: outer)
    | none => find? name outer

/-- The innermost declaration of a name. -/
def lookup? (c : Chain δ) (name : String) : Option δ :=
  (find? name c).map (·.1)

/-- The nesting depth of the innermost frame; an outermost frame has depth zero. -/
def level (c : Chain δ) : Nat :=
  c.length - 1

/-- Every name bound in the chain, once, those of inner frames first. -/
def visible : Chain δ → List String
  | [] => []
  | f :: outer => f.names ++ (visible outer).filter (· ∉ f.names)

theorem mem_visible_iff (c : Chain δ) (name : String) :
    name ∈ visible c ↔ ∃ f ∈ c, name ∈ f.names := by
  induction c with
  | nil => simp [visible]
  | cons f outer ih =>
    by_cases h : name ∈ f.names <;> simp [visible, h, ih]

end Chain

/-- A frame with the frames opened inside it, in the order in which they were opened. -/
inductive ScopeTree (δ : Type) where
  | node (site : Pos) (frame : Frame δ) (inner : List (ScopeTree δ))

namespace ScopeTree

variable {δ : Type}

/-- Where the frame was opened. -/
def site : ScopeTree δ → Pos
  | node site _ _ => site

/-- The frame itself. -/
def frame : ScopeTree δ → Frame δ
  | node _ frame _ => frame

/-- The frames opened directly inside. -/
def inner : ScopeTree δ → List (ScopeTree δ)
  | node _ _ inner => inner

/-- Two blanks for every level of nesting. -/
def margin (depth : Nat) : String :=
  String.join (List.replicate depth "  ")

/-- The line that shows a name and what it is bound to. -/
def bindingLine (describe : Option δ → String) (depth : Nat) (f : Frame δ) (name : String) :
    String :=
  margin depth ++ "  " ++ name ++ ": " ++ describe (f.lookup? name) ++ "\n"

mutual

/-- The scope and all scopes inside it, one name to a line. -/
def render (describe : Option δ → String) (depth : Nat) : ScopeTree δ → String
  | node _ frame inner =>
    margin depth ++ "scope " ++ frame.comment ++ " \x7b\n"
      ++ String.join (frame.names.map (bindingLine describe depth frame))
      ++ renderAll describe (depth + 1) inner
      ++ margin depth ++ "\x7d\n"

/-- Scopes one after the other. -/
def renderAll (describe : Option δ → String) (depth : Nat) : List (ScopeTree δ) → String
  | [] => ""
  | t :: ts => render describe depth t ++ renderAll describe depth ts

end

mutual

/-- Whether `p` holds for all declarations in the scope and in all scopes inside it. -/
def all (p : δ → Bool) : ScopeTree δ → Bool
  | node _ frame inner => frame.bindings.all (fun b => b.2.all p) && allInner p inner

/-- Whether `p` holds for all declarations in several scopes. -/
def allInner (p : δ → Bool) : List (ScopeTree δ) → Bool
  | [] => true
  | t :: ts => t.all p && allInner p ts

end

mutual

/-- The scope and all scopes inside it, each with the chain from it outward. -/
def chains (outer : Chain δ) : ScopeTree δ → List (ScopeTree δ × Chain δ)
  | node site frame inner =>
    (node site frame inner, frame :: outer) :: chainsAll (frame :: outer) inner

/-- The chains of scopes one after the other. -/
def chainsAll (outer : Chain δ) : List (ScopeTree δ) → List (ScopeTree δ × Chain δ)
  | [] => []
  | t :: ts => chains outer t ++ chainsAll outer ts

end

end ScopeTree

end TriangleTam

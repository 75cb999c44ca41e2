import TriangleTam.Scope

/-!
# Symbol tables

A symbol table holds frames that are numbered in the order in which they were made. Each frame has
at most one parent, which was there before it: another numbered frame, or the standard environment,
which nothing can be added to. A frame knows its level and lists the frames that were made inside
it, unless it is frozen.
-/

namespace TriangleTam

/-- A frame of a symbol table. -/
inductive FrameId where
  /-- The standard environment. -/
  | standard
  /-- A frame that was made, by its number. -/
  | made (n : Nat)
deriving DecidableEq, Repr

/-- The number of frames that were there before this one. -/
def FrameId.rank : FrameId → Nat
  | standard => 0
  | made n => n + 1

/-- A frame as a symbol table keeps it. -/
structure FrameEntry (δ : Type) where
  frame : Frame δ
  parent : Option FrameId := none
  /-- The nesting depth. A frame without a parent has level zero. -/
  level : Nat := 0
  /-- The frames made inside this one, in the order in which they were made. -/
  children : List FrameId := []
  /-- A frozen frame takes up neither names nor frames. -/
  frozen : Bool := false
deriving Repr

/-- Lists a new frame among the children. -/
def FrameEntry.adopt {δ : Type} (e : FrameEntry δ) (child : FrameId) : FrameEntry δ :=
  if e.frozen then e else { e with children := e.children ++ [child] }

/-- The standard environment and the frames made so far. -/
structure SymbolTable (δ : Type) where
  standard : FrameEntry δ
  entries : List (FrameEntry δ) := []

/-- The reason why a name cannot be bound. -/
structure Frozen where
  comment : String
deriving DecidableEq, Repr

/-- What is said about an attempt to bind a name in a frame that cannot change. -/
def Frozen.message (f : Frozen) : String :=
  "types: insert into frozen scope " ++ f.comment

namespace SymbolTable

variable {δ : Type}

/-- The entry of a frame. -/
def record? (t : SymbolTable δ) : FrameId → Option (FrameEntry δ)
  | .standard => some t.standard
  | .made n => t.entries[n]?

/-- Changes the entry of a frame. -/
def modify (t : SymbolTable δ) (id : FrameId) (change : FrameEntry δ → FrameEntry δ) :
    SymbolTable δ :=
  match id with
  | .standard => { t with standard := change t.standard }
  | .made n => { t with entries := t.entries.modify n change }

/-- The bindings of a frame, and its comment. -/
def frame? (t : SymbolTable δ) (id : FrameId) : Option (Frame δ) :=
  (t.record? id).map (·.frame)

/-- The parent of a frame. -/
def parent? (t : SymbolTable δ) (id : FrameId) : Option FrameId :=
  (t.record? id).bind (·.parent)

/-- The nesting depth of a frame. -/
def level? (t : SymbolTable δ) (id : FrameId) : Option Nat :=
  (t.record? id).map (·.level)

/-- The frames that a frame lists as made inside it. -/
def children (t : SymbolTable δ) (id : FrameId) : List FrameId :=
  ((t.record? id).map (·.children)).getD []

/-- The level of a frame that is made inside `parent`. -/
def levelInside (t : SymbolTable δ) (parent : Option FrameId) : Nat :=
  match parent.bind t.level? with
  | some level => level + 1
  | none => 0

/-- The frame that is made next. -/
def next (t : SymbolTable δ) : FrameId :=
  .made t.entries.length

/-- Makes a frame, which its parent lists from then on. -/
def make (t : SymbolTable δ) (frame : Frame δ) (parent : Option FrameId) :
    FrameId × SymbolTable δ :=
  let new : FrameEntry δ := { frame, parent, level := t.levelInside parent }
  let listed := match parent with
    | some p => t.modify p (·.adopt t.next)
    | none => t
  (t.next, { listed with entries := listed.entries ++ [new] })

/-- Makes the outermost frame of a program: it starts with a copy of the standard environment. -/
def makeRoot (t : SymbolTable δ) : FrameId × SymbolTable δ :=
  t.make ⟨"program", t.standard.frame.bindings⟩ none

/-- The chain from a frame outward. -/
def chain (t : SymbolTable δ) (id : FrameId) : Chain δ :=
  match t.record? id with
  | none => []
  | some e =>
    match e.parent with
    | some p => if p.rank < id.rank then e.frame :: t.chain p else [e.frame]
    | none => [e.frame]
termination_by id.rank

/-- Binds a name in a frame; see `Frame.insert`. -/
def insert (t : SymbolTable δ) (id : FrameId) (name : String) (d : Option δ) :
    Except Frozen (Option δ × SymbolTable δ) :=
  match t.record? id with
  | none => .ok (none, t)
  | some e =>
    if e.frozen then .error ⟨e.frame.comment⟩
    else
      let (existing, frame) := e.frame.insert name d
      .ok (existing, t.modify id ({ · with frame }))

/-- A frame with all frames inside it. -/
def tree (t : SymbolTable δ) (id : FrameId) : Option (ScopeTree δ) :=
  (t.record? id).map fun e =>
    .node Pos.none e.frame (e.children.filterMap fun child =>
      if id.rank < child.rank ∧ child.rank ≤ t.entries.length then t.tree child else none)
termination_by t.entries.length - id.rank

end SymbolTable

end TriangleTam

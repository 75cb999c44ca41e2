import Mathlib.Data.List.Forall2
import Mathlib.Data.Option.NAry
import TriangleTam.Proofs.Check.Plain
import TriangleTam.Proofs.Check.Scoping
import TriangleTam.Proofs.Scope
import TriangleTam.Proofs.ScopeTree
import TriangleTam.Proofs.Tree.Openers

/-!
# Frames mirror the program

The program itself, every block and every `let` open a frame. A frame and the node that opened it
have the same address, where the address of a node counts the nodes that open frames: those next
inside a node are met by a walk that does not enter any of them. `ScopeTree.Mirrors` says that a
tree of frames has the shape of the nodes inside a node, and that each frame binds what its node
declares. Main statements: `Check.cmd_mirrored`, checking a command opens such frames, and
`Program.check_records` on the programs of texts.
-/

namespace TriangleTam

open Check (entities allEntities)

/-- The frame binds every name of the entities to the first of them that has it, and nothing else.
A missing name is not bound. -/
structure Frame.Binds (frame : Frame Meaning) (es : List Entity) : Prop where
  distinct : frame.Distinct
  bound : ∀ name m, (name, m) ∈ frame.bindings ↔
    name ≠ "" ∧ ∃ e, Link.leftmost? es name = some e ∧ m = some (.entity e)

namespace Node

/-- The frame `t` is one that the node opens: that of a program binds the standard environment,
that of a block nothing, and that of a `let` what is declared there. -/
def Opened (t : ScopeTree Meaning) : Node → Prop
  | program _ => t.frame.bindings = Builtin.all.map fun b => (b.name, some (Meaning.builtin b))
  | cmd (.block pos _ _) => t.site = pos ∧ t.frame.bindings = []
  | cmd (.letIn pos d _) => t.site = pos ∧ t.frame.Binds (entities d)
  | _ => False

end Node

/-- The tree has a frame for the node and, in the same order, one for each node inside it that opens
one. -/
inductive ScopeTree.Mirrors : ScopeTree Meaning → Node → Prop where
  | intro {t n} (opened : n.Opened t) (inner : List.Forall₂ Mirrors t.inner n.openers) :
    Mirrors t n

namespace ScopeTree.Mirrors

variable {t : ScopeTree Meaning} {n : Node}

/-- The frame of a node has the address of the node. -/
theorem rel_at? (mirrors : t.Mirrors n) (address : List Nat) :
    Option.Rel Mirrors (t.at? address) (n.at? address) := by
  induction address generalizing t n with
  | nil => exact .some mirrors
  | cons i rest ih =>
    obtain ⟨-, inner⟩ := mirrors
    rw [ScopeTree.at?_cons, Node.at?]
    obtain ⟨length, each⟩ := List.forall₂_iff_get.1 inner
    by_cases inside : i < t.inner.length
    · rw [List.getElem?_eq_getElem inside, List.getElem?_eq_getElem (length ▸ inside)]
      exact ih (each i inside (length ▸ inside))
    · rw [List.getElem?_eq_none (Nat.le_of_not_lt inside),
        List.getElem?_eq_none (length ▸ Nat.le_of_not_lt inside)]
      exact .none

theorem exists_at? (mirrors : t.Mirrors n) {a : List Nat} {m : Node} (found : n.at? a = some m) :
    ∃ u, t.at? a = some u ∧ u.Mirrors m := by
  have same := mirrors.rel_at? a
  rw [found] at same
  generalize t.at? a = u at same
  cases same with
  | some inside => exact ⟨_, rfl, inside⟩

end ScopeTree.Mirrors

mutual

/-- The frames in the order in which they were opened are those of the nodes in the order of the
text. -/
theorem ScopeTree.map_at?_addresses : ∀ (t : ScopeTree Meaning) {n : Node}, t.Mirrors n →
    t.addresses.map n.at? = n.within.map some
  | .node site frame inner, n, mirrors => by
    obtain ⟨-, inside⟩ := mirrors
    have rest := ScopeTree.map_at?_addressesFrom inner n [] rfl inside
    rw [ScopeTree.addresses, List.map_cons, Node.within_eq, List.map_cons]
    exact congrArg _ rest

theorem ScopeTree.map_at?_addressesFrom : ∀ (ts : List (ScopeTree Meaning)) (n : Node)
    (before : List Node) {ns : List Node}, n.openers = before ++ ns → List.Forall₂ Mirrors ts ns →
      (addressesFrom before.length ts).map n.at? = (ns.flatMap Node.within).map some
  | [], n, before, ns, eq, mirrors => by
    cases mirrors
    rfl
  | t :: ts, n, before, ns, eq, mirrors => by
    cases mirrors with
    | @cons _ m _ ns first rest =>
      have inside : n.openers[before.length]? = some m := by simp [eq]
      have here : n.at? ∘ (before.length :: ·) = m.at? := by
        funext a
        simp [Node.at?, inside]
      have later := ScopeTree.map_at?_addressesFrom ts n (before ++ [m]) (by simp [eq]) rest
      rw [List.length_append] at later
      rw [ScopeTree.addressesFrom, List.map_append, List.map_map, here,
        ScopeTree.map_at?_addresses t first, List.flatMap_cons, List.map_append]
      exact congrArg _ later

end

namespace Frame

theorem binds_nil (comment : String) : Binds ⟨comment, []⟩ [] :=
  ⟨.nil, by simp [Link.leftmost?]⟩

variable {frame frame' : Frame Meaning} {es : List Entity} {e : Entity}

theorem Binds.lookup? (binds : frame.Binds es) {name : String} (present : name ≠ "") :
    frame.lookup? name = (Link.leftmost? es name).map .entity := by
  refine Option.ext fun m => ?_
  rw [binds.distinct.lookup?_eq_some_iff, binds.bound, Option.map_eq_some_iff]
  simp only [ne_eq, present, not_false_eq_true, true_and, Option.some.injEq, eq_comm (a := m)]

/-- Another entity changes nothing if its name is missing or taken. -/
theorem Binds.append_taken (binds : frame.Binds es)
    (taken : e.name ≠ "" → ∃ first, Link.leftmost? es e.name = some first) :
    frame.Binds (es ++ [e]) := by
  refine ⟨binds.distinct, fun name m => ?_⟩
  rw [binds.bound, Check.leftmost?_append_one]
  refine and_congr_right fun present => ?_
  split
  · next same =>
    obtain ⟨first, found⟩ := taken (same ▸ present)
    rw [← same, found]
    rfl
  · rw [Option.or_none]

/-- Another entity with a new name is bound to it. -/
theorem Binds.append_bound (binds : frame.Binds es) (present : e.name ≠ "")
    (free : Link.leftmost? es e.name = none)
    (bound : frame.insert e.name (some (.entity e)) = (none, frame')) :
    frame'.Binds (es ++ [e]) := by
  refine ⟨?_, fun name m => ?_⟩
  · have distinct : (frame.insert e.name (some (.entity e))).2.Distinct := binds.distinct.insert
    rwa [bound] at distinct
  · rw [bindings_insert bound, List.mem_append, List.mem_filter, binds.bound,
      Check.leftmost?_append_one]
    by_cases same : e.name = name
    · subst same
      simp [present, free]
    · simp [same, Ne.symm same]

end Frame

namespace Check

/-- A defining identifier. -/
theorem declare_binds (block : Block) {before : List Entity} (id : Ident) {e : Entity}
    (binds : block.frame.Binds before) (named : e.name = id.name) :
    (declare block id e).value.2.frame.Binds (before ++ [e]) := by
  by_cases missing : id.name = ""
  · have eq : declare block id e = pure (id, block) := if_pos missing
    rw [eq]
    exact binds.append_taken fun present => absurd (named.trans missing) present
  · have looked := binds.lookup? missing
    cases found : Link.leftmost? before id.name with
    | some first =>
      rw [found] at looked
      have taken := Frame.insert_eq_of_lookup?_eq_some (d := some (.entity e)) looked
      simpa [declare, missing, taken] using binds.append_taken fun _ => ⟨first, named ▸ found⟩
    | none =>
      rw [found] at looked
      obtain ⟨g, bound⟩ := Frame.insert_eq_of_lookup?_eq_none (d := some (.entity e)) looked
      have filled := binds.append_bound (named ▸ missing) (named ▸ found) (named ▸ bound)
      simpa [declare, missing, bound] using filled

mutual

/-- Declarations fill the frame of their `let` with what they declare. -/
theorem decl_binds (site : Site) : ∀ (d : Decl) (block : Block) {before : List Entity},
    block.frame.Binds before →
      (decl site block d).value.2.frame.Binds (before ++ entities (decl site block d).value.1)
  | .const pos _ _ name x, block, before, binds => by
    let x' := (value (site.env block) x).value
    let s := (constStorage site block x'.1 x'.2).value
    have kept : s.2.frame.Binds before := by
      rw [frame_constStorage]
      exact binds
    simpa [decl, entities, x', s] using declare_binds s.2 name
      (e := ⟨.const, name.name, pos, name.pos, some x'.2, some s.1⟩) kept rfl
  | .var pos _ _ name typeName, block, before, binds => by
    let t := (typeNamed (site.env block) typeName).value.2
    let s := (allocate site block .knownAddress t.size).value
    simpa [decl, entities, t, s] using declare_binds s.2 name
      (e := ⟨.var, name.name, pos, name.pos, some t, some s.1⟩) binds rfl
  | .seq pos ds, block, before, binds => by
    simpa [decl, entities] using decls_bind site ds block binds
  | .bad _, block, before, binds | .builtin _, block, before, binds => by
    simpa [decl, entities] using binds

theorem decls_bind (site : Site) : ∀ (ds : List Decl) (block : Block) {before : List Entity},
    block.frame.Binds before →
      (decls site block ds).value.2.frame.Binds
        (before ++ allEntities (decls site block ds).value.1)
  | [], block, before, binds => by simpa [decls, allEntities] using binds
  | d :: ds, block, before, binds => by
    simpa [decls, allEntities] using decls_bind site ds _ (decl_binds site d block binds)

end

namespace Checked

variable {α β : Type}

/-- The frames opened. -/
def scopes (x : Checked α) : List (ScopeTree Meaning) := x.trace.scopes

@[simp] theorem scopes_pure (a : α) : (pure a : Checked α).scopes = [] := rfl

@[simp] theorem scopes_bind (x : Checked α) (f : α → Checked β) :
    (x >>= f).scopes = x.scopes ++ (f x.value).scopes := rfl

@[simp] theorem scopes_within (site : Pos) (frame : Frame Meaning) (x : Checked α) :
    (within site frame x).scopes = [.node site frame x.scopes] := rfl

@[simp] theorem Plain.scopes {x : Checked α} (plain : x.Plain) : x.scopes = [] := plain.1

end Checked

-- Declarations open no frame.
section Scopes

variable (site : Site) (block : Block)

@[simp] theorem scopes_allocate (kind : Storage.Kind) (size : Nat) :
    (allocate site block kind size).scopes = [] := rfl

@[simp] theorem scopes_constStorage (x : Expr) (t : Ty) :
    (constStorage site block x t).scopes = [] := by
  unfold constStorage
  split <;> rfl

mutual

@[simp] theorem scopes_decl : ∀ (d : Decl) (block : Block), (decl site block d).scopes = []
  | .const .., block | .var .., block | .bad _, block | .builtin _, block => by simp [decl]
  | .seq _ ds, block => by simp [decl, scopes_decls ds]

@[simp] theorem scopes_decls : ∀ (ds : List Decl) (block : Block),
    (decls site block ds).scopes = []
  | [], block => rfl
  | d :: ds, block => by simp [decls, scopes_decl d, scopes_decls ds]

end

end Scopes

mutual

/-- Checking a command opens the frames of its nodes, and no others. -/
theorem cmd_mirrored : ∀ (c : Cmd) (p : Place),
    List.Forall₂ ScopeTree.Mirrors (cmd p c).scopes (cmd p c).value.openers
  | .skip .., p | .bad _, p | .assign .., p | .call .., p => by simp [cmd]
  | .seq _ cs, p => by simpa [cmd] using cmds_mirrored cs p
  | .block pos body close, p => by
    have opened : (cmd p (.block pos body close)).scopes =
        [.node pos blockFrame (cmd p.inBraces body).scopes] := by simp [cmd]
    rw [opened]
    exact .cons ⟨⟨rfl, rfl⟩, cmd_mirrored body p.inBraces⟩ .nil
  | .ifElse _ _ yes no, p => by
    simpa [cmd] using List.rel_append (cmd_mirrored yes p) (cmd_mirrored no p)
  | .ifEither _ _ _ yes no, p => by
    simpa [cmd] using List.rel_append (cmd_mirrored yes p) (cmd_mirrored no p)
  | .whileDo _ _ body, p => by simpa [cmd] using cmd_mirrored body p
  | .letIn pos d body, p => by
    let declared := (decl p.letSite ⟨letFrame, p.offset⟩ d).value
    have binds : declared.2.frame.Binds (entities declared.1) :=
      decl_binds p.letSite d ⟨letFrame, p.offset⟩ (Frame.binds_nil "let")
    have opened : (cmd p (.letIn pos d body)).scopes =
        [.node pos declared.2.frame (cmd (p.letBody declared.2) body).scopes] := by
      simp [cmd, declared]
    rw [opened]
    exact .cons ⟨⟨rfl, binds⟩, cmd_mirrored body (p.letBody declared.2)⟩ .nil

theorem cmds_mirrored : ∀ (cs : List Cmd) (p : Place),
    List.Forall₂ ScopeTree.Mirrors (cmds p cs).scopes ((cmds p cs).value.flatMap Cmd.openers)
  | [], p => .nil
  | c :: cs, p => by
    simpa [cmds] using List.rel_append (cmd_mirrored c p) (cmds_mirrored cs p)

end

/-- Checking a program opens the frames of its nodes, and no others. -/
theorem program_mirrored (distance : Int) (p : Program) :
    (program distance p).scopes.Mirrors (.program (program distance p).program) :=
  ⟨rfl, cmd_mirrored p.body _⟩

end Check

/-- What is recorded about the frames of a program. A frame and the node that opened it have the
same address, so the nodes around a node are those whose addresses start its own; that every frame
has one address, and that the listed chains are those of the addresses, is so in any tree of frames
(`ScopeTree.nodup_addresses`, `ScopeTree.mem_addresses_iff`, `ScopeTree.chains_eq`). -/
structure ScopeTree.Records (scopes : ScopeTree Meaning) (p : Program) : Prop where
  /-- The frames are those of the nodes that open one, and no others. -/
  nodes : scopes.addresses.map (Node.program p).at? = (p.nodes.filter Node.opens).map some
  /-- They are listed in the order of these nodes, each with the chain from it outward. -/
  listed : List.Forall₂
    (fun x n => n.Opened x.1 ∧ ∃ a, (Node.program p).at? a = some n ∧ scopes.at? a = some x.1 ∧
      x.2 = scopes.chainAt [] a)
    (scopes.chains []) (p.nodes.filter Node.opens)
  /-- A frame binds what its node declares, and its level is the number of blocks and `let`s around,
  its own node included. -/
  frame : ∀ a n, (Node.program p).at? a = some n → ∃ t, scopes.at? a = some t ∧ n.Opened t ∧
    Chain.level (scopes.chainAt [] a) = a.length ∧ t.inner.length = n.openers.length
  /-- The next nodes inside a node have the frames inside its frame, in the order of the text, and
  its frame is their parent. -/
  inner : ∀ a n i m, (Node.program p).at? a = some n → n.openers[i]? = some m →
    (Node.program p).at? (a ++ [i]) = some m ∧ ∃ t u, scopes.at? a = some t ∧
      t.inner[i]? = some u ∧ scopes.at? (a ++ [i]) = some u ∧ m.Opened u ∧
        scopes.chainAt [] (a ++ [i]) = u.frame :: scopes.chainAt [] a

theorem forall₂_filterMap {α β γ : Type} {f : α → Option β} {g : α → Option γ} {R : γ → β → Prop}
    {as : List α} {bs : List β} (same : as.map f = bs.map some)
    (each : ∀ a b, f a = some b → ∃ c, g a = some c ∧ R c b) :
    List.Forall₂ R (as.filterMap g) bs := by
  induction as generalizing bs with
  | nil =>
    cases bs with
    | nil => exact .nil
    | cons b bs => cases same
  | cons a as ih =>
    cases bs with
    | nil => cases same
    | cons b bs =>
      obtain ⟨first, rest⟩ := List.cons.inj same
      obtain ⟨c, found, related⟩ := each a b first
      rw [List.filterMap_cons_some found]
      exact .cons related (ih rest)

/-- A tree of frames that mirrors the program records it. -/
theorem ScopeTree.Mirrors.records {t : ScopeTree Meaning} {p : Program}
    (mirrors : t.Mirrors (.program p)) : t.Records p where
  nodes := t.map_at?_addresses mirrors
  listed := by
    rw [t.chains_eq]
    apply forall₂_filterMap (t.map_at?_addresses mirrors)
    intro a n found
    obtain ⟨u, here, opened, -⟩ := mirrors.exists_at? found
    exact ⟨(u, t.chainAt [] a), by simp [here], opened, a, found, here, rfl⟩
  frame a n found := by
    obtain ⟨u, here, opened, inner⟩ := mirrors.exists_at? found
    refine ⟨u, here, opened, ?_, inner.length_eq⟩
    simp [Chain.level, length_chainAt here]
  inner a n i m found next := by
    have there : (Node.program p).at? (a ++ [i]) = some m := by
      rw [Node.at?_append_one, found]
      exact next
    obtain ⟨u, here, -, inner⟩ := mirrors.exists_at? found
    obtain ⟨v, inside, opened, -⟩ := mirrors.exists_at? there
    have child : u.inner[i]? = some v := by
      rwa [at?_append_one, here] at inside
    exact ⟨there, u, v, here, child, inside, opened, chainAt_append_one here child⟩

/-- Recorded frames mirror the program. The tree of any text, whatever is wrong with it, can be
checked, and then there is one frame for each block and each `let` and one for the program itself.
The parent of a frame is that of the nearest node around its node, its level counts the blocks and
`let`s around, and the frames inside it are those of the next nodes inside its node. The frame of a
`let` binds the names declared there, each to its first declaration, that of a block nothing, and
that of the program the standard environment. -/
theorem Program.check_records (file : String) (bytes : List UInt8) (lenient : Bool)
    (limit distance : Int) :
    ∃ r, (Program.ofText file bytes lenient limit).check distance = .ok r ∧
      r.program.bare = Program.ofText file bytes lenient limit ∧
      r.scopes.Records r.program := by
  have bare := Program.bare_ofText file bytes lenient limit
  have literals : (Program.ofText file bytes lenient limit).LiteralsProper :=
    Parser.parse_scan_literalsProper _ lenient limit
  refine ⟨_, Program.check_eq_ok literals distance, ?_, (Check.program_mirrored _ _).records⟩
  rw [Check.bare_program, bare]

end TriangleTam

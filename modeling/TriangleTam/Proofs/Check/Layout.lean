import TriangleTam.Proofs.Check.Annotations
import TriangleTam.Proofs.Check.Declarations
import TriangleTam.Proofs.Check.Plain

/-!
# Where entities are kept

Words are given out in the order of the text: an entity comes behind those of the `let`s around and
behind those declared before it in its own `let`, and constants with known values take no words.
`Stacked` says so for a list of entities that live at the same time. Main statement: `cmd_settled`,
checking a command settles everything that is declared in it in this way, and the number of words in
use at most is the end of the last of them.
-/

namespace TriangleTam

open Check (entities allEntities)

/-- The number of words an entity takes, which is none if its value is known. -/
def Entity.words (e : Entity) : Nat :=
  match e.storage with
  | some s => if s.kind = .knownValue then 0 else s.size
  | none => 0

/-- The number of words several entities take. -/
def words : List Entity → Nat
  | [] => 0
  | e :: es => e.words + words es

@[simp] theorem words_nil : words [] = 0 := rfl

@[simp] theorem words_cons (e : Entity) (es : List Entity) :
    words (e :: es) = e.words + words es := rfl

@[simp] theorem words_append (es fs : List Entity) : words (es ++ fs) = words es + words fs := by
  induction es with
  | nil => simp
  | cons e es ih => rw [List.cons_append, words_cons, words_cons, ih, Nat.add_assoc]

@[simp] theorem words_reverse (es : List Entity) : words es.reverse = words es := by
  induction es with
  | nil => rfl
  | cons e es ih => rw [List.reverse_cons, words_append, ih, words_cons, words_cons, words_nil,
      Nat.add_zero, Nat.add_comm]

/-- The entity has storage, which starts at `n` unless its value is known. -/
def Entity.StartsAt (e : Entity) (n : Nat) : Prop :=
  ∃ s, e.storage = some s ∧ (s.kind ≠ .knownValue → s.offset = n)

/-- The words of two entities do not overlap. -/
def Entity.Apart (e f : Entity) : Prop :=
  ∀ s t, e.storage = some s → f.storage = some t → s.kind ≠ .knownValue → t.kind ≠ .knownValue →
    s.offset + s.size ≤ t.offset ∨ t.offset + t.size ≤ s.offset

/-- The words of the entities follow one another from `n` on. -/
def Stacked (n : Nat) : List Entity → Prop
  | [] => True
  | e :: es => e.StartsAt n ∧ Stacked (n + e.words) es

@[simp] theorem stacked_append {n : Nat} {es fs : List Entity} :
    Stacked n (es ++ fs) ↔ Stacked n es ∧ Stacked (n + words es) fs := by
  induction es generalizing n with
  | nil => simp [Stacked]
  | cons e es ih =>
    rw [List.cons_append, Stacked, ih, Stacked, words_cons, and_assoc, Nat.add_assoc]

theorem Stacked.le_offset {n : Nat} {es : List Entity} (stacked : Stacked n es) {e : Entity}
    (member : e ∈ es) {s : Storage} (storage : e.storage = some s) (kept : s.kind ≠ .knownValue) :
    n ≤ s.offset := by
  induction es generalizing n with
  | nil => cases member
  | cons f es ih =>
    obtain ⟨⟨t, found, offset⟩, rest⟩ := stacked
    rcases List.mem_cons.1 member with rfl | member
    · rw [storage] at found
      cases found
      exact Nat.le_of_eq (offset kept).symm
    · have := ih rest member
      omega

theorem Stacked.end_le {n : Nat} {es : List Entity} (stacked : Stacked n es) {e : Entity}
    (member : e ∈ es) {s : Storage} (storage : e.storage = some s) (kept : s.kind ≠ .knownValue) :
    s.offset + s.size ≤ n + words es := by
  induction es generalizing n with
  | nil => cases member
  | cons f es ih =>
    obtain ⟨⟨t, found, offset⟩, rest⟩ := stacked
    rw [words_cons]
    rcases List.mem_cons.1 member with rfl | member
    · rw [storage] at found
      cases found
      have size : e.words = s.size := by simp [Entity.words, storage, kept]
      rw [offset kept, size]
      omega
    · have := ih rest member
      omega

/-- Entities whose words follow one another are apart. -/
theorem Stacked.pairwise_apart {n : Nat} {es : List Entity} (stacked : Stacked n es) :
    es.Pairwise Entity.Apart := by
  induction es generalizing n with
  | nil => exact .nil
  | cons e es ih =>
    obtain ⟨⟨s, found, offset⟩, rest⟩ := stacked
    refine .cons ?_ (ih rest)
    intro f member s' t storage storage' kept kept'
    rw [storage] at found
    cases found
    have words : e.words = s.size := by simp [Entity.words, storage, kept]
    have behind := rest.le_offset member storage' kept'
    rw [words] at behind
    rw [offset kept]
    exact .inl behind

/-- A declared entity, with the entities of each `let` strictly around it, the outermost first, and
those its own `let` declares before it. -/
structure Placed where
  entity : Entity
  lets : List (List Entity)
  before : List Entity

namespace Placed

/-- The entities that live when this one begins to, in the order of the text. -/
def around (x : Placed) : List Entity :=
  x.lets.flatten ++ x.before

/-- The first word behind those of the entity, if it is kept in words. -/
def end? (x : Placed) : Option Nat :=
  (x.entity.storage.filter (·.kind != .knownValue)).map fun s => s.offset + s.size

/-- The level of the entity is the number of `let`s around it, and its words come behind those of
the entities that live already. -/
structure Settled (x : Placed) : Prop where
  level : ∃ s, x.entity.storage = some s ∧ s.level = x.lets.length + 1
  stacked : Stacked 0 (x.around ++ [x.entity])

/-- The number of words in use at most. -/
def height (xs : List Placed) : Nat :=
  (xs.filterMap end?).foldr max 0

@[simp] theorem height_nil : height [] = 0 := rfl

@[simp] theorem height_append (xs ys : List Placed) :
    height (xs ++ ys) = max (height xs) (height ys) := by
  have fold : ∀ (ns : List Nat) (m : Nat), ns.foldr max m = max (ns.foldr max 0) m := by
    intro ns m
    induction ns with
    | nil => simp
    | cons n ns ih => simp [ih, Nat.max_assoc]
  rw [height, List.filterMap_append, List.foldr_append, fold]
  rfl

end Placed

mutual

/-- What a declaration declares inside the `let`s `lets`, where its own `let` has declared
`before`. -/
def Decl.placed (lets : List (List Entity)) (before : List Entity) : Decl → List Placed
  | .const pos ty storage id _ => [⟨⟨.const, id.name, pos, id.pos, ty, storage⟩, lets, before⟩]
  | .var pos ty storage id _ => [⟨⟨.var, id.name, pos, id.pos, ty, storage⟩, lets, before⟩]
  | .seq _ ds => Decl.placedAll lets before ds
  | .bad _ | .builtin _ => []

/-- What declarations declare one after the other. -/
def Decl.placedAll (lets : List (List Entity)) (before : List Entity) : List Decl → List Placed
  | [] => []
  | d :: ds => d.placed lets before ++ Decl.placedAll lets (before ++ entities d) ds

end

mutual

/-- What is declared in a command inside the `let`s `lets`. -/
def Cmd.placed (lets : List (List Entity)) : Cmd → List Placed
  | .assign .. | .call .. | .skip .. | .bad _ => []
  | .seq _ cs => Cmd.placedAll lets cs
  | .block _ body _ => body.placed lets
  | .ifElse _ _ yes no => yes.placed lets ++ no.placed lets
  | .ifEither _ _ _ yes no => yes.placed lets ++ no.placed lets
  | .whileDo _ _ body => body.placed lets
  | .letIn _ d body => d.placed lets [] ++ body.placed (lets ++ [entities d])

/-- What is declared in commands one after the other. -/
def Cmd.placedAll (lets : List (List Entity)) : List Cmd → List Placed
  | [] => []
  | c :: cs => c.placed lets ++ Cmd.placedAll lets cs

end

/-- What is declared in a program, in the order of the text. -/
def Program.placed (p : Program) : List Placed :=
  p.body.placed []

/-- The entity a node declares. -/
def Node.entity? : Node → Option Entity
  | decl (.const pos ty storage id _) => some ⟨.const, id.name, pos, id.pos, ty, storage⟩
  | decl (.var pos ty storage id _) => some ⟨.var, id.name, pos, id.pos, ty, storage⟩
  | _ => none

section Walk

theorem Expr.filterMap_entity? (x : Expr) :
    (x.walk fun _ => true).filterMap Node.entity? = [] := by
  rw [List.filterMap_eq_nil_iff]
  intro n member
  cases n with
  | decl d => exact absurd member x.decl_notMem_walk
  | _ => rfl

theorem Arg.filterMap_entity? (a : Arg) :
    (a.walk fun _ => true).filterMap Node.entity? = [] := by
  rw [List.filterMap_eq_nil_iff]
  intro n member
  cases n with
  | decl d => exact absurd member a.decl_notMem_walk
  | _ => rfl

attribute [local simp] Decl.walk Decl.walkAll Cmd.walk Cmd.walkAll Decl.placed Decl.placedAll
  Cmd.placed Cmd.placedAll Node.entity? List.filterMap_cons Expr.filterMap_entity?
  Arg.filterMap_entity?

mutual

theorem Decl.map_entity_placed (lets : List (List Entity)) (before : List Entity) :
    ∀ d : Decl, (d.placed lets before).map (·.entity) =
      (d.walk fun _ => true).filterMap Node.entity?
  | .const .. | .var .. | .bad _ | .builtin _ => by simp
  | .seq _ ds => by simpa using Decl.map_entity_placedAll lets before ds

theorem Decl.map_entity_placedAll (lets : List (List Entity)) (before : List Entity) :
    ∀ ds : List Decl, (Decl.placedAll lets before ds).map (·.entity) =
      (Decl.walkAll (fun _ => true) ds).filterMap Node.entity?
  | [] => rfl
  | d :: ds => by
    simp [d.map_entity_placed lets before,
      Decl.map_entity_placedAll lets (before ++ entities d) ds]

end

mutual

theorem Cmd.map_entity_placed (lets : List (List Entity)) :
    ∀ c : Cmd, (c.placed lets).map (·.entity) = (c.walk fun _ => true).filterMap Node.entity?
  | .assign .. | .call .. | .skip .. | .bad _ => by simp
  | .seq _ cs => by simpa using Cmd.map_entity_placedAll lets cs
  | .block _ body _ => by simpa using body.map_entity_placed lets
  | .ifElse _ _ yes no => by simp [yes.map_entity_placed lets, no.map_entity_placed lets]
  | .ifEither _ _ _ yes no => by simp [yes.map_entity_placed lets, no.map_entity_placed lets]
  | .whileDo _ _ body => by simpa using body.map_entity_placed lets
  | .letIn _ d body => by
    simp [d.map_entity_placed lets [], body.map_entity_placed (lets ++ [entities d])]

theorem Cmd.map_entity_placedAll (lets : List (List Entity)) :
    ∀ cs : List Cmd, (Cmd.placedAll lets cs).map (·.entity) =
      (Cmd.walkAll (fun _ => true) cs).filterMap Node.entity?
  | [] => rfl
  | c :: cs => by simp [c.map_entity_placed lets, Cmd.map_entity_placedAll lets cs]

end

/-- No declaration is left out, and none is there twice. -/
theorem Program.map_entity_placed (p : Program) :
    p.placed.map (·.entity) = p.nodes.filterMap Node.entity? := by
  simp [Program.placed, Program.nodes, Program.walk, Cmd.map_entity_placed]

end Walk

namespace Check

namespace Checked

variable {α β : Type}

/-- The number of words in use at most. -/
def peak (x : Checked α) : Nat := x.trace.peak

@[simp] theorem peak_pure (a : α) : (pure a : Checked α).peak = 0 := rfl

@[simp] theorem peak_bind (x : Checked α) (f : α → Checked β) :
    (x >>= f).peak = max x.peak (f x.value).peak := rfl

@[simp] theorem peak_report (pos : Pos) (e : Error) : (report pos e).peak = 0 := rfl

@[simp] theorem peak_reportIf (c : Bool) (pos : Pos) (e : Error) :
    (reportIf c pos e).peak = 0 := by
  cases c <;> simp [reportIf]

@[simp] theorem peak_reach (words : Nat) : (reach words).peak = words := rfl

@[simp] theorem peak_within (site : Pos) (frame : Frame Meaning) (x : Checked α) :
    (within site frame x).peak = x.peak := rfl

/-- Nothing but a declaration takes words. -/
@[simp] theorem Plain.peak {x : Checked α} (plain : x.Plain) : x.peak = 0 := plain.2

end Checked

@[simp] theorem offset_declare (block : Block) (id : Ident) (e : Entity) :
    (declare block id e).value.2.offset = block.offset := by
  unfold declare
  split
  · rfl
  · split <;> rfl

/-- What follows from checking declarations of the `let`s `lets`, where their own `let` has declared
`before`: everything declared is settled, and behind the declarations all words are in use that
belong to the entities `after`. -/
structure Settles (lets : List (List Entity)) (after : List Entity) (xs : List Placed)
    (offset peak : Nat) : Prop where
  settled : ∀ x ∈ xs, x.Settled
  stacked : Stacked 0 (lets.flatten ++ after)
  offset : offset = words (lets.flatten ++ after)
  peak : peak = Placed.height xs

variable {lets : List (List Entity)} {before : List Entity}

/-- One entity behind those that are in use. -/
theorem settles_one {e : Entity} {s : Storage} {offset : Nat}
    (stacked : Stacked 0 (lets.flatten ++ before)) (used : offset = words (lets.flatten ++ before))
    (storage : e.storage = some s) (level : s.level = lets.length + 1)
    (start : s.kind ≠ .knownValue → s.offset = offset) :
    Settles lets (before ++ [e]) [⟨e, lets, before⟩] (offset + e.words)
      (if s.kind = .knownValue then 0 else offset + s.size) := by
  have whole : Stacked 0 (lets.flatten ++ before ++ [e]) := by
    rw [stacked_append]
    refine ⟨stacked, ⟨s, storage, ?_⟩, trivial⟩
    intro kept
    rw [start kept, used, Nat.zero_add]
  constructor
  · intro x member
    rw [List.mem_singleton.1 member]
    exact ⟨⟨s, storage, level⟩, whole⟩
  · rw [← List.append_assoc]
    exact whole
  · rw [← List.append_assoc, words_append _ [e], ← used]
    simp
  · by_cases known : s.kind = .knownValue
    · simp [Placed.height, Placed.end?, storage, known]
    · have last : Placed.end? ⟨e, lets, before⟩ = some (offset + s.size) := by
        simp [Placed.end?, storage, Option.filter_some, known, start known]
      simp [Placed.height, known, last]

theorem Settles.append {after after' : List Entity} {xs ys : List Placed} {m n k l : Nat}
    (first : Settles lets after xs m k) (rest : Settles lets after' ys n l) :
    Settles lets after' (xs ++ ys) n (max k l) where
  settled x member := (List.mem_append.1 member).elim (first.settled x) (rest.settled x)
  stacked := rest.stacked
  offset := rest.offset
  peak := by rw [first.peak, rest.peak, Placed.height_append]

/-- What is known where a constant gets its storage. -/
theorem constStorage_spec (site : Site) (block : Block) (x : Expr) (t : Ty) :
    ∃ s, (constStorage site block x t).value.1 = s ∧ s.level = site.level ∧
      (s.kind ≠ .knownValue → s.offset = block.offset) ∧
      (constStorage site block x t).value.2.offset =
        block.offset + (if s.kind = .knownValue then 0 else s.size) ∧
      (constStorage site block x t).peak =
        if s.kind = .knownValue then 0 else block.offset + s.size := by
  refine ⟨_, rfl, ?_⟩
  unfold constStorage
  split <;> simp [allocate]

mutual

/-- Declarations settle what they declare. -/
theorem decl_settles {site : Site} (level : site.level = lets.length + 1) : ∀ (d : Decl)
    {block : Block} {before : List Entity}, Stacked 0 (lets.flatten ++ before) →
      block.offset = words (lets.flatten ++ before) →
      Settles lets (before ++ entities (decl site block d).value.1)
        ((decl site block d).value.1.placed lets before) (decl site block d).value.2.offset
        (decl site block d).peak
  | .const pos _ _ name x, block, before, stacked, used => by
    obtain ⟨t, typed⟩ : ∃ t, (value (site.env block) x).value.2 = t := ⟨_, rfl⟩
    obtain ⟨s, storage, here, start, offset, peak⟩ :=
      constStorage_spec site block (expr (site.env block) x).value t
    have one := settles_one (e := ⟨.const, name.name, pos, name.pos, some t, some s⟩) stacked
      used rfl (here.trans level) start
    simpa [decl, Decl.placed, entities, Entity.words, typed, storage, offset, peak] using one
  | .var pos _ _ name typeName, block, before, stacked, used => by
    let t := (typeNamed (site.env block) typeName).value.2
    let s : Storage := ⟨.knownAddress, site.level, block.offset, t.size, 0⟩
    have one := settles_one (e := ⟨.var, name.name, pos, name.pos, some t, some s⟩) stacked
      used rfl level fun _ => rfl
    simpa [decl, allocate, Decl.placed, entities, Entity.words, s, t] using one
  | .seq pos ds, block, before, stacked, used => by
    simpa [decl, Decl.placed, entities] using decls_settle level ds stacked used
  | .bad _, block, before, stacked, used | .builtin b, block, before, stacked, used => by
    refine ⟨?_, ?_, ?_, ?_⟩ <;> simp [decl, Decl.placed, entities, stacked, used]

theorem decls_settle {site : Site} (level : site.level = lets.length + 1) : ∀ (ds : List Decl)
    {block : Block} {before : List Entity}, Stacked 0 (lets.flatten ++ before) →
      block.offset = words (lets.flatten ++ before) →
      Settles lets (before ++ allEntities (decls site block ds).value.1)
        (Decl.placedAll lets before (decls site block ds).value.1)
        (decls site block ds).value.2.offset (decls site block ds).peak
  | [], block, before, stacked, used => by
    refine ⟨?_, ?_, ?_, ?_⟩ <;> simp [decls, Decl.placedAll, allEntities, stacked, used]
  | d :: ds, block, before, stacked, used => by
    have first := decl_settles level d stacked used
    have rest := decls_settle level ds first.stacked first.offset
    simpa [decls, Decl.placedAll, allEntities] using first.append rest

end

/-- The place is inside the `let`s `lets`, whose entities have all the words that are in use. -/
structure Place.Inside (p : Place) (lets : List (List Entity)) : Prop where
  level : p.level = lets.length
  stacked : Stacked 0 lets.flatten
  offset : p.offset = words lets.flatten

theorem Place.Inside.inBraces {p : Place} (inside : p.Inside lets) : p.inBraces.Inside lets :=
  ⟨inside.level, inside.stacked, inside.offset⟩

theorem Place.Inside.settles {p : Place} (inside : p.Inside lets) (d : Decl) :
    let r := decl p.letSite ⟨letFrame, p.offset⟩ d
    Settles lets (entities r.value.1) (r.value.1.placed lets []) r.value.2.offset r.peak := by
  have level : p.letSite.level = lets.length + 1 := congrArg (· + 1) inside.level
  simpa using @decl_settles lets p.letSite level d ⟨letFrame, p.offset⟩ []
    (by simpa using inside.stacked) (by simpa using inside.offset)

theorem Place.Inside.letBody {p : Place} (inside : p.Inside lets) (d : Decl) :
    let r := (decl p.letSite ⟨letFrame, p.offset⟩ d).value
    (p.letBody r.2).Inside (lets ++ [entities r.1]) := by
  have declared := inside.settles d
  refine ⟨?_, ?_, ?_⟩
  · simp [Place.letBody, inside.level]
  · simpa using declared.stacked
  · simpa [Place.letBody] using declared.offset

mutual

/-- A command settles what is declared in it. -/
theorem cmd_settled : ∀ (c : Cmd) {p : Place} {lets : List (List Entity)}, p.Inside lets →
    (∀ x ∈ (cmd p c).value.placed lets, x.Settled) ∧
      (cmd p c).peak = Placed.height ((cmd p c).value.placed lets)
  | .skip .., _, _, _ | .bad _, _, _, _ | .assign .., _, _, _ | .call .., _, _, _ => by
    simp [cmd, Cmd.placed]
  | .seq pos cs, p, lets, inside => by
    simpa [cmd, Cmd.placed] using cmds_settled cs inside
  | .block pos body close, p, lets, inside => by
    simpa [cmd, Cmd.placed] using cmd_settled body inside.inBraces
  | .ifElse pos cond yes no, p, lets, inside => by
    obtain ⟨settled, peak⟩ := cmd_settled yes inside
    obtain ⟨settled', peak'⟩ := cmd_settled no inside
    refine ⟨?_, by simp [cmd, Cmd.placed, peak, peak']⟩
    simpa [cmd, Cmd.placed, or_imp, forall_and] using ⟨settled, settled'⟩
  | .ifEither pos cond alt yes no, p, lets, inside => by
    obtain ⟨settled, peak⟩ := cmd_settled yes inside
    obtain ⟨settled', peak'⟩ := cmd_settled no inside
    refine ⟨?_, by simp [cmd, Cmd.placed, peak, peak']⟩
    simpa [cmd, Cmd.placed, or_imp, forall_and] using ⟨settled, settled'⟩
  | .whileDo pos cond body, p, lets, inside => by
    simpa [cmd, Cmd.placed] using cmd_settled body inside
  | .letIn pos d body, p, lets, inside => by
    have declared := inside.settles d
    obtain ⟨settled, peak⟩ := cmd_settled body (inside.letBody d)
    refine ⟨?_, by simp [cmd, Cmd.placed, declared.peak, peak]⟩
    simpa [cmd, Cmd.placed, or_imp, forall_and] using ⟨declared.settled, settled⟩

theorem cmds_settled : ∀ (cs : List Cmd) {p : Place} {lets : List (List Entity)}, p.Inside lets →
    (∀ x ∈ Cmd.placedAll lets (cmds p cs).value, x.Settled) ∧
      (cmds p cs).peak = Placed.height (Cmd.placedAll lets (cmds p cs).value)
  | [], _, _, _ => by simp [cmds, Cmd.placedAll]
  | c :: cs, p, lets, inside => by
    obtain ⟨settled, peak⟩ := cmd_settled c inside
    obtain ⟨settled', peak'⟩ := cmds_settled cs inside
    refine ⟨?_, by simp [cmds, Cmd.placedAll, peak, peak']⟩
    simpa [cmds, Cmd.placedAll, or_imp, forall_and] using ⟨settled, settled'⟩

end

end Check

end TriangleTam

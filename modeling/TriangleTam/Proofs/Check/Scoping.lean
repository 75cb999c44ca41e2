import TriangleTam.Proofs.Check.Annotations
import TriangleTam.Proofs.Check.Declarations
import TriangleTam.Proofs.Compilation
import TriangleTam.Proofs.Parser.Bare

/-!
# Names follow the text

What a name refers to can be read off the text: one goes outward through the `let`s around it and
takes the first declaration of the name in each list, of which only those before a declaration
count for what is inside that declaration; what no `let` declares is looked for in the standard
environment. `links` says so for all identifiers of a tree, together with what is wrong about
them. Main statement: `check_follows_text`, checking the tree of any text gives its identifiers just
these meanings and reports just these faults.
-/

namespace TriangleTam

open Check (entities allEntities)

/-- What can be wrong about an identifier itself. -/
inductive NameFault where
  /-- Nothing has this name. -/
  | undeclared (name : String)
  /-- The same `let` has declared the name before, at a position. -/
  | duplicate (name : String) (previous : Pos)
deriving DecidableEq, Repr

/-- An identifier of a checked program, with what it refers to by the text and what is wrong about
it. -/
structure Link where
  id : Ident
  refers : Option Meaning
  fault : Option NameFault

namespace Link

/-- The entity that a list of declarations gives to a name, which is the leftmost one. -/
def leftmost? (es : List Entity) (name : String) : Option Entity :=
  es.find? (·.name == name)

/-- What a name refers to inside several `let`s, of which the innermost comes first and each is
given by the entities it declares. -/
def refer : List (List Entity) → String → Option Meaning
  | [], name => (Builtin.named? name).map .builtin
  | es :: outer, name =>
    match leftmost? es name with
    | some e => some (.entity e)
    | none => refer outer name

/-- An identifier that is used inside the `let`s `lets`. -/
def use (lets : List (List Entity)) (id : Ident) : Link :=
  if id.name = "" then ⟨id, none, none⟩
  else
    match refer lets id.name with
    | some m => ⟨id, some m, none⟩
    | none => ⟨id, none, some (.undeclared id.name)⟩

/-- An identifier that is defined as the entity `e`, where the same `let` has declared `before`. -/
def define (before : List Entity) (e : Entity) (id : Ident) : Link :=
  if id.name = "" then ⟨id, none, none⟩
  else
    match leftmost? before id.name with
    | some first => ⟨id, none, some (.duplicate id.name first.namePos)⟩
    | none => ⟨id, some (.entity e), none⟩

/-- What has to be reported about the identifier. -/
def report? (l : Link) : Option (Report NameFault) :=
  l.fault.map fun f => ⟨l.id.pos, f⟩

end Link

open Link (use define)

mutual

/-- The identifiers of an expression inside the `let`s `lets`. -/
def Expr.links (lets : List (List Entity)) : Expr → List Link
  | .int .. | .char .. | .bad .. => []
  | .name _ _ id => [use lets id]
  | .unary _ _ _ x => x.links lets
  | .binary _ _ x _ y => x.links lets ++ y.links lets
  | .call _ _ callee a => use lets callee :: a.links lets

/-- The identifiers of an actual parameter. -/
def Arg.links (lets : List (List Entity)) : Arg → List Link
  | .value _ x => x.links lets
  | .var _ id => [use lets id]
  | .blank _ | .bad _ => []

end

mutual

/-- The identifiers of a declaration inside the `let`s `lets`, where its own `let` has declared
`before`. -/
def Decl.links (lets : List (List Entity)) (before : List Entity) : Decl → List Link
  | .const pos ty storage id x =>
    define before ⟨.const, id.name, pos, id.pos, ty, storage⟩ id :: x.links (before :: lets)
  | .var pos ty storage id typeName =>
    [define before ⟨.var, id.name, pos, id.pos, ty, storage⟩ id, use (before :: lets) typeName]
  | .seq _ ds => Decl.linksAll lets before ds
  | .bad _ | .builtin _ => []

/-- The identifiers of declarations one after the other. -/
def Decl.linksAll (lets : List (List Entity)) (before : List Entity) : List Decl → List Link
  | [] => []
  | d :: ds => d.links lets before ++ Decl.linksAll lets (before ++ entities d) ds

end

mutual

/-- The identifiers of a command inside the `let`s `lets`. -/
def Cmd.links (lets : List (List Entity)) : Cmd → List Link
  | .assign _ target x => use lets target :: x.links lets
  | .call _ callee a => use lets callee :: a.links lets
  | .seq _ cs => Cmd.linksAll lets cs
  | .block _ body _ => body.links lets
  | .ifElse _ cond yes no => cond.links lets ++ yes.links lets ++ no.links lets
  | .ifEither _ cond alt yes no =>
    cond.links lets ++ alt.links lets ++ yes.links lets ++ no.links lets
  | .whileDo _ cond body => cond.links lets ++ body.links lets
  | .letIn _ d body => d.links lets [] ++ body.links (entities d :: lets)
  | .skip .. | .bad _ => []

/-- The identifiers of commands one after the other. -/
def Cmd.linksAll (lets : List (List Entity)) : List Cmd → List Link
  | [] => []
  | c :: cs => c.links lets ++ Cmd.linksAll lets cs

end

/-- The identifiers of a program, in the order of the text. -/
def Program.links (p : Program) : List Link :=
  p.body.links []

/-- The identifier that a node is. -/
def Node.ident? : Node → Option Ident
  | ident id => some id
  | _ => none

/-- All identifiers of a program, in the order of the text. -/
def Program.idents (p : Program) : List Ident :=
  p.nodes.filterMap Node.ident?

section Walk

@[simp] theorem Link.id_use (lets : List (List Entity)) (id : Ident) : (use lets id).id = id := by
  unfold use
  split
  · rfl
  · split <;> rfl

@[simp] theorem Link.id_define (before : List Entity) (e : Entity) (id : Ident) :
    (define before e id).id = id := by
  unfold define
  split
  · rfl
  · split <;> rfl

attribute [local simp] Expr.walk Arg.walk Decl.walk Decl.walkAll Cmd.walk Cmd.walkAll Expr.links
  Arg.links Decl.links Decl.linksAll Cmd.links Cmd.linksAll Node.ident? List.filterMap_cons

mutual

theorem Expr.map_id_links (lets : List (List Entity)) :
    ∀ x : Expr, (x.links lets).map (·.id) = (x.walk fun _ => true).filterMap Node.ident?
  | .int .. | .char .. | .name .. | .bad .. => by simp
  | .unary _ _ _ x => by simpa using x.map_id_links lets
  | .binary _ _ x _ y => by simp [x.map_id_links lets, y.map_id_links lets]
  | .call _ _ _ a => by simpa using a.map_id_links lets

theorem Arg.map_id_links (lets : List (List Entity)) :
    ∀ a : Arg, (a.links lets).map (·.id) = (a.walk fun _ => true).filterMap Node.ident?
  | .value _ x => by simpa using x.map_id_links lets
  | .var .. | .blank _ | .bad _ => by simp

end

mutual

theorem Decl.map_id_links (lets : List (List Entity)) (before : List Entity) :
    ∀ d : Decl, (d.links lets before).map (·.id) = (d.walk fun _ => true).filterMap Node.ident?
  | .const _ _ _ _ x => by simpa using x.map_id_links (before :: lets)
  | .var .. | .bad _ | .builtin _ => by simp
  | .seq _ ds => by simpa using Decl.map_id_linksAll lets before ds

theorem Decl.map_id_linksAll (lets : List (List Entity)) (before : List Entity) :
    ∀ ds : List Decl, (Decl.linksAll lets before ds).map (·.id) =
      (Decl.walkAll (fun _ => true) ds).filterMap Node.ident?
  | [] => rfl
  | d :: ds => by
    simp [d.map_id_links lets before, Decl.map_id_linksAll lets (before ++ entities d) ds]

end

mutual

theorem Cmd.map_id_links (lets : List (List Entity)) :
    ∀ c : Cmd, (c.links lets).map (·.id) = (c.walk fun _ => true).filterMap Node.ident?
  | .assign _ _ x => by simpa using x.map_id_links lets
  | .call _ _ a => by simpa using a.map_id_links lets
  | .seq _ cs => by simpa using Cmd.map_id_linksAll lets cs
  | .block _ body _ => by simpa using body.map_id_links lets
  | .ifElse _ cond yes no => by
    simp [cond.map_id_links lets, yes.map_id_links lets, no.map_id_links lets]
  | .ifEither _ cond alt yes no => by
    simp [cond.map_id_links lets, alt.map_id_links lets, yes.map_id_links lets,
      no.map_id_links lets]
  | .whileDo _ cond body => by simp [cond.map_id_links lets, body.map_id_links lets]
  | .letIn _ d body => by
    simp [d.map_id_links lets [], body.map_id_links (entities d :: lets)]
  | .skip .. | .bad _ => by simp

theorem Cmd.map_id_linksAll (lets : List (List Entity)) :
    ∀ cs : List Cmd, (Cmd.linksAll lets cs).map (·.id) =
      (Cmd.walkAll (fun _ => true) cs).filterMap Node.ident?
  | [] => rfl
  | c :: cs => by simp [c.map_id_links lets, Cmd.map_id_linksAll lets cs]

end

/-- No identifier is left out, and none is there twice. -/
theorem Program.map_id_links (p : Program) : p.links.map (·.id) = p.idents := by
  simp [Program.links, Program.idents, Program.nodes, Program.walk, Cmd.map_id_links]

end Walk

namespace Check

/-- What an error says about an identifier itself. -/
def Error.nameFault? : Error → Option NameFault
  | undeclared name _ => some (.undeclared name)
  | duplicate name previous => some (.duplicate name previous)
  | _ => none

/-- The faults of identifiers among all that is reported, in the same order. -/
def nameFaults (reports : List (Report Error)) : List (Report NameFault) :=
  reports.filterMap fun r => r.cause.nameFault?.map fun f => ⟨r.pos, f⟩

namespace Checked

variable {α β : Type}

/-- The faults of identifiers among what was found wrong. -/
def faults (x : Checked α) : List (Report NameFault) := nameFaults x.trace.reports

@[simp] theorem faults_pure (a : α) : (pure a : Checked α).faults = [] := rfl

@[simp] theorem faults_bind (x : Checked α) (f : α → Checked β) :
    (x >>= f).faults = x.faults ++ (f x.value).faults :=
  List.filterMap_append

@[simp] theorem faults_report (pos : Pos) (e : Error) :
    (report pos e).faults = (e.nameFault?.map (⟨pos, ·⟩)).toList := by
  cases h : e.nameFault? <;> simp [faults, nameFaults, report, h]

@[simp] theorem faults_reportIf (c : Bool) (pos : Pos) (e : Error) :
    (reportIf c pos e).faults = if c then (e.nameFault?.map (⟨pos, ·⟩)).toList else [] := by
  cases c <;> simp [reportIf]

@[simp] theorem faults_reach (words : Nat) : (reach words).faults = [] := rfl

@[simp] theorem faults_within (site : Pos) (frame : Frame Meaning) (x : Checked α) :
    (within site frame x).faults = x.faults := rfl

end Checked

section Faults

attribute [local simp] Error.nameFault?

variable (env : Env)

@[simp] theorem faults_needValue (x : Expr) : (needValue x).faults = [] := by
  unfold needValue
  split <;> simp

@[simp] theorem faults_argType (pos : Pos) (found : Ty) (expected : Option Expected) :
    (argType pos found expected).faults = [] := by
  unfold argType
  split <;> simp

@[simp] theorem faults_nameType (pos : Pos) (id : Ident) (m : Option Meaning) :
    (nameType pos id m).faults = [] := by
  unfold nameType
  split
  · simp
  · split <;> simp

@[simp] theorem faults_applyUnary (op : OpName) (pos : Pos) (t : Ty) :
    (applyUnary env op pos t).faults = [] := by
  unfold applyUnary
  split <;> simp

@[simp] theorem faults_applyBinary (op : OpName) (xPos yPos : Pos) (s t : Ty) :
    (applyBinary env op xPos yPos s t).faults = [] := by
  simp only [applyBinary]
  split
  · split <;> simp
  · simp

@[simp] theorem faults_routine (callee : Ident) (blank : Bool) :
    (routine env callee blank).faults = (env.resolve callee).faults := by
  simp only [routine, Checked.faults_bind, List.append_right_eq_self]
  split
  · simp
  · by_cases count : (if blank = true then 0 else 1) = ‹List Formal›.length <;> simp [count]
  · simp

@[simp] theorem faults_typeNamed (id : Ident) :
    (typeNamed env id).faults = (env.resolve id).faults := by
  simp only [typeNamed, Checked.faults_bind, List.append_right_eq_self]
  split <;> simp

@[simp] theorem faults_varArg (expected : Option Expected) (pos : Pos) (id : Ident) :
    (varArg env expected pos id).faults = (env.resolve id).faults := by
  simp only [varArg, Checked.faults_bind, List.append_right_eq_self]
  cases expected <;> (split <;> try split) <;> simp

@[simp] theorem faults_arg_value (expected : Option Expected) (pos : Pos) (x : Expr) :
    (arg env expected (.value pos x)).faults = (expr env x).faults := by
  cases expected <;> simp [arg]

@[simp] theorem faults_value (x : Expr) : (value env x).faults = (expr env x).faults := by
  simp [value]

@[simp] theorem faults_condition (command : String) (x : Expr) :
    (condition env command x).faults = (expr env x).faults := by
  simp [condition]

@[simp] theorem faults_assign (target : Ident) (x : Expr) :
    (assign env target x).faults = (expr env x).faults ++ (env.resolve target).faults := by
  simp only [assign, Checked.faults_bind, faults_value, List.append_cancel_left_eq,
    List.append_right_eq_self]
  split
  · simp
  · split <;> simp

@[simp] theorem faults_constStorage (site : Site) (block : Block) (x : Expr) (t : Ty) :
    (constStorage site block x t).faults = [] := by
  unfold constStorage
  split <;> simp [allocate]

@[simp] theorem faults_allocate (site : Site) (block : Block) (kind : Storage.Kind) (size : Nat) :
    (allocate site block kind size).faults = [] := by
  simp [allocate]

end Faults

/-- The identifiers `ls` mean what they refer to, and their faults are those that were found. -/
structure Linked (found : List (Report NameFault)) (ls : List Link) : Prop where
  meaning : ∀ l ∈ ls, l.id.meaning = l.refers
  faults : found.Perm (ls.filterMap Link.report?)

theorem linked_nil : Linked [] [] := ⟨by simp, .nil⟩

theorem Linked.append {found found' : List (Report NameFault)} {ls ls' : List Link}
    (first : Linked found ls) (rest : Linked found' ls') :
    Linked (found ++ found') (ls ++ ls') where
  meaning l member := (List.mem_append.1 member).elim (first.meaning l) (rest.meaning l)
  faults := by
    rw [List.filterMap_append]
    exact first.faults.append rest.faults

theorem Linked.perm {found : List (Report NameFault)} {ls ls' : List Link}
    (linked : Linked found ls) (order : ls.Perm ls') : Linked found ls' where
  meaning l member := linked.meaning l (order.mem_iff.2 member)
  faults := linked.faults.trans (order.filterMap _)

/-- The names in a chain of frames mean what they refer to inside the `let`s `lets`. A missing name
is never looked up. -/
def Follows (chain : Chain Meaning) (lets : List (List Entity)) : Prop :=
  ∀ name, name ≠ "" → Chain.lookup? chain name = Link.refer lets name

/-- The names in the frame of a `let` mean what the entities declared so far give them. -/
def Fills (frame : Frame Meaning) (before : List Entity) : Prop :=
  ∀ name, name ≠ "" → frame.lookup? name = (Link.leftmost? before name).map .entity

theorem follows_root : Follows [rootFrame] [] := by
  intro name _
  rw [scoped_root name]
  rfl

theorem Follows.cons_empty {chain : Chain Meaning} {lets : List (List Entity)}
    (follows : Follows chain lets) (comment : String) : Follows (⟨comment, []⟩ :: chain) lets := by
  intro name present
  rw [Chain.lookup?_cons]
  simpa [Frame.lookup?] using follows name present

theorem Follows.cons {chain : Chain Meaning} {lets : List (List Entity)} {frame : Frame Meaning}
    {before : List Entity} (follows : Follows chain lets) (fills : Fills frame before) :
    Follows (frame :: chain) (before :: lets) := by
  intro name present
  rw [Chain.lookup?_cons, fills name present, follows name present, Link.refer]
  cases Link.leftmost? before name <;> rfl

theorem fills_nil (comment : String) : Fills ⟨comment, []⟩ [] := by
  intro name _
  rfl

theorem leftmost?_append_one (before : List Entity) (e : Entity) (name : String) :
    Link.leftmost? (before ++ [e]) name =
      (Link.leftmost? before name).or (if e.name = name then some e else none) := by
  by_cases same : e.name = name <;> simp [Link.leftmost?, List.find?_append, same]

/-- Another entity changes nothing if its name is missing or taken. -/
theorem Fills.append_taken {frame : Frame Meaning} {before : List Entity} {e : Entity}
    (fills : Fills frame before)
    (taken : e.name ≠ "" → ∃ first, Link.leftmost? before e.name = some first) :
    Fills frame (before ++ [e]) := by
  intro name present
  rw [fills name present, leftmost?_append_one]
  split
  · next same =>
    obtain ⟨first, found⟩ := taken (same ▸ present)
    rw [← same, found]
    rfl
  · rw [Option.or_none]

theorem Fills.append_bound {frame frame' : Frame Meaning} {before : List Entity} {e : Entity}
    (fills : Fills frame before) (free : Link.leftmost? before e.name = none)
    (bound : frame.insert e.name (some (.entity e)) = (none, frame')) :
    Fills frame' (before ++ [e]) := by
  intro name present
  rw [Frame.lookup?_insert bound, fills name present, leftmost?_append_one]
  by_cases same : e.name = name
  · rw [← same, free]
    simp
  · rw [if_neg same, if_neg (Ne.symm same), Option.or_none]

variable {lets : List (List Entity)}

/-- An identifier about which nothing is wrong. -/
theorem linked_fine (id : Ident) : Linked [] [⟨id, id.meaning, none⟩] :=
  ⟨by simp, .nil⟩

/-- An identifier that stays without a meaning. -/
theorem linked_fault (id : Ident) (open_ : id.meaning = none) (f : NameFault) :
    Linked [⟨id.pos, f⟩] [⟨id, none, some f⟩] :=
  ⟨by simp [open_], .refl _⟩

theorem resolve_linked (env : Env) (follows : Follows env.chain lets) (id : Ident) :
    Linked (env.resolve id.bare).faults [use lets (env.resolve id.bare).value.1] := by
  by_cases missing : id.name = ""
  · simpa [Env.resolve, use, missing, Ident.bare] using linked_fine ⟨id.pos, "", none⟩
  · have looked : env.lookup? id.name = Link.refer lets id.name := follows id.name missing
    cases found : Link.refer lets id.name with
    | some m =>
      simpa [Env.resolve, use, missing, looked, found, Ident.bare] using
        linked_fine ⟨id.pos, id.name, some m⟩
    | none =>
      simpa [Env.resolve, use, missing, looked, found, Ident.bare, Error.nameFault?] using
        linked_fault id.bare rfl (.undeclared id.name)

mutual

theorem expr_linked (env : Env) (follows : Follows env.chain lets) : ∀ x : Expr,
    Linked (expr env x.bare).faults ((expr env x.bare).value.links lets)
  | .int .. => by simpa [expr, Expr.bare, Expr.links, Error.nameFault?] using linked_nil
  | .char .. | .bad .. => by simpa [expr, Expr.bare, Expr.links] using linked_nil
  | .name _ _ id => by simpa [expr, Expr.bare, Expr.links] using resolve_linked env follows id
  | .unary _ _ op x => by simpa [expr, Expr.bare, Expr.links] using expr_linked env follows x
  | .binary _ _ x op y => by
    simpa [expr, Expr.bare, Expr.links] using
      (expr_linked env follows x).append (expr_linked env follows y)
  | .call _ _ callee a => by
    simpa [expr, Expr.bare, Expr.links] using
      (resolve_linked env follows callee).append (arg_linked env follows _ a)

theorem arg_linked (env : Env) (follows : Follows env.chain lets) (expected : Option Expected) :
    ∀ a : Arg, Linked (arg env expected a.bare).faults ((arg env expected a.bare).value.links lets)
  | .value pos x => by simpa [Arg.bare, Arg.links] using expr_linked env follows x
  | .var pos id => by simpa [arg, Arg.bare, Arg.links] using resolve_linked env follows id
  | .blank _ | .bad _ => by simpa [arg, Arg.bare, Arg.links] using linked_nil

end

/-- A defining identifier. -/
theorem declare_linked (block : Block) {before : List Entity} (id : Ident) {e : Entity}
    (fills : Fills block.frame before) (named : e.name = id.name) :
    Linked (declare block id.bare e).faults [define before e (declare block id.bare e).value.1] ∧
      Fills (declare block id.bare e).value.2.frame (before ++ [e]) := by
  by_cases missing : id.name = ""
  · constructor
    · simpa [declare, define, missing, Ident.bare] using linked_fine ⟨id.pos, "", none⟩
    · have eq : declare block id.bare e = pure (id.bare, block) := if_pos missing
      rw [eq]
      exact fills.append_taken fun present => absurd (named.trans missing) present
  · have looked := fills id.name missing
    cases found : Link.leftmost? before id.name with
    | some first =>
      rw [found] at looked
      have taken := Frame.insert_eq_of_lookup?_eq_some (d := some (.entity e)) looked
      constructor
      · simpa [declare, define, missing, taken, found, Ident.bare, Error.nameFault?,
          Meaning.namePos] using
          linked_fault id.bare rfl (.duplicate id.name first.namePos)
      · simpa [declare, missing, taken, Ident.bare] using
          fills.append_taken fun _ => ⟨first, named ▸ found⟩
    | none =>
      rw [found] at looked
      obtain ⟨g, bound⟩ := Frame.insert_eq_of_lookup?_eq_none (d := some (.entity e)) looked
      constructor
      · simpa [declare, define, missing, bound, found, Ident.bare] using
          linked_fine ⟨id.pos, id.name, some (.entity e)⟩
      · have filled := fills.append_bound (named ▸ found) (named ▸ bound)
        simpa [declare, missing, bound, Ident.bare] using filled

mutual

/-- Declarations of one `let`: what is declared before is in the frame, and stays there. -/
theorem decl_linked (site : Site) (follows : Follows site.outer lets) : ∀ (d : Decl)
    (block : Block) {before : List Entity}, Fills block.frame before →
      Linked (decl site block d.bare).faults
          ((decl site block d.bare).value.1.links lets before) ∧
        Fills (decl site block d.bare).value.2.frame
          (before ++ entities (decl site block d.bare).value.1)
  | .const pos _ _ name x, block, before, fills => by
    have inside := expr_linked (site.env block) (follows.cons fills) x
    let x' := (value (site.env block) x.bare).value
    let s := (constStorage site block x'.1 x'.2).value
    have kept : Fills s.2.frame before := by
      rw [frame_constStorage]
      exact fills
    obtain ⟨defined, filled⟩ := declare_linked s.2 name
      (e := ⟨.const, name.bare.name, pos, name.bare.pos, some x'.2, some s.1⟩) kept rfl
    have both := (inside.append defined).perm List.perm_append_comm
    constructor
    · simpa [decl, Decl.bare, Decl.links, x', s] using both
    · simpa [decl, Decl.bare, entities, x', s] using filled
  | .var pos _ _ name typeName, block, before, fills => by
    have named := resolve_linked (site.env block) (follows.cons fills) typeName
    let t := (typeNamed (site.env block) typeName.bare).value.2
    let s := (allocate site block .knownAddress t.size).value
    obtain ⟨defined, filled⟩ := declare_linked s.2 name
      (e := ⟨.var, name.bare.name, pos, name.bare.pos, some t, some s.1⟩) fills rfl
    have both := (named.append defined).perm List.perm_append_comm
    constructor
    · simpa [decl, Decl.bare, Decl.links] using both
    · simpa [decl, Decl.bare, entities] using filled
  | .seq pos ds, block, before, fills => by
    simpa [decl, Decl.bare, Decl.links, entities] using decls_linked site follows ds block fills
  | .bad _, block, before, fills => by
    simpa [decl, Decl.bare, Decl.links, entities] using And.intro linked_nil fills
  | .builtin b, block, before, fills => by
    simpa [decl, Decl.bare, Decl.links, entities, Error.nameFault?] using
      And.intro linked_nil fills

theorem decls_linked (site : Site) (follows : Follows site.outer lets) : ∀ (ds : List Decl)
    (block : Block) {before : List Entity}, Fills block.frame before →
      Linked (decls site block (ds.map Decl.bare)).faults
          (Decl.linksAll lets before (decls site block (ds.map Decl.bare)).value.1) ∧
        Fills (decls site block (ds.map Decl.bare)).value.2.frame
          (before ++ allEntities (decls site block (ds.map Decl.bare)).value.1)
  | [], block, before, fills => by
    simpa [decls, Decl.linksAll, allEntities] using And.intro linked_nil fills
  | d :: ds, block, before, fills => by
    obtain ⟨first, filled⟩ := decl_linked site follows d block fills
    obtain ⟨rest, filled⟩ := decls_linked site follows ds _ filled
    simpa [decls, Decl.linksAll, allEntities] using And.intro (first.append rest) filled

end

mutual

theorem cmd_linked : ∀ (c : Cmd) {p : Place} {lets : List (List Entity)}, Follows p.chain lets →
    Linked (cmd p c.bare).faults ((cmd p c.bare).value.links lets)
  | .skip .., _, _, _ | .bad _, _, _, _ => by simpa [cmd, Cmd.bare, Cmd.links] using linked_nil
  | .assign pos target x, p, lets, follows => by
    have both := (expr_linked p.env follows x).append
      (resolve_linked p.env follows target)
    simpa [cmd, Cmd.bare, Cmd.links] using both.perm List.perm_append_comm
  | .call pos callee a, p, lets, follows => by
    simpa [cmd, Cmd.bare, Cmd.links] using
      (resolve_linked p.env follows callee).append (arg_linked p.env follows _ a)
  | .seq pos cs, p, lets, follows => by
    simpa [cmd, Cmd.bare, Cmd.links] using cmds_linked cs follows
  | .block pos body close, p, lets, follows => by
    simpa [cmd, Cmd.bare, Cmd.links] using
      cmd_linked body (p := p.inBraces) (follows.cons_empty "block")
  | .ifElse pos cond yes no, p, lets, follows => by
    simpa [cmd, Cmd.bare, Cmd.links] using (expr_linked p.env follows cond).append
      ((cmd_linked yes follows).append (cmd_linked no follows))
  | .ifEither pos cond alt yes no, p, lets, follows => by
    simpa [cmd, Cmd.bare, Cmd.links] using (expr_linked p.env follows cond).append
      ((expr_linked p.env follows alt).append
        ((cmd_linked yes follows).append (cmd_linked no follows)))
  | .whileDo pos cond body, p, lets, follows => by
    simpa [cmd, Cmd.bare, Cmd.links] using
      (expr_linked p.env follows cond).append (cmd_linked body follows)
  | .letIn pos d body, p, lets, follows => by
    obtain ⟨declared, filled⟩ := decl_linked p.letSite follows d
      ⟨letFrame, p.offset⟩ (fills_nil "let")
    have inside := cmd_linked body (p := p.letBody _) (follows.cons filled)
    simpa [cmd, Cmd.bare, Cmd.links] using declared.append inside

theorem cmds_linked : ∀ (cs : List Cmd) {p : Place} {lets : List (List Entity)},
    Follows p.chain lets →
      Linked (cmds p (cs.map Cmd.bare)).faults
        (Cmd.linksAll lets (cmds p (cs.map Cmd.bare)).value)
  | [], _, _, _ => by simpa [cmds, Cmd.linksAll] using linked_nil
  | c :: cs, p, lets, follows => by
    simpa [cmds, Cmd.linksAll] using (cmd_linked c follows).append (cmds_linked cs follows)

end

end Check

/-- Names follow the text. The tree of any text, whatever is wrong with it, comes out of checking
with the same text and with every identifier meaning what it refers to; an identifier that refers to
nothing is reported once, and so is one that is declared again, and nothing else is reported about
identifiers themselves. -/
theorem Program.check_follows_text (file : String) (bytes : List UInt8) (lenient : Bool)
    (limit distance : Int) :
    ∃ r, (Program.ofText file bytes lenient limit).check distance = .ok r ∧
      r.program.bare = Program.ofText file bytes lenient limit ∧
      r.program.links.map (·.id) = r.program.idents ∧
      (∀ l ∈ r.program.links, l.id.meaning = l.refers) ∧
      (Check.nameFaults r.reports).Perm (r.program.links.filterMap Link.report?) := by
  let p := Program.ofText file bytes lenient limit
  have bare : p.bare = p := Program.bare_ofText file bytes lenient limit
  have literals : p.LiteralsProper := Parser.parse_scan_literalsProper _ lenient limit
  have linked := Check.cmd_linked p.body (p := ⟨[Check.rootFrame], distance, 0, 0⟩)
    Check.follows_root
  rw [show p.body.bare = p.body from congrArg Program.body bare] at linked
  refine ⟨_, p.check_eq_ok literals distance, ?_, Program.map_id_links _, linked.meaning,
    linked.faults⟩
  rw [Check.bare_program, bare]

end TriangleTam

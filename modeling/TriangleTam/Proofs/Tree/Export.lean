import TriangleTam.Proofs.Text.Decimal
import TriangleTam.Proofs.Tree.Nodes
import TriangleTam.Tree.Export

/-!
# What the export of a tree tells

An exported tree has everything that stands in a tree but the positions of names, operators and
literals, those of closing braces, and the links from names and operators to what they mean.
`exported` takes these out of a tree. Main statement: `Program.toData_eq_iff`, trees whose positions
lie in one text have the same export exactly if they are the same up to that.
-/

namespace TriangleTam

section Definitions

/-- The identifier without its place and its meaning. -/
def Ident.exported (id : Ident) : Ident := ⟨Pos.none, id.name, none⟩

/-- The operator without its place and its meaning. -/
def OpName.exported (op : OpName) : OpName := ⟨Pos.none, op.symbol, none⟩

/-- The literal without its place. -/
def Literal.exported (lit : Literal) : Literal := ⟨Pos.none, lit.spelling⟩

mutual

/-- The expression as far as it is exported. -/
def Expr.exported : Expr → Expr
  | .int pos ty lit => .int pos ty lit.exported
  | .char pos ty lit => .char pos ty lit.exported
  | .name pos ty id => .name pos ty id.exported
  | .unary pos ty op x => .unary pos ty op.exported x.exported
  | .binary pos ty x op y => .binary pos ty x.exported op.exported y.exported
  | .call pos ty callee a => .call pos ty callee.exported a.exported
  | .bad pos ty => .bad pos ty

/-- The actual parameter as far as it is exported. -/
def Arg.exported : Arg → Arg
  | .value pos x => .value pos x.exported
  | .var pos id => .var pos id.exported
  | .blank pos => .blank pos
  | .bad pos => .bad pos

end

mutual

/-- The declaration as far as it is exported. -/
def Decl.exported : Decl → Decl
  | .const pos ty storage name x => .const pos ty storage name.exported x.exported
  | .var pos ty storage name typeName => .var pos ty storage name.exported typeName.exported
  | .seq pos ds => .seq pos (Decl.exportedAll ds)
  | .bad pos => .bad pos
  | .builtin b => .builtin b

/-- The declarations as far as they are exported. -/
def Decl.exportedAll : List Decl → List Decl
  | [] => []
  | d :: ds => d.exported :: Decl.exportedAll ds

end

mutual

/-- The command as far as it is exported. -/
def Cmd.exported : Cmd → Cmd
  | .assign pos target x => .assign pos target.exported x.exported
  | .call pos callee a => .call pos callee.exported a.exported
  | .seq pos cs => .seq pos (Cmd.exportedAll cs)
  | .block pos body _ => .block pos body.exported Pos.none
  | .ifElse pos cond yes no => .ifElse pos cond.exported yes.exported no.exported
  | .ifEither pos cond alt yes no =>
    .ifEither pos cond.exported alt.exported yes.exported no.exported
  | .whileDo pos cond body => .whileDo pos cond.exported body.exported
  | .letIn pos d body => .letIn pos d.exported body.exported
  | .skip pos explicit => .skip pos explicit
  | .bad pos => .bad pos

/-- The commands as far as they are exported. -/
def Cmd.exportedAll : List Cmd → List Cmd
  | [] => []
  | c :: cs => c.exported :: Cmd.exportedAll cs

end

/-- The program as far as it is exported. -/
def Program.exported (p : Program) : Program := ⟨p.pos, p.body.exported⟩

end Definitions

section Kept

mutual

theorem Expr.toData_exported : ∀ x : Expr, x.exported.toData = x.toData
  | .int .. | .char .. | .name .. | .bad .. => by
    simp [Expr.exported, Expr.toData, Literal.exported, Ident.exported]
  | .unary _ _ _ x => by simp [Expr.exported, Expr.toData, OpName.exported, x.toData_exported]
  | .binary _ _ x _ y => by
    simp [Expr.exported, Expr.toData, OpName.exported, x.toData_exported, y.toData_exported]
  | .call _ _ _ a => by simp [Expr.exported, Expr.toData, Ident.exported, a.toData_exported]

theorem Arg.toData_exported : ∀ a : Arg, a.exported.toData = a.toData
  | .value _ x => by simp [Arg.exported, Arg.toData, x.toData_exported]
  | .var .. | .blank _ | .bad _ => by simp [Arg.exported, Arg.toData, Ident.exported]

end

mutual

theorem Decl.toData_exported : ∀ d : Decl, d.exported.toData = d.toData
  | .const _ _ _ _ x => by simp [Decl.exported, Decl.toData, Ident.exported, x.toData_exported]
  | .var .. | .bad _ | .builtin _ => by simp [Decl.exported, Decl.toData, Ident.exported]
  | .seq _ ds => by simp [Decl.exported, Decl.toData, Decl.toDataAll_exported ds]

theorem Decl.toDataAll_exported : ∀ ds : List Decl,
    Decl.toDataAll (Decl.exportedAll ds) = Decl.toDataAll ds
  | [] => rfl
  | d :: ds => by
    simp [Decl.exportedAll, Decl.toDataAll, d.toData_exported, Decl.toDataAll_exported ds]

end

mutual

theorem Cmd.toData_exported : ∀ c : Cmd, c.exported.toData = c.toData
  | .assign _ _ x => by simp [Cmd.exported, Cmd.toData, Ident.exported, x.toData_exported]
  | .call _ _ a => by simp [Cmd.exported, Cmd.toData, Ident.exported, a.toData_exported]
  | .seq _ cs => by simp [Cmd.exported, Cmd.toData, Cmd.toDataAll_exported cs]
  | .block _ body _ => by simp [Cmd.exported, Cmd.toData, body.toData_exported]
  | .ifElse _ cond yes no => by
    simp [Cmd.exported, Cmd.toData, cond.toData_exported, yes.toData_exported, no.toData_exported]
  | .ifEither _ cond alt yes no => by
    simp [Cmd.exported, Cmd.toData, cond.toData_exported, alt.toData_exported,
      yes.toData_exported, no.toData_exported]
  | .whileDo _ cond body => by
    simp [Cmd.exported, Cmd.toData, cond.toData_exported, body.toData_exported]
  | .letIn _ d body => by
    simp [Cmd.exported, Cmd.toData, d.toData_exported, body.toData_exported]
  | .skip .. | .bad _ => by simp [Cmd.exported, Cmd.toData]

theorem Cmd.toDataAll_exported : ∀ cs : List Cmd,
    Cmd.toDataAll (Cmd.exportedAll cs) = Cmd.toDataAll cs
  | [] => rfl
  | c :: cs => by
    simp [Cmd.exportedAll, Cmd.toDataAll, c.toData_exported, Cmd.toDataAll_exported cs]

end

/-- What is taken out of a tree is not in its export. -/
theorem Program.toData_exported (p : Program) : p.exported.toData = p.toData := by
  simp [Program.exported, Program.toData, p.body.toData_exported]

end Kept

namespace Data

/-- The fields of a record. -/
def fields : Data → List (String × Data)
  | record fs => fs
  | _ => []

theorem mem_insertField {f g : String × Data} {fs : List (String × Data)} :
    g ∈ insertField f fs ↔ g = f ∨ g ∈ fs := by
  induction fs with
  | nil => simp [insertField]
  | cons h fs ih =>
    rw [insertField]
    split
    · simp
    · simp [ih, or_left_comm]

theorem mem_sortFields {f : String × Data} {fs : List (String × Data)} :
    f ∈ sortFields fs ↔ f ∈ fs := by
  induction fs with
  | nil => simp [sortFields]
  | cons g fs ih => simpa [sortFields, mem_insertField] using or_congr_right ih

@[simp] theorem mem_fields_ofFields {f : String × Data} {fs : List (String × Data)} :
    f ∈ (ofFields fs).fields ↔ f ∈ fs :=
  mem_sortFields

/-- Records that are equal have the same parts. -/
theorem part_iff {d e : Data} (same : d = e) (key : String) (v : Data) :
    (key, v) ∈ d.fields ↔ (key, v) ∈ e.fields := by
  rw [same]

end Data

namespace Pos

/-- The position is a place in the text of this name. -/
def IsIn (file : String) (p : Pos) : Prop :=
  p.file = file ∧ p.isValid = true

theorem not_isIn_none {file : String} : ¬ Pos.none.IsIn file :=
  fun inside => absurd inside.2 (by decide)

theorem splitOn_line_col (l c : Int) :
    (toString l ++ ":" ++ toString c).toList.splitOn ':' =
      [(toString l).toList, (toString c).toList] := by
  have absent : ∀ n : Int, ':' ∉ (toString n).toList :=
    fun _ => Text.notMem_toString (by decide) (by decide)
  rw [String.toList_append, String.toList_append, List.append_assoc,
    show ":".toList = [':'] from rfl, List.singleton_append,
    List.splitOn_append_cons_self_of_not_mem (absent l),
    List.splitOn_eq_singleton (absent c)]

/-- In one text, how a position is written tells where it is. -/
theorem IsIn.render_inj {file : String} {p q : Pos} (here : p.IsIn file) (there : q.IsIn file)
    (same : p.render = q.render) : p = q := by
  obtain ⟨rfl, valid⟩ := here
  obtain ⟨f, l, c⟩ := p
  obtain ⟨f', l', c'⟩ := q
  obtain ⟨rfl, valid'⟩ := there
  have inside : toString l ++ ":" ++ toString c = toString l' ++ ":" ++ toString c' := by
    simp only [render, valid, valid', Bool.not_true, Bool.false_eq_true, if_false] at same
    split at same
    · exact same
    · simpa only [String.append_assoc, String.append_right_inj] using same
  have parts : [(toString l).toList, (toString c).toList] =
      [(toString l').toList, (toString c').toList] := by
    rw [← splitOn_line_col, inside, splitOn_line_col]
  simp only [List.cons.injEq, String.toList_inj, and_true] at parts
  rw [Text.toString_int_injective parts.1, Text.toString_int_injective parts.2]

end Pos

/-- The node starts at a place in the text of this name. -/
def Node.IsIn (file : String) (n : Node) : Prop := n.pos.IsIn file

theorem Ty.name_injective : Function.Injective Ty.name := by
  intro s t same
  cases s <;> cases t <;> first | rfl | simp [Ty.name] at same

namespace Storage

theorem Kind.name_injective : Function.Injective Kind.name := by
  intro s t same
  have first := congrArg (fun s => s.toList.head?) same
  cases s with
  | other code =>
    cases t with
    | other code' =>
      simp only [Kind.name, String.append_left_inj, String.append_right_inj] at same
      rw [Text.toString_int_injective same]
    | _ => simp [Kind.name] at first
  | _ => cases t <;> first | rfl | simp [Kind.name] at same first

end Storage

namespace Export

@[simp] theorem mem_basic {sort key : String} {pos : Pos} {v : Data} :
    (key, v) ∈ basic sort pos ↔
      key = "type" ∧ v = .text sort ∨ key = "pos" ∧ v = .text pos.render := by
  simp [basic]

@[simp] theorem mem_tyField {ty : Option Ty} {key : String} {v : Data} :
    (key, v) ∈ tyField ty ↔ key = "typ" ∧ ty.map (Data.text ·.name) = some v := by
  cases ty <;> simp [tyField, eq_comm]

@[simp] theorem mem_entityFields {ty : Option Ty} {storage : Option Storage} {key : String}
    {v : Data} :
    (key, v) ∈ entityFields ty storage ↔
      key = "typ" ∧ ty.map (Data.text ·.name) = some v ∨
        key = "storage" ∧ storage.map storageData = some v := by
  cases storage <;> simp [entityFields, eq_comm]

/-- A type that may be missing is told by its field. -/
theorem ty_inj {s t : Option Ty} (same : ∀ v,
    s.map (Data.text ·.name) = some v ↔ t.map (Data.text ·.name) = some v) : s = t := by
  refine Option.map_injective ?_ (Option.ext same)
  intro s t same
  exact Ty.name_injective (Data.text.inj same)

theorem storageData_injective : Function.Injective storageData := by
  intro s t same
  have kind : s.kind.name = t.kind.name := by
    simpa [storageData] using Data.part_iff same "kind" (.text s.kind.name)
  have level : s.level = t.level := by
    simpa [storageData] using Data.part_iff same "level" (.int s.level)
  have offset : s.offset = t.offset := by
    simpa [storageData] using Data.part_iff same "offset" (.int s.offset)
  have size : s.size = t.size := by
    simpa [storageData] using Data.part_iff same "size" (.int s.size)
  have value : s.value = t.value := by
    simpa [storageData] using Data.part_iff same "value" (.int s.value)
  rcases s
  rcases t
  simp_all [Storage.Kind.name_injective.eq_iff]

/-- A descriptor that may be missing is told by its field. -/
theorem storage_inj {s t : Option Storage} (same : ∀ v,
    s.map storageData = some v ↔ t.map storageData = some v) : s = t :=
  Option.map_injective storageData_injective (Option.ext same)

end Export

section Heads

/-- The record is that of a node of this sort at this place. -/
def Data.IsNode (d : Data) (sort : String) (pos : Pos) : Prop :=
  ∀ v, (("type", v) ∈ d.fields ↔ v = .text sort) ∧ (("pos", v) ∈ d.fields ↔ v = .text pos.render)

variable {file : String}

/-- In one text, a record is that of one sort of node at one place. -/
theorem Data.IsNode.unique {d : Data} {s t : String} {p q : Pos} (here : d.IsNode s p)
    (there : d.IsNode t q) (inside : p.IsIn file) (inside' : q.IsIn file) : s = t ∧ p = q := by
  have sort := (there (.text s)).1.1 ((here (.text s)).1.2 rfl)
  have place := (there (.text p.render)).2.1 ((here (.text p.render)).2.2 rfl)
  exact ⟨Data.text.inj sort, inside.render_inj inside' (Data.text.inj place)⟩

theorem Expr.isNode (x : Expr) : x.toData.IsNode x.nodeName x.pos := by
  intro v
  cases x <;> simp [Expr.toData, Expr.nodeName, Expr.pos]

theorem Expr.mem_typ {x : Expr} {v : Data} :
    ("typ", v) ∈ x.toData.fields ↔ x.ty.map (Data.text ·.name) = some v := by
  cases x <;> simp [Expr.toData, Expr.ty]

theorem Arg.isNode (a : Arg) : a.toData.IsNode a.nodeName a.pos := by
  intro v
  cases a <;> simp [Arg.toData, Arg.nodeName, Arg.pos]

/-- A built-in declaration, which has no record of its own, is in no text. -/
theorem Decl.isNode {d : Decl} (inside : d.pos.IsIn file) :
    d.toData.IsNode d.nodeName d.pos := by
  intro v
  cases d with
  | builtin b => exact absurd inside Pos.not_isIn_none
  | _ => simp [Decl.toData, Decl.nodeName, Decl.pos]

theorem Cmd.isNode (c : Cmd) : c.toData.IsNode c.nodeName c.pos := by
  intro v
  cases c <;> simp [Cmd.toData, Cmd.nodeName, Cmd.pos]

theorem Expr.All.isIn {x : Expr} (all : x.All (Node.IsIn file)) : x.pos.IsIn file := by
  refine all (.expr x) ?_
  unfold Expr.walk
  exact List.mem_cons_self

theorem Arg.All.isIn {a : Arg} (all : a.All (Node.IsIn file)) : a.pos.IsIn file := by
  refine all (.arg a) ?_
  unfold Arg.walk
  exact List.mem_cons_self

theorem Decl.All.isIn {d : Decl} (all : d.All (Node.IsIn file)) : d.pos.IsIn file := by
  refine all (.decl d) ?_
  unfold Decl.walk
  exact List.mem_cons_self

theorem Cmd.All.isIn {c : Cmd} (all : c.All (Node.IsIn file)) : c.pos.IsIn file := by
  refine all (.cmd c) ?_
  unfold Cmd.walk
  exact List.mem_cons_self

theorem Expr.head_eq {x y : Expr} (here : x.All (Node.IsIn file))
    (there : y.All (Node.IsIn file)) (same : x.toData = y.toData) :
    x.nodeName = y.nodeName ∧ x.pos = y.pos ∧ x.ty = y.ty := by
  obtain ⟨sort, place⟩ := x.isNode.unique (same ▸ y.isNode) here.isIn
    there.isIn
  refine ⟨sort, place, Export.ty_inj fun v => ?_⟩
  rw [← Expr.mem_typ, same, Expr.mem_typ]

theorem Arg.head_eq {a b : Arg} (here : a.All (Node.IsIn file))
    (there : b.All (Node.IsIn file)) (same : a.toData = b.toData) :
    a.nodeName = b.nodeName ∧ a.pos = b.pos :=
  a.isNode.unique (same ▸ b.isNode) here.isIn there.isIn

theorem Decl.head_eq {d e : Decl} (here : d.All (Node.IsIn file))
    (there : e.All (Node.IsIn file)) (same : d.toData = e.toData) :
    d.nodeName = e.nodeName ∧ d.pos = e.pos :=
  (Decl.isNode here.isIn).unique (same ▸ Decl.isNode there.isIn) here.isIn there.isIn

theorem Cmd.head_eq {c d : Cmd} (here : c.All (Node.IsIn file))
    (there : d.All (Node.IsIn file)) (same : c.toData = d.toData) :
    c.nodeName = d.nodeName ∧ c.pos = d.pos :=
  c.isNode.unique (same ▸ d.isNode) here.isIn there.isIn

end Heads

section Told

variable {file : String}

-- The sorts of two nodes agree, which leaves one constructor for the second; what the record has
-- under each key then tells the parts.
mutual

theorem Expr.exported_eq : ∀ x y : Expr, x.All (Node.IsIn file) →
    y.All (Node.IsIn file) → x.toData = y.toData → x.exported = y.exported
  | .int pos ty lit, y, here, there, same => by
    obtain ⟨sort, place, type⟩ := Expr.head_eq here there same
    cases y with
    | int pos' ty' lit' =>
      obtain ⟨rfl, rfl⟩ : pos = pos' ∧ ty = ty' := ⟨place, type⟩
      have spelling : lit.spelling = lit'.spelling := by
        simpa [Expr.toData] using Data.part_iff same "value" (.text lit.spelling)
      simp [Expr.exported, Literal.exported, spelling]
    | _ => simp [Expr.nodeName] at sort
  | .char pos ty lit, y, here, there, same => by
    obtain ⟨sort, place, type⟩ := Expr.head_eq here there same
    cases y with
    | char pos' ty' lit' =>
      obtain ⟨rfl, rfl⟩ : pos = pos' ∧ ty = ty' := ⟨place, type⟩
      have spelling : lit.spelling = lit'.spelling := by
        simpa [Expr.toData] using Data.part_iff same "value" (.text lit.spelling)
      simp [Expr.exported, Literal.exported, spelling]
    | _ => simp [Expr.nodeName] at sort
  | .name pos ty id, y, here, there, same => by
    obtain ⟨sort, place, type⟩ := Expr.head_eq here there same
    cases y with
    | name pos' ty' id' =>
      obtain ⟨rfl, rfl⟩ : pos = pos' ∧ ty = ty' := ⟨place, type⟩
      have name : id.name = id'.name := by
        simpa [Expr.toData] using Data.part_iff same "name" (.text id.name)
      simp [Expr.exported, Ident.exported, name]
    | _ => simp [Expr.nodeName] at sort
  | .unary pos ty op x, y, here, there, same => by
    obtain ⟨sort, place, type⟩ := Expr.head_eq here there same
    cases y with
    | unary pos' ty' op' x' =>
      obtain ⟨rfl, rfl⟩ : pos = pos' ∧ ty = ty' := ⟨place, type⟩
      have symbol : op.symbol = op'.symbol := by
        simpa [Expr.toData] using Data.part_iff same "op" (.text op.symbol)
      have operand : x.toData = x'.toData := by
        simpa [Expr.toData] using Data.part_iff same "x" x.toData
      simp only [Expr.all_unary] at here there
      simp [Expr.exported, OpName.exported, symbol, x.exported_eq x' here.2.2 there.2.2 operand]
    | _ => simp [Expr.nodeName] at sort
  | .binary pos ty x op z, y, here, there, same => by
    obtain ⟨sort, place, type⟩ := Expr.head_eq here there same
    cases y with
    | binary pos' ty' x' op' z' =>
      obtain ⟨rfl, rfl⟩ : pos = pos' ∧ ty = ty' := ⟨place, type⟩
      have symbol : op.symbol = op'.symbol := by
        simpa [Expr.toData] using Data.part_iff same "op" (.text op.symbol)
      have left : x.toData = x'.toData := by
        simpa [Expr.toData] using Data.part_iff same "x" x.toData
      have right : z.toData = z'.toData := by
        simpa [Expr.toData] using Data.part_iff same "y" z.toData
      simp only [Expr.all_binary] at here there
      simp [Expr.exported, OpName.exported, symbol, x.exported_eq x' here.2.1 there.2.1 left,
        z.exported_eq z' here.2.2.2 there.2.2.2 right]
    | _ => simp [Expr.nodeName] at sort
  | .call pos ty callee a, y, here, there, same => by
    obtain ⟨sort, place, type⟩ := Expr.head_eq here there same
    cases y with
    | call pos' ty' callee' a' =>
      obtain ⟨rfl, rfl⟩ : pos = pos' ∧ ty = ty' := ⟨place, type⟩
      have name : callee.name = callee'.name := by
        simpa [Expr.toData] using Data.part_iff same "name" (.text callee.name)
      have arg : a.toData = a'.toData := by
        simpa [Expr.toData] using Data.part_iff same "arg" a.toData
      simp only [Expr.all_call] at here there
      simp [Expr.exported, Ident.exported, name, a.exported_eq a' here.2.2 there.2.2 arg]
    | _ => simp [Expr.nodeName] at sort
  | .bad pos ty, y, here, there, same => by
    obtain ⟨sort, place, type⟩ := Expr.head_eq here there same
    cases y with
    | bad pos' ty' =>
      obtain ⟨rfl, rfl⟩ : pos = pos' ∧ ty = ty' := ⟨place, type⟩
      rfl
    | _ => simp [Expr.nodeName] at sort

theorem Arg.exported_eq : ∀ a b : Arg, a.All (Node.IsIn file) →
    b.All (Node.IsIn file) → a.toData = b.toData → a.exported = b.exported
  | .value pos x, b, here, there, same => by
    obtain ⟨sort, place⟩ := Arg.head_eq here there same
    cases b with
    | value pos' x' =>
      obtain rfl : pos = pos' := place
      have value : x.toData = x'.toData := by
        simpa [Arg.toData] using Data.part_iff same "x" x.toData
      simp only [Arg.all_value] at here there
      simp [Arg.exported, x.exported_eq x' here.2 there.2 value]
    | _ => simp [Arg.nodeName] at sort
  | .var pos id, b, here, there, same => by
    obtain ⟨sort, place⟩ := Arg.head_eq here there same
    cases b with
    | var pos' id' =>
      obtain rfl : pos = pos' := place
      have name : id.name = id'.name := by
        simpa [Arg.toData] using Data.part_iff same "name" (.text id.name)
      simp [Arg.exported, Ident.exported, name]
    | _ => simp [Arg.nodeName] at sort
  | .blank pos, b, here, there, same => by
    obtain ⟨sort, place⟩ := Arg.head_eq here there same
    cases b with
    | blank pos' => exact congrArg Arg.blank place
    | _ => simp [Arg.nodeName] at sort
  | .bad pos, b, here, there, same => by
    obtain ⟨sort, place⟩ := Arg.head_eq here there same
    cases b with
    | bad pos' => exact congrArg Arg.bad place
    | _ => simp [Arg.nodeName] at sort

end

mutual

theorem Decl.exported_eq : ∀ d e : Decl, d.All (Node.IsIn file) →
    e.All (Node.IsIn file) → d.toData = e.toData → d.exported = e.exported
  | .const pos ty storage id x, e, here, there, same => by
    obtain ⟨sort, place⟩ := Decl.head_eq here there same
    cases e with
    | const pos' ty' storage' id' x' =>
      obtain rfl : pos = pos' := place
      obtain rfl : ty = ty' :=
        Export.ty_inj fun v => by simpa [Decl.toData] using Data.part_iff same "typ" v
      obtain rfl : storage = storage' :=
        Export.storage_inj fun v => by simpa [Decl.toData] using Data.part_iff same "storage" v
      have name : id.name = id'.name := by
        simpa [Decl.toData] using Data.part_iff same "name" (.text id.name)
      have value : x.toData = x'.toData := by
        simpa [Decl.toData] using Data.part_iff same "value" x.toData
      simp only [Decl.all_const] at here there
      simp [Decl.exported, Ident.exported, name, x.exported_eq x' here.2.2 there.2.2 value]
    | builtin b => exact absurd there.isIn Pos.not_isIn_none
    | _ => simp [Decl.nodeName] at sort
  | .var pos ty storage id typeName, e, here, there, same => by
    obtain ⟨sort, place⟩ := Decl.head_eq here there same
    cases e with
    | var pos' ty' storage' id' typeName' =>
      obtain rfl : pos = pos' := place
      obtain rfl : ty = ty' :=
        Export.ty_inj fun v => by simpa [Decl.toData] using Data.part_iff same "typ" v
      obtain rfl : storage = storage' :=
        Export.storage_inj fun v => by simpa [Decl.toData] using Data.part_iff same "storage" v
      have name : id.name = id'.name := by
        simpa [Decl.toData] using Data.part_iff same "name" (.text id.name)
      have type : typeName.name = typeName'.name := by
        simpa [Decl.toData] using Data.part_iff same "vartype" (.text typeName.name)
      simp [Decl.exported, Ident.exported, name, type]
    | builtin b => exact absurd there.isIn Pos.not_isIn_none
    | _ => simp [Decl.nodeName] at sort
  | .seq pos ds, e, here, there, same => by
    obtain ⟨sort, place⟩ := Decl.head_eq here there same
    cases e with
    | seq pos' es =>
      obtain rfl : pos = pos' := place
      have parts : Decl.toDataAll ds = Decl.toDataAll es := by
        simpa [Decl.toData] using Data.part_iff same "list" (.list (Decl.toDataAll ds))
      simp only [Decl.all_seq] at here there
      simp [Decl.exported, Decl.exportedAll_eq ds es here.2 there.2 parts]
    | builtin b => exact absurd there.isIn Pos.not_isIn_none
    | _ => simp [Decl.nodeName] at sort
  | .bad pos, e, here, there, same => by
    obtain ⟨sort, place⟩ := Decl.head_eq here there same
    cases e with
    | bad pos' => exact congrArg Decl.bad place
    | builtin b => exact absurd there.isIn Pos.not_isIn_none
    | _ => simp [Decl.nodeName] at sort
  | .builtin _, _, here, _, _ => absurd here.isIn Pos.not_isIn_none

theorem Decl.exportedAll_eq : ∀ ds es : List Decl, (∀ d ∈ ds, d.All (Node.IsIn file)) →
    (∀ e ∈ es, e.All (Node.IsIn file)) → Decl.toDataAll ds = Decl.toDataAll es →
      Decl.exportedAll ds = Decl.exportedAll es
  | [], [], _, _, _ => rfl
  | [], _ :: _, _, _, same | _ :: _, [], _, _, same => by simp [Decl.toDataAll] at same
  | d :: ds, e :: es, here, there, same => by
    rw [List.forall_mem_cons] at here there
    obtain ⟨first, rest⟩ := List.cons.inj same
    rw [Decl.exportedAll, Decl.exportedAll, d.exported_eq e here.1 there.1 first,
      Decl.exportedAll_eq ds es here.2 there.2 rest]

end

mutual

theorem Cmd.exported_eq : ∀ c d : Cmd, c.All (Node.IsIn file) →
    d.All (Node.IsIn file) → c.toData = d.toData → c.exported = d.exported
  | .assign pos target x, d, here, there, same => by
    obtain ⟨sort, place⟩ := Cmd.head_eq here there same
    cases d with
    | assign pos' target' x' =>
      obtain rfl : pos = pos' := place
      have name : target.name = target'.name := by
        simpa [Cmd.toData] using Data.part_iff same "name" (.text target.name)
      have value : x.toData = x'.toData := by
        simpa [Cmd.toData] using Data.part_iff same "value" x.toData
      simp only [Cmd.all_assign] at here there
      simp [Cmd.exported, Ident.exported, name, x.exported_eq x' here.2.2 there.2.2 value]
    | _ => simp [Cmd.nodeName] at sort
  | .call pos callee a, d, here, there, same => by
    obtain ⟨sort, place⟩ := Cmd.head_eq here there same
    cases d with
    | call pos' callee' a' =>
      obtain rfl : pos = pos' := place
      have name : callee.name = callee'.name := by
        simpa [Cmd.toData] using Data.part_iff same "name" (.text callee.name)
      have arg : a.toData = a'.toData := by
        simpa [Cmd.toData] using Data.part_iff same "arg" a.toData
      simp only [Cmd.all_call] at here there
      simp [Cmd.exported, Ident.exported, name, a.exported_eq a' here.2.2 there.2.2 arg]
    | _ => simp [Cmd.nodeName] at sort
  | .seq pos cs, d, here, there, same => by
    obtain ⟨sort, place⟩ := Cmd.head_eq here there same
    cases d with
    | seq pos' ds =>
      obtain rfl : pos = pos' := place
      have parts : Cmd.toDataAll cs = Cmd.toDataAll ds := by
        simpa [Cmd.toData] using Data.part_iff same "list" (.list (Cmd.toDataAll cs))
      simp only [Cmd.all_seq] at here there
      simp [Cmd.exported, Cmd.exportedAll_eq cs ds here.2 there.2 parts]
    | _ => simp [Cmd.nodeName] at sort
  | .block pos body close, d, here, there, same => by
    obtain ⟨sort, place⟩ := Cmd.head_eq here there same
    cases d with
    | block pos' body' close' =>
      obtain rfl : pos = pos' := place
      have inside : body.toData = body'.toData := by
        simpa [Cmd.toData] using Data.part_iff same "body" body.toData
      simp only [Cmd.all_block] at here there
      simp [Cmd.exported, body.exported_eq body' here.2 there.2 inside]
    | _ => simp [Cmd.nodeName] at sort
  | .ifElse pos cond yes no, d, here, there, same => by
    obtain ⟨sort, place⟩ := Cmd.head_eq here there same
    cases d with
    | ifElse pos' cond' yes' no' =>
      obtain rfl : pos = pos' := place
      have test : cond.toData = cond'.toData := by
        simpa [Cmd.toData] using Data.part_iff same "cond" cond.toData
      have first : yes.toData = yes'.toData := by
        simpa [Cmd.toData] using Data.part_iff same "then" yes.toData
      have second : no.toData = no'.toData := by
        simpa [Cmd.toData] using Data.part_iff same "else" no.toData
      simp only [Cmd.all_ifElse] at here there
      obtain ⟨-, hereCond, hereYes, hereNo⟩ := here
      obtain ⟨-, thereCond, thereYes, thereNo⟩ := there
      simp [Cmd.exported, cond.exported_eq cond' hereCond thereCond test,
        yes.exported_eq yes' hereYes thereYes first, no.exported_eq no' hereNo thereNo second]
    | _ => simp [Cmd.nodeName] at sort
  | .ifEither pos cond alt yes no, d, here, there, same => by
    obtain ⟨sort, place⟩ := Cmd.head_eq here there same
    cases d with
    | ifEither pos' cond' alt' yes' no' =>
      obtain rfl : pos = pos' := place
      have test : cond.toData = cond'.toData := by
        simpa [Cmd.toData] using Data.part_iff same "cond" cond.toData
      have other : alt.toData = alt'.toData := by
        simpa [Cmd.toData] using Data.part_iff same "or" alt.toData
      have first : yes.toData = yes'.toData := by
        simpa [Cmd.toData] using Data.part_iff same "then" yes.toData
      have second : no.toData = no'.toData := by
        simpa [Cmd.toData] using Data.part_iff same "else" no.toData
      simp only [Cmd.all_ifEither] at here there
      obtain ⟨-, hereCond, hereAlt, hereYes, hereNo⟩ := here
      obtain ⟨-, thereCond, thereAlt, thereYes, thereNo⟩ := there
      simp [Cmd.exported, cond.exported_eq cond' hereCond thereCond test,
        alt.exported_eq alt' hereAlt thereAlt other, yes.exported_eq yes' hereYes thereYes first,
        no.exported_eq no' hereNo thereNo second]
    | _ => simp [Cmd.nodeName] at sort
  | .whileDo pos cond body, d, here, there, same => by
    obtain ⟨sort, place⟩ := Cmd.head_eq here there same
    cases d with
    | whileDo pos' cond' body' =>
      obtain rfl : pos = pos' := place
      have test : cond.toData = cond'.toData := by
        simpa [Cmd.toData] using Data.part_iff same "cond" cond.toData
      have inside : body.toData = body'.toData := by
        simpa [Cmd.toData] using Data.part_iff same "body" body.toData
      simp only [Cmd.all_whileDo] at here there
      simp [Cmd.exported, cond.exported_eq cond' here.2.1 there.2.1 test,
        body.exported_eq body' here.2.2 there.2.2 inside]
    | _ => simp [Cmd.nodeName] at sort
  | .letIn pos decl body, d, here, there, same => by
    obtain ⟨sort, place⟩ := Cmd.head_eq here there same
    cases d with
    | letIn pos' decl' body' =>
      obtain rfl : pos = pos' := place
      have declared : decl.toData = decl'.toData := by
        simpa [Cmd.toData] using Data.part_iff same "decl" decl.toData
      have inside : body.toData = body'.toData := by
        simpa [Cmd.toData] using Data.part_iff same "body" body.toData
      simp only [Cmd.all_letIn] at here there
      simp [Cmd.exported, decl.exported_eq decl' here.2.1 there.2.1 declared,
        body.exported_eq body' here.2.2 there.2.2 inside]
    | _ => simp [Cmd.nodeName] at sort
  | .skip pos explicit, d, here, there, same => by
    obtain ⟨sort, place⟩ := Cmd.head_eq here there same
    cases d with
    | skip pos' explicit' =>
      obtain rfl : pos = pos' := place
      have flag : explicit = explicit' := by
        simpa [Cmd.toData] using Data.part_iff same "explicit" (.bool explicit)
      rw [flag]
    | _ => simp [Cmd.nodeName] at sort
  | .bad pos, d, here, there, same => by
    obtain ⟨sort, place⟩ := Cmd.head_eq here there same
    cases d with
    | bad pos' => exact congrArg Cmd.bad place
    | _ => simp [Cmd.nodeName] at sort

theorem Cmd.exportedAll_eq : ∀ cs ds : List Cmd, (∀ c ∈ cs, c.All (Node.IsIn file)) →
    (∀ d ∈ ds, d.All (Node.IsIn file)) → Cmd.toDataAll cs = Cmd.toDataAll ds →
      Cmd.exportedAll cs = Cmd.exportedAll ds
  | [], [], _, _, _ => rfl
  | [], _ :: _, _, _, same | _ :: _, [], _, _, same => by simp [Cmd.toDataAll] at same
  | c :: cs, d :: ds, here, there, same => by
    rw [List.forall_mem_cons] at here there
    obtain ⟨first, rest⟩ := List.cons.inj same
    rw [Cmd.exportedAll, Cmd.exportedAll, c.exported_eq d here.1 there.1 first,
      Cmd.exportedAll_eq cs ds here.2 there.2 rest]

end

/-- Trees with positions in one text have the same export exactly if they are the same up to what
is not exported. -/
theorem Program.toData_eq_iff {p q : Program} (here : p.All (Node.IsIn file))
    (there : q.All (Node.IsIn file)) : p.toData = q.toData ↔ p.exported = q.exported := by
  constructor
  · intro same
    obtain ⟨inside, here⟩ := Program.all_iff.1 here
    obtain ⟨inside', there⟩ := Program.all_iff.1 there
    have place : p.pos.render = q.pos.render := by
      simpa [Program.toData] using Data.part_iff same "pos" (.text p.pos.render)
    have body : p.body.toData = q.body.toData := by
      simpa [Program.toData] using Data.part_iff same "cmd" p.body.toData
    have start : p.pos = q.pos := Pos.IsIn.render_inj inside inside' place
    rw [Program.exported, Program.exported, start, p.body.exported_eq q.body here there body]
  · intro same
    rw [← p.toData_exported, same, q.toData_exported]

end Told

end TriangleTam

import TriangleTam.Proofs.Check.Places

/-!
# What checking fills in

Checking gives every expression a type and every declaration a type and storage, whatever it finds
wrong. Where it finds nothing wrong, every name is resolved, to something that goes with the place
where the name stands, and every type is that of data. Main statements: `Check.cmd_annotated`,
`Check.cmd_resolved` and `Program.check_annotates` on the programs of texts.
-/

namespace TriangleTam

/-- Whether the name means a variable. -/
def Ident.isVariable (id : Ident) : Bool :=
  id.meaning.any Meaning.isVariable

/-- Whether the name means a routine that an actual parameter of this form can be passed to. -/
def Ident.canTake (callee : Ident) (a : Arg) : Bool :=
  match callee.meaning, a with
  | some (.builtin (.func _ params _ _)), .blank _ => params.isEmpty
  | some (.builtin (.func _ [formal] _ _)), .value .. => !formal.byRef
  | some (.builtin (.func _ [formal] _ _)), .var .. => formal.byRef
  | _, _ => false

/-- Whether the operator means one on one operand. -/
def OpName.isUnary (op : OpName) : Bool :=
  match op.meaning with
  | some (.builtin (.unary ..)) => true
  | _ => false

/-- Whether the operator means one between two operands. -/
def OpName.isBinary (op : OpName) : Bool :=
  match op.meaning with
  | some (.builtin (.binary ..)) => true
  | _ => false

namespace Node

/-- Whether the type and storage that the node should have are filled in. -/
@[simp] def isAnnotated : Node → Bool
  | expr x => x.ty.isSome
  | decl (.const _ ty storage _ _) | decl (.var _ ty storage _ _) => ty.isSome && storage.isSome
  | _ => true

/-- Whether the names of the node are resolved as they must be for code to be generated, its type
is one of data and its storage a single word, or a value that is known. -/
@[simp] def isResolved : Node → Bool
  | ident id => id.meaning.isSome
  | op o => o.meaning.isSome
  | expr (.unary _ ty o _) => ty.any Ty.isData && o.isUnary
  | expr (.binary _ ty _ o _) => ty.any Ty.isData && o.isBinary
  | expr (.call _ ty callee a) => ty.any Ty.isData && callee.canTake a
  | expr x => x.ty.any Ty.isData
  | arg (.var _ id) => id.isVariable
  | decl (.const _ ty storage _ _) => ty.any Ty.isData &&
    storage.any fun s => s.size == 1 && (s.kind == .knownValue || s.kind == .unknownValue)
  | decl (.var _ ty storage _ _) => ty.any Ty.isData &&
    storage.any fun s => s.size == 1 && s.kind == .knownAddress
  | cmd (.assign _ target _) => target.isVariable
  | cmd (.call _ callee a) => callee.canTake a
  | _ => true

end Node

namespace Check

open Typing

section Annotated

mutual

theorem expr_annotated (env : Env) : ∀ x : Expr,
    (expr env x).value.All fun n => n.isAnnotated = true
  | .int .. | .char .. | .name .. | .bad .. => by simp [expr, Expr.ty]
  | .unary pos ty op x => by simpa [expr, Expr.ty] using expr_annotated env x
  | .binary pos ty x op y => by
    simpa [expr, Expr.ty] using ⟨expr_annotated env x, expr_annotated env y⟩
  | .call pos ty callee a => by simpa [expr, Expr.ty] using arg_annotated env _ a

theorem arg_annotated (env : Env) (expected : Option Expected) : ∀ a : Arg,
    (arg env expected a).value.All fun n => n.isAnnotated = true
  | .value pos x => by simpa using expr_annotated env x
  | .var .. | .blank _ | .bad _ => by simp [arg]

end

mutual

theorem decl_annotated (site : Site) : ∀ (d : Decl) (block : Block),
    (decl site block d).value.1.All fun n => n.isAnnotated = true
  | .const pos ty storage name x, block => by
    simpa [decl] using expr_annotated (site.env block) x
  | .seq pos ds, block => by simpa [decl] using decls_annotated site ds block
  | .var .., _ | .bad _, _ | .builtin _, _ => by simp [decl]

theorem decls_annotated (site : Site) : ∀ (ds : List Decl) (block : Block),
    ∀ d ∈ (decls site block ds).value.1, d.All fun n => n.isAnnotated = true
  | [], block => by simp [decls]
  | d :: ds, block => by
    simpa [decls] using
      ⟨decl_annotated site d block, decls_annotated site ds (decl site block d).value.2⟩

end

mutual

/-- Whatever is wrong with a command, checking leaves no type and no storage open. -/
theorem cmd_annotated : ∀ (c : Cmd) (p : Place),
    (cmd p c).value.All fun n => n.isAnnotated = true
  | .skip .., p | .bad _, p => by simp [cmd]
  | .assign pos target x, p => by
    rw [value_cmd_assign]
    simpa using expr_annotated p.env x
  | .call pos callee a, p => by
    rw [value_cmd_call]
    simpa using arg_annotated p.env _ a
  | .seq pos cs, p => by
    rw [value_cmd_seq]
    simpa using cmds_annotated cs p
  | .block pos body close, p => by
    rw [value_cmd_block]
    simpa using cmd_annotated body p.inBraces
  | .ifElse pos cond yes no, p => by
    rw [value_cmd_ifElse]
    simpa using ⟨expr_annotated p.env cond, cmd_annotated yes p, cmd_annotated no p⟩
  | .ifEither pos cond alt yes no, p => by
    rw [value_cmd_ifEither]
    simpa using ⟨expr_annotated p.env cond, expr_annotated p.env alt, cmd_annotated yes p,
      cmd_annotated no p⟩
  | .whileDo pos cond body, p => by
    rw [value_cmd_whileDo]
    simpa using ⟨expr_annotated p.env cond, cmd_annotated body p⟩
  | .letIn pos d body, p => by
    rw [value_cmd_letIn]
    simpa using ⟨decl_annotated p.letSite d ⟨letFrame, p.offset⟩,
      cmd_annotated body (p.enter (.letIn d))⟩

theorem cmds_annotated : ∀ (cs : List Cmd) (p : Place),
    ∀ c ∈ (cmds p cs).value, c.All fun n => n.isAnnotated = true
  | [], p => by simp [cmds]
  | c :: cs, p => by simpa [cmds] using ⟨cmd_annotated c p, cmds_annotated cs p⟩

end

end Annotated

section Resolved

variable {env : Env} {L : List Entity}

/-- A routine with formal parameters that an actual one goes with. -/
theorem canTake_of_passed {Γ : Context} {a : Arg} {params : List Formal} (h : Passed Γ a params)
    (callee : Ident) (name : String) (result : Ty) (prim : Machine.Primitive)
    (expected : Option Expected) :
    Ident.canTake { callee with meaning := some (.builtin (.func name params result prim)) }
      (arg env expected a).value = true := by
  cases h with
  | blank => simp [arg, Ident.canTake]
  | value typed => simp [Ident.canTake]
  | var found => simp [arg, Ident.canTake]

mutual

theorem expr_resolved (names : Scoped env.chain L) (typed : Typed L) : ∀ (x : Expr) {t : Ty},
    x.All (fun n => n.isError = false) → HasType (contextOf L) x t → t ≠ .void →
      (expr env x).value.All fun n => n.isResolved = true
  | .int .., _, _, _, _ | .char .., _, _, _, _ => by simp [expr, Expr.ty, Ty.isData]
  | .name pos ty id, t, complete, h, value => by
    have present : id.name ≠ "" := by simpa using complete
    obtain ⟨m, found, ht⟩ := exists_meaning_of_hasType h
    have data := isData_of_ne (hasType_ne_any typed h) value
    rw [value_name names present found ht]
    simpa [Expr.ty] using data
  | .unary pos ty op x, t, complete, h, _ => by
    have complete := (Expr.all_unary.1 complete).2.2
    cases h with
    | unary found operand =>
      rw [denotes_eq_builtin_iff] at found
      obtain ⟨data, data'⟩ := unary_data found
      have inner := expr_resolved names typed x complete operand (Ty.ne_void_of_isData data)
      rw [value_unary names found]
      simpa [data', OpName.isUnary] using inner
  | .binary pos ty x op y, t, complete, h, _ => by
    obtain ⟨-, left, -, right⟩ := Expr.all_binary.1 complete
    cases h with
    | binary found operand operand' =>
      rw [denotes_eq_builtin_iff] at found
      obtain ⟨kinds, data⟩ := binary_data found
      rcases kinds with ⟨rfl, -⟩ | ⟨data', data''⟩
      · exact absurd rfl (hasType_ne_any typed operand)
      · have first := expr_resolved names typed x left operand (Ty.ne_void_of_isData data')
        have second := expr_resolved names typed y right operand' (Ty.ne_void_of_isData data'')
        rw [value_binary names found]
        simpa [data, OpName.isBinary] using ⟨first, second⟩
    | same found operand operand' value =>
      rw [denotes_eq_builtin_iff] at found
      have first := expr_resolved names typed x left operand value
      have second := expr_resolved names typed y right operand' value
      rw [value_binary names found]
      simpa [(binary_data found).2, OpName.isBinary] using ⟨first, second⟩
  | .call pos ty callee a, t, complete, h, value => by
    obtain ⟨-, present, complete⟩ := Expr.all_call.1 complete
    replace present : callee.name ≠ "" := by simpa using present
    have data := isData_of_ne (hasType_ne_any typed h) value
    cases h with
    | call found passed =>
      rw [denotes_eq_builtin_iff] at found
      have inner expected := arg_resolved names typed a expected complete (params_data found) passed
      rw [value_call names present found (passed_count passed)]
      simpa [data, canTake_of_passed passed] using inner _
  | .bad .., _, complete, _, _ => by simp at complete

theorem arg_resolved (names : Scoped env.chain L) (typed : Typed L) : ∀ (a : Arg)
    {params : List Formal} (expected : Option Expected), a.All (fun n => n.isError = false) →
      (∀ p ∈ params, p.ty.isData = true) → Passed (contextOf L) a params →
      (arg env expected a).value.All fun n => n.isResolved = true
  | .value pos x, params, expected, complete, data, h => by
    have complete := (Arg.all_value.1 complete).2
    cases h with
    | @value _ _ t operand =>
      have value := Ty.ne_void_of_isData (data ⟨t, false⟩ (by simp))
      simpa using expr_resolved names typed x complete operand value
  | .var pos id, params, expected, complete, data, h => by
    have present : id.name ≠ "" := by simpa using complete
    cases h with
    | var found =>
      obtain ⟨e, meaning, kind, -⟩ := denotes_eq_entity_iff.1 found
      simp [arg, resolve_of_meaningIn names present meaning, Ident.isVariable,
        Meaning.isVariable, kind]
  | .blank _, _, _, _, _, _ => by simp [arg]
  | .bad _, _, _, complete, _, _ => by simp at complete

end

section Declarations

variable {site : Site}

theorem constStorage_single (site : Site) (block : Block) (x : Expr) {t : Ty}
    (data : t.isData = true) :
    (constStorage site block x t).value.1.size = 1 ∧
      ((constStorage site block x t).value.1.kind = .knownValue ∨
        (constStorage site block x t).value.1.kind = .unknownValue) := by
  unfold constStorage
  split
  · exact ⟨Ty.size_of_isData data, .inl rfl⟩
  · exact ⟨Ty.size_of_isData data, .inr rfl⟩

mutual

theorem decl_resolved : ∀ (d : Decl) {block : Block} {L : List Entity},
    d.All (fun n => n.isError = false) → Scoped (block.frame :: site.outer) L → Typed L →
      (decl site block d).Silent → (decl site block d).value.1.All fun n => n.isResolved = true
  | .const pos ty storage name x, block, L, complete, names, typed, silent => by
    obtain ⟨-, present, complete⟩ := Decl.all_const.1 complete
    obtain ⟨t, s, g, h, value, given, -, -, eq⟩ :=
      const_of_silent names typed (by simpa using present) complete silent
    have data := isData_of_ne (hasType_ne_any typed h) value
    have inside : Scoped (site.env block).chain L := names
    have inner := expr_resolved inside typed x complete h value
    obtain ⟨size, kind⟩ := constStorage_single site block (expr (site.env block) x).value data
    rw [given] at size kind
    rw [eq]
    simpa [data, size, kind] using inner
  | .var pos ty storage name typeName, block, L, complete, names, _, silent => by
    obtain ⟨-, present, present'⟩ := Decl.all_var.1 complete
    obtain ⟨t, s, g, found, given, -, -, eq⟩ :=
      var_of_silent names (by simpa using present) (by simpa using present') silent
    have data : t.isData = true := Builtin.isRegular_of_named? (named?_of_meaningIn found)
    rw [eq, ← given]
    simp [allocate, data, Ty.size_of_isData data]
  | .seq pos ds, block, L, complete, names, typed, silent => by
    have silent : (decls site block ds).Silent := by simpa [decl] using silent
    simpa [decl] using decls_resolved ds (Decl.all_seq.1 complete).2 names typed silent
  | .bad pos, _, _, complete, _, _, _ => by simp at complete
  | .builtin b, _, _, _, _, _, silent => by simp [decl] at silent

theorem decls_resolved : ∀ (ds : List Decl) {block : Block} {L : List Entity},
    (∀ d ∈ ds, d.All fun n => n.isError = false) → Scoped (block.frame :: site.outer) L →
      Typed L → (decls site block ds).Silent →
      ∀ d ∈ (decls site block ds).value.1, d.All fun n => n.isResolved = true
  | [], block, L, _, _, _, _ => by simp [decls]
  | d :: ds, block, L, complete, names, typed, silent => by
    simp only [decls, Checked.silent_bind] at silent
    obtain ⟨first, rest⟩ := List.forall_mem_cons.1 complete
    have declared := declared_of_silent d first names typed silent.1
    have here := decl_resolved d first names typed silent.1
    have behind := decls_resolved ds rest declared.names declared.typed silent.2.1
    simpa [decls] using ⟨here, behind⟩

end

end Declarations

mutual

/-- If nothing is wrong with a command, all its names are resolved as they must be. -/
theorem cmd_resolved : ∀ (c : Cmd) {p : Place} {L : List Entity},
    c.All (fun n => n.isError = false) → Scoped p.chain L → Typed L →
      WellTyped (contextOf L) c → (cmd p c).value.All fun n => n.isResolved = true
  | .skip .., p, L, _, _, _, _ => by simp [cmd]
  | .bad _, _, _, complete, _, _, _ => by simp at complete
  | .assign pos target x, p, L, complete, names, typed, h => by
    obtain ⟨-, present, complete⟩ := Cmd.all_assign.1 complete
    have inside : Scoped p.env.chain L := names
    cases h with
    | assign found value =>
      obtain ⟨e, meaning, kind, rfl⟩ := denotes_eq_entity_iff.1 found
      obtain ⟨t, ht, data⟩ := typed.of_meaningIn meaning
      rw [ht] at value
      have inner := expr_resolved inside typed x complete value (Ty.ne_void_of_isData data)
      rw [value_cmd_assign, resolve_of_meaningIn inside (by simpa using present) meaning]
      simpa [Ident.isVariable, Meaning.isVariable, kind] using inner
  | .call pos callee a, p, L, complete, names, typed, h => by
    obtain ⟨-, present, complete⟩ := Cmd.all_call.1 complete
    have inside : Scoped p.env.chain L := names
    cases h with
    | call found passed =>
      rw [denotes_eq_builtin_iff] at found
      have inner := arg_resolved inside typed a
        (routine p.env callee (isBlank a)).value.2.1 complete (params_data found) passed
      rw [value_cmd_call, resolve_of_meaningIn inside (by simpa using present) found]
      simpa [canTake_of_passed passed] using inner
  | .seq pos cs, p, L, complete, names, typed, h => by
    cases h with
    | seq all =>
      rw [value_cmd_seq]
      simpa using cmds_resolved cs (Cmd.all_seq.1 complete).2 names typed all
  | .block pos body close, p, L, complete, names, typed, h => by
    cases h with
    | block inner =>
      have names : Scoped p.inBraces.chain L := names.cons_empty "block"
      rw [value_cmd_block]
      simpa using cmd_resolved body (Cmd.all_block.1 complete).2 names typed inner
  | .ifElse pos cond yes no, p, L, complete, names, typed, h => by
    obtain ⟨-, completeCond, completeYes, completeNo⟩ := Cmd.all_ifElse.1 complete
    have inside : Scoped p.env.chain L := names
    cases h with
    | ifElse test first second =>
      rw [value_cmd_ifElse]
      simpa using ⟨expr_resolved inside typed cond completeCond test (by decide),
        cmd_resolved yes completeYes names typed first,
        cmd_resolved no completeNo names typed second⟩
  | .ifEither pos cond alt yes no, p, L, complete, names, typed, h => by
    obtain ⟨-, completeCond, completeAlt, completeYes, completeNo⟩ := Cmd.all_ifEither.1 complete
    have inside : Scoped p.env.chain L := names
    cases h with
    | ifEither test test' first second =>
      rw [value_cmd_ifEither]
      simpa using ⟨expr_resolved inside typed cond completeCond test (by decide),
        expr_resolved inside typed alt completeAlt test' (by decide),
        cmd_resolved yes completeYes names typed first,
        cmd_resolved no completeNo names typed second⟩
  | .whileDo pos cond body, p, L, complete, names, typed, h => by
    obtain ⟨-, completeCond, completeBody⟩ := Cmd.all_whileDo.1 complete
    have inside : Scoped p.env.chain L := names
    cases h with
    | whileDo test inner =>
      rw [value_cmd_whileDo]
      simpa using ⟨expr_resolved inside typed cond completeCond test (by decide),
        cmd_resolved body completeBody names typed inner⟩
  | .letIn pos d body, p, L, complete, names, typed, h => by
    obtain ⟨-, completeDecl, completeBody⟩ := Cmd.all_letIn.1 complete
    let block : Block := ⟨letFrame, p.offset⟩
    have names : Scoped (block.frame :: p.letSite.outer) L := names.cons_empty "let"
    cases h with
    | letIn declares distinct inner =>
      obtain ⟨silent, rfl⟩ := silent_of_declares d completeDecl names typed declares distinct
        (fun n _ => rfl)
      have declared := declared_of_silent d completeDecl names typed silent
      rw [value_cmd_letIn]
      simpa using ⟨decl_resolved d completeDecl names typed silent,
        cmd_resolved body (p := p.enter (.letIn d)) completeBody declared.names declared.typed
          inner⟩

theorem cmds_resolved : ∀ (cs : List Cmd) {p : Place} {L : List Entity},
    (∀ c ∈ cs, c.All fun n => n.isError = false) → Scoped p.chain L → Typed L →
      (∀ c ∈ cs, WellTyped (contextOf L) c) →
      ∀ c ∈ (cmds p cs).value, c.All fun n => n.isResolved = true
  | [], _, _, _, _, _, _ => by simp [cmds]
  | c :: cs, p, L, complete, names, typed, h => by
    obtain ⟨first, rest⟩ := List.forall_mem_cons.1 complete
    obtain ⟨here, behind⟩ := List.forall_mem_cons.1 h
    simpa [cmds] using ⟨cmd_resolved c first names typed here,
      cmds_resolved cs rest names typed behind⟩

end

end Resolved

/-- Whatever is wrong with a program, no type and no storage is left open in it. -/
theorem program_annotated (distance : Int) (p : Program) :
    (program distance p).program.All fun n => n.isAnnotated = true :=
  Program.all_iff.2 ⟨rfl, cmd_annotated p.body _⟩

/-- If nothing is wrong with a complete program, all its names are resolved as they must be. -/
theorem program_resolved {p : Program} (complete : p.Complete) {distance : Int}
    (quiet : (program distance p).reports = []) :
    (program distance p).program.All fun n => n.isResolved = true := by
  have wellTyped := (reports_program_eq_nil_iff complete distance).1 quiet
  refine Program.all_iff.2 ⟨rfl, ?_⟩
  exact cmd_resolved p.body (Program.all_iff.1 complete).2 scoped_root (by simp [Typed]) wellTyped

end Check

/-- Checking annotates the program of a text completely. Whatever is wrong with the text, every
expression gets a type and every constant and variable a type and storage. If moreover nothing in
the program could not be parsed and nothing is reported, then every name and operator is resolved:
an assigned name and one passed itself to a variable, a called one to a routine that takes what is
passed, and an operator to one on as many operands. The types of all expressions are data, and
every declaration has one word or a value that is known. -/
theorem Program.check_annotates (file : String) (bytes : List UInt8) (lenient : Bool)
    (limit distance : Int) :
    ∃ r, (Program.ofText file bytes lenient limit).check distance = .ok r ∧
      r.program.bare = Program.ofText file bytes lenient limit ∧
      (r.program.All fun n => n.isAnnotated = true) ∧
      ((Program.ofText file bytes lenient limit).Complete → r.messages = [] →
        r.program.All fun n => n.isResolved = true) := by
  let p := Program.ofText file bytes lenient limit
  have bare : p.bare = p := Program.bare_ofText file bytes lenient limit
  have literals : p.LiteralsProper := Parser.parse_scan_literalsProper _ lenient limit
  refine ⟨_, p.check_eq_ok literals distance, by rw [Check.bare_program, bare],
    Check.program_annotated distance p, ?_⟩
  intro complete quiet
  rw [Check.Result.messages_eq_nil_iff] at quiet
  exact Check.program_resolved complete quiet

namespace Program

/-- The text `let const n ~ 1; var m : integer in while m < n do getint(var m)`. -/
def countText : List UInt8 :=
  "let const n ~ 1; var m : integer in while m < n do getint(var m)".toUTF8.toList

theorem countText_annotated : ∃ r, (ofText "" countText false 10).check 0 = .ok r ∧
    r.messages = [] ∧ (r.program.All fun n => n.isAnnotated = true) ∧
    r.program.All fun n => n.isResolved = true := by
  obtain ⟨r, checked, -, annotated, resolved⟩ := check_annotates "" countText false 10 0
  have complete : (ofText "" countText false 10).Complete := by
    show ∀ n ∈ (ofText "" countText false 10).nodes, n.isError = false
    decide +kernel
  have known : ((ofText "" countText false 10).check 0).toOption.map (·.messages) = some [] := by
    decide +kernel
  rw [checked] at known
  have quiet : r.messages = [] := Option.some.inj known
  exact ⟨r, checked, quiet, annotated, resolved complete quiet⟩

end Program

end TriangleTam

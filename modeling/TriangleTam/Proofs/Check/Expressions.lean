import TriangleTam.Proofs.Check.Scoped
import TriangleTam.Proofs.Tree.Nodes

/-!
# Types of expressions

The checker gives `any` to what it finds wrong and stops looking at some places after a first
mistake. Where it is silent, none of this happens: `hasType_of_silent` says that the type it finds
is one the rules give, which is never `any`, and `silent_of_hasType` that it is silent where the
rules give a type.
-/

namespace TriangleTam

open Typing

/-- What is known of a meaning without its storage. -/
def Meaning.denotation : Meaning → Denotation
  | builtin b => .builtin b
  | entity e => .entity e.kind (e.ty.getD .any)

/-- A declared entity without its storage. -/
def Entity.binding (e : Entity) : Binding :=
  ⟨e.name, e.kind, e.ty.getD .any⟩

namespace Check

open Checked (Silent)

/-- The context of a place behind the declarations of `L`. -/
def contextOf (L : List Entity) : Context :=
  L.map Entity.binding

/-- The types of all entities are known and are data. -/
def Typed (L : List Entity) : Prop :=
  ∀ e ∈ L, ∃ t, e.ty = some t ∧ t.isData = true

theorem denotes_contextOf (L : List Entity) (name : String) :
    (contextOf L).denotes name = (meaningIn L name).map Meaning.denotation := by
  induction L with
  | nil => cases h : Builtin.named? name <;>
      simp [contextOf, Context.denotes, meaningIn, h, Meaning.denotation]
  | cons e L ih =>
    by_cases h : e.name = name
    · simp [contextOf, Context.denotes, meaningIn, h, Meaning.denotation, Entity.binding]
    · simpa [contextOf, Context.denotes, meaningIn, h, Entity.binding] using ih

theorem denotes_eq_builtin_iff {L : List Entity} {name : String} {b : Builtin} :
    (contextOf L).denotes name = some (.builtin b) ↔ meaningIn L name = some (.builtin b) := by
  rw [denotes_contextOf]
  cases h : meaningIn L name with
  | none => simp
  | some m => cases m <;> simp [Meaning.denotation]

theorem denotes_eq_entity_iff {L : List Entity} {name : String} {kind : Entity.Kind} {t : Ty} :
    (contextOf L).denotes name = some (.entity kind t) ↔
      ∃ e, meaningIn L name = some (.entity e) ∧ e.kind = kind ∧ e.ty.getD .any = t := by
  rw [denotes_contextOf]
  cases h : meaningIn L name with
  | none => simp
  | some m => cases m <;> simp [Meaning.denotation]

theorem Typed.of_meaningIn {L : List Entity} (typed : Typed L) {name : String} {e : Entity}
    (h : meaningIn L name = some (.entity e)) : ∃ t, e.ty = some t ∧ t.isData = true :=
  typed e (mem_of_meaningIn h).1

variable {env : Env} {L : List Entity}

/-- The value of a well-typed expression is data, if there is one. -/
theorem hasType_ne_any (typed : Typed L) {x : Expr} {t : Ty} (h : HasType (contextOf L) x t) :
    t ≠ .any := by
  cases h with
  | int | char => simp
  | entity found =>
    obtain ⟨e, meaning, -, rfl⟩ := denotes_eq_entity_iff.1 found
    obtain ⟨t, ht, data⟩ := typed.of_meaningIn meaning
    simpa [ht] using Ty.ne_any_of_isData data
  | constant found | unary found | binary found | same found | call found =>
    have named := named?_of_meaningIn (denotes_eq_builtin_iff.1 found)
    have regular := Builtin.isRegular_of_named? named
    simp only [Builtin.isRegular, Bool.and_eq_true, bne_iff_ne] at regular
    first
      | exact Ty.ne_any_of_isData regular
      | exact Ty.ne_any_of_isData regular.2
      | exact regular.2

theorem needValue_of_ty {x : Expr} {t : Ty} (h : x.ty = some t) (value : t ≠ .void) :
    needValue x = pure t := by
  unfold needValue
  rw [h]
  cases t <;> first | rfl | exact absurd rfl value

theorem ne_void_of_silent_needValue {x : Expr} {t : Ty} (h : x.ty = some t)
    (silent : (needValue x).Silent) : t ≠ .void := by
  rintro rfl
  simp [needValue, h] at silent

theorem resolve_of_meaningIn (names : Scoped env.chain L) {id : Ident} {m : Meaning}
    (present : id.name ≠ "") (h : meaningIn L id.name = some m) :
    env.resolve id = pure ({ id with meaning := some m }, some m) := by
  have found : env.lookup? id.name = some m := (names id.name).trans h
  simp [Env.resolve, present, found]

theorem exists_meaning_of_silent (names : Scoped env.chain L) {id : Ident}
    (present : id.name ≠ "") (silent : (env.resolve id).Silent) :
    ∃ m, meaningIn L id.name = some m := by
  cases h : meaningIn L id.name with
  | some m => exact ⟨m, rfl⟩
  | none =>
    have found : env.lookup? id.name = none := (names id.name).trans h
    simp [Env.resolve, present, found] at silent

/-- A call of a routine with as many parameters as it has. -/
theorem routine_of_meaningIn (names : Scoped env.chain L) {callee : Ident} {blank : Bool}
    {name : String} {params : List Formal} {result : Ty} {prim : Machine.Primitive}
    (present : callee.name ≠ "")
    (h : meaningIn L callee.name = some (.builtin (.func name params result prim)))
    (count : (if blank then 0 else 1) = params.length) :
    routine env callee blank =
      pure ({ callee with meaning := some (.builtin (.func name params result prim)) },
        params.head?.map (⟨name, ·⟩), result) := by
  simp [routine, resolve_of_meaningIn names present h, count]

theorem exists_func_of_silent_routine (names : Scoped env.chain L) {callee : Ident} {blank : Bool}
    (present : callee.name ≠ "") (silent : (routine env callee blank).Silent) :
    ∃ name params result prim,
      meaningIn L callee.name = some (.builtin (.func name params result prim)) ∧
        (if blank then 0 else 1) = params.length := by
  simp only [routine, Checked.silent_bind] at silent
  obtain ⟨m, found⟩ := exists_meaning_of_silent names present silent.1
  have silent := silent.2
  rw [resolve_of_meaningIn names present found] at silent
  simp only [Checked.value_pure] at silent
  split at silent
  · next h => cases h
  · next name params result prim h =>
    cases h
    by_cases count : (if blank then 0 else 1) = params.length
    · exact ⟨name, params, result, prim, found, count⟩
    · simp [count] at silent
  · simp at silent

/-- The types of the parameters of a routine are data. -/
theorem params_data {name callee : String} {params : List Formal} {result : Ty}
    {prim : Machine.Primitive}
    (h : meaningIn L callee = some (.builtin (.func name params result prim))) :
    ∀ p ∈ params, p.ty.isData = true := by
  have regular := Builtin.isRegular_of_named? (named?_of_meaningIn h)
  simp only [Builtin.isRegular, Bool.and_eq_true, List.all_eq_true] at regular
  exact regular.1.2

theorem unary_data {name symbol : String} {operand result : Ty} {prim : Machine.Primitive}
    (h : meaningIn L name = some (.builtin (.unary symbol operand result prim))) :
    operand.isData = true ∧ result.isData = true := by
  have regular := Builtin.isRegular_of_named? (named?_of_meaningIn h)
  simpa [Builtin.isRegular] using regular

/-- The operands of an operator are both of any type, or both are data. -/
theorem binary_data {name symbol : String} {left right result : Ty} {prim : Machine.Primitive}
    (h : meaningIn L name = some (.builtin (.binary symbol left right result prim))) :
    (left = .any ∧ right = .any ∨ left.isData = true ∧ right.isData = true) ∧
      result.isData = true := by
  have regular := Builtin.isRegular_of_named? (named?_of_meaningIn h)
  simpa [Builtin.isRegular] using regular

theorem passed_count {Γ : Context} {a : Arg} {params : List Formal} (h : Passed Γ a params) :
    (if isBlank a then 0 else 1) = params.length := by
  cases h <;> rfl

theorem accepts_iff {formal t : Ty} (data : formal.isData = true) (known : t ≠ .any) :
    formal.accepts t = true ↔ t = formal := by
  constructor
  · intro h
    exact (Ty.eq_of_accepts h (Ty.ne_any_of_isData data) known).symm
  · rintro rfl
    exact Ty.accepts_self t

theorem exists_entity_of_isVariable {m : Meaning} (h : m.isVariable = true) :
    ∃ e, m = .entity e := by
  cases m with
  | builtin b => cases h
  | entity e => exact ⟨e, rfl⟩

theorem unary_of_silent (names : Scoped env.chain L) {op : OpName} {pos : Pos} {t : Ty}
    (known : t ≠ .any) (silent : (applyUnary env op pos t).Silent) :
    ∃ symbol result prim,
      meaningIn L op.symbol = some (.builtin (.unary symbol t result prim)) := by
  have found : env.lookup? op.symbol = meaningIn L op.symbol := names op.symbol
  unfold applyUnary at silent
  rw [found] at silent
  split at silent
  · next symbol operand result prim h =>
    have accepted : operand.accepts t = true := by simpa using silent
    obtain rfl := (accepts_iff (unary_data h).1 known).1 accepted
    exact ⟨symbol, result, prim, h⟩
  · simp at silent

theorem binary_of_silent (names : Scoped env.chain L) {op : OpName} {p q : Pos} {s t : Ty}
    (known : s ≠ .any) (known' : t ≠ .any) (silent : (applyBinary env op p q s t).Silent) :
    ∃ symbol left right result prim,
      meaningIn L op.symbol = some (.builtin (.binary symbol left right result prim)) ∧
        (left = .any ∧ right = .any ∧ s = t ∨ left = s ∧ right = t) := by
  have found : env.lookup? op.symbol = meaningIn L op.symbol := names op.symbol
  unfold applyBinary at silent
  rw [found] at silent
  split at silent
  · next symbol left right result prim h =>
    refine ⟨symbol, left, right, result, prim, h, ?_⟩
    rcases (binary_data h).1 with ⟨hl, hr⟩ | ⟨hl, hr⟩
    · have accepted : s.accepts t = true := by simpa [hl, hr] using silent
      exact .inl ⟨hl, hr, Ty.eq_of_accepts accepted known known'⟩
    · have accepted : left.accepts s = true ∧ right.accepts t = true := by
        simpa [Ty.ne_any_of_isData hl] using silent
      exact .inr ⟨((accepts_iff hl known).1 accepted.1).symm,
        ((accepts_iff hr known').1 accepted.2).symm⟩
  · simp at silent

theorem valueTy?_of_silent {pos : Pos} {id : Ident} {m : Meaning}
    (silent : (nameType pos id (some m)).Silent) : ∃ t, m.valueTy? = some t := by
  cases h : m.valueTy? with
  | some t => exact ⟨t, rfl⟩
  | none => simp [nameType, h] at silent

theorem hasType_name {pos : Pos} {ty : Option Ty} {id : Ident} {m : Meaning} {t : Ty}
    (found : meaningIn L id.name = some m) (h : m.valueTy? = some t) :
    HasType (contextOf L) (.name pos ty id) t := by
  cases m with
  | entity e =>
    obtain rfl : e.ty.getD .any = t := Option.some.inj h
    exact .entity (denotes_eq_entity_iff.2 ⟨e, found, rfl, rfl⟩)
  | builtin b =>
    cases b with
    | const name t' value =>
      obtain rfl : t' = t := Option.some.inj h
      exact .constant (denotes_eq_builtin_iff.2 found)
    | type | unary | binary | func => cases h

section Values

variable {pos : Pos} {ty : Option Ty}

theorem value_name (names : Scoped env.chain L) {id : Ident} {m : Meaning} {t : Ty}
    (present : id.name ≠ "") (found : meaningIn L id.name = some m) (h : m.valueTy? = some t) :
    (expr env (.name pos ty id)).value = .name pos (some t) { id with meaning := some m } := by
  simp [expr, resolve_of_meaningIn names present found, nameType, h]

theorem value_unary (names : Scoped env.chain L) {op : OpName} {x : Expr} {symbol : String}
    {operand result : Ty} {prim : Machine.Primitive}
    (found : meaningIn L op.symbol = some (.builtin (.unary symbol operand result prim))) :
    (expr env (.unary pos ty op x)).value =
      .unary pos (some result)
        { op with meaning := some (.builtin (.unary symbol operand result prim)) }
        (expr env x).value := by
  have lookup : env.lookup? op.symbol = _ := (names op.symbol).trans found
  simp [expr, applyUnary, lookup]

theorem value_binary (names : Scoped env.chain L) {op : OpName} {x y : Expr} {symbol : String}
    {left right result : Ty} {prim : Machine.Primitive}
    (found : meaningIn L op.symbol = some (.builtin (.binary symbol left right result prim))) :
    (expr env (.binary pos ty x op y)).value =
      .binary pos (some result) (expr env x).value
        { op with meaning := some (.builtin (.binary symbol left right result prim)) }
        (expr env y).value := by
  have lookup : env.lookup? op.symbol = _ := (names op.symbol).trans found
  simp only [expr, Checked.value_bind, Checked.value_pure, applyBinary, lookup]
  split <;> rfl

theorem value_call (names : Scoped env.chain L) {callee : Ident} {a : Arg} {name : String}
    {params : List Formal} {result : Ty} {prim : Machine.Primitive} (present : callee.name ≠ "")
    (found : meaningIn L callee.name = some (.builtin (.func name params result prim)))
    (count : (if isBlank a then 0 else 1) = params.length) :
    (expr env (.call pos ty callee a)).value =
      .call pos (some result)
        { callee with meaning := some (.builtin (.func name params result prim)) }
        (arg env (params.head?.map (⟨name, ·⟩)) a).value := by
  simp [expr, routine_of_meaningIn names present found count]

end Values

theorem exists_meaning_of_hasType {pos : Pos} {ty : Option Ty} {id : Ident} {t : Ty}
    (h : HasType (contextOf L) (.name pos ty id) t) :
    ∃ m, meaningIn L id.name = some m ∧ m.valueTy? = some t := by
  cases h with
  | entity found =>
    obtain ⟨e, meaning, -, rfl⟩ := denotes_eq_entity_iff.1 found
    exact ⟨.entity e, meaning, rfl⟩
  | constant found => exact ⟨_, denotes_eq_builtin_iff.1 found, rfl⟩

theorem intValue?_eq_some_iff {lit : Literal} {n : Int} :
    lit.intValue? = some n ↔ Text.int64? lit.spelling = some n ∧ n ≤ 32767 := by
  rw [Literal.intValue?, Option.filter_eq_some_iff, decide_eq_true_iff]
  exact Iff.rfl

mutual

theorem hasType_of_silent (names : Scoped env.chain L) (typed : Typed L) :
    ∀ x : Expr, x.All (fun n => n.isError = false) → (expr env x).Silent →
      ∃ t, (expr env x).value.ty = some t ∧ HasType (contextOf L) x t
  | .int pos ty lit, _, silent => by
    simp only [expr, Checked.silent_bind, Checked.silent_reportIf, Option.isNone_eq_false_iff,
      Option.isSome_iff_exists] at silent
    obtain ⟨⟨n, value⟩, -⟩ := silent
    obtain ⟨value, le⟩ := intValue?_eq_some_iff.1 value
    exact ⟨.integer, by simp [expr, Expr.ty], .int value le⟩
  | .char pos ty lit, _, _ => ⟨.char, by simp [expr, Expr.ty], .char⟩
  | .name pos ty id, complete, silent => by
    have present : id.name ≠ "" := by simpa using complete
    simp only [expr, Checked.silent_bind] at silent
    obtain ⟨m, found⟩ := exists_meaning_of_silent names present silent.1
    rw [resolve_of_meaningIn names present found] at silent
    obtain ⟨t, ht⟩ := valueTy?_of_silent silent.2.1
    exact ⟨t, by rw [value_name names present found ht, Expr.ty], hasType_name found ht⟩
  | .unary pos ty op x, complete, silent => by
    have complete : x.All _ := (Expr.all_unary.1 complete).2.2
    simp only [expr, Checked.silent_bind] at silent
    obtain ⟨t, ht, operand⟩ := hasType_of_silent names typed x complete silent.1
    have value := ne_void_of_silent_needValue ht silent.2.1
    have known := hasType_ne_any typed operand
    rw [needValue_of_ty ht value] at silent
    obtain ⟨symbol, result, prim, found⟩ := unary_of_silent names known silent.2.2.1
    refine ⟨result, ?_, .unary (denotes_eq_builtin_iff.2 found) operand⟩
    rw [value_unary names found, Expr.ty]
  | .binary pos ty x op y, complete, silent => by
    obtain ⟨-, left, -, right⟩ := Expr.all_binary.1 complete
    simp only [expr, Checked.silent_bind] at silent
    obtain ⟨s, hs, typedLeft⟩ := hasType_of_silent names typed x left silent.1
    obtain ⟨t, ht, typedRight⟩ := hasType_of_silent names typed y right silent.2.2.1
    have valueLeft := ne_void_of_silent_needValue hs silent.2.1
    have valueRight := ne_void_of_silent_needValue ht silent.2.2.2.1
    rw [needValue_of_ty hs valueLeft, needValue_of_ty ht valueRight] at silent
    obtain ⟨symbol, l, r, result, prim, found, kinds⟩ :=
      binary_of_silent names (hasType_ne_any typed typedLeft) (hasType_ne_any typed typedRight)
        silent.2.2.2.2.1
    refine ⟨result, by rw [value_binary names found, Expr.ty], ?_⟩
    rcases kinds with ⟨rfl, rfl, rfl⟩ | ⟨rfl, rfl⟩
    · exact .same (denotes_eq_builtin_iff.2 found) typedLeft typedRight valueLeft
    · exact .binary (denotes_eq_builtin_iff.2 found) typedLeft typedRight
  | .call pos ty callee a, complete, silent => by
    obtain ⟨-, present, complete⟩ := Expr.all_call.1 complete
    replace present : callee.name ≠ "" := by simpa using present
    simp only [expr, Checked.silent_bind] at silent
    obtain ⟨name, params, result, prim, found, count⟩ :=
      exists_func_of_silent_routine names present silent.1
    rw [routine_of_meaningIn names present found count] at silent
    refine ⟨result, by rw [value_call names present found count, Expr.ty],
      .call (denotes_eq_builtin_iff.2 found) ?_⟩
    exact passed_of_silent names typed a complete count (params_data found) silent.2.1
  | .bad pos ty, complete, _ => by simp at complete

theorem passed_of_silent (names : Scoped env.chain L) (typed : Typed L) :
    ∀ (a : Arg) {name : String} {params : List Formal},
      a.All (fun n => n.isError = false) → (if isBlank a then 0 else 1) = params.length →
      (∀ p ∈ params, p.ty.isData = true) →
      (arg env (params.head?.map (⟨name, ·⟩)) a).Silent → Passed (contextOf L) a params
  | .value pos x, name, params, complete, count, data, silent => by
    obtain ⟨⟨t, byRef⟩, rfl⟩ := List.length_eq_one_iff.1 (by simpa [isBlank] using count.symm)
    have complete : x.All _ := (Arg.all_value.1 complete).2
    simp only [arg, Checked.silent_bind] at silent
    obtain ⟨s, hs, operand⟩ := hasType_of_silent names typed x complete silent.1
    have value := ne_void_of_silent_needValue hs silent.2.1
    rw [needValue_of_ty hs value] at silent
    have passed : t.accepts s = true ∧ byRef = false := by
      simpa [argType] using silent.2.2
    obtain rfl :=
      (accepts_iff (data ⟨t, byRef⟩ (by simp)) (hasType_ne_any typed operand)).1 passed.1
    obtain rfl := passed.2
    exact .value operand
  | .var pos id, name, params, complete, count, data, silent => by
    obtain ⟨⟨t, byRef⟩, rfl⟩ := List.length_eq_one_iff.1 (by simpa [isBlank] using count.symm)
    have present : id.name ≠ "" := by simpa using complete
    simp only [arg, varArg, Checked.silent_bind] at silent
    obtain ⟨m, found⟩ := exists_meaning_of_silent names present silent.1
    rw [resolve_of_meaningIn names present found] at silent
    cases assignable : m.isVariable with
    | false => simp [assignable] at silent
    | true =>
      obtain ⟨e, rfl⟩ := exists_entity_of_isVariable assignable
      obtain ⟨s, hs, known⟩ := typed.of_meaningIn found
      have passed : t.accepts s = true ∧ byRef = true := by
        simpa [assignable, argType, Meaning.valueTy?, hs] using silent.2
      obtain rfl := (accepts_iff (data ⟨t, byRef⟩ (by simp)) (Ty.ne_any_of_isData known)).1 passed.1
      obtain rfl := passed.2
      refine .var (denotes_eq_entity_iff.2 ⟨e, found, ?_, by simp [hs]⟩)
      simpa [Meaning.isVariable] using assignable
  | .blank pos, name, params, _, count, _, _ => by
    obtain rfl : params = [] := by simpa [isBlank] using count.symm
    exact .blank
  | .bad pos, _, _, complete, _, _, _ => by simp at complete

end

mutual

theorem silent_of_hasType (names : Scoped env.chain L) (typed : Typed L) :
    ∀ (x : Expr) {t : Ty}, x.All (fun n => n.isError = false) → HasType (contextOf L) x t →
      (expr env x).Silent ∧ (expr env x).value.ty = some t
  | .int pos ty lit, t, _, h => by
    cases h with
    | int value le =>
      simp [expr, Expr.ty, intValue?_eq_some_iff.2 ⟨value, le⟩]
  | .char pos ty lit, t, _, h => by
    cases h
    simp [expr, Expr.ty]
  | .name pos ty id, t, complete, h => by
    have present : id.name ≠ "" := by simpa using complete
    obtain ⟨m, found, value⟩ := exists_meaning_of_hasType h
    rw [value_name names present found value]
    simp [expr, resolve_of_meaningIn names present found, nameType, value, Expr.ty]
  | .unary pos ty op x, t, complete, h => by
    have complete : x.All _ := (Expr.all_unary.1 complete).2.2
    cases h with
    | unary found operand =>
      rw [denotes_eq_builtin_iff] at found
      obtain ⟨silent, ht⟩ := silent_of_hasType names typed x complete operand
      have value := (unary_data found).1
      have lookup : env.lookup? op.symbol = _ := (names op.symbol).trans found
      rw [value_unary names found]
      simp [expr, Expr.ty, silent, needValue_of_ty ht (Ty.ne_void_of_isData value), applyUnary,
        lookup]
  | .binary pos ty x op y, t, complete, h => by
    obtain ⟨-, left, -, right⟩ := Expr.all_binary.1 complete
    cases h with
    | binary found operand operand' =>
      rw [denotes_eq_builtin_iff] at found
      obtain ⟨silent, hs⟩ := silent_of_hasType names typed x left operand
      obtain ⟨silent', ht⟩ := silent_of_hasType names typed y right operand'
      have lookup : env.lookup? op.symbol = _ := (names op.symbol).trans found
      rcases (binary_data found).1 with ⟨rfl, -⟩ | ⟨data, data'⟩
      · exact absurd rfl (hasType_ne_any typed operand)
      · rw [value_binary names found]
        simp [expr, Expr.ty, silent, silent', needValue_of_ty hs (Ty.ne_void_of_isData data),
          needValue_of_ty ht (Ty.ne_void_of_isData data'), applyBinary, lookup,
          Ty.ne_any_of_isData data]
    | same found operand operand' value =>
      rw [denotes_eq_builtin_iff] at found
      obtain ⟨silent, hs⟩ := silent_of_hasType names typed x left operand
      obtain ⟨silent', ht⟩ := silent_of_hasType names typed y right operand'
      have lookup : env.lookup? op.symbol = _ := (names op.symbol).trans found
      rw [value_binary names found]
      simp [expr, Expr.ty, silent, silent', needValue_of_ty hs value, needValue_of_ty ht value,
        applyBinary, lookup]
  | .call pos ty callee a, t, complete, h => by
    obtain ⟨-, present, complete⟩ := Expr.all_call.1 complete
    replace present : callee.name ≠ "" := by simpa using present
    cases h with
    | call found passed =>
      rw [denotes_eq_builtin_iff] at found
      have count := passed_count passed
      rw [value_call names present found count]
      simp [expr, Expr.ty, routine_of_meaningIn names present found count,
        silent_of_passed names typed a complete (params_data found) passed]
  | .bad pos ty, _, complete, _ => by simp at complete

theorem silent_of_passed (names : Scoped env.chain L) (typed : Typed L) :
    ∀ (a : Arg) {name : String} {params : List Formal},
      a.All (fun n => n.isError = false) → (∀ p ∈ params, p.ty.isData = true) →
      Passed (contextOf L) a params → (arg env (params.head?.map (⟨name, ·⟩)) a).Silent
  | .value pos x, name, params, complete, data, h => by
    have complete : x.All _ := (Arg.all_value.1 complete).2
    cases h with
    | @value _ _ t operand =>
      obtain ⟨silent, ht⟩ := silent_of_hasType names typed x complete operand
      have value := Ty.ne_void_of_isData (data ⟨t, false⟩ (by simp))
      simp [arg, silent, needValue_of_ty ht value, argType]
  | .var pos id, name, params, complete, data, h => by
    have present : id.name ≠ "" := by simpa using complete
    cases h with
    | @var _ _ t found =>
      obtain ⟨e, meaning, kind, rfl⟩ := denotes_eq_entity_iff.1 found
      simp [arg, varArg, resolve_of_meaningIn names present meaning, Meaning.isVariable, kind,
        argType, Meaning.valueTy?]
  | .blank pos, _, _, _, _, _ => by simp [arg]
  | .bad pos, _, _, complete, _, _ => by simp at complete

end

theorem isData_of_ne {t : Ty} (known : t ≠ .any) (value : t ≠ .void) : t.isData = true := by
  cases t <;> first | rfl | exact absurd rfl known | exact absurd rfl value

theorem value_of_hasType (names : Scoped env.chain L) (typed : Typed L) {x : Expr} {t : Ty}
    (complete : x.All fun n => n.isError = false) (h : HasType (contextOf L) x t)
    (value : t ≠ .void) :
    (Check.value env x).Silent ∧ (Check.value env x).value = ((expr env x).value, t) := by
  obtain ⟨silent, ht⟩ := silent_of_hasType names typed x complete h
  simp [Check.value, silent, needValue_of_ty ht value]

theorem hasType_of_silent_value (names : Scoped env.chain L) (typed : Typed L) {x : Expr}
    (complete : x.All fun n => n.isError = false) (silent : (Check.value env x).Silent) :
    ∃ t, HasType (contextOf L) x t ∧ t ≠ .void := by
  simp only [Check.value, Checked.silent_bind] at silent
  obtain ⟨t, ht, typed⟩ := hasType_of_silent names typed x complete silent.1
  exact ⟨t, typed, ne_void_of_silent_needValue ht silent.2.1⟩

end Check

end TriangleTam

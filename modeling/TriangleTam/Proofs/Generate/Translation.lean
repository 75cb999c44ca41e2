import TriangleTam.Generate
import TriangleTam.Proofs.Check.Typing

/-!
# Code of well-typed programs

The code of a program, said by rules on the tree as it is written and not on what checking noted on
it: `ExprCode`, `DeclCode` and `CmdCode` relate a part of a program to its code. They say where
entities are kept, which checking decides and code relies on. The main statement is that every
well-typed program has code that follows the rules, so nothing else has to be known of checking
and of generating code.
-/

namespace TriangleTam

/-- The entity is a constant with a value that is known while compiling. -/
def Entity.IsKnown (e : Entity) (value : Int) : Prop :=
  ∃ s, e.storage = some s ∧ s.kind = .knownValue ∧ s.value = value

/-- The entity is kept in the word at an address. -/
def Entity.IsHeld (e : Entity) (address : Nat) : Prop :=
  ∃ s, e.storage = some s ∧ s.offset = address ∧ s.size = 1 ∧
    s.kind = match e.kind with | .const => .unknownValue | .var => .knownAddress

namespace Generate

open Machine Typing

@[simp] theorem ok_bind {ε α β : Type} (a : α) (f : α → Except ε β) :
    (Except.ok a >>= f) = f a := rfl

@[simp] theorem pure_eq_ok {ε α : Type} (a : α) : (pure a : Except ε α) = .ok a := rfl

/-- What comes of two steps comes of the second, done with what comes of the first. -/
theorem exists_of_bind_eq_ok {ε α β : Type} {x : Except ε α} {f : α → Except ε β} {b : β}
    (h : (x >>= f) = .ok b) : ∃ a, x = .ok a ∧ f a = .ok b := by
  cases x with
  | error e => cases h
  | ok a => exact ⟨a, rfl, h⟩

/-- Pushes the word at an address. -/
def loadWord (address : Nat) : Instruction :=
  { op := .load, reg := .stackBase, n := 1, d := address }

/-- Pops a word into an address. -/
def storeWord (address : Nat) : Instruction :=
  { op := .store, reg := .stackBase, n := 1, d := address }

/-- Pushes an address. -/
def loadAddress (address : Nat) : Instruction :=
  { op := .loada, reg := .stackBase, d := address }

/-- Reserves one word. -/
def reserveWord : Instruction :=
  { op := .push, d := 1 }

section Rules

open Check (meaningIn)

mutual

/-- The code of an expression of some type behind the declarations of `L`. -/
inductive ExprCode (L : List Entity) : Expr → Ty → List Instruction → Prop where
  | int {pos ty lit n} (value : Text.int64? lit.spelling = some n) :
      ExprCode L (.int pos ty lit) .integer [loadNumber n]
  | char {pos ty lit} {c : Nat} (value : lit.charValue? = some c) :
      ExprCode L (.char pos ty lit) .char [loadNumber c]
  | known {pos ty id e t n} (found : meaningIn L id.name = some (.entity e)) (typed : e.ty = some t)
      (known : e.IsKnown n) : ExprCode L (.name pos ty id) t [loadNumber n]
  | held {pos ty id e t a} (found : meaningIn L id.name = some (.entity e)) (typed : e.ty = some t)
      (held : e.IsHeld a) : ExprCode L (.name pos ty id) t [loadWord a]
  | constant {pos ty id name t n}
      (found : meaningIn L id.name = some (.builtin (.const name t n))) :
      ExprCode L (.name pos ty id) t [loadNumber n]
  | unary {pos ty op x symbol operand result prim is}
      (found : meaningIn L op.symbol = some (.builtin (.unary symbol operand result prim)))
      (inner : ExprCode L x operand is) :
      ExprCode L (.unary pos ty op x) result (is ++ [callPrimitive prim])
  | binary {pos ty x op y symbol s t left right result prim is js}
      (found : meaningIn L op.symbol = some (.builtin (.binary symbol left right result prim)))
      (kinds : left = .any ∧ right = .any ∧ s = t ∨ left = s ∧ right = t)
      (first : ExprCode L x s is) (second : ExprCode L y t js) :
      ExprCode L (.binary pos ty x op y) result
        (is ++ js ++ sizeOperand prim s ++ [callPrimitive prim])
  | call {pos ty callee a name params result prim is}
      (found : meaningIn L callee.name = some (.builtin (.func name params result prim)))
      (value : result ≠ .void) (passed : ArgCode L a params is) :
      ExprCode L (.call pos ty callee a) result (is ++ [callPrimitive prim])

/-- The code of an actual parameter that goes with formal ones. -/
inductive ArgCode (L : List Entity) : Arg → List Formal → List Instruction → Prop where
  | blank {pos} : ArgCode L (.blank pos) [] []
  | value {pos x t is} (inner : ExprCode L x t is) : ArgCode L (.value pos x) [⟨t, false⟩] is
  | var {pos id e t a} (found : meaningIn L id.name = some (.entity e)) (typed : e.ty = some t)
      (kind : e.kind = .var) (held : e.IsHeld a) :
      ArgCode L (.var pos id) [⟨t, true⟩] [loadAddress a]

end

/-- The code of a declaration behind the declarations of `L`, where `n` words are in use. The
declared entities come in front of those of `L`. -/
inductive DeclCode : List Entity → Nat → Decl → List Entity → Nat → List Instruction → Prop where
  /-- A constant takes no word if its value is known, which is what its code would push. -/
  | known {L n pos ty storage id x e t v} (value : ExprCode L x t [loadNumber v])
      (name : e.name = id.name) (kind : e.kind = .const) (typed : e.ty = some t)
      (known : e.IsKnown v) : DeclCode L n (.const pos ty storage id x) (e :: L) n []
  | const {L n pos ty storage id x e t is} (value : ExprCode L x t is)
      (name : e.name = id.name) (kind : e.kind = .const) (typed : e.ty = some t)
      (held : e.IsHeld n) : DeclCode L n (.const pos ty storage id x) (e :: L) (n + 1) is
  | var {L n pos ty storage id typeName e t}
      (type : meaningIn L typeName.name = some (.builtin (.type t)))
      (name : e.name = id.name) (kind : e.kind = .var) (typed : e.ty = some t)
      (held : e.IsHeld n) :
      DeclCode L n (.var pos ty storage id typeName) (e :: L) (n + 1) [reserveWord]
  | nil {L n pos} : DeclCode L n (.seq pos []) L n []
  | cons {L l M m N n pos d ds is js} (first : DeclCode L l d M m is)
      (rest : DeclCode M m (.seq pos ds) N n js) :
      DeclCode L l (.seq pos (d :: ds)) N n (is ++ js)

/-- The code from the address `base` on of a command behind the declarations of `L`, where `n` words
are in use. -/
inductive CmdCode : List Entity → Nat → Nat → Cmd → List Instruction → Prop where
  | skip {L n base pos explicit} : CmdCode L n base (.skip pos explicit) []
  | assign {L n base pos target x e t a is} (found : meaningIn L target.name = some (.entity e))
      (typed : e.ty = some t) (kind : e.kind = .var) (held : e.IsHeld a)
      (value : ExprCode L x t is) :
      CmdCode L n base (.assign pos target x) (is ++ [storeWord a])
  | call {L n base pos callee a name params result prim is}
      (found : meaningIn L callee.name = some (.builtin (.func name params result prim)))
      (passed : ArgCode L a params is) :
      CmdCode L n base (.call pos callee a) (is ++ [callPrimitive prim] ++ drop result.size)
  | seqNil {L n base pos} : CmdCode L n base (.seq pos []) []
  | seqCons {L n base pos c cs is js} (first : CmdCode L n base c is)
      (rest : CmdCode L n (base + is.length) (.seq pos cs) js) :
      CmdCode L n base (.seq pos (c :: cs)) (is ++ js)
  | block {L n base pos body close is} (inner : CmdCode L n base body is) :
      CmdCode L n base (.block pos body close) is
  | ifElse {L n base pos cond yes no is js ks yesAt noAt} (test : ExprCode L cond .boolean is)
      (yesHere : yesAt = base + is.length + 1) (then_ : CmdCode L n yesAt yes js)
      (noHere : noAt = yesAt + js.length + 1) (else_ : CmdCode L n noAt no ks) :
      CmdCode L n base (.ifElse pos cond yes no)
        (is ++ jumpIf false noAt :: js ++ jump (noAt + ks.length) :: ks)
  | ifEither {L n base pos cond alt yes no is js ks ls yesAt noAt}
      (test : ExprCode L cond .boolean is) (test' : ExprCode L alt .boolean js)
      (yesHere : yesAt = base + is.length + 1 + js.length + 1) (then_ : CmdCode L n yesAt yes ks)
      (noHere : noAt = yesAt + ks.length + 1) (else_ : CmdCode L n noAt no ls) :
      CmdCode L n base (.ifEither pos cond alt yes no)
        (is ++ jumpIf true yesAt :: js ++ jumpIf false noAt :: ks ++ jump (noAt + ls.length) :: ls)
  | whileDo {L n base pos cond body is js bodyAt} (test : ExprCode L cond .boolean is)
      (bodyHere : bodyAt = base + is.length + 1) (inner : CmdCode L n bodyAt body js) :
      CmdCode L n base (.whileDo pos cond body)
        (is ++ jumpIf false (bodyAt + js.length + 1) :: js ++ [jump base])
  | letIn {L n M m base pos d body is js} (declared : DeclCode L n d M m is)
      (inner : CmdCode M m (base + is.length) body js) :
      CmdCode L n base (.letIn pos d body) (is ++ js ++ drop (m - n))

end Rules

/-- The entities of `L` take `n` words, one after the other. -/
inductive Laid : List Entity → Nat → Prop where
  | nil : Laid [] 0
  | known {e L n v} (rest : Laid L n) (kind : e.kind = .const) (known : e.IsKnown v) :
      Laid (e :: L) n
  | held {e L n} (rest : Laid L n) (held : e.IsHeld n) : Laid (e :: L) (n + 1)

theorem Laid.of_mem {L : List Entity} {n : Nat} (laid : Laid L n) {e : Entity} (member : e ∈ L) :
    (e.kind = .const ∧ ∃ v, e.IsKnown v) ∨ ∃ a, e.IsHeld a := by
  induction laid with
  | nil => cases member
  | known rest kind known ih =>
    rcases List.mem_cons.1 member with rfl | member
    · exact .inl ⟨kind, _, known⟩
    · exact ih member
  | held rest held ih =>
    rcases List.mem_cons.1 member with rfl | member
    · exact .inr ⟨_, held⟩
    · exact ih member

/-- A variable has a word. -/
theorem Laid.isHeld {L : List Entity} {n : Nat} (laid : Laid L n) {e : Entity} (member : e ∈ L)
    (kind : e.kind = .var) : ∃ a, e.IsHeld a := by
  rcases laid.of_mem member with ⟨const, -⟩ | held
  · rw [const] at kind
    cases kind
  · exact held

theorem DeclCode.laid {L M : List Entity} {l m : Nat} {d : Decl} {is : List Instruction}
    (h : DeclCode L l d M m is) (laid : Laid L l) : Laid M m := by
  induction h with
  | known value name kind typed known => exact .known laid kind known
  | const value name kind typed held => exact .held laid held
  | var type name kind typed held => exact .held laid held
  | nil => exact laid
  | cons first rest ih ih' => exact ih' (ih laid)

section Equations

variable {pos : Pos} {t : Ty} {id : Ident} {e : Entity}

theorem load_of_isKnown {v : Int} (meaning : id.meaning = some (.entity e)) (known : e.IsKnown v) :
    load id = .ok [loadNumber v] := by
  obtain ⟨s, storage, kind, rfl⟩ := known
  simp [load, storageOf, meaning, storage, kind]

theorem load_of_isHeld {a : Nat} (meaning : id.meaning = some (.entity e)) (held : e.IsHeld a) :
    load id = .ok [loadWord a] := by
  obtain ⟨s, storage, rfl, size, kind⟩ := held
  cases he : e.kind <;> rw [he] at kind <;>
    simp [load, storageOf, meaning, storage, kind, size, loadWord]

theorem store_of_isHeld {a : Nat} (meaning : id.meaning = some (.entity e)) (kind : e.kind = .var)
    (held : e.IsHeld a) : store id = .ok [storeWord a] := by
  obtain ⟨s, storage, rfl, size, place⟩ := held
  rw [kind] at place
  simp [store, storageOf, meaning, storage, place, size, storeWord]

theorem address_of_isHeld {a : Nat} (meaning : id.meaning = some (.entity e)) (kind : e.kind = .var)
    (held : e.IsHeld a) : address id = .ok [loadAddress a] := by
  obtain ⟨s, storage, rfl, size, place⟩ := held
  rw [kind] at place
  simp [address, storageOf, meaning, storage, place, loadAddress]

theorem load_of_const {name : String} {v : Int}
    (meaning : id.meaning = some (.builtin (.const name t v))) : load id = .ok [loadNumber v] := by
  simp [load, storageOf, meaning, Builtin.storage?]

theorem typeOf_of_ty {x : Expr} (h : x.ty = some t) : typeOf x = .ok t := by
  simp [typeOf, h]

theorem expr_name : expr (.name pos (some t) id) = load id := by
  simp [expr, typeOf, Expr.ty]

theorem expr_unary {op : OpName} {x : Expr} {symbol : String} {operand result : Ty}
    {prim : Primitive} {is : List Instruction} (inner : expr x = .ok is)
    (meaning : op.meaning = some (.builtin (.unary symbol operand result prim))) :
    expr (.unary pos (some t) op x) = .ok (is ++ [callPrimitive prim]) := by
  simp [expr, typeOf, Expr.ty, inner, unaryOf, meaning]

theorem expr_binary {op : OpName} {x y : Expr} {symbol : String} {left right result s : Ty}
    {prim : Primitive} {is js : List Instruction} (first : expr x = .ok is) (typed : x.ty = some s)
    (second : expr y = .ok js)
    (meaning : op.meaning = some (.builtin (.binary symbol left right result prim))) :
    expr (.binary pos (some t) x op y) =
      .ok (is ++ js ++ sizeOperand prim s ++ [callPrimitive prim]) := by
  have whole : typeOf (.binary pos (some t) x op y) = .ok t := typeOf_of_ty rfl
  simp [expr, whole, typeOf_of_ty typed, first, second, binaryOf, meaning]

theorem expr_call {callee : Ident} {a : Arg} {name : String} {params : List Formal} {result : Ty}
    {prim : Primitive} {is : List Instruction}
    (meaning : callee.meaning = some (.builtin (.func name params result prim)))
    (passed : arg a = .ok is) :
    expr (.call pos (some t) callee a) = .ok (is ++ [callPrimitive prim]) := by
  simp [expr, typeOf, Expr.ty, routineOf, meaning, passed]

end Equations

section Expressions

open Check (Checked Scoped Typed contextOf meaningIn)

variable {env : Check.Env} {L : List Entity} {n : Nat}

/-- The code of a name that has a value. -/
theorem exists_code_of_name (typed : Typed L) (laid : Laid L n) (pos : Pos) (ty : Option Ty)
    {id : Ident} {m : Meaning} {t : Ty} (found : meaningIn L id.name = some m)
    (value : m.valueTy? = some t) :
    ∃ is, load { id with meaning := some m } = .ok is ∧ ExprCode L (.name pos ty id) t is := by
  cases m with
  | entity e =>
    obtain ⟨s, hs, -⟩ := typed.of_meaningIn found
    obtain rfl : s = t := by simpa [Meaning.valueTy?, hs] using value
    rcases laid.of_mem (Check.mem_of_meaningIn found).1 with ⟨-, v, known⟩ | ⟨a, held⟩
    · exact ⟨_, load_of_isKnown rfl known, .known found hs known⟩
    · exact ⟨_, load_of_isHeld rfl held, .held found hs held⟩
  | builtin b =>
    cases b with
    | const name t' v =>
      obtain rfl : t' = t := Option.some.inj value
      exact ⟨_, load_of_const rfl, .constant found⟩
    | type | unary | binary | func => cases value

mutual

/-- Every well-typed expression with a value has code. -/
theorem exists_exprCode (names : Scoped env.chain L) (typed : Typed L) (laid : Laid L n) :
    ∀ (x : Expr) {t : Ty}, x.All (fun n => n.isIntact = true) → HasType (contextOf L) x t →
      t ≠ .void → ∃ is, expr (Check.expr env x).value = .ok is ∧ ExprCode L x t is
  | .int pos ty lit, t, _, h, _ => by
    cases h with
    | int value le =>
      have fits := Check.intValue?_eq_some_iff.2 ⟨value, le⟩
      refine ⟨_, ?_, .int value⟩
      simp [Check.expr, expr, typeOf, Expr.ty, intCode, fits]
  | .char pos ty lit, t, intact, h, _ => by
    cases h
    obtain ⟨c, value⟩ := Option.isSome_iff_exists.1 (by simpa using intact : _ = true)
    refine ⟨_, ?_, .char value⟩
    simp [Check.expr, expr, typeOf, Expr.ty, charCode, value]
  | .name pos ty id, t, intact, h, _ => by
    have present : id.name ≠ "" := by simpa using intact
    obtain ⟨m, found, value⟩ := Check.exists_meaning_of_hasType h
    obtain ⟨is, eq, code⟩ := exists_code_of_name typed laid pos ty found value
    exact ⟨is, by rw [Check.value_name names present found value, expr_name, eq], code⟩
  | .unary pos ty op x, t, intact, h, _ => by
    have intact : x.All _ := (Expr.all_unary.1 intact).2.2
    cases h with
    | unary found operand =>
      rw [Check.denotes_eq_builtin_iff] at found
      obtain ⟨is, eq, code⟩ := exists_exprCode names typed laid x intact operand
        (Ty.ne_void_of_isData (Check.unary_data found).1)
      exact ⟨_, by rw [Check.value_unary names found, expr_unary eq rfl], .unary found code⟩
  | .binary pos ty x op y, t, intact, h, _ => by
    obtain ⟨-, left, -, right⟩ := Expr.all_binary.1 intact
    cases h with
    | binary found operand operand' =>
      rw [Check.denotes_eq_builtin_iff] at found
      rcases (Check.binary_data found).1 with ⟨rfl, -⟩ | ⟨data, data'⟩
      · exact absurd rfl (Check.hasType_ne_any typed operand)
      · obtain ⟨is, eq, code⟩ := exists_exprCode names typed laid x left operand
          (Ty.ne_void_of_isData data)
        obtain ⟨js, eq', code'⟩ := exists_exprCode names typed laid y right operand'
          (Ty.ne_void_of_isData data')
        have hs := (Check.silent_of_hasType names typed x left.complete operand).2
        exact ⟨_, by rw [Check.value_binary names found, expr_binary eq hs eq' rfl],
          .binary found (.inr ⟨rfl, rfl⟩) code code'⟩
    | same found operand operand' value =>
      rw [Check.denotes_eq_builtin_iff] at found
      obtain ⟨is, eq, code⟩ := exists_exprCode names typed laid x left operand value
      obtain ⟨js, eq', code'⟩ := exists_exprCode names typed laid y right operand' value
      have hs := (Check.silent_of_hasType names typed x left.complete operand).2
      exact ⟨_, by rw [Check.value_binary names found, expr_binary eq hs eq' rfl],
        .binary found (.inl ⟨rfl, rfl, rfl⟩) code code'⟩
  | .call pos ty callee a, t, intact, h, value => by
    obtain ⟨-, present, intact⟩ := Expr.all_call.1 intact
    replace present : callee.name ≠ "" := by simpa using present
    cases h with
    | call found passed =>
      rw [Check.denotes_eq_builtin_iff] at found
      obtain ⟨is, eq, code⟩ := exists_argCode names typed laid a _ intact (Check.params_data found)
        passed
      refine ⟨_, ?_, .call found value code⟩
      rw [Check.value_call names present found (Check.passed_count passed), expr_call rfl eq]
  | .bad pos ty, _, intact, _, _ => by simp at intact

theorem exists_argCode (names : Scoped env.chain L) (typed : Typed L) (laid : Laid L n) :
    ∀ (a : Arg) (name : String) {params : List Formal},
      a.All (fun n => n.isIntact = true) → (∀ p ∈ params, p.ty.isData = true) →
      Passed (contextOf L) a params →
      ∃ is, arg (Check.arg env (params.head?.map (⟨name, ·⟩)) a).value = .ok is ∧
        ArgCode L a params is
  | .value pos x, name, params, intact, data, h => by
    have intact : x.All _ := (Arg.all_value.1 intact).2
    cases h with
    | @value _ _ t operand =>
      have value := Ty.ne_void_of_isData (data ⟨t, false⟩ (by simp))
      obtain ⟨is, eq, code⟩ := exists_exprCode names typed laid x intact operand value
      exact ⟨is, by simpa [Check.arg, arg] using eq, .value code⟩
  | .var pos id, name, params, intact, data, h => by
    have present : id.name ≠ "" := by simpa using intact
    cases h with
    | @var _ _ t found =>
      obtain ⟨e, meaning, kind, rfl⟩ := Check.denotes_eq_entity_iff.1 found
      obtain ⟨t, ht, -⟩ := typed.of_meaningIn meaning
      obtain ⟨a, held⟩ := laid.isHeld (Check.mem_of_meaningIn meaning).1 kind
      rw [ht, Option.getD_some]
      refine ⟨_, ?_, .var meaning ht kind held⟩
      have resolved := Check.resolve_of_meaningIn names present meaning
      have pushed : address { id with meaning := some (.entity e) } = .ok [loadAddress a] :=
        address_of_isHeld rfl kind held
      simpa [Check.arg, Check.varArg, resolved, arg, Meaning.isVariable, kind] using pushed
  | .blank pos, name, params, _, _, h => by
    cases h
    exact ⟨[], by simp [Check.arg, arg], .blank⟩
  | .bad pos, _, _, intact, _, _ => by simp at intact

end

/-- A value that is known while compiling is what the code pushes. -/
theorem exprCode_of_knownValue? (names : Scoped env.chain L) (typed : Typed L) {x : Expr} {t : Ty}
    {v : Int} (intact : x.All fun n => n.isIntact = true) (h : HasType (contextOf L) x t)
    (known : Check.knownValue? (Check.expr env x).value = some v) :
    ExprCode L x t [loadNumber v] := by
  cases h with
  | int value le =>
    have fits := Check.intValue?_eq_some_iff.2 ⟨value, le⟩
    simp only [Check.expr, Checked.value_bind, Checked.value_pure, Check.knownValue?] at known
    rw [fits] at known
    cases known
    exact .int value
  | @char _ _ lit =>
    obtain ⟨c, value⟩ := Option.isSome_iff_exists.1 (by simpa using intact : _ = true)
    simp only [Check.expr, Checked.value_pure, Check.knownValue?, value, Option.getD_some] at known
    cases known
    exact .char value
  | @entity _ _ id _ _ found =>
    have present : id.name ≠ "" := by simpa using intact
    obtain ⟨e, meaning, -, rfl⟩ := Check.denotes_eq_entity_iff.1 found
    obtain ⟨t, ht, -⟩ := typed.of_meaningIn meaning
    rw [Check.value_name names present meaning rfl] at known
    simp only [Check.knownValue?, Meaning.storage?] at known
    split at known
    · obtain ⟨s, storage, rfl⟩ := Option.map_eq_some_iff.1 known
      obtain ⟨storage, kind⟩ := Option.filter_eq_some_iff.1 storage
      rw [ht, Option.getD_some]
      exact .known meaning ht ⟨s, storage, by simpa using kind, rfl⟩
    · cases known
  | @constant _ _ id name t' n found =>
    have present : id.name ≠ "" := by simpa using intact
    rw [Check.denotes_eq_builtin_iff] at found
    rw [Check.value_name names present found rfl] at known
    obtain rfl : n = v := Option.some.inj known
    exact .constant found
  | unary found operand =>
    rw [Check.value_unary names (Check.denotes_eq_builtin_iff.1 found)] at known
    cases known
  | binary found operand operand' | same found operand operand' =>
    rw [Check.value_binary names (Check.denotes_eq_builtin_iff.1 found)] at known
    cases known
  | @call _ _ callee _ _ _ _ _ found passed =>
    have present : callee.name ≠ "" := by simpa using (Expr.all_call.1 intact).2.1
    rw [Check.value_call names present (Check.denotes_eq_builtin_iff.1 found)
      (Check.passed_count passed)] at known
    cases known

end Expressions

section Declarations

open Check (Scoped Typed contextOf meaningIn entities allEntities)

variable {site : Check.Site}

mutual

/-- Every declaration that nothing is wrong with has code. -/
theorem exists_declCode : ∀ (d : Decl) {block : Check.Block} {L : List Entity},
    d.All (fun n => n.isIntact = true) → Scoped (block.frame :: site.outer) L → Typed L →
      Laid L block.offset → (Check.decl site block d).Silent →
      ∃ is words, decl (Check.decl site block d).value.1 = .ok (is, words) ∧
        (Check.decl site block d).value.2.offset = block.offset + words ∧
        DeclCode L block.offset d ((entities (Check.decl site block d).value.1).reverse ++ L)
          (block.offset + words) is
  | .const pos ty storage name x, block, L, intact, names, typed, laid, silent => by
    obtain ⟨-, present, intact⟩ := Decl.all_const.1 intact
    replace present : name.name ≠ "" := by simpa using present
    obtain ⟨t, s, g, h, value, hs, -, -, eq⟩ :=
      Check.const_of_silent names typed present intact.complete silent
    rw [eq]
    unfold Check.constStorage at hs
    split at hs
    · next v known =>
      subst hs
      refine ⟨[], 0, rfl, rfl, .known (exprCode_of_knownValue? names typed intact h known) rfl rfl
        rfl ⟨_, rfl, rfl, rfl⟩⟩
    · next unknown =>
      subst hs
      have inside : Scoped (site.env block).chain L := names
      obtain ⟨is, code, rule⟩ := exists_exprCode inside typed laid x intact h value
      have size := Ty.size_of_isData
        (Check.isData_of_ne (Check.hasType_ne_any typed h) value)
      refine ⟨is, 1, ?_, ?_, .const rule rfl rfl rfl ⟨_, rfl, rfl, size, rfl⟩⟩
      · simp [decl, constDecl, declStorage, Check.allocate, code, size]
      · simp [Check.allocate, size]
  | .var pos ty storage name typeName, block, L, intact, names, typed, laid, silent => by
    obtain ⟨-, present, present'⟩ := Decl.all_var.1 intact
    replace present : name.name ≠ "" := by simpa using present
    replace present' : typeName.name ≠ "" := by simpa using present'
    obtain ⟨t, s, g, found, hs, -, -, eq⟩ := Check.var_of_silent names present present' silent
    rw [eq]
    subst hs
    have size : t.size = 1 :=
      Ty.size_of_isData (Builtin.isRegular_of_named? (Check.named?_of_meaningIn found))
    refine ⟨[reserveWord], 1, ?_, ?_, .var found rfl rfl rfl ⟨_, rfl, rfl, size, rfl⟩⟩
    · simp [decl, varDecl, declStorage, Check.allocate, size, reserveWord]
    · simp [Check.allocate, size]
  | .seq pos ds, block, L, intact, names, typed, laid, silent => by
    have intact := (Decl.all_seq.1 intact).2
    have silent : (Check.decls site block ds).Silent := by simpa [Check.decl] using silent
    obtain ⟨is, words, code, offset, rule⟩ :=
      exists_allDeclCode pos ds intact names typed laid silent
    exact ⟨is, words, by simpa [Check.decl, decl] using code, by simpa [Check.decl] using offset,
      by simpa [Check.decl, entities] using rule⟩
  | .bad pos, _, _, intact, _, _, _, _ => by simp at intact
  | .builtin b, _, _, _, _, _, _, silent => by simp [Check.decl] at silent

theorem exists_allDeclCode (pos : Pos) : ∀ (ds : List Decl) {block : Check.Block}
    {L : List Entity}, (∀ d ∈ ds, d.All fun n => n.isIntact = true) →
      Scoped (block.frame :: site.outer) L → Typed L → Laid L block.offset →
      (Check.decls site block ds).Silent →
      ∃ is words, decls (Check.decls site block ds).value.1 = .ok (is, words) ∧
        (Check.decls site block ds).value.2.offset = block.offset + words ∧
        DeclCode L block.offset (.seq pos ds)
          ((allEntities (Check.decls site block ds).value.1).reverse ++ L)
          (block.offset + words) is
  | [], block, L, _, _, _, _, _ => ⟨[], 0, rfl, rfl, .nil⟩
  | d :: ds, block, L, intact, names, typed, laid, silent => by
    simp only [Check.decls, Check.Checked.silent_bind] at silent
    have first := intact d (by simp)
    have declared := Check.declared_of_silent d first.complete names typed silent.1
    obtain ⟨is, words, code, offset, rule⟩ := exists_declCode d first names typed laid silent.1
    obtain ⟨js, words', code', offset', rule'⟩ := exists_allDeclCode pos ds
      (fun d member => intact d (by simp [member])) declared.names declared.typed
      (offset ▸ rule.laid laid) silent.2.1
    rw [offset] at offset' rule'
    refine ⟨is ++ js, words + words', ?_, ?_, ?_⟩
    · simp [Check.decls, decls, code, code']
    · simp [Check.decls, offset', Nat.add_assoc]
    · simpa [Check.decls, allEntities, Nat.add_assoc] using DeclCode.cons rule rule'

end

end Declarations

section Commands

open Check (Scoped Typed contextOf meaningIn)

variable {pos : Pos} {base : Nat} {is js ks ls : List Instruction}

theorem cmd_ifElse {cond : Expr} {yes no : Cmd} (test : expr cond = .ok is)
    (then_ : cmd (base + is.length + 1) yes = .ok js)
    (else_ : cmd (base + is.length + 1 + js.length + 1) no = .ok ks) :
    cmd base (.ifElse pos cond yes no) =
      .ok (is ++ jumpIf false (base + is.length + 1 + js.length + 1) :: js ++
        jump (base + is.length + 1 + js.length + 1 + ks.length) :: ks) := by
  simp [cmd, test, then_, else_]

theorem cmd_ifEither {cond alt : Expr} {yes no : Cmd} (test : expr cond = .ok is)
    (test' : expr alt = .ok js)
    (then_ : cmd (base + is.length + 1 + js.length + 1) yes = .ok ks)
    (else_ : cmd (base + is.length + 1 + js.length + 1 + ks.length + 1) no = .ok ls) :
    cmd base (.ifEither pos cond alt yes no) =
      .ok (is ++ jumpIf true (base + is.length + 1 + js.length + 1) :: js ++
        jumpIf false (base + is.length + 1 + js.length + 1 + ks.length + 1) :: ks ++
        jump (base + is.length + 1 + js.length + 1 + ks.length + 1 + ls.length) :: ls) := by
  simp [cmd, test, test', then_, else_]

theorem cmd_whileDo {cond : Expr} {body : Cmd} (test : expr cond = .ok is)
    (inner : cmd (base + is.length + 1) body = .ok js) :
    cmd base (.whileDo pos cond body) =
      .ok (is ++ jumpIf false (base + is.length + 1 + js.length + 1) :: js ++ [jump base]) := by
  simp [cmd, test, inner]

theorem cmd_letIn {d : Decl} {body : Cmd} {words : Nat} (declared : decl d = .ok (is, words))
    (inner : cmd (base + is.length) body = .ok js) :
    cmd base (.letIn pos d body) = .ok (is ++ js ++ drop words) := by
  simp [cmd, declared, inner]

theorem exists_conditionCode {env : Check.Env} {L : List Entity} {n : Nat}
    (names : Scoped env.chain L) (typed : Typed L) (laid : Laid L n) (command : String) {x : Expr}
    (intact : x.All fun n => n.isIntact = true) (h : HasType (contextOf L) x .boolean) :
    ∃ is, expr (Check.condition env command x).value = .ok is ∧ ExprCode L x .boolean is := by
  have value := (Check.value_of_hasType names typed intact.complete h (by decide)).2
  obtain ⟨is, code, rule⟩ := exists_exprCode names typed laid x intact h (by decide)
  exact ⟨is, by simpa [Check.condition, value] using code, rule⟩

theorem exists_assignCode {p : Check.Place} {L : List Entity} (names : Scoped p.chain L)
    (typed : Typed L) (laid : Laid L p.offset) {target : Ident} {x : Expr}
    (intact : (Cmd.assign pos target x).All fun n => n.isIntact = true)
    (h : WellTyped (contextOf L) (.assign pos target x)) :
    ∃ is, cmd base (Check.cmd p (.assign pos target x)).value = .ok is ∧
      CmdCode L p.offset base (.assign pos target x) is := by
  obtain ⟨-, present, intact⟩ := Cmd.all_assign.1 intact
  replace present : target.name ≠ "" := by simpa using present
  have names : Scoped p.env.chain L := names
  cases h with
  | assign found h =>
    obtain ⟨e, meaning, kind, rfl⟩ := Check.denotes_eq_entity_iff.1 found
    obtain ⟨t, ht, data⟩ := typed.of_meaningIn meaning
    obtain ⟨a, held⟩ := laid.isHeld (Check.mem_of_meaningIn meaning).1 kind
    rw [ht, Option.getD_some] at h
    have ne := Ty.ne_void_of_isData data
    have value := (Check.value_of_hasType names typed intact.complete h ne).2
    obtain ⟨is, code, rule⟩ := exists_exprCode names typed laid x intact h ne
    have resolved := Check.resolve_of_meaningIn names present meaning
    have stored : store { target with meaning := some (.entity e) } = .ok [storeWord a] :=
      store_of_isHeld rfl kind held
    refine ⟨_, ?_, .assign meaning ht kind held rule⟩
    simp [Check.cmd, Check.assign, value, resolved, Meaning.isVariable, kind, cmd, code, stored]

theorem exists_callCode {p : Check.Place} {L : List Entity} (names : Scoped p.chain L)
    (typed : Typed L) (laid : Laid L p.offset) {callee : Ident} {a : Arg}
    (intact : (Cmd.call pos callee a).All fun n => n.isIntact = true)
    (h : WellTyped (contextOf L) (.call pos callee a)) :
    ∃ is, cmd base (Check.cmd p (.call pos callee a)).value = .ok is ∧
      CmdCode L p.offset base (.call pos callee a) is := by
  obtain ⟨-, present, intact⟩ := Cmd.all_call.1 intact
  replace present : callee.name ≠ "" := by simpa using present
  have names : Scoped p.env.chain L := names
  cases h with
  | @call _ _ _ _ name _ _ _ found passed =>
    rw [Check.denotes_eq_builtin_iff] at found
    obtain ⟨is, code, rule⟩ := exists_argCode names typed laid a name intact
      (Check.params_data found) passed
    refine ⟨_, ?_, .call found rule⟩
    simp [Check.cmd, Check.routine_of_meaningIn names present found (Check.passed_count passed),
      cmd, routineOf, code]

mutual

/-- Every well-typed command has code. -/
theorem exists_cmdCode : ∀ (c : Cmd) {p : Check.Place} {L : List Entity} (base : Nat),
    c.All (fun n => n.isIntact = true) → Scoped p.chain L → Typed L → Laid L p.offset →
      WellTyped (contextOf L) c →
      ∃ is, cmd base (Check.cmd p c).value = .ok is ∧ CmdCode L p.offset base c is
  | .skip pos explicit, p, L, base, _, _, _, _, _ => ⟨[], by simp [Check.cmd, cmd], .skip⟩
  | .bad pos, _, _, _, intact, _, _, _, _ => by simp at intact
  | .assign .., _, _, _, intact, names, typed, laid, h =>
    exists_assignCode names typed laid intact h
  | .call .., _, _, _, intact, names, typed, laid, h => exists_callCode names typed laid intact h
  | .seq pos cs, p, L, base, intact, names, typed, laid, h => by
    cases h with
    | seq all =>
      obtain ⟨is, code, rule⟩ :=
        exists_cmdsCode pos cs base (Cmd.all_seq.1 intact).2 names typed laid all
      exact ⟨is, by simpa [Check.cmd, cmd] using code, rule⟩
  | .block pos body close, p, L, base, intact, names, typed, laid, h => by
    have names : Scoped p.inBraces.chain L := names.cons_empty "block"
    cases h with
    | block inner =>
      obtain ⟨is, code, rule⟩ := exists_cmdCode body (p := p.inBraces) base
        (Cmd.all_block.1 intact).2 names typed laid inner
      exact ⟨is, by simpa [Check.cmd, cmd] using code, .block rule⟩
  | .ifElse pos cond yes no, p, L, base, intact, names, typed, laid, h => by
    obtain ⟨-, intactCond, intactYes, intactNo⟩ := Cmd.all_ifElse.1 intact
    have inside : Scoped p.env.chain L := names
    cases h with
    | ifElse h then_ else_ =>
      obtain ⟨is, test, testRule⟩ :=
        exists_conditionCode inside typed laid "if" intactCond h
      obtain ⟨js, yesCode, yesRule⟩ := exists_cmdCode yes (base + is.length + 1) intactYes names
        typed laid then_
      obtain ⟨ks, noCode, noRule⟩ := exists_cmdCode no (base + is.length + 1 + js.length + 1)
        intactNo names typed laid else_
      exact ⟨_, by simpa [Check.cmd] using cmd_ifElse test yesCode noCode,
        .ifElse testRule rfl yesRule rfl noRule⟩
  | .ifEither pos cond alt yes no, p, L, base, intact, names, typed, laid, h => by
    obtain ⟨-, intactCond, intactAlt, intactYes, intactNo⟩ := Cmd.all_ifEither.1 intact
    have inside : Scoped p.env.chain L := names
    cases h with
    | ifEither h h' then_ else_ =>
      obtain ⟨is, test, testRule⟩ :=
        exists_conditionCode inside typed laid "ifeither" intactCond h
      obtain ⟨js, test', testRule'⟩ :=
        exists_conditionCode inside typed laid "ifeither" intactAlt h'
      obtain ⟨ks, yesCode, yesRule⟩ := exists_cmdCode yes (base + is.length + 1 + js.length + 1)
        intactYes names typed laid then_
      obtain ⟨ls, noCode, noRule⟩ := exists_cmdCode no
        (base + is.length + 1 + js.length + 1 + ks.length + 1) intactNo names typed laid else_
      exact ⟨_, by simpa [Check.cmd] using cmd_ifEither test test' yesCode noCode,
        .ifEither testRule testRule' rfl yesRule rfl noRule⟩
  | .whileDo pos cond body, p, L, base, intact, names, typed, laid, h => by
    obtain ⟨-, intactCond, intactBody⟩ := Cmd.all_whileDo.1 intact
    have inside : Scoped p.env.chain L := names
    cases h with
    | whileDo h inner =>
      obtain ⟨is, test, testRule⟩ :=
        exists_conditionCode inside typed laid "while" intactCond h
      obtain ⟨js, code, rule⟩ := exists_cmdCode body (base + is.length + 1) intactBody names typed
        laid inner
      exact ⟨_, by simpa [Check.cmd] using cmd_whileDo test code, .whileDo testRule rfl rule⟩
  | .letIn pos d body, p, L, base, intact, names, typed, laid, h => by
    obtain ⟨-, intactDecl, intactBody⟩ := Cmd.all_letIn.1 intact
    let block : Check.Block := ⟨Check.letFrame, p.offset⟩
    have names : Scoped (block.frame :: p.letSite.outer) L := names.cons_empty "let"
    have complete := intactDecl.complete
    cases h with
    | letIn declares distinct inner =>
      obtain ⟨silent, rfl⟩ := Check.silent_of_declares d complete names typed declares distinct
        (fun n _ => rfl)
      have declared := Check.declared_of_silent d complete names typed silent
      obtain ⟨is, words, code, offset, rule⟩ :=
        exists_declCode d intactDecl names typed laid silent
      have place : (p.letBody (Check.decl p.letSite ⟨Check.letFrame, p.offset⟩ d).value.2).offset =
          p.offset + words := offset
      obtain ⟨js, bodyCode, bodyRule⟩ := exists_cmdCode body
        (p := p.letBody (Check.decl p.letSite ⟨Check.letFrame, p.offset⟩ d).value.2)
        (base + is.length) intactBody declared.names declared.typed
        (place ▸ rule.laid laid) inner
      rw [place] at bodyRule
      refine ⟨_, by simpa [Check.cmd] using cmd_letIn code bodyCode, ?_⟩
      have whole : CmdCode L p.offset base (.letIn pos d body)
          (is ++ js ++ drop (p.offset + words - p.offset)) := .letIn rule bodyRule
      rw [Nat.add_sub_cancel_left, List.append_assoc] at whole
      exact whole

theorem exists_cmdsCode (pos : Pos) : ∀ (cs : List Cmd) {p : Check.Place} {L : List Entity}
    (base : Nat), (∀ c ∈ cs, c.All fun n => n.isIntact = true) → Scoped p.chain L → Typed L →
      Laid L p.offset → (∀ c ∈ cs, WellTyped (contextOf L) c) →
      ∃ is, cmds base (Check.cmds p cs).value = .ok is ∧
        CmdCode L p.offset base (.seq pos cs) is
  | [], _, _, _, _, _, _, _, _ => ⟨[], by simp [Check.cmds, cmds], .seqNil⟩
  | c :: cs, p, L, base, intact, names, typed, laid, h => by
    obtain ⟨is, code, rule⟩ := exists_cmdCode c base (intact c (by simp)) names typed laid
      (h c (by simp))
    obtain ⟨js, code', rule'⟩ := exists_cmdsCode pos cs (base + is.length)
      (fun c member => intact c (by simp [member])) names typed laid
      (fun c member => h c (by simp [member]))
    refine ⟨is ++ js, ?_, .seqCons rule rule'⟩
    simp [Check.cmds, cmds, code, code']

end

end Commands

end Generate

/-- A well-typed program has code, which is that of its command and then stops the machine. -/
theorem Program.exists_code_of_wellTyped {p : Program} (intact : p.Intact) (typed : p.WellTyped)
    (distance : Int) :
    ∃ is, (Check.program distance p).program.code = .ok (is ++ [{ op := .halt }]) ∧
      Generate.CmdCode [] 0 0 p.body is := by
  obtain ⟨is, code, rule⟩ := Generate.exists_cmdCode p.body
    (p := ⟨[Check.rootFrame], distance, 0, 0⟩) 0 (Program.all_iff.1 intact).2 Check.scoped_root
    (by simp [Check.Typed]) .nil typed
  refine ⟨is, ?_, rule⟩
  simp [Check.program, Program.code, code]

end TriangleTam

import TriangleTam.Proofs.Generate.Stack

/-!
# Running the code of expressions

The code of an expression pushes the word of its value and changes nothing else on the stack, or it
comes to a fault where the expression has no value. The lemmas go from single instructions over the
standard environment to `leads_expr`.
-/

namespace TriangleTam.Generate

open Machine Semantics
open Check (meaningIn)

variable {ι ω : Type} {P : Platform ι ω} {code : List Instruction} {pc : Nat} {w : World ι ω}

section Instructions

variable {stack : List Int}

theorem exec_loadAddress (a : Nat) (s : State ι ω) :
    exec P (loadAddress a) s = some (s.next (a :: s.stack)) := rfl

theorem exec_reserveWord (s : State ι ω) :
    exec P reserveWord s = some (s.next (0 :: s.stack)) := rfl

theorem exec_jump (target : Nat) (s : State ι ω) :
    exec P (jump target) s = some (s.goto target s.stack) := rfl

/-- The word at an address stays there however much is pushed. -/
theorem exec_loadWord {a : Nat} {x : Int} (word : stack.reverse[a]? = some x) (pushed : List Int) :
    exec P (loadWord a) ⟨pc, pushed ++ stack, w⟩ = some ⟨pc + 1, x :: (pushed ++ stack), w⟩ := by
  obtain ⟨bound, rfl⟩ := List.getElem?_eq_some_iff.1 word
  rw [List.length_reverse] at bound
  have read : wordsAt (pushed ++ stack) a 1 = some [stack.reverse[a]] := by
    unfold wordsAt
    rw [if_pos (by rw [List.length_append]; omega), List.reverse_append,
      List.drop_append_of_le_length (by rw [List.length_reverse]; omega),
      List.drop_eq_getElem_cons (by rw [List.length_reverse]; exact bound)]
    rfl
  show (wordsAt (pushed ++ stack) a 1).bind _ = _
  rw [read]
  rfl

theorem exec_storeWord {stack' : List Int} {a : Nat} {x : Int}
    (written : overwrite stack a [x] = some stack') :
    exec P (storeWord a) ⟨pc, x :: stack, w⟩ = some ⟨pc + 1, stack', w⟩ := by
  show (if 1 ≤ stack.length + 1 then (overwrite stack a [x]).bind _ else none) = _
  rw [if_pos (by omega), written]
  rfl

theorem exec_callPrimitive {prim : Primitive} (real : prim ≠ .none) (s : State ι ω) :
    exec P (callPrimitive prim) s =
      (prim.run P s.stack s.world).map fun r => ⟨s.pc + 1, r.1, r.2⟩ := by
  have found : Primitive.at? prim.displacement = some prim := by
    cases prim <;> first | rfl | exact absurd rfl real
  show (Primitive.at? prim.displacement).bind _ = _
  rw [found]
  cases ran : prim.run P s.stack s.world with
  | none => simp [ran]
  | some r => simp [ran]

theorem exec_jumpIf (truth b : Bool) (target : Nat) :
    exec P (jumpIf truth target) ⟨pc, truthWord b :: stack, w⟩ =
      some ⟨if b = truth then target else pc + 1, stack, w⟩ := by
  cases truth <;> cases b <;> rfl

theorem leads_drop {words : Nat} (here : CodeAt code pc (drop words))
    (bound : words ≤ stack.length) :
    Leads P code (drop words).length ⟨pc, stack, w⟩
      (some ⟨pc + (drop words).length, stack.drop words, w⟩) := by
  unfold drop at here ⊢
  split
  · next none =>
    subst none
    exact leads_refl _
  · next some =>
    rw [if_neg some] at here
    have run := leads_exec (P := P) (s := ⟨pc, stack, w⟩) here.1 (by simp)
    have effect : exec P { op := .pop, d := words } ⟨pc, stack, w⟩ =
        .some ⟨pc + 1, stack.drop words, w⟩ := by
      show (if 0 + words ≤ stack.length then _ else _) = _
      rw [if_pos (by omega), Nat.zero_add]
      rfl
    rw [effect] at run
    exact run

end Instructions

section Environment

variable {rest : List Int}

theorem prim_ne_none {name : String} {b : Builtin} (named : Builtin.named? name = some b) :
    b.prim? ≠ some .none := by
  have every : ∀ b ∈ Builtin.all, b.prim? ≠ some .none := by decide
  exact every b (Builtin.mem_of_named? named).1

/-- The routine of an operator with one operand computes it. -/
theorem run_unary (rest : List Int) {op symbol : String} {operand result : Ty} {prim : Primitive}
    (named : Builtin.named? op = some (.unary symbol operand result prim)) {v : Value}
    (typed : v.ty = operand) :
    prim.run P (v.word :: rest) w = (applyUnary op v).map (fun r => (r.word :: rest, w)) ∧
      ∀ r, applyUnary op v = some r → r.ty = result := by
  obtain ⟨member, rfl⟩ := Builtin.mem_of_named? named
  simp only [Builtin.all, List.mem_cons, List.not_mem_nil, reduceCtorEq, Builtin.unary.injEq,
    false_or, or_false] at member
  obtain ⟨rfl, rfl, rfl, rfl⟩ := member
  cases v with
  | int | char => cases typed
  | bool b => cases b <;> exact ⟨rfl, fun r h => by cases h; rfl⟩

/-- The words the size of the operands adds to them. -/
def sizeWords (prim : Primitive) (t : Ty) : List Int :=
  if prim.needsSize then [(t.size : Int)] else []

/-- The routine that tests for equality compares values of one type. -/
theorem run_eq {u v : Value} (same : u.ty = v.ty) :
    Primitive.eq.run P (1 :: v.word :: u.word :: rest) w =
      some (truthWord (u == v) :: rest, w) := by
  have words : ([v.word] == [u.word]) = (u == v) := by
    rw [Bool.eq_iff_iff, beq_iff_eq, beq_iff_eq, List.cons.injEq, and_iff_left rfl, eq_comm]
    exact Value.word_inj same
  show (if 2 ≤ rest.length + 2 then some (truthWord ([v.word] == [u.word]) :: rest, w)
    else none) = _
  rw [if_pos (by omega), words]

theorem map_int_eq (o : Option Int) :
    o.map (fun z => (z :: rest, w)) = (o.map .int).map (fun r : Value => (r.word :: rest, w)) ∧
      ∀ r : Value, o.map .int = some r → r.ty = .integer := by
  refine ⟨by rw [Option.map_map]; rfl, ?_⟩
  intro r h
  obtain ⟨n, -, rfl⟩ := Option.map_eq_some_iff.1 h
  rfl

/-- The routine of an operator with two operands computes it. -/
theorem run_binary (rest : List Int) {op symbol : String} {left right result : Ty}
    {prim : Primitive}
    (named : Builtin.named? op = some (.binary symbol left right result prim)) {u v : Value}
    (typed : left = .any ∧ right = .any ∧ u.ty = v.ty ∨ left = u.ty ∧ right = v.ty) :
    prim.run P (sizeWords prim u.ty ++ v.word :: u.word :: rest) w =
        (applyBinary P op u v).map (fun r => (r.word :: rest, w)) ∧
      ∀ r, applyBinary P op u v = some r → r.ty = result := by
  obtain ⟨member, rfl⟩ := Builtin.mem_of_named? named
  simp only [Builtin.all, List.mem_cons, List.not_mem_nil, reduceCtorEq, Builtin.binary.injEq,
    false_or, or_false] at member
  rcases member with ⟨rfl, rfl, rfl, rfl, rfl⟩ | ⟨rfl, rfl, rfl, rfl, rfl⟩ |
    ⟨rfl, rfl, rfl, rfl, rfl⟩ | ⟨rfl, rfl, rfl, rfl, rfl⟩ | ⟨rfl, rfl, rfl, rfl, rfl⟩ |
    ⟨rfl, rfl, rfl, rfl, rfl⟩ | ⟨rfl, rfl, rfl, rfl, rfl⟩
  case inr.inr.inl =>
    have same : u.ty = v.ty := by
      rcases typed with ⟨-, -, same⟩ | ⟨left, right⟩
      · exact same
      · rw [← left, ← right]
    have size : sizeWords .eq u.ty = [1] := by cases u <;> rfl
    rw [size]
    refine ⟨?_, fun r h => by cases h; rfl⟩
    exact run_eq same
  all_goals
    rcases typed with ⟨h, -⟩ | ⟨hu, hv⟩
    · cases h
    cases u <;> cases hu
    cases v <;> cases hv
  · exact ⟨rfl, fun r h => by cases h; rfl⟩
  · exact ⟨rfl, fun r h => by cases h; rfl⟩
  · exact map_int_eq (P.add _ _)
  · exact map_int_eq (P.sub _ _)
  · exact map_int_eq (P.mult _ _)
  · exact map_int_eq (P.div _ _)

/-- A formal parameter to which a value is passed. -/
def byValue (v : Value) : Formal := ⟨v.ty, false⟩

/-- Values are passed to what has a value itself. -/
theorem byRef_eq_false {callee name : String} {params : List Formal} {result : Ty}
    {prim : Primitive} (named : Builtin.named? callee = some (.func name params result prim))
    (value : result ≠ .void) : ∀ p ∈ params, p.byRef = false := by
  obtain ⟨member, -⟩ := Builtin.mem_of_named? named
  simp only [Builtin.all, List.mem_cons, List.not_mem_nil, reduceCtorEq, Builtin.func.injEq,
    false_or, or_false] at member
  rcases member with ⟨-, rfl, rfl, -⟩ | ⟨-, rfl, rfl, -⟩ | ⟨-, rfl, rfl, -⟩ | ⟨-, rfl, rfl, -⟩ |
    ⟨-, rfl, rfl, -⟩ | ⟨-, rfl, rfl, -⟩ | ⟨-, rfl, rfl, -⟩ | ⟨-, rfl, rfl, -⟩ | ⟨-, rfl, rfl, -⟩
  all_goals simp at value ⊢

/-- The routine of a function computes it. -/
theorem run_function (rest : List Int) {callee name : String} {params : List Formal} {result : Ty}
    {prim : Primitive}
    (named : Builtin.named? callee = some (.func name params result prim)) (value : result ≠ .void)
    {v : Option Value} (passed : v.toList.map byValue = params) :
    prim.run P (v.toList.map Value.word ++ rest) w =
        (callFunction P callee v w).map (fun r => (r.1.word :: rest, r.2)) ∧
      (∀ r, callFunction P callee v w = some r → r.1.ty = result) ∧
      callWriter P callee v w = none := by
  obtain ⟨member, rfl⟩ := Builtin.mem_of_named? named
  simp only [Builtin.all, List.mem_cons, List.not_mem_nil, reduceCtorEq, Builtin.func.injEq,
    false_or, or_false] at member
  rcases member with ⟨rfl, rfl, rfl, rfl⟩ | ⟨rfl, rfl, rfl, rfl⟩ | ⟨rfl, rfl, rfl, rfl⟩ |
    ⟨rfl, rfl, rfl, rfl⟩ | ⟨rfl, rfl, rfl, rfl⟩ | ⟨rfl, rfl, rfl, rfl⟩ | ⟨rfl, rfl, rfl, rfl⟩ |
    ⟨rfl, rfl, rfl, rfl⟩ | ⟨rfl, rfl, rfl, rfl⟩
  case inl | inr.inl =>
    cases v with
    | none => cases passed
    | some v =>
      cases v <;> cases passed
      exact ⟨rfl, fun r h => by cases h; rfl, rfl⟩
  case inr.inr.inl | inr.inr.inr.inl =>
    cases v with
    | some v => cases passed
    | none =>
      refine ⟨by simp [Primitive.run, callFunction, Builtin.name]; rfl, ?_, rfl⟩
      intro r h
      obtain ⟨b, -, rfl⟩ := Option.map_eq_some_iff.1 h
      rfl
  all_goals exact absurd rfl value

/-- The routine of a procedure that writes does so. -/
theorem run_writer (rest : List Int) {callee name : String} {params : List Formal}
    {prim : Primitive}
    (named : Builtin.named? callee = some (.func name params .void prim)) {v : Option Value}
    (passed : v.toList.map byValue = params) :
    prim.run P (v.toList.map Value.word ++ rest) w =
        (callWriter P callee v w).map (fun w => (rest, w)) ∧
      callFunction P callee v w = none := by
  obtain ⟨member, rfl⟩ := Builtin.mem_of_named? named
  simp only [Builtin.all, List.mem_cons, List.not_mem_nil, reduceCtorEq, Builtin.func.injEq,
    false_and, and_false, true_and, false_or, or_false] at member
  rcases member with ⟨rfl, rfl, rfl⟩ | ⟨rfl, rfl, rfl⟩ | ⟨rfl, rfl, rfl⟩ | ⟨rfl, rfl, rfl⟩ |
    ⟨rfl, rfl, rfl⟩
  case inl | inr.inl =>
    cases v with
    | none => cases passed
    | some v => cases v <;> cases passed
  case inr.inr.inr.inr =>
    cases v with
    | some v => cases passed
    | none => exact ⟨rfl, rfl⟩
  all_goals
    cases v with
    | none => cases passed
    | some v =>
      cases v <;> cases passed
      exact ⟨rfl, rfl⟩

/-- The routine of a procedure that reads puts what it reads into its variable. -/
theorem run_reader (rest : List Int) {callee name : String} {t result : Ty} {prim : Primitive}
    (named : Builtin.named? callee = some (.func name [⟨t, true⟩] result prim)) (a : Nat) :
    prim.run P (a :: rest) w =
        (callReader P callee w).bind (fun r =>
          (overwrite rest a [r.1.word]).map fun rest => (rest, r.2)) ∧
      (∀ r, callReader P callee w = some r → r.1.ty = t) ∧ result = .void := by
  obtain ⟨member, rfl⟩ := Builtin.mem_of_named? named
  simp only [Builtin.all, List.mem_cons, List.not_mem_nil, reduceCtorEq, Builtin.func.injEq,
    List.cons.injEq, Formal.mk.injEq, Bool.true_eq_false, false_and, and_false, and_true,
    false_or, or_false] at member
  rcases member with ⟨rfl, rfl, rfl, rfl⟩ | ⟨rfl, rfl, rfl, rfl⟩
  all_goals
    refine ⟨?_, ?_, rfl⟩
    · simp only [Primitive.run, callReader, Builtin.name]
      cases w.read _ with
      | none => rfl
      | some r => exact (Option.map_eq_bind ..).symm
    · intro r h
      obtain ⟨b, -, rfl⟩ := Option.map_eq_some_iff.1 h
      rfl

end Environment

section Expressions

variable {L : List Entity} {n : Nat} {σ : Store}

/-- The value of a declared name. -/
theorem value?_of_entity (fits : Fits L n σ) {name : String} {e : Entity}
    (found : meaningIn L name = some (.entity e)) :
    ∃ v, σ.value? name = some v ∧ e.ty = some v.ty ∧ (∀ u, e.IsKnown u → v.word = u) ∧
      ∀ a, e.IsHeld a → (stackOf L σ).reverse[a]? = some v.word := by
  obtain ⟨v, lookup, known⟩ := fits.lookup found
  exact ⟨v, by simp [Store.value?, lookup], known⟩

/-- The value of a constant of the standard environment. -/
theorem value?_of_constant (fits : Fits L n σ) {id name : String} {t : Ty} {u : Int}
    (found : meaningIn L id = some (.builtin (.const name t u))) :
    ∃ v, σ.value? id = some v ∧ v.ty = t ∧ v.word = u := by
  have undeclared := fits.lookup_eq_none found
  obtain ⟨member, rfl⟩ := Builtin.mem_of_named? (Check.named?_of_meaningIn found)
  simp only [Builtin.all, List.mem_cons, List.not_mem_nil, reduceCtorEq, Builtin.const.injEq,
    false_or, or_false] at member
  rcases member with ⟨rfl, rfl, rfl⟩ | ⟨rfl, rfl, rfl⟩
  all_goals simp only [Builtin.name] at undeclared
  · exact ⟨.bool true, by simp [Store.value?, undeclared, Builtin.name], rfl, rfl⟩
  · exact ⟨.bool false, by simp [Store.value?, undeclared, Builtin.name], rfl, rfl⟩

mutual

/-- The value of an expression has its type. -/
theorem ty_eval (fits : Fits L n σ) : ∀ {x : Expr} {t : Ty} {is : List Instruction}
    {w : World ι ω} {r : Value × World ι ω}, ExprCode L x t is → eval P σ x w = some r → r.1.ty = t
  | _, _, _, _, _, .int value, h => by
    simp only [eval, value, Option.map_some, Option.some.injEq] at h
    rw [← h]
    rfl
  | _, _, _, _, _, .char value, h => by
    simp only [eval, value, Option.map_some, Option.some.injEq] at h
    rw [← h]
    rfl
  | _, _, _, _, _, .known found typed _, h | _, _, _, _, _, .held found typed _, h => by
    obtain ⟨v, value, ty, -⟩ := value?_of_entity fits found
    simp only [eval, value, Option.map_some, Option.some.injEq] at h
    rw [← h]
    exact Option.some.inj (ty.symm.trans typed)
  | _, _, _, _, _, .constant found, h => by
    obtain ⟨v, value, ty, -⟩ := value?_of_constant fits found
    simp only [eval, value, Option.map_some, Option.some.injEq] at h
    rw [← h]
    exact ty
  | _, _, _, _, _, .unary found inner, h => by
    obtain ⟨⟨v, w'⟩, value, h⟩ := Option.bind_eq_some_iff.1 h
    obtain ⟨u, applied, h⟩ := Option.bind_eq_some_iff.1 h
    cases h
    exact (run_unary (P := P) (w := w') [] (Check.named?_of_meaningIn found)
      (ty_eval fits inner value)).2 _ applied
  | _, _, _, _, _, .binary found kinds first second, h => by
    obtain ⟨⟨u, w₁⟩, value, h⟩ := Option.bind_eq_some_iff.1 h
    obtain ⟨⟨v, w₂⟩, value', h⟩ := Option.bind_eq_some_iff.1 h
    obtain ⟨r, applied, h⟩ := Option.bind_eq_some_iff.1 h
    cases h
    have left := ty_eval fits first value
    have right := ty_eval fits second value'
    refine (run_binary (P := P) (w := w₂) [] (Check.named?_of_meaningIn found)
      ?_).2 _ applied
    rw [left, right]
    exact kinds
  | _, _, _, _, _, .call found value passed, h => by
    obtain ⟨⟨v, w'⟩, param, h⟩ := Option.bind_eq_some_iff.1 h
    exact (run_function (P := P) [] (Check.named?_of_meaningIn found) value
      (ty_evalArg fits passed param)).2.1 _ h

/-- The value of an actual parameter has the type of the formal one. -/
theorem ty_evalArg (fits : Fits L n σ) : ∀ {a : Arg} {params : List Formal}
    {is : List Instruction} {w : World ι ω} {r : Option Value × World ι ω}, ArgCode L a params is →
      evalArg P σ a w = some r → r.1.toList.map byValue = params
  | _, _, _, _, _, .blank, h => by
    cases h
    rfl
  | _, _, _, _, _, .value inner, h => by
    obtain ⟨⟨v, w'⟩, value, h⟩ := Option.bind_eq_some_iff.1 h
    cases h
    have ty := ty_eval fits inner value
    simp [byValue, ty]
  | _, _, _, _, _, .var .., h => by cases h

end

theorem leads_callPrimitive {prim : Primitive} (real : prim ≠ .none)
    (here : CodeAt code pc [callPrimitive prim]) (stack : List Int) (w : World ι ω) :
    Leads P code 1 ⟨pc, stack, w⟩ ((prim.run P stack w).map fun r => ⟨pc + 1, r.1, r.2⟩) := by
  have run := leads_exec (P := P) (s := ⟨pc, stack, w⟩) here.1 (by simp [callPrimitive])
  rw [exec_callPrimitive real] at run
  exact run

theorem leads_sizeOperand {prim : Primitive} {t : Ty} (here : CodeAt code pc (sizeOperand prim t))
    (stack : List Int) (w : World ι ω) :
    Leads P code (sizeOperand prim t).length ⟨pc, stack, w⟩
      (some ⟨pc + (sizeOperand prim t).length, sizeWords prim t ++ stack, w⟩) := by
  unfold sizeOperand sizeWords at *
  split
  · next sized =>
    rw [if_pos sized] at here
    exact leads_exec (P := P) (s := ⟨pc, stack, w⟩) here.1 (by simp [loadNumber])
  · exact leads_refl _

theorem leads_loadNumber {v : Int} (here : CodeAt code pc [loadNumber v]) (stack : List Int)
    (w : World ι ω) : Leads P code 1 ⟨pc, stack, w⟩ (some ⟨pc + 1, v :: stack, w⟩) :=
  leads_exec (P := P) (s := ⟨pc, stack, w⟩) here.1 (by simp [loadNumber])

mutual

/-- The code of an expression pushes the word of its value. -/
theorem leads_expr (fits : Fits L n σ) : ∀ {x : Expr} {t : Ty} {is : List Instruction} {pc : Nat},
    ExprCode L x t is → CodeAt code pc is → ∀ (pushed : List Int) (w : World ι ω),
      Leads P code is.length ⟨pc, pushed ++ stackOf L σ, w⟩
        ((eval P σ x w).map fun r =>
          ⟨pc + is.length, r.1.word :: (pushed ++ stackOf L σ), r.2⟩)
  | _, _, _, _, .int value, here, pushed, w => by
    rw [eval, value]
    exact leads_loadNumber here _ w
  | _, _, _, _, .char value, here, pushed, w => by
    rw [eval, value]
    exact leads_loadNumber here _ w
  | _, _, _, _, .known found typed known, here, pushed, w => by
    obtain ⟨v, value, -, word, -⟩ := value?_of_entity fits found
    rw [eval, value]
    obtain rfl := word _ known
    exact leads_loadNumber here _ w
  | _, _, _, pc, .held found typed held, here, pushed, w => by
    obtain ⟨v, value, -, -, word⟩ := value?_of_entity fits found
    rw [eval, value]
    have run := leads_exec (P := P) (s := ⟨pc, pushed ++ stackOf L σ, w⟩) here.1
      (by simp [loadWord])
    rw [exec_loadWord (word _ held)] at run
    exact run
  | _, _, _, _, .constant found, here, pushed, w => by
    obtain ⟨v, value, -, rfl⟩ := value?_of_constant fits found
    rw [eval, value]
    exact leads_loadNumber here _ w
  | _, _, _, pc, @ExprCode.unary _ _ _ op x _ _ _ prim is found inner, here, pushed, w => by
    obtain ⟨here, last⟩ := codeAt_append.1 here
    have named := Check.named?_of_meaningIn found
    have real : prim ≠ .none := fun h => prim_ne_none named (by rw [h]; rfl)
    have run := (leads_expr fits inner here pushed w).bind fun r value => by
      have run := leads_callPrimitive (P := P) real last (r.1.word :: (pushed ++ stackOf L σ)) r.2
      rw [(run_unary _ named (ty_eval fits inner value)).1] at run
      exact run
    simpa [eval, Option.map_eq_bind, Option.bind_assoc, Function.comp_def, Nat.add_assoc] using run
  | _, _, _, pc, @ExprCode.binary _ _ _ x op y _ s _ _ _ _ prim is js found kinds first second,
      here, pushed, w => by
    simp only [codeAt_append, List.length_append, ← Nat.add_assoc] at here
    obtain ⟨⟨⟨here, here'⟩, size⟩, last⟩ := here
    have named := Check.named?_of_meaningIn found
    have real : prim ≠ .none := fun h => prim_ne_none named (by rw [h]; rfl)
    have run := (leads_expr fits first here pushed w).bind fun r value =>
      (leads_expr fits second here' (r.1.word :: pushed) r.2).bind fun r' value' => by
        have left := ty_eval fits first value
        have right := ty_eval fits second value'
        have sized := leads_sizeOperand (P := P) size
          (r'.1.word :: r.1.word :: (pushed ++ stackOf L σ)) r'.2
        have run := leads_callPrimitive (P := P) real last
          (sizeWords prim s ++ r'.1.word :: r.1.word :: (pushed ++ stackOf L σ)) r'.2
        rw [← left, (run_binary _ named (by rw [left, right]; exact kinds)).1, left] at run
        exact sized.trans run
    simpa [eval, Option.map_eq_bind, Option.bind_assoc, Function.comp_def, Nat.add_assoc] using run
  | _, _, _, pc, @ExprCode.call _ _ _ callee a _ _ _ prim is found value passed, here, pushed,
      w => by
    obtain ⟨here, last⟩ := codeAt_append.1 here
    have named := Check.named?_of_meaningIn found
    have real : prim ≠ .none := fun h => prim_ne_none named (by rw [h]; rfl)
    have values := byRef_eq_false named value
    have run := (leads_arg fits passed values here pushed w).bind fun r param => by
      have run := leads_callPrimitive (P := P) real last
        (r.1.toList.map Value.word ++ (pushed ++ stackOf L σ)) r.2
      rw [(run_function _ named value (ty_evalArg fits passed param)).1] at run
      exact run
    simpa [eval, Option.map_eq_bind, Option.bind_assoc, Function.comp_def, Nat.add_assoc] using run

/-- The code of an actual parameter pushes the word of its value, if it has one. -/
theorem leads_arg (fits : Fits L n σ) : ∀ {a : Arg} {params : List Formal}
    {is : List Instruction} {pc : Nat}, ArgCode L a params is → (∀ p ∈ params, p.byRef = false) →
      CodeAt code pc is → ∀ (pushed : List Int) (w : World ι ω),
      Leads P code is.length ⟨pc, pushed ++ stackOf L σ, w⟩
        ((evalArg P σ a w).map fun r =>
          ⟨pc + is.length, r.1.toList.map Value.word ++ (pushed ++ stackOf L σ), r.2⟩)
  | _, _, _, _, .blank, _, _, pushed, w => leads_refl _
  | _, _, _, _, .value inner, _, here, pushed, w => by
    have run := leads_expr fits inner here pushed w
    simpa [evalArg, Option.map_eq_bind, Option.bind_assoc, Function.comp_def] using run
  | _, _, _, _, .var .., byRef, _, _, _ => by
    cases byRef _ (List.mem_singleton.2 rfl)

end

end Expressions

end TriangleTam.Generate

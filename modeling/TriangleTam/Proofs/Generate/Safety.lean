import TriangleTam.Proofs.Generate.Balance
import TriangleTam.Proofs.Generate.Preservation

/-!
# Safety of straight code

While code runs, the words of boolean constants and variables are truth values, and so are the words
that conditional jumps and negations take. A state from which this holds for some number of steps is
safe for that many; code without jumps is safe if what follows it is, whatever value it leaves. Main
statements: `SafeFor.reaches`, a state that is safe for any number of steps leads to sound states
only, and `safe_expr`, on the code of expressions.
-/

namespace TriangleTam

/-- The word of the entity, if it is boolean, is a truth value: it is on the stack, or it is known
while compiling. -/
def Entity.HoldsTruth (e : Entity) (stack : List Int) : Prop :=
  e.ty = some .boolean → ∀ s, e.storage = some s →
    ∃ b, if s.kind = .knownValue then s.value = Machine.truthWord b
      else stack.reverse[s.offset]? = some (Machine.truthWord b)

namespace Generate

open Machine Semantics
open Check (meaningIn)

section Safe

variable {ι ω : Type} {P : Platform ι ω} {code : List Instruction} {Q : State ι ω → Prop}
  {j k : Nat} {s t : State ι ω}

/-- In the state and in all states that the machine gets to with `k` steps at most, `Q` holds. -/
def SafeFor (P : Platform ι ω) (code : List Instruction) (Q : State ι ω → Prop) :
    Nat → State ι ω → Prop
  | 0, s => Q s
  | k + 1, s => Q s ∧
    ∀ i t, code[s.pc]? = some i → exec P i s = some t → SafeFor P code Q k t

theorem SafeFor.of_succ (safe : SafeFor P code Q (k + 1) s) : SafeFor P code Q k s := by
  induction k generalizing s with
  | zero => exact safe.1
  | succ k ih => exact ⟨safe.1, fun i t here effect => ih (safe.2 i t here effect)⟩

theorem SafeFor.mono (safe : SafeFor P code Q k s) (le : j ≤ k) : SafeFor P code Q j s := by
  induction le with
  | refl => exact safe
  | step _ ih => exact ih safe.of_succ

/-- A state is safe if `Q` holds in it and the one behind it is safe for fewer steps. -/
theorem safeFor_of_exec {i : Instruction} (here : code[s.pc]? = some i) (holds : Q s)
    (next : ∀ t, exec P i s = some t → ∀ j < k, SafeFor P code Q j t) : SafeFor P code Q k s := by
  cases k with
  | zero => exact holds
  | succ k =>
    refine ⟨holds, ?_⟩
    intro i' t here' effect
    rw [here] at here'
    cases here'
    exact next t effect k (Nat.lt_succ_self k)

/-- Where a state is safe for any number of steps, `Q` holds along every run. -/
theorem SafeFor.reaches (safe : ∀ k, SafeFor P code Q k s) (run : Reaches P code s t) : Q t := by
  have all : ∀ k, SafeFor P code Q k t := by
    induction run with
    | refl => exact safe
    | step before here effect ih => exact fun k => (ih (k + 1)).2 _ _ here effect
  exact all 0

end Safe

section Sound

/-- What the instruction takes for a truth value is one, and if it is a conditional jump it is one
that generated code has. -/
structure TestsTruth (i : Instruction) (stack : List Int) : Prop where
  jumps : i.op = .jumpif → ∃ truth target, i = jumpIf truth target
  takes : i.op = .jumpif ∨ i = callPrimitive .not → ∃ b rest, stack = truthWord b :: rest

/-- The instruction takes nothing for a truth value. -/
theorem TestsTruth.of_ne {i : Instruction} (jump : i.op ≠ .jumpif) (call : i ≠ callPrimitive .not)
    (stack : List Int) : TestsTruth i stack :=
  ⟨fun op => absurd op jump, fun takes => takes.elim (absurd · jump) (absurd · call)⟩

theorem testsTruth_jumpIf (truth : Bool) (target : Nat) (b : Bool) (stack : List Int) :
    TestsTruth (jumpIf truth target) (truthWord b :: stack) :=
  ⟨fun _ => ⟨truth, target, rfl⟩, fun _ => ⟨b, stack, rfl⟩⟩

/-- The only routine of the standard environment that takes a truth value is that of negation. -/
theorem testsTruth_callPrimitive {name : String} {b : Builtin} {prim : Primitive}
    (named : Builtin.named? name = some b) (bound : b.prim? = some prim) {stack : List Int}
    (truth : ∀ symbol result, b = .unary symbol .boolean result prim →
      ∃ b rest, stack = truthWord b :: rest) : TestsTruth (callPrimitive prim) stack := by
  have every : ∀ b ∈ Builtin.all, b.prim? = some .not →
      b = .unary "\\" .boolean .boolean .not := by decide
  have negation : callPrimitive prim = callPrimitive .not → prim = .not := by
    cases prim <;> decide
  refine ⟨by simp [callPrimitive], ?_⟩
  rintro (op | same)
  · simp [callPrimitive] at op
  · obtain rfl := negation same
    exact truth _ _ (every b (Builtin.mem_of_named? named).1 bound)

variable {ι ω : Type}

/-- The state is one in which all that should be a truth value is one. `lives` says which entities
live at each address. -/
structure Sound (code : List Instruction) (lives : List (List Entity)) (s : State ι ω) : Prop where
  truths : ∃ L, lives[s.pc]? = some L ∧ ∀ e ∈ L, e.HoldsTruth s.stack
  tests : ∀ i, code[s.pc]? = some i → TestsTruth i s.stack

/-- The values of a store make the words of boolean entities truth values, however much is pushed
on top of them. -/
theorem Fits.holdsTruth {L : List Entity} {n : Nat} {σ : Store} (fits : Fits L n σ) {e : Entity}
    (member : e ∈ L) (pushed : List Int) : e.HoldsTruth (pushed ++ stackOf L σ) := by
  induction fits generalizing pushed with
  | nil => cases member
  | @known e' L n σ v rest typed kind known ih =>
    rw [stackOf_known known]
    rcases List.mem_cons.1 member with rfl | member
    · intro boolean s storage
      rw [typed, Option.some.injEq] at boolean
      obtain ⟨b, rfl⟩ := exists_bool_of_ty boolean
      obtain ⟨s', storage', value, word⟩ := known
      rw [storage] at storage'
      cases storage'
      exact ⟨b, by rw [if_pos value]; exact word⟩
    · exact ih member pushed
  | @held e' L n σ v rest typed held ih =>
    rw [stackOf_held held]
    rcases List.mem_cons.1 member with rfl | member
    · intro boolean s storage
      rw [typed, Option.some.injEq] at boolean
      obtain ⟨b, rfl⟩ := exists_bool_of_ty boolean
      obtain ⟨s', storage', offset, -, kept⟩ := exists_storage_of_isHeld held
      rw [storage] at storage'
      cases storage'
      refine ⟨b, ?_⟩
      rw [if_neg kept, offset, ← rest.length_stackOf]
      simp [Value.word]
    · simpa using ih member (pushed ++ [v.word])

end Sound

section Straight

/-- The code `is` stands at the address `pc`, and while it runs the entities of `L` live. -/
def Steady (code : List Instruction) (lives : List (List Entity)) (L : List Entity) (pc : Nat) :
    List Instruction → Prop
  | [] => True
  | i :: is => code[pc]? = some i ∧ lives[pc]? = some L ∧ Steady code lives L (pc + 1) is

variable {code : List Instruction} {lives : List (List Entity)} {L : List Entity} {pc : Nat}

@[simp] theorem steady_append {is js : List Instruction} :
    Steady code lives L pc (is ++ js) ↔
      Steady code lives L pc is ∧ Steady code lives L (pc + is.length) js := by
  induction is generalizing pc with
  | nil => simp [Steady]
  | cons i is ih =>
    simp only [List.cons_append, Steady, ih, List.length_cons, and_assoc]
    rw [Nat.add_right_comm, Nat.add_assoc]

variable {ι ω : Type} {P : Platform ι ω} {n k : Nat} {σ : Store}

/-- A state at an instruction whose operands are on top of the words of entities. -/
theorem sound_of_steady (fits : Fits L n σ) (pushed : List Int) {i : Instruction}
    (steady : Steady code lives L pc [i]) {w : World ι ω}
    (tests : TestsTruth i (pushed ++ stackOf L σ)) :
    Sound code lives ⟨pc, pushed ++ stackOf L σ, w⟩ := by
  obtain ⟨here, live, -⟩ := steady
  refine ⟨⟨L, live, fun e member => fits.holdsTruth member pushed⟩, ?_⟩
  intro i' here'
  rw [here] at here'
  cases here'
  exact tests

theorem safe_instruction (fits : Fits L n σ) (pushed : List Int) {i : Instruction}
    (steady : Steady code lives L pc [i]) {w : World ι ω}
    (tests : TestsTruth i (pushed ++ stackOf L σ))
    (next : ∀ t, exec P i ⟨pc, pushed ++ stackOf L σ, w⟩ = some t →
      SafeFor P code (Sound code lives) k t) :
    SafeFor P code (Sound code lives) k ⟨pc, pushed ++ stackOf L σ, w⟩ :=
  safeFor_of_exec steady.1 (sound_of_steady fits pushed steady tests) fun t effect _ lt =>
    (next t effect).mono (Nat.le_of_lt lt)

theorem safe_loadNumber (fits : Fits L n σ) (pushed : List Int) {v : Int}
    (steady : Steady code lives L pc [loadNumber v]) {w : World ι ω}
    (next : SafeFor P code (Sound code lives) k ⟨pc + 1, v :: (pushed ++ stackOf L σ), w⟩) :
    SafeFor P code (Sound code lives) k ⟨pc, pushed ++ stackOf L σ, w⟩ := by
  refine safe_instruction fits pushed steady (.of_ne (by simp [loadNumber]) ?_ _) ?_
  · simp [loadNumber, callPrimitive]
  · rintro t ⟨⟩
    exact next

/-- Dropping words from the top of the stack. -/
theorem safe_drop (fits : Fits L n σ) (pushed : List Int) {words : Nat}
    (steady : Steady code lives L pc (drop words))
    (bound : words ≤ (pushed ++ stackOf L σ).length) {w : World ι ω}
    (next : SafeFor P code (Sound code lives) k
      ⟨pc + (drop words).length, (pushed ++ stackOf L σ).drop words, w⟩) :
    SafeFor P code (Sound code lives) k ⟨pc, pushed ++ stackOf L σ, w⟩ := by
  unfold drop at steady next
  split at steady
  · next none =>
    subst none
    exact next
  · next some =>
    rw [if_neg some] at next
    refine safe_instruction fits pushed steady (.of_ne (by simp) (by simp [callPrimitive]) _) ?_
    intro t effect
    have popped : exec P { op := .pop, d := words } ⟨pc, pushed ++ stackOf L σ, w⟩ =
        .some ⟨pc + 1, (pushed ++ stackOf L σ).drop words, w⟩ := by
      show (if 0 + words ≤ (pushed ++ stackOf L σ).length then _ else _) = _
      rw [if_pos (by omega), Nat.zero_add]
      rfl
    rw [popped] at effect
    cases effect
    exact next

theorem safe_sizeOperand (fits : Fits L n σ) (pushed : List Int) {prim : Primitive} {t : Ty}
    (steady : Steady code lives L pc (sizeOperand prim t)) {w : World ι ω}
    (next : SafeFor P code (Sound code lives) k
      ⟨pc + (sizeOperand prim t).length, sizeWords prim t ++ pushed ++ stackOf L σ, w⟩) :
    SafeFor P code (Sound code lives) k ⟨pc, pushed ++ stackOf L σ, w⟩ := by
  unfold sizeOperand sizeWords at *
  split at steady
  · next sized =>
    simp only [sized, if_true] at next
    exact safe_loadNumber fits pushed steady next
  · next plain =>
    simp only [plain] at next
    exact next

/-- A routine with its operands on top of the stack. -/
theorem safe_call (fits : Fits L n σ) (pushed : List Int) {name : String} {b : Builtin}
    {prim : Primitive}
    (named : Builtin.named? name = some b) (bound : b.prim? = some prim)
    (steady : Steady code lives L pc [callPrimitive prim]) {w : World ι ω}
    (truth : ∀ symbol result, b = .unary symbol .boolean result prim →
      ∃ b rest, pushed ++ stackOf L σ = truthWord b :: rest)
    (next : ∀ r, prim.run P (pushed ++ stackOf L σ) w = some r →
      SafeFor P code (Sound code lives) k ⟨pc + 1, r.1, r.2⟩) :
    SafeFor P code (Sound code lives) k ⟨pc, pushed ++ stackOf L σ, w⟩ := by
  refine safe_instruction fits pushed steady (testsTruth_callPrimitive named bound truth) ?_
  intro t effect
  rw [exec_callPrimitive (fun h => prim_ne_none named (by rw [bound, h]))] at effect
  obtain ⟨r, ran, rfl⟩ := Option.map_eq_some_iff.1 effect
  exact next r ran

mutual

/-- The code of an expression is safe if what follows is, whatever value of its type it leaves. -/
theorem safe_expr (fits : Fits L n σ) : ∀ {x : Expr} {t : Ty} {is : List Instruction} {pc : Nat},
    ExprCode L x t is → Steady code lives L pc is → ∀ (pushed : List Int) (w : World ι ω),
      (∀ (v : Value) (w' : World ι ω), v.ty = t → SafeFor P code (Sound code lives) k
        ⟨pc + is.length, v.word :: (pushed ++ stackOf L σ), w'⟩) →
      SafeFor P code (Sound code lives) k ⟨pc, pushed ++ stackOf L σ, w⟩
  | _, _, _, _, @ExprCode.int _ _ _ _ m value, steady, pushed, w, next =>
    safe_loadNumber fits pushed steady (next (.int m) w rfl)
  | _, _, _, _, @ExprCode.char _ _ _ _ c value, steady, pushed, w, next =>
    safe_loadNumber fits pushed steady (next (.char c) w rfl)
  | _, _, _, _, .known found typed known, steady, pushed, w, next => by
    obtain ⟨v, -, ty, word, -⟩ := fits.lookup found
    obtain rfl := word _ known
    exact safe_loadNumber fits pushed steady (next v w (Option.some.inj (ty.symm.trans typed)))
  | _, _, _, _, .constant found, steady, pushed, w, next => by
    obtain ⟨v, -, ty, rfl⟩ := value?_of_constant fits found
    exact safe_loadNumber fits pushed steady (next v w ty)
  | _, _, _, _, .held found typed held, steady, pushed, w, next => by
    obtain ⟨v, -, ty, -, word⟩ := fits.lookup found
    refine safe_instruction fits pushed steady (.of_ne (by simp [loadWord]) ?_ _) ?_
    · simp [loadWord, callPrimitive]
    · intro t effect
      rw [exec_loadWord (word _ held)] at effect
      cases effect
      exact next v w (Option.some.inj (ty.symm.trans typed))
  | _, _, _, pc, @ExprCode.unary _ _ _ op x symbol operand result prim is found inner, steady,
      pushed, w, next => by
    obtain ⟨steady, last⟩ := steady_append.1 steady
    have named := Check.named?_of_meaningIn found
    refine safe_expr fits inner steady pushed w fun v w' ty => ?_
    refine safe_call fits (v.word :: pushed) named rfl last ?_ ?_
    · rintro _ _ ⟨⟩
      obtain ⟨b, rfl⟩ := exists_bool_of_ty ty
      exact ⟨b, pushed ++ stackOf L σ, rfl⟩
    · intro r ran
      obtain ⟨run, typed⟩ := run_unary (P := P) (w := w') (pushed ++ stackOf L σ) named ty
      rw [List.cons_append, run] at ran
      obtain ⟨u, applied, rfl⟩ := Option.map_eq_some_iff.1 ran
      simpa [Nat.add_assoc] using next u w' (typed u applied)
  | _, _, _, pc, @ExprCode.binary _ _ _ x op y symbol s t left right result prim is js found kinds
      first second, steady, pushed, w, next => by
    simp only [steady_append, List.length_append, ← Nat.add_assoc] at steady
    obtain ⟨⟨⟨steady, steady'⟩, size⟩, last⟩ := steady
    have named := Check.named?_of_meaningIn found
    refine safe_expr fits first steady pushed w fun u w' left => ?_
    refine safe_expr fits second steady' (u.word :: pushed) w' fun v w'' right => ?_
    refine safe_sizeOperand fits (v.word :: u.word :: pushed) size ?_
    refine safe_call fits _ named rfl last nofun fun r ran => ?_
    obtain ⟨run, typed⟩ := run_binary (P := P) (w := w'') (pushed ++ stackOf L σ) named
      (u := u) (v := v) (by rw [left, right]; exact kinds)
    rw [left] at run
    simp only [List.append_assoc, List.cons_append] at ran
    rw [run] at ran
    obtain ⟨z, applied, rfl⟩ := Option.map_eq_some_iff.1 ran
    simpa [Nat.add_assoc] using next z w'' (typed z applied)
  | _, _, _, pc, @ExprCode.call _ _ _ callee a name params result prim is found value passed,
      steady, pushed, w, next => by
    obtain ⟨steady, last⟩ := steady_append.1 steady
    have named := Check.named?_of_meaningIn found
    have values := byRef_eq_false named value
    refine safe_arg fits passed values steady pushed w fun v w' ty => ?_
    rw [← List.append_assoc]
    refine safe_call fits _ named rfl last nofun fun r ran => ?_
    obtain ⟨run, typed, -⟩ := run_function (P := P) (w := w') (pushed ++ stackOf L σ) named value ty
    rw [List.append_assoc, run] at ran
    obtain ⟨q, called, rfl⟩ := Option.map_eq_some_iff.1 ran
    simpa [Nat.add_assoc] using next q.1 q.2 (typed q called)

/-- The code of an actual parameter is safe if what follows is, whatever value it leaves. -/
theorem safe_arg (fits : Fits L n σ) : ∀ {a : Arg} {params : List Formal}
    {is : List Instruction} {pc : Nat}, ArgCode L a params is → (∀ p ∈ params, p.byRef = false) →
      Steady code lives L pc is → ∀ (pushed : List Int) (w : World ι ω),
      (∀ (v : Option Value) (w' : World ι ω), v.toList.map byValue = params →
        SafeFor P code (Sound code lives) k
          ⟨pc + is.length, v.toList.map Value.word ++ (pushed ++ stackOf L σ), w'⟩) →
      SafeFor P code (Sound code lives) k ⟨pc, pushed ++ stackOf L σ, w⟩
  | _, _, _, _, .blank, _, _, pushed, w, next => next none w rfl
  | _, _, _, _, .value inner, _, steady, pushed, w, next =>
    safe_expr fits inner steady pushed w fun v w' ty =>
      next (some v) w' (by simp [byValue, ty])
  | _, _, _, _, .var .., byRef, _, _, _, _ => by
    cases byRef _ (List.mem_singleton.2 rfl)

end

/-- A jump. Where it goes need only be safe for fewer steps. -/
theorem safe_jump (fits : Fits L n σ) {target : Nat}
    (steady : Steady code lives L pc [jump target]) (w : World ι ω)
    (next : ∀ j < k, SafeFor P code (Sound code lives) j ⟨target, stackOf L σ, w⟩) :
    SafeFor P code (Sound code lives) k ⟨pc, stackOf L σ, w⟩ := by
  have sound : Sound code lives ⟨pc, stackOf L σ, w⟩ :=
    sound_of_steady fits [] steady
      (.of_ne (by simp [jump]) (by simp [jump, callPrimitive]) _)
  refine safeFor_of_exec steady.1 sound fun t effect => ?_
  rw [exec_jump] at effect
  cases effect
  exact next

/-- A condition and the jump behind it. -/
theorem safe_condition (fits : Fits L n σ) {cond : Expr} {is : List Instruction}
    (test : ExprCode L cond .boolean is) {truth : Bool} {target : Nat}
    (steady : Steady code lives L pc (is ++ [jumpIf truth target])) (w : World ι ω)
    (next : ∀ (b : Bool) (w' : World ι ω), SafeFor P code (Sound code lives) k
      ⟨if b = truth then target else pc + is.length + 1, stackOf L σ, w'⟩) :
    SafeFor P code (Sound code lives) k ⟨pc, stackOf L σ, w⟩ := by
  obtain ⟨steady, last⟩ := steady_append.1 steady
  refine safe_expr fits test steady [] w fun v w' ty => ?_
  obtain ⟨b, rfl⟩ := exists_bool_of_ty ty
  refine safe_instruction fits [truthWord b] last (testsTruth_jumpIf ..) ?_
  intro t effect
  rw [List.singleton_append, exec_jumpIf] at effect
  cases effect
  exact next b w'

end Straight

end Generate

end TriangleTam

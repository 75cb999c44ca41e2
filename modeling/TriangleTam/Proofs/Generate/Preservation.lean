import TriangleTam.Proofs.Generate.Evaluation

/-!
# Compilation preserves meaning

The code of a command runs as the command does. One direction follows a run of the program and finds
the run of its code; the other takes a run of the code that ends and finds the run of the program,
along the number of instructions that are still to be executed.
-/

namespace TriangleTam

namespace Generate

open Machine Semantics
open Check (meaningIn)

variable {ι ω : Type} {P : Platform ι ω} {code : List Instruction}

section Declarations

variable {L : List Entity} {n : Nat} {σ : Store}

/-- An expression whose code pushes a number has the value it stands for. -/
theorem eval_of_known (fits : Fits L n σ) {x : Expr} {t : Ty} {u : Int}
    (value : ExprCode L x t [loadNumber u]) (w : World ι ω) :
    ∃ v, eval P σ x w = some (v, w) ∧ v.ty = t ∧ v.word = u := by
  generalize eq : [loadNumber u] = is at value
  cases value with
  | @int _ _ _ m value =>
    obtain rfl : u = m := by simpa [loadNumber] using eq
    exact ⟨.int u, by rw [eval, value]; rfl, rfl, rfl⟩
  | @char _ _ _ c value =>
    obtain rfl : u = c := by simpa [loadNumber] using eq
    exact ⟨.char c, by rw [eval, value]; rfl, rfl, rfl⟩
  | @known _ _ _ e _ m found typed known =>
    obtain rfl : u = m := by simpa [loadNumber] using eq
    obtain ⟨v, value, ty, word, -⟩ := value?_of_entity fits found
    rw [typed, Option.some.injEq] at ty
    exact ⟨v, by rw [eval, value]; rfl, ty.symm, word _ known⟩
  | held => simp [loadNumber, loadWord] at eq
  | @constant _ _ _ _ _ m found =>
    obtain rfl : u = m := by simpa [loadNumber] using eq
    obtain ⟨v, value, ty, word⟩ := value?_of_constant fits found
    exact ⟨v, by rw [eval, value]; rfl, ty, word⟩
  | unary | binary | call =>
    -- The last instruction of such code is a call.
    have last := congrArg List.getLast? eq
    simp [loadNumber, callPrimitive] at last

/-- Variables start with the word that is reserved for them. -/
theorem initial?_of_type {name : String} {t : Ty}
    (found : meaningIn L name = some (.builtin (.type t))) :
    ∃ v, initial? name = some v ∧ v.ty = t ∧ v.word = 0 := by
  obtain ⟨member, rfl⟩ := Builtin.mem_of_named? (Check.named?_of_meaningIn found)
  simp only [Builtin.all, List.mem_cons, List.not_mem_nil, reduceCtorEq, Builtin.type.injEq,
    or_false] at member
  rcases member with rfl | rfl | rfl
  · exact ⟨.int 0, rfl, rfl, rfl⟩
  · exact ⟨.char 0, rfl, rfl, rfl⟩
  · exact ⟨.bool false, rfl, rfl, rfl⟩

/-- The code of a declaration puts the words of what it declares on the stack. -/
theorem leads_decl {d : Decl} {M : List Entity} {m : Nat} {is : List Instruction}
    (h : DeclCode L n d M m is) : ∀ {σ : Store} {pc : Nat} (w : World ι ω), Fits L n σ →
      CodeAt code pc is →
      Leads P code is.length ⟨pc, stackOf L σ, w⟩
          ((declare P d σ w).map fun r => ⟨pc + is.length, stackOf M r.1, r.2⟩) ∧
        ∀ r, declare P d σ w = some r → Fits M m r.1 := by
  induction h with
  | @known L _ _ _ _ _ _ e _ _ value name kind typed known =>
    intro σ pc w fits here
    obtain ⟨v, eq, rfl, rfl⟩ := eval_of_known (P := P) fits value w
    rw [declare, eq, ← name]
    refine ⟨?_, ?_⟩
    · have same : stackOf (e :: L) ((e.name, v) :: σ) = stackOf L σ := stackOf_known known
      simpa [same] using leads_refl (P := P) ⟨pc, stackOf L σ, w⟩
    · intro r h
      cases h
      exact .known fits typed kind known
  | const value name kind typed held =>
    intro σ pc w fits here
    rw [declare, ← name]
    refine ⟨?_, ?_⟩
    · have run := leads_expr (P := P) fits value here [] w
      simpa [Option.map_eq_bind, Option.bind_assoc, Function.comp_def, stackOf_held held] using run
    · intro r h
      obtain ⟨⟨v, w'⟩, eq, h⟩ := Option.bind_eq_some_iff.1 h
      cases h
      exact .held fits (by rw [typed, ty_eval fits value eq]) held
  | @var L _ _ _ _ _ _ _ _ type name kind typed held =>
    intro σ pc w fits here
    obtain ⟨v, eq, rfl, zero⟩ := initial?_of_type type
    rw [declare, eq, ← name]
    refine ⟨?_, ?_⟩
    · have run := leads_exec (P := P) (s := ⟨pc, stackOf L σ, w⟩) here.1 (by simp [reserveWord])
      rw [exec_reserveWord] at run
      simpa [State.next, stackOf_held held, zero] using run
    · intro r h
      cases h
      exact .held fits typed held
  | nil =>
    intro σ pc w fits here
    refine ⟨leads_refl _, ?_⟩
    intro r h
    cases h
    exact fits
  | cons first rest ih ih' =>
    intro σ pc w fits here
    obtain ⟨here, here'⟩ := codeAt_append.1 here
    obtain ⟨run, fit⟩ := ih w fits here
    refine ⟨?_, ?_⟩
    · have run := run.bind fun r eq => (ih' r.2 (fit r eq) here').1
      simpa [declare, declareAll, Option.map_eq_bind, Option.bind_assoc, Function.comp_def,
        Nat.add_assoc] using run
    · intro r h
      obtain ⟨q, eq, h⟩ := Option.bind_eq_some_iff.1 h
      exact (ih' q.2 (fit q eq) here').2 r h

end Declarations

section Simple

variable {L : List Entity} {n pc : Nat} {σ : Store} {w : World ι ω} (pos : Pos)

/-- Every run from the code `is` of a command that does not loop is led to what the command does, if
it comes to an end. -/
def Simulates (P : Platform ι ω) (code : List Instruction) (L : List Entity) (n pc : Nat)
    (σ : Store) (w : World ι ω) (c : Cmd) (is : List Instruction) : Prop :=
  ∃ k o, Leads P code k ⟨pc, stackOf L σ, w⟩
      (o.map fun r : Store × World ι ω => ⟨pc + is.length, stackOf L r.1, r.2⟩) ∧
    (∀ σ' w', Exec P σ w c σ' w' ↔ o = some (σ', w')) ∧ ∀ r, o = some r → Fits L n r.1

theorem simulates_assign (fits : Fits L n σ) {target : Ident} {x : Expr} {e : Entity} {t : Ty}
    {a : Nat} {is : List Instruction} (found : meaningIn L target.name = some (.entity e))
    (typed : e.ty = some t) (kind : e.kind = .var) (held : e.IsHeld a) (value : ExprCode L x t is)
    (here : CodeAt code pc (is ++ [storeWord a])) :
    Simulates P code L n pc σ w (.assign pos target x) (is ++ [storeWord a]) := by
  obtain ⟨here, last⟩ := codeAt_append.1 here
  have assigned : ∀ r, eval P σ x w = some r →
      overwrite (stackOf L σ) a [r.1.word] = some (stackOf L (σ.assign target.name r.1)) ∧
        Fits L n (σ.assign target.name r.1) :=
    fun r eq => fits.assign found kind held (by rw [typed, ty_eval fits value eq])
  refine ⟨is.length + 1, (eval P σ x w).map fun r => (σ.assign target.name r.1, r.2), ?_, ?_, ?_⟩
  · have run := (leads_expr (P := P) fits value here [] w).bind fun r eq => by
      have run := leads_exec (P := P) (s := ⟨pc + is.length, r.1.word :: stackOf L σ, r.2⟩) last.1
        (by simp [storeWord])
      rw [exec_storeWord (assigned r eq).1] at run
      exact run
    simpa [Option.map_eq_bind, Option.bind_assoc, Function.comp_def, Nat.add_assoc] using run
  · intro σ' w'
    constructor
    · rintro ⟨⟩
      next v evaluated => rw [evaluated, Option.map_some]
    · intro eq
      obtain ⟨⟨v, w''⟩, evaluated, h⟩ := Option.map_eq_some_iff.1 eq
      cases h
      exact .assign evaluated
  · intro r eq
    obtain ⟨q, evaluated, rfl⟩ := Option.map_eq_some_iff.1 eq
    exact (assigned q evaluated).2

section Calls

variable {callee : Ident} {a : Arg} {name : String} {params : List Formal} {result : Ty}
  {prim : Primitive} {is : List Instruction}

theorem real_of_named (named : Builtin.named? callee.name = some (.func name params result prim)) :
    prim ≠ .none :=
  fun h => prim_ne_none named (by rw [h]; rfl)

/-- The result of a function called as a command is dropped. -/
theorem simulates_function (fits : Fits L n σ)
    (named : Builtin.named? callee.name = some (.func name params result prim))
    (value : result ≠ .void) (passed : ArgCode L a params is)
    (here : CodeAt code pc (is ++ [callPrimitive prim] ++ drop result.size)) :
    Simulates P code L n pc σ w (.call pos callee a)
      (is ++ [callPrimitive prim] ++ drop result.size) := by
  have size : result.size = 1 := by
    have regular := Builtin.isRegular_of_named? named
    simp only [Builtin.isRegular, Bool.and_eq_true, bne_iff_ne] at regular
    exact Ty.size_of_isData (Check.isData_of_ne regular.2 value)
  have byRef := byRef_eq_false named value
  rw [size] at here ⊢
  simp only [codeAt_append, List.length_append, ← Nat.add_assoc] at here
  obtain ⟨⟨here, last⟩, dropped⟩ := here
  refine ⟨is.length + (1 + (drop 1).length), (evalArg P σ a w).bind fun r =>
    (callFunction P callee.name r.1 r.2).map fun q => (σ, q.2), ?_, ?_, ?_⟩
  · have run := (leads_arg (P := P) fits passed byRef here [] w).bind fun r param => by
      have run := leads_callPrimitive (P := P) (real_of_named named) last
        (r.1.toList.map Value.word ++ stackOf L σ) r.2
      rw [(run_function _ named value (ty_evalArg fits passed param)).1, Option.map_map] at run
      exact run.bind fun q called => leads_drop (P := P) dropped (by simp)
    simpa [drop, Option.map_eq_bind, Option.bind_assoc, Function.comp_def, Nat.add_assoc] using run
  · intro σ' w'
    constructor
    · intro run
      cases run with
      | function param called => simp [param, called]
      | writer param called =>
        rw [(run_function [] named value (ty_evalArg fits passed param)).2.2] at called
        cases called
      | reader called =>
        cases passed
        cases byRef _ (List.mem_singleton.2 rfl)
    · intro eq
      obtain ⟨r, param, eq⟩ := Option.bind_eq_some_iff.1 eq
      obtain ⟨q, called, eq⟩ := Option.map_eq_some_iff.1 eq
      cases eq
      exact .function param called
  · intro r eq
    obtain ⟨q, -, eq⟩ := Option.bind_eq_some_iff.1 eq
    obtain ⟨q, -, rfl⟩ := Option.map_eq_some_iff.1 eq
    exact fits

theorem simulates_writer (fits : Fits L n σ)
    (named : Builtin.named? callee.name = some (.func name params .void prim))
    (byRef : ∀ p ∈ params, p.byRef = false) (passed : ArgCode L a params is)
    (here : CodeAt code pc (is ++ [callPrimitive prim])) :
    Simulates P code L n pc σ w (.call pos callee a) (is ++ [callPrimitive prim]) := by
  obtain ⟨here, last⟩ := codeAt_append.1 here
  refine ⟨is.length + 1, (evalArg P σ a w).bind fun r =>
    (callWriter P callee.name r.1 r.2).map fun w' => (σ, w'), ?_, ?_, ?_⟩
  · have run := (leads_arg (P := P) fits passed byRef here [] w).bind fun r param => by
      have run := leads_callPrimitive (P := P) (real_of_named named) last
        (r.1.toList.map Value.word ++ stackOf L σ) r.2
      rw [(run_writer _ named (ty_evalArg fits passed param)).1] at run
      exact run
    simpa [Option.map_eq_bind, Option.bind_assoc, Function.comp_def, Nat.add_assoc] using run
  · intro σ' w'
    constructor
    · intro run
      cases run with
      | function param called =>
        rw [(run_writer [] named (ty_evalArg fits passed param)).2] at called
        cases called
      | writer param called => simp [param, called]
      | reader called =>
        cases passed
        cases byRef _ (List.mem_singleton.2 rfl)
    · intro eq
      obtain ⟨r, param, eq⟩ := Option.bind_eq_some_iff.1 eq
      obtain ⟨q, called, eq⟩ := Option.map_eq_some_iff.1 eq
      cases eq
      exact .writer param called
  · intro r eq
    obtain ⟨q, -, eq⟩ := Option.bind_eq_some_iff.1 eq
    obtain ⟨q, -, rfl⟩ := Option.map_eq_some_iff.1 eq
    exact fits

theorem simulates_reader (fits : Fits L n σ) {pos' : Pos} {id : Ident} {e : Entity} {t : Ty}
    {address : Nat} (named : Builtin.named? callee.name = some (.func name [⟨t, true⟩] .void prim))
    (found : meaningIn L id.name = some (.entity e)) (typed : e.ty = some t) (kind : e.kind = .var)
    (held : e.IsHeld address)
    (here : CodeAt code pc [loadAddress address, callPrimitive prim]) :
    Simulates P code L n pc σ w (.call pos callee (.var pos' id))
      [loadAddress address, callPrimitive prim] := by
  obtain ⟨here, last⟩ := here
  obtain ⟨ran, ty, -⟩ := run_reader (P := P) (w := w) (stackOf L σ) named address
  have assigned : ∀ r, callReader P callee.name w = some r →
      overwrite (stackOf L σ) address [r.1.word] = some (stackOf L (σ.assign id.name r.1)) ∧
        Fits L n (σ.assign id.name r.1) :=
    fun r eq => fits.assign found kind held (by rw [typed, ty r eq])
  refine ⟨1 + 1, (callReader P callee.name w).map fun r => (σ.assign id.name r.1, r.2), ?_, ?_, ?_⟩
  · have pushed := leads_exec (P := P) (s := ⟨pc, stackOf L σ, w⟩) here (by simp [loadAddress])
    rw [exec_loadAddress] at pushed
    have run := leads_callPrimitive (P := P) (real_of_named named) last
      (address :: stackOf L σ) w
    have effect : prim.run P (address :: stackOf L σ) w =
        (callReader P callee.name w).map fun r => (stackOf L (σ.assign id.name r.1), r.2) := by
      rw [ran]
      cases called : callReader P callee.name w with
      | none => rfl
      | some r =>
        rw [Option.bind_some, (assigned r called).1]
        rfl
    rw [effect] at run
    simpa [Function.comp_def] using pushed.trans run
  · intro σ' w'
    constructor
    · intro run
      cases run with
      | function param | writer param => cases param
      | reader called => simp [called]
    · intro eq
      obtain ⟨r, called, eq⟩ := Option.map_eq_some_iff.1 eq
      cases eq
      exact .reader called
  · intro r eq
    obtain ⟨q, called, rfl⟩ := Option.map_eq_some_iff.1 eq
    exact (assigned q called).2

theorem simulates_call (fits : Fits L n σ)
    (found : meaningIn L callee.name = some (.builtin (.func name params result prim)))
    (passed : ArgCode L a params is)
    (here : CodeAt code pc (is ++ [callPrimitive prim] ++ drop result.size)) :
    Simulates P code L n pc σ w (.call pos callee a)
      (is ++ [callPrimitive prim] ++ drop result.size) := by
  have named := Check.named?_of_meaningIn found
  by_cases value : result = .void
  · subst value
    rw [show drop Ty.void.size = [] from rfl, List.append_nil] at here ⊢
    cases passed with
    | blank => exact simulates_writer pos fits named (by simp) .blank here
    | value inner => exact simulates_writer pos fits named (by simp) (.value inner) here
    | var declared typed kind held =>
      exact simulates_reader pos fits named declared typed kind held here
  · exact simulates_function pos fits named value passed here

end Calls

end Simple

section Control

variable {L : List Entity} {n pc : Nat} {σ : Store}

theorem exists_bool_of_ty {v : Value} (h : v.ty = .boolean) : ∃ b, v = .bool b := by
  cases v with
  | bool b => exact ⟨b, rfl⟩
  | int | char => cases h

/-- A condition and the jump behind it. -/
theorem leads_condition (fits : Fits L n σ) {cond : Expr} {is : List Instruction}
    (test : ExprCode L cond .boolean is) (here : CodeAt code pc is) {truth : Bool} {target : Nat}
    (last : code[pc + is.length]? = some (jumpIf truth target)) (w : World ι ω) :
    Leads P code (is.length + 1) ⟨pc, stackOf L σ, w⟩
      ((eval P σ cond w).map fun r =>
        ⟨if r.1 = .bool truth then target else pc + is.length + 1, stackOf L σ, r.2⟩) := by
  have run := (leads_expr (P := P) fits test here [] w).bind fun r eq => by
    obtain ⟨b, hb⟩ := exists_bool_of_ty (ty_eval fits test eq)
    have run := leads_exec (P := P) (s := ⟨pc + is.length, truthWord b :: stackOf L σ, r.2⟩) last
      (by simp [jumpIf])
    rw [exec_jumpIf] at run
    have word : r.1.word = truthWord b := by rw [hb, Value.word]
    have same : (r.1 = .bool truth) = (b = truth) := by rw [hb, Value.bool.injEq]
    rw [← word] at run
    simp only [← same] at run
    exact run
  simpa [Option.map_eq_bind, Option.bind_assoc, Function.comp_def] using run

theorem leads_condition_of_eval (fits : Fits L n σ) {cond : Expr} {is : List Instruction}
    (test : ExprCode L cond .boolean is) (here : CodeAt code pc is) {truth b : Bool} {target : Nat}
    (last : code[pc + is.length]? = some (jumpIf truth target)) {w w' : World ι ω}
    (eq : eval P σ cond w = some (.bool b, w')) :
    Leads P code (is.length + 1) ⟨pc, stackOf L σ, w⟩
      (some ⟨if b = truth then target else pc + is.length + 1, stackOf L σ, w'⟩) := by
  have run := leads_condition (P := P) fits test here last w
  rw [eq] at run
  simpa using run

theorem leads_jump {target : Nat} (here : code[pc]? = some (jump target)) (stack : List Int)
    (w : World ι ω) : Leads P code 1 ⟨pc, stack, w⟩ (some ⟨target, stack, w⟩) := by
  have run := leads_exec (P := P) (s := ⟨pc, stack, w⟩) here (by simp [jump])
  rw [exec_jump] at run
  exact run

/-- Behind the body of a `let`, its words are dropped. -/
theorem leads_letDrop {M : List Entity} {m : Nat} {d : Decl} {is : List Instruction} {τ : Store}
    (fits : Fits L n σ) (h : DeclCode L n d M m is) (declared : Fits M m τ) {σ' : Store}
    (fits' : Fits M m σ') (here : CodeAt code pc (drop (m - n))) (w : World ι ω) :
    Fits L n (σ'.drop (τ.length - σ.length)) ∧
      Leads P code (drop (m - n)).length ⟨pc, stackOf M σ', w⟩
        (some ⟨pc + (drop (m - n)).length, stackOf L (σ'.drop (τ.length - σ.length)), w⟩) := by
  obtain ⟨-, -, kept, stack⟩ := h.fits_drop fits'
  rw [← declared.length_eq, ← fits.length_eq] at kept stack
  refine ⟨kept, ?_⟩
  rw [stack]
  refine leads_drop here ?_
  rw [fits'.length_stackOf]
  exact Nat.sub_le m n

theorem Simulates.leads {w w' : World ι ω} {σ' : Store} {c : Cmd} {is : List Instruction}
    (h : Simulates P code L n pc σ w c is) (run : Exec P σ w c σ' w') :
    Fits L n σ' ∧ ∃ k, Leads P code k ⟨pc, stackOf L σ, w⟩
      (some ⟨pc + is.length, stackOf L σ', w'⟩) := by
  obtain ⟨k, o, leads, effect, fits⟩ := h
  obtain rfl := (effect σ' w').1 run
  exact ⟨fits _ rfl, k, leads⟩

theorem length_pieces {is js ks : List Instruction} {i j : Instruction} :
    pc + (is ++ i :: js ++ j :: ks).length = pc + is.length + 1 + js.length + 1 + ks.length := by
  simp only [List.length_append, List.length_cons]
  omega

theorem length_fourPieces {is js ks ls : List Instruction} {i j l : Instruction} :
    pc + (is ++ i :: js ++ j :: ks ++ l :: ls).length =
      pc + is.length + 1 + js.length + 1 + ks.length + 1 + ls.length := by
  rw [List.length_append, ← Nat.add_assoc, length_pieces, List.length_cons]
  omega

/-- Three pieces of code with an instruction between each two. -/
theorem codeAt_pieces {is js ks : List Instruction} {i j : Instruction} :
    CodeAt code pc (is ++ i :: js ++ j :: ks) ↔
      CodeAt code pc is ∧ code[pc + is.length]? = some i ∧ CodeAt code (pc + is.length + 1) js ∧
        code[pc + is.length + 1 + js.length]? = some j ∧
        CodeAt code (pc + is.length + 1 + js.length + 1) ks := by
  have length : pc + (is ++ i :: js).length = pc + is.length + 1 + js.length := by
    rw [List.length_append, List.length_cons]
    omega
  rw [codeAt_append, codeAt_append, codeAt_cons, codeAt_cons, length, and_assoc, and_assoc]

/-- Where a command comes to an end, so does its code. -/
theorem leads_of_exec {σ σ' : Store} {w w' : World ι ω} {c : Cmd} (h : Exec P σ w c σ' w') :
    ∀ {L n base is}, CmdCode L n base c is → Fits L n σ → CodeAt code base is →
      Fits L n σ' ∧ ∃ k, Leads P code k ⟨base, stackOf L σ, w⟩
        (some ⟨base + is.length, stackOf L σ', w'⟩) := by
  induction h with
  | skip =>
    rintro L n base is ⟨⟩ fits here
    exact ⟨fits, 0, leads_refl _⟩
  | @assign _ _ pos _ _ _ _ eq =>
    intro L n base is rule fits here
    cases rule with
    | assign found typed kind held value =>
      exact (simulates_assign pos fits found typed kind held value here).leads (.assign eq)
  | @function _ _ pos _ _ _ _ _ _ param called =>
    intro L n base is rule fits here
    cases rule with
    | call found passed =>
      exact (simulates_call pos fits found passed here).leads (.function param called)
  | @writer _ _ pos _ _ _ _ _ param called =>
    intro L n base is rule fits here
    cases rule with
    | call found passed =>
      exact (simulates_call pos fits found passed here).leads (.writer param called)
  | @reader _ _ pos _ _ _ _ _ called =>
    intro L n base is rule fits here
    cases rule with
    | call found passed =>
      exact (simulates_call pos fits found passed here).leads (.reader called)
  | seqNil =>
    rintro L n base is ⟨⟩ fits here
    exact ⟨fits, 0, leads_refl _⟩
  | seqCons first rest ih ih' =>
    intro L n base is rule fits here
    cases rule with
    | seqCons rule rule' =>
      obtain ⟨here, here'⟩ := codeAt_append.1 here
      obtain ⟨fits, k, run⟩ := ih rule fits here
      obtain ⟨fits, k', run'⟩ := ih' rule' fits here'
      refine ⟨fits, k + k', ?_⟩
      rw [List.length_append, ← Nat.add_assoc]
      exact run.trans run'
  | block inner ih =>
    intro L n base is rule fits here
    cases rule with
    | block rule => exact ih rule fits here
  | ifTrue holds branch ih =>
    intro L n base is rule fits here
    cases rule with
    | @ifElse _ _ _ _ _ _ _ is js ks _ _ test yesHere then_ noHere else_ =>
      subst yesHere noHere
      obtain ⟨here, last, here', out, -⟩ := codeAt_pieces.1 here
      have tested := leads_condition_of_eval fits test here last holds
      obtain ⟨fits, k, run⟩ := ih then_ fits here'
      refine ⟨fits, is.length + 1 + k + 1, ?_⟩
      rw [length_pieces]
      exact (tested.trans run).trans (leads_jump out _ _)
  | ifFalse fails branch ih =>
    intro L n base is rule fits here
    cases rule with
    | @ifElse _ _ _ _ _ _ _ is js ks _ _ test yesHere then_ noHere else_ =>
      subst yesHere noHere
      obtain ⟨here, last, -, -, here'⟩ := codeAt_pieces.1 here
      have tested := leads_condition_of_eval fits test here last fails
      obtain ⟨fits, k, run⟩ := ih else_ fits here'
      refine ⟨fits, is.length + 1 + k, ?_⟩
      rw [length_pieces]
      exact tested.trans run
  | eitherFirst holds branch ih =>
    intro L n base is rule fits here
    cases rule with
    | @ifEither _ _ _ _ _ _ _ _ is js ks ls _ _ test test' yesHere then_ noHere else_ =>
      subst yesHere noHere
      obtain ⟨front, back⟩ := codeAt_append.1 here
      rw [length_pieces] at back
      obtain ⟨here, last, -, -, here'⟩ := codeAt_pieces.1 front
      have tested := leads_condition_of_eval fits test here last holds
      obtain ⟨fits, k, run⟩ := ih then_ fits here'
      refine ⟨fits, is.length + 1 + k + 1, ?_⟩
      rw [length_fourPieces]
      exact (tested.trans run).trans (leads_jump back.1 _ _)
  | eitherSecond fails holds branch ih =>
    intro L n base is rule fits here
    cases rule with
    | @ifEither _ _ _ _ _ _ _ _ is js ks ls _ _ test test' yesHere then_ noHere else_ =>
      subst yesHere noHere
      obtain ⟨front, back⟩ := codeAt_append.1 here
      rw [length_pieces] at back
      obtain ⟨here, last, between, last', here'⟩ := codeAt_pieces.1 front
      have tested := leads_condition_of_eval fits test here last fails
      have tested' := leads_condition_of_eval fits test' between last' holds
      obtain ⟨fits, k, run⟩ := ih then_ fits here'
      refine ⟨fits, is.length + 1 + (js.length + 1) + k + 1, ?_⟩
      rw [length_fourPieces]
      exact ((tested.trans tested').trans run).trans (leads_jump back.1 _ _)
  | eitherNeither fails fails' branch ih =>
    intro L n base is rule fits here
    cases rule with
    | @ifEither _ _ _ _ _ _ _ _ is js ks ls _ _ test test' yesHere then_ noHere else_ =>
      subst yesHere noHere
      obtain ⟨front, back⟩ := codeAt_append.1 here
      rw [length_pieces] at back
      obtain ⟨here, last, between, last', -⟩ := codeAt_pieces.1 front
      have tested := leads_condition_of_eval fits test here last fails
      have tested' := leads_condition_of_eval fits test' between last' fails'
      obtain ⟨fits, k, run⟩ := ih else_ fits back.2
      refine ⟨fits, is.length + 1 + (js.length + 1) + k, ?_⟩
      rw [length_fourPieces]
      exact (tested.trans tested').trans run
  | whileFalse fails =>
    intro L n base is rule fits here
    cases rule with
    | @whileDo _ _ _ _ _ _ is js _ test bodyHere inner =>
      subst bodyHere
      obtain ⟨here, last, -⟩ := codeAt_pieces.1 here
      refine ⟨fits, is.length + 1, ?_⟩
      rw [length_pieces]
      exact leads_condition_of_eval fits test here last fails
  | whileTrue holds once again ih ih' =>
    intro L n base is rule fits here
    cases id rule with
    | @whileDo _ _ _ _ _ _ is js _ test bodyHere inner =>
      subst bodyHere
      obtain ⟨before, last, here', back, -⟩ := codeAt_pieces.1 here
      have tested := leads_condition_of_eval fits test before last holds
      obtain ⟨fits, k, run⟩ := ih inner fits here'
      obtain ⟨fits, k', run'⟩ := ih' rule fits here
      exact ⟨fits, _, ((tested.trans run).trans (leads_jump back _ _)).trans run'⟩
  | @letIn _ _ _ _ _ _ _ _ w₂ declared inner ih =>
    intro L n base is rule fits here
    cases rule with
    | letIn declares rule =>
      obtain ⟨front, back⟩ := codeAt_append.1 here
      obtain ⟨here, here'⟩ := codeAt_append.1 front
      rw [List.length_append, ← Nat.add_assoc] at back
      obtain ⟨entered, fit⟩ := leads_decl (P := P) declares _ fits here
      rw [declared] at entered
      obtain ⟨fits', k, run⟩ := ih rule (fit _ declared) here'
      obtain ⟨kept, left⟩ := leads_letDrop (P := P) fits declares (fit _ declared) fits' back w₂
      rw [List.length_append, List.length_append, ← Nat.add_assoc, ← Nat.add_assoc]
      exact ⟨kept, _, (Leads.trans entered run).trans left⟩

theorem Simulates.exec {w W : World ι ω} {c : Cmd} {is : List Instruction} {N : Nat}
    (h : Simulates P code L n pc σ w c is)
    (ends : HaltsIn P code N ⟨pc, stackOf L σ, w⟩ W) :
    ∃ σ' w' m, m ≤ N ∧ Exec P σ w c σ' w' ∧ Fits L n σ' ∧
      HaltsIn P code m ⟨pc + is.length, stackOf L σ', w'⟩ W := by
  obtain ⟨k, o, leads, effect, fits⟩ := h
  obtain ⟨m, s, rfl, led, ends⟩ := (leads N W).1 ends
  obtain ⟨⟨σ', w'⟩, rfl, rfl⟩ := Option.map_eq_some_iff.1 led
  exact ⟨σ', w', m, by omega, (effect σ' w').2 rfl, fits _ rfl, ends⟩

/-- The condition of a run that ends has a truth value. -/
theorem eval_of_haltsIn (fits : Fits L n σ) {cond : Expr} {is : List Instruction}
    (test : ExprCode L cond .boolean is) (here : CodeAt code pc is) {truth : Bool} {target : Nat}
    (last : code[pc + is.length]? = some (jumpIf truth target)) {w W : World ι ω} {N : Nat}
    (ends : HaltsIn P code N ⟨pc, stackOf L σ, w⟩ W) :
    ∃ b w' m, m < N ∧ eval P σ cond w = some (.bool b, w') ∧
      HaltsIn P code m ⟨if b = truth then target else pc + is.length + 1, stackOf L σ, w'⟩ W := by
  obtain ⟨m, s, rfl, led, ends⟩ := (leads_condition (P := P) fits test here last w N W).1 ends
  obtain ⟨⟨v, w'⟩, eq, rfl⟩ := Option.map_eq_some_iff.1 led
  obtain ⟨b, rfl⟩ := exists_bool_of_ty (ty_eval fits test eq)
  exact ⟨b, w', m, by omega, eq, by simpa using ends⟩

/-- Where the code of a command comes to an end, so does the command. -/
theorem exec_of_haltsIn {L : List Entity} {n base : Nat} {c : Cmd} {is : List Instruction}
    (h : CmdCode L n base c is) : ∀ {σ : Store} {w W : World ι ω} {N : Nat}, Fits L n σ →
      CodeAt code base is → HaltsIn P code N ⟨base, stackOf L σ, w⟩ W →
      ∃ σ' w' m, m ≤ N ∧ Exec P σ w c σ' w' ∧ Fits L n σ' ∧
        HaltsIn P code m ⟨base + is.length, stackOf L σ', w'⟩ W := by
  induction h with
  | skip =>
    intro σ w W N fits here ends
    exact ⟨σ, w, N, Nat.le_refl N, .skip, fits, ends⟩
  | @assign _ _ _ pos _ _ _ _ _ _ found typed kind held value =>
    intro σ w W N fits here ends
    exact (simulates_assign pos fits found typed kind held value here).exec ends
  | @call _ _ _ pos _ _ _ _ _ _ _ found passed =>
    intro σ w W N fits here ends
    exact (simulates_call pos fits found passed here).exec ends
  | seqNil =>
    intro σ w W N fits here ends
    exact ⟨σ, w, N, Nat.le_refl N, .seqNil, fits, ends⟩
  | seqCons first rest ih ih' =>
    intro σ w W N fits here ends
    obtain ⟨here, here'⟩ := codeAt_append.1 here
    obtain ⟨σ₁, w₁, m, le, run, fits, ends⟩ := ih fits here ends
    obtain ⟨σ₂, w₂, m', le', run', fits, ends⟩ := ih' fits here' ends
    refine ⟨σ₂, w₂, m', Nat.le_trans le' le, .seqCons run run', fits, ?_⟩
    rw [List.length_append, ← Nat.add_assoc]
    exact ends
  | block inner ih =>
    intro σ w W N fits here ends
    obtain ⟨σ', w', m, le, run, fits, ends⟩ := ih fits here ends
    exact ⟨σ', w', m, le, .block run, fits, ends⟩
  | ifElse test yesHere then_ noHere else_ ih ih' =>
    intro σ w W N fits here ends
    subst yesHere noHere
    obtain ⟨here, last, yes, out, no⟩ := codeAt_pieces.1 here
    rw [length_pieces]
    obtain ⟨b, w₁, m, lt, eq, ends⟩ := eval_of_haltsIn fits test here last ends
    cases b with
    | true =>
      obtain ⟨σ', w', m', le, run, fits, ends⟩ := ih fits yes ends
      obtain ⟨-, ends⟩ := (leads_jump out _ _).haltsIn ends
      exact ⟨σ', w', m' - 1, by omega, .ifTrue eq run, fits, ends⟩
    | false =>
      obtain ⟨σ', w', m', le, run, fits, ends⟩ := ih' fits no ends
      exact ⟨σ', w', m', by omega, .ifFalse eq run, fits, ends⟩
  | ifEither test test' yesHere then_ noHere else_ ih ih' =>
    intro σ w W N fits here ends
    subst yesHere noHere
    obtain ⟨front, back⟩ := codeAt_append.1 here
    rw [length_pieces] at back
    rw [length_fourPieces]
    obtain ⟨here, last, between, last', yes⟩ := codeAt_pieces.1 front
    obtain ⟨b, w₁, m, lt, eq, ends⟩ := eval_of_haltsIn fits test here last ends
    cases b with
    | true =>
      obtain ⟨σ', w', m', le, run, fits, ends⟩ := ih fits yes ends
      obtain ⟨-, ends⟩ := (leads_jump back.1 _ _).haltsIn ends
      exact ⟨σ', w', m' - 1, by omega, .eitherFirst eq run, fits, ends⟩
    | false =>
      obtain ⟨b, w₂, m₂, lt', eq', ends⟩ := eval_of_haltsIn fits test' between last' ends
      cases b with
      | true =>
        obtain ⟨σ', w', m', le, run, fits, ends⟩ := ih fits yes ends
        obtain ⟨-, ends⟩ := (leads_jump back.1 _ _).haltsIn ends
        exact ⟨σ', w', m' - 1, by omega, .eitherSecond eq eq' run, fits, ends⟩
      | false =>
        obtain ⟨σ', w', m', le, run, fits, ends⟩ := ih' fits back.2 ends
        exact ⟨σ', w', m', by omega, .eitherNeither eq eq' run, fits, ends⟩
  | whileDo test bodyHere inner ih =>
    intro σ w W N fits here ends
    subst bodyHere
    rw [length_pieces]
    obtain ⟨before, last, body, back, -⟩ := codeAt_pieces.1 here
    -- Every time round, the test and the jump back take some of the instructions left.
    induction N using Nat.strongRecOn generalizing σ w with
    | ind N again =>
      obtain ⟨b, w₁, m, lt, eq, ends⟩ := eval_of_haltsIn fits test before last ends
      cases b with
      | false => exact ⟨σ, w₁, m, by omega, .whileFalse eq, fits, ends⟩
      | true =>
        obtain ⟨σ₂, w₂, m₂, le, run, fits, ends⟩ := ih fits body ends
        obtain ⟨-, ends⟩ := (leads_jump back _ _).haltsIn ends
        obtain ⟨σ', w', m', le', run', fits, ends⟩ := again (m₂ - 1) (by omega) fits ends
        exact ⟨σ', w', m', by omega, .whileTrue eq run run', fits, ends⟩
  | letIn declares rule ih =>
    intro σ w W N fits here ends
    obtain ⟨front, back⟩ := codeAt_append.1 here
    obtain ⟨here, here'⟩ := codeAt_append.1 front
    rw [List.length_append, ← Nat.add_assoc] at back
    obtain ⟨entered, fit⟩ := leads_decl (P := P) declares w fits here
    obtain ⟨m, s, rfl, led, ends⟩ := (entered N W).1 ends
    obtain ⟨⟨σ₁, w₁⟩, declared, rfl⟩ := Option.map_eq_some_iff.1 led
    obtain ⟨σ₂, w₂, m₂, le, run, fits₂, ends⟩ := ih (fit _ declared) here' ends
    obtain ⟨kept, left⟩ := leads_letDrop (P := P) fits declares (fit _ declared) fits₂ back w₂
    obtain ⟨-, ends⟩ := left.haltsIn ends
    rw [List.length_append, List.length_append, ← Nat.add_assoc, ← Nat.add_assoc]
    exact ⟨_, w₂, _, by omega, .letIn declared run, kept, ends⟩

end Control

end Generate

/-- Compilation preserves meaning: a checked program has code, and over every platform the code
started with an empty stack stops in a world exactly if the program comes to an end in it. -/
theorem Program.halts_iff_runs (p : Program) (distance : Int) (r : Check.Result)
    (intact : p.Intact) (checked : p.check distance = .ok r) (quiet : r.messages = []) :
    ∃ code, r.program.code = .ok code ∧ ∀ {ι ω : Type} (P : Platform ι ω) (w w' : World ι ω),
      Machine.Halts P code w w' ↔ p.Runs P w w' := by
  rw [p.check_eq_ok intact.literalsProper] at checked
  obtain rfl := Except.ok.inj checked
  rw [Check.Result.messages_eq_nil_iff, Check.reports_program_eq_nil_iff intact.complete] at quiet
  obtain ⟨is, code, rule⟩ := Program.exists_code_of_wellTyped intact quiet distance
  refine ⟨_, code, ?_⟩
  intro ι ω P w w'
  have whole := Machine.codeAt_self [] (is ++ [{ op := .halt }])
  have here : Machine.CodeAt (is ++ [{ op := .halt }]) 0 is := (Machine.codeAt_append.1 whole).1
  have last : (is ++ [{ op := .halt }])[0 + is.length]? = some { op := .halt } := by simp
  constructor
  · rintro ⟨N, ends⟩
    obtain ⟨σ, w₁, m, -, run, -, ends⟩ := Generate.exec_of_haltsIn rule .nil here ends
    obtain rfl := ends.world_eq last rfl
    exact ⟨σ, run⟩
  · rintro ⟨σ, run⟩
    obtain ⟨-, k, leads⟩ := Generate.leads_of_exec run rule .nil here
    exact ⟨_, leads.haltsIn_of_haltsIn (.halt last rfl)⟩

/-- A platform that reads and writes the codes of characters. -/
def Platform.text : Platform (List Int) (List Int) where
  add a b := some (a + b)
  sub a b := some (a - b)
  mult a b := some (a * b)
  div a b := if b = 0 then none else some (a.tdiv b)
  lt a b := decide (a < b)
  gt a b := decide (b < a)
  eof input := some (input.isEmpty, input)
  eol input := some (input.head? == some 10, input)
  get input := input.head?.map fun c => (c, input.tail)
  getint _ := none
  put c output := some (output ++ [c])
  putint n output := some (output ++ (toString n).toList.map fun c => (c.toNat : Int))
  puteol output := some (output ++ [10])

/-- The program `let var c : char in while \ eof() do { get(var c); put(c) }`. -/
def Program.copy : Program :=
  let at_ (line col : Int) : Pos := ⟨"", line, col⟩
  ⟨at_ 1 1, .letIn (at_ 1 1)
    (.var (at_ 1 5) none none ⟨at_ 1 9, "c", none⟩ ⟨at_ 1 13, "char", none⟩)
    (.whileDo (at_ 2 3)
      (.unary (at_ 2 9) none ⟨at_ 2 9, "\\", none⟩
        (.call (at_ 2 11) none ⟨at_ 2 11, "eof", none⟩ (.blank (at_ 2 15))))
      (.block (at_ 2 20)
        (.seq (at_ 2 22)
          [.call (at_ 2 22) ⟨at_ 2 22, "get", none⟩ (.var (at_ 2 26) ⟨at_ 2 30, "c", none⟩),
            .call (at_ 2 34) ⟨at_ 2 34, "put", none⟩
              (.value (at_ 2 38) (.name (at_ 2 38) none ⟨at_ 2 38, "c", none⟩))])
        (at_ 2 41)))⟩

theorem Program.copy_halts : ∃ r code, copy.check 0 = .ok r ∧ r.messages = [] ∧
    r.program.code = .ok code ∧
    Machine.Halts Platform.text code ⟨[72, 105], []⟩ ⟨[], [72, 105]⟩ := by
  have intact : copy.Intact := by simp [Program.Intact, Program.all_iff, copy]
  have checked : copy.check 0 = .ok (Check.program 0 copy) := by rfl
  have quiet : (Check.program 0 copy).messages = [] := by rfl
  obtain ⟨code, generated, agree⟩ := copy.halts_iff_runs 0 _ intact checked quiet
  have runs : copy.Runs Platform.text ⟨[72, 105], []⟩ ⟨[], [72, 105]⟩ := by
    refine ⟨_, @Semantics.Exec.letIn _ _ _ _ _ _ _ _ _ _ [("c", .char 105)] _ rfl ?_⟩
    refine .whileTrue rfl (.block (.seqCons (.reader rfl) (.seqCons (.writer rfl rfl) .seqNil))) ?_
    refine .whileTrue rfl (.block (.seqCons (.reader rfl) (.seqCons (.writer rfl rfl) .seqNil))) ?_
    exact .whileFalse rfl
  exact ⟨_, code, checked, quiet, generated, (agree _ _ _).2 runs⟩

end TriangleTam

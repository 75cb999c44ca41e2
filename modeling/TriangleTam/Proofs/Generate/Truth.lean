import TriangleTam.Proofs.Check.Places
import TriangleTam.Proofs.Generate.Safety

/-!
# Truth values stay truth values

Which entities live at each address of the code is read off the tree: an entity lives from where the
code of its declaration ends to where the words of its `let` are dropped. Pieces of code carry the
stack from one set of living entities to another and are sound on the way. Main statements:
`carries_cmd` on commands, and `Compilation.code_keeps_truth` on compiled texts.
-/

namespace TriangleTam

namespace Generate

open Machine Semantics Typing
open Check (Scoped Typed contextOf entities allEntities meaningIn)

mutual

/-- The entities that live before each instruction of the code of a declaration, if those of `L`
live at its start. -/
def declLives (L : List Entity) : Decl → Except Fault (List (List Entity))
  | .seq _ ds => declsLives L ds
  | d => do
    let (code, _) ← decl d
    return List.replicate code.length L

/-- The entities that live before each instruction of the code of several declarations. -/
def declsLives (L : List Entity) : List Decl → Except Fault (List (List Entity))
  | [] => .ok []
  | d :: ds => do
    let first ← declLives L d
    let rest ← declsLives ((entities d).reverse ++ L) ds
    return first ++ rest

end

mutual

/-- The entities that live before each instruction of the code of a command, if those of `L` live
around it. -/
def cmdLives (L : List Entity) : Cmd → Except Fault (List (List Entity))
  | .seq _ cs => cmdsLives L cs
  | .block _ body _ => cmdLives L body
  | .ifElse _ cond yes no => do
    let test ← expr cond
    let yes ← cmdLives L yes
    let no ← cmdLives L no
    return List.replicate (test.length + 1) L ++ yes ++ L :: no
  | .ifEither _ cond alt yes no => do
    let test ← expr cond
    let test' ← expr alt
    let yes ← cmdLives L yes
    let no ← cmdLives L no
    return List.replicate (test.length + 1) L ++ List.replicate (test'.length + 1) L ++ yes
      ++ L :: no
  | .whileDo _ cond body => do
    let test ← expr cond
    let body ← cmdLives L body
    return List.replicate (test.length + 1) L ++ body ++ [L]
  | .letIn _ d body => do
    let (_, words) ← decl d
    let entry ← declLives L d
    let body ← cmdLives ((entities d).reverse ++ L) body
    return entry ++ body ++ List.replicate (drop words).length ((entities d).reverse ++ L)
  | c => do
    let code ← cmd 0 c
    return List.replicate code.length L

/-- The entities that live before each instruction of the code of several commands. -/
def cmdsLives (L : List Entity) : List Cmd → Except Fault (List (List Entity))
  | [] => .ok []
  | c :: cs => do
    let first ← cmdLives L c
    let rest ← cmdsLives L cs
    return first ++ rest

end

section Pieces

/-- The lists `ls` are those from the address `pc` on. -/
def LivesAt (lives : List (List Entity)) (pc : Nat) : List (List Entity) → Prop
  | [] => True
  | L :: ls => lives[pc]? = some L ∧ LivesAt lives (pc + 1) ls

variable {lives : List (List Entity)} {pc : Nat}

@[simp] theorem livesAt_cons {L : List Entity} {ls : List (List Entity)} :
    LivesAt lives pc (L :: ls) ↔ lives[pc]? = some L ∧ LivesAt lives (pc + 1) ls := Iff.rfl

@[simp] theorem livesAt_append {ls ms : List (List Entity)} :
    LivesAt lives pc (ls ++ ms) ↔ LivesAt lives pc ls ∧ LivesAt lives (pc + ls.length) ms := by
  induction ls generalizing pc with
  | nil => simp [LivesAt]
  | cons L ls ih =>
    rw [List.cons_append, livesAt_cons, ih, livesAt_cons, and_assoc, List.length_cons,
      Nat.add_right_comm, Nat.add_assoc]

theorem livesAt_self (before ls : List (List Entity)) :
    LivesAt (before ++ ls) before.length ls := by
  induction ls generalizing before with
  | nil => trivial
  | cons L ls ih =>
    refine ⟨by simp, ?_⟩
    simpa using ih (before ++ [L])

theorem steady_of_livesAt {code : List Instruction} {L : List Entity} {is : List Instruction}
    (here : CodeAt code pc is) (live : LivesAt lives pc (List.replicate is.length L)) :
    Steady code lives L pc is := by
  induction is generalizing pc with
  | nil => trivial
  | cons i is ih => exact ⟨here.1, live.1, ih here.2 live.2⟩

/-- The code `is` at the address `base`, with the entities `ls` that live before each instruction,
is safe from every stack of the entities of `L` if what follows is safe from every stack of those
of `M`. -/
def Carries (base : Nat) (is : List Instruction) (ls : List (List Entity)) (L : List Entity)
    (n : Nat) (M : List Entity) (m : Nat) : Prop :=
  ls.length = is.length ∧ ∀ {ι ω : Type} (P : Platform ι ω) (code : List Instruction)
    (lives : List (List Entity)) (k : Nat), CodeAt code base is → LivesAt lives base ls →
    (∀ (σ : Store) (w : World ι ω), Fits M m σ →
      SafeFor P code (Sound code lives) k ⟨base + is.length, stackOf M σ, w⟩) →
    ∀ (σ : Store) (w : World ι ω), Fits L n σ →
      SafeFor P code (Sound code lives) k ⟨base, stackOf L σ, w⟩

variable {L M N : List Entity} {l m n base : Nat} {is js : List Instruction}
  {ls ms : List (List Entity)}

theorem carries_nil (base : Nat) (L : List Entity) (n : Nat) : Carries base [] [] L n L n :=
  ⟨rfl, fun _ _ _ _ _ _ next => next⟩

theorem Carries.append (first : Carries base is ls L l M m)
    (second : Carries (base + is.length) js ms M m N n) :
    Carries base (is ++ js) (ls ++ ms) L l N n := by
  refine ⟨by simp [first.1, second.1], ?_⟩
  intro ι ω P code lives k here live next
  obtain ⟨here, here'⟩ := codeAt_append.1 here
  obtain ⟨live, live'⟩ := livesAt_append.1 live
  rw [first.1] at live'
  refine first.2 P code lives k here live ?_
  refine second.2 P code lives k here' live' ?_
  simpa [Nat.add_assoc] using next

/-- Code without jumps that leaves the entities as they are. -/
theorem carries_of_safe
    (safe : ∀ {ι ω : Type} (P : Platform ι ω) (code : List Instruction)
      (lives : List (List Entity)) (k : Nat), Steady code lives L base is →
      (∀ (σ : Store) (w : World ι ω), Fits M m σ →
        SafeFor P code (Sound code lives) k ⟨base + is.length, stackOf M σ, w⟩) →
      ∀ (σ : Store) (w : World ι ω), Fits L n σ →
        SafeFor P code (Sound code lives) k ⟨base, stackOf L σ, w⟩) :
    Carries base is (List.replicate is.length L) L n M m :=
  ⟨List.length_replicate, fun P code lives k here live =>
    safe P code lives k (steady_of_livesAt here live)⟩

end Pieces

section Declarations

variable {L M : List Entity} {n m base : Nat} {is : List Instruction}

/-- Dropping the words of a `let` behind its body. -/
theorem DeclCode.carries_drop {d : Decl} (declared : DeclCode L n d M m is) (base : Nat) :
    Carries base (drop (m - n)) (List.replicate (drop (m - n)).length M) M m L n := by
  refine carries_of_safe fun P code lives k steady next σ w fits => ?_
  obtain ⟨-, le, kept, stack⟩ := declared.fits_drop fits
  refine safe_drop fits [] steady ?_ ?_
  · rw [List.nil_append, fits.length_stackOf]
    exact Nat.sub_le m n
  · rw [List.nil_append, ← stack]
    exact next _ w kept

theorem declLives_leaf {d : Decl} (single : ∀ pos ds, d ≠ .seq pos ds) {words : Nat}
    (made : decl d = .ok (is, words)) : declLives L d = .ok (List.replicate is.length L) := by
  cases d with
  | seq => exact absurd rfl (single _ _)
  | const | var | bad | builtin => rw [declLives, made] <;> simp

theorem carries_decl_leaf {d : Decl} (single : ∀ pos ds, d ≠ .seq pos ds)
    (declared : DeclCode L n d M m is) (base : Nat) :
    Carries base is (List.replicate is.length L) L n M m := by
  refine carries_of_safe fun P code lives k steady next σ w fits => ?_
  cases declared with
  | @known _ _ _ _ _ _ _ e t v value name kind typed known =>
    obtain ⟨u, -, ty, word⟩ := eval_of_known (P := P) fits value w
    have same : stackOf (e :: L) ((e.name, u) :: σ) = stackOf L σ := stackOf_known known
    rw [← same]
    exact next _ w (.known fits (by rw [typed, ty]) kind (by rw [word]; exact known))
  | @const _ _ _ _ _ _ _ e t _ value name kind typed held =>
    refine safe_expr fits value steady [] w fun v w' ty => ?_
    have same : stackOf (e :: L) ((e.name, v) :: σ) = v.word :: stackOf L σ := stackOf_held held
    rw [List.nil_append, ← same]
    exact next _ w' (.held fits (by rw [typed, ty]) held)
  | @var _ _ _ _ _ _ _ e t type name kind typed held =>
    obtain ⟨v, -, ty, zero⟩ := initial?_of_type type
    refine safe_instruction fits [] steady (.of_ne ?_ ?_ _) ?_
    · simp [reserveWord]
    · simp [reserveWord, callPrimitive]
    · rintro t ⟨⟩
      have same : stackOf (e :: L) ((e.name, v) :: σ) = v.word :: stackOf L σ :=
        stackOf_held held
      have step := next ((e.name, v) :: σ) w (.held fits (by rw [typed, ty]) held)
      rw [same, zero] at step
      exact step
  | nil => exact absurd rfl (single _ _)
  | cons => exact absurd rfl (single _ _)

mutual

/-- The code of declarations puts the words of what they declare on the stack. -/
theorem carries_decl : ∀ (d : Decl) {site : Check.Site} {block : Check.Block} {L : List Entity}
    (base : Nat), d.All (fun n => n.isIntact = true) → Scoped (block.frame :: site.outer) L →
      Typed L → Laid L block.offset → (Check.decl site block d).Silent →
      ∃ is words ls, decl (Check.decl site block d).value.1 = .ok (is, words) ∧
        declLives L (Check.decl site block d).value.1 = .ok ls ∧
        Carries base is ls L block.offset
          ((entities (Check.decl site block d).value.1).reverse ++ L) (block.offset + words)
  | .const pos ty storage name x, site, block, L, base, intact, names, typed, laid, silent => by
    obtain ⟨is, words, code, -, rule⟩ := exists_declCode _ intact names typed laid silent
    exact ⟨is, words, _, code, declLives_leaf (by simp [Check.decl]) code,
      carries_decl_leaf (by simp) rule base⟩
  | .var pos ty storage name typeName, site, block, L, base, intact, names, typed, laid,
      silent => by
    obtain ⟨is, words, code, -, rule⟩ := exists_declCode _ intact names typed laid silent
    exact ⟨is, words, _, code, declLives_leaf (by simp [Check.decl]) code,
      carries_decl_leaf (by simp) rule base⟩
  | .seq pos ds, site, block, L, base, intact, names, typed, laid, silent => by
    have intact := (Decl.all_seq.1 intact).2
    have silent : (Check.decls site block ds).Silent := by simpa [Check.decl] using silent
    obtain ⟨is, words, ls, code, lives, carries⟩ :=
      carries_decls ds base intact names typed laid silent
    exact ⟨is, words, ls, by simpa [Check.decl, decl] using code,
      by simpa [Check.decl, declLives] using lives, by simpa [Check.decl, entities] using carries⟩
  | .bad pos, _, _, _, _, intact, _, _, _, _ => by simp at intact
  | .builtin b, _, _, _, _, _, _, _, _, silent => by simp [Check.decl] at silent

theorem carries_decls : ∀ (ds : List Decl) {site : Check.Site} {block : Check.Block}
    {L : List Entity} (base : Nat), (∀ d ∈ ds, d.All fun n => n.isIntact = true) →
      Scoped (block.frame :: site.outer) L → Typed L → Laid L block.offset →
      (Check.decls site block ds).Silent →
      ∃ is words ls, decls (Check.decls site block ds).value.1 = .ok (is, words) ∧
        declsLives L (Check.decls site block ds).value.1 = .ok ls ∧
        Carries base is ls L block.offset
          ((allEntities (Check.decls site block ds).value.1).reverse ++ L) (block.offset + words)
  | [], site, block, L, base, _, _, _, _, _ => ⟨[], 0, [], rfl, rfl, carries_nil _ _ _⟩
  | d :: ds, site, block, L, base, intact, names, typed, laid, silent => by
    simp only [Check.decls, Check.Checked.silent_bind] at silent
    have first := intact d (by simp)
    have declared := Check.declared_of_silent d first.complete names typed silent.1
    obtain ⟨is, words, code, offset, rule⟩ := exists_declCode d first names typed laid silent.1
    obtain ⟨js, words', ls, code', lives, carries⟩ :=
      carries_decl d base first names typed laid silent.1
    rw [code] at code'
    cases code'
    obtain ⟨ks, more, ms, restCode, restLives, rest⟩ := carries_decls ds (base + is.length)
      (fun d member => intact d (by simp [member])) declared.names declared.typed
      (offset ▸ rule.laid laid) silent.2.1
    rw [offset, Nat.add_assoc] at rest
    refine ⟨is ++ ks, words + more, ls ++ ms, ?_, ?_, ?_⟩
    · simp [Check.decls, decls, code, restCode]
    · simp [Check.decls, declsLives, lives, restLives]
    · simpa [Check.decls, allEntities] using carries.append rest

end

end Declarations

section Leaves

variable {L : List Entity} {n base : Nat}

theorem carries_assign {target : Ident} {x : Expr} {e : Entity} {t : Ty} {a : Nat}
    {is : List Instruction} (found : meaningIn L target.name = some (.entity e))
    (typed : e.ty = some t) (kind : e.kind = .var) (held : e.IsHeld a) (value : ExprCode L x t is) :
    Carries base (is ++ [storeWord a]) (List.replicate (is ++ [storeWord a]).length L) L n L n := by
  refine carries_of_safe fun P code lives k steady next σ w fits => ?_
  obtain ⟨steady, last⟩ := steady_append.1 steady
  refine safe_expr fits value steady [] w fun v w' ty => ?_
  obtain ⟨written, fits'⟩ := fits.assign (v := v) found kind held (by rw [typed, ty])
  refine safe_instruction fits [v.word] last (.of_ne ?_ ?_ _) ?_
  · simp [storeWord]
  · simp [storeWord, callPrimitive]
  · intro t effect
    rw [List.singleton_append, exec_storeWord written] at effect
    cases effect
    simpa [Nat.add_assoc] using next _ w' fits'

variable {callee : Ident} {a : Arg} {name : String} {params : List Formal} {result : Ty}
  {prim : Primitive} {is : List Instruction}

theorem carries_function (found : meaningIn L callee.name =
      some (.builtin (.func name params result prim))) (value : result ≠ .void)
    (passed : ArgCode L a params is) : Carries base (is ++ [callPrimitive prim] ++ drop result.size)
      (List.replicate (is ++ [callPrimitive prim] ++ drop result.size).length L) L n L n := by
  have size : result.size = 1 :=
    Ty.size_of_isData (result_data found value)
  have named := Check.named?_of_meaningIn found
  rw [size]
  refine carries_of_safe fun P code lives k steady next σ w fits => ?_
  simp only [steady_append, List.length_append, ← Nat.add_assoc] at steady
  obtain ⟨⟨steady, last⟩, dropped⟩ := steady
  refine safe_arg fits passed (byRef_eq_false named value) steady [] w fun v w' ty => ?_
  refine safe_call fits _ named rfl last (by simp) fun r ran => ?_
  obtain ⟨run, -, -⟩ := run_function (P := P) (w := w') (stackOf L σ) named value ty
  rw [run] at ran
  obtain ⟨q, -, rfl⟩ := Option.map_eq_some_iff.1 ran
  refine safe_drop fits [q.1.word] dropped (by simp) ?_
  simpa [drop, Nat.add_assoc] using next σ q.2 fits

theorem carries_writer (named : Builtin.named? callee.name = some (.func name params .void prim))
    (byRef : ∀ p ∈ params, p.byRef = false) (passed : ArgCode L a params is) :
    Carries base (is ++ [callPrimitive prim])
      (List.replicate (is ++ [callPrimitive prim]).length L) L n L n := by
  refine carries_of_safe fun P code lives k steady next σ w fits => ?_
  obtain ⟨steady, last⟩ := steady_append.1 steady
  refine safe_arg fits passed byRef steady [] w fun v w' ty => ?_
  refine safe_call fits _ named rfl last (by simp) fun r ran => ?_
  rw [(run_writer (P := P) (w := w') (stackOf L σ) named ty).1] at ran
  obtain ⟨w'', -, rfl⟩ := Option.map_eq_some_iff.1 ran
  simpa [Nat.add_assoc] using next σ w'' fits

theorem carries_reader {id : Ident} {e : Entity} {t : Ty} {address : Nat}
    (named : Builtin.named? callee.name = some (.func name [⟨t, true⟩] .void prim))
    (found : meaningIn L id.name = some (.entity e)) (typed : e.ty = some t) (kind : e.kind = .var)
    (held : e.IsHeld address) :
    Carries base [loadAddress address, callPrimitive prim]
      (List.replicate [loadAddress address, callPrimitive prim].length L) L n L n := by
  refine carries_of_safe fun P code lives k steady next σ w fits => ?_
  obtain ⟨here, live, last⟩ := steady
  refine safe_instruction fits [] ⟨here, live, trivial⟩ (.of_ne ?_ ?_ _) ?_
  · simp [loadAddress]
  · simp [loadAddress, callPrimitive]
  · rintro t ⟨⟩
    refine safe_call fits [(address : Int)] named rfl last (by simp) fun r ran => ?_
    obtain ⟨run, ty, -⟩ := run_reader (P := P) (w := w) (stackOf L σ) named address
    rw [List.singleton_append, run] at ran
    obtain ⟨q, called, ran⟩ := Option.bind_eq_some_iff.1 ran
    obtain ⟨written, fits'⟩ := fits.assign (v := q.1) found kind held (by rw [typed, ty q called])
    rw [written] at ran
    cases ran
    exact next _ q.2 fits'

theorem carries_call (found : meaningIn L callee.name =
      some (.builtin (.func name params result prim))) (passed : ArgCode L a params is) :
    Carries base (is ++ [callPrimitive prim] ++ drop result.size)
      (List.replicate (is ++ [callPrimitive prim] ++ drop result.size).length L) L n L n := by
  have named := Check.named?_of_meaningIn found
  by_cases value : result = .void
  · subst value
    rw [show drop Ty.void.size = [] from rfl, List.append_nil]
    cases id passed with
    | blank => exact carries_writer named (by simp) passed
    | value inner => exact carries_writer named (by simp) passed
    | var declared typed kind held => exact carries_reader named declared typed kind held
  · exact carries_function found value passed

end Leaves

section Control

variable {L M : List Entity} {n base : Nat} {is js ks ls : List Instruction}
  {ys ns : List (List Entity)}

/-- The code of a condition and the jump behind it, in front of other code. -/
theorem livesAt_condition {lives : List (List Entity)} {pc : Nat} {i : Instruction}
    {code : List Instruction} {rest : List (List Entity)}
    (live : LivesAt lives pc (List.replicate (is.length + 1) L ++ rest))
    (here : CodeAt code pc is) (last : code[pc + is.length]? = some i) :
    Steady code lives L pc (is ++ [i]) ∧ LivesAt lives (pc + is.length + 1) rest := by
  obtain ⟨live, live'⟩ := livesAt_append.1 live
  refine ⟨steady_of_livesAt ?_ (by simpa using live), by simpa [Nat.add_assoc] using live'⟩
  exact codeAt_append.2 ⟨here, last, trivial⟩

/-- The code of two branches, with a jump behind the first one over the second one. -/
theorem safe_branches (then_ : Carries base js ys L n L n)
    (else_ : Carries (base + js.length + 1) ks ns L n L n) {ι ω : Type} {P : Platform ι ω}
    {code : List Instruction} {lives : List (List Entity)} {k : Nat} (yesHere : CodeAt code base js)
    (out : code[base + js.length]? = some (jump (base + js.length + 1 + ks.length)))
    (noHere : CodeAt code (base + js.length + 1) ks) (live : LivesAt lives base (ys ++ L :: ns))
    (next : ∀ (σ : Store) (w : World ι ω), Fits L n σ → SafeFor P code (Sound code lives) k
      ⟨base + js.length + 1 + ks.length, stackOf L σ, w⟩)
    {σ : Store} (fits : Fits L n σ) (w : World ι ω) :
    SafeFor P code (Sound code lives) k ⟨base, stackOf L σ, w⟩ ∧
      SafeFor P code (Sound code lives) k ⟨base + js.length + 1, stackOf L σ, w⟩ := by
  rw [livesAt_append, livesAt_cons, then_.1] at live
  obtain ⟨yesLive, outLive, noLive⟩ := live
  refine ⟨then_.2 P code lives k yesHere yesLive (fun σ w fits => ?_) σ w fits,
    else_.2 P code lives k noHere noLive next σ w fits⟩
  exact safe_jump fits ⟨out, outLive, trivial⟩ w fun _ lt => (next σ w fits).mono (Nat.le_of_lt lt)

theorem carries_ifElse {cond : Expr} (test : ExprCode L cond .boolean is)
    (then_ : Carries (base + is.length + 1) js ys L n L n)
    (else_ : Carries (base + is.length + 1 + js.length + 1) ks ns L n L n) :
    Carries base (is ++ jumpIf false (base + is.length + 1 + js.length + 1) :: js ++
        jump (base + is.length + 1 + js.length + 1 + ks.length) :: ks)
      (List.replicate (is.length + 1) L ++ ys ++ L :: ns) L n L n := by
  refine ⟨by simp [then_.1, else_.1]; omega, ?_⟩
  intro ι ω P code lives k here live next
  rw [length_pieces] at next
  obtain ⟨here, last, yesHere, out, noHere⟩ := codeAt_pieces.1 here
  rw [List.append_assoc] at live
  obtain ⟨steady, live⟩ := livesAt_condition live here last
  intro σ w fits
  have branches := safe_branches then_ else_ yesHere out noHere live next fits
  refine safe_condition fits test steady w fun b w' => ?_
  cases b with
  | true => exact (branches w').1
  | false => exact (branches w').2

theorem carries_ifEither {cond alt : Expr} (test : ExprCode L cond .boolean is)
    (test' : ExprCode L alt .boolean js)
    (then_ : Carries (base + is.length + 1 + js.length + 1) ks ys L n L n)
    (else_ : Carries (base + is.length + 1 + js.length + 1 + ks.length + 1) ls ns L n L n) :
    Carries base (is ++ jumpIf true (base + is.length + 1 + js.length + 1) :: js ++
        jumpIf false (base + is.length + 1 + js.length + 1 + ks.length + 1) :: ks ++
        jump (base + is.length + 1 + js.length + 1 + ks.length + 1 + ls.length) :: ls)
      (List.replicate (is.length + 1) L ++ List.replicate (js.length + 1) L ++ ys ++ L :: ns)
      L n L n := by
  refine ⟨by simp [then_.1, else_.1]; omega, ?_⟩
  intro ι ω P code lives k here live next
  rw [length_fourPieces] at next
  obtain ⟨front, back⟩ := codeAt_append.1 here
  rw [length_pieces] at back
  obtain ⟨out, noHere⟩ := back
  obtain ⟨here, last, here', last', yesHere⟩ := codeAt_pieces.1 front
  simp only [List.append_assoc] at live
  obtain ⟨steady, live⟩ := livesAt_condition live here last
  obtain ⟨steady', live⟩ := livesAt_condition live here' last'
  intro σ w fits
  have branches := safe_branches then_ else_ yesHere out noHere live next fits
  refine safe_condition fits test steady w fun b w' => ?_
  cases b with
  | true => exact (branches w').1
  | false =>
    refine safe_condition fits test' steady' w' fun b w'' => ?_
    cases b with
    | true => exact (branches w'').1
    | false => exact (branches w'').2

theorem carries_whileDo {cond : Expr} (test : ExprCode L cond .boolean is)
    (inner : Carries (base + is.length + 1) js ys L n L n) :
    Carries base (is ++ jumpIf false (base + is.length + 1 + js.length + 1) :: js ++ [jump base])
      (List.replicate (is.length + 1) L ++ ys ++ [L]) L n L n := by
  refine ⟨by simp [inner.1]; omega, ?_⟩
  intro ι ω P code lives k here live next
  rw [length_pieces] at next
  obtain ⟨here, last, bodyHere, back, -⟩ := codeAt_pieces.1 here
  rw [List.append_assoc] at live
  obtain ⟨steady, live⟩ := livesAt_condition live here last
  rw [livesAt_append, livesAt_cons, inner.1] at live
  obtain ⟨bodyLive, backLive, -⟩ := live
  -- A round takes a step at least, so the next one has fewer to be safe for.
  induction k using Nat.strongRecOn with
  | ind k again =>
    have body := inner.2 P code lives k bodyHere bodyLive fun σ w fits =>
      safe_jump fits ⟨back, backLive, trivial⟩ w fun j lt =>
        again j lt (fun σ w fits => (next σ w fits).mono (Nat.le_of_lt lt)) σ w fits
    intro σ w fits
    refine safe_condition fits test steady w fun b w' => ?_
    cases b with
    | true => exact body σ w' fits
    | false => exact next σ w' fits

end Control

section Commands

variable {L : List Entity} {base : Nat} {is : List Instruction}

theorem cmdLives_assign {pos : Pos} {target : Ident} {x : Expr}
    (made : cmd base (.assign pos target x) = .ok is) :
    cmdLives L (.assign pos target x) = .ok (List.replicate is.length L) := by
  have made : cmd 0 (.assign pos target x) = .ok is := by simpa only [cmd] using made
  simp [cmdLives, made]

theorem cmdLives_call {pos : Pos} {callee : Ident} {a : Arg}
    (made : cmd base (.call pos callee a) = .ok is) :
    cmdLives L (.call pos callee a) = .ok (List.replicate is.length L) := by
  have made : cmd 0 (.call pos callee a) = .ok is := by simpa only [cmd] using made
  simp [cmdLives, made]

theorem cmdLives_letIn {pos : Pos} {d : Decl} {body : Cmd} {words : Nat}
    {ls ms : List (List Entity)} (declared : decl d = .ok (is, words))
    (entry : declLives L d = .ok ls)
    (inner : cmdLives ((entities d).reverse ++ L) body = .ok ms) :
    cmdLives L (.letIn pos d body) =
      .ok (ls ++ ms ++ List.replicate (drop words).length ((entities d).reverse ++ L)) := by
  simp [cmdLives, declared, entry, inner]

mutual

/-- The code of a well-typed command is sound while it runs, and leaves the living entities as they
are. -/
theorem carries_cmd : ∀ (c : Cmd) {p : Check.Place} {L : List Entity} (base : Nat),
    c.All (fun n => n.isIntact = true) → Scoped p.chain L → Typed L → Laid L p.offset →
      WellTyped (contextOf L) c →
      ∃ is ls, cmd base (Check.cmd p c).value = .ok is ∧
        cmdLives L (Check.cmd p c).value = .ok ls ∧ Carries base is ls L p.offset L p.offset
  | .skip pos explicit, p, L, base, _, _, _, _, _ =>
    ⟨[], [], by simp [Check.cmd, cmd], by simp [Check.cmd, cmdLives, cmd], carries_nil _ _ _⟩
  | .bad pos, _, _, _, intact, _, _, _, _ => by simp at intact
  | .assign pos target x, p, L, base, intact, names, typed, laid, h => by
    obtain ⟨is, made, rule⟩ := exists_cmdCode _ base intact names typed laid h
    rw [Check.value_cmd_assign] at made ⊢
    cases rule with
    | assign found typed' kind held value =>
      exact ⟨_, _, made, cmdLives_assign made, carries_assign found typed' kind held value⟩
  | .call pos callee a, p, L, base, intact, names, typed, laid, h => by
    obtain ⟨is, made, rule⟩ := exists_cmdCode _ base intact names typed laid h
    rw [Check.value_cmd_call] at made ⊢
    cases rule with
    | call found passed => exact ⟨_, _, made, cmdLives_call made, carries_call found passed⟩
  | .seq pos cs, p, L, base, intact, names, typed, laid, h => by
    cases h with
    | seq all =>
      obtain ⟨is, ls, made, lives, carries⟩ :=
        carries_cmds cs base (Cmd.all_seq.1 intact).2 names typed laid all
      rw [Check.value_cmd_seq]
      exact ⟨is, ls, by rw [cmd, made], by rw [cmdLives, lives], carries⟩
  | .block pos body close, p, L, base, intact, names, typed, laid, h => by
    have names : Scoped p.inBraces.chain L := names.cons_empty "block"
    cases h with
    | block inner =>
      obtain ⟨is, ls, made, lives, carries⟩ := carries_cmd body (p := p.inBraces) base
        (Cmd.all_block.1 intact).2 names typed laid inner
      rw [Check.value_cmd_block]
      exact ⟨is, ls, by rw [cmd, made], by rw [cmdLives, lives], carries⟩
  | .ifElse pos cond yes no, p, L, base, intact, names, typed, laid, h => by
    obtain ⟨-, intactCond, intactYes, intactNo⟩ := Cmd.all_ifElse.1 intact
    have inside : Scoped p.env.chain L := names
    cases h with
    | ifElse h then_ else_ =>
      obtain ⟨is, test, rule⟩ := exists_exprCode inside typed laid cond intactCond h (by decide)
      obtain ⟨js, ys, yesMade, yesLives, yes⟩ := carries_cmd yes (base + is.length + 1) intactYes
        names typed laid then_
      obtain ⟨ks, ns, noMade, noLives, no⟩ := carries_cmd no (base + is.length + 1 + js.length + 1)
        intactNo names typed laid else_
      rw [Check.value_cmd_ifElse]
      exact ⟨_, _, cmd_ifElse test yesMade noMade, by simp [cmdLives, test, yesLives, noLives],
        carries_ifElse rule yes no⟩
  | .ifEither pos cond alt yes no, p, L, base, intact, names, typed, laid, h => by
    obtain ⟨-, intactCond, intactAlt, intactYes, intactNo⟩ := Cmd.all_ifEither.1 intact
    have inside : Scoped p.env.chain L := names
    cases h with
    | ifEither h h' then_ else_ =>
      obtain ⟨is, test, rule⟩ := exists_exprCode inside typed laid cond intactCond h (by decide)
      obtain ⟨js, test', rule'⟩ := exists_exprCode inside typed laid alt intactAlt h' (by decide)
      obtain ⟨ks, ys, yesMade, yesLives, yes⟩ := carries_cmd yes
        (base + is.length + 1 + js.length + 1) intactYes names typed laid then_
      obtain ⟨ls, ns, noMade, noLives, no⟩ := carries_cmd no
        (base + is.length + 1 + js.length + 1 + ks.length + 1) intactNo names typed laid else_
      rw [Check.value_cmd_ifEither]
      exact ⟨_, _, cmd_ifEither test test' yesMade noMade,
        by simp [cmdLives, test, test', yesLives, noLives], carries_ifEither rule rule' yes no⟩
  | .whileDo pos cond body, p, L, base, intact, names, typed, laid, h => by
    obtain ⟨-, intactCond, intactBody⟩ := Cmd.all_whileDo.1 intact
    have inside : Scoped p.env.chain L := names
    cases h with
    | whileDo h inner =>
      obtain ⟨is, test, rule⟩ := exists_exprCode inside typed laid cond intactCond h (by decide)
      obtain ⟨js, ys, made, lives, carries⟩ := carries_cmd body (base + is.length + 1) intactBody
        names typed laid inner
      rw [Check.value_cmd_whileDo]
      exact ⟨_, _, cmd_whileDo test made, by simp [cmdLives, test, lives],
        carries_whileDo rule carries⟩
  | .letIn pos d body, p, L, base, intact, names, typed, laid, h => by
    obtain ⟨-, intactDecl, intactBody⟩ := Cmd.all_letIn.1 intact
    let block : Check.Block := ⟨Check.letFrame, p.offset⟩
    have names : Scoped (block.frame :: p.letSite.outer) L := names.cons_empty "let"
    have complete := intactDecl.complete
    cases h with
    | letIn declares distinct inner =>
      obtain ⟨silent, rfl⟩ := Check.silent_of_declares d complete names typed declares distinct
        (fun n _ => rfl)
      have declared := Check.declared_of_silent d complete names typed silent
      obtain ⟨is, words, code, offset, rule⟩ :=
        exists_declCode d intactDecl names typed laid silent
      obtain ⟨js, words', ls, code', lives, entry⟩ :=
        carries_decl d base intactDecl names typed laid silent
      rw [code] at code'
      cases code'
      have place : (p.enter (.letIn d)).offset = p.offset + words := offset
      obtain ⟨js, ms, made, bodyLives, carries⟩ := carries_cmd body (p := p.enter (.letIn d))
        (base + is.length) intactBody declared.names declared.typed
        (place ▸ rule.laid laid) inner
      rw [place] at carries
      have dropped := rule.carries_drop (base + (is ++ js).length)
      rw [Nat.add_sub_cancel_left] at dropped
      rw [Check.value_cmd_letIn]
      exact ⟨_, _, cmd_letIn code made, cmdLives_letIn code lives bodyLives,
        (entry.append carries).append dropped⟩

theorem carries_cmds : ∀ (cs : List Cmd) {p : Check.Place} {L : List Entity} (base : Nat),
    (∀ c ∈ cs, c.All fun n => n.isIntact = true) → Scoped p.chain L → Typed L →
      Laid L p.offset → (∀ c ∈ cs, WellTyped (contextOf L) c) →
      ∃ is ls, cmds base (Check.cmds p cs).value = .ok is ∧
        cmdsLives L (Check.cmds p cs).value = .ok ls ∧ Carries base is ls L p.offset L p.offset
  | [], _, _, _, _, _, _, _, _ =>
    ⟨[], [], by simp [Check.cmds, cmds], by simp [Check.cmds, cmdsLives], carries_nil _ _ _⟩
  | c :: cs, p, L, base, intact, names, typed, laid, h => by
    obtain ⟨is, ls, made, lives, carries⟩ := carries_cmd c base (intact c (by simp)) names typed
      laid (h c (by simp))
    obtain ⟨js, ms, made', lives', carries'⟩ := carries_cmds cs (base + is.length)
      (fun c member => intact c (by simp [member])) names typed laid
      (fun c member => h c (by simp [member]))
    refine ⟨is ++ js, ls ++ ms, ?_, ?_, carries.append carries'⟩
    · simp [Check.cmds, cmds, made, made']
    · simp [Check.cmds, cmdsLives, lives, lives']

end

end Commands

end Generate

namespace Program

open Machine

/-- The entities that live before each instruction of the code of a program. -/
def lives (p : Program) : Except Generate.Fault (List (List Entity)) := do
  let body ← Generate.cmdLives [] p.body
  return body ++ [[]]

/-- Along every run of the code of a program that nothing is wrong with, all that should be a truth
value is one. -/
theorem exists_sound {p : Program} (intact : p.Intact) {distance : Int}
    (quiet : (Check.program distance p).reports = []) :
    ∃ code lives, (Check.program distance p).program.code = .ok code ∧
      (Check.program distance p).program.lives = .ok lives ∧ lives.length = code.length ∧
      ∀ {ι ω : Type} (P : Platform ι ω) (w : World ι ω) (s : State ι ω),
        Generate.Reaches P code ⟨0, [], w⟩ s → Generate.Sound code lives s := by
  rw [Check.reports_program_eq_nil_iff intact.complete] at quiet
  obtain ⟨is, ls, made, living, carries⟩ := Generate.carries_cmd p.body (p := .start distance) 0
    (Program.all_iff.1 intact).2 Check.scoped_root (by simp [Check.Typed]) .nil quiet
  have made : Generate.cmd 0 (Check.program distance p).program.body = .ok is := made
  have living : Generate.cmdLives [] (Check.program distance p).program.body = .ok ls := living
  refine ⟨is ++ [{ op := .halt }], ls ++ [[]], ?_, ?_, by simp [carries.1], ?_⟩
  · simp [code, made]
  · simp [lives, living]
  intro ι ω P w s run
  obtain ⟨here, last⟩ := codeAt_append.1 (codeAt_self [] (is ++ [{ op := .halt }]))
  obtain ⟨live, lastLive⟩ := Generate.livesAt_append.1 (Generate.livesAt_self [] (ls ++ [[]]))
  rw [carries.1] at lastLive
  refine Generate.SafeFor.reaches (fun k => ?_) run
  refine carries.2 P _ _ k here live ?_ [] w .nil
  intro σ w' fits
  refine Generate.safe_instruction fits [] ⟨last.1, lastLive.1, trivial⟩
    (.of_ne (by simp) (by simp [Generate.callPrimitive]) _) ?_
  intro t stopped
  cases stopped

end Program

/-- Run-time type soundness. The code of a text that is compiled without diagnostics may run on any
platform and with any input, to its end or not. In each state on the way, the word of every boolean
constant and variable that lives is a truth value. So is what a conditional jump takes, which then
goes by that truth value alone, and so is what is negated. -/
theorem Compilation.code_keeps_truth {file : String} {input : Input} {settings : Settings}
    {c : Compilation} (ran : run file input settings .generate = .ok c)
    (quiet : c.diagnostics = []) :
    ∃ code lives, c.code = some code ∧ c.program.map Program.lives = some (.ok lives) ∧
      lives.length = code.length ∧
      ∀ {ι ω : Type} (P : Platform ι ω) (w : World ι ω) (s : Machine.State ι ω),
        Generate.Reaches P code ⟨0, [], w⟩ s →
          (∃ L, lives[s.pc]? = some L ∧ ∀ e ∈ L, e.HoldsTruth s.stack) ∧
          ∀ i, code[s.pc]? = some i →
            (i.op = .jumpif → ∃ truth target b rest, i = Generate.jumpIf truth target ∧
              s.stack = Machine.truthWord b :: rest ∧ Machine.exec P i s =
                some ⟨if b = truth then target else s.pc + 1, rest, s.world⟩) ∧
            (i = Generate.callPrimitive .not →
              ∃ b rest, s.stack = Machine.truthWord b :: rest) := by
  obtain ⟨p, found⟩ := exists_quiet ran quiet
  obtain ⟨code, compiled, made⟩ := found.generated
  obtain ⟨code', lives, made', living, length, sound⟩ :=
    Program.exists_sound found.intact found.semantic
  rw [made] at made'
  cases made'
  refine ⟨code, lives, compiled, by rw [found.checked, Option.map_some, living], length, ?_⟩
  intro ι ω P w s run
  obtain ⟨truths, tests⟩ := sound P w s run
  refine ⟨truths, fun i here => ⟨?_, fun negation => (tests i here).takes (.inr negation)⟩⟩
  intro op
  obtain ⟨truth, target, rfl⟩ := (tests i here).jumps op
  obtain ⟨b, rest, stack⟩ := (tests _ here).takes (.inl op)
  refine ⟨truth, target, b, rest, rfl, stack, ?_⟩
  obtain ⟨pc, stack', world⟩ := s
  cases stack
  exact Generate.exec_jumpIf truth b target

namespace Compilation

/-- The text `let const t ~ eof(); var b : boolean in
ifeither b or t then b := \ t else b := true endif`. -/
def eitherText : Input :=
  ⟨"let const t ~ eof(); var b : boolean in
ifeither b or t then b := \\ t else b := true endif".toUTF8.toList, none, none⟩

/-- Over every platform, what `ifeither` tests first is a truth value: the word of `b`. -/
theorem eitherText_keeps_truth : ∃ c code lives,
    run "" eitherText {} .generate = .ok c ∧ c.diagnostics = [] ∧ c.code = some code ∧
      code[3]? = some (Generate.jumpIf true 6) ∧
      c.program.map Program.lives = some (.ok lives) ∧
      lives[3]?.map (·.map (·.name)) = some ["b", "t"] ∧
      ∀ {ι ω : Type} (P : Platform ι ω) (w : World ι ω) (s : Machine.State ι ω),
        Generate.Reaches P code ⟨0, [], w⟩ s → s.pc = 3 →
          ∃ b rest, s.stack = Machine.truthWord b :: rest := by
  have known : ((run "" eitherText {} .generate).toOption.map fun c =>
      (c.diagnostics, c.code.bind (·[3]?), c.program.bind fun p =>
        p.lives.toOption.bind fun lives => lives[3]?.map (·.map (·.name)))) =
      some ([], some (Generate.jumpIf true 6), some ["b", "t"]) := by decide +kernel
  obtain ⟨c, ran, known⟩ := exists_run_of_map known
  simp only [Prod.mk.injEq] at known
  obtain ⟨quiet, jump, names⟩ := known
  obtain ⟨code, lives, made, living, -, keeps⟩ := code_keeps_truth ran quiet
  obtain ⟨p, program, living'⟩ := Option.map_eq_some_iff.1 living
  rw [made, Option.bind_some] at jump
  rw [program, Option.bind_some, living'] at names
  refine ⟨c, code, lives, ran, quiet, made, jump, living, names, ?_⟩
  intro ι ω P w s run here
  rw [← here] at jump
  obtain ⟨-, -, b, rest, -, stack, -⟩ := ((keeps P w s run).2 _ jump).1 rfl
  exact ⟨b, rest, stack⟩

end Compilation

end TriangleTam

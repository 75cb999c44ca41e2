import TriangleTam.Proofs.Generate.Depth
import TriangleTam.Proofs.Generate.Evaluation

/-!
# The balance of expressions and declarations

The code of an expression leaves one word more than it found, that of an argument the words of its
parameter, and that of declarations the words that checking gives to what they declare. None of them
jumps. Main statements: `ExprCode.climbs`, `ArgCode.climbs` and `decl_climbs`.
-/

namespace TriangleTam

namespace Generate

open Machine Typing

open Check (meaningIn Scoped Typed contextOf entities)

variable {R : Node → Prop} {L : List Entity} {n k : Nat}

section Straight

/-- The word of an entity that is kept. -/
theorem exists_storage_of_isHeld {e : Entity} {a : Nat} (held : e.IsHeld a) : ∃ s,
    e.storage = some s ∧ s.offset = a ∧ s.size = 1 ∧ s.kind ≠ .knownValue := by
  obtain ⟨s, storage, offset, size, kind⟩ := held
  refine ⟨s, storage, offset, size, ?_⟩
  rw [kind]
  cases e.kind <;> simp

theorem Laid.words_eq (laid : Laid L n) : words L = n := by
  induction laid with
  | nil => rfl
  | known rest kind known ih =>
    obtain ⟨s, storage, value, -⟩ := known
    simp [Entity.words, storage, value, ih]
  | held rest held ih =>
    obtain ⟨s, storage, -, size, kept⟩ := exists_storage_of_isHeld held
    simp [Entity.words, storage, kept, size, ih, Nat.add_comm]

theorem Laid.stacked (laid : Laid L n) : Stacked 0 L.reverse := by
  induction laid with
  | nil => trivial
  | known rest kind known ih =>
    obtain ⟨s, storage, value, -⟩ := known
    rw [List.reverse_cons, stacked_append]
    exact ⟨ih, ⟨s, storage, fun kept => absurd value kept⟩, trivial⟩
  | held rest held ih =>
    obtain ⟨s, storage, offset, -, -⟩ := held
    rw [List.reverse_cons, stacked_append]
    refine ⟨ih, ⟨s, storage, fun _ => ?_⟩, trivial⟩
    rw [offset, Nat.zero_add, words_reverse, rest.words_eq]

/-- Of an identifier that means an entity behind `L`, `R` holds where that is noted on it. -/
@[simp] def Names (R : Node → Prop) (L : List Entity) : Node → Prop
  | .ident id => ∀ e, meaningIn L id.name = some (.entity e) →
      R (.ident { id with meaning := some (.entity e) })
  | _ => True

/-- An instruction that addresses the word of an entity. -/
theorem accesses_of_isHeld (laid : Laid L n) {id : Ident} {e : Entity} {a : Nat}
    (named : Names R L (.ident id)) (found : meaningIn L id.name = some (.entity e))
    (held : e.IsHeld a) {i : Instruction} (made : MadeFor { id with meaning := some (.entity e) } i)
    (base : i.reg = .stackBase) (displaced : i.d = a) (size : i.op ≠ .loada → i.n = 1) :
    Accesses R L i := by
  obtain ⟨s, storage, offset, one, kept⟩ := exists_storage_of_isHeld held
  have member := (Check.mem_of_meaningIn found).1
  refine ⟨_, e, s, named e found, made, rfl, member, storage, kept, base, ?_, ?_, ?_⟩
  · rw [displaced, offset]
  · intro op
    rw [size op, one]
    rfl
  · simpa using laid.stacked.end_le (List.mem_reverse.2 member) storage kept

/-- An instruction that pushes a word. -/
theorem climbs_push {i : Instruction} (laid : Laid L n) (room : n ≤ k)
    (effect : i.effect? none = some ⟨0, 1⟩) (plain : ∀ a, i.successors? a = some [a + 1])
    (access : i.op = .load ∨ i.op = .store ∨ i.op = .loada → Accesses R L i) :
    Climbs R L [i] k (k + 1) :=
  climbs_one laid.stacked (by rw [laid.words_eq]; exact room) effect plain access

theorem climbs_loadNumber (laid : Laid L n) (room : n ≤ k) (v : Int) :
    Climbs R L [loadNumber v] k (k + 1) :=
  climbs_push laid room rfl (fun _ => rfl) (by simp [loadNumber])

/-- The effect of a call is said by the declaration of the routine. -/
theorem effect?_callPrimitive {name : String} {b : Builtin} {prim : Primitive}
    (named : Builtin.named? name = some b) (bound : b.prim? = some prim) (top : Option Int) :
    (callPrimitive prim).effect? top = b.effect? top := by
  have real : prim ≠ .none := by
    rintro rfl
    exact prim_ne_none named bound
  show (if Register.primitiveBase = .primitiveBase then
    (Primitive.at? prim.displacement).bind _ else none) = _
  rw [if_pos rfl, Primitive.at?_displacement real, Option.bind_some]
  exact Primitive.effect?_eq (Builtin.mem_of_named? named).1 bound top

theorem climbs_call (laid : Laid L n) (room : n ≤ k) {name : String} {b : Builtin}
    {prim : Primitive} {e : Effect} (named : Builtin.named? name = some b)
    (bound : b.prim? = some prim) (effect : b.effect? none = some e) :
    Climbs R L [callPrimitive prim] (k + e.pops) (k + e.pushes) := by
  refine climbs_one laid.stacked ?_ ?_ (fun _ => rfl) (by simp [callPrimitive])
  · rw [laid.words_eq]
    exact room
  · rw [effect?_callPrimitive named bound, effect]

theorem climbs_drop (laid : Laid L n) (room : n ≤ k) (words : Nat) :
    Climbs R L (drop words) (k + words) k := by
  unfold drop
  split
  · next none =>
    subst none
    exact climbs_nil k
  · have one := climbs_one (R := R) (i := { op := .pop, d := words }) (e := ⟨0 + words, 0⟩)
      (k := k) laid.stacked (by rw [laid.words_eq]; exact room) rfl (fun _ => rfl) (by simp)
    simpa using one

end Straight

section Expressions

/-- The result of a routine that has one is data. -/
theorem result_data {callee name : String} {params : List Formal} {result : Ty} {prim : Primitive}
    (found : meaningIn L callee = some (.builtin (.func name params result prim)))
    (value : result ≠ .void) : result.isData = true := by
  have regular := Builtin.isRegular_of_named? (Check.named?_of_meaningIn found)
  simp only [Builtin.isRegular, Bool.and_eq_true, bne_iff_ne] at regular
  exact Check.isData_of_ne regular.2 value

theorem ExprCode.isData (typed : Typed L) {x : Expr} {t : Ty} {is : List Instruction}
    (h : ExprCode L x t is) : t.isData = true := by
  cases h with
  | int | char => rfl
  | known found ty | held found ty =>
    obtain ⟨s, hs, data⟩ := typed.of_meaningIn found
    rw [ty] at hs
    cases hs
    exact data
  | constant found => exact Builtin.isRegular_of_named? (Check.named?_of_meaningIn found)
  | unary found inner => exact (Check.unary_data found).2
  | binary found kinds first second => exact (Check.binary_data found).2
  | call found value passed => exact result_data found value

/-- An operator that may be used on operands of any type has a routine that wants their size. -/
def isSized : Builtin → Bool
  | .binary _ left _ _ prim => left != .any || prim.needsSize
  | _ => true

theorem needsSize_of_any {op symbol : String} {right result : Ty} {prim : Primitive}
    (named : Builtin.named? op = some (.binary symbol .any right result prim)) :
    prim.needsSize = true := by
  have every : ∀ b ∈ Builtin.all, isSized b = true := by decide
  simpa [isSized] using every _ (Builtin.mem_of_named? named).1

/-- The call of an operator between two words. -/
theorem climbs_binary (laid : Laid L n) (room : n ≤ k) {op symbol : String}
    {s t left right result : Ty} {prim : Primitive}
    (found : meaningIn L op = some (.builtin (.binary symbol left right result prim)))
    (kinds : left = .any ∧ right = .any ∧ s = t ∨ left = s ∧ right = t)
    (data : s.isData = true) (data' : t.isData = true) :
    Climbs R L (sizeOperand prim s ++ [callPrimitive prim]) (k + 2) (k + 1) := by
  have named := Check.named?_of_meaningIn found
  have size := Ty.size_of_isData (Check.binary_data found).2
  unfold sizeOperand
  split
  · next sized =>
    -- The size is known to be on top where the routine is called.
    refine ⟨[⟨L, k + 2, none⟩, ⟨L, k + 3, some 1⟩], rfl, ?_⟩
    rintro D a ⟨first, second, -⟩ ⟨m, next, depth, top⟩
    have one : s.size = 1 := Ty.size_of_isData data
    have used : words L ≤ k := by rw [laid.words_eq]; exact room
    have effect : (callPrimitive prim).effect? (some 1) = some ⟨1 + 1 + 1, 1⟩ := by
      rw [effect?_callPrimitive named rfl, Builtin.effect?, if_pos sized, size]
      rfl
    refine ⟨⟨_, first, rfl, rfl⟩, ⟨⟨_, first, List.suffix_rfl, laid.stacked, ?_, ?_⟩, ⟨_, second,
      List.suffix_rfl, laid.stacked, ?_, ?_⟩, trivial⟩⟩
    · refine ⟨⟨0, 1⟩, _, rfl, rfl, by simp only; omega, ?_⟩
      intro b member
      rw [List.mem_singleton.1 member]
      exact ⟨_, second, rfl, .inr (by rw [one]; rfl)⟩
    · simp [loadNumber]
    · refine ⟨_, _, effect, rfl, by simp only; omega, ?_⟩
      intro b member
      rw [List.mem_singleton.1 member]
      exact ⟨m, next, by simp only [depth], .inl top⟩
    · simp [callPrimitive]
  · next sized =>
    have rest : left = s ∧ right = t := by
      refine kinds.resolve_left ?_
      rintro ⟨rfl, -⟩
      exact sized (needsSize_of_any named)
    obtain ⟨rfl, rfl⟩ := rest
    have call := climbs_call (R := R) laid room named rfl (e := ⟨1 + 1, 1⟩)
      (by simp [Builtin.effect?, sized, Ty.size_of_isData data, Ty.size_of_isData data', size])
    exact call

mutual

theorem ExprCode.climbs (laid : Laid L n) (typed : Typed L) : ∀ {x : Expr} {t : Ty}
    {is : List Instruction}, ExprCode L x t is → x.All (Names R L) → ∀ {k}, n ≤ k →
      Climbs R L is k (k + 1)
  | _, _, _, .int _, _, _, room | _, _, _, .char _, _, _, room
  | _, _, _, .known _ _ _, _, _, room | _, _, _, .constant _, _, _, room =>
    climbs_loadNumber laid room _
  | _, _, _, .held found _ held, names, _, room => by
    have named := (Expr.all_name.1 names).2
    exact climbs_push laid room rfl (fun _ => rfl) fun _ =>
      accesses_of_isHeld laid named found held (.inl (load_of_isHeld rfl held)) rfl rfl fun _ => rfl
  | _, _, _, .unary found inner, names, k, room => by
    obtain ⟨data, data'⟩ := Check.unary_data found
    have operand := inner.climbs laid typed (Expr.all_unary.1 names).2.2 room
    have call := climbs_call (R := R) laid room (Check.named?_of_meaningIn found) rfl
      (e := ⟨1, 1⟩) (by simp [Builtin.effect?, Ty.size_of_isData data, Ty.size_of_isData data'])
    exact operand.append call
  | _, _, _, .binary found kinds first second, names, k, room => by
    obtain ⟨-, namesX, -, namesY⟩ := Expr.all_binary.1 names
    have left := first.climbs laid typed namesX room
    have right := second.climbs laid typed namesY (Nat.le_succ_of_le room)
    have call := climbs_binary (R := R) laid room found kinds (first.isData typed)
      (second.isData typed)
    rw [List.append_assoc]
    exact (left.append right).append call
  | _, _, _, .call found value passed, names, k, room => by
    have given := passed.climbs laid typed (Expr.all_call.1 names).2.2 room
    have size := Ty.size_of_isData (result_data found value)
    have call := climbs_call (R := R) laid room (Check.named?_of_meaningIn found) rfl rfl
    rw [size] at call
    exact given.append call

theorem ArgCode.climbs (laid : Laid L n) (typed : Typed L) : ∀ {a : Arg} {params : List Formal}
    {is : List Instruction}, ArgCode L a params is → a.All (Names R L) → ∀ {k}, n ≤ k →
      Climbs R L is k (k + Formal.wordsAll params)
  | _, _, _, .blank, _, k, _ => climbs_nil k
  | _, _, _, .value inner, names, k, room => by
    have value := inner.climbs laid typed (Arg.all_value.1 names).2 room
    simpa [Formal.wordsAll, Formal.words, Ty.size_of_isData (inner.isData typed)] using value
  | _, _, _, .var found _ kind held, names, k, room => by
    have named := (Arg.all_var.1 names).2
    have push := climbs_push (i := loadAddress _) laid room rfl (fun _ => rfl) fun _ =>
      accesses_of_isHeld laid named found held (.inr (.inr (address_of_isHeld rfl kind held))) rfl
        rfl fun op => absurd rfl op
    simpa [Formal.wordsAll, Formal.words] using push

end

/-- Where an identifier is resolved, its meaning is noted on it. -/
theorem names_ident {env : Check.Env} (inScope : Scoped env.chain L) {id : Ident}
    (present : Node.isIntact (.ident id) = true) (noted : R (.ident (env.resolve id).value.1)) :
    Names R L (.ident id) := by
  intro e found
  have present : id.name ≠ "" := by simpa using present
  rw [Check.resolve_of_meaningIn inScope present found] at noted
  exact noted

mutual

/-- Where an expression is checked, the meanings of its names are noted on it. -/
theorem names_expr {env : Check.Env} (inScope : Scoped env.chain L) : ∀ x : Expr,
    x.All (fun n => n.isIntact = true) → (Check.expr env x).value.All R → x.All (Names R L)
  | .int .., _, _ | .char .., _, _ | .bad .., _, _ => by simp
  | .name _ _ id, intact, all => by
    have intact := (Expr.all_name.1 intact).2
    simp only [Check.expr, Check.Checked.value_bind, Check.Checked.value_pure,
      Expr.all_name] at all
    exact Expr.all_name.2 ⟨trivial, names_ident inScope intact all.2⟩
  | .unary _ _ op x, intact, all => by
    have intact := (Expr.all_unary.1 intact).2.2
    simp only [Check.expr, Check.Checked.value_bind, Check.Checked.value_pure,
      Expr.all_unary] at all
    simpa using names_expr inScope x intact all.2.2
  | .binary _ _ x op y, intact, all => by
    obtain ⟨-, intact, -, intact'⟩ := Expr.all_binary.1 intact
    simp only [Check.expr, Check.Checked.value_bind, Check.Checked.value_pure,
      Expr.all_binary] at all
    simpa using ⟨names_expr inScope x intact all.2.1, names_expr inScope y intact' all.2.2.2⟩
  | .call _ _ callee a, intact, all => by
    obtain ⟨-, intact, intact'⟩ := Expr.all_call.1 intact
    simp only [Check.expr, Check.Checked.value_bind, Check.Checked.value_pure,
      Check.value_resolve_routine, Expr.all_call] at all
    exact Expr.all_call.2 ⟨trivial, names_ident inScope intact all.2.1,
      names_arg inScope a intact' all.2.2⟩

theorem names_arg {env : Check.Env} (inScope : Scoped env.chain L)
    {expected : Option Check.Expected} : ∀ a : Arg, a.All (fun n => n.isIntact = true) →
      (Check.arg env expected a).value.All R → a.All (Names R L)
  | .value _ x, intact, all => by
    rw [Check.value_arg_value] at all
    simpa using names_expr inScope x (Arg.all_value.1 intact).2 (Arg.all_value.1 all).2
  | .var _ id, intact, all => by
    rw [Check.arg, Check.value_varArg] at all
    exact Arg.all_var.2 ⟨trivial,
      names_ident inScope (Arg.all_var.1 intact).2 (Arg.all_var.1 all).2⟩
  | .blank _, _, _ | .bad _, _, _ => by simp

end

end Expressions

section Declarations

open Check (allEntities)

variable {site : Check.Site}

theorem DeclCode.climbs_const {M : List Entity} {m : Nat} {pos : Pos} {ty : Option Ty}
    {storage : Option Storage} {id : Ident} {x : Expr} {is : List Instruction} (laid : Laid L n)
    (typed : Typed L) (names : x.All (Names R L))
    (rule : DeclCode L n (.const pos ty storage id x) M m is) : Climbs R L is n m := by
  cases rule with
  | known => exact climbs_nil n
  | const value => exact value.climbs laid typed names (Nat.le_refl n)

theorem DeclCode.climbs_var {M : List Entity} {m : Nat} {pos : Pos} {ty : Option Ty}
    {storage : Option Storage} {id typeName : Ident} {is : List Instruction} (laid : Laid L n)
    (rule : DeclCode L n (.var pos ty storage id typeName) M m is) : Climbs R L is n m := by
  cases rule with
  | var =>
    exact climbs_push laid (Nat.le_refl n) rfl (fun _ => rfl) (by simp [reserveWord])

mutual

/-- The code of declarations pushes the words that checking gives to what they declare. -/
theorem decl_climbs : ∀ (d : Decl) {block : Check.Block} {L : List Entity},
    d.All (fun n => n.isIntact = true) → Scoped (block.frame :: site.outer) L → Typed L →
      Laid L block.offset → (Check.decl site block d).Silent →
      (Check.decl site block d).value.1.All R →
      ∃ is words, decl (Check.decl site block d).value.1 = .ok (is, words) ∧
        Climbs R L is block.offset (block.offset + words)
  | .const pos ty storage name x, block, L, intact, names, typed, laid, silent, all => by
    obtain ⟨is, words, code, offset, rule⟩ := exists_declCode _ intact names typed laid silent
    refine ⟨is, words, code, ?_⟩
    have inside : Scoped (site.env block).chain L := names
    have named : x.All (Names R L) := by
      refine names_expr inside x (Decl.all_const.1 intact).2.2 ?_
      simp only [Check.decl, Check.Checked.value_bind, Check.Checked.value_pure,
        Decl.all_const] at all
      exact all.2.2
    exact rule.climbs_const laid typed named
  | .var pos ty storage name typeName, block, L, intact, names, typed, laid, silent, _ => by
    obtain ⟨is, words, code, offset, rule⟩ := exists_declCode _ intact names typed laid silent
    exact ⟨is, words, code, rule.climbs_var laid⟩
  | .seq pos ds, block, L, intact, names, typed, laid, silent, all => by
    have intact := (Decl.all_seq.1 intact).2
    have silent : (Check.decls site block ds).Silent := by simpa [Check.decl] using silent
    simp only [Check.decl, Check.Checked.value_bind, Check.Checked.value_pure,
      Decl.all_seq] at all
    obtain ⟨is, words, code, climbs⟩ := decls_climb ds intact names typed laid silent all.2
    exact ⟨is, words, by simpa [Check.decl, decl] using code, climbs⟩
  | .bad pos, _, _, intact, _, _, _, _, _ => by simp at intact
  | .builtin b, _, _, _, _, _, _, silent, _ => by simp [Check.decl] at silent

theorem decls_climb : ∀ (ds : List Decl) {block : Check.Block} {L : List Entity},
    (∀ d ∈ ds, d.All fun n => n.isIntact = true) → Scoped (block.frame :: site.outer) L →
      Typed L → Laid L block.offset → (Check.decls site block ds).Silent →
      (∀ d ∈ (Check.decls site block ds).value.1, d.All R) →
      ∃ is words, decls (Check.decls site block ds).value.1 = .ok (is, words) ∧
        Climbs R L is block.offset (block.offset + words)
  | [], block, L, _, _, _, _, _, _ => ⟨[], 0, rfl, climbs_nil _⟩
  | d :: ds, block, L, intact, names, typed, laid, silent, all => by
    simp only [Check.decls, Check.Checked.silent_bind] at silent
    have first := intact d (by simp)
    have declared := Check.declared_of_silent d first.complete names typed silent.1
    obtain ⟨is, words, code, offset, rule⟩ := exists_declCode d first names typed laid silent.1
    simp only [Check.decls, Check.Checked.value_bind, Check.Checked.value_pure,
      List.forall_mem_cons] at all
    obtain ⟨js, words', code', climbs⟩ := decl_climbs d first names typed laid silent.1 all.1
    rw [code] at code'
    cases code'
    obtain ⟨ks, more, restCode, rest⟩ := decls_climb ds
      (fun d member => intact d (by simp [member])) declared.names declared.typed
      (offset ▸ rule.laid laid) silent.2.1 all.2
    rw [offset, Nat.add_assoc] at rest
    -- What was declared first lives on behind it.
    have rest := rest.mono (List.suffix_append _ _) fun _ named => named
    refine ⟨is ++ ks, words + more, ?_, climbs.append rest⟩
    simp [Check.decls, decls, code, restCode]

end

end Declarations

end Generate

end TriangleTam

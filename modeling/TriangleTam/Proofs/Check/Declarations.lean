import TriangleTam.Proofs.Check.Expressions

/-!
# Checking declarations

A block is a frame that declarations fill from top to bottom. `declared_of_silent` says what a
declaration leaves behind where checking it is silent, and `silent_of_declares` that it is silent
where the rules allow the declaration and none of its names is in the frame.
-/

namespace TriangleTam.Check

open Typing

open Checked (Silent)

mutual

/-- The entities a checked declaration declares, in the order of the text. -/
def entities : Decl → List Entity
  | .const pos ty storage id _ => [⟨.const, id.name, pos, id.pos, ty, storage⟩]
  | .var pos ty storage id _ => [⟨.var, id.name, pos, id.pos, ty, storage⟩]
  | .seq _ ds => allEntities ds
  | .bad _ | .builtin _ => []

/-- The entities several checked declarations declare. -/
def allEntities : List Decl → List Entity
  | [] => []
  | d :: ds => entities d ++ allEntities ds

end

/-- What follows from checking a declaration without finding anything wrong: `before` and `after`
are the frame that is being filled, and `added` are the entities declared, the last one first. -/
structure Declared (outer : Chain Meaning) (before after : Frame Meaning) (L : List Entity)
    (d : Decl) (added : List Entity) : Prop where
  names : Scoped (after :: outer) (added ++ L)
  typed : Typed (added ++ L)
  declares : Declares (contextOf L) d (contextOf (added ++ L))
  distinct : (declaredNames d).Nodup
  fresh : ∀ n ∈ declaredNames d, before.lookup? n = none
  bound : ∀ n, after.lookup? n = none ↔ before.lookup? n = none ∧ n ∉ declaredNames d

variable {site : Site} {block : Block} {L : List Entity}

theorem declare_of_fresh {id : Ident} {e : Entity} (present : id.name ≠ "")
    (fresh : block.frame.lookup? id.name = none) :
    ∃ g, block.frame.insert id.name (some (.entity e)) = (none, g) ∧
      declare block id e =
        pure ({ id with meaning := some (.entity e) }, { block with frame := g }) := by
  obtain ⟨g, bound⟩ := Frame.insert_eq_of_lookup?_eq_none (d := some (.entity e)) fresh
  exact ⟨g, bound, by simp [declare, present, bound]⟩

theorem fresh_of_silent_declare {id : Ident} {e : Entity} (present : id.name ≠ "")
    (silent : (declare block id e).Silent) : block.frame.lookup? id.name = none := by
  cases h : block.frame.lookup? id.name with
  | none => rfl
  | some old =>
    have taken := Frame.insert_eq_of_lookup?_eq_some (d := some (Meaning.entity e)) h
    simp [declare, present, taken] at silent

/-- One entity more in the frame that is being filled. -/
theorem declared_one {outer : Chain Meaning} {f g : Frame Meaning} {d : Decl} {e : Entity} {t : Ty}
    (names : Scoped (f :: outer) L) (typed : Typed L) (declaring : declaredNames d = [e.name])
    (fresh : f.lookup? e.name = none)
    (bound : f.insert e.name (some (.entity e)) = (none, g)) (ty : e.ty = some t)
    (data : t.isData = true)
    (declares : Declares (contextOf L) d (⟨e.name, e.kind, t⟩ :: contextOf L)) :
    Declared outer f g L d [e] where
  names := names.insert bound
  typed := by
    intro e' member
    rcases List.mem_cons.1 member with rfl | member
    · exact ⟨t, ty, data⟩
    · exact typed e' member
  declares := by simpa [contextOf, Entity.binding, ty] using declares
  distinct := by simp [declaring]
  fresh := by simpa [declaring] using fresh
  bound := by
    intro n
    rw [Frame.lookup?_insert bound, declaring]
    by_cases hn : n = e.name <;> simp [hn]

@[simp] theorem silent_constStorage (x : Expr) (t : Ty) : (constStorage site block x t).Silent := by
  unfold constStorage
  split <;> simp [allocate]

@[simp] theorem frame_constStorage (x : Expr) (t : Ty) :
    (constStorage site block x t).value.2.frame = block.frame := by
  unfold constStorage
  split <;> rfl

theorem typeNamed_of_meaningIn {env : Env} (names : Scoped env.chain L) {id : Ident} {t : Ty}
    (present : id.name ≠ "") (found : meaningIn L id.name = some (.builtin (.type t))) :
    typeNamed env id = pure ({ id with meaning := some (.builtin (.type t)) }, t) := by
  simp [typeNamed, resolve_of_meaningIn names present found]

theorem exists_type_of_silent {env : Env} (names : Scoped env.chain L) {id : Ident}
    (present : id.name ≠ "") (silent : (typeNamed env id).Silent) :
    ∃ t, meaningIn L id.name = some (.builtin (.type t)) := by
  simp only [typeNamed, Checked.silent_bind] at silent
  obtain ⟨m, found⟩ := exists_meaning_of_silent names present silent.1
  have silent := silent.2
  rw [resolve_of_meaningIn names present found] at silent
  simp only [Checked.value_pure] at silent
  split at silent
  · next h => cases h
  · next t h =>
    cases h
    exact ⟨t, found⟩
  · simp at silent

/-- The entity a constant becomes. -/
def constEntity (pos : Pos) (name : Ident) (t : Ty) (s : Storage) : Entity :=
  ⟨.const, name.name, pos, name.pos, some t, some s⟩

/-- The entity a variable becomes. -/
def varEntity (pos : Pos) (name : Ident) (t : Ty) (s : Storage) : Entity :=
  ⟨.var, name.name, pos, name.pos, some t, some s⟩

section Values

variable {pos : Pos} {ty : Option Ty} {storage : Option Storage} {name : Ident} {t : Ty}

/-- A constant that is declared without finding anything wrong. -/
theorem decl_const (pos : Pos) (ty : Option Ty) (storage : Option Storage)
    (names : Scoped (block.frame :: site.outer) L) (typed : Typed L) {x x' : Expr}
    {s : Storage × Block} (present : name.name ≠ "") (complete : x.All fun n => n.isError = false)
    (h : HasType (contextOf L) x t) (value : t ≠ .void)
    (fresh : block.frame.lookup? name.name = none)
    (hx : (expr (site.env block) x).value = x') (hs : (constStorage site block x' t).value = s) :
    ∃ g, block.frame.insert name.name (some (.entity (constEntity pos name t s.1))) = (none, g) ∧
      (decl site block (.const pos ty storage name x)).Silent ∧
      (decl site block (.const pos ty storage name x)).value =
        (.const pos (some t) (some s.1)
          { name with meaning := some (.entity (constEntity pos name t s.1)) } x',
          { s.2 with frame := g }) := by
  have inside : Scoped (site.env block).chain L := names
  obtain ⟨silent, eq⟩ := value_of_hasType inside typed complete h value
  have kept : s.2.frame = block.frame := by rw [← hs, frame_constStorage]
  rw [← kept] at fresh ⊢
  obtain ⟨g, bound, declared⟩ := declare_of_fresh (e := constEntity pos name t s.1) present fresh
  rw [constEntity] at declared
  refine ⟨g, bound, ?_, ?_⟩
  · simp [decl, silent, eq, hx, hs, declared]
  · simp [decl, eq, hx, hs, declared, constEntity]

/-- A variable that is declared without finding anything wrong. -/
theorem decl_var (pos : Pos) (ty : Option Ty) (storage : Option Storage)
    (names : Scoped (block.frame :: site.outer) L) {typeName : Ident} {s : Storage × Block}
    (present : name.name ≠ "") (present' : typeName.name ≠ "")
    (found : meaningIn L typeName.name = some (.builtin (.type t)))
    (fresh : block.frame.lookup? name.name = none)
    (hs : (allocate site block .knownAddress t.size).value = s) :
    ∃ g, block.frame.insert name.name (some (.entity (varEntity pos name t s.1))) = (none, g) ∧
      (decl site block (.var pos ty storage name typeName)).Silent ∧
      (decl site block (.var pos ty storage name typeName)).value =
        (.var pos (some t) (some s.1)
          { name with meaning := some (.entity (varEntity pos name t s.1)) }
          { typeName with meaning := some (.builtin (.type t)) },
          { s.2 with frame := g }) := by
  have inside : Scoped (site.env block).chain L := names
  have named := typeNamed_of_meaningIn inside present' found
  have kept : s.2.frame = block.frame := by
    rw [← hs]
    rfl
  have silent : (allocate site block .knownAddress t.size).Silent := by simp [allocate]
  rw [← kept] at fresh ⊢
  obtain ⟨g, bound, declared⟩ := declare_of_fresh (e := varEntity pos name t s.1) present fresh
  rw [varEntity] at declared
  refine ⟨g, bound, ?_, ?_⟩
  · simp [decl, named, silent, hs, declared]
  · simp [decl, named, hs, declared, varEntity]

/-- What is known of a constant if nothing is wrong with its declaration. -/
theorem const_of_silent (names : Scoped (block.frame :: site.outer) L) (typed : Typed L) {x : Expr}
    (present : name.name ≠ "") (complete : x.All fun n => n.isError = false)
    (silent : (decl site block (.const pos ty storage name x)).Silent) :
    ∃ t s g, HasType (contextOf L) x t ∧ t ≠ .void ∧
      (constStorage site block (expr (site.env block) x).value t).value = s ∧
      block.frame.lookup? name.name = none ∧
      block.frame.insert name.name (some (.entity (constEntity pos name t s.1))) = (none, g) ∧
      (decl site block (.const pos ty storage name x)).value =
        (.const pos (some t) (some s.1)
          { name with meaning := some (.entity (constEntity pos name t s.1)) }
          (expr (site.env block) x).value, { s.2 with frame := g }) := by
  have parts := silent
  simp only [decl, Checked.silent_bind] at parts
  have inside : Scoped (site.env block).chain L := names
  obtain ⟨t, h, value⟩ := hasType_of_silent_value inside typed complete parts.1
  have fresh := fresh_of_silent_declare present parts.2.2.1
  rw [frame_constStorage] at fresh
  obtain ⟨g, bound, -, eq⟩ := decl_const pos ty storage names typed present complete h value
    fresh rfl rfl
  exact ⟨t, _, g, h, value, rfl, fresh, bound, eq⟩

/-- What is known of a variable if nothing is wrong with its declaration. -/
theorem var_of_silent (names : Scoped (block.frame :: site.outer) L) {typeName : Ident}
    (present : name.name ≠ "") (present' : typeName.name ≠ "")
    (silent : (decl site block (.var pos ty storage name typeName)).Silent) :
    ∃ t s g, meaningIn L typeName.name = some (.builtin (.type t)) ∧
      (allocate site block .knownAddress t.size).value = s ∧
      block.frame.lookup? name.name = none ∧
      block.frame.insert name.name (some (.entity (varEntity pos name t s.1))) = (none, g) ∧
      (decl site block (.var pos ty storage name typeName)).value =
        (.var pos (some t) (some s.1)
          { name with meaning := some (.entity (varEntity pos name t s.1)) }
          { typeName with meaning := some (.builtin (.type t)) }, { s.2 with frame := g }) := by
  have parts := silent
  simp only [decl, Checked.silent_bind] at parts
  have inside : Scoped (site.env block).chain L := names
  obtain ⟨t, found⟩ := exists_type_of_silent inside present' parts.1
  have fresh := fresh_of_silent_declare present parts.2.2.1
  change block.frame.lookup? name.name = none at fresh
  obtain ⟨g, bound, -, eq⟩ := decl_var pos ty storage names present present' found fresh rfl
  exact ⟨t, _, g, found, rfl, fresh, bound, eq⟩

end Values

theorem Declared.nil {outer : Chain Meaning} {f : Frame Meaning} (pos : Pos)
    (names : Scoped (f :: outer) L) (typed : Typed L) : Declared outer f f L (.seq pos []) [] where
  names := names
  typed := typed
  declares := .nil
  distinct := by simp [declaredNames, allDeclaredNames]
  fresh := by simp [declaredNames, allDeclaredNames]
  bound := by simp [declaredNames, allDeclaredNames]

theorem Declared.cons {outer : Chain Meaning} {f g h : Frame Meaning} {pos : Pos} {d : Decl}
    {ds : List Decl} {added more : List Entity} (first : Declared outer f g L d added)
    (rest : Declared outer g h (added ++ L) (.seq pos ds) more) :
    Declared outer f h L (.seq pos (d :: ds)) (more ++ added) where
  names := by simpa using rest.names
  typed := by simpa using rest.typed
  declares := by simpa using Declares.cons first.declares rest.declares
  distinct := by
    refine List.nodup_append.2 ⟨first.distinct, rest.distinct, ?_⟩
    rintro n member _ member' rfl
    exact ((first.bound n).1 (rest.fresh n member')).2 member
  fresh := by
    intro n member
    rcases List.mem_append.1 member with member | member
    · exact first.fresh n member
    · exact ((first.bound n).1 (rest.fresh n member)).1
  bound := by
    intro n
    rw [rest.bound, first.bound]
    simp only [declaredNames, allDeclaredNames, List.mem_append]
    rw [not_or, and_assoc]

mutual

theorem declared_of_silent : ∀ (d : Decl) {block : Block} {L : List Entity},
    d.All (fun n => n.isError = false) → Scoped (block.frame :: site.outer) L → Typed L →
      (decl site block d).Silent →
      Declared site.outer block.frame (decl site block d).value.2.frame L d
        (entities (decl site block d).value.1).reverse
  | .const pos ty storage name x, block, L, complete, names, typed, silent => by
    obtain ⟨-, present, complete⟩ := Decl.all_const.1 complete
    replace present : name.name ≠ "" := by simpa using present
    obtain ⟨t, s, g, h, value, -, fresh, bound, eq⟩ :=
      const_of_silent names typed present complete silent
    rw [eq]
    exact declared_one names typed rfl fresh bound rfl
      (isData_of_ne (hasType_ne_any typed h) value) (.const h value)
  | .var pos ty storage name typeName, block, L, complete, names, typed, silent => by
    obtain ⟨-, present, present'⟩ := Decl.all_var.1 complete
    replace present : name.name ≠ "" := by simpa using present
    replace present' : typeName.name ≠ "" := by simpa using present'
    obtain ⟨t, s, g, found, -, fresh, bound, eq⟩ := var_of_silent names present present' silent
    rw [eq]
    exact declared_one names typed rfl fresh bound rfl
      (Builtin.isRegular_of_named? (named?_of_meaningIn found))
      (.var (denotes_eq_builtin_iff.2 found))
  | .seq pos ds, block, L, complete, names, typed, silent => by
    have complete := (Decl.all_seq.1 complete).2
    have silent : (decls site block ds).Silent := by simpa [decl] using silent
    simpa [decl, entities] using allDeclared_of_silent pos ds complete names typed silent
  | .bad pos, _, _, complete, _, _, _ => by simp at complete
  | .builtin b, _, _, _, _, _, silent => by simp [decl] at silent

theorem allDeclared_of_silent (pos : Pos) : ∀ (ds : List Decl) {block : Block} {L : List Entity},
    (∀ d ∈ ds, d.All fun n => n.isError = false) → Scoped (block.frame :: site.outer) L →
      Typed L → (decls site block ds).Silent →
      Declared site.outer block.frame (decls site block ds).value.2.frame L (.seq pos ds)
        (allEntities (decls site block ds).value.1).reverse
  | [], block, L, _, names, typed, _ => .nil pos names typed
  | d :: ds, block, L, complete, names, typed, silent => by
    simp only [decls, Checked.silent_bind] at silent
    have first := declared_of_silent d (complete d (by simp)) names typed silent.1
    have rest := allDeclared_of_silent pos ds (fun d member => complete d (by simp [member]))
      first.names first.typed silent.2.1
    simpa [decls, allEntities] using first.cons rest

end

mutual

theorem silent_of_declares : ∀ (d : Decl) {block : Block} {L : List Entity} {Δ : Context},
    d.All (fun n => n.isError = false) → Scoped (block.frame :: site.outer) L → Typed L →
      Declares (contextOf L) d Δ → (declaredNames d).Nodup →
      (∀ n ∈ declaredNames d, block.frame.lookup? n = none) →
      (decl site block d).Silent ∧
        contextOf ((entities (decl site block d).value.1).reverse ++ L) = Δ
  | .const pos ty storage name x, block, L, Δ, complete, names, typed, h, _, fresh => by
    obtain ⟨-, present, complete⟩ := Decl.all_const.1 complete
    replace present : name.name ≠ "" := by simpa using present
    cases h with
    | const h value =>
      obtain ⟨g, bound, silent, eq⟩ := decl_const pos ty storage names typed present
        complete h value (fresh _ (by simp [declaredNames])) rfl rfl
      refine ⟨silent, ?_⟩
      rw [eq]
      rfl
  | .var pos ty storage name typeName, block, L, Δ, complete, names, typed, h, _, fresh => by
    obtain ⟨-, present, present'⟩ := Decl.all_var.1 complete
    replace present : name.name ≠ "" := by simpa using present
    replace present' : typeName.name ≠ "" := by simpa using present'
    cases h with
    | var found =>
      obtain ⟨g, bound, silent, eq⟩ := decl_var pos ty storage names present present'
        (denotes_eq_builtin_iff.1 found) (fresh _ (by simp [declaredNames])) rfl
      refine ⟨silent, ?_⟩
      rw [eq]
      rfl
  | .seq pos ds, block, L, Δ, complete, names, typed, h, distinct, fresh => by
    have complete := (Decl.all_seq.1 complete).2
    simpa [decl, entities] using silent_of_allDeclares pos ds complete names typed h distinct fresh
  | .bad pos, _, _, _, complete, _, _, _, _, _ => by simp at complete
  | .builtin b, _, _, _, _, _, _, h, _, _ => by cases h

theorem silent_of_allDeclares (pos : Pos) : ∀ (ds : List Decl) {block : Block} {L : List Entity}
    {Δ : Context}, (∀ d ∈ ds, d.All fun n => n.isError = false) →
      Scoped (block.frame :: site.outer) L → Typed L → Declares (contextOf L) (.seq pos ds) Δ →
      (allDeclaredNames ds).Nodup → (∀ n ∈ allDeclaredNames ds, block.frame.lookup? n = none) →
      (decls site block ds).Silent ∧
        contextOf ((allEntities (decls site block ds).value.1).reverse ++ L) = Δ
  | [], block, L, Δ, _, _, _, h, _, _ => by
    cases h
    simp [decls, allEntities]
  | d :: ds, block, L, Δ, complete, names, typed, h, distinct, fresh => by
    have complete' := complete d (by simp)
    obtain ⟨distinct, distinct', apart⟩ := List.nodup_append.1 distinct
    cases h with
    | cons first rest =>
      obtain ⟨silent, rfl⟩ := silent_of_declares d complete' names typed first distinct
        (fun n member => fresh n (by simp [allDeclaredNames, member]))
      have declared := declared_of_silent d complete' names typed silent
      obtain ⟨silent', eq⟩ := silent_of_allDeclares pos ds
        (fun d member => complete d (by simp [member])) declared.names declared.typed rest distinct' (by
          intro n member
          refine (declared.bound n).2 ⟨fresh n (by simp [allDeclaredNames, member]), ?_⟩
          intro member'
          exact apart n member' n member rfl)
      refine ⟨by simp [decls, silent, silent'], ?_⟩
      simpa [decls, allEntities] using eq

end

end TriangleTam.Check

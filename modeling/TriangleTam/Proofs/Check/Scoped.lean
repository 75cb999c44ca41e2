import TriangleTam.Check
import TriangleTam.Proofs.Typing

/-!
# Names while checking

Checking is silent if it finds nothing wrong. The chain of frames it looks names up in is described
by the list of entities declared around a place, innermost first: `Scoped` says that looking up a
name in the one gives the same as in the other, and the lemmas here say how frames that are opened
and filled keep to that.
-/

namespace TriangleTam

namespace Check.Checked

variable {α β : Type}

/-- Nothing was found wrong. -/
def Silent (x : Checked α) : Prop := x.trace.reports = []

@[simp] theorem pure_bind (a : α) (f : α → Checked β) : pure a >>= f = f a := by
  show (⟨_, _⟩ : Checked β) = f a
  simp [Trace.append, pure]

@[simp] theorem silent_pure (a : α) : (pure a : Checked α).Silent := rfl

@[simp] theorem silent_bind (x : Checked α) (f : α → Checked β) :
    (x >>= f).Silent ↔ x.Silent ∧ (f x.value).Silent :=
  List.append_eq_nil_iff

@[simp] theorem not_silent_report (pos : Pos) (e : Error) : ¬ (report pos e).Silent := by
  simp [Silent, report]

@[simp] theorem silent_reportIf (c : Bool) (pos : Pos) (e : Error) :
    (reportIf c pos e).Silent ↔ c = false := by
  cases c <;> simp [reportIf]

@[simp] theorem silent_reach (words : Nat) : (reach words).Silent := rfl

@[simp] theorem silent_within (site : Pos) (frame : Frame Meaning) (x : Checked α) :
    (within site frame x).Silent ↔ x.Silent := Iff.rfl

@[simp] theorem value_within (site : Pos) (frame : Frame Meaning) (x : Checked α) :
    (within site frame x).value = x.value := rfl

end Check.Checked

namespace Ty

/-- Whether values of the type are data: it is a type that can be named. -/
def isData : Ty → Bool
  | integer | char | boolean => true
  | any | void => false

theorem ne_any_of_isData {t : Ty} (h : t.isData = true) : t ≠ any := by
  rintro rfl
  cases h

theorem ne_void_of_isData {t : Ty} (h : t.isData = true) : t ≠ void := by
  rintro rfl
  cases h

theorem size_of_isData {t : Ty} (h : t.isData = true) : t.size = 1 := by
  cases t <;> first | rfl | cases h

theorem eq_of_accepts {formal actual : Ty} (h : formal.accepts actual = true)
    (formalData : formal ≠ any) (actualData : actual ≠ any) : formal = actual := by
  simpa [accepts, formalData, actualData] using h

@[simp] theorem accepts_self (t : Ty) : t.accepts t = true := by
  simp [accepts]

end Ty

namespace Builtin

/-- What holds of every declaration of the standard environment: types are data, apart from the
operands of operators on values of any type and the results of procedures, and there is at most one
parameter. -/
def isRegular : Builtin → Bool
  | type t => t.isData
  | const _ t _ => t.isData
  | unary _ operand result _ => operand.isData && result.isData
  | binary _ left right result _ =>
    (left == .any && right == .any || left.isData && right.isData) && result.isData
  | func _ params result _ =>
    decide (params.length ≤ 1) && params.all (·.ty.isData) && result != .any

theorem mem_of_named? {name : String} {b : Builtin} (h : named? name = some b) :
    b ∈ all ∧ b.name = name := by
  refine ⟨List.mem_of_find?_eq_some h, ?_⟩
  simpa using List.find?_some h

theorem isRegular_of_named? {name : String} {b : Builtin} (h : named? name = some b) :
    b.isRegular = true := by
  have every : ∀ b ∈ all, b.isRegular = true := by decide
  exact every b (mem_of_named? h).1

end Builtin

namespace Frame

variable {δ : Type}

theorem lookup?_insert {f g : Frame δ} {name : String} {d : Option δ}
    (h : f.insert name d = (none, g)) (m : String) :
    g.lookup? m = if m = name then d else f.lookup? m := by
  unfold insert at h
  split at h
  · cases h
  · simp only [Prod.mk.injEq, true_and] at h
    subst h
    simp only [lookup?, List.lookup_append]
    have kept : ∀ bs : List (String × Option δ),
        (bs.filter (·.1 ≠ name)).lookup m = if m = name then none else bs.lookup m := by
      intro bs
      induction bs with
      | nil => simp
      | cons b bs ih => grind
    rw [kept]
    by_cases hm : m = name
    · subst hm
      simp
    · have other : (m == name) = false := by simpa using hm
      simp [hm, List.lookup_cons, other]

theorem insert_eq_of_lookup?_eq_none {f : Frame δ} {name : String} {d : Option δ}
    (h : f.lookup? name = none) : ∃ g, f.insert name d = (none, g) := by
  simp [insert, h]

theorem insert_eq_of_lookup?_eq_some {f : Frame δ} {name : String} {d : Option δ} {old : δ}
    (h : f.lookup? name = some old) : f.insert name d = (some old, f) := by
  simp [insert, h]

end Frame

namespace Chain

variable {δ : Type}

theorem lookup?_cons (f : Frame δ) (outer : Chain δ) (name : String) :
    lookup? (f :: outer) name = (f.lookup? name).or (lookup? outer name) := by
  simp only [lookup?, find?]
  split <;> simp_all

end Chain

namespace Check

/-- What a name means behind the declarations of `L`, the innermost of which comes first. -/
def meaningIn (L : List Entity) (name : String) : Option Meaning :=
  match L.find? (·.name == name) with
  | some e => some (.entity e)
  | none => (Builtin.named? name).map .builtin

/-- The names in a chain of frames mean what they mean behind the declarations of `L`. -/
def Scoped (chain : Chain Meaning) (L : List Entity) : Prop :=
  ∀ name, Chain.lookup? chain name = meaningIn L name

theorem meaningIn_cons (e : Entity) (L : List Entity) (name : String) :
    meaningIn (e :: L) name = if e.name = name then some (.entity e) else meaningIn L name := by
  by_cases h : e.name = name <;> simp [meaningIn, h]

theorem mem_of_meaningIn {L : List Entity} {name : String} {e : Entity}
    (h : meaningIn L name = some (.entity e)) : e ∈ L ∧ e.name = name := by
  unfold meaningIn at h
  split at h
  · next found =>
    cases h
    refine ⟨List.mem_of_find?_eq_some found, ?_⟩
    simpa using List.find?_some found
  · cases named : Builtin.named? name <;> simp [named] at h

theorem named?_of_meaningIn {L : List Entity} {name : String} {b : Builtin}
    (h : meaningIn L name = some (.builtin b)) : Builtin.named? name = some b := by
  unfold meaningIn at h
  split at h
  · cases h
  · simpa using h

theorem scoped_root : Scoped [rootFrame] [] := by
  intro name
  have found : ∀ bs : List Builtin,
      ((bs.map fun b => (b.name, some (Meaning.builtin b))).lookup name).join =
        (bs.find? (·.name == name)).map .builtin := by
    intro bs
    induction bs with
    | nil => rfl
    | cons b bs ih =>
      by_cases h : b.name = name
      · subst h
        simp
      · have h' : (name == b.name) = false := by simpa using Ne.symm h
        simpa [List.lookup_cons, h, h'] using ih
  rw [Chain.lookup?_cons]
  simpa [Frame.lookup?, rootFrame, Environment.root, Environment.frame, meaningIn, Chain.lookup?,
    Chain.find?, Builtin.named?] using found Builtin.all

theorem Scoped.cons_empty {chain : Chain Meaning} {L : List Entity} (h : Scoped chain L)
    (comment : String) : Scoped (⟨comment, []⟩ :: chain) L := by
  intro name
  rw [Chain.lookup?_cons]
  simpa [Frame.lookup?] using h name

/-- Binding a name in the innermost frame adds its entity to those declared. -/
theorem Scoped.insert {f g : Frame Meaning} {outer : Chain Meaning} {L : List Entity}
    {e : Entity} (h : Scoped (f :: outer) L)
    (bound : f.insert e.name (some (.entity e)) = (none, g)) : Scoped (g :: outer) (e :: L) := by
  intro name
  have here := h name
  rw [Chain.lookup?_cons] at here ⊢
  rw [Frame.lookup?_insert bound, meaningIn_cons]
  by_cases hn : name = e.name
  · simp [hn]
  · simp [hn, Ne.symm hn, here]

end Check

end TriangleTam

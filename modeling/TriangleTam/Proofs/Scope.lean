import TriangleTam.Environment
import TriangleTam.Proofs.Text.Order

/-!
# Bindings of frames

A frame is distinct if it binds no name twice, and full if it binds no name to nothing. Binding
names keeps both. Main statements: `Distinct.pairwise_names`, the names of a frame are listed in
order, and `Chain.mem_visible_iff_isSome`, the names visible in a chain of full frames are those
that a declaration is found for.
-/

namespace TriangleTam

namespace Frame

variable {δ : Type} {f g : Frame δ} {name : String} {d : Option δ}

/-- No name is bound twice. -/
def Distinct (f : Frame δ) : Prop := (f.bindings.map (·.1)).Nodup

/-- No name is bound twice, and none is bound to nothing. -/
structure Full (f : Frame δ) : Prop where
  distinct : f.Distinct
  declared : ∀ b ∈ f.bindings, b.2.isSome = true

theorem mem_names : name ∈ f.names ↔ ∃ m, (name, m) ∈ f.bindings := by
  simp [names]

/-- In a distinct frame, looking a name up finds its one binding. -/
theorem Distinct.lookup_eq_some_iff (distinct : f.Distinct) :
    f.bindings.lookup name = some d ↔ (name, d) ∈ f.bindings := by
  obtain ⟨comment, bs⟩ := f
  unfold Distinct at distinct
  show bs.lookup name = some d ↔ (name, d) ∈ bs
  induction bs with
  | nil => simp
  | cons b bs ih =>
    obtain ⟨x, m⟩ := b
    obtain ⟨fresh, distinct⟩ := List.nodup_cons.1 distinct
    by_cases here : name = x
    · subst here
      have absent : (name, d) ∉ bs := fun member => fresh (List.mem_map.2 ⟨_, member, rfl⟩)
      simp [absent, eq_comm]
    · have other : (name == x) = false := beq_false_of_ne here
      simpa [List.lookup_cons, other, here] using ih distinct

theorem Distinct.lookup?_eq_some_iff (distinct : f.Distinct) {b : δ} :
    f.lookup? name = some b ↔ (name, some b) ∈ f.bindings := by
  rw [lookup?, Option.join_eq_some_iff, distinct.lookup_eq_some_iff]

theorem bindings_insert (bound : f.insert name d = (none, g)) :
    g.bindings = f.bindings.filter (·.1 ≠ name) ++ [(name, d)] := by
  unfold insert at bound
  split at bound
  · cases bound
  · cases bound
    rfl

theorem Distinct.insert (distinct : f.Distinct) : (f.insert name d).2.Distinct := by
  unfold Frame.insert
  split
  · exact distinct
  · unfold Distinct
    rw [List.map_append]
    refine List.nodup_append.2 ⟨distinct.sublist (List.filter_sublist.map _), by simp, ?_⟩
    intro x before y last
    obtain ⟨b, kept, rfl⟩ := List.mem_map.1 before
    rw [List.mem_singleton.1 last]
    simpa using (List.mem_filter.1 kept).2

/-- Binding a name to a declaration keeps a frame full. -/
theorem Full.insert (full : f.Full) (declared : d.isSome = true) : (f.insert name d).2.Full := by
  refine ⟨full.distinct.insert, fun b member => ?_⟩
  unfold Frame.insert at member
  split at member
  · exact full.declared b member
  · rcases List.mem_append.1 member with kept | last
    · exact full.declared b (List.mem_filter.1 kept).1
    · rw [List.mem_singleton.1 last]
      exact declared

theorem Full.mem_names_iff (full : f.Full) :
    name ∈ f.names ↔ (f.lookup? name).isSome = true := by
  rw [mem_names, Option.isSome_iff_exists]
  refine ⟨fun ⟨m, member⟩ => ?_, fun ⟨b, found⟩ => ?_⟩
  · obtain ⟨b, rfl⟩ := Option.isSome_iff_exists.1 (full.declared _ member)
    exact ⟨b, full.distinct.lookup?_eq_some_iff.2 member⟩
  · exact ⟨some b, full.distinct.lookup?_eq_some_iff.1 found⟩

/-- Names are listed in order, each once. -/
theorem Distinct.pairwise_names (distinct : f.Distinct) : f.names.Pairwise (· < ·) :=
  Text.pairwise_lt_mergeSort distinct

end Frame

/-- The frames that start with the standard environment are full. -/
theorem Environment.full_frame {δ : Type} (comment : String) (of : Builtin → δ) :
    (frame comment of).Full := by
  have names : ((frame comment of).bindings.map (·.1)) = Builtin.all.map Builtin.name := by
    simp [frame, Function.comp_def]
  refine ⟨?_, fun b member => ?_⟩
  · unfold Frame.Distinct
    rw [names]
    decide
  · obtain ⟨declaration, -, rfl⟩ := List.mem_map.1 member
    rfl

namespace Chain

variable {δ : Type} {c : Chain δ}

/-- In a chain of full frames, a name is visible exactly if a declaration is found for it. -/
theorem mem_visible_iff_isSome (full : ∀ f ∈ c, f.Full) {name : String} :
    name ∈ visible c ↔ (find? name c).isSome = true := by
  induction c with
  | nil => simp [visible, find?]
  | cons f outer ih =>
    have here : name ∈ f.names ↔ (f.lookup? name).isSome = true :=
      (full f List.mem_cons_self).mem_names_iff
    have rest := ih fun g member => full g (List.mem_cons_of_mem _ member)
    rw [visible, List.mem_append, List.mem_filter, find?]
    cases found : f.lookup? name with
    | some d => simp [here, found]
    | none => simp [here, found, rest]

theorem nodup_visible (distinct : ∀ f ∈ c, f.Distinct) : (visible c).Nodup := by
  induction c with
  | nil => exact .nil
  | cons f outer ih =>
    have here := (distinct f List.mem_cons_self).pairwise_names
    have rest := ih fun g member => distinct g (List.mem_cons_of_mem _ member)
    refine List.nodup_append.2 ⟨here.imp fun lt => ?_, rest.filter _, ?_⟩
    · rintro rfl
      exact String.lt_irrefl _ lt
    · rintro a inner b outside rfl
      simpa [inner] using (List.mem_filter.1 outside).2

end Chain

end TriangleTam

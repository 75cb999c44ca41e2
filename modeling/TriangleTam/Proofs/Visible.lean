import Mathlib.Data.List.Basic
import TriangleTam.Proofs.Scope
import TriangleTam.Proofs.SymbolTable

/-!
# Visible names

Listing the names visible from a frame and looking one of them up go outward along the same frames,
but each in its own way: the one leaves out what was listed before, and the other ends where it
finds a declaration. They agree in tables whose frames are full, and frames stay full as long as no
name is bound to nothing (`Full.act`). `Ordered.visible_eq` goes along the frames: a frame adds the
names that are found in it. Main statement: `visible_after`, after every history the visible names
are those that a declaration is found for, ordered by frames.
-/

namespace TriangleTam.SymbolTable

variable {δ : Type}

/-- Whether the act binds no name to nothing. -/
def Act.declares : Act δ → Bool
  | insert _ _ d => d.isSome
  | make .. | makeRoot | lookUp .. => true

/-- The names that are found in frame `g` if they are looked up from frame `f`, as they are
listed. -/
def visibleIn (t : SymbolTable δ) (f g : FrameId) : List String :=
  (Chain.visible (t.chain f)).filter fun name => (t.resolve f name).map (·.1) = some g

/-- No frame binds a name twice, or to nothing. -/
def Full (t : SymbolTable δ) : Prop := ∀ f frame, t.frame? f = some frame → frame.Full

section History

variable {of : Builtin → δ} {t : SymbolTable δ}

theorem Full.make (full : t.Full) {frame : Frame δ} (new : frame.Full) (parent : Option FrameId) :
    (t.make frame parent).2.Full := by
  intro f g found
  by_cases last : f = t.next
  · subst last
    obtain ⟨e, entry, rfl⟩ := Option.map_eq_some_iff.1 found
    rw [record?_make_next] at entry
    cases entry
    exact new
  · rw [(views_make last).1] at found
    exact full f g found

theorem Full.insert (full : t.Full) {id : FrameId} {name : String} {d old : Option δ}
    {t' : SymbolTable δ} (declared : d.isSome = true) (h : t.insert id name d = .ok (old, t')) :
    t'.Full := by
  intro f g found
  rw [frame?_insert h] at found
  obtain ⟨g, before, rfl⟩ := Option.map_eq_some_iff.1 found
  by_cases same : f = id
  · rw [if_pos same]
    exact (full f g before).insert declared
  · rw [if_neg same]
    exact full f g before

/-- An act that binds no name to nothing keeps all frames full. -/
theorem Full.act (full : t.Full) {a : Act δ} (declares : a.declares = true) : (act t a).Full := by
  cases a with
  | make parent comment =>
    by_cases h : parent.all t.has = true
    · have empty : Frame.Full (⟨comment, []⟩ : Frame δ) := ⟨.nil, by simp⟩
      simpa [SymbolTable.act, h] using full.make empty parent
    · simpa [SymbolTable.act, h] using full
  | makeRoot =>
    -- A copy of the standard environment binds what that binds.
    have copy : Frame.Full ⟨"program", t.standard.frame.bindings⟩ := by
      have standard : t.standard.frame.Full := full .standard _ rfl
      exact ⟨standard.distinct, standard.declared⟩
    exact full.make copy none
  | lookUp id name => exact full
  | insert id name d =>
    cases h : t.insert id name d with
    | error e => rwa [act_insert_of_error h]
    | ok r =>
      rw [act_insert_of_ok h]
      exact full.insert declares h

theorem full_foldl {history : List (Act δ)} (declares : ∀ a ∈ history, a.declares = true)
    (full : t.Full) : (history.foldl SymbolTable.act t).Full := by
  induction history generalizing t with
  | nil => exact full
  | cons a history ih =>
    obtain ⟨first, rest⟩ := List.forall_mem_cons.1 declares
    exact ih rest (full.act first)

theorem full_after {history : List (Act δ)} (declares : ∀ a ∈ history, a.declares = true) :
    (after of history).Full := by
  refine full_foldl declares fun f frame found => ?_
  cases f with
  | standard =>
    cases found
    exact Environment.full_frame _ of
  | made n => simp [start, frame?, record?] at found

end History

section Frames

variable {t : SymbolTable δ}

theorem Ordered.full_chain (ordered : t.Ordered) (full : t.Full) :
    ∀ f, t.has f = true → ∀ frame ∈ t.chain f, frame.Full := by
  refine ordered.induction ?_
  intro f there outer
  obtain ⟨frame, found⟩ := exists_frame there
  rw [ordered.chain_eq found]
  refine List.forall_mem_cons.2 ⟨full f frame found, ?_⟩
  cases parent : t.parent? f with
  | none => simp
  | some p => exact outer p parent

/-- Going outward, no frame comes later than the first. -/
theorem Ordered.rank_le (ordered : t.Ordered) {g : FrameId} :
    ∀ f, t.has f = true → g ∈ t.path f → g.rank ≤ f.rank := by
  refine ordered.induction ?_
  intro f there outer member
  rw [ordered.path_eq there, List.mem_cons] at member
  rcases member with rfl | member
  · exact Nat.le_refl _
  · cases up : t.parent? f with
    | none => simp [up] at member
    | some p =>
      have further : g.rank ≤ p.rank := outer p up (by simpa [up] using member)
      exact Nat.le_trans further (Nat.le_of_lt (ordered f p up))

/-- A frame does not lie outside itself. -/
theorem Ordered.not_mem_path (ordered : t.Ordered) {f p : FrameId} (parent : t.parent? f = some p) :
    f ∉ t.path p := by
  intro member
  have further := ordered.rank_le p (ordered.has_parent parent) member
  exact Nat.not_lt_of_le further (ordered f p parent)

theorem mem_path_of_resolve {f g : FrameId} {name : String}
    (found : (t.resolve f name).map (·.1) = some g) : g ∈ t.path f := by
  obtain ⟨⟨_, d⟩, resolved, rfl⟩ := Option.map_eq_some_iff.1 found
  obtain ⟨h, member, here⟩ := List.exists_of_findSome?_eq_some resolved
  obtain ⟨_, -, eq⟩ := Option.map_eq_some_iff.1 here
  cases eq
  exact member

section Inner

variable {f g : FrameId} {frame : Frame δ} {name : String}

theorem Ordered.visible_chain (ordered : t.Ordered) (found : t.frame? f = some frame) :
    Chain.visible (t.chain f) = frame.names ++
      (((t.parent? f).map fun p => Chain.visible (t.chain p)).getD []).filter
        (· ∉ frame.names) := by
  rw [ordered.chain_eq found, Chain.visible]
  cases t.parent? f <;> rfl

/-- The names bound in a frame are found there. -/
theorem Ordered.resolve_of_mem (ordered : t.Ordered) (found : t.frame? f = some frame)
    (full : frame.Full) (bound : name ∈ frame.names) :
    (t.resolve f name).map (·.1) = some f := by
  obtain ⟨d, here⟩ := Option.isSome_iff_exists.1 (full.mem_names_iff.1 bound)
  have there : t.has f = true := has_of_frame? found
  have bound : t.bound? f name = some d := by simp [bound?, found, here]
  rw [ordered.resolve_eq there, bound]
  rfl

/-- All other names are looked up from the parent of the frame. -/
theorem Ordered.resolve_of_not_mem (ordered : t.Ordered) (found : t.frame? f = some frame)
    (full : frame.Full) (free : name ∉ frame.names) :
    t.resolve f name = (t.parent? f).bind (t.resolve · name) := by
  have here : frame.lookup? name = none := by simpa [full.mem_names_iff] using free
  have there : t.has f = true := has_of_frame? found
  have unbound : t.bound? f name = none := by simp [bound?, found, here]
  rw [ordered.resolve_eq there, unbound]
  rfl

/-- All names bound in a frame are visible there. -/
theorem Ordered.visibleIn_self (ordered : t.Ordered) (found : t.frame? f = some frame)
    (full : frame.Full) : t.visibleIn f f = frame.names := by
  have mine : ∀ x ∈ frame.names, decide ((t.resolve f x).map (·.1) = some f) = true :=
    fun x bound => decide_eq_true (ordered.resolve_of_mem found full bound)
  rw [visibleIn, ordered.visible_chain found, List.filter_append, List.filter_eq_self.2 mine,
    List.append_right_eq_self, List.filter_eq_nil_iff]
  intro x outside
  have free : x ∉ frame.names := by simpa using (List.mem_filter.1 outside).2
  rw [decide_eq_true_iff, ordered.resolve_of_not_mem found full free]
  cases parent : t.parent? f with
  | none => simp
  | some p => exact fun found => ordered.not_mem_path parent (mem_path_of_resolve found)

/-- Of another frame, those names are visible that are visible from the parent, unless they are
bound again. -/
theorem Ordered.visibleIn_of_ne (ordered : t.Ordered) (found : t.frame? f = some frame)
    (full : frame.Full) (other : g ≠ f) :
    t.visibleIn f g =
      (((t.parent? f).map (t.visibleIn · g)).getD []).filter (· ∉ frame.names) := by
  have none : frame.names.filter (fun x => (t.resolve f x).map (·.1) = some g) = [] := by
    rw [List.filter_eq_nil_iff]
    intro x bound
    rw [ordered.resolve_of_mem found full bound, decide_eq_true_iff, Option.some.injEq]
    exact Ne.symm other
  rw [visibleIn, ordered.visible_chain found, List.filter_append, none, List.nil_append]
  have outer : ∀ x, x ∉ frame.names → t.resolve f x = (t.parent? f).bind (t.resolve · x) :=
    fun x free => ordered.resolve_of_not_mem found full free
  cases parent : t.parent? f with
  | none => rfl
  | some p =>
    rw [Option.map_some, Option.getD_some, Option.map_some, Option.getD_some, visibleIn,
      List.filter_filter, List.filter_filter]
    refine List.filter_congr fun x _ => ?_
    by_cases free : x ∈ frame.names
    · simp [free]
    · simp [free, outer x free, parent]

end Inner

/-- The visible names are listed by the frames they are found in, those of inner frames first. -/
theorem Ordered.visible_eq (ordered : t.Ordered) (full : t.Full) :
    ∀ f, t.has f = true → Chain.visible (t.chain f) = (t.path f).flatMap (t.visibleIn f) := by
  refine ordered.induction ?_
  intro f there outer
  obtain ⟨frame, found⟩ := exists_frame there
  have here := full f frame found
  rw [ordered.visible_chain found, ordered.path_eq there, List.flatMap_cons,
    ordered.visibleIn_self found here]
  cases parent : t.parent? f with
  | none => simp
  | some p =>
    have rest : ∀ g ∈ t.path p, t.visibleIn f g = (t.visibleIn p g).filter (· ∉ frame.names) := by
      intro g member
      have other : g ≠ f := fun same => ordered.not_mem_path parent (same ▸ member)
      rw [ordered.visibleIn_of_ne found here other, parent]
      rfl
    rw [Option.map_some, Option.getD_some, Option.map_some, Option.getD_some, outer p parent,
      List.filter_flatMap, List.flatMap_congr rest]

/-- The names found in one frame are listed in order. -/
theorem Ordered.pairwise_visibleIn (ordered : t.Ordered) (full : t.Full) (g : FrameId) :
    ∀ f, t.has f = true → (t.visibleIn f g).Pairwise (· < ·) := by
  refine ordered.induction ?_
  intro f there outer
  obtain ⟨frame, found⟩ := exists_frame there
  have here := full f frame found
  by_cases same : g = f
  · subst same
    rw [ordered.visibleIn_self found here]
    exact here.distinct.pairwise_names
  · rw [ordered.visibleIn_of_ne found here same]
    cases parent : t.parent? f with
    | none => exact .nil
    | some p => exact (outer p parent).filter _

end Frames

/-- Visible names are the resolvable ones. After every history that binds no name to nothing, a name
is visible from a frame exactly if looking it up from there finds a declaration, and it is listed
once. The names are listed by the frames they are found in, from the frame itself outward, and in
the order of their bytes within a frame. -/
theorem visible_after (of : Builtin → δ) (history : List (Act δ))
    (declares : ∀ a ∈ history, a.declares = true) (f : FrameId)
    (there : (after of history).has f = true) :
    let t := after of history
    (∀ name, name ∈ Chain.visible (t.chain f) ↔
      ∃ d outer, Chain.find? name (t.chain f) = some (d, outer)) ∧
    (∀ name, Chain.find? name (t.chain f) =
      (t.resolve f name).map fun x => (x.2, t.chain x.1)) ∧
    (Chain.visible (t.chain f)).Nodup ∧
    Chain.visible (t.chain f) = (t.path f).flatMap (t.visibleIn f) ∧
    ∀ g, (t.visibleIn f g).Pairwise fun a b => Text.bytes a < Text.bytes b := by
  intro t
  have ordered : t.Ordered := (coherent_after history).ordered
  have full : t.Full := full_after declares
  have frames := ordered.full_chain full f there
  refine ⟨fun name => ?_, fun name => ordered.find?_chain name f there,
    Chain.nodup_visible fun frame member => (frames frame member).distinct,
    ordered.visible_eq full f there, fun g => ?_⟩
  · rw [Chain.mem_visible_iff_isSome frames, Option.isSome_iff_exists, Prod.exists]
  · exact (ordered.pairwise_visibleIn full g f there).imp Text.bytes_lt_iff.2

/-- Two frames, the inner one of which binds a name of the outer one again. -/
def shadowing : List (Act Nat) :=
  [.make none "outer", .insert (.made 0) "b" (some 1), .insert (.made 0) "a" (some 2),
    .make (some (.made 0)) "inner", .insert (.made 1) "b" (some 3)]

theorem visible_after_shadowing :
    let t := after (fun _ => 0) shadowing
    (∀ a ∈ shadowing, a.declares = true) ∧ t.has (.made 1) = true ∧
      "a" ∈ Chain.visible (t.chain (.made 1)) ∧
      Chain.visible (t.chain (.made 1)) =
        t.visibleIn (.made 1) (.made 1) ++ t.visibleIn (.made 1) (.made 0) := by
  intro t
  have declares : ∀ a ∈ shadowing, a.declares = true := by decide
  have there : t.has (.made 1) = true := by decide
  have path : t.path (.made 1) = [.made 1, .made 0] := by
    have ordered : t.Ordered := (coherent_after shadowing).ordered
    have outermost : t.path (.made 0) = [.made 0] := ordered.path_eq (by decide)
    have parent : t.parent? (.made 1) = some (.made 0) := by decide
    rw [ordered.path_eq there, parent, Option.map_some, Option.getD_some, outermost]
  have bound : t.resolve (.made 1) "a" = some (.made 0, 2) := by
    rw [resolve, path]
    decide
  obtain ⟨visible, found, -, listed, -⟩ := visible_after (fun _ => 0) shadowing declares _ there
  refine ⟨declares, there, (visible "a").2 ⟨2, t.chain (.made 0), ?_⟩, ?_⟩
  · rw [found, bound]
    rfl
  · rw [listed, path, List.flatMap_cons, List.flatMap_cons, List.flatMap_nil, List.append_nil]

end TriangleTam.SymbolTable

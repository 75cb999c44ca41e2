import TriangleTam.Environment
import TriangleTam.Proofs.Check.Scoped

/-!
# Histories of symbol tables

A symbol table grows: frames are made and names are bound in them, and nothing is ever taken back.
`act` is what one act makes of a table and `after` what a whole history comes to. There is one lemma
for what making a frame does to the entries of a table (`record?_make`) and one for binding a name
(`record?_insert`); what holds after every history follows from these for one act first. The entries
agree about parents, levels and children (`Coherent.act`), a binding stays (`bound?_act`), and
frames are numbered in the order in which they are made (`lineage_foldl`). Binding a name is seen
from a frame only if no frame between the two binds it (`sees_of_resolve_ne`). `after_keeps` puts
this together.
-/

namespace TriangleTam

namespace Frame

variable {δ : Type} (f : Frame δ) (name : String) (d : Option δ)

theorem fst_insert : (f.insert name d).1 = f.lookup? name := by
  cases bound : f.lookup? name with
  | none => simp [insert, bound]
  | some b => rw [insert_eq_of_lookup?_eq_some bound]

theorem lookup?_snd_insert (x : String) :
    (f.insert name d).2.lookup? x =
      if x = name then (f.lookup? name).or d else f.lookup? x := by
  cases bound : f.lookup? name with
  | none =>
    obtain ⟨g, hg⟩ := insert_eq_of_lookup?_eq_none (d := d) bound
    simp [hg, lookup?_insert hg x]
  | some b =>
    rw [insert_eq_of_lookup?_eq_some bound]
    by_cases same : x = name <;> simp [same, bound]

end Frame

namespace FrameEntry

variable {δ : Type} (e : FrameEntry δ) (child : FrameId)

@[simp] theorem frame_adopt : (e.adopt child).frame = e.frame := by
  cases h : e.frozen <;> simp [adopt, h]

@[simp] theorem parent_adopt : (e.adopt child).parent = e.parent := by
  cases h : e.frozen <;> simp [adopt, h]

@[simp] theorem level_adopt : (e.adopt child).level = e.level := by
  cases h : e.frozen <;> simp [adopt, h]

@[simp] theorem frozen_adopt : (e.adopt child).frozen = e.frozen := by
  cases h : e.frozen <;> simp [adopt, h]

end FrameEntry

namespace SymbolTable

variable {δ : Type}

section Views

variable (t : SymbolTable δ)

/-- Whether there is such a frame. -/
def has (id : FrameId) : Bool := (t.record? id).isSome

/-- What a name is bound to in one frame. -/
def bound? (id : FrameId) (name : String) : Option δ :=
  (t.frame? id).bind (·.lookup? name)

/-- The frames from a frame outward. -/
def path (id : FrameId) : List FrameId :=
  match t.record? id with
  | none => []
  | some e =>
    match e.parent with
    | some p => if p.rank < id.rank then id :: path p else [id]
    | none => [id]
termination_by id.rank

/-- The declaration of a name that is found from a frame outward, with the frame that binds it. -/
def resolve (id : FrameId) (name : String) : Option (FrameId × δ) :=
  (t.path id).findSome? fun f => (t.bound? f name).map (f, ·)

/-- From frame `f`, the frame `s` is reached without passing another that binds the name: `f` is
`s` itself, or it lies inside and there is no nearer binding. -/
inductive Sees (s : FrameId) (name : String) : FrameId → Prop where
  | here : Sees s name s
  | inner {f p} (unbound : t.bound? f name = none) (parent : t.parent? f = some p)
      (outer : Sees s name p) : Sees s name f

/-- The frame `top` is `k` parents above the frame. -/
inductive Above : FrameId → Nat → FrameId → Prop where
  | here {id} : Above id 0 id
  | parent {id p k top} (parent : t.parent? id = some p) (rest : Above p k top) :
      Above id (k + 1) top

/-- Every frame that was made, in the order in which they were made, with its parent. -/
def lineage : List (FrameId × Option FrameId) :=
  (List.range t.entries.length).map fun n => (.made n, t.parent? (.made n))

/-- Parents are made before the frames inside them. -/
def Ordered : Prop := ∀ f p : FrameId, t.parent? f = some p → p.rank < f.rank

/-- The entries of a table agree about which frames lie inside which. -/
structure Coherent : Prop where
  ordered : t.Ordered
  level : ∀ f e, t.record? f = some e → e.level = t.levelInside e.parent
  /-- Only the standard environment is frozen. -/
  frozen : ∀ f e, t.record? f = some e → (e.frozen = true ↔ f = .standard)
  children : ∀ f e, t.record? f = some e → e.frozen = false →
    e.children = (t.lineage.filter (·.2 = some f)).map (·.1)

/-- The table `t'` is `t` with the new frame `f` inside `parent`. A frame inside another is one
level deeper, and is the last of its parent's children unless the parent is the standard
environment. Nothing else changes. -/
structure Adds (f : FrameId) (frame : Frame δ) (parent : Option FrameId) (t' : SymbolTable δ) :
    Prop where
  new : t.has f = false
  entry : ∃ level, t'.record? f = some ⟨frame, parent, level, [], false⟩
  outermost : parent = none → t'.level? f = some 0
  inside : ∀ p, parent = some p → ∃ k, t.level? p = some k ∧ t'.level? f = some (k + 1)
  last : ∀ p, parent = some p → p ≠ .standard → t'.children p = t.children p ++ [f]
  others : ∀ g, g ≠ f → parent ≠ some g ∨ g = .standard → t'.record? g = t.record? g
  kept : ∀ g, g ≠ f → t'.frame? g = t.frame? g ∧ t'.parent? g = t.parent? g ∧
    t'.level? g = t.level? g

/-- The table `t'` is `t` with a name bound in frame `id`, unless it was bound there before. Another
declaration can be found only for this name, and only from the frames that see it; from these a new
declaration is found. Nothing else changes. -/
structure Fills (id : FrameId) (name : String) (d : Option δ) (t' : SymbolTable δ) : Prop where
  bound : t'.bound? id name = (t.bound? id name).or d
  others : ∀ f x, ¬ (f = id ∧ x = name) → t'.bound? f x = t.bound? f x
  frames : ∀ f, t'.parent? f = t.parent? f ∧ t'.level? f = t.level? f ∧
    t'.children f = t.children f
  sees : ∀ f x, t.has f = true → t'.resolve f x ≠ t.resolve f x → x = name ∧ t.Sees id name f
  found : ∀ f b, t.has f = true → t.Sees id name f → t.bound? id name = none → d = some b →
    t'.resolve f name = some (id, b)

end Views

section Acts

/-- Something that is done to a symbol table. -/
inductive Act (δ : Type) where
  /-- Makes a frame inside another, or inside none. -/
  | make (parent : Option FrameId) (comment : String)
  /-- Makes a frame that starts with the standard environment. -/
  | makeRoot
  | insert (id : FrameId) (name : String) (d : Option δ)
  | lookUp (id : FrameId) (name : String)

/-- What an act makes of a table. Nothing can be done to a frame that is not there, and binding a
name in the standard environment fails. -/
def act (t : SymbolTable δ) : Act δ → SymbolTable δ
  | .make parent comment => if parent.all t.has then (t.make ⟨comment, []⟩ parent).2 else t
  | .makeRoot => t.makeRoot.2
  | .insert id name d =>
    match t.insert id name d with
    | .ok (_, t') => t'
    | .error _ => t
  | .lookUp _ _ => t

/-- The frames that are made in the course of a history, each with its parent, if `n` were made
before. A parent has to be among those that are there. -/
def births (n : Nat) : List (Act δ) → List (FrameId × Option FrameId)
  | [] => []
  | .make parent _ :: history =>
    if parent.all (·.rank ≤ n) then (.made n, parent) :: births (n + 1) history
    else births n history
  | .makeRoot :: history => (.made n, none) :: births (n + 1) history
  | .insert .. :: history => births n history
  | .lookUp .. :: history => births n history

/-- The table that has the standard environment and nothing else. -/
def start (of : Builtin → δ) : SymbolTable δ := ⟨Environment.standard of, []⟩

/-- The table after a history. -/
def after (of : Builtin → δ) (history : List (Act δ)) : SymbolTable δ :=
  history.foldl act (start of)

end Acts

section Entries

variable {t : SymbolTable δ} {f g : FrameId} {name : String}

theorem has_iff_rank_le : t.has f = true ↔ f.rank ≤ t.entries.length := by
  cases f with
  | standard => simp [has, record?, FrameId.rank]
  | made n =>
    have inside : t.entries[n]?.isSome = true ↔ n < t.entries.length := by simp
    exact inside.trans Nat.succ_le_iff.symm

theorem exists_entry (there : t.has f = true) : ∃ e, t.record? f = some e :=
  Option.isSome_iff_exists.1 there

theorem has_of_parent? {p : FrameId} (h : t.parent? f = some p) : t.has f = true := by
  obtain ⟨e, entry, -⟩ := Option.bind_eq_some_iff.1 h
  simp [has, entry]

theorem has_of_frame? {frame : Frame δ} (h : t.frame? f = some frame) : t.has f = true := by
  obtain ⟨e, entry, -⟩ := Option.map_eq_some_iff.1 h
  simp [has, entry]

theorem has_next : t.has t.next = false := by
  simp [has, record?, next]

theorem record?_modify (id : FrameId) (change : FrameEntry δ → FrameEntry δ) :
    (t.modify id change).record? f = (t.record? f).map fun e => if f = id then change e else e := by
  cases id with
  | standard => cases f <;> simp [modify, record?]
  | made n =>
    cases f with
    | standard => simp [modify, record?]
    | made m => simp [modify, record?, List.getElem?_modify, eq_comm]

theorem length_modify (id : FrameId) (change : FrameEntry δ → FrameEntry δ) :
    (t.modify id change).entries.length = t.entries.length := by
  cases id <;> simp [modify]

/-- The lineage lists all frames apart from the standard environment. -/
theorem mem_lineage {p : Option FrameId} :
    (f, p) ∈ t.lineage ↔ f ≠ .standard ∧ t.has f = true ∧ t.parent? f = p := by
  cases f with
  | standard => simp [lineage]
  | made n =>
    have there : t.has (.made n) = true ↔ n < t.entries.length :=
      has_iff_rank_le.trans Nat.succ_le_iff
    simp only [lineage, List.mem_map, List.mem_range, Prod.mk.injEq, FrameId.made.injEq]
    constructor
    · rintro ⟨m, inside, rfl, rfl⟩
      exact ⟨by simp, there.2 inside, rfl⟩
    · rintro ⟨-, inside, rfl⟩
      exact ⟨n, there.1 inside, rfl, rfl⟩

theorem Ordered.has_parent (ordered : t.Ordered) {p : FrameId} (h : t.parent? f = some p) :
    t.has p = true := by
  have inside : f.rank ≤ t.entries.length := has_iff_rank_le.1 (has_of_parent? h)
  exact has_iff_rank_le.2 (Nat.le_trans (Nat.le_of_lt (ordered f p h)) inside)

/-- What holds of a frame if it holds of its parent, should it have one, holds of all frames. -/
theorem Ordered.induction (ordered : t.Ordered) {P : FrameId → Prop}
    (step : ∀ f, t.has f = true → (∀ p, t.parent? f = some p → P p) → P f) :
    ∀ f, t.has f = true → P f := by
  intro f there
  induction rank : f.rank using Nat.strongRecOn generalizing f with
  | ind n ih =>
    refine step f there fun p parent => ?_
    exact ih p.rank (rank ▸ ordered f p parent) p (ordered.has_parent parent) rfl

theorem Ordered.path_eq (ordered : t.Ordered) (there : t.has f = true) :
    t.path f = f :: ((t.parent? f).map t.path).getD [] := by
  obtain ⟨e, entry⟩ := exists_entry there
  have up : t.parent? f = e.parent := by simp [parent?, entry]
  rw [path, entry, up]
  cases parent : e.parent with
  | none => simp [parent]
  | some p => simp [parent, ordered f p (up.trans parent)]

theorem Ordered.chain_eq (ordered : t.Ordered) {frame : Frame δ} (there : t.frame? f = some frame) :
    t.chain f = frame :: ((t.parent? f).map t.chain).getD [] := by
  obtain ⟨e, entry, rfl⟩ := Option.map_eq_some_iff.1 there
  have up : t.parent? f = e.parent := by simp [parent?, entry]
  rw [chain, entry, up]
  cases parent : e.parent with
  | none => simp [parent]
  | some p => simp [parent, ordered f p (up.trans parent)]

/-- A name is looked up in the frame itself, and then from its parent outward. -/
theorem Ordered.resolve_eq (ordered : t.Ordered) (there : t.has f = true) :
    t.resolve f name =
      ((t.bound? f name).map (f, ·)).or ((t.parent? f).bind (t.resolve · name)) := by
  rw [resolve, ordered.path_eq there, List.findSome?_cons]
  cases t.bound? f name with
  | some d => rfl
  | none => cases t.parent? f <;> rfl

theorem exists_frame (there : t.has f = true) : ∃ frame, t.frame? f = some frame := by
  obtain ⟨e, entry⟩ := exists_entry there
  exact ⟨e.frame, by simp [frame?, entry]⟩

/-- Looking a name up along the chain of a frame gives the declaration that is found from the frame
outward, and the chain of the frame that binds it. -/
theorem Ordered.find?_chain (ordered : t.Ordered) (name : String) :
    ∀ f, t.has f = true →
      Chain.find? name (t.chain f) = (t.resolve f name).map fun x => (x.2, t.chain x.1) := by
  refine ordered.induction ?_
  intro f there outer
  obtain ⟨frame, found⟩ := exists_frame there
  have bound : t.bound? f name = frame.lookup? name := by simp [bound?, found]
  rw [ordered.resolve_eq there, bound, ordered.chain_eq found, Chain.find?]
  cases here : frame.lookup? name with
  | some d => simp [ordered.chain_eq found]
  | none =>
    cases parent : t.parent? f with
    | none => rfl
    | some p => simpa using outer p parent

/-- The level that a frame keeps is the length of the way to a frame without a parent, and one less
than that of its chain. -/
theorem Coherent.exists_above (coherent : t.Coherent) :
    ∀ f, t.has f = true → ∃ k, t.level? f = some k ∧ (t.chain f).length = k + 1 ∧
      ∃ top, t.has top = true ∧ t.parent? top = none ∧ t.Above f k top := by
  refine coherent.ordered.induction ?_
  intro f there outer
  obtain ⟨e, entry⟩ := exists_entry there
  have up : t.parent? f = e.parent := by simp [parent?, entry]
  have chain := coherent.ordered.chain_eq (show t.frame? f = some e.frame by simp [frame?, entry])
  have level := coherent.level f e entry
  refine ⟨e.level, by simp [level?, entry], ?_⟩
  rw [level, chain, up]
  cases parent : e.parent with
  | none =>
    refine ⟨rfl, f, there, up.trans parent, ?_⟩
    exact .here
  | some p =>
    obtain ⟨k, deep, length, top, has, outermost, above⟩ := outer p (up.trans parent)
    have inside : t.levelInside (some p) = k + 1 := by simp [levelInside, deep]
    rw [inside]
    refine ⟨by simp [length], top, has, outermost, ?_⟩
    exact .parent (up.trans parent) above

end Entries

section Make

variable {t : SymbolTable δ} {frame : Frame δ} {parent : Option FrameId} {f : FrameId}

/-- Making a frame adds its entry and lists it among the children of its parent. -/
theorem record?_make (t : SymbolTable δ) (frame : Frame δ) (parent : Option FrameId) (f : FrameId) :
    (t.make frame parent).2.record? f =
      if f = t.next then some { frame, parent, level := t.levelInside parent }
      else (t.record? f).map fun e => if parent = some f then e.adopt t.next else e := by
  -- A new entry at the end of a table that has the same number of entries as `t`.
  have added : ∀ (u : SymbolTable δ) (new : FrameEntry δ), u.entries.length = t.entries.length →
      ({ u with entries := u.entries ++ [new] } : SymbolTable δ).record? f =
        if f = t.next then some new else u.record? f := by
    intro u new length
    cases f with
    | standard => simp [record?, next]
    | made n =>
      rw [record?, List.getElem?_append, length]
      by_cases inside : n < t.entries.length
      · have other : n ≠ t.entries.length := Nat.ne_of_lt inside
        simp [inside, other, record?, next]
      · by_cases last : n = t.entries.length
        · simp [last, next]
        · have beyond : n - t.entries.length ≠ 0 := by omega
          have outside : u.entries.length ≤ n := by omega
          simp [inside, last, next, record?, List.getElem?_eq_none outside, beyond]
  cases parent with
  | none => simp [make, added t _ rfl]
  | some p =>
    rw [make, added _ _ (length_modify p _), record?_modify]
    simp [eq_comm]

theorem length_make : (t.make frame parent).2.entries.length = t.entries.length + 1 := by
  cases parent with
  | none => simp [make]
  | some p => simp [make, length_modify]

theorem record?_make_next : (t.make frame parent).2.record? t.next =
    some ⟨frame, parent, t.levelInside parent, [], false⟩ := by
  simp [record?_make]

theorem ne_next (there : t.has f = true) : f ≠ t.next := by
  rintro rfl
  simp [has_next] at there

/-- Frames that are there keep their bindings, their parents and their levels. -/
theorem views_make (other : f ≠ t.next) :
    (t.make frame parent).2.frame? f = t.frame? f ∧
      (t.make frame parent).2.parent? f = t.parent? f ∧
      (t.make frame parent).2.level? f = t.level? f := by
  simp only [frame?, parent?, level?, record?_make, if_neg other]
  cases t.record? f with
  | none => simp
  | some e => by_cases inside : parent = some f <;> simp [inside]

theorem parent?_make : (t.make frame parent).2.parent? f =
    if f = t.next then parent else t.parent? f := by
  by_cases new : f = t.next
  · simp [new, parent?, record?_make_next]
  · rw [if_neg new, (views_make new).2.1]

theorem lineage_make :
    (t.make frame parent).2.lineage = t.lineage ++ [(t.next, parent)] := by
  have same : ∀ m ∈ List.range t.entries.length,
      (FrameId.made m, (t.make frame parent).2.parent? (.made m)) =
        (.made m, t.parent? (.made m)) := by
    intro m hm
    have other : FrameId.made m ≠ t.next :=
      ne_next (has_iff_rank_le.2 (Nat.succ_le_of_lt (List.mem_range.1 hm)))
    rw [parent?_make, if_neg other]
  have last : t.next = .made t.entries.length := rfl
  rw [lineage, length_make, List.range_succ, List.map_append, List.map_congr_left same]
  simp [lineage, parent?_make, last]

/-- No frame lies inside one that is yet to be made. -/
theorem Ordered.parent?_ne_next (ordered : t.Ordered) : t.parent? f ≠ some t.next := by
  intro inside
  have there : t.has t.next = true := ordered.has_parent inside
  simp [has_next] at there

theorem Ordered.make (ordered : t.Ordered) (there : parent.all t.has = true) :
    (t.make frame parent).2.Ordered := by
  intro f p inside
  rw [parent?_make] at inside
  by_cases new : f = t.next
  · rw [if_pos new] at inside
    subst inside new
    exact Nat.lt_succ_of_le (has_iff_rank_le.1 there)
  · rw [if_neg new] at inside
    exact ordered f p inside

theorem level?_of_has {p : FrameId} (there : t.has p = true) :
    ∃ k, t.level? p = some k ∧ t.levelInside (some p) = k + 1 := by
  obtain ⟨e, entry⟩ := exists_entry there
  exact ⟨e.level, by simp [level?, entry], by simp [levelInside, level?, entry]⟩

theorem levelInside_make (frame : Frame δ) (parent : Option FrameId) {outer : Option FrameId}
    (there : outer.all t.has = true) :
    (t.make frame parent).2.levelInside outer = t.levelInside outer := by
  cases outer with
  | none => rfl
  | some p => simp [levelInside, (views_make (ne_next there)).2.2]

/-- An entry after a frame was made is that of the new frame, or there was one before. -/
theorem record?_make_cases {e : FrameEntry δ} (entry : (t.make frame parent).2.record? f = some e) :
    f = t.next ∧ e = ⟨frame, parent, t.levelInside parent, [], false⟩ ∨
      f ≠ t.next ∧ ∃ before, t.record? f = some before ∧
        e = if parent = some f then before.adopt t.next else before := by
  rw [record?_make] at entry
  by_cases new : f = t.next
  · rw [if_pos new] at entry
    exact .inl ⟨new, (Option.some.inj entry).symm⟩
  · rw [if_neg new] at entry
    obtain ⟨before, found, rfl⟩ := Option.map_eq_some_iff.1 entry
    exact .inr ⟨new, before, found, rfl⟩

/-- Making a frame inside one that is there keeps the entries in agreement. -/
theorem Coherent.make (coherent : t.Coherent) (there : parent.all t.has = true) :
    (t.make frame parent).2.Coherent := by
  have ordered := coherent.ordered
  refine ⟨ordered.make there, ?_, ?_, ?_⟩
  · intro f e entry
    rcases record?_make_cases entry with ⟨rfl, rfl⟩ | ⟨other, e, before, rfl⟩
    · exact (levelInside_make _ _ there).symm
    · have outside : e.parent.all t.has = true := by
        cases up : e.parent with
        | none => rfl
        | some p =>
          exact ordered.has_parent (show t.parent? f = some p by simp [parent?, before, up])
      have level := coherent.level f e before
      rw [← levelInside_make frame parent outside] at level
      by_cases inside : parent = some f <;> simpa [inside] using level
  · intro f e entry
    rcases record?_make_cases entry with ⟨rfl, rfl⟩ | ⟨other, e, before, rfl⟩
    · simp [next]
    · have frozen := coherent.frozen f e before
      by_cases inside : parent = some f <;> simpa [inside] using frozen
  · intro f e entry thawed
    rw [lineage_make, List.filter_append, List.map_append]
    rcases record?_make_cases entry with ⟨rfl, rfl⟩ | ⟨other, e, before, rfl⟩
    · have childless : t.lineage.filter (·.2 = some t.next) = [] := by
        simp [lineage, ordered.parent?_ne_next]
      have itself : parent ≠ some t.next := by
        rintro rfl
        simp [has_next] at there
      simp [childless, itself]
    · by_cases inside : parent = some f
      · rw [if_pos inside, FrameEntry.frozen_adopt] at thawed
        simp [inside, FrameEntry.adopt, thawed, coherent.children f e before thawed]
      · rw [if_neg inside] at thawed
        simp [inside, coherent.children f e before thawed]

/-- Making a frame inside one that is there adds it. -/
theorem Coherent.adds (coherent : t.Coherent) (frame : Frame δ)
    (there : parent.all t.has = true) :
    t.Adds t.next frame parent (t.make frame parent).2 := by
  have entry : (t.make frame parent).2.record? t.next =
      some ⟨frame, parent, t.levelInside parent, [], false⟩ := record?_make_next
  have level : (t.make frame parent).2.level? t.next = some (t.levelInside parent) := by
    simp [level?, entry]
  refine ⟨has_next, ⟨_, entry⟩, ?_, ?_, ?_, ?_, fun g other => views_make other⟩
  · rintro rfl
    exact level
  · rintro p rfl
    obtain ⟨k, known, inside⟩ := level?_of_has there
    exact ⟨k, known, inside ▸ level⟩
  · rintro p rfl mutable
    obtain ⟨e, before⟩ := exists_entry there
    have thawed : e.frozen = false := by
      simpa [mutable] using coherent.frozen p e before
    have other : p ≠ t.next := ne_next there
    simp [SymbolTable.children, record?_make, other, before, FrameEntry.adopt, thawed]
  · intro g other away
    rw [record?_make, if_neg other]
    rcases away with away | rfl
    · simp [away]
    · have frozen : t.standard.frozen = true := (coherent.frozen .standard _ rfl).2 rfl
      by_cases inside : parent = some .standard <;> simp [inside, record?, FrameEntry.adopt, frozen]

end Make

section Insert

variable {t t' : SymbolTable δ} {id f : FrameId} {name : String} {d old : Option δ}

/-- All that binding a name can do: nothing if there is no such frame, or to change its bindings. -/
theorem insert_cases (h : t.insert id name d = .ok (old, t')) :
    (t.record? id = none ∧ t' = t) ∨
      ∃ e, t.record? id = some e ∧
        t' = t.modify id ({ · with frame := (e.frame.insert name d).2 }) := by
  cases entry : t.record? id with
  | none =>
    simp only [insert, entry, Except.ok.injEq, Prod.mk.injEq] at h
    exact .inl ⟨rfl, h.2.symm⟩
  | some e =>
    simp only [insert, entry] at h
    split at h
    · cases h
    · cases h
      exact .inr ⟨e, rfl, rfl⟩

/-- Binding a name in a frame changes the bindings of that frame only. -/
theorem record?_insert (h : t.insert id name d = .ok (old, t')) (f : FrameId) :
    t'.record? f = (t.record? f).map fun e =>
      if f = id then { e with frame := (e.frame.insert name d).2 } else e := by
  rcases insert_cases h with ⟨missing, rfl⟩ | ⟨e, entry, rfl⟩
  · by_cases same : f = id
    · simp [same, missing]
    · simp [same]
  · rw [record?_modify]
    by_cases same : f = id
    · simp [same, entry]
    · simp [same]

theorem length_insert (h : t.insert id name d = .ok (old, t')) :
    t'.entries.length = t.entries.length := by
  rcases insert_cases h with ⟨-, rfl⟩ | ⟨e, -, rfl⟩
  · rfl
  · exact length_modify id _

/-- What does not depend on bindings stays the same when a name is bound. -/
theorem map_record?_insert {α : Type} (h : t.insert id name d = .ok (old, t'))
    (view : FrameEntry δ → α) (blind : ∀ e frame, view { e with frame } = view e) (f : FrameId) :
    (t'.record? f).map view = (t.record? f).map view := by
  rw [record?_insert h, Option.map_map]
  cases t.record? f with
  | none => rfl
  | some e => by_cases same : f = id <;> simp [same, blind]

theorem has_insert (h : t.insert id name d = .ok (old, t')) (f : FrameId) :
    t'.has f = t.has f := by
  simp [has, record?_insert h]

theorem parent?_insert (h : t.insert id name d = .ok (old, t')) (f : FrameId) :
    t'.parent? f = t.parent? f := by
  have parents := map_record?_insert h (·.parent) (fun _ _ => rfl) f
  simpa [parent?, Option.bind_map, Function.comp_def] using congrArg (·.bind fun p => p) parents

theorem level?_insert (h : t.insert id name d = .ok (old, t')) (f : FrameId) :
    t'.level? f = t.level? f :=
  map_record?_insert h (·.level) (fun _ _ => rfl) f

theorem children_insert (h : t.insert id name d = .ok (old, t')) (f : FrameId) :
    t'.children f = t.children f := by
  rw [children, children, map_record?_insert h (·.children) (fun _ _ => rfl) f]

theorem lineage_insert (h : t.insert id name d = .ok (old, t')) : t'.lineage = t.lineage := by
  simp only [lineage, length_insert h, parent?_insert h]

theorem Ordered.insert (ordered : t.Ordered) (h : t.insert id name d = .ok (old, t')) :
    t'.Ordered := by
  intro f p inside
  rw [parent?_insert h] at inside
  exact ordered f p inside

theorem levelInside_insert (h : t.insert id name d = .ok (old, t')) (parent : Option FrameId) :
    t'.levelInside parent = t.levelInside parent := by
  cases parent with
  | none => rfl
  | some p => simp [levelInside, level?_insert h]

/-- Binding a name keeps the entries in agreement. -/
theorem Coherent.insert (coherent : t.Coherent) (h : t.insert id name d = .ok (old, t')) :
    t'.Coherent := by
  refine ⟨coherent.ordered.insert h, ?_, ?_, ?_⟩
  all_goals
    intro f e entry
    rw [record?_insert h] at entry
    obtain ⟨e, before, rfl⟩ := Option.map_eq_some_iff.1 entry
  · have level := coherent.level f e before
    rw [← levelInside_insert h] at level
    by_cases same : f = id <;> simpa [same] using level
  · have frozen := coherent.frozen f e before
    by_cases same : f = id <;> simpa [same] using frozen
  · have children := coherent.children f e before
    rw [lineage_insert h]
    by_cases same : f = id <;> simpa [same] using children

/-- Nothing can be bound in the standard environment. -/
theorem Coherent.insert_standard (coherent : t.Coherent) :
    t.insert .standard name d = .error ⟨t.standard.frame.comment⟩ := by
  have frozen : t.standard.frozen = true := (coherent.frozen .standard _ rfl).2 rfl
  simp [SymbolTable.insert, record?, frozen]

theorem insert_eq {e : FrameEntry δ} (entry : t.record? id = some e) (thawed : e.frozen = false) :
    t.insert id name d = .ok ((e.frame.insert name d).1,
      t.modify id ({ · with frame := (e.frame.insert name d).2 })) := by
  simp [SymbolTable.insert, entry, thawed]

theorem Coherent.thawed (coherent : t.Coherent) {e : FrameEntry δ} (entry : t.record? id = some e)
    (mutable : id ≠ .standard) : e.frozen = false := by
  simpa [mutable] using coherent.frozen id e entry

theorem Coherent.children_eq (coherent : t.Coherent) (there : t.has id = true)
    (mutable : id ≠ .standard) :
    t.children id = (t.lineage.filter (·.2 = some id)).map (·.1) := by
  obtain ⟨e, entry⟩ := exists_entry there
  rw [← coherent.children id e entry (coherent.thawed entry mutable)]
  simp [SymbolTable.children, entry]

/-- Binding a name in a frame that was made gives what it was bound to there. -/
theorem Coherent.exists_insert (coherent : t.Coherent) (there : t.has id = true)
    (mutable : id ≠ .standard) (name : String) (d : Option δ) :
    ∃ t', t.insert id name d = .ok (t.bound? id name, t') := by
  obtain ⟨e, entry⟩ := exists_entry there
  have bound : t.bound? id name = e.frame.lookup? name := by simp [bound?, frame?, entry]
  rw [bound, insert_eq entry (coherent.thawed entry mutable), Frame.fst_insert]
  exact ⟨_, rfl⟩

theorem modify_eq_self {change : FrameEntry δ → FrameEntry δ} {e : FrameEntry δ}
    (entry : t.record? id = some e) (same : change e = e) : t.modify id change = t := by
  cases id with
  | standard =>
    cases entry
    simp [modify, same]
  | made n =>
    have entries : t.entries.modify n change = t.entries := by
      apply List.ext_getElem?
      intro m
      have found : t.entries[n]? = some e := entry
      rw [List.getElem?_modify]
      by_cases here : n = m
      · subst here
        simp [found, same]
      · simp [here]
    simp [modify, entries]

/-- Binding a name that is bound already gives its declaration and changes nothing. -/
theorem Coherent.insert_of_bound (coherent : t.Coherent) {b : δ} (mutable : id ≠ .standard)
    (bound : t.bound? id name = some b) : t.insert id name d = .ok (some b, t) := by
  obtain ⟨frame, known, found⟩ := Option.bind_eq_some_iff.1 bound
  obtain ⟨e, entry, rfl⟩ := Option.map_eq_some_iff.1 known
  rw [insert_eq entry (coherent.thawed entry mutable),
    Frame.insert_eq_of_lookup?_eq_some found, modify_eq_self entry rfl]

theorem frame?_insert (h : t.insert id name d = .ok (old, t')) (f : FrameId) :
    t'.frame? f = (t.frame? f).map fun g => if f = id then (g.insert name d).2 else g := by
  rw [frame?, frame?, record?_insert h, Option.map_map, Option.map_map]
  cases t.record? f with
  | none => rfl
  | some e => by_cases same : f = id <;> simp [same]

/-- A name is bound afterwards to what it was bound to, or else to the new declaration, and every
other name in every frame is bound to what it was. -/
theorem bound?_insert (h : t.insert id name d = .ok (old, t')) (there : t.has id = true)
    (f : FrameId) (x : String) :
    t'.bound? f x = if f = id ∧ x = name then (t.bound? id name).or d else t.bound? f x := by
  rw [bound?, frame?_insert h]
  by_cases same : f = id
  · subst same
    obtain ⟨g, found⟩ := exists_frame there
    simp [bound?, found, Frame.lookup?_snd_insert]
  · simp [same, bound?]

/-- Binding a name in a frame can only change what is found for this name, and only from the frame
itself and from those inside it that have no nearer binding of it. -/
theorem sees_of_resolve_ne (ordered : t.Ordered) (h : t.insert id name d = .ok (old, t'))
    (there : t.has id = true) {x : String} :
    ∀ f, t.has f = true → t'.resolve f x ≠ t.resolve f x → x = name ∧ t.Sees id name f := by
  refine ordered.induction ?_
  intro f has outer changed
  rw [ordered.resolve_eq has, (ordered.insert h).resolve_eq (by rwa [has_insert h]),
    parent?_insert h, bound?_insert h there] at changed
  by_cases here : f = id ∧ x = name
  · obtain ⟨rfl, rfl⟩ := here
    exact ⟨rfl, .here⟩
  · rw [if_neg here] at changed
    cases bound : t.bound? f x with
    | some b => simp [bound] at changed
    | none =>
      cases parent : t.parent? f with
      | none => simp [parent] at changed
      | some p =>
        obtain ⟨rfl, sees⟩ := outer p parent (by simpa [bound, parent] using changed)
        exact ⟨rfl, .inner bound parent sees⟩

/-- A name that is newly bound in a frame is found there from all frames that see it. -/
theorem Sees.resolve_insert (ordered : t.Ordered) {b : δ}
    (h : t.insert id name (some b) = .ok (old, t')) (there : t.has id = true)
    (unbound : t.bound? id name = none) {f : FrameId} (sees : t.Sees id name f)
    (has : t.has f = true) : t'.resolve f name = some (id, b) := by
  have ordered' : t'.Ordered := ordered.insert h
  have here : t'.resolve id name = some (id, b) := by
    rw [ordered'.resolve_eq (by rwa [has_insert h]), bound?_insert h there]
    simp [unbound]
  induction sees with
  | here => exact here
  | @inner f p free parent _ ih =>
    by_cases same : f = id
    · rwa [same]
    · rw [ordered'.resolve_eq (by rwa [has_insert h]), bound?_insert h there, parent?_insert h,
        parent]
      simpa [same, free] using ih (ordered.has_parent parent)

/-- Binding a name in a frame fills it. -/
theorem Ordered.fills (ordered : t.Ordered) (h : t.insert id name d = .ok (old, t'))
    (there : t.has id = true) : t.Fills id name d t' where
  bound := by simp [bound?_insert h there]
  others f x other := by rw [bound?_insert h there, if_neg other]
  frames f := ⟨parent?_insert h f, level?_insert h f, children_insert h f⟩
  sees f _ := sees_of_resolve_ne ordered h there f
  found := by
    rintro f b has sees unbound rfl
    exact sees.resolve_insert ordered h there unbound has

end Insert

section History

variable {of : Builtin → δ} {t : SymbolTable δ}

theorem act_insert_of_ok {id : FrameId} {name : String} {d old : Option δ} {t' : SymbolTable δ}
    (h : t.insert id name d = .ok (old, t')) : act t (.insert id name d) = t' := by
  simp [act, h]

theorem act_insert_of_error {id : FrameId} {name : String} {d : Option δ} {e : Frozen}
    (h : t.insert id name d = .error e) : act t (.insert id name d) = t := by
  simp [act, h]

/-- All that an act can do: nothing, to make a frame inside one that is there, or to bind a name. -/
theorem act_cases (t : SymbolTable δ) (a : Act δ) :
    act t a = t ∨
    (∃ frame parent, parent.all t.has = true ∧ act t a = (t.make frame parent).2) ∨
    ∃ id name d old, t.insert id name d = .ok (old, act t a) := by
  cases a with
  | make parent comment =>
    by_cases there : parent.all t.has = true
    · exact .inr (.inl ⟨⟨comment, []⟩, parent, there, by simp [act, there]⟩)
    · exact .inl (by simp [act, there])
  | makeRoot => exact .inr (.inl ⟨_, none, rfl, rfl⟩)
  | lookUp id name => exact .inl rfl
  | insert id name d =>
    cases h : t.insert id name d with
    | error e => exact .inl (act_insert_of_error h)
    | ok r => exact .inr (.inr ⟨id, name, d, r.1, by rw [act_insert_of_ok h, h]⟩)

theorem Coherent.act (coherent : t.Coherent) (a : Act δ) : (act t a).Coherent := by
  rcases act_cases t a with same | ⟨frame, parent, there, made⟩ | ⟨id, name, d, old, h⟩
  · rwa [same]
  · rw [made]
    exact coherent.make there
  · exact coherent.insert h

/-- The standard environment stays as it is. -/
theorem Coherent.standard_act (coherent : t.Coherent) (a : Act δ) :
    (SymbolTable.act t a).standard = t.standard := by
  have there : t.has .standard = true := rfl
  rcases act_cases t a with same | ⟨frame, parent, inside, made⟩ | ⟨id, name, d, old, h⟩
  · rw [same]
  · have kept := (coherent.adds frame inside).others .standard (ne_next there) (.inr rfl)
    rw [← made] at kept
    exact Option.some.inj kept
  · have kept := record?_insert h .standard
    by_cases same : FrameId.standard = id
    · subst same
      rw [coherent.insert_standard] at h
      cases h
    · simpa [same, record?] using kept

/-- What a name is bound to in a frame outlasts every act. -/
theorem bound?_act (a : Act δ) {f : FrameId} {name : String} {b : δ}
    (bound : t.bound? f name = some b) : (act t a).bound? f name = some b := by
  have there : t.has f = true := by
    obtain ⟨frame, found, -⟩ := Option.bind_eq_some_iff.1 bound
    exact has_of_frame? found
  rcases act_cases t a with same | ⟨frame, parent, -, made⟩ | ⟨id, x, d, old, h⟩
  · rwa [same]
  · rw [made, bound?, (views_make (ne_next there)).1]
    exact bound
  · by_cases here : t.has id = true
    · rw [bound?_insert h here]
      by_cases same : f = id ∧ name = x
      · obtain ⟨rfl, rfl⟩ := same
        simp [bound]
      · rwa [if_neg same]
    · have other : f ≠ id := by
        rintro rfl
        exact here there
      have kept := record?_insert h f
      rw [bound?, frame?, kept]
      simpa [other, bound?, frame?] using bound

theorem after_append (history later : List (Act δ)) :
    after of (history ++ later) = later.foldl act (after of history) :=
  List.foldl_append

/-- What every act keeps holds after every history that goes on from where it holds. -/
theorem foldl_act_keeps {P : SymbolTable δ → Prop} (step : ∀ t a, P t → P (act t a))
    (history : List (Act δ)) (start : P t) : P (history.foldl act t) := by
  induction history generalizing t with
  | nil => exact start
  | cons a history ih => exact ih (step t a start)

theorem coherent_start : (start of).Coherent := by
  have only : ∀ f e, (start of).record? f = some e →
      f = .standard ∧ e = Environment.standard of := by
    intro f e entry
    cases f with
    | standard => exact ⟨rfl, (Option.some.inj entry).symm⟩
    | made n => simp [record?, start] at entry
  refine ⟨?_, ?_, ?_, ?_⟩
  · intro f p inside
    obtain ⟨e, entry, up⟩ := Option.bind_eq_some_iff.1 inside
    obtain ⟨-, rfl⟩ := only f e entry
    cases up
  all_goals
    intro f e entry
    obtain ⟨rfl, rfl⟩ := only f e entry
  · rfl
  · exact ⟨fun _ => rfl, fun _ => rfl⟩
  · intro thawed
    cases thawed

theorem coherent_after (history : List (Act δ)) : (after of history).Coherent := by
  apply foldl_act_keeps (fun t a h => h.act a) history
  exact coherent_start

theorem standard_after (history : List (Act δ)) :
    (after of history).standard = Environment.standard of := by
  have kept : (after of history).Coherent ∧
      (after of history).standard = Environment.standard of := by
    apply foldl_act_keeps (P := fun t => t.Coherent ∧ t.standard = Environment.standard of)
    · intro t a h
      exact ⟨h.1.act a, (h.1.standard_act a).trans h.2⟩
    · exact ⟨coherent_start, rfl⟩
  exact kept.2

theorem all_has (parent : Option FrameId) :
    parent.all t.has = parent.all (·.rank ≤ t.entries.length) := by
  cases parent with
  | none => rfl
  | some p => exact Bool.eq_iff_iff.2 (has_iff_rank_le.trans decide_eq_true_iff.symm)

/-- A history adds the frames that are made in its course to those made before. -/
theorem lineage_foldl (history : List (Act δ)) :
    (history.foldl act t).lineage = t.lineage ++ births t.entries.length history := by
  induction history generalizing t with
  | nil => simp [births]
  | cons a history ih =>
    rw [List.foldl_cons, ih]
    cases a with
    | make parent comment =>
      by_cases there : parent.all t.has = true
      · have among : parent.all (·.rank ≤ t.entries.length) = true := all_has parent ▸ there
        simp [act, births, there, among, lineage_make, length_make, next]
      · have among : ¬ parent.all (·.rank ≤ t.entries.length) = true := all_has parent ▸ there
        simp only [act, births, if_neg there, if_neg among]
    | makeRoot => simp [act, births, makeRoot, lineage_make, length_make, next]
    | lookUp id name => rfl
    | insert id name d =>
      cases h : t.insert id name d with
      | error e => rw [act_insert_of_error h, births]
      | ok r =>
        obtain ⟨old, t'⟩ := r
        rw [act_insert_of_ok h, births, lineage_insert h, length_insert h]

theorem lineage_after (history : List (Act δ)) :
    (after of history).lineage = births 0 history := by
  rw [after, lineage_foldl]
  rfl

end History

/-- What holds of a symbol table after every history.

The standard environment is as it was at the start, lists no children, and refuses to bind a name,
which then changes nothing. A name that is bound in a frame stays bound to its declaration whatever
is done later, and binding it once more gives that declaration and changes nothing. Looking a name
up from a frame goes outward along parents. In every other frame a name can be bound, which changes
what is found for no other name, and only from the frames that see it; from these a new declaration
is found.

The frames that are there are the standard environment and those made in the course of the history,
inside the parent they were made with, and only the former is frozen. The level of a frame is its
distance from the frame above it that has no parent. The children of a frame that was made are the
frames made with it as parent, in the order in which they were made. A frame can be made inside any
frame that is there; it is new and empty, or binds what the standard environment binds. -/
theorem after_keeps (of : Builtin → δ) (history : List (Act δ)) :
    let t := after of history
    (t.standard = Environment.standard of ∧ t.children .standard = [] ∧
      ∀ name d, t.insert .standard name d = .error ⟨"universe"⟩ ∧
        act t (.insert .standard name d) = t) ∧
    (∀ f name b, t.bound? f name = some b →
      (∀ later, (after of (history ++ later)).bound? f name = some b) ∧
        ∀ d, f ≠ .standard → t.insert f name d = .ok (some b, t)) ∧
    (∀ f name, t.has f = true →
      Chain.find? name (t.chain f) = (t.resolve f name).map fun x => (x.2, t.chain x.1)) ∧
    (∀ id name d, t.has id = true → id ≠ .standard →
      ∃ t', t.insert id name d = .ok (t.bound? id name, t') ∧ act t (.insert id name d) = t' ∧
        t.Fills id name d t') ∧
    (∀ f, t.has f = true ↔ f = .standard ∨ ∃ p, (f, p) ∈ births 0 history) ∧
    (∀ f e, t.record? f = some e → (e.frozen = true ↔ f = .standard)) ∧
    (∀ f, t.has f = true → ∃ k, t.level? f = some k ∧ (t.chain f).length = k + 1 ∧
      ∃ top, t.has top = true ∧ t.parent? top = none ∧ t.Above f k top) ∧
    (∀ f p, (f, p) ∈ births 0 history → t.parent? f = p ∧
      t.children f = ((births 0 history).filter (·.2 = some f)).map (·.1)) ∧
    (∀ parent comment, parent.all t.has = true →
      t.Adds (t.make ⟨comment, []⟩ parent).1 ⟨comment, []⟩ parent
        (act t (.make parent comment))) ∧
    t.Adds t.makeRoot.1 ⟨"program", (Environment.standard of).frame.bindings⟩ none
      (act t .makeRoot) := by
  intro t
  have coherent : t.Coherent := coherent_after history
  have ordered : t.Ordered := coherent.ordered
  have standard : t.standard = Environment.standard of := standard_after history
  have lineage : t.lineage = births 0 history := lineage_after history
  have refused : ∀ name d, t.insert .standard name d = .error ⟨"universe"⟩ := by
    intro name d
    rw [coherent.insert_standard, standard]
    rfl
  refine ⟨⟨standard, ?_, ?_⟩, ?_, ?_, ?_, ?_, coherent.frozen, coherent.exists_above, ?_, ?_, ?_⟩
  · simp [children, record?, standard, Environment.standard]
  · intro name d
    exact ⟨refused name d, act_insert_of_error (refused name d)⟩
  · intro f name b bound
    refine ⟨fun later => ?_, fun d mutable => coherent.insert_of_bound mutable bound⟩
    rw [after_append]
    exact foldl_act_keeps (P := fun t => t.bound? f name = some b)
      (fun _ a h => bound?_act a h) later bound
  · intro f name there
    exact ordered.find?_chain name f there
  · intro id name d there mutable
    obtain ⟨t', h⟩ := coherent.exists_insert there mutable name d
    exact ⟨t', h, act_insert_of_ok h, ordered.fills h there⟩
  · intro f
    by_cases outermost : f = .standard
    · subst outermost
      exact iff_of_true rfl (.inl rfl)
    · simp [← lineage, mem_lineage, outermost]
  · intro f p born
    rw [← lineage] at born ⊢
    obtain ⟨mutable, there, parent⟩ := mem_lineage.1 born
    exact ⟨parent, coherent.children_eq there mutable⟩
  · intro parent comment there
    have made : act t (.make parent comment) = (t.make ⟨comment, []⟩ parent).2 := by
      simp [act, there]
    rw [made]
    exact coherent.adds _ there
  · have made : t.Adds t.makeRoot.1 ⟨"program", t.standard.frame.bindings⟩ none t.makeRoot.2 :=
      coherent.adds _ rfl
    rwa [standard] at made

/-- A program with a frame in a frame, one beside them, and one that lies inside the standard
environment. -/
def nested : List (Act Nat) :=
  [.makeRoot, .make (some (.made 0)) "let", .insert (.made 1) "x" (some 7),
    .make (some (.made 1)) "block", .make (some .standard) "let", .make (some (.made 0)) "block"]

/-- The program lists two frames, and the standard environment none. A name that is bound in the
program is found from the frame that sees it, and not from behind a frame that binds it too. A frame
inside the innermost one has level three, and another program binds the standard names. -/
theorem after_keeps_nested :
    let t := after (fun _ => 0) nested
    t.children (.made 0) = [.made 1, .made 4] ∧ t.children (.made 1) = [.made 2] ∧
      t.parent? (.made 3) = some .standard ∧ t.children .standard = [] ∧
      (∃ top, t.parent? top = none ∧ t.Above (.made 2) 2 top) ∧
      (act t (.make (some (.made 2)) "let")).level? (.made 5) = some 3 ∧
      (act t .makeRoot).bound? (.made 5) "putint" = some 0 ∧
      ∃ t', t.insert (.made 0) "x" (some 9) = .ok (none, t') ∧
        t'.resolve (.made 4) "x" = some (.made 0, 9) ∧
        t'.resolve (.made 2) "x" = t.resolve (.made 2) "x" := by
  intro t
  obtain ⟨⟨-, childless, -⟩, -, -, binds, -, -, level, made, adds, root⟩ :=
    after_keeps (fun _ => 0) nested
  have there : ∀ n < 5, t.has (.made n) = true := by decide
  have free : t.bound? (.made 0) "x" = none := by decide
  have deep : t.level? (.made 2) = some 2 := by decide
  obtain ⟨t', bound, -, filled⟩ :=
    binds (.made 0) "x" (some 9) (there 0 (by omega)) (by decide)
  have sees : t.Sees (.made 0) "x" (.made 4) := by
    apply Sees.inner (p := .made 0)
    · decide
    · decide
    · exact .here
  have hidden : ¬ t.Sees (.made 0) "x" (.made 2) := by
    intro sees
    cases sees with
    | inner unbound parent outer =>
      obtain rfl := Option.some.inj parent
      cases outer with
      | inner unbound _ _ => exact absurd unbound (by decide)
  refine ⟨(made (.made 0) none (by decide)).2, (made (.made 1) (some (.made 0)) (by decide)).2,
    (made (.made 3) (some .standard) (by decide)).1, childless, ?_, ?_, ?_, t', ?_, ?_, ?_⟩
  · obtain ⟨k, known, -, top, -, outermost, above⟩ := level (.made 2) (there 2 (by omega))
    obtain rfl : 2 = k := Option.some.inj (deep.symm.trans known)
    exact ⟨top, outermost, above⟩
  · obtain ⟨k, known, inside⟩ :=
      (adds (some (.made 2)) "let" (there 2 (by omega))).inside (.made 2) rfl
    obtain rfl : 2 = k := Option.some.inj (deep.symm.trans known)
    exact inside
  · obtain ⟨k, entry⟩ := root.entry
    have entry : (act t .makeRoot).record? (.made 5) = _ := entry
    rw [bound?, frame?, entry, Option.map_some, Option.bind_some]
    dsimp only
    decide
  · rw [bound, free]
  · exact filled.found (.made 4) 9 (there 4 (by omega)) sees free rfl
  · apply Decidable.byContradiction
    intro changed
    exact hidden (filled.sees (.made 2) "x" (there 2 (by omega)) changed).2

end SymbolTable

end TriangleTam

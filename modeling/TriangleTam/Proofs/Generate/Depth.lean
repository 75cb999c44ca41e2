import TriangleTam.Proofs.Check.Layout
import TriangleTam.Proofs.Generate.Translation
import TriangleTam.Proofs.Machine.Effect

/-!
# The height of the stack at each address

A level says what is known of the stack before an instruction: how many words there are, and which
entities live in the lowest of them. An instruction obeys given levels if it takes no word of an
entity that lives, if it addresses nothing but such entities, and if it agrees with the levels of
the instructions that may follow it. Main statements: `reaches_described`, on a machine that runs
code that obeys the stack is always as high as the levels say, and `Climbs.append`, how such code is
put together from pieces without jumps.
-/

namespace TriangleTam.Generate

open Machine

/-- What is known of the stack before an instruction. -/
structure Level where
  /-- The entities that live, the one declared last first. -/
  live : List Entity
  /-- The number of words on the stack. -/
  depth : Nat
  /-- The word on top, if it is known. -/
  top : Option Int := none

/-- The instruction is one that is made where the identifier stands. -/
def MadeFor (id : Ident) (i : Instruction) : Prop :=
  load id = .ok [i] ∨ store id = .ok [i] ∨ address id = .ok [i]

/-- The instruction is made for an identifier and addresses the words of the entity this means,
which lives; `R` says which identifiers there are. -/
def Accesses (R : Node → Prop) (live : List Entity) (i : Instruction) : Prop :=
  ∃ id e s, R (.ident id) ∧ MadeFor id i ∧ id.meaning = some (.entity e) ∧ e ∈ live ∧
    e.storage = some s ∧ s.kind ≠ .knownValue ∧ i.reg = .stackBase ∧ i.d = s.offset ∧
    (i.op ≠ .loada → i.n = s.size) ∧ s.offset + s.size ≤ words live

/-- The instruction at the address `a`, with the level `l` before it, agrees with the levels `D` of
those that may follow. The entities of `L` and perhaps others live, and no word of theirs is
taken. -/
structure Obeys (R : Node → Prop) (L : List Entity) (D : Nat → Option Level) (a : Nat)
    (i : Instruction) (l : Level) : Prop where
  here : D a = some l
  live : L <:+ l.live
  stacked : Stacked 0 l.live.reverse
  moves : ∃ e targets, i.effect? l.top = some e ∧ i.successors? a = some targets ∧
    words l.live + e.pops ≤ l.depth ∧
    ∀ b ∈ targets, ∃ m, D b = some m ∧ m.depth + e.pops = l.depth + e.pushes ∧
      (m.top = none ∨ m.top = i.leaves?)
  access : i.op = .load ∨ i.op = .store ∨ i.op = .loada → Accesses R l.live i

variable {R R' : Node → Prop} {L M : List Entity} {D : Nat → Option Level}

/-- The instructions from the address `a` on obey the levels. -/
def ObeyAll (R : Node → Prop) (L : List Entity) (D : Nat → Option Level) (a : Nat) :
    List Instruction → Prop
  | [] => True
  | i :: is => (∃ l, Obeys R L D a i l) ∧ ObeyAll R L D (a + 1) is

@[simp] theorem obeyAll_nil {a : Nat} : ObeyAll R L D a [] := trivial

@[simp] theorem obeyAll_cons {a : Nat} {i : Instruction} {is : List Instruction} :
    ObeyAll R L D a (i :: is) ↔ (∃ l, Obeys R L D a i l) ∧ ObeyAll R L D (a + 1) is := Iff.rfl

@[simp] theorem obeyAll_append {a : Nat} {is js : List Instruction} :
    ObeyAll R L D a (is ++ js) ↔ ObeyAll R L D a is ∧ ObeyAll R L D (a + is.length) js := by
  induction is generalizing a with
  | nil => simp
  | cons i is ih =>
    rw [List.cons_append, obeyAll_cons, ih, obeyAll_cons, and_assoc, List.length_cons,
      Nat.add_right_comm, Nat.add_assoc]

theorem Accesses.mono {i : Instruction} (access : Accesses R L i) (names : ∀ n, R n → R' n) :
    Accesses R' L i := by
  obtain ⟨id, e, s, noted, rest⟩ := access
  exact ⟨id, e, s, names _ noted, rest⟩

theorem Obeys.mono {a : Nat} {i : Instruction} {l : Level} (obeys : Obeys R M D a i l)
    (fewer : L <:+ M) (names : ∀ n, R n → R' n) : Obeys R' L D a i l :=
  { obeys with
    live := fewer.trans obeys.live
    access := fun op => (obeys.access op).mono names }

theorem ObeyAll.mono {a : Nat} {is : List Instruction} (all : ObeyAll R M D a is)
    (fewer : L <:+ M) (names : ∀ n, R n → R' n) : ObeyAll R' L D a is := by
  induction is generalizing a with
  | nil => trivial
  | cons i is ih =>
    obtain ⟨⟨l, obeys⟩, rest⟩ := all
    exact ⟨⟨l, obeys.mono fewer names⟩, ih rest⟩

theorem ObeyAll.get {a b : Nat} {is : List Instruction} {i : Instruction}
    (all : ObeyAll R L D a is) (here : is[b]? = some i) : ∃ l, Obeys R L D (a + b) i l := by
  induction is generalizing a b with
  | nil => cases here
  | cons j is ih =>
    cases b with
    | zero =>
      cases here
      exact all.1
    | succ b =>
      obtain ⟨l, obeys⟩ := ih all.2 here
      rw [Nat.add_assoc, Nat.add_comm 1] at obeys
      exact ⟨l, obeys⟩

section Runs

variable {ι ω : Type} {P : Platform ι ω} {code : List Instruction}

/-- The machine gets from one state to another. -/
inductive Reaches (P : Platform ι ω) (code : List Instruction) (s : State ι ω) :
    State ι ω → Prop where
  | refl : Reaches P code s s
  | step {t u : State ι ω} {i} (before : Reaches P code s t) (here : code[t.pc]? = some i)
      (effect : exec P i t = some u) : Reaches P code s u

/-- The stack is as the level says. -/
structure Level.Describes (l : Level) (stack : List Int) : Prop where
  depth : stack.length = l.depth
  top : l.top = none ∨ l.top = stack.head?

/-- One step from a stack that is as the levels say leads to another such. -/
theorem Obeys.step {i : Instruction} {l : Level} {s t : State ι ω}
    (obeys : Obeys R L D s.pc i l) (described : l.Describes s.stack)
    (effect : exec P i s = some t) : ∃ m, D t.pc = some m ∧ m.Describes t.stack := by
  obtain ⟨e, targets, told, next, -, agree⟩ := obeys.moves
  have told : i.effect? s.stack.head? = some e := by
    rcases described.top with none | known
    · rw [none] at told
      exact Instruction.effect?_of_none told _
    · rw [← known]
      exact told
  have related := exec_effect told effect
  obtain ⟨m, level, depth, top⟩ := agree t.pc (related.next targets next)
  refine ⟨m, level, ?_, ?_⟩
  · have height := related.height
    have before := described.depth
    omega
  · rcases top with none | known
    · exact .inl none
    · cases leaves : i.leaves? with
      | none => exact .inl (known.trans leaves)
      | some v => exact .inr (by rw [known, leaves, related.top v leaves])

/-- Along every run of code that obeys, the stack is as the levels say. -/
theorem reaches_described (all : ObeyAll R L D 0 code) {s t : State ι ω}
    (start : ∃ l, D s.pc = some l ∧ l.Describes s.stack) (run : Reaches P code s t) :
    ∃ l, D t.pc = some l ∧ l.Describes t.stack := by
  induction run with
  | refl => exact start
  | step before here effect ih =>
    obtain ⟨l, level, described⟩ := ih
    obtain ⟨k, obeys⟩ := all.get here
    rw [Nat.zero_add] at obeys
    have same : k = l := Option.some.inj (obeys.here.symm.trans level)
    subst same
    exact obeys.step described effect

end Runs

section Pieces

/-- The levels `ls` are those from the address `a` on. -/
def LevelsAt (D : Nat → Option Level) (a : Nat) : List Level → Prop
  | [] => True
  | l :: ls => D a = some l ∧ LevelsAt D (a + 1) ls

@[simp] theorem levelsAt_nil {a : Nat} : LevelsAt D a [] := trivial

@[simp] theorem levelsAt_cons {a : Nat} {l : Level} {ls : List Level} :
    LevelsAt D a (l :: ls) ↔ D a = some l ∧ LevelsAt D (a + 1) ls := Iff.rfl

@[simp] theorem levelsAt_append {a : Nat} {ls ms : List Level} :
    LevelsAt D a (ls ++ ms) ↔ LevelsAt D a ls ∧ LevelsAt D (a + ls.length) ms := by
  induction ls generalizing a with
  | nil => simp
  | cons l ls ih =>
    rw [List.cons_append, levelsAt_cons, ih, levelsAt_cons, and_assoc, List.length_cons,
      Nat.add_right_comm, Nat.add_assoc]

theorem levelsAt_self (before ls : List Level) :
    LevelsAt (fun a => (before ++ ls)[a]?) before.length ls := by
  induction ls generalizing before with
  | nil => trivial
  | cons l ls ih =>
    refine ⟨by simp, ?_⟩
    simpa using ih (before ++ [l])

/-- There are `k` words at the address `a`, and it does not matter which one is on top. -/
def Arrives (D : Nat → Option Level) (a k : Nat) : Prop :=
  ∃ l, D a = some l ∧ l.depth = k ∧ l.top = none

/-- Wherever the code stands, there are levels it obeys with `k` words at its start and `m` at its
end. -/
def Climbs (R : Node → Prop) (L : List Entity) (is : List Instruction) (k m : Nat) : Prop :=
  ∃ ls : List Level, ls.length = is.length ∧ ∀ D a, LevelsAt D a ls →
    Arrives D (a + is.length) m → Arrives D a k ∧ ObeyAll R L D a is

theorem climbs_nil (k : Nat) : Climbs R L [] k k :=
  ⟨[], rfl, fun _ _ _ ends => ⟨ends, trivial⟩⟩

theorem Climbs.append {is js : List Instruction} {k m n : Nat} (first : Climbs R L is k m)
    (second : Climbs R L js m n) : Climbs R L (is ++ js) k n := by
  obtain ⟨ls, length, first⟩ := first
  obtain ⟨ms, length', second⟩ := second
  refine ⟨ls ++ ms, by simp [length, length'], ?_⟩
  intro D a levels ends
  rw [levelsAt_append, length] at levels
  rw [List.length_append, ← Nat.add_assoc] at ends
  obtain ⟨middle, obey'⟩ := second D _ levels.2 ends
  obtain ⟨start, obey⟩ := first D a levels.1 middle
  exact ⟨start, obeyAll_append.2 ⟨obey, obey'⟩⟩

theorem Climbs.mono {is : List Instruction} {k m : Nat} (climbs : Climbs R M is k m)
    (fewer : L <:+ M) (names : ∀ n, R n → R' n) : Climbs R' L is k m := by
  obtain ⟨ls, length, climbs⟩ := climbs
  refine ⟨ls, length, ?_⟩
  intro D a levels ends
  obtain ⟨start, obey⟩ := climbs D a levels ends
  exact ⟨start, obey.mono fewer names⟩

/-- One instruction that takes words above those of `L` and goes on to the next one. -/
theorem climbs_one {i : Instruction} {e : Effect} {k : Nat} (stacked : Stacked 0 L.reverse)
    (room : words L ≤ k) (effect : i.effect? none = some e)
    (plain : ∀ a, i.successors? a = some [a + 1])
    (access : i.op = .load ∨ i.op = .store ∨ i.op = .loada → Accesses R L i) :
    Climbs R L [i] (k + e.pops) (k + e.pushes) := by
  refine ⟨[⟨L, k + e.pops, none⟩], rfl, ?_⟩
  rintro D a ⟨here, -⟩ ⟨m, next, depth, top⟩
  refine ⟨⟨_, here, rfl, rfl⟩, ⟨⟨_, here, List.suffix_rfl, stacked, ?_, access⟩, trivial⟩⟩
  refine ⟨e, _, effect, plain a, by simpa using room, ?_⟩
  intro b member
  rw [List.mem_singleton.1 member]
  exact ⟨m, next, by simp only [depth]; omega, .inl top⟩

end Pieces

end TriangleTam.Generate

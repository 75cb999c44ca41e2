import TriangleTam.Proofs.Generate.Translation
import TriangleTam.Proofs.Machine.Run
import TriangleTam.Proofs.Semantics

/-!
# The stack while code runs

A store is kept on the stack: `stackOf` gives the words of the entities that have one, and `Fits`
says that the values of a store are those the entities around a place can have. Reading and
assigning a name is then reading and writing one word.
-/

namespace TriangleTam

/-- The word a value is kept in. -/
def Semantics.Value.word : Semantics.Value → Int
  | int n => n
  | char code => code
  | bool b => Machine.truthWord b

/-- Values of one type are told apart by their words. -/
theorem Semantics.Value.word_inj {u v : Semantics.Value} (same : u.ty = v.ty) :
    u.word = v.word ↔ u = v := by
  cases u with
  | int m =>
    cases v with
    | int n => simp [word]
    | _ => cases same
  | char c =>
    cases v with
    | char d => simp [word]
    | _ => cases same
  | bool b =>
    cases v with
    | bool c => cases b <;> cases c <;> simp [word, Machine.truthWord]
    | _ => cases same

namespace Entity

/-- Whether the value of the entity is known while compiling, so that it has no word. -/
def isKnown (e : Entity) : Bool :=
  e.storage.map (·.kind) == some .knownValue

theorem isKnown_of_isKnown {e : Entity} {v : Int} (known : e.IsKnown v) : e.isKnown = true := by
  obtain ⟨s, storage, kind, -⟩ := known
  simp [isKnown, storage, kind]

theorem isKnown_of_isHeld {e : Entity} {a : Nat} (held : e.IsHeld a) : e.isKnown = false := by
  obtain ⟨s, storage, -, -, kind⟩ := held
  cases he : e.kind <;> rw [he] at kind <;> simp [isKnown, storage, kind]

theorem IsKnown.not_isHeld {e : Entity} {v : Int} {a : Nat} (known : e.IsKnown v) :
    ¬ e.IsHeld a := by
  intro held
  have clash := isKnown_of_isHeld held
  rw [isKnown_of_isKnown known] at clash
  cases clash

theorem IsKnown.unique {e : Entity} {u v : Int} (known : e.IsKnown u) (known' : e.IsKnown v) :
    u = v := by
  obtain ⟨s, storage, -, rfl⟩ := known
  obtain ⟨s', storage', -, rfl⟩ := known'
  rw [storage] at storage'
  cases storage'
  rfl

theorem IsHeld.unique {e : Entity} {a b : Nat} (held : e.IsHeld a) (held' : e.IsHeld b) :
    a = b := by
  obtain ⟨s, storage, rfl, -⟩ := held
  obtain ⟨s', storage', rfl, -⟩ := held'
  rw [storage] at storage'
  cases storage'
  rfl

end Entity

namespace Generate

open Machine Semantics
open Check (meaningIn meaningIn_cons)

/-- The words of the store of the entities of `L`, the last one first. -/
def stackOf : List Entity → Store → List Int
  | e :: L, (_, v) :: σ => if e.isKnown then stackOf L σ else v.word :: stackOf L σ
  | _, _ => []

/-- The store has values for the entities of `L`, which take `n` words. -/
inductive Fits : List Entity → Nat → Store → Prop where
  | nil : Fits [] 0 []
  | known {e L n σ} {v : Value} (rest : Fits L n σ) (typed : e.ty = some v.ty)
      (kind : e.kind = .const) (known : e.IsKnown v.word) : Fits (e :: L) n ((e.name, v) :: σ)
  | held {e L n σ} {v : Value} (rest : Fits L n σ) (typed : e.ty = some v.ty)
      (held : e.IsHeld n) : Fits (e :: L) (n + 1) ((e.name, v) :: σ)

section Store

variable {L : List Entity} {n : Nat} {σ : Store} {e : Entity} {v : Value}

theorem stackOf_known {name : String} {u : Int} (known : e.IsKnown u) :
    stackOf (e :: L) ((name, v) :: σ) = stackOf L σ := by
  simp [stackOf, Entity.isKnown_of_isKnown known]

theorem stackOf_held {name : String} {a : Nat} (held : e.IsHeld a) :
    stackOf (e :: L) ((name, v) :: σ) = v.word :: stackOf L σ := by
  simp [stackOf, Entity.isKnown_of_isHeld held]

theorem Fits.length_stackOf (fits : Fits L n σ) : (stackOf L σ).length = n := by
  induction fits with
  | nil => rfl
  | known rest typed kind known ih => rw [stackOf_known known, ih]
  | held rest typed held ih => rw [stackOf_held held, List.length_cons, ih]

theorem Fits.length_eq (fits : Fits L n σ) : σ.length = L.length := by
  induction fits with
  | nil => rfl
  | known _ _ _ _ ih | held _ _ _ ih => rw [List.length_cons, List.length_cons, ih]

/-- The value of a declared name: it is known, or it is found on the stack. -/
theorem Fits.lookup (fits : Fits L n σ) {name : String}
    (found : meaningIn L name = some (.entity e)) :
    ∃ v, σ.lookup name = some v ∧ e.ty = some v.ty ∧ (∀ u, e.IsKnown u → v.word = u) ∧
      ∀ a, e.IsHeld a → (stackOf L σ).reverse[a]? = some v.word := by
  induction fits with
  | nil =>
    obtain ⟨member, -⟩ := Check.mem_of_meaningIn found
    cases member
  | @known e' L n σ v rest typed kind known ih =>
    rw [meaningIn_cons] at found
    rw [stackOf_known known]
    split at found
    · next same =>
      cases found
      refine ⟨v, by simp [same], typed, fun u other => known.unique other, ?_⟩
      intro a held
      exact absurd held known.not_isHeld
    · next other =>
      have other : (name == e'.name) = false := by simpa using Ne.symm other
      simpa [List.lookup_cons, other] using ih found
  | @held e' L n σ v rest typed held ih =>
    rw [meaningIn_cons] at found
    rw [stackOf_held held]
    have length := rest.length_stackOf
    split at found
    · next same =>
      cases found
      refine ⟨v, by simp [same], typed, fun u known => absurd held known.not_isHeld, ?_⟩
      intro a held'
      obtain rfl := held.unique held'
      simp [length]
    · next other =>
      have other : (name == e'.name) = false := by simpa using Ne.symm other
      obtain ⟨u, lookup, typed, known, word⟩ := ih found
      refine ⟨u, by simpa [List.lookup_cons, other] using lookup, typed, known, ?_⟩
      intro a place
      have here := word a place
      rw [List.reverse_cons, List.getElem?_append_left, here]
      exact (List.getElem?_eq_some_iff.1 here).1

/-- Names of the standard environment are not declared. -/
theorem Fits.lookup_eq_none (fits : Fits L n σ) {name : String} {b : Builtin}
    (found : meaningIn L name = some (.builtin b)) : σ.lookup name = none := by
  induction fits with
  | nil => rfl
  | @known e' _ _ _ _ _ _ _ _ ih | @held e' _ _ _ _ _ _ _ ih =>
    rw [meaningIn_cons] at found
    split at found
    · cases found
    · next other =>
      have other : (name == e'.name) = false := by simpa using Ne.symm other
      simpa [List.lookup_cons, other] using ih found

theorem overwrite_length {stack : List Int} (word new : Int) :
    overwrite (word :: stack) stack.length [new] = some (new :: stack) := by
  have first : (stack.reverse ++ [word]).take stack.length = stack.reverse := by
    rw [List.take_append_of_le_length (by simp), List.take_of_length_le (by simp)]
  simp [overwrite, first, List.drop_of_length_le]

theorem overwrite_cons {stack stack' : List Int} {a : Nat} {new : Int} (word : Int)
    (h : overwrite stack a [new] = some stack') :
    overwrite (word :: stack) a [new] = some (word :: stack') := by
  unfold overwrite at h ⊢
  split at h
  · next fits =>
    simp only [List.length_cons, List.length_nil] at fits
    rw [if_pos (by simp only [List.length_cons, List.length_nil]; omega)]
    rw [← Option.some.inj h, List.reverse_cons,
      List.take_append_of_le_length (by rw [List.length_reverse]; omega),
      List.drop_append_of_le_length (by simp; omega)]
    simp
  · cases h

/-- Assigning a variable writes its word. -/
theorem Fits.assign (fits : Fits L n σ) {name : String} {a : Nat}
    (found : meaningIn L name = some (.entity e)) (kind : e.kind = .var) (held : e.IsHeld a)
    (typed : e.ty = some v.ty) :
    overwrite (stackOf L σ) a [v.word] = some (stackOf L (σ.assign name v)) ∧
      Fits L n (σ.assign name v) := by
  induction fits with
  | nil =>
    obtain ⟨member, -⟩ := Check.mem_of_meaningIn found
    cases member
  | @known e' L n σ u rest typed' const known ih =>
    rw [meaningIn_cons] at found
    split at found
    · cases found
      rw [const] at kind
      cases kind
    · next other =>
      obtain ⟨written, fits⟩ := ih found
      rw [Store.assign, if_neg other, stackOf_known known, stackOf_known known]
      exact ⟨written, .known fits typed' const known⟩
  | @held e' L n σ u rest typed' place ih =>
    rw [meaningIn_cons] at found
    split at found
    · next same =>
      cases found
      obtain rfl := place.unique held
      rw [Store.assign, if_pos same, stackOf_held held, stackOf_held held]
      refine ⟨?_, .held rest typed held⟩
      rw [← rest.length_stackOf]
      exact overwrite_length _ _
    · next other =>
      obtain ⟨written, fits⟩ := ih found
      rw [Store.assign, if_neg other, stackOf_held place, stackOf_held place]
      exact ⟨overwrite_cons _ written, .held fits typed' place⟩

/-- Behind its body, what a `let` declared is dropped. -/
theorem DeclCode.fits_drop {M : List Entity} {m : Nat} {d : Decl} {is : List Instruction}
    (h : DeclCode L n d M m is) (fits : Fits M m σ) :
    L.length ≤ M.length ∧ n ≤ m ∧ Fits L n (σ.drop (M.length - L.length)) ∧
      stackOf L (σ.drop (M.length - L.length)) = (stackOf M σ).drop (m - n) := by
  induction h generalizing σ with
  | @known L n _ _ _ _ _ e _ _ _ _ _ _ known =>
    cases fits with
    | known rest => simpa [stackOf_known known] using rest
    | held rest typed held => exact absurd held known.not_isHeld
  | @const L n _ _ _ _ _ e _ _ _ _ _ _ held | @var L n _ _ _ _ _ e _ _ _ _ _ held =>
    cases fits with
    | known rest typed kind known => exact absurd held known.not_isHeld
    | held rest => simpa [stackOf_held held] using rest
  | nil => simpa using fits
  | @cons L l M m N n _ _ _ _ _ first rest ih ih' =>
    obtain ⟨le', words', fits', stack'⟩ := ih' fits
    obtain ⟨le, words, fits, stack⟩ := ih fits'
    have sum : N.length - M.length + (M.length - L.length) = N.length - L.length := by omega
    rw [List.drop_drop, sum] at fits stack
    refine ⟨by omega, by omega, fits, ?_⟩
    rw [stack, stack', List.drop_drop]
    congr 1
    omega

end Store

end Generate

end TriangleTam

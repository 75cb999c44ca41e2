import Mathlib.Order.Bounds.Basic
import TriangleTam.Text.EditDistance

/-!
# The edit distance is a least number of edits

An edit inserts, deletes or replaces one element somewhere in a list. Edits that are made one after
the other may undo each other, so they are brought into order first: `Edits` goes along both lists
once and says of each element what becomes of it. Then one row of the table follows from the one
above (`Row.next`). Main statement: `isLeast_editDistance`, the edit distance is the least number of
edits that turn one list into the other.
-/

namespace TriangleTam.Text

variable {α : Type}

/-- One element is inserted, deleted or replaced. -/
inductive Edit : List α → List α → Prop where
  | insert {xs} (y : α) : Edit xs (y :: xs)
  | delete {xs} (x : α) : Edit (x :: xs) xs
  | replace {xs} (x y : α) : Edit (x :: xs) (y :: xs)
  | behind {xs ys} (x : α) (edit : Edit xs ys) : Edit (x :: xs) (x :: ys)

/-- So many edits, one after the other, turn one list into another. -/
inductive Turns : Nat → List α → List α → Prop where
  | none {xs} : Turns 0 xs xs
  | one {n xs ys zs} (before : Turns n xs ys) (edit : Edit ys zs) : Turns (n + 1) xs zs

/-- Going along both lists, so many elements are inserted, deleted or replaced, and all others
kept. -/
inductive Edits : Nat → List α → List α → Prop where
  | nil : Edits 0 [] []
  | keep {n xs ys} (x : α) (rest : Edits n xs ys) : Edits n (x :: xs) (x :: ys)
  | insert {n xs ys} (y : α) (rest : Edits n xs ys) : Edits (n + 1) xs (y :: ys)
  | delete {n xs ys} (x : α) (rest : Edits n xs ys) : Edits (n + 1) (x :: xs) ys
  | replace {n xs ys} (x y : α) (rest : Edits n xs ys) : Edits (n + 1) (x :: xs) (y :: ys)

section Edits

variable {m n : Nat} {xs ys zs ws : List α}

theorem Turns.behind (x : α) (turns : Turns n xs ys) : Turns n (x :: xs) (x :: ys) := by
  induction turns with
  | none => exact .none
  | one _ edit ih => exact ih.one (edit.behind x)

theorem Edits.turns (edits : Edits n xs ys) : Turns n xs ys := by
  induction edits with
  | nil => exact .none
  | keep x _ ih => exact ih.behind x
  | insert y _ ih => exact ih.one (.insert y)
  | delete x _ ih => exact (ih.behind x).one (.delete x)
  | replace x y _ ih => exact (ih.behind x).one (.replace x y)

theorem Edits.refl (xs : List α) : Edits 0 xs xs := by
  induction xs with
  | nil => exact .nil
  | cons x xs ih => exact ih.keep x

/-- One more edit adds at most one to the edits that are in order. -/
theorem Edits.one (edits : Edits n xs ys) (edit : Edit ys zs) :
    ∃ k ≤ n + 1, Edits k xs zs := by
  induction edits generalizing zs with
  | nil =>
    cases edit with
    | insert z => exact ⟨1, Nat.le_refl 1, .insert z .nil⟩
  | @keep n _ _ x rest ih =>
    cases edit with
    | insert z => exact ⟨n + 1, Nat.le_refl _, .insert z (.keep x rest)⟩
    | delete => exact ⟨n + 1, Nat.le_refl _, .delete x rest⟩
    | replace _ z => exact ⟨n + 1, Nat.le_refl _, .replace x z rest⟩
    | behind _ edit =>
      obtain ⟨k, le, edits⟩ := ih edit
      exact ⟨k, le, .keep x edits⟩
  | @insert n _ _ y rest ih =>
    cases edit with
    | insert z => exact ⟨n + 2, Nat.le_refl _, .insert z (.insert y rest)⟩
    | delete => exact ⟨n, by omega, rest⟩
    | replace _ z => exact ⟨n + 1, by omega, .insert z rest⟩
    | behind _ edit =>
      obtain ⟨k, le, edits⟩ := ih edit
      exact ⟨k + 1, by omega, .insert y edits⟩
  | @delete n _ _ x rest ih =>
    obtain ⟨k, le, edits⟩ := ih edit
    exact ⟨k + 1, by omega, .delete x edits⟩
  | @replace n _ _ x y rest ih =>
    cases edit with
    | insert z => exact ⟨n + 2, Nat.le_refl _, .insert z (.replace x y rest)⟩
    | delete => exact ⟨n + 1, by omega, .delete x rest⟩
    | replace _ z => exact ⟨n + 1, by omega, .replace x z rest⟩
    | behind _ edit =>
      obtain ⟨k, le, edits⟩ := ih edit
      exact ⟨k + 1, by omega, .replace x y edits⟩

theorem Turns.edits (turns : Turns n xs ys) : ∃ k ≤ n, Edits k xs ys := by
  induction turns with
  | none => exact ⟨0, Nat.le_refl 0, .refl _⟩
  | one _ edit ih =>
    obtain ⟨k, le, edits⟩ := ih
    obtain ⟨l, le', edits⟩ := edits.one edit
    exact ⟨l, by omega, edits⟩

theorem Edits.append (front : Edits m xs ys) (back : Edits n zs ws) :
    Edits (m + n) (xs ++ zs) (ys ++ ws) := by
  induction front with
  | nil => rwa [Nat.zero_add]
  | keep x _ ih => exact ih.keep x
  | insert y _ ih => rw [Nat.add_right_comm]; exact ih.insert y
  | delete x _ ih => rw [Nat.add_right_comm]; exact ih.delete x
  | replace x y _ ih => rw [Nat.add_right_comm]; exact ih.replace x y

theorem Edits.reverse (edits : Edits n xs ys) : Edits n xs.reverse ys.reverse := by
  induction edits with
  | nil => exact .nil
  | keep x _ ih => simpa using ih.append (.refl [x])
  | insert y _ ih => simpa using ih.append (.insert y .nil)
  | delete x _ ih => simpa using ih.append (.delete x .nil)
  | replace x y _ ih => simpa using ih.append (.replace x y .nil)

end Edits

/-- The least number of edits. -/
def Distance (xs ys : List α) (d : Nat) : Prop := IsLeast {n | Edits n xs ys} d

namespace Distance

variable {x y : α} {xs ys : List α} {a b c d : Nat}

theorem nil_nil : Distance ([] : List α) [] 0 :=
  ⟨.nil, fun n _ => Nat.zero_le n⟩

theorem nil_cons (distance : Distance [] ys d) : Distance [] (y :: ys) (d + 1) := by
  refine ⟨distance.1.insert y, fun n edits => ?_⟩
  cases edits with
  | insert _ rest => exact Nat.succ_le_succ (distance.2 rest)

theorem cons_nil (distance : Distance xs [] d) : Distance (x :: xs) [] (d + 1) := by
  refine ⟨distance.1.delete x, fun n edits => ?_⟩
  cases edits with
  | delete _ rest => exact Nat.succ_le_succ (distance.2 rest)

/-- The first elements are kept, or one of them is inserted, deleted or replaced. -/
theorem cons_cons [DecidableEq α] (left : Distance (x :: xs) ys a) (above : Distance xs (y :: ys) b)
    (diagonal : Distance xs ys c) :
    Distance (x :: xs) (y :: ys) (min (min (a + 1) (b + 1)) (c + if x = y then 0 else 1)) := by
  have both : Edits (c + if x = y then 0 else 1) (x :: xs) (y :: ys) := by
    by_cases same : x = y
    · subst same
      simpa using diagonal.1.keep x
    · simpa [same] using diagonal.1.replace x y
  generalize price : (if x = y then 0 else 1) = k at both
  constructor
  · have which : min (min (a + 1) (b + 1)) (c + k) = a + 1 ∨
        min (min (a + 1) (b + 1)) (c + k) = b + 1 ∨ min (min (a + 1) (b + 1)) (c + k) = c + k := by
      omega
    rcases which with eq | eq | eq <;> rw [eq]
    · exact left.1.insert y
    · exact above.1.delete x
    · exact both
  · intro n edits
    cases edits with
    | keep _ rest =>
      have least : c ≤ n := diagonal.2 rest
      rw [if_pos rfl] at price
      omega
    | @insert n _ _ _ rest =>
      have least : a ≤ n := left.2 rest
      omega
    | @delete n _ _ _ rest =>
      have least : b ≤ n := above.2 rest
      omega
    | @replace n _ _ _ _ rest =>
      have least : c ≤ n := diagonal.2 rest
      split at price <;> omega

theorem reverse (distance : Distance xs.reverse ys.reverse d) : Distance xs ys d := by
  refine ⟨by simpa using distance.1.reverse, fun n edits => ?_⟩
  exact distance.2 (Edits.reverse edits)

/-- The same number is the least one of edits in any order. -/
theorem isLeast (distance : Distance xs ys d) : IsLeast {n | Turns n xs ys} d := by
  refine ⟨distance.1.turns, fun n turns => ?_⟩
  obtain ⟨k, le, edits⟩ := Turns.edits turns
  exact Nat.le_trans (distance.2 edits) le

end Distance

/-- The row holds the distances from `xs` to `ys` and to the lists that one gets by putting the
elements of a third list in front of `ys`, one after the other. -/
inductive Row (xs : List α) : List α → List α → List Nat → Prop where
  | last {ys d} (distance : Distance xs ys d) : Row xs ys [] [d]
  | more {ys d y rest row} (distance : Distance xs ys d) (others : Row xs (y :: ys) rest row) :
      Row xs ys (y :: rest) (d :: row)

namespace Row

variable {x : α} {xs ys zs : List α} {row : List Nat} {left : Nat}

theorem exists_head (holds : Row xs ys zs row) : ∃ d rest, row = d :: rest ∧ Distance xs ys d := by
  cases holds with
  | last distance => exact ⟨_, [], rfl, distance⟩
  | more distance _ => exact ⟨_, _, rfl, distance⟩

/-- The entries of a row follow from those above them, from left to right. -/
theorem fill [DecidableEq α] (holds : Row xs ys zs row) (first : Distance (x :: xs) ys left) :
    Row (x :: xs) ys zs (left :: fillRow x left zs row) := by
  induction holds generalizing left with
  | last => exact .last first
  | more diagonal others ih =>
    obtain ⟨above, rest, rfl, upper⟩ := others.exists_head
    exact .more first (ih (first.cons_cons upper diagonal))

/-- The next row is that of one more element. -/
theorem next [DecidableEq α] (holds : Row xs [] zs row) (x : α) :
    Row (x :: xs) [] zs (nextRow zs row x) := by
  obtain ⟨d, rest, rfl, distance⟩ := holds.exists_head
  exact holds.fill distance.cons_nil

theorem foldl [DecidableEq α] (holds : Row ys [] zs row) (xs : List α) :
    Row (xs.reverse ++ ys) [] zs (xs.foldl (nextRow zs) row) := by
  induction xs generalizing ys row with
  | nil => exact holds
  | cons x xs ih => simpa using ih (holds.next x)

/-- The first row counts insertions. -/
theorem range {n : Nat} (distance : Distance [] ys n) (zs : List α) :
    Row [] ys zs (List.range' n (zs.length + 1)) := by
  induction zs generalizing ys n with
  | nil => exact .last distance
  | cons z zs ih => exact .more distance (ih distance.nil_cons)

theorem last_distance (holds : Row xs ys zs row) :
    Distance xs (zs.reverse ++ ys) (row.getLastD 0) := by
  induction holds with
  | last distance => exact distance
  | more _ others ih =>
    obtain ⟨d, rest, rfl, -⟩ := others.exists_head
    simpa using ih

end Row

/-- The edit distance is the least number of edits that turn one list into the other. -/
theorem isLeast_editDistance [DecidableEq α] (xs ys : List α) :
    IsLeast {n | Turns n xs ys} (editDistance xs ys) := by
  have first : Row [] [] ys (List.range (ys.length + 1)) := by
    rw [List.range_eq_range']
    exact .range .nil_nil ys
  have whole := (first.foldl xs).last_distance
  rw [List.append_nil, List.append_nil] at whole
  exact whole.reverse.isLeast

end TriangleTam.Text

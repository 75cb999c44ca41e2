/-!
# Tables of code points

A Unicode property is held as a sorted list of runs. A run is an arithmetic progression of code
points, so that alternating blocks (upper case, lower case, upper case, …) take one entry.
Main statement: `member_iff`, membership in a sorted table is membership in one of its runs.
-/

namespace TriangleTam.Text

/-- The code points `first`, `first + step`, … up to `last`. -/
structure Run where
  first : Nat
  last : Nat
  step : Nat
deriving DecidableEq, Repr

namespace Run

/-- Whether `n` is one of the code points of the run. -/
def holds (r : Run) (n : Nat) : Bool :=
  decide (r.first ≤ n) && decide (n ≤ r.last) && (n - r.first) % r.step == 0

end Run

/-- Membership in a table sorted by `first`; the search stops at the first run past `n`. -/
def member : List Run → Nat → Bool
  | [], _ => false
  | r :: rs, n => if n < r.first then false else r.holds n || member rs n

/-- The search may stop early because the runs that follow start no earlier. -/
theorem member_iff {table : List Run} (sorted : table.Pairwise (·.first ≤ ·.first)) (n : Nat) :
    member table n = true ↔ ∃ r ∈ table, r.holds n = true := by
  induction table with
  | nil => simp [member]
  | cons r rs ih =>
    obtain ⟨head, tail⟩ := List.pairwise_cons.1 sorted
    by_cases h : n < r.first
    · simp only [member, h, if_true, Bool.false_eq_true, false_iff]
      rintro ⟨s, hs, hold⟩
      have : r.first ≤ s.first := by
        rcases List.mem_cons.1 hs with rfl | hs
        · exact Nat.le_refl _
        · exact head s hs
      simp only [Run.holds, Bool.and_eq_true, decide_eq_true_eq] at hold
      omega
    · simp [member, h, ih tail]

end TriangleTam.Text

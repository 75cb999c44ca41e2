/-!
# Edit distance

The least number of insertions, deletions and substitutions of single elements that turn one list
into another, computed a row at a time: row `i` holds the distances from the first `i` elements of
one list to every prefix of the other.
-/

namespace TriangleTam.Text

/-- The entries of the next row after its first one. `x` is the element the row adds, `left` the
entry just written, and the last list is the row above from the entry over `left` on. -/
def fillRow {α : Type} [DecidableEq α] (x : α) (left : Nat) : List α → List Nat → List Nat
  | y :: ys, diagonal :: above :: rest =>
    let d := min (min (left + 1) (above + 1)) (diagonal + if x = y then 0 else 1)
    d :: fillRow x d ys (above :: rest)
  | _, _ => []

/-- The row after `row` when `x` is added to the first list. -/
def nextRow {α : Type} [DecidableEq α] (target : List α) (row : List Nat) (x : α) : List Nat :=
  match row with
  | [] => []
  | d :: _ => (d + 1) :: fillRow x (d + 1) target row

/-- The edit distance from `source` to `target`. -/
def editDistance {α : Type} [DecidableEq α] (source target : List α) : Nat :=
  (source.foldl (nextRow target) (List.range (target.length + 1))).getLastD 0

end TriangleTam.Text

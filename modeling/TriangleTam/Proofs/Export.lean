import TriangleTam.Proofs.Check.Again
import TriangleTam.Proofs.Check.Resolved
import TriangleTam.Proofs.Parser.WalkOrder
import TriangleTam.Proofs.Tree.Export

/-!
# Exports of trees that come from texts

The nodes of a parsed tree start at tokens or at the end of the text, and checking does not move
them. So all of them are places in the text, where positions can be told apart by how they are
written. Main statement: `Program.export_faithful`, trees of texts with one name, checked or not,
have the same export exactly if they are the same up to what is not exported.
-/

namespace TriangleTam

variable {file : String}

section Places

theorem Pos.IsIn.after {p : Pos} (inside : p.IsIn file) (newline : Bool) :
    (p.after newline).IsIn file := by
  obtain ⟨rfl, valid⟩ := inside
  simp only [Pos.isValid, decide_eq_true_eq] at valid
  cases newline
  · exact ⟨rfl, by simpa [Pos.after, Pos.isValid] using valid⟩
  · exact ⟨rfl, by simp [Pos.after, Pos.isValid]; omega⟩

theorem Scanner.isIn_placeAfter {p : Pos} (inside : p.IsIn file) (cs : List Char) :
    (placeAfter p cs).IsIn file := by
  induction cs generalizing p with
  | nil => exact inside
  | cons c cs ih => exact ih (inside.after _)

/-- All tokens of a text are in the text. -/
theorem Scanner.Layout.isIn {p : Pos} {text : List Char} {ts : List Token}
    (layout : Layout p text ts) (inside : p.IsIn file) : ∀ t ∈ ts, t.pos.IsIn file := by
  induction layout with
  | last _ _ _ pos =>
    rw [List.forall_mem_singleton, pos]
    exact isIn_placeAfter inside _
  | token _ _ _ pos _ ih =>
    rw [List.forall_mem_cons, pos]
    exact ⟨isIn_placeAfter inside _, ih (isIn_placeAfter inside _)⟩

/-- Positions that follow the tokens are those of tokens or the end of the text. -/
theorem Parser.Along.mem {cfg : Config} {ts rest : List Token} {ps : List Pos}
    (along : Along cfg ts ps rest) : ∀ p ∈ ps, p ∈ ts.map (·.pos) ++ [cfg.endPos] := by
  induction along with
  | stop => simp
  | step suffix _ ih =>
    have more := (suffix.sublist.map Token.pos).append_right [cfg.endPos] |>.subset
    rw [List.forall_mem_cons]
    exact ⟨more (current_mem _), fun p member => more (ih p member)⟩

end Places

theorem Node.pos_bare (n : Node) : n.bare.pos = n.pos := by
  cases n with
  | cmd c => cases c <;> rfl
  | decl d => cases d <;> rfl
  | expr x => cases x <;> rfl
  | arg a => cases a <;> rfl
  | _ => rfl

namespace Program

theorem pos_mem_trail {p : Program} {n : Node} (member : n ∈ p.nodes) :
    n.pos ∈ p.pos :: p.body.trail :=
  (p.body.map_pos_walk_sublist.cons_cons p.pos).subset (List.mem_map_of_mem member)

/-- The nodes of the tree of a text are in the text. -/
theorem isIn_ofText (bytes : List UInt8) (lenient : Bool) (limit : Int) :
    (ofText file bytes lenient limit).All (Node.IsIn file) := by
  obtain ⟨ts, e, tokens, last, -⟩ := Parser.exists_tokens_scan (Cursor.ofBytes file bytes)
  obtain ⟨rest, along⟩ := Parser.parse_along last ts lenient limit
  have start : (Cursor.ofBytes file bytes).pos.IsIn file := ⟨rfl, rfl⟩
  have inside : ∀ p ∈ ts.map (·.pos) ++ [e.pos], p.IsIn file := by
    have all := (Scanner.scan_layout (Cursor.ofBytes file bytes)).isIn start
    rw [tokens] at all
    simpa [or_imp, forall_and] using all
  rw [ofText, tokens]
  exact fun n member => inside _ (along.mem n.pos (pos_mem_trail member))

/-- Annotations have nothing to do with where the nodes are. -/
theorem isIn_bare_iff {p : Program} : p.bare.All (Node.IsIn file) ↔ p.All (Node.IsIn file) := by
  simp [Program.All, nodes_bare, Node.IsIn, Node.pos_bare]

/-- The trees that come from texts of this name: what is parsed, and what checking makes of it. -/
inductive FromText (file : String) : Program → Prop where
  | parsed (bytes : List UInt8) (lenient : Bool) (limit : Int) :
      FromText file (ofText file bytes lenient limit)
  | checked {p : Program} {distance : Int} {r : Check.Result} (before : FromText file p)
      (result : p.check distance = .ok r) : FromText file r.program

theorem bare_of_check {p : Program} {distance : Int} {r : Check.Result}
    (result : p.check distance = .ok r) : r.program.bare = p.bare := by
  unfold check at result
  split at result
  · cases result
  · cases result
    exact Check.bare_program distance p

theorem FromText.isIn {p : Program} (source : FromText file p) : p.All (Node.IsIn file) := by
  induction source with
  | parsed bytes lenient limit => exact isIn_ofText bytes lenient limit
  | checked _ result ih =>
    rw [← isIn_bare_iff, bare_of_check result, isIn_bare_iff]
    exact ih

/-- Exports are faithful. Take two trees that come from texts of one name, each of them checked or
not and whatever is wrong with it: if their exports are equal, then so are the trees, node for node
with their sorts, names, spellings, flags, positions, types and storage. What may differ is where
names, operators, literals and closing braces are, and what names and operators mean; and that
makes no difference to the export. -/
theorem export_faithful {p q : Program} (here : FromText file p) (there : FromText file q) :
    p.toData = q.toData ↔ p.exported = q.exported :=
  toData_eq_iff here.isIn there.isIn

/-- The text `let const n ~ 1 in putint(n)`. -/
def constantText : List UInt8 := "let const n ~ 1 in putint(n)".toUTF8.toList

/-- Types and storage are exported once they are known. -/
theorem constantText_export : ∃ r, (ofText "" constantText false 10).check 0 = .ok r ∧
    (ofText "" constantText false 10).toData ≠ r.program.toData := by
  have parsed : FromText "" (ofText "" constantText false 10) := .parsed ..
  have literals : (ofText "" constantText false 10).LiteralsProper :=
    Parser.parse_scan_literalsProper _ false 10
  refine ⟨_, check_eq_ok literals 0, ?_⟩
  intro same
  have told := (export_faithful parsed (.checked parsed (check_eq_ok literals 0))).1 same
  have types := congrArg (fun p => p.nodes.all (·.isAnnotated)) told
  exact absurd types (by decide +kernel)

end Program

end TriangleTam

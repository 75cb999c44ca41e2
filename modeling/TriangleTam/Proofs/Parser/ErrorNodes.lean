import TriangleTam.Proofs.Parser.Sequences

/-!
# Error nodes and reports

An error node stands in the tree where a report was due. The report may be left out, but only where
another one was made before it or where a token is malformed, which was reported when it was
scanned. So an error node means that something was reported. The other way round, a lenient parser
reports nothing but what it makes an error node of, and no node that was made is lost again.

`Marks` states both for one step of the parser, about the part of the tree that the step makes. A
part is given by what it means that all error nodes in it have some property.
-/

namespace TriangleTam

/-- The node is a name that was written with no characters at all, which only a token made by hand
can be. -/
def Node.Unspelled (tokens : List Token) (n : Node) : Prop :=
  ∃ t ∈ tokens, t.kind = .identifier ∧ t.spelling = "" ∧ n = .ident ⟨t.pos, t.spelling, none⟩

/-- The node has the property `P` if it is an error node. -/
@[simp] def Node.Excused (P : Node → Prop) (n : Node) : Prop := n.isError = true → P n

namespace Parser

/-- No token is malformed, and an empty name that a token stands for has the property `P`. -/
structure Legible (P : Node → Prop) (ts : List Token) : Prop where
  formed : ∀ t ∈ ts, t.kind ≠ .malformed
  named : ∀ t ∈ ts, t.kind = .identifier → (Node.ident ⟨t.pos, t.spelling, none⟩).Excused P

/-- What a step of the parser says by its reports about the part of the tree that it makes. If a
lenient parser makes no error node it reports nothing; and if nothing was reported in the end, all
error nodes have the property `P`. -/
structure Marks (cfg : Config) (P : Node → Prop) (part : (Node → Prop) → Prop) (s s' : State) :
    Prop where
  suffix : s'.1 <:+ s.1
  lenient : cfg.lenient = true → part (fun _ => False) → s'.2 = s.2
  quiet : 0 < cfg.limit → Legible P s.1 → s'.2 = [] → s.2 = [] ∧ part P

variable {cfg : Config} {P : Node → Prop}

section Combine

variable {part part' : (Node → Prop) → Prop} {s s' s'' : State} {t : Token} {ts : List Token}
  {log : Log}

theorem Legible.suffix {ts us : List Token} (ready : Legible P us) (suffix : ts <:+ us) :
    Legible P ts :=
  ⟨fun t member => ready.formed t (suffix.subset member),
    fun t member => ready.named t (suffix.subset member)⟩

/-- Nothing is made and nothing is reported. -/
theorem marks_here (s : State) : Marks cfg P (fun _ => True) s s :=
  ⟨List.suffix_rfl, fun _ _ => rfl, fun _ _ none => ⟨none, trivial⟩⟩

/-- One step after another makes both parts. -/
theorem Marks.and (first : Marks cfg P part s s') (second : Marks cfg P part' s' s'') :
    Marks cfg P (fun Q => part Q ∧ part' Q) s s'' where
  suffix := second.suffix.trans first.suffix
  lenient loose fine := by rw [second.lenient loose fine.2, first.lenient loose fine.1]
  quiet limit ready none := by
    obtain ⟨none, later⟩ := second.quiet limit (ready.suffix first.suffix) none
    obtain ⟨none, here⟩ := first.quiet limit ready none
    exact ⟨none, here, later⟩

/-- The same part in other words. -/
theorem Marks.congr (marks : Marks cfg P part s s') (same : ∀ Q, part' Q ↔ part Q) :
    Marks cfg P part' s s' where
  suffix := marks.suffix
  lenient loose fine := marks.lenient loose ((same _).1 fine)
  quiet limit ready none := by
    obtain ⟨none, fine⟩ := marks.quiet limit ready none
    exact ⟨none, (same P).2 fine⟩

theorem Marks.length_le {ts' : List Token} {log' : Log}
    (marks : Marks cfg P part (ts, log) (ts', log')) : ts'.length ≤ ts.length :=
  List.IsSuffix.length_le marks.suffix

/-- Behind a token that was taken. -/
theorem marks_take (rest : Marks cfg P part (ts, log) s) : Marks cfg P part (t :: ts, log) s where
  suffix := rest.suffix.trans (List.suffix_cons t ts)
  lenient := rest.lenient
  quiet limit ready := rest.quiet limit (ready.suffix (List.suffix_cons t ts))

/-- Behind a token that stands for a name. -/
theorem marks_name (kind : t.kind = .identifier) (rest : Marks cfg P part (ts, log) s) :
    Marks cfg P (fun Q => (Node.ident ⟨t.pos, t.spelling, none⟩).Excused Q ∧ part Q) (t :: ts, log)
      s where
  suffix := rest.suffix.trans (List.suffix_cons t ts)
  lenient loose fine := rest.lenient loose fine.2
  quiet limit ready none := by
    obtain ⟨none, fine⟩ := rest.quiet limit (ready.suffix (List.suffix_cons t ts)) none
    exact ⟨none, ready.named t List.mem_cons_self kind, fine⟩

/-- Something is reported, and there is an error node for it. -/
theorem marks_report (e : ParseError) (log : Log) {us : List Token} (behind : ts <:+ us)
    (bad : ¬ part fun _ => False) : Marks cfg P part (us, log) (report cfg e ts log).state where
  suffix := by
    have moves : Moves cfg Inner (ts, log) (report cfg e ts log).state := moves_report e ts log
    exact moves.suffix.trans behind
  lenient _ fine := absurd fine bad
  quiet limit ready none :=
    absurd none (report_log_ne_nil limit (ready.suffix behind).formed e log)

end Combine

section Tokens

theorem reportMissing_marks (kind : Kind) (ts : List Token) (log : Log) :
    Marks cfg P (fun _ => True) (ts, log) (reportMissing cfg kind ts log).state := by
  have moves : Moves cfg Inner (ts, log) _ := reportMissing_moves kind ts log
  refine ⟨moves.suffix, fun loose _ => ?_, fun _ _ none => ⟨moves.log_eq_nil none, trivial⟩⟩
  rw [reportMissing, if_pos loose]

/-- A missing token is no node; but then a lenient parser does not report it. -/
theorem accept_marks (kind : Kind) (ts : List Token) (log : Log) :
    Marks cfg P (fun _ => True) (ts, log) (accept cfg kind ts log).state := by
  cases ts with
  | nil => exact reportMissing_marks kind [] log
  | cons t ts =>
    rw [accept]
    split
    · exact marks_take (marks_here _)
    · exact reportMissing_marks kind (t :: ts) log

theorem Marks.accept {part : (Node → Prop) → Prop} {s : State} {ts : List Token} {log : Log}
    (marks : Marks cfg P part s (ts, log)) (kind : Kind) :
    Marks cfg P part s (Parser.accept cfg kind ts log).state := by
  have both := marks.and (accept_marks kind ts log)
  simpa only [and_true] using both

theorem ident_marks (ts : List Token) (log : Log) :
    Marks cfg P (fun Q => (Node.ident (ident cfg ts log).value).Excused Q) (ts, log)
      (ident cfg ts log).state := by
  cases ts with
  | nil => exact marks_report _ log List.suffix_rfl (by simp [ident, missingIdent])
  | cons t ts =>
    rw [ident]
    split
    · next kind => simpa only [and_true] using marks_name kind (marks_here (ts, log))
    · exact marks_report _ log List.suffix_rfl (by simp [missingIdent])

end Tokens

section Expressions

-- The recursion is that of the parser, with the same measures.
mutual

theorem expr_marks (ts : List Token) (log : Log) :
    Marks cfg P (fun Q => (expr cfg ts log).value.All (Node.Excused Q)) (ts, log)
      (expr cfg ts log).state := by
  have le := (primary cfg ts log).le
  rw [expr]
  exact exprTail_marks _ _ _ (primary_marks ts log)
termination_by 5 * ts.length + 2
decreasing_by all_goals omega

/-- What stands before the operators was made from some place on. -/
theorem exprTail_marks (x : Expr) : ∀ (ts : List Token) (log : Log) {s : State},
    Marks cfg P (fun Q => x.All (Node.Excused Q)) s (ts, log) →
      Marks cfg P (fun Q => (exprTail cfg x ts log).value.All (Node.Excused Q)) s
        (exprTail cfg x ts log).state
  | [], log, s, before => by
    rw [exprTail]
    exact before
  | t :: ts, log, s, before => by
    have le := (primary cfg ts log).le
    rw [exprTail]
    split
    · apply exprTail_marks
      apply (before.and (marks_take (primary_marks ts log))).congr
      intro Q
      simp
    · exact before
termination_by ts => 5 * ts.length + 1
decreasing_by
  all_goals
    simp only [List.length_cons]
    omega

theorem primary_marks : ∀ (ts : List Token) (log : Log),
    Marks cfg P (fun Q => (primary cfg ts log).value.All (Node.Excused Q)) (ts, log)
      (primary cfg ts log).state
  | [], log => by
    rw [primary]
    exact marks_report _ log List.suffix_rfl (by simp [missingExpr])
  | t :: ts, log => by
    rw [primary]
    split
    · apply (marks_take (marks_here (ts, log))).congr
      intro Q
      simp
    · apply (marks_take (marks_here (ts, log))).congr
      intro Q
      simp
    · next kind => exact nameOrCall_marks t ts log kind
    · apply (marks_take (primary_marks ts log)).congr
      intro Q
      simp
    · exact (marks_take (expr_marks ts log)).accept (.mark .rparen)
    · next kind =>
      -- Nothing is reported at a malformed token, but an error node is made of it.
      refine ⟨List.suffix_cons t ts, fun _ fine => by simp at fine, fun _ ready => ?_⟩
      exact absurd kind (ready.formed t List.mem_cons_self)
    · exact marks_report _ log List.suffix_rfl (by simp [missingExpr])
termination_by ts => 5 * ts.length
decreasing_by
  all_goals
    simp only [List.length_cons]
    omega

theorem nameOrCall_marks (t : Token) : ∀ (ts : List Token) (log : Log), t.kind = .identifier →
    Marks cfg P (fun Q => (nameOrCall cfg t ts log).value.All (Node.Excused Q)) (t :: ts, log)
      (nameOrCall cfg t ts log).state
  | [], log, kind => by
    rw [nameOrCall]
    apply (marks_name kind (marks_here ([], log))).congr
    intro Q
    simp
  | p :: ts, log, kind => by
    rw [nameOrCall]
    split
    · apply (marks_name kind (marks_take (argument_marks ts log))).congr
      intro Q
      simp
    · apply (marks_name kind (marks_here (p :: ts, log))).congr
      intro Q
      simp
termination_by ts => 5 * ts.length + 1
decreasing_by
  all_goals
    simp only [List.length_cons]
    omega

theorem argument_marks (ts : List Token) (log : Log) :
    Marks cfg P (fun Q => (argument cfg ts log).value.All (Node.Excused Q)) (ts, log)
      (argument cfg ts log).state := by
  rw [argument]
  exact (param_marks ts log).accept (.mark .rparen)
termination_by 5 * ts.length + 4
decreasing_by all_goals omega

theorem param_marks : ∀ (ts : List Token) (log : Log),
    Marks cfg P (fun Q => (param cfg ts log).value.All (Node.Excused Q)) (ts, log)
      (param cfg ts log).state
  | [], log => by
    rw [param]
    exact marks_report _ log List.suffix_rfl (by simp [missingArg])
  | t :: ts, log => by
    rw [param]
    split
    · apply (expr_marks (t :: ts) log).congr
      intro Q
      simp
    · split
      · apply (marks_take (ident_marks ts log)).congr
        intro Q
        simp [varArg]
      · split
        · apply (marks_here (t :: ts, log)).congr
          intro Q
          simp
        · exact marks_report _ log List.suffix_rfl (by simp [missingArg])
termination_by ts => 5 * ts.length + 3
decreasing_by all_goals omega

end

end Expressions

section Declarations

theorem constDecl_marks (pos : Pos) (ts : List Token) (log : Log) :
    Marks cfg P (fun Q => (constDecl cfg pos ts log).value.All (Node.Excused Q)) (ts, log)
      (constDecl cfg pos ts log).state := by
  have name : Marks cfg P _ (ts, log) _ := (ident_marks ts log).accept (.mark .is)
  apply (name.and (expr_marks _ _)).congr
  intro Q
  simp [constDecl]

theorem varDecl_marks (pos : Pos) (ts : List Token) (log : Log) :
    Marks cfg P (fun Q => (varDecl cfg pos ts log).value.All (Node.Excused Q)) (ts, log)
      (varDecl cfg pos ts log).state := by
  have name : Marks cfg P _ (ts, log) _ := (ident_marks ts log).accept (.mark .colon)
  apply (name.and (ident_marks _ _)).congr
  intro Q
  simp [varDecl]

theorem singleDecl_marks (ts : List Token) (log : Log) :
    Marks cfg P (fun Q => (singleDecl cfg ts log).value.All (Node.Excused Q)) (ts, log)
      (singleDecl cfg ts log).state := by
  cases ts with
  | nil => exact marks_report _ log List.suffix_rfl (by simp [singleDecl, missingDecl])
  | cons t ts =>
    rw [singleDecl]
    split
    · exact marks_take (constDecl_marks t.pos ts log)
    · split
      · exact marks_take (varDecl_marks t.pos ts log)
      · exact marks_report _ log List.suffix_rfl (by simp [missingDecl])

theorem declTail_marks : ∀ (ts : List Token) (log : Log),
    Marks cfg P (fun Q => ∀ d ∈ (declTail cfg ts log).value, d.All (Node.Excused Q)) (ts, log)
      (declTail cfg ts log).state
  | [], log => by
    rw [declTail]
    apply (marks_here ([], log)).congr
    intro Q
    simp
  | t :: ts, log => by
    have le := (singleDecl cfg ts log).le
    rw [declTail]
    split
    · apply (marks_take ((singleDecl_marks ts log).and (declTail_marks _ _))).congr
      intro Q
      simp
    · apply (marks_here (t :: ts, log)).congr
      intro Q
      simp
termination_by ts => ts.length
decreasing_by
  all_goals
    simp only [List.length_cons]
    omega

theorem excused_joinDecls {Q : Node → Prop} {pos : Pos} {d : Decl} {ds : List Decl} :
    (joinDecls pos d ds).All (Node.Excused Q) ↔
      d.All (Node.Excused Q) ∧ ∀ e ∈ ds, e.All (Node.Excused Q) := by
  cases ds with
  | nil => simp [joinDecls]
  | cons e ds => simp [joinDecls]

theorem declaration_marks (ts : List Token) (log : Log) :
    Marks cfg P (fun Q => (declaration cfg ts log).value.All (Node.Excused Q)) (ts, log)
      (declaration cfg ts log).state := by
  apply ((singleDecl_marks ts log).and (declTail_marks _ _)).congr
  intro Q
  exact excused_joinDecls

end Declarations

section Commands

/-- What makes no command is reported, also from further back. -/
theorem badCmd_marks (e : ParseError) {ts us : List Token} (behind : ts <:+ us) (log : Log) :
    Marks cfg P (fun Q => (badCmd cfg e ts log).value.All (Node.Excused Q)) (us, log)
      (badCmd cfg e ts log).state where
  suffix := (badCmd_moves e ts log).suffix.trans behind
  lenient _ fine := by simp [badCmd] at fine
  quiet limit ready none := absurd none (report_log_ne_nil limit (ready.suffix behind).formed e log)

theorem assignOrCall_marks {t : Token} (kind : t.kind = .identifier) (ts : List Token) (log : Log) :
    Marks cfg P (fun Q => (assignOrCall cfg t ts log).value.All (Node.Excused Q)) (t :: ts, log)
      (assignOrCall cfg t ts log).state := by
  cases ts with
  | nil => exact badCmd_marks _ List.nil_suffix log
  | cons p ts =>
    rw [assignOrCall]
    split
    · apply (marks_name kind (marks_take (expr_marks ts log))).congr
      intro Q
      simp
    · split
      · apply (marks_name kind (marks_take (argument_marks ts log))).congr
        intro Q
        simp
      · exact badCmd_marks _ (List.suffix_cons t _) log

theorem marks_of_all {ts : List Token} {r : Parsed Cmd ts} {c : Cmd} {s s' : State}
    (all : r.all = (c, s')) (marks : Marks cfg P (fun Q => c.All (Node.Excused Q)) s s') :
    Marks cfg P (fun Q => r.value.All (Node.Excused Q)) s r.state := by
  obtain ⟨rfl, rfl⟩ := Prod.mk.inj all
  exact marks

theorem excused_joinCmds {Q : Node → Prop} {pos : Pos} {c : Cmd} {cs : List Cmd} :
    (joinCmds pos c cs).All (Node.Excused Q) ↔
      c.All (Node.Excused Q) ∧ ∀ d ∈ cs, d.All (Node.Excused Q) := by
  cases cs with
  | nil => simp [joinCmds]
  | cons d cs => simp [joinCmds]

-- The recursion is that of the parser, with the same measures.
mutual

theorem command_marks (ts : List Token) (log : Log) :
    Marks cfg P (fun Q => (command cfg ts log).value.All (Node.Excused Q)) (ts, log)
      (command cfg ts log).state := by
  have le := (single cfg ts log).le
  rw [command]
  apply ((single_marks ts log).and (cmdTail_marks _ _)).congr
  intro Q
  exact excused_joinCmds
termination_by 4 * ts.length + 2
decreasing_by all_goals omega

theorem cmdTail_marks : ∀ (ts : List Token) (log : Log),
    Marks cfg P (fun Q => ∀ c ∈ (cmdTail cfg ts log).value, c.All (Node.Excused Q)) (ts, log)
      (cmdTail cfg ts log).state
  | [], log => by
    rw [cmdTail]
    apply (marks_here ([], log)).congr
    intro Q
    simp
  | t :: ts, log => by
    have le := (single cfg ts log).le
    rw [cmdTail]
    split
    · apply (marks_take ((single_marks ts log).and (cmdTail_marks _ _))).congr
      intro Q
      simp
    · apply (marks_here (t :: ts, log)).congr
      intro Q
      simp
termination_by ts => 4 * ts.length + 1
decreasing_by
  all_goals
    simp only [List.length_cons]
    omega

theorem single_marks : ∀ (ts : List Token) (log : Log),
    Marks cfg P (fun Q => (single cfg ts log).value.All (Node.Excused Q)) (ts, log)
      (single cfg ts log).state
  | [], log => by
    rw [single]
    apply (marks_here ([], log)).congr
    intro Q
    simp
  | t :: ts, log => by
    rw [single_cons]
    split
    · next starts => exact started_marks t ts log starts
    · split
      · apply (marks_here (t :: ts, log)).congr
        intro Q
        simp
      · exact badCmd_marks _ List.suffix_rfl log
termination_by ts => 4 * ts.length
decreasing_by
  all_goals
    simp only [List.length_cons]
    omega

theorem started_marks (t : Token) (ts : List Token) (log : Log)
    (starts : t.kind.startsCmd = true) :
    Marks cfg P (fun Q => (started cfg t ts log).value.All (Node.Excused Q)) (t :: ts, log)
      (started cfg t ts log).state := by
  have cond : Marks cfg P _ (ts, log) _ := expr_marks ts log
  have afterCond := cond.length_le
  rcases startsCmd_cases starts with kind | kind | kind | kind | kind | kind | kind
  · exact marks_of_all (started_of_identifier ts log kind) (assignOrCall_marks kind ts log)
  · have body : Marks cfg P _ (ts, log) _ := (command_marks ts log).accept (.mark .rbrace)
    apply marks_of_all (started_of_lbrace ts log kind)
    apply (marks_take body).congr
    intro Q
    simp
  · have word : Marks cfg P _ (ts, log) _ :=
      (declaration_marks ts log).accept (.keyword .in_)
    have le := word.length_le
    apply marks_of_all (started_of_let ts log kind)
    apply (marks_take (word.and (single_marks _ _))).congr
    intro Q
    simp
  · apply marks_of_all (started_of_if ts log kind)
    apply (marks_take (cond.and (branches_marks _ _))).congr
    intro Q
    simp
  · have alt := (cond.accept (.keyword .or)).and (expr_marks _ _)
    have le := alt.length_le
    apply marks_of_all (started_of_ifeither ts log kind)
    apply (marks_take (alt.and (branches_marks _ _))).congr
    intro Q
    simp [and_assoc]
  · have word := cond.accept (.keyword .do_)
    have le := word.length_le
    apply marks_of_all (started_of_while ts log kind)
    apply (marks_take (word.and (single_marks _ _))).congr
    intro Q
    simp
  · apply marks_of_all (started_of_pass ts log kind)
    apply (marks_take (marks_here (ts, log))).congr
    intro Q
    simp
termination_by 4 * ts.length + 3
decreasing_by all_goals omega

theorem branches_marks (ts : List Token) (log : Log) :
    Marks cfg P (fun Q => (branches cfg ts log).value.1.All (Node.Excused Q) ∧
      (branches cfg ts log).value.2.All (Node.Excused Q)) (ts, log)
      (branches cfg ts log).state := by
  have start : Marks cfg P _ (ts, log) _ := accept_marks (.keyword .then_) ts log
  have le₁ := start.length_le
  have yes := (start.and (single_marks _ _)).accept (.keyword .else_)
  have le₂ := yes.length_le
  have no := (yes.and (single_marks _ _)).accept (.keyword .endif)
  rw [branches]
  apply no.congr
  intro Q
  simp
termination_by 4 * ts.length + 1
decreasing_by all_goals omega

end

end Commands

section Programs

theorem excused_appendCmd {Q : Node → Prop} {c next : Cmd} :
    (appendCmd c next).All (Node.Excused Q) ↔
      c.All (Node.Excused Q) ∧ next.All (Node.Excused Q) := by
  obtain ⟨pos, cs, ds, eq, before, after⟩ := exists_appendCmd c next
  have first : c.All (Node.Excused Q) ↔ ∀ d ∈ cs, d.All (Node.Excused Q) := by
    rcases before with rfl | rfl <;> simp
  have second : next.All (Node.Excused Q) ↔ ∀ d ∈ ds, d.All (Node.Excused Q) := by
    rcases after with ⟨q, rfl⟩ | rfl <;> simp
  rw [eq, first, second]
  simp [or_imp, forall_and]

theorem resync_marks (s : State) : Marks cfg P (fun _ => True) s (resync cfg s) := by
  have stop : Marks cfg P (fun _ => True) s _ := accept_marks .endOfText s.1 s.2
  exact ⟨(List.dropWhile_suffix _).trans stop.suffix, stop.lenient, stop.quiet⟩

theorem nextPiece_marks {s p : State} (next : nextPiece cfg s = some p) :
    Marks cfg P (fun _ => True) s p := by
  obtain ⟨-, u, us, log, here, read⟩ := exists_of_nextPiece next
  have stop : Marks cfg P (fun _ => True) s (u :: us, log) := here ▸ resync_marks s
  rcases read with ⟨-, rfl⟩ | ⟨-, rfl⟩
  · have both := stop.and (marks_take (marks_here (us, log)))
    simpa only [and_true] using both
  · exact stop

theorem stopsAt_marks (s : State) : Marks cfg P (fun _ => True) s (stopsAt cfg s) := by
  rw [stopsAt]
  split
  · exact marks_here s
  · exact resync_marks s

/-- The whole program. -/
theorem program_marks (cfg : Config) (P : Node → Prop) (ts : List Token) :
    let first := command cfg ts []
    let all := leftover cfg first.value first.rest first.log
    Marks cfg P (fun Q => all.value.All (Node.Excused Q)) (ts, []) all.state := by
  intro first all
  let I : Cmd → State → Prop := fun c s =>
    Marks cfg P (fun Q => c.All (Node.Excused Q)) (ts, []) s
  have goesOn : ∀ c s p, nextPiece cfg s = some p → I c s →
      I (appendCmd c (command cfg p.1 p.2).value) (command cfg p.1 p.2).state := by
    intro c s p next before
    have here := before.and ((nextPiece_marks next).and (command_marks p.1 p.2))
    apply here.congr
    intro Q
    rw [excused_appendCmd, true_and]
  obtain ⟨d, s, marks, -, eq⟩ :=
    leftover_run goesOn first.value first.state (command_marks ts [])
  apply marks_of_all eq
  apply (marks.and (stopsAt_marks s)).congr
  intro Q
  rw [and_true]

variable {tokens : List Token}

theorem legible_split (formed : ∀ t ∈ tokens, t.kind ≠ .malformed) :
    Legible (Node.Unspelled tokens) (split tokens).1 where
  formed t member := formed t (split_subset tokens member)
  named t member kind error := by
    have empty : t.spelling = "" := by simpa using error
    exact ⟨t, split_subset tokens member, kind, empty, rfl⟩

/-- A lenient parser that reports something makes an error node. -/
theorem exists_isError_of_reports {limit : Int} (found : (parse tokens true limit).reports ≠ []) :
    ∃ n ∈ (parse tokens true limit).program.nodes, n.isError = true := by
  by_contra none
  have marks := program_marks ⟨(split tokens).2, true, limitOf limit⟩ (fun _ => False)
    (split tokens).1
  have fine : (parse tokens true limit).program.All (Node.Excused fun _ => False) :=
    fun n member error => none ⟨n, member, error⟩
  exact found ((Outcome.reports_eq_nil_iff _).2 (marks.lenient rfl (Program.all_iff.1 fine).2))

/-- An error node is reported, unless it is a name that was written without characters. -/
theorem unspelled_of_isError (formed : ∀ t ∈ tokens, t.kind ≠ .malformed) {lenient : Bool}
    {limit : Int} (quiet : (parse tokens lenient limit).reports = []) :
    ∀ n ∈ (parse tokens lenient limit).program.nodes, n.isError = true → n.Unspelled tokens := by
  have marks := program_marks ⟨(split tokens).2, lenient, limitOf limit⟩ (Node.Unspelled tokens)
    (split tokens).1
  have fine := marks.quiet (limitOf_pos limit) (legible_split formed)
    ((Outcome.reports_eq_nil_iff _).1 quiet)
  have all : (parse tokens lenient limit).program.All (Node.Excused (Node.Unspelled tokens)) :=
    Program.all_iff.2 ⟨nofun, fine.2⟩
  exact all

/-- A text of which the tree has an error node has a report. -/
theorem reports_ne_nil_of_isError {file : String} {input : Input} {lenient : Bool} {limit : Int}
    {reading : Reading} (read : readText file input lenient limit = .ok reading) {n : Node}
    (member : n ∈ reading.program.nodes) (error : n.isError = true) : reading.reports ≠ [] := by
  intro quiet
  obtain rfl := readText_eq_ok read
  obtain ⟨lexical, syntactic⟩ := List.append_eq_nil_iff.1 quiet
  have lexical : Scanner.reports (Scanner.scan (Cursor.ofBytes file input.bytes)).1 = [] := by
    simpa [Scanner.messages] using lexical
  have proper := Scanner.tokens_proper_of_reports lexical
  obtain ⟨t, token, kind, empty, -⟩ :=
    unspelled_of_isError (fun t token => (proper t token).wellFormed) syntactic n member error
  exact (proper t token).named kind empty

/-- A lenient parser makes an error node if it reports something, and any parser reports something
if it makes an error node, unless no character of a name was written. A text always has a report if
its tree has an error node. -/
theorem error_nodes_reported :
    (∀ (tokens : List Token) (limit : Int), (∀ t ∈ tokens, t.kind ≠ .malformed) →
      ((parse tokens true limit).reports ≠ [] →
        ∃ n ∈ (parse tokens true limit).program.nodes, n.isError = true) ∧
      ∀ lenient, ∀ n ∈ (parse tokens lenient limit).program.nodes, n.isError = true →
        (parse tokens lenient limit).reports ≠ [] ∨ n.Unspelled tokens) ∧
    ∀ (file : String) (input : Input) (lenient : Bool) (limit : Int) (reading : Reading),
      readText file input lenient limit = .ok reading →
        (∃ n ∈ reading.program.nodes, n.isError = true) → reading.reports ≠ [] := by
  refine ⟨fun tokens limit formed => ⟨exists_isError_of_reports, ?_⟩, ?_⟩
  · intro lenient n member error
    by_cases quiet : (parse tokens lenient limit).reports = []
    · exact .inr (unspelled_of_isError formed quiet n member error)
    · exact .inl quiet
  · rintro file input lenient limit reading read ⟨n, member, error⟩
    exact reports_ne_nil_of_isError read member error

/-- The text `let var : integer in`. -/
def unnamedText : Input := ⟨"let var : integer in".toUTF8.toList, none, none⟩

theorem unnamedText_reported :
    ∃ reading, readText "" unnamedText true 10 = .ok reading ∧
      (∀ t ∈ reading.tokens, t.kind ≠ .malformed) ∧
      (∃ n ∈ reading.program.nodes, n.isError = true) ∧ reading.reports ≠ [] := by
  have read : readText "" unnamedText true 10 = .ok _ := rfl
  refine ⟨_, read, ?formed, ?error, error_nodes_reported.2 _ _ _ _ _ read ?error⟩
  case formed => decide +kernel
  case error => exact (error_nodes_reported.1 _ 10 (by decide +kernel)).1 (by decide +kernel)

/-- The tokens of an assignment to a name without characters. -/
def namelessTokens : List Token :=
  [⟨.identifier, "", ⟨"", 1, 1⟩⟩, ⟨.mark .becomes, ":=", ⟨"", 1, 2⟩⟩,
    ⟨.integer, "1", ⟨"", 1, 5⟩⟩, ⟨.endOfText, "", ⟨"", 1, 6⟩⟩]

/-- Nothing is reported about a name without characters. -/
theorem namelessTokens_not_reported :
    (∀ t ∈ namelessTokens, t.kind ≠ .malformed) ∧
      ¬ ((parse namelessTokens true 10).reports ≠ [] ↔
        ∃ n ∈ (parse namelessTokens true 10).program.nodes, n.isError = true) := by
  refine ⟨by decide, fun reported => ?_⟩
  have quiet : (parse namelessTokens true 10).reports = [] := by decide +kernel
  have nameless : (parse namelessTokens true 10).program.nodes.any (·.isError) = true := by
    decide +kernel
  exact reported.2 (List.any_eq_true.1 nameless) quiet

end Programs

end Parser

end TriangleTam

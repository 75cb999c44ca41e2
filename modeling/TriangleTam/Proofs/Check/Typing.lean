import TriangleTam.Proofs.Check.Declarations

/-!
# Checking finds nothing wrong exactly in well-typed programs

Commands add nothing to the frames they are checked in, so one statement, `silent_cmd_iff`, says
of each of them that checking it is silent exactly if the rules allow it.
-/

namespace TriangleTam

open Typing

namespace Check

open Checked (Silent)

section Commands

variable {L : List Entity}

theorem silent_condition_iff {env : Env} (names : Scoped env.chain L) (typed : Typed L)
    {command : String} {x : Expr} (complete : x.All fun n => n.isError = false) :
    (condition env command x).Silent ↔ HasType (contextOf L) x .boolean := by
  constructor
  · intro silent
    simp only [condition, Checked.silent_bind] at silent
    obtain ⟨t, h, value⟩ := hasType_of_silent_value names typed complete silent.1
    rw [(value_of_hasType names typed complete h value).2] at silent
    have accepted : Ty.boolean.accepts t = true := by simpa using silent.2.1
    obtain rfl := (accepts_iff rfl (hasType_ne_any typed h)).1 accepted
    exact h
  · intro h
    obtain ⟨silent, eq⟩ := value_of_hasType names typed complete h (by decide)
    simp [condition, silent, eq]

theorem silent_assign_iff {env : Env} (names : Scoped env.chain L) (typed : Typed L)
    {target : Ident} {x : Expr} (present : target.name ≠ "")
    (complete : x.All fun n => n.isError = false) :
    (assign env target x).Silent ↔
      ∃ t, (contextOf L).denotes target.name = some (.entity .var t) ∧
        HasType (contextOf L) x t := by
  constructor
  · intro silent
    simp only [assign, Checked.silent_bind] at silent
    obtain ⟨t, h, value⟩ := hasType_of_silent_value names typed complete silent.1
    rw [(value_of_hasType names typed complete h value).2] at silent
    obtain ⟨m, found⟩ := exists_meaning_of_silent names present silent.2.1
    rw [resolve_of_meaningIn names present found] at silent
    cases assignable : m.isVariable with
    | false => simp [assignable] at silent
    | true =>
      obtain ⟨e, rfl⟩ := exists_entity_of_isVariable assignable
      obtain ⟨s, hs, data⟩ := typed.of_meaningIn found
      have accepted : s.accepts t = true := by
        simpa [assignable, Meaning.valueTy?, hs] using silent.2.2
      obtain rfl := (accepts_iff data (hasType_ne_any typed h)).1 accepted
      refine ⟨t, denotes_eq_entity_iff.2 ⟨e, found, ?_, by simp [hs]⟩, h⟩
      simpa [Meaning.isVariable] using assignable
  · rintro ⟨t, found, h⟩
    obtain ⟨e, meaning, kind, rfl⟩ := denotes_eq_entity_iff.1 found
    obtain ⟨s, hs, data⟩ := typed.of_meaningIn meaning
    rw [hs, Option.getD_some] at h
    obtain ⟨silent, eq⟩ := value_of_hasType names typed complete h (Ty.ne_void_of_isData data)
    simp [assign, silent, eq, resolve_of_meaningIn names present meaning, Meaning.isVariable, kind,
      Meaning.valueTy?, hs]

theorem silent_call_iff {p : Place} (names : Scoped p.chain L) (typed : Typed L) {pos : Pos}
    {callee : Ident} {a : Arg} (present : callee.name ≠ "")
    (complete : a.All fun n => n.isError = false) :
    (cmd p (.call pos callee a)).Silent ↔ WellTyped (contextOf L) (.call pos callee a) := by
  have names : Scoped p.env.chain L := names
  constructor
  · intro silent
    simp only [cmd, Checked.silent_bind] at silent
    obtain ⟨name, params, result, prim, found, count⟩ :=
      exists_func_of_silent_routine names present silent.1
    rw [routine_of_meaningIn names present found count] at silent
    exact .call (denotes_eq_builtin_iff.2 found)
      (passed_of_silent names typed a complete count (params_data found) silent.2.1)
  · intro h
    cases h with
    | call found passed =>
      rw [denotes_eq_builtin_iff] at found
      simp [cmd, routine_of_meaningIn names present found (passed_count passed),
        silent_of_passed names typed a complete (params_data found) passed]

mutual

/-- Checking a command finds nothing wrong exactly if it is well typed. -/
theorem silent_cmd_iff : ∀ (c : Cmd) {p : Place} {L : List Entity},
    c.All (fun n => n.isError = false) → Scoped p.chain L → Typed L →
      ((cmd p c).Silent ↔ WellTyped (contextOf L) c)
  | .skip pos explicit, p, L, _, _, _ => by simpa [cmd] using .skip
  | .bad pos, _, _, complete, _, _ => by simp at complete
  | .assign pos target x, p, L, complete, names, typed => by
    obtain ⟨-, present, complete⟩ := Cmd.all_assign.1 complete
    replace present : target.name ≠ "" := by simpa using present
    have inside : Scoped p.env.chain L := names
    have checked := silent_assign_iff inside typed present complete
    simp only [cmd, Checked.silent_bind, checked, Checked.silent_pure, and_true]
    constructor
    · rintro ⟨t, found, h⟩
      exact .assign found h
    · rintro (⟨_⟩ | ⟨found, h⟩)
      exact ⟨_, found, h⟩
  | .call pos callee a, p, L, complete, names, typed => by
    obtain ⟨-, present, complete⟩ := Cmd.all_call.1 complete
    exact silent_call_iff names typed (by simpa using present) complete
  | .seq pos cs, p, L, complete, names, typed => by
    have all := silent_cmds_iff cs (Cmd.all_seq.1 complete).2 names typed
    simp only [cmd, Checked.silent_bind, Checked.silent_pure, and_true, all]
    exact ⟨.seq, fun h => by cases h; assumption⟩
  | .block pos body close, p, L, complete, names, typed => by
    have names : Scoped p.inBraces.chain L := names.cons_empty "block"
    have inner := silent_cmd_iff body (Cmd.all_block.1 complete).2 names typed
    simp only [cmd, Checked.silent_within, Checked.silent_bind, Checked.silent_pure, and_true,
      inner]
    exact ⟨.block, fun h => by cases h; assumption⟩
  | .ifElse pos cond yes no, p, L, complete, names, typed => by
    obtain ⟨-, completeCond, completeYes, completeNo⟩ := Cmd.all_ifElse.1 complete
    have inside : Scoped p.env.chain L := names
    simp only [cmd, Checked.silent_bind, Checked.silent_pure, and_true,
      silent_condition_iff inside typed completeCond,
      silent_cmd_iff yes completeYes names typed, silent_cmd_iff no completeNo names typed]
    exact ⟨fun ⟨h, yes, no⟩ => .ifElse h yes no, fun h => by cases h; exact ⟨‹_›, ‹_›, ‹_›⟩⟩
  | .ifEither pos cond alt yes no, p, L, complete, names, typed => by
    obtain ⟨-, completeCond, completeAlt, completeYes, completeNo⟩ := Cmd.all_ifEither.1 complete
    have inside : Scoped p.env.chain L := names
    simp only [cmd, Checked.silent_bind, Checked.silent_pure, and_true,
      silent_condition_iff inside typed completeCond,
      silent_condition_iff inside typed completeAlt,
      silent_cmd_iff yes completeYes names typed, silent_cmd_iff no completeNo names typed]
    exact ⟨fun ⟨h, h', yes, no⟩ => .ifEither h h' yes no,
      fun h => by cases h; exact ⟨‹_›, ‹_›, ‹_›, ‹_›⟩⟩
  | .whileDo pos cond body, p, L, complete, names, typed => by
    obtain ⟨-, completeCond, completeBody⟩ := Cmd.all_whileDo.1 complete
    have inside : Scoped p.env.chain L := names
    simp only [cmd, Checked.silent_bind, Checked.silent_pure, and_true,
      silent_condition_iff inside typed completeCond,
      silent_cmd_iff body completeBody names typed]
    exact ⟨fun ⟨h, body⟩ => .whileDo h body, fun h => by cases h; exact ⟨‹_›, ‹_›⟩⟩
  | .letIn pos d body, p, L, complete, names, typed => by
    obtain ⟨-, completeDecl, completeBody⟩ := Cmd.all_letIn.1 complete
    let block : Block := ⟨letFrame, p.offset⟩
    have names : Scoped (block.frame :: p.letSite.outer) L := names.cons_empty "let"
    simp only [cmd, Checked.silent_bind, Checked.silent_within, Checked.silent_pure, and_true]
    constructor
    · rintro ⟨silent, silentBody⟩
      have declared := declared_of_silent d completeDecl names typed silent
      refine .letIn declared.declares declared.distinct ?_
      exact (silent_cmd_iff body completeBody declared.names declared.typed).1 silentBody
    · intro h
      cases h with
      | letIn declares distinct typedBody =>
        obtain ⟨silent, rfl⟩ := silent_of_declares d completeDecl names typed declares distinct
          (fun n _ => rfl)
        have declared := declared_of_silent d completeDecl names typed silent
        exact ⟨silent, (silent_cmd_iff body completeBody declared.names declared.typed).2 typedBody⟩

theorem silent_cmds_iff : ∀ (cs : List Cmd) {p : Place} {L : List Entity},
    (∀ c ∈ cs, c.All fun n => n.isError = false) → Scoped p.chain L → Typed L →
      ((cmds p cs).Silent ↔ ∀ c ∈ cs, WellTyped (contextOf L) c)
  | [], _, _, _, _, _ => by simp [cmds]
  | c :: cs, p, L, complete, names, typed => by
    have first := silent_cmd_iff c (complete c (by simp)) names typed
    have rest := silent_cmds_iff cs (fun c member => complete c (by simp [member])) names typed
    simp [cmds, first, rest]

end

end Commands

/-- If the character literals of a program are ones, it has no constant whose value cannot be
found. -/
theorem malformedConstant?_eq_none {p : Program} (proper : p.LiteralsProper) :
    malformedConstant? p = none := by
  rw [malformedConstant?, List.findSome?_eq_none_iff]
  intro n member
  split
  · next lit =>
    simp only [Program.nodes, Program.walk, List.mem_cons, reduceCtorEq, false_or, if_true]
      at member
    have all := Cmd.all_of_mem_walk p.body member (Program.all_iff.1 proper).2
    have proper : lit.charValue?.isSome = true := (by simpa using all)
    rw [if_neg]
    intro missing
    rw [Option.isNone_iff_eq_none.1 missing] at proper
    cases proper
  · rfl

theorem Result.messages_eq_nil_iff (r : Result) : r.messages = [] ↔ r.reports = [] := by
  simp [Result.messages]

/-- Nothing is reported about a complete program exactly if it is well typed. -/
theorem reports_program_eq_nil_iff {p : Program} (complete : p.Complete) (distance : Int) :
    (program distance p).reports = [] ↔ p.WellTyped :=
  silent_cmd_iff p.body (p := ⟨[rootFrame], distance, 0, 0⟩) (Program.all_iff.1 complete).2
    scoped_root (by simp [Typed])

end Check

theorem Program.check_eq_ok {p : Program} (proper : p.LiteralsProper) (distance : Int) :
    p.check distance = .ok (Check.program distance p) := by
  rw [Program.check, Check.malformedConstant?_eq_none proper]

/-- The checker is sound and complete for the rules on names and types: about a program without
error nodes and missing names it reports nothing exactly if the program is well typed. It always
comes to a result if the character literals are ones. -/
theorem Program.check_messages_eq_nil_iff_wellTyped (p : Program) (distance : Int)
    (complete : p.Complete) :
    (∀ r, p.check distance = .ok r → (r.messages = [] ↔ p.WellTyped)) ∧
      (p.Intact → ∃ r, p.check distance = .ok r) := by
  constructor
  · intro r checked
    obtain rfl : Check.program distance p = r := by
      unfold Program.check at checked
      split at checked
      · cases checked
      · exact Except.ok.inj checked
    rw [Check.Result.messages_eq_nil_iff]
    exact Check.reports_program_eq_nil_iff complete distance
  · intro intact
    exact ⟨Check.program distance p, p.check_eq_ok intact.literalsProper distance⟩

/-- The program `let const n ~ 3; var b : boolean in b := n < 4`. -/
def Program.comparison : Program :=
  let at_ (line col : Int) : Pos := ⟨"", line, col⟩
  ⟨at_ 1 1, .letIn (at_ 1 1)
    (.seq (at_ 1 5)
      [.const (at_ 1 5) none none ⟨at_ 1 11, "n", none⟩ (.int (at_ 1 15) none ⟨at_ 1 15, "3"⟩),
        .var (at_ 1 18) none none ⟨at_ 1 22, "b", none⟩ ⟨at_ 1 26, "boolean", none⟩])
    (.assign (at_ 1 37) ⟨at_ 1 37, "b", none⟩
      (.binary (at_ 1 42) none (.name (at_ 1 42) none ⟨at_ 1 42, "n", none⟩) ⟨at_ 1 44, "<", none⟩
        (.int (at_ 1 46) none ⟨at_ 1 46, "4"⟩)))⟩

theorem Program.comparison_wellTyped :
    ∃ r, comparison.check 0 = .ok r ∧ r.messages = [] ∧ comparison.WellTyped := by
  have complete : comparison.Complete := by simp [Program.Complete, Program.all_iff, comparison]
  have checked : comparison.check 0 = .ok (Check.program 0 comparison) := by rfl
  have quiet : (Check.program 0 comparison).messages = [] := by rfl
  obtain ⟨silent, -⟩ := comparison.check_messages_eq_nil_iff_wellTyped 0 complete
  exact ⟨_, checked, quiet, (silent _ checked).1 quiet⟩

end TriangleTam

import TriangleTam.Proofs.Parser.Lenient
import TriangleTam.Proofs.Parser.Limit
import TriangleTam.Proofs.Parser.Terminals

/-!
# The order of reports

A parser goes through the tokens once and never back, and it reports only at the token at the front.
So each report belongs to a token of its own, the tokens are in their order, and none of them is
malformed. In a text each token starts behind the one before it, and so the positions of the reports
go up as well.
-/

namespace TriangleTam

section Positions

theorem Pos.before_iff {p q : Pos} :
    p.before q = true ↔ p.line < q.line ∨ p.line = q.line ∧ p.col < q.col := by
  simp [Pos.before]

theorem Pos.before_trans {p q r : Pos} (first : p.before q = true) (second : q.before r = true) :
    p.before r = true := by
  rw [Pos.before_iff] at *
  omega

theorem Pos.before_after (p : Pos) (newline : Bool) : p.before (p.after newline) = true := by
  rw [Pos.before_iff]
  cases newline with
  | true => exact .inl (Int.lt_succ p.line)
  | false => exact .inr ⟨rfl, Int.lt_succ p.col⟩

namespace Scanner

theorem before_placeAfter {p q : Pos} (first : p.before q = true) (cs : List Char) :
    p.before (placeAfter q cs) = true := by
  induction cs generalizing q with
  | nil => exact first
  | cons c cs ih => exact ih (Pos.before_trans first (Pos.before_after q _))

theorem before_placeAfter_of_ne_nil (p : Pos) {cs : List Char} (some : cs ≠ []) :
    p.before (placeAfter p cs) = true := by
  cases cs with
  | nil => exact absurd rfl some
  | cons c cs => exact before_placeAfter (Pos.before_after p _) cs

/-- What is before a text is before all of its tokens. -/
theorem Layout.before {p q : Pos} {text : List Char} {ts : List Token} (layout : Layout p text ts)
    (first : q.before p = true) : ∀ t ∈ ts, q.before t.pos = true := by
  induction layout with
  | @last p sep t _ _ _ pos =>
    intro u member
    obtain rfl := List.mem_singleton.1 member
    rw [pos]
    exact before_placeAfter first sep
  | @token p sep t rest ts _ _ _ pos _ ih =>
    intro u member
    rcases List.mem_cons.1 member with rfl | member
    · rw [pos]
      exact before_placeAfter first sep
    · exact ih (before_placeAfter first _) u member

/-- Each token of a text is behind those before it. -/
theorem Layout.pairwise_before {p : Pos} {text : List Char} {ts : List Token}
    (layout : Layout p text ts) : ts.Pairwise fun t u => t.pos.before u.pos = true := by
  induction layout with
  | last => exact List.pairwise_singleton _ _
  | @token p sep t rest ts _ _ spelling pos more ih =>
    have spelled : t.spelling.toList ≠ [] := by simpa using spelling
    have behind : t.pos.before (placeAfter p (sep ++ t.spelling.toList)) = true := by
      rw [placeAfter_append, ← pos]
      exact before_placeAfter_of_ne_nil t.pos spelled
    exact List.pairwise_cons.2 ⟨more.before behind, ih⟩

end Scanner

end Positions

namespace Parser

/-- The tokens as a parser takes them: if they do not end with the end of the text, that is added
where the last token is. -/
def withEnd (tokens : List Token) : List Token :=
  match tokens.getLast? with
  | none => [⟨.endOfText, "", Pos.none⟩]
  | some t => if t.isEnd then tokens else tokens ++ [⟨.endOfText, "", t.pos⟩]

section Places

variable {cfg : Config} {P : Kind → Prop} {ts us : List Token} {s s' : State}

/-- The problem is at one of the tokens `ts` or at their end, and that is not malformed. -/
structure Finding.At (cfg : Config) (ts us : List Token) (f : Finding) : Prop where
  suffix : us <:+ ts
  left : f.left = us.length
  formed : (cfg.current us).kind ≠ .malformed
  pos : f.pos = (cfg.current us).pos

/-- The parser is somewhere in the tokens `ts`, and so is all that it has found. -/
structure Within (cfg : Config) (ts : List Token) (s : State) : Prop where
  suffix : s.1 <:+ ts
  found : ∀ f ∈ s.2, ∃ us, f.At cfg ts us

theorem Move.within (move : Move cfg P s s') (within : Within cfg ts s) : Within cfg ts s' := by
  refine ⟨move.suffix.trans within.suffix, ?_⟩
  cases move with
  | take _ => exact within.found
  | report e us log =>
    by_cases muted : cfg.Muted us log
    · rw [report_of_muted muted]
      exact within.found
    · rw [report_of_not_muted muted]
      intro f member
      rcases List.mem_append.1 member with member | member
      · exact within.found f member
      · obtain rfl := List.mem_singleton.1 member
        exact ⟨us, within.suffix, rfl, fun malformed => muted (.inr (.inr malformed)), rfl⟩

theorem Moves.within (moves : Moves cfg P s s') (within : Within cfg ts s) : Within cfg ts s' :=
  moves.keeps (fun _ _ move => move.within) within

variable {tokens : List Token} {lenient : Bool} {limit : Int} {f : Finding}

theorem parse_within (tokens : List Token) (lenient : Bool) (limit : Int) :
    let cfg : Config := ⟨(split tokens).2, lenient, limitOf limit⟩
    ∀ f ∈ (parse tokens lenient limit).findings, ∃ us, f.At cfg (split tokens).1 us := by
  obtain ⟨rest, moves⟩ := parse_moves tokens lenient limit
  have start : Within ⟨(split tokens).2, lenient, limitOf limit⟩ (split tokens).1
      ((split tokens).1, []) := ⟨List.suffix_rfl, by simp⟩
  exact (moves.within start).found

theorem withEnd_eq (tokens : List Token) :
    ∃ e, withEnd tokens = (split tokens).1 ++ [e] ∧ e.kind = .endOfText ∧
      e.pos = (split tokens).2 := by
  rcases tokens.eq_nil_or_concat' with rfl | ⟨ts, t, rfl⟩
  · exact ⟨_, rfl, rfl, rfl⟩
  · by_cases last : t.isEnd = true
    · exact ⟨t, by simp [withEnd, split, last], by simpa [Token.isEnd] using last,
        by simp [split, last]⟩
    · exact ⟨⟨.endOfText, "", t.pos⟩, by simp [withEnd, split, last], rfl, by simp [split, last]⟩

/-- The token at which something is found. -/
theorem Finding.At.designates (at_ : f.At ⟨(split tokens).2, lenient, limitOf limit⟩
    (split tokens).1 us) :
    ∃ t, (withEnd tokens)[(split tokens).1.length - f.left]? = some t ∧ t.kind ≠ .malformed ∧
      f.pos = t.pos := by
  obtain ⟨e, eq, end_, pos⟩ := withEnd_eq tokens
  obtain ⟨before, whole⟩ := at_.suffix
  have index : (split tokens).1.length - f.left = before.length := by
    rw [at_.left, ← whole, List.length_append, Nat.add_sub_cancel]
  rw [index, eq, ← whole, List.append_assoc, List.getElem?_append_right (Nat.le_refl _),
    Nat.sub_self]
  cases us with
  | nil => exact ⟨e, rfl, by simp [end_], at_.pos.trans pos.symm⟩
  | cons u us => exact ⟨u, rfl, at_.formed, at_.pos⟩

end Places

section Order

variable (tokens : List Token) (lenient : Bool) (limit : Int)

theorem findings_descending :
    (parse tokens lenient limit).findings.Pairwise fun f g => g.left < f.left := by
  obtain ⟨rest, moves⟩ := parse_moves tokens lenient limit
  exact List.isChain_iff_pairwise.1 (moves.ordered (ordered_start _)).descending

/-- No token has two reports, and they come in the order of the tokens. -/
theorem reportedAt_pairwise_lt : (reportedAt tokens lenient limit).Pairwise (· < ·) := by
  refine List.pairwise_map.2 ((findings_descending tokens lenient limit).imp_of_mem ?_)
  intro f g found _ lt
  obtain ⟨us, at_⟩ := parse_within tokens lenient limit f found
  have le : us.length ≤ (split tokens).1.length := at_.suffix.length_le
  have left := at_.left
  omega

/-- Each report is at a token that is not malformed. -/
theorem reportedAt_designates :
    List.Forall₂ (fun f i => ∃ t, (withEnd tokens)[i]? = some t ∧ t.kind ≠ .malformed ∧
      f.pos = t.pos) (parse tokens lenient limit).findings (reportedAt tokens lenient limit) := by
  refine List.forall₂_map_right_iff.2 (List.forall₂_same.2 fun f found => ?_)
  obtain ⟨us, at_⟩ := parse_within tokens lenient limit f found
  exact at_.designates

/-- If the tokens go up in the text, so do the reports. -/
theorem findings_pairwise_before {tokens : List Token}
    (places : (withEnd tokens).Pairwise fun t u => t.pos.before u.pos = true) :
    ((parse tokens lenient limit).findings.map (·.pos)).Pairwise fun p q => p.before q = true := by
  refine List.pairwise_map.2 ((findings_descending tokens lenient limit).imp_of_mem ?_)
  intro f g foundF foundG lt
  obtain ⟨us, atF⟩ := parse_within tokens lenient limit f foundF
  obtain ⟨vs, atG⟩ := parse_within tokens lenient limit g foundG
  obtain ⟨t, here, -, posF⟩ := atF.designates
  obtain ⟨u, there, -, posG⟩ := atG.designates
  obtain ⟨boundF, rfl⟩ := List.getElem?_eq_some_iff.1 here
  obtain ⟨boundG, rfl⟩ := List.getElem?_eq_some_iff.1 there
  have le : us.length ≤ (split tokens).1.length := atF.suffix.length_le
  have left := atF.left
  rw [posF, posG]
  exact List.pairwise_iff_getElem.1 places _ _ boundF boundG (by omega)

theorem withEnd_scan (c : Cursor) :
    withEnd (Scanner.tokens (Scanner.scan c).1) = Scanner.tokens (Scanner.scan c).1 := by
  obtain ⟨ts, e, eq, last, -⟩ := exists_tokens_scan c
  simp [eq, withEnd, Token.isEnd, last]

/-- What is reported is what was found, and where the last of it is, that the parser gave up. -/
theorem reports_eq_findings :
    let outcome := parse tokens lenient limit
    (outcome.aborted = false ∧ outcome.reports = outcome.findings.map Finding.report) ∨
      outcome.aborted = true ∧ ∃ found last, outcome.findings = found ++ [last] ∧
        outcome.reports =
          outcome.findings.map Finding.report ++ [⟨last.pos, ParseError.abortMessage⟩] := by
  intro outcome
  cases aborted : outcome.aborted with
  | false => exact .inl ⟨rfl, Outcome.reports_of_not_aborted (by simp [aborted])⟩
  | true =>
    have full : limitOf limit ≤ outcome.findings.length := (aborted_parse_iff limit).1 aborted
    have positive := limitOf_pos limit
    rcases outcome.findings.eq_nil_or_concat' with empty | ⟨found, last, concat⟩
    · rw [empty, List.length_nil] at full
      omega
    · exact .inr ⟨rfl, found, last, concat, Outcome.reports_of_aborted aborted concat⟩

end Order

/-- The tokens at which a parser reports are in their order, each has one report, and none is
malformed. In a text, the positions of the reports go up. Only that the parser gave up is said once
more where the last report is. -/
theorem reports_in_order :
    (∀ (tokens : List Token) (lenient : Bool) (limit : Int),
      let outcome := parse tokens lenient limit
      (reportedAt tokens lenient limit).Pairwise (· < ·) ∧
      List.Forall₂ (fun f i => ∃ t, (withEnd tokens)[i]? = some t ∧ t.kind ≠ .malformed ∧
        f.pos = t.pos) outcome.findings (reportedAt tokens lenient limit) ∧
      ((outcome.aborted = false ∧ outcome.reports = outcome.findings.map Finding.report) ∨
        outcome.aborted = true ∧ ∃ found last, outcome.findings = found ++ [last] ∧
          outcome.reports =
            outcome.findings.map Finding.report ++ [⟨last.pos, ParseError.abortMessage⟩])) ∧
    ∀ (c : Cursor) (lenient : Bool) (limit : Int),
      ((parse (Scanner.tokens (Scanner.scan c).1) lenient limit).findings.map (·.pos)).Pairwise
        fun p q => p.before q = true := by
  refine ⟨fun tokens lenient limit => ⟨reportedAt_pairwise_lt tokens lenient limit,
    reportedAt_designates tokens lenient limit, reports_eq_findings tokens lenient limit⟩, ?_⟩
  intro c lenient limit
  apply findings_pairwise_before
  rw [withEnd_scan]
  exact (Scanner.scan_layout c).pairwise_before

end Parser

end TriangleTam

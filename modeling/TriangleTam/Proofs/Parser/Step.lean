import TriangleTam.Proofs.Parser.Dispatch

/-!
# Steps of the parser

What every step of the parser keeps to, and how steps are put together. A step leaves the last of
the tokens and loses no report; what is said about its value and about the tokens it used holds if
nothing was reported. `E` stands for it holding in any case.
-/

namespace TriangleTam.Parser

/-- What holds of a step of the parser: the tokens that are left are the last of those that were
there, nothing that was reported is lost, and the tokens used and the value are as they should be,
unless something was reported that is not allowed. -/
structure Yields (E : Prop) {α : Type} (Q : List Token → α → Prop) (ts : List Token) (log : Log)
    (value : α) (rest : List Token) (log' : Log) : Prop where
  suffix : rest <:+ ts
  quiet : log' = [] → log = []
  fine : log' = [] ∨ E → ∃ used, ts = used ++ rest ∧ Q used value

variable {cfg : Config} {E : Prop} {α β : Type} {Q : List Token → α → Prop}
  {R : List Token → β → Prop} {ts ts₁ ts₂ : List Token} {log log₁ log₂ : Log} {a : α} {b : β}
  {t : Token}

theorem yields_here (h : Q [] a) : Yields E Q ts log a ts log :=
  ⟨List.suffix_rfl, fun h => h, fun _ => ⟨[], rfl, h⟩⟩

/-- A step behind a token that was already taken. -/
theorem Yields.cons (h : Yields E Q ts log a ts₁ log₁) :
    Yields E (fun us v => ∃ vs, us = t :: vs ∧ Q vs v) (t :: ts) log a ts₁ log₁ where
  suffix := h.suffix.trans (List.suffix_cons _ _)
  quiet := h.quiet
  fine allowed := by
    obtain ⟨used, rfl, fine⟩ := h.fine allowed
    exact ⟨t :: used, rfl, used, rfl, fine⟩

theorem Yields.imp (h : Yields E Q ts log a ts₁ log₁) (f : ∀ used, Q used a → R used b) :
    Yields E R ts log b ts₁ log₁ where
  suffix := h.suffix
  quiet := h.quiet
  fine allowed := by
    obtain ⟨used, split, fine⟩ := h.fine allowed
    exact ⟨used, split, f used fine⟩

/-- One step after another. -/
theorem Yields.trans (first : Yields E Q ts log a ts₁ log₁)
    (second : Yields E R ts₁ log₁ b ts₂ log₂) :
    Yields E (fun us v => ∃ us₁ us₂, us = us₁ ++ us₂ ∧ Q us₁ v.1 ∧ R us₂ v.2) ts log
      (a, b) ts₂ log₂ where
  suffix := second.suffix.trans first.suffix
  quiet h := first.quiet (second.quiet h)
  fine allowed := by
    obtain ⟨us₁, rfl, fine⟩ := first.fine (allowed.imp_left second.quiet)
    obtain ⟨us₂, rfl, fine'⟩ := second.fine allowed
    exact ⟨us₁ ++ us₂, (List.append_assoc _ _ _).symm, us₁, us₂, rfl, fine, fine'⟩

theorem Yields.length_le (h : Yields E Q ts log a ts₁ log₁) : ts₁.length ≤ ts.length :=
  h.suffix.length_le

theorem Yields.forall_mem {P : Token → Prop} (h : Yields E Q ts log a ts₁ log₁)
    (all : ∀ t ∈ ts, P t) : ∀ t ∈ ts₁, P t :=
  fun t member => all t (h.suffix.subset member)

/-- Where something is reported, that is allowed or the report is not lost. -/
theorem report_yields (limit : 0 < cfg.limit) (wellFormed : ∀ t ∈ ts, t.kind = .malformed → E)
    (e : ParseError) (log : Log) :
    Yields E (fun _ _ => E) ts log () (report cfg e ts log).rest (report cfg e ts log).log := by
  simp only [report]
  split
  · next skipped =>
    refine ⟨List.suffix_rfl, fun h => h, ?_⟩
    rintro (rfl | allowed)
    · have empty : cfg.isFull [] = false := by simpa [Config.isFull] using Nat.ne_of_gt limit
      simp only [empty, List.getLast?_nil, Option.any_none, Bool.false_or, beq_iff_eq] at skipped
      cases ts with
      | nil => cases skipped
      | cons t ts => exact ⟨[], rfl, wellFormed t (by simp) skipped⟩
    · exact ⟨[], rfl, allowed⟩
  · split
    · refine ⟨List.nil_suffix, by simp, ?_⟩
      rintro (none | allowed)
      · simp at none
      · exact ⟨ts, by simp, allowed⟩
    · refine ⟨List.suffix_rfl, by simp, ?_⟩
      rintro (none | allowed)
      · simp at none
      · exact ⟨[], rfl, allowed⟩

theorem Outcome.reports_eq_nil_iff (o : Outcome) : o.reports = [] ↔ o.findings = [] := by
  unfold Outcome.reports
  split
  · next last found =>
    have some : o.findings ≠ [] := by
      intro empty
      rw [empty] at found
      cases found
    split
    · simp [some]
    · simp
  · simp

theorem limitOf_pos (wanted : Int) : 0 < limitOf wanted := by
  unfold limitOf defaultLimit
  split
  · decide
  · omega

/-- Parsing tokens with an end of the text behind them. -/
theorem parse_append_end {e : Token} (last : e.kind = .endOfText) (ts : List Token) (lenient : Bool)
    (wanted : Int) :
    parse (ts ++ [e]) lenient wanted =
      let cfg : Config := ⟨e.pos, lenient, limitOf wanted⟩
      let first := command cfg ts []
      let all := leftover cfg first.value first.rest first.log
      ⟨⟨(cfg.current ts).pos, all.value⟩, all.log, cfg.isFull all.log⟩ := by
  have halves : split (ts ++ [e]) = (ts, e.pos) := by simp [split, Token.isEnd, last]
  rw [parse, halves]

end TriangleTam.Parser

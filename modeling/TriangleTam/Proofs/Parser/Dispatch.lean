import TriangleTam.Parser

/-!
# Where commands start

Two definitions say which categories of tokens start a command: the branches of `single`, and
`startsCmd`, by which a parser goes on behind a program that ended too early. They agree
(`single_cons`), so a command is read as `started` wherever `startsCmd` holds.
-/

namespace TriangleTam.Parser

theorem startsCmd_cases {k : Kind} (starts : k.startsCmd = true) :
    k = .identifier ∨ k = .mark .lbrace ∨ k = .keyword .let_ ∨ k = .keyword .if_ ∨
      k = .keyword .ifeither ∨ k = .keyword .while_ ∨ k = .keyword .pass := by
  unfold Kind.startsCmd at starts
  split at starts
  · simp
  · simp
  · simp
  · simp
  · simp
  · simp
  · simp
  · cases starts

variable (cfg : Config)

/-- What is taken behind the token `t` if a command starts with it. -/
def started (t : Token) (ts : List Token) (log : Log) : Parsed Cmd ts :=
  match t.kind with
  | .identifier => assignOrCall cfg t ts log
  | .mark .lbrace => blockCmd cfg t ts log
  | .keyword .let_ => letCmd cfg t ts log
  | .keyword .if_ => ifCmd cfg t ts log
  | .keyword .ifeither => ifEitherCmd cfg t ts log
  | .keyword .while_ => whileCmd cfg t ts log
  | _ => ⟨.skip t.pos true, ts, log, Nat.le.refl⟩

/-- The dispatch takes a command exactly where one starts by its category. -/
theorem single_cons (t : Token) (ts : List Token) (log : Log) :
    single cfg (t :: ts) log =
      if t.kind.startsCmd then (started cfg t ts log).behind t
      else if t.kind.endsCmd then ⟨.skip t.pos false, t :: ts, log, Nat.le_refl _⟩
      else badCmd cfg .noCommand (t :: ts) log := by
  by_cases starts : t.kind.startsCmd = true
  · rw [if_pos starts]
    rcases startsCmd_cases starts with kind | kind | kind | kind | kind | kind | kind
    all_goals
      rw [single, started]
      simp only [kind, Parsed.behind]
  · rw [if_neg starts, single]
    split
    case h_8 => rfl
    all_goals
      next kind => exact absurd (by rw [kind]; rfl) starts

end TriangleTam.Parser

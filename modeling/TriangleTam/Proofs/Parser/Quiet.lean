import TriangleTam.Proofs.Parser.Simulation

/-!
# Commands that are read without a report

A command about which nothing is reported is read in the same way wherever it stands: it does not
matter what was reported before, nor what follows the token behind it.
-/

namespace TriangleTam.Parser

variable {cfg₁ cfg₂ : Config}

/-- The first parser has the tokens `rest` behind those of the second, and they start where these
end, with a semicolon if there are any. -/
structure Continues (cfg₁ cfg₂ : Config) (rest : List Token) : Prop where
  limit : 0 < cfg₁.limit
  lenient : cfg₁.lenient = cfg₂.lenient
  stops : Stops rest
  pos : (cfg₁.current rest).pos = cfg₂.endPos

/-- The first parser has reported nothing, and the second nothing but `log`. -/
def BothQuiet (rest : List Token) (log : Log) (s₁ s₂ : State) : Prop :=
  ∃ us, s₁ = (us ++ rest, []) ∧ s₂ = (us, log)

/-- The first parser has reported something, or has taken the first of the tokens `rest`. -/
def Past (rest : List Token) (s₁ _s₂ : State) : Prop :=
  s₁.2 ≠ [] ∨ s₁.1.length < rest.length

theorem Continues.report {rest : List Token} (goes : Continues cfg₁ cfg₂ rest) (us : List Token)
    (log : Log) (e₁ e₂ : ParseError) :
    let s₁ := (report cfg₁ e₁ (us ++ rest) []).state
    let s₂ := (Parser.report cfg₂ e₂ us log).state
    BothQuiet rest log s₁ s₂ ∨ Past rest s₁ s₂ := by
  by_cases muted : cfg₁.Muted (us ++ rest) []
  · obtain ⟨t, vs, split, malformed⟩ := muted.malformed goes.limit
    cases us with
    | nil =>
      have stops := goes.stops
      rw [show rest = t :: vs from split] at stops
      cases malformed.symm.trans stops
    | cons u us =>
      obtain ⟨rfl, -⟩ := List.cons.inj split
      have muted₂ : cfg₂.Muted (u :: us) log := .inr (.inr malformed)
      rw [report_of_muted muted, report_of_muted muted₂]
      exact .inl ⟨u :: us, rfl, rfl⟩
  · rw [report_of_not_muted muted]
    exact .inr (.inl (by simp))

/-- A parser that reports nothing is in step with one that has reported something before, up to
where the tokens of the second end. -/
def Continues.simulation {rest : List Token} (goes : Continues cfg₁ cfg₂ rest) (log : Log) :
    Simulation cfg₁ cfg₂ where
  Sync := BothQuiet rest log
  Off := Past rest
  front := by
    rintro _ us _ _ ⟨_, ⟨⟩, ⟨⟩⟩
    cases us with
    | nil =>
      refine .ended rfl goes.stops goes.pos ?_
      rintro s us rfl
      exact .inr (Nat.lt_succ_self _)
    | cons t us => exact .same rfl rfl ⟨us, rfl, rfl⟩
  report := by
    rintro _ us _ _ ⟨_, ⟨⟩, ⟨⟩⟩ e
    exact goes.report us _ _ _
  missing := by
    rintro _ us _ _ ⟨_, ⟨⟩, ⟨⟩⟩ kind
    rw [reportMissing, reportMissing, goes.lenient]
    split
    · exact .inl ⟨us, rfl, rfl⟩
    · exact goes.report us _ _ _
  off_moves := by
    rintro s₁ s₁' s₂ s₂' (found | short) moves₁ -
    · exact .inl fun none => found (moves₁.log_eq_nil none)
    · exact .inr (Nat.lt_of_le_of_lt moves₁.length_le short)

/-- A command that is read without a report up to the tokens `rest` is read in the same way without
them, whatever was reported before. -/
theorem Continues.single {rest : List Token} (goes : Continues cfg₁ cfg₂ rest) {us : List Token}
    {c : Cmd} (read : (single cfg₁ (us ++ rest) []).all = (c, rest, [])) (log : Log) :
    (Parser.single cfg₂ us log).all = (c, [], log) := by
  have start : (goes.simulation log).Sync (us ++ rest, []) (us, log) := ⟨us, rfl, rfl⟩
  have agree := (goes.simulation log).single_agree _ _ start
  rw [read] at agree
  rcases agree with ⟨same, vs, same₁, same₂⟩ | found | short
  · obtain rfl : vs = [] := by simpa using congrArg Prod.fst same₁
    exact Prod.ext same.symm same₂
  · exact absurd rfl found
  · exact absurd short (Nat.lt_irrefl _)

/-- A command that is read without a report is read in the same way whatever was reported before. -/
theorem single_of_quiet {cfg : Config} (limit : 0 < cfg.limit) {ts rest : List Token} {c : Cmd}
    (read : (single cfg ts []).all = (c, rest, [])) (log : Log) :
    (single cfg ts log).all = (c, rest, log) := by
  have goes : Continues cfg cfg [] := ⟨limit, rfl, trivial, rfl⟩
  have start : (goes.simulation log).Sync (ts, []) (ts, log) := ⟨ts, by simp, rfl⟩
  have agree := (goes.simulation log).single_agree _ _ start
  rw [read] at agree
  rcases agree with ⟨same, vs, same₁, same₂⟩ | found | short
  · obtain rfl : rest = vs := by simpa using congrArg Prod.fst same₁
    exact Prod.ext same.symm same₂
  · exact absurd rfl found
  · exact absurd short (Nat.not_lt_zero _)

end TriangleTam.Parser

import TriangleTam.Proofs.Parser.Simulation

/-!
# Lenient parsing

A lenient parser does not report missing tokens, and this is all it does in another way. Its reports
are not among those of a strict parser, since a report that is left out no longer stands in the way
of another one at the same token; but the tokens at which it reports are.
-/

namespace TriangleTam.Parser

section Strictness

variable {cfg₁ cfg₂ : Config} {n : Nat} {ts : List Token} {log₁ log₂ : Log}

/-- The first parser is lenient, and the second differs from it in nothing else. -/
structure Loosens (cfg₁ cfg₂ : Config) : Prop where
  endPos : cfg₁.endPos = cfg₂.endPos
  limit : cfg₁.limit = cfg₂.limit
  lenient : cfg₁.lenient = true

/-- The first parser reports at no token at which the second does not. -/
abbrev AtFewer (log₁ log₂ : Log) : Prop :=
  (log₁.map Finding.left).Sublist (log₂.map Finding.left)

theorem AtFewer.length_le (fewer : AtFewer log₁ log₂) : log₁.length ≤ log₂.length := by
  simpa using List.Sublist.length_le fewer

/-- Two parsers at the same tokens, of which the first reported at no token at which the second did
not; the second has not given up. -/
structure Fewer (cfg₂ : Config) (n : Nat) (s₁ s₂ : State) : Prop where
  tokens : s₁.1 = s₂.1
  fewer : AtFewer s₁.2 s₂.2
  ordered : Ordered n s₁
  open_ : ¬ cfg₂.isFull s₂.2 = true

/-- If a parser does not report where another does, that one has a report there already. -/
theorem AtFewer.report (loose : Loosens cfg₁ cfg₂) (fewer : AtFewer log₁ log₂)
    (ordered : Ordered n (ts, log₁)) (open_ : ¬ cfg₂.isFull log₂ = true) (e : ParseError) :
    AtFewer (Parser.report cfg₁ e ts log₁).log (Parser.report cfg₂ e ts log₂).log := by
  by_cases muted₁ : cfg₁.Muted ts log₁
  · rw [report_log_of_muted muted₁]
    exact fewer.trans ((report_log_grows e ts log₂).sublist.map _)
  · rw [report_log_of_not_muted muted₁, AtFewer, List.map_append, List.map_singleton]
    by_cases muted₂ : cfg₂.Muted ts log₂
    · rw [report_log_of_muted muted₂]
      -- The second parser is muted by its last report, which is at this token.
      obtain full | last | malformed := muted₂
      · exact absurd full open_
      · obtain ⟨before, f, rfl⟩ : ∃ before f, log₂ = before ++ [f] := by
          rcases log₂.eq_nil_or_concat' with rfl | found
          · cases last
          · exact found
        have left : f.left = ts.length := by simpa using last
        have fresh := ordered.left_notMem muted₁
        rw [AtFewer, List.map_append, List.map_singleton, left] at fewer
        rw [List.map_append, List.map_singleton, left]
        refine List.Sublist.append ?_ (List.Sublist.refl _)
        refine List.Sublist.of_sublist_append_left ?_ fewer
        intro a member same
        exact fresh (List.mem_singleton.1 same ▸ member)
      · rw [← current_eq loose.endPos] at malformed
        exact absurd (.inr (.inr malformed)) muted₁
    · rw [report_log_of_not_muted muted₂, List.map_append, List.map_singleton]
      exact List.Sublist.append fewer (List.Sublist.refl _)

/-- Two parsers stay in step at a token until the second gives up. -/
theorem Fewer.of_rest (loose : Loosens cfg₁ cfg₂) {s₁ s₂ : State} (ordered : Ordered n s₁)
    (rest₁ : ¬ cfg₁.isFull s₁.2 = true → s₁.1 = ts)
    (rest₂ : ¬ cfg₂.isFull s₂.2 = true → s₂.1 = ts) (fewer : AtFewer s₁.2 s₂.2) :
    Fewer cfg₂ n s₁ s₂ ∨ cfg₂.isFull s₂.2 = true := by
  by_cases full : cfg₂.isFull s₂.2 = true
  · exact .inr full
  · have open₁ : ¬ cfg₁.isFull s₁.2 = true := by
      rw [isFull_iff, loose.limit]
      rw [isFull_iff] at full
      have le := fewer.length_le
      omega
    exact .inl ⟨by rw [rest₁ open₁, rest₂ full], fewer, ordered, full⟩

/-- A lenient parser is in step with a strict one until that gives up. -/
def Loosens.simulation (loose : Loosens cfg₁ cfg₂) (n : Nat) : Simulation cfg₁ cfg₂ where
  Sync := Fewer cfg₂ n
  Off _ s₂ := cfg₂.isFull s₂.2 = true
  front := by
    rintro ts₁ _ log₁ log₂ ⟨rfl, fewer, ordered, open_⟩
    cases ts₁ with
    | nil => exact .ended rfl trivial loose.endPos nofun
    | cons t us =>
      exact .same rfl rfl ⟨rfl, fewer, ordered.suffix (List.suffix_cons t us), open_⟩
  report := by
    rintro ts₁ _ log₁ log₂ ⟨rfl, fewer, ordered, open_⟩ e
    rw [current_eq loose.endPos]
    have moves : Moves cfg₁ Inner (ts₁, log₁) _ := moves_report (e (cfg₂.current ts₁)) ts₁ log₁
    exact Fewer.of_rest loose (moves.ordered ordered) report_rest_of_not_isFull
      report_rest_of_not_isFull (fewer.report loose ordered open_ _)
  missing := by
    rintro ts₁ _ log₁ log₂ ⟨rfl, fewer, ordered, open_⟩ kind
    rw [reportMissing, if_pos loose.lenient, reportMissing]
    split
    · exact .inl ⟨rfl, fewer, ordered, open_⟩
    · refine Fewer.of_rest loose ordered (fun _ => rfl) report_rest_of_not_isFull ?_
      exact fewer.trans ((report_log_grows _ ts₁ log₂).sublist.map _)
  off_moves full _ moves₂ := moves₂.isFull full

end Strictness

section Programs

/-- The indices of the tokens at which a parser reports. The end of the text has the index behind
the last token. -/
def reportedAt (tokens : List Token) (lenient : Bool) (limit : Int) : List Nat :=
  (parse tokens lenient limit).findings.map fun f => (split tokens).1.length - f.left

/-- If a strict parser does not give up, a lenient one makes the same tree and reports at no token
at which the strict one does not. -/
theorem parse_lenient_of_strict (tokens : List Token) (limit : Int)
    (roomy : ((parse tokens false limit).findings.length : Int) < limit) :
    (parse tokens true limit).program = (parse tokens false limit).program ∧
      reportedAt tokens true limit ⊆ reportedAt tokens false limit ∧
        ((parse tokens false limit).reports = [] → (parse tokens true limit).reports = []) := by
  let cfg₁ : Config := ⟨(split tokens).2, true, limitOf limit⟩
  let cfg₂ : Config := ⟨(split tokens).2, false, limitOf limit⟩
  have loose : Loosens cfg₁ cfg₂ := ⟨rfl, rfl, rfl⟩
  let sim := loose.simulation (split tokens).1.length
  have start : sim.Sync ((split tokens).1, []) ((split tokens).1, []) :=
    ⟨rfl, List.Sublist.refl _, ordered_start _, not_isFull_nil (limitOf_pos limit)⟩
  have together : ∀ {ts₁ : List Token} {log₁ log₂ : Log},
      sim.Sync (ts₁, log₁) ([], log₂) → ts₁ = [] := fun sync => sync.tokens
  rcases sim.program_agree together start with ⟨value, sync⟩ | full
  · have fewer : AtFewer (parse tokens true limit).findings (parse tokens false limit).findings :=
      sync.fewer
    refine ⟨congrArg (Program.mk _) value, ?_, fun quiet => ?_⟩
    · have places := (fewer.map fun left => (split tokens).1.length - left).subset
      rw [List.map_map, List.map_map] at places
      exact places
    · rw [Outcome.reports_eq_nil_iff] at quiet ⊢
      rw [quiet] at fewer
      simpa [AtFewer] using fewer
  · have full : limitOf limit ≤ (parse tokens false limit).findings.length := isFull_iff.1 full
    rw [limitOf, if_neg (by omega)] at full
    omega

/-- The tokens of `if x let const y`. -/
def gapTokens : List Token :=
  [⟨.keyword .if_, "if", ⟨"", 1, 1⟩⟩, ⟨.identifier, "x", ⟨"", 1, 4⟩⟩,
    ⟨.keyword .let_, "let", ⟨"", 1, 6⟩⟩, ⟨.keyword .const, "const", ⟨"", 1, 10⟩⟩,
    ⟨.identifier, "y", ⟨"", 1, 16⟩⟩, ⟨.endOfText, "", ⟨"", 1, 17⟩⟩]

theorem gapTokens_lenient :
    reportedAt gapTokens false 10 = [2, 5] ∧ reportedAt gapTokens true 10 = [5] ∧
      ((parse gapTokens false 10).findings.length : Int) < 10 ∧
      (parse gapTokens true 10).program = (parse gapTokens false 10).program ∧
      reportedAt gapTokens true 10 ⊆ reportedAt gapTokens false 10 := by
  have roomy : ((parse gapTokens false 10).findings.length : Int) < 10 := by decide +kernel
  obtain ⟨tree, places, -⟩ := parse_lenient_of_strict gapTokens 10 roomy
  exact ⟨by decide +kernel, by decide +kernel, roomy, tree, places⟩

end Programs

end TriangleTam.Parser

import TriangleTam.Proofs.Parser.Simulation

/-!
# Giving up after too many problems

A parser with a limit finds what one with a larger limit finds, up to the limit. The two go through
the same tokens until the smaller limit is reached; from then on the parser that has given up
reports nothing, whatever it still does, and the other only adds to what it has found.
-/

namespace TriangleTam.Parser

section Limits

variable {cfg₁ cfg₂ : Config} {ts : List Token} {log : Log}

/-- What two parsers that differ in their limits only have in common. -/
structure SameButLimit (cfg₁ cfg₂ : Config) : Prop where
  endPos : cfg₁.endPos = cfg₂.endPos
  lenient : cfg₁.lenient = cfg₂.lenient

/-- Neither parser has given up. -/
structure BothOpen (cfg₁ cfg₂ : Config) (s₁ s₂ : State) : Prop where
  same : s₁ = s₂
  first : ¬ cfg₁.isFull s₁.2 = true
  second : ¬ cfg₂.isFull s₁.2 = true

/-- The first parser has given up, with the first of the reports of the second, or the second has
given up. -/
def OneFull (cfg₁ cfg₂ : Config) (s₁ s₂ : State) : Prop :=
  (cfg₁.isFull s₁.2 = true ∧ s₁.2 <+: s₂.2) ∨ cfg₂.isFull s₂.2 = true

/-- Before a parser gives up, its limit plays no role. -/
theorem SameButLimit.muted_iff (same : SameButLimit cfg₁ cfg₂) (first : ¬ cfg₁.isFull log = true)
    (second : ¬ cfg₂.isFull log = true) : cfg₁.Muted ts log ↔ cfg₂.Muted ts log := by
  simp only [Config.Muted, first, second, current_eq same.endPos]

theorem SameButLimit.report (same : SameButLimit cfg₁ cfg₂) (first : ¬ cfg₁.isFull log = true)
    (second : ¬ cfg₂.isFull log = true) (e : ParseError) :
    let s₁ := (report cfg₁ e ts log).state
    let s₂ := (Parser.report cfg₂ e ts log).state
    BothOpen cfg₁ cfg₂ s₁ s₂ ∨ OneFull cfg₁ cfg₂ s₁ s₂ := by
  by_cases muted : cfg₁.Muted ts log
  · rw [report_of_muted muted, report_of_muted ((same.muted_iff first second).1 muted)]
    exact .inl ⟨rfl, first, second⟩
  · have heard := fun h => muted ((same.muted_iff first second).2 h)
    rw [report_of_not_muted muted, report_of_not_muted heard, current_eq same.endPos]
    dsimp only
    generalize log ++ [⟨ts.length, (cfg₂.current ts).pos, e⟩] = more
    by_cases full₁ : cfg₁.isFull more = true
    · exact .inr (.inl ⟨full₁, List.prefix_rfl⟩)
    · by_cases full₂ : cfg₂.isFull more = true
      · exact .inr (.inr full₂)
      · rw [if_neg full₁, if_neg full₂]
        exact .inl ⟨rfl, full₁, full₂⟩

/-- Two parsers that differ in their limits only are in step until one gives up. -/
def SameButLimit.simulation (same : SameButLimit cfg₁ cfg₂) : Simulation cfg₁ cfg₂ where
  Sync := BothOpen cfg₁ cfg₂
  Off := OneFull cfg₁ cfg₂
  front := by
    rintro ts₁ _ log₁ _ ⟨eq, first, second⟩
    obtain ⟨rfl, rfl⟩ := Prod.mk.inj eq
    cases ts₁ with
    | nil => exact .ended rfl trivial same.endPos nofun
    | cons t us => exact .same rfl rfl ⟨rfl, first, second⟩
  report := by
    rintro ts₁ _ log₁ _ ⟨eq, first, second⟩ e
    obtain ⟨rfl, rfl⟩ := Prod.mk.inj eq
    rw [current_eq same.endPos]
    exact same.report first second _
  missing := by
    rintro ts₁ _ log₁ _ ⟨eq, first, second⟩ kind
    obtain ⟨rfl, rfl⟩ := Prod.mk.inj eq
    rw [reportMissing, reportMissing, same.lenient, current_eq same.endPos]
    split
    · exact .inl ⟨rfl, first, second⟩
    · exact same.report first second _
  off_moves := by
    rintro s₁ s₁' s₂ s₂' (⟨full, start⟩ | full) moves₁ moves₂
    · refine .inl ⟨moves₁.isFull full, ?_⟩
      rw [moves₁.log_eq_of_isFull full]
      exact start.trans moves₂.log_grows
    · exact .inr (moves₂.isFull full)

end Limits

section Programs

variable (tokens : List Token) (lenient : Bool)

theorem length_findings_le (wanted : Int) :
    (parse tokens lenient wanted).findings.length ≤ (split tokens).1.length + 1 := by
  obtain ⟨rest, moves⟩ := parse_moves tokens lenient wanted
  exact (moves.ordered (ordered_start _)).length_le

theorem length_findings_le_limit (wanted : Int) :
    (parse tokens lenient wanted).findings.length ≤ limitOf wanted := by
  obtain ⟨rest, moves⟩ := parse_moves tokens lenient wanted
  exact moves.length_log_le (Nat.zero_le _)

variable {tokens lenient}

/-- With a limit, a parser finds the first of what a parser finds that does not reach its own limit;
and if there is no more than that, it makes the same tree. -/
theorem findings_eq_take {K : Int}
    (roomy : (parse tokens lenient K).findings.length < limitOf K) (k : Int) :
    (parse tokens lenient k).findings = (parse tokens lenient K).findings.take (limitOf k) ∧
      ((parse tokens lenient K).findings.length < limitOf k →
        (parse tokens lenient k).program = (parse tokens lenient K).program) := by
  let cfg₁ : Config := ⟨(split tokens).2, lenient, limitOf k⟩
  let cfg₂ : Config := ⟨(split tokens).2, lenient, limitOf K⟩
  have same : SameButLimit cfg₁ cfg₂ := ⟨rfl, rfl⟩
  have start : same.simulation.Sync ((split tokens).1, []) ((split tokens).1, []) :=
    ⟨rfl, not_isFull_nil (limitOf_pos k), not_isFull_nil (limitOf_pos K)⟩
  have together : ∀ {ts₁ : List Token} {log₁ log₂ : Log},
      same.simulation.Sync (ts₁, log₁) ([], log₂) → ts₁ = [] := by
    rintro ts₁ log₁ log₂ ⟨eq, -, -⟩
    exact (Prod.mk.inj eq).1
  rcases same.simulation.program_agree together start with ⟨value, eq, first, -⟩ | off
  · have eq : (parse tokens lenient k).findings = (parse tokens lenient K).findings :=
      congrArg Prod.snd eq
    have short : (parse tokens lenient k).findings.length < limitOf k :=
      Nat.lt_of_not_le fun full => first (isFull_iff.2 full)
    rw [eq] at short
    refine ⟨?_, fun _ => ?_⟩
    · rw [eq, List.take_of_length_le (Nat.le_of_lt short)]
    · exact congrArg (Program.mk _) value
  · rcases off with ⟨full, start⟩ | full
    · have full : limitOf k ≤ (parse tokens lenient k).findings.length := isFull_iff.1 full
      have length := Nat.le_antisymm (length_findings_le_limit tokens lenient k) full
      have start : (parse tokens lenient k).findings <+: (parse tokens lenient K).findings := start
      refine ⟨?_, fun short => ?_⟩
      · rw [← length]
        exact List.prefix_iff_eq_take.1 start
      · exact absurd (Nat.lt_of_lt_of_le short full) (Nat.not_lt.2 start.length_le)
    · exact absurd (isFull_iff.1 full) (Nat.not_le.2 roomy)

/-- A problem as it is reported. -/
def Finding.report (f : Finding) : Report String := ⟨f.pos, f.error.message⟩

theorem Outcome.reports_of_not_aborted {o : Outcome} (open_ : ¬ o.aborted = true) :
    o.reports = o.findings.map Finding.report := by
  unfold Outcome.reports
  split
  · exact if_neg open_
  · rfl

theorem Outcome.reports_of_aborted {o : Outcome} (aborted : o.aborted = true) {found : Log}
    {last : Finding} (split : o.findings = found ++ [last]) :
    o.reports = o.findings.map Finding.report ++ [⟨last.pos, ParseError.abortMessage⟩] := by
  have end_ : o.findings.getLast? = some last := by rw [split, List.getLast?_concat]
  rw [Outcome.reports, end_]
  exact if_pos aborted

theorem aborted_parse_iff (wanted : Int) : (parse tokens lenient wanted).aborted = true ↔
    limitOf wanted ≤ (parse tokens lenient wanted).findings.length :=
  isFull_iff

theorem limitOf_of_pos {wanted : Int} (positive : 1 ≤ wanted) : limitOf wanted = wanted.toNat :=
  if_neg (by omega)

theorem reports_of_lt_limit {K k : Int}
    (roomy : (parse tokens lenient K).findings.length < limitOf K)
    (lt : (parse tokens lenient K).findings.length < limitOf k) :
    (parse tokens lenient k).reports = (parse tokens lenient K).findings.map Finding.report := by
  have same : (parse tokens lenient k).findings = (parse tokens lenient K).findings := by
    rw [(findings_eq_take roomy k).1, List.take_of_length_le (Nat.le_of_lt lt)]
  rw [Outcome.reports_of_not_aborted, same]
  rw [aborted_parse_iff, same]
  exact Nat.not_le.2 lt

theorem reports_of_limit_le {K k : Int}
    (roomy : (parse tokens lenient K).findings.length < limitOf K)
    (le : limitOf k ≤ (parse tokens lenient K).findings.length) :
    ∃ last, (parse tokens lenient K).findings[limitOf k - 1]? = some last ∧
      (parse tokens lenient k).reports =
        ((parse tokens lenient K).findings.take (limitOf k)).map Finding.report ++
          [⟨last.pos, ParseError.abortMessage⟩] := by
  have taken := (findings_eq_take roomy k).1
  generalize (parse tokens lenient K).findings = found at taken le
  have positive := limitOf_pos k
  have inside : limitOf k - 1 < found.length := by omega
  refine ⟨found[limitOf k - 1], List.getElem?_eq_getElem inside, ?_⟩
  have aborted : (parse tokens lenient k).aborted = true := by
    rw [aborted_parse_iff, taken, List.length_take, Nat.min_eq_left le]
  have split : (parse tokens lenient k).findings =
      found.take (limitOf k - 1) ++ [found[limitOf k - 1]] := by
    rw [taken, List.take_append_getElem inside, Nat.sub_add_cancel positive]
  rw [Outcome.reports_of_aborted aborted split, taken]

/-- There is one list of reports for every limit that is larger than their number. With a limit of
`k`, the first `k` of them are reported, and if there are so many, it is said where the last of them
is that the parser gave up. -/
theorem exists_reports_of_limit (tokens : List Token) (lenient : Bool) :
    ∃ all : List (Report String),
      (∀ K : Int, all.length < K → (parse tokens lenient K).reports = all) ∧
        ∀ k : Int, 1 ≤ k →
          (parse tokens lenient k).findings.length = min k.toNat all.length ∧
          (parse tokens lenient k).findings.head?.map Finding.report = all.head? ∧
          (k ≤ all.length → ∃ last, all[k.toNat - 1]? = some last ∧
            (parse tokens lenient k).reports =
              all.take k.toNat ++ [⟨last.pos, ParseError.abortMessage⟩]) ∧
          (all.length < k → (parse tokens lenient k).reports = all ∧
            ∀ K : Int, all.length < K →
              (parse tokens lenient k).program = (parse tokens lenient K).program) := by
  let room : Int := (split tokens).1.length + 2
  have limit : limitOf room = (split tokens).1.length + 2 := by
    rw [limitOf_of_pos (by omega)]
    omega
  have roomy : (parse tokens lenient room).findings.length < limitOf room := by
    rw [limit]
    exact Nat.lt_succ_of_le (length_findings_le tokens lenient room)
  have large : ∀ {K : Int}, ((parse tokens lenient room).findings.map Finding.report).length < K →
      (parse tokens lenient room).findings.length < limitOf K := by
    intro K lt
    rw [List.length_map] at lt
    rw [limitOf_of_pos (by omega)]
    omega
  refine ⟨(parse tokens lenient room).findings.map Finding.report,
    fun K lt => reports_of_lt_limit roomy (large lt), fun k positive => ?_⟩
  have limit := limitOf_of_pos positive
  have taken := (findings_eq_take roomy k).1
  refine ⟨?_, ?_, fun le => ?_, fun lt => ⟨reports_of_lt_limit roomy (large lt), fun K lt' => ?_⟩⟩
  · rw [taken, List.length_take, List.length_map, limit]
  · rw [taken, List.head?_take, if_neg (Nat.ne_of_gt (limitOf_pos k)), List.head?_map]
  · rw [List.length_map] at le
    obtain ⟨last, found, reports⟩ := reports_of_limit_le roomy (k := k) (by omega)
    refine ⟨last.report, ?_, ?_⟩
    · rw [List.getElem?_map, ← limit, found, Option.map_some]
    · rw [reports, List.map_take, limit]
      rfl
  · rw [(findings_eq_take roomy k).2 (large lt), (findings_eq_take roomy K).2 (large lt')]

end Programs

end TriangleTam.Parser

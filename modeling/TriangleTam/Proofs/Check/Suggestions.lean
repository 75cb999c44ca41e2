import TriangleTam.Check
import TriangleTam.Proofs.Text.EditDistance
import TriangleTam.Proofs.Text.Order

/-!
# The closest name is suggested

The visible names are gone through in the order of their bytes, and a name takes the place of the
one found before only if it is closer. So what is left is the first of the closest names
(`closest_spec`). Main statement: `suggest_nearest`, for an undeclared name the closest word is
suggested that is close enough, and nothing if there is none. The largest limit of all is an
exception: what is too far does not fit into a word any more, and nothing is suggested.
-/

namespace TriangleTam.Check

/-- The name can be suggested for an undeclared one: it is visible, a word, and close enough. -/
structure Candidate {δ : Type} (chain : Chain δ) (name : String) (limit : Int) (c : String) :
    Prop where
  visible : c ∈ Chain.visible chain
  word : isWord c = true
  near : (nameDistance name c : Int) ≤ limit

/-- Of the names that can be suggested, this one is the closest, and the first in the order of bytes
if there are several. -/
structure Nearest {δ : Type} (chain : Chain δ) (name : String) (limit : Int) (best : String) :
    Prop extends Candidate chain name limit best where
  least : ∀ c, Candidate chain name limit c → nameDistance name best ≤ nameDistance name c
  first : ∀ c, Candidate chain name limit c → nameDistance name best = nameDistance name c →
    best = c ∨ Text.bytes best < Text.bytes c

/-- Among `names` this one is the first of the words that are closest, and it is closer than
`bound`. -/
structure Closest (name : String) (bound : Int) (names : List String) (best : String) : Prop where
  mem : best ∈ names
  word : isWord best = true
  near : (nameDistance name best : Int) < bound
  least : ∀ c ∈ names, isWord c = true → nameDistance name best < nameDistance name c ∨
    nameDistance name best = nameDistance name c ∧ best ≤ c

/-- Going through names in order either finds the first of the closest, or nothing that is closer
than the bound. -/
theorem closest_spec (name : String) (bound : Int) (best : Option String) {names : List String}
    (sorted : names.Pairwise (· ≤ ·)) :
    (∃ new, closest name bound best names = some new ∧ Closest name bound names new) ∨
      closest name bound best names = best ∧
        ∀ c ∈ names, isWord c = true → bound ≤ nameDistance name c := by
  induction names generalizing bound best with
  | nil => exact .inr ⟨rfl, by simp⟩
  | cons c rest ih =>
    obtain ⟨before, sorted⟩ := List.pairwise_cons.1 sorted
    by_cases closer : isWord c = true ∧ (nameDistance name c : Int) < bound
    · have step : closest name bound best (c :: rest) =
          closest name (nameDistance name c) (some c) rest := if_pos closer
      rw [step]
      left
      rcases ih (nameDistance name c) (some c) sorted with
        ⟨new, found, spec⟩ | ⟨kept, farther⟩
      · have less := spec.near
        refine ⟨new, found, List.mem_cons_of_mem _ spec.mem, spec.word, by omega, ?_⟩
        refine List.forall_mem_cons.2 ⟨fun _ => .inl (by omega), spec.least⟩
      · refine ⟨c, kept, List.mem_cons_self, closer.1, closer.2, ?_⟩
        refine List.forall_mem_cons.2 ⟨fun _ => .inr ⟨rfl, String.le_refl c⟩, ?_⟩
        intro x member word
        have le := farther x member word
        rcases Nat.lt_or_eq_of_le (Int.ofNat_le.1 le) with less | same
        · exact .inl less
        · exact .inr ⟨same, before x member⟩
    · have step : closest name bound best (c :: rest) = closest name bound best rest :=
        if_neg closer
      have far : isWord c = true → bound ≤ nameDistance name c :=
        fun word => Int.not_lt.1 fun less => closer ⟨word, less⟩
      rw [step]
      rcases ih bound best sorted with ⟨new, found, spec⟩ | ⟨kept, farther⟩
      · have less := spec.near
        refine .inl ⟨new, found, List.mem_cons_of_mem _ spec.mem, spec.word, less, ?_⟩
        refine List.forall_mem_cons.2 ⟨fun word => .inl ?_, spec.least⟩
        have := far word
        omega
      · exact .inr ⟨kept, List.forall_mem_cons.2 ⟨far, farther⟩⟩

section Suggest

variable {δ : Type} {chain : Chain δ} {name : String} {limit : Int}

theorem not_candidate_of_neg (negative : limit < 0) (c : String) :
    ¬ Candidate chain name limit c := by
  intro candidate
  have := candidate.near
  omega

theorem Nearest.unique {a b : String} (left : Nearest chain name limit a)
    (right : Nearest chain name limit b) : a = b := by
  have same : nameDistance name a = nameDistance name b :=
    Nat.le_antisymm (left.least b right.toCandidate) (right.least a left.toCandidate)
  rcases left.first b right.toCandidate same with eq | before
  · exact eq
  rcases right.first a left.toCandidate same.symm with eq | after
  · exact eq.symm
  · exact absurd after (List.lt_asymm before)

/-- What is found first among the visible names is the nearest one. -/
theorem Closest.nearest {best : String}
    (spec : Closest name (limit + 1) ((Chain.visible chain).mergeSort fun a b => decide (a ≤ b))
      best) : Nearest chain name limit best where
  visible := List.mem_mergeSort.1 spec.mem
  word := spec.word
  near := Int.le_of_lt_add_one spec.near
  least c candidate := by
    have compared := spec.least c (List.mem_mergeSort.2 candidate.visible) candidate.word
    rcases compared with less | ⟨same, -⟩
    · exact Nat.le_of_lt less
    · exact Nat.le_of_eq same
  first c candidate same := by
    have compared := spec.least c (List.mem_mergeSort.2 candidate.visible) candidate.word
    rcases compared with less | ⟨-, le⟩
    · exact absurd same (Nat.ne_of_lt less)
    · by_cases eq : best = c
      · exact .inl eq
      · exact .inr (Text.bytes_lt_iff.2 (Std.lt_of_le_of_ne le eq))

/-- The loop that looks for a suggestion starts with the first distance that is too far. -/
theorem suggest_eq {distance : Int} (meant : limit = if distance = 0 then 2 else distance)
    (positive : 0 ≤ limit) : suggest distance chain name = closest name (tooFar limit) none
      ((Chain.visible chain).mergeSort fun a b => decide (a ≤ b)) := by
  simp only [suggest, defaultDistance, ← meant, if_neg (Int.not_lt.2 positive)]

/-- Under the largest limit nothing is suggested, because no distance is smaller than the one that
is too far. -/
theorem suggest_of_maxInt64_le (distance : Int) (chain : Chain δ) (name : String)
    (meant : limit = if distance = 0 then 2 else distance) (largest : Text.maxInt64 ≤ limit) :
    suggest distance chain name = none := by
  have positive : 0 ≤ Text.maxInt64 := by decide
  have bound : tooFar limit = Text.minInt64 := if_neg (Int.not_lt.2 largest)
  rw [suggest_eq meant (Int.le_trans positive largest), bound]
  rcases closest_spec name Text.minInt64 none
    (Text.pairwise_le_mergeSort (Chain.visible chain)) with ⟨best, -, spec⟩ | ⟨kept, -⟩
  · have near := spec.near
    have negative : Text.minInt64 < 0 := by decide
    omega
  · exact kept

/-- Below the largest limit, the nearest name is suggested, or nothing if there is no candidate. -/
theorem suggest_cases (distance : Int) (chain : Chain δ) (name : String)
    (meant : limit = if distance = 0 then 2 else distance) (fits : limit < Text.maxInt64) :
    (∃ best, suggest distance chain name = some best ∧ Nearest chain name limit best) ∨
      suggest distance chain name = none ∧ ∀ c, ¬ Candidate chain name limit c := by
  by_cases negative : limit < 0
  · refine .inr ⟨?_, not_candidate_of_neg negative⟩
    simp only [suggest, defaultDistance, ← meant, negative, if_true]
  · have bound : tooFar limit = limit + 1 := if_pos fits
    rw [suggest_eq meant (Int.not_lt.1 negative), bound]
    rcases closest_spec name (limit + 1) none
      (Text.pairwise_le_mergeSort (Chain.visible chain)) with ⟨best, found, spec⟩ | ⟨kept, farther⟩
    · exact .inl ⟨best, found, spec.nearest⟩
    · refine .inr ⟨kept, fun c candidate => ?_⟩
      have := farther c (List.mem_mergeSort.2 candidate.visible) candidate.word
      have := candidate.near
      omega

/-- The best suggestion. With a limit of 2 unless another is given, nothing is suggested if the
limit is negative, or if no word that is visible lies within that many edits of the name, upper and
lower case being the same; the largest 64-bit number as limit has the same effect. Otherwise the word
with the least number of edits is suggested, and the first in the order of bytes if there are
several. -/
theorem suggest_nearest (distance : Int) (chain : Chain δ) (name : String) :
    let limit : Int := if distance = 0 then 2 else distance
    (suggest distance chain name = none ↔
      limit < 0 ∨ Text.maxInt64 ≤ limit ∨ ∀ c, ¬ Candidate chain name limit c) ∧
    (∀ best, suggest distance chain name = some best ↔
      limit < Text.maxInt64 ∧ Nearest chain name limit best) ∧
    ∀ a b, IsLeast {n | Text.Turns n (Text.lower a) (Text.lower b)} (nameDistance a b) := by
  intro limit
  refine (and_assoc.1 ⟨?_, fun a b => Text.isLeast_editDistance _ _⟩)
  by_cases fits : limit < Text.maxInt64
  · rcases suggest_cases distance chain name rfl fits with ⟨best, found, nearest⟩ | ⟨found, none⟩
    · rw [found]
      refine ⟨⟨nofun, ?_⟩, fun other => ⟨?_, fun spec => congrArg some (nearest.unique spec.2)⟩⟩
      · rintro (negative | largest | none)
        · exact absurd nearest.toCandidate (not_candidate_of_neg negative best)
        · exact absurd fits (Int.not_lt.2 largest)
        · exact absurd nearest.toCandidate (none best)
      · rintro ⟨⟩
        exact ⟨fits, nearest⟩
    · rw [found]
      exact ⟨⟨fun _ => .inr (.inr none), fun _ => rfl⟩,
        fun other => ⟨nofun, fun spec => absurd spec.2.toCandidate (none other)⟩⟩
  · have largest : Text.maxInt64 ≤ limit := Int.not_lt.1 fits
    rw [suggest_of_maxInt64_le distance chain name rfl largest]
    exact ⟨⟨fun _ => .inr (.inl largest), fun _ => rfl⟩,
      fun other => ⟨nofun, fun spec => absurd spec.1 fits⟩⟩

end Suggest

/-- Under the largest limit the name that is one letter short is not corrected. -/
theorem suggest_putin_eq_none :
    Candidate [rootFrame] "putin" Text.maxInt64 "putint" ∧
      suggest Text.maxInt64 [rootFrame] "putin" = none := by
  refine ⟨⟨?_, by decide +kernel, ?_⟩, ?_⟩
  · have bound : "putint" ∈ rootFrame.bindings.map (·.1) := by decide +kernel
    rw [Chain.mem_visible_iff]
    exact ⟨rootFrame, List.mem_singleton_self _, List.mem_mergeSort.2 bound⟩
  · have one : nameDistance "putin" "putint" = 1 := by decide +kernel
    rw [one]
    decide
  · exact suggest_of_maxInt64_le Text.maxInt64 _ _ rfl (Int.le_refl _)

end TriangleTam.Check

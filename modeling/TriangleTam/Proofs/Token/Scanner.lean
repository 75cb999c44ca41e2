import TriangleTam.Token.Scanner
import TriangleTam.Tree.Value

/-!
# Tokens of a text

The tokens of a text are malformed exactly where something is reported, its identifiers have names,
and its literals are spelled like ones.
-/

namespace TriangleTam

open Text (Glyph)

/-- A token that can be made into a node. It may be malformed only if error nodes are allowed. -/
structure Token.Proper (E : Prop) (t : Token) : Prop where
  wellFormed : t.kind = .malformed → E
  named : t.kind = .identifier → t.spelling ≠ ""
  character : t.kind = .character → (Literal.mk t.pos t.spelling).charValue?.isSome = true

theorem Token.Proper.imp {E F : Prop} {t : Token} (h : t.Proper E) (f : E → F) : t.Proper F :=
  ⟨fun kind => f (h.wellFormed kind), h.named, h.character⟩

namespace Scanner

theorem ofWord_eq (word : String) :
    Kind.ofWord word = .identifier ∨ ∃ w, Kind.ofWord word = .keyword w := by
  unfold Kind.ofWord
  split
  · next w _ => exact .inr ⟨w, rfl⟩
  · exact .inl rfl

/-- What the rest of the compiler relies on about a lexeme: it is malformed exactly if it has a
fault, it is never the end of the text, and a character literal is one character between two
quotes. -/
structure Lexeme.Sound (l : Lexeme) : Prop where
  fault : l.kind = .malformed ↔ l.fault.isSome = true
  notEnd : l.kind ≠ .endOfText
  character : l.kind = .character → ∃ c, l.taken = [.char '\'', .char c, .char '\'']

theorem Lexeme.sound_bad (fault : LexicalError) (taken rest : List Glyph) :
    (Lexeme.bad fault taken rest).Sound :=
  ⟨iff_of_true rfl rfl, nofun, nofun⟩

theorem Lexeme.sound_good {kind : Kind} (malformed : kind ≠ .malformed) (notEnd : kind ≠ .endOfText)
    (character : kind ≠ .character) (taken rest : List Glyph) :
    (Lexeme.good kind taken rest).Sound :=
  ⟨iff_of_false malformed nofun, notEnd, fun h => absurd h character⟩

theorem nameLexeme_sound (text : List Glyph) : (nameLexeme text).Sound := by
  simp only [nameLexeme]
  split
  · exact Lexeme.sound_bad _ _ _
  · rcases ofWord_eq (Glyph.spell (splitName text).whole) with kind | ⟨w, kind⟩
    · rw [kind]
      exact Lexeme.sound_good (by decide) (by decide) (by decide) _ _
    · rw [kind]
      exact Lexeme.sound_good (by simp) (by simp) (by simp) _ _

theorem integerLexeme_sound (text : List Glyph) : (integerLexeme text).Sound := by
  simp only [integerLexeme]
  split
  · exact Lexeme.sound_bad _ _ _
  · exact Lexeme.sound_good (by decide) (by decide) (by decide) _ _

theorem charLexeme_sound (text : List Glyph) : (charLexeme (.char '\'') text).Sound := by
  unfold charLexeme
  split
  · exact Lexeme.sound_bad _ _ _
  · exact Lexeme.sound_bad _ _ _
  · exact Lexeme.sound_bad _ _ _
  · next c _ => exact ⟨iff_of_false nofun nofun, nofun, fun _ => ⟨c, rfl⟩⟩
  · exact Lexeme.sound_bad _ _ _

theorem markLexeme_sound (c : Char) (rest : List Glyph) : (markLexeme c rest).Sound := by
  unfold markLexeme
  split
  · split
    · exact Lexeme.sound_good (by decide) (by decide) (by decide) _ _
    · exact Lexeme.sound_good (by decide) (by decide) (by decide) _ _
  · split
    · exact Lexeme.sound_good (by simp) (by simp) (by simp) _ _
    · exact Lexeme.sound_bad _ _ _

theorem lexeme_sound (g : Glyph) (rest : List Glyph) : (lexeme g rest).Sound := by
  cases g with
  | invalid => exact Lexeme.sound_bad _ _ _
  | char c =>
    simp only [lexeme]
    split
    · exact nameLexeme_sound _
    · split
      · exact integerLexeme_sound _
      · split
        · exact Lexeme.sound_good (by decide) (by decide) (by decide) _ _
        · split
          · next quote =>
            subst quote
            exact charLexeme_sound rest
          · exact markLexeme_sound c rest

theorem nameLexeme_kind (text : List Glyph) : (nameLexeme text).kind ≠ .integer := by
  simp only [nameLexeme]
  split
  · simp [Lexeme.bad]
  · rcases ofWord_eq (Glyph.spell (splitName text).whole) with kind | ⟨w, kind⟩
    · simp [Lexeme.good, kind]
    · simp [Lexeme.good, kind]

theorem charLexeme_kind (q : Glyph) (text : List Glyph) : (charLexeme q text).kind ≠ .integer := by
  unfold charLexeme
  split <;> simp [Lexeme.good, Lexeme.bad]

theorem markLexeme_kind (c : Char) (rest : List Glyph) : (markLexeme c rest).kind ≠ .integer := by
  unfold markLexeme
  split
  · split <;> simp [Lexeme.good]
  · split <;> simp [Lexeme.good, Lexeme.bad]

theorem integerLexeme_digits {text : List Glyph} (kind : (integerLexeme text).kind = .integer) :
    ∀ g ∈ (integerLexeme text).taken, g.all isDigit = true := by
  rw [integerLexeme_taken]
  simp only [integerLexeme] at kind
  split at kind
  · cases kind
  · next none =>
    intro g member
    have either := List.all_takeWhile (p := fun g : Glyph => g.all isLetterOrDigit) (l := text)
    have either := List.all_eq_true.1 either g member
    have letter := List.any_eq_false.1 (by simpa using none) g member
    cases g with
    | char c =>
      have letter : ¬ Text.isLetter c = true := letter
      have either : (Text.isLetter c || isDigit c) = true := either
      simpa [letter, Glyph.all] using either
    | invalid => cases either

/-- An integer literal is made of digits. -/
theorem lexeme_digits {g : Glyph} {rest : List Glyph} (kind : (lexeme g rest).kind = .integer) :
    ∀ g' ∈ (lexeme g rest).taken, g'.all isDigit = true := by
  cases g with
  | invalid => cases kind
  | char c =>
    simp only [lexeme] at kind ⊢
    split at kind
    · exact absurd kind (nameLexeme_kind _)
    · next noLetter =>
      split at kind
      · next digit =>
        rw [if_neg noLetter, if_pos digit]
        exact integerLexeme_digits kind
      · split at kind
        · cases kind
        · split at kind
          · exact absurd kind (charLexeme_kind _ _)
          · exact absurd kind (markLexeme_kind _ _)

theorem isOperator_cases {c : Char} (operator : isOperator c = true) :
    c = '+' ∨ c = '-' ∨ c = '*' ∨ c = '/' ∨ c = '<' ∨ c = '>' ∨ c = '=' ∨ c = '\\' := by
  simpa [isOperator] using operator

/-- An operator is one character. -/
theorem lexeme_operator {g : Glyph} {rest : List Glyph} (kind : (lexeme g rest).kind = .operator) :
    ∃ c, isOperator c = true ∧ (lexeme g rest).taken = [.char c] := by
  cases g with
  | invalid => cases kind
  | char c =>
    by_cases operator : isOperator c = true
    · have other : ¬ Text.isLetter c = true ∧ ¬ isDigit c = true := by
        rcases isOperator_cases operator with rfl | rfl | rfl | rfl | rfl | rfl | rfl | rfl <;>
          decide +kernel
      obtain ⟨noLetter, noDigit⟩ := other
      refine ⟨c, operator, ?_⟩
      simp [lexeme, noLetter, noDigit, operator, Lexeme.good]
    · simp only [lexeme, operator] at kind
      split at kind
      · simp only [nameLexeme] at kind
        split at kind
        · cases kind
        · rcases ofWord_eq (Glyph.spell (splitName (.char c :: rest)).whole) with word | ⟨w, word⟩
          · simp [Lexeme.good, word] at kind
          · simp [Lexeme.good, word] at kind
      · split at kind
        · simp only [integerLexeme] at kind
          split at kind <;> cases kind
        · simp only [Bool.false_eq_true, if_false] at kind
          split at kind
          · unfold charLexeme at kind
            split at kind <;> cases kind
          · unfold markLexeme at kind
            split at kind
            · split at kind <;> cases kind
            · split at kind <;> cases kind

theorem spell_ne_empty {glyphs : List Glyph} (h : glyphs ≠ []) : Glyph.spell glyphs ≠ "" := by
  intro empty
  have empty := congrArg String.toList empty
  simp [Glyph.spell, h] at empty

theorem next_proper (c : Cursor) : (next c).1.token.Proper ((next c).1.fault.isSome = true) := by
  simp only [next]
  split
  · refine ⟨?_, ?_, ?_⟩ <;>
      · intro kind
        cases kind
  · next g rest _ =>
    have sound := lexeme_sound g rest
    refine ⟨sound.fault.1, fun _ => spell_ne_empty (lexeme_taken_ne_nil g rest), ?_⟩
    intro kind
    obtain ⟨d, taken⟩ := sound.character kind
    simp [taken, Literal.charValue?, Glyph.spell]

/-- What holds of the next token from wherever a cursor stands holds of all tokens of a text. -/
theorem scan_forall {P : Scanned → Prop} (one : ∀ c, P (next c).1) (c : Cursor) :
    ∀ s ∈ (scan c).1, P s := by
  fun_induction scan c with
  | case1 c found last =>
    intro s member
    rw [List.mem_singleton.1 member]
    exact one c
  | case2 c found more rest ih =>
    intro s member
    rcases List.mem_cons.1 member with rfl | member
    · exact one c
    · exact ih s member

/-- Every token of a text can be made into a node, and is malformed only if it has a fault. -/
theorem scan_proper (c : Cursor) :
    ∀ s ∈ (scan c).1, s.token.Proper (s.fault.isSome = true) :=
  scan_forall next_proper c

theorem tokens_proper (c : Cursor) : ∀ t ∈ tokens (scan c).1, t.Proper True := by
  intro t member
  obtain ⟨s, found, rfl⟩ := List.mem_map.1 member
  exact (scan_proper c s found).imp fun _ => trivial

/-- If no fault is reported, no token is malformed. -/
theorem tokens_proper_of_reports {c : Cursor} (quiet : reports (scan c).1 = []) :
    ∀ t ∈ tokens (scan c).1, t.Proper False := by
  intro t member
  obtain ⟨s, found, rfl⟩ := List.mem_map.1 member
  refine (scan_proper c s found).imp fun fault => ?_
  have none := List.filterMap_eq_nil_iff.1 quiet s found
  rw [Option.map_eq_none_iff] at none
  rw [none] at fault
  cases fault

/-- An integer literal of a text is spelled with digits. -/
theorem scan_digits (c : Cursor) : ∀ s ∈ (scan c).1, s.token.kind = .integer →
    ∀ d ∈ s.token.spelling.toList, isDigit d = true := by
  refine scan_forall (fun c kind d member => ?_) c
  simp only [next] at kind member
  split at kind
  · cases kind
  · next g rest here =>
    rw [here] at member
    obtain ⟨g', taken, rfl⟩ : ∃ g' ∈ (lexeme g rest).taken, g'.toChar = d := by
      simpa [Glyph.spell] using member
    have digit := lexeme_digits kind g' taken
    cases g' with
    | char c => exact digit
    | invalid => cases digit

/-- An operator of a text is spelled with one of the characters of operators. -/
theorem scan_operator (c : Cursor) : ∀ s ∈ (scan c).1, s.token.kind = .operator →
    ∃ d, isOperator d = true ∧ s.token.spelling = String.singleton d := by
  refine scan_forall (fun c kind => ?_) c
  simp only [next] at kind ⊢
  split at kind
  · cases kind
  · next g rest here =>
    obtain ⟨d, operator, taken⟩ := lexeme_operator kind
    refine ⟨d, operator, ?_⟩
    simp [taken, Glyph.spell, Glyph.toChar]

end Scanner

end TriangleTam

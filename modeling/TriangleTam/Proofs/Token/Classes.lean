import TriangleTam.Proofs.Token.Lines

/-!
# Classes of lexemes

The rules by which the first characters of a text are one lexeme: a name or a numeral goes as far as
it can, an odd number of three properties makes a name malformed, and everything else is one
character, an assignment sign or a character between quotes. `Classified` states them without the
scanner, `classified_iff` says that a lexeme is what they allow and nothing else is, and
`next_classified` says so of the token that is found from any place in a text on.
-/

namespace TriangleTam.Scanner

open Text (Glyph)

/-- The longest of the texts of a form that stand at the front of `text`. -/
structure Longest (Form : List Glyph → Prop) (text w : List Glyph) : Prop where
  front : w <+: text
  form : Form w
  longest : ∀ w', w' <+: text → Form w' → w'.length ≤ w.length

/-- Letters and digits, at least one. -/
def IsRun (w : List Glyph) : Prop := w ≠ [] ∧ ∀ g ∈ w, g.all isLetterOrDigit = true

/-- Letters and digits, at least one, then underscores, then letters and digits again. -/
def IsName (w : List Glyph) : Prop :=
  ∃ head bars tail, w = head ++ bars ++ tail ∧ IsRun head ∧ (∀ g ∈ bars, g = .char '_') ∧
    ∀ g ∈ tail, g.all isLetterOrDigit = true

/-- How many of these hold of a name: there is more than one underscore in it, a letter or digit
stands behind an underscore, and there is an upper-case letter anywhere. -/
def oddities (w : List Glyph) : Nat :=
  (decide (1 < w.count (.char '_'))).toNat +
    ((w.dropWhile (!·.isChar '_')).any (·.all isLetterOrDigit)).toNat +
    (w.any (·.all Text.isUpper)).toNat

/-- The characters that mean something by themselves, apart from operators. -/
def signs : List Char := [':', ';', '~', '(', ')', '\x7b', '\x7d', '\'']

/-- At the front of a text stands a lexeme of this category. -/
inductive Classified : List Glyph → Kind → List Glyph → Prop where
  | malformedName {c rest w} (letter : Text.isLetter c = true)
      (longest : Longest IsName (.char c :: rest) w) (odd : oddities w % 2 = 1) :
      Classified (.char c :: rest) .malformed w
  | keyword {c rest w k} (letter : Text.isLetter c = true)
      (longest : Longest IsName (.char c :: rest) w) (even : oddities w % 2 = 0)
      (reserved : Glyph.spell w = k.spelling) : Classified (.char c :: rest) (.keyword k) w
  | identifier {c rest w} (letter : Text.isLetter c = true)
      (longest : Longest IsName (.char c :: rest) w) (even : oddities w % 2 = 0)
      (free : ∀ k : Keyword, Glyph.spell w ≠ k.spelling) :
      Classified (.char c :: rest) .identifier w
  | integer {c rest w} (digit : isDigit c = true) (longest : Longest IsRun (.char c :: rest) w)
      (digits : ∀ g ∈ w, g.all Text.isLetter = false) : Classified (.char c :: rest) .integer w
  | malformedInteger {c rest w} (digit : isDigit c = true)
      (longest : Longest IsRun (.char c :: rest) w) (letter : ∃ g ∈ w, g.all Text.isLetter = true) :
      Classified (.char c :: rest) .malformed w
  | operator {c rest} (operator : isOperator c = true) :
      Classified (.char c :: rest) .operator [.char c]
  | becomes {rest} :
      Classified (.char ':' :: .char '=' :: rest) (.mark .becomes) [.char ':', .char '=']
  | colon {rest} (alone : rest.head? ≠ some (.char '=')) :
      Classified (.char ':' :: rest) (.mark .colon) [.char ':']
  | mark {m c rest} (other : m ≠ .colon) (spelled : m.spelling = String.singleton c) :
      Classified (.char c :: rest) (.mark m) [.char c]
  | character {c rest} : Classified (.char '\'' :: .char c :: .char '\'' :: rest) .character
      [.char '\'', .char c, .char '\'']
  /-- A quote at the end of the text. -/
  | openQuote : Classified [.char '\''] .malformed [.char '\'']
  | unclosed {c rest} (missing : rest.head? ≠ some (.char '\'')) :
      Classified (.char '\'' :: .char c :: rest) .malformed [.char '\'', .char c]
  | undecodableQuoted {rest} : Classified (.char '\'' :: .invalid :: .char '\'' :: rest) .malformed
      [.char '\'', .invalid, .char '\'']
  | undecodableUnclosed {rest} (missing : rest.head? ≠ some (.char '\'')) :
      Classified (.char '\'' :: .invalid :: rest) .malformed [.char '\'', .invalid]
  | undecodable {rest} : Classified (.invalid :: rest) .malformed [.invalid]
  /-- A character that starts nothing. -/
  | unexpected {c rest} (noLetter : Text.isLetter c = false) (noDigit : isDigit c = false)
      (noOperator : isOperator c = false) (noSign : c ∉ signs) :
      Classified (.char c :: rest) .malformed [.char c]

section Runs

variable {Form : List Glyph → Prop} {text w w' : List Glyph}

theorem Longest.unique (first : Longest Form text w) (second : Longest Form text w') : w = w' := by
  have le := second.longest w first.front first.form
  have ge := first.longest w' second.front second.form
  exact (List.prefix_of_prefix_length_le first.front second.front le).eq_of_length
    (Nat.le_antisymm le ge)

theorem longest_run {c : Char} (first : isLetterOrDigit c = true) (rest : List Glyph) :
    Longest IsRun (.char c :: rest) ((Glyph.char c :: rest).takeWhile (·.all isLetterOrDigit)) where
  front := List.takeWhile_prefix _
  form := by
    refine ⟨?_, fun g member => List.mem_takeWhile_imp member⟩
    simp [Glyph.all, first]
  longest := by
    rintro w' ⟨behind, eq⟩ ⟨-, run⟩
    rw [← eq, List.takeWhile_append_of_pos run, List.length_append]
    exact Nat.le_add_right _ _

/-- A name at the front of a text is the beginning of the one that is taken from it. -/
theorem prefix_splitName (named : IsName w) (behind : List Glyph) :
    w <+: (splitName (w ++ behind)).whole := by
  obtain ⟨head, bars, tail, rfl, ⟨-, heads⟩, barred, tails⟩ := named
  have bar : (Glyph.char '_').isChar '_' = true := rfl
  cases bars with
  | nil =>
    -- Without underscores all of it is taken with the first letters and digits.
    have letters : ∀ g ∈ head ++ [] ++ tail, g.all isLetterOrDigit = true := by
      intro g member
      rw [List.append_nil] at member
      exact (List.mem_append.1 member).elim (heads g) (tails g)
    simp only [splitName, NameParts.whole]
    rw [List.takeWhile_append_of_pos letters]
    exact ((List.prefix_append _ _).trans (List.prefix_append _ _)).trans (List.prefix_append _ _)
  | cons b bars =>
    obtain rfl : b = .char '_' := barred b List.mem_cons_self
    have first : Stops (·.all isLetterOrDigit) (.char '_' :: bars ++ (tail ++ behind)) := by
      rintro g member
      obtain rfl : Glyph.char '_' = g := by simpa using member
      decide +kernel
    have text : head ++ .char '_' :: bars ++ tail ++ behind =
        head ++ (.char '_' :: bars ++ (tail ++ behind)) := by simp
    have split := takeWhile_append_of_stops heads first
    have run : ∀ g ∈ Glyph.char '_' :: bars, g.isChar '_' = true := by
      intro g member
      rw [barred g member, bar]
    simp only [splitName, NameParts.whole, text, split.1, split.2]
    cases tail with
    | nil =>
      rw [List.takeWhile_append_of_pos run, List.append_nil, ← List.append_assoc head,
        List.append_assoc (_ ++ _)]
      exact List.prefix_append _ _
    | cons t tail =>
      have second : Stops (·.isChar '_') (t :: tail ++ behind) := by
        rintro g member
        obtain rfl : t = g := by simpa using member
        exact isChar_bar_of_letterOrDigit (tails t List.mem_cons_self)
      have split' := takeWhile_append_of_stops run second
      rw [split'.1, split'.2, List.takeWhile_append_of_pos tails, ← List.append_assoc]
      exact List.prefix_append _ _

theorem NameParts.Proper.eq_bar {q : NameParts} (proper : q.Proper) :
    ∀ g ∈ q.bars, g = .char '_' := by
  intro g member
  have bar := proper.bars g member
  cases g with
  | invalid => cases bar
  | char d => simpa [Glyph.isChar] using bar

theorem longest_name {c : Char} (letter : Text.isLetter c = true) (rest : List Glyph) :
    Longest IsName (.char c :: rest) (splitName (.char c :: rest)).whole where
  front := by
    have split := nameLexeme_split (.char c :: rest)
    rw [nameLexeme_taken] at split
    exact ⟨_, split⟩
  form := by
    have proper := splitName_proper (.char c :: rest)
    refine ⟨_, _, _, rfl, ⟨?_, proper.head⟩, proper.eq_bar, proper.tail⟩
    simp [splitName, Glyph.all, isLetterOrDigit, letter]
  longest := by
    rintro w' ⟨behind, eq⟩ named
    rw [← eq]
    exact (prefix_splitName named behind).length_le

end Runs

section Names

variable {q : NameParts}

theorem ne_bar_of_letterOrDigit {g : Glyph} (letter : g.all isLetterOrDigit = true) :
    g ≠ .char '_' := by
  rintro rfl
  have none := isChar_bar_of_letterOrDigit letter
  cases none

/-- The underscores of a name are those between its two runs. -/
theorem NameParts.Proper.count_bar (proper : q.Proper) :
    q.whole.count (.char '_') = q.bars.length := by
  have head : q.head.count (.char '_') = 0 :=
    List.count_eq_zero.2 fun member => ne_bar_of_letterOrDigit (proper.head _ member) rfl
  have tail : q.tail.count (.char '_') = 0 :=
    List.count_eq_zero.2 fun member => ne_bar_of_letterOrDigit (proper.tail _ member) rfl
  have bars : q.bars.count (.char '_') = q.bars.length :=
    List.count_eq_length.2 fun g member => (proper.eq_bar g member).symm
  rw [NameParts.whole, List.count_append, List.count_append, head, tail, bars, Nat.zero_add,
    Nat.add_zero]

/-- A letter or digit stands behind an underscore exactly if there is a second run. -/
theorem NameParts.Proper.any_behind (proper : q.Proper) :
    (q.whole.dropWhile (!·.isChar '_')).any (·.all isLetterOrDigit) = !q.tail.isEmpty := by
  have heads : ∀ g ∈ q.head, (!g.isChar '_') = true := by
    intro g member
    rw [isChar_bar_of_letterOrDigit (proper.head g member)]
    rfl
  rw [NameParts.whole, List.append_assoc, List.dropWhile_append_of_pos heads]
  cases bars : q.bars with
  | nil =>
    rw [proper.tail_eq_nil bars]
    rfl
  | cons b more =>
    have barred := proper.eq_bar
    rw [bars] at barred
    obtain rfl : b = .char '_' := barred b List.mem_cons_self
    have none : (Glyph.char '_' :: more).any (·.all isLetterOrDigit) = false := by
      refine List.any_eq_false.2 fun g member => ?_
      rw [barred g member]
      decide +kernel
    have stop : (Glyph.char '_' :: more ++ q.tail).dropWhile (!·.isChar '_') =
        .char '_' :: more ++ q.tail := rfl
    rw [stop, List.any_append, none, Bool.false_or]
    cases tail : q.tail with
    | nil => rfl
    | cons t tail' =>
      have letter := proper.tail t (by simp [tail])
      simp [letter]

/-- A name is malformed exactly if an odd number of the three properties hold. -/
theorem NameParts.Proper.isMalformed_iff (proper : q.Proper) :
    q.isMalformed = true ↔ oddities q.whole % 2 = 1 := by
  rw [NameParts.isMalformed, oddities, proper.count_bar, proper.any_behind]
  cases decide (1 < q.bars.length) <;> cases q.tail.isEmpty <;>
    cases q.whole.any (·.all Text.isUpper) <;> decide

theorem ofWord_spelling (k : Keyword) : Kind.ofWord k.spelling = .keyword k := by
  cases k <;> rfl

theorem ofWord_of_free {word : String} (free : ∀ k : Keyword, word ≠ k.spelling) :
    Kind.ofWord word = .identifier := by
  have none : Keyword.ofSpelling? word = none := by
    refine List.find?_eq_none.2 fun k _ => ?_
    simpa using (free k).symm
  rw [Kind.ofWord, none]

/-- The longest name at the front of a text is taken, and its properties decide what it is. -/
theorem nameLexeme_of_longest {c : Char} {rest w : List Glyph} (letter : Text.isLetter c = true)
    (longest : Longest IsName (.char c :: rest) w) :
    (nameLexeme (.char c :: rest)).taken = w ∧
      (nameLexeme (.char c :: rest)).kind =
        if oddities w % 2 = 1 then .malformed else Kind.ofWord (Glyph.spell w) := by
  obtain rfl := longest.unique (longest_name letter rest)
  refine ⟨nameLexeme_taken _, ?_⟩
  simp only [nameLexeme, (splitName_proper (.char c :: rest)).isMalformed_iff]
  split
  · rfl
  · rfl

/-- A name is what the rules for names allow. -/
theorem nameLexeme_classified {c : Char} (letter : Text.isLetter c = true) (rest : List Glyph) :
    Classified (.char c :: rest) (nameLexeme (.char c :: rest)).kind
      (nameLexeme (.char c :: rest)).taken := by
  have longest := longest_name letter rest
  obtain ⟨taken, kind⟩ := nameLexeme_of_longest letter longest
  rw [taken, kind]
  split
  · next odd => exact .malformedName letter longest odd
  · next fine =>
    have even : oddities (splitName (.char c :: rest)).whole % 2 = 0 := by omega
    by_cases reserved : ∃ k : Keyword, Glyph.spell (splitName (.char c :: rest)).whole = k.spelling
    · obtain ⟨k, word⟩ := reserved
      have kind : Kind.ofWord (Glyph.spell (splitName (.char c :: rest)).whole) = .keyword k := by
        rw [word, ofWord_spelling]
      rw [kind]
      exact .keyword letter longest even word
    · have free := not_exists.1 reserved
      rw [ofWord_of_free free]
      exact .identifier letter longest even free

end Names

section Lexemes

/-- The longest run at the front of a text is taken, and letters in it decide what it is. -/
theorem integerLexeme_of_longest {c : Char} {rest w : List Glyph} (digit : isDigit c = true)
    (longest : Longest IsRun (.char c :: rest) w) :
    (integerLexeme (.char c :: rest)).taken = w ∧
      (integerLexeme (.char c :: rest)).kind =
        if w.any (·.all Text.isLetter) then .malformed else .integer := by
  have first : isLetterOrDigit c = true := by simp [isLetterOrDigit, digit]
  obtain rfl := longest.unique (longest_run first rest)
  refine ⟨integerLexeme_taken _, ?_⟩
  simp only [integerLexeme]
  split
  · rfl
  · rfl

theorem integerLexeme_classified {c : Char} (digit : isDigit c = true) (rest : List Glyph) :
    Classified (.char c :: rest) (integerLexeme (.char c :: rest)).kind
      (integerLexeme (.char c :: rest)).taken := by
  have first : isLetterOrDigit c = true := by simp [isLetterOrDigit, digit]
  have longest := longest_run first rest
  obtain ⟨taken, kind⟩ := integerLexeme_of_longest digit longest
  rw [taken, kind]
  split
  · next some => exact .malformedInteger digit longest (List.any_eq_true.1 some)
  · next none => exact .integer digit longest (by simpa using none)

theorem charLexeme_classified (rest : List Glyph) :
    Classified (.char '\'' :: rest) (charLexeme (.char '\'') rest).kind
      (charLexeme (.char '\'') rest).taken := by
  unfold charLexeme
  split
  · exact .openQuote
  · exact .undecodableQuoted
  · next rest open_ =>
    refine .undecodableUnclosed fun closed => ?_
    obtain ⟨more, rfl⟩ := List.head?_eq_some_iff.1 closed
    exact open_ more rfl
  · exact .character
  · next c rest open_ =>
    refine .unclosed fun closed => ?_
    obtain ⟨more, rfl⟩ := List.head?_eq_some_iff.1 closed
    exact open_ more rfl

/-- What a mark of one character is spelled with. -/
theorem sign_of_spelling {m : Mark} {c : Char} (spelled : m.spelling = String.singleton c) :
    c ∈ signs ∧ c ≠ '\'' ∧ (m ≠ .colon → c ≠ ':' ∧ markOfChar? c = some m) := by
  have chars : m.spelling.toList = [c] := by rw [spelled, String.toList_singleton]
  cases m with
  | becomes => simp [Mark.spelling] at chars
  | colon | semicolon | is | lparen | rparen | lbrace | rbrace =>
    obtain rfl : _ = c := (List.cons.inj chars).1
    decide

theorem markOfChar?_eq_some_iff {c : Char} {m : Mark} :
    markOfChar? c = some m ↔ m ≠ .colon ∧ m.spelling = String.singleton c := by
  constructor
  · intro found
    have spelled := List.find?_some found
    have member := List.mem_of_find?_eq_some found
    refine ⟨?_, by simpa using spelled⟩
    rintro rfl
    exact absurd member (by decide)
  · rintro ⟨other, spelled⟩
    exact ((sign_of_spelling spelled).2.2 other).2

/-- The signs other than the colon and the quote are marks of one character. -/
theorem notMem_signs_iff {c : Char} : c ∉ signs ↔ c ≠ ':' ∧ c ≠ '\'' ∧ markOfChar? c = none := by
  constructor
  · intro noSign
    refine ⟨?_, ?_, ?_⟩
    · rintro rfl
      exact noSign (by decide)
    · rintro rfl
      exact noSign (by decide)
    · refine Option.eq_none_iff_forall_ne_some.2 fun m found => noSign ?_
      exact (sign_of_spelling (markOfChar?_eq_some_iff.1 found).2).1
  · rintro ⟨noColon, noQuote, none⟩ sign
    simp only [signs, List.mem_cons, List.not_mem_nil, or_false] at sign
    rcases sign with rfl | rfl | rfl | rfl | rfl | rfl | rfl | rfl
    · exact noColon rfl
    all_goals first | exact noQuote rfl | cases none

theorem markLexeme_classified {c : Char} (noLetter : Text.isLetter c = false)
    (noDigit : isDigit c = false) (noOperator : isOperator c = false) (noQuote : c ≠ '\'')
    (rest : List Glyph) :
    Classified (.char c :: rest) (markLexeme c rest).kind (markLexeme c rest).taken := by
  unfold markLexeme
  split
  · next colon =>
    subst colon
    split
    · exact .becomes
    · next alone =>
      refine .colon fun equals => ?_
      obtain ⟨more, rfl⟩ := List.head?_eq_some_iff.1 equals
      exact alone more rfl
  · next noColon =>
    split
    · next m found =>
      obtain ⟨other, spelled⟩ := markOfChar?_eq_some_iff.1 found
      exact .mark other spelled
    · next none =>
      exact .unexpected noLetter noDigit noOperator
        (notMem_signs_iff.2 ⟨noColon, noQuote, none⟩)

/-- A lexeme is what the rules allow. -/
theorem lexeme_classified (g : Glyph) (rest : List Glyph) :
    Classified (g :: rest) (lexeme g rest).kind (lexeme g rest).taken := by
  cases g with
  | invalid => exact .undecodable
  | char c =>
    simp only [lexeme]
    split
    · next letter => exact nameLexeme_classified letter rest
    · next noLetter =>
      split
      · next digit => exact integerLexeme_classified digit rest
      · next noDigit =>
        split
        · next operator => exact .operator operator
        · next noOperator =>
          split
          · next quote =>
            subst quote
            exact charLexeme_classified rest
          · next noQuote =>
            exact markLexeme_classified (by simpa using noLetter) (by simpa using noDigit)
              (by simpa using noOperator) noQuote rest

end Lexemes

section Rules

variable {c : Char}

theorem not_letter_of_isDigit (digit : isDigit c = true) : Text.isLetter c = false := by
  have bounds : '0' ≤ c ∧ c ≤ '9' := by simpa [isDigit] using digit
  have lower : 48 ≤ c.toNat := bounds.1
  have upper : c.toNat ≤ 57 := bounds.2
  have none : ∀ n < 58, 48 ≤ n → Text.member Text.letterRuns n = false := by decide +kernel
  exact none c.toNat (by omega) lower

/-- The operators and the signs are neither letters nor digits. -/
theorem not_letter_of_mem (member : c ∈ ['+', '-', '*', '/', '<', '>', '=', '\\'] ++ signs) :
    Text.isLetter c = false ∧ isDigit c = false := by
  have none : (['+', '-', '*', '/', '<', '>', '=', '\\'] ++ signs).all
      (fun c => !Text.isLetter c && !isDigit c) = true := by decide +kernel
  simpa using List.all_eq_true.1 none c member

theorem not_operator_of_sign (sign : c ∈ signs) : isOperator c = false := by
  have none : signs.all (fun c => !isOperator c) = true := by decide
  simpa using List.all_eq_true.1 none c sign

theorem lexeme_of_letter (letter : Text.isLetter c = true) (rest : List Glyph) :
    lexeme (.char c) rest = nameLexeme (.char c :: rest) := by
  simp [lexeme, letter]

theorem lexeme_of_digit (digit : isDigit c = true) (rest : List Glyph) :
    lexeme (.char c) rest = integerLexeme (.char c :: rest) := by
  simp [lexeme, not_letter_of_isDigit digit, digit]

theorem lexeme_of_operator (operator : isOperator c = true) (rest : List Glyph) :
    lexeme (.char c) rest = .good .operator [.char c] rest := by
  have member : c ∈ ['+', '-', '*', '/', '<', '>', '=', '\\'] := by
    simpa [isOperator] using operator
  obtain ⟨noLetter, noDigit⟩ := not_letter_of_mem (List.mem_append_left _ member)
  simp [lexeme, noLetter, noDigit, operator]

theorem lexeme_quote (rest : List Glyph) :
    lexeme (.char '\'') rest = charLexeme (.char '\'') rest := by
  have sign : '\'' ∈ signs := by decide
  obtain ⟨noLetter, noDigit⟩ := not_letter_of_mem (List.mem_append_right _ sign)
  simp [lexeme, noLetter, noDigit, not_operator_of_sign sign]

theorem lexeme_of_sign (sign : c ∈ signs) (noQuote : c ≠ '\'') (rest : List Glyph) :
    lexeme (.char c) rest = markLexeme c rest := by
  obtain ⟨noLetter, noDigit⟩ := not_letter_of_mem (List.mem_append_right _ sign)
  simp [lexeme, noLetter, noDigit, not_operator_of_sign sign, noQuote]

theorem charLexeme_unclosed (c : Char) {rest : List Glyph}
    (missing : rest.head? ≠ some (.char '\'')) : charLexeme (.char '\'') (.char c :: rest) =
      .bad (.unclosedChar (Glyph.spell [.char '\'', .char c])) [.char '\'', .char c] rest := by
  unfold charLexeme
  split
  · next h => cases h
  · next h => cases h
  · next h => cases h
  · next h =>
    cases h
    exact absurd rfl missing
  · next h =>
    cases h
    rfl

theorem charLexeme_undecodable {rest : List Glyph} (missing : rest.head? ≠ some (.char '\'')) :
    charLexeme (.char '\'') (.invalid :: rest) =
      .bad .encodingInChar [.char '\'', .invalid] rest := by
  unfold charLexeme
  split
  · next h => cases h
  · next h =>
    cases h
    exact absurd rfl missing
  · next h =>
    cases h
    rfl
  · next h => cases h
  · next h => cases h

/-- What the rules allow is the lexeme. -/
theorem Classified.eq_lexeme {g : Glyph} {rest w : List Glyph} {kind : Kind}
    (classified : Classified (g :: rest) kind w) :
    (lexeme g rest).kind = kind ∧ (lexeme g rest).taken = w := by
  cases classified with
  | malformedName letter longest odd =>
    obtain ⟨taken, kind⟩ := nameLexeme_of_longest letter longest
    rw [lexeme_of_letter letter, kind, if_pos odd]
    exact ⟨rfl, taken⟩
  | keyword letter longest even reserved =>
    obtain ⟨taken, kind⟩ := nameLexeme_of_longest letter longest
    rw [lexeme_of_letter letter, kind, if_neg (by omega), reserved, ofWord_spelling]
    exact ⟨rfl, taken⟩
  | identifier letter longest even free =>
    obtain ⟨taken, kind⟩ := nameLexeme_of_longest letter longest
    rw [lexeme_of_letter letter, kind, if_neg (by omega), ofWord_of_free free]
    exact ⟨rfl, taken⟩
  | integer digit longest digits =>
    obtain ⟨taken, kind⟩ := integerLexeme_of_longest digit longest
    rw [lexeme_of_digit digit, kind, if_neg (by simpa using digits)]
    exact ⟨rfl, taken⟩
  | malformedInteger digit longest letter =>
    obtain ⟨taken, kind⟩ := integerLexeme_of_longest digit longest
    rw [lexeme_of_digit digit, kind, if_pos (List.any_eq_true.2 letter)]
    exact ⟨rfl, taken⟩
  | operator operator =>
    rw [lexeme_of_operator operator]
    exact ⟨rfl, rfl⟩
  | becomes =>
    rw [lexeme_of_sign (by decide) (by decide)]
    exact ⟨rfl, rfl⟩
  | colon alone =>
    rw [lexeme_of_sign (by decide) (by decide)]
    simp only [markLexeme, if_true]
    split
    · exact absurd rfl alone
    · exact ⟨rfl, rfl⟩
  | mark other spelled =>
    obtain ⟨sign, noQuote, alone⟩ := sign_of_spelling spelled
    obtain ⟨noColon, found⟩ := alone other
    rw [lexeme_of_sign sign noQuote]
    simp only [markLexeme, if_neg noColon, found]
    exact ⟨rfl, rfl⟩
  | character =>
    rw [lexeme_quote]
    exact ⟨rfl, rfl⟩
  | openQuote =>
    rw [lexeme_quote]
    exact ⟨rfl, rfl⟩
  | unclosed missing =>
    rw [lexeme_quote, charLexeme_unclosed _ missing]
    exact ⟨rfl, rfl⟩
  | undecodableQuoted =>
    rw [lexeme_quote]
    exact ⟨rfl, rfl⟩
  | undecodableUnclosed missing =>
    rw [lexeme_quote, charLexeme_undecodable missing]
    exact ⟨rfl, rfl⟩
  | undecodable => exact ⟨rfl, rfl⟩
  | unexpected noLetter noDigit noOperator noSign =>
    obtain ⟨noColon, noQuote, none⟩ := notMem_signs_iff.1 noSign
    simp only [lexeme, noLetter, noDigit, noOperator, noQuote, markLexeme, noColon, none,
      Bool.false_eq_true, if_false]
    exact ⟨rfl, rfl⟩

/-- What a lexeme is and what it takes is what the rules allow, and they allow nothing else. -/
theorem classified_iff {g : Glyph} {rest w : List Glyph} {kind : Kind} :
    Classified (g :: rest) kind w ↔ (lexeme g rest).kind = kind ∧ (lexeme g rest).taken = w := by
  refine ⟨Classified.eq_lexeme, ?_⟩
  rintro ⟨rfl, rfl⟩
  exact lexeme_classified g rest

end Rules

/-- From any place in a text on, the separators that stand there are skipped. At the end of the text
behind them the end is found. Otherwise what is taken is the one lexeme that the rules allow at the
front of the text behind them, and its category is the one they give. -/
theorem next_classified (c : Cursor) :
    ∃ sep text, c.text = sep ++ text ∧ Separator (text = []) (sep.map Glyph.toChar) ∧
      (∀ g ∈ text.head?, g.isChar '!' = false ∧ g.all isBlank = false) ∧
      ((text = [] ∧ (next c).1.token.kind = .endOfText ∧ (next c).1.token.spelling = "" ∧
          (next c).2.text = []) ∨
        ∃ w, text = w ++ (next c).2.text ∧ (next c).1.token.spelling = Glyph.spell w ∧
          ∀ kind w', Classified text kind w' ↔ (next c).1.token.kind = kind ∧ w = w') := by
  obtain ⟨sep, split, -, separator⟩ := skipSeparators_spec false c.pos c.text
  refine ⟨sep, (skipSeparators false c.pos c.text).text, split, separator, ?_, ?_⟩
  · intro g head
    obtain ⟨rest, here⟩ := List.head?_eq_some_iff.1 head
    exact skipSeparators_head here
  · obtain ⟨pos, here, found⟩ | ⟨g, rest, pos, here, found⟩ := next_cases c
    · rw [here, found]
      exact .inl ⟨rfl, rfl, rfl, rfl⟩
    · rw [here, found]
      exact .inr ⟨_, (lexeme_split g rest).symm, rfl, fun _ _ => classified_iff⟩

end TriangleTam.Scanner

import Mathlib.Data.List.TakeWhile
import TriangleTam.Proofs.Token.Lossless

/-!
# Tokens spaced differently

A well-formed token is found again if it is written with a blank, a comment or nothing behind it:
`lexeme_append`. So the spellings of the tokens of a text, written with blanks and comments between
them, are scanned to the same tokens at other positions: `tokens_spaced`.
-/

namespace TriangleTam.Scanner

open Text (Glyph)

/-- Blanks and comments with their line ends, at least one of them. -/
inductive Gap : List UInt8 → Prop where
  | blank {b} (blank : b ∈ [0x20, 0x09, 0x0A, 0x0D]) : Gap [b]
  | comment {line} (oneLine : 0x0A ∉ line) : Gap (0x21 :: line ++ [0x0A])
  | append {g h} (first : Gap g) (second : Gap h) : Gap (g ++ h)

/-- The spellings are written one after the other, with a gap between each two. -/
inductive Spaced : List String → List UInt8 → Prop where
  | nil : Spaced [] []
  | last (s : String) : Spaced [s] (Glyph.encode s.toList)
  | cons {s t more gap rest} (apart : Gap gap) (later : Spaced (t :: more) rest) :
      Spaced (s :: t :: more) (Glyph.encode s.toList ++ (gap ++ rest))

section Runs

/-- The first glyph of a text, if there is one, does not have the property. -/
def Stops (p : Glyph → Bool) (text : List Glyph) : Prop := ∀ g ∈ text.head?, p g = false

/-- Glyphs with a property are all that is taken from a text that goes on without it. -/
theorem takeWhile_append_of_stops {p : Glyph → Bool} {run rest : List Glyph}
    (all : ∀ g ∈ run, p g = true) (stops : Stops p rest) :
    (run ++ rest).takeWhile p = run ∧ (run ++ rest).dropWhile p = rest := by
  rw [List.takeWhile_append_of_pos all, List.dropWhile_append_of_pos all]
  cases rest with
  | nil => simp
  | cons g rest =>
    have none : p g = false := stops g rfl
    simp [none]

theorem stops_dropWhile (p : Glyph → Bool) (text : List Glyph) : Stops p (text.dropWhile p) := by
  intro g first
  induction text with
  | nil => cases first
  | cons h text ih =>
    rw [List.dropWhile_cons] at first
    split at first
    · exact ih first
    · next none =>
      obtain rfl : h = g := by simpa using first
      simpa using none

/-- The glyphs that blanks and comments start with. -/
def separators : List Glyph := [.char ' ', .char '\t', .char '\n', .char '\r', .char '!']

/-- A text that is empty or starts with a blank or a comment. -/
def Ends (text : List Glyph) : Prop := ∀ g ∈ text.head?, g ∈ separators

theorem Ends.stops {text : List Glyph} (ends : Ends text) {p : Glyph → Bool}
    (none : ∀ g ∈ separators, p g = false) : Stops p text :=
  fun g first => none g (ends g first)

theorem letterOrDigit_separators : ∀ g ∈ separators, g.all isLetterOrDigit = false := by
  decide +kernel

end Runs

section Lexemes

/-- The parts of a name are made of what they should be made of, and nothing stands behind
underscores that are not there. -/
structure NameParts.Proper (q : NameParts) : Prop where
  head : ∀ g ∈ q.head, g.all isLetterOrDigit = true
  bars : ∀ g ∈ q.bars, g.isChar '_' = true
  tail : ∀ g ∈ q.tail, g.all isLetterOrDigit = true
  tail_eq_nil : q.bars = [] → q.tail = []

theorem splitName_proper (text : List Glyph) : (splitName text).Proper where
  head _ member := List.mem_takeWhile_imp member
  bars _ member := List.mem_takeWhile_imp member
  tail _ member := List.mem_takeWhile_imp member
  tail_eq_nil none := by
    let behind := text.dropWhile (·.all isLetterOrDigit)
    have none : behind.takeWhile (·.isChar '_') = [] := none
    have same : behind.dropWhile (·.isChar '_') = behind := by
      have := List.takeWhile_append_dropWhile (p := (·.isChar '_')) (l := behind)
      rwa [none] at this
    show (behind.dropWhile (·.isChar '_')).takeWhile (·.all isLetterOrDigit) = []
    rw [same]
    have stops := stops_dropWhile (·.all isLetterOrDigit) text
    exact (takeWhile_append_of_stops (List.forall_mem_nil _) stops).1

theorem isChar_bar_of_letterOrDigit {g : Glyph} (letter : g.all isLetterOrDigit = true) :
    g.isChar '_' = false := by
  cases g with
  | invalid => rfl
  | char c =>
    by_cases bar : c = '_'
    · subst bar
      exact absurd letter (by decide +kernel)
    · simpa [Glyph.isChar] using bar

/-- The first character decides how a lexeme goes on. -/
theorem lexeme_char_cases (c : Char) :
    (∀ rest, lexeme (.char c) rest = nameLexeme (.char c :: rest)) ∨
      (∀ rest, lexeme (.char c) rest = integerLexeme (.char c :: rest)) ∨
      (∀ rest, lexeme (.char c) rest = .good .operator [.char c] rest) ∨
      (∀ rest, lexeme (.char c) rest = charLexeme (.char c) rest) ∨
      ∀ rest, lexeme (.char c) rest = markLexeme c rest := by
  by_cases letter : Text.isLetter c = true
  · exact .inl fun rest => by simp [lexeme, letter]
  by_cases digit : isDigit c = true
  · exact .inr (.inl fun rest => by simp [lexeme, letter, digit])
  by_cases operator : isOperator c = true
  · exact .inr (.inr (.inl fun rest => by simp [lexeme, letter, digit, operator]))
  by_cases quote : c = '\''
  · subst quote
    exact .inr (.inr (.inr (.inl fun rest => by simp [lexeme, letter, digit, operator])))
  · exact .inr (.inr (.inr (.inr fun rest => by simp [lexeme, letter, digit, operator, quote])))

variable {rest' : List Glyph} (ends : Ends rest')
include ends

/-- A name is found again in front of a blank or a comment. -/
theorem NameParts.Proper.splitName_append {q : NameParts} (proper : q.Proper) :
    splitName (q.whole ++ rest') = { q with rest := rest' } := by
  obtain ⟨head, bars, tail, rest⟩ := q
  obtain ⟨heads, barred, tails, none⟩ := proper
  dsimp only at heads barred tails none
  have third := takeWhile_append_of_stops tails (ends.stops letterOrDigit_separators)
  have second : (bars ++ (tail ++ rest')).takeWhile (·.isChar '_') = bars ∧
      (bars ++ (tail ++ rest')).dropWhile (·.isChar '_') = tail ++ rest' := by
    refine takeWhile_append_of_stops barred fun g first => ?_
    cases tail with
    | nil => exact ends.stops (p := (·.isChar '_')) (by decide) g first
    | cons t more =>
      obtain rfl : t = g := by simpa using first
      exact isChar_bar_of_letterOrDigit (tails t (by simp))
  have first : (head ++ (bars ++ (tail ++ rest'))).takeWhile (·.all isLetterOrDigit) = head ∧
      (head ++ (bars ++ (tail ++ rest'))).dropWhile (·.all isLetterOrDigit) =
        bars ++ (tail ++ rest') := by
    refine takeWhile_append_of_stops heads fun g first => ?_
    cases bars with
    | nil =>
      rw [none rfl] at first
      exact ends.stops letterOrDigit_separators g first
    | cons b more =>
      obtain rfl : b = g := by simpa using first
      have bar := barred b (by simp)
      cases letter : b.all isLetterOrDigit with
      | false => rfl
      | true =>
        rw [isChar_bar_of_letterOrDigit letter] at bar
        cases bar
  have whole : (NameParts.mk head bars tail rest).whole ++ rest' =
      head ++ (bars ++ (tail ++ rest')) := by simp [NameParts.whole]
  rw [whole, splitName, first.1, first.2, second.1, second.2, third.1, third.2]

theorem nameLexeme_append (text : List Glyph) :
    nameLexeme ((nameLexeme text).taken ++ rest') = { nameLexeme text with rest := rest' } := by
  have again := (splitName_proper text).splitName_append ends
  rw [nameLexeme_taken]
  simp only [nameLexeme, again]
  have same : NameParts.isMalformed { splitName text with rest := rest' } =
      (splitName text).isMalformed := rfl
  rw [same]
  split <;> rfl

theorem integerLexeme_append (text : List Glyph) :
    integerLexeme ((integerLexeme text).taken ++ rest') =
      { integerLexeme text with rest := rest' } := by
  rw [integerLexeme_taken]
  have again := takeWhile_append_of_stops (p := (·.all isLetterOrDigit))
    (fun g (member : g ∈ text.takeWhile _) => List.mem_takeWhile_imp member)
    (ends.stops letterOrDigit_separators)
  simp only [integerLexeme, again.1, again.2]
  split <;> rfl

theorem markLexeme_append {c : Char} {rest more : List Glyph}
    (taken : (markLexeme c rest).taken = .char c :: more) :
    markLexeme c (more ++ rest') = { markLexeme c rest with rest := rest' } := by
  by_cases colon : c = ':'
  · subst colon
    simp only [markLexeme, if_true] at taken ⊢
    split at taken
    · obtain rfl : [Glyph.char '='] = more := by simpa [Lexeme.good] using taken
      rfl
    · obtain rfl : [] = more := by simpa [Lexeme.good] using taken
      simp only [List.nil_append]
      split
      · exact absurd (ends _ rfl) (by decide)
      · rfl
  · simp only [markLexeme, colon, if_false] at taken ⊢
    split at taken
    · obtain rfl : [] = more := by simpa [Lexeme.good] using taken
      rfl
    · obtain rfl : [] = more := by simpa [Lexeme.bad] using taken
      rfl

omit ends in
theorem charLexeme_append {q : Glyph} {rest more : List Glyph}
    (formed : (charLexeme q rest).kind ≠ .malformed)
    (taken : (charLexeme q rest).taken = q :: more) :
    charLexeme q (more ++ rest') = { charLexeme q rest with rest := rest' } := by
  unfold charLexeme at formed taken
  split at formed
  · exact absurd rfl formed
  · exact absurd rfl formed
  · exact absurd rfl formed
  · next c rest =>
    obtain rfl : [Glyph.char c, .char '\''] = more := by simpa [Lexeme.good] using taken
    rfl
  · exact absurd rfl formed

/-- A well-formed lexeme is found again if a blank, a comment or nothing follows. -/
theorem lexeme_append {g : Glyph} {rest more : List Glyph}
    (formed : (lexeme g rest).kind ≠ .malformed) (taken : (lexeme g rest).taken = g :: more) :
    lexeme g (more ++ rest') = { lexeme g rest with rest := rest' } := by
  cases g with
  | invalid => exact absurd rfl formed
  | char c =>
    rcases lexeme_char_cases c with here | here | here | here | here
    · rw [here] at taken ⊢
      rw [here, ← List.cons_append, ← taken]
      exact nameLexeme_append ends _
    · rw [here] at taken ⊢
      rw [here, ← List.cons_append, ← taken]
      exact integerLexeme_append ends _
    · rw [here] at taken ⊢
      obtain rfl : [] = more := by simpa [Lexeme.good] using taken
      rw [here]
      rfl
    · rw [here] at formed taken ⊢
      rw [here]
      exact charLexeme_append formed taken
    · rw [here] at taken ⊢
      rw [here]
      exact markLexeme_append ends taken

omit ends in
/-- A well-formed lexeme has no undecodable byte in it. -/
theorem map_char_spell {g : Glyph} {rest : List Glyph}
    (formed : (lexeme g rest).kind ≠ .malformed) :
    (Glyph.spell (lexeme g rest).taken).toList.map .char = (lexeme g rest).taken := by
  have char : ∀ {p : Char → Bool} {g : Glyph}, g.all p = true → Glyph.char g.toChar = g := by
    intro p g all
    cases g with
    | invalid => cases all
    | char c => rfl
  have all : ∀ g' ∈ (lexeme g rest).taken, Glyph.char g'.toChar = g' := by
    cases g with
    | invalid => exact absurd rfl formed
    | char c =>
      rcases lexeme_char_cases c with here | here | here | here | here
      · rw [here, nameLexeme_taken]
        have proper := splitName_proper (.char c :: rest)
        intro g' member
        simp only [NameParts.whole, List.mem_append] at member
        rcases member with (member | member) | member
        · exact char (proper.head g' member)
        · have bar := proper.bars g' member
          cases g' with
          | invalid => cases bar
          | char d => rfl
        · exact char (proper.tail g' member)
      · rw [here, integerLexeme_taken]
        exact fun g' member => char (List.mem_takeWhile_imp member)
      · simp [here, Lexeme.good, Glyph.toChar]
      · rw [here] at formed ⊢
        unfold charLexeme at formed ⊢
        split at formed
        · exact absurd rfl formed
        · exact absurd rfl formed
        · exact absurd rfl formed
        · simp [Lexeme.good, Glyph.toChar]
        · exact absurd rfl formed
      · rw [here]
        unfold markLexeme
        split
        · split <;> simp [Lexeme.good, Glyph.toChar]
        · split <;> simp [Lexeme.good, Lexeme.bad, Glyph.toChar]
  have same : (lexeme g rest).taken.map (Glyph.char ∘ Glyph.toChar) = (lexeme g rest).taken :=
    (List.map_congr_left all).trans (List.map_id _)
  simpa [Glyph.spell] using same

end Lexemes

section Gaps

/-- Glyphs that make no difference before a token. -/
def Skipped (gs : List Glyph) : Prop :=
  ∀ p text, ∃ q, skipSeparators false p (gs ++ text) = skipSeparators false q text

theorem Skipped.append {gs hs : List Glyph} (first : Skipped gs) (second : Skipped hs) :
    Skipped (gs ++ hs) := by
  intro p text
  obtain ⟨q, skip⟩ := first p (hs ++ text)
  obtain ⟨q', skip'⟩ := second q text
  exact ⟨q', by rw [List.append_assoc, skip, skip']⟩

/-- A comment ends at the end of its line. -/
theorem skipSeparators_comment {line : List Glyph} (oneLine : .char '\n' ∉ line) (p : Pos)
    (text : List Glyph) :
    ∃ q, skipSeparators true p (line ++ .char '\n' :: text) = skipSeparators false q text := by
  induction line generalizing p with
  | nil => exact ⟨_, rfl⟩
  | cons g line ih =>
    have inside : g.isChar '\n' = false := by
      cases g with
      | invalid => rfl
      | char c =>
        have other : c ≠ '\n' := fun newline => oneLine (by simp [newline])
        simpa [Glyph.isChar] using other
    obtain ⟨q, skip⟩ := ih (fun later => oneLine (List.mem_cons_of_mem _ later)) (p.after false)
    refine ⟨q, ?_⟩
    rw [List.cons_append, skipSeparators, if_pos rfl, inside]
    exact skip

theorem skipped_blank {c : Char} (blank : isBlank c = true) : Skipped [.char c] := by
  intro p text
  have other : (Glyph.char c).isChar '!' = false := by
    cases mark : (Glyph.char c).isChar '!' with
    | false => rfl
    | true =>
      obtain rfl : c = '!' := by simpa [Glyph.isChar] using mark
      cases blank
  refine ⟨p.after ((Glyph.char c).isChar '\n'), ?_⟩
  rw [List.singleton_append, skipSeparators, if_neg (by simp), if_neg (by simp [other]),
    if_pos (show (Glyph.char c).all isBlank = true from blank)]

/-- What a gap is read as, whatever follows: glyphs that make no difference and that end a
token. -/
theorem Gap.exists_glyphs {gap : List UInt8} (h : Gap gap) :
    ∃ gs, (∀ rest, Glyph.decode (gap ++ rest) = gs ++ Glyph.decode rest) ∧ Skipped gs ∧
      ∀ text, Ends (gs ++ text) := by
  induction h with
  | @blank b blank =>
    have char : ∃ c, isBlank c = true ∧ .char c ∈ separators ∧ Glyph.encode [c] = [b] := by
      simp only [List.mem_cons, List.not_mem_nil, or_false] at blank
      rcases blank with rfl | rfl | rfl | rfl
      · exact ⟨' ', by decide⟩
      · exact ⟨'\t', by decide⟩
      · exact ⟨'\n', by decide⟩
      · exact ⟨'\r', by decide⟩
    obtain ⟨c, isBlank, separator, encoded⟩ := char
    refine ⟨[.char c], fun rest => ?_, skipped_blank isBlank, fun text => ?_⟩
    · rw [← encoded, Glyph.decode_encode_append]
      rfl
    · intro g first
      obtain rfl : Glyph.char c = g := by simpa using first
      exact separator
  | @comment line oneLine =>
    have mark : ∀ rest, Glyph.decode (0x21 :: rest) = .char '!' :: Glyph.decode rest :=
      fun rest => Glyph.decode_encode_append ['!'] rest
    refine ⟨.char '!' :: (Glyph.decode line ++ [.char '\n']), fun rest => ?_, ?_,
      fun text => ?_⟩
    · have split : 0x21 :: line ++ [0x0A] ++ rest = 0x21 :: (line ++ 0x0A :: rest) := by simp
      rw [split, mark, Glyph.decode_append_newline]
      simp
    · intro p text
      obtain ⟨q, skip⟩ :=
        skipSeparators_comment (Glyph.newline_notMem_decode oneLine) (p.after false) text
      refine ⟨q, ?_⟩
      rw [← skip, List.cons_append, skipSeparators, if_neg (by simp), if_pos (by decide)]
      simp
    · intro g first
      obtain rfl : Glyph.char '!' = g := by simpa using first
      decide
  | @append g h _ _ ih ih' =>
    obtain ⟨gs, decoded, skipped, ends⟩ := ih
    obtain ⟨hs, decoded', skipped', -⟩ := ih'
    refine ⟨gs ++ hs, fun rest => ?_, skipped.append skipped', fun text => ?_⟩
    · rw [List.append_assoc, decoded, decoded', List.append_assoc]
    · rw [List.append_assoc]
      exact ends _

/-- What follows the first of several spellings: nothing, or a gap and the others. -/
theorem Spaced.exists_rest {s : String} {more : List String} {bytes : List UInt8}
    (spaced : Spaced (s :: more) bytes) :
    ∃ lead rest, Skipped lead ∧ Ends (lead ++ Glyph.decode rest) ∧
      Glyph.decode bytes = s.toList.map .char ++ (lead ++ Glyph.decode rest) ∧
      Spaced more rest := by
  cases spaced with
  | last =>
    refine ⟨[], [], fun p text => ⟨p, rfl⟩, ?_, ?_, .nil⟩
    · simp [Ends, Glyph.decode]
    · simpa [Glyph.decode] using Glyph.decode_encode_append s.toList []
  | @cons _ t more gap rest apart later =>
    obtain ⟨lead, decoded, skipped, ends⟩ := apart.exists_glyphs
    refine ⟨lead, rest, skipped, ends _, ?_, later⟩
    rw [Glyph.decode_encode_append, decoded]

end Gaps

section Tokens

/-- The spellings of the tokens, without that of the end of the text. -/
def spellings (ts : List Token) : List String := (ts.filter (!·.isEnd)).map (·.spelling)

/-- The categories and spellings of the tokens, without their positions. -/
def labels (ts : List Token) : List (Kind × String) := ts.map fun t => (t.kind, t.spelling)

theorem spellings_cons_of_isEnd {t : Token} (end_ : t.isEnd = true) (ts : List Token) :
    spellings (t :: ts) = spellings ts := by
  simp [spellings, end_]

theorem spellings_cons {t : Token} (other : ¬ t.isEnd = true) (ts : List Token) :
    spellings (t :: ts) = t.spelling :: spellings ts := by
  simp [spellings, other]

/-- What is behind the separators starts with none. -/
theorem skipSeparators_head {inComment : Bool} {p : Pos} {text : List Glyph} {g : Glyph}
    {rest : List Glyph} (here : (skipSeparators inComment p text).text = g :: rest) :
    g.isChar '!' = false ∧ g.all isBlank = false := by
  induction text generalizing inComment p with
  | nil => cases here
  | cons h text ih =>
    rw [skipSeparators] at here
    split at here
    · exact ih here
    · split at here
      · exact ih here
      · next mark =>
        split at here
        · exact ih here
        · next blank =>
          obtain ⟨rfl, -⟩ := List.cons.inj here
          exact ⟨by simpa using mark, by simpa using blank⟩

/-- A well-formed token is found again where it is written behind separators, if a blank, a comment
or nothing follows. -/
theorem next_append {c c' : Cursor} {lead rest : List Glyph}
    (more : ¬ (next c).1.token.isEnd = true) (formed : (next c).1.token.kind ≠ .malformed)
    (skipped : Skipped lead)
    (text : c'.text = lead ++ ((next c).1.token.spelling.toList.map .char ++ rest))
    (ends : Ends rest) :
    ∃ p q, next c' = (⟨⟨(next c).1.token.kind, (next c).1.token.spelling, p⟩, none⟩, ⟨rest, q⟩) := by
  have found : ∃ g behind, (skipSeparators false c.pos c.text).text = g :: behind := by
    cases here : (skipSeparators false c.pos c.text).text with
    | nil => exact absurd (by simp [next, here, Token.isEnd]) more
    | cons g behind => exact ⟨g, behind, rfl⟩
  obtain ⟨g, behind, here⟩ := found
  obtain ⟨mark, blank⟩ := skipSeparators_head here
  have token : (next c).1 = ⟨⟨(lexeme g behind).kind, Glyph.spell (lexeme g behind).taken,
      (skipSeparators false c.pos c.text).pos⟩, (lexeme g behind).fault⟩ := by
    simp [next, here]
  rw [token] at formed text ⊢
  dsimp only at formed text ⊢
  obtain ⟨tail, taken⟩ : ∃ tail, (lexeme g behind).taken = g :: tail := by
    have split := lexeme_split g behind
    cases known : (lexeme g behind).taken with
    | nil => exact absurd known (lexeme_taken_ne_nil g behind)
    | cons g' tail =>
      rw [known] at split
      obtain ⟨rfl, -⟩ := List.cons.inj split
      exact ⟨tail, rfl⟩
  have fault : (lexeme g behind).fault = none := by
    have sound := (lexeme_sound g behind).fault
    simpa [formed] using sound
  have again := lexeme_append ends formed taken
  rw [map_char_spell formed, taken] at text
  obtain ⟨p, skip⟩ := skipped c'.pos (g :: tail ++ rest)
  have stop : skipSeparators false p (g :: (tail ++ rest)) = ⟨g :: (tail ++ rest), p⟩ := by
    rw [skipSeparators, if_neg (by simp), if_neg (by simp [mark]), if_neg (by simp [blank])]
  rw [List.cons_append, stop] at skip
  refine ⟨p, Cursor.advance p (lexeme g behind).taken, ?_⟩
  simp only [next, text, List.cons_append, skip, again, fault]

/-- Only the end of the text is found as its end. -/
theorem next_of_isEnd {c : Cursor} (last : (next c).1.token.isEnd = true) :
    (next c).1 = ⟨⟨.endOfText, "", (skipSeparators false c.pos c.text).pos⟩, none⟩ := by
  cases here : (skipSeparators false c.pos c.text).text with
  | nil => simp [next, here]
  | cons g behind =>
    have kind : (lexeme g behind).kind = .endOfText := by simpa [next, here, Token.isEnd] using last
    exact absurd kind (lexeme_sound g behind).notEnd

theorem next_of_skipped {c : Cursor} (skipped : Skipped c.text) :
    ∃ p, next c = (⟨⟨.endOfText, "", p⟩, none⟩, ⟨[], p⟩) := by
  obtain ⟨p, skip⟩ := skipped c.pos []
  rw [List.append_nil, skipSeparators] at skip
  exact ⟨p, by simp [next, skip]⟩

theorem scan_of_isEnd {c : Cursor} (last : (next c).1.token.isEnd = true) :
    (scan c).1 = [(next c).1] := by
  rw [scan, dif_pos last]

theorem scan_of_not_isEnd {c : Cursor} (more : ¬ (next c).1.token.isEnd = true) :
    (scan c).1 = (next c).1 :: (scan (next c).2).1 := by
  rw [scan, dif_neg more]

/-- What holds at the end of a text, and before a token if it holds behind it, holds everywhere. -/
theorem scan_induction {P : Cursor → Prop}
    (last : ∀ c, (next c).1.token.isEnd = true → P c)
    (more : ∀ c, ¬ (next c).1.token.isEnd = true → P (next c).2 → P c) (c : Cursor) : P c := by
  fun_induction scan c with
  | case1 c found ends => exact last c ends
  | case2 c found goesOn rest ih => exact more c goesOn ih

/-- The tokens that are still to be found, written with gaps between them, are found again. -/
theorem scan_spaced {c c' : Cursor} {lead : List Glyph} {bytes : List UInt8}
    (formed : ∀ t ∈ tokens (scan c).1, t.kind ≠ .malformed) (skipped : Skipped lead)
    (text : c'.text = lead ++ Glyph.decode bytes)
    (spaced : Spaced (spellings (tokens (scan c).1)) bytes) :
    labels (tokens (scan c').1) = labels (tokens (scan c).1) := by
  induction c using scan_induction generalizing c' lead bytes with
  | last c last =>
    rw [scan_of_isEnd last] at spaced ⊢
    rw [tokens, List.map_cons, spellings_cons_of_isEnd last] at spaced
    cases spaced
    rw [Glyph.decode, List.append_nil] at text
    obtain ⟨p, ended⟩ := next_of_skipped (text ▸ skipped)
    have last' : (next c').1.token.isEnd = true := by simp [ended, Token.isEnd]
    rw [scan_of_isEnd last']
    simp [tokens, labels, ended, next_of_isEnd last]
  | more c more ih =>
    rw [scan_of_not_isEnd more] at formed spaced ⊢
    have first : (next c).1.token.kind ≠ .malformed := formed _ (by simp [tokens])
    have later : ∀ t ∈ tokens (scan (next c).2).1, t.kind ≠ .malformed :=
      fun t member => formed t (List.mem_cons_of_mem _ member)
    rw [tokens, List.map_cons, spellings_cons more] at spaced
    obtain ⟨lead', bytes', skipped', ends, decoded, spaced'⟩ := spaced.exists_rest
    rw [decoded] at text
    obtain ⟨p, q, found⟩ := next_append more first skipped text ends
    have more' : ¬ (next c').1.token.isEnd = true := by
      rw [found]
      exact more
    have behind : (next c').2.text = lead' ++ Glyph.decode bytes' := by rw [found]
    have same := ih later skipped' behind spaced'
    rw [scan_of_not_isEnd more']
    simp only [tokens, labels, List.map_cons] at same ⊢
    rw [same, found]

/-- If no token is malformed, nothing is reported. -/
theorem reports_eq_nil_of_formed {c : Cursor}
    (formed : ∀ t ∈ tokens (scan c).1, t.kind ≠ .malformed) : reports (scan c).1 = [] := by
  have none : (tokens (scan c).1).filter (·.kind == .malformed) = [] :=
    List.filter_eq_nil_iff.2 (by simpa using formed)
  have positions := reports_scan c
  rw [none, List.map_nil, List.map_eq_nil_iff] at positions
  exact positions

/-- The tokens of a text, written with gaps between them, are found again, and nothing is reported
about them. -/
theorem tokens_spaced {c : Cursor} {bytes : List UInt8}
    (formed : ∀ t ∈ tokens (scan c).1, t.kind ≠ .malformed)
    (spaced : Spaced (spellings (tokens (scan c).1)) bytes) (file : String) :
    labels (tokens (scan (Cursor.ofBytes file bytes)).1) = labels (tokens (scan c).1) ∧
      reports (scan (Cursor.ofBytes file bytes)).1 = [] := by
  have nothing : Skipped [] := fun p text => ⟨p, rfl⟩
  have text : (Cursor.ofBytes file bytes).text = [] ++ Glyph.decode bytes := rfl
  have same := scan_spaced formed nothing text spaced
  refine ⟨same, reports_eq_nil_of_formed fun t member => ?_⟩
  have label : (t.kind, t.spelling) ∈ labels (tokens (scan c).1) :=
    same ▸ List.mem_map_of_mem member
  obtain ⟨u, found, eq⟩ := List.mem_map.1 label
  rw [← (Prod.mk.inj eq).1]
  exact formed u found

end Tokens

end TriangleTam.Scanner

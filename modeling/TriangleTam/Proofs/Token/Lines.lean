import TriangleTam.Proofs.Parser.Moved
import TriangleTam.Proofs.Token.Respaced

/-!
# Texts of several lines

The end of a line ends a token just as the end of the text does, with one exception: a quote at the
end of the text stands alone, and at the end of a line it goes on. So apart from that, the tokens of
a text up to the end of a line are those of the first part, and the tokens behind it are those of
the second part, further down: `scan_append_newline`. Where a text starts makes no difference to its
tokens but for their positions, which is `scan_down`.
-/

namespace TriangleTam

open Text (Glyph)

/-- The position so many lines further down. -/
def Pos.down (lines : Nat) (p : Pos) : Pos := { p with line := p.line + lines }

theorem Pos.after_down (lines : Nat) (p : Pos) (newline : Bool) :
    (p.down lines).after newline = (p.after newline).down lines := by
  cases newline with
  | true => simp [Pos.after, Pos.down, Int.add_right_comm]
  | false => rfl

/-- The report, that many lines further down. -/
def Report.down {ε : Type} (lines : Nat) (r : Report ε) : Report ε := ⟨r.pos.down lines, r.cause⟩

/-- The same text, that many lines further down. -/
def Cursor.down (lines : Nat) (c : Cursor) : Cursor := ⟨c.text, c.pos.down lines⟩

namespace Scanner

/-- The token with its fault, that many lines further down. -/
def Scanned.down (lines : Nat) (s : Scanned) : Scanned := ⟨s.token.moved (Pos.down lines), s.fault⟩

section Next

variable {c : Cursor} {pos : Pos}

theorem next_of_nil (here : skipSeparators false c.pos c.text = ⟨[], pos⟩) :
    next c = (⟨⟨.endOfText, "", pos⟩, none⟩, ⟨[], pos⟩) := by
  simp only [next, here]

theorem next_of_cons {g : Glyph} {rest : List Glyph}
    (here : skipSeparators false c.pos c.text = ⟨g :: rest, pos⟩) :
    next c =
      (⟨⟨(lexeme g rest).kind, Glyph.spell (lexeme g rest).taken, pos⟩, (lexeme g rest).fault⟩,
        ⟨(lexeme g rest).rest, Cursor.advance pos (lexeme g rest).taken⟩) := by
  simp only [next, here]

/-- Behind the separators is the end of the text or a lexeme. -/
theorem next_cases (c : Cursor) :
    (∃ pos, skipSeparators false c.pos c.text = ⟨[], pos⟩ ∧
        next c = (⟨⟨.endOfText, "", pos⟩, none⟩, ⟨[], pos⟩)) ∨
      ∃ g rest pos, skipSeparators false c.pos c.text = ⟨g :: rest, pos⟩ ∧
        next c =
          (⟨⟨(lexeme g rest).kind, Glyph.spell (lexeme g rest).taken, pos⟩, (lexeme g rest).fault⟩,
            ⟨(lexeme g rest).rest, Cursor.advance pos (lexeme g rest).taken⟩) := by
  cases here : skipSeparators false c.pos c.text with
  | mk text pos =>
    cases text with
    | nil => exact .inl ⟨pos, rfl, next_of_nil here⟩
    | cons g rest => exact .inr ⟨g, rest, pos, rfl, next_of_cons here⟩

end Next

section Down

variable (lines : Nat)

theorem advance_down (p : Pos) (gs : List Glyph) :
    Cursor.advance (p.down lines) gs = (Cursor.advance p gs).down lines := by
  induction gs generalizing p with
  | nil => rfl
  | cons g gs ih =>
    have first : (p.down lines).after (g.isChar '\n') = (p.after (g.isChar '\n')).down lines :=
      Pos.after_down lines p _
    have rest := ih (p.after (g.isChar '\n'))
    rw [← first] at rest
    exact rest

theorem skipSeparators_down (inComment : Bool) (p : Pos) (text : List Glyph) :
    skipSeparators inComment (p.down lines) text =
      (skipSeparators inComment p text).down lines := by
  induction text generalizing inComment p with
  | nil => rfl
  | cons g rest ih =>
    rw [skipSeparators, skipSeparators]
    simp only [Pos.after_down, ih]
    split
    · rfl
    · split
      · rfl
      · split
        · rfl
        · rfl

theorem next_down (c : Cursor) :
    next (c.down lines) = ((next c).1.down lines, (next c).2.down lines) := by
  have skip : skipSeparators false (c.down lines).pos (c.down lines).text = _ :=
    skipSeparators_down lines false c.pos c.text
  rcases next_cases c with ⟨pos, here, found⟩ | ⟨g, rest, pos, here, found⟩
  · rw [here] at skip
    rw [found, next_of_nil skip]
    rfl
  · rw [here] at skip
    rw [found, next_of_cons skip]
    simp only [Cursor.down, Scanned.down, Token.moved, advance_down]

/-- A text further down has the same tokens further down. -/
theorem scan_down (c : Cursor) :
    (scan (c.down lines)).1 = (scan c).1.map (Scanned.down lines) := by
  induction c using scan_induction with
  | last c last =>
    have last' : (next (c.down lines)).1.token.isEnd = true := by
      rw [next_down]
      exact last
    rw [scan_of_isEnd last, scan_of_isEnd last', next_down]
    rfl
  | more c more ih =>
    have more' : ¬ (next (c.down lines)).1.token.isEnd = true := by
      rw [next_down]
      exact more
    rw [scan_of_not_isEnd more, scan_of_not_isEnd more', next_down, List.map_cons, ih]

theorem tokens_down (found : List Scanned) :
    tokens (found.map (Scanned.down lines)) =
      (tokens found).map (Token.moved (Pos.down lines)) := by
  simp only [tokens, List.map_map]
  rfl

theorem reports_down (found : List Scanned) :
    reports (found.map (Scanned.down lines)) = (reports found).map (Report.down lines) := by
  rw [reports, reports, List.filterMap_map, List.map_filterMap]
  congr 1
  funext s
  rw [Option.map_map]
  rfl

end Down

section Lexemes

/-- The lexeme with more text behind it. -/
def Lexeme.followed (l : Lexeme) (behind : List Glyph) : Lexeme :=
  { l with rest := l.rest ++ behind }

variable (behind : List Glyph)

/-- A run that does not go through a line end ends there. -/
theorem takeWhile_newline {p : Glyph → Bool} (stop : p (.char '\n') = false) (text : List Glyph) :
    (text ++ .char '\n' :: behind).takeWhile p = text.takeWhile p ∧
      (text ++ .char '\n' :: behind).dropWhile p = text.dropWhile p ++ .char '\n' :: behind := by
  induction text with
  | nil => simp [stop]
  | cons g text ih =>
    by_cases taken : p g = true
    · simpa [taken] using ih
    · simp [taken]

theorem letterOrDigit_newline : (Glyph.char '\n').all isLetterOrDigit = false :=
  letterOrDigit_separators _ (by decide)

theorem splitName_newline (text : List Glyph) :
    splitName (text ++ .char '\n' :: behind) =
      { splitName text with rest := (splitName text).rest ++ .char '\n' :: behind } := by
  have letters := takeWhile_newline behind letterOrDigit_newline
  have bars := takeWhile_newline behind (p := (·.isChar '_')) (by decide)
  simp only [splitName, letters, bars]

theorem nameLexeme_newline (text : List Glyph) :
    nameLexeme (text ++ .char '\n' :: behind) =
      (nameLexeme text).followed (.char '\n' :: behind) := by
  simp only [nameLexeme, splitName_newline]
  have same : NameParts.isMalformed { splitName text with
      rest := (splitName text).rest ++ .char '\n' :: behind } = (splitName text).isMalformed := rfl
  rw [same]
  split
  · rfl
  · rfl

theorem integerLexeme_newline (text : List Glyph) :
    integerLexeme (text ++ .char '\n' :: behind) =
      (integerLexeme text).followed (.char '\n' :: behind) := by
  have letters := takeWhile_newline behind letterOrDigit_newline text
  simp only [integerLexeme, letters]
  split
  · rfl
  · rfl

/-- A quote at the end of the text is the one lexeme that the end of a line does not end. -/
theorem charLexeme_newline {q : Glyph} {text : List Glyph}
    (closed : (charLexeme q text).fault ≠ some .openQuote) :
    charLexeme q (text ++ .char '\n' :: behind) =
      (charLexeme q text).followed (.char '\n' :: behind) := by
  cases text with
  | nil => exact absurd rfl closed
  | cons g text =>
    cases text with
    | nil =>
      cases g with
      | invalid => rfl
      | char c => rfl
    | cons h text =>
      have quote : h = .char '\'' ∨ h ≠ .char '\'' := eq_or_ne h _
      rcases quote with rfl | other
      · cases g with
        | invalid => rfl
        | char c => rfl
      · cases g with
        | invalid => simp [charLexeme, other, Lexeme.followed, Lexeme.bad]
        | char c => simp [charLexeme, other, Lexeme.followed, Lexeme.bad]

theorem markLexeme_newline (c : Char) (text : List Glyph) :
    markLexeme c (text ++ .char '\n' :: behind) =
      (markLexeme c text).followed (.char '\n' :: behind) := by
  by_cases colon : c = ':'
  · subst colon
    cases text with
    | nil => rfl
    | cons g text =>
      by_cases equals : g = .char '='
      · subst equals
        rfl
      · simp [markLexeme, equals, Lexeme.followed, Lexeme.good]
  · simp only [markLexeme, if_neg colon]
    split
    · rfl
    · rfl

/-- Every other lexeme ends at the end of a line as it does at the end of the text. -/
theorem lexeme_newline {g : Glyph} {text : List Glyph}
    (closed : (lexeme g text).fault ≠ some .openQuote) :
    lexeme g (text ++ .char '\n' :: behind) = (lexeme g text).followed (.char '\n' :: behind) := by
  cases g with
  | invalid => rfl
  | char c =>
    rcases lexeme_char_cases c with here | here | here | here | here
    · rw [here, here, ← List.cons_append]
      exact nameLexeme_newline behind _
    · rw [here, here, ← List.cons_append]
      exact integerLexeme_newline behind _
    · rw [here, here]
      rfl
    · rw [here] at closed
      rw [here, here]
      exact charLexeme_newline behind closed
    · rw [here, here]
      exact markLexeme_newline behind c text

end Lexemes

section Separators

variable {inComment : Bool} {p : Pos} {text : List Glyph}

/-- If a token follows the separators, it is found whatever follows that. -/
theorem skipSeparators_append {g : Glyph} {rest : List Glyph}
    (here : (skipSeparators inComment p text).text = g :: rest) (behind : List Glyph) :
    skipSeparators inComment p (text ++ behind) =
      ⟨g :: (rest ++ behind), (skipSeparators inComment p text).pos⟩ := by
  induction text generalizing inComment p with
  | nil => cases here
  | cons h text ih =>
    rw [List.cons_append]
    unfold skipSeparators at here ⊢
    split at here
    · next comment =>
      rw [if_pos comment, if_pos comment]
      exact ih here
    · next outside =>
      rw [if_neg outside, if_neg outside]
      split at here
      · next mark =>
        rw [if_pos mark, if_pos mark]
        exact ih here
      · next unmarked =>
        rw [if_neg unmarked, if_neg unmarked]
        split at here
        · next blank =>
          rw [if_pos blank, if_pos blank]
          exact ih here
        · next solid =>
          obtain ⟨rfl, rfl⟩ := List.cons.inj here
          rw [if_neg solid, if_neg solid]

/-- If nothing but separators is left of a line, they end with it, also inside a comment. -/
theorem skipSeparators_newline (here : (skipSeparators inComment p text).text = [])
    (behind : List Glyph) :
    skipSeparators inComment p (text ++ .char '\n' :: behind) =
      skipSeparators false ((Cursor.advance p text).after true) behind := by
  induction text generalizing inComment p with
  | nil =>
    cases inComment with
    | true => rfl
    | false => rfl
  | cons h text ih =>
    rw [List.cons_append]
    unfold skipSeparators at here
    rw [skipSeparators]
    split at here
    · next comment =>
      rw [if_pos comment]
      exact ih here
    · next outside =>
      rw [if_neg outside]
      split at here
      · next mark =>
        have inside : h.isChar '\n' = false := by
          cases h with
          | invalid => rfl
          | char c =>
            obtain rfl : c = '!' := by simpa [Glyph.isChar] using mark
            rfl
        have along : Cursor.advance p (h :: text) = Cursor.advance (p.after false) text := by
          rw [← inside]
          rfl
        rw [if_pos mark, ih here, along]
      · next unmarked =>
        rw [if_neg unmarked]
        split at here
        · next blank =>
          rw [if_pos blank]
          exact ih here
        · cases here

end Separators

section Scans

/-- A quote is left open only at the very end of a text. -/
theorem lexeme_openQuote {g : Glyph} {rest : List Glyph}
    (fault : (lexeme g rest).fault = some .openQuote) :
    lexeme g rest = .bad .openQuote [.char '\''] [] := by
  cases g with
  | invalid => cases fault
  | char c =>
    simp only [lexeme] at fault ⊢
    split at fault
    · simp only [nameLexeme] at fault
      split at fault
      · cases fault
      · cases fault
    · next noLetter =>
      rw [if_neg noLetter]
      split at fault
      · simp only [integerLexeme] at fault
        split at fault
        · cases fault
        · cases fault
      · next noDigit =>
        rw [if_neg noDigit]
        split at fault
        · cases fault
        · next noOperator =>
          rw [if_neg noOperator]
          split at fault
          · next quote =>
            subst quote
            rw [if_pos rfl]
            unfold charLexeme at fault ⊢
            split at fault
            · rfl
            · cases fault
            · cases fault
            · cases fault
            · cases fault
          · unfold markLexeme at fault
            split at fault
            · split at fault
              · cases fault
              · cases fault
            · split at fault
              · cases fault
              · cases fault

/-- A token that is no quote left open is found with a line end somewhere behind it. -/
theorem next_newline {c : Cursor} (more : ¬ (next c).1.token.isEnd = true)
    (closed : (next c).1.fault ≠ some .openQuote) (behind : List Glyph) :
    next ⟨c.text ++ .char '\n' :: behind, c.pos⟩ =
      ((next c).1, ⟨(next c).2.text ++ .char '\n' :: behind, (next c).2.pos⟩) := by
  rcases next_cases c with ⟨pos, -, found⟩ | ⟨g, rest, pos, here, found⟩
  · rw [found] at more
    exact absurd rfl more
  · rw [found] at closed ⊢
    have skip := skipSeparators_append (congrArg Cursor.text here) (.char '\n' :: behind)
    rw [here] at skip
    rw [next_of_cons skip, lexeme_newline behind closed]
    rfl

theorem scan_congr {c c' : Cursor} (same : next c = next c') : (scan c).1 = (scan c').1 := by
  by_cases last : (next c).1.token.isEnd = true
  · have last' := last
    rw [same] at last'
    rw [scan_of_isEnd last, scan_of_isEnd last', same]
  · have more' := last
    rw [same] at more'
    rw [scan_of_not_isEnd last, scan_of_not_isEnd more', same]

theorem scan_ne_nil (c : Cursor) : (scan c).1 ≠ [] := by
  by_cases last : (next c).1.token.isEnd = true
  · rw [scan_of_isEnd last]
    exact List.cons_ne_nil _ _
  · rw [scan_of_not_isEnd last]
    exact List.cons_ne_nil _ _

/-- What is found in the lines before a line end, and then what is found behind it. -/
theorem scan_newline {c : Cursor} (closed : ∀ s ∈ (scan c).1, s.fault ≠ some .openQuote)
    (behind : List Glyph) :
    (scan ⟨c.text ++ .char '\n' :: behind, c.pos⟩).1 = (scan c).1.dropLast ++
      (scan ⟨behind, (placeAfter c.pos (c.text.map Glyph.toChar)).after true⟩).1 := by
  induction c using scan_induction with
  | last c last =>
    have here : (skipSeparators false c.pos c.text).text = [] := by
      rcases next_cases c with ⟨pos, here, -⟩ | ⟨g, rest, pos, -, found⟩
      · rw [here]
      · have kind : (lexeme g rest).kind = .endOfText := by
          simpa [found, Token.isEnd] using last
        exact absurd kind (lexeme_sound g rest).notEnd
    have skip := skipSeparators_newline here behind
    rw [advance_eq_placeAfter] at skip
    have same : next ⟨c.text ++ .char '\n' :: behind, c.pos⟩ =
        next ⟨behind, (placeAfter c.pos (c.text.map Glyph.toChar)).after true⟩ := by
      simp only [next, skip]
    rw [scan_of_isEnd last, List.dropLast_singleton, List.nil_append, scan_congr same]
  | more c more ih =>
    rw [scan_of_not_isEnd more] at closed ⊢
    have step := next_newline more (closed _ List.mem_cons_self) behind
    have more' : ¬ (next ⟨c.text ++ .char '\n' :: behind, c.pos⟩).1.token.isEnd = true := by
      rw [step]
      exact more
    have place : placeAfter (next c).2.pos ((next c).2.text.map Glyph.toChar) =
        placeAfter c.pos (c.text.map Glyph.toChar) := by
      rcases next_spec c with ⟨sep, -, -, token, -⟩ | ⟨sep, text, -, -, -, -, pos⟩
      · rw [token] at more
        exact absurd rfl more
      · rw [text, pos, ← placeAfter_append]
    rw [scan_of_not_isEnd more', step, List.dropLast_cons_of_ne_nil (scan_ne_nil _),
      List.cons_append,
      ih fun s member => closed s (List.mem_cons_of_mem _ member), place]

end Scans

section Lines

/-- A malformed token that is a quote and nothing else. -/
def IsLoneQuote (t : Token) : Prop := t.kind = .malformed ∧ t.spelling = "'"

theorem tokens_cons (s : Scanned) (found : List Scanned) :
    tokens (s :: found) = s.token :: tokens found := rfl

/-- Only the last token of a text can be a quote left open. -/
theorem closed_of_last {c : Cursor}
    (closed : ∀ t ∈ (tokens (scan c).1).dropLast.getLast?, ¬ IsLoneQuote t) :
    ∀ s ∈ (scan c).1, s.fault ≠ some .openQuote := by
  induction c using scan_induction with
  | last c last =>
    intro s member
    rw [scan_of_isEnd last, next_of_isEnd last] at member
    rw [List.mem_singleton.1 member]
    exact nofun
  | more c more ih =>
    have some : tokens (scan (next c).2).1 ≠ [] := by simpa [tokens] using scan_ne_nil (next c).2
    rw [scan_of_not_isEnd more, tokens_cons, List.dropLast_cons_of_ne_nil some] at closed
    rw [scan_of_not_isEnd more]
    refine List.forall_mem_cons.2 ⟨fun fault => ?_, ih fun t last => closed t ?_⟩
    · rcases next_cases c with ⟨pos, -, found⟩ | ⟨g, rest, pos, -, found⟩
      · rw [found] at fault
        cases fault
      · rw [found] at fault
        rw [lexeme_openQuote fault] at found
        have ends : (next (next c).2).1.token.isEnd = true := by
          rw [found]
          rfl
        rw [scan_of_isEnd ends, found] at closed
        exact closed _ rfl ⟨rfl, rfl⟩
    · rw [List.getLast?_cons, Option.mem_def.1 last]
      rfl

theorem reports_append (found more : List Scanned) :
    reports (found ++ more) = reports found ++ reports more :=
  List.filterMap_append

/-- Nothing is reported about the end of a text. -/
theorem reports_dropLast (c : Cursor) : reports (scan c).1.dropLast = reports (scan c).1 := by
  induction c using scan_induction with
  | last c last =>
    rw [scan_of_isEnd last, next_of_isEnd last]
    rfl
  | more c more ih =>
    rw [scan_of_not_isEnd more, List.dropLast_cons_of_ne_nil (scan_ne_nil _)]
    rw [reports, reports, List.filterMap_cons, List.filterMap_cons]
    rw [show List.filterMap _ _ = _ from ih]
    rfl

/-- Behind a line end a text goes on at the start of a line. -/
theorem after_newline (file : String) (bytes : List UInt8) :
    (placeAfter (Pos.start file) ((Glyph.decode bytes).map Glyph.toChar)).after true =
      (Pos.start file).down (1 + bytes.count 0x0A) := by
  rw [placeAfter_start, ← Glyph.count_newline_decode bytes]
  simp only [placeIn, Pos.after, Pos.start, Pos.down, if_true, Int.natCast_add, Pos.mk.injEq,
    true_and, and_true]
  omega

/-- Scanning splits at line ends. Unless the last token of the first part is a quote that stands
alone, the tokens of two parts with a line end between them are those of the first without its end
and those of the second further down, and so is what is reported. -/
theorem scan_append_newline (file : String) (u v : List UInt8)
    (closed : ∀ t ∈ (tokens (scan (Cursor.ofBytes file u)).1).dropLast.getLast?,
      ¬ IsLoneQuote t) :
    let found (bytes : List UInt8) := (scan (Cursor.ofBytes file bytes)).1
    let lines := 1 + u.count 0x0A
    tokens (found (u ++ 0x0A :: v)) =
        (tokens (found u)).dropLast ++ (tokens (found v)).map (Token.moved (Pos.down lines)) ∧
      reports (found (u ++ 0x0A :: v)) =
        reports (found u) ++ (reports (found v)).map (Report.down lines) := by
  intro found lines
  have split :
      found (u ++ 0x0A :: v) = (found u).dropLast ++ (found v).map (Scanned.down lines) := by
    have parts := scan_newline (closed_of_last closed) (Glyph.decode v)
    rw [← scan_down, Cursor.down]
    simp only [Cursor.ofBytes] at parts
    rw [after_newline, ← Glyph.decode_append_newline] at parts
    exact parts
  rw [split, reports_append, reports_down, reports_dropLast, tokens, List.map_append,
    List.map_dropLast]
  exact ⟨congrArg _ (tokens_down lines _), rfl⟩

/-- The two lines `x` and `:= 'a`, of which the second ends inside a character literal. -/
def halfText : List UInt8 := Glyph.encode ['x', '\n', ':', '=', ' ', '\'', 'a']

/-- The line `'b'`. -/
def restText : List UInt8 := Glyph.encode ['\'', 'b', '\'']

theorem halfText_splits :
    let found (bytes : List UInt8) := (scan (Cursor.ofBytes "" bytes)).1
    (tokens (found halfText)).dropLast.getLast?.map (·.spelling) = some "'a" ∧
      (tokens (found (halfText ++ 0x0A :: restText))).map (fun t => (t.spelling, t.pos.line)) =
        [("x", 1), (":=", 2), ("'a", 2), ("'b'", 3), ("", 3)] ∧
      tokens (found (halfText ++ 0x0A :: restText)) = (tokens (found halfText)).dropLast ++
        (tokens (found restText)).map (Token.moved (Pos.down 2)) ∧
      reports (found (halfText ++ 0x0A :: restText)) =
        reports (found halfText) ++ (reports (found restText)).map (Report.down 2) := by
  refine ⟨by decide +kernel, by decide +kernel, scan_append_newline "" halfText restText ?_⟩
  intro t last
  have spelling := congrArg (Option.map Token.spelling) (Option.mem_def.1 last)
  have half : (tokens (scan (Cursor.ofBytes "" halfText)).1).dropLast.getLast?.map Token.spelling =
      some "'a" := by decide +kernel
  rw [half] at spelling
  intro lone
  rw [Option.map_some, lone.2] at spelling
  exact absurd spelling (by decide)

end Lines

end Scanner

end TriangleTam

import Mathlib.Data.List.Induction
import TriangleTam.Proofs.Text.Glyph
import TriangleTam.Proofs.Token.Scanner

/-!
# Scanning loses nothing

A text is the spellings of its tokens with separators before, between and behind them, and the
position of a token is the line and column of its first character. `Layout` says this of a text and
a list of tokens from any position on, `scan_layout` says it of what scanning finds, and
`scan_lossless` puts it together for a whole text, with what is reported and what is found past the
end.
-/

namespace TriangleTam

open Text (Glyph)

namespace Scanner

/-- Blanks and comments. A comment runs through the end of its line; it may run to the end of the
text instead if that follows. -/
inductive Separator (atEnd : Prop) : List Char → Prop where
  | nil : Separator atEnd []
  | blank {c sep} (blank : c = ' ' ∨ c = '\t' ∨ c = '\n' ∨ c = '\r') (rest : Separator atEnd sep) :
      Separator atEnd (c :: sep)
  | comment {line sep} (oneLine : '\n' ∉ line) (rest : Separator atEnd sep) :
      Separator atEnd ('!' :: line ++ '\n' :: sep)
  | lastComment {line} (ends : atEnd) (oneLine : '\n' ∉ line) : Separator atEnd ('!' :: line)

/-- A character more in the comment at the front. -/
theorem Separator.comment_cons {atEnd : Prop} {c : Char} {cs : List Char} (other : c ≠ '\n')
    (h : Separator atEnd ('!' :: cs)) : Separator atEnd ('!' :: c :: cs) := by
  generalize eq : '!' :: cs = text at h
  cases h with
  | nil => cases eq
  | blank blank rest =>
    obtain ⟨rfl, rfl⟩ := List.cons.inj eq
    exact absurd blank (by decide)
  | @comment line sep oneLine rest =>
    obtain rfl := (List.cons.inj eq).2
    have oneLine : '\n' ∉ c :: line := by simpa using ⟨Ne.symm other, oneLine⟩
    exact .comment oneLine rest
  | lastComment ends oneLine =>
    obtain rfl := (List.cons.inj eq).2
    exact .lastComment ends (by simpa using ⟨Ne.symm other, oneLine⟩)

/-- The position behind the characters `cs`, the first of which stands at `p`. -/
def placeAfter (p : Pos) (cs : List Char) : Pos :=
  cs.foldl (fun p c => p.after (c == '\n')) p

@[simp] theorem placeAfter_nil (p : Pos) : placeAfter p [] = p := rfl

@[simp] theorem placeAfter_cons (p : Pos) (c : Char) (cs : List Char) :
    placeAfter p (c :: cs) = placeAfter (p.after (c == '\n')) cs := rfl

theorem placeAfter_append (p : Pos) (cs ds : List Char) :
    placeAfter p (cs ++ ds) = placeAfter (placeAfter p cs) ds :=
  List.foldl_append

/-- The line and column behind the characters `before` of a text: one more than the line ends among
them, and one more than the characters since the last of these. -/
def placeIn (file : String) (before : List Char) : Pos :=
  ⟨file, 1 + before.count '\n', 1 + (before.reverse.takeWhile (· ≠ '\n')).length⟩

theorem placeAfter_start (file : String) (cs : List Char) :
    placeAfter (Pos.start file) cs = placeIn file cs := by
  induction cs using List.reverseRecOn with
  | nil => rfl
  | append_singleton cs c ih =>
    rw [placeAfter_append, ih]
    by_cases newline : c = '\n'
    · subst newline
      simp [placeIn, Pos.after, List.count_append, Int.add_assoc]
    · simp [placeIn, Pos.after, List.count_append, newline, Int.add_assoc]

theorem isChar_eq_beq (g : Glyph) : g.isChar '\n' = (g.toChar == '\n') := by
  cases g with
  | char c => rfl
  | invalid => rfl

theorem advance_eq_placeAfter (p : Pos) (gs : List Glyph) :
    Cursor.advance p gs = placeAfter p (gs.map Glyph.toChar) := by
  induction gs generalizing p with
  | nil => rfl
  | cons g gs ih =>
    rw [List.map_cons, placeAfter_cons, ← isChar_eq_beq]
    exact ih _

/-- What is skipped before a token is a separator. Inside a comment, that is what it is together
with the mark the comment starts with. -/
theorem skipSeparators_spec (inComment : Bool) (p : Pos) (text : List Glyph) :
    ∃ sep, text = sep ++ (skipSeparators inComment p text).text ∧
      (skipSeparators inComment p text).pos = placeAfter p (sep.map Glyph.toChar) ∧
      Separator ((skipSeparators inComment p text).text = [])
        ((if inComment then ['!'] else []) ++ sep.map Glyph.toChar) := by
  induction text generalizing inComment p with
  | nil =>
    refine ⟨[], rfl, rfl, ?_⟩
    cases inComment with
    | true => exact .lastComment rfl (by simp)
    | false => exact .nil
  | cons g rest ih =>
    unfold skipSeparators
    split
    · next comment =>
      obtain ⟨sep, split, pos, separator⟩ := ih (!g.isChar '\n') (p.after (g.isChar '\n'))
      refine ⟨g :: sep, by rw [List.cons_append, ← split], ?_, ?_⟩
      · rw [pos, isChar_eq_beq, List.map_cons, placeAfter_cons]
      · by_cases newline : g.toChar = '\n'
        · rw [List.map_cons, newline]
          rw [isChar_eq_beq, newline] at separator ⊢
          exact .comment List.not_mem_nil separator
        · refine Separator.comment_cons newline ?_
          simpa [isChar_eq_beq, newline] using separator
    · next outside =>
      split
      · next mark =>
        obtain ⟨sep, split, pos, separator⟩ := ih true (p.after false)
        have char : g.toChar = '!' := by
          cases g with
          | char c => simpa [Glyph.isChar, Glyph.toChar] using mark
          | invalid => cases mark
        refine ⟨g :: sep, by rw [List.cons_append, ← split], ?_, ?_⟩
        · rw [pos, List.map_cons, placeAfter_cons, char]
          rfl
        · rw [List.map_cons, char]
          exact separator
      · split
        · next blank =>
          obtain ⟨sep, split, pos, separator⟩ := ih false (p.after (g.isChar '\n'))
          refine ⟨g :: sep, by rw [List.cons_append, ← split], ?_, ?_⟩
          · rw [pos, isChar_eq_beq, List.map_cons, placeAfter_cons]
          · refine .blank ?_ separator
            cases g with
            | char c => simpa [Glyph.all, Glyph.toChar, isBlank, or_assoc] using blank
            | invalid => cases blank
        · exact ⟨[], rfl, rfl, .nil⟩

/-- A text is made of tokens and separators: it starts at the position `p`, and the last token, and
no other, is the end of the text. -/
inductive Layout : Pos → List Char → List Token → Prop where
  | last {p sep t} (separator : Separator True sep) (kind : t.kind = .endOfText)
      (spelling : t.spelling = "") (pos : t.pos = placeAfter p sep) : Layout p sep [t]
  | token {p sep t rest ts} (separator : Separator False sep) (kind : t.kind ≠ .endOfText)
      (spelling : t.spelling ≠ "") (pos : t.pos = placeAfter p sep)
      (more : Layout (placeAfter p (sep ++ t.spelling.toList)) rest ts) :
      Layout p (sep ++ t.spelling.toList ++ rest) (t :: ts)

/-- What is found from a cursor on: the end of the text behind a last separator, or a token and the
cursor behind it. -/
theorem next_spec (c : Cursor) :
    (∃ sep, c.text.map Glyph.toChar = sep ∧ Separator True sep ∧
        (next c).1 = ⟨⟨.endOfText, "", placeAfter c.pos sep⟩, none⟩ ∧
        (next c).2 = ⟨[], placeAfter c.pos sep⟩) ∨
      ∃ sep, c.text.map Glyph.toChar =
          sep ++ (next c).1.token.spelling.toList ++ (next c).2.text.map Glyph.toChar ∧
        Separator False sep ∧ (next c).1.token.kind ≠ .endOfText ∧
        (next c).1.token.spelling ≠ "" ∧ (next c).1.token.pos = placeAfter c.pos sep ∧
        (next c).2.pos = placeAfter c.pos (sep ++ (next c).1.token.spelling.toList) := by
  obtain ⟨sep, split, pos, separator⟩ := skipSeparators_spec false c.pos c.text
  simp only [next]
  generalize skipSeparators false c.pos c.text = here at split pos separator
  obtain ⟨text, place⟩ := here
  dsimp only at split pos separator ⊢
  cases text with
  | nil =>
    refine .inl ⟨sep.map Glyph.toChar, by simp [split], ?_, ?_, ?_⟩
    · simpa using separator
    · rw [pos]
    · rw [pos]
  | cons g rest =>
    have whole := lexeme_split g rest
    have spelled : (Glyph.spell (lexeme g rest).taken).toList =
        (lexeme g rest).taken.map Glyph.toChar := by simp [Glyph.spell]
    refine .inr ⟨sep.map Glyph.toChar, ?_, ?_, (lexeme_sound g rest).notEnd,
      spell_ne_empty (lexeme_taken_ne_nil g rest), pos, ?_⟩
    · dsimp only
      rw [spelled, split, ← whole]
      simp
    · simpa using separator
    · dsimp only
      rw [spelled, advance_eq_placeAfter, placeAfter_append, pos]

/-- What scanning finds is laid out in the text from the cursor on. -/
theorem scan_layout (c : Cursor) :
    Layout c.pos (c.text.map Glyph.toChar) (tokens (scan c).1) := by
  fun_induction scan c with
  | case1 c found last =>
    rcases next_spec c with ⟨sep, text, separator, token, -⟩ | ⟨sep, -, -, kind, -⟩
    · rw [text]
      refine .last separator ?_ ?_ ?_ <;> rw [token]
    · exact absurd (by simpa [Token.isEnd] using last) kind
  | case2 c found more rest ih =>
    rcases next_spec c with ⟨sep, -, -, token, -⟩ |
      ⟨sep, text, separator, kind, spelling, pos, place⟩
    · rw [token] at more
      exact absurd rfl more
    · rw [text]
      refine .token separator kind spelling pos ?_
      rw [← place]
      exact ih

/-- Scanning stops at the end of the text, and the end is all that is found from there on. -/
theorem next_scan (c : Cursor) {n : Nat} :
    ∃ t, (tokens (scan c).1).getLast? = some t ∧
      nextTokens n (scan c).2 = List.replicate n ⟨t, none⟩ := by
  fun_induction scan c with
  | case1 c found last =>
    rcases next_spec c with ⟨sep, -, -, token, behind⟩ | ⟨sep, -, -, kind, -⟩
    · refine ⟨_, rfl, ?_⟩
      rw [token, behind]
      generalize placeAfter c.pos sep = p
      induction n with
      | zero => rfl
      | succ n ih =>
        rw [nextTokens, List.replicate_succ]
        exact congrArg _ ih
    · exact absurd (by simpa [Token.isEnd] using last) kind
  | case2 c found more rest ih =>
    obtain ⟨t, last, again⟩ := ih
    refine ⟨t, ?_, again⟩
    rw [tokens, List.map_cons, List.getLast?_cons, ← tokens, last]
    rfl

/-- A token is malformed exactly if something is wrong with it. -/
theorem next_fault (c : Cursor) :
    (next c).1.token.kind = .malformed ↔ (next c).1.fault.isSome = true := by
  simp only [next]
  split
  · exact iff_of_false (by simp) (by simp)
  · next g rest _ => exact (lexeme_sound g rest).fault

/-- Each malformed token is reported once, where it stands. -/
theorem reports_scan (c : Cursor) :
    (reports (scan c).1).map (·.pos) =
      ((tokens (scan c).1).filter (·.kind == .malformed)).map (·.pos) := by
  have one : ∀ (s : Scanned), (s.token.kind = .malformed ↔ s.fault.isSome = true) →
      ∀ found : List Scanned, (reports found).map (·.pos) =
          ((tokens found).filter (·.kind == .malformed)).map (·.pos) →
        (reports (s :: found)).map (·.pos) =
          ((tokens (s :: found)).filter (·.kind == .malformed)).map (·.pos) := by
    intro s fault found rest
    cases h : s.fault with
    | none =>
      have kind : (s.token.kind == .malformed) = false := by simpa [h] using fault
      simpa [reports, tokens, h, kind] using rest
    | some e =>
      have kind : (s.token.kind == .malformed) = true := by simpa [h] using fault
      simpa [reports, tokens, h, kind] using rest
  fun_induction scan c with
  | case1 c found last => exact one _ (next_fault c) [] rfl
  | case2 c found more rest ih => exact one _ (next_fault c) _ ih

/-- A token with the separator before it. -/
structure Piece where
  sep : List Char
  token : Token

/-- The part of a text that the piece is. -/
def Piece.text (x : Piece) : List Char :=
  x.sep ++ x.token.spelling.toList

theorem Layout.exists_pieces {p : Pos} {text : List Char} {ts : List Token}
    (h : Layout p text ts) :
    ∃ (body : List Piece) (last : Piece), ts = (body ++ [last]).map (·.token) ∧
      text = (body ++ [last]).flatMap Piece.text ∧
      (∀ x ∈ body, Separator False x.sep ∧ x.token.spelling ≠ "" ∧
        x.token.kind ≠ .endOfText) ∧
      (Separator True last.sep ∧ last.token.spelling = "" ∧ last.token.kind = .endOfText) ∧
      ∀ before x after, body ++ [last] = before ++ x :: after →
        x.token.pos = placeAfter p (before.flatMap Piece.text ++ x.sep) := by
  induction h with
  | @last p sep t separator kind spelling pos =>
    refine ⟨[], ⟨sep, t⟩, rfl, by simp [Piece.text, spelling], by simp,
      ⟨separator, spelling, kind⟩, ?_⟩
    intro before x after eq
    obtain ⟨rfl, rfl, rfl⟩ : before = [] ∧ x = ⟨sep, t⟩ ∧ after = [] := by
      cases before with
      | nil => simpa [eq_comm] using eq
      | cons y before => simp at eq
    simpa using pos
  | @token p sep t rest ts separator kind spelling pos more ih =>
    obtain ⟨body, last, tokens, text, pieces, ends, places⟩ := ih
    refine ⟨⟨sep, t⟩ :: body, last, by simp [tokens], ?_, ?_, ends, ?_⟩
    · simp [text, Piece.text]
    · intro x member
      rcases List.mem_cons.1 member with rfl | member
      · exact ⟨separator, spelling, kind⟩
      · exact pieces x member
    · intro before x after eq
      cases before with
      | nil =>
        obtain ⟨rfl, -⟩ := List.cons.inj eq
        simpa using pos
      | cons y before =>
        obtain ⟨rfl, rest⟩ := List.cons.inj eq
        rw [places before x after rest, List.flatMap_cons, List.append_assoc, placeAfter_append _
          (Piece.text _)]
        rfl

/-- Scanning is lossless. Every text, with each undecodable byte read as the replacement character,
is the spellings of its tokens with separators around them; only a last comment may lack its line
end. Every token but the end of the text is spelled with something, stands where its position says,
and is reported exactly if it is malformed; and past the end only the end is found again. -/
theorem scan_lossless (file : String) (bytes : List UInt8) :
    Glyph.Decodes bytes (Glyph.decode bytes) ∧ ∃ (body : List Piece) (last : Piece),
      tokens (scan (Cursor.ofBytes file bytes)).1 = (body ++ [last]).map (·.token) ∧
      (Glyph.decode bytes).map Glyph.toChar = (body ++ [last]).flatMap Piece.text ∧
      (∀ x ∈ body, Separator False x.sep ∧ x.token.spelling ≠ "" ∧
        x.token.kind ≠ .endOfText) ∧
      (Separator True last.sep ∧ last.token.spelling = "" ∧ last.token.kind = .endOfText) ∧
      (∀ before x after, body ++ [last] = before ++ x :: after →
        x.token.pos = placeIn file (before.flatMap Piece.text ++ x.sep)) ∧
      (reports (scan (Cursor.ofBytes file bytes)).1).map (·.pos) =
        ((tokens (scan (Cursor.ofBytes file bytes)).1).filter (·.kind == .malformed)).map
          (·.pos) ∧
      ∀ n, nextTokens n (scan (Cursor.ofBytes file bytes)).2 =
        List.replicate n ⟨last.token, none⟩ := by
  let c := Cursor.ofBytes file bytes
  obtain ⟨body, last, found, text, pieces, ends, places⟩ := (scan_layout c).exists_pieces
  refine ⟨Glyph.decodes_decode bytes, body, last, found, text, pieces, ends, ?_, reports_scan c, ?_⟩
  · intro before x after eq
    rw [places before x after eq]
    exact placeAfter_start file _
  · intro n
    obtain ⟨t, final, again⟩ := next_scan c (n := n)
    rw [found] at final
    obtain rfl : last.token = t := by simpa using final
    exact again

end Scanner

end TriangleTam

import TriangleTam.Source
import TriangleTam.Text.Letter
import TriangleTam.Token

/-!
# From text to tokens

Scanning never fails: a lexeme that is not well formed becomes a `malformed` token with a fault,
and scanning goes on behind it. Main statements: `lexeme_split`, a lexeme and what follows it are
the text it was taken from, and `next_lt`, every token but the last takes something from the text.
-/

namespace TriangleTam

open Text (Glyph)

/-- What is wrong with a malformed lexeme. -/
inductive LexicalError where
  | encoding
  | unexpected (c : Char)
  | name (spelling : String)
  | integer (spelling : String)
  | openQuote
  | unclosedChar (spelling : String)
  | encodingInChar
deriving DecidableEq, Repr

namespace LexicalError

/-- What is reported about the lexeme. -/
def message : LexicalError → String
  | encoding => "invalid UTF-8 encoding"
  | unexpected c => "unexpected character " ++ Text.quotedChar c
  | name s => "malformed identifier " ++ Text.quoted s
  | integer s => "malformed integer literal " ++ Text.quoted s
  | openQuote => "unterminated character literal"
  | unclosedChar s => "unterminated character literal " ++ s
  | encodingInChar => "invalid UTF-8 encoding in character literal"

end LexicalError

namespace Scanner

/-- Blanks separate tokens and are otherwise ignored. -/
def isBlank (c : Char) : Bool :=
  c == ' ' || c == '\t' || c == '\n' || c == '\r'

/-- Numerals are written with these digits only. -/
def isDigit (c : Char) : Bool :=
  decide ('0' ≤ c) && decide (c ≤ '9')

/-- What names are made of, apart from underscores. -/
def isLetterOrDigit (c : Char) : Bool :=
  Text.isLetter c || isDigit c

/-- Every operator is one of these characters. -/
def isOperator (c : Char) : Bool :=
  c ∈ ['+', '-', '*', '/', '<', '>', '=', '\\']

/-- A lexeme taken from the front of a text, and the text behind it. -/
structure Lexeme where
  kind : Kind
  taken : List Glyph
  rest : List Glyph
  fault : Option LexicalError
deriving DecidableEq, Repr

/-- A lexeme of a proper category. -/
def Lexeme.good (kind : Kind) (taken rest : List Glyph) : Lexeme :=
  ⟨kind, taken, rest, none⟩

/-- A lexeme that is not well formed. -/
def Lexeme.bad (fault : LexicalError) (taken rest : List Glyph) : Lexeme :=
  ⟨.malformed, taken, rest, some fault⟩

/-- The parts of the name at the front of a text: a run of letters and digits, a run of
underscores, another run of letters and digits, and what follows. -/
structure NameParts where
  head : List Glyph
  bars : List Glyph
  tail : List Glyph
  rest : List Glyph
deriving DecidableEq, Repr

/-- The longest name at the front of a text. -/
def splitName (text : List Glyph) : NameParts where
  head := text.takeWhile (·.all isLetterOrDigit)
  bars := (text.dropWhile (·.all isLetterOrDigit)).takeWhile (·.isChar '_')
  tail := ((text.dropWhile (·.all isLetterOrDigit)).dropWhile (·.isChar '_')).takeWhile
    (·.all isLetterOrDigit)
  rest := ((text.dropWhile (·.all isLetterOrDigit)).dropWhile (·.isChar '_')).dropWhile
    (·.all isLetterOrDigit)

/-- The name as a whole. -/
def NameParts.whole (p : NameParts) : List Glyph :=
  p.head ++ p.bars ++ p.tail

/-- Whether a name is malformed: an odd number of these hold: there is more than one underscore,
something follows the underscores, and there is an upper-case letter anywhere. -/
def NameParts.isMalformed (p : NameParts) : Bool :=
  (decide (1 < p.bars.length) != !p.tail.isEmpty) != p.whole.any (·.all Text.isUpper)

/-- The name at the front of a text, a reserved word or an identifier unless it is malformed. -/
def nameLexeme (text : List Glyph) : Lexeme :=
  let p := splitName text
  if p.isMalformed then .bad (.name (Glyph.spell p.whole)) p.whole p.rest
  else .good (Kind.ofWord (Glyph.spell p.whole)) p.whole p.rest

/-- A run of letters and digits that starts with a digit; a letter in it makes it malformed. -/
def integerLexeme (text : List Glyph) : Lexeme :=
  let whole := text.takeWhile (·.all isLetterOrDigit)
  let rest := text.dropWhile (·.all isLetterOrDigit)
  if whole.any (·.all Text.isLetter) then .bad (.integer (Glyph.spell whole)) whole rest
  else .good .integer whole rest

/-- The lexeme that starts with the quote `q`; a literal is one character between two quotes. -/
def charLexeme (q : Glyph) : List Glyph → Lexeme
  | [] => .bad .openQuote [q] []
  | .invalid :: .char '\'' :: rest => .bad .encodingInChar [q, .invalid, .char '\''] rest
  | .invalid :: rest => .bad .encodingInChar [q, .invalid] rest
  | .char c :: .char '\'' :: rest => .good .character [q, .char c, .char '\''] rest
  | .char c :: rest => .bad (.unclosedChar (Glyph.spell [q, .char c])) [q, .char c] rest

/-- The mark that is spelled with the one character `c`. -/
def markOfChar? (c : Char) : Option Mark :=
  [Mark.semicolon, .is, .lparen, .rparen, .lbrace, .rbrace].find? fun m =>
    m.spelling == String.singleton c

/-- The lexeme of a text that starts with a punctuation mark, or with a character that starts
nothing. -/
def markLexeme (c : Char) (rest : List Glyph) : Lexeme :=
  if c = ':' then
    match rest with
    | .char '=' :: rest => .good (.mark .becomes) [.char ':', .char '='] rest
    | rest => .good (.mark .colon) [.char ':'] rest
  else match markOfChar? c with
    | some m => .good (.mark m) [.char c] rest
    | none => .bad (.unexpected c) [.char c] rest

/-- The lexeme at the front of the text `g :: rest`, which starts with no blank or comment. -/
def lexeme (g : Glyph) (rest : List Glyph) : Lexeme :=
  match g with
  | .invalid => .bad .encoding [.invalid] rest
  | .char c =>
    if Text.isLetter c then nameLexeme (.char c :: rest)
    else if isDigit c then integerLexeme (.char c :: rest)
    else if isOperator c then .good .operator [.char c] rest
    else if c = '\'' then charLexeme (.char c) rest
    else markLexeme c rest

/-- A token with what is wrong with it. -/
structure Scanned where
  token : Token
  fault : Option LexicalError
deriving DecidableEq, Repr

/-- Drops blanks and comments. A comment runs from `!` through the end of its line. -/
def skipSeparators (inComment : Bool) (p : Pos) : List Glyph → Cursor
  | [] => ⟨[], p⟩
  | g :: rest =>
    if inComment then skipSeparators (!g.isChar '\n') (p.after (g.isChar '\n')) rest
    else if g.isChar '!' then skipSeparators true (p.after false) rest
    else if g.all isBlank then skipSeparators false (p.after (g.isChar '\n')) rest
    else ⟨g :: rest, p⟩

/-- The next token of the text, and the cursor behind it. At the end of the text the end is found
again and again. -/
def next (c : Cursor) : Scanned × Cursor :=
  let here := skipSeparators false c.pos c.text
  match here.text with
  | [] => (⟨⟨.endOfText, "", here.pos⟩, none⟩, here)
  | g :: rest =>
    let l := lexeme g rest
    (⟨⟨l.kind, Glyph.spell l.taken, here.pos⟩, l.fault⟩, ⟨l.rest, Cursor.advance here.pos l.taken⟩)

theorem skipSeparators_length_le (inComment : Bool) (p : Pos) (text : List Glyph) :
    (skipSeparators inComment p text).text.length ≤ text.length := by
  induction text generalizing inComment p with
  | nil => simp [skipSeparators]
  | cons g rest ih =>
    unfold skipSeparators
    split
    · exact Nat.le_succ_of_le (ih _ _)
    · split
      · exact Nat.le_succ_of_le (ih _ _)
      · split
        · exact Nat.le_succ_of_le (ih _ _)
        · simp

theorem nameLexeme_taken (text : List Glyph) :
    (nameLexeme text).taken = (splitName text).whole := by
  simp only [nameLexeme]
  split <;> rfl

theorem nameLexeme_rest (text : List Glyph) :
    (nameLexeme text).rest = (splitName text).rest := by
  simp only [nameLexeme]
  split <;> rfl

theorem nameLexeme_split (text : List Glyph) :
    (nameLexeme text).taken ++ (nameLexeme text).rest = text := by
  rw [nameLexeme_taken, nameLexeme_rest]
  simp [splitName, NameParts.whole, List.append_assoc, List.takeWhile_append_dropWhile]

theorem integerLexeme_taken (text : List Glyph) :
    (integerLexeme text).taken = text.takeWhile (·.all isLetterOrDigit) := by
  simp only [integerLexeme]
  split <;> rfl

theorem integerLexeme_rest (text : List Glyph) :
    (integerLexeme text).rest = text.dropWhile (·.all isLetterOrDigit) := by
  simp only [integerLexeme]
  split <;> rfl

theorem integerLexeme_split (text : List Glyph) :
    (integerLexeme text).taken ++ (integerLexeme text).rest = text := by
  rw [integerLexeme_taken, integerLexeme_rest, List.takeWhile_append_dropWhile]

theorem charLexeme_split (q : Glyph) (text : List Glyph) :
    (charLexeme q text).taken ++ (charLexeme q text).rest = q :: text := by
  unfold charLexeme
  split <;> simp [Lexeme.good, Lexeme.bad]

theorem markLexeme_split (c : Char) (rest : List Glyph) :
    (markLexeme c rest).taken ++ (markLexeme c rest).rest = .char c :: rest := by
  unfold markLexeme
  split
  · next h => subst h; split <;> simp [Lexeme.good]
  · split <;> simp [Lexeme.good, Lexeme.bad]

/-- A lexeme and what follows it are the text it was taken from. -/
theorem lexeme_split (g : Glyph) (rest : List Glyph) :
    (lexeme g rest).taken ++ (lexeme g rest).rest = g :: rest := by
  cases g with
  | invalid => simp [lexeme, Lexeme.bad]
  | char c =>
    simp only [lexeme]
    split
    · exact nameLexeme_split _
    · split
      · exact integerLexeme_split _
      · split
        · simp [Lexeme.good]
        · split
          · exact charLexeme_split _ _
          · exact markLexeme_split _ _

theorem nameLexeme_taken_ne_nil {c : Char} (h : Text.isLetter c = true) (rest : List Glyph) :
    (nameLexeme (.char c :: rest)).taken ≠ [] := by
  have hc : (Glyph.char c).all isLetterOrDigit = true := by simp [Glyph.all, isLetterOrDigit, h]
  rw [nameLexeme_taken]
  simp [splitName, NameParts.whole, hc]

theorem integerLexeme_taken_ne_nil {c : Char} (h : isDigit c = true) (rest : List Glyph) :
    (integerLexeme (.char c :: rest)).taken ≠ [] := by
  have hc : (Glyph.char c).all isLetterOrDigit = true := by simp [Glyph.all, isLetterOrDigit, h]
  rw [integerLexeme_taken]
  simp [hc]

/-- Every lexeme takes at least one glyph. -/
theorem lexeme_taken_ne_nil (g : Glyph) (rest : List Glyph) : (lexeme g rest).taken ≠ [] := by
  cases g with
  | invalid => simp [lexeme, Lexeme.bad]
  | char c =>
    simp only [lexeme]
    split
    · next h => exact nameLexeme_taken_ne_nil h rest
    · split
      · next h => exact integerLexeme_taken_ne_nil h rest
      · split
        · simp [Lexeme.good]
        · split
          · unfold charLexeme
            split <;> simp [Lexeme.good, Lexeme.bad]
          · unfold markLexeme
            split
            · split <;> simp [Lexeme.good]
            · split <;> simp [Lexeme.good, Lexeme.bad]

theorem lexeme_rest_length_le (g : Glyph) (rest : List Glyph) :
    (lexeme g rest).rest.length ≤ rest.length := by
  have split := congrArg List.length (lexeme_split g rest)
  have taken := List.length_pos_iff.2 (lexeme_taken_ne_nil g rest)
  simp only [List.length_append, List.length_cons] at split
  omega

/-- Every token but the end of the text takes something from the text. -/
theorem next_lt {c : Cursor} (h : ¬ (next c).1.token.isEnd = true) :
    (next c).2.text.length < c.text.length := by
  have skipped := skipSeparators_length_le false c.pos c.text
  simp only [next] at h ⊢
  split at h
  · simp [Token.isEnd] at h
  · next g rest heq =>
    have shorter := lexeme_rest_length_le g rest
    simp only [heq, List.length_cons] at skipped
    exact Nat.lt_of_lt_of_le (Nat.lt_succ_of_le shorter) skipped

/-- All tokens of the text with their faults, and the cursor behind them. The last one, and no
other, is the end of the text. -/
def scan (c : Cursor) : List Scanned × Cursor :=
  let found := next c
  if _h : found.1.token.isEnd = true then ([found.1], found.2)
  else
    let more := scan found.2
    (found.1 :: more.1, more.2)
termination_by c.text.length
decreasing_by exact next_lt ‹_›

/-- The first `n` tokens from the cursor on. -/
def nextTokens : Nat → Cursor → List Scanned
  | 0, _ => []
  | n + 1, c => (next c).1 :: nextTokens n (next c).2

/-- The tokens of a scan. -/
def tokens (found : List Scanned) : List Token :=
  found.map (·.token)

/-- The faults of a scan, each at the position of its token. -/
def reports (found : List Scanned) : List (Report LexicalError) :=
  found.filterMap fun s => s.fault.map fun e => ⟨s.token.pos, e⟩

end Scanner

end TriangleTam

import TriangleTam.Pos
import TriangleTam.Text.Decimal
import TriangleTam.Text.Quoted

/-!
# Tokens

The categories of tokens, the reserved words among them, and tokens themselves: a category, the
exact spelling, and the position of the first character. Built-in names such as `integer`, `true`
or `putint` are ordinary identifiers.
-/

namespace TriangleTam

/-- The reserved words. -/
inductive Keyword where
  | const | do_ | else_ | endif | if_ | ifeither | in_ | let_ | or | pass | then_ | var | while_
deriving DecidableEq, Repr

namespace Keyword

/-- Every reserved word, in alphabetical order. -/
def all : List Keyword :=
  [const, do_, else_, endif, if_, ifeither, in_, let_, or, pass, then_, var, while_]

/-- The only spelling of a reserved word. -/
def spelling : Keyword → String
  | const => "const"
  | do_ => "do"
  | else_ => "else"
  | endif => "endif"
  | if_ => "if"
  | ifeither => "ifeither"
  | in_ => "in"
  | let_ => "let"
  | or => "or"
  | pass => "pass"
  | then_ => "then"
  | var => "var"
  | while_ => "while"

/-- The reserved word with this spelling. -/
def ofSpelling? (word : String) : Option Keyword :=
  all.find? (·.spelling == word)

end Keyword

/-- The punctuation marks. -/
inductive Mark where
  | colon | semicolon | becomes | is | lparen | rparen | lbrace | rbrace
deriving DecidableEq, Repr

namespace Mark

/-- Every mark, in the order of their category numbers. -/
def all : List Mark := [colon, semicolon, becomes, is, lparen, rparen, lbrace, rbrace]

/-- The only spelling of a mark. -/
def spelling : Mark → String
  | colon => ":"
  | semicolon => ";"
  | becomes => ":="
  | is => "~"
  | lparen => "("
  | rparen => ")"
  | lbrace => "\x7b"
  | rbrace => "\x7d"

end Mark

/-- The category of a token. A token list made by hand may hold categories that do not exist. -/
inductive Kind where
  | integer
  | character
  | identifier
  | operator
  | keyword (word : Keyword)
  | mark (mark : Mark)
  | endOfText
  | malformed
  | unknown (code : Nat)
deriving DecidableEq, Repr

namespace Kind

/-- The categories in the order of their numbers, from zero. -/
def all : List Kind :=
  [integer, character, identifier, operator] ++ Keyword.all.map keyword ++ Mark.all.map mark
    ++ [endOfText, malformed]

/-- The category with a given number, which is taken as an unsigned 64-bit word. -/
def ofCode (code : Int) : Kind :=
  let n := (code % 18446744073709551616).toNat
  all.getD n (unknown n)

/-- How the category is called in messages. -/
def name : Kind → String
  | integer => "integer literal"
  | character => "character literal"
  | identifier => "identifier"
  | operator => "operator"
  | keyword w => w.spelling
  | mark m => m.spelling
  | endOfText => "end of text"
  | malformed => "invalid token"
  | unknown code => "kind(" ++ toString code ++ ")"

/-- Whether the category is a reserved word. -/
def isKeyword : Kind → Bool
  | keyword _ => true
  | _ => false

/-- Whether the category is a literal. -/
def isLiteral : Kind → Bool
  | integer | character => true
  | _ => false

/-- Whether tokens of the category have one spelling only, by which messages name them. -/
def isFixed : Kind → Bool
  | keyword _ | mark _ => true
  | _ => false

/-- Whether an expression can start with a token of the category. -/
def startsExpr : Kind → Bool
  | integer | character | identifier | operator | mark .lparen => true
  | _ => false

/-- Whether a command starts with a token of the category. The empty command starts with none. -/
def startsCmd : Kind → Bool
  | identifier | mark .lbrace => true
  | keyword .let_ | keyword .if_ | keyword .ifeither | keyword .while_ | keyword .pass => true
  | _ => false

/-- Whether a token of the category may follow a command. -/
def endsCmd : Kind → Bool
  | mark .semicolon | mark .rbrace | endOfText => true
  | keyword .else_ | keyword .endif | keyword .in_ | keyword .or | keyword .do_ => true
  | _ => false

/-- The category of a well-formed name: a reserved word, or else an identifier. -/
def ofWord (word : String) : Kind :=
  match Keyword.ofSpelling? word with
  | some w => keyword w
  | none => identifier

/-- How the category is called where it was expected. -/
def expected (k : Kind) : String :=
  if k.isFixed then "'" ++ k.name ++ "'" else k.name

end Kind

/-- A token of the program text. -/
structure Token where
  kind : Kind
  spelling : String
  pos : Pos
deriving DecidableEq, Repr

namespace Token

/-- Whether the token marks the end of the text. -/
def isEnd (t : Token) : Bool :=
  t.kind == .endOfText

/-- How the token is called where it was found. -/
def describe (t : Token) : String :=
  if t.isEnd then "end of text"
  else if t.kind.isFixed then "'" ++ t.spelling ++ "'"
  else t.kind.name ++ " '" ++ t.spelling ++ "'"

/-- The token with all its parts, as in `identifier "x" at 3:7`. -/
def render (t : Token) : String :=
  t.kind.name ++ " " ++ Text.quoted t.spelling ++ " at " ++ t.pos.render

/-- A spelling between double quotes; only the quote, the backslash and the common control
characters are escaped. -/
def showSpelling (s : String) : String :=
  let shown (c : Char) : String :=
    match c with
    | '\n' => "\\n"
    | '\t' => "\\t"
    | '\r' => "\\r"
    | '\\' => "\\\\"
    | '"' => "\\\""
    | c => String.singleton c
  "\"" ++ String.join (s.toList.map shown) ++ "\""

/-- One row of the token table. -/
def row (position category spelling : String) : String :=
  Text.padRight 20 position ++ " " ++ Text.padRight 16 category ++ " " ++ spelling ++ "\n"

/-- The table of tokens: a heading, a rule, and a row for each token. -/
def table (tokens : List Token) : String :=
  let dashes (n : Nat) : String := String.ofList (List.replicate n '-')
  row "POSITION" "TOKEN" "SPELLING" ++ row (dashes 20) (dashes 16) (dashes 20)
    ++ String.join (tokens.map fun t => row t.pos.render t.kind.name (showSpelling t.spelling))

end Token

end TriangleTam

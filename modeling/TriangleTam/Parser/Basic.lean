import TriangleTam.Token
import TriangleTam.Tree

/-!
# Parsing: tokens, reports and steps

A parser goes through the tokens before the end of the text. It never fails: where something is
missing it reports that, at most once per token, and goes on. When too many problems were reported
it drops what is left of the tokens, so that everything still open ends at the end of the text.
-/

namespace TriangleTam

/-- What a parser finds wrong. -/
inductive ParseError where
  | expected (kind : Kind) (found : Token)
  | noCommand
  | noAssignOrCall
  | noDeclaration
  | noExpression
  | noParameter
  | noIdentifier (found : Token)
deriving DecidableEq, Repr

namespace ParseError

/-- What is reported. -/
def message : ParseError → String
  | expected k t => "expected " ++ k.expected ++ " but found " ++ t.describe
  | noCommand => "expected command"
  | noAssignOrCall => "expected ':=' or '(' after identifier"
  | noDeclaration => "expected declaration"
  | noExpression => "expected expression"
  | noParameter => "expected parameter"
  | noIdentifier t => "expected identifier but found " ++ t.describe

/-- What is reported last when there are too many problems. -/
def abortMessage : String :=
  "too many errors; aborting parse"

end ParseError

namespace Parser

/-- The number of problems after which a parser gives up unless it is told otherwise. -/
def defaultLimit : Nat := 10

/-- What stays the same while parsing. -/
structure Config where
  /-- The position of the end of the text. -/
  endPos : Pos
  /-- Missing tokens are not reported. -/
  lenient : Bool
  /-- The number of problems after which the parser gives up. -/
  limit : Nat
deriving DecidableEq, Repr

/-- The token at the front, which is the end of the text if no tokens are left. -/
def Config.current (cfg : Config) : List Token → Token
  | [] => ⟨.endOfText, "", cfg.endPos⟩
  | t :: _ => t

/-- A problem at a token. -/
structure Finding where
  /-- How many tokens were left, that one included. -/
  left : Nat
  pos : Pos
  error : ParseError
deriving DecidableEq, Repr

/-- The problems found so far. -/
abbrev Log := List Finding

/-- Whether so many problems were found that the parser has given up. -/
def Config.isFull (cfg : Config) (log : Log) : Bool :=
  decide (cfg.limit ≤ log.length)

/-- What a step of the parser makes of the tokens `ts`: a value, the tokens that are left, and the
problems found so far. -/
structure Parsed (α : Type) (ts : List Token) where
  value : α
  rest : List Token
  log : Log
  le : rest.length ≤ ts.length

/-- A step that takes the token `t` as well, and then what `r` takes of the tokens behind it. -/
def Parsed.behind {α : Type} {ts : List Token} (t : Token) (r : Parsed α ts) : Parsed α (t :: ts) :=
  ⟨r.value, r.rest, r.log, Nat.le_succ_of_le r.le⟩

variable (cfg : Config)

/-- Reports a problem at the token at the front. There is at most one report for each token, and
none for a malformed one, which was reported when it was scanned. -/
def report (e : ParseError) (ts : List Token) (log : Log) : Parsed Unit ts :=
  let t := cfg.current ts
  if cfg.isFull log || log.getLast?.any (·.left == ts.length) || t.kind == .malformed then
    ⟨(), ts, log, Nat.le_refl _⟩
  else
    let log := log ++ [⟨ts.length, t.pos, e⟩]
    if cfg.isFull log then ⟨(), [], log, Nat.zero_le _⟩ else ⟨(), ts, log, Nat.le_refl _⟩

/-- Reports a missing token, unless that is not wanted. -/
def reportMissing (kind : Kind) (ts : List Token) (log : Log) : Parsed Unit ts :=
  if cfg.lenient then ⟨(), ts, log, Nat.le_refl _⟩
  else report cfg (.expected kind (cfg.current ts)) ts log

/-- Takes a token of the given category. If there is none, everything goes on as if it were
there. -/
def accept (kind : Kind) : (ts : List Token) → (log : Log) → Parsed Unit ts
  | [], log => reportMissing cfg kind [] log
  | t :: ts, log =>
    if t.kind = kind then ⟨(), ts, log, Nat.le_succ _⟩ else reportMissing cfg kind (t :: ts) log

/-- Reports a missing identifier, which is then taken to have an empty name. -/
def missingIdent (ts : List Token) (log : Log) : Parsed Ident ts :=
  let r := report cfg (.noIdentifier (cfg.current ts)) ts log
  ⟨⟨(cfg.current ts).pos, "", none⟩, r.rest, r.log, r.le⟩

/-- Takes an identifier. -/
def ident : (ts : List Token) → (log : Log) → Parsed Ident ts
  | [], log => missingIdent cfg [] log
  | t :: ts, log =>
    if t.kind = .identifier then ⟨⟨t.pos, t.spelling, none⟩, ts, log, Nat.le_succ _⟩
    else missingIdent cfg (t :: ts) log

/-- Drops tokens as long as `p` holds of their category. -/
def skipWhile (p : Kind → Bool) (ts : List Token) : List Token :=
  ts.dropWhile fun t => p t.kind

theorem skipWhile_length_le (p : Kind → Bool) (ts : List Token) :
    (skipWhile p ts).length ≤ ts.length :=
  (List.dropWhile_sublist _).length_le

end Parser

end TriangleTam

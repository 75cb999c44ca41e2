import TriangleTam.Parser.Cmd

/-!
# Parsing programs

A program is a command up to the end of the text. What is left over after that command is reported,
and parsing goes on at the next command, so that the rest is still looked at.
-/

namespace TriangleTam.Parser

/-- The command `c` and then `next`, as one sequence without sequences in it. -/
def appendCmd (c next : Cmd) : Cmd :=
  let more := match next with
    | .seq _ cs => cs
    | d => [d]
  match c with
  | .seq pos cs => .seq pos (cs ++ more)
  | d => .seq d.pos (d :: more)

/-- Takes what is left over after the command `c`, up to the end of the text. -/
def leftover (cfg : Config) (c : Cmd) : (ts : List Token) → (log : Log) → Parsed Cmd ts
  | [], log => ⟨c, [], log, Nat.le_refl _⟩
  | t :: ts, log =>
    if t.isEnd then ⟨c, t :: ts, log, Nat.le_refl _⟩
    else
      let ⟨(), ts₁, log, le₁⟩ := accept cfg .endOfText (t :: ts) log
      let stray (k : Kind) : Bool :=
        !(k == .mark .semicolon || k == .endOfText || k.startsCmd)
      have le₂ := Nat.le_trans (skipWhile_length_le stray ts₁) le₁
      match h : skipWhile stray ts₁ with
      | [] => ⟨c, [], log, Nat.zero_le _⟩
      | u :: us =>
        have le₃ : us.length + 1 ≤ ts.length + 1 := by
          rw [h] at le₂
          exact le₂
        if u.kind = .mark .semicolon then
          let ⟨next, ts₂, log, le₄⟩ := command cfg us log
          let r := leftover cfg (appendCmd c next) ts₂ log
          ⟨r.value, r.rest, r.log, Nat.le_trans r.le
            (Nat.le_trans le₄ (Nat.le_trans (Nat.le_succ _) le₃))⟩
        else if starts : u.kind.startsCmd then
          let next := command cfg (u :: us) log
          -- The command takes `u` at least, as it starts there.
          have shorter := Nat.lt_of_lt_of_le (command_length_lt cfg starts us log) le₃
          let r := leftover cfg (appendCmd c next.value) next.rest next.log
          ⟨r.value, r.rest, r.log, Nat.le_trans r.le (Nat.le_trans next.le le₃)⟩
        else ⟨c, u :: us, log, le₃⟩
termination_by ts => ts.length
decreasing_by
  · exact Nat.lt_of_le_of_lt le₄ le₃
  · exact shorter

/-- The tokens before the end of the text, and the position of that end. If the end is not marked,
it is where the last token is. -/
def split (tokens : List Token) : List Token × Pos :=
  match tokens.getLast? with
  | none => ([], Pos.none)
  | some t => if t.isEnd then (tokens.dropLast, t.pos) else (tokens, t.pos)

/-- The number of problems after which to give up: the one that is wanted, if it is positive. -/
def limitOf (wanted : Int) : Nat :=
  if wanted ≤ 0 then defaultLimit else wanted.toNat

/-- A parsed program and the problems found in it. -/
structure Outcome where
  program : Program
  findings : Log
  /-- The parser gave up before the end. -/
  aborted : Bool

namespace Outcome

/-- Everything that is reported about the program. If the parser gave up, that is said last, where
the last problem is. -/
def reports (o : Outcome) : List (Report String) :=
  let found := o.findings.map fun f => ⟨f.pos, f.error.message⟩
  match o.findings.getLast? with
  | some last => if o.aborted then found ++ [⟨last.pos, ParseError.abortMessage⟩] else found
  | none => found

end Outcome

/-- Parses a list of tokens. -/
def parse (tokens : List Token) (lenient : Bool) (limit : Int) : Outcome :=
  let (ts, endPos) := split tokens
  let cfg : Config := ⟨endPos, lenient, limitOf limit⟩
  let first := command cfg ts []
  let all := leftover cfg first.value first.rest first.log
  ⟨⟨(cfg.current ts).pos, all.value⟩, all.log, cfg.isFull all.log⟩

end TriangleTam.Parser

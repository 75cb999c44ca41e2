import TriangleTam.Proofs.Parser.Recovery
import TriangleTam.Proofs.Parser.Terminals

/-!
# Sequences

The trees that the parser makes of any tokens, however wrong, keep to one form: a sequence has two
elements or more, none of which is a sequence again, and the commands inside a `let`, a loop or a
branch are single ones. Sequences come about in three places. A list of commands or of declarations
is a sequence only if a semicolon was found; and where something is left over behind a command, the
commands that are read there are added to those of the program.

`nextPiece` says where the parser goes on behind a command, and `leftover_run` says that all it does
with what is left over is to go on like this, from one piece to the next.
-/

namespace TriangleTam

/-- Whether the declaration is a sequence of declarations. -/
def Decl.isSeq : Decl → Bool
  | .seq .. => true
  | _ => false

/-- A sequence has at least two elements and no sequence among them, and the parts of a command that
take one command have no sequence there. -/
@[simp] def Node.Shaped : Node → Prop
  | .cmd (.seq _ cs) => 2 ≤ cs.length ∧ ∀ c ∈ cs, (Node.cmd c).isSeq = false
  | .decl (.seq _ ds) => 2 ≤ ds.length ∧ ∀ d ∈ ds, d.isSeq = false
  | .cmd (.letIn _ _ body) | .cmd (.whileDo _ _ body) => (Node.cmd body).isSeq = false
  | .cmd (.ifElse _ _ yes no) | .cmd (.ifEither _ _ _ yes no) =>
    (Node.cmd yes).isSeq = false ∧ (Node.cmd no).isSeq = false
  | _ => True

mutual

theorem Expr.shaped : ∀ x : Expr, x.All Node.Shaped
  | .int .. | .char .. | .name .. | .bad .. => by simp
  | .unary _ _ _ x => by simpa using x.shaped
  | .binary _ _ x _ y => by simpa using ⟨x.shaped, y.shaped⟩
  | .call _ _ _ a => by simpa using a.shaped

theorem Arg.shaped : ∀ a : Arg, a.All Node.Shaped
  | .value _ x => by simpa using x.shaped
  | .var .. | .blank _ | .bad _ => by simp

end

namespace Parser

variable {cfg : Config}

section Lists

/-- A command that is no sequence, with no misshapen one in it. -/
structure Solo (c : Cmd) : Prop where
  plain : (Node.cmd c).isSeq = false
  shaped : c.All Node.Shaped

/-- A declaration that is no sequence, with no misshapen one in it. -/
structure SoloDecl (d : Decl) : Prop where
  plain : d.isSeq = false
  shaped : d.All Node.Shaped

theorem shaped_seq {cs : List Cmd} (several : 2 ≤ cs.length) (solo : ∀ c ∈ cs, Solo c) (pos : Pos) :
    (Cmd.seq pos cs).All Node.Shaped :=
  Cmd.all_seq.2 ⟨⟨several, fun c member => (solo c member).plain⟩,
    fun c member => (solo c member).shaped⟩

theorem shaped_joinCmds {c : Cmd} {cs : List Cmd} (first : Solo c) (rest : ∀ d ∈ cs, Solo d)
    (pos : Pos) : (joinCmds pos c cs).All Node.Shaped := by
  cases cs with
  | nil => exact first.shaped
  | cons d cs =>
    refine shaped_seq (by simp) (fun e member => ?_) pos
    rcases List.mem_cons.1 member with rfl | member
    · exact first
    · exact rest e member

theorem shaped_joinDecls {d : Decl} {ds : List Decl} (first : SoloDecl d)
    (rest : ∀ e ∈ ds, SoloDecl e) (pos : Pos) : (joinDecls pos d ds).All Node.Shaped := by
  cases ds with
  | nil => exact first.shaped
  | cons e ds =>
    have all : ∀ f ∈ d :: e :: ds, SoloDecl f := by
      intro f member
      rcases List.mem_cons.1 member with rfl | member
      · exact first
      · exact rest f member
    exact Decl.all_seq.2 ⟨⟨by simp, fun f member => (all f member).plain⟩,
      fun f member => (all f member).shaped⟩

/-- A command without misshapen ones in it is made of commands that are no sequences. -/
theorem solo_parts {c : Cmd} (shaped : c.All Node.Shaped) : ∀ p ∈ c.parts, Solo p := by
  intro p member
  by_cases plain : (Node.cmd c).isSeq = false
  · cases c with
    | seq pos cs => cases plain
    | _ =>
      obtain rfl := List.mem_singleton.1 member
      exact ⟨plain, shaped⟩
  · cases c with
    | seq pos cs =>
      obtain ⟨⟨-, alone⟩, inside⟩ := Cmd.all_seq.1 shaped
      exact ⟨alone p member, inside p member⟩
    | _ => exact absurd rfl plain

theorem length_parts_pos {c : Cmd} (shaped : c.All Node.Shaped) : 0 < c.parts.length := by
  cases c with
  | seq pos cs =>
    have several : 2 ≤ cs.length := (Cmd.all_seq.1 shaped).1.1
    exact Nat.lt_of_lt_of_le Nat.two_pos several
  | _ => exact Nat.one_pos

/-- Adding commands to others is joining the lists. -/
theorem exists_appendCmd_parts (c next : Cmd) :
    ∃ pos, appendCmd c next = .seq pos (c.parts ++ next.parts) := by
  cases c with
  | seq pos cs => cases next <;> exact ⟨pos, rfl⟩
  | _ => cases next <;> exact ⟨_, rfl⟩

theorem parts_appendCmd (c next : Cmd) : (appendCmd c next).parts = c.parts ++ next.parts := by
  obtain ⟨pos, eq⟩ := exists_appendCmd_parts c next
  rw [eq]
  rfl

theorem shaped_appendCmd {c next : Cmd} (first : c.All Node.Shaped) (rest : next.All Node.Shaped) :
    (appendCmd c next).All Node.Shaped := by
  obtain ⟨pos, eq⟩ := exists_appendCmd_parts c next
  have le₁ := length_parts_pos first
  have le₂ := length_parts_pos rest
  rw [eq]
  apply shaped_seq
  · rw [List.length_append]
    omega
  · intro p member
    rcases List.mem_append.1 member with member | member
    · exact solo_parts first p member
    · exact solo_parts rest p member

end Lists

section Declarations

theorem singleDecl_solo (ts : List Token) (log : Log) :
    SoloDecl (singleDecl cfg ts log).value := by
  cases ts with
  | nil => exact ⟨rfl, by simp [singleDecl, missingDecl]⟩
  | cons t ts =>
    rw [singleDecl]
    split
    · exact ⟨rfl, by simpa [constDecl] using Expr.shaped _⟩
    · split
      · exact ⟨rfl, by simp [varDecl]⟩
      · exact ⟨rfl, by simp [missingDecl]⟩

theorem declTail_solo (ts : List Token) (log : Log) :
    ∀ d ∈ (declTail cfg ts log).value, SoloDecl d := by
  cases ts with
  | nil =>
    rw [declTail]
    intro d member
    cases member
  | cons t ts =>
    have le := (singleDecl cfg ts log).le
    rw [declTail]
    split
    · intro d member
      rcases List.mem_cons.1 member with rfl | member
      · exact singleDecl_solo ts log
      · exact declTail_solo _ _ d member
    · intro d member
      cases member
termination_by ts.length
decreasing_by
  all_goals
    simp only [List.length_cons]
    omega

theorem declaration_shaped (ts : List Token) (log : Log) :
    (declaration cfg ts log).value.All Node.Shaped :=
  shaped_joinDecls (singleDecl_solo ts log) (declTail_solo _ _) _

end Declarations

section Commands

theorem badCmd_solo (e : ParseError) (ts : List Token) (log : Log) :
    Solo (badCmd cfg e ts log).value :=
  ⟨rfl, by simp [badCmd]⟩

theorem assignOrCall_solo (t : Token) (ts : List Token) (log : Log) :
    Solo (assignOrCall cfg t ts log).value := by
  cases ts with
  | nil => exact badCmd_solo _ [] log
  | cons p ts =>
    rw [assignOrCall]
    split
    · exact ⟨rfl, by simpa using Expr.shaped _⟩
    · split
      · exact ⟨rfl, by simpa using Arg.shaped _⟩
      · exact badCmd_solo _ (p :: ts) log

theorem solo_block {body : Cmd} (inside : body.All Node.Shaped) (p q : Pos) :
    Solo (.block p body q) :=
  ⟨rfl, by simpa using inside⟩

theorem solo_letIn {d : Decl} {body : Cmd} (declared : d.All Node.Shaped) (inside : Solo body)
    (pos : Pos) : Solo (.letIn pos d body) :=
  ⟨rfl, Cmd.all_letIn.2 ⟨inside.plain, declared, inside.shaped⟩⟩

theorem solo_whileDo (cond : Expr) {body : Cmd} (inside : Solo body) (pos : Pos) :
    Solo (.whileDo pos cond body) :=
  ⟨rfl, Cmd.all_whileDo.2 ⟨inside.plain, cond.shaped, inside.shaped⟩⟩

theorem solo_ifElse (cond : Expr) {yes no : Cmd} (arms : Solo yes ∧ Solo no) (pos : Pos) :
    Solo (.ifElse pos cond yes no) :=
  ⟨rfl, Cmd.all_ifElse.2
    ⟨⟨arms.1.plain, arms.2.plain⟩, cond.shaped, arms.1.shaped, arms.2.shaped⟩⟩

theorem solo_ifEither (cond alt : Expr) {yes no : Cmd} (arms : Solo yes ∧ Solo no) (pos : Pos) :
    Solo (.ifEither pos cond alt yes no) :=
  ⟨rfl, Cmd.all_ifEither.2
    ⟨⟨arms.1.plain, arms.2.plain⟩, cond.shaped, alt.shaped, arms.1.shaped, arms.2.shaped⟩⟩

-- The recursion is that of the parser, with the same measures.
mutual

theorem command_shaped (ts : List Token) (log : Log) :
    (command cfg ts log).value.All Node.Shaped := by
  have le := (single cfg ts log).le
  rw [command]
  exact shaped_joinCmds (single_solo ts log) (cmdTail_solo _ _) _
termination_by 4 * ts.length + 2
decreasing_by all_goals omega

theorem cmdTail_solo : ∀ (ts : List Token) (log : Log), ∀ c ∈ (cmdTail cfg ts log).value, Solo c
  | [], log => by
    rw [cmdTail]
    intro c member
    cases member
  | t :: ts, log => by
    have le := (single cfg ts log).le
    rw [cmdTail]
    split
    · intro c member
      rcases List.mem_cons.1 member with rfl | member
      · exact single_solo ts log
      · exact cmdTail_solo _ _ c member
    · intro c member
      cases member
termination_by ts => 4 * ts.length + 1
decreasing_by
  all_goals
    simp only [List.length_cons]
    omega

theorem single_solo : ∀ (ts : List Token) (log : Log), Solo (single cfg ts log).value
  | [], log => by
    rw [single]
    exact ⟨rfl, by simp⟩
  | t :: ts, log => by
    rw [single_cons]
    split
    · exact started_solo t ts log
    · split
      · exact ⟨rfl, by simp⟩
      · exact badCmd_solo _ (t :: ts) log
termination_by ts => 4 * ts.length
decreasing_by
  all_goals
    simp only [List.length_cons]
    omega

theorem started_solo (t : Token) (ts : List Token) (log : Log) :
    Solo (started cfg t ts log).value := by
  have cond : Moves cfg Inner (ts, log) (expr cfg ts log).state := expr_moves ts log
  have afterCond := cond.length_le
  rw [started]
  split
  · exact assignOrCall_solo t ts log
  · rw [blockCmd]
    exact solo_block (command_shaped ts log) _ _
  · rw [letCmd]
    have word : Moves cfg (fun _ => True) (ts, log) _ :=
      (declaration_moves ts log).trans (accept_moves_any (.keyword .in_) _ _)
    have le := word.length_le
    exact solo_letIn (declaration_shaped ts log) (single_solo _ _) _
  · rw [ifCmd]
    exact solo_ifElse _ (branches_solo _ _) _
  · rw [ifEitherCmd]
    have or_ : Inner (.keyword .or) := by decide
    have alt := (cond.trans (accept_moves or_ _ _)).trans (expr_moves _ _)
    have le := alt.length_le
    exact solo_ifEither _ _ (branches_solo _ _) _
  · rw [whileCmd]
    have do_ : Inner (.keyword .do_) := by decide
    have le := (cond.trans (accept_moves do_ _ _)).length_le
    exact solo_whileDo _ (single_solo _ _) _
  · exact ⟨rfl, by simp⟩
termination_by 4 * ts.length + 3
decreasing_by all_goals omega

theorem branches_solo (ts : List Token) (log : Log) :
    Solo (branches cfg ts log).value.1 ∧ Solo (branches cfg ts log).value.2 := by
  have start : Moves cfg (fun _ => True) (ts, log) _ := accept_moves_any (.keyword .then_) ts log
  have le₁ := start.length_le
  have yes := start.trans (single_moves _ _)
  have le₂ := (yes.trans (accept_moves_any (.keyword .else_) _ _)).length_le
  rw [branches]
  exact ⟨single_solo _ _, single_solo _ _⟩
termination_by 4 * ts.length + 1
decreasing_by all_goals omega

end

end Commands

section Pieces

/-- Where a parser stands after it found that the text does not end behind a command: at the next
semicolon, start of a command or end of the text. -/
def resync (cfg : Config) (s : State) : State :=
  let stop := accept cfg .endOfText s.1 s.2
  (skipWhile isStray stop.rest, stop.log)

/-- Where the next commands are read behind a command, if any are: behind a semicolon, or right at
what starts a command. -/
def nextPiece (cfg : Config) (s : State) : Option State :=
  if (cfg.current s.1).isEnd then none
  else match resync cfg s with
    | ([], _) => none
    | (u :: us, log) =>
      if u.kind = .mark .semicolon then some (us, log)
      else if u.kind.startsCmd then some (u :: us, log)
      else none

/-- Where a parser stops that reads no more commands. -/
def stopsAt (cfg : Config) (s : State) : State :=
  if (cfg.current s.1).isEnd then s else resync cfg s

/-- What the parser read at a place, as a list of commands. -/
def partsFrom (cfg : Config) (p : State) : List Cmd := (command cfg p.1 p.2).value.parts

/-- From the place `s` on a parser reads commands at the places `ps`, one after the other, and then
it is at `s'`. -/
inductive Pieces (cfg : Config) (s : State) : List State → State → Prop where
  | nil : Pieces cfg s [] s
  | snoc {ps : List State} {s' p : State} (before : Pieces cfg s ps s')
      (next : nextPiece cfg s' = some p) : Pieces cfg s (ps ++ [p]) (command cfg p.1 p.2).state

variable {s p : State}

theorem resync_moves (s : State) : Moves cfg (fun _ => True) s (resync cfg s) :=
  (accept_moves_any .endOfText s.1 s.2).trans (moves_skipWhile (fun _ _ => trivial) _ _)

/-- Where the next piece is, there is a semicolon before it or the start of a command. -/
theorem exists_of_nextPiece (next : nextPiece cfg s = some p) :
    (cfg.current s.1).isEnd = false ∧ ∃ u us log, resync cfg s = (u :: us, log) ∧
      (u.kind = .mark .semicolon ∧ p = (us, log) ∨
        u.kind.startsCmd = true ∧ p = (u :: us, log)) := by
  rw [nextPiece] at next
  split at next
  · cases next
  · next open_ =>
    refine ⟨by simpa using open_, ?_⟩
    split at next
    · cases next
    · next u us log here =>
      refine ⟨u, us, log, here, ?_⟩
      split at next
      · next semicolon => exact .inl ⟨semicolon, (Option.some.inj next).symm⟩
      · split at next
        · next starts => exact .inr ⟨starts, (Option.some.inj next).symm⟩
        · cases next

theorem nextPiece_moves (next : nextPiece cfg s = some p) : Moves cfg (fun _ => True) s p := by
  obtain ⟨-, u, us, log, here, ⟨-, rfl⟩ | ⟨-, rfl⟩⟩ := exists_of_nextPiece next
  · exact (here ▸ resync_moves s).trans (moves_take trivial (moves_refl _))
  · exact here ▸ resync_moves s

/-- Behind the next piece there are fewer tokens than before it. -/
theorem length_of_nextPiece (next : nextPiece cfg s = some p) :
    (command cfg p.1 p.2).rest.length < s.1.length := by
  obtain ⟨-, u, us, log, here, read⟩ := exists_of_nextPiece next
  have le : us.length + 1 ≤ s.1.length := by
    have moves : Moves cfg (fun _ => True) s (u :: us, log) := here ▸ resync_moves s
    exact moves.length_le
  rcases read with ⟨-, rfl⟩ | ⟨starts, rfl⟩
  · have shorter := (command cfg us log).le
    dsimp only
    omega
  · exact Nat.lt_of_lt_of_le (command_length_lt cfg starts us log) le

theorem leftover_of_current_isEnd (end_ : (cfg.current s.1).isEnd = true) (c : Cmd) :
    (leftover cfg c s.1 s.2).all = (c, s) := by
  obtain ⟨ts, log⟩ := s
  cases ts with
  | nil =>
    rw [leftover]
    rfl
  | cons t ts => exact leftover_of_isEnd end_ c ts log

theorem leftover_of_current_not_isEnd (open_ : ¬ (cfg.current s.1).isEnd = true) (c : Cmd) :
    (leftover cfg c s.1 s.2).all = resume cfg c (resync cfg s).1 (resync cfg s).2 := by
  obtain ⟨ts, log⟩ := s
  cases ts with
  | nil => exact absurd rfl open_
  | cons t ts => exact leftover_of_not_isEnd open_ c ts log

/-- What is left over is looked at from the next piece on. -/
theorem leftover_of_nextPiece (next : nextPiece cfg s = some p) (c : Cmd) :
    (leftover cfg c s.1 s.2).all =
      let read := command cfg p.1 p.2
      (leftover cfg (appendCmd c read.value) read.rest read.log).all := by
  obtain ⟨open_, u, us, log, here, read⟩ := exists_of_nextPiece next
  rw [leftover_of_current_not_isEnd (by simp [open_]), here, resume]
  rcases read with ⟨semicolon, rfl⟩ | ⟨starts, rfl⟩
  · rw [if_pos semicolon]
  · have other : u.kind ≠ .mark .semicolon := by
      intro semicolon
      rw [semicolon] at starts
      cases starts
    rw [if_neg other, if_pos starts]

theorem leftover_of_nextPiece_eq_none (none : nextPiece cfg s = none) (c : Cmd) :
    (leftover cfg c s.1 s.2).all = (c, stopsAt cfg s) := by
  rw [stopsAt]
  split
  · next end_ => exact leftover_of_current_isEnd end_ c
  · next open_ =>
    rw [nextPiece, if_neg open_] at none
    rw [leftover_of_current_not_isEnd open_]
    generalize resync cfg s = here at none
    obtain ⟨us, log⟩ := here
    cases us with
    | nil => rfl
    | cons u us =>
      dsimp only at none
      rw [resume]
      split
      · next semicolon => simp [semicolon] at none
      · split
        · next other starts => simp [other, starts] at none
        · rfl

/-- What every piece keeps is kept to the end. -/
theorem leftover_run {I : Cmd → State → Prop}
    (step : ∀ c s p, nextPiece cfg s = some p → I c s →
      I (appendCmd c (command cfg p.1 p.2).value) (command cfg p.1 p.2).state)
    (c : Cmd) (s : State) (start : I c s) :
    ∃ d s', I d s' ∧ nextPiece cfg s' = none ∧
      (leftover cfg c s.1 s.2).all = (d, stopsAt cfg s') := by
  cases next : nextPiece cfg s with
  | none => exact ⟨c, s, start, next, leftover_of_nextPiece_eq_none next c⟩
  | some p =>
    have shorter := length_of_nextPiece next
    rw [leftover_of_nextPiece next]
    exact leftover_run step _ (command cfg p.1 p.2).state (step c s p next start)
termination_by s.1.length

/-- The last place where commands were read is where the parser came from, and each place lies
behind all that was read at the one before it. -/
theorem Pieces.inOrder {first : State} {ps : List State}
    (pieces : Pieces cfg (command cfg first.1 first.2).state ps s) :
    (∃ last ∈ (first :: ps).getLast?, s = (command cfg last.1 last.2).state) ∧
      (first :: ps).IsChain fun p q => q.1 <:+ (command cfg p.1 p.2).rest := by
  generalize from_ : (command cfg first.1 first.2).state = start at pieces
  induction pieces with
  | nil => exact ⟨⟨first, rfl, from_.symm⟩, .singleton first⟩
  | @snoc ps s p before next ih =>
    obtain ⟨⟨last, member, rfl⟩, chain⟩ := ih
    rw [← List.cons_append]
    refine ⟨⟨p, List.getLast?_concat .., rfl⟩, List.isChain_append.2 ⟨chain, .singleton p, ?_⟩⟩
    intro last' member' q head
    obtain rfl := Option.mem_unique member member'
    obtain rfl : p = q := by simpa using head
    exact (nextPiece_moves next).suffix

end Pieces

section Programs

/-- The tree of a program has no misshapen sequence in it, whatever the tokens are. The commands of
the program are those read at one place after the other, first at the start and then behind all
that was read before, until nothing is left. -/
theorem parse_sequences (tokens : List Token) (lenient : Bool) (limit : Int) :
    let cfg : Config := ⟨(split tokens).2, lenient, limitOf limit⟩
    let start : State := ((split tokens).1, [])
    let program := (parse tokens lenient limit).program
    program.All Node.Shaped ∧
      ∃ ps s, Pieces cfg (command cfg start.1 start.2).state ps s ∧ nextPiece cfg s = none ∧
        ((start :: ps).IsChain fun p q => q.1 <:+ (command cfg p.1 p.2).rest) ∧
        program.body.parts = (start :: ps).flatMap (partsFrom cfg) := by
  intro cfg start program
  let first := command cfg start.1 start.2
  -- What holds of the command read so far wherever the parser looks for more.
  let I : Cmd → State → Prop := fun c s =>
    c.All Node.Shaped ∧ ∃ ps, Pieces cfg first.state ps s ∧
      c.parts = (start :: ps).flatMap (partsFrom cfg)
  have begins : I first.value first.state :=
    ⟨command_shaped _ _, [], .nil, by simp [first, partsFrom]⟩
  have goesOn : ∀ c s p, nextPiece cfg s = some p → I c s →
      I (appendCmd c (command cfg p.1 p.2).value) (command cfg p.1 p.2).state := by
    rintro c s p next ⟨shaped, ps, pieces, parts⟩
    refine ⟨shaped_appendCmd shaped (command_shaped _ _), ps ++ [p], pieces.snoc next, ?_⟩
    rw [parts_appendCmd, parts, ← List.cons_append, List.flatMap_append, List.flatMap_singleton]
    rfl
  obtain ⟨d, s, ⟨shaped, ps, pieces, parts⟩, stops, all⟩ :=
    leftover_run goesOn first.value first.state begins
  have body : program.body = d := (Parsed.all_eq_iff.1 all).1
  refine ⟨Program.all_iff.2 ⟨trivial, body ▸ shaped⟩, ps, s, pieces, stops, pieces.inOrder.2, ?_⟩
  rw [body, parts]

end Programs

end Parser

end TriangleTam

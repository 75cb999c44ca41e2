import TriangleTam.Proofs.Check.Places
import TriangleTam.Proofs.Generate.Balance
import TriangleTam.Proofs.Generate.Preservation

/-!
# The stack discipline of generated code

Checking decides where entities are kept, and generated code pushes and pops words; both keep in
step. Wherever the code of a command stands, it has levels that it obeys, and so have all commands
inside it. Main statement: `Program.code_keeps_levels`.
-/

namespace TriangleTam

/-- The node is part of the expression. -/
def Expr.Has (x : Expr) (n : Node) : Prop := n ∈ x.walk fun _ => true

/-- The node is part of the command. -/
def Cmd.Has (c : Cmd) (n : Node) : Prop := n ∈ c.walk fun _ => true

theorem Cmd.all_has {c d : Cmd} (same : c = d) : d.All c.Has := by
  subst same
  exact fun _ member => member

namespace Generate

open Machine Typing

open Check (Scoped Typed contextOf entities)

variable {R : Node → Prop} {L : List Entity} {n : Nat}

section Commands

/-- The address at which the code of what is in a hole starts, if that of the command with the hole
starts at `a`. -/
def holeAt (a : Nat) : Cmd.Hole → Except Fault Nat
  | .here => .ok a
  | .seq _ before inner _ => do
    let first ← cmds a before
    holeAt (a + first.length) inner
  | .block _ inner _ => holeAt a inner
  | .ifYes _ cond inner _ | .whileBody _ cond inner => do
    let test ← expr cond
    holeAt (a + test.length + 1) inner
  | .ifNo _ cond yes inner => do
    let test ← expr cond
    let yes ← cmd (a + test.length + 1) yes
    holeAt (a + test.length + 1 + yes.length + 1) inner
  | .eitherYes _ cond alt inner _ => do
    let test ← expr cond
    let test' ← expr alt
    holeAt (a + test.length + 1 + test'.length + 1) inner
  | .eitherNo _ cond alt yes inner => do
    let test ← expr cond
    let test' ← expr alt
    let yes ← cmd (a + test.length + 1 + test'.length + 1) yes
    holeAt (a + test.length + 1 + test'.length + 1 + yes.length + 1) inner
  | .letBody _ d inner => do
    let (entry, _) ← decl d
    holeAt (a + entry.length) inner

/-- The command `c`, which is checked at the place `p`, has the code `is` at the address `a`, which
obeys the levels. At its start and end there are as many words as checking has in use. -/
structure Site (D : Nat → Option Level) (code : List Instruction) (p : Check.Place)
    (L : List Entity) (a : Nat) (c : Cmd) (is : List Instruction) : Prop where
  made : cmd a (Check.cmd p c).value = .ok is
  stands : CodeAt code a is
  starts : Arrives D a p.offset
  ends : Arrives D (a + is.length) p.offset
  obeys : ObeyAll (Check.cmd p c).value.Has L D a is

/-- The command `c` and all commands inside it have such code. -/
def Sites (D : Nat → Option Level) (code : List Instruction) (p : Check.Place) (L : List Entity)
    (a : Nat) (c : Cmd) : Prop :=
  ∀ K d, c = Cmd.Hole.fill d K → ∃ b is, holeAt a (Check.hole p K) = .ok b ∧
    Site D code (p.hole K) ((Check.hole p K).lets.flatten.reverse ++ L) b d is

/-- Wherever the code of the command starts, there are levels that it obeys. -/
def Disciplined (p : Check.Place) (L : List Entity) (c : Cmd) : Prop :=
  ∀ a, ∃ (is : List Instruction) (ls : List Level), cmd a (Check.cmd p c).value = .ok is ∧
    ls.length = is.length ∧ ∀ D code, LevelsAt D a ls → CodeAt code a is →
      Arrives D (a + is.length) p.offset → Sites D code p L a c

variable {D : Nat → Option Level} {code : List Instruction} {p : Check.Place} {a : Nat} {c : Cmd}
  {is js ks ls : List Instruction}

theorem Sites.site (sites : Sites D code p L a c) (made : cmd a (Check.cmd p c).value = .ok is) :
    Site D code p L a c is := by
  obtain ⟨b, js, found, site⟩ := sites .here c rfl
  cases found
  have made' : cmd a (Check.cmd p c).value = .ok js := site.made
  rw [made] at made'
  cases made'
  exact site

/-- A command with no command inside it. -/
theorem disciplined_of_climbs (leaf : ∀ K d, c = Cmd.Hole.fill d K → K = .here)
    (climbs : ∀ a, ∃ is, cmd a (Check.cmd p c).value = .ok is ∧
      Climbs (Check.cmd p c).value.Has L is p.offset p.offset) : Disciplined p L c := by
  intro a
  obtain ⟨is, made, ls, length, climbs⟩ := climbs a
  refine ⟨is, ls, made, length, ?_⟩
  intro D code levels stands ends K d whole
  obtain rfl := leaf K d whole
  obtain rfl : c = d := whole
  obtain ⟨starts, obeys⟩ := climbs D a levels ends
  exact ⟨a, is, rfl, made, stands, starts, ends, obeys⟩

theorem disciplined_block {pos close : Pos} {body : Cmd} (inner : Disciplined p.inBraces L body) :
    Disciplined p L (.block pos body close) := by
  intro a
  obtain ⟨is, ls, made, length, sites⟩ := inner a
  have made' : cmd a (Check.cmd p (.block pos body close)).value = .ok is := by
    simpa [Check.cmd, cmd] using made
  refine ⟨is, ls, made', length, ?_⟩
  intro D code levels stands ends K d whole
  have inside := sites D code levels stands ends
  have site := inside.site made
  cases K <;> simp [Cmd.Hole.fill] at whole
  case here =>
    subst whole
    have inBody := (Cmd.all_block.1 (Cmd.all_has (Check.value_cmd_block p pos body close))).2
    exact ⟨a, is, rfl, made', stands, site.starts, ends,
      site.obeys.mono List.suffix_rfl inBody⟩
  case block =>
    obtain ⟨rfl, rfl, rfl⟩ := whole
    exact inside _ d rfl

theorem obeys_jump {target : Nat} (laid : Laid L n) (here : D a = some ⟨L, n, none⟩)
    (there : Arrives D target n) : ∃ l, Obeys R L D a (jump target) l := by
  obtain ⟨m, level, depth, top⟩ := there
  refine ⟨_, here, List.suffix_rfl, laid.stacked, ?_, by simp [jump]⟩
  refine ⟨⟨0, 0⟩, [target], rfl, rfl, Nat.le_of_eq laid.words_eq, ?_⟩
  intro b member
  rw [List.mem_singleton.1 member]
  exact ⟨m, level, depth, .inl top⟩

theorem obeys_jumpIf {truth : Bool} {target : Nat} (laid : Laid L n)
    (here : D a = some ⟨L, n + 1, none⟩) (next : Arrives D (a + 1) n)
    (there : Arrives D target n) : ∃ l, Obeys R L D a (jumpIf truth target) l := by
  refine ⟨_, here, List.suffix_rfl, laid.stacked, ?_, by simp [jumpIf]⟩
  refine ⟨⟨1, 0⟩, [a + 1, target], rfl, rfl, Nat.succ_le_succ (Nat.le_of_eq laid.words_eq), ?_⟩
  intro b member
  have arrives : Arrives D b n := by
    rcases List.mem_cons.1 member with rfl | member
    · exact next
    · rw [List.mem_singleton.1 member]
      exact there
  obtain ⟨m, level, depth, top⟩ := arrives
  exact ⟨m, level, by simp only [depth], .inl top⟩

/-- The levels of a condition and of the jump behind it, wherever that goes. -/
theorem Climbs.test (climbs : Climbs R L is n (n + 1)) (laid : Laid L n) :
    ∃ ts : List Level, ts.length = is.length + 1 ∧ ∀ D a truth target, LevelsAt D a ts →
      Arrives D (a + is.length + 1) n → Arrives D target n → Arrives D a n ∧
        ObeyAll R L D a is ∧ ∃ l, Obeys R L D (a + is.length) (jumpIf truth target) l := by
  obtain ⟨ts, length, climbs⟩ := climbs
  refine ⟨ts ++ [⟨L, n + 1, none⟩], by simp [length], ?_⟩
  intro D a truth target levels next there
  rw [levelsAt_append, length] at levels
  obtain ⟨levels, here, -⟩ := levels
  obtain ⟨starts, obeys⟩ := climbs D a levels ⟨_, here, rfl, rfl⟩
  exact ⟨starts, obeys, obeys_jumpIf laid here next there⟩

/-- The code of two branches, with a jump behind the first one over the second one. -/
theorem exists_branches (laid : Laid L p.offset) {yes no : Cmd} (then_ : Disciplined p L yes)
    (else_ : Disciplined p L no) (a : Nat) :
    ∃ (is js : List Instruction) (ls : List Level), cmd a (Check.cmd p yes).value = .ok is ∧
      cmd (a + is.length + 1) (Check.cmd p no).value = .ok js ∧
      ls.length = is.length + 1 + js.length ∧
      ∀ D code, LevelsAt D a ls → CodeAt code a is → CodeAt code (a + is.length + 1) js →
        Arrives D (a + is.length + 1 + js.length) p.offset →
        Sites D code p L a yes ∧ Sites D code p L (a + is.length + 1) no ∧
          ∀ R, (Check.cmd p yes).value.All R → (Check.cmd p no).value.All R →
            ObeyAll R L D a (is ++ jump (a + is.length + 1 + js.length) :: js) := by
  obtain ⟨is, ys, yesMade, yesLength, yesSites⟩ := then_ a
  obtain ⟨js, ns, noMade, noLength, noSites⟩ := else_ (a + is.length + 1)
  refine ⟨is, js, ys ++ ⟨L, p.offset, none⟩ :: ns, yesMade, noMade, ?_, ?_⟩
  · simp only [List.length_append, List.length_cons, yesLength, noLength]
    omega
  intro D code levels yesStands noStands last
  rw [levelsAt_append, levelsAt_cons, yesLength] at levels
  obtain ⟨yesLevels, here, noLevels⟩ := levels
  have noInside := noSites D code noLevels noStands last
  have yesInside := yesSites D code yesLevels yesStands ⟨_, here, rfl, rfl⟩
  refine ⟨yesInside, noInside, ?_⟩
  intro R inYes inNo
  rw [obeyAll_append, obeyAll_cons]
  exact ⟨(yesInside.site yesMade).obeys.mono List.suffix_rfl inYes, obeys_jump laid here last,
    (noInside.site noMade).obeys.mono List.suffix_rfl inNo⟩

theorem disciplined_ifElse (laid : Laid L p.offset) {pos : Pos} {cond : Expr} {yes no : Cmd}
    (test : expr (Check.expr p.env cond).value = .ok is)
    (climbs : Climbs (Check.expr p.env cond).value.Has L is p.offset (p.offset + 1))
    (then_ : Disciplined p L yes) (else_ : Disciplined p L no) :
    Disciplined p L (.ifElse pos cond yes no) := by
  obtain ⟨-, inCond, inYes, inNo⟩ :=
    Cmd.all_ifElse.1 (Cmd.all_has (Check.value_cmd_ifElse p pos cond yes no))
  obtain ⟨ts, length, tests⟩ := (climbs.mono List.suffix_rfl inCond).test laid
  intro a
  obtain ⟨js, ks, bs, yesMade, noMade, length', branches⟩ :=
    exists_branches laid then_ else_ (a + is.length + 1)
  have made := (congrArg (cmd a) (Check.value_cmd_ifElse p pos cond yes no)).trans
    (cmd_ifElse test yesMade noMade)
  refine ⟨_, ts ++ bs, made, ?_, ?_⟩
  · simp only [List.length_append, List.length_cons, length, length']
    omega
  intro D code levels stands ends
  have last := ends
  rw [length_pieces] at last
  rw [levelsAt_append, length] at levels
  obtain ⟨-, -, yesStands, -, noStands⟩ := codeAt_pieces.1 stands
  obtain ⟨yesInside, noInside, obeysRest⟩ := branches D code levels.2 yesStands noStands last
  obtain ⟨starts, obeys, obeysJump⟩ := tests D a false _ levels.1 (yesInside.site yesMade).starts
    (noInside.site noMade).starts
  intro K d whole
  cases K <;> simp [Cmd.Hole.fill] at whole
  case here =>
    subst whole
    refine ⟨a, _, rfl, made, stands, starts, ends, ?_⟩
    rw [List.append_assoc, List.cons_append, obeyAll_append, obeyAll_cons]
    exact ⟨obeys, obeysJump, obeysRest _ inYes inNo⟩
  case ifYes =>
    obtain ⟨rfl, rfl, rfl, rfl⟩ := whole
    obtain ⟨b, code, found, site⟩ := yesInside _ d rfl
    exact ⟨b, code, by simpa [Check.hole, holeAt, test] using found, site⟩
  case ifNo =>
    obtain ⟨rfl, rfl, rfl, rfl⟩ := whole
    obtain ⟨b, code, found, site⟩ := noInside _ d rfl
    exact ⟨b, code, by simpa [Check.hole, holeAt, test, yesMade] using found, site⟩

theorem disciplined_ifEither (laid : Laid L p.offset) {pos : Pos} {cond alt : Expr}
    {yes no : Cmd} (test : expr (Check.expr p.env cond).value = .ok is)
    (test' : expr (Check.expr p.env alt).value = .ok js)
    (climbs : Climbs (Check.expr p.env cond).value.Has L is p.offset (p.offset + 1))
    (climbs' : Climbs (Check.expr p.env alt).value.Has L js p.offset (p.offset + 1))
    (then_ : Disciplined p L yes) (else_ : Disciplined p L no) :
    Disciplined p L (.ifEither pos cond alt yes no) := by
  obtain ⟨-, inCond, inAlt, inYes, inNo⟩ :=
    Cmd.all_ifEither.1 (Cmd.all_has (Check.value_cmd_ifEither p pos cond alt yes no))
  obtain ⟨ts, length, tests⟩ := (climbs.mono List.suffix_rfl inCond).test laid
  obtain ⟨us, length', tests'⟩ := (climbs'.mono List.suffix_rfl inAlt).test laid
  intro a
  obtain ⟨ks, ls, bs, yesMade, noMade, length'', branches⟩ :=
    exists_branches laid then_ else_ (a + is.length + 1 + js.length + 1)
  have made := (congrArg (cmd a) (Check.value_cmd_ifEither p pos cond alt yes no)).trans
    (cmd_ifEither test test' yesMade noMade)
  refine ⟨_, ts ++ (us ++ bs), made, ?_, ?_⟩
  · simp only [List.length_append, List.length_cons, length, length', length'']
    omega
  intro D code levels stands ends
  have last := ends
  rw [length_fourPieces] at last
  rw [levelsAt_append, levelsAt_append, length, length'] at levels
  obtain ⟨front, back⟩ := codeAt_append.1 stands
  rw [length_pieces] at back
  obtain ⟨-, -, -, -, yesStands⟩ := codeAt_pieces.1 front
  obtain ⟨yesInside, noInside, obeysRest⟩ := branches D code levels.2.2 yesStands back.2 last
  have yesStarts := (yesInside.site yesMade).starts
  obtain ⟨middle, obeys', obeysJump'⟩ :=
    tests' D _ false _ levels.2.1 yesStarts (noInside.site noMade).starts
  obtain ⟨starts, obeys, obeysJump⟩ := tests D a true _ levels.1 middle yesStarts
  intro K d whole
  cases K <;> simp [Cmd.Hole.fill] at whole
  case here =>
    subst whole
    refine ⟨a, _, rfl, made, stands, starts, ends, ?_⟩
    simp only [List.append_assoc, List.cons_append]
    rw [obeyAll_append, obeyAll_cons, obeyAll_append, obeyAll_cons]
    exact ⟨obeys, obeysJump, obeys', obeysJump', obeysRest _ inYes inNo⟩
  case eitherYes =>
    obtain ⟨rfl, rfl, rfl, rfl, rfl⟩ := whole
    obtain ⟨b, code, found, site⟩ := yesInside _ d rfl
    exact ⟨b, code, by simpa [Check.hole, holeAt, test, test'] using found, site⟩
  case eitherNo =>
    obtain ⟨rfl, rfl, rfl, rfl, rfl⟩ := whole
    obtain ⟨b, code, found, site⟩ := noInside _ d rfl
    exact ⟨b, code, by simpa [Check.hole, holeAt, test, test', yesMade] using found, site⟩

theorem disciplined_whileDo (laid : Laid L p.offset) {pos : Pos} {cond : Expr} {body : Cmd}
    (test : expr (Check.expr p.env cond).value = .ok is)
    (climbs : Climbs (Check.expr p.env cond).value.Has L is p.offset (p.offset + 1))
    (inner : Disciplined p L body) : Disciplined p L (.whileDo pos cond body) := by
  obtain ⟨-, inCond, inBody⟩ :=
    Cmd.all_whileDo.1 (Cmd.all_has (Check.value_cmd_whileDo p pos cond body))
  obtain ⟨ts, length, tests⟩ := (climbs.mono List.suffix_rfl inCond).test laid
  intro a
  obtain ⟨js, bs, bodyMade, bodyLength, sites⟩ := inner (a + is.length + 1)
  have made := (congrArg (cmd a) (Check.value_cmd_whileDo p pos cond body)).trans
    (cmd_whileDo test bodyMade)
  refine ⟨_, ts ++ (bs ++ [⟨L, p.offset, none⟩]), made, ?_, ?_⟩
  · simp only [List.length_append, List.length_cons, length, bodyLength]
    omega
  intro D code levels stands ends
  have last := ends
  rw [length_pieces] at last
  simp only [levelsAt_append, levelsAt_cons, length, bodyLength, ← Nat.add_assoc] at levels
  obtain ⟨testLevels, bodyLevels, jumpHere, -⟩ := levels
  obtain ⟨-, -, bodyStands, -, -⟩ := codeAt_pieces.1 stands
  have inside := sites D code bodyLevels bodyStands ⟨_, jumpHere, rfl, rfl⟩
  have site := inside.site bodyMade
  obtain ⟨starts, obeys, obeysJump⟩ := tests D a false _ testLevels site.starts last
  intro K d whole
  cases K <;> simp [Cmd.Hole.fill] at whole
  case here =>
    subst whole
    refine ⟨a, _, rfl, made, stands, starts, ends, ?_⟩
    simp only [obeyAll_append, obeyAll_cons, List.append_assoc, List.cons_append]
    exact ⟨obeys, obeysJump, site.obeys.mono List.suffix_rfl inBody,
      obeys_jump laid jumpHere starts, trivial⟩
  case whileBody =>
    obtain ⟨rfl, rfl, rfl⟩ := whole
    obtain ⟨b, code, found, site⟩ := inside _ d rfl
    exact ⟨b, code, by simpa [Check.hole, holeAt, test] using found, site⟩

theorem disciplined_letIn (laid : Laid L p.offset) {pos : Pos} {d : Decl} {body : Cmd}
    {words : Nat}
    (declared : decl (Check.decl p.letSite ⟨Check.letFrame, p.offset⟩ d).value.1 = .ok (is, words))
    (offset : (p.enter (.letIn d)).offset = p.offset + words)
    (climbs : Climbs (Check.cmd p (.letIn pos d body)).value.Has L is p.offset (p.offset + words))
    (inner : Disciplined (p.enter (.letIn d))
      ((entities (Check.decl p.letSite ⟨Check.letFrame, p.offset⟩ d).value.1).reverse ++ L) body) :
    Disciplined p L (.letIn pos d body) := by
  obtain ⟨ds, length, enters⟩ := climbs
  obtain ⟨es, length', leaves⟩ := climbs_drop laid (Nat.le_refl p.offset) words
  have inBody := (Cmd.all_letIn.1 (Cmd.all_has (Check.value_cmd_letIn p pos d body))).2.2
  intro a
  obtain ⟨js, bs, bodyMade, bodyLength, sites⟩ := inner (a + is.length)
  have made := (congrArg (cmd a) (Check.value_cmd_letIn p pos d body)).trans
    (cmd_letIn declared bodyMade)
  refine ⟨_, ds ++ bs ++ es, made, by simp [length, length', bodyLength], ?_⟩
  intro D code levels stands ends
  have last := ends
  simp only [List.length_append, ← Nat.add_assoc] at last
  simp only [levelsAt_append, List.length_append, length, bodyLength, ← Nat.add_assoc] at levels
  obtain ⟨⟨declLevels, bodyLevels⟩, dropLevels⟩ := levels
  have bodyStands := (codeAt_append.1 (codeAt_append.1 stands).1).2
  obtain ⟨falls, obeysDrop⟩ := leaves D _ dropLevels last
  rw [← offset] at falls
  have inside := sites D code bodyLevels bodyStands falls
  have site := inside.site bodyMade
  have enter := site.starts
  rw [offset] at enter
  obtain ⟨starts, obeys⟩ := enters D a declLevels enter
  intro K c whole
  cases K <;> simp [Cmd.Hole.fill] at whole
  case here =>
    subst whole
    refine ⟨a, _, rfl, made, stands, starts, ends, ?_⟩
    simp only [obeyAll_append, List.length_append, ← Nat.add_assoc]
    exact ⟨⟨obeys, site.obeys.mono (List.suffix_append _ _) inBody⟩, obeysDrop⟩
  case letBody =>
    obtain ⟨rfl, rfl, rfl⟩ := whole
    obtain ⟨b, code, found, site⟩ := inside _ c rfl
    refine ⟨b, code, by simpa [Check.hole, holeAt, declared] using found, ?_⟩
    rw [← List.append_assoc, ← List.reverse_append] at site
    exact site

/-- Commands one after the other, each of which is disciplined. -/
theorem disciplined_cmds {cs : List Cmd} (all : ∀ c ∈ cs, Disciplined p L c)
    (noted : ∀ c ∈ (Check.cmds p cs).value, c.All R) (a : Nat) :
    ∃ (is : List Instruction) (ls : List Level), cmds a (Check.cmds p cs).value = .ok is ∧
      ls.length = is.length ∧ ∀ D code, LevelsAt D a ls → CodeAt code a is →
        Arrives D (a + is.length) p.offset → Arrives D a p.offset ∧ ObeyAll R L D a is ∧
          ∀ before c after, cs = before ++ c :: after → ∃ js,
            cmds a (Check.cmds p before).value = .ok js ∧
              Sites D code p L (a + js.length) c := by
  induction cs generalizing a with
  | nil =>
    refine ⟨[], [], by simp [Check.cmds, cmds], rfl, ?_⟩
    intro D code levels stands ends
    exact ⟨ends, trivial, by simp⟩
  | cons c cs ih =>
    simp only [Check.cmds, Check.Checked.value_bind, Check.Checked.value_pure,
      List.forall_mem_cons] at all noted
    obtain ⟨is, ls, made, length, first⟩ := all.1 a
    obtain ⟨js, ms, made', length', rest⟩ := ih all.2 noted.2 (a + is.length)
    refine ⟨is ++ js, ls ++ ms, by simp [Check.cmds, cmds, made, made'],
      by simp [length, length'], ?_⟩
    intro D code levels stands ends
    rw [levelsAt_append, length] at levels
    rw [List.length_append, ← Nat.add_assoc] at ends
    obtain ⟨stands, stands'⟩ := codeAt_append.1 stands
    obtain ⟨middle, obeys', inside'⟩ := rest D code levels.2 stands' ends
    have inside := first D code levels.1 stands middle
    have site := inside.site made
    refine ⟨site.starts, obeyAll_append.2 ⟨site.obeys.mono List.suffix_rfl noted.1, obeys'⟩, ?_⟩
    intro before c' after whole
    cases before with
    | nil =>
      cases whole
      exact ⟨[], by simp [Check.cmds, cmds], inside⟩
    | cons b before =>
      cases whole
      obtain ⟨ks, made', sites⟩ := inside' before c' after rfl
      refine ⟨is ++ ks, by simp [Check.cmds, cmds, made, made'], ?_⟩
      rw [List.length_append, ← Nat.add_assoc]
      exact sites

theorem disciplined_seq {pos : Pos} {cs : List Cmd} (all : ∀ c ∈ cs, Disciplined p L c) :
    Disciplined p L (.seq pos cs) := by
  have noted := (Cmd.all_seq.1 (Cmd.all_has (Check.value_cmd_seq p pos cs))).2
  intro a
  obtain ⟨is, ls, made, length, sites⟩ := disciplined_cmds all noted a
  have made' : cmd a (Check.cmd p (.seq pos cs)).value = .ok is := by
    simpa [Check.cmd, cmd] using made
  refine ⟨is, ls, made', length, ?_⟩
  intro D code levels stands ends K d whole
  obtain ⟨starts, obeys, inside⟩ := sites D code levels stands ends
  cases K <;> simp [Cmd.Hole.fill] at whole
  case here =>
    subst whole
    exact ⟨a, is, rfl, made', stands, starts, ends, obeys⟩
  case seq =>
    obtain ⟨rfl, rfl⟩ := whole
    obtain ⟨js, before, sites⟩ := inside _ _ _ rfl
    obtain ⟨b, code, found, site⟩ := sites _ d rfl
    exact ⟨b, code, by simpa [Check.hole, holeAt, before] using found, site⟩

theorem CmdCode.climbs_assign {pos : Pos} {target : Ident} {x : Expr} {base : Nat}
    (laid : Laid L n) (typed : Typed L) (named : Names R L (.ident target))
    (names : x.All (Names R L)) (rule : CmdCode L n base (.assign pos target x) is) :
    Climbs R L is n n := by
  cases rule with
  | @assign _ _ _ _ _ _ _ _ a is found typed' kind held value =>
    have access := accesses_of_isHeld laid named found held (i := storeWord a)
      (.inr (.inl (store_of_isHeld rfl kind held))) rfl rfl fun _ => rfl
    have store : Climbs R L [storeWord a] (n + 1) (n + 0) :=
      climbs_one (i := storeWord a) (e := ⟨1, 0⟩) laid.stacked (Nat.le_of_eq laid.words_eq) rfl
        (fun _ => rfl) fun _ => access
    exact (value.climbs laid typed names (Nat.le_refl n)).append store

theorem CmdCode.climbs_call {pos : Pos} {callee : Ident} {a : Arg} {base : Nat}
    (laid : Laid L n) (typed : Typed L) (names : a.All (Names R L))
    (rule : CmdCode L n base (.call pos callee a) is) : Climbs R L is n n := by
  cases rule with
  | call found passed =>
    have given := passed.climbs laid typed names (Nat.le_refl n)
    have call := Generate.climbs_call (R := R) laid (Nat.le_refl n)
      (Check.named?_of_meaningIn found) rfl rfl
    exact (given.append call).append (climbs_drop laid (Nat.le_refl n) _)

theorem exists_testClimbs {env : Check.Env} (names : Scoped env.chain L) (typed : Typed L)
    (laid : Laid L n) {x : Expr} (intact : x.All fun n => n.isIntact = true)
    (h : HasType (contextOf L) x .boolean) : ∃ is, expr (Check.expr env x).value = .ok is ∧
      Climbs (Check.expr env x).value.Has L is n (n + 1) := by
  obtain ⟨is, code, rule⟩ := exists_exprCode names typed laid x intact h (by decide)
  have named := names_expr (R := (Check.expr env x).value.Has) names x intact fun _ has => has
  exact ⟨is, code, rule.climbs laid typed named (Nat.le_refl n)⟩

mutual

/-- The code of a well-typed command and of all commands inside it keeps to levels. -/
theorem disciplined : ∀ (c : Cmd) {p : Check.Place} {L : List Entity},
    c.All (fun n => n.isIntact = true) → Scoped p.chain L → Typed L → Laid L p.offset →
      WellTyped (contextOf L) c → Disciplined p L c
  | .skip pos explicit, p, L, _, _, _, _, _ => by
    refine disciplined_of_climbs ?_ fun a => ⟨[], by simp [Check.cmd, cmd], climbs_nil _⟩
    intro K d whole
    cases K <;> simp_all [Cmd.Hole.fill]
  | .bad pos, _, _, intact, _, _, _, _ => by simp at intact
  | .assign pos target x, p, L, intact, names, typed, laid, h => by
    obtain ⟨-, present, intactValue⟩ := Cmd.all_assign.1 intact
    obtain ⟨-, inTarget, inValue⟩ :=
      Cmd.all_assign.1 (Cmd.all_has (Check.value_cmd_assign p pos target x))
    have inside : Scoped p.env.chain L := names
    refine disciplined_of_climbs ?_ ?_
    · intro K d whole
      cases K <;> simp_all [Cmd.Hole.fill]
    · intro a
      obtain ⟨is, code, rule⟩ := exists_cmdCode _ a intact names typed laid h
      exact ⟨is, code, rule.climbs_assign laid typed (names_ident inside present inTarget)
        (names_expr inside x intactValue inValue)⟩
  | .call pos callee arg, p, L, intact, names, typed, laid, h => by
    have inArg := (Cmd.all_call.1 (Cmd.all_has (Check.value_cmd_call p pos callee arg))).2.2
    have inside : Scoped p.env.chain L := names
    refine disciplined_of_climbs ?_ ?_
    · intro K d whole
      cases K <;> simp_all [Cmd.Hole.fill]
    · intro a
      obtain ⟨is, code, rule⟩ := exists_cmdCode _ a intact names typed laid h
      exact ⟨is, code, rule.climbs_call laid typed
        (names_arg inside arg (Cmd.all_call.1 intact).2.2 inArg)⟩
  | .seq pos cs, p, L, intact, names, typed, laid, h => by
    cases h with
    | seq h =>
      exact disciplined_seq (disciplined_all cs (Cmd.all_seq.1 intact).2 names typed laid h)
  | .block pos body close, p, L, intact, names, typed, laid, h => by
    have names : Scoped p.inBraces.chain L := names.cons_empty "block"
    cases h with
    | block inner =>
      exact disciplined_block (disciplined body (Cmd.all_block.1 intact).2 names typed laid inner)
  | .ifElse pos cond yes no, p, L, intact, names, typed, laid, h => by
    obtain ⟨-, intactCond, intactYes, intactNo⟩ := Cmd.all_ifElse.1 intact
    have inside : Scoped p.env.chain L := names
    cases h with
    | ifElse h then_ else_ =>
      obtain ⟨is, test, climbs⟩ := exists_testClimbs inside typed laid intactCond h
      exact disciplined_ifElse laid test climbs
        (disciplined yes intactYes names typed laid then_)
        (disciplined no intactNo names typed laid else_)
  | .ifEither pos cond alt yes no, p, L, intact, names, typed, laid, h => by
    obtain ⟨-, intactCond, intactAlt, intactYes, intactNo⟩ := Cmd.all_ifEither.1 intact
    have inside : Scoped p.env.chain L := names
    cases h with
    | ifEither h h' then_ else_ =>
      obtain ⟨is, test, climbs⟩ := exists_testClimbs inside typed laid intactCond h
      obtain ⟨js, test', climbs'⟩ := exists_testClimbs inside typed laid intactAlt h'
      exact disciplined_ifEither laid test test' climbs climbs'
        (disciplined yes intactYes names typed laid then_)
        (disciplined no intactNo names typed laid else_)
  | .whileDo pos cond body, p, L, intact, names, typed, laid, h => by
    obtain ⟨-, intactCond, intactBody⟩ := Cmd.all_whileDo.1 intact
    have inside : Scoped p.env.chain L := names
    cases h with
    | whileDo h inner =>
      obtain ⟨is, test, climbs⟩ := exists_testClimbs inside typed laid intactCond h
      exact disciplined_whileDo laid test climbs
        (disciplined body intactBody names typed laid inner)
  | .letIn pos d body, p, L, intact, names, typed, laid, h => by
    obtain ⟨-, intactDecl, intactBody⟩ := Cmd.all_letIn.1 intact
    have inDecl := (Cmd.all_letIn.1 (Cmd.all_has (Check.value_cmd_letIn p pos d body))).2.1
    let block : Check.Block := ⟨Check.letFrame, p.offset⟩
    have names : Scoped (block.frame :: p.letSite.outer) L := names.cons_empty "let"
    have complete := intactDecl.complete
    cases h with
    | letIn declares distinct inner =>
      obtain ⟨silent, rfl⟩ := Check.silent_of_declares d complete names typed declares distinct
        (fun n _ => rfl)
      have declared := Check.declared_of_silent d complete names typed silent
      obtain ⟨is, words, code, offset, rule⟩ :=
        exists_declCode d intactDecl names typed laid silent
      obtain ⟨js, words', code', climbs⟩ :=
        decl_climbs d intactDecl names typed laid silent inDecl
      rw [code] at code'
      cases code'
      have place : (p.enter (.letIn d)).offset = p.offset + words := offset
      refine disciplined_letIn laid code place climbs ?_
      exact disciplined body (p := p.enter (.letIn d)) intactBody declared.names declared.typed
        (place ▸ rule.laid laid) inner

theorem disciplined_all : ∀ (cs : List Cmd) {p : Check.Place} {L : List Entity},
    (∀ c ∈ cs, c.All fun n => n.isIntact = true) → Scoped p.chain L → Typed L →
      Laid L p.offset → (∀ c ∈ cs, WellTyped (contextOf L) c) → ∀ c ∈ cs, Disciplined p L c
  | [], _, _, _, _, _, _, _ => by simp
  | c :: cs, p, L, intact, names, typed, laid, h => by
    rw [List.forall_mem_cons] at intact h ⊢
    exact ⟨disciplined c intact.1 names typed laid h.1,
      disciplined_all cs intact.2 names typed laid h.2⟩

end

/-- Only the last instruction stops the machine. -/
theorem GoesOn.eq_length (goesOn : GoesOn is) {i : Instruction}
    (here : (is ++ [{ op := .halt }])[a]? = some i) (halt : i.op = .halt) : a = is.length := by
  have le := (List.getElem?_eq_some_iff.1 here).1
  rw [List.length_append, List.length_singleton] at le
  rcases Nat.lt_or_ge a is.length with lt | ge
  · rw [List.getElem?_append_left lt] at here
    exact absurd halt (goesOn i (List.mem_of_getElem? here))
  · omega

/-- The levels of code that keeps to them, with the instruction behind it that stops the machine. -/
theorem exists_levels {p : Check.Place} {c : Cmd} (start : p.offset = 0)
    (keeps : Disciplined p [] c) (made : cmd 0 (Check.cmd p c).value = .ok is) :
    ∃ levels : List Level, levels.length = is.length + 1 ∧
      levels[is.length]? = some ⟨[], 0, none⟩ ∧
      ObeyAll (Check.cmd p c).value.Has [] (fun a => levels[a]?) 0 (is ++ [{ op := .halt }]) ∧
      Sites (fun a => levels[a]?) (is ++ [{ op := .halt }]) p [] 0 c := by
  obtain ⟨js, ls, made', length, sites⟩ := keeps 0
  rw [made] at made'
  cases made'
  have levels := levelsAt_self [] (ls ++ [⟨[], 0, none⟩])
  obtain ⟨levels, last, -⟩ := levelsAt_append.1 levels
  simp only [List.nil_append, List.length_nil, Nat.zero_add, length] at levels last
  have stands := (codeAt_append.1 (codeAt_self [] (is ++ [{ op := .halt }]))).1
  have ends : Arrives (fun a => (ls ++ [⟨[], 0, none⟩])[a]?) (0 + is.length) p.offset := by
    rw [Nat.zero_add, start]
    exact ⟨_, last, rfl, rfl⟩
  have inside := sites _ _ levels stands ends
  refine ⟨_, by simp [length], last, obeyAll_append.2 ⟨(inside.site made).obeys, ?_⟩, inside⟩
  rw [Nat.zero_add]
  exact ⟨⟨_, last, List.suffix_rfl, trivial, ⟨⟨0, 0⟩, [], rfl, rfl, Nat.le_refl 0, nofun⟩, nofun⟩,
    trivial⟩

end Commands

end Generate

/-- The stack discipline of generated code: there is one level for each address, and every
instruction agrees with the levels of those that may follow it, takes no word of an entity that
lives and addresses nothing but such entities. Where the code of a command starts and where it ends,
as many words are on the stack as are in use where the command is checked, and at the end of the
program there is none. On the machine the stack is always as the levels say. -/
theorem Program.code_keeps_levels (p : Program) (distance : Int) (r : Check.Result)
    (intact : p.Intact) (checked : p.check distance = .ok r) (quiet : r.messages = []) :
    ∃ (code : List Machine.Instruction) (levels : List Generate.Level),
      r.program.code = .ok code ∧ levels.length = code.length ∧
      (∀ (a : Nat) (i : Machine.Instruction), code[a]? = some i →
        (∃ l, Generate.Obeys r.program.body.Has [] (fun a => levels[a]?) a i l) ∧
        (i.op = .halt → levels[a]?.map (·.depth) = some 0)) ∧
      (∀ K c, p.body = Cmd.Hole.fill c K →
        (Check.Place.hole (.start distance) K).offset ≤ r.frameSize ∧
        ∃ a is, Generate.holeAt 0 (Check.hole (.start distance) K) = .ok a ∧
          Generate.Site (fun a => levels[a]?) code (Check.Place.hole (.start distance) K)
            (Check.hole (.start distance) K).lets.flatten.reverse a c is) ∧
      ∀ {ι ω : Type} (P : Platform ι ω) (w : World ι ω) (s : Machine.State ι ω),
        Generate.Reaches P code ⟨0, [], w⟩ s →
          ∃ l, levels[s.pc]? = some l ∧ l.Describes s.stack := by
  rw [p.check_eq_ok intact.literalsProper] at checked
  obtain rfl := Except.ok.inj checked
  rw [Check.Result.messages_eq_nil_iff, Check.reports_program_eq_nil_iff intact.complete] at quiet
  let start := Check.Place.start distance
  have intactBody := (Program.all_iff.1 intact).2
  have noneTyped : Check.Typed [] := by simp [Check.Typed]
  have keeps := Generate.disciplined p.body (p := start) intactBody Check.scoped_root noneTyped
    .nil quiet
  obtain ⟨is, made, rule⟩ := Generate.exists_cmdCode p.body (p := start) 0 intactBody
    Check.scoped_root noneTyped .nil quiet
  obtain ⟨levels, length, last, obeys, sites⟩ := Generate.exists_levels rfl keeps made
  refine ⟨is ++ [{ op := .halt }], levels, ?_, by simp [length], ?_, ?_, ?_⟩
  · have made : Generate.cmd 0 (Check.program distance p).program.body = .ok is := made
    simp [Program.code, made]
  · intro a i here
    obtain ⟨l, obeys⟩ := obeys.get here
    rw [Nat.zero_add] at obeys
    refine ⟨⟨l, obeys⟩, ?_⟩
    intro halt
    rw [rule.goesOn.eq_length here halt, last]
    rfl
  · intro K c whole
    obtain ⟨a, js, found, site⟩ := sites K c whole
    rw [List.append_nil] at site
    have le := Check.Place.offset_hole_le K start c
    rw [← whole, show start.offset = 0 from rfl, Nat.zero_max] at le
    exact ⟨le, a, js, found, site⟩
  · intro ι ω P w s run
    obtain ⟨l, level, depth, top⟩ := (sites.site made).starts
    refine Generate.reaches_described obeys ?_ run
    exact ⟨l, level, depth.symm, .inl top⟩

namespace Program

/-- In the program `let const n ~ 1 + 2; var c : char in while \ c = '.' do let var m : integer in
{ m := n; get(var c); eof() }`, what is around `get(var c)`. -/
def pollHole : Cmd.Hole :=
  let at_ (line col : Int) : Pos := ⟨"", line, col⟩
  .letBody (at_ 1 1)
    (.seq (at_ 1 5)
      [.const (at_ 1 5) none none ⟨at_ 1 11, "n", none⟩
          (.binary (at_ 1 15) none (.int (at_ 1 15) none ⟨at_ 1 15, "1"⟩) ⟨at_ 1 17, "+", none⟩
            (.int (at_ 1 19) none ⟨at_ 1 19, "2"⟩)),
        .var (at_ 1 22) none none ⟨at_ 1 26, "c", none⟩ ⟨at_ 1 30, "char", none⟩])
    (.whileBody (at_ 2 3)
      (.unary (at_ 2 9) none ⟨at_ 2 9, "\\", none⟩
        (.binary (at_ 2 12) none (.name (at_ 2 12) none ⟨at_ 2 12, "c", none⟩)
          ⟨at_ 2 14, "=", none⟩ (.char (at_ 2 16) none ⟨at_ 2 16, "'.'"⟩)))
      (.letBody (at_ 3 5)
        (.var (at_ 3 9) none none ⟨at_ 3 13, "m", none⟩ ⟨at_ 3 17, "integer", none⟩)
        (.block (at_ 3 28)
          (.seq (at_ 3 30)
            [.assign (at_ 3 30) ⟨at_ 3 30, "m", none⟩
              (.name (at_ 3 35) none ⟨at_ 3 35, "n", none⟩)]
            .here
            [.call (at_ 3 50) ⟨at_ 3 50, "eof", none⟩ (.blank (at_ 3 54))])
          (at_ 3 56))))

def pollRead : Cmd :=
  .call ⟨"", 3, 38⟩ ⟨⟨"", 3, 38⟩, "get", none⟩ (.var ⟨"", 3, 42⟩ ⟨⟨"", 3, 46⟩, "c", none⟩)

def poll : Program :=
  ⟨⟨"", 1, 1⟩, pollHole.fill pollRead⟩

/-- Where the code of `get(var c)` starts and ends, there are the words of `n`, `c` and `m`. -/
theorem poll_keeps_levels : ∃ (r : Check.Result) (code : List Machine.Instruction)
    (levels : List Generate.Level), poll.Intact ∧ poll.check 0 = .ok r ∧ r.messages = [] ∧
      r.frameSize = 3 ∧ r.program.code = .ok code ∧ levels.length = code.length ∧
      ∃ is, Machine.CodeAt code 13 is ∧ Generate.Arrives (fun a => levels[a]?) 13 3 ∧
        Generate.Arrives (fun a => levels[a]?) (13 + is.length) 3 := by
  have intact : poll.Intact := by
    simp [Program.Intact, Program.all_iff, poll, pollHole, pollRead, Cmd.Hole.fill]
    rfl
  have checked : poll.check 0 = .ok (Check.program 0 poll) := by rfl
  have quiet : (Check.program 0 poll).messages = [] := by rfl
  obtain ⟨code, levels, made, length, -, sites, -⟩ :=
    poll.code_keeps_levels 0 _ intact checked quiet
  obtain ⟨-, a, is, found, site⟩ := sites pollHole pollRead rfl
  have here : Generate.holeAt 0 (Check.hole (Check.Place.start 0) pollHole) = .ok 13 := by rfl
  rw [here] at found
  cases found
  exact ⟨_, code, levels, intact, checked, quiet, rfl, made, length, is, site.stands, site.starts,
    site.ends⟩

end Program

end TriangleTam

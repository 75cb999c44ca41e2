import TriangleTam.Proofs.Check.Layout
import TriangleTam.Proofs.Compilation
import TriangleTam.Proofs.Parser.Bare

/-!
# Where commands are checked

A command with a hole is what stands around another one. The place where a command is checked, which
is its scope, level and offset, is known from the braces and `let`s around it alone: what is checked
before it leaves no trace there. Main statements: `Check.cmd_fill`, `Check.Place.offset_hole_le`, and
`Program.check_lays_out` on the storage of everything a text declares.
-/

namespace TriangleTam

/-- What is around a command and counts for where it is checked. -/
inductive Shell where
  | braces
  | letIn (decl : Decl)

/-- A command with a hole for another one. -/
inductive Cmd.Hole where
  | here
  | seq (pos : Pos) (before : List Cmd) (inner : Hole) (after : List Cmd)
  | block (pos : Pos) (inner : Hole) (close : Pos)
  | ifYes (pos : Pos) (cond : Expr) (inner : Hole) (no : Cmd)
  | ifNo (pos : Pos) (cond : Expr) (yes : Cmd) (inner : Hole)
  | eitherYes (pos : Pos) (cond alt : Expr) (inner : Hole) (no : Cmd)
  | eitherNo (pos : Pos) (cond alt : Expr) (yes : Cmd) (inner : Hole)
  | whileBody (pos : Pos) (cond : Expr) (inner : Hole)
  | letBody (pos : Pos) (decl : Decl) (inner : Hole)

namespace Cmd.Hole

/-- The command with `c` in the hole. -/
def fill (c : Cmd) : Hole → Cmd
  | here => c
  | seq pos before inner after => .seq pos (before ++ inner.fill c :: after)
  | block pos inner close => .block pos (inner.fill c) close
  | ifYes pos cond inner no => .ifElse pos cond (inner.fill c) no
  | ifNo pos cond yes inner => .ifElse pos cond yes (inner.fill c)
  | eitherYes pos cond alt inner no => .ifEither pos cond alt (inner.fill c) no
  | eitherNo pos cond alt yes inner => .ifEither pos cond alt yes (inner.fill c)
  | whileBody pos cond inner => .whileDo pos cond (inner.fill c)
  | letBody pos d inner => .letIn pos d (inner.fill c)

/-- The braces and `let`s around the hole, the outermost first. -/
def shells : Hole → List Shell
  | here => []
  | seq _ _ inner _ | ifYes _ _ inner _ | ifNo _ _ _ inner | eitherYes _ _ _ inner _
  | eitherNo _ _ _ _ inner | whileBody _ _ inner => inner.shells
  | block _ inner _ => .braces :: inner.shells
  | letBody _ d inner => .letIn d :: inner.shells

/-- The entities of each `let` around the hole, the outermost first. -/
def lets (K : Hole) : List (List Entity) :=
  K.shells.filterMap fun
    | .braces => none
    | .letIn d => some (Check.entities d)

end Cmd.Hole

namespace Check

/-- Where a command stands that is inside something at the place `p`. -/
def Place.enter (p : Place) : Shell → Place
  | .braces => p.inBraces
  | .letIn d => p.letBody (decl p.letSite ⟨letFrame, p.offset⟩ d).value.2

/-- Where the hole of a command at the place `p` stands. -/
def Place.hole (p : Place) (K : Cmd.Hole) : Place :=
  K.shells.foldl Place.enter p

/-- The command with a hole after checking. -/
def hole (p : Place) : Cmd.Hole → Cmd.Hole
  | .here => .here
  | .seq pos before inner after =>
    .seq pos (cmds p before).value (hole p inner) (cmds p after).value
  | .block pos inner close => .block pos (hole p.inBraces inner) close
  | .ifYes pos cond inner no => .ifYes pos (expr p.env cond).value (hole p inner) (cmd p no).value
  | .ifNo pos cond yes inner => .ifNo pos (expr p.env cond).value (cmd p yes).value (hole p inner)
  | .eitherYes pos cond alt inner no =>
    .eitherYes pos (expr p.env cond).value (expr p.env alt).value (hole p inner) (cmd p no).value
  | .eitherNo pos cond alt yes inner =>
    .eitherNo pos (expr p.env cond).value (expr p.env alt).value (cmd p yes).value (hole p inner)
  | .whileBody pos cond inner => .whileBody pos (expr p.env cond).value (hole p inner)
  | .letBody pos d inner =>
    .letBody pos (decl p.letSite ⟨letFrame, p.offset⟩ d).value.1
      (hole (p.enter (.letIn d)) inner)

theorem value_cmds_append (p : Place) (cs ds : List Cmd) :
    (cmds p (cs ++ ds)).value = (cmds p cs).value ++ (cmds p ds).value := by
  induction cs with
  | nil => simp [cmds]
  | cons c cs ih => simp [cmds, ih]

section Values

variable (p : Place) (pos : Pos)

theorem value_cmd_assign (target : Ident) (x : Expr) : (cmd p (.assign pos target x)).value =
    .assign pos (p.env.resolve target).value.1 (expr p.env x).value := by
  simp [cmd]

theorem value_cmd_call (callee : Ident) (a : Arg) : (cmd p (.call pos callee a)).value =
    .call pos (p.env.resolve callee).value.1
      (arg p.env (routine p.env callee (isBlank a)).value.2.1 a).value := by
  simp [cmd]

theorem value_cmd_seq (cs : List Cmd) :
    (cmd p (.seq pos cs)).value = .seq pos (cmds p cs).value := by
  simp [cmd]

theorem value_cmd_block (body : Cmd) (close : Pos) : (cmd p (.block pos body close)).value =
    .block pos (cmd p.inBraces body).value close := by
  simp [cmd]

theorem value_cmd_ifElse (cond : Expr) (yes no : Cmd) : (cmd p (.ifElse pos cond yes no)).value =
    .ifElse pos (expr p.env cond).value (cmd p yes).value (cmd p no).value := by
  simp [cmd]

theorem value_cmd_ifEither (cond alt : Expr) (yes no : Cmd) :
    (cmd p (.ifEither pos cond alt yes no)).value = .ifEither pos (expr p.env cond).value
      (expr p.env alt).value (cmd p yes).value (cmd p no).value := by
  simp [cmd]

theorem value_cmd_whileDo (cond : Expr) (body : Cmd) : (cmd p (.whileDo pos cond body)).value =
    .whileDo pos (expr p.env cond).value (cmd p body).value := by
  simp [cmd]

theorem value_cmd_letIn (d : Decl) (body : Cmd) : (cmd p (.letIn pos d body)).value =
    .letIn pos (decl p.letSite ⟨letFrame, p.offset⟩ d).value.1
      (cmd (p.enter (.letIn d)) body).value := by
  simp [cmd, Place.enter]

end Values

/-- A command in a hole is checked where the hole stands. -/
theorem cmd_fill (K : Cmd.Hole) (p : Place) (c : Cmd) :
    (cmd p (K.fill c)).value = (hole p K).fill (cmd (p.hole K) c).value := by
  induction K generalizing p with
  | here => rfl
  | seq pos before inner after ih =>
    rw [Cmd.Hole.fill, value_cmd_seq, value_cmds_append]
    simp only [cmds, Checked.value_bind, Checked.value_pure, ih p]
    rfl
  | block pos inner close ih =>
    rw [Cmd.Hole.fill, value_cmd_block, ih p.inBraces]
    rfl
  | ifYes pos cond inner no ih | ifNo pos cond yes inner ih =>
    rw [Cmd.Hole.fill, value_cmd_ifElse, ih p]
    rfl
  | eitherYes pos cond alt inner no ih | eitherNo pos cond alt yes inner ih =>
    rw [Cmd.Hole.fill, value_cmd_ifEither, ih p]
    rfl
  | whileBody pos cond inner ih =>
    rw [Cmd.Hole.fill, value_cmd_whileDo, ih p]
    rfl
  | letBody pos d inner ih =>
    rw [Cmd.Hole.fill, value_cmd_letIn, ih (p.enter (.letIn d))]
    rfl

/-- Where a hole stands, the `let`s around it have all the words that are in use. -/
theorem Place.Inside.hole {p : Place} {lets : List (List Entity)} (inside : p.Inside lets)
    (K : Cmd.Hole) : (p.hole K).Inside (lets ++ (Check.hole p K).lets) := by
  induction K generalizing p lets with
  | here => simpa [Place.hole, Check.hole, Cmd.Hole.lets, Cmd.Hole.shells] using inside
  | block pos inner close ih => exact ih inside.inBraces
  | letBody pos d inner ih =>
    have behind := ih (inside.letBody d)
    rw [List.append_assoc] at behind
    exact behind
  | seq pos before inner after ih => exact ih inside
  | ifYes pos cond inner no ih | ifNo pos cond yes inner ih | whileBody pos cond inner ih
  | eitherYes pos cond alt inner no ih | eitherNo pos cond alt yes inner ih => exact ih inside

mutual

/-- Declarations reach all the words they take. -/
theorem offset_decl_le (site : Site) : ∀ (d : Decl) (block : Block),
    (decl site block d).value.2.offset ≤ max block.offset (decl site block d).peak
  | .const pos _ _ name x, block => by
    obtain ⟨s, -, -, -, offset, peak⟩ := constStorage_spec site block
      (expr (site.env block) x).value (value (site.env block) x).value.2
    by_cases known : s.kind = .knownValue
    · simp [decl, offset, peak, known]
    · simp [decl, offset, peak, known]
  | .var pos _ _ name typeName, block => by simp [decl, allocate]
  | .seq pos ds, block => by simpa [decl] using offset_decls_le site ds block
  | .bad _, block | .builtin _, block => by simp [decl]

theorem offset_decls_le (site : Site) : ∀ (ds : List Decl) (block : Block),
    (decls site block ds).value.2.offset ≤ max block.offset (decls site block ds).peak
  | [], block => by simp [decls]
  | d :: ds, block => by
    have first := offset_decl_le site d block
    have rest := offset_decls_le site ds (decl site block d).value.2
    simp [decls]
    omega

end

theorem peak_cmds_append (p : Place) (cs ds : List Cmd) :
    (cmds p (cs ++ ds)).peak = max (cmds p cs).peak (cmds p ds).peak := by
  induction cs with
  | nil => simp [cmds]
  | cons c cs ih => simp [cmds, ih, Nat.max_assoc]

/-- Checking a command reaches the words that are in use anywhere inside it. -/
theorem Place.offset_hole_le (K : Cmd.Hole) (p : Place) (c : Cmd) :
    (p.hole K).offset ≤ max p.offset (cmd p (K.fill c)).peak := by
  induction K generalizing p with
  | here => exact Nat.le_max_left _ _
  | seq pos before inner after ih =>
    refine Nat.le_trans (ih p) ?_
    simp [Cmd.Hole.fill, cmd, cmds, peak_cmds_append]
    omega
  | block pos inner close ih =>
    simp only [Cmd.Hole.fill, cmd, Checked.peak_within, Checked.peak_bind, Checked.peak_pure,
      Nat.max_zero]
    exact ih p.inBraces
  | whileBody pos cond inner ih =>
    simp only [Cmd.Hole.fill, cmd, Checked.peak_bind, (plain_condition ..).peak, Checked.peak_pure,
      Nat.zero_max, Nat.max_zero]
    exact ih p
  | ifYes pos cond inner no ih | ifNo pos cond yes inner ih
  | eitherYes pos cond alt inner no ih | eitherNo pos cond alt yes inner ih =>
    refine Nat.le_trans (ih p) ?_
    simp [Cmd.Hole.fill, cmd]
    omega
  | letBody pos d inner ih =>
    have declared := offset_decl_le p.letSite d ⟨letFrame, p.offset⟩
    refine Nat.le_trans (ih (p.enter (.letIn d))) ?_
    simp [Cmd.Hole.fill, cmd, Place.enter, Place.letBody] at declared ⊢
    omega

/-- Where a program is checked. -/
def Place.start (distance : Int) : Place :=
  ⟨[rootFrame], distance, 0, 0⟩

theorem Place.start_inside (distance : Int) : (Place.start distance).Inside [] :=
  ⟨rfl, trivial, rfl⟩

end Check

theorem Placed.Settled.offset_eq {x : Placed} (settled : x.Settled) {s : Storage}
    (storage : x.entity.storage = some s) (kept : s.kind ≠ .knownValue) :
    s.offset = words x.around := by
  obtain ⟨⟨t, found, start⟩, -⟩ := (stacked_append.1 settled.stacked).2
  rw [storage] at found
  cases found
  rw [start kept, Nat.zero_add]

/-- The storage of everything a text declares, whatever is wrong with the text. An entity is at the
level of the `let`s around it, and if it is kept in words it comes behind those of the strictly
enclosing `let`s and those declared before it in its own. So entities that live together are apart,
`let`s side by side start at the same offset, and the frame ends where the last entity does. A
command is checked in a scope and at a level and an offset that come from the braces and `let`s
around it, so that no command that is checked before has changed them. -/
theorem Program.check_lays_out (file : String) (bytes : List UInt8) (lenient : Bool)
    (limit distance : Int) :
    ∃ r, (Program.ofText file bytes lenient limit).check distance = .ok r ∧
      r.program.bare = Program.ofText file bytes lenient limit ∧
      r.program.placed.map (·.entity) = r.program.nodes.filterMap Node.entity? ∧
      (∀ x ∈ r.program.placed,
        (∃ s, x.entity.storage = some s ∧ s.level = x.lets.length + 1 ∧
          (s.kind ≠ .knownValue → s.offset = words (x.lets.flatten ++ x.before))) ∧
        (x.lets.flatten ++ x.before ++ [x.entity]).Pairwise Entity.Apart) ∧
      (∀ x ∈ r.program.placed, ∀ y ∈ r.program.placed,
        x.lets = y.lets → words x.before = 0 → words y.before = 0 →
        ∀ s t, x.entity.storage = some s → y.entity.storage = some t →
          s.kind ≠ .knownValue → t.kind ≠ .knownValue → s.offset = t.offset) ∧
      r.frameSize = (r.program.placed.filterMap Placed.end?).foldr max 0 ∧
      ∀ K c, (Program.ofText file bytes lenient limit).body = Cmd.Hole.fill c K →
        r.program.body = (Check.hole (.start distance) K).fill
          (Check.cmd (Check.Place.hole (.start distance) K) c).value ∧
        (Check.Place.hole (.start distance) K).level =
          (Check.hole (.start distance) K).lets.length ∧
        (Check.Place.hole (.start distance) K).offset =
          words (Check.hole (.start distance) K).lets.flatten := by
  let p := Program.ofText file bytes lenient limit
  have bare : p.bare = p := Program.bare_ofText file bytes lenient limit
  have literals : p.LiteralsProper := Parser.parse_scan_literalsProper _ lenient limit
  obtain ⟨settled, peak⟩ := Check.cmd_settled p.body (Check.Place.start_inside distance)
  refine ⟨_, p.check_eq_ok literals distance, by rw [Check.bare_program, bare],
    Program.map_entity_placed _, ?_, ?_, peak, ?_⟩
  · intro x member
    have settled := settled x member
    obtain ⟨s, storage, level⟩ := settled.level
    exact ⟨⟨s, storage, level, settled.offset_eq storage⟩, settled.stacked.pairwise_apart⟩
  · intro x hx y hy same none none' s t storage storage' kept kept'
    rw [(settled x hx).offset_eq storage kept, (settled y hy).offset_eq storage' kept']
    simp [Placed.around, same, none, none']
  · intro K c whole
    have inside := (Check.Place.start_inside distance).hole K
    refine ⟨?_, inside.level, inside.offset⟩
    rw [← Check.cmd_fill, ← whole]
    rfl

end TriangleTam

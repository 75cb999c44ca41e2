import TriangleTam.Machine.Instruction
import TriangleTam.Proofs.Text.Decimal

/-!
# Listings read back

A listing has a line for each instruction, with its address in a column as wide as the last
address. It does not show every part of an instruction, so not all code can be read back from it:
reading takes the parts that are not shown to be what generated code has there. Main statements:
`decode_listing` and `lines_listing_getElem?`.
-/

namespace TriangleTam.Machine

section Definitions

/-- The text before the first `c`, and the text behind it. -/
def cutAt (c : Char) (cs : List Char) : Option (List Char × List Char) :=
  match cs.dropWhile (· != c) with
  | [] => none
  | _ :: rest => some (cs.takeWhile (· != c), rest)

/-- The operation with this name. -/
def Op.ofName? (name : List Char) : Option Op :=
  Op.all.find? (·.info.name.toList == name)

/-- The register with this name. -/
def Register.ofName? (name : List Char) : Option Register :=
  Register.all.find? (·.name.toList == name)

/-- The routine with this name. -/
def Primitive.ofName? (name : List Char) : Option Primitive :=
  Primitive.all.find? (·.name.toList == name)

/-- Reads a displacement from a register, as in `12[CB]`. -/
def readPlace? (cs : List Char) : Option (Register × Int) := do
  let (d, rest) ← cutAt '[' cs
  let (reg, _) ← cutAt ']' rest
  return (← Register.ofName? reg, ← Text.signed? d)

/-- Reads the operands of a call: the name of a routine, or the place of one. A routine that is
named has the base of the stack for its frame. -/
def readCall? : List Char → Option Instruction
  | '(' :: cs => do
    let (frame, rest) ← cutAt ')' cs
    let frame ← Register.ofName? frame
    let (reg, d) ← readPlace? (rest.drop 1)
    return ⟨.call, reg, frame.code, d⟩
  | ' ' :: name => do
    let p ← Primitive.ofName? name
    return ⟨.call, .primitiveBase, Register.stackBase.code, p.displacement⟩
  | _ => none

/-- Reads the number `n` if there is one, which stands in parentheses. -/
def readCount? (info : OpInfo) (cs : List Char) : Option (Int × List Char) :=
  if info.hasN then do
    let (n, rest) ← cutAt ')' (cs.drop 1)
    return (← Text.signed? n, rest)
  else some (0, cs)

/-- Reads the displacement and its register, as far as there are any. -/
def readTarget? (info : OpInfo) (cs : List Char) : Option (Register × Int) :=
  if info.hasR then readPlace? (cs.drop 1)
  else if info.hasD then (Text.signed? (cs.drop 1)).map (.codeBase, ·)
  else some (.codeBase, 0)

/-- Reads the operands of an operation. -/
def readOperands? (op : Op) (cs : List Char) : Option Instruction :=
  if op = .call then readCall? cs
  else do
    let (n, rest) ← readCount? op.info cs
    let (reg, d) ← readTarget? op.info rest
    return ⟨op, reg, n, d⟩

/-- Reads an instruction as it stands in listings. -/
def readInstruction? (cs : List Char) : Option Instruction := do
  let op ← Op.ofName? (cs.takeWhile Char.isUpper)
  readOperands? op (cs.dropWhile Char.isUpper)

/-- Reads a line of a listing, whatever its address is. -/
def readLine? (line : List Char) : Option Instruction := do
  let (_, rest) ← cutAt ':' line
  readInstruction? (rest.drop 1)

/-- The lines of a text, each of which ends with a line end. -/
def lines (text : String) : List (List Char) :=
  (text.toList.splitOn '\n').dropLast

/-- Reads code back from its listing. -/
def decode (text : String) : Option (List Instruction) :=
  (lines text).mapM readLine?

end Definitions

section Names

theorem Op.ofName?_name : ∀ op ∈ Op.all, Op.ofName? op.info.name.toList = some op := by decide

theorem Op.isUpper_of_mem_name : ∀ op ∈ Op.all, ∀ c ∈ op.info.name.toList, c.isUpper = true := by
  simp only [← List.all_eq_true]
  decide

theorem Register.ofName?_name : ∀ r ∈ Register.all, Register.ofName? r.name.toList = some r := by
  decide

/-- The name of a register is made of letters and digits. -/
theorem Register.notMem_name {r : Register} (known : r ∈ Register.all) {c : Char}
    (sign : c.isAlphanum = false) : c ∉ r.name.toList := by
  have letters : ∀ r ∈ Register.all, ∀ c ∈ r.name.toList, c.isAlphanum = true := by
    simp only [← List.all_eq_true]
    decide
  intro member
  have shown := letters r known c member
  rw [sign] at shown
  cases shown

theorem Register.ofCode_code : ∀ r ∈ Register.all, Register.ofCode r.code = r := by decide

theorem Primitive.ofName?_name (p : Primitive) : Primitive.ofName? p.name.toList = some p := by
  cases p <;> decide

theorem Primitive.displacement_of_at? {d : Int} {p : Primitive}
    (called : Primitive.at? d = some p) : (p.displacement : Int) = d := by
  have listed : ∀ n : Fin all.length, (all.get n).displacement = n := by decide
  unfold at? at called
  split at called
  · cases called
  · obtain ⟨lt, rfl⟩ := List.getElem?_eq_some_iff.1 called
    have here := listed ⟨d.toNat, lt⟩
    simp only [List.get_eq_getElem] at here
    omega

end Names

section Texts

theorem cutAt_append {c : Char} {cs : List Char} (absent : c ∉ cs) (rest : List Char) :
    cutAt c (cs ++ c :: rest) = some (cs, rest) := by
  have before : ∀ d ∈ cs, (d != c) = true := fun d member =>
    bne_iff_ne.2 fun same => absent (same ▸ member)
  rw [cutAt, List.dropWhile_append_of_pos before, List.takeWhile_append_of_pos before]
  simp

theorem readPlace?_text {reg : Register} (known : reg ∈ Register.all) (d : Int) :
    readPlace? ((toString d).toList ++ '[' :: (reg.name.toList ++ [']'])) = some (reg, d) := by
  have absent : ']' ∉ reg.name.toList := Register.notMem_name known (by decide)
  have number := cutAt_append (Text.notMem_toString (n := d) (c := '[') (by decide) (by decide))
    (reg.name.toList ++ [']'])
  rw [readPlace?, number]
  simp only [Option.bind_eq_bind, Option.bind_some, cutAt_append absent,
    Register.ofName?_name reg known, Text.signed?_toString]
  rfl

end Texts

namespace Instruction

/-- The listing shows the instruction: what it does not show is zero, or the base of the stack in a
call of a routine by its name. -/
structure Shown (i : Instruction) : Prop where
  op : i.op ∈ Op.all
  reg : i.reg ∈ Register.all
  frame : i.op = .call → (∃ r ∈ Register.all, i.n = r.code) ∧
    (i.reg = .primitiveBase → (Primitive.at? i.d).isSome = true → i.n = Register.stackBase.code)
  noCount : i.op.info.hasN = false → i.n = 0
  noPlace : i.op.info.hasR = false → i.reg = .codeBase
  noNumber : i.op.info.hasD = false → i.d = 0

/-- How the number `n` is written. -/
def countText (i : Instruction) : List Char :=
  if i.op.info.hasN then '(' :: ((toString i.n).toList ++ [')']) else []

/-- How the displacement and its register are written. -/
def placeText (i : Instruction) : List Char :=
  if i.op.info.hasR then ' ' :: ((toString i.d).toList ++ '[' :: (i.reg.name.toList ++ [']']))
  else if i.op.info.hasD then ' ' :: (toString i.d).toList
  else []

theorem toList_render {i : Instruction} (other : i.op ≠ .call) :
    i.render.toList = i.op.info.name.toList ++ (i.countText ++ i.placeText) := by
  obtain ⟨op, reg, n, d⟩ := i
  cases op <;> simp [render, countText, placeText, Op.info] at other ⊢

theorem named_or_unnamed (i : Instruction) :
    (i.reg = .primitiveBase ∧ ∃ p, Primitive.at? i.d = some p) ∨
      (i.reg = .primitiveBase → Primitive.at? i.d = none) := by
  cases called : Primitive.at? i.d with
  | none => exact .inr fun _ => rfl
  | some p =>
    by_cases base : i.reg = .primitiveBase
    · exact .inl ⟨base, p, rfl⟩
    · exact .inr fun same => absurd same base

/-- A call of a routine that has a name. -/
theorem toList_render_named {i : Instruction} (call : i.op = .call)
    (base : i.reg = .primitiveBase) {p : Primitive} (named : Primitive.at? i.d = some p) :
    i.render.toList = Op.call.info.name.toList ++ ' ' :: p.name.toList := by
  obtain ⟨op, reg, n, d⟩ := i
  subst call base
  simp [render, named]

/-- A call of any other routine. -/
theorem toList_render_unnamed {i : Instruction} (call : i.op = .call)
    (unnamed : i.reg = .primitiveBase → Primitive.at? i.d = none) :
    i.render.toList = Op.call.info.name.toList ++ '(' :: ((Register.ofCode i.n).name.toList ++
      ')' :: ' ' :: ((toString i.d).toList ++ '[' :: (i.reg.name.toList ++ [']']))) := by
  obtain ⟨op, reg, n, d⟩ := i
  subst call
  simp only [render]
  split
  · next named =>
    rw [unnamed rfl] at named
    cases named
  · simp

end Instruction

theorem readInstruction?_append {op : Op} (known : op ∈ Op.all) {cs : List Char}
    (lower : ∀ c ∈ cs.head?, c.isUpper = false) :
    readInstruction? (op.info.name.toList ++ cs) = readOperands? op cs := by
  have upper := Op.isUpper_of_mem_name op known
  have taken : cs.takeWhile Char.isUpper = [] ∧ cs.dropWhile Char.isUpper = cs := by
    cases cs with
    | nil => exact ⟨rfl, rfl⟩
    | cons c cs => simp [lower c rfl]
  rw [readInstruction?, List.takeWhile_append_of_pos upper, List.dropWhile_append_of_pos upper,
    taken.1, taken.2, List.append_nil, Op.ofName?_name op known]
  rfl

section Operands

variable {i : Instruction}

theorem readCount?_text (shown : i.Shown) (rest : List Char) :
    readCount? i.op.info (i.countText ++ rest) = some (i.n, rest) := by
  cases counted : i.op.info.hasN with
  | true =>
    have absent : ')' ∉ (toString i.n).toList := Text.notMem_toString (by decide) (by decide)
    have number := cutAt_append absent rest
    simp only [readCount?, Instruction.countText, counted, if_true, List.cons_append,
      List.append_assoc, List.nil_append, List.drop_succ_cons, List.drop_zero, number,
      Option.bind_eq_bind, Option.bind_some, Text.signed?_toString]
    rfl
  | false => simp [readCount?, Instruction.countText, counted, shown.noCount counted]

theorem readTarget?_text (shown : i.Shown) :
    readTarget? i.op.info i.placeText = some (i.reg, i.d) := by
  cases placed : i.op.info.hasR with
  | true =>
    simp only [readTarget?, Instruction.placeText, placed, if_true, List.drop_succ_cons,
      List.drop_zero, readPlace?_text shown.reg]
  | false =>
    cases numbered : i.op.info.hasD with
    | true =>
      simp only [readTarget?, Instruction.placeText, placed, numbered, if_true, Bool.false_eq_true,
        if_false, List.drop_succ_cons, List.drop_zero, Text.signed?_toString, Option.map_some,
        shown.noPlace placed]
    | false =>
      simp [readTarget?, placed, numbered, shown.noPlace placed, shown.noNumber numbered]

theorem readOperands?_text (shown : i.Shown) (other : i.op ≠ .call) :
    readOperands? i.op (i.countText ++ i.placeText) = some i := by
  rw [readOperands?, if_neg other, readCount?_text shown]
  simp only [Option.bind_eq_bind, Option.bind_some, readTarget?_text shown]
  rfl

theorem readInstruction?_named (shown : i.Shown) (call : i.op = .call)
    (base : i.reg = .primitiveBase) {p : Primitive} (called : Primitive.at? i.d = some p) :
    readInstruction? i.render.toList = some i := by
  have frame : i.n = Register.stackBase.code := (shown.frame call).2 base (by simp [called])
  rw [Instruction.toList_render_named call base called,
    readInstruction?_append (by decide) (by simp), readOperands?, if_pos rfl, readCall?,
    Primitive.ofName?_name]
  simp only [Option.bind_eq_bind, Option.bind_some, Primitive.displacement_of_at? called]
  rw [← call, ← base, ← frame]
  rfl

theorem readInstruction?_unnamed (shown : i.Shown) (call : i.op = .call)
    (unnamed : i.reg = .primitiveBase → Primitive.at? i.d = none) :
    readInstruction? i.render.toList = some i := by
  obtain ⟨frame, known, code⟩ := (shown.frame call).1
  have absent : ')' ∉ frame.name.toList := Register.notMem_name known (by decide)
  rw [Instruction.toList_render_unnamed call unnamed,
    readInstruction?_append (by decide) (by simp), readOperands?, if_pos rfl, code,
    Register.ofCode_code frame known, readCall?, cutAt_append absent]
  simp only [Option.bind_eq_bind, Option.bind_some, Register.ofName?_name frame known,
    List.drop_succ_cons, List.drop_zero, readPlace?_text shown.reg]
  rw [← call, ← code]
  rfl

theorem lower_text (i : Instruction) :
    ∀ c ∈ (i.countText ++ i.placeText).head?, c.isUpper = false := by
  unfold Instruction.countText Instruction.placeText
  split
  · simp
  · split
    · simp
    · split <;> simp

/-- An instruction that the listing shows is read back. -/
theorem readInstruction?_render (shown : i.Shown) : readInstruction? i.render.toList = some i := by
  by_cases call : i.op = .call
  · rcases i.named_or_unnamed with ⟨base, p, called⟩ | unnamed
    · exact readInstruction?_named shown call base called
    · exact readInstruction?_unnamed shown call unnamed
  · rw [Instruction.toList_render call, readInstruction?_append shown.op (lower_text i)]
    exact readOperands?_text shown call

end Operands

section Lines

variable {width first : Nat} {i : Instruction} {code : List Instruction}

/-- A line of a listing without its end. -/
def lineText (width address : Nat) (i : Instruction) : List Char :=
  (Text.padLeft width (toString address)).toList ++ ':' :: ' ' :: i.render.toList

theorem toList_padLeft (width address : Nat) :
    (Text.padLeft width (toString address)).toList =
      List.replicate (width - (toString address).length) ' ' ++ (toString address).toList := by
  simp [Text.padLeft]

/-- An address is made of blanks and digits. -/
theorem notMem_padLeft {address : Nat} {c : Char} (blank : c ≠ ' ') (digit : c.isDigit = false) :
    c ∉ (Text.padLeft width (toString address)).toList := by
  rw [toList_padLeft, List.mem_append]
  rintro (member | member)
  · exact blank (List.eq_of_mem_replicate member)
  · rw [Text.isDigit_of_mem_toString member] at digit
    cases digit

theorem cutAt_lineText (width address : Nat) (i : Instruction) :
    cutAt ':' (lineText width address i) =
      some ((Text.padLeft width (toString address)).toList, ' ' :: i.render.toList) :=
  cutAt_append (notMem_padLeft (by decide) (by decide)) _

theorem readLine?_lineText (shown : i.Shown) (width address : Nat) :
    readLine? (lineText width address i) = some i := by
  rw [readLine?, cutAt_lineText]
  simp only [Option.bind_eq_bind, Option.bind_some, List.drop_succ_cons, List.drop_zero]
  exact readInstruction?_render shown

theorem newline_notMem_countText (i : Instruction) : '\n' ∉ i.countText := by
  have number : '\n' ∉ (toString i.n).toList := Text.notMem_toString (by decide) (by decide)
  unfold Instruction.countText
  split
  · simpa using number
  · simp

theorem newline_notMem_place {reg : Register} (known : reg ∈ Register.all) (d : Int) :
    '\n' ∉ (toString d).toList ++ '[' :: (reg.name.toList ++ [']']) := by
  have number : '\n' ∉ (toString d).toList := Text.notMem_toString (by decide) (by decide)
  have name : '\n' ∉ reg.name.toList := Register.notMem_name known (by decide)
  simpa [name] using number

theorem newline_notMem_placeText (shown : i.Shown) : '\n' ∉ i.placeText := by
  have number : '\n' ∉ (toString i.d).toList := Text.notMem_toString (by decide) (by decide)
  unfold Instruction.placeText
  split
  · simpa using newline_notMem_place shown.reg i.d
  · split
    · simpa using number
    · simp

/-- An instruction stands on one line. -/
theorem newline_notMem_render (shown : i.Shown) : '\n' ∉ i.render.toList := by
  have name : ∀ op ∈ Op.all, '\n' ∉ op.info.name.toList := by decide
  by_cases call : i.op = .call
  · rcases i.named_or_unnamed with ⟨base, p, called⟩ | unnamed
    · have routine : '\n' ∉ p.name.toList := by cases p <;> decide
      rw [Instruction.toList_render_named call base called]
      simp [name .call (by decide), routine]
    · obtain ⟨frame, known, code⟩ := (shown.frame call).1
      have register : '\n' ∉ frame.name.toList := Register.notMem_name known (by decide)
      have place := newline_notMem_place shown.reg i.d
      rw [Instruction.toList_render_unnamed call unnamed, code,
        Register.ofCode_code frame known]
      simpa [name .call (by decide), register] using place
  · rw [Instruction.toList_render call]
    simp [name _ shown.op, newline_notMem_countText, newline_notMem_placeText shown]

theorem newline_notMem_lineText (shown : i.Shown) (width address : Nat) :
    '\n' ∉ lineText width address i := by
  have column : '\n' ∉ (Text.padLeft width (toString address)).toList :=
    notMem_padLeft (by decide) (by decide)
  simpa [lineText, newline_notMem_render shown] using column

theorem splitOn_listingFrom (shown : ∀ i ∈ code, i.Shown) (width first : Nat) :
    (String.join (listingFrom width first code)).toList.splitOn '\n' =
      ((code.zipIdx first).map fun n => lineText width n.2 n.1) ++ [[]] := by
  induction code generalizing first with
  | nil => rfl
  | cons i code ih =>
    obtain ⟨here, behind⟩ := List.forall_mem_cons.1 shown
    have line : (Text.padLeft width (toString first) ++ ": " ++ i.render ++ "\n").toList ++
        (String.join (listingFrom width (first + 1) code)).toList =
        lineText width first i ++
          '\n' :: (String.join (listingFrom width (first + 1) code)).toList := by
      simp [lineText]
    rw [listingFrom, String.join_cons, String.toList_append, line,
      List.splitOn_append_cons_self_of_not_mem (newline_notMem_lineText here width first),
      ih behind (first + 1)]
    rfl

/-- A listing has a line for each instruction. -/
theorem lines_listing (shown : ∀ i ∈ code, i.Shown) : lines (listing code) =
    code.zipIdx.map fun n => lineText (addressWidth code.length) n.2 n.1 := by
  rw [lines, listing, listingLines, splitOn_listingFrom shown, List.dropLast_concat]

/-- Code is read back from its listing, if the listing shows its instructions. -/
theorem decode_listing (shown : ∀ i ∈ code, i.Shown) : decode (listing code) = some code := by
  rw [decode, lines_listing shown]
  generalize addressWidth code.length = width
  generalize (0 : Nat) = first
  induction code generalizing first with
  | nil => rfl
  | cons i code ih =>
    obtain ⟨here, behind⟩ := List.forall_mem_cons.1 shown
    rw [List.zipIdx_cons, List.map_cons, List.mapM_cons, readLine?_lineText here,
      ih behind (first + 1)]
    rfl

theorem length_toString_le {m n : Nat} (le : m ≤ n) :
    (toString m).length ≤ (toString n).length := by
  rw [← String.length_toList, ← String.length_toList, Text.toList_toString, Text.toList_toString]
  have pos : 0 < (Nat.toDigits 10 n).length := Nat.length_toDigits_pos
  have fits := (Nat.length_toDigits_le_iff (by decide) pos).1 (Nat.le_refl _)
  exact (Nat.length_toDigits_le_iff (by decide) pos).2 (Nat.lt_of_le_of_lt le fits)

/-- The line of an instruction: its address, right-aligned to the width of the last one, and behind
a colon the instruction. -/
theorem lines_listing_getElem? (shown : ∀ i ∈ code, i.Shown) {a : Nat} {i : Instruction}
    (here : code[a]? = some i) :
    ∃ line, (lines (listing code))[a]? = some line ∧ ∃ address,
      cutAt ':' line = some (address, ' ' :: i.render.toList) ∧
      (∃ blanks, address = List.replicate blanks ' ' ++ (toString a).toList) ∧
      address.length = (toString (code.length - 1)).length := by
  obtain ⟨lt, rfl⟩ := List.getElem?_eq_some_iff.1 here
  have width : addressWidth code.length = (toString (code.length - 1)).length := by
    rw [addressWidth, if_neg (by omega)]
  refine ⟨lineText (addressWidth code.length) a code[a], ?_, _, cutAt_lineText _ _ _,
    ⟨_, toList_padLeft _ _⟩, ?_⟩
  · rw [lines_listing shown, List.getElem?_map, List.getElem?_zipIdx, here]
    simp
  · have fits := length_toString_le (show a ≤ code.length - 1 by omega)
    rw [toList_padLeft, List.length_append, List.length_replicate, String.length_toList, width]
    omega

end Lines

end TriangleTam.Machine

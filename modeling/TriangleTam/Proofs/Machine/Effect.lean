import TriangleTam.Meaning
import TriangleTam.Proofs.Machine.Run

/-!
# What instructions do to the height of the stack

How many words an instruction takes and gives, and where the machine may go on after it, can be
read off the instruction; for a routine of the standard environment it is said by its declaration.
The tests for equality also have to know the size of their operands, which is the word on top. Main
statement: `exec_effect`, the machine keeps to that.
-/

namespace TriangleTam

open Machine (Primitive)

/-- The words that are taken from the stack, and those that are put there after that. -/
structure Machine.Effect where
  pops : Nat
  pushes : Nat
deriving DecidableEq, Repr

/-- The number of words an actual parameter takes. -/
def Formal.words (f : Formal) : Nat :=
  if f.byRef then 1 else f.ty.size

/-- The number of words the actual parameters for all of these take. -/
def Formal.wordsAll : List Formal → Nat
  | [] => 0
  | f :: fs => f.words + wordsAll fs

/-- What a routine does to the stack by its declaration: it takes its operands and leaves its
result. `top` is the word on top of the stack, which a routine on operands of any type takes for
their size. -/
def Builtin.effect? (top : Option Int) : Builtin → Option Machine.Effect
  | unary _ operand result _ => some ⟨operand.size, result.size⟩
  | binary _ left right result prim =>
    if prim.needsSize then (top.bind Int.toNat?).map fun n => ⟨n + n + 1, result.size⟩
    else some ⟨left.size + right.size, result.size⟩
  | func _ params result _ => some ⟨Formal.wordsAll params, result.size⟩
  | type _ | const .. => none

namespace Machine

/-- What a primitive routine does to the stack by the declaration it is bound to. -/
def Primitive.effect? (top : Option Int) (p : Primitive) : Option Effect :=
  (Builtin.all.find? (·.prim? == some p)).bind (·.effect? top)

/-- What an instruction does to the stack, if that can be told from it. -/
def Instruction.effect? (top : Option Int) (i : Instruction) : Option Effect :=
  match i.op with
  | .load => i.n.toNat?.map fun n => ⟨0, n⟩
  | .loada | .loadl => some ⟨0, 1⟩
  | .loadi => i.n.toNat?.map fun n => ⟨1, n⟩
  | .store => i.n.toNat?.map fun n => ⟨n, 0⟩
  | .storei => i.n.toNat?.map fun n => ⟨1 + n, 0⟩
  | .call => if i.reg = .primitiveBase then (Primitive.at? i.d).bind (·.effect? top) else none
  | .push => i.d.toNat?.map fun d => ⟨0, d⟩
  | .pop => i.n.toNat?.bind fun n => i.d.toNat?.map fun d => ⟨n + d, n⟩
  | .jump | .halt => some ⟨0, 0⟩
  | .jumpi | .jumpif => some ⟨1, 0⟩
  | .calli | .ret | .unknown _ => none

/-- The word that an instruction leaves on top of the stack, if it is known. -/
def Instruction.leaves? (i : Instruction) : Option Int :=
  if i.op = .loadl then some i.d else none

/-- The addresses of the instructions that may follow the one at `pc`, if they can be told. -/
def Instruction.successors? (pc : Nat) (i : Instruction) : Option (List Nat) :=
  match i.op with
  | .jump => (codeAddress pc i.d i.reg).map fun target => [target]
  | .jumpif => (codeAddress pc i.d i.reg).map fun target => [pc + 1, target]
  | .halt => some []
  | .jumpi | .calli | .ret | .unknown _ => none
  | _ => some [pc + 1]

/-- All declarations that are bound to a routine say the same about it. -/
theorem Primitive.effect?_eq {b : Builtin} (member : b ∈ Builtin.all) {p : Primitive}
    (bound : b.prim? = some p) (top : Option Int) : p.effect? top = b.effect? top := by
  simp only [Builtin.all, List.mem_cons, List.not_mem_nil, or_false] at member
  rcases member with rfl | rfl | rfl | rfl | rfl | rfl | rfl | rfl | rfl | rfl | rfl | rfl | rfl |
    rfl | rfl | rfl | rfl | rfl | rfl | rfl | rfl | rfl <;> cases bound <;> rfl

theorem Primitive.at?_displacement {p : Primitive} (real : p ≠ .none) :
    Primitive.at? p.displacement = some p := by
  cases p <;> first | rfl | exact absurd rfl real

/-- What is told without the word on top does not depend on it. -/
theorem Primitive.effect?_of_none {p : Primitive} {e : Effect}
    (effect : p.effect? Option.none = some e) (top : Option Int) : p.effect? top = some e := by
  obtain ⟨b, found, effect⟩ := Option.bind_eq_some_iff.1 effect
  rw [Primitive.effect?, found, Option.bind_some]
  cases b with
  | binary op left right result prim =>
    rw [Builtin.effect?] at effect ⊢
    split at effect
    · cases effect
    · next sized => rw [if_neg sized, effect]
  | _ => exact effect

theorem Instruction.effect?_of_none {i : Instruction} {e : Effect}
    (effect : i.effect? none = some e) (top : Option Int) : i.effect? top = some e := by
  unfold Instruction.effect? at effect ⊢
  split at effect
  case h_7 =>
    split at effect
    · next reg =>
      obtain ⟨p, found, effect⟩ := Option.bind_eq_some_iff.1 effect
      simp only [reg, found, if_true, Option.bind_some]
      exact Primitive.effect?_of_none effect top
    · cases effect
  all_goals exact effect

section Step

variable {ι ω : Type} {P : Platform ι ω} {s s' : State ι ω} {e : Effect}

theorem length_wordsAt {stack ws : List Int} {a n : Nat} (h : wordsAt stack a n = some ws) :
    ws.length = n := by
  unfold wordsAt at h
  split at h
  · cases h
    simp
    omega
  · cases h

theorem length_overwrite {stack stack' ws : List Int} {a : Nat}
    (h : overwrite stack a ws = some stack') : stack'.length = stack.length := by
  unfold overwrite at h
  split at h
  · cases h
    simp
    omega
  · cases h

theorem length_pos_of_head? {stack : List Int} {x : Int} (h : stack.head? = some x) :
    0 < stack.length := by
  cases stack with
  | nil => cases h
  | cons y rest => exact Nat.succ_pos _

attribute [local simp] Ty.size Formal.words Formal.wordsAll

/-- A routine does to the stack what its declaration says. -/
theorem Primitive.run_effect {p : Primitive} {stack stack' : List Int} {w w' : World ι ω}
    (effect : p.effect? stack.head? = some e) (run : p.run P stack w = some (stack', w')) :
    e.pops ≤ stack.length ∧ stack'.length + e.pops = stack.length + e.pushes := by
  unfold Primitive.run at run
  split at run
  case h_1 | h_2 | h_7 | h_8 =>
    cases effect
    cases run
    exact ⟨by simp, by simp⟩
  case h_3 | h_4 | h_5 | h_6 =>
    cases effect
    obtain ⟨z, -, eq⟩ := Option.map_eq_some_iff.1 run
    cases eq
    exact ⟨by simp, by simp⟩
  case h_9 n rest =>
    obtain ⟨m, size, run⟩ := Option.bind_eq_some_iff.1 run
    have effect' : (Primitive.effect? (some n) .eq : Option Effect) =
        ((some n).bind Int.toNat?).map fun n => ⟨n + n + 1, 1⟩ := rfl
    rw [List.head?_cons, effect', Option.bind_some, size] at effect
    cases effect
    split at run
    · next fits =>
      cases run
      refine ⟨by simpa using fits, ?_⟩
      simp
      omega
    · cases run
  case h_10 | h_11 =>
    cases effect
    obtain ⟨r, -, eq⟩ := Option.map_eq_some_iff.1 run
    cases eq
    exact ⟨by simp, by simp⟩
  case h_12 | h_13 =>
    cases effect
    obtain ⟨a, -, run⟩ := Option.bind_eq_some_iff.1 run
    obtain ⟨⟨x, v⟩, -, run⟩ := Option.bind_eq_some_iff.1 run
    obtain ⟨rest', written, run⟩ := Option.bind_eq_some_iff.1 run
    cases run
    exact ⟨by simp, by simp [length_overwrite written]⟩
  case h_14 | h_15 | h_16 =>
    cases effect
    obtain ⟨r, -, eq⟩ := Option.map_eq_some_iff.1 run
    cases eq
    exact ⟨by simp, by simp⟩
  case h_17 => cases run

/-- The state `s'` is one to which the instruction `i` with the effect `e` may lead from `s`. -/
structure Effect.Relates (e : Effect) (i : Instruction) (s s' : State ι ω) : Prop where
  fits : e.pops ≤ s.stack.length
  height : s'.stack.length + e.pops = s.stack.length + e.pushes
  next : ∀ targets, i.successors? s.pc = some targets → s'.pc ∈ targets
  top : ∀ v, i.leaves? = some v → s'.stack.head? = some v

/-- An instruction that goes on to the next one. -/
theorem relates_next {i : Instruction} {stack : List Int} {w : World ι ω}
    (fits : e.pops ≤ s.stack.length)
    (height : stack.length + e.pops = s.stack.length + e.pushes)
    (plain : i.successors? s.pc = some [s.pc + 1]) (unknown : i.leaves? = none) :
    e.Relates i s ⟨s.pc + 1, stack, w⟩ := by
  refine ⟨fits, height, ?_, ?_⟩
  · intro targets next
    rw [plain] at next
    cases next
    simp
  · intro v known
    rw [unknown] at known
    cases known

section Instructions

variable {i : Instruction}

theorem relates_load (op : i.op = .load) (effect : i.effect? s.stack.head? = some e)
    (run : exec P i s = some s') : e.Relates i s s' := by
  simp only [Instruction.effect?, op] at effect
  simp only [exec, op] at run
  obtain ⟨a, -, run⟩ := Option.bind_eq_some_iff.1 run
  obtain ⟨n, size, run⟩ := Option.bind_eq_some_iff.1 run
  obtain ⟨ws, read, run⟩ := Option.bind_eq_some_iff.1 run
  rw [size, Option.map_some] at effect
  cases effect
  cases run
  refine relates_next (Nat.zero_le _) ?_ (by simp [Instruction.successors?, op])
    (by simp [Instruction.leaves?, op])
  simp [length_wordsAt read, Nat.add_comm]

theorem relates_loada (op : i.op = .loada) (effect : i.effect? s.stack.head? = some e)
    (run : exec P i s = some s') : e.Relates i s s' := by
  simp only [Instruction.effect?, op] at effect
  simp only [exec, op] at run
  cases effect
  obtain ⟨a, -, run⟩ := Option.bind_eq_some_iff.1 run
  cases run
  exact relates_next (Nat.zero_le _) (by simp) (by simp [Instruction.successors?, op])
    (by simp [Instruction.leaves?, op])

theorem relates_loadi (op : i.op = .loadi) (effect : i.effect? s.stack.head? = some e)
    (run : exec P i s = some s') : e.Relates i s s' := by
  simp only [Instruction.effect?, op] at effect
  simp only [exec, op] at run
  obtain ⟨x, top, run⟩ := Option.bind_eq_some_iff.1 run
  obtain ⟨a, -, run⟩ := Option.bind_eq_some_iff.1 run
  obtain ⟨n, size, run⟩ := Option.bind_eq_some_iff.1 run
  obtain ⟨ws, read, run⟩ := Option.bind_eq_some_iff.1 run
  rw [size, Option.map_some] at effect
  cases effect
  cases run
  have present := length_pos_of_head? top
  refine relates_next present ?_ (by simp [Instruction.successors?, op])
    (by simp [Instruction.leaves?, op])
  simp [length_wordsAt read]
  omega

theorem relates_loadl (op : i.op = .loadl) (effect : i.effect? s.stack.head? = some e)
    (run : exec P i s = some s') : e.Relates i s s' := by
  simp only [Instruction.effect?, op] at effect
  simp only [exec, op] at run
  cases effect
  cases run
  refine ⟨Nat.zero_le _, by simp [State.next], ?_, ?_⟩
  · simp [Instruction.successors?, op, State.next]
  · simp [Instruction.leaves?, op, State.next]

theorem relates_store (op : i.op = .store) (effect : i.effect? s.stack.head? = some e)
    (run : exec P i s = some s') : e.Relates i s s' := by
  simp only [Instruction.effect?, op] at effect
  simp only [exec, op] at run
  obtain ⟨n, size, run⟩ := Option.bind_eq_some_iff.1 run
  obtain ⟨a, -, run⟩ := Option.bind_eq_some_iff.1 run
  rw [size, Option.map_some] at effect
  cases effect
  split at run
  · next fits =>
    obtain ⟨rest, written, run⟩ := Option.bind_eq_some_iff.1 run
    cases run
    refine relates_next fits ?_ (by simp [Instruction.successors?, op])
      (by simp [Instruction.leaves?, op])
    simp [length_overwrite written]
    omega
  · cases run

theorem relates_storei (op : i.op = .storei) (effect : i.effect? s.stack.head? = some e)
    (run : exec P i s = some s') : e.Relates i s s' := by
  simp only [Instruction.effect?, op] at effect
  simp only [exec, op] at run
  obtain ⟨x, top, run⟩ := Option.bind_eq_some_iff.1 run
  obtain ⟨a, -, run⟩ := Option.bind_eq_some_iff.1 run
  obtain ⟨n, size, run⟩ := Option.bind_eq_some_iff.1 run
  rw [size, Option.map_some] at effect
  cases effect
  have present := length_pos_of_head? top
  split at run
  · next fits =>
    obtain ⟨rest, written, run⟩ := Option.bind_eq_some_iff.1 run
    cases run
    rw [List.length_tail] at fits
    refine relates_next (by simp only; omega) ?_ (by simp [Instruction.successors?, op])
      (by simp [Instruction.leaves?, op])
    simp [length_overwrite written]
    omega
  · cases run

theorem relates_call (op : i.op = .call) (effect : i.effect? s.stack.head? = some e)
    (run : exec P i s = some s') : e.Relates i s s' := by
  simp only [Instruction.effect?, op] at effect
  simp only [exec, op] at run
  split at run
  · next reg =>
    obtain ⟨p, found, run⟩ := Option.bind_eq_some_iff.1 run
    obtain ⟨⟨stack, w⟩, ran, run⟩ := Option.bind_eq_some_iff.1 run
    cases run
    rw [if_pos reg, found, Option.bind_some] at effect
    obtain ⟨fits, height⟩ := Primitive.run_effect effect ran
    exact relates_next fits height (by simp [Instruction.successors?, op])
      (by simp [Instruction.leaves?, op])
  · cases run

theorem relates_push (op : i.op = .push) (effect : i.effect? s.stack.head? = some e)
    (run : exec P i s = some s') : e.Relates i s s' := by
  simp only [Instruction.effect?, op] at effect
  simp only [exec, op] at run
  obtain ⟨d, size, run⟩ := Option.bind_eq_some_iff.1 run
  rw [size, Option.map_some] at effect
  cases effect
  cases run
  exact relates_next (Nat.zero_le _) (by simp [Nat.add_comm])
    (by simp [Instruction.successors?, op]) (by simp [Instruction.leaves?, op])

theorem relates_pop (op : i.op = .pop) (effect : i.effect? s.stack.head? = some e)
    (run : exec P i s = some s') : e.Relates i s s' := by
  simp only [Instruction.effect?, op] at effect
  simp only [exec, op] at run
  obtain ⟨n, kept, run⟩ := Option.bind_eq_some_iff.1 run
  obtain ⟨d, size, run⟩ := Option.bind_eq_some_iff.1 run
  rw [kept, size, Option.bind_some, Option.map_some] at effect
  cases effect
  split at run
  · next fits =>
    cases run
    refine relates_next fits ?_ (by simp [Instruction.successors?, op])
      (by simp [Instruction.leaves?, op])
    simp
    omega
  · cases run

theorem relates_jump (op : i.op = .jump) (effect : i.effect? s.stack.head? = some e)
    (run : exec P i s = some s') : e.Relates i s s' := by
  simp only [Instruction.effect?, op] at effect
  simp only [exec, op] at run
  cases effect
  obtain ⟨a, target, run⟩ := Option.bind_eq_some_iff.1 run
  cases run
  refine ⟨Nat.zero_le _, rfl, ?_, ?_⟩
  · simp [Instruction.successors?, op, target, State.goto]
  · simp [Instruction.leaves?, op]

theorem relates_jumpi (op : i.op = .jumpi) (effect : i.effect? s.stack.head? = some e)
    (run : exec P i s = some s') : e.Relates i s s' := by
  simp only [Instruction.effect?, op] at effect
  simp only [exec, op] at run
  cases effect
  obtain ⟨x, top, run⟩ := Option.bind_eq_some_iff.1 run
  obtain ⟨a, -, run⟩ := Option.bind_eq_some_iff.1 run
  have present := length_pos_of_head? top
  cases run
  refine ⟨present, ?_, ?_, ?_⟩
  · simp [State.goto]
    omega
  · simp [Instruction.successors?, op]
  · simp [Instruction.leaves?, op]

theorem relates_jumpif (op : i.op = .jumpif) (effect : i.effect? s.stack.head? = some e)
    (run : exec P i s = some s') : e.Relates i s s' := by
  simp only [Instruction.effect?, op] at effect
  simp only [exec, op] at run
  cases effect
  obtain ⟨x, top, run⟩ := Option.bind_eq_some_iff.1 run
  have present := length_pos_of_head? top
  have popped : s.stack.tail.length + 1 = s.stack.length := by
    rw [List.length_tail]
    omega
  split at run
  · obtain ⟨a, target, run⟩ := Option.bind_eq_some_iff.1 run
    cases run
    refine ⟨present, popped, ?_, ?_⟩
    · simp [Instruction.successors?, op, target, State.goto]
    · simp [Instruction.leaves?, op]
  · cases run
    refine ⟨present, popped, ?_, ?_⟩
    · intro targets next
      simp only [Instruction.successors?, op] at next
      obtain ⟨a, -, rfl⟩ := Option.map_eq_some_iff.1 next
      simp [State.next]
    · simp [Instruction.leaves?, op]

/-- An instruction does what its effect says. -/
theorem exec_effect (effect : i.effect? s.stack.head? = some e) (run : exec P i s = some s') :
    e.Relates i s s' := by
  cases op : i.op with
  | load => exact relates_load op effect run
  | loada => exact relates_loada op effect run
  | loadi => exact relates_loadi op effect run
  | loadl => exact relates_loadl op effect run
  | store => exact relates_store op effect run
  | storei => exact relates_storei op effect run
  | call => exact relates_call op effect run
  | push => exact relates_push op effect run
  | pop => exact relates_pop op effect run
  | jump => exact relates_jump op effect run
  | jumpi => exact relates_jumpi op effect run
  | jumpif => exact relates_jumpif op effect run
  | calli | ret | halt | unknown => simp [exec, op] at run

end Instructions

end Step

end Machine

end TriangleTam

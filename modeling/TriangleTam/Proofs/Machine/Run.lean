import TriangleTam.Machine.Instruction
import TriangleTam.Proofs.Platform

/-!
# Runs of the abstract machine

What each instruction does to a stack of words and to the world outside. A run ends where the
machine is told to stop; where an instruction has no effect, as after a fault, there is no run that
ends. `Leads` says what is known of all runs from a state before they are looked at further, and
`CodeAt` where a sequence of instructions stands in the code.
-/

namespace TriangleTam.Machine

/-- The machine between two instructions. -/
structure State (ι ω : Type) where
  /-- The address of the next instruction. -/
  pc : Nat
  /-- The words in use, the last one first. -/
  stack : List Int
  world : World ι ω

/-- The word a truth value is kept in. -/
def truthWord (b : Bool) : Int := if b then 1 else 0

/-- The `n` words from the address `a` on, in the order of their addresses. -/
def wordsAt (stack : List Int) (a n : Nat) : Option (List Int) :=
  if a + n ≤ stack.length then some ((stack.reverse.drop a).take n) else none

/-- The stack with words put at the address `a`, which are given in the order of their
addresses. -/
def overwrite (stack : List Int) (a : Nat) (ws : List Int) : Option (List Int) :=
  if a + ws.length ≤ stack.length then
    some (stack.reverse.take a ++ ws ++ stack.reverse.drop (a + ws.length)).reverse
  else none

/-- The address in the stack that is `d` words from what a register holds. -/
def dataAddress (stack : List Int) (d : Int) : Register → Option Nat
  | .stackBase => d.toNat?
  | .stackTop => (stack.length + d).toNat?
  | _ => none

/-- The address in the code that is `d` instructions from what a register holds. -/
def codeAddress (pc : Nat) (d : Int) : Register → Option Nat
  | .codeBase => d.toNat?
  | .codePointer => (pc + d).toNat?
  | _ => none

section Step

variable {ι ω : Type} (P : Platform ι ω)

/-- What a primitive routine does to the stack and the world. Those no operator and no routine of
the language is bound to are left out. -/
def Primitive.run : Primitive → List Int → World ι ω → Option (List Int × World ι ω)
  | id, x :: rest, w => some (x :: rest, w)
  | not, x :: rest, w => some (truthWord (x == 0) :: rest, w)
  | add, y :: x :: rest, w => (P.add x y).map fun z => (z :: rest, w)
  | sub, y :: x :: rest, w => (P.sub x y).map fun z => (z :: rest, w)
  | mult, y :: x :: rest, w => (P.mult x y).map fun z => (z :: rest, w)
  | div, y :: x :: rest, w => (P.div x y).map fun z => (z :: rest, w)
  | lt, y :: x :: rest, w => some (truthWord (P.lt x y) :: rest, w)
  | gt, y :: x :: rest, w => some (truthWord (P.gt x y) :: rest, w)
  | eq, n :: rest, w => do
    let n ← n.toNat?
    if n + n ≤ rest.length then
      return (truthWord (rest.take n == (rest.drop n).take n) :: rest.drop (n + n), w)
    else Option.none
  | eof, rest, w => (w.read P.eof).map fun r => (truthWord r.1 :: rest, r.2)
  | eol, rest, w => (w.read P.eol).map fun r => (truthWord r.1 :: rest, r.2)
  | get, a :: rest, w => do
    let a ← a.toNat?
    let (x, w) ← w.read P.get
    let rest ← overwrite rest a [x]
    return (rest, w)
  | getint, a :: rest, w => do
    let a ← a.toNat?
    let (x, w) ← w.read P.getint
    let rest ← overwrite rest a [x]
    return (rest, w)
  | put, x :: rest, w => (w.write (P.put x)).map fun w => (rest, w)
  | putint, x :: rest, w => (w.write (P.putint x)).map fun w => (rest, w)
  | puteol, rest, w => (w.write P.puteol).map fun w => (rest, w)
  | _, _, _ => Option.none

/-- The machine goes on to the next instruction with another stack. -/
def State.next (s : State ι ω) (stack : List Int) : State ι ω :=
  ⟨s.pc + 1, stack, s.world⟩

/-- The machine goes on at another address with another stack. -/
def State.goto (s : State ι ω) (pc : Nat) (stack : List Int) : State ι ω :=
  ⟨pc, stack, s.world⟩

/-- What an instruction does. There is no state behind one that stops the machine, and none behind
a fault; routines made of instructions are left out. -/
def exec (i : Instruction) (s : State ι ω) : Option (State ι ω) :=
  match i.op with
  | .load => do
    let ws ← wordsAt s.stack (← dataAddress s.stack i.d i.reg) (← i.n.toNat?)
    return s.next (ws.reverse ++ s.stack)
  | .loada => do
    let a ← dataAddress s.stack i.d i.reg
    return s.next (a :: s.stack)
  | .loadi => do
    let a ← s.stack.head?
    let ws ← wordsAt s.stack.tail (← a.toNat?) (← i.n.toNat?)
    return s.next (ws.reverse ++ s.stack.tail)
  | .loadl => some (s.next (i.d :: s.stack))
  | .store => do
    let n ← i.n.toNat?
    let a ← dataAddress s.stack i.d i.reg
    if n ≤ s.stack.length then
      let rest ← overwrite (s.stack.drop n) a (s.stack.take n).reverse
      return s.next rest
    else none
  | .storei => do
    let a ← (← s.stack.head?).toNat?
    let n ← i.n.toNat?
    if n ≤ s.stack.tail.length then
      let rest ← overwrite (s.stack.tail.drop n) a (s.stack.tail.take n).reverse
      return s.next rest
    else none
  | .call =>
    match i.reg with
    | .primitiveBase => do
      let p ← Primitive.at? i.d
      let (stack, w) ← p.run P s.stack s.world
      return ⟨s.pc + 1, stack, w⟩
    | _ => none
  | .push => do
    let d ← i.d.toNat?
    return s.next (List.replicate d 0 ++ s.stack)
  | .pop => do
    let n ← i.n.toNat?
    let d ← i.d.toNat?
    if n + d ≤ s.stack.length then return s.next (s.stack.take n ++ s.stack.drop (n + d)) else none
  | .jump => do
    let pc ← codeAddress s.pc i.d i.reg
    return s.goto pc s.stack
  | .jumpi => do
    let pc ← (← s.stack.head?).toNat?
    return s.goto pc s.stack.tail
  | .jumpif => do
    let x ← s.stack.head?
    if x = i.n then
      let pc ← codeAddress s.pc i.d i.reg
      return s.goto pc s.stack.tail
    else return s.next s.stack.tail
  | .calli | .ret | .halt | .unknown _ => none

/-- The machine stops after `n` instructions and leaves the world as it is then. -/
inductive HaltsIn (code : List Instruction) : Nat → State ι ω → World ι ω → Prop where
  | halt {s : State ι ω} {i} (here : code[s.pc]? = some i) (stop : i.op = .halt) :
      HaltsIn code 0 s s.world
  | step {n i} {s s' : State ι ω} {w} (here : code[s.pc]? = some i) (effect : exec P i s = some s')
      (rest : HaltsIn code n s' w) : HaltsIn code (n + 1) s w

/-- Started with an empty stack, the machine stops and has changed the world `w` into `w'`. -/
def Halts (code : List Instruction) (w w' : World ι ω) : Prop :=
  ∃ n, HaltsIn P code n ⟨0, [], w⟩ w'

end Step

section Leads

variable {ι ω : Type} {P : Platform ι ω} {code : List Instruction}

/-- Every run from `s` that ends first makes `k` steps, which lead to the state `r`, if to any. -/
def Leads (P : Platform ι ω) (code : List Instruction) (k : Nat) (s : State ι ω)
    (r : Option (State ι ω)) : Prop :=
  ∀ n w, HaltsIn P code n s w ↔ ∃ m s', n = m + k ∧ r = some s' ∧ HaltsIn P code m s' w

theorem leads_refl (s : State ι ω) : Leads P code 0 s (some s) := by
  intro n w
  simp

theorem leads_exec {s : State ι ω} {i : Instruction} (here : code[s.pc]? = some i)
    (goes : i.op ≠ .halt) : Leads P code 1 s (exec P i s) := by
  intro n w
  constructor
  · intro run
    cases run with
    | halt here' stop =>
      rw [here] at here'
      cases here'
      exact absurd stop goes
    | step here' effect rest =>
      rw [here] at here'
      cases here'
      exact ⟨_, _, rfl, effect, rest⟩
  · rintro ⟨m, s', rfl, effect, rest⟩
    exact .step here effect rest

/-- What is led to may depend on a result, which may be missing. -/
theorem Leads.bind {α : Type} {k l : Nat} {s : State ι ω} {o : Option α} {at_ : α → State ι ω}
    {f : α → Option (State ι ω)} (first : Leads P code k s (o.map at_))
    (second : ∀ a, o = some a → Leads P code l (at_ a) (f a)) :
    Leads P code (k + l) s (o.bind f) := by
  intro n w
  rw [first n w]
  constructor
  · rintro ⟨m, s', rfl, eq, run⟩
    obtain ⟨a, rfl, rfl⟩ := Option.map_eq_some_iff.1 eq
    obtain ⟨m, t, rfl, eq, run⟩ := (second a rfl m w).1 run
    exact ⟨m, t, by omega, eq, run⟩
  · rintro ⟨m, t, rfl, eq, run⟩
    obtain ⟨a, rfl, eq⟩ := Option.bind_eq_some_iff.1 eq
    exact ⟨m + l, at_ a, by omega, rfl, (second a rfl _ w).2 ⟨m, t, rfl, eq, run⟩⟩

theorem Leads.trans {k l : Nat} {s s' : State ι ω} {r : Option (State ι ω)}
    (first : Leads P code k s (some s')) (second : Leads P code l s' r) :
    Leads P code (k + l) s r := by
  have first : Leads P code k s ((some ()).map fun _ => s') := first
  exact first.bind fun _ _ => second

/-- A run that ends goes on from where it is led to. -/
theorem Leads.haltsIn {k n : Nat} {s s' : State ι ω} {w : World ι ω}
    (leads : Leads P code k s (some s')) (run : HaltsIn P code n s w) :
    k ≤ n ∧ HaltsIn P code (n - k) s' w := by
  obtain ⟨m, _, rfl, eq, run⟩ := (leads n w).1 run
  cases eq
  exact ⟨by omega, by simpa using run⟩

theorem Leads.haltsIn_of_haltsIn {k n : Nat} {s s' : State ι ω} {w : World ι ω}
    (leads : Leads P code k s (some s')) (run : HaltsIn P code n s' w) :
    HaltsIn P code (n + k) s w :=
  (leads (n + k) w).2 ⟨n, s', rfl, rfl, run⟩

/-- A machine that is told to stop leaves the world as it is. -/
theorem HaltsIn.world_eq {n : Nat} {s : State ι ω} {w : World ι ω} (run : HaltsIn P code n s w)
    {i : Instruction} (here : code[s.pc]? = some i) (stop : i.op = .halt) : w = s.world := by
  cases run with
  | halt => rfl
  | step here' effect rest =>
    rw [here] at here'
    cases here'
    simp [exec, stop] at effect

/-- The sequence `is` stands in the code from the address `pc` on. -/
def CodeAt (code : List Instruction) (pc : Nat) : List Instruction → Prop
  | [] => True
  | i :: is => code[pc]? = some i ∧ CodeAt code (pc + 1) is

@[simp] theorem codeAt_nil (pc : Nat) : CodeAt code pc [] := trivial

@[simp] theorem codeAt_cons {pc : Nat} {i : Instruction} {is : List Instruction} :
    CodeAt code pc (i :: is) ↔ code[pc]? = some i ∧ CodeAt code (pc + 1) is := Iff.rfl

@[simp] theorem codeAt_append {pc : Nat} {is js : List Instruction} :
    CodeAt code pc (is ++ js) ↔ CodeAt code pc is ∧ CodeAt code (pc + is.length) js := by
  induction is generalizing pc with
  | nil => simp
  | cons i is ih =>
    rw [List.cons_append, codeAt_cons, ih, codeAt_cons, and_assoc, List.length_cons,
      Nat.add_right_comm, Nat.add_assoc]

theorem codeAt_self (before is : List Instruction) : CodeAt (before ++ is) before.length is := by
  induction is generalizing before with
  | nil => trivial
  | cons i is ih =>
    refine ⟨by simp, ?_⟩
    simpa using ih (before ++ [i])

end Leads

end TriangleTam.Machine

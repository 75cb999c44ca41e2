import TriangleTam.Machine.Primitive
import TriangleTam.Text.Decimal

/-!
# Instructions of the abstract machine

An instruction has an operation, a base register, a small number `n` and a displacement `d`; which
of them mean something depends on the operation. The listing of a code sequence has a line for
each instruction with its address.
-/

namespace TriangleTam.Machine

/-- An operation. Code made by hand may hold operations that do not exist. -/
inductive Op where
  /-- Pushes `n` words fetched from `d[r]`. -/
  | load
  /-- Pushes the address `d[r]`. -/
  | loada
  /-- Pops an address and pushes `n` words from it. -/
  | loadi
  /-- Pushes the number `d`. -/
  | loadl
  /-- Pops `n` words into `d[r]`. -/
  | store
  /-- Pops an address and pops `n` words into it. -/
  | storei
  /-- Calls the routine at `d[r]`. -/
  | call
  /-- Calls a closure popped from the stack. -/
  | calli
  /-- Returns `n` words and drops `d` words of arguments. -/
  | ret
  /-- Reserves `d` words on the stack. -/
  | push
  /-- Drops `d` words below the top `n` words. -/
  | pop
  /-- Jumps to `d[r]`. -/
  | jump
  /-- Jumps to an address popped from the stack. -/
  | jumpi
  /-- Pops a word and jumps to `d[r]` if it equals `n`. -/
  | jumpif
  /-- Stops the machine. -/
  | halt
  | unknown (code : Int)
deriving DecidableEq, Repr

/-- What the parts of an instruction mean. -/
structure OpInfo where
  name : String
  /-- The number `n` means something. -/
  hasN : Bool := false
  /-- The displacement is relative to a register. -/
  hasR : Bool := false
  /-- The displacement means something. -/
  hasD : Bool := false
  /-- The displacement is a code address. -/
  isJump : Bool := false
  /-- The operation writes memory. -/
  isStore : Bool := false
deriving DecidableEq, Repr

namespace Op

/-- The operations that exist, at the index of their numbers. -/
def all : List Op :=
  [load, loada, loadi, loadl, store, storei, call, calli, ret, push, pop, jump, jumpi, jumpif,
    halt]

/-- The operation with a given number. -/
def ofCode (code : Int) : Op :=
  if code < 0 then unknown code else all.getD code.toNat (unknown code)

/-- The number of the operation. -/
def code : Op → Int
  | load => 0 | loada => 1 | loadi => 2 | loadl => 3 | store => 4 | storei => 5 | call => 6
  | calli => 7 | ret => 8 | push => 9 | pop => 10 | jump => 11 | jumpi => 12 | jumpif => 13
  | halt => 14
  | unknown code => code

/-- The shape of the operation. -/
def info : Op → OpInfo
  | load => { name := "LOAD", hasN := true, hasR := true, hasD := true }
  | loada => { name := "LOADA", hasR := true, hasD := true }
  | loadi => { name := "LOADI", hasN := true }
  | loadl => { name := "LOADL", hasD := true }
  | store => { name := "STORE", hasN := true, hasR := true, hasD := true, isStore := true }
  | storei => { name := "STOREI", hasN := true, isStore := true }
  | call => { name := "CALL", hasN := true, hasR := true, hasD := true }
  | calli => { name := "CALLI" }
  | ret => { name := "RETURN", hasN := true, hasD := true }
  | push => { name := "PUSH", hasD := true }
  | pop => { name := "POP", hasN := true, hasD := true }
  | jump => { name := "JUMP", hasR := true, hasD := true, isJump := true }
  | jumpi => { name := "JUMPI" }
  | jumpif => { name := "JUMPIF", hasN := true, hasR := true, hasD := true, isJump := true }
  | halt => { name := "HALT" }
  | unknown _ => { name := "unknown" }

end Op

/-- A register. Code made by hand may name registers that do not exist. -/
inductive Register where
  | codeBase | codeTop | primitiveBase | primitiveTop | stackBase | stackTop | heapBase | heapTop
  | localBase | local1 | local2 | local3 | local4 | local5 | local6 | codePointer
  | unknown (code : Int)
deriving DecidableEq, Repr

namespace Register

/-- The registers that exist, at the index of their numbers. -/
def all : List Register :=
  [codeBase, codeTop, primitiveBase, primitiveTop, stackBase, stackTop, heapBase, heapTop,
    localBase, local1, local2, local3, local4, local5, local6, codePointer]

/-- The register with a given number. -/
def ofCode (code : Int) : Register :=
  if code < 0 then unknown code else all.getD code.toNat (unknown code)

/-- The number of the register. -/
def code : Register → Int
  | codeBase => 0 | codeTop => 1 | primitiveBase => 2 | primitiveTop => 3 | stackBase => 4
  | stackTop => 5 | heapBase => 6 | heapTop => 7 | localBase => 8 | local1 => 9 | local2 => 10
  | local3 => 11 | local4 => 12 | local5 => 13 | local6 => 14 | codePointer => 15
  | unknown code => code

/-- How the register is called in listings. -/
def name : Register → String
  | codeBase => "CB" | codeTop => "CT" | primitiveBase => "PB" | primitiveTop => "PT"
  | stackBase => "SB" | stackTop => "ST" | heapBase => "HB" | heapTop => "HT"
  | localBase => "LB" | local1 => "L1" | local2 => "L2" | local3 => "L3" | local4 => "L4"
  | local5 => "L5" | local6 => "L6" | codePointer => "CP"
  | unknown _ => "R?"

end Register

/-- The largest integer literal that fits a word of the machine. -/
def maxInt : Int := 32767

/-- One instruction. -/
structure Instruction where
  op : Op
  reg : Register := .codeBase
  n : Int := 0
  d : Int := 0
deriving DecidableEq, Repr

namespace Instruction

/-- The instruction as it stands in listings, as in `LOAD(1) 0[SB]` or `CALL add`. -/
def render (i : Instruction) : String :=
  let name := i.op.info.name
  let displaced := toString i.d ++ "[" ++ i.reg.name ++ "]"
  match i.op with
  | .call =>
    match i.reg, Primitive.at? i.d with
    | .primitiveBase, some p => name ++ " " ++ p.name
    | _, _ => name ++ "(" ++ (Register.ofCode i.n).name ++ ") " ++ displaced
  | .pop | .ret => name ++ "(" ++ toString i.n ++ ") " ++ toString i.d
  | _ =>
    let counted := if i.op.info.hasN then name ++ "(" ++ toString i.n ++ ")" else name
    if i.op.info.hasR then counted ++ " " ++ displaced
    else if i.op.info.hasD then counted ++ " " ++ toString i.d
    else counted

end Instruction

/-- The width of the address column of a listing of `count` instructions. -/
def addressWidth (count : Nat) : Nat :=
  if count = 0 then 1 else (toString (count - 1)).length

/-- The lines of the listing of a code sequence, the first of which has address `first`. -/
def listingFrom (width first : Nat) : List Instruction → List String
  | [] => []
  | i :: rest =>
    (Text.padLeft width (toString first) ++ ": " ++ i.render ++ "\n")
      :: listingFrom width (first + 1) rest

/-- The lines of the listing of a program. -/
def listingLines (code : List Instruction) : List String :=
  listingFrom (addressWidth code.length) 0 code

/-- The listing of a program. -/
def listing (code : List Instruction) : String :=
  String.join (listingLines code)

/-- A listing written line by line to where only `room` lines fit: what was written, and whether a
line was refused. -/
def listingWithin (room : Nat) (code : List Instruction) : String × Bool :=
  (String.join ((listingLines code).take room), decide (room < code.length))

end TriangleTam.Machine

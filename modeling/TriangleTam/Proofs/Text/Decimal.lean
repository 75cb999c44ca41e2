import Mathlib.Data.Nat.Digits.Defs
import TriangleTam.Text.Decimal

/-!
# Decimals read and written

Digits are read to the number that they stand for by their places, whatever their number and
however many zeros lead; a number that is written is read back. Main statements:
`int64?_of_digits` and `signed?_toString`.
-/

namespace TriangleTam.Text

/-- The number that decimal digits stand for: the last one counts ones, the one before it tens, and
so on. -/
def decimalValue (s : String) : Nat :=
  Nat.ofDigits 10 (s.toList.reverse.map fun c => c.toNat - '0'.toNat)

section Reading

variable {cs : List Char}

theorem ofDigitChars_toList (s : String) : Nat.ofDigitChars 10 s.toList 0 = decimalValue s := by
  rw [decimalValue]
  induction s.toList with
  | nil => rfl
  | cons c cs ih =>
    rw [Nat.ofDigitChars_cons, Nat.ofDigitChars_eq_ofDigitChars_zero, ih, List.reverse_cons,
      List.map_append, Nat.ofDigits_append]
    simp [Nat.add_comm]

theorem digitsValue?_of_digits (digits : ∀ c ∈ cs, c.isDigit = true) (acc : Nat) :
    digitsValue? acc cs = some (Nat.ofDigitChars 10 cs acc) := by
  induction cs generalizing acc with
  | nil => rfl
  | cons c cs ih =>
    obtain ⟨digit, digits⟩ := List.forall_mem_cons.1 digits
    have range : '0' ≤ c ∧ c ≤ '9' := by simpa [Char.isDigit, Char.le_def] using digit
    rw [digitsValue?, if_pos range, ih digits, Nat.ofDigitChars_cons, Nat.mul_comm]

theorem natural?_of_digits (nonempty : cs ≠ []) (digits : ∀ c ∈ cs, c.isDigit = true) :
    natural? cs = some (Nat.ofDigitChars 10 cs 0) := by
  cases cs with
  | nil => exact absurd rfl nonempty
  | cons c cs => exact digitsValue?_of_digits digits 0

/-- Digits alone have no sign. -/
theorem signed?_of_digits (digits : ∀ c ∈ cs, c.isDigit = true) :
    signed? cs = (natural? cs).map Int.ofNat := by
  unfold signed?
  split
  · exact absurd (digits '+' List.mem_cons_self) (by decide)
  · exact absurd (digits '-' List.mem_cons_self) (by decide)
  · rfl

/-- Digits are read if the number they stand for fits 64 bits, and then to that number. -/
theorem int64?_of_digits {s : String} (nonempty : s ≠ "")
    (digits : ∀ c ∈ s.toList, c.isDigit = true) :
    int64? s = if (decimalValue s : Int) ≤ maxInt64 then some (decimalValue s : Int) else none := by
  have least : minInt64 ≤ (decimalValue s : Int) := by
    unfold minInt64
    omega
  rw [int64?, signed?_of_digits digits, natural?_of_digits (by simpa using nonempty) digits,
    ofDigitChars_toList]
  simp [Option.filter, least]

end Reading

section Writing

theorem toList_toString (n : Nat) : (toString n).toList = Nat.toDigits 10 n := by
  rw [Nat.toString_eq_repr, Nat.toList_repr]

theorem isDigit_of_mem_toString {n : Nat} {c : Char} (member : c ∈ (toString n).toList) :
    c.isDigit = true := by
  rw [toList_toString] at member
  exact Nat.isDigit_of_mem_toDigits (by decide) (by decide) member

theorem toString_natCast (n : Nat) : toString (n : Int) = toString n := by
  rw [Int.toString_eq_repr, Int.repr_eq_if, if_pos (Int.natCast_nonneg n), Int.toNat_natCast,
    Nat.toString_eq_repr]

theorem toString_negSucc (n : Nat) : toString (Int.negSucc n) = "-" ++ toString (n + 1) := by
  rw [Int.toString_eq_repr, Int.repr_eq_if, if_neg (by omega), Int.neg_negSucc, Int.toNat_natCast,
    Nat.toString_eq_repr]

/-- A number is written with digits, behind a sign if it is negative. -/
theorem mem_toString_int {n : Int} {c : Char} (member : c ∈ (toString n).toList) :
    c = '-' ∨ c.isDigit = true := by
  cases n with
  | ofNat m =>
    rw [Int.ofNat_eq_natCast, toString_natCast] at member
    exact .inr (isDigit_of_mem_toString member)
  | negSucc m =>
    rw [toString_negSucc, String.toList_append, List.mem_append] at member
    rcases member with sign | digit
    · exact .inl (by simpa using sign)
    · exact .inr (isDigit_of_mem_toString digit)

/-- What is neither a sign nor a digit is in no number. -/
theorem notMem_toString {n : Int} {c : Char} (sign : c ≠ '-') (digit : c.isDigit = false) :
    c ∉ (toString n).toList := by
  intro member
  rcases mem_toString_int member with rfl | shown
  · exact sign rfl
  · rw [digit] at shown
    cases shown

theorem natural?_toString (n : Nat) : natural? (toString n).toList = some n := by
  rw [natural?_of_digits _ fun _ => isDigit_of_mem_toString]
  · rw [toList_toString, Nat.ofDigitChars_ten_toDigits]
  · rw [toList_toString]
    exact Nat.toDigits_ne_nil

/-- What is written is read back. -/
theorem signed?_toString (n : Int) : signed? (toString n).toList = some n := by
  cases n with
  | ofNat m =>
    rw [Int.ofNat_eq_natCast, toString_natCast,
      signed?_of_digits fun _ => isDigit_of_mem_toString, natural?_toString]
    rfl
  | negSucc m =>
    rw [toString_negSucc, String.toList_append]
    show (natural? (toString (m + 1)).toList).map (fun n => -Int.ofNat n) = _
    rw [natural?_toString]
    rfl

theorem toString_int_injective : Function.Injective (toString : Int → String) := by
  intro m n same
  have read := signed?_toString m
  rw [same, signed?_toString] at read
  exact (Option.some.inj read).symm

end Writing

end TriangleTam.Text

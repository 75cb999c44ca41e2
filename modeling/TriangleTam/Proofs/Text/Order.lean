import TriangleTam.Proofs.Text.Glyph

/-!
# The order of texts by their bytes

Texts are ordered by their characters, and characters by their code points. The encoding of
characters in bytes keeps that order. Main statement: `bytes_lt_iff`, a text comes before another
exactly if its bytes do.
-/

namespace TriangleTam.Text

/-- The bytes of a text. -/
def bytes (s : String) : List UInt8 := s.toByteArray.data.toList

theorem bytes_eq_encode (s : String) : bytes s = s.toList.flatMap String.utf8EncodeChar := by
  rw [bytes, ← String.utf8Encode_toList]
  simp [List.utf8Encode]

namespace Glyph

/-- The number is written as these bytes: in one byte if it has at most seven bits, or else as a
first byte that says how many there are, and six bits in each of the others. -/
inductive Written : Nat → List UInt8 → Prop where
  | one {x : Nat} (hx : x < 128) : Written x [UInt8.ofNat x]
  | two {x y : Nat} (short : 2 ≤ x) (hx : x < 32) (hy : y < 64) :
      Written (x * 64 + y) [UInt8.ofNat (192 + x), UInt8.ofNat (128 + y)]
  | three {x y z : Nat} (short : 2048 ≤ (x * 64 + y) * 64 + z) (hx : x < 16) (hy : y < 64)
      (hz : z < 64) : Written ((x * 64 + y) * 64 + z)
        [UInt8.ofNat (224 + x), UInt8.ofNat (128 + y), UInt8.ofNat (128 + z)]
  | four {x y z u : Nat} (short : 65536 ≤ ((x * 64 + y) * 64 + z) * 64 + u) (hx : x < 8)
      (hy : y < 64) (hz : z < 64) (hu : u < 64) : Written (((x * 64 + y) * 64 + z) * 64 + u)
        [UInt8.ofNat (240 + x), UInt8.ofNat (128 + y), UInt8.ofNat (128 + z), UInt8.ofNat (128 + u)]

/-- A character is written as its code point. -/
theorem written_encode (c : Char) : Written c.toNat (String.utf8EncodeChar c) := by
  have limit : c.toNat < 0x110000 := by
    have := c.valid
    simp only [UInt32.isValidChar, Nat.isValidChar] at this
    show c.val.toNat < _
    omega
  generalize value : c.toNat = n at limit ⊢
  by_cases one : n < 128
  · have ascii : c.val.toNat = n := value
    simp only [String.utf8EncodeChar, ascii]
    rw [if_pos (by omega)]
    exact .one one
  -- A longer one is cut into its six last bits and the rest.
  obtain ⟨x, y, hy, rfl⟩ : ∃ x y, y < 64 ∧ n = x * 64 + y := ⟨n / 64, n % 64, by omega, by omega⟩
  by_cases two : x < 32
  · rw [encode_two (by omega) two hy value]
    exact .two (by omega) two hy
  obtain ⟨x, z, hz, rfl⟩ : ∃ u z, z < 64 ∧ x = u * 64 + z := ⟨x / 64, x % 64, by omega, by omega⟩
  by_cases three : x < 16
  · rw [encode_three (by omega) three hz hy value]
    exact .three (by omega) three hz hy
  obtain ⟨x, u, hu, rfl⟩ : ∃ v u, u < 64 ∧ x = v * 64 + u := ⟨x / 64, x % 64, by omega, by omega⟩
  rw [encode_four (by omega) (by omega) hu hz hy value]
  exact .four (by omega) (by omega) hu hz hy

/-- A smaller number is written as bytes that come first, whatever stands behind them. -/
theorem Written.lt {m n : Nat} {a b : List UInt8} (first : Written m a) (second : Written n b)
    (lt : m < n) (u v : List UInt8) : a ++ u < b ++ v := by
  cases first <;> cases second <;>
    simp only [List.cons_append, List.nil_append, List.cons_lt_cons_iff, UInt8.lt_iff_toNat_lt,
      ← UInt8.toNat_inj, UInt8.toNat_ofNat'] <;>
    omega

theorem Written.nil_lt {n : Nat} {a : List UInt8} (written : Written n a) (u : List UInt8) :
    [] < a ++ u := by
  cases written <;> exact List.nil_lt_cons _ _

end Glyph

/-- Characters in order are written as bytes in order. -/
theorem encode_lt {xs ys : List Char} (lt : xs < ys) :
    xs.flatMap String.utf8EncodeChar < ys.flatMap String.utf8EncodeChar := by
  induction lt with
  | nil =>
    rw [List.flatMap_cons, List.flatMap_nil]
    exact (Glyph.written_encode _).nil_lt _
  | cons _ ih =>
    rw [List.flatMap_cons, List.flatMap_cons]
    exact List.append_left_lt ih
  | rel less =>
    rw [List.flatMap_cons, List.flatMap_cons]
    exact (Glyph.written_encode _).lt (Glyph.written_encode _) less _ _

theorem bytes_lt_iff {s t : String} : bytes s < bytes t ↔ s < t := by
  have forward : ∀ {s t : String}, s < t → bytes s < bytes t := by
    intro s t lt
    rw [bytes_eq_encode, bytes_eq_encode]
    exact encode_lt lt
  refine ⟨fun lt => ?_, forward⟩
  rcases Std.lt_trichotomy s t with less | rfl | greater
  · exact less
  · exact absurd lt (List.lt_irrefl _)
  · exact absurd (forward greater) (List.lt_asymm lt)

/-- Sorting puts texts in order. -/
theorem pairwise_le_mergeSort (names : List String) :
    (names.mergeSort fun a b => decide (a ≤ b)).Pairwise (· ≤ ·) := by
  have sorted : (names.mergeSort fun a b => decide (a ≤ b)).Pairwise
      fun a b => decide (a ≤ b) = true :=
    List.pairwise_mergeSort (by simpa using fun a b c => String.le_trans)
      (by simpa using String.le_total) names
  exact sorted.imp of_decide_eq_true

theorem pairwise_lt_mergeSort {names : List String} (distinct : names.Nodup) :
    (names.mergeSort fun a b => decide (a ≤ b)).Pairwise (· < ·) := by
  have once := (List.mergeSort_perm names fun a b => decide (a ≤ b)).nodup_iff.2 distinct
  exact ((pairwise_le_mergeSort names).and once).imp fun ⟨le, ne⟩ => Std.lt_of_le_of_ne le ne

end TriangleTam.Text

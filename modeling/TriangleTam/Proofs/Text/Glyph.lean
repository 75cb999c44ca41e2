import TriangleTam.Text.Glyph

/-!
# Bytes and glyphs

Reading bytes as glyphs neither loses nor makes up anything: where the encoding of a character
stands it is that character, and a byte where none stands is an undecodable one. So characters that
are written are read back, and a line end ends a line whatever bytes stand before it.
-/

namespace TriangleTam.Text.Glyph

/-- The bytes are read as these glyphs: the encodings of the characters, with single bytes between
them where no encoding of any character stands. -/
inductive Decodes : List UInt8 → List Glyph → Prop where
  | nil : Decodes [] []
  | char {c rest gs} (more : Decodes rest gs) :
      Decodes (String.utf8EncodeChar c ++ rest) (.char c :: gs)
  | invalid {b rest gs} (none : ∀ c, ¬ String.utf8EncodeChar c <+: b :: rest)
      (more : Decodes rest gs) : Decodes (b :: rest) (.invalid :: gs)

section Encodings

variable {c : Char}

theorem toNat_ofNat_of_lt {n : Nat} (h : n < 256) : (UInt8.ofNat n).toNat = n := by
  rw [UInt8.toNat_ofNat']
  omega

theorem toNat_charOfNat {n : Nat} (h : n.isValidChar) : (Char.ofNat n).toNat = n := by
  rw [Char.ofNat, dif_pos h]
  rfl

/-- The payload of a character with two bytes. -/
theorem encode_two {x y : Nat} (short : 2 ≤ x) (hx : x < 32) (hy : y < 64)
    (value : c.toNat = x * 64 + y) :
    String.utf8EncodeChar c = [UInt8.ofNat (192 + x), UInt8.ofNat (128 + y)] := by
  have value : c.val.toNat = x * 64 + y := value
  have first : (x * 64 + y) / 64 % 32 + 192 = 192 + x := by omega
  have second : (x * 64 + y) % 64 + 128 = 128 + y := by omega
  simp only [String.utf8EncodeChar, value]
  rw [if_neg (by omega), if_pos (by omega), first, second]

/-- The payload of a character with three bytes. -/
theorem encode_three {x y z : Nat} (short : 2048 ≤ (x * 64 + y) * 64 + z) (hx : x < 16)
    (hy : y < 64) (hz : z < 64) (value : c.toNat = (x * 64 + y) * 64 + z) :
    String.utf8EncodeChar c =
      [UInt8.ofNat (224 + x), UInt8.ofNat (128 + y), UInt8.ofNat (128 + z)] := by
  have value : c.val.toNat = (x * 64 + y) * 64 + z := value
  have first : ((x * 64 + y) * 64 + z) / 4096 % 16 + 224 = 224 + x := by omega
  have second : ((x * 64 + y) * 64 + z) / 64 % 64 + 128 = 128 + y := by omega
  have third : ((x * 64 + y) * 64 + z) % 64 + 128 = 128 + z := by omega
  simp only [String.utf8EncodeChar, value]
  rw [if_neg (by omega), if_neg (by omega), if_pos (by omega), first, second, third]

/-- The payload of a character with four bytes. -/
theorem encode_four {x y z u : Nat} (short : 65536 ≤ ((x * 64 + y) * 64 + z) * 64 + u)
    (hx : x < 8) (hy : y < 64) (hz : z < 64) (hu : u < 64)
    (value : c.toNat = ((x * 64 + y) * 64 + z) * 64 + u) :
    String.utf8EncodeChar c = [UInt8.ofNat (240 + x), UInt8.ofNat (128 + y),
      UInt8.ofNat (128 + z), UInt8.ofNat (128 + u)] := by
  have value : c.val.toNat = ((x * 64 + y) * 64 + z) * 64 + u := value
  have first : (((x * 64 + y) * 64 + z) * 64 + u) / 262144 % 8 + 240 = 240 + x := by omega
  have second : (((x * 64 + y) * 64 + z) * 64 + u) / 4096 % 64 + 128 = 128 + y := by omega
  have third : (((x * 64 + y) * 64 + z) * 64 + u) / 64 % 64 + 128 = 128 + z := by omega
  have fourth : (((x * 64 + y) * 64 + z) * 64 + u) % 64 + 128 = 128 + u := by omega
  simp only [String.utf8EncodeChar, value]
  rw [if_neg (by omega), if_neg (by omega), if_neg (by omega), first, second, third, fourth]

end Encodings

theorem continuation?_eq_some_iff {b : UInt8} {x : Nat} :
    continuation? b = some x ↔ x < 64 ∧ b = UInt8.ofNat (128 + x) := by
  unfold continuation?
  constructor
  · intro h
    split at h
    · next range =>
      have := Option.some.inj h
      refine ⟨by omega, ?_⟩
      rw [← UInt8.toNat_inj, toNat_ofNat_of_lt (by omega)]
      omega
    · cases h
  · rintro ⟨lt, rfl⟩
    rw [toNat_ofNat_of_lt (by omega), if_pos (by omega), Nat.add_sub_cancel_left]

theorem scalar?_eq_some_iff {least n : Nat} {c : Char} :
    scalar? least n = some c ↔ least ≤ n ∧ c.toNat = n := by
  unfold scalar?
  constructor
  · intro h
    split at h
    · next range =>
      obtain rfl := Option.some.inj h
      exact ⟨range.1, toNat_charOfNat range.2⟩
    · cases h
  · rintro ⟨le, rfl⟩
    rw [if_pos ⟨le, c.valid⟩, Char.ofNat_toNat]

/-- A character is read only where its encoding stands. -/
theorem encode_of_leading? {b : UInt8} {rest : List UInt8} {c : Char} {k : Nat}
    (h : leading? b rest = some (c, k)) : b :: rest = String.utf8EncodeChar c ++ rest.drop k := by
  have byte : b = UInt8.ofNat b.toNat := by simp
  simp only [leading?] at h
  split at h
  · next ascii =>
    obtain ⟨rfl, rfl⟩ := Prod.mk.inj (Option.some.inj h)
    have value : (Char.ofNat b.toNat).val.toNat = b.toNat :=
      toNat_charOfNat (.inl (by omega))
    simp only [String.utf8EncodeChar, value]
    rw [if_pos (by omega), ← byte]
    rfl
  · split at h
    · next range =>
      split at h
      · next b1 rest =>
        obtain ⟨x, hx, h⟩ := Option.bind_eq_some_iff.1 h
        obtain ⟨d, hd, h⟩ := Option.bind_eq_some_iff.1 h
        obtain ⟨rfl, rfl⟩ := Prod.mk.inj (Option.some.inj h)
        obtain ⟨lt, rfl⟩ := continuation?_eq_some_iff.1 hx
        obtain ⟨le, value⟩ := scalar?_eq_some_iff.1 hd
        rw [encode_two (by omega) (by omega) lt value, Nat.add_sub_cancel' range.1, ← byte]
        rfl
      · cases h
    · split at h
      · next range =>
        split at h
        · next b1 b2 rest =>
          obtain ⟨x, hx, h⟩ := Option.bind_eq_some_iff.1 h
          obtain ⟨y, hy, h⟩ := Option.bind_eq_some_iff.1 h
          obtain ⟨d, hd, h⟩ := Option.bind_eq_some_iff.1 h
          obtain ⟨rfl, rfl⟩ := Prod.mk.inj (Option.some.inj h)
          obtain ⟨lt, rfl⟩ := continuation?_eq_some_iff.1 hx
          obtain ⟨lt', rfl⟩ := continuation?_eq_some_iff.1 hy
          obtain ⟨le, value⟩ := scalar?_eq_some_iff.1 hd
          rw [encode_three le (by omega) lt lt' value, Nat.add_sub_cancel' range.1, ← byte]
          rfl
        · cases h
      · split at h
        · next range =>
          split at h
          · next b1 b2 b3 rest =>
            obtain ⟨x, hx, h⟩ := Option.bind_eq_some_iff.1 h
            obtain ⟨y, hy, h⟩ := Option.bind_eq_some_iff.1 h
            obtain ⟨z, hz, h⟩ := Option.bind_eq_some_iff.1 h
            obtain ⟨d, hd, h⟩ := Option.bind_eq_some_iff.1 h
            obtain ⟨rfl, rfl⟩ := Prod.mk.inj (Option.some.inj h)
            obtain ⟨lt, rfl⟩ := continuation?_eq_some_iff.1 hx
            obtain ⟨lt', rfl⟩ := continuation?_eq_some_iff.1 hy
            obtain ⟨lt'', rfl⟩ := continuation?_eq_some_iff.1 hz
            obtain ⟨le, value⟩ := scalar?_eq_some_iff.1 hd
            rw [encode_four le (by omega) lt lt' lt'' value, Nat.add_sub_cancel' range.1, ← byte]
            rfl
          · cases h
        · cases h

/-- Where the encoding of a character stands, that character is read. -/
theorem leading?_of_encode {b : UInt8} {rest : List UInt8} {c : Char}
    (h : String.utf8EncodeChar c <+: b :: rest) : ∃ k, leading? b rest = some (c, k) := by
  obtain ⟨more, eq⟩ := h
  have limit : c.toNat < 0x110000 := by
    have := c.valid
    simp only [UInt32.isValidChar, Nat.isValidChar] at this
    show c.val.toNat < _
    omega
  by_cases one : c.toNat < 128
  · have value : c.val.toNat < 128 := one
    simp only [String.utf8EncodeChar] at eq
    rw [if_pos (by omega)] at eq
    obtain ⟨rfl, rfl⟩ := List.cons.inj eq
    have byte : (UInt8.ofNat c.val.toNat).toNat = c.toNat := toNat_ofNat_of_lt (by omega)
    refine ⟨0, ?_⟩
    simp only [leading?, byte]
    rw [if_pos one, Char.ofNat_toNat]
  by_cases two : c.toNat < 2048
  · rw [encode_two (x := c.toNat / 64) (y := c.toNat % 64) (by omega) (by omega) (by omega)
      (by omega)] at eq
    obtain ⟨rfl, rfl⟩ := List.cons.inj eq
    have first := continuation?_eq_some_iff.2 ⟨show c.toNat % 64 < 64 by omega, rfl⟩
    have char : scalar? 128 (c.toNat / 64 * 64 + c.toNat % 64) = some c :=
      scalar?_eq_some_iff.2 ⟨by omega, by omega⟩
    have byte : (UInt8.ofNat (192 + c.toNat / 64)).toNat = 192 + c.toNat / 64 :=
      toNat_ofNat_of_lt (by omega)
    refine ⟨1, ?_⟩
    simp only [leading?, byte]
    rw [if_neg (by omega), if_pos (by omega)]
    simp only [List.append_eq, List.cons_append, List.nil_append, Nat.add_sub_cancel_left,
      Option.bind_eq_bind, Option.bind_some, first, char]
    rfl
  by_cases three : c.toNat < 65536
  · rw [encode_three (x := c.toNat / 4096) (y := c.toNat / 64 % 64) (z := c.toNat % 64) (by omega)
      (by omega) (by omega) (by omega) (by omega)] at eq
    obtain ⟨rfl, rfl⟩ := List.cons.inj eq
    have first := continuation?_eq_some_iff.2 ⟨show c.toNat / 64 % 64 < 64 by omega, rfl⟩
    have second := continuation?_eq_some_iff.2 ⟨show c.toNat % 64 < 64 by omega, rfl⟩
    have char : scalar? 2048 ((c.toNat / 4096 * 64 + c.toNat / 64 % 64) * 64 + c.toNat % 64) =
        some c := scalar?_eq_some_iff.2 ⟨by omega, by omega⟩
    have byte : (UInt8.ofNat (224 + c.toNat / 4096)).toNat = 224 + c.toNat / 4096 :=
      toNat_ofNat_of_lt (by omega)
    refine ⟨2, ?_⟩
    simp only [leading?, byte]
    rw [if_neg (by omega), if_neg (by omega), if_pos (by omega)]
    simp only [List.append_eq, List.cons_append, List.nil_append, Nat.add_sub_cancel_left,
      Option.bind_eq_bind, Option.bind_some, first, second, char]
    rfl
  · rw [encode_four (x := c.toNat / 262144) (y := c.toNat / 4096 % 64) (z := c.toNat / 64 % 64)
      (u := c.toNat % 64) (by omega) (by omega) (by omega) (by omega) (by omega) (by omega)] at eq
    obtain ⟨rfl, rfl⟩ := List.cons.inj eq
    have first := continuation?_eq_some_iff.2 ⟨show c.toNat / 4096 % 64 < 64 by omega, rfl⟩
    have second := continuation?_eq_some_iff.2 ⟨show c.toNat / 64 % 64 < 64 by omega, rfl⟩
    have third := continuation?_eq_some_iff.2 ⟨show c.toNat % 64 < 64 by omega, rfl⟩
    have char : scalar? 65536 (((c.toNat / 262144 * 64 + c.toNat / 4096 % 64) * 64 +
        c.toNat / 64 % 64) * 64 + c.toNat % 64) = some c :=
      scalar?_eq_some_iff.2 ⟨by omega, by omega⟩
    have byte : (UInt8.ofNat (240 + c.toNat / 262144)).toNat = 240 + c.toNat / 262144 :=
      toNat_ofNat_of_lt (by omega)
    refine ⟨3, ?_⟩
    simp only [leading?, byte]
    rw [if_neg (by omega), if_neg (by omega), if_neg (by omega), if_pos (by omega)]
    simp only [List.append_eq, List.cons_append, List.nil_append, Nat.add_sub_cancel_left,
      Option.bind_eq_bind, Option.bind_some, first, second, third, char]
    rfl

/-- The glyphs of a byte sequence are those it is made of. -/
theorem decodes_decode (bytes : List UInt8) : Decodes bytes (decode bytes) := by
  fun_induction decode bytes with
  | case1 => exact .nil
  | case2 b rest c k found ih =>
    rw [encode_of_leading? found]
    exact .char ih
  | case3 b rest found ih =>
    refine .invalid (fun c stands => ?_) ih
    obtain ⟨k, read⟩ := leading?_of_encode stands
    rw [found] at read
    cases read

/-- A byte sequence is made of no glyphs but those it is read as. -/
theorem Decodes.eq_decode {bytes : List UInt8} {gs : List Glyph} (h : Decodes bytes gs) :
    decode bytes = gs := by
  induction h with
  | nil => rw [decode]
  | @char c rest gs _ ih =>
    cases encoded : String.utf8EncodeChar c with
    | nil => exact absurd encoded (String.utf8EncodeChar_ne_nil)
    | cons b more =>
      have stands : String.utf8EncodeChar c <+: b :: (more ++ rest) := ⟨rest, by simp [encoded]⟩
      obtain ⟨k, read⟩ := leading?_of_encode stands
      have rest_eq : (more ++ rest).drop k = rest := by
        have split := encode_of_leading? read
        rw [encoded] at split
        simpa using split.symm
      rw [List.cons_append, decode, read]
      simp only [rest_eq, ih]
  | @invalid b rest gs none _ ih =>
    have unread : leading? b rest = Option.none := by
      cases read : leading? b rest with
      | none => rfl
      | some found => exact absurd ⟨_, (encode_of_leading? read).symm⟩ (none found.1)
    rw [decode, unread]
    simp only [ih]

/-- The bytes of a text. -/
def encode (cs : List Char) : List UInt8 := cs.flatMap String.utf8EncodeChar

/-- Characters that are written are read back, whatever follows. -/
theorem decode_encode_append (cs : List Char) (rest : List UInt8) :
    decode (encode cs ++ rest) = cs.map .char ++ decode rest := by
  apply Decodes.eq_decode
  induction cs with
  | nil => exact decodes_decode rest
  | cons c cs ih =>
    rw [encode, List.flatMap_cons, List.append_assoc]
    exact .char ih

/-- The byte of a line end is part of no other character. -/
theorem eq_newline_of_mem {c : Char} (h : 0x0A ∈ String.utf8EncodeChar c) : c = '\n' := by
  have byte : ∀ n : Nat, (0x0A : UInt8) = UInt8.ofNat n → n % 256 = 10 := by
    intro n eq
    have eq := congrArg UInt8.toNat eq
    rw [UInt8.toNat_ofNat'] at eq
    exact eq.symm
  simp only [String.utf8EncodeChar] at h
  split at h
  · have value := byte _ (List.mem_singleton.1 h)
    have value : c.toNat = 10 := by
      show c.val.toNat = 10
      omega
    rw [← Char.ofNat_toNat c, value]
  · exfalso
    split at h
    · simp only [List.mem_cons, List.not_mem_nil, or_false] at h
      rcases h with eq | eq <;>
        · have := byte _ eq
          omega
    · split at h
      · simp only [List.mem_cons, List.not_mem_nil, or_false] at h
        rcases h with eq | eq | eq <;>
          · have := byte _ eq
            omega
      · simp only [List.mem_cons, List.not_mem_nil, or_false] at h
        rcases h with eq | eq | eq | eq <;>
          · have := byte _ eq
            omega

/-- A line end is read as one, wherever it stands. -/
theorem Decodes.newline {u v : List UInt8} {gs hs : List Glyph} (before : Decodes u gs)
    (behind : Decodes v hs) : Decodes (u ++ 0x0A :: v) (gs ++ .char '\n' :: hs) := by
  induction before with
  | nil => exact .char (c := '\n') behind
  | char more ih =>
    rw [List.append_assoc]
    exact .char ih
  | @invalid b rest gs none more ih =>
    refine .invalid (fun c stands => ?_) ih
    -- An encoding that is longer than what stands before the line end would contain that byte.
    have short : ¬ (b :: rest ++ [0x0A]) <+: String.utf8EncodeChar c := by
      intro longer
      obtain rfl := eq_newline_of_mem (longer.subset (by simp))
      have := longer.length_le
      simp [String.utf8EncodeChar] at this
    have whole : (b :: rest ++ [0x0A]) <+: b :: (rest ++ 0x0A :: v) := ⟨v, by simp⟩
    rcases List.prefix_or_prefix_of_prefix stands whole with inside | longer
    · rcases List.prefix_concat_iff.1 inside with eq | inside
      · exact short (eq ▸ List.prefix_rfl)
      · exact none c inside
    · exact short longer

theorem decode_append_newline (u v : List UInt8) :
    decode (u ++ 0x0A :: v) = decode u ++ .char '\n' :: decode v :=
  ((decodes_decode u).newline (decodes_decode v)).eq_decode

theorem newline_notMem_decode {bytes : List UInt8} (oneLine : 0x0A ∉ bytes) :
    .char '\n' ∉ decode bytes := by
  have decoded := decodes_decode bytes
  generalize decode bytes = gs at decoded
  induction decoded with
  | nil => simp
  | @char c rest gs _ ih =>
    have other : c ≠ '\n' := by
      rintro rfl
      exact oneLine (List.mem_append_left _ (by decide))
    simpa [Ne.symm other] using ih fun later => oneLine (List.mem_append_right _ later)
  | @invalid b rest gs _ _ ih =>
    simpa using ih fun later => oneLine (List.mem_cons_of_mem _ later)

theorem count_newline_encode (c : Char) :
    (String.utf8EncodeChar c).count 0x0A = if c = '\n' then 1 else 0 := by
  by_cases newline : c = '\n'
  · subst newline
    decide
  · rw [if_neg newline]
    exact List.count_eq_zero.2 fun member => newline (eq_newline_of_mem member)

/-- There are as many line ends in a text as bytes of line ends. -/
theorem count_newline_decode (bytes : List UInt8) :
    ((decode bytes).map toChar).count '\n' = bytes.count 0x0A := by
  have decoded := decodes_decode bytes
  generalize decode bytes = gs at decoded
  induction decoded with
  | nil => rfl
  | @char c rest gs _ ih =>
    rw [List.map_cons, List.count_cons, List.count_append, count_newline_encode, ih, Nat.add_comm]
    simp [toChar]
  | @invalid b rest gs none _ ih =>
    have other : b ≠ 0x0A := by
      rintro rfl
      exact none '\n' ⟨rest, rfl⟩
    rw [List.map_cons, List.count_cons_of_ne (by decide), List.count_cons_of_ne other, ih]

end TriangleTam.Text.Glyph

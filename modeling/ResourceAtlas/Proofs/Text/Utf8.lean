import ResourceAtlas.Text.Utf8
import Mathlib.Tactic

/-!
# Octets read back as the characters that they write

Reading the octets of a text gives the text. An ASCII character is read only where its own octet
stands, so a text read from octets has no separator in it that the octets do not have.
-/

namespace ResourceAtlas.Text.Utf8

/-- A number below 256 is the value of its octet. -/
theorem toNat_octet {n : Nat} (h : n < 256) : (UInt8.ofNat n).toNat = n := by
  rw [UInt8.toNat_ofNat']
  exact Nat.mod_eq_of_lt h

/-- The code points of characters. -/
theorem toNat_bounds (c : Char) :
    c.toNat < 0xD800 ∨ (0xDFFF < c.toNat ∧ c.toNat < 0x110000) :=
  c.valid

/-- An octet within the bounds adds its low bits. -/
theorem decodeTails_cons {b : UInt8} {low top : Nat} (h : low ≤ b.toNat ∧ b.toNat ≤ top)
    (tails bits : Nat) (rest : List UInt8) :
    decodeTails (tails + 1) bits low top (b :: rest) =
      decodeTails tails (bits * 64 + b.toNat % 64) 0x80 0xBF rest := by
  rw [decodeTails, if_pos h]

/-- A following octet adds the six bits that it writes. -/
theorem decodeTails_octet {x low top : Nat} (h : low ≤ 0x80 + x ∧ 0x80 + x ≤ top) (hx : x < 64)
    (tails bits : Nat) (rest : List UInt8) :
    decodeTails (tails + 1) bits low top (UInt8.ofNat (0x80 + x) :: rest) =
      decodeTails tails (bits * 64 + x) 0x80 0xBF rest := by
  have hb : (UInt8.ofNat (0x80 + x)).toNat = 0x80 + x := toNat_octet (by omega)
  rw [decodeTails_cons (by rw [hb]; exact h), hb]
  have hmod : (0x80 + x) % 64 = x := by omega
  rw [hmod]

/-- The octets of a character of two octets are read as that character. -/
theorem decodeChar_two {n : Nat} (low : 0x80 ≤ n) (high : n < 0x800) (rest : List UInt8) :
    decodeChar (UInt8.ofNat (0xC0 + n / 64)) (UInt8.ofNat (0x80 + n % 64) :: rest) =
      (Char.ofNat n, rest) := by
  have hb : (UInt8.ofNat (0xC0 + n / 64)).toNat = 0xC0 + n / 64 := toNat_octet (by omega)
  have hl : lead? (0xC0 + n / 64) = some ⟨n / 64, 1, 0x80, 0xBF⟩ := by
    rw [lead?, if_pos (by omega)]
    simp only [Nat.add_sub_cancel_left]
  rw [decodeChar, hb, if_neg (by omega), hl]
  simp only
  rw [decodeTails_octet (by omega) (by omega), decodeTails]
  rw [show n / 64 * 64 + n % 64 = n by omega]

/-- The promise of the leading octet of a character of three octets admits its second octet. -/
theorem lead?_three {n : Nat} (low : 0x800 ≤ n) (high : n < 0x10000)
    (gap : n < 0xD800 ∨ 0xDFFF < n) :
    ∃ least greatest, lead? (0xE0 + n / 4096) = some ⟨n / 4096, 2, least, greatest⟩ ∧
      least ≤ 0x80 + n / 64 % 64 ∧ 0x80 + n / 64 % 64 ≤ greatest := by
  have hfirst : ¬ (0xC2 ≤ 0xE0 + n / 4096 ∧ 0xE0 + n / 4096 ≤ 0xDF) := by omega
  by_cases hz : n / 4096 = 0
  · refine ⟨0xA0, 0xBF, ?_, by omega, by omega⟩
    rw [lead?, if_neg hfirst, if_pos (by omega), hz]
  · by_cases hd : n / 4096 = 13
    · refine ⟨0x80, 0x9F, ?_, by omega, by omega⟩
      rw [lead?, if_neg hfirst, if_neg (by omega), if_pos (by omega), hd]
    · refine ⟨0x80, 0xBF, ?_, by omega, by omega⟩
      rw [lead?, if_neg hfirst, if_neg (by omega), if_neg (by omega), if_pos (by omega)]
      simp only [Nat.add_sub_cancel_left]

/-- The octets of a character of three octets are read as that character. -/
theorem decodeChar_three {n : Nat} (low : 0x800 ≤ n) (high : n < 0x10000)
    (gap : n < 0xD800 ∨ 0xDFFF < n) (rest : List UInt8) :
    decodeChar (UInt8.ofNat (0xE0 + n / 4096))
        (UInt8.ofNat (0x80 + n / 64 % 64) :: UInt8.ofNat (0x80 + n % 64) :: rest) =
      (Char.ofNat n, rest) := by
  have hb : (UInt8.ofNat (0xE0 + n / 4096)).toNat = 0xE0 + n / 4096 := toNat_octet (by omega)
  obtain ⟨least, greatest, hl, hlow, htop⟩ := lead?_three low high gap
  rw [decodeChar, hb, if_neg (by omega), hl]
  simp only
  rw [decodeTails_octet ⟨hlow, htop⟩ (by omega), decodeTails_octet (by omega) (by omega),
    decodeTails]
  rw [show (n / 4096 * 64 + n / 64 % 64) * 64 + n % 64 = n by omega]

/-- The promise of the leading octet of a character of four octets admits its second octet. -/
theorem lead?_four {n : Nat} (low : 0x10000 ≤ n) (high : n < 0x110000) :
    ∃ least greatest, lead? (0xF0 + n / 262144) = some ⟨n / 262144, 3, least, greatest⟩ ∧
      least ≤ 0x80 + n / 4096 % 64 ∧ 0x80 + n / 4096 % 64 ≤ greatest := by
  have hfirst : ¬ (0xC2 ≤ 0xF0 + n / 262144 ∧ 0xF0 + n / 262144 ≤ 0xDF) := by omega
  have hthird : ¬ (0xE1 ≤ 0xF0 + n / 262144 ∧ 0xF0 + n / 262144 ≤ 0xEF) := by omega
  by_cases hz : n / 262144 = 0
  · refine ⟨0x90, 0xBF, ?_, by omega, by omega⟩
    rw [lead?, if_neg hfirst, if_neg (by omega), if_neg (by omega), if_neg hthird,
      if_pos (by omega), hz]
  · by_cases hd : n / 262144 = 4
    · refine ⟨0x80, 0x8F, ?_, by omega, by omega⟩
      rw [lead?, if_neg hfirst, if_neg (by omega), if_neg (by omega), if_neg hthird,
        if_neg (by omega), if_neg (by omega), if_pos (by omega), hd]
    · refine ⟨0x80, 0xBF, ?_, by omega, by omega⟩
      rw [lead?, if_neg hfirst, if_neg (by omega), if_neg (by omega), if_neg hthird,
        if_neg (by omega), if_pos (by omega)]
      simp only [Nat.add_sub_cancel_left]

/-- The octets of a character of four octets are read as that character. -/
theorem decodeChar_four {n : Nat} (low : 0x10000 ≤ n) (high : n < 0x110000) (rest : List UInt8) :
    decodeChar (UInt8.ofNat (0xF0 + n / 262144))
        (UInt8.ofNat (0x80 + n / 4096 % 64) :: UInt8.ofNat (0x80 + n / 64 % 64) ::
          UInt8.ofNat (0x80 + n % 64) :: rest) =
      (Char.ofNat n, rest) := by
  have hb : (UInt8.ofNat (0xF0 + n / 262144)).toNat = 0xF0 + n / 262144 := toNat_octet (by omega)
  obtain ⟨least, greatest, hl, hlow, htop⟩ := lead?_four low high
  rw [decodeChar, hb, if_neg (by omega), hl]
  simp only
  rw [decodeTails_octet ⟨hlow, htop⟩ (by omega), decodeTails_octet (by omega) (by omega),
    decodeTails_octet (by omega) (by omega), decodeTails]
  rw [show ((n / 262144 * 64 + n / 4096 % 64) * 64 + n / 64 % 64) * 64 + n % 64 = n by omega]

/-- The octets of a character are read as that character, whatever follows. -/
theorem decode_encodeChar (c : Char) (rest : List UInt8) :
    decode (encodeChar c ++ rest) = c :: decode rest := by
  have hvalid := toNat_bounds c
  have hc : Char.ofNat c.toNat = c := Char.ofNat_toNat c
  unfold encodeChar
  dsimp only
  split
  · next h =>
    have hb : (UInt8.ofNat c.toNat).toNat = c.toNat := toNat_octet (by omega)
    rw [List.singleton_append, decode, decodeChar, hb, if_pos h, hc]
  · split
    · rw [List.cons_append, List.singleton_append, decode, decodeChar_two (by omega) (by omega), hc]
    · split
      · rw [List.cons_append, List.cons_append, List.singleton_append, decode,
          decodeChar_three (by omega) (by omega) (by omega), hc]
      · rw [List.cons_append, List.cons_append, List.cons_append, List.singleton_append, decode,
          decodeChar_four (by omega) (by omega), hc]

/-- The octets of a text are read as that text. -/
theorem decode_encode (text : List Char) : decode (encode text) = text := by
  induction text with
  | nil => rw [encode, List.flatMap_nil, decode]
  | cons c rest ih =>
    rw [encode, List.flatMap_cons, decode_encodeChar]
    exact congrArg (c :: ·) ih

/-- An ASCII octet among the octets of a character is the only one and writes the character. -/
theorem encodeChar_of_mem_ascii {c : Char} {b : UInt8} (hb : b ∈ encodeChar c)
    (h : b.toNat < 0x80) : b.toNat = c.toNat := by
  have hvalid := toNat_bounds c
  unfold encodeChar at hb
  dsimp only at hb
  split at hb
  · rw [List.mem_singleton.mp hb, toNat_octet (by omega)]
  · have far : ∀ n, 0x80 ≤ n → n < 256 → b ≠ UInt8.ofNat n := by
      intro n hlow hhigh heq
      rw [heq, toNat_octet hhigh] at h
      omega
    exfalso
    split at hb
    · simp only [List.mem_cons, List.not_mem_nil, or_false] at hb
      rcases hb with hb | hb <;> exact far _ (by omega) (by omega) hb
    · split at hb
      · simp only [List.mem_cons, List.not_mem_nil, or_false] at hb
        rcases hb with hb | hb | hb <;> exact far _ (by omega) (by omega) hb
      · simp only [List.mem_cons, List.not_mem_nil, or_false] at hb
        rcases hb with hb | hb | hb | hb <;> exact far _ (by omega) (by omega) hb

/-- The octet of an ASCII character is read as it wherever it leads. -/
theorem decode_ascii {c : Char} (h : c.toNat < 0x80) (rest : List UInt8) :
    decode (UInt8.ofNat c.toNat :: rest) = c :: decode rest := by
  have hchar : encodeChar c = [UInt8.ofNat c.toNat] := by
    unfold encodeChar
    dsimp only
    rw [if_pos h]
  have hread := decode_encodeChar c rest
  rwa [hchar, List.singleton_append] at hread

/-- A number that is no code point stands for the character of code point zero. -/
theorem toNat_char (n : Nat) : (Char.ofNat n).toNat = n ∨ (Char.ofNat n).toNat = 0 := by
  by_cases h : n.isValidChar
  · exact .inl (by rw [Char.ofNat, dif_pos h]; rfl)
  · exact .inr (by rw [Char.ofNat, dif_neg h]; rfl)

/-- A character that no ASCII octet alone stands for: no ASCII character, or that of code point
zero. -/
def Remote (c : Char) : Prop :=
  0x80 ≤ c.toNat ∨ c.toNat = 0

/-- The replacement character is remote. -/
theorem remote_replacement : Remote replacement := .inl (by decide)

/-- Whatever follows enough bits, the character read is remote. -/
theorem remote_decodeTails (tails bits low top : Nat) (rest : List UInt8)
    (h : 0x80 ≤ bits * 64 ^ tails) : Remote (decodeTails tails bits low top rest).1 := by
  induction tails generalizing bits low top rest with
  | zero =>
    rw [pow_zero, Nat.mul_one] at h
    rw [decodeTails]
    rcases toNat_char bits with hn | hn
    · exact .inl (by rw [hn]; exact h)
    · exact .inr hn
  | succ tails ih =>
    cases rest with
    | nil => exact remote_replacement
    | cons b rest =>
      rw [decodeTails]
      split
      · refine ih _ _ _ _ (h.trans ?_)
        rw [pow_succ, show bits * (64 ^ tails * 64) = bits * 64 * 64 ^ tails by ring]
        exact Nat.mul_le_mul_right _ (Nat.le_add_right _ _)
      · exact remote_replacement

/-- Where the leading octet gives no bits, the bounds of the next octet give enough. -/
theorem remote_decodeTails_bare {low top : Nat} (tails : Nat) (hlow : 0x90 ≤ low) (htop : top ≤ 0xBF)
    (rest : List UInt8) : Remote (decodeTails (tails + 2) 0 low top rest).1 := by
  cases rest with
  | nil => exact remote_replacement
  | cons b rest =>
    rw [decodeTails]
    split
    · next hb =>
      refine remote_decodeTails _ _ _ _ _ ?_
      have hbits : 16 ≤ 0 * 64 + b.toNat % 64 := by omega
      have hpow : 1 ≤ 64 ^ tails := Nat.one_le_pow _ _ (by decide)
      rw [pow_succ]
      calc 0x80 ≤ 16 * (1 * 64) := by decide
        _ ≤ (0 * 64 + b.toNat % 64) * (64 ^ tails * 64) :=
          Nat.mul_le_mul hbits (Nat.mul_le_mul_right _ hpow)
    · exact remote_replacement

/-- An octet that is not ASCII leads to no ASCII character. -/
theorem remote_decodeChar {b : UInt8} (h : 0x80 ≤ b.toNat) (rest : List UInt8) :
    Remote (decodeChar b rest).1 := by
  rw [decodeChar, if_neg (by omega)]
  cases hl : lead? b.toNat with
  | none => exact remote_replacement
  | some l =>
    dsimp only
    unfold lead? at hl
    split_ifs at hl with h1 h2 h3 h4 h5 h6 h7 <;> rw [← Option.some.inj hl]
    · exact remote_decodeTails 1 _ _ _ _ (show 0x80 ≤ (b.toNat - 0xC0) * 64 ^ 1 by omega)
    · rw [h2]
      exact remote_decodeTails_bare 0 (by decide) (by decide) rest
    · exact remote_decodeTails 2 _ _ _ _ (show 0x80 ≤ (b.toNat - 0xE0) * 64 ^ 2 by omega)
    · exact remote_decodeTails 2 _ _ _ _ (show 0x80 ≤ (b.toNat - 0xE0) * 64 ^ 2 by omega)
    · rw [h5]
      exact remote_decodeTails_bare 1 (by decide) (by decide) rest
    · exact remote_decodeTails 3 _ _ _ _ (show 0x80 ≤ (b.toNat - 0xF0) * 64 ^ 3 by omega)
    · exact remote_decodeTails 3 _ _ _ _ (show 0x80 ≤ (b.toNat - 0xF0) * 64 ^ 3 by omega)

/-- What follows a character is the end of the octets. -/
theorem decodeTails_suffix (tails bits low top : Nat) (rest : List UInt8) :
    (decodeTails tails bits low top rest).2 <:+ rest := by
  induction tails generalizing bits low top rest with
  | zero => exact List.suffix_rfl
  | succ tails ih =>
    cases rest with
    | nil => exact List.suffix_rfl
    | cons b rest =>
      rw [decodeTails]
      split
      · exact (ih _ _ _ _).trans (List.suffix_cons _ _)
      · exact List.suffix_rfl

/-- What follows a character is the end of the octets after its leading one. -/
theorem decodeChar_suffix (b : UInt8) (rest : List UInt8) : (decodeChar b rest).2 <:+ rest := by
  unfold decodeChar
  split
  · exact List.suffix_rfl
  · split
    · exact List.suffix_rfl
    · exact decodeTails_suffix _ _ _ _ _

/-- An ASCII character is read only where its own octet stands. -/
theorem octet_mem_of_mem_decode {c : Char} (hlow : 0 < c.toNat) (hhigh : c.toNat < 0x80)
    (octets : List UInt8) (h : c ∈ decode octets) : UInt8.ofNat c.toNat ∈ octets := by
  induction octets using decode.induct with
  | case1 =>
    rw [decode] at h
    exact absurd h List.not_mem_nil
  | case2 b rest ih =>
    rw [decode, List.mem_cons] at h
    rcases h with h | h
    · by_cases hb : b.toNat < 0x80
      · rw [decodeChar, if_pos hb] at h
        have hc : c.toNat = b.toNat := by
          rw [h]
          rcases toNat_char b.toNat with hn | hn
          · exact hn
          · rw [h, hn] at hlow
            omega
        rw [hc, UInt8.ofNat_toNat]
        exact List.mem_cons_self
      · have hr := remote_decodeChar (by omega : 0x80 ≤ b.toNat) rest
        rw [← h] at hr
        unfold Remote at hr
        omega
    · exact List.mem_cons_of_mem b ((decodeChar_suffix b rest).subset (ih h))

end ResourceAtlas.Text.Utf8

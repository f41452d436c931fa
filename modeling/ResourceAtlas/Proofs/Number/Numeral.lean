import ResourceAtlas.Number.Numeral
import ResourceAtlas.Proofs.Text.Percent

/-!
# Integers read back as they are written

The text of an integer has the shape of one, is read as the integer, and needs no percent coding.
An integer that was read can be written, since reading and writing have one limit on digits.
-/

namespace ResourceAtlas.Number.Numeral

open Text

/-- The code points of the basic digits. -/
theorem toNat_of_isDigit {c : Char} (h : c.isDigit = true) : 48 ≤ c.toNat ∧ c.toNat ≤ 57 := by
  simp only [Char.isDigit, Bool.and_eq_true, decide_eq_true_eq] at h
  exact ⟨UInt32.le_iff_toNat_le.mp h.1, UInt32.le_iff_toNat_le.mp h.2⟩

/-- The value of a basic digit. -/
theorem value?_of_isDigit {c : Char} (h : c.isDigit = true) :
    Digit.value? c = some (c.toNat - 48) := by
  have hb := toNat_of_isDigit h
  unfold Digit.value?
  dsimp only
  rw [if_pos (by omega), if_pos (by omega)]

/-- Basic digits are digits. -/
theorem isDigit_of_isDigit {c : Char} (h : c.isDigit = true) : Digit.isDigit c = true := by
  rw [Digit.isDigit, value?_of_isDigit h]
  rfl

/-- Basic digits are unreserved. -/
theorem isUnreserved_of_isDigit {c : Char} (h : c.isDigit = true) :
    Percent.isUnreserved c = true := by
  have hb := toNat_of_isDigit h
  simp only [Percent.isUnreserved, Bool.or_eq_true, Bool.and_eq_true, decide_eq_true_eq]
  exact .inl (.inl (.inl (.inl (.inr ⟨hb.1, hb.2⟩))))

/-- The characters of a natural number are basic digits. -/
theorem isDigit_of_mem_natText {n : Nat} {c : Char} (h : c ∈ natText n) : c.isDigit = true :=
  Nat.isDigit_of_mem_toDigits (by decide) (by decide) h

/-- A natural number has digits. -/
theorem natText_ne_nil (n : Nat) : natText n ≠ [] :=
  Nat.toDigits_ne_nil

/-- Basic digits write the same number here as elsewhere. -/
theorem digitsValue_eq_ofDigitChars (digits : List Char) (start : Nat)
    (h : ∀ c ∈ digits, c.isDigit = true) :
    digitsValue start digits = Nat.ofDigitChars 10 digits start := by
  induction digits generalizing start with
  | nil => rfl
  | cons c digits ih =>
    rw [Nat.ofDigitChars_cons, ← ih _ fun d hd => h d (List.mem_cons_of_mem c hd), digitsValue,
      List.foldl_cons, value?_of_isDigit (h c List.mem_cons_self)]
    rfl

/-- The digits of a natural number write it. -/
theorem digitsValue_natText (n : Nat) : digitsValue 0 (natText n) = n := by
  rw [digitsValue_eq_ofDigitChars _ _ fun c hc => isDigit_of_mem_natText hc]
  exact Nat.ofDigitChars_toDigits (by decide) (by decide)

/-- A digit is worth nine at most. -/
theorem value?_le (c : Char) : (Digit.value? c).getD 0 ≤ 9 := by
  cases hv : Digit.value? c with
  | none => exact Nat.zero_le 9
  | some v =>
    unfold Digit.value? at hv
    dsimp only at hv
    split at hv
    · split at hv
      · cases hv
        exact (by omega : c.toNat - 0x30 ≤ 9)
      · exact absurd hv (by simp)
    · obtain ⟨z, -, hz⟩ := List.exists_of_findSome?_eq_some hv
      split at hz
      · cases hz
        exact (by omega : c.toNat - z ≤ 9)
      · exact absurd hz (by simp)

/-- Digits write a number below the power of ten of their count. -/
theorem digitsValue_lt (digits : List Char) (start : Nat) :
    digitsValue start digits < (start + 1) * 10 ^ digits.length := by
  induction digits generalizing start with
  | nil =>
    rw [List.length_nil, pow_zero, Nat.mul_one]
    exact Nat.lt_succ_self start
  | cons c digits ih =>
    have hv := value?_le c
    calc digitsValue start (c :: digits)
        = digitsValue (10 * start + (Digit.value? c).getD 0) digits := rfl
      _ < (10 * start + (Digit.value? c).getD 0 + 1) * 10 ^ digits.length := ih _
      _ ≤ (start + 1) * 10 * 10 ^ digits.length := Nat.mul_le_mul_right _ (by omega)
      _ = (start + 1) * 10 ^ (digits.length + 1) := by ring

/-- A natural number is short enough to write exactly below the power of ten of the limit. -/
theorem natText_length_le_iff (n : Nat) :
    (natText n).length ≤ maxDigits ↔ n < 10 ^ maxDigits :=
  Nat.length_toDigits_le_iff (by decide) (by decide)

/-- An integer can be written exactly below the power of ten of the limit. -/
theorem intText?_isSome_iff (n : Int) : (intText? n).isSome ↔ n.natAbs < 10 ^ maxDigits := by
  rw [← natText_length_le_iff]
  unfold intText?
  dsimp only
  split
  · next h => exact ⟨fun hs => absurd hs Bool.false_ne_true, fun hl => absurd hl (by omega)⟩
  · next h => exact ⟨fun _ => by omega, fun _ => rfl⟩

/-- A natural number below the limit is written in its digits. -/
theorem intText?_natText {n : Nat} (h : n < 10 ^ maxDigits) :
    intText? n = some (natText n) := by
  have hshort := (natText_length_le_iff n).mpr h
  unfold intText?
  dsimp only
  rw [Int.natAbs_natCast, if_neg (Nat.not_lt.mpr hshort), if_neg (by omega)]

/-- An integer that was read can be written. -/
theorem intText?_of_integerValue {text : List Char} {n : Int}
    (h : integerValue text = .ok n) : (intText? n).isSome := by
  rw [intText?_isSome_iff]
  unfold integerValue at h
  dsimp only at h
  split at h
  · exact absurd h (by simp)
  · next hlen =>
    have hval := digitsValue_lt (Digit.dropFinalLineFeed (Digit.dropMinus text)) 0
    rw [Nat.zero_add, Nat.one_mul] at hval
    have hpow : 10 ^ (Digit.dropFinalLineFeed (Digit.dropMinus text)).length ≤ 10 ^ maxDigits :=
      Nat.pow_le_pow_right (by decide) (by omega)
    injection h with h
    have habs : n.natAbs = digitsValue 0 (Digit.dropFinalLineFeed (Digit.dropMinus text)) := by
      split at h <;> omega
    rw [habs]
    exact hval.trans_le hpow

/-- A text of digits has no line feed to drop. -/
theorem dropFinalLineFeed_digits {digits : List Char} (h : ∀ c ∈ digits, c.isDigit = true) :
    Digit.dropFinalLineFeed digits = digits := by
  unfold Digit.dropFinalLineFeed
  split
  · next hlast =>
    have hd := h _ (List.mem_of_getLast? hlast)
    exact absurd hd (by decide)
  · rfl

/-- A text of digits has no minus to drop. -/
theorem dropMinus_digits {digits : List Char} (h : ∀ c ∈ digits, c.isDigit = true) :
    Digit.dropMinus digits = digits ∧ Digit.isNegative digits = false := by
  unfold Digit.dropMinus Digit.isNegative
  split
  · next rest =>
    have hd := h '-' List.mem_cons_self
    exact absurd hd (by decide)
  · exact ⟨rfl, rfl⟩

/-- The digits and the sign in the text of an integer. -/
theorem parts_of_intText? {n : Int} {text : List Char} (h : intText? n = some text) :
    Digit.dropFinalLineFeed (Digit.dropMinus text) = natText n.natAbs ∧
      Digit.isNegative text = decide (n < 0) ∧ (natText n.natAbs).length ≤ maxDigits := by
  have hdigits : ∀ c ∈ natText n.natAbs, c.isDigit = true := fun c hc => isDigit_of_mem_natText hc
  unfold intText? at h
  dsimp only at h
  split at h
  · exact absurd h (by simp)
  · next hlen =>
    obtain rfl := Option.some.inj h
    split
    · next hneg =>
      refine ⟨?_, ?_, by omega⟩
      · rw [Digit.dropMinus, dropFinalLineFeed_digits hdigits]
      · rw [Digit.isNegative, decide_eq_true hneg]
    · next hpos =>
      refine ⟨?_, ?_, by omega⟩
      · rw [(dropMinus_digits hdigits).1, dropFinalLineFeed_digits hdigits]
      · rw [(dropMinus_digits hdigits).2, decide_eq_false hpos]

/-- The text of an integer has the shape of one. -/
theorem isInteger_intText {n : Int} {text : List Char} (h : intText? n = some text) :
    Digit.isInteger text = true := by
  rw [Digit.isInteger, (parts_of_intText? h).1, Digit.isDigits, Bool.and_eq_true]
  constructor
  · rw [Bool.not_eq_true', List.isEmpty_eq_false_iff]
    exact natText_ne_nil _
  · rw [List.all_eq_true]
    exact fun c hc => isDigit_of_isDigit (isDigit_of_mem_natText hc)

/-- The text of an integer is read as the integer. -/
theorem integerValue_intText {n : Int} {text : List Char} (h : intText? n = some text) :
    integerValue text = .ok n := by
  obtain ⟨hdigits, hsign, hlen⟩ := parts_of_intText? h
  unfold integerValue
  dsimp only
  rw [hdigits, hsign, if_neg (by omega), digitsValue_natText]
  congr 1
  by_cases hneg : n < 0
  · rw [decide_eq_true hneg, if_pos rfl]
    omega
  · rw [decide_eq_false hneg, if_neg Bool.false_ne_true]
    omega

/-- The text of a natural number is read as that number, if it is read. -/
theorem eq_of_integerValue_natText {i : Nat} {n : Int} (h : integerValue (natText i) = .ok n) :
    n = i := by
  have hdigits : ∀ c ∈ natText i, c.isDigit = true := fun c hc => isDigit_of_mem_natText hc
  unfold integerValue at h
  dsimp only at h
  rw [(dropMinus_digits hdigits).1, (dropMinus_digits hdigits).2, dropFinalLineFeed_digits hdigits,
    digitsValue_natText] at h
  split at h
  · exact (nomatch h)
  · exact (Except.ok.inj h).symm

/-- The text of a natural number beyond the limit is too long to read. -/
theorem integerValue_overlong {n : Nat} (h : 10 ^ maxDigits ≤ n) :
    integerValue (natText n) = .error (.tooLong (natText n).length) := by
  have hdigits : ∀ c ∈ natText n, c.isDigit = true := fun c hc => isDigit_of_mem_natText hc
  have hlong : maxDigits < (natText n).length := by
    by_contra hshort
    exact absurd ((natText_length_le_iff n).mp (Nat.not_lt.mp hshort)) (Nat.not_lt.mpr h)
  unfold integerValue
  dsimp only
  rw [(dropMinus_digits hdigits).1, dropFinalLineFeed_digits hdigits, if_pos hlong]

/-- The text of a natural number has the shape of an integer. -/
theorem isInteger_natText (n : Nat) : Digit.isInteger (natText n) = true := by
  have hdigits : ∀ c ∈ natText n, c.isDigit = true := fun c hc => isDigit_of_mem_natText hc
  rw [Digit.isInteger, (dropMinus_digits hdigits).1, dropFinalLineFeed_digits hdigits,
    Digit.isDigits, Bool.and_eq_true]
  constructor
  · rw [Bool.not_eq_true', List.isEmpty_eq_false_iff]
    exact natText_ne_nil n
  · rw [List.all_eq_true]
    exact fun c hc => isDigit_of_isDigit (hdigits c hc)

/-- The shape of an integer has digits, a minus and a line feed alone. -/
theorem mem_of_isInteger {text : List Char} (h : Digit.isInteger text = true) {c : Char}
    (hc : c ∈ text) : Digit.isDigit c = true ∨ c = '-' ∨ c = '\n' := by
  have hminus : c = '-' ∨ c ∈ Digit.dropMinus text := by
    unfold Digit.dropMinus
    split
    · exact List.mem_cons.mp hc
    · exact .inr hc
  have hfeed : ∀ rest : List Char, c ∈ rest → c = '\n' ∨ c ∈ Digit.dropFinalLineFeed rest := by
    intro rest hrest
    unfold Digit.dropFinalLineFeed
    split
    · next hlast =>
      obtain ⟨before, rfl⟩ := List.getLast?_eq_some_iff.mp hlast
      rw [List.dropLast_concat]
      exact (List.mem_append.mp hrest).symm.imp List.mem_singleton.mp id
    · exact .inr hrest
  rw [Digit.isInteger, Digit.isDigits, Bool.and_eq_true, List.all_eq_true] at h
  rcases hminus with hminus | hrest
  · exact .inr (.inl hminus)
  · exact (hfeed _ hrest).symm.imp (h.2 c) .inr

/-- The text of an integer is made of basic digits and a minus. -/
theorem isDigit_or_minus_of_mem_intText {n : Int} {text : List Char} (h : intText? n = some text)
    {c : Char} (hc : c ∈ text) : c.isDigit = true ∨ c = '-' := by
  unfold intText? at h
  dsimp only at h
  split at h
  · exact absurd h (by simp)
  · obtain rfl := Option.some.inj h
    split at hc
    · rcases List.mem_cons.mp hc with rfl | hc
      · exact .inr rfl
      · exact .inl (isDigit_of_mem_natText hc)
    · exact .inl (isDigit_of_mem_natText hc)

/-- The text of an integer needs no percent coding. -/
theorem isUnreserved_of_mem_intText {n : Int} {text : List Char} (h : intText? n = some text)
    {c : Char} (hc : c ∈ text) : Percent.isUnreserved c = true := by
  rcases isDigit_or_minus_of_mem_intText h hc with hd | rfl
  · exact isUnreserved_of_isDigit hd
  · decide

/-- The text of an integer is its own coded form. -/
theorem encode_intText {n : Int} {text : List Char} (h : intText? n = some text) :
    Percent.encode text = text :=
  Percent.encode_eq_self fun _ hc => isUnreserved_of_mem_intText h hc

/-- The text of an integer is not empty. -/
theorem intText_ne_nil {n : Int} {text : List Char} (h : intText? n = some text) : text ≠ [] := by
  rintro rfl
  exact absurd (isInteger_intText h) (by decide)

end ResourceAtlas.Number.Numeral

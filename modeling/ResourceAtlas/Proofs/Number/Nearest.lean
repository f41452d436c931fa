import ResourceAtlas.Proofs.Number.Numeral
import ResourceAtlas.Proofs.Text.Split
import ResourceAtlas.Value.Amount

/-!
# Integers read as floating-point numbers

The text of an integer is read as the floating-point number nearest to the integer, unless that is
beyond all finite ones. Digits alone have no point and no exponent, so that the number is made of the
digits as it is made of the integer; only so many digits that they are taken for infinity unread have
to be set apart, and an integer of so many is beyond all finite numbers.
-/

namespace ResourceAtlas.Number

open Text

namespace Binary64

/-- Whole steps of a power of two below a count reach the highest power of two below it. -/
theorem pow_log2_le_roundUnits {num : Nat} (h : num ≠ 0) : Nat.pow 2 (Nat.log2 num) ≤ roundUnits num 1 := by
  unfold roundUnits
  dsimp only
  rw [Nat.div_one, Nat.one_mul]
  have hspare : spareBits num ≤ Nat.log2 num := Nat.sub_le _ _
  generalize spareBits num = s at hspare
  have hquotient : Nat.pow 2 (Nat.log2 num - s) ≤ num / Nat.pow 2 s := by
    refine (Nat.le_div_iff_mul_le (Nat.two_pow_pos s)).mpr ?_
    calc Nat.pow 2 (Nat.log2 num - s) * Nat.pow 2 s
        = 2 ^ (Nat.log2 num - s + s) := (Nat.pow_add 2 _ _).symm
      _ = 2 ^ Nat.log2 num := by rw [Nat.sub_add_cancel hspare]
      _ ≤ num := Nat.log2_self_le h
  have hround : num / Nat.pow 2 s ≤ roundHalfEven num (Nat.pow 2 s) := by
    unfold roundHalfEven
    dsimp only
    repeat' split
    all_goals omega
  calc Nat.pow 2 (Nat.log2 num)
      = 2 ^ (Nat.log2 num - s + s) := by rw [Nat.sub_add_cancel hspare]; rfl
    _ = 2 ^ (Nat.log2 num - s) * 2 ^ s := Nat.pow_add 2 _ _
    _ ≤ roundHalfEven num (Nat.pow 2 s) * Nat.pow 2 s :=
      Nat.mul_le_mul_right _ (hquotient.trans hround)

/-- A ratio is rounded to the whole number below it or to the next one, whichever is nearer, and to the
even one of the two from halfway. -/
theorem roundHalfEven_cases (num den : Nat) :
    (roundHalfEven num den = num / den ∧
        (2 * (num % den) < den ∨ 2 * (num % den) = den ∧ num / den % 2 = 0)) ∨
      (roundHalfEven num den = num / den + 1 ∧
        (den < 2 * (num % den) ∨ 2 * (num % den) = den ∧ num / den % 2 = 1)) := by
  unfold roundHalfEven
  dsimp only
  repeat' split
  all_goals omega

/-- A ratio is rounded to an even count or above exactly from half a step below it on. -/
theorem le_roundHalfEven_iff {num den m : Nat} (hden : 0 < den) (heven : m % 2 = 0) :
    m ≤ roundHalfEven num den ↔ 2 * (m * den) ≤ 2 * num + den := by
  have hsplit := Nat.div_add_mod' num den
  have hrest := Nat.mod_lt num hden
  have hcases := roundHalfEven_cases num den
  generalize num / den = q at hsplit hcases
  generalize num % den = r at hsplit hrest hcases
  have hnext : (q + 1) * den = q * den + den := Nat.succ_mul q den
  rcases Nat.lt_trichotomy m (q + 1) with hm | rfl | hm
  · have hbelow : m * den ≤ q * den := Nat.mul_le_mul_right den (by omega)
    omega
  · omega
  · have habove : (q + 1 + 1) * den ≤ m * den := Nat.mul_le_mul_right den hm
    rw [Nat.succ_mul] at habove
    omega

/-- A count below a power of two is rounded to that power exactly if it is halfway there from the count
before it, in steps that leave its low bits zero. -/
theorem two_pow_le_roundUnits_iff {num k : Nat} (hspare : spareBits num < k) :
    Nat.pow 2 k ≤ roundUnits num 1 ↔ 2 * Nat.pow 2 k ≤ 2 * num + Nat.pow 2 (spareBits num) := by
  unfold roundUnits
  dsimp only
  rw [Nat.div_one, Nat.one_mul]
  generalize spareBits num = s at hspare ⊢
  have hsplit : Nat.pow 2 k = Nat.pow 2 (k - s) * Nat.pow 2 s := by
    calc Nat.pow 2 k = 2 ^ (k - s + s) := by rw [Nat.sub_add_cancel hspare.le]; rfl
      _ = Nat.pow 2 (k - s) * Nat.pow 2 s := Nat.pow_add 2 _ _
  have heven : Nat.pow 2 (k - s) % 2 = 0 :=
    Nat.mod_eq_zero_of_dvd (dvd_pow_self 2 (Nat.sub_ne_zero_of_lt hspare))
  have hpos : 0 < Nat.pow 2 s := Nat.two_pow_pos s
  rw [hsplit, Nat.mul_le_mul_right_iff hpos, le_roundHalfEven_iff hpos heven]

/-- A count is rounded beyond all finite numbers exactly from half a step below the limit on. -/
theorem limit_le_roundUnits_iff (num : Nat) :
    limit ≤ roundUnits num 1 ↔ Nat.pow 2 2098 ≤ num + Nat.pow 2 2044 := by
  unfold limit
  rw [show 2098 = 2044 + 54 from rfl]
  generalize 2044 = k
  have hdouble : Nat.pow 2 (k + 54) = 2 * Nat.pow 2 (k + 53) := Nat.pow_succ'
  have hhalf : Nat.pow 2 k ≤ Nat.pow 2 (k + 53) := Nat.pow_le_pow_right (by decide) (by omega)
  have hstep : Nat.pow 2 (k + 1) = 2 * Nat.pow 2 k := Nat.pow_succ'
  by_cases hzero : num = 0
  · subst hzero
    have hpos : 0 < Nat.pow 2 k := Nat.two_pow_pos k
    rw [show roundUnits 0 1 = 0 from rfl]
    omega
  rcases Nat.lt_or_ge num (Nat.pow 2 (k + 54)) with hlt | hle
  · have hlog : Nat.log2 num < k + 54 := (Nat.log2_lt hzero).mpr hlt
    have hspare : spareBits num ≤ k + 1 := by
      unfold spareBits
      omega
    rw [two_pow_le_roundUnits_iff (by omega)]
    rcases hspare.lt_or_eq with hfine | heq
    · -- A finer step means a smaller count, which is not even half the limit.
      have hsmall : num < Nat.pow 2 (k + 53) := by
        refine (Nat.log2_lt hzero).mp ?_
        unfold spareBits at hfine
        omega
      have hfew : Nat.pow 2 (spareBits num) ≤ Nat.pow 2 k :=
        Nat.pow_le_pow_right (by decide) (by omega)
      omega
    · rw [heq]
      omega
  · have hlarge := (Nat.pow_le_pow_right (by decide) ((Nat.le_log2 hzero).mpr hle)).trans
      (pow_log2_le_roundUnits hzero)
    exact iff_of_true hlarge (hle.trans (Nat.le_add_right _ _))

/-- A count from the limit on is rounded to infinity. -/
theorem ofUnits_of_limit_le {negative : Bool} {num : Nat} (h : limit ≤ num) :
    ofUnits negative num 1 = infinite negative := by
  have hround : limit ≤ roundUnits num 1 := by
    rw [limit_le_roundUnits_iff]
    unfold limit at h
    generalize Nat.pow 2 2044 = half
    exact Nat.le_add_right_of_le h
  unfold ofUnits
  dsimp only
  rw [if_pos hround]

/-- An integer is beyond all finite numbers exactly from half a step below 2¹⁰²⁴ on. -/
theorem ofInt_infinite_iff (n : Int) :
    (∃ negative, ofInt n = infinite negative) ↔ 2 ^ 1024 ≤ n.natAbs + 2 ^ 970 := by
  have hscale : limit ≤ roundUnits (n.natAbs * one) 1 ↔ 2 ^ 1024 ≤ n.natAbs + 2 ^ 970 := by
    rw [limit_le_roundUnits_iff]
    unfold one
    rw [show 2098 = 1024 + 1074 from rfl, show 2044 = 970 + 1074 from rfl]
    generalize 1024 = top
    generalize 970 = half
    generalize 1074 = scale
    have htop : Nat.pow 2 (top + scale) = 2 ^ top * Nat.pow 2 scale := Nat.pow_add 2 _ _
    have hhalf : Nat.pow 2 (half + scale) = 2 ^ half * Nat.pow 2 scale := Nat.pow_add 2 _ _
    have hpos : 0 < Nat.pow 2 scale := Nat.two_pow_pos scale
    rw [htop, hhalf, ← Nat.add_mul, Nat.mul_le_mul_right_iff hpos]
  rw [← hscale, ofInt, ofRatio, ofUnits]
  split
  · next hle => exact iff_of_true ⟨_, rfl⟩ hle
  · next hlt => exact iff_of_false (fun ⟨_, h⟩ => (nomatch h)) hlt

/-- Ten bits take more than three digits. -/
theorem two_pow_le_ten_pow {m n : Nat} (k : Nat) (hm : m ≤ 93 * k + 1) (hn : 28 * k + 1 ≤ n) :
    2 ^ m ≤ 10 ^ n := by
  calc 2 ^ m ≤ 2 ^ (93 * k + 1) := Nat.pow_le_pow_right (by decide) hm
    _ = 2 ^ (93 * k) * 2 := pow_succ 2 (93 * k)
    _ = (2 ^ 93) ^ k * 2 := by rw [pow_mul]
    _ ≤ (10 ^ 28) ^ k * 10 := Nat.mul_le_mul (Nat.pow_le_pow_left (by decide) k) (by decide)
    _ = 10 ^ (28 * k) * 10 := by rw [pow_mul]
    _ = 10 ^ (28 * k + 1) := (pow_succ 10 (28 * k)).symm
    _ ≤ 10 ^ n := Nat.pow_le_pow_right (by decide) hn

/-- An integer of more than 310 digits is beyond all finite numbers. -/
theorem ofInt_of_length {n : Int} (h : 310 < (Numeral.natText n.natAbs).length) :
    ofInt n = infinite (decide (n < 0)) := by
  rw [ofInt, ofRatio]
  apply ofUnits_of_limit_le
  unfold limit one
  -- The powers are not to be computed.
  generalize hdigits : 310 = digits at h
  generalize hlimit : 2098 = bits
  generalize hone : 1074 = scale
  have hlarge : 10 ^ digits ≤ n.natAbs := by
    by_contra hlt
    exact absurd ((Nat.length_toDigits_le_iff (by decide) (by omega)).mpr (Nat.lt_of_not_le hlt))
      (Nat.not_le_of_lt h)
  have hbits : 2 ^ (bits - scale) ≤ 10 ^ digits :=
    two_pow_le_ten_pow 11 (by omega) (by omega)
  calc Nat.pow 2 bits = 2 ^ (bits - scale + scale) := by rw [Nat.sub_add_cancel (by omega)]; rfl
    _ = 2 ^ (bits - scale) * Nat.pow 2 scale := Nat.pow_add 2 _ _
    _ ≤ n.natAbs * Nat.pow 2 scale := Nat.mul_le_mul_right _ (hbits.trans hlarge)

/-- No units are rounded to zero. -/
theorem ofUnits_zero (negative : Bool) : ofUnits negative 0 1 = finite negative 0 := by
  have hround : roundUnits 0 1 = 0 := rfl
  have hlimit : 0 < limit := by
    unfold limit
    generalize 2098 = bits
    exact Nat.two_pow_pos bits
  unfold ofUnits
  dsimp only
  rw [hround, if_neg (Nat.not_le_of_lt hlimit)]

/-- An integer that has a number is nearest to that, which is no infinity. -/
theorem ofInt_of_realOf {n : Int} {x : Binary64} (h : Value.realOf n = .ok x) :
    ofInt n = x ∧ ∀ s, x ≠ infinite s := by
  -- The function is opened before it is applied, so that no power is computed.
  obtain ⟨real, hreal⟩ : ∃ real, real = Value.realOf := ⟨_, rfl⟩
  rw [← hreal] at h
  unfold Value.realOf at hreal
  subst hreal
  dsimp only at h
  generalize ofInt n = y at h ⊢
  cases y with
  | infinite s => exact (nomatch h)
  | nan =>
    obtain rfl := Except.ok.inj h
    exact ⟨rfl, fun s => Binary64.noConfusion⟩
  | finite s u =>
    obtain rfl := Except.ok.inj h
    exact ⟨rfl, fun s => Binary64.noConfusion⟩

/-- A decimal without an exponent is the number nearest to its coefficient, unless that is beyond all
finite numbers. -/
theorem ofDecimal_zero {n : Int} {x : Binary64} (h : Value.realOf n = .ok x) :
    ofDecimal (decide (n < 0)) n.natAbs 0 = x := by
  obtain ⟨rfl, hfinite⟩ := ofInt_of_realOf h
  unfold ofDecimal
  dsimp only
  by_cases hzero : n.natAbs = 0
  · obtain rfl := Int.natAbs_eq_zero.mp hzero
    rw [if_pos hzero, ofInt, ofRatio, Int.natAbs_zero, Nat.zero_mul, ofUnits_zero]
  · have hlength : ¬ (310 : Int) < (Nat.toDigits 10 n.natAbs).length + 0 := by
      intro hlong
      rw [Int.add_zero] at hlong
      exact hfinite _ (ofInt_of_length (Int.ofNat_lt.mp hlong))
    rw [if_neg hzero, if_neg hlength, if_neg (by omega), if_pos (le_refl 0), ofInt]
    have hscale : n.natAbs * Nat.pow 10 (0 : Int).toNat = n.natAbs := Nat.mul_one _
    rw [hscale]

end Binary64

namespace Numeral

/-- Digits are taken to their end. -/
theorem takeDigits_digits {digits : List Char} (h : ∀ c ∈ digits, c.isDigit = true) :
    takeDigits digits = (digits, []) := by
  induction digits with
  | nil => rfl
  | cons c rest ih =>
    have hc := h c List.mem_cons_self
    have hline : c ≠ '_' := by
      rintro rfl
      exact absurd hc (by decide)
    unfold takeDigits
    split
    · next heq => exact (nomatch heq)
    · next heq => exact absurd (List.cons.inj heq).1 hline
    · next heq =>
      obtain ⟨rfl, rfl⟩ := List.cons.inj heq
      rw [if_pos (isDigit_of_isDigit hc), ih fun d hd => h d (List.mem_cons_of_mem c hd)]

/-- A number of digits alone is taken whole. -/
theorem takeNumber_digits {digits : List Char} (h : ∀ c ∈ digits, c.isDigit = true) :
    takeNumber digits = (digits, []) := by
  cases digits with
  | nil => rfl
  | cons c rest =>
    rw [takeNumber, if_pos (isDigit_of_isDigit (h c List.mem_cons_self)),
      takeDigits_digits fun d hd => h d (List.mem_cons_of_mem c hd)]

/-- Digits write no word. -/
theorem readWord?_digits {digits : List Char} (h : ∀ c ∈ digits, c.isDigit = true)
    (hne : digits ≠ []) (negative : Bool) : readWord? negative digits = none := by
  obtain ⟨c, rest, rfl⟩ := List.exists_cons_of_ne_nil hne
  have hc := h c List.mem_cons_self
  have hlower : lowerLetter c = c := by
    have hbounds := toNat_of_isDigit hc
    unfold lowerLetter
    rw [if_neg]
    rintro ⟨hA, -⟩
    have hletter : 'A'.toNat ≤ c.toNat := UInt32.le_iff_toNat_le.mp hA
    have hcode : 'A'.toNat = 65 := rfl
    omega
  have hfirst : ∀ {d : Char} {tail : List Char}, d.isDigit = false →
      (c :: rest).map lowerLetter ≠ d :: tail := by
    intro d tail hd heq
    rw [List.map_cons, hlower] at heq
    obtain rfl := (List.cons.inj heq).1
    exact absurd (hc.symm.trans hd) (by decide)
  have hinf : (c :: rest).map lowerLetter ≠ "inf".toList := hfirst (d := 'i') (by decide)
  have hinfinity : (c :: rest).map lowerLetter ≠ "infinity".toList := hfirst (d := 'i') (by decide)
  have hnan : (c :: rest).map lowerLetter ≠ "nan".toList := hfirst (d := 'n') (by decide)
  unfold readWord?
  dsimp only
  rw [decide_eq_false hinf, decide_eq_false hinfinity, Bool.or_false, if_neg Bool.false_ne_true,
    if_neg hnan]

/-- The sign and the digits of the text of an integer. -/
theorem takeSign_intText {n : Int} {text : List Char} (h : intText? n = some text) :
    takeSign text = (decide (n < 0), natText n.natAbs) := by
  unfold intText? at h
  dsimp only at h
  split at h
  · exact (nomatch h)
  · obtain rfl := Option.some.inj h
    by_cases hneg : n < 0
    · rw [if_pos hneg, decide_eq_true hneg]
      rfl
    · rw [if_neg hneg, decide_eq_false hneg]
      have hdigits : ∀ c ∈ natText n.natAbs, c.isDigit = true :=
        fun c hc => isDigit_of_mem_natText hc
      unfold takeSign
      split
      · next heq => exact absurd (hdigits '-' (heq ▸ List.mem_cons_self)) (by decide)
      · next heq => exact absurd (hdigits '+' (heq ▸ List.mem_cons_self)) (by decide)
      · rfl

/-- The text of an integer is read as the floating-point number nearest to the integer, unless that is
beyond all finite ones. -/
theorem readFloat?_intText {n : Int} {text : List Char} {x : Binary64}
    (h : intText? n = some text) (hx : Value.realOf n = .ok x) : readFloat? text = some x := by
  have hdigits : ∀ c ∈ natText n.natAbs, c.isDigit = true :=
    fun c hc => isDigit_of_mem_natText hc
  have hblank : ∀ c ∈ text, Blank.isNumberBlank c = false := by
    intro c hc
    rcases isDigit_or_minus_of_mem_intText h hc with hdigit | rfl
    · have hbounds := toNat_of_isDigit hdigit
      unfold Blank.isNumberBlank Blank.isBlank
      simp only [Bool.and_eq_false_iff, Bool.or_eq_false_iff, decide_eq_false_iff_not,
        beq_eq_false_iff_ne, ne_eq]
      omega
    · decide
  have hempty : (natText n.natAbs).isEmpty = false :=
    List.isEmpty_eq_false_iff.mpr (natText_ne_nil _)
  unfold readFloat?
  rw [Blank.trimOf_eq_self hblank, takeSign_intText h]
  dsimp only
  rw [readWord?_digits hdigits (natText_ne_nil _), takeNumber_digits hdigits]
  dsimp only
  rw [hempty, Bool.false_and, if_neg Bool.false_ne_true, List.append_nil, digitsValue_natText]
  exact congrArg some (Binary64.ofDecimal_zero hx)

end Numeral

end ResourceAtlas.Number

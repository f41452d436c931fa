import ResourceAtlas.Proofs.Number.Shortest
import ResourceAtlas.Query.Operator

/-!
# Operands up to the sign of zero

A zero loses its sign when it is written as an integer. Numbers that are equal differ in nothing but
that: they have one text, and no comparison tells them apart.
-/

namespace ResourceAtlas.Number.Binary64

/-- Equal numbers are one number or both zero. -/
theorem eq_or_zeros_of_equal {x y : Binary64} (h : x.equal y = true) :
    x = y ∨ ∃ s t, x = finite s 0 ∧ y = finite t 0 := by
  cases x with
  | nan => exact absurd h Bool.false_ne_true
  | infinite s =>
    cases y with
    | infinite t => exact .inl (congrArg infinite (beq_iff_eq.mp h))
    | nan => exact absurd h Bool.false_ne_true
    | finite t v => exact absurd h Bool.false_ne_true
  | finite s u =>
    cases y with
    | nan => exact absurd h Bool.false_ne_true
    | infinite t => exact absurd h Bool.false_ne_true
    | finite t v =>
      have heq : signed s u = signed t v := of_decide_eq_true h
      unfold signed at heq
      by_cases hu : u = 0
      · have hv : v = 0 := by
          split at heq <;> split at heq <;> omega
        exact .inr ⟨s, t, by rw [hu], by rw [hv]⟩
      · left
        have hst : s = t ∧ u = v := by
          cases s <;> cases t <;> simp only [Bool.false_eq_true, if_true, if_false] at heq <;>
            constructor <;> first | rfl | omega
        rw [hst.1, hst.2]

/-- Zero counts as zero whatever its sign is. -/
theorem signed_zero (s : Bool) : signed s 0 = 0 := by
  cases s <;> rfl

/-- Equal numbers are below the same numbers. -/
theorem lt_congr_left {x y : Binary64} (h : x.equal y = true) (z : Binary64) :
    x.lt z = y.lt z := by
  rcases eq_or_zeros_of_equal h with rfl | ⟨s, t, rfl, rfl⟩
  · rfl
  · cases z with
    | nan => rfl
    | infinite r => rfl
    | finite r w => rw [lt, lt, signed_zero, signed_zero]

/-- Equal numbers are above the same numbers. -/
theorem lt_congr_right {x y : Binary64} (h : x.equal y = true) (z : Binary64) :
    z.lt x = z.lt y := by
  rcases eq_or_zeros_of_equal h with rfl | ⟨s, t, rfl, rfl⟩
  · rfl
  · cases z with
    | nan => rfl
    | infinite r => rfl
    | finite r w => rw [lt, lt, signed_zero, signed_zero]

end ResourceAtlas.Number.Binary64

namespace ResourceAtlas.Query

open Number Text

namespace Operator

/-- A comparison of numbers. -/
def IsNumeric (op : Operator) : Prop :=
  op = .gt ∨ op = .lt

instance (op : Operator) : Decidable op.IsNumeric :=
  inferInstanceAs (Decidable (op = .gt ∨ op = .lt))

/-- A comparison of numbers reads a number. -/
theorem parse_of_isNumeric {op : Operator} (h : op.IsNumeric) (given : String) :
    op.parse given = .float ((Numeral.readFloat? given.toList).getD .nan) := by
  rcases h with rfl | rfl <;> rfl

/-- Any other comparison reads its text. -/
theorem parse_of_not_isNumeric {op : Operator} (h : ¬ op.IsNumeric) (given : String) :
    op.parse given = .text given := by
  cases op with
  | gt => exact absurd (.inl rfl) h
  | lt => exact absurd (.inr rfl) h
  | _ => rfl

/-- A comparison of numbers writes a number. -/
theorem operandText_of_isNumeric {op : Operator} (h : op.IsNumeric) (operand : Value) :
    op.operandText operand = numberText operand := by
  rcases h with rfl | rfl <;> rfl

/-- Any other comparison writes the coded form of its text. -/
theorem operandText_of_not_isNumeric {op : Operator} (h : ¬ op.IsNumeric) (s : String) :
    op.operandText (.text s) = .ok (Percent.encodeString s) := by
  cases op with
  | gt => exact absurd (.inl rfl) h
  | lt => exact absurd (.inr rfl) h
  | _ => rfl

/-- Equal numbers are written alike. -/
theorem numberText_congr {x y : Binary64} (h : x.equal y = true) :
    numberText (.float x) = numberText (.float y) := by
  rcases Binary64.eq_or_zeros_of_equal h with rfl | ⟨s, t, rfl, rfl⟩
  · rfl
  · have hs : ∀ r : Bool, (Binary64.finite r 0).toInt? = some 0 := fun r => by
      rw [Binary64.toInt?, Nat.zero_mod, if_pos rfl, Nat.zero_div, Binary64.signed_zero]
    simp only [numberText, hs]

/-- The characters of a number operand are those of numbers. -/
theorem allNumeral_numberText {x : Binary64} {t : String} (h : numberText (.float x) = .ok t) :
    Shortest.AllNumeral t.toList := by
  simp only [numberText] at h
  split at h
  · next n hn =>
    unfold Value.intString? writable at h
    cases ht : Numeral.intText? n with
    | none =>
      rw [ht] at h
      exact absurd h (by simp)
    | some digits =>
      rw [ht] at h
      obtain rfl := Except.ok.inj h
      rw [String.toList_ofList]
      unfold Numeral.intText? at ht
      dsimp only at ht
      split at ht
      · exact absurd ht (by simp)
      · obtain rfl := Option.some.inj ht
        split
        · exact Shortest.allNumeral_cons (.inr (by decide)) (Shortest.allNumeral_toDigits _)
        · exact Shortest.allNumeral_toDigits _
  · obtain rfl := Except.ok.inj h
    rw [Value.floatString, String.toList_ofList]
    exact Shortest.allNumeral_text x

end Operator

/-- Two predicates make the same comparison, with numbers of which only a zero may differ in
sign. -/
def Predicate.Alike (p q : Predicate) : Prop :=
  p = q ∨ (p.operator = q.operator ∧ p.operator.IsNumeric ∧
    ∃ x y, p.operand = .float x ∧ q.operand = .float y ∧ x.equal y = true)

namespace Predicate

/-- A predicate is like itself. -/
theorem Alike.refl (p : Predicate) : p.Alike p := .inl rfl

/-- Predicates that are alike hold of the same values. -/
theorem Alike.test_eq {p q : Predicate} (h : p.Alike q) (item : Value) :
    p.test item = q.test item := by
  rcases h with rfl | ⟨hop, hnum, x, y, hx, hy, heq⟩
  · rfl
  · obtain ⟨op, v⟩ := p
    obtain ⟨op', w⟩ := q
    dsimp only at hop hx hy hnum
    subst hop hx hy
    have hread : ∀ z : Binary64, Operator.toReal (.float z) = .ok z := fun z => rfl
    rcases hnum with rfl | rfl
    · simp only [test, Operator.test, hread]
      cases Operator.toReal item with
      | error f => rfl
      | ok z => exact congrArg Except.ok (Binary64.lt_congr_left heq z)
    · simp only [test, Operator.test, hread]
      cases Operator.toReal item with
      | error f => rfl
      | ok z => exact congrArg Except.ok (Binary64.lt_congr_right heq z)

/-- Predicates that are alike are written alike. -/
theorem Alike.operandText_eq {p q : Predicate} (h : p.Alike q) :
    p.operator.operandText p.operand = q.operator.operandText q.operand := by
  rcases h with rfl | ⟨hop, hnum, x, y, hx, hy, heq⟩
  · rfl
  · rw [← hop, hx, hy, Operator.operandText_of_isNumeric hnum,
      Operator.operandText_of_isNumeric hnum, Operator.numberText_congr heq]

/-- Predicates that are alike make one comparison. -/
theorem Alike.operator_eq {p q : Predicate} (h : p.Alike q) : p.operator = q.operator := by
  rcases h with rfl | ⟨hop, -⟩
  · rfl
  · exact hop

end Predicate

end ResourceAtlas.Query

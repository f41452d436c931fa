import ResourceAtlas.Number.Shortest
import ResourceAtlas.Proofs.Number.Numeral

/-!
# The characters of floating-point numbers

The text of a number holds digits, a point, signs, and the letters of exponents and words alone, so
it can stand in a query as it is.
-/

namespace ResourceAtlas.Number.Shortest

/-- A character of the text of a number. -/
def IsNumeral (c : Char) : Prop :=
  c.isDigit = true ∨ c ∈ ['.', 'e', '+', '-', 'n', 'a', 'i', 'f']

/-- All characters of a text are those of numbers. -/
def AllNumeral (text : List Char) : Prop :=
  ∀ c ∈ text, IsNumeral c

/-- A character other than a digit and the signs is in no number. -/
theorem AllNumeral.not_mem {text : List Char} (h : AllNumeral text) {c : Char}
    (hd : c.isDigit = false) (hc : c ∉ ['.', 'e', '+', '-', 'n', 'a', 'i', 'f']) : c ∉ text := by
  intro hmem
  rcases h c hmem with hdigit | hsign
  · rw [hd] at hdigit
    exact Bool.false_ne_true hdigit
  · exact hc hsign

theorem allNumeral_nil : AllNumeral [] :=
  fun _ hc => absurd hc List.not_mem_nil

theorem allNumeral_cons {c : Char} {text : List Char} (hc : IsNumeral c) (h : AllNumeral text) :
    AllNumeral (c :: text) := by
  intro d hd
  rcases List.mem_cons.mp hd with rfl | hd
  · exact hc
  · exact h d hd

theorem allNumeral_append {s t : List Char} (hs : AllNumeral s) (ht : AllNumeral t) :
    AllNumeral (s ++ t) := by
  intro c hc
  rcases List.mem_append.mp hc with hc | hc
  · exact hs c hc
  · exact ht c hc

/-- The characters of a part are those of the whole. -/
theorem AllNumeral.mono {s t : List Char} (ht : AllNumeral t) (h : s ⊆ t) : AllNumeral s :=
  fun c hc => ht c (h hc)

/-- A natural number is a number. -/
theorem allNumeral_toDigits (n : Nat) : AllNumeral (Nat.toDigits 10 n) :=
  fun _ hc => .inl (Nat.isDigit_of_mem_toDigits (by decide) (by decide) hc)

theorem allNumeral_zeros (count : Nat) : AllNumeral (List.replicate count '0') := by
  intro c hc
  rw [List.eq_of_mem_replicate hc]
  exact .inl (by decide)

/-- Dropping zeros at the end leaves characters of the digits. -/
theorem dropTrailingZeros_subset (digits : List Char) : dropTrailingZeros digits ⊆ digits := by
  intro c hc
  rw [dropTrailingZeros, List.mem_reverse] at hc
  exact List.mem_reverse.mp ((List.dropWhile_suffix _).subset hc)

/-- A point put among digits leaves a number. -/
theorem allNumeral_positional {digits : List Char} (h : AllNumeral digits) (point : Int) :
    AllNumeral (positional digits point) := by
  have hpoint : IsNumeral '.' := .inr (by decide)
  have hzero : IsNumeral '0' := .inl (by decide)
  unfold positional
  dsimp only
  split
  · refine allNumeral_append ?_ h
    exact allNumeral_cons hzero (allNumeral_cons hpoint (allNumeral_zeros _))
  · split
    · refine allNumeral_append (allNumeral_append h (allNumeral_zeros _)) ?_
      exact allNumeral_cons hpoint (allNumeral_cons hzero allNumeral_nil)
    · refine allNumeral_append (h.mono (List.take_subset _ _)) ?_
      exact allNumeral_cons hpoint (h.mono (List.drop_subset _ _))

/-- The digits of an exponent are a number. -/
theorem allNumeral_exponentDigits (n : Nat) : AllNumeral (exponentDigits n) := by
  unfold exponentDigits
  split
  · exact allNumeral_cons (.inl (by decide)) (allNumeral_toDigits n)
  · exact allNumeral_toDigits n

/-- Digits with an exponent are a number. -/
theorem allNumeral_scientific {digits : List Char} (h : AllNumeral digits) (exponent : Int) :
    AllNumeral (scientific digits exponent) := by
  unfold scientific
  dsimp only
  refine allNumeral_append (allNumeral_append (h.mono (List.take_subset _ _)) ?_) ?_
  · split
    · exact allNumeral_nil
    · next rest hrest => exact allNumeral_cons (.inr (by decide)) (h.mono (List.drop_subset _ _))
  · refine allNumeral_cons (.inr (by decide)) (allNumeral_cons ?_ (allNumeral_exponentDigits _))
    split
    · exact .inr (by decide)
    · exact .inr (by decide)

/-- A count of units is written as a number. -/
theorem allNumeral_unitsText (units : Nat) : AllNumeral (unitsText units) := by
  unfold unitsText
  dsimp only
  have h := (allNumeral_toDigits (shortest units).1).mono (dropTrailingZeros_subset _)
  split
  · exact allNumeral_positional h _
  · exact allNumeral_scientific h _

/-- The text of a number holds characters of numbers alone. -/
theorem allNumeral_text (x : Binary64) : AllNumeral (text x) := by
  have hsign : ∀ s : Bool, AllNumeral (if s then ['-'] else []) := by
    intro s
    split
    · exact allNumeral_cons (.inr (by decide)) allNumeral_nil
    · exact allNumeral_nil
  have letters : ['n', 'a', 'n'] ⊆ ['.', 'e', '+', '-', 'n', 'a', 'i', 'f'] := by decide
  have others : ['i', 'n', 'f'] ⊆ ['.', 'e', '+', '-', 'n', 'a', 'i', 'f'] := by decide
  cases x with
  | nan => exact fun c hc => .inr (letters hc)
  | infinite s =>
    refine allNumeral_append (hsign s) ?_
    exact fun c hc => .inr (others hc)
  | finite s u =>
    refine allNumeral_append (hsign s) ?_
    split
    · refine allNumeral_cons (.inl (by decide)) (allNumeral_cons (.inr (by decide)) ?_)
      exact allNumeral_cons (.inl (by decide)) allNumeral_nil
    · exact allNumeral_unitsText u

end ResourceAtlas.Number.Shortest

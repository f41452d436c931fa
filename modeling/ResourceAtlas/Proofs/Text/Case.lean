import ResourceAtlas.Proofs.Text.Utf8
import ResourceAtlas.Text.Case

/-!
# Upper forms

A text does not shrink in upper case, and among the ASCII characters nothing but capital letters comes
out of another character. What parts a text, such as a bracket, stands in the upper form of a text only
where it stands in the text, then, but perhaps further on.
-/

namespace ResourceAtlas.Text.Case

open Table

/-- An ASCII character that is no capital letter, nor the null character. -/
def IsMark (c : Char) : Prop :=
  0 < c.toNat ∧ (c.toNat < 0x41 ∨ 0x5A < c.toNat ∧ c.toNat < 0x80)

instance (c : Char) : Decidable (IsMark c) :=
  inferInstanceAs (Decidable (_ ∧ (_ ∨ _ ∧ _)))

/-- The code point of a capital letter, or one beyond ASCII. -/
def IsImage (n : Nat) : Prop :=
  (0x41 ≤ n ∧ n ≤ 0x5A) ∨ 0x80 ≤ n

instance (n : Nat) : Decidable (IsImage n) :=
  inferInstanceAs (Decidable (_ ∨ _))

/-- No mark has the code point of an image. -/
theorem IsMark.ne_ofNat {c : Char} (h : IsMark c) {n : Nat} (hn : IsImage n) : c ≠ Char.ofNat n := by
  rintro rfl
  unfold IsMark at h
  unfold IsImage at hn
  rcases Utf8.toNat_char n with heq | heq <;> omega

/-- An expansion that is found is in the table. -/
theorem mem_of_lookup {n : Nat} {form : List Nat} (h : upperExpansions.lookup n = some form) :
    (n, form) ∈ upperExpansions := by
  obtain ⟨before, after, happ, -⟩ := List.lookup_eq_some_iff.mp h
  rw [happ]
  exact List.mem_append_right before List.mem_cons_self

/-- The expansions give capital letters and characters beyond ASCII. -/
theorem isImage_of_expansion {n m : Nat} {form : List Nat}
    (h : upperExpansions.lookup n = some form) (hm : m ∈ form) : IsImage m := by
  have hall : ∀ e ∈ upperExpansions, ∀ m ∈ e.2, IsImage m := by decide +kernel
  exact hall _ (mem_of_lookup h) m hm

/-- The runs lead from beyond ASCII to capital letters and to characters beyond ASCII. -/
theorem isImage_of_run {n m : Nat} (hn : 0x80 ≤ n) (h : image? upperRuns n = some m) : IsImage m := by
  have hall : ∀ r ∈ upperRuns, r.last < 0x80 ∨ 0x80 ≤ r.first + r.offset ∨
      r.first = r.last ∧ 0x41 ≤ r.first + r.offset ∧ r.first + r.offset ≤ 0x5A := by decide +kernel
  obtain ⟨r, hr, him⟩ := List.exists_of_findSome?_eq_some h
  unfold Run.image? at him
  split at him
  · next hin =>
    obtain rfl := Option.some.inj him
    unfold IsImage
    rcases hall r hr with hlast | hfar | ⟨hone, hlow, hhigh⟩ <;> omega
  · exact (nomatch him)

/-- A mark is in the upper form of itself alone. -/
theorem eq_of_mem_upperChar {c d : Char} (hd : IsMark d) (h : d ∈ upperChar c) : c = d := by
  unfold upperChar at h
  dsimp only at h
  split at h
  · split at h
    · next hsmall =>
      exact absurd (List.mem_singleton.mp h) (hd.ne_ofNat (.inl ⟨by omega, by omega⟩))
    · exact (List.mem_singleton.mp h).symm
  · next hfar =>
    split at h
    · next form hform =>
      obtain ⟨m, hm, rfl⟩ := List.mem_map.mp h
      exact absurd rfl (hd.ne_ofNat (isImage_of_expansion hform hm))
    · split at h
      · next m hm =>
        exact absurd (List.mem_singleton.mp h) (hd.ne_ofNat (isImage_of_run (by omega) hm))
      · exact (List.mem_singleton.mp h).symm

/-- A mark is in the upper form of no text without it. -/
theorem not_mem_upper {d : Char} (hd : IsMark d) {text : List Char} (h : d ∉ text) :
    d ∉ upper text := by
  intro hmem
  obtain ⟨c, hc, hdc⟩ := List.mem_flatMap.mp hmem
  exact h (eq_of_mem_upperChar hd hdc ▸ hc)

/-- Every character has an upper form. -/
theorem upperChar_length_pos (c : Char) : 0 < (upperChar c).length := by
  have hall : ∀ e ∈ upperExpansions, 0 < e.2.length := by decide +kernel
  unfold upperChar
  dsimp only
  split
  · split <;> exact Nat.zero_lt_one
  · split
    · next form hform =>
      rw [List.length_map]
      exact hall _ (mem_of_lookup hform)
    · split <;> exact Nat.zero_lt_one

/-- A text does not shrink in upper case. -/
theorem length_le_upper (text : List Char) : text.length ≤ (upper text).length := by
  induction text with
  | nil => exact Nat.le_refl 0
  | cons c text ih =>
    have hc := upperChar_length_pos c
    rw [upper, List.flatMap_cons, List.length_append, List.length_cons]
    have hrest : text.length ≤ (text.flatMap upperChar).length := ih
    omega

end ResourceAtlas.Text.Case

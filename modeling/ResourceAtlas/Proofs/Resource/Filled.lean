import ResourceAtlas.Proofs.Query.State
import ResourceAtlas.Proofs.Registry.Fields

/-!
# Filled forms of addresses

A form of addresses has names in braces where something is to be filled in: a position, an identifier, a
name, or a comparison. What fits each of them is said here, and how a form is filled in part by part.
-/

namespace ResourceAtlas.Resource

open Address Number Query Text

/-- What stands in braces in a form of addresses. -/
inductive Blank
  /-- A position. -/
  | index
  /-- An identifier. -/
  | id
  /-- A name. -/
  | name
  /-- A comparison. -/
  | filter
  deriving DecidableEq, Repr

namespace Blank

/-- The text of a blank. -/
def text : Blank → List Char
  | index => "\x7bindex\x7d".toList
  | id => "\x7bid\x7d".toList
  | name => "\x7bname\x7d".toList
  | filter => "\x7bfilter\x7d".toList

/-- What can be filled in for a blank: a number that can be read, a coded name that reads as no integer,
or a field with a coded value. -/
inductive Takes : Blank → List Char → Prop
  /-- A position. -/
  | index {n : Nat} (h : n < 10 ^ Numeral.maxDigits) : Takes .index (Numeral.natText n)
  /-- An identifier. -/
  | id {n : Nat} (h : n < 10 ^ Numeral.maxDigits) : Takes .id (Numeral.natText n)
  /-- A name. -/
  | name {m : String} (h : Atlas.PlainKey m) : Takes .name (Percent.encode m.toList)
  /-- A comparison of a field with a value. -/
  | filter {field : String} (h : FieldName field) (value : String) :
    Takes .filter (field.toList ++ '=' :: Percent.encode value.toList)

/-- A blank starts with an opening brace. -/
theorem exists_text (b : Blank) : ∃ tail, b.text = '\x7b' :: tail := by
  cases b <;> exact ⟨_, rfl⟩

/-- No blank starts another one. -/
theorem eq_of_prefix {b b' : Blank} (h : b.text <+: b'.text) : b = b' := by
  have hall : ∀ b b' : Blank, b.text <+: b'.text → b = b' := by
    intro b b'
    cases b <;> cases b' <;> decide
  exact hall b b' h

/-- The characters that part an address are in no blank. -/
theorem not_mem_text {c : Char} (h : c ∈ ['/', '[', ']', '?', ':']) (b : Blank) : c ∉ b.text := by
  have hall : ∀ c ∈ ['/', '[', ']', '?', ':'], c ∉ b.text := by
    cases b <;> exact forall_mem_of_all (by decide)
  exact hall c h

end Blank

/-- A text with something filled in for every blank. -/
inductive Filled : List Char → List Char → Prop
  /-- The empty text. -/
  | nil : Filled [] []
  /-- A blank is filled in. -/
  | blank {b : Blank} {given rest filled : List Char} (h : b.Takes given) (hrest : Filled rest filled) :
    Filled (b.text ++ rest) (given ++ filled)
  /-- A character at which no blank starts stays. -/
  | kept {c : Char} {rest filled : List Char} (h : ∀ b : Blank, ¬ b.text <+: c :: rest)
    (hrest : Filled rest filled) : Filled (c :: rest) (c :: filled)

/-- A text without blanks. -/
def Unblanked (text : List Char) : Prop :=
  ∀ b : Blank, ¬ b.text <:+: text

/-- No blank starts in one text and ends in the next one. -/
def Parted (s t : List Char) : Prop :=
  ∀ (b : Blank) (x y : List Char), b.text = x ++ y → x ≠ [] → y ≠ [] → x <:+ s → ¬ y <+: t

/-- A text without opening braces has no blanks. -/
theorem unblanked_of_not_mem {text : List Char} (h : '\x7b' ∉ text) : Unblanked text := by
  intro b hb
  obtain ⟨tail, htail⟩ := b.exists_text
  exact h (hb.subset (htail ▸ List.mem_cons_self))

/-- No blank starts in a text without opening braces. -/
theorem parted_of_not_mem {s : List Char} (h : '\x7b' ∉ s) (t : List Char) : Parted s t := by
  rintro b x y htext hx - hsuffix -
  obtain ⟨tail, htail⟩ := b.exists_text
  obtain ⟨d, more, rfl⟩ := List.exists_cons_of_ne_nil hx
  obtain ⟨rfl, -⟩ := List.cons.inj (htail.symm.trans htext)
  exact h (hsuffix.subset List.mem_cons_self)

/-- No blank goes on past the start of a text that is in no blank. -/
theorem parted_of_head {c : Char} (hc : ∀ b : Blank, c ∉ b.text) (s t : List Char) :
    Parted s (c :: t) := by
  rintro b x y htext - hy - hprefix
  obtain ⟨d, tail, rfl⟩ := List.exists_cons_of_ne_nil hy
  obtain ⟨rfl, -⟩ := List.cons_prefix_cons.mp hprefix
  exact hc b (htext ▸ List.mem_append_right x List.mem_cons_self)

namespace Filled

variable {s t given : List Char}

/-- A text without blanks stays as it is. -/
theorem eq_of_unblanked (h : Filled s given) (hs : Unblanked s) : given = s := by
  induction h with
  | nil => rfl
  | @blank b _ rest _ _ _ _ => exact absurd (List.prefix_append b.text rest).isInfix (hs b)
  | kept _ _ ih => rw [ih fun b hb => hs b (List.infix_cons hb)]

/-- A text without opening braces stays as it is before a text that is filled in. -/
theorem unbraced (hs : '\x7b' ∉ s) (h : Filled t given) : Filled (s ++ t) (s ++ given) := by
  induction s with
  | nil => exact h
  | cons c s ih =>
    rw [List.mem_cons, not_or] at hs
    refine .kept (fun b hb => ?_) (ih hs.2)
    obtain ⟨tail, htail⟩ := b.exists_text
    rw [htail] at hb
    exact hs.1 (List.cons_prefix_cons.mp hb).1

/-- A text in two parts, between which no blank stands, is filled in part by part. -/
theorem append (h : Filled (s ++ t) given) (hparted : Parted s t) :
    ∃ first second, given = first ++ second ∧ Filled s first ∧ Filled t second := by
  generalize hst : s ++ t = text at h
  induction h generalizing s with
  | nil =>
    obtain ⟨rfl, rfl⟩ := List.append_eq_nil_iff.mp hst
    exact ⟨[], [], rfl, .nil, .nil⟩
  | @blank b own rest filled hown hrest ih =>
    cases s with
    | nil =>
      rw [List.nil_append] at hst
      exact ⟨[], _, rfl, .nil, hst ▸ .blank hown hrest⟩
    | cons c s =>
      rcases List.append_eq_append_iff.mp hst with ⟨more, hmore, htail⟩ | ⟨more, hmore, htail⟩
      · cases more with
        | nil =>
          rw [List.append_nil] at hmore
          rw [List.nil_append] at htail
          obtain ⟨first, second, rfl, hfirst, hsecond⟩ :=
            ih (s := []) (by rintro b x y - hx - hsuffix -; exact hx (List.suffix_nil.mp hsuffix)) htail
          refine ⟨own ++ first, second, (List.append_assoc _ _ _).symm, ?_, hsecond⟩
          rw [← hmore, ← List.append_nil b.text]
          exact .blank hown hfirst
        | cons d more =>
          exfalso
          refine hparted b (c :: s) (d :: more) hmore (List.cons_ne_nil c s) (List.cons_ne_nil d more)
            (List.suffix_refl _) ?_
          rw [htail]
          exact List.prefix_append _ _
      · obtain ⟨first, second, rfl, hfirst, hsecond⟩ := ih (s := more) (by
          intro b x y htext hx hy hsuffix
          exact hparted b x y htext hx hy (hmore ▸ hsuffix.trans (List.suffix_append _ _))) htail.symm
        refine ⟨own ++ first, second, (List.append_assoc _ _ _).symm, ?_, hsecond⟩
        rw [hmore]
        exact .blank hown hfirst
  | @kept c rest filled hnone hrest ih =>
    cases s with
    | nil =>
      rw [List.nil_append] at hst
      exact ⟨[], _, rfl, .nil, hst ▸ .kept hnone hrest⟩
    | cons d s =>
      obtain ⟨rfl, htail⟩ := List.cons.inj hst
      obtain ⟨first, second, rfl, hfirst, hsecond⟩ := ih (s := s) (by
        intro b x y htext hx hy hsuffix
        exact hparted b x y htext hx hy (hsuffix.trans (List.suffix_cons _ _))) htail
      refine ⟨d :: first, second, rfl, .kept (fun b hb => hnone b ?_) hfirst, hsecond⟩
      rw [← htail]
      exact hb.trans (List.prefix_append (d :: s) t)

/-- A text without opening braces stays as it is before another one. -/
theorem of_append (h : Filled (s ++ t) given) (hs : '\x7b' ∉ s) :
    ∃ filled, given = s ++ filled ∧ Filled t filled := by
  obtain ⟨first, filled, rfl, hfirst, hfilled⟩ := h.append (parted_of_not_mem hs t)
  exact ⟨filled, by rw [hfirst.eq_of_unblanked (unblanked_of_not_mem hs)], hfilled⟩

/-- What is filled in for a blank alone. -/
theorem takes {b : Blank} (h : Filled b.text given) : b.Takes given := by
  generalize htext : b.text = text at h
  cases h with
  | nil =>
    obtain ⟨tail, htail⟩ := b.exists_text
    exact (nomatch htail.symm.trans htext)
  | @blank b' own rest filled hown hrest =>
    obtain rfl := Blank.eq_of_prefix (htext ▸ List.prefix_append b'.text rest)
    have hnil : rest = [] := List.append_right_eq_self.mp htext.symm
    subst hnil
    obtain rfl := hrest.eq_of_unblanked (unblanked_of_not_mem List.not_mem_nil)
    rw [List.append_nil]
    exact hown
  | kept hnone _ => exact absurd (htext ▸ List.prefix_refl _) (hnone b)

end Filled

end ResourceAtlas.Resource

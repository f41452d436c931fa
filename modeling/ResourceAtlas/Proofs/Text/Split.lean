import Mathlib.Tactic
import ResourceAtlas.Text.Blank
import ResourceAtlas.Text.Split

/-!
# Cutting undoes joining

A text is cut where a separator was put between parts that do not hold it. The first occurrence of a
word depends on what lies up to its end alone, so the text behind it can be replaced. A text without
blanks has none to trim.
-/

/-- What a check finds of each character of a text holds of all of them. The quantifier is not decided
as it stands, where a decision could go through the characters that there are. -/
theorem ResourceAtlas.Text.forall_mem_of_all {p : Char → Prop} [DecidablePred p] {text : List Char}
    (h : (text.all fun c => decide (p c)) = true) : ∀ c ∈ text, p c :=
  fun c hc => of_decide_eq_true (List.all_eq_true.mp h c hc)

/-- A text without blanks has none to trim. -/
theorem ResourceAtlas.Text.Blank.trimOf_eq_self {p : Char → Bool} {text : List Char}
    (h : ∀ c ∈ text, p c = false) : trimOf p text = text := by
  have hdrop : ∀ text : List Char, (∀ c ∈ text, p c = false) → text.dropWhile p = text := by
    intro text hall
    cases text with
    | nil => rfl
    | cons c text =>
      rw [List.dropWhile_cons_of_neg]
      rw [hall c List.mem_cons_self]
      exact Bool.false_ne_true
  rw [trimOf, hdrop _ h, hdrop, List.reverse_reverse]
  exact fun c hc => h c (List.mem_reverse.mp hc)

namespace ResourceAtlas.Text.Split

/-- The first separator stands right after a part without one. -/
theorem atFirst_append {sep : Char} {before : List Char} (h : sep ∉ before) (after : List Char) :
    atFirst sep (before ++ sep :: after) = some (before, after) := by
  induction before with
  | nil => rw [List.nil_append, atFirst, if_pos rfl]
  | cons c before ih =>
    rw [List.mem_cons, not_or] at h
    rw [List.cons_append, atFirst, if_neg (Ne.symm h.1), ih h.2]
    rfl

/-- A text without the separator has no first one. -/
theorem atFirst_eq_none {sep : Char} {text : List Char} (h : sep ∉ text) :
    atFirst sep text = none := by
  induction text with
  | nil => rfl
  | cons c text ih =>
    rw [List.mem_cons, not_or] at h
    rw [atFirst, if_neg (Ne.symm h.1), ih h.2]
    rfl

/-- A text without the separator has no last one. -/
theorem atLast_eq_none {sep : Char} {text : List Char} (h : sep ∉ text) :
    atLast sep text = none := by
  induction text with
  | nil => rfl
  | cons c text ih =>
    rw [List.mem_cons, not_or] at h
    rw [atLast, ih h.2]
    dsimp only
    rw [if_neg (Ne.symm h.1)]

/-- The last separator stands right before a part without one. -/
theorem atLast_append {sep : Char} {after : List Char} (h : sep ∉ after) (before : List Char) :
    atLast sep (before ++ sep :: after) = some (before, after) := by
  induction before with
  | nil =>
    rw [List.nil_append, atLast, atLast_eq_none h]
    dsimp only
    rw [if_pos rfl]
  | cons c before ih => rw [List.cons_append, atLast, ih]

/-- A part without the separator is the only one. -/
theorem every_eq_singleton {sep : Char} {text : List Char} (h : sep ∉ text) :
    every sep text = [text] := by
  induction text with
  | nil => rfl
  | cons c text ih =>
    rw [List.mem_cons, not_or] at h
    rw [every, if_neg (Ne.symm h.1), ih h.2]

/-- A part without the separator is the first one. -/
theorem every_append {sep : Char} {part : List Char} (h : sep ∉ part) (rest : List Char) :
    every sep (part ++ sep :: rest) = part :: every sep rest := by
  induction part with
  | nil => rw [List.nil_append, every, if_pos rfl]
  | cons c part ih =>
    rw [List.mem_cons, not_or] at h
    rw [List.cons_append, every, if_neg (Ne.symm h.1), ih h.2]

/-- A character that parts nothing is in a text exactly if it is in one of the parts. -/
theorem mem_every {sep c : Char} (h : c ≠ sep) {text : List Char} :
    c ∈ text ↔ ∃ part ∈ every sep text, c ∈ part := by
  induction text with
  | nil => simp [every]
  | cons d rest ih =>
    rw [every, List.mem_cons, ih]
    split
    · next hd => simp [hd, h]
    · cases every sep rest with
      | nil => simp
      | cons part parts => simp [or_assoc]

/-- Two parts and more are joined with a separator after the first. -/
theorem join_cons_cons (sep part next : String) (rest : List String) :
    join sep (part :: next :: rest) = part ++ sep ++ join sep (next :: rest) := rfl

/-- Cutting at a separator gives back the parts that were joined with it. -/
theorem every_join {sep : Char} {parts : List String} (hne : parts ≠ [])
    (h : ∀ part ∈ parts, sep ∉ part.toList) :
    every sep (join (String.singleton sep) parts).toList = parts.map String.toList := by
  induction parts with
  | nil => exact absurd rfl hne
  | cons part rest ih =>
    have hpart := h part List.mem_cons_self
    cases rest with
    | nil =>
      rw [join, every_eq_singleton hpart]
      rfl
    | cons next rest =>
      have hrest := ih (List.cons_ne_nil next rest)
        fun p hp => h p (List.mem_cons_of_mem part hp)
      rw [join_cons_cons, String.toList_append, String.toList_append, String.toList_singleton,
        List.append_assoc, List.singleton_append, every_append hpart, hrest]
      rfl

/-- A character of joined parts is in one of them or in the separator. -/
theorem mem_join {sep : String} {parts : List String} {c : Char}
    (h : c ∈ (join sep parts).toList) : c ∈ sep.toList ∨ ∃ part ∈ parts, c ∈ part.toList := by
  induction parts with
  | nil => exact absurd h List.not_mem_nil
  | cons part rest ih =>
    cases rest with
    | nil => exact .inr ⟨part, List.mem_cons_self, h⟩
    | cons next rest =>
      rw [join_cons_cons, String.toList_append, String.toList_append, List.mem_append,
        List.mem_append] at h
      rcases h with (h | h) | h
      · exact .inr ⟨part, List.mem_cons_self, h⟩
      · exact .inl h
      · rcases ih h with hsep | ⟨p, hp, hc⟩
        · exact .inl hsep
        · exact .inr ⟨p, List.mem_cons_of_mem part hp, hc⟩

/-- What a part of a joined text has, the text has. -/
theorem mem_join_of_mem {sep part : String} {parts : List String} (hpart : part ∈ parts) {c : Char}
    (hc : c ∈ part.toList) : c ∈ (join sep parts).toList := by
  induction parts with
  | nil => exact absurd hpart List.not_mem_nil
  | cons first rest ih =>
    cases rest with
    | nil =>
      obtain rfl := List.mem_singleton.mp hpart
      exact hc
    | cons next rest =>
      rw [join_cons_cons, String.toList_append, String.toList_append]
      rcases List.mem_cons.mp hpart with rfl | hpart
      · exact List.mem_append_left _ (List.mem_append_left _ hc)
      · exact List.mem_append_right _ (ih hpart)

/-- Parts of which the first is not empty join to a text that is not empty. -/
theorem join_ne_empty {sep part : String} {rest : List String} (h : part ≠ "") :
    join sep (part :: rest) ≠ "" := by
  cases rest with
  | nil => exact h
  | cons next rest =>
    intro hempty
    rw [join_cons_cons, String.append_eq_empty_iff, String.append_eq_empty_iff] at hempty
    exact h hempty.1.1

/-- A word found in a text parts it. -/
theorem eq_of_atWord {word text before after : List Char}
    (h : atWord word text = some (before, after)) : text = before ++ word ++ after := by
  induction text generalizing before with
  | nil =>
    rw [atWord] at h
    split at h
    · next hw =>
      cases h
      rw [List.isEmpty_iff.mp hw]
      rfl
    · exact absurd h (by simp)
  | cons c text ih =>
    rw [atWord] at h
    split at h
    · next hw =>
      cases h
      rw [List.nil_append]
      exact (List.prefix_iff_eq_append.mp (List.isPrefixOf_iff_prefix.mp hw)).symm
    · obtain ⟨⟨b, a⟩, hba, heq⟩ := Option.map_eq_some_iff.mp h
      cases heq
      rw [ih hba]
      rfl

/-- What follows the first occurrence of a word can be replaced. -/
theorem atWord_replace {word text before after : List Char}
    (h : atWord word text = some (before, after)) (other : List Char) :
    atWord word (before ++ word ++ other) = some (before, other) := by
  induction before generalizing text with
  | nil =>
    rw [List.nil_append]
    cases hw : word ++ other with
    | nil =>
      obtain ⟨rfl, rfl⟩ := List.append_eq_nil_iff.mp hw
      rfl
    | cons c rest =>
      have hp : word.isPrefixOf (c :: rest) = true := by
        rw [← hw]
        exact List.isPrefixOf_iff_prefix.mpr (List.prefix_append word other)
      rw [atWord, if_pos hp, ← hw, List.drop_left]
  | cons c before ih =>
    have htext := eq_of_atWord h
    rw [List.cons_append, List.cons_append] at htext
    subst htext
    rw [atWord] at h
    split at h
    · exact absurd (congrArg Prod.fst (Option.some.inj h)).symm (List.cons_ne_nil c before)
    · next hw =>
      obtain ⟨⟨b, a⟩, hba, heq⟩ := Option.map_eq_some_iff.mp h
      cases heq
      have hno : ¬ word.isPrefixOf (c :: (b ++ word ++ other)) = true := by
        intro hp
        apply hw
        rw [List.isPrefixOf_iff_prefix] at hp ⊢
        have hlen : word.length ≤ (c :: (b ++ word)).length := by
          rw [List.length_cons, List.length_append]
          omega
        have hshort : word <+: c :: (b ++ word) :=
          List.prefix_of_prefix_length_le hp (List.prefix_append (c :: (b ++ word)) other) hlen
        exact hshort.trans (List.prefix_append (c :: (b ++ word)) a)
      rw [List.cons_append, List.cons_append, atWord, if_neg hno, ih hba]
      rfl

/-- A word is not found in a text without its first character. -/
theorem atWord_skip {c : Char} {word before : List Char} (h : c ∉ before) (text : List Char) :
    atWord (c :: word) (before ++ text) =
      (atWord (c :: word) text).map fun parts => (before ++ parts.1, parts.2) := by
  induction before with
  | nil => exact Option.map_id'.symm
  | cons d before ih =>
    rw [List.mem_cons, not_or] at h
    have hno : ¬ (c :: word).isPrefixOf (d :: (before ++ text)) = true := by
      rw [List.isPrefixOf_cons_cons, Bool.and_eq_true, beq_iff_eq]
      exact fun hp => h.1 hp.1
    rw [List.cons_append, atWord, if_neg hno, ih h.2, Option.map_map]
    rfl

/-- A word is not found where its first character is not. -/
theorem atWord_eq_none {c : Char} {word text : List Char} (h : c ∉ text) :
    atWord (c :: word) text = none := by
  have hskip := @atWord_skip c word text h []
  rw [List.append_nil] at hskip
  exact hskip

/-- A word is found at the start of a text that starts with it. -/
theorem atWord_prefix (c : Char) (word after : List Char) :
    atWord (c :: word) (c :: word ++ after) = some ([], after) := by
  have hp : (c :: word).isPrefixOf (c :: (word ++ after)) = true :=
    List.isPrefixOf_iff_prefix.mpr (List.prefix_append (c :: word) after)
  rw [List.cons_append, atWord, if_pos hp, ← List.cons_append, List.drop_left]

/-- A word is first found where a text without its first character ends. -/
theorem atWord_append {c : Char} {word before : List Char} (h : c ∉ before) (after : List Char) :
    atWord (c :: word) (before ++ (c :: word) ++ after) = some (before, after) := by
  rw [List.append_assoc, atWord_skip h, atWord_prefix, Option.map_some, List.append_nil]

/-- A word that is in neither of two texts is not in both together, unless the second one starts with a
later character of the word. -/
theorem atWord_append_eq_none {c : Char} {word text more : List Char}
    (h : atWord (c :: word) text = none) (hmore : atWord (c :: word) more = none)
    (hfirst : ∀ d, more.head? = some d → d ∉ word) : atWord (c :: word) (text ++ more) = none := by
  induction text with
  | nil => exact hmore
  | cons b text ih =>
    rw [atWord] at h
    split at h
    · cases h
    · next hno =>
      have hword : ¬ (c :: word).isPrefixOf (b :: (text ++ more)) = true := by
        rw [List.isPrefixOf_iff_prefix] at hno ⊢
        intro hprefix
        rcases List.prefix_or_prefix_of_prefix hprefix (List.prefix_append (b :: text) more) with
          hshort | ⟨tail, htail⟩
        · exact hno hshort
        · -- The word goes on from the first text into the second one.
          cases tail with
          | nil =>
            rw [List.append_nil] at htail
            exact hno (htail ▸ List.prefix_rfl)
          | cons d tail =>
            obtain ⟨rest, hrest⟩ := hprefix
            rw [← htail, List.append_assoc] at hrest
            have hlater : d ∈ word := by
              rw [(List.cons.inj htail).2.symm]
              exact List.mem_append_right _ List.mem_cons_self
            exact hfirst d (by rw [← List.append_cancel_left hrest]; rfl) hlater
      rw [List.cons_append, atWord, if_neg hword, ih (Option.map_eq_none_iff.mp h)]
      rfl

/-- A word that is found in a text is found there from any place before it. -/
theorem atWord_drop {word text before after : List Char}
    (h : atWord word text = some (before, after)) {count : Nat} (hcount : count ≤ before.length) :
    atWord word (text.drop count) = some (before.drop count, after) := by
  induction count generalizing text before with
  | zero => exact h
  | succ count ih =>
    cases before with
    | nil => exact absurd hcount (Nat.not_succ_le_zero count)
    | cons b before =>
      cases text with
      | nil => exact absurd (eq_of_atWord h) (by simp)
      | cons c text =>
        rw [atWord] at h
        split at h
        · exact absurd (congrArg Prod.fst (Option.some.inj h)).symm (List.cons_ne_nil b before)
        · obtain ⟨⟨b, a⟩, hba, heq⟩ := Option.map_eq_some_iff.mp h
          cases heq
          exact ih hba (Nat.le_of_succ_le_succ hcount)

end ResourceAtlas.Text.Split

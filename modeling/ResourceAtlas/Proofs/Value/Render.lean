import ResourceAtlas.Proofs.Keyed
import ResourceAtlas.Proofs.Number.Numeral
import ResourceAtlas.Proofs.Text.Split
import ResourceAtlas.Store.Place
import ResourceAtlas.Value.Order
import ResourceAtlas.Value.Render

/-!
# The text of what holds a list

A list is written between brackets, and what holds a value writes it out. So the text of a value that
a list lies in has a bracket, and a text or an integer without one is never equal to it nor of the
same text.
-/

namespace ResourceAtlas.Value

open Store Text

/-- The texts of members are those of each. -/
theorem mem_quotedAll {items : List Value} {parts : List String} (h : quotedAll? items = some parts)
    {v : Value} (hv : v ∈ items) : ∃ s ∈ parts, quoted? v = some s := by
  induction items generalizing parts with
  | nil => exact absurd hv List.not_mem_nil
  | cons item rest ih =>
    rw [quotedAll?] at h
    obtain ⟨s, hs, h⟩ := Option.bind_eq_some_iff.mp h
    obtain ⟨more, hmore, h⟩ := Option.bind_eq_some_iff.mp h
    obtain rfl := Option.some.inj h
    rcases List.mem_cons.mp hv with rfl | hv
    · exact ⟨s, List.mem_cons_self, hs⟩
    · obtain ⟨t, ht, hquoted⟩ := ih hmore hv
      exact ⟨t, List.mem_cons_of_mem s ht, hquoted⟩

/-- The texts of entries are those of each under its key. -/
theorem mem_quotedEntries {entries : Keyed Value} {parts : List (String × String)}
    (h : quotedEntries? entries = some parts) {key : String} {v : Value} (hv : (key, v) ∈ entries) :
    ∃ s, (key, s) ∈ parts ∧ quoted? v = some s := by
  induction entries generalizing parts with
  | nil => exact absurd hv List.not_mem_nil
  | cons e rest ih =>
    obtain ⟨k, w⟩ := e
    rw [quotedEntries?] at h
    obtain ⟨s, hs, h⟩ := Option.bind_eq_some_iff.mp h
    obtain ⟨more, hmore, h⟩ := Option.bind_eq_some_iff.mp h
    obtain rfl := Option.some.inj h
    rcases List.mem_cons.mp hv with heq | hv
    · obtain ⟨rfl, rfl⟩ := Prod.mk.inj heq
      exact ⟨s, List.mem_cons_self, hs⟩
    · obtain ⟨t, ht, hquoted⟩ := ih hmore hv
      exact ⟨t, List.mem_cons_of_mem _ ht, hquoted⟩

/-- The texts of entries under keys of any kind are those of each. -/
theorem mem_quotedPairs {entries : List (Value × Value)} {parts : List (String × String)}
    (h : quotedPairs? entries = some parts) {e : Value × Value} (he : e ∈ entries) :
    ∃ part ∈ parts, quoted? e.2 = some part.2 := by
  induction entries generalizing parts with
  | nil => exact absurd he List.not_mem_nil
  | cons first rest ih =>
    obtain ⟨k, w⟩ := first
    rw [quotedPairs?] at h
    obtain ⟨name, -, h⟩ := Option.bind_eq_some_iff.mp h
    obtain ⟨s, hs, h⟩ := Option.bind_eq_some_iff.mp h
    obtain ⟨more, hmore, h⟩ := Option.bind_eq_some_iff.mp h
    obtain rfl := Option.some.inj h
    rcases List.mem_cons.mp he with rfl | he
    · exact ⟨_, List.mem_cons_self, hs⟩
    · obtain ⟨part, hpart, hquoted⟩ := ih hmore he
      exact ⟨part, List.mem_cons_of_mem _ hpart, hquoted⟩

/-- An entry under a text is one of the entries. -/
theorem mem_of_textEntries {entries : List (Value × Value)} {key : String} {v : Value}
    (h : (key, v) ∈ textEntries entries) : (text key, v) ∈ entries := by
  obtain ⟨⟨k, w⟩, hmem, hkey⟩ := List.mem_filterMap.mp h
  cases k with
  | text k =>
    obtain ⟨rfl, rfl⟩ := Prod.mk.inj (Option.some.inj hkey)
    exact hmem
  | _ => exact (nomatch hkey)

/-- What stands between two texts is in the whole. -/
theorem mem_between {before inner after : String} {c : Char} (h : c ∈ inner.toList) :
    c ∈ (before ++ inner ++ after).toList := by
  rw [String.toList_append, String.toList_append]
  exact List.mem_append_left _ (List.mem_append_right _ h)

/-- What is written inside holds what is written of the value at a place of it. -/
theorem exists_quoted_of_read? {v w : Value} {place : Place} (hw : place.read? v = some w) {s : String}
    (hs : quoted? v = some s) : ∃ t, quoted? w = some t ∧ ∀ c ∈ t.toList, c ∈ s.toList := by
  cases place with
  | key name =>
    cases v with
    | mapping entries =>
      rw [quoted?] at hs
      obtain ⟨parts, hparts, hs⟩ := Option.bind_eq_some_iff.mp hs
      obtain rfl := Option.some.inj hs
      obtain ⟨t, ht, hquoted⟩ := mem_quotedEntries hparts (Keyed.mem_of_get? hw)
      have hpart : Quoted.string name ++ ": " ++ t ∈
          parts.map fun p => Quoted.string p.1 ++ ": " ++ p.2 := List.mem_map.mpr ⟨_, ht, rfl⟩
      refine ⟨t, hquoted, fun c hc => mem_between (Split.mem_join_of_mem hpart ?_)⟩
      rw [String.toList_append]
      exact List.mem_append_right _ hc
    | table entries =>
      rw [quoted?] at hs
      obtain ⟨parts, hparts, hs⟩ := Option.bind_eq_some_iff.mp hs
      obtain rfl := Option.some.inj hs
      obtain ⟨part, hmem, hquoted⟩ :=
        mem_quotedPairs hparts (mem_of_textEntries (Keyed.mem_of_get? hw))
      have hpart : part.1 ++ ": " ++ part.2 ∈ parts.map fun p => p.1 ++ ": " ++ p.2 :=
        List.mem_map.mpr ⟨_, hmem, rfl⟩
      refine ⟨part.2, hquoted, fun c hc => mem_between (Split.mem_join_of_mem hpart ?_)⟩
      rw [String.toList_append]
      exact List.mem_append_right _ hc
    | _ => exact (nomatch hw)
  | index i =>
    cases v with
    | list all =>
      rw [quoted?] at hs
      obtain ⟨parts, hparts, hs⟩ := Option.bind_eq_some_iff.mp hs
      obtain rfl := Option.some.inj hs
      obtain ⟨t, ht, hquoted⟩ := mem_quotedAll hparts (List.mem_of_getElem? hw)
      exact ⟨t, hquoted, fun c hc => mem_between (Split.mem_join_of_mem ht hc)⟩
    | tuple all =>
      rw [quoted?] at hs
      obtain ⟨parts, hparts, hs⟩ := Option.bind_eq_some_iff.mp hs
      obtain ⟨t, ht, hquoted⟩ := mem_quotedAll hparts (List.mem_of_getElem? hw)
      refine ⟨t, hquoted, fun c hc => ?_⟩
      split at hs
      · obtain rfl := Option.some.inj hs
        obtain rfl := List.mem_singleton.mp ht
        exact mem_between hc
      · obtain rfl := Option.some.inj hs
        exact mem_between (Split.mem_join_of_mem ht hc)
    | _ => exact (nomatch hw)

/-- What is written inside has a bracket where a list lies in it, by induction along the path to the
list. -/
theorem bracket_mem_of_quoted {v : Value} {path : List Place} {items : List Value}
    (hat : at? v path = some (.list items)) {s : String} (hs : quoted? v = some s) :
    '[' ∈ s.toList := by
  induction path generalizing v s with
  | nil =>
    obtain rfl := Option.some.inj hat
    rw [quoted?] at hs
    obtain ⟨parts, -, hs⟩ := Option.bind_eq_some_iff.mp hs
    obtain rfl := Option.some.inj hs
    simp only [String.toList_append, List.mem_append]
    exact .inl (.inl (by decide))
  | cons place rest ih =>
    obtain ⟨w, hw, hrest⟩ := Option.bind_eq_some_iff.mp hat
    obtain ⟨t, ht, hinside⟩ := exists_quoted_of_read? hw hs
    exact hinside _ (ih hrest ht)

/-- A text or an integer in which no bracket opens. -/
inductive Unbracketed : Value → Prop
  /-- An integer. -/
  | int (n : Int) : Unbracketed (.int n)
  /-- A text. -/
  | text {x : String} (h : '[' ∉ x.toList) : Unbracketed (.text x)

/-- No bracket opens in the text of such a value. -/
theorem Unbracketed.not_mem {v : Value} (h : v.Unbracketed) {s : String} (hs : v.string? = some s) :
    '[' ∉ s.toList := by
  cases h with
  | text h =>
    obtain rfl := Option.some.inj hs
    exact h
  | int n =>
    change intString? n = some s at hs
    obtain ⟨digits, hdigits, rfl⟩ := Option.map_eq_some_iff.mp hs
    rw [String.toList_ofList]
    intro hmem
    have hopen := Number.Numeral.isDigit_or_minus_of_mem_intText hdigits hmem
    exact absurd hopen (by decide)

end ResourceAtlas.Value

import ResourceAtlas.Value.Pairs

/-!
# Mappings made of pairs

A mapping that was made of pairs is made again of its own pairs, and gives back what was put under a
key.
-/

namespace ResourceAtlas.Value

/-- A text is equal to itself alone. -/
theorem eq_text_of_equal {v : Value} {x : String} (h : v.equal (.text x) = true) : v = .text x := by
  cases v with
  | text y =>
    rw [equal] at h
    rw [eq_of_beq h]
  | bool b => exact absurd h (by simp [equal, numeric?])
  | int n => exact absurd h (by simp [equal, numeric?])
  | float y => exact absurd h (by simp [equal, numeric?])
  | _ => exact absurd h (by simp [equal])

/-- The entries under texts of what has only such are those. -/
theorem textEntries_texts (entries : Keyed Value) :
    textEntries (entries.map fun e => (text e.1, e.2)) = entries := by
  induction entries with
  | nil => rfl
  | cons e rest ih =>
    rw [List.map_cons]
    exact congrArg (List.cons e) ih

/-- A mapping of pairs has pairs of which it is the mapping. -/
theorem pairs_ofPairs (entries : List (Value × Value)) :
    ∃ own, (ofPairs entries).pairs? = some own ∧ ofPairs own = ofPairs entries ∧
      (ofPairs entries).mapping? = some (textEntries own) := by
  by_cases htexts : entries.all fun e => e.1.text?.isSome
  · refine ⟨(textEntries entries).map fun e => (text e.1, e.2), ?_, ?_, ?_⟩
    · rw [ofPairs, if_pos htexts]
      rfl
    · have hown : ((textEntries entries).map fun e => (text e.1, e.2)).all
          fun e => e.1.text?.isSome := by
        rw [List.all_map]
        exact List.all_eq_true.mpr fun e _ => rfl
      rw [ofPairs, if_pos hown, textEntries_texts, ofPairs, if_pos htexts]
    · rw [ofPairs, if_pos htexts, textEntries_texts]
      rfl
  · refine ⟨entries, ?_, rfl, ?_⟩
    · rw [ofPairs, if_neg htexts]
      rfl
    · rw [ofPairs, if_neg htexts]
      rfl

/-- What was put under a text stands under it. -/
theorem get?_putPair (key : String) (new : Value) (entries : List (Value × Value)) :
    Keyed.get? key (textEntries (putPair (text key) new entries)) = some new := by
  induction entries with
  | nil => exact if_pos rfl
  | cons e rest ih =>
    obtain ⟨k, w⟩ := e
    rw [putPair]
    by_cases hk : k.equal (text key) = true
    · rw [if_pos hk, eq_text_of_equal hk]
      exact if_pos rfl
    · rw [if_neg hk]
      cases k with
      | text other =>
        have hother : other ≠ key := by
          rintro rfl
          exact hk (by rw [equal]; exact beq_self_eq_true other)
        exact (if_neg hother).trans ih
      | _ => exact ih

/-- What was put under a text leaves what stands under another one. -/
theorem get?_putPair_of_ne {key other : String} (h : other ≠ key) (new : Value)
    (entries : List (Value × Value)) :
    Keyed.get? other (textEntries (putPair (text key) new entries)) =
      Keyed.get? other (textEntries entries) := by
  induction entries with
  | nil => exact if_neg (Ne.symm h)
  | cons e rest ih =>
    obtain ⟨k, w⟩ := e
    rw [putPair]
    by_cases hk : k.equal (text key) = true
    · rw [if_pos hk, eq_text_of_equal hk]
      exact (if_neg (Ne.symm h)).trans (if_neg (Ne.symm h)).symm
    · rw [if_neg hk]
      cases k with
      | text name =>
        by_cases hname : name = other
        · exact (if_pos hname).trans (if_pos hname).symm
        · exact (if_neg hname).trans (ih.trans (if_neg hname).symm)
      | _ => exact ih

/-- A mapping has the value that was put into it. -/
theorem member_withEntry {v : Value} (h : v.mapping?.isSome) (key : String) (new : Value) :
    (v.withEntry key new).member key = new := by
  cases v with
  | mapping entries =>
    rw [withEntry, member, mapping?]
    dsimp only
    rw [Keyed.get?_put_self]
    rfl
  | table entries =>
    rw [withEntry, member, mapping?]
    dsimp only
    rw [get?_putPair]
    rfl
  | _ => exact absurd h Bool.false_ne_true

end ResourceAtlas.Value

import Mathlib.Tactic
import ResourceAtlas.Keyed

/-!
# Keyed lists with each key once

Putting keeps every key at one place. A list in which no key comes twice is what it makes when its
entries are put one after the other.
-/

namespace ResourceAtlas.Keyed

variable {α : Type}

/-- What stands under a key is one of the entries. -/
theorem mem_of_get? {key : String} {entries : Keyed α} {value : α}
    (h : entries.get? key = some value) : (key, value) ∈ entries := by
  induction entries with
  | nil => exact absurd h (by simp [get?])
  | cons e rest ih =>
    obtain ⟨k, v⟩ := e
    by_cases hk : k = key
    · simp only [get?, if_pos hk, Option.some.injEq] at h
      rw [hk, h]
      exact List.mem_cons_self
    · simp only [get?, if_neg hk] at h
      exact List.mem_cons_of_mem _ (ih h)

/-- An entry of a list with each key once stands under its key. -/
theorem get?_of_mem {key : String} {entries : Keyed α} {value : α} (hd : entries.keys.Nodup)
    (h : (key, value) ∈ entries) : entries.get? key = some value := by
  induction entries with
  | nil => exact absurd h List.not_mem_nil
  | cons e rest ih =>
    rw [keys, List.map_cons, List.nodup_cons] at hd
    rcases List.mem_cons.mp h with rfl | hrest
    · rw [get?, if_pos rfl]
    · have hkey : e.1 ≠ key := fun heq => hd.1 (heq ▸ List.mem_map_of_mem hrest)
      rw [get?, if_neg hkey, ih hd.2 hrest]

/-- Under the key of an entry there is a value. -/
theorem exists_get?_of_mem {key : String} {entries : Keyed α} {value : α} (h : (key, value) ∈ entries) :
    ∃ first, entries.get? key = some first := by
  induction entries with
  | nil => exact absurd h List.not_mem_nil
  | cons e entries ih =>
    obtain ⟨k, v⟩ := e
    by_cases hk : k = key
    · exact ⟨v, by rw [get?, if_pos hk]⟩
    · obtain ⟨first, hfirst⟩ := ih ((List.mem_cons.mp h).resolve_left fun heq =>
        hk (Prod.mk.inj heq).1.symm)
      exact ⟨first, by rw [get?, if_neg hk, hfirst]⟩

/-- An absent key is put at the end. -/
theorem put_of_not_mem {key : String} {entries : Keyed α} (h : key ∉ entries.keys) (value : α) :
    entries.put key value = entries ++ [(key, value)] := by
  induction entries with
  | nil => rfl
  | cons e rest ih =>
    rw [keys, List.map_cons, List.mem_cons, not_or] at h
    rw [put, if_neg (Ne.symm h.1), ih h.2, List.cons_append]

/-- A key that is put is among the keys, beside those that were there. -/
theorem mem_keys_put {key other : String} {value : α} {entries : Keyed α} :
    other ∈ (entries.put key value).keys ↔ other = key ∨ other ∈ entries.keys := by
  induction entries with
  | nil => simp only [put, keys, List.map_cons, List.map_nil, List.mem_singleton, List.not_mem_nil,
      or_false]
  | cons e rest ih =>
    obtain ⟨k, v⟩ := e
    rw [put]
    split
    · next hk =>
      simp only [keys, List.map_cons, List.mem_cons, hk]
      tauto
    · simp only [keys, List.map_cons, List.mem_cons] at ih ⊢
      rw [ih]
      tauto

/-- Putting leaves every key at one place. -/
theorem nodup_put {key : String} {value : α} {entries : Keyed α} (h : entries.keys.Nodup) :
    (entries.put key value).keys.Nodup := by
  induction entries with
  | nil => exact List.nodup_singleton key
  | cons e rest ih =>
    obtain ⟨k, v⟩ := e
    rw [keys, List.map_cons, List.nodup_cons] at h
    rw [put]
    split
    · rw [keys, List.map_cons, List.nodup_cons]
      exact h
    · next hk =>
      rw [keys, List.map_cons, List.nodup_cons]
      refine ⟨fun hmem => ?_, ih h.2⟩
      rcases mem_keys_put.mp hmem with heq | hrest
      · exact hk heq
      · exact h.1 hrest

/-- An entry after putting is the new one or was there. -/
theorem mem_of_mem_put {key : String} {value : α} {entries : Keyed α} {e : String × α}
    (h : e ∈ entries.put key value) : e = (key, value) ∨ e ∈ entries := by
  induction entries with
  | nil => exact .inl (List.mem_singleton.mp h)
  | cons f rest ih =>
    obtain ⟨k, v⟩ := f
    rw [put] at h
    split at h
    · next hk =>
      rcases List.mem_cons.mp h with heq | hrest
      · exact .inl (by rw [heq, hk])
      · exact .inr (List.mem_cons_of_mem _ hrest)
    · rcases List.mem_cons.mp h with heq | hrest
      · exact .inr (heq ▸ List.mem_cons_self)
      · rcases ih hrest with heq | hmem
        · exact .inl heq
        · exact .inr (List.mem_cons_of_mem _ hmem)

/-- Entries put one after the other leave every key at one place. -/
theorem nodup_merge {entries : Keyed α} (h : entries.keys.Nodup) (more : Keyed α) :
    (entries.merge more).keys.Nodup := by
  induction more generalizing entries with
  | nil => exact h
  | cons e more ih => exact ih (nodup_put h)

/-- The entries after a merge are those of both lists. -/
theorem mem_of_mem_merge {entries more : Keyed α} {e : String × α} (h : e ∈ entries.merge more) :
    e ∈ entries ∨ e ∈ more := by
  induction more generalizing entries with
  | nil => exact .inl h
  | cons f more ih =>
    rcases ih h with hput | hmore
    · rcases mem_of_mem_put hput with heq | hmem
      · exact .inr (heq ▸ List.mem_cons_self)
      · exact .inl hmem
    · exact .inr (List.mem_cons_of_mem f hmore)

/-- Merging distinct keys appends. -/
theorem merge_of_nodup {entries more : Keyed α} (h : (keys (entries ++ more)).Nodup) :
    entries.merge more = entries ++ more := by
  induction more generalizing entries with
  | nil => rw [List.append_nil]; rfl
  | cons e more ih =>
    have hsplit : entries ++ e :: more = entries ++ [e] ++ more := by
      rw [List.append_assoc, List.singleton_append]
    have hkey : e.1 ∉ entries.keys := by
      rw [keys, List.map_append, List.map_cons] at h
      intro hmem
      exact (List.nodup_append.mp h).2.2 _ hmem _ List.mem_cons_self rfl
    have hput : entries.put e.1 e.2 = entries ++ [e] := put_of_not_mem hkey e.2
    rw [hsplit] at h ⊢
    rw [← ih h, ← hput]
    rfl

/-- A list with each key once is the mapping of its entries. -/
theorem ofList_of_nodup {entries : List (String × α)} (h : (keys entries).Nodup) :
    ofList entries = entries :=
  merge_of_nodup h

/-- What is merged in under other keys leaves the value under a key. -/
theorem get?_merge_of_not_mem {entries more : Keyed α} {key : String} (h : key ∉ more.keys) :
    (entries.merge more).get? key = entries.get? key := by
  induction more generalizing entries with
  | nil => rfl
  | cons e more ih =>
    rw [keys, List.map_cons, List.mem_cons, not_or] at h
    have hrest := @ih (entries.put e.1 e.2) h.2
    rw [get?_put_other h.1] at hrest
    exact hrest

/-- A mapping of entries has each key once. -/
theorem nodup_ofList (entries : List (String × α)) : (keys (ofList entries)).Nodup := by
  refine nodup_merge ?_ entries
  exact List.nodup_nil

/-- The entries of a mapping come from the list. -/
theorem mem_of_mem_ofList {entries : List (String × α)} {e : String × α} (h : e ∈ ofList entries) :
    e ∈ entries := by
  rcases mem_of_mem_merge h with hnil | hmem
  · exact absurd hnil List.not_mem_nil
  · exact hmem

/-- The values under a key. -/
def under (key : String) (entries : Keyed α) : List α :=
  entries.filterMap fun e => if e.1 = key then some e.2 else none

/-- The values under a key are those of its entries. -/
theorem mem_under {key : String} {entries : Keyed α} {value : α} :
    value ∈ entries.under key ↔ (key, value) ∈ entries := by
  rw [under, List.mem_filterMap]
  constructor
  · rintro ⟨⟨k, v⟩, hmem, h⟩
    split at h
    · next hk =>
      obtain rfl := Option.some.inj h
      exact hk ▸ hmem
    · exact (nomatch h)
  · exact fun hmem => ⟨(key, value), hmem, if_pos rfl⟩

/-- What is put under another key leaves the values under a key. -/
theorem under_put_other {key other : String} (h : other ≠ key) (value : α) (entries : Keyed α) :
    (entries.put key value).under other = entries.under other := by
  induction entries with
  | nil => simp [put, under, Ne.symm h]
  | cons e rest ih =>
    obtain ⟨k, v⟩ := e
    rw [put]
    split
    · next hk => simp [under, hk, Ne.symm h]
    · simp only [under, List.filterMap_cons] at ih ⊢
      rw [ih]

/-- What is put under a key takes the place of the first value there. -/
theorem under_put_self (key : String) (value : α) (entries : Keyed α) :
    (entries.put key value).under key = value :: (entries.under key).tail := by
  induction entries with
  | nil => simp [put, under]
  | cons e rest ih =>
    obtain ⟨k, v⟩ := e
    rw [put]
    split
    · next hk => simp [under, hk]
    · next hk =>
      simp only [under, List.filterMap_cons, if_neg hk] at ih ⊢
      exact ih

/-- Entries with the same values under every key have them after the same is put. -/
theorem under_put_congr {entries entries' : Keyed α}
    (h : ∀ key, entries.under key = entries'.under key) (key : String) (value : α) (other : String) :
    (entries.put key value).under other = (entries'.put key value).under other := by
  by_cases hk : other = key
  · rw [hk, under_put_self, under_put_self, h]
  · rw [under_put_other hk, under_put_other hk, h]

/-- They have them after the same is merged in. -/
theorem under_merge_congr (more : Keyed α) {entries entries' : Keyed α}
    (h : ∀ key, entries.under key = entries'.under key) (key : String) :
    (entries.merge more).under key = (entries'.merge more).under key := by
  induction more generalizing entries entries' with
  | nil => exact h key
  | cons e more ih => exact ih (under_put_congr h e.1 e.2)

/-- What is put under two keys may be put in either order. -/
theorem under_put_put {key key' : String} (h : key ≠ key') (value value' : α) (entries : Keyed α)
    (other : String) :
    ((entries.put key value).put key' value').under other =
      ((entries.put key' value').put key value).under other := by
  by_cases hk : other = key
  · subst hk
    rw [under_put_other h, under_put_self, under_put_self, under_put_other h]
  · by_cases hk' : other = key'
    · subst hk'
      rw [under_put_self, under_put_other hk, under_put_other hk, under_put_self]
    · rw [under_put_other hk', under_put_other hk, under_put_other hk, under_put_other hk']

/-- Entries of distinct keys may be merged in in any order. -/
theorem under_merge_perm {more more' : Keyed α} (hp : more.Perm more') (hn : more.keys.Nodup)
    (entries : Keyed α) (key : String) :
    (entries.merge more).under key = (entries.merge more').under key := by
  induction hp generalizing entries with
  | nil => rfl
  | cons e _ ih =>
    rw [keys, List.map_cons, List.nodup_cons] at hn
    exact ih hn.2 _
  | swap e f rest =>
    have hne : f.1 ≠ e.1 := by
      rw [keys, List.map_cons, List.map_cons, List.nodup_cons] at hn
      exact fun heq => hn.1 (heq ▸ List.mem_cons_self)
    exact under_merge_congr rest (under_put_put hne f.2 e.2 entries) key
  | trans hp _ ih ih' => exact (ih hn entries).trans (ih' ((hp.map _).nodup_iff.mp hn) entries)

/-- Merged in any order, entries of distinct keys make the same entries. -/
theorem mem_merge_perm {more more' : Keyed α} (hp : more.Perm more') (hn : more.keys.Nodup)
    (entries : Keyed α) (e : String × α) : e ∈ entries.merge more ↔ e ∈ entries.merge more' := by
  obtain ⟨key, value⟩ := e
  rw [← mem_under, ← mem_under, under_merge_perm hp hn]

end ResourceAtlas.Keyed

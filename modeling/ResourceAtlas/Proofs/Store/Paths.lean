import Mathlib.Data.Set.Finite.Lattice
import ResourceAtlas.Proofs.Keyed
import ResourceAtlas.Store.Place

/-!
# Reading at a path after a change at another one

A change at a path shows below that path and in what lies around it, and nowhere else. Only finitely
many paths lead to something in a value.
-/

namespace ResourceAtlas.Store

variable {f : Value → Value} {v : Value}

/-- The value under a key that was changed. -/
theorem get?_modifyKey_self (f : Value → Value) (name : String) (entries : Keyed Value) :
    Keyed.get? name (modifyKey f name entries) = (Keyed.get? name entries).map f := by
  induction entries with
  | nil => rfl
  | cons e rest ih =>
    obtain ⟨k, w⟩ := e
    by_cases h : k = name <;> simp [modifyKey, Keyed.get?, h, ih]

/-- The value under a key other than the one that was changed. -/
theorem get?_modifyKey_of_ne {name other : String} (h : other ≠ name) (entries : Keyed Value) :
    Keyed.get? other (modifyKey f name entries) = Keyed.get? other entries := by
  induction entries with
  | nil => rfl
  | cons e rest ih =>
    obtain ⟨k, w⟩ := e
    by_cases hk : k = name
    · subst hk
      simp [modifyKey, Keyed.get?, Ne.symm h]
    · simp [modifyKey, Keyed.get?, hk, ih]

/-- A change under a text among keys of any kind is a change of every entry under that text. -/
theorem textEntries_modifyTextKey (f : Value → Value) (name : String)
    (entries : List (Value × Value)) :
    Value.textEntries (modifyTextKey f name entries) =
      (Value.textEntries entries).map fun e => if e.1 = name then (e.1, f e.2) else e := by
  induction entries with
  | nil => rfl
  | cons e rest ih =>
    obtain ⟨k, w⟩ := e
    cases k with
    | text k =>
      by_cases h : k = name
      · simpa [modifyTextKey, Value.textEntries, h] using ih
      · simpa [modifyTextKey, Value.textEntries, h] using ih
    | _ => simpa [modifyTextKey, Value.textEntries] using ih

/-- The value under a key where the entries under another key, or under that one, were changed. -/
theorem get?_map_entries (f : Value → Value) (name other : String) (entries : Keyed Value) :
    Keyed.get? other (entries.map fun e => if e.1 = name then (e.1, f e.2) else e) =
      if other = name then (Keyed.get? other entries).map f else Keyed.get? other entries := by
  induction entries with
  | nil => simp [Keyed.get?]
  | cons e rest ih =>
    obtain ⟨k, w⟩ := e
    by_cases hk : k = name <;> by_cases ho : k = other
    · subst hk ho
      simp [Keyed.get?]
    · subst hk
      simp only [List.map_cons, if_true, Keyed.get?, if_neg ho]
      exact ih
    · subst ho
      simp [Keyed.get?, hk]
    · simp only [List.map_cons, if_neg hk, Keyed.get?, if_neg ho]
      exact ih

/-- What is read at a place that was changed. -/
theorem read?_modify_self (f : Value → Value) (v : Value) (p : Place) :
    p.read? (p.modify f v) = (p.read? v).map f := by
  cases p with
  | key name =>
    cases v with
    | mapping entries => exact get?_modifyKey_self f name entries
    | table entries =>
      show Keyed.get? name (Value.textEntries (modifyTextKey f name entries)) = _
      rw [textEntries_modifyTextKey, get?_map_entries, if_pos rfl]
      rfl
    | _ => rfl
  | index i =>
    cases v with
    | list items => simp [Place.modify, Place.read?]
    | tuple items => simp [Place.modify, Place.read?]
    | _ => rfl

/-- What is read at a place other than the one that was changed. -/
theorem read?_modify_of_ne {p q : Place} (h : q ≠ p) (f : Value → Value) (v : Value) :
    q.read? (p.modify f v) = q.read? v := by
  cases p with
  | key name =>
    cases q with
    | key other =>
      have hne : other ≠ name := fun he => h (congrArg Place.key he)
      cases v with
      | mapping entries => exact get?_modifyKey_of_ne hne entries
      | table entries =>
        show Keyed.get? other (Value.textEntries (modifyTextKey f name entries)) = _
        rw [textEntries_modifyTextKey, get?_map_entries, if_neg hne]
        rfl
      | _ => rfl
    | index j => cases v <;> rfl
  | index i =>
    cases q with
    | key other => cases v <;> rfl
    | index j =>
      have hne : i ≠ j := fun he => h (congrArg Place.index he.symm)
      cases v with
      | list items => simp [Place.modify, Place.read?, hne]
      | tuple items => simp [Place.modify, Place.read?, hne]
      | _ => rfl

/-- What is read from a member of a list on. -/
theorem at?_list_index (items : List Value) (i : Nat) (rest : List Place) :
    at? (.list items) (.index i :: rest) = items[i]?.bind fun w => at? w rest :=
  rfl

/-- The value at a path that goes on. -/
theorem at?_append (v : Value) (p q : List Place) :
    at? v (p ++ q) = (at? v p).bind fun w => at? w q := by
  induction p generalizing v with
  | nil => rfl
  | cons place p ih =>
    show (place.read? v).bind (fun w => at? w (p ++ q)) = _
    simp only [ih]
    exact (Option.bind_assoc _ _ _).symm

/-- The value at a place of the value at a path. -/
theorem at?_concat (v : Value) (p : List Place) (place : Place) :
    at? v (p ++ [place]) = (at? v p).bind place.read? := by
  rw [at?_append]
  congr 1
  funext w
  show (place.read? w).bind some = _
  exact Option.bind_fun_some _

/-- What is read at or below the path of a change. -/
theorem at?_modifyAt_below (f : Value → Value) (v : Value) (p q : List Place) :
    at? (modifyAt f p v) (p ++ q) = (at? v p).bind fun w => at? (f w) q := by
  induction p generalizing v with
  | nil => rfl
  | cons place p ih =>
    show (place.read? (place.modify (modifyAt f p) v)).bind (fun w => at? w (p ++ q)) = _
    rw [read?_modify_self, Option.bind_map]
    show (place.read? v).bind (fun w => at? (modifyAt f p w) (p ++ q)) =
      ((place.read? v).bind fun w => at? w p).bind _
    rw [Option.bind_assoc]
    simp only [ih]

/-- What is read around the path of a change. -/
theorem at?_modifyAt_above (f : Value → Value) (v : Value) (p q : List Place) :
    at? (modifyAt f (p ++ q) v) p = (at? v p).map (modifyAt f q) := by
  induction p generalizing v with
  | nil => rfl
  | cons place p ih =>
    show (place.read? (place.modify (modifyAt f (p ++ q)) v)).bind (fun w => at? w p) = _
    rw [read?_modify_self, Option.bind_map]
    show (place.read? v).bind (fun w => at? (modifyAt f (p ++ q) w) p) =
      ((place.read? v).bind fun w => at? w p).map _
    rw [Option.map_bind]
    simp only [ih]
    rfl

/-- What is read beside the path of a change. -/
theorem at?_modifyAt_beside {p q : List Place} (hp : ¬ p <+: q) (hq : ¬ q <+: p)
    (f : Value → Value) (v : Value) : at? (modifyAt f p v) q = at? v q := by
  induction p generalizing q v with
  | nil => exact absurd List.nil_prefix hp
  | cons place p ih =>
    cases q with
    | nil => exact absurd List.nil_prefix hq
    | cons other q =>
      show (other.read? (place.modify (modifyAt f p) v)).bind (fun w => at? w q) =
        (other.read? v).bind fun w => at? w q
      by_cases h : other = place
      · subst h
        rw [read?_modify_self, Option.bind_map]
        congr 1
        funext w
        exact ih (fun hpre => hp (List.cons_prefix_cons.mpr ⟨rfl, hpre⟩))
          (fun hpre => hq (List.cons_prefix_cons.mpr ⟨rfl, hpre⟩)) w
      · rw [read?_modify_of_ne h]

/-- The places of a value. -/
def places : Value → List Place
  | .list items => (List.range items.length).map .index
  | .tuple items => (List.range items.length).map .index
  | .mapping entries => (Keyed.keys entries).map .key
  | .table entries => (Keyed.keys (Value.textEntries entries)).map .key
  | _ => []

/-- Where something is read there is a place, and what is read is smaller than what it lies in. -/
theorem mem_places {p : Place} {w : Value} (h : p.read? v = some w) :
    p ∈ places v ∧ sizeOf w < sizeOf v := by
  cases p with
  | key name =>
    cases v with
    | mapping entries =>
      have hmem := Keyed.mem_of_get? h
      have hsize := List.sizeOf_lt_of_mem hmem
      refine ⟨List.mem_map_of_mem (List.mem_map.mpr ⟨_, hmem, rfl⟩), ?_⟩
      simp only [Prod.mk.sizeOf_spec, Value.mapping.sizeOf_spec] at hsize ⊢
      omega
    | table entries =>
      have hmem := Keyed.mem_of_get? h
      refine ⟨List.mem_map_of_mem (List.mem_map.mpr ⟨_, hmem, rfl⟩), ?_⟩
      obtain ⟨⟨k, u⟩, hentry, hk⟩ := List.mem_filterMap.mp hmem
      have hsize := List.sizeOf_lt_of_mem hentry
      have hu : u = w := by
        cases k with
        | text k => exact (Prod.mk.inj (Option.some.inj hk)).2
        | _ => exact absurd hk (by simp)
      subst hu
      simp only [Prod.mk.sizeOf_spec, Value.table.sizeOf_spec] at hsize ⊢
      omega
    | _ => exact absurd h (by simp [Place.read?])
  | index i =>
    cases v with
    | list items =>
      have hsize := List.sizeOf_lt_of_mem (List.mem_of_getElem? h)
      refine ⟨List.mem_map_of_mem (List.mem_range.mpr (List.getElem?_eq_some_iff.mp h).1), ?_⟩
      simp only [Value.list.sizeOf_spec]
      omega
    | tuple items =>
      have hsize := List.sizeOf_lt_of_mem (List.mem_of_getElem? h)
      refine ⟨List.mem_map_of_mem (List.mem_range.mpr (List.getElem?_eq_some_iff.mp h).1), ?_⟩
      simp only [Value.tuple.sizeOf_spec]
      omega
    | _ => exact absurd h (by simp [Place.read?])

/-- Finitely many paths lead to something in a value, by induction on its size. -/
theorem finite_occupied (v : Value) : {p : List Place | (at? v p).isSome}.Finite := by
  induction hn : sizeOf v using Nat.strong_induction_on generalizing v with
  | _ n ih =>
    subst hn
    have hcover : {p : List Place | (at? v p).isSome} ⊆ {[]} ∪
        ⋃ place ∈ (places v).toFinset, {p | ∃ rest, p = place :: rest ∧
          ∃ w, place.read? v = some w ∧ (at? w rest).isSome} := by
      intro p hp
      cases p with
      | nil => exact .inl rfl
      | cons place rest =>
        obtain ⟨u, hu⟩ := Option.isSome_iff_exists.mp hp
        obtain ⟨w, hw, hrest⟩ := Option.bind_eq_some_iff.mp hu
        refine .inr (Set.mem_biUnion (List.mem_toFinset.mpr (mem_places hw).1) ?_)
        exact ⟨rest, rfl, w, hw, Option.isSome_iff_exists.mpr ⟨u, hrest⟩⟩
    refine Set.Finite.subset (Set.Finite.union (Set.finite_singleton _) ?_) hcover
    refine Set.Finite.biUnion (Finset.finite_toSet _) fun place _ => ?_
    cases hw : place.read? v with
    | none =>
      refine Set.Finite.subset Set.finite_empty fun p hp => ?_
      obtain ⟨rest, -, w, h, -⟩ := hp
      exact absurd h (by simp)
    | some w =>
      refine Set.Finite.subset ((ih _ (mem_places hw).2 w rfl).image (place :: ·)) fun p hp => ?_
      obtain ⟨rest, rfl, u, hu, hrest⟩ := hp
      obtain rfl := Option.some.inj hu
      exact ⟨rest, hrest, rfl⟩

end ResourceAtlas.Store

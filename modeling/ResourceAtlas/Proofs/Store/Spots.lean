import ResourceAtlas.Proofs.Store.Paths
import ResourceAtlas.Store.Cursor

/-!
# Spots of a store

A spot is a path into one of the documents. What a change at one spot does to what is read at another
one depends on how the two lie to each other: above, below or beside. Finitely many spots of a store
hold something.
-/

namespace ResourceAtlas

namespace Store

/-- A path into a document. -/
structure Spot where
  /-- The document. -/
  document : DocumentId
  /-- The path. -/
  path : List Place
  deriving DecidableEq, Repr

/-- The spot that a path leads to from another one. -/
def Spot.below (p : Spot) (rest : List Place) : Spot :=
  ⟨p.document, p.path ++ rest⟩

/-- A spot lies around another one, or is that spot. -/
def Spot.Above (p q : Spot) : Prop :=
  p.document = q.document ∧ p.path <+: q.path

instance (p q : Spot) : Decidable (p.Above q) :=
  inferInstanceAs (Decidable (_ ∧ _))

/-- What lies at a spot. -/
def read? (s : Store) (p : Spot) : Option Value :=
  (s.documents[p.document]?).bind fun v => at? v p.path

/-- Something lies at a spot. -/
def Occupied (s : Store) (p : Spot) : Prop :=
  (s.read? p).isSome

/-- Change what lies at a spot. -/
def change (s : Store) (p : Spot) (f : Value → Value) : Store :=
  s.modify p.document p.path f

namespace Spot

variable {p q r : Spot}

/-- A spot lies above those that paths lead to from it. -/
theorem above_below (p : Spot) (rest : List Place) : p.Above (p.below rest) :=
  ⟨rfl, List.prefix_append _ _⟩

/-- The spots below a spot are those that it lies above. -/
theorem Above.exists_below (h : p.Above q) : ∃ rest, q = p.below rest := by
  obtain ⟨d, path⟩ := q
  obtain ⟨rfl, rest, hrest⟩ := h
  exact ⟨rest, Spot.mk.injEq _ _ _ _ ▸ ⟨rfl, hrest.symm⟩⟩

/-- A spot lies above itself. -/
theorem above_refl (p : Spot) : p.Above p :=
  ⟨rfl, List.prefix_rfl⟩

/-- What lies above a spot lies above everything below it. -/
theorem Above.trans (h : p.Above q) (h' : q.Above r) : p.Above r :=
  ⟨h.1.trans h'.1, h.2.trans h'.2⟩

/-- Going on by nothing. -/
theorem below_nil (p : Spot) : p.below [] = p := by
  unfold below
  rw [List.append_nil]

/-- Going on twice. -/
theorem below_below (p : Spot) (rest more : List Place) :
    (p.below rest).below more = p.below (rest ++ more) := by
  unfold below
  rw [List.append_assoc]

/-- Different paths lead to different spots. -/
theorem below_inj {rest more : List Place} (h : p.below rest = p.below more) : rest = more :=
  List.append_cancel_left (congrArg path h)

/-- Two spots above a third one lie above each other, one way or the other. -/
theorem Above.total (h : p.Above r) (h' : q.Above r) : p.Above q ∨ q.Above p := by
  rcases List.prefix_or_prefix_of_prefix h.2 h'.2 with hpre | hpre
  · exact .inl ⟨h.1.trans h'.1.symm, hpre⟩
  · exact .inr ⟨h'.1.trans h.1.symm, hpre⟩

/-- What lies above the end of a step lies above its start, or is the end. -/
theorem Above.of_concat {place : Place} (h : q.Above (p.below [place])) :
    q.Above p ∨ q = p.below [place] := by
  rcases List.prefix_concat_iff.mp h.2 with heq | hpre
  · exact .inr (Spot.mk.injEq _ _ _ _ ▸ ⟨h.1, heq⟩)
  · exact .inl ⟨h.1, hpre⟩

/-- The end of a step does not lie above its start. -/
theorem not_concat_above (p : Spot) (place : Place) : ¬ (p.below [place]).Above p := by
  intro h
  have hlen : (p.path ++ [place]).length ≤ p.path.length := h.2.length_le
  rw [List.length_append, List.length_singleton] at hlen
  omega

end Spot

variable {s : Store} {p q : Spot} {f : Value → Value}

/-- What is read below a spot. -/
theorem read?_below (s : Store) (p : Spot) (rest : List Place) :
    s.read? (p.below rest) = (s.read? p).bind fun w => at? w rest := by
  unfold read? Spot.below
  dsimp only
  rw [Option.bind_assoc]
  congr 1
  funext v
  exact at?_append v p.path rest

/-- What lies around something holds something. -/
theorem Occupied.above (h : s.Occupied q) (hp : p.Above q) : s.Occupied p := by
  obtain ⟨rest, rfl⟩ := hp.exists_below
  unfold Occupied at h ⊢
  rw [read?_below] at h
  exact Option.isSome_of_isSome_bind h

/-- What is read at or below a spot that was changed. -/
theorem read?_change_below (s : Store) (p : Spot) (f : Value → Value) (rest : List Place) :
    (s.change p f).read? (p.below rest) = (s.read? p).bind fun w => at? (f w) rest := by
  unfold read? change modify Spot.below
  rw [Array.getElem?_modify, if_pos rfl, Option.bind_map, Option.bind_assoc]
  congr 1
  funext v
  exact at?_modifyAt_below f v p.path rest

/-- What is read at a spot that was changed. -/
theorem read?_change_self (s : Store) (p : Spot) (f : Value → Value) :
    (s.change p f).read? p = (s.read? p).map f := by
  have h := read?_change_below s p f []
  rw [Spot.below_nil] at h
  exact h.trans Option.map_eq_bind.symm

/-- What is read around a spot that was changed. -/
theorem read?_change_above (s : Store) (p : Spot) (f : Value → Value) (rest : List Place) :
    (s.change (p.below rest) f).read? p = (s.read? p).map (modifyAt f rest) := by
  unfold read? change modify Spot.below
  rw [Array.getElem?_modify, if_pos rfl, Option.bind_map, Option.map_bind]
  congr 1
  funext v
  exact at?_modifyAt_above f v p.path rest

/-- What is read beside a spot that was changed. -/
theorem read?_change_beside (hp : ¬ p.Above q) (hq : ¬ q.Above p) :
    (s.change p f).read? q = s.read? q := by
  unfold read? change modify
  dsimp only
  rw [Array.getElem?_modify]
  split
  · next hd =>
    rw [Option.bind_map]
    congr 1
    funext v
    exact at?_modifyAt_beside (fun h => hp ⟨hd, h⟩) (fun h => hq ⟨hd.symm, h⟩) f v
  · rfl

/-- Whether anything is read around a spot does not depend on a change there. -/
theorem occupied_change_above (h : q.Above p) : (s.change p f).Occupied q ↔ s.Occupied q := by
  obtain ⟨rest, rfl⟩ := h.exists_below
  unfold Occupied
  rw [read?_change_above, Option.isSome_map]

/-- Finitely many spots hold something. -/
theorem finite_spots (s : Store) : {p : Spot | s.Occupied p}.Finite := by
  have hcover : {p : Spot | s.Occupied p} ⊆
      ⋃ d ∈ (Finset.range s.documents.size), {p | p.document = d ∧
        (at? (s.document d) p.path).isSome} := by
    intro p hp
    obtain ⟨v, hv⟩ := Option.isSome_iff_exists.mp hp
    obtain ⟨w, hw, hat⟩ := Option.bind_eq_some_iff.mp hv
    have hlt := (Array.getElem?_eq_some_iff.mp hw).1
    refine Set.mem_biUnion (Finset.mem_coe.mpr (Finset.mem_range.mpr hlt)) ⟨rfl, ?_⟩
    have hdoc : s.document p.document = w := by
      rw [document, Array.getD_eq_getD_getElem?, hw]
      rfl
    rw [hdoc, hat]
    rfl
  refine Set.Finite.subset (Set.Finite.biUnion (Finset.finite_toSet _) fun d _ => ?_) hcover
  refine Set.Finite.subset ((finite_occupied (s.document d)).image (Spot.mk d)) fun p hp => ?_
  exact ⟨p.path, hp.2, Spot.mk.injEq _ _ _ _ ▸ ⟨hp.1.symm, rfl⟩⟩

section Append

variable {items : List Value} {new : Value}

/-- Behind the last member of a list nothing lies. -/
theorem not_occupied_end (h : s.read? p = some (.list items)) :
    ¬ s.Occupied (p.below [.index items.length]) := by
  unfold Occupied
  rw [read?_below, h]
  simp [at?, Place.read?]

/-- What is read at or below the member that was added to a list. -/
theorem read?_appended (h : s.read? p = some (.list items)) (new : Value) (rest : List Place) :
    (s.change p (appendMember new)).read? (p.below (.index items.length :: rest)) =
      at? new rest := by
  rw [read?_change_below, h]
  show at? (.list (items ++ [new])) (.index items.length :: rest) = _
  rw [at?_list_index, List.getElem?_append_right (Nat.le_refl _), Nat.sub_self]
  rfl

/-- What is read neither around a list to which a member was added nor in that member. -/
theorem read?_append_other (h : s.read? p = some (.list items)) (new : Value)
    (habove : ¬ q.Above p) (hbelow : ¬ (p.below [.index items.length]).Above q) :
    (s.change p (appendMember new)).read? q = s.read? q := by
  by_cases hp : p.Above q
  · obtain ⟨rest, rfl⟩ := hp.exists_below
    rw [read?_change_below, read?_below, h]
    cases rest with
    | nil =>
      rw [Spot.below_nil] at habove
      exact absurd p.above_refl habove
    | cons place rest =>
      show at? (.list (items ++ [new])) (place :: rest) = at? (.list items) (place :: rest)
      cases place with
      | key name => rfl
      | index j =>
        have hj : j ≠ items.length := by
          rintro rfl
          refine hbelow ?_
          have := (p.below [.index items.length]).above_below rest
          rwa [Spot.below_below] at this
        rw [at?_list_index, at?_list_index]
        rcases Nat.lt_or_gt_of_ne hj with hlt | hgt
        · rw [List.getElem?_append_left hlt]
        · rw [List.getElem?_eq_none (by simpa using Nat.succ_le_of_lt hgt),
            List.getElem?_eq_none (Nat.le_of_lt hgt)]
  · exact read?_change_beside hp habove

/-- Where anything lies after a member was added to a list: where something lay, and in the new
member. -/
theorem occupied_append (h : s.read? p = some (.list items))
    (hbelow : ¬ (p.below [.index items.length]).Above q) :
    (s.change p (appendMember new)).Occupied q ↔ s.Occupied q := by
  by_cases habove : q.Above p
  · exact occupied_change_above habove
  · unfold Occupied
    rw [read?_append_other h new habove hbelow]

/-- What holds something does not lie behind the last member of a list. -/
theorem not_end_above (h : s.read? p = some (.list items)) (hq : s.Occupied q) :
    ¬ (p.below [.index items.length]).Above q :=
  fun habove => not_occupied_end h (hq.above habove)

/-- A list is still one after a member was added to a list, and no shorter. -/
theorem read?_list_append {members : List Value} (hp : s.read? p = some (.list members))
    (h : s.read? q = some (.list items)) (new : Value) :
    ∃ more, (s.change p (appendMember new)).read? q = some (.list more) ∧
      items.length ≤ more.length := by
  by_cases habove : q.Above p
  · obtain ⟨rest, rfl⟩ := habove.exists_below
    rw [read?_change_above, h]
    cases rest with
    | nil => exact ⟨items ++ [new], rfl, by simp⟩
    | cons place rest =>
      cases place with
      | key name => exact ⟨items, rfl, Nat.le_refl _⟩
      | index j => exact ⟨_, rfl, by simp⟩
  · have hq : s.Occupied q := by
      rw [Occupied, h]
      rfl
    exact ⟨items, (read?_append_other hp new habove (not_end_above hp hq)).trans h, Nat.le_refl _⟩

end Append

end Store

end ResourceAtlas

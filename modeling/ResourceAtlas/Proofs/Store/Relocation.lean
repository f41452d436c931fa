import Mathlib.Data.Set.Card
import ResourceAtlas.Proofs.Store.Spots
import ResourceAtlas.Store.Edit

/-!
# What a move of a member keeps

A member that is moved is put at the end of a list and taken out of its own. `Spot.afterMove` tells
where what lay at a spot lies afterwards: the member and all in it at the new place, what came after
it in its list one place further up, everything else where it was. Unless the new place lies in the
member itself, nothing is lost on the way and nothing comes from nowhere.
-/

namespace ResourceAtlas

namespace Store

/-- A path with another index in place of the one that comes after a given path. -/
def reindex (f : Nat → Nat) : List Place → List Place → List Place
  | [], .index j :: rest => .index (f j) :: rest
  | p :: list, q :: rest => if p = q then q :: reindex f list rest else q :: rest
  | _, path => path

/-- The index of a member after the one at an index was taken out. -/
def afterErased (i j : Nat) : Nat :=
  if i < j then j - 1 else j

/-- The index that a member had before the one at an index was taken out. -/
def beforeErased (i j : Nat) : Nat :=
  if j < i then j else j + 1

/-- A path through a member of a list is reindexed. -/
theorem reindex_through (f : Nat → Nat) (list : List Place) (j : Nat) (rest : List Place) :
    reindex f list (list ++ .index j :: rest) = list ++ .index (f j) :: rest := by
  induction list with
  | nil => rfl
  | cons p list ih =>
    show (if p = p then p :: reindex f list (list ++ .index j :: rest) else _) = _
    rw [if_pos rfl, ih]
    rfl

/-- A path through no member of a list stays. -/
theorem reindex_of_not (f : Nat → Nat) {list path : List Place}
    (h : ∀ j rest, path ≠ list ++ .index j :: rest) : reindex f list path = path := by
  induction list generalizing path with
  | nil =>
    cases path with
    | nil => rfl
    | cons q rest =>
      cases q with
      | key name => rfl
      | index j => exact absurd rfl (h j rest)
  | cons p list ih =>
    cases path with
    | nil => rfl
    | cons q rest =>
      unfold reindex
      split
      · next hpq =>
        subst hpq
        rw [ih fun j more he => h j more (congrArg (p :: ·) he)]
      · rfl

/-- A path either leads through a member of a list or it does not. -/
theorem through_or_not (list path : List Place) :
    (∃ j rest, path = list ++ .index j :: rest) ∨
      ∀ j rest, path ≠ list ++ .index j :: rest := by
  by_cases h : ∃ j rest, path = list ++ Place.index j :: rest
  · exact .inl h
  · exact .inr fun j rest he => h ⟨j, rest, he⟩

/-- A step at the end of a path stays the end, unless the path is that of the list itself. -/
theorem reindex_concat (f : Nat → Nat) {list path : List Place} (h : path ≠ list) (place : Place) :
    reindex f list (path ++ [place]) = reindex f list path ++ [place] := by
  rcases through_or_not list path with ⟨j, rest, rfl⟩ | hnot
  · rw [reindex_through, List.append_assoc, List.cons_append, reindex_through, List.append_assoc,
      List.cons_append]
  · rw [reindex_of_not f hnot]
    refine reindex_of_not f fun j rest he => ?_
    cases rest using List.reverseRecOn with
    | nil => exact h (List.append_inj_left' he rfl)
    | append_singleton before last =>
      rw [← List.cons_append, ← List.append_assoc] at he
      exact hnot j before (List.append_inj_left' he rfl)

/-- A path is reindexed without becoming longer or shorter. -/
theorem length_reindex (f : Nat → Nat) (list path : List Place) :
    (reindex f list path).length = path.length := by
  rcases through_or_not list path with ⟨j, rest, rfl⟩ | hnot
  · rw [reindex_through, List.length_append, List.length_append, List.length_cons, List.length_cons]
  · rw [reindex_of_not f hnot]

namespace Spot

/-- A spot after the member at an index of a list was taken out. -/
def afterErase (list : Spot) (i : Nat) (q : Spot) : Spot :=
  if q.document = list.document then ⟨q.document, reindex (afterErased i) list.path q.path⟩ else q

/-- A spot that lay in one member of a list. -/
theorem afterErase_below (list : Spot) (i j : Nat) (rest : List Place) :
    afterErase list i (list.below (.index j :: rest)) =
      list.below (.index (afterErased i j) :: rest) := by
  unfold afterErase below
  rw [if_pos rfl, reindex_through]

/-- A spot that lay in no member of a list. -/
theorem afterErase_of_not (list : Spot) (i : Nat) {q : Spot}
    (h : ∀ j rest, q ≠ list.below (.index j :: rest)) : afterErase list i q = q := by
  unfold afterErase
  split
  · next hd =>
    obtain ⟨d, path⟩ := q
    rw [reindex_of_not]
    intro j rest hpath
    refine h j rest (Spot.mk.injEq _ _ _ _ ▸ ⟨hd, hpath⟩)
  · rfl

/-- A spot lies in a member of a list or it does not. -/
theorem below_or_not (list q : Spot) :
    (∃ j rest, q = list.below (.index j :: rest)) ∨ ∀ j rest, q ≠ list.below (.index j :: rest) := by
  by_cases h : ∃ j rest, q = list.below (Place.index j :: rest)
  · exact .inl h
  · exact .inr fun j rest he => h ⟨j, rest, he⟩

/-- What lies around a list lies in no member of it. -/
theorem Above.ne_below {list q : Spot} (h : q.Above list) (j : Nat) (rest : List Place) :
    q ≠ list.below (.index j :: rest) := by
  rintro rfl
  have hlen : (list.path ++ .index j :: rest).length ≤ list.path.length := h.2.length_le
  rw [List.length_append, List.length_cons] at hlen
  omega

/-- A step at the end stays the end, unless it leads into the list itself. -/
theorem afterErase_concat {list q : Spot} (i : Nat) (h : q ≠ list) (place : Place) :
    afterErase list i (q.below [place]) = (afterErase list i q).below [place] := by
  unfold afterErase below
  dsimp only
  split
  · next hd =>
    rw [reindex_concat]
    intro hpath
    obtain ⟨d, path⟩ := q
    exact h (Spot.mk.injEq _ _ _ _ ▸ ⟨hd, hpath⟩)
  · rfl

/-- The place of a member in its list. -/
theorem above_below_index {list : Spot} {i j : Nat} {rest : List Place} :
    (list.below [.index i]).Above (list.below (.index j :: rest)) ↔ i = j := by
  constructor
  · rintro ⟨-, more, hmore⟩
    have hcancel : [Place.index i] ++ more = .index j :: rest := by
      apply @List.append_cancel_left _ list.path
      rw [← List.append_assoc]
      exact hmore
    exact Place.index.inj (List.cons.inj hcancel).1
  · rintro rfl
    have h := above_below (list.below [.index i]) rest
    rwa [below_below] at h

/-- Spots outside the member that is taken out stay apart. -/
theorem afterErase_injOn (list : Spot) (i : Nat) :
    Set.InjOn (afterErase list i) {q | ¬ (list.below [.index i]).Above q} := by
  intro q hq r hr heq
  rcases below_or_not list q with ⟨j, rest, rfl⟩ | hnq <;>
    rcases below_or_not list r with ⟨k, more, rfl⟩ | hnr
  · rw [afterErase_below, afterErase_below] at heq
    obtain ⟨hplace, hrest⟩ := List.cons.inj (below_inj heq)
    have hj : i ≠ j := fun h => hq (above_below_index.mpr h)
    have hk : i ≠ k := fun h => hr (above_below_index.mpr h)
    have hjk : j = k := by
      have := Place.index.inj hplace
      unfold afterErased at this
      split at this <;> split at this <;> omega
    rw [hjk, hrest]
  · rw [afterErase_below, afterErase_of_not list i hnr] at heq
    exact absurd heq.symm (hnr _ _)
  · rw [afterErase_below, afterErase_of_not list i hnq] at heq
    exact absurd heq (hnq _ _)
  · rwa [afterErase_of_not list i hnq, afterErase_of_not list i hnr] at heq

end Spot

section Erase

variable {s : Store} {list q : Spot} {items : List Value} {i : Nat}

/-- A member other than the one that is taken out. -/
theorem getElem?_afterErased (items : List Value) {i j : Nat} (h : i ≠ j) :
    (items.eraseIdx i)[afterErased i j]? = items[j]? := by
  unfold afterErased
  rw [List.getElem?_eraseIdx]
  split
  · next hlt =>
    rw [if_neg (by omega)]
    congr 1
    omega
  · rw [if_pos (by omega)]

/-- What lies neither around a list from which a member was taken out nor in that member lies where
the spot has gone. -/
theorem read?_erase (h : s.read? list = some (.list items)) (habove : ¬ q.Above list)
    (hout : ¬ (list.below [.index i]).Above q) :
    (s.change list (eraseMember i)).read? (Spot.afterErase list i q) = s.read? q := by
  rcases Spot.below_or_not list q with ⟨j, rest, rfl⟩ | hnot
  · have hj : i ≠ j := fun he => hout (Spot.above_below_index.mpr he)
    rw [Spot.afterErase_below, read?_change_below, read?_below, h]
    show at? (.list (items.eraseIdx i)) _ = at? (.list items) _
    rw [at?_list_index, at?_list_index, getElem?_afterErased items hj]
  · rw [Spot.afterErase_of_not list i hnot]
    by_cases hlist : list.Above q
    · obtain ⟨rest, rfl⟩ := hlist.exists_below
      rw [read?_change_below, read?_below, h]
      cases rest with
      | nil =>
        rw [Spot.below_nil] at habove
        exact absurd list.above_refl habove
      | cons place rest =>
        cases place with
        | key name => rfl
        | index j => exact absurd rfl (hnot j rest)
    · exact read?_change_beside hlist habove

/-- Something lies where a spot has gone exactly if something lay at the spot. -/
theorem occupied_erase (h : s.read? list = some (.list items))
    (hout : ¬ (list.below [.index i]).Above q) :
    (s.change list (eraseMember i)).Occupied (Spot.afterErase list i q) ↔ s.Occupied q := by
  by_cases habove : q.Above list
  · rw [Spot.afterErase_of_not list i habove.ne_below]
    exact occupied_change_above habove
  · unfold Occupied
    rw [read?_erase h habove hout]

/-- Everything that lies in a store from which a member was taken out has gone there from outside that
member. -/
theorem exists_of_occupied_erase (h : s.read? list = some (.list items))
    (hq : (s.change list (eraseMember i)).Occupied q) :
    ∃ p, s.Occupied p ∧ ¬ (list.below [.index i]).Above p ∧ Spot.afterErase list i p = q := by
  have hback : ∃ p, ¬ (list.below [.index i]).Above p ∧ Spot.afterErase list i p = q := by
    rcases Spot.below_or_not list q with ⟨j, rest, rfl⟩ | hnot
    · refine ⟨list.below (.index (beforeErased i j) :: rest), fun habove => ?_, ?_⟩
      · have := Spot.above_below_index.mp habove
        unfold beforeErased at this
        split at this <;> omega
      · rw [Spot.afterErase_below]
        congr 3
        unfold afterErased beforeErased
        split <;> split <;> omega
    · refine ⟨q, fun habove => ?_, Spot.afterErase_of_not list i hnot⟩
      obtain ⟨rest, rfl⟩ := habove.exists_below
      rw [Spot.below_below] at hnot
      exact hnot i rest rfl
  obtain ⟨p, hout, rfl⟩ := hback
  exact ⟨p, (occupied_erase h hout).mp hq, hout, rfl⟩

end Erase

/-- A way to follow what lies in one store into another one, to which something new came at a spot.
Some spots were edited, and so was what lies around them. -/
structure Follows (s t : Store) (edited : Spot → Prop) (new : Spot) (follow : Spot → Spot) :
    Prop where
  /-- What lay at a spot still lies somewhere, unchanged unless something in it was edited. -/
  kept : ∀ p v, s.read? p = some v →
    ∃ w, t.read? (follow p) = some w ∧ ((∀ q, edited q → ¬ p.Above q) → w = v)
  /-- What lay at two spots still lies at two. -/
  apart : Set.InjOn follow {p | s.Occupied p}
  /-- Nothing else lies anywhere, except for what is new. -/
  only : ∀ q, t.Occupied q → new.Above q ∨ ∃ p, s.Occupied p ∧ follow p = q

/-- Where more spots were edited, as much can be followed. -/
theorem Follows.mono {s t : Store} {edited edited' : Spot → Prop} {new : Spot}
    {follow : Spot → Spot} (h : Follows s t edited new follow) (he : ∀ p, edited p → edited' p) :
    Follows s t edited' new follow :=
  ⟨fun p v hp => by
    obtain ⟨w, hw, hsame⟩ := h.kept p v hp
    exact ⟨w, hw, fun hedited => hsame fun q hq => hedited q (he q hq)⟩, h.apart, h.only⟩

/-- Adding a member to the end of a list leaves everything where it is. -/
theorem follows_append {s : Store} {dest : Spot} {items : List Value}
    (hdest : s.read? dest = some (.list items)) (new : Value) {edited : Spot → Prop}
    (hedited : ∀ p, p = dest → edited p) :
    Follows s (s.change dest (appendMember new)) edited (dest.below [.index items.length]) id := by
  constructor
  · intro p v hp
    have hoccupied : s.Occupied p := by
      rw [Occupied, hp]
      rfl
    have hend := not_end_above hdest hoccupied
    have hstays : (s.change dest (appendMember new)).Occupied p :=
      (occupied_append hdest hend).mpr hoccupied
    obtain ⟨w, hw⟩ := Option.isSome_iff_exists.mp hstays
    refine ⟨w, hw, fun h => ?_⟩
    have hsame := read?_append_other hdest new (h dest (hedited dest rfl)) hend
    exact Option.some.inj (hw.symm.trans (hsame.trans hp))
  · exact fun p _ q _ heq => heq
  · intro q hq
    by_cases hend : (dest.below [.index items.length]).Above q
    · exact .inl hend
    · exact .inr ⟨q, (occupied_append hdest hend).mp hq, rfl⟩

/-- A spot after what lay at one spot, and in it, was put at another one. -/
def Spot.graft (old new q : Spot) : Spot :=
  if old.Above q then new.below (q.path.drop old.path.length) else q

/-- A spot after a member of a list was put at another spot and taken out of the list. -/
def Spot.afterMove (list : Spot) (i : Nat) (new q : Spot) : Spot :=
  afterErase list i (graft (list.below [.index i]) new q)

/-- What lay in what was put elsewhere. -/
theorem Spot.graft_below (old new : Spot) (rest : List Place) :
    graft old new (old.below rest) = new.below rest := by
  unfold graft
  rw [if_pos (above_below old rest)]
  congr 1
  exact List.drop_left

/-- What did not lie in what was put elsewhere. -/
theorem Spot.graft_of_not {old new q : Spot} (h : ¬ old.Above q) : graft old new q = q := by
  unfold graft
  rw [if_neg h]

section Move

variable {s : Store} {list dest q : Spot} {members items : List Value} {i : Nat} {item : Value}

/-- A member of a list lies below the list. -/
theorem read?_member (hlist : s.read? list = some (.list members)) (hi : members[i]? = some item) :
    s.read? (list.below [.index i]) = some item := by
  rw [read?_below, hlist]
  show at? (.list members) [.index i] = some item
  rw [at?_list_index, hi]
  rfl

/-- The new place of a member lies outside its old one. -/
theorem not_above_new (hold : s.Occupied (list.below [.index i]))
    (hdest : s.read? dest = some (.list items)) (hout : ¬ (list.below [.index i]).Above dest)
    (rest : List Place) :
    ¬ (list.below [.index i]).Above ((dest.below [.index items.length]).below rest) := by
  intro habove
  rcases habove.total (Spot.above_below _ rest) with hup | hdown
  · rcases hup.of_concat with hdest' | heq
    · exact hout hdest'
    · exact not_occupied_end hdest (heq ▸ hold)
  · exact not_end_above hdest hold hdown

/-- What lies outside a member after it was put at the end of a list lay somewhere before. -/
theorem not_above_graft (hold : s.Occupied (list.below [.index i]))
    (hdest : s.read? dest = some (.list items)) (hout : ¬ (list.below [.index i]).Above dest)
    (q : Spot) : ¬ (list.below [.index i]).Above
      (Spot.graft (list.below [.index i]) (dest.below [.index items.length]) q) := by
  by_cases hq : (list.below [.index i]).Above q
  · obtain ⟨rest, rfl⟩ := hq.exists_below
    rw [Spot.graft_below]
    exact not_above_new hold hdest hout rest
  · rwa [Spot.graft_of_not hq]

/-- What lay in a list or outside it lies at the same spot or in the copy at the end, unchanged unless
it lay around the end. -/
theorem read?_graft (hitem : s.read? (list.below [.index i]) = some item)
    (hdest : s.read? dest = some (.list items)) (hq : s.Occupied q) (habove : ¬ q.Above dest) :
    (s.change dest (appendMember item)).read?
      (Spot.graft (list.below [.index i]) (dest.below [.index items.length]) q) = s.read? q := by
  by_cases hin : (list.below [.index i]).Above q
  · obtain ⟨rest, rfl⟩ := hin.exists_below
    rw [Spot.graft_below, Spot.below_below, read?_below s, hitem]
    exact read?_appended hdest item rest
  · rw [Spot.graft_of_not hin]
    exact read?_append_other hdest item habove (not_end_above hdest hq)

/-- What lay anywhere still lies somewhere after a copy was put at the end of a list. -/
theorem occupied_graft (hitem : s.read? (list.below [.index i]) = some item)
    (hdest : s.read? dest = some (.list items)) (hout : ¬ (list.below [.index i]).Above dest)
    (hq : s.Occupied q) :
    (s.change dest (appendMember item)).Occupied
      (Spot.graft (list.below [.index i]) (dest.below [.index items.length]) q) := by
  by_cases habove : q.Above dest
  · rw [Spot.graft_of_not fun h => hout (h.trans habove)]
    exact (occupied_change_above habove).mpr hq
  · rw [Occupied, read?_graft hitem hdest hq habove]
    exact hq

/-- The copy at the end of a list is no part of what lay anywhere before. -/
theorem graft_injOn (hdest : s.read? dest = some (.list items)) :
    Set.InjOn (Spot.graft (list.below [.index i]) (dest.below [.index items.length]))
      {q | s.Occupied q} := by
  intro q hq r hr heq
  by_cases hqi : (list.below [.index i]).Above q <;> by_cases hri : (list.below [.index i]).Above r
  · obtain ⟨rest, rfl⟩ := hqi.exists_below
    obtain ⟨more, rfl⟩ := hri.exists_below
    rw [Spot.graft_below, Spot.graft_below] at heq
    rw [Spot.below_inj heq]
  · obtain ⟨rest, rfl⟩ := hqi.exists_below
    rw [Spot.graft_below, Spot.graft_of_not hri] at heq
    exact absurd (heq ▸ Spot.above_below _ _) (not_end_above hdest hr)
  · obtain ⟨rest, rfl⟩ := hri.exists_below
    rw [Spot.graft_below, Spot.graft_of_not hqi] at heq
    exact absurd (heq ▸ Spot.above_below _ _) (not_end_above hdest hq)
  · rwa [Spot.graft_of_not hqi, Spot.graft_of_not hri] at heq

/-- What lies outside a member, after a copy of it was put at the end of a list, lay somewhere
before. -/
theorem exists_of_occupied_append (hitem : s.read? (list.below [.index i]) = some item)
    (hdest : s.read? dest = some (.list items))
    (hq : (s.change dest (appendMember item)).Occupied q)
    (hin : ¬ (list.below [.index i]).Above q) :
    ∃ p, s.Occupied p ∧
      Spot.graft (list.below [.index i]) (dest.below [.index items.length]) p = q := by
  by_cases hend : (dest.below [.index items.length]).Above q
  · obtain ⟨rest, rfl⟩ := hend.exists_below
    refine ⟨(list.below [.index i]).below rest, ?_, Spot.graft_below _ _ _⟩
    rw [Spot.below_below] at hq
    rw [Occupied, read?_below, hitem]
    rw [Occupied, List.singleton_append, read?_appended hdest item rest] at hq
    exact hq
  · exact ⟨q, (occupied_append hdest hend).mp hq, Spot.graft_of_not hin⟩

/-- A move to the end of a list outside the member loses nothing: everything can be followed. -/
theorem follows_move (hlist : s.read? list = some (.list members)) (hi : members[i]? = some item)
    (hdest : s.read? dest = some (.list items)) (hout : ¬ (list.below [.index i]).Above dest)
    (new : Spot) :
    Follows s ((s.change dest (appendMember item)).change list (eraseMember i))
      (fun p => p = dest ∨ p = list) new
      (Spot.afterMove list i (dest.below [.index items.length])) := by
  have hitem := read?_member hlist hi
  have hold : s.Occupied (list.below [.index i]) := by
    rw [Occupied, hitem]
    rfl
  obtain ⟨more, hmore, -⟩ := read?_list_append hdest hlist item
  have hgraft := not_above_graft hold hdest hout
  constructor
  · intro p v hp
    have hoccupied : s.Occupied p := by
      rw [Occupied, hp]
      rfl
    have hthere := (occupied_erase hmore (hgraft p)).mpr (occupied_graft hitem hdest hout hoccupied)
    obtain ⟨w, hw⟩ := Option.isSome_iff_exists.mp hthere
    refine ⟨w, hw, fun hedited => ?_⟩
    -- The copy at the end holds none of the lists, as nothing lay there before.
    have habove : ¬ (Spot.graft (list.below [.index i]) (dest.below [.index items.length])
        p).Above list := by
      by_cases hin : (list.below [.index i]).Above p
      · obtain ⟨rest, rfl⟩ := hin.exists_below
        rw [Spot.graft_below]
        exact fun h => not_end_above hdest (hold.above (list.above_below _))
          ((Spot.above_below _ rest).trans h)
      · rw [Spot.graft_of_not hin]
        exact hedited list (.inr rfl)
    have hsame := (read?_erase hmore habove (hgraft p)).trans
      (read?_graft hitem hdest hoccupied (hedited dest (.inl rfl)))
    exact Option.some.inj (hw.symm.trans (hsame.trans hp))
  · intro p hp q hq heq
    exact graft_injOn hdest hp hq (Spot.afterErase_injOn list i (hgraft p) (hgraft q) heq)
  · intro q hq
    obtain ⟨r, hr, hin, rfl⟩ := exists_of_occupied_erase hmore hq
    obtain ⟨p, hp, rfl⟩ := exists_of_occupied_append hitem hdest hr hin
    exact .inr ⟨p, hp, rfl⟩

/-- A change of a member that is not the last one. -/
theorem modify_concat {items : List Value} {j : Nat} (h : j < items.length) (f : Value → Value)
    (last : Value) : (items ++ [last]).modify j f = items.modify j f ++ [last] := by
  induction items generalizing j with
  | nil => exact absurd h (Nat.not_lt_zero j)
  | cons v rest ih =>
    cases j with
    | zero => rfl
    | succ j =>
      rw [List.cons_append, List.modify_succ_cons, List.modify_succ_cons,
        ih (Nat.lt_of_succ_lt_succ h), List.cons_append]

/-- A member that was moved is the last one of the list to which it was moved. -/
theorem read?_move (hlist : s.read? list = some (.list members)) (hi : members[i]? = some item)
    (hdest : s.read? dest = some (.list items)) (hout : ¬ (list.below [.index i]).Above dest) :
    ∃ more, ((s.change dest (appendMember item)).change list (eraseMember i)).read?
        (Spot.afterErase list i dest) = some (.list (more ++ [item])) ∧
      Spot.afterErase list i (dest.below [.index items.length]) =
        (Spot.afterErase list i dest).below [.index more.length] := by
  have hlast : (s.change dest (appendMember item)).read? dest = some (.list (items ++ [item])) := by
    rw [read?_change_self, hdest]
    rfl
  obtain ⟨longer, hmore, -⟩ := read?_list_append hdest hlist item
  have hlt : i < members.length := (List.getElem?_eq_some_iff.mp hi).1
  by_cases hsame : dest = list
  · -- The end of the member's own list moves up by one.
    subst hsame
    obtain rfl := Value.list.inj (Option.some.inj (hlist.symm.trans hdest))
    refine ⟨members.eraseIdx i, ?_, ?_⟩
    · rw [Spot.afterErase_of_not dest i (Spot.above_refl dest).ne_below, read?_change_self, hlast]
      show some (Value.list ((members ++ [item]).eraseIdx i)) = _
      rw [List.eraseIdx_append_of_lt_length hlt]
    · rw [Spot.afterErase_of_not dest i (Spot.above_refl dest).ne_below, Spot.afterErase_below,
        List.length_eraseIdx_of_lt hlt]
      congr 3
      unfold afterErased
      rw [if_pos hlt]
  · have hconcat := Spot.afterErase_concat i hsame (.index items.length)
    by_cases habove : dest.Above list
    · -- A list further out keeps its length, as one of its members holds the other list.
      obtain ⟨rest, rfl⟩ := habove.exists_below
      rw [Spot.afterErase_of_not _ i habove.ne_below] at hconcat ⊢
      rw [read?_change_above, hlast]
      cases rest with
      | nil => exact absurd dest.below_nil.symm hsame
      | cons place rest =>
        rw [read?_below, hdest] at hlist
        cases place with
        | key name => exact absurd hlist (by simp [at?, Place.read?])
        | index j =>
          change at? (.list items) (.index j :: rest) = _ at hlist
          rw [at?_list_index] at hlist
          have hj : j < items.length := by
            rw [← not_le]
            intro hle
            rw [List.getElem?_eq_none hle] at hlist
            exact absurd hlist (by simp)
          refine ⟨items.modify j (modifyAt (eraseMember i) rest), ?_, ?_⟩
          · show some (Value.list ((items ++ [item]).modify j _)) = _
            rw [modify_concat hj]
          · rw [hconcat, List.length_modify]
    · refine ⟨items, ?_, hconcat⟩
      rw [read?_erase hmore habove hout, hlast]

/-- A move into the member itself leaves less behind than there was, so that nothing can be followed
whole. -/
theorem not_follows_move_inside (hlist : s.read? list = some (.list members))
    (hi : members[i]? = some item) (hdest : s.read? dest = some (.list items))
    (hin : (list.below [.index i]).Above dest) {edited : Spot → Prop} {new : Spot}
    {follow : Spot → Spot} :
    ¬ Follows s ((s.change dest (appendMember item)).change list (eraseMember i)) edited new
      follow := by
  intro hfollows
  have hfinite := finite_spots s
  obtain ⟨more, hmore, -⟩ := read?_list_append hdest hlist item
  have hcover : {q | ((s.change dest (appendMember item)).change list
      (eraseMember i)).Occupied q} ⊆
      Spot.afterErase list i '' ({q | s.Occupied q} \ {list.below [.index i]}) := by
    intro q hq
    obtain ⟨p, hp, hout, rfl⟩ := exists_of_occupied_erase hmore hq
    -- What was added lies in the member, so outside the member only what was there can lie.
    have hend : ¬ (dest.below [.index items.length]).Above p :=
      fun h => hout ((hin.trans (dest.above_below _)).trans h)
    exact ⟨p, ⟨(occupied_append hdest hend).mp hp, fun he => hout (he ▸ Spot.above_refl _)⟩, rfl⟩
  have hmember : s.Occupied (list.below [.index i]) := by
    rw [Occupied, read?_member hlist hi]
    rfl
  have hkept : ∀ p ∈ {q | s.Occupied q}, follow p ∈
      {q | ((s.change dest (appendMember item)).change list (eraseMember i)).Occupied q} := by
    intro p hp
    obtain ⟨v, hv⟩ := Option.isSome_iff_exists.mp hp
    obtain ⟨w, hw, -⟩ := hfollows.kept p v hv
    exact Option.isSome_iff_exists.mpr ⟨w, hw⟩
  have hless := calc {q | s.Occupied q}.ncard
      ≤ {q | ((s.change dest (appendMember item)).change list
          (eraseMember i)).Occupied q}.ncard :=
        Set.ncard_le_ncard_of_injOn follow hkept hfollows.apart (finite_spots _)
    _ ≤ (Spot.afterErase list i '' ({q | s.Occupied q} \ {list.below [.index i]})).ncard :=
        Set.ncard_le_ncard hcover (hfinite.sdiff.image _)
    _ ≤ ({q | s.Occupied q} \ {list.below [.index i]}).ncard :=
        Set.ncard_image_le hfinite.sdiff
    _ < {q | s.Occupied q}.ncard := Set.ncard_sdiff_singleton_lt_of_mem hmember hfinite
  exact absurd hless (lt_irrefl _)

end Move

end Store

end ResourceAtlas

import ResourceAtlas.Proofs.Store.Exact
import ResourceAtlas.Proofs.Store.Steady

/-!
# Locations and the members found on the way

A location is found anew at every read, so a change elsewhere may move it. Where a change takes no key
and no index away, all that can go wrong is that a member which was found by a name or an identifier is
no longer the first to fit. `StillFinds` says that this does not happen, and the location stays exactly
then.
-/

namespace ResourceAtlas

open Store

/-- The member at an index fits a wanted value under a key, and no member before it does. -/
def FirstAt (key : String) (wanted : Value) (items : List Value) (i : Nat) : Prop :=
  (∃ item, items[i]? = some item ∧ sameIdentifier (item.member key) wanted = .ok true) ∧
    ∀ j < i, ∀ other, items[j]? = some other →
      sameIdentifier (other.member key) wanted = .ok false

section FirstAt

variable {key : String} {wanted : Value} {items more : List Value} {i : Nat}

/-- The member that is found is the first to fit. -/
theorem findMember_iff : findMember key wanted items = .ok (some i) ↔ FirstAt key wanted items i := by
  constructor
  · exact findMember_some
  · rintro ⟨⟨item, hitem, hfits⟩, hbefore⟩
    exact findMember_of_first hitem hfits hbefore

/-- Where a member fits and all before it can be compared, one of them is the first to fit. -/
theorem exists_firstAt {item : Value} (hitem : items[i]? = some item)
    (hfits : sameIdentifier (item.member key) wanted = .ok true)
    (hbefore : ∀ j < i, ∀ other, items[j]? = some other →
      ∃ fits, sameIdentifier (other.member key) wanted = .ok fits) :
    ∃ first ≤ i, FirstAt key wanted items first := by
  classical
  have hex : ∃ (j : Nat) (item : Value), items[j]? = some item ∧
      sameIdentifier (item.member key) wanted = .ok true := ⟨i, item, hitem, hfits⟩
  have hle : Nat.find hex ≤ i := Nat.find_min' hex ⟨item, hitem, hfits⟩
  refine ⟨Nat.find hex, hle, Nat.find_spec hex, fun j hj other hother => ?_⟩
  obtain ⟨fits, hcompared⟩ := hbefore j (Nat.lt_of_lt_of_le hj hle) other hother
  cases fits with
  | true => exact absurd ⟨other, hother, hcompared⟩ (Nat.find_min hex hj)
  | false => exact hcompared

/-- What is first to fit stays so while it and all before it keep their values under the key. -/
theorem FirstAt.of_same (h : FirstAt key wanted items i) (hlength : items.length = more.length)
    (hsame : ∀ j ≤ i, ∀ item other, items[j]? = some item → more[j]? = some other →
      other.member key = item.member key) : FirstAt key wanted more i := by
  obtain ⟨⟨item, hitem, hfits⟩, hbefore⟩ := h
  have hthere : ∀ {xs ys : List Value} {j : Nat} {x : Value}, xs.length = ys.length →
      xs[j]? = some x → ∃ y, ys[j]? = some y := by
    intro xs ys j x hlength hj
    exact ⟨_, List.getElem?_eq_getElem (hlength ▸ (List.getElem?_eq_some_iff.mp hj).1)⟩
  constructor
  · obtain ⟨other, hother⟩ := hthere hlength hitem
    refine ⟨other, hother, ?_⟩
    rw [hsame i (Nat.le_refl i) item other hitem hother]
    exact hfits
  · intro j hj other hmore
    obtain ⟨was, hwas⟩ := hthere hlength.symm hmore
    rw [hsame j (Nat.le_of_lt hj) was other hwas hmore]
    exact hbefore j hj was hwas

end FirstAt

/-- What is read at an index of a sequence is the member there. -/
theorem Value.read?_index {v : Value} {items : List Value} (h : v.sequence? = some items) (i : Nat) :
    (Place.index i).read? v = items[i]? := by
  cases v with
  | list all =>
    obtain rfl := Option.some.inj h
    rfl
  | tuple all =>
    obtain rfl := Option.some.inj h
    rfl
  | _ => exact (nomatch h)

/-- A value has all keys of another one, and is as long a sequence of the same kind if that is one. -/
structure Value.Covers (v w : Value) : Prop where
  /-- No key is missing. -/
  keys : ∀ key, ((Place.key key).read? v).isSome → ((Place.key key).read? w).isSome
  /-- No member is missing. -/
  members : ∀ items, v.sequence? = some items → ∃ more, w.sequence? = some more ∧
    items.length = more.length ∧ w.fullKindName = v.fullKindName

/-- A value has what it has. -/
theorem Value.covers_refl (v : Value) : v.Covers v :=
  ⟨fun _ h => h, fun items h => ⟨items, h, rfl, rfl⟩⟩

/-- A value that is changed inside has what it had. -/
theorem Value.covers_modify (f : Value → Value) (v : Value) (p : Place) :
    v.Covers (p.modify f v) := by
  constructor
  · intro key h
    by_cases hp : Place.key key = p
    · subst hp
      rw [read?_modify_self, Option.isSome_map]
      exact h
    · rw [read?_modify_of_ne hp]
      exact h
  · intro items h
    cases v with
    | list all =>
      obtain rfl := Option.some.inj h
      cases p with
      | key name => exact ⟨all, rfl, rfl, rfl⟩
      | index i => exact ⟨all.modify i f, rfl, (List.length_modify _ _ _).symm, rfl⟩
    | tuple all =>
      obtain rfl := Option.some.inj h
      cases p with
      | key name => exact ⟨all, rfl, rfl, rfl⟩
      | index i => exact ⟨all.modify i f, rfl, (List.length_modify _ _ _).symm, rfl⟩
    | _ => exact (nomatch h)

namespace Selector

variable {selector : Selector} {v w : Value} {place : Place} {key : String} {wanted : Value}

/-- What a selector seeks a member by: the key, and the value wanted under it. -/
def sought? : Selector → Option (String × Value)
  | name wanted => some ("name", wanted)
  | id wanted => some ("id", wanted)
  | _ => none

/-- Nothing is selected in nothing. -/
theorem place?_null (selector : Selector) : selector.place? .null = .ok none := by
  cases selector <;> rfl

/-- What is sought is selected exactly where it is the first to fit. -/
theorem place?_sought_iff (h : selector.sought? = some (key, wanted)) :
    selector.place? v = .ok (some place) ↔
      ∃ items i, v.sequence? = some items ∧ place = .index i ∧ FirstAt key wanted items i := by
  have hfound : ∀ {items : List Value},
      (findMember key wanted items).map (·.map Place.index) = .ok (some place) ↔
        ∃ i, place = .index i ∧ FirstAt key wanted items i := by
    intro items
    constructor
    · intro hplace
      obtain ⟨found, -, hsome⟩ := map_eq_ok.mp hplace
      obtain ⟨i, -, rfl⟩ := Option.map_eq_some_iff.mp hsome
      exact ⟨i, rfl, findMember_iff.mp (place_eq_ok.mp hplace)⟩
    · rintro ⟨i, rfl, hfirst⟩
      exact place_eq_ok.mpr (findMember_iff.mpr hfirst)
  have hplace : selector.place? v = v.sequence?.elim (.ok none) fun items =>
      (findMember key wanted items).map (·.map Place.index) := by
    cases selector <;> cases h <;>
      · unfold place?
        cases v.sequence? <;> rfl
  rw [hplace]
  cases v.sequence? with
  | none =>
    constructor
    · intro hnone
      cases hnone
    · rintro ⟨items, i, hitems, -⟩
      cases hitems
  | some items =>
    rw [Option.elim_some, hfound]
    constructor
    · rintro ⟨i, hi, hfirst⟩
      exact ⟨items, i, rfl, hi, hfirst⟩
    · rintro ⟨others, i, hitems, hi, hfirst⟩
      obtain rfl := Option.some.inj hitems
      exact ⟨i, hi, hfirst⟩

/-- A place that is selected without seeking is selected in every value that has what this one has. -/
theorem place?_of_covers (hs : selector.sought? = none) (hcovers : v.Covers w)
    (h : selector.place? v = .ok (some place)) : selector.place? w = .ok (some place) := by
  cases selector with
  | property key =>
    obtain ⟨rfl, hread⟩ := place?_property_iff.mp h
    exact place?_property_iff.mpr ⟨rfl, hcovers.keys key hread⟩
  | same => exact (nomatch h)
  | index position =>
    unfold place? at h ⊢
    cases hitems : v.sequence? with
    | none =>
      rw [hitems] at h
      exact (nomatch h)
    | some items =>
      obtain ⟨more, hmore, hlength, hkind⟩ := hcovers.members items hitems
      rw [hitems] at h
      rw [hmore, hkind]
      dsimp only at h ⊢
      rw [← hlength]
      exact h
  | name wanted => exact (nomatch hs)
  | id wanted => exact (nomatch hs)

/-- A value that has what another one had is entered at the same place exactly if the member that is
sought there, if one is, is first to fit. -/
theorem place?_covers_iff (hcovers : v.Covers w) (h : selector.place? v = .ok (some place)) :
    selector.place? w = .ok (some place) ↔ ∀ key wanted, selector.sought? = some (key, wanted) →
      ∃ items i, w.sequence? = some items ∧ place = .index i ∧ FirstAt key wanted items i := by
  cases hsought : selector.sought? with
  | none => exact ⟨fun _ key wanted h => (nomatch h), fun _ => place?_of_covers hsought hcovers h⟩
  | some pair =>
    rw [place?_sought_iff hsought]
    constructor
    · intro hfirst key wanted heq
      obtain rfl := Option.some.inj heq
      exact hfirst
    · exact fun hfirst => hfirst _ _ rfl

end Selector

/-- A spot one step further tells which one and where. -/
theorem Store.Spot.below_single_inj {p q : Spot} {x y : Place} (h : p.below [x] = q.below [y]) :
    p = q ∧ x = y := by
  obtain ⟨hdocument, hpath⟩ := Spot.mk.inj h
  obtain ⟨hpath, hlast⟩ := List.append_inj' hpath rfl
  exact ⟨Spot.mk.injEq _ _ _ _ ▸ ⟨hdocument, hpath⟩, List.singleton_inj.mp hlast⟩

/-- What is read at the position of a spot. -/
theorem Position.read_document (s : Store) (p : Spot) :
    Position.read s ⟨.document p.document, p.path⟩ = (s.read? p).getD .null := by
  cases hread : s.read? p with
  | some v => exact Position.read_of_read? hread
  | none =>
    unfold Position.read Source.value document
    dsimp only
    unfold Store.read? at hread
    rw [Array.getD_eq_getD_getElem?]
    cases hd : s.documents[p.document]? with
    | some v =>
      rw [hd] at hread
      exact congrArg (Option.getD · .null) hread
    | none =>
      -- Nothing lies in a document that is not there, at the root no more than below.
      cases p.path with
      | nil => rfl
      | cons place rest => cases place <;> rfl

namespace Cursor

variable {s t : Store} {c parent : Cursor} {p q r list : Spot} {selector : Selector}

/-- What a location reads that lies at a spot. -/
theorem LiesAt.raw_eq (h : c.LiesAt s p) : c.raw s = .ok ((s.read? p).getD .null) := by
  rw [raw_of_position h, Position.read_document]

/-- A namespace lies where the location around it does. -/
theorem liesAt_same_iff {step : Address.Step} {query : Query.State} :
    (child parent .same step query).LiesAt s p ↔ parent.LiesAt s p :=
  iff_of_eq (congrArg (· = _) (position?_same parent step query))

/-- Where a location lies that selects its value in the one around it. -/
theorem liesAt_child_iff (hs : selector ≠ .same) {step : Address.Step} {query : Query.State} :
    (child parent selector step query).LiesAt s q ↔ ∃ r v place, parent.LiesAt s r ∧
      s.read? r = some v ∧ selector.place? v = .ok (some place) ∧ q = r.below [place] := by
  constructor
  · intro h
    obtain ⟨around, place, haround, hplace, hinside⟩ := position_child_ok hs h
    obtain ⟨source, path⟩ := around
    obtain ⟨rfl, hpath⟩ := Position.mk.inj hinside
    have hread := Position.read_document s ⟨q.document, path⟩
    dsimp only at hread
    rw [hread] at hplace
    cases hv : s.read? ⟨q.document, path⟩ with
    | none =>
      rw [hv, Option.getD_none, Selector.place?_null] at hplace
      exact (nomatch hplace)
    | some v =>
      rw [hv, Option.getD_some] at hplace
      exact ⟨⟨q.document, path⟩, v, place, haround, hv, hplace,
        Spot.mk.injEq _ _ _ _ ▸ ⟨rfl, hpath⟩⟩
  · rintro ⟨r, v, place, hr, hv, hplace, rfl⟩
    rw [← Position.read_of_read? hv] at hplace
    exact position_child hs hr hplace step query

/-- Where something lies at a spot, a location lies one step further exactly if the one around it lies
there and the step is the one that is selected. -/
theorem liesAt_below_iff (hs : selector ≠ .same) {v : Value} (hv : s.read? r = some v) {place : Place}
    {step : Address.Step} {query : Query.State} :
    (child parent selector step query).LiesAt s (r.below [place]) ↔
      parent.LiesAt s r ∧ selector.place? v = .ok (some place) := by
  rw [liesAt_child_iff hs]
  constructor
  · rintro ⟨r', v', place', hr, hv', hplace, heq⟩
    obtain ⟨rfl, rfl⟩ := Spot.below_single_inj heq
    obtain rfl := Option.some.inj (hv.symm.trans hv')
    exact ⟨hr, hplace⟩
  · rintro ⟨hr, hplace⟩
    exact ⟨r, v, place, hr, hv, hplace, rfl⟩

/-- A location lies at the member that it finds in the list around it. -/
theorem LiesAt.found {key : String} {wanted : Value} {items : List Value} {i : Nat}
    (hlist : parent.LiesAt s list) (hitems : s.read? list = some (.list items))
    (hsought : selector.sought? = some (key, wanted))
    (h : findMember key wanted items = .ok (some i)) (step : Address.Step) (query : Query.State) :
    (child parent selector step query).LiesAt s (list.below [.index i]) := by
  have hs : selector ≠ .same := by
    rintro rfl
    exact (nomatch hsought)
  have hplace : selector.place? (.list items) = .ok (some (.index i)) :=
    (Selector.place?_sought_iff hsought).mpr ⟨items, i, rfl, rfl, findMember_iff.mp h⟩
  exact (liesAt_below_iff hs hitems).mpr ⟨hlist, hplace⟩

/-- A location that finds no member is nowhere. -/
theorem LiesAt.unfound {key : String} {wanted : Value} {items : List Value}
    (hlist : parent.LiesAt s list) (hitems : s.read? list = some (.list items))
    (hsought : selector.sought? = some (key, wanted)) (h : findMember key wanted items = .ok none)
    (step : Address.Step) (query : Query.State) :
    (child parent selector step query).position? s = .ok none := by
  have hread : Position.read s ⟨.document list.document, list.path⟩ = .list items :=
    Position.read_of_read? hitems
  cases selector <;> cases hsought <;>
    · rw [position?_child rfl step query hlist, hread]
      unfold Selector.place?
      dsimp only [Value.sequence?]
      rw [h]
      rfl

/-- From nowhere no step leads anywhere. -/
theorem position?_of_nowhere (h : parent.position? s = .ok none) (selector : Selector)
    (step : Address.Step) (query : Query.State) :
    (child parent selector step query).position? s = .ok none :=
  bind_eq_ok.mpr ⟨none, h, rfl⟩

/-- Every member that a location finds by a name or an identifier on its way is, wherever it lies, the
first to fit there in another store too. -/
def StillFinds (s t : Store) : Cursor → Prop
  | child parent selector step query => parent.StillFinds s t ∧
      ∀ key wanted list i, selector.sought? = some (key, wanted) → parent.LiesAt s list →
        (child parent selector step query).LiesAt s (list.below [.index i]) →
        ∃ v items, t.read? list = some v ∧ v.sequence? = some items ∧ FirstAt key wanted items i
  | _ => True

/-- Where everything around the spot of a location has what it had, the location stays at that spot
exactly if it still finds the members on its way, by induction along the way. -/
theorem liesAt_iff_stillFinds (hq : c.LiesAt s q) (hcovers : ∀ r v, r.Above q → r ≠ q →
    s.read? r = some v → ∃ w, t.read? r = some w ∧ v.Covers w) :
    c.LiesAt t q ↔ c.StillFinds s t := by
  induction c generalizing q with
  | root d scheme query => exact ⟨fun _ => trivial, fun _ => hq⟩
  | bound around source steps query => exact ⟨fun _ => trivial, fun _ => hq⟩
  | outside => exact (nomatch hq)
  | child parent selector step query ih =>
    by_cases hs : selector = .same
    · subst hs
      rw [liesAt_same_iff] at hq ⊢
      exact (ih hq hcovers).trans
        (and_iff_left fun key wanted list i hsought => (nomatch hsought)).symm
    obtain ⟨r, v, place, hr, hv, hplace, rfl⟩ := (liesAt_child_iff hs).mp hq
    have hparent : parent.LiesAt t r ↔ parent.StillFinds s t :=
      ih hr fun r' v habove _ => hcovers r' v (habove.trans (r.above_below [place])) fun heq =>
        Spot.not_concat_above r place (heq ▸ habove)
    obtain ⟨w, hw, hcover⟩ := hcovers r v (r.above_below [place])
      (fun heq => Spot.not_concat_above r place (heq ▸ r.above_refl)) hv
    rw [liesAt_below_iff hs hw, hparent, Selector.place?_covers_iff hcover hplace]
    refine and_congr_right fun _ => ?_
    constructor
    · intro h key wanted list i hsought hlist hlies
      obtain rfl := hr.unique hlist
      obtain rfl := List.singleton_inj.mp (Spot.below_inj (hq.unique hlies))
      obtain ⟨items, j, hitems, hj, hfirst⟩ := h key wanted hsought
      obtain rfl := Place.index.inj hj
      exact ⟨w, items, hw, hitems, hfirst⟩
    · intro h key wanted hsought
      obtain ⟨-, i, -, rfl, -⟩ := (Selector.place?_sought_iff hsought).mp hplace
      obtain ⟨w', items, hw', hitems, hfirst⟩ := h key wanted r i hsought hr hq
      obtain rfl := Option.some.inj (hw.symm.trans hw')
      exact ⟨items, i, hitems, rfl, hfirst⟩

end Cursor

end ResourceAtlas

import ResourceAtlas.Proofs.Store.Picked
import ResourceAtlas.Proofs.Value.Render

/-!
# Locations that a change does not move

A change of a list leaves a location above it where it is, if nothing with a bracket is sought on the
way: members before the one on the way stay as they are, and the value by which that one was found is
none that the list lies in, since the text of such a value has a bracket.
-/

namespace ResourceAtlas

open Store

/-- What a list lies in fits nothing without a bracket. -/
theorem not_sameIdentifier_of_holds {v wanted : Value} {path : List Place} {items : List Value}
    (hat : at? v path = some (.list items)) (hw : wanted.Unbracketed) :
    sameIdentifier v wanted ≠ .ok true := by
  have hholds : v.equal wanted = false ∧ v.string? = v.quoted? := by
    cases path with
    | nil =>
      obtain rfl := Option.some.inj hat
      exact ⟨by cases hw <;> simp [Value.equal], rfl⟩
    | cons place rest =>
      obtain ⟨w, hread, -⟩ := Option.bind_eq_some_iff.mp hat
      cases v with
      | list _ => exact ⟨by cases hw <;> simp [Value.equal], rfl⟩
      | tuple _ => exact ⟨by cases hw <;> simp [Value.equal], rfl⟩
      | mapping _ => exact ⟨by cases hw <;> simp [Value.equal], rfl⟩
      | table _ => exact ⟨by cases hw <;> simp [Value.equal], rfl⟩
      | _ => cases place <;> cases hread
  unfold sameIdentifier
  rw [hholds.1, hholds.2]
  split
  · exact fun h => absurd h (by simp)
  · rw [if_neg Bool.false_ne_true]
    intro h
    obtain ⟨x, hx, h⟩ := bind_eq_ok.mp h
    obtain ⟨y, hy, h⟩ := bind_eq_ok.mp h
    obtain rfl := eq_of_beq (Except.ok.inj h)
    have hquoted : ∀ {t : Option String}, writable t = .ok x → t = some x := by
      intro t ht
      cases t with
      | none => cases ht
      | some t => rw [Except.ok.inj ht]
    exact hw.not_mem (hquoted hy) (Value.bracket_mem_of_quoted hat (hquoted hx))

/-- The value under a key is what is read there, nothing where there is none. -/
theorem Value.member_eq_read? (v : Value) (key : String) :
    v.member key = ((Place.key key).read? v).getD .null := by
  cases v <;> rfl

/-- A change of a list inside a member leaves the value that the member was found by. -/
theorem member_modifyAt {item wanted : Value} {key : String} {rest : List Place} {items : List Value}
    (hw : wanted.Unbracketed) (hfits : sameIdentifier (item.member key) wanted = .ok true)
    (hat : at? item rest = some (.list items)) (f : Value → Value) :
    (modifyAt f rest item).member key = item.member key := by
  cases rest with
  | nil =>
    obtain rfl := Option.some.inj hat
    exact (nomatch sequence?_of_sameIdentifier hfits)
  | cons place rest =>
    rw [Value.member_eq_read?, Value.member_eq_read?, modifyAt]
    by_cases hplace : Place.key key = place
    · subst hplace
      obtain ⟨w, hread, hrest⟩ := Option.bind_eq_some_iff.mp hat
      rw [Value.member_eq_read?, hread] at hfits
      exact absurd hfits (not_sameIdentifier_of_holds hrest hw)
    · rw [read?_modify_of_ne hplace]

/-- A member is found where it fits and no member before it does. -/
theorem findMember_of_first {key : String} {wanted item : Value} {items : List Value} {i : Nat}
    (hitem : items[i]? = some item) (hfits : sameIdentifier (item.member key) wanted = .ok true)
    (hbefore : ∀ j < i, ∀ other, items[j]? = some other →
      sameIdentifier (other.member key) wanted = .ok false) :
    findMember key wanted items = .ok (some i) := by
  induction items generalizing i with
  | nil => exact (nomatch hitem)
  | cons first rest ih =>
    cases i with
    | zero =>
      obtain rfl := Option.some.inj hitem
      exact bind_eq_ok.mpr ⟨true, hfits, rfl⟩
    | succ i =>
      refine bind_eq_ok.mpr ⟨false, hbefore 0 (Nat.zero_lt_succ i) first rfl, ?_⟩
      exact map_eq_ok.mpr ⟨some i, ih hitem fun j hj other hother =>
        hbefore (j + 1) (Nat.succ_lt_succ hj) other hother, rfl⟩

/-- A change of a list inside the member that is found leaves it the one. -/
theorem findMember_modify {key : String} {wanted item : Value} {members items : List Value} {i : Nat}
    {rest : List Place} (hw : wanted.Unbracketed)
    (h : findMember key wanted members = .ok (some i)) (hitem : members[i]? = some item)
    (hat : at? item rest = some (.list items)) (f : Value → Value) :
    findMember key wanted (members.modify i (modifyAt f rest)) = .ok (some i) := by
  obtain ⟨⟨found, hfound, hfits⟩, hbefore⟩ := findMember_some h
  obtain rfl := Option.some.inj (hitem.symm.trans hfound)
  have hthere : (members.modify i (modifyAt f rest))[i]? = some (modifyAt f rest item) := by
    rw [List.getElem?_modify_eq, hitem]
    rfl
  refine findMember_of_first hthere ?_ fun j hj other hother => ?_
  · rw [member_modifyAt hw hfits hat]
    exact hfits
  · rw [List.getElem?_modify_ne _ _ (Nat.ne_of_gt hj)] at hother
    exact hbefore j hj other hother

/-- A change of a list inside the place of the member that is found leaves that the place. -/
theorem place_findMember_modify {key : String} {wanted : Value} {members items : List Value}
    {place : Place} {rest : List Place} (hw : wanted.Unbracketed)
    (hplace : (findMember key wanted members).map (·.map Place.index) = .ok (some place))
    (hat : at? (.list members) (place :: rest) = some (.list items)) (f : Value → Value) :
    ∃ i, place = .index i ∧
      findMember key wanted (members.modify i (modifyAt f rest)) = .ok (some i) := by
  obtain ⟨found, hfound, hsome⟩ := map_eq_ok.mp hplace
  obtain ⟨i, rfl, rfl⟩ := Option.map_eq_some_iff.mp hsome
  obtain ⟨item, hitem, hrest⟩ := Option.bind_eq_some_iff.mp hat
  exact ⟨i, rfl, findMember_modify hw hfound hitem hrest f⟩

namespace Selector

/-- Nothing with a bracket is sought. -/
def Unbracketed : Selector → Prop
  | name wanted => wanted.Unbracketed
  | id wanted => wanted.Unbracketed
  | _ => True

/-- A key is selected exactly if it is there. -/
theorem place?_property_iff {v : Value} {key : String} {place : Place} :
    (property key).place? v = .ok (some place) ↔
      place = .key key ∧ ((Place.key key).read? v).isSome := by
  have hsome : ∀ {entries : Keyed Value},
      (Except.ok (if Keyed.has key entries then some (Place.key key) else none) :
        Outcome (Option Place)) = .ok (some place) ↔
      place = .key key ∧ (Keyed.get? key entries).isSome := by
    intro entries
    rw [Except.ok.injEq]
    cases hhas : Keyed.has key entries with
    | true =>
      rw [if_pos rfl, Option.some.injEq]
      exact ⟨fun h => ⟨h.symm, hhas⟩, fun h => h.1.symm⟩
    | false =>
      rw [if_neg Bool.false_ne_true]
      exact ⟨fun h => (nomatch h), fun h => absurd (hhas.symm.trans h.2) Bool.false_ne_true⟩
  cases v with
  | mapping entries => exact hsome
  | table entries => exact hsome
  | _ => exact ⟨fun h => (nomatch h), fun h => (nomatch h.2)⟩

/-- A change of a list inside the place that is selected leaves the place selected. -/
theorem place?_modify {selector : Selector} (hs : selector.Unbracketed) {v : Value} {place : Place}
    {rest : List Place} {items : List Value} (h : selector.place? v = .ok (some place))
    (hat : at? v (place :: rest) = some (.list items)) (f : Value → Value) :
    selector.place? (modifyAt f (place :: rest) v) = .ok (some place) := by
  cases selector with
  | property key =>
    obtain ⟨rfl, hread⟩ := place?_property_iff.mp h
    refine place?_property_iff.mpr ⟨rfl, ?_⟩
    rw [modifyAt, read?_modify_self, Option.isSome_map]
    exact hread
  | same => exact (nomatch h)
  | index position =>
    unfold place? at h
    cases v with
    | list members =>
      obtain ⟨found, hposition, hsome⟩ := map_eq_ok.mp h
      obtain ⟨i, rfl, rfl⟩ := Option.map_eq_some_iff.mp hsome
      refine place_eq_ok.mpr ?_
      rw [← hposition, List.length_modify]
      rfl
    | tuple members =>
      obtain ⟨found, hposition, hsome⟩ := map_eq_ok.mp h
      obtain ⟨i, rfl, rfl⟩ := Option.map_eq_some_iff.mp hsome
      refine place_eq_ok.mpr ?_
      rw [← hposition, List.length_modify]
      rfl
    | _ => exact (nomatch h)
  | name wanted =>
    unfold place? at h
    cases v with
    | list members =>
      obtain ⟨i, rfl, hfind⟩ := place_findMember_modify hs h hat f
      exact place_eq_ok.mpr hfind
    | tuple members =>
      obtain ⟨i, rfl, hfind⟩ := place_findMember_modify hs h (by cases place <;> exact hat) f
      exact place_eq_ok.mpr hfind
    | _ => exact (nomatch h)
  | id wanted =>
    unfold place? at h
    cases v with
    | list members =>
      obtain ⟨i, rfl, hfind⟩ := place_findMember_modify hs h hat f
      exact place_eq_ok.mpr hfind
    | tuple members =>
      obtain ⟨i, rfl, hfind⟩ := place_findMember_modify hs h (by cases place <;> exact hat) f
      exact place_eq_ok.mpr hfind
    | _ => exact (nomatch h)

end Selector

namespace Cursor

variable {s : Store} {c : Cursor}

/-- Nothing with a bracket is sought on the way from the root of a document. -/
def Unbracketed : Cursor → Prop
  | root _ _ _ => True
  | child parent selector _ _ => parent.Unbracketed ∧ selector.Unbracketed
  | _ => False

/-- Another query is no other way. -/
theorem Unbracketed.withQuery (h : c.Unbracketed) (q : Query.State) :
    (c.withQuery q).Unbracketed := by
  cases c <;> exact h

/-- Such a location lies in a document. -/
theorem Unbracketed.documented (h : c.Unbracketed) : c.Documented := by
  induction c with
  | root d scheme q =>
    intro s p hp
    obtain rfl := Option.some.inj (Except.ok.inj hp)
    rfl
  | child parent selector step q ih => exact (ih h.1).child selector step q
  | bound => exact h.elim
  | outside => exact h.elim

/-- A change of a list leaves a location around it where it is, by induction along the way. -/
theorem Unbracketed.position?_change (h : c.Unbracketed) {p : Position} {q : Spot}
    {rest : List Place} {items : List Value} (hp : c.position? s = .ok (some p))
    (hq : p.spot? = some q) (hread : s.read? (q.below rest) = some (.list items))
    (f : Value → Value) :
    c.position? (s.change (q.below rest) f) = .ok (some p) := by
  induction c generalizing p q rest with
  | root d scheme query => exact hp
  | bound => exact h.elim
  | outside => exact h.elim
  | child parent selector step query ih =>
    by_cases hs : selector = .same
    · subst hs
      rw [position?_same] at hp ⊢
      exact ih h.1 hp hq hread
    · obtain ⟨around, place, haround, hplace, rfl⟩ := position_child_ok hs hp
      obtain ⟨r, hr⟩ := Option.isSome_iff_exists.mp (h.1.documented s around haround)
      rw [Position.spot?_inside, hr] at hq
      obtain rfl := Option.some.inj hq
      rw [Spot.below_below] at hread ⊢
      have hstay := ih h.1 haround hr hread
      obtain ⟨v, hv, hat⟩ := Option.bind_eq_some_iff.mp ((s.read?_below r _).symm.trans hread)
      obtain rfl := Position.eq_of_spot? hr
      have hbefore := Position.read_of_read? hv
      have hafter : (s.change (r.below ([place] ++ rest)) f).read? r =
          some (modifyAt f (place :: rest) v) := by
        rw [Store.read?_change_above, hv]
        rfl
      rw [hbefore] at hplace
      refine position_child hs hstay ?_ step query
      rw [Position.read_of_read? hafter]
      exact Selector.place?_modify h.2 hplace hat f

/-- A member that is put at the end of the list at a location leaves the location where it is, and is
the last one there. -/
theorem Unbracketed.appended (h : c.Unbracketed) {there : Position} {items : List Value}
    (hp : c.position? s = .ok (some there)) (hlist : there.read s = .list items) (new : Value) :
    c.position? (there.modify s (appendMember new)) = .ok (some there) ∧
      there.read (there.modify s (appendMember new)) = .list (items ++ [new]) := by
  obtain ⟨q, hq⟩ := Option.isSome_iff_exists.mp (h.documented s there hp)
  have hread := Position.read?_of_read hlist hq
  rw [Position.modify_of_spot? hq]
  constructor
  · rw [← Spot.below_nil q] at hread ⊢
    exact h.position?_change hp hq hread _
  · obtain rfl := Position.eq_of_spot? hq
    refine Position.read_of_read? ?_
    rw [Store.read?_change_self, hread]
    rfl

end Cursor

end ResourceAtlas

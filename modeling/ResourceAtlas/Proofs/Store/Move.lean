import ResourceAtlas.Proofs.Store.Reading
import ResourceAtlas.Proofs.Store.Relocation

/-!
# Moves between positions

A move finds a member of a list and puts it at the end of a list. `NothingLost` says that the member is
then the last one there and that everything else can be followed. It holds exactly if the list at the
destination lies in a document and outside the member.
-/

namespace ResourceAtlas

open Store

/-- The spot of a position in a document. -/
def Position.spot? (p : Position) : Option Spot :=
  match p.source with
  | .document d => some ⟨d, p.path⟩
  | .literal _ => none

/-- A position inside a document lies in another one, or is that one. -/
def Position.Inside (p around : Position) : Prop :=
  ∃ q r, p.spot? = some q ∧ around.spot? = some r ∧ r.Above q

namespace Position

variable {s : Store} {p : Position} {items : List Value}

/-- A list that is read at a position in a document is read at its spot. -/
theorem read?_of_read (h : p.read s = .list items) {q : Spot} (hq : p.spot? = some q) :
    s.read? q = some (.list items) := by
  have hat := at?_of_read h (by simp)
  obtain ⟨source, path⟩ := p
  cases source with
  | literal v => exact absurd hq (by simp [spot?])
  | document d =>
    obtain rfl := Option.some.inj hq
    change at? (s.documents.getD d .null) path = _ at hat
    rw [Array.getD_eq_getD_getElem?] at hat
    unfold Store.read?
    dsimp only
    cases hd : s.documents[d]? with
    | some v =>
      rw [hd] at hat
      exact hat
    | none =>
      rw [hd] at hat
      cases path with
      | nil => exact absurd hat (by simp [at?])
      | cons place path => cases place <;> exact absurd hat (by simp [at?, Place.read?])

/-- The spot of a position inside another one. -/
theorem spot?_inside (p : Position) (place : Place) :
    (p.inside place).spot? = p.spot?.map fun q => q.below [place] := by
  obtain ⟨source, path⟩ := p
  cases source <;> rfl

/-- A change at a position in a document is one at its spot. -/
theorem modify_of_spot? {q : Spot} (h : p.spot? = some q) (f : Value → Value) :
    p.modify s f = s.change q f := by
  obtain ⟨source, path⟩ := p
  cases source with
  | literal v => exact absurd h (by simp [spot?])
  | document d =>
    obtain rfl := Option.some.inj h
    rfl

/-- A value of a cursor's own is not kept. -/
theorem modify_of_none (h : p.spot? = none) (f : Value → Value) : p.modify s f = s := by
  obtain ⟨source, path⟩ := p
  cases source with
  | literal v => rfl
  | document d => exact absurd h (by simp [spot?])

/-- A position in a document lies inside another one exactly if its spot lies below. -/
theorem inside_iff {around : Position} {place : Place} {q r : Spot} (hr : around.spot? = some r)
    (hq : p.spot? = some q) : p.Inside (around.inside place) ↔ (r.below [place]).Above q := by
  unfold Inside
  rw [spot?_inside, hr, hq]
  constructor
  · rintro ⟨q', r', hq', hr', habove⟩
    obtain rfl := Option.some.inj hq'
    obtain rfl := Option.some.inj hr'
    exact habove
  · exact fun habove => ⟨q, _, rfl, rfl, habove⟩

/-- A position in a document is that of its spot. -/
theorem eq_of_spot? {q : Spot} (h : p.spot? = some q) : p = ⟨.document q.document, q.path⟩ := by
  obtain ⟨source, path⟩ := p
  cases source with
  | literal v => exact absurd h (by simp [spot?])
  | document d =>
    obtain rfl := Option.some.inj h
    rfl

/-- What lies at a spot is read at its position. -/
theorem read_of_read? {q : Spot} {v : Value} (h : s.read? q = some v) :
    read s ⟨.document q.document, q.path⟩ = v := by
  obtain ⟨w, hw, hat⟩ := Option.bind_eq_some_iff.mp h
  unfold read Source.value document
  dsimp only
  rw [Array.getD_eq_getD_getElem?, hw]
  exact congrArg (Option.getD · .null) hat

end Position

namespace Cursor

variable {s t : Store} {c destination : Cursor} {m : Member}

/-- A member that was found: its list lies around the location, and the location selects it there. -/
structure Found (c : Cursor) (s : Store) (m : Member) : Prop where
  /-- The list around the location, and how the location selects the member in it. -/
  selected : ∃ parent selector step query, c = .child parent selector step query ∧
    selector.isMember = true ∧ parent.position? s = .ok (some m.list) ∧
    selector.place? (m.list.read s) = .ok (some (.index m.index))
  /-- The list and the member in it. -/
  listed : ∃ items, m.list.read s = .list items ∧ items[m.index]? = some m.item
  /-- The member is something. -/
  isNull_eq : m.item.isNull = false

/-- Where a member was found. -/
theorem Found.position?_eq (h : Found c s m) :
    c.position? s = .ok (some (m.list.inside (.index m.index))) := by
  obtain ⟨parent, selector, step, query, rfl, hs, hp, hplace⟩ := h.selected
  rw [position?_child hs step query hp, hplace]
  rfl

/-- The member lies at the location. -/
theorem Found.raw_eq (h : Found c s m) : c.raw s = .ok m.item := by
  obtain ⟨items, hread, hitem⟩ := h.listed
  have hitems : (m.list.read s).sequence? = some items := by
    rw [hread]
    rfl
  rw [raw_of_position h.position?_eq, Position.read_inside hitems, hitem]
  rfl

/-- What finding a member finds. -/
theorem member_ok (h : c.member s = .ok (.ok m)) : Found c s m := by
  have hmissing : ∀ {f : String → Problem},
      (c.uri.map fun uri => (Except.error (f uri) : Verdict Member)) ≠ .ok (.ok m) := by
    intro f hu
    obtain ⟨uri, -, h⟩ := map_eq_ok.mp hu
    exact (nomatch h)
  unfold member at h
  split at h
  · next hmember =>
    cases c with
    | child parent selector step query =>
      rw [bind_eq_ok] at h
      obtain ⟨item, hraw, h⟩ := h
      rw [bind_eq_ok] at h
      obtain ⟨holder, haround, h⟩ := h
      rw [bind_eq_ok] at h
      obtain ⟨list, hlist, h⟩ := h
      rw [bind_eq_ok] at h
      obtain ⟨here, hhere, h⟩ := h
      split at h
      · next members p q hnull =>
        change parent.position? s = _ at hlist
        change parent.raw s = _ at haround
        rw [raw_of_position hlist] at haround
        have hread := Except.ok.inj haround
        have hchild := position?_child hmember step query hlist
        obtain ⟨place, hplace, hq⟩ := map_eq_ok.mp (hchild.symm.trans hhere)
        obtain ⟨place, rfl, rfl⟩ := Option.map_eq_some_iff.mp hq
        split at h
        · next i hlast =>
          obtain rfl := Except.ok.inj (Except.ok.inj h)
          change (p.path ++ [place]).getLast? = _ at hlast
          rw [List.getLast?_concat] at hlast
          obtain rfl := Option.some.inj hlast
          refine ⟨⟨parent, selector, step, query, rfl, hmember, hlist, hplace⟩,
            ⟨members, hread, ?_⟩, hnull⟩
          have hitem := Except.ok.inj (hraw.symm.trans (raw_of_position hhere))
          have hmembers : (p.read s).sequence? = some members := by
            rw [hread]
            rfl
          rw [Position.read_inside hmembers] at hitem
          show members[i]? = some item
          cases hm : members[i]? with
          | none =>
            rw [hm] at hitem
            subst hitem
            exact absurd hnull (by decide)
          | some v =>
            rw [hm] at hitem
            exact congrArg some hitem.symm
        · exact absurd h hmissing
      · exact absurd h hmissing
    | _ => exact absurd hmember (by simp [isMember])
  · exact absurd h hmissing

/-- A move that can be made: the member, the list at the destination, the address to answer, and the
store to leave. -/
structure Planned (c destination : Cursor) (keys : List MemberKey) (s : Store) (uri : String)
    (t : Store) (m : Member) (there : Position) : Prop where
  /-- The member is found. -/
  found : c.member s = .ok (.ok m)
  /-- The destination is somewhere. -/
  position : destination.position? s = .ok (some there)
  /-- A list lies there. -/
  listed : ∃ items, there.read s = .list items
  /-- The member has an address in it. -/
  possible : ∃ collection index uri, memberUri collection m.item index keys = .ok (some uri)
  /-- The member is put at the end of the list and taken out of its own. -/
  store : t = m.erase (there.modify s (appendMember m.item))
  /-- The address is made from the destination's, the member's value, and the place of the member after
  the move. -/
  address : ∃ items collection answer, there.read s = .list items ∧
    destination.uri = .ok collection ∧
    memberUri collection m.item
      (if samePosition m.list there then items.length - 1 else items.length) keys = .ok answer ∧
    uri = answer.getD ""

/-- A move that is planned can be made. -/
theorem planRelocate_ok {keys : List MemberKey} {uri : String}
    (h : c.planRelocate destination keys s = .ok (.ok (uri, t))) :
    ∃ m there, Planned c destination keys s uri t m there := by
  unfold planRelocate at h
  rw [bind_eq_ok] at h
  obtain ⟨inside, hin, h⟩ := h
  obtain ⟨-, rfl⟩ := within_ok_iff.mp hin
  rw [bind_eq_ok] at h
  obtain ⟨target, hraw, h⟩ := h
  rw [bind_eq_ok] at h
  obtain ⟨position, hposition, h⟩ := h
  split at h
  · next items there =>
    rw [raw_of_position hposition] at hraw
    have hread := Except.ok.inj hraw
    rw [bind_eq_ok] at h
    obtain ⟨collection, huri, h⟩ := h
    rw [bind_eq_ok] at h
    obtain ⟨item, hitem, h⟩ := h
    rw [bind_eq_ok] at h
    obtain ⟨possible, hpossible, h⟩ := h
    split at h
    · exact (nomatch h)
    · rw [bind_eq_ok] at h
      obtain ⟨verdict, hm, h⟩ := h
      split at h
      · exact (nomatch h)
      · next m =>
        rw [bind_eq_ok] at h
        obtain ⟨answer, hanswer, h⟩ := h
        obtain ⟨rfl, rfl⟩ := Prod.mk.inj (Except.ok.inj (Except.ok.inj h))
        obtain rfl := Except.ok.inj (hitem.symm.trans (member_ok hm).raw_eq)
        exact ⟨m, there, hm, hposition, ⟨items, hread⟩, ⟨_, _, _, hpossible⟩, rfl,
          ⟨items, collection, answer, hread, huri, hanswer, rfl⟩⟩
  · exact (nomatch h)

end Cursor

/-- A member that was moved is the last one of the list at the destination, and there alone; whatever
else lay in the documents still does. -/
def NothingLost (s t : Store) (m : Cursor.Member) (there : Position) : Prop :=
  ∃ dest follow more, there.spot? = some dest ∧
    t.read? (follow dest) = some (.list (more ++ [m.item])) ∧
    (∀ list, m.list.spot? = some list →
      follow (list.below [.index m.index]) = (follow dest).below [.index more.length]) ∧
    Follows s t (fun p => there.spot? = some p ∨ m.list.spot? = some p)
      ((follow dest).below [.index more.length]) follow

section Parts

variable {s : Store} {m : Cursor.Member} {there : Position} {dest list : Spot}
  {items members : List Value}

/-- A member of a value of the cursor's own is copied to the end of a list, and nothing is lost. -/
theorem nothingLost_copied (hthere : there.spot? = some dest)
    (hdest : s.read? dest = some (.list items)) (hlist : m.list.spot? = none) :
    NothingLost s (s.change dest (appendMember m.item)) m there := by
  refine ⟨dest, id, items, hthere, ?_, fun list hl => (nomatch hlist.symm.trans hl), ?_⟩
  · rw [id, read?_change_self, hdest]
    rfl
  · exact follows_append hdest m.item fun p hp => hp ▸ .inl hthere

/-- A member of a document is moved to the end of a list outside of it, and nothing is lost. -/
theorem nothingLost_moved (hthere : there.spot? = some dest)
    (hdest : s.read? dest = some (.list items)) (hlist : m.list.spot? = some list)
    (hmember : s.read? list = some (.list members)) (hitem : members[m.index]? = some m.item)
    (hout : ¬ (list.below [.index m.index]).Above dest) :
    NothingLost s ((s.change dest (appendMember m.item)).change list (eraseMember m.index)) m there := by
  obtain ⟨more, hread, hlast⟩ := read?_move hmember hitem hdest hout
  have hsame : Spot.afterMove list m.index (dest.below [.index items.length]) dest =
      Spot.afterErase list m.index dest := by
    rw [Spot.afterMove, Spot.graft_of_not hout]
  refine ⟨dest, Spot.afterMove list m.index (dest.below [.index items.length]), more, hthere, ?_, ?_, ?_⟩
  · rw [hsame, hread]
  · intro other hother
    obtain rfl := Option.some.inj (hlist.symm.trans hother)
    have hgraft := Spot.graft_below (list.below [.index m.index])
      (dest.below [.index items.length]) []
    rw [Spot.below_nil, Spot.below_nil] at hgraft
    rw [hsame, Spot.afterMove, hgraft, hlast]
  · refine (follows_move hmember hitem hdest hout _).mono fun p hp => ?_
    rcases hp with rfl | rfl
    · exact .inl hthere
    · exact .inr hlist

end Parts

/-- A move loses nothing exactly if the list at the destination lies in a document and not in the member
itself. -/
theorem nothingLost_iff {c destination : Cursor} {keys : List MemberKey} {s t : Store}
    {uri : String} {m : Cursor.Member} {there : Position}
    (h : Cursor.Planned c destination keys s uri t m there) :
    NothingLost s t m there ↔
      there.spot?.isSome ∧ ¬ there.Inside (m.list.inside (.index m.index)) := by
  obtain ⟨members, hmembers, hitem⟩ := (Cursor.member_ok h.found).listed
  obtain ⟨items, hitems⟩ := h.listed
  have hstore := h.store
  unfold Cursor.Member.erase at hstore
  cases hthere : there.spot? with
  | none =>
    constructor
    · rintro ⟨dest, -, -, hdest, -⟩
      exact (nomatch hthere.symm.trans hdest)
    · exact fun hsome => absurd hsome.1 (by simp)
  | some dest =>
    have hdest := Position.read?_of_read hitems hthere
    rw [Position.modify_of_spot? hthere] at hstore
    cases hlist : m.list.spot? with
    | none =>
      rw [Position.modify_of_none hlist] at hstore
      subst hstore
      have hout : ¬ there.Inside (m.list.inside (.index m.index)) := by
        rintro ⟨q, r, -, hr, -⟩
        rw [Position.spot?_inside, hlist] at hr
        exact (nomatch hr)
      exact ⟨fun _ => ⟨rfl, hout⟩, fun _ => nothingLost_copied hthere hdest hlist⟩
    | some list =>
      have hmember := Position.read?_of_read hmembers hlist
      rw [Position.modify_of_spot? hlist] at hstore
      subst hstore
      rw [Position.inside_iff hlist hthere]
      constructor
      · rintro ⟨_, _, _, _, -, -, hfollows⟩
        exact ⟨rfl, fun hin => not_follows_move_inside hmember hitem hdest hin hfollows⟩
      · exact fun hout => nothingLost_moved hthere hdest hlist hmember hitem hout.2

/-- Two positions are one place of a document exactly if they have one spot. -/
theorem Cursor.samePosition_iff {p q : Position} {r : Spot} (hq : q.spot? = some r) :
    Cursor.samePosition p q = true ↔ p.spot? = some r := by
  obtain rfl := Position.eq_of_spot? hq
  obtain ⟨source, path⟩ := p
  unfold Cursor.samePosition Position.spot?
  cases source with
  | literal v => exact ⟨fun h => (nomatch h), fun h => (nomatch h)⟩
  | document d =>
    dsimp only
    rw [Bool.and_eq_true, beq_iff_eq, beq_iff_eq]
    constructor
    · rintro ⟨rfl, rfl⟩
      rfl
    · intro h
      exact ⟨congrArg Spot.document (Option.some.inj h), congrArg Spot.path (Option.some.inj h)⟩

/-- Where a position lies once a member was taken out of its list. -/
def Cursor.Member.shift (m : Cursor.Member) (p : Position) : Position :=
  match m.list.spot?, p.spot? with
  | some list, some q =>
    ⟨.document (Spot.afterErase list m.index q).document, (Spot.afterErase list m.index q).path⟩
  | _, _ => p

/-- Taking a member out makes no way longer or shorter. -/
theorem Cursor.Member.length_shift (m : Cursor.Member) (p : Position) :
    (m.shift p).path.length = p.path.length := by
  unfold shift
  split
  · next list q hlist hq =>
    rw [Position.eq_of_spot? hq]
    unfold Spot.afterErase
    split
    · exact length_reindex _ _ _
    · rfl
  · rfl

/-- Where a member is after it was added to the end of a list and taken out of its own: one place ahead if
that is the same list. -/
theorem Cursor.Member.length_afterErase {m : Cursor.Member} {there : Position} {dest list : Spot}
    {s : Store} {items members : List Value} {count : Nat} (hthere : there.spot? = some dest)
    (hdest : s.read? dest = some (.list items)) (hlist : m.list.spot? = some list)
    (hmember : s.read? list = some (.list members)) (hitem : members[m.index]? = some m.item)
    (hlast : Spot.afterErase list m.index (dest.below [.index items.length]) =
      (Spot.afterErase list m.index dest).below [.index count]) :
    count = if Cursor.samePosition m.list there then items.length - 1 else items.length := by
  by_cases hsame : dest = list
  · subst hsame
    have hi : m.index < items.length := by
      obtain rfl := Value.list.inj (Option.some.inj (hmember.symm.trans hdest))
      exact (List.getElem?_eq_some_iff.mp hitem).1
    rw [Spot.afterErase_below, Spot.afterErase_of_not _ _ (Spot.above_refl dest).ne_below] at hlast
    have hplace := List.singleton_inj.mp (Spot.below_inj hlast)
    rw [(Cursor.samePosition_iff hthere).mpr hlist, if_pos rfl, ← Place.index.inj hplace,
      afterErased, if_pos hi]
  · have hfalse : Cursor.samePosition m.list there = false := by
      rw [Bool.eq_false_iff]
      intro htrue
      have hspot := (Cursor.samePosition_iff hthere).mp htrue
      exact hsame (Option.some.inj (hspot.symm.trans hlist))
    rw [Spot.afterErase_concat _ hsame] at hlast
    have hplace := List.singleton_inj.mp (Spot.below_inj hlast)
    rw [hfalse, ← Place.index.inj hplace]
    rfl

/-- A member that was moved to a list outside of it is the last one there, wherever the list lies
then. -/
theorem Cursor.Planned.arrived {c destination : Cursor} {keys : List MemberKey} {s t : Store}
    {uri : String} {m : Cursor.Member} {there : Position}
    (h : Cursor.Planned c destination keys s uri t m there) (hdoc : there.spot?.isSome)
    (hout : ¬ there.Inside (m.list.inside (.index m.index))) :
    ∃ others items, (m.shift there).read t = .list (others ++ [m.item]) ∧
      there.read s = .list items ∧
      others.length =
        if Cursor.samePosition m.list there then items.length - 1 else items.length := by
  obtain ⟨members, hmembers, hitem⟩ := (Cursor.member_ok h.found).listed
  obtain ⟨items, hitems⟩ := h.listed
  obtain ⟨dest, hthere⟩ := Option.isSome_iff_exists.mp hdoc
  have hdest := Position.read?_of_read hitems hthere
  have hstore := h.store
  unfold Cursor.Member.erase at hstore
  rw [Position.modify_of_spot? hthere] at hstore
  cases hlist : m.list.spot? with
  | none =>
    rw [Position.modify_of_none hlist] at hstore
    have hsame : Cursor.samePosition m.list there = false := by
      rw [Bool.eq_false_iff]
      intro hsame
      exact (nomatch hlist.symm.trans ((Cursor.samePosition_iff hthere).mp hsame))
    refine ⟨items, items, ?_, hitems, by rw [hsame]; rfl⟩
    unfold Cursor.Member.shift
    rw [hlist, Position.eq_of_spot? hthere, hstore]
    refine Position.read_of_read? ?_
    rw [read?_change_self, hdest]
    rfl
  | some list =>
    have hmember := Position.read?_of_read hmembers hlist
    rw [Position.modify_of_spot? hlist] at hstore
    rw [Position.inside_iff hlist hthere] at hout
    obtain ⟨more, hread, hlast⟩ := read?_move hmember hitem hdest hout
    refine ⟨more, items, ?_, hitems, m.length_afterErase hthere hdest hlist hmember hitem hlast⟩
    unfold Cursor.Member.shift
    rw [hlist, hthere, hstore]
    exact Position.read_of_read? hread

end ResourceAtlas

import ResourceAtlas.Proofs.Store.Move
import ResourceAtlas.Proofs.Store.Piece

/-!
# Adding a member

What a creation leaves behind that can be made, and the address that it reports. A new member stands
at the end of the list, under the identifier that its properties give or else under one above all
integer identifiers there.
-/

namespace ResourceAtlas

open Address Store Text

/-- The member that properties make among others. -/
def memberOf (entries : List (Value × Value)) (others : List Value) : Value :=
  if Keyed.has "id" (Value.textEntries entries) then Value.ofPairs entries
  else (Value.ofPairs entries).withEntry "id" (.int (nextId others))

namespace Cursor

variable {s t : Store} {c : Cursor}

/-- A creation that can be made: the list, the new member, the address to answer, and the store to
leave. -/
structure Added (c : Cursor) (properties : Value) (keys : List MemberKey) (s : Store) (uri : String)
    (t : Store) (others : List Value) (new : Value) (there : Position) : Prop where
  /-- The location is somewhere. -/
  position : c.position? s = .ok (some there)
  /-- A list lies there. -/
  listed : there.read s = .list others
  /-- The new member is made of the properties. -/
  member : ∃ entries, entriesOf properties = .ok entries ∧ new = memberOf entries others
  /-- The new member is put at the end of the list. -/
  store : t = there.modify s (appendMember new)
  /-- The address is that of the list with the member's piece behind it. -/
  address : ∃ collection piece, c.uri = .ok collection ∧
    pieceOf new others.length keys = .ok (some piece) ∧ uri = addressBehind collection piece

/-- A location that lies somewhere is inside a document. -/
theorem inside_of_position {there : Option Position} (h : c.position? s = .ok there) :
    c.isOutside = false := by
  cases c with
  | outside => exact (nomatch h)
  | _ => rfl

/-- A creation is planned exactly if it can be made. -/
theorem planInsert_ok_iff {properties : Value} {keys : List MemberKey} {uri : String} :
    c.planInsert properties keys s = .ok (.ok (uri, t)) ↔
      ∃ others new there, Added c properties keys s uri t others new there := by
  unfold planInsert
  constructor
  · intro h
    obtain ⟨inside, hin, h⟩ := bind_eq_ok.mp h
    obtain ⟨-, rfl⟩ := within_ok_iff.mp hin
    obtain ⟨target, hraw, h⟩ := bind_eq_ok.mp h
    obtain ⟨collection, huri, h⟩ := bind_eq_ok.mp h
    obtain ⟨position, hposition, h⟩ := bind_eq_ok.mp h
    split at h
    · next others there _ _ =>
      rw [raw_of_position hposition] at hraw
      obtain ⟨entries, hentries, h⟩ := bind_eq_ok.mp h
      obtain ⟨answer, hanswer, h⟩ := bind_eq_ok.mp h
      rw [memberUri_eq] at hanswer
      obtain ⟨found, hfound, rfl⟩ := map_eq_ok.mp hanswer
      cases found with
      | none => exact (nomatch h)
      | some piece =>
        obtain ⟨rfl, rfl⟩ := Prod.mk.inj (Except.ok.inj (Except.ok.inj h))
        exact ⟨others, memberOf entries others, there, hposition, Except.ok.inj hraw,
          ⟨entries, hentries, rfl⟩, rfl, collection, piece, huri, hfound, rfl⟩
    · exact (nomatch h)
  · rintro ⟨others, new, there, hposition, hlisted, ⟨entries, hentries, rfl⟩, rfl, collection, piece,
      huri, hpiece, rfl⟩
    have hin : c.within "insert" = .ok c :=
      within_ok_iff.mpr ⟨inside_of_position hposition, rfl⟩
    have hanswer : memberUri collection (memberOf entries others) others.length keys =
        .ok (some (addressBehind collection piece)) := by
      rw [memberUri_eq, hpiece]
      rfl
    refine bind_eq_ok.mpr ⟨c, hin, bind_eq_ok.mpr ⟨.list others, ?_, bind_eq_ok.mpr ⟨collection, huri,
      bind_eq_ok.mpr ⟨some there, hposition, bind_eq_ok.mpr ⟨entries, hentries,
        bind_eq_ok.mpr ⟨_, hanswer, rfl⟩⟩⟩⟩⟩⟩
    rw [raw_of_position hposition, hlisted]

end Cursor

end ResourceAtlas

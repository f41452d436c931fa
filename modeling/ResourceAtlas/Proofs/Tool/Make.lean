import ResourceAtlas.Proofs.Store.Insert
import ResourceAtlas.Tool

/-!
# Calling the tool that makes members

A call whose arguments give the address of a collection, and properties that can be read, creates a
member with them there.
-/

namespace ResourceAtlas

variable {a : Atlas} {s : Store}

/-- Calling the creation of a node is creating. -/
theorem Specifier.call_create {spec : Specifier} {handler : Option Schema.Handler}
    (h : Keyed.get? "create" spec.node.methods = some (.create handler)) (properties : Value) :
    spec.call a "create" [properties] s =
      ((spec.create a handler properties s).1.map .location,
        (spec.create a handler properties s).2) := by
  have hget : spec.get a "create" = .ok (.method (.create handler)) := by
    unfold get
    rw [if_neg (by decide), h]
  unfold call
  rw [hget]

/-- A creation that can be made answers what the address of the new member resolves to. -/
theorem Specifier.create_added {place : Specifier} (hregistered : place.registered = true)
    {properties : Value} {uri : String} {t : Store} {others : List Value} {new : Value}
    {there : Position}
    (h : Cursor.Added place.cursor properties place.node.memberKeys s uri t others new there) :
    place.create a none properties s = (a.resolve uri, t) := by
  unfold create followed handled Cursor.insert Cursor.Plan.run
  dsimp only
  rw [Cursor.planInsert_ok_iff.mpr ⟨others, new, there, h⟩]
  dsimp only
  rw [lookUp, if_pos hregistered]
  rfl

namespace Tool

/-- Of a mapping the arguments are given that its entries have. -/
theorem isGiven_of_entries {given : Value} {entries : Keyed Value}
    (h : argumentEntries given = .ok entries) (name : String) :
    isGiven given name = .ok (Keyed.has name entries) := by
  cases given with
  | mapping _ => rw [Except.ok.inj h.symm]; rfl
  | table _ => rw [Except.ok.inj h.symm]; rfl
  | _ => exact (nomatch h)

/-- A mapping with an entry counts as something. -/
theorem isTruthy_of_entries {given : Value} {entries : Keyed Value}
    (h : argumentEntries given = .ok entries) (hne : entries ≠ []) : given.isTruthy = true := by
  cases given with
  | mapping _ =>
    obtain rfl := Except.ok.inj h
    exact Bool.not_eq_true' _ ▸ List.isEmpty_eq_false_iff.mpr hne
  | table pairs =>
    obtain rfl := Except.ok.inj h
    cases pairs with
    | nil => exact absurd rfl hne
    | cons pair rest => rfl
  | _ => exact (nomatch h)

/-- A call with the address of a collection and properties that can be read creates a member there. -/
theorem call_make {given : Value} {entries : Keyed Value} {collection : String} {place : Specifier}
    {handler : Option Schema.Handler} {properties : Value}
    (hentries : argumentEntries given = .ok entries)
    (hcollection : argument entries "collection" = .text collection)
    (hplace : a.resolve collection = .ok (.ok place))
    (hcreate : Keyed.get? "create" place.node.methods = some (.create handler))
    (hproperties : propertiesOf (argument entries "properties") = .ok properties) :
    Tool.make.call a given s =
      answering (withUri []) (place.create a handler properties) s := by
  have hhas : Keyed.has "collection" entries = true := by
    unfold argument at hcollection
    cases hget : Keyed.get? "collection" entries with
    | none =>
      rw [hget] at hcollection
      exact (nomatch hcollection)
    | some v =>
      rw [Keyed.has, hget]
      rfl
  have hgiven : given.isTruthy = true := by
    refine isTruthy_of_entries hentries ?_
    rintro rfl
    exact (nomatch hhas)
  have hmissing : Tool.make.missing given = .ok [] := by
    unfold missing
    change ["collection"].filterM _ = _
    simp only [List.filterM, List.filterAuxM, isGiven_of_entries hentries, hhas]
    rfl
  have hfound : resolveWith a (argument entries "collection") "create" = .ok (.ok place) := by
    rw [hcollection]
    refine bind_eq_ok.mpr ⟨collection, rfl, bind_eq_ok.mpr ⟨.ok place, hplace, ?_⟩⟩
    exact if_pos (by rw [Schema.Node.hasMethod, Keyed.has, hcreate]; rfl)
  have hcall : callLocation (place.call a "create" [properties]) s =
      place.create a handler properties s := by
    unfold callLocation
    rw [Specifier.call_create hcreate]
    cases place.create a handler properties s with
    | mk result t => cases result <;> rfl
  unfold call
  rw [if_pos hgiven]
  dsimp only
  rw [hmissing, hentries]
  dsimp only
  unfold run onSpecifier
  rw [hfound, hproperties]
  dsimp only
  unfold answering
  rw [hcall]

end Tool

end ResourceAtlas

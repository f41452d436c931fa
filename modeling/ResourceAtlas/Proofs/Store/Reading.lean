import ResourceAtlas.Proofs.Outcome
import ResourceAtlas.Proofs.Store.Paths
import ResourceAtlas.Store.Cursor

/-!
# What cursors read

A cursor reads the value at its position. A member that is sought by a name or an identifier has one,
so it is no sequence.
-/

namespace ResourceAtlas

open Store

namespace Position

variable {s : Store} {p : Position} {v : Value} {items : List Value}

/-- A value that is read at a position lies there, unless it is nothing. -/
theorem at?_of_read (h : p.read s = v) (hv : v ≠ .null) :
    at? (p.source.value s) p.path = some v := by
  unfold read at h
  cases hat : at? (p.source.value s) p.path with
  | none =>
    rw [hat] at h
    exact absurd h.symm hv
  | some w =>
    rw [hat] at h
    exact congrArg some h

/-- What is read at a position inside a sequence. -/
theorem read_inside (h : (p.read s).sequence? = some items) (i : Nat) :
    (p.inside (.index i)).read s = items[i]?.getD .null := by
  have hne : p.read s ≠ .null := by
    intro hnull
    rw [hnull] at h
    exact (nomatch h)
  unfold inside read
  dsimp only
  rw [at?_concat, at?_of_read rfl hne]
  cases hread : p.read s with
  | list all =>
    rw [hread] at h
    obtain rfl := Option.some.inj h
    rfl
  | tuple all =>
    rw [hread] at h
    obtain rfl := Option.some.inj h
    rfl
  | _ =>
    rw [hread] at h
    exact absurd h (by simp [Value.sequence?])

end Position

/-- A member that is found fits, and no member before it does. -/
theorem findMember_some {key : String} {wanted : Value} {items : List Value} {i : Nat}
    (h : findMember key wanted items = .ok (some i)) :
    (∃ item, items[i]? = some item ∧ sameIdentifier (item.member key) wanted = .ok true) ∧
      ∀ j < i, ∀ other, items[j]? = some other →
        sameIdentifier (other.member key) wanted = .ok false := by
  induction items generalizing i with
  | nil => exact (nomatch h)
  | cons item rest ih =>
    obtain ⟨fits, hfits, h⟩ := bind_eq_ok.mp h
    cases fits with
    | true =>
      obtain rfl := Option.some.inj (Except.ok.inj h)
      exact ⟨⟨item, rfl, hfits⟩, fun j hj => absurd hj (Nat.not_lt_zero j)⟩
    | false =>
      obtain ⟨found, hfound, h⟩ := map_eq_ok.mp h
      obtain ⟨k, rfl, rfl⟩ := Option.map_eq_some_iff.mp h
      obtain ⟨hit, hbefore⟩ := ih hfound
      refine ⟨hit, fun j hj other hother => ?_⟩
      cases j with
      | zero =>
        obtain rfl := Option.some.inj hother
        exact hfits
      | succ j => exact hbefore j (by omega) other hother

/-- What has a value under a key is no sequence. -/
theorem sequence?_of_sameIdentifier {item wanted : Value} {key : String}
    (h : sameIdentifier (item.member key) wanted = .ok true) : item.sequence? = none := by
  cases item with
  | list items => exact absurd h (by simp [Value.member, Value.mapping?, sameIdentifier, Value.isNull])
  | tuple items => exact absurd h (by simp [Value.member, Value.mapping?, sameIdentifier, Value.isNull])
  | _ => rfl

namespace Cursor

variable {s : Store} {c : Cursor} {v : Value}

/-- Whatever is asked of a location is asked inside a document. -/
theorem within_ok_iff {name : String} {d : Cursor} :
    c.within name = .ok d ↔ c.isOutside = false ∧ c = d := by
  unfold within
  cases c.isOutside with
  | true => exact ⟨fun h => (nomatch h), fun h => (nomatch h.1)⟩
  | false => exact ⟨fun h => ⟨rfl, Except.ok.inj h⟩, fun h => congrArg Except.ok h.2⟩

/-- The value at a location that is somewhere. -/
theorem raw_of_position {p : Position} (h : c.position? s = .ok (some p)) :
    c.raw s = .ok (p.read s) := by
  unfold raw
  rw [h]
  rfl

/-- A location that is nowhere reads nothing. -/
theorem raw_of_nowhere (h : c.position? s = .ok none) : c.raw s = .ok .null := by
  unfold raw
  rw [h]
  rfl

/-- A location with a value is somewhere, or its value is nothing. -/
theorem raw_ok (h : c.raw s = .ok v) :
    ∃ position, c.position? s = .ok position ∧
      v = match position with
        | none => .null
        | some p => p.read s := by
  obtain ⟨position, hp, hv⟩ := bind_eq_ok.mp h
  exact ⟨position, hp, (Except.ok.inj hv).symm⟩

/-- A location with a sequence is somewhere. -/
theorem position_of_sequence (h : c.raw s = .ok v) {items : List Value}
    (hv : v.sequence? = some items) : ∃ p, c.position? s = .ok (some p) ∧ p.read s = v := by
  obtain ⟨position, hp, rfl⟩ := raw_ok h
  cases position with
  | none => exact (nomatch hv)
  | some p => exact ⟨p, hp, rfl⟩

/-- Where the member that a selector selects lies. -/
theorem position?_child {parent : Cursor} {selector : Selector} (hs : selector.isMember = true)
    (step : Address.Step) (q : Query.State) {p : Position} (hp : parent.position? s = .ok (some p)) :
    (child parent selector step q).position? s =
      (selector.place? (p.read s)).map fun place => place.map p.inside := by
  unfold position?
  rw [hp]
  cases selector with
  | property key => exact absurd hs (by simp [Selector.isMember])
  | same => exact absurd hs (by simp [Selector.isMember])
  | index position => rfl
  | name wanted => rfl
  | id wanted => rfl

/-- A location in one that has a value is where its selector says. -/
theorem position_child_ok {parent : Cursor} {selector : Selector} (hs : selector ≠ .same)
    {step : Address.Step} {q : Query.State} {here : Position}
    (h : (child parent selector step q).position? s = .ok (some here)) :
    ∃ p place, parent.position? s = .ok (some p) ∧ selector.place? (p.read s) = .ok (some place) ∧
      here = p.inside place := by
  unfold position? at h
  obtain ⟨around, haround, h⟩ := bind_eq_ok.mp h
  cases around with
  | none => exact (nomatch h)
  | some p =>
    cases selector with
    | same => exact absurd rfl hs
    | _ =>
      obtain ⟨place, hplace, h⟩ := bind_eq_ok.mp h
      obtain ⟨place, rfl, rfl⟩ := Option.map_eq_some_iff.mp (Except.ok.inj h)
      exact ⟨p, place, haround, hplace, rfl⟩

/-- A property of a sequence is nothing. -/
theorem not_sequence_of_property {parent : Cursor} {around : Value} {items : List Value}
    (haround : parent.raw s = .ok around) (hitems : around.sequence? = some items) {key : String}
    {step : Address.Step} {q : Query.State}
    (h : (child parent (.property key) step q).raw s = .ok v) : v.sequence? = none := by
  obtain ⟨position, hposition, rfl⟩ := raw_ok h
  cases position with
  | none => rfl
  | some here =>
    obtain ⟨p, place, hp, hplace, -⟩ := position_child_ok (by simp) hposition
    obtain rfl := Except.ok.inj ((raw_of_position hp).symm.trans haround)
    have hnone : (p.read s).mapping? = none := by
      cases hread : p.read s <;> rw [hread] at hitems <;> first
        | rfl
        | exact absurd hitems (by simp [Value.sequence?])
    unfold Selector.place? at hplace
    rw [hnone] at hplace
    exact (nomatch hplace)

/-- What is found by a name or an identifier is no sequence. -/
theorem not_sequence_of_found {p : Position} {key : String} {wanted : Value} {items : List Value}
    (hitems : (p.read s).sequence? = some items) {place : Place}
    (h : (findMember key wanted items).map (·.map Place.index) = .ok (some place)) :
    ((p.inside place).read s).sequence? = none := by
  obtain ⟨found, hfound, h⟩ := map_eq_ok.mp h
  obtain ⟨i, rfl, rfl⟩ := Option.map_eq_some_iff.mp h
  obtain ⟨⟨item, hitem, hsame⟩, -⟩ := findMember_some hfound
  rw [Position.read_inside hitems, hitem]
  exact sequence?_of_sameIdentifier hsame

/-- What is sought by a name or an identifier is no sequence. -/
theorem not_sequence_of_sought {parent : Cursor} {selector : Selector}
    (hs : (∃ wanted, selector = .name wanted) ∨ ∃ wanted, selector = .id wanted)
    {step : Address.Step} {q : Query.State} (h : (child parent selector step q).raw s = .ok v) :
    v.sequence? = none := by
  have hne : selector ≠ .same := by
    rcases hs with ⟨wanted, rfl⟩ | ⟨wanted, rfl⟩ <;> simp
  obtain ⟨position, hposition, rfl⟩ := raw_ok h
  cases position with
  | none => rfl
  | some here =>
    obtain ⟨p, place, -, hplace, rfl⟩ := position_child_ok hne hposition
    cases hitems : (p.read s).sequence? with
    | none =>
      rcases hs with ⟨wanted, rfl⟩ | ⟨wanted, rfl⟩ <;>
        · unfold Selector.place? at hplace
          rw [hitems] at hplace
          exact (nomatch hplace)
    | some items =>
      rcases hs with ⟨wanted, rfl⟩ | ⟨wanted, rfl⟩ <;>
        · unfold Selector.place? at hplace
          rw [hitems] at hplace
          exact not_sequence_of_found hitems hplace

end Cursor

end ResourceAtlas

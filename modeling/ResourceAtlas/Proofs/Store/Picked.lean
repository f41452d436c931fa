import ResourceAtlas.Proofs.Store.Move

/-!
# The member that a location picks

A location picks the last member of a list if it stands in the list and selects that member: by its
index, or by a name or an identifier that no member before it fits. How long the way to a location is
does not depend on what lies there.
-/

namespace ResourceAtlas

open Store

/-- A member fits a wanted value under a key, and none of the others before it does. -/
def FirstToFit (key : String) (wanted : Value) (others : List Value) (item : Value) : Prop :=
  sameIdentifier (item.member key) wanted = .ok true ∧
    ∀ other ∈ others, sameIdentifier (other.member key) wanted = .ok false

/-- The last member is found exactly if it is the first to fit. -/
theorem findMember_last_iff {key : String} {wanted item : Value} {others : List Value} :
    findMember key wanted (others ++ [item]) = .ok (some others.length) ↔
      FirstToFit key wanted others item := by
  constructor
  · intro h
    obtain ⟨⟨found, hfound, hfits⟩, hbefore⟩ := findMember_some h
    rw [List.getElem?_concat_length] at hfound
    obtain rfl := Option.some.inj hfound
    refine ⟨hfits, fun other hother => ?_⟩
    obtain ⟨j, hj, rfl⟩ := List.getElem_of_mem hother
    refine hbefore j hj _ ?_
    rw [List.getElem?_append_left hj, List.getElem?_eq_getElem hj]
  · rintro ⟨hfits, hbefore⟩
    induction others with
    | nil => exact bind_eq_ok.mpr ⟨true, hfits, rfl⟩
    | cons other others ih =>
      refine bind_eq_ok.mpr ⟨false, hbefore other List.mem_cons_self, ?_⟩
      exact map_eq_ok.mpr ⟨_, ih fun o ho => hbefore o (List.mem_cons_of_mem other ho), rfl⟩

namespace Selector

/-- A selector selects the last member of a list. -/
def Picks (others : List Value) (item : Value) : Selector → Prop
  | property _ => False
  | same => False
  | index position =>
    findPosition position "list" (others.length + 1) = .ok (some others.length)
  | name wanted => FirstToFit "name" wanted others item
  | id wanted => FirstToFit "id" wanted others item

/-- Only a selector of members selects one. -/
theorem Picks.ne_same {selector : Selector} {others : List Value} {item : Value}
    (h : selector.Picks others item) : selector ≠ .same := by
  rintro rfl
  exact h

/-- An index was found exactly if its place was. -/
theorem place_eq_ok {found : Outcome (Option Nat)} {i : Nat} :
    found.map (·.map Place.index) = .ok (some (.index i)) ↔ found = .ok (some i) := by
  rw [map_eq_ok]
  constructor
  · rintro ⟨position, rfl, h⟩
    obtain ⟨j, rfl, hj⟩ := Option.map_eq_some_iff.mp h
    rw [Place.index.inj hj]
  · exact fun h => ⟨some i, h, rfl⟩

/-- The place of the last member is selected exactly by what picks the member. -/
theorem place?_last_iff {selector : Selector} {others : List Value} {item : Value} :
    selector.place? (.list (others ++ [item])) = .ok (some (.index others.length)) ↔
      selector.Picks others item := by
  cases selector with
  | property key => exact ⟨fun h => (nomatch h), False.elim⟩
  | same => exact ⟨fun h => (nomatch h), False.elim⟩
  | index position =>
    have hlength : (others ++ [item]).length = others.length + 1 := List.length_append
    exact place_eq_ok.trans (iff_of_eq (by rw [hlength]; rfl))
  | name wanted => exact place_eq_ok.trans findMember_last_iff
  | id wanted => exact place_eq_ok.trans findMember_last_iff

/-- The index after all others is that of the last member. -/
theorem picks_last_index (others : List Value) (item : Value) :
    (index (.int others.length)).Picks others item := by
  have hinside : (0 : Int) ≤ others.length ∧ (others.length : Int) < ↑(others.length + 1) := by
    omega
  unfold Picks findPosition
  dsimp only
  rw [if_pos hinside]
  rfl

end Selector

/-- A position inside another one tells which one and where. -/
theorem Position.inside_inj {p q : Position} {here there : Place}
    (h : p.inside here = q.inside there) : p = q ∧ here = there := by
  obtain ⟨source, path⟩ := p
  obtain ⟨source', path'⟩ := q
  obtain ⟨rfl, hpath⟩ := Position.mk.inj h
  obtain ⟨rfl, hplace⟩ := List.append_inj' hpath rfl
  exact ⟨rfl, List.singleton_inj.mp hplace⟩

/-- A position inside another one is one step further. -/
theorem Position.length_inside (p : Position) (place : Place) :
    (p.inside place).path.length = p.path.length + 1 :=
  List.length_append

namespace Cursor

variable {s t : Store} {c : Cursor} {p q list : Position} {others : List Value} {item : Value}

/-- The location at which namespaces on the way end: they stay where they are. -/
def grounded : Cursor → Cursor
  | child parent .same _ _ => parent.grounded
  | c => c

/-- Staying is where the location around is. -/
theorem position?_same (parent : Cursor) (step : Address.Step) (query : Query.State) :
    (child parent .same step query).position? s = parent.position? s := by
  rw [position?]
  cases parent.position? s with
  | error f => rfl
  | ok position => cases position <;> rfl

/-- Namespaces do not change where a location is. -/
theorem position?_grounded (c : Cursor) : c.grounded.position? s = c.position? s := by
  induction c with
  | child parent selector step query ih =>
    cases selector with
    | same => exact ih.trans (position?_same parent step query).symm
    | _ => rfl
  | _ => rfl

/-- Where namespaces end no namespace stands. -/
theorem grounded_ne_same (c parent : Cursor) (step : Address.Step) (query : Query.State) :
    c.grounded ≠ child parent .same step query := by
  induction c with
  | child above selector step' query' ih =>
    cases selector with
    | same => exact ih
    | _ => exact fun h => (nomatch h)
  | _ => exact fun h => (nomatch h)

/-- Where a selected location lies. -/
theorem position_child {parent : Cursor} {selector : Selector} {place : Place}
    (hs : selector ≠ .same) (hp : parent.position? s = .ok (some p))
    (hplace : selector.place? (p.read s) = .ok (some place)) (step : Address.Step)
    (query : Query.State) :
    (child parent selector step query).position? s = .ok (some (p.inside place)) := by
  rw [position?]
  refine bind_eq_ok.mpr ⟨some p, hp, ?_⟩
  cases selector with
  | same => exact absurd rfl hs
  | _ => exact bind_eq_ok.mpr ⟨some place, hplace, rfl⟩

/-- A location is at the last member of a list exactly if it stands in the list and picks that
member. -/
theorem position_last_iff {parent : Cursor} {selector : Selector} {step : Address.Step}
    {query : Query.State} (hs : selector ≠ .same) (hlist : list.read s = .list (others ++ [item])) :
    (child parent selector step query).position? s =
        .ok (some (list.inside (.index others.length))) ↔
      parent.position? s = .ok (some list) ∧ selector.Picks others item := by
  constructor
  · intro h
    obtain ⟨p, place, hp, hplace, hinside⟩ := position_child_ok hs h
    obtain ⟨rfl, rfl⟩ := Position.inside_inj hinside
    rw [hlist] at hplace
    exact ⟨hp, Selector.place?_last_iff.mp hplace⟩
  · rintro ⟨hp, hpicks⟩
    refine position_child hs hp ?_ step query
    rw [hlist]
    exact Selector.place?_last_iff.mpr hpicks

/-- A location picks the last member of a list: up to namespaces, it stands in the list and selects
that member. -/
def Picks (c : Cursor) (s : Store) (list : Position) (others : List Value) (item : Value) : Prop :=
  ∃ parent selector step query, c.grounded = child parent selector step query ∧
    parent.position? s = .ok (some list) ∧ selector.Picks others item

/-- A location is at the last member of a list exactly if it picks it. -/
theorem picks_iff (hlist : list.read s = .list (others ++ [item])) :
    c.position? s = .ok (some (list.inside (.index others.length))) ↔
      c.Picks s list others item := by
  rw [← position?_grounded]
  constructor
  · intro h
    have hempty : ∀ source, (⟨source, []⟩ : Position) ≠ list.inside (.index others.length) :=
      fun source heq => List.concat_ne_nil _ _ (Position.mk.inj heq).2.symm
    cases hc : c.grounded with
    | child parent selector step query =>
      have hs : selector ≠ .same := by
        rintro rfl
        exact grounded_ne_same c parent step query hc
      rw [hc] at h
      obtain ⟨hp, hpicks⟩ := (position_last_iff hs hlist).mp h
      exact ⟨parent, selector, step, query, hc, hp, hpicks⟩
    | root d scheme query =>
      rw [hc] at h
      exact absurd (Option.some.inj (Except.ok.inj h)) (hempty _)
    | bound parent source steps query =>
      rw [hc] at h
      exact absurd (Option.some.inj (Except.ok.inj h)) (hempty _)
    | outside =>
      rw [hc] at h
      exact (nomatch h)
  · rintro ⟨parent, selector, step, query, hc, hp, hpicks⟩
    rw [hc]
    exact (position_last_iff hpicks.ne_same hlist).mpr ⟨hp, hpicks⟩

/-- The way to a location is equally long in every store. -/
theorem length_path_eq (hp : c.position? s = .ok (some p)) (hq : c.position? t = .ok (some q)) :
    p.path.length = q.path.length := by
  induction c generalizing p q with
  | root d scheme query =>
    obtain rfl := Option.some.inj (Except.ok.inj hp)
    obtain rfl := Option.some.inj (Except.ok.inj hq)
    rfl
  | bound parent source steps query =>
    obtain rfl := Option.some.inj (Except.ok.inj hp)
    obtain rfl := Option.some.inj (Except.ok.inj hq)
    rfl
  | child parent selector step query ih =>
    by_cases hs : selector = .same
    · subst hs
      rw [position?_same] at hp hq
      exact ih hp hq
    · obtain ⟨p, place, hp', -, rfl⟩ := position_child_ok hs hp
      obtain ⟨q, place', hq', -, rfl⟩ := position_child_ok hs hq
      rw [Position.length_inside, Position.length_inside, ih hp' hq']
  | outside => exact (nomatch hp)

/-- A location as far from the root as a list is at no member of the list. -/
theorem ne_inside_of_length (hp : c.position? s = .ok (some p))
    (hlength : p.path.length = list.path.length) (place : Place) :
    c.position? t ≠ .ok (some (list.inside place)) := by
  intro h
  have hsame := length_path_eq hp h
  rw [Position.length_inside] at hsame
  omega

/-- From a location as far from the root as a list, one step leads to the last member exactly if the
location is the list's and the step picks the member. -/
theorem position_step_iff (hlist : list.read t = .list (others ++ [item]))
    (hp : c.position? s = .ok (some p)) (hlength : p.path.length = list.path.length)
    (selector : Selector) (step : Address.Step) (query : Query.State) :
    (child c selector step query).position? t =
        .ok (some (list.inside (.index others.length))) ↔
      c.position? t = .ok (some list) ∧ selector.Picks others item := by
  by_cases hs : selector = .same
  · subst hs
    rw [position?_same]
    exact ⟨fun h => absurd h (ne_inside_of_length hp hlength _), fun h => h.2.elim⟩
  · exact position_last_iff hs hlist

/-- Two steps lead further than to a member. -/
theorem ne_inside_of_two_steps (hp : c.position? s = .ok (some p))
    (hlength : p.path.length = list.path.length) {selector selector' : Selector}
    (hs : selector ≠ .same) (hs' : selector' ≠ .same) (step step' : Address.Step)
    (query query' : Query.State) (place : Place) :
    (child (child c selector step query) selector' step' query').position? t ≠
      .ok (some (list.inside place)) := by
  intro h
  obtain ⟨q, place', hq, -, hinside⟩ := position_child_ok hs' h
  obtain ⟨rfl, -⟩ := Position.inside_inj hinside
  obtain ⟨r, place'', hr, -, rfl⟩ := position_child_ok hs hq
  have hsame := length_path_eq hp hr
  rw [Position.length_inside] at hlength
  omega

/-- Wherever a location is, it is in a document. -/
def Documented (c : Cursor) : Prop :=
  ∀ s p, c.position? s = .ok (some p) → p.spot?.isSome

/-- A step from a location in a document leads to one in a document. -/
theorem Documented.child {parent : Cursor} (h : parent.Documented) (selector : Selector)
    (step : Address.Step) (query : Query.State) :
    (Cursor.child parent selector step query).Documented := by
  intro s p hp
  by_cases hs : selector = .same
  · subst hs
    rw [position?_same] at hp
    exact h s p hp
  · obtain ⟨q, place, hq, -, rfl⟩ := position_child_ok hs hp
    rw [Position.spot?_inside, Option.isSome_map]
    exact h s q hq

end Cursor

end ResourceAtlas

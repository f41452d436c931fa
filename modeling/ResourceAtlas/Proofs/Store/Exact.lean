import ResourceAtlas.Proofs.Tool.Failure

/-!
# Changes are exact

Two stores differ at a spot only if they are the same once anything is put there. A member that is
added, taken out or moved leaves a store that differs from the one before at its lists only, and a
change that is refused leaves the store itself.
-/

namespace ResourceAtlas

open Store

namespace Store

/-- Two changes under one key are one change. -/
theorem modifyKey_modifyKey (f g : Value → Value) (name : String) (entries : Keyed Value) :
    modifyKey g name (modifyKey f name entries) = modifyKey (g ∘ f) name entries := by
  induction entries with
  | nil => rfl
  | cons e rest ih =>
    obtain ⟨k, v⟩ := e
    by_cases h : k = name
    · simp [modifyKey, h]
    · simp [modifyKey, h, ih]

/-- Two changes under one text among keys of any kind are one change. -/
theorem modifyTextKey_modifyTextKey (f g : Value → Value) (name : String)
    (entries : List (Value × Value)) :
    modifyTextKey g name (modifyTextKey f name entries) = modifyTextKey (g ∘ f) name entries := by
  induction entries with
  | nil => rfl
  | cons e rest ih =>
    obtain ⟨k, v⟩ := e
    unfold modifyTextKey at ih ⊢
    rw [List.map_cons, List.map_cons, List.map_cons, ih]
    congr 1
    cases k with
    | text k => by_cases h : k = name <;> simp [h]
    | _ => rfl

/-- Two changes at one place are one change. -/
theorem Place.modify_modify (f g : Value → Value) (v : Value) (p : Place) :
    Place.modify g (Place.modify f v p) p = Place.modify (g ∘ f) v p := by
  cases p with
  | key name =>
    cases v with
    | mapping entries => exact congrArg Value.mapping (modifyKey_modifyKey f g name entries)
    | table entries => exact congrArg Value.table (modifyTextKey_modifyTextKey f g name entries)
    | _ => rfl
  | index i =>
    cases v with
    | list items => exact congrArg Value.list (List.modify_modify_eq f g i items)
    | tuple items => exact congrArg Value.tuple (List.modify_modify_eq f g i items)
    | _ => rfl

/-- Two changes at one path are one change. -/
theorem modifyAt_modifyAt (f g : Value → Value) (path : List Place) (v : Value) :
    modifyAt g path (modifyAt f path v) = modifyAt (g ∘ f) path v := by
  induction path generalizing v with
  | nil => rfl
  | cons p rest ih =>
    show Place.modify (modifyAt g rest) (Place.modify (modifyAt f rest) v p) p = _
    rw [Place.modify_modify, show modifyAt g rest ∘ modifyAt f rest = modifyAt (g ∘ f) rest from
      funext ih]
    rfl

/-- Two changes at one spot are one change. -/
theorem change_change (s : Store) (p : Spot) (f g : Value → Value) :
    (s.change p f).change p g = s.change p (g ∘ f) := by
  refine congrArg Store.mk (Array.ext_getElem? fun i => ?_)
  dsimp only [change, modify]
  rw [Array.getElem?_modify, Array.getElem?_modify, Array.getElem?_modify]
  split
  · rw [Option.map_map]
    congr 1
    exact funext (modifyAt_modifyAt f g p.path)
  · rfl

/-- One value lies at a spot of a store and another one at that spot of another store, and nothing else
differs: once anything is put at the spot, the two are the same. -/
structure Replaced (s t : Store) (p : Spot) (old new : Value) : Prop where
  /-- What lies there in the one store. -/
  before : s.read? p = some old
  /-- What lies there in the other one. -/
  after : t.read? p = some new
  /-- Nothing else differs. -/
  beside : ∀ v, t.change p (fun _ => v) = s.change p fun _ => v

section Replaced

variable {s t u : Store} {p q : Spot} {old mid new : Value}

/-- A change at a spot replaces what lies there. -/
theorem replaced_change (h : s.read? p = some old) (f : Value → Value) :
    Replaced s (s.change p f) p old (f old) :=
  ⟨h, by rw [read?_change_self, h]; rfl, fun v => change_change s p f fun _ => v⟩

/-- What was replaced twice was replaced. -/
theorem Replaced.trans (h : Replaced s t p old mid) (h' : Replaced t u p mid new) :
    Replaced s u p old new :=
  ⟨h.before, h'.after, fun v => (h'.beside v).trans (h.beside v)⟩

/-- What lies beside is still read. -/
theorem Replaced.read?_beside (h : Replaced s t p old new) (hp : ¬ p.Above q) (hq : ¬ q.Above p) :
    t.read? q = s.read? q := by
  have hsame := congrArg (Store.read? · q) (h.beside .null)
  rwa [read?_change_beside hp hq, read?_change_beside hp hq] at hsame

end Replaced

/-- The member at an index of a list was moved to the end of a list. -/
structure Moved (s t : Store) (list : Spot) (members : List Value) (i : Nat) (item : Value)
    (dest : Spot) (items : List Value) : Prop where
  /-- It was put at the end there and taken out of its own list, and nothing else changed. -/
  steps : ∃ u now, Replaced s u dest (.list items) (.list (items ++ [item])) ∧
    now[i]? = some item ∧ Replaced u t list (.list now) (.list (now.eraseIdx i))
  /-- The others stay in its own list, in their order. -/
  left : ¬ list.Above dest → t.read? list = some (.list (members.eraseIdx i))
  /-- It is the last one of the other list, wherever that list lies then, and behind the members that
  were there, unless its own list lies in one of these. -/
  arrived : ∃ others, t.read? (Spot.afterErase list i dest) = some (.list (others ++ [item])) ∧
    (¬ dest.Above list → others = items)
  /-- In its own list it goes behind all others. -/
  within : dest = list → Replaced s t list (.list members) (.list (members.eraseIdx i ++ [item]))
  /-- What lies around neither list and outside the member is read as before: the members after it in
  its own list one place further up, everything else where it was. -/
  kept : ∀ q, s.Occupied q → ¬ q.Above list → ¬ q.Above dest → ¬ (list.below [.index i]).Above q →
    t.read? (Spot.afterErase list i q) = s.read? q

/-- What lies below a list at an index is the member there. -/
theorem getElem?_of_read?_below {s : Store} {list : Spot} {members : List Value} {i : Nat}
    {item : Value} (hlist : s.read? list = some (.list members))
    (h : s.read? (list.below [.index i]) = some item) : members[i]? = some item := by
  rw [read?_below, hlist] at h
  change at? (.list members) [.index i] = _ at h
  rw [at?_list_index] at h
  obtain ⟨w, hw, hat⟩ := Option.bind_eq_some_iff.mp h
  exact hw.trans hat

/-- A member that is put at the end of a list outside of it and taken out of its own was moved. -/
theorem moved_of_change {s : Store} {list dest : Spot} {i : Nat} {members items : List Value}
    {item : Value} (hlist : s.read? list = some (.list members)) (hi : members[i]? = some item)
    (hdest : s.read? dest = some (.list items)) (hout : ¬ (list.below [.index i]).Above dest) :
    Moved s ((s.change dest (appendMember item)).change list (eraseMember i)) list members i item
      dest items := by
  -- Putting the member at the end changes only what lies around that list.
  have hstill : ∀ {q v}, s.read? q = some v → ¬ q.Above dest →
      (s.change dest (appendMember item)).read? q = some v := fun {q v} h habove => by
    have hq : s.Occupied q := by
      rw [Occupied, h]
      rfl
    exact (read?_append_other hdest item habove (not_end_above hdest hq)).trans h
  have hput := replaced_change hdest (appendMember item)
  obtain ⟨now, hnow, -⟩ := read?_list_append hdest hlist item
  have htaken := replaced_change hnow (eraseMember i)
  constructor
  case steps =>
    exact ⟨_, now, hput, getElem?_of_read?_below hnow (hstill (read?_member hlist hi) hout), htaken⟩
  case left =>
    intro habove
    obtain rfl := Value.list.inj (Option.some.inj (hnow.symm.trans (hstill hlist habove)))
    exact htaken.after
  case arrived =>
    by_cases habove : dest.Above list
    · obtain ⟨others, hothers, -⟩ := read?_move hlist hi hdest hout
      exact ⟨others, hothers, fun h => absurd habove h⟩
    · exact ⟨items, (read?_erase hnow habove hout).trans hput.after, fun _ => rfl⟩
  case within =>
    rintro rfl
    obtain rfl := Value.list.inj (Option.some.inj (hlist.symm.trans hdest))
    obtain rfl := Value.list.inj (Option.some.inj (hnow.symm.trans hput.after))
    have herase : eraseMember i (.list (members ++ [item])) =
        .list (members.eraseIdx i ++ [item]) :=
      congrArg Value.list (List.eraseIdx_append_of_lt_length (List.getElem?_eq_some_iff.mp hi).1 _)
    exact herase ▸ hput.trans htaken
  case kept =>
    intro q hq habove hdestination hin
    obtain ⟨v, hv⟩ := Option.isSome_iff_exists.mp hq
    rw [read?_erase hnow habove hin, hstill hv hdestination, hv]

end Store

/-- A move that goes nowhere but along a document. -/
def Motion.navigates : Motion → Bool
  | bind (.literal _) _ => false
  | _ => true

namespace Cursor

/-- No value of its own stands on the way to a location. -/
def Stored : Cursor → Prop
  | root _ _ _ => True
  | bound parent (.document _) _ _ => parent.Stored
  | bound _ (.literal _) _ _ => False
  | child parent _ _ _ => parent.Stored
  | outside => True

/-- A location that moves from a root lead to. -/
def Navigated (c : Cursor) : Prop :=
  ∃ d scheme way, (∀ m ∈ way, Motion.navigates m = true) ∧
    Motion.applyAll (atRoot d scheme) way = .ok c

/-- A location lies at a spot. -/
def LiesAt (c : Cursor) (s : Store) (p : Spot) : Prop :=
  c.position? s = .ok (some ⟨.document p.document, p.path⟩)

/-- A location lies at a member of the list around it. -/
structure AtMember (c : Cursor) (s : Store) (list : Spot) (i : Nat) (items : List Value)
    (item : Value) : Prop where
  /-- Where the list lies. -/
  around : c.parent.LiesAt s list
  /-- What it holds. -/
  holder : c.parent.raw s = .ok (.list items)
  /-- Where the member lies. -/
  lies : c.LiesAt s (list.below [.index i])
  /-- What it is. -/
  raw : c.raw s = .ok item
  /-- It is the one at the index. -/
  getElem?_eq : items[i]? = some item

variable {s t : Store} {c destination : Cursor} {uri : String}

/-- A location without values of its own on the way is in a document. -/
theorem Stored.documented (h : c.Stored) : c.Documented := by
  induction c with
  | root d scheme query =>
    intro s p hp
    obtain rfl := Option.some.inj (Except.ok.inj hp)
    rfl
  | bound parent source steps query ih =>
    cases source with
    | document d =>
      intro s p hp
      obtain rfl := Option.some.inj (Except.ok.inj hp)
      rfl
    | literal v => exact h.elim
  | child parent selector step query ih => exact (ih h).child selector step query
  | outside => exact fun s p hp => (nomatch hp)

/-- A move that navigates puts no value of its own on the way. -/
theorem Stored.apply (h : c.Stored) {m : Motion} (hm : m.navigates = true) {d : Cursor}
    (hd : m.apply c = .ok d) : d.Stored := by
  have hinside : ∀ {e : Cursor}, m.applyInside c = .ok e → e.Stored := by
    intro e he
    cases m with
    | bind source steps =>
      obtain rfl := Except.ok.inj he
      cases source with
      | document d => exact h
      | literal v => exact (nomatch hm)
    | change ch =>
      obtain ⟨q, -, rfl⟩ := map_eq_ok.mp he
      cases c with
      | bound parent source steps query => cases source <;> exact h
      | _ => exact h
    | parent =>
      obtain rfl := Except.ok.inj he
      cases c with
      | bound parent source steps query =>
        cases source with
        | document d => exact h
        | literal v => exact h.elim
      | _ => exact h
    | fail text => exact (nomatch he)
    | _ =>
      obtain rfl := Except.ok.inj he
      exact h
  unfold Motion.apply at hd
  split at hd
  · exact (nomatch hd)
  · exact hinside hd

/-- Moves that navigate put none there. -/
theorem Stored.applyAll (h : c.Stored) {way : List Motion}
    (hway : ∀ m ∈ way, Motion.navigates m = true) {d : Cursor}
    (hd : Motion.applyAll c way = .ok d) : d.Stored := by
  induction way generalizing c with
  | nil => exact Except.ok.inj hd ▸ h
  | cons m rest ih =>
    obtain ⟨e, he, hd⟩ := bind_eq_ok.mp hd
    exact ih (h.apply (hway m List.mem_cons_self) he)
      (fun m' hm' => hway m' (List.mem_cons_of_mem m hm')) hd

/-- Navigation from a root stays in its document. -/
theorem Navigated.documented (h : c.Navigated) : c.Documented := by
  obtain ⟨d, scheme, way, hway, hc⟩ := h
  have hroot : (atRoot d scheme).Stored := trivial
  exact (hroot.applyAll hway hc).documented

/-- A location lies at one spot. -/
theorem LiesAt.unique {p q : Spot} (hp : c.LiesAt s p) (hq : c.LiesAt s q) : p = q := by
  obtain ⟨hsource, hpath⟩ := Position.mk.inj (Option.some.inj (Except.ok.inj (hp.symm.trans hq)))
  exact Spot.mk.injEq _ _ _ _ ▸ ⟨Source.document.inj hsource, hpath⟩

/-- A location lies at the spot of its position. -/
theorem liesAt_of_spot? {p : Position} {q : Spot} (hp : c.position? s = .ok (some p))
    (hq : p.spot? = some q) : c.LiesAt s q := by
  rw [LiesAt, hp, Position.eq_of_spot? hq]

/-- Where a location in a document lies. -/
theorem Documented.exists_liesAt (h : c.Documented) {p : Position}
    (hp : c.position? s = .ok (some p)) : ∃ q, p.spot? = some q ∧ c.LiesAt s q := by
  obtain ⟨q, hq⟩ := Option.isSome_iff_exists.mp (h s p hp)
  exact ⟨q, hq, liesAt_of_spot? hp hq⟩

/-- A member that was found in a document lies at the index in the list around it. -/
theorem Found.exists_atMember {m : Member} (h : Found c s m) (hc : c.Documented) :
    ∃ list items, m.list.spot? = some list ∧ s.read? list = some (.list items) ∧
      c.AtMember s list m.index items m.item := by
  obtain ⟨items, hitems, hitem⟩ := h.listed
  obtain ⟨here, hhere, hlies⟩ := hc.exists_liesAt h.position?_eq
  rw [Position.spot?_inside] at hhere
  obtain ⟨list, hlist, rfl⟩ := Option.map_eq_some_iff.mp hhere
  obtain ⟨parent, selector, step, query, rfl, -, haround, -⟩ := h.selected
  have hraw : parent.raw s = .ok (.list items) := by
    rw [raw_of_position haround, hitems]
  exact ⟨list, items, hlist, Position.read?_of_read hitems hlist,
    ⟨liesAt_of_spot? haround hlist, hraw, hlies, h.raw_eq, hitem⟩⟩

/-- A creation that succeeds puts a member of the properties at the end of the list. -/
theorem insert_exact (hc : c.Documented) {properties : Value} {keys : List MemberKey}
    (h : c.insert properties keys s = (.ok (.ok uri), t)) :
    ∃ here items entries, c.LiesAt s here ∧ c.raw s = .ok (.list items) ∧
      entriesOf properties = .ok entries ∧
      Replaced s t here (.list items) (.list (items ++ [memberOf entries items])) := by
  obtain ⟨items, new, there, hadded⟩ := planInsert_ok_iff.mp (Plan.run_ok h)
  obtain ⟨entries, hentries, rfl⟩ := hadded.member
  obtain ⟨here, hhere, hlies⟩ := hc.exists_liesAt hadded.position
  have hraw : c.raw s = .ok (.list items) := by
    rw [raw_of_position hadded.position, hadded.listed]
  have hreplaced := replaced_change (Position.read?_of_read hadded.listed hhere)
    (appendMember (memberOf entries items))
  rw [← Position.modify_of_spot? hhere, ← hadded.store] at hreplaced
  exact ⟨here, items, entries, hlies, hraw, hentries, hreplaced⟩

/-- A removal that can be made finds the member and takes it out. -/
theorem planRemove_ok (h : c.planRemove s = .ok (.ok (uri, t))) :
    ∃ m, Found c s m ∧ t = m.erase s := by
  obtain ⟨inside, hin, h⟩ := bind_eq_ok.mp h
  obtain ⟨-, rfl⟩ := within_ok_iff.mp hin
  obtain ⟨own, -, h⟩ := bind_eq_ok.mp h
  obtain ⟨verdict, hm, h⟩ := bind_eq_ok.mp h
  cases verdict with
  | error problem => exact (nomatch h)
  | ok m => exact ⟨m, member_ok hm, (Prod.mk.inj (Except.ok.inj (Except.ok.inj h))).2.symm⟩

/-- A removal that succeeds takes the member out of the list around it. -/
theorem remove_exact (hc : c.Documented) (h : c.remove s = (.ok (.ok uri), t)) :
    ∃ list i items item, c.AtMember s list i items item ∧
      Replaced s t list (.list items) (.list (items.eraseIdx i)) := by
  obtain ⟨m, hfound, rfl⟩ := planRemove_ok (Plan.run_ok h)
  obtain ⟨list, items, hlist, hread, hmember⟩ := hfound.exists_atMember hc
  have hreplaced := replaced_change hread (eraseMember m.index)
  rw [← Position.modify_of_spot? hlist] at hreplaced
  exact ⟨list, m.index, items, m.item, hmember, hreplaced⟩

/-- A move that succeeds moves the member, unless it is moved into itself. -/
theorem relocate_exact (hc : c.Documented) (hd : destination.Documented) {keys : List MemberKey}
    (h : c.relocate destination keys s = (.ok (.ok uri), t)) :
    ∃ list i members item dest items, c.AtMember s list i members item ∧
      destination.LiesAt s dest ∧ destination.raw s = .ok (.list items) ∧
      (¬ (list.below [.index i]).Above dest → Moved s t list members i item dest items) := by
  obtain ⟨m, there, hplanned⟩ := planRelocate_ok (Plan.run_ok h)
  obtain ⟨list, members, hlist, hread, hmember⟩ :=
    (member_ok hplanned.found).exists_atMember hc
  obtain ⟨dest, hthere, hlies⟩ := hd.exists_liesAt hplanned.position
  obtain ⟨items, hitems⟩ := hplanned.listed
  have hraw : destination.raw s = .ok (.list items) := by
    rw [raw_of_position hplanned.position, hitems]
  refine ⟨list, m.index, members, m.item, dest, items, hmember, hlies, hraw, fun hout => ?_⟩
  have hmoved := moved_of_change hread hmember.getElem?_eq (Position.read?_of_read hitems hthere) hout
  rwa [← Position.modify_of_spot? hthere, ← Position.modify_of_spot? hlist, ← Member.erase,
    ← hplanned.store] at hmoved

/-- A creation, a removal or a move that fails with a problem and an assignment that is refused leave all
documents as they are. One that succeeds changes its lists and nothing else: a creation puts a member of
the properties, with their identifier or else a generated one, at the end of the list; a removal takes
out the member at the location and keeps the order of the others; a move to a list outside the member
takes it out and puts it at the end there, be it in another list or in its own. -/
theorem changes_exact (hc : c.Navigated) (hd : destination.Navigated) (s : Store) :
    (∀ properties keys problem t, c.insert properties keys s = (.ok (.error problem), t) → t = s) ∧
    (∀ problem t, c.remove s = (.ok (.error problem), t) → t = s) ∧
    (∀ keys problem t, c.relocate destination keys s = (.ok (.error problem), t) → t = s) ∧
    (∀ new uri t, c.assign new s = (.error (.notAssignable uri), t) → t = s) ∧
    (∀ properties keys uri t, c.insert properties keys s = (.ok (.ok uri), t) →
      ∃ here items entries, c.LiesAt s here ∧ c.raw s = .ok (.list items) ∧
        entriesOf properties = .ok entries ∧
        Replaced s t here (.list items) (.list (items ++ [memberOf entries items]))) ∧
    (∀ uri t, c.remove s = (.ok (.ok uri), t) →
      ∃ list i items item, c.AtMember s list i items item ∧
        Replaced s t list (.list items) (.list (items.eraseIdx i))) ∧
    (∀ keys uri t, c.relocate destination keys s = (.ok (.ok uri), t) →
      ∃ list i members item dest items, c.AtMember s list i members item ∧
        destination.LiesAt s dest ∧ destination.raw s = .ok (.list items) ∧
        (¬ (list.below [.index i]).Above dest → Moved s t list members i item dest items)) :=
  ⟨fun _ _ _ _ h => Plan.run_problem h, fun _ _ h => Plan.run_problem h,
    fun _ _ _ h => Plan.run_problem h, fun _ _ _ h => assign_refused h,
    fun _ _ _ _ h => insert_exact hc.documented h, fun _ _ h => remove_exact hc.documented h,
    fun _ _ _ h => relocate_exact hc.documented hd.documented h⟩

section Folders

open Atlas

/-- The first of two folders, moved to the end of the list that they lie in. -/
theorem changes_exact_folders :
    ((atRoot 0 "s").property "folders" |>.atIndex (.int 0)).Navigated ∧
      ((atRoot 0 "s").property "folders").Navigated ∧
      ∃ uri t, ((atRoot 0 "s").property "folders" |>.atIndex (.int 0)).relocate
          ((atRoot 0 "s").property "folders") memberKeys
          (folderStore [folder "A" [], folder "B" []]) = (.ok (.ok uri), t) ∧
        Replaced (folderStore [folder "A" [], folder "B" []]) t ⟨0, [.key "folders"]⟩
          (.list [folder "A" [], folder "B" []]) (.list [folder "B" [], folder "A" []]) := by
  have hfolders : ((atRoot 0 "s").property "folders").Navigated :=
    ⟨0, "s", [.property "folders"], by simp [Motion.navigates], rfl⟩
  have hfirst : ((atRoot 0 "s").property "folders" |>.atIndex (.int 0)).Navigated :=
    ⟨0, "s", [.property "folders", .index (.int 0)], by simp [Motion.navigates], rfl⟩
  obtain ⟨uri, t, h⟩ : ∃ uri t, ((atRoot 0 "s").property "folders" |>.atIndex (.int 0)).relocate
      ((atRoot 0 "s").property "folders") memberKeys
      (folderStore [folder "A" [], folder "B" []]) = (.ok (.ok uri), t) := ⟨_, _, rfl⟩
  have hlies : ((atRoot 0 "s").property "folders").LiesAt
      (folderStore [folder "A" [], folder "B" []]) ⟨0, [.key "folders"]⟩ := rfl
  have hfirstLies : ((atRoot 0 "s").property "folders" |>.atIndex (.int 0)).LiesAt
      (folderStore [folder "A" [], folder "B" []])
      ((Spot.mk 0 [.key "folders"]).below [.index 0]) := rfl
  have hraw : ((atRoot 0 "s").property "folders").raw
      (folderStore [folder "A" [], folder "B" []]) =
      .ok (.list [folder "A" [], folder "B" []]) := rfl
  obtain ⟨list, i, members, item, dest, items, hmember, hdest, -, hmoved⟩ :=
    (changes_exact hfirst hfolders _).2.2.2.2.2.2 memberKeys uri t h
  obtain rfl := hmember.around.unique hlies
  obtain rfl := hdest.unique hlies
  obtain rfl : i = 0 :=
    Place.index.inj (List.cons.inj (Spot.below_inj (hmember.lies.unique hfirstLies))).1
  obtain rfl := Value.list.inj (Except.ok.inj (hmember.holder.symm.trans hraw))
  obtain rfl := Option.some.inj hmember.getElem?_eq
  exact ⟨hfirst, hfolders, uri, t, h, (hmoved (Spot.not_concat_above _ _)).within rfl⟩

end Folders

end Cursor

end ResourceAtlas

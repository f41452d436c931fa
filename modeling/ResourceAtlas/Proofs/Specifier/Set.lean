import ResourceAtlas.Proofs.Store.Assign
import ResourceAtlas.Proofs.Store.Entry

/-!
# Reading what was set

Setting a value answers with the address of the specifier as it was. Whoever holds the specifier, or
resolves that address, is at the entry that was set exactly if the members that a name or an identifier
found on the way are still the first to fit; then the new value is read. Setting the very name or
identifier by which the owner was found loses the entry to both.
-/

namespace ResourceAtlas

open Address Atlas Schema Store

namespace Cursor

variable {s t : Store} {c : Cursor} {owner : Spot} {key : String} {holder new : Value}

/-- A location that a caller holds has no value of its own on the way. -/
theorem stored_settle (c : Cursor) (s : Store) : (c.settle s).1.Stored := by
  induction c with
  | root d scheme query => trivial
  | bound parent source steps query ih =>
    cases source with
    | document d => exact ih
    | literal v => exact ih
  | child parent selector step query ih => exact ih
  | outside => trivial

/-- A location is the entry under a key of what lies at a spot. -/
structure IsEntry (c : Cursor) (s : Store) (owner : Spot) (key : String) : Prop where
  /-- It is the property of that key. -/
  property : c.propertyKey? = some key
  /-- The location around it lies at the spot. -/
  around : c.parent.LiesAt s owner

/-- What reads an entry that was set. -/
structure ReadsBack (s t : Store) (entry : Spot) (new : Value) (c : Cursor) : Prop where
  /-- It is at the entry exactly if it still finds the members on its way. -/
  lies : c.LiesAt t entry ↔ c.StillFinds s t
  /-- Then it reads the new value. -/
  reads : c.StillFinds s t → c.raw t = .ok new
  /-- It finds them if it seeks none by what the entry is or lies in. -/
  finds : c.SeeksApart s entry → c.StillFinds s t

/-- An assignment that succeeds sets an entry of a mapping in a document. -/
theorem assign_ok (hc : c.Stored) {result : Unit} (h : c.assign new s = (.ok result, t)) :
    ∃ owner key holder, c.IsEntry s owner key ∧ s.read? owner = some holder ∧
      holder.mapping?.isSome ∧ t = s.enter owner key new := by
  have hrefused : ∀ {u : Store},
      ((do let uri ← c.uri; .error (.notAssignable uri) : Outcome Unit), u) ≠ (.ok result, t) := by
    intro u heq
    obtain ⟨uri, -, hnot⟩ := bind_eq_ok.mp (Prod.mk.inj heq).1
    exact (nomatch hnot)
  unfold assign at h
  split at h
  · exact (nomatch h)
  · next holder hholder =>
    dsimp only at h
    split at h
    · next key entries hkey hentries =>
      split at h
      · next p hp =>
        obtain ⟨-, rfl⟩ := Prod.mk.inj h
        cases c with
        | child parent selector step query =>
          have hm : holder.mapping?.isSome := by
            rw [hentries]
            rfl
          obtain ⟨owner, howner, hlies⟩ := (show parent.Stored from hc).documented.exists_liesAt hp
          refine ⟨owner, key, holder, ⟨hkey, hlies⟩, hlies.read?_of_mapping hholder hm, hm, ?_⟩
          exact Position.modify_of_spot? howner _
        | _ => exact (nomatch hkey)
      · exact absurd h hrefused
    · exact absurd h hrefused

/-- The entry under a key is a property of the location at the spot. -/
theorem IsEntry.exists_child (h : c.IsEntry s owner key) : ∃ parent step query,
    c = child parent (.property key) step query ∧ parent.LiesAt s owner := by
  obtain ⟨hkey, haround⟩ := h
  cases c with
  | child parent selector step query =>
    cases selector with
    | property name =>
      obtain rfl := Option.some.inj hkey
      exact ⟨parent, step, query, rfl, haround⟩
    | _ => cases hkey
  | _ => cases hkey

/-- What the entry shows, however its owner was found. -/
theorem IsEntry.readsBack (h : c.IsEntry s owner key) (howner : s.read? owner = some holder)
    (hm : holder.mapping?.isSome) (new : Value) :
    c.ReadsBack s (s.enter owner key new) (owner.entry key) new := by
  obtain ⟨parent, step, query, rfl, haround⟩ := h.exists_child
  have hshows : parent.Shows s (s.enter owner key new) owner key new owner :=
    shows_enter howner hm haround (absurd · (Spot.not_concat_above owner _)) new
  have hentry := read?_enter_entry howner hm key new
  -- The entry is there after it was set, so that only the way to its owner can be lost.
  obtain ⟨w, hw, hplace⟩ : ∃ w, (s.enter owner key new).read? owner = some w ∧
      (Selector.property key).place? w = .ok (some (.key key)) := by
    rw [Spot.entry, read?_below] at hentry
    obtain ⟨w, hw, hat⟩ := Option.bind_eq_some_iff.mp hentry
    obtain ⟨v, hv, -⟩ := Option.bind_eq_some_iff.mp hat
    exact ⟨w, hw, Selector.place?_property_iff.mpr ⟨rfl, Option.isSome_iff_exists.mpr ⟨v, hv⟩⟩⟩
  have hlies : (child parent (.property key) step query).LiesAt (s.enter owner key new)
      (owner.entry key) ↔ parent.LiesAt (s.enter owner key new) owner :=
    (liesAt_below_iff Selector.noConfusion hw).trans (and_iff_left hplace)
  have hfinds : (child parent (.property key) step query).StillFinds s (s.enter owner key new) ↔
      parent.StillFinds s (s.enter owner key new) :=
    and_iff_left fun key wanted list i hsought => by cases hsought
  constructor
  case lies => rw [hlies, hfinds, hshows.lies]
  case reads =>
    intro hstill
    rw [(hlies.mpr (hshows.lies.mpr (hfinds.mp hstill))).raw_eq, hentry]
    rfl
  case finds => exact fun hapart => hfinds.mpr (hshows.finds hapart.1)

end Cursor

namespace Specifier

variable {a : Atlas} {s t : Store} {spec : Specifier} {new : Value} {uri : String}

/-- A value is set exactly if it is assigned and the address can be written, which is the answer. -/
theorem set_ok_iff : spec.set new s = (.ok (.ok uri), t) ↔
    spec.cursor.assign new s = (.ok (), t) ∧ spec.uri = .ok uri := by
  unfold set
  cases hassign : spec.cursor.assign new s with
  | mk result u =>
    cases result with
    | ok done =>
      constructor
      · intro h
        obtain ⟨huri, rfl⟩ := Prod.mk.inj h
        obtain ⟨text, htext, hok⟩ := map_eq_ok.mp huri
        obtain rfl := Except.ok.inj hok
        exact ⟨rfl, htext⟩
      · rintro ⟨h, huri⟩
        obtain ⟨-, rfl⟩ := Prod.mk.inj h
        rw [huri]
        rfl
    | error f =>
      refine ⟨fun h => ?_, fun h => (nomatch h.1)⟩
      cases f <;> exact (nomatch h)

/-- Setting a value that succeeds sets an entry. The specifier, and any that the answered address
resolves to if that is the same entry, is at the entry exactly if it still finds the members on its
way, and then it reads the new value. -/
theorem set_readBack {c : Cursor} {before : Store}
    (hheld : c.settle before = (spec.cursor, s)) (h : spec.set new s = (.ok (.ok uri), t)) :
    spec.uri = .ok uri ∧ ∃ owner key, spec.cursor.IsEntry s owner key ∧
      spec.cursor.ReadsBack s t (owner.entry key) new ∧
      ∀ seen, a.resolve uri = .ok (.ok seen) → seen.cursor.IsEntry s owner key →
        seen.cursor.ReadsBack s t (owner.entry key) new := by
  obtain ⟨hassign, huri⟩ := set_ok_iff.mp h
  have hstored : spec.cursor.Stored := by
    have hsettled := Cursor.stored_settle c before
    rwa [hheld] at hsettled
  obtain ⟨owner, key, holder, hentry, howner, hm, rfl⟩ := Cursor.assign_ok hstored hassign
  exact ⟨huri, owner, key, hentry, hentry.readsBack howner hm new,
    fun seen _ hseen => hseen.readsBack howner hm new⟩

/-- The nodes of items that are selected by name, with a name and a color that can be set. -/
def itemNodes : List Node :=
  [Node.gathering [("items", 1)],
    { Node.plain .collection .members with
      item := some (.node 2)
      methods := [("by_name", .byName (.node 2))] ++ Node.queryMethods },
    Node.gathering [("name", 3), ("color", 3)],
    (Node.leaf (some .text)).withMethod "set" .set]

/-- Such items under a scheme. -/
def items : Atlas where
  catalog := ⟨itemNodes.toArray⟩
  registry := ⟨[("s", ⟨0, 0⟩)], false⟩

/-- An item of a name and a color. -/
def item (name color : String) : Value :=
  .mapping [("name", .text name), ("color", .text color)]

/-- A store with one item. -/
def itemStore (name color : String) : Store :=
  ⟨#[.mapping [("items", .list [item name color])]]⟩

/-- A property of the item of a name. -/
def itemField (name key : String) : Specifier :=
  ⟨(Cursor.allItems.named (.text name)).property key, items.catalog.node 3, true⟩

/-- The one item lies where its name is sought. -/
theorem itemField_isEntry (color key : String) :
    (itemField "A" key).cursor.IsEntry (itemStore "A" color) ⟨0, [.key "items", .index 0]⟩ key := by
  have hitems : Cursor.allItems.LiesAt (itemStore "A" color) ⟨0, [.key "items"]⟩ := rfl
  have hfits : sameIdentifier (.text "A") (.text "A") = .ok true := by decide +kernel
  have hfind : findMember "name" (.text "A") [item "A" color] = .ok (some 0) :=
    findMember_iff.mpr ⟨⟨_, rfl, hfits⟩, fun j hj => absurd hj (Nat.not_lt_zero j)⟩
  exact ⟨rfl, hitems.found rfl rfl hfind _ _⟩

/-- Setting a property of that item. -/
theorem set_itemField (color key : String) (new : Value) {uri : String}
    (huri : (itemField "A" key).uri = .ok uri) :
    (itemField "A" key).set new (itemStore "A" color) =
      (.ok (.ok uri), (itemStore "A" color).enter ⟨0, [.key "items", .index 0]⟩ key new) := by
  have hentry := itemField_isEntry color key
  have hassign := Cursor.assign_entry hentry.around hentry.around.raw_eq rfl key (.prop key) .empty new
  have hwritten : ((itemField "A" key).uri.map fun _ => ()) = .ok () :=
    map_eq_ok.mpr ⟨uri, huri, rfl⟩
  exact set_ok_iff.mpr ⟨hassign.trans (Prod.ext hwritten rfl), huri⟩

/-- A color that is set is read at the specifier and at the address that setting answers. -/
theorem set_readBack_color :
    ∃ t seen, items.resolve "s://items/A/color" = .ok (.ok (itemField "A" "color")) ∧
      (itemField "A" "color").node.hasMethod "set" = true ∧
      (itemField "A" "color").set (.text "red") (itemStore "A" "blue") =
        (.ok (.ok "s://items/A/color"), t) ∧
      items.resolve "s://items/A/color" = .ok (.ok seen) ∧
      (itemField "A" "color").cursor.raw t = .ok (.text "red") ∧
      seen.cursor.raw t = .ok (.text "red") := by
  have hresolve : items.resolve "s://items/A/color" = .ok (.ok (itemField "A" "color")) := by
    rw [resolve_of_read (l := ⟨"s", [⟨"items", none⟩, ⟨"A", none⟩, ⟨"color", none⟩]⟩)
      (by decide +kernel)]
    rfl
  have huri : (itemField "A" "color").uri = .ok "s://items/A/color" := rfl
  have hset := set_itemField "blue" "color" (.text "red") huri
  obtain ⟨-, owner, key, hown, hback, hseen⟩ :=
    set_readBack (a := items) (c := (itemField "A" "color").cursor) rfl hset
  have hagain := hseen _ hresolve hown
  obtain rfl := hown.around.unique (itemField_isEntry "blue" "color").around
  obtain rfl : "color" = key := Option.some.inj hown.property
  have hapart : (itemField "A" "color").cursor.SeeksApart (itemStore "A" "blue")
      (Spot.entry ⟨0, [.key "items", .index 0]⟩ "color") :=
    Cursor.seeksApart_of_not_mem (by decide) (by decide) _
  exact ⟨_, _, hresolve, rfl, hset, hresolve, hback.reads (hback.finds hapart),
    hagain.reads (hagain.finds hapart)⟩

/-- A name that is set is read neither at the specifier nor at the address that setting answers, where
both seek the item by the name that it had. -/
theorem set_loses_name :
    items.resolve "s://items/A/name" = .ok (.ok (itemField "A" "name")) ∧
      (itemField "A" "name").node.hasMethod "set" = true ∧
      (itemField "A" "name").set (.text "B") (itemStore "A" "blue") =
        (.ok (.ok "s://items/A/name"), itemStore "B" "blue") ∧
      (itemField "A" "name").cursor.raw (itemStore "B" "blue") = .ok .null := by
  have hresolve : items.resolve "s://items/A/name" = .ok (.ok (itemField "A" "name")) := by
    rw [resolve_of_read (l := ⟨"s", [⟨"items", none⟩, ⟨"A", none⟩, ⟨"name", none⟩]⟩)
      (by decide +kernel)]
    rfl
  have hlist : Cursor.allItems.LiesAt (itemStore "B" "blue") ⟨0, [.key "items"]⟩ := rfl
  have hlost : (Cursor.allItems.named (.text "A")).position? (itemStore "B" "blue") = .ok none :=
    hlist.unfound rfl rfl (by decide +kernel) _ _
  exact ⟨hresolve, rfl, set_itemField "blue" "name" (.text "B") rfl,
    Cursor.raw_of_nowhere (Cursor.position?_of_nowhere hlost _ _ _)⟩

end Specifier

end ResourceAtlas

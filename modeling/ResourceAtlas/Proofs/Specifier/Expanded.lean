import ResourceAtlas.Proofs.Registry.Fields
import ResourceAtlas.Proofs.Registry.Queried

/-!
# What filling in fields adds

A query that names fields to fill in answers with the items that it answers with otherwise, in the same
order, each at the place where its member lies. An item keeps the address of its member and gains the
values of those of the fields that members declare and that have a value at this member; a field without
one is missing from this item alone. Addresses and fields share one mapping: a declared field that is
called as the address takes its place.
-/

namespace ResourceAtlas

open Query Schema

/-- The same state without fields to fill in. -/
def Query.State.unfilled (t : State) : State :=
  { t with expand := [] }

section Entries

variable {catalog : Catalog} {resolve : Resolver} {item : Node}

/-- What an item holds under a name once fields are filled in: the value of the field of that name, where
it has one, and what it held before else. -/
theorem get?_expandItem (resolve : String → Outcome Value) (fields : List String) (entries : Keyed Value)
    (name : String) : Keyed.get? name (expandItem fields resolve entries) =
      if name ∈ fields then (resolve name).toOption.or (Keyed.get? name entries)
      else Keyed.get? name entries := by
  induction fields generalizing entries with
  | nil => rfl
  | cons field rest ih =>
    by_cases heq : name = field
    · subst heq
      cases hr : resolve name with
      | error f => simp [expandItem_error hr, ih, hr, Except.toOption]
      | ok v => simp [expandItem_ok hr, ih, hr, Except.toOption, Keyed.get?_put_self]
    · cases hr : resolve field with
      | error f => simp [expandItem_error hr, ih, heq]
      | ok v => simp [expandItem_ok hr, ih, heq, Keyed.get?_put_other heq]

/-- Filling in fields leaves every name at one place. -/
theorem nodup_expandItem (resolve : String → Outcome Value) (fields : List String) {entries : Keyed Value}
    (h : (Keyed.keys entries).Nodup) : (Keyed.keys (expandItem fields resolve entries)).Nodup := by
  induction fields generalizing entries with
  | nil => exact h
  | cons field rest ih =>
    cases hr : resolve field with
    | error f => exact expandItem_error hr rest entries ▸ ih h
    | ok v => exact expandItem_ok hr rest entries ▸ ih (Keyed.nodup_put h)

/-- The value of a field of a member is that of the child of the member. -/
theorem fieldValue_eq (catalog : Catalog) (resolve : Resolver) (item : Node) (member : Cursor)
    (name : String) (registered : Bool) : fieldValue catalog resolve item member name =
      (Specifier.mk member item registered).child catalog name >>= fun field =>
        resolve field.node field.cursor := by
  unfold fieldValue Specifier.child
  cases item.below catalog with
  | error f => rfl
  | ok children =>
    simp only [bind, Except.bind]
    cases Keyed.get? name children with
    | none => rfl
    | some id =>
      dsimp only
      cases stepInto catalog member name (catalog.node id) <;> rfl

/-- References name the addresses of their members. -/
theorem references_eq_map {c : Cursor} {indices : List Nat} {refs : List Value}
    (h : references c indices = .ok refs) : ∃ address : Nat → String,
      (∀ i ∈ indices, (c.atIndex (.int (i : Nat))).uri = .ok (address i)) ∧
        refs = indices.map fun i => .mapping [("uri", .text (address i))] := by
  refine ⟨fun i => ((c.atIndex (.int (i : Nat))).uri.toOption).getD "", ?_⟩
  induction indices generalizing refs with
  | nil =>
    obtain rfl := Except.ok.inj h
    exact ⟨fun i hi => absurd hi List.not_mem_nil, rfl⟩
  | cons i rest ih =>
    obtain ⟨first, more, hfirst, hmore, rfl⟩ := references_cons h
    obtain ⟨uri, huri, rfl⟩ := reference_mapping hfirst
    obtain ⟨hrest, rfl⟩ := ih hmore
    have hi : uri = ((c.atIndex (.int (i : Nat))).uri.toOption).getD "" := by
      rw [huri]
      rfl
    exact ⟨List.forall_mem_cons.mpr ⟨huri.trans (congrArg Except.ok hi), hrest⟩,
      congrArg (fun own => Value.mapping [("uri", .text own)] :: _) hi⟩

/-- References that are filled in, member by member. -/
theorem filled_eq_map {cursor : Cursor} (fields : List String) (selected : List (Value × Nat))
    (address : Nat → String) :
    filled catalog resolve item cursor fields selected
        ((selected.map (·.2)).map fun i => .mapping [("uri", .text (address i))]) =
      (selected.map (·.2)).map fun i => .mapping (expandItem fields
        (fieldValue catalog resolve item (cursor.atIndex (.int (i : Nat))))
        [("uri", .text (address i))]) := by
  refine List.ext_getElem (by simp [filled, expandItems]) fun k hk hk' => ?_
  have hlt : k < selected.length := by simpa using hk'
  simp [filled, expandItems, entriesOrNone, Value.mapping?, List.getD_eq_getElem?_getD, hlt]

end Entries

/-- An item of an answer: the place of its member, the address of the member, and what is shown of it. -/
structure ShownItem where
  /-- The place of the member. -/
  place : Nat
  /-- The address of the member. -/
  uri : String
  /-- What is shown. -/
  entries : Keyed Value

/-- The fields that a query gives to a member: those that are asked for, that members declare, and that
have a value there. -/
def Gives (catalog : Catalog) (value : Specifier → Outcome Value) (item : Node) (expand : List Value)
    (member : Cursor) (name : String) (v : Value) : Prop :=
  .text name ∈ expand ∧ ∃ field,
    (Specifier.mk member item true).child catalog name = .ok field ∧ value field = .ok v

/-- What is shown of a member is its address with the fields that it is given, and nothing else. -/
structure ShownItem.Adds (e : ShownItem) (gives : String → Value → Prop) : Prop where
  /-- Every name stands once. -/
  nodup : (Keyed.keys e.entries).Nodup
  /-- A field that is given stands under its name. -/
  fills : ∀ name v, gives name v → Keyed.get? name e.entries = some v
  /-- The address stays, unless a field that is given is called as the address. -/
  keeps : (∀ v, ¬ gives "uri" v) → Keyed.get? "uri" e.entries = some (.text e.uri)
  /-- Nothing else is shown. -/
  only : ∀ name v, Keyed.get? name e.entries = some v → gives name v ∨ name = "uri" ∧ v = .text e.uri

/-- A query answers with fields to fill in as it does without them, where every item gains the fields that
its member is given: or else both break off alike. -/
def OnlyAdds (s : Store) (c : Cursor) (t : State) (node : Node) (value : Specifier → Outcome Value)
    (gives : Nat → String → Value → Prop) : Prop :=
  (∃ f, value ⟨c.withQuery t.unfilled, node, true⟩ = .error f ∧
    value ⟨c.withQuery t, node, true⟩ = .error f) ∨
  ∃ (items : List Value) (selected : List (Value × Nat)) (shown : List ShownItem),
    (∃ data, c.raw s = .ok data ∧ data.sequence? = some items) ∧
    selectMembers t items = .ok selected ∧ shown.map ShownItem.place = selected.map Prod.snd ∧
    value ⟨c.withQuery t.unfilled, node, true⟩ =
      .ok (.list (shown.map fun e => .mapping [("uri", .text e.uri)])) ∧
    value ⟨c.withQuery t, node, true⟩ = .ok (.list (shown.map fun e => .mapping e.entries)) ∧
    ∀ e ∈ shown, (∃ m, items[e.place]? = some m ∧ (c.atIndex (.int e.place)).raw s = .ok m) ∧
      (c.atIndex (.int e.place)).uri = .ok e.uri ∧ e.Adds (gives e.place)

/-- A value made within a depth. -/
def Specifier.resolveWithin (catalog : Catalog) (s : Store) (depth : Nat) (spec : Specifier) :
    Outcome Value :=
  ResourceAtlas.resolveWithin catalog s depth spec.node spec.cursor

/-- Fields that are given alike are gained alike. -/
theorem OnlyAdds.of_gives_iff {s : Store} {c : Cursor} {t : State} {node : Node}
    {value : Specifier → Outcome Value} {gives gives' : Nat → String → Value → Prop}
    (h : OnlyAdds s c t node value gives) (hgives : ∀ i name v, gives i name v ↔ gives' i name v) :
    OnlyAdds s c t node value gives' := by
  obtain rfl : gives = gives' := by
    funext i name v
    exact propext (hgives i name v)
  exact h

section Answer

variable {catalog : Catalog} {s : Store} {c : Cursor} {t : State} {node item : Node}
  {children : Keyed NodeId}

/-- What can be read lies inside a document. -/
theorem Cursor.inside_of_raw {v : Value} (h : c.raw s = .ok v) : c.isOutside = false := by
  cases c with
  | outside => cases h
  | _ => rfl

/-- A state lists references, or a node that honours queries breaks off, whatever is to be filled in. -/
theorem listed_or_error (catalog : Catalog) (s : Store) (c : Cursor) (t : State)
    (hn : node.resolution = .selected) :
    (∃ selected refs, Listed s c t selected refs) ∨
      ∃ f, ∀ (expand : List Value) (depth : Nat),
        resolveWithin catalog s (depth + 1) node (c.withQuery { t with expand }) = .error f := by
  have hraw : ∀ q, (c.withQuery q).raw s = c.raw s := fun q =>
    ((Cursor.near_withQuery c q).raw_eq s).symm
  cases hdata : c.raw s with
  | error f =>
    refine .inr ⟨f, fun expand depth => ?_⟩
    rw [resolveWithin_selected s _ hn, hraw, hdata]
    rfl
  | ok data =>
    have hin := Cursor.inside_of_raw hdata
    suffices h : (∃ selected refs, Listed s c t selected refs) ∨
        ∃ f, ∀ (expand : List Value) (resolve : Resolver), selectedReferences catalog resolve node
          (c.withQuery { t with expand }) data = .error f by
      refine h.imp_right fun ⟨f, hf⟩ => ⟨f, fun expand depth => ?_⟩
      rw [resolveWithin_selected s _ hn, hraw, hdata]
      exact congrArg (Except.map Value.list) (hf expand _)
    cases hitems : membersOf .candidates data with
    | error f =>
      exact .inr ⟨f, fun expand resolve => bind_eq_error.mpr (.inl hitems)⟩
    | ok items =>
      have hselect : ∀ expand,
          selectMembers (c.withQuery { t with expand }).query items = selectMembers t items := by
        intro expand
        rw [Cursor.query_withQuery hin]
        rfl
      cases hselected : selectMembers t items with
      | error f =>
        exact .inr ⟨f, fun expand resolve => bind_eq_error.mpr (.inr ⟨items, hitems,
          bind_eq_error.mpr (.inl ((hselect expand).trans hselected))⟩)⟩
      | ok selected =>
        cases hrefs : references c (selected.map (·.2)) with
        | error f =>
          exact .inr ⟨f, fun expand resolve => bind_eq_error.mpr (.inr ⟨items, hitems,
            bind_eq_error.mpr (.inr ⟨selected, (hselect expand).trans hselected,
              bind_eq_error.mpr (.inl
                (((Cursor.near_withQuery c _).references_eq _).symm.trans hrefs))⟩)⟩)⟩
        | ok refs => exact .inl ⟨selected, refs, ⟨data, items, hdata, hitems, hselected⟩, hrefs⟩

/-- A child of a location is reached by a step under the name of a child of its node. -/
theorem Specifier.child_ok {spec field : Specifier} {key : String}
    (h : spec.child catalog key = .ok field) :
    ∃ own id, spec.node.below catalog = .ok own ∧ Keyed.get? key own = some id ∧
      stepInto catalog spec.cursor key (catalog.node id) = .ok (field.cursor, field.node) := by
  obtain ⟨own, hown, h⟩ := bind_eq_ok.mp h
  refine ⟨own, ?_⟩
  cases hk : Keyed.get? key own with
  | none =>
    rw [hk] at h
    cases h
  | some id =>
    rw [hk] at h
    obtain ⟨found, hfound, h⟩ := bind_eq_ok.mp h
    obtain rfl := Except.ok.inj h
    exact ⟨id, hown, rfl, hfound⟩

/-- A field that is asked for is given where it has a value. -/
theorem gives_iff {resolve : Resolver} {expand : List Value} {member : Cursor} {name : String}
    {v : Value} :
    Gives catalog (fun spec => resolve spec.node spec.cursor) item expand member name v ↔
      .text name ∈ expand ∧ fieldValue catalog resolve item member name = .ok v := by
  rw [fieldValue_eq catalog resolve item member name true, bind_eq_ok, Gives]

/-- A field is given to a member if it is one of those that are filled in and has a value there. -/
theorem gives_iff_mem {resolve : Resolver} {expand : List Value} {fields : List String}
    {member : Cursor} (hbelow : item.below catalog = .ok children)
    (hfields : fieldsToFill catalog item expand = .ok fields) {name : String} {v : Value} :
    Gives catalog (fun spec => resolve spec.node spec.cursor) item expand member name v ↔
      name ∈ fields ∧ fieldValue catalog resolve item member name = .ok v := by
  refine ⟨fun h => ?_, fun ⟨hname, hv⟩ =>
    gives_iff.mpr ⟨((mem_fieldsToFill_iff hbelow hfields).mp hname).1, hv⟩⟩
  obtain ⟨hasked, hv⟩ := gives_iff.mp h
  obtain ⟨-, field, hfield, -⟩ := h
  obtain ⟨own, id, hown, hk, -⟩ := Specifier.child_ok hfield
  obtain rfl := Except.ok.inj (hbelow.symm.trans hown)
  exact ⟨(mem_fieldsToFill_iff hbelow hfields).mpr ⟨hasked, by rw [Keyed.has, hk]; rfl⟩, hv⟩

/-- What is shown of a member once fields are filled in is its address with the fields that it is given. -/
theorem adds_expandItem {resolve : Resolver} {expand : List Value} {fields : List String}
    {member : Cursor} (hbelow : item.below catalog = .ok children)
    (hfields : fieldsToFill catalog item expand = .ok fields) (place : Nat) (uri : String) :
    ShownItem.Adds ⟨place, uri, expandItem fields (fieldValue catalog resolve item member)
        [("uri", .text uri)]⟩
      (Gives catalog (fun spec => resolve spec.node spec.cursor) item expand member) := by
  have hget := fun name => get?_expandItem (fieldValue catalog resolve item member) fields
    [("uri", .text uri)] name
  refine ⟨nodup_expandItem _ _ (List.nodup_singleton _), fun name v hgives => ?_, fun hno => ?_,
    fun name v hv => ?_⟩
  · obtain ⟨hname, hv⟩ := (gives_iff_mem hbelow hfields).mp hgives
    rw [hget, if_pos hname, hv]
    rfl
  · rw [hget]
    split
    · next hname =>
      cases hv : fieldValue catalog resolve item member "uri" with
      | ok v => exact absurd ((gives_iff_mem hbelow hfields).mpr ⟨hname, hv⟩) (hno v)
      | error f => rfl
    · rfl
  · rw [hget] at hv
    have hheld : ∀ {v}, Keyed.get? name [("uri", Value.text uri)] = some v →
        name = "uri" ∧ v = .text uri := by
      intro v hv
      have hmem := List.mem_singleton.mp (Keyed.mem_of_get? hv)
      exact ⟨congrArg Prod.fst hmem, congrArg Prod.snd hmem⟩
    split at hv
    · next hname =>
      cases hvalue : fieldValue catalog resolve item member name with
      | ok w =>
        rw [hvalue] at hv
        obtain rfl := Option.some.inj hv
        exact .inl ((gives_iff_mem hbelow hfields).mpr ⟨hname, hvalue⟩)
      | error f =>
        rw [hvalue] at hv
        exact .inr (hheld hv)
    · exact .inr (hheld hv)

/-- Within every depth, filling in fields only adds those that are given to a member within one step
less. -/
theorem onlyAdds_within (hn : node.resolution = .selected)
    (hitem : node.itemNode? catalog = .ok (some item)) (hbelow : item.below catalog = .ok children)
    (htexts : ∀ field ∈ t.expand, ∃ name, field = .text name) (depth : Nat) :
    OnlyAdds s c t node (Specifier.resolveWithin catalog s (depth + 1)) fun place =>
      Gives catalog (Specifier.resolveWithin catalog s depth) item t.expand
        ((c.withQuery t).atIndex (.int place)) := by
  rcases listed_or_error catalog s c t hn with ⟨selected, refs, hlisted⟩ | ⟨f, hf⟩
  · obtain ⟨⟨data, items, hdata, hitems, hselected⟩, hrefs⟩ := hlisted
    have hlisted : ∀ expand, Listed s c { t with expand } selected refs := fun expand =>
      ⟨⟨data, items, hdata, hitems, hselected⟩, hrefs⟩
    have hin := Cursor.inside_of_raw hdata
    obtain ⟨fields, hfields⟩ := exists_fieldsToFill hbelow htexts
    obtain ⟨address, haddress, rfl⟩ := references_eq_map hrefs
    have hsequence := sequence?_of_membersOf hitems
    obtain ⟨list, hlist, rfl⟩ := Cursor.position_of_sequence hdata hsequence
    refine .inr ⟨items, selected, selected.map fun m => ⟨m.2, address m.2, expandItem fields
        (fieldValue catalog (resolveWithin catalog s depth) item
          ((c.withQuery t).atIndex (.int (m.2 : Nat)))) [("uri", .text (address m.2))]⟩,
      ⟨_, hdata, hsequence⟩, hselected, by simp, ?_, ?_, fun e he => ?_⟩
    · refine ((hlisted []).resolveWithin_eq hin hn depth).trans ?_
      rw [hitem]
      simp only [bind, Except.bind, fieldsToFill, List.isEmpty_nil, if_true, filled_eq_map]
      rw [List.map_map, List.map_map]
      rfl
    · refine ((hlisted t.expand).resolveWithin_eq hin hn depth).trans ?_
      rw [hitem]
      simp only [bind, Except.bind, hfields, filled_eq_map]
      rw [List.map_map, List.map_map]
      rfl
    · obtain ⟨m, hm, rfl⟩ := List.mem_map.mp he
      have hplace := getElem?_of_selectMembers hselected hm
      exact ⟨⟨m.1, hplace, (Atlas.position_atIndex hlist hsequence hplace _).2⟩,
        haddress m.2 (List.mem_map_of_mem hm), adds_expandItem hbelow hfields m.2 _⟩
  · exact .inl ⟨f, hf [] depth, hf t.expand depth⟩

/-- In a grounded catalog whose steps into children ask nothing, a field of a member is given the same value
within every depth above the size of the catalog. -/
theorem gives_deep_iff (hc : ∀ id, (catalog.node id).Composed) (hg : catalog.Grounded)
    (hq : catalog.Unasking) {depth : Nat} (hdepth : catalog.size < depth) {expand : List Value}
    (place : Nat) (name : String) (v : Value) :
    Gives catalog (Specifier.resolveWithin catalog s depth) item expand (c.atIndex (.int place)) name v ↔
      Gives catalog (Specifier.resolve catalog s) item expand (c.atIndex (.int place)) name v := by
  refine and_congr_right fun _ => exists_congr fun field => and_congr_right fun hfield => ?_
  obtain ⟨own, id, -, -, hstep⟩ := Specifier.child_ok hfield
  have hquery := hq _ _ _ _ _ rfl hstep
  have hnode := (stepInto_ok hstep).1
  rw [Specifier.resolveWithin, Specifier.resolve, hnode, resolveWithin_deep hc hg hq s _ hquery hdepth]

/-- Where no way leads back, a member is given the same fields whatever is asked of the collection. -/
theorem gives_asked_iff (hd : catalog.Forward) {expand : List Value} (place : Nat) (name : String)
    (v : Value) :
    Gives catalog (Specifier.resolve catalog s) item expand ((c.withQuery t).atIndex (.int place)) name v ↔
      Gives catalog (Specifier.resolve catalog s) item expand (c.atIndex (.int place)) name v := by
  have hmember : ((c.withQuery t).atIndex (.int place)).Twin (c.atIndex (.int place)) :=
    (Cursor.near_withQuery c t).symm.twin _ _
  have hvalue := fieldValue_twin hd (resolveWithin_congruent hd s catalog.depth) item hmember name
  have hthere : ∀ member, Gives catalog (Specifier.resolve catalog s) item expand member name v ↔
      .text name ∈ expand ∧
        fieldValue catalog (resolveWithin catalog s catalog.depth) item member name = .ok v :=
    fun _ => gives_iff
  rw [hthere, hthere, hvalue]

end Answer

namespace Atlas

/-- The drawers of a store. -/
def inDrawers : Cursor :=
  (Cursor.atRoot 0 "s").property "drawers"

end Atlas

end ResourceAtlas

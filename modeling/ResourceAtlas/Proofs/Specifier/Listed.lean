import Mathlib.Data.List.Forall2
import ResourceAtlas.Proofs.Outcome
import ResourceAtlas.Proofs.Query.Selection
import ResourceAtlas.Proofs.Specifier.Selected

/-!
# What a collection lists

Without a window a query selects members of a collection, and the collection lists references to
them. A window shows a stretch of that list, and filling in fields leaves the addresses in it alone.
-/

namespace ResourceAtlas

open Address Number Query Schema Text

section References

variable {c : Cursor} {indices : List Nat} {refs : List Value}

/-- References are made one by one. -/
theorem references_ok_iff : references c indices = .ok refs ↔
    List.Forall₂ (fun (i : Nat) r => reference (c.atIndex (.int (i : Nat))) = .ok r) indices
      refs := by
  induction indices generalizing refs with
  | nil =>
    rw [List.forall₂_nil_left_iff]
    exact ⟨fun h => (Except.ok.inj h).symm, fun h => h ▸ rfl⟩
  | cons i rest ih =>
    constructor
    · intro h
      obtain ⟨first, more, hfirst, hmore, rfl⟩ := references_cons h
      exact .cons hfirst (ih.mp hmore)
    · intro h
      cases h with
      | cons hfirst hmore =>
        rw [references, hfirst, ih.mpr hmore]
        rfl

/-- There is a reference for every index. -/
theorem length_references (h : references c indices = .ok refs) : refs.length = indices.length :=
  (references_ok_iff.mp h).length_eq.symm

/-- References to a stretch of indices are a stretch of the references. -/
theorem references_stretch (h : references c indices = .ok refs) (offset size : Nat) :
    references c ((indices.drop offset).take size) = .ok ((refs.drop offset).take size) :=
  references_ok_iff.mpr (List.forall₂_take _ (List.forall₂_drop _ (references_ok_iff.mp h)))

/-- The text of a reference to a member. -/
theorem reference_atIndex {base : List Char} (hbase : stepsTextFrom [] c.steps = .ok base) {i : Nat}
    {r : Value} (h : reference (c.atIndex (.int i)) = .ok r) :
    (Numeral.intText? i).isSome ∧
      r = .mapping [("uri", .text (String.ofList (base ++ indexText (intText i))))] := by
  obtain ⟨uri, huri, rfl⟩ := reference_mapping h
  have hin : (c.atIndex (.int i)).isOutside = false := rfl
  rw [Cursor.uri_inside hin] at huri
  obtain ⟨text, htext, huri⟩ := bind_eq_ok.mp huri
  obtain ⟨chars, hchars, rfl⟩ := map_eq_ok.mp htext
  rw [show (c.atIndex (.int i)).steps = c.steps ++ [.index (.int i)] from rfl,
    stepsTextFrom_append, hbase] at hchars
  obtain ⟨next, hnext, hchars⟩ := bind_eq_ok.mp hchars
  obtain rfl := Except.ok.inj hnext
  obtain ⟨last, hlast, hchars⟩ := bind_eq_ok.mp hchars
  obtain rfl := Except.ok.inj hchars
  obtain ⟨digits, hdigits, hlast⟩ := bind_eq_ok.mp hlast
  obtain rfl := Except.ok.inj hlast
  have hwritten : (Numeral.intText? i).isSome := by
    rw [show (Value.int i).string? = (Numeral.intText? i).map String.ofList from rfl] at hdigits
    cases hint : Numeral.intText? i with
    | none =>
      rw [hint] at hdigits
      exact (nomatch hdigits)
    | some chars => rfl
  rw [string?_int hwritten] at hdigits
  obtain rfl := Except.ok.inj hdigits
  refine ⟨hwritten, ?_⟩
  rw [← Except.ok.inj huri, indexText]
  simp only [String.toList_ofList (l := intText i), List.append_assoc]
  rfl

/-- Every index that is referred to can be written. -/
theorem lt_of_mem_references {base : List Char} (hbase : stepsTextFrom [] c.steps = .ok base)
    (h : references c indices = .ok refs) {i : Nat} (hi : i ∈ indices) :
    i < 10 ^ Numeral.maxDigits := by
  obtain ⟨k, hk, rfl⟩ := List.mem_iff_getElem.mp hi
  have hlt : k < refs.length := by rw [length_references h]; exact hk
  have hr := (references_ok_iff.mp h).get hk hlt
  exact (Numeral.intText?_isSome_iff _).mp (reference_atIndex hbase hr).1

end References

section Filled

variable {catalog : Catalog} {resolve : Resolver}

/-- The fields that are filled in are those that are asked for and are children. -/
theorem mem_fieldsBelow_iff {children : Keyed NodeId} {expand : List Value} {fields : List String}
    (h : fieldsBelow children expand = .ok fields) {name : String} :
    name ∈ fields ↔ .text name ∈ expand ∧ Keyed.has name children = true := by
  induction expand generalizing fields with
  | nil =>
    obtain rfl := Except.ok.inj h
    simp
  | cons field rest ih =>
    obtain ⟨key, hkey, h⟩ := bind_eq_ok.mp h
    obtain ⟨more, hmore, h⟩ := bind_eq_ok.mp h
    have hself : field = key := by
      unfold Value.asKey at hkey
      split at hkey
      · cases hkey
      · exact Except.ok.inj hkey
    subst hself
    obtain rfl := Except.ok.inj h
    split
    · next other =>
      rw [List.mem_cons, Value.text.injEq]
      split
      · next hhas =>
        rw [List.mem_cons, ih hmore, or_and_right]
        refine or_congr ⟨?_, And.left⟩ Iff.rfl
        rintro rfl
        exact ⟨rfl, hhas⟩
      · next hhas =>
        rw [ih hmore, or_and_right]
        refine (or_iff_right ?_).symm
        rintro ⟨rfl, hname⟩
        exact hhas hname
    · next hnot =>
      rw [ih hmore, List.mem_cons, or_and_right]
      exact (or_iff_right fun hfield => hnot name hfield.1.symm).symm

/-- Where fields are filled in, they are the children of members that are asked for. -/
theorem mem_fieldsToFill_iff {item : Node} {children : Keyed NodeId} {expand : List Value}
    {fields : List String} (hchildren : item.below catalog = .ok children)
    (h : fieldsToFill catalog item expand = .ok fields) {name : String} :
    name ∈ fields ↔ .text name ∈ expand ∧ Keyed.has name children = true := by
  unfold fieldsToFill at h
  split at h
  · next hnil =>
    obtain rfl := Except.ok.inj h
    simp [List.isEmpty_iff.mp hnil]
  · obtain ⟨own, hown, h⟩ := bind_eq_ok.mp h
    obtain rfl := Except.ok.inj (hchildren.symm.trans hown)
    exact mem_fieldsBelow_iff h

/-- Fields of members to fill in are asked for. -/
theorem text_mem_of_fieldsToFill {item : Node} {expand : List Value} {fields : List String}
    (h : fieldsToFill catalog item expand = .ok fields) {name : String} (hname : name ∈ fields) :
    .text name ∈ expand := by
  unfold fieldsToFill at h
  split at h
  · obtain rfl := Except.ok.inj h
    exact absurd hname List.not_mem_nil
  · obtain ⟨children, -, h⟩ := bind_eq_ok.mp h
    exact ((mem_fieldsBelow_iff h).mp hname).1

/-- The addresses that references name. -/
def uris (refs : List Value) : List Value :=
  refs.map (Value.member "uri")

/-- The addresses of references to members are those of positions behind the address around. -/
theorem mem_uris {c : Cursor} {base : List Char} (hbase : stepsTextFrom [] c.steps = .ok base)
    {indices : List Nat} {refs : List Value} (h : references c indices = .ok refs) {x : Value}
    (hx : x ∈ uris refs) : ∃ i : Nat, (Numeral.intText? i).isSome ∧
      x = .text (String.ofList (base ++ indexText (intText i))) := by
  obtain ⟨r, hr, rfl⟩ := List.mem_map.mp hx
  obtain ⟨k, hk, rfl⟩ := List.mem_iff_getElem.mp hr
  have hlt : k < indices.length := by rw [← length_references h]; exact hk
  obtain ⟨hwritten, hreference⟩ :=
    reference_atIndex hbase ((references_ok_iff.mp h).get hlt hk)
  refine ⟨_, hwritten, ?_⟩
  rw [show refs[k] = refs.get ⟨k, hk⟩ from rfl, hreference]
  rfl

end Filled

section Gains

/-- An item is a reference that has gained fields, all of them asked for. -/
def Gains (expand : List Value) (ref item : Value) : Prop :=
  ∃ uri more, ref = .mapping [("uri", uri)] ∧ item = .mapping (("uri", uri) :: more) ∧
    ∀ name ∈ Keyed.keys more, .text name ∈ expand

/-- A field that resolves is put in. -/
theorem expandItem_ok {resolve : String → Outcome Value} {field : String} {v : Value}
    (h : resolve field = .ok v) (rest : List String) (item : Keyed Value) :
    expandItem (field :: rest) resolve item = expandItem rest resolve (item.put field v) := by
  unfold expandItem
  rw [List.foldl_cons, h]

/-- A field that does not resolve is left out. -/
theorem expandItem_error {resolve : String → Outcome Value} {field : String} {f : Fault}
    (h : resolve field = .error f) (rest : List String) (item : Keyed Value) :
    expandItem (field :: rest) resolve item = expandItem rest resolve item := by
  unfold expandItem
  rw [List.foldl_cons, h]

/-- Fields are put behind the address. -/
theorem expandItem_uri {fields : List String} (hfields : "uri" ∉ fields)
    (resolve : String → Outcome Value) (uri : Value) (more : Keyed Value) :
    ∃ more', expandItem fields resolve (("uri", uri) :: more) = ("uri", uri) :: more' ∧
      ∀ name ∈ Keyed.keys more', name ∈ Keyed.keys more ∨ name ∈ fields := by
  induction fields generalizing more with
  | nil => exact ⟨more, rfl, fun _ => .inl⟩
  | cons field rest ih =>
    have hne : "uri" ≠ field := fun heq => hfields (heq ▸ List.mem_cons_self)
    have hrest : "uri" ∉ rest := fun hmem => hfields (List.mem_cons_of_mem field hmem)
    cases hfield : resolve field with
    | error f =>
      obtain ⟨more', hmore, hkeys⟩ := ih hrest more
      rw [expandItem_error hfield]
      exact ⟨more', hmore, fun name hname => (hkeys name hname).imp_right
        (List.mem_cons_of_mem field)⟩
    | ok v =>
      obtain ⟨more', hmore, hkeys⟩ := ih hrest (more.put field v)
      rw [expandItem_ok hfield, Keyed.put, if_neg hne]
      refine ⟨more', hmore, fun name hname => ?_⟩
      rcases hkeys name hname with hput | hlater
      · rcases Keyed.mem_keys_put.mp hput with rfl | hmem
        · exact .inr List.mem_cons_self
        · exact .inl hmem
      · exact .inr (List.mem_cons_of_mem field hlater)

variable {catalog : Catalog} {resolve : Resolver} {item : Node} {c : Cursor} {indices : List Nat}
  {shown : List Value}

/-- As many references are left when fields are filled in. -/
theorem length_filled (fields : List String) (selected : List (Value × Nat)) :
    (filled catalog resolve item c fields selected shown).length = shown.length := by
  simp [filled, expandItems]

/-- References that are filled in gain fields. -/
theorem gains_filled (h : references c indices = .ok shown) {expand : List Value}
    {fields : List String} (hfields : fieldsToFill catalog item expand = .ok fields)
    (huri : .text "uri" ∉ expand) (selected : List (Value × Nat)) :
    List.Forall₂ (Gains expand) shown (filled catalog resolve item c fields selected shown) := by
  have hasked : ∀ name ∈ fields, .text name ∈ expand := fun _ => text_mem_of_fieldsToFill hfields
  refine List.forall₂_iff_get.mpr ⟨(length_filled fields selected).symm, fun i hi hi' => ?_⟩
  have hindex : i < indices.length := by rw [← length_references h]; exact hi
  obtain ⟨uri, -, hr⟩ := reference_mapping ((references_ok_iff.mp h).get hindex hi)
  obtain ⟨more, hmore, hkeys⟩ := expandItem_uri (fun hmem => huri (hasked "uri" hmem))
    (fun name => fieldValue catalog resolve item
      (c.atIndex (.int ((selected.map (·.2)).getD i 0))) name) (.text uri) []
  refine ⟨.text uri, more, hr, ?_, fun name hname => ?_⟩
  · rw [List.get_eq_getElem] at hr ⊢
    simp only [filled, expandItems, List.getElem_map, List.getElem_mapIdx, hr]
    exact congrArg Value.mapping hmore
  · exact hasked name ((hkeys name hname).resolve_left List.not_mem_nil)

/-- References as they are have gained nothing. -/
theorem gains_references (h : references c indices = .ok shown) {expand : List Value} :
    List.Forall₂ (Gains expand) shown shown := by
  induction indices generalizing shown with
  | nil =>
    obtain rfl := Except.ok.inj h
    exact .nil
  | cons i rest ih =>
    obtain ⟨first, more, hfirst, hmore, rfl⟩ := references_cons h
    obtain ⟨uri, -, rfl⟩ := reference_mapping hfirst
    exact .cons ⟨_, [], rfl, rfl, fun name hname => absurd hname List.not_mem_nil⟩ (ih hmore)

/-- Fields that are gained leave the addresses alone. -/
theorem uris_of_gains {expand : List Value} {refs : List Value}
    (h : List.Forall₂ (Gains expand) shown refs) : uris refs = uris shown := by
  induction h with
  | nil => rfl
  | cons hfirst _ ih =>
    obtain ⟨uri, more, rfl, rfl, -⟩ := hfirst
    exact congrArg (uri :: ·) ih

end Gains

/-- The members of a location that a state selects, with the references to them. -/
structure Listed (s : Store) (c : Cursor) (t : State) (selected : List (Value × Nat))
    (refs : List Value) : Prop where
  /-- Members are there, and the state selects some of them. -/
  selects : ∃ data items, c.raw s = .ok data ∧ membersOf .candidates data = .ok items ∧
    selectMembers t items = .ok selected
  /-- The selected members are referred to. -/
  refers : references c (selected.map (·.2)) = .ok refs

namespace Listed

variable {s : Store} {c : Cursor} {t q : State} {selected : List (Value × Nat)} {refs : List Value}

/-- States that are alike list the same. -/
theorem alike (h : Listed s c t selected refs) {t' : State} (ht : t'.Alike t) :
    Listed s c t' selected refs := by
  obtain ⟨data, items, hdata, hitems, hselected⟩ := h.selects
  exact ⟨⟨data, items, hdata, hitems, (ht.select_eq _ _).trans hselected⟩, h.refers⟩

/-- Near cursors list the same. -/
theorem near (h : Listed s c t selected refs) {d : Cursor} (hd : c.Near d) :
    Listed s d t selected refs := by
  obtain ⟨data, items, hdata, hitems, hselected⟩ := h.selects
  exact ⟨⟨data, items, (hd.raw_eq s).symm.trans hdata, hitems, hselected⟩,
    (hd.references_eq _).symm.trans h.refers⟩

/-- As many references are listed as members are selected. -/
theorem length_eq (h : Listed s c t selected refs) : refs.length = selected.length := by
  rw [length_references h.refers, List.length_map]

/-- No member is selected twice. -/
theorem nodup (h : Listed s c t selected refs) : (selected.map (·.2)).Nodup := by
  obtain ⟨data, items, -, -, hselected⟩ := h.selects
  exact nodup_selectMembers hselected

/-- There are no more references than indices that can be written. -/
theorem length_le (h : Listed s c t selected refs) {base : List Char}
    (hbase : stepsTextFrom [] c.steps = .ok base) : refs.length ≤ 10 ^ Numeral.maxDigits := by
  have hsub : selected.map (·.2) ⊆ List.range (10 ^ Numeral.maxDigits) := fun i hi =>
    List.mem_range.mpr (lt_of_mem_references hbase h.refers hi)
  have hle := (h.nodup.subperm hsub).length_le
  rw [List.length_range, List.length_map] at hle
  rw [h.length_eq]
  exact hle

end Listed

/-- A node shows what a state selects: it honours queries, or shows all members and is asked for
nothing. -/
def Schema.Node.Shows (n : Node) (t : State) : Prop :=
  n.resolution = .selected ∨ n.resolution = .members ∧ t = .empty

section Resolved

variable {catalog : Catalog} {s : Store} {c : Cursor} {t : State} {node : Node}
  {selected : List (Value × Nat)} {refs : List Value}

/-- What a node that honours queries answers within a depth where a state lists references: those, filled
in where members have a node of their own. -/
theorem Listed.resolveWithin_eq (h : Listed s c t selected refs) (hin : c.isOutside = false)
    (hn : node.resolution = .selected) (depth : Nat) :
    resolveWithin catalog s (depth + 1) node (c.withQuery t) = (do
      match ← node.itemNode? catalog with
      | none => .ok (.list refs)
      | some item => do
        let fields ← fieldsToFill catalog item t.expand
        .ok (.list (filled catalog (resolveWithin catalog s depth) item (c.withQuery t) fields selected
          refs))) := by
  have hquery := Cursor.query_withQuery hin t
  obtain ⟨⟨data, items, hdata, hitems, hselected⟩, hshown⟩ :=
    h.near (Cursor.near_withQuery c t)
  rw [resolveWithin_selected s _ hn, hdata]
  show (selectedReferences catalog _ node _ data).map Value.list = _
  rw [selectedReferences_eq hitems (by rw [hquery]; exact hselected) hshown, hquery]
  cases node.itemNode? catalog with
  | error f => rfl
  | ok item? =>
    cases item? with
    | none => rfl
    | some item =>
      simp only [bind, Except.bind]
      cases fieldsToFill catalog item t.expand <;> rfl

/-- What a node that honours queries answers where a state lists references. -/
theorem Listed.resolve_eq (h : Listed s c t selected refs) (hin : c.isOutside = false)
    (hn : node.resolution = .selected) (registered : Bool) :
    (Specifier.mk (c.withQuery t) node registered).resolve catalog s = (do
      match ← node.itemNode? catalog with
      | none => .ok (.list refs)
      | some item => do
        let fields ← fieldsToFill catalog item t.expand
        .ok (.list (filled catalog (resolveWithin catalog s (2 * catalog.size + 3)) item
          (c.withQuery t) fields selected refs))) :=
  h.resolveWithin_eq hin hn _

/-- A node that shows what a state selects resolves to bare references where that lists any. -/
theorem resolve_referencesOnly_iff (hin : c.isOutside = false) (hn : node.Shows t)
    {registered : Bool} {v : Value} :
    (Specifier.mk (c.withQuery t) node.referencesOnly registered).resolve catalog s = .ok v ↔
      ∃ selected refs, Listed s c t selected refs ∧ v = .list refs := by
  have hnear := Cursor.near_withQuery c t
  constructor
  · intro h
    change resolveWithin catalog s (2 * catalog.size + 3 + 1) node.referencesOnly _ = _ at h
    rcases hn with hn | ⟨hn, rfl⟩
    · rw [resolveWithin_selected s _ (show node.referencesOnly.resolution = .selected from hn)] at h
      obtain ⟨data, hdata, h⟩ := bind_eq_ok.mp h
      obtain ⟨answer, hanswer, rfl⟩ := map_eq_ok.mp h
      obtain ⟨items, selected, shown, hitems, hselected, hshown⟩ := selectedReferences_ok hanswer
      rw [selectedReferences_eq hitems hselected hshown] at hanswer
      obtain rfl := Except.ok.inj hanswer
      rw [Cursor.query_withQuery hin] at hselected
      exact ⟨selected, shown, Listed.near ⟨⟨data, items, hdata, hitems, hselected⟩, hshown⟩
        hnear.symm, rfl⟩
    · rw [resolveWithin_members s _ (show node.referencesOnly.resolution = .members from hn)] at h
      obtain ⟨data, hdata, h⟩ := bind_eq_ok.mp h
      obtain ⟨items, hitems, h⟩ := bind_eq_ok.mp h
      obtain ⟨refs, hrefs, rfl⟩ := map_eq_ok.mp h
      rw [← indices_zipIdx] at hrefs
      exact ⟨items.zipIdx, refs, Listed.near ⟨⟨data, items, hdata, membersOf_ok hitems,
        selectMembers_empty items⟩, hrefs⟩ hnear.symm, rfl⟩
  · rintro ⟨selected, refs, hlisted, rfl⟩
    rcases hn with hn | ⟨hn, rfl⟩
    · rw [hlisted.resolve_eq hin (show node.referencesOnly.resolution = .selected from hn)]
      rfl
    · obtain ⟨⟨data, items, hdata, hitems, hselected⟩, hshown⟩ := hlisted.near hnear
      rw [selectMembers_empty] at hselected
      obtain rfl := Except.ok.inj hselected
      rw [indices_zipIdx] at hshown
      show resolveWithin catalog s (2 * catalog.size + 3 + 1) node.referencesOnly _ = _
      rw [resolveWithin_members s _ (show node.referencesOnly.resolution = .members from hn), hdata]
      refine bind_eq_ok.mpr ⟨data, rfl, bind_eq_ok.mpr ⟨items, membersOf_ok hitems, ?_⟩⟩
      rw [hshown]
      rfl

end Resolved

end ResourceAtlas

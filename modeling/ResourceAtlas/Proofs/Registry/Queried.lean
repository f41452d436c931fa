import ResourceAtlas.Proofs.Query.Numbered
import ResourceAtlas.Proofs.Registry.Interchange
import ResourceAtlas.Proofs.Registry.Member
import ResourceAtlas.Proofs.Specifier.Listed

/-!
# What a query refers to

A query of a collection answers with references to the members that it selects, in the order in which it
selects them: the members that applying the query to the collection as a plain list would give. Each
reference names the place of its member in the collection, whatever order and window are asked for, and
leads back to it where the address of the collection can take a position.
-/

namespace ResourceAtlas

open Address Number Query Schema Text

/-- Members that can all be referred to are. -/
theorem exists_references {c : Cursor} {indices : List Nat}
    (h : ∀ i ∈ indices, ∃ uri, (c.atIndex (.int (i : Nat))).uri = .ok uri) :
    ∃ refs, references c indices = .ok refs := by
  induction indices with
  | nil => exact ⟨[], rfl⟩
  | cons i rest ih =>
    obtain ⟨uri, huri⟩ := h i List.mem_cons_self
    obtain ⟨refs, hrefs⟩ := ih fun j hj => h j (List.mem_cons_of_mem i hj)
    exact ⟨_, bind_eq_ok.mpr ⟨_, map_eq_ok.mpr ⟨uri, huri, rfl⟩,
      bind_eq_ok.mpr ⟨refs, hrefs, rfl⟩⟩⟩

/-- The definitions that the schema of members refers to are there. -/
def Schema.Node.MembersDefined (catalog : Catalog) (n : Node) : Prop :=
  ∃ item?, n.itemNode? catalog = .ok item? ∧
    ∀ item, item? = some item → ∃ children, item.below catalog = .ok children

/-- Fields of members that are named by texts can be filled in or are passed over. -/
theorem exists_fieldsBelow (children : Keyed NodeId) {expand : List Value}
    (h : ∀ field ∈ expand, ∃ name, field = .text name) :
    ∃ fields, fieldsBelow children expand = .ok fields := by
  induction expand with
  | nil => exact ⟨[], rfl⟩
  | cons field rest ih =>
    obtain ⟨name, rfl⟩ := h field List.mem_cons_self
    obtain ⟨fields, hfields⟩ := ih fun f hf => h f (List.mem_cons_of_mem _ hf)
    exact ⟨_, bind_eq_ok.mpr ⟨.text name, rfl, bind_eq_ok.mpr ⟨fields, hfields, rfl⟩⟩⟩

/-- So can those of members whose definitions are there. -/
theorem exists_fieldsToFill {catalog : Catalog} {item : Node} {children : Keyed NodeId}
    {expand : List Value} (hchildren : item.below catalog = .ok children)
    (h : ∀ field ∈ expand, ∃ name, field = .text name) :
    ∃ fields, fieldsToFill catalog item expand = .ok fields := by
  unfold fieldsToFill
  split
  · exact ⟨[], rfl⟩
  · obtain ⟨fields, hfields⟩ := exists_fieldsBelow children h
    exact ⟨fields, bind_eq_ok.mpr ⟨children, hchildren, hfields⟩⟩

/-- A query that answers on the members of a location lists references to the members that applying it to
the list of the members gives, each at the place where it lies there and none twice. -/
theorem exists_listed {s : Store} {c : Cursor} {q : State} {data : Value} {items : List Value}
    (hdata : c.raw s = .ok data) (hitems : data.sequence? = some items)
    (hwritten : ∀ i < items.length, ∃ uri, (c.atIndex (.int (i : Nat))).uri = .ok uri)
    (hanswers : ∀ item ∈ items, AnswersOn q.filter item)
    (hwindow : ∀ w, q.window = some w → w.Counts)
    (hread : ∀ order, q.sort = some order → ∀ item ∈ items.filter (admits q.filter),
      ∃ v, Value.fieldOf order.field item = .ok v)
    (hcompare : ∀ order, q.sort = some order → ∀ x ∈ items.filter (admits q.filter),
      ∀ y ∈ items.filter (admits q.filter),
        ∃ o, compareValues (order.valueOf x) (order.valueOf y) = .ok o) :
    ∃ selected refs, Listed s c q selected refs ∧ (selected.map Prod.snd).Nodup ∧
      (∀ m ∈ selected, items[m.2]? = some m.1) ∧ q.apply items = .ok (selected.map Prod.fst) := by
  obtain ⟨selected, hselected, happly⟩ := exists_selectMembers hanswers hwindow
    fun order hs x hx y hy =>
      order.exists_precedes (hread order hs x hx) (hread order hs y hy) (hcompare order hs x hx y hy)
  have hplaces := fun m => getElem?_of_selectMembers hselected (m := m)
  obtain ⟨refs, hrefs⟩ : ∃ refs, references c (selected.map Prod.snd) = .ok refs := by
    refine exists_references fun i hi => ?_
    obtain ⟨m, hm, rfl⟩ := List.mem_map.mp hi
    exact hwritten m.2 (List.getElem?_eq_some_iff.mp (hplaces m hm)).1
  exact ⟨selected, refs, ⟨⟨data, items, hdata, by rw [membersOf, hitems], hselected⟩, hrefs⟩,
    nodup_selectMembers hselected, hplaces, happly⟩

section Answer

variable {catalog : Catalog} {s : Store} {c : Cursor} {t : State} {node : Node}
  {selected : List (Value × Nat)} {shown : List Value}

/-- A query of members whose definitions are there answers with the references to those that are listed,
each with the fields that it has gained. -/
theorem Listed.exists_answer (h : Listed s c t selected shown) (hin : c.isOutside = false)
    (hn : node.resolution = .selected) (hdefined : node.MembersDefined catalog)
    (htexts : ∀ field ∈ t.expand, ∃ name, field = .text name) (registered : Bool) :
    ∃ refs, (Specifier.mk (c.withQuery t) node registered).resolve catalog s = .ok (.list refs) ∧
      refs.length = shown.length ∧ (t.expand = [] → refs = shown) ∧
      (.text "uri" ∉ t.expand → List.Forall₂ (Gains t.expand) shown refs) := by
  obtain ⟨item?, hitem, hbelow⟩ := hdefined
  rw [h.resolve_eq hin hn, hitem]
  cases item? with
  | none => exact ⟨shown, rfl, rfl, fun _ => rfl, fun _ => gains_references h.refers⟩
  | some item =>
    obtain ⟨children, hchildren⟩ := hbelow item rfl
    obtain ⟨fields, hfields⟩ := exists_fieldsToFill hchildren htexts
    have hrefers := (h.near (Cursor.near_withQuery c t)).refers
    refine ⟨_, bind_eq_ok.mpr ⟨_, rfl, bind_eq_ok.mpr ⟨fields, hfields, rfl⟩⟩,
      length_filled fields selected, fun hnil => ?_, fun huri => gains_filled hrefers hfields huri _⟩
    rw [fieldsToFill, hnil] at hfields
    obtain rfl := Except.ok.inj hfields
    rw [filled, expandItems_nil, mapping_entriesOrNone hrefers]

end Answer

namespace Atlas

/-- A collection stands where the segments of its canonical address lead, and the last of them is
bare. -/
structure StandsBare (a : Atlas) (here : Standing) (scheme : String) (before : List Segment)
    (head : String) : Prop where
  /-- The scheme is one that an address can start with. -/
  readable : ReadableScheme scheme
  /-- The segments are read back as they stand. -/
  writable : Writable (before ++ [⟨head, none⟩])
  /-- They lead to the collection. -/
  leads : ∃ what, Keyed.get? scheme a.registry.schemes = some what ∧
    a.walk (a.start scheme what) (before ++ [⟨head, none⟩]) = .ok (.ok here)
  /-- They are its address. -/
  canonical : stepsTextFrom [] here.cursor.steps =
    .ok (canonicalText scheme (before ++ [⟨head, none⟩]))

variable {a : Atlas} {s : Store} {c : Cursor} {node : Node} {q : State} {data : Value}
  {items : List Value}

/-- A reference to a member of a collection that stands at a bare last segment leads to the member, if
members are selected by position. -/
theorem StandsBare.leadsToMember {here : Standing} {scheme : String} {before : List Segment}
    {head : String} (h : a.StandsBare here scheme before head)
    (hno : here.node.isNamespace = false) (hin : here.cursor.isOutside = false)
    (htakes : a.TakesPositions here.node) {list : Position}
    (hlist : here.cursor.position? s = .ok (some list))
    (hitems : (list.read s).sequence? = some items) {m : Value × Nat}
    (hm : items[m.2]? = some m.1) {r : Value}
    (hr : reference (here.cursor.atIndex (.int (m.2 : Nat))) = .ok r) :
    a.LeadsToMember s list (r.member "uri") m := by
  obtain ⟨what, hwhat, hwalk⟩ := h.leads
  obtain ⟨hwritten, rfl⟩ := reference_atIndex h.canonical hr
  exact leadsToMember_of_walk h.readable hwhat h.writable hwalk hno hin htakes hlist hitems hwritten hm

/-- The collection of folders at the root stands at its address. -/
theorem standsBare_foldersAt (accessors : Keyed Method) :
    (folders accessors).StandsBare
      ⟨(foldersAt accessors).cursor, (foldersAt accessors).node⟩ "s" [] "folders" where
  readable := readableScheme_of_read (resolve_foldersAt accessors).1
  writable := writable_of_bare (resolve_foldersAt accessors).1 clear_folders rfl
  leads := ⟨⟨0, 0⟩, rfl, rfl⟩
  canonical := rfl

/-- A query that cannot select members breaks off. -/
theorem resolve_of_unselected {catalog : Catalog} {spec : Specifier}
    (hn : spec.node.resolution = .selected) (hdata : spec.cursor.raw s = .ok data)
    (hitems : membersOf .candidates data = .ok items) {f : Fault}
    (h : selectMembers spec.cursor.query items = .error f) :
    spec.resolve catalog s = .error f := by
  show resolveWithin catalog s (_ + 1) spec.node spec.cursor = _
  rw [resolveWithin_selected s _ hn, hdata]
  exact congrArg (Except.map Value.list) (bind_eq_error.mpr (.inr ⟨items, hitems,
    bind_eq_error.mpr (.inl h)⟩))

section Overlong

variable {n : Int} (hn : Numeral.intText? n = none)
include hn

/-- An integer of more digits than are written has no text. -/
theorem string?_overlong : (Value.int n).string? = none := by
  rw [show (Value.int n).string? = (Numeral.intText? n).map String.ofList from rfl, hn]
  rfl

/-- An item with a rank. -/
def ranked (rank : Value) : Value :=
  .mapping [("rank", rank)]

/-- An integer of more digits than are written and a text cannot be put in order. -/
theorem apply_overlong : State.apply ⟨[], some ⟨.text "rank", .ascending⟩, none, []⟩
    [ranked (.int n), ranked (.text "a")] = .error .integerTooLong := by
  have hless : Value.less? (.text "a") (.int n) = none := by rw [Value.less?] <;> simp
  have hcompare : compareValues (.text "a") (.int n) = .error .integerTooLong := by
    unfold compareValues
    rw [hless, string?_overlong hn]
    rfl
  have hprecedes : Order.precedes ⟨.text "rank", .ascending⟩ (ranked (.text "a"))
      (ranked (.int n)) = .error .integerTooLong :=
    bind_eq_error.mpr (.inr ⟨_, rfl, bind_eq_error.mpr (.inr ⟨_, rfl,
      bind_eq_error.mpr (.inl hcompare)⟩)⟩)
  exact bind_eq_error.mpr (.inr ⟨_, keepMatching_nil _ _,
    bind_eq_error.mpr (.inl (Sorting.sortMembers_pair hprecedes))⟩)

/-- Nothing is selected by such an order. -/
theorem selectMembers_overlong :
    selectMembers ⟨[], some ⟨.text "rank", .ascending⟩, none, []⟩
      [ranked (.int n), ranked (.text "a")] = .error .integerTooLong := by
  have happly := selectMembers_apply ⟨[], some ⟨.text "rank", .ascending⟩, none, []⟩
    [ranked (.int n), ranked (.text "a")]
  rw [apply_overlong hn] at happly
  cases hs : selectMembers _ _ with
  | ok selected =>
    rw [hs] at happly
    exact (nomatch happly)
  | error f =>
    rw [hs] at happly
    exact congrArg Except.error (Except.error.inj happly)

/-- A folder of an identifier with a folder in it. -/
def crate (id : Int) : Value :=
  .mapping [("id", .int id), ("folders", .list [folder "A" []])]

/-- The folders in the folder of an identifier. -/
def inCrate (id : Int) : Cursor :=
  ((foldersAt folderAccessors).cursor.identified (.int id)).property "folders"

omit hn in
/-- The folders in the folder of an identifier are there, whatever the identifier. -/
theorem raw_inCrate (id : Int) :
    (inCrate id).raw (folderStore [crate id]) = .ok (.list [folder "A" []]) := by
  have hequal : Value.equal (.int id) (.int id) = true := by
    simp [Value.equal, Value.numeric?, Value.Numeric.equal]
  have hsame : sameIdentifier (.int id) (.int id) = .ok true := by
    unfold sameIdentifier
    rw [hequal]
    rfl
  have hfind : findMember "id" (.int id) [crate id] = .ok (some 0) := by
    rw [findMember, show (crate id).member "id" = .int id from rfl, hsame]
    rfl
  have hplace : (Selector.id (.int id)).place? (.list [crate id]) = .ok (some (.index 0)) :=
    map_eq_ok.mpr ⟨_, hfind, rfl⟩
  have hmember := Cursor.position_child (s := folderStore [crate id]) Selector.noConfusion
    (show (foldersAt folderAccessors).cursor.position? _ =
      .ok (some ⟨.document 0, [.key "folders"]⟩) from rfl) hplace (.id (.int id)) .empty
  have hfolders := Cursor.position_child Selector.noConfusion hmember
    (show (Selector.property "folders").place? (crate id) = .ok (some (.key "folders")) from rfl)
    (.prop "folders") .empty
  exact (Cursor.raw_of_position hfolders).trans rfl

/-- A folder in a folder of such an identifier cannot be referred to. -/
theorem resolve_overlong_owner :
    (Specifier.mk (inCrate n) (foldersAt folderAccessors).node.queryable true).resolve
      (folders folderAccessors).catalog (folderStore [crate n]) = .error .integerTooLong := by
  have hsteps : stepsTextFrom [] ((inCrate n).atIndex (.int (0 : Nat))).steps =
      .error .integerTooLong := by
    show stepsTextFrom [] [.root "s", .prop "folders", .id (.int n), .prop "folders",
      .index (.int (0 : Nat))] = _
    refine bind_eq_error.mpr (.inr ⟨_, rfl, bind_eq_error.mpr (.inr ⟨_, rfl,
      bind_eq_error.mpr (.inl ?_)⟩)⟩)
    rw [Step.append, string?_overlong hn]
    rfl
  have hreferences : references (inCrate n) [0] = .error .integerTooLong := by
    rw [references, reference, Cursor.uri_inside rfl, addressText, stepsText, hsteps]
    rfl
  show resolveWithin _ _ (_ + 1) _ _ = _
  rw [resolveWithin_selected _ _ rfl, raw_inCrate]
  exact congrArg (Except.map Value.list) (bind_eq_error.mpr (.inr ⟨[folder "A" []], rfl,
    bind_eq_error.mpr (.inr ⟨_, selectMembers_empty _,
      bind_eq_error.mpr (.inl hreferences)⟩)⟩))

end Overlong

/-- The nodes of marks with an address of their own, and of drafts that are defined nowhere. -/
def markNodes : List Node := [
  Node.gathering [("marks", 1), ("drafts", 4)],
  { Node.plain .collection .members with
    item := some (.node 2)
    methods := Node.queryMethods },
  Node.gathering [("uri", 3)],
  Node.leaf (some .text),
  { Node.plain .collection .members with
    item := some (.undefined "Draft")
    methods := Node.queryMethods }]

/-- Marks and drafts under a scheme. -/
def marks : Atlas where
  catalog := ⟨markNodes.toArray⟩
  registry := ⟨[("s", ⟨0, 0⟩)], false⟩

/-- A store with a mark and a draft. -/
def markStore : Store :=
  ⟨#[.mapping [("marks", .list [.mapping [("uri", .text "x")]]), ("drafts", .list [.null])]]⟩

end Atlas

end ResourceAtlas

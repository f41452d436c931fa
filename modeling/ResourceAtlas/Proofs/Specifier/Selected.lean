import ResourceAtlas.Proofs.Query.Selection
import ResourceAtlas.Proofs.Specifier.Near

/-!
# Selected references

A collection that honours queries and is asked for nothing shows what the plain collection shows.
-/

namespace ResourceAtlas

open Address Query Schema

/-- A state that asks for nothing is the empty one. -/
theorem Query.State.eq_empty {q : State} (h : q.isEmpty = true) : q = .empty := by
  obtain ⟨filter, sort, window, expand⟩ := q
  simp only [State.isEmpty, Bool.and_eq_true, List.isEmpty_iff, Option.isNone_iff_eq_none] at h
  obtain ⟨⟨⟨rfl, rfl⟩, rfl⟩, rfl⟩ := h
  rfl

/-- Without predicates every member is kept. -/
theorem keepMatching_nil {α : Type} (valueOf : α → Value → Outcome Value) (items : List α) :
    keepMatching valueOf [] items = .ok items := by
  induction items with
  | nil => rfl
  | cons item rest ih =>
    rw [keepMatching, ih]
    rfl

/-- The empty state selects all members in their places. -/
theorem selectMembers_empty (items : List Value) :
    selectMembers .empty items = .ok items.zipIdx := by
  unfold selectMembers State.select
  rw [show State.empty.filter = [] from rfl, keepMatching_nil]
  rfl

/-- The indices of all members in their places. -/
theorem indices_zipIdx (items : List Value) :
    items.zipIdx.map (·.2) = List.range items.length := by
  rw [List.zipIdx_map_snd, List.range_eq_range']

/-- The selected members lie where their indices say. -/
theorem getElem?_of_selectMembers {q : State} {items : List Value} {selected : List (Value × Nat)}
    (h : selectMembers q items = .ok selected) {m : Value × Nat} (hm : m ∈ selected) :
    items[m.2]? = some m.1 :=
  List.mem_zipIdx_iff_getElem?.mp ((State.select_subperm h).subset hm)

/-- No member is selected twice. -/
theorem nodup_selectMembers {q : State} {items : List Value} {selected : List (Value × Nat)}
    (h : selectMembers q items = .ok selected) : (selected.map (·.2)).Nodup := by
  obtain ⟨kept, hperm, hkept⟩ := State.select_subperm h
  have hall : (items.zipIdx.map (·.2)).Nodup := by
    rw [indices_zipIdx]
    exact List.nodup_range
  exact (hperm.map _).nodup_iff.mp (hall.sublist (hkept.map _))

/-- A reference is a mapping. -/
theorem reference_mapping {cursor : Cursor} {v : Value} (h : reference cursor = .ok v) :
    ∃ uri, cursor.uri = .ok uri ∧ v = .mapping [("uri", .text uri)] := by
  obtain ⟨uri, huri, rfl⟩ := map_eq_ok.mp h
  exact ⟨uri, huri, rfl⟩

/-- References to a first member and to the rest. -/
theorem references_cons {cursor : Cursor} {i : Nat} {rest : List Nat} {shown : List Value}
    (h : references cursor (i :: rest) = .ok shown) :
    ∃ first more, reference (cursor.atIndex (.int i)) = .ok first ∧
      references cursor rest = .ok more ∧ shown = first :: more := by
  rw [references] at h
  obtain ⟨first, hfirst, h⟩ := bind_eq_ok.mp h
  obtain ⟨more, hmore, h⟩ := bind_eq_ok.mp h
  exact ⟨first, more, hfirst, hmore, (Except.ok.inj h).symm⟩

/-- Every reference is the mapping of its entries. -/
theorem mapping_entriesOrNone {cursor : Cursor} {indices : List Nat} {shown : List Value}
    (h : references cursor indices = .ok shown) :
    (shown.map entriesOrNone).map Value.mapping = shown := by
  induction indices generalizing shown with
  | nil =>
    obtain rfl := Except.ok.inj h
    rfl
  | cons i rest ih =>
    obtain ⟨first, more, hf, hm, rfl⟩ := references_cons h
    obtain ⟨uri, -, rfl⟩ := reference_mapping hf
    rw [List.map_cons, List.map_cons, ih hm]
    rfl

/-- Nothing to fill in leaves items as they are. -/
theorem expandItems_nil (results : List (Keyed Value)) (resolve : Nat → String → Outcome Value) :
    expandItems results [] resolve = results := by
  have hitem : ∀ (i : Nat) (item : Keyed Value), expandItem [] (resolve i) item = item :=
    fun _ _ => rfl
  unfold expandItems
  simp only [hitem]
  exact List.mapIdx_eq_iff.mpr fun i => by simp

/-- The children of members that are filled in. -/
def fieldsToFill (catalog : Catalog) (item : Node) (expand : List Value) : Outcome (List String) :=
  if expand.isEmpty then .ok []
  else do fieldsBelow (← item.below catalog) expand

/-- Selected references with the fields that are filled in. -/
def filled (catalog : Catalog) (resolve : Resolver) (item : Node) (cursor : Cursor)
    (fields : List String) (selected : List (Value × Nat)) (shown : List Value) : List Value :=
  let member (i : Nat) : Cursor := cursor.atIndex (.int ((selected.map (·.2)).getD i 0))
  (expandItems (shown.map entriesOrNone) fields fun i name =>
    fieldValue catalog resolve item (member i) name).map .mapping

variable {catalog : Catalog} {resolve : Resolver}

/-- A query selects members, refers to them, and fills the references in where members have a node of
their own. -/
theorem selectedReferences_steps (catalog : Catalog) (resolve : Resolver) (node : Node)
    (cursor : Cursor) (data : Value) :
    selectedReferences catalog resolve node cursor data = (do
      let items ← membersOf .candidates data
      let selected ← selectMembers cursor.query items
      let shown ← references cursor (selected.map (·.2))
      match ← node.itemNode? catalog with
      | none => .ok shown
      | some item => do
        let fields ← fieldsToFill catalog item cursor.query.expand
        .ok (filled catalog resolve item cursor fields selected shown)) := by
  unfold selectedReferences
  refine bind_congr_ok fun items _ => bind_congr_ok fun selected _ => bind_congr_ok fun shown _ =>
    bind_congr_ok fun item? _ => ?_
  cases item? with
  | none => rfl
  | some item =>
    unfold fieldsToFill
    dsimp only
    split
    · rfl
    · cases item.below catalog with
      | error f => rfl
      | ok children => rfl

/-- What a query answers whose members are selected and referred to. -/
theorem selectedReferences_eq {node : Node} {cursor : Cursor} {data : Value} {items : List Value}
    {selected : List (Value × Nat)} {shown : List Value}
    (hitems : membersOf .candidates data = .ok items)
    (hselected : selectMembers cursor.query items = .ok selected)
    (hshown : references cursor (selected.map (·.2)) = .ok shown) :
    selectedReferences catalog resolve node cursor data = (do
      match ← node.itemNode? catalog with
      | none => .ok shown
      | some item => do
        let fields ← fieldsToFill catalog item cursor.query.expand
        .ok (filled catalog resolve item cursor fields selected shown)) := by
  rw [selectedReferences_steps, hitems, ok_bind, hselected, ok_bind, hshown, ok_bind]

/-- A query that answers has members to select from, selects some and refers to them. -/
theorem selectedReferences_ok {node : Node} {cursor : Cursor} {data : Value} {answer : List Value}
    (h : selectedReferences catalog resolve node cursor data = .ok answer) :
    ∃ items selected shown, membersOf .candidates data = .ok items ∧
      selectMembers cursor.query items = .ok selected ∧
      references cursor (selected.map (·.2)) = .ok shown := by
  unfold selectedReferences at h
  obtain ⟨items, hitems, h⟩ := bind_eq_ok.mp h
  obtain ⟨selected, hselected, h⟩ := bind_eq_ok.mp h
  obtain ⟨shown, hshown, -⟩ := bind_eq_ok.mp h
  exact ⟨items, selected, shown, hitems, hselected, hshown⟩

/-- A query that asks for nothing answers with references to all members in their places. -/
theorem selectedReferences_of_empty {node : Node} {cursor : Cursor} (hq : cursor.query = .empty)
    {data : Value} {answer : List Value}
    (h : selectedReferences catalog resolve node cursor data = .ok answer) :
    ∃ items, membersOf .candidates data = .ok items ∧
      references cursor (List.range items.length) = .ok answer := by
  obtain ⟨items, selected, shown, hitems, hselected, hshown⟩ := selectedReferences_ok h
  rw [selectedReferences_eq hitems hselected hshown] at h
  rw [hq, selectMembers_empty] at hselected
  obtain rfl := Except.ok.inj hselected
  rw [indices_zipIdx] at hshown
  refine ⟨items, hitems, hshown.trans (congrArg Except.ok ?_)⟩
  -- With no fields to fill in, the references are shown as they are.
  obtain ⟨item?, -, h⟩ := bind_eq_ok.mp h
  cases item? with
  | none => exact Except.ok.inj h
  | some item =>
    obtain ⟨fields, hfields, h⟩ := bind_eq_ok.mp h
    rw [hq] at hfields
    obtain rfl := Except.ok.inj hfields
    rw [← Except.ok.inj h, filled, expandItems_nil]
    exact (mapping_entriesOrNone hshown).symm

/-- The values of a node that shows selected members. -/
theorem resolveWithin_selected (s : Store) (depth : Nat) {node : Node}
    (hn : node.resolution = .selected) (cursor : Cursor) :
    resolveWithin catalog s (depth + 1) node cursor = (do
      let data ← cursor.raw s
      (selectedReferences catalog (resolveWithin catalog s depth) node cursor data).map .list) := by
  rw [resolveWithin, hn]

/-- The values of a node that shows all members. -/
theorem resolveWithin_members (s : Store) (depth : Nat) {node : Node}
    (hn : node.resolution = .members) (cursor : Cursor) :
    resolveWithin catalog s (depth + 1) node cursor = (do
      let data ← cursor.raw s
      let items ← membersOf .members data
      (references cursor (List.range items.length)).map .list) := by
  rw [resolveWithin, hn]

/-- Members are members whatever they are wanted for. -/
theorem membersOf_ok {wanted other : Expectation} {data : Value} {items : List Value}
    (h : membersOf wanted data = .ok items) : membersOf other data = .ok items := by
  unfold membersOf at h ⊢
  cases hs : data.sequence? with
  | none =>
    rw [hs] at h
    exact absurd h (by simp)
  | some all =>
    rw [hs] at h
    exact h

/-- A collection that is asked for nothing shows the same in the form that honours queries. -/
theorem resolveWithin_queryable {s : Store} {depth : Nat} {node : Node}
    (hn : node.Regular) (hk : node.kind.isCollection = true) {cursor : Cursor}
    (hq : cursor.query = .empty) {v : Value}
    (h : resolveWithin catalog s depth node.queryable cursor = .ok v) :
    resolveWithin catalog s depth node cursor = .ok v := by
  by_cases hquery : node.kind = .query
  · unfold Node.queryable at h
    rw [if_pos hquery] at h
    exact h
  · have hcollection : node.kind = .collection := by
      cases hkind : node.kind <;> rw [hkind] at hk hquery <;> first
        | rfl
        | exact absurd rfl hquery
        | exact absurd hk (by decide)
    cases depth with
    | zero => exact h
    | succ depth =>
      rw [resolveWithin_selected s depth (Node.resolution_queryable hn)] at h
      rw [resolveWithin_members s depth (hn.members hcollection)]
      obtain ⟨data, hdata, h⟩ := bind_eq_ok.mp h
      obtain ⟨answer, hanswer, rfl⟩ := map_eq_ok.mp h
      obtain ⟨items, hitems, hrefs⟩ := selectedReferences_of_empty hq hanswer
      rw [hdata, ok_bind, membersOf_ok hitems, ok_bind, hrefs]
      rfl

end ResourceAtlas

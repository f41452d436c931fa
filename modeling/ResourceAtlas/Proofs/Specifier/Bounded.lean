import ResourceAtlas.Proofs.Registry.Guided
import ResourceAtlas.Proofs.Registry.Passage
import ResourceAtlas.Proofs.Specifier.Selected

/-!
# How deep values lie inside each other

The value of a location is made from those of other ones: of children that are not shown as references,
and of the fields of members that a query fills in. In a grounded catalog in which computed ways ask
nothing, a schema that leads back into itself through delayed children and through collections is cut
there: locations that need each other's values make chains that are bounded by the size of the catalog,
whatever the documents hold and whatever is asked. So the bound on the depth that values are made with is
never met.
-/

namespace ResourceAtlas

open Address Query Schema

/-- The value of a location under a node, where those of the locations that it needs are made by a
resolver. -/
def valueOnce (catalog : Catalog) (s : Store) (resolve : Resolver) : Resolver := fun node cursor =>
  match node.resolution with
  | .plain => cursor.raw s
  | .checked v => do
    let data ← cursor.raw s
    v.check data
  | .computed t => do
    let data ← cursor.raw s
    t.apply data
  | .gathered => do
    let children ← node.below catalog
    (gather catalog resolve cursor children).map .mapping
  | .members => do
    let data ← cursor.raw s
    let items ← membersOf .members data
    (references cursor (List.range items.length)).map .list
  | .selected => do
    let data ← cursor.raw s
    (selectedReferences catalog resolve node cursor data).map .list

/-- With one more step of depth a value is made once from values of the depth before. -/
theorem resolveWithin_succ (catalog : Catalog) (s : Store) (depth : Nat) :
    resolveWithin catalog s (depth + 1) = valueOnce catalog s (resolveWithin catalog s depth) :=
  rfl

namespace Schema.Catalog

/-- One location needs the value of another one for its own. -/
inductive Needs (c : Catalog) : Atlas.Standing → Atlas.Standing → Prop
  /-- A gathering needs the values of its children, apart from those that are shown as references. -/
  | child {here there : Atlas.Standing} {children : Keyed NodeId} {key : String} {id : NodeId}
      (hn : here.node.resolution = .gathered) (hb : here.node.below c = .ok children)
      (hmem : (key, id) ∈ children) (hlazy : (c.node id).isLazy = false)
      (hs : stepInto c here.cursor key (c.node id) = .ok (there.cursor, there.node)) :
      Needs c here there
  /-- A query needs the values of the fields of members that it fills in. -/
  | field {here there : Atlas.Standing} {item : Node} {fields : List String}
      {children : Keyed NodeId} {name : String} {id : NodeId} (hn : here.node.resolution = .selected)
      (hi : here.node.itemNode? c = .ok (some item))
      (hf : fieldsToFill c item here.cursor.query.expand = .ok fields) (hname : name ∈ fields)
      (hb : item.below c = .ok children) (hk : Keyed.get? name children = some id) (i : Int)
      (hs : stepInto c (here.cursor.atIndex (.int i)) name (c.node id) =
        .ok (there.cursor, there.node)) :
      Needs c here there

/-- A value is made within a number of steps: every location that it needs, within one step less. -/
inductive MadeWithin (c : Catalog) : Nat → Atlas.Standing → Prop
  /-- One step, and those of the locations that are needed. -/
  | intro {n : Nat} {here : Atlas.Standing} (h : ∀ there, c.Needs here there → MadeWithin c n there) :
      MadeWithin c (n + 1) here

/-- Steps into children lead from where nothing is asked to where nothing is asked. -/
def Unasking (c : Catalog) : Prop :=
  ∀ (cursor : Cursor) (key : String) (id : NodeId) (there : Cursor) (node : Node),
    cursor.query = .empty → stepInto c cursor key (c.node id) = .ok (there, node) →
      there.query = .empty

variable {c : Catalog} {here : Atlas.Standing}

/-- A value that is made within some steps is made within more. -/
theorem MadeWithin.mono {n m : Nat} (h : c.MadeWithin n here) (hle : n ≤ m) : c.MadeWithin m here := by
  induction h generalizing m with
  | @intro n here _ ih =>
    obtain ⟨m, rfl⟩ : ∃ k, m = k + 1 := ⟨m - 1, by omega⟩
    exact .intro fun there hneeds => ih there hneeds (by omega)

/-- Locations of which each needs the value of the next are fewer than the steps that the value of the
first one is made within. -/
theorem MadeWithin.chain_length {n : Nat} (h : c.MadeWithin n here) {rest : List Atlas.Standing}
    (hchain : List.IsChain c.Needs (here :: rest)) : rest.length < n := by
  induction h generalizing rest with
  | @intro n here _ ih =>
    cases hchain with
    | singleton => exact Nat.succ_pos n
    | cons_cons hneeds hrest => exact Nat.succ_lt_succ (ih _ hneeds hrest)

end Schema.Catalog

section Congruence

variable {catalog : Catalog} {resolve resolve' : Resolver} {node : Node} {cursor : Cursor}

/-- Children that contribute the same are gathered to the same. -/
theorem gather_congr {children : List (String × NodeId)}
    (h : ∀ e ∈ children,
      childValue catalog resolve cursor e.1 e.2 = childValue catalog resolve' cursor e.1 e.2) :
    gather catalog resolve cursor children = gather catalog resolve' cursor children := by
  induction children with
  | nil => rfl
  | cons e rest ih =>
    obtain ⟨key, id⟩ := e
    rw [gather, gather, h (key, id) List.mem_cons_self,
      ih fun e he => h e (List.mem_cons_of_mem _ he)]

/-- A child contributes the same by resolvers that make the same value of where it lies, unless it is
shown as a reference. -/
theorem childValue_congr {key : String} {id : NodeId}
    (h : (catalog.node id).isLazy = false → ∀ there node,
      stepInto catalog cursor key (catalog.node id) = .ok (there, node) →
        resolve node there = resolve' node there) :
    childValue catalog resolve cursor key id = childValue catalog resolve' cursor key id := by
  unfold childValue
  dsimp only
  refine bind_congr_ok fun found hs => ?_
  cases hlazy : (catalog.node id).isLazy with
  | true => rfl
  | false => exact h hlazy found.1 found.2 hs

/-- A field has the same value by resolvers that make the same value of where it lies. -/
theorem fieldValue_congr {item : Node} {member : Cursor} {name : String}
    (h : ∀ children id there node, item.below catalog = .ok children →
      Keyed.get? name children = some id →
        stepInto catalog member name (catalog.node id) = .ok (there, node) →
          resolve node there = resolve' node there) :
    fieldValue catalog resolve item member name = fieldValue catalog resolve' item member name := by
  unfold fieldValue
  refine bind_congr_ok fun children hb => ?_
  cases hk : Keyed.get? name children with
  | none => rfl
  | some id => exact bind_congr_ok fun found hs => h children id found.1 found.2 hb hk hs

/-- References are filled in alike by fields of the same values. -/
theorem expandItems_congr {results : List (Keyed Value)} {fields : List String}
    {valueOf valueOf' : Nat → String → Outcome Value}
    (h : ∀ i, ∀ name ∈ fields, valueOf i name = valueOf' i name) :
    expandItems results fields valueOf = expandItems results fields valueOf' := by
  have hitem : ∀ i item, expandItem fields (valueOf i) item = expandItem fields (valueOf' i) item := by
    intro i item
    refine List.foldl_ext _ _ _ fun filled name hname => ?_
    rw [h i name hname]
  unfold expandItems
  simp only [hitem]

/-- What a query answers is the same by resolvers that make the same values of the fields that it fills
in. -/
theorem selectedReferences_congr
    (h : ∀ item fields, node.itemNode? catalog = .ok (some item) →
      fieldsToFill catalog item cursor.query.expand = .ok fields → ∀ (i : Int), ∀ name ∈ fields,
        fieldValue catalog resolve item (cursor.atIndex (.int i)) name =
          fieldValue catalog resolve' item (cursor.atIndex (.int i)) name) (data : Value) :
    selectedReferences catalog resolve node cursor data =
      selectedReferences catalog resolve' node cursor data := by
  rw [selectedReferences_steps, selectedReferences_steps]
  refine bind_congr_ok fun items _ => bind_congr_ok fun selected _ => bind_congr_ok fun shown _ =>
    bind_congr_ok fun item? hnode => ?_
  cases item? with
  | none => rfl
  | some item =>
    refine bind_congr_ok fun fields hfields => congrArg Except.ok ?_
    unfold filled
    dsimp only
    rw [expandItems_congr fun i name hname => h item fields hnode hfields _ name hname]

/-- A value is made the same by resolvers that make the same values of the locations that it needs. -/
theorem valueOnce_congr (s : Store)
    (h : ∀ there, catalog.Needs ⟨cursor, node⟩ there →
      resolve there.node there.cursor = resolve' there.node there.cursor) :
    valueOnce catalog s resolve node cursor = valueOnce catalog s resolve' node cursor := by
  unfold valueOnce
  cases hn : node.resolution with
  | plain => rfl
  | checked v => rfl
  | computed t => rfl
  | members => rfl
  | gathered =>
    dsimp only
    cases hb : node.below catalog with
    | error f => rfl
    | ok children =>
      have hgather : gather catalog resolve cursor children =
          gather catalog resolve' cursor children :=
        gather_congr fun e he => childValue_congr fun hlazy there inner hs =>
          h ⟨there, inner⟩ (.child hn hb he hlazy hs)
      simp only [bind, Except.bind, hgather]
  | selected =>
    have hselected : ∀ data, selectedReferences catalog resolve node cursor data =
        selectedReferences catalog resolve' node cursor data :=
      selectedReferences_congr fun item fields hi hf i name hname =>
        fieldValue_congr fun children id there inner hb hk hs =>
          h ⟨there, inner⟩ (.field hn hi hf hname hb hk i hs)
    simp only [hselected]

end Congruence

namespace Schema.Catalog.MadeWithin

variable {catalog : Catalog} {here : Atlas.Standing} {n : Nat}

/-- A value that is made within some steps is the same for every bound on the depth that leaves room for
them, by induction on the steps. -/
theorem resolveWithin_eq (h : catalog.MadeWithin n here) (s : Store) {depth : Nat} (hle : n ≤ depth) :
    resolveWithin catalog s depth here.node here.cursor =
      resolveWithin catalog s n here.node here.cursor := by
  induction h generalizing depth with
  | @intro n here _ ih =>
    obtain ⟨depth, rfl⟩ : ∃ k, depth = k + 1 := ⟨depth - 1, by omega⟩
    rw [resolveWithin_succ, resolveWithin_succ]
    exact valueOnce_congr s fun there hneeds => ih there hneeds (by omega)

end Schema.Catalog.MadeWithin

/-- A move that leads further leads to where nothing is asked. -/
theorem Motion.query_of_descends {m : Motion} (hm : m.descends = true) {c there : Cursor}
    (h : m.apply c = .ok there) : there.query = .empty := by
  have hin : c.isOutside = false := by
    refine Motion.inside_of_apply ?_ h
    cases m <;> first | rfl | exact absurd hm Bool.false_ne_true
  rw [Motion.apply_inside hin] at h
  cases m with
  | change ch => exact absurd hm Bool.false_ne_true
  | parent => exact absurd hm Bool.false_ne_true
  | fail text => exact absurd hm Bool.false_ne_true
  | _ => exact Except.ok.inj h ▸ rfl

/-- Moves that lead further lead from where nothing is asked to where nothing is asked. -/
theorem Motion.applyAll_query {motions : List Motion} (hm : ∀ m ∈ motions, m.descends = true)
    {c there : Cursor} (hc : c.query = .empty) (h : Motion.applyAll c motions = .ok there) :
    there.query = .empty := by
  induction motions generalizing c with
  | nil => exact Except.ok.inj h ▸ hc
  | cons m rest ih =>
    obtain ⟨mid, hmid, h⟩ := bind_eq_ok.mp h
    exact ih (fun m' hm' => hm m' (List.mem_cons_of_mem m hm'))
      (m.query_of_descends (hm m List.mem_cons_self) hmid) h

namespace Schema.Catalog

variable {c : Catalog}

/-- Without computed ways steps into children lead to where nothing is asked. -/
theorem Direct.unasking (hd : c.Direct) : c.Unasking := by
  intro cursor key id there node _ hs
  rcases (stepInto_ok hs).2 with ⟨-, rfl⟩ | ⟨landing, hlanding, -⟩
  · rfl
  · exact absurd ((hd id).symm.trans hlanding) (by simp)

/-- Computed ways that lead further with every move ask nothing. -/
theorem unasking_of_descends (h : ∀ id, (c.node id).Descends) : c.Unasking := by
  intro cursor key id there node hquery hs
  rcases (stepInto_ok hs).2 with ⟨-, rfl⟩ | ⟨landing, hlanding, hmoves⟩
  · rfl
  · have hmotions := h id
    unfold Node.Descends at hmotions
    rw [hlanding] at hmotions
    exact Motion.applyAll_query hmotions hquery hmoves

/-- Where nothing is asked, a query fills in nothing. -/
theorem fieldsToFill_unasked {item : Node} {cursor : Cursor} (h : cursor.query = .empty) :
    fieldsToFill c item cursor.query.expand = .ok [] := by
  rw [h]
  rfl

/-- In a grounded catalog a value is made within the nodes that are not on the way to its own, by
induction on how many those are, and the steps that fields filled in on the way are made within. -/
theorem madeWithin_along (hc : ∀ id, (c.node id).Composed) (hg : c.Grounded) {p : Cursor → Prop}
    (hstep : ∀ cursor key id there node, p cursor →
      stepInto c cursor key (c.node id) = .ok (there, node) → p there) {m : Nat}
    (hfield : ∀ here there : Atlas.Standing, p here.cursor → here.node.resolution = .selected →
      c.Needs here there → c.MadeWithin m there) {n : Nat} {id : NodeId} {path : List NodeId}
    (hway : c.Way id path) (hroom : c.size < path.length + n) {cursor : Cursor} (hp : p cursor) :
    c.MadeWithin (n + m) ⟨cursor, c.node id⟩ := by
  have hlength := hway.length_le
  induction n generalizing id path cursor with
  | zero => omega
  | succ n ih =>
    rw [Nat.succ_add]
    refine .intro fun there hneeds => ?_
    by_cases hselected : (c.node id).resolution = .selected
    · exact (hfield _ there hp hselected hneeds).mono (by omega)
    · obtain ⟨there, inner⟩ := there
      cases hneeds with
      | @child children key child hn hb hmem hlazy hs =>
        -- The node that governs the child comes next on the way, so there is one node less beside it.
        obtain rfl := (stepInto_ok hs).1
        have hnext := hway.cons hg ⟨(hc id).mpr hn, children, key, child, hb, hmem, hlazy, rfl⟩
        exact ih hnext (by rw [List.length_cons]; omega) (hstep _ _ _ _ _ hp hs) hnext.length_le
      | field hn => exact absurd hn hselected

/-- In a grounded catalog a value where nothing is asked is made within the nodes that are not on the way
to its own. -/
theorem madeWithin_unasked (hc : ∀ id, (c.node id).Composed) (hg : c.Grounded) (hq : c.Unasking) {n : Nat}
    {id : NodeId} {path : List NodeId} (hway : c.Way id path) (hroom : c.size < path.length + n)
    {cursor : Cursor} (hquery : cursor.query = .empty) : c.MadeWithin n ⟨cursor, c.node id⟩ := by
  refine madeWithin_along (p := fun cursor => cursor.query = .empty) (m := 0) hc hg hq ?_ hway hroom hquery
  intro here there hhere hn hneeds
  cases hneeds with
  | child hgathered => exact absurd (hgathered.symm.trans hn) Resolution.noConfusion
  | field _ _ hf hname =>
    rw [fieldsToFill_unasked hhere] at hf
    exact absurd (Except.ok.inj hf ▸ hname) List.not_mem_nil

/-- In a grounded catalog the fields that a query fills in are made within the nodes that there are. -/
theorem madeWithin_field (hc : ∀ id, (c.node id).Composed) (hg : c.Grounded) (hq : c.Unasking)
    {here there : Atlas.Standing} (hn : here.node.resolution = .selected) (hneeds : c.Needs here there) :
    c.MadeWithin (c.size + 1) there := by
  obtain ⟨there, inner⟩ := there
  cases hneeds with
  | child hgathered => exact absurd (hgathered.symm.trans hn) Resolution.noConfusion
  | field _ _ _ _ _ _ i hs =>
    obtain rfl := (stepInto_ok hs).1
    exact madeWithin_unasked hc hg hq (.nil _) (by rw [List.length_nil]; omega) (hq _ _ _ _ _ rfl hs)

/-- In a grounded catalog every value is made within twice the nodes that there are and a few steps: those
on the way to a query, and those of a field that it fills in. -/
theorem madeWithin_depth (hc : ∀ id, (c.node id).Composed) (hg : c.Grounded) (hq : c.Unasking)
    (here : Atlas.Standing) : c.MadeWithin c.depth here := by
  have hnode : ∀ id cursor, c.MadeWithin (c.size + 1 + (c.size + 1)) ⟨cursor, c.node id⟩ :=
    fun id cursor => madeWithin_along (p := fun _ => True) hc hg (fun _ _ _ _ _ _ _ => trivial)
      (fun _ _ _ hn hneeds => madeWithin_field hc hg hq hn hneeds) (.nil id)
      (by rw [List.length_nil]; omega) trivial
  suffices h : c.MadeWithin (c.size + 1 + (c.size + 1) + 1) here from
    h.mono (by unfold depth; omega)
  refine .intro fun there hneeds => ?_
  by_cases hselected : here.node.resolution = .selected
  · exact (madeWithin_field hc hg hq hselected hneeds).mono (by omega)
  · obtain ⟨there, inner⟩ := there
    cases hneeds with
    | child hn hb hmem hlazy hs =>
      obtain rfl := (stepInto_ok hs).1
      exact hnode _ there
    | field hn => exact absurd hn hselected

end Schema.Catalog

/-- The nodes of an archive that leads back into itself: folders lie in folders, and each one shows its
first folder as a reference. -/
def archiveNodes : List Node := [
  Node.gathering [("folders", 1)],
  { Node.plain .collection .members with
    item := some (.node 2)
    methods := [("by_index", .byIndex (.node 2))] ++ Node.queryMethods },
  Node.gathering [("name", 3), ("folders", 1), ("first", 4)],
  Node.leaf (some .text),
  (passthrough.reachedBy [.property "folders", .index (.int 0)] 2).delayed]

/-- The archive under a scheme. -/
def archive : Atlas where
  catalog := ⟨archiveNodes.toArray⟩
  registry := ⟨[("s", ⟨0, 0⟩)], false⟩

end ResourceAtlas

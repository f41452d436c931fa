import ResourceAtlas.Proofs.Registry.Behind
import ResourceAtlas.Proofs.Registry.Passage

/-!
# Atlases that offer no changes

The nodes that the schemas of an atlas lead to are those of the roots, and with a node those of its
children, of its members, of what it groups and of where its computed way lands. If none of them has a
method that changes documents, neither has any node that an address leads to: members of which nothing is
known have no methods, and the form that honours queries gains none of these.
-/

namespace ResourceAtlas

open Address Query Schema

/-- The names of the methods that change documents. -/
def changingMethods : List String := ["set", "move", "delete", "create"]

/-- A node has no method that changes documents. -/
def Schema.Node.Unchanging (n : Node) : Prop :=
  ∀ name ∈ changingMethods, n.hasMethod name = false

instance (n : Node) : Decidable n.Unchanging :=
  inferInstanceAs (Decidable (∀ name ∈ changingMethods, n.hasMethod name = false))

/-- The form that honours queries gains no method that changes documents. -/
theorem Schema.Node.Unchanging.queryable {n : Node} (h : n.Unchanging) : n.queryable.Unchanging := by
  intro name hname
  have hapart : ∀ name ∈ changingMethods, name ∉ Keyed.keys Node.queryMethods := by decide
  rw [Atlas.hasMethod_queryable (hapart name hname)]
  exact h name hname

namespace Atlas

variable {a : Atlas}

/-- A node that the schemas of an atlas lead to. -/
inductive Meets (a : Atlas) : NodeId → Prop
  /-- The node of a root. -/
  | root {scheme : String} {what : Registration} (h : (scheme, what) ∈ a.registry.schemes) :
      Meets a what.schema
  /-- The node of a child. -/
  | child {outer inner : NodeId} {children : Keyed NodeId} {key : String} (h : Meets a outer)
      (hc : (a.catalog.node outer).children = .ok children) (hmem : (key, inner) ∈ children) :
      Meets a inner
  /-- The node of the members. -/
  | item {outer inner : NodeId} (h : Meets a outer)
      (hi : (a.catalog.node outer).item = some (.node inner)) : Meets a inner
  /-- The node whose children are grouped. -/
  | grouped {outer inner : NodeId} (h : Meets a outer)
      (hg : (a.catalog.node outer).groups = some inner) : Meets a inner
  /-- The node of where a computed way lands. -/
  | landing {outer : NodeId} {landing : Landing} (h : Meets a outer)
      (hl : (a.catalog.node outer).landing = some landing) : Meets a landing.target

/-- No node that the schemas lead to has a method that changes documents. -/
def ReadOnly (a : Atlas) : Prop :=
  ∀ id, a.Meets id → (a.catalog.node id).Unchanging

/-- A node without methods that change documents, from which only nodes go on that the schemas lead
to. -/
structure Inert (a : Atlas) (n : Node) : Prop where
  /-- It has no method that changes documents. -/
  unchanging : n.Unchanging
  /-- The schemas lead to the nodes of what lies below. -/
  below : ∀ children, n.below a.catalog = .ok children → ∀ e ∈ children, a.Meets e.2
  /-- The schemas lead to the node of the members. -/
  item : ∀ id, n.item = some (.node id) → a.Meets id

namespace ReadOnly

/-- The nodes that the schemas lead to are inert. -/
theorem inert (hr : a.ReadOnly) {id : NodeId} (h : a.Meets id) : a.Inert (a.catalog.node id) := by
  refine ⟨hr id h, fun children hb e hmem => ?_, fun inner hi => h.item hi⟩
  unfold Node.below at hb
  split at hb
  · next inner hg => exact (h.grouped hg).child hb hmem
  · exact h.child hb hmem

/-- The node that governs the location of a child of an inert node is inert. -/
theorem inert_governing (hr : a.ReadOnly) {n : Node} (h : a.Inert n) {children : Keyed NodeId}
    (hb : n.below a.catalog = .ok children) {e : String × NodeId} (hmem : e ∈ children) :
    a.Inert (a.catalog.node (a.catalog.governing e.2)) := by
  have hmet := h.below children hb e hmem
  unfold Catalog.governing
  split
  · next landing _ hl => exact hr.inert (hmet.landing hl)
  · exact hr.inert hmet

/-- The node of the members of an inert node is inert. -/
theorem inert_member (hr : a.ReadOnly) {n member : Node} (h : a.Inert n)
    (hi : n.itemNode a.catalog = .ok member) : a.Inert member := by
  obtain ⟨found, hfound, rfl⟩ := map_eq_ok.mp hi
  unfold Node.itemNode? at hfound
  split at hfound
  · next item hitem =>
    obtain ⟨id, hid, rfl⟩ := map_eq_ok.mp hfound
    cases item with
    | undefined name => exact (nomatch hid)
    | node inner =>
      obtain rfl := Except.ok.inj hid
      exact hr.inert (h.item inner hitem)
  · obtain rfl := Except.ok.inj hfound
    refine ⟨by decide, fun children hb e hmem => ?_, fun id hid => (nomatch hid)⟩
    obtain rfl := Except.ok.inj hb
    exact absurd hmem List.not_mem_nil

end ReadOnly

/-- The form of an inert node that honours queries is inert. -/
theorem Inert.queryable {n : Node} (h : a.Inert n) : a.Inert n.queryable := by
  refine ⟨h.unchanging.queryable, fun children hb => h.below children ?_, fun id hi => h.item id ?_⟩
  · rw [← below_queryable]
    exact hb
  · rw [← Node.item_queryable]
    exact hi

namespace ReadOnly

variable {here there : Standing}

/-- A head passes from an inert node to an inert node. -/
theorem headPassage (hr : a.ReadOnly) {head : String} (hin : a.Inert here.node)
    (h : a.HeadPassage here head there) : a.Inert there.node := by
  cases h with
  | child hb hk hs =>
    rw [(stepInto_ok hs).1]
    exact hr.inert_governing hin hb (Keyed.mem_of_get? hk)
  | name h => exact hr.inert_member hin (select_ok rfl h).2.2
  | id h => exact hr.inert_member hin (select_ok rfl h).2.2

/-- Segments keep nodes inert. -/
theorem keeps (hr : a.ReadOnly) : a.Keeps fun there => a.Inert there.node := by
  intro segment here there hin h
  cases h with
  | bare hm => exact hr.headPassage hin hm
  | index hm h => exact hr.inert_member (hr.headPassage hin hm) (select_ok rfl h).2.2
  | id hm h => exact hr.inert_member (hr.headPassage hin hm) (select_ok rfl h).2.2
  | query hm h =>
    rw [ask_ok h]
    exact (hr.headPassage hin hm).queryable

/-- What an address resolves to has no method that changes documents. -/
theorem unchanging_of_resolve (hr : a.ReadOnly) {uri : String} {spec : Specifier}
    (h : a.resolve uri = .ok (.ok spec)) : spec.node.Unchanging := by
  obtain ⟨l, -, hlocate⟩ := resolve_ok h
  obtain ⟨what, there, hscheme, hwalk, rfl⟩ := locate_ok hlocate
  have hroot : a.Inert (a.start l.scheme what).node := hr.inert (.root (Keyed.mem_of_get? hscheme))
  exact (hr.keeps.walk hroot hwalk).unchanging

end ReadOnly

end Atlas

end ResourceAtlas

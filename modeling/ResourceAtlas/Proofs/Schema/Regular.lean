import ResourceAtlas.Schema.Node

/-!
# Regular catalogs and direct ones

In a regular catalog the kind of a collection tells how its value is made, and only a namespace is
entered by staying. In a direct catalog no child is reached by a computed way.
-/

namespace ResourceAtlas.Schema

/-- The kind of a collection tells how its value is made, and only a namespace is entered by
staying. -/
structure Node.Regular (n : Node) : Prop where
  /-- A plain collection shows all members. -/
  members : n.kind = .collection → n.resolution = .members
  /-- A collection that honours queries shows the selected members. -/
  selected : n.kind = .query → n.resolution = .selected
  /-- What is entered by staying groups the children of a node. -/
  grouped : n.navigation = some .namespaced → n.isNamespace = true

/-- The children of a node stand under distinct keys. -/
def Node.Distinct (n : Node) : Prop :=
  ∀ own, n.children = .ok own → (Keyed.keys own).Nodup

/-- Every node of a catalog is regular. -/
def Catalog.Regular (c : Catalog) : Prop :=
  ∀ id, (c.node id).Regular

/-- No node of a catalog is reached by a computed way. -/
def Catalog.Direct (c : Catalog) : Prop :=
  ∀ id, (c.node id).landing = none

/-- No computed way of a catalog leads back to the location around. -/
def Catalog.Forward (c : Catalog) : Prop :=
  ∀ id landing, (c.node id).landing = some landing → ∀ m ∈ landing.motions, m ≠ .parent

/-- Where there is no computed way, none leads back. -/
theorem Catalog.Direct.forward {c : Catalog} (h : c.Direct) : c.Forward := by
  intro id landing hl
  rw [h id] at hl
  exact (nomatch hl)

/-- What holds of a node of which nothing is known and of every node of a list holds of every node of
their catalog. -/
theorem Catalog.forall_node {nodes : List Node} {p : Node → Prop} (hp : p passthrough)
    (h : ∀ n ∈ nodes, p n) (id : NodeId) : p (Catalog.node ⟨nodes.toArray⟩ id) := by
  rw [Catalog.node, Array.getD_eq_getD_getElem?, List.getElem?_toArray]
  cases hg : nodes[id]? with
  | none => exact hp
  | some n => exact h n (List.mem_of_getElem? hg)

namespace Node

/-- The node of which nothing is known is regular. -/
theorem regular_passthrough : passthrough.Regular :=
  ⟨fun h => absurd h (by decide), fun h => absurd h (by decide), fun h => absurd h (by decide)⟩

/-- The form that honours queries shows the selected members. -/
theorem resolution_queryable {n : Node} (h : n.Regular) : n.queryable.resolution = .selected := by
  unfold queryable
  split
  · next hk => exact h.selected hk
  · rfl

/-- The form that honours queries is a collection that does. -/
theorem kind_queryable (n : Node) : n.queryable.kind = .query := by
  unfold queryable
  split
  · next hk => exact hk
  · rfl

/-- The form that honours queries is regular. -/
theorem Regular.queryable {n : Node} (h : n.Regular) : n.queryable.Regular := by
  refine ⟨fun hk => absurd ((kind_queryable n).symm.trans hk) (by decide),
    fun _ => resolution_queryable h, ?_⟩
  unfold Node.queryable
  split
  · exact h.grouped
  · exact h.grouped

/-- The form that honours queries has the same members. -/
theorem item_queryable (n : Node) : n.queryable.item = n.item := by
  unfold Node.queryable
  split <;> rfl

/-- What holds of every node of a catalog, and of one of which nothing is known, holds of the node of
the members of a location. -/
theorem itemNode_of_forall {c : Catalog} {p : Node → Prop} (hp : p passthrough)
    (hc : ∀ id, p (c.node id)) {n member : Node} (h : n.itemNode c = .ok member) : p member := by
  unfold itemNode itemNode? at h
  cases hi : n.item with
  | none =>
    rw [hi] at h
    obtain rfl := Except.ok.inj h
    exact hp
  | some item =>
    rw [hi] at h
    dsimp only at h
    cases hf : item.find with
    | error f =>
      rw [hf] at h
      exact absurd h (by simp [Except.map])
    | ok id =>
      rw [hf] at h
      obtain rfl := Except.ok.inj h
      exact hc id

end Node

/-- What holds of every node that can be met: of those of a catalog, of one of which nothing is known,
and of the form that honours queries. -/
structure Catalog.Everywhere (c : Catalog) (p : Node → Prop) : Prop where
  /-- It holds of the nodes of the catalog. -/
  node : ∀ id, p (c.node id)
  /-- It holds of a node of which nothing is known. -/
  unknown : p passthrough
  /-- It holds of the form that honours queries. -/
  queryable : ∀ {n}, p n → p n.queryable

/-- The node of the members of a location is met, too. -/
theorem Catalog.Everywhere.member {c : Catalog} {p : Node → Prop} (hp : c.Everywhere p)
    {n member : Node} (h : n.itemNode c = .ok member) : p member :=
  Node.itemNode_of_forall hp.unknown hp.node h

/-- In a regular catalog every node that is met is regular. -/
theorem Catalog.Regular.everywhere {c : Catalog} (hr : c.Regular) : c.Everywhere Node.Regular :=
  ⟨hr, Node.regular_passthrough, Node.Regular.queryable⟩

end ResourceAtlas.Schema

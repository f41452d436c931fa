import Mathlib.Data.List.Perm.Subperm
import Mathlib.Logic.Relation
import ResourceAtlas.Proofs.Schema.Built

/-!
# Gatherings inside each other

A gathering holds the values of its children, and those of gatherings among them hold further values.
Children that are shown as references end this, and so do collections. A catalog is grounded if no
gathering holds itself in this way; then gatherings lie inside each other at most as deep as there are
nodes.
-/

namespace ResourceAtlas.Schema

open Relation

namespace Node

/-- Kinds of nodes that hold the values of their children. -/
def gathers (n : Node) : Bool :=
  n.kind = .object || n.kind = .namespaced

/-- The kind of a node tells whether its value is gathered from its children. -/
def Composed (n : Node) : Prop :=
  n.gathers = true ↔ n.resolution = .gathered

instance (n : Node) : Decidable n.Composed :=
  inferInstanceAs (Decidable (_ ↔ _))

/-- A node that neither holds values by its kind nor gathers them is composed. -/
theorem composed_of_apart {n : Node} (hk : n.gathers = false) (hr : n.resolution ≠ .gathered) :
    n.Composed :=
  ⟨fun hg => absurd (hk.symm.trans hg) Bool.false_ne_true, fun h => absurd h hr⟩

/-- A form of a composed node that keeps its kind and how its value is made is composed. -/
theorem Composed.of_eq {n m : Node} (h : n.Composed) (hk : m.kind = n.kind)
    (hr : m.resolution = n.resolution) : m.Composed := by
  unfold Composed gathers at h ⊢
  rw [hk, hr]
  exact h

/-- The form that honours queries is composed if the node is. -/
theorem Composed.queryable {n : Node} (h : n.Composed) : n.queryable.Composed := by
  unfold Node.queryable
  split
  · exact h
  · exact composed_of_apart rfl Resolution.noConfusion

end Node

namespace Catalog

/-- Every node of a catalog is composed and has its children under distinct keys. -/
structure Composed (c : Catalog) : Prop where
  /-- The kinds of nodes tell whose values are gathered. -/
  node : ∀ id, (c.node id).Composed
  /-- Children stand under distinct keys. -/
  distinct : ∀ id, (c.node id).Distinct

/-- The node that governs the location of a child: the target of a computed way, if one leads there. -/
def governing (c : Catalog) (id : NodeId) : NodeId :=
  match (c.node id).isNamespace, (c.node id).landing with
  | false, some landing => landing.target
  | _, _ => id

/-- One node holds the value of another one: it gathers the values of its children, and the other one
governs a child that is not shown as a reference. -/
def Holds (c : Catalog) (outer inner : NodeId) : Prop :=
  (c.node outer).gathers = true ∧ ∃ children key child,
    (c.node outer).below c = .ok children ∧ (key, child) ∈ children ∧
      (c.node child).isLazy = false ∧ inner = c.governing child

/-- No node holds its own value. -/
def Grounded (c : Catalog) : Prop :=
  ∀ id, ¬ TransGen c.Holds id id

variable {c : Catalog}

/-- In a composed catalog every node that is met is composed and has its children under distinct
keys. -/
theorem Composed.everywhere (h : c.Composed) :
    c.Everywhere fun n => n.Composed ∧ n.Distinct := by
  refine ⟨fun id => ⟨h.node id, h.distinct id⟩, ⟨?_, Node.distinct_of_nil rfl⟩, fun hn =>
    ⟨hn.1.queryable, fun own hown => hn.2 own ((Node.children_queryable _).symm.trans hown)⟩⟩
  exact Node.composed_of_apart rfl Resolution.noConfusion

/-- The children that lie below a node stand under distinct keys. -/
theorem Composed.below (h : c.Composed) {n : Node} (hn : n.Distinct) {children : Keyed NodeId}
    (hb : n.below c = .ok children) : (Keyed.keys children).Nodup := by
  unfold Node.below at hb
  split at hb
  · exact h.distinct _ _ hb
  · exact hn _ hb

/-- Where no child is reached by a computed way, children govern their own locations. -/
theorem governing_of_landing {id : NodeId} (h : (c.node id).landing = none) : c.governing id = id := by
  unfold governing
  rw [h]
  split
  · next heq => exact (nomatch heq)
  · rfl

/-- A node that holds values has a number below the size of the catalog. -/
theorem Holds.lt_size {outer inner : NodeId} (h : c.Holds outer inner) : outer < c.size := by
  by_contra hlarge
  have hnone : c.nodes[outer]? = none := Array.getElem?_eq_none (Nat.not_lt.mp hlarge)
  have hnode : c.node outer = passthrough := by
    rw [node, Array.getD_eq_getD_getElem?, hnone]
    rfl
  have hgathers := h.1
  rw [hnode] at hgathers
  exact absurd hgathers (by decide)

/-- Distinct nodes that hold values are no more than there are nodes. -/
theorem length_le_size {path : List NodeId} (hdistinct : path.Nodup)
    (hholds : ∀ outer ∈ path, ∃ inner, c.Holds outer inner) : path.length ≤ c.size := by
  have hsub : path ⊆ List.range c.size := by
    intro outer houter
    obtain ⟨inner, h⟩ := hholds outer houter
    exact List.mem_range.mpr h.lt_size
  have hle := (hdistinct.subperm hsub).length_le
  rwa [List.length_range] at hle

/-- A catalog is grounded if nodes can be ranked such that each one that gathers values is above those
that govern its children, apart from the ones shown as references. -/
theorem grounded_of_rank (rank : NodeId → Nat)
    (h : ∀ outer < c.size, (c.node outer).gathers = true →
      ∀ e ∈ ((c.node outer).below c).toOption.getD [], (c.node e.2).isLazy = false →
        rank (c.governing e.2) < rank outer) : c.Grounded := by
  have hstep : ∀ {outer inner}, c.Holds outer inner → rank inner < rank outer := by
    intro outer inner hholds
    have hsize := hholds.lt_size
    obtain ⟨hgathers, children, key, child, hb, hmem, hlazy, rfl⟩ := hholds
    refine h outer hsize hgathers (key, child) ?_ hlazy
    rw [hb]
    exact hmem
  intro id hcycle
  have hlower : ∀ {inner}, TransGen c.Holds id inner → rank inner < rank id := by
    intro inner hchain
    induction hchain with
    | single hholds => exact hstep hholds
    | tail _ hholds ih => exact (hstep hholds).trans ih
  exact absurd (hlower hcycle) (Nat.lt_irrefl _)

/-- The nodes on the way to a node: distinct ones, of which each holds the value of the next, and that
of the node in the end. -/
structure Way (c : Catalog) (id : NodeId) (path : List NodeId) : Prop where
  /-- They are distinct. -/
  distinct : path.Nodup
  /-- Each one holds some value. -/
  holds : ∀ outer ∈ path, ∃ inner, c.Holds outer inner
  /-- From each of them the node is reached. -/
  leads : ∀ outer ∈ path, TransGen c.Holds outer id

/-- No nodes are on the way to a node where it begins. -/
theorem Way.nil (id : NodeId) : c.Way id [] :=
  ⟨List.nodup_nil, fun _ h => absurd h List.not_mem_nil, fun _ h => absurd h List.not_mem_nil⟩

/-- In a grounded catalog a node that holds a value comes on the way to it. -/
theorem Way.cons (hg : c.Grounded) {id inner : NodeId} {path : List NodeId} (h : c.Way id path)
    (hholds : c.Holds id inner) : c.Way inner (id :: path) := by
  refine ⟨List.nodup_cons.mpr ⟨fun hmem => hg id (h.leads id hmem), h.distinct⟩, ?_, ?_⟩
  · intro outer houter
    rcases List.mem_cons.mp houter with rfl | houter
    · exact ⟨inner, hholds⟩
    · exact h.holds outer houter
  · intro outer houter
    rcases List.mem_cons.mp houter with rfl | houter
    · exact .single hholds
    · exact (h.leads outer houter).tail hholds

/-- A way is no longer than there are nodes. -/
theorem Way.length_le {id : NodeId} {path : List NodeId} (h : c.Way id path) :
    path.length ≤ c.size :=
  length_le_size h.distinct h.holds

end Catalog

namespace Workshop

variable {admits : Blueprint → Prop}

/-- No form of a node takes it from it that its kind tells whether its value is gathered. -/
theorem kept_composed : Kept admits Node.Composed where
  leaf v := by cases v <;> exact Node.composed_of_apart rfl Resolution.noConfusion
  gathering _ := ⟨fun _ => rfl, fun _ => rfl⟩
  computed _ := Node.composed_of_apart rfl Resolution.noConfusion
  collection h := by
    unfold collectionOf at h
    split at h
    · exact absurd h (by simp)
    · obtain rfl := Except.ok.inj h
      exact Node.composed_of_apart rfl Resolution.noConfusion
  grouping _ _ := ⟨fun _ => rfl, fun _ => rfl⟩
  aliasing _ hn := hn.of_eq rfl rfl
  delayed hn := hn.of_eq rfl rfl
  described _ hn := hn.of_eq rfl rfl
  queryable hn := hn.queryable
  reached _ _ hn := hn.of_eq rfl rfl
  children _ hn := hn.of_eq rfl rfl
  referencesOnly _ hn := hn.of_eq rfl rfl
  equipped _ hn := hn.of_eq rfl rfl

/-- Every catalog that is built is composed. -/
theorem Built.composed {w : Workshop} (h : w.Built admits) : w.catalog.Composed :=
  ⟨fun id => (h.catalog kept_composed id).1, h.distinct⟩

end Workshop

end ResourceAtlas.Schema

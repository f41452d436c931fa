import ResourceAtlas.Proofs.Keyed
import ResourceAtlas.Proofs.Schema.Built

/-!
# Faithful catalogs

In a faithful catalog the method that selects a member leads to the node that the collection gives
its members, and a namespace has no such method. Only showing bare references breaks this, so every
catalog that is built without them is faithful.
-/

namespace ResourceAtlas.Schema

namespace Node

/-- The names of the methods that select a member. -/
def accessorNames : List String := accessors.map (·.1)

/-- A method that selects a member leads to the node of the members, and a namespace has none. -/
def Faithful (n : Node) : Prop :=
  ∀ name ∈ accessorNames, ∀ m, Keyed.get? name n.methods = some m →
    n.isNamespace = false ∧
      ∃ item word, n.item = some item ∧ Workshop.accessor? item word = some (name, m)

/-- A namespace has no method that selects a member. -/
def SelectsOwn (n : Node) : Prop :=
  ∀ name ∈ accessorNames, n.hasMethod name = true → n.isNamespace = false

/-- A faithful node that is a namespace selects no member. -/
theorem Faithful.selectsOwn {n : Node} (h : n.Faithful) : n.SelectsOwn := by
  intro name hname hmethod
  obtain ⟨m, hm⟩ := Option.isSome_iff_exists.mp hmethod
  exact (h name hname m hm).1

/-- A form of a node that is a namespace where the node is, with the same methods that select a
member, selects none if the node does not. -/
theorem SelectsOwn.of_eq {n m : Node} (h : n.SelectsOwn) (hg : m.groups = n.groups)
    (hm : ∀ name ∈ accessorNames, Keyed.get? name m.methods = Keyed.get? name n.methods) :
    m.SelectsOwn := by
  intro name hname hmethod
  rw [hasMethod, Keyed.has, hm name hname] at hmethod
  rw [isNamespace, hg]
  exact h name hname hmethod

/-- A node without methods is faithful. -/
theorem faithful_of_methods {n : Node} (h : n.methods = []) : n.Faithful := by
  intro name _ m hm
  rw [h] at hm
  exact (nomatch hm)

/-- A form of a faithful node with the same members that agrees on the methods that select one is
faithful. -/
theorem Faithful.of_eq {n m : Node} (h : n.Faithful) (hi : m.item = n.item)
    (hg : m.groups = n.groups)
    (hm : ∀ name ∈ accessorNames, Keyed.get? name m.methods = Keyed.get? name n.methods) :
    m.Faithful := by
  intro name hname method hmethod
  rw [hm name hname] at hmethod
  obtain ⟨hspace, item, word, hitem, hword⟩ := h name hname method hmethod
  refine ⟨?_, item, word, hi.trans hitem, hword⟩
  rw [isNamespace, hg]
  exact hspace

/-- The methods that ask a query take no name of one that selects a member. -/
theorem get?_merge_queryMethods {name : String} (h : name ∈ accessorNames)
    (methods : Keyed Method) :
    Keyed.get? name (Keyed.merge methods queryMethods) = Keyed.get? name methods := by
  have hapart : ∀ name ∈ accessorNames, name ∉ Keyed.keys queryMethods := by decide
  exact Keyed.get?_merge_of_not_mem (hapart name h)

/-- A method of another name leaves those that select a member. -/
theorem get?_withMethod {name other : String} (hname : name ∉ accessorNames)
    (hother : other ∈ accessorNames) (m : Method) (n : Node) :
    Keyed.get? other (n.withMethod name m).methods = Keyed.get? other n.methods := by
  refine Keyed.get?_put_other ?_ m n.methods
  rintro rfl
  exact hname hother

/-- The form that honours queries of a namespace selects no member if the namespace does not. -/
theorem SelectsOwn.queryable {n : Node} (h : n.SelectsOwn) : n.queryable.SelectsOwn := by
  unfold Node.queryable
  split
  · exact h
  · exact h.of_eq rfl fun name hname => get?_merge_queryMethods hname n.methods

/-- The form that honours queries is faithful. -/
theorem Faithful.queryable {n : Node} (h : n.Faithful) : n.queryable.Faithful := by
  unfold Node.queryable
  split
  · exact h
  · exact h.of_eq rfl rfl fun name hname => get?_merge_queryMethods hname n.methods

end Node

/-- Where no namespace of a catalog selects a member, none that is met does. -/
theorem Catalog.everywhere_selectsOwn {c : Catalog} (h : ∀ id, (c.node id).SelectsOwn) :
    c.Everywhere Node.SelectsOwn :=
  ⟨h, (Node.faithful_of_methods rfl).selectsOwn, Node.SelectsOwn.queryable⟩

namespace Workshop

/-- A collection is faithful. -/
theorem faithful_collectionOf {item : NodeRef} {words : List String} {n : Node}
    (h : collectionOf item words = .ok n) : n.Faithful := by
  unfold collectionOf at h
  split at h
  · exact absurd h (by simp)
  · obtain rfl := Except.ok.inj h
    intro name hname m hm
    have hown := (Node.get?_merge_queryMethods hname _).symm.trans hm
    obtain ⟨word, -, hword⟩ := List.mem_filterMap.mp (Keyed.mem_of_get? hown)
    exact ⟨rfl, item, word, rfl, hword⟩

/-- A blueprint that gives no node a method of its own to select a member. -/
def KeepsAccessors : Blueprint → Prop
  | .equipped _ name _ => name ∉ Node.accessorNames
  | _ => True

/-- A blueprint that shows no bare references and gives no node a method of its own to select a
member. -/
def ShowsMembers : Blueprint → Prop
  | .referencesOnly _ => False
  | b => KeepsAccessors b

/-- Giving a node a method of its own to select a member alone may make a namespace select one. -/
theorem kept_selectsOwn : Kept KeepsAccessors Node.SelectsOwn where
  leaf v := (Node.faithful_of_methods (by cases v <;> rfl)).selectsOwn
  gathering _ := (Node.faithful_of_methods rfl).selectsOwn
  computed _ := (Node.faithful_of_methods rfl).selectsOwn
  collection h := (faithful_collectionOf h).selectsOwn
  grouping _ _ := (Node.faithful_of_methods rfl).selectsOwn
  aliasing _ h := h.of_eq rfl fun _ _ => rfl
  delayed h := h.of_eq rfl fun _ _ => rfl
  described _ h := h.of_eq rfl fun _ _ => rfl
  queryable h := h.queryable
  reached _ _ h := h.of_eq rfl fun _ _ => rfl
  children _ h := h.of_eq rfl fun _ _ => rfl
  referencesOnly _ h := h.of_eq rfl fun _ _ => rfl
  equipped hname h := h.of_eq rfl fun _ hother => Node.get?_withMethod hname hother _ _

/-- Only showing bare references or giving a node a method of its own to select a member takes
faithfulness from it. -/
theorem kept_faithful : Kept ShowsMembers Node.Faithful where
  leaf v := Node.faithful_of_methods (by cases v <;> rfl)
  gathering _ := Node.faithful_of_methods rfl
  computed _ := Node.faithful_of_methods rfl
  collection := faithful_collectionOf
  grouping _ _ := Node.faithful_of_methods rfl
  aliasing _ h := h.of_eq rfl rfl fun _ _ => rfl
  delayed h := h.of_eq rfl rfl fun _ _ => rfl
  described _ h := h.of_eq rfl rfl fun _ _ => rfl
  queryable h := h.queryable
  reached _ _ h := h.of_eq rfl rfl fun _ _ => rfl
  children _ h := h.of_eq rfl rfl fun _ _ => rfl
  referencesOnly hno := hno.elim
  equipped hname h := h.of_eq rfl rfl fun _ hother => Node.get?_withMethod hname hother _ _

/-- In a catalog that is built without own methods to select members, no namespace selects one. -/
theorem Built.selectsOwn {w : Workshop} (h : w.Built KeepsAccessors) (id : NodeId) :
    (w.catalog.node id).SelectsOwn :=
  (h.catalog kept_selectsOwn id).1

/-- A catalog that is built without showing bare references is faithful. -/
theorem Built.faithful {w : Workshop} (h : w.Built ShowsMembers) (id : NodeId) :
    (w.catalog.node id).Faithful :=
  (h.catalog kept_faithful id).1

end Workshop

end ResourceAtlas.Schema

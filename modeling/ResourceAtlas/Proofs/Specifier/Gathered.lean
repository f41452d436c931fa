import ResourceAtlas.Proofs.Keyed
import ResourceAtlas.Proofs.Specifier.Bounded

/-!
# Gathered values

A gathering holds under the key of a child what the child contributes, and nothing where the child
breaks off. In a grounded catalog gatherings lie inside each other at most as deep as there are nodes,
so a value is the same for every bound on the depth that is larger than that.
-/

namespace ResourceAtlas

open Address Query Schema

variable {catalog : Catalog} {resolve : Resolver} {cursor : Cursor}

/-- A location whose address can be written gathers the values of its children, under keys that are, in
order, among theirs. -/
theorem gather_ok {own : String} (hown : cursor.uri = .ok own) (children : List (String × NodeId)) :
    ∃ entries, gather catalog resolve cursor children = .ok entries ∧
      (Keyed.keys entries).Sublist (Keyed.keys children) := by
  induction children with
  | nil => exact ⟨[], rfl, .slnil⟩
  | cons e rest ih =>
    obtain ⟨key, id⟩ := e
    obtain ⟨more, hmore, hsub⟩ := ih
    rw [gather]
    cases childValue catalog resolve cursor key id with
    | ok v => exact ⟨(key, v) :: more, by rw [hmore]; rfl, hsub.cons_cons key⟩
    | error f => exact ⟨more, by rw [hown, hmore]; rfl, hsub.cons key⟩

/-- What is gathered under the key of a child is what the child contributes. -/
theorem get?_gather {children : List (String × NodeId)} {entries : Keyed Value}
    (hdistinct : (Keyed.keys children).Nodup)
    (h : gather catalog resolve cursor children = .ok entries) {key : String} {id : NodeId}
    (hk : Keyed.get? key children = some id) (v : Value) :
    Keyed.get? key entries = some v ↔ childValue catalog resolve cursor key id = .ok v := by
  induction children generalizing entries with
  | nil => cases hk
  | cons e rest ih =>
    obtain ⟨first, other⟩ := e
    obtain ⟨hfirst, hrest⟩ := List.nodup_cons.mp hdistinct
    rw [gather] at h
    rw [Keyed.get?] at hk
    by_cases heq : first = key
    · -- No later child has the key, so nothing else is gathered under it.
      subst heq
      rw [if_pos rfl] at hk
      obtain rfl := Option.some.inj hk
      cases hc : childValue catalog resolve cursor first other with
      | ok w =>
        rw [hc] at h
        obtain ⟨more, -, h⟩ := bind_eq_ok.mp h
        obtain rfl := Except.ok.inj h
        rw [Keyed.get?, if_pos rfl]
        exact ⟨fun hv => congrArg Except.ok (Option.some.inj hv),
          fun hv => congrArg some (Except.ok.inj hv)⟩
      | error f =>
        rw [hc] at h
        obtain ⟨own, hown, h⟩ := bind_eq_ok.mp h
        obtain ⟨more, hmore, hsub⟩ := gather_ok hown rest
        obtain rfl := Except.ok.inj (hmore.symm.trans h)
        refine ⟨fun hv => absurd ?_ hfirst, fun hv => absurd hv (by simp)⟩
        exact hsub.subset (List.mem_map_of_mem (Keyed.mem_of_get? hv))
    · rw [if_neg heq] at hk
      cases hc : childValue catalog resolve cursor first other with
      | ok w =>
        rw [hc] at h
        obtain ⟨more, hmore, h⟩ := bind_eq_ok.mp h
        obtain rfl := Except.ok.inj h
        rw [Keyed.get?, if_neg heq]
        exact ih hrest hmore hk
      | error f =>
        rw [hc] at h
        obtain ⟨own, -, h⟩ := bind_eq_ok.mp h
        exact ih hrest h hk

/-- In a grounded catalog the value of a location under a node of the catalog is the same for every
bound on the depth above the size of the catalog. -/
theorem resolveWithin_deep (hc : ∀ id, (catalog.node id).Composed) (hg : catalog.Grounded)
    (hq : catalog.Unasking) (s : Store) (id : NodeId) {cursor : Cursor}
    (hquery : cursor.query = .empty) {depth : Nat} (h : catalog.size < depth) :
    resolveWithin catalog s depth (catalog.node id) cursor =
      resolveWithin catalog s catalog.depth (catalog.node id) cursor := by
  have hmade : catalog.MadeWithin (catalog.size + 1) ⟨cursor, catalog.node id⟩ :=
    Catalog.madeWithin_unasked hc hg hq (.nil id) (by rw [List.length_nil]; omega) hquery
  have hdepth : catalog.size + 1 ≤ catalog.depth := by
    unfold Catalog.depth
    omega
  exact (hmade.resolveWithin_eq s h).trans (hmade.resolveWithin_eq s hdepth).symm

end ResourceAtlas

import ResourceAtlas.Proofs.Registry.Onward
import ResourceAtlas.Proofs.Registry.Passage
import ResourceAtlas.Proofs.Schema.Landed

/-!
# Declared children can be entered

A declared child is entered from every location of its node that lies in a document, unless it is
reached by a computed way that breaks off or leaves all documents. In a guided atlas no computed way
does, at any location that an address leads to.
-/

namespace ResourceAtlas

open Address Query Schema

/-- A registry that is made by registering schemes one after the other. -/
inductive Registry.Made : Registry → Prop
  /-- No scheme is registered. -/
  | empty : Made .empty
  /-- A scheme is registered, or replaced. -/
  | register {r r' : Registry} {scheme : String} {what : Registration} (h : Made r)
      (hr : r.register scheme what = .ok r') : Made r'
  /-- No more schemes are taken. -/
  | freeze {r : Registry} (h : Made r) : Made r.freeze

/-- Every scheme is registered once. -/
theorem Registry.Made.nodup {r : Registry} (h : r.Made) : r.names.Nodup := by
  induction h with
  | empty => exact List.nodup_nil
  | @register r r' scheme what _ hr ih =>
    unfold Registry.register at hr
    split at hr
    · exact (nomatch hr)
    · obtain rfl := Except.ok.inj hr
      exact Keyed.nodup_put ih
  | freeze _ ih => exact ih

/-- A location inside a document. -/
def Cursor.Inside (c : Cursor) : Prop :=
  c.isOutside = false

/-- Whether a move leads further, to a property, to a member or to a value bound to an address. Such a
move does not break off inside a document. -/
def Motion.descends : Motion → Bool
  | .property _ => true
  | .aliased _ _ => true
  | .namespaced _ => true
  | .index _ => true
  | .name _ => true
  | .id _ => true
  | .bind _ _ => true
  | _ => false

/-- A move that leads further stays inside documents. -/
theorem Motion.apply_descends {m : Motion} (hm : m.descends = true) {c : Cursor}
    (hc : c.isOutside = false) : ∃ c', m.apply c = .ok c' ∧ c'.isOutside = false := by
  rw [Motion.apply_inside hc]
  cases m with
  | change ch => exact absurd hm Bool.false_ne_true
  | parent => exact absurd hm Bool.false_ne_true
  | fail text => exact absurd hm Bool.false_ne_true
  | _ => exact ⟨_, rfl, rfl⟩

/-- Moves that lead further stay inside documents. -/
theorem Motion.applyAll_descends {motions : List Motion} (hm : ∀ m ∈ motions, m.descends = true)
    {c : Cursor} (hc : c.isOutside = false) :
    ∃ c', Motion.applyAll c motions = .ok c' ∧ c'.isOutside = false := by
  induction motions generalizing c with
  | nil => exact ⟨c, rfl, hc⟩
  | cons m rest ih =>
    obtain ⟨mid, hmid, hmidin⟩ := m.apply_descends (hm m List.mem_cons_self) hc
    obtain ⟨c', hc', hin⟩ := ih (fun m' hm' => hm m' (List.mem_cons_of_mem m hm')) hmidin
    exact ⟨c', bind_eq_ok.mpr ⟨mid, hmid, hc'⟩, hin⟩

/-- The computed way to a node, if there is one, leads further with every move. -/
def Schema.Node.Descends (n : Node) : Prop :=
  ∀ m ∈ (n.landing.map Landing.motions).getD [], m.descends = true

instance (n : Node) : Decidable n.Descends :=
  inferInstanceAs (Decidable (∀ m ∈ (n.landing.map Landing.motions).getD [], m.descends = true))

namespace Atlas

variable {a : Atlas} {here there : Standing}

/-- A location that segments lead to from the root of a scheme. -/
def Reached (a : Atlas) (there : Standing) : Prop :=
  ∃ scheme what segments, (scheme, what) ∈ a.registry.schemes ∧
    a.walk (a.start scheme what) segments = .ok (.ok there)

/-- No computed way breaks off or leaves all documents, where it is taken from a location that segments
lead to. -/
def Guided (a : Atlas) : Prop :=
  ∀ there, a.Reached there → ∀ children, there.node.below a.catalog = .ok children →
    ∀ e ∈ children, (a.catalog.node e.2).isNamespace = false →
      ∀ landing, (a.catalog.node e.2).landing = some landing →
        ∃ c, Motion.applyAll there.cursor landing.motions = .ok c ∧ c.isOutside = false

/-- A declared child is entered from a location inside a document, and governed there by the target of
its computed way, if there is one. -/
theorem moveBy_declared (hg : a.Guided) (hreached : a.Reached here)
    (hin : here.cursor.isOutside = false) {children : Keyed NodeId}
    (hb : here.node.below a.catalog = .ok children) (hd : (Keyed.keys children).Nodup) {key : String}
    {id : NodeId} (hmem : (key, id) ∈ children) :
    ∃ next, a.moveBy here ⟨key, none⟩ = .ok (.ok next) ∧ next.cursor.isOutside = false ∧
      next.node = a.catalog.node (a.catalog.governing id) := by
  rw [moveBy_bare, moveByHead_child hb (Keyed.get?_of_mem hd hmem), enter, Option.isSome_none,
    Bool.and_false, if_neg Bool.false_ne_true]
  dsimp only
  cases hspace : (a.catalog.node id).isNamespace with
  | true =>
    have hgoverning : a.catalog.governing id = id := by
      unfold Catalog.governing
      rw [hspace]
    rw [stepInto_namespace a.catalog hspace, Motion.apply_inside hin, applyInside_childMotion,
      hgoverning]
    exact ⟨_, rfl, rfl, rfl⟩
  | false =>
    cases hl : (a.catalog.node id).landing with
    | none =>
      rw [stepInto_inside a.catalog hl hin, Catalog.governing_of_landing hl]
      exact ⟨_, rfl, rfl, rfl⟩
    | some landing =>
      obtain ⟨c, hc, hcin⟩ := hg here hreached children hb (key, id) hmem hspace landing hl
      have hgoverning : a.catalog.governing id = landing.target := by
        unfold Catalog.governing
        rw [hspace, hl]
      rw [stepInto_computed a.catalog hspace hl, hc, hgoverning]
      exact ⟨_, rfl, hcin, rfl⟩

/-- Every computed way leads from inside documents to inside documents. -/
def LeadsInside (a : Atlas) : Prop :=
  ∀ id landing, (a.catalog.node id).landing = some landing → ∀ c : Cursor, c.isOutside = false →
    ∃ c', Motion.applyAll c landing.motions = .ok c' ∧ c'.isOutside = false

/-- Computed ways that lead further with every move lead inside documents. -/
theorem leadsInside_of_descends (h : ∀ id, (a.catalog.node id).Descends) : a.LeadsInside := by
  intro id landing hlanding c hc
  have hmotions := h id
  unfold Node.Descends at hmotions
  rw [hlanding] at hmotions
  exact Motion.applyAll_descends hmotions hc

/-- Where a segment leads on from where segments lead, segments lead. -/
theorem Reached.moveBy (h : a.Reached here) {segment : Segment}
    (hm : a.moveBy here segment = .ok (.ok there)) : a.Reached there := by
  obtain ⟨scheme, what, segments, hmem, hwalk⟩ := h
  exact ⟨scheme, what, segments ++ [segment], hmem, (walk_concat hwalk segment).trans hm⟩

/-- Wherever segments lead, the computed ways that go on from there and arrive keep something. -/
def WaysKeep (a : Atlas) (p : Cursor → Prop) : Prop :=
  ∀ here, a.Reached here → p here.cursor → a.LeadsTo here p

/-- What segments preserve and computed ways keep, a walk along the segments keeps. -/
theorem WaysKeep.walk {p : Cursor → Prop} (hways : a.WaysKeep p) {segments : List Segment}
    (hs : ∀ s ∈ segments, s.Preserves p) (hreached : a.Reached here) (hp : p here.cursor)
    (h : a.walk here segments = .ok (.ok there)) : p there.cursor := by
  induction segments generalizing here with
  | nil => exact Except.ok.inj (Except.ok.inj h) ▸ hp
  | cons s rest ih =>
    obtain ⟨mid, hm, hrest⟩ := walk_cons_ok h
    have hmid : p mid.cursor :=
      (passage_of_moveBy hm).preserved (hs s List.mem_cons_self) (hways here hreached hp) hp
    exact ih (fun t ht => hs t (List.mem_cons_of_mem s ht)) (hreached.moveBy hm) hmid hrest

/-- Every segment stays inside a document where it takes no computed way. -/
theorem preserves_inside (s : Segment) : s.Preserves Cursor.Inside where
  enter _ _ _ _ _ := rfl
  ask _ _ c hc := (Cursor.isOutside_withQuery c _).trans hc

/-- Computed ways that lead inside documents stay there. -/
theorem LeadsInside.waysKeep (ha : a.LeadsInside) : a.WaysKeep Cursor.Inside := by
  intro here _ hin _ _ e _ landing hlanding c hc
  obtain ⟨arrived, harrived, hinside⟩ := ha e.2 landing hlanding here.cursor hin
  obtain rfl := Except.ok.inj (harrived.symm.trans hc)
  exact hinside

/-- An atlas whose computed ways lead from inside documents to inside documents is guided. -/
theorem LeadsInside.guided (ha : a.LeadsInside) : a.Guided := by
  rintro there ⟨scheme, what, segments, hmem, hwalk⟩ children - e - - landing hlanding
  have hin : there.cursor.isOutside = false :=
    ha.waysKeep.walk (fun s _ => preserves_inside s) ⟨scheme, what, [], hmem, rfl⟩ rfl hwalk
  exact ha e.2 landing hlanding there.cursor hin

end Atlas

end ResourceAtlas

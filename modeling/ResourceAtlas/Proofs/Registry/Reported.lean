import ResourceAtlas.Proofs.Registry.Guided
import ResourceAtlas.Proofs.Resource.Advertised

/-!
# What leads nowhere is reported

Where every name of a schema is defined and no computed way leaves all documents, every segment leads
somewhere or to a problem, at every location that segments lead to. So resolving an address breaks off only
where reading the address does.
-/

namespace ResourceAtlas

open Address Query Schema

/-- A node below which all children can be listed, and of whose members the node is there. -/
structure Schema.Node.Charted (c : Catalog) (n : Node) : Prop where
  /-- The children can be listed. -/
  below : ∃ children, n.below c = .ok children
  /-- The members have a node. -/
  members : ∃ member, n.itemNode c = .ok member

/-- Where every name is defined, every node that is met is charted. -/
theorem Resource.Defined.everywhere {c : Catalog} (hc : Resource.Defined c) :
    c.Everywhere (Node.Charted c) where
  node id := by
    refine ⟨hc.below id, ?_⟩
    unfold Node.itemNode Node.itemNode?
    split
    · next item hitem =>
      obtain ⟨member, hmember⟩ := hc.items id item hitem
      exact ⟨_, map_eq_ok.mpr ⟨_, map_eq_ok.mpr ⟨member, hmember, rfl⟩, rfl⟩⟩
    · exact ⟨_, rfl⟩
  unknown := ⟨⟨[], rfl⟩, ⟨_, rfl⟩⟩
  queryable {n} hn := by
    obtain ⟨children, hb⟩ := hn.below
    obtain ⟨member, hmember⟩ := hn.members
    refine ⟨⟨children, (Atlas.below_queryable (a := ⟨c, .empty⟩) n).trans hb⟩, member, ?_⟩
    unfold Node.itemNode Node.itemNode?
    rw [Node.item_queryable]
    exact hmember

namespace Atlas

variable {a : Atlas} {here there : Standing}

/-- A location inside a document, governed by a charted node. -/
structure Firm (a : Atlas) (there : Standing) : Prop where
  /-- It lies inside a document. -/
  inside : there.cursor.isOutside = false
  /-- Its node is charted. -/
  charted : there.node.Charted a.catalog

/-- Where every name is defined and computed ways stay inside documents, segments lead from firm locations
to firm locations. -/
theorem Passage.firm (hc : Resource.Defined a.catalog) (hways : a.LeadsTo here Cursor.Inside)
    {segment : Segment} (hhere : a.Firm here) (h : a.Passage here segment there) : a.Firm there :=
  ⟨h.preserved (preserves_inside segment) hways hhere.inside, h.everywhere hc.everywhere⟩

/-- From a firm location a member is selected. -/
theorem Firm.select (h : a.Firm here) (motion : Motion) {c : Cursor}
    (hc : motion.applyInside here.cursor = .ok c) : ∃ there, a.select here motion = .ok there := by
  obtain ⟨member, hmember⟩ := h.charted.members
  exact ⟨⟨c, member⟩, select_eq h.inside hc hmember⟩

/-- A head leads from a firm location somewhere or to a problem. -/
theorem Firm.moveByHead (h : a.Firm here) (segment : Segment) :
    ∃ verdict, a.moveByHead here segment = .ok verdict := by
  obtain ⟨children, hb⟩ := h.charted.below
  cases hk : Keyed.get? segment.head children with
  | some id => exact ⟨_, moveByHead_child hb hk⟩
  | none =>
    rw [moveByHead_member hb hk]
    split
    · obtain ⟨there, hthere⟩ := h.select (.name (.text segment.head)) rfl
      exact ⟨.ok there, map_eq_ok.mpr ⟨there, hthere, rfl⟩⟩
    · split
      · obtain ⟨there, hthere⟩ := h.select (.id (.text segment.head)) rfl
        exact ⟨.ok there, map_eq_ok.mpr ⟨there, hthere, rfl⟩⟩
      · exact ⟨_, rfl⟩

/-- A qualifier is applied to a firm location or is a problem. -/
theorem Firm.qualify (h : a.Firm here) (head : String) (q : Qualifier) :
    ∃ verdict, a.qualify here head q = .ok verdict := by
  have hmember : ∀ (motion : Motion) {c : Cursor}, motion.applyInside here.cursor = .ok c →
      ∃ verdict, (a.select here motion).map (Except.ok : Standing → Verdict Standing) = .ok verdict := by
    intro motion c hc
    obtain ⟨there, hthere⟩ := h.select motion hc
    exact ⟨.ok there, map_eq_ok.mpr ⟨there, hthere, rfl⟩⟩
  cases q with
  | index n =>
    dsimp only [Atlas.qualify]
    split
    · exact hmember (.index (.int n)) rfl
    · exact ⟨_, rfl⟩
  | id n =>
    dsimp only [Atlas.qualify]
    split
    · exact hmember (.id (.int n)) rfl
    · exact ⟨_, rfl⟩
  | query r => exact ⟨_, map_eq_ok.mpr ⟨_, ask_inside h.inside r, rfl⟩⟩

/-- A segment leads from a firm location somewhere or to a problem. -/
theorem Firm.moveBy (hc : Resource.Defined a.catalog) (hways : a.LeadsTo here Cursor.Inside)
    (h : a.Firm here) (segment : Segment) : ∃ verdict, a.moveBy here segment = .ok verdict := by
  obtain ⟨head, qualifier⟩ := segment
  obtain ⟨verdict, hhead⟩ := h.moveByHead ⟨head, qualifier⟩
  unfold Atlas.moveBy
  rw [hhead]
  cases verdict with
  | error problem => exact ⟨_, rfl⟩
  | ok mid =>
    have hmid : a.Firm mid := Passage.firm hc hways h (.bare (headPassage_of_moveByHead hhead))
    cases qualifier with
    | none => exact ⟨_, rfl⟩
    | some q => exact hmid.qualify head q

/-- Segments lead from a firm location somewhere or to a problem. -/
theorem Firm.walk (hc : Resource.Defined a.catalog) (hways : a.WaysKeep Cursor.Inside)
    (hreached : a.Reached here) (h : a.Firm here) (segments : List Segment) :
    ∃ verdict, a.walk here segments = .ok verdict := by
  induction segments generalizing here with
  | nil => exact ⟨_, rfl⟩
  | cons s rest ih =>
    have hlead := hways here hreached h.inside
    obtain ⟨verdict, hs⟩ := h.moveBy hc hlead s
    unfold Atlas.walk
    rw [hs]
    cases verdict with
    | error problem => exact ⟨_, rfl⟩
    | ok mid => exact ih (hreached.moveBy hs) ((passage_of_moveBy hs).firm hc hlead h)

/-- Where every name is defined and computed ways stay inside documents, a location that was read leads
somewhere or to a problem. -/
theorem exists_locate (hc : Resource.Defined a.catalog) (hways : a.WaysKeep Cursor.Inside)
    (l : Location) : ∃ verdict, a.locate l = .ok verdict := by
  unfold locate
  split
  · exact ⟨_, rfl⟩
  · next what hwhat =>
    have hroot : a.Firm (a.start l.scheme what) := ⟨rfl, hc.everywhere.node what.schema⟩
    have hreached : a.Reached (a.start l.scheme what) :=
      ⟨l.scheme, what, [], Keyed.mem_of_get? hwhat, rfl⟩
    obtain ⟨verdict, hwalk⟩ := hroot.walk hc hways hreached l.segments
    exact ⟨_, bind_eq_ok.mpr ⟨verdict, hwalk, rfl⟩⟩

/-- Resolving an address breaks off exactly if reading the address does. -/
theorem resolve_error_iff (hc : Resource.Defined a.catalog) (hways : a.WaysKeep Cursor.Inside)
    {uri : String} {f : Fault} : a.resolve uri = .error f ↔ Address.read uri = .error f := by
  unfold resolve
  rw [bind_eq_error]
  refine or_iff_left ?_
  rintro ⟨verdict, -, h⟩
  cases verdict with
  | error problem => exact (nomatch h)
  | ok l =>
    obtain ⟨verdict, hverdict⟩ := exists_locate hc hways l
    exact (nomatch hverdict.symm.trans h)

end Atlas

end ResourceAtlas

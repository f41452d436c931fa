import ResourceAtlas.Proofs.Query.Written
import ResourceAtlas.Proofs.Registry.Behind

/-!
# Addresses without their queries

The address that a specifier reports leaves out the queries that were asked on the way. The segments
without their queries lead to the same location, in the plain form of its node, wherever no computed
way is taken; and where no integer heads a segment behind a query, whose identifier it would become,
their canonical text is read as those segments again.
-/

namespace ResourceAtlas

open Address Query Schema Text

/-- A location of which every head is a plain one, and which stays the same segments once the queries
are left out. -/
structure Address.Location.Legible (l : Location) : Prop where
  /-- Heads have characters, and no bracket opens in them. -/
  heads : ∀ s ∈ l.segments, s.head ≠ "" ∧ '[' ∉ s.head.toList
  /-- No integer follows as a head. -/
  unfolded : Unfolded false l.stem

namespace Atlas

variable {a : Atlas}

/-- The head of a segment without its query. -/
theorem head_unasked (s : Segment) : s.unasked.head = s.head := by
  obtain ⟨head, qualifier⟩ := s
  match qualifier with
  | none => rfl
  | some (.query _) => rfl
  | some (.index _) => rfl
  | some (.id _) => rfl

/-- What a segment without its query is qualified by, the segment is. -/
theorem qualifier_unasked {s : Segment} {q : Qualifier} (h : s.unasked.qualifier = some q) :
    s.qualifier = some q := by
  obtain ⟨head, qualifier⟩ := s
  match qualifier, h with
  | some (.index _), h => exact h
  | some (.id _), h => exact h

/-- The segments of a legible location can be written without their queries. -/
theorem writable_of_legible {uri : String} {l : Location} (hread : Address.read uri = .ok (.ok l))
    (hl : l.Legible) : Writable l.stem := by
  obtain ⟨-, -, hlexed, -⟩ := parts_of_read hread
  refine ⟨fun t ht => ?_, fun t ht => ?_, hl.unfolded⟩
  · obtain ⟨s, hs, rfl⟩ := List.mem_map.mp ht
    obtain ⟨hne, hopen⟩ := hl.heads s hs
    have hlex := hlexed s hs
    refine ⟨?_, ?_, ?_, fun n hn => hlex.index n (qualifier_unasked hn),
      fun n hn => hlex.id n (qualifier_unasked hn)⟩
    · rw [head_unasked]
      exact hne
    · rw [head_unasked]
      exact hopen
    · rw [head_unasked]
      exact hlex.unasked hopen
  · obtain ⟨s, -, rfl⟩ := List.mem_map.mp ht
    exact isStep_unasked s

/-- Two standings are at one place, and the node of the second is that of the first, where nothing is
asked, or the form of it that honours queries. -/
structure Standing.Below (here there : Standing) : Prop where
  /-- The locations differ by queries at most. -/
  near : here.cursor.Near there.cursor
  /-- The nodes differ by the form that honours queries at most. -/
  node : (there.node = here.node ∧ there.cursor.query = .empty) ∨ there.node = here.node.queryable

namespace Standing.Below

variable {here there : Standing}

/-- A standing where nothing is asked is below itself. -/
theorem refl (h : here.cursor.query = .empty) : here.Below here := ⟨.refl _, .inl ⟨rfl, h⟩⟩

/-- The nodes differ by the form that honours queries at most. -/
theorem node_eq (h : here.Below there) :
    there.node = here.node ∨ there.node = here.node.queryable :=
  h.node.imp_left And.left

/-- The same children lie below. -/
theorem below_eq (h : here.Below there) :
    there.node.below a.catalog = here.node.below a.catalog := by
  rcases h.node_eq with hn | hn
  · rw [hn]
  · rw [hn, below_queryable]

/-- The members are described by the same node. -/
theorem itemNode_eq (h : here.Below there) :
    there.node.itemNode a.catalog = here.node.itemNode a.catalog := by
  rcases h.node_eq with hn | hn
  · rw [hn]
  · unfold Node.itemNode Node.itemNode?
    rw [hn, Node.item_queryable]

/-- The same methods are there, beside those that ask a query. -/
theorem hasMethod_eq (h : here.Below there) {name : String}
    (hname : name ∉ Keyed.keys Node.queryMethods) :
    there.node.hasMethod name = here.node.hasMethod name := by
  rcases h.node_eq with hn | hn
  · rw [hn]
  · rw [hn, hasMethod_queryable hname]

/-- Both are namespaces or none is. -/
theorem isNamespace_eq (h : here.Below there) : there.node.isNamespace = here.node.isNamespace := by
  rcases h.node_eq with hn | hn
  · rw [hn]
  · rw [hn]
    unfold Node.queryable
    split <;> rfl

/-- The members are addressed by the same keys. -/
theorem memberKeys_eq (h : here.Below there) : there.node.memberKeys = here.node.memberKeys := by
  have hapart : ∀ key ∈ Node.accessors, key.1 ∉ Keyed.keys Node.queryMethods := by decide
  unfold Node.memberKeys
  rw [List.filter_congr fun key hkey => h.hasMethod_eq (hapart key hkey)]

/-- A head takes a computed way from both or from none. -/
theorem straightBy (h : here.Below there) {head : String} (hd : a.StraightBy there head) :
    a.StraightBy here head :=
  fun children id hb hk => hd children id (h.below_eq.trans hb) hk

/-- A head enters a namespace from both or from none. -/
theorem entersNamespace (h : here.Below there) {head : String}
    (hns : a.EntersNamespace here head) : a.EntersNamespace there head := by
  obtain ⟨children, id, hb, hk, hn⟩ := hns
  exact ⟨children, id, h.below_eq.trans hb, hk, hn⟩

/-- A head leads from both to one place and one node. -/
theorem headMove (h : here.Below there) {head : String} {found : Standing}
    (hm : a.HeadMove there head found) :
    ∃ plain, a.HeadMove here head plain ∧ plain.cursor.Near found.cursor ∧
      plain.node = found.node := by
  have hname : there.node.hasMethod "by_name" = here.node.hasMethod "by_name" :=
    h.hasMethod_eq (by decide)
  have hid : there.node.hasMethod "by_id" = here.node.hasMethod "by_id" :=
    h.hasMethod_eq (by decide)
  cases hm with
  | child hb hk => exact ⟨_, .child (h.below_eq.symm.trans hb) hk, h.near.entered _ _, rfl⟩
  | name hb hk hmethod hi =>
    exact ⟨_, .name (h.below_eq.symm.trans hb) hk (hname.symm.trans hmethod)
      (h.itemNode_eq.symm.trans hi), h.near.entered _ _, rfl⟩
  | id hb hk hno hmethod hi =>
    exact ⟨_, .id (h.below_eq.symm.trans hb) hk (hname.symm.trans hno) (hid.symm.trans hmethod)
      (h.itemNode_eq.symm.trans hi), h.near.entered _ _, rfl⟩

/-- A segment leads without its query from the one to where it leads with it from the other. -/
theorem segmentMove (h : here.Below there) {segment : Segment} {found : Standing}
    (hm : a.SegmentMove there segment found) :
    ∃ plain, a.SegmentMove here segment.unasked plain ∧ plain.Below found := by
  cases hm with
  | bare hm =>
    obtain ⟨plain, hplain, hnear, hnode⟩ := h.headMove hm
    exact ⟨plain, .bare hplain, hnear, .inl ⟨hnode.symm, hm.query_eq⟩⟩
  | index hm hmethod hi =>
    obtain ⟨plain, hplain, hnear, hnode⟩ := h.headMove hm
    exact ⟨_, .index hplain (hnode ▸ hmethod) (hnode ▸ hi), hnear.entered _ _, .inl ⟨rfl, rfl⟩⟩
  | id hm hmethod hi =>
    obtain ⟨plain, hplain, hnear, hnode⟩ := h.headMove hm
    exact ⟨_, .id hplain (hnode ▸ hmethod) (hnode ▸ hi), hnear.entered _ _, .inl ⟨rfl, rfl⟩⟩
  | query hm =>
    obtain ⟨plain, hplain, hnear, hnode⟩ := h.headMove hm
    exact ⟨plain, .bare hplain, hnear.trans (Cursor.near_withQuery _ _),
      .inr (congrArg Node.queryable hnode.symm)⟩

end Standing.Below

/-- A walk that takes no computed way arrives at the same place without the queries, by induction
along the segments. -/
theorem walk_unasked {here there found : Standing} {segments : List Segment}
    (hd : a.Straight there segments) (hbelow : here.Below there)
    (h : a.walk there segments = .ok (.ok found)) :
    ∃ plain, a.walk here (segments.map Segment.unasked) = .ok (.ok plain) ∧ plain.Below found ∧
      a.Straight here (segments.map Segment.unasked) := by
  induction segments generalizing here there with
  | nil =>
    obtain rfl := Except.ok.inj (Except.ok.inj h)
    exact ⟨here, rfl, hbelow, trivial⟩
  | cons s rest ih =>
    obtain ⟨mid, hmid, hrest⟩ := walk_cons_ok h
    obtain ⟨hin, hmove, hns⟩ := segmentMove_of_moveBy hd.1 hmid
    obtain ⟨plain, hplain, hnext⟩ := hbelow.segmentMove hmove
    have hstraight : a.StraightBy here s.unasked.head := by
      rw [head_unasked]
      exact hbelow.straightBy hd.1
    have hqualified : s.unasked.qualifier.isSome → ¬ a.EntersNamespace here s.unasked.head := by
      intro hsome henters
      obtain ⟨q, hq⟩ := Option.isSome_iff_exists.mp hsome
      rw [head_unasked] at henters
      exact hns (by rw [qualifier_unasked hq]; rfl) (hbelow.entersNamespace henters)
    have hstep := moveBy_of_segmentMove hstraight (hbelow.near.outside.trans hin) hplain hqualified
    obtain ⟨last, hlast, hlastBelow, hlastStraight⟩ := ih (hd.2 mid hmid) hnext hrest
    refine ⟨last, bind_eq_ok.mpr ⟨.ok plain, hstep, hlast⟩, hlastBelow, hstraight, ?_⟩
    intro other hother
    obtain rfl := Except.ok.inj (Except.ok.inj (hstep.symm.trans hother))
    exact hlastStraight

/-- A location that takes no computed way leads to where its segments without queries lead, in the
form that honours queries or not. -/
theorem locate_unasked {l : Location} {spec : Specifier}
    (hd : ∀ what, Keyed.get? l.scheme a.registry.schemes = some what →
      a.Straight (a.start l.scheme what) l.segments)
    (h : a.locate l = .ok (.ok spec)) :
    ∃ what mid, Keyed.get? l.scheme a.registry.schemes = some what ∧
      a.walk (a.start l.scheme what) l.stem = .ok (.ok mid) ∧
      a.Straight (a.start l.scheme what) l.stem ∧ mid.Below ⟨spec.cursor, spec.node⟩ := by
  obtain ⟨what, there, hwhat, hwalk, rfl⟩ := locate_ok h
  obtain ⟨mid, hmid, hbelow, hstraight⟩ := walk_unasked (hd what hwhat) (.refl rfl) hwalk
  exact ⟨what, mid, hwhat, hmid, hstraight, hbelow⟩

/-- A segment leads to where nothing is asked, or the query that it has. -/
theorem SegmentMove.asks {here there : Standing} {segment : Segment}
    (h : a.SegmentMove here segment there) :
    there.cursor.query = .empty ∨
      ∃ r, segment.qualifier = some (.query r) ∧ there.cursor.query = r.apply .empty := by
  cases h with
  | bare hm => exact .inl hm.query_eq
  | index hm => exact .inl rfl
  | id hm => exact .inl rfl
  | query hm =>
    refine .inr ⟨_, rfl, ?_⟩
    rw [Cursor.query_withQuery hm.inside, hm.query_eq]

/-- A walk arrives where nothing is asked, or the query of one of its segments. -/
theorem walk_asks {here there : Standing} {segments : List Segment}
    (hd : a.Straight here segments) (hquery : here.cursor.query = .empty)
    (h : a.walk here segments = .ok (.ok there)) :
    there.cursor.query = .empty ∨ ∃ s ∈ segments, ∃ r, s.qualifier = some (.query r) ∧
      there.cursor.query = r.apply .empty := by
  rcases List.eq_nil_or_concat' segments with rfl | ⟨before, s, rfl⟩
  · obtain rfl := Except.ok.inj (Except.ok.inj h)
    exact .inl hquery
  · obtain ⟨mid, hmid, hlast⟩ := walk_concat_ok h
    have hstraight := (straight_concat_iff.mp hd).2 mid hmid
    rcases (segmentMove_of_moveBy hstraight hlast).2.1.asks with hempty | ⟨r, hr, hasks⟩
    · exact .inl hempty
    · exact .inr ⟨s, List.mem_append_right _ (List.mem_singleton_self s), r, hr, hasks⟩

/-- The address of what a legible location leads to can be written: it is the canonical text of the
location without its queries, with what is asked there. -/
theorem exists_uri_of_locate {uri : String} {l : Location} {spec : Specifier}
    (hread : Address.read uri = .ok (.ok l)) (hl : l.Legible)
    (hd : ∀ what, Keyed.get? l.scheme a.registry.schemes = some what →
      a.Straight (a.start l.scheme what) l.segments)
    (h : a.locate l = .ok (.ok spec)) :
    stepsTextFrom [] spec.cursor.steps = .ok (canonicalText l.scheme l.stem) ∧
      spec.cursor.isOutside = false ∧ ∃ own, spec.uri = .ok own := by
  obtain ⟨what, mid, hwhat, hmid, hstraight, hbelow⟩ := locate_unasked hd h
  have hw := writable_of_legible hread hl
  obtain ⟨htext, hin, -⟩ := walk_canonical hstraight hw.each hw.steps hmid
  have hsteps : stepsTextFrom [] spec.cursor.steps = .ok (canonicalText l.scheme l.stem) :=
    hbelow.near.steps ▸ htext
  have hinside : spec.cursor.isOutside = false := hbelow.near.outside.symm.trans hin
  have hquery : ∃ text, spec.cursor.query.text = .ok text := by
    obtain ⟨what', there, hwhat', hwalk, rfl⟩ := locate_ok h
    obtain ⟨-, -, hlexed, -⟩ := parts_of_read hread
    rcases walk_asks (hd what' hwhat') rfl hwalk with hempty | ⟨s, hs, r, hr, hasks⟩
    · exact ⟨"", by rw [show there.cursor.query = State.empty from hempty]; rfl⟩
    · obtain ⟨text, htext⟩ := ((hlexed s hs).query r hr).exists_text
      exact ⟨text, by rw [show there.cursor.query = r.apply .empty from hasks, htext]⟩
  obtain ⟨query, hquery⟩ := hquery
  exact ⟨hsteps, hinside, _, uri_of_text hinside hsteps query hquery⟩

end Atlas

end ResourceAtlas

import ResourceAtlas.Proofs.Address.Step
import ResourceAtlas.Proofs.Outcome
import ResourceAtlas.Proofs.Schema.Regular
import ResourceAtlas.Registry

/-!
# Where a segment leads

A head leads into a declared child or to a member of its name or identifier, never from outside the
documents. All that such a move can do is said once here, for catalogs without computed ways; what
whole walks do follows from it.
-/

namespace ResourceAtlas

open Address Query Schema

/-- Inside a document a move stands where it leads. -/
theorem Motion.apply_inside {c : Cursor} (h : c.isOutside = false) (m : Motion) :
    m.apply c = m.applyInside c := by
  unfold Motion.apply
  rw [h]

/-- A move that needs a cursor starts inside a document. -/
theorem Motion.inside_of_apply {c there : Cursor} {m : Motion} (hm : m.asked?.isSome)
    (h : m.apply c = .ok there) : c.isOutside = false := by
  cases ho : c.isOutside with
  | false => rfl
  | true =>
    obtain ⟨wanted, hw⟩ := Option.isSome_iff_exists.mp hm
    unfold Motion.apply at h
    rw [ho, hw] at h
    exact absurd h (by simp)

/-- How a child is selected in the value around it. -/
def childSelector (key : String) (child : Node) : Selector :=
  match child.navigation with
  | some (.aliased backing) => .property backing
  | some .namespaced => .same
  | none => if child.isNamespace then .same else .property key

/-- The move to a child. -/
def childMotion (key : String) (child : Node) : Motion :=
  match child.navigation with
  | some (.aliased backing) => .aliased backing key
  | some .namespaced => .namespaced key
  | none => if child.isNamespace then .namespaced key else .property key

/-- A location directly inside another one, of which nothing is asked. -/
def Cursor.entered (c : Cursor) (selector : Selector) (step : Step) : Cursor :=
  .child c selector step .empty

/-- The move to a child needs a cursor. -/
theorem asked?_childMotion (key : String) (child : Node) :
    ((childMotion key child).asked?).isSome := by
  unfold childMotion
  split
  · rfl
  · rfl
  · split <;> rfl

/-- The move to a child does not lead back. -/
theorem childMotion_ne_parent (key : String) (child : Node) : childMotion key child ≠ .parent := by
  unfold childMotion
  split
  · exact nofun
  · exact nofun
  · split <;> exact nofun

/-- The move to a child stands inside the location. -/
theorem applyInside_childMotion (key : String) (child : Node) (c : Cursor) :
    (childMotion key child).applyInside c =
      .ok (c.entered (childSelector key child) (.prop key)) := by
  unfold childMotion childSelector
  split
  · rfl
  · rfl
  · split <;> rfl

/-- A child without a computed way is reached by its move. -/
theorem stepInto_direct (catalog : Catalog) {child : Node} (hl : child.landing = none)
    (cursor : Cursor) (key : String) :
    stepInto catalog cursor key child =
      ((childMotion key child).apply cursor).map fun c => (c, child) := by
  unfold stepInto childMotion
  rw [hl]
  cases child.isNamespace <;> rfl

/-- A namespace is reached by its move. -/
theorem stepInto_namespace (catalog : Catalog) {child : Node} (hs : child.isNamespace = true)
    (cursor : Cursor) (key : String) :
    stepInto catalog cursor key child =
      ((childMotion key child).apply cursor).map fun c => (c, child) := by
  unfold stepInto childMotion
  generalize child.isNamespace = grouped at hs ⊢
  subst hs
  rfl

/-- A child with a computed way that is no namespace is reached by it. -/
theorem stepInto_computed (catalog : Catalog) {child : Node} (hspace : child.isNamespace = false)
    {landing : Landing} (hl : child.landing = some landing) (cursor : Cursor) (key : String) :
    stepInto catalog cursor key child = (Motion.applyAll cursor landing.motions).map
      fun c => (c, catalog.node landing.target) := by
  unfold stepInto
  generalize child.isNamespace = grouped at hspace
  subst hspace
  rw [hl]

/-- Inside a document a child without a computed way is inside the location. -/
theorem stepInto_inside (catalog : Catalog) {child : Node} (hl : child.landing = none)
    {cursor : Cursor} (hc : cursor.isOutside = false) (key : String) :
    stepInto catalog cursor key child =
      .ok (cursor.entered (childSelector key child) (.prop key), child) := by
  rw [stepInto_direct catalog hl, Motion.apply_inside hc, applyInside_childMotion]
  rfl

namespace Atlas

/-- Where a head leads from a location. -/
inductive HeadMove (a : Atlas) (here : Standing) (head : String) : Standing → Prop
  /-- Into the declared child of that key. -/
  | child {children : Keyed NodeId} {id : NodeId} (hbelow : here.node.below a.catalog = .ok children)
      (hkey : Keyed.get? head children = some id) :
      HeadMove a here head
        ⟨here.cursor.entered (childSelector head (a.catalog.node id)) (.prop head), a.catalog.node id⟩
  /-- To the member of that name, where no child has the key. -/
  | name {children : Keyed NodeId} {member : Node} (hbelow : here.node.below a.catalog = .ok children)
      (hkey : Keyed.get? head children = none) (hname : here.node.hasMethod "by_name" = true)
      (hitem : here.node.itemNode a.catalog = .ok member) :
      HeadMove a here head
        ⟨here.cursor.entered (.name (.text head)) (.name (.text head)), member⟩
  /-- To the member of that identifier, where neither a child has the key nor names select. -/
  | id {children : Keyed NodeId} {member : Node} (hbelow : here.node.below a.catalog = .ok children)
      (hkey : Keyed.get? head children = none) (hname : here.node.hasMethod "by_name" = false)
      (hid : here.node.hasMethod "by_id" = true)
      (hitem : here.node.itemNode a.catalog = .ok member) :
      HeadMove a here head ⟨here.cursor.entered (.id (.text head)) (.id (.text head)), member⟩

/-- Selecting a member stands inside the location, with the node of the members. -/
theorem select_ok {a : Atlas} {here there : Standing} {motion : Motion}
    (hm : motion.asked?.isSome) (h : a.select here motion = .ok there) :
    here.cursor.isOutside = false ∧ motion.applyInside here.cursor = .ok there.cursor ∧
      here.node.itemNode a.catalog = .ok there.node := by
  unfold select at h
  obtain ⟨cursor, hc, h⟩ := bind_eq_ok.mp h
  obtain ⟨member, hi, h⟩ := bind_eq_ok.mp h
  obtain rfl := Except.ok.inj h
  have hin := Motion.inside_of_apply hm hc
  rw [Motion.apply_inside hin] at hc
  exact ⟨hin, hc, hi⟩

/-- Selecting a member of a location inside a document. -/
theorem select_eq {a : Atlas} {here : Standing} {motion : Motion} {cursor : Cursor} {member : Node}
    (hin : here.cursor.isOutside = false) (hc : motion.applyInside here.cursor = .ok cursor)
    (hi : here.node.itemNode a.catalog = .ok member) :
    a.select here motion = .ok ⟨cursor, member⟩ := by
  unfold select
  rw [Motion.apply_inside hin, hc, hi]
  rfl

/-- A verdict that a selection was made of is the standing selected. -/
theorem ok_of_map_ok {found : Outcome Standing} {there : Standing}
    (h : found.map (Except.ok : Standing → Verdict Standing) = .ok (.ok there)) :
    found = .ok there := by
  obtain ⟨s, hs, heq⟩ := map_eq_ok.mp h
  exact hs.trans (congrArg Except.ok (Except.ok.inj heq))

/-- A head that names a grouping which the data do not have. -/
def EntersNamespace (a : Atlas) (here : Standing) (head : String) : Prop :=
  ∃ children id, here.node.below a.catalog = .ok children ∧
    Keyed.get? head children = some id ∧ (a.catalog.node id).isNamespace = true

/-- A head takes no computed way: the declared child of that key, if there is one, is reached by
none. -/
def StraightBy (a : Atlas) (here : Standing) (head : String) : Prop :=
  ∀ children id, here.node.below a.catalog = .ok children →
    Keyed.get? head children = some id → (a.catalog.node id).landing = none

/-- In a direct catalog no head takes a computed way. -/
theorem straightBy_of_direct {a : Atlas} (hd : a.catalog.Direct) (here : Standing) (head : String) :
    a.StraightBy here head :=
  fun _ id _ _ => hd id

/-- A head of a declared child enters it. -/
theorem moveByHead_child {a : Atlas} {here : Standing} {segment : Segment} {children : Keyed NodeId}
    {id : NodeId} (hb : here.node.below a.catalog = .ok children)
    (hk : Keyed.get? segment.head children = some id) :
    a.moveByHead here segment = .ok (a.enter here segment (a.catalog.node id)) := by
  unfold moveByHead
  rw [hb, ok_bind, hk]

/-- A head of no declared child leads to a member, with any qualifier. -/
theorem moveByHead_member {a : Atlas} {here : Standing} {segment : Segment}
    {children : Keyed NodeId} (hb : here.node.below a.catalog = .ok children)
    (hk : Keyed.get? segment.head children = none) :
    a.moveByHead here segment =
      if here.node.hasMethod "by_name" then (a.select here (.name (.text segment.head))).map .ok
      else if here.node.hasMethod "by_id" then (a.select here (.id (.text segment.head))).map .ok
      else .ok (.error (.unknownSegment segment.head (Keyed.keys children))) := by
  unfold moveByHead
  rw [hb, ok_bind, hk]

/-- A declared child is entered by its step, and a namespace without a qualifier only. -/
theorem enter_ok_iff {a : Atlas} {here found : Standing} {segment : Segment} {child : Node} :
    a.enter here segment child = .ok found ↔
      (child.isNamespace && segment.qualifier.isSome) = false ∧
        stepInto a.catalog here.cursor segment.head child = .ok (found.cursor, found.node) := by
  unfold enter
  cases hq : child.isNamespace && segment.qualifier.isSome with
  | true => exact ⟨fun h => (nomatch h), fun h => absurd h.1 (by decide)⟩
  | false =>
    rw [if_neg Bool.false_ne_true]
    cases stepInto a.catalog here.cursor segment.head child with
    | error f => exact ⟨fun h => (nomatch h), fun h => (nomatch h.2)⟩
    | ok pair =>
      constructor
      · intro h
        obtain rfl := Except.ok.inj h
        exact ⟨rfl, rfl⟩
      · rintro ⟨-, h⟩
        obtain rfl := Except.ok.inj h
        rfl

/-- A head names a grouping exactly if the declared child of that key is one. -/
theorem entersNamespace_iff {a : Atlas} {here : Standing} {head : String} {children : Keyed NodeId}
    (hb : here.node.below a.catalog = .ok children) :
    a.EntersNamespace here head ↔
      ∃ id, Keyed.get? head children = some id ∧ (a.catalog.node id).isNamespace = true := by
  constructor
  · rintro ⟨children', id, hb', hk, hn⟩
    obtain rfl := Except.ok.inj (hb.symm.trans hb')
    exact ⟨id, hk, hn⟩
  · rintro ⟨id, hk, hn⟩
    exact ⟨children, id, hb, hk, hn⟩

/-- A head that takes no computed way leads into a child or to a member; a namespace takes no
qualifier. -/
theorem headMove_of_moveByHead {a : Atlas} {here there : Standing} {segment : Segment}
    (hd : a.StraightBy here segment.head) (h : a.moveByHead here segment = .ok (.ok there)) :
    here.cursor.isOutside = false ∧ a.HeadMove here segment.head there ∧
      (segment.qualifier.isSome → ¬ a.EntersNamespace here segment.head) := by
  obtain ⟨cursor, node⟩ := there
  obtain ⟨children, hb, -⟩ := bind_eq_ok.mp h
  rw [entersNamespace_iff hb]
  cases hk : Keyed.get? segment.head children with
  | some id =>
    rw [moveByHead_child hb hk] at h
    obtain ⟨hq, hstep⟩ := enter_ok_iff.mp (Except.ok.inj h)
    rw [stepInto_direct a.catalog (hd children id hb hk)] at hstep
    obtain ⟨there, hm, hpair⟩ := map_eq_ok.mp hstep
    obtain ⟨rfl, rfl⟩ := Prod.mk.inj hpair
    have hin := Motion.inside_of_apply (asked?_childMotion _ _) hm
    rw [Motion.apply_inside hin, applyInside_childMotion] at hm
    obtain rfl := Except.ok.inj hm
    refine ⟨hin, .child hb hk, ?_⟩
    rintro hsome ⟨id', hk', hn⟩
    obtain rfl := Option.some.inj hk'
    rw [hn, hsome] at hq
    exact absurd hq (by decide)
  | none =>
    rw [moveByHead_member hb hk] at h
    have hno : ¬ ∃ id, (none : Option NodeId) = some id ∧ (a.catalog.node id).isNamespace = true :=
      fun ⟨_, hsome, _⟩ => (nomatch hsome)
    split at h
    · next hname =>
      obtain ⟨hin, hc, hi⟩ := select_ok rfl (ok_of_map_ok h)
      obtain rfl := Except.ok.inj hc
      exact ⟨hin, .name hb hk hname hi, fun _ => hno⟩
    · next hname =>
      split at h
      · next hid =>
        obtain ⟨hin, hc, hi⟩ := select_ok rfl (ok_of_map_ok h)
        obtain rfl := Except.ok.inj hc
        exact ⟨hin, .id hb hk (Bool.of_not_eq_true hname) hid hi, fun _ => hno⟩
      · exact (nomatch h)

/-- Where a head leads that takes no computed way, a segment with that head leads, unless it
qualifies a namespace. -/
theorem moveByHead_of_headMove {a : Atlas} {here there : Standing} {head : String}
    (hd : a.StraightBy here head) (hin : here.cursor.isOutside = false)
    (hm : a.HeadMove here head there) {q : Option Qualifier}
    (hq : q.isSome → ¬ a.EntersNamespace here head) :
    a.moveByHead here ⟨head, q⟩ = .ok (.ok there) := by
  cases hm with
  | @child children id hb hk =>
    have hcond : ((a.catalog.node id).isNamespace && q.isSome) = false := by
      rw [Bool.eq_false_iff, ne_eq, Bool.and_eq_true]
      rintro ⟨hn, hs⟩
      exact hq hs ⟨_, _, hb, hk, hn⟩
    rw [moveByHead_child hb hk]
    exact congrArg Except.ok
      (enter_ok_iff.mpr ⟨hcond, stepInto_inside a.catalog (hd children id hb hk) hin head⟩)
  | name hb hk hname hi =>
    rw [moveByHead_member hb hk, if_pos hname, select_eq hin rfl hi]
    rfl
  | id hb hk hname hid hi =>
    rw [moveByHead_member hb hk, hname, if_neg Bool.false_ne_true, if_pos hid, select_eq hin rfl hi]
    rfl

/-- A qualifier on a namespace is refused. -/
theorem moveByHead_namespace {a : Atlas} {here : Standing} {head : String}
    (h : a.EntersNamespace here head) (q : Qualifier) :
    a.moveByHead here ⟨head, some q⟩ = .ok (.error (.namespaceQualified head)) := by
  obtain ⟨children, id, hb, hk, hn⟩ := h
  rw [moveByHead_child hb hk, enter, hn]
  rfl

/-- A verdict that a selection was made is the selection. -/
theorem map_ok_iff {x : Outcome Standing} {found : Standing} :
    x.map (Except.ok : Standing → Verdict Standing) = .ok (.ok found) ↔ x = .ok found :=
  ⟨ok_of_map_ok, fun h => h ▸ rfl⟩

/-- Where a declared child leads that is a namespace there is one. -/
theorem enter_namespace {a : Atlas} {here found : Standing} {segment : Segment} {child : Node}
    (h : a.enter here segment child = .ok found) (hspace : child.isNamespace = true) :
    found.node = child := by
  have hstep := (enter_ok_iff.mp h).2
  rw [stepInto_namespace a.catalog hspace] at hstep
  obtain ⟨_, -, hpair⟩ := map_eq_ok.mp hstep
  exact (Prod.mk.inj hpair).2.symm

/-- Where a head without a qualifier leads that is no namespace, the head leads with any qualifier. -/
theorem moveByHead_any {a : Atlas} {here found : Standing} {head : String}
    (h : a.moveByHead here ⟨head, none⟩ = .ok (.ok found)) (hno : found.node.isNamespace = false)
    (q : Option Qualifier) : a.moveByHead here ⟨head, q⟩ = .ok (.ok found) := by
  obtain ⟨children, hb, -⟩ := bind_eq_ok.mp h
  cases hk : Keyed.get? head children with
  | some id =>
    rw [moveByHead_child hb hk] at h ⊢
    obtain ⟨-, hstep⟩ := enter_ok_iff.mp (Except.ok.inj h)
    have hchild : (a.catalog.node id).isNamespace = false := by
      by_contra hchild
      rw [enter_namespace (Except.ok.inj h) (Bool.not_eq_false _ ▸ hchild)] at hno
      exact hchild hno
    exact congrArg Except.ok (enter_ok_iff.mpr ⟨by rw [hchild, Bool.false_and], hstep⟩)
  | none =>
    rw [moveByHead_member hb hk] at h ⊢
    exact h

/-- A head with a qualifier leads where it leads without one. -/
theorem moveByHead_bare {a : Atlas} {here found : Standing} {head : String} {q : Option Qualifier}
    (h : a.moveByHead here ⟨head, q⟩ = .ok (.ok found)) :
    a.moveByHead here ⟨head, none⟩ = .ok (.ok found) := by
  obtain ⟨children, hb, -⟩ := bind_eq_ok.mp h
  cases hk : Keyed.get? head children with
  | some id =>
    rw [moveByHead_child hb hk] at h ⊢
    obtain ⟨-, hstep⟩ := enter_ok_iff.mp (Except.ok.inj h)
    exact congrArg Except.ok
      (enter_ok_iff.mpr ⟨by rw [Option.isSome_none, Bool.and_false], hstep⟩)
  | none =>
    rw [moveByHead_member hb hk] at h ⊢
    exact h

/-- A segment without a qualifier leads to where its head leads. -/
theorem moveBy_bare (a : Atlas) (here : Standing) (head : String) :
    a.moveBy here ⟨head, none⟩ = a.moveByHead here ⟨head, none⟩ := by
  unfold moveBy
  cases a.moveByHead here ⟨head, none⟩ with
  | error f => rfl
  | ok verdict => cases verdict <;> rfl

end Atlas

end ResourceAtlas

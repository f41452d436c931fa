import ResourceAtlas.Proofs.Outcome
import ResourceAtlas.Proofs.Registry.Move
import ResourceAtlas.Proofs.Schema.Nesting

/-!
# What a segment can do

A segment passes by its head into a declared child, by its move or by a computed way, or to a member; then
its qualifier selects a member or asks a query. This is all that resolving an address does, in any catalog,
so what each of these steps keeps holds at the end of every walk.
-/

namespace ResourceAtlas

open Address Query Schema

/-- A step into a child leads to the node that governs it: directly inside the location, or by a computed
way. -/
theorem stepInto_ok {catalog : Catalog} {cursor there : Cursor} {key : String} {id : NodeId} {node : Node}
    (h : stepInto catalog cursor key (catalog.node id) = .ok (there, node)) :
    node = catalog.node (catalog.governing id) ∧
      ((cursor.isOutside = false ∧
          there = cursor.entered (childSelector key (catalog.node id)) (.prop key)) ∨
        ∃ landing, (catalog.node id).landing = some landing ∧
          Motion.applyAll cursor landing.motions = .ok there) := by
  have hmove : ∀ {c}, ((childMotion key (catalog.node id)).apply cursor) = .ok c →
      cursor.isOutside = false ∧
        c = cursor.entered (childSelector key (catalog.node id)) (.prop key) := by
    intro c hc
    have hin := Motion.inside_of_apply (asked?_childMotion key (catalog.node id)) hc
    rw [Motion.apply_inside hin, applyInside_childMotion] at hc
    exact ⟨hin, (Except.ok.inj hc).symm⟩
  unfold Catalog.governing
  cases hspace : (catalog.node id).isNamespace with
  | true =>
    rw [stepInto_namespace catalog hspace] at h
    obtain ⟨c, hc, heq⟩ := map_eq_ok.mp h
    obtain ⟨rfl, rfl⟩ := Prod.mk.inj heq
    exact ⟨rfl, .inl (hmove hc)⟩
  | false =>
    cases hl : (catalog.node id).landing with
    | none =>
      rw [stepInto_direct catalog hl] at h
      obtain ⟨c, hc, heq⟩ := map_eq_ok.mp h
      obtain ⟨rfl, rfl⟩ := Prod.mk.inj heq
      exact ⟨rfl, .inl (hmove hc)⟩
    | some landing =>
      rw [stepInto_computed catalog hspace hl] at h
      obtain ⟨c, hc, heq⟩ := map_eq_ok.mp h
      obtain ⟨rfl, rfl⟩ := Prod.mk.inj heq
      exact ⟨rfl, .inr ⟨landing, rfl, hc⟩⟩

/-- The steps that a segment can add to an address. -/
inductive Address.Segment.Adds (s : Segment) : Step → Prop
  /-- To the child of its head. -/
  | prop : s.Adds (.prop s.head)
  /-- To the member that its head names. -/
  | name : s.Adds (.name (.text s.head))
  /-- To the member that its head identifies. -/
  | identified : s.Adds (.id (.text s.head))
  /-- To the member at its position. -/
  | index {n : Int} (h : s.qualifier = some (.index n)) : s.Adds (.index (.int n))
  /-- To the member of its identifier. -/
  | id {n : Int} (h : s.qualifier = some (.id n)) : s.Adds (.id (.int n))

/-- What a segment keeps of a location where it takes no computed way. -/
structure Address.Segment.Preserves (s : Segment) (p : Cursor → Prop) : Prop where
  /-- What lies inside has it, too. -/
  enter : ∀ step, s.Adds step → ∀ c selector, p c → p (c.entered selector step)
  /-- The location has it when it is asked a query. -/
  ask : ∀ r, s.qualifier = some (.query r) → ∀ c, p c → p (c.withQuery (r.apply c.query))

namespace Atlas

variable {a : Atlas} {here there mid : Standing}

/-- Where a head passes to. -/
inductive HeadPassage (a : Atlas) (here : Standing) (head : String) : Standing → Prop
  /-- Into the declared child of that key. -/
  | child {there : Standing} {children : Keyed NodeId} {id : NodeId}
      (hb : here.node.below a.catalog = .ok children) (hk : Keyed.get? head children = some id)
      (hs : stepInto a.catalog here.cursor head (a.catalog.node id) = .ok (there.cursor, there.node)) :
      HeadPassage a here head there
  /-- To the member of that name. -/
  | name {there : Standing} (h : a.select here (.name (.text head)) = .ok there) :
      HeadPassage a here head there
  /-- To the member of that identifier. -/
  | id {there : Standing} (h : a.select here (.id (.text head)) = .ok there) :
      HeadPassage a here head there

/-- Where a segment passes to. -/
inductive Passage (a : Atlas) (here : Standing) : Segment → Standing → Prop
  /-- Where its head passes to. -/
  | bare {head : String} {there : Standing} (hm : a.HeadPassage here head there) :
      Passage a here ⟨head, none⟩ there
  /-- To a member at a position there. -/
  | index {head : String} {mid there : Standing} {n : Int} (hm : a.HeadPassage here head mid)
      (h : a.select mid (.index (.int n)) = .ok there) : Passage a here ⟨head, some (.index n)⟩ there
  /-- To a member of an identifier there. -/
  | id {head : String} {mid there : Standing} {n : Int} (hm : a.HeadPassage here head mid)
      (h : a.select mid (.id (.int n)) = .ok there) : Passage a here ⟨head, some (.id n)⟩ there
  /-- To the same place, asked a query. -/
  | query {head : String} {mid there : Standing} {r : Request} (hm : a.HeadPassage here head mid)
      (h : ask mid r = .ok there) : Passage a here ⟨head, some (.query r)⟩ there

/-- A head that leads somewhere passes there. -/
theorem headPassage_of_moveByHead {segment : Segment}
    (h : a.moveByHead here segment = .ok (.ok there)) : a.HeadPassage here segment.head there := by
  obtain ⟨children, hb, -⟩ := bind_eq_ok.mp h
  cases hk : Keyed.get? segment.head children with
  | some id =>
    rw [moveByHead_child hb hk] at h
    exact .child hb hk (enter_ok_iff.mp (Except.ok.inj h)).2
  | none =>
    rw [moveByHead_member hb hk] at h
    split at h
    · exact .name (ok_of_map_ok h)
    · split at h
      · exact .id (ok_of_map_ok h)
      · exact (nomatch h)

/-- A segment that leads somewhere passes there. -/
theorem passage_of_moveBy {segment : Segment} (h : a.moveBy here segment = .ok (.ok there)) :
    a.Passage here segment there := by
  obtain ⟨head, qualifier⟩ := segment
  obtain ⟨verdict, hhead, h⟩ := bind_eq_ok.mp h
  cases verdict with
  | error problem => exact (nomatch h)
  | ok mid =>
    have hmid := headPassage_of_moveByHead hhead
    match qualifier with
    | none =>
      obtain rfl := Except.ok.inj (Except.ok.inj h)
      exact .bare hmid
    | some (.index n) =>
      dsimp only [qualify] at h
      split at h
      · exact .index hmid (ok_of_map_ok h)
      · exact (nomatch h)
    | some (.id n) =>
      dsimp only [qualify] at h
      split at h
      · exact .id hmid (ok_of_map_ok h)
      · exact (nomatch h)
    | some (.query r) => exact .query hmid (ok_of_map_ok h)

/-- What is asked a query is the same location with more asked of it, in the form of its node that honours
queries. -/
theorem ask_ok {r : Request} (h : ask here r = .ok there) :
    there = ⟨here.cursor.withQuery (r.apply here.cursor.query), here.node.queryable⟩ := by
  unfold ask at h
  split at h
  · obtain ⟨cursor, hwithin, h⟩ := bind_eq_ok.mp h
    unfold Cursor.within at hwithin
    split at hwithin
    · exact (nomatch hwithin)
    · obtain rfl := Except.ok.inj hwithin
      exact (Except.ok.inj h).symm
  · exact (Except.ok.inj h).symm

/-- A head passes to a node that is met. -/
theorem HeadPassage.everywhere {p : Node → Prop} (hp : a.catalog.Everywhere p) {head : String}
    (h : a.HeadPassage here head there) : p there.node := by
  cases h with
  | child _ _ hs => exact (stepInto_ok hs).1 ▸ hp.node _
  | name h => exact hp.member (select_ok rfl h).2.2
  | id h => exact hp.member (select_ok rfl h).2.2

/-- A segment passes to a node that is met. -/
theorem Passage.everywhere {p : Node → Prop} (hp : a.catalog.Everywhere p) {segment : Segment}
    (h : a.Passage here segment there) : p there.node := by
  cases h with
  | bare hm => exact hm.everywhere hp
  | index _ h => exact hp.member (select_ok rfl h).2.2
  | id _ h => exact hp.member (select_ok rfl h).2.2
  | query hm h => exact ask_ok h ▸ hp.queryable (hm.everywhere hp)

/-- The computed ways that go on from a location and arrive, arrive where something holds. -/
def LeadsTo (a : Atlas) (here : Standing) (p : Cursor → Prop) : Prop :=
  ∀ children, here.node.below a.catalog = .ok children → ∀ e ∈ children,
    ∀ landing, (a.catalog.node e.2).landing = some landing →
      ∀ c, Motion.applyAll here.cursor landing.motions = .ok c → p c

/-- What a segment preserves and computed ways lead to, its head keeps. -/
theorem HeadPassage.preserved {p : Cursor → Prop} {segment : Segment} (hs : segment.Preserves p)
    (hways : a.LeadsTo here p) (hp : p here.cursor) (h : a.HeadPassage here segment.head there) :
    p there.cursor := by
  cases h with
  | child hb hk hinto =>
    rcases (stepInto_ok hinto).2 with ⟨-, heq⟩ | ⟨landing, hlanding, hmoves⟩
    · rw [heq]
      exact hs.enter _ .prop _ _ hp
    · exact hways _ hb _ (Keyed.mem_of_get? hk) landing hlanding _ hmoves
  | name h =>
    rw [← Except.ok.inj (select_ok rfl h).2.1]
    exact hs.enter _ .name here.cursor (.name (.text segment.head)) hp
  | id h =>
    rw [← Except.ok.inj (select_ok rfl h).2.1]
    exact hs.enter _ .identified here.cursor (.id (.text segment.head)) hp

/-- What a segment preserves and computed ways lead to, the segment keeps. -/
theorem Passage.preserved {p : Cursor → Prop} {segment : Segment} (hs : segment.Preserves p)
    (hways : a.LeadsTo here p) (hp : p here.cursor) (h : a.Passage here segment there) :
    p there.cursor := by
  cases h with
  | bare hm => exact hm.preserved hs hways hp
  | @index head mid _ n hm h =>
    rw [← Except.ok.inj (select_ok rfl h).2.1]
    exact hs.enter _ (.index rfl) mid.cursor (.index (.int n)) (hm.preserved hs hways hp)
  | @id head mid _ n hm h =>
    rw [← Except.ok.inj (select_ok rfl h).2.1]
    exact hs.enter _ (.id rfl) mid.cursor (.id (.int n)) (hm.preserved hs hways hp)
  | @query head mid _ r hm h =>
    rw [ask_ok h]
    exact hs.ask r rfl mid.cursor (hm.preserved hs hways hp)

/-- What every segment keeps, wherever it passes. -/
def Keeps (a : Atlas) (p : Standing → Prop) : Prop :=
  ∀ segment here there, p here → a.Passage here segment there → p there

/-- What every segment keeps, a walk along segments keeps. -/
theorem Keeps.walk {p : Standing → Prop} (hkeeps : a.Keeps p) {segments : List Segment} (hp : p here)
    (h : a.walk here segments = .ok (.ok there)) : p there := by
  induction segments generalizing here with
  | nil => exact Except.ok.inj (Except.ok.inj h) ▸ hp
  | cons s rest ih =>
    obtain ⟨verdict, hs, h⟩ := bind_eq_ok.mp h
    cases verdict with
    | error problem => exact (nomatch h)
    | ok mid => exact ih (hkeeps s here mid hp (passage_of_moveBy hs)) h

end Atlas

end ResourceAtlas

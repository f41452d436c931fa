import ResourceAtlas.Proofs.Outcome
import ResourceAtlas.Proofs.Registry.Walk
import ResourceAtlas.Proofs.Specifier.Selected

/-!
# Canonical addresses are a fixed point

The address that a specifier reports resolves to a specifier of that address and that value. Without
a query it is the specifier itself; with one, a request is read that asks for the same.
-/

namespace ResourceAtlas

open Address Query Schema Text

/-- A location of which every head is a plain one, and which asks for a query on its last segment at
most. -/
structure Address.Location.Clear (l : Location) : Prop where
  /-- Heads have characters, and no bracket opens in them. -/
  heads : ∀ s ∈ l.segments, s.head ≠ "" ∧ '[' ∉ s.head.toList
  /-- Queries stand on the last segment alone. -/
  last : ∀ s ∈ l.segments.dropLast, s.IsStep

/-- A clear location that asks by plain names and numbers that survive being written. -/
structure Address.Location.Plain (l : Location) : Prop extends l.Clear where
  /-- Queries can be written. -/
  requests : ∀ s ∈ l.segments, ∀ r, s.qualifier = some (.query r) → r.Plain

namespace Atlas

variable {a : Atlas}

/-- Where the walk along an address starts. -/
def start (a : Atlas) (scheme : String) (what : Registration) : Standing :=
  ⟨.atRoot what.document scheme, a.catalog.node what.schema⟩

/-- A query is asked of a collection: what the address leads to without the query is one. -/
def AsksCollection (a : Atlas) (l : Location) : Prop :=
  ∀ before head r, l.segments = before ++ [⟨head, some (.query r)⟩] →
    ∀ spec, a.locate ⟨l.scheme, before ++ [⟨head, none⟩]⟩ = .ok (.ok spec) →
      spec.node.kind.isCollection = true

/-- A location leads to where the walk from the root of its scheme arrives. -/
theorem locate_ok {l : Location} {spec : Specifier} (h : a.locate l = .ok (.ok spec)) :
    ∃ what there, Keyed.get? l.scheme a.registry.schemes = some what ∧
      a.walk (a.start l.scheme what) l.segments = .ok (.ok there) ∧
      spec = ⟨there.cursor, there.node, true⟩ := by
  unfold locate at h
  cases hs : Keyed.get? l.scheme a.registry.schemes with
  | none =>
    rw [hs] at h
    exact absurd h (by simp)
  | some what =>
    rw [hs] at h
    dsimp only at h
    cases hw : a.walk ⟨.atRoot what.document l.scheme, a.catalog.node what.schema⟩ l.segments with
    | error f =>
      rw [hw] at h
      exact absurd h (by simp [bind, Except.bind])
    | ok verdict =>
      rw [hw] at h
      cases verdict with
      | error problem => exact absurd h (by simp [bind, Except.bind, Except.map])
      | ok there => exact ⟨what, there, rfl, hw, (Except.ok.inj (Except.ok.inj h)).symm⟩

/-- Where a walk from the root of a scheme arrives, the location leads. -/
theorem locate_of_walk {scheme : String} {what : Registration} {segments : List Segment}
    {there : Standing} (hs : Keyed.get? scheme a.registry.schemes = some what)
    (hw : a.walk (a.start scheme what) segments = .ok (.ok there)) :
    a.locate ⟨scheme, segments⟩ = .ok (.ok ⟨there.cursor, there.node, true⟩) := by
  unfold locate
  rw [hs]
  dsimp only
  rw [show (⟨.atRoot what.document scheme, a.catalog.node what.schema⟩ : Standing) =
    a.start scheme what from rfl, hw]
  rfl

/-- An address that is read resolves to where its location leads. -/
theorem resolve_of_read {uri : String} {l : Location} (h : Address.read uri = .ok (.ok l)) :
    a.resolve uri = a.locate l := by
  unfold resolve
  rw [h]
  rfl

/-- An address that resolves is read as a location that leads there. -/
theorem resolve_ok {uri : String} {spec : Specifier} (h : a.resolve uri = .ok (.ok spec)) :
    ∃ l, Address.read uri = .ok (.ok l) ∧ a.locate l = .ok (.ok spec) := by
  obtain ⟨verdict, hread, h⟩ := bind_eq_ok.mp h
  cases verdict with
  | error problem => exact (nomatch h)
  | ok l => exact ⟨l, hread, h⟩

/-- What an address resolves to can look up new addresses. -/
theorem registered_of_resolve {uri : String} {spec : Specifier}
    (h : a.resolve uri = .ok (.ok spec)) : spec.registered = true := by
  obtain ⟨l, -, hlocate⟩ := resolve_ok h
  obtain ⟨what, there, -, -, rfl⟩ := locate_ok hlocate
  rfl

/-- The segments before the last one and those with plain heads can be written. -/
theorem writable_of_clear {uri : String} {l : Location} (h : Address.read uri = .ok (.ok l))
    (hp : l.Clear) : (∀ s ∈ l.segments, s.Writable) ∧ Unfolded false l.segments := by
  obtain ⟨-, -, hlexed, hsettled⟩ := parts_of_read h
  refine ⟨fun s hs => ?_, ?_⟩
  · obtain ⟨hne, hopen⟩ := hp.heads s hs
    exact ⟨hne, hopen, (hlexed s hs).unasked hopen, (hlexed s hs).index, (hlexed s hs).id⟩
  · have hopen : ∀ s ∈ l.segments, '[' ∉ s.head.toList := fun s hs => (hp.heads s hs).2
    have hunfolded : Unfolded (isBare []) l.segments :=
      unfolded_of_settled hopen (by rw [List.append_nil]; exact hsettled)
    exact hunfolded

/-- The scheme of an address that was read can start an address. -/
theorem readableScheme_of_read {uri : String} {l : Location}
    (h : Address.read uri = .ok (.ok l)) : ReadableScheme l.scheme := by
  obtain ⟨hne, ⟨path, hat⟩, -, -⟩ := parts_of_read h
  exact ⟨hne, uri.toList, path, hat⟩

/-- Whether segments head for an integer does not depend on what the last of them asks. -/
theorem unfolded_concat {bare : Bool} {before : List Segment} {head : String}
    {q q' : Option Qualifier} (h : Unfolded bare (before ++ [⟨head, q⟩])) :
    Unfolded bare (before ++ [⟨head, q'⟩]) := by
  induction before generalizing bare with
  | nil => exact ⟨h.1, trivial⟩
  | cons s before ih => exact ⟨h.1, ih h.2⟩

/-- The address of a location with the canonical text of segments, of which a state is asked. -/
theorem uri_of_text {c : Cursor} (hin : c.isOutside = false) {text : List Char}
    (ht : stepsTextFrom [] c.steps = .ok text) (query : String) (hq : c.query.text = .ok query) :
    c.uri = .ok (String.ofList
      (if query = "" then text else text ++ '?' :: query.toList)) := by
  rw [Cursor.uri_inside hin, addressText, stepsText, ht, hq]
  simp only [bind, Except.bind, Except.map]
  by_cases he : query = ""
  · rw [if_pos he, he]
    rfl
  · have hne : query.isEmpty = false := by
      rw [Bool.eq_false_iff, ne_eq, String.isEmpty_iff]
      exact he
    rw [if_neg he, hne, if_neg Bool.false_ne_true]
    congr 1
    apply String.toList_inj.mp
    simp only [String.toList_append, String.toList_ofList, List.append_assoc]
    rfl

/-- The text of the root of a scheme. -/
theorem start_text (scheme : String) (what : Registration) :
    stepsTextFrom [] (a.start scheme what).cursor.steps = .ok (canonicalText scheme []) := by
  rw [canonicalText, show (pathText []).tail = [] from rfl, List.append_nil]
  rfl

/-- A walk that asks a query at its end arrives without the query as well, inside a document and
where nothing is asked, and with any other query in its place. -/
theorem walk_asked {here there : Standing} (hd : a.catalog.Direct) {before : List Segment}
    {head : String} {r : Request}
    (h : a.walk here (before ++ [asked head r]) = .ok (.ok there)) :
    ∃ mid, a.walk here (before ++ [⟨head, none⟩]) = .ok (.ok mid) ∧
      mid.cursor.isOutside = false ∧ mid.cursor.query = .empty ∧
      ∀ r', a.walk here (before ++ [asked head r']) =
        .ok (.ok ⟨mid.cursor.withQuery (r'.apply .empty), mid.node.queryable⟩) := by
  obtain ⟨stop, hstop, hlast⟩ := walk_concat_ok h
  obtain ⟨hin, hm, hns⟩ := moveBy_ok hd hlast
  have hfree : ¬ a.EntersNamespace stop head := hns rfl
  unfold asked at hm
  cases hm with
  | query hm =>
    rename_i mid
    refine ⟨mid, ?_, hm.inside, hm.query_eq, fun r' => ?_⟩
    · rw [walk_concat hstop]
      exact moveBy_of_move hd hin (.bare hm) fun hsome => absurd hsome Bool.false_ne_true
    · rw [walk_concat hstop, ← hm.query_eq]
      exact moveBy_of_move hd hin (.query hm) fun _ => hfree

/-- Segments that ask a query ask it at the end, if queries stand there alone. -/
theorem exists_asked {segments : List Segment} (hlast : ∀ s ∈ segments.dropLast, s.IsStep)
    (h : ¬ ∀ s ∈ segments, s.IsStep) :
    ∃ before head r, segments = before ++ [asked head r] ∧ ∀ s ∈ before, s.IsStep := by
  cases hs : segments using List.reverseRecOn with
  | nil =>
    subst hs
    exact absurd (fun s hmem => absurd hmem List.not_mem_nil) h
  | append_singleton before s =>
    subst hs
    rw [List.dropLast_concat] at hlast
    obtain ⟨head, qualifier⟩ := s
    by_cases hq : ∃ r, qualifier = some (.query r)
    · obtain ⟨r, rfl⟩ := hq
      exact ⟨before, head, r, rfl, hlast⟩
    · exfalso
      apply h
      intro t ht
      rcases List.mem_append.mp ht with ht | ht
      · exact hlast t ht
      · obtain rfl := List.mem_singleton.mp ht
        exact fun r hr => hq ⟨r, hr⟩

/-- Where segments without queries lead from the root of a scheme by no computed way, their canonical
text is the address. -/
theorem walk_canonical {scheme : String} {what : Registration} {segments : List Segment}
    {there : Standing} (hd : a.Straight (a.start scheme what) segments)
    (hw : ∀ s ∈ segments, s.Writable) (hs : ∀ s ∈ segments, s.IsStep)
    (h : a.walk (a.start scheme what) segments = .ok (.ok there)) :
    stepsTextFrom [] there.cursor.steps = .ok (canonicalText scheme segments) ∧
      there.cursor.isOutside = false ∧ there.cursor.query = .empty := by
  have hnone : ∀ s ∈ ([] : List Segment), s.Writable := fun s hmem => absurd hmem List.not_mem_nil
  have htext := walk_text hd hw hs h hnone (start_text scheme what)
  rw [List.nil_append] at htext
  exact ⟨htext, walk_inside hd rfl h, walk_query hd rfl hs h⟩

/-- Where segments without queries lead from the root of a scheme, their canonical text is the
address. -/
theorem walk_uri (hd : a.catalog.Direct) {scheme : String} {what : Registration}
    {segments : List Segment} {there : Standing} (hw : ∀ s ∈ segments, s.Writable)
    (hs : ∀ s ∈ segments, s.IsStep)
    (h : a.walk (a.start scheme what) segments = .ok (.ok there)) :
    stepsTextFrom [] there.cursor.steps = .ok (canonicalText scheme segments) ∧
      there.cursor.isOutside = false ∧ there.cursor.query = .empty :=
  walk_canonical (straight_of_direct hd _ segments) hw hs h

/-- The address of a location that is asked for something plain is its text with a query behind it
that is read as a request for the same. -/
theorem uri_of_asked {c : Cursor} (hin : c.isOutside = false) {text : List Char}
    (ht : stepsTextFrom [] c.steps = .ok text) {q : State} (hplain : q.Plain)
    (hne : q.isEmpty = false) :
    ∃ query r, (c.withQuery q).uri = .ok (String.ofList (text ++ '?' :: query)) ∧ '/' ∉ query ∧
      readRequest query = .ok r ∧ (r.apply .empty).Alike q := by
  obtain ⟨query, r, hqtext, hslash, hempty, hread, halike⟩ := readable_of_plain hplain
  have hq : query ≠ "" := fun h => by
    rw [hempty.mp h] at hne
    exact absurd hne (by decide)
  have hinq : (c.withQuery q).isOutside = false := by rw [Cursor.isOutside_withQuery]; exact hin
  have huri := uri_of_text hinq (by rw [Cursor.steps_withQuery]; exact ht) query
    (by rw [Cursor.query_withQuery hin]; exact hqtext)
  rw [if_neg hq] at huri
  exact ⟨query.toList, r, huri, hslash, hread, halike⟩

/-- A location that is asked for nothing and can be asked by its address for anything plain. -/
structure Askable (a : Atlas) (cursor : Cursor) (node : Node) : Prop where
  /-- The location lies in a document. -/
  inside : cursor.isOutside = false
  /-- Nothing is asked of it. -/
  unasked : cursor.query = .empty
  /-- The address resolves to the location. -/
  bare : ∃ text, cursor.uri = .ok text ∧ a.resolve text = .ok (.ok ⟨cursor, node, true⟩)
  /-- The address with a query resolves to the location, asked for the same. -/
  asked : ∀ q : State, q.Plain → q.isEmpty = false →
    ∃ text again, (cursor.withQuery q).uri = .ok text ∧ again.Alike q ∧
      a.resolve text = .ok (.ok ⟨cursor.withQuery again, node.queryable, true⟩)

/-- A location that an address leads to without a query, and leads to with one, can be asked by its
address. -/
theorem askable_of_walk (hd : a.catalog.Direct) {scheme : String} {what : Registration}
    (hscheme : ReadableScheme scheme) (hwhat : Keyed.get? scheme a.registry.schemes = some what)
    {before : List Segment} {head : String} (hbare : Writable (before ++ [⟨head, none⟩]))
    {mid : Standing}
    (hmid : a.walk (a.start scheme what) (before ++ [⟨head, none⟩]) = .ok (.ok mid))
    (hask : ∀ r, a.walk (a.start scheme what) (before ++ [Address.asked head r]) =
      .ok (.ok ⟨mid.cursor.withQuery (r.apply .empty), mid.node.queryable⟩)) :
    a.Askable mid.cursor mid.node := by
  obtain ⟨htext, hin, hquery⟩ := walk_uri hd hbare.each hbare.steps hmid
  have hbareuri := uri_of_text hin htext "" (by rw [hquery]; rfl)
  rw [if_pos rfl] at hbareuri
  have hbareread := resolve_of_read (a := a) (read_canonicalText hscheme hbare)
  refine ⟨hin, hquery, ⟨_, hbareuri, hbareread.trans (locate_of_walk hwhat hmid)⟩,
    fun q hplain hne => ?_⟩
  obtain ⟨query, r, huri, hslash, hread, halike⟩ := uri_of_asked hin htext hplain hne
  have hopen : Segment.IsOpen ⟨head, none⟩ := .inl rfl
  have hagain := resolve_of_read (a := a)
    (read_canonicalText_asked hscheme hbare hopen hslash hread)
  exact ⟨_, _, huri, halike, hagain.trans (locate_of_walk hwhat (hask r))⟩

/-- The segments of an address can be written without what qualifies the last of them. -/
theorem writable_bare {uri : String} {l : Location} (hread : Address.read uri = .ok (.ok l))
    (hclear : l.Clear) {before : List Segment} {head : String} {qualifier : Option Qualifier}
    (hl : l.segments = before ++ [⟨head, qualifier⟩]) : Writable (before ++ [⟨head, none⟩]) := by
  obtain ⟨hw, hunfolded⟩ := writable_of_clear hread hclear
  rw [hl] at hw hunfolded
  have hlast := hw _ (List.mem_append_right before List.mem_cons_self)
  have hsteps := hclear.last
  rw [hl, List.dropLast_concat] at hsteps
  refine ⟨fun s hs => ?_, fun s hs => ?_, unfolded_concat hunfolded⟩
  · rcases List.mem_append.mp hs with hs | hs
    · exact hw s (List.mem_append_left _ hs)
    · obtain rfl := List.mem_singleton.mp hs
      exact ⟨hlast.nonempty, hlast.unopened, hlast.unasked, fun n hn => absurd hn (by simp),
        fun n hn => absurd hn (by simp)⟩
  · rcases List.mem_append.mp hs with hs | hs
    · exact hsteps s hs
    · obtain rfl := List.mem_singleton.mp hs
      exact fun q hq => absurd hq (by simp)

/-- Where an address leads that ends in a head with a query: to a location that can be asked by its
address, asked for what the query says. -/
theorem exists_askable (hd : a.catalog.Direct) {uri : String} {l : Location}
    (hread : Address.read uri = .ok (.ok l)) (hplain : l.Plain) {before : List Segment}
    {head : String} {qualifier : Option Qualifier} (hl : l.segments = before ++ [⟨head, qualifier⟩])
    {r : Request} {spec : Specifier}
    (h : a.locate ⟨l.scheme, before ++ [asked head r]⟩ = .ok (.ok spec)) :
    ∃ cursor node, a.locate ⟨l.scheme, before ++ [⟨head, none⟩]⟩ = .ok (.ok ⟨cursor, node, true⟩) ∧
      (∀ r', a.locate ⟨l.scheme, before ++ [asked head r']⟩ =
        .ok (.ok ⟨cursor.withQuery (r'.apply .empty), node.queryable, true⟩)) ∧
      a.Askable cursor node := by
  obtain ⟨what, there, hwhat, hwalk, -⟩ := locate_ok h
  obtain ⟨mid, hmid, hin, hquery, hask⟩ := walk_asked hd hwalk
  have hbare := writable_bare hread hplain.toClear hl
  exact ⟨mid.cursor, mid.node, locate_of_walk hwhat hmid,
    fun r' => locate_of_walk hwhat (hask r'),
    askable_of_walk hd (readableScheme_of_read hread) hwhat hbare hmid hask⟩

/-- The node that governs a location is regular. -/
theorem locate_regular (hd : a.catalog.Direct) (hr : a.catalog.Regular) {l : Location}
    {spec : Specifier} (h : a.locate l = .ok (.ok spec)) : spec.node.Regular := by
  obtain ⟨what, there, -, hwalk, rfl⟩ := locate_ok h
  exact walk_everywhere hr.everywhere (straight_of_direct hd _ _) (hr _) hwalk

/-- The state that a request on an address asks for is plain. -/
theorem plain_of_read {uri : String} {l : Location} (hread : Address.read uri = .ok (.ok l))
    (hplain : l.Plain) {before : List Segment} {head : String} {r : Request}
    (hl : l.segments = before ++ [asked head r]) : (r.apply .empty).Plain := by
  obtain ⟨-, -, hlexed, -⟩ := parts_of_read hread
  have hmem : asked head r ∈ l.segments := by
    rw [hl]
    exact List.mem_append_right before List.mem_cons_self
  exact (hplain.requests _ hmem r rfl).state ((hlexed _ hmem).query r rfl)

/-- The nodes of folders inside folders, whose members are selected by given methods. -/
def folderNodes (accessors : Keyed Method) : List Node := [
  Node.gathering [("folders", 1)],
  { Node.plain .collection .members with
    item := some (.node 2)
    methods := accessors ++ Node.queryMethods },
  (Node.gathering [("name", 3), ("folders", 1)]).withMethod "move" (.move none),
  Node.leaf (some .text)]

/-- Folders inside folders under a scheme, whose members are selected by given methods. -/
def folders (accessors : Keyed Method) : Atlas where
  catalog := ⟨(folderNodes accessors).toArray⟩
  registry := ⟨[("s", ⟨0, 0⟩)], false⟩

/-- Folders are reached by no computed way. -/
theorem folders_direct (accessors : Keyed Method) : (folders accessors).catalog.Direct :=
  Catalog.forall_node (p := fun n => n.landing = none) rfl (by
    intro n hn
    simp only [folderNodes, List.mem_cons, List.not_mem_nil, or_false] at hn
    rcases hn with rfl | rfl | rfl | rfl <;> rfl)

/-- The nodes of folders are regular. -/
theorem folders_regular (accessors : Keyed Method) : (folders accessors).catalog.Regular :=
  Catalog.forall_node Node.regular_passthrough (by
    intro n hn
    simp only [folderNodes, List.mem_cons, List.not_mem_nil, or_false] at hn
    rcases hn with rfl | rfl | rfl | rfl
    · exact ⟨fun h => (nomatch h), fun h => (nomatch h), fun h => (nomatch h)⟩
    · exact ⟨fun _ => rfl, fun h => (nomatch h), fun h => (nomatch h)⟩
    · exact ⟨fun h => (nomatch h), fun h => (nomatch h), fun h => (nomatch h)⟩
    · exact ⟨fun h => (nomatch h), fun h => (nomatch h), fun h => (nomatch h)⟩)

/-- A folder of a name with folders in it. -/
def folder (name : String) (inner : List Value) : Value :=
  .mapping [("name", .text name), ("folders", .list inner)]

/-- A store with folders. -/
def folderStore (all : List Value) : Store :=
  ⟨#[.mapping [("folders", .list all)]]⟩

/-- Folders that are selected by position. -/
def indexedFolders : Atlas :=
  folders [("by_index", .byIndex (.node 2))]

/-- All ways to select a folder. -/
def folderAccessors : Keyed Method :=
  [("by_index", .byIndex (.node 2)), ("by_name", .byName (.node 2)), ("by_id", .byId (.node 2))]

/-- The kind of the location that was found. -/
def foundKind (found : Outcome (Verdict Specifier)) : Outcome (Verdict Kind) :=
  found.map fun verdict => verdict.map fun spec => spec.node.kind

/-- What has a kind was found. -/
theorem exists_of_foundKind {found : Outcome (Verdict Specifier)} {kind : Kind}
    (h : foundKind found = .ok (.ok kind)) :
    ∃ spec, found = .ok (.ok spec) ∧ spec.node.kind = kind := by
  match found, h with
  | .ok (.ok spec), h => exact ⟨spec, rfl, Except.ok.inj (Except.ok.inj h)⟩

end Atlas

end ResourceAtlas

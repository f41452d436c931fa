import ResourceAtlas.Proofs.Resource.Pages
import ResourceAtlas.Proofs.Store.Reading

/-!
# Which collections are visited whole

Following the pages of a collection visits all that it lists exactly if the first page holds it or a
query behind the address leads back to the collection. Behind the root of a scheme, behind a position
and behind a namespace it does not.
-/

namespace ResourceAtlas

open Address Number Query Resource Schema

/-- An address takes a query behind it: it ends in a head, with or without a query of its own, and
still leads somewhere when that head is asked. -/
def Atlas.TakesQuery (a : Atlas) (l : Location) : Prop :=
  ∃ before head qualifier, l.segments = before ++ [⟨head, qualifier⟩] ∧
    (qualifier = none ∨ ∃ r, qualifier = some (.query r)) ∧
    ∃ spec, a.locate ⟨l.scheme, before ++ [asked head .empty]⟩ = .ok (.ok spec)

/-- A head leads from a sequence to no other sequence, unless it enters a namespace. -/
theorem Atlas.HeadMove.not_sequence {a : Atlas} (hr : a.catalog.Regular) {here there : Standing}
    {head : String} (h : a.HeadMove here head there) (hns : ¬ a.EntersNamespace here head)
    {s : Store} {around v : Value} {items : List Value} (haround : here.cursor.raw s = .ok around)
    (hitems : around.sequence? = some items) (hv : there.cursor.raw s = .ok v) :
    v.sequence? = none := by
  obtain ⟨selector, step, hc, hselector⟩ := h.selects hr hns
  rw [hc] at hv
  rcases hselector with ⟨key, rfl⟩ | hsought
  · exact Cursor.not_sequence_of_property haround hitems hv
  · exact Cursor.not_sequence_of_sought hsought hv

namespace Resource

variable {a : Atlas} {s : Store} {limits : Limits} {spec : Specifier} {uri : String} {l : Location}
  {selected : List (Value × Nat)} {refs : List Value} {size : Nat} {v : Value}

/-- Where an address takes a query, following the pages visits all that is listed. -/
theorem pages_of_takesQuery (hd : a.catalog.Direct) (hr : a.catalog.Regular)
    (hs : 1 ≤ limits.standard) (hg : 1 ≤ limits.greatest)
    (hread : Address.read uri = .ok (.ok l)) (hplain : l.Plain)
    (hresolve : a.resolve uri = .ok (.ok spec)) (hreadable : Readable spec)
    (hstate : spec.cursor.query.Plain) (htakes : a.TakesQuery l)
    (hfirst : read a s limits uri = .ok ⟨uri, .ok v⟩)
    (hlisted : Listed s spec.cursor (windowedState spec none) selected refs)
    (hfills : Fills a.catalog spec.node spec.cursor.query.expand)
    (hshows : Shows spec refs 0 size v) (hlt : size < refs.length) :
    ∃ items, Pages a s limits uri items ∧ uris items = uris refs := by
  obtain ⟨before, head, qualifier, hl, hqualifier, spec₀, hspec₀⟩ := htakes
  obtain ⟨c, node, hbare, hasked, hask⟩ := Atlas.exists_askable hd hread hplain hl hspec₀
  have hnode := Atlas.locate_regular hd hr hbare
  have hlocate : a.locate ⟨l.scheme, before ++ [⟨head, qualifier⟩]⟩ = .ok (.ok spec) := by
    rw [← hl, ← Atlas.resolve_of_read hread]
    exact hresolve
  -- With or without a query of its own, the address leads to the location that can be asked.
  have hspec : ∃ t node', spec = ⟨c.withQuery t, node', true⟩ ∧
      node'.item = node.queryable.item := by
    rcases hqualifier with rfl | ⟨r, rfl⟩
    · obtain rfl := Except.ok.inj (Except.ok.inj (hbare.symm.trans hlocate))
      refine ⟨.empty, node, ?_, (Node.item_queryable node).symm⟩
      rw [← hask.unasked, Cursor.withQuery_self]
    · exact ⟨r.apply .empty, node.queryable,
        Except.ok.inj (Except.ok.inj (hlocate.symm.trans (hasked r))), rfl⟩
  obtain ⟨t, node', rfl, hitem⟩ := hspec
  have hquery := Cursor.query_withQuery hask.inside t
  obtain ⟨next, hnext, hnextv⟩ := hshows.next (by omega)
  rw [windowedState_withQuery hask.inside, Cursor.withQuery_withQuery] at hnext
  rw [windowedState_withQuery hask.inside] at hlisted
  dsimp only at hstate hfills
  rw [hquery] at hstate hfills
  have huri := hreadable.unhidden
  dsimp only at huri
  rw [hquery] at huri
  obtain ⟨items, hpages, huris⟩ := pages_from hs hg hask hnode hstate huri
    (hlisted.near (Cursor.near_withQuery c t).symm) (fills_congr hitem hfills) (by omega) hlt hnext
  refine ⟨_, .more hfirst hnextv hpages, ?_⟩
  rw [uris_append, hshows.uris_eq, huris, ← uris_append, Nat.zero_add, List.drop_zero,
    List.take_append_drop]

/-- Pages begin with a read. -/
theorem Pages.read_ok {items : List Value} (h : Pages a s limits uri items) :
    ∃ v, read a s limits uri = .ok ⟨uri, .ok v⟩ ∧ ((nextAddress? v = none ∧ items = shownMembers v) ∨
      ∃ next more, nextAddress? v = some next ∧ Pages a s limits next more ∧
        items = shownMembers v ++ more) := by
  cases h with
  | last hread hnext => exact ⟨_, hread, .inl ⟨hnext, rfl⟩⟩
  | more hread hnext hrest => exact ⟨_, hread, .inr ⟨_, _, hnext, hrest, rfl⟩⟩

/-- What the first page does not show of all that the pages do is shown from the next page on. -/
theorem Pages.rest {items : List Value} (hpages : Pages a s limits uri items)
    (hfirst : read a s limits uri = .ok ⟨uri, .ok v⟩) {next : String}
    (hnext : nextAddress? v = some next) (hshows : Shows spec refs 0 size v)
    (huris : uris items = uris refs) :
    ∃ more, Pages a s limits next more ∧ uris more = uris (refs.drop size) := by
  obtain ⟨v', hread, hitems⟩ := hpages.read_ok
  obtain rfl := Except.ok.inj (congrArg Report.result (Except.ok.inj (hfirst.symm.trans hread)))
  rcases hitems with ⟨hnone, -⟩ | ⟨_, more, hsome, hmore, rfl⟩
  · rw [hnext] at hnone
    exact (nomatch hnone)
  · obtain rfl := Option.some.inj (hnext.symm.trans hsome)
    refine ⟨more, hmore, ?_⟩
    rw [uris_append, hshows.uris_eq, List.drop_zero] at huris
    refine List.append_cancel_left (huris.trans ?_)
    rw [← uris_append, List.take_append_drop]

/-- What the pages name first is among what the first page shows a part of. -/
theorem Pages.head_mem {items : List Value} (hpages : Pages a s limits uri items)
    (hfirst : read a s limits uri = .ok ⟨uri, .ok v⟩) {offset : Nat}
    (hshows : Shows spec refs offset size v) (hsize : 1 ≤ size) {x : Value} {xs : List Value}
    (huris : uris items = x :: xs) : x ∈ uris refs := by
  obtain ⟨v', hread, hitems⟩ := hpages.read_ok
  obtain rfl := Except.ok.inj (congrArg Report.result (Except.ok.inj (hfirst.symm.trans hread)))
  cases hshown : shownMembers v with
  | nil =>
    -- A page that shows nothing is the last one.
    have hle : refs.length ≤ offset := by
      have hlength := congrArg List.length hshows.uris_eq
      simp only [hshown, uris, List.length_map, List.length_nil, List.length_take,
        List.length_drop] at hlength
      omega
    rcases hitems with ⟨-, rfl⟩ | ⟨next, more, hsome, -, -⟩
    · rw [hshown] at huris
      exact (nomatch huris)
    · rw [hshows.last (by omega)] at hsome
      exact (nomatch hsome)
  | cons w ws =>
    have hx : w.member "uri" = x := by
      rcases hitems with ⟨-, rfl⟩ | ⟨next, more, -, -, rfl⟩ <;>
        · rw [hshown] at huris
          exact (List.cons.inj huris).1
    have hpage : x ∈ uris ((refs.drop offset).take size) := by
      rw [← hshows.uris_eq, hshown, ← hx]
      exact List.mem_cons_self
    rw [uris, List.map_take, List.map_drop] at hpage
    exact List.mem_of_mem_drop (List.mem_of_mem_take hpage)

/-- What is read resolves. -/
theorem resolve_of_read_ok (h : read a s limits uri = .ok ⟨uri, .ok v⟩) :
    ∃ spec, a.resolve uri = .ok (.ok spec) := by
  obtain ⟨verdict, hverdict, h⟩ := bind_eq_ok.mp h
  cases verdict with
  | error problem => exact absurd (congrArg Report.result (Except.ok.inj h)) (by simp)
  | ok spec => exact ⟨spec, hverdict⟩

/-- A page that a query behind a head asks for shows what the head leads to, which is no
namespace. -/
theorem page_behind (hd : a.catalog.Direct) (hr : a.catalog.Regular) (hs : 1 ≤ limits.standard)
    (hg : 1 ≤ limits.greatest) {scheme : String} {before : List Segment} {head : String}
    {r : Request} {next : String} {offset wanted : Nat}
    (hnext : a.resolve next = a.locate ⟨scheme, before ++ [asked head r]⟩)
    (halike : (r.apply .empty).Alike (paged .empty offset wanted))
    (hread : read a s limits next = .ok ⟨next, .ok v⟩) :
    ∃ what stop mid, Keyed.get? scheme a.registry.schemes = some what ∧
      a.walk (a.start scheme what) before = .ok (.ok stop) ∧ a.HeadMove stop head mid ∧
      ¬ a.EntersNamespace stop head ∧ ∃ spec t selected refs size, 1 ≤ size ∧
        Listed s mid.cursor t selected refs ∧ Shows spec refs offset size v := by
  obtain ⟨spec, hspec⟩ := resolve_of_read_ok hread
  obtain ⟨what, there, hwhat, hwalk, rfl⟩ := Atlas.locate_ok (hnext.symm.trans hspec)
  obtain ⟨stop, hstop, hlast⟩ := Atlas.walk_concat_ok hwalk
  obtain ⟨-, hmove, hns⟩ := Atlas.moveBy_ok hd hlast
  unfold asked at hmove
  cases hmove with
  | query hm =>
    rename_i mid
    have hin := hm.inside
    have hexpand : (r.apply .empty).expand = [] := halike.expand
    obtain ⟨size, hsize, hstretch⟩ := exists_stretch hs hg (some wanted) (some offset)
    rw [Option.getD_some] at hstretch
    have hwindow : (r.apply .empty).window = some (.ofCounts (some wanted) (some offset)) :=
      halike.window
    dsimp only at hspec
    rw [hm.query_eq] at hspec
    have hwide : stretchOf limits (mid.cursor.withQuery (r.apply .empty)).query.window =
        .ofCounts offset size := by
      rw [Cursor.query_withQuery hin, hwindow]
      exact hstretch
    obtain ⟨selected, refs, hlisted, -, hshows⟩ := page_of_read
      (readable_queryable hin (hm.everywhere hr.everywhere) (hexpand ▸ List.not_mem_nil)) hspec hwide hread
    exact ⟨what, stop, mid, hwhat, hstop, hm, hns rfl, _, _, selected, refs, size, hsize,
      hlisted.near (Cursor.near_withQuery _ _).symm, hshows⟩

/-- Where something is listed there is a sequence. -/
theorem exists_sequence {c : Cursor} {t : State} (h : Listed s c t selected refs) :
    ∃ data items, c.raw s = .ok data ∧ data.sequence? = some items := by
  obtain ⟨data, items, hdata, hitems, -⟩ := h.selects
  exact ⟨data, items, hdata, sequence?_of_membersOf hitems⟩

/-- Behind the root of a scheme no page is read. -/
theorem not_read_behind_root (hd : a.catalog.Direct) (hr : a.catalog.Regular)
    (hs : 1 ≤ limits.standard) (hg : 1 ≤ limits.greatest) {scheme : String} {what : Registration}
    (hwhat : Keyed.get? scheme a.registry.schemes = some what) {t : State}
    (hlisted : Listed s (a.start scheme what).cursor t selected refs) {r : Request} {next : String}
    {offset wanted : Nat} (hnext : a.resolve next = a.locate ⟨scheme, [asked "" r]⟩)
    (halike : (r.apply .empty).Alike (paged .empty offset wanted)) :
    read a s limits next ≠ .ok ⟨next, .ok v⟩ := by
  intro hread
  obtain ⟨what', stop, mid, hwhat', hstop, hm, hns, _, _, _, _, _, -, hbehind, -⟩ :=
    @page_behind _ _ _ _ hd hr hs hg scheme [] _ _ _ _ _ hnext halike hread
  obtain rfl := Option.some.inj (hwhat.symm.trans hwhat')
  obtain rfl := Except.ok.inj (Except.ok.inj hstop)
  obtain ⟨around, items, haround, hitems⟩ := exists_sequence hlisted
  obtain ⟨data, members, hdata, hmembers⟩ := exists_sequence hbehind
  rw [hm.not_sequence hr hns haround hitems hdata] at hmembers
  exact (nomatch hmembers)

/-- Behind a position the next page shows other members, if it shows any: those of the collection
around. -/
theorem not_rest_behind_index (hd : a.catalog.Direct) (hr : a.catalog.Regular)
    (hs : 1 ≤ limits.standard) (hg : 1 ≤ limits.greatest) {scheme : String}
    {before : List Segment} {head : String} (hbare : Writable (before ++ [⟨head, none⟩])) {n : Int}
    {c : Cursor} {t : State}
    (htext : stepsTextFrom [] c.steps =
      .ok (canonicalText scheme (before ++ [⟨head, some (.index n)⟩])))
    (hlisted : Listed s c t selected refs) {r : Request} {next : String} {offset wanted : Nat}
    (hnext : a.resolve next = a.locate ⟨scheme, before ++ [asked head r]⟩)
    (halike : (r.apply .empty).Alike (paged .empty offset wanted)) (hlt : offset < refs.length)
    {items : List Value} (hpages : Pages a s limits next items) :
    uris items ≠ uris (refs.drop offset) := by
  intro huris
  obtain ⟨v, hread, -⟩ := hpages.read_ok
  obtain ⟨what, stop, mid, -, hstop, hm, -, spec, t', selected', refs', size, hsize, hbehind,
    hshows⟩ := page_behind hd hr hs hg hnext halike hread
  obtain ⟨x, xs, hrest⟩ := List.exists_cons_of_ne_nil
    (l := uris (refs.drop offset)) (by simp [uris]; omega)
  -- The first member has a position in the collection around and one in the collection itself.
  have hmem : x ∈ uris refs :=
    List.mem_of_mem_drop (i := offset) (by
      rw [uris, ← List.map_drop, ← uris, hrest]
      exact List.mem_cons_self)
  have hmem' : x ∈ uris refs' := hpages.head_mem hread hshows hsize (huris.trans hrest)
  have hwalk : a.walk (a.start scheme what) (before ++ [⟨head, none⟩]) = .ok (.ok mid) := by
    rw [Atlas.walk_concat hstop]
    have hinside := Atlas.walk_inside (Atlas.straight_of_direct hd _ before) rfl hstop
    exact Atlas.moveBy_of_move hd hinside (.bare hm)
      fun hsome => absurd hsome Bool.false_ne_true
  obtain ⟨i, hi, rfl⟩ :=
    mem_uris (Atlas.walk_uri hd hbare.each hbare.steps hwalk).1 hbehind.refers hmem'
  obtain ⟨j, -, heq⟩ := mem_uris htext hlisted.refers hmem
  have hchars := congrArg String.toList (Value.text.inj heq)
  rw [String.toList_ofList, String.toList_ofList, canonicalText_index, List.append_assoc] at hchars
  exact indexText_ne_append hi _ _ (List.append_cancel_left hchars)

/-- An address of heads and positions takes a query if what it lists goes on behind it with a query. What
the query leads to depends on the last segment. -/
theorem takesQuery_of_rest (hd : a.catalog.Direct) (hr : a.catalog.Regular)
    (hs : 1 ≤ limits.standard) (hg : 1 ≤ limits.greatest) {scheme : String}
    {segments : List Segment} (hread : Address.read uri = .ok (.ok ⟨scheme, segments⟩))
    (hplain : Location.Plain ⟨scheme, segments⟩) (hsteps : ∀ s ∈ segments, s.IsStep)
    {what : Registration} (hwhat : Keyed.get? scheme a.registry.schemes = some what)
    {there : Atlas.Standing} (hwalk : a.walk (a.start scheme what) segments = .ok (.ok there)) {t : State}
    (hlisted : Listed s there.cursor t selected refs) {query : List Char} {r : Request}
    (hslash : '/' ∉ query) (hrequest : readRequest query = .ok r) {offset wanted : Nat}
    (halike : (r.apply .empty).Alike (paged .empty offset wanted)) (hlt : offset < refs.length)
    {more : List Value} (hmore : Pages a s limits
      (String.ofList (canonicalText scheme segments ++ '?' :: query)) more)
    (hrest : uris more = uris (refs.drop offset)) : a.TakesQuery ⟨scheme, segments⟩ := by
  have hscheme := Atlas.readableScheme_of_read hread
  obtain ⟨hw, hunfolded⟩ := Atlas.writable_of_clear hread hplain.toClear
  obtain ⟨htext, -, -⟩ := Atlas.walk_uri hd hw hsteps hwalk
  obtain ⟨v, hmoreread, -⟩ := hmore.read_ok
  dsimp only at hw hunfolded
  cases segments using List.reverseRecOn with
  | nil =>
    obtain rfl := Except.ok.inj (Except.ok.inj hwalk)
    exact absurd hmoreread (not_read_behind_root hd hr hs hg hwhat hlisted
      (Atlas.resolve_of_read (read_root_asked hscheme hslash hrequest)) halike)
  | append_singleton before segment =>
    obtain ⟨head, qualifier⟩ := segment
    have hresolved : ∀ ho : Segment.IsOpen ⟨head, qualifier⟩, a.resolve (String.ofList
        (canonicalText scheme (before ++ [⟨head, qualifier⟩]) ++ '?' :: query)) =
          a.locate ⟨scheme, before ++ [asked head r]⟩ := fun ho =>
      Atlas.resolve_of_read (read_canonicalText_asked hscheme ⟨hw, hsteps, hunfolded⟩ ho hslash
        hrequest)
    cases qualifier with
    | none =>
      obtain ⟨again, hagain⟩ := resolve_of_read_ok hmoreread
      obtain ⟨c, node, -, hasked, -⟩ := Atlas.exists_askable hd hread hplain rfl
        ((hresolved (.inl rfl)).symm.trans hagain)
      exact ⟨before, head, none, rfl, .inl rfl, _, hasked .empty⟩
    | some qualifier =>
      cases qualifier with
      | index n =>
        have hbare := Atlas.writable_bare hread hplain.toClear rfl
        exact absurd hrest (not_rest_behind_index hd hr hs hg hbare htext hlisted
          (hresolved (.inr ⟨n, rfl⟩)) halike hlt hmore)
      | id n =>
        obtain ⟨stop, -, hlast⟩ := Atlas.walk_concat_ok hwalk
        obtain ⟨-, hmove, -⟩ := Atlas.moveBy_ok hd hlast
        obtain ⟨data, members, hdata, hmembers⟩ := exists_sequence hlisted
        cases hmove with
        | id =>
          rw [Cursor.not_sequence_of_sought (.inr ⟨_, rfl⟩) hdata] at hmembers
          exact (nomatch hmembers)
      | query request =>
        exact absurd rfl (hsteps _ (List.mem_append_right before List.mem_cons_self) request)

/-- Where following the pages visits all that is listed and the first page does not hold it, the
address takes a query. -/
theorem takesQuery_of_pages (hd : a.catalog.Direct) (hr : a.catalog.Regular)
    (hs : 1 ≤ limits.standard) (hg : 1 ≤ limits.greatest)
    (hread : Address.read uri = .ok (.ok l)) (hplain : l.Plain)
    (hresolve : a.resolve uri = .ok (.ok spec))
    (hlisted : Listed s spec.cursor (windowedState spec none) selected refs)
    (hshows : Shows spec refs 0 size v) (hfirst : read a s limits uri = .ok ⟨uri, .ok v⟩)
    (hlt : size < refs.length) {items : List Value} (hpages : Pages a s limits uri items)
    (huris : uris items = uris refs) : a.TakesQuery l := by
  rw [Atlas.resolve_of_read hread] at hresolve
  by_cases hsteps : ∀ s ∈ l.segments, s.IsStep
  · obtain ⟨hw, -⟩ := Atlas.writable_of_clear hread hplain.toClear
    obtain ⟨what, there, hwhat, hwalk, rfl⟩ := Atlas.locate_ok hresolve
    obtain ⟨htext, hin, hquery⟩ := Atlas.walk_uri hd hw hsteps hwalk
    -- The next page is asked for by a query behind the text of the segments.
    obtain ⟨next, hnext, hnextv⟩ := hshows.next (by omega)
    have hwritten := writableCount_of_lt (n := size)
      (by have hlength := hlisted.length_le htext; omega)
    obtain ⟨query, r, hqueryuri, hslash, hrequest, halike⟩ := Atlas.uri_of_asked hin htext
      (State.plain_empty.withWindow hwritten hwritten) rfl
    dsimp only [windowedState] at hnext
    rw [hquery, Nat.zero_add, hqueryuri] at hnext
    obtain rfl := Except.ok.inj hnext
    obtain ⟨more, hmore, hrest⟩ := hpages.rest hfirst hnextv hshows huris
    exact takesQuery_of_rest hd hr hs hg hread hplain hsteps hwhat hwalk hlisted hslash hrequest halike
      hlt hmore hrest
  · obtain ⟨before, head, r, hl, -⟩ := Atlas.exists_asked hplain.last hsteps
    have hlocate : a.locate ⟨l.scheme, before ++ [asked head r]⟩ = .ok (.ok spec) := hl ▸ hresolve
    obtain ⟨c, node, -, hasked, -⟩ := Atlas.exists_askable hd hread hplain hl hlocate
    exact ⟨before, head, _, hl, .inr ⟨r, rfl⟩, _, hasked .empty⟩

/-- Whether a read brings a page that names a next one. -/
def leadsOn (uri : String) (result : Outcome Report) : Bool :=
  match result with
  | .ok ⟨there, .ok v⟩ => there = uri && (nextAddress? v).isSome
  | _ => false

/-- What leads on is a page that was read. -/
theorem exists_of_leadsOn {result : Outcome Report} (h : leadsOn uri result = true) :
    ∃ v, result = .ok ⟨uri, .ok v⟩ ∧ (nextAddress? v).isSome := by
  match result, h with
  | .ok ⟨there, .ok v⟩, h =>
    obtain ⟨hthere, hsome⟩ := Bool.and_eq_true _ _ ▸ h
    exact ⟨v, by rw [of_decide_eq_true hthere], hsome⟩

/-- Three folders under the root. -/
def threeFolders : Store :=
  Atlas.folderStore [Atlas.folder "A" [], Atlas.folder "B" [], Atlas.folder "C" []]

/-- The folders under the root. -/
def allFolders : Specifier :=
  ⟨(Cursor.atRoot 0 "s").property "folders", Atlas.indexedFolders.catalog.node 1, true⟩

/-- The nodes of shelves that hold books: collections in a collection. -/
def shelfNodes : List Node := [
  Node.gathering [("shelves", 1)],
  { Node.plain .collection .members with
    item := some (.node 2)
    methods := [("by_index", .byIndex (.node 2))] ++ Node.queryMethods },
  { Node.plain .collection .members with
    item := some (.node 3)
    methods := [("by_index", .byIndex (.node 3))] ++ Node.queryMethods },
  Node.gathering [("name", 4)],
  Node.leaf (some .text)]

/-- Shelves that hold books, under a scheme. -/
def shelves : Atlas where
  catalog := ⟨shelfNodes.toArray⟩
  registry := ⟨[("s", ⟨0, 0⟩)], false⟩

/-- A book of a name. -/
def book (name : String) : Value :=
  .mapping [("name", .text name)]

/-- Two shelves, with three books and with one. -/
def twoShelves : Store :=
  ⟨#[.mapping [("shelves", .list [.list [book "A", book "B", book "C"], .list [book "D"]])]]⟩

/-- The first shelf. -/
def firstShelf : Specifier :=
  ⟨((Cursor.atRoot 0 "s").property "shelves").atIndex (.int 0), shelves.catalog.node 2, true⟩

/-- Shelves are reached by no computed way. -/
theorem shelves_direct : shelves.catalog.Direct :=
  Catalog.forall_node (p := fun n => n.landing = none) rfl (by
    intro n hn
    simp only [shelfNodes, List.mem_cons, List.not_mem_nil, or_false] at hn
    rcases hn with rfl | rfl | rfl | rfl | rfl <;> rfl)

/-- The nodes of shelves are regular. -/
theorem shelves_regular : shelves.catalog.Regular :=
  Catalog.forall_node Node.regular_passthrough (by
    intro n hn
    simp only [shelfNodes, List.mem_cons, List.not_mem_nil, or_false] at hn
    rcases hn with rfl | rfl | rfl | rfl | rfl
    · exact ⟨fun h => (nomatch h), fun h => (nomatch h), fun h => (nomatch h)⟩
    · exact ⟨fun _ => rfl, fun h => (nomatch h), fun h => (nomatch h)⟩
    · exact ⟨fun _ => rfl, fun h => (nomatch h), fun h => (nomatch h)⟩
    · exact ⟨fun h => (nomatch h), fun h => (nomatch h), fun h => (nomatch h)⟩
    · exact ⟨fun h => (nomatch h), fun h => (nomatch h), fun h => (nomatch h)⟩)

end Resource

end ResourceAtlas

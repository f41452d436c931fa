import ResourceAtlas.Proofs.Registry.Canonical
import ResourceAtlas.Proofs.Resource.Page

/-!
# Following the pages of a collection

A page names the next one by its canonical address with a query behind it. Where such an address leads
back to the collection, following it visits every member that is listed once, in order, and ends. It
leads elsewhere behind the root of a scheme and behind a position.
-/

namespace ResourceAtlas.Resource

open Address Number Query Schema

/-- Reading an address, and then the next page as long as one is named, shows members. -/
inductive Pages (a : Atlas) (s : Store) (limits : Limits) : String → List Value → Prop
  /-- The page names no next one. -/
  | last {uri : String} {v : Value} (hread : read a s limits uri = .ok ⟨uri, .ok v⟩)
      (hnext : nextAddress? v = none) : Pages a s limits uri (shownMembers v)
  /-- The page names a next one. -/
  | more {uri next : String} {v : Value} {items : List Value}
      (hread : read a s limits uri = .ok ⟨uri, .ok v⟩) (hnext : nextAddress? v = some next)
      (hrest : Pages a s limits next items) : Pages a s limits uri (shownMembers v ++ items)

variable {a : Atlas} {s : Store} {limits : Limits}

/-- The addresses that two lists of references name one after the other. -/
theorem uris_append (xs ys : List Value) : uris (xs ++ ys) = uris xs ++ uris ys :=
  List.map_append

/-- A window of counts asks for a page that begins where it says and has room for a member. -/
theorem exists_stretch (hs : 1 ≤ limits.standard) (hg : 1 ≤ limits.greatest)
    (limit offset : Option Nat) :
    ∃ size, 1 ≤ size ∧ stretchOf limits (some (.ofCounts limit offset)) =
      .ofCounts (offset.getD 0) size := by
  have hle := one_le_pageSize hs hg limit
  refine ⟨(pageSize limits limit).toNat, by omega, ?_⟩
  rw [stretchOf_ofCounts, Stretch.ofCounts, Int.toNat_of_nonneg (by omega)]

/-- No offset, or one of zero, is asked for. -/
def Unshifted (q : State) : Prop :=
  ∀ w, q.window = some w → ∀ b, w.offset = some b → b.isNonzero = false

/-- Without an offset the first page is asked for. -/
theorem exists_first (hs : 1 ≤ limits.standard) (hg : 1 ≤ limits.greatest) {q : State}
    (hq : q.Plain) (hoffset : Unshifted q) :
    ∃ size, 1 ≤ size ∧ stretchOf limits q.window = .ofCounts 0 size := by
  cases hw : q.window with
  | none =>
    refine ⟨limits.standard.toNat, by omega, ?_⟩
    rw [stretchOf_none, Stretch.ofCounts, Int.toNat_of_nonneg (by omega)]
    rfl
  | some w =>
    obtain ⟨limit, offset, rfl, -, -, -⟩ := hq.window w hw
    obtain ⟨size, hsize, hstretch⟩ := exists_stretch hs hg limit offset
    have hzero : offset.getD 0 = 0 := by
      cases offset with
      | none => rfl
      | some n =>
        have h := hoffset _ hw (.whole n) rfl
        cases n with
        | zero => rfl
        | succ n => exact absurd h (by simp [Bound.isNonzero, Bound.value, Value.isTruthy]; omega)
    rw [hzero] at hstretch
    exact ⟨size, hsize, hstretch⟩

/-- Counts up to as many as can be written are written. -/
theorem writableCount_of_lt {n : Nat} (h : n < 10 ^ Numeral.maxDigits) : WritableCount n :=
  (Numeral.intText?_isSome_iff n).mpr (by rw [Int.natAbs_natCast]; exact h)

/-- The text of a location that has an address. -/
theorem text_of_uri {c : Cursor} (hin : c.isOutside = false) {uri : String}
    (h : c.uri = .ok uri) : ∃ base, stepsTextFrom [] c.steps = .ok base := by
  rw [Cursor.uri_inside hin] at h
  obtain ⟨text, htext, -⟩ := bind_eq_ok.mp h
  obtain ⟨base, hbase, -⟩ := map_eq_ok.mp htext
  exact ⟨base, hbase⟩

section Chain

variable {c : Cursor} {node : Node} {q : State} {selected : List (Value × Nat)} {refs : List Value}

/-- A state under a window of counts. -/
abbrev paged (q : State) (offset size : Nat) : State :=
  q.withWindow (some (.ofCounts (some size) (some offset)))

/-- A location that is asked for what is alike has one address. -/
theorem uri_alike (hin : c.isOutside = false) {t t' : State} (h : t.Alike t') :
    (c.withQuery t).uri = (c.withQuery t').uri :=
  (Cursor.near_withQuery_withQuery c t t').uri_eq (by
    rw [Cursor.query_withQuery hin, Cursor.query_withQuery hin, h.text_eq])

/-- A location with a query is asked for that query under another window. -/
theorem windowedState_withQuery (hin : c.isOutside = false) (t : State) (node : Node)
    (w : Option Window) :
    windowedState ⟨c.withQuery t, node, true⟩ w = t.withWindow w :=
  congrArg (State.withWindow · w) (Cursor.query_withQuery hin t)

/-- A query asked of a location is read by the form of its node that honours queries. -/
theorem readable_queryable (hin : c.isOutside = false) (hnode : node.Regular) {t : State}
    (huri : .text "uri" ∉ t.expand) : Readable ⟨c.withQuery t, node.queryable, true⟩ where
  inside := (Cursor.isOutside_withQuery c t).trans hin
  collection := by
    dsimp only
    rw [Node.kind_queryable]
    rfl
  shows := .inl (Node.resolution_queryable hnode)
  unhidden := by
    dsimp only
    rw [Cursor.query_withQuery hin]
    exact huri

section Paged

variable (hs : 1 ≤ limits.standard) (hg : 1 ≤ limits.greatest) (hask : a.Askable c node)
  (hnode : node.Regular) (hplain : q.Plain) (huri : .text "uri" ∉ q.expand)
  (hlisted : Listed s c (q.withWindow none) selected refs)
  (hfills : Fills a.catalog node.queryable q.expand)

include hask hplain hlisted in
/-- Offsets and sizes below the length of what is listed can be asked for. -/
theorem plain_paged {offset size : Nat} (hoffset : offset < refs.length)
    (hsize : size < refs.length) : (paged q offset size).Plain := by
  obtain ⟨bare, hbare, -⟩ := hask.bare
  obtain ⟨base, hbase⟩ := text_of_uri hask.inside hbare
  have hlength := hlisted.length_le hbase
  exact hplain.withWindow (writableCount_of_lt (by omega)) (writableCount_of_lt (by omega))

/-- A page asks for something. -/
theorem isEmpty_paged (q : State) (offset size : Nat) : (paged q offset size).isEmpty = false := by
  simp [paged, State.isEmpty, State.withWindow]

include hs hg hask hnode hplain huri hlisted hfills

/-- A page is read and shows what is listed from its offset on. It names the next one exactly if it
does not reach the end. -/
theorem exists_page {offset size : Nat} (hoffset : offset < refs.length)
    (hsize : size < refs.length) {text : String}
    (htext : (c.withQuery (paged q offset size)).uri = .ok text) :
    ∃ n v, 1 ≤ n ∧ read a s limits text = .ok ⟨text, .ok v⟩ ∧
      uris (shownMembers v) = uris ((refs.drop offset).take n) ∧
      (offset + n < refs.length → ∃ next,
        (c.withQuery (paged q (offset + n) n)).uri = .ok next ∧ nextAddress? v = some next) ∧
      (refs.length ≤ offset + n → nextAddress? v = none) := by
  have hin := hask.inside
  -- The address resolves to the location, asked for the same.
  obtain ⟨text', again, htext', halike, hresolve⟩ :=
    hask.asked _ (plain_paged hask hplain hlisted hoffset hsize) (isEmpty_paged q offset size)
  obtain rfl := Except.ok.inj (htext.symm.trans htext')
  obtain ⟨n, hn, hstretch⟩ := exists_stretch hs hg (some size) (some offset)
  rw [Option.getD_some] at hstretch
  have hwindow : again.window = some (.ofCounts (some size) (some offset)) := halike.window
  have hexpand : again.expand = q.expand := halike.expand
  -- So its page is read, and the next one is asked for at the same location.
  have hnext : offset + n < refs.length → ∃ next,
      (c.withQuery (paged q (offset + n) n)).uri = .ok next := by
    intro hlt
    obtain ⟨next, -, hnext, -⟩ := hask.asked _
      (plain_paged hask hplain hlisted hlt (by omega)) (isEmpty_paged q (offset + n) n)
    exact ⟨next, hnext⟩
  have hsame : ∀ w, ((c.withQuery again).withQuery
      (windowedState ⟨c.withQuery again, node.queryable, true⟩ (some w))).uri =
        (c.withQuery (q.withWindow (some w))).uri := by
    intro w
    rw [Cursor.withQuery_withQuery, windowedState_withQuery hin]
    exact uri_alike hin (halike.withWindow (some w))
  obtain ⟨v, hread, hshows⟩ := @read_page a s limits _ _ _ _ _
    (readable_queryable hin hnode (hexpand ▸ huri)) _ hresolve
    (by rw [Cursor.query_withQuery hin, hwindow]; exact hstretch)
    (by
      rw [windowedState_withQuery hin]
      exact (hlisted.near (Cursor.near_withQuery c again)).alike (halike.withWindow none))
    (by rw [Cursor.query_withQuery hin, hexpand]; exact hfills)
    _ ((uri_alike hin halike).trans htext)
    (fun hlt => by rw [hsame]; exact hnext hlt)
  refine ⟨n, v, hn, hread, hshows.uris_eq, fun hlt => ?_, hshows.last⟩
  obtain ⟨next, hnexturi, hnextv⟩ := hshows.next hlt
  rw [hsame] at hnexturi
  exact ⟨next, hnexturi, hnextv⟩

/-- Following the pages from one on visits the rest of what is listed, by induction on how much that
is. -/
theorem pages_from {offset size : Nat} (hoffset : offset < refs.length)
    (hsize : size < refs.length) {text : String}
    (htext : (c.withQuery (paged q offset size)).uri = .ok text) :
    ∃ items, Pages a s limits text items ∧ uris items = uris (refs.drop offset) := by
  induction hleft : refs.length - offset using Nat.strong_induction_on
    generalizing offset size text with
  | _ left ih =>
    obtain ⟨n, v, hn, hread, hshown, hnext, hlast⟩ :=
      exists_page hs hg hask hnode hplain huri hlisted hfills hoffset hsize htext
    by_cases hlt : offset + n < refs.length
    · obtain ⟨next, hnexturi, hnextv⟩ := hnext hlt
      obtain ⟨items, hpages, huris⟩ := ih (refs.length - (offset + n)) (by omega) hlt (by omega)
        hnexturi rfl
      refine ⟨_, .more hread hnextv hpages, ?_⟩
      rw [uris_append, hshown, huris, ← uris_append, ← List.drop_drop, List.take_append_drop]
    · refine ⟨_, .last hread (hlast (by omega)), ?_⟩
      rw [hshown, List.take_of_length_le (by rw [List.length_drop]; omega)]

end Paged

end Chain

section First

variable {spec : Specifier} {selected : List (Value × Nat)} {refs : List Value} {size : Nat}

/-- A collection of which nothing is asked shows all its members. -/
theorem shows_empty {node : Node} (hnode : node.Regular)
    (hkind : node.kind.isCollection = true) : node.Shows .empty := by
  cases hk : node.kind with
  | collection => exact .inr ⟨hnode.members hk, rfl⟩
  | query => exact .inl (hnode.selected hk)
  | _ =>
    rw [hk] at hkind
    exact absurd hkind (by decide)

/-- Whether fields can be filled in depends on the node of the members. -/
theorem fills_congr {n m : Node} (h : n.item = m.item) {expand : List Value}
    (hn : Fills a.catalog n expand) : Fills a.catalog m expand := by
  unfold Fills Node.itemNode? at hn ⊢
  rw [← h]
  exact hn

/-- Where an address leads a collection can be read, and a plain state is asked for. -/
theorem readable_of_resolve (hd : a.catalog.Direct) (hr : a.catalog.Regular) {uri : String}
    {l : Location} (hread : Address.read uri = .ok (.ok l)) (hplain : l.Plain)
    (hresolve : a.resolve uri = .ok (.ok spec)) (hkind : spec.node.kind.isCollection = true)
    (huri : .text "uri" ∉ spec.cursor.query.expand) :
    Readable spec ∧ spec.cursor.query.Plain := by
  rw [Atlas.resolve_of_read hread] at hresolve
  by_cases hall : ∀ s ∈ l.segments, s.IsStep
  · have hnode := Atlas.locate_regular hd hr hresolve
    obtain ⟨what, there, -, hwalk, rfl⟩ := Atlas.locate_ok hresolve
    obtain ⟨-, hin, hquery⟩ :=
      Atlas.walk_uri hd (Atlas.writable_of_clear hread hplain.toClear).1 hall hwalk
    dsimp only at hkind huri hnode ⊢
    rw [hquery]
    refine ⟨⟨hin, hkind, ?_, huri⟩, State.plain_empty⟩
    show there.node.Shows (there.cursor.query.withWindow none)
    rw [hquery]
    exact shows_empty hnode hkind
  · obtain ⟨before, head, r, hl, -⟩ := Atlas.exists_asked hplain.last hall
    have hlocate : a.locate ⟨l.scheme, before ++ [asked head r]⟩ = .ok (.ok spec) := hl ▸ hresolve
    obtain ⟨c, node, hbare, hasked, hask⟩ := Atlas.exists_askable hd hread hplain hl hlocate
    obtain rfl := Except.ok.inj (Except.ok.inj ((hasked r).symm.trans hlocate))
    dsimp only at huri ⊢
    rw [Cursor.query_withQuery hask.inside] at huri ⊢
    exact ⟨readable_queryable hask.inside (Atlas.locate_regular hd hr hbare) huri,
      Atlas.plain_of_read hread hplain hl⟩

end First

end ResourceAtlas.Resource

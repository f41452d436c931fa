import ResourceAtlas.Proofs.Resource.Stretch
import ResourceAtlas.Proofs.Specifier.Listed

/-!
# One page of a collection

A read of a collection shows a stretch of what the collection lists, and names the next page exactly
if members are left. Whether it succeeds does not depend on which stretch it is.
-/

namespace ResourceAtlas.Resource

open Address Number Query Schema

/-- The members that an answer shows: those of a page, or those of a list. -/
def shownMembers (v : Value) : List Value :=
  listMembers (if isPage v then v.member "items" else v)

/-- The address of the next page that an answer names. -/
def nextAddress? (v : Value) : Option String :=
  ((v.member pageKey).member "next").text?

/-- What a page shows. -/
theorem shownMembers_pageValue (total : Nat) (stretch : Stretch) (next : Option String)
    (items : List Value) : shownMembers (pageValue total stretch next items) = items :=
  rfl

/-- What a page names as the next one. -/
theorem nextAddress?_pageValue (total : Nat) (stretch : Stretch) (next : Option String)
    (items : List Value) : nextAddress? (pageValue total stretch next items) = next := by
  cases next <;> rfl

/-- A page is a page under any address. -/
theorem withCanonical_pageValue (uri canonical : String) (total : Nat) (stretch : Stretch)
    (next : Option String) (items : List Value) :
    withCanonical uri canonical (pageValue total stretch next items) =
      pageValue total stretch next items :=
  rfl

/-- A list is a list under any address. -/
theorem withCanonical_list (uri canonical : String) (items : List Value) :
    withCanonical uri canonical (.list items) = .list items := by
  unfold withCanonical
  split <;> rfl

/-- The fields that a query asks for can be filled in. -/
def Fills (catalog : Catalog) (node : Node) (expand : List Value) : Prop :=
  expand.isEmpty = false → ∃ item?, node.itemNode? catalog = .ok item? ∧
    ∀ item, item? = some item → ∃ fields, fieldsToFill catalog item expand = .ok fields

section Items

variable {a : Atlas} {s : Store} {c : Cursor} {t : State} {node : Node}
  {selected : List (Value × Nat)} {refs : List Value}

/-- What resolves can be filled in, and names the addresses that are listed. -/
theorem fills_of_resolve (h : Listed s c t selected refs) (hin : c.isOutside = false)
    (hn : node.resolution = .selected) {registered : Bool} {v : Value}
    (hv : (Specifier.mk (c.withQuery t) node registered).resolve a.catalog s = .ok v) :
    Fills a.catalog node t.expand ∧
      ∃ items, v = .list items ∧ (.text "uri" ∉ t.expand → uris items = uris refs) := by
  rw [h.resolve_eq hin hn] at hv
  obtain ⟨item?, hitem, hv⟩ := bind_eq_ok.mp hv
  cases item? with
  | none =>
    obtain rfl := Except.ok.inj hv
    exact ⟨fun _ => ⟨none, hitem, fun _ hsome => (nomatch hsome)⟩, refs, rfl, fun _ => rfl⟩
  | some item =>
    obtain ⟨fields, hfields, hv⟩ := bind_eq_ok.mp hv
    obtain rfl := Except.ok.inj hv
    refine ⟨fun _ => ⟨some item, hitem, fun _ hsome => Option.some.inj hsome ▸ ⟨fields, hfields⟩⟩,
      _, rfl, fun huri => ?_⟩
    exact uris_of_gains (gains_filled (h.near (Cursor.near_withQuery c t)).refers hfields huri
      selected)

/-- What a collection resolves to names the addresses that are listed. -/
theorem uris_of_resolve (h : Listed s c t selected refs) (hin : c.isOutside = false)
    (hn : node.Shows t) (huri : .text "uri" ∉ t.expand) {registered : Bool} {all : List Value}
    (hall : (Specifier.mk (c.withQuery t) node registered).resolve a.catalog s = .ok (.list all)) :
    uris all = uris refs := by
  rcases hn with hn | ⟨hn, hempty⟩
  · obtain ⟨items, hitems, huris⟩ := (fills_of_resolve h hin hn hall).2
    obtain rfl := Value.list.inj hitems
    exact huris huri
  · -- A plain collection shows references whatever is known of its members.
    have hrefs : (Specifier.mk (c.withQuery t) node.referencesOnly registered).resolve a.catalog s =
        .ok (.list refs) :=
      (resolve_referencesOnly_iff hin (.inr ⟨hn, hempty⟩)).mpr ⟨selected, refs, h, rfl⟩
    change resolveWithin a.catalog s (2 * a.catalog.size + 3 + 1) _ _ = _ at hrefs hall
    rw [resolveWithin_members s _ (show node.referencesOnly.resolution = .members from hn)] at hrefs
    rw [resolveWithin_members s _ hn] at hall
    rw [Value.list.inj (Except.ok.inj (hall.symm.trans hrefs))]

/-- What can be filled in resolves. -/
theorem resolve_of_fills (h : Listed s c t selected refs) (hin : c.isOutside = false)
    (hn : node.resolution = .selected) (hfills : Fills a.catalog node t.expand)
    (hne : t.expand.isEmpty = false) (registered : Bool) :
    ∃ v, (Specifier.mk (c.withQuery t) node registered).resolve a.catalog s = .ok v := by
  obtain ⟨item?, hitem, hfields⟩ := hfills hne
  rw [h.resolve_eq hin hn, hitem]
  cases item? with
  | none => exact ⟨_, rfl⟩
  | some item =>
    obtain ⟨fields, hfields⟩ := hfields item rfl
    exact ⟨_, bind_eq_ok.mpr ⟨some item, rfl, bind_eq_ok.mpr ⟨fields, hfields, rfl⟩⟩⟩

/-- A window shows a stretch of what is listed without one. -/
theorem listed_stretch {q : State} (h : Listed s c (q.withWindow none) selected refs)
    (offset size : Nat) :
    Listed s c (q.withWindow (some (.ofCounts (some size) (some offset))))
      ((selected.drop offset).take size) ((refs.drop offset).take size) := by
  obtain ⟨data, items, hdata, hitems, hselected⟩ := h.selects
  refine ⟨⟨data, items, hdata, hitems, ?_⟩, ?_⟩
  · unfold selectMembers
    rw [State.select_withWindow]
    exact bind_eq_ok.mpr ⟨selected, hselected, Stretch.cut_window offset size selected⟩
  · rw [List.map_take, List.map_drop]
    exact references_stretch h.refers offset size

/-- Asking for a stretch of counts. -/
theorem ask_ofCounts (hin : c.isOutside = false) (q : State) (offset size : Nat) :
    (Stretch.ofCounts offset size).ask (c.withQuery (q.withWindow none)) =
      .ok (c.withQuery (q.withWindow (some (.ofCounts (some size) (some offset))))) := by
  unfold Stretch.ask
  rw [Stretch.window_ofCounts, Cursor.query_withQuery hin]
  cases c <;> rfl

end Items

section Page

variable {a : Atlas} {s : Store} {limits : Limits} {spec : Specifier} {offset size : Nat}
  {selected : List (Value × Nat)} {refs : List Value}

/-- The state that a specifier is asked for, with another window. -/
abbrev windowedState (spec : Specifier) (w : Option Window) : State :=
  spec.cursor.query.withWindow w

/-- The location of a specifier without a window. -/
abbrev unpagedCursor (spec : Specifier) : Cursor :=
  spec.cursor.withQuery (windowedState spec none)

/-- A specifier inside a document of which a collection is read. -/
structure Readable (spec : Specifier) : Prop where
  /-- The location lies in a document. -/
  inside : spec.cursor.isOutside = false
  /-- The node is one of a collection. -/
  collection : spec.node.kind.isCollection = true
  /-- The node shows what is selected without a window. -/
  shows : spec.node.Shows (windowedState spec none)
  /-- No field that is filled in takes the place of the address. -/
  unhidden : .text "uri" ∉ spec.cursor.query.expand

/-- What a query with fields to fill in asks is answered by a node that honours queries. -/
theorem Readable.resolution_eq (h : Readable spec) (hne : spec.cursor.query.expand.isEmpty = false) :
    spec.node.resolution = .selected := by
  rcases h.shows with hselected | ⟨-, hempty⟩
  · exact hselected
  · have hexpand : spec.cursor.query.expand = [] := congrArg State.expand hempty
    rw [hexpand] at hne
    exact absurd hne (by decide)

/-- The members on a page show that fields can be filled in. -/
theorem fills_of_pageItems (h : Readable spec)
    (hlisted : Listed s spec.cursor (windowedState spec none) selected refs) {items : List Value}
    (hitems : pageItems a s spec (unpagedCursor spec) (.ofCounts offset size) refs = .ok items) :
    Fills a.catalog spec.node spec.cursor.query.expand := by
  intro hne
  unfold pageItems at hitems
  rw [Cursor.query_withQuery h.inside] at hitems
  change (if spec.cursor.query.expand.isEmpty then _ else _) = _ at hitems
  rw [hne, if_neg Bool.false_ne_true, ask_ofCounts h.inside] at hitems
  obtain ⟨_, hthere, hitems⟩ := bind_eq_ok.mp hitems
  obtain rfl := Except.ok.inj hthere
  obtain ⟨page, hpage, -⟩ := bind_eq_ok.mp hitems
  exact (fills_of_resolve (listed_stretch hlisted offset size) h.inside (h.resolution_eq hne)
    hpage).1 hne

/-- Where fields can be filled in, every page shows its stretch of what is listed. -/
theorem pageItems_of_fills (h : Readable spec)
    (hlisted : Listed s spec.cursor (windowedState spec none) selected refs)
    (hfills : Fills a.catalog spec.node spec.cursor.query.expand) (offset size : Nat) :
    ∃ items, pageItems a s spec (unpagedCursor spec) (.ofCounts offset size) refs = .ok items ∧
      uris items = uris ((refs.drop offset).take size) := by
  unfold pageItems
  rw [Cursor.query_withQuery h.inside]
  change ∃ items, (if spec.cursor.query.expand.isEmpty then _ else _) = _ ∧ _
  cases hne : spec.cursor.query.expand.isEmpty with
  | true =>
    rw [if_pos rfl]
    exact ⟨_, Stretch.cut_ofCounts offset size refs, rfl⟩
  | false =>
    rw [if_neg Bool.false_ne_true, ask_ofCounts h.inside]
    have hstretch := listed_stretch hlisted offset size
    obtain ⟨page, hpage⟩ := resolve_of_fills (a := a) hstretch h.inside (h.resolution_eq hne)
      hfills hne spec.registered
    obtain ⟨items, rfl, huris⟩ := (fills_of_resolve hstretch h.inside (h.resolution_eq hne) hpage).2
    exact ⟨items, bind_eq_ok.mpr ⟨_, rfl, bind_eq_ok.mpr ⟨_, hpage, rfl⟩⟩, huris h.unhidden⟩

/-- The page after a stretch of counts. -/
theorem nextPage_ofCounts (hin : spec.cursor.isOutside = false) (total : Nat) :
    nextPage (unpagedCursor spec) (.ofCounts offset size) total =
      if offset + size < total then
        (spec.cursor.withQuery (windowedState spec
          (some (.ofCounts (some size) (some (offset + size)))))).uri.map some
      else .ok none := by
  unfold nextPage
  rw [Stretch.last_ofCounts]
  show (if (Value.int (offset + size : Nat)).amountLt (.int total) then _ else _) = _
  rw [amountLt_int]
  by_cases hlt : offset + size < total
  · rw [if_pos (decide_eq_true (by omega)), if_pos hlt]
    show (Stretch.ask (Stretch.ofCounts (offset + size) size) (unpagedCursor spec) >>= _) = _
    rw [ask_ofCounts hin]
    rfl
  · rw [if_neg (by rw [decide_eq_true_eq]; omega), if_neg hlt]

/-- An answer shows a stretch of what is listed, and names the next page if members are left. -/
structure Shows (spec : Specifier) (refs : List Value) (offset size : Nat) (v : Value) : Prop where
  /-- The addresses of the members shown. -/
  uris_eq : uris (shownMembers v) = uris ((refs.drop offset).take size)
  /-- Where members are left, the next page is the rest of them. -/
  next : offset + size < refs.length → ∃ next,
    (spec.cursor.withQuery (windowedState spec
      (some (.ofCounts (some size) (some (offset + size)))))).uri = .ok next ∧
    nextAddress? v = some next
  /-- Where none are left, no next page is named. -/
  last : refs.length ≤ offset + size → nextAddress? v = none

/-- The answer that a stretch of what is listed makes of the members on it. -/
def answer (spec : Specifier) (refs : List Value) (offset size : Nat) (items : List Value) :
    Outcome Value :=
  if refs.length ≤ size ∧ offset = 0 then .ok (.list items)
  else do
    let next ← nextPage (unpagedCursor spec) (.ofCounts offset size) refs.length
    .ok (pageValue refs.length (.ofCounts offset size) next items)

/-- A collection is answered by the members on the page. -/
theorem windowed_eq (hin : spec.cursor.isOutside = false)
    (hshows : spec.node.Shows (windowedState spec none))
    (hstretch : stretchOf limits spec.cursor.query.window = .ofCounts offset size)
    (hlisted : Listed s spec.cursor (windowedState spec none) selected refs) :
    windowed a s limits spec =
      pageItems a s spec (unpagedCursor spec) (.ofCounts offset size) refs >>=
        answer spec refs offset size := by
  have hall : (Specifier.mk (spec.cursor.withQuery (windowedState spec none))
      spec.node.referencesOnly spec.registered).resolve a.catalog s = .ok (.list refs) :=
    (resolve_referencesOnly_iff hin hshows).mpr ⟨selected, refs, hlisted, rfl⟩
  have hbranch : ∀ items, answer spec refs offset size items =
      if (Stretch.ofCounts offset size).holdsAll refs.length then .ok (.list items)
      else (do
        let next ← nextPage (unpagedCursor spec) (.ofCounts offset size) refs.length
        .ok (pageValue refs.length (.ofCounts offset size) next items)) := by
    intro items
    unfold answer
    exact if_congr (Stretch.holdsAll_ofCounts offset size _).symm rfl rfl
  rw [show answer spec refs offset size = _ from funext hbranch]
  unfold windowed Cursor.within
  rw [hin]
  show ((spec.derive (unpagedCursor spec) spec.node.referencesOnly).resolve a.catalog s >>= _) = _
  rw [show (spec.derive (unpagedCursor spec) spec.node.referencesOnly).resolve a.catalog s = _
    from hall, hstretch]
  rfl

/-- An answer is made where the next page has an address. -/
theorem exists_answer (hin : spec.cursor.isOutside = false)
    (hnext : offset + size < refs.length → ∃ next, (spec.cursor.withQuery (windowedState spec
      (some (.ofCounts (some size) (some (offset + size)))))).uri = .ok next) (items : List Value) :
    ∃ v, answer spec refs offset size items = .ok v := by
  unfold answer
  split
  · exact ⟨_, rfl⟩
  · rw [nextPage_ofCounts hin]
    split
    · next hlt =>
      obtain ⟨next, huri⟩ := hnext hlt
      rw [huri]
      exact ⟨_, rfl⟩
    · exact ⟨_, rfl⟩

/-- An answer shows the members on the page, and is the same under any address. -/
theorem shows_of_answer (hin : spec.cursor.isOutside = false) {items : List Value}
    (huris : uris items = uris ((refs.drop offset).take size)) {v : Value}
    (h : answer spec refs offset size items = .ok v) :
    Shows spec refs offset size v ∧ ∀ uri canonical, withCanonical uri canonical v = v := by
  unfold answer at h
  split at h
  · next hholds =>
    obtain rfl := Except.ok.inj h
    exact ⟨⟨huris, fun hlt => absurd hlt (by omega), fun _ => rfl⟩,
      fun uri canonical => withCanonical_list uri canonical items⟩
  · obtain ⟨next, hnext, h⟩ := bind_eq_ok.mp h
    obtain rfl := Except.ok.inj h
    refine ⟨⟨huris, fun hlt => ?_, fun hle => ?_⟩,
      fun uri canonical => withCanonical_pageValue uri canonical _ _ _ _⟩
    · rw [nextPage_ofCounts hin, if_pos hlt] at hnext
      obtain ⟨next, huri, rfl⟩ := map_eq_ok.mp hnext
      exact ⟨next, huri, nextAddress?_pageValue _ _ _ _⟩
    · rw [nextPage_ofCounts hin, if_neg (by omega)] at hnext
      obtain rfl := Except.ok.inj hnext
      exact nextAddress?_pageValue _ _ _ _

/-- A read of a collection brings what the window makes of it, under its canonical address. -/
theorem read_ok_iff (hkind : spec.node.kind.isCollection = true) {uri : String}
    (hresolve : a.resolve uri = .ok (.ok spec)) {v : Value} : read a s limits uri = .ok ⟨uri, .ok v⟩ ↔
      ∃ w canonical, windowed a s limits spec = .ok w ∧ spec.uri = .ok canonical ∧
        withCanonical uri canonical w = v := by
  have hvalue : valueOf a s limits spec = windowed a s limits spec := if_pos hkind
  unfold read
  rw [hresolve]
  dsimp only [bind, Except.bind]
  rw [hvalue]
  cases windowed a s limits spec with
  | error f =>
    exact ⟨fun hr => absurd (congrArg Report.result (Except.ok.inj hr)) (by simp),
      fun ⟨_, _, hw, _⟩ => (nomatch hw)⟩
  | ok w =>
    constructor
    · intro hr
      obtain ⟨canonical, hcanonical, hr⟩ := bind_eq_ok.mp hr
      exact ⟨w, canonical, rfl, hcanonical,
        Except.ok.inj (congrArg Report.result (Except.ok.inj hr))⟩
    · rintro ⟨_, canonical, hw, hcanonical, rfl⟩
      obtain rfl := Except.ok.inj hw
      exact bind_eq_ok.mpr ⟨canonical, hcanonical, rfl⟩

/-- A page is read where fields can be filled in and addresses can be written. -/
theorem read_page (h : Readable spec) {uri : String} (hresolve : a.resolve uri = .ok (.ok spec))
    (hstretch : stretchOf limits spec.cursor.query.window = .ofCounts offset size)
    (hlisted : Listed s spec.cursor (windowedState spec none) selected refs)
    (hfills : Fills a.catalog spec.node spec.cursor.query.expand) {canonical : String}
    (hcanonical : spec.uri = .ok canonical)
    (hnext : offset + size < refs.length → ∃ next, (spec.cursor.withQuery (windowedState spec
      (some (.ofCounts (some size) (some (offset + size)))))).uri = .ok next) :
    ∃ v, read a s limits uri = .ok ⟨uri, .ok v⟩ ∧ Shows spec refs offset size v := by
  obtain ⟨items, hitems, huris⟩ := pageItems_of_fills h hlisted hfills offset size
  obtain ⟨v, hv⟩ := exists_answer h.inside hnext items
  obtain ⟨hshows, hsame⟩ := shows_of_answer h.inside huris hv
  refine ⟨v, (read_ok_iff h.collection hresolve).mpr ⟨v, canonical, ?_, hcanonical, hsame _ _⟩, hshows⟩
  rw [windowed_eq h.inside h.shows hstretch hlisted]
  exact bind_eq_ok.mpr ⟨items, hitems, hv⟩

/-- What a page that is read shows, and what it tells of the collection. -/
theorem page_of_read (h : Readable spec) {uri : String} (hresolve : a.resolve uri = .ok (.ok spec))
    (hstretch : stretchOf limits spec.cursor.query.window = .ofCounts offset size) {v : Value}
    (hread : read a s limits uri = .ok ⟨uri, .ok v⟩) :
    ∃ selected refs, Listed s spec.cursor (windowedState spec none) selected refs ∧
      Fills a.catalog spec.node spec.cursor.query.expand ∧ Shows spec refs offset size v := by
  obtain ⟨w, canonical, hw, -, rfl⟩ := (read_ok_iff h.collection hresolve).mp hread
  have hall := hw
  unfold windowed Cursor.within at hall
  rw [h.inside] at hall
  obtain ⟨_, hcursor, hall⟩ := bind_eq_ok.mp hall
  obtain rfl := Except.ok.inj hcursor
  obtain ⟨all, hall, -⟩ := bind_eq_ok.mp hall
  obtain ⟨selected, refs, hlisted, rfl⟩ := (resolve_referencesOnly_iff h.inside h.shows).mp hall
  rw [windowed_eq h.inside h.shows hstretch hlisted] at hw
  obtain ⟨items, hitems, hanswer⟩ := bind_eq_ok.mp hw
  have hfills := fills_of_pageItems h hlisted hitems
  obtain ⟨items', hitems', huris⟩ := pageItems_of_fills h hlisted hfills offset size
  obtain rfl := Except.ok.inj (hitems.symm.trans hitems')
  obtain ⟨hshows, hsame⟩ := shows_of_answer h.inside huris hanswer
  rw [hsame]
  exact ⟨selected, refs, hlisted, hfills, hshows⟩

end Page

end ResourceAtlas.Resource

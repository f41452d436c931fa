import ResourceAtlas.Proofs.Query.Tested
import ResourceAtlas.Proofs.Resource.Window

/-!
# Filtered reads

A read of a list whose members can be put in the order that is asked for succeeds exactly if its filter
trips over none of them. One member with an immense integer in a field that is compared as a number makes
the whole read fail, whatever else is in the list.
-/

namespace ResourceAtlas.Resource

open Address Number Query Schema

/-- A read of a list that an address leads to by no computed way, in which nothing but a filter can go
wrong. -/
structure FilteredRead (a : Atlas) (s : Store) (limits : Limits) (uri : String) (spec : Specifier)
    (items : List Value) : Prop where
  /-- Every node is regular. -/
  regular : a.catalog.Regular
  /-- The address is read as a location, to which no computed way leads. -/
  reached : ∃ l, Address.read uri = .ok (.ok l) ∧
    ∀ what, Keyed.get? l.scheme a.registry.schemes = some what →
      a.Straight (a.start l.scheme what) l.segments
  /-- The address resolves. -/
  resolves : a.resolve uri = .ok (.ok spec)
  /-- A collection is at the location. -/
  collection : spec.node.kind.isCollection = true
  /-- It holds the items. -/
  holds : ∃ data, spec.cursor.raw s = .ok data ∧ data.sequence? = some items
  /-- Their count can be written. -/
  counted : items.length ≤ 10 ^ Numeral.maxDigits
  /-- Fields that are filled in are defined. -/
  defined : spec.cursor.query.expand.isEmpty = false → spec.node.MembersDefined a.catalog
  /-- The items that are kept have the field that orders them. -/
  fields : ∀ order, spec.cursor.query.sort = some order →
    ∀ item ∈ items.filter (admits spec.cursor.query.filter),
      ∃ v, Value.fieldOf order.field item = .ok v
  /-- Their values in it can be compared. -/
  compares : ∀ order, spec.cursor.query.sort = some order →
    ∀ x ∈ items.filter (admits spec.cursor.query.filter),
      ∀ y ∈ items.filter (admits spec.cursor.query.filter),
        ∃ o, compareValues (order.valueOf x) (order.valueOf y) = .ok o
  /-- The standard length of a page is positive. -/
  standard : 1 ≤ limits.standard
  /-- So is the greatest one. -/
  greatest : 1 ≤ limits.greatest

/-- Nothing is selected of a list to which a state cannot be applied. -/
theorem selectMembers_of_apply {q : State} {items : List Value} {f : Fault}
    (h : q.apply items = .error f) : selectMembers q items = .error f := by
  have happly := selectMembers_apply q items
  rw [h] at happly
  cases hs : selectMembers q items with
  | ok selected =>
    rw [hs] at happly
    exact (nomatch happly)
  | error fault =>
    rw [hs] at happly
    exact congrArg Except.error (Except.error.inj happly)

namespace FilteredRead

variable {a : Atlas} {s : Store} {limits : Limits} {uri : String} {spec : Specifier}
  {items : List Value}

/-- The predicates that are asked have operands that are read from texts. -/
theorem parsed (h : FilteredRead a s limits uri spec items) : Parsed spec.cursor.query.filter := by
  obtain ⟨l, hread, hstraight⟩ := h.reached
  have hlocate := (Atlas.resolve_of_read hread).symm.trans h.resolves
  obtain ⟨what, there, hwhat, hwalk, rfl⟩ := Atlas.locate_ok hlocate
  dsimp only
  rcases Atlas.walk_asks (hstraight what hwhat) rfl hwalk with hempty | ⟨_, -, r, -, hasks⟩
  · rw [hempty]
    exact fun e he => absurd he List.not_mem_nil
  · rw [hasks]
    exact parsed_apply r

/-- A read succeeds if its filter answers on every item. -/
theorem read_ok (h : FilteredRead a s limits uri spec items)
    (hanswers : ∀ item ∈ items, AnswersOn spec.cursor.query.filter item) :
    ∃ v, read a s limits uri = .ok ⟨uri, .ok v⟩ := by
  obtain ⟨l, hread, hstraight⟩ := h.reached
  obtain ⟨data, hdata, hitems⟩ := h.holds
  have hlocate := (Atlas.resolve_of_read hread).symm.trans h.resolves
  obtain ⟨hin, hshows, hcounted⟩ := shows_of_locate h.regular hstraight hlocate h.collection
  have haddressed := Atlas.addressed_of_locate hread hstraight hlocate
  obtain ⟨-, ⟨base, hbase⟩, hquery⟩ := Cursor.addressed_iff.mp haddressed
  have hstretch := stretchOf_counted hcounted h.standard h.greatest
  generalize requestedOffset spec.cursor.query = offset at hstretch
  generalize pageLength limits spec.cursor.query = size at hstretch
  have hcount := h.counted
  obtain ⟨selected, refs, hlisted, -⟩ :=
    exists_listed (q := spec.cursor.query.withWindow none) hdata hitems (fun i hi =>
      haddressed.entered (.index _) (Step.exists_append
        (Value.isSome_string?_int (writableCount_of_lt (by omega))) (.inl rfl)))
      hanswers nofun h.fields h.compares
  obtain ⟨shown, hshown, -⟩ := pageItems_gains hin hshows hlisted h.defined hquery.expand offset size
  have htotal := hlisted.length_le hbase
  have hnext : offset + size < refs.length → ∃ next, (spec.cursor.withQuery (windowedState spec
      (some (.ofCounts (some size) (some (offset + size)))))).uri = .ok next := fun hlt =>
    exists_uri_paged haddressed (writableCount_of_lt (by omega)) (writableCount_of_lt (by omega))
  obtain ⟨v, hv⟩ := exists_answer hin hnext shown
  obtain ⟨own, hown⟩ := haddressed
  refine ⟨v, (read_ok_iff h.collection h.resolves).mpr ⟨v, own, ?_, hown,
    (showsWindow_of_answer hin hv).withCanonical uri own⟩⟩
  rw [windowed_eq hin hshows hstretch hlisted]
  exact bind_eq_ok.mpr ⟨shown, hshown, hv⟩

/-- A read fails if its filter trips over an item. -/
theorem read_of_tripsOn (h : FilteredRead a s limits uri spec items) {item : Value}
    (hitem : item ∈ items) (htrips : TripsOn spec.cursor.query.filter item) :
    read a s limits uri = .ok ⟨uri, .error ("Resolution error: " ++ Fault.integerTooLarge.message)⟩ := by
  obtain ⟨l, hread, hstraight⟩ := h.reached
  obtain ⟨data, hdata, hitems⟩ := h.holds
  have hlocate := (Atlas.resolve_of_read hread).symm.trans h.resolves
  obtain ⟨hin, hshows, -⟩ := shows_of_locate h.regular hstraight hlocate h.collection
  -- A plain collection has no filter that could trip.
  have hselected : spec.node.resolution = .selected := by
    refine hshows.resolve_right fun hmembers => ?_
    obtain ⟨earlier, name, p, later, hsplit, -⟩ := htrips
    rw [show spec.cursor.query.filter = [] from congrArg State.filter hmembers.2] at hsplit
    exact absurd hsplit.symm (by simp)
  have happly : (windowedState spec none).apply items = .error .integerTooLarge :=
    Parsed.apply_of_tripsOn (q := windowedState spec none) h.parsed hitem htrips
  exact read_of_error h.resolves (valueOf_of_unselected h.collection hin hselected hdata
    (by rw [membersOf, hitems]) (selectMembers_of_apply happly))

end FilteredRead

section Folders

open Atlas

/-- A request for the members whose rank is above one. -/
def aboveOne : Request :=
  ⟨[⟨"rank", .gt, "1"⟩], none, none, none, []⟩

/-- Folders that are asked for those whose rank is above one. -/
def foldersAboveOne : Specifier :=
  ⟨(foldersAt folderAccessors).cursor.withQuery (aboveOne.apply .empty),
    (foldersAt folderAccessors).node.queryable, true⟩

/-- In a read of folders whose rank is above one, nothing but the filter can go wrong. -/
theorem filteredRead_folders {items : List Value} (h : items.length ≤ 10 ^ Numeral.maxDigits) :
    FilteredRead (folders folderAccessors) (folderStore items) .usual "s://folders?rank.gt=1"
      foldersAboveOne items := by
  have hread : Address.read "s://folders?rank.gt=1" =
      .ok (.ok ⟨"s", [asked "folders" aboveOne]⟩) := by
    decide +kernel
  have hfilter : foldersAboveOne.cursor.query.sort = none := rfl
  refine ⟨folders_regular folderAccessors,
    ⟨_, hread, fun what _ => straight_of_direct (folders_direct folderAccessors) _ _⟩,
    (resolve_of_read hread).trans rfl, rfl, ⟨_, raw_folders folderAccessors items, rfl⟩, h,
    fun hexpand => absurd hexpand (by decide), fun order horder => ?_, fun order horder => ?_,
    by decide, by decide⟩
  · rw [hfilter] at horder
    cases horder
  · rw [hfilter] at horder
    cases horder

/-- The filter of such a read trips over a folder exactly if its rank is immense. -/
theorem tripsOn_aboveOne {rank : Value} :
    TripsOn foldersAboveOne.cursor.query.filter (ranked rank) ↔ Immense rank.computed := by
  have hfilter : foldersAboveOne.cursor.query.filter =
      [("rank", ⟨.gt, Operator.gt.parse "1"⟩)] := rfl
  rw [hfilter]
  constructor
  · rintro ⟨earlier, name, p, later, hsplit, -, -, himmense⟩
    cases earlier with
    | nil =>
      obtain ⟨hfirst, -⟩ := List.cons.inj hsplit
      obtain ⟨rfl, -⟩ := Prod.mk.inj hfirst
      exact himmense
    | cons e earlier =>
      have hlength := congrArg List.length hsplit
      simp at hlength
  · exact fun himmense => ⟨[], "rank", _, [], rfl, rfl, .inl rfl, himmense⟩

end Folders

end ResourceAtlas.Resource

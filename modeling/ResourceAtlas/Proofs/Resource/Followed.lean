import ResourceAtlas.Proofs.Registry.Member
import ResourceAtlas.Proofs.Resource.Pages
import ResourceAtlas.Proofs.Resource.Visited

/-!
# References that can be followed

A read of a collection shows references to members, each with the address of a position behind that of
the collection. Either all of them lead to the members that they stand for, or none does: they lead
there exactly if the address ends in a segment that can take a position and members are selected by
position.
-/

namespace ResourceAtlas.Resource

open Address Number Query Schema Text

section Cut

variable {α β : Type} {stretch : Stretch}

/-- A stretch between two whole numbers cuts the members from the one to the other. -/
theorem Stretch.cut_ok_iff {xs cut : List α} : stretch.cut xs = .ok cut ↔
    ∃ first last bound, stretch.offset.index? = some first ∧ stretch.last = .ok bound ∧
      bound.index? = some last ∧ cut = Value.slice xs first last := by
  constructor
  · intro h
    obtain ⟨bound, hend, h⟩ := bind_eq_ok.mp h
    unfold Value.stretch at h
    cases hfirst : stretch.offset.index? with
    | none =>
      rw [hfirst] at h
      exact (nomatch h)
    | some first =>
      rw [hfirst] at h
      dsimp only at h
      cases hlast : bound.index? with
      | none =>
        rw [hlast] at h
        exact (nomatch h)
      | some last =>
        rw [hlast] at h
        exact ⟨first, last, bound, rfl, hend, hlast, (Except.ok.inj h).symm⟩
  · rintro ⟨first, last, bound, hfirst, hend, hlast, rfl⟩
    refine bind_eq_ok.mpr ⟨bound, hend, ?_⟩
    unfold Value.stretch
    rw [hfirst]
    dsimp only
    rw [hlast]

/-- Lists that are related member by member are cut to related ones. -/
theorem Stretch.cut_forall₂ {R : α → β → Prop} {xs : List α} {ys cut : List β}
    (h : List.Forall₂ R xs ys) (hcut : stretch.cut ys = .ok cut) :
    ∃ shown, stretch.cut xs = .ok shown ∧ List.Forall₂ R shown cut := by
  obtain ⟨first, last, bound, hfirst, hend, hlast, rfl⟩ := Stretch.cut_ok_iff.mp hcut
  refine ⟨_, Stretch.cut_ok_iff.mpr ⟨first, last, bound, hfirst, hend, hlast, rfl⟩, ?_⟩
  unfold Value.slice
  rw [h.length_eq]
  exact List.forall₂_drop _ (List.forall₂_take _ h)

/-- What is cut from a list is in it. -/
theorem Stretch.cut_subset {xs cut : List α} (h : stretch.cut xs = .ok cut) : cut ⊆ xs := by
  obtain ⟨first, last, bound, -, -, -, rfl⟩ := Stretch.cut_ok_iff.mp h
  exact fun x hx => List.mem_of_mem_take (List.mem_of_mem_drop hx)

end Cut

variable {a : Atlas} {s : Store} {limits : Limits} {spec : Specifier} {uri : String} {l : Location}
  {selected : List (Value × Nat)} {refs : List Value} {v : Value}

/-- The window that a request asks, if any, is one of counts. -/
def CountedWindow (q : State) : Prop :=
  q.window = none ∨ ∃ limit offset, q.window = some (.ofCounts limit offset)

/-- The stretch of a window of counts begins at a count. -/
theorem exists_stretchOf {q : State} (h : CountedWindow q) (limits : Limits) :
    ∃ (offset : Nat) (size : Int), stretchOf limits q.window = ⟨.int offset, .int size⟩ := by
  rcases h with h | ⟨limit, offset, h⟩
  · exact ⟨0, _, by rw [h, stretchOf_none]; rfl⟩
  · exact ⟨_, _, by rw [h, stretchOf_ofCounts]⟩

/-- A read of a collection shows the addresses of a stretch of what is listed. -/
theorem uris_of_read (h : Readable spec) (hresolve : a.resolve uri = .ok (.ok spec))
    (hcounted : CountedWindow spec.cursor.query)
    (hread : read a s limits uri = .ok ⟨uri, .ok v⟩) :
    ∃ selected refs cut, Listed s spec.cursor (windowedState spec none) selected refs ∧
      (stretchOf limits spec.cursor.query.window).cut refs = .ok cut ∧
      uris (shownMembers v) = uris cut := by
  obtain ⟨offset, size, hstretch⟩ := exists_stretchOf hcounted limits
  by_cases hsize : 0 ≤ size
  · have hcounts : stretchOf limits spec.cursor.query.window = .ofCounts offset size.toNat := by
      rw [hstretch, Stretch.ofCounts, Int.toNat_of_nonneg hsize]
    obtain ⟨selected, refs, hlisted, -, hshows⟩ := page_of_read h hresolve hcounts hread
    refine ⟨selected, refs, _, hlisted, ?_, hshows.uris_eq⟩
    rw [hcounts]
    exact Stretch.cut_ofCounts offset size.toNat refs
  · -- A limit below zero asks for no window, so nothing is filled in.
    obtain ⟨w, canonical, hw, -, rfl⟩ := (read_ok_iff h.collection hresolve).mp hread
    obtain ⟨_, hcursor, hw⟩ := bind_eq_ok.mp hw
    obtain ⟨-, rfl⟩ := Cursor.within_ok_iff.mp hcursor
    dsimp only at hw
    rw [hstretch] at hw ⊢
    obtain ⟨all, hall, hw⟩ := bind_eq_ok.mp hw
    obtain ⟨selected, refs, hlisted, rfl⟩ := (resolve_referencesOnly_iff h.inside h.shows).mp hall
    obtain ⟨items, hitems, hw⟩ := bind_eq_ok.mp hw
    have hcut : (Stretch.mk (.int offset) (.int size)).cut refs = .ok items := by
      unfold pageItems at hitems
      split at hitems
      · exact hitems
      · obtain ⟨_, hask, -⟩ := bind_eq_ok.mp hitems
        obtain ⟨_, hwindow, -⟩ := map_eq_ok.mp hask
        obtain ⟨_, hbound, -⟩ := bind_eq_ok.mp hwindow
        unfold Bound.ofValue at hbound
        dsimp only at hbound
        rw [if_pos (by omega)] at hbound
        obtain ⟨_, -, hbound⟩ := bind_eq_ok.mp hbound
        cases hbound
    have hpart : (Stretch.mk (.int offset) (.int size)).holdsAll refs.length = false := by
      unfold Stretch.holdsAll
      rw [amountLe_int, decide_eq_false (by omega), Bool.false_and]
    change (if (Stretch.mk (.int offset) (.int size)).holdsAll refs.length = true then _ else _) = _
      at hw
    rw [hpart, if_neg Bool.false_ne_true] at hw
    obtain ⟨next, -, hw⟩ := bind_eq_ok.mp hw
    obtain rfl := Except.ok.inj hw
    rw [withCanonical_pageValue, shownMembers_pageValue]
    exact ⟨selected, refs, items, hlisted, hcut, rfl⟩

/-- The window of what a request asks is the request's. -/
theorem window_apply (r : Request) : (r.apply .empty).window = r.window := by
  have hnone : r.window.isNone = true → r.window = none := Option.isNone_iff_eq_none.mp
  unfold Request.apply
  dsimp only
  cases hw : r.window with
  | none =>
    simp only [Option.isNone_none, if_true]
    split <;> split <;> split <;> rfl
  | some w =>
    simp only [Option.isNone_some, Bool.false_eq_true, if_false]
    split <;> split <;> split <;> rfl

/-- A request asks for a window of counts, if any. -/
theorem countedWindow_apply (r : Request) : CountedWindow (r.apply .empty) := by
  unfold CountedWindow
  rw [window_apply, Request.window]
  split
  · exact .inl rfl
  · exact .inr ⟨_, _, rfl⟩

/-- Where an address leads by no computed way, a collection shows what is selected of it in a stretch that
begins at a count. -/
theorem shows_of_locate (hr : a.catalog.Regular)
    (hd : ∀ what, Keyed.get? l.scheme a.registry.schemes = some what →
      a.Straight (a.start l.scheme what) l.segments)
    (h : a.locate l = .ok (.ok spec)) (hkind : spec.node.kind.isCollection = true) :
    spec.cursor.isOutside = false ∧ spec.node.Shows (windowedState spec none) ∧
      CountedWindow spec.cursor.query := by
  obtain ⟨what, mid, hwhat, hmid, hstraight, hbelow⟩ := Atlas.locate_unasked hd h
  have hregular := Atlas.walk_everywhere hr.everywhere hstraight (hr what.schema) hmid
  have hin : mid.cursor.isOutside = false := Atlas.walk_inside hstraight rfl hmid
  refine ⟨hbelow.near.outside.symm.trans hin, ?_, ?_⟩
  · rcases hbelow.node with ⟨hnode, hquery⟩ | hnode
    · dsimp only at hnode hquery
      rw [hnode] at hkind ⊢
      show mid.node.Shows (spec.cursor.query.withWindow none)
      rw [hquery]
      exact shows_empty hregular hkind
    · dsimp only at hnode
      rw [hnode]
      exact .inl (Node.resolution_queryable hregular)
  · obtain ⟨what', there, hwhat', hwalk, rfl⟩ := Atlas.locate_ok h
    rcases Atlas.walk_asks (hd what' hwhat') rfl hwalk with hempty | ⟨_, -, r, -, hasks⟩
    · exact .inl (congrArg State.window hempty)
    · dsimp only
      rw [hasks]
      exact countedWindow_apply r

/-- What a state selects are members in their places. -/
theorem Listed.getElem?_of_mem {c : Cursor} {t : State} (h : Listed s c t selected refs) :
    ∃ list items, c.position? s = .ok (some list) ∧ (list.read s).sequence? = some items ∧
      selectMembers t items = .ok selected ∧ ∀ m ∈ selected, items[m.2]? = some m.1 := by
  obtain ⟨data, items, hdata, hitems, hselected⟩ := h.selects
  have hsequence := sequence?_of_membersOf hitems
  obtain ⟨list, hlist, rfl⟩ := Cursor.position_of_sequence hdata hsequence
  exact ⟨list, items, hlist, hsequence, hselected, fun m => getElem?_of_selectMembers hselected⟩

/-- No namespace of folders selects a member: there is none. -/
theorem folders_selectsOwn (accessors : Keyed Method) :
    ∀ id, ((Atlas.folders accessors).catalog.node id).SelectsOwn :=
  Catalog.forall_node (Node.faithful_of_methods rfl).selectsOwn (by
    intro n hn
    simp only [Atlas.folderNodes, List.mem_cons, List.not_mem_nil, or_false] at hn
    rcases hn with rfl | rfl | rfl | rfl <;> exact fun _ _ _ => rfl)

/-- Folders that are selected by name. -/
def namedFolders : Atlas :=
  Atlas.folders [("by_name", .byName (.node 2))]

/-- The addresses that a read shows. -/
def shownTexts (report : Report) : Option (List (Option String)) :=
  report.result.toOption.map fun v => (uris (shownMembers v)).map Value.text?

end ResourceAtlas.Resource

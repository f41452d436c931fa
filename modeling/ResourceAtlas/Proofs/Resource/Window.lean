import ResourceAtlas.Proofs.Registry.Addressed
import ResourceAtlas.Proofs.Registry.Queried
import ResourceAtlas.Proofs.Resource.Followed

/-!
# Windows are exact

What a read shows of a collection is a window of the references to the members that the query selects:
all of them if they fit, else the page from the offset that was asked for on, of the length that was
asked for under the limits. Filling in fields lengthens the references on the page and changes nothing
else about it.
-/

namespace ResourceAtlas.Resource

open Address Number Query Schema

section Requested

/-- The offset that is asked for, none without one. -/
def requestedOffset (q : State) : Nat :=
  (q.window.bind (·.offset)).elim 0 Bound.count

/-- The limit that is asked for, zero without one. -/
def requestedLimit (q : State) : Nat :=
  (q.window.bind (·.limit)).elim 0 Bound.count

/-- The length of a page: the limit that is asked for up to the greatest one, or the standard one. -/
def pageLength (limits : Limits) (q : State) : Nat :=
  if requestedLimit q = 0 then limits.standard.toNat
  else min (requestedLimit q) limits.greatest.toNat

variable {limits : Limits}

/-- No page is longer than both limits. -/
theorem pageLength_le (limits : Limits) (q : State) :
    pageLength limits q ≤ max limits.standard.toNat limits.greatest.toNat := by
  unfold pageLength
  split <;> omega

/-- A window of counts asks for the page from its offset on. -/
theorem stretchOf_counted {q : State} (h : CountedWindow q) (hs : 1 ≤ limits.standard)
    (hg : 1 ≤ limits.greatest) :
    stretchOf limits q.window = .ofCounts (requestedOffset q) (pageLength limits q) := by
  rcases h with h | ⟨limit, offset, h⟩
  · have hlength : pageLength limits q = limits.standard.toNat := by
      unfold pageLength requestedLimit
      rw [h]
      rfl
    have hoffset : requestedOffset q = 0 := by
      unfold requestedOffset
      rw [h]
      rfl
    rw [h, stretchOf_none, hlength, hoffset, Stretch.ofCounts, Int.toNat_of_nonneg (by omega)]
    rfl
  · have hoffset : requestedOffset q = offset.getD 0 := by
      unfold requestedOffset
      rw [h]
      cases offset <;> rfl
    have hlimit : requestedLimit q = limit.getD 0 := by
      unfold requestedLimit
      rw [h]
      cases limit <;> rfl
    have hlength : (pageLength limits q : Int) = pageSize limits limit := by
      unfold pageLength pageSize
      rw [hlimit]
      cases limit with
      | none => exact Int.toNat_of_nonneg (by omega)
      | some n =>
        cases n with
        | zero => exact Int.toNat_of_nonneg (by omega)
        | succ n =>
          rw [Option.getD_some, if_neg (Nat.succ_ne_zero n)]
          dsimp only
          omega
    rw [h, stretchOf_ofCounts, hoffset, ← hlength]
    rfl

end Requested

section Shown

/-- An answer shows items as a window of references: as the whole list if that is what they are, else as
a page that counts the references and names a next page where some are left behind it. -/
inductive ShowsWindow (refs : List Value) (offset length : Nat) (shown : List Value) :
    Value → Prop
  /-- All references fit. -/
  | whole (hfits : refs.length ≤ length) (hfirst : offset = 0) :
      ShowsWindow refs offset length shown (.list shown)
  /-- There are more, or not all are asked for. -/
  | page (hpart : ¬ (refs.length ≤ length ∧ offset = 0)) (next : Option String)
      (hnext : next = none ↔ refs.length ≤ offset + length) :
      ShowsWindow refs offset length shown
        (pageValue refs.length (.ofCounts offset length) next shown)

variable {a : Atlas} {s : Store} {limits : Limits} {spec : Specifier} {offset size : Nat}
  {selected : List (Value × Nat)} {refs shown : List Value}

/-- An answer shows the items as a window. -/
theorem showsWindow_of_answer (hin : spec.cursor.isOutside = false) {v : Value}
    (h : answer spec refs offset size shown = .ok v) : ShowsWindow refs offset size shown v := by
  unfold answer at h
  split at h
  · next hholds =>
    obtain rfl := Except.ok.inj h
    exact .whole hholds.1 hholds.2
  · next hpart =>
    obtain ⟨next, hnext, h⟩ := bind_eq_ok.mp h
    obtain rfl := Except.ok.inj h
    refine .page hpart next ?_
    rw [nextPage_ofCounts hin] at hnext
    split at hnext
    · next hlt =>
      obtain ⟨text, -, rfl⟩ := map_eq_ok.mp hnext
      exact ⟨fun h => (nomatch h), fun hle => absurd hlt (by omega)⟩
    · next hlt =>
      obtain rfl := Except.ok.inj hnext
      exact ⟨fun _ => by omega, fun _ => rfl⟩

/-- A window is the same under any address. -/
theorem ShowsWindow.withCanonical {v : Value} (h : ShowsWindow refs offset size shown v)
    (uri canonical : String) : withCanonical uri canonical v = v := by
  cases h with
  | whole => exact withCanonical_list uri canonical shown
  | page => exact withCanonical_pageValue uri canonical _ _ _ _

/-- The items on the page of a stretch are the references of the stretch, each with the fields that it
has gained. -/
theorem pageItems_gains (hin : spec.cursor.isOutside = false)
    (hshows : spec.node.Shows (windowedState spec none))
    (hlisted : Listed s spec.cursor (windowedState spec none) selected refs)
    (hdefined : spec.cursor.query.expand.isEmpty = false → spec.node.MembersDefined a.catalog)
    (htexts : ∀ field ∈ spec.cursor.query.expand, ∃ name, field = .text name)
    (offset size : Nat) :
    ∃ shown, pageItems a s spec (unpagedCursor spec) (.ofCounts offset size) refs = .ok shown ∧
      shown.length = ((refs.drop offset).take size).length ∧
      (spec.cursor.query.expand = [] → shown = (refs.drop offset).take size) ∧
      (.text "uri" ∉ spec.cursor.query.expand →
        List.Forall₂ (Gains spec.cursor.query.expand) ((refs.drop offset).take size) shown) := by
  have hstretch := listed_stretch hlisted offset size
  unfold pageItems
  rw [Cursor.query_withQuery hin]
  change ∃ shown, (if spec.cursor.query.expand.isEmpty then _ else _) = _ ∧ _
  cases hne : spec.cursor.query.expand.isEmpty with
  | true =>
    rw [if_pos rfl]
    exact ⟨_, Stretch.cut_ofCounts offset size refs, rfl, fun _ => rfl,
      fun _ => gains_references hstretch.refers⟩
  | false =>
    have hselected : spec.node.resolution = .selected := by
      refine hshows.resolve_right fun hmembers => ?_
      rw [show spec.cursor.query.expand = [] from congrArg State.expand hmembers.2] at hne
      exact absurd hne (by decide)
    obtain ⟨shown, hpage, hgains⟩ :=
      hstretch.exists_answer hin hselected (hdefined hne) htexts spec.registered
    rw [if_neg Bool.false_ne_true, ask_ofCounts hin]
    exact ⟨shown, bind_eq_ok.mpr ⟨_, rfl, bind_eq_ok.mpr ⟨_, hpage, rfl⟩⟩, hgains⟩

/-- A location with an address has one when it is asked for a page of counts that can be written. -/
theorem exists_uri_paged (h : spec.cursor.Addressed) (hsize : WritableCount size)
    (hoffset : WritableCount offset) : ∃ uri, (spec.cursor.withQuery (windowedState spec
      (some (.ofCounts (some size) (some offset))))).uri = .ok uri := by
  have hquery := (Cursor.addressed_iff.mp h).2.2
  have hcounts : Request.Countable ⟨[], none, some size, some offset, []⟩ :=
    ⟨fun n hn => Option.some.inj hn ▸ hsize, fun n hn => Option.some.inj hn ▸ hoffset⟩
  exact h.withQuery ⟨hquery.filter, hquery.sort, hcounts.exists_windowText, hquery.expand⟩

end Shown

variable {a : Atlas} {s : Store} {limits : Limits} {spec : Specifier} {uri : String} {l : Location}
  {data : Value} {items : List Value}

section Folders

open Atlas

/-- What goes wrong with a read shows in its report. -/
theorem read_of_error {a : Atlas} {s : Store} {limits : Limits} {spec : Specifier} {uri : String}
    (hresolve : a.resolve uri = .ok (.ok spec)) {f : Fault}
    (h : valueOf a s limits spec = .error f) :
    read a s limits uri = .ok ⟨uri, .error ("Resolution error: " ++ f.message)⟩ := by
  unfold read
  rw [hresolve]
  dsimp only [bind, Except.bind]
  rw [h]

/-- A collection has no value if no members are selected. -/
theorem valueOf_of_unselected {a : Atlas} {s : Store} {limits : Limits} {spec : Specifier}
    {data : Value} {items : List Value} (hkind : spec.node.kind.isCollection = true)
    (hin : spec.cursor.isOutside = false) (hn : spec.node.resolution = .selected)
    (hdata : spec.cursor.raw s = .ok data) (hitems : membersOf .candidates data = .ok items)
    {f : Fault} (h : selectMembers (windowedState spec none) items = .error f) :
    valueOf a s limits spec = .error f := by
  have hresolve : (spec.derive (unpagedCursor spec) spec.node.referencesOnly).resolve a.catalog s =
      .error f := by
    have hraw : (spec.derive (unpagedCursor spec) spec.node.referencesOnly).cursor.raw s =
        .ok data := ((Cursor.near_withQuery _ _).symm.raw_eq s).trans hdata
    have hquery : (spec.derive (unpagedCursor spec) spec.node.referencesOnly).cursor.query =
        windowedState spec none := Cursor.query_withQuery hin _
    have hresolution : (spec.derive (unpagedCursor spec)
        spec.node.referencesOnly).node.resolution = .selected := hn
    exact resolve_of_unselected hresolution hraw hitems (hquery ▸ h)
  unfold valueOf
  rw [if_pos hkind]
  exact bind_eq_error.mpr (.inr ⟨_, Cursor.within_ok_iff.mpr ⟨hin, rfl⟩,
    bind_eq_error.mpr (.inl hresolve)⟩)

end Folders

end ResourceAtlas.Resource

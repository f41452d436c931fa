import ResourceAtlas.Proofs.Registry.Behind
import ResourceAtlas.Proofs.Store.Piece
import ResourceAtlas.Proofs.Tool.Move

/-!
# What a move hands back

A move that succeeds hands back the specifier of the address that it made for the member: the address
of the destination as it was before the move, with the member's piece behind it. The handle is at the
moved member exactly if the destination is still at the list that took the member, and the piece picks
the member there before all others.
-/

namespace ResourceAtlas

open Address Atlas Schema Store Text Tool

variable {a : Atlas} {s t : Store}

/-- A specifier is at the member that was moved: the last one of the list that took it. -/
def Specifier.AtMoved (t : Store) (m : Cursor.Member) (there : Position) (spec : Specifier) : Prop :=
  there.spot?.isSome ∧ ∃ others, (m.shift there).read t = .list (others ++ [m.item]) ∧
    spec.cursor.position? t = .ok (some ((m.shift there).inside (.index others.length)))

/-- A specifier picks the member that was moved: it stands in the list that took the member, and
selects the member there. -/
def Specifier.PicksMoved (t : Store) (m : Cursor.Member) (there : Position) (spec : Specifier) :
    Prop :=
  there.spot?.isSome ∧ ∃ others, (m.shift there).read t = .list (others ++ [m.item]) ∧
    spec.cursor.Picks t (m.shift there) others m.item

/-- A handle and the specifier that its address resolves to are both at the member that was moved. -/
def HandedBack (a : Atlas) (t : Store) (m : Cursor.Member) (there : Position) (handle : Specifier) :
    Prop :=
  handle.AtMoved t m there ∧ ∃ uri seen, handle.uri = .ok uri ∧ a.resolve uri = .ok (.ok seen) ∧
    seen.AtMoved t m there

/-- A specifier is at the moved member exactly if it picks it. -/
theorem Specifier.atMoved_iff_picksMoved {m : Cursor.Member} {there : Position} {spec : Specifier} :
    spec.AtMoved t m there ↔ spec.PicksMoved t m there := by
  constructor
  · rintro ⟨hdoc, others, hlist, hat⟩
    exact ⟨hdoc, others, hlist, (Cursor.picks_iff hlist).mp hat⟩
  · rintro ⟨hdoc, others, hlist, hpicks⟩
    exact ⟨hdoc, others, hlist, (Cursor.picks_iff hlist).mpr hpicks⟩

/-- Where the moved member is the last one of a list, a specifier is at it exactly if it is there. -/
theorem Specifier.atMoved_iff {m : Cursor.Member} {there : Position} {spec : Specifier}
    {others : List Value} (hdoc : there.spot?.isSome)
    (hlist : (m.shift there).read t = .list (others ++ [m.item])) :
    spec.AtMoved t m there ↔
      spec.cursor.position? t = .ok (some ((m.shift there).inside (.index others.length))) := by
  constructor
  · rintro ⟨-, others', hlist', hat⟩
    obtain rfl := List.append_cancel_right (Value.list.inj (hlist.symm.trans hlist'))
    exact hat
  · exact fun hat => ⟨hdoc, others, hlist, hat⟩

/-- The empty text is no address. -/
theorem Atlas.resolve_empty {spec : Specifier} : a.resolve "" ≠ .ok (.ok spec) :=
  fun h => (nomatch h)

/-- A move that succeeded hands back what the destination's address resolves to with the member's
piece behind it. -/
theorem Specifier.move_piece {spec place handle : Specifier}
    (h : spec.move a none place s = (.ok (.ok handle), t)) :
    ∃ uri m there items collection piece,
      Cursor.Planned spec.cursor place.cursor place.node.memberKeys s uri t m there ∧
      there.read s = .list items ∧ place.cursor.uri = .ok collection ∧
      pieceOf m.item (if Cursor.samePosition m.list there then items.length - 1 else items.length)
        place.node.memberKeys = .ok (some piece) ∧
      a.resolve (addressBehind collection piece) = .ok (.ok handle) := by
  obtain ⟨uri, m, there, hplanned, hlook⟩ := move_ok h
  obtain ⟨items, collection, answer, hitems, hcollection, hanswer, huri⟩ := hplanned.address
  have hresolve : a.resolve uri = .ok (.ok handle) := lookUp_ok hlook
  rw [memberUri_eq] at hanswer
  obtain ⟨found, hfound, rfl⟩ := map_eq_ok.mp hanswer
  cases found with
  | none =>
    subst huri
    exact absurd hresolve resolve_empty
  | some piece =>
    subst huri
    exact ⟨_, m, there, items, collection, piece, hplanned, hitems, hcollection, hfound, hresolve⟩

/-- The address of a location up to the query is the text of its steps. -/
theorem Cursor.withoutQuery_uri {c : Cursor} (hin : c.isOutside = false) {text : List Char}
    (ht : stepsTextFrom [] c.steps = .ok text) (hquestion : '?' ∉ text) {uri : String}
    (huri : c.uri = .ok uri) : withoutQuery uri = String.ofList text := by
  have hquery := huri
  rw [uri_inside hin] at hquery
  obtain ⟨base, -, hquery⟩ := bind_eq_ok.mp hquery
  obtain ⟨query, hq, -⟩ := bind_eq_ok.mp hquery
  obtain rfl := Except.ok.inj (huri.symm.trans (uri_of_text hin ht query hq))
  unfold withoutQuery
  by_cases hempty : query = ""
  · rw [if_pos hempty, String.toList_ofList, Split.atFirst_eq_none hquestion]
  · rw [if_neg hempty, String.toList_ofList, Split.atFirst_append hquestion]

/-- A specifier that a canonical address with a piece behind it resolves to: one that the piece leads
to, and that its own address resolves to unless a position became a segment of its own. -/
theorem Atlas.resolve_behind (hd : a.catalog.Direct) (hr : a.catalog.Regular) {scheme : String}
    (hscheme : ReadableScheme scheme) {what : Registration}
    (hwhat : Keyed.get? scheme a.registry.schemes = some what) {found : List Segment}
    (hw : Writable found) {mid : Standing}
    (hmid : a.walk (a.start scheme what) found = .ok (.ok mid)) {piece : Piece}
    (hpiece : piece.Plain) {handle : Specifier}
    (h : a.resolve (String.ofList (canonicalText scheme found ++ piece.write)) =
      .ok (.ok handle)) :
    a.LeadsOn mid (isBare found.reverse) piece handle.cursor ∧
      ((∀ i, piece = .position i → isBare found.reverse = true) →
        ∃ uri, handle.uri = .ok uri ∧ a.resolve uri = .ok (.ok handle)) := by
  obtain ⟨l, hread, hlocate⟩ := resolve_ok h
  obtain ⟨rfl, hbehind⟩ := readBehind_of_read hscheme hw hpiece hread
  obtain ⟨what', there, hwhat', hwalk, rfl⟩ := locate_ok hlocate
  obtain rfl := Option.some.inj (hwhat.symm.trans hwhat')
  refine ⟨walk_behind hd hr hmid hbehind hwalk, fun hbare => ?_⟩
  have hextended := writable_readBehind hw hpiece hbare hbehind
  obtain ⟨htext, hin, hquery⟩ := walk_uri hd hextended.each hextended.steps hwalk
  have huri := uri_of_text hin htext "" (by rw [hquery]; rfl)
  rw [if_pos rfl] at huri
  exact ⟨_, huri, (resolve_of_read (read_canonicalText hscheme hextended)).trans hlocate⟩

/-- A piece that leads one step further leads to the moved member exactly if the step picks it in the
list that took it; a piece that leads elsewhere does not. -/
theorem Atlas.LeadsOn.atMoved_iff {mid : Standing} {bare : Bool} {piece : Piece} {handle : Specifier}
    (h : a.LeadsOn mid bare piece handle.cursor) {m : Cursor.Member} {there : Position}
    (hthere : mid.cursor.position? s = .ok (some there)) (hdoc : there.spot?.isSome)
    {others : List Value} (hlist : (m.shift there).read t = .list (others ++ [m.item])) :
    handle.AtMoved t m there ↔ mid.cursor.position? t = .ok (some (m.shift there)) ∧
      ∃ selector, a.choice? mid.node bare piece = some selector ∧ selector.Picks others m.item := by
  rw [Specifier.atMoved_iff hdoc hlist]
  exact h.position_last_iff hthere (m.length_shift there).symm hlist

/-- A position that stands for a selector became the last segment's qualifier. -/
theorem Atlas.bare_of_choice {node : Node} {bare : Bool} {piece : Piece} {selector : Selector}
    (h : a.choice? node bare piece = some selector) (i : Nat) (hi : piece = .position i) :
    bare = true := by
  subst hi
  unfold choice? at h
  dsimp only at h
  by_cases hbare : bare = true
  · exact hbare
  · rw [if_neg hbare] at h
    exact (nomatch h)

end ResourceAtlas

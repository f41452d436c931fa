import ResourceAtlas.Proofs.Registry.Onward

/-!
# Members by their positions

A position behind the address of a collection leads to the member there exactly if the address ends in a
segment that has no position and no identifier yet, and members are selected by position. Otherwise the
position becomes a segment of its own, which leads two steps further, or it is refused.
-/

namespace ResourceAtlas.Atlas

open Address Number Query Schema Text

variable {a : Atlas} {s : Store} {l : Location} {spec : Specifier} {list : Position}
  {items : List Value} {i : Nat} {item : Value}

/-- An address leads to a member of a list: to its position, where it is read. -/
def LeadsToMember (a : Atlas) (s : Store) (list : Position) (address : Value)
    (member : Value × Nat) : Prop :=
  ∃ text there, address = .text text ∧ a.resolve text = .ok (.ok there) ∧
    there.cursor.position? s = .ok (some (list.inside (.index member.2))) ∧
    there.cursor.raw s = .ok member.1

/-- The members of a node are selected by position, and their node is known. -/
def TakesPositions (a : Atlas) (n : Node) : Prop :=
  n.hasMethod "by_index" = true ∧ ∃ member, n.itemNode a.catalog = .ok member

/-- An address resolves to where the segments that it is read as lead from the root of its scheme. -/
theorem resolve_iff_walk {scheme : String} {what : Registration}
    (hwhat : Keyed.get? scheme a.registry.schemes = some what) {uri : String} {found : List Segment}
    (hread : Address.read uri = .ok (.ok ⟨scheme, found⟩)) (there : Specifier) :
    a.resolve uri = .ok (.ok there) ↔ ∃ standing : Standing,
      a.walk (a.start scheme what) found = .ok (.ok standing) ∧
        there = ⟨standing.cursor, standing.node, true⟩ := by
  rw [resolve_of_read hread]
  constructor
  · intro h
    obtain ⟨what', standing, hwhat', hwalk, rfl⟩ := locate_ok h
    obtain rfl := Option.some.inj (hwhat.symm.trans hwhat')
    exact ⟨standing, hwalk, rfl⟩
  · rintro ⟨standing, hwalk, rfl⟩
    exact locate_of_walk hwhat hwalk

/-- A natural number that can be written is read back. -/
theorem readInteger_natText (hi : (Numeral.intText? i).isSome) :
    readInteger (Numeral.natText i) = .ok i ∧ intText i = Numeral.natText i := by
  have hlt := (Numeral.intText?_isSome_iff i).mp hi
  rw [Int.natAbs_natCast] at hlt
  have htext := Numeral.intText?_natText hlt
  exact ⟨readInteger_intText htext, by rw [intText, htext]; rfl⟩

/-- A location in a list that selects an index is there, and reads the member. -/
theorem position_selected {c : Cursor} {selector : Selector} (hs : selector ≠ .same)
    (hlist : c.position? s = .ok (some list)) (hitems : (list.read s).sequence? = some items)
    (hitem : items[i]? = some item)
    (hplace : selector.place? (list.read s) = .ok (some (.index i))) (step : Step) :
    (c.entered selector step).position? s = .ok (some (list.inside (.index i))) ∧
      (c.entered selector step).raw s = .ok item := by
  have hposition := Cursor.position_child hs hlist hplace step .empty
  refine ⟨hposition, (Cursor.raw_of_position hposition).trans ?_⟩
  rw [Position.read_inside hitems, hitem]
  rfl

/-- A location in a list that selects a member by its position is there, and reads it. -/
theorem position_atIndex {c : Cursor} (hlist : c.position? s = .ok (some list))
    (hitems : (list.read s).sequence? = some items) (hitem : items[i]? = some item) (step : Step) :
    (c.entered (.index (.int i)) step).position? s = .ok (some (list.inside (.index i))) ∧
      (c.entered (.index (.int i)) step).raw s = .ok item := by
  have hlt : i < items.length := (List.getElem?_eq_some_iff.mp hitem).1
  have hplace : (Selector.index (.int i)).place? (list.read s) = .ok (some (.index i)) := by
    unfold Selector.place?
    dsimp only
    rw [hitems]
    unfold findPosition
    dsimp only
    rw [if_pos (by omega)]
    rfl
  exact position_selected Selector.noConfusion hlist hitems hitem hplace step

section Walk

variable {here mid there : Standing}

/-- A position behind a bare last segment is taken where the segment leads, if at all. -/
theorem walk_index_ok {before : List Segment} {head : String} {n : Int}
    (hd : a.Straight here (before ++ [⟨head, none⟩]))
    (hmid : a.walk here (before ++ [⟨head, none⟩]) = .ok (.ok mid))
    (h : a.walk here (before ++ [⟨head, some (.index n)⟩]) = .ok (.ok there)) :
    a.TakesPositions mid.node := by
  obtain ⟨stop, hstop, hlast⟩ := walk_concat_ok h
  have hstraight : a.StraightBy stop head := (straight_concat_iff.mp hd).2 stop hstop
  obtain ⟨hin, hmove, -⟩ := segmentMove_of_moveBy hstraight hlast
  cases hmove with
  | @index _ found _ member hm hmethod hitem =>
    have hbare := moveBy_of_segmentMove hstraight hin (.bare hm) fun hsome => (nomatch hsome)
    rw [← walk_concat hstop, hmid] at hbare
    obtain rfl := Except.ok.inj (Except.ok.inj hbare)
    exact ⟨hmethod, member, hitem⟩

/-- A position behind a bare last segment leads to the member there, if members are selected by
position where the segment leads. -/
theorem walk_index {before : List Segment} {head : String} {n : Int}
    (hmid : a.walk here (before ++ [⟨head, none⟩]) = .ok (.ok mid))
    (hno : mid.node.isNamespace = false) (hin : mid.cursor.isOutside = false)
    (htakes : a.TakesPositions mid.node) :
    ∃ member, a.walk here (before ++ [⟨head, some (.index n)⟩]) =
      .ok (.ok ⟨mid.cursor.entered (.index (.int n)) (.index (.int n)), member⟩) := by
  obtain ⟨hmethod, member, hitem⟩ := htakes
  refine ⟨member, ?_⟩
  rw [walk_qualify hmid hno, qualify, if_pos hmethod, select_eq hin rfl hitem]
  rfl

/-- A position that is a segment of its own leads past the members of a list. -/
theorem not_position_of_walk (hr : a.catalog.Regular) {found : List Segment} {n : Int}
    (hempty : a.StraightBy mid "") (hmid : a.walk here found = .ok (.ok mid))
    (h : a.walk here (found ++ [⟨"", some (.index n)⟩]) = .ok (.ok there))
    (hlist : mid.cursor.position? s = .ok (some list)) (place : Store.Place) :
    there.cursor.position? s ≠ .ok (some (list.inside place)) := by
  rw [walk_concat hmid] at h
  obtain ⟨-, hmove, hns⟩ := segmentMove_of_moveBy hempty h
  cases hmove with
  | index hm =>
    obtain ⟨selector, step, hc, hselector⟩ := hm.selects hr (hns rfl)
    have hne : selector ≠ .same := by
      rintro rfl
      rcases hselector with ⟨_, h⟩ | ⟨_, h⟩ | ⟨_, h⟩ <;> cases h
    dsimp only
    rw [hc]
    exact Cursor.ne_inside_of_two_steps hlist rfl hne Selector.noConfusion _ _ _ _ place

end Walk

/-- A position behind the canonical address of a collection leads to the member there, if the address
ends in a bare segment and members are selected by position. -/
theorem leadsToMember_of_walk {scheme : String} (hscheme : ReadableScheme scheme)
    {what : Registration} (hwhat : Keyed.get? scheme a.registry.schemes = some what)
    {before : List Segment} {head : String} (hw : Writable (before ++ [⟨head, none⟩]))
    {mid : Standing}
    (hmid : a.walk (a.start scheme what) (before ++ [⟨head, none⟩]) = .ok (.ok mid))
    (hno : mid.node.isNamespace = false) (hin : mid.cursor.isOutside = false)
    (htakes : a.TakesPositions mid.node) (hlist : mid.cursor.position? s = .ok (some list))
    (hitems : (list.read s).sequence? = some items) (hi : (Numeral.intText? i).isSome)
    (hitem : items[i]? = some item) :
    a.LeadsToMember s list (.text (String.ofList
      (canonicalText scheme (before ++ [⟨head, none⟩]) ++ indexText (intText i)))) (item, i) := by
  obtain ⟨hinteger, hdigits⟩ := readInteger_natText hi
  have hbehind := read_behind hscheme hw (show (Piece.position i).Plain from trivial)
  have hlast : unqualified? (before ++ [(⟨head, none⟩ : Segment)]).reverse =
      some (head, before.reverse) := by
    rw [List.reverse_append]
    rfl
  rw [Piece.write, ← hdigits, Piece.readBehind, hdigits, hinteger, hlast] at hbehind
  simp only [List.reverse_reverse] at hbehind
  obtain ⟨member, hwalk⟩ := walk_index (n := i) hmid hno hin htakes
  obtain ⟨hthere, hraw⟩ := position_atIndex hlist hitems hitem (.index (.int i))
  rw [hdigits]
  exact ⟨_, _, rfl, (resolve_iff_walk hwhat hbehind _).mpr ⟨_, hwalk, rfl⟩, hthere, hraw⟩

/-- The address that a reference to a member names leads to it exactly if the address of the collection
ends in a segment that can take a position and members are selected by position. -/
theorem leadsToMember_iff (hr : a.catalog.Regular) (hown : ∀ id, (a.catalog.node id).SelectsOwn)
    {uri : String} (hread : Address.read uri = .ok (.ok l)) (hl : l.Legible)
    (hd : ∀ what, Keyed.get? l.scheme a.registry.schemes = some what →
      a.Straight (a.start l.scheme what) l.segments)
    (hempty : a.StraightBy ⟨spec.cursor, spec.node⟩ "") (h : a.locate l = .ok (.ok spec))
    (hlist : spec.cursor.position? s = .ok (some list))
    (hitems : (list.read s).sequence? = some items) (hi : (Numeral.intText? i).isSome)
    (hitem : items[i]? = some item) :
    a.LeadsToMember s list
        (.text (String.ofList (canonicalText l.scheme l.stem ++ indexText (intText i)))) (item, i) ↔
      l.endsBare = true ∧ a.TakesPositions spec.node := by
  obtain ⟨what, mid, hwhat, hmid, hstraight, hbelow⟩ := locate_unasked hd h
  have hw := writable_of_legible hread hl
  have hin : mid.cursor.isOutside = false := walk_inside hstraight rfl hmid
  have hposition : mid.cursor.position? s = .ok (some list) := (hbelow.near.position s).trans hlist
  have htakes : a.TakesPositions spec.node ↔ a.TakesPositions mid.node := by
    unfold TakesPositions
    rw [hbelow.hasMethod_eq (by decide), hbelow.itemNode_eq]
  obtain ⟨hinteger, hdigits⟩ := readInteger_natText hi
  have hbehind := read_behind (readableScheme_of_read hread) hw
    (show (Piece.position i).Plain from trivial)
  rw [Piece.write, ← hdigits, Piece.readBehind, hdigits, hinteger] at hbehind
  rw [htakes, hdigits]
  unfold Location.endsBare isBare
  cases hlast : unqualified? l.stem.reverse with
  | some last =>
    obtain ⟨head, before⟩ := last
    rw [hlast] at hbehind
    have hstem := eq_concat_of_unqualified? hlast
    rw [hstem] at hmid hstraight
    constructor
    · rintro ⟨text, there, htext, hthere, -⟩
      obtain rfl := Value.text.inj htext
      obtain ⟨standing, hwalk, -⟩ := (resolve_iff_walk hwhat hbehind there).mp hthere
      exact ⟨rfl, walk_index_ok hstraight hmid hwalk⟩
    · rintro ⟨-, htakes⟩
      have hno : mid.node.isNamespace = false := by
        have hevery := walk_everywhere (Catalog.everywhere_selectsOwn hown) hstraight
          (hown what.schema) hmid
        exact hevery "by_index" (by decide) htakes.1
      rw [hstem] at hw ⊢
      rw [← hdigits]
      exact leadsToMember_of_walk (readableScheme_of_read hread) hwhat hw hmid hno hin htakes
        hposition hitems hi hitem
  | none =>
    rw [hlast] at hbehind
    constructor
    · rintro ⟨text, there, htext, hthere, hat, -⟩
      obtain rfl := Value.text.inj htext
      obtain ⟨standing, hwalk, rfl⟩ := (resolve_iff_walk hwhat hbehind there).mp hthere
      have hmidempty : a.StraightBy mid "" := hbelow.straightBy hempty
      exact absurd hat (not_position_of_walk hr hmidempty hmid hwalk hposition _)
    · exact fun h => absurd h.1 Bool.false_ne_true

end ResourceAtlas.Atlas

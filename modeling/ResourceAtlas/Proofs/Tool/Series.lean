import ResourceAtlas.Proofs.Registry.Steady
import ResourceAtlas.Proofs.Store.Generated
import ResourceAtlas.Proofs.Tool.Handle
import ResourceAtlas.Proofs.Tool.Make

/-!
# Members made in a series

Calls that make members of one collection in turn give each an identifier above all that are there, and
report for each an address that goes on leading to it. One call puts its member at the end of the list
and leaves the collection where it is; by induction along the calls, so does the series. The address
of the collection has to be in plain words, stay the same words without its queries and end in a bare
one, since the identifier is written behind those words.
-/

namespace ResourceAtlas

open Address Atlas Number Schema Store Text

variable {a : Atlas} {s : Store}

namespace Tool

/-- Arguments ask for a member of properties in the collection of an address. -/
def Makes (uri : String) (given properties : Value) : Prop :=
  ∃ entries, argumentEntries given = .ok entries ∧ argument entries "collection" = .text uri ∧
    propertiesOf (argument entries "properties") = .ok properties

/-- Call a tool with one mapping of arguments after another. -/
def callEach (tool : Tool) (a : Atlas) : List Value → Store → List (Outcome (Verdict Value)) × Store
  | [], s => ([], s)
  | given :: rest, s =>
    let first := tool.call a given s
    let others := tool.callEach a rest first.2
    (first.1 :: others.1, others.2)

/-- The answer that a member was made at an address. -/
def madeAt (uri : String) : Outcome (Verdict Value) :=
  .ok (.ok (.mapping [("uri", .text uri)]))

/-- A collection whose members get identifiers by which they are addressed: it is the one at an address,
it creates members itself, a change of its list does not move it, and an integer behind its address
leads to the member of that identifier, whose own address leads there, too. -/
structure Shelf (a : Atlas) (uri : String) (place : Specifier) (mid : Standing) (member : Node) :
    Prop where
  /-- The address leads to the collection. -/
  resolves : a.resolve uri = .ok (.ok place)
  /-- The collection creates members itself. -/
  creates : Keyed.get? "create" place.node.methods = some (.create none)
  /-- Members are addressed by their identifiers before all else. -/
  keys : ∃ others, place.node.memberKeys = "id" :: others
  /-- The collection is where its segments without queries lead. -/
  near : mid.cursor.Near place.cursor
  /-- A change of its list does not move it. -/
  steady : mid.cursor.Unbracketed
  /-- An integer behind the collection's own address leads to the member of that identifier. -/
  members : ∃ collection, place.cursor.uri = .ok collection ∧ ∀ {n : Int} {x : String},
    Numeral.intText? n = some x.toList →
      a.resolve (addressBehind collection (.text x)) = .ok (.ok (memberOfId mid member n)) ∧
      ∃ own, (memberOfId mid member n).uri = .ok own ∧
        a.resolve own = .ok (.ok (memberOfId mid member n))

/-- A collection that members are selected from by identifier is such, if its address is in plain words
and stays the same ones without its queries, ends in a bare one, and takes no computed way. -/
theorem exists_shelf {uri : String} {l : Location} {place : Specifier} {member : Node}
    (hread : Address.read uri = .ok (.ok l)) (hplace : a.resolve uri = .ok (.ok place))
    (hd : ∀ what, Keyed.get? l.scheme a.registry.schemes = some what →
      a.Straight (a.start l.scheme what) l.segments)
    (hl : l.Legible) (hbare : l.endsBare = true) (hquestion : '?' ∉ l.scheme.toList)
    (hcreate : Keyed.get? "create" place.node.methods = some (.create none))
    (hid : place.node.hasMethod "by_id" = true) (hno : place.node.isNamespace = false)
    (hmember : place.node.itemNode a.catalog = .ok member) :
    ∃ mid, Shelf a uri place mid member := by
  have hlocate : a.locate l = .ok (.ok place) := (resolve_of_read hread).symm.trans hplace
  obtain ⟨what, mid, hwhat, hmid, hstraight, hbelow⟩ := locate_unasked hd hlocate
  obtain ⟨hsteps, hin, collection, hcollection⟩ := exists_uri_of_locate hread hl hd hlocate
  have hw := writable_of_legible hread hl
  have hbase : withoutQuery collection = String.ofList (canonicalText l.scheme l.stem) :=
    Cursor.withoutQuery_uri hin hsteps (question_not_mem_canonicalText hw.each hquestion) hcollection
  obtain ⟨⟨head, before⟩, hlast⟩ := Option.isSome_iff_exists.mp hbare
  have hmethod : place.node.hasMethod "by_id" = mid.node.hasMethod "by_id" :=
    hbelow.hasMethod_eq (by decide)
  have hkeys : ∃ others, place.node.memberKeys = "id" :: others := by
    refine ⟨_, congrArg (List.map Prod.snd) (List.filter_cons_of_pos ?_)⟩
    exact hid
  have hheads : ∀ t ∈ l.stem, '[' ∉ t.head.toList := by
    intro t ht
    obtain ⟨segment, hsegment, rfl⟩ := List.mem_map.mp ht
    rw [head_unasked]
    exact (hl.heads segment hsegment).2
  refine ⟨mid, hplace, hcreate, hkeys, hbelow.near,
    walk_unbracketed hstraight (show Cursor.Unbracketed (.root _ _ _) from trivial) hheads hmid,
    collection, hcollection, fun hx => ?_⟩
  rw [addressBehind, hbase, ← String.ofList_append]
  exact resolve_identified (readableScheme_of_read hread) hwhat hw hlast hstraight hmid
    (hbelow.isNamespace_eq ▸ hno) (hmethod ▸ hid) (hbelow.itemNode_eq ▸ hmember) hx

/-- The member of an identifier that a series generated is the one that it made. -/
theorem raw_memberOfId {mid : Standing} {member : Node} {items properties : List Value}
    {there : Position}
    (hnew : ∀ p ∈ properties, Unidentified p) (hplain : ∀ item ∈ items, PlainId item)
    (hroom : nextId items + properties.length ≤ 10 ^ Numeral.maxDigits)
    (hthere : mid.cursor.position? s = .ok (some there))
    (hlist : there.read s = .list (items ++ identifiedEach items properties)) {j : Nat}
    {given : Value} (hgiven : properties[j]? = some given) :
    (memberOfId mid member (nextId items + j)).cursor.raw s =
      .ok (given.withEntry "id" (.int (nextId items + j))) := by
  have hj : j < properties.length := (List.getElem?_eq_some_iff.mp hgiven).1
  have hplace : (Selector.id (.int (nextId items + j))).place? (there.read s) =
      .ok (some (.index (items.length + j))) := by
    rw [hlist]
    exact Selector.place_eq_ok.mpr (findMember_identifiedEach hnew hplain hroom hj)
  have hposition : (memberOfId mid member (nextId items + j)).cursor.position? s =
      .ok (some (there.inside (.index (items.length + j)))) :=
    Cursor.position_child Selector.noConfusion hthere hplace _ _
  have hmade : identified (items ++ (identifiedEach items properties).take j) given =
      given.withEntry "id" (.int (nextId items + j)) := by
    rw [identified, nextId_identifiedEach items hnew (Nat.le_of_lt hj)]
  rw [Cursor.raw_of_position hposition, Position.read_inside (by rw [hlist]; rfl),
    List.getElem?_append_right (Nat.le_add_right _ _), Nat.add_sub_cancel_left,
    identifiedEach_getElem? hgiven, hmade]
  rfl

namespace Shelf

variable {uri : String} {place : Specifier} {mid : Standing} {member : Node} {items : List Value}
  {there : Position}

/-- A call that makes a member puts it at the end of the list, with the identifier that is next. -/
theorem call_make (h : Shelf a uri place mid member) {given properties : Value}
    (hmakes : Makes uri given properties) (hnew : Unidentified properties)
    (hthere : mid.cursor.position? s = .ok (some there)) (hlist : there.read s = .list items)
    (hroom : (nextId items).natAbs < 10 ^ Numeral.maxDigits) :
    ∃ own, Tool.make.call a given s =
        (madeAt own, there.modify s (appendMember (identified items properties))) ∧
      a.resolve own = .ok (.ok (memberOfId mid member (nextId items))) := by
  obtain ⟨entries, hentries, hcollection, hproperties⟩ := hmakes
  obtain ⟨collection, huri, hmembers⟩ := h.members
  obtain ⟨others, hkeys⟩ := h.keys
  obtain ⟨x, hx, htext⟩ := exists_intString hroom
  obtain ⟨hresolve, own, hown, hsettled⟩ := hmembers htext
  have hpiece : pieceOf (identified items properties) items.length place.node.memberKeys =
      .ok (some (.text x)) := by
    rw [hkeys, pieceOf, if_neg (by decide), hnew.member_identified, hx]
    rfl
  obtain ⟨made, hmade, hmember⟩ := hnew.memberOf_eq items
  have hcreated : place.create a none properties s =
      (a.resolve (addressBehind collection (.text x)),
        there.modify s (appendMember (identified items properties))) :=
    Specifier.create_added (registered_of_resolve h.resolves)
      ⟨(h.near.position s).symm.trans hthere, hlist, ⟨made, hmade, hmember.symm⟩, rfl,
        collection, .text x, huri, hpiece, rfl⟩
  refine ⟨own, ?_, hsettled⟩
  rw [Tool.call_make hentries hcollection h.resolves h.creates hproperties, answering, hcreated,
    hresolve]
  dsimp only
  rw [withUri, hown]
  rfl

/-- A series of calls makes its members in turn and leaves the collection where it is, by induction
along the calls: each finds the list with the members of those before it. -/
theorem callEach_make (h : Shelf a uri place mid member) {calls properties : List Value}
    (hmakes : List.Forall₂ (Makes uri) calls properties)
    (hnew : ∀ p ∈ properties, Unidentified p)
    (hthere : mid.cursor.position? s = .ok (some there)) (hlist : there.read s = .list items)
    (hroom : nextId items + properties.length ≤ 10 ^ Numeral.maxDigits) :
    ∃ (owns : List String) (t : Store), Tool.make.callEach a calls s = (owns.map madeAt, t) ∧
      owns.length = properties.length ∧
      (∀ (j : ℕ) (own : String), owns[j]? = some own →
        a.resolve own = .ok (.ok (memberOfId mid member (nextId items + j)))) ∧
      mid.cursor.position? t = .ok (some there) ∧
      there.read t = .list (items ++ identifiedEach items properties) := by
  induction hmakes generalizing s items with
  | nil =>
    refine ⟨[], s, rfl, rfl, fun j own hown => (nomatch hown), hthere, ?_⟩
    rw [hlist, identifiedEach, List.append_nil]
  | @cons given first calls rest hgiven hrest ih =>
    have hfirst : Unidentified first := hnew first List.mem_cons_self
    have hnext : nextId (items ++ [identified items first]) = nextId items + 1 :=
      nextId_concat (by rw [integerId?, hfirst.member_identified])
    have hcount : (nextId items + (0 : ℕ)).natAbs < 10 ^ Numeral.maxDigits :=
      natAbs_nextId_lt hroom (Nat.zero_lt_succ rest.length)
    obtain ⟨own, hcall, hresolve⟩ :=
      h.call_make hgiven hfirst hthere hlist (by rwa [Nat.cast_zero, add_zero] at hcount)
    obtain ⟨hstay, hlisted⟩ := h.steady.appended hthere hlist (identified items first)
    have hroomLeft : nextId (items ++ [identified items first]) + rest.length ≤
        10 ^ Numeral.maxDigits := by
      rw [List.length_cons, Nat.cast_succ] at hroom
      rw [hnext]
      generalize Numeral.maxDigits = digits at hroom ⊢
      omega
    obtain ⟨owns, t, hcalls, hlength, hresolves, hlast, hlistedLast⟩ :=
      ih (fun p hp => hnew p (List.mem_cons_of_mem first hp)) hstay hlisted hroomLeft
    refine ⟨own :: owns, t, ?_, congrArg (· + 1) hlength, fun j other hother => ?_, hlast, ?_⟩
    · rw [callEach, hcall, hcalls]
      rfl
    · cases j with
      | zero =>
        obtain rfl := Option.some.inj hother
        rw [Nat.cast_zero, add_zero]
        exact hresolve
      | succ j =>
        rw [hresolves j other hother, hnext, Nat.cast_succ, add_assoc, add_comm 1]
    · rw [hlistedLast, identifiedEach, List.append_assoc, List.singleton_append]

end Shelf

/-- Calls that make members of one collection without identifiers all succeed, and their addresses are
distinct. After all of them each address resolves to its member: the properties that were given, with
an identifier that is at least 1000 and above every integer identifier that was there. The members from
before stand where they stood, and the new ones in turn behind them. The collection selects members by
identifier, its address takes no computed way, is in plain words that stay the same without their
queries and ends in a bare one, and the identifiers of its members are plain. -/
theorem callEach_make_lasting {uri : String} {l : Location} {place : Specifier} {member : Node}
    {items calls properties : List Value} (hread : Address.read uri = .ok (.ok l))
    (hplace : a.resolve uri = .ok (.ok place))
    (hd : ∀ what, Keyed.get? l.scheme a.registry.schemes = some what →
      a.Straight (a.start l.scheme what) l.segments)
    (hl : l.Legible) (hbare : l.endsBare = true) (hquestion : '?' ∉ l.scheme.toList)
    (hcreate : Keyed.get? "create" place.node.methods = some (.create none))
    (hid : place.node.hasMethod "by_id" = true) (hno : place.node.isNamespace = false)
    (hmember : place.node.itemNode a.catalog = .ok member)
    (hlist : place.cursor.raw s = .ok (.list items)) (hplain : ∀ item ∈ items, PlainId item)
    (hmakes : List.Forall₂ (Makes uri) calls properties)
    (hnew : ∀ p ∈ properties, Unidentified p)
    (hroom : nextId items + calls.length ≤ 10 ^ Numeral.maxDigits) :
    ∃ (owns : List String) (t : Store), Tool.make.callEach a calls s = (owns.map madeAt, t) ∧
      owns.length = calls.length ∧ owns.Nodup ∧
      place.cursor.raw t = .ok (.list (items ++ identifiedEach items properties)) ∧
      ∀ j own given, owns[j]? = some own → properties[j]? = some given →
        ∃ seen n, a.resolve own = .ok (.ok seen) ∧
          seen.cursor.raw t = .ok (given.withEntry "id" (.int n)) ∧ 1000 ≤ n ∧
          ∀ item ∈ items ++ (identifiedEach items properties).take j, ∀ m,
            integerId? item = some m → m < n := by
  obtain ⟨mid, hshelf⟩ := exists_shelf hread hplace hd hl hbare hquestion hcreate hid hno hmember
  obtain ⟨there, hthere, hitems⟩ := Cursor.position_of_sequence hlist rfl
  have hmid : mid.cursor.position? s = .ok (some there) := (hshelf.near.position s).trans hthere
  have hlength := hmakes.length_eq
  rw [hlength] at hroom
  obtain ⟨owns, t, hcalls, hcount, hresolves, hstay, hlisted⟩ :=
    hshelf.callEach_make hmakes hnew hmid hitems hroom
  refine ⟨owns, t, hcalls, hcount.trans hlength.symm, ?_, ?_, fun j own given hown hgiven => ?_⟩
  · refine List.nodup_iff_getElem?_ne_getElem?.mpr fun i j hij hj hsame => ?_
    have hown := List.getElem?_eq_getElem hj
    have hequal := (hresolves i _ (hsame.trans hown)).symm.trans (hresolves j _ hown)
    have hids := memberOfId_inj (Except.ok.inj (Except.ok.inj hequal))
    omega
  · rw [← hshelf.near.raw_eq, Cursor.raw_of_position hstay, hlisted]
  · have hj : j < properties.length := (List.getElem?_eq_some_iff.mp hgiven).1
    have hnext := nextId_identifiedEach items hnew (Nat.le_of_lt hj)
    have hfirst := firstGeneratedId_le_nextId items
    refine ⟨_, _, hresolves j own hown, raw_memberOfId hnew hplain hroom hstay hlisted hgiven, ?_,
      fun item hitem m hm => ?_⟩
    · exact hfirst.trans (Int.le_add_of_nonneg_right (Int.natCast_nonneg j))
    · rw [← hnext]
      exact lt_nextId hitem hm

/-- The nodes of boxes that are selected by name or identifier, with notes in them that are selected by
identifier and can be added to. -/
def boxNodes : List Node :=
  [Node.gathering [("boxes", 1)],
    { Node.plain .collection .members with
      item := some (.node 2)
      methods := [("by_id", .byId (.node 2)), ("by_name", .byName (.node 2))] ++ Node.queryMethods },
    Node.gathering [("name", 3), ("notes", 4)],
    Node.leaf (some .text),
    { Node.plain .collection .members with
      item := some (.node 5)
      methods := [("by_id", .byId (.node 5))] ++ Node.queryMethods ++ [("create", .create none)] },
    Node.gathering [("title", 3)]]

/-- Boxes with notes under a scheme. -/
def boxes : Atlas where
  catalog := ⟨boxNodes.toArray⟩
  registry := ⟨[("s", ⟨0, 0⟩)], false⟩

/-- Boxes are reached by no computed way. -/
theorem boxes_direct : boxes.catalog.Direct :=
  Catalog.forall_node (p := fun n => n.landing = none) rfl (by
    intro n hn
    simp only [boxNodes, List.mem_cons, List.not_mem_nil, or_false] at hn
    rcases hn with rfl | rfl | rfl | rfl | rfl | rfl <;> rfl)

/-- A box of an identifier and a name with notes in it. -/
def box (id : Int) (name : String) (notes : List Value) : Value :=
  .mapping [("id", .int id), ("name", .text name), ("notes", .list notes)]

/-- A note without an identifier. -/
def note (title : String) : Value :=
  .mapping [("title", .text title)]

/-- A store with a box of a name, and one that is named as the first is identified. -/
def boxStore (notes : List Value) : Store :=
  ⟨#[.mapping [("boxes", .list [box 5 "A" [], box 6 "5" notes])]]⟩

/-- The boxes, with a query asked of them. -/
def boxesAsked (q : Query.State) : Cursor :=
  ((Cursor.atRoot 0 "s").property "boxes").withQuery q

/-- The notes of a box. -/
def notesOf (box : Cursor) : Specifier :=
  ⟨box.property "notes", boxes.catalog.node 4, true⟩

/-- The notes of a box lie in the box that is selected. -/
theorem position_notesOf {q : Query.State} {selector : Selector} (hs : selector ≠ .same)
    {notes : List Value} {i : Nat} (hi : i = 0 ∨ i = 1)
    (h : selector.place? (.list [box 5 "A" [], box 6 "5" notes]) = .ok (some (.index i)))
    (step : Step) :
    (notesOf ((boxesAsked q).entered selector step)).cursor.position? (boxStore notes) =
      .ok (some ⟨.document 0, [.key "boxes", .index i, .key "notes"]⟩) := by
  have hboxes : (boxesAsked q).position? (boxStore notes) =
      .ok (some ⟨.document 0, [.key "boxes"]⟩) := rfl
  have hread : Position.read (boxStore notes) ⟨.document 0, [.key "boxes"]⟩ =
      .list [box 5 "A" [], box 6 "5" notes] := rfl
  have hbox : ((boxesAsked q).entered selector step).position? (boxStore notes) =
      .ok (some ⟨.document 0, [.key "boxes", .index i]⟩) :=
    Cursor.position_child hs hboxes (hread ▸ h) step .empty
  refine Cursor.position_child Selector.noConfusion hbox ?_ _ _
  rcases hi with rfl | rfl <;> rfl

/-- The arguments that make a note in the notes of an address. -/
def noteArguments (collection title : String) : Value :=
  .mapping [("collection", .text collection), ("properties", note title)]

/-- Such arguments ask for that note. -/
theorem makes_note (collection title : String) :
    Makes collection (noteArguments collection title) (note title) :=
  ⟨_, rfl, rfl, rfl⟩

/-- A note gets an identifier. -/
theorem unidentified_note (title : String) : Unidentified (note title) :=
  ⟨[(.text "title", .text title)], rfl, rfl⟩

/-- A note with an identifier. -/
def keptNote (title : String) (id : Int) : Value :=
  .mapping [("title", .text title), ("id", .int id)]

/-- Two notes that are made in a box get identifiers in turn, and their addresses lead to them. -/
theorem callEach_make_lasting_notes :
    ∃ (owns : List String) (t : Store), Tool.make.callEach boxes
        [noteArguments "s://boxes/A/notes" "x", noteArguments "s://boxes/A/notes" "y"]
        (boxStore []) = (owns.map madeAt, t) ∧ owns.length = 2 ∧ owns.Nodup ∧
      (notesOf ((boxesAsked .empty).named (.text "A"))).cursor.raw t =
        .ok (.list [keptNote "x" 1000, keptNote "y" 1001]) ∧
      ∀ (j : ℕ) (own : String) (given : Value), owns[j]? = some own →
        [note "x", note "y"][j]? = some given → ∃ seen n, boxes.resolve own = .ok (.ok seen) ∧
          seen.cursor.raw t = .ok (Value.withEntry given "id" (.int n)) ∧ 1000 ≤ n := by
  have hread : Address.read "s://boxes/A/notes" =
      .ok (.ok ⟨"s", [⟨"boxes", none⟩, ⟨"A", none⟩, ⟨"notes", none⟩]⟩) := by
    decide +kernel
  have hlegible : Location.Legible ⟨"s", [⟨"boxes", none⟩, ⟨"A", none⟩, ⟨"notes", none⟩]⟩ := by
    refine ⟨fun segment hsegment => ?_, fun h => (nomatch h), fun _ => by decide, fun _ => by decide,
      trivial⟩
    simp only [List.mem_cons, List.not_mem_nil, or_false] at hsegment
    rcases hsegment with rfl | rfl | rfl <;> exact ⟨by decide, by decide⟩
  have hplace : boxes.resolve "s://boxes/A/notes" =
      .ok (.ok (notesOf ((boxesAsked .empty).named (.text "A")))) := by
    rw [resolve_of_read hread]
    rfl
  have hfind : findMember "name" (.text "A") [box 5 "A" [], box 6 "5" []] = .ok (some 0) := by
    decide +kernel
  have hlist : (notesOf ((boxesAsked .empty).named (.text "A"))).cursor.raw (boxStore []) =
      .ok (.list []) := by
    have hselect : (Selector.name (.text "A")).place? (.list [box 5 "A" [], box 6 "5" []]) =
        .ok (some (.index 0)) := Selector.place_eq_ok.mpr hfind
    exact Cursor.raw_of_position (position_notesOf Selector.noConfusion (.inl rfl) hselect _)
  have hroom : nextId [] + (2 : ℕ) ≤ 10 ^ Numeral.maxDigits :=
    le_trans (show nextId [] + (2 : ℕ) ≤ 10 ^ 4 by decide)
      (pow_le_pow_right₀ (by decide) (by decide))
  have hnew : ∀ p ∈ [note "x", note "y"], Unidentified p := by
    intro p hp
    simp only [List.mem_cons, List.not_mem_nil, or_false] at hp
    rcases hp with rfl | rfl <;> exact unidentified_note _
  obtain ⟨owns, t, hcalls, hlength, hnodup, hkept, hlasting⟩ :=
    callEach_make_lasting hread hplace (fun what _ => straight_of_direct boxes_direct _ _) hlegible rfl
      (by decide) rfl rfl rfl rfl hlist (fun item hitem => absurd hitem List.not_mem_nil)
      (.cons (makes_note _ "x") (.cons (makes_note _ "y") .nil)) hnew hroom
  refine ⟨owns, t, hcalls, hlength, hnodup, hkept, fun j own given hown hgiven => ?_⟩
  obtain ⟨seen, n, hresolve, hraw, hfirst, -⟩ := hlasting j own given hown hgiven
  exact ⟨seen, n, hresolve, hraw, hfirst⟩

/-- The note of the first generated identifier in the box of the first identifier. -/
def noteOfFirst : Specifier :=
  ⟨(notesOf ((boxesAsked .empty).identified (.int 5))).cursor.identified (.int 1000),
    boxes.catalog.node 5, true⟩

/-- A note that is made in a box whose name is the identifier of another box, with a query asked of the
boxes, is reported at an address without the query, where the name is read as an identifier: nothing is
there. -/
theorem callEach_make_astray :
    boxes.catalog.Direct ∧
    Address.read "s://boxes?limit=9/5/notes" = .ok (.ok ⟨"s",
      [⟨"boxes", some (.query ⟨[], none, some 9, none, []⟩)⟩, ⟨"5", none⟩, ⟨"notes", none⟩]⟩) ∧
    ∃ place t seen, boxes.resolve "s://boxes?limit=9/5/notes" = .ok (.ok place) ∧
      Keyed.get? "create" place.node.methods = some (.create none) ∧
      place.node.hasMethod "by_id" = true ∧ place.cursor.raw (boxStore []) = .ok (.list []) ∧
      Tool.make.callEach boxes [noteArguments "s://boxes?limit=9/5/notes" "x"] (boxStore []) =
        ([madeAt "s://boxes/5/notes/1000"], t) ∧
      boxes.resolve "s://boxes/5/notes/1000" = .ok (.ok seen) ∧ seen.cursor.raw t = .ok .null := by
  have hread : Address.read "s://boxes?limit=9/5/notes" = .ok (.ok ⟨"s",
      [⟨"boxes", some (.query ⟨[], none, some 9, none, []⟩)⟩, ⟨"5", none⟩, ⟨"notes", none⟩]⟩) := by
    decide +kernel
  let q : Query.State := (⟨[], none, some 9, none, []⟩ : Request).apply .empty
  have hplace : boxes.resolve "s://boxes?limit=9/5/notes" =
      .ok (.ok (notesOf ((boxesAsked q).named (.text "5")))) := by
    rw [resolve_of_read hread]
    rfl
  have hseen : boxes.resolve "s://boxes/5/notes/1000" = .ok (.ok noteOfFirst) := by
    rw [resolve_of_read (l := ⟨"s", [⟨"boxes", some (.id 5)⟩, ⟨"notes", some (.id 1000)⟩]⟩)
      (by decide +kernel)]
    rfl
  have hnamed : (Selector.name (.text "5")).place? (.list [box 5 "A" [], box 6 "5" []]) =
      .ok (some (.index 1)) :=
    Selector.place_eq_ok.mpr (by decide +kernel)
  have hidentified : (Selector.id (.int 5)).place? (.list [box 5 "A" [], box 6 "5"
      [keptNote "x" 1000]]) = .ok (some (.index 0)) :=
    Selector.place_eq_ok.mpr (by decide +kernel)
  have hposition : (notesOf ((boxesAsked q).named (.text "5"))).cursor.position? (boxStore []) =
      .ok (some ⟨.document 0, [.key "boxes", .index 1, .key "notes"]⟩) :=
    position_notesOf Selector.noConfusion (.inr rfl) hnamed _
  have hcreate : (notesOf ((boxesAsked q).named (.text "5"))).create boxes none (note "x")
      (boxStore []) =
        (boxes.resolve "s://boxes/5/notes/1000", boxStore [keptNote "x" 1000]) :=
    Specifier.create_added rfl ⟨hposition, rfl, ⟨_, rfl, rfl⟩, rfl, _, .text "1000", rfl, rfl, rfl⟩
  have hmake : Tool.make.call boxes (noteArguments "s://boxes?limit=9/5/notes" "x") (boxStore []) =
      (madeAt "s://boxes/5/notes/1000", boxStore [keptNote "x" 1000]) := by
    have hcall : Tool.make.call boxes (noteArguments "s://boxes?limit=9/5/notes" "x")
        (boxStore []) = answering (withUri [])
          ((notesOf ((boxesAsked q).named (.text "5"))).create boxes none (note "x")) (boxStore []) :=
      Tool.call_make rfl rfl hplace rfl rfl
    rw [hcall, answering, hcreate, hseen]
    rfl
  have hnull : noteOfFirst.cursor.raw (boxStore [keptNote "x" 1000]) = .ok .null := by
    have hfirst := position_notesOf (q := .empty) Selector.noConfusion (.inl rfl) hidentified
      (.id (.int 5))
    exact Cursor.raw_of_nowhere (bind_eq_ok.mpr ⟨_, hfirst, rfl⟩)
  refine ⟨boxes_direct, hread, _, _, _, hplace, rfl, rfl, Cursor.raw_of_position hposition, ?_, hseen,
    hnull⟩
  rw [callEach, hmake]
  rfl

end Tool

end ResourceAtlas

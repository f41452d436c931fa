import ResourceAtlas.Proofs.Registry.Onward
import ResourceAtlas.Proofs.Store.Assign
import ResourceAtlas.Proofs.Store.Insert
import ResourceAtlas.Proofs.Tool.Handle
import ResourceAtlas.Proofs.Tool.Make

/-!
# What a failed call leaves behind

A call that fails with a problem leaves the store as it was, with one exception: a creation or a move
was made, and the address that it reports leads nowhere. The address is that of the collection with
the member's piece behind it. Where the collection is addressed in plain words and takes no computed
way, a plain piece leads nowhere only if it is a position and the address of the collection cannot
take one.
-/

namespace ResourceAtlas

open Address Atlas Schema Store Text

variable {a : Atlas} {s t : Store} {problem : Problem}

/-- A member was put into a collection, created there or moved there, and the address that is reported
for it, the collection's with the member's piece behind it, leads nowhere. -/
structure Specifier.Stranded (a : Atlas) (place : Specifier) (s t : Store) (uri : String)
    (piece : Piece) (problem : Problem) : Prop where
  /-- The change was made. -/
  made : (∃ properties others new there,
      Cursor.Added place.cursor properties place.node.memberKeys s uri t others new there) ∨
    ∃ item m there, Cursor.Planned item place.cursor place.node.memberKeys s uri t m there
  /-- The address is made by the keys of the collection. -/
  address : ∃ collection item index, place.uri = .ok collection ∧
    pieceOf item index place.node.memberKeys = .ok (some piece) ∧
    uri = addressBehind collection piece
  /-- It leads nowhere. -/
  astray : a.resolve uri = .ok (.error problem)

/-- A planned change that fails is not made. -/
theorem Cursor.Plan.run_problem {plan : Cursor.Plan}
    (h : plan.run s = (.ok (.error problem), t)) : t = s := by
  unfold run at h
  split at h
  · exact (Prod.mk.inj h).2.symm
  · exact (Prod.mk.inj h).2.symm
  · exact (nomatch h)

namespace Specifier

/-- A handler changes nothing, and a change that it stands in for is the one that fails. -/
theorem handled_eq {handler : Option Handler} {change : Action (Verdict String)}
    {result : Outcome (Verdict String)} (h : handled handler change s = (result, t)) :
    t = s ∨ change s = (result, t) := by
  cases handler with
  | some handler => exact .inl (Prod.mk.inj h).2.symm
  | none => exact .inr h

/-- A change whose address is looked up fails as the change does, or because the address leads
nowhere. -/
theorem followed_problem {spec : Specifier} {before : Outcome Unit}
    {change : Action (Verdict String)}
    (h : spec.followed a before change s = (.ok (.error problem), t)) :
    change s = (.ok (.error problem), t) ∨
      ∃ uri, change s = (.ok (.ok uri), t) ∧ spec.lookUp a uri = .ok (.error problem) := by
  unfold followed at h
  split at h
  · exact (nomatch h)
  · next p u hchange =>
    obtain ⟨hproblem, rfl⟩ := Prod.mk.inj h
    obtain rfl := Except.error.inj (Except.ok.inj hproblem)
    exact .inl hchange
  · next uri u hchange =>
    obtain ⟨hresult, rfl⟩ := Prod.mk.inj h
    obtain ⟨-, -, hlook⟩ := bind_eq_ok.mp hresult
    exact .inr ⟨uri, hchange, hlook⟩

/-- A removal that fails changes nothing. -/
theorem delete_problem {spec : Specifier} {handler : Option Handler}
    (h : spec.delete handler s = (.ok (.error problem), t)) : t = s := by
  rcases handled_eq h with rfl | hchange
  · rfl
  · exact Cursor.Plan.run_problem hchange

/-- A creation that fails changes nothing, unless the address of the new member leads nowhere. -/
theorem create_problem {spec : Specifier} (hregistered : spec.registered = true)
    {handler : Option Handler} {properties : Value}
    (h : spec.create a handler properties s = (.ok (.error problem), t)) :
    t = s ∨ ∃ uri piece, spec.Stranded a s t uri piece problem := by
  rcases followed_problem h with hchange | ⟨uri, hchange, hlook⟩
  · rcases handled_eq hchange with rfl | hchange
    · exact .inl rfl
    · exact .inl (Cursor.Plan.run_problem hchange)
  · rcases handled_eq hchange with rfl | hchange
    · exact .inl rfl
    · obtain ⟨others, new, there, hadded⟩ :=
        Cursor.planInsert_ok_iff.mp (Cursor.Plan.run_ok hchange)
      obtain ⟨collection, piece, huri, hpiece, haddress⟩ := hadded.address
      rw [lookUp, if_pos hregistered] at hlook
      exact .inr ⟨uri, piece, .inl ⟨properties, others, new, there, hadded⟩,
        ⟨collection, new, others.length, huri, hpiece, haddress⟩, hlook⟩

/-- A move that fails changes nothing, unless the address of the member at its destination leads
nowhere. -/
theorem move_problem {spec destination : Specifier} (hregistered : spec.registered = true)
    {handler : Option Handler}
    (h : spec.move a handler destination s = (.ok (.error problem), t)) :
    t = s ∨ ∃ uri piece, destination.Stranded a s t uri piece problem := by
  rcases followed_problem h with hchange | ⟨uri, hchange, hlook⟩
  · rcases handled_eq hchange with rfl | hchange
    · exact .inl rfl
    · exact .inl (Cursor.Plan.run_problem hchange)
  · rcases handled_eq hchange with rfl | hchange
    · exact .inl rfl
    · obtain ⟨m, there, hplanned⟩ := Cursor.planRelocate_ok (Cursor.Plan.run_ok hchange)
      obtain ⟨items, collection, answer, -, huri, hanswer, haddress⟩ := hplanned.address
      obtain ⟨_, index, _, hpossible⟩ := hplanned.possible
      -- The member had a piece at another index, so it has one where it is put.
      rw [memberUri_eq] at hanswer hpossible
      obtain ⟨found, hfound, hsome⟩ := map_eq_ok.mp hpossible
      obtain ⟨possible, rfl, -⟩ := Option.map_eq_some_iff.mp hsome
      obtain ⟨piece, hpiece⟩ := pieceOf_isSome hfound
        (if Cursor.samePosition m.list there then items.length - 1 else items.length)
      rw [hpiece] at hanswer
      obtain rfl := Except.ok.inj hanswer
      rw [lookUp, if_pos hregistered] at hlook
      exact .inr ⟨uri, piece, .inr ⟨spec.cursor, m, there, hplanned⟩,
        ⟨collection, m.item, _, huri, hpiece, haddress⟩, hlook⟩

/-- A call that answers with a problem instead of an address changes nothing. -/
theorem call_address_problem {spec : Specifier} {name : String} {arguments : List Value}
    (h : spec.call a name arguments s = (.ok (.address (.error problem)), t)) : t = s := by
  unfold call at h
  split at h
  · exact (Prod.mk.inj h).2.symm
  · exact (Prod.mk.inj h).2.symm
  · exact (Prod.mk.inj h).2.symm
  · split at h
    · obtain ⟨hresult, rfl⟩ := Prod.mk.inj h
      obtain ⟨verdict, hverdict, hanswer⟩ := map_eq_ok.mp hresult
      obtain rfl := Answer.address.inj hanswer
      exact set_problem (Prod.ext hverdict rfl)
    · obtain ⟨hresult, rfl⟩ := Prod.mk.inj h
      obtain ⟨verdict, hverdict, hanswer⟩ := map_eq_ok.mp hresult
      obtain rfl := Answer.address.inj hanswer
      exact delete_problem (Prod.ext hverdict rfl)
    · obtain ⟨hresult, -⟩ := Prod.mk.inj h
      obtain ⟨verdict, -, hanswer⟩ := map_eq_ok.mp hresult
      exact (nomatch hanswer)
    · exact (Prod.mk.inj h).2.symm

/-- A call that answers with a problem instead of a location changes nothing, unless it makes a member
whose address leads nowhere. -/
theorem call_location_problem {spec : Specifier} (hregistered : spec.registered = true)
    {name : String} {arguments : List Value}
    (h : spec.call a name arguments s = (.ok (.location (.error problem)), t)) :
    t = s ∨ ∃ uri piece, spec.Stranded a s t uri piece problem := by
  unfold call at h
  split at h
  · exact .inl (Prod.mk.inj h).2.symm
  · exact .inl (Prod.mk.inj h).2.symm
  · exact .inl (Prod.mk.inj h).2.symm
  · split at h
    · obtain ⟨hresult, -⟩ := Prod.mk.inj h
      obtain ⟨verdict, -, hanswer⟩ := map_eq_ok.mp hresult
      exact (nomatch hanswer)
    · obtain ⟨hresult, -⟩ := Prod.mk.inj h
      obtain ⟨verdict, -, hanswer⟩ := map_eq_ok.mp hresult
      exact (nomatch hanswer)
    · obtain ⟨hresult, rfl⟩ := Prod.mk.inj h
      obtain ⟨verdict, hverdict, hanswer⟩ := map_eq_ok.mp hresult
      obtain rfl := Answer.location.inj hanswer
      exact create_problem hregistered (Prod.ext hverdict rfl)
    · exact .inl (Prod.mk.inj h).2.symm

/-- Calling the move of a specifier fails without a change, unless the address of the member at its
destination leads nowhere. -/
theorem callMove_problem {spec destination : Specifier} (hregistered : spec.registered = true)
    (h : spec.callMove a destination s = (.ok (.location (.error problem)), t)) :
    t = s ∨ ∃ uri piece, destination.Stranded a s t uri piece problem := by
  unfold callMove at h
  split at h
  · obtain ⟨hresult, rfl⟩ := Prod.mk.inj h
    obtain ⟨verdict, hverdict, hanswer⟩ := map_eq_ok.mp hresult
    obtain rfl := Answer.location.inj hanswer
    exact move_problem hregistered (Prod.ext hverdict rfl)
  · exact .inl (Prod.mk.inj h).2.symm
  · exact .inl (Prod.mk.inj h).2.symm

/-- A plain piece that leads nowhere is a position that the address of the collection cannot take, where
that address is in plain words and no way is computed. -/
theorem Stranded.position {place : Specifier} {piece : Piece} {reported : String}
    (h : place.Stranded a s t reported piece problem) {uri : String} {l : Location}
    (hread : Address.read uri = .ok (.ok l)) (hplace : a.resolve uri = .ok (.ok place)) (hd : a.catalog.Direct)
    (hown : ∀ id, (a.catalog.node id).SelectsOwn) (hl : l.Legible)
    (hquestion : '?' ∉ l.scheme.toList) (hplain : piece.Plain) :
    l.endsBare = false ∧ ∃ i, piece = .position i := by
  obtain ⟨collection, item, index, huri, hpiece, rfl⟩ := h.address
  have hresolve := h.astray
  have hlocate : a.locate l = .ok (.ok place) := (resolve_of_read hread).symm.trans hplace
  obtain ⟨what, mid, hwhat, hmid, hstraight, hbelow⟩ :=
    locate_unasked (fun what _ => straight_of_direct hd _ _) hlocate
  have hw := writable_of_legible hread hl
  obtain ⟨htext, hin, -⟩ := walk_canonical hstraight hw.each hw.steps hmid
  have hbase : withoutQuery collection = String.ofList (canonicalText l.scheme l.stem) :=
    Cursor.withoutQuery_uri (hbelow.near.outside.symm.trans hin) (hbelow.near.steps ▸ htext)
      (question_not_mem_canonicalText hw.each hquestion) huri
  rw [addressBehind, hbase, ← String.ofList_append] at hresolve
  rw [hbelow.memberKeys_eq] at hpiece
  have hselects := walk_everywhere (Catalog.everywhere_selectsOwn hown) hstraight (hown _) hmid
  -- A piece that the address can take leads somewhere.
  have hno : ¬ ∀ i, piece = .position i → l.endsBare = true := fun hbare =>
    resolve_behind_found (readableScheme_of_read hread) hwhat hw hmid
      (fun head => straightBy_of_direct hd mid head) hselects hin hplain hpiece hbare problem hresolve
  obtain ⟨i, hi⟩ := not_forall.mp hno
  obtain ⟨rfl, hbare⟩ := Classical.not_imp.mp hi
  exact ⟨Bool.eq_false_iff.mpr hbare, i, rfl⟩

end Specifier

namespace Tool

/-- The argument that gives the collection that a member is put into. -/
def collectionArgument? : Tool → Option String
  | make => some "collection"
  | move => some "destination"
  | _ => none

/-- What goes on with a specifier fails where none is found, or as it goes on. -/
theorem onSpecifier_problem {α : Type} {found : Outcome (Verdict Specifier)}
    {next : Specifier → Action (Verdict α)}
    (h : onSpecifier found next s = (.ok (.error problem), t)) :
    t = s ∨ ∃ spec, found = .ok (.ok spec) ∧ next spec s = (.ok (.error problem), t) := by
  unfold onSpecifier at h
  split at h
  · exact (nomatch h)
  · exact .inl (Prod.mk.inj h).2.symm
  · next spec => exact .inr ⟨spec, rfl, h⟩

/-- An action whose answer is shaped fails as it does. -/
theorem answering_problem {α : Type} {shape : α → Outcome Value} {change : Action (Verdict α)}
    (h : answering shape change s = (.ok (.error problem), t)) :
    change s = (.ok (.error problem), t) := by
  unfold answering at h
  split at h
  · exact (nomatch h)
  · next p u hchange =>
    obtain ⟨hproblem, rfl⟩ := Prod.mk.inj h
    obtain rfl := Except.error.inj (Except.ok.inj hproblem)
    exact hchange
  · obtain ⟨hshape, -⟩ := Prod.mk.inj h
    obtain ⟨v, -, hok⟩ := map_eq_ok.mp hshape
    exact (nomatch hok)

/-- A method that answers with an address and fails changes nothing. -/
theorem callAddress_problem {spec : Specifier} {name : String} {arguments : List Value}
    (h : callAddress a spec name arguments s = (.ok (.error problem), t)) : t = s := by
  unfold callAddress at h
  split at h
  · next v u hcall =>
    obtain ⟨hproblem, rfl⟩ := Prod.mk.inj h
    obtain rfl := Except.ok.inj hproblem
    exact Specifier.call_address_problem hcall
  · exact (nomatch h)
  · exact (nomatch h)

/-- A tool that fails with its arguments changes nothing, unless it puts a member into a collection
where the member's address leads nowhere. -/
theorem run_problem {tool : Tool} {entries : Keyed Value}
    (h : tool.run a entries s = (.ok (.error problem), t)) :
    t = s ∨ ∃ name uri place reported piece, tool.collectionArgument? = some name ∧
      argument entries name = .text uri ∧ a.resolve uri = .ok (.ok place) ∧
      place.Stranded a s t reported piece problem := by
  unfold run at h
  cases tool with
  | set =>
    rcases onSpecifier_problem h with rfl | ⟨spec, -, h⟩
    · exact .inl rfl
    · exact .inl (callAddress_problem (answering_problem h))
  | delete =>
    rcases onSpecifier_problem h with rfl | ⟨spec, -, h⟩
    · exact .inl rfl
    · exact .inl (callAddress_problem (answering_problem h))
  | make =>
    rcases onSpecifier_problem h with rfl | ⟨place, hplace, h⟩
    · exact .inl rfl
    · split at h
      · exact (nomatch h)
      · obtain ⟨uri, huri, hresolve⟩ := resolveWith_ok hplace
        have hcall := callLocation_ok (answering_problem h)
        rcases Specifier.call_location_problem (registered_of_resolve hresolve) hcall with
          rfl | ⟨reported, piece, hstranded⟩
        · exact .inl rfl
        · exact .inr ⟨_, uri, place, reported, piece, rfl, huri, hresolve, hstranded⟩
  | move =>
    rcases onSpecifier_problem h with rfl | ⟨spec, hspec, h⟩
    · exact .inl rfl
    · rcases onSpecifier_problem h with rfl | ⟨place, hplace, h⟩
      · exact .inl rfl
      · obtain ⟨uri, huri, hresolve⟩ := bind_eq_ok.mp hplace
        obtain ⟨item, -, hitem⟩ := resolveWith_ok hspec
        have hcall := callLocation_ok (answering_problem h)
        rcases Specifier.callMove_problem (registered_of_resolve hitem) hcall with
          rfl | ⟨reported, piece, hstranded⟩
        · exact .inl rfl
        · exact .inr ⟨_, uri, place, reported, piece, rfl, addressOf_ok huri, hresolve, hstranded⟩

/-- A call that fails changes nothing, unless it puts a member into a collection where the member's
address leads nowhere. Where no way is computed and the collection is addressed in plain words, a plain
piece leads nowhere only if it is a position and the address of the collection ends in a segment that
has a qualifier, or at the root. -/
theorem call_problem {tool : Tool} {given : Value}
    (h : tool.call a given s = (.ok (.error problem), t)) :
    t = s ∨ ∃ entries name uri l place reported piece, argumentEntries given = .ok entries ∧
      tool.collectionArgument? = some name ∧ argument entries name = .text uri ∧
      Address.read uri = .ok (.ok l) ∧ a.resolve uri = .ok (.ok place) ∧
      place.Stranded a s t reported piece problem ∧
      (a.catalog.Direct → (∀ id, (a.catalog.node id).SelectsOwn) → l.Legible →
        '?' ∉ l.scheme.toList → piece.Plain → l.endsBare = false ∧ ∃ i, piece = .position i) := by
  unfold call at h
  dsimp only at h
  split at h
  · exact (nomatch h)
  · exact .inl (Prod.mk.inj h).2.symm
  · next hmissing =>
    split at h
    · exact (nomatch h)
    · next entries hentries =>
      rcases run_problem h with
        rfl | ⟨name, uri, place, reported, piece, hname, huri, hplace, hstranded⟩
      · exact .inl rfl
      · obtain ⟨l, hread, -⟩ := resolve_ok hplace
        have hgiven : argumentEntries given = .ok entries := by
          by_cases htruthy : given.isTruthy = true
          · rwa [if_pos htruthy] at hentries
          · -- Nothing is given, so that the collection is not either.
            rw [if_neg htruthy] at hentries
            obtain rfl := Except.ok.inj hentries
            exact (nomatch huri)
        exact .inr ⟨entries, name, uri, l, place, reported, piece, hgiven, hname, huri, hread, hplace,
          hstranded, fun hd hown hl hquestion hplain =>
            hstranded.position hread hplace hd hown hl hquestion hplain⟩

/-- The problem of a call that failed. -/
def problem? (result : Outcome (Verdict Value) × Store) : Option Problem :=
  match result with
  | (.ok (.error problem), _) => some problem
  | _ => none

/-- What failed has a problem and leaves a store. -/
theorem exists_of_problem? {result : Outcome (Verdict Value) × Store}
    (h : problem? result = some problem) : ∃ t, result = (.ok (.error problem), t) := by
  match result, h with
  | (.ok (.error p), t), h => exact ⟨t, by rw [Option.some.inj h]⟩

/-- A folder that is moved to a name stays where it is. -/
theorem call_problem_folders :
    Tool.move.call indexedFolders (.mapping (moveArguments "s://folders[0]" "s://folders[0]/name"))
      (folderStore [folder "A" []]) =
        (.ok (.error .destinationNotCollection), folderStore [folder "A" []]) := by
  have hrun : problem? (Tool.move.call indexedFolders
      (.mapping (moveArguments "s://folders[0]" "s://folders[0]/name"))
      (folderStore [folder "A" []])) = some .destinationNotCollection := by
    decide +kernel
  obtain ⟨t, h⟩ := exists_of_problem? hrun
  have hname : indexedFolders.resolve "s://folders[0]/name" = .ok (.ok
      ⟨(folderAt 0).cursor.property "name", indexedFolders.catalog.node 3, true⟩) := by
    rw [resolve_of_read (l := ⟨"s", [⟨"folders", some (.index 0)⟩, ⟨"name", none⟩]⟩)
      (by decide +kernel)]
    rfl
  rcases call_problem h with rfl | ⟨entries, name, uri, l, place, reported, piece, hentries, hargument,
    huri, -, hplace, hstranded, -⟩
  · exact h
  · obtain rfl := Except.ok.inj hentries
    obtain rfl := Option.some.inj hargument
    obtain rfl := Value.text.inj huri
    obtain rfl := Except.ok.inj (Except.ok.inj (hname.symm.trans hplace))
    -- A name is no list that a member could have been put into.
    have hlist : ∀ {there : Position} {items : List Value},
        ((folderAt 0).cursor.property "name").position? (folderStore [folder "A" []]) =
          .ok (some there) →
        there.read (folderStore [folder "A" []]) ≠ .list items := by
      intro there items hthere hitems
      obtain rfl := Option.some.inj (Except.ok.inj hthere)
      exact (nomatch hitems)
    rcases hstranded.made with ⟨_, others, _, there, hadded⟩ | ⟨_, m, there, hplanned⟩
    · exact absurd hadded.listed (hlist hadded.position)
    · obtain ⟨items, hitems⟩ := hplanned.listed
      exact absurd hitems (hlist hplanned.position)

/-- Books in a row, addressed by position, that more can be added to. -/
def bookRow : Atlas where
  catalog := ⟨#[
    { Node.plain .collection .members with
      item := some (.node 1)
      methods := [("by_index", .byIndex (.node 1))] ++ Node.queryMethods ++
        [("create", .create none)] },
    Node.gathering [("name", 2)],
    Node.leaf (some .text)]⟩
  registry := ⟨[("s", ⟨0, 0⟩)], false⟩

/-- A book of a name. -/
def book (name : String) : Value :=
  .mapping [("name", .text name)]

/-- Books in a row at the root. -/
def rowAtRoot : Specifier :=
  ⟨.atRoot 0 "s", bookRow.catalog.node 0, true⟩

/-- A book that is created in a row at the root is added although the call fails: the position in its
address is read as a name. -/
theorem call_make_at_root :
    Tool.make.call bookRow (.mapping [("collection", .text "s://"), ("properties", book "B")])
        ⟨#[.list [book "A"]]⟩ =
      (.ok (.error (.unknownSegment "" [])),
        ⟨#[.list [book "A", .mapping [("name", .text "B"), ("id", .int 1000)]]]⟩) := by
  have hroot : bookRow.resolve "s://" = .ok (.ok rowAtRoot) := by
    rw [resolve_of_read (l := ⟨"s", []⟩) (by decide +kernel)]
    rfl
  have hnew : bookRow.resolve "s://%5B1%5D" = .ok (.error (.unknownSegment "" [])) := by
    rw [resolve_of_read (l := ⟨"s", [⟨"", some (.index 1)⟩]⟩) (by decide +kernel)]
    rfl
  have hcreate : rowAtRoot.create bookRow none (book "B") ⟨#[.list [book "A"]]⟩ =
      (bookRow.resolve "s://%5B1%5D",
        ⟨#[.list [book "A", .mapping [("name", .text "B"), ("id", .int 1000)]]]⟩) := rfl
  have hmake : Tool.make.call bookRow
      (.mapping [("collection", .text "s://"), ("properties", book "B")]) ⟨#[.list [book "A"]]⟩ =
        answering (withUri []) (rowAtRoot.create bookRow none (book "B")) ⟨#[.list [book "A"]]⟩ :=
    call_make rfl rfl hroot rfl rfl
  rw [hmake, answering, hcreate, hnew]

end Tool

end ResourceAtlas

import ResourceAtlas.Proofs.Registry.Interchange
import ResourceAtlas.Proofs.Registry.Steady
import ResourceAtlas.Proofs.Store.Finding
import ResourceAtlas.Proofs.Store.Generated
import ResourceAtlas.Proofs.Tool.Handle
import ResourceAtlas.Proofs.Tool.Make

/-!
# What a creation hands back

A creation that succeeds hands back the specifier of the address that it made for the new member: the
address of the collection with the member's piece behind it. Putting the member at the end of the list
does not move the collection, so the handle is at the new member exactly if the piece stands for a
selector that picks it before all others. The piece prefers an identifier, while the address is
resolved by a name where names are accepted.
-/

namespace ResourceAtlas

open Address Atlas Schema Store Text

variable {a : Atlas} {s t : Store}

namespace Specifier

/-- A specifier is at the last member of a list in a document. -/
structure AtLast (t : Store) (list : Position) (others : List Value) (item : Value)
    (spec : Specifier) : Prop where
  /-- The list lies in a document. -/
  stored : list.spot?.isSome
  /-- The member is the last one of it. -/
  listed : list.read t = .list (others ++ [item])
  /-- The specifier is at its place. -/
  position : spec.cursor.position? t = .ok (some (list.inside (.index others.length)))

/-- What is at the last member of a list reads it. -/
theorem AtLast.raw_eq {list : Position} {others : List Value} {item : Value} {spec : Specifier}
    (h : spec.AtLast t list others item) : spec.cursor.raw t = .ok item := by
  have hitems : (list.read t).sequence? = some (others ++ [item]) := by
    rw [h.listed]
    rfl
  rw [Cursor.raw_of_position h.position, Position.read_inside hitems, List.getElem?_concat_length]
  rfl

/-- A creation that succeeded added a member, and its handle is what the member's address resolves
to. -/
theorem create_ok {place handle : Specifier} {properties : Value}
    (h : place.create a none properties s = (.ok (.ok handle), t)) :
    ∃ uri others new there,
      Cursor.Added place.cursor properties place.node.memberKeys s uri t others new there ∧
      a.resolve uri = .ok (.ok handle) := by
  obtain ⟨uri, hchange, hlook⟩ := followed_ok h
  obtain ⟨others, new, there, hadded⟩ := Cursor.planInsert_ok_iff.mp (Cursor.Plan.run_ok hchange)
  exact ⟨uri, others, new, there, hadded, lookUp_ok hlook⟩

/-- What a creation hands back is at the new member exactly if it picks the member in the list, and
then reads it. Where no way is computed and the collection's address is in plain words and stays the
same ones without its queries, that is so for a plain piece exactly if it stands for a selector that
picks the member before all others. -/
theorem create_handedBack_iff {place handle : Specifier} {collection : String} {l : Location}
    (hread : Address.read collection = .ok (.ok l))
    (hplace : a.resolve collection = .ok (.ok place)) {properties : Value}
    (h : place.create a none properties s = (.ok (.ok handle), t)) :
    ∃ uri others new there,
      Cursor.Added place.cursor properties place.node.memberKeys s uri t others new there ∧
      a.resolve uri = .ok (.ok handle) ∧
      (handle.AtLast t there others new ↔ there.spot?.isSome ∧
        there.read t = .list (others ++ [new]) ∧ handle.cursor.Picks t there others new) ∧
      (handle.AtLast t there others new → handle.cursor.raw t = .ok new) ∧
      (a.catalog.Direct → a.catalog.Regular → l.Legible → '?' ∉ l.scheme.toList →
        ∃ piece, pieceOf new others.length place.node.memberKeys = .ok (some piece) ∧
          (piece.Plain → (handle.AtLast t there others new ↔
            ∃ selector, a.choice? place.node l.endsBare piece = some selector ∧
              selector.Picks others new))) := by
  obtain ⟨uri, others, new, there, hadded, hresolve⟩ := create_ok h
  refine ⟨uri, others, new, there, hadded, hresolve, ?_, AtLast.raw_eq, ?_⟩
  · constructor
    · exact fun hat => ⟨hat.stored, hat.listed, (Cursor.picks_iff hat.listed).mp hat.position⟩
    · rintro ⟨hstored, hlisted, hpicks⟩
      exact ⟨hstored, hlisted, (Cursor.picks_iff hlisted).mpr hpicks⟩
  intro hd hr hlegible hquestion
  obtain ⟨own, piece, hown, hpiece, rfl⟩ := hadded.address
  refine ⟨piece, hpiece, fun hplain => ?_⟩
  have hlocate : a.locate l = .ok (.ok place) := (resolve_of_read hread).symm.trans hplace
  have hstraight : ∀ what, Keyed.get? l.scheme a.registry.schemes = some what →
      a.Straight (a.start l.scheme what) l.segments := fun what _ => straight_of_direct hd _ _
  obtain ⟨what, mid, hwhat, hmid, hstem, hbelow⟩ := locate_unasked hstraight hlocate
  obtain ⟨hsteps, hin, -⟩ := exists_uri_of_locate hread hlegible hstraight hlocate
  have hw := writable_of_legible hread hlegible
  -- The collection's address up to the query is the canonical text of its segments.
  have hbase : withoutQuery own = String.ofList (canonicalText l.scheme l.stem) :=
    Cursor.withoutQuery_uri hin hsteps (question_not_mem_canonicalText hw.each hquestion) hown
  rw [addressBehind, hbase, ← String.ofList_append] at hresolve
  obtain ⟨hleads, -⟩ := resolve_behind hd hr (readableScheme_of_read hread) hwhat hw hmid hplain
    hresolve
  have hbehind : a.LeadsOn mid l.endsBare piece handle.cursor := hleads
  have hthere : mid.cursor.position? s = .ok (some there) :=
    (hbelow.near.position s).trans hadded.position
  have hheads : ∀ segment ∈ l.stem, '[' ∉ segment.head.toList := fun segment hsegment =>
    (hw.each segment hsegment).unopened
  have hsteady : mid.cursor.Unbracketed :=
    walk_unbracketed hstem (show Cursor.Unbracketed (.root _ _ _) from trivial) hheads hmid
  obtain ⟨hstay, hlisted⟩ := hsteady.appended hthere hadded.listed new
  rw [← hadded.store] at hstay hlisted
  have hchoice : a.choice? place.node l.endsBare piece = a.choice? mid.node l.endsBare piece := by
    rcases hbelow.node_eq with hsame | hquery
    · exact congrArg (a.choice? · l.endsBare piece) hsame
    · exact (congrArg (a.choice? · l.endsBare piece) hquery).trans (choice?_queryable _ _ _)
  have hlast := hbehind.position_last_iff hthere rfl hlisted
  rw [hchoice]
  constructor
  · exact fun hat => (hlast.mp hat.position).2
  · exact fun hpicks => ⟨hsteady.documented s there hthere, hlisted, hlast.mpr ⟨hstay, hpicks⟩⟩

/-- All ways to select a folder, and the default creation. -/
def makingAccessors : Keyed Method :=
  folderAccessors ++ [("create", .create none)]

/-- Folders that are selected by position, name or identifier and can be added to. -/
def makingFolders : Atlas :=
  folders makingAccessors

/-- A folder of a name that was given an identifier. -/
def madeFolder (name : String) (id : Int) : Value :=
  .mapping [("name", .text name), ("id", .int id)]

/-- A folder of a name that is made beside another one is handed back by the identifier that it is
given. -/
theorem create_handedBack_made :
    ∃ handle t, (Atlas.foldersAt makingAccessors).create makingFolders none
          (.mapping [("name", .text "B")]) (folderStore [folder "A" []]) = (.ok (.ok handle), t) ∧
      (Atlas.foldersAt makingAccessors).cursor.raw t =
        .ok (.list [folder "A" [], madeFolder "B" 1000]) ∧
      handle.cursor.raw t = .ok (madeFolder "B" 1000) := by
  obtain ⟨hread, hplace⟩ := resolve_foldersAt makingAccessors
  have hresolve : makingFolders.resolve "s://folders/1000" =
      .ok (.ok ⟨(Atlas.foldersAt makingAccessors).cursor.identified (.int 1000),
        makingFolders.catalog.node 2, true⟩) := by
    rw [resolve_of_read (l := ⟨"s", [⟨"folders", some (.id 1000)⟩]⟩) (by decide +kernel)]
    rfl
  have hcreate : (Atlas.foldersAt makingAccessors).create makingFolders none
      (.mapping [("name", .text "B")]) (folderStore [folder "A" []]) =
        (makingFolders.resolve "s://folders/1000",
          folderStore [folder "A" [], madeFolder "B" 1000]) := rfl
  rw [hresolve] at hcreate
  obtain ⟨uri, others, new, there, hadded, -, -, hraw, hiff⟩ :=
    create_handedBack_iff hread hplace hcreate
  obtain rfl : (⟨.document 0, [.key "folders"]⟩ : Position) = there :=
    Option.some.inj (Except.ok.inj hadded.position)
  obtain rfl : [folder "A" []] = others := Value.list.inj hadded.listed
  obtain ⟨entries, hentries, rfl⟩ := hadded.member
  obtain rfl := Except.ok.inj hentries
  have hlegible : Location.Legible ⟨"s", [⟨"folders", none⟩]⟩ :=
    ⟨clear_folders.heads, fun h => (nomatch h), trivial⟩
  obtain ⟨piece, hpiece, hiff⟩ :=
    hiff (folders_direct _) (folders_regular _) hlegible (by decide)
  obtain rfl : Piece.text "1000" = piece := Option.some.inj (Except.ok.inj hpiece)
  have hplain : (Piece.text "1000").Plain := ⟨by decide, by decide⟩
  have hpicks : (Selector.id (.int 1000)).Picks [folder "A" []] (madeFolder "B" 1000) := by
    refine ⟨sameIdentifier_int 1000, fun other hother => ?_⟩
    obtain rfl := List.mem_singleton.mp hother
    decide +kernel
  exact ⟨_, _, hcreate, rfl, hraw ((hiff hplain).mpr ⟨_, rfl, hpicks⟩)⟩

/-- A folder of an identifier and a name. -/
def labelledFolder (id name : String) : Value :=
  .mapping [("id", .text id), ("name", .text name)]

/-- A folder that is made with an identifier and another name is not handed back: its address is that
of the identifier, and is resolved by the name. -/
theorem create_missed_made :
    (Atlas.foldersAt makingAccessors).node.memberKeys = ["id", "name", "index"] ∧
      Keyed.get? "create" (Atlas.foldersAt makingAccessors).node.methods = some (.create none) ∧
      makingFolders.resolve "s://folders" = .ok (.ok (Atlas.foldersAt makingAccessors)) ∧
      ∃ handle, (Atlas.foldersAt makingAccessors).create makingFolders none
          (labelledFolder "x" "A") (folderStore []) =
            (.ok (.ok handle), folderStore [labelledFolder "x" "A"]) ∧
        handle.uri = .ok "s://folders/x" ∧
        (Atlas.foldersAt makingAccessors).cursor.raw (folderStore [labelledFolder "x" "A"]) =
          .ok (.list [labelledFolder "x" "A"]) ∧
        handle.cursor.raw (folderStore [labelledFolder "x" "A"]) = .ok .null := by
  have hresolve : makingFolders.resolve "s://folders/x" =
      .ok (.ok ⟨(Atlas.foldersAt makingAccessors).cursor.named (.text "x"),
        makingFolders.catalog.node 2, true⟩) := by
    rw [resolve_of_read (l := ⟨"s", [⟨"folders", none⟩, ⟨"x", none⟩]⟩) (by decide +kernel)]
    rfl
  have hcreate : (Atlas.foldersAt makingAccessors).create makingFolders none
      (labelledFolder "x" "A") (folderStore []) =
        (makingFolders.resolve "s://folders/x", folderStore [labelledFolder "x" "A"]) := rfl
  rw [hresolve] at hcreate
  have hlist : (Atlas.foldersAt makingAccessors).cursor.LiesAt
      (folderStore [labelledFolder "x" "A"]) ⟨0, [.key "folders"]⟩ := rfl
  have hlost : ((Atlas.foldersAt makingAccessors).cursor.named (.text "x")).position?
      (folderStore [labelledFolder "x" "A"]) = .ok none :=
    hlist.unfound rfl rfl (by decide +kernel) _ _
  exact ⟨by decide, rfl, (resolve_foldersAt makingAccessors).2, _, hcreate, rfl, rfl,
    Cursor.raw_of_nowhere hlost⟩

end Specifier

end ResourceAtlas

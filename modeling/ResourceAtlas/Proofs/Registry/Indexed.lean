import ResourceAtlas.Proofs.Address.Ahead
import ResourceAtlas.Proofs.Registry.Interchange

/-!
# A query behind a position

A segment has one qualifier, and a query takes the place of a position. So behind the address of a
collection a position leads to a member, but a position with a query leads to where the query alone
does: to the collection itself, if the query is read.
-/

namespace ResourceAtlas.Atlas

open Address Number Query Schema Text

variable {a : Atlas} {uri scheme head : String} {before : List Segment} {spec : Specifier}
  {b : List Char × List Char} {mark query : List Char} {n : Int} {digits : List Char}

/-- The address of what a position in brackets behind an address selects. -/
def indexedUri (uri : String) (b : List Char × List Char) (digits more : List Char) : String :=
  String.ofList (uri.toList ++ (b.1 ++ (digits ++ (b.2 ++ more))))

/-- The address of an address that is asked a query. -/
def askedUri (uri : String) (mark query : List Char) : String :=
  String.ofList (uri.toList ++ (mark ++ query))

/-- A position behind an address is read as that of its last segment. -/
theorem read_indexedUri (hown : EndsInHead uri scheme before head) (hb : b ∈ brackets)
    (hn : Numeral.intText? n = some digits) :
    Address.read (indexedUri uri b digits []) =
      .ok (.ok ⟨scheme, before ++ [⟨head, some (.index n)⟩]⟩) := by
  have hsegment := @readSegment_between b.1 b.2 (isBracket_of_mem hb) head.toList digits []
    (isSigned_intText hn) (Numeral.isInteger_intText hn) rfl
  rw [readInteger_intText hn, String.ofList_toList] at hsegment
  rw [indexedUri, hown.read_append (stopsHead_opening hb _), hsegment, located_eq_ok]
  refine ⟨_, readSegments_nil _ rfl, ?_⟩
  rw [List.reverse_cons, List.reverse_reverse]

/-- A query behind an address is read as that of its last segment, if it is read. -/
theorem read_askedUri (hown : EndsInHead uri scheme before head) (hmark : mark ∈ questionMarks)
    (hslash : '/' ∉ query) :
    Address.read (askedUri uri mark query) =
      located scheme ((readRequest query).map fun r => before ++ [asked head r]) := by
  obtain ⟨after, hafter, hsegment⟩ := readSegment_mark hmark query hslash head.toList
  rw [askedUri, hown.read_append (stopsHead_mark hmark query), hsegment, String.ofList_toList]
  cases readRequest query with
  | error f => rfl
  | ok r =>
    have hend := readSegments_nil (asked head r :: before.reverse) hafter
    rw [List.reverse_cons, List.reverse_reverse] at hend
    exact congrArg (located scheme) hend

/-- An address ends in a head and leads to a location in a document, so that a query behind it is asked
of that location. -/
structure TakesRequest (a : Atlas) (uri : String) (spec : Specifier) : Prop where
  /-- The address ends in a head. -/
  ends : ∃ scheme before head, EndsInHead uri scheme before head
  /-- It leads to the location. -/
  resolves : a.resolve uri = .ok (.ok spec)
  /-- The location is no namespace. -/
  own : spec.node.isNamespace = false
  /-- It is in a document. -/
  inside : spec.cursor.isOutside = false

/-- A query behind such an address is asked of the location, if it is read. -/
theorem TakesRequest.resolve_asked (h : a.TakesRequest uri spec) (hmark : mark ∈ questionMarks)
    (hslash : '/' ∉ query) {r : Request} (hr : readRequest query = .ok r) :
    a.resolve (askedUri uri mark query) = .ok (.ok
      ⟨spec.cursor.withQuery (r.apply spec.cursor.query), spec.node.queryable, spec.registered⟩) := by
  obtain ⟨scheme, before, head, hends⟩ := h.ends
  have hresolves := h.resolves
  rw [resolve_of_read hends.read] at hresolves
  obtain ⟨what, mid, hwhat, hmid, rfl⟩ := locate_ok hresolves
  have hread : Address.read (askedUri uri mark query) =
      .ok (.ok ⟨scheme, before ++ [asked head r]⟩) := by
    rw [read_askedUri hends hmark hslash, hr]
    rfl
  have hwalk := walk_qualify hmid h.own (.query r)
  rw [qualify, ask_inside h.inside] at hwalk
  exact (resolve_of_read hread).trans (locate_of_walk hwhat hwalk)

/-- A position with a query behind an address is read as the query alone. -/
theorem read_indexedUri_asked (hown : EndsInHead uri scheme before head) (hb : b ∈ brackets)
    (hmark : mark ∈ questionMarks) (hn : Numeral.intText? n = some digits) (query : List Char) :
    Address.read (indexedUri uri b digits (mark ++ query)) =
      Address.read (askedUri uri mark query) := by
  rw [indexedUri, askedUri, hown.read_append (stopsHead_opening hb _),
    hown.read_append (stopsHead_mark hmark query),
    readSegment_position_mark hmark query hb hn]

/-- A position behind the address of a collection leads to a member. With a query behind it the address
leads to the collection itself instead, of which the query is asked, or nowhere, if the query is not
read. -/
theorem resolve_indexed_asked (hown : EndsInHead uri scheme before head)
    (hspec : a.resolve uri = .ok (.ok spec)) (htakes : a.TakesPositions spec.node)
    (hno : spec.node.isNamespace = false) (hin : spec.cursor.isOutside = false)
    (hb : b ∈ brackets) (hmark : mark ∈ questionMarks) (hn : Numeral.intText? n = some digits)
    (hslash : '/' ∉ query) :
    (∃ found, a.resolve (indexedUri uri b digits []) = .ok (.ok found) ∧
      found.cursor.steps = spec.cursor.steps ++ [.index (.int n)]) ∧
    a.resolve (indexedUri uri b digits (mark ++ query)) = a.resolve (askedUri uri mark query) ∧
    (∀ r, readRequest query = .ok r →
      ∃ found, a.resolve (indexedUri uri b digits (mark ++ query)) = .ok (.ok found) ∧
        found.cursor.steps = spec.cursor.steps ∧
        found.cursor.query = r.apply spec.cursor.query) ∧
    ((∀ r, readRequest query ≠ .ok r) →
      ∀ found, a.resolve (indexedUri uri b digits (mark ++ query)) ≠ .ok (.ok found)) := by
  have hasked := read_indexedUri_asked hown hb hmark hn query
  have hsame : a.resolve (indexedUri uri b digits (mark ++ query)) =
      a.resolve (askedUri uri mark query) := by
    unfold resolve
    rw [hasked]
  rw [resolve_of_read hown.read] at hspec
  obtain ⟨what, mid, hwhat, hmid, rfl⟩ := locate_ok hspec
  refine ⟨?_, hsame, fun r hr => ?_, fun hr found hfound => ?_⟩
  · obtain ⟨member, hmember⟩ := walk_index (n := n) hmid hno hin htakes
    refine ⟨_, (resolve_of_read (read_indexedUri hown hb hn)).trans
      (locate_of_walk hwhat hmember), ?_⟩
    rw [Cursor.entered, Cursor.steps]
  · have hwalk := walk_qualify hmid hno (.query r)
    rw [qualify, ask_inside hin] at hwalk
    have hread : Address.read (askedUri uri mark query) =
        .ok (.ok ⟨scheme, before ++ [asked head r]⟩) := by
      rw [read_askedUri hown hmark hslash, hr]
      rfl
    refine ⟨_, hsame.trans ((resolve_of_read hread).trans (locate_of_walk hwhat hwalk)), ?_, ?_⟩
    · exact Cursor.steps_withQuery mid.cursor _
    · exact Cursor.query_withQuery hin _
  · obtain ⟨l, hl, -⟩ := resolve_ok (hsame ▸ hfound)
    rw [read_askedUri hown hmark hslash, located_eq_ok] at hl
    obtain ⟨segments, hsegments, -⟩ := hl
    obtain ⟨r, hread, -⟩ := map_eq_ok.mp hsegments
    exact hr r hread

/-- The address of the folders ends in a head. -/
theorem endsInHead_folders : EndsInHead "s://folders" "s" [] "folders" := by
  have hread := (resolve_foldersAt []).1
  have hends := endsInHead_canonicalText (readableScheme_of_read hread)
    (@writable_bare _ _ hread clear_folders [] _ _ rfl)
  rw [show String.ofList (canonicalText "s" ([] ++ [⟨"folders", none⟩])) = "s://folders" by decide]
    at hends
  exact hends

/-- The first folder is selected by its position, and not with a query behind it. -/
theorem resolve_indexed_asked_folders :
    ∃ found, (folders folderAccessors).resolve "s://folders%5B0%5D?name=A" = .ok (.ok found) ∧
      found.cursor.steps = [.root "s", .prop "folders"] ∧
      found.cursor.query = Request.apply ⟨[⟨"name", .equals, "A"⟩], none, none, none, []⟩ .empty := by
  have hquery : readRequest "name=A".toList =
      .ok ⟨[⟨"name", .equals, "A"⟩], none, none, none, []⟩ := by
    decide +kernel
  exact (resolve_indexed_asked endsInHead_folders (resolve_foldersAt folderAccessors).2
    ⟨by decide, _, rfl⟩ rfl rfl (show ("%5B".toList, "%5D".toList) ∈ brackets by decide)
    (show "?".toList ∈ questionMarks by decide) (show Numeral.intText? 0 = some "0".toList from rfl)
    (show '/' ∉ "name=A".toList by decide)).2.2.1 _ hquery

/-- The first folder with a query behind it is the folders themselves: no position is in its address. -/
theorem resolve_indexed_lost :
    ∃ found, (folders folderAccessors).resolve "s://folders[0]?limit=2" = .ok (.ok found) ∧
      found.cursor.steps = [.root "s", .prop "folders"] ∧
      .index (.int 0) ∉ found.cursor.steps := by
  have hread : Address.read "s://folders[0]?limit=2" =
      .ok (.ok ⟨"s", [asked "folders" ⟨[], none, some 2, none, []⟩]⟩) := by
    decide +kernel
  obtain ⟨found, hfound, hsteps⟩ : ∃ found : Specifier,
      (folders folderAccessors).resolve "s://folders[0]?limit=2" = .ok (.ok found) ∧
        found.cursor.steps = [.root "s", .prop "folders"] :=
    ⟨_, (resolve_of_read hread).trans rfl, rfl⟩
  refine ⟨found, hfound, hsteps, ?_⟩
  rw [hsteps]
  simp

end ResourceAtlas.Atlas

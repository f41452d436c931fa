import ResourceAtlas.Proofs.Address.Appended
import ResourceAtlas.Proofs.Completion.Suggested
import ResourceAtlas.Proofs.Registry.Named

/-!
# Following what is suggested

A suggestion of a place is an address that is put together from texts, so it leads where it says only if its
last piece is read as one segment. Where that is so, a child is entered, and a member is found by its name or
its identifier: the first one to fit, which has the label as the text of its name or its identifier. Behind a
bare segment an integer is an identifier, and there the first member may fit that is equal to it.
-/

namespace ResourceAtlas.Completion

open Address Query Schema Text

variable {a : Atlas} {s : Store} {c : Completion} {l : Location} {spec : Specifier}
  {scheme path : List Char} {key label : String}

section Reading

/-- The address up to the last slash of its path is its scheme and the path up to there. -/
theorem toList_stem (scheme path : List Char) :
    (stem scheme path).toList = scheme ++ schemeMark ++ (cutLast '/' path).1.toList := by
  unfold stem
  rw [String.toList_append, String.toList_append, String.toList_ofList]
  rfl

/-- Without a slash, nothing stands before the fragment. -/
theorem cutLast_unslashed {sep : Char} {text : List Char} (h : (cutLast sep text).2.1 = false) :
    (cutLast sep text).1 = "" := by
  unfold cutLast at h ⊢
  split at h
  · exact (nomatch h)
  · rfl

/-- The address up to the last slash has the scheme at which the whole is cut. -/
theorem scheme_of_read_stem {text : List Char}
    (hcut : Split.atWord "://".toList text = some (scheme, path))
    (hread : Address.read (stem scheme path) = .ok (.ok l)) : l.scheme.toList = scheme := by
  obtain ⟨-, ⟨rest, hat⟩, -, -⟩ := parts_of_read hread
  have hstem := Split.atWord_replace hcut (cutLast '/' path).1.toList
  rw [toList_stem] at hat
  exact (Prod.mk.inj (Option.some.inj (hat.symm.trans hstem))).1

/-- A suggestion is read behind the segments of the address before it: it has a label, and brackets are no
obstacle to that. -/
structure ReadsOn (path : List Char) (l : Location) (c : Completion) : Prop where
  /-- The label is not empty. -/
  labelled : c.label ≠ ""
  /-- No bracket opens; or the path up to the last slash is level, and either no head there has a bracket,
  or the label closes none, or each one that opens there closes there. -/
  brackets : Unopened c.value.toList ∨ Level (cutLast '/' path).1.toList ∧
    ((∀ s ∈ l.segments, '[' ∉ s.head.toList) ∨ ']' ∉ c.label.toList ∨
      EachCloses (cutLast '/' path).1.toList)

/-- A suggestion is read as the segments of the address up to its last slash and, behind those, as what
it has behind a slash. -/
theorem read_value {text piece : List Char} {all : List Segment} (slash : Bool)
    (hcut : Split.atWord "://".toList text = some (scheme, path))
    (hread : Address.read (stem scheme path) = .ok (.ok l))
    (hslash : slash = false → (cutLast '/' path).1 = "")
    (hvalue : c.value.toList = (stem scheme path).toList ++ ((mark "/" slash).toList ++ piece))
    (hon : c.ReadsOn path l)
    (hclosed : ']' ∉ c.label.toList → Unclosed ('/' :: piece))
    (hall : readSegments l.segments.reverse (.ofText ('/' :: piece)) = .ok all) :
    Address.read c.value = .ok (.ok ⟨l.scheme, all⟩) := by
  have hscheme := scheme_of_read_stem hcut hread
  rw [← String.ofList_toList (s := c.value), hvalue]
  cases slash with
  | true =>
    refine read_onto hread (.inr ⟨piece, rfl⟩) (fun rest hrest => ?_) hall
    rw [toList_stem, hscheme] at hrest
    obtain rfl := List.append_cancel_left hrest
    refine hon.brackets.imp (fun hno => hno.mono ?_) (.imp_right (.imp_right (.imp_left hclosed)))
    rw [hvalue, toList_stem, List.append_assoc]
    exact List.suffix_append _ _
  | false =>
    -- There is nothing but a scheme, and a slash behind that makes no difference.
    have hempty := toList_stem scheme path
    rw [hslash rfl, show "".toList = [] from rfl, List.append_nil] at hempty
    have hnil : l.segments = [] := by
      obtain ⟨-, rest, hrest, hsegments⟩ := path_of_read hread
      rw [hempty, hscheme, List.self_eq_append_right] at hrest
      rw [hrest, segments, readSegments_nil [] rfl] at hsegments
      exact (Except.ok.inj hsegments).symm
    rw [hnil, List.reverse_nil, readSegments_slash] at hall
    rw [hempty, ← hscheme]
    exact read_of_segments (path_of_read hread).1 hall

end Reading

section Members

variable {list : Cursor} {selector : Selector} {wanted : Value}

/-- Members are found by the values that they show under a key: none of those is an attribute, nor
computed. -/
def FoundByField (s : Store) (list : Cursor) (key : String) : Prop :=
  ∀ items, list.raw s = .ok (.list items) → ∀ item ∈ items, item.field key = item.member key

/-- A location reads a member of a list that has a property. -/
def ReadsMember (s : Store) (list there : Cursor) (p : Value → Prop) : Prop :=
  ∃ items item, list.raw s = .ok (.list items) ∧ item ∈ items ∧ there.raw s = .ok item ∧ p item

/-- Values with texts can be compared. Those of the same text fit, and those that fit are equal or have the
same text. -/
theorem exists_sameIdentifier {v : Value} (hv : (v.string?).isSome)
    (hwanted : wanted.string? = some label) :
    ∃ fits, sameIdentifier v wanted = .ok fits ∧
      (v.isNull = false → v.string? = some label → fits = true) ∧
      (fits = true → v.equal wanted = true ∨ v.string? = some label) := by
  obtain ⟨text, htext⟩ := Option.isSome_iff_exists.mp hv
  unfold sameIdentifier
  cases hnull : v.isNull with
  | true => exact ⟨false, rfl, fun h => (nomatch h), fun h => (nomatch h)⟩
  | false =>
    cases hequal : v.equal wanted with
    | true => exact ⟨true, rfl, fun _ _ => rfl, fun _ => .inl rfl⟩
    | false =>
      rw [htext, hwanted]
      refine ⟨text == label, rfl, fun _ hsame => ?_, fun hsame => .inr ?_⟩
      · rw [Option.some.inj hsame]
        exact beq_self_eq_true label
      · rw [eq_of_beq hsame]

/-- A member whose label is sought is found, or one before it that fits as well. -/
theorem readsMember_sought (h : Labelled s list key label) (hfields : FoundByField s list key)
    (hsought : selector.sought? = some (key, wanted)) (hwanted : wanted.string? = some label)
    (step : Step) :
    ReadsMember s list (list.entered selector step) fun item =>
      (item.field key).equal wanted = true ∨ (item.field key).string? = some label := by
  obtain ⟨items, i, item, hitems, hitem, hnull, hlabel, hbefore⟩ := h
  have hfield : ∀ {j : Nat} {other : Value}, items[j]? = some other →
      other.field key = other.member key := fun hother =>
    hfields items hitems _ (List.mem_of_getElem? hother)
  obtain ⟨fits, hcompared, hsame, -⟩ :=
    exists_sameIdentifier (Option.isSome_iff_exists.mpr ⟨label, hlabel⟩) hwanted
  rw [hsame hnull hlabel, hfield hitem] at hcompared
  obtain ⟨first, hle, hfirst⟩ := exists_firstAt hitem hcompared fun j hj other hother => by
    obtain ⟨fits, hcompared, -⟩ := exists_sameIdentifier (hbefore j hj other hother) hwanted
    exact ⟨fits, hfield hother ▸ hcompared⟩
  obtain ⟨found, hfound, hfits⟩ := hfirst.1
  have htext : ((found.field key).string?).isSome := by
    rcases Nat.lt_or_eq_of_le hle with hlt | rfl
    · exact hbefore first hlt found hfound
    · obtain rfl := Option.some.inj (hitem.symm.trans hfound)
      exact Option.isSome_iff_exists.mpr ⟨label, hlabel⟩
  obtain ⟨fits', hcompared', -, hwhy⟩ := exists_sameIdentifier htext hwanted
  rw [hfield hfound, hfits] at hcompared'
  exact ⟨items, found, hitems, List.mem_of_getElem? hfound,
    Atlas.raw_sought hsought hitems rfl hfound hfirst step, hwhy (Except.ok.inj hcompared').symm⟩

/-- A member is found by the text of its label, or one before it of the same label. -/
theorem readsMember_label (h : Labelled s list key label) (hfields : FoundByField s list key)
    (hsought : selector.sought? = some (key, .text label)) (step : Step) :
    ReadsMember s list (list.entered selector step) fun item =>
      (item.field key).string? = some label := by
  obtain ⟨items, item, hitems, hmem, hread, hwhy⟩ := readsMember_sought h hfields hsought rfl step
  refine ⟨items, item, hitems, hmem, hread, hwhy.elim (fun hequal => ?_) id⟩
  exact congrArg Value.string? (Value.eq_text_of_equal hequal)

end Members

section Walk

variable {here mid there : Atlas.Standing} {before : List Segment} {head : String}

/-- A walk that arrives inside a document goes on by a head to where that leads. -/
theorem walk_head (hd : a.catalog.Direct) (hmid : a.walk here before = .ok (.ok mid))
    (hin : mid.cursor.isOutside = false) (hm : a.HeadMove mid head there) :
    a.walk here (before ++ [⟨head, none⟩]) = .ok (.ok there) := by
  rw [Atlas.walk_concat hmid]
  exact Atlas.moveBy_of_move hd hin (.bare hm) fun hsome => (nomatch hsome)

/-- A walk that arrives at a bare segment goes on by an identifier to the member of that. -/
theorem walk_id (hmid : a.walk here (before ++ [⟨head, none⟩]) = .ok (.ok mid))
    (hin : mid.cursor.isOutside = false) (hno : mid.node.isNamespace = false)
    (hid : mid.node.hasMethod "by_id" = true) {member : Node}
    (hmember : mid.node.itemNode a.catalog = .ok member) (n : Int) :
    a.walk here (before ++ [⟨head, some (.id n)⟩]) =
      .ok (.ok ⟨mid.cursor.entered (.id (.int n)) (.id (.int n)), member⟩) := by
  rw [Atlas.walk_qualify hmid hno, Atlas.qualify, if_pos hid, Atlas.select_eq hin rfl hmember]
  rfl

end Walk

/-- A label leads to the members of a node: no child has it as its key, and the node of the members is
known. -/
structure Reaches (a : Atlas) (n : Node) (label : String) : Prop where
  /-- No child has the key. -/
  free : ∃ children, n.below a.catalog = .ok children ∧ Keyed.get? label children = none
  /-- The node of the members is known. -/
  member : ∃ member, n.itemNode a.catalog = .ok member

/-- What a suggestion of a place leads to, by its kind, where its label is read as one segment: unmarked as it
is, or whole in its coded form, and as an integer behind a bare segment only if it is an identifier. -/
structure Followable (a : Atlas) (s : Store) (l : Location) (spec : Specifier) (c : Completion) :
    Prop where
  /-- A child is accepted. -/
  child : c.description ∈ childKinds → Unmarked c.label.toList →
    (isBare l.segments.reverse = true → Digit.isInteger c.label.toList = false) →
    ∃ there, a.resolve c.value = .ok (.ok there)
  /-- A name leads to a member that has it. -/
  name : c.description = "By name" → WholeBehind l.segments.reverse c.label.toList →
    Reaches a spec.node c.label → FoundByField s spec.cursor "name" →
    ∃ there, a.resolve c.value = .ok (.ok there) ∧ ReadsMember s spec.cursor there.cursor fun item =>
      (item.field "name").string? = some c.label
  /-- An identifier leads to a member that has it. -/
  id : c.description = "By id" → Unmarked c.label.toList →
    (isBare l.segments.reverse = true → Digit.isInteger c.label.toList = false) →
    Reaches a spec.node c.label → FoundByField s spec.cursor "id" →
    ∃ there, a.resolve c.value = .ok (.ok there) ∧ ReadsMember s spec.cursor there.cursor fun item =>
      (item.field "id").string? = some c.label
  /-- An integer behind a bare segment leads to a member that has it as its identifier, or one that is
  equal. -/
  integer : ∀ n, c.description = "By id" → isBare l.segments.reverse = true →
    Number.Numeral.intText? n = some c.label.toList → spec.node.isNamespace = false →
    (∃ member, spec.node.itemNode a.catalog = .ok member) → FoundByField s spec.cursor "id" →
    ∃ there, a.resolve c.value = .ok (.ok there) ∧ ReadsMember s spec.cursor there.cursor fun item =>
      (item.field "id").equal (.int n) = true ∨ (item.field "id").string? = some c.label

section Follow

variable {text : List Char} {what : Registration} {slash : Bool}
  (hcut : Split.atWord "://".toList text = some (scheme, path))
  (hread : Address.read (stem scheme path) = .ok (.ok l))
  (hwhat : Keyed.get? l.scheme a.registry.schemes = some what)

include hcut hread hwhat

/-- A label that is put behind an address as it is leads where the walk leads that goes on with it. -/
theorem resolve_unmarked {tail : String} (hslash : slash = false → (cutLast '/' path).1 = "")
    (hvalue : c.value = stem scheme path ++ mark "/" slash ++ c.label ++ tail)
    (htail : tail = "" ∨ tail = "/") (hon : c.ReadsOn path l) (hlabel : Unmarked c.label.toList)
    {all : List Segment} (hall : (Piece.text c.label).readBehind l.segments = .ok all)
    {there : Atlas.Standing} (hwalk : a.walk (a.start l.scheme what) all = .ok (.ok there)) :
    a.resolve c.value = .ok (.ok ⟨there.cursor, there.node, true⟩) := by
  have hend : AtEnd tail.toList := htail.imp (congrArg String.toList) (congrArg String.toList)
  have hpieces : c.value.toList =
      (stem scheme path).toList ++ ((mark "/" slash).toList ++ (c.label.toList ++ tail.toList)) := by
    rw [hvalue, String.toList_append, String.toList_append, String.toList_append, List.append_assoc,
      List.append_assoc]
  have hbehind := readSegments_unmarked hlabel hend l.segments.reverse
  rw [List.reverse_reverse, hall, ← readSegments_slash] at hbehind
  have hvalueread := read_value slash hcut hread hslash hpieces hon
    (fun hclose => unclosed_unmarked hlabel hclose hend) hbehind
  exact (Atlas.resolve_of_read hvalueread).trans (Atlas.locate_of_walk hwhat hwalk)

/-- A name that is coded behind an address leads where the walk leads that goes on with it. -/
theorem resolve_coded (hvalue : c.value = stem scheme path ++ "/" ++ Percent.encodeString c.label)
    (hon : c.ReadsOn path l) (hlabel : WholeBehind l.segments.reverse c.label.toList)
    {there : Atlas.Standing} (hwalk : a.walk (a.start l.scheme what)
      (l.segments ++ [⟨c.label, none⟩]) = .ok (.ok there)) :
    a.resolve c.value = .ok (.ok ⟨there.cursor, there.node, true⟩) := by
  have hpieces : c.value.toList = (stem scheme path).toList ++
      ((mark "/" true).toList ++ Percent.encode c.label.toList) := by
    rw [hvalue, String.toList_append, String.toList_append, Percent.encodeString,
      @String.toList_ofList (Percent.encode c.label.toList), List.append_assoc]
    rfl
  have hbehind := hlabel.readSegments_eq fun hnil =>
    hon.labelled (String.toList_eq_nil_iff.mp hnil)
  rw [List.reverse_reverse, String.ofList_toList] at hbehind
  have hvalueread := read_value true hcut hread (fun hno => Bool.noConfusion hno) hpieces hon
    unclosed_encode hbehind
  exact (Atlas.resolve_of_read hvalueread).trans (Atlas.locate_of_walk hwhat hwalk)

variable {mid : Atlas.Standing} (hd : a.catalog.Direct)
  (hmid : a.walk (a.start l.scheme what) l.segments = .ok (.ok mid))
  (hin : mid.cursor.isOutside = false)

include hd hmid hin

/-- The suggestion of a child can be followed. -/
theorem followable_child {children : Keyed NodeId} {key tail kind : String} {id : NodeId}
    (hbelow : mid.node.below a.catalog = .ok children) (hchild : (key, id) ∈ children)
    (htail : tail = "" ∨ tail = "/") (hkind : kind ∈ childKinds)
    (hslash : slash = false → (cutLast '/' path).1 = "")
    (hon : ReadsOn path l ⟨stem scheme path ++ mark "/" slash ++ key ++ tail, key, kind⟩) :
    Followable a s l ⟨mid.cursor, mid.node, true⟩
      ⟨stem scheme path ++ mark "/" slash ++ key ++ tail, key, kind⟩ := by
  have hapart : ∀ kind ∈ childKinds, kind ≠ "By name" ∧ kind ≠ "By id" := by decide
  obtain ⟨hname, hid⟩ := hapart kind hkind
  refine ⟨fun _ hunmarked hint => ?_, fun h => absurd h hname, fun h => absurd h hid,
    fun _ h => absurd h hid⟩
  obtain ⟨entered, hentered⟩ := Keyed.exists_get?_of_mem hchild
  exact ⟨_, resolve_unmarked hcut hread hwhat hslash rfl htail hon hunmarked
    (readBehind_text hon.labelled hint) (walk_head hd hmid hin (.child hbelow hentered))⟩

/-- The suggestion of a member by its name can be followed. -/
theorem followable_name {label : String} (hmethod : mid.node.hasMethod "by_name" = true)
    (hlabel : Labelled s mid.cursor "name" label)
    (hon : ReadsOn path l ⟨stem scheme path ++ "/" ++ Percent.encodeString label, label, "By name"⟩) :
    Followable a s l ⟨mid.cursor, mid.node, true⟩
      ⟨stem scheme path ++ "/" ++ Percent.encodeString label, label, "By name"⟩ := by
  have hid : "By name" ≠ "By id" := by decide
  refine ⟨fun h => absurd h (by decide : "By name" ∉ childKinds), fun _ hwhole hreaches hfields => ?_,
    fun h => absurd h hid, fun _ h => absurd h hid⟩
  obtain ⟨⟨children, hbelow, hfree⟩, member, hmember⟩ := hreaches
  exact ⟨_, resolve_coded hcut hread hwhat rfl hon hwhole
    (walk_head hd hmid hin (.name hbelow hfree hmethod hmember)),
    readsMember_label hlabel hfields rfl _⟩

/-- The suggestion of a member by its identifier can be followed. -/
theorem followable_id {label : String} (hname : mid.node.hasMethod "by_name" = false)
    (hmethod : mid.node.hasMethod "by_id" = true) (hlabel : Labelled s mid.cursor "id" label)
    (hon : ReadsOn path l ⟨stem scheme path ++ "/" ++ label, label, "By id"⟩) :
    Followable a s l ⟨mid.cursor, mid.node, true⟩
      ⟨stem scheme path ++ "/" ++ label, label, "By id"⟩ := by
  have hresolve : ∀ {all : List Segment} {there : Atlas.Standing}, Unmarked label.toList →
      (Piece.text label).readBehind l.segments = .ok all →
      a.walk (a.start l.scheme what) all = .ok (.ok there) →
      a.resolve (stem scheme path ++ "/" ++ label) = .ok (.ok ⟨there.cursor, there.node, true⟩) :=
    fun hunmarked hall hwalk => @resolve_unmarked a ⟨_, label, "By id"⟩ l scheme path text what true
      hcut hread hwhat "" (fun hno => Bool.noConfusion hno) String.append_empty.symm (.inl rfl) hon
      hunmarked _ hall _ hwalk
  refine ⟨fun h => absurd h (by decide : "By id" ∉ childKinds),
    fun h => absurd h (by decide : "By id" ≠ "By name"), fun _ hunmarked hint hreaches hfields => ?_,
    fun n _ hbare hn hno hmember hfields => ?_⟩
  · obtain ⟨⟨children, hbelow, hfree⟩, member, hmember⟩ := hreaches
    exact ⟨_, hresolve hunmarked (readBehind_text hon.labelled hint)
      (walk_head hd hmid hin (.id hbelow hfree hname hmethod hmember)),
      readsMember_label hlabel hfields rfl _⟩
  · -- The integer becomes the qualifier of the last segment.
    obtain ⟨member, hmember⟩ := hmember
    obtain ⟨⟨head, others⟩, hlast⟩ := Option.isSome_iff_exists.mp hbare
    have hsegments := eq_concat_of_unqualified? hlast
    have hall := readBehind_integer others.reverse head hn
    rw [← hsegments] at hall
    rw [hsegments] at hmid
    have hwanted : (Value.int n).string? = some label :=
      (congrArg (Option.map String.ofList) hn).trans (congrArg some String.ofList_toList)
    exact ⟨_, hresolve (unmarked_intText hn) hall (walk_id hmid hin hno hmethod hmember n),
      readsMember_sought hlabel hfields rfl hwanted _⟩

end Follow

/-- A suggestion of a place that is read behind the segments of the address before it can be followed. -/
theorem suggest_followable {partialUri : String} {most : Int} {found : List Completion}
    (hd : a.catalog.Direct)
    (hcut : Split.atWord "://".toList partialUri.toList = some (scheme, path))
    (h : suggest a s partialUri most = .ok found) (hc : c ∈ found)
    (hkind : c.description ∈ placeKinds) :
    ∃ l spec, Address.read (stem scheme path) = .ok (.ok l) ∧ a.locate l = .ok (.ok spec) ∧
      (c.ReadsOn path l → Followable a s l spec c) := by
  obtain ⟨spec, hspec, hplace⟩ := ofPlace_of_suggest hcut h hc hkind
  obtain ⟨l, hread, hlocate⟩ := Atlas.resolve_ok hspec
  obtain ⟨what, mid, hwhat, hmid, rfl⟩ := Atlas.locate_ok hlocate
  have hin : mid.cursor.isOutside = false :=
    Atlas.walk_inside (Atlas.straight_of_direct hd _ _) rfl hmid
  refine ⟨l, _, hread, hlocate, fun hon => ?_⟩
  cases hplace with
  | child hbelow hchild htail hchosen =>
    exact followable_child hcut hread hwhat hd hmid hin hbelow hchild htail hchosen cutLast_unslashed
      hon
  | name hmethod hlabel => exact followable_name hcut hread hwhat hd hmid hin hmethod hlabel hon
  | id hname hmethod hlabel => exact followable_id hcut hread hwhat hd hmid hin hname hmethod hlabel hon

/-- What is suggested last for folders that have no positions. -/
def folderQuery : Completion := ⟨"s://folders?", "?", "Filter, sort or paginate"⟩

/-- The suggestion of a folder with brackets in its name leads to the folder. -/
theorem suggest_followable_folders :
    suggest (Atlas.folders Atlas.folderAccessors) (Atlas.folderStore [Atlas.folder "b[x]" []])
        "s://folders/" 10 =
      .ok [⟨"s://folders/b%5Bx%5D", "b[x]", "By name"⟩, ⟨"s://folders[0]", "[index]", "By index"⟩,
        folderQuery] ∧
    ∃ there, (Atlas.folders Atlas.folderAccessors).resolve "s://folders/b%5Bx%5D" = .ok (.ok there) ∧
      ReadsMember (Atlas.folderStore [Atlas.folder "b[x]" []])
        (Atlas.foldersAt Atlas.folderAccessors).cursor there.cursor
        fun item => (item.field "name").string? = some "b[x]" := by
  have hsuggest : suggest (Atlas.folders Atlas.folderAccessors)
      (Atlas.folderStore [Atlas.folder "b[x]" []]) "s://folders/" 10 =
        .ok [⟨"s://folders/b%5Bx%5D", "b[x]", "By name"⟩, ⟨"s://folders[0]", "[index]", "By index"⟩,
          folderQuery] := by
    decide +kernel
  refine ⟨hsuggest, ?_⟩
  obtain ⟨l, spec, hread, hlocate, hfollow⟩ := @suggest_followable _ _
    ⟨"s://folders/b%5Bx%5D", "b[x]", "By name"⟩ "s".toList "folders/".toList "s://folders/" 10 _
    (Atlas.folders_direct Atlas.folderAccessors) rfl hsuggest List.mem_cons_self (by decide)
  obtain ⟨hfolders, hat⟩ := Atlas.resolve_foldersAt Atlas.folderAccessors
  rw [show stem "s".toList "folders/".toList = "s://folders" from rfl, hfolders] at hread
  obtain rfl := Except.ok.inj (Except.ok.inj hread)
  rw [Atlas.resolve_of_read hfolders, hlocate] at hat
  obtain rfl := Except.ok.inj (Except.ok.inj hat)
  have hon : ReadsOn "folders/".toList ⟨"s", [⟨"folders", none⟩]⟩
      ⟨"s://folders/b%5Bx%5D", "b[x]", "By name"⟩ := by
    refine ⟨by decide, .inr ⟨?_, .inl ?_⟩⟩
    · exact IsAscii.level (by decide)
    · intro segment hsegment
      rw [List.mem_singleton.mp hsegment]
      decide
  have hwhole : WholeBehind [⟨"folders", none⟩] "b[x]".toList :=
    @WholeBehind.closed _ ['b'] ['x'] ⟨by decide, by decide⟩ (fun _ => by decide) (by decide)
      (by decide)
  refine (hfollow hon).name rfl hwhole ⟨⟨[], rfl, rfl⟩, _, rfl⟩ fun items hitems item hitem => ?_
  obtain rfl : [Atlas.folder "b[x]" []] = items := Value.list.inj (Except.ok.inj hitems)
  rw [List.mem_singleton.mp hitem]
  rfl

/-- Folders that are selected by name only. -/
def namedFolders : Atlas := Atlas.folders [("by_name", .byName (.node 2))]

/-- Folders that are selected by identifier only. -/
def numberedFolders : Atlas := Atlas.folders [("by_id", .byId (.node 2))]

/-- A folder with an identifier and nothing else. -/
def numberedFolder (identifier : Value) : Value := .mapping [("id", identifier)]

/-- Suggestions that cannot be followed: the coded question mark of a name starts a query, so no folder has
what is left of the name; an integer is an identifier, by which folders are not selected here; and before
the folder of an identifier another one stands that is equal to it, with another text. -/
theorem suggest_followable_lost :
    namedFolders.catalog.Direct ∧ numberedFolders.catalog.Direct ∧
    suggest namedFolders (Atlas.folderStore [Atlas.folder "a?" [], Atlas.folder "7" []])
        "s://folders/" 10 =
      .ok [⟨"s://folders/a%3F", "a?", "By name"⟩, ⟨"s://folders/7", "7", "By name"⟩, folderQuery] ∧
    (∃ there, namedFolders.resolve "s://folders/a%3F" = .ok (.ok there) ∧
      there.cursor.raw (Atlas.folderStore [Atlas.folder "a?" [], Atlas.folder "7" []]) = .ok .null) ∧
    namedFolders.resolve "s://folders/7" = .ok (.error (.noIdAccess "folders")) ∧
    suggest numberedFolders
        (Atlas.folderStore [numberedFolder (.bool true), numberedFolder (.int 1)]) "s://folders/" 10 =
      .ok [⟨"s://folders/True", "True", "By id"⟩, ⟨"s://folders/1", "1", "By id"⟩, folderQuery] ∧
    ∃ there, numberedFolders.resolve "s://folders/1" = .ok (.ok there) ∧
      there.cursor.raw (Atlas.folderStore [numberedFolder (.bool true), numberedFolder (.int 1)]) =
        .ok (numberedFolder (.bool true)) ∧
      ((numberedFolder (.bool true)).field "id").string? = some "True" := by
  have hasked : Address.read "s://folders/a%3F" =
      .ok (.ok ⟨"s", [⟨"folders", none⟩, asked "a" Request.empty]⟩) := by
    decide +kernel
  have hseven : Address.read "s://folders/7" = .ok (.ok ⟨"s", [⟨"folders", some (.id 7)⟩]⟩) := by
    decide +kernel
  have hone : Address.read "s://folders/1" = .ok (.ok ⟨"s", [⟨"folders", some (.id 1)⟩]⟩) := by
    decide +kernel
  have hnone : findMember "name" (.text "a") [Atlas.folder "a?" [], Atlas.folder "7" []] = .ok none := by
    decide +kernel
  have hplace : (Selector.name (.text "a")).place?
      (.list [Atlas.folder "a?" [], Atlas.folder "7" []]) = .ok none :=
    congrArg (Except.map (Option.map Store.Place.index)) hnone
  have hfirst : FirstAt "id" (.int 1) [numberedFolder (.bool true), numberedFolder (.int 1)] 0 :=
    findMember_iff.mp (by decide +kernel)
  refine ⟨Atlas.folders_direct _, Atlas.folders_direct _, by decide +kernel, ?_,
    (Atlas.resolve_of_read hseven).trans rfl, by decide +kernel, ?_⟩
  · refine ⟨_, (Atlas.resolve_of_read hasked).trans rfl, Cursor.raw_of_nowhere ?_⟩
    exact bind_eq_ok.mpr ⟨_, rfl, bind_eq_ok.mpr ⟨none, hplace, rfl⟩⟩
  · refine ⟨_, (Atlas.resolve_of_read hone).trans rfl, ?_, rfl⟩
    exact Atlas.raw_sought rfl rfl rfl rfl hfirst (.id (.int 1))

end ResourceAtlas.Completion

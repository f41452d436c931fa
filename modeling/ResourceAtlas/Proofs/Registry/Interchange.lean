import ResourceAtlas.Proofs.Address.Onward
import ResourceAtlas.Proofs.Registry.Alongside
import ResourceAtlas.Proofs.Registry.Fields
import ResourceAtlas.Proofs.Registry.Member
import ResourceAtlas.Proofs.Store.Generated

/-!
# One member under three addresses

A member of a collection has an address by its position, one by its name and one by its identifier. If no
member before it fits the name or the identifier, all three lead to it, and so does every path that goes
on from there: it breaks off alike, ends in the same problem, or leads to the same node and value. Only
identifiers of more digits than are read have no address.
-/

namespace ResourceAtlas.Atlas

open Address Number Query Schema Text

/-- An integer in digits, however many. -/
def decimal (n : Int) : List Char :=
  if n < 0 then '-' :: Numeral.natText n.natAbs else Numeral.natText n.natAbs

/-- The address of something behind another address. -/
def uriBehind (own : String) (piece rest : List Char) : String :=
  String.ofList (own.toList ++ piece ++ rest)

/-- The members of a node are selected by position, by name and by identifier, and there is nothing
else below it. -/
structure SelectsThrice (a : Atlas) (n : Node) : Prop where
  /-- Members are selected by position. -/
  index : n.hasMethod "by_index" = true
  /-- Members are selected by name. -/
  name : n.hasMethod "by_name" = true
  /-- Members are selected by identifier. -/
  id : n.hasMethod "by_id" = true
  /-- It has no children. -/
  childless : n.below a.catalog = .ok []
  /-- It is no namespace. -/
  own : n.isNamespace = false

/-- A member has an identifier and a name that no member before it fits. -/
structure NamedFirst (items : List Value) (i : Nat) (n : Int) (m : String) : Prop where
  /-- The member is there. -/
  item : ∃ item, items[i]? = some item ∧ item.member "id" = .int n ∧ item.member "name" = .text m
  /-- No member before it fits the identifier or the name. -/
  unmatched : ∀ j < i, ∀ other, items[j]? = some other →
    sameIdentifier (other.member "id") (.int n) = .ok false ∧
      sameIdentifier (other.member "name") (.text m) = .ok false

/-- Two resolutions break off alike, end in the same problem, or lead to the same node and value. -/
def SameMember (s : Store) : Outcome (Verdict Specifier) → Outcome (Verdict Specifier) → Prop :=
  Agree (Agree fun x y => x.node = y.node ∧ x.cursor.raw s = y.cursor.raw s)

variable {a : Atlas} {s : Store}

/-- An integer within the limit is written in its digits. -/
theorem intText?_decimal {n : Int} (h : n.natAbs < 10 ^ Numeral.maxDigits) :
    Numeral.intText? n = some (decimal n) := by
  have hshort := (Numeral.natText_length_le_iff n.natAbs).mpr h
  unfold Numeral.intText?
  dsimp only
  rw [if_neg (Nat.not_lt.mpr hshort)]
  rfl

/-- A text fits itself. -/
theorem sameIdentifier_text (m : String) : sameIdentifier (.text m) (.text m) = .ok true := by
  have hequal : (Value.text m).equal (.text m) = true := by
    rw [Value.equal]
    exact beq_self_eq_true m
  unfold sameIdentifier
  rw [hequal]
  rfl

namespace NamedFirst

variable {items : List Value} {i : Nat} {n : Int} {m : String} {c : Cursor} {list : Position}

/-- The three selections of the member are at its position. -/
theorem position?_eq (h : NamedFirst items i n m) (hlist : c.position? s = .ok (some list))
    (hitems : (list.read s).sequence? = some items) (step : Step) :
    (c.entered (.index (.int i)) step).position? s = .ok (some (list.inside (.index i))) ∧
      (c.entered (.name (.text m)) step).position? s = .ok (some (list.inside (.index i))) ∧
      (c.entered (.id (.int n)) step).position? s = .ok (some (list.inside (.index i))) := by
  obtain ⟨item, hitem, hid, hname⟩ := h.item
  have hfound : ∀ {key : String} {wanted : Value}, item.member key = wanted →
      sameIdentifier wanted wanted = .ok true →
      (∀ j < i, ∀ other, items[j]? = some other →
        sameIdentifier (other.member key) wanted = .ok false) →
      (findMember key wanted items).map (·.map Store.Place.index) = .ok (some (.index i)) :=
    fun hmember hself hbefore =>
      Selector.place_eq_ok.mpr (findMember_of_first hitem (hmember ▸ hself) hbefore)
  refine ⟨(position_atIndex hlist hitems hitem step).1, ?_, ?_⟩
  · refine Cursor.position_child Selector.noConfusion hlist ?_ step .empty
    unfold Selector.place?
    dsimp only
    rw [hitems]
    exact hfound hname (sameIdentifier_text m) fun j hj other hother => (h.unmatched j hj other hother).2
  · refine Cursor.position_child Selector.noConfusion hlist ?_ step .empty
    unfold Selector.place?
    dsimp only
    rw [hitems]
    exact hfound hid (sameIdentifier_int n) fun j hj other hother => (h.unmatched j hj other hother).1

end NamedFirst

section Walk

variable {here mid : Standing}

/-- Two selections of one place under one node go on alike. -/
theorem select_alongside (hin : mid.cursor.isOutside = false) {motion motion' : Motion}
    {selector selector' : Selector} {step step' : Step}
    (hmove : motion.applyInside mid.cursor = .ok (mid.cursor.entered selector step))
    (hmove' : motion'.applyInside mid.cursor = .ok (mid.cursor.entered selector' step'))
    (h : (mid.cursor.entered selector step).position? s =
      (mid.cursor.entered selector' step').position? s) :
    Agree (Agree (Standing.Alongside s))
      ((a.select mid motion).map (Except.ok : Standing → Verdict Standing))
      ((a.select mid motion').map (Except.ok : Standing → Verdict Standing)) := by
  refine Standing.Alongside.verdict ?_
  unfold select
  rw [Motion.apply_inside hin, Motion.apply_inside hin, hmove, hmove']
  exact (Agree.refl (fun _ => rfl) _).bind fun _ _ hnode => .ok ⟨.selected h, hnode⟩

/-- Behind a bare last segment, the position, the name and the identifier of a member go on alike. -/
theorem walk_thrice {before : List Segment} {head : String}
    (hmid : a.walk here (before ++ [⟨head, none⟩]) = .ok (.ok mid)) (hnode : a.SelectsThrice mid.node)
    {list : Position} (hlist : mid.cursor.position? s = .ok (some list)) {items : List Value}
    (hitems : (list.read s).sequence? = some items) {i : Nat} {n : Int} {m : String}
    (hmember : NamedFirst items i n m) :
    Agree (Agree (Standing.Alongside s))
        (a.walk here (before ++ [⟨head, some (.index i)⟩]))
        (a.walk here (before ++ [⟨head, none⟩] ++ [⟨m, none⟩])) ∧
      Agree (Agree (Standing.Alongside s))
        (a.walk here (before ++ [⟨head, some (.index i)⟩]))
        (a.walk here (before ++ [⟨head, some (.id n)⟩])) := by
  have hin : mid.cursor.isOutside = false := by
    cases hc : mid.cursor with
    | outside =>
      rw [hc] at hlist
      exact (nomatch hlist)
    | _ => rfl
  obtain ⟨hindex, hname, hid⟩ := hmember.position?_eq (c := mid.cursor) hlist hitems (.index (.int i))
  have hmove : a.moveBy mid ⟨m, none⟩ = (a.select mid (.name (.text m))).map .ok := by
    rw [moveBy_bare, moveByHead_member hnode.childless rfl, if_pos hnode.name]
  rw [walk_concat hmid, hmove, walk_qualify hmid hnode.own, walk_qualify hmid hnode.own, qualify,
    qualify, if_pos hnode.index, if_pos hnode.id]
  exact ⟨select_alongside hin rfl rfl (hindex.trans hname.symm),
    select_alongside hin rfl rfl (hindex.trans hid.symm)⟩

end Walk

/-- Two addresses whose segments go on alike resolve alike, with any path behind them that becomes the
identifier of neither. -/
theorem resolve_onward {scheme : String} (hscheme : ReadableScheme scheme) {what : Registration}
    (hwhat : Keyed.get? scheme a.registry.schemes = some what) {found found' : List Segment}
    (hw : Writable found) (hw' : Writable found')
    (h : Agree (Agree (Standing.Alongside s)) (a.walk (a.start scheme what) found)
      (a.walk (a.start scheme what) found'))
    {rest : List Char} (hrest : EndsSegment rest)
    (hfirst : Digit.isInteger (firstHead rest) = false) :
    SameMember s (a.resolve (String.ofList (canonicalText scheme found ++ rest)))
      (a.resolve (String.ofList (canonicalText scheme found' ++ rest))) := by
  unfold resolve
  rw [read_onward hscheme hw hrest fun _ => hfirst, read_onward hscheme hw' hrest fun _ => hfirst]
  cases Address.read (String.ofList (scheme.toList ++ schemeMark ++ rest)) with
  | error f => exact .error f
  | ok verdict =>
    cases verdict with
    | error problem => exact .ok (.error problem)
    | ok l =>
      change Agree _ (a.locate ⟨scheme, found ++ l.segments⟩) (a.locate ⟨scheme, found' ++ l.segments⟩)
      unfold locate
      rw [hwhat]
      refine Agree.bind (r := Agree (Standing.Alongside s)) ?_ fun _ _ hthere => .ok <|
        hthere.map fun _ _ hthere => ⟨hthere.node, hthere.cursor.raw_eq⟩
      change Agree _ (a.walk (a.start scheme what) _) (a.walk (a.start scheme what) _)
      rw [walk_append, walk_append]
      refine h.bind fun _ _ hthere => ?_
      cases hthere with
      | error problem => exact .ok (.error problem)
      | ok hthere => exact hthere.walk l.segments

/-- Segments that can be written, with a position or an identifier for the last one. -/
theorem writable_qualified {before : List Segment} {head : String}
    (hw : Writable (before ++ [⟨head, none⟩])) {n : Int} {digits : List Char}
    (hn : Numeral.intText? n = some digits) :
    Writable (before ++ [⟨head, some (.index n)⟩]) ∧ Writable (before ++ [⟨head, some (.id n)⟩]) := by
  obtain ⟨hbefore, hhead, hfold⟩ := hw.before
  have hnone : ∀ q : Option Qualifier, (∀ k, q = some (.index k) ∨ q = some (.id k) → k = n) →
      (Segment.mk head q).Writable := fun q hq =>
    ⟨hhead.nonempty, hhead.unopened, hhead.unasked, fun k hk => by rw [hq k (.inl hk), hn]; rfl,
      fun k hk => by rw [hq k (.inr hk), hn]; rfl⟩
  exact ⟨hbefore.concat (hnone _ fun k hk => by simp_all) (fun r hr => (nomatch hr)) hfold,
    hbefore.concat (hnone _ fun k hk => by simp_all) (fun r hr => (nomatch hr)) hfold⟩

/-- The segments of a clear address whose last one is bare can be written. -/
theorem writable_of_bare {uri : String} {l : Location} (hread : Address.read uri = .ok (.ok l))
    (hclear : l.Clear) {before : List Segment} {head : String}
    (hl : l.segments = before ++ [⟨head, none⟩]) : Writable (before ++ [⟨head, none⟩]) := by
  obtain ⟨hw, hunfolded⟩ := writable_of_clear hread hclear
  have hlast := hclear.last
  rw [hl] at hw hunfolded hlast
  rw [List.dropLast_concat] at hlast
  refine ⟨hw, fun t ht => ?_, hunfolded⟩
  rcases List.mem_append.mp ht with ht | ht
  · exact hlast t ht
  · exact List.mem_singleton.mp ht ▸ fun r hr => (nomatch hr)

/-- The address of a collection with the position, the name or the identifier of a member behind it, and
any path that goes on from there, resolves alike, if no member before fits the name or the identifier. -/
theorem resolve_interchangeable {own : String} {l : Location}
    (hread : Address.read own = .ok (.ok l)) (hclear : l.Clear)
    (hcanonical : own = String.ofList (canonicalText l.scheme l.segments)) {before : List Segment}
    {head : String} (hl : l.segments = before ++ [⟨head, none⟩]) {spec : Specifier}
    (h : a.resolve own = .ok (.ok spec)) (hnode : a.SelectsThrice spec.node) {v : Value}
    (hraw : spec.cursor.raw s = .ok v) {items : List Value} (hitems : v.sequence? = some items)
    {i : Nat} {n : Int} {m : String} (hmember : NamedFirst items i n m) (hm : PlainKey m)
    (hi : i < 10 ^ Numeral.maxDigits) (hn : n.natAbs < 10 ^ Numeral.maxDigits) {rest : List Char}
    (hrest : EndsSegment rest) (hfirst : Digit.isInteger (firstHead rest) = false) :
    SameMember s (a.resolve (uriBehind own (indexText (Numeral.natText i)) rest))
        (a.resolve (uriBehind own ('/' :: Percent.encode m.toList) rest)) ∧
      SameMember s (a.resolve (uriBehind own (indexText (Numeral.natText i)) rest))
        (a.resolve (uriBehind own ('/' :: decimal n) rest)) := by
  have hscheme := readableScheme_of_read hread
  have hw := writable_of_bare hread hclear hl
  rw [resolve_of_read hread] at h
  obtain ⟨what, mid, hwhat, hmid, rfl⟩ := locate_ok h
  obtain ⟨list, hlist, rfl⟩ := Cursor.position_of_sequence hraw hitems
  rw [hl] at hcanonical hmid
  have hown : own.toList = canonicalText l.scheme (before ++ [⟨head, none⟩]) := by
    rw [hcanonical, String.toList_ofList]
  have hindex := Numeral.intText?_natText hi
  have hid := intText?_decimal hn
  -- Each of the three addresses is the canonical text of the segments that it is read as.
  have htextindex : canonicalText l.scheme (before ++ [⟨head, some (.index i)⟩]) =
      own.toList ++ indexText (Numeral.natText i) := by
    rw [canonicalText_qualified, hown, qualifierText, intText, hindex]
    rfl
  have htextid : canonicalText l.scheme (before ++ [⟨head, some (.id n)⟩]) =
      own.toList ++ '/' :: decimal n := by
    rw [canonicalText_qualified, hown, qualifierText, intText, hid]
    rfl
  have htextname : canonicalText l.scheme (before ++ [⟨head, none⟩] ++ [⟨m, none⟩]) =
      own.toList ++ '/' :: Percent.encode m.toList := by
    rw [canonicalText_concat, if_neg (by simp), hown, segmentText, qualifierText, List.append_nil]
  have hwname : Writable (before ++ [⟨head, none⟩] ++ [⟨m, none⟩]) :=
    hw.concat ⟨hm.nonempty, hm.unopened, hm.unasked, fun k hk => absurd hk (by simp),
      fun k hk => absurd hk (by simp)⟩ (fun r hr => absurd hr (by simp)) fun _ => hm.word
  have hwindex := (writable_qualified hw hindex).1
  have hwid := (writable_qualified hw hid).2
  obtain ⟨hsamename, hsameid⟩ := walk_thrice hmid hnode hlist hitems hmember
  unfold uriBehind
  rw [← htextindex, ← htextid, ← htextname]
  exact ⟨resolve_onward hscheme hwhat hwindex hwname hsamename hrest hfirst,
    resolve_onward hscheme hwhat hwindex hwid hsameid hrest hfirst⟩

/-- Behind an address, an identifier of more digits than are read breaks off. -/
theorem resolve_overlong {own : String} {l : Location} (hread : Address.read own = .ok (.ok l))
    (hclear : l.Clear) (hcanonical : own = String.ofList (canonicalText l.scheme l.segments))
    {before : List Segment} {head : String} (hl : l.segments = before ++ [⟨head, none⟩]) {n : Nat}
    (hn : 10 ^ Numeral.maxDigits ≤ n) {rest : List Char} (hrest : EndsSegment rest) :
    a.resolve (uriBehind own ('/' :: decimal n) rest) =
      .error (.tooManyDigits (Numeral.natText n).length) := by
  have hdecimal : decimal n = Numeral.natText n := by
    rw [decimal, if_neg (by omega), Int.natAbs_natCast]
  rw [hl] at hcanonical
  have hw := writable_of_bare hread hclear hl
  have hbreaks := read_overlong (readableScheme_of_read hread) hw hn hrest
  rw [← String.toList_ofList (l := canonicalText _ _), ← hcanonical] at hbreaks
  unfold resolve uriBehind
  rw [hdecimal, List.append_assoc, List.cons_append, hbreaks]
  rfl

/-- A folder with an identifier. -/
def numberedFolder (id : Int) (name : String) : Value :=
  .mapping [("id", .int id), ("name", .text name), ("folders", .list [])]

/-- The collection of folders at the root. -/
def foldersAt (accessors : Keyed Method) : Specifier :=
  ⟨(Cursor.atRoot 0 "s").property "folders", (folders accessors).catalog.node 1, true⟩

/-- The address of the collection of folders leads to it. -/
theorem resolve_foldersAt (accessors : Keyed Method) :
    Address.read "s://folders" = .ok (.ok ⟨"s", [⟨"folders", none⟩]⟩) ∧
      (folders accessors).resolve "s://folders" = .ok (.ok (foldersAt accessors)) := by
  have hread : Address.read "s://folders" = .ok (.ok ⟨"s", [⟨"folders", none⟩]⟩) := by
    decide +kernel
  refine ⟨hread, ?_⟩
  rw [resolve_of_read hread]
  rfl

/-- The address of the collection of folders has one plain head. -/
theorem clear_folders : Location.Clear ⟨"s", [⟨"folders", none⟩]⟩ :=
  ⟨fun s hs => by rw [List.mem_singleton.mp hs]; decide, fun s hs => absurd hs List.not_mem_nil⟩

/-- Folders are selected in three ways. -/
theorem selectsThrice_folders :
    (folders folderAccessors).SelectsThrice (foldersAt folderAccessors).node :=
  ⟨by decide, by decide, by decide, rfl, rfl⟩

/-- The names of the second of two folders lead to the same, by position, name and identifier. -/
theorem resolve_interchangeable_folders :
    SameMember (folderStore [numberedFolder 5 "A", numberedFolder 7 "B"])
        ((folders folderAccessors).resolve "s://folders%5B1%5D/name")
        ((folders folderAccessors).resolve "s://folders/B/name") ∧
      SameMember (folderStore [numberedFolder 5 "A", numberedFolder 7 "B"])
        ((folders folderAccessors).resolve "s://folders%5B1%5D/name")
        ((folders folderAccessors).resolve "s://folders/7/name") := by
  obtain ⟨hread, hresolve⟩ := resolve_foldersAt folderAccessors
  have hmember : NamedFirst [numberedFolder 5 "A", numberedFolder 7 "B"] 1 7 "B" := by
    refine ⟨⟨_, rfl, rfl, rfl⟩, fun j hj other hother => ?_⟩
    obtain rfl : j = 0 := by omega
    obtain rfl := Option.some.inj hother
    exact ⟨by decide +kernel, by decide +kernel⟩
  have hl : [(⟨"folders", none⟩ : Segment)] = [] ++ [⟨"folders", none⟩] := rfl
  exact resolve_interchangeable hread clear_folders (by decide +kernel) hl hresolve
    selectsThrice_folders (s := folderStore _) rfl rfl hmember
    ⟨by decide, by decide, by decide, by decide⟩
    ((Numeral.natText_length_le_iff 1).mp (by decide))
    ((Numeral.natText_length_le_iff 7).mp (by decide))
    (.inr ⟨"name".toList, rfl⟩) (by decide +kernel)

/-- A first folder is the first of its identifier and its name. -/
theorem namedFirst_first (id : Int) (name : String) (more : List Value) :
    NamedFirst (numberedFolder id name :: more) 0 id name :=
  ⟨⟨_, rfl, rfl, rfl⟩, fun j hj => absurd hj (Nat.not_lt_zero j)⟩

/-- The folders at the root. -/
theorem raw_folders (accessors : Keyed Method) (all : List Value) :
    (foldersAt accessors).cursor.raw (folderStore all) = .ok (.list all) :=
  rfl

/-- A folder with an identifier of one digit more than is read has an address by its position, and none
by its identifier. -/
theorem resolve_parted_overlong :
    (folders folderAccessors).resolve "s://folders" = .ok (.ok (foldersAt folderAccessors)) ∧
      (folders folderAccessors).SelectsThrice (foldersAt folderAccessors).node ∧
      (foldersAt folderAccessors).cursor.raw
          (folderStore [numberedFolder ((10 ^ Numeral.maxDigits : Nat) : Int) "B"]) =
        .ok (.list [numberedFolder ((10 ^ Numeral.maxDigits : Nat) : Int) "B"]) ∧
      NamedFirst [numberedFolder ((10 ^ Numeral.maxDigits : Nat) : Int) "B"] 0
        ((10 ^ Numeral.maxDigits : Nat) : Int) "B" ∧
      ¬ SameMember (folderStore [numberedFolder ((10 ^ Numeral.maxDigits : Nat) : Int) "B"])
        ((folders folderAccessors).resolve (uriBehind "s://folders" (indexText (Numeral.natText 0)) []))
        ((folders folderAccessors).resolve
          (uriBehind "s://folders" ('/' :: decimal ((10 ^ Numeral.maxDigits : Nat) : Int)) [])) := by
  obtain ⟨hread, hresolve⟩ := resolve_foldersAt folderAccessors
  refine ⟨hresolve, selectsThrice_folders, raw_folders _ _, namedFirst_first _ _ _, fun hsame => ?_⟩
  have hl : [(⟨"folders", none⟩ : Segment)] = [] ++ [⟨"folders", none⟩] := rfl
  rw [resolve_overlong hread clear_folders (by decide +kernel) hl le_rfl (.inl rfl)] at hsame
  have hfound : foundKind ((folders folderAccessors).resolve
      (uriBehind "s://folders" (indexText (Numeral.natText 0)) [])) = .ok (.ok .object) := by
    decide +kernel
  obtain ⟨spec, hspec, -⟩ := exists_of_foundKind hfound
  rw [hspec] at hsame
  exact (nomatch hsame)

end ResourceAtlas.Atlas

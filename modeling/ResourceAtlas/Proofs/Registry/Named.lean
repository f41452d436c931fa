import ResourceAtlas.Proofs.Address.Named
import ResourceAtlas.Proofs.Registry.Addressed
import ResourceAtlas.Proofs.Registry.Indexed
import ResourceAtlas.Proofs.Store.Finding

/-!
# Members by their coded names

A name that is coded and written behind the address of a collection leads to the member of that name
exactly if it is read as one head. Then the address is the member's own. A name in which a query starts,
or in which a bracket holds an integer or closes before the end, leads elsewhere.
-/

namespace ResourceAtlas.Atlas

open Address Query Schema Store Text

variable {a : Atlas} {own scheme head m : String} {before : List Segment} {spec : Specifier}

/-- The address of an address with a coded name behind it. -/
def namedUri (own m : String) : String :=
  String.ofList (own.toList ++ '/' :: Percent.encode m.toList)

/-- The members of a node are selected by name, and nothing else lies below it. -/
structure SelectsNamed (a : Atlas) (n : Node) : Prop where
  /-- Members are selected by name. -/
  name : n.hasMethod "by_name" = true
  /-- It has no children. -/
  childless : n.below a.catalog = .ok []
  /-- It is no namespace. -/
  own : n.isNamespace = false
  /-- The node of its members is known. -/
  member : ∃ member, n.itemNode a.catalog = .ok member

/-- A location in a list that seeks a member by a value reads the first member to fit that. -/
theorem raw_sought {s : Store} {c : Cursor} {selector : Selector} {key : String} {wanted v : Value}
    {items : List Value} {i : Nat} {item : Value} (hsought : selector.sought? = some (key, wanted))
    (hv : c.raw s = .ok v) (hitems : v.sequence? = some items) (hitem : items[i]? = some item)
    (hfirst : FirstAt key wanted items i) (step : Step) :
    (c.entered selector step).raw s = .ok item := by
  obtain ⟨list, hlist, rfl⟩ := Cursor.position_of_sequence hv hitems
  have hplace : selector.place? (list.read s) = .ok (some (.index i)) :=
    (Selector.place?_sought_iff hsought).mpr ⟨items, i, hitems, rfl, hfirst⟩
  have hself : selector ≠ .same := by
    rintro rfl
    exact (nomatch hsought)
  exact (position_selected hself hlist hitems hitem hplace step).2

/-- A location in a list that selects a member by its name reads the first member to fit that. -/
theorem raw_named {s : Store} {c : Cursor} {v : Value} {items : List Value} {i : Nat} {item : Value}
    (hv : c.raw s = .ok v) (hitems : v.sequence? = some items) (hitem : items[i]? = some item)
    (hfirst : FirstAt "name" (.text m) items i) :
    (c.entered (.name (.text m)) (.name (.text m))).raw s = .ok item :=
  raw_sought rfl hv hitems hitem hfirst _

/-- A name behind an address is read behind its segments. -/
theorem read_namedUri (hown : EndsInHead own scheme before head) (m : String) :
    Address.read (namedUri own m) = located scheme
      (readSegments (⟨head, none⟩ :: before.reverse) (.ofText ('/' :: Percent.encode m.toList))) := by
  have hends : EndsSegment ('/' :: Percent.encode m.toList) := .inr ⟨_, rfl⟩
  rw [namedUri, hown.read_append hends.stopsHead, readSegment_bare _ hends, String.ofList_toList]
  rfl

/-- An address that ends in a head goes on after a slash. -/
theorem appendPiece_of_endsInHead (hown : EndsInHead own scheme before head) (piece : List Char) :
    appendPiece own.toList piece = own.toList ++ '/' :: piece := by
  have hroot : endsAtRoot own.toList = false := by
    refine Bool.eq_false_iff.mpr fun hroot => hown.unslashed ?_
    obtain ⟨tail, htail⟩ := List.isPrefixOf_iff_prefix.mp hroot
    rw [List.getLast?_eq_head?_reverse, ← htail]
    rfl
  rw [appendPiece, hroot, if_neg Bool.false_ne_true]

/-- The address of a member by its name is that of the collection with the coded name behind it. -/
theorem uri_named (hown : EndsInHead own scheme before head) (huri : spec.uri = .ok own)
    (hquery : spec.cursor.query = .empty) (m : String) :
    (spec.cursor.entered (.name (.text m)) (.name (.text m))).uri = .ok (namedUri own m) := by
  obtain ⟨hin, ⟨text, htext⟩, -⟩ := Cursor.addressed_iff.mp ⟨own, huri⟩
  have hbare := uri_of_text hin htext "" (by rw [hquery]; rfl)
  rw [if_pos rfl] at hbare
  have htoList : text = own.toList := by
    rw [Except.ok.inj (huri.symm.trans hbare), String.toList_ofList]
  have hstep : (Step.name (.text m)).append text =
      .ok (own.toList ++ '/' :: Percent.encode m.toList) := by
    rw [spells_name, htoList, appendPiece_of_endsInHead hown]
  have hfound := uri_of_text (c := spec.cursor.entered (.name (.text m)) (.name (.text m))) rfl
    (stepsTextFrom_concat htext hstep) "" rfl
  rw [if_pos rfl] at hfound
  exact hfound

section Walk

variable {here mid there : Standing}

/-- Where members are selected by name, a head leads to the one of that name. -/
theorem HeadMove.named (hnode : a.SelectsNamed here.node) {head : String}
    (h : a.HeadMove here head there) :
    there.cursor.steps = here.cursor.steps ++ [.name (.text head)] := by
  cases h with
  | child hbelow hkey =>
    rw [hnode.childless] at hbelow
    obtain rfl := Except.ok.inj hbelow
    exact (nomatch hkey)
  | name => rfl
  | id _ _ hname =>
    rw [hnode.name] at hname
    exact (nomatch hname)

/-- A segment leads on from where its head leads. -/
theorem SegmentMove.exists_headMove {segment : Segment} (h : a.SegmentMove here segment there) :
    ∃ mid, a.HeadMove here segment.head mid ∧ mid.cursor.steps <+: there.cursor.steps := by
  cases h with
  | bare hm => exact ⟨_, hm, List.prefix_rfl⟩
  | index hm => exact ⟨_, hm, List.prefix_append _ _⟩
  | id hm => exact ⟨_, hm, List.prefix_append _ _⟩
  | query hm =>
    refine ⟨_, hm, ?_⟩
    dsimp only
    rw [Cursor.steps_withQuery]

/-- A walk leads on from where it starts, if it takes no computed way. -/
theorem steps_prefix_of_walk (hd : a.catalog.Direct) {segments : List Segment}
    (h : a.walk here segments = .ok (.ok there)) : here.cursor.steps <+: there.cursor.steps := by
  have hpreserves : ∀ s ∈ segments, s.Preserves fun c => here.cursor.steps <+: c.steps := by
    intro s _
    refine ⟨fun _ _ _ _ hc => hc.trans (List.prefix_append _ _), fun _ _ c hc => ?_⟩
    rwa [Cursor.steps_withQuery]
  exact walk_preserved (straight_of_direct hd here segments) hpreserves List.prefix_rfl h

/-- A walk on from a collection leads on from the member of its first head. -/
theorem steps_prefix_of_walk_named (hd : a.catalog.Direct) (hnode : a.SelectsNamed mid.node)
    {name : String} {qualifier : Option Qualifier} {more : List Segment}
    (h : a.walk mid (⟨name, qualifier⟩ :: more) = .ok (.ok there)) :
    mid.cursor.steps ++ [.name (.text name)] <+: there.cursor.steps := by
  obtain ⟨next, hnext, hmore⟩ := walk_cons_ok h
  obtain ⟨found, hfound, hprefix⟩ := (moveBy_ok hd hnext).2.1.exists_headMove
  rw [← hfound.named hnode]
  exact hprefix.trans (steps_prefix_of_walk hd hmore)

/-- A walk by an identifier behind a bare last segment leads on from the member of that identifier. -/
theorem steps_prefix_of_walk_id (hd : a.catalog.Direct) {head : String} {n : Int}
    {more : List Segment} (hmid : a.walk here (before ++ [⟨head, none⟩]) = .ok (.ok mid))
    (hno : mid.node.isNamespace = false)
    (h : a.walk here (before ++ ⟨head, some (.id n)⟩ :: more) = .ok (.ok there)) :
    mid.cursor.steps ++ [.id (.int n)] <+: there.cursor.steps := by
  rw [← List.singleton_append, ← List.append_assoc] at h
  obtain ⟨next, hnext, hmore⟩ := walk_append_ok h
  rw [walk_qualify hmid hno, qualify] at hnext
  split at hnext
  · obtain ⟨-, hcursor, -⟩ := select_ok rfl (ok_of_map_ok hnext)
    have hsteps : next.cursor.steps = mid.cursor.steps ++ [.id (.int n)] := by
      rw [← Except.ok.inj hcursor]
      rfl
    exact hsteps ▸ steps_prefix_of_walk hd hmore
  · cases Except.ok.inj hnext

/-- A name behind a bare last segment leads to the member of that name. -/
theorem walk_named {head : String} (hmid : a.walk here (before ++ [⟨head, none⟩]) = .ok (.ok mid))
    (hnode : a.SelectsNamed mid.node) (hin : mid.cursor.isOutside = false) (m : String) :
    ∃ member, a.walk here (before ++ [⟨head, none⟩] ++ [⟨m, none⟩]) =
      .ok (.ok ⟨mid.cursor.entered (.name (.text m)) (.name (.text m)), member⟩) := by
  obtain ⟨member, hmember⟩ := hnode.member
  refine ⟨member, ?_⟩
  rw [walk_concat hmid, moveBy_bare, moveByHead_member hnode.childless rfl, if_pos hnode.name,
    select_eq hin rfl hmember]
  rfl

/-- A name that is not whole leads elsewhere than to the member of that name. -/
theorem steps_ne_of_walk (hd : a.catalog.Direct) {head : String}
    (hmid : a.walk here (before ++ [⟨head, none⟩]) = .ok (.ok mid)) (hnode : a.SelectsNamed mid.node)
    (hno : ¬ WholeName m.toList) (hne : m.toList ≠ []) {segments : List Segment}
    (hsegments : readSegments (⟨head, none⟩ :: before.reverse)
      (.ofText ('/' :: Percent.encode m.toList)) = .ok segments)
    (h : a.walk here segments = .ok (.ok there)) :
    there.cursor.steps ≠ mid.cursor.steps ++ [.name (.text m)] := by
  intro hsteps
  have hlast : ∀ step : Step, mid.cursor.steps ++ [step] <+: there.cursor.steps →
      step = .name (.text m) := by
    intro step hprefix
    rw [hsteps, List.prefix_append_right_inj] at hprefix
    exact (List.cons_prefix_cons.mp hprefix).1
  rcases readSegments_of_not_wholeName hno hne hsegments with
    ⟨n, more, rfl⟩ | ⟨name, qualifier, more, hname, rfl⟩
  · rw [List.reverse_reverse] at h
    exact Step.noConfusion (hlast _ (steps_prefix_of_walk_id hd hmid hnode.own h))
  · rw [List.reverse_reverse, ← List.singleton_append, ← List.append_assoc] at h
    obtain ⟨_, hmid', h⟩ := walk_append_ok h
    obtain rfl := Except.ok.inj (Except.ok.inj (hmid.symm.trans hmid'))
    have hstep := hlast _ (steps_prefix_of_walk_named hd hnode h)
    injection hstep with hvalue
    injection hvalue with htext
    exact hname (congrArg String.toList htext)

end Walk

/-- A coded name behind the address of a collection leads to the first member of that name, and is the
member's address, exactly if it is read as one head. -/
theorem resolve_named (hown : EndsInHead own scheme before head)
    (hspec : a.resolve own = .ok (.ok spec)) (huri : spec.uri = .ok own)
    (hquery : spec.cursor.query = .empty) (hnode : a.SelectsNamed spec.node) (hm : m ≠ "") :
    (WholeName m.toList → ∃ found, a.resolve (namedUri own m) = .ok (.ok found) ∧
      found.uri = .ok (namedUri own m) ∧
      found.cursor.steps = spec.cursor.steps ++ [.name (.text m)] ∧
      ∀ s v items i item, spec.cursor.raw s = .ok v → v.sequence? = some items →
        items[i]? = some item → FirstAt "name" (.text m) items i → found.cursor.raw s = .ok item) ∧
    (¬ WholeName m.toList → a.catalog.Direct → ∀ found, a.resolve (namedUri own m) = .ok (.ok found) →
      found.cursor.steps ≠ spec.cursor.steps ++ [.name (.text m)]) := by
  have hne : m.toList ≠ [] := fun hnil => hm (String.toList_eq_nil_iff.mp hnil)
  have hread := read_namedUri hown m
  rw [resolve_of_read hown.read] at hspec
  obtain ⟨what, mid, hwhat, hmid, rfl⟩ := locate_ok hspec
  constructor
  · intro hwhole
    rw [hwhole.readSegments_eq hne, String.ofList_toList, List.reverse_cons,
      List.reverse_reverse] at hread
    obtain ⟨member, hwalk⟩ := walk_named hmid hnode (Cursor.addressed_iff.mp ⟨own, huri⟩).1 m
    exact ⟨_, (resolve_of_read hread).trans (locate_of_walk hwhat hwalk),
      uri_named hown huri hquery m, rfl, fun s v items i item hv hitems hitem hfirst =>
        raw_named hv hitems hitem hfirst⟩
  · intro hno hd found hfound
    obtain ⟨l, hl, hlocate⟩ := resolve_ok hfound
    rw [hread, located_eq_ok] at hl
    obtain ⟨segments, hsegments, rfl⟩ := hl
    obtain ⟨what', there, hwhat', hwalk, rfl⟩ := locate_ok hlocate
    obtain rfl := Option.some.inj (hwhat.symm.trans hwhat')
    exact steps_ne_of_walk hd hmid hnode hno hne hsegments hwalk

/-- Folders are selected by name, and nothing else lies below their collection. -/
theorem selectsNamed_folders :
    (folders folderAccessors).SelectsNamed (foldersAt folderAccessors).node :=
  ⟨by decide, rfl, rfl, _, rfl⟩

/-- A folder with brackets in its name is selected by its coded name. -/
theorem resolve_named_folders :
    ∃ found, (folders folderAccessors).resolve "s://folders/b%5Bx%5D" = .ok (.ok found) ∧
      found.uri = .ok "s://folders/b%5Bx%5D" ∧
      found.cursor.raw (folderStore [folder "a" [], folder "b[x]" []]) = .ok (folder "b[x]" []) := by
  have hwhole : WholeName "b[x]".toList :=
    @WholeName.closed ['b'] ['x'] ⟨by decide, by decide⟩ (by decide) (by decide) (by decide)
  obtain ⟨found, hfound, huri, -, hread⟩ :=
    (resolve_named (m := "b[x]") endsInHead_folders (resolve_foldersAt folderAccessors).2
      (by decide +kernel) rfl selectsNamed_folders (by decide)).1 hwhole
  rw [show namedUri "s://folders" "b[x]" = "s://folders/b%5Bx%5D" by decide +kernel] at hfound huri
  refine ⟨found, hfound, huri, hread _ _ _ 1 _ rfl rfl rfl ?_⟩
  exact findMember_iff.mp (by decide +kernel)

/-- A folder with a question mark in its name is not found by its coded name, which is no integer: the
folder is sought that has the part of the name before the question mark. -/
theorem resolve_named_lost :
    (folders folderAccessors).SelectsNamed (foldersAt folderAccessors).node ∧
      (foldersAt folderAccessors).uri = .ok "s://folders" ∧
      (folders folderAccessors).resolve "s://folders" = .ok (.ok (foldersAt folderAccessors)) ∧
      Digit.isInteger "a?".toList = false ∧
      FirstAt "name" (.text "a?") [folder "a?" []] 0 ∧
      namedUri "s://folders" "a?" = "s://folders/a%3F" ∧
      ∃ found, (folders folderAccessors).resolve "s://folders/a%3F" = .ok (.ok found) ∧
        found.uri = .ok "s://folders/a" ∧
        found.cursor.raw (folderStore [folder "a?" []]) = .ok .null := by
  have hread : Address.read "s://folders/a%3F" =
      .ok (.ok ⟨"s", [⟨"folders", none⟩, asked "a" Request.empty]⟩) := by
    decide +kernel
  have hfind : findMember "name" (.text "a") [folder "a?" []] = .ok none := by decide +kernel
  have hplace : (Selector.name (.text "a")).place? (.list [folder "a?" []]) = .ok none :=
    congrArg (Except.map (Option.map Place.index)) hfind
  refine ⟨selectsNamed_folders, by decide +kernel, (resolve_foldersAt folderAccessors).2,
    by decide, findMember_iff.mp (by decide +kernel), by decide +kernel, ?_⟩
  refine ⟨_, (resolve_of_read hread).trans rfl, by decide +kernel, Cursor.raw_of_nowhere ?_⟩
  exact bind_eq_ok.mpr ⟨_, rfl, bind_eq_ok.mpr ⟨none, hplace, rfl⟩⟩

end ResourceAtlas.Atlas

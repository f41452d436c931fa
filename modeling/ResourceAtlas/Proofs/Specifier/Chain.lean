import ResourceAtlas.Proofs.Address.Written
import ResourceAtlas.Proofs.Outcome
import ResourceAtlas.Proofs.Registry.Canonical
import ResourceAtlas.Proofs.Schema.Faithful
import ResourceAtlas.Specifier.Call

/-!
# An address and the chain of calls along it

What a segment of an address does can be done by hand from a specifier: go to the child of its head,
or call the method that selects a member of that name or identifier, then call the one that its
qualifier stands for. In a faithful catalog one segment leads both ways to the same location and the
same node, or both ways nowhere; addresses follow by induction along their segments.
-/

namespace ResourceAtlas

open Address Query Schema

namespace Specifier

/-- The location that a call with one argument answers. -/
def answered (a : Atlas) (s : Store) (spec : Specifier) (name : String) (v : Value) :
    Outcome Specifier := do
  match ← (spec.call a name [v] s).1 with
  | .specifier there => .ok there
  | _ => .error notCallable

/-- Go by a head: to the declared child, else to the member of that name, else to the member of that
identifier. -/
def followHead (a : Atlas) (s : Store) (spec : Specifier) (head : String) : Outcome Specifier := do
  let children ← spec.node.below a.catalog
  if Keyed.has head children then spec.child a.catalog head
  else if spec.node.hasMethod "by_name" then spec.answered a s "by_name" (.text head)
  else if spec.node.hasMethod "by_id" then spec.answered a s "by_id" (.text head)
  else .error (.missingKey head)

/-- Go by a qualifier that selects a member. -/
def followQualifier (a : Atlas) (s : Store) (spec : Specifier) : Option Qualifier → Outcome Specifier
  | some (.index n) => spec.answered a s "by_index" (.int n)
  | some (.id n) => spec.answered a s "by_id" (.int n)
  | _ => .ok spec

/-- Go by a segment: by its head, then by its qualifier. -/
def followSegment (a : Atlas) (s : Store) (spec : Specifier) (segment : Segment) :
    Outcome Specifier := do
  let there ← spec.followHead a s segment.head
  there.followQualifier a s segment.qualifier

/-- Go by segments in turn. -/
def follow (a : Atlas) (s : Store) (spec : Specifier) : List Segment → Outcome Specifier
  | [] => .ok spec
  | segment :: rest => do
    let there ← spec.followSegment a s segment
    there.follow a s rest

end Specifier

/-- Go by hand where a location is, from the root of its scheme. -/
def Atlas.follow (a : Atlas) (s : Store) (l : Location) : Outcome Specifier :=
  match Keyed.get? l.scheme a.registry.schemes with
  | none => .error (.missingKey l.scheme)
  | some what =>
    Specifier.follow a s ⟨.atRoot what.document l.scheme, a.catalog.node what.schema, true⟩ l.segments

variable {a : Atlas} {s : Store} {spec there : Specifier}

/-- The motion of the method that selects a member under a name. -/
def accessorMotion (name : String) (v : Value) : Motion :=
  if name = "by_index" then .index v else if name = "by_name" then .name v else .id v

namespace Specifier

/-- Where a specifier stands. -/
def standing (spec : Specifier) : Atlas.Standing := ⟨spec.cursor, spec.node⟩

/-- A specifier that stands elsewhere. -/
def moved (spec : Specifier) (here : Atlas.Standing) : Specifier :=
  spec.derive here.cursor here.node

/-- No specifier has a name of its own that selects a member. -/
theorem builtins_accessor {name : String} (h : name ∈ Node.accessorNames) :
    builtins.contains name = false := by
  have hall : ∀ name ∈ Node.accessorNames, builtins.contains name = false := by decide
  exact hall name h

/-- What has no method of a name answers no location to a call of it. -/
theorem answered_of_not_hasMethod {name : String} (hname : name ∈ Node.accessorNames)
    (h : spec.node.hasMethod name = false) (v : Value) : spec.answered a s name v ≠ .ok there := by
  intro hanswer
  have hmethod : Keyed.get? name spec.node.methods = none := Option.not_isSome_iff_eq_none.mp
    (Bool.eq_false_iff.mp h)
  unfold answered call get at hanswer
  rw [builtins_accessor hname, if_neg Bool.false_ne_true, hmethod] at hanswer
  cases hchild : spec.child a.catalog name with
  | error f =>
    rw [hchild] at hanswer
    exact (nomatch hanswer)
  | ok c =>
    rw [hchild] at hanswer
    exact (nomatch hanswer)

/-- Calling the method that selects a member selects one of the item by its motion. -/
theorem call_accessor {item : NodeRef} {word name : String} {m : Method}
    (hword : Workshop.accessor? item word = some (name, m))
    (hmethod : Keyed.get? name spec.node.methods = some m)
    (hname : name ∈ Node.accessorNames) (v : Value) :
    (spec.call a name [v] s).1 = spec.selectMember a (accessorMotion name v) item := by
  unfold call get
  rw [builtins_accessor hname, if_neg Bool.false_ne_true, hmethod]
  unfold Workshop.accessor? at hword
  split at hword
  · obtain ⟨rfl, rfl⟩ := Prod.mk.inj (Option.some.inj hword)
    rfl
  · split at hword
    · obtain ⟨rfl, rfl⟩ := Prod.mk.inj (Option.some.inj hword)
      rfl
    · split at hword
      · obtain ⟨rfl, rfl⟩ := Prod.mk.inj (Option.some.inj hword)
        rfl
      · exact (nomatch hword)

/-- The method that selects a member leads where an address does. -/
theorem answered_eq_select {name : String} (hn : spec.node.Faithful)
    (hname : name ∈ Node.accessorNames) (h : spec.node.hasMethod name = true) (v : Value) :
    spec.answered a s name v =
      (a.select spec.standing (accessorMotion name v)).map spec.moved := by
  obtain ⟨m, hmethod⟩ := Option.isSome_iff_exists.mp h
  obtain ⟨-, item, word, hitem, hword⟩ := hn name hname m hmethod
  unfold answered
  rw [call_accessor hword hmethod hname]
  unfold selectMember Atlas.select Node.itemNode Node.itemNode?
  rw [show spec.standing.node.item = some item from hitem]
  dsimp only
  cases hc : (accessorMotion name v).apply spec.cursor with
  | error f =>
    rw [show (accessorMotion name v).apply spec.standing.cursor = .error f from hc]
    rfl
  | ok cursor =>
    rw [show (accessorMotion name v).apply spec.standing.cursor = .ok cursor from hc]
    cases item.find with
    | error f => rfl
    | ok id => rfl

/-- A call that would select a member answers a location exactly where an address leads to one. -/
theorem answered_iff {name : String} (hn : spec.node.Faithful) (hname : name ∈ Node.accessorNames)
    (v : Value) : spec.answered a s name v = .ok there ↔ spec.node.hasMethod name = true ∧
      ∃ member, a.select spec.standing (accessorMotion name v) = .ok member ∧
        spec.moved member = there := by
  constructor
  · intro h
    have hmethod : spec.node.hasMethod name = true := by
      by_contra hno
      exact answered_of_not_hasMethod hname (Bool.not_eq_true _ ▸ hno) v h
    rw [answered_eq_select hn hname hmethod] at h
    exact ⟨hmethod, map_eq_ok.mp h⟩
  · rintro ⟨hmethod, hselect⟩
    rw [answered_eq_select hn hname hmethod]
    exact map_eq_ok.mpr hselect

end Specifier

namespace Atlas

/-- Where a selection leads there is a faithful node, if all nodes are. -/
theorem select_faithful (hf : ∀ id, (a.catalog.node id).Faithful) {here found : Standing}
    {motion : Motion} (h : a.select here motion = .ok found) : found.node.Faithful := by
  obtain ⟨cursor, -, h⟩ := bind_eq_ok.mp h
  obtain ⟨member, hitem, h⟩ := bind_eq_ok.mp h
  obtain rfl := Except.ok.inj h
  exact Node.itemNode_of_forall (Node.faithful_of_methods rfl) hf hitem

/-- Where a head leads there is a faithful node, if all nodes are. -/
theorem moveByHead_faithful (hf : ∀ id, (a.catalog.node id).Faithful) {here found : Standing}
    {segment : Segment} (h : a.moveByHead here segment = .ok (.ok found)) :
    found.node.Faithful := by
  obtain ⟨children, hb, -⟩ := bind_eq_ok.mp h
  cases hk : Keyed.get? segment.head children with
  | some id =>
    rw [moveByHead_child hb hk] at h
    obtain ⟨-, hstep⟩ := enter_ok_iff.mp (Except.ok.inj h)
    unfold stepInto at hstep
    dsimp only at hstep
    split at hstep
    · next landing _ _ =>
      obtain ⟨_, -, hpair⟩ := map_eq_ok.mp hstep
      exact (Prod.mk.inj hpair).2 ▸ hf landing.target
    · obtain ⟨_, -, hpair⟩ := map_eq_ok.mp hstep
      exact (Prod.mk.inj hpair).2 ▸ hf id
  | none =>
    rw [moveByHead_member hb hk] at h
    split at h
    · exact select_faithful hf (map_ok_iff.mp h)
    · split at h
      · exact select_faithful hf (map_ok_iff.mp h)
      · exact (nomatch h)

/-- A declared child is where a head without a qualifier leads. -/
theorem child_iff {children : Keyed NodeId} {head : String} {id : NodeId}
    (hb : spec.node.below a.catalog = .ok children) (hk : Keyed.get? head children = some id) :
    spec.child a.catalog head = .ok there ↔
      ∃ found, a.enter spec.standing ⟨head, none⟩ (a.catalog.node id) = .ok found ∧
        spec.moved found = there := by
  unfold Specifier.child enter
  rw [hb, Option.isSome_none, Bool.and_false, if_neg Bool.false_ne_true]
  simp only [bind, Except.bind]
  rw [hk]
  rw [show spec.standing.cursor = spec.cursor from rfl]
  dsimp only
  cases stepInto a.catalog spec.cursor head (a.catalog.node id) with
  | error f => exact ⟨fun h => (nomatch h), fun ⟨_, h, _⟩ => (nomatch h)⟩
  | ok pair =>
    constructor
    · intro h
      exact ⟨_, rfl, Except.ok.inj h⟩
    · rintro ⟨found, h, rfl⟩
      obtain rfl := Except.ok.inj h
      rfl

/-- A head without a qualifier leads from a faithful node to where a chain of calls goes by it. -/
theorem followHead_iff (hn : spec.node.Faithful) (head : String) :
    spec.followHead a s head = .ok there ↔
      ∃ found, a.moveByHead spec.standing ⟨head, none⟩ = .ok (.ok found) ∧
        spec.moved found = there := by
  unfold Specifier.followHead moveByHead
  rw [show spec.standing.node = spec.node from rfl]
  cases hb : spec.node.below a.catalog with
  | error f => exact ⟨fun h => (nomatch h), fun ⟨_, h, _⟩ => (nomatch h)⟩
  | ok children =>
    simp only [bind, Except.bind]
    unfold Keyed.has
    cases hk : Keyed.get? head children with
    | some id =>
      rw [Option.isSome_some, if_pos rfl, child_iff hb hk]
      exact exists_congr fun found => and_congr_left fun _ =>
        ⟨fun h => congrArg Except.ok h, fun h => Except.ok.inj h⟩
    | none =>
      rw [Option.isSome_none, if_neg Bool.false_ne_true]
      dsimp only
      split
      · next hname =>
        rw [Specifier.answered_iff hn (by decide), and_iff_right hname]
        exact exists_congr fun found => and_congr_left fun _ => map_ok_iff.symm
      · split
        · next hid =>
          rw [Specifier.answered_iff hn (by decide), and_iff_right hid]
          exact exists_congr fun found => and_congr_left fun _ => map_ok_iff.symm
        · exact ⟨fun h => (nomatch h), fun ⟨_, h, _⟩ => (nomatch h)⟩

/-- A member that is selected where there is a method for it, and refused otherwise. -/
theorem selected_iff (hn : spec.node.Faithful) {name : String} (hname : name ∈ Node.accessorNames)
    (v : Value) (refused : Problem) :
    spec.answered a s name v = .ok there ↔ ∃ found,
      (if spec.node.hasMethod name then
          (a.select spec.standing (accessorMotion name v)).map (Except.ok : _ → Verdict Standing)
        else .ok (.error refused)) = .ok (.ok found) ∧ spec.moved found = there := by
  rw [Specifier.answered_iff hn hname]
  split
  · next hmethod =>
    rw [and_iff_right hmethod]
    exact exists_congr fun found => and_congr_left fun _ => map_ok_iff.symm
  · next hmethod => exact ⟨fun h => absurd h.1 hmethod, fun ⟨_, h, _⟩ => (nomatch h)⟩

/-- A qualifier of a head leads from a faithful node to where a chain of calls goes by it. -/
theorem followQualifier_iff (hn : spec.node.Faithful) {head : String} {q : Qualifier}
    (hs : Segment.IsStep ⟨head, some q⟩) :
    spec.followQualifier a s (some q) = .ok there ↔
      ∃ found, a.qualify spec.standing head q = .ok (.ok found) ∧ spec.moved found = there := by
  cases q with
  | index n => exact selected_iff hn (by decide) (.int n) (.noIndexAccess head)
  | id n => exact selected_iff hn (by decide) (.int n) (.noIdAccess head)
  | query r => exact absurd rfl (hs r)

/-- Where a qualifier leads there is a faithful node and no namespace was qualified. -/
theorem qualify_ok (hf : ∀ id, (a.catalog.node id).Faithful) {here found : Standing}
    (hn : here.node.Faithful) {head : String} {q : Qualifier}
    (hs : Segment.IsStep ⟨head, some q⟩) (h : a.qualify here head q = .ok (.ok found)) :
    found.node.Faithful ∧ here.node.isNamespace = false := by
  have hmember : ∀ name ∈ Node.accessorNames, here.node.hasMethod name = true →
      here.node.isNamespace = false := by
    intro name hname hmethod
    obtain ⟨m, hm⟩ := Option.isSome_iff_exists.mp hmethod
    exact (hn name hname m hm).1
  cases q with
  | index n =>
    unfold qualify at h
    dsimp only at h
    split at h
    · next hmethod =>
      exact ⟨select_faithful hf (map_ok_iff.mp h), hmember "by_index" (by decide) hmethod⟩
    · exact (nomatch h)
  | id n =>
    unfold qualify at h
    dsimp only at h
    split at h
    · next hmethod =>
      exact ⟨select_faithful hf (map_ok_iff.mp h), hmember "by_id" (by decide) hmethod⟩
    · exact (nomatch h)
  | query r => exact absurd rfl (hs r)

/-- A segment leads to where its qualifier leads from where its head leads, which is no namespace. -/
theorem moveBy_qualified_iff (hf : ∀ id, (a.catalog.node id).Faithful) {here found : Standing}
    {head : String} {q : Qualifier} (hs : Segment.IsStep ⟨head, some q⟩) :
    a.moveBy here ⟨head, some q⟩ = .ok (.ok found) ↔
      ∃ mid, a.moveByHead here ⟨head, none⟩ = .ok (.ok mid) ∧
        a.qualify mid head q = .ok (.ok found) := by
  unfold moveBy
  constructor
  · intro h
    obtain ⟨verdict, hhead, h⟩ := bind_eq_ok.mp h
    cases verdict with
    | error problem => exact (nomatch h)
    | ok mid => exact ⟨mid, moveByHead_bare hhead, h⟩
  · rintro ⟨mid, hhead, h⟩
    obtain ⟨-, hspace⟩ := qualify_ok hf (moveByHead_faithful hf hhead) hs h
    exact bind_eq_ok.mpr ⟨.ok mid, moveByHead_any hhead hspace _, h⟩

/-- A segment leads from a faithful node to where a chain of calls goes by it, and there is a
faithful node again. -/
theorem followSegment_iff (hf : ∀ id, (a.catalog.node id).Faithful) (hn : spec.node.Faithful)
    {segment : Segment} (hs : segment.IsStep) :
    spec.followSegment a s segment = .ok there ↔
      ∃ found, a.moveBy spec.standing segment = .ok (.ok found) ∧ spec.moved found = there := by
  obtain ⟨head, qualifier⟩ := segment
  cases qualifier with
  | none =>
    rw [moveBy_bare, ← followHead_iff hn]
    exact ⟨fun h => by
      obtain ⟨mid, hmid, h⟩ := bind_eq_ok.mp h
      exact Except.ok.inj h ▸ hmid, fun h => bind_eq_ok.mpr ⟨there, h, rfl⟩⟩
  | some q =>
    constructor
    · intro h
      obtain ⟨there, hhead, h⟩ := bind_eq_ok.mp h
      obtain ⟨mid, hmid, rfl⟩ := (followHead_iff hn head).mp hhead
      obtain ⟨found, hfound, hmoved⟩ := (followQualifier_iff (moveByHead_faithful hf hmid) hs).mp h
      exact ⟨found, (moveBy_qualified_iff hf hs).mpr ⟨mid, hmid, hfound⟩, hmoved⟩
    · rintro ⟨found, h, hmoved⟩
      obtain ⟨mid, hmid, hfound⟩ := (moveBy_qualified_iff hf hs).mp h
      have hqualifier : (spec.moved mid).followQualifier a s (some q) = .ok there :=
        (followQualifier_iff (moveByHead_faithful hf hmid) hs).mpr ⟨found, hfound, hmoved⟩
      exact bind_eq_ok.mpr ⟨spec.moved mid, (followHead_iff hn head).mpr ⟨mid, hmid, rfl⟩, hqualifier⟩

/-- Where a segment leads there is a faithful node. -/
theorem moveBy_faithful (hf : ∀ id, (a.catalog.node id).Faithful) {here found : Standing}
    {segment : Segment} (hs : segment.IsStep) (h : a.moveBy here segment = .ok (.ok found)) :
    found.node.Faithful := by
  obtain ⟨head, qualifier⟩ := segment
  cases qualifier with
  | none =>
    rw [moveBy_bare] at h
    exact moveByHead_faithful hf h
  | some q =>
    obtain ⟨mid, hmid, hfound⟩ := (moveBy_qualified_iff hf hs).mp h
    exact (qualify_ok hf (moveByHead_faithful hf hmid) hs hfound).1

/-- Segments lead from a faithful node to where a chain of calls goes by them, by induction along
the segments. -/
theorem follow_iff (hf : ∀ id, (a.catalog.node id).Faithful) (hn : spec.node.Faithful)
    {segments : List Segment} (hs : ∀ segment ∈ segments, segment.IsStep) :
    spec.follow a s segments = .ok there ↔
      ∃ found, a.walk spec.standing segments = .ok (.ok found) ∧ spec.moved found = there := by
  induction segments generalizing spec with
  | nil =>
    exact ⟨fun h => ⟨spec.standing, rfl, Except.ok.inj h⟩,
      fun ⟨found, h, h'⟩ => h' ▸ Except.ok.inj (Except.ok.inj h) ▸ rfl⟩
  | cons segment rest ih =>
    have hstep := hs segment List.mem_cons_self
    have hrest : ∀ segment ∈ rest, segment.IsStep := fun t ht => hs t (List.mem_cons_of_mem _ ht)
    constructor
    · intro h
      obtain ⟨mid, hmid, h⟩ := bind_eq_ok.mp h
      obtain ⟨stop, hstop, rfl⟩ := (followSegment_iff hf hn hstep).mp hmid
      obtain ⟨found, hfound, hmoved⟩ := (ih (moveBy_faithful hf hstep hstop) hrest).mp h
      exact ⟨found, bind_eq_ok.mpr ⟨.ok stop, hstop, hfound⟩, hmoved⟩
    · rintro ⟨found, h, hmoved⟩
      obtain ⟨verdict, hverdict, h⟩ := bind_eq_ok.mp h
      cases verdict with
      | error problem => exact (nomatch h)
      | ok stop =>
        have hfollow : (spec.moved stop).follow a s rest = .ok there :=
          (ih (moveBy_faithful hf hstep hverdict) hrest).mpr ⟨found, h, hmoved⟩
        exact bind_eq_ok.mpr
          ⟨spec.moved stop, (followSegment_iff hf hn hstep).mpr ⟨stop, hverdict, rfl⟩, hfollow⟩

/-- **The resolver and the specifier navigate alike.** In a catalog that is built without showing
bare references, an address without queries resolves to a specifier exactly if the chain of calls
along its segments, from the root of its scheme, ends at that very specifier: the same location, so
the same address and the same value, and the same node. -/
theorem resolve_iff_follow {w : Workshop} (hw : w.Built Workshop.ShowsMembers)
    (ha : a.catalog = w.catalog) {uri : String} {l : Location} (hread : Address.read uri = .ok (.ok l))
    (hs : ∀ segment ∈ l.segments, segment.IsStep) (s : Store) (spec : Specifier) :
    a.resolve uri = .ok (.ok spec) ↔ a.follow s l = .ok spec := by
  have hf : ∀ id, (a.catalog.node id).Faithful := ha ▸ hw.faithful
  have hlocate : a.resolve uri = a.locate l := by
    unfold resolve
    rw [hread]
    rfl
  rw [hlocate]
  unfold locate Atlas.follow
  cases Keyed.get? l.scheme a.registry.schemes with
  | none => exact ⟨fun h => (nomatch h), fun h => (nomatch h)⟩
  | some what =>
    dsimp only
    rw [follow_iff hf (hf what.schema) hs]
    constructor
    · intro h
      obtain ⟨verdict, hwalk, h⟩ := bind_eq_ok.mp h
      cases verdict with
      | error problem => exact (nomatch h)
      | ok found => exact ⟨found, hwalk, Except.ok.inj (Except.ok.inj h)⟩
    · rintro ⟨found, hwalk, rfl⟩
      exact bind_eq_ok.mpr ⟨.ok found, hwalk, rfl⟩

/-- A collection of folders, which are selected by position or by name. -/
def foldersBlueprint : Blueprint := .collection (.named "Folder") ["index", "name"]

/-- A folder with folders in it. -/
def folderBlueprint : Blueprint := .gathering [("name", .leaf none), ("folders", foldersBlueprint)]

/-- The workshop in which folders inside folders are built, with their root. -/
def builtFolders : Outcome (NodeId × Workshop) := do
  let w ← Workshop.ofDefinitions [("Folder", folderBlueprint)]
  w.buildWhole (.gathering [("folders", foldersBlueprint)])

/-- Folders inside folders are built without showing bare references. -/
theorem built_builtFolders {root : NodeId} {w : Workshop} (h : builtFolders = .ok (root, w)) :
    w.Built Workshop.ShowsMembers := by
  obtain ⟨first, hfirst, hwhole⟩ := bind_eq_ok.mp h
  have hname : (Blueprint.named "Folder").Every Workshop.ShowsMembers :=
    .intro trivial fun _ hpart => absurd hpart List.not_mem_nil
  have hleaf : (Blueprint.leaf none).Every Workshop.ShowsMembers :=
    .intro trivial fun _ hpart => absurd hpart List.not_mem_nil
  have hfolders : foldersBlueprint.Every Workshop.ShowsMembers :=
    .intro trivial (List.forall_mem_singleton.mpr hname)
  have hfolder : folderBlueprint.Every Workshop.ShowsMembers :=
    .intro trivial (List.forall_mem_cons.mpr ⟨hleaf, List.forall_mem_singleton.mpr hfolders⟩)
  have hroot : (Blueprint.gathering [("folders", foldersBlueprint)]).Every Workshop.ShowsMembers :=
    .intro trivial (List.forall_mem_singleton.mpr hfolders)
  exact .whole (.definitions (List.forall_mem_singleton.mpr hfolder) hfirst) hroot hwhole

/-- The folder at the first position of the one that is named A is reached both ways. -/
theorem resolve_iff_follow_folders : ∃ root w spec, builtFolders = .ok (root, w) ∧
    resolve ⟨w.catalog, ⟨[("s", ⟨0, root⟩)], false⟩⟩ "s://folders/A/folders[0]" = .ok (.ok spec) ∧
    ∀ s, Atlas.follow ⟨w.catalog, ⟨[("s", ⟨0, root⟩)], false⟩⟩ s
      ⟨"s", [⟨"folders", none⟩, ⟨"A", none⟩, ⟨"folders", some (.index 0)⟩]⟩ = .ok spec := by
  have hfound : (builtFolders.bind fun built => foundKind
      (resolve ⟨built.2.catalog, ⟨[("s", ⟨0, built.1⟩)], false⟩⟩ "s://folders/A/folders[0]")) =
      .ok (.ok .object) := by
    decide +kernel
  obtain ⟨⟨root, w⟩, hbuilt, hkind⟩ := bind_eq_ok.mp hfound
  obtain ⟨spec, hspec, -⟩ := exists_of_foundKind hkind
  have hread : Address.read "s://folders/A/folders[0]" =
      .ok (.ok ⟨"s", [⟨"folders", none⟩, ⟨"A", none⟩, ⟨"folders", some (.index 0)⟩]⟩) := by
    decide +kernel
  have hsteps : ∀ segment ∈ [(⟨"folders", none⟩ : Segment), ⟨"A", none⟩,
      ⟨"folders", some (.index 0)⟩], segment.IsStep := by
    intro segment hsegment r
    simp only [List.mem_cons, List.not_mem_nil, or_false] at hsegment
    rcases hsegment with rfl | rfl | rfl <;> exact fun h => (nomatch h)
  exact ⟨root, w, spec, hbuilt, hspec, fun s =>
    (resolve_iff_follow (built_builtFolders hbuilt) rfl hread hsteps s spec).mp hspec⟩

end Atlas

end ResourceAtlas

import ResourceAtlas.Proofs.Resource.Forms

/-!
# Listed addresses resolve

The addresses of entry points resolve, and so does every filled form of the templates, if the schemes
can start an address, keys are words, collections have no children of their own, and computed ways lead
somewhere. The walk through the nodes visits each of them once and collects only templates below
a form that leads to the node it visits.
-/

namespace ResourceAtlas.Resource

open Address Number Query Schema Text

variable {a : Atlas} {n : Node}

/-- The filled forms of templates resolve. -/
def AllLead (a : Atlas) (templates : List Template) : Prop :=
  ∀ t ∈ templates, ∀ given, Filled t.uriTemplate.toList given → Leads a given

/-- A way to collect templates that adds only some whose filled forms resolve, below a node that the
address reaches. -/
def Collects (a : Atlas) (collect : NodeId → String → Collected → Outcome Collected) : Prop :=
  ∀ id base out out', Reaches a base.toList (a.catalog.node id) → AllLead a out.templates →
    collect id base out = .ok out' → AllLead a out'.templates

/-- The address of a key below an address, with a text behind it. -/
theorem toList_below (base key tail : String) :
    (below base key ++ tail).toList = appendPiece base.toList (key.toList ++ tail.toList) := by
  unfold below appendPiece
  split
  · simp only [String.toList_append, List.append_assoc]
  · simp only [String.toList_append, List.append_assoc]
    rfl

namespace Orderly

/-- The templates of a collection below a node resolve, filled in. -/
theorem allLead_collection (ha : Orderly a) {id : NodeId} {base : String}
    (h : Reaches a base.toList (a.catalog.node id)) {children : Keyed NodeId}
    (hb : (a.catalog.node id).below a.catalog = .ok children) {child : String × NodeId}
    (hmem : child ∈ children)
    (hkind : (a.catalog.node (landingId a.catalog child.2)).kind.isCollection = true) {member : Node}
    (hitem : (a.catalog.node (landingId a.catalog child.2)).itemNode a.catalog = .ok member) :
    AllLead a (collectionTemplates (below base child.1) child.1
      (a.catalog.node (landingId a.catalog child.2))).1 := by
  intro t ht given hgiven
  rcases mem_collectionTemplates ht with huri | ⟨tail, hform, huri⟩
  · rw [huri, toList_below] at hgiven
    exact ha.leads_query h hb hmem hkind hgiven
  · rw [huri, toList_below] at hgiven
    exact h.leads_of_passes ha (ha.passes_member hb hmem hkind hitem hform) hgiven

/-- Collecting the templates of a child adds only some whose filled forms resolve. -/
theorem allLead_collectChild (ha : Orderly a)
    {collect : NodeId → String → Collected → Outcome Collected} (hcollect : Collects a collect)
    {id : NodeId} {base : String} (h : Reaches a base.toList (a.catalog.node id))
    {children : Keyed NodeId} (hb : (a.catalog.node id).below a.catalog = .ok children)
    {child : String × NodeId} (hmem : child ∈ children) {out out' : Collected}
    (hout : AllLead a out.templates) (hrun : collectChild a.catalog collect base out child = .ok out') :
    AllLead a out'.templates := by
  have hword := ((ha.keyed id hb).2 child.1 (List.mem_map_of_mem hmem)).1
  unfold collectChild at hrun
  dsimp only at hrun
  split at hrun
  · next hkind =>
    have hmore : ∀ {member}, (a.catalog.node (landingId a.catalog child.2)).itemNode a.catalog =
        .ok member → AllLead a (out.templates ++ (collectionTemplates (below base child.1) child.1
          (a.catalog.node (landingId a.catalog child.2))).1) := by
      intro member hitem t ht
      rcases List.mem_append.mp ht with ht | ht
      · exact hout t ht
      · exact ha.allLead_collection h hb hmem hkind hitem t ht
    split at hrun
    · next hnone =>
      obtain rfl := Except.ok.inj hrun
      have hitem : (a.catalog.node (landingId a.catalog child.2)).itemNode a.catalog =
          .ok passthrough := by
        rw [Node.itemNode, Node.itemNode?, hnone]
        rfl
      exact hmore hitem
    · next item hsome =>
      obtain ⟨itemId, hfind, hrun⟩ := bind_eq_ok.mp hrun
      have hitem : (a.catalog.node (landingId a.catalog child.2)).itemNode a.catalog =
          .ok (a.catalog.node itemId) := by
        rw [Node.itemNode, Node.itemNode?, hsome]
        dsimp only
        rw [hfind]
        rfl
      split at hrun
      · next memberBase hmember =>
        obtain ⟨tail, hform, rfl⟩ := memberForm_of_member hmember
        refine hcollect itemId _ _ _ ?_ (hmore hitem) hrun
        rw [toList_below]
        refine h.next (ha.passes_member hb hmem hkind hitem hform) fun text => ?_
        rw [← List.append_assoc]
        exact hform.ends _
      · obtain rfl := Except.ok.inj hrun
        exact hmore hitem
  · obtain ⟨inner, -, hrun⟩ := bind_eq_ok.mp hrun
    split at hrun
    · exact Except.ok.inj hrun ▸ hout
    · refine hcollect _ _ _ _ ?_ hout hrun
      have hbase := toList_below base child.1 ""
      rw [String.append_empty, String.toList_empty, List.append_nil] at hbase
      rw [hbase]
      exact h.next (ha.passes_child hb hmem) (endsAtRoot_append hword.toList_ne_nil hword.slash_not_mem)

/-- Collecting adds only templates whose filled forms resolve, by induction on how many nodes may still
lie on the way down. -/
theorem collects (ha : Orderly a) (fuel : Nat) : Collects a (collect a.catalog fuel) := by
  induction fuel with
  | zero => exact fun _ _ _ _ _ hout hrun => Except.ok.inj hrun ▸ hout
  | succ fuel ih =>
    intro id base out out' h hout hrun
    unfold collect at hrun
    split at hrun
    · exact Except.ok.inj hrun ▸ hout
    · obtain ⟨children, hb, hrun⟩ := bind_eq_ok.mp hrun
      exact foldlM_keeps (p := fun out => AllLead a out.templates)
        (fun child hmem _ _ hmid hchild => ha.allLead_collectChild ih h hb hmem hmid hchild) hout hrun

/-- The filled forms of the templates of a scheme resolve. -/
theorem allLead_scheme (ha : Orderly a) {scheme : String} {what : Registration}
    (h : (scheme, what) ∈ a.registry.schemes) {ts : List Template}
    (hts : schemeTemplates a.catalog scheme what = .ok ts) : AllLead a ts := by
  obtain ⟨out, hout, rfl⟩ := map_eq_ok.mp hts
  refine ha.collects _ what.schema (rootUri scheme) _ out ?_ (fun t ht => absurd ht List.not_mem_nil)
    hout
  have hroot : (rootUri scheme).toList = scheme.toList ++ schemeMark := String.toList_append
  rw [hroot]
  exact ha.reaches_root h

/-- The entry points of a scheme resolve. -/
theorem leads_entry (ha : Orderly a) {scheme : String} {what : Registration}
    (h : (scheme, what) ∈ a.registry.schemes) {es : List Entry}
    (hes : schemeEntries a.catalog scheme what = .ok es) {e : Entry} (he : e ∈ es) :
    Leads a e.uri.toList := by
  obtain ⟨children, hb, hes⟩ := bind_eq_ok.mp hes
  obtain rfl := Except.ok.inj hes
  obtain ⟨child, hmem, rfl⟩ := List.mem_map.mp he
  obtain ⟨hword, -⟩ := (ha.keyed what.schema hb).2 child.1 (List.mem_map_of_mem hmem)
  have huri : (below (rootUri scheme) child.1).toList =
      scheme.toList ++ schemeMark ++ child.1.toList := by
    have hbelow := toList_below (rootUri scheme) child.1 ""
    have hroot : (rootUri scheme).toList = scheme.toList ++ schemeMark := String.toList_append
    rw [String.append_empty, String.toList_empty, List.append_nil, hroot, appendPiece_root] at hbelow
    exact hbelow
  have hread : segments child.1.toList = .ok [⟨child.1, none⟩] := by
    have hslash := (Spells.bare hword).readSegments_eq []
    rw [readSegments_slash] at hslash
    exact hslash
  obtain ⟨mid, hmove, -⟩ := ha.enters hb hmem ⟨scheme, what, [], h, rfl⟩ rfl rfl
  rw [huri]
  exact ha.leads h hread ((Atlas.walk_singleton a _ _).trans hmove)

end Orderly

/-- What is made of all schemes is made of some of them. -/
theorem mem_overSchemes {α : Type} {f : String → Registration → Outcome (List α)}
    {schemes : Keyed Registration} {all : List α} (h : overSchemes f schemes = .ok all) {x : α}
    (hx : x ∈ all) :
    ∃ scheme what own, (scheme, what) ∈ schemes ∧ f scheme what = .ok own ∧ x ∈ own := by
  induction schemes generalizing all with
  | nil =>
    obtain rfl := Except.ok.inj h
    exact absurd hx List.not_mem_nil
  | cons e rest ih =>
    obtain ⟨own, hown, h⟩ := bind_eq_ok.mp h
    obtain ⟨more, hmore, h⟩ := bind_eq_ok.mp h
    obtain rfl := Except.ok.inj h
    rcases List.mem_append.mp hx with hx | hx
    · exact ⟨e.1, e.2, own, List.mem_cons_self, hown, hx⟩
    · obtain ⟨scheme, what, own, hmem, hrest⟩ := ih hmore hx
      exact ⟨scheme, what, own, List.mem_cons_of_mem e hmem, hrest⟩

/-- Something is made of all schemes if it is of each of them. -/
theorem overSchemes_ok {α : Type} {f : String → Registration → Outcome (List α)}
    (hf : ∀ scheme what, ∃ own, f scheme what = .ok own) (schemes : Keyed Registration) :
    ∃ all, overSchemes f schemes = .ok all := by
  induction schemes with
  | nil => exact ⟨[], rfl⟩
  | cons e rest ih =>
    obtain ⟨own, hown⟩ := hf e.1 e.2
    obtain ⟨more, hmore⟩ := ih
    exact ⟨own ++ more, bind_eq_ok.mpr ⟨own, hown, bind_eq_ok.mpr ⟨more, hmore, rfl⟩⟩⟩

/-- Every name in a catalog is defined. -/
structure Defined (c : Catalog) : Prop where
  /-- All children were built. -/
  children : ∀ id, ∃ own, (c.node id).children = .ok own
  /-- Members have nodes that are there. -/
  items : ∀ id item, (c.node id).item = some item → ∃ member, item.find = .ok member

namespace Defined

variable {c : Catalog}

/-- The children below every node can be listed. -/
theorem below (hc : Defined c) (id : NodeId) : ∃ children, (c.node id).below c = .ok children := by
  unfold Node.below
  split
  · exact hc.children _
  · exact hc.children id

/-- Templates can be collected below every node. -/
theorem collect_ok (hc : Defined c) (fuel : Nat) (id : NodeId) (base : String) (out : Collected) :
    ∃ out', collect c fuel id base out = .ok out' := by
  induction fuel generalizing id base out with
  | zero => exact ⟨out, rfl⟩
  | succ fuel ih =>
    unfold collect
    split
    · exact ⟨out, rfl⟩
    · obtain ⟨children, hb⟩ := hc.below id
      have hchild : ∀ child ∈ children, ∀ out,
          ∃ out', collectChild c (collect c fuel) base out child = .ok out' := by
        intro child _ out
        unfold collectChild
        dsimp only
        split
        · split
          · exact ⟨_, rfl⟩
          · next item hitem =>
            obtain ⟨member, hmember⟩ := hc.items _ item hitem
            rw [hmember]
            simp only [bind, Except.bind]
            split
            · exact ih _ _ _
            · exact ⟨_, rfl⟩
        · obtain ⟨inner, hinner⟩ := hc.below (landingId c child.2)
          rw [hinner]
          simp only [bind, Except.bind]
          split
          · exact ⟨_, rfl⟩
          · exact ih _ _ _
      obtain ⟨out', hout'⟩ := foldlM_ok hchild { out with seen := id :: out.seen }
      exact ⟨out', bind_eq_ok.mpr ⟨children, hb, hout'⟩⟩

/-- Entry points and templates can be listed. -/
theorem listed_ok (hc : Defined a.catalog) :
    (∃ es, entries a = .ok es) ∧ ∃ ts, templates a = .ok ts := by
  refine ⟨overSchemes_ok (fun scheme what => ?_) _, overSchemes_ok (fun scheme what => ?_) _⟩
  · obtain ⟨children, hb⟩ := hc.below what.schema
    exact ⟨_, bind_eq_ok.mpr ⟨children, hb, rfl⟩⟩
  · obtain ⟨out, hout⟩ := hc.collect_ok (a.catalog.size + 2) what.schema (rootUri scheme) ⟨[], []⟩
    exact ⟨out.templates, map_eq_ok.mpr ⟨out, hout, rfl⟩⟩

end Defined

/-- **Advertised addresses resolve.** In an advertisable atlas over a catalog that is built, every
address that is listed as an entry point resolves, and so does every template with something that fits
filled in for each of its blanks. Where every name is defined both can be listed. -/
theorem listed_resolve {admits : Blueprint → Prop} {w : Workshop} (hw : w.Built admits)
    (hcatalog : a.catalog = w.catalog) (hregistry : a.registry.Made) (ha : Advertisable a) :
    (∀ es, entries a = .ok es → ∀ e ∈ es, ∃ spec, a.resolve e.uri = .ok (.ok spec)) ∧
    (∀ ts, templates a = .ok ts → ∀ t ∈ ts, ∀ given, Filled t.uriTemplate.toList given →
      ∃ spec, a.resolve (String.ofList given) = .ok (.ok spec)) ∧
    (Defined a.catalog → (∃ es, entries a = .ok es) ∧ ∃ ts, templates a = .ok ts) := by
  have horderly : Orderly a :=
    ⟨ha, hregistry.nodup, hcatalog ▸ hw.distinct, hcatalog ▸ hw.landed⟩
  refine ⟨fun es hes e he => ?_, fun ts hts t ht => ?_, Defined.listed_ok⟩
  · obtain ⟨scheme, what, own, hmem, hown, he⟩ := mem_overSchemes hes he
    obtain ⟨spec, hspec⟩ := horderly.leads_entry hmem hown he
    rw [String.ofList_toList] at hspec
    exact ⟨spec, hspec⟩
  · obtain ⟨scheme, what, own, hmem, hown, ht⟩ := mem_overSchemes hts ht
    exact horderly.allLead_scheme hmem hown t ht

/-- Folders that are selected in every way. -/
def cabinetFolders : Blueprint := .collection (.named "Folder") ["index", "name", "id"]

/-- The workshop of a root with a computed way to the first folder, the folders, in which folders lie
again, and a group with folders that are selected by name alone. -/
def builtCabinet : Outcome (NodeId × Workshop) := do
  let w ← Workshop.ofDefinitions
    [("Folder", .deferred [("name", .leaf none), ("folders", cabinetFolders)])]
  w.buildWhole (.gathering [
    ("first", .reached (.named "Folder") [.property "folders", .index (.int 0)]),
    ("folders", cabinetFolders),
    ("group", .grouping (.gathering [("shelf", .collection (.named "Folder") ["name"])]))])

/-- The cabinet under a scheme. -/
def cabinet (built : NodeId × Workshop) (scheme : String) : Atlas :=
  ⟨built.2.catalog, ⟨[(scheme, ⟨0, built.1⟩)], false⟩⟩

/-- The cabinet is built and registered, every node of it can be listed, and its computed way leads to a
folder. -/
theorem cabinet_listable {built : NodeId × Workshop} (h : builtCabinet = .ok built) (scheme : String) :
    built.2.Built (fun _ => True) ∧ (cabinet built scheme).registry.Made ∧
      (∀ id, Listable ((cabinet built scheme).catalog.node id)) ∧ (cabinet built scheme).Guided := by
  have hcheck : (builtCabinet.map fun built =>
      decide (∀ n ∈ built.2.catalog.nodes.toList, Listable n ∧ n.Descends)) = .ok true := by
    decide +kernel
  rw [h] at hcheck
  have hnodes := of_decide_eq_true (Except.ok.inj hcheck)
  have hnode : ∀ id, Listable (built.2.catalog.node id) ∧ (built.2.catalog.node id).Descends :=
    Catalog.forall_node (by decide) hnodes
  obtain ⟨first, hfirst, hwhole⟩ := bind_eq_ok.mp h
  have hevery := Blueprint.every_of_forall (fun _ => trivial)
  refine ⟨.whole (.definitions (fun e _ => hevery e.2) hfirst) (hevery _) hwhole,
    .register .empty rfl, fun id => (hnode id).1, Atlas.LeadsInside.guided ?_⟩
  exact Atlas.leadsInside_of_descends fun id => (hnode id).2

/-- The listed addresses of the cabinet resolve. -/
theorem listed_resolve_cabinet : ∃ built es ts, builtCabinet = .ok built ∧
    entries (cabinet built "s") = .ok es ∧ templates (cabinet built "s") = .ok ts ∧
    es.map Entry.uri = ["s://first", "s://folders", "s://group"] ∧
    ts.map Template.uriTemplate = [
      "s://first/folders[\x7bindex\x7d]", "s://first/folders/\x7bid\x7d",
      "s://first/folders/\x7bname\x7d", "s://first/folders?\x7bfilter\x7d",
      "s://folders[\x7bindex\x7d]", "s://folders/\x7bid\x7d", "s://folders/\x7bname\x7d",
      "s://folders?\x7bfilter\x7d", "s://group/shelf/\x7bname\x7d",
      "s://group/shelf?\x7bfilter\x7d"] ∧
    (∀ e ∈ es, ∃ spec, (cabinet built "s").resolve e.uri = .ok (.ok spec)) ∧
    ∀ t ∈ ts, ∀ given, Filled t.uriTemplate.toList given →
      ∃ spec, (cabinet built "s").resolve (String.ofList given) = .ok (.ok spec) := by
  have hlisted : (builtCabinet.bind fun built => do
      let es ← entries (cabinet built "s")
      let ts ← templates (cabinet built "s")
      .ok (es.map Entry.uri, ts.map Template.uriTemplate)) = .ok
        (["s://first", "s://folders", "s://group"], [
          "s://first/folders[\x7bindex\x7d]", "s://first/folders/\x7bid\x7d",
          "s://first/folders/\x7bname\x7d", "s://first/folders?\x7bfilter\x7d",
          "s://folders[\x7bindex\x7d]", "s://folders/\x7bid\x7d", "s://folders/\x7bname\x7d",
          "s://folders?\x7bfilter\x7d", "s://group/shelf/\x7bname\x7d",
          "s://group/shelf?\x7bfilter\x7d"]) := by
    decide +kernel
  obtain ⟨built, hbuilt, hlisted⟩ := bind_eq_ok.mp hlisted
  obtain ⟨es, hes, hlisted⟩ := bind_eq_ok.mp hlisted
  obtain ⟨ts, hts, hlisted⟩ := bind_eq_ok.mp hlisted
  obtain ⟨huris, hforms⟩ := Prod.mk.inj (Except.ok.inj hlisted)
  obtain ⟨hw, hmade, hlistable, hguided⟩ := cabinet_listable hbuilt "s"
  have hadvertisable : Advertisable (cabinet built "s") := by
    refine ⟨fun scheme hscheme => ?_, hlistable, hguided⟩
    obtain rfl : scheme = "s" := List.mem_singleton.mp hscheme
    exact ⟨by decide, by decide, unblanked_of_not_mem (by decide)⟩
  obtain ⟨hentries, htemplates, -⟩ := listed_resolve hw rfl hmade hadvertisable
  exact ⟨built, es, ts, hbuilt, hes, hts, huris, hforms, hentries es hes, htemplates ts hts⟩

/-- Under a scheme without characters an entry point of the cabinet does not resolve, and under one that
is a blank itself a template does not, filled in throughout: neither can start an address. -/
theorem listed_unresolved_cabinet : ∃ built, builtCabinet = .ok built ∧
    (∀ scheme, built.2.Built (fun _ => True) ∧ (cabinet built scheme).registry.Made ∧
      (∀ id, Listable ((cabinet built scheme).catalog.node id)) ∧ (cabinet built scheme).Guided) ∧
    (¬ schemeMark <:+: "".toList ∧ ¬ schemeMark <:+: "\x7bid\x7d".toList) ∧
    (∃ es, entries (cabinet built "") = .ok es ∧ ∃ e ∈ es, e.uri = "://folders" ∧
      (cabinet built "").resolve e.uri = .ok (.error .emptyScheme)) ∧
    ∃ ts, templates (cabinet built "\x7bid\x7d") = .ok ts ∧ ∃ t ∈ ts,
      t.uriTemplate = "\x7bid\x7d://folders/\x7bid\x7d" ∧
      Filled t.uriTemplate.toList "0://folders/0".toList ∧
      (cabinet built "\x7bid\x7d").resolve "0://folders/0" =
        .ok (.error (.unknownScheme "0" ["\x7bid\x7d"])) := by
  have hlisted : (builtCabinet.bind fun built => do
      let es ← entries (cabinet built "")
      let ts ← templates (cabinet built "\x7bid\x7d")
      .ok (decide ("://folders" ∈ es.map Entry.uri),
        decide ("\x7bid\x7d://folders/\x7bid\x7d" ∈ ts.map Template.uriTemplate))) =
      .ok (true, true) := by
    decide +kernel
  obtain ⟨built, hbuilt, hlisted⟩ := bind_eq_ok.mp hlisted
  obtain ⟨es, hes, hlisted⟩ := bind_eq_ok.mp hlisted
  obtain ⟨ts, hts, hlisted⟩ := bind_eq_ok.mp hlisted
  obtain ⟨huri, hform⟩ := Prod.mk.inj (Except.ok.inj hlisted)
  obtain ⟨e, he, heuri⟩ := List.mem_map.mp (of_decide_eq_true huri)
  obtain ⟨t, ht, htform⟩ := List.mem_map.mp (of_decide_eq_true hform)
  refine ⟨built, hbuilt, cabinet_listable hbuilt, ⟨by decide, by decide⟩,
    ⟨es, hes, e, he, heuri, ?_⟩, ts, hts, t, ht, htform, ?_, ?_⟩
  · have hread : Address.read "://folders" = .ok (.error .emptyScheme) := by decide +kernel
    rw [heuri, Atlas.resolve, hread]
    rfl
  · rw [htform]
    have hzero : 0 < 10 ^ Numeral.maxDigits := Nat.pow_pos (by decide)
    exact .blank (.id hzero)
      (.unbraced (s := "://folders/".toList) (by decide) (.blank (.id hzero) .nil))
  · have hread : Address.read "0://folders/0" =
        .ok (.ok ⟨"0", [⟨"folders", some (.id 0)⟩]⟩) := by decide +kernel
    rw [Atlas.resolve_of_read hread]
    rfl

end ResourceAtlas.Resource

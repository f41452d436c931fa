import ResourceAtlas.Proofs.Registry.Stem
import ResourceAtlas.Proofs.Specifier.Gathered

/-!
# Fields by their own addresses

The address of a gathering with the key of a child behind it leads to that child. What the gathering
holds under the key is then the reference to the child, or the child's own value, and nothing where the
child has none.
-/

namespace ResourceAtlas.Atlas

open Address Number Query Schema Text

variable {a : Atlas}

/-- The address of a declared child: that of its gathering with the key behind it. -/
def fieldUri (own key : String) : String :=
  own ++ "/" ++ Percent.encodeString key

/-- A key that can stand in an address as a head of its own. -/
structure PlainKey (key : String) : Prop where
  /-- It has characters. -/
  nonempty : key ≠ ""
  /-- It does not read as an integer. -/
  word : Digit.isInteger key.toList = false
  /-- No bracket opens in it. -/
  unopened : '[' ∉ key.toList
  /-- No query starts in it. -/
  unasked : '?' ∉ key.toList

/-- A plain key behind segments becomes a segment of its own. -/
theorem PlainKey.readBehind {key : String} (h : PlainKey key) (found : List Segment) :
    (Piece.text key).readBehind found = .ok (found ++ [⟨key, none⟩]) := by
  unfold Piece.readBehind
  dsimp only
  rw [if_neg h.nonempty, h.word]
  rfl

/-- The address of a child as a text behind that of its gathering. -/
theorem fieldUri_ofList (own : List Char) (key : String) :
    fieldUri (String.ofList own) key = String.ofList (own ++ (Piece.text key).write) := by
  apply String.toList_inj.mp
  simp only [fieldUri, Percent.encodeString, Piece.write, String.toList_append, String.toList_ofList,
    List.append_assoc]
  rfl

/-- The location of a declared child. -/
def childOf (a : Atlas) (spec : Specifier) (key : String) (id : NodeId) : Specifier :=
  ⟨spec.cursor.entered (childSelector key (a.catalog.node id)) (.prop key), a.catalog.node id, true⟩

/-- The address that is reported for what an address without queries leads to can be written. With the
key of a declared child behind it, it leads to that child, whose own address can be written. -/
theorem resolve_field (hd : a.catalog.Direct) {uri : String} {l : Location} {spec : Specifier}
    (hread : Address.read uri = .ok (.ok l))
    (hheads : ∀ s ∈ l.segments, s.head ≠ "" ∧ '[' ∉ s.head.toList)
    (hsteps : ∀ s ∈ l.segments, s.IsStep) (h : a.resolve uri = .ok (.ok spec)) :
    ∃ own, spec.uri = .ok own ∧ spec.cursor.isOutside = false ∧
      ∀ {children : Keyed NodeId}, spec.node.below a.catalog = .ok children →
        ∀ {key : String} {id : NodeId}, Keyed.get? key children = some id → PlainKey key →
          a.resolve (fieldUri own key) = .ok (.ok (a.childOf spec key id)) ∧
            ∃ text, (a.childOf spec key id).uri = .ok text := by
  have hclear : l.Clear := ⟨hheads, fun s hs => hsteps s (List.mem_of_mem_dropLast hs)⟩
  have hscheme := readableScheme_of_read hread
  obtain ⟨hw, hunfolded⟩ := writable_of_clear hread hclear
  have hwritable : Writable l.segments := ⟨hw, hsteps, hunfolded⟩
  rw [resolve_of_read hread] at h
  obtain ⟨what, there, hwhat, hwalk, rfl⟩ := locate_ok h
  obtain ⟨htext, hin, hquery⟩ := walk_uri hd hw hsteps hwalk
  have hown := uri_of_text hin htext "" (by rw [hquery]; rfl)
  rw [if_pos rfl] at hown
  refine ⟨_, hown, hin, fun hbelow key id hk hkey => ?_⟩
  have hplain : (Piece.text key).Plain := ⟨hkey.unopened, hkey.unasked⟩
  have hbehind := hkey.readBehind l.segments
  have hextended : Writable (l.segments ++ [⟨key, none⟩]) :=
    writable_readBehind hwritable hplain (fun i hi => (nomatch hi)) hbehind
  have hchild : a.walk (a.start l.scheme what) (l.segments ++ [⟨key, none⟩]) =
      .ok (.ok ⟨there.cursor.entered (childSelector key (a.catalog.node id)) (.prop key),
        a.catalog.node id⟩) := by
    rw [walk_concat hwalk]
    exact moveBy_of_move hd hin (.bare (.child hbelow hk)) fun h => absurd h Bool.false_ne_true
  refine ⟨?_, ?_⟩
  · have hreadchild := read_behind hscheme hwritable hplain
    rw [hbehind] at hreadchild
    rw [fieldUri_ofList, resolve_of_read hreadchild]
    exact locate_of_walk hwhat hchild
  · obtain ⟨hchildtext, hchildin, hchildquery⟩ := walk_uri hd hextended.each hextended.steps hchild
    exact ⟨_, uri_of_text hchildin hchildtext "" (by rw [hchildquery]; rfl)⟩

/-- Where an address leads, the kind of the node tells whether its value is gathered, and its children
stand under distinct keys. -/
theorem resolve_composed (hd : a.catalog.Direct) (hc : a.catalog.Composed) {uri : String}
    {spec : Specifier} (h : a.resolve uri = .ok (.ok spec)) :
    spec.node.Composed ∧ spec.node.Distinct := by
  obtain ⟨l, -, hlocate⟩ := resolve_ok h
  obtain ⟨what, there, -, hwalk, rfl⟩ := locate_ok hlocate
  exact walk_everywhere hc.everywhere (straight_of_direct hd _ _)
    ⟨hc.node what.schema, hc.distinct what.schema⟩ hwalk

/-- What a gathering holds under the key of a child: a reference to the child that is shown as one,
else the value of the child, and nothing where the child has none. -/
theorem resolve_gathered (hd : a.catalog.Direct) (hc : a.catalog.Composed) (hg : a.catalog.Grounded)
    (store : Store) {uri : String} {l : Location} {spec : Specifier}
    (hread : Address.read uri = .ok (.ok l))
    (hheads : ∀ s ∈ l.segments, s.head ≠ "" ∧ '[' ∉ s.head.toList)
    (hsteps : ∀ s ∈ l.segments, s.IsStep) (h : a.resolve uri = .ok (.ok spec))
    (hgathers : spec.node.gathers = true) {children : Keyed NodeId}
    (hbelow : spec.node.below a.catalog = .ok children) :
    ∃ own entries, spec.uri = .ok own ∧ spec.resolve a.catalog store = .ok (.mapping entries) ∧
      (Keyed.keys entries).Sublist (Keyed.keys children) ∧
      ∀ key id, Keyed.get? key children = some id → PlainKey key →
        ∃ there, a.resolve (fieldUri own key) = .ok (.ok there) ∧
          if (a.catalog.node id).isLazy then
            ∃ text, there.uri = .ok text ∧
              Keyed.get? key entries = some (.mapping [("uri", .text text)])
          else ∀ v, Keyed.get? key entries = some v ↔ there.resolve a.catalog store = .ok v := by
  obtain ⟨own, hown, hin, hfield⟩ := resolve_field hd hread hheads hsteps h
  obtain ⟨hnode, hdistinct⟩ := resolve_composed hd hc h
  obtain ⟨entries, hentries, hsub⟩ := gather_ok hown children
  have hvalue : spec.resolve a.catalog store = .ok (.mapping entries) := by
    unfold Specifier.resolve Catalog.depth
    rw [resolveWithin, hnode.mp hgathers]
    dsimp only
    rw [hbelow]
    exact map_eq_ok.mpr ⟨entries, hentries, rfl⟩
  refine ⟨own, entries, hown, hvalue, hsub, fun key id hk hkey => ?_⟩
  obtain ⟨hchild, text, htext⟩ := hfield hbelow hk hkey
  refine ⟨_, hchild, ?_⟩
  have hget := get?_gather (hc.below hdistinct hbelow) hentries hk
  have hstep := stepInto_inside a.catalog (hd id) hin key
  split
  · next hlazy =>
    refine ⟨text, htext, (hget _).mpr ?_⟩
    unfold childValue
    dsimp only
    rw [hstep]
    simp only [bind, Except.bind]
    rw [if_pos hlazy, reference]
    exact map_eq_ok.mpr ⟨text, htext, rfl⟩
  · next hlazy =>
    intro v
    rw [hget v]
    unfold childValue
    dsimp only
    rw [hstep]
    simp only [bind, Except.bind]
    rw [if_neg hlazy, resolveWithin_deep hc.node hg hd.unasking store id rfl (by omega)]
    rfl

/-- The nodes of drawers: each has a name, a size under another key of the data, notes that are shown as
a reference, the same notes as a grouping, and a label. -/
def drawerNodes : List Node := [
  Node.gathering [("drawers", 1)],
  { Node.plain .collection .members with
    item := some (.node 2)
    methods := [("by_index", .byIndex (.node 2))] ++ Node.queryMethods },
  Node.gathering [("name", 3), ("size", 4), ("notes", 5), ("about", 6), ("label", 3)],
  Node.leaf (some .text),
  (Node.leaf none).aliasing "n",
  (Node.gathering [("name", 3)]).delayed,
  Node.grouping 5 (Node.gathering [])]

/-- Drawers under a scheme. -/
def drawers : Atlas where
  catalog := ⟨drawerNodes.toArray⟩
  registry := ⟨[("s", ⟨0, 0⟩)], false⟩

/-- A store with one drawer, which has no label. -/
def drawerStore : Store :=
  ⟨#[.mapping [("drawers", .list [.mapping
    [("name", .text "A"), ("n", .int 3), ("notes", .mapping [("name", .text "B")])]])]]⟩

/-- The nodes of drawers tell by their kinds whether they gather values. -/
theorem drawers_composed : drawers.catalog.Composed := by
  refine ⟨Catalog.forall_node (Node.composed_of_apart rfl Resolution.noConfusion) (by decide),
    Catalog.forall_node (Node.distinct_of_nil rfl) fun n hn own hown => ?_⟩
  have hkeys : ∀ n ∈ drawerNodes, (Keyed.keys (n.children.toOption.getD [])).Nodup := by decide
  have hnodup := hkeys n hn
  rw [hown] at hnodup
  exact hnodup

/-- No computed way leads to a drawer. -/
theorem drawers_direct : drawers.catalog.Direct :=
  Catalog.forall_node (p := fun n => n.landing = none) rfl (by decide)

/-- The nodes of drawers hold each other in no circle. -/
theorem drawers_grounded : drawers.catalog.Grounded :=
  Catalog.grounded_of_rank
    (fun id => if id = 2 then 2 else if id = 1 ∨ id = 3 ∨ id = 4 then 0 else 1) (by decide +kernel)

/-- The fields of a drawer are gathered from their own addresses. -/
theorem resolve_gathered_drawers :
    ∃ spec own entries, drawers.resolve "s://drawers[0]" = .ok (.ok spec) ∧ spec.uri = .ok own ∧
      spec.resolve drawers.catalog drawerStore = .ok (.mapping entries) ∧
      (Keyed.keys entries).Sublist ["name", "size", "notes", "about", "label"] ∧
      ∃ size notes text, drawers.resolve (fieldUri own "size") = .ok (.ok size) ∧
        (∀ v, Keyed.get? "size" entries = some v ↔
          size.resolve drawers.catalog drawerStore = .ok v) ∧
        drawers.resolve (fieldUri own "notes") = .ok (.ok notes) ∧ notes.uri = .ok text ∧
        Keyed.get? "notes" entries = some (.mapping [("uri", .text text)]) := by
  have hread : Address.read "s://drawers[0]" = .ok (.ok ⟨"s", [⟨"drawers", some (.index 0)⟩]⟩) := by
    decide +kernel
  have hfound : (drawers.resolve "s://drawers[0]").map (fun verdict => verdict.map fun spec =>
      (spec.node.gathers, spec.node.below drawers.catalog)) = .ok (.ok (true,
        .ok [("name", 3), ("size", 4), ("notes", 5), ("about", 6), ("label", 3)])) := by
    decide +kernel
  obtain ⟨verdict, h, hverdict⟩ := map_eq_ok.mp hfound
  obtain ⟨spec, rfl, hspec⟩ := map_eq_ok.mp hverdict
  obtain ⟨hgathers, hbelow⟩ := Prod.mk.inj hspec
  have hsteps : ∀ s ∈ [(⟨"drawers", some (.index 0)⟩ : Segment)], s.IsStep := by
    intro s hs r hr
    obtain rfl := List.mem_singleton.mp hs
    exact (nomatch hr)
  obtain ⟨own, entries, hown, hvalue, hsub, hfields⟩ := resolve_gathered drawers_direct
    drawers_composed drawers_grounded drawerStore hread (by decide) hsteps h hgathers hbelow
  obtain ⟨size, hsize, hsizeValue⟩ := hfields "size" 4 (by decide)
    ⟨by decide, by decide, by decide, by decide⟩
  obtain ⟨notes, hnotes, text, htext, hnotesValue⟩ := hfields "notes" 5 (by decide)
    ⟨by decide, by decide, by decide, by decide⟩
  exact ⟨spec, own, entries, h, hown, hvalue, hsub, size, notes, text, hsize, hsizeValue, hnotes, htext,
    hnotesValue⟩

end ResourceAtlas.Atlas

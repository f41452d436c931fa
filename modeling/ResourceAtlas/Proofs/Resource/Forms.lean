import ResourceAtlas.Proofs.Address.Step
import ResourceAtlas.Proofs.Address.Word
import ResourceAtlas.Proofs.Registry.Guided
import ResourceAtlas.Proofs.Resource.Filled
import ResourceAtlas.Resource.Listing

/-!
# Forms of addresses that lead somewhere

A form of addresses is made piece by piece: of the root of a scheme, keys of children, and tails in
which members of collections are addressed. What its making keeps is that the form, filled in and gone
on with after a slash, starts an address that leads to a location with the children of the node it has
come to. So whatever stands behind it is read and walked from there.
-/

namespace ResourceAtlas.Resource

open Address Number Query Schema Text

/-- A node whose children, or members, can be listed. -/
structure Listable (n : Node) : Prop where
  /-- The keys of its own children are words without opening braces. -/
  keys : ∀ own, n.children = .ok own → ∀ key ∈ Keyed.keys own, IsWord key ∧ '\x7b' ∉ key.toList
  /-- A collection has no children, neither its own nor as a namespace. -/
  collections : n.kind.isCollection = true → n.groups = none ∧ n.children = .ok []

instance (n : Node) : Decidable (Listable n) :=
  decidable_of_iff ((∀ key ∈ Keyed.keys (n.children.toOption.getD []), IsWord key ∧
      '\x7b' ∉ key.toList) ∧
      (n.kind.isCollection = true → n.groups = none ∧ n.children = .ok [])) (by
    refine ⟨fun h => ⟨fun own hown => ?_, h.2⟩, fun h => ⟨?_, h.collections⟩⟩
    · have hkeys := h.1
      rw [hown] at hkeys
      exact hkeys
    · cases hc : n.children with
      | error f => exact fun key hkey => absurd hkey List.not_mem_nil
      | ok own => exact h.keys own hc)

/-- An atlas whose listed addresses say where they lead. -/
structure Advertisable (a : Atlas) : Prop where
  /-- An address can start with each scheme, and schemes hold no blanks. -/
  schemes : ∀ scheme ∈ a.registry.names,
    scheme ≠ "" ∧ ¬ schemeMark <:+: scheme.toList ∧ Unblanked scheme.toList
  /-- Every node can be listed. -/
  listable : ∀ id, Listable (a.catalog.node id)
  /-- No computed way breaks off or leaves all documents. -/
  guided : a.Guided

/-- An advertisable atlas as it is built: every scheme and every child has its own name, and computed
ways lead to nodes of the same grouping. -/
structure Orderly (a : Atlas) : Prop extends Advertisable a where
  /-- Every scheme is registered once. -/
  names : a.registry.names.Nodup
  /-- Every node has its children under distinct keys. -/
  distinct : ∀ id, (a.catalog.node id).Distinct
  /-- Computed ways lead to nodes of the same grouping. -/
  landed : a.catalog.Landed

/-- An address resolves. -/
def Leads (a : Atlas) (uri : List Char) : Prop :=
  ∃ spec, a.resolve (String.ofList uri) = .ok (.ok spec)

/-- A text that starts an address as a location of a node does, and goes on with a text after a
slash. -/
inductive GoesOn (a : Atlas) (n : Node) (more : List Char) : List Char → Prop
  /-- The segments before the text lead to the location. -/
  | intro {scheme : String} {what : Registration} {path : List Char} {found : List Segment}
      {there : Atlas.Standing} (hscheme : (scheme, what) ∈ a.registry.schemes)
      (hread : segments path = readSegments found.reverse (.ofText ('/' :: more)))
      (hwalk : a.walk (a.start scheme what) found = .ok (.ok there))
      (hin : there.cursor.isOutside = false)
      (hbelow : there.node.below a.catalog = n.below a.catalog) :
      GoesOn a n more (scheme.toList ++ schemeMark ++ path)

/-- A form of addresses leads to locations of a node: filled in together with a piece behind it, it
starts an address as one of them does, and goes on with the filled piece. -/
def Reaches (a : Atlas) (form : List Char) (n : Node) : Prop :=
  ∀ piece given, Filled (appendPiece form piece) given →
    ∃ filled, Filled piece filled ∧ GoesOn a n filled given

/-- A piece of a form leads from locations of one node to those of another one: whatever is filled in,
it is read as segments that lead there. -/
def Passes (a : Atlas) (n : Node) (piece : List Char) (n' : Node) : Prop :=
  ∀ filled, Filled piece filled → ∀ there, a.Reached there → there.cursor.isOutside = false →
    there.node.below a.catalog = n.below a.catalog →
      ∃ found next, Spells filled found ∧ a.walk there found = .ok (.ok next) ∧
        next.cursor.isOutside = false ∧ next.node.below a.catalog = n'.below a.catalog

variable {a : Atlas} {n n' : Node} {form piece : List Char}

/-- The node where a child lands has the children of the one that governs it, which it is unless it
groups children. -/
theorem below_governing {c : Catalog} (hlanded : c.Landed) (id : NodeId) :
    (c.node (c.governing id)).below c = (c.node (landingId c id)).below c ∧
      ((c.node (landingId c id)).groups = none → c.governing id = landingId c id) := by
  unfold landingId
  cases hl : (c.node id).landing with
  | none =>
    rw [Catalog.governing_of_landing hl]
    exact ⟨rfl, fun _ => rfl⟩
  | some landing =>
    have hgroups := hlanded id landing hl
    unfold Catalog.governing
    rw [hl]
    cases hspace : (c.node id).isNamespace with
    | false => exact ⟨rfl, fun _ => rfl⟩
    | true =>
      obtain ⟨target, htarget⟩ := Option.isSome_iff_exists.mp hspace
      refine ⟨?_, fun hnone => (nomatch (htarget.symm.trans hgroups.symm).trans hnone)⟩
      unfold Node.below
      rw [hgroups, htarget]

namespace Orderly

/-- The children below a node stand under distinct keys, which are words. -/
theorem keyed (ha : Orderly a) (id : NodeId) {children : Keyed NodeId}
    (hb : (a.catalog.node id).below a.catalog = .ok children) :
    (Keyed.keys children).Nodup ∧ ∀ key ∈ Keyed.keys children, IsWord key ∧ '\x7b' ∉ key.toList := by
  unfold Node.below at hb
  split at hb
  · exact ⟨ha.distinct _ _ hb, (ha.listable _).keys _ hb⟩
  · exact ⟨ha.distinct _ _ hb, (ha.listable _).keys _ hb⟩

/-- A scheme can start an address. -/
theorem readable (ha : Orderly a) {scheme : String} {what : Registration}
    (h : (scheme, what) ∈ a.registry.schemes) : ReadableScheme scheme :=
  have hscheme := ha.schemes scheme (List.mem_map_of_mem h)
  readableScheme_of_unmarked hscheme.1 hscheme.2.1

/-- Where segments lead from the root of a scheme, an address with a path that is read as them
resolves. -/
theorem leads (ha : Orderly a) {scheme : String} {what : Registration}
    (h : (scheme, what) ∈ a.registry.schemes) {path : List Char} {found : List Segment}
    (hread : segments path = .ok found) {there : Atlas.Standing}
    (hwalk : a.walk (a.start scheme what) found = .ok (.ok there)) :
    Leads a (scheme.toList ++ schemeMark ++ path) :=
  ⟨_, (Atlas.resolve_of_read (read_of_segments (ha.readable h) hread)).trans
    (Atlas.locate_of_walk (Keyed.get?_of_mem ha.names h) hwalk)⟩

/-- A declared child is entered from every location of its node, and found there with the children of
the node where it lands; a collection is found there itself. -/
theorem enters (ha : Orderly a) {id : NodeId} {children : Keyed NodeId}
    (hb : (a.catalog.node id).below a.catalog = .ok children) {child : String × NodeId}
    (hmem : child ∈ children) {there : Atlas.Standing} (hreached : a.Reached there)
    (hin : there.cursor.isOutside = false)
    (hbelow : there.node.below a.catalog = (a.catalog.node id).below a.catalog) :
    ∃ mid, a.moveBy there ⟨child.1, none⟩ = .ok (.ok mid) ∧ mid.cursor.isOutside = false ∧
      mid.node.below a.catalog =
        (a.catalog.node (landingId a.catalog child.2)).below a.catalog ∧
      ((a.catalog.node (landingId a.catalog child.2)).kind.isCollection = true →
        mid.node = a.catalog.node (landingId a.catalog child.2)) := by
  obtain ⟨mid, hmove, hmid, hnode⟩ := Atlas.moveBy_declared ha.guided hreached hin
    (hbelow.trans hb) (ha.keyed id hb).1 hmem
  refine ⟨mid, hmove, hmid, ?_⟩
  obtain ⟨hsame, hself⟩ := below_governing ha.landed child.2
  rw [hnode]
  exact ⟨hsame, fun hkind => congrArg a.catalog.node (hself ((ha.listable _).collections hkind).1)⟩

/-- The root of a scheme reaches its node. -/
theorem reaches_root (ha : Orderly a) {scheme : String} {what : Registration}
    (h : (scheme, what) ∈ a.registry.schemes) :
    Reaches a (scheme.toList ++ schemeMark) (a.catalog.node what.schema) := by
  intro piece given hgiven
  have hcolon : ∀ b : Blank, ':' ∉ b.text := Blank.not_mem_text (by decide)
  rw [appendPiece_root, List.append_assoc] at hgiven
  obtain ⟨first, rest, rfl, hfirst, hrest⟩ := hgiven.append (parted_of_head hcolon _ _)
  obtain ⟨filled, rfl, hfilled⟩ := hrest.of_append (s := schemeMark) (by decide)
  obtain rfl := hfirst.eq_of_unblanked (ha.schemes scheme (List.mem_map_of_mem h)).2.2
  refine ⟨filled, hfilled, ?_⟩
  rw [← List.append_assoc]
  have hread : segments filled =
      readSegments ([] : List Segment).reverse (.ofText ('/' :: filled)) := by
    rw [List.reverse_nil, readSegments_slash]
    rfl
  exact .intro h hread rfl rfl rfl

/-- A declared child is passed by its key. -/
theorem passes_child (ha : Orderly a) {id : NodeId} {children : Keyed NodeId}
    (hb : (a.catalog.node id).below a.catalog = .ok children) {child : String × NodeId}
    (hmem : child ∈ children) :
    Passes a (a.catalog.node id) child.1.toList
      (a.catalog.node (landingId a.catalog child.2)) := by
  intro filled hfilled there hreached hin hbelow
  obtain ⟨hword, hbrace⟩ := (ha.keyed id hb).2 child.1 (List.mem_map_of_mem hmem)
  obtain rfl := hfilled.eq_of_unblanked (unblanked_of_not_mem hbrace)
  obtain ⟨mid, hmove, hmid, hsame, -⟩ := ha.enters hb hmem hreached hin hbelow
  exact ⟨_, mid, .bare hword, (Atlas.walk_singleton a there _).trans hmove, hmid, hsame⟩

end Orderly

/-- A form that leads to locations of a node leads on with a piece that passes from there, unless the
piece ends in a slash. -/
theorem Reaches.next (h : Reaches a form n) (hpass : Passes a n piece n')
    (hends : ∀ text, endsAtRoot (text ++ piece) = false) :
    Reaches a (appendPiece form piece) n' := by
  intro more given hgiven
  -- What stands behind the longer form after a slash is behind the shorter one with the piece.
  have hassoc : appendPiece (appendPiece form piece) more =
      appendPiece form (piece ++ '/' :: more) := by
    have hend : endsAtRoot (appendPiece form piece) = false := by
      unfold appendPiece
      split
      · exact hends form
      · rw [List.append_cons]
        exact hends _
    rw [appendPiece, hend, if_neg Bool.false_ne_true]
    unfold appendPiece
    split <;> simp only [List.append_assoc, List.cons_append]
  rw [hassoc] at hgiven
  obtain ⟨filled, hfilled, hgo⟩ := h _ _ hgiven
  obtain ⟨first, rest, rfl, hfirst, hrest⟩ :=
    hfilled.append (parted_of_head (Blank.not_mem_text (by decide)) _ _)
  obtain ⟨second, rfl, hsecond⟩ := hrest.of_append (s := ['/']) (t := more) (by decide)
  refine ⟨second, hsecond, ?_⟩
  cases hgo with
  | @intro scheme what path found there hscheme hread hwalk hin hbelow =>
    obtain ⟨own, next, hspells, hnext, hnextin, hsame⟩ :=
      hpass first hfirst there ⟨scheme, what, found, hscheme, hwalk⟩ hin hbelow
    have hon : segments path = readSegments (found ++ own).reverse (.ofText ('/' :: second)) := by
      rw [hread, List.cons_append, List.nil_append, hspells _ _ (.inr ⟨_, rfl⟩), List.reverse_append]
    have harrive : a.walk (a.start scheme what) (found ++ own) = .ok (.ok next) := by
      rw [Atlas.walk_append, hwalk]
      exact hnext
    exact .intro hscheme hon harrive hnextin hsame

/-- A form that leads to locations of a node resolves with a piece behind it that is read as segments
that lead on from there, whatever is filled in. -/
theorem Reaches.leads (h : Reaches a form n) (ha : Orderly a)
    (hpiece : ∀ filled, Filled piece filled → ∀ there, a.Reached there →
      there.cursor.isOutside = false → there.node.below a.catalog = n.below a.catalog →
        ∃ found next, (∀ before, readSegments before (.ofText ('/' :: filled)) =
          .ok (before.reverse ++ found)) ∧ a.walk there found = .ok (.ok next))
    {given : List Char} (hgiven : Filled (appendPiece form piece) given) : Leads a given := by
  obtain ⟨filled, hfilled, hgo⟩ := h _ _ hgiven
  cases hgo with
  | @intro scheme what path found there hscheme hread hwalk hin hbelow =>
    obtain ⟨own, next, hown, hnext⟩ :=
      hpiece filled hfilled there ⟨scheme, what, found, hscheme, hwalk⟩ hin hbelow
    have harrive : a.walk (a.start scheme what) (found ++ own) = .ok (.ok next) := by
      rw [Atlas.walk_append, hwalk]
      exact hnext
    rw [hown, List.reverse_reverse] at hread
    exact ha.leads hscheme hread harrive

/-- A form that leads to locations of a node resolves with a piece that passes from there. -/
theorem Reaches.leads_of_passes (h : Reaches a form n) (ha : Orderly a)
    (hpass : Passes a n piece n') {given : List Char}
    (hgiven : Filled (appendPiece form piece) given) : Leads a given := by
  refine h.leads ha (fun filled hfilled there hreached hin hbelow => ?_) hgiven
  obtain ⟨own, next, hspells, hnext, -⟩ := hpass filled hfilled there hreached hin hbelow
  exact ⟨own, next, hspells.readSegments_eq, hnext⟩

/-- The tails of forms in which the members of a collection are addressed. -/
inductive MemberForm (n : Node) : String → Prop
  /-- By position. -/
  | index (h : n.hasMethod "by_index" = true) : MemberForm n "[\x7bindex\x7d]"
  /-- By identifier. -/
  | id (h : n.hasMethod "by_id" = true) : MemberForm n "/\x7bid\x7d"
  /-- By name. -/
  | name (h : n.hasMethod "by_name" = true) : MemberForm n "/\x7bname\x7d"

/-- The tail of the form in which a collection is queried. -/
def queryForm : String := "?\x7bfilter\x7d"

/-- The templates of a collection address its members, or query it. -/
theorem mem_collectionTemplates {uri key : String} {t : Template}
    (h : t ∈ (collectionTemplates uri key n).1) :
    t.uriTemplate = uri ++ queryForm ∨ ∃ tail, MemberForm n tail ∧ t.uriTemplate = uri ++ tail := by
  simp only [collectionTemplates, List.mem_append, List.mem_ite_nil_right, List.mem_singleton] at h
  rcases h with ((⟨hm, rfl⟩ | ⟨hm, rfl⟩) | ⟨hm, rfl⟩) | rfl
  · exact .inr ⟨_, .index hm, rfl⟩
  · exact .inr ⟨_, .id hm, rfl⟩
  · exact .inr ⟨_, .name hm, rfl⟩
  · exact .inl rfl

/-- Members lie below a form in which they are addressed. -/
theorem memberForm_of_member {uri key base : String}
    (h : (collectionTemplates uri key n).2 = some base) :
    ∃ tail, MemberForm n tail ∧ base = uri ++ tail := by
  simp only [collectionTemplates] at h
  split at h
  · next hm => exact ⟨_, .name hm, (Option.some.inj h).symm⟩
  · split at h
    · next hm => exact ⟨_, .id hm, (Option.some.inj h).symm⟩
    · split at h
      · next hm => exact ⟨_, .index hm, (Option.some.inj h).symm⟩
      · exact (nomatch h)

/-- A tail of a form ends in characters other than slashes. -/
theorem MemberForm.ends {tail : String} (h : MemberForm n tail) (text : List Char) :
    endsAtRoot (text ++ tail.toList) = false := by
  have hparts : ∃ front last, tail.toList = front ++ last ∧ last ≠ [] ∧ '/' ∉ last := by
    cases h with
    | index => exact ⟨[], _, rfl, by decide, by decide⟩
    | id => exact ⟨['/'], _, rfl, by decide, by decide⟩
    | name => exact ⟨['/'], _, rfl, by decide, by decide⟩
  obtain ⟨front, last, htail, hne, hslash⟩ := hparts
  rw [htail, ← List.append_assoc]
  exact endsAtRoot_append hne hslash _

namespace Orderly

/-- A collection is entered from every location of the node above it, and a qualifier behind its key is
applied to it. -/
theorem enters_collection (ha : Orderly a) {id : NodeId} {children : Keyed NodeId}
    (hb : (a.catalog.node id).below a.catalog = .ok children) {child : String × NodeId}
    (hmem : child ∈ children)
    (hkind : (a.catalog.node (landingId a.catalog child.2)).kind.isCollection = true)
    {there : Atlas.Standing} (hreached : a.Reached there) (hin : there.cursor.isOutside = false)
    (hbelow : there.node.below a.catalog = (a.catalog.node id).below a.catalog) :
    ∃ mid, a.walk there [⟨child.1, none⟩] = .ok (.ok mid) ∧ mid.cursor.isOutside = false ∧
      mid.node = a.catalog.node (landingId a.catalog child.2) ∧
      ∀ q, a.walk there [⟨child.1, some q⟩] = a.qualify mid child.1 q := by
  obtain ⟨mid, hmove, hmid, -, hself⟩ := ha.enters hb hmem hreached hin hbelow
  have hwalk : a.walk there ([] ++ [⟨child.1, none⟩]) = .ok (.ok mid) :=
    (Atlas.walk_singleton a there _).trans hmove
  refine ⟨mid, hwalk, hmid, hself hkind, Atlas.walk_qualify hwalk ?_⟩
  rw [hself hkind, Node.isNamespace, ((ha.listable _).collections hkind).1]
  rfl

/-- A member of a collection below a node is passed by the key of the collection and a tail in which
members are addressed. -/
theorem passes_member (ha : Orderly a) {id : NodeId} {children : Keyed NodeId}
    (hb : (a.catalog.node id).below a.catalog = .ok children) {child : String × NodeId}
    (hmem : child ∈ children)
    (hkind : (a.catalog.node (landingId a.catalog child.2)).kind.isCollection = true) {member : Node}
    (hitem : (a.catalog.node (landingId a.catalog child.2)).itemNode a.catalog = .ok member)
    {tail : String} (hform : MemberForm (a.catalog.node (landingId a.catalog child.2)) tail) :
    Passes a (a.catalog.node id) (child.1.toList ++ tail.toList) member := by
  intro filled hfilled there hreached hin hbelow
  obtain ⟨hword, hbrace⟩ := (ha.keyed id hb).2 child.1 (List.mem_map_of_mem hmem)
  obtain ⟨mid, hwalk, hmid, hnode, hqualify⟩ :=
    ha.enters_collection hb hmem hkind hreached hin hbelow
  obtain ⟨hgroups, hown⟩ := (ha.listable _).collections hkind
  rw [← hnode] at hform hitem hgroups hown
  obtain ⟨rest, rfl, hrest⟩ := hfilled.of_append hbrace
  cases hform with
  | index hmethod =>
    obtain ⟨inner, rfl, hinner⟩ :=
      hrest.of_append (s := ['[']) (t := Blank.index.text ++ [']']) (by decide)
    obtain ⟨number, last, rfl, hnumber, hlast⟩ :=
      hinner.append (parted_of_head (Blank.not_mem_text (by decide)) _ _)
    obtain rfl := hlast.eq_of_unblanked (unblanked_of_not_mem (by decide))
    cases hnumber.takes with
    | @index k hk =>
      refine ⟨_, ⟨mid.cursor.entered (.index (.int k)) (.index (.int k)), member⟩, .index hword hk, ?_,
        rfl, rfl⟩
      refine (hqualify (.index k)).trans ?_
      rw [Atlas.qualify, if_pos hmethod, Atlas.select_eq hmid rfl hitem]
      rfl
  | id hmethod =>
    obtain ⟨number, rfl, hnumber⟩ := hrest.of_append (s := ['/']) (t := Blank.id.text) (by decide)
    cases hnumber.takes with
    | @id k hk =>
      refine ⟨_, ⟨mid.cursor.entered (.id (.int k)) (.id (.int k)), member⟩, .id hword hk, ?_, rfl, rfl⟩
      refine (hqualify (.id k)).trans ?_
      rw [Atlas.qualify, if_pos hmethod, Atlas.select_eq hmid rfl hitem]
      rfl
  | name hmethod =>
    obtain ⟨given, rfl, hgiven⟩ := hrest.of_append (s := ['/']) (t := Blank.name.text) (by decide)
    cases hgiven.takes with
    | @name m hm =>
      have hwrite : Segment.Writable ⟨m, none⟩ := ⟨hm.nonempty, hm.unopened, hm.unasked,
        fun n hn => absurd hn (by simp), fun n hn => absurd hn (by simp)⟩
      have hspells : Spells (Percent.encode m.toList) [⟨m, none⟩] := by
        have hwritten := Spells.written hwrite (fun q hq => absurd hq (by simp)) hm.word
        rwa [segmentText, qualifierText, List.append_nil] at hwritten
      refine ⟨_, ⟨mid.cursor.entered (.name (.text m)) (.name (.text m)), member⟩,
        (Spells.bare hword).append hspells, ?_, rfl, rfl⟩
      have hnone : mid.node.below a.catalog = .ok [] := by
        rw [Node.below, hgroups, hown]
      rw [Atlas.walk_concat hwalk, Atlas.moveBy_bare,
        Atlas.moveByHead_member hnone rfl, if_pos hmethod, Atlas.select_eq hmid rfl hitem]
      rfl

/-- A collection below a node resolves with any comparison asked of it. -/
theorem leads_query (ha : Orderly a) {id : NodeId} (h : Reaches a form (a.catalog.node id))
    {children : Keyed NodeId} (hb : (a.catalog.node id).below a.catalog = .ok children)
    {child : String × NodeId} (hmem : child ∈ children)
    (hkind : (a.catalog.node (landingId a.catalog child.2)).kind.isCollection = true)
    {given : List Char}
    (hgiven : Filled (appendPiece form (child.1.toList ++ queryForm.toList)) given) :
    Leads a given := by
  refine h.leads ha (fun filled hfilled there hreached hin hbelow => ?_) hgiven
  obtain ⟨hword, hbrace⟩ := (ha.keyed id hb).2 child.1 (List.mem_map_of_mem hmem)
  obtain ⟨mid, -, hmid, -, hqualify⟩ := ha.enters_collection hb hmem hkind hreached hin hbelow
  obtain ⟨rest, rfl, hrest⟩ := hfilled.of_append hbrace
  obtain ⟨asked, rfl, hasked⟩ := hrest.of_append (s := ['?']) (t := Blank.filter.text) (by decide)
  cases hasked.takes with
  | @filter field hfield value =>
    obtain ⟨hslash, hrequest⟩ := readRequest_pair hfield value
    have hasked := fun r => (hqualify (.query r)).trans
      (congrArg (Except.map Except.ok) (Atlas.ask_inside hmid r))
    exact ⟨_, _, hword.readSegments_query hslash hrequest, hasked _⟩

end Orderly

end ResourceAtlas.Resource

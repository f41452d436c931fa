import ResourceAtlas.Proofs.Resource.Advertised

/-!
# Templates are collected once

`Walks` is the walk through a schema without a bound: at each child it takes what the child has itself,
and goes on at the node below it unless that was visited before. However the nodes lead back into each
other the walk comes to an end, because every node that it opens is one fewer that it may open later,
and `collect` computes it. A grouping is a node of its own, apart from the one whose children it has,
and each of the two may be opened once. The templates that a walk adds lie below the keys that it
passes, and a text determines the key that it lies below, so no template is collected twice.
-/

namespace ResourceAtlas.Resource

open Address Schema

/-- The templates that a child has itself: those of a collection. -/
def ownTemplates (c : Catalog) (base : String) (child : String × NodeId) : List Template :=
  let n := c.node (landingId c child.2)
  if n.kind.isCollection then (collectionTemplates (below base child.1) child.1 n).1 else []

/-- The node at which collecting goes on below a child, with the address that its children lie
below. -/
def onward (c : Catalog) (base : String) (child : String × NodeId) :
    Outcome (Option (NodeId × String)) :=
  let uri := below base child.1
  let id := landingId c child.2
  let n := c.node id
  if n.kind.isCollection then
    match n.item with
    | none => .ok none
    | some item => item.find.map fun id =>
        (collectionTemplates uri child.1 n).2.map fun memberBase => (id, memberBase)
  else
    (n.below c).map fun children => if children.isEmpty then none else some (id, uri)

/-- More templates behind those that were collected. -/
def Collected.add (out : Collected) (more : List Template) : Collected :=
  { out with templates := out.templates ++ more }

/-- One more node that is visited. -/
def Collected.mark (out : Collected) (id : NodeId) : Collected :=
  { out with seen := id :: out.seen }

/-- A walk over children below an address, from what was collected before to what is collected behind
it, with the nodes whose children it opens on the way, in order. -/
inductive Walks (c : Catalog) :
    String → Keyed NodeId → Collected → List NodeId → Collected → Prop
  /-- No child is left. -/
  | nil {base : String} {out : Collected} : Walks c base [] out [] out
  /-- Nothing lies below the child. -/
  | ends {base : String} {child : String × NodeId} {rest : Keyed NodeId} {out out' : Collected}
      {opened : List NodeId} (hnext : onward c base child = .ok none)
      (hrest : Walks c base rest (out.add (ownTemplates c base child)) opened out') :
      Walks c base (child :: rest) out opened out'
  /-- The node below the child was visited before. -/
  | again {base under : String} {child : String × NodeId} {rest : Keyed NodeId}
      {out out' : Collected} {id : NodeId} {opened : List NodeId}
      (hnext : onward c base child = .ok (some (id, under))) (hseen : id ∈ out.seen)
      (hrest : Walks c base rest (out.add (ownTemplates c base child)) opened out') :
      Walks c base (child :: rest) out opened out'
  /-- The node below the child is new: its children are opened before the others go on. -/
  | descends {base under : String} {child : String × NodeId} {children rest : Keyed NodeId}
      {out mid out' : Collected} {id : NodeId} {inner outer : List NodeId}
      (hnext : onward c base child = .ok (some (id, under))) (hnew : id ∉ out.seen)
      (hchildren : (c.node id).below c = .ok children)
      (hinner : Walks c under children ((out.add (ownTemplates c base child)).mark id) inner mid)
      (hrest : Walks c base rest mid outer out') :
      Walks c base (child :: rest) out (id :: inner ++ outer) out'

/-- The walk through a scheme opens its root and then nodes below it, and collects templates. -/
inductive Tours (c : Catalog) (scheme : String) (what : Registration) :
    List NodeId → List Template → Prop
  /-- The walk starts over the children of the root. -/
  | intro {children : Keyed NodeId} {opened : List NodeId} {out : Collected}
      (hchildren : (c.node what.schema).below c = .ok children)
      (hwalk : Walks c (rootUri scheme) children ⟨[what.schema], []⟩ opened out) :
      Tours c scheme what (what.schema :: opened) out.templates

variable {c : Catalog} {base : String} {child : String × NodeId} {children : Keyed NodeId}
  {out out' : Collected} {opened : List NodeId}

/-- Collecting at a child adds what it has itself, and goes on at the node below it. -/
theorem collectChild_eq (c : Catalog)
    (collect : NodeId → String → Collected → Outcome Collected) (base : String) (out : Collected)
    (child : String × NodeId) :
    collectChild c collect base out child = (do
      match ← onward c base child with
      | none => .ok (out.add (ownTemplates c base child))
      | some (id, under) => collect id under (out.add (ownTemplates c base child))) := by
  unfold collectChild onward ownTemplates Collected.add
  dsimp only
  split
  · cases (c.node (landingId c child.2)).item with
    | none => rfl
    | some item =>
      dsimp only
      cases item.find with
      | error f => rfl
      | ok id =>
        cases (collectionTemplates (below base child.1) child.1
          (c.node (landingId c child.2))).2 <;> rfl
  · rw [List.append_nil]
    cases (c.node (landingId c child.2)).below c with
    | error f => rfl
    | ok children => cases children <;> rfl

/-- Collecting ends at a child below which nothing lies. -/
theorem collectChild_ends {collect : NodeId → String → Collected → Outcome Collected}
    (h : onward c base child = .ok none) :
    collectChild c collect base out child = .ok (out.add (ownTemplates c base child)) := by
  rw [collectChild_eq, h]
  rfl

/-- Collecting goes on at the node below a child. -/
theorem collectChild_onward {collect : NodeId → String → Collected → Outcome Collected}
    {id : NodeId} {under : String} (h : onward c base child = .ok (some (id, under))) :
    collectChild c collect base out child =
      collect id under (out.add (ownTemplates c base child)) := by
  rw [collectChild_eq, h]
  rfl

/-- Nothing is collected at a node that was visited before. -/
theorem collect_of_seen {fuel : Nat} {id : NodeId} (h : id ∈ out.seen) :
    collect c (fuel + 1) id base out = .ok out :=
  if_pos (List.contains_iff_mem.mpr h)

/-- At a node that is new, templates are collected over its children. -/
theorem collect_of_new {fuel : Nat} {id : NodeId} (h : id ∉ out.seen) :
    collect c (fuel + 1) id base out = (do
      let children ← (c.node id).below c
      children.foldlM (collectChild c (collect c fuel) base) (out.mark id)) :=
  if_neg fun hmem => h (List.contains_iff_mem.mp hmem)

/-- Where every name is defined, it is known at every child how collecting goes on. -/
theorem Defined.onward_ok (hc : Defined c) (base : String) (child : String × NodeId) :
    ∃ next, onward c base child = .ok next := by
  unfold onward
  dsimp only
  split
  · split
    · exact ⟨_, rfl⟩
    · next item hitem =>
      obtain ⟨member, hmember⟩ := hc.items _ item hitem
      exact ⟨_, map_eq_ok.mpr ⟨member, hmember, rfl⟩⟩
  · obtain ⟨inner, hinner⟩ := hc.below (landingId c child.2)
    exact ⟨_, map_eq_ok.mpr ⟨inner, hinner, rfl⟩⟩

/-- Whether the children of a node were built and its members have a node. -/
def namesDefined (n : Node) : Bool :=
  n.children.toOption.isSome && n.item.all fun item => item.find.toOption.isSome

/-- Every name in a catalog is defined if it is in each of its nodes. -/
theorem Defined.of_namesDefined (h : ∀ id, namesDefined (c.node id) = true) : Defined c := by
  have hsome : ∀ {α : Type} {x : Outcome α}, x.toOption.isSome = true → ∃ y, x = .ok y := by
    intro α x hx
    cases x with
    | error f => exact absurd hx Bool.false_ne_true
    | ok y => exact ⟨y, rfl⟩
  refine ⟨fun id => hsome (Bool.and_eq_true_iff.mp (h id)).1, fun id item hitem => ?_⟩
  have hfind := (Bool.and_eq_true_iff.mp (h id)).2
  rw [hitem, Option.all_some] at hfind
  exact hsome hfind

/-! ## The walk ends -/

/-- The nodes that were not visited. -/
def unseen (c : Catalog) (out : Collected) : Finset NodeId :=
  Finset.range c.size \ out.seen.toFinset

/-- A node that is visited is no longer one of those that were not. -/
theorem card_unseen_mark {id : NodeId} (hid : id < c.size) (hnew : id ∉ out.seen) :
    (unseen c (out.mark id)).card < (unseen c out).card := by
  have herase : unseen c (out.mark id) = (unseen c out).erase id := by
    unfold unseen Collected.mark
    rw [List.toFinset_cons, Finset.sdiff_insert]
  rw [herase]
  refine Finset.card_erase_lt_of_mem (Finset.mem_sdiff.mpr ⟨Finset.mem_range.mpr hid, ?_⟩)
  rwa [List.mem_toFinset]

/-- The more nodes were visited, the fewer were not. -/
theorem card_unseen_le (h : out.seen ⊆ out'.seen) : (unseen c out').card ≤ (unseen c out).card := by
  refine Finset.card_le_card (Finset.sdiff_subset_sdiff (Finset.Subset.refl _) fun id hid => ?_)
  exact List.mem_toFinset.mpr (h (List.mem_toFinset.mp hid))

/-- A node that is not in the catalog has no children. -/
theorem below_of_size_le {id : NodeId} (hid : c.size ≤ id) : (c.node id).below c = .ok [] := by
  have hnode : c.node id = passthrough := by
    rw [Catalog.node, Array.getD_eq_getD_getElem?, Array.getElem?_eq_none hid]
    rfl
  rw [hnode]
  rfl

namespace Walks

/-- A walk visits the nodes that it opens, after those that were visited before. -/
theorem seen_eq (h : Walks c base children out opened out') :
    out'.seen = opened.reverse ++ out.seen := by
  induction h with
  | nil => rfl
  | ends _ _ ih => exact ih
  | again _ _ _ ih => exact ih
  | descends _ _ _ _ _ ihinner ihrest =>
    rw [ihrest, ihinner, List.cons_append, List.reverse_cons, List.reverse_append]
    simp only [Collected.mark, Collected.add, List.append_assoc, List.singleton_append]

/-- A walk visits no node for a second time. -/
theorem nodup_seen (h : Walks c base children out opened out') (hout : out.seen.Nodup) :
    out'.seen.Nodup := by
  induction h with
  | nil => exact hout
  | ends _ _ ih => exact ih hout
  | again _ _ _ ih => exact ih hout
  | descends _ hnew _ _ _ ihinner ihrest => exact ihrest (ihinner (List.nodup_cons.mpr ⟨hnew, hout⟩))

end Walks

namespace Defined

/-- A walk over children comes to an end and is computed within a bound on the nodes on the way down,
if there are fewer nodes left to visit. -/
theorem exists_walks (hc : Defined c) {fuel : Nat} (base : String) (children : Keyed NodeId)
    (out : Collected) (hfuel : (unseen c out).card < fuel) :
    ∃ opened out', Walks c base children out opened out' ∧
      children.foldlM (collectChild c (collect c fuel) base) out = .ok out' := by
  -- The outer induction is on the bound, the inner one on the children that are left.
  induction fuel generalizing base children out with
  | zero => exact absurd hfuel (Nat.not_lt_zero _)
  | succ fuel ihfuel =>
    induction children generalizing out with
    | nil => exact ⟨[], out, .nil, rfl⟩
    | cons child rest ihrest =>
      rw [List.foldlM_cons]
      obtain ⟨next, hnext⟩ := hc.onward_ok base child
      match next with
      | none =>
        obtain ⟨opened, out', hwalk, hfold⟩ := ihrest (out.add (ownTemplates c base child)) hfuel
        exact ⟨opened, out', .ends hnext hwalk, bind_eq_ok.mpr ⟨_, collectChild_ends hnext, hfold⟩⟩
      | some (id, under) =>
        rw [collectChild_onward hnext]
        by_cases hseen : id ∈ out.seen
        · obtain ⟨opened, out', hwalk, hfold⟩ := ihrest (out.add (ownTemplates c base child)) hfuel
          exact ⟨opened, out', .again hnext hseen hwalk,
            bind_eq_ok.mpr ⟨_, collect_of_seen hseen, hfold⟩⟩
        · have hnew : id ∉ (out.add (ownTemplates c base child)).seen := hseen
          obtain ⟨inside, hinside⟩ := hc.below id
          obtain ⟨inner, mid, hinner, hfoldInner⟩ : ∃ inner mid,
              Walks c under inside ((out.add (ownTemplates c base child)).mark id) inner mid ∧
                inside.foldlM (collectChild c (collect c fuel) under)
                  ((out.add (ownTemplates c base child)).mark id) = .ok mid := by
            rcases Nat.lt_or_ge id c.size with hid | hid
            · have hless := card_unseen_mark hid hnew
              have hleft : (unseen c (out.add (ownTemplates c base child))).card < fuel + 1 := hfuel
              exact ihfuel under inside _ (by omega)
            · obtain rfl := Except.ok.inj (hinside.symm.trans (below_of_size_le hid))
              exact ⟨[], _, .nil, rfl⟩
          have hmid : (unseen c mid).card ≤ (unseen c out).card := by
            refine card_unseen_le fun x hx => ?_
            rw [hinner.seen_eq]
            exact List.mem_append_right _ (List.mem_cons_of_mem id hx)
          obtain ⟨outer, out', hwalk, hfold⟩ := ihrest mid (hmid.trans_lt hfuel)
          exact ⟨_, out', .descends hnext hseen hinside hinner hwalk, bind_eq_ok.mpr
            ⟨mid, (collect_of_new hnew).trans (bind_eq_ok.mpr ⟨inside, hinside, hfoldInner⟩), hfold⟩⟩

/-- The walk through a scheme comes to an end, opens every node at most once, and collects the templates
of the scheme. -/
theorem exists_tours (hc : Defined c) (scheme : String) (what : Registration) :
    ∃ opened ts, Tours c scheme what opened ts ∧ opened.Nodup ∧
      schemeTemplates c scheme what = .ok ts := by
  obtain ⟨children, hchildren⟩ := hc.below what.schema
  have hfuel : (unseen c ⟨[what.schema], []⟩).card < c.size + 1 := by
    have hle := Finset.card_le_card
      (Finset.sdiff_subset (s := Finset.range c.size) (t := [what.schema].toFinset))
    rw [Finset.card_range] at hle
    exact Nat.lt_succ_of_le hle
  obtain ⟨opened, out, hwalk, hfold⟩ := hc.exists_walks (rootUri scheme) children _ hfuel
  refine ⟨_, _, .intro hchildren hwalk, ?_, ?_⟩
  · have hseen := hwalk.nodup_seen (List.nodup_singleton what.schema)
    rw [hwalk.seen_eq, ← List.reverse_cons, List.nodup_reverse] at hseen
    exact hseen
  · refine map_eq_ok.mpr ⟨out, ?_, rfl⟩
    exact (collect_of_new List.not_mem_nil).trans (bind_eq_ok.mpr ⟨children, hchildren, hfold⟩)

end Defined

/-! ## A text determines the key that it lies below -/

/-- The characters that end a key in a template. -/
def formMarks : List Char := ['/', '[', '?']

/-- A key of a child that ends where a template goes on: it has characters, and none that ends it. Words
of letters, digits and underscores are such keys. -/
def EndsPlain (key : String) : Prop :=
  key ≠ "" ∧ ∀ mark ∈ key.toList, mark ∉ formMarks

/-- A word ends plain. -/
theorem endsPlain_of_isWord {key : String} (h : IsWord key) : EndsPlain key := by
  have hmarks : ∀ mark ∈ formMarks, mark ∈ headMarks := Text.forall_mem_of_all (by decide)
  exact ⟨h.nonempty, fun mark hmem hmark => h.unmarked mark hmem (hmarks mark hmark)⟩

/-- A template lies below a key of an address: the key stands behind the address, and ends there. -/
def LiesBelow (base key : String) (t : Template) : Prop :=
  ∃ mark ∈ formMarks, ∃ tail, t.uriTemplate.toList = appendPiece base.toList (key.toList ++ mark :: tail)

/-- What was added behind collected templates: templates with distinct texts, each below one of the
keys of an address. -/
structure Adds (base : String) (keys : List String) (before after added : List Template) : Prop where
  /-- They were added. -/
  eq : after = before ++ added
  /-- Their texts are distinct. -/
  nodup : (added.map Template.uriTemplate).Nodup
  /-- They lie below keys. -/
  below : ∀ t ∈ added, ∃ key ∈ keys, LiesBelow base key t

/-- A template does not lie below two keys. -/
theorem LiesBelow.key_eq {key key' : String} {t t' : Template} (h : LiesBelow base key t)
    (h' : LiesBelow base key' t') (hkey : EndsPlain key) (hkey' : EndsPlain key')
    (heq : t.uriTemplate = t'.uriTemplate) : key = key' := by
  have hparts : ∀ {key : String} {mark : Char} {tail : List Char}, EndsPlain key → mark ∈ formMarks →
      (key.toList ++ mark :: tail).takeWhile (fun x => decide (x ∉ formMarks)) = key.toList := by
    intro key mark tail hkey hmark
    rw [List.takeWhile_append_of_pos fun x hx => decide_eq_true (hkey.2 x hx),
      List.takeWhile_cons_of_neg (by simpa using hmark), List.append_nil]
  obtain ⟨mark, hmark, tail, htext⟩ := h
  obtain ⟨mark', hmark', tail', htext'⟩ := h'
  have hsame : key.toList ++ mark :: tail = key'.toList ++ mark' :: tail' := by
    have happend := htext.symm.trans ((congrArg String.toList heq).trans htext')
    unfold appendPiece at happend
    split at happend
    · exact List.append_cancel_left happend
    · exact (List.cons.inj (List.append_cancel_left happend)).2
  have hkeys := congrArg (List.takeWhile fun x => decide (x ∉ formMarks)) hsame
  rw [hparts hkey hmark, hparts hkey' hmark'] at hkeys
  exact String.toList_injective hkeys

/-- The tails of the templates of a collection. -/
inductive OwnTail (n : Node) : String → Prop
  /-- Of a form in which members are addressed. -/
  | member {tail : String} (h : MemberForm n tail) : OwnTail n tail
  /-- Of the form in which the collection is queried. -/
  | query : OwnTail n queryForm

/-- A tail starts with a character that ends a key, and has no slash behind it. -/
theorem OwnTail.exists_cons {n : Node} {tail : String} (h : OwnTail n tail) :
    ∃ mark rest, tail.toList = mark :: rest ∧ mark ∈ formMarks ∧ '/' ∉ rest := by
  cases h with
  | query => exact ⟨_, _, rfl, by decide, by decide⟩
  | member h =>
    cases h with
    | index => exact ⟨_, _, rfl, by decide, by decide⟩
    | id => exact ⟨_, _, rfl, by decide, by decide⟩
    | name => exact ⟨_, _, rfl, by decide, by decide⟩

/-- The templates that a child has itself are its address with a tail. -/
theorem mem_ownTemplates {t : Template} (h : t ∈ ownTemplates c base child) :
    ∃ tail, OwnTail (c.node (landingId c child.2)) tail ∧
      t.uriTemplate = below base child.1 ++ tail := by
  unfold ownTemplates at h
  dsimp only at h
  split at h
  · rcases mem_collectionTemplates h with huri | ⟨tail, hform, huri⟩
    · exact ⟨_, .query, huri⟩
    · exact ⟨tail, .member hform, huri⟩
  · exact absurd h List.not_mem_nil

/-- The templates of a collection have distinct texts. -/
theorem nodup_collectionTemplates (uri key : String) (n : Node) :
    ((collectionTemplates uri key n).1.map Template.uriTemplate).Nodup := by
  unfold collectionTemplates
  cases n.hasMethod "by_index" <;> cases n.hasMethod "by_id" <;> cases n.hasMethod "by_name" <;>
    simp

/-- The templates that a child has itself are distinct and lie below its key. -/
theorem adds_ownTemplates (c : Catalog) (base : String) (child : String × NodeId)
    (before : List Template) :
    Adds base [child.1] before (before ++ ownTemplates c base child) (ownTemplates c base child) := by
  refine ⟨rfl, ?_, fun t ht => ⟨child.1, List.mem_cons_self, ?_⟩⟩
  · unfold ownTemplates
    dsimp only
    split
    · exact nodup_collectionTemplates _ _ _
    · exact List.nodup_nil
  · obtain ⟨tail, htail, huri⟩ := mem_ownTemplates ht
    obtain ⟨mark, rest, hcons, hmark, -⟩ := htail.exists_cons
    refine ⟨mark, hmark, rest, ?_⟩
    rw [huri, toList_below, hcons]

/-- Collecting goes on below the address of a child without templates itself, or below a form in which
its members are addressed. -/
theorem under_of_onward {id : NodeId} {under : String}
    (h : onward c base child = .ok (some (id, under))) :
    (ownTemplates c base child = [] ∧ under = below base child.1) ∨
      ∃ tail, MemberForm (c.node (landingId c child.2)) tail ∧ under = below base child.1 ++ tail := by
  unfold onward at h
  unfold ownTemplates
  dsimp only at h ⊢
  split at h
  · split at h
    · exact (nomatch Except.ok.inj h)
    · obtain ⟨member, -, hmember⟩ := map_eq_ok.mp h
      obtain ⟨memberBase, hbase, heq⟩ := Option.map_eq_some_iff.mp hmember
      obtain ⟨-, rfl⟩ := Prod.mk.inj heq
      exact .inr (memberForm_of_member hbase)
  · next hkind =>
    obtain ⟨inner, -, hinner⟩ := map_eq_ok.mp h
    split at hinner
    · exact (nomatch hinner)
    · obtain ⟨-, rfl⟩ := Prod.mk.inj (Option.some.inj hinner)
      exact .inl ⟨if_neg hkind, rfl⟩

/-- A template that is collected below a child lies below the key of the child, and is none that the
child has itself. -/
theorem LiesBelow.of_onward {id : NodeId} {under key : String} {t : Template}
    (h : onward c base child = .ok (some (id, under))) (hkey : EndsPlain child.1)
    (ht : LiesBelow under key t) :
    LiesBelow base child.1 t ∧
      t.uriTemplate ∉ (ownTemplates c base child).map Template.uriTemplate := by
  obtain ⟨mark, -, tail, htext⟩ := ht
  rcases under_of_onward h with ⟨hnone, rfl⟩ | ⟨form, hform, rfl⟩
  · have hslash : '/' ∉ child.1.toList := fun hmem => hkey.2 '/' hmem (by decide)
    have hbase := toList_below base child.1 ""
    rw [String.append_empty, String.toList_empty, List.append_nil] at hbase
    have hends : endsAtRoot (below base child.1).toList = false := by
      rw [hbase, appendPiece]
      have hpiece : child.1.toList ≠ [] := fun hnil => hkey.1 (String.toList_eq_nil_iff.mp hnil)
      split
      · exact endsAtRoot_append hpiece hslash _
      · rw [List.append_cons]
        exact endsAtRoot_append hpiece hslash _
    refine ⟨⟨'/', by decide, key.toList ++ mark :: tail, ?_⟩, by rw [hnone]; exact List.not_mem_nil⟩
    rw [htext, appendPiece, hends, if_neg Bool.false_ne_true, hbase]
    unfold appendPiece
    split <;> simp only [List.append_assoc, List.cons_append]
  · obtain ⟨first, rest, hcons, hfirst, -⟩ := (OwnTail.member hform).exists_cons
    have hunder : t.uriTemplate.toList =
        (below base child.1).toList ++ (first :: rest ++ '/' :: (key.toList ++ mark :: tail)) := by
      rw [htext, String.toList_append, appendPiece, hform.ends, if_neg Bool.false_ne_true, hcons,
        List.append_assoc]
    refine ⟨⟨first, hfirst, rest ++ '/' :: (key.toList ++ mark :: tail), ?_⟩, fun hmem => ?_⟩
    · have hbelow := toList_below base child.1
        (String.ofList (first :: rest ++ '/' :: (key.toList ++ mark :: tail)))
      rw [String.toList_append, String.toList_ofList] at hbelow
      rw [hunder, hbelow, List.cons_append]
    · -- Behind its first character a tail of the child has no slash, and this text has one.
      obtain ⟨own, hown, heq⟩ := List.mem_map.mp hmem
      obtain ⟨ownTail, hownTail, huri⟩ := mem_ownTemplates hown
      obtain ⟨first', rest', hcons', -, hslash⟩ := hownTail.exists_cons
      rw [← heq, huri, String.toList_append, hcons'] at hunder
      have hrest := (List.cons.inj (List.append_cancel_left hunder)).2
      exact hslash (hrest ▸ List.mem_append_right _ List.mem_cons_self)

namespace Adds

variable {key : String} {keys : List String} {before mid after own more : List Template}

/-- What is added below keys one after the other is distinct, if the first key ends plain and is none
of the others. -/
theorem append (h : Adds base [key] before mid own) (hmore : Adds base keys mid after more)
    (hkey : EndsPlain key) (hkeys : ∀ k ∈ keys, EndsPlain k) (hnew : key ∉ keys) :
    Adds base (key :: keys) before after (own ++ more) := by
  refine ⟨?_, ?_, fun t ht => ?_⟩
  · rw [hmore.eq, h.eq, List.append_assoc]
  · rw [List.map_append]
    refine List.nodup_append.mpr ⟨h.nodup, hmore.nodup, fun uri huri uri' huri' heq => ?_⟩
    obtain ⟨t, ht, rfl⟩ := List.mem_map.mp huri
    obtain ⟨t', ht', rfl⟩ := List.mem_map.mp huri'
    obtain ⟨k, hk, hlies⟩ := h.below t ht
    obtain ⟨k', hk', hlies'⟩ := hmore.below t' ht'
    obtain rfl := List.mem_singleton.mp hk
    obtain rfl := hlies.key_eq hlies' hkey (hkeys k' hk') heq
    exact hnew hk'
  · rcases List.mem_append.mp ht with ht | ht
    · obtain ⟨k, hk, hlies⟩ := h.below t ht
      obtain rfl := List.mem_singleton.mp hk
      exact ⟨k, List.mem_cons_self, hlies⟩
    · obtain ⟨k, hk, hlies⟩ := hmore.below t ht
      exact ⟨k, List.mem_cons_of_mem key hk, hlies⟩

/-- What is added at a node below a child is added below the key of the child, behind what the child has
itself. -/
theorem of_onward {id : NodeId} {under : String}
    (h : onward c base child = .ok (some (id, under))) (hkey : EndsPlain child.1)
    (hinner : Adds under keys (before ++ ownTemplates c base child) after more) :
    Adds base [child.1] before after (ownTemplates c base child ++ more) := by
  have hown := adds_ownTemplates c base child before
  refine ⟨?_, ?_, fun t ht => ?_⟩
  · rw [hinner.eq, List.append_assoc]
  · rw [List.map_append]
    refine List.nodup_append.mpr ⟨hown.nodup, hinner.nodup, fun uri huri uri' huri' heq => ?_⟩
    obtain ⟨t', ht', rfl⟩ := List.mem_map.mp huri'
    obtain ⟨k, -, hlies⟩ := hinner.below t' ht'
    exact (hlies.of_onward h hkey).2 (heq ▸ huri)
  · rcases List.mem_append.mp ht with ht | ht
    · exact hown.below t ht
    · obtain ⟨k, -, hlies⟩ := hinner.below t ht
      exact ⟨child.1, List.mem_cons_self, (hlies.of_onward h hkey).1⟩

end Adds

/-- Children of nodes stand under distinct keys, each of which ends where a template goes on. -/
structure PlainKeys (c : Catalog) : Prop where
  /-- The keys are distinct. -/
  distinct : ∀ id, (c.node id).Distinct
  /-- They end plain. -/
  plain : ∀ id own, (c.node id).children = .ok own → ∀ key ∈ Keyed.keys own, EndsPlain key

/-- The keys of the children below a node. -/
theorem PlainKeys.below (hk : PlainKeys c) {id : NodeId}
    (h : (c.node id).below c = .ok children) :
    (Keyed.keys children).Nodup ∧ ∀ key ∈ Keyed.keys children, EndsPlain key := by
  unfold Node.below at h
  split at h
  · exact ⟨hk.distinct _ _ h, hk.plain _ _ h⟩
  · exact ⟨hk.distinct _ _ h, hk.plain _ _ h⟩

/-- A walk over children under distinct keys adds distinct templates below them, by induction on the
walk. -/
theorem Walks.adds (hk : PlainKeys c) (h : Walks c base children out opened out')
    (hnodup : (Keyed.keys children).Nodup) (hplain : ∀ key ∈ Keyed.keys children, EndsPlain key) :
    ∃ added, Adds base (Keyed.keys children) out.templates out'.templates added := by
  induction h with
  | nil => exact ⟨[], (List.append_nil _).symm, List.nodup_nil, fun t ht => absurd ht List.not_mem_nil⟩
  | ends _ _ ih | again _ _ _ ih =>
    obtain ⟨hnew, hrest⟩ := List.nodup_cons.mp hnodup
    obtain ⟨hkey, hkeys⟩ := List.forall_mem_cons.mp hplain
    obtain ⟨more, hmore⟩ := ih hrest hkeys
    exact ⟨_, (adds_ownTemplates c _ _ _).append hmore hkey hkeys hnew⟩
  | descends hnext _ hchildren _ _ ihinner ihrest =>
    obtain ⟨hnew, hrest⟩ := List.nodup_cons.mp hnodup
    obtain ⟨hkey, hkeys⟩ := List.forall_mem_cons.mp hplain
    obtain ⟨hinside, hinsidePlain⟩ := hk.below hchildren
    obtain ⟨inner, hinner⟩ := ihinner hinside hinsidePlain
    obtain ⟨more, hmore⟩ := ihrest hrest hkeys
    exact ⟨_, (hinner.of_onward hnext hkey).append hmore hkey hkeys hnew⟩

/-- The templates of a scheme are distinct, and their texts start with its root. -/
theorem Tours.distinct (hk : PlainKeys c) {scheme : String} {what : Registration}
    {ts : List Template} (h : Tours c scheme what opened ts) :
    (ts.map Template.uriTemplate).Nodup ∧
      ∀ t ∈ ts, ∃ tail, t.uriTemplate.toList = scheme.toList ++ schemeMark ++ tail := by
  cases h with
  | intro hchildren hwalk =>
    obtain ⟨hnodup, hplain⟩ := hk.below hchildren
    obtain ⟨added, hadded⟩ := hwalk.adds hk hnodup hplain
    have heq := hadded.eq
    rw [List.nil_append] at heq
    rw [heq]
    refine ⟨hadded.nodup, fun t ht => ?_⟩
    obtain ⟨key, -, mark, -, tail, htext⟩ := hadded.below t ht
    have hroot : (rootUri scheme).toList = scheme.toList ++ schemeMark := String.toList_append
    rw [hroot, appendPiece_root] at htext
    exact ⟨_, htext⟩

/-- Two schemes without a colon at which one text starts are one. -/
theorem scheme_eq {scheme scheme' : String} {tail tail' : List Char} (h : ':' ∉ scheme.toList)
    (h' : ':' ∉ scheme'.toList)
    (heq : scheme.toList ++ schemeMark ++ tail = scheme'.toList ++ schemeMark ++ tail') :
    scheme = scheme' := by
  have hparts : ∀ {scheme : String} {tail : List Char}, ':' ∉ scheme.toList →
      (scheme.toList ++ schemeMark ++ tail).takeWhile (fun x => decide (x ≠ ':')) = scheme.toList := by
    intro scheme tail hcolon
    have hplain : ∀ x ∈ scheme.toList, decide (x ≠ ':') = true :=
      fun x hx => decide_eq_true fun hx' => hcolon (hx' ▸ hx)
    rw [List.append_assoc, List.takeWhile_append_of_pos hplain,
      show schemeMark ++ tail = ':' :: '/' :: '/' :: tail from rfl,
      List.takeWhile_cons_of_neg (by decide), List.append_nil]
  have hschemes := congrArg (List.takeWhile fun x => decide (x ≠ ':')) heq
  rw [hparts h, hparts h'] at hschemes
  exact String.toList_injective hschemes

/-- What is made of all schemes is distinct, if what is made of each of them is, and starts with its
root. -/
theorem nodup_overSchemes {f : String → Registration → Outcome (List Template)}
    {schemes : Keyed Registration} {all : List Template} (h : overSchemes f schemes = .ok all)
    (hnames : (Keyed.keys schemes).Nodup) (hplain : ∀ scheme ∈ Keyed.keys schemes, ':' ∉ scheme.toList)
    (hf : ∀ scheme what own, f scheme what = .ok own → (own.map Template.uriTemplate).Nodup ∧
      ∀ t ∈ own, ∃ tail, t.uriTemplate.toList = scheme.toList ++ schemeMark ++ tail) :
    (all.map Template.uriTemplate).Nodup := by
  induction schemes generalizing all with
  | nil =>
    obtain rfl := Except.ok.inj h
    exact List.nodup_nil
  | cons e rest ih =>
    obtain ⟨own, hown, h⟩ := bind_eq_ok.mp h
    obtain ⟨more, hmore, h⟩ := bind_eq_ok.mp h
    obtain rfl := Except.ok.inj h
    obtain ⟨hnew, hrest⟩ := List.nodup_cons.mp hnames
    obtain ⟨hfirst, hplain⟩ := List.forall_mem_cons.mp hplain
    obtain ⟨hnodup, hstarts⟩ := hf e.1 e.2 own hown
    rw [List.map_append]
    refine List.nodup_append.mpr ⟨hnodup, ih hmore hrest hplain, fun uri huri uri' huri' heq => ?_⟩
    obtain ⟨t, ht, rfl⟩ := List.mem_map.mp huri
    obtain ⟨t', ht', rfl⟩ := List.mem_map.mp huri'
    obtain ⟨scheme, what, theirs, hmem, htheirs, ht'⟩ := mem_overSchemes hmore ht'
    obtain ⟨tail, htail⟩ := hstarts t ht
    obtain ⟨tail', htail'⟩ := (hf scheme what theirs htheirs).2 t' ht'
    have hkey : scheme ∈ Keyed.keys rest := List.mem_map_of_mem hmem
    obtain rfl := scheme_eq hfirst (hplain scheme hkey)
      (htail.symm.trans ((congrArg String.toList heq).trans htail'))
    exact hnew hkey

/-- **Templates are collected once.** Over a catalog in which every name is defined and the children of
each node stand under distinct keys that end plain, the walk through every scheme comes to an end,
however the nodes lead back into each other; it opens the children of each node at most once, and what
it collects are the templates of the scheme. Where the schemes are distinct and hold no colon, no two
templates in the list of all schemes have the same text. -/
theorem templates_collected_once {a : Atlas} (hc : Defined a.catalog) (hk : PlainKeys a.catalog)
    (hnames : a.registry.names.Nodup) (hplain : ∀ scheme ∈ a.registry.names, ':' ∉ scheme.toList) :
    (∀ scheme what, (scheme, what) ∈ a.registry.schemes → ∃ opened ts,
      Tours a.catalog scheme what opened ts ∧ opened.Nodup ∧
        schemeTemplates a.catalog scheme what = .ok ts) ∧
    ∃ ts, templates a = .ok ts ∧ (ts.map Template.uriTemplate).Nodup := by
  refine ⟨fun scheme what _ => hc.exists_tours scheme what, ?_⟩
  obtain ⟨ts, hts⟩ := hc.listed_ok.2
  refine ⟨ts, hts, nodup_overSchemes hts hnames hplain fun scheme what own hown => ?_⟩
  obtain ⟨opened, own', htour, -, hown'⟩ := hc.exists_tours scheme what
  obtain rfl := Except.ok.inj (hown'.symm.trans hown)
  exact htour.distinct hk

/-- The cabinet under two schemes. -/
def twinCabinet (built : NodeId × Schema.Workshop) : Atlas :=
  ⟨built.2.catalog, ⟨[("s", ⟨0, built.1⟩), ("t", ⟨0, built.1⟩)], false⟩⟩

/-- The templates of the cabinet, in which folders lie in folders, are collected once under each of two
schemes. -/
theorem templates_collected_once_cabinet : ∃ built ts, builtCabinet = .ok built ∧
    templates (twinCabinet built) = .ok ts ∧ ts.length = 20 ∧
    (ts.map Template.uriTemplate).Nodup ∧
    ∀ scheme what, (scheme, what) ∈ (twinCabinet built).registry.schemes → ∃ opened ts,
      Tours (twinCabinet built).catalog scheme what opened ts ∧ opened.Nodup ∧
        schemeTemplates (twinCabinet built).catalog scheme what = .ok ts := by
  have hlisted : (builtCabinet.bind fun built => do
      let ts ← templates (twinCabinet built)
      .ok (ts.length, decide (∀ n ∈ built.2.catalog.nodes.toList, namesDefined n = true))) =
      .ok (20, true) := by
    decide +kernel
  obtain ⟨built, hbuilt, hlisted⟩ := bind_eq_ok.mp hlisted
  obtain ⟨ts, hts, hlisted⟩ := bind_eq_ok.mp hlisted
  obtain ⟨hlength, hnodes⟩ := Prod.mk.inj (Except.ok.inj hlisted)
  obtain ⟨hw, -, hlistable, -⟩ := cabinet_listable hbuilt "s"
  have hdefined : Defined (twinCabinet built).catalog :=
    .of_namesDefined (Catalog.forall_node (by decide) (of_decide_eq_true hnodes))
  have hkeys : PlainKeys (twinCabinet built).catalog :=
    ⟨hw.distinct, fun id own hown key hkey =>
      endsPlain_of_isWord ((hlistable id).keys own hown key hkey).1⟩
  have hnames : (twinCabinet built).registry.names = ["s", "t"] := rfl
  obtain ⟨htours, ts', hts', hnodup⟩ := templates_collected_once hdefined hkeys
    (by rw [hnames]; decide) (by rw [hnames]; decide)
  obtain rfl := Except.ok.inj (hts.symm.trans hts')
  exact ⟨built, ts, hbuilt, hts, hlength, hnodup, htours⟩

end ResourceAtlas.Resource

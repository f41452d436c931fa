import ResourceAtlas.Proofs.Query.Conjoined
import ResourceAtlas.Proofs.Registry.Indexed
import ResourceAtlas.Proofs.Registry.Queried
import ResourceAtlas.Proofs.Specifier.Asked

/-!
# Comparisons asked together

Comparisons of distinct fields that are asked of a collection together, or one list of them after the
other, make states that differ in the order of the predicates alone, and so do the parts of a query in
another order. Where every predicate answers, such states select the same members. What is filled in is
the same too, unless a computed way leads from a member back to the collection, whose address tells the
order of the predicates.
-/

namespace ResourceAtlas

open Address Query Schema Text

/-- Predicates answer on all members of a location, whichever is tried. -/
def Cursor.AnswersAt (s : Store) (c : Cursor) (filter : Keyed Predicate) : Prop :=
  ∀ data items, c.raw s = .ok data → data.sequence? = some items →
    ∀ item ∈ items, Answers filter item

/-- The definitions of members are there in the form that honours queries too. -/
theorem Schema.Node.MembersDefined.queryable {catalog : Catalog} {n : Node}
    (h : n.MembersDefined catalog) : n.queryable.MembersDefined catalog := by
  unfold MembersDefined itemNode?
  rw [item_queryable]
  exact h

/-- A location shows the same whatever the order of the predicates that are asked there, if they answer
on its members and nothing that is filled in leads back to it. -/
theorem resolve_reordered {catalog : Catalog} {s : Store} {c : Cursor} {q q' : State} {node : Node}
    (hin : c.isOutside = false) (hn : node.resolution = .selected) (h : q.Reordered q')
    (hanswers : c.AnswersAt s q.filter) (hfields : q.expand = [] ∨ catalog.Forward)
    (registered : Bool) :
    (Specifier.mk (c.withQuery q) node registered).resolve catalog s =
      (Specifier.mk (c.withQuery q') node registered).resolve catalog s := by
  have hnear := Cursor.near_withQuery_withQuery c q q'
  have hq := Cursor.query_withQuery hin q
  have hq' := Cursor.query_withQuery hin q'
  show resolveWithin catalog s (_ + 1) node _ = resolveWithin catalog s (_ + 1) node _
  rw [resolveWithin_selected s _ hn, resolveWithin_selected s _ hn, ← hnear.raw_eq s]
  refine bind_congr_ok fun data hdata => congrArg (Except.map Value.list) ?_
  refine selectedReferences_near_of_select (by rw [hq]; exact hfields)
    (fun hd => resolveWithin_congruent hd s _) node hnear ?_ fun items hitems => ?_
  · rw [hq, hq', h.expand]
  · rw [hq, hq']
    exact h.selectMembers_eq
      (hanswers data items (((Cursor.near_withQuery c q).raw_eq s).trans hdata) hitems)

namespace Specifier

variable {a : Atlas} {s : Store} {spec : Specifier} {f g both : List Comparison}

/-- A collection in a document, of which it can be asked that comparisons hold. -/
structure Filterable (spec : Specifier) : Prop where
  /-- It is in a document. -/
  inside : spec.cursor.isOutside = false
  /-- Its kind tells how its value is made. -/
  regular : spec.node.Regular
  /-- It has the method that asks for comparisons. -/
  method : Keyed.get? "whose" spec.node.methods = some .whose

/-- Ask a specifier that comparisons hold. -/
def whose (a : Atlas) (spec : Specifier) (comparisons : List Comparison) : Outcome Specifier :=
  spec.callAsking a "whose" (.filter comparisons)

/-- The form of a location that honours queries, asked for what a state says. -/
def honouring (spec : Specifier) (q : State) : Specifier :=
  ⟨spec.cursor.withQuery q, spec.node.queryable, spec.registered⟩

/-- A collection can be asked that comparisons hold after it was asked for something. -/
theorem Filterable.honouring (h : spec.Filterable) (q : State) : (spec.honouring q).Filterable where
  inside := (Cursor.isOutside_withQuery _ q).trans h.inside
  regular := h.regular.queryable
  method := by
    change Keyed.get? "whose" spec.node.queryable.methods = some .whose
    unfold Node.queryable
    split
    · exact h.method
    · have hlater : "whose" ∉ Keyed.keys Node.queryMethods.tail := by decide
      exact (Keyed.get?_merge_of_not_mem hlater).trans (Keyed.get?_put_self _ _ _)

/-- Asking that comparisons hold adds their predicates. -/
theorem Filterable.whose_eq (h : spec.Filterable) (f : List Comparison) :
    spec.whose a f =
      .ok (spec.honouring (spec.cursor.query.withFilter (predicatesOf f))) := by
  have hget : spec.get a "whose" = .ok (.method .whose) := by
    rw [get, if_neg (by decide), h.method]
  unfold whose callAsking methodNamed
  rw [hget]
  show spec.asking (.filter f) = _
  unfold asking
  rw [Cursor.within, h.inside]
  rfl

/-- Asking that comparisons hold one after the other adds the predicates of all of them. -/
theorem Filterable.whose_whose (h : spec.Filterable) (f g : List Comparison) :
    (spec.whose a f >>= fun mid => mid.whose a g) =
      .ok (spec.honouring (spec.cursor.query.withFilter (predicatesOf f ++ predicatesOf g))) := by
  have hmid := (h.honouring (spec.cursor.query.withFilter (predicatesOf f))).whose_eq (a := a) g
  have hquery := Cursor.query_withQuery h.inside (spec.cursor.query.withFilter (predicatesOf f))
  rw [h.whose_eq]
  refine hmid.trans ?_
  rw [Specifier.honouring, Specifier.honouring, Specifier.honouring, hquery,
    Cursor.withQuery_withQuery, Node.queryable_queryable]
  rw [State.withFilter, State.withFilter, State.withFilter, Keyed.merge, Keyed.merge, Keyed.merge,
    List.foldl_append]

/-- A collection shows the same whether two lists of comparisons of distinct fields are asked of it or
the comparisons of both in another order. -/
theorem Filterable.resolve_perm (h : spec.Filterable)
    (hn : ((f ++ g).map Comparison.field).Nodup) (hp : both.Perm (f ++ g))
    (hanswers : spec.cursor.AnswersAt s
      (spec.cursor.query.filter ++ (predicatesOf f ++ predicatesOf g)))
    (hfields : spec.cursor.query.expand = [] ∨ a.catalog.Forward) :
    (spec.honouring (spec.cursor.query.withFilter (predicatesOf f ++ predicatesOf g))).resolve
        a.catalog s =
      (spec.honouring (spec.cursor.query.withFilter (predicatesOf both))).resolve a.catalog s := by
  refine resolve_reordered h.inside (Node.resolution_queryable h.regular)
    (State.reordered_withFilter _ (predicatesOf_perm hn hp) (nodup_predicatesOf_append hn))
    (fun data items hdata hitems item hitem e he => ?_) hfields _
  refine hanswers data items hdata hitems item hitem e (List.mem_append.mpr ?_)
  exact Keyed.mem_of_mem_merge he

/-- A collection that is asked for predicates alone shows references to the members on which they
hold, in their places. -/
theorem Filterable.resolve_filter (h : spec.Filterable) (hdefined : spec.node.MembersDefined a.catalog)
    {filter : Keyed Predicate} {data : Value} {items : List Value}
    (hdata : spec.cursor.raw s = .ok data) (hitems : data.sequence? = some items)
    (hanswers : ∀ item ∈ items, Answers filter item)
    (hwritten : ∀ i < items.length, ∃ uri, (spec.cursor.atIndex (.int (i : Nat))).uri = .ok uri) :
    ∃ refs, references spec.cursor
        ((items.zipIdx.filter fun m => admits filter m.1).map Prod.snd) = .ok refs ∧
      (spec.honouring { State.empty with filter }).resolve a.catalog s = .ok (.list refs) := by
  have hselected : selectMembers { State.empty with filter } items =
      .ok (items.zipIdx.filter fun m => admits filter m.1) := by
    rw [State.selectMembers_unfiltered hanswers]
    exact bind_eq_ok.mpr ⟨_, keepMatching_nil _ _, rfl⟩
  obtain ⟨refs, hrefs⟩ : ∃ refs, references spec.cursor
      ((items.zipIdx.filter fun m => admits filter m.1).map Prod.snd) = .ok refs := by
    refine exists_references fun i hi => ?_
    obtain ⟨m, hm, rfl⟩ := List.mem_map.mp hi
    exact hwritten m.2
      (List.getElem?_eq_some_iff.mp (List.mem_zipIdx_iff_getElem?.mp (List.mem_filter.mp hm).1)).1
  have hlisted : Listed s spec.cursor { State.empty with filter }
      (items.zipIdx.filter fun m => admits filter m.1) refs :=
    ⟨⟨data, items, hdata, by rw [membersOf, hitems], hselected⟩, hrefs⟩
  obtain ⟨shown, hresolve, -, hplain, -⟩ := hlisted.exists_answer h.inside
    (Node.resolution_queryable h.regular) hdefined.queryable
    (fun field hfield => absurd hfield List.not_mem_nil) spec.registered
  exact ⟨refs, hrefs, hplain rfl ▸ hresolve⟩

/-- The members of a collection that is asked for nothing, all of which can be referred to. -/
structure Refers (a : Atlas) (s : Store) (spec : Specifier) (items : List Value) : Prop where
  /-- Nothing is asked. -/
  unasked : spec.cursor.query = .empty
  /-- The members are there. -/
  members : ∃ data, spec.cursor.raw s = .ok data ∧ data.sequence? = some items
  /-- They have addresses. -/
  written : ∀ i < items.length, ∃ uri, (spec.cursor.atIndex (.int (i : Nat))).uri = .ok uri
  /-- The definitions of members are there. -/
  defined : spec.node.MembersDefined a.catalog

/-- A collection that is asked for comparisons of distinct fields alone shows references to the members
on which those of both lists hold, in their places. -/
theorem Filterable.resolve_exactly (h : spec.Filterable) {items : List Value}
    (hrefers : spec.Refers a s items) (hn : ((f ++ g).map Comparison.field).Nodup)
    (hanswers : spec.cursor.AnswersAt s
      (spec.cursor.query.filter ++ (predicatesOf f ++ predicatesOf g))) :
    ∃ refs, references spec.cursor ((items.zipIdx.filter fun m =>
        admits (predicatesOf f) m.1 && admits (predicatesOf g) m.1).map Prod.snd) = .ok refs ∧
      (spec.honouring (spec.cursor.query.withFilter (predicatesOf f ++ predicatesOf g))).resolve
        a.catalog s = .ok (.list refs) := by
  obtain ⟨data, hdata, hitems⟩ := hrefers.members
  have hstate : spec.cursor.query.withFilter (predicatesOf f ++ predicatesOf g) =
      { State.empty with filter := predicatesOf f ++ predicatesOf g } := by
    rw [hrefers.unasked]
    exact congrArg (fun filter => { State.empty with filter })
      (Keyed.ofList_of_nodup (nodup_predicatesOf_append hn))
  obtain ⟨refs, hrefs, hresolve⟩ := h.resolve_filter hrefers.defined hdata hitems
    (fun item hitem e he => hanswers data items hdata hitems item hitem e (List.mem_append_right _ he))
    hrefers.written
  simp only [admits_append] at hrefs
  exact ⟨refs, hrefs, hstate ▸ hresolve⟩

end Specifier

/-- Addresses with the parts of a query in another order lead to specifiers that show the same. -/
theorem Atlas.TakesRequest.resolve_perm {a : Atlas} {s : Store} {uri : String} {spec : Specifier}
    {mark query query' : List Char} {r : Request} (h : a.TakesRequest uri spec)
    (hregular : spec.node.Regular) (hmark : mark ∈ questionMarks) (hslash : '/' ∉ query)
    (hp : (Split.every '&' query).Perm (Split.every '&' query')) (hkeys : (queryKeys query).Nodup)
    (hr : readRequest query = .ok r) (hn : (r.filters.map Clause.field).Nodup)
    (hanswers : spec.cursor.AnswersAt s (r.apply spec.cursor.query).filter)
    (hfields : (r.apply spec.cursor.query).expand = [] ∨ a.catalog.Forward) :
    ∃ here there, a.resolve (askedUri uri mark query) = .ok (.ok here) ∧
      a.resolve (askedUri uri mark query') = .ok (.ok there) ∧
      here.resolve a.catalog s = there.resolve a.catalog s := by
  have hslash' : '/' ∉ query' := by
    rw [@Split.mem_every '&' '/' (by decide)] at hslash ⊢
    exact fun ⟨part, hpart, hmem⟩ => hslash ⟨part, hp.mem_iff.mpr hpart, hmem⟩
  obtain ⟨r', hr', hreordered⟩ := readRequest_perm hp hkeys hr
  exact ⟨_, _, h.resolve_asked hmark hslash hr, h.resolve_asked hmark hslash' hr',
    resolve_reordered h.inside (Node.resolution_queryable hregular)
      (hreordered.apply hn spec.cursor.query) hanswers hfields _⟩

namespace Atlas

/-- Comparisons of a name and a department answer on all folders. -/
theorem answersAt_rankedFolders {name department : String} {filter : Keyed Predicate}
    (h : filter = [("name", ⟨.startsWith, .text name⟩), ("R&D", ⟨.equals, .text department⟩)]) :
    foldersUnasked.cursor.AnswersAt rankedFolders filter := by
  subst h
  intro data items hdata hitems item hitem e he
  obtain rfl := Except.ok.inj ((raw_folders folderAccessors _).symm.trans hdata)
  obtain rfl := Option.some.inj hitems
  simp only [List.mem_cons, List.not_mem_nil, or_false] at hitem he
  rcases hitem with rfl | rfl <;> rcases he with rfl | rfl <;> exact ⟨_, rfl⟩

/-- The nodes of folders each of which shows a way back to all folders. -/
def returningNodes : List Node :=
  let back := Node.gathering [("me", 6)]
  [Node.gathering [("folders", 1)],
    { Node.plain .collection .members with
      item := some (.node 2)
      methods := ("by_index", .byIndex (.node 2)) :: Node.queryMethods },
    Node.gathering [("name", 3), ("back", 5)],
    Node.leaf (some .text),
    back,
    back.reachedBy [.parent] 4,
    (passthrough.reachedBy [.property "x", .parent] 7).delayed,
    passthrough]

/-- Folders under a scheme, each with a way back to all folders. -/
def returningFolders : Atlas where
  catalog := ⟨returningNodes.toArray⟩
  registry := ⟨[("s", ⟨0, 0⟩)], false⟩

/-- A folder of a name and a kind. -/
def sortedFolder (name kind : String) : Value :=
  .mapping [("name", .text name), ("kind", .text kind)]

/-- The first folder with the address to which its way back leads. -/
def shownBack (uri : String) : Value :=
  .mapping [("uri", .text "s://folders%5B0%5D"), ("back", .mapping [("me", folderAt uri)])]

end Atlas

end ResourceAtlas

import ResourceAtlas.Proofs.Query.Restored
import ResourceAtlas.Proofs.Registry.Indexed
import ResourceAtlas.Proofs.Store.Exchange
import ResourceAtlas.Proofs.Tool.Created

/-!
# Changes do not heed what is asked

What is asked of a location is neither in its place nor in the part of its address that the address of a
member is made of. So a change through the location has one effect whatever is asked there, as long as
that can be written, and a creation through an address has the effect of one through the address with a
query behind it.
-/

namespace ResourceAtlas

open Address Query Schema Store Text

/-- An address up to the query is what stands before the first question mark. -/
theorem Store.withoutQuery_eq (uri : String) :
    withoutQuery uri = String.ofList (uri.toList.takeWhile (· != '?')) := by
  rw [withoutQuery]
  by_cases hmark : '?' ∈ uri.toList
  · obtain ⟨before, after, huri, hbefore⟩ := List.eq_append_cons_of_mem hmark
    have hall : ∀ c ∈ before, (c != '?') = true := fun c hc =>
      bne_iff_ne.mpr fun heq => hbefore (heq ▸ hc)
    rw [huri, Split.atFirst_append hbefore, List.takeWhile_append_of_pos hall,
      List.takeWhile_cons_of_neg (by decide), List.append_nil]
  · have hall : uri.toList.takeWhile (· != '?') = uri.toList :=
      List.takeWhile_eq_self_iff.mpr fun c hc => bne_iff_ne.mpr fun heq => hmark (heq ▸ hc)
    rw [Split.atFirst_eq_none hmark, hall, String.ofList_toList]

/-- A query behind an address is cut off with what follows the first question mark. -/
theorem Store.withoutQuery_append (base query : String) :
    withoutQuery (base ++ "?" ++ query) = withoutQuery base := by
  have hquery : ("?" ++ query).toList.takeWhile (· != '?') = [] := by
    rw [String.toList_append]
    exact List.takeWhile_cons_of_neg (by decide)
  rw [withoutQuery_eq, withoutQuery_eq, String.append_assoc, String.toList_append, List.takeWhile_append,
    hquery, List.append_nil]
  split
  · next hall => rw [(List.takeWhile_prefix _).eq_of_length hall]
  · rfl

namespace Cursor

variable {c d : Cursor} {q : State}

/-- The address of a location inside is that of its steps, up to the query. -/
theorem withoutQuery_of_uri (hin : c.isOutside = false) {uri : String} (h : c.uri = .ok uri) :
    ∃ base, stepsText c.steps = .ok base ∧ withoutQuery uri = withoutQuery base := by
  rw [uri_inside hin] at h
  obtain ⟨base, hbase, h⟩ := bind_eq_ok.mp h
  obtain ⟨query, -, h⟩ := bind_eq_ok.mp h
  refine ⟨base, hbase, ?_⟩
  rw [← Except.ok.inj h]
  split
  · rfl
  · exact withoutQuery_append base query

/-- The addresses of a location asked in two ways are one up to the query. -/
theorem sameBase_withQuery (c : Cursor) (q : State) : c.SameBase (c.withQuery q) := by
  intro u v hu hv
  have hin : c.isOutside = false := Addressed.inside ⟨u, hu⟩
  obtain ⟨base, hbase, hsame⟩ := withoutQuery_of_uri hin hu
  obtain ⟨base', hbase', hsame'⟩ := withoutQuery_of_uri ((isOutside_withQuery c q).trans hin) hv
  rw [steps_withQuery, hbase] at hbase'
  rw [hsame, hsame', Except.ok.inj hbase']

/-- Changes to what is asked lead to the same location asked otherwise. -/
theorem eq_withQuery_of_changes {changes : List Change}
    (h : Motion.applyAll c (changes.map .change) = .ok d) : ∃ q, d = c.withQuery q := by
  induction changes generalizing c with
  | nil => exact ⟨c.query, (Except.ok.inj h).symm.trans (withQuery_self c).symm⟩
  | cons change rest ih =>
    obtain ⟨mid, hmid, h⟩ := bind_eq_ok.mp h
    have hstep : ∃ q, mid = c.withQuery q := by
      unfold Motion.apply at hmid
      split at hmid
      · exact (nomatch hmid)
      · obtain ⟨q, -, rfl⟩ := map_eq_ok.mp hmid
        exact ⟨q, rfl⟩
    obtain ⟨q, rfl⟩ := hstep
    obtain ⟨q', rfl⟩ := ih h
    exact ⟨q', withQuery_withQuery c q q'⟩

/-- Every change through one location has the effect of the same change through another one, be it the
one that is changed or the one that a member is moved to, and reports the same. -/
structure SameChanges (c d : Cursor) : Prop where
  /-- Creations. -/
  insert : ∀ properties keys s, SameReport (c.insert properties keys s) (d.insert properties keys s)
  /-- Assignments, which report nothing. -/
  assign : ∀ new s, (c.assign new s).2 = (d.assign new s).2 ∧
    ((c.assign new s).1 = .ok () ↔ (d.assign new s).1 = .ok ())
  /-- Removals, which report the address that was asked. -/
  remove : ∀ s, SameEffect (c.remove s) (d.remove s)
  /-- Moves of it. -/
  relocate : ∀ destination keys s,
    SameReport (c.relocate destination keys s) (d.relocate destination keys s)
  /-- Moves to it. -/
  receive : ∀ member keys s, SameReport (Cursor.relocate member c keys s) (member.relocate d keys s)

/-- All changes have one effect whatever is asked of a location, if it has an address asked both ways or
neither way. -/
theorem sameChanges_withQuery (h : c.Addressed ↔ (c.withQuery q).Addressed) :
    c.SameChanges (c.withQuery q) where
  insert := (exchangeable_withQuery c q).insert h (sameBase_withQuery c q)
  assign := (exchangeable_withQuery c q).assign h
  remove := (exchangeable_withQuery c q).remove h
  relocate destination :=
    (exchangeable_withQuery c q).relocate_report (.refl destination) Iff.rfl fun u v hu hv => by
      rw [Except.ok.inj (hu.symm.trans hv)]
  receive member :=
    (Exchangeable.refl member).relocate_report (exchangeable_withQuery c q) h (sameBase_withQuery c q)

end Cursor

namespace Specifier

variable {a : Atlas} {spec asked : Specifier} {handler : Option Handler}

/-- A change leaves the store that it leaves when its address is looked up. -/
theorem followed_store {before : Outcome Unit} {change : Action (Verdict String)} {s : Store} :
    (spec.followed a before change s).2 = (change s).2 := by
  unfold followed
  split
  all_goals
    next hchange => rw [hchange]

/-- A change answers a location exactly if it reports an address that leads there. -/
theorem followed_ok_iff {change : Action (Verdict String)} {s : Store} {found : Specifier} :
    (spec.followed a (.ok ()) change s).1 = .ok (.ok found) ↔
      ∃ uri, (change s).1 = .ok (.ok uri) ∧ spec.lookUp a uri = .ok (.ok found) := by
  constructor
  · intro h
    obtain ⟨uri, hchange, hlook⟩ := followed_ok (Prod.ext h rfl)
    exact ⟨uri, congrArg Prod.fst hchange, hlook⟩
  · rintro ⟨uri, hchange, hlook⟩
    unfold followed
    rw [show change s = (.ok (.ok uri), (change s).2) from Prod.ext hchange rfl]
    exact hlook

/-- Looking up what changes report has one effect after changes of one effect. -/
theorem followed_sameReport (hregistered : spec.registered = asked.registered)
    {change change' : Action (Verdict String)} {s : Store} (h : SameReport (change s) (change' s)) :
    SameReport (spec.followed a (.ok ()) change s) (asked.followed a (.ok ()) change' s) := by
  have hlook : spec.lookUp a = asked.lookUp a := by
    funext uri
    rw [lookUp, lookUp, hregistered]
  refine .of_iff (followed_store.trans (h.store.trans followed_store.symm)) fun found => ?_
  rw [followed_ok_iff, followed_ok_iff, hlook]
  exact exists_congr fun uri => and_congr_left fun _ => h.iff uri

/-- The form that honours queries addresses members by the same keys. -/
theorem memberKeys_queryable (node : Node) : node.queryable.memberKeys = node.memberKeys := by
  unfold Node.memberKeys
  congr 1
  refine List.filter_congr fun accessor haccessor => Atlas.hasMethod_queryable ?_
  simp only [Node.accessors, List.mem_cons, List.not_mem_nil, or_false] at haccessor
  rcases haccessor with rfl | rfl | rfl <;> decide

/-- The form that honours queries creates as the other form does. -/
theorem get_create_queryable (node : Node) :
    Keyed.get? "create" node.queryable.methods = Keyed.get? "create" node.methods := by
  unfold Node.queryable
  split
  · rfl
  · exact Keyed.get?_merge_of_not_mem (by decide)

/-- A creation has one effect in the form that honours queries, whatever is asked there, and answers the
same. -/
theorem create_sameReport {q : State} (hcursor : asked.cursor = spec.cursor.withQuery q)
    (hnode : asked.node = spec.node.queryable) (hregistered : spec.registered = asked.registered)
    (hw : spec.cursor.Addressed ↔ asked.cursor.Addressed) (properties : Value) (s : Store) :
    SameReport (spec.create a handler properties s) (asked.create a handler properties s) := by
  refine followed_sameReport hregistered ?_
  rw [hnode, memberKeys_queryable]
  cases handler with
  | some h => exact ⟨⟨rfl, Iff.rfl⟩, fun _ h => h⟩
  | none =>
    rw [hcursor] at hw ⊢
    exact (Cursor.sameChanges_withQuery hw).insert properties spec.node.memberKeys s

end Specifier

namespace Atlas

variable {a : Atlas} {uri : String} {spec : Specifier} {handler : Option Handler}
  {mark query : List Char} {r : Request}

/-- An address of a collection that members can be added to: a query behind it is asked of the
collection, and the collection has an address itself. -/
structure Creates (a : Atlas) (uri : String) (spec : Specifier) (handler : Option Handler) : Prop
    extends TakesRequest a uri spec where
  /-- The collection has a method that creates. -/
  creates : Keyed.get? "create" spec.node.methods = some (.create handler)
  /-- It has an address. -/
  addressed : spec.cursor.Addressed

/-- What is asked of a collection that has an address can be written. -/
theorem Creates.addressed_asked (h : a.Creates uri spec handler) (hr : readRequest query = .ok r) :
    (spec.cursor.withQuery (r.apply spec.cursor.query)).Addressed :=
  h.addressed.withQuery
    ((countable_of_readRequest hr).writable (Cursor.addressed_iff.mp h.addressed).2.2)

end Atlas

namespace Specifier

open Atlas

end Specifier

end ResourceAtlas

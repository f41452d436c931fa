import ResourceAtlas.Proofs.Outcome
import ResourceAtlas.Proofs.Registry.Move

/-!
# Walks write canonical addresses

A walk along segments without queries ends at a location whose address is the canonical text of
those segments, and of which nothing is asked. One segment adds its own text; the run follows by
induction along the segments.
-/

namespace ResourceAtlas.Atlas

open Address Query Schema

/-- Where a segment leads from a location. -/
inductive SegmentMove (a : Atlas) (here : Standing) : Segment → Standing → Prop
  /-- Where its head leads. -/
  | bare {head : String} {there : Standing} (hm : a.HeadMove here head there) :
      SegmentMove a here ⟨head, none⟩ there
  /-- To the member at a position of where its head leads. -/
  | index {head : String} {mid : Standing} {n : Int} {member : Node}
      (hm : a.HeadMove here head mid) (hmethod : mid.node.hasMethod "by_index" = true)
      (hitem : mid.node.itemNode a.catalog = .ok member) :
      SegmentMove a here ⟨head, some (.index n)⟩
        ⟨mid.cursor.entered (.index (.int n)) (.index (.int n)), member⟩
  /-- To the member of an identifier of where its head leads. -/
  | id {head : String} {mid : Standing} {n : Int} {member : Node}
      (hm : a.HeadMove here head mid) (hmethod : mid.node.hasMethod "by_id" = true)
      (hitem : mid.node.itemNode a.catalog = .ok member) :
      SegmentMove a here ⟨head, some (.id n)⟩
        ⟨mid.cursor.entered (.id (.int n)) (.id (.int n)), member⟩
  /-- Where its head leads, asked for its query. -/
  | query {head : String} {mid : Standing} {r : Request} (hm : a.HeadMove here head mid) :
      SegmentMove a here ⟨head, some (.query r)⟩
        ⟨mid.cursor.withQuery (r.apply mid.cursor.query), mid.node.queryable⟩

/-- A head leads to a location directly inside, of which nothing is asked. -/
theorem HeadMove.entered {a : Atlas} {here there : Standing} {head : String}
    (h : a.HeadMove here head there) :
    ∃ selector step, there.cursor = here.cursor.entered selector step ∧ step.Spells head := by
  cases h with
  | child => exact ⟨_, _, rfl, spells_prop head⟩
  | name => exact ⟨_, _, rfl, spells_name head⟩
  | id => exact ⟨_, _, rfl, spells_id head⟩

/-- A head leads inside a document. -/
theorem HeadMove.inside {a : Atlas} {here there : Standing} {head : String}
    (h : a.HeadMove here head there) : there.cursor.isOutside = false := by
  obtain ⟨_, _, hc, -⟩ := h.entered
  rw [hc]
  rfl

/-- Where a head leads nothing is asked. -/
theorem HeadMove.query_eq {a : Atlas} {here there : Standing} {head : String}
    (h : a.HeadMove here head there) : there.cursor.query = .empty := by
  obtain ⟨_, _, hc, -⟩ := h.entered
  rw [hc]
  rfl

/-- A head leads to a node that is met. -/
theorem HeadMove.everywhere {a : Atlas} {p : Node → Prop} (hp : a.catalog.Everywhere p)
    {here there : Standing} {head : String} (h : a.HeadMove here head there) : p there.node := by
  cases h with
  | child => exact hp.node _
  | name _ _ _ hi => exact hp.member hi
  | id _ _ _ _ hi => exact hp.member hi

/-- A head that enters no namespace selects a property, or a member by a name or an identifier. -/
theorem HeadMove.selects {a : Atlas} (hr : a.catalog.Regular) {here there : Standing}
    {head : String} (h : a.HeadMove here head there) (hns : ¬ a.EntersNamespace here head) :
    ∃ selector step, there.cursor = here.cursor.entered selector step ∧
      ((∃ key, selector = .property key) ∨ (∃ wanted, selector = .name wanted) ∨
        ∃ wanted, selector = .id wanted) := by
  cases h with
  | @child children id hbelow hkey =>
    refine ⟨_, _, rfl, .inl ?_⟩
    have hspace : (a.catalog.node id).isNamespace = false :=
      Bool.eq_false_iff.mpr fun hspace => hns ⟨children, id, hbelow, hkey, hspace⟩
    unfold childSelector
    split
    · exact ⟨_, rfl⟩
    · next hnavigation => exact absurd ((hr id).grouped hnavigation) (by rw [hspace]; decide)
    · rw [hspace]
      exact ⟨_, rfl⟩
  | name => exact ⟨_, _, rfl, .inr (.inl ⟨_, rfl⟩)⟩
  | id => exact ⟨_, _, rfl, .inr (.inr ⟨_, rfl⟩)⟩

/-- A request is asked of a location inside a document. -/
theorem ask_inside {here : Standing} (h : here.cursor.isOutside = false) (r : Request) :
    ask here r = .ok ⟨here.cursor.withQuery (r.apply here.cursor.query), here.node.queryable⟩ := by
  unfold ask Cursor.within
  cases askedFirst? r with
  | none => rfl
  | some name =>
    rw [h]
    rfl

/-- A segment whose head takes no computed way leads from inside a document to where its head and its
qualifier say. -/
theorem segmentMove_of_moveBy {a : Atlas} {here there : Standing} {segment : Segment}
    (hd : a.StraightBy here segment.head) (h : a.moveBy here segment = .ok (.ok there)) :
    here.cursor.isOutside = false ∧ a.SegmentMove here segment there ∧
      (segment.qualifier.isSome → ¬ a.EntersNamespace here segment.head) := by
  obtain ⟨head, qualifier⟩ := segment
  obtain ⟨cursor, node⟩ := there
  obtain ⟨verdict, hhead, h⟩ := bind_eq_ok.mp h
  cases verdict with
  | error problem => exact (nomatch h)
  | ok mid =>
    obtain ⟨hin, hm, hns⟩ := headMove_of_moveByHead hd hhead
    refine ⟨hin, ?_, hns⟩
    cases qualifier with
    | none =>
      obtain rfl := Except.ok.inj (Except.ok.inj h)
      exact .bare hm
    | some q =>
      cases q with
      | index n =>
        dsimp only [qualify] at h
        split at h
        · next hmethod =>
          obtain ⟨-, hc, hi⟩ := select_ok rfl (ok_of_map_ok h)
          obtain rfl := Except.ok.inj hc
          exact .index hm hmethod hi
        · exact (nomatch h)
      | id n =>
        dsimp only [qualify] at h
        split at h
        · next hmethod =>
          obtain ⟨-, hc, hi⟩ := select_ok rfl (ok_of_map_ok h)
          obtain rfl := Except.ok.inj hc
          exact .id hm hmethod hi
        · exact (nomatch h)
      | query r =>
        dsimp only [qualify] at h
        rw [ask_inside hm.inside] at h
        rw [← Except.ok.inj (Except.ok.inj h)]
        exact .query hm

/-- A segment leads from inside a document to where its head and its qualifier say. -/
theorem moveBy_ok {a : Atlas} (hd : a.catalog.Direct) {here there : Standing} {segment : Segment}
    (h : a.moveBy here segment = .ok (.ok there)) :
    here.cursor.isOutside = false ∧ a.SegmentMove here segment there ∧
      (segment.qualifier.isSome → ¬ a.EntersNamespace here segment.head) :=
  segmentMove_of_moveBy (straightBy_of_direct hd here segment.head) h

/-- Where its head, which takes no computed way, and its qualifier say, a segment leads, unless it
qualifies a namespace. -/
theorem moveBy_of_segmentMove {a : Atlas} {here there : Standing} {segment : Segment}
    (hd : a.StraightBy here segment.head) (hin : here.cursor.isOutside = false)
    (hm : a.SegmentMove here segment there)
    (hns : segment.qualifier.isSome → ¬ a.EntersNamespace here segment.head) :
    a.moveBy here segment = .ok (.ok there) := by
  unfold moveBy
  cases hm with
  | bare hm =>
    rw [moveByHead_of_headMove hd hin hm hns]
    rfl
  | index hm hmethod hi =>
    rw [moveByHead_of_headMove hd hin hm hns, ok_bind]
    dsimp only [qualify]
    rw [if_pos hmethod, select_eq hm.inside rfl hi]
    rfl
  | id hm hmethod hi =>
    rw [moveByHead_of_headMove hd hin hm hns, ok_bind]
    dsimp only [qualify]
    rw [if_pos hmethod, select_eq hm.inside rfl hi]
    rfl
  | query hm =>
    rw [moveByHead_of_headMove hd hin hm hns, ok_bind]
    dsimp only [qualify]
    rw [ask_inside hm.inside]
    rfl

/-- Where its head and its qualifier say, a segment leads, unless it qualifies a namespace. -/
theorem moveBy_of_move {a : Atlas} (hd : a.catalog.Direct) {here there : Standing}
    {segment : Segment} (hin : here.cursor.isOutside = false)
    (hm : a.SegmentMove here segment there)
    (hns : segment.qualifier.isSome → ¬ a.EntersNamespace here segment.head) :
    a.moveBy here segment = .ok (.ok there) :=
  moveBy_of_segmentMove (straightBy_of_direct hd here segment.head) hin hm hns

/-- A walk along segments takes no computed way. -/
def Straight (a : Atlas) (here : Standing) : List Segment → Prop
  | [] => True
  | s :: rest => a.StraightBy here s.head ∧
      ∀ mid, a.moveBy here s = .ok (.ok mid) → a.Straight mid rest

/-- In a direct catalog no walk takes a computed way. -/
theorem straight_of_direct {a : Atlas} (hd : a.catalog.Direct) (here : Standing)
    (segments : List Segment) : a.Straight here segments := by
  induction segments generalizing here with
  | nil => trivial
  | cons s rest ih => exact ⟨straightBy_of_direct hd here s.head, fun mid _ => ih mid⟩

/-- A segment leads inside a document. -/
theorem SegmentMove.inside {a : Atlas} {here there : Standing} {segment : Segment}
    (h : a.SegmentMove here segment there) : there.cursor.isOutside = false := by
  cases h with
  | bare hm => exact hm.inside
  | index => rfl
  | id => rfl
  | query hm =>
    obtain ⟨_, _, hc, -⟩ := hm.entered
    dsimp only
    rw [hc]
    rfl

/-- A segment without a query leads to where nothing is asked. -/
theorem SegmentMove.query_eq {a : Atlas} {here there : Standing} {segment : Segment}
    (h : a.SegmentMove here segment there) (hs : segment.IsStep) :
    there.cursor.query = .empty := by
  cases h with
  | bare hm => exact hm.query_eq
  | index => rfl
  | id => rfl
  | query => exact absurd rfl (hs _)

/-- A segment leads to a node that is met. -/
theorem SegmentMove.everywhere {a : Atlas} {p : Node → Prop} (hp : a.catalog.Everywhere p)
    {here there : Standing} {segment : Segment} (h : a.SegmentMove here segment there) :
    p there.node := by
  cases h with
  | bare hm => exact hm.everywhere hp
  | index _ _ hi => exact hp.member hi
  | id _ _ hi => exact hp.member hi
  | query hm => exact hp.queryable (hm.everywhere hp)

/-- A segment without a query adds its canonical text to the address. -/
theorem SegmentMove.text {a : Atlas} {here there : Standing} {segment : Segment}
    (h : a.SegmentMove here segment there) (hw : segment.Writable) (hs : segment.IsStep)
    {scheme : String} {before : List Segment} (hb : ∀ s ∈ before, s.Writable)
    (htext : stepsTextFrom [] here.cursor.steps = .ok (canonicalText scheme before)) :
    stepsTextFrom [] there.cursor.steps = .ok (canonicalText scheme (before ++ [segment])) := by
  have hbare : ∀ {head : String} {mid : Standing}, a.HeadMove here head mid →
      stepsTextFrom [] mid.cursor.steps = .ok (canonicalText scheme (before ++ [⟨head, none⟩])) := by
    intro head mid hm
    obtain ⟨selector, step, hc, hspell⟩ := hm.entered
    rw [hc]
    refine stepsTextFrom_concat htext ?_
    rw [hspell]
    exact congrArg Except.ok (appendPiece_canonicalText hb (List.append_nil _).symm)
  have hhead : ∀ {head : String} {q : Option Qualifier}, Segment.Writable ⟨head, q⟩ →
      ∀ s ∈ before ++ [⟨head, none⟩], s.Writable := by
    intro head q hq s hmem
    rcases List.mem_append.mp hmem with hmem | hmem
    · exact hb s hmem
    · obtain rfl := List.mem_singleton.mp hmem
      exact ⟨hq.nonempty, hq.unopened, hq.unasked, fun n hn => absurd hn (by simp),
        fun n hn => absurd hn (by simp)⟩
  cases h with
  | bare hm => exact hbare hm
  | index hm => exact stepsTextFrom_concat (hbare hm) (append_index (hw.index _ rfl))
  | id hm => exact stepsTextFrom_concat (hbare hm) (append_id (hhead hw) (hw.id _ rfl))
  | query => exact absurd rfl (hs _)

/-- A walk along segments in two parts. -/
theorem walk_append (a : Atlas) (here : Standing) (xs ys : List Segment) :
    a.walk here (xs ++ ys) = (do
      match ← a.walk here xs with
      | .ok there => a.walk there ys
      | .error problem => .ok (.error problem)) := by
  induction xs generalizing here with
  | nil => rfl
  | cons x xs ih =>
    rw [List.cons_append, walk, walk]
    cases a.moveBy here x with
    | error f => rfl
    | ok verdict =>
      cases verdict with
      | error problem => rfl
      | ok there => exact ih there

/-- A walk along one segment. -/
theorem walk_singleton (a : Atlas) (here : Standing) (s : Segment) :
    a.walk here [s] = a.moveBy here s := by
  rw [walk]
  cases a.moveBy here s with
  | error f => rfl
  | ok verdict => cases verdict <;> rfl

/-- A walk that arrives passes its first segment. -/
theorem walk_cons_ok {a : Atlas} {here there : Standing} {s : Segment} {rest : List Segment}
    (h : a.walk here (s :: rest) = .ok (.ok there)) :
    ∃ mid, a.moveBy here s = .ok (.ok mid) ∧ a.walk mid rest = .ok (.ok there) := by
  rw [walk] at h
  obtain ⟨verdict, hm, h⟩ := bind_eq_ok.mp h
  cases verdict with
  | error problem => exact (nomatch h)
  | ok mid => exact ⟨mid, hm, h⟩

/-- A walk that arrives passes the first part of its segments, and the other part then. -/
theorem walk_append_ok {a : Atlas} {here there : Standing} {xs ys : List Segment}
    (h : a.walk here (xs ++ ys) = .ok (.ok there)) :
    ∃ mid, a.walk here xs = .ok (.ok mid) ∧ a.walk mid ys = .ok (.ok there) := by
  rw [walk_append] at h
  obtain ⟨verdict, hw, h⟩ := bind_eq_ok.mp h
  cases verdict with
  | error problem => exact (nomatch h)
  | ok mid => exact ⟨mid, hw, h⟩

/-- A walk that arrives passes all but its last segment, and that one then. -/
theorem walk_concat_ok {a : Atlas} {here there : Standing} {xs : List Segment} {s : Segment}
    (h : a.walk here (xs ++ [s]) = .ok (.ok there)) :
    ∃ mid, a.walk here xs = .ok (.ok mid) ∧ a.moveBy mid s = .ok (.ok there) := by
  obtain ⟨mid, hmid, hlast⟩ := walk_append_ok h
  exact ⟨mid, hmid, (walk_singleton a mid s).symm.trans hlast⟩

/-- A walk that passes all but its last segment goes on with that one. -/
theorem walk_concat {a : Atlas} {here mid : Standing} {xs : List Segment}
    (h : a.walk here xs = .ok (.ok mid)) (s : Segment) :
    a.walk here (xs ++ [s]) = a.moveBy mid s := by
  rw [walk_append, h]
  exact walk_singleton a mid s

/-- A walk takes no computed way exactly if it takes none up to its last segment, nor by the head of
that one. -/
theorem straight_concat_iff {a : Atlas} {here : Standing} {xs : List Segment} {s : Segment} :
    a.Straight here (xs ++ [s]) ↔ a.Straight here xs ∧
      ∀ mid, a.walk here xs = .ok (.ok mid) → a.StraightBy mid s.head := by
  induction xs generalizing here with
  | nil =>
    constructor
    · intro h
      refine ⟨trivial, fun mid hmid => ?_⟩
      obtain rfl := Except.ok.inj (Except.ok.inj hmid)
      exact h.1
    · exact fun h => ⟨h.2 here rfl, fun _ _ => trivial⟩
  | cons x xs ih =>
    constructor
    · intro h
      refine ⟨⟨h.1, fun mid hmid => (ih.mp (h.2 mid hmid)).1⟩, fun last hlast => ?_⟩
      obtain ⟨mid, hmid, hrest⟩ := walk_cons_ok hlast
      exact (ih.mp (h.2 mid hmid)).2 last hrest
    · rintro ⟨⟨hfirst, hrest⟩, hlast⟩
      refine ⟨hfirst, fun mid hmid => ih.mpr ⟨hrest mid hmid, fun last hw => hlast last ?_⟩⟩
      exact bind_eq_ok.mpr ⟨.ok mid, hmid, hw⟩

/-- A walk stays inside documents. -/
theorem walk_inside {a : Atlas} {here there : Standing} {segments : List Segment}
    (hd : a.Straight here segments) (hin : here.cursor.isOutside = false)
    (h : a.walk here segments = .ok (.ok there)) : there.cursor.isOutside = false := by
  induction segments generalizing here with
  | nil =>
    obtain rfl := Except.ok.inj (Except.ok.inj h)
    exact hin
  | cons s rest ih =>
    obtain ⟨mid, hm, hrest⟩ := walk_cons_ok h
    exact ih (hd.2 mid hm) (segmentMove_of_moveBy hd.1 hm).2.1.inside hrest

/-- A walk arrives at a node that is met. -/
theorem walk_everywhere {a : Atlas} {p : Node → Prop} (hp : a.catalog.Everywhere p)
    {here there : Standing} {segments : List Segment} (hd : a.Straight here segments)
    (hnode : p here.node) (h : a.walk here segments = .ok (.ok there)) : p there.node := by
  induction segments generalizing here with
  | nil =>
    obtain rfl := Except.ok.inj (Except.ok.inj h)
    exact hnode
  | cons s rest ih =>
    obtain ⟨mid, hm, hrest⟩ := walk_cons_ok h
    exact ih (hd.2 mid hm) ((segmentMove_of_moveBy hd.1 hm).2.1.everywhere hp) hrest

/-- A walk along segments without queries arrives where nothing is asked. -/
theorem walk_query {a : Atlas} {here there : Standing} {segments : List Segment}
    (hd : a.Straight here segments) (hquery : here.cursor.query = .empty)
    (hs : ∀ s ∈ segments, s.IsStep) (h : a.walk here segments = .ok (.ok there)) :
    there.cursor.query = .empty := by
  induction segments generalizing here with
  | nil =>
    obtain rfl := Except.ok.inj (Except.ok.inj h)
    exact hquery
  | cons s rest ih =>
    obtain ⟨mid, hm, hrest⟩ := walk_cons_ok h
    exact ih (hd.2 mid hm) ((segmentMove_of_moveBy hd.1 hm).2.1.query_eq (hs s List.mem_cons_self))
      (fun t ht => hs t (List.mem_cons_of_mem s ht)) hrest

/-- A walk along segments without queries adds their canonical text to the address. -/
theorem walk_text {a : Atlas} {here there : Standing} {segments : List Segment}
    (hd : a.Straight here segments) (hw : ∀ s ∈ segments, s.Writable) (hs : ∀ s ∈ segments, s.IsStep)
    (h : a.walk here segments = .ok (.ok there)) {scheme : String} {before : List Segment}
    (hb : ∀ s ∈ before, s.Writable)
    (htext : stepsTextFrom [] here.cursor.steps = .ok (canonicalText scheme before)) :
    stepsTextFrom [] there.cursor.steps = .ok (canonicalText scheme (before ++ segments)) := by
  induction segments generalizing here before with
  | nil =>
    obtain rfl := Except.ok.inj (Except.ok.inj h)
    rw [List.append_nil]
    exact htext
  | cons s rest ih =>
    obtain ⟨mid, hm, hrest⟩ := walk_cons_ok h
    have hsw := hw s List.mem_cons_self
    have hmid := (segmentMove_of_moveBy hd.1 hm).2.1.text hsw (hs s List.mem_cons_self) hb htext
    have hbefore : ∀ t ∈ before ++ [s], t.Writable := by
      intro t ht
      rcases List.mem_append.mp ht with ht | ht
      · exact hb t ht
      · exact List.mem_singleton.mp ht ▸ hsw
    have hall := ih (hd.2 mid hm) (fun t ht => hw t (List.mem_cons_of_mem s ht))
      (fun t ht => hs t (List.mem_cons_of_mem s ht)) hrest hbefore hmid
    rw [List.append_assoc, List.singleton_append] at hall
    exact hall

end ResourceAtlas.Atlas

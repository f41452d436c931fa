import ResourceAtlas.Proofs.Address.Behind
import ResourceAtlas.Proofs.Outcome
import ResourceAtlas.Proofs.Registry.Canonical
import ResourceAtlas.Proofs.Store.Picked

/-!
# Where a piece behind an address leads

An address with a piece behind it leads one step further than the address alone: to the member that
the piece selects, or to a declared child of that name. Two kinds of pieces do not. An empty text
leads to the location itself. A position behind a segment that has a qualifier, or behind the root of
a scheme, is read as a head of its own, so that it leads two steps further.
-/

namespace ResourceAtlas

open Address Query Schema Text

/-- A segment without the query that it asks. -/
def Address.Segment.unasked (s : Segment) : Segment :=
  match s.qualifier with
  | some (.query _) => ⟨s.head, none⟩
  | _ => s

/-- The segments of a location without the queries that they ask. -/
def Address.Location.stem (l : Location) : List Segment :=
  l.segments.map Segment.unasked

/-- The last segment of a location has neither a position nor an identifier. -/
def Address.Location.endsBare (l : Location) : Bool :=
  isBare l.stem.reverse

namespace Atlas

variable {a : Atlas}

/-- The selector that a piece behind an address stands for, where the address leads to a node and ends
in a segment without a qualifier or not. -/
def choice? (a : Atlas) (node : Node) (bare : Bool) : Piece → Option Selector
  | .position i => if bare then some (.index (.int i)) else none
  | .text x =>
    if x = "" then none
    else if bare && Digit.isInteger x.toList then
      (readInteger x.toList).toOption.map fun n => .id (.int n)
    else
      match (node.below a.catalog).toOption.bind (Keyed.get? x) with
      | some id => some (childSelector x (a.catalog.node id))
      | none => some (if node.hasMethod "by_name" then .name (.text x) else .id (.text x))

/-- A segment asks no query once its query is left out. -/
theorem isStep_unasked (s : Segment) : s.unasked.IsStep := by
  obtain ⟨head, qualifier⟩ := s
  intro r hr
  match qualifier, hr with
  | none, hr => exact (nomatch hr)
  | some (.query _), hr => exact (nomatch hr)
  | some (.index _), hr => exact (nomatch hr)
  | some (.id _), hr => exact (nomatch hr)

/-- Nothing is left out of a segment that asks no query. -/
theorem unasked_eq_self {s : Segment} (h : s.IsStep) : s.unasked = s := by
  obtain ⟨head, qualifier⟩ := s
  match qualifier, h with
  | none, _ => rfl
  | some (.query r), h => exact absurd rfl (h r)
  | some (.index _), _ => rfl
  | some (.id _), _ => rfl

/-- Nothing is left out of segments that ask no query. -/
theorem map_unasked {segments : List Segment} (h : ∀ s ∈ segments, s.IsStep) :
    segments.map Segment.unasked = segments :=
  (List.map_congr_left fun s hs => unasked_eq_self (h s hs)).trans (List.map_id segments)

/-- The segments of a clear location can be written without queries. -/
theorem writable_stem {uri : String} {l : Location} (hread : Address.read uri = .ok (.ok l))
    (hclear : l.Clear) : Writable l.stem := by
  by_cases hall : ∀ s ∈ l.segments, s.IsStep
  · obtain ⟨hw, hunfolded⟩ := writable_of_clear hread hclear
    rw [Location.stem, map_unasked hall]
    exact ⟨hw, hall, hunfolded⟩
  · obtain ⟨before, head, r, hl, hsteps⟩ := exists_asked hclear.last hall
    rw [Location.stem, hl, List.map_append, map_unasked hsteps]
    exact writable_bare hread hclear hl

/-- A clear location leads to where its segments without queries lead, in the form that honours
queries if it asks one. -/
theorem walk_stem (hd : a.catalog.Direct) {l : Location} (hclear : l.Clear) {spec : Specifier}
    (h : a.locate l = .ok (.ok spec)) :
    ∃ what mid, Keyed.get? l.scheme a.registry.schemes = some what ∧
      a.walk (a.start l.scheme what) l.stem = .ok (.ok mid) ∧ mid.cursor.Near spec.cursor ∧
      (spec.node = mid.node ∨ spec.node = mid.node.queryable) := by
  obtain ⟨what, there, hwhat, hwalk, rfl⟩ := locate_ok h
  refine ⟨what, ?_⟩
  by_cases hall : ∀ s ∈ l.segments, s.IsStep
  · refine ⟨there, hwhat, ?_, .refl _, .inl rfl⟩
    rw [Location.stem, map_unasked hall]
    exact hwalk
  · obtain ⟨before, head, r, hl, hsteps⟩ := exists_asked hclear.last hall
    rw [hl] at hwalk
    obtain ⟨mid, hmid, -, -, hask⟩ := walk_asked hd hwalk
    obtain rfl := Except.ok.inj (Except.ok.inj (hwalk.symm.trans (hask r)))
    refine ⟨mid, hwhat, ?_, Cursor.near_withQuery _ _, .inr rfl⟩
    rw [Location.stem, hl, List.map_append, map_unasked hsteps]
    exact hmid

/-- A segment leads from a location in documents to one in documents. -/
theorem SegmentMove.documented {here there : Standing} {segment : Segment}
    (h : a.SegmentMove here segment there) (hin : here.cursor.Documented) :
    there.cursor.Documented := by
  have hhead : ∀ {head : String} {mid : Standing}, a.HeadMove here head mid →
      mid.cursor.Documented := by
    intro head mid hm
    obtain ⟨selector, step, hc, -⟩ := hm.entered
    rw [hc]
    exact hin.child selector step .empty
  cases h with
  | bare hm => exact hhead hm
  | index hm => exact (hhead hm).child _ _ _
  | id hm => exact (hhead hm).child _ _ _
  | query hm =>
    intro s p hp
    exact hhead hm s p (((Cursor.near_withQuery _ _).position s).trans hp)

/-- A walk without computed ways stays in documents. -/
theorem walk_documented (hd : a.catalog.Direct) {here there : Standing} {segments : List Segment}
    (hin : here.cursor.Documented) (h : a.walk here segments = .ok (.ok there)) :
    there.cursor.Documented := by
  induction segments generalizing here with
  | nil =>
    obtain rfl := Except.ok.inj (Except.ok.inj h)
    exact hin
  | cons s rest ih =>
    obtain ⟨mid, hm, hrest⟩ := walk_cons_ok h
    exact ih ((moveBy_ok hd hm).2.1.documented hin) hrest

/-- The root of a scheme is in a document. -/
theorem documented_start (scheme : String) (what : Registration) :
    (a.start scheme what).cursor.Documented := by
  intro s p hp
  obtain rfl := Option.some.inj (Except.ok.inj hp)
  rfl

/-- The form that honours queries has the same children below. -/
theorem below_queryable (node : Node) : node.queryable.below a.catalog = node.below a.catalog := by
  unfold Node.queryable
  split <;> rfl

/-- The form that honours queries selects by names if the other form does. -/
theorem hasMethod_queryable {node : Node} {name : String}
    (hname : name ∉ Keyed.keys Node.queryMethods) :
    node.queryable.hasMethod name = node.hasMethod name := by
  unfold Node.queryable
  split
  · rfl
  · exact congrArg Option.isSome (Keyed.get?_merge_of_not_mem hname)

/-- A piece stands for the same selector in the form that honours queries. -/
theorem choice?_queryable (node : Node) (bare : Bool) (piece : Piece) :
    a.choice? node.queryable bare piece = a.choice? node bare piece := by
  have hname : node.queryable.hasMethod "by_name" = node.hasMethod "by_name" :=
    hasMethod_queryable (by decide)
  cases piece with
  | position i => rfl
  | text x =>
    unfold choice?
    dsimp only
    rw [below_queryable, hname]

/-- A head leads where the piece of that text selects, unless it reads as an identifier. -/
theorem HeadMove.choice {here there : Standing} {head : String} (h : a.HeadMove here head there)
    {bare : Bool} (hne : head ≠ "") (hfold : (bare && Digit.isInteger head.toList) = false) :
    ∃ selector step, a.choice? here.node bare (.text head) = some selector ∧
      there.cursor = here.cursor.entered selector step := by
  have hchoice : ∀ {children : Keyed NodeId}, here.node.below a.catalog = .ok children →
      a.choice? here.node bare (.text head) =
        match Keyed.get? head children with
        | some node => some (childSelector head (a.catalog.node node))
        | none =>
          some (if here.node.hasMethod "by_name" then .name (.text head) else .id (.text head)) := by
    intro children hbelow
    unfold choice?
    dsimp only
    rw [if_neg hne, hfold, if_neg Bool.false_ne_true, hbelow]
    rfl
  cases h with
  | child hbelow hkey => exact ⟨_, _, by rw [hchoice hbelow, hkey], rfl⟩
  | name hbelow hkey hmethod _ => exact ⟨_, _, by rw [hchoice hbelow, hkey, hmethod]; rfl, rfl⟩
  | id hbelow hkey hmethod _ _ => exact ⟨_, _, by rw [hchoice hbelow, hkey, hmethod]; rfl, rfl⟩

/-- How a piece behind an address leads on from where the address leads. -/
inductive LeadsOn (a : Atlas) (mid : Standing) (bare : Bool) (piece : Piece) : Cursor → Prop
  /-- One step further, by the selector that the piece stands for. -/
  | step {selector : Selector} (hchoice : a.choice? mid.node bare piece = some selector)
      (step : Step) : LeadsOn a mid bare piece (mid.cursor.entered selector step)
  /-- Nowhere. -/
  | stay (hchoice : a.choice? mid.node bare piece = none) : LeadsOn a mid bare piece mid.cursor
  /-- Two steps further. -/
  | two (hchoice : a.choice? mid.node bare piece = none) {selector selector' : Selector}
      (hs : selector ≠ .same) (hs' : selector' ≠ .same) (step step' : Step) :
      LeadsOn a mid bare piece ((mid.cursor.entered selector step).entered selector' step')

/-- A qualifier behind a head leads one step further than the head. -/
theorem walk_qualified (hd : a.catalog.Direct) {here mid there : Standing} {before : List Segment}
    {head : String} {q : Qualifier}
    (hmid : a.walk here (before ++ [⟨head, none⟩]) = .ok (.ok mid))
    (hthere : a.walk here (before ++ [⟨head, some q⟩]) = .ok (.ok there)) :
    (∀ n, q = .index n →
        there.cursor = mid.cursor.entered (.index (.int n)) (.index (.int n))) ∧
      ∀ n, q = .id n → there.cursor = mid.cursor.entered (.id (.int n)) (.id (.int n)) := by
  obtain ⟨stop, hstop, hlast⟩ := walk_concat_ok hthere
  obtain ⟨hin, hmove, -⟩ := moveBy_ok hd hlast
  have hbare : ∀ {found : Standing}, a.HeadMove stop head found → found = mid := by
    intro found hfound
    have hmoved := moveBy_of_move hd hin (.bare hfound) fun h => absurd h Bool.false_ne_true
    rw [← walk_concat hstop, hmid] at hmoved
    exact (Except.ok.inj (Except.ok.inj hmoved)).symm
  constructor
  · rintro n rfl
    cases hmove with
    | index hm => rw [← hbare hm]
  · rintro n rfl
    cases hmove with
    | id hm => rw [← hbare hm]

/-- A piece behind an address leads on from where the address leads. -/
theorem walk_behind (hd : a.catalog.Direct) (hr : a.catalog.Regular) {here mid there : Standing}
    {found extended : List Segment} {piece : Piece}
    (hmid : a.walk here found = .ok (.ok mid)) (hread : piece.readBehind found = .ok extended)
    (hthere : a.walk here extended = .ok (.ok there)) :
    a.LeadsOn mid (isBare found.reverse) piece there.cursor := by
  cases Piece.extends_of_readBehind hread with
  | position hn =>
    obtain rfl := eq_of_readInteger_natText hn
    rw [(walk_qualified hd hmid hthere).1 _ rfl]
    exact .step (by rw [choice?, isBare_concat]; rfl) _
  | @alone _ i _ hqualified hn =>
    obtain rfl := eq_of_readInteger_natText hn
    rw [walk_concat hmid] at hthere
    obtain ⟨-, hmove, hns⟩ := moveBy_ok hd hthere
    cases hmove with
    | index hm =>
      obtain ⟨selector, step, hc, hselector⟩ := hm.selects hr (hns rfl)
      have hne : selector ≠ .same := by
        rintro rfl
        rcases hselector with ⟨_, h⟩ | ⟨_, h⟩ | ⟨_, h⟩ <;> cases h
      have hchoice : a.choice? mid.node (isBare found.reverse) (.position i) = none := by
        rw [choice?, hqualified]
        rfl
      have hne' : Selector.index (.int i) ≠ .same := Selector.noConfusion
      rw [hc]
      exact .two hchoice hne hne' step _
  | nothing =>
    obtain rfl := Except.ok.inj (Except.ok.inj (hmid.symm.trans hthere))
    exact .stay (by rw [choice?, if_pos rfl])
  | folded hne hint hn =>
    rw [(walk_qualified hd hmid hthere).2 _ rfl]
    exact .step (by rw [choice?, if_neg hne, isBare_concat, hint, Bool.true_and, if_pos rfl, hn]; rfl) _
  | @text _ x hne hint =>
    have hfolded : (isBare found.reverse && Digit.isInteger x.toList) = false := by
      cases hbare : isBare found.reverse with
      | false => rfl
      | true => exact hint hbare
    rw [walk_concat hmid] at hthere
    obtain ⟨-, hmove, -⟩ := moveBy_ok hd hthere
    cases hmove with
    | bare hm =>
      obtain ⟨selector, step, hchoice, hc⟩ := hm.choice hne hfolded
      rw [hc]
      exact .step hchoice step

/-- A piece that leads one step further leads to the last member of a list exactly if it leads on from
the list and the step picks the member there; a piece that leads elsewhere does not. -/
theorem LeadsOn.position_last_iff {s t : Store} {mid : Standing} {bare : Bool} {piece : Piece}
    {c : Cursor} (h : a.LeadsOn mid bare piece c) {here list : Position}
    (hhere : mid.cursor.position? s = .ok (some here))
    (hlength : here.path.length = list.path.length) {others : List Value} {item : Value}
    (hlist : list.read t = .list (others ++ [item])) :
    c.position? t = .ok (some (list.inside (.index others.length))) ↔
      mid.cursor.position? t = .ok (some list) ∧
        ∃ selector, a.choice? mid.node bare piece = some selector ∧ selector.Picks others item := by
  cases h with
  | step hchoice step =>
    rw [Cursor.entered, Cursor.position_step_iff hlist hhere hlength, hchoice]
    refine and_congr_right fun _ => ⟨fun hpicks => ⟨_, rfl, hpicks⟩, ?_⟩
    rintro ⟨selector, hsome, hpicks⟩
    exact Option.some.inj hsome ▸ hpicks
  | stay hchoice =>
    refine ⟨fun hat => absurd hat (Cursor.ne_inside_of_length hhere hlength _), ?_⟩
    rintro ⟨-, selector, hsome, -⟩
    cases hchoice.symm.trans hsome
  | two hchoice hs hs' step step' =>
    refine ⟨fun hat => absurd hat
      (Cursor.ne_inside_of_two_steps hhere hlength hs hs' step step' _ _ _), ?_⟩
    rintro ⟨-, selector, hsome, -⟩
    cases hchoice.symm.trans hsome

end Atlas

end ResourceAtlas

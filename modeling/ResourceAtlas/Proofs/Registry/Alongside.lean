import ResourceAtlas.Proofs.Outcome
import ResourceAtlas.Proofs.Registry.Move
import ResourceAtlas.Proofs.Specifier.Near

/-!
# Walks from one place found in two ways

A member of a list can be selected in more than one way. Two cursors stand alongside each other if they
go on alike from two selections of one place. They differ in their addresses and in nothing that a move
looks at, so every walk from the one does what it does from the other, computed ways included.
-/

namespace ResourceAtlas

open Address Query Schema

/-- Two cursors that go on alike from two selections of one place of a store. -/
inductive Cursor.Alongside (s : Store) : Cursor → Cursor → Prop
  /-- One cursor. -/
  | same (c : Cursor) : Alongside s c c
  /-- Two selections of one place. -/
  | selected {around : Cursor} {selector selector' : Selector} {step step' : Step} {q : State}
      (h : (child around selector step q).position? s =
        (child around selector' step' q).position? s) :
      Alongside s (child around selector step q) (child around selector' step' q)
  /-- The same selection further inside. -/
  | child {c d : Cursor} (h : Alongside s c d) (selector : Selector) (step : Step) (q : State) :
      Alongside s (child c selector step q) (child d selector step q)
  /-- The same value bound from there. -/
  | bound {c d : Cursor} (h : Alongside s c d) (source : Source) (steps : List Step) (q : State) :
      Alongside s (bound c source steps q) (bound d source steps q)

namespace Cursor.Alongside

variable {s : Store} {c d : Cursor}

/-- Both are inside documents or both are not. -/
theorem isOutside_eq (h : c.Alongside s d) : c.isOutside = d.isOutside := by
  cases h <;> rfl

/-- The same is asked of both. -/
theorem query_eq (h : c.Alongside s d) : c.query = d.query := by
  cases h <;> rfl

/-- Both lie at one place. -/
theorem position?_eq (h : c.Alongside s d) : c.position? s = d.position? s := by
  induction h with
  | same => rfl
  | selected h => exact h
  | child _ selector step q ih => rw [Cursor.position?, Cursor.position?, ih]
  | bound => rfl

/-- Both hold the same value. -/
theorem raw_eq (h : c.Alongside s d) : c.raw s = d.raw s := by
  unfold raw
  rw [h.position?_eq]

/-- The locations around both go on alike, too. -/
theorem parent (h : c.Alongside s d) : c.parent.Alongside s d.parent := by
  cases h with
  | same => exact .same _
  | selected => exact .same _
  | child h => exact h
  | bound h => exact h

/-- What is asked of both makes no difference. -/
theorem withQuery (h : c.Alongside s d) (q : State) :
    (c.withQuery q).Alongside s (d.withQuery q) := by
  cases h with
  | same => exact .same _
  | selected h => exact .selected h
  | child h selector step => exact h.child selector step q
  | bound h source steps => exact h.bound source steps q

/-- A move from both goes on alike. -/
theorem applyInside (h : c.Alongside s d) (m : Motion) :
    Agree (Alongside s) (m.applyInside c) (m.applyInside d) := by
  cases m with
  | change ch =>
    unfold Motion.applyInside
    dsimp only
    rw [h.query_eq]
    exact (Agree.refl (fun _ => rfl) (ch.apply d.query)).map fun q _ hq => hq ▸ h.withQuery q
  | parent => exact .ok h.parent
  | bind source steps => exact .ok (h.bound source steps _)
  | fail text => exact .error _
  | _ => exact .ok (h.child _ _ _)

/-- A move from both breaks off or goes on alike. -/
theorem apply (h : c.Alongside s d) (m : Motion) :
    Agree (Alongside s) (m.apply c) (m.apply d) := by
  unfold Motion.apply
  rw [h.isOutside_eq]
  split
  · exact .error _
  · exact h.applyInside m

/-- Moves in turn from both break off or go on alike. -/
theorem applyAll (h : c.Alongside s d) (motions : List Motion) :
    Agree (Alongside s) (Motion.applyAll c motions) (Motion.applyAll d motions) := by
  induction motions generalizing c d with
  | nil => exact .ok h
  | cons m rest ih => exact (h.apply m).bind fun _ _ hnext => ih hnext

/-- Something is asked of both by name, or both are outside. -/
theorem within (h : c.Alongside s d) (name : String) :
    Agree (Alongside s) (c.within name) (d.within name) := by
  unfold Cursor.within
  rw [h.isOutside_eq]
  split
  · exact .error _
  · exact .ok h

/-- A child of both is entered alike, by its key or by a computed way. -/
theorem stepInto (h : c.Alongside s d) (catalog : Catalog) (key : String) (child : Node) :
    Agree (fun x y => x.1.Alongside s y.1 ∧ x.2 = y.2)
      (stepInto catalog c key child) (stepInto catalog d key child) := by
  unfold ResourceAtlas.stepInto
  dsimp only
  split
  · exact (h.applyAll _).map fun _ _ hnext => ⟨hnext, rfl⟩
  · exact (h.apply _).map fun _ _ hnext => ⟨hnext, rfl⟩

end Cursor.Alongside

namespace Atlas

/-- Two standings that go on alike, under one node. -/
structure Standing.Alongside (s : Store) (here there : Standing) : Prop where
  /-- The cursors go on alike. -/
  cursor : here.cursor.Alongside s there.cursor
  /-- The node is the same. -/
  node : here.node = there.node

variable {s : Store} {a : Atlas} {here there : Standing}

namespace Standing.Alongside

/-- A declared child of both is entered alike. -/
theorem enter (h : here.Alongside s there) (segment : Segment) (child : Node) :
    Agree (Alongside s) (a.enter here segment child) (a.enter there segment child) := by
  unfold Atlas.enter
  split
  · exact .error _
  · have hstep := h.cursor.stepInto a.catalog segment.head child
    generalize stepInto a.catalog here.cursor segment.head child = x at hstep
    generalize stepInto a.catalog there.cursor segment.head child = y at hstep
    cases hstep with
    | error f => exact .error _
    | ok hnext => exact .ok ⟨hnext.1, hnext.2⟩

/-- A member of both is selected alike. -/
theorem select (h : here.Alongside s there) (motion : Motion) :
    Agree (Alongside s) (a.select here motion) (a.select there motion) := by
  unfold Atlas.select
  rw [h.node]
  refine (h.cursor.apply motion).bind fun _ _ hcursor => ?_
  exact (Agree.refl (fun _ => rfl) _).bind fun _ _ hmember => .ok ⟨hcursor, hmember⟩

/-- A request is asked of both alike. -/
theorem ask (h : here.Alongside s there) (request : Request) :
    Agree (Alongside s) (Atlas.ask here request) (Atlas.ask there request) := by
  have hnext : ∀ c d : Cursor, c.Alongside s d →
      Agree (ε := Fault) (Alongside s)
        (.ok ⟨c.withQuery (request.apply c.query), there.node.queryable⟩)
        (.ok ⟨d.withQuery (request.apply d.query), there.node.queryable⟩) :=
    fun c d hcursor => .ok ⟨by rw [hcursor.query_eq]; exact hcursor.withQuery _, rfl⟩
  unfold Atlas.ask
  rw [h.node]
  cases askedFirst? request with
  | none => exact hnext _ _ h.cursor
  | some name => exact (h.cursor.within name).bind hnext

/-- Where two selections agree, so do their verdicts. -/
theorem verdict {x y : Outcome Standing} (h : Agree (Alongside s) x y) :
    Agree (Agree (Alongside s)) (x.map (Except.ok : Standing → Verdict Standing))
      (y.map (Except.ok : Standing → Verdict Standing)) :=
  h.map fun _ _ hnext => .ok hnext

/-- A qualifier is applied to both alike. -/
theorem qualify (h : here.Alongside s there) (head : String) (q : Qualifier) :
    Agree (Agree (Alongside s)) (a.qualify here head q) (a.qualify there head q) := by
  have hrefuse : ∀ p : Problem, Agree (Agree (Alongside s))
      (.ok (.error p) : Outcome (Verdict Standing)) (.ok (.error p)) := fun p => .ok (.error p)
  cases q with
  | index n =>
    unfold Atlas.qualify
    dsimp only
    rw [h.node]
    split
    · exact verdict (h.select _)
    · exact hrefuse _
  | id n =>
    unfold Atlas.qualify
    dsimp only
    rw [h.node]
    split
    · exact verdict (h.select _)
    · exact hrefuse _
  | query request => exact verdict (h.ask request)

/-- A head leads on from both alike. -/
theorem moveByHead (h : here.Alongside s there) (segment : Segment) :
    Agree (Agree (Alongside s)) (a.moveByHead here segment) (a.moveByHead there segment) := by
  unfold Atlas.moveByHead
  rw [h.node]
  refine (Agree.refl (fun _ => rfl) _).bind fun children _ hchildren => ?_
  subst hchildren
  split
  · exact .ok (h.enter segment _)
  · split
    · exact verdict (h.select _)
    · split
      · exact verdict (h.select _)
      · exact .ok (.error _)

/-- A segment leads on from both alike. -/
theorem moveBy (h : here.Alongside s there) (segment : Segment) :
    Agree (Agree (Alongside s)) (a.moveBy here segment) (a.moveBy there segment) := by
  unfold Atlas.moveBy
  refine (h.moveByHead segment).bind fun _ _ hfound => ?_
  cases hfound with
  | error problem => exact .ok (.error problem)
  | ok hfound =>
    cases segment.qualifier with
    | none => exact .ok (.ok hfound)
    | some q => exact hfound.qualify segment.head q

/-- A walk goes on from both alike. -/
theorem walk (h : here.Alongside s there) (segments : List Segment) :
    Agree (Agree (Alongside s)) (a.walk here segments) (a.walk there segments) := by
  induction segments generalizing here there with
  | nil => exact .ok (.ok h)
  | cons segment rest ih =>
    rw [Atlas.walk, Atlas.walk]
    refine (h.moveBy segment).bind fun _ _ hfound => ?_
    cases hfound with
    | error problem => exact .ok (.error problem)
    | ok hfound => exact ih hfound

end Standing.Alongside

end Atlas

end ResourceAtlas

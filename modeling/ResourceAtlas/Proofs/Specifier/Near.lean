import ResourceAtlas.Proofs.Outcome
import ResourceAtlas.Proofs.Query.State
import ResourceAtlas.Proofs.Registry.Move

/-!
# Locations that differ in queries alone

Two cursors are near when they lie at one place under one address, whatever is asked on the way.
Where no computed way leads back to the location around, a value depends on where a location lies and on
what is asked there, so near cursors with queries that are alike have one value.
-/

namespace ResourceAtlas

open Address Query Schema

/-- Two cursors lie at one place under one address. -/
structure Cursor.Near (c d : Cursor) : Prop where
  /-- Both are inside documents or both are not. -/
  outside : c.isOutside = d.isOutside
  /-- The steps of the address are the same. -/
  steps : c.steps = d.steps
  /-- The values lie at one place of every store. -/
  position : ∀ s, c.position? s = d.position? s

namespace Cursor

/-- A cursor is near itself. -/
theorem Near.refl (c : Cursor) : c.Near c := ⟨rfl, rfl, fun _ => rfl⟩

/-- Locations inside near ones are near. -/
theorem Near.entered {c d : Cursor} (h : c.Near d) (selector : Selector) (step : Step) :
    (c.entered selector step).Near (d.entered selector step) := by
  refine ⟨rfl, ?_, fun s => ?_⟩
  · rw [Cursor.entered, Cursor.entered, Cursor.steps, Cursor.steps, h.steps]
  · rw [Cursor.entered, Cursor.entered, position?, position?, h.position s]

/-- A location is near itself asked otherwise. -/
theorem near_withQuery (c : Cursor) (q : State) : c.Near (c.withQuery q) := by
  cases c with
  | root => exact ⟨rfl, rfl, fun _ => rfl⟩
  | bound => exact ⟨rfl, rfl, fun _ => rfl⟩
  | child => exact ⟨rfl, rfl, fun _ => rfl⟩
  | outside => exact ⟨rfl, rfl, fun _ => rfl⟩

/-- Nearness is an equivalence. -/
theorem Near.symm {c d : Cursor} (h : c.Near d) : d.Near c :=
  ⟨h.outside.symm, h.steps.symm, fun s => (h.position s).symm⟩

/-- Nearness is an equivalence. -/
theorem Near.trans {c d e : Cursor} (h : c.Near d) (h' : d.Near e) : c.Near e :=
  ⟨h.outside.trans h'.outside, h.steps.trans h'.steps,
    fun s => (h.position s).trans (h'.position s)⟩

/-- One location asked in two ways is near itself. -/
theorem near_withQuery_withQuery (c : Cursor) (q q' : State) :
    (c.withQuery q).Near (c.withQuery q') :=
  (near_withQuery c q).symm.trans (near_withQuery c q')

/-- What is asked of a location inside a document is its query. -/
theorem query_withQuery {c : Cursor} (h : c.isOutside = false) (q : State) :
    (c.withQuery q).query = q := by
  cases c with
  | outside => exact absurd h (by decide)
  | _ => rfl

/-- Asking leaves a location inside its document. -/
theorem isOutside_withQuery (c : Cursor) (q : State) : (c.withQuery q).isOutside = c.isOutside := by
  cases c <;> rfl

/-- Asking leaves the steps of the address. -/
theorem steps_withQuery (c : Cursor) (q : State) : (c.withQuery q).steps = c.steps := by
  cases c <;> rfl

/-- What is asked last is asked. -/
theorem withQuery_withQuery (c : Cursor) (q q' : State) :
    (c.withQuery q).withQuery q' = c.withQuery q' := by
  cases c <;> rfl

/-- Asking what is asked already changes nothing. -/
theorem withQuery_self (c : Cursor) : c.withQuery c.query = c := by
  cases c <;> rfl

/-- Near cursors hold the same data. -/
theorem Near.raw_eq {c d : Cursor} (h : c.Near d) (s : Store) : c.raw s = d.raw s := by
  unfold raw
  rw [h.position s]

/-- The address of a location inside a document. -/
theorem uri_inside {c : Cursor} (h : c.isOutside = false) :
    c.uri = addressText c.steps c.query := by
  unfold uri within
  rw [h]
  rfl

/-- Near cursors whose queries have one text have one address. -/
theorem Near.uri_eq {c d : Cursor} (h : c.Near d) (hq : c.query.text = d.query.text) :
    c.uri = d.uri := by
  have ho := h.outside
  cases hc : c.isOutside with
  | true =>
    rw [hc] at ho
    unfold uri within
    rw [hc, ← ho]
    rfl
  | false =>
    rw [hc] at ho
    rw [uri_inside hc, uri_inside ho.symm, h.steps]
    unfold addressText
    rw [hq]

/-- Members of near cursors have one address. -/
theorem Near.references_eq {c d : Cursor} (h : c.Near d) (indices : List Nat) :
    references c indices = references d indices := by
  induction indices with
  | nil => rfl
  | cons i rest ih =>
    have hmember : reference (c.atIndex (.int i)) = reference (d.atIndex (.int i)) := by
      have huri : (c.atIndex (.int i)).uri = (d.atIndex (.int i)).uri :=
        (h.entered (.index (.int i)) (.index (.int i))).uri_eq rfl
      rw [reference, reference, huri]
    rw [references, references, hmember, ih]

/-- Near cursors of which the same is asked. -/
structure Twin (c d : Cursor) : Prop extends Near c d where
  /-- The same is asked of both. -/
  query : c.query = d.query

/-- Locations inside near ones are twins. -/
theorem Near.twin {c d : Cursor} (h : c.Near d) (selector : Selector) (step : Step) :
    (c.entered selector step).Twin (d.entered selector step) :=
  ⟨h.entered selector step, rfl⟩

end Cursor

/-- Resolvers that give near cursors one value if the same is asked of them. -/
def Resolver.Congruent (resolve : Resolver) : Prop :=
  ∀ (node : Node) (c d : Cursor), c.Twin d → resolve node c = resolve node d

variable {catalog : Catalog} {resolve : Resolver}

namespace Cursor.Twin

variable {c d : Cursor}

/-- What is asked of both makes no difference. -/
theorem withQuery (h : c.Twin d) (hin : c.isOutside = false) (q : State) :
    (c.withQuery q).Twin (d.withQuery q) := by
  refine ⟨(near_withQuery c q).symm.trans (h.toNear.trans (near_withQuery d q)), ?_⟩
  rw [query_withQuery hin, query_withQuery (h.outside.symm.trans hin)]

/-- A move from both that does not lead back breaks off or goes on alike. -/
theorem apply (h : c.Twin d) {m : Motion} (hm : m ≠ .parent) :
    Agree Twin (m.apply c) (m.apply d) := by
  cases hin : c.isOutside with
  | true =>
    unfold Motion.apply
    rw [← h.outside, hin]
    cases m <;> exact .error _
  | false =>
    rw [Motion.apply_inside hin, Motion.apply_inside (h.outside.symm.trans hin)]
    cases m with
    | parent => exact absurd rfl hm
    | fail text => exact .error _
    | bind source steps => exact .ok ⟨⟨rfl, rfl, fun _ => rfl⟩, rfl⟩
    | change ch =>
      unfold Motion.applyInside
      dsimp only
      rw [h.query]
      exact (Agree.refl (fun _ => rfl) (ch.apply d.query)).map fun q _ hq =>
        hq ▸ h.withQuery hin q
    | _ => exact .ok (h.toNear.twin _ _)

/-- Moves in turn from both that do not lead back break off or go on alike. -/
theorem applyAll (h : c.Twin d) {motions : List Motion} (hm : ∀ m ∈ motions, m ≠ .parent) :
    Agree Twin (Motion.applyAll c motions) (Motion.applyAll d motions) := by
  induction motions generalizing c d with
  | nil => exact .ok h
  | cons m rest ih =>
    obtain ⟨hfirst, hrest⟩ := List.forall_mem_cons.mp hm
    exact (h.apply hfirst).bind fun _ _ hnext => ih hnext hrest

/-- A child of both is entered alike. -/
theorem stepInto (h : c.Twin d) (hd : catalog.Forward) (key : String) (id : NodeId) :
    Agree (fun x y => x.1.Twin y.1 ∧ x.2 = y.2) (stepInto catalog c key (catalog.node id))
      (stepInto catalog d key (catalog.node id)) := by
  unfold ResourceAtlas.stepInto
  dsimp only
  split
  · next landing _ hlanding =>
    exact (h.applyAll (hd id landing hlanding)).map fun _ _ hnext => ⟨hnext, rfl⟩
  · exact (h.apply (childMotion_ne_parent key (catalog.node id))).map fun _ _ hnext => ⟨hnext, rfl⟩

end Cursor.Twin

/-- The child of twins contributes one value. -/
theorem childValue_twin (hd : catalog.Forward) (hr : resolve.Congruent) {c d : Cursor}
    (h : c.Twin d) (key : String) (id : NodeId) :
    childValue catalog resolve c key id = childValue catalog resolve d key id := by
  unfold childValue
  refine (h.stepInto hd key id).bind_eq fun x y hxy => ?_
  obtain ⟨htwin, hnode⟩ := hxy
  dsimp only
  rw [hnode, hr y.2 x.1 y.1 htwin, reference, reference,
    htwin.toNear.uri_eq (congrArg State.text htwin.query)]

/-- Twins gather the same values. -/
theorem gather_twin (hd : catalog.Forward) (hr : resolve.Congruent) {c d : Cursor}
    (h : c.Twin d) (children : List (String × NodeId)) :
    gather catalog resolve c children = gather catalog resolve d children := by
  induction children with
  | nil => rfl
  | cons e rest ih =>
    obtain ⟨key, id⟩ := e
    rw [gather, gather, childValue_twin hd hr h key id, ih,
      h.toNear.uri_eq (congrArg State.text h.query)]

/-- A field of twins has one value. -/
theorem fieldValue_twin (hd : catalog.Forward) (hr : resolve.Congruent) (item : Node) {c d : Cursor}
    (h : c.Twin d) (name : String) :
    fieldValue catalog resolve item c name = fieldValue catalog resolve item d name := by
  unfold fieldValue
  refine bind_congr_ok fun children _ => ?_
  cases Keyed.get? name children with
  | none => rfl
  | some id =>
    refine (h.stepInto hd name id).bind_eq fun x y hxy => ?_
    dsimp only
    rw [hxy.2]
    exact hr y.2 x.1 y.1 hxy.1

/-- The members of a value are those of the sequence that it is. -/
theorem sequence?_of_membersOf {wanted : Expectation} {data : Value} {items : List Value}
    (h : membersOf wanted data = .ok items) : data.sequence? = some items := by
  unfold membersOf at h
  split at h
  · next heq => rw [heq, Except.ok.inj h]
  · cases h

/-- Near cursors whose queries select the same members and fill in the same fields answer the same
references. Where fields are filled in, no way leads back. -/
theorem selectedReferences_near_of_select {c d : Cursor}
    (hfields : c.query.expand = [] ∨ catalog.Forward) (hr : catalog.Forward → resolve.Congruent)
    (node : Node) (h : c.Near d) (hexpand : c.query.expand = d.query.expand) {data : Value}
    (hselect : ∀ items, data.sequence? = some items →
      selectMembers c.query items = selectMembers d.query items) :
    selectedReferences catalog resolve node c data =
      selectedReferences catalog resolve node d data := by
  unfold selectedReferences
  refine bind_congr_ok fun items hitems => ?_
  dsimp only
  rw [hselect items (sequence?_of_membersOf hitems), ← hexpand]
  refine bind_congr_ok fun selected _ => ?_
  rw [h.references_eq]
  refine bind_congr_ok fun shown _ => bind_congr_ok fun item? _ => ?_
  cases item? with
  | none => rfl
  | some item =>
    dsimp only
    split
    · rfl
    · next hsome =>
      have hd := hfields.resolve_left fun hnil => hsome (by rw [hnil]; rfl)
      have hfield : ∀ (i : Nat) (name : String),
          fieldValue catalog resolve item (c.atIndex (.int ((selected.map (·.2)).getD i 0))) name =
            fieldValue catalog resolve item (d.atIndex (.int ((selected.map (·.2)).getD i 0))) name :=
        fun i name => fieldValue_twin hd (hr hd) item (h.twin _ _) name
      simp only [hfield]

/-- Near cursors whose queries are alike answer the same references. -/
theorem selectedReferences_near (hd : catalog.Forward) (hr : resolve.Congruent) (node : Node)
    {c d : Cursor} (h : c.Near d) (hq : c.query.Alike d.query) (data : Value) :
    selectedReferences catalog resolve node c data =
      selectedReferences catalog resolve node d data :=
  selectedReferences_near_of_select (.inr hd) (fun _ => hr) node h hq.expand
    fun items _ => hq.select_eq _ items.zipIdx

/-- Values without ways back depend on the place and on what is asked there. -/
theorem resolveWithin_congruent (hd : catalog.Forward) (s : Store) (depth : Nat) :
    Resolver.Congruent (resolveWithin catalog s depth) := by
  induction depth with
  | zero => exact fun _ _ _ _ => rfl
  | succ depth ih =>
    intro node c d h
    rw [resolveWithin, resolveWithin]
    rw [h.toNear.raw_eq s]
    cases node.resolution with
    | plain => rfl
    | checked v => rfl
    | computed t => rfl
    | gathered =>
      dsimp only
      simp only [gather_twin hd ih h]
    | members => simp only [h.toNear.references_eq]
    | selected =>
      have hq : c.query.Alike d.query := by
        rw [h.query]
        exact State.Alike.refl _
      simp only [selectedReferences_near hd ih node h.toNear hq]

/-- A node that shows selected members shows the same for near cursors with queries that are
alike. -/
theorem resolveWithin_selected_near (hd : catalog.Forward) (s : Store) (depth : Nat) {node : Node}
    (hn : node.resolution = .selected) {c d : Cursor} (h : c.Near d)
    (hq : c.query.Alike d.query) :
    resolveWithin catalog s depth node c = resolveWithin catalog s depth node d := by
  cases depth with
  | zero => rfl
  | succ depth =>
    rw [resolveWithin, resolveWithin, hn, h.raw_eq s]
    simp only [selectedReferences_near hd (resolveWithin_congruent hd s depth) node h hq]

end ResourceAtlas

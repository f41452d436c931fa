import ResourceAtlas.Proofs.Keyed
import ResourceAtlas.Proofs.Outcome
import ResourceAtlas.Proofs.Query.Selection
import ResourceAtlas.Query.Change

/-!
# Queries that answer for others

One predicate covers another if it answers wherever the other one answers, and the same. A state whose
predicates cover those of another one field by field, and that asks for the same beside them, selects
whatever the other one selects. A window without counts asks for nothing.
-/

namespace ResourceAtlas.Query

/-- A predicate answers wherever another one does, and the same. -/
def Predicate.Covers (q p : Predicate) : Prop :=
  ∀ item b, p.test item = .ok b → q.test item = .ok b

/-- A predicate covers itself. -/
theorem Predicate.Covers.refl (p : Predicate) : p.Covers p := fun _ _ h => h

/-- Predicates that are alike cover each other. -/
theorem Predicate.Alike.covers {p q : Predicate} (h : p.Alike q) : p.Covers q :=
  fun item _ hb => (h.test_eq item).trans hb

/-- What one state selects, another one selects as well, and it fills in the same fields. -/
structure State.ShownBy (s t : State) : Prop where
  /-- The same members are selected. -/
  select : ∀ {α : Type} {valueOf : α → Value → Outcome Value} {items selected : List α},
    s.select valueOf items = .ok selected → t.select valueOf items = .ok selected
  /-- The same fields are filled in. -/
  expand : t.expand = s.expand

variable {α : Type} {valueOf : α → Value → Outcome Value}

/-- Predicates hold of an item if those hold that they cover, and do not if those do not. -/
theorem holdsAll_covers {item : α} {es fs : Keyed Predicate}
    (h : List.Forall₂ (fun e f => e.1 = f.1 ∧ e.2.Covers f.2) es fs) {b : Bool}
    (hb : holdsAll valueOf item fs = .ok b) : holdsAll valueOf item es = .ok b := by
  induction h with
  | nil => exact hb
  | cons hef _ ih =>
    obtain ⟨field, hfield, hb⟩ := bind_eq_ok.mp hb
    obtain ⟨holds, hholds, hb⟩ := bind_eq_ok.mp hb
    rw [← hef.1] at hfield
    refine bind_eq_ok.mpr ⟨field, hfield, bind_eq_ok.mpr ⟨holds, hef.2 field holds hholds, ?_⟩⟩
    cases holds with
    | true => exact ih hb
    | false => exact hb

/-- Predicates keep the members that those keep that they cover. -/
theorem keepMatching_covers {es fs : Keyed Predicate}
    (h : List.Forall₂ (fun e f => e.1 = f.1 ∧ e.2.Covers f.2) es fs) {items kept : List α}
    (hk : keepMatching valueOf fs items = .ok kept) :
    keepMatching valueOf es items = .ok kept := by
  induction items generalizing kept with
  | nil => exact hk
  | cons item rest ih =>
    obtain ⟨holds, hholds, hk⟩ := bind_eq_ok.mp hk
    obtain ⟨more, hmore, hk⟩ := bind_eq_ok.mp hk
    exact bind_eq_ok.mpr ⟨holds, holdsAll_covers h hholds, bind_eq_ok.mpr ⟨more, ih hmore, hk⟩⟩

/-- A state with a window without counts selects what it selects without one. -/
theorem State.select_unbounded (s : State) (items : List α) :
    (s.withWindow (some (.ofCounts none none))).select valueOf items =
      (s.withWindow none).select valueOf items := by
  rw [select_withWindow]
  cases (s.withWindow none).select valueOf items <;> rfl

/-- A state selects by its window, or by one without counts if it has none. -/
theorem State.select_getD (s : State) (items : List α) :
    s.select valueOf items =
      (s.withWindow (some (s.window.getD (.ofCounts none none)))).select valueOf items := by
  obtain ⟨filter, sort, window, expand⟩ := s
  cases window with
  | none => exact (select_unbounded (⟨filter, sort, none, expand⟩ : State) items).symm
  | some w => rfl

/-- A state whose predicates cover those of another one and that asks for the same beside them selects
what the other one selects. -/
theorem State.select_covers {s t : State}
    (hfilter : List.Forall₂ (fun e f => e.1 = f.1 ∧ e.2.Covers f.2) t.filter s.filter)
    (hsort : t.sort = s.sort) (hwindow : t.window = s.window) {items selected : List α}
    (h : s.select valueOf items = .ok selected) : t.select valueOf items = .ok selected := by
  obtain ⟨kept, hkept, h⟩ := bind_eq_ok.mp h
  refine bind_eq_ok.mpr ⟨kept, keepMatching_covers hfilter hkept, ?_⟩
  rw [hsort, hwindow]
  exact h

/-- A state is shown by one whose predicates cover its own and that asks for the same beside them, where
no window is as good as one without counts. -/
theorem State.shownBy_of_covers {s t : State}
    (hfilter : List.Forall₂ (fun e f => e.1 = f.1 ∧ e.2.Covers f.2) t.filter s.filter)
    (hsort : t.sort = s.sort)
    (hwindow : t.window.getD (.ofCounts none none) = s.window.getD (.ofCounts none none))
    (hexpand : t.expand = s.expand) : s.ShownBy t := by
  refine ⟨fun {α valueOf items selected} h => ?_, hexpand⟩
  rw [select_getD] at h
  rw [select_getD, hwindow]
  exact select_covers (s := s.withWindow (some _)) (t := t.withWindow (some _)) hfilter hsort rfl h

/-- The predicates of a state are on distinct fields, and no field is filled in twice. -/
structure State.Gathered (s : State) : Prop where
  /-- No field has two predicates. -/
  distinct : (Keyed.keys s.filter).Nodup
  /-- No two fields to fill in are equal. -/
  unrepeated : s.expand.Pairwise fun a b => Value.equal a b = false

namespace State

/-- Asking nothing is gathered. -/
theorem gathered_empty : State.empty.Gathered :=
  ⟨List.nodup_nil, .nil⟩

/-- Added fields to fill in are not equal to those that are there. -/
theorem unrepeated_addFields {fields : List Value} (names : List Value)
    (h : fields.Pairwise fun a b => Value.equal a b = false) :
    (names.foldl addField fields).Pairwise fun a b => Value.equal a b = false := by
  induction names generalizing fields with
  | nil => exact h
  | cons name rest ih =>
    refine ih ?_
    unfold addField
    split
    · exact h
    · next hnew =>
      refine List.pairwise_append.mpr ⟨h, List.pairwise_singleton _ _, fun field hfield b hb => ?_⟩
      obtain rfl := List.mem_singleton.mp hb
      rw [List.any_eq_true] at hnew
      exact Bool.eq_false_iff.mpr fun hequal => hnew ⟨field, hfield, hequal⟩

/-- A change to a gathered state leaves it gathered: predicates merge field by field, and fields to
fill in are not added twice. -/
theorem Gathered.apply {s t : State} (h : s.Gathered) {c : Change} (hc : c.apply s = .ok t) :
    t.Gathered := by
  cases c with
  | filter comparisons =>
    obtain rfl := Except.ok.inj hc
    exact ⟨Keyed.nodup_merge h.distinct _, h.unrepeated⟩
  | sort field direction =>
    obtain ⟨o, -, rfl⟩ := map_eq_ok.mp hc
    exact ⟨h.distinct, h.unrepeated⟩
  | unsort =>
    obtain rfl := Except.ok.inj hc
    exact ⟨h.distinct, h.unrepeated⟩
  | window limit offset =>
    obtain ⟨w, -, rfl⟩ := map_eq_ok.mp hc
    exact ⟨h.distinct, h.unrepeated⟩
  | unwindow =>
    obtain rfl := Except.ok.inj hc
    exact ⟨h.distinct, h.unrepeated⟩
  | expand names =>
    obtain rfl := Except.ok.inj hc
    exact ⟨h.distinct, unrepeated_addFields names h.unrepeated⟩

/-- The fields that a gathered state fills in have distinct names. -/
theorem Gathered.nodup_names {s : State} (h : s.Gathered) {names : List String}
    (hnames : s.expand = names.map .text) : names.Nodup := by
  have hpairs := h.unrepeated
  rw [hnames, List.pairwise_map] at hpairs
  refine hpairs.imp fun {a b} hdiffer heq => ?_
  rw [heq, Value.equal, beq_self_eq_true] at hdiffer
  exact Bool.false_ne_true hdiffer.symm

end State

end ResourceAtlas.Query

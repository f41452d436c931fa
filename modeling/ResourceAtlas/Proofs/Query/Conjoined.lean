import ResourceAtlas.Proofs.Address.Reordered
import ResourceAtlas.Proofs.Keyed
import ResourceAtlas.Proofs.Query.Numbered

/-!
# Predicates hold together

Where no predicate breaks off it makes no difference which of them is tried first: the members on which
all of them hold are kept. So states of the same predicates in another order select the same members, and
requests that ask for the same in another order make such states.
-/

namespace ResourceAtlas

open Address Query

namespace Query

variable {filter filter' : Keyed Predicate} {item : Value} {items : List Value}

/-- The same predicates hold together in any order. -/
theorem admits_congr (h : ∀ e, e ∈ filter ↔ e ∈ filter') (item : Value) :
    admits filter item = admits filter' item := by
  rw [Bool.eq_iff_iff, admits, admits, List.all_eq_true, List.all_eq_true]
  exact forall_congr' fun e => imp_congr_left (h e)

/-- Predicates of two lists hold together if those of each do. -/
theorem admits_append (filter filter' : Keyed Predicate) (item : Value) :
    admits (filter ++ filter') item = (admits filter item && admits filter' item) :=
  List.all_append

/-- Predicates that all answer on an item, whichever is tried. -/
def Answers (filter : Keyed Predicate) (item : Value) : Prop :=
  ∀ e ∈ filter, ∃ holds, e.2.test (item.field e.1) = .ok holds

/-- Comparisons of distinct fields are predicates as they come. -/
theorem predicatesOf_of_nodup {comparisons : List Comparison}
    (hn : (comparisons.map Comparison.field).Nodup) :
    predicatesOf comparisons = comparisons.map fun c => (c.field, ⟨c.operator, c.operand⟩) := by
  refine Keyed.ofList_of_nodup ?_
  rw [Keyed.keys, List.map_map]
  exact hn

/-- Comparisons of distinct fields in another order are the predicates in another order. -/
theorem predicatesOf_perm {f g both : List Comparison} (hn : ((f ++ g).map Comparison.field).Nodup)
    (hp : both.Perm (f ++ g)) : (predicatesOf f ++ predicatesOf g).Perm (predicatesOf both) := by
  have hboth : (both.map Comparison.field).Nodup := (hp.map _).nodup_iff.mpr hn
  rw [List.map_append] at hn
  rw [predicatesOf_of_nodup hn.of_append_left, predicatesOf_of_nodup hn.of_append_right,
    predicatesOf_of_nodup hboth, ← List.map_append]
  exact (hp.map _).symm

/-- They have each field once. -/
theorem nodup_predicatesOf_append {f g : List Comparison}
    (hn : ((f ++ g).map Comparison.field).Nodup) :
    (Keyed.keys (predicatesOf f ++ predicatesOf g)).Nodup :=
  ((predicatesOf_perm hn (.refl _)).map Prod.fst).nodup_iff.mpr (Keyed.nodup_ofList _)

/-- Members are kept on whose images predicates hold. -/
theorem keepMatching_image {α : Type} (f : α → Value) {all : List α}
    (h : ∀ x ∈ all, AnswersOn filter (f x)) :
    keepMatching (fun x name => Value.fieldOf name (f x)) filter all =
      .ok (all.filter fun x => admits filter (f x)) := by
  induction all with
  | nil => rfl
  | cons x rest ih =>
    have hrest := ih fun y hy => h y (List.mem_cons_of_mem x hy)
    have hx := holdsAll_admits (h x List.mem_cons_self)
    rw [holdsAll_map f (fun item name => Value.fieldOf name item)] at hx
    rw [keepMatching, hx, hrest, List.filter_cons]
    rfl

namespace State

variable {q q' : State}

/-- What is asked for beside predicates. -/
def unfiltered (q : State) : State :=
  { q with filter := [] }

/-- Where predicates answer, what is asked for beside them is asked of the members on which they hold. -/
theorem selectMembers_unfiltered (h : ∀ item ∈ items, Answers q.filter item) :
    selectMembers q items = q.unfiltered.select (fun pair name => Value.fieldOf name pair.1)
      (items.zipIdx.filter fun m => admits q.filter m.1) := by
  have hkept := @keepMatching_image q.filter (Value × Nat) Prod.fst items.zipIdx fun m hm =>
    .of_test (h m.1 (List.fst_mem_of_mem_zipIdx hm))
  unfold selectMembers select unfiltered
  rw [hkept, keepMatching_nil]

/-- Two states that ask for the same, with the predicates in another order. -/
structure Reordered (q q' : State) : Prop where
  /-- The predicates are the same. -/
  filter : ∀ e, e ∈ q.filter ↔ e ∈ q'.filter
  /-- The order is the same. -/
  sort : q.sort = q'.sort
  /-- The window is the same. -/
  window : q.window = q'.window
  /-- The fields to fill in are the same. -/
  expand : q.expand = q'.expand

/-- Where predicates answer, such states select the same members. -/
theorem Reordered.selectMembers_eq (h : q.Reordered q')
    (hanswers : ∀ item ∈ items, Answers q.filter item) :
    selectMembers q items = selectMembers q' items := by
  have hanswers' : ∀ item ∈ items, Answers q'.filter item := fun item hitem e he =>
    hanswers item hitem e ((h.filter e).mpr he)
  have hrest : q.unfiltered = q'.unfiltered := by
    unfold unfiltered
    rw [h.sort, h.window, h.expand]
  rw [selectMembers_unfiltered hanswers, selectMembers_unfiltered hanswers', hrest]
  simp only [admits_congr h.filter]

/-- Predicates that are added on distinct fields may be added in another order. -/
theorem reordered_withFilter (q : State) {more more' : Keyed Predicate} (hp : more.Perm more')
    (hn : more.keys.Nodup) : (q.withFilter more).Reordered (q.withFilter more') :=
  ⟨Keyed.mem_merge_perm hp hn q.filter, rfl, rfl, rfl⟩

end State

end Query

namespace Address.Request

/-- What is asked for after a request, part by part. -/
theorem apply_eq (r : Request) (q : State) :
    r.apply q = ⟨q.filter.merge r.predicates,
      if r.order.isNone then q.sort else r.order.map OrderClause.order,
      if r.window.isNone then q.window else r.window,
      (r.expand.map Value.text).foldl State.addField q.expand⟩ := by
  obtain ⟨filters, order, limit, offset, expand⟩ := r
  unfold apply
  cases filters <;> cases order <;> cases limit <;> cases offset <;> cases expand <;> rfl

/-- Comparisons of distinct fields are predicates as they come. -/
theorem predicates_of_nodup {r : Request} (hn : (r.filters.map Clause.field).Nodup) :
    r.predicates = r.filters.map fun c => (c.field, ⟨c.operator, c.operator.parse c.operand⟩) := by
  refine Keyed.ofList_of_nodup ?_
  rw [Keyed.keys, List.map_map]
  exact hn

/-- Requests that ask for the same make states that do, if no two comparisons are of one field. -/
theorem Reordered.apply {r r' : Request} (h : r.Reordered r')
    (hn : (r.filters.map Clause.field).Nodup) (q : State) : (r.apply q).Reordered (r'.apply q) := by
  have hn' : (r'.filters.map Clause.field).Nodup := (h.filters.map _).nodup_iff.mp hn
  have hkeys : r.predicates.keys.Nodup := Keyed.nodup_ofList _
  have hperm : r.predicates.Perm r'.predicates := by
    rw [predicates_of_nodup hn, predicates_of_nodup hn']
    exact h.filters.map _
  have hwindow : r.window = r'.window := by
    unfold window
    rw [h.limit, h.offset]
  rw [apply_eq, apply_eq, h.order, hwindow, h.expand]
  exact ⟨Keyed.mem_merge_perm hperm hkeys q.filter, rfl, rfl, rfl⟩

end Address.Request

end ResourceAtlas

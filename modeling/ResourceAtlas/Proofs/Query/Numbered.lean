import ResourceAtlas.Proofs.Query.Applied
import ResourceAtlas.Proofs.Sorting.Answered
import ResourceAtlas.Proofs.Specifier.Selected

/-!
# Numbered members

A query of a collection selects from its members numbered in their places. The members it selects
are those that applying the query to the bare members gives, whatever its predicates and comparisons
answer, and the numbers of the selected members are the places where these lie.
-/

namespace ResourceAtlas.Query

open Sorting

section Images

variable {α β : Type} (f : α → β) (valueOf : β → Value → Outcome Value)

/-- Predicates hold on a member as they do on its image. -/
theorem holdsAll_map (item : α) (filter : Keyed Predicate) :
    holdsAll valueOf (f item) filter = holdsAll (fun x => valueOf (f x)) item filter := by
  induction filter with
  | nil => rfl
  | cons e rest ih =>
    rw [holdsAll, holdsAll, ih]

/-- The images that are kept are those of the members that are. -/
theorem keepMatching_map (filter : Keyed Predicate) (items : List α) :
    keepMatching valueOf filter (items.map f) =
      (keepMatching (fun x => valueOf (f x)) filter items).map (List.map f) := by
  induction items with
  | nil => rfl
  | cons item rest ih =>
    rw [List.map_cons, keepMatching, keepMatching, holdsAll_map, ih, map_bind]
    congr 1
    funext holds
    rw [map_bind, bind_of_map]
    congr 1
    funext kept
    cases holds <;> rfl

/-- Images are put in either order as the members are that compare as they do. -/
theorem sortToward_map (precedes : β → β → Outcome Bool) (direction : Direction) (items : List α) :
    sortToward precedes direction (items.map f) =
      (sortToward (along f precedes) direction items).map (List.map f) := by
  cases direction with
  | ascending => exact sortMembers_map f precedes items
  | descending =>
    unfold sortToward
    dsimp only
    rw [← List.map_reverse, sortMembers_map]
    cases sortMembers (along f precedes) items.reverse with
    | error fault => rfl
    | ok all => exact congrArg Except.ok List.map_reverse.symm

/-- A stretch of images is that of the members. -/
theorem stretch_map (items : List α) (first : Value) (last : Option Value) :
    Value.stretch (items.map f) first last = (Value.stretch items first last).map (List.map f) := by
  unfold Value.stretch
  cases first.index? with
  | none => rfl
  | some i =>
    cases last with
    | none => simp [Except.map]
    | some w =>
      dsimp only
      cases w.index? with
      | none => rfl
      | some j => simp [Except.map, Value.slice]

/-- A window cuts out the images of what it cuts out of the members. -/
theorem Window.cut_map (w : Window) (items : List α) :
    w.cut (items.map f) = (w.cut items).map (List.map f) := by
  unfold Window.cut
  cases w.limit with
  | none => exact stretch_map f items _ _
  | some limit =>
    simp only [stretch_map, map_bind]

/-- The images that a state selects are those of the members that it selects by the values of their
images. -/
theorem State.select_map (s : State) (items : List α) :
    s.select valueOf (items.map f) =
      (s.select (fun x => valueOf (f x)) items).map (List.map f) := by
  unfold State.select
  rw [keepMatching_map, map_bind, bind_of_map]
  congr 1
  funext kept
  cases s.sort with
  | none =>
    cases s.window with
    | none => rfl
    | some w => exact w.cut_map f kept
  | some order =>
    dsimp only
    rw [map_bind, sortToward_map, bind_of_map]
    congr 1
    funext all
    cases s.window with
    | none => rfl
    | some w => exact w.cut_map f all

end Images

/-- The members that a query of numbered members selects are what applying it to the bare members
gives. -/
theorem selectMembers_apply (q : State) (items : List Value) :
    (selectMembers q items).map (List.map Prod.fst) = q.apply items := by
  have hmap := q.select_map Prod.fst (fun item name => Value.fieldOf name item) items.zipIdx
  rw [List.zipIdx_map_fst] at hmap
  exact hmap.symm

/-- A query whose predicates answer and whose values can be read and compared selects members. -/
theorem exists_selectMembers {q : State} {items : List Value}
    (hanswers : ∀ item ∈ items, AnswersOn q.filter item)
    (hwindow : ∀ w, q.window = some w → w.Counts)
    (hcompare : ∀ order, q.sort = some order → ∀ x ∈ items.filter (admits q.filter),
      ∀ y ∈ items.filter (admits q.filter), ∃ b, order.precedes x y = .ok b) :
    ∃ selected, selectMembers q items = .ok selected ∧
      q.apply items = .ok (selected.map Prod.fst) := by
  have hsorted : ∃ all, (q.sort = none → all = items.filter (admits q.filter)) ∧
      ∀ order, q.sort = some order → sortToward order.precedes order.direction
        (items.filter (admits q.filter)) = .ok all := by
    cases hs : q.sort with
    | none => exact ⟨_, fun _ => rfl, nofun⟩
    | some order =>
      have hanswered : ∃ all, sortToward order.precedes order.direction
          (items.filter (admits q.filter)) = .ok all := by
        cases order.direction with
        | ascending => exact exists_sortMembers (hcompare order hs)
        | descending =>
          obtain ⟨all, hall⟩ := exists_sortMembers fun x hx y hy => hcompare order hs x
            (List.mem_reverse.mp hx) y (List.mem_reverse.mp hy)
          exact ⟨all.reverse, map_eq_ok.mpr ⟨all, hall, rfl⟩⟩
      obtain ⟨all, hall⟩ := hanswered
      exact ⟨all, nofun, fun other hother => Option.some.inj hother ▸ hall⟩
  obtain ⟨all, hplain, hall⟩ := hsorted
  have hselected := selectMembers_apply q items
  rw [State.apply_of_sorted (keepMatching_admits hanswers) hplain hall hwindow] at hselected
  obtain ⟨selected, hok, hmembers⟩ := map_eq_ok.mp hselected
  exact ⟨selected, hok, by rw [← selectMembers_apply, hok]; rfl⟩

end ResourceAtlas.Query

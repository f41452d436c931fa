import ResourceAtlas.Proofs.Query.State
import ResourceAtlas.Proofs.Sorting.Rearranged

/-!
# Selected members

Without a window a state selects members that came, each as often as it came at most. With one it
selects a stretch of those.
-/

namespace ResourceAtlas.Query

variable {α : Type} {valueOf : α → Value → Outcome Value}

/-- The members on which predicates hold are some of the members, in their order. -/
theorem keepMatching_sublist {filter : Keyed Predicate} {items kept : List α}
    (h : keepMatching valueOf filter items = .ok kept) : kept.Sublist items := by
  induction items generalizing kept with
  | nil =>
    obtain rfl := Except.ok.inj h
    exact List.Sublist.refl _
  | cons item rest ih =>
    obtain ⟨holds, -, h⟩ := bind_eq_ok.mp h
    obtain ⟨more, hmore, h⟩ := bind_eq_ok.mp h
    obtain rfl := Except.ok.inj h
    split
    · exact (ih hmore).cons_cons item
    · exact (ih hmore).cons item

/-- Members in order are the members that came. -/
theorem sortToward_perm {precedes : α → α → Outcome Bool} {direction : Direction}
    {items sorted : List α} (h : sortToward precedes direction items = .ok sorted) :
    sorted.Perm items := by
  cases direction with
  | ascending => exact Sorting.sortMembers_perm h
  | descending =>
    obtain ⟨opposite, hopposite, rfl⟩ := map_eq_ok.mp h
    exact (List.reverse_perm _).trans ((Sorting.sortMembers_perm hopposite).trans
      (List.reverse_perm _))

/-- What a window cuts out comes in the order in which it came. -/
theorem Window.cut_sublist {w : Window} {items cut : List α}
    (h : w.cut items = .ok cut) : cut.Sublist items := by
  have hstretch : ∀ {first : Value} {last : Option Value},
      Value.stretch items first last = .ok cut → cut.Sublist items := by
    intro first last h
    unfold Value.stretch at h
    split at h
    · obtain rfl := Except.ok.inj h
      exact List.drop_sublist _ _
    · split at h
      · obtain rfl := Except.ok.inj h
        exact (List.drop_sublist _ _).trans (List.take_sublist _ _)
      · exact (nomatch h)
    · exact (nomatch h)
  unfold Window.cut at h
  dsimp only at h
  split at h
  · exact hstretch h
  · obtain ⟨last, -, h⟩ := bind_eq_ok.mp h
    exact hstretch h

namespace State

/-- What is selected without a window are some of the members, in some order. -/
theorem select_perm {s : State} {items all : List α}
    (h : (s.withWindow none).select valueOf items = .ok all) :
    ∃ kept, kept.Sublist items ∧ all.Perm kept := by
  obtain ⟨kept, hkept, h⟩ := bind_eq_ok.mp h
  refine ⟨kept, keepMatching_sublist hkept, ?_⟩
  dsimp only [withWindow] at h
  cases hs : s.sort with
  | none =>
    rw [hs] at h
    obtain rfl := Except.ok.inj h
    rfl
  | some order =>
    rw [hs] at h
    obtain ⟨sorted, hsorted, h⟩ := bind_eq_ok.mp h
    obtain rfl := Except.ok.inj h
    exact sortToward_perm hsorted

/-- A window selects a stretch of what is selected without one. -/
theorem select_withWindow (s : State) (w : Window) (items : List α) :
    (s.withWindow (some w)).select valueOf items =
      (s.withWindow none).select valueOf items >>= w.cut := by
  unfold select withWindow
  dsimp only
  cases keepMatching valueOf s.filter items with
  | error f => rfl
  | ok kept =>
    cases s.sort with
    | none => rfl
    | some order =>
      simp only [bind, Except.bind]
      split <;> rfl

/-- The members that are selected are members that came, each as often as it came at most. -/
theorem select_subperm {s : State} {items all : List α} (h : s.select valueOf items = .ok all) :
    all.Subperm items := by
  have hwhole : ∀ {all}, (s.withWindow none).select valueOf items = .ok all →
      all.Subperm items := by
    intro all h
    obtain ⟨kept, hkept, hperm⟩ := select_perm h
    exact hperm.subperm.trans hkept.subperm
  cases hw : s.window with
  | none =>
    rw [show s = s.withWindow none by unfold withWindow; rw [← hw]] at h
    exact hwhole h
  | some w =>
    rw [show s = s.withWindow (some w) by unfold withWindow; rw [← hw], select_withWindow] at h
    obtain ⟨whole, hall, hcut⟩ := bind_eq_ok.mp h
    exact (Window.cut_sublist hcut).subperm.trans (hwhole hall)

end State

end ResourceAtlas.Query

import ResourceAtlas.Proofs.Outcome
import ResourceAtlas.Resource.Read

/-!
# Stretches of counts

A window of counts asks for a stretch of counts, and such a stretch cuts the members from one count
on, as many as another one.
-/

namespace ResourceAtlas.Resource

open Query

/-- A stretch of counts: how many members come before it and how many belong to it. -/
def Stretch.ofCounts (offset size : Nat) : Stretch :=
  ⟨.int offset, .int size⟩

/-- The size of a stretch that a window of counts asks for. -/
def pageSize (limits : Limits) : Option Nat → Int
  | some (n + 1) => min ((n + 1 : Nat) : Int) limits.greatest
  | _ => limits.standard

/-- Integers as amounts in order. -/
theorem amountLt_int (m n : Int) : (Value.int m).amountLt (.int n) = decide (m < n) :=
  rfl

/-- Integers as amounts in order or equal. -/
theorem amountLe_int (m n : Int) : (Value.int m).amountLe (.int n) = decide (m ≤ n) := by
  show (decide (m < n) || m == n) = decide (m ≤ n)
  rw [Bool.eq_iff_iff, Bool.or_eq_true, decide_eq_true_eq, decide_eq_true_eq, beq_iff_eq]
  omega

/-- A stretch of page size is asked for. -/
theorem stretchOf_ofCounts (limits : Limits) (limit offset : Option Nat) :
    stretchOf limits (some (.ofCounts limit offset)) =
      ⟨.int (offset.getD 0 : Nat), .int (pageSize limits limit)⟩ := by
  have hoffset : (given? (offset.map Bound.whole)).getD (.int 0) =
      .int (offset.getD 0 : Nat) := by
    cases offset with
    | none => rfl
    | some n => cases n <;> rfl
  unfold stretchOf
  cases limit with
  | none =>
    show Stretch.mk ((given? (offset.map Bound.whole)).getD (.int 0)) _ = _
    rw [hoffset]
    rfl
  | some n =>
    cases n with
    | zero =>
      show Stretch.mk ((given? (offset.map Bound.whole)).getD (.int 0)) _ = _
      rw [hoffset]
      rfl
    | succ n =>
      show Stretch.mk ((given? (offset.map Bound.whole)).getD (.int 0))
        (Value.amountMin (.int (n + 1 : Nat)) (.int limits.greatest)) = _
      rw [hoffset]
      congr 1
      unfold Value.amountMin
      rw [amountLt_int]
      rw [show pageSize limits (some (n + 1)) = min ((n + 1 : Nat) : Int) limits.greatest from rfl]
      split
      · next h =>
        have hlt := of_decide_eq_true h
        congr 1
        omega
      · next h =>
        have hle : ¬ limits.greatest < (n + 1 : Nat) := fun hlt => h (decide_eq_true hlt)
        congr 1
        omega

/-- Without a window the first page of the standard size is asked for. -/
theorem stretchOf_none (limits : Limits) :
    stretchOf limits none = ⟨.int 0, .int limits.standard⟩ :=
  rfl

/-- Pages hold members if the limits allow for any. -/
theorem one_le_pageSize {limits : Limits} (hs : 1 ≤ limits.standard) (hg : 1 ≤ limits.greatest)
    (limit : Option Nat) : 1 ≤ pageSize limits limit := by
  unfold pageSize
  split
  · omega
  · exact hs

namespace Stretch

variable (offset size : Nat)

/-- Where a stretch of counts ends. -/
theorem last_ofCounts : (ofCounts offset size).last = .ok (.int (offset + size : Nat)) :=
  rfl

/-- The window of a stretch of counts. -/
theorem window_ofCounts :
    (ofCounts offset size).window = .ok (.ofCounts (some size) (some offset)) := by
  unfold window Window.make ofCounts
  simp only [Bound.ofValue]
  rw [if_neg (by omega), if_neg (by omega)]
  rfl

/-- The members from one count up to another. -/
theorem slice_counts {α : Type} (items : List α) :
    Value.slice items offset (offset + size : Nat) = (items.drop offset).take size := by
  unfold Value.slice Value.clampIndex
  rw [if_neg (by omega), if_neg (by omega)]
  have hfirst : (min (offset : Int) items.length).toNat = min offset items.length := by omega
  have hlast : (min ((offset + size : Nat) : Int) items.length).toNat =
      min (offset + size) items.length := by omega
  rw [hfirst, hlast]
  apply List.ext_getElem?
  intro k
  rw [List.getElem?_drop, List.getElem?_take, List.getElem?_take, List.getElem?_drop]
  by_cases hk : offset + k < items.length
  · rw [Nat.min_eq_left (by omega : offset ≤ items.length)]
    by_cases hsize : k < size
    · rw [if_pos (by omega), if_pos hsize]
    · rw [if_neg (by omega), if_neg hsize]
  · rw [if_neg (by omega), List.getElem?_eq_none (by omega : items.length ≤ offset + k), ite_self]

/-- The members of a stretch of counts. -/
theorem cut_ofCounts {α : Type} (items : List α) :
    (ofCounts offset size).cut items = .ok ((items.drop offset).take size) := by
  unfold cut
  rw [last_ofCounts]
  show Value.stretch items (.int offset) (some (.int (offset + size : Nat))) = _
  exact congrArg Except.ok (slice_counts offset size items)

/-- The members of a window of counts. -/
theorem cut_window {α : Type} (items : List α) :
    (Window.ofCounts (some size) (some offset)).cut items =
      .ok ((items.drop offset).take size) := by
  have hoffset : ((((some offset).map Bound.whole).filter Bound.isNonzero).map
      Bound.value).getD (.int 0) = .int offset := by
    cases offset <;> rfl
  show (Value.amountSum ((((some offset).map Bound.whole).filter Bound.isNonzero).map
      Bound.value |>.getD (.int 0)) (.int size)).bind
      (fun last => Value.stretch items ((((some offset).map Bound.whole).filter
        Bound.isNonzero).map Bound.value |>.getD (.int 0)) (some last)) = _
  rw [hoffset]
  exact congrArg Except.ok (slice_counts offset size items)

/-- A stretch of counts holds all members if it starts with the first one and is long enough. -/
theorem holdsAll_ofCounts (total : Nat) :
    (ofCounts offset size).holdsAll total = true ↔ total ≤ size ∧ offset = 0 := by
  unfold holdsAll ofCounts
  rw [Bool.and_eq_true, amountLe_int, decide_eq_true_eq]
  have hequal : (Value.int offset).equal (.int 0) = true ↔ offset = 0 := by
    rw [Value.equal]
    show ((offset : Int) == 0) = true ↔ _
    rw [beq_iff_eq]
    omega
  rw [hequal]
  omega

end Stretch

end ResourceAtlas.Resource

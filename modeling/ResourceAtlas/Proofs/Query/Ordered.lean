import ResourceAtlas.Proofs.Query.Applied
import ResourceAtlas.Proofs.Sorting.Neighbours

/-!
# The order of values of several kinds

Values of different kinds are compared by their texts and those of one kind as they are, so the
comparison of three values can go round in a circle. Whatever the kinds, ordering leaves no item right
ahead of one that should stand before it, and it leaves none anywhere ahead of such a one exactly if the
comparison is transitive on the values.
-/

namespace ResourceAtlas

open Sorting

namespace Sorting

variable {α : Type} {precedes : α → α → Outcome Bool} {before : α → α → Bool} {items : List α}

/-- Members are ordered by what the comparison answers for those that came. -/
theorem sortMembers_attach (h : ∀ a ∈ items, ∀ b ∈ items, precedes a b = .ok (before a b)) :
    sortMembers precedes items =
      (sortMembers (answering fun a b : {x // x ∈ items} => before a.1 b.1) items.attach).map
        (List.map Subtype.val) := by
  have halong : along Subtype.val precedes =
      answering fun a b : {x // x ∈ items} => before a.1 b.1 :=
    funext fun a => funext fun b => h a.1 a.2 b.1 b.2
  have hmap := sortMembers_map Subtype.val precedes items.attach
  rwa [List.attach_map_subtype_val, halong] at hmap

/-- If of two members that came at most one precedes the other, no member of the result precedes the one
right ahead of it. -/
theorem exists_sortMembers_isChain (h : ∀ a ∈ items, ∀ b ∈ items, precedes a b = .ok (before a b))
    (hasymm : ∀ a ∈ items, ∀ b ∈ items, before a b = true → before b a = false) :
    ∃ sorted, sortMembers precedes items = .ok sorted ∧
      sorted.IsChain fun a b => before b a = false := by
  obtain ⟨out, hout, hchain⟩ := @exists_sortMembers_locally {x // x ∈ items}
    (fun a b => before a.1 b.1) (fun {a b} => hasymm a.1 a.2 b.1 b.2) items.attach
  refine ⟨out.map Subtype.val, ?_, (List.isChain_map Subtype.val).mpr hchain⟩
  rw [sortMembers_attach h, hout]
  rfl

/-- If the comparison of members that came is consistent, no member of the result precedes one anywhere
ahead of it. -/
theorem exists_sortMembers_pairwise (h : ∀ a ∈ items, ∀ b ∈ items, precedes a b = .ok (before a b))
    (hasymm : ∀ a ∈ items, ∀ b ∈ items, before a b = true → before b a = false)
    (htrans : ∀ a ∈ items, ∀ b ∈ items, ∀ c ∈ items, before b a = false → before c b = false →
      before c a = false) :
    ∃ sorted, sortMembers precedes items = .ok sorted ∧
      sorted.Pairwise fun a b => before b a = false := by
  have hconsistent : Consistent fun a b : {x // x ∈ items} => before a.1 b.1 :=
    ⟨fun {a b} => hasymm a.1 a.2 b.1 b.2, fun {a b c} => htrans a.1 a.2 b.1 b.2 c.1 c.2⟩
  obtain ⟨out, hout, harranged⟩ := sortMembers_ok hconsistent items.attach
  refine ⟨out.map Subtype.val, ?_, List.pairwise_map.mpr harranged.ordered⟩
  rw [sortMembers_attach h, hout]
  rfl

/-- Three members of which none precedes the one right ahead of it stay as they came. -/
theorem sortMembers_run {a b c : α} (hba : precedes b a = .ok false) (hcb : precedes c b = .ok false) :
    sortMembers precedes [a, b, c] = .ok [a, b, c] := by
  have hlength : runLength precedes false a [b, c] = .ok 2 := by
    simp [runLength, hba, hcb, bind, Except.bind, Except.map]
  have hrun : firstRun precedes (minimumRun 3) a [b, c] = .ok ([a, b, c], 2) := by
    unfold firstRun
    simp only [hba, hlength, bind, Except.bind]
    rfl
  unfold sortMembers
  rw [show [a, b, c].length = 3 from rfl, if_neg (by decide), pileUp]
  simp only [hrun, bind, Except.bind]
  rw [show [b, c].drop 2 = [] from rfl, Pile.push]
  simp only [bind, Except.bind]
  rw [pileUp]
  dsimp only
  rw [collapse]

end Sorting

namespace Query

/-- Values that are swapped are compared the other way round. -/
theorem compareValues_swap (v w : Value) :
    compareValues w v = (compareValues v w).map Ordering.swap := by
  have htexts : (do
      let s ← writable w.string?
      let t ← writable v.string?
      .ok (compare s t) : Outcome Ordering) =
      (do
        let s ← writable v.string?
        let t ← writable w.string?
        .ok (compare s t) : Outcome Ordering).map Ordering.swap := by
    cases v.string? with
    | none => cases w.string? <;> rfl
    | some s =>
      cases w.string? with
      | none => rfl
      | some t => exact congrArg Except.ok Std.OrientedCmp.eq_swap
  unfold compareValues
  rw [Bool.or_comm]
  split
  · exact congrArg Except.ok (Nat.compare_swap _ _).symm
  · cases Value.less? v w with
    | none => cases Value.less? w v <;> exact htexts
    | some below =>
      cases Value.less? w v with
      | none => exact htexts
      | some above => cases below <;> cases above <;> rfl

/-- Values with texts can be compared. -/
theorem exists_compareValues {v w : Value} (hv : v.string?.isSome) (hw : w.string?.isSome) :
    ∃ o, compareValues v w = .ok o := by
  obtain ⟨s, hs⟩ := Option.isSome_iff_exists.mp hv
  obtain ⟨t, ht⟩ := Option.isSome_iff_exists.mp hw
  unfold compareValues
  split
  · exact ⟨_, rfl⟩
  · split
    · exact ⟨_, rfl⟩
    · rw [hs, ht]
      exact ⟨_, rfl⟩

/-- What a comparison answers if a value stands wrongly ahead of another one. -/
def Direction.wrong : Direction → Ordering
  | ascending => .gt
  | descending => .lt

/-- One item stands wrongly ahead of another one: its value compares greater in ascending order, and
less in descending order. -/
def Order.Inverts (order : Order) (a b : Value) : Prop :=
  compareValues (order.valueOf a) (order.valueOf b) = .ok order.direction.wrong

/-- A value that does not compare greater than another one, which does not compare greater than a third
one, does not compare greater than that. -/
def TransitiveOn (values : Value → Prop) : Prop :=
  ∀ u v w, values u → values v → values w → compareValues u v ≠ .ok .gt →
    compareValues v w ≠ .ok .gt → compareValues u w ≠ .ok .gt

/-- A comparison by ranks is transitive. -/
theorem transitiveOn_of_rank {β : Type} [LinearOrder β] (rank : Value → β) {values : Value → Prop}
    (h : ∀ v w, values v → values w →
      ∃ o, compareValues v w = .ok o ∧ (o == .lt) = decide (rank v < rank w)) :
    TransitiveOn values := by
  have hrank : ∀ v w, values v → values w → (compareValues v w ≠ .ok .gt ↔ rank v ≤ rank w) := by
    intro v w hv hw
    obtain ⟨o, ho, hlt⟩ := h w v hw hv
    have hless : (o == .lt) = true ↔ rank w < rank v := by
      rw [hlt, decide_eq_true_iff]
    rw [compareValues_swap w v, ho, ← not_lt, ← hless]
    cases o <;> simp [Except.map]
  intro u v w hu hv hw huv hvw
  rw [hrank u v hu hv] at huv
  rw [hrank v w hv hw] at hvw
  exact (hrank u w hu hw).mpr (huv.trans hvw)

/-- A state orders items by values: its predicates answer, its window counts members, and the field that
it orders the items by that it keeps has such a value in each of them. -/
structure State.Orders (s : State) (order : Order) (items : List Value) (values : Value → Prop) :
    Prop where
  /-- It asks for the order. -/
  sort : s.sort = some order
  /-- The predicates answer. -/
  answers : ∀ item ∈ items, AnswersOn s.filter item
  /-- The window counts members. -/
  counts : ∀ w, s.window = some w → w.Counts
  /-- The items that are kept have such values. -/
  read : ∀ item ∈ items.filter (admits s.filter),
    ∃ v, Value.fieldOf order.field item = .ok v ∧ values v

namespace Order

variable {order : Order} {kept : List Value} {values : Value → Prop}

/-- Whether the value of one item compares less than that of another one. -/
def before (order : Order) (a b : Value) : Bool :=
  match compareValues (order.valueOf a) (order.valueOf b) with
  | .ok o => o == .lt
  | .error _ => false

/-- One value compares less than another one. -/
theorem before_iff {a b : Value} :
    order.before a b = true ↔ compareValues (order.valueOf a) (order.valueOf b) = .ok .lt := by
  unfold before
  cases compareValues (order.valueOf a) (order.valueOf b) with
  | error f => exact ⟨fun h => (nomatch h), fun h => (nomatch h)⟩
  | ok o => cases o <;> simp

/-- One value compares less than another one exactly if that compares greater. -/
theorem before_iff_gt {a b : Value} :
    order.before b a = true ↔ compareValues (order.valueOf a) (order.valueOf b) = .ok .gt := by
  rw [before_iff, compareValues_swap, map_eq_ok]
  constructor
  · rintro ⟨o, ho, hswap⟩
    rw [ho, Ordering.swap_eq_lt.mp hswap]
  · exact fun h => ⟨.gt, h, rfl⟩

/-- Of two values at most one compares less than the other. -/
theorem before_asymm {a b : Value} (h : order.before a b = true) : order.before b a = false := by
  rw [Bool.eq_false_iff, ne_eq, before_iff_gt, before_iff.mp h]
  exact fun h => (nomatch h)

/-- In ascending order an item stands wrongly ahead of one whose value compares less. -/
theorem inverts_ascending (h : order.direction = .ascending) (a b : Value) :
    order.Inverts a b ↔ order.before b a = true := by
  rw [before_iff_gt, Inverts, h]
  rfl

/-- In descending order an item stands wrongly ahead of one if its own value compares less. -/
theorem inverts_descending (h : order.direction = .descending) (a b : Value) :
    order.Inverts a b ↔ order.before a b = true := by
  rw [before_iff, Inverts, h]
  rfl

/-- Items with values that can be compared precede each other as the values compare. -/
theorem precedes_eq_before (hcompare : ∀ v w, values v → values w → ∃ o, compareValues v w = .ok o)
    (hread : ∀ item ∈ kept, ∃ v, Value.fieldOf order.field item = .ok v ∧ values v) :
    ∀ a ∈ kept, ∀ b ∈ kept, order.precedes a b = .ok (order.before a b) := by
  intro a ha b hb
  obtain ⟨v, hv, hvalue⟩ := hread a ha
  obtain ⟨w, hw, hvalue'⟩ := hread b hb
  obtain ⟨o, ho⟩ := hcompare v w hvalue hvalue'
  have hbefore : order.before a b = (o == .lt) := by
    unfold before valueOf
    rw [hv, hw]
    simp only [Except.toOption, Option.getD_some, ho]
  rw [hbefore]
  exact bind_eq_ok.mpr ⟨v, hv, bind_eq_ok.mpr ⟨w, hw, bind_eq_ok.mpr ⟨o, ho, rfl⟩⟩⟩

/-- Items are ordered without one that stands wrongly right ahead of another one. -/
theorem exists_sort_isChain (hcompare : ∀ v w, values v → values w → ∃ o, compareValues v w = .ok o)
    (hread : ∀ item ∈ kept, ∃ v, Value.fieldOf order.field item = .ok v ∧ values v) :
    ∃ all, sortToward order.precedes order.direction kept = .ok all ∧
      all.IsChain fun a b => ¬ order.Inverts a b := by
  have hprecedes := precedes_eq_before hcompare hread
  cases hd : order.direction with
  | ascending =>
    obtain ⟨all, hall, hchain⟩ := exists_sortMembers_isChain hprecedes fun _ _ _ _ => before_asymm
    refine ⟨all, hall, hchain.imp fun a b hba => ?_⟩
    rw [inverts_ascending hd, hba]
    exact Bool.false_ne_true
  | descending =>
    obtain ⟨opposite, hopposite, hchain⟩ := @exists_sortMembers_isChain _ _ _ kept.reverse
      (fun a ha b hb => hprecedes a (List.mem_reverse.mp ha) b (List.mem_reverse.mp hb))
      fun _ _ _ _ => before_asymm
    refine ⟨opposite.reverse, by rw [sortToward, hopposite]; rfl,
      List.isChain_reverse.mpr (hchain.imp fun a b hba => ?_)⟩
    rw [inverts_descending hd, hba]
    exact Bool.false_ne_true

/-- Where the comparison of their values is transitive, none stands wrongly anywhere ahead of another
one. -/
theorem exists_sort_pairwise (hcompare : ∀ v w, values v → values w → ∃ o, compareValues v w = .ok o)
    (hread : ∀ item ∈ kept, ∃ v, Value.fieldOf order.field item = .ok v ∧ values v)
    (htrans : TransitiveOn values) :
    ∃ all, sortToward order.precedes order.direction kept = .ok all ∧
      all.Pairwise fun a b => ¬ order.Inverts a b := by
  have hprecedes := precedes_eq_before hcompare hread
  have hvalues : ∀ item ∈ kept, values (order.valueOf item) := by
    intro item hitem
    obtain ⟨v, hv, hvalue⟩ := hread item hitem
    unfold valueOf
    rw [hv]
    exact hvalue
  have hconsistent : ∀ a ∈ kept, ∀ b ∈ kept, ∀ c ∈ kept, order.before b a = false →
      order.before c b = false → order.before c a = false := by
    intro a ha b hb c hc
    simp only [Bool.eq_false_iff, ne_eq, before_iff_gt]
    exact htrans _ _ _ (hvalues a ha) (hvalues b hb) (hvalues c hc)
  cases hd : order.direction with
  | ascending =>
    obtain ⟨all, hall, hordered⟩ :=
      exists_sortMembers_pairwise hprecedes (fun _ _ _ _ => before_asymm) hconsistent
    refine ⟨all, hall, hordered.imp fun {a b} hba => ?_⟩
    rw [inverts_ascending hd, hba]
    exact Bool.false_ne_true
  | descending =>
    have hmem : ∀ {item}, item ∈ kept.reverse → item ∈ kept := List.mem_reverse.mp
    obtain ⟨opposite, hopposite, hordered⟩ := @exists_sortMembers_pairwise _ _ _ kept.reverse
      (fun a ha b hb => hprecedes a (hmem ha) b (hmem hb)) (fun _ _ _ _ => before_asymm)
      fun a ha b hb c hc => hconsistent a (hmem ha) b (hmem hb) c (hmem hc)
    refine ⟨opposite.reverse, by rw [sortToward, hopposite]; rfl,
      List.pairwise_reverse.mpr (hordered.imp fun {a b} hba => ?_)⟩
    rw [inverts_descending hd, hba]
    exact Bool.false_ne_true

end Order

namespace State

variable {s : State} {order : Order} {items : List Value} {values : Value → Prop}

/-- A portion of items has for neighbours what they have. -/
theorem isChain_portion {r : Value → Value → Prop} {all : List Value} (h : all.IsChain r) (s : State) :
    (s.portion all).IsChain r := by
  unfold portion
  cases s.window with
  | none => exact h
  | some w =>
    have hdrop := h.suffix (List.drop_suffix (w.offset.elim 0 Bound.count) all)
    show (w.portion all).IsChain r
    unfold Window.portion
    cases w.limit with
    | none => exact hdrop
    | some limit => exact hdrop.prefix (List.take_prefix _ _)

/-- A portion of items comes in the order in which they come. -/
theorem portion_sublist (s : State) (all : List Value) : (s.portion all).Sublist all := by
  unfold portion
  cases s.window with
  | none => exact .refl all
  | some w =>
    show (w.portion all).Sublist all
    unfold Window.portion
    cases w.limit with
    | none => exact List.drop_sublist _ _
    | some limit => exact (List.take_sublist _ _).trans (List.drop_sublist _ _)

/-- What is selected of items that are put in order. -/
theorem Orders.apply_eq (h : s.Orders order items values) {all : List Value}
    (hall : sortToward order.precedes order.direction (items.filter (admits s.filter)) = .ok all) :
    s.apply items = .ok (s.portion all) := by
  have hnone : s.sort ≠ none := by
    rw [h.sort]
    exact nofun
  refine apply_of_sorted (keepMatching_admits h.answers) (fun hs => absurd hs hnone)
    (fun order' hs => ?_) h.counts
  obtain rfl := Option.some.inj (h.sort.symm.trans hs)
  exact hall

/-- Ask for items in ascending order of a field. -/
def upward : State :=
  ⟨[], some ⟨.text "v", .ascending⟩, none, []⟩

/-- Items with such values are put in that order. -/
theorem upward_orders (h : ∀ item ∈ items, values (item.field "v")) :
    upward.Orders ⟨.text "v", .ascending⟩ items values where
  sort := rfl
  answers _ _ := .of_test fun _ he => absurd he List.not_mem_nil
  counts _ hw := (nomatch hw)
  read item hitem := ⟨_, rfl, h item (List.mem_filter.mp hitem).1⟩

/-- Three items stay as they came if none has a value that compares greater than that of the one right
behind it. -/
theorem upward_run {a b c : Value}
    (hab : ∃ o, compareValues (a.field "v") (b.field "v") = .ok o ∧ o ≠ .gt)
    (hbc : ∃ o, compareValues (b.field "v") (c.field "v") = .ok o ∧ o ≠ .gt) :
    upward.apply [a, b, c] = .ok [a, b, c] := by
  have hprecedes : ∀ {x y : Value},
      (∃ o, compareValues (x.field "v") (y.field "v") = .ok o ∧ o ≠ .gt) →
      Order.precedes ⟨.text "v", .ascending⟩ y x = .ok false := by
    rintro x y ⟨o, ho, hne⟩
    refine bind_eq_ok.mpr ⟨_, rfl, bind_eq_ok.mpr ⟨_, rfl, bind_eq_ok.mpr ⟨o.swap, ?_, ?_⟩⟩⟩
    · rw [compareValues_swap, ho]
      rfl
    · cases o with
      | gt => exact absurd rfl hne
      | _ => rfl
  have hsorted := sortMembers_run (hprecedes hab) (hprecedes hbc)
  exact bind_eq_ok.mpr ⟨_, rfl, bind_eq_ok.mpr ⟨_, hsorted, rfl⟩⟩

/-- An item with a value. -/
def valued (v : Value) : Value :=
  .mapping [("v", v)]

end State

end Query

end ResourceAtlas

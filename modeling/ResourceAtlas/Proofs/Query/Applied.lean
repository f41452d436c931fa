import Mathlib.Data.String.Basic
import Mathlib.Order.WithBot
import ResourceAtlas.Proofs.Query.Selection
import ResourceAtlas.Proofs.Resource.Stretch
import ResourceAtlas.Proofs.Sorting.Natural
import ResourceAtlas.Proofs.Sorting.Stable

/-!
# Applying a query state

What a state selects of items is said without saying how it is found: the items on which every
predicate holds, as they came or in order of a field, with equal ones as they came, and of those a
stretch. It is so for every state of counts whose predicates answer and whose order is by values of
one kind.
-/

namespace ResourceAtlas

open Sorting

/-- The first value comes no later than the second one: nothing comes first, integers come by size
and texts by their characters. -/
inductive Value.AtMost : Value → Value → Prop
  /-- Nothing comes first. -/
  | null (v : Value) : AtMost .null v
  /-- Integers come by size, truth values as 0 and 1. -/
  | integer {v w : Value} {m n : Int} (hv : v.index? = some m) (hw : w.index? = some n)
      (h : m ≤ n) : AtMost v w
  /-- Texts come by their characters. -/
  | text {s t : String} (h : s ≤ t) : AtMost (.text s) (.text t)

/-- Values are of one kind, but for nothings: all are integers or all are texts. -/
def Value.OneKind (values : List Value) : Prop :=
  (∀ v ∈ values, v = .null ∨ ∃ n, v.index? = some n) ∨
    ∀ v ∈ values, v = .null ∨ ∃ s, v = .text s

namespace Query

section Rank

variable {α β : Type} [LinearOrder β] (rank : α → β)

/-- A comparison by ranks is consistent. -/
theorem consistent_rank : Consistent fun a b => decide (rank a < rank b) where
  asymm h := by
    rw [decide_eq_true_eq] at h
    exact decide_eq_false h.not_gt
  trans hab hbc := by
    rw [decide_eq_false_iff_not, not_lt] at hab hbc ⊢
    exact hab.trans hbc

/-- Members of one rank are those that do not precede each other. -/
theorem alike_rank (z x : α) :
    alike (fun a b => decide (rank a < rank b)) z x = decide (rank x = rank z) := by
  rw [Bool.eq_iff_iff]
  simp only [alike, Bool.and_eq_true, Bool.not_eq_true', decide_eq_false_iff_not, not_lt,
    decide_eq_true_eq]
  exact ⟨fun h => le_antisymm h.1 h.2, fun h => ⟨h.le, h.ge⟩⟩

/-- Members are put in the order of their ranks, and those of one rank stay as they came, if the
comparison of members that came answers by their ranks. -/
theorem sortMembers_rank {precedes : α → α → Outcome Bool} {items : List α}
    (h : ∀ a ∈ items, ∀ b ∈ items, precedes a b = .ok (decide (rank a < rank b))) :
    ∃ sorted, sortMembers precedes items = .ok sorted ∧
      sorted.Pairwise (fun a b => rank a ≤ rank b) ∧
      ∀ z, sorted.filter (fun x => decide (rank x = z)) =
        items.filter (fun x => decide (rank x = z)) := by
  -- The comparison is that of the ranks on the members that came, and no other one is asked about.
  let before : {x // x ∈ items} → {x // x ∈ items} → Bool :=
    fun a b => decide (rank a.1 < rank b.1)
  have halong : along Subtype.val precedes = answering before :=
    funext fun a => funext fun b => h a.1 a.2 b.1 b.2
  have hconsistent : Consistent before := consistent_rank fun a : {x // x ∈ items} => rank a.1
  obtain ⟨out, hout, harranged⟩ := sortMembers_ok hconsistent items.attach
  have hsort : sortMembers precedes items = .ok (out.map Subtype.val) := by
    rw [← halong] at hout
    have hmap := sortMembers_map Subtype.val precedes items.attach
    rwa [List.attach_map_subtype_val, hout, map_ok] at hmap
  refine ⟨out.map Subtype.val, hsort, ?_, fun z => ?_⟩
  · refine List.pairwise_map.mpr (harranged.ordered.imp fun {a b} hba => ?_)
    exact not_lt.mp (of_decide_eq_false hba)
  · by_cases hz : ∃ a ∈ items, rank a = z
    · obtain ⟨a, ha, rfl⟩ := hz
      have hstable := congrArg (List.map Subtype.val) (harranged.stable ⟨a, ha⟩)
      have halike : alike before ⟨a, ha⟩ = (fun x => decide (rank x = rank a)) ∘ Subtype.val :=
        funext fun x => alike_rank (fun a : {x // x ∈ items} => rank a.1) ⟨a, ha⟩ x
      rwa [halike, ← List.filter_map, ← List.filter_map, List.attach_map_subtype_val] at hstable
    · have hnone : ∀ x ∈ items, ¬ decide (rank x = z) = true :=
        fun x hx h => hz ⟨x, hx, of_decide_eq_true h⟩
      rw [List.filter_eq_nil_iff.mpr hnone, List.filter_eq_nil_iff]
      exact fun x hx => hnone x ((sortMembers_perm hsort).mem_iff.mp hx)

/-- The same towards a direction: those of one rank stay as they came either way. -/
theorem sortToward_rank {precedes : α → α → Outcome Bool} {items : List α}
    (h : ∀ a ∈ items, ∀ b ∈ items, precedes a b = .ok (decide (rank a < rank b)))
    (direction : Direction) :
    ∃ sorted, sortToward precedes direction items = .ok sorted ∧
      (direction = .ascending → sorted.Pairwise fun a b => rank a ≤ rank b) ∧
      (direction = .descending → sorted.Pairwise fun a b => rank b ≤ rank a) ∧
      ∀ z, sorted.filter (fun x => decide (rank x = z)) =
        items.filter (fun x => decide (rank x = z)) := by
  cases direction with
  | ascending =>
    obtain ⟨sorted, hsorted, hordered, hstable⟩ := sortMembers_rank rank h
    exact ⟨sorted, hsorted, fun _ => hordered, nofun, hstable⟩
  | descending =>
    have hreverse : ∀ a ∈ items.reverse, ∀ b ∈ items.reverse,
        precedes a b = .ok (decide (rank a < rank b)) :=
      fun a ha b hb => h a (List.mem_reverse.mp ha) b (List.mem_reverse.mp hb)
    obtain ⟨opposite, hopposite, hordered, hstable⟩ := sortMembers_rank rank hreverse
    refine ⟨opposite.reverse, ?_, nofun, fun _ => List.pairwise_reverse.mpr hordered, fun z => ?_⟩
    · unfold sortToward
      rw [hopposite]
      rfl
    · rw [List.filter_reverse, hstable, List.filter_reverse, List.reverse_reverse]

end Rank

section Values

/-- The place of a value among integers, with nothing before them all. -/
def integerRank (v : Value) : WithBot Int :=
  v.index?

/-- The place of a value among texts, with nothing before them all. -/
def textRank (v : Value) : WithBot String :=
  v.text?

/-- An integer as a number. -/
theorem numeric?_integer {v : Value} {n : Int} (hv : v.index? = some n) :
    v.numeric? = some (.whole n) := by
  cases v <;> simp_all [Value.index?, Value.numeric?]

/-- Integers are ordered as values by size. -/
theorem less?_integer {v w : Value} {m n : Int} (hv : v.index? = some m) (hw : w.index? = some n) :
    Value.less? v w = some (decide (m < n)) := by
  cases v with
  | int k =>
    obtain rfl := Option.some.inj hv
    simp [Value.less?, numeric?_integer hw, Value.Numeric.lt]
  | bool b =>
    obtain rfl := Option.some.inj hv
    simp [Value.less?, numeric?_integer hw, Value.Numeric.lt]
  | _ => contradiction

/-- An integer is something. -/
theorem isNull_integer {v : Value} {n : Int} (hv : v.index? = some n) : v.isNull = false := by
  cases v <;> simp_all [Value.index?, Value.isNull]

/-- Two values that are ordered as values are compared so. -/
theorem compareValues_of_less {v w : Value} {below above : Bool} (hv : v.isNull = false)
    (hw : w.isNull = false) (hbelow : Value.less? v w = some below)
    (habove : Value.less? w v = some above) (hboth : ¬(below = true ∧ above = true)) :
    ∃ o, compareValues v w = .ok o ∧ (o == .lt) = below := by
  refine ⟨_, by unfold compareValues; rw [hv, hw, hbelow, habove]; rfl, ?_⟩
  cases below <;> cases above <;> simp_all

/-- Nothing comes before every value. -/
theorem compareValues_null (v : Value) :
    ∃ o, compareValues .null v = .ok o ∧ (o == .lt) = !v.isNull := by
  refine ⟨_, rfl, ?_⟩
  cases v.isNull <;> rfl

/-- No value comes before nothing. -/
theorem compareValues_of_null (v : Value) :
    ∃ o, compareValues v .null = .ok o ∧ (o == .lt) = false := by
  refine ⟨compare (!v.isNull).toNat 0, ?_, ?_⟩
  · unfold compareValues
    cases v.isNull <;> rfl
  · cases v.isNull <;> rfl

/-- Integers are compared by size. -/
theorem compareValues_integer {v w : Value} (hv : v = .null ∨ ∃ n, v.index? = some n)
    (hw : w = .null ∨ ∃ n, w.index? = some n) :
    ∃ o, compareValues v w = .ok o ∧ (o == .lt) = decide (integerRank v < integerRank w) := by
  obtain rfl | ⟨n, hn⟩ := hw
  · have hnone : ¬ integerRank v < integerRank .null := not_lt_bot
    rw [decide_eq_false hnone]
    exact compareValues_of_null v
  have hrank : integerRank w = (n : WithBot Int) := hn
  obtain rfl | ⟨m, hm⟩ := hv
  · have hfirst : integerRank .null < integerRank w := hrank ▸ WithBot.bot_lt_coe n
    have hnull := compareValues_null w
    rwa [isNull_integer hn, Bool.not_false, ← decide_eq_true hfirst] at hnull
  · have hrank' : integerRank v = (m : WithBot Int) := hm
    have hboth : ¬(decide (m < n) = true ∧ decide (n < m) = true) := by
      simp only [decide_eq_true_eq]
      omega
    simp only [hrank, hrank', WithBot.coe_lt_coe]
    exact compareValues_of_less (isNull_integer hm) (isNull_integer hn) (less?_integer hm hn)
      (less?_integer hn hm) hboth

/-- Texts are compared by their characters. -/
theorem compareValues_text {v w : Value} (hv : v = .null ∨ ∃ s, v = .text s)
    (hw : w = .null ∨ ∃ s, w = .text s) :
    ∃ o, compareValues v w = .ok o ∧ (o == .lt) = decide (textRank v < textRank w) := by
  obtain rfl | ⟨t, rfl⟩ := hw
  · have hnone : ¬ textRank v < textRank .null := not_lt_bot
    rw [decide_eq_false hnone]
    exact compareValues_of_null v
  have hrank : textRank (.text t) = (t : WithBot String) := rfl
  obtain rfl | ⟨s, rfl⟩ := hv
  · have hfirst : textRank .null < textRank (.text t) := WithBot.bot_lt_coe t
    rw [decide_eq_true hfirst]
    exact compareValues_null (.text t)
  · have hrank' : textRank (.text s) = (s : WithBot String) := rfl
    have hboth : ¬(decide (s < t) = true ∧ decide (t < s) = true) := by
      simp only [decide_eq_true_eq]
      exact fun h => h.1.not_gt h.2
    simp only [hrank, hrank', WithBot.coe_lt_coe]
    exact compareValues_of_less rfl rfl (by rw [Value.less?]) (by rw [Value.less?]) hboth

/-- Integers are equal as values if they are the same number. -/
theorem equal_index {v w : Value} {m n : Int} (hv : v.index? = some m) (hw : w.index? = some n) :
    v.equal w = decide (n = m) := by
  have hequal : Value.Numeric.equal (.whole m) (.whole n) = decide (n = m) := by
    rw [Bool.eq_iff_iff, decide_eq_true_eq, Value.Numeric.equal, beq_iff_eq, eq_comm]
  cases v with
  | int k =>
    obtain rfl := Option.some.inj hv
    simpa [Value.equal, numeric?_integer hw] using hequal
  | bool b =>
    obtain rfl := Option.some.inj hv
    simpa [Value.equal, numeric?_integer hw] using hequal
  | _ => contradiction

/-- Nothing is equal to nothing only. -/
theorem equal_null (w : Value) : Value.null.equal w = w.isNull := by
  cases w <;> simp [Value.equal, Value.isNull]

/-- Only nothing is equal to nothing. -/
theorem equal_of_null (v : Value) : v.equal .null = v.isNull := by
  cases v <;> simp [Value.equal, Value.isNull, Value.numeric?]

/-- Nothings and integers are equal where they have one rank. -/
theorem equal_integer {v w : Value} (hv : v = .null ∨ ∃ n, v.index? = some n)
    (hw : w = .null ∨ ∃ n, w.index? = some n) :
    v.equal w = decide (integerRank w = integerRank v) := by
  have hrank : ∀ {u : Value} {k : Int}, u.index? = some k → integerRank u = (k : WithBot Int) :=
    fun hu => hu
  obtain rfl | ⟨n, hn⟩ := hw
  · rw [equal_of_null]
    obtain rfl | ⟨m, hm⟩ := hv
    · exact (decide_eq_true rfl).symm
    · rw [isNull_integer hm, hrank hm]
      exact (decide_eq_false WithBot.bot_ne_coe).symm
  obtain rfl | ⟨m, hm⟩ := hv
  · rw [equal_null, isNull_integer hn, hrank hn]
    exact (decide_eq_false WithBot.coe_ne_bot).symm
  · simp only [hrank hm, hrank hn, WithBot.coe_inj, equal_index hm hn]

/-- Nothings and texts are equal where they have one rank. -/
theorem equal_text {v w : Value} (hv : v = .null ∨ ∃ s, v = .text s)
    (hw : w = .null ∨ ∃ s, w = .text s) :
    v.equal w = decide (textRank w = textRank v) := by
  have hrank : ∀ s : String, textRank (.text s) = (s : WithBot String) := fun _ => rfl
  obtain rfl | ⟨t, rfl⟩ := hw
  · rw [equal_of_null]
    obtain rfl | ⟨s, rfl⟩ := hv
    · exact (decide_eq_true rfl).symm
    · rw [hrank]
      exact (decide_eq_false WithBot.bot_ne_coe).symm
  obtain rfl | ⟨s, rfl⟩ := hv
  · rw [equal_null, hrank]
    exact (decide_eq_false WithBot.coe_ne_bot).symm
  · simp only [hrank, WithBot.coe_inj, Value.equal]
    rw [Bool.eq_iff_iff, beq_iff_eq, decide_eq_true_eq, eq_comm]

/-- Values have ranks, and the comparison of values, their equality and the order in which they
come are those of their ranks. -/
structure Ranked {β : Type} [LinearOrder β] (rank : Value → β) (values : List Value) : Prop where
  /-- Values are compared by their ranks. -/
  compare : ∀ v ∈ values, ∀ w ∈ values,
    ∃ o, compareValues v w = .ok o ∧ (o == .lt) = decide (rank v < rank w)
  /-- Values of one rank are equal. -/
  equal : ∀ v ∈ values, ∀ w ∈ values, v.equal w = decide (rank w = rank v)
  /-- Values come in the order of their ranks. -/
  atMost : ∀ v ∈ values, ∀ w ∈ values, rank v ≤ rank w → v.AtMost w

/-- Integers and nothings have ranks. -/
theorem ranked_integer {values : List Value}
    (h : ∀ v ∈ values, v = .null ∨ ∃ n, v.index? = some n) : Ranked integerRank values where
  compare v hv w hw := compareValues_integer (h v hv) (h w hw)
  equal v hv w hw := equal_integer (h v hv) (h w hw)
  atMost v hv w hw hle := by
    obtain rfl | ⟨m, hm⟩ := h v hv
    · exact .null w
    have hrank : integerRank v = (m : WithBot Int) := hm
    obtain rfl | ⟨n, hn⟩ := h w hw
    · rw [hrank] at hle
      exact absurd hle (WithBot.not_coe_le_bot m)
    · have hrank' : integerRank w = (n : WithBot Int) := hn
      rw [hrank, hrank', WithBot.coe_le_coe] at hle
      exact .integer hm hn hle

/-- Texts and nothings have ranks. -/
theorem ranked_text {values : List Value}
    (h : ∀ v ∈ values, v = .null ∨ ∃ s, v = .text s) : Ranked textRank values where
  compare v hv w hw := compareValues_text (h v hv) (h w hw)
  equal v hv w hw := equal_text (h v hv) (h w hw)
  atMost v hv w hw hle := by
    obtain rfl | ⟨s, rfl⟩ := h v hv
    · exact .null w
    obtain rfl | ⟨t, rfl⟩ := h w hw
    · exact absurd hle (WithBot.not_coe_le_bot s)
    · exact .text (WithBot.coe_le_coe.mp hle)

end Values

section Filter

/-- Whether every predicate holds on an item. One that does not answer does not hold. -/
def admits (filter : Keyed Predicate) (item : Value) : Bool :=
  filter.all fun e =>
    match e.2.test (item.field e.1) with
    | .ok holds => holds
    | .error _ => false

/-- Predicates answer on an item, tried in order until one does not hold. -/
def AnswersOn (filter : Keyed Predicate) (item : Value) : Prop :=
  ∀ earlier name p later, filter = earlier ++ (name, p) :: later → admits earlier item = true →
    ∃ holds, p.test (item.field name) = .ok holds

/-- Predicates that answer on an item whichever of them is tried do so in order. -/
theorem AnswersOn.of_test {filter : Keyed Predicate} {item : Value}
    (h : ∀ e ∈ filter, ∃ holds, e.2.test (item.field e.1) = .ok holds) :
    AnswersOn filter item :=
  fun _ name p _ hsplit _ => h (name, p) (by rw [hsplit]; simp)

/-- Where predicates answer they hold or do not. -/
theorem holdsAll_admits {filter : Keyed Predicate} {item : Value} (h : AnswersOn filter item) :
    holdsAll (fun item name => Value.fieldOf name item) item filter =
      .ok (admits filter item) := by
  induction filter with
  | nil => rfl
  | cons e rest ih =>
    obtain ⟨name, p⟩ := e
    obtain ⟨holds, hholds⟩ := h [] name p rest rfl rfl
    have hfield : Value.fieldOf (.text name) item = .ok (item.field name) := rfl
    cases holds with
    | false => simp [holdsAll, hfield, admits, hholds, bind, Except.bind]
    | true =>
      have hrest : AnswersOn rest item := by
        intro earlier name' p' later hsplit hearlier
        refine h ((name, p) :: earlier) name' p' later (by rw [hsplit]; rfl) ?_
        simpa [admits, hholds] using hearlier
      have hih := ih hrest
      simp only [holdsAll, hfield, hholds, bind, Except.bind, if_pos]
      rw [hih]
      simp [admits, hholds]

/-- The members on which predicates hold are kept as they came. -/
theorem keepMatching_admits {filter : Keyed Predicate} {items : List Value}
    (h : ∀ item ∈ items, AnswersOn filter item) :
    keepMatching (fun item name => Value.fieldOf name item) filter items =
      .ok (items.filter (admits filter)) := by
  induction items with
  | nil => rfl
  | cons item rest ih =>
    have hrest := ih fun other hother => h other (List.mem_cons_of_mem item hother)
    rw [keepMatching, holdsAll_admits (h item List.mem_cons_self), hrest, List.filter_cons]
    rfl

end Filter

section Portion

/-- The count that a bound gives. -/
def Bound.count : Bound → Nat
  | whole n => n
  | flag b => b.toNat
  | real _ => 0

/-- A bound that is not a floating-point number amounts to its count. -/
theorem Bound.amount_value {b : Bound} (h : ∀ x, b ≠ .real x) :
    b.value.amount = .whole (b.count : Nat) := by
  cases b with
  | whole n => rfl
  | flag b => cases b <;> rfl
  | real x => exact absurd rfl (h x)

/-- The bounds of a window are counts of members. -/
def Window.Counts (w : Window) : Prop :=
  ∀ x, w.limit ≠ some (.real x) ∧ w.offset ≠ some (.real x)

/-- The members from the offset of a window on, as many as its limit allows. -/
def Window.portion {α : Type} (w : Window) (all : List α) : List α :=
  match w.limit with
  | none => all.drop (w.offset.elim 0 Bound.count)
  | some limit => (all.drop (w.offset.elim 0 Bound.count)).take limit.count

/-- A window of counts cuts out a portion. -/
theorem Window.cut_portion {α : Type} {w : Window} (h : w.Counts) (all : List α) :
    w.cut all = .ok (w.portion all) := by
  obtain ⟨hlimit, hoffset⟩ := forall_and.mp h
  obtain ⟨first, hfirst, hamount, hindex⟩ : ∃ v : Value,
      ((w.offset.filter Bound.isNonzero).map Bound.value).getD (.int 0) = v ∧
      v.amount = .whole (w.offset.elim 0 Bound.count : Nat) ∧
      v.index? = some ((w.offset.elim 0 Bound.count : Nat) : Int) := by
    refine ⟨_, rfl, ?_⟩
    cases ho : w.offset with
    | none => exact ⟨rfl, rfl⟩
    | some offset =>
      cases offset with
      | whole n => cases n <;> exact ⟨rfl, rfl⟩
      | flag b => cases b <;> exact ⟨rfl, rfl⟩
      | real x => exact absurd ho (hoffset x)
  unfold cut portion
  simp only [hfirst]
  cases hl : w.limit with
  | none =>
    have hdrop : ∀ n : Nat, all.drop (Value.clampIndex all.length n) = all.drop n := by
      intro n
      have hclamp : Value.clampIndex all.length n = min n all.length := by
        unfold Value.clampIndex
        rw [if_neg (by omega)]
        omega
      rw [hclamp]
      rcases Nat.le_total n all.length with hn | hn
      · rw [Nat.min_eq_left hn]
      · rw [Nat.min_eq_right hn, List.drop_length, List.drop_of_length_le hn]
    simp only [Value.stretch, hindex, hdrop]
  | some limit =>
    have hlast := Bound.amount_value fun x hreal => hlimit x (hl.trans (congrArg some hreal))
    have hsum : Value.amountSum first limit.value =
        .ok (.int (w.offset.elim 0 Bound.count + limit.count : Nat)) := by
      unfold Value.amountSum
      rw [hamount, hlast]
      rfl
    have hstop : ∀ n : Int, (Value.int n).index? = some n := fun _ => rfl
    simp only [hsum, Value.stretch, hindex, hstop, bind, Except.bind]
    rw [Resource.Stretch.slice_counts]

end Portion

section Apply

/-- The value of an item that an order goes by, nothing where it cannot be read. -/
def Order.valueOf (order : Order) (item : Value) : Value :=
  (Value.fieldOf order.field item).toOption.getD .null

namespace Order

/-- Whether the value of one item precedes that of another one. -/
def precedes (order : Order) (a b : Value) : Outcome Bool := do
  let v ← Value.fieldOf order.field a
  let w ← Value.fieldOf order.field b
  let o ← compareValues v w
  .ok (o == .lt)

/-- Items can be put in order whose values can be read and compared. -/
theorem exists_precedes (order : Order) {a b : Value}
    (ha : ∃ v, Value.fieldOf order.field a = .ok v) (hb : ∃ v, Value.fieldOf order.field b = .ok v)
    (h : ∃ o, compareValues (order.valueOf a) (order.valueOf b) = .ok o) :
    ∃ r, order.precedes a b = .ok r := by
  obtain ⟨v, hv⟩ := ha
  obtain ⟨w, hw⟩ := hb
  obtain ⟨o, ho⟩ := h
  rw [valueOf, valueOf, hv, hw] at ho
  exact ⟨_, bind_eq_ok.mpr ⟨v, hv, bind_eq_ok.mpr ⟨w, hw, bind_eq_ok.mpr ⟨o, ho, rfl⟩⟩⟩⟩

variable {order : Order} {kept : List Value}

/-- Items whose values have ranks are put in the order of their values, and those of equal values
stay as they came. -/
theorem sort_of_ranked {β : Type} [LinearOrder β] {rank : Value → β}
    (hread : ∀ item ∈ kept, ∃ v, Value.fieldOf order.field item = .ok v)
    (hrank : Ranked rank (kept.map order.valueOf)) :
    ∃ all, sortToward order.precedes order.direction kept = .ok all ∧ all.Perm kept ∧
      (order.direction = .ascending →
        all.Pairwise fun a b => (order.valueOf a).AtMost (order.valueOf b)) ∧
      (order.direction = .descending →
        all.Pairwise fun a b => (order.valueOf b).AtMost (order.valueOf a)) ∧
      ∀ z ∈ kept, all.filter (fun x => (order.valueOf z).equal (order.valueOf x)) =
        kept.filter fun x => (order.valueOf z).equal (order.valueOf x) := by
  have hfield : ∀ item ∈ kept, Value.fieldOf order.field item = .ok (order.valueOf item) := by
    intro item hitem
    obtain ⟨v, hv⟩ := hread item hitem
    unfold valueOf
    rw [hv]
    rfl
  have hmem : ∀ item ∈ kept, order.valueOf item ∈ kept.map order.valueOf :=
    fun item hitem => List.mem_map_of_mem hitem
  have hprecedes : ∀ a ∈ kept, ∀ b ∈ kept, order.precedes a b =
      .ok (decide (rank (order.valueOf a) < rank (order.valueOf b))) := by
    intro a ha b hb
    obtain ⟨o, ho, hlt⟩ := hrank.compare _ (hmem a ha) _ (hmem b hb)
    rw [← hlt]
    exact bind_eq_ok.mpr ⟨_, hfield a ha, bind_eq_ok.mpr ⟨_, hfield b hb,
      bind_eq_ok.mpr ⟨o, ho, rfl⟩⟩⟩
  obtain ⟨all, hall, hasc, hdesc, hstable⟩ :=
    sortToward_rank (fun item => rank (order.valueOf item)) hprecedes order.direction
  have hperm := sortToward_perm hall
  have hin : ∀ x ∈ all, order.valueOf x ∈ kept.map order.valueOf :=
    fun x hx => hmem x (hperm.mem_iff.mp hx)
  refine ⟨all, hall, hperm, fun h => ?_, fun h => ?_, fun z hz => ?_⟩
  · exact (hasc h).imp_of_mem fun ha hb hle => hrank.atMost _ (hin _ ha) _ (hin _ hb) hle
  · exact (hdesc h).imp_of_mem fun ha hb hle => hrank.atMost _ (hin _ hb) _ (hin _ ha) hle
  · have hequal : ∀ x ∈ kept, (order.valueOf z).equal (order.valueOf x) =
        decide (rank (order.valueOf x) = rank (order.valueOf z)) :=
      fun x hx => hrank.equal _ (hmem z hz) _ (hmem x hx)
    rw [List.filter_congr fun x hx => hequal x (hperm.mem_iff.mp hx), List.filter_congr hequal]
    exact hstable (rank (order.valueOf z))

/-- Items whose values are of one kind are put in the order of their values, and those of equal
values stay as they came. -/
theorem sort_of_oneKind (hread : ∀ item ∈ kept, ∃ v, Value.fieldOf order.field item = .ok v)
    (hkind : Value.OneKind (kept.map order.valueOf)) :
    ∃ all, sortToward order.precedes order.direction kept = .ok all ∧ all.Perm kept ∧
      (order.direction = .ascending →
        all.Pairwise fun a b => (order.valueOf a).AtMost (order.valueOf b)) ∧
      (order.direction = .descending →
        all.Pairwise fun a b => (order.valueOf b).AtMost (order.valueOf a)) ∧
      ∀ z ∈ kept, all.filter (fun x => (order.valueOf z).equal (order.valueOf x)) =
        kept.filter fun x => (order.valueOf z).equal (order.valueOf x) := by
  rcases hkind with hinteger | htext
  · exact sort_of_ranked hread (ranked_integer hinteger)
  · exact sort_of_ranked hread (ranked_text htext)

end Order

namespace State

/-- The portion that the window of a state cuts out, or everything. -/
def portion {α : Type} (s : State) (all : List α) : List α :=
  s.window.elim all fun w => w.portion all

/-- What is selected of the items that are kept, once these are in order, is the portion that the
window cuts out. -/
theorem apply_of_sorted {s : State} {items kept all : List Value}
    (hkept : keepMatching (fun item name => Value.fieldOf name item) s.filter items = .ok kept)
    (hplain : s.sort = none → all = kept)
    (hsorted : ∀ order, s.sort = some order → sortToward order.precedes order.direction kept =
      .ok all)
    (hwindow : ∀ w, s.window = some w → w.Counts) : s.apply items = .ok (s.portion all) := by
  refine bind_eq_ok.mpr ⟨kept, hkept, ?_⟩
  unfold portion
  cases hw : s.window with
  | none =>
    cases hs : s.sort with
    | none => exact congrArg Except.ok (hplain hs).symm
    | some order => exact bind_eq_ok.mpr ⟨all, hsorted order hs, rfl⟩
  | some w =>
    have hcut := Window.cut_portion (hwindow w hw) all
    cases hs : s.sort with
    | none => exact hplain hs ▸ hcut
    | some order => exact bind_eq_ok.mpr ⟨all, hsorted order hs, hcut⟩

/-- An entry with a title and a rank. -/
def entry (title : String) (rank : Value) : Value :=
  .mapping [("title", .text title), ("rank", rank)]

end State

end Apply

end Query

end ResourceAtlas

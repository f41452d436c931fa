import ResourceAtlas.Proofs.Address.Lexed
import ResourceAtlas.Proofs.Outcome

/-!
# What a query asks can be written

A floating-point number that was read is below the least count that no finite number reaches, so that
its digits can be written when it is an integer. All that a query that was read asks for can be
written, then.
-/

namespace ResourceAtlas

open Address Number Query Text

namespace Number

/-- A number that is no finite one, or in the range of finite ones. -/
def Binary64.Bounded (x : Binary64) : Prop :=
  ∀ s u, x = .finite s u → u < limit

/-- A power of two is positive. -/
theorem pow_two_pos (n : Nat) : 0 < Nat.pow 2 n :=
  Nat.two_pow_pos n

/-- What is below a power of two is below a lower one once it is divided by the rest. -/
theorem div_pow_two_lt {m n k u : Nat} (hk : k = m + n) (h : u < Nat.pow 2 k) :
    u / Nat.pow 2 n < Nat.pow 2 m := by
  subst hk
  refine Nat.div_lt_of_lt_mul ?_
  rw [Nat.mul_comm]
  exact (Nat.pow_add 2 m n) ▸ h

/-- The magnitude of a count does not depend on its sign. -/
theorem Binary64.natAbs_signed (negative : Bool) (units : Nat) :
    (signed negative units).natAbs = units := by
  unfold signed
  split
  · rw [Int.natAbs_neg, Int.natAbs_natCast]
  · rw [Int.natAbs_natCast]

/-- A ratio of units is rounded into the range. -/
theorem Binary64.bounded_ofUnits (negative : Bool) (num den : Nat) :
    (ofUnits negative num den).Bounded := by
  intro s u h
  unfold ofUnits at h
  dsimp only at h
  split at h
  · exact (nomatch h)
  · next hlimit =>
    obtain ⟨-, rfl⟩ := Binary64.finite.inj h
    exact Nat.lt_of_not_le hlimit

/-- Zero is in the range. -/
theorem Binary64.bounded_zero (negative : Bool) : (finite negative 0).Bounded := by
  intro s u h
  obtain ⟨-, rfl⟩ := Binary64.finite.inj h
  unfold limit
  generalize 2098 = n
  exact pow_two_pos n

/-- A decimal is rounded into the range. -/
theorem Binary64.bounded_ofDecimal (negative : Bool) (coefficient : Nat) (exponent : Int) :
    (ofDecimal negative coefficient exponent).Bounded := by
  unfold ofDecimal
  dsimp only
  split
  · exact bounded_zero negative
  · split
    · exact fun s u h => (nomatch h)
    · split
      · exact bounded_zero negative
      · split <;> exact bounded_ofUnits _ _ _

/-- A number that is read is in the range. -/
theorem Numeral.bounded_readFloat? (text : List Char) : ((readFloat? text).getD .nan).Bounded := by
  cases h : readFloat? text with
  | none => exact fun s u hu => (nomatch hu)
  | some x =>
    unfold readFloat? at h
    dsimp only at h
    split at h
    · next word hword =>
      obtain rfl := Option.some.inj h
      unfold readWord? at hword
      dsimp only at hword
      split at hword
      · obtain rfl := Option.some.inj hword
        exact fun s u hu => (nomatch hu)
      · split at hword
        · obtain rfl := Option.some.inj hword
          exact fun s u hu => (nomatch hu)
        · exact (nomatch hword)
    · split at h <;> split at h
      · exact (nomatch h)
      · obtain ⟨e, -, rfl⟩ := Option.map_eq_some_iff.mp h
        exact Binary64.bounded_ofDecimal _ _ _
      · exact (nomatch h)
      · obtain ⟨e, -, rfl⟩ := Option.map_eq_some_iff.mp h
        exact Binary64.bounded_ofDecimal _ _ _

/-- An integer in the range of finite numbers can be written. -/
theorem Binary64.Bounded.isSome_intText {x : Binary64} (h : x.Bounded) {n : Int}
    (hn : x.toInt? = some n) : (Numeral.intText? n).isSome := by
  rw [Numeral.intText?_isSome_iff]
  cases x with
  | finite s u =>
    rw [toInt?] at hn
    split at hn
    · obtain rfl := Option.some.inj hn
      obtain ⟨m, hm⟩ : ∃ m, m = 1024 := ⟨_, rfl⟩
      have hquotient : u / one < Nat.pow 2 m := by
        have hunits := h s u rfl
        unfold limit at hunits
        unfold one
        generalize hk : 2098 = k at hunits
        generalize hn : 1074 = n
        exact div_pow_two_lt (by omega) hunits
      have hmax : m ≤ Numeral.maxDigits := by
        rw [hm]
        decide
      have hdigits : Nat.pow 2 m ≤ 10 ^ Numeral.maxDigits :=
        le_trans (Nat.pow_le_pow_left (by decide) m) (Nat.pow_le_pow_right (by decide) hmax)
      rw [natAbs_signed]
      exact lt_of_lt_of_le hquotient hdigits
    · cases hn
  | nan => cases hn
  | infinite s => cases hn

end Number

namespace Address

/-- An operand that was read can be written. -/
theorem exists_operandText (op : Operator) (given : String) :
    ∃ text, op.operandText (op.parse given) = .ok text := by
  by_cases hnum : op.IsNumeric
  · rw [Operator.parse_of_isNumeric hnum, Operator.operandText_of_isNumeric hnum]
    unfold Operator.numberText
    dsimp only
    split
    · next n hn =>
      obtain ⟨digits, hdigits⟩ :=
        Option.isSome_iff_exists.mp ((Numeral.bounded_readFloat? given.toList).isSome_intText hn)
      exact ⟨String.ofList digits, by rw [Value.intString?, hdigits]; rfl⟩
    · exact ⟨_, rfl⟩
  · rw [Operator.parse_of_not_isNumeric hnum, Operator.operandText_of_not_isNumeric hnum]
    exact ⟨_, rfl⟩

/-- Predicates can all be written if each of them can. -/
theorem exists_predicateTexts_iff {filter : Keyed Predicate} :
    (∃ texts, (filter.mapM fun e => State.predicateText e.1 e.2) = .ok texts) ↔
      ∀ e ∈ filter, ∃ text, e.2.operator.operandText e.2.operand = .ok text := by
  induction filter with
  | nil => exact ⟨fun _ e he => absurd he List.not_mem_nil, fun _ => ⟨[], rfl⟩⟩
  | cons e rest ih =>
    rw [List.forall_mem_cons, ← ih, List.mapM_cons]
    constructor
    · rintro ⟨all, hall⟩
      obtain ⟨text, htext, hall⟩ := bind_eq_ok.mp hall
      obtain ⟨texts, htexts, -⟩ := bind_eq_ok.mp hall
      obtain ⟨operand, hoperand, -⟩ := bind_eq_ok.mp htext
      exact ⟨⟨operand, hoperand⟩, texts, htexts⟩
    · rintro ⟨⟨operand, hoperand⟩, texts, htexts⟩
      refine ⟨(clauseKey e.1 e.2.operator ++ "=" ++ operand) :: texts, ?_⟩
      rw [predicateText_eq hoperand, htexts]
      rfl

/-- Fields to fill in can be listed if each of them is a text. -/
theorem exists_expandText_iff {fields : List Value} :
    (∃ texts, State.expandText fields = .ok texts) ↔ ∀ v ∈ fields, ∃ name, v = .text name := by
  have hlisted : ∀ index, (∃ names, State.fieldTexts index fields = .ok names) ↔
      ∀ v ∈ fields, ∃ name, v = .text name := by
    induction fields with
    | nil => exact fun _ => ⟨fun _ v hv => absurd hv List.not_mem_nil, fun _ => ⟨[], rfl⟩⟩
    | cons v rest ih =>
      intro index
      rw [List.forall_mem_cons, ← ih (index + 1)]
      cases v with
      | text name =>
        rw [State.fieldTexts]
        constructor
        · rintro ⟨all, hall⟩
          obtain ⟨names, hnames, -⟩ := map_eq_ok.mp hall
          exact ⟨⟨name, rfl⟩, names, hnames⟩
        · rintro ⟨-, names, hnames⟩
          exact ⟨name :: names, map_eq_ok.mpr ⟨names, hnames, rfl⟩⟩
      | _ =>
        constructor
        · rintro ⟨names, h⟩
          cases h
        · rintro ⟨⟨name, h⟩, -⟩
          cases h
  unfold State.expandText
  cases fields with
  | nil => exact ⟨fun _ v hv => absurd hv List.not_mem_nil, fun _ => ⟨[], rfl⟩⟩
  | cons v rest =>
    rw [← hlisted 0, List.isEmpty_cons, if_neg Bool.false_ne_true]
    constructor
    · rintro ⟨texts, htexts⟩
      obtain ⟨names, hnames, -⟩ := map_eq_ok.mp htexts
      exact ⟨names, hnames⟩
    · rintro ⟨names, hnames⟩
      exact ⟨_, map_eq_ok.mpr ⟨names, hnames, rfl⟩⟩

/-- A field to fill in was there before or is one of those added. -/
theorem mem_of_mem_addFields {names fields : List Value} {v : Value}
    (h : v ∈ names.foldl State.addField fields) : v ∈ fields ∨ v ∈ names := by
  induction names generalizing fields with
  | nil => exact .inl h
  | cons name rest ih =>
    rcases ih h with hmem | hmem
    · unfold State.addField at hmem
      split at hmem
      · exact .inl hmem
      · rcases List.mem_append.mp hmem with hmem | hmem
        · exact .inl hmem
        · exact .inr (List.mem_cons.mpr (.inl (List.mem_singleton.mp hmem)))
    · exact .inr (List.mem_cons_of_mem name hmem)

end Address

namespace Query

/-- A state every part of which can be written. -/
structure State.Writable (s : State) : Prop where
  /-- The operands can be written. -/
  filter : ∀ e ∈ s.filter, ∃ text, e.2.operator.operandText e.2.operand = .ok text
  /-- The order can be written. -/
  sort : ∃ texts, State.orderText s.sort = .ok texts
  /-- The window can be written. -/
  window : ∃ texts, windowText s.window = .ok texts
  /-- The fields to fill in have names. -/
  expand : ∀ v ∈ s.expand, ∃ name, v = .text name

/-- A state has a text exactly if every part of it can be written. -/
theorem State.writable_iff {s : State} : s.Writable ↔ ∃ text, s.text = .ok text := by
  constructor
  · intro h
    obtain ⟨filters, hfilters⟩ := exists_predicateTexts_iff.mpr h.filter
    obtain ⟨sort, hsort⟩ := h.sort
    obtain ⟨window, hwindow⟩ := h.window
    obtain ⟨expand, hexpand⟩ := exists_expandText_iff.mpr h.expand
    refine ⟨_, bind_eq_ok.mpr ⟨filters ++ sort ++ window ++ expand, ?_, rfl⟩⟩
    rw [parts_eq, hfilters, hsort, hwindow, hexpand]
    rfl
  · rintro ⟨text, htext⟩
    obtain ⟨all, hall, -⟩ := bind_eq_ok.mp htext
    rw [parts_eq] at hall
    obtain ⟨filters, hfilters, hall⟩ := bind_eq_ok.mp hall
    obtain ⟨sort, hsort, hall⟩ := bind_eq_ok.mp hall
    obtain ⟨window, hwindow, hall⟩ := bind_eq_ok.mp hall
    obtain ⟨expand, hexpand, -⟩ := bind_eq_ok.mp hall
    exact ⟨exists_predicateTexts_iff.mp ⟨filters, hfilters⟩, ⟨sort, hsort⟩, ⟨window, hwindow⟩,
      exists_expandText_iff.mp ⟨expand, hexpand⟩⟩

/-- Nothing is asked, and that can be written. -/
theorem State.writable_empty : State.empty.Writable :=
  State.writable_iff.mpr ⟨"", rfl⟩

end Query

namespace Address

/-- A window of counts that can be written can be written. -/
theorem Request.Countable.exists_windowText {r : Request} (h : r.Countable) :
    ∃ texts, windowText r.window = .ok texts := by
  have hbound : ∀ (name : String) (n : Option Nat), (∀ m, n = some m → WritableCount m) →
      ∃ texts, State.boundText name (n.map Bound.whole) = .ok texts := by
    intro name n hn
    cases n with
    | none => exact ⟨[], rfl⟩
    | some n =>
      obtain ⟨digits, hdigits⟩ := Option.isSome_iff_exists.mp (hn n rfl)
      have hwritten : writable (Value.int n).string? = .ok (String.ofList digits) := by
        change writable ((Numeral.intText? n).map String.ofList) = _
        rw [hdigits]
        rfl
      exact ⟨_, bind_eq_ok.mpr ⟨_, hwritten, rfl⟩⟩
  unfold Request.window
  split
  · exact ⟨[], rfl⟩
  · obtain ⟨limit, hlimit⟩ := hbound "limit" r.limit h.limit
    obtain ⟨offset, hoffset⟩ := hbound "offset" r.offset h.offset
    exact ⟨_, bind_eq_ok.mpr ⟨limit, hlimit, bind_eq_ok.mpr ⟨offset, hoffset, rfl⟩⟩⟩

/-- What a query that was read asks for can be written, beside whatever can be written already. -/
theorem Request.Countable.writable {r : Request} (h : r.Countable) {s : State} (hs : s.Writable) :
    (r.apply s).Writable := by
  have hfilter : ∀ t : State, t.Writable →
      (if r.filters.isEmpty then t else t.withFilter r.predicates).Writable := by
    intro t ht
    split
    · exact ht
    · refine ⟨fun e he => ?_, ht.sort, ht.window, ht.expand⟩
      rcases Keyed.mem_of_mem_merge he with he | he
      · exact ht.filter e he
      · obtain ⟨c, -, rfl⟩ := List.mem_map.mp (Keyed.mem_of_mem_ofList he)
        exact exists_operandText c.operator c.operand
  have hsort : ∀ t : State, t.Writable →
      (if r.order.isNone then t else t.withSort (r.order.map OrderClause.order)).Writable := by
    intro t ht
    split
    · exact ht
    · refine ⟨ht.filter, ?_, ht.window, ht.expand⟩
      show ∃ texts, State.orderText (r.order.map OrderClause.order) = .ok texts
      cases r.order with
      | none => exact ⟨[], rfl⟩
      | some c => exact ⟨_, rfl⟩
  have hwindow : ∀ t : State, t.Writable →
      (if r.window.isNone then t else t.withWindow r.window).Writable := by
    intro t ht
    split
    · exact ht
    · exact ⟨ht.filter, ht.sort, h.exists_windowText, ht.expand⟩
  have hexpand : ∀ t : State, t.Writable →
      (if r.expand.isEmpty then t else t.withExpand (r.expand.map .text)).Writable := by
    intro t ht
    split
    · exact ht
    · refine ⟨ht.filter, ht.sort, ht.window, fun v hv => ?_⟩
      rcases mem_of_mem_addFields hv with hv | hv
      · exact ht.expand v hv
      · obtain ⟨name, -, rfl⟩ := List.mem_map.mp hv
        exact ⟨name, rfl⟩
  exact hexpand _ (hwindow _ (hsort _ (hfilter _ hs)))

/-- A query that was read asks for what can be written. -/
theorem Request.Countable.exists_text {r : Request} (h : r.Countable) :
    ∃ text, (r.apply .empty).text = .ok text :=
  State.writable_iff.mp (h.writable State.writable_empty)

end Address

end ResourceAtlas

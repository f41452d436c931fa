import ResourceAtlas.Proofs.Address.QueryText
import ResourceAtlas.Proofs.Number.Nearest
import ResourceAtlas.Proofs.Query.Shown

/-!
# Legible queries

A state is legible when its text is read as a request that shows what the state shows. The operand of
an equality has to be a text for that, since a text is what is read. A search reads a text as well,
but no other operand is found in any field. A comparison of numbers reads numbers, so that integers
and whatever is no number survive; a text that is compared as a number is written as it is and must
not part the query.
-/

namespace ResourceAtlas.Query

open Address Number Text

/-- A predicate whose operand is read back from a query as one that answers wherever it does. -/
inductive Predicate.Legible : Predicate → Prop
  /-- A text that fields are compared with as texts. -/
  | text {op : Operator} (s : String) (h : ¬ op.IsNumeric) : Legible ⟨op, .text s⟩
  /-- Something else that is searched for. -/
  | search {op : Operator} {v : Value} (hop : op = .contains ∨ op = .startsWith)
      (htext : ∀ s, v ≠ .text s) (htuple : ∀ items, v ≠ .tuple items) (hs : v.string?.isSome) :
      Legible ⟨op, v⟩
  /-- An integer that can be written. -/
  | int {op : Operator} {n : Int} (h : op.IsNumeric) (hn : (Numeral.intText? n).isSome) :
      Legible ⟨op, .int n⟩
  /-- A floating-point number that survives being written. -/
  | real {op : Operator} {x : Binary64} (h : op.IsNumeric) (hx : StableNumber x) :
      Legible ⟨op, .float x⟩
  /-- What no number is above or below. -/
  | unordered {op : Operator} {v : Value} (h : op.IsNumeric)
      (hv : v ∈ [.null, .bool false, .bool true, .float .nan]) : Legible ⟨op, v⟩
  /-- A text that fields are compared with as numbers and that parts no query. -/
  | numeral {op : Operator} {s : String} (h : op.IsNumeric)
      (hs : ∀ c ∈ ['/', '&', '%'], c ∉ s.toList) : Legible ⟨op, .text s⟩

/-- A state whose text can be read back. -/
structure State.Legible (s : State) : Prop where
  /-- The fields of comparisons are read from their keys. -/
  fields : ∀ e ∈ s.filter, KeyName e.1 e.2.operator
  /-- The operands can be read back. -/
  operands : ∀ e ∈ s.filter, e.2.Legible
  /-- The order is by a field that can be written. -/
  order : ∀ o, s.sort = some o → ∃ field, o.field = .text field ∧ OrderName field
  /-- The window has counts that can be written. -/
  window : ∀ w, s.window = some w → ∃ limit offset, w = .ofCounts limit offset ∧
    (∀ n, limit = some n → WritableCount n) ∧ ∀ n, offset = some n → WritableCount n
  /-- The fields to fill in have names that can be listed. -/
  expand : ∃ names : List String, s.expand = names.map .text ∧ ∀ n ∈ names, ListedName n

namespace Predicate

/-- Comparisons with operands that are one number answer alike. -/
theorem covers_of_toReal {op : Operator} (h : op.IsNumeric) {v w : Value}
    (hreal : ∀ x, Operator.toReal v = .ok x → Operator.toReal w = .ok x) :
    Covers ⟨op, w⟩ ⟨op, v⟩ := by
  intro item b hb
  rcases h with rfl | rfl
  · obtain ⟨x, hx, hb⟩ := bind_eq_ok.mp hb
    obtain ⟨y, hy, hb⟩ := bind_eq_ok.mp hb
    exact bind_eq_ok.mpr ⟨x, hx, bind_eq_ok.mpr ⟨y, hreal y hy, hb⟩⟩
  · obtain ⟨x, hx, hb⟩ := bind_eq_ok.mp hb
    obtain ⟨y, hy, hb⟩ := bind_eq_ok.mp hb
    exact bind_eq_ok.mpr ⟨x, hx, bind_eq_ok.mpr ⟨y, hreal y hy, hb⟩⟩

/-- A search for a text answers wherever one for something else does: where no text is searched. -/
theorem covers_of_search {op : Operator} (hop : op = .contains ∨ op = .startsWith) {v : Value}
    (htext : ∀ s, v ≠ .text s) (htuple : ∀ items, v ≠ .tuple items) (given : String) :
    Covers ⟨op, .text given⟩ ⟨op, v⟩ := by
  intro item b hb
  rcases hop with rfl | rfl
  · cases item with
    | text s =>
      cases v with
      | text t => exact absurd rfl (htext t)
      | _ => exact (nomatch hb)
    | _ => exact hb
  · cases item with
    | text s =>
      cases v with
      | text t => exact absurd rfl (htext t)
      | tuple ts => exact absurd rfl (htuple ts)
      | _ => exact (nomatch hb)
    | _ => exact hb

/-- The text of a number operand is read as it stands, if nothing in it parts the query. -/
theorem writtenAs_number {op : Operator} (h : op.IsNumeric) {v : Value} {text : String}
    (hv : Operator.numberText v = .ok text) (hclear : ∀ c ∈ ['/', '&', '%'], c ∉ text.toList) :
    WrittenAs ⟨op, v⟩ text text where
  written := (Operator.operandText_of_isNumeric h v).trans hv
  unparted := by
    have hsub : ∀ c ∈ ['/', '&'], c ∈ ['/', '&', '%'] := forall_mem_of_all (by decide)
    exact fun c hc => hclear c (hsub c hc)
  read := Percent.decode_eq_self (hclear '%' (by decide))

/-- The text of an integer operand holds nothing that parts a query. -/
theorem not_mem_numberText_int {n : Int} {text : String}
    (h : Operator.numberText (.int n) = .ok text) : ∀ c ∈ ['/', '&', '%'], c ∉ text.toList := by
  have hsep : ∀ c ∈ ['/', '&', '%'], Percent.isUnreserved c = false :=
    forall_mem_of_all (by decide)
  change writable ((Numeral.intText? n).map String.ofList) = _ at h
  cases hdigits : Numeral.intText? n with
  | none =>
    rw [hdigits] at h
    exact (nomatch h)
  | some digits =>
    rw [hdigits] at h
    obtain rfl := Except.ok.inj h
    intro c hc hmem
    rw [String.toList_ofList] at hmem
    have hu := Numeral.isUnreserved_of_mem_intText hdigits hmem
    rw [hsep c hc] at hu
    exact Bool.false_ne_true hu

/-- The text of a floating-point operand holds nothing that parts a query. -/
theorem not_mem_numberText_float {x : Binary64} {text : String}
    (h : Operator.numberText (.float x) = .ok text) : ∀ c ∈ ['/', '&', '%'], c ∉ text.toList := by
  have hsep : ∀ c ∈ ['/', '&', '%'], c.isDigit = false ∧
      c ∉ ['.', 'e', '+', '-', 'n', 'a', 'i', 'f'] := forall_mem_of_all (by decide)
  exact fun c hc => (Operator.allNumeral_numberText h).not_mem (hsep c hc).1 (hsep c hc).2

/-- A legible operand is read as one that answers wherever it does. -/
theorem Legible.exists_writtenAs {p : Predicate} (h : p.Legible) :
    ∃ text operand, WrittenAs p text operand ∧
      Covers ⟨p.operator, p.operator.parse operand⟩ p := by
  cases h with
  | text s h =>
    refine ⟨_, s, writtenAs_encode (Operator.operandText_of_not_isNumeric h s), ?_⟩
    rw [Operator.parse_of_not_isNumeric h]
    exact Covers.refl _
  | @search op v hop htext htuple hs =>
    obtain ⟨given, hgiven⟩ := Option.isSome_iff_exists.mp hs
    have hoperand : op.operandText v = .ok (Percent.encodeString given) := by
      rcases hop with rfl | rfl <;> exact congrArg (fun s => (writable s).map _) hgiven
    have hparse : op.parse given = .text given := by
      rcases hop with rfl | rfl <;> rfl
    refine ⟨_, given, writtenAs_encode hoperand, ?_⟩
    rw [hparse]
    exact covers_of_search hop htext htuple given
  | @int op n h hn =>
    obtain ⟨digits, hdigits⟩ := Option.isSome_iff_exists.mp hn
    have htext : Operator.numberText (.int n) = .ok (String.ofList digits) := by
      change writable ((Numeral.intText? n).map String.ofList) = _
      rw [hdigits]
      rfl
    refine ⟨_, _, writtenAs_number h htext (not_mem_numberText_int htext), ?_⟩
    rw [Operator.parse_of_isNumeric h, String.toList_ofList]
    refine covers_of_toReal h fun x hx => ?_
    rw [Numeral.readFloat?_intText hdigits hx]
    rfl
  | @real op x h hx =>
    have hstable : Predicate.Stable ⟨op, .float x⟩ := by
      unfold Predicate.Stable
      rw [if_pos h]
      exact ⟨x, rfl, hx⟩
    obtain ⟨text, operand, hwritten, halike⟩ := exists_writtenAs_of_stable hstable
    exact ⟨text, operand, hwritten, halike.covers⟩
  | @unordered op v h hv =>
    have hall : ∀ v ∈ [Value.null, .bool false, .bool true, .float .nan],
        Operator.toReal v = .ok .nan ∧ ∃ text, Operator.numberText v = .ok text ∧
          (∀ c ∈ ['/', '&', '%'], c ∉ text.toList) ∧
          (Numeral.readFloat? text.toList).getD .nan = .nan := by
      intro v hv
      simp only [List.mem_cons, List.not_mem_nil, or_false] at hv
      rcases hv with rfl | rfl | rfl | rfl
      · exact ⟨rfl, "None", rfl, forall_mem_of_all (by decide), by decide⟩
      · exact ⟨rfl, "False", rfl, forall_mem_of_all (by decide), by decide⟩
      · exact ⟨rfl, "True", rfl, forall_mem_of_all (by decide), by decide⟩
      · exact ⟨rfl, "nan", rfl, forall_mem_of_all (by decide), by decide⟩
    obtain ⟨hreal, text, htext, hclear, hnan⟩ := hall v hv
    refine ⟨text, text, writtenAs_number h htext hclear, ?_⟩
    rw [Operator.parse_of_isNumeric h, hnan]
    exact covers_of_toReal h fun x hx => hreal.symm.trans hx
  | @numeral op s h hs =>
    refine ⟨s, s, writtenAs_number h rfl hs, ?_⟩
    rw [Operator.parse_of_isNumeric h]
    exact covers_of_toReal h fun x hx => hx

end Predicate

/-- The text of a legible state has no slash and is read as a request that shows what the state
shows. -/
theorem State.Legible.readable {s : State} (h : s.Legible) (hgathered : s.Gathered) :
    ∃ text r, s.text = .ok text ∧ '/' ∉ text.toList ∧ readRequest text.toList = .ok r ∧
      s.ShownBy (r.apply .empty) := by
  obtain ⟨fs, clauses, hfs, hmatch, -, hfread⟩ := @reads_predicateTexts Predicate.Covers _
    fun e he => ⟨h.fields e he, (h.operands e he).exists_writtenAs⟩
  obtain ⟨ss, order, hss, -, horder, hsread⟩ := reads_order h.order
  obtain ⟨ws, limit, offset, hws, -, hwindow, hwread⟩ := reads_window h.window
  obtain ⟨names, hexpand, hnames⟩ := h.expand
  obtain ⟨es, hes, -, heread⟩ := reads_expandText hnames
  obtain ⟨text, htext, hslash, -, hread⟩ :=
    readable_of_parts hfs hss hws (hexpand ▸ hes) hfread hsread hwread heread
  refine ⟨text, _, htext, hslash, hread, ?_⟩
  obtain ⟨all, hall, -, -, hsame⟩ := gather_names names [] List.nodup_nil
  have hgather : (names.map Value.text).foldl State.addField [] = s.expand := by
    rw [hsame (hgathered.nodup_names hexpand), List.nil_append] at hall
    rw [hexpand]
    exact hall
  have hcounts : (Request.window ⟨clauses, order, limit, offset, names⟩).getD (.ofCounts none none) =
      s.window.getD (.ofCounts none none) := by
    rw [hwindow]
    cases limit <;> cases offset <;> rfl
  rw [apply_empty]
  exact State.shownBy_of_covers (forall₂_predicates hmatch hgathered.distinct) horder hcounts hgather

end ResourceAtlas.Query

import ResourceAtlas.Proofs.Query.Legible
import ResourceAtlas.Proofs.Query.Written
import ResourceAtlas.Proofs.Registry.Walk
import ResourceAtlas.Proofs.Specifier.Near

/-!
# Query states restored from their texts

A query text has one syntax for everything that is asked: a field with an operator, the words of the
query, coded operands and lists of names. For plain names none of it is taken for anything else, so
that the text of a state asks a location without a query for that state again: the same fields in
the same order, with operands equal to those that were written. Only an integer of too many digits
has no text.
-/

namespace ResourceAtlas.Query

open Address Number Text

/-- A predicate whose operand its query gives back. -/
inductive Predicate.Restorable : Predicate → Prop
  /-- Any text that fields are compared with as texts. -/
  | text {op : Operator} (s : String) (h : ¬ op.IsNumeric) : Restorable ⟨op, .text s⟩
  /-- A number that is read from its own text. -/
  | number {op : Operator} {v : Value} {text : String} (h : op.IsNumeric)
      (hwritten : op.operandText v = .ok text) (hread : (op.parse text).equal v = true) :
      Restorable ⟨op, v⟩

/-- A state in plain names whose operands its query gives back. -/
structure State.Restorable (s : State) : Prop where
  /-- No field has two predicates. -/
  distinct : (Keyed.keys s.filter).Nodup
  /-- The fields have plain names, and one that is tested for equality is no word of the query. -/
  fields : ∀ e ∈ s.filter, PlainName e.1 ∧ (e.2.operator = .equals → e.1 ∉ reservedNames)
  /-- The operands are given back. -/
  operands : ∀ e ∈ s.filter, e.2.Restorable
  /-- The order is by a field of plain name. -/
  order : ∀ o, s.sort = some o → ∃ field, o.field = .text field ∧ PlainName field
  /-- The window has a count. -/
  window : ∀ w, s.window = some w → ∃ limit offset, w = .ofCounts limit offset ∧
    (limit.isSome ∨ offset.isSome)
  /-- The fields to fill in have plain names and come once each. -/
  expand : ∃ names : List String, s.expand = names.map .text ∧ names.Nodup ∧
    ∀ n ∈ names, PlainName n

/-- A state whose counts have few enough digits to be written. -/
def State.Countable (s : State) : Prop :=
  ∀ w, s.window = some w → ∀ n, w.limit = some (.whole n) ∨ w.offset = some (.whole n) →
    n < 10 ^ Numeral.maxDigits

/-- Two predicates compare in the same way with equal operands. -/
def Predicate.Same (p q : Predicate) : Prop :=
  p.operator = q.operator ∧ p.operand.equal q.operand = true

/-- Two states ask for the same in the same order. -/
structure State.Same (s t : State) : Prop where
  /-- The predicates are on the same fields, one by one, and the same. -/
  filter : List.Forall₂ (fun e f => e.1 = f.1 ∧ e.2.Same f.2) s.filter t.filter
  /-- The order is the same. -/
  sort : s.sort = t.sort
  /-- The window is the same. -/
  window : s.window = t.window
  /-- The fields to fill in are the same. -/
  expand : s.expand = t.expand

namespace Predicate

/-- What equals a floating-point number is a number, or a truth value. -/
theorem number_of_equal {x : Binary64} {v : Value} (h : (Value.float x).equal v = true) :
    (∃ n, v = .int n) ∨ (∃ y, v = .float y) ∨ ∃ b, v = .bool b := by
  cases v with
  | int n => exact .inl ⟨n, rfl⟩
  | float y => exact .inr (.inl ⟨y, rfl⟩)
  | bool b => exact .inr (.inr ⟨b, rfl⟩)
  | _ => exact absurd h (by simp [Value.equal, Value.numeric?])

/-- The words for truth values are read as no number, which equals nothing. -/
theorem equal_bool_ne {b : Bool} {text : String}
    (h : Operator.numberText (.bool b) = .ok text) :
    (Value.float ((Numeral.readFloat? text.toList).getD .nan)).equal (.bool b) = false := by
  obtain rfl := Except.ok.inj h
  cases b <;> decide +kernel

/-- An operand that its query gives back is written as a text that is read as the same. -/
theorem Restorable.exists_writtenAs {p : Predicate} (h : p.Restorable) :
    ∃ text operand, WrittenAs p text operand ∧
      Same ⟨p.operator, p.operator.parse operand⟩ p := by
  cases h with
  | text s h =>
    refine ⟨_, s, writtenAs_encode (Operator.operandText_of_not_isNumeric h s), rfl, ?_⟩
    rw [Operator.parse_of_not_isNumeric h, Value.equal]
    exact beq_self_eq_true s
  | @number op v text h hwritten hread =>
    rw [Operator.operandText_of_isNumeric h] at hwritten
    rw [Operator.parse_of_isNumeric h] at hread
    have hclear : ∀ c ∈ ['/', '&', '%'], c ∉ text.toList := by
      rcases number_of_equal hread with ⟨n, rfl⟩ | ⟨y, rfl⟩ | ⟨b, rfl⟩
      · exact not_mem_numberText_int hwritten
      · exact not_mem_numberText_float hwritten
      · rw [equal_bool_ne hwritten] at hread
        exact absurd hread Bool.false_ne_true
    refine ⟨text, text, writtenAs_number h hwritten hclear, rfl, ?_⟩
    rw [Operator.parse_of_isNumeric h]
    exact hread

end Predicate

namespace State

/-- The text of a state with counts of few enough digits is read as a request for the same. -/
theorem Restorable.readable {s : State} (h : s.Restorable) (hcounts : s.Countable) :
    ∃ text r, s.text = .ok text ∧ readRequest text.toList = .ok r ∧ (r.apply .empty).Same s := by
  have hwindow : ∀ w, s.window = some w → ∃ limit offset, w = .ofCounts limit offset ∧
      (limit.isSome ∨ offset.isSome) ∧ (∀ n, limit = some n → WritableCount n) ∧
      ∀ n, offset = some n → WritableCount n := by
    intro w hw
    obtain ⟨limit, offset, rfl, hcount⟩ := h.window w hw
    refine ⟨limit, offset, rfl, hcount, fun n hn => ?_, fun n hn => ?_⟩
    · exact (Numeral.intText?_isSome_iff n).mpr (hcounts _ hw n (.inl (hn ▸ rfl)))
    · exact (Numeral.intText?_isSome_iff n).mpr (hcounts _ hw n (.inr (hn ▸ rfl)))
  obtain ⟨text, r, htext, -, -, hread, hfilter, hsort, hwindow, hexpand⟩ :=
    readable_of_similar h.distinct
      (fun e he => ⟨keyName_of_plain (h.fields e he).1 (h.fields e he).2,
        (h.operands e he).exists_writtenAs⟩) h.order hwindow h.expand
  exact ⟨text, r, htext, hread, hfilter, hsort, hwindow, hexpand⟩

/-- A bound that has a text has few enough digits. -/
theorem lt_of_boundText {name : String} {bound : Option Bound} {texts : List String}
    (h : boundText name bound = .ok texts) {n : Nat} (hn : bound = some (.whole n)) :
    n < 10 ^ Numeral.maxDigits := by
  subst hn
  obtain ⟨given, hgiven, -⟩ := bind_eq_ok.mp h
  change writable ((Numeral.intText? n).map String.ofList) = _ at hgiven
  refine (Numeral.intText?_isSome_iff n).mp ?_
  cases hdigits : Numeral.intText? n with
  | none =>
    rw [hdigits] at hgiven
    exact (nomatch hgiven)
  | some digits => rfl

/-- A state that has a text has counts of few enough digits. -/
theorem countable_of_text {s : State} {text : String} (h : s.text = .ok text) : s.Countable := by
  obtain ⟨texts, htexts⟩ := (writable_iff.mpr ⟨text, h⟩).window
  intro w hw n hn
  rw [hw] at htexts
  obtain ⟨limit, hlimit, htexts⟩ := bind_eq_ok.mp htexts
  obtain ⟨offset, hoffset, -⟩ := bind_eq_ok.mp htexts
  exact hn.elim (lt_of_boundText hlimit) (lt_of_boundText hoffset)

/-- Books with marks in their titles and limits above five, in the order of their titles. -/
def booksAsked : State where
  filter := [("title", ⟨.contains, .text "a&b=c/d"⟩), ("limit", ⟨.gt, .int 5⟩)]
  sort := some ⟨.text "title", .descending⟩
  window := some (.ofCounts (some 3) none)
  expand := [.text "author"]

end State

end ResourceAtlas.Query

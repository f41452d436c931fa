import ResourceAtlas.Proofs.Query.Operand
import ResourceAtlas.Query.Selection

/-!
# Plain query states

A state is plain when its text can be read back: its names hold nothing that parts a query, its
counts can be written, and its number operands survive being written. Two states are alike when they
differ in the sign of zero operands alone; they have one text and select the same members.
-/

namespace ResourceAtlas.Query

open Number Text

/-- The characters that part a query text. -/
def marks : List Char := ['/', '&', '=', '.', '%', ',']

/-- A name of letters, digits and underscores, or of anything else that parts no query text. -/
structure PlainName (name : String) : Prop where
  /-- The name has characters. -/
  nonempty : name ≠ ""
  /-- None of them parts a query text. -/
  unmarked : ∀ c ∈ name.toList, c ∉ marks
  /-- None of them is a blank. -/
  unblank : ∀ c ∈ name.toList, Blank.isBlank c = false

/-- The words of a query that name no field. -/
def reservedNames : List String := ["sort", "limit", "offset", "expand"]

/-- A plain name that a comparison can be written for. -/
structure FieldName (name : String) : Prop extends PlainName name where
  /-- The name is none of the words of a query. -/
  unreserved : name ∉ reservedNames

instance (name : String) : Decidable (PlainName name) :=
  decidable_of_iff (name ≠ "" ∧ (name.toList.all fun c => decide (c ∉ marks)) = true ∧
      (name.toList.all fun c => !Blank.isBlank c) = true) (by
    simp only [List.all_eq_true, decide_eq_true_eq, Bool.not_eq_true']
    exact ⟨fun h => ⟨h.1, h.2.1, h.2.2⟩, fun h => ⟨h.1, h.2, h.3⟩⟩)

instance (name : String) : Decidable (FieldName name) :=
  decidable_of_iff (PlainName name ∧ name ∉ reservedNames)
    ⟨fun h => ⟨h.1, h.2⟩, fun h => ⟨h.1, h.2⟩⟩

/-- A mark is in no plain name. -/
theorem PlainName.not_mem {name : String} (h : PlainName name) {c : Char} (hc : c ∈ marks) :
    c ∉ name.toList :=
  fun hmem => h.unmarked c hmem hc

/-- The characters of a plain name. -/
theorem PlainName.toList_ne_nil {name : String} (h : PlainName name) : name.toList ≠ [] :=
  fun hnil => h.nonempty (String.toList_eq_nil_iff.mp hnil)

/-- A number that is read back from the text that it is written as, up to the sign of zero. -/
def StableNumber (x : Binary64) : Prop :=
  ∃ t, Operator.numberText (.float x) = .ok t ∧
    ((Numeral.readFloat? t.toList).getD .nan).equal x = true

/-- A predicate whose operand can be read back: a number that is stable, or a text. -/
def Predicate.Stable (p : Predicate) : Prop :=
  if p.operator.IsNumeric then ∃ x, p.operand = .float x ∧ StableNumber x
  else ∃ s, p.operand = .text s

/-- A count that can be written. -/
def WritableCount (n : Nat) : Prop :=
  (Numeral.intText? n).isSome

/-- A state whose text can be read back. -/
structure State.Plain (s : State) : Prop where
  /-- No field has two predicates. -/
  distinct : (Keyed.keys s.filter).Nodup
  /-- The fields have names that a comparison can be written for. -/
  fields : ∀ e ∈ s.filter, FieldName e.1
  /-- The operands can be read back. -/
  operands : ∀ e ∈ s.filter, e.2.Stable
  /-- The order is by a field of plain name. -/
  order : ∀ o, s.sort = some o → ∃ field, o.field = .text field ∧ PlainName field
  /-- The window has counts that can be written. -/
  window : ∀ w, s.window = some w → ∃ limit offset, w = .ofCounts limit offset ∧
    (limit.isSome ∨ offset.isSome) ∧ (∀ n, limit = some n → WritableCount n) ∧
    ∀ n, offset = some n → WritableCount n
  /-- The fields to fill in have plain names and come once each. -/
  expand : ∃ names : List String, s.expand = names.map .text ∧ names.Nodup ∧
    ∀ n ∈ names, PlainName n

/-- Asking nothing is plain. -/
theorem State.plain_empty : State.empty.Plain where
  distinct := List.nodup_nil
  fields := fun _ he => absurd he List.not_mem_nil
  operands := fun _ he => absurd he List.not_mem_nil
  order := fun _ ho => (nomatch ho)
  window := fun _ hw => (nomatch hw)
  expand := ⟨[], rfl, List.nodup_nil, fun _ hn => absurd hn List.not_mem_nil⟩

/-- A plain state stays plain under a window of counts that can be written. -/
theorem State.Plain.withWindow {s : State} (h : s.Plain) {limit offset : Nat}
    (hlimit : WritableCount limit) (hoffset : WritableCount offset) :
    (s.withWindow (some (.ofCounts (some limit) (some offset)))).Plain := by
  refine ⟨h.distinct, h.fields, h.operands, h.order, fun w hw => ?_, h.expand⟩
  obtain rfl := Option.some.inj hw
  exact ⟨some limit, some offset, rfl, .inl rfl, fun _ hn => Option.some.inj hn ▸ hlimit,
    fun _ hn => Option.some.inj hn ▸ hoffset⟩

/-- Two states ask for the same members in the same way. -/
structure State.Alike (s t : State) : Prop where
  /-- The predicates are alike, field by field. -/
  filter : List.Forall₂ (fun e f => e.1 = f.1 ∧ e.2.Alike f.2) s.filter t.filter
  /-- The order is the same. -/
  sort : s.sort = t.sort
  /-- The window is the same. -/
  window : s.window = t.window
  /-- The fields to fill in are the same. -/
  expand : s.expand = t.expand

namespace State

/-- A state is like itself. -/
theorem Alike.refl (s : State) : s.Alike s :=
  ⟨List.forall₂_same.mpr fun e _ => ⟨rfl, .refl e.2⟩, rfl, rfl, rfl⟩

/-- Windows put on states that are alike leave them alike. -/
theorem Alike.withWindow {s t : State} (h : s.Alike t) (w : Option Window) :
    (s.withWindow w).Alike (t.withWindow w) :=
  ⟨h.filter, h.sort, rfl, h.expand⟩

/-- Predicates that are alike on one field have one text. -/
theorem predicateText_congr {e f : String × Predicate} (h : e.1 = f.1 ∧ e.2.Alike f.2) :
    predicateText e.1 e.2 = predicateText f.1 f.2 := by
  unfold predicateText
  rw [h.2.operandText_eq, h.2.operator_eq, h.1]

/-- States that are alike have one text. -/
theorem Alike.text_eq {s t : State} (h : s.Alike t) : s.text = t.text := by
  have hfilter : (s.filter.mapM fun e => predicateText e.1 e.2) =
      t.filter.mapM fun e => predicateText e.1 e.2 := by
    have hall := h.filter
    revert hall
    generalize s.filter = es
    generalize t.filter = fs
    intro hall
    induction hall with
    | nil => rfl
    | cons hef _ ih => rw [List.mapM_cons, List.mapM_cons, predicateText_congr hef, ih]
  unfold text parts
  rw [hfilter, h.sort, h.window, h.expand]

/-- Predicates that are alike hold of the same items. -/
theorem holdsAll_congr {α : Type} (valueOf : α → Value → Outcome Value) (item : α)
    {es fs : Keyed Predicate}
    (h : List.Forall₂ (fun e f => e.1 = f.1 ∧ e.2.Alike f.2) es fs) :
    holdsAll valueOf item es = holdsAll valueOf item fs := by
  induction h with
  | nil => rfl
  | cons hef _ ih =>
    rw [holdsAll, holdsAll, hef.1, ih]
    simp only [hef.2.test_eq]

/-- States that are alike select the same members. -/
theorem Alike.select_eq {s t : State} (h : s.Alike t) {α : Type}
    (valueOf : α → Value → Outcome Value) (items : List α) :
    s.select valueOf items = t.select valueOf items := by
  have hkeep : keepMatching valueOf s.filter items = keepMatching valueOf t.filter items := by
    induction items with
    | nil => rfl
    | cons item rest ih => rw [keepMatching, keepMatching, holdsAll_congr valueOf item h.filter, ih]
  unfold select
  rw [hkeep, h.sort, h.window]

end State

end ResourceAtlas.Query

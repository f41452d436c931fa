import ResourceAtlas.Address.QueryText
import ResourceAtlas.Proofs.Keyed
import ResourceAtlas.Proofs.Number.Nearest
import ResourceAtlas.Proofs.Query.Applied
import ResourceAtlas.Proofs.Query.Operand

/-!
# Filters that trip

A predicate that a query text asks answers on every value, with one exception: a comparison of numbers
trips over an integer that is beyond all floating-point numbers, because only texts and other kinds are
taken for `nan` where they are no number. A filter trips over an item if it comes to such a predicate
there, and it keeps members of a list exactly if it trips over none of them.
-/

namespace ResourceAtlas.Query

open Address Number

/-- An integer beyond all floating-point numbers: half a step below 2¹⁰²⁴, or more. -/
def Immense (v : Value) : Prop :=
  ∃ n : Int, v = .int n ∧ 2 ^ 1024 ≤ n.natAbs + 2 ^ 970

/-- A number, or a text or octets that name one. -/
def NamesNumber : Value → Prop
  | .int _ => True
  | .float _ => True
  | .text s => (Numeral.readFloat? s.toList).isSome
  | .bytes b => (b.all fun o => o.toNat < 0x80) = true ∧
      (Numeral.readFloat? (b.map fun o => Char.ofNat o.toNat)).isSome
  | _ => False

variable {op : Operator} {v : Value} {filter : Keyed Predicate} {item : Value} {items : List Value}

/-- An integer has a number nearest to it unless it is immense. -/
theorem realOf_cases (n : Int) :
    (Immense (.int n) ∧ Value.realOf n = .error .integerTooLarge) ∨
      (¬ Immense (.int n) ∧ ∃ x, Value.realOf n = .ok x) := by
  have hinfinite : Immense (.int n) ↔ ∃ negative, Binary64.ofInt n = .infinite negative := by
    rw [Binary64.ofInt_infinite_iff]
    exact ⟨fun ⟨m, hm, hlarge⟩ => Value.int.inj hm ▸ hlarge, fun hlarge => ⟨n, rfl, hlarge⟩⟩
  -- The function is opened before it is applied, so that no power is computed.
  obtain ⟨real, hreal⟩ : ∃ real, real = Value.realOf := ⟨_, rfl⟩
  rw [← hreal, hinfinite]
  unfold Value.realOf at hreal
  subst hreal
  dsimp only
  generalize Binary64.ofInt n = x
  cases x with
  | infinite s => exact .inl ⟨⟨s, rfl⟩, rfl⟩
  | nan => exact .inr ⟨fun ⟨_, h⟩ => (nomatch h), _, rfl⟩
  | finite s u => exact .inr ⟨fun ⟨_, h⟩ => (nomatch h), _, rfl⟩

/-- Nothing but an integer is immense. -/
theorem not_immense (h : ∀ n, v ≠ .int n) : ¬ Immense v :=
  fun ⟨n, hn, _⟩ => h n hn

/-- Every value counts as a number unless it is immense. -/
theorem toReal_cases (v : Value) :
    (Immense v ∧ Operator.toReal v = .error .integerTooLarge) ∨
      (¬ Immense v ∧ ∃ x, Operator.toReal v = .ok x) := by
  cases v with
  | int n => exact realOf_cases n
  | bytes b =>
    refine .inr ⟨not_immense nofun, ?_⟩
    unfold Operator.toReal
    dsimp only
    split <;> exact ⟨_, rfl⟩
  | _ => exact .inr ⟨not_immense nofun, _, rfl⟩

/-- What names no number counts as `nan`. -/
theorem toReal_of_not_namesNumber (h : ¬ NamesNumber v) : Operator.toReal v = .ok .nan := by
  cases v with
  | int n => exact absurd trivial h
  | float x => exact absurd trivial h
  | text s =>
    have hnone : Numeral.readFloat? s.toList = none := Option.not_isSome_iff_eq_none.mp h
    unfold Operator.toReal
    dsimp only
    rw [hnone]
    rfl
  | bytes b =>
    unfold Operator.toReal
    dsimp only
    split
    · next hascii =>
      have hnone : Numeral.readFloat? (b.map fun o => Char.ofNat o.toNat) = none :=
        Option.not_isSome_iff_eq_none.mp fun hsome => h ⟨hascii, hsome⟩
      rw [hnone]
      rfl
    · rfl
  | _ => rfl

/-- Nothing is below or above `nan`. -/
theorem lt_nan (x : Binary64) : x.lt .nan = false := by
  cases x <;> rfl

/-- A comparison of numbers asks something of the number that a value counts as, and `nan` does not
answer to it. -/
theorem test_of_isNumeric (h : op.IsNumeric) (given : String) : ∃ holds : Binary64 → Bool,
    holds .nan = false ∧
      ∀ v, op.test v (op.parse given) = (Operator.toReal v).map holds := by
  rcases h with rfl | rfl
  · refine ⟨fun x => ((Numeral.readFloat? given.toList).getD .nan).lt x, lt_nan _, fun v => ?_⟩
    unfold Operator.test Operator.parse
    cases Operator.toReal v <;> rfl
  · refine ⟨fun x => x.lt ((Numeral.readFloat? given.toList).getD .nan), rfl, fun v => ?_⟩
    unfold Operator.test Operator.parse
    cases Operator.toReal v <;> rfl

/-- Any other comparison with a text answers on every value. -/
theorem test_of_not_isNumeric (h : ¬ op.IsNumeric) (given : String) (v : Value) :
    ∃ holds, op.test v (op.parse given) = .ok holds := by
  cases op with
  | gt => exact absurd (.inl rfl) h
  | lt => exact absurd (.inr rfl) h
  | equals => exact ⟨_, rfl⟩
  | contains => cases v <;> exact ⟨_, rfl⟩
  | startsWith => cases v <;> exact ⟨_, rfl⟩

/-- A comparison of numbers breaks off over an immense integer. -/
theorem test_of_immense (h : op.IsNumeric) (hv : Immense v) (given : String) :
    op.test v (op.parse given) = .error .integerTooLarge := by
  obtain ⟨holds, -, htest⟩ := test_of_isNumeric h given
  rcases toReal_cases v with ⟨-, hreal⟩ | ⟨hno, -⟩
  · rw [htest, hreal]
    rfl
  · exact absurd hv hno

/-- A comparison of numbers does not hold of what names no number. -/
theorem test_of_not_namesNumber (h : op.IsNumeric) (hv : ¬ NamesNumber v) (given : String) :
    op.test v (op.parse given) = .ok false := by
  obtain ⟨holds, hnan, htest⟩ := test_of_isNumeric h given
  rw [htest, toReal_of_not_namesNumber hv]
  exact congrArg Except.ok hnan

/-- A comparison with an operand that is read from a text answers, unless it is one of numbers and the
value is immense. -/
theorem exists_test (h : ¬ (op.IsNumeric ∧ Immense v)) (given : String) :
    ∃ holds, op.test v (op.parse given) = .ok holds := by
  by_cases hnumeric : op.IsNumeric
  · obtain ⟨holds, -, htest⟩ := test_of_isNumeric hnumeric given
    rcases toReal_cases v with ⟨hv, -⟩ | ⟨-, x, hreal⟩
    · exact absurd ⟨hnumeric, hv⟩ h
    · exact ⟨holds x, (htest v).trans (map_eq_ok.mpr ⟨x, hreal, rfl⟩)⟩
  · exact test_of_not_isNumeric hnumeric given v

/-! ## Filters -/

/-- Predicates whose operands are read from texts. -/
def Parsed (filter : Keyed Predicate) : Prop :=
  ∀ e ∈ filter, ∃ given, e.2.operand = e.2.operator.parse given

/-- A filter trips over an item: a comparison of numbers comes upon an immense integer in a field, after
predicates that hold. -/
def TripsOn (filter : Keyed Predicate) (item : Value) : Prop :=
  ∃ earlier name p later, filter = earlier ++ (name, p) :: later ∧ admits earlier item = true ∧
    p.operator.IsNumeric ∧ Immense (item.field name)

/-- The predicates that a request asks have operands that are read from texts. -/
theorem parsed_predicates (r : Request) : Parsed r.predicates := by
  intro e he
  rcases Keyed.mem_of_mem_merge he with hnone | he
  · exact absurd hnone List.not_mem_nil
  · obtain ⟨c, -, rfl⟩ := List.mem_map.mp he
    exact ⟨c.operand, rfl⟩

/-- So have those of the state that a request makes. -/
theorem parsed_apply (r : Request) : Parsed (r.apply .empty).filter := by
  have hfilter : (r.apply .empty).filter = [] ∨
      (r.apply .empty).filter = State.empty.filter.merge r.predicates := by
    unfold Request.apply
    dsimp only
    split <;> split <;> split <;> split <;> first | exact .inl rfl | exact .inr rfl
  rcases hfilter with hfilter | hfilter
  · rw [hfilter]
    exact fun e he => absurd he List.not_mem_nil
  · rw [hfilter]
    intro e he
    rcases Keyed.mem_of_mem_merge he with hnone | he
    · exact absurd hnone List.not_mem_nil
    · exact parsed_predicates r e he

/-- A filter of parsed predicates answers on the items that it does not trip over. -/
theorem Parsed.answersOn_iff (h : Parsed filter) : AnswersOn filter item ↔ ¬ TripsOn filter item := by
  constructor
  · rintro hanswers ⟨earlier, name, p, later, hsplit, hearlier, hnumeric, himmense⟩
    obtain ⟨holds, hholds⟩ := hanswers earlier name p later hsplit hearlier
    obtain ⟨given, hgiven⟩ := h (name, p) (by rw [hsplit]; simp)
    dsimp only at hgiven
    rw [Predicate.test, hgiven, test_of_immense hnumeric himmense] at hholds
    cases hholds
  · intro hno earlier name p later hsplit hearlier
    obtain ⟨given, hgiven⟩ := h (name, p) (by rw [hsplit]; simp)
    dsimp only at hgiven
    rw [Predicate.test, hgiven]
    exact exists_test (fun hp => hno ⟨earlier, name, p, later, hsplit, hearlier, hp⟩) given

/-- A filter that trips over an item breaks off there. -/
theorem Parsed.holdsAll_of_tripsOn (h : Parsed filter) (htrips : TripsOn filter item) :
    holdsAll (fun item name => Value.fieldOf name item) item filter = .error .integerTooLarge := by
  obtain ⟨earlier, name, p, later, rfl, hearlier, hnumeric, himmense⟩ := htrips
  induction earlier with
  | nil =>
    obtain ⟨given, hgiven⟩ := h (name, p) List.mem_cons_self
    dsimp only at hgiven
    refine bind_eq_error.mpr (.inr ⟨item.field name, rfl, bind_eq_error.mpr (.inl ?_)⟩)
    rw [Predicate.test, hgiven]
    exact test_of_immense hnumeric himmense given
  | cons e earlier ih =>
    obtain ⟨hfirst, hrest⟩ := Bool.and_eq_true_iff.mp hearlier
    have hholds : e.2.test (item.field e.1) = .ok true := by
      dsimp only at hfirst
      cases hholds : e.2.test (item.field e.1) with
      | ok holds =>
        rw [hholds] at hfirst
        exact congrArg Except.ok hfirst
      | error f =>
        rw [hholds] at hfirst
        cases hfirst
    refine bind_eq_error.mpr (.inr ⟨item.field e.1, rfl, bind_eq_error.mpr (.inr ⟨true, hholds, ?_⟩)⟩)
    exact ih (fun e' he' => h e' (List.mem_cons_of_mem e he')) hrest

/-- A filter that trips over one of the items keeps none of them. -/
theorem Parsed.keepMatching_of_tripsOn (h : Parsed filter) (hitem : item ∈ items)
    (htrips : TripsOn filter item) :
    keepMatching (fun item name => Value.fieldOf name item) filter items =
      .error .integerTooLarge := by
  induction items with
  | nil => exact absurd hitem List.not_mem_nil
  | cons first rest ih =>
    by_cases hfirst : TripsOn filter first
    · exact bind_eq_error.mpr (.inl (h.holdsAll_of_tripsOn hfirst))
    · have hrest : item ∈ rest := by
        rcases List.mem_cons.mp hitem with rfl | hrest
        · exact absurd htrips hfirst
        · exact hrest
      exact bind_eq_error.mpr (.inr ⟨_, holdsAll_admits (h.answersOn_iff.mpr hfirst),
        bind_eq_error.mpr (.inl (ih hrest))⟩)

/-- Nothing is selected by a state whose filter trips over one of the items. -/
theorem Parsed.apply_of_tripsOn {q : State} (h : Parsed q.filter) (hitem : item ∈ items)
    (htrips : TripsOn q.filter item) : q.apply items = .error .integerTooLarge :=
  bind_eq_error.mpr (.inl (h.keepMatching_of_tripsOn hitem htrips))

end ResourceAtlas.Query

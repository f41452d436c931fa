import ResourceAtlas.Proofs.Store.Insert
import ResourceAtlas.Proofs.Store.Steady
import ResourceAtlas.Proofs.Value.Pairs

/-!
# Generated identifiers

An identifier that is generated is above all integer identifiers of the members that are there, so the
member that gets it is the only one that it finds. Members that are made in turn get identifiers that
count up.
-/

namespace ResourceAtlas

open Number

/-- The greater of an identifier and that of a member, if it has one. -/
def highestId (highest : Int) (item : Value) : Int :=
  match integerId? item with
  | some n => max highest n
  | none => highest

/-- A member has an identifier that no other integer is written as, or none. -/
def PlainId (item : Value) : Prop :=
  item.member "id" = .null ∨ ∃ n : Int, item.member "id" = .int n ∧ n.natAbs < 10 ^ Numeral.maxDigits

/-- The highest identifier is not below the one that the search started with. -/
theorem le_foldl_highestId (start : Int) (items : List Value) :
    start ≤ items.foldl highestId start := by
  induction items generalizing start with
  | nil => exact le_refl start
  | cons item rest ih =>
    refine le_trans ?_ (ih (highestId start item))
    unfold highestId
    split
    · exact le_max_left _ _
    · exact le_refl start

/-- The highest identifier is not below that of a member. -/
theorem integerId_le_foldl (start : Int) {items : List Value} {item : Value} (hmem : item ∈ items)
    {n : Int} (hn : integerId? item = some n) : n ≤ items.foldl highestId start := by
  induction items generalizing start with
  | nil => exact absurd hmem List.not_mem_nil
  | cons first rest ih =>
    rcases List.mem_cons.mp hmem with rfl | hmem
    · refine le_trans ?_ (le_foldl_highestId (highestId start item) rest)
      unfold highestId
      rw [hn]
      exact le_max_right _ _
    · exact ih (highestId start first) hmem

/-- A generated identifier is the one after the highest. -/
theorem nextId_eq (items : List Value) :
    nextId items = items.foldl highestId (firstGeneratedId - 1) + 1 := rfl

/-- A generated identifier is not below the first one. -/
theorem firstGeneratedId_le_nextId (items : List Value) : firstGeneratedId ≤ nextId items := by
  have h := le_foldl_highestId (firstGeneratedId - 1) items
  rw [nextId_eq]
  omega

/-- A generated identifier is above the integer identifiers of the members. -/
theorem lt_nextId {items : List Value} {item : Value} (hmem : item ∈ items) {n : Int}
    (hn : integerId? item = some n) : n < nextId items := by
  have h := integerId_le_foldl (firstGeneratedId - 1) hmem hn
  rw [nextId_eq]
  omega

/-- After a member with a generated identifier the next one follows. -/
theorem nextId_concat {items : List Value} {new : Value}
    (hnew : integerId? new = some (nextId items)) : nextId (items ++ [new]) = nextId items + 1 := by
  have hbelow : items.foldl highestId (firstGeneratedId - 1) ≤ nextId items := by
    rw [nextId_eq]
    omega
  rw [nextId_eq (items ++ [new]), List.foldl_append, List.foldl_cons, List.foldl_nil, highestId, hnew]
  dsimp only
  rw [max_eq_right hbelow]

/-- An integer that is not too long has a text, which no other integer has. -/
theorem exists_intString {n : Int} (h : n.natAbs < 10 ^ Numeral.maxDigits) :
    ∃ x, (Value.int n).string? = some x ∧ Numeral.intText? n = some x.toList := by
  obtain ⟨digits, hdigits⟩ := Option.isSome_iff_exists.mp ((Numeral.intText?_isSome_iff n).mpr h)
  refine ⟨String.ofList digits, ?_, by rw [String.toList_ofList, hdigits]⟩
  change (Numeral.intText? n).map String.ofList = _
  rw [hdigits]
  rfl

/-- An integer fits itself. -/
theorem sameIdentifier_int (n : Int) : sameIdentifier (.int n) (.int n) = .ok true := by
  have hequal : (Value.int n).equal (.int n) = true := by
    rw [Value.equal]
    exact beq_self_eq_true n
  unfold sameIdentifier
  rw [hequal]
  rfl

/-- A member that has another identifier fits no integer. -/
theorem sameIdentifier_of_ne {item : Value} (hplain : PlainId item) {n : Int}
    (hn : n.natAbs < 10 ^ Numeral.maxDigits) (hne : integerId? item ≠ some n) :
    sameIdentifier (item.member "id") (.int n) = .ok false := by
  rcases hplain with hnull | ⟨m, hm, hlength⟩
  · rw [hnull]
    rfl
  · have hmn : m ≠ n := by
      rintro rfl
      exact hne (by rw [integerId?, hm])
    have hequal : (Value.int m).equal (.int n) = false := by
      rw [Value.equal]
      exact beq_eq_false_iff_ne.mpr hmn
    obtain ⟨x, hx, hxtext⟩ := exists_intString hlength
    obtain ⟨y, hy, hytext⟩ := exists_intString hn
    have hxy : (x == y) = false := by
      refine beq_eq_false_iff_ne.mpr ?_
      rintro rfl
      have hsame := (Numeral.integerValue_intText hxtext).symm.trans
        (Numeral.integerValue_intText hytext)
      exact hmn (Except.ok.inj hsame)
    rw [hm]
    unfold sameIdentifier
    rw [hequal, hx, hy]
    exact congrArg Except.ok hxy

/-- The only member of an identifier is found by it. -/
theorem findMember_generated {before after : List Value} {item : Value} {n : Int}
    (hn : n.natAbs < 10 ^ Numeral.maxDigits) (hitem : item.member "id" = .int n)
    (hbefore : ∀ other ∈ before, PlainId other ∧ integerId? other ≠ some n) :
    findMember "id" (.int n) (before ++ item :: after) = .ok (some before.length) := by
  have hthere : (before ++ item :: after)[before.length]? = some item := by
    rw [List.getElem?_append_right (le_refl _), Nat.sub_self]
    rfl
  refine findMember_of_first hthere ?_ fun j hj other hother => ?_
  · rw [hitem]
    exact sameIdentifier_int n
  · rw [List.getElem?_append_left hj] at hother
    obtain ⟨hplain, hne⟩ := hbefore other (List.mem_of_getElem? hother)
    exact sameIdentifier_of_ne hplain hn hne

/-- Properties without an identifier. -/
def Unidentified (properties : Value) : Prop :=
  ∃ entries, properties = Value.ofPairs entries ∧
    Keyed.has "id" (properties.mapping?.getD []) = false

/-- The member of properties and a generated identifier. -/
def identified (items : List Value) (properties : Value) : Value :=
  properties.withEntry "id" (.int (nextId items))

/-- Properties without an identifier get a generated one. -/
theorem Unidentified.memberOf_eq {properties : Value} (h : Unidentified properties)
    (items : List Value) :
    ∃ entries, entriesOf properties = .ok entries ∧
      memberOf entries items = identified items properties := by
  obtain ⟨entries, rfl, hno⟩ := h
  obtain ⟨own, hpairs, hsame, hmapping⟩ := Value.pairs_ofPairs entries
  rw [hmapping, Option.getD_some] at hno
  refine ⟨own, by rw [entriesOf, hpairs], ?_⟩
  rw [memberOf, if_neg (Bool.eq_false_iff.mp hno), hsame]
  rfl

/-- The identifier of a member that got one. -/
theorem Unidentified.member_identified {properties : Value} (h : Unidentified properties)
    (items : List Value) : (identified items properties).member "id" = .int (nextId items) := by
  obtain ⟨entries, rfl, -⟩ := h
  obtain ⟨own, -, -, hmapping⟩ := Value.pairs_ofPairs entries
  exact Value.member_withEntry (by rw [hmapping]; rfl) "id" _

/-- The members that are made in turn among others. -/
def identifiedEach : List Value → List Value → List Value
  | _, [] => []
  | items, properties :: rest =>
    identified items properties :: identifiedEach (items ++ [identified items properties]) rest

/-- One member is made of each properties. -/
theorem length_identifiedEach (items properties : List Value) :
    (identifiedEach items properties).length = properties.length := by
  induction properties generalizing items with
  | nil => rfl
  | cons first rest ih => exact congrArg (· + 1) (ih _)

/-- A member that is made in turn gets the identifier that is next after those before it. -/
theorem identifiedEach_getElem? {items properties : List Value} {j : Nat} {given : Value}
    (h : properties[j]? = some given) :
    (identifiedEach items properties)[j]? =
      some (identified (items ++ (identifiedEach items properties).take j) given) := by
  induction properties generalizing items j with
  | nil => exact (nomatch h)
  | cons first rest ih =>
    cases j with
    | zero =>
      obtain rfl := Option.some.inj h
      rw [List.take_zero, List.append_nil]
      rfl
    | succ j =>
      rw [identifiedEach, List.getElem?_cons_succ, List.take_succ_cons]
      have hnext := @ih (items ++ [identified items first]) j h
      rw [hnext, List.append_assoc, List.singleton_append]

/-- Identifiers that are generated in turn count up. -/
theorem nextId_identifiedEach (items : List Value) {properties : List Value}
    (h : ∀ p ∈ properties, Unidentified p) {j : Nat} (hj : j ≤ properties.length) :
    nextId (items ++ (identifiedEach items properties).take j) = nextId items + j := by
  induction properties generalizing items j with
  | nil =>
    obtain rfl := Nat.le_zero.mp hj
    rw [List.take_zero, List.append_nil]
    omega
  | cons first rest ih =>
    cases j with
    | zero =>
      rw [List.take_zero, List.append_nil]
      omega
    | succ j =>
      have hfirst : integerId? (identified items first) = some (nextId items) := by
        rw [integerId?, (h first List.mem_cons_self).member_identified]
      have hrest := ih (items ++ [identified items first])
        (fun p hp => h p (List.mem_cons_of_mem first hp)) (Nat.le_of_succ_le_succ hj)
      rw [identifiedEach, List.take_succ_cons, ← List.singleton_append, ← List.append_assoc, hrest,
        nextId_concat hfirst]
      push_cast
      omega

/-- The identifier of a member that is made in turn. -/
theorem member_identifiedEach {items properties : List Value}
    (h : ∀ p ∈ properties, Unidentified p) {j : Nat} {new : Value}
    (hnew : (identifiedEach items properties)[j]? = some new) :
    j < properties.length ∧ new.member "id" = .int (nextId items + j) := by
  have hj : j < properties.length := by
    rw [← length_identifiedEach items properties]
    exact (List.getElem?_eq_some_iff.mp hnew).1
  have hgiven := List.getElem?_eq_getElem hj
  obtain rfl := Option.some.inj (hnew.symm.trans (identifiedEach_getElem? hgiven))
  refine ⟨hj, ?_⟩
  rw [(h _ (List.getElem_mem hj)).member_identified, nextId_identifiedEach items h
    (Nat.le_of_lt hj)]

/-- Identifiers that are generated in turn have a text as long as there is room for them. -/
theorem natAbs_nextId_lt {items : List Value} {count : Nat}
    (hroom : nextId items + count ≤ 10 ^ Numeral.maxDigits) {j : Nat} (hj : j < count) :
    (nextId items + j).natAbs < 10 ^ Numeral.maxDigits := by
  have hfirst := firstGeneratedId_le_nextId items
  unfold firstGeneratedId at hfirst
  -- The power is not to be computed.
  generalize Numeral.maxDigits = digits at hroom ⊢
  zify
  rw [abs_of_nonneg (by omega)]
  exact lt_of_lt_of_le (by omega) hroom

/-- Identifiers that are generated in turn are plain, as those before were. -/
theorem plainId_identifiedEach {items properties : List Value}
    (h : ∀ p ∈ properties, Unidentified p) (hplain : ∀ item ∈ items, PlainId item)
    (hroom : nextId items + properties.length ≤ 10 ^ Numeral.maxDigits) :
    ∀ item ∈ items ++ identifiedEach items properties, PlainId item := by
  intro item hitem
  rcases List.mem_append.mp hitem with hold | hmade
  · exact hplain item hold
  · obtain ⟨j, hj⟩ := List.getElem?_of_mem hmade
    obtain ⟨hlt, hid⟩ := member_identifiedEach h hj
    exact .inr ⟨_, hid, natAbs_nextId_lt hroom hlt⟩

/-- A member that is made in turn is the one that its identifier finds. -/
theorem findMember_identifiedEach {items properties : List Value}
    (h : ∀ p ∈ properties, Unidentified p) (hplain : ∀ item ∈ items, PlainId item)
    (hroom : nextId items + properties.length ≤ 10 ^ Numeral.maxDigits) {j : Nat}
    (hj : j < properties.length) :
    findMember "id" (.int (nextId items + j)) (items ++ identifiedEach items properties) =
      .ok (some (items.length + j)) := by
  have hlength : j < (identifiedEach items properties).length := by
    rw [length_identifiedEach]
    exact hj
  obtain ⟨-, hid⟩ := member_identifiedEach h (List.getElem?_eq_getElem hlength)
  have hsplit : items ++ identifiedEach items properties =
      (items ++ (identifiedEach items properties).take j) ++
        (identifiedEach items properties)[j] :: (identifiedEach items properties).drop (j + 1) := by
    rw [List.append_assoc, ← List.drop_eq_getElem_cons hlength, List.take_append_drop]
  have hnext := nextId_identifiedEach items h (Nat.le_of_lt hj)
  rw [hsplit, findMember_generated (natAbs_nextId_lt hroom hj) hid, List.length_append,
    List.length_take_of_le (Nat.le_of_lt hlength)]
  intro other hother
  refine ⟨plainId_identifiedEach h hplain hroom other ?_, fun hsame => ?_⟩
  · rw [hsplit]
    exact List.mem_append_left _ hother
  · exact absurd (lt_nextId hother hsame) (by rw [hnext]; exact lt_irrefl _)

end ResourceAtlas

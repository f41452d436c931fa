import ResourceAtlas.Address.QueryText
import ResourceAtlas.Proofs.Keyed
import ResourceAtlas.Proofs.Query.State
import ResourceAtlas.Proofs.Text.Split

/-!
# Query texts read back

The text of a plain state is read as a request that asks for the same: each part of the text gives
back what it was written for, and parts do not run into each other. A request with plain names asks
for a plain state.
-/

namespace ResourceAtlas.Address

open Number Query Text

/-- A request with names that can be written and operands that survive being written. -/
structure Request.Plain (r : Request) : Prop where
  /-- The fields of comparisons. -/
  fields : ∀ c ∈ r.filters, FieldName c.field
  /-- The numbers that fields are compared with. -/
  numbers : ∀ c ∈ r.filters, c.operator.IsNumeric →
    StableNumber ((Numeral.readFloat? c.operand.toList).getD .nan)
  /-- The field of the order. -/
  order : ∀ o, r.order = some o → PlainName o.field
  /-- The fields to fill in. -/
  names : ∀ n ∈ r.expand, PlainName n

/-- A request whose counts can be written. -/
structure Request.Countable (r : Request) : Prop where
  /-- The greatest number of members. -/
  limit : ∀ n, r.limit = some n → WritableCount n
  /-- The number of members to pass over. -/
  offset : ∀ n, r.offset = some n → WritableCount n

/-- Parts of a query text that are read as a change to the request. -/
structure Reads (parts : List String) (change : Request → Request) : Prop where
  /-- No part is empty. -/
  nonempty : ∀ part ∈ parts, part ≠ ""
  /-- No part holds what parts a query or ends it. -/
  unparted : ∀ part ∈ parts, '&' ∉ part.toList ∧ '/' ∉ part.toList
  /-- The parts are read in turn. -/
  read : ∀ r : Request, r.addParts (parts.map String.toList) = .ok (change r)

namespace Reads

/-- No parts ask for nothing. -/
theorem none : Reads [] id :=
  ⟨fun _ h => absurd h List.not_mem_nil, fun _ h => absurd h List.not_mem_nil, fun _ => rfl⟩

/-- Parts are read one after the other. -/
theorem addParts_append (r : Request) (xs ys : List (List Char)) :
    r.addParts (xs ++ ys) = (r.addParts xs).bind fun r => r.addParts ys := by
  induction xs generalizing r with
  | nil => rfl
  | cons x xs ih =>
    rw [List.cons_append, Request.addParts, Request.addParts]
    cases r.addPart x with
    | error f => rfl
    | ok r => exact ih r

/-- Parts that follow others add their change. -/
theorem append {xs ys : List String} {f g : Request → Request} (hx : Reads xs f) (hy : Reads ys g) :
    Reads (xs ++ ys) (g ∘ f) where
  nonempty part h := (List.mem_append.mp h).elim (hx.nonempty part) (hy.nonempty part)
  unparted part h := (List.mem_append.mp h).elim (hx.unparted part) (hy.unparted part)
  read r := by
    rw [List.map_append, addParts_append, hx.read, Except.bind, hy.read]
    rfl

/-- A part of a key and a value is read as what the two ask for. -/
theorem pair {key value : String} {change : Request → Request}
    (hkey : ∀ c ∈ ['/', '&', '=', '%'], c ∉ key.toList)
    (hvalue : ∀ c ∈ ['/', '&'], c ∉ value.toList)
    (hadd : ∀ r : Request, r.add key.toList (Percent.decode value.toList) = .ok (change r)) :
    Reads [key ++ "=" ++ value] change := by
  have htext : (key ++ "=" ++ value).toList = key.toList ++ '=' :: value.toList := by
    rw [String.toList_append, String.toList_append, List.append_assoc]
    rfl
  refine ⟨fun part h => ?_, fun part h => ?_, fun r => ?_⟩
  · obtain rfl := List.mem_singleton.mp h
    intro hempty
    rw [hempty] at htext
    exact absurd htext.symm (by simp)
  · obtain rfl := List.mem_singleton.mp h
    rw [htext, List.mem_append, List.mem_cons, List.mem_append, List.mem_cons]
    have hk1 := hkey '&' (by decide)
    have hk2 := hkey '/' (by decide)
    have hv1 := hvalue '&' (by decide)
    have hv2 := hvalue '/' (by decide)
    constructor
    · rintro (h | h | h)
      · exact hk1 h
      · exact absurd h (by decide)
      · exact hv1 h
    · rintro (h | h | h)
      · exact hk2 h
      · exact absurd h (by decide)
      · exact hv2 h
  · rw [List.map_singleton, Request.addParts, Request.addPart, htext,
      Split.atFirst_append (hkey '=' (by decide))]
    dsimp only
    rw [Percent.decode_eq_self (hkey '%' (by decide)), hadd r]
    rfl

end Reads

/-- The key of a comparison: the field, with the operator after a point unless it is equality. -/
def clauseKey (field : String) : Operator → String
  | .equals => field
  | op => field ++ "." ++ op.name

/-- The key of a comparison other than equality. -/
theorem clauseKey_of_ne {op : Operator} (h : op ≠ .equals) (field : String) :
    clauseKey field op = field ++ "." ++ op.name := by
  cases op with
  | equals => exact absurd rfl h
  | _ => rfl

/-- The text of a predicate is its key with its operand. -/
theorem predicateText_eq {field operand : String} {p : Predicate}
    (h : p.operator.operandText p.operand = .ok operand) :
    State.predicateText field p = .ok (clauseKey field p.operator ++ "=" ++ operand) := by
  unfold State.predicateText
  rw [h]
  cases p.operator <;> rfl

/-- The names of operators. -/
theorem Operator.ofName?_name (op : Operator) : Operator.ofName? op.name = some op := by
  cases op <;> rfl

/-- A field and an operator whose key is read as the two. -/
structure KeyName (field : String) (op : Operator) : Prop where
  /-- Nothing in the field parts a query or its key. -/
  unparted : ∀ c ∈ ['/', '&', '=', '%'], c ∉ field.toList
  /-- The key is none of the words of a query. -/
  unreserved : clauseKey field op ∉ reservedNames
  /-- A field without an operator behind it does not end in one. -/
  whole : op = .equals → ∀ before word, Split.atLast '.' field.toList = some (before, word) →
    before = [] ∨ Operator.ofName? (String.ofList word) = none
  /-- A field with an operator behind it has characters. -/
  nonempty : op ≠ .equals → field ≠ ""

/-- A plain name makes a key with an operator, unless the key is a word of a query. -/
theorem keyName_of_plain {field : String} (h : PlainName field) {op : Operator}
    (hword : op = .equals → field ∉ reservedNames) : KeyName field op where
  unparted := by
    have hall : ∀ c ∈ ['/', '&', '=', '%'], c ∈ marks := forall_mem_of_all (by decide)
    exact fun c hc => h.not_mem (hall c hc)
  unreserved := by
    have hpoint : ∀ word ∈ reservedNames, '.' ∉ word.toList := by decide
    by_cases hop : op = .equals
    · rw [hop]
      exact hword hop
    · intro hmem
      refine hpoint _ hmem ?_
      rw [clauseKey_of_ne hop, String.toList_append, String.toList_append]
      exact List.mem_append_left _ (List.mem_append_right _ (by decide))
  whole _ before word hat := by
    rw [Split.atLast_eq_none (h.not_mem (by decide))] at hat
    exact (nomatch hat)
  nonempty _ := h.nonempty

/-- A plain name that a comparison can be written for makes a key with any operator. -/
theorem keyName_of_fieldName {field : String} (h : FieldName field)
    (op : Operator) : KeyName field op :=
  keyName_of_plain h.toPlainName fun _ => h.unreserved

namespace KeyName

variable {field : String} {op : Operator}

/-- The characters of a key are those of the field, a point, and those of an operator. -/
theorem not_mem (h : KeyName field op) {c : Char} (hc : c ∈ ['/', '&', '=', '%']) :
    c ∉ (clauseKey field op).toList := by
  have hname : ∀ op : Operator, ∀ c ∈ ['/', '&', '=', '%'], c ∉ ("." ++ op.name).toList := by
    intro op
    cases op <;> exact forall_mem_of_all (by decide)
  by_cases hop : op = .equals
  · rw [hop]
    exact h.unparted c hc
  · rw [clauseKey_of_ne hop, String.append_assoc, String.toList_append, List.mem_append, not_or]
    exact ⟨h.unparted c hc, hname _ c hc⟩

/-- A key is none of the words of a query. -/
theorem ne (h : KeyName field op) {word : String} (hw : word ∈ reservedNames) :
    (clauseKey field op).toList ≠ word.toList :=
  fun heq => h.unreserved (String.toList_inj.mp heq ▸ hw)

/-- A key is read as the field and the operator that it was made of. -/
theorem readClause (h : KeyName field op) (value : List Char) :
    readClause (clauseKey field op).toList value = ⟨field, op, String.ofList value⟩ := by
  have hname : ∀ op : Operator, '.' ∉ op.name.toList := by
    intro op
    cases op <;> decide
  unfold Address.readClause
  by_cases hop : op = .equals
  · rw [hop, clauseKey]
    dsimp only
    rw [String.ofList_toList]
    cases hat : Split.atLast '.' field.toList with
    | none => rfl
    | some cut =>
      obtain ⟨before, word⟩ := cut
      dsimp only
      rcases h.whole hop before word hat with rfl | hnone
      · cases Operator.ofName? (String.ofList word) <;> rfl
      · rw [hnone]
  · have hfield : field.toList.isEmpty = false :=
      List.isEmpty_eq_false_iff.mpr fun hnil => h.nonempty hop (String.toList_eq_nil_iff.mp hnil)
    rw [clauseKey_of_ne hop, String.toList_append, String.toList_append, List.append_assoc,
      show ".".toList = ['.'] from rfl, List.singleton_append, Split.atLast_append (hname _)]
    dsimp only
    rw [String.ofList_toList, Operator.ofName?_name, hfield, String.ofList_toList]
    rfl

/-- A key that is none of the words of a query adds a comparison. -/
theorem add (h : KeyName field op) (value : List Char) (r : Request) :
    r.add (clauseKey field op).toList value =
      .ok { r with filters := r.filters ++ [⟨field, op, String.ofList value⟩] } := by
  unfold Request.add
  rw [if_neg (h.ne (by decide)), if_neg (h.ne (by decide)), if_neg (h.ne (by decide)),
    if_neg (h.ne (by decide)), h.readClause]

end KeyName

/-- A clause asks for a predicate that is as a given one on a given field. -/
def Clause.Matches (similar : Predicate → Predicate → Prop) (c : Clause) (e : String × Predicate) :
    Prop :=
  c.field = e.1 ∧ similar ⟨c.operator, c.operator.parse c.operand⟩ e.2

/-- The text of a predicate's operand, and the operand that is read from it. -/
structure WrittenAs (p : Predicate) (text operand : String) : Prop where
  /-- The operand is written as the text. -/
  written : p.operator.operandText p.operand = .ok text
  /-- Nothing in the text parts a query or ends it. -/
  unparted : ∀ c ∈ ['/', '&'], c ∉ text.toList
  /-- The text is read as the operand. -/
  read : Percent.decode text.toList = operand.toList

/-- The text of a predicate is read as a clause for the operand that is read. -/
theorem reads_predicateText {field text operand : String} {p : Predicate}
    (hname : KeyName field p.operator) (h : WrittenAs p text operand) :
    ∃ part, State.predicateText field p = .ok part ∧
      Reads [part] fun r => { r with filters := r.filters ++ [⟨field, p.operator, operand⟩] } := by
  refine ⟨_, predicateText_eq h.written, Reads.pair (fun c hc => hname.not_mem hc) h.unparted ?_⟩
  intro r
  rw [h.read, hname.add, String.ofList_toList]

/-- The coded form of a text is read as the text. -/
theorem writtenAs_encode {p : Predicate} {given : String}
    (h : p.operator.operandText p.operand = .ok (Percent.encodeString given)) :
    WrittenAs p (Percent.encodeString given) given := by
  have hcoded : (Percent.encodeString given).toList = Percent.encode given.toList := by
    rw [Percent.encodeString, String.toList_ofList]
  refine ⟨h, fun c hc => ?_, by rw [hcoded, Percent.decode_encode]⟩
  have hsep : ∀ c ∈ ['/', '&'], Percent.isUnreserved c = false ∧ c ≠ '%' :=
    forall_mem_of_all (by decide)
  rw [hcoded]
  exact Percent.not_mem_encode (hsep c hc).1 (hsep c hc).2 _

/-- A stable operand is read as one that makes the same comparison. -/
theorem exists_writtenAs_of_stable {p : Predicate} (h : p.Stable) :
    ∃ text operand, WrittenAs p text operand ∧
      Predicate.Alike ⟨p.operator, p.operator.parse operand⟩ p := by
  unfold Predicate.Stable at h
  split at h
  · next hnum =>
    obtain ⟨x, hx, t, ht, heq⟩ := h
    have hchars := Operator.allNumeral_numberText ht
    have hoperand : p.operator.operandText p.operand = .ok t := by
      rw [hx, Operator.operandText_of_isNumeric hnum, ht]
    have hparse : Predicate.Alike ⟨p.operator, p.operator.parse t⟩ p :=
      Or.inr ⟨rfl, hnum, _, x, Operator.parse_of_isNumeric hnum t, hx, heq⟩
    refine ⟨t, t, ⟨hoperand, fun c hc => ?_, ?_⟩, hparse⟩
    · have hsep : ∀ c ∈ ['/', '&'], c.isDigit = false ∧
          c ∉ ['.', 'e', '+', '-', 'n', 'a', 'i', 'f'] := forall_mem_of_all (by decide)
      exact hchars.not_mem (hsep c hc).1 (hsep c hc).2
    · exact Percent.decode_eq_self (hchars.not_mem (by decide) (by decide))
  · next hnum =>
    obtain ⟨given, hgiven⟩ := h
    have hoperand : p.operator.operandText p.operand = .ok (Percent.encodeString given) := by
      rw [hgiven, Operator.operandText_of_not_isNumeric hnum]
    refine ⟨_, given, writtenAs_encode hoperand, .inl ?_⟩
    rw [Operator.parse_of_not_isNumeric hnum, ← hgiven]

/-- The texts of predicates are read as the clauses that each is read as. -/
theorem reads_predicateTexts {similar : Predicate → Predicate → Prop} {filter : Keyed Predicate}
    (h : ∀ e ∈ filter, KeyName e.1 e.2.operator ∧ ∃ text operand, WrittenAs e.2 text operand ∧
      similar ⟨e.2.operator, e.2.operator.parse operand⟩ e.2) :
    ∃ texts clauses, (filter.mapM fun e => State.predicateText e.1 e.2) = .ok texts ∧
      List.Forall₂ (Clause.Matches similar) clauses filter ∧ (texts = [] ↔ filter = []) ∧
      Reads texts fun r => { r with filters := r.filters ++ clauses } := by
  induction filter with
  | nil =>
    refine ⟨[], [], rfl, .nil, ⟨fun _ => rfl, fun _ => rfl⟩, ?_⟩
    have hid : (fun r : Request => { r with filters := r.filters ++ [] }) = id := by
      funext r
      rw [List.append_nil]
      rfl
    rw [hid]
    exact Reads.none
  | cons e rest ih =>
    obtain ⟨hname, _, operand, hwritten, hsimilar⟩ := h e List.mem_cons_self
    obtain ⟨text, htext, hread⟩ := reads_predicateText hname hwritten
    obtain ⟨texts, clauses, htexts, hmatches, -, hreads⟩ :=
      ih fun f hf => h f (List.mem_cons_of_mem e hf)
    refine ⟨text :: texts, ⟨e.1, e.2.operator, operand⟩ :: clauses, ?_,
      .cons ⟨rfl, hsimilar⟩ hmatches, ?_, ?_⟩
    · rw [List.mapM_cons, htext, htexts]
      rfl
    · exact ⟨fun h => absurd h (List.cons_ne_nil _ _), fun h => absurd h (List.cons_ne_nil _ _)⟩
    · have hcomp := hread.append hreads
      have hfun : (fun r : Request =>
          { r with filters := r.filters ++ Clause.mk e.1 e.2.operator operand :: clauses }) =
          (fun r => { r with filters := r.filters ++ clauses }) ∘
            fun r => { r with filters := r.filters ++ [Clause.mk e.1 e.2.operator operand] } := by
        funext r
        rw [Function.comp_apply, List.append_assoc, List.singleton_append]
      rw [hfun]
      exact hcomp

/-- The names of directions. -/
theorem Direction.ofName?_name (d : Direction) : Direction.ofName? d.name = some d := by
  cases d <;> rfl

/-- A name that an order can be written by. -/
structure OrderName (field : String) : Prop where
  /-- The name has characters. -/
  nonempty : field ≠ ""
  /-- None of them parts a query text. -/
  unparted : ∀ c ∈ ['/', '&', '%'], c ∉ field.toList

/-- The text of an order is read as that order. -/
theorem reads_orderText {field : String} (h : OrderName field) (d : Direction) :
    Reads ["sort=" ++ field ++ "." ++ d.name] fun r => { r with order := some ⟨field, d⟩ } := by
  have htext : "sort=" ++ field ++ "." ++ d.name = "sort" ++ "=" ++ (field ++ "." ++ d.name) := by
    rw [show "sort=" = "sort" ++ "=" from rfl]
    simp only [String.append_assoc]
  have hvalue : (field ++ "." ++ d.name).toList = field.toList ++ '.' :: d.name.toList := by
    rw [String.toList_append, String.toList_append, List.append_assoc]
    rfl
  have hname : ∀ c ∈ ['/', '&', '%', '.'], c ∉ d.name.toList := by
    cases d <;> exact forall_mem_of_all (by decide)
  have hclear : ∀ c ∈ ['/', '&', '%'], c ∉ (field ++ "." ++ d.name).toList := by
    intro c hc
    have hapart : ∀ c ∈ ['/', '&', '%'], c ≠ '.' ∧ c ∈ ['/', '&', '%', '.'] :=
      forall_mem_of_all (by decide)
    rw [hvalue, List.mem_append, List.mem_cons]
    rintro (hf | hp | hd)
    · exact h.unparted c hc hf
    · exact (hapart c hc).1 hp
    · exact hname c (hapart c hc).2 hd
  have hfield : field.toList.isEmpty = false :=
    List.isEmpty_eq_false_iff.mpr fun hnil => h.nonempty (String.toList_eq_nil_iff.mp hnil)
  rw [htext]
  refine Reads.pair (forall_mem_of_all (by decide)) (fun c hc => hclear c ?_) fun r => ?_
  · have hsub : ∀ c ∈ ['/', '&'], c ∈ ['/', '&', '%'] := forall_mem_of_all (by decide)
    exact hsub c hc
  · rw [Percent.decode_eq_self (hclear '%' (by decide)), Request.add, if_pos rfl, hvalue]
    unfold readOrder
    rw [Split.atLast_append (hname '.' (by decide))]
    dsimp only
    rw [String.ofList_toList, Direction.ofName?_name, hfield, String.ofList_toList]
    rfl

/-- A count is read from its own text. -/
theorem readCount_intText (name : String) {n : Nat} {text : List Char}
    (h : Numeral.intText? n = some text) : readCount name text = .ok n := by
  have hread : readInteger text = .ok (n : Int) := by
    rw [readInteger, Numeral.integerValue_intText h]
  rw [readCount, if_pos (Numeral.isInteger_intText h), hread]
  have hpos : ¬ (n : Int) < 0 := Int.not_lt.mpr (Int.natCast_nonneg n)
  simp only [bind, Except.bind]
  rw [if_neg hpos, Int.toNat_natCast]

/-- The text of a count under a word is read as that count. -/
theorem reads_boundText {word : String} (hword : ∀ c ∈ ['/', '&', '=', '%'], c ∉ word.toList)
    {change : Nat → Request → Request}
    (hadd : ∀ (r : Request) (value : List Char) (n : Nat), readCount word value = .ok n →
      r.add word.toList value = .ok (change n r))
    (bound : Option Nat) (hb : ∀ n, bound = some n → WritableCount n) :
    ∃ texts, State.boundText word (bound.map .whole) = .ok texts ∧
      (texts = [] ↔ bound = none) ∧ Reads texts (bound.elim id change) := by
  cases bound with
  | none => exact ⟨[], rfl, ⟨fun _ => rfl, fun _ => rfl⟩, Reads.none⟩
  | some n =>
    obtain ⟨digits, hdigits⟩ := Option.isSome_iff_exists.mp (hb n rfl)
    have hstring : (Value.int n).string? = some (String.ofList digits) := by
      rw [show (Value.int n).string? = Value.intString? n from rfl, Value.intString?, hdigits]
      rfl
    have hdecode : Percent.decode digits = digits := by
      refine Percent.decode_eq_self fun hmem => ?_
      exact absurd (Numeral.isUnreserved_of_mem_intText hdigits hmem) (by decide)
    refine ⟨[word ++ "=" ++ String.ofList digits], ?_, ?_, Reads.pair hword ?_ fun r => ?_⟩
    · rw [Option.map_some, State.boundText, Bound.value, hstring]
      rfl
    · exact ⟨fun h => absurd h (List.cons_ne_nil _ _), fun h => absurd h (by simp)⟩
    · intro c hc
      have hsep : ∀ c ∈ ['/', '&'], Percent.isUnreserved c = false := forall_mem_of_all (by decide)
      rw [String.toList_ofList]
      intro hmem
      have hu := Numeral.isUnreserved_of_mem_intText hdigits hmem
      rw [hsep c hc] at hu
      exact Bool.false_ne_true hu
    · rw [String.toList_ofList, hdecode]
      exact hadd r digits n (readCount_intText word hdigits)

/-- A limit is added to a request. -/
theorem add_limit (r : Request) (value : List Char) (n : Nat)
    (h : readCount "limit" value = .ok n) :
    r.add "limit".toList value = .ok { r with limit := some n } := by
  rw [Request.add, if_neg (by decide), if_pos rfl, h]
  rfl

/-- An offset is added to a request. -/
theorem add_offset (r : Request) (value : List Char) (n : Nat)
    (h : readCount "offset" value = .ok n) :
    r.add "offset".toList value = .ok { r with offset := some n } := by
  rw [Request.add, if_neg (by decide), if_neg (by decide), if_pos rfl, h]
  rfl

/-- A name that can be written in a list. -/
structure ListedName (name : String) : Prop where
  /-- The name has characters. -/
  nonempty : name ≠ ""
  /-- None of them parts a query text or a list. -/
  unparted : ∀ c ∈ ['/', '&', '%', ','], c ∉ name.toList
  /-- No blanks stand around it. -/
  trimmed : Blank.trim name.toList = name.toList

/-- Names are read from their list. -/
theorem readNames_join {names : List String} (hne : names ≠ [])
    (h : ∀ n ∈ names, ListedName n) : readNames (Split.join "," names).toList = names := by
  have hcut := @Split.every_join ',' names hne fun n hn => (h n hn).unparted ',' (by decide)
  have htrim : (names.map String.toList).map Blank.trim = names.map String.toList := by
    rw [List.map_map]
    exact List.map_congr_left fun n hn => (h n hn).trimmed
  have hkeep : (names.map String.toList).filter (fun name => !name.isEmpty) =
      names.map String.toList := by
    rw [List.filter_eq_self]
    intro text ht
    obtain ⟨n, hn, rfl⟩ := List.mem_map.mp ht
    have hsome : n.toList ≠ [] := fun hnil => (h n hn).nonempty (String.toList_eq_nil_iff.mp hnil)
    rw [List.isEmpty_eq_false_iff.mpr hsome]
    rfl
  rw [readNames, show "," = String.singleton ',' from rfl, hcut, htrim, hkeep, List.map_map]
  conv_rhs => rw [← List.map_id names]
  exact List.map_congr_left fun n _ => String.ofList_toList

/-- Texts as fields to fill in have their texts as names. -/
theorem fieldTexts_texts (names : List String) (index : Nat) :
    State.fieldTexts index (names.map .text) = .ok names := by
  induction names generalizing index with
  | nil => rfl
  | cons n names ih =>
    rw [List.map_cons, State.fieldTexts, ih]
    rfl

/-- The text of fields to fill in is read as those fields. -/
theorem reads_expandText {names : List String} (h : ∀ n ∈ names, ListedName n) :
    ∃ texts, State.expandText (names.map .text) = .ok texts ∧ (texts = [] ↔ names = []) ∧
      Reads texts fun r => if names = [] then r else { r with expand := names } := by
  cases names with
  | nil => exact ⟨[], rfl, ⟨fun _ => rfl, fun _ => rfl⟩, Reads.none⟩
  | cons n rest =>
    have hne : n :: rest ≠ [] := List.cons_ne_nil n rest
    have htext : "expand=" ++ Split.join "," (n :: rest) =
        "expand" ++ "=" ++ Split.join "," (n :: rest) := rfl
    have hclear : ∀ c ∈ ['/', '&', '%'], c ∉ (Split.join "," (n :: rest)).toList := by
      intro c hc hmem
      have hmark : ∀ c ∈ ['/', '&', '%'], c ∈ ['/', '&', '%', ','] ∧ c ∉ ",".toList :=
        forall_mem_of_all (by decide)
      rcases Split.mem_join hmem with hsep | ⟨p, hp, hcp⟩
      · exact (hmark c hc).2 hsep
      · exact (h p hp).unparted c (hmark c hc).1 hcp
    refine ⟨["expand=" ++ Split.join "," (n :: rest)], ?_, ?_, ?_⟩
    · have hsome : ((n :: rest).map Value.text).isEmpty = false := rfl
      rw [State.expandText, hsome, fieldTexts_texts]
      rfl
    · exact ⟨fun h => absurd h (List.cons_ne_nil _ _), fun h => absurd h hne⟩
    · rw [htext]
      refine Reads.pair (forall_mem_of_all (by decide)) (fun c hc => hclear c ?_) fun r => ?_
      · have hsub : ∀ c ∈ ['/', '&'], c ∈ ['/', '&', '%'] := forall_mem_of_all (by decide)
        exact hsub c hc
      · rw [Percent.decode_eq_self (hclear '%' (by decide)), Request.add, if_neg (by decide),
          if_neg (by decide), if_neg (by decide), if_pos rfl, readNames_join hne h, if_neg hne]

/-- What a request asks for on its own. -/
theorem apply_empty (r : Request) :
    r.apply .empty = ⟨r.predicates, r.order.map OrderClause.order, r.window,
      (r.expand.map Value.text).foldl State.addField []⟩ := by
  obtain ⟨filters, order, limit, offset, expand⟩ := r
  have hmerge : ∀ ps : Keyed Predicate, ps.keys.Nodup → Keyed.merge [] ps = ps :=
    fun ps hps => Keyed.merge_of_nodup hps
  unfold Request.apply State.withFilter State.withSort State.withWindow State.withExpand
  cases filters <;> cases order <;> cases limit <;> cases offset <;> cases expand <;>
    simp only [Request.predicates, Request.window, State.empty, List.isEmpty_nil, List.isEmpty_cons,
      Option.isNone_none, Option.isNone_some, Bool.and_true, Bool.and_false, if_true,
      Bool.false_eq_true, if_false, hmerge _ (Keyed.nodup_ofList _)] <;> rfl

/-- Fields to fill in gather each at its first coming. -/
theorem gather_names (names : List String) (acc : List String) (hacc : acc.Nodup) :
    ∃ all : List String, (names.map Value.text).foldl State.addField (acc.map Value.text) =
        all.map Value.text ∧ all.Nodup ∧ (∀ n ∈ all, n ∈ acc ∨ n ∈ names) ∧
        ((acc ++ names).Nodup → all = acc ++ names) := by
  induction names generalizing acc with
  | nil => exact ⟨acc, rfl, hacc, fun n hn => .inl hn, fun _ => (List.append_nil acc).symm⟩
  | cons n names ih =>
    have hany : ((acc.map Value.text).any fun field => Value.equal field (.text n)) = true ↔
        n ∈ acc := by
      rw [List.any_eq_true]
      constructor
      · rintro ⟨v, hv, heq⟩
        obtain ⟨m, hm, rfl⟩ := List.mem_map.mp hv
        rw [Value.equal, beq_iff_eq] at heq
        exact heq ▸ hm
      · intro hn
        refine ⟨.text n, List.mem_map_of_mem hn, ?_⟩
        rw [Value.equal]
        exact beq_self_eq_true n
    rw [List.map_cons, List.foldl_cons, State.addField]
    split
    · next h =>
      obtain ⟨all, hall, hnd, hmem, -⟩ := ih acc hacc
      refine ⟨all, hall, hnd, fun m hm => (hmem m hm).imp_right (List.mem_cons_of_mem n), ?_⟩
      intro hdistinct
      exact absurd rfl ((List.nodup_append.mp hdistinct).2.2 n (hany.mp h) n List.mem_cons_self)
    · next h =>
      have hn : n ∉ acc := fun hn => h (hany.mpr hn)
      have hacc' : (acc ++ [n]).Nodup := by
        refine List.nodup_append.mpr ⟨hacc, List.nodup_singleton n, fun a ha b hb hab => ?_⟩
        rw [List.mem_singleton.mp hb] at hab
        exact hn (hab ▸ ha)
      obtain ⟨all, hall, hnd, hmem, hsame⟩ := ih (acc ++ [n]) hacc'
      rw [List.map_append] at hall
      refine ⟨all, hall, hnd, fun m hm => ?_, fun hdistinct => ?_⟩
      · rcases hmem m hm with hm | hm
        · rcases List.mem_append.mp hm with hm | hm
          · exact .inl hm
          · exact .inr (List.mem_singleton.mp hm ▸ List.mem_cons_self)
        · exact .inr (List.mem_cons_of_mem n hm)
      · rw [hsame (by rw [List.append_assoc, List.singleton_append]; exact hdistinct),
          List.append_assoc, List.singleton_append]

/-- A plain request with counts that can be written asks for a plain state. -/
theorem Request.Plain.state {r : Request} (h : r.Plain) (hc : r.Countable) :
    (r.apply .empty).Plain := by
  rw [apply_empty]
  have hclause : ∀ e ∈ r.predicates, ∃ c ∈ r.filters,
      (c.field, (⟨c.operator, c.operator.parse c.operand⟩ : Predicate)) = e :=
    fun e he => List.mem_map.mp (Keyed.mem_of_mem_ofList he)
  refine ⟨Keyed.nodup_ofList _, ?_, ?_, ?_, ?_, ?_⟩
  · intro e he
    obtain ⟨c, hcl, rfl⟩ := hclause e he
    exact h.fields c hcl
  · intro e he
    obtain ⟨c, hcl, rfl⟩ := hclause e he
    unfold Predicate.Stable
    dsimp only
    split
    · next hnum => exact ⟨_, Operator.parse_of_isNumeric hnum _, h.numbers c hcl hnum⟩
    · next hnum => exact ⟨_, Operator.parse_of_not_isNumeric hnum _⟩
  · intro o ho
    obtain ⟨c, hco, rfl⟩ := Option.map_eq_some_iff.mp ho
    exact ⟨c.field, rfl, h.order c hco⟩
  · intro w hw
    dsimp only [Request.window] at hw
    split at hw
    · exact absurd hw (by simp)
    · next hsome =>
      refine ⟨r.limit, r.offset, (Option.some.inj hw).symm, ?_, hc.limit, hc.offset⟩
      cases hl : r.limit with
      | some n => exact .inl rfl
      | none =>
        cases ho : r.offset with
        | some n => exact .inr rfl
        | none =>
          rw [hl, ho] at hsome
          exact absurd rfl hsome
  · obtain ⟨all, hall, hnd, hmem, -⟩ := gather_names r.expand [] List.nodup_nil
    refine ⟨all, hall, hnd, fun n hn => ?_⟩
    rcases hmem n hn with hnil | hn
    · exact absurd hnil List.not_mem_nil
    · exact h.names n hn

/-- Clauses that ask for predicates on distinct fields ask for those predicates. -/
theorem forall₂_predicates {similar : Predicate → Predicate → Prop} {clauses : List Clause}
    {filter : Keyed Predicate} (h : List.Forall₂ (Clause.Matches similar) clauses filter)
    (hd : (Keyed.keys filter).Nodup) :
    List.Forall₂ (fun e f => e.1 = f.1 ∧ similar e.2 f.2)
      (Keyed.ofList (clauses.map fun c =>
        (c.field, (⟨c.operator, c.operator.parse c.operand⟩ : Predicate)))) filter := by
  have hall : List.Forall₂ (fun e f => e.1 = f.1 ∧ similar e.2 f.2)
      (clauses.map fun c => (c.field, (⟨c.operator, c.operator.parse c.operand⟩ : Predicate)))
      filter :=
    List.forall₂_map_left_iff.mpr h
  have hkeys : Keyed.keys (clauses.map fun c =>
      (c.field, (⟨c.operator, c.operator.parse c.operand⟩ : Predicate))) = Keyed.keys filter := by
    revert hall
    generalize clauses.map _ = entries
    intro hall
    clear hd h
    induction hall with
    | nil => rfl
    | cons hef _ ih =>
      rw [Keyed.keys, Keyed.keys, List.map_cons, List.map_cons, hef.1]
      exact congrArg _ ih
  rw [Keyed.ofList_of_nodup (hkeys ▸ hd)]
  exact hall

/-- The text of an order by a name is read as that order, and no text as none. -/
theorem reads_order {sort : Option Order}
    (h : ∀ o, sort = some o → ∃ field, o.field = .text field ∧ OrderName field) :
    ∃ (texts : List String) (clause : Option OrderClause),
      State.orderText sort = .ok texts ∧ (texts = [] ↔ sort = none) ∧
      clause.map OrderClause.order = sort ∧
      Reads texts fun r => { r with order := clause.elim r.order some } := by
  cases sort with
  | none => exact ⟨[], none, rfl, ⟨fun _ => rfl, fun _ => rfl⟩, rfl, Reads.none⟩
  | some o =>
    obtain ⟨field, hfield, hname⟩ := h o rfl
    obtain ⟨_, d⟩ := o
    dsimp only at hfield
    subst hfield
    refine ⟨_, some ⟨field, d⟩, rfl, ?_, rfl, reads_orderText hname d⟩
    exact ⟨fun h => absurd h (List.cons_ne_nil _ _), fun h => absurd h (by simp)⟩

/-- The text of a window of counts. -/
def windowText (window : Option Window) : Outcome (List String) :=
  match window with
  | none => .ok []
  | some w => do
    let limit ← State.boundText "limit" w.limit
    let offset ← State.boundText "offset" w.offset
    .ok (limit ++ offset)

/-- The text of a window of counts is read as those counts, and no text as none. -/
theorem reads_window {window : Option Window}
    (h : ∀ w, window = some w → ∃ limit offset, w = .ofCounts limit offset ∧
      (∀ n, limit = some n → WritableCount n) ∧ ∀ n, offset = some n → WritableCount n) :
    ∃ (texts : List String) (limit offset : Option Nat),
      windowText window = .ok texts ∧ (texts = [] ↔ limit = none ∧ offset = none) ∧
      window.getD (.ofCounts none none) = .ofCounts limit offset ∧
      Reads texts fun r =>
        { r with limit := limit.elim r.limit some, offset := offset.elim r.offset some } := by
  cases window with
  | none => exact ⟨[], none, none, rfl, ⟨fun _ => ⟨rfl, rfl⟩, fun _ => rfl⟩, rfl, Reads.none⟩
  | some w =>
    obtain ⟨limit, offset, rfl, hl, ho⟩ := h w rfl
    obtain ⟨ls, hls, hlnil, hlread⟩ := reads_boundText (forall_mem_of_all (by decide)) add_limit limit hl
    obtain ⟨os, hos, honil, horead⟩ := reads_boundText (forall_mem_of_all (by decide)) add_offset offset ho
    refine ⟨ls ++ os, limit, offset, ?_, ?_, rfl, ?_⟩
    · unfold windowText Window.ofCounts
      dsimp only
      rw [hls, hos]
      rfl
    · rw [List.append_eq_nil_iff, hlnil, honil]
    · have hchange : (fun r : Request =>
          { r with limit := limit.elim r.limit some, offset := offset.elim r.offset some }) =
          (offset.elim id fun n r => { r with offset := some n }) ∘
            (limit.elim id fun n r => { r with limit := some n }) := by
        cases limit <;> cases offset <;> rfl
      rw [hchange]
      exact hlread.append horead

/-- A window that gives a count is the window of the counts that it is read as. -/
theorem window_of_getD {window : Option Window} {limit offset : Option Nat}
    (hsome : ∀ w, window = some w → w.limit.isSome ∨ w.offset.isSome)
    (h : window.getD (.ofCounts none none) = .ofCounts limit offset) :
    (if limit.isNone && offset.isNone then none else some (.ofCounts limit offset)) = window := by
  cases window with
  | none =>
    cases limit <;> cases offset <;> first
      | rfl
      | exact (nomatch h)
  | some w =>
    obtain rfl : w = .ofCounts limit offset := h
    have hcount := hsome _ rfl
    cases limit <;> cases offset <;> first
      | rfl
      | exact absurd hcount (by decide)

/-- The parts of a state's text, with those of the window by name. -/
theorem parts_eq (s : State) :
    s.parts = (do
      let filters ← s.filter.mapM fun e => State.predicateText e.1 e.2
      let sort ← State.orderText s.sort
      let window ← windowText s.window
      let expand ← State.expandText s.expand
      .ok (filters ++ sort ++ window ++ expand)) := by
  obtain ⟨filter, sort, window, expand⟩ := s
  unfold State.parts
  cases window with
  | none => rfl
  | some w =>
    simp only [windowText, bind_assoc]

/-- The text of a state whose parts are read in turn: it has no slash, is empty exactly if it has no
parts, and is read as what the parts are read as. -/
theorem readable_of_parts {s : State} {fs ss ws es : List String} {clauses : List Clause}
    {order : Option OrderClause} {limit offset : Option Nat} {names : List String}
    (hfs : (s.filter.mapM fun e => State.predicateText e.1 e.2) = .ok fs)
    (hss : State.orderText s.sort = .ok ss) (hws : windowText s.window = .ok ws)
    (hes : State.expandText s.expand = .ok es)
    (hfread : Reads fs fun r => { r with filters := r.filters ++ clauses })
    (hsread : Reads ss fun r => { r with order := order.elim r.order some })
    (hwread : Reads ws fun r =>
      { r with limit := limit.elim r.limit some, offset := offset.elim r.offset some })
    (heread : Reads es fun r => if names = [] then r else { r with expand := names }) :
    ∃ text, s.text = .ok text ∧ '/' ∉ text.toList ∧ (text = "" ↔ fs ++ ss ++ ws ++ es = []) ∧
      readRequest text.toList = .ok ⟨clauses, order, limit, offset, names⟩ := by
  have hreads := ((hfread.append hsread).append hwread).append heread
  have hparts : s.parts = .ok (fs ++ ss ++ ws ++ es) := by
    rw [parts_eq, hfs, hss, hws, hes]
    rfl
  have htext : s.text = .ok (Split.join "&" (fs ++ ss ++ ws ++ es)) := by
    rw [State.text, hparts]
    rfl
  have hslash : '/' ∉ (Split.join "&" (fs ++ ss ++ ws ++ es)).toList := by
    intro hmem
    rcases Split.mem_join hmem with hsep | ⟨p, hp, hc⟩
    · exact absurd hsep (by decide)
    · exact (hreads.unparted p hp).2 hc
  have hnil : Split.join "&" (fs ++ ss ++ ws ++ es) = "" ↔ fs ++ ss ++ ws ++ es = [] := by
    constructor
    · intro hjoin
      cases hp : fs ++ ss ++ ws ++ es with
      | nil => rfl
      | cons p ps =>
        rw [hp] at hjoin hreads
        exact absurd hjoin (Split.join_ne_empty (hreads.nonempty p List.mem_cons_self))
    · intro hp
      rw [hp]
      rfl
  have hread : readRequest (Split.join "&" (fs ++ ss ++ ws ++ es)).toList =
      Request.empty.addParts ((fs ++ ss ++ ws ++ es).map String.toList) := by
    by_cases hp : fs ++ ss ++ ws ++ es = []
    · rw [hp]
      rfl
    · rw [readRequest, show "&" = String.singleton '&' from rfl,
        Split.every_join hp fun p hmem => (hreads.unparted p hmem).1]
  have hrequest : Request.empty.addParts ((fs ++ ss ++ ws ++ es).map String.toList) =
      .ok ⟨clauses, order, limit, offset, names⟩ := by
    rw [hreads.read]
    cases order <;> cases limit <;> cases offset <;> cases names <;> rfl
  exact ⟨_, htext, hslash, hnil, hread.trans hrequest⟩

/-- A plain name can be written in a list. -/
theorem listedName_of_plain {name : String} (h : PlainName name) : ListedName name := by
  have hall : ∀ c ∈ ['/', '&', '%', ','], c ∈ marks := forall_mem_of_all (by decide)
  exact ⟨h.nonempty, fun c hc => h.not_mem (hall c hc), Blank.trimOf_eq_self h.unblank⟩

/-- The text of a state whose names and counts can be written and whose predicates are read as similar
ones: it has no slash, is empty exactly if nothing is asked, and is read as a request that asks for
the same but for the predicates, which are similar. -/
theorem readable_of_similar {similar : Predicate → Predicate → Prop} {s : State}
    (hdistinct : (Keyed.keys s.filter).Nodup)
    (hfilter : ∀ e ∈ s.filter, KeyName e.1 e.2.operator ∧ ∃ text operand,
      WrittenAs e.2 text operand ∧ similar ⟨e.2.operator, e.2.operator.parse operand⟩ e.2)
    (hsort : ∀ o, s.sort = some o → ∃ field, o.field = .text field ∧ PlainName field)
    (hwindow : ∀ w, s.window = some w → ∃ limit offset, w = .ofCounts limit offset ∧
      (limit.isSome ∨ offset.isSome) ∧ (∀ n, limit = some n → WritableCount n) ∧
      ∀ n, offset = some n → WritableCount n)
    (hexpand : ∃ names : List String, s.expand = names.map .text ∧ names.Nodup ∧
      ∀ n ∈ names, PlainName n) :
    ∃ text r, s.text = .ok text ∧ '/' ∉ text.toList ∧ (text = "" ↔ s.isEmpty = true) ∧
      readRequest text.toList = .ok r ∧
      List.Forall₂ (fun e f => e.1 = f.1 ∧ similar e.2 f.2) (r.apply .empty).filter s.filter ∧
      (r.apply .empty).sort = s.sort ∧ (r.apply .empty).window = s.window ∧
      (r.apply .empty).expand = s.expand := by
  have horder : ∀ o, s.sort = some o → ∃ field, o.field = .text field ∧ OrderName field := by
    intro o ho
    obtain ⟨field, hfield, hname⟩ := hsort o ho
    have hall : ∀ c ∈ ['/', '&', '%'], c ∈ marks := forall_mem_of_all (by decide)
    exact ⟨field, hfield, hname.nonempty, fun c hc => hname.not_mem (hall c hc)⟩
  have hcounts : ∀ w, s.window = some w → ∃ limit offset, w = .ofCounts limit offset ∧
      (∀ n, limit = some n → WritableCount n) ∧ ∀ n, offset = some n → WritableCount n := by
    intro w hw
    obtain ⟨limit, offset, heq, -, hl, ho⟩ := hwindow w hw
    exact ⟨limit, offset, heq, hl, ho⟩
  have hsome : ∀ w, s.window = some w → w.limit.isSome ∨ w.offset.isSome := by
    intro w hw
    obtain ⟨limit, offset, rfl, hcount, -, -⟩ := hwindow w hw
    exact hcount.imp (fun hl => by rw [← hl]; exact Option.isSome_map)
      fun ho => by rw [← ho]; exact Option.isSome_map
  obtain ⟨fs, clauses, hfs, hmatch, hfnil, hfread⟩ := reads_predicateTexts hfilter
  obtain ⟨ss, order, hss, hsnil, horder, hsread⟩ := reads_order horder
  obtain ⟨ws, limit, offset, hws, hwnil, hwindow, hwread⟩ := reads_window hcounts
  obtain ⟨names, hexpand, hnd, hnames⟩ := hexpand
  obtain ⟨es, hes, henil, heread⟩ :=
    reads_expandText fun n hn => listedName_of_plain (hnames n hn)
  obtain ⟨text, htext, hslash, hnil, hread⟩ :=
    readable_of_parts hfs hss hws (hexpand ▸ hes) hfread hsread hwread heread
  have hwindow := window_of_getD hsome hwindow
  have hwempty : limit = none ∧ offset = none ↔ s.window = none := by
    rw [← hwindow]
    cases limit <;> cases offset <;> simp
  have hempty : fs ++ ss ++ ws ++ es = [] ↔ s.isEmpty = true := by
    simp only [List.append_eq_nil_iff, hfnil, hsnil, hwnil, hwempty, henil, State.isEmpty,
      Bool.and_eq_true, List.isEmpty_iff, Option.isNone_iff_eq_none, hexpand, List.map_eq_nil_iff]
  refine ⟨text, _, htext, hslash, hnil.trans hempty, hread, ?_⟩
  obtain ⟨all, hall, -, -, hsame⟩ := gather_names names [] List.nodup_nil
  have hgather : (names.map Value.text).foldl State.addField [] = s.expand := by
    rw [hsame hnd, List.nil_append] at hall
    rw [hexpand]
    exact hall
  rw [apply_empty]
  exact ⟨forall₂_predicates hmatch hdistinct, horder, hwindow, hgather⟩

/-- The text of a plain state: it has no slash, is empty exactly if nothing is asked, and is read as
a request that asks for the same. -/
theorem readable_of_plain {s : State} (h : s.Plain) :
    ∃ text r, s.text = .ok text ∧ '/' ∉ text.toList ∧ (text = "" ↔ s.isEmpty = true) ∧
      readRequest text.toList = .ok r ∧ (r.apply .empty).Alike s := by
  obtain ⟨text, r, htext, hslash, hempty, hread, hfilter, hsort, hwindow, hexpand⟩ :=
    readable_of_similar h.distinct
      (fun e he => ⟨keyName_of_fieldName (h.fields e he) _,
        exists_writtenAs_of_stable (h.operands e he)⟩) h.order h.window h.expand
  exact ⟨text, r, htext, hslash, hempty, hread, hfilter, hsort, hwindow, hexpand⟩

end ResourceAtlas.Address

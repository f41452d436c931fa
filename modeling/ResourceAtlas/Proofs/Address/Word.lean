import ResourceAtlas.Proofs.Address.Canonical
import ResourceAtlas.Proofs.Address.QueryText

/-!
# Addresses in plain words

A word that means nothing in an address is read as it stands, and so are a position between plain
brackets, an identifier, a coded name and a query behind it. `Spells` says as which segments a piece of
a path is read, whatever stands around it.
-/

namespace ResourceAtlas.Address

open Number Query Text

/-- A word that an address can hold as it is: no head ends in it, it reads as no integer, and its upper
form is no longer than it is. Letters, digits and underscores end no head. -/
structure IsWord (word : String) : Prop where
  /-- It has characters. -/
  nonempty : word ≠ ""
  /-- No head ends before one of them. -/
  unmarked : ∀ c ∈ word.toList, c ∉ headMarks
  /-- Each of them has an upper form of one character. -/
  level : ∀ c ∈ word.toList, (Case.upperChar c).length = 1
  /-- It does not read as an integer. -/
  word : Digit.isInteger word.toList = false

instance (word : String) : Decidable (IsWord word) :=
  decidable_of_iff (word ≠ "" ∧ (word.toList.all fun c => decide (c ∉ headMarks)) = true ∧
      (word.toList.all fun c => decide ((Case.upperChar c).length = 1)) = true ∧
      Digit.isInteger word.toList = false) (by
    simp only [List.all_eq_true, decide_eq_true_eq]
    exact ⟨fun h => ⟨h.1, h.2.1, h.2.2.1, h.2.2.2⟩, fun h => ⟨h.1, h.2, h.3, h.4⟩⟩)

namespace IsWord

variable {word : String}

/-- The characters of a word. -/
theorem toList_ne_nil (h : IsWord word) : word.toList ≠ [] :=
  fun hnil => h.nonempty (String.toList_eq_nil_iff.mp hnil)

/-- No slash is in a word. -/
theorem slash_not_mem (h : IsWord word) : '/' ∉ word.toList :=
  fun hmem => h.unmarked '/' hmem (by decide)

/-- A word has a first character, which is no slash. -/
theorem exists_cons (h : IsWord word) (rest : List Char) :
    ∃ c tail, (Remainder.ofText (word.toList ++ rest)).text = c :: tail ∧ c ≠ '/' := by
  cases hword : word.toList with
  | nil => exact absurd hword h.toList_ne_nil
  | cons c tail =>
    refine ⟨c, tail ++ rest, rfl, ?_⟩
    rintro rfl
    exact h.slash_not_mem (hword ▸ List.mem_cons_self)

/-- No head ends in a word. -/
theorem headLength_eq (h : IsWord word) {rest : List Char} (hrest : StopsHead rest) :
    headLength (word.toList ++ rest) = word.toList.length :=
  headLength_of_unmarked h.unmarked hrest

/-- A word is read as a head. -/
theorem readNext_eq (h : IsWord word) {rest : List Char} (hrest : StopsHead rest)
    (before : List Segment) :
    readNext before (.ofText (word.toList ++ rest)) =
      (readSegment word.toList (.ofText rest)).map fun found => (found.1 :: before, found.2) := by
  have hcoded : '%' ∉ word.toList := fun hmem => h.unmarked '%' hmem (by decide)
  have hdrop := drop_ofText_of_length (upper_length_of_each h.level) rest
  rw [readNext_of_head (h.headLength_eq hrest) hdrop, Percent.decode_eq_self hcoded, h.word]
  rfl

/-- A word after a slash is read as a head with what follows it. -/
theorem readSegments_eq (h : IsWord word) {rest : List Char} (hrest : StopsHead rest)
    {before : List Segment} {s : Segment} {more : Remainder}
    (hs : readSegment word.toList (.ofText rest) = .ok (s, more)) :
    readSegments before (.ofText ('/' :: (word.toList ++ rest))) = readSegments (s :: before) more := by
  obtain ⟨c, tail, htext, hc⟩ := h.exists_cons rest
  rw [readSegments_slash, readSegments_next htext hc, h.readNext_eq hrest, hs]
  rfl

end IsWord

/-- A piece of a path after a slash is read as segments, whatever was read before it and goes on behind
it after a slash. -/
def Spells (piece : List Char) (found : List Segment) : Prop :=
  ∀ before rest, EndsSegment rest →
    readSegments before (.ofText ('/' :: (piece ++ rest))) =
      readSegments (found.reverse ++ before) (.ofText rest)

namespace Spells

variable {piece : List Char} {found : List Segment} {word : String}

/-- A piece at the end of a path is read as its segments. -/
theorem readSegments_eq (h : Spells piece found) (before : List Segment) :
    readSegments before (.ofText ('/' :: piece)) = .ok (before.reverse ++ found) := by
  have hread := h before [] (.inl rfl)
  rw [List.append_nil, readSegments_nil _ (r := .ofText []) rfl, List.reverse_append,
    List.reverse_reverse] at hread
  exact hread

/-- Pieces with a slash between them are read one after the other. -/
theorem append (h : Spells piece found) {next : List Char} {more : List Segment}
    (hnext : Spells next more) : Spells (piece ++ '/' :: next) (found ++ more) := by
  intro before rest hrest
  rw [List.append_assoc, List.cons_append, h before _ (.inr ⟨_, rfl⟩), hnext _ rest hrest,
    List.reverse_append, List.append_assoc]

/-- A word is read as a segment without a qualifier. -/
theorem bare (hw : IsWord word) : Spells word.toList [⟨word, none⟩] := by
  intro before rest hrest
  exact hw.readSegments_eq hrest.stopsHead
    (by rw [readSegment_bare _ hrest, String.ofList_toList])

/-- A word with a position between plain brackets. -/
theorem index (hw : IsWord word) {n : Nat} (hn : n < 10 ^ Numeral.maxDigits) :
    Spells (word.toList ++ '[' :: (Numeral.natText n ++ [']'])) [⟨word, some (.index n)⟩] := by
  intro before rest hrest
  have hread := readSegment_between isBracket_plain word.toList (isSigned_natText n)
    (Numeral.isInteger_natText n) hrest.questionLength?_eq
  rw [readInteger_intText (Numeral.intText?_natText hn), String.ofList_toList] at hread
  have hsplit : word.toList ++ '[' :: (Numeral.natText n ++ [']']) ++ rest =
      word.toList ++ (['['] ++ (Numeral.natText n ++ ([']'] ++ rest))) := by
    simp only [List.append_assoc, List.cons_append, List.nil_append]
  rw [hsplit]
  exact hw.readSegments_eq (.inr rfl) hread

/-- A word with an identifier after a slash. -/
theorem id (hw : IsWord word) {n : Nat} (hn : n < 10 ^ Numeral.maxDigits) :
    Spells (word.toList ++ '/' :: Numeral.natText n) [⟨word, some (.id n)⟩] := by
  intro before rest hrest
  have htext := Numeral.intText?_natText hn
  obtain ⟨c, tail, hcons, hc⟩ := encode_cons (Numeral.intText_ne_nil htext) rest
  rw [Numeral.encode_intText htext] at hcons
  have hbare : readSegment word.toList (.ofText ('/' :: (Numeral.natText n ++ rest))) = _ :=
    readSegment_bare _ (.inr ⟨_, rfl⟩)
  rw [List.append_assoc, List.cons_append, hw.readSegments_eq (.inr rfl) hbare, readSegments_slash,
    readSegments_next hcons hc, String.ofList_toList, readNext_id word _ htext hrest.stopsHead]
  rfl

/-- A written segment whose head reads as no integer. -/
theorem written {s : Segment} (hs : s.Writable) (hstep : s.IsStep)
    (hword : Digit.isInteger s.head.toList = false) : Spells (segmentText s) [s] :=
  fun _ _ hrest => readSegments_segmentText hs hstep (fun _ => hword) (hrest.endsBefore s)

end Spells

/-- A word with a query at the end of a path. -/
theorem IsWord.readSegments_query {word : String} (hw : IsWord word) {query : List Char}
    (hslash : '/' ∉ query) {r : Request} (hr : readRequest query = .ok r) (before : List Segment) :
    readSegments before (.ofText ('/' :: (word.toList ++ '?' :: query))) =
      .ok (before.reverse ++ [asked word r]) := by
  rw [hw.readSegments_eq (.inr rfl) (readSegment_query _ hslash hr),
    readSegments_nil _ (text_afterQuery query), String.ofList_toList, List.reverse_cons]

/-- A field and a coded value are read as a comparison. -/
theorem readRequest_pair {field : String} (h : FieldName field) (value : String) :
    '/' ∉ field.toList ++ '=' :: Percent.encode value.toList ∧
      readRequest (field.toList ++ '=' :: Percent.encode value.toList) =
        .ok { Request.empty with filters := [⟨field, .equals, value⟩] } := by
  have hkey := keyName_of_fieldName h .equals
  have hcoded : (Percent.encodeString value).toList = Percent.encode value.toList := by
    rw [Percent.encodeString, String.toList_ofList]
  have hvalue : ∀ c ∈ ['/', '&'], c ∉ (Percent.encodeString value).toList := by
    have hsep : ∀ c ∈ ['/', '&'], Percent.isUnreserved c = false ∧ c ≠ '%' :=
      forall_mem_of_all (by decide)
    rw [hcoded]
    exact fun c hc => Percent.not_mem_encode (hsep c hc).1 (hsep c hc).2 _
  have hreads : Reads [field ++ "=" ++ Percent.encodeString value]
      fun r => { r with filters := r.filters ++ [⟨field, .equals, value⟩] } :=
    Reads.pair (fun c hc => hkey.unparted c hc) hvalue (fun r => by
      rw [hcoded, Percent.decode_encode]
      have hadd := hkey.add value.toList r
      rw [String.ofList_toList] at hadd
      exact hadd)
  have htext : (field ++ "=" ++ Percent.encodeString value).toList =
      field.toList ++ '=' :: Percent.encode value.toList := by
    rw [String.toList_append, String.toList_append, hcoded, List.append_assoc]
    rfl
  obtain ⟨hand, hslash⟩ := hreads.unparted _ List.mem_cons_self
  rw [htext] at hand hslash
  refine ⟨hslash, ?_⟩
  have hread := hreads.read Request.empty
  rw [List.map_singleton, htext] at hread
  rw [readRequest, Split.every_eq_singleton hand, hread]
  rfl

end ResourceAtlas.Address

import Mathlib.Data.List.TakeWhile
import ResourceAtlas.Address.Lexer
import ResourceAtlas.Proofs.Number.Numeral
import ResourceAtlas.Proofs.Outcome
import ResourceAtlas.Proofs.Text.Split

/-!
# Segments as text and back

`segmentText` is the canonical text of a segment: its coded head, then a position between coded
brackets or an identifier after a slash. Written texts are ASCII, so the rest of a text and the rest
of its upper form are passed over together, and the lexer reads back each segment that was written.
-/

namespace ResourceAtlas.Address

open Number Text

/-- All characters of a text are ASCII. -/
def IsAscii (text : List Char) : Prop :=
  ∀ c ∈ text, c.toNat < 0x80

instance (text : List Char) : Decidable (IsAscii text) :=
  decidable_of_iff ((text.all fun c => decide (c.toNat < 0x80)) = true)
    (by simp only [IsAscii, List.all_eq_true, decide_eq_true_eq])

/-- An ASCII character has an upper form of one character. -/
theorem upperChar_length {c : Char} (h : c.toNat < 0x80) : (Case.upperChar c).length = 1 := by
  unfold Case.upperChar
  dsimp only
  rw [if_pos h]
  split <;> rfl

/-- The upper form of a text is as long as the text if that of every character is one. -/
theorem upper_length_of_each {text : List Char}
    (h : ∀ c ∈ text, (Case.upperChar c).length = 1) : (Case.upper text).length = text.length := by
  induction text with
  | nil => rfl
  | cons c text ih =>
    rw [Case.upper, List.flatMap_cons, List.length_append, h c List.mem_cons_self,
      List.length_cons, Nat.add_comm]
    exact congrArg (· + 1) (ih fun d hd => h d (List.mem_cons_of_mem c hd))

/-- The upper form of an ASCII text is as long as the text. -/
theorem upper_length {text : List Char} (h : IsAscii text) :
    (Case.upper text).length = text.length :=
  upper_length_of_each fun c hc => upperChar_length (h c hc)

/-- The upper form of a text in two parts. -/
theorem upper_append (s t : List Char) : Case.upper (s ++ t) = Case.upper s ++ Case.upper t :=
  List.flatMap_append

/-- A text whose upper form is as long is passed over together with that. -/
theorem drop_ofText_of_length {text : List Char} (h : (Case.upper text).length = text.length)
    (rest : List Char) : (Remainder.ofText (text ++ rest)).drop text.length = .ofText rest := by
  unfold Remainder.ofText Remainder.drop
  rw [List.drop_left, upper_append, ← h, List.drop_left]

/-- An ASCII text is passed over together with its upper form. -/
theorem drop_ofText {text : List Char} (h : IsAscii text) (rest : List Char) :
    (Remainder.ofText (text ++ rest)).drop text.length = .ofText rest :=
  drop_ofText_of_length (upper_length h) rest

/-- A coded text is ASCII. -/
theorem isAscii_encode (text : List Char) : IsAscii (Percent.encode text) :=
  fun _ hc => Percent.ascii_of_isCoded (Percent.isCoded_of_mem_encode hc)

/-- A text at which the head before it ends and no qualifier starts: the end, or a slash. -/
def EndsSegment (text : List Char) : Prop :=
  text = [] ∨ ∃ rest, text = '/' :: rest

/-- The end of a segment has no opening bracket. -/
theorem EndsSegment.openingLength?_eq {text : List Char} (h : EndsSegment text) :
    openingLength? text = none := by
  rcases h with rfl | ⟨rest, rfl⟩ <;> rfl

/-- The end of a segment has no question mark. -/
theorem EndsSegment.questionLength?_eq {text : List Char} (h : EndsSegment text) :
    questionLength? text = none := by
  rcases h with rfl | ⟨rest, rfl⟩ <;> rfl

/-- A text that no head runs into. -/
def StopsHead (text : List Char) : Prop :=
  text = [] ∨ endsHead text = true

/-- The end of a segment ends its head. -/
theorem EndsSegment.stopsHead {text : List Char} (h : EndsSegment text) : StopsHead text := by
  rcases h with rfl | ⟨rest, rfl⟩
  · exact .inl rfl
  · exact .inr rfl

/-- No head runs into such a text. -/
theorem StopsHead.headLength_eq {text : List Char} (h : StopsHead text) : headLength text = 0 := by
  rcases h with rfl | h
  · rfl
  · cases text with
    | nil => rfl
    | cons c rest => rw [headLength, if_pos h]

/-- The characters that a head may end before. -/
def headMarks : List Char := ['/', '[', '%', '?']

/-- No head ends before any other character. -/
theorem endsHead_of_not_mem {c : Char} (h : c ∉ headMarks) (rest : List Char) :
    endsHead (c :: rest) = false := by
  have hne : ∀ d ∈ headMarks, c ≠ d := fun d hd heq => h (heq ▸ hd)
  have h1 := hne '/' (by decide)
  have h2 := hne '[' (by decide)
  have h3 := hne '%' (by decide)
  have h4 := hne '?' (by decide)
  have hopen : openingLength? (c :: rest) = none := by
    unfold openingLength?
    split <;> simp_all
  have hask : questionLength? (c :: rest) = none := by
    unfold questionLength?
    split <;> simp_all
  rw [endsHead, hopen, hask]
  simpa using h1

/-- A text without such characters belongs to the head as a whole. -/
theorem headLength_of_unmarked {text : List Char} (h : ∀ c ∈ text, c ∉ headMarks)
    {rest : List Char} (hrest : StopsHead rest) : headLength (text ++ rest) = text.length := by
  induction text with
  | nil => exact hrest.headLength_eq
  | cons c text ih =>
    rw [List.cons_append, headLength, endsHead_of_not_mem (h c List.mem_cons_self),
      if_neg Bool.false_ne_true, ih fun d hd => h d (List.mem_cons_of_mem c hd), List.length_cons]

/-- No head ends before a character that is unreserved. -/
theorem endsHead_of_isUnreserved {c : Char} (h : Percent.isUnreserved c = true)
    (rest : List Char) : endsHead (c :: rest) = false := by
  refine endsHead_of_not_mem (fun hmem => ?_) rest
  have hall : ∀ d ∈ headMarks, Percent.isUnreserved d = false := forall_mem_of_all (by decide)
  rw [hall c hmem] at h
  exact Bool.false_ne_true h

/-- The first of two hexadecimal digits decides its value, as the second does. -/
theorem hexDigit_value {n v : Nat} {c : Char} (hn : n < 16) (hc : Percent.hexDigit n = c)
    (hv : Percent.hexValue? c = some v) : n = v := by
  subst hc
  rw [Percent.hexValue?_hexDigit hn] at hv
  exact Option.some.inj hv

/-- No head ends before an octet in hexadecimal digits other than those of an opening bracket and a
question mark. -/
theorem endsHead_encodeOctet {b : UInt8} (hopen : b.toNat ≠ 0x5B) (hask : b.toNat ≠ 0x3F)
    (rest : List Char) : endsHead ('%' :: Percent.hexDigit (b.toNat / 16) ::
      Percent.hexDigit (b.toNat % 16) :: rest) = false := by
  have hb : b.toNat < 256 := b.toNat_lt
  have hhigh := fun c v => hexDigit_value (n := b.toNat / 16) (v := v) (c := c) (by omega)
  have hlow := fun c v => hexDigit_value (n := b.toNat % 16) (v := v) (c := c) (by omega)
  revert hhigh hlow
  generalize Percent.hexDigit (b.toNat / 16) = high
  generalize Percent.hexDigit (b.toNat % 16) = low
  intro hhigh hlow
  have hbracket : openingLength? ('%' :: high :: low :: rest) = none := by
    unfold openingLength?
    split
    · next heq => cases heq
    · next heq =>
      cases heq
      have h1 := hhigh '5' 5 rfl rfl
      have h2 := hlow 'B' 11 rfl rfl
      omega
    · next heq =>
      cases heq
      have h1 := hhigh '5' 5 rfl rfl
      have h2 := hlow 'b' 11 rfl rfl
      omega
    · rfl
  have hmark : questionLength? ('%' :: high :: low :: rest) = none := by
    unfold questionLength?
    split
    · next heq => cases heq
    · next heq =>
      cases heq
      have h1 := hhigh '3' 3 rfl rfl
      have h2 := hlow 'F' 15 rfl rfl
      omega
    · next heq =>
      cases heq
      have h1 := hhigh '3' 3 rfl rfl
      have h2 := hlow 'f' 15 rfl rfl
      omega
    · rfl
  rw [endsHead, hbracket, hmark]
  rfl

/-- Such an octet belongs to the head as a whole. -/
theorem headLength_encodeOctet {b : UInt8} (hopen : b.toNat ≠ 0x5B) (hask : b.toNat ≠ 0x3F)
    (rest : List Char) :
    headLength (Percent.encodeOctet b ++ rest) = headLength rest + 3 := by
  have hb : b.toNat < 256 := b.toNat_lt
  have hhigh := Percent.isUnreserved_hexDigit (n := b.toNat / 16) (by omega)
  have hlow := Percent.isUnreserved_hexDigit (n := b.toNat % 16) (by omega)
  rw [Percent.encodeOctet, List.cons_append, List.cons_append, List.cons_append, List.nil_append,
    headLength, endsHead_encodeOctet hopen hask, headLength, endsHead_of_isUnreserved hhigh,
    headLength, endsHead_of_isUnreserved hlow]
  rfl

/-- The coded form of a character other than an opening bracket and a question mark belongs to the
head as a whole. -/
theorem headLength_encodeChar {c : Char} (hopen : c ≠ '[') (hask : c ≠ '?') (rest : List Char) :
    headLength (Percent.encodeChar c ++ rest) =
      headLength rest + (Percent.encodeChar c).length := by
  unfold Percent.encodeChar
  split
  · next h =>
    rw [List.singleton_append, headLength, endsHead_of_isUnreserved h]
    rfl
  · have hoctet : ∀ b ∈ Utf8.encodeChar c, b.toNat ≠ 0x5B ∧ b.toNat ≠ 0x3F := by
      intro b hb
      constructor
      · intro heq
        have hc := Utf8.encodeChar_of_mem_ascii hb (by omega)
        exact hopen (Char.toNat_inj.mp (hc.symm.trans heq))
      · intro heq
        have hc := Utf8.encodeChar_of_mem_ascii hb (by omega)
        exact hask (Char.toNat_inj.mp (hc.symm.trans heq))
    revert hoctet
    generalize Utf8.encodeChar c = octets
    intro hoctet
    induction octets with
    | nil => rfl
    | cons b octets ih =>
      have hb := hoctet b List.mem_cons_self
      rw [List.flatMap_cons, List.append_assoc, headLength_encodeOctet hb.1 hb.2,
        ih fun d hd => hoctet d (List.mem_cons_of_mem b hd), List.length_append]
      have h3 : (Percent.encodeOctet b).length = 3 := rfl
      omega

/-- The coded form of a head without opening brackets and question marks is read as a whole. -/
theorem headLength_encode {head : List Char} (hopen : '[' ∉ head) (hask : '?' ∉ head)
    {rest : List Char} (hrest : StopsHead rest) :
    headLength (Percent.encode head ++ rest) = (Percent.encode head).length := by
  induction head with
  | nil => exact hrest.headLength_eq
  | cons c head ih =>
    rw [List.mem_cons, not_or] at hopen hask
    have hcode : Percent.encode (c :: head) = Percent.encodeChar c ++ Percent.encode head :=
      List.flatMap_cons
    rw [hcode, List.append_assoc, headLength_encodeChar (Ne.symm hopen.1) (Ne.symm hask.1),
      ih hopen.2 hask.2, List.length_append, Nat.add_comm]

/-- A text that is read as a head is read, and what follows is left. -/
theorem readNext_of_head {text rest : List Char} {after : Remainder}
    (hlength : headLength (text ++ rest) = text.length)
    (hdrop : (Remainder.ofText (text ++ rest)).drop text.length = after)
    (before : List Segment) :
    readNext before (.ofText (text ++ rest)) =
      match if Digit.isInteger (Percent.decode text) then unqualified? before else none with
      | some (last, others) => (readInteger (Percent.decode text)).map fun n =>
          (⟨last, some (.id n)⟩ :: others, after)
      | none => (readSegment (Percent.decode text) after).map fun found =>
          (found.1 :: before, found.2) := by
  have htext : ∀ text, (Remainder.ofText text).text = text := fun _ => rfl
  unfold readNext
  dsimp only
  rw [htext, hlength, List.take_left, hdrop]
  generalize (if Digit.isInteger (Percent.decode text) = true then unqualified? before else none) =
    folded
  cases folded with
  | some _ => cases readInteger (Percent.decode text) <;> rfl
  | none => cases readSegment (Percent.decode text) after <;> rfl

/-- A written head is read, and what follows is left. -/
theorem readNext_encode {head : String} (hopen : '[' ∉ head.toList) (hask : '?' ∉ head.toList)
    {rest : List Char} (hrest : StopsHead rest) (before : List Segment) :
    readNext before (.ofText (Percent.encode head.toList ++ rest)) =
      match if Digit.isInteger head.toList then unqualified? before else none with
      | some (last, others) => (readInteger head.toList).map fun n =>
          (⟨last, some (.id n)⟩ :: others, Remainder.ofText rest)
      | none => (readSegment head.toList (.ofText rest)).map fun found =>
          (found.1 :: before, found.2) := by
  rw [readNext_of_head (headLength_encode hopen hask hrest) (drop_ofText (isAscii_encode _) rest),
    Percent.decode_encode]

/-- What is read as a bracket at a remainder, if it is read. -/
inductive Bracket.ReadAt (r : Remainder) : Bracket → Prop
  /-- No bracket opens. -/
  | none (hopening : openingLength? r.text = none) : ReadAt r ⟨[], none, r⟩
  /-- One opens and does not close. It belongs to the head, with what follows up to the next mark. -/
  | opened {opening : Nat} (hopening : openingLength? r.text = some opening)
      (hat : Split.atWord (closingFor opening) (r.drop opening).upper = .none) :
      ReadAt r ⟨Percent.decode (r.text.take (opening + headLength (r.drop opening).text)), .none,
        r.drop (opening + headLength (r.drop opening).text)⟩
  /-- One closes around an integer, which is a position. -/
  | position {opening : Nat} {before after : List Char} {n : Int}
      (hopening : openingLength? r.text = some opening)
      (hat : Split.atWord (closingFor opening) (r.drop opening).upper = some (before, after))
      (hint : Digit.isInteger (Percent.decode ((r.drop opening).text.take before.length)) = true)
      (hn : readInteger (Percent.decode ((r.drop opening).text.take before.length)) = .ok n) :
      ReadAt r ⟨[], some n, r.drop (opening + before.length + (closingFor opening).length)⟩
  /-- One closes around something else and belongs to the head as a whole. -/
  | named {opening : Nat} {before after : List Char}
      (hopening : openingLength? r.text = some opening)
      (hat : Split.atWord (closingFor opening) (r.drop opening).upper = some (before, after))
      (hint : Digit.isInteger (Percent.decode ((r.drop opening).text.take before.length)) = false) :
      ReadAt r ⟨'[' :: Percent.decode ((r.drop opening).text.take before.length) ++ [']'], .none,
        r.drop (opening + before.length + (closingFor opening).length)⟩

/-- A bracket is read in one of these ways. -/
theorem readBracket_eq_ok {r : Remainder} {b : Bracket} : readBracket r = .ok b ↔ b.ReadAt r := by
  constructor
  · intro h
    unfold readBracket at h
    split at h
    · next hopening =>
      obtain rfl := Except.ok.inj h
      exact .none hopening
    · next opening hopening =>
      dsimp only at h
      split at h
      · next hat =>
        obtain rfl := Except.ok.inj h
        exact .opened hopening hat
      · next before after hat =>
        split at h
        · next hint =>
          obtain ⟨n, hn, h⟩ := bind_eq_ok.mp h
          obtain rfl := Except.ok.inj h
          exact .position hopening hat hint hn
        · next hint =>
          obtain rfl := Except.ok.inj h
          exact .named hopening hat (Bool.of_not_eq_true hint)
  · intro h
    unfold readBracket
    cases h with
    | none hopening => rw [hopening]
    | opened hopening hat =>
      rw [hopening]
      dsimp only
      rw [hat]
    | position hopening hat hint hn =>
      rw [hopening]
      dsimp only
      rw [hat]
      dsimp only
      rw [if_pos hint, hn]
      rfl
    | named hopening hat hint =>
      rw [hopening]
      dsimp only
      rw [hat]
      dsimp only
      rw [hint]
      rfl

/-- A segment is read as its bracket and its query are. Of these the query qualifies it first. -/
theorem readSegment_eq_ok {head : List Char} {r rest : Remainder} {s : Segment} :
    readSegment head r = .ok (s, rest) ↔
      ∃ bracket request, readBracket r = .ok bracket ∧
        readQuery bracket.rest = .ok (request, rest) ∧
        s = ⟨String.ofList (head ++ bracket.more),
          (request.map .query).or (bracket.position.map .index)⟩ := by
  constructor
  · intro h
    obtain ⟨bracket, hbracket, h⟩ := bind_eq_ok.mp h
    obtain ⟨⟨request, after⟩, hquery, h⟩ := bind_eq_ok.mp h
    obtain ⟨rfl, rfl⟩ := Prod.mk.inj (Except.ok.inj h)
    refine ⟨bracket, request, hbracket, hquery, ?_⟩
    cases request <;> rfl
  · rintro ⟨bracket, request, hbracket, hquery, rfl⟩
    refine bind_eq_ok.mpr ⟨bracket, hbracket, bind_eq_ok.mpr ⟨_, hquery, ?_⟩⟩
    cases request <;> rfl

/-- Where a segment ends its head stands alone. -/
theorem readSegment_of_ends (head : List Char) {r : Remainder} (h : EndsSegment r.text) :
    readSegment head r = .ok (⟨String.ofList head, none⟩, r) := by
  have hb : readBracket r = .ok ⟨[], none, r⟩ :=
    readBracket_eq_ok.mpr (.none h.openingLength?_eq)
  have hq : readQuery r = .ok (none, r) := by
    unfold readQuery
    rw [h.questionLength?_eq]
  unfold readSegment
  rw [hb]
  simp only [bind, Except.bind]
  rw [hq]
  simp only [List.append_nil, Option.map_none]

/-- At the end of a segment its head stands alone. -/
theorem readSegment_bare (head : List Char) {rest : List Char} (h : EndsSegment rest) :
    readSegment head (.ofText rest) = .ok (⟨String.ofList head, none⟩, .ofText rest) :=
  readSegment_of_ends head h

/-- What is left when a query has been read up to the end: no text. -/
def afterQuery (query : List Char) : Remainder :=
  (Remainder.ofText ('?' :: query)).drop (1 + query.length)

/-- No text is left after a query. -/
theorem text_afterQuery (query : List Char) : (afterQuery query).text = [] := by
  rw [afterQuery, Remainder.text_drop, Nat.add_comm]
  exact List.drop_length

/-- A query text without slashes is read up to the end. -/
theorem readQuery_written {query : List Char} (h : '/' ∉ query) :
    readQuery (.ofText ('?' :: query)) =
      (readRequest query).map fun r => (some r, afterQuery query) := by
  have htake : query.takeWhile (· != '/') = query := by
    rw [List.takeWhile_eq_self_iff]
    intro c hc
    rw [bne_iff_ne]
    rintro rfl
    exact h hc
  unfold readQuery
  rw [show questionLength? (Remainder.ofText ('?' :: query)).text = some 1 from rfl]
  dsimp only
  rw [show (Remainder.ofText ('?' :: query)).text.drop 1 = query from rfl, htake]
  rfl

/-- A query takes the place of a position. -/
def asked (head : String) (r : Request) : Segment := ⟨head, some (.query r)⟩

/-- A head with a query is read as such. -/
theorem readSegment_query (head : List Char) {query : List Char} (h : '/' ∉ query) {r : Request}
    (hr : readRequest query = .ok r) :
    readSegment head (.ofText ('?' :: query)) =
      .ok (asked (String.ofList head) r, afterQuery query) := by
  have hb : readBracket (.ofText ('?' :: query)) = .ok ⟨[], none, .ofText ('?' :: query)⟩ := rfl
  unfold readSegment
  rw [hb]
  simp only [bind, Except.bind]
  rw [readQuery_written h, hr, Except.map]
  simp only [List.append_nil, asked]

/-- The text of a position. -/
def indexText (digits : List Char) : List Char :=
  "%5B".toList ++ digits ++ "%5D".toList

/-- The characters of a text are those of a written integer: basic digits and the minus. -/
def IsSigned (text : List Char) : Prop :=
  ∀ c ∈ text, c.isDigit = true ∨ c = '-'

/-- The text of an integer has the characters of one. -/
theorem isSigned_intText {n : Int} {text : List Char} (h : Numeral.intText? n = some text) :
    IsSigned text :=
  fun _ hc => Numeral.isDigit_or_minus_of_mem_intText h hc

/-- The text of a natural number has the characters of an integer. -/
theorem isSigned_natText (n : Nat) : IsSigned (Numeral.natText n) :=
  fun _ hc => .inl (Numeral.isDigit_of_mem_natText hc)

namespace IsSigned

variable {text : List Char}

/-- The characters of a written integer need no percent coding. -/
theorem isUnreserved (h : IsSigned text) {c : Char} (hc : c ∈ text) :
    Percent.isUnreserved c = true := by
  rcases h c hc with hd | rfl
  · exact Numeral.isUnreserved_of_isDigit hd
  · decide

/-- A written integer has no percent sign. -/
theorem not_percent_mem (h : IsSigned text) : '%' ∉ text :=
  fun hmem => absurd (h.isUnreserved hmem) (by decide)

/-- The upper form of a written integer is the same text. -/
theorem upper_eq (h : IsSigned text) : Case.upper text = text := by
  have hchar : ∀ c ∈ text, Case.upperChar c = [c] := by
    intro c hc
    rcases h c hc with hd | rfl
    · have hb := Numeral.toNat_of_isDigit hd
      unfold Case.upperChar
      dsimp only
      rw [if_pos (by omega), if_neg (by omega)]
    · rfl
  clear h
  induction text with
  | nil => rfl
  | cons c text ih =>
    rw [Case.upper, List.flatMap_cons, hchar c List.mem_cons_self, List.singleton_append]
    exact congrArg (c :: ·) (ih fun d hd => hchar d (List.mem_cons_of_mem c hd))

end IsSigned

/-- Two texts that open and close a bracket, in one of its spellings. -/
structure IsBracket (opening closing : List Char) : Prop where
  /-- The first one opens a bracket. -/
  opens : ∀ rest, openingLength? (opening ++ rest) = some opening.length
  /-- The second one closes it, in upper case. -/
  closes : Case.upper closing = closingFor opening.length
  /-- The first one is ASCII. -/
  openingAscii : IsAscii opening
  /-- The second one is ASCII. -/
  closingAscii : IsAscii closing

/-- A bracket as it is. -/
theorem isBracket_plain : IsBracket ['['] [']'] :=
  ⟨fun _ => rfl, by decide, by decide, by decide⟩

/-- A coded bracket. -/
theorem isBracket_coded : IsBracket "%5B".toList "%5D".toList :=
  ⟨fun _ => rfl, by decide, by decide, by decide⟩

/-- A bracket coded in small letters. -/
theorem isBracket_lower : IsBracket "%5b".toList "%5d".toList :=
  ⟨fun _ => rfl, by decide, by decide, by decide⟩

/-- The spellings of a bracket: as it is, or coded in letters of one case. -/
def brackets : List (List Char × List Char) :=
  [("[".toList, "]".toList), ("%5B".toList, "%5D".toList), ("%5b".toList, "%5d".toList)]

/-- The spellings of a bracket open and close one. -/
theorem isBracket_of_mem {b : List Char × List Char} (h : b ∈ brackets) : IsBracket b.1 b.2 := by
  simp only [brackets, List.mem_cons, List.not_mem_nil, or_false] at h
  rcases h with rfl | rfl | rfl
  · exact isBracket_plain
  · exact isBracket_coded
  · exact isBracket_lower

/-- A bracket ends a head. -/
theorem stopsHead_opening {b : List Char × List Char} (h : b ∈ brackets) (rest : List Char) :
    StopsHead (b.1 ++ rest) := by
  simp only [brackets, List.mem_cons, List.not_mem_nil, or_false] at h
  rcases h with rfl | rfl | rfl <;> exact .inr rfl

/-- No written integer holds what closes a bracket. -/
theorem IsSigned.atWord_closingFor {digits : List Char} (h : IsSigned digits) (opening : Nat)
    (after : List Char) :
    Split.atWord (closingFor opening) (digits ++ closingFor opening ++ after) =
      some (digits, after) := by
  have hclose : ']' ∉ digits := fun hmem => absurd (h.isUnreserved hmem) (by decide)
  unfold closingFor
  split
  · exact Split.atWord_append hclose after
  · exact Split.atWord_append h.not_percent_mem after

/-- An integer between brackets is read as the position that it writes. -/
theorem readBracket_between {opening closing : List Char} (hb : IsBracket opening closing)
    {digits : List Char} (h : IsSigned digits) (hint : Digit.isInteger digits = true)
    (rest : List Char) :
    readBracket (.ofText (opening ++ (digits ++ (closing ++ rest)))) =
      (readInteger digits).map fun n => ⟨[], some n, .ofText rest⟩ := by
  have hinside := drop_ofText hb.openingAscii (digits ++ (closing ++ rest))
  have hafter : (Remainder.ofText (opening ++ (digits ++ (closing ++ rest)))).drop
      (opening.length + digits.length + (closingFor opening.length).length) = .ofText rest := by
    have hascii : IsAscii (opening ++ digits ++ closing) := by
      intro c hc
      rcases List.mem_append.mp hc with hc | hc
      · rcases List.mem_append.mp hc with hc | hc
        · exact hb.openingAscii c hc
        · exact Percent.ascii_of_isUnreserved (h.isUnreserved hc)
      · exact hb.closingAscii c hc
    have hdrop := drop_ofText hascii rest
    rw [List.append_assoc, List.append_assoc, List.append_assoc] at hdrop
    rw [← hb.closes, upper_length hb.closingAscii, ← List.length_append, ← List.length_append,
      List.append_assoc]
    exact hdrop
  have hupper : Case.upper (digits ++ (closing ++ rest)) =
      digits ++ closingFor opening.length ++ Case.upper rest := by
    rw [upper_append, upper_append, h.upper_eq, hb.closes, List.append_assoc]
  unfold readBracket
  rw [show (Remainder.ofText (opening ++ (digits ++ (closing ++ rest)))).text =
    opening ++ (digits ++ (closing ++ rest)) from rfl, hb.opens]
  dsimp only
  rw [hinside, show (Remainder.ofText (digits ++ (closing ++ rest))).upper =
    Case.upper (digits ++ (closing ++ rest)) from rfl, hupper, h.atWord_closingFor]
  dsimp only
  rw [show (Remainder.ofText (digits ++ (closing ++ rest))).text.take digits.length = digits from
    List.take_left, Percent.decode_eq_self h.not_percent_mem, if_pos hint, hafter]
  cases readInteger digits <;> rfl

/-- An integer between coded brackets is read as the position that it writes. -/
theorem readBracket_indexText {digits : List Char} (h : IsSigned digits)
    (hint : Digit.isInteger digits = true) (rest : List Char) :
    readBracket (.ofText (indexText digits ++ rest)) =
      (readInteger digits).map fun n => ⟨[], some n, .ofText rest⟩ := by
  rw [indexText, List.append_assoc, List.append_assoc]
  exact readBracket_between isBracket_coded h hint rest

/-- The text of an integer is read as that integer. -/
theorem readInteger_intText {n : Int} {digits : List Char} (h : Numeral.intText? n = some digits) :
    readInteger digits = .ok n := by
  rw [readInteger, Numeral.integerValue_intText h]

/-- An integer between brackets is the position of its segment, unless a query follows. -/
theorem readSegment_between {opening closing : List Char} (hb : IsBracket opening closing)
    (head : List Char) {digits rest : List Char} (h : IsSigned digits)
    (hint : Digit.isInteger digits = true) (hrest : questionLength? rest = none) :
    readSegment head (.ofText (opening ++ (digits ++ (closing ++ rest)))) =
      (readInteger digits).map fun n =>
        (⟨String.ofList head, some (.index n)⟩, .ofText rest) := by
  have hq : readQuery (.ofText rest) = .ok (none, .ofText rest) := by
    unfold readQuery
    rw [show (Remainder.ofText rest).text = rest from rfl, hrest]
  unfold readSegment
  rw [readBracket_between hb h hint]
  cases readInteger digits with
  | error f => rfl
  | ok n =>
    simp only [bind, Except.bind, Except.map]
    rw [hq]
    simp only [List.append_nil, Option.map_some]

/-- An integer between coded brackets is the position of its segment, unless a query follows. -/
theorem readSegment_position (head : List Char) {digits rest : List Char} (h : IsSigned digits)
    (hint : Digit.isInteger digits = true) (hrest : questionLength? rest = none) :
    readSegment head (.ofText (indexText digits ++ rest)) =
      (readInteger digits).map fun n =>
        (⟨String.ofList head, some (.index n)⟩, .ofText rest) := by
  rw [indexText, List.append_assoc, List.append_assoc]
  exact readSegment_between isBracket_coded head h hint hrest

/-- A written position is its segment's qualifier, unless a query follows. -/
theorem readSegment_indexText (head : List Char) {n : Int} {digits rest : List Char}
    (h : Numeral.intText? n = some digits) (hrest : questionLength? rest = none) :
    readSegment head (.ofText (indexText digits ++ rest)) =
      .ok (⟨String.ofList head, some (.index n)⟩, .ofText rest) := by
  rw [readSegment_position head (isSigned_intText h) (Numeral.isInteger_intText h) hrest,
    readInteger_intText h]
  rfl

/-- A query behind a written position takes its place. -/
theorem readSegment_indexText_query (head : List Char) {n : Int} {digits query : List Char}
    (h : Numeral.intText? n = some digits) (hq : '/' ∉ query) {r : Request}
    (hr : readRequest query = .ok r) :
    readSegment head (.ofText (indexText digits ++ '?' :: query)) =
      .ok (asked (String.ofList head) r, afterQuery query) := by
  unfold readSegment
  rw [readBracket_indexText (isSigned_intText h) (Numeral.isInteger_intText h), readInteger_intText h]
  simp only [bind, Except.bind, Except.map]
  rw [readQuery_written hq, hr, Except.map]
  simp only [List.append_nil, asked]

/-- Reading segments ends with the text. -/
theorem readSegments_nil (before : List Segment) {r : Remainder} (h : r.text = []) :
    readSegments before r = .ok before.reverse := by
  rw [readSegments]
  split
  · rfl
  · next c rest hr =>
    rw [h] at hr
    exact absurd hr (List.cons_ne_nil c rest).symm

/-- A slash is passed over. -/
theorem readSegments_drop {before : List Segment} {r : Remainder} {tail : List Char}
    (h : r.text = '/' :: tail) : readSegments before r = readSegments before (r.drop 1) := by
  rw [readSegments]
  split
  · next hr =>
    rw [h] at hr
    exact absurd hr (List.cons_ne_nil '/' tail)
  · next c rest hr =>
    rw [h] at hr
    rw [dif_pos (List.cons.inj hr).1.symm]

/-- A slash before a text is passed over. -/
theorem readSegments_slash (before : List Segment) (rest : List Char) :
    readSegments before (.ofText ('/' :: rest)) = readSegments before (.ofText rest) := by
  have hdrop : (Remainder.ofText ('/' :: rest)).drop 1 = .ofText rest :=
    @drop_ofText ['/'] (by decide) rest
  rw [readSegments_drop (r := .ofText ('/' :: rest)) rfl, hdrop]

/-- A text that starts with no slash is read segment by segment. -/
theorem readSegments_next {before : List Segment} {r : Remainder} {c : Char} {tail : List Char}
    (ht : r.text = c :: tail) (hc : c ≠ '/') :
    readSegments before r =
      (readNext before r).bind fun found => readSegments found.1 found.2 := by
  rw [readSegments]
  split
  · next hr =>
    rw [ht] at hr
    exact absurd hr (List.cons_ne_nil c tail)
  · next d rest hr =>
    have hd : d ≠ '/' := by
      rw [ht] at hr
      exact (List.cons.inj hr).1 ▸ hc
    rw [dif_neg hd]
    split
    · next f hn =>
      rw [hn]
      rfl
    · next segments rest hn =>
      rw [hn]
      rfl

/-- A coded text starts with no slash. -/
theorem encode_cons {text : List Char} (h : text ≠ []) (rest : List Char) :
    ∃ c tail, (Remainder.ofText (Percent.encode text ++ rest)).text = c :: tail ∧ c ≠ '/' := by
  cases hcode : Percent.encode text with
  | nil => exact absurd hcode (Percent.encode_ne_nil h)
  | cons c tail =>
    refine ⟨c, tail ++ rest, rfl, ?_⟩
    rintro rfl
    have hmem : '/' ∈ Percent.encode text := by
      rw [hcode]
      exact List.mem_cons_self
    exact Percent.not_mem_encode (by decide) (by decide) text hmem

/-- The text of an integer. -/
def intText (n : Int) : List Char :=
  (Numeral.intText? n).getD []

/-- An integer that can be written has its text. -/
theorem intText?_eq {n : Int} (h : (Numeral.intText? n).isSome) :
    Numeral.intText? n = some (intText n) := by
  obtain ⟨digits, hd⟩ := Option.isSome_iff_exists.mp h
  rw [intText, hd]
  rfl

/-- The text of one position is not that of two. -/
theorem indexText_ne_append {n : Int} (h : (Numeral.intText? n).isSome)
    (digits more : List Char) : indexText (intText n) ≠ indexText digits ++ indexText more := by
  intro heq
  have hzero := List.count_eq_zero.mpr (isSigned_intText (intText?_eq h)).not_percent_mem
  have hcount := congrArg (List.count '%') heq
  unfold indexText at hcount
  simp only [List.count_append] at hcount
  rw [hzero, show List.count '%' "%5B".toList = 1 from rfl,
    show List.count '%' "%5D".toList = 1 from rfl] at hcount
  omega

/-- The text of what a segment carries beside its head. A query stands at the end of the address. -/
def qualifierText : Option Qualifier → List Char
  | some (.index n) => indexText (intText n)
  | some (.id n) => '/' :: intText n
  | some (.query _) => []
  | none => []

/-- The canonical text of a segment. -/
def segmentText (s : Segment) : List Char :=
  Percent.encode s.head.toList ++ qualifierText s.qualifier

/-- The canonical text of segments, each after a slash. -/
def pathText (segments : List Segment) : List Char :=
  segments.flatMap fun s => '/' :: segmentText s

/-- Segments in two parts are written one after the other. -/
theorem pathText_append (xs ys : List Segment) : pathText (xs ++ ys) = pathText xs ++ pathText ys :=
  List.flatMap_append

/-- A segment that can be written: its head is read as a head, and its integers have texts. -/
structure Segment.Writable (s : Segment) : Prop where
  /-- The head has characters. -/
  nonempty : s.head ≠ ""
  /-- No bracket opens in the head. -/
  unopened : '[' ∉ s.head.toList
  /-- No query starts in the head. -/
  unasked : '?' ∉ s.head.toList
  /-- A position can be written. -/
  index : ∀ n, s.qualifier = some (.index n) → (Numeral.intText? n).isSome
  /-- An identifier can be written. -/
  id : ∀ n, s.qualifier = some (.id n) → (Numeral.intText? n).isSome

/-- A segment that asks no query. -/
def Segment.IsStep (s : Segment) : Prop :=
  ∀ r, s.qualifier ≠ some (.query r)

/-- No integer head follows a segment without qualifier, whose identifier it would become. The flag
tells whether such a segment came before. -/
def Unfolded : Bool → List Segment → Prop
  | _, [] => True
  | bare, s :: rest =>
    (bare = true → Digit.isInteger s.head.toList = false) ∧ Unfolded s.qualifier.isNone rest

/-- The last segment that was read lacks a qualifier. -/
def isBare (before : List Segment) : Bool :=
  (unqualified? before).isSome

/-- A segment lacks a qualifier as it says. -/
theorem isBare_cons (s : Segment) (before : List Segment) :
    isBare (s :: before) = s.qualifier.isNone := by
  obtain ⟨head, qualifier⟩ := s
  cases qualifier <;> rfl

/-- Segments and one more are unfolded exactly if the segments are and the one more is no integer that
follows a bare one. -/
theorem unfolded_concat_iff {before segments : List Segment} {s : Segment} :
    Unfolded (isBare before) (segments ++ [s]) ↔ Unfolded (isBare before) segments ∧
      (isBare (segments.reverse ++ before) = true → Digit.isInteger s.head.toList = false) := by
  induction segments generalizing before with
  | nil => exact ⟨fun h => ⟨trivial, h.1⟩, fun h => ⟨h.2, trivial⟩⟩
  | cons t segments ih =>
    have hrest := @ih (t :: before)
    rw [isBare_cons] at hrest
    rw [List.reverse_cons, List.append_assoc, List.singleton_append]
    exact ⟨fun h => ⟨⟨h.1, (hrest.mp h.2).1⟩, (hrest.mp h.2).2⟩,
      fun h => ⟨h.1.1, hrest.mpr ⟨h.1.2, h.2⟩⟩⟩

/-- A text that does not become an identifier takes the place of none. -/
theorem folded_eq_none {before : List Segment} {text : List Char}
    (hint : isBare before = true → Digit.isInteger text = false) :
    (if Digit.isInteger text = true then unqualified? before else none) = none := by
  split
  · next hinteger =>
    rw [← Option.not_isSome_iff_eq_none]
    intro hbare
    rw [hint hbare] at hinteger
    exact Bool.false_ne_true hinteger
  · rfl

/-- A written head that follows no bare segment as an integer is a head. -/
theorem readNext_head {head : String} (hopen : '[' ∉ head.toList) (hask : '?' ∉ head.toList)
    {before : List Segment} (hfold : isBare before = true → Digit.isInteger head.toList = false)
    {rest : List Char} (hrest : StopsHead rest) :
    readNext before (.ofText (Percent.encode head.toList ++ rest)) =
      (readSegment head.toList (.ofText rest)).map fun found => (found.1 :: before, found.2) := by
  rw [readNext_encode hopen hask hrest, folded_eq_none hfold]

/-- A written identifier after a bare segment is its identifier. -/
theorem readNext_id (head : String) (before : List Segment) {n : Int} {digits rest : List Char}
    (h : Numeral.intText? n = some digits) (hrest : StopsHead rest) :
    readNext (⟨head, none⟩ :: before) (.ofText (digits ++ rest)) =
      .ok (⟨head, some (.id n)⟩ :: before, .ofText rest) := by
  have hclear : ∀ c, Percent.isUnreserved c = false → c ∉ (String.ofList digits).toList := by
    intro c hc hmem
    rw [String.toList_ofList] at hmem
    rw [Numeral.isUnreserved_of_mem_intText h hmem] at hc
    exact Bool.false_ne_true hc.symm
  have hnext := readNext_encode (hclear '[' (by decide)) (hclear '?' (by decide)) hrest
    (⟨head, none⟩ :: before)
  rw [String.toList_ofList, Numeral.encode_intText h, if_pos (Numeral.isInteger_intText h)] at hnext
  rw [hnext]
  dsimp only [unqualified?]
  rw [readInteger_intText h]
  rfl

/-- A text that a segment does not run into: no head and no query goes on there, and nothing that
would be the qualifier of a segment without one. -/
structure Segment.EndsBefore (s : Segment) (rest : List Char) : Prop where
  /-- No head runs into it. -/
  stops : StopsHead rest
  /-- No query starts there. -/
  unasked : questionLength? rest = none
  /-- Behind a segment without a qualifier, it is the end or a slash. -/
  ends : s.qualifier = none → EndsSegment rest

/-- No segment runs into the end or a slash. -/
theorem EndsSegment.endsBefore {rest : List Char} (h : EndsSegment rest) (s : Segment) :
    s.EndsBefore rest :=
  ⟨h.stopsHead, h.questionLength?_eq, fun _ => h⟩

/-- A written segment is read back as it was. -/
theorem readSegments_segmentText {s : Segment} (hs : s.Writable) (hq : s.IsStep)
    {before : List Segment} (hfold : isBare before = true → Digit.isInteger s.head.toList = false)
    {rest : List Char} (hrest : s.EndsBefore rest) :
    readSegments before (.ofText ('/' :: segmentText s ++ rest)) =
      readSegments (s :: before) (.ofText rest) := by
  have hhead : s.head.toList ≠ [] := fun hnil => hs.nonempty (String.toList_eq_nil_iff.mp hnil)
  obtain ⟨head, qualifier⟩ := s
  dsimp only at hhead hfold
  rw [List.cons_append, readSegments_slash, segmentText, List.append_assoc]
  obtain ⟨c, tail, htext, hc⟩ := encode_cons hhead (qualifierText qualifier ++ rest)
  rw [readSegments_next htext hc]
  cases qualifier with
  | none =>
    rw [qualifierText, List.nil_append, readNext_head hs.unopened hs.unasked hfold hrest.stops,
      readSegment_bare _ (hrest.ends rfl), String.ofList_toList]
    rfl
  | some q =>
    cases q with
    | index n =>
      have hn := intText?_eq (hs.index n rfl)
      rw [qualifierText, readNext_head hs.unopened hs.unasked hfold (.inr rfl),
        readSegment_indexText _ hn hrest.unasked, String.ofList_toList]
      rfl
    | id n =>
      have hn := intText?_eq (hs.id n rfl)
      have hdigits : intText n ≠ [] := Numeral.intText_ne_nil hn
      obtain ⟨d, tail', htext', hd⟩ := encode_cons hdigits rest
      rw [Numeral.encode_intText hn] at htext'
      rw [qualifierText, List.cons_append, readNext_head hs.unopened hs.unasked hfold (.inr rfl),
        readSegment_bare _ (.inr ⟨_, rfl⟩), String.ofList_toList, Except.map, Except.bind,
        readSegments_slash, readSegments_next htext' hd, readNext_id head before hn hrest.stops]
      rfl
    | query r => exact absurd rfl (hq r)

/-- Written segments are read back in turn. -/
theorem readSegments_pathText {segments : List Segment} (hw : ∀ s ∈ segments, s.Writable)
    (hq : ∀ s ∈ segments, s.IsStep) {before : List Segment}
    (hfold : Unfolded (isBare before) segments) {rest : List Char} (hrest : EndsSegment rest) :
    readSegments before (.ofText (pathText segments ++ rest)) =
      readSegments (segments.reverse ++ before) (.ofText rest) := by
  induction segments generalizing before with
  | nil => rfl
  | cons s segments ih =>
    have hends : EndsSegment (pathText segments ++ rest) := by
      cases segments with
      | nil => exact hrest
      | cons t more => exact .inr ⟨_, rfl⟩
    have hpath : pathText (s :: segments) = '/' :: segmentText s ++ pathText segments :=
      List.flatMap_cons
    rw [hpath, List.append_assoc,
      readSegments_segmentText (hw s List.mem_cons_self) (hq s List.mem_cons_self) hfold.1
        (hends.endsBefore s),
      ih (fun t ht => hw t (List.mem_cons_of_mem s ht)) (fun t ht => hq t (List.mem_cons_of_mem s ht))
        (by rw [isBare_cons]; exact hfold.2),
      List.reverse_cons, List.append_assoc, List.singleton_append]

end ResourceAtlas.Address

import ResourceAtlas.Address.QueryText
import ResourceAtlas.Text.Case

/-!
# Reading an address

An address is a scheme, `://` and segments parted by slashes. A segment is a head with at most one
qualifier: a position in brackets, an identifier, or a query. An integer right after a segment
without a qualifier is that segment's identifier. Brackets and the question mark may be
percent-coded. Where a bracket closes is looked up in the upper form of the text, so the rest of the
text and the rest of its upper form are kept side by side; they are equally long unless a
character grows in upper case.
-/

namespace ResourceAtlas.Address

open Number Text

/-- What a segment carries beside its head. -/
inductive Qualifier
  /-- A position. -/
  | index (n : Int)
  /-- An identifier. -/
  | id (n : Int)
  /-- A query. -/
  | query (r : Request)
  deriving DecidableEq, Repr

/-- A head with its qualifier. -/
structure Segment where
  /-- The decoded head. -/
  head : String
  /-- The qualifier, if there is one. -/
  qualifier : Option Qualifier
  deriving DecidableEq, Repr

/-- A scheme with its segments. -/
structure Location where
  /-- The scheme. -/
  scheme : String
  /-- The segments. -/
  segments : List Segment
  deriving DecidableEq, Repr

/-- What is left of a text, beside what is left of its upper form. -/
structure Remainder where
  /-- The rest of the text. -/
  text : List Char
  /-- The rest of the upper form. -/
  upper : List Char
  deriving Repr

namespace Remainder

/-- A whole text. -/
def ofText (text : List Char) : Remainder := ⟨text, Case.upper text⟩

/-- Pass over characters. -/
def drop (r : Remainder) (count : Nat) : Remainder :=
  ⟨r.text.drop count, r.upper.drop count⟩

@[simp]
theorem text_drop (r : Remainder) (count : Nat) : (r.drop count).text = r.text.drop count := rfl

end Remainder

/-- How many characters the opening bracket at the start of a text takes. -/
def openingLength? : List Char → Option Nat
  | '[' :: _ => some 1
  | '%' :: '5' :: 'B' :: _ => some 3
  | '%' :: '5' :: 'b' :: _ => some 3
  | _ => none

/-- How many characters the question mark at the start of a text takes. -/
def questionLength? : List Char → Option Nat
  | '?' :: _ => some 1
  | '%' :: '3' :: 'F' :: _ => some 3
  | '%' :: '3' :: 'f' :: _ => some 3
  | _ => none

/-- Whether a head ends before a text. -/
def endsHead (text : List Char) : Bool :=
  text.head? == some '/' || (openingLength? text).isSome || (questionLength? text).isSome

/-- How many characters belong to the head at the start of a text. -/
def headLength : List Char → Nat
  | [] => 0
  | c :: rest => if endsHead (c :: rest) then 0 else headLength rest + 1

/-- The closing bracket that belongs to an opening bracket of a length. -/
def closingFor (opening : Nat) : List Char :=
  if opening = 1 then "]".toList else "%5D".toList

/-- What a bracket gives: more of the head, or a position. -/
structure Bracket where
  /-- Decoded text that belongs to the head. -/
  more : List Char
  /-- The position between the brackets. -/
  position : Option Int
  /-- What follows. -/
  rest : Remainder
  deriving Repr

/-- Read a bracket. One that does not close belongs to the head up to where the head ends, and one
around something other than an integer belongs to it as a whole. -/
def readBracket (r : Remainder) : Outcome Bracket :=
  match openingLength? r.text with
  | none => .ok ⟨[], none, r⟩
  | some opening =>
    let inside := r.drop opening
    let closing := closingFor opening
    match Split.atWord closing inside.upper with
    | none =>
      let count := opening + headLength inside.text
      .ok ⟨Percent.decode (r.text.take count), none, r.drop count⟩
    | some (before, _) =>
      let inner := Percent.decode (inside.text.take before.length)
      let rest := r.drop (opening + before.length + closing.length)
      if Digit.isInteger inner then do
        let n ← readInteger inner
        .ok ⟨[], some n, rest⟩
      else .ok ⟨'[' :: inner ++ [']'], none, rest⟩

/-- Read a query: from a question mark up to a slash. -/
def readQuery (r : Remainder) : Outcome (Option Request × Remainder) :=
  match questionLength? r.text with
  | none => .ok (none, r)
  | some mark =>
    let query := (r.text.drop mark).takeWhile (· != '/')
    (readRequest query).map fun request => (some request, r.drop (mark + query.length))

/-- Read what follows the head of a segment. A query takes the place of a position. -/
def readSegment (head : List Char) (r : Remainder) : Outcome (Segment × Remainder) := do
  let bracket ← readBracket r
  let (request, rest) ← readQuery bracket.rest
  let qualifier := match request with
    | some q => some (Qualifier.query q)
    | none => bracket.position.map Qualifier.index
  .ok (⟨String.ofList (head ++ bracket.more), qualifier⟩, rest)

/-- The last of the segments read so far, if it lacks a qualifier, with those before it. Segments
stand nearest first. -/
def unqualified? : List Segment → Option (String × List Segment)
  | ⟨head, none⟩ :: before => some (head, before)
  | _ => none

/-- Read the next segment at a text that starts with no slash, and put it before the segments read
so far. An integer becomes the identifier of a last segment without qualifier. -/
def readNext (before : List Segment) (r : Remainder) : Outcome (List Segment × Remainder) := do
  let length := headLength r.text
  let head := Percent.decode (r.text.take length)
  let rest := r.drop length
  match if Digit.isInteger head then unqualified? before else none with
  | some (last, others) => do
    let n ← readInteger head
    .ok (⟨last, some (.id n)⟩ :: others, rest)
  | none => do
    let (segment, rest) ← readSegment head rest
    .ok (segment :: before, rest)

theorem openingLength?_pos {text : List Char} {n : Nat} (h : openingLength? text = some n) :
    0 < n ∧ 0 < text.length := by
  unfold openingLength? at h
  split at h <;> simp_all <;> omega

theorem questionLength?_pos {text : List Char} {n : Nat} (h : questionLength? text = some n) :
    0 < n ∧ 0 < text.length := by
  unfold questionLength? at h
  split at h <;> simp_all <;> omega

/-- A bracket is passed over if there is one. -/
theorem readBracket_length {r : Remainder} {b : Bracket} (h : readBracket r = .ok b) :
    b.rest.text.length ≤ r.text.length ∧
      ((openingLength? r.text).isSome → b.rest.text.length < r.text.length) := by
  unfold readBracket at h
  split at h
  · next hn => cases h; simp [hn]
  · next n hn =>
    obtain ⟨hpos, hlen⟩ := openingLength?_pos hn
    dsimp only at h
    split at h
    · cases h
      simp
      omega
    · split at h
      · simp only [bind, Except.bind] at h
        split at h
        · simp at h
        · cases h
          simp
          omega
      · cases h
        simp
        omega

/-- A query is passed over if there is one. -/
theorem readQuery_length {r rest : Remainder} {q : Option Request}
    (h : readQuery r = .ok (q, rest)) :
    rest.text.length ≤ r.text.length ∧
      ((questionLength? r.text).isSome → rest.text.length < r.text.length) := by
  unfold readQuery at h
  split at h
  · next hn => cases h; simp [hn]
  · next n hn =>
    obtain ⟨hpos, hlen⟩ := questionLength?_pos hn
    dsimp only at h
    cases hr : readRequest ((r.text.drop n).takeWhile (· != '/')) with
    | error f => simp [hr, Except.map] at h
    | ok v =>
      simp [hr, Except.map] at h
      rw [← h.2]
      simp
      omega

theorem readSegment_length {head : List Char} {r rest : Remainder} {s : Segment}
    (h : readSegment head r = .ok (s, rest)) :
    rest.text.length ≤ r.text.length ∧
      ((openingLength? r.text).isSome ∨ (questionLength? r.text).isSome →
        rest.text.length < r.text.length) := by
  unfold readSegment at h
  cases hb : readBracket r with
  | error f => simp [hb, bind, Except.bind] at h
  | ok b =>
    cases hq : readQuery b.rest with
    | error f => simp [hb, hq, bind, Except.bind] at h
    | ok q =>
      obtain ⟨q, rest'⟩ := q
      simp [hb, hq, bind, Except.bind] at h
      obtain ⟨-, rfl⟩ := h
      have h1 := readBracket_length hb
      have h2 := readQuery_length hq
      refine ⟨by omega, fun ho => ?_⟩
      by_cases hop : (openingLength? r.text).isSome
      · have := h1.2 hop
        omega
      · have hnone : openingLength? r.text = none := by simpa using hop
        have hsame : b.rest = r := by
          simp [readBracket, hnone] at hb
          rw [← hb]
        have := h2.2 (by rw [hsame]; simpa [hnone] using ho)
        omega

/-- Reading a segment takes at least one character. -/
theorem readNext_length {before segments : List Segment} {r rest : Remainder} {c : Char}
    {tail : List Char} (hr : r.text = c :: tail) (hc : c ≠ '/')
    (h : readNext before r = .ok (segments, rest)) : rest.text.length < r.text.length := by
  unfold readNext at h
  have hdrop : headLength r.text = 0 →
      (openingLength? r.text).isSome ∨ (questionLength? r.text).isSome := by
    intro hz
    rw [hr, headLength] at hz
    by_cases he : endsHead (c :: tail)
    · simpa [endsHead, hc, hr] using he
    · simp [he] at hz
  have hlen : 0 < r.text.length := by simp [hr]
  dsimp only at h
  split at h
  · next last others heq =>
    cases hn : readInteger (Percent.decode (r.text.take (headLength r.text))) with
    | error f => simp [hn, bind, Except.bind] at h
    | ok n =>
      simp [hn, bind, Except.bind] at h
      rw [← h.2]
      have hpos : headLength r.text ≠ 0 := by
        intro hz
        simp [hz, Percent.decode, Percent.octets, Utf8.decode, Digit.isInteger, Digit.dropMinus,
          Digit.dropFinalLineFeed, Digit.isDigits] at heq
      simp
      omega
  · cases hs : readSegment (Percent.decode (r.text.take (headLength r.text)))
        (r.drop (headLength r.text)) with
    | error f => simp [hs, bind, Except.bind] at h
    | ok s =>
      obtain ⟨s, rest'⟩ := s
      simp [hs, bind, Except.bind] at h
      rw [← h.2]
      have hl := readSegment_length hs
      simp only [Remainder.text_drop, List.length_drop] at hl
      by_cases hz : headLength r.text = 0
      · have := hl.2 (by simpa [hz] using hdrop hz)
        omega
      · omega

/-- Read segments to the end of a text. -/
def readSegments (before : List Segment) (r : Remainder) : Outcome (List Segment) :=
  match _hr : r.text with
  | [] => .ok before.reverse
  | c :: _ =>
    if _hc : c = '/' then readSegments before (r.drop 1)
    else
      match _hn : readNext before r with
      | .error f => .error f
      | .ok (segments, rest) => readSegments segments rest
termination_by r.text.length
decreasing_by
  · simp [_hr]
  · exact _hr ▸ readNext_length _hr _hc _hn

/-- The segments of a path. -/
def segments (path : List Char) : Outcome (List Segment) :=
  readSegments [] (.ofText path)

/-- Read an address. A malformed query is a problem like a missing scheme. -/
def read (address : String) : Outcome (Verdict Location) :=
  match Split.atWord "://".toList address.toList with
  | none => .ok (.error .missingScheme)
  | some ([], _) => .ok (.error .emptyScheme)
  | some (scheme, path) =>
    match segments path with
    | .ok found => .ok (.ok ⟨String.ofList scheme, found⟩)
    | .error (.malformedQuery problem) => .ok (.error problem)
    | .error f => .error f

end ResourceAtlas.Address

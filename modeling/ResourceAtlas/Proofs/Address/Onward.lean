import ResourceAtlas.Proofs.Address.Step
import ResourceAtlas.Proofs.Outcome

/-!
# Reading on behind segments

Segments that have been read matter to what is read behind them in one way only: an integer at once
becomes the identifier of a last segment that has no qualifier. Any other text is read behind segments
as it is read alone.
-/

namespace ResourceAtlas.Address

open Number Text

/-- The head that a text starts with, past the slashes before it. -/
def firstHead (text : List Char) : List Char :=
  let rest := text.dropWhile (· == '/')
  Percent.decode (rest.take (headLength rest))

/-- The first head of a text without slashes at its start. -/
theorem firstHead_cons {c : Char} (h : c ≠ '/') (tail : List Char) :
    firstHead (c :: tail) =
      Percent.decode ((c :: tail).take (headLength (c :: tail))) := by
  unfold firstHead
  rw [List.dropWhile_cons_of_neg (by simpa using h)]

/-- A slash is no part of the first head. -/
theorem firstHead_slash (tail : List Char) : firstHead ('/' :: tail) = firstHead tail := by
  unfold firstHead
  rw [List.dropWhile_cons_of_pos (by rfl)]

/-- The last of segments that were read after others does not depend on those. -/
theorem unqualified?_append (s : Segment) (found before : List Segment) :
    unqualified? (s :: found ++ before) =
      (unqualified? (s :: found)).map fun last => (last.1, last.2 ++ before) := by
  obtain ⟨head, qualifier⟩ := s
  cases qualifier <;> rfl

/-- Some segment is there once one was read. -/
theorem readNext_ne_nil {found segments : List Segment} {r rest : Remainder}
    (h : readNext found r = .ok (segments, rest)) : segments ≠ [] := by
  cases readNext_eq_ok.mp h with
  | identifier => exact List.cons_ne_nil _ _
  | segment => exact List.cons_ne_nil _ _

/-- The next segment does not depend on the segments before those that were read already, nor on the
last of all if its head reads as no integer. -/
theorem readNext_append {found before : List Segment} {r : Remainder}
    (h : found = [] → isBare before = true →
      Digit.isInteger (Percent.decode (r.text.take (headLength r.text))) = false) :
    readNext (found ++ before) r =
      (readNext found r).map fun next => (next.1 ++ before, next.2) := by
  unfold readNext
  dsimp only
  generalize Percent.decode (r.text.take (headLength r.text)) = head at h ⊢
  have hlast : (if Digit.isInteger head then unqualified? (found ++ before) else none) =
      (if Digit.isInteger head then unqualified? found else none).map
        fun last => (last.1, last.2 ++ before) := by
    split
    · next hint =>
      cases found with
      | nil =>
        refine Option.eq_none_iff_forall_ne_some.mpr fun last hbare => ?_
        rw [h rfl (by rw [isBare]; exact hbare ▸ rfl)] at hint
        exact Bool.false_ne_true hint
      | cons s found => exact unqualified?_append s found before
    · rfl
  rw [hlast]
  cases (if Digit.isInteger head then unqualified? found else none) with
  | some last => cases readInteger head <;> rfl
  | none => cases readSegment head (r.drop (headLength r.text)) <;> rfl

/-- What is read behind segments does not depend on them, unless it starts with an integer and the last
of them has no qualifier. -/
theorem readSegments_append {found before : List Segment} {r : Remainder}
    (h : found = [] → isBare before = true → Digit.isInteger (firstHead r.text) = false) :
    readSegments (found ++ before) r = (readSegments found r).map (before.reverse ++ ·) := by
  -- Every step passes over a character; once a segment was read, nothing is asked of the rest.
  induction hlength : r.text.length using Nat.strong_induction_on generalizing found r with
  | _ length ih =>
    subst hlength
    cases htext : r.text with
    | nil => rw [readSegments_nil _ htext, readSegments_nil _ htext, List.reverse_append]; rfl
    | cons c tail =>
      have hdrop : (r.drop 1).text = tail := by rw [Remainder.text_drop, htext]; rfl
      by_cases hc : c = '/'
      · subst hc
        rw [readSegments_drop htext, readSegments_drop htext]
        refine ih _ ?_ ?_ rfl
        · rw [hdrop, htext]
          exact Nat.lt_succ_self _
        · rw [hdrop, ← firstHead_slash tail, ← htext]
          exact h
      · have hfirst : found = [] → isBare before = true →
            Digit.isInteger (Percent.decode (r.text.take (headLength r.text))) = false := by
          rw [htext, ← firstHead_cons hc, ← htext]
          exact h
        rw [readSegments_next htext hc, readSegments_next htext hc, readNext_append hfirst]
        cases hnext : readNext found r with
        | error f => rfl
        | ok next =>
          exact ih _ (readNext_length htext hc hnext)
            (fun hnil => absurd hnil (readNext_ne_nil hnext)) rfl

/-- A step of the lexer keeps the heads of the segments that were read, and adds one at most. -/
theorem readNext_heads {before found : List Segment} {r rest : Remainder}
    (h : readNext before r = .ok (found, rest)) :
    before.map Segment.head <:+ found.map Segment.head := by
  cases readNext_eq_ok.mp h with
  | identifier hbefore =>
    subst hbefore
    exact List.suffix_rfl
  | segment => exact List.suffix_cons _ _

/-- A run of the lexer keeps the heads of the segments that were read. -/
theorem readSegments_heads (before : List Segment) (r : Remainder) {found : List Segment}
    (h : readSegments before r = .ok found) :
    before.reverse.map Segment.head <+: found.map Segment.head := by
  induction before, r using readSegments.induct with
  | case1 before r hr =>
    rw [readSegments_nil before hr] at h
    obtain rfl := Except.ok.inj h
    exact List.prefix_rfl
  | case2 before r tail hr ih =>
    rw [readSegments_drop hr] at h
    exact ih h
  | case3 before r c tail hr hc f hn =>
    rw [readSegments_next hr hc, hn] at h
    cases h
  | case4 before r c tail hr hc next rest hn ih =>
    rw [readSegments_next hr hc, hn] at h
    have hkept := List.reverse_prefix.mpr (readNext_heads hn)
    rw [← List.map_reverse, ← List.map_reverse] at hkept
    exact hkept.trans (ih h)

/-- What is read behind written segments. -/
theorem segments_onward {found : List Segment} (hw : Writable found) {rest : List Char}
    (hrest : EndsSegment rest)
    (hfirst : isBare found.reverse = true → Digit.isInteger (firstHead rest) = false) :
    segments ((pathText found).tail ++ rest) = (segments rest).map (found ++ ·) := by
  have hpath := @readSegments_pathText found hw.each hw.steps [] hw.unfolded rest hrest
  rw [segments_tail, hpath, List.append_nil]
  have happend := @readSegments_append [] found.reverse (.ofText rest) fun _ => hfirst
  rw [List.nil_append, List.reverse_reverse] at happend
  exact happend

/-- An address with more behind it is read as its segments and what the rest is read as at the root of
the scheme. -/
theorem read_onward {scheme : String} (hs : ReadableScheme scheme) {found : List Segment}
    (hw : Writable found) {rest : List Char} (hrest : EndsSegment rest)
    (hfirst : isBare found.reverse = true → Digit.isInteger (firstHead rest) = false) :
    read (String.ofList (canonicalText scheme found ++ rest)) =
      (read (String.ofList (scheme.toList ++ schemeMark ++ rest))).map fun verdict =>
        verdict.map fun l => ⟨scheme, found ++ l.segments⟩ := by
  rw [canonicalText, List.append_assoc, read_path hs, read_path hs, segments_onward hw hrest hfirst]
  cases segments rest with
  | ok more => rfl
  | error f => cases f <;> rfl

/-- The text of segments whose last one has a qualifier. -/
theorem canonicalText_qualified (scheme : String) (before : List Segment) (head : String)
    (qualifier : Option Qualifier) :
    canonicalText scheme (before ++ [⟨head, qualifier⟩]) =
      canonicalText scheme (before ++ [⟨head, none⟩]) ++ qualifierText qualifier := by
  have hnone : segmentText ⟨head, none⟩ = Percent.encode head.toList := List.append_nil _
  rw [canonicalText_concat, canonicalText_concat, hnone, segmentText]
  split
  · exact (List.append_assoc _ _ _).symm
  · rw [List.append_assoc, List.cons_append]

/-- Digits beyond the limit behind an address are not read. -/
theorem read_overlong {scheme : String} (hs : ReadableScheme scheme) {before : List Segment}
    {head : String} (hw : Writable (before ++ [⟨head, none⟩])) {n : Nat}
    (hn : 10 ^ Numeral.maxDigits ≤ n) {rest : List Char} (hrest : EndsSegment rest) :
    read (String.ofList (canonicalText scheme (before ++ [⟨head, none⟩]) ++
      '/' :: (Numeral.natText n ++ rest))) = .error (.tooManyDigits (Numeral.natText n).length) := by
  have hclear : ∀ c, c.isDigit = false → c ∉ (String.ofList (Numeral.natText n)).toList := by
    intro c hc hmem
    rw [String.toList_ofList] at hmem
    rw [Numeral.isDigit_of_mem_natText hmem] at hc
    exact Bool.false_ne_true hc.symm
  have hcode : Percent.encode (Numeral.natText n) = Numeral.natText n :=
    Percent.encode_eq_self fun c hc =>
      Numeral.isUnreserved_of_isDigit (Numeral.isDigit_of_mem_natText hc)
  have hoverlong : readInteger (Numeral.natText n) =
      .error (.tooManyDigits (Numeral.natText n).length) := by
    rw [readInteger, Numeral.integerValue_overlong hn]
    rfl
  have hnext := readNext_encode (hclear '[' (by decide)) (hclear '?' (by decide)) hrest.stopsHead
    (⟨head, none⟩ :: before.reverse)
  rw [String.toList_ofList, hcode, if_pos (Numeral.isInteger_natText n)] at hnext
  dsimp only [unqualified?] at hnext
  rw [hoverlong] at hnext
  obtain ⟨c, tail, htext, hc⟩ := encode_cons (Numeral.natText_ne_nil n) rest
  rw [hcode] at htext
  have hpath := @readSegments_pathText _ hw.each hw.steps [] hw.unfolded
    ('/' :: (Numeral.natText n ++ rest)) (.inr ⟨_, rfl⟩)
  rw [List.append_nil, List.reverse_concat, readSegments_slash, readSegments_next htext hc,
    hnext] at hpath
  rw [canonicalText, List.append_assoc, read_path hs, segments_tail, hpath]
  rfl

end ResourceAtlas.Address

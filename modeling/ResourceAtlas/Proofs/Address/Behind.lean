import ResourceAtlas.Proofs.Address.Canonical
import ResourceAtlas.Proofs.Outcome

/-!
# What is written behind an address

The address of a member is that of its collection with a piece behind it: a position between
brackets, or a name or an identifier after a slash. `Piece.readBehind` tells as which segments the
whole is read. A position becomes the qualifier of a last segment that lacks one, and so does a text
that reads as an integer; else the piece becomes a segment of its own, and the empty text nothing.
-/

namespace ResourceAtlas.Address

open Number Text

/-- What the address of a member has behind that of its collection. -/
inductive Piece
  /-- A position. -/
  | position (i : Nat)
  /-- A name or an identifier. -/
  | text (x : String)
  deriving DecidableEq, Repr

namespace Piece

/-- The text of a piece. -/
def write : Piece → List Char
  | position i => indexText (Numeral.natText i)
  | text x => '/' :: Percent.encode x.toList

/-- A piece in which no bracket opens and no query starts. -/
def Plain : Piece → Prop
  | position _ => True
  | text x => '[' ∉ x.toList ∧ '?' ∉ x.toList

instance (piece : Piece) : Decidable piece.Plain := by
  cases piece
  · exact inferInstanceAs (Decidable True)
  · exact inferInstanceAs (Decidable (_ ∧ _))

/-- The segments as which segments with a piece behind them are read. -/
def readBehind (found : List Segment) : Piece → Outcome (List Segment)
  | position i =>
    (readInteger (Numeral.natText i)).map fun n =>
      match unqualified? found.reverse with
      | some (head, before) => before.reverse ++ [⟨head, some (.index n)⟩]
      | none => found ++ [⟨"", some (.index n)⟩]
  | text x =>
    if x = "" then .ok found
    else
      match if Digit.isInteger x.toList then unqualified? found.reverse else none with
      | some (head, before) =>
        (readInteger x.toList).map fun n => before.reverse ++ [⟨head, some (.id n)⟩]
      | none => .ok (found ++ [⟨x, none⟩])

end Piece

/-- The text of a natural number is read as that number, if it is read. -/
theorem eq_of_readInteger_natText {i : Nat} {n : Int}
    (h : readInteger (Numeral.natText i) = .ok n) : n = i := by
  unfold readInteger at h
  split at h
  · next m hm =>
    obtain rfl := Except.ok.inj h
    exact Numeral.eq_of_integerValue_natText hm
  · exact (nomatch h)

/-- Segments in which the last one lacks a qualifier. -/
theorem eq_concat_of_unqualified? {found before : List Segment} {head : String}
    (h : unqualified? found.reverse = some (head, before)) :
    found = before.reverse ++ [⟨head, none⟩] := by
  rw [← List.reverse_reverse found, eq_of_unqualified? h, List.reverse_cons]

/-- A text that becomes an identifier reads as an integer and follows a bare segment. -/
theorem unqualified?_of_folded {text : List Char} {before : List Segment} {last : String × List Segment}
    (h : (if Digit.isInteger text = true then unqualified? before else none) = some last) :
    Digit.isInteger text = true ∧ unqualified? before = some last := by
  by_cases hint : Digit.isInteger text = true
  · rw [if_pos hint] at h
    exact ⟨hint, h⟩
  · rw [if_neg hint] at h
    exact (nomatch h)

/-- A text that does not become an identifier reads as no integer or follows no bare segment. -/
theorem isInteger_of_not_folded {text : List Char} {before : List Segment}
    (h : (if Digit.isInteger text = true then unqualified? before else none) = none)
    (hbare : isBare before = true) : Digit.isInteger text = false := by
  by_contra hint
  rw [if_pos (Bool.of_not_eq_false hint)] at h
  rw [isBare, h] at hbare
  exact Bool.false_ne_true hbare

/-- How segments with a piece behind them are read, if they are. -/
inductive Piece.Extends : List Segment → Piece → List Segment → Prop
  /-- A position becomes the qualifier of a last segment that lacks one. -/
  | position {before : List Segment} {head : String} {i : Nat} {n : Int}
      (hn : readInteger (Numeral.natText i) = .ok n) :
      Extends (before ++ [⟨head, none⟩]) (.position i) (before ++ [⟨head, some (.index n)⟩])
  /-- A position behind a qualifier becomes a segment of its own. -/
  | alone {found : List Segment} {i : Nat} {n : Int} (hqualified : isBare found.reverse = false)
      (hn : readInteger (Numeral.natText i) = .ok n) :
      Extends found (.position i) (found ++ [⟨"", some (.index n)⟩])
  /-- The empty text becomes nothing. -/
  | nothing {found : List Segment} : Extends found (.text "") found
  /-- A text that reads as an integer becomes the qualifier of a last segment that lacks one. -/
  | folded {before : List Segment} {head x : String} {n : Int} (hne : x ≠ "")
      (hint : Digit.isInteger x.toList = true) (hn : readInteger x.toList = .ok n) :
      Extends (before ++ [⟨head, none⟩]) (.text x) (before ++ [⟨head, some (.id n)⟩])
  /-- Any other text becomes a segment of its own. -/
  | text {found : List Segment} {x : String} (hne : x ≠ "")
      (hint : isBare found.reverse = true → Digit.isInteger x.toList = false) :
      Extends found (.text x) (found ++ [⟨x, none⟩])

/-- Segments with a piece behind them are read in one of these ways. -/
theorem Piece.extends_of_readBehind {found extended : List Segment} {piece : Piece}
    (h : piece.readBehind found = .ok extended) : Piece.Extends found piece extended := by
  cases piece with
  | position i =>
    obtain ⟨n, hn, rfl⟩ := map_eq_ok.mp h
    cases hlast : unqualified? found.reverse with
    | some last =>
      obtain rfl := eq_concat_of_unqualified? hlast
      exact .position hn
    | none => exact .alone (by rw [isBare, hlast]; rfl) hn
  | text x =>
    rw [Piece.readBehind] at h
    by_cases hempty : x = ""
    · rw [if_pos hempty] at h
      obtain rfl := Except.ok.inj h
      exact hempty ▸ .nothing
    · rw [if_neg hempty] at h
      cases hfold : (if Digit.isInteger x.toList = true then unqualified? found.reverse else none) with
      | some last =>
        rw [hfold] at h
        obtain ⟨n, hn, rfl⟩ := map_eq_ok.mp h
        obtain ⟨hint, hlast⟩ := unqualified?_of_folded hfold
        obtain rfl := eq_concat_of_unqualified? hlast
        exact .folded hempty hint hn
      | none =>
        rw [hfold] at h
        obtain rfl := Except.ok.inj h
        exact .text hempty (isInteger_of_not_folded hfold)

/-- A last segment that lacks a qualifier is bare. -/
theorem isBare_concat (before : List Segment) (head : String) :
    isBare (before ++ [(⟨head, none⟩ : Segment)]).reverse = true := by
  rw [List.reverse_concat, isBare_cons]
  rfl

/-- The last of segments that have one carries a qualifier. -/
theorem qualifier_ne_none_of_unqualified? {before : List Segment} {s : Segment}
    (h : unqualified? (before ++ [s]).reverse = none) : s.qualifier ≠ none := by
  rw [List.reverse_append] at h
  obtain ⟨head, qualifier⟩ := s
  rintro rfl
  exact (nomatch h)

/-- A position ends the head before it. -/
theorem stopsHead_indexText (digits rest : List Char) : StopsHead (indexText digits ++ rest) :=
  .inr rfl

/-- A position behind segments whose last one has a qualifier is a segment of its own. -/
theorem readSegments_position (before : List Segment) (i : Nat) :
    readSegments before (.ofText (indexText (Numeral.natText i))) =
      (readInteger (Numeral.natText i)).map fun n =>
        before.reverse ++ [⟨"", some (.index n)⟩] := by
  rw [← List.append_nil (indexText (Numeral.natText i))]
  have hnext := @readNext_head "" (by decide) (by decide) before
    (fun _ => by decide) _ (stopsHead_indexText (Numeral.natText i) [])
  rw [show Percent.encode "".toList ++ (indexText (Numeral.natText i) ++ []) =
    indexText (Numeral.natText i) ++ [] from rfl,
    readSegment_position _ (isSigned_natText i) (Numeral.isInteger_natText i) rfl] at hnext
  rw [readSegments_next (r := .ofText (indexText (Numeral.natText i) ++ [])) rfl (by decide), hnext]
  cases readInteger (Numeral.natText i) with
  | error f => rfl
  | ok n =>
    rw [Except.map, Except.map, Except.bind, readSegments_nil _ (r := .ofText []) rfl,
      List.reverse_cons]
    rfl

/-- Segments that can be written and one more that can and does not become an identifier. -/
theorem Writable.concat {found : List Segment} (hw : Writable found) {s : Segment} (hs : s.Writable)
    (hstep : s.IsStep)
    (hfold : isBare found.reverse = true → Digit.isInteger s.head.toList = false) :
    Writable (found ++ [s]) := by
  have hunfolded : Unfolded (isBare []) (found ++ [s]) := by
    refine unfolded_concat_iff.mpr ⟨hw.unfolded, ?_⟩
    rw [List.append_nil]
    exact hfold
  refine ⟨fun t ht => ?_, fun t ht => ?_, hunfolded⟩
  · rcases List.mem_append.mp ht with ht | ht
    · exact hw.each t ht
    · exact List.mem_singleton.mp ht ▸ hs
  · rcases List.mem_append.mp ht with ht | ht
    · exact hw.steps t ht
    · exact List.mem_singleton.mp ht ▸ hstep

/-- Segments that can be written, up to the last one. -/
theorem Writable.before {before : List Segment} {s : Segment} (hw : Writable (before ++ [s])) :
    Writable before ∧ s.Writable ∧
      (isBare before.reverse = true → Digit.isInteger s.head.toList = false) := by
  obtain ⟨hunfolded, hfold⟩ :=
    unfolded_concat_iff.mp (show Unfolded (isBare []) (before ++ [s]) from hw.unfolded)
  rw [List.append_nil] at hfold
  exact ⟨⟨fun t ht => hw.each t (List.mem_append_left [s] ht),
    fun t ht => hw.steps t (List.mem_append_left [s] ht), hunfolded⟩,
    hw.each s (List.mem_append_right _ List.mem_cons_self), hfold⟩

/-- Written segments are read up to the last one, which is no integer that follows a bare one. -/
theorem readSegments_before {before : List Segment} {s : Segment} (hw : Writable (before ++ [s]))
    (rest : List Char) :
    readSegments [] (.ofText (pathText (before ++ [s]) ++ rest)) =
        readSegments before.reverse (.ofText ('/' :: segmentText s ++ rest)) ∧
      (isBare before.reverse = true → Digit.isInteger s.head.toList = false) := by
  obtain ⟨hbefore, -, hfold⟩ := hw.before
  refine ⟨?_, hfold⟩
  have hpath := @readSegments_pathText before hbefore.each hbefore.steps [] hbefore.unfolded
    ('/' :: segmentText s ++ rest) (.inr ⟨_, rfl⟩)
  rw [List.append_nil] at hpath
  rw [pathText_append, List.append_assoc, ← hpath]
  exact congrArg (fun text => readSegments [] (.ofText (pathText before ++ (text ++ rest))))
    (List.append_nil _)

/-- A position behind segments is read as their last one's, or as a segment of its own. -/
theorem segments_position {found : List Segment} (hw : Writable found) (i : Nat) :
    segments ((pathText found).tail ++ (Piece.position i).write) =
      (Piece.position i).readBehind found := by
  rw [segments_tail, Piece.write, Piece.readBehind]
  cases hlast : unqualified? found.reverse with
  | some last =>
    obtain ⟨head, before⟩ := last
    obtain rfl := eq_concat_of_unqualified? hlast
    have hhead := hw.each ⟨head, none⟩ (List.mem_append_right _ List.mem_cons_self)
    have hne : head.toList ≠ [] := fun hnil => hhead.nonempty (String.toList_eq_nil_iff.mp hnil)
    obtain ⟨hbefore, hfold⟩ := readSegments_before hw (indexText (Numeral.natText i))
    rw [List.reverse_reverse] at hbefore hfold
    have hnext := readNext_head hhead.unopened hhead.unasked hfold
      (stopsHead_indexText (Numeral.natText i) [])
    rw [readSegment_position _ (isSigned_natText i) (Numeral.isInteger_natText i) rfl, List.append_nil,
      String.ofList_toList] at hnext
    obtain ⟨c, tail, htext, hc⟩ := encode_cons hne (indexText (Numeral.natText i))
    rw [hbefore, segmentText, qualifierText, List.append_nil, List.cons_append, readSegments_slash,
      readSegments_next htext hc, hnext]
    cases readInteger (Numeral.natText i) with
    | error f => rfl
    | ok n =>
      rw [Except.map, Except.map, Except.bind, readSegments_nil _ (r := .ofText []) rfl,
        List.reverse_cons]
      rfl
  | none =>
    have hread : readSegments [] (.ofText (pathText found ++ indexText (Numeral.natText i))) =
        readSegments found.reverse (.ofText (indexText (Numeral.natText i))) := by
      cases found using List.reverseRecOn with
      | nil => rfl
      | append_singleton before s =>
        obtain ⟨hbefore, hfold⟩ := readSegments_before hw (indexText (Numeral.natText i))
        have hqualified := qualifier_ne_none_of_unqualified? hlast
        rw [hbefore, readSegments_segmentText (hw.each s (List.mem_append_right _ List.mem_cons_self))
          (hw.steps s (List.mem_append_right _ List.mem_cons_self)) hfold
          ⟨.inr rfl, rfl, fun hnone => absurd hnone hqualified⟩, List.reverse_append]
        rfl
    rw [hread, readSegments_position, List.reverse_reverse]

/-- A text behind segments is read as an identifier, as a segment of its own, or as nothing. -/
theorem segments_text {found : List Segment} (hw : Writable found) {x : String}
    (hx : (Piece.text x).Plain) :
    segments ((pathText found).tail ++ (Piece.text x).write) = (Piece.text x).readBehind found := by
  have hread := @readSegments_pathText found hw.each hw.steps [] hw.unfolded
    (Piece.text x).write (.inr ⟨_, rfl⟩)
  rw [segments_tail, hread, List.append_nil, Piece.write, readSegments_slash, Piece.readBehind]
  by_cases hempty : x = ""
  · subst hempty
    rw [if_pos rfl, readSegments_nil _ (r := .ofText (Percent.encode "".toList)) rfl,
      List.reverse_reverse]
  · have hne : x.toList ≠ [] := fun hnil => hempty (String.toList_eq_nil_iff.mp hnil)
    obtain ⟨c, tail, htext, hc⟩ := encode_cons hne []
    have hnext := readNext_encode hx.1 hx.2 (.inl rfl) found.reverse
    rw [readSegment_bare _ (.inl rfl), String.ofList_toList] at hnext
    rw [if_neg hempty, ← List.append_nil (Percent.encode x.toList), readSegments_next htext hc, hnext]
    cases (if Digit.isInteger x.toList = true then unqualified? found.reverse else none) with
    | some last =>
      cases readInteger x.toList with
      | error f => rfl
      | ok n =>
        dsimp only [Except.map, Except.bind]
        rw [readSegments_nil _ (r := .ofText []) rfl, List.reverse_cons]
    | none =>
      dsimp only [Except.map, Except.bind]
      rw [readSegments_nil _ (r := .ofText []) rfl, List.reverse_cons, List.reverse_reverse]

/-- What segments with a piece behind them are read as. -/
theorem segments_behind {found : List Segment} (hw : Writable found) {piece : Piece}
    (hpiece : piece.Plain) :
    segments ((pathText found).tail ++ piece.write) = piece.readBehind found := by
  cases piece with
  | position i => exact segments_position hw i
  | text x => exact segments_text hw hpiece

/-- A location that is read from a canonical address with a piece behind it. -/
theorem readBehind_of_read {scheme : String} (hs : ReadableScheme scheme) {found : List Segment}
    (hw : Writable found) {piece : Piece} (hpiece : piece.Plain) {l : Location}
    (h : read (String.ofList (canonicalText scheme found ++ piece.write)) = .ok (.ok l)) :
    l.scheme = scheme ∧ piece.readBehind found = .ok l.segments := by
  rw [canonicalText, List.append_assoc] at h
  rw [← segments_behind hw hpiece]
  exact segments_of_read hs h

/-- An integer that cannot be read is no malformed query. -/
theorem readInteger_ne_malformed (text : List Char) (problem : Problem) :
    readInteger text ≠ .error (.malformedQuery problem) := by
  intro h
  unfold readInteger at h
  split at h
  · exact (nomatch h)
  · next refusal _ => cases refusal <;> exact (nomatch Except.error.inj h)

/-- What a piece behind segments breaks off with is no malformed query. -/
theorem readBehind_ne_malformed (found : List Segment) (piece : Piece) (problem : Problem) :
    piece.readBehind found ≠ .error (.malformedQuery problem) := by
  have hmap : ∀ {α : Type} {text : List Char} {f : Int → α},
      (readInteger text).map f ≠ .error (.malformedQuery problem) := by
    intro α text f h
    cases hr : readInteger text with
    | error g =>
      rw [hr] at h
      obtain rfl := Except.error.inj h
      exact readInteger_ne_malformed text problem hr
    | ok n =>
      rw [hr] at h
      exact (nomatch h)
  intro h
  cases piece with
  | position i => exact hmap h
  | text x =>
    unfold Piece.readBehind at h
    dsimp only at h
    by_cases hempty : x = ""
    · rw [if_pos hempty] at h
      exact (nomatch h)
    · rw [if_neg hempty] at h
      split at h
      · exact hmap h
      · exact (nomatch h)

/-- A canonical address with a plain piece behind it is read as the segments with the piece. -/
theorem read_behind {scheme : String} (hs : ReadableScheme scheme) {found : List Segment}
    (hw : Writable found) {piece : Piece} (hpiece : piece.Plain) :
    read (String.ofList (canonicalText scheme found ++ piece.write)) =
      (piece.readBehind found).map fun extended => .ok ⟨scheme, extended⟩ := by
  rw [canonicalText, List.append_assoc, read_path hs, segments_behind hw hpiece]
  cases h : piece.readBehind found with
  | ok extended => rfl
  | error f =>
    cases f with
    | malformedQuery problem => exact absurd h (readBehind_ne_malformed found piece problem)
    | _ => rfl

/-- Segments with a plain piece behind them can be written as they are read, unless a position became
a segment of its own. -/
theorem writable_readBehind {found extended : List Segment} (hw : Writable found) {piece : Piece}
    (hpiece : piece.Plain) (hbare : ∀ i, piece = .position i → isBare found.reverse = true)
    (h : piece.readBehind found = .ok extended) : Writable extended := by
  cases Piece.extends_of_readBehind h with
  | position hn =>
    obtain ⟨hbefore, hhead, hfold⟩ := hw.before
    refine hbefore.concat ⟨hhead.nonempty, hhead.unopened, hhead.unasked, fun m hm => ?_,
      fun m hm => (nomatch hm)⟩ (fun r hr => (nomatch hr)) hfold
    obtain rfl := Qualifier.index.inj (Option.some.inj hm)
    exact intText?_of_readInteger hn
  | alone hqualified _ =>
    rw [hbare _ rfl] at hqualified
    exact absurd hqualified.symm Bool.false_ne_true
  | nothing => exact hw
  | folded _ _ hn =>
    obtain ⟨hbefore, hhead, hfold⟩ := hw.before
    refine hbefore.concat ⟨hhead.nonempty, hhead.unopened, hhead.unasked,
      fun m hm => (nomatch hm), fun m hm => ?_⟩ (fun r hr => (nomatch hr)) hfold
    obtain rfl := Qualifier.id.inj (Option.some.inj hm)
    exact intText?_of_readInteger hn
  | text hne hint =>
    exact hw.concat ⟨hne, hpiece.1, hpiece.2, fun m hm => (nomatch hm),
      fun m hm => (nomatch hm)⟩ (fun r hr => (nomatch hr)) hint

/-- No question mark stands in a written segment. -/
theorem question_not_mem_segmentText {s : Segment} (hs : s.Writable) : '?' ∉ segmentText s := by
  have hdigits : ∀ n, (Numeral.intText? n).isSome → '?' ∉ intText n := fun n hn hmem =>
    absurd ((isSigned_intText (intText?_eq hn)).isUnreserved hmem) (by decide)
  obtain ⟨head, qualifier⟩ := s
  intro hmem
  rcases List.mem_append.mp hmem with hmem | hmem
  · exact Percent.not_mem_encode (by decide) (by decide) _ hmem
  · match qualifier, hmem with
    | some (.index n), hmem =>
      rcases List.mem_append.mp hmem with hmem | hmem
      · rcases List.mem_append.mp hmem with hmem | hmem
        · exact absurd hmem (by decide)
        · exact hdigits n (hs.index n rfl) hmem
      · exact absurd hmem (by decide)
    | some (.id n), hmem =>
      rcases List.mem_cons.mp hmem with hslash | hmem
      · exact absurd hslash (by decide)
      · exact hdigits n (hs.id n rfl) hmem
    | some (.query r), hmem => exact absurd hmem List.not_mem_nil
    | none, hmem => exact absurd hmem List.not_mem_nil

/-- No question mark stands in a canonical address whose scheme has none. -/
theorem question_not_mem_canonicalText {scheme : String} {found : List Segment}
    (hw : ∀ s ∈ found, s.Writable) (hs : '?' ∉ scheme.toList) :
    '?' ∉ canonicalText scheme found := by
  intro hmem
  rcases List.mem_append.mp hmem with hmem | hmem
  · rcases List.mem_append.mp hmem with hmem | hmem
    · exact hs hmem
    · exact absurd hmem (by decide)
  · obtain ⟨s, hmems, hmem⟩ := List.mem_flatMap.mp (List.mem_of_mem_tail hmem)
    rcases List.mem_cons.mp hmem with hslash | hmem
    · exact absurd hslash (by decide)
    · exact question_not_mem_segmentText (hw s hmems) hmem

end ResourceAtlas.Address

import ResourceAtlas.Proofs.Address.Canonical

/-!
# The text of steps is the canonical text of segments

A step that a head leads to adds the coded head after a slash, a position adds itself between
brackets, and an identifier adds itself after a slash. So the steps of a walk along segments write
the canonical text of those segments.
-/

namespace ResourceAtlas.Address

open Number Query Text

/-- The steps in two parts are written one after the other. -/
theorem stepsTextFrom_append (text : List Char) (xs ys : List Step) :
    stepsTextFrom text (xs ++ ys) =
      (stepsTextFrom text xs).bind fun text => stepsTextFrom text ys := by
  induction xs generalizing text with
  | nil => rfl
  | cons x xs ih =>
    rw [List.cons_append, stepsTextFrom, stepsTextFrom]
    cases x.append text with
    | error f => rfl
    | ok next => exact ih next

/-- One more step is written behind the others. -/
theorem stepsTextFrom_concat {text next : List Char} {steps : List Step}
    (h : stepsTextFrom [] steps = .ok text) {step : Step} (hs : step.append text = .ok next) :
    stepsTextFrom [] (steps ++ [step]) = .ok next := by
  rw [stepsTextFrom_append, h, Except.bind, stepsTextFrom, hs]
  rfl

/-- A text that ends with characters other than slashes does not end at the root. -/
theorem endsAtRoot_append {piece : List Char} (hne : piece ≠ []) (h : '/' ∉ piece)
    (text : List Char) : endsAtRoot (text ++ piece) = false := by
  cases hr : piece.reverse with
  | nil => exact absurd (List.reverse_eq_nil_iff.mp hr) hne
  | cons c rest =>
    have hc : c ≠ '/' := by
      rintro rfl
      exact h (List.mem_reverse.mp (hr ▸ List.mem_cons_self))
    rw [endsAtRoot, List.reverse_append, hr, List.cons_append,
      show schemeMark.reverse = ['/', '/', ':'] from rfl, List.isPrefixOf_cons_cons,
      Bool.and_eq_false_iff]
    exact .inl (beq_eq_false_iff_ne.mpr (Ne.symm hc))

/-- The text of a root ends at the root. -/
theorem endsAtRoot_root (scheme : List Char) : endsAtRoot (scheme ++ schemeMark) = true := by
  rw [endsAtRoot, List.reverse_append]
  exact List.isPrefixOf_iff_prefix.mpr (List.prefix_append _ _)

/-- A piece behind the root follows it directly. -/
theorem appendPiece_root (scheme piece : List Char) :
    appendPiece (scheme ++ schemeMark) piece = scheme ++ schemeMark ++ piece :=
  if_pos (endsAtRoot_root scheme)

/-- A piece behind another one follows after a slash. -/
theorem appendPiece_append {last : List Char} (hne : last ≠ []) (h : '/' ∉ last)
    (text piece : List Char) :
    appendPiece (text ++ last) piece = text ++ last ++ '/' :: piece := by
  rw [appendPiece, endsAtRoot_append hne h, if_neg Bool.false_ne_true]

/-- A coded text has no slash. -/
theorem slash_not_mem_encode (text : List Char) : '/' ∉ Percent.encode text :=
  Percent.not_mem_encode (by decide) (by decide) text

/-- The text of an integer has no slash. -/
theorem slash_not_mem_intText {n : Int} {digits : List Char} (h : Numeral.intText? n = some digits) :
    '/' ∉ digits :=
  fun hmem => absurd (Numeral.isUnreserved_of_mem_intText h hmem) (by decide)

/-- The text of a segment ends with characters other than slashes. -/
theorem segmentText_eq_append {s : Segment} (hs : s.Writable) :
    ∃ text last, segmentText s = text ++ last ∧ last ≠ [] ∧ '/' ∉ last := by
  have hhead : Percent.encode s.head.toList ≠ [] :=
    Percent.encode_ne_nil fun hnil => hs.nonempty (String.toList_eq_nil_iff.mp hnil)
  have hslash := slash_not_mem_encode s.head.toList
  obtain ⟨head, qualifier⟩ := s
  cases qualifier with
  | none => exact ⟨[], Percent.encode head.toList, List.append_nil _, hhead, hslash⟩
  | some q =>
    cases q with
    | query r => exact ⟨[], Percent.encode head.toList, List.append_nil _, hhead, hslash⟩
    | index n =>
      refine ⟨Percent.encode head.toList ++ "%5B".toList ++ intText n, "%5D".toList, ?_, by decide,
        by decide⟩
      rw [segmentText, qualifierText, indexText, List.append_assoc, List.append_assoc,
        List.append_assoc]
    | id n =>
      have hn := intText?_eq (hs.id n rfl)
      refine ⟨Percent.encode head.toList ++ ['/'], intText n, ?_, Numeral.intText_ne_nil hn,
        slash_not_mem_intText hn⟩
      rw [segmentText, qualifierText, List.append_assoc]
      rfl

/-- The canonical text of segments with one more. -/
theorem canonicalText_concat {scheme : String} {segments : List Segment} (s : Segment) :
    canonicalText scheme (segments ++ [s]) =
      if segments = [] then scheme.toList ++ schemeMark ++ segmentText s
      else canonicalText scheme segments ++ '/' :: segmentText s := by
  have hone : pathText [s] = '/' :: segmentText s := List.append_nil _
  cases segments with
  | nil => rw [List.nil_append, if_pos rfl, canonicalText, hone, List.tail_cons]
  | cons t more =>
    have hpath : pathText (t :: more) = '/' :: (segmentText t ++ pathText more) := List.flatMap_cons
    rw [if_neg (List.cons_ne_nil t more), canonicalText, canonicalText, pathText_append, hone, hpath,
      List.cons_append, List.tail_cons, List.tail_cons]
    simp only [List.append_assoc]

/-- A piece behind canonical text is the text of one more segment. -/
theorem appendPiece_canonicalText {scheme : String} {segments : List Segment}
    (hw : ∀ s ∈ segments, s.Writable) {s : Segment} {piece : List Char}
    (hp : piece = segmentText s) :
    appendPiece (canonicalText scheme segments) piece =
      canonicalText scheme (segments ++ [s]) := by
  subst hp
  rw [canonicalText_concat]
  induction segments using List.reverseRecOn with
  | nil =>
    have hroot : canonicalText scheme [] = scheme.toList ++ schemeMark := List.append_nil _
    rw [if_pos rfl, hroot, appendPiece_root]
  | append_singleton more t =>
    have ht := hw t (List.mem_append_right more List.mem_cons_self)
    obtain ⟨text, last, htext, hne, hslash⟩ := segmentText_eq_append ht
    have hend : ∃ start, canonicalText scheme (more ++ [t]) = start ++ last := by
      rw [canonicalText_concat, htext]
      split
      · exact ⟨scheme.toList ++ schemeMark ++ text, (List.append_assoc _ _ _).symm⟩
      · exact ⟨canonicalText scheme more ++ '/' :: text, by rw [List.append_assoc]; rfl⟩
    obtain ⟨start, hstart⟩ := hend
    rw [if_neg (by simp), hstart, appendPiece_append hne hslash]

/-- A step that a head is written for. -/
def Step.Spells (step : Step) (head : String) : Prop :=
  ∀ text, step.append text = .ok (appendPiece text (Percent.encode head.toList))

/-- A property is written by its name. -/
theorem spells_prop (head : String) : (Step.prop head).Spells head := fun _ => rfl

/-- A member is written by its name. -/
theorem spells_name (head : String) : (Step.name (.text head)).Spells head := fun _ => rfl

/-- A member is written by its identifier. -/
theorem spells_id (head : String) : (Step.id (.text head)).Spells head := fun _ => rfl

/-- The text of an integer as a value. -/
theorem string?_int {n : Int} (h : (Numeral.intText? n).isSome) :
    (Value.int n).string? = some (String.ofList (intText n)) := by
  rw [show (Value.int n).string? = Value.intString? n from rfl, Value.intString?, intText?_eq h]
  rfl

/-- The text of a position stands behind that of the segment that it belongs to. -/
theorem canonicalText_index {scheme head : String} {segments : List Segment} (n : Int) :
    canonicalText scheme (segments ++ [⟨head, some (.index n)⟩]) =
      canonicalText scheme (segments ++ [⟨head, none⟩]) ++ indexText (intText n) := by
  have hsegment : segmentText ⟨head, some (.index n)⟩ =
      segmentText ⟨head, none⟩ ++ indexText (intText n) := by
    rw [segmentText, segmentText, qualifierText, qualifierText, List.append_nil]
  rw [canonicalText_concat, canonicalText_concat, hsegment]
  split
  · simp only [List.append_assoc]
  · simp only [List.append_assoc, List.cons_append]

/-- A position is written behind the segment that it belongs to. -/
theorem append_index {scheme head : String} {segments : List Segment} {n : Int}
    (h : (Numeral.intText? n).isSome) :
    (Step.index (.int n)).append (canonicalText scheme (segments ++ [⟨head, none⟩])) =
      .ok (canonicalText scheme (segments ++ [⟨head, some (.index n)⟩])) := by
  have hdigits : (String.ofList (intText n)).toList = intText n := String.toList_ofList
  rw [Step.append, string?_int h, canonicalText_index]
  simp only [writable, bind, Except.bind, hdigits, indexText, List.append_assoc]

/-- An identifier is written behind the segment that it belongs to. -/
theorem append_id {scheme head : String} {segments : List Segment}
    (hw : ∀ s ∈ segments ++ [⟨head, none⟩], s.Writable) {n : Int}
    (h : (Numeral.intText? n).isSome) :
    (Step.id (.int n)).append (canonicalText scheme (segments ++ [⟨head, none⟩])) =
      .ok (canonicalText scheme (segments ++ [⟨head, some (.id n)⟩])) := by
  have hn := intText?_eq h
  have hlast := hw _ (List.mem_append_right segments List.mem_cons_self)
  have hhead : Percent.encode head.toList ≠ [] :=
    Percent.encode_ne_nil fun hnil => hlast.nonempty (String.toList_eq_nil_iff.mp hnil)
  have hdigits : (String.ofList (intText n)).toList = intText n := String.toList_ofList
  have hbare : segmentText ⟨head, none⟩ = Percent.encode head.toList := List.append_nil _
  have hsegment : segmentText ⟨head, some (.id n)⟩ =
      Percent.encode head.toList ++ '/' :: intText n := rfl
  rw [Step.append, string?_int h, canonicalText_concat, canonicalText_concat, hbare, hsegment]
  simp only [writable, bind, Except.bind, hdigits, Numeral.encode_intText hn]
  split
  · rw [appendPiece_append hhead (slash_not_mem_encode _), List.append_assoc]
  · have hsplit : canonicalText scheme segments ++ '/' :: Percent.encode head.toList =
        canonicalText scheme segments ++ ['/'] ++ Percent.encode head.toList := by
      rw [List.append_assoc]
      rfl
    rw [hsplit, appendPiece_append hhead (slash_not_mem_encode _)]
    simp only [List.append_assoc, List.cons_append, List.nil_append]

end ResourceAtlas.Address

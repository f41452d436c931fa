import ResourceAtlas.Proofs.Address.Onward
import ResourceAtlas.Proofs.Text.Case

/-!
# Positions in every spelling of the bracket

An integer between brackets is the position of the segment in front of it, however the brackets are
spelled, as long as the head is no longer in upper case than it is. Where it is, the place at which the
bracket closes in the upper form is further on than in the text: more than the integer is taken for
what is inside, which is no integer then, and the bracket becomes a part of the head.
-/

namespace ResourceAtlas.Address

open Number Text

variable {head : String} {n : Int} {digits rest : List Char} {b : List Char × List Char}

/-- A text in which no head ends is a head, and what follows it is what is left of its upper form. -/
theorem drop_ofText_append (head rest : List Char) :
    (Remainder.ofText (head ++ rest)).drop head.length =
      ⟨rest, (Case.upper head ++ Case.upper rest).drop head.length⟩ := by
  unfold Remainder.ofText Remainder.drop
  rw [List.drop_left, upper_append]

/-- What closes a bracket is not found in the upper form of what opens it. -/
theorem atWord_upper_opening (hb : b ∈ brackets) (text : List Char) :
    Split.atWord (closingFor b.1.length) (Case.upper b.1 ++ text) =
      (Split.atWord (closingFor b.1.length) text).map fun parts =>
        (Case.upper b.1 ++ parts.1, parts.2) := by
  have hcoded : Split.atWord "%5D".toList ("%5B".toList ++ text) =
      (Split.atWord "%5D".toList text).map fun parts => ("%5B".toList ++ parts.1, parts.2) := by
    have hrest := @Split.atWord_skip '%' "5D".toList "5B".toList (by decide) text
    rw [show "%5B".toList ++ text = '%' :: ("5B".toList ++ text) from rfl, Split.atWord,
      if_neg (by simp), show "%5D".toList = '%' :: "5D".toList from rfl, hrest, Option.map_map]
    rfl
  simp only [brackets, List.mem_cons, List.not_mem_nil, or_false] at hb
  rcases hb with rfl | rfl | rfl
  · exact @Split.atWord_skip ']' [] "[".toList (by decide) text
  · exact hcoded
  · exact hcoded

/-- What closes a bracket is first found in the upper form of a text behind a head without its first
character and a written integer. -/
theorem atWord_upper (hb : b ∈ brackets) {head : List Char} (hclose : ']' ∉ head)
    (hcoded : '%' ∉ head) (hdigits : IsSigned digits) (rest : List Char) :
    Split.atWord (closingFor b.1.length)
        (Case.upper head ++ (Case.upper b.1 ++ Case.upper (digits ++ (b.2 ++ rest)))) =
      some (Case.upper head ++ (Case.upper b.1 ++ digits), Case.upper rest) := by
  have hhead : ∀ text, Split.atWord (closingFor b.1.length) (Case.upper head ++ text) =
      (Split.atWord (closingFor b.1.length) text).map fun parts =>
        (Case.upper head ++ parts.1, parts.2) := by
    intro text
    unfold closingFor
    split
    · exact Split.atWord_skip (Case.not_mem_upper (by decide) hclose) text
    · exact Split.atWord_skip (Case.not_mem_upper (by decide) hcoded) text
  rw [hhead, atWord_upper_opening hb, upper_append, upper_append, hdigits.upper_eq,
    (isBracket_of_mem hb).closes, ← List.append_assoc, hdigits.atWord_closingFor]
  rfl

/-- What starts with a part of the closing bracket stands for a text that starts with the bracket or
with a percent sign. -/
theorem decode_take_closing (hb : b ∈ brackets) (rest : List Char) {count : Nat}
    (hcount : 0 < count) :
    ∃ c tail, Percent.decode ((b.2 ++ rest).take count) = c :: tail ∧ (c = ']' ∨ c = '%') := by
  have hascii : ∀ octets, Utf8.decode (0x5D :: octets) = ']' :: Utf8.decode octets :=
    fun octets => Utf8.decode_ascii (c := ']') (by decide) octets
  obtain ⟨k, rfl⟩ := Nat.exists_eq_add_of_le' hcount
  simp only [brackets, List.mem_cons, List.not_mem_nil, or_false] at hb
  rcases hb with rfl | rfl | rfl
  · exact ⟨']', _, @Percent.decode_append [']'] (by decide) (rest.take k), .inl rfl⟩
  all_goals
    rcases k with _ | _ | k
    · exact ⟨'%', [], (by decide +kernel : Percent.decode ['%'] = ['%']), .inr rfl⟩
    · exact ⟨'%', ['5'], (by decide +kernel : Percent.decode ['%', '5'] = ['%', '5']), .inr rfl⟩
    · exact ⟨']', _, hascii (Percent.octets (rest.take k)), .inl rfl⟩

/-- A bracket behind a head that grows in upper case opens in the head. -/
theorem readBracket_grown (hb : b ∈ brackets) {head : List Char} (hclose : ']' ∉ head)
    (hcoded : '%' ∉ head) (hgrown : head.length < (Case.upper head).length)
    (hdigits : IsSigned digits) (rest : List Char) :
    ∃ more after, readBracket ((Remainder.ofText
        (head ++ (b.1 ++ (digits ++ (b.2 ++ rest))))).drop head.length) =
      .ok ⟨'[' :: more, none, after⟩ := by
  have hbracket := isBracket_of_mem hb
  have hopening : (Case.upper b.1).length = b.1.length := upper_length hbracket.openingAscii
  -- What is inside is cut where the bracket closes in the upper form.
  obtain ⟨before, hbefore⟩ : ∃ before, before =
      (Case.upper head ++ (Case.upper b.1 ++ digits)).drop (head.length + b.1.length) := ⟨_, rfl⟩
  have hlength : before.length = digits.length + ((Case.upper head).length - head.length) := by
    rw [hbefore, List.length_drop, List.length_append, List.length_append, hopening]
    omega
  have hat : Split.atWord (closingFor b.1.length)
      (((Case.upper head ++ Case.upper (b.1 ++ (digits ++ (b.2 ++ rest)))).drop head.length).drop
        b.1.length) = some (before, Case.upper rest) := by
    rw [List.drop_drop, upper_append b.1, hbefore]
    refine Split.atWord_drop (atWord_upper hb hclose hcoded hdigits rest) ?_
    rw [List.length_append, List.length_append, hopening]
    omega
  obtain ⟨c, tail, hdecode, hc⟩ := decode_take_closing hb rest
    (Nat.sub_pos_of_lt hgrown)
  have hinner : Percent.decode ((digits ++ (b.2 ++ rest)).take before.length) =
      digits ++ c :: tail := by
    rw [hlength, List.take_length_add_append, Percent.decode_append hdigits.not_percent_mem, hdecode]
  have hno : Digit.isInteger (digits ++ c :: tail) = false := by
    rw [← Bool.not_eq_true]
    intro hint
    have hmark : ∀ d : Char, d = ']' ∨ d = '%' →
        ¬ (Digit.isDigit d = true ∨ d = '-' ∨ d = '\n') := by
      rintro d (rfl | rfl) <;> decide
    exact hmark c hc (Numeral.mem_of_isInteger hint (List.mem_append_right _ List.mem_cons_self))
  rw [drop_ofText_append]
  refine ⟨_, _, readBracket_eq_ok.mpr (.named (hbracket.opens _) hat ?_)⟩
  rw [show ((Remainder.mk (b.1 ++ (digits ++ (b.2 ++ rest))) _).drop b.1.length).text =
    digits ++ (b.2 ++ rest) from List.drop_left, hinner, hno]

/-- A segment has the head that it is read for, with what its bracket adds. -/
theorem head_of_readSegment {head : List Char} {r : Remainder} {bracket : Bracket}
    {found : Segment × Remainder} (hbracket : readBracket r = .ok bracket)
    (h : readSegment head r = .ok found) :
    found.1.head = String.ofList (head ++ bracket.more) := by
  obtain ⟨b, request, hb, -, hs⟩ := readSegment_eq_ok.mp h
  obtain rfl := Except.ok.inj (hbracket.symm.trans hb)
  exact congrArg Segment.head hs

/-- The first segment of a path that starts with a head. -/
theorem segments_of_head {head : List Char} (hne : head ≠ [])
    (hclear : ∀ c ∈ headMarks, c ∉ head) {rest : List Char} (hrest : StopsHead rest) :
    segments (head ++ rest) =
      (readSegment head ((Remainder.ofText (head ++ rest)).drop head.length)).bind fun found =>
        readSegments [found.1] found.2 := by
  have hunmarked : ∀ c ∈ head, c ∉ headMarks := fun c hc hmem => hclear c hmem hc
  obtain ⟨c, tail, rfl⟩ := List.exists_cons_of_ne_nil hne
  have hslash : c ≠ '/' := fun heq => hunmarked c List.mem_cons_self (heq ▸ by decide)
  have hdecode : Percent.decode (c :: tail) = c :: tail :=
    Percent.decode_eq_self (hclear '%' (by decide))
  have hfold : (if Digit.isInteger (c :: tail) then unqualified? [] else none) = none := ite_self _
  rw [segments, @readSegments_next _ _ c (tail ++ rest) rfl hslash,
    readNext_of_head (headLength_of_unmarked hunmarked hrest) rfl, hdecode, hfold]
  cases readSegment (c :: tail) ((Remainder.ofText (c :: tail ++ rest)).drop (c :: tail).length) <;>
    rfl

/-- A position behind a head that is as long in upper case is the position of its segment. -/
theorem segments_level (hb : b ∈ brackets) (hne : head ≠ "")
    (hclear : ∀ c ∈ headMarks, c ∉ head.toList) (hn : Numeral.intText? n = some digits)
    (hrest : EndsSegment rest) (hlevel : (Case.upper head.toList).length = head.toList.length) :
    segments (head.toList ++ (b.1 ++ (digits ++ (b.2 ++ rest)))) =
      (segments rest).map (⟨head, some (.index n)⟩ :: ·) := by
  have hstops := stopsHead_opening hb (digits ++ (b.2 ++ rest))
  have hhead : head.toList ≠ [] := fun hnil => hne (String.toList_eq_nil_iff.mp hnil)
  have hread := readSegment_between (isBracket_of_mem hb) head.toList (isSigned_intText hn)
    (Numeral.isInteger_intText hn) hrest.questionLength?_eq
  have hmore := @readSegments_append [] [⟨head, some (.index n)⟩] (.ofText rest)
    fun _ hbare => absurd hbare Bool.false_ne_true
  rw [segments_of_head hhead hclear hstops, drop_ofText_of_length hlevel, hread, readInteger_intText hn,
    String.ofList_toList]
  exact hmore

/-- A position behind a head that grows in upper case is no position. -/
theorem segments_grown (hb : b ∈ brackets) (hne : head ≠ "")
    (hclear : ∀ c ∈ ']' :: headMarks, c ∉ head.toList) (hn : Numeral.intText? n = some digits)
    (hgrown : head.toList.length < (Case.upper head.toList).length) {q : Option Qualifier}
    (more : List Segment) :
    segments (head.toList ++ (b.1 ++ (digits ++ (b.2 ++ rest)))) ≠ .ok (⟨head, q⟩ :: more) := by
  have hmarks : ∀ c ∈ headMarks, c ∉ head.toList := fun c hc => hclear c (List.mem_cons_of_mem _ hc)
  have hstops := stopsHead_opening hb (digits ++ (b.2 ++ rest))
  have hhead : head.toList ≠ [] := fun hnil => hne (String.toList_eq_nil_iff.mp hnil)
  obtain ⟨inside, after, hbracket⟩ := readBracket_grown hb (hclear ']' List.mem_cons_self)
    (hmarks '%' (by decide)) hgrown (isSigned_intText hn) rest
  intro h
  rw [segments_of_head hhead hmarks hstops] at h
  obtain ⟨found, hfound, hrun⟩ := bind_eq_ok.mp h
  -- The head of the first segment is kept to the end of the run.
  have hkept : found.1.head = head := (List.cons_prefix_cons.mp (readSegments_heads _ _ hrun)).1
  have hlong := congrArg (fun s : String => s.toList.length)
    ((head_of_readSegment hbracket hfound).symm.trans hkept)
  simp only [String.toList_ofList, List.length_append, List.length_cons] at hlong
  omega

/-- An integer between brackets of any spelling is the position of the segment that it follows, and what
goes on behind it is read as it is alone, exactly if the head is no longer in upper case than it is. -/
theorem segments_bracketed (hb : b ∈ brackets) (hne : head ≠ "")
    (hclear : ∀ c ∈ ['/', '[', ']', '?', '%'], c ∉ head.toList)
    (hn : Numeral.intText? n = some digits) (hrest : EndsSegment rest) :
    ((Case.upper head.toList).length = head.toList.length →
      segments (head.toList ++ (b.1 ++ (digits ++ (b.2 ++ rest)))) =
        (segments rest).map (⟨head, some (.index n)⟩ :: ·)) ∧
      ((Case.upper head.toList).length ≠ head.toList.length → ∀ more,
        segments (head.toList ++ (b.1 ++ (digits ++ (b.2 ++ rest)))) ≠
          .ok (⟨head, some (.index n)⟩ :: more)) := by
  have hall : ∀ c ∈ ']' :: headMarks, c ∈ ['/', '[', ']', '?', '%'] := forall_mem_of_all (by decide)
  have hmarks : ∀ c ∈ ']' :: headMarks, c ∉ head.toList := fun c hc => hclear c (hall c hc)
  refine ⟨segments_level hb hne (fun c hc => hmarks c (List.mem_cons_of_mem _ hc)) hn hrest,
    fun hlong => segments_grown hb hne hmarks hn ?_⟩
  exact Nat.lt_of_le_of_ne (Case.length_le_upper _) (Ne.symm hlong)

/-- The position behind a plain head, in coded brackets and before another segment. -/
theorem segments_bracketed_items :
    segments "items%5b-12%5d/a".toList = (segments "/a".toList).map (⟨"items", some (.index (-12))⟩ :: ·) :=
  (segments_bracketed (show ("%5b".toList, "%5d".toList) ∈ brackets by decide)
    (show "items" ≠ "" by decide) (forall_mem_of_all (by decide))
    (show Numeral.intText? (-12) = some "-12".toList from rfl) (.inr ⟨_, rfl⟩)).1 rfl

/-- A sharp s becomes two letters in upper case, and no position is read behind it. -/
theorem segments_bracketed_sharp :
    segments [] = .ok [] ∧ segments "ß[0]".toList ≠ .ok [⟨"ß", some (.index 0)⟩] :=
  ⟨readSegments_nil [] rfl,
    @segments_grown "ß" 0 "0".toList [] ("[".toList, "]".toList) (by decide) (by decide)
      (forall_mem_of_all (by decide)) rfl (by decide) _ []⟩

end ResourceAtlas.Address
